import RationaleVault.CognitiveHead.Lifecycles
import RationaleVault.CognitiveHead.ReplayEngine
import RationaleVault.PythonSort

/-!
# What the blocker list says

The list is assembled from two sides: an unfinished task names the questions it
waits for, and an open question names the tasks it blocks. The second side only
asks whether the task is known. So the list is the blocking relation between
open questions and unfinished tasks exactly if no open question names a
completed task.
-/

open RationaleVault

/-- Iterating over the value yields the key. -/
def Json.Lists (v : Json) (k : AtomNorm) : Prop :=
  ∃ items, v.toList = .ok items ∧ ∃ x ∈ items, HasKey x k

theorem Json.lists_iff {v : Json} {items : List Json} (h : v.toList = .ok items) {k : AtomNorm} :
    v.Lists k ↔ ∃ x ∈ items, HasKey x k := by
  constructor
  · rintro ⟨items', h', hx⟩
    rwa [← Except.ok.inj (h.symm.trans h')] at hx
  · exact fun hx => ⟨items, h, hx⟩

theorem Json.hasKey_of_hash {v : Json} {a : Atom} (h : v.hash = .ok a) {k : AtomNorm} :
    HasKey v k ↔ DictKey.norm a = k := by
  cases v with
  | atom b =>
      rw [← Except.ok.inj h]
      exact hasKey_atom_iff
  | arr items => cases h
  | obj members => cases h

namespace RationaleVault

open LastWrite (Holds)

theorem HasKey.unique {v : Json} {k k' : AtomNorm} (h : HasKey v k) (h' : HasKey v k') :
    k = k' := by
  obtain ⟨a, rfl, rfl⟩ := h
  exact hasKey_atom_iff.mp h'

/-! ## The blocker map -/

namespace BlockerMap

/-- The map holds question `q` for task `k`. -/
def Rel (m : BlockerMap) (k q : Atom) : Prop :=
  ∃ qids, m.get? k = some qids ∧ qids.contains q = true

theorem not_rel_empty (k q : Atom) : ¬ Rel .empty k q := by
  rintro ⟨qids, h, _⟩
  cases h

theorem rel_add (m : BlockerMap) (t x k q : Atom) :
    (m.add t x).Rel k q ↔
      m.Rel k q ∨ (DictKey.norm t = DictKey.norm k ∧ DictKey.norm x = DictKey.norm q) := by
  unfold Rel add
  rw [OrdDict.get?_set]
  by_cases hk : DictKey.norm t = DictKey.norm k
  · rw [if_pos hk, OrdDict.get?_congr hk]
    simp only [Option.some_inj, exists_eq_left', hk, true_and, OrdDict.contains, OrdDict.get?_set]
    by_cases hq : DictKey.norm x = DictKey.norm q
    · simp [hq]
    · rw [if_neg hq]
      cases m.get? k <;> simp [hq, OrdDict.get?, OrdDict.empty, OrdDict.lookupIn]
  · simp [hk]

/-- Every task of the map has a question. -/
def Inhabited (m : BlockerMap) : Prop :=
  ∀ k qids, m.get? k = some qids → ∃ q, qids.contains q = true

theorem inhabited_add {m : BlockerMap} (h : m.Inhabited) (t x : Atom) : (m.add t x).Inhabited := by
  intro k qids hget
  rw [add, OrdDict.get?_set] at hget
  split_ifs at hget
  · rw [← Option.some.inj hget]
    exact ⟨x, by simp [OrdDict.contains]⟩
  · exact h k qids hget

end BlockerMap

theorem contains_questionIds {questions : List QuestionState} {ids : OrdDict Atom Unit}
    (h : questionIds questions = .ok ids) (x : Atom) :
    ids.contains x = true ↔ ∃ q ∈ questions, HasKey q.questionId (DictKey.norm x) := by
  have hcollect := Fold.collects (P := fun ids : OrdDict Atom Unit => ids.contains x = true)
    (R := fun q : QuestionState => HasKey q.questionId (DictKey.norm x)) ?_ h
  · rw [hcollect]
    exact or_iff_right (by simp [OrdDict.contains, OrdDict.get?, OrdDict.empty, OrdDict.lookupIn])
  · intro ids q ids' _ hstep
    simp only [Except.bind_eq_ok_iff, Except.pure_eq_ok_iff] at hstep
    obtain ⟨a, ha, rfl⟩ := hstep
    rw [Json.hasKey_of_hash ha, OrdDict.contains, OrdDict.get?_set]
    split_ifs with heq <;> simp [heq, OrdDict.contains]

/-! ## The two sides -/

section Sides

variable {allTasks : TaskDict} {openIds : OrdDict Atom Unit} {m m' : BlockerMap}

/-- A loop that adds a pair for each item it keeps. -/
theorem rel_foldlM_add {items : List Json} {other : Json} (keep : Atom → Bool)
    (pair : Atom → Atom → Atom × Atom)
    (h : items.foldlM (fun m v => do
      let a ← v.hash
      if keep a then
        let b ← other.hash
        return BlockerMap.add m (pair a b).1 (pair a b).2
      else return m) m = .ok m') (k q : Atom) :
    m'.Rel k q ↔ m.Rel k q ∨ ∃ v ∈ items, ∃ a b, v.hash = .ok a ∧ keep a = true ∧
      other.hash = .ok b ∧ DictKey.norm (pair a b).1 = DictKey.norm k ∧
        DictKey.norm (pair a b).2 = DictKey.norm q := by
  refine Fold.collects (P := fun m : BlockerMap => m.Rel k q) ?_ h
  intro m v m' _ hstep
  simp only [Except.bind_eq_ok_iff] at hstep
  obtain ⟨a, ha, hstep⟩ := hstep
  split_ifs at hstep with hkeep
  · simp only [Except.bind_eq_ok_iff, Except.pure_eq_ok_iff] at hstep
    obtain ⟨b, hb, rfl⟩ := hstep
    rw [BlockerMap.rel_add]
    refine or_congr_right ⟨fun hpair => ⟨a, b, ha, hkeep, hb, hpair⟩, ?_⟩
    rintro ⟨a', b', ha', _, hb', hpair⟩
    rwa [Except.ok.inj (ha.symm.trans ha'), Except.ok.inj (hb.symm.trans hb')]
  · rw [Except.pure_eq_ok_iff] at hstep
    rw [← hstep]
    refine (or_iff_left ?_).symm
    rintro ⟨a', b', ha', hkeep', _⟩
    rw [Except.ok.inj (ha.symm.trans ha')] at hkeep
    exact hkeep hkeep'

theorem inhabited_foldlM_add {items : List Json} {other : Json} (keep : Atom → Bool)
    (pair : Atom → Atom → Atom × Atom) (hm : m.Inhabited)
    (h : items.foldlM (fun m v => do
      let a ← v.hash
      if keep a then
        let b ← other.hash
        return BlockerMap.add m (pair a b).1 (pair a b).2
      else return m) m = .ok m') : m'.Inhabited := by
  refine Fold.invariant (P := BlockerMap.Inhabited) ?_ hm h
  intro m v m' _ hm hstep
  simp only [Except.bind_eq_ok_iff] at hstep
  obtain ⟨a, ha, hstep⟩ := hstep
  split_ifs at hstep
  · simp only [Except.bind_eq_ok_iff, Except.pure_eq_ok_iff] at hstep
    obtain ⟨b, hb, rfl⟩ := hstep
    exact BlockerMap.inhabited_add hm _ _
  · rw [Except.pure_eq_ok_iff] at hstep
    exact hstep ▸ hm

/-- A task waits for the open questions it names. -/
theorem rel_blockersOfTask {task : TaskState} (h : blockersOfTask openIds m task = .ok m')
    (k q : Atom) :
    m'.Rel k q ↔ m.Rel k q ∨ (HasKey task.taskId (DictKey.norm k) ∧
      task.blockedBy.Lists (DictKey.norm q) ∧ openIds.contains q = true) := by
  simp only [blockersOfTask, Except.bind_eq_ok_iff] at h
  obtain ⟨items, hitems, h⟩ := h
  rw [rel_foldlM_add openIds.contains (fun a b => (b, a)) h, Json.lists_iff hitems]
  refine or_congr_right ⟨?_, ?_⟩
  · rintro ⟨v, hv, a, b, ha, hkeep, hb, hk, hq⟩
    exact ⟨(Json.hasKey_of_hash hb).mpr hk, ⟨v, hv, (Json.hasKey_of_hash ha).mpr hq⟩,
      OrdDict.contains_congr hq ▸ hkeep⟩
  · rintro ⟨⟨b, hb, hk⟩, ⟨v, hv, a, rfl, hq⟩, hkeep⟩
    exact ⟨.atom a, hv, a, b, rfl, OrdDict.contains_congr hq ▸ hkeep, by rw [hb]; rfl, hk, hq⟩

/-- A question blocks the known tasks it names. -/
theorem rel_blockersOfQuestion {question : QuestionState}
    (h : blockersOfQuestion allTasks m question = .ok m') (k q : Atom) :
    m'.Rel k q ↔ m.Rel k q ∨ (HasKey question.questionId (DictKey.norm q) ∧
      question.blocksTaskIds.Lists (DictKey.norm k) ∧ allTasks.contains k = true) := by
  simp only [blockersOfQuestion, Except.bind_eq_ok_iff] at h
  obtain ⟨items, hitems, h⟩ := h
  rw [rel_foldlM_add allTasks.contains (fun a b => (a, b)) h, Json.lists_iff hitems]
  refine or_congr_right ⟨?_, ?_⟩
  · rintro ⟨v, hv, a, b, ha, hkeep, hb, hk, hq⟩
    exact ⟨(Json.hasKey_of_hash hb).mpr hq, ⟨v, hv, (Json.hasKey_of_hash ha).mpr hk⟩,
      OrdDict.contains_congr hk ▸ hkeep⟩
  · rintro ⟨⟨b, hb, hq⟩, ⟨v, hv, a, rfl, hk⟩, hkeep⟩
    exact ⟨.atom a, hv, a, b, rfl, OrdDict.contains_congr hk ▸ hkeep, by rw [hb]; rfl, hk, hq⟩

/-- The map holds what one of the two sides names. -/
theorem rel_blockerMap {activeTasks : List TaskState} {questions : List QuestionState}
    (h : blockerMap allTasks activeTasks questions = .ok m) (k q : Atom) :
    m.Rel k q ↔
      (∃ t ∈ activeTasks, HasKey t.taskId (DictKey.norm k) ∧ t.blockedBy.Lists (DictKey.norm q) ∧
        ∃ x ∈ questions, HasKey x.questionId (DictKey.norm q)) ∨
      ∃ x ∈ questions, HasKey x.questionId (DictKey.norm q) ∧
        x.blocksTaskIds.Lists (DictKey.norm k) ∧ allTasks.contains k = true := by
  simp only [blockerMap, Except.bind_eq_ok_iff] at h
  obtain ⟨ids, hids, m₁, hm₁, h⟩ := h
  rw [Fold.collects (f := blockersOfQuestion allTasks) (P := fun m => m.Rel k q)
      (fun _ _ _ _ hstep => rel_blockersOfQuestion hstep k q) h,
    Fold.collects (f := blockersOfTask ids) (P := fun m => m.Rel k q)
      (fun _ _ _ _ hstep => rel_blockersOfTask hstep k q) hm₁,
    or_iff_right (BlockerMap.not_rel_empty k q)]
  simp only [contains_questionIds hids]

/-- Every task of the map has a question. -/
theorem inhabited_blockerMap {activeTasks : List TaskState} {questions : List QuestionState}
    (h : blockerMap allTasks activeTasks questions = .ok m) : m.Inhabited := by
  simp only [blockerMap, Except.bind_eq_ok_iff] at h
  obtain ⟨ids, hids, m₁, hm₁, h⟩ := h
  refine Fold.invariant (P := BlockerMap.Inhabited) ?_ ?_ h
  · intro m x m' _ hm hstep
    simp only [blockersOfQuestion, Except.bind_eq_ok_iff] at hstep
    obtain ⟨items, hitems, hstep⟩ := hstep
    exact inhabited_foldlM_add allTasks.contains (fun a b => (a, b)) hm hstep
  · refine Fold.invariant (P := BlockerMap.Inhabited) ?_ ?_ hm₁
    · intro m t m' _ hm hstep
      simp only [blockersOfTask, Except.bind_eq_ok_iff] at hstep
      obtain ⟨items, hitems, hstep⟩ := hstep
      exact inhabited_foldlM_add ids.contains (fun a b => (b, a)) hm hstep
    · intro k qids hget
      cases hget

end Sides

/-! ## Sorted question ids -/

/-- The values are scalars in strictly ascending order. -/
def Ascending (values : List Json) : Prop :=
  values.Pairwise fun v w => ∃ a b, v = .atom a ∧ w = .atom b ∧
    AtomNorm.le (DictKey.norm a) (DictKey.norm b) = true ∧ DictKey.norm a ≠ DictKey.norm b

theorem Atom.sorted_perm {keys ids : List Atom} (h : Atom.sorted keys = .ok ids) :
    ids.Perm keys := by
  unfold Atom.sorted at h
  split_ifs at h
  · rw [← Except.ok.inj h]
    exact List.perm_insertionSort _ _
  · rw [← Except.ok.inj h]
    exact List.perm_insertionSort _ _
  · rw [← Except.ok.inj h]

theorem pairwise_insertionSort_key {α κ : Type} [LinearOrder κ] (key : α → κ) (l : List α) :
    (l.insertionSort fun a b => key a ≤ key b).Pairwise fun a b => key a ≤ key b := by
  have : Std.Total fun a b : α => key a ≤ key b := ⟨fun a b => le_total (key a) (key b)⟩
  have : IsTrans α fun a b : α => key a ≤ key b := ⟨fun _ _ _ => le_trans⟩
  exact List.pairwise_insertionSort _ l

theorem Atom.exists_of_isStr {a : Atom} (h : a.isStr = true) : ∃ s, a = .str s := by
  cases a with
  | str s => exact ⟨s, rfl⟩
  | _ => cases h

theorem Atom.norm_of_number? {a : Atom} {p : ℚ} (h : a.number? = some p) :
    DictKey.norm a = .num p := by
  cases a with
  | null => cases h
  | str s => cases h
  | bool b => rw [← Option.some.inj h]; rfl
  | int n => rw [← Option.some.inj h]; rfl
  | float x => rw [← Option.some.inj h]; rfl

/-- Sorting orders scalars as they compare. -/
theorem Atom.sorted_pairwise {keys ids : List Atom} (h : Atom.sorted keys = .ok ids) :
    ids.Pairwise fun a b => AtomNorm.le (DictKey.norm a) (DictKey.norm b) = true := by
  have hmem := fun a => (Atom.sorted_perm h).mem_iff (a := a)
  unfold Atom.sorted at h
  split_ifs at h with hstr hnum hlen
  · have htext : ∀ a ∈ keys, ∃ s, a = .str s := fun a ha =>
      Atom.exists_of_isStr (List.all_eq_true.mp hstr a ha)
    have hsorted : ids.Pairwise fun a b => a.jsonKey ≤ b.jsonKey := by
      rw [← Except.ok.inj h, ← List.map_id keys, ← List.map_insertionSort
        (fun a b => Atom.jsonKey a ≤ Atom.jsonKey b) _ id keys, List.map_id]
      · exact pairwise_insertionSort_key Atom.jsonKey keys
      · intro a ha b hb
        obtain ⟨s, rfl⟩ := htext a ha
        obtain ⟨t, rfl⟩ := htext b hb
        simp [Atom.jsonKey]
    refine hsorted.imp_of_mem fun {a b} ha hb hab => ?_
    obtain ⟨s, rfl⟩ := htext a ((hmem a).mp ha)
    obtain ⟨t, rfl⟩ := htext b ((hmem b).mp hb)
    exact decide_eq_true hab
  · have hsorted : ids.Pairwise fun a b => a.number?.getD 0 ≤ b.number?.getD 0 := by
      rw [← Except.ok.inj h]
      exact pairwise_insertionSort_key (fun a : Atom => a.number?.getD 0) keys
    refine hsorted.imp_of_mem fun {a b} ha hb hab => ?_
    obtain ⟨p, hp⟩ := Option.isSome_iff_exists.mp
      (List.all_eq_true.mp hnum a ((hmem a).mp ha))
    obtain ⟨q, hq⟩ := Option.isSome_iff_exists.mp
      (List.all_eq_true.mp hnum b ((hmem b).mp hb))
    rw [hp, hq] at hab
    rw [Atom.norm_of_number? hp, Atom.norm_of_number? hq]
    exact decide_eq_true hab
  · rw [← Except.ok.inj h]
    rcases keys with _ | ⟨a, _ | ⟨b, rest⟩⟩
    · exact List.Pairwise.nil
    · exact List.pairwise_singleton _ a
    · simp at hlen

/-- Sorted keys of a dictionary ascend. -/
theorem ascending_of_sorted {keys ids : List Atom} (h : Atom.sorted keys = .ok ids)
    (hkeys : (keys.map DictKey.norm).Nodup) : Ascending (ids.map Json.atom) := by
  have hperm := Atom.sorted_perm h
  have hnodup : ids.Pairwise fun a b => DictKey.norm a ≠ DictKey.norm b := by
    rw [← List.pairwise_map]
    exact (hperm.map DictKey.norm).nodup_iff.mpr hkeys
  rw [Ascending, List.pairwise_map]
  exact ((Atom.sorted_pairwise h).and hnodup).imp fun {a b} hab => ⟨a, b, rfl, rfl, hab⟩

/-! ## The entries -/

/-- The entries are those of the known tasks, in order. -/
theorem blockerEntries_spec {allTasks : TaskDict} {l : List (Atom × OrdDict Atom Unit)}
    {blockers : List Blocker} (h : blockerEntries allTasks l = .ok blockers) :
    List.Forall₂ (fun e b => b.taskId = .atom e.1 ∧ ∃ ids, Atom.sorted e.2.keys = .ok ids ∧
      b.blockedByQuestions = ids.map Json.atom) (l.filter fun e => allTasks.contains e.1)
      blockers := by
  induction l generalizing blockers with
  | nil =>
      rw [← Except.ok.inj h]
      exact List.Forall₂.nil
  | cons e rest ih =>
      obtain ⟨tid, qids⟩ := e
      rw [blockerEntries] at h
      cases hget : allTasks.get? tid with
      | none =>
          rw [hget] at h
          rw [List.filter_cons_of_neg (by simp [OrdDict.contains, hget])]
          exact ih h
      | some t =>
          simp only [hget, Except.bind_eq_ok_iff, Except.pure_eq_ok_iff] at h
          obtain ⟨ids, hids, entries, hentries, rfl⟩ := h
          rw [List.filter_cons_of_pos (by simp [OrdDict.contains, hget])]
          exact List.Forall₂.cons ⟨rfl, ids, hids, rfl⟩ (ih hentries)

section Entries

variable {allTasks : TaskDict} {m : BlockerMap} {blockers : List Blocker}

/-- No task has two entries. -/
def Once (blockers : List Blocker) : Prop :=
  blockers.Pairwise fun b b' => ∀ k, HasKey b.taskId k → ¬ HasKey b'.taskId k

theorem once_blockerEntries (h : blockerEntries allTasks m.entries = .ok blockers) :
    Once blockers := by
  have hmap : blockers.map Blocker.taskId =
      (m.entries.filter fun e => allTasks.contains e.1).map fun e => Json.atom e.1 := by
    rw [← List.forall₂_eq_eq_eq, List.forall₂_map_left_iff, List.forall₂_map_right_iff]
    exact (blockerEntries_spec h).flip.imp fun _ _ hspec => hspec.1
  have hkeys : (m.entries.filter fun e => allTasks.contains e.1).Pairwise fun e e' =>
      DictKey.norm e.1 ≠ DictKey.norm e'.1 := by
    have hnodup := m.normKeys_nodup
    rw [OrdDict.normKeys, List.Nodup, List.pairwise_map] at hnodup
    exact hnodup.sublist List.filter_sublist
  have hids : (blockers.map Blocker.taskId).Pairwise fun v w => ∀ k, HasKey v k → ¬ HasKey w k := by
    rw [hmap, List.pairwise_map]
    refine hkeys.imp fun {e e'} hne k hk hk' => hne ?_
    exact (hasKey_atom_iff.mp hk).trans (hasKey_atom_iff.mp hk').symm
  exact List.pairwise_map.mp hids

/-- The entry of a task lists what the map holds for it, in order. -/
theorem mem_blockerEntries (h : blockerEntries allTasks m.entries = .ok blockers) {b : Blocker}
    (hb : b ∈ blockers) {k : Atom} (hk : HasKey b.taskId (DictKey.norm k)) :
    allTasks.contains k = true ∧ Ascending b.blockedByQuestions ∧
      (∃ qids, m.get? k = some qids) ∧
      ∀ q : Atom, (∃ v ∈ b.blockedByQuestions, HasKey v (DictKey.norm q)) ↔ m.Rel k q := by
  obtain ⟨e, he, htask, ids, hids, hquestions⟩ :=
    (blockerEntries_spec h).flip.exists_of_mem hb
  obtain ⟨he, hknown⟩ := List.mem_filter.mp he
  rw [htask, hasKey_atom_iff] at hk
  have hget : m.get? k = some e.2 := by rw [← OrdDict.get?_congr hk, OrdDict.get?_of_mem he]
  refine ⟨OrdDict.contains_congr hk ▸ hknown, ?_, ⟨_, hget⟩, fun q => ?_⟩
  · rw [hquestions]
    apply ascending_of_sorted hids
    rw [OrdDict.keys, List.map_map]
    exact e.2.normKeys_nodup
  · rw [hquestions, BlockerMap.Rel, hget]
    simp only [Option.some_inj, exists_eq_left', OrdDict.contains_iff, List.mem_map,
      exists_exists_and_eq_and, hasKey_atom_iff, (Atom.sorted_perm hids).mem_iff, OrdDict.normKeys,
      OrdDict.keys]

/-- Every known task of the map has an entry. -/
theorem exists_entry_of_rel (h : blockerEntries allTasks m.entries = .ok blockers) {k q : Atom}
    (hk : allTasks.contains k = true) (hrel : m.Rel k q) :
    ∃ b ∈ blockers, HasKey b.taskId (DictKey.norm k) := by
  obtain ⟨qids, hget, _⟩ := hrel
  obtain ⟨e, he, hnorm, _⟩ := OrdDict.lookupIn_mem hget
  obtain ⟨b, hb, htask, _⟩ := (blockerEntries_spec h).exists_of_mem
    (List.mem_filter.mpr ⟨he, OrdDict.contains_congr hnorm ▸ hk⟩)
  exact ⟨b, hb, htask ▸ hasKey_atom_iff.mpr hnorm⟩

/-- Maps that hold the same questions for the known tasks have the same entries. -/
theorem entries_of_rel {m' : BlockerMap} {blockers' : List Blocker} (hm : m.Inhabited)
    (h : blockerEntries allTasks m.entries = .ok blockers)
    (h' : blockerEntries allTasks m'.entries = .ok blockers')
    (hrel : ∀ k q, m.Rel k q → m'.Rel k q) {k : AtomNorm} {b : Blocker} (hb : b ∈ blockers)
    (hk : HasKey b.taskId k) :
    ∃ b' ∈ blockers', HasKey b'.taskId k ∧
      ∀ q, (∃ v ∈ b.blockedByQuestions, HasKey v q) → ∃ v ∈ b'.blockedByQuestions, HasKey v q := by
  obtain ⟨a, _, rfl⟩ := id hk
  obtain ⟨hknown, _, ⟨qids, hget⟩, hquestions⟩ := mem_blockerEntries h hb hk
  obtain ⟨x, hx⟩ := hm a qids hget
  obtain ⟨b', hb', hk'⟩ := exists_entry_of_rel h' hknown (hrel a x ⟨qids, hget, hx⟩)
  refine ⟨b', hb', hk', ?_⟩
  rintro q ⟨v, hv, hq⟩
  obtain ⟨y, _, rfl⟩ := id hq
  exact ((mem_blockerEntries h' hb' hk').2.2.2 y).mpr (hrel a y ((hquestions y).mp ⟨v, hv, hq⟩))

/-- Maps that hold the same pairs make the same blockers. -/
theorem sameBlockers_of_rel {m' : BlockerMap} {blockers' : List Blocker} (hm : m.Inhabited)
    (hm' : m'.Inhabited) (h : blockerEntries allTasks m.entries = .ok blockers)
    (h' : blockerEntries allTasks m'.entries = .ok blockers')
    (hrel : ∀ k q, m.Rel k q ↔ m'.Rel k q) (k : AtomNorm) :
    ((∃ b ∈ blockers, HasKey b.taskId k) ↔ ∃ b ∈ blockers', HasKey b.taskId k) ∧
      ∀ q, (∃ b ∈ blockers, HasKey b.taskId k ∧ ∃ v ∈ b.blockedByQuestions, HasKey v q) ↔
        ∃ b ∈ blockers', HasKey b.taskId k ∧ ∃ v ∈ b.blockedByQuestions, HasKey v q := by
  refine ⟨⟨?_, ?_⟩, fun q => ⟨?_, ?_⟩⟩
  · rintro ⟨b, hb, hk⟩
    obtain ⟨b', hb', hk', _⟩ := entries_of_rel hm h h' (fun k q => (hrel k q).mp) hb hk
    exact ⟨b', hb', hk'⟩
  · rintro ⟨b, hb, hk⟩
    obtain ⟨b', hb', hk', _⟩ := entries_of_rel hm' h' h (fun k q => (hrel k q).mpr) hb hk
    exact ⟨b', hb', hk'⟩
  · rintro ⟨b, hb, hk, hq⟩
    obtain ⟨b', hb', hk', hquestions⟩ := entries_of_rel hm h h' (fun k q => (hrel k q).mp) hb hk
    exact ⟨b', hb', hk', hquestions q hq⟩
  · rintro ⟨b, hb, hk, hq⟩
    obtain ⟨b', hb', hk', hquestions⟩ := entries_of_rel hm' h' h (fun k q => (hrel k q).mpr) hb hk
    exact ⟨b', hb', hk', hquestions q hq⟩

end Entries

/-! ## Open questions and the tasks they name -/

namespace QuestionReducer

/-- The status an event gives to the question it addresses. -/
def statusWrite (event : EventRecord) : Option (LastWrite.Write Json) :=
  match event.eventType with
  | .openQuestionRaised => some (.create (.str "open"))
  | .openQuestionResolved => some (.update (.str "resolved"))
  | _ => none

/-- The blocked tasks an event gives to the question it addresses; one that cannot be listed
stops the replay. -/
def blocksWrite (event : EventRecord) : Option (LastWrite.Write Json) :=
  match event.eventType with
  | .openQuestionRaised =>
      match (event.payload.getD "blocks_task_ids" (.arr [])).toList with
      | .ok items => some (.create (.arr items))
      | .error _ => some (.create .null)
  | _ => none

theorem blocksWrite_raised {event : EventRecord} (h : event.eventType = .openQuestionRaised) :
    ∃ v, blocksWrite event = some (.create v) ∧
      ∀ n, v.Lists n ↔ (event.payload.getD "blocks_task_ids" (.arr [])).Lists n := by
  rw [blocksWrite, h]
  cases hlist : (event.payload.getD "blocks_task_ids" (.arr [])).toList with
  | ok items =>
      refine ⟨_, rfl, fun n => ?_⟩
      rw [Json.lists_iff hlist, Json.lists_iff (Json.toList_arr items)]
  | error e =>
      refine ⟨_, rfl, fun n => iff_of_false ?_ ?_⟩
      · rintro ⟨items, hitems, _⟩
        cases hitems
      · rintro ⟨items, hitems, _⟩
        cases hlist.symm.trans hitems

theorem writeAt_statusWrite_eq_none_iff (k : AtomNorm) (event : EventRecord) :
    writeAt questionIdOf statusWrite k event = none ↔
      ¬ event.IsFor .openQuestionRaised questionIdOf k ∧
        ¬ event.IsFor .openQuestionResolved questionIdOf k := by
  by_cases haddr : event.Addresses questionIdOf k
  · rw [writeAt, if_pos haddr]
    simp only [EventRecord.IsFor, haddr, and_true]
    unfold statusWrite
    split <;> simp_all
  · rw [writeAt, if_neg haddr]
    simp [EventRecord.IsFor, haddr]

theorem writes_status : Writes action QuestionState.status statusWrite := by
  intro e
  unfold action
  split <;> rename_i htype
  · rintro q hq
    simp only [raised, Except.bind_eq_ok_iff, Except.pure_eq_ok_iff] at hq
    obtain ⟨_, _, rfl⟩ := hq
    simp [statusWrite, htype]
  · exact Or.inl ⟨.str "resolved", by simp [statusWrite, htype],
      fun q q' hq => by rw [← Except.ok.inj hq]; rfl⟩
  · show statusWrite e = none
    unfold statusWrite
    split <;> simp_all

theorem writes_blocks : Writes action QuestionState.blocksTaskIds blocksWrite := by
  intro e
  unfold action
  split <;> rename_i htype
  · rintro q hq
    simp only [raised, Except.bind_eq_ok_iff, Except.pure_eq_ok_iff] at hq
    obtain ⟨items, hitems, rfl⟩ := hq
    simp [blocksWrite, htype, hitems]
  · exact Or.inr ⟨by simp [blocksWrite, htype], fun q q' hq => by rw [← Except.ok.inj hq]; rfl⟩
  · show blocksWrite e = none
    unfold blocksWrite
    split <;> simp_all

/-- The last raising of a question says which tasks it blocks. -/
theorem blocks_of_raised {events A B : List EventRecord} {raised : EventRecord} {k : AtomNorm}
    (hevents : events = A ++ raised :: B)
    (hraised : raised.IsFor .openQuestionRaised questionIdOf k)
    (hlast : ∀ e ∈ B, ¬ e.IsFor .openQuestionRaised questionIdOf k) {v : Json}
    (hv : Holds (writeAt questionIdOf blocksWrite k) events v) (n : AtomNorm) :
    v.Lists n ↔ (raised.payload.getD "blocks_task_ids" (.arr [])).Lists n := by
  obtain ⟨A', x, B', w, hsplit, hx, rfl, _, hrest⟩ := hv
  obtain ⟨haddr, hx⟩ := writeAt_eq_some_iff.mp hx
  have htype : x.eventType = .openQuestionRaised := by
    unfold blocksWrite at hx
    split at hx
    · assumption
    · cases hx
  rcases LastWrite.split_cases (hevents.symm.trans hsplit) with ⟨_, rfl, _⟩ | ⟨C, rfl, _⟩ |
    ⟨C, rfl, _⟩
  · obtain ⟨v, hv, hlists⟩ := blocksWrite_raised htype
    rw [Option.some.inj (hx.symm.trans hv)]
    exact hlists n
  · exact absurd ⟨htype, haddr⟩ (hlast x (by simp))
  · refine absurd hraised (not_isFor_of_writeAt (fun e he => ?_) (hrest raised (by simp)))
    obtain ⟨v, hv, _⟩ := blocksWrite_raised he
    simp [hv]

end QuestionReducer

/-- The question that named the task when it was raised last has not been resolved since. -/
def NamedByOpenQuestion (events : List EventRecord) (k : AtomNorm) : Prop :=
  ∃ A raised B q, events = A ++ raised :: B ∧ raised.IsFor .openQuestionRaised questionIdOf q ∧
    (raised.payload.getD "blocks_task_ids" (.arr [])).Lists k ∧
    ∀ e ∈ B, ¬ e.IsFor .openQuestionRaised questionIdOf q ∧
      ¬ e.IsFor .openQuestionResolved questionIdOf q

/-- The open questions of a replay and the tasks they name. -/
theorem namedByOpenQuestion_iff {d : QuestionDict} {events : List EventRecord}
    (h : QuestionReducer.reduce .empty events = .ok d) (k : AtomNorm) :
    (∃ x ∈ openQuestionsOf d, x.blocksTaskIds.Lists k) ↔ NamedByOpenQuestion events k := by
  rw [QuestionReducer.reduce_eq_keyed] at h
  have hstatus := fun a v => (keyedReduce_read QuestionReducer.writes_status h a v).1
  have hblocks := fun a v => (keyedReduce_read QuestionReducer.writes_blocks h a v).1
  constructor
  · rintro ⟨x, hx, hlists⟩
    obtain ⟨hx, hopen⟩ := List.mem_filter.mp hx
    obtain ⟨a, hget⟩ := OrdDict.mem_values_iff.mp hx
    obtain ⟨A, y, B, w, rfl, hy, hw, _, hrest⟩ := (hstatus a (.str "open")).mp
      (by rw [hget, Option.map_some, of_decide_eq_true hopen])
    obtain ⟨haddr, hy⟩ := writeAt_eq_some_iff.mp hy
    have htype : y.eventType = .openQuestionRaised := by
      unfold QuestionReducer.statusWrite at hy
      split at hy
      · assumption
      · rw [← Option.some.inj hy] at hw
        simp [LastWrite.Write.value] at hw
      · cases hy
    have hlast : ∀ e ∈ B, ¬ e.IsFor .openQuestionRaised questionIdOf (DictKey.norm a) ∧
        ¬ e.IsFor .openQuestionResolved questionIdOf (DictKey.norm a) := fun e he =>
      (QuestionReducer.writeAt_statusWrite_eq_none_iff _ _).mp (hrest e he)
    refine ⟨A, y, B, DictKey.norm a, rfl, ⟨htype, haddr⟩, ?_, hlast⟩
    rw [← QuestionReducer.blocks_of_raised rfl ⟨htype, haddr⟩ (fun e he => (hlast e he).1)
      ((hblocks a x.blocksTaskIds).mp (by rw [hget, Option.map_some]))]
    exact hlists
  · rintro ⟨A, y, B, n, rfl, hy, hlists, hlast⟩
    obtain ⟨⟨a, hid, rfl⟩, _⟩ := hy.2
    have hholds : Holds (writeAt questionIdOf QuestionReducer.statusWrite (DictKey.norm a))
        (A ++ y :: B) (.str "open") := by
      refine ⟨A, y, B, .create (.str "open"), rfl, ?_, rfl, ⟨y, by simp, .str "open", ?_⟩, ?_⟩
      · exact writeAt_eq_some_iff.mpr ⟨hy.2, by simp [QuestionReducer.statusWrite, hy.1]⟩
      · exact writeAt_eq_some_iff.mpr ⟨hy.2, by simp [QuestionReducer.statusWrite, hy.1]⟩
      · intro e he
        apply (QuestionReducer.writeAt_statusWrite_eq_none_iff _ _).mpr
        exact hlast e he
    obtain ⟨x, hget, hopen⟩ := Option.map_eq_some_iff.mp ((hstatus a _).mpr hholds)
    refine ⟨x, List.mem_filter.mpr ⟨OrdDict.mem_values_iff.mpr ⟨a, hget⟩, ?_⟩, ?_⟩
    · exact decide_eq_true hopen
    · rw [QuestionReducer.blocks_of_raised rfl hy (fun e he => (hlast e he).1)
        ((hblocks a x.blocksTaskIds).mp (by rw [hget, Option.map_some]))]
      exact hlists

/-! ## Blockers of the head -/

/-- The task waits for the question, or the question names the task. -/
def Blocks (q : QuestionState) (t : TaskState) : Prop :=
  (∃ k, HasKey q.questionId k ∧ t.blockedBy.Lists k) ∨
    ∃ k, HasKey t.taskId k ∧ q.blocksTaskIds.Lists k

/-- The list holds the unfinished tasks that open questions block, each with its questions. -/
structure BlockersExact (s : ReducerState) (blockers : List Blocker) : Prop where
  once : Once blockers
  tasks : ∀ k : Atom, (∃ b ∈ blockers, HasKey b.taskId (DictKey.norm k)) ↔
    ∃ t ∈ activeTasksOf s.tasks, HasKey t.taskId (DictKey.norm k) ∧
      ∃ q ∈ openQuestionsOf s.questions, Blocks q t
  ascending : ∀ b ∈ blockers, Ascending b.blockedByQuestions
  questions : ∀ b ∈ blockers, ∀ t ∈ activeTasksOf s.tasks, ∀ k : Atom,
    HasKey b.taskId (DictKey.norm k) → HasKey t.taskId (DictKey.norm k) → ∀ x : Atom,
      (∃ v ∈ b.blockedByQuestions, HasKey v (DictKey.norm x)) ↔
        ∃ q ∈ openQuestionsOf s.questions, HasKey q.questionId (DictKey.norm x) ∧ Blocks q t

/-- The last event that gives the task a status gives it this one. -/
def LastStatus (events : List EventRecord) (k : AtomNorm) (status : Json) : Prop :=
  Holds (writeAt taskIdOf TaskReducer.statusWrite k) events status

theorem lastStatus_iff {d : TaskDict} {events : List EventRecord}
    (h : TaskReducer.reduce .empty events = .ok d) (k : Atom) (status : Json) :
    LastStatus events (DictKey.norm k) status ↔ ∃ t, d.get? k = some t ∧ t.status = status := by
  rw [TaskReducer.reduce_eq_keyed] at h
  rw [LastStatus, ← (keyedReduce_read TaskReducer.writes_status h k status).1,
    Option.map_eq_some_iff]

theorem LastStatus.exists_atom {events : List EventRecord} {k : AtomNorm} {status : Json}
    (h : LastStatus events k status) : ∃ a : Atom, DictKey.norm a = k := by
  obtain ⟨_, _, _, _, _, hx, _⟩ := h
  obtain ⟨⟨a, _, hk⟩, _⟩ := (writeAt_eq_some_iff.mp hx).1
  exact ⟨a, hk⟩

/-- Items are found under the ids they carry. -/
theorem Filed.get?_eq_some_iff {ν : Type} {id : ν → Json} {d : OrdDict Atom ν} (h : Filed id d)
    {k : Atom} {x : ν} : d.get? k = some x ↔ x ∈ d.values ∧ HasKey (id x) (DictKey.norm k) := by
  constructor
  · intro hget
    obtain ⟨e, he, hnorm, rfl⟩ := OrdDict.lookupIn_mem hget
    exact ⟨List.mem_map_of_mem he, hnorm ▸ (h e he).1⟩
  · rintro ⟨hx, hkey⟩
    obtain ⟨e, he, rfl⟩ := List.mem_map.mp hx
    rw [← OrdDict.get?_congr ((h e he).1.unique hkey), OrdDict.get?_of_mem he]

theorem mem_activeTasksOf {tasks : TaskDict} {t : TaskState} :
    t ∈ activeTasksOf tasks ↔ t ∈ tasks.values ∧ t.status ≠ .str "completed" := by
  simp [activeTasksOf]

/-- The map holds what the unfinished tasks and the open questions of a state name. -/
def BlockerMap.Gathers (m : BlockerMap) (s : ReducerState) : Prop :=
  ∀ k q, m.Rel k q ↔
    (∃ t ∈ activeTasksOf s.tasks, HasKey t.taskId (DictKey.norm k) ∧
      t.blockedBy.Lists (DictKey.norm q) ∧
      ∃ x ∈ openQuestionsOf s.questions, HasKey x.questionId (DictKey.norm q)) ∨
    ∃ x ∈ openQuestionsOf s.questions, HasKey x.questionId (DictKey.norm q) ∧
      x.blocksTaskIds.Lists (DictKey.norm k) ∧ s.tasks.contains k = true

/-- What the map holds for an unfinished task is what blocks it. -/
theorem BlockerMap.Gathers.rel_iff_blocks {m : BlockerMap} {s : ReducerState} (h : m.Gathers s)
    (hfiled : Filed TaskState.taskId s.tasks) {k : Atom} {t : TaskState}
    (ht : t ∈ activeTasksOf s.tasks) (hkey : HasKey t.taskId (DictKey.norm k)) (x : Atom) :
    m.Rel k x ↔ ∃ q ∈ openQuestionsOf s.questions, HasKey q.questionId (DictKey.norm x) ∧
      Blocks q t := by
  have hget := hfiled.get?_eq_some_iff.mpr ⟨(mem_activeTasksOf.mp ht).1, hkey⟩
  rw [h]
  constructor
  · rintro (⟨t', ht', hkey', hlists, q, hq, hqx⟩ | ⟨q, hq, hqx, hlists, _⟩)
    · have hget' := hfiled.get?_eq_some_iff.mpr ⟨(mem_activeTasksOf.mp ht').1, hkey'⟩
      obtain rfl := Option.some.inj (hget.symm.trans hget')
      exact ⟨q, hq, hqx, Or.inl ⟨_, hqx, hlists⟩⟩
    · exact ⟨q, hq, hqx, Or.inr ⟨_, hkey, hlists⟩⟩
  · rintro ⟨q, hq, hqx, ⟨n, hn, hlists⟩ | ⟨n, hn, hlists⟩⟩
    · exact Or.inl ⟨t, ht, hkey, hqx.unique hn ▸ hlists, q, hq, hqx⟩
    · refine Or.inr ⟨q, hq, hqx, hkey.unique hn ▸ hlists, ?_⟩
      rw [OrdDict.contains, hget]
      rfl

/-- A known task of the map is unfinished unless an open question names a completed task. -/
theorem BlockerMap.Gathers.exists_active {m : BlockerMap} {s : ReducerState} (h : m.Gathers s)
    (hfiled : Filed TaskState.taskId s.tasks) {k x : Atom}
    (hnamed : ∀ q ∈ openQuestionsOf s.questions, q.blocksTaskIds.Lists (DictKey.norm k) →
      ∀ t, s.tasks.get? k = some t → t.status ≠ .str "completed")
    (hknown : s.tasks.contains k = true) (hrelated : m.Rel k x) :
    ∃ t ∈ activeTasksOf s.tasks, HasKey t.taskId (DictKey.norm k) := by
  obtain ⟨t, hget⟩ := Option.isSome_iff_exists.mp hknown
  obtain ⟨ht, hkey⟩ := hfiled.get?_eq_some_iff.mp hget
  rcases (h k x).mp hrelated with ⟨t', ht', hkey', _⟩ | ⟨q, hq, _, hlists, _⟩
  · exact ⟨t', ht', hkey'⟩
  · exact ⟨t, mem_activeTasksOf.mpr ⟨ht, hnamed q hq hlists t hget⟩, hkey⟩

/-- What an assembled head lists as blockers. -/
theorem buildHead_blockers {p : UUID} {now : String} {s : ReducerState} {events : List EventRecord}
    {head : CognitiveHead} (h : buildHead p now s events = .ok head) :
    ∃ m : BlockerMap, blockerEntries s.tasks m.entries = .ok head.blockers ∧ m.Inhabited ∧
      m.Gathers s := by
  simp only [buildHead, Except.bind_eq_ok_iff, Except.pure_eq_ok_iff] at h
  obtain ⟨qs, hq, ts, ht, m, hm, bs, hb, rfl⟩ := h
  refine ⟨m, hb, inhabited_blockerMap hm, fun k q => ?_⟩
  rw [rel_blockerMap hm, ← (sortByPriority_eq_ok_iff.mp hq).2, ← (sortByPriority_eq_ok_iff.mp ht).2]
  simp only [List.mem_insertionSort]

/-- The blockers of a full replay are exact if and only if no open question names a completed
task. -/
theorem blockersExact_iff {p : UUID} {now : String} {events : List EventRecord} {s : ReducerState}
    {head : CognitiveHead} (hs : ReducerState.initial.reduce events = .ok s)
    (h : ReplayEngine.fullReplay p events now = .ok head) :
    BlockersExact s head.blockers ↔
      ∀ k, NamedByOpenQuestion events k → ¬ LastStatus events k (.str "completed") := by
  simp only [ReplayEngine.fullReplay, Except.bind_eq_ok_iff] at h
  obtain ⟨_, _, s', hs', h⟩ := h
  rw [← Except.ok.inj (hs.symm.trans hs')] at h
  obtain ⟨-, htasks, -, hquestions⟩ := ReducerState.reduce_eq_ok_iff.mp hs
  have hfiledTasks := TaskReducer.filed (filed_empty _) htasks
  have hfiledQuestions := QuestionReducer.filed (filed_empty _) hquestions
  obtain ⟨m, hentries, hinhabited, hrel⟩ := buildHead_blockers h
  constructor
  · rintro hexact k hnamed hlast
    obtain ⟨x, hx, hlists⟩ := (namedByOpenQuestion_iff hquestions k).mpr hnamed
    obtain ⟨a, hholds⟩ : ∃ a : Atom, DictKey.norm a = k := by
      obtain ⟨items, _, v, _, a, _, ha⟩ := hlists
      exact ⟨a, ha⟩
    subst hholds
    obtain ⟨t, hget, hcompleted⟩ := (lastStatus_iff htasks a _).mp hlast
    have hknown : s.tasks.contains a = true := by rw [OrdDict.contains, hget]; rfl
    obtain ⟨e, he, rfl⟩ := List.mem_map.mp (List.mem_filter.mp hx).1
    have hrelated : m.Rel a e.1 :=
      (hrel a e.1).mpr (Or.inr ⟨e.2, hx, (hfiledQuestions e he).1, hlists, hknown⟩)
    obtain ⟨t', ht', hkey, _⟩ :=
      (hexact.tasks a).mp (exists_entry_of_rel hentries hknown hrelated)
    obtain ⟨ht', hactive⟩ := mem_activeTasksOf.mp ht'
    rw [hfiledTasks.get?_eq_some_iff.mpr ⟨ht', hkey⟩] at hget
    exact hactive (Option.some.inj hget ▸ hcompleted)
  · intro hnamed
    have hblocks := fun {k t} => hrel.rel_iff_blocks hfiledTasks (k := k) (t := t)
    have hopen : ∀ k, ∀ q ∈ openQuestionsOf s.questions,
        q.blocksTaskIds.Lists (DictKey.norm k) → ∀ t, s.tasks.get? k = some t →
          t.status ≠ .str "completed" := fun k q hq hlists t hget hcompleted =>
      hnamed _ ((namedByOpenQuestion_iff hquestions _).mp ⟨q, hq, hlists⟩)
        ((lastStatus_iff htasks k _).mpr ⟨t, hget, hcompleted⟩)
    refine ⟨once_blockerEntries hentries, fun k => ⟨?_, ?_⟩, fun b hb => ?_, ?_⟩
    · rintro ⟨b, hb, hkey⟩
      obtain ⟨hknown, _, ⟨qids, hget⟩, _⟩ := mem_blockerEntries hentries hb hkey
      obtain ⟨x, hx⟩ := hinhabited k qids hget
      obtain ⟨t, ht, hkey⟩ := hrel.exists_active hfiledTasks (hopen k) hknown ⟨qids, hget, hx⟩
      obtain ⟨q, hq, _, hqt⟩ := (hblocks ht hkey x).mp ⟨qids, hget, hx⟩
      exact ⟨t, ht, hkey, q, hq, hqt⟩
    · rintro ⟨t, ht, hkey, q, hq, hqt⟩
      obtain ⟨e, he, rfl⟩ := List.mem_map.mp (List.mem_filter.mp hq).1
      have hget := hfiledTasks.get?_eq_some_iff.mpr ⟨(mem_activeTasksOf.mp ht).1, hkey⟩
      exact exists_entry_of_rel hentries (by rw [OrdDict.contains, hget]; rfl)
        ((hblocks ht hkey e.1).mpr ⟨e.2, hq, (hfiledQuestions e he).1, hqt⟩)
    · obtain ⟨e, _, htask, _⟩ := (blockerEntries_spec hentries).flip.exists_of_mem hb
      exact (mem_blockerEntries hentries hb (htask ▸ hasKey_atom_iff.mpr rfl)).2.1
    · intro b hb t ht k hkey hkey' x
      rw [(mem_blockerEntries hentries hb hkey).2.2.2 x, hblocks ht hkey']

/-- An open question names a task that is completed meanwhile. -/
def completedBlockedEvents : List EventRecord :=
  (sampleDb [sampleTask (.str "t1") "write" "normal",
    (.openQuestionRaised, [("question_id", .str "q1"), ("blocks_task_ids", .arr [.str "t1"])]),
    sampleCompletion (.str "t1")]).getProjectStream .zero 0

/-- The completed task is listed as blocked. -/
theorem not_blockersExact : ∃ s head, ReducerState.initial.reduce completedBlockedEvents = .ok s ∧
    ReplayEngine.fullReplay .zero completedBlockedEvents "now" = .ok head ∧
    ¬ BlockersExact s head.blockers := by
  refine ⟨_, _, rfl, rfl, fun h => ?_⟩
  obtain ⟨t, ht, _⟩ := (h.tasks (.str "t1")).mp ⟨_, List.mem_cons_self, _, rfl, rfl⟩
  cases ht

theorem blockersExact_completedBlocked :
    ∃ s head, ReplayEngine.fullReplay .zero completedBlockedEvents "now" = .ok head ∧
      (BlockersExact s head.blockers ↔ ∀ k, NamedByOpenQuestion completedBlockedEvents k →
        ¬ LastStatus completedBlockedEvents k (.str "completed")) :=
  ⟨_, _, rfl, blockersExact_iff rfl rfl⟩

end RationaleVault
