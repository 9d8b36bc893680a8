import RationaleVault.Ledger.Sqlite
import RationaleVault.Projections.Knowledge

/-!
# The SQLite knowledge store

Adding an object replaces the row with its id and puts the new row last. The
version of the row is raised when the content changes and is the caller's own
when it does not; a lifecycle update changes a row in place and leaves its
version alone.
-/

namespace RationaleVault

inductive KnowledgeOp
  | addKnowledge (knowledge : KnowledgeObject)
  | updateLifecycle (knowledgeId status now : String)

namespace SQLiteKnowledgeProvider

/-- The row of an object as it is read back. The epistemic status has no column. -/
def row (k : KnowledgeObject) : KnowledgeObject :=
  { k with
    transferability := if k.transferability = "" then KnowledgeTransferability.localOnly.value
      else k.transferability
    epistemicStatus := .proposed }

/-- The object with the version it is stored under. -/
def numbered (rows : List KnowledgeObject) (knowledge : KnowledgeObject) : KnowledgeObject :=
  match rows.find? fun r => r.id = knowledge.id with
  | some existing =>
      if existing.content ≠ knowledge.content then { knowledge with version := existing.version + 1 }
      else knowledge
  | none => knowledge

/-- `add_knowledge(knowledge)`. -/
def addKnowledge (rows : List KnowledgeObject) (knowledge : KnowledgeObject) :
    Except Exc (List KnowledgeObject) :=
  let knowledge := numbered rows knowledge
  if IsInt64 knowledge.version then .ok (Table.replace KnowledgeObject.id rows (row knowledge))
  else .error .overflowError

/-- `update_lifecycle(knowledge_id, status)` at the time `now`. -/
def updateLifecycle (rows : List KnowledgeObject) (knowledgeId status now : String) :
    List KnowledgeObject :=
  rows.map fun r =>
    if r.id = knowledgeId then { r with lifecycleStatus := status, updatedAt := now } else r

/-- The table after one operation; one that raises changes nothing. -/
def step (rows : List KnowledgeObject) : KnowledgeOp → List KnowledgeObject
  | .addKnowledge knowledge =>
      match addKnowledge rows knowledge with
      | .ok rows' => rows'
      | .error _ => rows
  | .updateLifecycle knowledgeId status now => updateLifecycle rows knowledgeId status now

def run (rows : List KnowledgeObject) (ops : List KnowledgeOp) : List KnowledgeObject :=
  ops.foldl step rows

theorem run_append (rows : List KnowledgeObject) (ops ops' : List KnowledgeOp) :
    run rows (ops ++ ops') = run (run rows ops) ops' := List.foldl_append

/-! ## One row an id -/

variable {rows : List KnowledgeObject}

theorem numbered_id (k : KnowledgeObject) : (numbered rows k).id = k.id := by
  rw [numbered]
  split
  · split <;> rfl
  · rfl

theorem updateLifecycle_ids (knowledgeId status now : String) :
    (updateLifecycle rows knowledgeId status now).map KnowledgeObject.id =
      rows.map KnowledgeObject.id := by
  rw [updateLifecycle, List.map_map]
  apply List.map_congr_left
  intro r _
  simp only [Function.comp_apply]
  split <;> rfl

theorem step_addKnowledge (rows : List KnowledgeObject) (k : KnowledgeObject) :
    step rows (.addKnowledge k) = rows ∨
      step rows (.addKnowledge k) = Table.replace KnowledgeObject.id rows (row (numbered rows k)) := by
  rw [step, addKnowledge]
  by_cases hfits : IsInt64 (numbered rows k).version
  · exact Or.inr (by rw [if_pos hfits])
  · exact Or.inl (by rw [if_neg hfits])

theorem nodup_step (hids : (rows.map KnowledgeObject.id).Nodup) (op : KnowledgeOp) :
    ((step rows op).map KnowledgeObject.id).Nodup := by
  cases op with
  | addKnowledge k =>
      rcases step_addKnowledge rows k with h | h
      · rwa [h]
      · rw [h]
        exact Table.nodup_replace hids _
  | updateLifecycle knowledgeId status now => rwa [step, updateLifecycle_ids]

theorem nodup_run (hids : (rows.map KnowledgeObject.id).Nodup) (ops : List KnowledgeOp) :
    ((run rows ops).map KnowledgeObject.id).Nodup := by
  induction ops generalizing rows with
  | nil => exact hids
  | cons op rest ih => exact ih (nodup_step hids op)

/-- An id is in the table when it was there before or the operation adds it. -/
theorem mem_ids_step {op : KnowledgeOp} {r : KnowledgeObject} (h : r ∈ step rows op) :
    r.id ∈ rows.map KnowledgeObject.id ∨ ∃ k, op = .addKnowledge k ∧ r.id = k.id := by
  cases op with
  | addKnowledge k =>
      rcases step_addKnowledge rows k with heq | heq
      · exact Or.inl (List.mem_map_of_mem (heq ▸ h))
      · rcases Table.mem_replace.mp (heq ▸ h) with ⟨hr, -⟩ | rfl
        · exact Or.inl (List.mem_map_of_mem hr)
        · exact Or.inr ⟨k, rfl, numbered_id k⟩
  | updateLifecycle knowledgeId status now =>
      left
      rw [← updateLifecycle_ids knowledgeId status now]
      exact List.mem_map_of_mem h

theorem forall_ids_run {P : String → Prop} (hrows : ∀ r ∈ rows, P r.id) {ops : List KnowledgeOp}
    (hops : ∀ k, .addKnowledge k ∈ ops → P k.id) : ∀ r ∈ run rows ops, P r.id := by
  induction ops generalizing rows with
  | nil => exact hrows
  | cons op rest ih =>
      apply ih
      · intro r hr
        rcases mem_ids_step hr with hold | ⟨k, rfl, hid⟩
        · obtain ⟨r', hr', heq⟩ := List.mem_map.mp hold
          exact heq ▸ hrows r' hr'
        · exact hid ▸ hops k (by simp)
      · exact fun k hk => hops k (List.mem_cons_of_mem _ hk)

/-! ## Operations that the versions show -/

open KnowledgeProjection

/-- What an operation has to meet so that the versions show what it changes: a lifecycle update
names no record or the status it has, and an object that is added again with the content of its
record has a greater version, or the same version and what the projection reads of the record. -/
def Versioned (u : UnicodeTables) (rows : List KnowledgeObject) : KnowledgeOp → Prop
  | .addKnowledge k =>
      ∀ before r after, rows = before ++ r :: after → r.id = k.id → r.content = k.content →
        r.version < k.version ∨ r.version = k.version ∧ Rewrites u before after r (row k)
  | .updateLifecycle knowledgeId status _ =>
      ∀ r ∈ rows, r.id = knowledgeId → r.lifecycleStatus = status

def idVersion (k : KnowledgeObject) : String × Int := (k.id, k.version)

/-- No record is lost and no version falls. -/
def Grows (rows rows' : List KnowledgeObject) : Prop :=
  ∀ r ∈ rows, ∃ r' ∈ rows', r'.id = r.id ∧ r.version ≤ r'.version

theorem Grows.trans {rows' rows'' : List KnowledgeObject} (h : Grows rows rows')
    (h' : Grows rows' rows'') : Grows rows rows'' := by
  intro r hr
  obtain ⟨r', hr', hid, hle⟩ := h r hr
  obtain ⟨r'', hr'', hid', hle'⟩ := h' r' hr'
  exact ⟨r'', hr'', hid'.trans hid, hle.trans hle'⟩

/-- An operation is quiet when neither the versions nor the inputs of the projection change. -/
structure Quiet (u : UnicodeTables) (rows rows' : List KnowledgeObject) : Prop where
  versions : (rows.map idVersion).Perm (rows'.map idVersion)
  inputs : SameInputs u rows rows'

/-- A new record, or a record with a greater version than it had. -/
def Loud (rows rows' : List KnowledgeObject) : Prop :=
  ∃ k ∈ rows', ∀ r ∈ rows, r.id = k.id → r.version < k.version

theorem grows_of_perm {rows' : List KnowledgeObject}
    (h : (rows.map idVersion).Perm (rows'.map idVersion)) : Grows rows rows' := by
  intro r hr
  have hmem : idVersion r ∈ rows'.map idVersion := h.subset (List.mem_map_of_mem hr)
  obtain ⟨r', hr', heq⟩ := List.mem_map.mp hmem
  exact ⟨r', hr', congrArg Prod.fst heq, (congrArg Prod.snd heq).ge⟩

variable {u : UnicodeTables}

theorem quiet_refl (rows : List KnowledgeObject) : Quiet u rows rows := ⟨.refl _, .refl _⟩

/-- Replacing a row by one with a greater version, or adding a row, is loud. -/
theorem loud_replace {k : KnowledgeObject}
    (h : ∀ r ∈ rows, r.id = k.id → r.version < k.version) :
    Grows rows (Table.replace KnowledgeObject.id rows k) ∧
      Loud rows (Table.replace KnowledgeObject.id rows k) := by
  refine ⟨fun r hr => ?_, k, Table.mem_replace.mpr (Or.inr rfl), h⟩
  by_cases hid : r.id = k.id
  · exact ⟨k, Table.mem_replace.mpr (Or.inr rfl), hid.symm, (h r hr hid).le⟩
  · exact ⟨r, Table.mem_replace.mpr (Or.inl ⟨hr, hid⟩), rfl, le_rfl⟩

theorem quiet_updateLifecycle {knowledgeId status now : String}
    (h : ∀ r ∈ rows, r.id = knowledgeId → r.lifecycleStatus = status) :
    Quiet u rows (updateLifecycle rows knowledgeId status now) := by
  have htouch : updateLifecycle rows knowledgeId status now = rows.map fun r =>
      { r with updatedAt := if r.id = knowledgeId then now else r.updatedAt } := by
    apply List.map_congr_left
    intro r hr
    by_cases hid : r.id = knowledgeId
    · rw [if_pos hid, if_pos hid, ← h r hr hid]
    · rw [if_neg hid, if_neg hid]
  rw [htouch]
  constructor
  · rw [List.map_map]
    exact .refl _
  · apply sameInputs_map
    · exact fun _ => rfl
    · exact fun _ _ => rfl
    · exact fun _ _ => rfl

theorem quiet_rewrite {before after : List KnowledgeObject} {r k : KnowledgeObject}
    (hids : ((before ++ r :: after).map KnowledgeObject.id).Nodup)
    (hversion : r.version = k.version) (h : Rewrites u before after r k) :
    Quiet u (before ++ r :: after) (before ++ after ++ [k]) := by
  refine ⟨?_, h.sameInputs hids⟩
  have hpair : idVersion k = idVersion r := by rw [idVersion, idVersion, h.id_eq, hversion]
  have hmap : (before ++ after ++ [k]).map idVersion = (before ++ after ++ [r]).map idVersion := by
    simp [hpair]
  rw [hmap]
  exact (List.perm_middle.trans (List.perm_append_singleton r _).symm).map _

theorem replace_cases (hids : (rows.map KnowledgeObject.id).Nodup) {k : KnowledgeObject}
    (h : Versioned u rows (.addKnowledge k)) :
    Quiet u rows (Table.replace KnowledgeObject.id rows (row (numbered rows k))) ∨
      Grows rows (Table.replace KnowledgeObject.id rows (row (numbered rows k))) ∧
        Loud rows (Table.replace KnowledgeObject.id rows (row (numbered rows k))) := by
  rcases Table.exists_append_cons KnowledgeObject.id rows k.id with
    ⟨before, r, after, rfl, hid⟩ | hfresh
  · have hfind : (before ++ r :: after).find? (fun x => x.id = k.id) = some r :=
      (Table.find?_key_eq_some_iff hids).mpr ⟨by simp, hid⟩
    have hversion : ∀ x ∈ before ++ r :: after, x.id = k.id → x.version = r.version := by
      intro x hx hxid
      rw [List.inj_on_of_nodup_map hids hx (by simp) (hxid.trans hid.symm)]
    by_cases hcontent : r.content = k.content
    · have hnumbered : numbered (before ++ r :: after) k = k := by
        rw [numbered, hfind]
        exact if_neg (not_not.mpr hcontent)
      rw [hnumbered]
      rcases h before r after rfl hid hcontent with hlt | ⟨heq, hrewrites⟩
      · exact Or.inr (loud_replace fun x hx hxid => (hversion x hx hxid).trans_lt hlt)
      · left
        rw [Table.replace_append_cons (r := row k) hids hid]
        exact quiet_rewrite hids heq hrewrites
    · right
      have hbump : (numbered (before ++ r :: after) k).version = r.version + 1 := by
        rw [numbered, hfind]
        exact congrArg KnowledgeObject.version (if_pos hcontent)
      apply loud_replace
      intro x hx hxid
      rw [hversion x hx (hxid.trans (numbered_id k))]
      exact hbump ▸ Int.lt_succ r.version
  · right
    apply loud_replace
    exact fun x hx hxid => absurd (hxid.trans (numbered_id k)) (hfresh x hx)

/-- What one operation does to the versions and to the inputs of the projection. -/
theorem step_cases (hids : (rows.map KnowledgeObject.id).Nodup) {op : KnowledgeOp}
    (h : Versioned u rows op) :
    Quiet u rows (step rows op) ∨ Grows rows (step rows op) ∧ Loud rows (step rows op) := by
  cases op with
  | updateLifecycle knowledgeId status now => exact Or.inl (quiet_updateLifecycle h)
  | addKnowledge k =>
      rcases step_addKnowledge rows k with hstep | hstep
      · left
        rw [hstep]
        exact quiet_refl rows
      · rw [hstep]
        exact replace_cases hids h

theorem grows_run (hids : (rows.map KnowledgeObject.id).Nodup) {ops : List KnowledgeOp}
    (hops : ∀ pre op post, ops = pre ++ op :: post → Versioned u (run rows pre) op) :
    Grows rows (run rows ops) := by
  induction ops generalizing rows with
  | nil => exact grows_of_perm (.refl _)
  | cons op rest ih =>
      have hrest : Grows (step rows op) (run (step rows op) rest) :=
        ih (nodup_step hids op) fun pre op' post h => hops (op :: pre) op' post (by rw [h]; rfl)
      rcases step_cases hids (hops [] op rest rfl) with hquiet | ⟨hgrows, -⟩
      · exact (grows_of_perm hquiet.versions).trans hrest
      · exact hgrows.trans hrest

/-- Between two points with the same versions every operation is quiet. -/
theorem sameInputs_of_perm (hids : (rows.map KnowledgeObject.id).Nodup) {ops : List KnowledgeOp}
    (hops : ∀ pre op post, ops = pre ++ op :: post → Versioned u (run rows pre) op)
    (hsame : (rows.map idVersion).Perm ((run rows ops).map idVersion)) :
    SameInputs u rows (run rows ops) := by
  induction ops generalizing rows with
  | nil => exact .refl rows
  | cons op rest ih =>
      have hrest : ∀ pre op' post, rest = pre ++ op' :: post →
          Versioned u (run (step rows op) pre) op' :=
        fun pre op' post h => hops (op :: pre) op' post (by rw [h]; rfl)
      rcases step_cases hids (hops [] op rest rfl) with hquiet | ⟨-, k, hk, hlt⟩
      · exact hquiet.inputs.trans
          (ih (nodup_step hids op) hrest (hquiet.versions.symm.trans hsame))
      · -- the version of `k` has risen above the one it had, and never falls again
        obtain ⟨k', hk', hid, hle⟩ := grows_run (nodup_step hids op) hrest k hk
        have hmem : idVersion k' ∈ rows.map idVersion := hsame.symm.subset (List.mem_map_of_mem hk')
        obtain ⟨r, hr, heq⟩ := List.mem_map.mp hmem
        have hversion : r.version = k'.version := congrArg Prod.snd heq
        have hrid : r.id = k'.id := congrArg Prod.fst heq
        exact absurd (hlt r hr (hrid.trans hid)) (by omega)

end SQLiteKnowledgeProvider

end RationaleVault
