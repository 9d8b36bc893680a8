import Mathlib.Data.List.Perm.Basic
import RationaleVault.Knowledge.Models

/-!
# What the knowledge projection reads

The projection sorts knowledge by lifecycle and by a derived epistemic status
and detects relations among the active objects. Two stores give it the same
inputs when the records agree one by one and the same relations are detected.
-/

namespace RationaleVault

namespace KnowledgeProjection

/-- `_derive_epistemic_status(k)`. -/
def deriveEpistemicStatus (k : KnowledgeObject) : EpistemicStatus :=
  if k.lifecycleStatus = KnowledgeLifecycle.superseded.value ∨
      k.lifecycleStatus = KnowledgeLifecycle.archived.value then .tombstoned
  else if 0 < k.contradictingMemoryIds.length then .conflicted
  else if k.knowledgeType = .projectInvariant then .invariant
  else if 19 / 20 ≤ k.confidence.score ∧ 5 ≤ k.supportingMemoryIds.length then .invariant
  else if 7 / 10 ≤ k.confidence.score then .validated
  else .proposed

def isActive (k : KnowledgeObject) : Bool :=
  k.lifecycleStatus == KnowledgeLifecycle.active.value

/-- The objects that relations are detected among. -/
def active (knowledge : List KnowledgeObject) : List KnowledgeObject := knowledge.filter isActive

/-- What the projection shows of one record. -/
structure RecordInputs where
  id : String
  lifecycleStatus : String
  epistemicStatus : EpistemicStatus
  confidence : KnowledgeConfidence
  title : String
  content : String
  deriving DecidableEq

def recordInputs (k : KnowledgeObject) : RecordInputs :=
  ⟨k.id, k.lifecycleStatus, deriveEpistemicStatus k, k.confidence, k.title, k.content⟩

/-- The derivation chain lists `other` among the sources of `id`. -/
def DerivedFrom (knowledge : List KnowledgeObject) (id other : String) : Prop :=
  ∃ sources, (buildDerivationChain knowledge).get? id = some sources ∧ other ∈ sources

/-- The records agree one by one and the same relations are detected. -/
structure SameInputs (u : UnicodeTables) (knowledge knowledge' : List KnowledgeObject) : Prop where
  records : (knowledge.map recordInputs).Perm (knowledge'.map recordInputs)
  relations : (detectRelations u (active knowledge)).Perm (detectRelations u (active knowledge'))
  derivations : ∀ id other,
    DerivedFrom (active knowledge) id other ↔ DerivedFrom (active knowledge') id other

variable {u : UnicodeTables}

theorem SameInputs.refl (knowledge : List KnowledgeObject) : SameInputs u knowledge knowledge :=
  ⟨.refl _, .refl _, fun _ _ => .rfl⟩

theorem SameInputs.trans {K K' K'' : List KnowledgeObject} (h : SameInputs u K K')
    (h' : SameInputs u K' K'') : SameInputs u K K'' where
  records := h.records.trans h'.records
  relations := h.relations.trans h'.relations
  derivations id other := (h.derivations id other).trans (h'.derivations id other)

/-! ## Relations of a list with one more object -/

theorem active_append (K K' : List KnowledgeObject) : active (K ++ K') = active K ++ active K' :=
  List.filter_append ..

theorem active_singleton (k : KnowledgeObject) : active [k] = if isActive k then [k] else [] := by
  rw [active, List.filter_cons, List.filter_nil]

/-- The relations of a list are those without one object and those of the object with the ones
before and behind it. -/
theorem detectRelations_append_cons (before after : List KnowledgeObject) (r : KnowledgeObject) :
    (detectRelations u (before ++ r :: after)).Perm
      (detectRelations u (before ++ after) ++
        (before.filterMap (relation u · r) ++ after.filterMap (relation u r))) := by
  induction before with
  | nil =>
      rw [List.nil_append, List.nil_append, List.filterMap_nil, List.nil_append, detectRelations]
      exact List.perm_append_comm
  | cons k rest ih =>
      have hk : ((rest ++ r :: after).filterMap (relation u k)).Perm
          ((rest ++ after).filterMap (relation u k) ++ [r].filterMap (relation u k)) := by
        rw [← List.filterMap_append]
        apply List.Perm.filterMap
        rw [List.append_assoc]
        exact List.Perm.append_left rest (List.perm_append_singleton r after).symm
      have hr : (k :: rest).filterMap (relation u · r) =
          [r].filterMap (relation u k) ++ rest.filterMap (relation u · r) := by
        cases hkr : relation u k r <;> simp [hkr]
      rw [List.cons_append, List.cons_append, detectRelations, detectRelations, hr]
      apply (hk.append ih).trans
      rw [List.append_assoc, List.append_assoc, List.append_assoc]
      apply List.Perm.append_left
      rw [← List.append_assoc, ← List.append_assoc (detectRelations u (rest ++ after))]
      exact List.Perm.append_right _ List.perm_append_comm

theorem detectRelations_concat (before : List KnowledgeObject) (k : KnowledgeObject) :
    (detectRelations u (before ++ [k])).Perm
      (detectRelations u before ++ before.filterMap (relation u · k)) := by
  have h := detectRelations_append_cons (u := u) before [] k
  rwa [List.append_nil, List.filterMap_nil, List.append_nil] at h

/-- Only the fields that `relation` reads matter. -/
theorem detectRelations_map {f : KnowledgeObject → KnowledgeObject}
    (hf : ∀ x y, relation u (f x) (f y) = relation u x y) (K : List KnowledgeObject) :
    detectRelations u (K.map f) = detectRelations u K := by
  induction K with
  | nil => rfl
  | cons k rest ih =>
      rw [List.map_cons, detectRelations, detectRelations, ih, List.filterMap_map]
      congr 2
      exact funext fun x => hf k x

theorem sharesMemory_comm (k k' : KnowledgeObject) : sharesMemory k k' = sharesMemory k' k := by
  rw [Bool.eq_iff_iff]
  simp only [sharesMemory, List.any_eq_true, List.contains_iff_mem]
  exact ⟨fun ⟨m, h, h'⟩ => ⟨m, h', h⟩, fun ⟨m, h, h'⟩ => ⟨m, h', h⟩⟩

theorem derivedFrom_iff {K : List KnowledgeObject} (hids : (K.map KnowledgeObject.id).Nodup)
    (id other : String) :
    DerivedFrom K id other ↔
      ∃ k ∈ K, ∃ o ∈ K, k.id = id ∧ o.id = other ∧ o.id ≠ k.id ∧ sharesMemory k o = true := by
  have hentries : (buildDerivationChain K).entries =
      K.map fun k => (k.id, derivationSources K k) :=
    OrdDict.entries_ofList (by simpa [Function.comp_def] using hids)
  have hsources : ∀ k, other ∈ derivationSources K k ↔
      ∃ o ∈ K, o.id = other ∧ o.id ≠ k.id ∧ sharesMemory k o = true := by
    intro k
    simp only [derivationSources, List.mem_map, List.mem_filter, Bool.and_eq_true,
      decide_eq_true_eq]
    exact exists_congr fun o => ⟨fun ⟨⟨ho, hne, hs⟩, hid⟩ => ⟨ho, hid, hne, hs⟩,
      fun ⟨ho, hid, hne, hs⟩ => ⟨⟨ho, hne, hs⟩, hid⟩⟩
  constructor
  · rintro ⟨sources, hget, hother⟩
    obtain ⟨e, he, hkey, rfl⟩ := OrdDict.lookupIn_mem hget
    rw [hentries, List.mem_map] at he
    obtain ⟨k, hk, rfl⟩ := he
    obtain ⟨o, ho, hid, hne, hs⟩ := (hsources k).mp hother
    exact ⟨k, hk, o, ho, hkey, hid, hne, hs⟩
  · rintro ⟨k, hk, o, ho, rfl, hid, hne, hs⟩
    have hmem : (k.id, derivationSources K k) ∈ (buildDerivationChain K).entries :=
      hentries ▸ List.mem_map_of_mem hk
    exact ⟨_, OrdDict.get?_of_mem hmem, (hsources k).mpr ⟨o, ho, hid, hne, hs⟩⟩

/-- Only the fields that the projection reads matter. -/
theorem sameInputs_map {f : KnowledgeObject → KnowledgeObject}
    (hrecord : ∀ k, recordInputs (f k) = recordInputs k)
    (hrelation : ∀ x y, relation u (f x) (f y) = relation u x y)
    (hshares : ∀ x y, sharesMemory (f x) (f y) = sharesMemory x y) (K : List KnowledgeObject) :
    SameInputs u K (K.map f) := by
  have hid : ∀ k, (f k).id = k.id := fun k => congrArg RecordInputs.id (hrecord k)
  have hactive : active (K.map f) = (active K).map f := by
    rw [active, List.filter_map]
    congr 1
    apply List.filter_congr
    exact fun k _ => congrArg
      (fun i : RecordInputs => i.lifecycleStatus == KnowledgeLifecycle.active.value) (hrecord k)
  have hchain : buildDerivationChain ((active K).map f) = buildDerivationChain (active K) := by
    rw [buildDerivationChain, buildDerivationChain, List.map_map]
    congr 1
    apply List.map_congr_left
    intro k _
    simp only [Function.comp_apply, derivationSources, List.filter_map, List.map_map,
      Function.comp_def, hid, hshares]
  refine ⟨?_, ?_, fun id other => ?_⟩
  · rw [List.map_map]
    exact .of_eq (List.map_congr_left fun k _ => (hrecord k).symm)
  · rw [hactive, detectRelations_map hrelation]
  · rw [DerivedFrom, DerivedFrom, hactive, hchain]

theorem nodup_active {K : List KnowledgeObject} (hids : (K.map KnowledgeObject.id).Nodup) :
    ((active K).map KnowledgeObject.id).Nodup :=
  hids.sublist (List.filter_sublist.map _)

/-- An object may stand in for one with its id that shares memories with the same others. -/
theorem exists_sharing_of_rewrite {L : List KnowledgeObject} {r k : KnowledgeObject}
    {id other : String} (hid : k.id = r.id)
    (hshares : ∀ x ∈ L, sharesMemory k x = sharesMemory r x)
    (h : ∃ a ∈ r :: L, ∃ o ∈ r :: L, a.id = id ∧ o.id = other ∧ o.id ≠ a.id ∧
      sharesMemory a o = true) :
    ∃ a ∈ k :: L, ∃ o ∈ k :: L, a.id = id ∧ o.id = other ∧ o.id ≠ a.id ∧
      sharesMemory a o = true := by
  obtain ⟨a, ha, o, ho, rfl, rfl, hne, hs⟩ := h
  rcases List.mem_cons.mp ha with rfl | haL
  · rcases List.mem_cons.mp ho with rfl | hoL
    · exact absurd rfl hne
    · exact ⟨k, by simp, o, by simp [hoL], hid, rfl, hid ▸ hne, (hshares o hoL).trans hs⟩
  · rcases List.mem_cons.mp ho with rfl | hoL
    · refine ⟨a, by simp [haL], k, by simp, rfl, hid, hid ▸ hne, ?_⟩
      rw [sharesMemory_comm, hshares a haL, sharesMemory_comm, hs]
    · exact ⟨a, by simp [haL], o, by simp [hoL], rfl, rfl, hne, hs⟩

/-! ## Writing one object over another -/

/-- Writing `k` at the end in place of `r` leaves what the projection reads of the record, and the
relations that the two have are the same, wherever they stand. -/
structure Rewrites (u : UnicodeTables) (before after : List KnowledgeObject)
    (r k : KnowledgeObject) : Prop where
  record : recordInputs k = recordInputs r
  earlier : isActive r = true → ∀ x ∈ active before, relation u x k = relation u x r
  later : isActive r = true → ∀ x ∈ active after, relation u r x = none ∧ relation u x k = none
  memories : isActive r = true →
    ∀ x ∈ active (before ++ after), sharesMemory k x = sharesMemory r x

theorem Rewrites.id_eq {before after : List KnowledgeObject} {r k : KnowledgeObject}
    (h : Rewrites u before after r k) : k.id = r.id :=
  congrArg RecordInputs.id h.record

theorem Rewrites.isActive_eq {before after : List KnowledgeObject} {r k : KnowledgeObject}
    (h : Rewrites u before after r k) : isActive k = isActive r :=
  congrArg (fun i : RecordInputs => i.lifecycleStatus == KnowledgeLifecycle.active.value) h.record

theorem Rewrites.relations {before after : List KnowledgeObject} {r k : KnowledgeObject}
    (h : Rewrites u before after r k) (hactive : isActive r = true) :
    (detectRelations u (active before ++ r :: active after)).Perm
      (detectRelations u (active before ++ active after ++ [k])) := by
  have hearlier : (active before).filterMap (relation u · k) =
      (active before).filterMap (relation u · r) :=
    List.filterMap_congr fun x hx => h.earlier hactive x hx
  have hlater : (active after).filterMap (relation u r) = [] :=
    List.filterMap_eq_nil_iff.mpr fun x hx => (h.later hactive x hx).1
  have hlater' : (active after).filterMap (relation u · k) = [] :=
    List.filterMap_eq_nil_iff.mpr fun x hx => (h.later hactive x hx).2
  refine (detectRelations_append_cons _ _ _).trans (List.Perm.trans ?_ (detectRelations_concat _ _).symm)
  rw [List.filterMap_append, hearlier, hlater, hlater']

/-- A rewrite gives the projection the same inputs. -/
theorem Rewrites.sameInputs {before after : List KnowledgeObject} {r k : KnowledgeObject}
    (hids : ((before ++ r :: after).map KnowledgeObject.id).Nodup)
    (h : Rewrites u before after r k) :
    SameInputs u (before ++ r :: after) (before ++ after ++ [k]) := by
  have hperm : (before ++ r :: after).Perm (before ++ after ++ [r]) :=
    List.perm_middle.trans (List.perm_append_singleton r _).symm
  have hids' : ((before ++ after ++ [k]).map KnowledgeObject.id).Nodup := by
    rw [List.map_append, List.map_singleton, h.id_eq, ← List.map_singleton, ← List.map_append]
    exact (hperm.map _).nodup_iff.mp hids
  have hrecords : ((before ++ r :: after).map recordInputs).Perm
      ((before ++ after ++ [k]).map recordInputs) := by
    have hmap : (before ++ after ++ [k]).map recordInputs =
        (before ++ after ++ [r]).map recordInputs := by simp [h.record]
    rw [hmap]
    exact hperm.map _
  by_cases hactive : isActive r = true
  · have hold : active (before ++ r :: after) = active before ++ r :: active after := by
      rw [active_append, active, active, List.filter_cons_of_pos hactive]
      rfl
    have hnew : active (before ++ after ++ [k]) = active before ++ active after ++ [k] := by
      rw [active_append, active_append, active_singleton, h.isActive_eq, if_pos hactive]
    refine ⟨hrecords, hold ▸ hnew ▸ h.relations hactive, fun id other => ?_⟩
    have hother : ∀ x ∈ active before ++ active after, sharesMemory k x = sharesMemory r x := by
      rw [← active_append]
      exact h.memories hactive
    have hmemOld : ∀ x, x ∈ active (before ++ r :: after) ↔
        x ∈ r :: (active before ++ active after) := fun x => by
      rw [hold, List.perm_middle.mem_iff]
    have hmemNew : ∀ x, x ∈ active (before ++ after ++ [k]) ↔
        x ∈ k :: (active before ++ active after) := fun x => by
      rw [hnew, (List.perm_append_singleton k _).mem_iff]
    rw [derivedFrom_iff (nodup_active hids), derivedFrom_iff (nodup_active hids')]
    simp only [hmemOld, hmemNew]
    exact ⟨exists_sharing_of_rewrite h.id_eq hother,
      exists_sharing_of_rewrite h.id_eq.symm fun x hx => (hother x hx).symm⟩
  · have hold : active (before ++ r :: after) = active before ++ active after := by
      rw [active_append, active, active, List.filter_cons_of_neg hactive]
      rfl
    have hnew : active (before ++ after ++ [k]) = active before ++ active after := by
      rw [active_append, active_append, active_singleton, h.isActive_eq, if_neg hactive,
        List.append_nil]
    exact ⟨hrecords, by rw [hold, hnew], fun id other => by rw [hold, hnew]⟩

end KnowledgeProjection

end RationaleVault
