import Mathlib.Algebra.Order.Field.Rat
import Mathlib.Order.WithBot
import RationaleVault.CognitiveHead.Belief
import RationaleVault.Library.Spread

/-!
# What propagation computes

Beliefs are updated in place while the concepts leave the queue. Seen from the
concepts, the traversal lets every belief signal its doubt to the beliefs it
supports, supporters first, so a belief ends with the strongest doubt of its
supporters as they are in the end. Only which concepts are related matters, not
the order in which concepts and edges are listed or how often an edge is.
-/

namespace RationaleVault

namespace PropagationEngine

/-! ## The order of the concepts -/

/-- A known concept supports a known concept. -/
def Supports (concepts : List String) (supportGraph : OrdDict String (List String))
    (src tgt : String) : Prop := tgt ∈ adj concepts supportGraph src

instance (concepts : List String) (supportGraph : OrdDict String (List String)) :
    DecidableRel (Supports concepts supportGraph) :=
  fun src tgt => inferInstanceAs (Decidable (tgt ∈ adj concepts supportGraph src))

theorem supports_iff {concepts : List String} {supportGraph : OrdDict String (List String)}
    {src tgt : String} : Supports concepts supportGraph src tgt ↔
      src ∈ concepts ∧ tgt ∈ concepts ∧ tgt ∈ (supportGraph.get? src).getD [] := by
  unfold Supports adj
  split
  · simp_all [and_comm]
  · simp_all

theorem edge_iff {concepts : List String} {supportGraph : OrdDict String (List String)}
    {src tgt : String} : Kahn.Edge (adj concepts supportGraph) concepts src tgt ↔
      Supports concepts supportGraph src tgt :=
  and_iff_right_of_imp fun h => (supports_iff.mp h).1

variable {concepts : List String} {supportGraph : OrdDict String (List String)}

theorem sorted_topoOrder (hconcepts : concepts.Nodup) :
    Kahn.Sorted (adj concepts supportGraph) concepts (topoOrder concepts supportGraph) :=
  Kahn.sorted_order hconcepts fun _ _ h => mem_adj h

/-- The queue takes all concepts exactly when no concept supports itself along a path. -/
theorem length_topoOrder_iff (hconcepts : concepts.Nodup) :
    (topoOrder concepts supportGraph).length = concepts.length ↔
      Dag.Acyclic (Supports concepts supportGraph) := by
  have hsorted : Kahn.Sorted (adj concepts supportGraph) concepts
      (topoOrder concepts supportGraph) := sorted_topoOrder hconcepts
  rw [hsorted.length_eq_iff hconcepts, hsorted.complete_iff fun _ _ h => mem_adj h]
  have hedge : Kahn.Edge (adj concepts supportGraph) concepts =
      Supports concepts supportGraph := by
    funext src tgt
    exact propext edge_iff
  rw [hedge]

/-! ## Places -/

/-- Every concept of the map names the belief in its place, and no place has two concepts. -/
structure Places (beliefs : List Belief) (conceptIdToBeliefId : OrdDict String String)
    (beliefMap : OrdDict String Nat) : Prop where
  at_place : ∀ c i, beliefMap.get? c = some i →
    ∃ b, beliefs[i]? = some b ∧ conceptIdToBeliefId.get? c = some b.beliefId
  inj : ∀ c c' i, beliefMap.get? c = some i → beliefMap.get? c' = some i → c = c'

variable {conceptIdToBeliefId : OrdDict String String}

/-- The map with one more belief. -/
theorem beliefMap_concat (beliefs : List Belief) (b : Belief) :
    beliefMap (beliefs ++ [b]) conceptIdToBeliefId =
      ((conceptIdToBeliefId.entries.find? fun e => e.2 = b.beliefId).elim
        (beliefMap beliefs conceptIdToBeliefId)
        fun e => (beliefMap beliefs conceptIdToBeliefId).set e.1 beliefs.length) := by
  rw [beliefMap, List.zipIdx_append, List.foldl_append]
  simp only [List.zipIdx_cons, List.zipIdx_nil, List.foldl_cons, List.foldl_nil, Nat.zero_add]
  cases conceptIdToBeliefId.entries.find? fun e => e.2 = b.beliefId with
  | none => rfl
  | some e => rfl

theorem places_beliefMap (beliefs : List Belief)
    (conceptIdToBeliefId : OrdDict String String) :
    Places beliefs conceptIdToBeliefId (beliefMap beliefs conceptIdToBeliefId) := by
  induction beliefs using List.reverseRecOn with
  | nil =>
      constructor
      · intro c i h
        cases h
      · intro c c' i h
        cases h
  | append_singleton beliefs b ih =>
      have hgrow : ∀ {i : Nat} {b'}, beliefs[i]? = some b' → (beliefs ++ [b])[i]? = some b' := by
        intro i b' h
        have hlt : i < beliefs.length := (List.getElem?_eq_some_iff.mp h).1
        rw [List.getElem?_append_left hlt, h]
      have hold : ∀ c i, (beliefMap beliefs conceptIdToBeliefId).get? c = some i →
          i < beliefs.length := by
        intro c i h
        obtain ⟨b', hb', _⟩ := ih.at_place c i h
        exact (List.getElem?_eq_some_iff.mp hb').1
      rw [beliefMap_concat]
      cases hfind : conceptIdToBeliefId.entries.find? fun e => e.2 = b.beliefId with
      | none =>
          refine ⟨fun c i h => ?_, ih.inj⟩
          obtain ⟨b', hb', hid⟩ := ih.at_place c i h
          exact ⟨b', hgrow hb', hid⟩
      | some e =>
          have hid : e.2 = b.beliefId := by simpa using List.find?_some hfind
          have hentry : conceptIdToBeliefId.get? e.1 = some b.beliefId :=
            hid ▸ OrdDict.get?_of_mem (List.mem_of_find?_eq_some hfind)
          -- the new place is behind all places given before
          have hcases : ∀ c i, ((beliefMap beliefs conceptIdToBeliefId).set e.1
              beliefs.length).get? c = some i →
              c = e.1 ∧ i = beliefs.length ∨
                c ≠ e.1 ∧ (beliefMap beliefs conceptIdToBeliefId).get? c = some i := by
            intro c i h
            rw [OrdDict.get?_set] at h
            split at h
            · exact Or.inl ⟨by simp_all, by simpa using h.symm⟩
            · exact Or.inr ⟨fun heq => by simp_all, h⟩
          constructor
          · intro c i h
            rcases hcases c i h with ⟨rfl, rfl⟩ | ⟨_, h⟩
            · exact ⟨b, List.getElem?_concat_length, hentry⟩
            · obtain ⟨b', hb', hid'⟩ := ih.at_place c i h
              exact ⟨b', hgrow hb', hid'⟩
          · intro c c' i h h'
            rcases hcases c i h with ⟨rfl, rfl⟩ | ⟨_, h⟩
            · rcases hcases c' beliefs.length h' with ⟨rfl, _⟩ | ⟨_, h'⟩
              · rfl
              · exact absurd (hold c' _ h') (lt_irrefl _)
            · rcases hcases c' i h' with ⟨_, rfl⟩ | ⟨_, h'⟩
              · exact absurd (hold c _ h) (lt_irrefl _)
              · exact ih.inj c c' i h h'

/-- With distinct belief ids a concept has the place of the belief with its id. -/
theorem get?_beliefMap_iff {beliefs : List Belief}
    (hbeliefs : (beliefs.map Belief.beliefId).Nodup) (hvalues : conceptIdToBeliefId.values.Nodup)
    {c : String} {i : Nat} : (beliefMap beliefs conceptIdToBeliefId).get? c = some i ↔
      ∃ b, beliefs[i]? = some b ∧ conceptIdToBeliefId.get? c = some b.beliefId := by
  constructor
  · exact (places_beliefMap beliefs conceptIdToBeliefId).at_place c i
  · induction beliefs using List.reverseRecOn with
    | nil => rintro ⟨b, hb, _⟩; cases hb
    | append_singleton beliefs last ih =>
        rintro ⟨b, hb, hid⟩
        rw [List.map_append, List.map_singleton] at hbeliefs
        obtain ⟨hold, _, hapart⟩ := List.nodup_append.mp hbeliefs
        -- the belief that is found for the last place is known by its id
        have hkey : ∀ e ∈ conceptIdToBeliefId.entries, e.2 = b.beliefId → e.1 = c := by
          intro e he hval
          obtain ⟨e', he', hname, hval'⟩ := OrdDict.lookupIn_mem hid
          have heq : e = e' := List.inj_on_of_nodup_map hvalues he he' (hval.trans hval'.symm)
          rw [heq]
          exact hname
        rw [beliefMap_concat]
        by_cases hi : i < beliefs.length
        · rw [List.getElem?_append_left hi] at hb
          have hprev := ih hold ⟨b, hb, hid⟩
          cases hfind : conceptIdToBeliefId.entries.find? fun e => e.2 = last.beliefId with
          | none => exact hprev
          | some e =>
              have hlast : e.2 = last.beliefId := by simpa using List.find?_some hfind
              have hne : e.1 ≠ c := by
                intro heq
                have hget := OrdDict.get?_of_mem (List.mem_of_find?_eq_some hfind)
                rw [heq, hid, hlast, Option.some.injEq] at hget
                exact hapart _ (List.mem_map_of_mem (List.mem_of_getElem? hb)) _
                  List.mem_cons_self hget
              exact (OrdDict.get?_set_of_ne _ _ hne).trans hprev
        · have hplace : i = beliefs.length := by
            have hlt := (List.getElem?_eq_some_iff.mp hb).1
            rw [List.length_append, List.length_singleton] at hlt
            omega
          subst hplace
          rw [List.getElem?_concat_length, Option.some.injEq] at hb
          subst hb
          cases hfind : conceptIdToBeliefId.entries.find? fun e => e.2 = last.beliefId with
          | none =>
              obtain ⟨e, he, _, hval⟩ := OrdDict.lookupIn_mem hid
              exact absurd hval (by simpa using List.find?_eq_none.mp hfind e he)
          | some e =>
              have hval : e.2 = last.beliefId := by simpa using List.find?_some hfind
              rw [← hkey e (List.mem_of_find?_eq_some hfind) hval]
              exact OrdDict.get?_set_self _ _ _

/-! ## Beliefs of concepts -/

variable {targets : String → List String} {places : OrdDict String Nat}

theorem updateAt_of_some {cid : String} {i : Nat} (h : places.get? cid = some i)
    (bs : List Belief) (f : Belief → Belief) : updateAt places bs cid f = bs.modify i f := by
  simp only [updateAt, h]

theorem updateAt_of_none {cid : String} (h : places.get? cid = none) (bs : List Belief)
    (f : Belief → Belief) : updateAt places bs cid f = bs := by
  simp only [updateAt, h]

theorem beliefAt_of_some {c : String} {i : Nat} (h : places.get? c = some i)
    (bs : List Belief) : beliefAt places bs c = bs[i]? := by
  simp only [beliefAt, h, Option.bind_some]

theorem beliefAt_of_none {c : String} (h : places.get? c = none) (bs : List Belief) :
    beliefAt places bs c = none := by
  simp only [beliefAt, h, Option.bind_none]

/-- Changing the belief of one concept changes no other. -/
theorem beliefAt_updateAt {beliefs : List Belief}
    (hplaces : Places beliefs conceptIdToBeliefId places) (bs : List Belief) (cid : String)
    (f : Belief → Belief) (c : String) :
    beliefAt places (updateAt places bs cid f) c =
      if c = cid then (beliefAt places bs c).map f else beliefAt places bs c := by
  cases hc : places.get? c with
  | none =>
      rw [beliefAt_of_none hc, beliefAt_of_none hc]
      split
      · rfl
      · rfl
  | some j =>
      cases hcid : places.get? cid with
      | none =>
          have hne : c ≠ cid := by
            rintro rfl
            rw [hc] at hcid
            cases hcid
          rw [updateAt_of_none hcid, if_neg hne]
      | some i =>
          rw [updateAt_of_some hcid, beliefAt_of_some hc, beliefAt_of_some hc,
            List.getElem?_modify]
          by_cases heq : c = cid
          · have hij : i = j := by
              rw [heq, hcid, Option.some.injEq] at hc
              exact hc
            simp [heq, hij]
          · have hij : i ≠ j := fun h => heq (hplaces.inj c cid j hc (h ▸ hcid))
            simp [heq, hij]

/-- Lowering by two penalties is lowering by the stronger one. -/
theorem lower_lower (penalty penalty' : ℚ) (b : Belief) :
    lower penalty' (lower penalty b) = lower (min penalty penalty') b := by
  simp only [lower, min_assoc]

/-- What a belief signals to the beliefs it supports. -/
def penalty (config : ReasoningConfig) (parent : Option Belief) : WithTop ℚ :=
  match parent with
  | none => ⊤
  | some parent => ((parent.finalConfidence - 1) * config.attenuation : ℚ)

def lowerBy (penalty : WithTop ℚ) (child : Option Belief) : Option Belief :=
  match penalty with
  | none => child
  | some penalty => child.map (lower penalty)

/-- Doubt as a signal between the beliefs of concepts. -/
def doubt (config : ReasoningConfig) : Spread.Influence (Option Belief) (WithTop ℚ) where
  signal := penalty config
  act := lowerBy
  act_top := fun _ => rfl
  act_inf := by
    intro m m' child
    cases m with
    | top => rw [top_inf_eq]; rfl
    | coe p =>
        cases m' with
        | top => rw [inf_top_eq]; rfl
        | coe p' =>
            cases child with
            | none => rfl
            | some b => exact congrArg some (lower_lower p p' b).symm

/-- One step of the traversal passes the doubt of one concept on. -/
theorem beliefAt_propagateFrom {beliefs : List Belief}
    (hplaces : Places beliefs conceptIdToBeliefId places) (config : ReasoningConfig)
    (bs : List Belief) (parentCid : String) :
    beliefAt places (propagateFrom targets places config bs parentCid) =
      Spread.pass (doubt config) targets (beliefAt places bs) parentCid := by
  have hloop : ∀ (p : ℚ) (children : List String) (bs : List Belief) (c : String),
      beliefAt places (children.foldl
        (fun bs childCid => updateAt places bs childCid (lower p)) bs) c =
        if c ∈ children then (beliefAt places bs c).map (lower p) else beliefAt places bs c := by
    intro p children
    induction children with
    | nil =>
        intro bs c
        rfl
    | cons t rest ih =>
        intro bs c
        rw [List.foldl_cons, ih, beliefAt_updateAt hplaces]
        -- a repeated edge lowers by the same penalty again
        have htwice : ((beliefAt places bs c).map (lower p)).map (lower p) =
            (beliefAt places bs c).map (lower p) := by
          rw [Option.map_map]
          congr 1
          funext b
          rw [Function.comp_apply, lower_lower, min_self]
        by_cases ht : c = t
        · by_cases hrest : c ∈ rest
          · simp only [List.mem_cons, ht ▸ hrest, ht, if_true, or_true]
            rw [← ht]
            exact htwice
          · simp [ht, ht ▸ hrest]
        · simp [ht]
  funext c
  unfold propagateFrom
  cases hparent : beliefAt places bs parentCid with
  | none =>
      by_cases hedge : c ∈ targets parentCid
      · rw [Spread.pass_of_mem _ hedge, hparent]
        exact ((doubt config).act_top _).symm
      · rw [Spread.pass_of_not_mem _ hedge]
  | some parent =>
      simp only [hloop]
      by_cases hedge : c ∈ targets parentCid
      · rw [Spread.pass_of_mem _ hedge, hparent, if_pos hedge]
        rfl
      · rw [Spread.pass_of_not_mem _ hedge, if_neg hedge]

/-! ## Dependents -/

/-- The ids, with those of a list that are not among them yet. -/
def addMissing (ids news : List String) : List String :=
  news.foldl (fun ids i => if i ∈ ids then ids else ids ++ [i]) ids

theorem count_addMissing (ids news : List String) (x : String) :
    (addMissing ids news).count x =
      if x ∈ ids then ids.count x else if x ∈ news then 1 else 0 := by
  induction news generalizing ids with
  | nil =>
      by_cases hx : x ∈ ids
      · rw [if_pos hx]
        rfl
      · rw [if_neg hx]
        exact List.count_eq_zero.mpr hx
  | cons i rest ih =>
      change (addMissing (if i ∈ ids then ids else ids ++ [i]) rest).count x = _
      rw [ih]
      by_cases hi : i ∈ ids
      · rw [if_pos hi]
        by_cases hx : x ∈ ids
        · simp [hx]
        · have hne : x ≠ i := fun heq => hx (heq ▸ hi)
          simp [hx, hne]
      · rw [if_neg hi]
        by_cases hxi : x = i
        · subst hxi
          simp [hi, List.count_eq_zero.mpr hi]
        · have hne : i ≠ x := Ne.symm hxi
          simp [hxi, hne, List.count_append]

theorem addMissing_perm (ids news : List String) :
    (addMissing ids news).Perm (ids ++ news.dedup.filter (· ∉ ids)) := by
  apply List.perm_iff_count.mpr
  intro x
  rw [count_addMissing, List.count_append]
  by_cases hx : x ∈ ids
  · have hout : x ∉ news.dedup.filter (· ∉ ids) := by simp [hx]
    rw [if_pos hx, List.count_eq_zero.mpr hout, Nat.add_zero]
  · rw [if_neg hx, List.count_eq_zero.mpr hx, Nat.zero_add]
    by_cases hnew : x ∈ news
    · have hin : x ∈ news.dedup.filter (· ∉ ids) := by simp [hx, hnew]
      rw [if_pos hnew, List.count_eq_one_of_mem (news.nodup_dedup.filter _) hin]
    · have hout : x ∉ news.dedup.filter (· ∉ ids) := by simp [hnew]
      rw [if_neg hnew, List.count_eq_zero.mpr hout]

/-- Put the ids of dependents on the list of a belief. -/
def linkTo (ids : List String) (b : Belief) : Belief :=
  { b with dependentBeliefIds := Table.orderBy id (addMissing b.dependentBeliefIds ids) }

/-- How the ids are ordered or repeated does not matter. -/
theorem linkTo_congr {ids ids' : List String} (h : ∀ x, x ∈ ids ↔ x ∈ ids') :
    linkTo ids = linkTo ids' := by
  funext b
  have hperm : (addMissing b.dependentBeliefIds ids).Perm
      (addMissing b.dependentBeliefIds ids') := by
    apply List.perm_iff_count.mpr
    intro x
    rw [count_addMissing, count_addMissing]
    simp only [h x]
  rw [linkTo, linkTo, Table.orderBy_id_eq_of_perm hperm]

/-- The id of the belief of a concept. -/
def idAt (places : OrdDict String Nat) (beliefs : List Belief) (c : String) : Option String :=
  (beliefAt places beliefs c).map Belief.beliefId

theorem idAt_congr {bs bs' : List Belief}
    (h : bs.map Belief.identity = bs'.map Belief.identity) (c : String) :
    idAt places bs c = idAt places bs' c := by
  have hids : bs.map Belief.beliefId = bs'.map Belief.beliefId := by
    have hfst := congrArg (List.map Prod.fst) h
    rwa [List.map_map, List.map_map] at hfst
  cases hc : places.get? c with
  | none => rw [idAt, idAt, beliefAt_of_none hc, beliefAt_of_none hc]
  | some i =>
      rw [idAt, idAt, beliefAt_of_some hc, beliefAt_of_some hc, ← List.getElem?_map,
        ← List.getElem?_map, hids]

theorem foldl_addMissing {step : List String → String → List String}
    {ids : String → Option String} (hstep : ∀ l tgt, step l tgt = addMissing l (ids tgt).toList)
    (tgts l : List String) : tgts.foldl step l = addMissing l (tgts.filterMap ids) := by
  induction tgts generalizing l with
  | nil => rfl
  | cons tgt rest ih =>
      rw [List.foldl_cons, ih, hstep, List.filterMap_cons]
      cases ids tgt with
      | none => rfl
      | some i => rfl

theorem linkDependents_eq (bs : List Belief) (src : String) :
    linkDependents targets places bs src =
      updateAt places bs src (linkTo ((targets src).filterMap (idAt places bs))) := by
  unfold linkDependents linkTo
  congr 1
  funext b
  rw [@foldl_addMissing _ (idAt places bs)]
  intro l tgt
  unfold idAt
  cases beliefAt places bs tgt with
  | none => rfl
  | some t => rfl

/-- Every concept of a list gets its dependents once. -/
theorem beliefAt_linkAll {beliefs : List Belief}
    (hplaces : Places beliefs conceptIdToBeliefId places) {srcs : List String}
    (hsrcs : srcs.Nodup) (bs : List Belief) (c : String) :
    beliefAt places (srcs.foldl (linkDependents targets places) bs) c =
      if c ∈ srcs then (beliefAt places bs c).map (linkTo ((targets c).filterMap (idAt places bs)))
      else beliefAt places bs c := by
  induction srcs generalizing bs with
  | nil => rfl
  | cons src rest ih =>
      obtain ⟨hsrc, hrest⟩ := List.nodup_cons.mp hsrcs
      have hids : idAt places (linkDependents targets places bs src) = idAt places bs := by
        funext tgt
        exact idAt_congr (identity_linkDependents bs src) tgt
      rw [List.foldl_cons, ih hrest, hids, linkDependents_eq, beliefAt_updateAt hplaces]
      by_cases hc : c = src
      · subst hc
        simp [hsrc]
      · simp [hc]

/-! ## What does not change -/

/-- No concept has the place. -/
def Unplaced (places : OrdDict String Nat) (i : Nat) : Prop := ∀ c, places.get? c ≠ some i

theorem getElem?_updateAt {i : Nat} (hi : Unplaced places i) (bs : List Belief) (cid : String)
    (f : Belief → Belief) : (updateAt places bs cid f)[i]? = bs[i]? := by
  cases hcid : places.get? cid with
  | none => rw [updateAt_of_none hcid]
  | some j =>
      have hne : j ≠ i := fun heq => hi cid (heq ▸ hcid)
      rw [updateAt_of_some hcid, List.getElem?_modify]
      simp [hne]

theorem getElem?_propagateFrom {i : Nat} (hi : Unplaced places i) (config : ReasoningConfig)
    (bs : List Belief) (cid : String) :
    (propagateFrom targets places config bs cid)[i]? = bs[i]? := by
  unfold propagateFrom
  split
  · rfl
  · apply List.foldlRecOn (motive := fun bs' : List Belief => bs'[i]? = bs[i]?)
    · rfl
    · intro bs' h child _
      rw [getElem?_updateAt hi, h]

/-- Beliefs agree when they agree at the concepts and at the other places. -/
theorem ext_of_places {bs bs' : List Belief}
    (hconcepts : ∀ c, beliefAt places bs c = beliefAt places bs' c)
    (hother : ∀ i, Unplaced places i → bs[i]? = bs'[i]?) : bs = bs' := by
  apply List.ext_getElem?
  intro i
  by_cases hi : Unplaced places i
  · exact hother i hi
  · obtain ⟨c, hc⟩ := not_forall_not.mp hi
    rw [← beliefAt_of_some hc, ← beliefAt_of_some hc, hconcepts c]

/-! ## The traversal -/

/-- The concepts that support a concept. -/
def supporters (concepts : List String) (supportGraph : OrdDict String (List String))
    (tgt : String) : Finset String :=
  concepts.toFinset.filter fun src => Supports concepts supportGraph src tgt

theorem mem_supporters {src tgt : String} : src ∈ supporters concepts supportGraph tgt ↔
    Supports concepts supportGraph src tgt := by
  rw [supporters, Finset.mem_filter, List.mem_toFinset]
  exact and_iff_right_of_imp fun h => (supports_iff.mp h).1

/-- The beliefs of the concepts once dependents are listed. -/
def linked (beliefs : List Belief) (conceptIdToBeliefId : OrdDict String String)
    (supportGraph : OrdDict String (List String)) (c : String) : Option Belief :=
  let places := beliefMap beliefs conceptIdToBeliefId
  (beliefAt places beliefs c).map
    (linkTo ((adj conceptIdToBeliefId.keys supportGraph c).filterMap
      (idAt places beliefs)))

theorem keys_nodup (d : OrdDict String String) : d.keys.Nodup := d.normKeys_nodup

theorem get?_eq_none_of_not_mem {d : OrdDict String String} {c : String} (hc : c ∉ d.keys) :
    d.get? c = none := OrdDict.lookupIn_eq_none hc

variable (beliefs : List Belief) (conceptIdToBeliefId) (supportGraph) (config : ReasoningConfig)

/-- A cycle among the known concepts ends propagation before it starts. -/
theorem propagateBeliefs_of_cycle
    (h : ¬Dag.Acyclic (Supports conceptIdToBeliefId.keys supportGraph)) :
    propagateBeliefs beliefs conceptIdToBeliefId supportGraph config = beliefs := by
  have hlength := mt (length_topoOrder_iff (keys_nodup conceptIdToBeliefId)).mp h
  simp only [propagateBeliefs]
  rw [if_pos hlength]

variable {conceptIdToBeliefId supportGraph}

/-- The links leave at each concept its belief with the dependents of the whole graph. -/
theorem beliefAt_linked : beliefAt (beliefMap beliefs conceptIdToBeliefId)
      (conceptIdToBeliefId.keys.foldl
        (linkDependents (adj conceptIdToBeliefId.keys supportGraph)
          (beliefMap beliefs conceptIdToBeliefId)) beliefs) =
      linked beliefs conceptIdToBeliefId supportGraph := by
  have hplaces := places_beliefMap beliefs conceptIdToBeliefId
  funext c
  rw [beliefAt_linkAll hplaces (keys_nodup conceptIdToBeliefId)]
  split
  · rfl
  · rename_i hc
    have hnone : (beliefMap beliefs conceptIdToBeliefId).get? c = none := by
      cases hget : (beliefMap beliefs conceptIdToBeliefId).get? c with
      | none => rfl
      | some i =>
          obtain ⟨b, _, hid⟩ := hplaces.at_place c i hget
          rw [get?_eq_none_of_not_mem hc] at hid
          cases hid
    rw [linked, beliefAt_of_none hnone]
    rfl

/-- The traversal of a list is the traversal of its places. -/
theorem beliefAt_traverse (targets : String → List String) (order : List String)
    (bs : List Belief) :
    beliefAt (beliefMap beliefs conceptIdToBeliefId)
        (order.foldl (propagateFrom targets (beliefMap beliefs conceptIdToBeliefId) config) bs) =
      order.foldl (Spread.pass (doubt config) targets)
        (beliefAt (beliefMap beliefs conceptIdToBeliefId) bs) := by
  induction order generalizing bs with
  | nil => rfl
  | cons c rest ih =>
      rw [List.foldl_cons, List.foldl_cons, ih,
        beliefAt_propagateFrom (places_beliefMap beliefs conceptIdToBeliefId)]

/-- Without a cycle every belief ends with what its supporters signal in the end. -/
theorem settles_propagateBeliefs
    (h : Dag.Acyclic (Supports conceptIdToBeliefId.keys supportGraph)) :
    Spread.Settles (doubt config) (supporters conceptIdToBeliefId.keys supportGraph)
      (linked beliefs conceptIdToBeliefId supportGraph)
      (beliefAt (beliefMap beliefs conceptIdToBeliefId)
        (propagateBeliefs beliefs conceptIdToBeliefId supportGraph config)) := by
  have hkeys := keys_nodup conceptIdToBeliefId
  have hsorted : Kahn.Sorted (adj conceptIdToBeliefId.keys supportGraph) conceptIdToBeliefId.keys
      (topoOrder conceptIdToBeliefId.keys supportGraph) := sorted_topoOrder hkeys
  have hlength := (length_topoOrder_iff hkeys).mpr h
  have hmem : ∀ c, c ∈ topoOrder conceptIdToBeliefId.keys supportGraph ↔
      c ∈ conceptIdToBeliefId.keys := fun c =>
    ⟨hsorted.subset c, (hsorted.length_eq_iff hkeys).mp hlength c⟩
  have hready : ∀ p ∈ topoOrder conceptIdToBeliefId.keys supportGraph,
      ∀ n ∈ adj conceptIdToBeliefId.keys supportGraph p,
      p ∈ Kahn.predecessors (adj conceptIdToBeliefId.keys supportGraph)
        conceptIdToBeliefId.keys n :=
    fun p hp n hedge => Kahn.mem_predecessors.mpr ⟨hsorted.subset p hp, hedge⟩
  have hsettles := @Spread.settles_foldl_pass _ _ _ _ _ _ (doubt config) _ _ _ hready
    hsorted.finished (linked beliefs conceptIdToBeliefId supportGraph)
  have hsources : (fun n => (topoOrder conceptIdToBeliefId.keys supportGraph).toFinset.filter
      fun p => n ∈ adj conceptIdToBeliefId.keys supportGraph p) =
      supporters conceptIdToBeliefId.keys supportGraph := by
    funext n
    ext p
    rw [Finset.mem_filter, List.mem_toFinset, hmem, mem_supporters]
    exact and_iff_right_of_imp fun hedge => (supports_iff.mp hedge).1
  rw [hsources] at hsettles
  simp only [propagateBeliefs]
  rw [if_neg (by simpa using hlength), beliefAt_traverse, beliefAt_linked]
  exact hsettles

/-- Beliefs without a concept stay as they are. -/
theorem getElem?_propagateBeliefs {i : Nat}
    (hi : Unplaced (beliefMap beliefs conceptIdToBeliefId) i) :
    (propagateBeliefs beliefs conceptIdToBeliefId supportGraph config)[i]? = beliefs[i]? := by
  simp only [propagateBeliefs]
  split
  · rfl
  · apply List.foldlRecOn (motive := fun bs : List Belief => bs[i]? = beliefs[i]?)
    · apply List.foldlRecOn (motive := fun bs : List Belief => bs[i]? = beliefs[i]?)
      · rfl
      · intro bs h src _
        rw [linkDependents_eq, getElem?_updateAt hi, h]
    · intro bs h cid _
      rw [getElem?_propagateFrom hi, h]

theorem mem_of_no_concept {r : Belief}
    (hr : r ∈ propagateBeliefs beliefs conceptIdToBeliefId supportGraph config)
    (hno : ∀ c, conceptIdToBeliefId.get? c ≠ some r.beliefId) : r ∈ beliefs := by
  obtain ⟨i, hi⟩ := List.mem_iff_getElem?.mp hr
  have hunplaced : Unplaced (beliefMap beliefs conceptIdToBeliefId) i := by
    intro c hc
    obtain ⟨b, hb, hget⟩ := (places_beliefMap beliefs conceptIdToBeliefId).at_place c i hc
    have hids : (propagateBeliefs beliefs conceptIdToBeliefId supportGraph config).map
        Belief.identity = beliefs.map Belief.identity := identity_propagateBeliefs _ _ _ _
    have hsame : some r.identity = some b.identity := by
      have hat := congrArg (fun l => l[i]?) hids
      simpa only [List.getElem?_map, hi, hb, Option.map_some] using hat
    rw [Option.some.injEq] at hsame
    exact hno c (hget.trans (congrArg (some ∘ Prod.fst) hsame).symm)
  rw [getElem?_propagateBeliefs beliefs config hunplaced] at hi
  exact List.mem_of_getElem? hi

/-- Only which concepts have which place and which concepts are related matters. -/
theorem propagateBeliefs_congr {conceptIdToBeliefId' : OrdDict String String}
    {supportGraph' : OrdDict String (List String)}
    (hplaces : ∀ c, (beliefMap beliefs conceptIdToBeliefId).get? c =
      (beliefMap beliefs conceptIdToBeliefId').get? c)
    (hedges : ∀ src tgt, Supports conceptIdToBeliefId.keys supportGraph src tgt ↔
      Supports conceptIdToBeliefId'.keys supportGraph' src tgt) :
    propagateBeliefs beliefs conceptIdToBeliefId supportGraph config =
      propagateBeliefs beliefs conceptIdToBeliefId' supportGraph' config := by
  have hsupports : Supports conceptIdToBeliefId.keys supportGraph =
      Supports conceptIdToBeliefId'.keys supportGraph' := by
    funext src tgt
    exact propext (hedges src tgt)
  by_cases h : Dag.Acyclic (Supports conceptIdToBeliefId.keys supportGraph)
  · have h' : Dag.Acyclic (Supports conceptIdToBeliefId'.keys supportGraph') := hsupports ▸ h
    have hbeliefAt : ∀ bs : List Belief, beliefAt (beliefMap beliefs conceptIdToBeliefId') bs =
        beliefAt (beliefMap beliefs conceptIdToBeliefId) bs := by
      intro bs
      funext c
      rw [beliefAt, beliefAt, hplaces c]
    have hidAt : idAt (beliefMap beliefs conceptIdToBeliefId') beliefs =
        idAt (beliefMap beliefs conceptIdToBeliefId) beliefs := by
      funext c
      rw [idAt, idAt, hbeliefAt]
    have hlinked : linked beliefs conceptIdToBeliefId' supportGraph' =
        linked beliefs conceptIdToBeliefId supportGraph := by
      funext c
      simp only [linked, hbeliefAt, hidAt]
      congr 1
      apply linkTo_congr
      intro x
      have hmem : ∀ tgt, tgt ∈ adj conceptIdToBeliefId'.keys supportGraph' c ↔
          tgt ∈ adj conceptIdToBeliefId.keys supportGraph c := fun tgt => (hedges c tgt).symm
      simp only [List.mem_filterMap, hmem]
    have hsupporters : supporters conceptIdToBeliefId'.keys supportGraph' =
        supporters conceptIdToBeliefId.keys supportGraph := by
      funext tgt
      ext src
      rw [mem_supporters, mem_supporters, hedges]
    have hsettles := settles_propagateBeliefs beliefs config h
    have hsettles' := settles_propagateBeliefs beliefs config h'
    rw [hlinked, hsupporters, hbeliefAt] at hsettles'
    have hkeys : ∀ p n, p ∈ supporters conceptIdToBeliefId.keys supportGraph n →
        p ∈ conceptIdToBeliefId.keys :=
      fun p n hp => (supports_iff.mp (mem_supporters.mp hp)).1
    have hsame := hsettles.unique (by simpa only [mem_supporters] using h) hkeys hsettles'
    apply @ext_of_places (beliefMap beliefs conceptIdToBeliefId)
    · exact congrFun hsame
    · intro i hi
      have hi' : Unplaced (beliefMap beliefs conceptIdToBeliefId') i := fun c =>
        hplaces c ▸ hi c
      rw [getElem?_propagateBeliefs beliefs config hi, getElem?_propagateBeliefs beliefs config hi']
  · have h' : ¬Dag.Acyclic (Supports conceptIdToBeliefId'.keys supportGraph') := hsupports ▸ h
    rw [propagateBeliefs_of_cycle _ _ _ _ h, propagateBeliefs_of_cycle _ _ _ _ h']

/-! ## The defining equation -/

/-- The belief has the id that is recorded for the concept. -/
def BeliefFor (beliefs : List Belief) (conceptIdToBeliefId : OrdDict String String) (c : String)
    (b : Belief) : Prop := b ∈ beliefs ∧ conceptIdToBeliefId.get? c = some b.beliefId

/-- Beliefs and concepts correspond one to one. -/
structure OneToOne (beliefs : List Belief) (conceptIdToBeliefId : OrdDict String String) :
    Prop where
  nodup : (beliefs.map Belief.beliefId).Nodup
  values_perm : conceptIdToBeliefId.values.Perm (beliefs.map Belief.beliefId)

/-- No two beliefs have one id, and no two concepts have one belief. -/
structure Distinct (beliefs : List Belief) (conceptIdToBeliefId : OrdDict String String) :
    Prop where
  beliefs_nodup : (beliefs.map Belief.beliefId).Nodup
  values_nodup : conceptIdToBeliefId.values.Nodup

theorem OneToOne.distinct {beliefs : List Belief} (h : OneToOne beliefs conceptIdToBeliefId) :
    Distinct beliefs conceptIdToBeliefId :=
  ⟨h.nodup, h.values_perm.nodup_iff.mpr h.nodup⟩

/-- A belief to which no doubt has spread. -/
structure Fresh (b : Belief) : Prop where
  propagatedAdjustment : b.propagatedAdjustment = 0
  finalConfidence : b.finalConfidence = b.localConfidence
  nonneg : 0 ≤ b.localConfidence
  le_one : b.localConfidence ≤ 1

def clamp01 (x : ℚ) : ℚ := max 0 (min 1 x)

theorem clamp01_mono {x y : ℚ} (h : x ≤ y) : clamp01 x ≤ clamp01 y :=
  max_le_max le_rfl (min_le_min le_rfl h)

theorem clamp01_eq_self {x : ℚ} (h0 : 0 ≤ x) (h1 : x ≤ 1) : clamp01 x = x := by
  rw [clamp01, min_eq_right h1, max_eq_right h0]

/-- The doubts of the supporters of a concept. -/
def doubts (config : ReasoningConfig) (beliefs : List Belief)
    (conceptIdToBeliefId : OrdDict String String) (supportGraph : OrdDict String (List String))
    (c : String) : Set ℚ :=
  {q | ∃ src parent, Supports conceptIdToBeliefId.keys supportGraph src c ∧
    BeliefFor beliefs conceptIdToBeliefId src parent ∧
    q = (parent.finalConfidence - 1) * config.attenuation}

/-- What a concept's signals do to a belief that starts without doubt. -/
def adjustment (penalty : WithTop ℚ) : ℚ := (0 ⊓ penalty).untopD 0

/-- The adjustment is the least of the signals and zero. -/
theorem isLeast_adjustment {κ : Type} (s : Finset κ) (g : κ → WithTop ℚ) :
    IsLeast (insert 0 {q | ∃ p ∈ s, g p = (q : ℚ)}) (adjustment (s.inf g)) := by
  have hle : ∀ p ∈ s, s.inf g ≤ g p := fun p hp => Finset.inf_le hp
  cases hinf : s.inf g with
  | top =>
      have hnone : ∀ p ∈ s, g p = ⊤ := fun p hp => top_le_iff.mp (hinf ▸ hle p hp)
      have hzero : adjustment ⊤ = 0 := rfl
      rw [hzero]
      constructor
      · exact Set.mem_insert 0 _
      · rintro q (rfl | ⟨p, hp, hq⟩)
        · exact le_rfl
        · rw [hnone p hp] at hq
          cases hq
  | coe m =>
      have hmin : adjustment m = min 0 m := rfl
      rw [hmin]
      constructor
      · rcases min_choice 0 m with h | h
        · exact Set.mem_insert_iff.mpr (.inl h)
        · obtain ⟨p, hp, hpm⟩ : ∃ p ∈ s, s.inf g = g p := by
            apply Finset.exists_mem_eq_inf
            by_contra hempty
            rw [Finset.not_nonempty_iff_eq_empty.mp hempty] at hinf
            cases hinf
          exact Set.mem_insert_of_mem _ ⟨p, hp, by rw [← hpm, hinf, h]⟩
      · rintro q (rfl | ⟨p, hp, hq⟩)
        · exact min_le_left _ _
        · have hmq := hle p hp
          rw [hinf, hq, WithTop.coe_le_coe] at hmq
          exact (min_le_right 0 m).trans hmq

/-- The fields that the traversal gives a belief under a signal. -/
theorem exists_lowerBy (penalty : WithTop ℚ) (b : Belief) :
    ∃ r, lowerBy penalty (some b) = some r ∧ r.identity = b.identity ∧
      r.localConfidence = b.localConfidence ∧ r.dependentBeliefIds = b.dependentBeliefIds := by
  cases penalty with
  | top => exact ⟨b, rfl, rfl, rfl, rfl⟩
  | coe q => exact ⟨lower q b, rfl, rfl, rfl, rfl⟩

theorem finalConfidence_lowerBy {penalty : WithTop ℚ} {b r : Belief} (hb : Fresh b)
    (hr : lowerBy penalty (some b) = some r) :
    r.finalConfidence = clamp01 (b.localConfidence + adjustment penalty) := by
  cases penalty with
  | top =>
      obtain rfl : b = r := by simpa [lowerBy] using hr
      change b.finalConfidence = clamp01 (b.localConfidence + 0)
      rw [add_zero, clamp01_eq_self hb.nonneg hb.le_one, hb.finalConfidence]
  | coe q =>
      obtain rfl : lower q b = r := by simpa [lowerBy] using hr
      change clamp01 (b.localConfidence + min b.propagatedAdjustment q) =
        clamp01 (b.localConfidence + min 0 q)
      rw [hb.propagatedAdjustment]

/-- Beliefs of concepts are found by their ids. -/
theorem beliefAt_eq_some_iff {beliefs bs : List Belief}
    (hdistinct : Distinct beliefs conceptIdToBeliefId)
    (hsame : bs.map Belief.identity = beliefs.map Belief.identity) {c : String} {b : Belief} :
    beliefAt (beliefMap beliefs conceptIdToBeliefId) bs c = some b ↔
      BeliefFor bs conceptIdToBeliefId c b := by
  have hplace : ∀ (i : Nat) {b : Belief}, bs[i]? = some b →
      ∃ b₀, beliefs[i]? = some b₀ ∧ b₀.beliefId = b.beliefId := by
    intro i b hb
    have hi : (beliefs.map Belief.identity)[i]? = some b.identity := by
      rw [← hsame, List.getElem?_map, hb]
      rfl
    rw [List.getElem?_map, Option.map_eq_some_iff] at hi
    obtain ⟨b₀, hb₀, hid⟩ := hi
    exact ⟨b₀, hb₀, congrArg Prod.fst hid⟩
  unfold beliefAt
  rw [Option.bind_eq_some_iff]
  constructor
  · rintro ⟨i, hi, hb⟩
    obtain ⟨b₀, hb₀, hid⟩ := hplace i hb
    obtain ⟨b₁, hb₁, hget⟩ := (places_beliefMap beliefs conceptIdToBeliefId).at_place c i hi
    rw [hb₀, Option.some.injEq] at hb₁
    exact ⟨List.mem_of_getElem? hb, by rw [hget, ← hb₁, hid]⟩
  · rintro ⟨hmem, hget⟩
    obtain ⟨i, hb⟩ := List.mem_iff_getElem?.mp hmem
    obtain ⟨b₀, hb₀, hid⟩ := hplace i hb
    refine ⟨i, ?_, hb⟩
    apply (get?_beliefMap_iff hdistinct.beliefs_nodup hdistinct.values_nodup).mpr
    exact ⟨b₀, hb₀, by rw [hget, hid]⟩

/-- What propagation over a graph without a cycle leaves of the beliefs. -/
structure Propagated (config : ReasoningConfig) (conceptIdToBeliefId : OrdDict String String)
    (supportGraph : OrdDict String (List String)) (beliefs result : List Belief) : Prop where
  identity : result.map Belief.identity = beliefs.map Belief.identity
  localConfidence : ∀ {c b r}, BeliefFor beliefs conceptIdToBeliefId c b →
    BeliefFor result conceptIdToBeliefId c r → r.localConfidence = b.localConfidence
  final : ∀ {c b r}, BeliefFor beliefs conceptIdToBeliefId c b →
    BeliefFor result conceptIdToBeliefId c r →
      ∃ m, IsLeast (insert 0 (doubts config result conceptIdToBeliefId supportGraph c)) m ∧
        r.finalConfidence = clamp01 (b.localConfidence + m)
  dependents_sorted : ∀ {c r}, BeliefFor result conceptIdToBeliefId c r →
    r.dependentBeliefIds.Pairwise (· ≤ ·)
  dependents : ∀ {c b r}, BeliefFor beliefs conceptIdToBeliefId c b →
    BeliefFor result conceptIdToBeliefId c r →
      ∃ added : List String, added.Nodup ∧
        r.dependentBeliefIds.Perm (b.dependentBeliefIds ++ added) ∧
        ∀ i, i ∈ added ↔ i ∉ b.dependentBeliefIds ∧
          ∃ tgt t, Supports conceptIdToBeliefId.keys supportGraph c tgt ∧
            BeliefFor beliefs conceptIdToBeliefId tgt t ∧ i = t.beliefId

/-- A belief with its identity kept was there before. -/
theorem BeliefFor.before {beliefs result : List Belief} {c : String} {r : Belief}
    (hr : BeliefFor result conceptIdToBeliefId c r)
    (hidentity : result.map Belief.identity = beliefs.map Belief.identity) :
    ∃ b, BeliefFor beliefs conceptIdToBeliefId c b ∧ b.beliefId = r.beliefId := by
  have hmem := List.mem_map_of_mem (f := Belief.identity) hr.1
  rw [hidentity] at hmem
  obtain ⟨b, hb, heq⟩ := List.mem_map.mp hmem
  have hid : b.beliefId = r.beliefId := congrArg Prod.fst heq
  exact ⟨b, ⟨hb, hid ▸ hr.2⟩, hid⟩

/-- The belief of a concept after propagation, from the belief before. -/
theorem BeliefFor.propagated {beliefs : List Belief}
    (hdistinct : Distinct beliefs conceptIdToBeliefId)
    (h : Dag.Acyclic (Supports conceptIdToBeliefId.keys supportGraph)) (config : ReasoningConfig)
    {c : String} {b r : Belief} (hb : BeliefFor beliefs conceptIdToBeliefId c b)
    (hr : BeliefFor (propagateBeliefs beliefs conceptIdToBeliefId supportGraph config)
      conceptIdToBeliefId c r) :
    lowerBy ((supporters conceptIdToBeliefId.keys supportGraph c).inf fun src =>
        penalty config (beliefAt (beliefMap beliefs conceptIdToBeliefId)
          (propagateBeliefs beliefs conceptIdToBeliefId supportGraph config) src))
      (some (linkTo ((adj conceptIdToBeliefId.keys supportGraph c).filterMap
        (idAt (beliefMap beliefs conceptIdToBeliefId) beliefs)) b)) = some r := by
  have hsettles := settles_propagateBeliefs beliefs config h c
  have hat := (beliefAt_eq_some_iff hdistinct rfl).mpr hb
  have hat' := (beliefAt_eq_some_iff hdistinct (identity_propagateBeliefs _ _ _ _)).mpr hr
  rw [hat', linked, hat] at hsettles
  exact hsettles.symm

theorem fresh_linkTo {b : Belief} (hb : Fresh b) (ids : List String) : Fresh (linkTo ids b) :=
  ⟨hb.propagatedAdjustment, hb.finalConfidence, hb.nonneg, hb.le_one⟩

/-- The dependents of a belief are the old ones and those of the graph, sorted. -/
theorem BeliefFor.dependentBeliefIds {beliefs : List Belief}
    (hdistinct : Distinct beliefs conceptIdToBeliefId)
    (h : Dag.Acyclic (Supports conceptIdToBeliefId.keys supportGraph)) (config : ReasoningConfig)
    {c : String} {b r : Belief} (hb : BeliefFor beliefs conceptIdToBeliefId c b)
    (hr : BeliefFor (propagateBeliefs beliefs conceptIdToBeliefId supportGraph config)
      conceptIdToBeliefId c r) :
    r.dependentBeliefIds = Table.orderBy id (addMissing b.dependentBeliefIds
      ((adj conceptIdToBeliefId.keys supportGraph c).filterMap
        (idAt (beliefMap beliefs conceptIdToBeliefId) beliefs))) := by
  have hlower := hb.propagated hdistinct h config hr
  obtain ⟨r', hr', _, _, hdependents⟩ := exists_lowerBy _ (linkTo _ b)
  rw [hlower, Option.some.injEq] at hr'
  rw [hr', hdependents]
  rfl

/-- The doubts about a concept are the penalties of the beliefs that support it. -/
theorem doubts_eq {beliefs result : List Belief} (hdistinct : Distinct beliefs conceptIdToBeliefId)
    (hidentity : result.map Belief.identity = beliefs.map Belief.identity)
    (config : ReasoningConfig) (c : String) :
    doubts config result conceptIdToBeliefId supportGraph c =
      {q | ∃ src ∈ supporters conceptIdToBeliefId.keys supportGraph c,
        penalty config (beliefAt (beliefMap beliefs conceptIdToBeliefId) result src) =
          (q : ℚ)} := by
  ext q
  constructor
  · rintro ⟨src, parent, hedge, hparent, rfl⟩
    refine ⟨src, mem_supporters.mpr hedge, ?_⟩
    rw [(beliefAt_eq_some_iff hdistinct hidentity).mpr hparent]
    rfl
  · rintro ⟨src, hsrc, hq⟩
    cases hparent : beliefAt (beliefMap beliefs conceptIdToBeliefId) result src with
    | none =>
        rw [hparent] at hq
        cases hq
    | some parent =>
        rw [hparent] at hq
        exact ⟨src, parent, mem_supporters.mp hsrc,
          (beliefAt_eq_some_iff hdistinct hidentity).mp hparent, (WithTop.coe_inj.mp hq).symm⟩

theorem propagated_propagateBeliefs {beliefs : List Belief}
    (hdistinct : Distinct beliefs conceptIdToBeliefId) (hfresh : ∀ b ∈ beliefs, Fresh b)
    (config : ReasoningConfig)
    (h : Dag.Acyclic (Supports conceptIdToBeliefId.keys supportGraph)) :
    Propagated config conceptIdToBeliefId supportGraph beliefs
      (propagateBeliefs beliefs conceptIdToBeliefId supportGraph config) := by
  have hidentity : (propagateBeliefs beliefs conceptIdToBeliefId supportGraph config).map
      Belief.identity = beliefs.map Belief.identity := identity_propagateBeliefs _ _ _ _
  constructor
  · exact hidentity
  · intro c b r hb hr
    obtain ⟨r', hr', _, hlocal, _⟩ := exists_lowerBy _ (linkTo _ b)
    rw [hb.propagated hdistinct h config hr, Option.some.injEq] at hr'
    rw [hr', hlocal]
    rfl
  · intro c b r hb hr
    have hlower := hb.propagated hdistinct h config hr
    have hfinal := finalConfidence_lowerBy (fresh_linkTo (hfresh b hb.1) _) hlower
    refine ⟨_, ?_, hfinal⟩
    have hleast := isLeast_adjustment (supporters conceptIdToBeliefId.keys supportGraph c)
      fun src => penalty config (beliefAt (beliefMap beliefs conceptIdToBeliefId)
        (propagateBeliefs beliefs conceptIdToBeliefId supportGraph config) src)
    rw [doubts_eq hdistinct hidentity]
    exact hleast
  · intro c r hr
    obtain ⟨b, hb, _⟩ := hr.before hidentity
    rw [hb.dependentBeliefIds hdistinct h config hr]
    exact (Table.ordered_orderBy id _).sorted
  · intro c b r hb hr
    rw [hb.dependentBeliefIds hdistinct h config hr]
    refine ⟨_, ?_, (Table.orderBy_perm id _).trans (addMissing_perm _ _), ?_⟩
    · exact (List.nodup_dedup _).filter _
    · intro i
      rw [List.mem_filter, List.mem_dedup, List.mem_filterMap, decide_eq_true_iff, and_comm]
      apply and_congr_right
      intro _
      constructor
      · rintro ⟨tgt, hedge, hid⟩
        obtain ⟨t, ht, hi⟩ := Option.map_eq_some_iff.mp hid
        exact ⟨tgt, t, hedge, (beliefAt_eq_some_iff hdistinct rfl).mp ht, hi.symm⟩
      · rintro ⟨tgt, t, hedge, ht, rfl⟩
        exact ⟨tgt, hedge, Option.map_eq_some_iff.mpr
          ⟨t, (beliefAt_eq_some_iff hdistinct rfl).mpr ht, rfl⟩⟩

/-! ## Two runs -/

/-- One belief is at most as confident as another one, and both are as their adjustments say. -/
structure AtMost (b b' : Belief) : Prop where
  final_eq : b.finalConfidence = clamp01 (b.localConfidence + b.propagatedAdjustment)
  final_eq' : b'.finalConfidence = clamp01 (b'.localConfidence + b'.propagatedAdjustment)
  localConfidence : b.localConfidence ≤ b'.localConfidence
  propagatedAdjustment : b.propagatedAdjustment ≤ b'.propagatedAdjustment

theorem AtMost.finalConfidence {b b' : Belief} (h : AtMost b b') :
    b.finalConfidence ≤ b'.finalConfidence := by
  rw [h.final_eq, h.final_eq']
  exact clamp01_mono (add_le_add h.localConfidence h.propagatedAdjustment)

/-- Higher signals and higher beliefs give higher beliefs. -/
theorem respects_atMost {config : ReasoningConfig} (hattenuation : 0 ≤ config.attenuation) :
    Spread.Respects (doubt config) (Option.Rel AtMost) (· ≤ ·) where
  signal := by
    intro a a' h
    cases h with
    | none => exact le_rfl
    | some h =>
        apply WithTop.coe_le_coe.mpr
        exact mul_le_mul_of_nonneg_right (sub_le_sub_right h.finalConfidence 1) hattenuation
  act := by
    intro m m' a a' hm h
    cases h with
    | none => cases m <;> cases m' <;> exact .none
    | some h =>
        cases m with
        | top =>
            obtain rfl : m' = ⊤ := top_le_iff.mp hm
            exact .some h
        | coe q =>
            cases m' with
            | top =>
                exact .some ⟨rfl, h.final_eq', h.localConfidence,
                  (min_le_left _ q).trans h.propagatedAdjustment⟩
            | coe q' =>
                exact .some ⟨rfl, rfl, h.localConfidence,
                  min_le_min h.propagatedAdjustment (WithTop.coe_le_coe.mp hm)⟩
  top := le_rfl
  inf := fun h h' => inf_le_inf h h'

theorem Fresh.final_eq {b : Belief} (h : Fresh b) :
    b.finalConfidence = clamp01 (b.localConfidence + b.propagatedAdjustment) := by
  rw [h.propagatedAdjustment, add_zero, clamp01_eq_self h.nonneg h.le_one, h.finalConfidence]

theorem OneToOne.exists_belief {beliefs : List Belief} (h : OneToOne beliefs conceptIdToBeliefId)
    {c i : String} (hc : conceptIdToBeliefId.get? c = some i) :
    ∃ b, BeliefFor beliefs conceptIdToBeliefId c b := by
  have hvalue : i ∈ conceptIdToBeliefId.values := OrdDict.mem_values_iff.mpr ⟨c, hc⟩
  obtain ⟨b, hb, rfl⟩ := List.mem_map.mp (h.values_perm.mem_iff.mp hvalue)
  exact ⟨b, hb, hc⟩

/-- More confident beliefs stay more confident. -/
theorem finalConfidence_mono {beliefs beliefs' : List Belief}
    (hone : OneToOne beliefs conceptIdToBeliefId) (hone' : OneToOne beliefs' conceptIdToBeliefId)
    (hfresh : ∀ b ∈ beliefs, Fresh b) (hfresh' : ∀ b ∈ beliefs', Fresh b)
    {config : ReasoningConfig} (hattenuation : 0 ≤ config.attenuation)
    (h : Dag.Acyclic (Supports conceptIdToBeliefId.keys supportGraph))
    (hle : ∀ c b b', BeliefFor beliefs conceptIdToBeliefId c b →
      BeliefFor beliefs' conceptIdToBeliefId c b' → b.localConfidence ≤ b'.localConfidence)
    {c : String} {r r' : Belief}
    (hr : BeliefFor (propagateBeliefs beliefs conceptIdToBeliefId supportGraph config)
      conceptIdToBeliefId c r)
    (hr' : BeliefFor (propagateBeliefs beliefs' conceptIdToBeliefId supportGraph config)
      conceptIdToBeliefId c r') : r.finalConfidence ≤ r'.finalConfidence := by
  have hstart : ∀ c, Option.Rel AtMost (linked beliefs conceptIdToBeliefId supportGraph c)
      (linked beliefs' conceptIdToBeliefId supportGraph c) := by
    intro c
    simp only [linked]
    cases hb : beliefAt (beliefMap beliefs conceptIdToBeliefId) beliefs c with
    | none =>
        have hnone : beliefAt (beliefMap beliefs' conceptIdToBeliefId) beliefs' c = none := by
          by_contra hsome
          obtain ⟨b', hb'⟩ := Option.ne_none_iff_exists'.mp hsome
          obtain ⟨b, hb₀⟩ := hone.exists_belief ((beliefAt_eq_some_iff hone'.distinct rfl).mp hb').2
          rw [(beliefAt_eq_some_iff hone.distinct rfl).mpr hb₀] at hb
          cases hb
        rw [hnone]
        exact .none
    | some b =>
        have hbelief := (beliefAt_eq_some_iff hone.distinct rfl).mp hb
        obtain ⟨b', hbelief'⟩ := hone'.exists_belief hbelief.2
        rw [(beliefAt_eq_some_iff hone'.distinct rfl).mpr hbelief']
        have hb₀ := fresh_linkTo (hfresh b hbelief.1)
        have hb₀' := fresh_linkTo (hfresh' b' hbelief'.1)
        exact .some ⟨(hb₀ _).final_eq, (hb₀' _).final_eq, hle c b b' hbelief hbelief',
          (hb₀ []).propagatedAdjustment.trans_le (hb₀' []).propagatedAdjustment.ge⟩
  have hkeys : ∀ p n, p ∈ supporters conceptIdToBeliefId.keys supportGraph n →
      p ∈ conceptIdToBeliefId.keys :=
    fun p n hp => (supports_iff.mp (mem_supporters.mp hp)).1
  have hrel := (settles_propagateBeliefs beliefs config h).rel (respects_atMost hattenuation)
    (by simpa only [mem_supporters] using h) hkeys (settles_propagateBeliefs beliefs' config h)
    hstart c
  rw [(beliefAt_eq_some_iff hone.distinct (identity_propagateBeliefs _ _ _ _)).mpr hr,
    (beliefAt_eq_some_iff hone'.distinct (identity_propagateBeliefs _ _ _ _)).mpr hr'] at hrel
  cases hrel with
  | some hatMost => exact hatMost.finalConfidence

/-- How the concepts and the edges are listed, and how often, does not matter. -/
theorem propagateBeliefs_perm {beliefs : List Belief}
    (hone : OneToOne beliefs conceptIdToBeliefId) (config : ReasoningConfig)
    {conceptIdToBeliefId' : OrdDict String String} {supportGraph' : OrdDict String (List String)}
    (hperm : conceptIdToBeliefId'.entries.Perm conceptIdToBeliefId.entries)
    (hedges : ∀ src ∈ conceptIdToBeliefId.keys, ∀ tgt ∈ conceptIdToBeliefId.keys,
      (tgt ∈ (supportGraph.get? src).getD [] ↔ tgt ∈ (supportGraph'.get? src).getD [])) :
    propagateBeliefs beliefs conceptIdToBeliefId' supportGraph' config =
      propagateBeliefs beliefs conceptIdToBeliefId supportGraph config := by
  have hvalues : conceptIdToBeliefId.values.Nodup := hone.distinct.values_nodup
  have hvalues' : conceptIdToBeliefId'.values.Nodup := (hperm.map Prod.snd).nodup_iff.mpr hvalues
  have hkeys : ∀ c, c ∈ conceptIdToBeliefId'.keys ↔ c ∈ conceptIdToBeliefId.keys := fun c =>
    (hperm.map Prod.fst).mem_iff
  apply propagateBeliefs_congr
  · intro c
    apply Option.ext
    intro i
    rw [get?_beliefMap_iff hone.nodup hvalues', get?_beliefMap_iff hone.nodup hvalues,
      OrdDict.get?_eq_of_perm hperm]
  · intro src tgt
    rw [supports_iff, supports_iff, hkeys, hkeys]
    constructor
    · rintro ⟨hsrc, htgt, hedge⟩
      exact ⟨hsrc, htgt, (hedges src hsrc tgt htgt).mpr hedge⟩
    · rintro ⟨hsrc, htgt, hedge⟩
      exact ⟨hsrc, htgt, (hedges src hsrc tgt htgt).mp hedge⟩

/-- On a graph without a cycle propagation computes its equation, whatever the order of concepts
and edges, and respects the order of confidences; a cycle leaves the beliefs as they are. -/
theorem propagateBeliefs_computes {beliefs : List Belief}
    {conceptIdToBeliefId : OrdDict String String} (hone : OneToOne beliefs conceptIdToBeliefId)
    (hfresh : ∀ b ∈ beliefs, Fresh b) (supportGraph : OrdDict String (List String))
    {config : ReasoningConfig} (hattenuation : 0 ≤ config.attenuation) :
    (Dag.Acyclic (Supports conceptIdToBeliefId.keys supportGraph) →
      Propagated config conceptIdToBeliefId supportGraph beliefs
          (propagateBeliefs beliefs conceptIdToBeliefId supportGraph config) ∧
        (∀ (conceptIdToBeliefId' : OrdDict String String)
          (supportGraph' : OrdDict String (List String)),
          conceptIdToBeliefId'.entries.Perm conceptIdToBeliefId.entries →
          (∀ src ∈ conceptIdToBeliefId.keys, ∀ tgt ∈ conceptIdToBeliefId.keys,
            (tgt ∈ (supportGraph.get? src).getD [] ↔
              tgt ∈ (supportGraph'.get? src).getD [])) →
          propagateBeliefs beliefs conceptIdToBeliefId' supportGraph' config =
            propagateBeliefs beliefs conceptIdToBeliefId supportGraph config) ∧
        ∀ beliefs' : List Belief, OneToOne beliefs' conceptIdToBeliefId →
          (∀ b ∈ beliefs', Fresh b) →
          (∀ c b b', BeliefFor beliefs conceptIdToBeliefId c b →
            BeliefFor beliefs' conceptIdToBeliefId c b' →
              b.localConfidence ≤ b'.localConfidence) →
          ∀ c r r', BeliefFor (propagateBeliefs beliefs conceptIdToBeliefId supportGraph config)
              conceptIdToBeliefId c r →
            BeliefFor (propagateBeliefs beliefs' conceptIdToBeliefId supportGraph config)
              conceptIdToBeliefId c r' → r.finalConfidence ≤ r'.finalConfidence) ∧
    (¬Dag.Acyclic (Supports conceptIdToBeliefId.keys supportGraph) →
      propagateBeliefs beliefs conceptIdToBeliefId supportGraph config = beliefs) := by
  constructor
  · intro h
    refine ⟨propagated_propagateBeliefs hone.distinct hfresh config h, ?_, ?_⟩
    · intro conceptIdToBeliefId' supportGraph' hperm hedges
      exact propagateBeliefs_perm hone config hperm hedges
    · intro beliefs' hone' hfresh' hle c r r' hr hr'
      exact finalConfidence_mono hone hone' hfresh hfresh' hattenuation h hle hr hr'
  · exact propagateBeliefs_of_cycle _ _ _ _

/-! ## Two beliefs -/

/-- A belief as it stands before propagation. -/
def standing (beliefId : String) (confidence : ℚ) (dependents : List String) : Belief where
  beliefId := beliefId
  title := beliefId
  content := ""
  localConfidence := confidence
  propagatedAdjustment := 0
  finalConfidence := confidence
  assessment := ⟨confidence, 0, 0, 0, 0, 0, confidence, confidence⟩
  supportingEvidence := []
  dependentBeliefIds := dependents

theorem fresh_standing {beliefId : String} {confidence : ℚ} (h0 : 0 ≤ confidence)
    (h1 : confidence ≤ 1) (dependents : List String) :
    Fresh (standing beliefId confidence dependents) :=
  ⟨rfl, rfl, h0, h1⟩

/-- Two concepts, each with a belief. -/
def pairIds : OrdDict String String := .ofList [("a", "BEL-A"), ("b", "BEL-B")]

/-- The first concept supports the second one, twice. -/
def pairGraph : OrdDict String (List String) := .ofList [("a", ["b", "b", "unknown"])]

theorem acyclic_pair : Dag.Acyclic (Supports pairIds.keys pairGraph) := by
  apply Dag.acyclic_of_rank fun c => if c = "a" then 0 else 1
  intro src tgt hedge
  obtain ⟨hsrc, htgt, hlisted⟩ := supports_iff.mp hedge
  have hkeys : pairIds.keys = ["a", "b"] := rfl
  have hsources : src = "a" ∨ src = "b" := by simpa [hkeys] using hsrc
  rcases hsources with rfl | rfl
  · have htargets : (pairGraph.get? "a").getD [] = ["b", "b", "unknown"] := rfl
    have hne : tgt ≠ "a" := by
      rintro rfl
      simp [htargets] at hlisted
    simp [hne]
  · cases hlisted

/-- Doubt spreads along a repeated edge, and past an unknown concept. -/
theorem propagateBeliefs_computes_pair :
    Propagated {} pairIds pairGraph [standing "BEL-A" (1 / 2) [], standing "BEL-B" 1 []]
      (propagateBeliefs [standing "BEL-A" (1 / 2) [], standing "BEL-B" 1 []] pairIds pairGraph
        {}) := by
  have hfresh : ∀ b ∈ [standing "BEL-A" (1 / 2) [], standing "BEL-B" 1 []], Fresh b := by
    simp only [List.mem_cons, List.not_mem_nil, or_false, forall_eq_or_imp, forall_eq]
    exact ⟨fresh_standing (by decide +kernel) (by decide +kernel) _,
      fresh_standing zero_le_one le_rfl _⟩
  exact ((propagateBeliefs_computes ⟨by decide, by decide⟩ hfresh pairGraph
    (by decide +kernel)).1 acyclic_pair).1

/-- A dependent listed before stays, although nothing depends on the belief. -/
theorem not_only_dependents :
    OneToOne [standing "BEL-A" 1 ["BEL-X"]] (.ofList [("a", "BEL-A")]) ∧
      Fresh (standing "BEL-A" 1 ["BEL-X"]) ∧
      Dag.Acyclic (Supports (OrdDict.ofList [("a", "BEL-A")]).keys .empty) ∧
      ∃ r, BeliefFor (propagateBeliefs [standing "BEL-A" 1 ["BEL-X"]] (.ofList [("a", "BEL-A")])
          .empty {}) (.ofList [("a", "BEL-A")]) "a" r ∧
        "BEL-X" ∈ r.dependentBeliefIds ∧
        ∀ tgt, ¬Supports (OrdDict.ofList [("a", "BEL-A")]).keys .empty "a" tgt := by
  have hnone : ∀ src tgt, ¬Supports (OrdDict.ofList [("a", "BEL-A")]).keys .empty src tgt := by
    intro src tgt hedge
    cases (supports_iff.mp hedge).2.2
  refine ⟨⟨by decide, by decide⟩, fresh_standing zero_le_one le_rfl _, ?_, ?_⟩
  · exact Dag.acyclic_of_rank (fun _ => 0) fun src tgt hedge => absurd hedge (hnone src tgt)
  · refine ⟨standing "BEL-A" 1 ["BEL-X"], ⟨?_, rfl⟩, List.mem_singleton_self _, hnone "a"⟩
    have hresult : propagateBeliefs [standing "BEL-A" 1 ["BEL-X"]] (.ofList [("a", "BEL-A")])
        .empty {} = [standing "BEL-A" 1 ["BEL-X"]] := rfl
    rw [hresult]
    exact List.mem_singleton_self _

end PropagationEngine

end RationaleVault
