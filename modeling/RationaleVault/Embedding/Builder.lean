import Mathlib.Data.List.Induction
import RationaleVault.Embedding.Projection

/-!
# Incremental embedding

The builder keeps the vectors of earlier builds and embeds only the nodes whose
hash has changed. It forgets them when the provider, the model or the version
changes, but never because a node is gone. So a build returns the vectors of the
given state exactly if no earlier build with the same specification has seen a
node that the state no longer has.
-/

namespace OrdDict

variable {κ : Type*} {ι : Type*} {ν : Type*} [DictKey κ ι] [DecidableEq ι]

/-- Writing entries with distinct keys one after another. -/
theorem get?_foldl_set {l : List (κ × ν)} (hl : (l.map fun e => DictKey.norm e.1).Nodup)
    (d : OrdDict κ ν) (k : κ) :
    (l.foldl (fun d e => d.set e.1 e.2) d).get? k = (lookupIn k l).or (d.get? k) := by
  induction l generalizing d with
  | nil => rfl
  | cons e rest ih =>
      rw [List.map_cons, List.nodup_cons] at hl
      rw [List.foldl_cons, ih hl.2, get?_set, lookupIn]
      by_cases hk : DictKey.norm e.1 = DictKey.norm k
      · rw [if_pos hk, if_pos hk, lookupIn_eq_none (hk ▸ hl.1)]
        rfl
      · rw [if_neg hk, if_neg hk]

/-- Looking up among the entries that are kept by a test which sees the normal form of the key. -/
theorem lookupIn_filter_entry {p : κ × ν → Bool} {k : κ}
    (hp : ∀ k' x, DictKey.norm k' = DictKey.norm k → p (k', x) = p (k, x)) {l : List (κ × ν)}
    (hl : (l.map fun e => DictKey.norm e.1).Nodup) :
    lookupIn k (l.filter p) = (lookupIn k l).filter fun x => p (k, x) := by
  induction l with
  | nil => rfl
  | cons e rest ih =>
      rw [List.map_cons, List.nodup_cons] at hl
      by_cases hk : DictKey.norm e.1 = DictKey.norm k
      · rw [lookupIn, if_pos hk, Option.filter_some, ← hp e.1 e.2 hk, List.filter_cons]
        split
        · rw [lookupIn, if_pos hk]
        · rw [ih hl.2, lookupIn_eq_none (hk ▸ hl.1)]
          rfl
      · rw [lookupIn, if_neg hk, ← ih hl.2, List.filter_cons]
        split
        · rw [lookupIn, if_neg hk]
        · rfl

/-- Looking up among entries with changed values. -/
theorem lookupIn_map {μ : Type*} (f : ν → μ) (k : κ) (l : List (κ × ν)) :
    lookupIn k (l.map fun e => (e.1, f e.2)) = (lookupIn k l).map f := by
  induction l with
  | nil => rfl
  | cons e rest ih =>
      rw [List.map_cons, lookupIn, lookupIn, ih]
      split
      · rfl
      · rfl

end OrdDict

namespace RationaleVault

/-- Metrics of the last build. -/
structure BuildMetrics where
  cacheHits : Nat := 0
  cacheMisses : Nat := 0
  rebuiltNodes : Nat := 0
  totalNodes : Nat := 0
  rebuildReason : String := "startup"
  deriving DecidableEq

/-- The content hash, the provider, the model and the version of a cached vector. -/
abbrev CacheEntry := String × String × String × Int

structure EmbeddingBuilder (ν : Type) where
  cache : OrdDict Atom CacheEntry := .empty
  vectors : OrdDict Atom ν := .empty
  lastProvider : String := ""
  lastModel : String := ""
  lastVersion : Int := 0
  metrics : BuildMetrics := {}

namespace EmbeddingBuilder

variable {ν : Type}

/-- What the cache holds for a node that is embedded. -/
def cacheEntry (state : EmbeddingState) (info : NodeInfo) : CacheEntry :=
  (info.contentHash, state.provider, state.model, state.version)

/-- The builder after it has noticed a change of the specification. -/
def respecified (b : EmbeddingBuilder ν) (state : EmbeddingState) : EmbeddingBuilder ν :=
  if state.provider ≠ b.lastProvider ∨ state.model ≠ b.lastModel ∨ state.version ≠ b.lastVersion then
    { b with
      cache := .empty
      vectors := .empty
      lastProvider := state.provider
      lastModel := state.model
      lastVersion := state.version
      metrics := { totalNodes := state.nodeCount, rebuildReason := "provider_change" } }
  else { b with metrics := { totalNodes := state.nodeCount } }

/-- The nodes that are not cached with their present hash. -/
def changedNodes (b : EmbeddingBuilder ν) (state : EmbeddingState) : List (Atom × NodeInfo) :=
  state.nodes.entries.filter fun e => b.cache.get? e.1 ≠ some (cacheEntry state e.2)

/-- `build(state)` with a provider that embeds text by text. It returns the vectors. -/
def build (embed : String → ν) (b : EmbeddingBuilder ν) (state : EmbeddingState) :
    EmbeddingBuilder ν :=
  let b := b.respecified state
  let changed := b.changedNodes state
  let counted := { b.metrics with
    cacheHits := state.nodeCount - changed.length
    cacheMisses := changed.length }
  if changed = [] then { b with metrics := counted }
  else
    let newVectors := (changed.map fun e => e.2.canonicalText).map embed
    { b with
      vectors := (changed.zip newVectors).foldl (fun vectors x => vectors.set x.1.1 x.2) b.vectors
      cache := changed.foldl (fun cache e => cache.set e.1 (cacheEntry state e.2)) b.cache
      metrics := { counted with rebuiltNodes := changed.length } }

/-- The specification of the last build. -/
def lastSpecification (b : EmbeddingBuilder ν) : String × String × Int :=
  (b.lastProvider, b.lastModel, b.lastVersion)

/-! ## One build -/

variable {embed : String → ν} {b : EmbeddingBuilder ν} {state : EmbeddingState}

theorem respecified_of_eq (h : state.specification = b.lastSpecification) :
    b.respecified state = { b with metrics := { totalNodes := state.nodeCount } } := by
  simp only [EmbeddingState.specification, lastSpecification, Prod.mk.injEq] at h
  rw [respecified, if_neg]
  simp [h]

theorem respecified_of_ne (h : state.specification ≠ b.lastSpecification) :
    (b.respecified state).cache = .empty ∧ (b.respecified state).vectors = .empty := by
  simp only [EmbeddingState.specification, lastSpecification, ne_eq, Prod.mk.injEq,
    not_and_or] at h
  rw [respecified, if_pos h]
  exact ⟨rfl, rfl⟩

theorem lastSpecification_respecified (b : EmbeddingBuilder ν) (state : EmbeddingState) :
    (b.respecified state).lastSpecification = state.specification := by
  by_cases h : state.specification = b.lastSpecification
  · rw [respecified_of_eq h, h]
    rfl
  · simp only [EmbeddingState.specification, lastSpecification, Prod.mk.injEq, not_and_or] at h
    rw [respecified, if_pos h]
    rfl

theorem lookupIn_changedNodes (b : EmbeddingBuilder ν) (state : EmbeddingState) (k : Atom) :
    OrdDict.lookupIn k (b.changedNodes state) = (state.nodes.get? k).filter fun info =>
      b.cache.get? k ≠ some (cacheEntry state info) :=
  OrdDict.lookupIn_filter_entry
    (fun k' info hk => by rw [OrdDict.get?_congr hk]) state.nodes.nodup

theorem nodup_changedNodes (b : EmbeddingBuilder ν) (state : EmbeddingState) :
    ((b.changedNodes state).map fun e => DictKey.norm e.1).Nodup :=
  state.nodes.nodup.sublist (List.filter_sublist.map _)

/-- The vectors of the changed nodes are written over the others. -/
theorem vectors_build (embed : String → ν) (b : EmbeddingBuilder ν) (state : EmbeddingState) :
    (b.build embed state).vectors = (((b.respecified state).changedNodes state).map fun e =>
      (e.1, embed e.2.canonicalText)).foldl (fun d e => d.set e.1 e.2)
        (b.respecified state).vectors := by
  rw [build]
  split
  next h => rw [h]; rfl
  next =>
    have hzip : ∀ {l : List (Atom × NodeInfo)} {d : OrdDict Atom ν},
        (l.zip ((l.map fun e => e.2.canonicalText).map embed)).foldl
          (fun vectors x => vectors.set x.1.1 x.2) d =
        (l.map fun e => (e.1, embed e.2.canonicalText)).foldl (fun d e => d.set e.1 e.2) d := by
      intro l d
      induction l generalizing d with
      | nil => rfl
      | cons e rest ih => exact ih
    exact hzip

theorem cache_build (embed : String → ν) (b : EmbeddingBuilder ν) (state : EmbeddingState) :
    (b.build embed state).cache = (((b.respecified state).changedNodes state).map fun e =>
      (e.1, cacheEntry state e.2)).foldl (fun d e => d.set e.1 e.2)
        (b.respecified state).cache := by
  rw [build, List.foldl_map]
  split
  next h => rw [h]; rfl
  next => rfl

theorem lastSpecification_build (embed : String → ν) (b : EmbeddingBuilder ν)
    (state : EmbeddingState) :
    (b.build embed state).lastSpecification = state.specification := by
  rw [← lastSpecification_respecified b state, build]
  split
  · rfl
  · rfl

/-- A build writes the value of each node that is not cached with its present hash. -/
theorem get?_foldl_changed {μ : Type} (f : NodeInfo → μ) (d : OrdDict Atom μ)
    (b : EmbeddingBuilder ν) (state : EmbeddingState) (k : Atom) :
    (((b.changedNodes state).map fun e => (e.1, f e.2)).foldl (fun d e => d.set e.1 e.2) d).get? k =
      (((state.nodes.get? k).filter fun info =>
        b.cache.get? k ≠ some (cacheEntry state info)).map f).or (d.get? k) := by
  have hnodup : (((b.changedNodes state).map fun e => (e.1, f e.2)).map fun e =>
      DictKey.norm e.1).Nodup := by
    rw [List.map_map]
    exact nodup_changedNodes b state
  rw [OrdDict.get?_foldl_set hnodup, OrdDict.lookupIn_map, lookupIn_changedNodes]

/-! ## Many builds -/

/-- The entry of a node in the newest state that has it; the newest state comes first. -/
def latest (states : List EmbeddingState) (k : Atom) : Option NodeInfo :=
  states.findSome? fun s => s.nodes.get? k

theorem latest_cons (state : EmbeddingState) (older : List EmbeddingState) (k : Atom) :
    latest (state :: older) k = (state.nodes.get? k).or (latest older k) := by
  rw [latest, List.findSome?_cons]
  cases state.nodes.get? k with
  | none => rfl
  | some info => rfl

/-- The states since the last change of the specification, the newest first. -/
def current : List EmbeddingState → List EmbeddingState
  | [] => []
  | state :: older =>
      state :: older.takeWhile fun s => s.specification = state.specification

/-- The builder holds the vectors and hashes of the newest entries of all nodes in the states. -/
structure Reflects (embed : String → ν) (b : EmbeddingBuilder ν) (states : List EmbeddingState) :
    Prop where
  cache : ∀ k, b.cache.get? k =
    (latest states k).map fun info => (info.contentHash, b.lastSpecification)
  vectors : ∀ k, b.vectors.get? k = (latest states k).map fun info => embed info.canonicalText

/-- Different texts in the states have different hashes. -/
def HashesApart (states : List EmbeddingState) : Prop :=
  ∀ s ∈ states, ∀ s' ∈ states, ∀ k info k' info', s.nodes.get? k = some info →
    s'.nodes.get? k' = some info' → info.contentHash = info'.contentHash →
      info.canonicalText = info'.canonicalText

theorem mem_of_mem_current {states : List EmbeddingState} {s : EmbeddingState}
    (h : s ∈ current states) : s ∈ states := by
  cases states with
  | nil => exact h
  | cons state older =>
      rcases List.mem_cons.mp h with rfl | h
      · exact List.mem_cons_self
      · exact List.mem_cons_of_mem _ ((List.takeWhile_prefix _).subset h)

theorem Reflects.respecified {states : List EmbeddingState} (h : b.Reflects embed states)
    (state : EmbeddingState) : (b.respecified state).Reflects embed
      (if state.specification = b.lastSpecification then states else []) := by
  by_cases hspec : state.specification = b.lastSpecification
  · rw [respecified_of_eq hspec, if_pos hspec]
    exact ⟨h.cache, h.vectors⟩
  · obtain ⟨hcache, hvectors⟩ := respecified_of_ne hspec
    rw [if_neg hspec]
    exact ⟨fun k => by rw [hcache]; rfl, fun k => by rw [hvectors]; rfl⟩

theorem mem_of_latest {states : List EmbeddingState} {k : Atom} {info : NodeInfo}
    (h : latest states k = some info) : ∃ s ∈ states, s.nodes.get? k = some info :=
  List.exists_of_findSome?_eq_some h

/-- A build brings the nodes of the state up to date and keeps the others. -/
theorem Reflects.build {states : List EmbeddingState} {state : EmbeddingState}
    (h : b.Reflects embed states)
    (happart : HashesApart (state :: states)) :
    (b.build embed state).Reflects embed
      (state :: if state.specification = b.lastSpecification then states else []) := by
  have hresp := h.respecified state
  have hlast := lastSpecification_respecified b state
  have hsub : ∀ s ∈ (if state.specification = b.lastSpecification then states else []),
      s ∈ states := by
    intro s hs
    split at hs
    · exact hs
    · cases hs
  generalize (if state.specification = b.lastSpecification then states else []) = older at *
  constructor
  · intro k
    rw [cache_build, get?_foldl_changed, lastSpecification_build, hresp.cache, hlast, latest_cons]
    cases hget : state.nodes.get? k with
    | none => rfl
    | some info =>
        rw [Option.filter_some]
        split
        · rfl
        next hcached =>
          simp only [ne_eq, decide_not, Bool.not_eq_true', decide_eq_false_iff_not, not_not] at hcached
          exact hcached
  · intro k
    rw [vectors_build, get?_foldl_changed (fun info => embed info.canonicalText), hresp.vectors,
      hresp.cache, hlast, latest_cons]
    cases hget : state.nodes.get? k with
    | none => rfl
    | some info =>
        rw [Option.filter_some]
        split
        · rfl
        next hcached =>
          simp only [ne_eq, decide_not, Bool.not_eq_true', decide_eq_false_iff_not, not_not] at hcached
          obtain ⟨info', hinfo', heq⟩ := Option.map_eq_some_iff.mp hcached
          obtain ⟨s, hs, hs'⟩ := mem_of_latest hinfo'
          have hhash : info'.contentHash = info.contentHash := (Prod.mk.inj heq).1
          have htext := happart s (List.mem_cons_of_mem _ (hsub s hs)) state List.mem_cons_self
            k info' k info hs' hget hhash
          rw [Option.map_none, Option.none_or, hinfo', Option.map_some, htext]
          rfl

/-- Hashes that are apart in a run are apart in its beginning. -/
theorem HashesApart.of_subset {states states' : List EmbeddingState} (h : HashesApart states')
    (hsub : ∀ s ∈ states, s ∈ states') : HashesApart states := fun s hs s' hs' =>
  h s (hsub s hs) s' (hsub s' hs')

/-- The states since the last change, when one more state comes. -/
theorem current_cons {state : EmbeddingState} {older : List EmbeddingState}
    (hlast : ∀ s ∈ older.head?, b.lastSpecification = s.specification) :
    current (state :: older) =
      state :: if state.specification = b.lastSpecification then current older else [] := by
  cases older with
  | nil =>
      split
      · rfl
      · rfl
  | cons s older =>
      have hs : b.lastSpecification = s.specification := hlast s rfl
      rw [current, hs, current]
      by_cases h : state.specification = s.specification
      · rw [if_pos h, List.takeWhile_cons_of_pos (by simp [h]), h]
      · rw [if_neg h, List.takeWhile_cons_of_neg (by simp [Ne.symm h])]

/-- After a run of builds the builder reflects the states since the last change. -/
theorem reflects_run (embed : String → ν) {states : List EmbeddingState}
    (happart : HashesApart states) :
    (states.foldl (build embed) {}).Reflects embed (current states.reverse) ∧
      ∀ s ∈ states.reverse.head?,
        (states.foldl (build embed) {}).lastSpecification = s.specification := by
  induction states using List.reverseRecOn with
  | nil => exact ⟨⟨fun _ => rfl, fun _ => rfl⟩, by simp⟩
  | append_singleton init state ih =>
      obtain ⟨hreflects, hlast⟩ :=
        ih (happart.of_subset fun s hs => List.mem_append_left _ hs)
      rw [List.foldl_concat, List.reverse_concat, current_cons hlast]
      refine ⟨hreflects.build (happart.of_subset fun s hs => ?_), ?_⟩
      · rcases List.mem_cons.mp hs with rfl | hs
        · exact List.mem_append_right _ (List.mem_singleton_self _)
        · exact List.mem_append_left _ (List.mem_reverse.mp (mem_of_mem_current hs))
      · intro s hs
        obtain rfl : state = s := Option.some.inj hs
        exact lastSpecification_build embed _ state

end EmbeddingBuilder

open EmbeddingBuilder

/-- When the hashes are those of the texts and no two texts of the run have the same one, the last
build returns the vectors of its nodes, as a fresh builder does, exactly if each node of the builds
since the last change of provider, model or version is a node of the last state. -/
theorem embeddingBuilder_build_iff {ν : Type} (embed : String → ν)
    (earlier : List EmbeddingState) (last : EmbeddingState)
    (hhash : ∀ s ∈ earlier ++ [last], ∀ k info, s.nodes.get? k = some info →
      info.contentHash = contentHash info.canonicalText)
    (hcollision : ∀ s ∈ earlier ++ [last], ∀ s' ∈ earlier ++ [last], ∀ k info k' info',
      s.nodes.get? k = some info → s'.nodes.get? k' = some info' →
      contentHash info.canonicalText = contentHash info'.canonicalText →
        info.canonicalText = info'.canonicalText) :
    (∀ k, (build embed {} last).vectors.get? k =
      (last.nodes.get? k).map fun info => embed info.canonicalText) ∧
    ((∀ k, (build embed (earlier.foldl (build embed) {}) last).vectors.get? k =
        (last.nodes.get? k).map fun info => embed info.canonicalText) ↔
      ∀ s ∈ earlier.reverse.takeWhile fun s => s.specification = last.specification,
        ∀ k, s.nodes.contains k = true → last.nodes.contains k = true) := by
  have happart : HashesApart (earlier ++ [last]) := by
    intro s hs s' hs' k info k' info' hget hget' heq
    rw [hhash s hs k info hget, hhash s' hs' k' info' hget'] at heq
    exact hcollision s hs s' hs' k info k' info' hget hget' heq
  constructor
  · intro k
    have hlast : HashesApart [last] := happart.of_subset fun s hs => List.mem_append_right _ hs
    have hfresh := (reflects_run embed hlast).1.vectors k
    rw [List.reverse_singleton, current, List.takeWhile_nil, latest_cons, latest,
      List.findSome?_nil, Option.or_none] at hfresh
    exact hfresh
  · have hvectors := (reflects_run embed happart).1.vectors
    rw [List.foldl_concat, List.reverse_concat, current] at hvectors
    generalize (earlier.reverse.takeWhile fun s => s.specification = last.specification) =
      older at *
    constructor
    · intro h s hs k hk
      by_contra hgone
      have hnone : last.nodes.get? k = none := by
        rwa [OrdDict.contains, Bool.not_eq_true, Option.isSome_eq_false_iff,
          Option.isNone_iff_eq_none] at hgone
      have hlatest := (hvectors k).symm.trans (h k)
      rw [latest_cons, hnone, Option.none_or, Option.map_none, Option.map_eq_none_iff, latest,
        List.findSome?_eq_none_iff] at hlatest
      rw [OrdDict.contains, hlatest s hs] at hk
      cases hk
    · intro h k
      rw [hvectors, latest_cons]
      cases hget : last.nodes.get? k with
      | some info => rfl
      | none =>
          have hnone : latest older k = none := by
            rw [latest, List.findSome?_eq_none_iff]
            intro s hs
            cases hs' : s.nodes.get? k with
            | none => rfl
            | some info =>
                have hk := h s hs k (by rw [OrdDict.contains, hs']; rfl)
                rw [OrdDict.contains, hget] at hk
                cases hk
          rw [hnone]
          rfl

/-! ## A node that is edited and deleted -/

/-- A state with one node. -/
def oneNode (text : String) : EmbeddingState where
  nodes := OrdDict.empty.set (.str "k1")
    { canonicalText := text
      contentHash := contentHash text
      knowledgeType := .str ""
      importance := .str ""
      tags := [] }

theorem get?_oneNode {text : String} {k : Atom} {info : NodeInfo}
    (h : (oneNode text).nodes.get? k = some info) :
    info.canonicalText = text ∧ info.contentHash = contentHash text := by
  rw [oneNode, OrdDict.get?_set] at h
  split at h
  · obtain rfl := Option.some.inj h
    exact ⟨rfl, rfl⟩
  · cases h

/-- An edited node gets its new vector. -/
theorem embeddingBuilder_build_edited :
    (build id ([oneNode "a"].foldl (build id) {}) (oneNode "b")).vectors.get? (.str "k1") =
      some "b" := by
  have htext : ∀ s ∈ [oneNode "a"] ++ [oneNode "b"], ∃ text ∈ ["a", "b"], s = oneNode text := by
    simp
  have happart : ∀ text ∈ ["a", "b"], ∀ text' ∈ ["a", "b"],
      contentHash text = contentHash text' → text = text' := by decide +kernel
  refine (embeddingBuilder_build_iff id [oneNode "a"] (oneNode "b") ?_ ?_).2.mpr ?_ (.str "k1")
  · intro s hs k info hget
    obtain ⟨text, -, rfl⟩ := htext s hs
    obtain ⟨htext, hhash⟩ := get?_oneNode hget
    rw [htext, hhash]
  · intro s hs s' hs' k info k' info' hget hget' heq
    obtain ⟨text, hmem, rfl⟩ := htext s hs
    obtain ⟨text', hmem', rfl⟩ := htext s' hs'
    rw [(get?_oneNode hget).1, (get?_oneNode hget').1] at heq ⊢
    exact happart text hmem text' hmem' heq
  · intro s hs k hk
    obtain rfl : s = oneNode "a" := by
      simpa using List.mem_reverse.mp ((List.takeWhile_prefix _).subset hs)
    have hsame : ∀ text, (oneNode text).nodes.normKeys = [AtomNorm.str "k1"] := fun _ => rfl
    rw [OrdDict.contains_iff, hsame] at hk ⊢
    exact hk

/-- A deleted node keeps its vector. -/
theorem embeddingBuilder_build_deleted :
    (build id ([oneNode "a"].foldl (build id) {}) {}).vectors.get? (.str "k1") = some "a" ∧
      (build id {} ({} : EmbeddingState)).vectors.get? (.str "k1") = (none : Option String) := by
  decide +kernel

end RationaleVault
