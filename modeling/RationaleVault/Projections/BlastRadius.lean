import Mathlib.Algebra.Order.Ring.Rat
import Mathlib.Data.Prod.Lex
import RationaleVault.Library.Distances
import RationaleVault.Projections.GraphRecord

/-!
# Blast radius

The search follows the edges of a node in both directions and enters every node once, with its
distance and the least confidence on the way. It starts with the confidence one.
-/

namespace RationaleVault

open Distances Walks

/-- An entry of a blast radius. -/
structure BlastEntry where
  nodeId : String
  distance : Nat
  confidence : ℚ
  deriving DecidableEq

namespace GraphRecord

variable (g : GraphRecord)

/-- The nodes at the other ends of the edges that are listed for a node, with the confidence. -/
def links (v : String) : List (String × ℚ) :=
  ((g.adjacency.get? v).getD []).map (fun e => (e.target, e.confidence)) ++
    ((g.reverseAdjacency.get? v).getD []).map fun e => (e.source, e.confidence)

/-- All nodes at the ends of listed edges. -/
def linked : List String :=
  g.adjacency.entries.flatMap (fun entry => entry.2.map GraphEdge.target) ++
    g.reverseAdjacency.entries.flatMap fun entry => entry.2.map GraphEdge.source

/-- Enter a node into the queue unless it was visited. -/
def enqueue (dist : Nat) (minConf : ℚ) (s : List BlastEntry × List String)
    (link : String × ℚ) : List BlastEntry × List String :=
  if link.1 ∈ s.2 then s
  else (s.1 ++ [⟨link.1, dist + 1, min minConf link.2⟩], link.1 :: s.2)

variable {g} in
theorem mem_linked {v : String} {link : String × ℚ} (h : link ∈ g.links v) :
    link.1 ∈ g.linked := by
  have hlisted : ∀ {d : OrdDict String (List GraphEdge)} {e : GraphEdge},
      e ∈ (d.get? v).getD [] → ∃ entry ∈ d.entries, e ∈ entry.2 := by
    intro d e he
    cases hget : d.get? v with
    | none =>
        rw [hget] at he
        cases he
    | some l =>
        rw [hget] at he
        obtain ⟨entry, hentry, _, rfl⟩ := OrdDict.lookupIn_mem hget
        exact ⟨entry, hentry, he⟩
  rw [links, List.mem_append, List.mem_map, List.mem_map] at h
  rw [linked, List.mem_append, List.mem_flatMap, List.mem_flatMap]
  rcases h with ⟨e, he, rfl⟩ | ⟨e, he, rfl⟩
  · obtain ⟨entry, hentry, hmem⟩ := hlisted he
    exact .inl ⟨entry, hentry, List.mem_map_of_mem hmem⟩
  · obtain ⟨entry, hentry, hmem⟩ := hlisted he
    exact .inr ⟨entry, hentry, List.mem_map_of_mem hmem⟩

/-- What is entered into a queue is visited. -/
theorem enqueue_measure (dist : Nat) (minConf : ℚ) {nodes : List String}
    {links : List (String × ℚ)} (hlinks : ∀ link ∈ links, link.1 ∈ nodes)
    (s : List BlastEntry × List String) :
    DepthFirst.unmet nodes (links.foldl (enqueue dist minConf) s).2 +
        (links.foldl (enqueue dist minConf) s).1.length ≤
      DepthFirst.unmet nodes s.2 + s.1.length := by
  induction links generalizing s with
  | nil => exact le_rfl
  | cons link links ih =>
      rw [List.foldl_cons]
      refine (ih (fun l hl => hlinks l (List.mem_cons_of_mem _ hl)) _).trans ?_
      rw [enqueue]
      split_ifs with hvisited
      · exact le_rfl
      · have hlt := DepthFirst.unmet_cons_lt (hlinks link List.mem_cons_self) hvisited
        rw [List.length_append, List.length_singleton]
        dsimp only
        omega

/-- The loop of `blast_radius`. -/
def blastLoop (depth : Nat) (queue : List BlastEntry) (visited : List String)
    (result : List BlastEntry) : List BlastEntry :=
  match queue with
  | [] => result
  | current :: queue =>
      let result := if 0 < current.distance then result ++ [current] else result
      if depth ≤ current.distance then blastLoop depth queue visited result
      else
        let s := (g.links current.nodeId).foldl (enqueue current.distance current.confidence)
          (queue, visited)
        blastLoop depth s.1 s.2 result
  termination_by DepthFirst.unmet g.linked visited + queue.length
  decreasing_by
    · exact Nat.lt_succ_self _
    · exact Nat.lt_succ_of_le (enqueue_measure _ _ (fun _ hlink => mem_linked hlink) _)

/-- `blast_radius(node_id, depth)`. -/
def blastRadius (nodeId : String) (depth : Nat) : List BlastEntry :=
  if g.nodes.contains nodeId = true then
    Table.orderBy (fun r => toLex (r.distance, -r.confidence))
      (g.blastLoop depth [⟨nodeId, 0, 1⟩] [nodeId] [])
  else []

/-! ## What a blast radius is -/

/-- An edge that is listed for the one node has the other at its other end. -/
def Touches (v : String) (e : GraphEdge) (w : String) : Prop :=
  e ∈ (g.adjacency.get? v).getD [] ∧ e.target = w ∨
    e ∈ (g.reverseAdjacency.get? v).getD [] ∧ e.source = w

/-- Two nodes with a listed edge between them. -/
def Beside (v w : String) : Prop := ∃ e, g.Touches v e w

/-- A walk along listed edges. -/
inductive EdgeWalk : List GraphEdge → String → String → Prop
  | refl {v : String} : EdgeWalk [] v v
  | tail {p : List GraphEdge} {u v w : String} {e : GraphEdge} (hwalk : EdgeWalk p u v)
      (he : g.Touches v e w) : EdgeWalk (p ++ [e]) u w

/-- The least confidence along some edges. -/
def Weakest (p : List GraphEdge) (c : ℚ) : Prop := IsLeast {x | ∃ e ∈ p, e.confidence = x} c

/-- The least of one and the confidences along some edges. -/
def CappedWeakest (p : List GraphEdge) (c : ℚ) : Prop :=
  IsLeast {x | x = 1 ∨ ∃ e ∈ p, e.confidence = x} c

/-- Every other node within the depth is listed once, with its distance and the confidence of a
shortest walk, in the order of distance and confidence. -/
structure BlastExact (confidenceOf : List GraphEdge → ℚ → Prop) (nodeId : String) (depth : Nat) :
    Prop where
  once : ((g.blastRadius nodeId depth).map BlastEntry.nodeId).Nodup
  distances : ∀ w d, (∃ r ∈ g.blastRadius nodeId depth, r.nodeId = w ∧ r.distance = d) ↔
    w ≠ nodeId ∧ d ≤ depth ∧ Distance g.Beside nodeId w d
  confidences : ∀ r ∈ g.blastRadius nodeId depth, ∃ p, g.EdgeWalk p nodeId r.nodeId ∧
    p.length = r.distance ∧ confidenceOf p r.confidence
  sorted : (g.blastRadius nodeId depth).Pairwise fun r r' =>
    r.distance < r'.distance ∨ r.distance = r'.distance ∧ r'.confidence ≤ r.confidence

variable {g} {nodeId : String} {depth : Nat} {queue result done : List BlastEntry}
  {visited : List String}

theorem mem_links {v : String} {link : String × ℚ} :
    link ∈ g.links v ↔ ∃ e, g.Touches v e link.1 ∧ e.confidence = link.2 := by
  simp only [links, List.mem_append, List.mem_map, Touches]
  constructor
  · rintro (⟨e, he, rfl⟩ | ⟨e, he, rfl⟩)
    · exact ⟨e, .inl ⟨he, rfl⟩, rfl⟩
    · exact ⟨e, .inr ⟨he, rfl⟩, rfl⟩
  · rintro ⟨e, ⟨he, hend⟩ | ⟨he, hend⟩, hconfidence⟩
    · exact .inl ⟨e, he, Prod.ext hend hconfidence⟩
    · exact .inr ⟨e, he, Prod.ext hend hconfidence⟩

theorem cappedWeakest_nil : CappedWeakest [] 1 :=
  ⟨.inl rfl, by rintro x (rfl | ⟨e, he, _⟩); exacts [le_rfl, absurd he List.not_mem_nil]⟩

theorem CappedWeakest.concat {p : List GraphEdge} {c : ℚ} (h : CappedWeakest p c)
    (e : GraphEdge) : CappedWeakest (p ++ [e]) (min c e.confidence) := by
  constructor
  · rcases min_choice c e.confidence with hmin | hmin
    · rw [hmin]
      exact h.1.imp_right fun ⟨e', he', hc⟩ => ⟨e', List.mem_append_left _ he', hc⟩
    · exact .inr ⟨e, by simp, hmin.symm⟩
  · rintro x (rfl | ⟨e', he', rfl⟩)
    · exact (min_le_left _ _).trans (h.2 (.inl rfl))
    · rcases List.mem_append.mp he' with he' | he'
      · exact (min_le_left _ _).trans (h.2 (.inr ⟨e', he', rfl⟩))
      · rw [List.mem_singleton.mp he']
        exact min_le_right _ _

/-! ## The loop -/

/-- What is entered: the links to new nodes, one for each. -/
theorem foldl_enqueue (dist : Nat) (minConf : ℚ) (links : List (String × ℚ))
    (s : List BlastEntry × List String) :
    ∃ new : List (String × ℚ),
      (links.foldl (enqueue dist minConf) s).1 =
        s.1 ++ new.map (fun l => ⟨l.1, dist + 1, min minConf l.2⟩) ∧
      (∀ w, w ∈ (links.foldl (enqueue dist minConf) s).2 ↔ w ∈ s.2 ∨ w ∈ new.map Prod.fst) ∧
      new ⊆ links ∧ (new.map Prod.fst).Nodup ∧ (∀ l ∈ new, l.1 ∉ s.2) ∧
      ∀ l ∈ links, l.1 ∈ (links.foldl (enqueue dist minConf) s).2 := by
  induction links generalizing s with
  | nil => exact ⟨[], by simp, by simp, by simp, by simp, by simp, by simp⟩
  | cons link links ih =>
      rw [List.foldl_cons, enqueue]
      split_ifs with hvisited
      · obtain ⟨new, hqueue, hmem, hsub, hnodup, hfresh, hall⟩ := ih s
        refine ⟨new, hqueue, hmem, fun l hl => List.mem_cons_of_mem _ (hsub hl), hnodup, hfresh, ?_⟩
        intro l hl
        rcases List.mem_cons.mp hl with rfl | hl
        · exact (hmem _).mpr (.inl hvisited)
        · exact hall l hl
      · obtain ⟨new, hqueue, hmem, hsub, hnodup, hfresh, hall⟩ :=
          ih (s.1 ++ [⟨link.1, dist + 1, min minConf link.2⟩], link.1 :: s.2)
        refine ⟨link :: new, ?_, fun w => ?_, ?_, ?_, ?_, ?_⟩
        · rw [hqueue]
          simp
        · rw [hmem, List.map_cons, List.mem_cons, List.mem_cons]
          tauto
        · exact List.cons_subset_cons _ hsub
        · rw [List.map_cons, List.nodup_cons]
          refine ⟨fun hlink => ?_, hnodup⟩
          obtain ⟨l, hl, heq⟩ := List.mem_map.mp hlink
          exact hfresh l hl (heq ▸ List.mem_cons_self)
        · intro l hl
          rcases List.mem_cons.mp hl with rfl | hl
          · exact hvisited
          · exact fun hold => hfresh l hl (List.mem_cons_of_mem _ hold)
        · intro l hl
          rcases List.mem_cons.mp hl with rfl | hl
          · exact (hmem _).mpr (.inl List.mem_cons_self)
          · exact hall l hl

/-- The loop between two steps, with the entries that were taken from the queue. -/
structure Radiating (g : GraphRecord) (nodeId : String) (depth : Nat)
    (queue : List BlastEntry) (visited : List String) (result done : List BlastEntry) : Prop where
  entering : Entering g.Beside nodeId depth (queue.map fun e => (e.nodeId, e.distance))
    (done.map fun e => (e.nodeId, e.distance))
  visited_iff : ∀ v, v ∈ visited ↔ v ∈ (done ++ queue).map BlastEntry.nodeId
  weighed : ∀ e ∈ done ++ queue, ∃ p, g.EdgeWalk p nodeId e.nodeId ∧ p.length = e.distance ∧
    CappedWeakest p e.confidence
  result_eq : result = done.filter fun e => 0 < e.distance

theorem Radiating.start (g : GraphRecord) (nodeId : String) (depth : Nat) :
    Radiating g nodeId depth [⟨nodeId, 0, 1⟩] [nodeId] [] [] where
  entering := .start _ nodeId depth
  visited_iff := by simp
  weighed := by
    intro e he
    obtain rfl := List.mem_singleton.mp he
    exact ⟨[], .refl, rfl, cappedWeakest_nil⟩
  result_eq := rfl

theorem fst_positions (l l' : List BlastEntry) :
    ((l.map fun e => (e.nodeId, e.distance)) ++ l'.map fun e => (e.nodeId, e.distance)).map
      Prod.fst = (l ++ l').map BlastEntry.nodeId := by
  simp [Function.comp_def]

/-- An entry is taken out; it is expanded below the depth. -/
theorem Radiating.visit {current : BlastEntry}
    (h : Radiating g nodeId depth (current :: queue) visited result done)
    (new : List (String × ℚ)) (hbound : current.distance < depth ∨ new = [])
    (hsub : new ⊆ g.links current.nodeId) (hnodup : (new.map Prod.fst).Nodup)
    (hfresh : ∀ l ∈ new, l.1 ∉ visited)
    {visited' : List String} (hvisited : ∀ w, w ∈ visited' ↔ w ∈ visited ∨ w ∈ new.map Prod.fst)
    (hall : current.distance < depth → ∀ l ∈ g.links current.nodeId, l.1 ∈ visited') :
    Radiating g nodeId depth
      (queue ++ new.map fun l => ⟨l.1, current.distance + 1, min current.confidence l.2⟩) visited'
      (if 0 < current.distance then result ++ [current] else result) (done ++ [current]) := by
  have hknown : ∀ w, w ∈ ((done.map fun e => (e.nodeId, e.distance)) ++
      (current.nodeId, current.distance) :: queue.map fun e => (e.nodeId, e.distance)).map
        Prod.fst ↔ w ∈ visited := by
    intro w
    rw [h.visited_iff, ← fst_positions done (current :: queue), List.map_cons]
  constructor
  · have hentering := h.entering.visit (new.map Prod.fst)
      (hbound.imp_right fun hnil => by rw [hnil]; rfl) ?_ hnodup ?_ ?_
    · simpa [Function.comp_def] using hentering
    · intro w hw
      obtain ⟨l, hl, rfl⟩ := List.mem_map.mp hw
      obtain ⟨e, he, _⟩ := mem_links.mp (hsub hl)
      exact ⟨e, he⟩
    · intro w hw
      obtain ⟨l, hl, rfl⟩ := List.mem_map.mp hw
      rw [hknown]
      exact hfresh l hl
    · rintro hlt w ⟨e, he⟩
      have hlink : (w, e.confidence) ∈ g.links current.nodeId := mem_links.mpr ⟨e, he, rfl⟩
      rw [hknown]
      exact ((hvisited w).mp (hall hlt _ hlink)).symm
  · intro v
    rw [hvisited, h.visited_iff]
    simp [Function.comp_def, or_assoc]
  · intro e he
    have hsplit : e ∈ done ++ current :: queue ∨
        ∃ l ∈ new, (⟨l.1, current.distance + 1, min current.confidence l.2⟩ : BlastEntry) = e := by
      simp only [List.mem_append, List.mem_cons, List.mem_map] at he ⊢
      tauto
    rcases hsplit with hold | ⟨l, hl, rfl⟩
    · exact h.weighed e hold
    · obtain ⟨p, hwalk, hlength, hweakest⟩ := h.weighed current (by simp)
      obtain ⟨e', he', hconfidence⟩ := mem_links.mp (hsub hl)
      refine ⟨p ++ [e'], hwalk.tail he', ?_, hconfidence ▸ hweakest.concat e'⟩
      rw [List.length_append, hlength]
      rfl
  · rw [List.filter_append, ← h.result_eq]
    split_ifs with hpos
    · rw [List.filter_cons_of_pos (by simpa using hpos)]
      rfl
    · rw [List.filter_cons_of_neg (by simpa using hpos), List.filter_nil, List.append_nil]

/-- The loop ends with an empty queue. -/
theorem Radiating.blastLoop (h : Radiating g nodeId depth queue visited result done) :
    ∃ visited' done', Radiating g nodeId depth [] visited'
      (g.blastLoop depth queue visited result) done' := by
  induction queue, visited, result using blastLoop.induct g depth generalizing done with
  | case1 visited result =>
      rw [GraphRecord.blastLoop]
      exact ⟨visited, done, h⟩
  | case2 visited result current queue result' hdepth =>
      rename_i ih
      rw [GraphRecord.blastLoop]
      dsimp only
      rw [if_pos hdepth]
      refine ih (?_ : Radiating _ _ _ _ _ _ (done ++ [current]))
      have hsame : ∀ w, w ∈ visited ↔ w ∈ visited ∨ w ∈ ([] : List (String × ℚ)).map Prod.fst := by
        simp
      have hvisit := h.visit [] (.inr rfl) (by simp) (by simp) (by simp) hsame
        fun hlt => absurd hlt (by omega)
      rw [List.map_nil, List.append_nil] at hvisit
      exact hvisit
  | case3 visited result current queue result' hdepth s =>
      rename_i ih
      rw [GraphRecord.blastLoop]
      dsimp only
      rw [if_neg hdepth]
      obtain ⟨new, hqueue, hmem, hsub, hnodup, hfresh, hall⟩ := foldl_enqueue current.distance
        current.confidence (g.links current.nodeId) (queue, visited)
      refine ih (?_ : Radiating _ _ _ _ _ _ (done ++ [current]))
      have hvisit := h.visit new (.inl (by omega)) hsub hnodup hfresh hmem fun _ => hall
      rw [← hqueue] at hvisit
      exact hvisit

theorem blastRadius_perm (hnode : g.nodes.contains nodeId = true) (depth : Nat) :
    ∃ visited done, Radiating g nodeId depth [] visited
        (done.filter fun e => 0 < e.distance) done ∧
      (g.blastRadius nodeId depth).Perm (done.filter fun e => 0 < e.distance) := by
  obtain ⟨visited, done, h⟩ := (Radiating.start g nodeId depth).blastLoop
  refine ⟨visited, done, h.result_eq ▸ h, ?_⟩
  rw [blastRadius, if_pos hnode, ← h.result_eq]
  exact Table.orderBy_perm _ _

/-- The other nodes within the depth are listed, with confidences of at most one. -/
theorem blastRadius_capped (hnode : g.nodes.contains nodeId = true) (depth : Nat) :
    g.BlastExact CappedWeakest nodeId depth := by
  obtain ⟨visited, done, h, hperm⟩ := blastRadius_perm hnode depth
  have hmem : ∀ r, r ∈ g.blastRadius nodeId depth ↔ r ∈ done ∧ 0 < r.distance := by
    intro r
    rw [hperm.mem_iff, List.mem_filter, decide_eq_true_eq]
  have hdone : ∀ w d, (w, d) ∈ done.map (fun e => (e.nodeId, e.distance)) ↔
      d ≤ depth ∧ Distance g.Beside nodeId w d := fun w d => h.entering.mem_iff
  constructor
  · have hnodup := h.entering.nodup
    rw [List.map_nil, List.append_nil, List.map_map] at hnodup
    rw [(hperm.map BlastEntry.nodeId).nodup_iff]
    exact hnodup.sublist (List.filter_sublist.map _)
  · intro w d
    constructor
    · rintro ⟨r, hr, rfl, rfl⟩
      obtain ⟨hr, hpos⟩ := (hmem r).mp hr
      obtain ⟨hle, hdistance⟩ := (hdone r.nodeId r.distance).mp (List.mem_map_of_mem hr)
      refine ⟨fun heq => ?_, hle, hdistance⟩
      have hzero := hdistance.2 (show Walk g.Beside 0 nodeId r.nodeId by rw [heq]; exact .refl)
      omega
    · rintro ⟨hne, hle, hdistance⟩
      obtain ⟨r, hr, heq⟩ := List.mem_map.mp ((hdone w d).mpr ⟨hle, hdistance⟩)
      obtain ⟨rfl, rfl⟩ := Prod.mk.inj heq
      exact ⟨r, (hmem r).mpr ⟨hr, hdistance.pos hne⟩, rfl, rfl⟩
  · intro r hr
    exact h.weighed r (by simpa using ((hmem r).mp hr).1)
  · rw [blastRadius, if_pos hnode]
    apply (Table.ordered_orderBy _ _).sorted.imp
    intro r r' hle
    rcases Prod.Lex.toLex_le_toLex.mp hle with hlt | ⟨heq, hneg⟩
    · exact .inl hlt
    · exact .inr ⟨heq, neg_le_neg_iff.mp hneg⟩

/-- What holds of the listed edges holds along a walk. -/
theorem EdgeWalk.all {P : GraphEdge → Prop} {p : List GraphEdge} {v w : String}
    (hedges : ∀ v e w, g.Touches v e w → P e) (h : g.EdgeWalk p v w) : ∀ e ∈ p, P e := by
  induction h with
  | refl => simp
  | tail _ he ih =>
      intro e' he'
      rcases List.mem_append.mp he' with he' | he'
      · exact ih e' he'
      · rw [List.mem_singleton.mp he']
        exact hedges _ _ _ he

/-- Confidences of at most one are not cut off. -/
theorem CappedWeakest.weakest {p : List GraphEdge} {c : ℚ} (h : CappedWeakest p c) (hne : p ≠ [])
    (hle : ∀ e ∈ p, e.confidence ≤ 1) : Weakest p c := by
  refine ⟨?_, fun x hx => h.2 (.inr hx)⟩
  rcases h.1 with rfl | hmem
  · obtain ⟨e, he⟩ := List.exists_mem_of_ne_nil p hne
    exact ⟨e, he, le_antisymm (hle e he) (h.2 (.inr ⟨e, he, rfl⟩))⟩
  · exact hmem

/-- The blast radius lists the other nodes within the depth at their distances, with the smaller of
one and the least confidence of a shortest walk; where no confidence exceeds one, with that least
confidence itself. -/
theorem blastRadius_exact (g : GraphRecord) {nodeId : String}
    (hnode : g.nodes.contains nodeId = true) (depth : Nat) :
    g.BlastExact CappedWeakest nodeId depth ∧
      ((∀ v e w, g.Touches v e w → e.confidence ≤ 1) → g.BlastExact Weakest nodeId depth) := by
  have hcapped := blastRadius_capped hnode depth
  refine ⟨hcapped, fun hedges => ⟨hcapped.once, hcapped.distances, fun r hr => ?_, hcapped.sorted⟩⟩
  obtain ⟨p, hwalk, hlength, hweakest⟩ := hcapped.confidences r hr
  obtain ⟨hne, _, hdistance⟩ := (hcapped.distances r.nodeId r.distance).mp ⟨r, hr, rfl, rfl⟩
  have hp : p ≠ [] := by
    rintro rfl
    have hpos := hdistance.pos hne
    rw [← hlength, List.length_nil] at hpos
    omega
  exact ⟨p, hwalk, hlength, hweakest.weakest hp (hwalk.all hedges)⟩

theorem blastRadius_exact_threeObjects :
    ∃ g, GraphProjection.projectRecord .asciiOnly "" GraphProjection.threeObjects = .ok g ∧
      g.BlastExact CappedWeakest "k1" 2 ∧
        ((∀ v e w, g.Touches v e w → e.confidence ≤ 1) → g.BlastExact Weakest "k1" 2) := by
  obtain ⟨g, hg⟩ : ∃ g, GraphProjection.projectRecord .asciiOnly "" GraphProjection.threeObjects =
    .ok g := ⟨_, rfl⟩
  have hnode : g.nodes.contains "k1" = true := by
    rw [(GraphProjection.projectRecord_indexed hg).1]
    decide +kernel
  exact ⟨g, hg, blastRadius_exact g hnode 2⟩

/-- Two objects in a conflict of confidence two. -/
def boldState : CompiledKnowledge where
  projectId := "p1"
  activeKnowledge :=
    [ReasoningEngine.rule "k1" "Storage" "use sqlite" "m1",
      ReasoningEngine.rule "k2" "Tests" "run" "m2"]
  conflictQueue :=
    [{ conflictId := "c1", knowledgeAId := "k1", knowledgeBId := "k2", knowledgeATitle := "Storage"
       knowledgeBTitle := "Tests", confidence := 2, raisedAt := "" }]

/-- The only way between the two has the confidence two, and one is listed. -/
theorem blastRadius_bold :
    ∃ g, GraphProjection.projectRecord .asciiOnly "" boldState = .ok g ∧
      g.nodes.contains "k1" = true ∧ ¬g.BlastExact Weakest "k1" 1 := by
  obtain ⟨g, hg⟩ : ∃ g, GraphProjection.projectRecord .asciiOnly "" boldState = .ok g := ⟨_, rfl⟩
  obtain ⟨hnodes, hedges, hindexed⟩ := GraphProjection.projectRecord_indexed hg
  have hnode : g.nodes.contains "k1" = true := by
    rw [hnodes]
    decide +kernel
  have hedges : g.edges =
      [⟨"k1", "k2", .contradicts, 2⟩, ⟨"k2", "k1", .contradicts, 2⟩] := by
    rw [hedges]
    decide +kernel
  have hbold : ∀ v e w, g.Touches v e w → e.confidence = 2 := by
    intro v e w htouches
    have hmem : e ∈ g.edges := by
      simp only [Touches, hindexed.adjacency_eq, hindexed.reverseAdjacency_eq, Grouping.getD_lists,
        List.map_id, List.mem_filter] at htouches
      exact htouches.elim (fun h => h.1.1) fun h => h.1.1
    rw [hedges] at hmem
    clear htouches
    revert e
    decide +kernel
  have hbeside : g.Beside "k1" "k2" := by
    refine ⟨⟨"k1", "k2", .contradicts, 2⟩, .inl ⟨?_, rfl⟩⟩
    rw [hindexed.adjacency_eq, Grouping.getD_lists, List.map_id, List.mem_filter, hedges]
    decide
  obtain ⟨d, hd, hdistance⟩ := exists_distance (Walk.refl.tail hbeside)
  refine ⟨g, hg, hnode, fun hexact => ?_⟩
  obtain ⟨r, hr, _, _⟩ := (hexact.distances "k2" d).mpr ⟨by decide, hd, hdistance⟩
  obtain ⟨p, hwalk, _, hweakest⟩ := hexact.confidences r hr
  obtain ⟨_, _, _, hcapped⟩ := (blastRadius_capped hnode 1).confidences r hr
  have hle : r.confidence ≤ 1 := hcapped.2 (.inl rfl)
  obtain ⟨e, he, heq⟩ := hweakest.1
  rw [← heq, hwalk.all hbold e he] at hle
  exact absurd hle (by decide +kernel)

end GraphRecord

end RationaleVault
