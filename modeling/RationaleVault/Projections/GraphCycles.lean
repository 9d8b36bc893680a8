import RationaleVault.Library.CycleSearch
import RationaleVault.Projections.GraphRecord

/-!
# Cycles and orders of the graph

The loop that looks for cycles is a depth-first search that records every edge back to its path.
Sorting uses it on the nodes that Kahn's algorithm leaves over, and finds a cycle there whenever
there is one. On its own it lists all simple cycles of a graph whose strong components unfold from
the node at which the search enters them.
-/

namespace RationaleVault

open DepthFirst

namespace GraphState

/-! ## The loop -/

/-- The listed targets of a node. -/
def listed (adj : OrdDict String (List String)) (v : String) : List String := (adj.get? v).getD []

variable {adj : OrdDict String (List String)} {path todo visited : List String}
  {F : List (String × List String)}

/-- The loop over the frame of a node closes a cycle for every edge back to the path, from the node
and from the nodes entered below it. -/
theorem cycleLoop_of_forest (h : Forest (listed adj) path todo visited F) :
    ∀ (curr : String) (stack : List (String × List String)) (cycles : List (List String)),
      path = curr :: stack.map Prod.fst → (∀ x ∈ path, x ∈ visited) →
      ∃ found, found.Perm (closings (curr, stack.map Prod.fst) todo ++ backCycles (listed adj) F) ∧
        cycleLoop adj ((curr, todo) :: stack) visited cycles =
          cycleLoop adj stack (entered F visited) (cycles ++ found) := by
  induction h with
  | done =>
      intro curr stack cycles _ _
      refine ⟨[], List.Perm.refl _, ?_⟩
      rw [cycleLoop, List.append_nil]
      rfl
  | @skip path rest visited v F hv _ ih =>
      intro curr stack cycles hpath hsub
      have hclosings : ∀ hmem : v ∈ curr :: stack.map Prod.fst,
          closings (curr, stack.map Prod.fst) (v :: rest) =
            closing (curr, stack.map Prod.fst) v ::
              closings (curr, stack.map Prod.fst) rest := by
        intro hmem
        rw [closings, List.filter_cons_of_pos (by simpa using hmem)]
        rfl
      by_cases hmem : v ∈ curr :: stack.map Prod.fst
      · obtain ⟨found, hfound, hloop⟩ :=
          ih curr stack (cycles ++ [closing (curr, stack.map Prod.fst) v]) hpath hsub
        refine ⟨closing (curr, stack.map Prod.fst) v :: found, ?_, ?_⟩
        · rw [hclosings hmem]
          exact hfound.cons _
        · rw [cycleLoop, if_pos (List.mem_reverse.mpr hmem)]
          exact hloop.trans (by simp)
      · obtain ⟨found, hfound, hloop⟩ := ih curr stack cycles hpath hsub
        refine ⟨found, ?_, ?_⟩
        · rwa [closings, List.filter_cons_of_neg (by simpa using hmem)]
        · rw [cycleLoop, if_neg (fun hrev => hmem (List.mem_reverse.mp hrev)), dif_pos hv]
          exact hloop
  | @enter path rest visited v below after hv _ _ ihbelow ihafter =>
      intro curr stack cycles hpath hsub
      have hmem : v ∉ curr :: stack.map Prod.fst := fun hmem => hv (hsub v (hpath ▸ hmem))
      obtain ⟨found₁, hfound₁, hloop₁⟩ :=
        ihbelow v ((curr, rest) :: stack) cycles (by rw [hpath]; rfl) (by
          intro x hx
          rcases List.mem_cons.mp hx with rfl | hx
          · exact List.mem_cons_self
          · exact List.mem_cons_of_mem _ (hsub x hx))
      obtain ⟨found₂, hfound₂, hloop₂⟩ :=
        ihafter curr stack (cycles ++ found₁) hpath fun x hx =>
          mem_entered.mpr (.inr (List.mem_cons_of_mem _ (hsub x hx)))
      refine ⟨found₁ ++ found₂, ?_, ?_⟩
      · rw [closings, List.filter_cons_of_neg (by simpa using hmem)]
        have hcycles : backCycles (listed adj) ((v, path) :: (below ++ after)) =
            (closings (v, curr :: stack.map Prod.fst) (listed adj v) ++
              backCycles (listed adj) below) ++ backCycles (listed adj) after := by
          simp [backCycles, hpath]
        rw [hcycles]
        calc (found₁ ++ found₂).Perm
              ((closings (v, curr :: stack.map Prod.fst) (listed adj v) ++
                  backCycles (listed adj) below) ++
                (closings (curr, stack.map Prod.fst) rest ++ backCycles (listed adj) after)) :=
            hfound₁.append hfound₂
          _ |>.Perm (closings (curr, stack.map Prod.fst) rest ++
              ((closings (v, curr :: stack.map Prod.fst) (listed adj v) ++
                backCycles (listed adj) below) ++ backCycles (listed adj) after)) := by
            rw [← List.append_assoc, ← List.append_assoc]
            exact (List.perm_append_comm).append_right _
      · rw [cycleLoop, if_neg (fun hrev => hmem (List.mem_reverse.mp hrev)), dif_neg hv]
        refine hloop₁.trans (hloop₂.trans ?_)
        simp [entered]

/-- The loops from several start nodes close the cycles of one search. -/
theorem foldl_dfsCycles (h : Forest (listed adj) path todo visited F) (hpath : path = [])
    (cycles : List (List String)) :
    ∃ found, found.Perm (backCycles (listed adj) F) ∧
      todo.foldl (dfsCycles adj) (visited, cycles) = (entered F visited, cycles ++ found) := by
  induction h generalizing cycles with
  | done => exact ⟨[], List.Perm.refl _, by simp [entered]⟩
  | skip hv _ ih =>
      obtain ⟨found, hfound, hloop⟩ := ih hpath cycles
      refine ⟨found, hfound, ?_⟩
      rw [List.foldl_cons, dfsCycles, if_pos hv]
      exact hloop
  | @enter path rest visited v below after hv hbelow _ _ ihafter =>
      subst hpath
      obtain ⟨found₁, hfound₁, hloop₁⟩ :=
        cycleLoop_of_forest hbelow v [] cycles rfl (by simp)
      obtain ⟨found₂, hfound₂, hloop₂⟩ := ihafter rfl (cycles ++ found₁)
      refine ⟨found₁ ++ found₂, ?_, ?_⟩
      · have hcycles : backCycles (listed adj) ((v, []) :: (below ++ after)) =
            (closings (v, []) (listed adj v) ++ backCycles (listed adj) below) ++
              backCycles (listed adj) after := by
          simp [backCycles]
        rw [hcycles]
        exact hfound₁.append hfound₂
      · have hstep : dfsCycles adj (visited, cycles) v =
            (entered below (v :: visited), cycles ++ found₁) := by
          rw [dfsCycles, if_neg hv]
          refine Eq.trans hloop₁ ?_
          rw [cycleLoop]
        rw [List.foldl_cons, hstep, hloop₂]
        simp [entered]

/-- The search from all nodes with listed targets. -/
theorem exists_search (adj : OrdDict String (List String)) :
    ∃ F, Forest (listed adj) [] adj.keys [] F ∧
      (adj.keys.foldl (dfsCycles adj) ([], [])).2.Perm (backCycles (listed adj) F) ∧
      ∀ v, listed adj v ≠ [] → v ∈ DepthFirst.nodes F := by
  have hkeys : ∀ v, v ∉ adj.keys → listed adj v = [] := fun v hv => getD_eq_nil hv
  obtain ⟨F, hF⟩ := exists_forest hkeys [] adj.keys []
  obtain ⟨found, hfound, hloop⟩ := foldl_dfsCycles hF rfl []
  refine ⟨F, hF, ?_, fun v hv => ?_⟩
  · rw [hloop, List.nil_append]
    exact hfound
  · have hmem : v ∈ adj.keys := by
      by_contra hnot
      exact hv (hkeys v hnot)
    exact (hF.todo_entered v hmem).resolve_left List.not_mem_nil

theorem mem_listed {edges : List GraphEdge} {v w : String} :
    w ∈ listed (Grouping.lists GraphEdge.source GraphEdge.target edges) v ↔
      ∃ e ∈ edges, e.source = v ∧ e.target = w := by
  rw [listed, Grouping.getD_lists]
  simp only [List.mem_map, List.mem_filter, DictKey.norm_string, decide_eq_true_eq]
  constructor
  · rintro ⟨e, ⟨he, hsource⟩, htarget⟩
    exact ⟨e, he, hsource, htarget⟩
  · rintro ⟨e, he, hsource, htarget⟩
    exact ⟨e, ⟨he, hsource⟩, htarget⟩

/-! ## Sorting -/

variable {g : GraphState} {relationType : RelationType}

/-- What sorting a relation returns. -/
structure SortExact (g : GraphState) (relationType : RelationType) (order : List String)
    (cycles : List (List String)) : Prop where
  acyclic : cycles = [] ↔ Dag.Acyclic (g.Edge relationType)
  complete : cycles = [] ↔ order.Perm g.nodes.keys
  nodup : order.Nodup
  sorted : ∀ v ∈ order, ∀ w ∈ order, g.Edge relationType v w → [v, w].Sublist order
  missing : ∀ v ∈ g.nodes.keys, v ∉ order → ∃ c, Relation.TransGen (g.Edge relationType) c c ∧
    Relation.ReflTransGen (g.Edge relationType) c v
  closed : ∀ l ∈ cycles, ∃ c, SimpleCycle (g.targets relationType) c ∧ l = close c

/-- Among some nodes the edges of the relation between them are searched. -/
theorem exists_subsetSearch (g : GraphState) (nodeIds : List String)
    (relationType : RelationType) :
    ∃ succ roots F, Forest succ [] roots [] F ∧
      (g.findCyclesInSubset nodeIds relationType).Perm (backCycles succ F) ∧
      (∀ v w, w ∈ succ v ↔ g.Edge relationType v w ∧ v ∈ nodeIds ∧ w ∈ nodeIds) ∧
      ∀ v, succ v ≠ [] → v ∈ DepthFirst.nodes F := by
  obtain ⟨F, hF, hperm, hall⟩ := exists_search (Grouping.lists GraphEdge.source GraphEdge.target
    (g.edges.filter fun e => e.relationType = relationType ∧ e.source ∈ nodeIds ∧
      e.target ∈ nodeIds))
  refine ⟨_, _, F, hF, hperm, fun v w => ?_, hall⟩
  simp only [mem_listed, Edge, List.mem_filter, decide_eq_true_eq, GraphEdge.key, Prod.mk.injEq]
  constructor
  · rintro ⟨e, ⟨he, htype, hv, hw⟩, rfl, rfl⟩
    exact ⟨⟨e, he, rfl, rfl, htype⟩, hv, hw⟩
  · rintro ⟨⟨e, he, rfl, rfl, htype⟩, hv, hw⟩
    exact ⟨e, ⟨he, htype, hv, hw⟩, rfl, rfl⟩

/-- Cycles among some nodes are cycles of the relation. -/
theorem findCyclesInSubset_closed {nodeIds : List String} {l : List String}
    (hl : l ∈ g.findCyclesInSubset nodeIds relationType) :
    ∃ c, SimpleCycle (g.targets relationType) c ∧ l = close c := by
  obtain ⟨succ, roots, F, hF, hperm, hsucc, _⟩ := exists_subsetSearch g nodeIds relationType
  obtain ⟨c, hc, rfl⟩ := backCycles_sound hF l (hperm.mem_iff.mp hl)
  exact ⟨c, hc.mono fun v w hw => mem_targets.mpr ((hsucc v w).mp hw).1, rfl⟩

/-- The search among some nodes finds a cycle if there is one among them. -/
theorem findCyclesInSubset_ne_nil {nodeIds : List String} {v : String}
    (hcycle : Relation.TransGen (fun v w => g.Edge relationType v w ∧ v ∈ nodeIds ∧ w ∈ nodeIds)
      v v) : g.findCyclesInSubset nodeIds relationType ≠ [] := by
  obtain ⟨succ, roots, F, hF, hperm, hsucc, hall⟩ := exists_subsetSearch g nodeIds relationType
  have hsearched : Relation.TransGen (DepthFirst.Edge succ) v v :=
    Relation.TransGen.mono (fun x y hxy => (hsucc x y).mpr hxy) v v hcycle
  obtain ⟨w, hedge, _⟩ := Relation.TransGen.head'_iff.mp hsearched
  have hnonempty := backCycles_ne_nil hF (hall v (List.ne_nil_of_mem hedge)) hsearched
  intro hnil
  rw [hnil] at hperm
  exact hnonempty (List.nil_perm.mp hperm)

theorem nodup_keys (g : GraphState) : g.nodes.keys.Nodup := by
  simpa [OrdDict.normKeys, OrdDict.keys] using g.nodes.normKeys_nodup

theorem edge_eq : Kahn.Edge (g.targets relationType) g.nodes.keys = g.Edge relationType := by
  ext v w
  exact edge_targets

/-- Without a cycle the order is complete, and with one a cycle is returned. -/
theorem topologicalSort_exact (g : GraphState) (relationType : RelationType) :
    SortExact g relationType (g.topologicalSort relationType).1
      (g.topologicalSort relationType).2 := by
  have hadj : ∀ v, ∀ w ∈ g.targets relationType v, w ∈ g.nodes.keys := by
    intro v w hw
    exact (mem_targets.mp hw).mem_nodes.2
  have hsorted : Kahn.Sorted (g.targets relationType) g.nodes.keys
      (g.topologicalSort relationType).1 := Kahn.sorted_fifoOrder g.nodup_keys hadj
  have hacyclic : (g.topologicalSort relationType).2 = [] ↔ Dag.Acyclic (g.Edge relationType) := by
    refine ⟨fun hnil v hcycle => ?_, topologicalSort_cycles⟩
    have hout : ∀ x, Relation.TransGen (g.Edge relationType) x x →
        x ∈ g.nodes.keys.filter fun x => x ∉ (g.topologicalSort relationType).1 := by
      intro x hx
      obtain ⟨y, hedge, _⟩ := Relation.TransGen.head'_iff.mp hx
      rw [List.mem_filter, decide_eq_true_eq]
      exact ⟨hedge.mem_nodes.1, hsorted.notMem_of_cycle (edge_eq ▸ hx)⟩
    have hfound : g.findCyclesInSubset (g.nodes.keys.filter fun x =>
        x ∉ (g.topologicalSort relationType).1) relationType ≠ [] := by
      apply findCyclesInSubset_ne_nil
      refine Relation.TransGen.mono (fun x y hxy => ?_) v v (Dag.cycle_within hcycle)
      exact ⟨hxy.1, hout x hxy.2.1, hout y hxy.2.2⟩
    have hremaining := List.ne_nil_of_mem (hout v hcycle)
    exact hfound ((if_neg hremaining).symm.trans hnil)
  have hcomplete : Dag.Acyclic (g.Edge relationType) ↔
      (g.topologicalSort relationType).1.Perm g.nodes.keys := by
    rw [← edge_eq, ← hsorted.complete_iff hadj]
    constructor
    · intro hall
      apply (List.perm_ext_iff_of_nodup hsorted.nodup g.nodup_keys).mpr
      exact fun v => ⟨hsorted.subset v, hall v⟩
    · exact fun hperm v hv => hperm.mem_iff.mpr hv
  refine ⟨hacyclic, hacyclic.trans hcomplete, hsorted.nodup, fun v _ w hw hedge => ?_,
    fun v hv hout => ?_, fun l hl => ?_⟩
  · obtain ⟨before, after, horder⟩ := List.append_of_mem hw
    have hbefore : v ∈ before := by
      apply hsorted.finished.succ_before horder
      exact Kahn.mem_predecessors.mpr (edge_targets.mpr hedge)
    have hpair : ([v] ++ [w]).Sublist (before ++ w :: after) :=
      (List.singleton_sublist.mpr hbefore).append (List.singleton_sublist.mpr List.mem_cons_self)
    rwa [horder]
  · rw [← edge_eq]
    exact hsorted.exists_cycle hv hout
  · rw [topologicalSort] at hl
    dsimp only at hl
    split_ifs at hl with hremaining
    · cases hl
    · exact findCyclesInSubset_closed hl

end GraphState

/-! ## All cycles -/

namespace GraphRecord

variable (g : GraphRecord)

/-- `edges_to_check`: an empty text filters nothing. -/
def edgesToCheck (relationType : Option String) : List GraphEdge :=
  match relationType with
  | none => g.edges
  | some text =>
      if text = "" then g.edges else g.edges.filter fun e => e.relationType.value = text

/-- `detect_cycles(relation_type)`: the cycles, and the record with its cache. -/
def detectCycles (relationType : Option String) : List (List String) × GraphRecord :=
  match relationType, g.cycles with
  | none, some cycles => (cycles, g)
  | _, _ =>
      let adj :=
        Grouping.lists GraphEdge.source GraphEdge.target (g.edgesToCheck relationType)
      let cycles := (adj.keys.foldl (GraphState.dfsCycles adj) ([], [])).2
      (cycles, if relationType = none then { g with cycles := some cycles } else g)

/-- The record after some calls. -/
def afterCalls (calls : List (Option String)) : GraphRecord :=
  calls.foldl (fun g relationType => (g.detectCycles relationType).2) g

/-- The targets of a node along the considered edges. -/
def successors (relationType : Option String) (v : String) : List String :=
  ((g.edgesToCheck relationType).filter fun e => e.source = v).map GraphEdge.target

/-- The nodes with considered edges in the order in which the edges list them. -/
def roots (relationType : Option String) : List String :=
  (Grouping.lists GraphEdge.source GraphEdge.target (g.edgesToCheck relationType)).keys

/-- What the loop finds. -/
def searched (relationType : Option String) : List (List String) :=
  let adj := Grouping.lists GraphEdge.source GraphEdge.target (g.edgesToCheck relationType)
  (adj.keys.foldl (GraphState.dfsCycles adj) ([], [])).2

/-- The cache is empty or holds what the loop finds. -/
def Cached : Prop := ∀ cycles, g.cycles = some cycles → cycles = g.searched none

variable {g}

theorem listed_eq (relationType : Option String) :
    GraphState.listed
        (Grouping.lists GraphEdge.source GraphEdge.target (g.edgesToCheck relationType)) =
      g.successors relationType := by
  ext1 v
  rw [GraphState.listed, Grouping.getD_lists]
  rfl

theorem detectCycles_none (h : g.cycles = none) (relationType : Option String) :
    g.detectCycles relationType = (g.searched relationType,
      if relationType = none then { g with cycles := some (g.searched relationType) } else g) := by
  cases relationType with
  | none =>
      simp only [detectCycles, h]
      rfl
  | some text => rfl

/-- A call returns what the loop finds, and it changes nothing but the cache. -/
theorem Cached.detectCycles (h : g.Cached) (relationType : Option String) :
    (g.detectCycles relationType).1 = g.searched relationType ∧
      (g.detectCycles relationType).2.edges = g.edges ∧ (g.detectCycles relationType).2.Cached := by
  cases hcache : g.cycles with
  | none =>
      rw [detectCycles_none hcache]
      split_ifs with htype
      · subst htype
        exact ⟨rfl, rfl, fun cycles hcycles => (Option.some.inj hcycles).symm⟩
      · exact ⟨rfl, rfl, h⟩
  | some cycles =>
      cases relationType with
      | none =>
          simp only [GraphRecord.detectCycles, hcache]
          exact ⟨h cycles hcache, trivial, h⟩
      | some text => exact ⟨rfl, rfl, h⟩

theorem Cached.afterCalls (calls : List (Option String)) (h : g.Cached) :
    (g.afterCalls calls).edges = g.edges ∧ (g.afterCalls calls).Cached := by
  induction calls generalizing g with
  | nil => exact ⟨rfl, h⟩
  | cons relationType rest ih =>
      obtain ⟨_, hedges, hcached⟩ := h.detectCycles relationType
      obtain ⟨hrest, hcached'⟩ := ih hcached
      exact ⟨hrest.trans hedges, hcached'⟩

theorem searched_congr {g' : GraphRecord} (h : g'.edges = g.edges) (relationType : Option String) :
    g'.searched relationType = g.searched relationType := by
  have hchecked : g'.edgesToCheck relationType = g.edgesToCheck relationType := by
    cases relationType with
    | none => exact h
    | some text =>
        rw [edgesToCheck, edgesToCheck, h]
  rw [searched, searched, hchecked]

/-- A projected graph has no cache. -/
theorem cycles_projectRecord {digits : DigitTable} {now : String} {state : CompiledKnowledge}
    (h : GraphProjection.projectRecord digits now state = .ok g) : g.cycles = none := by
  obtain ⟨_, _, hg⟩ := Except.bind_eq_ok_iff.mp h
  obtain rfl := Except.pure_eq_ok_iff.mp hg
  rfl

/-- After any calls on a new graph, all simple cycles are returned exactly if every strong component
unfolds from the node at which the search enters it. -/
theorem detectCycles_listsCycles_iff (g : GraphRecord) (hnew : g.cycles = none)
    (calls : List (Option String)) (relationType : Option String) :
    ListsCycles (g.successors relationType)
        ((g.afterCalls calls).detectCycles relationType).1 ↔
      Unfolding (g.successors relationType) (g.roots relationType) := by
  have hcached : g.Cached := fun cycles hcycles => by
    rw [hnew] at hcycles
    cases hcycles
  obtain ⟨hedges, hafter⟩ := hcached.afterCalls calls
  obtain ⟨F, hF, hperm, hall⟩ := GraphState.exists_search
    (Grouping.lists GraphEdge.source GraphEdge.target (g.edgesToCheck relationType))
  rw [listed_eq] at hF hperm hall
  rw [(hafter.detectCycles relationType).1, searched_congr hedges relationType]
  calc ListsCycles (g.successors relationType) (g.searched relationType)
      ↔ ListsCycles (g.successors relationType) (backCycles (g.successors relationType) F) :=
        ⟨fun h => h.perm hperm, fun h => h.perm hperm.symm⟩
    _ ↔ Unfolding (g.successors relationType) (g.roots relationType) :=
        listsCycles_iff_unfolding hF hall

/-- Three objects that support each other in a circle, the first one the third as well. -/
def chordState : CompiledKnowledge where
  projectId := "p1"
  activeKnowledge :=
    [ReasoningEngine.rule "k1" "Storage" "use sqlite" "m1",
      ReasoningEngine.rule "k2" "Tests" "run" "m2",
      ReasoningEngine.rule "k3" "Style" "format" "m3"]
  supportGraph := .ofList [("k1", ["k2", "k3"]), ("k2", ["k3"]), ("k3", ["k1"])]

theorem detectCycles_listsCycles_iff_chord :
    ∃ g, GraphProjection.projectRecord .asciiOnly "" chordState = .ok g ∧
      (ListsCycles (g.successors none)
          ((g.afterCalls [some "SUPPORTS", none]).detectCycles none).1 ↔
        Unfolding (g.successors none) (g.roots none)) := by
  obtain ⟨g, hg⟩ : ∃ g, GraphProjection.projectRecord .asciiOnly "" chordState = .ok g := ⟨_, rfl⟩
  exact ⟨g, hg, detectCycles_listsCycles_iff g (cycles_projectRecord hg) _ none⟩

/-- The search goes along the circle and does not take the chord. -/
theorem forest_chord {succ : String → List String} (h1 : succ "k1" = ["k2", "k3"])
    (h2 : succ "k2" = ["k3"]) (h3 : succ "k3" = ["k1"]) :
    Forest succ [] ["k1", "k2", "k3"] [] [("k1", []), ("k2", ["k1"]), ("k3", ["k2", "k1"])] := by
  have hbelow : Forest succ ["k3", "k2", "k1"] (succ "k3") ["k3", "k2", "k1"] [] := by
    rw [h3]
    exact .skip (by decide) .done
  have hthird : Forest succ ["k2", "k1"] (succ "k2") ["k2", "k1"] [("k3", ["k2", "k1"])] := by
    rw [h2]
    exact .enter (by decide) hbelow .done
  have hsecond : Forest succ ["k1"] (succ "k1") ["k1"] [("k2", ["k1"]), ("k3", ["k2", "k1"])] := by
    rw [h1]
    exact .enter (by decide) hthird (.skip (by decide) .done)
  exact .enter (by decide) hsecond (.skip (by decide) (.skip (by decide) .done))

/-- The chord closes a second circle, which is not returned. -/
theorem detectCycles_misses : ∃ g, GraphProjection.projectRecord .asciiOnly "" chordState = .ok g ∧
    ¬ListsCycles (g.successors none) (g.detectCycles none).1 := by
  obtain ⟨g, hg⟩ : ∃ g, GraphProjection.projectRecord .asciiOnly "" chordState = .ok g := ⟨_, rfl⟩
  refine ⟨g, hg, fun hall => ?_⟩
  have hedges : g.edges = [⟨"k1", "k2", .supports, 4 / 5⟩, ⟨"k1", "k3", .supports, 4 / 5⟩,
      ⟨"k2", "k3", .supports, 4 / 5⟩, ⟨"k3", "k1", .supports, 4 / 5⟩] := by
    rw [(GraphProjection.projectRecord_indexed hg).2.1]
    decide +kernel
  have hsucc : g.successors none "k1" = ["k2", "k3"] ∧ g.successors none "k2" = ["k3"] ∧
      g.successors none "k3" = ["k1"] := by
    simp only [successors, edgesToCheck, hedges]
    decide
  obtain ⟨h1, h2, h3⟩ := hsucc
  obtain ⟨F, hF, hperm, _⟩ := GraphState.exists_search
    (Grouping.lists GraphEdge.source GraphEdge.target (g.edgesToCheck none))
  rw [listed_eq] at hF hperm
  have hroots : (Grouping.lists GraphEdge.source GraphEdge.target (g.edgesToCheck none)).keys =
      ["k1", "k2", "k3"] := by
    simp only [edgesToCheck, hedges]
    decide +kernel
  rw [hroots] at hF
  obtain rfl := hF.unique (forest_chord h1 h2 h3)
  rw [detectCycles_none (cycles_projectRecord hg)] at hall
  have hcycle : SimpleCycle (g.successors none) ["k1", "k3"] := by
    refine ⟨by decide, by decide, ?_⟩
    simp [close, DepthFirst.Edge, h1, h3]
  have hone := (hall.perm hperm).once _ hcycle
  have hzero : (backCycles (g.successors none)
      [("k1", []), ("k2", ["k1"]), ("k3", ["k2", "k1"])]).countP
        (fun l => l.dropLast.IsRotated ["k1", "k3"]) = 0 := by
    simp only [backCycles, List.flatMap_cons, List.flatMap_nil, h1, h2, h3]
    decide
  omega

end GraphRecord

end RationaleVault
