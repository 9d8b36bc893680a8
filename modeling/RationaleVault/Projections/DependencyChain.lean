import RationaleVault.Library.Distances
import RationaleVault.Projections.GraphRecord

/-!
# Dependency chains

The walk along the dependencies of a node keeps one set of visited nodes. It reports every node that
it meets a second time as a cycle, and so a dependency that two nodes share.
-/

namespace RationaleVault

open DepthFirst Walks

namespace GraphRecord

variable (g : GraphRecord)

/-- The sources of the edges of one relation that are listed for a node. -/
def dependencies (relationType : RelationType) (v : String) : List String :=
  (((g.reverseAdjacency.get? v).getD []).filter fun e => e.relationType = relationType).map
    GraphEdge.source

theorem dependencies_eq_nil {relationType : RelationType} {v : String}
    (hv : v ∉ g.reverseAdjacency.keys) : g.dependencies relationType v = [] := by
  rw [dependencies, GraphState.getD_eq_nil hv]
  rfl

/-- The loop of `dependency_chain`: the frames hold the neighbors that are left and the depth. -/
def chainLoop (relationType : RelationType) (stack : List (List String × Nat))
    (visited : List String) (chain : List ChainEntry) : Except Exc (List ChainEntry) :=
  match stack with
  | [] => .ok chain
  | ([], _) :: stack => chainLoop relationType stack visited chain
  | (v :: rest, depth) :: stack =>
      if _h : v ∈ visited then .error (.valueError ("Cycle detected at node " ++ v))
      else
        chainLoop relationType
          ((g.dependencies relationType v, depth + 1) :: (rest, depth) :: stack) (v :: visited)
          (chain ++ [⟨v, depth + 1⟩])
  termination_by (unmet g.reverseAdjacency.keys visited, work (stack.map Prod.fst))
  decreasing_by
    · exact Prod.Lex.right _ leave_lt
    · exact enter_lt _h g.dependencies_eq_nil

/-- `dependency_chain(node_id, relation_type)`. -/
def dependencyChain (relationType : RelationType) (nodeId : String) :
    Except Exc (List ChainEntry) :=
  g.chainLoop relationType [(g.dependencies relationType nodeId, 0)] [nodeId] [⟨nodeId, 0⟩]

/-- What a chain is for: it raises on a cycle, and lists the dependencies of a node with the length
of a path to each. -/
structure ChainExact (relationType : RelationType) (v : String) : Prop where
  raises : (∃ e, g.dependencyChain relationType v = .error e) ↔
    ReachesCycle (g.dependencies relationType) v
  nodup : ∀ chain, g.dependencyChain relationType v = .ok chain →
    (chain.map ChainEntry.nodeId).Nodup
  complete : ∀ chain, g.dependencyChain relationType v = .ok chain → ∀ w,
    w ∈ chain.map ChainEntry.nodeId ↔
      Relation.ReflTransGen (DepthFirst.Edge (g.dependencies relationType)) v w
  depth : ∀ chain, g.dependencyChain relationType v = .ok chain → ∀ e ∈ chain,
    Walk (DepthFirst.Edge (g.dependencies relationType)) e.depth v e.nodeId

variable {g} {relationType : RelationType} {path todo visited : List String}
  {F : List (String × List String)}

/-- In a record with its index the dependencies of a node are the sources of its edges. -/
theorem Indexed.mem_dependencies (h : g.Indexed) {v w : String} :
    w ∈ g.dependencies relationType v ↔ ∃ e ∈ g.edges, e.key = (w, v, relationType) := by
  rw [dependencies, h.reverseAdjacency_eq, GraphState.mem_sources_lists]

/-- The record and the graph of its edges have the same chains. -/
theorem Indexed.dependencyChain_eq (h : g.Indexed) {s : GraphState} (hs : s.edges = g.edges)
    (nodeId : String) : g.dependencyChain relationType nodeId =
      s.dependencyChain relationType nodeId := by
  have hindex : s.reverseAdjacency = g.reverseAdjacency := by
    rw [h.reverseAdjacency_eq, GraphState.reverseAdjacency, hs]
  have hdependencies : s.dependencies relationType = g.dependencies relationType := by
    ext1 v
    rw [GraphState.dependencies, hindex]
    rfl
  have hloop : ∀ stack visited chain, g.chainLoop relationType stack visited chain =
      s.chainLoop relationType stack visited chain := by
    intro stack visited chain
    induction stack, visited, chain using chainLoop.induct g relationType with
    | case1 visited chain => rw [chainLoop, GraphState.chainLoop]
    | case2 visited chain depth stack ih => rw [chainLoop, GraphState.chainLoop, ih]
    | case3 visited chain v rest depth stack hvisited =>
        rw [chainLoop, GraphState.chainLoop, dif_pos hvisited, dif_pos hvisited]
    | case4 visited chain v rest depth stack hvisited ih =>
        rw [chainLoop, GraphState.chainLoop, dif_neg hvisited, dif_neg hvisited, ih, hdependencies]
  rw [dependencyChain, GraphState.dependencyChain, hloop, hdependencies]

/-! ## The walk -/

/-- The entry of a node that was entered with its path. -/
def entryOf (e : String × List String) : ChainEntry := ⟨e.1, e.2.length⟩

/-- All nodes that a search looks at. -/
def listings (succ : String → List String) (todo : List String) (F : List (String × List String)) :
    List String := todo ++ (DepthFirst.nodes F).flatMap succ

/-- A walk goes through if it enters all that it looks at, and else looks at a node twice. -/
theorem chainLoop_of_forest (h : Forest (g.dependencies relationType) path todo visited F) :
    ∀ depth stack chain, path.length = depth + 1 →
      (DepthFirst.nodes F).Perm (listings (g.dependencies relationType) todo F) ∧
        g.chainLoop relationType ((todo, depth) :: stack) visited chain =
          g.chainLoop relationType stack (entered F visited) (chain ++ F.map entryOf) ∨
      ¬(visited ++ listings (g.dependencies relationType) todo F).Nodup ∧
        ∃ e, g.chainLoop relationType ((todo, depth) :: stack) visited chain = .error e := by
  induction h with
  | done =>
      intro depth stack chain _
      refine .inl ⟨List.Perm.refl _, ?_⟩
      rw [chainLoop, List.map_nil, List.append_nil]
      rfl
  | @skip path rest visited v F hv _ _ =>
      intro depth stack chain _
      refine .inr ⟨fun hnodup => ?_, _, by rw [chainLoop, dif_pos hv]⟩
      exact (List.nodup_append.mp hnodup).2.2 v hv v (by simp [listings]) rfl
  | @enter path rest visited v below after hv hbelow hafter ihbelow ihafter =>
      intro depth stack chain hdepth
      have hstep : g.chainLoop relationType ((v :: rest, depth) :: stack) visited chain =
          g.chainLoop relationType
            ((g.dependencies relationType v, depth + 1) :: (rest, depth) :: stack) (v :: visited)
            (chain ++ [entryOf (v, path)]) := by
        rw [chainLoop, dif_neg hv, entryOf, hdepth]
      -- what is looked at: the node, what is below it, and the rest
      have hcount : ∀ x, (listings (g.dependencies relationType) (v :: rest)
            ((v, path) :: (below ++ after))).count x =
          (if v == x then 1 else 0) +
            (listings (g.dependencies relationType) (g.dependencies relationType v) below).count x +
            (listings (g.dependencies relationType) rest after).count x := by
        intro x
        simp only [listings, nodes_cons, nodes_append, List.flatMap_cons, List.flatMap_append,
          List.count_append, List.count_cons]
        omega
      rcases ihbelow (depth + 1) ((rest, depth) :: stack) (chain ++ [entryOf (v, path)])
          (by rw [List.length_cons, hdepth]) with ⟨hperm, hloop⟩ | ⟨htwice, e, hloop⟩
      · rcases ihafter depth stack (chain ++ [entryOf (v, path)] ++ below.map entryOf) hdepth with
          ⟨hperm', hloop'⟩ | ⟨htwice, e, hloop'⟩
        · refine .inl ⟨List.perm_iff_count.mpr fun x => ?_, ?_⟩
          · rw [hcount, ← hperm.count_eq, ← hperm'.count_eq, nodes_cons, nodes_append,
              List.count_cons, List.count_append]
            dsimp only
            omega
          · rw [hstep, hloop, hloop']
            simp [entered, entryOf]
        · refine .inr ⟨fun hnodup => htwice ?_, e, by rw [hstep, hloop, hloop']⟩
          rw [List.nodup_iff_count_le_one] at hnodup ⊢
          intro x
          have hle := hnodup x
          rw [List.count_append, hcount, ← hperm.count_eq] at hle
          simp only [entered, List.count_append, List.count_reverse, List.count_cons]
          omega
      · refine .inr ⟨fun hnodup => htwice ?_, e, by rw [hstep, hloop]⟩
        rw [List.nodup_iff_count_le_one] at hnodup ⊢
        intro x
        have hle := hnodup x
        rw [List.count_append, hcount] at hle
        rw [List.count_append, List.count_cons]
        omega

/-- The path of an entered node is a walk from the root. -/
theorem walk_of_mem {succ : String → List String} {root w : String} {p : List String}
    (h : Forest succ [root] (succ root) [root] F) (hmem : (w, p) ∈ F) :
    Walk (DepthFirst.Edge succ) p.length root w := by
  obtain ⟨q, rfl, _⟩ := h.path_eq w p hmem
  have hchain := h.path_isChain (.singleton root) (by simp) w (q ++ [root]) hmem
  rw [List.length_append]
  exact walk_of_isChain w hchain

/-- A search from the successors of a root enters what the root leads to. -/
theorem mem_nodes_iff {succ : String → List String} {root : String}
    (h : Forest succ [root] (succ root) [root] F) (x : String) :
    x ∈ root :: DepthFirst.nodes F ↔ Relation.ReflTransGen (DepthFirst.Edge succ) root x := by
  constructor
  · intro hx
    rcases List.mem_cons.mp hx with rfl | hx
    · exact .refl
    · obtain ⟨⟨_, p⟩, hp, rfl⟩ := List.mem_map.mp hx
      exact (walk_of_mem h hp).reach
  · intro hpath
    induction hpath with
    | refl => exact List.mem_cons_self
    | @tail x y _ hedge ih =>
        have hmem : y ∈ [root] ∨ y ∈ DepthFirst.nodes F := by
          rcases List.mem_cons.mp ih with rfl | hx
          · exact h.todo_entered y hedge
          · exact h.succ_entered x hx y hedge
        rcases hmem with hroot | hnode
        · exact List.mem_cons.mpr (.inl (List.mem_singleton.mp hroot))
        · exact List.mem_cons_of_mem _ hnode

/-- The walk from a node returns exactly if the node leads to no cycle and to no shared
dependency. -/
theorem dependencyChain_cases (g : GraphRecord) (relationType : RelationType) (v : String) :
    (∃ F, Forest (g.dependencies relationType) [v] (g.dependencies relationType v) [v] F ∧
        g.dependencyChain relationType v = .ok (⟨v, 0⟩ :: F.map entryOf) ∧
        ¬ReachesCycle (g.dependencies relationType) v ∧
        ¬Shares (g.dependencies relationType) v) ∨
      (∃ e, g.dependencyChain relationType v = .error e) ∧
        (ReachesCycle (g.dependencies relationType) v ∨
          Shares (g.dependencies relationType) v) := by
  have hleaf : ∀ x, x ∉ g.reverseAdjacency.keys → g.dependencies relationType x = [] :=
    fun x hx => g.dependencies_eq_nil hx
  obtain ⟨F, hF⟩ := exists_forest hleaf [v] (g.dependencies relationType v) [v]
  have hnodup : (v :: DepthFirst.nodes F).Nodup :=
    List.nodup_cons.mpr ⟨fun hmem => hF.fresh v hmem List.mem_cons_self, hF.nodup⟩
  have hlisted := nodup_listed_iff hnodup (mem_nodes_iff hF)
  rcases chainLoop_of_forest hF 0 [] [⟨v, 0⟩] rfl with ⟨hperm, hloop⟩ | ⟨htwice, e, hloop⟩
  · have honce := hlisted.mp ((hperm.cons v).nodup_iff.mp hnodup)
    refine .inl ⟨F, hF, ?_, honce.1, honce.2⟩
    rw [dependencyChain, hloop, chainLoop]
    rfl
  · refine .inr ⟨⟨e, hloop⟩, ?_⟩
    by_contra hnone
    rw [not_or] at hnone
    exact htwice (hlisted.mpr hnone)

/-- A chain is what it is for exactly if the node leads to a cycle or no dependency behind it is
listed twice. -/
theorem dependencyChain_exact_iff (g : GraphRecord) (relationType : RelationType) (v : String) :
    g.ChainExact relationType v ↔ ReachesCycle (g.dependencies relationType) v ∨
      ¬Shares (g.dependencies relationType) v := by
  rcases g.dependencyChain_cases relationType v with
    ⟨F, hF, hrun, hacyclic, hshares⟩ | ⟨⟨e, hrun⟩, hreached⟩
  · refine iff_of_true ?_ (.inr hshares)
    have hids : (⟨v, 0⟩ :: F.map entryOf : List ChainEntry).map ChainEntry.nodeId =
        v :: DepthFirst.nodes F := by
      simp [DepthFirst.nodes, entryOf, Function.comp_def]
    constructor
    · refine iff_of_false ?_ hacyclic
      rintro ⟨e, herror⟩
      rw [hrun] at herror
      cases herror
    · intro chain hchain
      obtain rfl := Except.ok.inj (hrun.symm.trans hchain)
      rw [hids]
      exact List.nodup_cons.mpr ⟨fun hmem => hF.fresh v hmem List.mem_cons_self, hF.nodup⟩
    · intro chain hchain w
      obtain rfl := Except.ok.inj (hrun.symm.trans hchain)
      rw [hids, mem_nodes_iff hF]
    · intro chain hchain e he
      obtain rfl := Except.ok.inj (hrun.symm.trans hchain)
      rcases List.mem_cons.mp he with rfl | he
      · exact .refl
      · obtain ⟨⟨w, p⟩, hp, rfl⟩ := List.mem_map.mp he
        exact walk_of_mem hF hp
  · constructor
    · exact fun hexact => .inl (hexact.raises.mp ⟨e, hrun⟩)
    · intro hcondition
      have hcycle : ReachesCycle (g.dependencies relationType) v :=
        hcondition.elim id fun hshares => hreached.resolve_right hshares
      have hnone : ∀ chain, g.dependencyChain relationType v ≠ .ok chain := by
        intro chain hchain
        rw [hrun] at hchain
        cases hchain
      exact ⟨iff_of_true ⟨e, hrun⟩ hcycle, fun chain h => absurd h (hnone chain),
        fun chain h => absurd h (hnone chain), fun chain h => absurd h (hnone chain)⟩

/-- A lesson drawn from two others, which are drawn from one. -/
def diamondState : CompiledKnowledge where
  projectId := "p1"
  activeKnowledge :=
    [ReasoningEngine.rule "k1" "Storage" "use sqlite" "m1",
      ReasoningEngine.rule "k2" "Tests" "run" "m2",
      ReasoningEngine.rule "k3" "Style" "format" "m3",
      ReasoningEngine.rule "k4" "Review" "ask" "m4"]
  derivationChains := .ofList [("k4", ["k2", "k3"]), ("k2", ["k1"]), ("k3", ["k1"])]

/-- The walk meets the shared lesson a second time and raises, without any cycle. -/
theorem dependencyChain_diamond :
    ∃ g, GraphProjection.projectRecord .asciiOnly "" diamondState = .ok g ∧
      g.dependencyChain .derivedFrom "k4" = .error (.valueError "Cycle detected at node k1") ∧
      Dag.Acyclic (DepthFirst.Edge (g.dependencies .derivedFrom)) ∧
      ¬g.ChainExact .derivedFrom "k4" := by
  obtain ⟨g, hg⟩ : ∃ g, GraphProjection.projectRecord .asciiOnly "" diamondState = .ok g :=
    ⟨_, rfl⟩
  obtain ⟨_, hedges, hindexed⟩ := GraphProjection.projectRecord_indexed hg
  have hedges : g.edges = [⟨"k2", "k4", .derivedFrom, 9 / 10⟩, ⟨"k3", "k4", .derivedFrom, 9 / 10⟩,
      ⟨"k1", "k2", .derivedFrom, 9 / 10⟩, ⟨"k1", "k3", .derivedFrom, 9 / 10⟩] := by
    rw [hedges]
    decide +kernel
  have hacyclic : Dag.Acyclic (DepthFirst.Edge (g.dependencies .derivedFrom)) := by
    apply Dag.acyclic_of_rank fun x => if x = "k4" then 0 else if x = "k1" then 2 else 1
    intro x y hedge
    obtain ⟨e, he, hkey⟩ := hindexed.mem_dependencies.mp hedge
    simp only [GraphEdge.key, Prod.mk.injEq] at hkey
    obtain ⟨rfl, rfl, _⟩ := hkey
    rw [hedges] at he
    clear hedge
    revert e
    decide
  have hdependencies : g.dependencies .derivedFrom "k4" = ["k2", "k3"] ∧
      g.dependencies .derivedFrom "k3" = ["k1"] ∧ g.dependencies .derivedFrom "k2" = ["k1"] ∧
      g.dependencies .derivedFrom "k1" = [] := by
    simp only [dependencies, hindexed.reverseAdjacency_eq, hedges]
    decide +kernel
  obtain ⟨h4, h3, h2, h1⟩ := hdependencies
  have hrun : g.dependencyChain .derivedFrom "k4" =
      .error (.valueError "Cycle detected at node k1") := by
    rw [dependencyChain, h4, chainLoop, dif_neg (by decide), h2, chainLoop, dif_neg (by decide),
      h1, chainLoop, chainLoop, chainLoop, dif_neg (by decide), h3, chainLoop,
      dif_pos (by decide)]
    rfl
  refine ⟨g, hg, hrun, hacyclic, fun hexact => ?_⟩
  obtain ⟨c, _, hcycle⟩ := hexact.raises.mp ⟨_, hrun⟩
  exact hacyclic c hcycle

end GraphRecord

end RationaleVault
