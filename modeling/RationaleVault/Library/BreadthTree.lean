import RationaleVault.Library.Distances
import RationaleVault.Library.Forest

/-!
# Breadth-first search with predecessors

A search that stores from which node every other one was entered, and that may stop
at a node. The predecessors lead back from every node that was entered along a
shortest path.
-/

universe u

namespace BreadthTree

open Distances Walks

variable {κ : Type u} [DecidableEq κ]

/-- What a search has stored. -/
structure State (κ : Type u) where
  queue : List κ
  visited : List κ
  parent : κ → Option κ

/-- Enter a node behind another one unless it was visited. -/
def enter (v : κ) (s : State κ) (w : κ) : State κ :=
  if w ∈ s.visited then s
  else ⟨s.queue ++ [w], w :: s.visited, Function.update s.parent w (some v)⟩

/-- What is entered into the queue is visited. -/
theorem enter_measure (v : κ) {nodes l : List κ} (hl : ∀ w ∈ l, w ∈ nodes) (s : State κ) :
    DepthFirst.unmet nodes (l.foldl (enter v) s).visited + (l.foldl (enter v) s).queue.length ≤
      DepthFirst.unmet nodes s.visited + s.queue.length := by
  induction l generalizing s with
  | nil => exact le_rfl
  | cons w l ih =>
      rw [List.foldl_cons]
      refine (ih (fun x hx => hl x (List.mem_cons_of_mem _ hx)) _).trans ?_
      rw [enter]
      split_ifs with hvisited
      · exact le_rfl
      · have hlt := DepthFirst.unmet_cons_lt (hl w List.mem_cons_self) hvisited
        rw [List.length_append, List.length_singleton]
        dsimp only
        omega

/-- A node is taken from the queue and its successors are entered. -/
def visit (succ : κ → List κ) (v : κ) (rest visited : List κ) (parent : κ → Option κ) : State κ :=
  (succ v).foldl (enter v) ⟨rest, visited, parent⟩

/-- The loop over the queue. It ends early when a node to stop at comes first. -/
def loop (succ : κ → List κ) (nodes : List κ) (hsucc : ∀ v, ∀ w ∈ succ v, w ∈ nodes)
    (stop : κ → Bool) (queue visited : List κ) (parent : κ → Option κ) : State κ :=
  match queue with
  | [] => ⟨[], visited, parent⟩
  | v :: rest =>
      if stop v then ⟨v :: rest, visited, parent⟩
      else
        loop succ nodes hsucc stop (visit succ v rest visited parent).queue
          (visit succ v rest visited parent).visited (visit succ v rest visited parent).parent
  termination_by DepthFirst.unmet nodes visited + queue.length
  decreasing_by
    exact Nat.lt_succ_of_le (enter_measure v (hsucc v) ⟨rest, visited, parent⟩)

/-- The search from a node. -/
def search (succ : κ → List κ) (nodes : List κ) (hsucc : ∀ v, ∀ w ∈ succ v, w ∈ nodes)
    (stop : κ → Bool) (root : κ) : State κ :=
  loop succ nodes hsucc stop [root] [root] fun _ => none

/-- The way back from a node to the root. -/
def trace (parent : κ → Option κ) (root : κ) : (fuel : Nat) → κ → Option (List κ)
  | 0, _ => none
  | fuel + 1, v =>
      if v = root then some [v]
      else (parent v).bind fun p => (trace parent root fuel p).map fun path => v :: path

/-! ## Paths -/

section Paths

variable {edge : κ → κ → Prop} {v w : κ} {path : List κ}

omit [DecidableEq κ] in
/-- A path from one node to another. -/
structure Path (edge : κ → κ → Prop) (v w : κ) (path : List κ) : Prop where
  head : path.head? = some v
  last : path.getLast? = some w
  chain : path.IsChain edge

omit [DecidableEq κ] in
/-- A path with the fewest edges. -/
structure Shortest (edge : κ → κ → Prop) (v w : κ) (path : List κ) : Prop
    extends Path edge v w path where
  fewest : ∀ other, Path edge v w other → path.length ≤ other.length

omit [DecidableEq κ] in
theorem Path.walk (h : Path edge v w path) : Walk edge (path.length - 1) v w := by
  induction path using List.reverseRecOn generalizing w with
  | nil => cases h.head
  | append_singleton front x ih =>
      obtain rfl : x = w := by simpa using h.last
      obtain ⟨hfront, -, hedge⟩ := List.isChain_append.mp h.chain
      rw [List.length_append, List.length_singleton, Nat.add_sub_cancel]
      rcases List.eq_nil_or_concat front with rfl | ⟨init, y, rfl⟩
      · obtain rfl : x = v := by simpa using h.head
        exact .refl
      · rw [List.concat_eq_append] at *
        have hpath : Path edge v y (init ++ [y]) := by
          refine ⟨?_, by simp, hfront⟩
          rw [← h.head, List.append_assoc, List.head?_append, List.head?_append]
          cases init.head? <;> rfl
        have hwalk := ih hpath
        rw [List.length_append, List.length_singleton, Nat.add_sub_cancel] at hwalk
        rw [List.length_append, List.length_singleton]
        exact hwalk.tail (hedge y (by simp) x rfl)

end Paths

/-! ## The invariant -/

variable {succ : κ → List κ} {nodes : List κ} {root v w : κ} {d : Nat}
  {rest done queue : List (κ × Nat)} {s : State κ}

/-- What a list of nodes is entered as. -/
theorem foldl_enter (v : κ) (l : List κ) (s : State κ) :
    ∃ new : List κ, (l.foldl (enter v) s).queue = s.queue ++ new ∧
      (l.foldl (enter v) s).visited.Perm (s.visited ++ new) ∧
      (∀ w ∈ new, (l.foldl (enter v) s).parent w = some v) ∧
      (∀ w, w ∉ new → (l.foldl (enter v) s).parent w = s.parent w) ∧
      new ⊆ l ∧ new.Nodup ∧ (∀ w ∈ new, w ∉ s.visited) ∧ ∀ w ∈ l, w ∈ new ∨ w ∈ s.visited := by
  induction l generalizing s with
  | nil => exact ⟨[], by simp, by simp, by simp, by simp, by simp, by simp, by simp, by simp⟩
  | cons x l ih =>
      rw [List.foldl_cons, enter]
      split_ifs with hvisited
      · obtain ⟨new, hqueue, hperm, hparent, hkeep, hsub, hnodup, hfresh, hall⟩ := ih s
        refine ⟨new, hqueue, hperm, hparent, hkeep, fun w hw => List.mem_cons_of_mem _ (hsub hw),
          hnodup, hfresh, fun w hw => ?_⟩
        rcases List.mem_cons.mp hw with rfl | hw
        · exact Or.inr hvisited
        · exact hall w hw
      · obtain ⟨new, hqueue, hperm, hparent, hkeep, hsub, hnodup, hfresh, hall⟩ :=
          ih ⟨s.queue ++ [x], x :: s.visited, Function.update s.parent x (some v)⟩
        have hx : x ∉ new := fun hx => hfresh x hx List.mem_cons_self
        refine ⟨x :: new, by rw [hqueue, List.append_assoc, List.singleton_append],
          hperm.trans List.perm_middle.symm, fun w hw => ?_, fun w hw => ?_,
          List.cons_subset_cons _ hsub, List.nodup_cons.mpr ⟨hx, hnodup⟩, fun w hw => ?_,
          fun w hw => ?_⟩
        · rcases List.mem_cons.mp hw with rfl | hw
          · exact (hkeep w hx).trans (Function.update_self w (some v) s.parent)
          · exact hparent w hw
        · obtain ⟨hne, hw⟩ := not_or.mp (mt List.mem_cons.mpr hw)
          exact (hkeep w hw).trans (Function.update_of_ne hne (some v) s.parent)
        · rcases List.mem_cons.mp hw with rfl | hw
          · exact hvisited
          · exact fun hold => hfresh w hw (List.mem_cons_of_mem _ hold)
        · rcases List.mem_cons.mp hw with rfl | hw
          · exact Or.inl List.mem_cons_self
          · rcases hall w hw with hnew | hold
            · exact Or.inl (List.mem_cons_of_mem _ hnew)
            · rcases List.mem_cons.mp hold with rfl | hold
              · exact Or.inl List.mem_cons_self
              · exact Or.inr hold

/-- A search between two steps, with the depths of what was taken from the queue and of what is
queued. -/
structure Grown (succ : κ → List κ) (nodes : List κ) (root : κ) (s : State κ)
    (queue done : List (κ × Nat)) : Prop where
  entering : Entering (DepthFirst.Edge succ) root (nodes.length + 1) queue done
  queue_eq : s.queue = queue.map Prod.fst
  visited_perm : s.visited.Perm ((done ++ queue).map Prod.fst)
  shallow : ∀ e ∈ done ++ queue, e.2 < (done ++ queue).length
  within : ∀ e ∈ done ++ queue, e.1 ∈ root :: nodes
  entered : ∀ e ∈ done ++ queue, e.1 ≠ root → ∃ p d, s.parent e.1 = some p ∧ e.1 ∈ succ p ∧
    e.2 = d + 1 ∧ (p, d) ∈ done ++ queue

omit [DecidableEq κ] in
theorem Grown.start (succ : κ → List κ) (nodes : List κ) (root : κ) :
    Grown succ nodes root ⟨[root], [root], fun _ => none⟩ [(root, 0)] [] where
  entering := .start _ root _
  queue_eq := rfl
  visited_perm := .refl _
  shallow := by simp
  within := by simp
  entered := by
    intro e he hne
    rw [List.mem_singleton.mp he] at hne
    exact absurd rfl hne

omit [DecidableEq κ] in
/-- No more nodes are met than there are. -/
theorem Grown.length_le (h : Grown succ nodes root s queue done) :
    (done ++ queue).length ≤ nodes.length + 1 := by
  have hsub : (done ++ queue).map Prod.fst ⊆ root :: nodes := by
    intro w hw
    obtain ⟨e, he, rfl⟩ := List.mem_map.mp hw
    exact h.within e he
  have hle := (List.subperm_of_subset h.entering.nodup hsub).length_le
  rwa [List.length_map, List.length_cons] at hle

omit [DecidableEq κ] in
theorem Grown.mem_visited_iff (h : Grown succ nodes root s queue done) :
    w ∈ s.visited ↔ ∃ d, (w, d) ∈ done ++ queue := by
  rw [h.visited_perm.mem_iff, List.mem_map]
  constructor
  · rintro ⟨e, he, rfl⟩
    exact ⟨e.2, he⟩
  · rintro ⟨d, hd⟩
    exact ⟨(w, d), hd, rfl⟩

/-- A node is taken from the queue and its successors are entered. -/
theorem Grown.visit (hsucc : ∀ v, ∀ w ∈ succ v, w ∈ nodes)
    (h : Grown succ nodes root s ((v, d) :: rest) done) :
    ∃ new : List κ, Grown succ nodes root
      (BreadthTree.visit succ v (rest.map Prod.fst) s.visited s.parent)
      (rest ++ new.map fun w => (w, d + 1)) (done ++ [(v, d)]) := by
  obtain ⟨new, hqueue, hperm, hparent, hkeep, hsub, hnodup, hfresh, hall⟩ :=
    foldl_enter v (succ v) ⟨rest.map Prod.fst, s.visited, s.parent⟩
  have hsplit : done ++ [(v, d)] ++ (rest ++ new.map fun w => (w, d + 1)) =
      (done ++ (v, d) :: rest) ++ new.map fun w => (w, d + 1) := by simp
  have hmap : (new.map fun w => (w, d + 1)).map Prod.fst = new := by simp [Function.comp_def]
  have hvisited : ∀ w, w ∈ s.visited ↔ w ∈ (done ++ (v, d) :: rest).map Prod.fst :=
    fun w => h.visited_perm.mem_iff
  have hdepth : d < nodes.length + 1 :=
    (h.shallow (v, d) (by simp)).trans_le h.length_le
  rw [BreadthTree.visit]
  refine ⟨new, ?_, ?_, ?_, ?_, ?_, ?_⟩
  · apply h.entering.visit new (Or.inl hdepth) (fun w hw => hsub hw) hnodup
    · exact fun w hw hold => hfresh w hw ((hvisited w).mpr hold)
    · intro _ w hw
      exact (hall w hw).imp_right (hvisited w).mp
  · rw [hqueue, List.map_append, hmap]
  · rw [hsplit, List.map_append, hmap]
    exact hperm.trans (h.visited_perm.append_right new)
  · rw [hsplit]
    intro e he
    rw [List.length_append, List.length_map]
    rcases List.mem_append.mp he with he | he
    · exact Nat.lt_add_right _ (h.shallow e he)
    · obtain ⟨w, hw, rfl⟩ := List.mem_map.mp he
      have hlt := h.shallow (v, d) (by simp)
      have hpos := List.length_pos_of_mem hw
      dsimp only at hlt ⊢
      omega
  · rw [hsplit]
    intro e he
    rcases List.mem_append.mp he with he | he
    · exact h.within e he
    · obtain ⟨w, hw, rfl⟩ := List.mem_map.mp he
      exact List.mem_cons_of_mem _ (hsucc v w (hsub hw))
  · rw [hsplit]
    intro e he hne
    rcases List.mem_append.mp he with he | he
    · obtain ⟨p, d', hp, hedge, hd', hmem⟩ := h.entered e he hne
      have hold : e.1 ∉ new := fun hnew => hfresh e.1 hnew
        ((hvisited e.1).mpr (List.mem_map_of_mem he))
      exact ⟨p, d', (hkeep e.1 hold).trans hp, hedge, hd', List.mem_append_left _ hmem⟩
    · obtain ⟨w, hw, rfl⟩ := List.mem_map.mp he
      exact ⟨v, d, hparent w hw, hsub hw, rfl, List.mem_append_left _ (by simp)⟩

/-- The loop ends with an empty queue or before a node to stop at. -/
theorem Grown.loop (hsucc : ∀ v, ∀ w ∈ succ v, w ∈ nodes) (stop : κ → Bool)
    (h : Grown succ nodes root s queue done) :
    ∃ queue done, Grown succ nodes root
        (loop succ nodes hsucc stop s.queue s.visited s.parent) queue done ∧
      ∀ e ∈ queue.head?, stop e.1 = true := by
  obtain ⟨q, visited, parent⟩ := s
  induction q, visited, parent using loop.induct succ nodes hsucc stop
    generalizing queue done with
  | case1 visited parent =>
      rw [BreadthTree.loop]
      have hnil : queue = [] := by simpa using h.queue_eq.symm
      exact ⟨queue, done, h, by simp [hnil]⟩
  | case2 visited parent v rest hstop =>
      rw [BreadthTree.loop, if_pos hstop]
      refine ⟨queue, done, h, fun e he => ?_⟩
      have hhead : some v = queue.head?.map Prod.fst := by
        rw [← List.head?_map, ← h.queue_eq, List.head?_cons]
      rw [Option.mem_def.mp he, Option.map_some, Option.some.injEq] at hhead
      exact hhead ▸ hstop
  | case3 visited parent v rest hstop ih =>
      rw [BreadthTree.loop, if_neg hstop]
      obtain ⟨⟨v', d⟩, rest', rfl, rfl, hrest⟩ : ∃ e rest', queue = e :: rest' ∧ e.1 = v ∧
          rest'.map Prod.fst = rest := List.map_eq_cons_iff.mp h.queue_eq.symm
      obtain ⟨new, hnew⟩ := h.visit hsucc
      rw [hrest] at hnew
      exact ih hnew

theorem exists_grown (hsucc : ∀ v, ∀ w ∈ succ v, w ∈ nodes) (stop : κ → Bool) (root : κ) :
    ∃ queue done, Grown succ nodes root (search succ nodes hsucc stop root) queue done ∧
      ∀ e ∈ queue.head?, stop e.1 = true :=
  (Grown.start succ nodes root).loop hsucc stop

/-! ## What is found -/

omit [DecidableEq κ] in
theorem Grown.reach (h : Grown succ nodes root s queue done) (hw : w ∈ s.visited) :
    Relation.ReflTransGen (DepthFirst.Edge succ) root w := by
  obtain ⟨d, hd⟩ := h.mem_visited_iff.mp hw
  exact (h.entering.walk (w, d) hd).reach

omit [DecidableEq κ] in
/-- With an empty queue everything behind the root is visited. -/
theorem Grown.visited_of_reach (h : Grown succ nodes root s [] done)
    (hreach : Relation.ReflTransGen (DepthFirst.Edge succ) root w) : w ∈ s.visited := by
  rw [h.mem_visited_iff]
  induction hreach with
  | refl => exact ⟨0, h.entering.started⟩
  | @tail x w _ hedge ih =>
      obtain ⟨d, hd⟩ := ih
      have hdone : (x, d) ∈ done := (List.mem_append.mp hd).resolve_right List.not_mem_nil
      obtain ⟨d', _, hmem⟩ := h.entering.pending (x, d) hdone
        ((h.shallow (x, d) hd).trans_le h.length_le) w hedge
      exact ⟨d', hmem⟩

/-- The predecessors lead back along a path of the depth. -/
theorem Grown.trace (h : Grown succ nodes root s queue done) {fuel : Nat}
    (hmem : (w, d) ∈ done ++ queue) (hfuel : d < fuel) :
    ∃ path, trace s.parent root fuel w = some path ∧ path.length = d + 1 ∧
      Path (fun x y => DepthFirst.Edge succ y x) w root path := by
  induction fuel generalizing w d with
  | zero => exact absurd hfuel (Nat.not_lt_zero d)
  | succ fuel ih =>
      rw [BreadthTree.trace]
      split_ifs with hroot
      · subst hroot
        have hzero : d = 0 :=
          (h.entering.distance hmem).unique (h.entering.distance h.entering.started)
        exact ⟨[w], rfl, by rw [hzero]; rfl, rfl, rfl, .singleton w⟩
      · obtain ⟨p, d', hp, hedge, rfl, hmem'⟩ := h.entered (w, d) hmem hroot
        obtain ⟨path, hpath, hlength, hback⟩ := ih hmem' (Nat.lt_of_succ_lt_succ hfuel)
        refine ⟨w :: path, by rw [hp, Option.bind_some, hpath, Option.map_some],
          by rw [List.length_cons, hlength], rfl, ?_, ?_⟩
        · have hne : path ≠ [] := by
            rintro rfl
            cases hback.head
          rw [List.getLast?_cons_of_ne_nil hne]
          exact hback.last
        · apply List.isChain_cons.mpr
          refine ⟨fun y hy => ?_, hback.chain⟩
          rw [hback.head, Option.mem_some_iff] at hy
          exact hy ▸ hedge

omit [DecidableEq κ] in
theorem Path.reverse {edge : κ → κ → Prop} {path : List κ}
    (h : Path (fun x y => edge y x) v w path) : Path edge w v path.reverse where
  head := by rw [List.head?_reverse, h.last]
  last := by rw [List.getLast?_reverse, h.head]
  chain := List.isChain_reverse.mpr h.chain

/-- The way back to the root, turned round, is a shortest path. -/
theorem Grown.exists_shortest (h : Grown succ nodes root s queue done) (hw : w ∈ s.visited) :
    ∃ path, BreadthTree.trace s.parent root s.visited.length w = some path ∧
      Shortest (DepthFirst.Edge succ) root w path.reverse := by
  obtain ⟨d, hd⟩ := h.mem_visited_iff.mp hw
  have hfuel : d < s.visited.length := by
    rw [h.visited_perm.length_eq, List.length_map]
    exact h.shallow (w, d) hd
  obtain ⟨path, hpath, hlength, hback⟩ := h.trace hd hfuel
  refine ⟨path, hpath, hback.reverse, fun other hother => ?_⟩
  have hle : d ≤ other.length - 1 := (h.entering.distance hd).2 hother.walk
  have hpos : 0 < other.length := by
    rw [List.length_pos_iff]
    rintro rfl
    cases hother.head
  rw [List.length_reverse, hlength]
  omega

/-- A search that stops nowhere visits what its root leads to. -/
theorem mem_search_iff (hsucc : ∀ v, ∀ w ∈ succ v, w ∈ nodes) :
    w ∈ (search succ nodes hsucc (fun _ => false) root).visited ↔
      Relation.ReflTransGen (DepthFirst.Edge succ) root w := by
  obtain ⟨queue, done, h, hhead⟩ := exists_grown hsucc (fun _ => false) root
  refine ⟨h.reach, fun hreach => ?_⟩
  cases queue with
  | nil => exact h.visited_of_reach hreach
  | cons e rest => cases hhead e rfl

/-- A search that stops at a node visits it exactly when its root leads to it. -/
theorem mem_search_target_iff (hsucc : ∀ v, ∀ w ∈ succ v, w ∈ nodes) :
    w ∈ (search succ nodes hsucc (fun v => v = w) root).visited ↔
      Relation.ReflTransGen (DepthFirst.Edge succ) root w := by
  obtain ⟨queue, done, h, hhead⟩ := exists_grown hsucc (fun v => v = w) root
  refine ⟨h.reach, fun hreach => ?_⟩
  cases queue with
  | nil => exact h.visited_of_reach hreach
  | cons e rest =>
      have hw : e.1 = w := by simpa using hhead e rfl
      exact h.mem_visited_iff.mpr ⟨e.2, by simp [← hw]⟩

end BreadthTree
