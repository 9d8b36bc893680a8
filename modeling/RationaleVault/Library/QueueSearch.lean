import Mathlib.Data.Set.Card
import RationaleVault.Library.BreadthFirst
import RationaleVault.Library.BreadthTree

/-!
# Breadth-first search with labels

The queue holds nodes with labels, such as depths or the paths that led to them. A
node is entered once, with the label it is first met with. A search may stop at a
node, may leave nodes with some labels unexpanded, and may start among nodes that
were visited before.
-/

universe u v

namespace QueueSearch

open Distances Walks

/-- What a search follows and where it ends. -/
structure Rules (κ : Type u) (α : Type v) where
  succ : κ → List κ
  extend : α → κ → α
  expands : α → Bool
  stop : κ → Bool
  nodes : List κ
  succ_mem : ∀ v, ∀ w ∈ succ v, w ∈ nodes

/-- What a search leaves: the entry it stopped at, the nodes it has taken from the queue, and the
nodes it has entered. -/
structure Result (κ : Type u) (α : Type v) where
  found : Option (κ × α)
  taken : List κ
  visited : List κ

variable {κ : Type u} {α : Type v} [DecidableEq κ]

/-- Enter a node with its label unless it was visited. -/
def enter (extend : α → κ → α) (a : α) (s : List (κ × α) × List κ) (w : κ) :
    List (κ × α) × List κ :=
  if w ∈ s.2 then s else (s.1 ++ [(w, extend a w)], w :: s.2)

/-- What a list of nodes is entered as. -/
theorem foldl_enter (extend : α → κ → α) (a : α) (l : List κ) (s : List (κ × α) × List κ) :
    ∃ new : List κ, (l.foldl (enter extend a) s).1 = s.1 ++ new.map (fun w => (w, extend a w)) ∧
      (∀ w, w ∈ (l.foldl (enter extend a) s).2 ↔ w ∈ new ∨ w ∈ s.2) ∧
      new ⊆ l ∧ new.Nodup ∧ (∀ w ∈ new, w ∉ s.2) ∧ ∀ w ∈ l, w ∈ new ∨ w ∈ s.2 := by
  induction l generalizing s with
  | nil => exact ⟨[], by simp, by simp, by simp, by simp, by simp, by simp⟩
  | cons x l ih =>
      rw [List.foldl_cons, enter]
      split_ifs with hvisited
      · obtain ⟨new, hqueue, hmem, hsub, hnodup, hfresh, hall⟩ := ih s
        refine ⟨new, hqueue, hmem, fun w hw => List.mem_cons_of_mem _ (hsub hw), hnodup, hfresh,
          fun w hw => ?_⟩
        rcases List.mem_cons.mp hw with rfl | hw
        · exact Or.inr hvisited
        · exact hall w hw
      · obtain ⟨new, hqueue, hmem, hsub, hnodup, hfresh, hall⟩ :=
          ih (s.1 ++ [(x, extend a x)], x :: s.2)
        have hx : x ∉ new := fun hx => hfresh x hx List.mem_cons_self
        refine ⟨x :: new, ?_, fun w => ?_, List.cons_subset_cons _ hsub,
          List.nodup_cons.mpr ⟨hx, hnodup⟩, fun w hw => ?_, fun w hw => ?_⟩
        · rw [hqueue, List.append_assoc, List.map_cons, List.singleton_append]
        · rw [hmem, List.mem_cons, List.mem_cons, or_assoc, or_left_comm]
        · rcases List.mem_cons.mp hw with rfl | hw
          · exact hvisited
          · exact fun hold => hfresh w hw (List.mem_cons_of_mem _ hold)
        · rcases List.mem_cons.mp hw with rfl | hw
          · exact Or.inl List.mem_cons_self
          · rcases hall w hw with hnew | hold
            · exact Or.inl (List.mem_cons_of_mem _ hnew)
            · rcases List.mem_cons.mp hold with rfl | hold
              · exact Or.inl List.mem_cons_self
              · exact Or.inr hold

/-- What is entered into the queue is visited. -/
theorem enter_measure (extend : α → κ → α) (a : α) {nodes l : List κ} (hl : ∀ w ∈ l, w ∈ nodes)
    (s : List (κ × α) × List κ) :
    DepthFirst.unmet nodes (l.foldl (enter extend a) s).2 +
        (l.foldl (enter extend a) s).1.length ≤
      DepthFirst.unmet nodes s.2 + s.1.length := by
  induction l generalizing s with
  | nil => exact le_rfl
  | cons w l ih =>
      rw [List.foldl_cons]
      refine (ih (fun x hx => hl x (List.mem_cons_of_mem _ hx)) _).trans ?_
      rw [enter]
      split_ifs with hvisited
      · exact le_rfl
      · have hlt := DepthFirst.unmet_cons_lt (hl w List.mem_cons_self) hvisited
        rw [List.length_append, List.length_singleton]
        dsimp only
        omega

/-- The queue and the visited nodes after the successors of a node are entered. -/
def expand (r : Rules κ α) (v : κ) (a : α) (rest : List (κ × α)) (visited : List κ) :
    List (κ × α) × List κ := (r.succ v).foldl (enter r.extend a) (rest, visited)

/-- The loop over the queue. -/
def loop (r : Rules κ α) (queue : List (κ × α)) (taken visited : List κ) : Result κ α :=
  match queue with
  | [] => ⟨none, taken, visited⟩
  | (v, a) :: rest =>
      if r.stop v then ⟨some (v, a), taken, visited⟩
      else if r.expands a then
        loop r (expand r v a rest visited).1 (taken ++ [v]) (expand r v a rest visited).2
      else loop r rest (taken ++ [v]) visited
  termination_by DepthFirst.unmet r.nodes visited + queue.length
  decreasing_by
    · exact Nat.lt_succ_of_le (enter_measure r.extend a (r.succ_mem v) (rest, visited))
    · exact Nat.lt_succ_self _

/-- The search from a node, after the nodes of earlier searches. -/
def search (r : Rules κ α) (root : κ) (label : α) (before : List κ) : Result κ α :=
  loop r [(root, label)] [] (root :: before)

/-! ## The invariant -/

/-- How labels count the steps of a search, by a relation `P` between nodes, labels and depths: the
search expands what lies above the bound. -/
structure Graded (r : Rules κ α) (bound : Nat) (P : κ → α → Nat → Prop) : Prop where
  extend : ∀ v a d, P v a d → ∀ w ∈ r.succ v, P w (r.extend a w) (d + 1)
  expands : ∀ v a d, P v a d → d ≤ r.nodes.length → (r.expands a = true ↔ d < bound)

/-- An entry of the queue and its depth. -/
def Marked (P : κ → α → Nat → Prop) (e : κ × α) (m : κ × Nat) : Prop := e.1 = m.1 ∧ P e.1 e.2 m.2

/-- A search between two steps, with the depths of what was taken from the queue and of what is
queued. -/
structure Searching (r : Rules κ α) (bound : Nat) (P : κ → α → Nat → Prop) (root : κ)
    (before : List κ) (queue : List (κ × α)) (taken visited : List κ) (marks done : List (κ × Nat)) :
    Prop where
  entering : Entering (DepthFirst.Edge r.succ) root bound marks done
  marked : List.Forall₂ (Marked P) queue marks
  taken_eq : taken = done.map Prod.fst
  visited_iff : ∀ w, w ∈ visited ↔ w ∈ (done ++ marks).map Prod.fst ∨ w ∈ before
  shallow : ∀ e ∈ done ++ marks, e.2 < (done ++ marks).length
  within : ∀ e ∈ done ++ marks, e.1 ∈ root :: r.nodes
  passed : ∀ e ∈ done, r.stop e.1 = false

variable {r : Rules κ α} {bound : Nat} {P : κ → α → Nat → Prop} {root : κ}
  {before : List κ} {taken visited : List κ} {marks done : List (κ × Nat)}

omit [DecidableEq κ] in
theorem Searching.start {label : α} (hlabel : P root label 0) :
    Searching r bound P root before [(root, label)] [] (root :: before) [(root, 0)] [] where
  entering := .start _ root bound
  marked := .cons ⟨rfl, hlabel⟩ .nil
  taken_eq := rfl
  visited_iff := by simp
  shallow := by simp
  within := by simp
  passed := by simp

omit [DecidableEq κ] in
/-- No more nodes are met than there are. -/
theorem Searching.le_length {queue : List (κ × α)}
    (h : Searching r bound P root before queue taken visited marks done) {e : κ × Nat}
    (he : e ∈ done ++ marks) : e.2 ≤ r.nodes.length := by
  have hsub : (done ++ marks).map Prod.fst ⊆ root :: r.nodes := by
    intro w hw
    obtain ⟨e, he, rfl⟩ := List.mem_map.mp hw
    exact h.within e he
  have hle := (List.subperm_of_subset h.entering.nodup hsub).length_le
  rw [List.length_map, List.length_cons] at hle
  exact Nat.le_of_lt_succ ((h.shallow e he).trans_le hle)

omit [DecidableEq κ] in
/-- A node is taken from the queue and new ones are entered behind it. -/
theorem Searching.step (hgraded : Graded r bound P)
    (hbefore : ∀ w, Relation.ReflTransGen (DepthFirst.Edge r.succ) root w → w ∉ before)
    {v : κ} {a : α} {d : Nat} {rest : List (κ × α)}
    (h : Searching r bound P root before ((v, a) :: rest) taken visited ((v, d) :: marks) done)
    (hstop : r.stop v = false) {new visited' : List κ}
    (hsub : new ⊆ r.succ v) (hnodup : new.Nodup) (hfresh : ∀ w ∈ new, w ∉ visited)
    (hvisited : ∀ w, w ∈ visited' ↔ w ∈ new ∨ w ∈ visited) (hbound : d < bound ∨ new = [])
    (hall : d < bound → ∀ w ∈ r.succ v, w ∈ new ∨ w ∈ visited) :
    Searching r bound P root before (rest ++ new.map fun w => (w, r.extend a w)) (taken ++ [v])
      visited' (marks ++ new.map fun w => (w, d + 1)) (done ++ [(v, d)]) := by
  obtain ⟨⟨-, hlabel⟩, hrest⟩ := List.forall₂_cons.mp h.marked
  have hsplit : done ++ [(v, d)] ++ (marks ++ new.map fun w => (w, d + 1)) =
      (done ++ (v, d) :: marks) ++ new.map fun w => (w, d + 1) := by simp
  have hnames : (new.map fun w => (w, d + 1)).map Prod.fst = new := by simp [Function.comp_def]
  have hhead : (v, d) ∈ done ++ (v, d) :: marks := by simp
  have hmet : ∀ w ∈ visited, DepthFirst.Edge r.succ v w →
      w ∈ (done ++ (v, d) :: marks).map Prod.fst := by
    intro w hw hedge
    refine ((h.visited_iff w).mp hw).resolve_right (hbefore w ?_)
    exact (h.entering.walk _ hhead).reach.tail hedge
  constructor
  · apply h.entering.visit new hbound (fun w hw => hsub hw) hnodup
    · exact fun w hw hold => hfresh w hw ((h.visited_iff w).mpr (.inl hold))
    · intro hlt w hedge
      exact (hall hlt w hedge).imp_right fun hw => hmet w hw hedge
  · refine List.rel_append hrest ?_
    rw [List.forall₂_map_left_iff, List.forall₂_map_right_iff, List.forall₂_same]
    exact fun w hw => ⟨rfl, hgraded.extend v a d hlabel w (hsub hw)⟩
  · rw [h.taken_eq, List.map_append]
    rfl
  · intro w
    rw [hvisited, hsplit, List.map_append, hnames, List.mem_append, h.visited_iff, or_left_comm,
      or_assoc]
  · rw [hsplit]
    intro e he
    rw [List.length_append, List.length_map]
    rcases List.mem_append.mp he with he | he
    · exact Nat.lt_add_right _ (h.shallow e he)
    · obtain ⟨w, hw, rfl⟩ := List.mem_map.mp he
      have hlt := h.shallow _ hhead
      have hpos := List.length_pos_of_mem hw
      dsimp only at hlt ⊢
      omega
  · rw [hsplit]
    intro e he
    rcases List.mem_append.mp he with he | he
    · exact h.within e he
    · obtain ⟨w, hw, rfl⟩ := List.mem_map.mp he
      exact List.mem_cons_of_mem _ (r.succ_mem v w (hsub hw))
  · intro e he
    rcases List.mem_append.mp he with he | he
    · exact h.passed e he
    · exact List.mem_singleton.mp he ▸ hstop

/-- A loop ends with an empty queue, or before a node to stop at. -/
theorem Searching.loop (hgraded : Graded r bound P)
    (hbefore : ∀ w, Relation.ReflTransGen (DepthFirst.Edge r.succ) root w → w ∉ before)
    {queue : List (κ × α)} (h : Searching r bound P root before queue taken visited marks done) :
    ∃ queue' marks' done', Searching r bound P root before queue'
        (loop r queue taken visited).taken (loop r queue taken visited).visited marks' done' ∧
      (loop r queue taken visited).found = queue'.head? ∧
      ∀ e ∈ queue'.head?, r.stop e.1 = true := by
  induction queue, taken, visited using loop.induct r generalizing marks done with
  | case1 taken visited =>
      rw [QueueSearch.loop]
      exact ⟨[], marks, done, h, rfl, by simp⟩
  | case2 taken visited v a rest hstop =>
      rw [QueueSearch.loop, if_pos hstop]
      exact ⟨(v, a) :: rest, marks, done, h, rfl, by simpa using hstop⟩
  | case3 taken visited v a rest hstop hexpands ih =>
      rw [QueueSearch.loop, if_neg hstop, if_pos hexpands]
      obtain ⟨⟨v', d⟩, marks, ⟨rfl, hlabel⟩, -, rfl⟩ := List.forall₂_cons_left_iff.mp h.marked
      obtain ⟨new, hqueue, hvisited, hsub, hnodup, hfresh, hall⟩ :=
        foldl_enter r.extend a (r.succ v) (rest, visited)
      have hle := h.le_length (List.mem_append_right _ List.mem_cons_self)
      have hlt := (hgraded.expands v a d hlabel hle).mp hexpands
      have hstep := h.step hgraded hbefore (Bool.eq_false_iff.mpr hstop) hsub hnodup hfresh
        hvisited (.inl hlt) fun _ => hall
      rw [← hqueue] at hstep
      exact ih hstep
  | case4 taken visited v a rest hstop hexpands ih =>
      rw [QueueSearch.loop, if_neg hstop, if_neg hexpands]
      obtain ⟨⟨v', d⟩, marks, ⟨rfl, hlabel⟩, -, rfl⟩ := List.forall₂_cons_left_iff.mp h.marked
      have hle := h.le_length (List.mem_append_right _ List.mem_cons_self)
      have hvisited : ∀ w, w ∈ visited ↔ w ∈ ([] : List κ) ∨ w ∈ visited := fun w => by simp
      have hstep := h.step hgraded hbefore (Bool.eq_false_iff.mpr hstop) (List.nil_subset _)
        List.nodup_nil (fun _ hw => absurd hw List.not_mem_nil) hvisited (.inr rfl)
        fun hlt => absurd ((hgraded.expands v a d hlabel hle).mpr hlt) hexpands
      rw [List.map_nil, List.append_nil] at hstep
      exact ih hstep

/-! ## What is found -/

/-- What a search has done when it ends. -/
structure Outcome (r : Rules κ α) (bound : Nat) (P : κ → α → Nat → Prop) (root : κ)
    (before : List κ) (result : Result κ α) : Prop where
  found : ∀ v a, result.found = some (v, a) →
    r.stop v = true ∧ ∃ d, P v a d ∧ Distance (DepthFirst.Edge r.succ) root v d
  passed : ∀ w ∈ result.taken, r.stop w = false
  nodup : result.taken.Nodup
  taken : result.found = none → ∀ w, w ∈ result.taken ↔
    ∃ n ≤ bound, Walk (DepthFirst.Edge r.succ) n root w
  reached : result.found = none → r.nodes.length < bound → ∀ w, w ∈ result.taken ↔
    Relation.ReflTransGen (DepthFirst.Edge r.succ) root w
  visited : result.found = none → ∀ w, w ∈ result.visited ↔ w ∈ result.taken ∨ w ∈ before

omit [DecidableEq κ] in
/-- With an empty queue everything behind the root was taken, unless the bound was met. -/
theorem Searching.mem_of_reach (h : Searching r bound P root before [] taken visited [] done)
    (hbound : r.nodes.length < bound) {w : κ}
    (hreach : Relation.ReflTransGen (DepthFirst.Edge r.succ) root w) : ∃ d, (w, d) ∈ done := by
  have hdone : ∀ e, e ∈ done ++ [] ↔ e ∈ done := by simp
  induction hreach with
  | refl => exact ⟨0, (hdone _).mp h.entering.started⟩
  | @tail x w _ hedge ih =>
      obtain ⟨d, hd⟩ := ih
      have hlt : d < bound := (h.le_length ((hdone _).mpr hd)).trans_lt hbound
      obtain ⟨d', _, hmem⟩ := h.entering.pending (x, d) hd hlt w hedge
      exact ⟨d', (hdone _).mp hmem⟩

theorem search_outcome (hgraded : Graded r bound P) {label : α} (hlabel : P root label 0)
    (hbefore : ∀ w, Relation.ReflTransGen (DepthFirst.Edge r.succ) root w → w ∉ before) :
    Outcome r bound P root before (search r root label before) := by
  obtain ⟨queue, marks, done, h, hfound, hstop⟩ :=
    (Searching.start hlabel).loop hgraded hbefore
  change Outcome r bound P root before (loop r [(root, label)] [] (root :: before))
  have hmem : ∀ w, w ∈ (loop r [(root, label)] [] (root :: before)).taken ↔
      ∃ d, (w, d) ∈ done := by
    intro w
    rw [h.taken_eq, List.mem_map]
    exact ⟨fun ⟨e, he, heq⟩ => ⟨e.2, heq ▸ he⟩, fun ⟨d, hd⟩ => ⟨(w, d), hd, rfl⟩⟩
  have hnil : (loop r [(root, label)] [] (root :: before)).found = none →
      queue = [] ∧ marks = [] := by
    intro hnone
    rw [hfound, List.head?_eq_none_iff] at hnone
    exact ⟨hnone, List.forall₂_nil_left_iff.mp (hnone ▸ h.marked)⟩
  constructor
  · intro v a hva
    rw [hfound] at hva
    obtain ⟨rest, rfl⟩ := List.head?_eq_some_iff.mp hva
    obtain ⟨⟨v', d⟩, marks, ⟨rfl, hd⟩, -, rfl⟩ := List.forall₂_cons_left_iff.mp h.marked
    exact ⟨hstop (v, a) rfl, d, hd, h.entering.distance (by simp)⟩
  · intro w hw
    obtain ⟨d, hd⟩ := (hmem w).mp hw
    exact h.passed (w, d) hd
  · rw [h.taken_eq]
    exact (List.map_append ▸ h.entering.nodup).sublist (List.sublist_append_left _ _)
  · intro hnone w
    obtain ⟨rfl, rfl⟩ := hnil hnone
    rw [hmem]
    constructor
    · rintro ⟨d, hd⟩
      obtain ⟨hle, hdistance⟩ := h.entering.mem_iff.mp hd
      exact ⟨d, hle, hdistance.1⟩
    · rintro ⟨n, hn, hwalk⟩
      obtain ⟨d, hd, hdistance⟩ := exists_distance hwalk
      exact ⟨d, h.entering.mem_iff.mpr ⟨hd.trans hn, hdistance⟩⟩
  · intro hnone hbound w
    obtain ⟨rfl, rfl⟩ := hnil hnone
    rw [hmem]
    constructor
    · rintro ⟨d, hd⟩
      exact (h.entering.walk (w, d) (List.mem_append_left _ hd)).reach
    · exact h.mem_of_reach hbound
  · intro hnone w
    obtain ⟨rfl, rfl⟩ := hnil hnone
    rw [h.visited_iff, h.taken_eq, List.append_nil]

omit [DecidableEq κ] in
/-- A search that stops nowhere finds nothing. -/
theorem Outcome.found_eq_none {result : Result κ α} (h : Outcome r bound P root before result)
    (hstop : ∀ v, r.stop v = false) : result.found = none := by
  cases hfound : result.found with
  | none => rfl
  | some e => exact absurd (h.found e.1 e.2 hfound).1 (by simp [hstop])

/-! ## Shortest paths -/

section Paths

variable (succ : κ → List κ) (nodes : List κ) (hsucc : ∀ v, ∀ w ∈ succ v, w ∈ nodes) (target : κ)

/-- The labels are the paths from the root, and the search stops at a target. -/
def pathRules : Rules κ (List κ) where
  succ := succ
  extend path w := path ++ [w]
  expands _ := true
  stop v := v = target
  nodes := nodes
  succ_mem := hsucc

omit [DecidableEq κ] in
theorem path_snoc {edge : κ → κ → Prop} {v w x : κ} {path : List κ}
    (h : BreadthTree.Path edge v w path) (hedge : edge w x) :
    BreadthTree.Path edge v x (path ++ [x]) where
  head := by
    have hne : path ≠ [] := by
      rintro rfl
      cases h.head
    rw [List.head?_append_of_ne_nil _ hne, h.head]
  last := by simp
  chain := by
    refine List.isChain_append.mpr ⟨h.chain, .singleton x, fun y hy z hz => ?_⟩
    rw [h.last, Option.mem_some_iff] at hy
    obtain rfl : x = z := by simpa using hz
    exact hy ▸ hedge

theorem graded_pathRules (root : κ) :
    Graded (pathRules succ nodes hsucc target) (nodes.length + 1) fun v path d =>
      BreadthTree.Path (DepthFirst.Edge succ) root v path ∧ path.length = d + 1 where
  extend v path d h w hw := ⟨path_snoc h.1 hw, by
    change (path ++ [w]).length = _
    rw [List.length_append, h.2, List.length_singleton]⟩
  expands v path d _ hd := iff_of_true rfl (Nat.lt_succ_of_le hd)

/-- The search finds a shortest path to the target, and nothing exactly when there is no path. -/
theorem search_target (root : κ) :
    (∀ v path, (search (pathRules succ nodes hsucc target) root [root] []).found = some (v, path) →
      BreadthTree.Shortest (DepthFirst.Edge succ) root target path) ∧
    ((search (pathRules succ nodes hsucc target) root [root] []).found = none ↔
      ¬ Relation.ReflTransGen (DepthFirst.Edge succ) root target) := by
  have hnew : ∀ w, Relation.ReflTransGen (DepthFirst.Edge succ) root w → w ∉ ([] : List κ) :=
    fun _ _ => List.not_mem_nil
  have hgraded := graded_pathRules succ nodes hsucc target root
  have h := search_outcome hgraded ⟨⟨rfl, rfl, .singleton root⟩, rfl⟩ hnew
  have hshortest : ∀ v path,
      (search (pathRules succ nodes hsucc target) root [root] []).found = some (v, path) →
        BreadthTree.Shortest (DepthFirst.Edge succ) root target path := by
    intro v path hfound
    obtain ⟨hstop, d, ⟨hpath, hlength⟩, hdistance⟩ := h.found v path hfound
    obtain rfl : v = target := by simpa [pathRules] using hstop
    refine ⟨hpath, fun other hother => ?_⟩
    have hle : d ≤ other.length - 1 := hdistance.2 hother.walk
    have hpos : 0 < other.length := by
      rw [List.length_pos_iff]
      rintro rfl
      cases hother.head
    omega
  refine ⟨hshortest, fun hnone hreach => ?_, fun hreach => ?_⟩
  · have hmem := (h.reached hnone (Nat.lt_succ_self _) target).mpr hreach
    simpa [pathRules] using h.passed target hmem
  · cases hfound : (search (pathRules succ nodes hsucc target) root [root] []).found with
    | none => rfl
    | some e => exact absurd (hshortest e.1 e.2 hfound).walk.reach hreach

end Paths

/-! ## Components -/

section Components

variable (succ : κ → List κ) (nodes : List κ) (hsucc : ∀ v, ∀ w ∈ succ v, w ∈ nodes)

/-- There is nothing to label, and the search goes through. -/
def plainRules : Rules κ Unit where
  succ := succ
  extend _ _ := ()
  expands _ := true
  stop _ := false
  nodes := nodes
  succ_mem := hsucc

/-- One more search, if the node was not visited before. -/
def sweep (found : List κ × List (List κ)) (root : κ) : List κ × List (List κ) :=
  if root ∈ found.1 then found
  else
    let s := search (plainRules succ nodes hsucc) root () found.1
    (s.visited, found.2 ++ [s.taken])

omit [DecidableEq κ] in
theorem graded_plainRules : Graded (plainRules succ nodes hsucc) (nodes.length + 1)
    fun _ _ _ => True where
  extend := fun _ _ _ _ _ _ => trivial
  expands := fun _ _ _ _ hd => iff_of_true rfl (Nat.lt_succ_of_le hd)

open BreadthFirst (Divided Adjacent)

variable {succ nodes}

omit [DecidableEq κ] in
theorem adjacent_eq (hsucc : ∀ v, ∀ w ∈ succ v, w ∈ nodes) :
    Adjacent succ nodes = DepthFirst.Edge succ := by
  funext v w
  exact propext ⟨fun h => h.1, fun h => ⟨h, hsucc v w h⟩⟩

/-- A search from a node that no earlier search has visited. -/
theorem Divided.sweep (hsymm : ∀ v w, w ∈ succ v → v ∈ succ w) {found : List κ × List (List κ)}
    (h : Divided succ nodes found) {root : κ} (hroot : root ∈ nodes) :
    Divided succ nodes (sweep succ nodes hsucc found root) ∧
      root ∈ (sweep succ nodes hsucc found root).1 ∧
      ∀ x ∈ found.1, x ∈ (sweep succ nodes hsucc found root).1 := by
  have hadjacent := adjacent_eq hsucc
  have hback : ∀ {v w}, Relation.ReflTransGen (DepthFirst.Edge succ) v w →
      Relation.ReflTransGen (DepthFirst.Edge succ) w v := fun hreach =>
    Relation.ReflTransGen.mono (fun v w hedge => hsymm w v hedge) _ _ hreach.swap
  rw [QueueSearch.sweep]
  split_ifs with hvisited
  · exact ⟨h, hvisited, fun x hx => hx⟩
  · have hapart : ∀ w, Relation.ReflTransGen (DepthFirst.Edge succ) root w → w ∉ found.1 := by
      intro w hreach hw
      obtain ⟨c, hc, hwc⟩ := List.mem_flatten.mp ((h.visited_iff w).mp hw)
      have hrootc : root ∈ c := (h.component c hc w hwc root).mpr (hadjacent ▸ hback hreach)
      exact hvisited ((h.visited_iff root).mpr (List.mem_flatten.mpr ⟨c, hc, hrootc⟩))
    have hsearch : Outcome (plainRules succ nodes hsucc) (nodes.length + 1) (fun _ _ _ => True) root
        found.1 (search (plainRules succ nodes hsucc) root () found.1) :=
      search_outcome (graded_plainRules succ nodes hsucc) trivial hapart
    have hnone := hsearch.found_eq_none fun _ => rfl
    have htaken := hsearch.reached hnone (Nat.lt_succ_self _)
    have hseen := hsearch.visited hnone
    have hrootmem := (htaken root).mpr .refl
    refine ⟨⟨?_, ?_, ?_, ?_, ?_⟩, (hseen root).mpr (.inl hrootmem),
      fun x hx => (hseen x).mpr (.inr hx)⟩
    · intro x
      rw [List.flatten_append, List.flatten_singleton, List.mem_append, ← h.visited_iff, or_comm]
      exact hseen x
    · rw [List.flatten_append, List.flatten_singleton, List.nodup_append]
      refine ⟨h.nodup, hsearch.nodup, fun x hx y hy heq => ?_⟩
      exact hapart y ((htaken y).mp hy) ((h.visited_iff y).mpr (heq ▸ hx))
    · rw [List.flatten_append, List.flatten_singleton]
      intro x hx
      rcases List.mem_append.mp hx with hx | hx
      · exact h.within x hx
      · rcases Relation.ReflTransGen.cases_tail ((htaken x).mp hx) with rfl | ⟨v, -, hedge⟩
        · exact hroot
        · exact hsucc v x hedge
    · intro c hc
      rcases List.mem_append.mp hc with hc | hc
      · exact h.ne_nil c hc
      · obtain rfl := List.mem_singleton.mp hc
        exact List.ne_nil_of_mem hrootmem
    · intro c hc v hv w
      rcases List.mem_append.mp hc with hc | hc
      · exact h.component c hc v hv w
      · obtain rfl := List.mem_singleton.mp hc
        have hpath := (htaken v).mp hv
        rw [hadjacent]
        exact (htaken w).trans ⟨(hback hpath).trans, hpath.trans⟩

/-- Searches from all nodes divide them into the connected components. -/
theorem foldl_sweep (hsymm : ∀ v w, w ∈ succ v → v ∈ succ w) (hnodup : nodes.Nodup)
    {roots : List κ} (hroots : ∀ x, x ∈ roots ↔ x ∈ nodes) :
    (roots.foldl (sweep succ nodes hsucc) ([], [])).2.flatten.Perm nodes ∧
      (∀ c ∈ (roots.foldl (sweep succ nodes hsucc) ([], [])).2, c ≠ []) ∧
      ∀ c ∈ (roots.foldl (sweep succ nodes hsucc) ([], [])).2, ∀ v ∈ c, ∀ w,
        w ∈ c ↔ Relation.ReflTransGen (DepthFirst.Edge succ) v w := by
  have hall : ∀ l : List κ, (∀ x ∈ l, x ∈ nodes) → ∀ found, Divided succ nodes found →
      Divided succ nodes (l.foldl (sweep succ nodes hsucc) found) ∧
        ∀ x, x ∈ l ∨ x ∈ found.1 → x ∈ (l.foldl (sweep succ nodes hsucc) found).1 := by
    intro l
    induction l with
    | nil => exact fun _ found h => ⟨h, fun x hx => hx.resolve_left List.not_mem_nil⟩
    | cons root rest ih =>
        intro hl found h
        obtain ⟨hnext, hroot, hkeep⟩ := Divided.sweep hsucc hsymm h (hl root List.mem_cons_self)
        obtain ⟨hdone, hseen⟩ := ih (fun x hx => hl x (List.mem_cons_of_mem _ hx)) _ hnext
        refine ⟨hdone, fun x hx => hseen x ?_⟩
        rcases hx with hx | hx
        · rcases List.mem_cons.mp hx with rfl | hx
          · exact .inr hroot
          · exact .inl hx
        · exact .inr (hkeep x hx)
  obtain ⟨h, hseen⟩ := hall roots (fun x => (hroots x).mp) ([], [])
    ⟨by simp, by simp, by simp, by simp, by simp⟩
  refine ⟨(List.perm_ext_iff_of_nodup h.nodup hnodup).mpr fun x => ?_, h.ne_nil, ?_⟩
  · exact ⟨h.within x, fun hx => (h.visited_iff x).mp (hseen x (.inl ((hroots x).mpr hx)))⟩
  · rw [← adjacent_eq hsucc]
    exact h.component

section Classes

omit [DecidableEq κ]

variable {related : κ → κ → Prop} {all : List κ} {comps : List (List κ)}
  (hflatten : comps.flatten.Perm all) (hnodup : all.Nodup)
  (hclass : ∀ c ∈ comps, ∀ v ∈ c, ∀ w, w ∈ c ↔ related v w)
include hflatten hnodup hclass

/-- The class of a node is as large as the component that holds it. -/
theorem ncard_class {c : List κ} (hc : c ∈ comps) {v : κ} (hv : v ∈ c) :
    {w | related v w}.ncard = c.length := by
  classical
  have hset : {w | related v w} = {w | w ∈ c} := by
    ext w
    exact (hclass c hc v hv w).symm
  have hcnodup : c.Nodup := (List.nodup_flatten.mp (hflatten.nodup_iff.mpr hnodup)).1 c hc
  rw [hset, ← List.coe_toFinset, Set.ncard_coe_finset, List.toFinset_card_of_nodup hcnodup]

/-- Components count the classes of their nodes. -/
theorem length_eq_ncard (hne : ∀ c ∈ comps, c ≠ []) :
    comps.length = {s : Set κ | ∃ v ∈ all, s = {w | related v w}}.ncard := by
  classical
  have hdisjoint := (List.nodup_flatten.mp (hflatten.nodup_iff.mpr hnodup)).2
  have hsets : (comps.map fun c => {w | w ∈ c}).Nodup := by
    refine List.pairwise_map.mpr (hdisjoint.imp_of_mem fun {c c'} hc _ hapart heq => ?_)
    obtain ⟨v, hv⟩ := List.exists_mem_of_ne_nil c (hne c hc)
    exact hapart hv (heq ▸ hv : v ∈ {w | w ∈ c'})
  have himage : {s : Set κ | ∃ v ∈ all, s = {w | related v w}} =
      ↑(comps.map fun c => {w | w ∈ c}).toFinset := by
    ext s
    rw [List.coe_toFinset, Set.mem_setOf_eq, Set.mem_setOf_eq, List.mem_map]
    constructor
    · rintro ⟨v, hv, rfl⟩
      obtain ⟨c, hc, hvc⟩ := List.mem_flatten.mp (hflatten.mem_iff.mpr hv)
      refine ⟨c, hc, ?_⟩
      ext w
      exact hclass c hc v hvc w
    · rintro ⟨c, hc, rfl⟩
      obtain ⟨v, hv⟩ := List.exists_mem_of_ne_nil c (hne c hc)
      refine ⟨v, hflatten.mem_iff.mp (List.mem_flatten.mpr ⟨c, hc, hv⟩), ?_⟩
      ext w
      exact hclass c hc v hv w
  rw [himage, Set.ncard_coe_finset, List.toFinset_card_of_nodup hsets, List.length_map]

end Classes

end Components

end QueueSearch
