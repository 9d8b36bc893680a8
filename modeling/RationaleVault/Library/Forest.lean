import Mathlib.Algebra.BigOperators.Group.List.Basic
import Mathlib.Algebra.GroupWithZero.Nat
import Mathlib.Data.List.Basic
import Mathlib.Data.List.Chain
import Mathlib.Data.List.Nodup
import Mathlib.Data.Prod.Lex
import Mathlib.Logic.Relation
import Mathlib.Order.Basic
import RationaleVault.Library.Table

/-!
# Depth-first search

A search with an explicit stack keeps for every frame the neighbors that it has not looked at. Only
the listed nodes have neighbors. A step meets a new node with neighbors, or it leaves less to look at
in the frames.

A depth-first search enters every node with the path that leads to it. In the order of entry
every node is followed by the nodes below it, and an edge that leaves the nodes below leads to a
node that was entered before. So the first node of a strong component has the rest of the component
below it, and every cycle is met by an edge back to the path.
-/

universe u

namespace DepthFirst

variable {κ : Type u} [DecidableEq κ]

/-- How many of the nodes with neighbors the search has not met. -/
def unmet (nodes visited : List κ) : Nat := nodes.countP fun v => v ∉ visited

/-- The steps that the frames have left when nothing is entered: a neighbor counts twice, because
a frame that is opened for it has to be closed. -/
def work (frames : List (List κ)) : Nat := (frames.map fun l => 2 * l.length + 1).sum

variable {nodes visited rest next : List κ} {frames : List (List κ)} {v : κ}

theorem unmet_cons_le : unmet nodes (v :: visited) ≤ unmet nodes visited := by
  apply List.countP_mono_left
  intro w _ hw
  simp only [List.mem_cons, not_or, decide_eq_true_eq] at hw ⊢
  exact hw.2

theorem unmet_cons_lt (hnode : v ∈ nodes) (hv : v ∉ visited) :
    unmet nodes (v :: visited) < unmet nodes visited := by
  induction nodes with
  | nil => cases hnode
  | cons w nodes ih =>
      have hle : unmet nodes (v :: visited) ≤ unmet nodes visited := unmet_cons_le
      unfold unmet at hle ih ⊢
      rw [List.countP_cons, List.countP_cons]
      by_cases hw : v = w
      · subst hw
        rw [if_neg (by simp), if_pos (by simpa using hv)]
        omega
      · have hnode' : v ∈ nodes := by simpa [hw] using hnode
        have hsame : w ∉ v :: visited ↔ w ∉ visited := by simp [Ne.symm hw]
        simp only [hsame]
        exact Nat.add_lt_add_right (ih hnode') _

/-- Opening a frame for a new node. -/
theorem enter_lt (hv : v ∉ visited) (hnext : v ∉ nodes → next = []) :
    Prod.Lex (· < ·) (· < ·) (unmet nodes (v :: visited), work (next :: rest :: frames))
      (unmet nodes visited, work ((v :: rest) :: frames)) := by
  by_cases hnode : v ∈ nodes
  · exact Prod.Lex.left _ _ (unmet_cons_lt hnode hv)
  · have hwork : work (next :: rest :: frames) < work ((v :: rest) :: frames) := by
      rw [hnext hnode]
      simp only [work, List.map_cons, List.sum_cons, List.length_cons, List.length_nil]
      omega
    have hle : unmet nodes (v :: visited) ≤ unmet nodes visited := unmet_cons_le
    obtain hlt | heq := Nat.lt_or_eq_of_le hle
    · exact Prod.Lex.left _ _ hlt
    · rw [heq]
      exact Prod.Lex.right _ hwork

omit [DecidableEq κ] in
/-- Passing over a neighbor. -/
theorem skip_lt : work (rest :: frames) < work ((v :: rest) :: frames) := by
  simp only [work, List.map_cons, List.sum_cons, List.length_cons]
  omega

omit [DecidableEq κ] in
/-- Closing a frame. -/
theorem leave_lt : work frames < work ([] :: frames) := by
  simp only [work, List.map_cons, List.sum_cons, List.length_nil]
  omega

end DepthFirst

/-! ## Depth-first forests -/

namespace DepthFirst

variable {κ : Type u} {succ : κ → List κ}

/-- The nodes of a forest in the order of entry. -/
def nodes (F : List (κ × List κ)) : List κ := F.map Prod.fst

/-- What is visited after a search, the node entered last first. -/
def entered (F : List (κ × List κ)) (visited : List κ) : List κ := (nodes F).reverse ++ visited

/-- A depth-first search below the nodes of `path`, the innermost first, with `todo` to look at. It
enters nodes together with the paths that lead to them. -/
inductive Forest (succ : κ → List κ) :
    (path todo visited : List κ) → List (κ × List κ) → Prop
  | done {path visited : List κ} : Forest succ path [] visited []
  | skip {path rest visited : List κ} {v : κ} {F : List (κ × List κ)} (hv : v ∈ visited)
      (h : Forest succ path rest visited F) : Forest succ path (v :: rest) visited F
  | enter {path rest visited : List κ} {v : κ} {below after : List (κ × List κ)}
      (hv : v ∉ visited) (hbelow : Forest succ (v :: path) (succ v) (v :: visited) below)
      (hafter : Forest succ path rest (entered below (v :: visited)) after) :
      Forest succ path (v :: rest) visited ((v, path) :: (below ++ after))

variable {path todo visited : List κ} {F : List (κ × List κ)} {v w r : κ} {p : List κ}

@[simp] theorem nodes_nil : nodes ([] : List (κ × List κ)) = [] := rfl

@[simp] theorem nodes_cons (e : κ × List κ) (F : List (κ × List κ)) :
    nodes (e :: F) = e.1 :: nodes F := rfl

@[simp] theorem nodes_append (F F' : List (κ × List κ)) :
    nodes (F ++ F') = nodes F ++ nodes F' := List.map_append

theorem mem_nodes (h : (v, p) ∈ F) : v ∈ nodes F := List.mem_map_of_mem h

@[simp] theorem mem_entered : v ∈ entered F visited ↔ v ∈ nodes F ∨ v ∈ visited := by
  simp [entered]

/-- One node was entered before another. -/
def Before (F : List (κ × List κ)) (x v : κ) : Prop := [x, v].Sublist (nodes F)

section Before

variable {below after : List (κ × List κ)} {e : κ × List κ} {x : κ}

theorem Before.inBelow (h : Before below x v) : Before (e :: (below ++ after)) x v := by
  unfold Before at h ⊢
  rw [nodes_cons, nodes_append]
  exact (h.trans (List.sublist_append_left _ _)).cons _

theorem Before.inAfter (h : Before after x v) : Before (e :: (below ++ after)) x v := by
  unfold Before at h ⊢
  rw [nodes_cons, nodes_append]
  exact (h.trans (List.sublist_append_right _ _)).cons _

theorem Before.head (h : v ∈ nodes below ++ nodes after) :
    Before (e :: (below ++ after)) e.1 v := by
  unfold Before
  rw [nodes_cons, nodes_append]
  exact (List.singleton_sublist.mpr h).cons_cons _

theorem Before.across (hx : x ∈ nodes below) (hv : v ∈ nodes after) :
    Before (e :: (below ++ after)) x v := by
  unfold Before
  rw [nodes_cons, nodes_append]
  exact ((List.singleton_sublist.mpr hx).append (List.singleton_sublist.mpr hv)).cons _

end Before

namespace Forest

/-! ## What is entered -/

theorem fresh (h : Forest succ path todo visited F) : ∀ x ∈ nodes F, x ∉ visited := by
  induction h with
  | done => simp
  | skip _ _ ih => exact ih
  | enter hv _ _ ihbelow ihafter =>
      intro x hx
      rw [nodes_cons, nodes_append, List.mem_cons, List.mem_append] at hx
      rcases hx with rfl | hx | hx
      · exact hv
      · exact fun hmem => ihbelow x hx (List.mem_cons_of_mem _ hmem)
      · exact fun hmem => ihafter x hx
          (mem_entered.mpr (.inr (List.mem_cons_of_mem _ hmem)))

theorem nodup (h : Forest succ path todo visited F) : (nodes F).Nodup := by
  induction h with
  | done => exact List.nodup_nil
  | skip _ _ ih => exact ih
  | enter hv hbelow hafter ihbelow ihafter =>
      rw [nodes_cons, nodes_append, List.nodup_cons, List.mem_append, not_or, List.nodup_append]
      refine ⟨⟨fun hmem => ?_, fun hmem => ?_⟩, ihbelow, ihafter, fun x hx y hy heq => ?_⟩
      · exact hbelow.fresh _ hmem List.mem_cons_self
      · exact hafter.fresh _ hmem (mem_entered.mpr (.inr List.mem_cons_self))
      · exact hafter.fresh y hy (mem_entered.mpr (.inl (heq ▸ hx)))

/-- What the search has to look at is visited in the end. -/
theorem todo_entered (h : Forest succ path todo visited F) :
    ∀ w ∈ todo, w ∈ visited ∨ w ∈ nodes F := by
  induction h with
  | done => simp
  | skip hv _ ih =>
      intro w hw
      rcases List.mem_cons.mp hw with rfl | hw
      · exact .inl hv
      · exact ih w hw
  | enter hv _ _ _ ihafter =>
      intro w hw
      rw [nodes_cons, nodes_append, List.mem_cons, List.mem_append]
      rcases List.mem_cons.mp hw with rfl | hw
      · exact .inr (.inl rfl)
      · rcases ihafter w hw with hmem | hmem
        · rcases mem_entered.mp hmem with hbelow | hold
          · exact .inr (.inr (.inl hbelow))
          · rcases List.mem_cons.mp hold with rfl | hold
            · exact .inr (.inl rfl)
            · exact .inl hold
        · exact .inr (.inr (.inr hmem))

/-- The successors of an entered node are visited. -/
theorem succ_entered (h : Forest succ path todo visited F) :
    ∀ x ∈ nodes F, ∀ w ∈ succ x, w ∈ visited ∨ w ∈ nodes F := by
  induction h with
  | done => simp
  | skip _ _ ih => exact ih
  | @enter path rest visited v below after hv hbelow hafter ihbelow ihafter =>
      intro x hx w hw
      rw [nodes_cons, nodes_append, List.mem_cons, List.mem_append] at hx ⊢
      have hlift : w ∈ v :: visited ∨ w ∈ nodes below →
          w ∈ visited ∨ w = v ∨ w ∈ nodes below ∨ w ∈ nodes after := by
        rintro (hmem | hmem)
        · rcases List.mem_cons.mp hmem with heq | hmem
          · exact .inr (.inl heq)
          · exact .inl hmem
        · exact .inr (.inr (.inl hmem))
      rcases hx with rfl | hx | hx
      · exact hlift (hbelow.todo_entered w hw)
      · exact hlift (ihbelow x hx w hw)
      · rcases ihafter x hx w hw with hmem | hmem
        · exact hlift (mem_entered.mp hmem).symm
        · exact .inr (.inr (.inr hmem))

/-! ## Paths -/

/-- The path of a node goes on from the path of the search, through entered nodes. -/
theorem path_eq (h : Forest succ path todo visited F) :
    ∀ v p, (v, p) ∈ F → ∃ q, p = q ++ path ∧ ∀ x ∈ q, x ∈ nodes F := by
  induction h with
  | done => simp
  | skip _ _ ih => exact ih
  | @enter path rest visited u below after hv hbelow hafter ihbelow ihafter =>
      intro v p hmem
      rw [List.mem_cons, List.mem_append] at hmem
      rcases hmem with heq | hmem | hmem
      · obtain ⟨rfl, rfl⟩ := Prod.mk.inj heq
        exact ⟨[], rfl, by simp⟩
      · obtain ⟨q, rfl, hq⟩ := ihbelow v p hmem
        refine ⟨q ++ [u], by simp, fun x hx => ?_⟩
        rw [nodes_cons, nodes_append, List.mem_cons, List.mem_append]
        rcases List.mem_append.mp hx with hx | hx
        · exact .inr (.inl (hq x hx))
        · exact .inl (List.mem_singleton.mp hx)
      · obtain ⟨q, rfl, hq⟩ := ihafter v p hmem
        refine ⟨q, rfl, fun x hx => ?_⟩
        rw [nodes_cons, nodes_append, List.mem_cons, List.mem_append]
        exact .inr (.inr (hq x hx))

/-- A node and its path are distinct nodes. -/
theorem path_nodup (h : Forest succ path todo visited F) (hpath : path.Nodup)
    (hsub : ∀ x ∈ path, x ∈ visited) : ∀ v p, (v, p) ∈ F → (v :: p).Nodup := by
  induction h with
  | done => simp
  | skip _ _ ih => exact ih hpath hsub
  | @enter path rest visited u below after hv hbelow hafter ihbelow ihafter =>
      have hcons : (u :: path).Nodup := List.nodup_cons.mpr ⟨fun hmem => hv (hsub u hmem), hpath⟩
      intro v p hmem
      rw [List.mem_cons, List.mem_append] at hmem
      rcases hmem with heq | hmem | hmem
      · obtain ⟨rfl, rfl⟩ := Prod.mk.inj heq
        exact hcons
      · apply ihbelow hcons _ v p hmem
        intro x hx
        rcases List.mem_cons.mp hx with rfl | hx
        · exact List.mem_cons_self
        · exact List.mem_cons_of_mem _ (hsub x hx)
      · apply ihafter hpath _ v p hmem
        exact fun x hx => mem_entered.mpr (.inr (List.mem_cons_of_mem _ (hsub x hx)))

/-- Paths follow the edges, from the innermost node outwards. -/
theorem path_isChain (h : Forest succ path todo visited F)
    (hpath : path.IsChain fun x y => x ∈ succ y) (htodo : ∀ y ∈ path.head?, todo ⊆ succ y) :
    ∀ v p, (v, p) ∈ F → (v :: p).IsChain fun x y => x ∈ succ y := by
  induction h with
  | done => simp
  | skip _ _ ih =>
      exact ih hpath fun y hy w hw => htodo y hy (List.mem_cons_of_mem _ hw)
  | @enter path rest visited u below after hv hbelow hafter ihbelow ihafter =>
      have hcons : (u :: path).IsChain fun x y => x ∈ succ y := by
        cases path with
        | nil => exact .singleton u
        | cons y path => exact .cons_cons (htodo y rfl List.mem_cons_self) hpath
      intro v p hmem
      rw [List.mem_cons, List.mem_append] at hmem
      rcases hmem with heq | hmem | hmem
      · obtain ⟨rfl, rfl⟩ := Prod.mk.inj heq
        exact hcons
      · apply ihbelow hcons _ v p hmem
        rintro y hy w hw
        obtain rfl : u = y := by simpa using hy
        exact hw
      · exact ihafter hpath (fun y hy w hw => htodo y hy (List.mem_cons_of_mem _ hw)) v p hmem

/-- The nodes of a path were entered before. -/
theorem path_before (h : Forest succ path todo visited F) (hsub : ∀ x ∈ path, x ∈ visited) :
    ∀ v p, (v, p) ∈ F → ∀ x ∈ p, x ∈ visited ∨ Before F x v := by
  induction h with
  | done => simp
  | skip _ _ ih => exact ih hsub
  | @enter path rest visited u below after hv hbelow hafter ihbelow ihafter =>
      intro v p hmem x hx
      rw [List.mem_cons, List.mem_append] at hmem
      rcases hmem with heq | hmem | hmem
      · obtain ⟨rfl, rfl⟩ := Prod.mk.inj heq
        exact .inl (hsub x hx)
      · have hpath : ∀ x ∈ u :: path, x ∈ u :: visited :=
          fun x hx => (List.mem_cons.mp hx).elim (· ▸ List.mem_cons_self)
            fun hx => List.mem_cons_of_mem _ (hsub x hx)
        rcases ihbelow hpath v p hmem x hx with hold | hbefore
        · rcases List.mem_cons.mp hold with rfl | hold
          · exact .inr (Before.head (List.mem_append_left _ (mem_nodes hmem)))
          · exact .inl hold
        · exact .inr hbefore.inBelow
      · have hpath : ∀ x ∈ path, x ∈ entered below (u :: visited) :=
          fun x hx => mem_entered.mpr (.inr (List.mem_cons_of_mem _ (hsub x hx)))
        rcases ihafter hpath v p hmem x hx with hold | hbefore
        · rcases mem_entered.mp hold with hold | hold
          · exact .inr (Before.across hold (mem_nodes hmem))
          · rcases List.mem_cons.mp hold with rfl | hold
            · exact .inr (Before.head (List.mem_append_right _ (mem_nodes hmem)))
            · exact .inl hold
        · exact .inr hbefore.inAfter

/-- An edge from below a node leads to what was entered before it, to the node, or below it. -/
theorem succ_below (h : Forest succ path todo visited F) (hsub : ∀ x ∈ path, x ∈ visited)
    {r : κ} (hr : r ∈ nodes F) : ∀ x p, (x, p) ∈ F → r ∈ x :: p → ∀ w ∈ succ x,
      w ∈ visited ∨ Before F w r ∨ w = r ∨ ∃ q, (w, q) ∈ F ∧ r ∈ q := by
  induction h with
  | done => simp at hr
  | skip _ _ ih => exact ih hsub hr
  | @enter path rest visited u below after hv hbelow hafter ihbelow ihafter =>
      have hsubbelow : ∀ x ∈ u :: path, x ∈ u :: visited :=
        fun x hx => (List.mem_cons.mp hx).elim (· ▸ List.mem_cons_self)
          fun hx => List.mem_cons_of_mem _ (hsub x hx)
      have hsubafter : ∀ x ∈ path, x ∈ entered below (u :: visited) :=
        fun x hx => mem_entered.mpr (.inr (List.mem_cons_of_mem _ (hsub x hx)))
      have hfresh := (Forest.enter hv hbelow hafter).fresh
      have hnodup := (Forest.enter hv hbelow hafter).nodup
      rw [nodes_cons, nodes_append] at hfresh hnodup hr
      obtain ⟨hu, hparts⟩ := List.nodup_cons.mp hnodup
      obtain ⟨_, _, hapart⟩ := List.nodup_append.mp hparts
      have hrpath : r ∉ path := fun hmem => hfresh r hr (hsub r hmem)
      intro x p hmem hrx w hw
      rw [List.mem_cons, List.mem_append] at hmem
      -- where the node `r` was entered, and where the node `x` below it
      rcases List.mem_cons.mp hr with rfl | hr'
      · have hlift : w ∈ r :: visited ∨ w ∈ nodes below →
            w ∈ visited ∨ Before ((r, path) :: (below ++ after)) w r ∨ w = r ∨
              ∃ q, (w, q) ∈ (r, path) :: (below ++ after) ∧ r ∈ q := by
          rintro (hold | hnew)
          · rcases List.mem_cons.mp hold with heq | hold
            · exact .inr (.inr (.inl heq))
            · exact .inl hold
          · obtain ⟨⟨_, q⟩, hq, rfl⟩ := List.mem_map.mp hnew
            obtain ⟨q', rfl, _⟩ := hbelow.path_eq _ _ hq
            exact .inr (.inr (.inr ⟨_, List.mem_cons_of_mem _ (List.mem_append_left _ hq), by simp⟩))
        rcases hmem with heq | hmem | hmem
        · obtain ⟨rfl, rfl⟩ := Prod.mk.inj heq
          exact hlift (hbelow.todo_entered w hw)
        · exact hlift (hbelow.succ_entered x (mem_nodes hmem) w hw)
        · obtain ⟨q, rfl, hq⟩ := hafter.path_eq _ _ hmem
          refine absurd ?_ hu
          rcases List.mem_cons.mp hrx with rfl | hrx
          · exact List.mem_append_right _ (mem_nodes hmem)
          · rcases List.mem_append.mp hrx with hrx | hrx
            · exact List.mem_append_right _ (hq r hrx)
            · exact absurd hrx hrpath
      · have hru : r ≠ u := fun heq => hu (heq ▸ hr')
        rcases List.mem_append.mp hr' with hrbelow | hrafter
        · rcases hmem with heq | hmem | hmem
          · obtain ⟨rfl, rfl⟩ := Prod.mk.inj heq
            rcases List.mem_cons.mp hrx with heq | hrx
            · exact absurd heq hru
            · exact absurd hrx hrpath
          · rcases ihbelow hsubbelow hrbelow x p hmem hrx w hw with
              hold | hbefore | heq | ⟨q, hq, hrq⟩
            · rcases List.mem_cons.mp hold with rfl | hold
              · exact .inr (.inl (Before.head hr'))
              · exact .inl hold
            · exact .inr (.inl hbefore.inBelow)
            · exact .inr (.inr (.inl heq))
            · exact .inr (.inr (.inr
                ⟨q, List.mem_cons_of_mem _ (List.mem_append_left _ hq), hrq⟩))
          · obtain ⟨q, rfl, hq⟩ := hafter.path_eq _ _ hmem
            rcases List.mem_cons.mp hrx with rfl | hrx
            · exact absurd rfl (hapart r hrbelow r (mem_nodes hmem))
            · rcases List.mem_append.mp hrx with hrx | hrx
              · exact absurd rfl (hapart r hrbelow r (hq r hrx))
              · exact absurd hrx hrpath
        · rcases hmem with heq | hmem | hmem
          · obtain ⟨rfl, rfl⟩ := Prod.mk.inj heq
            rcases List.mem_cons.mp hrx with heq | hrx
            · exact absurd heq hru
            · exact absurd hrx hrpath
          · obtain ⟨q, rfl, hq⟩ := hbelow.path_eq _ _ hmem
            rcases List.mem_cons.mp hrx with rfl | hrx
            · exact absurd rfl (hapart r (mem_nodes hmem) r hrafter)
            · rcases List.mem_append.mp hrx with hrx | hrx
              · exact absurd rfl (hapart r (hq r hrx) r hrafter)
              · rcases List.mem_cons.mp hrx with heq | hrx
                · exact absurd heq hru
                · exact absurd hrx hrpath
          · rcases ihafter hsubafter hrafter x p hmem hrx w hw with
              hold | hbefore | heq | ⟨q, hq, hrq⟩
            · rcases mem_entered.mp hold with hold | hold
              · exact .inr (.inl (Before.across hold hrafter))
              · rcases List.mem_cons.mp hold with rfl | hold
                · exact .inr (.inl (Before.head hr'))
                · exact .inl hold
            · exact .inr (.inl hbefore.inAfter)
            · exact .inr (.inr (.inl heq))
            · exact .inr (.inr (.inr
                ⟨q, List.mem_cons_of_mem _ (List.mem_append_right _ hq), hrq⟩))

/-- A path is made of entries: what follows a node on it is the path of that node. -/
theorem suffix_mem (h : Forest succ path todo visited F) :
    ∀ v p, (v, p) ∈ F → ∀ a x b, v :: p = a ++ x :: b → path.length ≤ b.length → (x, b) ∈ F := by
  induction h with
  | done =>
      intro v p hmem
      cases hmem
  | skip _ _ ih => exact ih
  | @enter path rest visited u below after hv hbelow hafter ihbelow ihafter =>
      intro v p hmem a x b heq hlength
      have hhead : ∀ a : List κ, u :: path = a ++ x :: b → (x, b) = (u, path) := by
        intro a ha
        cases a with
        | nil =>
            obtain ⟨rfl, rfl⟩ := List.cons.inj ha
            rfl
        | cons y a =>
            have hlen : path.length = (a ++ x :: b).length :=
              congrArg List.length (List.cons.inj ha).2
            rw [List.length_append, List.length_cons] at hlen
            omega
      rw [List.mem_cons, List.mem_append] at hmem ⊢
      rcases hmem with hroot | hmem | hmem
      · obtain ⟨rfl, rfl⟩ := Prod.mk.inj hroot
        exact .inl (hhead a heq)
      · by_cases hlong : (u :: path).length ≤ b.length
        · exact .inr (.inl (ihbelow v p hmem a x b heq hlong))
        · obtain ⟨q, rfl, _⟩ := hbelow.path_eq v p hmem
          have hb : b = path := by
            have hend : (a ++ [x]) ++ b = (v :: q ++ [u]) ++ path := by simpa using heq.symm
            have hlen : b.length = path.length := by
              rw [List.length_cons] at hlong
              omega
            exact (List.append_inj' hend hlen).2
          subst hb
          have hx : x = u := by
            have hend : a ++ x :: b = (v :: q) ++ u :: b := by simpa using heq.symm
            exact (List.cons.inj (List.append_inj' hend (by simp)).2).1
          exact .inl (by rw [hx])
      · exact .inr (.inr (ihafter v p hmem a x b heq hlength))

/-- There is one forest. -/
theorem unique {F' : List (κ × List κ)} (h : Forest succ path todo visited F)
    (h' : Forest succ path todo visited F') : F = F' := by
  induction h generalizing F' with
  | done =>
      cases h'
      rfl
  | skip hv _ ih =>
      cases h' with
      | skip _ h' => exact ih h'
      | enter hv' => exact absurd hv hv'
  | enter hv _ _ ihbelow ihafter =>
      cases h' with
      | skip hv' => exact absurd hv' hv
      | enter _ hbelow' hafter' =>
          obtain rfl := ihbelow hbelow'
          obtain rfl := ihafter hafter'
          rfl

end Forest

/-- A search in which finitely many nodes have successors ends. -/
theorem exists_forest [DecidableEq κ] {keys : List κ} (hkeys : ∀ v, v ∉ keys → succ v = [])
    (path todo visited : List κ) : ∃ F, Forest succ path todo visited F := by
  -- by the nodes that were not met, then by what there is to look at
  induction hn : unmet keys visited using Nat.strong_induction_on
    generalizing path todo visited with
  | _ n ihunmet =>
      induction todo generalizing visited with
      | nil => exact ⟨[], .done⟩
      | cons v rest ihtodo =>
          have hrest : ∀ visited', unmet keys visited' ≤ n →
              ∃ F, Forest succ path rest visited' F := by
            intro visited' hle
            rcases Nat.lt_or_eq_of_le hle with hlt | heq
            · exact ihunmet _ hlt path rest visited' rfl
            · exact ihtodo visited' heq
          by_cases hv : v ∈ visited
          · obtain ⟨F, hF⟩ := hrest visited hn.le
            exact ⟨F, .skip hv hF⟩
          · have hbelow : ∃ F, Forest succ (v :: path) (succ v) (v :: visited) F := by
              by_cases hkey : v ∈ keys
              · exact ihunmet _ (hn ▸ unmet_cons_lt hkey hv) _ _ _ rfl
              · rw [hkeys v hkey]
                exact ⟨[], .done⟩
            obtain ⟨below, hbelow⟩ := hbelow
            have hle : unmet keys (entered below (v :: visited)) ≤ n := by
              rw [← hn]
              apply List.countP_mono_left
              intro x _ hx
              simp only [mem_entered, List.mem_cons, not_or, decide_eq_true_eq] at hx ⊢
              exact hx.2.2
            obtain ⟨after, hafter⟩ := hrest _ hle
            exact ⟨_, .enter hv hbelow hafter⟩

/-! ## Strong components -/

/-- An edge. -/
def Edge (succ : κ → List κ) (x y : κ) : Prop := y ∈ succ x

/-- Two nodes of one strong component. -/
def Same (succ : κ → List κ) (x y : κ) : Prop :=
  Relation.ReflTransGen (Edge succ) x y ∧ Relation.ReflTransGen (Edge succ) y x

theorem Same.symm {x y : κ} (h : Same succ x y) : Same succ y x := ⟨h.2, h.1⟩

theorem Same.trans {x y z : κ} (h : Same succ x y) (h' : Same succ y z) : Same succ x z :=
  ⟨h.1.trans h'.1, h'.2.trans h.2⟩

/-- A node that was entered before all others of its strong component. -/
structure EntersFirst (succ : κ → List κ) (F : List (κ × List κ)) (r : κ) : Prop where
  mem : r ∈ nodes F
  first : ∀ x, Same succ x r → ¬Before F x r

theorem exists_first {P : κ → Prop} {l : List κ} (h : ∃ x ∈ l, P x) :
    ∃ a x b, l = a ++ x :: b ∧ P x ∧ ∀ y ∈ a, ¬P y := by
  induction l with
  | nil => simp at h
  | cons y rest ih =>
      by_cases hy : P y
      · exact ⟨[], y, rest, rfl, hy, by simp⟩
      · have hrest : ∃ x ∈ rest, P x := by simpa [hy] using h
        obtain ⟨a, x, b, rfl, hx, ha⟩ := ih hrest
        exact ⟨y :: a, x, b, rfl, hx, List.forall_mem_cons.mpr ⟨hy, ha⟩⟩

namespace Forest

section Search

variable {roots : List κ} (h : Forest succ [] roots [] F)
include h

theorem before_of_mem (hv : (v, p) ∈ F) {x : κ} (hx : x ∈ p) : Before F x v :=
  (h.path_before (by simp) v p hv x hx).resolve_left (by simp)

theorem not_before_self : ¬Before F v v := by
  intro hbefore
  have hdouble := List.nodup_iff_sublist.mp h.nodup v
  exact hdouble hbefore

theorem not_before {x : κ} (hx : Before F x v) : ¬Before F v x :=
  fun hv => Table.not_pair_sublist_swap h.nodup hx hv

theorem path_unique {p' : List κ} (hv : (v, p) ∈ F) (hv' : (v, p') ∈ F) : p = p' := by
  have heq := List.inj_on_of_nodup_map h.nodup hv hv' rfl
  exact (Prod.mk.inj heq).2

theorem suffix_of_mem (hv : (v, p) ∈ F) {a b : List κ} {x : κ} (heq : v :: p = a ++ x :: b) :
    (x, b) ∈ F :=
  h.suffix_mem v p hv a x b heq (Nat.zero_le _)

theorem nodup_of_mem (hv : (v, p) ∈ F) : (v :: p).Nodup :=
  h.path_nodup List.nodup_nil (by simp) v p hv

theorem isChain_of_mem (hv : (v, p) ∈ F) : (v :: p).IsChain fun x y => x ∈ succ y :=
  h.path_isChain .nil (by simp) v p hv

/-- The first node of a strong component has the others below it. -/
theorem below_first (hr : EntersFirst succ F r) (hv : Same succ r v) :
    ∃ p, (v, p) ∈ F ∧ r ∈ v :: p := by
  obtain ⟨hforth, hback⟩ := hv
  induction hforth with
  | refl =>
      obtain ⟨⟨_, p⟩, hp, rfl⟩ := List.mem_map.mp hr.mem
      exact ⟨p, hp, List.mem_cons_self⟩
  | @tail x w hpath hedge ih =>
      obtain ⟨p, hp, hrp⟩ := ih (.head hedge hback)
      have hsame : Same succ w r := ⟨hback, hpath.tail hedge⟩
      rcases h.succ_below (by simp) hr.mem x p hp hrp w hedge with
        hvisited | hbefore | rfl | ⟨q, hq, hrq⟩
      · cases hvisited
      · exact absurd hbefore (hr.first w hsame)
      · obtain ⟨⟨_, q⟩, hq, rfl⟩ := List.mem_map.mp hr.mem
        exact ⟨q, hq, List.mem_cons_self⟩
      · exact ⟨q, hq, List.mem_cons_of_mem _ hrq⟩

/-- What was entered before a node stands before it. -/
theorem mem_of_before {s t : List κ} {x : κ} (hsplit : nodes F = s ++ v :: t)
    (hx : Before F x v) : x ∈ s := by
  have hmem : x ∈ nodes F := hx.subset (by simp)
  rw [hsplit, List.mem_append, List.mem_cons] at hmem
  rcases hmem with hs | rfl | ht
  · exact hs
  · exact absurd hx h.not_before_self
  · have hpair : [v, x].Sublist (v :: t) := (List.singleton_sublist.mpr ht).cons_cons v
    refine absurd ?_ (h.not_before hx)
    unfold Before
    rw [hsplit]
    exact hpair.trans (List.sublist_append_right s _)

/-- Every strong component has a first node. -/
theorem exists_entersFirst (hv : v ∈ nodes F) : ∃ r, EntersFirst succ F r ∧ Same succ r v := by
  obtain ⟨s, r, t, hsplit, hr, hs⟩ :=
    exists_first (P := fun x => Same succ x v) ⟨v, hv, .refl, .refl⟩
  refine ⟨r, ⟨by simp [hsplit], fun x hx hbefore => ?_⟩, hr⟩
  exact hs x (h.mem_of_before hsplit hbefore) (hx.trans hr)

end Search

end Forest

end DepthFirst
