import Mathlib.Data.Finset.Card
import Mathlib.Data.List.Basic
import Mathlib.Data.Set.Finite.Basic
import Mathlib.Logic.Relation
import Mathlib.Order.Bounds.Defs
import Mathlib.Order.WellFounded

/-!
# Finishing orders of a graph

A finishing order lists nodes, the last one first, so that the successors of
every node were finished before it. A depth-first search that meets no node
it is still visiting produces one, and a graph with one has no cycle: every
node can be ranked above its successors. A mark that spreads from nodes to the
nodes that depend on them can be computed along such an order.
-/

universe u

namespace Dag

variable {κ : Type u} [DecidableEq κ] {succ : κ → List κ}

/-- Nodes without repetition, each after its successors; the node finished last comes first. -/
inductive Finished (succ : κ → List κ) : List κ → Prop
  | nil : Finished succ []
  | cons {v : κ} {order : List κ} (hv : v ∉ order) (hsucc : ∀ d ∈ succ v, d ∈ order)
      (horder : Finished succ order) : Finished succ (v :: order)

/-- How many nodes a node was finished after. -/
def rank : List κ → κ → Nat
  | [], _ => 0
  | v :: order, x => if x = v then order.length + 1 else rank order x

omit [DecidableEq κ] in
theorem Finished.succ_mem {order : List κ} (h : Finished succ order) {v d : κ} (hv : v ∈ order)
    (hd : d ∈ succ v) : d ∈ order := by
  induction h with
  | nil => cases hv
  | @cons w order _ hsucc _ ih =>
      rcases List.mem_cons.mp hv with rfl | hv
      · exact List.mem_cons_of_mem _ (hsucc d hd)
      · exact List.mem_cons_of_mem _ (ih hv)

theorem rank_le (order : List κ) (x : κ) : rank order x ≤ order.length := by
  induction order with
  | nil => exact Nat.le_refl 0
  | cons v order ih =>
      rw [rank, List.length_cons]
      split
      · exact Nat.le_refl _
      · exact Nat.le_trans ih (Nat.le_succ _)

/-- Every node of a finishing order ranks above its successors. -/
theorem Finished.rank_lt {order : List κ} (h : Finished succ order) {v d : κ} (hv : v ∈ order)
    (hd : d ∈ succ v) : rank order d < rank order v := by
  induction h with
  | nil => cases hv
  | @cons w order hw hsucc horder ih =>
      by_cases hvw : v = w
      · subst hvw
        have hdv : d ≠ v := fun heq => hw (heq ▸ hsucc d hd)
        rw [rank, rank, if_neg hdv, if_pos rfl]
        exact Nat.lt_succ_of_le (rank_le order d)
      · have hv' : v ∈ order := by simpa [hvw] using hv
        have hdw : d ≠ w := fun heq => hw (heq ▸ horder.succ_mem hv' hd)
        rw [rank, rank, if_neg hdw, if_neg hvw]
        exact ih hv'

omit [DecidableEq κ] in
/-- A depth-first search between two steps: the nodes it is visiting, the nodes it has met and
the nodes it has finished. -/
structure Frontier (succ : κ → List κ) (path visited order : List κ) : Prop where
  visited_iff : ∀ x, x ∈ visited ↔ x ∈ path ∨ x ∈ order
  apart : ∀ x ∈ order, x ∉ path
  finished : Finished succ order

omit [DecidableEq κ] in
theorem Frontier.nil : Frontier succ [] [] [] where
  visited_iff := by simp
  apart := by simp
  finished := .nil

omit [DecidableEq κ] in
/-- A node that was not met before is visited. -/
theorem Frontier.enter {path visited order : List κ} (h : Frontier succ path visited order)
    {v : κ} (hv : v ∉ visited) : Frontier succ (v :: path) (v :: visited) order where
  visited_iff := by
    intro x
    rw [List.mem_cons, List.mem_cons, h.visited_iff x, or_assoc]
  apart := by
    intro x hx hmem
    rcases List.mem_cons.mp hmem with rfl | hpath
    · exact hv ((h.visited_iff x).mpr (Or.inr hx))
    · exact h.apart x hx hpath
  finished := h.finished

omit [DecidableEq κ] in
/-- A node whose successors are finished is finished. -/
theorem Frontier.leave {path visited order : List κ} {v : κ}
    (h : Frontier succ (v :: path) visited order) (hv : v ∉ path)
    (hsucc : ∀ d ∈ succ v, d ∈ order) : Frontier succ path visited (v :: order) where
  visited_iff := by
    intro x
    rw [h.visited_iff x, List.mem_cons, List.mem_cons]
    constructor
    · rintro ((hx | hx) | hx)
      · exact Or.inr (Or.inl hx)
      · exact Or.inl hx
      · exact Or.inr (Or.inr hx)
    · rintro (hx | hx | hx)
      · exact Or.inl (Or.inr hx)
      · exact Or.inl (Or.inl hx)
      · exact Or.inr hx
  apart := by
    intro x hx
    rcases List.mem_cons.mp hx with rfl | hx
    · exact hv
    · exact fun hpath => h.apart x hx (List.mem_cons_of_mem _ hpath)
  finished := .cons (fun hmem => h.apart v hmem List.mem_cons_self) hsucc h.finished

/-! ## Orders with successors first -/

omit [DecidableEq κ] in
theorem Finished.nodup {order : List κ} (h : Finished succ order) : order.Nodup := by
  induction h with
  | nil => exact List.nodup_nil
  | cons hv _ _ ih => exact List.nodup_cons.mpr ⟨hv, ih⟩

omit [DecidableEq κ] in
theorem Finished.congr {succ' : κ → List κ} {order : List κ} (h : Finished succ order)
    (heq : ∀ v ∈ order, succ' v = succ v) : Finished succ' order := by
  induction h with
  | nil => exact .nil
  | @cons v order hv hsucc _ ih =>
      refine .cons hv ?_ (ih fun w hw => heq w (List.mem_cons_of_mem _ hw))
      rw [heq v List.mem_cons_self]
      exact hsucc

omit [DecidableEq κ] in
/-- Read backwards, a finishing order lists every node after its successors. -/
theorem Finished.succ_before {order before after : List κ} {v : κ}
    (h : Finished succ order.reverse) (horder : order = before ++ v :: after) :
    ∀ d ∈ succ v, d ∈ before := by
  subst horder
  rw [List.reverse_append, List.reverse_cons, List.append_assoc] at h
  have hrest : Finished succ ([v] ++ before.reverse) := by
    generalize after.reverse = later at h
    induction later with
    | nil => exact h
    | cons w later ih =>
        cases h with
        | cons _ _ h => exact ih h
  intro d hd
  cases hrest with
  | cons _ hsucc _ => exact List.mem_reverse.mp (hsucc d hd)

/-! ## Marks that spread -/

/-- The nodes from which a seed can be reached. -/
inductive Marked (dependsOn : κ → κ → Prop) (seed : κ → Prop) : κ → Prop
  | seed {v : κ} (hv : seed v) : Marked dependsOn seed v
  | spread {v d : κ} (hvd : dependsOn v d) (hd : Marked dependsOn seed d) :
      Marked dependsOn seed v

variable {dependsOn : κ → κ → Prop} {seed : κ → Prop}

omit [DecidableEq κ] in
theorem marked_iff {v : κ} :
    Marked dependsOn seed v ↔ seed v ∨ ∃ d, dependsOn v d ∧ Marked dependsOn seed d := by
  constructor
  · intro h
    cases h with
    | seed hv => exact Or.inl hv
    | spread hvd hd => exact Or.inr ⟨_, hvd, hd⟩
  · rintro (hv | ⟨d, hvd, hd⟩)
    · exact .seed hv
    · exact .spread hvd hd

omit [DecidableEq κ] in
/-- The marked nodes are the least set with the seeds that every node enters with one it depends
on. -/
theorem marked_isLeast :
    IsLeast {T : Set κ | (∀ v, seed v → v ∈ T) ∧ ∀ v d, dependsOn v d → d ∈ T → v ∈ T}
      {v | Marked dependsOn seed v} := by
  constructor
  · exact ⟨fun v hv => .seed hv, fun v d hvd hd => .spread hvd hd⟩
  · rintro T ⟨hseed, hspread⟩ v hv
    induction hv with
    | seed hv => exact hseed _ hv
    | spread hvd _ ih => exact hspread _ _ hvd ih

omit [DecidableEq κ] in
/-- A node is marked exactly when it leads to a seed. -/
theorem marked_iff_reach {v : κ} :
    Marked dependsOn seed v ↔ ∃ d, Relation.ReflTransGen dependsOn v d ∧ seed d := by
  constructor
  · intro h
    induction h with
    | seed hv => exact ⟨_, .refl, hv⟩
    | spread hvd _ ih =>
        obtain ⟨d, hreach, hd⟩ := ih
        exact ⟨d, hreach.head hvd, hd⟩
  · rintro ⟨d, hreach, hd⟩
    induction hreach using Relation.ReflTransGen.head_induction_on with
    | refl => exact .seed hd
    | head hvw _ ih => exact .spread hvw ih

/-! ## Graphs without a cycle -/

/-- No node reaches itself. -/
def Acyclic (edge : κ → κ → Prop) : Prop := ∀ v, ¬Relation.TransGen edge v v

variable {edge : κ → κ → Prop}

omit [DecidableEq κ] in
/-- Edges that lead to a higher rank close no cycle. -/
theorem acyclic_of_rank (rank : κ → Nat) (h : ∀ p n, edge p n → rank p < rank n) :
    Acyclic edge := by
  have hlt : ∀ p n, Relation.TransGen edge p n → rank p < rank n := by
    intro p n hpath
    induction hpath with
    | single hedge => exact h _ _ hedge
    | tail _ hedge ih => exact ih.trans (h _ _ hedge)
  intro v hcycle
  exact lt_irrefl _ (hlt v v hcycle)

omit [DecidableEq κ] in
theorem acyclic_swap_iff : Acyclic (fun p n => edge n p) ↔ Acyclic edge := by
  apply forall_congr'
  intro v
  exact not_congr Relation.transGen_swap

omit [DecidableEq κ] in
/-- The edges between finitely many nodes close no cycle exactly if every node can be ranked above
its successors. -/
theorem acyclic_iff_exists_rank {s : List κ} (hs : ∀ p n, edge p n → n ∈ s) :
    Acyclic edge ↔ ∃ rank : κ → Nat, ∀ p n, edge p n → rank n < rank p := by
  classical
  constructor
  · intro h
    let reached : κ → Finset κ := fun v => s.toFinset.filter fun x => Relation.TransGen edge v x
    refine ⟨fun v => (reached v).card, fun p n hedge => Finset.card_lt_card ?_⟩
    rw [Finset.ssubset_iff_of_subset]
    · refine ⟨n, ?_, ?_⟩
      · exact Finset.mem_filter.mpr ⟨List.mem_toFinset.mpr (hs p n hedge), .single hedge⟩
      · exact fun hn => h n (Finset.mem_filter.mp hn).2
    · intro x hx
      obtain ⟨hmem, hpath⟩ := Finset.mem_filter.mp hx
      exact Finset.mem_filter.mpr ⟨hmem, .head hedge hpath⟩
  · rintro ⟨rank, hrank⟩
    exact acyclic_swap_iff.mp (acyclic_of_rank rank fun p n hedge => hrank n p hedge)

omit [DecidableEq κ] in
theorem Acyclic.mono {edge' : κ → κ → Prop} (h : Acyclic edge)
    (hle : ∀ p n, edge' p n → edge p n) : Acyclic edge' := by
  intro v hcycle
  exact h v (Relation.TransGen.mono hle v v hcycle)

omit [DecidableEq κ] in
/-- A cycle leads through nodes that are on a cycle. -/
theorem cycle_within {v : κ} (h : Relation.TransGen edge v v) :
    Relation.TransGen (fun p n => edge p n ∧ Relation.TransGen edge p p ∧
      Relation.TransGen edge n n) v v := by
  have hall : ∀ x, Relation.TransGen edge v x → Relation.ReflTransGen edge x v →
      Relation.TransGen (fun p n => edge p n ∧ Relation.TransGen edge p p ∧
        Relation.TransGen edge n n) v x := by
    intro x hpath
    induction hpath with
    | single hedge =>
        intro hback
        exact .single ⟨hedge, .head' hedge hback, .tail' hback hedge⟩
    | @tail x y hpath hedge ih =>
        intro hback
        have hround : Relation.ReflTransGen edge y x := hback.trans hpath.to_reflTransGen
        exact .tail (ih (.head hedge hback)) ⟨hedge, .head' hedge hround, .tail' hround hedge⟩
  exact hall v h .refl

omit [DecidableEq κ] in
/-- Induction along the edges between finitely many nodes: a node may rely on its
predecessors. -/
theorem Acyclic.induction (h : Acyclic edge) {s : List κ} (hs : ∀ p n, edge p n → p ∈ s)
    {motive : κ → Prop} (step : ∀ n ∈ s, (∀ p, edge p n → motive p) → motive n) :
    ∀ n ∈ s, motive n := by
  let before : {n // n ∈ s} → {n // n ∈ s} → Prop := fun p n => Relation.TransGen edge p.1 n.1
  have : IsTrans {n // n ∈ s} before := ⟨fun _ _ _ hab hbc => hab.trans hbc⟩
  have : Std.Irrefl before := ⟨fun n hcycle => h n.1 hcycle⟩
  have : Finite {n // n ∈ s} := s.finite_toSet.to_subtype
  have hwf : WellFounded before := Finite.wellFounded_of_trans_of_irrefl before
  have hall : ∀ n : {n // n ∈ s}, motive n.1 := by
    intro n
    induction n using hwf.induction with
    | _ n ih =>
        apply step n.1 n.2
        intro p hedge
        exact ih ⟨p, hs p n.1 hedge⟩ (.single hedge)
  exact fun n hn => hall ⟨n, hn⟩

end Dag
