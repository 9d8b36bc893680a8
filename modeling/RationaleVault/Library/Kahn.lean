import Mathlib.Algebra.BigOperators.Group.Finset.Basic
import Mathlib.Algebra.Order.BigOperators.Group.Finset
import Mathlib.Data.Fintype.EquivFin
import Mathlib.Logic.Relation
import Mathlib.Order.WellFounded
import RationaleVault.Library.Dag
import RationaleVault.Library.Table

/-!
# Kahn's algorithm

The least node of the queue is taken out and its edges are removed; a node whose
last incoming edge goes is queued. Every round uses up a queued node or an edge, so
the number of both bounds the rounds. The nodes come out after their predecessors, all of
them exactly when the graph has no cycle. A queue sorted in every round gives them one order
however the edges are listed.
-/

universe u

namespace Kahn

variable {κ : Type u} [LinearOrder κ]

/-- Remove one edge into a node. -/
def relax (s : (κ → Int) × List κ) (n : κ) : (κ → Int) × List κ :=
  let inDegree := Function.update s.1 n (s.1 n - 1)
  (inDegree, if inDegree n = 0 then s.2 ++ [n] else s.2)

/-- The rounds of the algorithm and the order in which it takes the nodes. -/
def loop (adj : κ → List κ) : (fuel : Nat) → (κ → Int) → List κ → List κ → List κ
  | 0, _, _, order => order
  | fuel + 1, inDegree, queue, order =>
      match Table.orderBy id queue with
      | [] => order
      | curr :: rest =>
          let s := (adj curr).foldl relax (inDegree, rest)
          loop adj fuel s.1 s.2 (order ++ [curr])

/-- The rounds with a queue that is arranged in another way before a node is taken out. -/
def loopWith (arrange : List κ → List κ) (adj : κ → List κ) :
    (fuel : Nat) → (κ → Int) → List κ → List κ → List κ
  | 0, _, _, order => order
  | fuel + 1, inDegree, queue, order =>
      match arrange queue with
      | [] => order
      | curr :: rest =>
          let s := (adj curr).foldl relax (inDegree, rest)
          loopWith arrange adj fuel s.1 s.2 (order ++ [curr])

theorem loop_eq_loopWith (adj : κ → List κ) (fuel : Nat) (inDegree : κ → Int)
    (queue order : List κ) :
    loop adj fuel inDegree queue order =
      loopWith (Table.orderBy id) adj fuel inDegree queue order := by
  induction fuel generalizing inDegree queue order with
  | zero => rfl
  | succ fuel ih =>
      rw [loop, loopWith]
      cases Table.orderBy id queue with
      | nil => rfl
      | cons curr rest => exact ih _ _ _

/-- Queued nodes and edges that are left. -/
def pending (nodes : Finset κ) (inDegree : κ → Int) (queue : List κ) : Nat :=
  queue.length + nodes.sum fun n => (inDegree n).toNat

theorem pending_relax {nodes : Finset κ} {n : κ} (hn : n ∈ nodes) (s : (κ → Int) × List κ) :
    pending nodes (relax s n).1 (relax s n).2 ≤ pending nodes s.1 s.2 := by
  have hother : (nodes.erase n).sum (fun m => (Function.update s.1 n (s.1 n - 1) m).toNat) =
      (nodes.erase n).sum fun m => (s.1 m).toNat := by
    apply Finset.sum_congr rfl
    intro m hm
    rw [Function.update_of_ne (Finset.ne_of_mem_erase hm)]
  have hsplit : ∀ f : κ → Nat, nodes.sum f = f n + (nodes.erase n).sum f := fun f =>
    (Finset.add_sum_erase nodes f hn).symm
  simp only [pending, relax, hsplit, hother, Function.update_self]
  -- the node is queued only when its last edge goes
  by_cases hlast : s.1 n - 1 = 0
  · rw [if_pos hlast, List.length_append, List.length_singleton]
    omega
  · rw [if_neg hlast]
    omega

theorem pending_foldl {nodes : Finset κ} {targets : List κ} (h : ∀ n ∈ targets, n ∈ nodes)
    (s : (κ → Int) × List κ) :
    pending nodes (targets.foldl relax s).1 (targets.foldl relax s).2 ≤ pending nodes s.1 s.2 := by
  induction targets generalizing s with
  | nil => exact le_rfl
  | cons n rest ih =>
      calc pending nodes (rest.foldl relax (relax s n)).1 (rest.foldl relax (relax s n)).2
          ≤ pending nodes (relax s n).1 (relax s n).2 :=
            ih (fun m hm => h m (List.mem_cons_of_mem _ hm)) _
        _ ≤ pending nodes s.1 s.2 := pending_relax (h n List.mem_cons_self) s

/-- The loop stops by itself within as many rounds as there are nodes and edges left. -/
theorem loopWith_of_le {arrange : List κ → List κ} (harrange : ∀ q, (arrange q).Perm q)
    {adj : κ → List κ} {nodes : Finset κ} (hadj : ∀ n, ∀ m ∈ adj n, m ∈ nodes)
    {fuel fuel' : Nat} {inDegree : κ → Int} {queue : List κ}
    (h : pending nodes inDegree queue ≤ fuel) (h' : pending nodes inDegree queue ≤ fuel')
    (order : List κ) :
    loopWith arrange adj fuel inDegree queue order =
      loopWith arrange adj fuel' inDegree queue order := by
  induction fuel generalizing fuel' inDegree queue order with
  | zero =>
      have hqueue : queue = [] := by
        apply List.eq_nil_of_length_eq_zero
        unfold pending at h
        omega
      have hnone : arrange queue = [] := by
        apply List.eq_nil_of_length_eq_zero
        rw [(harrange queue).length_eq, hqueue, List.length_nil]
      cases fuel' with
      | zero => rfl
      | succ fuel' => simp only [loopWith, hnone]
  | succ fuel ih =>
      have hlength := (harrange queue).length_eq
      cases hsorted : arrange queue with
      | nil =>
          cases fuel' with
          | zero => simp only [loopWith, hsorted]
          | succ fuel' => simp only [loopWith, hsorted]
      | cons curr rest =>
          rw [hsorted, List.length_cons] at hlength
          have hrest : pending nodes ((adj curr).foldl relax (inDegree, rest)).1
              ((adj curr).foldl relax (inDegree, rest)).2 ≤ pending nodes inDegree rest :=
            pending_foldl (hadj curr) (inDegree, rest)
          have hless : pending nodes inDegree rest + 1 = pending nodes inDegree queue := by
            unfold pending
            omega
          cases fuel' with
          | zero => omega
          | succ fuel' =>
              rw [loopWith, loopWith, hsorted]
              exact ih (by omega) (by omega) _

theorem loop_of_le {adj : κ → List κ} {nodes : Finset κ} (hadj : ∀ n, ∀ m ∈ adj n, m ∈ nodes)
    {fuel fuel' : Nat} {inDegree : κ → Int} {queue : List κ}
    (h : pending nodes inDegree queue ≤ fuel) (h' : pending nodes inDegree queue ≤ fuel')
    (order : List κ) :
    loop adj fuel inDegree queue order = loop adj fuel' inDegree queue order := by
  rw [loop_eq_loopWith, loop_eq_loopWith]
  exact loopWith_of_le (Table.orderBy_perm id) hadj h h' order

/-! ## What a round does -/

theorem foldl_relax_fst (targets : List κ) (s : (κ → Int) × List κ) (n : κ) :
    (targets.foldl relax s).1 n = s.1 n - targets.count n := by
  induction targets generalizing s with
  | nil => simp
  | cons t rest ih =>
      rw [List.foldl_cons, ih, List.count_cons]
      by_cases hn : t = n
      · subst hn
        simp only [relax, Function.update_self, beq_self_eq_true, if_true]
        omega
      · have hkeep : (relax s t).1 n = s.1 n := Function.update_of_ne (Ne.symm hn) _ _
        simp [hkeep, hn]

/-- A node is queued once, when the last of its edges goes. -/
theorem count_foldl_relax (targets : List κ) (s : (κ → Int) × List κ) (n : κ) :
    (targets.foldl relax s).2.count n =
      s.2.count n + if 0 < s.1 n ∧ s.1 n ≤ targets.count n then 1 else 0 := by
  induction targets generalizing s with
  | nil =>
      have hempty : ¬(0 < s.1 n ∧ s.1 n ≤ ([] : List κ).count n) := by
        rintro ⟨hpos, hle⟩
        simp at hle
        omega
      rw [if_neg hempty]
      rfl
  | cons t rest ih =>
      rw [List.foldl_cons, ih, List.count_cons]
      by_cases hn : t = n
      · subst hn
        simp only [relax, Function.update_self, beq_self_eq_true, if_true]
        -- the edge taken now is the last one or leaves others
        by_cases hlast : s.1 t - 1 = 0
        · rw [if_pos hlast, List.count_append, List.count_singleton_self]
          split_ifs <;> omega
        · rw [if_neg hlast]
          split_ifs <;> omega
      · have hkeep : (relax s t).1 n = s.1 n := Function.update_of_ne (Ne.symm hn) _ _
        have hqueue : (relax s t).2.count n = s.2.count n := by
          simp only [relax]
          split
          · simp [List.count_append, hn]
          · rfl
        simp [hkeep, hqueue, hn]

/-! ## The order of the nodes -/

section Order

variable (adj : κ → List κ) (nodes : List κ)

/-- How many listed edges lead into a node. -/
def inDegree (n : κ) : Int := (nodes.flatMap adj).count n

/-- The order in which the nodes leave a queue that is sorted in every round. -/
def order : List κ :=
  let queue := nodes.filter fun n => inDegree adj nodes n = 0
  loop adj (pending nodes.toFinset (inDegree adj nodes) queue) (inDegree adj nodes) queue []

/-- The order in which the nodes leave a queue that they enter at its end. -/
def fifoOrder : List κ :=
  let queue := nodes.filter fun n => inDegree adj nodes n = 0
  loopWith id adj (pending nodes.toFinset (inDegree adj nodes) queue) (inDegree adj nodes) queue []

/-- An edge of the graph. -/
def Edge (p n : κ) : Prop := p ∈ nodes ∧ n ∈ adj p

def predecessors (n : κ) : List κ := nodes.filter fun p => n ∈ adj p

/-- The loop between two rounds: what was taken out, what is queued, and the edges that lead
out of the other nodes. -/
structure Invariant (degree : κ → Int) (queue order : List κ) : Prop where
  finished : Dag.Finished (predecessors adj nodes) order.reverse
  nodup : (order ++ queue).Nodup
  subset : ∀ n ∈ order ++ queue, n ∈ nodes
  degree_eq : ∀ n, degree n =
    ((nodes.toFinset \ order.toFinset).sum fun p => (adj p).count n : Nat)
  mem_iff : ∀ n ∈ nodes, n ∈ order ++ queue ↔ degree n = 0

variable {adj nodes}

theorem mem_predecessors {p n : κ} : p ∈ predecessors adj nodes n ↔ Edge adj nodes p n := by
  simp [predecessors, Edge]

theorem Invariant.degree_eq_zero_iff {degree : κ → Int} {queue order : List κ}
    (h : Invariant adj nodes degree queue order) {n : κ} :
    degree n = 0 ↔ ∀ p ∈ predecessors adj nodes n, p ∈ order := by
  rw [h.degree_eq, Int.natCast_eq_zero, Finset.sum_eq_zero_iff]
  constructor
  · intro hzero p hp
    obtain ⟨hnode, hedge⟩ := mem_predecessors.mp hp
    by_contra hout
    have hcount := hzero p (by simp [hnode, hout])
    exact List.count_eq_zero.mp hcount hedge
  · intro hall p hp
    obtain ⟨hnode, hout⟩ := Finset.mem_sdiff.mp hp
    rw [List.count_eq_zero]
    intro hedge
    have hin := hall p (mem_predecessors.mpr ⟨List.mem_toFinset.mp hnode, hedge⟩)
    exact hout (List.mem_toFinset.mpr hin)

theorem invariant_init (hnodes : nodes.Nodup) :
    Invariant adj nodes (inDegree adj nodes)
      (nodes.filter fun n => inDegree adj nodes n = 0) [] where
  finished := .nil
  nodup := hnodes.filter _
  subset := by
    intro n hn
    exact (List.mem_filter.mp hn).1
  degree_eq := by
    intro n
    rw [inDegree, List.count_flatMap, List.toFinset_nil, Finset.sdiff_empty,
      List.sum_toFinset _ hnodes]
    rfl
  mem_iff := by
    intro n hn
    simp [hn]

/-- Taking out the next node keeps the invariant. -/
theorem Invariant.step (hadj : ∀ p, ∀ n ∈ adj p, n ∈ nodes) {degree : κ → Int}
    {queue order : List κ} (h : Invariant adj nodes degree queue order) {curr : κ}
    {rest : List κ} (hqueue : (curr :: rest).Perm queue) :
    Invariant adj nodes ((adj curr).foldl relax (degree, rest)).1
      ((adj curr).foldl relax (degree, rest)).2 (order ++ [curr]) := by
  have hcurr : curr ∈ order ++ queue :=
    List.mem_append_right order (hqueue.subset List.mem_cons_self)
  have hperm : (order ++ curr :: rest).Perm (order ++ queue) := hqueue.append_left order
  have hnodup : (order ++ curr :: rest).Nodup := hperm.nodup_iff.mpr h.nodup
  have hfresh : curr ∉ order := fun hmem =>
    (List.nodup_append.mp hnodup).2.2 curr hmem curr List.mem_cons_self rfl
  have hready : ∀ p ∈ predecessors adj nodes curr, p ∈ order :=
    h.degree_eq_zero_iff.mp ((h.mem_iff curr (h.subset curr hcurr)).mp hcurr)
  have hdegree : ∀ n, ((adj curr).foldl relax (degree, rest)).1 n =
      degree n - (adj curr).count n := fun n => foldl_relax_fst _ _ n
  have hsum : ∀ n, degree n - (adj curr).count n =
      ((nodes.toFinset \ (order ++ [curr]).toFinset).sum fun p => (adj p).count n : Nat) := by
    intro n
    have hsplit : nodes.toFinset \ order.toFinset =
        insert curr (nodes.toFinset \ (order ++ [curr]).toFinset) := by
      ext p
      by_cases hp : p = curr
      · subst hp
        simp [h.subset p hcurr, hfresh]
      · simp [hp]
    rw [h.degree_eq, hsplit, Finset.sum_insert (by simp)]
    omega
  have hcount : ∀ n, (order ++ [curr] ++ ((adj curr).foldl relax (degree, rest)).2).count n =
      (order ++ queue).count n +
        if 0 < degree n ∧ degree n ≤ (adj curr).count n then 1 else 0 := by
    intro n
    rw [List.count_append, count_foldl_relax, ← hperm.count_eq]
    simp only [List.count_append, List.count_cons, List.count_nil]
    omega
  have hmem : ∀ n, n ∈ order ++ [curr] ++ ((adj curr).foldl relax (degree, rest)).2 ↔
      n ∈ order ++ queue ∨ 0 < degree n ∧ degree n ≤ (adj curr).count n := by
    intro n
    rw [← List.count_pos_iff, hcount, ← List.count_pos_iff]
    split_ifs with hlast
    · simp [hlast]
    · simp [hlast]
  -- a node is queued only while it still has edges
  have hnode : ∀ n, 0 < degree n ∧ degree n ≤ (adj curr).count n →
      n ∈ nodes ∧ n ∉ order ++ queue := by
    rintro n ⟨hpos, hle⟩
    have hn : n ∈ nodes := hadj curr n (List.count_pos_iff.mp (by omega))
    exact ⟨hn, fun hin => hpos.ne' ((h.mem_iff n hn).mp hin)⟩
  constructor
  · rw [List.reverse_append]
    exact .cons (by simpa using hfresh) (fun p hp => List.mem_reverse.mpr (hready p hp)) h.finished
  · apply List.nodup_iff_count_le_one.mpr
    intro n
    rw [hcount]
    split_ifs with hlast
    · rw [List.count_eq_zero.mpr (hnode n hlast).2]
    · exact List.nodup_iff_count_le_one.mp h.nodup n
  · intro n hn
    rcases (hmem n).mp hn with hold | hlast
    · exact h.subset n hold
    · exact (hnode n hlast).1
  · intro n
    rw [hdegree, hsum]
  · intro n hn
    rw [hmem, h.mem_iff n hn, hdegree]
    have hnonneg := hsum n
    omega

/-- At the end the queue is empty. -/
theorem Invariant.loopWith {arrange : List κ → List κ} (harrange : ∀ q, (arrange q).Perm q)
    (hadj : ∀ p, ∀ n ∈ adj p, n ∈ nodes) {fuel : Nat} {degree : κ → Int}
    {queue order : List κ} (h : Invariant adj nodes degree queue order)
    (hfuel : pending nodes.toFinset degree queue ≤ fuel) :
    ∃ degree', Invariant adj nodes degree' []
      (Kahn.loopWith arrange adj fuel degree queue order) := by
  induction fuel generalizing degree queue order with
  | zero =>
      have hqueue : queue = [] := by
        apply List.eq_nil_of_length_eq_zero
        unfold pending at hfuel
        omega
      subst hqueue
      exact ⟨degree, h⟩
  | succ fuel ih =>
      have hsorted := harrange queue
      unfold Kahn.loopWith
      cases hcase : arrange queue with
      | nil =>
          rw [hcase] at hsorted
          rw [List.nil_perm.mp hsorted] at h
          exact ⟨degree, h⟩
      | cons curr rest =>
          rw [hcase] at hsorted
          apply ih (h.step hadj hsorted)
          have hle : pending nodes.toFinset ((adj curr).foldl relax (degree, rest)).1
              ((adj curr).foldl relax (degree, rest)).2 ≤ pending nodes.toFinset degree rest :=
            pending_foldl (fun n hn => List.mem_toFinset.mpr (hadj curr n hn)) (degree, rest)
          have hlength := hsorted.length_eq
          rw [List.length_cons] at hlength
          unfold pending at hle hfuel ⊢
          omega

/-- What comes out: nodes without repetition, each after its predecessors, and every node whose
predecessors came out. -/
structure Sorted (adj : κ → List κ) (nodes result : List κ) : Prop where
  finished : Dag.Finished (predecessors adj nodes) result.reverse
  subset : ∀ n ∈ result, n ∈ nodes
  mem_of_ready : ∀ n ∈ nodes, (∀ p ∈ predecessors adj nodes n, p ∈ result) → n ∈ result

theorem sorted_loopWith {arrange : List κ → List κ} (harrange : ∀ q, (arrange q).Perm q)
    (hnodes : nodes.Nodup) (hadj : ∀ p, ∀ n ∈ adj p, n ∈ nodes) :
    Sorted adj nodes (loopWith arrange adj
      (pending nodes.toFinset (inDegree adj nodes) (nodes.filter fun n => inDegree adj nodes n = 0))
      (inDegree adj nodes) (nodes.filter fun n => inDegree adj nodes n = 0) []) := by
  obtain ⟨degree, h⟩ := (invariant_init hnodes).loopWith harrange hadj le_rfl
  constructor
  · exact h.finished
  · intro n hn
    exact h.subset n (List.mem_append_left [] hn)
  · intro n hn hready
    have hmem := (h.mem_iff n hn).mpr (h.degree_eq_zero_iff.mpr hready)
    rwa [List.append_nil] at hmem

theorem sorted_order (hnodes : nodes.Nodup) (hadj : ∀ p, ∀ n ∈ adj p, n ∈ nodes) :
    Sorted adj nodes (order adj nodes) := by
  simp only [order, loop_eq_loopWith]
  exact sorted_loopWith (Table.orderBy_perm id) hnodes hadj

theorem sorted_fifoOrder (hnodes : nodes.Nodup) (hadj : ∀ p, ∀ n ∈ adj p, n ∈ nodes) :
    Sorted adj nodes (fifoOrder adj nodes) :=
  sorted_loopWith (fun q => List.Perm.refl q) hnodes hadj

variable {result : List κ}

theorem Sorted.nodup (h : Sorted adj nodes result) : result.Nodup :=
  List.nodup_reverse.mp h.finished.nodup

/-- A complete order is as long as the list of nodes. -/
theorem Sorted.length_eq_iff (h : Sorted adj nodes result) (hnodes : nodes.Nodup) :
    result.length = nodes.length ↔ ∀ n ∈ nodes, n ∈ result := by
  have hsubperm : List.Subperm result nodes := h.nodup.subperm h.subset
  constructor
  · intro hlength n hn
    exact (hsubperm.perm_of_length_le hlength.ge).mem_iff.mpr hn
  · intro hall
    exact le_antisymm hsubperm.length_le (hnodes.subperm hall).length_le

/-- All nodes come out exactly when the graph has no cycle. -/
theorem Sorted.complete_iff (h : Sorted adj nodes result) (hadj : ∀ p, ∀ n ∈ adj p, n ∈ nodes) :
    (∀ n ∈ nodes, n ∈ result) ↔ Dag.Acyclic (Edge adj nodes) := by
  constructor
  · intro hall
    apply Dag.acyclic_of_rank (Dag.rank result.reverse)
    intro p n hedge
    have hn : n ∈ result := hall n (hadj p n hedge.2)
    exact h.finished.rank_lt (List.mem_reverse.mpr hn) (mem_predecessors.mpr hedge)
  · intro hacyclic
    apply hacyclic.induction (motive := fun n => n ∈ result) fun p n hedge => hedge.1
    intro n hn ih
    exact h.mem_of_ready n hn fun p hp => ih p (mem_predecessors.mp hp)

/-- What leads to a node that came out came out before it. -/
theorem Sorted.rank_lt_of_path (h : Sorted adj nodes result) {p n : κ}
    (hpath : Relation.TransGen (Edge adj nodes) p n) (hn : n ∈ result) :
    p ∈ result ∧ Dag.rank result.reverse p < Dag.rank result.reverse n := by
  have hedge : ∀ {p n : κ}, Edge adj nodes p n → n ∈ result →
      p ∈ result ∧ Dag.rank result.reverse p < Dag.rank result.reverse n := by
    intro p n hedge hn
    have hpred : p ∈ predecessors adj nodes n := mem_predecessors.mpr hedge
    have hmem := h.finished.succ_mem (List.mem_reverse.mpr hn) hpred
    exact ⟨List.mem_reverse.mp hmem, h.finished.rank_lt (List.mem_reverse.mpr hn) hpred⟩
  induction hpath using Relation.TransGen.head_induction_on with
  | single hlast => exact hedge hlast hn
  | head hfirst _ ih =>
      obtain ⟨hp, hlt⟩ := hedge hfirst ih.1
      exact ⟨hp, hlt.trans ih.2⟩

/-- No node of a cycle comes out. -/
theorem Sorted.notMem_of_cycle (h : Sorted adj nodes result) {n : κ}
    (hcycle : Relation.TransGen (Edge adj nodes) n n) : n ∉ result :=
  fun hn => lt_irrefl _ (h.rank_lt_of_path hcycle hn).2

/-- A node that does not come out lies on a cycle or behind one. -/
theorem Sorted.exists_cycle (h : Sorted adj nodes result) {n : κ} (hn : n ∈ nodes)
    (hout : n ∉ result) : ∃ c, Relation.TransGen (Edge adj nodes) c c ∧
      Relation.ReflTransGen (Edge adj nodes) c n := by
  by_contra hnone
  -- the edges before the node close no cycle, so all that leads to it comes out
  have hacyclic : Dag.Acyclic fun p q =>
      Edge adj nodes p q ∧ Relation.ReflTransGen (Edge adj nodes) q n := by
    intro c hcycle
    obtain ⟨p, _, hlast⟩ := Relation.TransGen.tail'_iff.mp hcycle
    exact hnone ⟨c, Relation.TransGen.mono (fun _ _ hedge => hedge.1) c c hcycle, hlast.2⟩
  have hall := hacyclic.induction (motive := fun q =>
    Relation.ReflTransGen (Edge adj nodes) q n → q ∈ result) (fun p q hedge => hedge.1.1)
  refine hout (hall ?_ n hn .refl)
  intro q hq ih hpath
  apply h.mem_of_ready q hq
  intro p hp
  have hedge := mem_predecessors.mp hp
  exact ih p ⟨hedge, hpath⟩ (.head hedge hpath)

end Order

end Kahn
