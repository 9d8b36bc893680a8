import Mathlib.Data.Finset.Lattice.Fold
import Mathlib.Data.List.Induction
import RationaleVault.Library.Dag

/-!
# Signals that spread along a graph

Every node signals to its targets, and signals to one node combine as a meet. When
the nodes pass their signals on in an order with sources first, each node ends with
the meet of what its sources signal in the end. On a graph without a cycle this
determines the end, and relations between two starts carry over to the ends.
-/

universe u v w

namespace Spread

/-- What a node signals and how a signal changes a node. -/
structure Influence (α : Type v) (μ : Type w) [SemilatticeInf μ] [OrderTop μ] where
  signal : α → μ
  act : μ → α → α
  act_top : ∀ a, act ⊤ a = a
  act_inf : ∀ m m' a, act (m ⊓ m') a = act m' (act m a)

variable {κ : Type u} {α : Type v} {μ : Type w} [DecidableEq κ] [SemilatticeInf μ] [OrderTop μ]
variable (f : Influence α μ)

/-- A node passes its signal on to its targets. -/
def pass (adj : κ → List κ) (state : κ → α) (p : κ) : κ → α := fun n =>
  if n ∈ adj p then f.act (f.signal (state p)) (state n) else state n

omit [DecidableEq κ] in
/-- Every node is what its sources make of its start. -/
def Settles (sources : κ → Finset κ) (start result : κ → α) : Prop :=
  ∀ n, result n = f.act ((sources n).inf fun p => f.signal (result p)) (start n)

variable {f}

theorem pass_of_mem {adj : κ → List κ} (state : κ → α) {p n : κ} (h : n ∈ adj p) :
    pass f adj state p n = f.act (f.signal (state p)) (state n) := if_pos h

theorem pass_of_not_mem {adj : κ → List κ} (state : κ → α) {p n : κ} (h : n ∉ adj p) :
    pass f adj state p n = state n := if_neg h

/-- Nodes that pass their signals on after their sources leave a settled state. -/
theorem settles_foldl_pass {adj sources : κ → List κ} {order : List κ}
    (hsources : ∀ p ∈ order, ∀ n ∈ adj p, p ∈ sources n)
    (horder : Dag.Finished sources order.reverse) (start : κ → α) :
    Settles f (fun n => order.toFinset.filter fun p => n ∈ adj p) start
      (order.foldl (pass f adj) start) := by
  induction order using List.reverseRecOn with
  | nil =>
      intro n
      exact (f.act_top _).symm
  | append_singleton before p ih =>
      rw [List.reverse_append] at horder
      cases horder with
      | cons hfresh hready hbefore =>
      have hsources' : ∀ q ∈ before, ∀ n ∈ adj q, q ∈ sources n := fun q hq =>
        hsources q (List.mem_append_left [p] hq)
      -- the node does not signal to itself nor to the nodes before it
      have hquiet : ∀ q ∈ before ++ [p], q ∉ adj p := by
        intro q hq hedge
        have hsource : p ∈ sources q := hsources p (by simp) q hedge
        rcases List.mem_append.mp hq with hq | hq
        · exact hfresh (hbefore.succ_mem (List.mem_reverse.mpr hq) hsource)
        · rw [List.mem_singleton.mp hq] at hsource
          exact hfresh (hready p hsource)
      have hkeep : ∀ q ∈ before ++ [p], pass f adj (before.foldl (pass f adj) start) p q =
          before.foldl (pass f adj) start q := fun q hq =>
        pass_of_not_mem _ (hquiet q hq)
      intro n
      rw [List.foldl_append, List.foldl_cons, List.foldl_nil]
      have hsignals : ∀ s ⊆ (before ++ [p]).toFinset,
          (s.inf fun q => f.signal (pass f adj (before.foldl (pass f adj) start) p q)) =
            s.inf fun q => f.signal (before.foldl (pass f adj) start q) := by
        intro s hs
        apply Finset.inf_congr rfl
        intro q hq
        rw [hkeep q (List.mem_toFinset.mp (hs hq))]
      rw [hsignals _ (Finset.filter_subset _ _)]
      have hsplit : (before ++ [p]).toFinset = insert p before.toFinset := by
        ext q
        simp
      rw [hsplit, Finset.filter_insert]
      by_cases hedge : n ∈ adj p
      · rw [pass_of_mem _ hedge, if_pos hedge, Finset.inf_insert, inf_comm, f.act_inf]
        exact congrArg (f.act _) (ih hsources' hbefore n)
      · rw [pass_of_not_mem _ hedge, if_neg hedge]
        exact ih hsources' hbefore n

/-! ## Two settled states -/

/-- Relations between nodes and between signals that acting and meeting respect. -/
structure Respects (f : Influence α μ) (R : α → α → Prop) (S : μ → μ → Prop) : Prop where
  signal : ∀ {a a'}, R a a' → S (f.signal a) (f.signal a')
  act : ∀ {m m' a a'}, S m m' → R a a' → R (f.act m a) (f.act m' a')
  top : S ⊤ ⊤
  inf : ∀ {m₁ m₁' m₂ m₂'}, S m₁ m₁' → S m₂ m₂' → S (m₁ ⊓ m₂) (m₁' ⊓ m₂')

omit [DecidableEq κ] in
theorem Respects.inf_finset {R : α → α → Prop} {S : μ → μ → Prop} (h : Respects f R S)
    {s : Finset κ} {g g' : κ → μ} (hg : ∀ p ∈ s, S (g p) (g' p)) : S (s.inf g) (s.inf g') := by
  classical
  induction s using Finset.induction_on with
  | empty => exact h.top
  | insert p s _ ih =>
      rw [Finset.inf_insert, Finset.inf_insert]
      exact h.inf (hg p (Finset.mem_insert_self p s))
        (ih fun q hq => hg q (Finset.mem_insert_of_mem hq))

omit [DecidableEq κ] in
/-- Without a cycle, related starts settle in related ends. -/
theorem Settles.rel {R : α → α → Prop} {S : μ → μ → Prop} (hrespects : Respects f R S)
    {sources : κ → Finset κ} {nodes : List κ}
    (hacyclic : Dag.Acyclic fun p n => p ∈ sources n)
    (hnodes : ∀ p n, p ∈ sources n → p ∈ nodes) {start start' result result' : κ → α}
    (h : Settles f sources start result) (h' : Settles f sources start' result')
    (hstart : ∀ n, R (start n) (start' n)) (n : κ) : R (result n) (result' n) := by
  have hstep : ∀ n, (∀ p, p ∈ sources n → R (result p) (result' p)) →
      R (result n) (result' n) := by
    intro n hsources
    rw [h n, h' n]
    apply hrespects.act _ (hstart n)
    exact hrespects.inf_finset fun p hp => hrespects.signal (hsources p hp)
  have hall : ∀ p ∈ nodes, R (result p) (result' p) :=
    hacyclic.induction hnodes fun p _ ih => hstep p ih
  exact hstep n fun p hp => hall p (hnodes p n hp)

omit [DecidableEq κ] in
/-- Without a cycle there is one settled end. -/
theorem Settles.unique {sources : κ → Finset κ} {nodes : List κ}
    (hacyclic : Dag.Acyclic fun p n => p ∈ sources n)
    (hnodes : ∀ p n, p ∈ sources n → p ∈ nodes) {start result result' : κ → α}
    (h : Settles f sources start result) (h' : Settles f sources start result') :
    result = result' := by
  have hrespects : Respects f Eq Eq :=
    ⟨fun h => h ▸ rfl, fun hm ha => hm ▸ ha ▸ rfl, rfl, fun h₁ h₂ => h₁ ▸ h₂ ▸ rfl⟩
  funext n
  exact h.rel hrespects hacyclic hnodes h' (fun _ => rfl) n

end Spread
