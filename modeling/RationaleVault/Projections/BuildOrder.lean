import Mathlib.Data.List.Perm.Subperm
import Mathlib.Data.Prod.Lex
import Mathlib.Data.String.Basic
import RationaleVault.Library.Table
import RationaleVault.Projections.Graph

/-!
# The build order

The classes are ordered by taking away, again and again, the first class whose
dependencies have all been taken: by priority, then by name. The order of a
valid registry lists every class once, after its dependencies, and no other
order puts the first available class at every position.
-/

namespace RationaleVault.Projections

namespace ProjectionRegistry

variable {κ : Type} [DecidableEq κ] (registry : ProjectionRegistry κ)

/-- The sort key: `build_priority`, then `projection_name`. -/
def buildKey (cls : κ) : Int ×ₗ String :=
  toLex ((registry.declared cls).buildPriority, registry.name cls)

def inDegree (cls : κ) : Int := (registry.dependencies cls).length

/-- The dependents of a class, once for each time they name it. -/
def adj (cls : κ) : List κ :=
  registry.classes.flatMap fun c => ((registry.dependencies c).filter (· = cls)).map fun _ => c

/-- The body of the loop over the dependents: the ready list and the in-degrees. -/
def release (state : List κ × (κ → Int)) (child : κ) : List κ × (κ → Int) :=
  let inDegree := Function.update state.2 child (state.2 child - 1)
  (if inDegree child = 0 then state.1 ++ [child] else state.1, inDegree)

/-- The `while ready` loop. Every round takes one more class. -/
def takeReady : Nat → List κ → (κ → Int) → List κ → List κ
  | 0, _, _, order => order
  | rounds + 1, ready, inDegree, order =>
      match Table.orderBy registry.buildKey ready with
      | [] => order
      | curr :: ready =>
          let next := (registry.adj curr).foldl release (ready, inDegree)
          takeReady rounds next.1 next.2 (order ++ [curr])

/-- `_compute_order()`. -/
def computeOrder : List κ :=
  registry.takeReady registry.classes.length
    (registry.classes.filter fun cls => registry.inDegree cls = 0) registry.inDegree []

/-- `topological_sort()`. -/
def topologicalSort : Except Exc (List κ) := do
  registry.validate
  return registry.computeOrder

/-! ## One round -/

theorem mem_adj {cls c : κ} :
    c ∈ registry.adj cls ↔ c ∈ registry.classes ∧ cls ∈ registry.dependencies c := by
  simp only [adj, List.mem_flatMap, List.mem_map, List.mem_filter, decide_eq_true_eq]
  constructor
  · rintro ⟨c', hc', d, ⟨hd, rfl⟩, rfl⟩
    exact ⟨hc', hd⟩
  · rintro ⟨hc, hcls⟩
    exact ⟨c, hc, cls, ⟨hcls, rfl⟩, rfl⟩

omit [DecidableEq κ] in
/-- In a concatenation of lists of copies, only the list of `c` counts for `c`. -/
theorem count_flatMap_copies [DecidableEq κ] {f : κ → List κ} (hf : ∀ c, ∀ x ∈ f c, x = c)
    {l : List κ} (hl : l.Nodup) {c : κ} (hc : c ∈ l) : (l.flatMap f).count c = (f c).count c := by
  induction l with
  | nil => cases hc
  | cons a rest ih =>
      obtain ⟨ha, hrest⟩ := List.nodup_cons.mp hl
      rw [List.flatMap_cons, List.count_append]
      by_cases hac : a = c
      · subst hac
        have hzero : (rest.flatMap f).count a = 0 := by
          rw [List.count_eq_zero]
          intro hmem
          obtain ⟨b, hb, hab⟩ := List.mem_flatMap.mp hmem
          exact ha (hf b a hab ▸ hb)
        rw [hzero, Nat.add_zero]
      · have hzero : (f a).count c = 0 := by
          rw [List.count_eq_zero]
          exact fun hmem => hac (hf a c hmem).symm
        rw [hzero, Nat.zero_add]
        exact ih hrest ((List.mem_cons.mp hc).resolve_left (Ne.symm hac))

/-- A class is among the dependents as often as it names the dependency. -/
theorem count_adj {cls c : κ} (hc : c ∈ registry.classes) :
    (registry.adj cls).count c = (registry.dependencies c).count cls := by
  calc
    (registry.adj cls).count c =
        (((registry.dependencies c).filter (· = cls)).map fun _ => c).count c :=
      count_flatMap_copies (by simp) registry.nodup hc
    _ = ((registry.dependencies c).filter (· = cls)).length := by
      rw [List.map_const', List.count_replicate_self]
    _ = (registry.dependencies c).count cls := by
      rw [List.count_eq_length_filter]
      congr 1

omit [DecidableEq κ] in
/-- Releasing the children lowers their in-degrees, and readies those that drop to zero. -/
theorem release_foldl [DecidableEq κ] (children : List κ) (ready : List κ) (degree : κ → Int) :
    ∃ added, (children.foldl release (ready, degree)).1 = ready ++ added ∧ added.Nodup ∧
      (∀ c, c ∈ added ↔ 0 < degree c ∧ degree c ≤ children.count c) ∧
      ∀ c, (children.foldl release (ready, degree)).2 c = degree c - children.count c := by
  induction children generalizing ready degree with
  | nil =>
      refine ⟨[], by simp, List.nodup_nil, fun c => ?_, by simp⟩
      simp only [List.not_mem_nil, List.count_nil, false_iff]
      omega
  | cons x rest ih =>
      obtain ⟨added, hready, hnodup, hmem, hdegree⟩ :=
        ih (if degree x - 1 = 0 then ready ++ [x] else ready)
          (Function.update degree x (degree x - 1))
      have hstep : release (ready, degree) x =
          (if degree x - 1 = 0 then ready ++ [x] else ready,
            Function.update degree x (degree x - 1)) := by
        simp [release]
      have hself := hmem x
      rw [Function.update_self] at hself
      have hother : ∀ c, c ≠ x → (c ∈ added ↔ 0 < degree c ∧ degree c ≤ rest.count c) := by
        intro c hc
        rw [hmem c, Function.update_of_ne hc]
      have hdegree' : ∀ c, ((x :: rest).foldl release (ready, degree)).2 c =
          degree c - (x :: rest).count c := by
        intro c
        rw [List.foldl_cons, hstep, hdegree c]
        by_cases hc : c = x
        · subst hc
          rw [Function.update_self, List.count_cons_self]
          omega
        · rw [Function.update_of_ne hc, List.count_cons_of_ne (Ne.symm hc)]
      rw [List.foldl_cons, hstep] at *
      by_cases hzero : degree x - 1 = 0
      · rw [if_pos hzero] at *
        refine ⟨x :: added, by rw [hready, List.append_assoc]; rfl, ?_, ?_, hdegree'⟩
        · exact List.nodup_cons.mpr ⟨fun hx => by have := hself.mp hx; omega, hnodup⟩
        · intro c
          by_cases hc : c = x
          · subst hc
            rw [List.count_cons_self]
            simp only [List.mem_cons_self, true_iff]
            omega
          · rw [List.mem_cons, hother c hc, List.count_cons_of_ne (Ne.symm hc)]
            simp [hc]
      · rw [if_neg hzero] at *
        refine ⟨added, hready, hnodup, ?_, hdegree'⟩
        intro c
        by_cases hc : c = x
        · subst hc
          rw [hself, List.count_cons_self]
          omega
        · rw [hother c hc, List.count_cons_of_ne (Ne.symm hc)]

/-! ## All rounds -/

/-- The loop between two rounds: the degree of a class counts its dependencies that were not
taken, and the ready classes are those that can be taken. -/
structure Taking (ready : List κ) (degree : κ → Int) (order : List κ) : Prop where
  degree_eq : ∀ c ∈ registry.classes,
    degree c = (registry.dependencies c).countP (· ∉ order)
  mem_ready : ∀ c, c ∈ ready ↔
    c ∈ registry.classes ∧ c ∉ order ∧ ∀ d ∈ registry.dependencies c, d ∈ order
  nodup : ready.Nodup
  sub : order ⊆ registry.classes
  finished : Dag.Finished registry.dependencies order.reverse

variable {registry}

namespace Taking

variable {ready : List κ} {degree : κ → Int} {order : List κ}

theorem start : registry.Taking (registry.classes.filter fun cls => registry.inDegree cls = 0)
    registry.inDegree [] where
  degree_eq := by simp [inDegree]
  mem_ready := by simp [inDegree, List.eq_nil_iff_forall_not_mem]
  nodup := registry.nodup.filter _
  sub := by simp
  finished := .nil

omit [DecidableEq κ] in
theorem countP_append_singleton [DecidableEq κ] {curr : κ} (hcurr : curr ∉ order) (deps : List κ) :
    deps.countP (· ∉ order) = deps.count curr + deps.countP (· ∉ order ++ [curr]) := by
  induction deps with
  | nil => rfl
  | cons d rest ih =>
      by_cases hd : d = curr
      · subst hd
        rw [List.countP_cons_of_pos (by simpa using hcurr), List.count_cons_self,
          List.countP_cons_of_neg (by simp), ih]
        omega
      · rw [List.count_cons_of_ne hd]
        by_cases hmem : d ∈ order
        · rw [List.countP_cons_of_neg (by simpa using hmem),
            List.countP_cons_of_neg (by simp [hmem]), ih]
        · rw [List.countP_cons_of_pos (by simpa using hmem),
            List.countP_cons_of_pos (by simp [hmem, hd]), ih]
          omega

theorem countP_eq_zero_iff {deps : List κ} :
    deps.countP (· ∉ order) = 0 ↔ ∀ d ∈ deps, d ∈ order := by
  simp [List.countP_eq_zero]

/-- The dependencies of a class that was taken were taken. -/
theorem deps_of_mem (h : registry.Taking ready degree order) {c : κ} (hc : c ∈ order) :
    ∀ d ∈ registry.dependencies c, d ∈ order := fun _ hd =>
  List.mem_reverse.mp (h.finished.succ_mem (List.mem_reverse.mpr hc) hd)

/-- A round takes a ready class. -/
theorem next {curr : κ} {rest : List κ} (h : registry.Taking ready degree order)
    (hsorted : Table.orderBy registry.buildKey ready = curr :: rest) :
    registry.Taking ((registry.adj curr).foldl release (rest, degree)).1
      ((registry.adj curr).foldl release (rest, degree)).2 (order ++ [curr]) := by
  obtain ⟨added, hready', hadded, hmem, hdegree'⟩ := release_foldl (registry.adj curr) rest degree
  have hperm : (curr :: rest).Perm ready := hsorted ▸ Table.orderBy_perm registry.buildKey ready
  obtain ⟨hcurr, hrest⟩ := List.nodup_cons.mp (hperm.nodup_iff.mpr h.nodup)
  obtain ⟨hclass, htaken, hdeps⟩ := (h.mem_ready curr).mp (hperm.mem_iff.mp List.mem_cons_self)
  have hmemrest : ∀ c, c ∈ rest ↔ c ∈ ready ∧ c ≠ curr := by
    intro c
    rw [← hperm.mem_iff, List.mem_cons]
    constructor
    · exact fun hc => ⟨.inr hc, fun heq => hcurr (heq ▸ hc)⟩
    · rintro ⟨heq | hc, hne⟩
      · exact absurd heq hne
      · exact hc
  have hsplit : ∀ c ∈ registry.classes, degree c = ((registry.adj curr).count c : Int) +
      (registry.dependencies c).countP (· ∉ order ++ [curr]) := by
    intro c hc
    rw [h.degree_eq c hc, countP_append_singleton htaken, registry.count_adj hc]
    push_cast
    rfl
  have hzero : ∀ c ∈ registry.classes,
      (degree c = 0 ↔ ∀ d ∈ registry.dependencies c, d ∈ order) := by
    intro c hc
    rw [h.degree_eq c hc, ← countP_eq_zero_iff]
    omega
  have haddediff : ∀ c, c ∈ added ↔ c ∈ registry.classes ∧
      ¬ (∀ d ∈ registry.dependencies c, d ∈ order) ∧
      ∀ d ∈ registry.dependencies c, d ∈ order ++ [curr] := by
    intro c
    by_cases hc : c ∈ registry.classes
    · have hs := hsplit c hc
      rw [hmem, ← hzero c hc, ← countP_eq_zero_iff]
      simp only [hc, true_and]
      omega
    · have hcount : (registry.adj curr).count c = 0 := by
        rw [List.count_eq_zero]
        exact fun hadj => hc (registry.mem_adj.mp hadj).1
      rw [hmem, hcount]
      simp only [hc, false_and, iff_false]
      omega
  rw [hready']
  constructor
  · intro c hc
    rw [hdegree', hsplit c hc]
    omega
  · intro c
    rw [List.mem_append, hmemrest, h.mem_ready, haddediff, List.mem_append, List.mem_singleton]
    constructor
    · rintro (⟨⟨hc, hnot, hall⟩, hne⟩ | ⟨hc, hsome, hall⟩)
      · refine ⟨hc, ?_, fun d hd => List.mem_append_left _ (hall d hd)⟩
        rintro (hc' | hc')
        · exact hnot hc'
        · exact hne hc'
      · refine ⟨hc, ?_, hall⟩
        rintro (hc' | rfl)
        · exact hsome (h.deps_of_mem hc')
        · exact hsome hdeps
    · rintro ⟨hc, hnot, hall⟩
      by_cases hold : ∀ d ∈ registry.dependencies c, d ∈ order
      · exact .inl ⟨⟨hc, fun hc' => hnot (.inl hc'), hold⟩, fun heq => hnot (.inr heq)⟩
      · exact .inr ⟨hc, hold, hall⟩
  · rw [List.nodup_append]
    refine ⟨hrest, hadded, fun c hc c' hc' heq => ?_⟩
    subst heq
    exact ((haddediff c).mp hc').2.1 ((h.mem_ready c).mp ((hmemrest c).mp hc).1).2.2
  · intro c hc
    rw [List.mem_append, List.mem_singleton] at hc
    obtain hc | rfl := hc
    · exact h.sub hc
    · exact hclass
  · rw [List.reverse_append, List.reverse_singleton]
    exact .cons (fun hc => htaken (List.mem_reverse.mp hc))
      (fun d hd => List.mem_reverse.mpr (hdeps d hd)) h.finished

/-- The rounds end when no class is ready. -/
theorem run (rounds : Nat) (h : registry.Taking ready degree order)
    (hrounds : registry.classes.length ≤ order.length + rounds) :
    ∃ degree', registry.Taking [] degree' (registry.takeReady rounds ready degree order) := by
  induction rounds generalizing ready degree order with
  | zero =>
      have hperm : order.Perm registry.classes :=
        (List.subperm_of_subset (List.nodup_reverse.mp h.finished.nodup) h.sub).perm_of_length_le
          hrounds
      have hnil : ready = [] := by
        rw [List.eq_nil_iff_forall_not_mem]
        intro c hc
        obtain ⟨hclass, hnot, _⟩ := (h.mem_ready c).mp hc
        exact hnot (hperm.mem_iff.mpr hclass)
      rw [takeReady]
      exact ⟨degree, hnil ▸ h⟩
  | succ rounds ih =>
      rw [takeReady]
      split
      · rename_i hsorted
        have hperm := Table.orderBy_perm registry.buildKey ready
        rw [hsorted] at hperm
        exact ⟨degree, hperm.nil_eq ▸ h⟩
      · rename_i curr rest hsorted
        apply ih (h.next hsorted)
        rw [List.length_append, List.length_singleton]
        omega

/-- When no class is ready and the classes can be ranked, all classes were taken. -/
theorem perm (h : registry.Taking [] degree order) (hwf : registry.WellFormed) :
    order.Perm registry.classes := by
  obtain ⟨rank, hrank⟩ := hwf.acyclic
  have hall : ∀ n, ∀ c ∈ registry.classes, rank c < n → c ∈ order := by
    intro n
    induction n with
    | zero => exact fun c _ hc => absurd hc (Nat.not_lt_zero _)
    | succ n ih =>
        intro c hc hlt
        by_contra hnot
        have hready := (h.mem_ready c).mpr ⟨hc, hnot, fun d hd =>
          ih d (hwf.registered c hc d hd) ((hrank c hc d hd).trans_le (Nat.le_of_lt_succ hlt))⟩
        cases hready
  rw [List.perm_ext_iff_of_nodup (List.nodup_reverse.mp h.finished.nodup) registry.nodup]
  intro c
  constructor
  · intro hc
    exact h.sub hc
  · intro hc
    exact hall _ c hc (Nat.lt_succ_self _)

end Taking

/-- The build order of a valid registry lists every class once, after its dependencies. -/
theorem computeOrder_spec (hwf : registry.WellFormed) :
    registry.computeOrder.Perm registry.classes ∧
      Dag.Finished registry.dependencies registry.computeOrder.reverse := by
  have hstart : registry.Taking _ _ [] := Taking.start
  obtain ⟨degree, h⟩ := hstart.run registry.classes.length (by simp)
  exact ⟨h.perm hwf, h.finished⟩

/-- A valid registry is sorted. -/
theorem topologicalSort_eq_ok_iff {order : List κ} :
    registry.topologicalSort = .ok order ↔ registry.WellFormed ∧ registry.computeOrder = order := by
  rw [topologicalSort, Except.bind_eq_ok_iff, ← validate_eq_ok_iff]
  constructor
  · rintro ⟨_, hvalid, horder⟩
    exact ⟨hvalid, Except.pure_eq_ok_iff.mp horder⟩
  · rintro ⟨hvalid, horder⟩
    exact ⟨(), hvalid, Except.pure_eq_ok_iff.mpr horder⟩

/-! ## The first available class at every position -/

variable (registry) in
/-- A class that can be placed next: all its dependencies were placed. -/
def Available (order : List κ) (cls : κ) : Prop :=
  cls ∈ registry.classes ∧ cls ∉ order ∧ ∀ d ∈ registry.dependencies cls, d ∈ order

variable (registry) in
/-- Every class was placed when it was the first available one, by priority and name. -/
def PlacedFirst (order : List κ) : Prop :=
  ∀ before cls after, order = before ++ cls :: after →
    registry.Available before cls ∧
      ∀ c, registry.Available before c → registry.buildKey cls ≤ registry.buildKey c

omit [DecidableEq κ] in
theorem PlacedFirst.nil : registry.PlacedFirst [] := by
  intro before cls after horder
  simp at horder

omit [DecidableEq κ] in
/-- The first available class can be placed next. -/
theorem PlacedFirst.append {order : List κ} (h : registry.PlacedFirst order) {curr : κ}
    (hcurr : registry.Available order curr)
    (hleast : ∀ c, registry.Available order c → registry.buildKey curr ≤ registry.buildKey c) :
    registry.PlacedFirst (order ++ [curr]) := by
  intro before cls after horder
  rcases List.eq_nil_or_concat after with rfl | ⟨after, last, rfl⟩
  · obtain ⟨rfl, hcls⟩ := List.append_inj' horder rfl
    obtain rfl := List.singleton_inj.mp hcls
    exact ⟨hcurr, hleast⟩
  · have hsplit : order ++ [curr] = (before ++ cls :: after) ++ [last] := by
      simpa using horder
    exact h before cls after (List.append_inj' hsplit rfl).1

/-- The ready classes are the available ones. -/
theorem Taking.mem_ready_iff {ready order : List κ} {degree : κ → Int}
    (h : registry.Taking ready degree order) {c : κ} :
    c ∈ ready ↔ registry.Available order c :=
  h.mem_ready c

/-- A round places the first available class. -/
theorem PlacedFirst.next {ready rest order : List κ} {degree : κ → Int} {curr : κ}
    (h : registry.Taking ready degree order) (hplaced : registry.PlacedFirst order)
    (hsorted : Table.orderBy registry.buildKey ready = curr :: rest) :
    registry.PlacedFirst (order ++ [curr]) := by
  have hordered := Table.ordered_orderBy registry.buildKey ready
  rw [hsorted] at hordered
  apply hplaced.append
  · exact h.mem_ready_iff.mp (hordered.perm.mem_iff.mp List.mem_cons_self)
  · intro c hc
    have hmem : c ∈ curr :: rest := hordered.perm.mem_iff.mpr (h.mem_ready_iff.mpr hc)
    rcases List.mem_cons.mp hmem with rfl | hrest
    · exact le_rfl
    · exact List.rel_of_pairwise_cons hordered.sorted hrest

theorem placedFirst_takeReady (rounds : Nat) {ready order : List κ} {degree : κ → Int}
    (h : registry.Taking ready degree order) (hplaced : registry.PlacedFirst order) :
    registry.PlacedFirst (registry.takeReady rounds ready degree order) := by
  induction rounds generalizing ready degree order with
  | zero => exact hplaced
  | succ rounds ih =>
      rw [takeReady]
      split
      · exact hplaced
      · rename_i curr rest hsorted
        exact ih (h.next hsorted) (hplaced.next h hsorted)

variable (registry) in
/-- A build order: every class once, each the first available one at its position. -/
structure BuildOrder (order : List κ) : Prop where
  perm : order.Perm registry.classes
  placed : registry.PlacedFirst order

theorem buildOrder_computeOrder (hwf : registry.WellFormed) :
    registry.BuildOrder registry.computeOrder where
  perm := (computeOrder_spec hwf).1
  placed := placedFirst_takeReady registry.classes.length Taking.start .nil

omit [DecidableEq κ] in
/-- In a build order every dependency precedes its dependents. -/
theorem BuildOrder.deps_before {order before after : List κ} {cls : κ}
    (h : registry.BuildOrder order) (horder : order = before ++ cls :: after) :
    ∀ d ∈ registry.dependencies cls, d ∈ before :=
  (h.placed before cls after horder).1.2.2

omit [DecidableEq κ] in
/-- Only one class is the first available one, since no two share a name. -/
theorem eq_of_first (hnames : (registry.classes.map registry.name).Nodup) {order : List κ}
    {c c' : κ} (hc : registry.Available order c) (hc' : registry.Available order c')
    (hle : registry.buildKey c ≤ registry.buildKey c')
    (hle' : registry.buildKey c' ≤ registry.buildKey c) : c = c' := by
  have hkey : registry.buildKey c = registry.buildKey c' := le_antisymm hle hle'
  have hname : registry.name c = registry.name c' :=
    congrArg (fun key => (ofLex key).2) hkey
  exact List.inj_on_of_nodup_map hnames hc.1 hc'.1 hname

omit [DecidableEq κ] in
/-- There is one build order only. -/
theorem BuildOrder.unique (hnames : (registry.classes.map registry.name).Nodup)
    {order order' : List κ} (h : registry.BuildOrder order) (h' : registry.BuildOrder order') :
    order = order' := by
  have hrest : ∀ before rest rest', order = before ++ rest → order' = before ++ rest' →
      rest = rest' := by
    intro before rest
    induction rest generalizing before with
    | nil =>
        intro rest' horder horder'
        have hlength := (h.perm.trans h'.perm.symm).length_eq
        rw [horder, horder', List.length_append, List.length_append, List.length_nil] at hlength
        exact (List.eq_nil_of_length_eq_zero (by omega)).symm
    | cons cls rest ih =>
        intro rest' horder horder'
        obtain ⟨hcls, hfirst⟩ := h.placed before cls rest horder
        cases rest' with
        | nil =>
            have hmem : cls ∈ order' := (h.perm.trans h'.perm.symm).mem_iff.mp (by simp [horder])
            rw [horder', List.append_nil] at hmem
            exact absurd hmem hcls.2.1
        | cons cls' rest' =>
            obtain ⟨hcls', hfirst'⟩ := h'.placed before cls' rest' horder'
            obtain rfl : cls = cls' :=
              eq_of_first hnames hcls hcls' (hfirst cls' hcls') (hfirst' cls hcls)
            rw [ih (before ++ [cls]) rest' (by simpa using horder) (by simpa using horder')]
  exact hrest [] order order' rfl rfl

/-! ## Registries with the same classes -/

variable (registry) in
/-- The same classes, registered or iterated in another order. -/
structure SameClasses (registry' : ProjectionRegistry κ) : Prop where
  declared : registry'.declared = registry.declared
  classes : registry'.classes.Perm registry.classes

namespace SameClasses

variable {registry' : ProjectionRegistry κ}

omit [DecidableEq κ] in
theorem name (h : registry.SameClasses registry') : registry'.name = registry.name := by
  unfold ProjectionRegistry.name
  rw [h.declared]

omit [DecidableEq κ] in
theorem dependencies (h : registry.SameClasses registry') :
    registry'.dependencies = registry.dependencies := by
  unfold ProjectionRegistry.dependencies
  rw [h.declared]

omit [DecidableEq κ] in
theorem kind (h : registry.SameClasses registry') : registry'.kind = registry.kind := by
  unfold ProjectionRegistry.kind
  rw [h.declared]

omit [DecidableEq κ] in
theorem buildKey (h : registry.SameClasses registry') :
    registry'.buildKey = registry.buildKey := by
  unfold ProjectionRegistry.buildKey
  rw [h.name, h.declared]

omit [DecidableEq κ] in
theorem available_iff (h : registry.SameClasses registry') {order : List κ} {c : κ} :
    registry'.Available order c ↔ registry.Available order c := by
  unfold Available
  rw [h.dependencies, h.classes.mem_iff]

omit [DecidableEq κ] in
theorem wellFormed (h : registry.SameClasses registry') (hwf : registry.WellFormed) :
    registry'.WellFormed := by
  constructor
  · rw [h.name]
    exact (h.classes.map registry.name).nodup_iff.mpr hwf.names
  · rw [h.dependencies]
    intro cls hcls dep hdep
    exact h.classes.mem_iff.mpr (hwf.registered cls (h.classes.mem_iff.mp hcls) dep hdep)
  · rw [h.kind, h.dependencies]
    exact fun cls hcls => hwf.base cls (h.classes.mem_iff.mp hcls)
  · rw [h.kind, h.dependencies]
    exact fun cls hcls => hwf.derived cls (h.classes.mem_iff.mp hcls)
  · rw [h.dependencies]
    obtain ⟨rank, hrank⟩ := hwf.acyclic
    exact ⟨rank, fun cls hcls => hrank cls (h.classes.mem_iff.mp hcls)⟩

omit [DecidableEq κ] in
theorem buildOrder (h : registry.SameClasses registry') {order : List κ}
    (horder : registry'.BuildOrder order) : registry.BuildOrder order where
  perm := horder.perm.trans h.classes
  placed := by
    intro before cls after hsplit
    obtain ⟨hcls, hfirst⟩ := horder.placed before cls after hsplit
    refine ⟨h.available_iff.mp hcls, fun c hc => ?_⟩
    rw [← h.buildKey]
    exact hfirst c (h.available_iff.mpr hc)

end SameClasses

/-- A valid registry is sorted into its build order, in whatever order its classes were
registered or are iterated. -/
theorem topologicalSort_buildOrder (hvalid : registry.validate = .ok ()) :
    ∃ order, registry.BuildOrder order ∧
      ∀ registry', registry.SameClasses registry' → registry'.topologicalSort = .ok order := by
  have hwf := registry.validate_eq_ok_iff.mp hvalid
  refine ⟨registry.computeOrder, buildOrder_computeOrder hwf, fun registry' hsame => ?_⟩
  have hwf' := hsame.wellFormed hwf
  rw [topologicalSort_eq_ok_iff]
  exact ⟨hwf', BuildOrder.unique hwf.names (hsame.buildOrder (buildOrder_computeOrder hwf'))
    (buildOrder_computeOrder hwf)⟩

/-- A composite projection `true` that names the base projection `false` twice. -/
def twiceNamed : ProjectionRegistry Bool where
  declared cls :=
    { className := if cls then "B" else "A"
      projectionName := if cls then "B" else "A"
      version := ⟨1, 0, 0⟩
      projectionKind := if cls then .composite else .base
      dependencies := if cls then [false, false] else [] }
  classes := [true, false]

theorem topologicalSort_twiceNamed :
    twiceNamed.validate = .ok () ∧
      ∃ order, twiceNamed.BuildOrder order ∧
        ∀ registry', twiceNamed.SameClasses registry' →
          registry'.topologicalSort = .ok order := by
  have hvalid : twiceNamed.validate = .ok () :=
    ProjectionRegistry.validate_eq_ok_iff.mpr
      { names := by decide
        registered := by decide
        base := by decide
        derived := by decide
        acyclic := ⟨fun cls => if cls then 1 else 0, by decide⟩ }
  exact ⟨hvalid, topologicalSort_buildOrder hvalid⟩

end ProjectionRegistry

end RationaleVault.Projections
