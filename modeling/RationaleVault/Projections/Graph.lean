import Mathlib.Logic.Function.Basic
import RationaleVault.Library.Dag
import RationaleVault.Library.Fold
import RationaleVault.Library.OrdDict
import RationaleVault.Python

/-!
# The graph of projection classes

Projection classes name the classes they depend on. The registry keeps the
classes it was given and validates the whole graph before it is used: names
are distinct, dependencies are registered, base projections have none, derived
ones have no composite ones, and there is no cycle. Cycles are looked for by a
depth-first search with an explicit stack.
-/

namespace RationaleVault.Projections

inductive ProjectionKind
  | base
  | derived
  | composite
  deriving DecidableEq

structure SemVer where
  major : Int
  minor : Int
  patch : Int
  deriving DecidableEq

/-- `str(version)`. -/
def SemVer.str (v : SemVer) : String :=
  toString v.major ++ "." ++ toString v.minor ++ "." ++ toString v.patch

/-- What a projection class declares; `className` is its `__name__`. Classes refer to each other
by identity, which is `κ`. -/
structure BaseProjection (κ : Type) where
  className : String
  projectionName : String
  version : SemVer
  projectionKind : ProjectionKind
  dependencies : List κ := []
  buildPriority : Int := 100

/-- The registered classes, by name and as the set that is iterated over. -/
structure ProjectionRegistry (κ : Type) where
  declared : κ → BaseProjection κ
  projections : OrdDict String κ := .empty
  classes : List κ := []
  nodup : classes.Nodup := by simp

namespace ProjectionRegistry

variable {κ : Type} [DecidableEq κ] (registry : ProjectionRegistry κ)

def name (cls : κ) : String := (registry.declared cls).projectionName

def dependencies (cls : κ) : List κ := (registry.declared cls).dependencies

def kind (cls : κ) : ProjectionKind := (registry.declared cls).projectionKind

/-- `register(projection_cls)`. -/
def register (cls : κ) : Except Exc (ProjectionRegistry κ) :=
  if registry.name cls = "" then
    .error (.valueError "Projection must declare a non-empty projection_name")
  else if h : cls ∈ registry.classes then
    .error (.duplicateProjectionError
      ("Class '" ++ (registry.declared cls).className ++ "' is already registered."))
  else
    match registry.projections.get? (registry.name cls) with
    | some colliding =>
        .error (.duplicateProjectionError ("Projection name collision: '" ++ registry.name cls ++
          "' is registered by both '" ++ (registry.declared colliding).className ++ "' and '" ++
          (registry.declared cls).className ++ "'."))
    | none =>
        .ok { registry with
          projections := registry.projections.set (registry.name cls) cls
          classes := cls :: registry.classes
          nodup := List.nodup_cons.mpr ⟨h, registry.nodup⟩ }

/-- Every registered class is found under its name. -/
structure Named : Prop where
  names : (registry.classes.map registry.name).Nodup
  found : ∀ cls ∈ registry.classes, registry.projections.get? (registry.name cls) = some cls

variable {registry} in
/-- Registration rules out equal names before they are validated. -/
theorem Named.register {registry' : ProjectionRegistry κ} {cls : κ} (h : registry.Named)
    (hregister : registry.register cls = .ok registry') : registry'.Named := by
  unfold ProjectionRegistry.register at hregister
  split_ifs at hregister with hempty hmem
  split at hregister
  · cases hregister
  · rename_i hfree
    obtain rfl := Except.ok.inj hregister
    have hne : ∀ c ∈ registry.classes, registry.name cls ≠ registry.name c := by
      intro c hc heq
      rw [heq, h.found c hc] at hfree
      cases hfree
    constructor
    · rw [List.map_cons, List.nodup_cons]
      refine ⟨fun hname => ?_, h.names⟩
      obtain ⟨c, hc, heq⟩ := List.mem_map.mp hname
      exact hne c hc heq.symm
    · intro c hc
      obtain rfl | hc := List.mem_cons.mp hc
      · exact OrdDict.get?_set_self _ _ _
      · exact (OrdDict.get?_set_of_ne _ _ (hne c hc)).trans (h.found c hc)

/-! ## Validation -/

/-- `_validate_names_and_classes()`. -/
def validateNamesAndClasses : Except Exc Unit :=
  if (registry.classes.map registry.name).Nodup then .ok ()
  else .error (.duplicateProjectionError "Duplicate projection names detected.")

/-- `_validate_dependencies()`. -/
def validateDependencies : Except Exc Unit :=
  registry.classes.forM fun cls => (registry.dependencies cls).forM fun dep =>
    if dep ∈ registry.classes then .ok ()
    else
      let shown := if registry.name dep = "" then (registry.declared dep).className
        else registry.name dep
      .error (.missingDependencyError ("Projection '" ++ registry.name cls ++ "' depends on '" ++
        shown ++ "', which is not registered."))

/-- `_validate_kinds()`. -/
def validateKinds : Except Exc Unit :=
  registry.classes.forM fun cls =>
    match registry.kind cls with
    | .base =>
        if registry.dependencies cls = [] then .ok ()
        else .error (.invalidDependencyKindError
          ("Base projection '" ++ registry.name cls ++ "' must not have any dependencies."))
    | .derived =>
        (registry.dependencies cls).forM fun dep =>
          if registry.kind dep = .composite then
            .error (.invalidDependencyKindError ("Derived projection '" ++ registry.name cls ++
              "' cannot depend on composite projection '" ++ registry.name dep ++ "'."))
          else .ok ()
    | .composite => .ok ()

/-- The state of a class in the search for cycles: 0, 1 and 2. -/
inductive Visit
  | unvisited
  | visiting
  | visited
  deriving DecidableEq

/-- How many classes the search has not met. -/
def unvisitedCount (visits : κ → Visit) : Nat :=
  registry.classes.countP fun cls => visits cls = .unvisited

theorem unvisitedCount_update_le {visits : κ → Visit} {cls : κ} {v : Visit} (hv : v ≠ .unvisited) :
    registry.unvisitedCount (Function.update visits cls v) ≤ registry.unvisitedCount visits := by
  apply List.countP_mono_left
  intro c _ hc
  by_cases heq : c = cls
  · subst heq
    simp [hv] at hc
  · simpa [Function.update_of_ne heq] using hc

theorem unvisitedCount_update_lt {visits : κ → Visit} {cls : κ} {v : Visit} (hv : v ≠ .unvisited)
    (hmem : cls ∈ registry.classes) (hcls : visits cls = .unvisited) :
    registry.unvisitedCount (Function.update visits cls v) < registry.unvisitedCount visits := by
  have hle := List.countP_mono_left (l := registry.classes.erase cls)
    (p := fun c => Function.update visits cls v c = .unvisited)
    (q := fun c => visits c = .unvisited) (by
      intro c hc hunvisited
      have hne : c ≠ cls := fun heq => registry.nodup.not_mem_erase (heq ▸ hc)
      simpa [Function.update_of_ne hne] using hunvisited)
  rw [unvisitedCount, unvisitedCount, (List.perm_cons_erase hmem).countP_eq,
    (List.perm_cons_erase hmem).countP_eq (fun c => decide (visits c = .unvisited)),
    List.countP_cons_of_neg (by simp [hv]), List.countP_cons_of_pos (by simp [hcls])]
  exact Nat.lt_succ_of_le hle

/-- What the frames of the stack have left to do. -/
def remaining (stack : List (κ × List κ)) : Nat :=
  stack.foldr (fun frame n => frame.2.length + 1 + n) 0

theorem measure_leave {visits : κ → Visit} {curr : κ} {stack : List (κ × List κ)} :
    Prod.Lex (· < ·) (· < ·)
      (registry.unvisitedCount (Function.update visits curr .visited), remaining stack)
      (registry.unvisitedCount visits, remaining ((curr, []) :: stack)) := by
  have hle : registry.unvisitedCount (Function.update visits curr .visited) ≤
      registry.unvisitedCount visits := registry.unvisitedCount_update_le nofun
  obtain hlt | heq := Nat.lt_or_eq_of_le hle
  · exact Prod.Lex.left _ _ hlt
  · rw [heq]
    exact Prod.Lex.right _ (Nat.lt_add_of_pos_left (Nat.succ_pos _))

/-- The children a class has yet to visit; `pop` takes the last one first. -/
def children (cls : κ) : List κ := (registry.dependencies cls).reverse

/-- The `while stack` loop of `_validate_cycles()`, innermost frame first. -/
def searchStack (stack : List (κ × List κ)) (visits : κ → Visit) : Except Exc (κ → Visit) :=
  match stack with
  | [] => .ok visits
  | (curr, []) :: stack => searchStack stack (Function.update visits curr .visited)
  | (curr, nextChild :: rest) :: stack =>
      if _h : nextChild ∈ registry.classes then
        match _hv : visits nextChild with
        | .visiting =>
            .error (.circularDependencyError ("Circular dependency detected containing: '" ++
              registry.name curr ++ "' -> '" ++ registry.name nextChild ++ "'."))
        | .unvisited =>
            searchStack ((nextChild, registry.children nextChild) :: (curr, rest) :: stack)
              (Function.update visits nextChild .visiting)
        | .visited => searchStack ((curr, rest) :: stack) visits
      else .error (.keyError (registry.name nextChild))
  termination_by (registry.unvisitedCount visits, remaining stack)
  decreasing_by
    · exact registry.measure_leave
    · exact Prod.Lex.left _ _ (registry.unvisitedCount_update_lt nofun _h _hv)
    · exact Prod.Lex.right _ (Nat.add_lt_add_right (Nat.lt_succ_self _) _)

section Steps

variable {registry} {curr child : κ} {rest : List κ} {stack : List (κ × List κ)}
  {visits : κ → Visit}

theorem searchStack_enter (hmem : child ∈ registry.classes) (hvisit : visits child = .unvisited) :
    registry.searchStack ((curr, child :: rest) :: stack) visits =
      registry.searchStack ((child, registry.children child) :: (curr, rest) :: stack)
        (Function.update visits child .visiting) := by
  rw [searchStack, dif_pos hmem]
  split <;> simp_all

theorem searchStack_skip (hmem : child ∈ registry.classes) (hvisit : visits child = .visited) :
    registry.searchStack ((curr, child :: rest) :: stack) visits =
      registry.searchStack ((curr, rest) :: stack) visits := by
  rw [searchStack, dif_pos hmem]
  split <;> simp_all

theorem searchStack_cycle (hmem : child ∈ registry.classes) (hvisit : visits child = .visiting) :
    registry.searchStack ((curr, child :: rest) :: stack) visits =
      .error (.circularDependencyError ("Circular dependency detected containing: '" ++
        registry.name curr ++ "' -> '" ++ registry.name child ++ "'.")) := by
  rw [searchStack, dif_pos hmem]
  split <;> simp_all

end Steps

/-- The body of the loop over the roots. -/
def visitRoot (visits : κ → Visit) (root : κ) : Except Exc (κ → Visit) :=
  if visits root = .unvisited then
    registry.searchStack [(root, registry.children root)] (Function.update visits root .visiting)
  else .ok visits

/-- `_validate_cycles()`. -/
def validateCycles : Except Exc Unit := do
  let _ ← registry.classes.foldlM registry.visitRoot fun _ => .unvisited
  return ()

/-- `validate()`. -/
def validate : Except Exc Unit := do
  registry.validateNamesAndClasses
  registry.validateDependencies
  registry.validateKinds
  registry.validateCycles

/-! ## What validation accepts -/

/-- What `validate` checks; the classes can be ranked above their dependencies. -/
structure WellFormed : Prop where
  names : (registry.classes.map registry.name).Nodup
  registered : ∀ cls ∈ registry.classes, ∀ dep ∈ registry.dependencies cls,
    dep ∈ registry.classes
  base : ∀ cls ∈ registry.classes, registry.kind cls = .base → registry.dependencies cls = []
  derived : ∀ cls ∈ registry.classes, registry.kind cls = .derived →
    ∀ dep ∈ registry.dependencies cls, registry.kind dep ≠ .composite
  acyclic : ∃ rank : κ → Nat, ∀ cls ∈ registry.classes, ∀ dep ∈ registry.dependencies cls,
    rank dep < rank cls

omit [DecidableEq κ] in
theorem validateNamesAndClasses_eq_ok_iff :
    registry.validateNamesAndClasses = .ok () ↔
      (registry.classes.map registry.name).Nodup := by
  unfold validateNamesAndClasses
  split_ifs with h
  · simp [h]
  · simp [h]

theorem validateDependencies_eq_ok_iff :
    registry.validateDependencies = .ok () ↔
      ∀ cls ∈ registry.classes, ∀ dep ∈ registry.dependencies cls, dep ∈ registry.classes := by
  simp only [validateDependencies, Fold.forM_eq_ok_iff]
  apply forall₂_congr
  intro cls _
  apply forall₂_congr
  intro dep _
  split_ifs with h
  · simp [h]
  · simp [h]

omit [DecidableEq κ] in
theorem validateKinds_eq_ok_iff :
    registry.validateKinds = .ok () ↔
      (∀ cls ∈ registry.classes, registry.kind cls = .base →
        registry.dependencies cls = []) ∧
      ∀ cls ∈ registry.classes, registry.kind cls = .derived →
        ∀ dep ∈ registry.dependencies cls, registry.kind dep ≠ .composite := by
  rw [validateKinds, Fold.forM_eq_ok_iff, ← forall₂_and]
  apply forall₂_congr
  intro cls _
  cases hkind : registry.kind cls with
  | base =>
      by_cases hdeps : registry.dependencies cls = []
      · simp [hdeps]
      · simp [hdeps]
  | derived =>
      simp only [Fold.forM_eq_ok_iff, reduceCtorEq, false_implies, true_and, forall_const]
      apply forall₂_congr
      intro dep _
      split_ifs with hdep
      · simp [hdep]
      · simp [hdep]
  | composite => simp

/-- The frames of the stack below a class: what a frame has no longer to visit is finished or is
the class above it. -/
inductive Frames (order : List κ) : Option κ → List (κ × List κ) → Prop
  | nil {above : Option κ} : Frames order above []
  | cons {above : Option κ} {curr : κ} {rest : List κ} {stack : List (κ × List κ)}
      (hsub : rest ⊆ registry.dependencies curr)
      (hdeps : ∀ d ∈ registry.dependencies curr, d ∈ rest ∨ d ∈ order ∨ above = some d)
      (hstack : Frames order (some curr) stack) : Frames order above ((curr, rest) :: stack)

/-- The search between two steps: the classes it has finished are `order`. -/
structure Searching (stack : List (κ × List κ)) (visits : κ → Visit) (order : List κ) :
    Prop where
  visiting_iff : ∀ c, visits c = .visiting ↔ c ∈ stack.map Prod.fst
  visited_iff : ∀ c, visits c = .visited ↔ c ∈ order
  path : (stack.map Prod.fst).Nodup
  frames : registry.Frames order none stack
  finished : Dag.Finished registry.dependencies order

variable {registry}

omit [DecidableEq κ] in
theorem Frames.mono {order order' : List κ} (hsub : order ⊆ order') {above : Option κ}
    {stack : List (κ × List κ)} (h : registry.Frames order above stack) :
    registry.Frames order' above stack := by
  induction h with
  | nil => exact .nil
  | cons hrest hdeps _ ih =>
      refine .cons hrest (fun d hd => ?_) ih
      obtain hd | hd | hd := hdeps d hd
      · exact .inl hd
      · exact .inr (.inl (hsub hd))
      · exact .inr (.inr hd)

omit [DecidableEq κ] in
/-- A finished class no longer has to be above its frame. -/
theorem Frames.forget {order : List κ} {curr : κ} {stack : List (κ × List κ)}
    (h : registry.Frames order (some curr) stack) :
    registry.Frames (curr :: order) none stack := by
  cases h with
  | nil => exact .nil
  | cons hrest hdeps hstack =>
      refine .cons hrest (fun d hd => ?_) (hstack.mono (List.subset_cons_self _ _))
      obtain hd | hd | hd := hdeps d hd
      · exact .inl hd
      · exact .inr (.inl (List.mem_cons_of_mem _ hd))
      · exact .inr (.inl (by rw [Option.some.inj hd]; exact List.mem_cons_self))

namespace Searching

variable {stack : List (κ × List κ)} {visits : κ → Visit} {order : List κ} {curr : κ}
  {rest : List κ}

/-- A class without children left is finished. -/
theorem leave (h : registry.Searching ((curr, []) :: stack) visits order) :
    registry.Searching stack (Function.update visits curr .visited) (curr :: order) := by
  obtain ⟨hvisiting, hvisited, hpath, hframes, hfinished⟩ := h
  have hcurr : curr ∉ stack.map Prod.fst := (List.nodup_cons.mp hpath).1
  cases hframes with
  | cons hsub hdeps hstack =>
      constructor
      · intro c
        by_cases hc : c = curr
        · subst hc
          simpa using hcurr
        · rw [Function.update_of_ne hc, hvisiting c]
          simp [hc]
      · intro c
        by_cases hc : c = curr
        · subst hc
          simp
        · rw [Function.update_of_ne hc, hvisited c]
          simp [hc]
      · exact (List.nodup_cons.mp hpath).2
      · exact hstack.forget
      · apply Dag.Finished.cons
        · intro hmem
          have hboth := ((hvisiting curr).mpr (by simp)).symm.trans ((hvisited curr).mpr hmem)
          cases hboth
        · intro d hd
          obtain hd | hd | hd := hdeps d hd
          · cases hd
          · exact hd
          · cases hd
        · exact hfinished

/-- A class that was not met is put on the path. -/
theorem visit {path : List κ} {child : κ} (hvisiting : ∀ c, visits c = .visiting ↔ c ∈ path)
    (hvisited : ∀ c, visits c = .visited ↔ c ∈ order) (hchild : visits child = .unvisited) :
    (∀ c, Function.update visits child .visiting c = .visiting ↔ c ∈ child :: path) ∧
      ∀ c, Function.update visits child .visiting c = .visited ↔ c ∈ order := by
  constructor
  · intro c
    by_cases hc : c = child
    · subst hc
      simp
    · rw [Function.update_of_ne hc, hvisiting c]
      simp [hc]
  · intro c
    by_cases hc : c = child
    · subst hc
      have hnot : c ∉ order := fun hmem => by
        have hboth := hchild.symm.trans ((hvisited c).mpr hmem)
        cases hboth
      simp [hnot]
    · rw [Function.update_of_ne hc, hvisited c]

/-- A child that was not met is visited above its class. -/
theorem enter {child : κ} (h : registry.Searching ((curr, child :: rest) :: stack) visits order)
    (hchild : visits child = .unvisited) :
    registry.Searching ((child, registry.children child) :: (curr, rest) :: stack)
      (Function.update visits child .visiting) order := by
  obtain ⟨hvisiting, hvisited, hpath, hframes, hfinished⟩ := h
  have hfresh : child ∉ curr :: stack.map Prod.fst := by
    intro hmem
    have hboth := hchild.symm.trans ((hvisiting child).mpr hmem)
    cases hboth
  obtain ⟨hvisiting', hvisited'⟩ := visit hvisiting hvisited hchild
  cases hframes with
  | cons hsub hdeps hstack =>
      refine ⟨hvisiting', hvisited', List.nodup_cons.mpr ⟨hfresh, hpath⟩, ?_, hfinished⟩
      refine .cons (fun d hd => List.mem_reverse.mp hd) (fun d hd => .inl (List.mem_reverse.mpr hd))
        (.cons (List.cons_subset.mp hsub).2 (fun d hd => ?_) hstack)
      obtain hd | hd | hd := hdeps d hd
      · obtain rfl | hd := List.mem_cons.mp hd
        · exact .inr (.inr rfl)
        · exact .inl hd
      · exact .inr (.inl hd)
      · cases hd

/-- The search from a class that was not met. -/
theorem root {root : κ} (h : registry.Searching [] visits order)
    (hroot : visits root = .unvisited) :
    registry.Searching [(root, registry.children root)]
      (Function.update visits root .visiting) order := by
  obtain ⟨hvisiting', hvisited'⟩ := visit h.visiting_iff h.visited_iff hroot
  exact ⟨hvisiting', hvisited', List.nodup_singleton root,
    .cons (fun d hd => List.mem_reverse.mp hd) (fun d hd => .inl (List.mem_reverse.mpr hd)) .nil,
    h.finished⟩

omit [DecidableEq κ] in
/-- A finished child is skipped. -/
theorem skip {child : κ} (h : registry.Searching ((curr, child :: rest) :: stack) visits order)
    (hchild : visits child = .visited) :
    registry.Searching ((curr, rest) :: stack) visits order := by
  obtain ⟨hvisiting, hvisited, hpath, hframes, hfinished⟩ := h
  cases hframes with
  | cons hsub hdeps hstack =>
      refine ⟨hvisiting, hvisited, hpath, .cons (List.cons_subset.mp hsub).2 (fun d hd => ?_)
        hstack, hfinished⟩
      obtain hd | hd | hd := hdeps d hd
      · obtain rfl | hd := List.mem_cons.mp hd
        · exact .inr (.inl ((hvisited _).mp hchild))
        · exact .inl hd
      · exact .inr (.inl hd)
      · cases hd

end Searching

/-- A search that returns has finished the classes on its stack, and all it had finished. -/
theorem Searching.run {stack : List (κ × List κ)} {visits visits' : κ → Visit} {order : List κ}
    (h : registry.Searching stack visits order)
    (hrun : registry.searchStack stack visits = .ok visits') :
    ∃ order', registry.Searching [] visits' order' ∧ order ⊆ order' ∧
      ∀ c ∈ stack.map Prod.fst, c ∈ order' := by
  induction stack, visits using searchStack.induct registry generalizing order with
  | case1 visits =>
      rw [searchStack] at hrun
      obtain rfl := Except.ok.inj hrun
      exact ⟨order, h, List.Subset.refl _, by simp⟩
  | case2 visits curr stack ih =>
      rw [searchStack] at hrun
      obtain ⟨order', hsearching, hsub, hall⟩ := ih h.leave hrun
      refine ⟨order', hsearching, fun c hc => hsub (List.mem_cons_of_mem _ hc), ?_⟩
      intro c hc
      obtain rfl | hc := List.mem_cons.mp hc
      · exact hsub List.mem_cons_self
      · exact hall c hc
  | case3 visits curr child rest stack hmem hvisit =>
      rw [searchStack_cycle hmem hvisit] at hrun
      cases hrun
  | case4 visits curr child rest stack hmem hvisit ih =>
      rw [searchStack_enter hmem hvisit] at hrun
      obtain ⟨order', hsearching, hsub, hall⟩ := ih (h.enter hvisit) hrun
      exact ⟨order', hsearching, hsub, fun c hc => hall c (List.mem_cons_of_mem _ hc)⟩
  | case5 visits curr child rest stack hmem hvisit ih =>
      rw [searchStack_skip hmem hvisit] at hrun
      exact ih (h.skip hvisit) hrun
  | case6 visits curr child rest stack hmem =>
      rw [searchStack, dif_neg hmem] at hrun
      cases hrun

/-- Where the classes on the stack rank above those they were reached from, and all dependencies
are registered, the search returns. -/
theorem Searching.exists_ok (hregistered : ∀ cls ∈ registry.classes,
      ∀ dep ∈ registry.dependencies cls, dep ∈ registry.classes)
    {rank : κ → Nat} (hrank : ∀ cls ∈ registry.classes, ∀ dep ∈ registry.dependencies cls,
      rank dep < rank cls)
    {stack : List (κ × List κ)} {visits : κ → Visit} {order : List κ}
    (h : registry.Searching stack visits order)
    (hpath : (stack.map Prod.fst).Pairwise fun c c' => rank c < rank c')
    (hmem : ∀ c ∈ stack.map Prod.fst, c ∈ registry.classes) :
    ∃ visits', registry.searchStack stack visits = .ok visits' := by
  -- A child ranks below every class on the stack, so it is not one of them.
  have hchild : ∀ {curr child : κ} {rest : List κ} {stack : List (κ × List κ)} {visits order},
      registry.Searching ((curr, child :: rest) :: stack) visits order →
      (((curr, child :: rest) :: stack).map Prod.fst).Pairwise (fun c c' => rank c < rank c') →
      curr ∈ registry.classes →
      child ∈ registry.classes ∧ ∀ c ∈ curr :: stack.map Prod.fst, rank child < rank c := by
    intro curr child rest stack visits order h hpath hcurr
    cases h.frames with
    | cons hsub _ _ =>
        have hdep := (List.cons_subset.mp hsub).1
        have hlt := hrank curr hcurr child hdep
        refine ⟨hregistered curr hcurr child hdep, fun c hc => ?_⟩
        obtain rfl | hc := List.mem_cons.mp hc
        · exact hlt
        · exact hlt.trans ((List.pairwise_cons.mp hpath).1 c hc)
  induction stack, visits using searchStack.induct registry generalizing order with
  | case1 visits => exact ⟨visits, by rw [searchStack]⟩
  | case2 visits curr stack ih =>
      rw [searchStack]
      exact ih h.leave (List.pairwise_cons.mp hpath).2
        fun c hc => hmem c (List.mem_cons_of_mem _ hc)
  | case3 visits curr child rest stack hchildmem hvisit =>
      have hbelow := (hchild h hpath (hmem curr List.mem_cons_self)).2
      exact absurd (hbelow child ((h.visiting_iff child).mp hvisit)) (Nat.lt_irrefl _)
  | case4 visits curr child rest stack hchildmem hvisit ih =>
      have hbelow := (hchild h hpath (hmem curr List.mem_cons_self)).2
      rw [searchStack_enter hchildmem hvisit]
      apply ih (h.enter hvisit)
      · exact List.pairwise_cons.mpr ⟨hbelow, hpath⟩
      · intro c hc
        obtain rfl | hc := List.mem_cons.mp hc
        · exact hchildmem
        · exact hmem c hc
  | case5 visits curr child rest stack hchildmem hvisit ih =>
      rw [searchStack_skip hchildmem hvisit]
      exact ih (h.skip hvisit) hpath hmem
  | case6 visits curr child rest stack hchildmem =>
      exact absurd (hchild h hpath (hmem curr List.mem_cons_self)).1 hchildmem

omit [DecidableEq κ] in
theorem Searching.start : registry.Searching [] (fun _ => .unvisited) [] where
  visiting_iff := by simp
  visited_iff := by simp
  path := by simp
  frames := .nil
  finished := .nil

omit [DecidableEq κ] in
/-- A class that the search has met between two roots is finished. -/
theorem Searching.finished_of_ne {visits : κ → Visit} {order : List κ}
    (h : registry.Searching [] visits order) {c : κ} (hc : visits c ≠ .unvisited) : c ∈ order := by
  cases hvisit : visits c with
  | unvisited => exact absurd hvisit hc
  | visiting => exact absurd ((h.visiting_iff c).mp hvisit) (by simp)
  | visited => exact (h.visited_iff c).mp hvisit

theorem Searching.visitRoot {visits visits' : κ → Visit} {order : List κ}
    (h : registry.Searching [] visits order) {root : κ}
    (hrun : registry.visitRoot visits root = .ok visits') :
    ∃ order', registry.Searching [] visits' order' ∧ order ⊆ order' ∧ root ∈ order' := by
  unfold ProjectionRegistry.visitRoot at hrun
  split_ifs at hrun with hroot
  · obtain ⟨order', hsearching, hsub, hall⟩ := (h.root hroot).run hrun
    exact ⟨order', hsearching, hsub, hall root (by simp)⟩
  · obtain rfl := Except.ok.inj hrun
    exact ⟨order, h, List.Subset.refl _, h.finished_of_ne hroot⟩

/-- When the loop over the roots returns, all of them are finished. -/
theorem Searching.visitRoots {roots : List κ} {visits visits' : κ → Visit} {order : List κ}
    (h : registry.Searching [] visits order)
    (hrun : roots.foldlM registry.visitRoot visits = .ok visits') :
    ∃ order', Dag.Finished registry.dependencies order' ∧ order ⊆ order' ∧
      ∀ c ∈ roots, c ∈ order' := by
  induction roots generalizing visits order with
  | nil => exact ⟨order, h.finished, List.Subset.refl _, by simp⟩
  | cons root rest ih =>
      obtain ⟨visits₁, hroot, hrest⟩ := Except.bind_eq_ok_iff.mp hrun
      obtain ⟨order₁, h₁, hsub₁, hmem⟩ := h.visitRoot hroot
      obtain ⟨order₂, hfinished, hsub₂, hall⟩ := ih h₁ hrest
      refine ⟨order₂, hfinished, List.Subset.trans hsub₁ hsub₂, fun c hc => ?_⟩
      obtain rfl | hc := List.mem_cons.mp hc
      · exact hsub₂ hmem
      · exact hall c hc

/-- The cycle check accepts exactly the graphs that can be ranked. -/
theorem validateCycles_eq_ok_iff (hregistered : ∀ cls ∈ registry.classes,
    ∀ dep ∈ registry.dependencies cls, dep ∈ registry.classes) :
    registry.validateCycles = .ok () ↔ ∃ rank : κ → Nat, ∀ cls ∈ registry.classes,
      ∀ dep ∈ registry.dependencies cls, rank dep < rank cls := by
  constructor
  · intro h
    obtain ⟨visits', hfold, _⟩ := Except.bind_eq_ok_iff.mp h
    obtain ⟨order, hfinished, _, hall⟩ := Searching.start.visitRoots hfold
    exact ⟨Dag.rank order, fun cls hcls dep hdep => hfinished.rank_lt (hall cls hcls) hdep⟩
  · rintro ⟨rank, hrank⟩
    have hstep : ∀ visits root, root ∈ registry.classes →
        (∃ order, registry.Searching [] visits order) →
        ∃ visits', registry.visitRoot visits root = .ok visits' ∧
          ∃ order, registry.Searching [] visits' order := by
      rintro visits root hmem ⟨order, h⟩
      have hok : ∃ visits', registry.visitRoot visits root = .ok visits' := by
        unfold ProjectionRegistry.visitRoot
        split_ifs with hroot
        · exact (h.root hroot).exists_ok hregistered hrank (by simp) (by simpa using hmem)
        · exact ⟨visits, rfl⟩
      obtain ⟨visits', hvisits⟩ := hok
      obtain ⟨order', h', _⟩ := h.visitRoot hvisits
      exact ⟨visits', hvisits, order', h'⟩
    obtain ⟨visits', hfold, _⟩ := Fold.exists_ok hstep ⟨[], .start⟩
    rw [validateCycles, hfold]
    rfl

/-- Validation accepts exactly the well-formed registries. -/
theorem validate_eq_ok_iff : registry.validate = .ok () ↔ registry.WellFormed := by
  simp only [validate, Except.bind_eq_ok_iff]
  constructor
  · rintro ⟨_, hnames, _, hregistered, _, hkinds, hcycles⟩
    have hregistered := registry.validateDependencies_eq_ok_iff.mp hregistered
    have hkinds := registry.validateKinds_eq_ok_iff.mp hkinds
    exact ⟨registry.validateNamesAndClasses_eq_ok_iff.mp hnames, hregistered, hkinds.1, hkinds.2,
      (validateCycles_eq_ok_iff hregistered).mp hcycles⟩
  · rintro ⟨hnames, hregistered, hbase, hderived, hrank⟩
    exact ⟨_, registry.validateNamesAndClasses_eq_ok_iff.mpr hnames,
      _, registry.validateDependencies_eq_ok_iff.mpr hregistered,
      _, registry.validateKinds_eq_ok_iff.mpr ⟨hbase, hderived⟩,
      (validateCycles_eq_ok_iff hregistered).mpr hrank⟩

end ProjectionRegistry

end RationaleVault.Projections
