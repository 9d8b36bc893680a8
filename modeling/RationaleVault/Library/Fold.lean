import Mathlib.Data.List.Forall2
import Mathlib.Data.List.Induction
import Mathlib.Data.List.Perm.Basic

/-!
# Folds that may fail

Rules for a left fold in `Except`: what each successful step preserves, a
successful fold preserves, for one fold or for two folds over the same list.
-/

universe u v w x

namespace Except

variable {ε : Type u} {α β : Type v}

theorem bind_eq_ok_iff {x : Except ε α} {f : α → Except ε β} {b : β} :
    (x >>= f) = .ok b ↔ ∃ a, x = .ok a ∧ f a = .ok b := by
  cases x with
  | error e => simp [bind, Except.bind]
  | ok a => simp [bind, Except.bind]

@[simp] theorem ok_bind_eq (a : α) (f : α → Except ε β) : ((.ok a : Except ε α) >>= f) = f a := rfl

@[simp] theorem error_bind_eq (e : ε) (f : α → Except ε β) :
    ((.error e : Except ε α) >>= f) = .error e := rfl

@[simp] theorem pure_eq_ok_iff {a b : α} : ((pure a : Except ε α) = .ok b) ↔ a = b := by
  simp [pure, Except.pure]

theorem map_eq_ok_iff {γ : Type w} {f : α → γ} {x : Except ε α} {c : γ} :
    x.map f = .ok c ↔ ∃ a, x = .ok a ∧ f a = c := by
  cases x with
  | error e => simp [Except.map]
  | ok a => simp [Except.map]

theorem map_map_eq {γ : Type w} {δ : Type x} (y : Except ε α) (f : α → γ) (g : γ → δ) :
    (y.map f).map g = y.map fun a => g (f a) := by
  cases y <;> rfl

theorem map_bind_eq {γ : Type v} (x : Except ε α) (f : α → Except ε β) (g : β → γ) :
    (x >>= f).map g = (x >>= fun a => (f a).map g) := by
  cases x <;> rfl

/-- Continuations that depend on an image of the result only. -/
theorem bind_congr_of_map {γ : Type w} {x y : Except ε α} {f : α → γ} (h : x.map f = y.map f)
    {g g' : α → Except ε β} (hg : ∀ a b, f a = f b → g a = g' b) : (x >>= g) = (y >>= g') := by
  cases x with
  | error e =>
      cases y with
      | error e' => exact congrArg Except.error (Except.error.inj h)
      | ok b => cases h
  | ok a =>
      cases y with
      | error e => cases h
      | ok b => exact hg a b (Except.ok.inj h)

/-- Images that depend on an image of the result only. -/
theorem map_congr_of_map {γ : Type w} {δ : Type x} {x y : Except ε α} {f : α → γ}
    (h : x.map f = y.map f) {g g' : α → δ}
    (hg : ∀ a b, x = .ok a → y = .ok b → f a = f b → g a = g' b) : x.map g = y.map g' := by
  cases x with
  | error e =>
      cases y with
      | error e' => exact congrArg Except.error (Except.error.inj h)
      | ok b => cases h
  | ok a =>
      cases y with
      | error e => cases h
      | ok b => exact congrArg Except.ok (hg a b rfl rfl (Except.ok.inj h))

end Except

namespace Fold

variable {ε : Type u} {σ τ : Type v} {α : Type w}

/-- A property kept by every successful step holds after a successful fold. -/
theorem invariant {f : σ → α → Except ε σ} {P : σ → Prop} {l : List α}
    (hstep : ∀ s a s', a ∈ l → P s → f s a = .ok s' → P s') {s s' : σ}
    (hs : P s) (h : l.foldlM f s = .ok s') : P s' := by
  induction l generalizing s with
  | nil =>
      simp only [List.foldlM_nil, Except.pure_eq_ok_iff] at h
      exact h ▸ hs
  | cons a rest ih =>
      rw [List.foldlM_cons, Except.bind_eq_ok_iff] at h
      obtain ⟨t, ht, hrest⟩ := h
      exact ih (fun s a s' ha => hstep s a s' (List.mem_cons_of_mem _ ha))
        (hstep s a t List.mem_cons_self hs ht) hrest

/-- A relation kept by every pair of successful steps holds after two successful folds. -/
theorem simulation {f : σ → α → Except ε σ} {g : τ → α → Except ε τ} {R : σ → τ → Prop}
    {l : List α}
    (hstep : ∀ s t a s' t', a ∈ l → R s t → f s a = .ok s' → g t a = .ok t' → R s' t')
    {s s' : σ} {t t' : τ} (hR : R s t) (hf : l.foldlM f s = .ok s')
    (hg : l.foldlM g t = .ok t') : R s' t' := by
  induction l generalizing s t with
  | nil =>
      simp only [List.foldlM_nil, Except.pure_eq_ok_iff] at hf hg
      exact hf ▸ hg ▸ hR
  | cons a rest ih =>
      rw [List.foldlM_cons, Except.bind_eq_ok_iff] at hf hg
      obtain ⟨s₁, hs₁, hf⟩ := hf
      obtain ⟨t₁, ht₁, hg⟩ := hg
      exact ih (fun s t a s' t' ha => hstep s t a s' t' (List.mem_cons_of_mem _ ha))
        (hstep s t a s₁ t₁ List.mem_cons_self hR hs₁ ht₁) hf hg

/-- What each step adds to a property of the state is what some element adds to it. -/
theorem collects {f : σ → α → Except ε σ} {P : σ → Prop} {R : α → Prop} {l : List α}
    (hstep : ∀ s a s', a ∈ l → f s a = .ok s' → (P s' ↔ P s ∨ R a)) {s s' : σ}
    (h : l.foldlM f s = .ok s') : P s' ↔ P s ∨ ∃ a ∈ l, R a := by
  induction l generalizing s with
  | nil =>
      rw [List.foldlM_nil, Except.pure_eq_ok_iff] at h
      simp [h]
  | cons a rest ih =>
      rw [List.foldlM_cons, Except.bind_eq_ok_iff] at h
      obtain ⟨t, ht, hrest⟩ := h
      rw [ih (fun s a s' ha => hstep s a s' (List.mem_cons_of_mem _ ha)) hrest,
        hstep s a t List.mem_cons_self ht, or_assoc, List.exists_mem_cons_iff]

/-- Folds whose steps agree on the list are equal. -/
theorem congr {f g : σ → α → Except ε σ} {l : List α} (h : ∀ s, ∀ a ∈ l, f s a = g s a) (s : σ) :
    l.foldlM f s = l.foldlM g s := by
  induction l generalizing s with
  | nil => rfl
  | cons a rest ih =>
      rw [List.foldlM_cons, List.foldlM_cons, h s a List.mem_cons_self]
      congr 1
      funext t
      exact ih (fun s a ha => h s a (List.mem_cons_of_mem _ ha)) t

/-- Steps that depend on an image of the state only make folds that do. -/
theorem map_eq_of_step {γ : Type x} {f : σ → α → Except ε σ} {g : σ → γ}
    (hstep : ∀ s s' a, g s = g s' → (f s a).map g = (f s' a).map g) {s s' : σ} (h : g s = g s')
    (l : List α) : (l.foldlM f s).map g = (l.foldlM f s').map g := by
  induction l generalizing s s' with
  | nil => exact congrArg Except.ok h
  | cons a rest ih =>
      have ha := hstep s s' a h
      rw [List.foldlM_cons, List.foldlM_cons]
      cases ht : f s a with
      | error e =>
          cases ht' : f s' a with
          | error e' =>
              rw [ht, ht'] at ha
              exact congrArg Except.error (Except.error.inj ha)
          | ok t' => rw [ht, ht'] at ha; cases ha
      | ok t =>
          cases ht' : f s' a with
          | error e' => rw [ht, ht'] at ha; cases ha
          | ok t' =>
              rw [ht, ht'] at ha
              exact ih (Except.ok.inj ha)

/-- Elements that an image of the state does not see can be left out. -/
theorem map_filter {γ : Type x} {f : σ → α → Except ε σ} {g : σ → γ} {p : α → Bool}
    (hread : ∀ s s' a, g s = g s' → (f s a).map g = (f s' a).map g)
    (hskip : ∀ s a, p a = false → (f s a).map g = .ok (g s)) (l : List α) (s : σ) :
    (l.foldlM f s).map g = ((l.filter p).foldlM f s).map g := by
  induction l generalizing s with
  | nil => rfl
  | cons a rest ih =>
      cases hp : p a with
      | true =>
          rw [List.filter_cons_of_pos hp, List.foldlM_cons, List.foldlM_cons]
          cases f s a with
          | error e => rfl
          | ok t => exact ih t
      | false =>
          obtain ⟨t, ht, htg⟩ := Except.map_eq_ok_iff.mp (hskip s a hp)
          rw [List.filter_cons_of_neg (by simp [hp]), List.foldlM_cons, ht, ← ih s]
          exact map_eq_of_step hread htg rest

/-- Elements that no step looks at can be left out. -/
theorem foldlM_filter {f : σ → α → Except ε σ} {p : α → Bool}
    (hskip : ∀ s a, p a = false → f s a = .ok s) (l : List α) (s : σ) :
    (l.filter p).foldlM f s = l.foldlM f s := by
  induction l generalizing s with
  | nil => rfl
  | cons a rest ih =>
      cases hp : p a with
      | true =>
          rw [List.filter_cons_of_pos hp, List.foldlM_cons, List.foldlM_cons]
          exact bind_congr fun t => ih t
      | false =>
          rw [List.filter_cons_of_neg (by simp [hp]), List.foldlM_cons, hskip s a hp, ih s]
          rfl

/-- A fold whose every step succeeds on states with a kept property succeeds. -/
theorem exists_ok {f : σ → α → Except ε σ} {P : σ → Prop} {l : List α}
    (hstep : ∀ s a, a ∈ l → P s → ∃ s', f s a = .ok s' ∧ P s') {s : σ} (hs : P s) :
    ∃ s', l.foldlM f s = .ok s' ∧ P s' := by
  induction l generalizing s with
  | nil => exact ⟨s, rfl, hs⟩
  | cons a rest ih =>
      obtain ⟨t, ht, hP⟩ := hstep s a List.mem_cons_self hs
      obtain ⟨s', hs', hP'⟩ := ih (fun s a ha => hstep s a (List.mem_cons_of_mem _ ha)) hP
      exact ⟨s', by rw [List.foldlM_cons, ht]; exact hs', hP'⟩

/-- A property `P` that each permitted step keeps exactly under a condition holds throughout a run
of permitted steps exactly if every step of the run meets the condition. -/
theorem always_iff_of_permitted {step : σ → α → σ} {P : σ → Prop} {G C : σ → α → Prop}
    (hstep : ∀ s a, G s a → P s → (P (step s a) ↔ C s a)) {s : σ} (hP : P s) {l : List α}
    (hG : ∀ pre a post, l = pre ++ a :: post → G (pre.foldl step s) a) :
    (∀ pre, pre <+: l → P (pre.foldl step s)) ↔
      ∀ pre a post, l = pre ++ a :: post → C (pre.foldl step s) a := by
  constructor
  · rintro h pre a post rfl
    have hpre := h pre (List.prefix_append _ _)
    have hnext := h (pre ++ [a]) ⟨post, by simp⟩
    rw [List.foldl_append] at hnext
    exact (hstep _ a (hG pre a post rfl) hpre).mp hnext
  · rintro h pre ⟨post, rfl⟩
    induction pre using List.reverseRecOn generalizing post with
    | nil => exact hP
    | append_singleton pre a ih =>
        have hpre := ih (a :: post) (by simpa using hG) (by simpa using h)
        rw [List.foldl_append]
        exact (hstep _ a (hG pre a post (by simp)) hpre).mpr (h pre a post (by simp))

/-- A property `P` that each step keeps exactly under a condition, in states with an invariant
`Q`, holds throughout a run exactly if every step of the run meets the condition. -/
theorem always_iff_of_invariant {step : σ → α → σ} {P Q : σ → Prop} {C : σ → α → Prop}
    (hinv : ∀ s a, Q s → Q (step s a)) (hstep : ∀ s a, Q s → P s → (P (step s a) ↔ C s a)) {s : σ}
    (hQ : Q s) (hP : P s) (l : List α) :
    (∀ pre, pre <+: l → P (pre.foldl step s)) ↔
      ∀ pre a post, l = pre ++ a :: post → C (pre.foldl step s) a := by
  have hQ' : ∀ pre : List α, Q (pre.foldl step s) := fun pre => by
    induction pre using List.reverseRecOn with
    | nil => exact hQ
    | append_singleton pre a ih =>
        rw [List.foldl_append]
        exact hinv _ a ih
  exact always_iff_of_permitted (G := fun s _ => Q s) hstep hP fun pre _ _ _ => hQ' pre

/-- A property that each step keeps exactly under a condition. -/
theorem always_iff {step : σ → α → σ} {P : σ → Prop} {C : σ → α → Prop}
    (hstep : ∀ s a, P s → (P (step s a) ↔ C s a)) {s : σ} (hs : P s) (l : List α) :
    (∀ pre, pre <+: l → P (pre.foldl step s)) ↔
      ∀ pre a post, l = pre ++ a :: post → C (pre.foldl step s) a :=
  always_iff_of_invariant (Q := fun _ => True) (fun _ _ _ => trivial)
    (fun s a _ h => hstep s a h) trivial hs l

/-- A fold that stops at the first state with `stop`: the state it stops in and what it has
not read. -/
def foldUntil (next : σ → α → σ) (stop : σ → Bool) : List α → σ → σ × List α
  | [], s => (s, [])
  | a :: rest, s => if stop s then (s, a :: rest) else foldUntil next stop rest (next s a)

/-- Reading on from where the fold stopped gives the whole fold. -/
theorem foldl_foldUntil (next : σ → α → σ) (stop : σ → Bool) (l : List α) (s : σ) :
    (foldUntil next stop l s).2.foldl next (foldUntil next stop l s).1 = l.foldl next s := by
  induction l generalizing s with
  | nil => rfl
  | cons a rest ih =>
      rw [foldUntil]
      split
      · rfl
      · exact ih (next s a)

/-- What a stopped fold has not read is the end of the list. -/
theorem foldUntil_isSuffix (next : σ → α → σ) (stop : σ → Bool) (l : List α) (s : σ) :
    (foldUntil next stop l s).2 <:+ l := by
  induction l generalizing s with
  | nil => exact List.suffix_refl []
  | cons a rest ih =>
      rw [foldUntil]
      split
      · exact List.suffix_refl _
      · exact (ih (next s a)).trans (List.suffix_cons a rest)

/-- A property kept by every step holds where the fold stops. -/
theorem foldUntil_invariant (next : σ → α → σ) (stop : σ → Bool) {P : σ → Prop} {l : List α}
    (hnext : ∀ s, ∀ a ∈ l, P s → P (next s a)) {s : σ} (hs : P s) : P (foldUntil next stop l s).1 := by
  induction l generalizing s with
  | nil => exact hs
  | cons a rest ih =>
      rw [foldUntil]
      split
      · exact hs
      · exact ih (fun s b hb => hnext s b (List.mem_cons_of_mem _ hb))
          (hnext s a List.mem_cons_self hs)

/-- A fold whose steps change nothing. -/
theorem eq_ok_of_const {f : σ → α → Except ε σ} {l : List α}
    (h : ∀ s a, a ∈ l → f s a = .ok s) {s : σ} : l.foldlM f s = .ok s := by
  induction l with
  | nil => rfl
  | cons a rest ih =>
      rw [List.foldlM_cons, h s a List.mem_cons_self]
      exact ih fun s a ha => h s a (List.mem_cons_of_mem _ ha)

/-- Splitting a fold over two lists whose first part succeeds. -/
theorem append_of_ok {f : σ → α → Except ε σ} {l l' : List α} {s s' : σ}
    (h : l.foldlM f s = .ok s') : (l ++ l').foldlM f s = l'.foldlM f s' := by
  rw [List.foldlM_append, h]
  rfl

/-- A fold can be resumed in any state with the image of the one it was left in, when what is
returned at the end depends on that image only. -/
theorem resume {τ : Type v} {γ : Type x} {f : σ → α → Except ε σ} {g : σ → γ}
    (hstep : ∀ s s' a, g s = g s' → (f s a).map g = (f s' a).map g) {finish : σ → Except ε τ}
    (hfinish : ∀ s s', g s = g s' → finish s = finish s') {l : List α} {s left resumed : σ}
    (h : l.foldlM f s = .ok left) (hg : g resumed = g left) (l' : List α) :
    (l'.foldlM f resumed >>= finish) = ((l ++ l').foldlM f s >>= finish) := by
  rw [append_of_ok h]
  exact Except.bind_congr_of_map (map_eq_of_step hstep hg l') hfinish

/-- A loop without state returns exactly when no step raises. -/
theorem forM_eq_ok_iff {α : Type u} {f : α → Except ε PUnit} {l : List α} :
    l.forM f = .ok ⟨⟩ ↔ ∀ a ∈ l, f a = .ok ⟨⟩ := by
  induction l with
  | nil => simp [List.forM_eq_forM, pure, Except.pure]
  | cons a rest ih =>
      rw [List.forall_mem_cons, ← ih]
      rw [List.forM_eq_forM, List.forM_cons, Except.bind_eq_ok_iff]
      constructor
      · rintro ⟨_, ha, hrest⟩
        exact ⟨ha, hrest⟩
      · rintro ⟨ha, hrest⟩
        exact ⟨_, ha, hrest⟩

theorem mapM_eq_ok {β : Type v} {γ : Type v} {f : β → Except ε γ} {g : β → γ} {l : List β}
    (h : ∀ x ∈ l, f x = .ok (g x)) : l.mapM f = .ok (l.map g) := by
  induction l with
  | nil => rfl
  | cons x rest ih =>
      rw [List.mapM_cons, h x List.mem_cons_self,
        ih fun y hy => h y (List.mem_cons_of_mem _ hy)]
      rfl

/-- Decoding a list of encoded values. -/
theorem mapM_map_of_inverse {β : Type v} {γ : Type v} {encode : β → γ}
    {decode : γ → Except ε β} {l : List β} (h : ∀ x ∈ l, decode (encode x) = .ok x) :
    (l.map encode).mapM decode = .ok l := by
  rw [List.mapM_map]
  simpa using mapM_eq_ok (f := decode ∘ encode) (g := id) h

theorem forall₂_of_mapM {β : Type v} {γ : Type v} {f : β → Except ε γ} {l : List β}
    {l' : List γ} (h : l.mapM f = .ok l') : List.Forall₂ (fun x y => f x = .ok y) l l' := by
  induction l generalizing l' with
  | nil =>
      simp only [List.mapM_nil, Except.pure_eq_ok_iff] at h
      exact h ▸ .nil
  | cons x rest ih =>
      rw [List.mapM_cons, Except.bind_eq_ok_iff] at h
      obtain ⟨y, hy, h⟩ := h
      rw [Except.bind_eq_ok_iff] at h
      obtain ⟨ys, hys, h⟩ := h
      rw [Except.pure_eq_ok_iff] at h
      exact h ▸ .cons hy (ih hys)

theorem mapM_of_forall₂ {β : Type v} {γ : Type v} {f : β → Except ε γ} {l : List β}
    {l' : List γ} (h : List.Forall₂ (fun x y => f x = .ok y) l l') : l.mapM f = .ok l' := by
  induction h with
  | nil => rfl
  | cons hxy _ ih =>
      rw [List.mapM_cons, hxy, ih]
      rfl

/-- Results follow a reordering of the list. -/
theorem mapM_perm {β : Type v} {γ : Type v} {f : β → Except ε γ} {l l' : List β} {r : List γ}
    (hperm : l'.Perm l) (h : l.mapM f = .ok r) : ∃ r', l'.mapM f = .ok r' ∧ r'.Perm r := by
  obtain ⟨r', hall, hr⟩ := List.perm_comp_forall₂ hperm (forall₂_of_mapM h)
  exact ⟨r', mapM_of_forall₂ hall, hr⟩

theorem mapM_append_eq_ok {β : Type v} {γ : Type v} {f : β → Except ε γ} {l l' : List β}
    {r r' : List γ} (h : l.mapM f = .ok r) (h' : l'.mapM f = .ok r') :
    (l ++ l').mapM f = .ok (r ++ r') :=
  mapM_of_forall₂ (List.rel_append (forall₂_of_mapM h) (forall₂_of_mapM h'))

theorem mem_of_mapM {β : Type v} {γ : Type v} {f : β → Except ε γ} {l : List β} {l' : List γ}
    (h : l.mapM f = .ok l') : ∀ y ∈ l', ∃ x ∈ l, f x = .ok y := by
  have hall := forall₂_of_mapM h
  clear h
  induction hall with
  | nil => simp
  | cons hxy _ ih =>
      intro y hy
      rcases List.mem_cons.mp hy with rfl | hy
      · exact ⟨_, List.mem_cons_self, hxy⟩
      · obtain ⟨x, hx, hfx⟩ := ih y hy
        exact ⟨x, List.mem_cons_of_mem _ hx, hfx⟩

end Fold

/-- Related lists satisfy related properties together. -/
theorem List.Forall₂.forall_mem_iff {α : Type v} {β : Type w} {r : α → β → Prop} {l : List α}
    {l' : List β} (h : List.Forall₂ r l l') {p : α → Prop} {q : β → Prop}
    (hpq : ∀ a b, b ∈ l' → r a b → (p a ↔ q b)) : (∀ a ∈ l, p a) ↔ ∀ b ∈ l', q b := by
  induction h with
  | nil => simp
  | cons hab _ ih =>
      rw [List.forall_mem_cons, List.forall_mem_cons, hpq _ _ List.mem_cons_self hab,
        ih fun a b hb => hpq a b (List.mem_cons_of_mem _ hb)]

theorem List.Forall₂.exists_of_mem {α : Type v} {β : Type w} {r : α → β → Prop} {l : List α}
    {l' : List β} (h : List.Forall₂ r l l') {a : α} (ha : a ∈ l) : ∃ b ∈ l', r a b := by
  induction h with
  | nil => cases ha
  | cons hab _ ih =>
      rcases List.mem_cons.mp ha with rfl | ha
      · exact ⟨_, List.mem_cons_self, hab⟩
      · obtain ⟨b, hb, hr⟩ := ih ha
        exact ⟨b, List.mem_cons_of_mem _ hb, hr⟩

theorem List.exists_forall₂ {α : Type v} {β : Type w} {r : α → β → Prop} {l : List α}
    (h : ∀ a ∈ l, ∃ b, r a b) : ∃ l', List.Forall₂ r l l' := by
  induction l with
  | nil => exact ⟨[], .nil⟩
  | cons a rest ih =>
      obtain ⟨b, hb⟩ := h a List.mem_cons_self
      obtain ⟨l', hl'⟩ := ih fun a ha => h a (List.mem_cons_of_mem _ ha)
      exact ⟨b :: l', .cons hb hl'⟩

/-- A list with the element at a position replaced: the others and the new one. -/
theorem List.mem_set_iff_eraseIdx {α : Type v} {l : List α} {i : Nat} {a : α} (h : l[i]? = some a)
    (x t : α) : t ∈ l.set i x ↔ t ∈ l.eraseIdx i ∨ t = x := by
  have hi : i < l.length := (List.getElem?_eq_some_iff.mp h).1
  rw [List.set_eq_take_append_cons_drop, if_pos hi, List.eraseIdx_eq_take_drop_succ,
    List.mem_append, List.mem_append, List.mem_cons]
  tauto

theorem List.mem_iff_eraseIdx {α : Type v} {l : List α} {i : Nat} {a : α} (h : l[i]? = some a)
    (t : α) : t ∈ l ↔ t ∈ l.eraseIdx i ∨ t = a := by
  rw [← List.mem_set_iff_eraseIdx h a t]
  obtain ⟨hi, rfl⟩ := List.getElem?_eq_some_iff.mp h
  rw [List.set_getElem_self]
