import Mathlib.Data.String.Basic
import RationaleVault.Ledger.Commit
import RationaleVault.Library.Table

/-!
# One canonical form

`canonicalize` orders the keys of an object and normalizes the strings that
are values. Keys are taken as they are, so two spellings of one key are two
keys. Values have one canonical form exactly when they differ in nothing but
the order of keys and the normal form of the strings that are values.
-/

/-- No object has two members with one key, as in a dict. -/
inductive Json.DistinctKeys : Json → Prop
  | atom (a : Atom) : DistinctKeys (.atom a)
  | arr {items : List Json} (hitems : ∀ x ∈ items, DistinctKeys x) : DistinctKeys (.arr items)
  | obj {members : JsonObj} (hkeys : (members.map Prod.fst).Nodup)
      (hvalues : ∀ m ∈ members, DistinctKeys m.2) : DistinctKeys (.obj members)

theorem Json.DistinctKeys.of_atoms {members : JsonObj} (hkeys : (members.map Prod.fst).Nodup)
    (hatoms : ∀ m ∈ members, ∃ a, m.2 = .atom a) : (Json.obj members).DistinctKeys := by
  refine .obj hkeys fun m hm => ?_
  obtain ⟨a, ha⟩ := hatoms m hm
  rw [ha]
  exact .atom a

namespace RationaleVault

namespace Canonical

variable (nfc : Normalizer)

mutual

/-- Values that differ in the order of keys and the normal form of strings, and in keys as
`key` allows. -/
inductive Agree (key : String → String → Prop) : Json → Json → Prop
  | str {s s' : String} (h : nfc.normalize s = nfc.normalize s') : Agree key (.str s) (.str s')
  | atom (a : Atom) : Agree key (.atom a) (.atom a)
  | arr {items items' : List Json} (h : AgreeItems key items items') :
      Agree key (.arr items) (.arr items')
  | obj {members reordered members' : JsonObj} (h : AgreeMembers key members reordered)
      (hperm : reordered.Perm members') : Agree key (.obj members) (.obj members')

inductive AgreeItems (key : String → String → Prop) : List Json → List Json → Prop
  | nil : AgreeItems key [] []
  | cons {x x' : Json} {rest rest' : List Json} (h : Agree key x x')
      (hrest : AgreeItems key rest rest') : AgreeItems key (x :: rest) (x' :: rest')

inductive AgreeMembers (key : String → String → Prop) : JsonObj → JsonObj → Prop
  | nil : AgreeMembers key [] []
  | cons {k k' : String} {x x' : Json} {rest rest' : JsonObj} (hk : key k k') (h : Agree key x x')
      (hrest : AgreeMembers key rest rest') : AgreeMembers key ((k, x) :: rest) ((k', x') :: rest')

end

/-- The values differ in the order of keys and in the normal form of strings, keys included. -/
def Equivalent : Json → Json → Prop := Agree nfc fun k k' => nfc.normalize k = nfc.normalize k'

/-- The values differ in the order of keys and in the normal form of strings that are values:
every key is spelled the same in both. -/
def SameSpelling : Json → Json → Prop := Agree nfc Eq

/-! ## Objects -/

section

variable {nfc}

theorem canonicalize_obj (members : JsonObj) :
    canonicalize nfc (.obj members) =
      .obj (Table.orderBy Prod.fst (canonicalizeMembers nfc members)) := by
  rw [canonicalize, Table.orderBy]

theorem fst_canonicalizeMembers (members : JsonObj) :
    (canonicalizeMembers nfc members).map Prod.fst = members.map Prod.fst := by
  rw [canonicalizeMembers_eq_map, List.map_map]
  rfl

/-- Objects whose members are those of each other have one canonical form. -/
theorem canonicalize_obj_eq_of_perm {members members' : JsonObj}
    (hperm : (canonicalizeMembers nfc members).Perm (canonicalizeMembers nfc members'))
    (hkeys : (members'.map Prod.fst).Nodup) :
    canonicalize nfc (.obj members) = canonicalize nfc (.obj members') := by
  rw [canonicalize_obj, canonicalize_obj, Json.obj.injEq]
  apply Eq.symm
  apply Table.orderBy_eq_of_perm hperm.symm
  rwa [fst_canonicalizeMembers]

/-- Objects with one canonical form have the same canonical members. -/
theorem perm_of_canonicalize_obj_eq {members members' : JsonObj}
    (h : canonicalize nfc (.obj members) = canonicalize nfc (.obj members')) :
    (canonicalizeMembers nfc members).Perm (canonicalizeMembers nfc members') := by
  rw [canonicalize_obj, canonicalize_obj, Json.obj.injEq] at h
  calc
    (canonicalizeMembers nfc members).Perm
        (Table.orderBy Prod.fst (canonicalizeMembers nfc members)) :=
      (Table.orderBy_perm _ _).symm
    _ = Table.orderBy Prod.fst (canonicalizeMembers nfc members') := h
    List.Perm _ (canonicalizeMembers nfc members') := Table.orderBy_perm _ _

/-! ## Spelling decides -/

mutual

/-- Values whose keys are spelled the same have one canonical form. -/
theorem canonicalize_eq_of_agree {v v' : Json} (h : Agree nfc Eq v v') (hv' : v'.DistinctKeys) :
    canonicalize nfc v = canonicalize nfc v' := by
  cases h with
  | str hs => rw [canonicalize, canonicalize, hs]
  | atom a => rfl
  | arr hitems =>
      cases hv' with
      | arr hv' => rw [canonicalize, canonicalize, canonicalizeItems_eq_of_agree hitems hv']
  | obj hmembers hperm =>
      cases hv' with
      | obj hkeys hvalues =>
          apply canonicalize_obj_eq_of_perm _ hkeys
          rw [canonicalizeMembers_eq_of_agree hmembers fun m hm => hvalues m (hperm.mem_iff.mp hm),
            canonicalizeMembers_eq_map, canonicalizeMembers_eq_map]
          exact hperm.map _

theorem canonicalizeItems_eq_of_agree {items items' : List Json}
    (h : AgreeItems nfc Eq items items') (hitems' : ∀ x ∈ items', x.DistinctKeys) :
    canonicalizeItems nfc items = canonicalizeItems nfc items' := by
  cases h with
  | nil => rfl
  | cons hx hrest =>
      rw [List.forall_mem_cons] at hitems'
      rw [canonicalizeItems, canonicalizeItems, canonicalize_eq_of_agree hx hitems'.1,
        canonicalizeItems_eq_of_agree hrest hitems'.2]

theorem canonicalizeMembers_eq_of_agree {members members' : JsonObj}
    (h : AgreeMembers nfc Eq members members') (hvalues : ∀ m ∈ members', m.2.DistinctKeys) :
    canonicalizeMembers nfc members = canonicalizeMembers nfc members' := by
  cases h with
  | nil => rfl
  | cons hk hx hrest =>
      rw [List.forall_mem_cons] at hvalues
      rw [canonicalizeMembers, canonicalizeMembers, hk, canonicalize_eq_of_agree hx hvalues.1,
        canonicalizeMembers_eq_of_agree hrest hvalues.2]

end

mutual

/-- Values with one canonical form spell their keys the same. -/
theorem agree_of_canonicalize_eq : ∀ v v' : Json,
    canonicalize nfc v = canonicalize nfc v' → Agree nfc Eq v v'
  | .atom a, .atom a', h => by
      cases a <;> cases a' <;> simp only [canonicalize, Json.atom.injEq, Atom.str.injEq, reduceCtorEq] at h
      case str.str => exact .str h
      all_goals
        cases h
        exact .atom _
  | .arr items, .arr items', h => by
      rw [canonicalize, canonicalize, Json.arr.injEq] at h
      exact .arr (agreeItems_of_canonicalizeItems_eq items items' h)
  | .obj members, .obj members', h => by
      obtain ⟨reordered, hagree, hperm⟩ :=
        agreeMembers_of_perm members members' (perm_of_canonicalize_obj_eq h)
      exact .obj hagree hperm
  | .atom a, .arr _, h => by cases a <;> simp [canonicalize] at h
  | .atom a, .obj _, h => by cases a <;> simp [canonicalize] at h
  | .arr _, .atom a, h => by cases a <;> simp [canonicalize] at h
  | .arr _, .obj _, h => by simp [canonicalize] at h
  | .obj _, .atom a, h => by cases a <;> simp [canonicalize] at h
  | .obj _, .arr _, h => by simp [canonicalize] at h

theorem agreeItems_of_canonicalizeItems_eq : ∀ items items' : List Json,
    canonicalizeItems nfc items = canonicalizeItems nfc items' → AgreeItems nfc Eq items items'
  | [], [], _ => .nil
  | [], _ :: _, h => by simp [canonicalizeItems] at h
  | _ :: _, [], h => by simp [canonicalizeItems] at h
  | x :: rest, x' :: rest', h => by
      rw [canonicalizeItems, canonicalizeItems, List.cons.injEq] at h
      exact .cons (agree_of_canonicalize_eq x x' h.1)
        (agreeItems_of_canonicalizeItems_eq rest rest' h.2)

theorem agreeMembers_of_perm : ∀ members members' : JsonObj,
    (canonicalizeMembers nfc members).Perm (canonicalizeMembers nfc members') →
      ∃ reordered, AgreeMembers nfc Eq members reordered ∧ reordered.Perm members'
  | [], members', h => by
      rw [canonicalizeMembers, canonicalizeMembers_eq_map, List.nil_perm, List.map_eq_nil_iff] at h
      exact ⟨[], .nil, by rw [h]⟩
  | (k, x) :: rest, members', h => by
      -- the partner of the first member is taken out of the other object
      have hmem : (k, canonicalize nfc x) ∈ canonicalizeMembers nfc members' :=
        h.subset List.mem_cons_self
      rw [canonicalizeMembers_eq_map] at hmem
      obtain ⟨⟨k', x'⟩, hm', heq⟩ := List.mem_map.mp hmem
      obtain ⟨rfl, hx⟩ := Prod.mk.inj heq
      obtain ⟨before, after, rfl⟩ := List.append_of_mem hm'
      have hmiddle : (before ++ (k', x') :: after).Perm ((k', x') :: (before ++ after)) :=
        List.perm_middle
      have hrest : (canonicalizeMembers nfc rest).Perm (canonicalizeMembers nfc (before ++ after)) := by
        apply List.Perm.cons_inv (a := (k', canonicalize nfc x))
        calc
          ((k', canonicalize nfc x) :: canonicalizeMembers nfc rest).Perm
              (canonicalizeMembers nfc (before ++ (k', x') :: after)) := h
          List.Perm _ (canonicalizeMembers nfc ((k', x') :: (before ++ after))) := by
            rw [canonicalizeMembers_eq_map, canonicalizeMembers_eq_map]
            exact hmiddle.map _
          _ = (k', canonicalize nfc x) :: canonicalizeMembers nfc (before ++ after) := by
            rw [canonicalizeMembers, hx]
      obtain ⟨reordered, hagree, hperm⟩ := agreeMembers_of_perm rest (before ++ after) hrest
      exact ⟨(k', x') :: reordered,
        .cons rfl (agree_of_canonicalize_eq x x' hx.symm) hagree,
        (hperm.cons _).trans hmiddle.symm⟩

end

/-- Exactly the values whose keys are spelled the same have one canonical form. -/
theorem canonicalize_eq_iff {v v' : Json} (hv' : v'.DistinctKeys) :
    canonicalize nfc v = canonicalize nfc v' ↔ SameSpelling nfc v v' :=
  ⟨agree_of_canonicalize_eq v v', fun h => canonicalize_eq_of_agree h hv'⟩

/-! ## Idempotence -/

mutual

/-- A canonical value is its own canonical form. -/
theorem canonicalize_canonicalize
    (hnfc : ∀ s, nfc.normalize (nfc.normalize s) = nfc.normalize s) :
    ∀ v : Json, canonicalize nfc (canonicalize nfc v) = canonicalize nfc v
  | .atom a => by cases a <;> simp [canonicalize, hnfc]
  | .arr items => by
      rw [canonicalize, canonicalize, canonicalizeItems_canonicalizeItems hnfc items]
  | .obj members => by
      have hmap := Table.map_orderBy Prod.fst Prod.fst (fun m => (m.1, canonicalize nfc m.2))
        (fun _ => rfl) (canonicalizeMembers nfc members)
      rw [canonicalize_obj, canonicalize_obj, Json.obj.injEq, canonicalizeMembers_eq_map, hmap,
        ← canonicalizeMembers_eq_map, canonicalizeMembers_canonicalizeMembers hnfc members,
        Table.orderBy_orderBy]

theorem canonicalizeItems_canonicalizeItems
    (hnfc : ∀ s, nfc.normalize (nfc.normalize s) = nfc.normalize s) :
    ∀ items : List Json,
      canonicalizeItems nfc (canonicalizeItems nfc items) = canonicalizeItems nfc items
  | [] => rfl
  | x :: rest => by
      rw [canonicalizeItems, canonicalizeItems, canonicalize_canonicalize hnfc x,
        canonicalizeItems_canonicalizeItems hnfc rest]

theorem canonicalizeMembers_canonicalizeMembers
    (hnfc : ∀ s, nfc.normalize (nfc.normalize s) = nfc.normalize s) :
    ∀ members : JsonObj,
      canonicalizeMembers nfc (canonicalizeMembers nfc members) = canonicalizeMembers nfc members
  | [] => rfl
  | (k, x) :: rest => by
      rw [canonicalizeMembers, canonicalizeMembers, canonicalize_canonicalize hnfc x,
        canonicalizeMembers_canonicalizeMembers hnfc rest]

end

end

end Canonical

/-! ## Commits -/

namespace CanonicalEnvelope

/-- The event with another payload. -/
def withPayload (e : CanonicalEnvelope) (payload : JsonObj) : CanonicalEnvelope :=
  { e with payload := payload }

variable {nfc : Canonical.Normalizer}

theorem canonicalize_withPayload_iff {e : CanonicalEnvelope} {payload : JsonObj} :
    Canonical.canonicalize nfc (.obj e.toDict) =
        Canonical.canonicalize nfc (.obj (e.withPayload payload).toDict) ↔
      Canonical.canonicalize nfc (.obj e.payload) = Canonical.canonicalize nfc (.obj payload) := by
  constructor
  · exact fun h => (alike_of_canonicalize_eq h).payload
  · intro h
    have hmembers : Canonical.canonicalizeMembers nfc e.toDict =
        Canonical.canonicalizeMembers nfc (e.withPayload payload).toDict := by
      simp only [Canonical.canonicalizeMembers_eq_map, toDict, withPayload, List.map_append,
        List.map_cons, List.map_nil, h]
    rw [Canonical.canonicalize_obj, Canonical.canonicalize_obj, hmembers]

/-- Commits have one text when their events have one canonical form each. -/
theorem commitText_eq_iff {events events' : List CanonicalEnvelope} :
    commitText nfc events = commitText nfc events' ↔
      events.map (fun e => Canonical.canonicalize nfc (.obj e.toDict)) =
        events'.map fun e => Canonical.canonicalize nfc (.obj e.toDict) := by
  rw [commitText, commitText, (Json.dumps_injective .canonical).eq_iff, Canonical.canonicalize,
    Canonical.canonicalize, Json.arr.injEq, Canonical.canonicalizeItems_eq_map,
    Canonical.canonicalizeItems_eq_map, List.map_map, List.map_map]
  rfl

/-- Commits of events that differ in their payloads only have one text exactly when the payloads
spell their keys the same. -/
theorem commitText_withPayload_iff {events : List CanonicalEnvelope} {payloads : List JsonObj}
    (hlength : events.length = payloads.length)
    (hpayloads : ∀ p ∈ payloads, (Json.obj p).DistinctKeys) :
    commitText nfc events = commitText nfc (events.zipWith withPayload payloads) ↔
      List.Forall₂ (fun e p => Canonical.SameSpelling nfc (.obj e.payload) (.obj p))
        events payloads := by
  rw [commitText_eq_iff]
  induction events generalizing payloads with
  | nil =>
      rw [List.length_eq_zero_iff.mp hlength.symm]
      simp
  | cons e rest ih =>
      cases payloads with
      | nil => cases hlength
      | cons p payloads =>
          rw [List.forall_mem_cons] at hpayloads
          rw [List.zipWith_cons_cons, List.map_cons, List.map_cons, List.cons.injEq,
            List.forall₂_cons, canonicalize_withPayload_iff, Canonical.canonicalize_eq_iff hpayloads.1,
            ih (Nat.succ.inj hlength) hpayloads.2]

/-- Values that differ in the order of keys and the normal form of strings have one canonical form
exactly when every key is spelled the same in both, and so have events that differ in such
payloads only. A canonical value is its own canonical form. -/
theorem one_canonical_form (nfc : Canonical.Normalizer)
    (hnfc : ∀ s, nfc.normalize (nfc.normalize s) = nfc.normalize s) :
    (∀ v v' : Json, v.DistinctKeys → v'.DistinctKeys → Canonical.Equivalent nfc v v' →
      (Canonical.canonicalize nfc v = Canonical.canonicalize nfc v' ↔
        Canonical.SameSpelling nfc v v')) ∧
    (∀ (events : List CanonicalEnvelope) (payloads : List JsonObj),
      (∀ p ∈ payloads, (Json.obj p).DistinctKeys) →
      List.Forall₂ (fun e p => Canonical.Equivalent nfc (.obj e.payload) (.obj p)) events payloads →
      (commitText nfc events = commitText nfc (events.zipWith withPayload payloads) ↔
        List.Forall₂ (fun e p => Canonical.SameSpelling nfc (.obj e.payload) (.obj p))
          events payloads) ∧
      (List.Forall₂ (fun e p => Canonical.SameSpelling nfc (.obj e.payload) (.obj p))
          events payloads →
        computeCommitId nfc events = computeCommitId nfc (events.zipWith withPayload payloads))) ∧
    (∀ v : Json, Canonical.canonicalize nfc (Canonical.canonicalize nfc v) =
      Canonical.canonicalize nfc v) := by
  refine ⟨fun v v' _ hv' _ => Canonical.canonicalize_eq_iff hv', ?_,
    Canonical.canonicalize_canonicalize hnfc⟩
  intro events payloads hpayloads hequivalent
  have htext : commitText nfc events = commitText nfc (events.zipWith withPayload payloads) ↔ _ :=
    commitText_withPayload_iff hequivalent.length_eq hpayloads
  refine ⟨htext, fun hspelling => ?_⟩
  rw [computeCommitId, computeCommitId, htext.mpr hspelling]

end CanonicalEnvelope

namespace Canonical

/-! ## Keys in two spellings -/

/-- Normalization of the texts in which the acute accent follows an `e` or is part of it. -/
def composeAcute : List Char → List Char
  | [] => []
  | 'e' :: '\u0301' :: rest => 'é' :: composeAcute rest
  | c :: rest => c :: composeAcute rest

theorem composeAcute_ascii : ∀ cs : List Char, (∀ c ∈ cs, c.toNat < 128) → composeAcute cs = cs
  | [], _ => rfl
  | [c], _ => by rw [composeAcute, composeAcute]; simp
  | c :: d :: rest, h => by
      have hd : d.toNat < 128 := h d (by simp)
      have hrest := composeAcute_ascii (d :: rest) fun c hc => h c (List.mem_cons_of_mem _ hc)
      rw [composeAcute, hrest]
      rintro rest' rfl heq
      rw [(List.cons.inj heq).1] at hd
      exact absurd hd (by decide)

/-- What is composed starts with the accent only when the text does. -/
theorem composeAcute_head {cs rest : List Char} (h : composeAcute cs = '\u0301' :: rest) :
    ∃ rest', cs = '\u0301' :: rest' := by
  cases cs using composeAcute.fun_cases with
  | case1 => simp [composeAcute] at h
  | case2 rest' => simp [composeAcute] at h
  | case3 c rest' hne =>
      rw [composeAcute.eq_3 _ _ hne] at h
      exact ⟨rest', by rw [(List.cons.inj h).1]⟩

theorem composeAcute_composeAcute (cs : List Char) :
    composeAcute (composeAcute cs) = composeAcute cs := by
  induction cs using composeAcute.induct with
  | case1 => rfl
  | case2 rest ih =>
      rw [composeAcute, composeAcute.eq_3 _ _ fun _ h _ => absurd h (by decide), ih]
  | case3 c rest hne ih =>
      rw [composeAcute.eq_3 _ _ hne, composeAcute.eq_3, ih]
      intro rest' hc hrest
      obtain ⟨rest'', heq⟩ := composeAcute_head hrest
      exact hne rest'' hc heq

/-- The normalizer of texts whose only accents are acute and on an `e`. -/
def Normalizer.acute : Normalizer where
  normalize s := String.ofList (composeAcute s.toList)
  ascii s hs := by rw [composeAcute_ascii _ hs, String.ofList_toList]

theorem acute_normalize_normalize (s : String) :
    Normalizer.acute.normalize (Normalizer.acute.normalize s) = Normalizer.acute.normalize s := by
  simp only [Normalizer.acute, String.toList_ofList, composeAcute_composeAcute]

/-- A payload whose key has the accent after the letter. -/
def decomposedKey : JsonObj := [("cafe\u0301", .int 1)]

/-- The same payload with the accented letter. -/
def composedKey : JsonObj := [("café", .int 1)]

theorem equivalent_decomposedKey :
    Equivalent .acute (.obj decomposedKey) (.obj composedKey) := by
  refine .obj (.cons ?_ (.atom _) .nil) (List.Perm.refl _)
  decide +kernel

/-- Two spellings of one key give two canonical forms, and commits with two texts. -/
theorem two_canonical_forms :
    (Json.obj decomposedKey).DistinctKeys ∧ (Json.obj composedKey).DistinctKeys ∧
      Equivalent .acute (.obj decomposedKey) (.obj composedKey) ∧
      canonicalize .acute (.obj decomposedKey) ≠ canonicalize .acute (.obj composedKey) ∧
      commitText .acute [(firstEvent "a").withPayload decomposedKey] ≠
        commitText .acute [(firstEvent "a").withPayload composedKey] := by
  refine ⟨.of_atoms (by decide) (by simp [decomposedKey]), .of_atoms (by decide) (by simp [composedKey]),
    equivalent_decomposedKey, ?_, ?_⟩
  · decide +kernel
  · decide +kernel

end Canonical

/-- Reordered keys and a normalized value keep the commit. -/
theorem one_canonical_form_acute :
    let e := (firstEvent "a").withPayload [("name", .str "cafe\u0301"), ("age", .int 1)]
    computeCommitId .acute [e] =
      computeCommitId .acute [e.withPayload [("age", .int 1), ("name", .str "café")]] := by
  intro e
  have hname : Canonical.Normalizer.acute.normalize "cafe\u0301" =
      Canonical.Normalizer.acute.normalize "café" := by decide +kernel
  have hspelling : ∀ key : String → String → Prop, key "name" "name" → key "age" "age" →
      Canonical.Agree .acute key (.obj e.payload) (.obj [("age", .int 1), ("name", .str "café")]) :=
    fun key hk hk' => .obj (.cons hk (.str hname) (.cons hk' (.atom _) .nil)) (List.Perm.swap _ _ _)
  have hforms := CanonicalEnvelope.one_canonical_form .acute Canonical.acute_normalize_normalize
  refine (hforms.2.1 [e] [_] ?_ (.cons (hspelling _ rfl rfl) .nil)).2 (.cons (hspelling _ rfl rfl) .nil)
  intro p hp
  rw [List.mem_singleton.mp hp]
  exact .of_atoms (by decide) (by simp)

end RationaleVault
