import RationaleVault.Canonical.Timestamp
import RationaleVault.Library.Delimited
import RationaleVault.Library.Sha256

/-!
# Stable ids

An id is the head of the digest of a seed, and a seed joins the arguments with
colons. The sequence and the time at its end can always be read back. The texts
in front of them can be read back exactly when neither has a colon.
-/

namespace RationaleVault

namespace Canonical

/-- `HASH_DISPLAY_LENGTH`. -/
def hashDisplayLength : Nat := 12

/-- `_hash_to_hex(seed.encode("utf-8"))[:HASH_DISPLAY_LENGTH]`. -/
def displayHash (seed : String) : String :=
  String.ofList ((Sha256.hexdigest seed).toList.take hashDisplayLength)

/-- A time that there is. -/
abbrev CanonicalTimestamp := {t : DateTime // t.Valid}

/-- The arguments of `generate_event_id`. -/
structure EventArguments where
  experienceId : String
  eventType : String
  sequence : Int
  timestamp : CanonicalTimestamp

/-- The arguments of `generate_experience_id`. -/
structure ExperienceArguments where
  actor : String
  streamId : String
  timestamp : CanonicalTimestamp

namespace StableIdGenerator

def eventSeed (a : EventArguments) : String :=
  a.experienceId ++ ":" ++ a.eventType ++ ":" ++ String.ofList (Json.encodeInt a.sequence) ++
    ":" ++ toIso8601 a.timestamp.1

def experienceSeed (a : ExperienceArguments) : String :=
  a.actor ++ ":" ++ a.streamId ++ ":" ++ toIso8601 a.timestamp.1

section Ids

variable (hash : String → String)

/-- `StableIdGenerator.generate_event_id(...)`, where `hash` is `displayHash`. -/
def generateEventId (a : EventArguments) : String := "EVT-" ++ hash (eventSeed a)

/-- `StableIdGenerator.generate_experience_id(...)`, where `hash` is `displayHash`. -/
def generateExperienceId (a : ExperienceArguments) : String := "EXP-" ++ hash (experienceSeed a)

end Ids

/-! ## The end of a seed -/

theorem length_toIso8601 {t : DateTime} (h : t.Valid) : (toIso8601 t).toList.length = 27 := by
  rw [toList_toIso8601 h]
  simp only [List.length_append, List.length_cons, Decimal.length_fixed, List.length_nil]

theorem toIso8601_inj {t t' : CanonicalTimestamp} (h : toIso8601 t.1 = toIso8601 t'.1) :
    t = t' := by
  have hread : (Except.ok t.1 : Except Exc DateTime) = .ok t'.1 := by
    rw [← fromIso8601_toIso8601 t.2, ← fromIso8601_toIso8601 t'.2, h]
  exact Subtype.ext (Except.ok.inj hread)

/-- The time is what the last characters of a seed say. -/
theorem append_toIso8601_inj {s s' : List Char} {t t' : CanonicalTimestamp}
    (h : s ++ ':' :: (toIso8601 t.1).toList = s' ++ ':' :: (toIso8601 t'.1).toList) :
    s = s' ∧ t = t' := by
  have hlength : (':' :: (toIso8601 t.1).toList).length =
      (':' :: (toIso8601 t'.1).toList).length := by
    rw [List.length_cons, List.length_cons, length_toIso8601 t.2, length_toIso8601 t'.2]
  obtain ⟨hs, ht⟩ := List.append_inj' h hlength
  exact ⟨hs, toIso8601_inj (String.toList_injective (List.cons.inj ht).2)⟩

theorem toList_experienceSeed (a : ExperienceArguments) : (experienceSeed a).toList =
    (a.actor.toList ++ ':' :: a.streamId.toList) ++ ':' :: (toIso8601 a.timestamp.1).toList := by
  simp [experienceSeed]

theorem toList_eventSeed (a : EventArguments) : (eventSeed a).toList =
    ((a.experienceId.toList ++ ':' :: a.eventType.toList) ++ ':' :: Json.encodeInt a.sequence) ++
      ':' :: (toIso8601 a.timestamp.1).toList := by
  simp [eventSeed]

theorem experienceSeed_eq_iff {a b : ExperienceArguments} : experienceSeed a = experienceSeed b ↔
    a.actor.toList ++ ':' :: a.streamId.toList = b.actor.toList ++ ':' :: b.streamId.toList ∧
      a.timestamp = b.timestamp := by
  rw [← String.toList_inj, toList_experienceSeed, toList_experienceSeed]
  constructor
  · exact append_toIso8601_inj
  · rintro ⟨htexts, htime⟩
    rw [htexts, htime]

theorem eventSeed_eq_iff {a b : EventArguments} : eventSeed a = eventSeed b ↔
    a.experienceId.toList ++ ':' :: a.eventType.toList =
        b.experienceId.toList ++ ':' :: b.eventType.toList ∧
      a.sequence = b.sequence ∧ a.timestamp = b.timestamp := by
  have hcolon : ∀ n, ':' ∉ Json.encodeInt n := Json.not_mem_encodeInt (by decide) (by decide)
  rw [← String.toList_inj, toList_eventSeed, toList_eventSeed]
  constructor
  · intro h
    obtain ⟨hhead, htime⟩ := append_toIso8601_inj h
    obtain ⟨htexts, hsequence⟩ := Delimited.append_cons_inj (hcolon _) (hcolon _) hhead
    have hread : some a.sequence = some b.sequence := by
      rw [← Json.readInt_encodeInt, ← Json.readInt_encodeInt, hsequence]
    exact ⟨htexts, Option.some.inj hread, htime⟩
  · rintro ⟨htexts, hsequence, htime⟩
    rw [htexts, hsequence, htime]

/-! ## What a seed identifies -/

/-- No other arguments have the seed of these. -/
def Identifies {α : Type} (seed : α → String) (a : α) : Prop := ∀ b, seed b = seed a → b = a

/-- A digest without collisions identifies what the seed identifies. -/
theorem identifies_append_hash {α : Type} {seed : α → String} {hash : String → String}
    (hhash : Function.Injective hash) (stem : String) (a : α) :
    Identifies (fun a => stem ++ hash (seed a)) a ↔ Identifies seed a := by
  have hsame : ∀ b, stem ++ hash (seed b) = stem ++ hash (seed a) ↔ seed b = seed a := fun b =>
    ⟨fun h => hhash (String.append_right_inj stem |>.mp h), fun h => by rw [h]⟩
  simp only [Identifies, hsame]

/-- Arguments are identified by their seeds exactly when their two texts have no colon. -/
theorem identifies_iff (a : EventArguments) (x : ExperienceArguments) :
    (Identifies eventSeed a ↔ ':' ∉ a.experienceId.toList ∧ ':' ∉ a.eventType.toList) ∧
      (Identifies experienceSeed x ↔ ':' ∉ x.actor.toList ∧ ':' ∉ x.streamId.toList) := by
  constructor
  · rw [← Delimited.append_cons_unique_iff]
    constructor
    · intro h s t hst
      have hsame := h ⟨String.ofList s, String.ofList t, a.sequence, a.timestamp⟩
        (eventSeed_eq_iff.mpr ⟨by simpa using hst, rfl, rfl⟩)
      rw [← hsame]
      simp
    · intro h b hseed
      obtain ⟨htexts, hsequence, htime⟩ := eventSeed_eq_iff.mp hseed
      obtain ⟨hexperience, htype⟩ := h _ _ htexts
      cases a
      cases b
      simp_all [String.toList_inj]
  · rw [← Delimited.append_cons_unique_iff]
    constructor
    · intro h s t hst
      have hsame := h ⟨String.ofList s, String.ofList t, x.timestamp⟩
        (experienceSeed_eq_iff.mpr ⟨by simpa using hst, rfl⟩)
      rw [← hsame]
      simp
    · intro h y hseed
      obtain ⟨htexts, htime⟩ := experienceSeed_eq_iff.mp hseed
      obtain ⟨hactor, hstream⟩ := h _ _ htexts
      cases x
      cases y
      simp_all [String.toList_inj]

/-- Ids identify the same arguments as seeds when the shortened digest has no collisions. -/
theorem identifies_generate {hash : String → String} (hhash : Function.Injective hash)
    (a : EventArguments) (x : ExperienceArguments) :
    (Identifies (generateEventId hash) a ↔ Identifies eventSeed a) ∧
      (Identifies (generateExperienceId hash) x ↔ Identifies experienceSeed x) :=
  ⟨identifies_append_hash hhash "EVT-" a, identifies_append_hash hhash "EXP-" x⟩

def midnight : CanonicalTimestamp := ⟨⟨2026, 1, 1, 0, 0, 0, 0⟩, by decide⟩

/-- A colon can stand in either text. -/
theorem one_id_for_two :
    eventSeed ⟨"EXP-1:decision", "recorded", 1, midnight⟩ =
        eventSeed ⟨"EXP-1", "decision:recorded", 1, midnight⟩ ∧
      generateEventId displayHash ⟨"EXP-1:decision", "recorded", 1, midnight⟩ =
        generateEventId displayHash ⟨"EXP-1", "decision:recorded", 1, midnight⟩ ∧
      experienceSeed ⟨"agent:1", "p", midnight⟩ = experienceSeed ⟨"agent", "1:p", midnight⟩ ∧
      generateExperienceId displayHash ⟨"agent:1", "p", midnight⟩ =
        generateExperienceId displayHash ⟨"agent", "1:p", midnight⟩ := by
  have hevent : eventSeed ⟨"EXP-1:decision", "recorded", 1, midnight⟩ =
      eventSeed ⟨"EXP-1", "decision:recorded", 1, midnight⟩ :=
    eventSeed_eq_iff.mpr ⟨by decide +kernel, rfl, rfl⟩
  have hexperience : experienceSeed ⟨"agent:1", "p", midnight⟩ =
      experienceSeed ⟨"agent", "1:p", midnight⟩ :=
    experienceSeed_eq_iff.mpr ⟨by decide +kernel, rfl⟩
  refine ⟨hevent, ?_, hexperience, ?_⟩
  · rw [generateEventId, generateEventId, hevent]
  · rw [generateExperienceId, generateExperienceId, hexperience]

end StableIdGenerator

end Canonical

end RationaleVault
