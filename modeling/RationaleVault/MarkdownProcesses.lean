import Mathlib.Logic.Function.Basic
import RationaleVault.Library.Noninterference
import RationaleVault.MarkdownRoundTrip

/-!
# Processes on one Markdown file

Adding a record takes the file lock for the reading only: the whole file is
written after the lock has been released. Two processes that read before either
writes lose a record. Nothing is lost exactly as long as every process still
finds in the file, apart from the record with the id that it adds, only records
that it has read.
-/

namespace RationaleVault

/-- How far a process is in its call. -/
inductive AddPhase (ρ : Type)
  | idle
  | locked (r : ρ)
  | parsed (r : ρ) (records : List ρ)
  | unlocked (r : ρ) (records : List ρ)

/-- The file, the process that holds its lock, the processes, and the records whose calls have
returned, with the versions that the calls gave them. -/
structure Processes (ρ ι : Type) where
  file : Option (List Char)
  holder : Option ι
  phase : ι → AddPhase ρ
  returned : List ρ

/-- One step of the call of process `i`. -/
inductive AddStep (ρ ι : Type)
  | acquire (i : ι) (r : ρ)
  | read (i : ι) (now : String)
  | release (i : ι)
  | write (i : ι)

namespace Processes

variable {ρ ι : Type} [DecidableEq ι]

/-- No file and no call. -/
def initial : Processes ρ ι := ⟨none, none, fun _ => .idle, []⟩

def setPhase (w : Processes ρ ι) (i : ι) (phase : AddPhase ρ) : Processes ρ ι :=
  { w with phase := Function.update w.phase i phase }

variable (F : MarkdownFormat ρ)

/-- The effect of a step. A step that is not the next one of its process does nothing. Reading
creates a missing file. -/
def step (w : Processes ρ ι) : AddStep ρ ι → Processes ρ ι
  | .acquire i r =>
      match w.phase i, w.holder with
      | .idle, none => { w.setPhase i (.locked r) with holder := some i }
      | _, _ => w
  | .read i now =>
      match w.phase i, F.getAll w.file now with
      | .locked r, some records =>
          { w.setPhase i (.parsed r records) with file := some (F.ensureFile w.file) }
      | _, _ => w
  | .release i =>
      match w.phase i with
      | .parsed r records => { w.setPhase i (.unlocked r records) with holder := none }
      | _ => w
  | .write i =>
      match w.phase i with
      | .unlocked r records =>
          { w.setPhase i .idle with
            file := some (F.writeRecords (F.upsert records r))
            returned := w.returned ++ [F.stored records r] }
      | _ => w

/-- Every record whose call has returned is read from the file, unless a later call has added
another one under its id. -/
def Present (w : Processes ρ ι) : Prop :=
  ∃ rows, (∀ now, F.getAll w.file now = some rows) ∧
    ∀ earlier r later, w.returned = earlier ++ r :: later → (∀ y ∈ later, F.id y ≠ F.id r) →
      r ∈ rows

/-- A process that writes has read all records of the file with other ids than the one it adds. -/
def Current (w : Processes ρ ι) : AddStep ρ ι → Prop
  | .write i =>
      ∀ r records, w.phase i = .unlocked r records → ∀ now rows, F.getAll w.file now = some rows →
        ∀ x ∈ rows, F.id x ≠ F.id r → x ∈ records
  | _ => True

variable {F} {w : Processes ρ ι} {i : ι} {steps : List (AddStep ρ ι)}

theorem step_write {r : ρ} {records : List ρ} (h : w.phase i = .unlocked r records) :
    w.step F (.write i) =
      { w.setPhase i .idle with
        file := some (F.writeRecords (F.upsert records r))
        returned := w.returned ++ [F.stored records r] } := by
  rw [step, h]

variable (F) in
/-- What a process has read can be written, and holds no id that no call has added. -/
structure HasRead (w : Processes ρ ι) (r : ρ) (records : List ρ) : Prop where
  added : F.Recoverable r
  legible : ∀ x ∈ records, F.Framed x ∧ F.Reads x
  ids_nodup : (records.map F.id).Nodup
  known : ∀ x ∈ records, ∃ y ∈ w.returned, F.id y = F.id x

variable (F) in
/-- The file holds the record that was added last under each id, and nothing else. -/
structure Sound (w : Processes ρ ι) (rows : List ρ) : Prop where
  keeps : F.Keeps w.file rows
  ids_nodup : (rows.map F.id).Nodup
  present : ∀ earlier r later, w.returned = earlier ++ r :: later →
    (∀ y ∈ later, F.id y ≠ F.id r) → r ∈ rows
  latest : ∀ x ∈ rows, ∃ earlier later, w.returned = earlier ++ x :: later ∧
    ∀ y ∈ later, F.id y ≠ F.id x
  locked : ∀ i r, w.phase i = .locked r → F.Recoverable r
  parsed : ∀ i r records, w.phase i = .parsed r records → HasRead F w r records
  unlocked : ∀ i r records, w.phase i = .unlocked r records → HasRead F w r records

omit [DecidableEq ι] in
theorem sound_initial : (initial : Processes ρ ι).Sound F [] where
  keeps := MarkdownFormat.keeps_none
  ids_nodup := by simp
  present := by simp [initial]
  latest := by simp
  locked := by simp [initial]
  parsed := by simp [initial]
  unlocked := by simp [initial]

omit [DecidableEq ι] in
/-- Every returned id is in the file. -/
theorem Sound.exists_mem {rows : List ρ} (h : w.Sound F rows) {y : ρ} (hy : y ∈ w.returned) :
    ∃ x ∈ rows, F.id x = F.id y := by
  -- the last call for the id of `y`
  obtain ⟨earlier, x, later, heq, hid, hlater⟩ : ∃ earlier x later,
      w.returned = earlier ++ x :: later ∧ F.id x = F.id y ∧ ∀ z ∈ later, F.id z ≠ F.id y := by
    cases hfind : w.returned.reverse.find? fun x => F.id x = F.id y with
    | none =>
        have hnone := List.find?_eq_none.mp hfind y (List.mem_reverse.mpr hy)
        simp at hnone
    | some x =>
        obtain ⟨hid, before, after, heq, hbefore⟩ := List.find?_eq_some_iff_append.mp hfind
        refine ⟨after.reverse, x, before.reverse, ?_, by simpa using hid, fun z hz => ?_⟩
        · simpa using congrArg List.reverse heq
        · simpa using hbefore z (List.mem_reverse.mp hz)
  exact ⟨x, h.present earlier x later heq fun z hz => hid ▸ hlater z hz, hid⟩

omit [DecidableEq ι] in
/-- What a process has read stays in order while the file grows. -/
theorem HasRead.mono {w' : Processes ρ ι} {r : ρ} {records : List ρ} (h : HasRead F w r records)
    (hreturned : ∀ y ∈ w.returned, y ∈ w'.returned) : HasRead F w' r records where
  added := h.added
  legible := h.legible
  ids_nodup := h.ids_nodup
  known x hx := by
    obtain ⟨y, hy, hid⟩ := h.known x hx
    exact ⟨y, hreturned y hy, hid⟩

omit [DecidableEq ι] in
/-- A record that a process has read and no other call has replaced is still in the file. -/
theorem Sound.mem_of_current {rows records : List ρ} {r x : ρ} (h : w.Sound F rows)
    (hread : HasRead F w r records) (hcurrent : ∀ x ∈ rows, F.id x ≠ F.id r → x ∈ records)
    (hx : x ∈ records) (hid : F.id x ≠ F.id r) : x ∈ rows := by
  obtain ⟨y, hy, hyx⟩ := hread.known x hx
  obtain ⟨x', hx', hx'y⟩ := h.exists_mem hy
  have hsame : F.id x' = F.id x := hx'y.trans hyx
  have hmem : x' ∈ records := hcurrent x' hx' (hsame.trans_ne hid)
  rw [← List.inj_on_of_nodup_map hread.ids_nodup hmem hx hsame]
  exact hx'

/-- A write of a process that has read the other records. -/
theorem Sound.write {rows records : List ρ} {r : ρ} (h : w.Sound F rows)
    (hphase : w.phase i = .unlocked r records)
    (hcurrent : ∀ x ∈ rows, F.id x ≠ F.id r → x ∈ records) :
    (w.step F (.write i)).Sound F (F.upsert records r) := by
  have hread := h.unlocked i r records hphase
  have hstored := hread.added.stored records
  have hupsert := MarkdownFormat.forall_mem_upsert hread.legible hstored
  have hid : F.id (F.stored records r) = F.id r := MarkdownFormat.id_stored records r
  have hmem : ∀ x, x ∈ F.upsert records r ↔ x = F.stored records r ∨ x ∈ records ∧ F.id x ≠ F.id r :=
    fun x => MarkdownFormat.mem_upsert hread.ids_nodup
  have hreturned : ∀ y ∈ w.returned, y ∈ w.returned ++ [F.stored records r] :=
    fun y hy => List.mem_append_left _ hy
  rw [step_write hphase]
  refine ⟨⟨MarkdownFormat.getAll_writeRecords hupsert, hupsert⟩,
    MarkdownFormat.nodup_upsert hread.ids_nodup r, fun earlier x later heq hlater => ?_,
    fun x hx => ?_, fun j x hj => ?_, fun j x xs hj => ?_, fun j x xs hj => ?_⟩
  · rw [hmem]
    rcases List.eq_nil_or_concat later with rfl | ⟨mid, y, rfl⟩
    · exact Or.inl (List.cons.inj (List.append_inj' heq rfl).2).1.symm
    · have hsplit : w.returned ++ [F.stored records r] = (earlier ++ x :: mid) ++ [y] := by
        simpa using heq
      obtain ⟨hbefore, hlast⟩ := List.append_inj' hsplit rfl
      have hy : F.id x ≠ F.id r := by
        rw [← hid, (List.cons.inj hlast).1]
        exact (hlater y (by simp)).symm
      have hold := h.present earlier x mid hbefore fun z hz => hlater z (by simp [hz])
      exact Or.inr ⟨hcurrent x hold hy, hy⟩
  · rcases (hmem x).mp hx with rfl | ⟨hx, hne⟩
    · exact ⟨w.returned, [], rfl, by simp⟩
    · obtain ⟨earlier, later, heq, hlater⟩ :=
        h.latest x (h.mem_of_current hread hcurrent hx hne)
      refine ⟨earlier, later ++ [F.stored records r], by simp [heq], fun y hy => ?_⟩
      rcases List.mem_append.mp hy with hy | hy
      · exact hlater y hy
      · rw [List.mem_singleton.mp hy, hid]
        exact hne.symm
  · by_cases hji : j = i
    · subst hji
      simp [setPhase] at hj
    · exact h.locked j x (by simpa [setPhase, hji] using hj)
  · by_cases hji : j = i
    · subst hji
      simp [setPhase] at hj
    · exact (h.parsed j x xs (by simpa [setPhase, hji] using hj)).mono hreturned
  · by_cases hji : j = i
    · subst hji
      simp [setPhase] at hj
    · exact (h.unlocked j x xs (by simpa [setPhase, hji] using hj)).mono hreturned

/-- A step that leaves the records of the file alone. -/
theorem Sound.setPhase {rows : List ρ} (h : w.Sound F rows) {phase : AddPhase ρ}
    {file : Option (List Char)} (hfile : F.Keeps file rows) (holder : Option ι)
    (hlocked : ∀ r, phase = .locked r → F.Recoverable r)
    (hread : ∀ r records, phase = .parsed r records ∨ phase = .unlocked r records →
      HasRead F w r records) :
    ({ w.setPhase i phase with file := file, holder := holder }).Sound F rows := by
  refine ⟨hfile, h.ids_nodup, h.present, h.latest, fun j r hj => ?_, fun j r xs hj => ?_,
    fun j r xs hj => ?_⟩
  · by_cases hji : j = i
    · subst hji
      exact hlocked r (by simpa [Processes.setPhase] using hj)
    · exact h.locked j r (by simpa [Processes.setPhase, hji] using hj)
  · by_cases hji : j = i
    · subst hji
      exact (hread r xs (Or.inl (by simpa [Processes.setPhase] using hj))).mono fun _ hy => hy
    · exact (h.parsed j r xs (by simpa [Processes.setPhase, hji] using hj)).mono fun _ hy => hy
  · by_cases hji : j = i
    · subst hji
      exact (hread r xs (Or.inr (by simpa [Processes.setPhase] using hj))).mono fun _ hy => hy
    · exact (h.unlocked j r xs (by simpa [Processes.setPhase, hji] using hj)).mono fun _ hy => hy

/-- Reading creates a file that holds the same records. -/
theorem keeps_ensureFile {file : Option (List Char)} {rows : List ρ} (h : F.Keeps file rows) :
    F.Keeps (some (F.ensureFile file)) rows := ⟨h.read, h.legible⟩

theorem Sound.step {rows : List ρ} (h : w.Sound F rows) {a : AddStep ρ ι}
    (hrecoverable : ∀ j r, a = .acquire j r → F.Recoverable r) (hcurrent : w.Current F a) :
    ∃ rows', (w.step F a).Sound F rows' := by
  cases a with
  | acquire j r =>
      refine ⟨rows, ?_⟩
      rw [Processes.step]
      split
      · exact h.setPhase h.keeps (some j) (fun r' heq => by
          obtain rfl := AddPhase.locked.inj heq
          exact hrecoverable j r rfl) (fun r' xs heq => by simp at heq)
      · exact h
  | read j now =>
      refine ⟨rows, ?_⟩
      rw [Processes.step, h.keeps.read now]
      split
      · next r records hphase heq =>
          obtain rfl := Option.some.inj heq
          refine h.setPhase (keeps_ensureFile h.keeps) w.holder (fun r' heq => by cases heq)
            fun r' xs heq => ?_
          rcases heq with heq | heq
          · obtain ⟨rfl, rfl⟩ := AddPhase.parsed.inj heq
            refine ⟨h.locked j r hphase, h.keeps.legible, h.ids_nodup, fun x hx => ?_⟩
            obtain ⟨earlier, later, hreturned, -⟩ := h.latest x hx
            exact ⟨x, by simp [hreturned], rfl⟩
          · cases heq
      · exact h
  | release j =>
      refine ⟨rows, ?_⟩
      rw [Processes.step]
      split
      · next r records hphase =>
          refine h.setPhase h.keeps none (fun r' heq => by cases heq) fun r' xs heq => ?_
          rcases heq with heq | heq
          · cases heq
          · obtain ⟨rfl, rfl⟩ := AddPhase.unlocked.inj heq
            exact h.parsed j r records hphase
      · exact h
  | write j =>
      cases hphase : w.phase j with
      | unlocked r records =>
          exact ⟨_, h.write hphase (hcurrent r records hphase "" rows (h.keeps.read ""))⟩
      | _ => exact ⟨rows, by rw [Processes.step, hphase]; exact h⟩

/-- Every state of a run of current writes is sound. -/
theorem sound_run (hrecoverable : ∀ j r, .acquire j r ∈ steps → F.Recoverable r)
    (h : Noninterference.Along (Current F) (step F) initial steps) :
    ∃ rows, (steps.foldl (step F) initial).Sound F rows := by
  induction steps using List.reverseRecOn with
  | nil => exact ⟨[], sound_initial⟩
  | append_singleton init a ih =>
      obtain ⟨rows, hsound⟩ := ih (fun j r hj => hrecoverable j r (List.mem_append_left _ hj)) h.init
      rw [List.foldl_concat]
      apply hsound.step (fun j r heq => hrecoverable j r (by simp [heq]))
      exact h init a [] rfl

/-- A write that drops a record drops one whose call has returned. -/
theorem Sound.current_of_present {rows : List ρ} (h : w.Sound F rows) {a : AddStep ρ ι}
    (hpresent : (w.step F a).Present F) : w.Current F a := by
  cases a with
  | write j =>
      intro r records hphase now rows' hrows' x hx hid
      obtain rfl : rows = rows' := Option.some.inj ((h.keeps.read now).symm.trans hrows')
      have hread := h.unlocked j r records hphase
      have hupsert := MarkdownFormat.forall_mem_upsert hread.legible (hread.added.stored records)
      obtain ⟨after, hafter, hreturned⟩ := hpresent
      rw [step_write hphase] at hafter hreturned
      obtain rfl : F.upsert records r = after :=
        Option.some.inj ((MarkdownFormat.getAll_writeRecords hupsert "").symm.trans (hafter ""))
      obtain ⟨earlier, later, heq, hlater⟩ := h.latest x hx
      have hmem := hreturned earlier x (later ++ [F.stored records r]) (by simp [heq]) fun y hy => by
        rcases List.mem_append.mp hy with hy | hy
        · exact hlater y hy
        · rw [List.mem_singleton.mp hy, MarkdownFormat.id_stored]
          exact hid.symm
      rcases (MarkdownFormat.mem_upsert hread.ids_nodup).mp hmem with rfl | ⟨hx, -⟩
      · exact absurd (MarkdownFormat.id_stored records r) hid
      · exact hx
  | _ => trivial

/-- No record is lost in any state of a run exactly if every write of it is current. -/
theorem present_iff (hrecoverable : ∀ j r, .acquire j r ∈ steps → F.Recoverable r) :
    (∀ pre, pre <+: steps → (pre.foldl (step F) initial).Present F) ↔
      Noninterference.Along (Current F) (step F) initial steps := by
  constructor
  · intro hpresent
    induction steps using List.reverseRecOn with
    | nil => exact Noninterference.along_nil _ _ _
    | append_singleton init a ih =>
        have hinit := ih (fun j r hj => hrecoverable j r (List.mem_append_left _ hj))
          fun pre hpre => hpresent pre (hpre.trans (List.prefix_append init [a]))
        obtain ⟨rows, hsound⟩ :=
          sound_run (fun j r hj => hrecoverable j r (List.mem_append_left _ hj)) hinit
        apply hinit.concat (hsound.current_of_present _)
        have hlast := hpresent (init ++ [a]) (List.prefix_refl _)
        rwa [List.foldl_concat] at hlast
  · rintro hcurrent pre ⟨post, rfl⟩
    obtain ⟨rows, hsound⟩ := sound_run
      (fun j r hj => hrecoverable j r (List.mem_append_left _ hj))
      (fun pre' a post' heq => hcurrent pre' a (post' ++ post) (by rw [heq]; simp))
    exact ⟨rows, hsound.keeps.read, hsound.present⟩

end Processes

/-- However the calls of any number of processes interleave, no added memory is lost in any state
exactly if every process that writes has read all other records of the file. -/
theorem MarkdownMemoryProvider.add_record_present (u : UnicodeTables) (ft : FloatText) {ι : Type}
    [DecidableEq ι] (steps : List (AddStep MemoryRecord ι))
    (hrecoverable : ∀ j r, .acquire j r ∈ steps → (format u ft).Recoverable r) :
    (∀ pre, pre <+: steps → ∃ rows,
      (∀ now, getAllRecords u ft (pre.foldl (Processes.step (format u ft)) .initial).file now =
        some rows) ∧
      ∀ earlier r later,
        (pre.foldl (Processes.step (format u ft)) .initial).returned = earlier ++ r :: later →
        (∀ y ∈ later, y.id ≠ r.id) → r ∈ rows) ↔
      Noninterference.Along (Processes.Current (format u ft)) (Processes.step (format u ft))
        .initial steps := Processes.present_iff hrecoverable

/-! ## Two processes -/

/-- Another note. -/
def secondNote : MemoryRecord := { titledNote "Second" with id := "m2" }

theorem titledNote_recoverable : (MarkdownMemoryProvider.format .asciiOnly .zeroOne).Recoverable
    (titledNote "First") :=
  MarkdownMemoryProvider.recoverable_of_plain (by decide) (by decide) (by decide +kernel)

theorem secondNote_recoverable : (MarkdownMemoryProvider.format .asciiOnly .zeroOne).Recoverable
    secondNote :=
  MarkdownMemoryProvider.recoverable_of_plain (by decide) (by decide) (by decide +kernel)

/-- The second process has only acquired the lock when the first one writes. -/
def waitingNotes : List (AddStep MemoryRecord Bool) :=
  [.acquire false (titledNote "First"), .read false "", .release false, .acquire true secondNote,
    .write false]

theorem MarkdownMemoryProvider.add_record_present_waiting :
    ∃ rows,
      (∀ now, getAllRecords .asciiOnly .zeroOne
        (waitingNotes.foldl (Processes.step (format .asciiOnly .zeroOne)) .initial).file now =
          some rows) ∧
      ∀ earlier r later,
        (waitingNotes.foldl (Processes.step (format .asciiOnly .zeroOne)) .initial).returned =
          earlier ++ r :: later → (∀ y ∈ later, y.id ≠ r.id) → r ∈ rows := by
  refine (MarkdownMemoryProvider.add_record_present .asciiOnly .zeroOne waitingNotes ?_).mpr
    (.cons trivial (.cons trivial (.cons trivial (.cons trivial
      (.cons ?_ (Noninterference.along_nil _ _ _)))))) waitingNotes (List.prefix_refl _)
  · intro j r hr
    simp only [waitingNotes, List.mem_cons, AddStep.acquire.injEq, reduceCtorEq, false_or,
      List.not_mem_nil, or_false] at hr
    rcases hr with ⟨-, rfl⟩ | ⟨-, rfl⟩
    · exact titledNote_recoverable
    · exact secondNote_recoverable
  · intro r records hphase now rows hrows x hx _
    have hread : (MarkdownMemoryProvider.format .asciiOnly .zeroOne).getAll
        (some ((MarkdownMemoryProvider.format .asciiOnly .zeroOne).ensureFile none)) now =
        some [] := MarkdownFormat.keeps_none.read now
    have hempty : (MarkdownMemoryProvider.format .asciiOnly .zeroOne).getAll none "" = some [] :=
      MarkdownFormat.keeps_none.read ""
    have hnothing : [] = rows := by
      simpa [Processes.step, Processes.initial, Processes.setPhase, hempty, hread] using hrows
    rw [← hnothing] at hx
    cases hx

/-- Two processes read before either writes. -/
def overtakingNotes : List (AddStep MemoryRecord Bool) :=
  [.acquire false (titledNote "First"), .read false "", .release false,
    .acquire true secondNote, .read true "", .release true, .write false, .write true]

/-- All calls have returned and the first note is not in the file. -/
theorem MarkdownMemoryProvider.add_record_lost :
    (∀ i, (overtakingNotes.foldl (Processes.step (format .asciiOnly .zeroOne)) .initial).phase i =
        .idle) ∧
      ¬ ∃ rows,
        (∀ now, getAllRecords .asciiOnly .zeroOne
          (overtakingNotes.foldl (Processes.step (format .asciiOnly .zeroOne)) .initial).file now =
            some rows) ∧
        ∀ earlier r later,
          (overtakingNotes.foldl (Processes.step (format .asciiOnly .zeroOne)) .initial).returned =
            earlier ++ r :: later → (∀ y ∈ later, y.id ≠ r.id) → r ∈ rows := by
  have hempty : (format .asciiOnly .zeroOne).getAll none "" = some [] :=
    MarkdownFormat.keeps_none.read ""
  have hheader : (format .asciiOnly .zeroOne).getAll
      (some ((format .asciiOnly .zeroOne).ensureFile none)) "" = some [] :=
    MarkdownFormat.keeps_none.read ""
  have hphase : ∀ i, (overtakingNotes.foldl (Processes.step (format .asciiOnly .zeroOne))
      .initial).phase i = .idle := by
    simp [overtakingNotes, Processes.step, Processes.initial, Processes.setPhase, hempty, hheader]
  have hfile : (overtakingNotes.foldl (Processes.step (format .asciiOnly .zeroOne))
      .initial).file = some ((format .asciiOnly .zeroOne).writeRecords [secondNote]) := by
    simp [overtakingNotes, Processes.step, Processes.initial, Processes.setPhase, hempty, hheader,
      MarkdownFormat.upsert]
  have hreturned : (overtakingNotes.foldl (Processes.step (format .asciiOnly .zeroOne))
      .initial).returned = [titledNote "First", secondNote] := by
    simp [overtakingNotes, Processes.step, Processes.initial, Processes.setPhase, hempty, hheader,
      MarkdownFormat.stored]
  have hread : getAllRecords .asciiOnly .zeroOne
      (some ((format .asciiOnly .zeroOne).writeRecords [secondNote])) "" = some [secondNote] :=
    MarkdownFormat.getAll_writeRecords (by simpa using secondNote_recoverable.self) ""
  refine ⟨hphase, ?_⟩
  rintro ⟨rows, hrows, hpresent⟩
  have hnow := hrows ""
  rw [hfile, hread, Option.some.injEq] at hnow
  have hfirst : titledNote "First" ∈ rows :=
    hpresent [] (titledNote "First") [secondNote] hreturned (by decide)
  rw [← hnow] at hfirst
  exact absurd hfirst (by decide)

end RationaleVault
