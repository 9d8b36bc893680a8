import Mathlib.Data.List.TakeWhile
import RationaleVault.Memory.Isolation
import RationaleVault.MarkdownRoundTrip

/-!
# The bookkeeping of memories

A memory counts its references and names the events it was drawn from. Appending
an event and counting a reference go through the configured provider, which
writes whole records. As long as no event draws a memory that is stored already,
every memory names all its events and has counted all its references. An event
that draws a stored memory again replaces the record by a new one.
-/

namespace RationaleVault

/-! ## Providers -/

/-- A memory provider. Nothing is said where a record is built from values of other types than the
declared ones. -/
structure MemoryProvider where
  State : Type
  getAllRecords : State → String → Option (List MemoryRecord)
  addRecord : State → String → MemoryRecord → Option (Except Exc State)

/-- The table of a database. -/
abbrev SQLiteMemoryProvider.provider : MemoryProvider where
  State := List MemoryRecord
  getAllRecords rows _ := some rows
  addRecord rows _ record := some (addRecord rows record)

/-- The Markdown file, which may be missing. -/
abbrev MarkdownMemoryProvider.provider (u : UnicodeTables) (ft : FloatText) : MemoryProvider where
  State := Option (List Char)
  getAllRecords := getAllRecords u ft
  addRecord file now record := (addRecord u ft file now record).map fun text => .ok (some text)

/-- What one call draws from its event. -/
def emitted (u : UnicodeTables) (call : AppendCall) : List MemoryRecord :=
  if emitsNoMemory call.event.eventType then []
  else
    match extractMemoriesFromEvent u call.event call.now with
    | .ok ms => ms
    | .error _ => []

/-- The record with one more reference. -/
def referenced (record : MemoryRecord) (now : String) : MemoryRecord :=
  { record with referenceCount := record.referenceCount + 1, lastReferencedAt := some now }

/-- The calls that write memories. -/
inductive MemoryOp
  | appendEvent (call : AppendCall)
  | recordMemoryReference (memoryId now : String)

namespace MemoryProvider

variable (P : MemoryProvider) (u : UnicodeTables)

/-- The loop over the extracted memories, and whether it has come to its end. -/
def addRecords (s : P.State) (now : String) : List MemoryRecord → Option (P.State × Bool)
  | [] => some (s, true)
  | m :: rest =>
      (P.addRecord s now m).bind fun
        | .ok s' => addRecords s' now rest
        | .error _ => some (s, false)

/-- The state after a record has been written; an exception leaves it as it was. -/
def write (s : P.State) (now : String) (record : MemoryRecord) : Option P.State :=
  (P.addRecord s now record).map fun
    | .ok s' => s'
    | .error _ => s

/-- What `handle_lifecycle_transitions` does for a nonempty `supersedes` field. -/
def supersede (s : P.State) (now supersedes : String) : Option P.State :=
  (P.getAllRecords s now).bind fun records =>
    match records.find? (SQLiteMemoryProvider.names u supersedes) with
    | some target =>
        if target.lifecycleStatus ≠ "superseded" then
          P.write s now (SQLiteMemoryProvider.retired target)
        else some s
    | none => some s

/-- What `append_event` does to the memories. -/
def appendEvent (s : P.State) (call : AppendCall) : Option P.State :=
  if emitsNoMemory call.event.eventType then some s
  else
    match extractMemoriesFromEvent u call.event call.now with
    | .error _ => some s
    | .ok ms =>
        (P.addRecords s call.now ms).bind fun stored =>
          match supersedesOf call.event with
          | some supersedes =>
              if stored.2 then P.supersede u stored.1 call.now supersedes else some stored.1
          | none => some stored.1

/-- `record_memory_reference(memory_id, …)` at the time `now`. The event that it logs draws no
memories. -/
def recordMemoryReference (s : P.State) (memoryId now : String) : Option P.State :=
  (P.getAllRecords s now).bind fun records =>
    match records.find? fun r => r.id = memoryId with
    | some record => P.write s now (referenced record now)
    | none => some s

/-- One call. -/
def step (s : Option P.State) (op : MemoryOp) : Option P.State :=
  s.bind fun s =>
    match op with
    | .appendEvent call => P.appendEvent u s call
    | .recordMemoryReference memoryId now => P.recordMemoryReference s memoryId now

end MemoryProvider

namespace SQLiteMemoryProvider

variable {u : UnicodeTables} {rows : List MemoryRecord}

theorem provider_addRecords (now : String) (ms : List MemoryRecord) :
    provider.addRecords rows now ms = some (addRecords rows ms) := by
  induction ms generalizing rows with
  | nil => rfl
  | cons m rest ih =>
      rw [MemoryProvider.addRecords, addRecords]
      change (some (addRecord rows m)).bind _ = _
      rw [Option.bind_some]
      cases addRecord rows m with
      | ok rows' => exact ih
      | error e => rfl

theorem provider_supersede (now s : String) :
    provider.supersede u rows now s = some (supersede u rows s) := by
  rw [MemoryProvider.supersede, supersede]
  change (some rows).bind _ = _
  rw [Option.bind_some]
  cases rows.find? (names u s) with
  | none => rfl
  | some target =>
      dsimp only
      split
      · change (some (addRecord rows (retired target))).map _ = _
        cases addRecord rows (retired target) <;> rfl
      · rfl

/-- The database provider changes its table as `EventStore.appendEvent` says. -/
theorem provider_appendEvent (call : AppendCall) :
    provider.appendEvent u rows call = some (EventStore.appendEvent u rows call) := by
  rw [MemoryProvider.appendEvent, EventStore.appendEvent]
  split
  · rfl
  · cases extractMemoriesFromEvent u call.event call.now with
    | error e => rfl
    | ok ms =>
        dsimp only [remember]
        rw [provider_addRecords, Option.bind_some]
        cases supersedesOf call.event with
        | none => rfl
        | some s =>
            dsimp only
            split
            · exact provider_supersede call.now s
            · rfl

end SQLiteMemoryProvider

/-! ## The books -/

/-- Whether a call draws a memory with the id. -/
def emits (u : UnicodeTables) (id : String) : MemoryOp → Bool
  | .appendEvent call => (emitted u call).any fun m => m.id = id
  | .recordMemoryReference _ _ => false

/-- Whether a call counts a reference of the memory. -/
def isReference (id : String) : MemoryOp → Bool
  | .appendEvent _ => false
  | .recordMemoryReference memoryId _ => memoryId = id

/-- The number of references counted since the memory was first drawn. -/
def referencesSince (u : UnicodeTables) (id : String) (ops : List MemoryOp) : Nat :=
  (ops.dropWhile fun op => !emits u id op).countP (isReference id)

/-- Every record names all events that drew it and has counted all its references. -/
structure Bookkept (u : UnicodeTables) (ops : List MemoryOp) (rows : List MemoryRecord) :
    Prop where
  sources : ∀ r ∈ rows, ∀ call, .appendEvent call ∈ ops → emits u r.id (.appendEvent call) = true →
    call.event.id.str ∈ r.sourceEventIds
  references : ∀ r ∈ rows, r.referenceCount = referencesSince u r.id ops

variable {u : UnicodeTables} {ops : List MemoryOp}

theorem emits_appendEvent {id : String} {call : AppendCall} :
    emits u id (.appendEvent call) = true ↔ ∃ m ∈ emitted u call, m.id = id := by
  simp [emits]

theorem referencesSince_append {id : String} (op : MemoryOp) :
    referencesSince u id (ops ++ [op]) = referencesSince u id ops +
      if ops.any (emits u id) = true ∧ isReference id op = true then 1 else 0 := by
  rw [referencesSince, referencesSince, List.dropWhile_append]
  by_cases hany : ops.any (emits u id) = true
  · have hne : ops.dropWhile (fun op => !emits u id op) ≠ [] := by
      intro hnil
      obtain ⟨op', hop', hemits⟩ := List.any_eq_true.mp hany
      simpa [hemits] using List.dropWhile_eq_nil_iff.mp hnil op' hop'
    rw [if_neg (by simpa using hne), List.countP_append, List.countP_singleton]
    simp [hany]
  · have hnil : ops.dropWhile (fun op => !emits u id op) = [] := by
      rw [List.dropWhile_eq_nil_iff]
      intro op' hop'
      simpa using fun h => hany (List.any_eq_true.mpr ⟨op', hop', h⟩)
    rw [hnil]
    cases op with
    | appendEvent call =>
        by_cases hemits : emits u id (.appendEvent call) = true <;> simp [hany, hemits, isReference]
    | recordMemoryReference memoryId now => simp [hany, emits]

/-! ## What a provider does -/

/-- Reading gives the records that the state holds, and a record that can be kept takes the place
of the one with its id. -/
structure MemoryProvider.Faithful (P : MemoryProvider) (Holds : P.State → List MemoryRecord → Prop)
    (Kept : MemoryRecord → Prop) : Prop where
  read : ∀ {s rows}, Holds s rows → ∀ now, P.getAllRecords s now = some rows
  nodup : ∀ {s rows}, Holds s rows → (rows.map MemoryRecord.id).Nodup
  kept : ∀ {s rows}, Holds s rows → ∀ r ∈ rows, Kept r
  add : ∀ {s rows r}, Holds s rows → Kept (SQLiteMemoryProvider.numbered rows r) → ∀ now,
    ∃ s' rows', P.addRecord s now r = some (.ok s') ∧ Holds s' rows' ∧
      ∀ x, x ∈ rows' ↔ x = SQLiteMemoryProvider.numbered rows r ∨ x ∈ rows ∧ x.id ≠ r.id
  retired : ∀ {r}, Kept r → Kept (SQLiteMemoryProvider.retired r)

open SQLiteMemoryProvider

variable {rows : List MemoryRecord}

theorem numbered_of_mem (hids : (rows.map MemoryRecord.id).Nodup) {t m : MemoryRecord}
    (ht : t ∈ rows) (hid : m.id = t.id) (hcontent : m.content = t.content) :
    numbered rows m = m := by
  rw [numbered, (Table.find?_key_eq_some_iff hids).mpr ⟨ht, hid.symm⟩]
  simp [hcontent]

/-- A stored record gets the version after the one it replaces. -/
theorem numbered_eq (rows : List MemoryRecord) (m : MemoryRecord) : numbered rows m = m ∨
    ∃ r ∈ rows, r.id = m.id ∧ numbered rows m = { m with version := r.version + 1 } := by
  rw [numbered]
  cases hfind : rows.find? (fun r => r.id = m.id) with
  | none => exact Or.inl rfl
  | some x =>
      dsimp only
      split
      · exact Or.inr ⟨x, List.mem_of_find?_eq_some hfind, by simpa using List.find?_some hfind, rfl⟩
      · exact Or.inl rfl

namespace MemoryProvider.Faithful

variable {P : MemoryProvider} {Holds : P.State → List MemoryRecord → Prop}
  {Kept : MemoryRecord → Prop} {s : P.State}

/-- Writing a changed copy of a stored record. -/
theorem write (F : P.Faithful Holds Kept) (h : Holds s rows) {t : MemoryRecord} (ht : t ∈ rows)
    (t' : MemoryRecord) (hid : t'.id = t.id) (hcontent : t'.content = t.content)
    (hkept : Kept t') (now : String) :
    ∃ s' rows', P.write s now t' = some s' ∧ Holds s' rows' ∧
      ∀ x, x ∈ rows' ↔ x = t' ∨ x ∈ rows ∧ x.id ≠ t.id := by
  have hnumbered := numbered_of_mem (F.nodup h) ht hid hcontent
  obtain ⟨s', rows', hadd, hholds, hmem⟩ := F.add h (hnumbered ▸ hkept) now
  refine ⟨s', rows', ?_, hholds, ?_⟩
  · rw [MemoryProvider.write, hadd, Option.map_some]
  · rwa [hnumbered, hid] at hmem

/-- Memories under new ids are all stored, and the records stay. -/
theorem addRecords (F : P.Faithful Holds Kept) (h : Holds s rows) {ms : List MemoryRecord}
    (hfirst : ∀ m ∈ ms, m.version = 1) (hlength : ms.length ≤ 2)
    (hversion : ∀ r ∈ rows, ∀ m ∈ ms, r.id = m.id → 0 < r.version ∧ r.version + ms.length ≤ 3)
    (hkept : ∀ m ∈ ms, ∀ v, IsInt64 v → Kept { m with version := v }) (now : String) :
    ∃ s' rows', P.addRecords s now ms = some (s', true) ∧ Holds s' rows' ∧
      (∀ x ∈ rows, (∀ m ∈ ms, x.id ≠ m.id) → x ∈ rows') ∧
      (∀ m ∈ ms, ∃ x ∈ rows', x.id = m.id) ∧
      ∀ x ∈ rows', x ∈ rows ∨ ∃ m ∈ ms, ∃ v, x = { m with version := v } := by
  induction ms generalizing s rows with
  | nil => exact ⟨s, rows, rfl, h, fun x hx _ => hx, by simp, fun x hx => Or.inl hx⟩
  | cons m rest ih =>
      have hm : m.version = 1 := hfirst m List.mem_cons_self
      rw [List.length_cons] at hlength
      obtain ⟨v, hv, hpos, hle⟩ : ∃ v, numbered rows m = { m with version := v } ∧ 0 < v ∧
          v + rest.length ≤ 3 := by
        rcases numbered_eq rows m with heq | ⟨r, hr, hid, heq⟩
        · exact ⟨m.version, heq, by omega, by omega⟩
        · have hbound := hversion r hr m List.mem_cons_self hid
          rw [List.length_cons] at hbound
          exact ⟨r.version + 1, heq, by omega, by omega⟩
      have hfits : IsInt64 v := ⟨by omega, by omega⟩
      obtain ⟨s₁, rows₁, hadd, hholds, hmem⟩ :=
        F.add h (hv ▸ hkept m List.mem_cons_self v hfits) now
      rw [hv] at hmem
      obtain ⟨s', rows', hrun, hholds', hstay, hstored, hback⟩ := ih hholds
        (fun m' hm' => hfirst m' (List.mem_cons_of_mem m hm')) (by omega)
        (fun r hr m' hm' hid => by
          rcases (hmem r).mp hr with rfl | ⟨hold, -⟩
          · exact ⟨hpos, hle⟩
          · have hbound := hversion r hold m' (List.mem_cons_of_mem m hm') hid
            rw [List.length_cons] at hbound
            omega)
        (fun m' hm' => hkept m' (List.mem_cons_of_mem m hm'))
      refine ⟨s', rows', ?_, hholds', fun x hx hne => ?_, fun m' hm' => ?_, fun x hx => ?_⟩
      · rw [MemoryProvider.addRecords, hadd, Option.bind_some]
        exact hrun
      · rw [List.forall_mem_cons] at hne
        exact hstay x ((hmem x).mpr (Or.inr ⟨hx, hne.1⟩)) hne.2
      · rcases List.mem_cons.mp hm' with rfl | hrest
        · by_cases hagain : ∃ m ∈ rest, m.id = m'.id
          · obtain ⟨m, hm, hid⟩ := hagain
            obtain ⟨x, hx, hxm⟩ := hstored m hm
            exact ⟨x, hx, hxm.trans hid⟩
          · refine ⟨_, hstay _ ((hmem _).mpr (Or.inl rfl)) fun m hm hid => ?_, rfl⟩
            exact hagain ⟨m, hm, hid.symm⟩
        · exact hstored m' hrest
      · rcases hback x hx with hx | ⟨m', hm', hxm⟩
        · rcases (hmem x).mp hx with rfl | ⟨hold, -⟩
          · exact Or.inr ⟨m, List.mem_cons_self, v, rfl⟩
          · exact Or.inl hold
        · exact Or.inr ⟨m', List.mem_cons_of_mem m hm', hxm⟩

/-- Superseding changes the lifecycle status of at most one record. -/
theorem supersede (F : P.Faithful Holds Kept) (h : Holds s rows) (now text : String) :
    ∃ s' rows', P.supersede u s now text = some s' ∧ Holds s' rows' ∧
      (∀ x ∈ rows, ∃ x' ∈ rows', x'.id = x.id) ∧
      ∀ x ∈ rows', ∃ x₀ ∈ rows, x = x₀ ∨ x = SQLiteMemoryProvider.retired x₀ := by
  have hsame : ∃ s' rows', some s = some s' ∧ Holds s' rows' ∧
      (∀ x ∈ rows, ∃ x' ∈ rows', x'.id = x.id) ∧
      ∀ x ∈ rows', ∃ x₀ ∈ rows, x = x₀ ∨ x = SQLiteMemoryProvider.retired x₀ :=
    ⟨s, rows, rfl, h, fun x hx => ⟨x, hx, rfl⟩, fun x hx => ⟨x, hx, Or.inl rfl⟩⟩
  rw [MemoryProvider.supersede, F.read h, Option.bind_some]
  cases hfind : rows.find? (names u text) with
  | none => exact hsame
  | some t =>
      have ht := List.mem_of_find?_eq_some hfind
      dsimp only
      split
      · obtain ⟨s', rows', hwrite, hholds, hmem⟩ :=
          F.write h ht (SQLiteMemoryProvider.retired t) rfl rfl (F.retired (F.kept h t ht)) now
        refine ⟨s', rows', hwrite, hholds, fun x hx => ?_, fun x hx => ?_⟩
        · by_cases hid : x.id = t.id
          · exact ⟨_, (hmem _).mpr (Or.inl rfl), hid.symm⟩
          · exact ⟨x, (hmem x).mpr (Or.inr ⟨hx, hid⟩), rfl⟩
        · rcases (hmem x).mp hx with rfl | ⟨hx, -⟩
          · exact ⟨t, ht, Or.inr rfl⟩
          · exact ⟨x, hx, Or.inl rfl⟩
      · exact hsame

/-- Counting a reference changes the record that is referenced. -/
theorem recordMemoryReference (F : P.Faithful Holds Kept) (h : Holds s rows) {id now : String}
    (hkept : ∀ r ∈ rows, r.id = id → Kept (referenced r now)) :
    ∃ s' rows', P.recordMemoryReference s id now = some s' ∧ Holds s' rows' ∧
      (∀ x ∈ rows, ∃ x' ∈ rows', x'.id = x.id) ∧
      ∀ x ∈ rows', ∃ x₀ ∈ rows, x.id = x₀.id ∧ x.sourceEventIds = x₀.sourceEventIds ∧
        x.referenceCount = x₀.referenceCount + if x.id = id then 1 else 0 := by
  rw [MemoryProvider.recordMemoryReference, F.read h, Option.bind_some]
  cases hfind : rows.find? (fun r => r.id = id) with
  | none =>
      have hother : ∀ x ∈ rows, x.id ≠ id := by simpa using hfind
      exact ⟨s, rows, rfl, h, fun x hx => ⟨x, hx, rfl⟩,
        fun x hx => ⟨x, hx, rfl, rfl, by rw [if_neg (hother x hx), add_zero]⟩⟩
  | some t =>
      have ht := List.mem_of_find?_eq_some hfind
      have hid : t.id = id := by simpa using List.find?_some hfind
      obtain ⟨s', rows', hwrite, hholds, hmem⟩ :=
        F.write h ht (referenced t now) rfl rfl (hkept t ht hid) now
      refine ⟨s', rows', hwrite, hholds, fun x hx => ?_, fun x hx => ?_⟩
      · by_cases hxt : x.id = t.id
        · exact ⟨_, (hmem _).mpr (Or.inl rfl), hxt.symm⟩
        · exact ⟨x, (hmem x).mpr (Or.inr ⟨hx, hxt⟩), rfl⟩
      · rcases (hmem x).mp hx with rfl | ⟨hx, hne⟩
        · exact ⟨t, ht, rfl, rfl, by rw [if_pos (show (referenced t now).id = id from hid)]; rfl⟩
        · exact ⟨x, hx, rfl, rfl, by rw [if_neg fun heq => hne (heq.trans hid.symm), add_zero]⟩

end MemoryProvider.Faithful

/-- The bookkeeping of a memory that the call draws. -/
structure New (call : AppendCall) (m : MemoryRecord) : Prop where
  version_eq : m.version = 1
  lifecycleStatus_eq : m.lifecycleStatus = "active"
  sourceEventIds_eq : m.sourceEventIds = [call.event.id.str]
  referenceCount_eq : m.referenceCount = 0
  lastReferencedAt_eq : m.lastReferencedAt = none

theorem emitted_spec (u : UnicodeTables) (call : AppendCall) :
    (emitted u call).length ≤ 2 ∧ ∀ m ∈ emitted u call, New call m := by
  rw [emitted]
  split
  · simp
  · split
    · next ms hms =>
        refine forall_mem_extract hms fun {_ _ _ _ _ m} hm => ?_
        unfold memoryOf at hm
        split at hm
        · exact Except.ok.inj hm ▸ ⟨rfl, rfl, rfl, rfl, rfl⟩
        · cases hm
    · simp

/-- Appending an event whose memories are new stores them and keeps the other books. -/
theorem MemoryProvider.Faithful.appendEvent {P : MemoryProvider}
    {Holds : P.State → List MemoryRecord → Prop} {Kept : MemoryRecord → Prop} {s : P.State}
    (F : P.Faithful Holds Kept) (h : Holds s rows) {call : AppendCall}
    (hfresh : ∀ m ∈ emitted u call, ∀ r ∈ rows, r.id ≠ m.id)
    (hkept : ∀ m ∈ emitted u call, ∀ v, IsInt64 v → Kept { m with version := v }) :
    ∃ s' rows', P.appendEvent u s call = some s' ∧ Holds s' rows' ∧
      (∀ x ∈ rows, ∃ x' ∈ rows', x'.id = x.id) ∧
      (∀ m ∈ emitted u call, ∃ x ∈ rows', x.id = m.id) ∧
      ∀ x ∈ rows', ∃ x₀, (x₀ ∈ rows ∨ x₀ ∈ emitted u call) ∧ x.id = x₀.id ∧
        x.sourceEventIds = x₀.sourceEventIds ∧ x.referenceCount = x₀.referenceCount := by
  have hspec := emitted_spec u call
  have hsame : ∀ x ∈ rows, ∃ x₀, (x₀ ∈ rows ∨ x₀ ∈ emitted u call) ∧ x.id = x₀.id ∧
      x.sourceEventIds = x₀.sourceEventIds ∧ x.referenceCount = x₀.referenceCount :=
    fun x hx => ⟨x, Or.inl hx, rfl, rfl, rfl⟩
  rw [MemoryProvider.appendEvent]
  by_cases hnone : emitsNoMemory call.event.eventType = true
  · have hempty : emitted u call = [] := if_pos hnone
    rw [if_pos hnone]
    exact ⟨s, rows, rfl, h, fun x hx => ⟨x, hx, rfl⟩, by simp [hempty], hsame⟩
  · rw [if_neg hnone]
    cases hms : extractMemoriesFromEvent u call.event call.now with
    | error e =>
        have hempty : emitted u call = [] := by rw [emitted, if_neg hnone, hms]
        exact ⟨s, rows, rfl, h, fun x hx => ⟨x, hx, rfl⟩, by simp [hempty], hsame⟩
    | ok ms =>
        have hemitted : emitted u call = ms := by rw [emitted, if_neg hnone, hms]
        rw [hemitted] at hspec hfresh hkept ⊢
        obtain ⟨s₁, rows₁, hadd, hholds, hstay, hstored, hback⟩ := F.addRecords h
          (fun m hm => (hspec.2 m hm).version_eq) hspec.1
          (fun r hr m hm hid => absurd hid (hfresh m hm r hr)) hkept call.now
        have hkeep : ∀ x ∈ rows, ∃ x' ∈ rows₁, x'.id = x.id := fun x hx =>
          ⟨x, hstay x hx fun m hm => hfresh m hm x hx, rfl⟩
        have hbook : ∀ x ∈ rows₁, ∃ x₀, (x₀ ∈ rows ∨ x₀ ∈ ms) ∧ x.id = x₀.id ∧
            x.sourceEventIds = x₀.sourceEventIds ∧ x.referenceCount = x₀.referenceCount := by
          intro x hx
          rcases hback x hx with hx | ⟨m, hm, v, rfl⟩
          · exact ⟨x, Or.inl hx, rfl, rfl, rfl⟩
          · exact ⟨m, Or.inr hm, rfl, rfl, rfl⟩
        dsimp only
        rw [hadd, Option.bind_some]
        cases supersedesOf call.event with
        | none => exact ⟨s₁, rows₁, rfl, hholds, hkeep, hstored, hbook⟩
        | some text =>
            obtain ⟨s', rows', hrun, hholds', hids, hretired⟩ :=
              F.supersede (u := u) hholds call.now text
            refine ⟨s', rows', hrun, hholds', fun x hx => ?_, fun m hm => ?_, fun x hx => ?_⟩
            · obtain ⟨x₁, hx₁, hid₁⟩ := hkeep x hx
              obtain ⟨x', hx', hid'⟩ := hids x₁ hx₁
              exact ⟨x', hx', hid'.trans hid₁⟩
            · obtain ⟨x₁, hx₁, hid₁⟩ := hstored m hm
              obtain ⟨x', hx', hid'⟩ := hids x₁ hx₁
              exact ⟨x', hx', hid'.trans hid₁⟩
            · obtain ⟨x₁, hx₁, hx⟩ := hretired x hx
              obtain ⟨x₀, hx₀, hid, hsource, hcount⟩ := hbook x₁ hx₁
              rcases hx with rfl | rfl
              · exact ⟨x₀, hx₀, hid, hsource, hcount⟩
              · exact ⟨x₀, hx₀, hid, hsource, hcount⟩

/-! ## Runs -/

theorem referencesSince_of_not_any {id : String} (h : ¬ ops.any (emits u id) = true) :
    referencesSince u id ops = 0 := by
  have hnil : ops.dropWhile (fun op => !emits u id op) = [] := by
    rw [List.dropWhile_eq_nil_iff]
    intro op hop
    simpa using fun hemits => h (List.any_eq_true.mpr ⟨op, hop, hemits⟩)
  rw [referencesSince, hnil, List.countP_nil]

/-- The books are right, exactly the drawn memories are stored. -/
structure InOrder (u : UnicodeTables) (ops : List MemoryOp) (rows : List MemoryRecord) :
    Prop where
  books : Bookkept u ops rows
  stored : ∀ call, .appendEvent call ∈ ops → ∀ m ∈ emitted u call, ∃ x ∈ rows, x.id = m.id
  drawn : ∀ r ∈ rows, ops.any (emits u r.id) = true

theorem InOrder.appendEvent (h : InOrder u ops rows) {call : AppendCall}
    (hfresh : ∀ m ∈ emitted u call, ∀ r ∈ rows, r.id ≠ m.id) {rows' : List MemoryRecord}
    (hkeep : ∀ x ∈ rows, ∃ x' ∈ rows', x'.id = x.id)
    (hstored : ∀ m ∈ emitted u call, ∃ x ∈ rows', x.id = m.id)
    (hbook : ∀ x ∈ rows', ∃ x₀, (x₀ ∈ rows ∨ x₀ ∈ emitted u call) ∧ x.id = x₀.id ∧
      x.sourceEventIds = x₀.sourceEventIds ∧ x.referenceCount = x₀.referenceCount) :
    InOrder u (ops ++ [.appendEvent call]) rows' := by
  -- a memory that the call draws has not been drawn before
  have hnew : ∀ m ∈ emitted u call, ¬ ops.any (emits u m.id) = true := by
    intro m hm hany
    obtain ⟨op, hop, hemits⟩ := List.any_eq_true.mp hany
    cases op with
    | recordMemoryReference memoryId now => cases hemits
    | appendEvent call' =>
        obtain ⟨m', hm', hid⟩ := emits_appendEvent.mp hemits
        obtain ⟨x, hx, hxm⟩ := h.stored call' hop m' hm'
        exact hfresh m hm x hx (hxm.trans hid)
  refine ⟨⟨fun x hx call' hcall' hemits => ?_, fun x hx => ?_⟩, fun call' hcall' m hm => ?_,
    fun x hx => ?_⟩
  · obtain ⟨x₀, hx₀, hid, hsource, -⟩ := hbook x hx
    rw [hid] at hemits
    rw [hsource]
    rcases hx₀ with hold | hm
    · rcases List.mem_append.mp hcall' with hcall' | hlast
      · exact h.books.sources x₀ hold call' hcall' hemits
      · cases List.mem_singleton.mp hlast
        obtain ⟨m, hm, hmid⟩ := emits_appendEvent.mp hemits
        exact absurd hmid.symm (hfresh m hm x₀ hold)
    · rcases List.mem_append.mp hcall' with hcall' | hlast
      · exact absurd (List.any_eq_true.mpr ⟨_, hcall', hemits⟩) (hnew x₀ hm)
      · cases List.mem_singleton.mp hlast
        rw [((emitted_spec u call).2 x₀ hm).sourceEventIds_eq]
        exact List.mem_singleton_self _
  · obtain ⟨x₀, hx₀, hid, -, hcount⟩ := hbook x hx
    rw [hcount, hid, referencesSince_append, if_neg (by simp [isReference]), add_zero]
    rcases hx₀ with hold | hm
    · exact h.books.references x₀ hold
    · rw [((emitted_spec u call).2 x₀ hm).referenceCount_eq, referencesSince_of_not_any (hnew x₀ hm)]
      rfl
  · rcases List.mem_append.mp hcall' with hcall' | hlast
    · obtain ⟨x, hx, hid⟩ := h.stored call' hcall' m hm
      obtain ⟨x', hx', hid'⟩ := hkeep x hx
      exact ⟨x', hx', hid'.trans hid⟩
    · cases List.mem_singleton.mp hlast
      exact hstored m hm
  · obtain ⟨x₀, hx₀, hid, -, -⟩ := hbook x hx
    rw [hid, List.any_append, Bool.or_eq_true]
    rcases hx₀ with hold | hm
    · exact Or.inl (h.drawn x₀ hold)
    · exact Or.inr (List.any_eq_true.mpr
        ⟨_, List.mem_singleton_self _, emits_appendEvent.mpr ⟨x₀, hm, rfl⟩⟩)

theorem InOrder.recordMemoryReference (h : InOrder u ops rows) {id now : String}
    {rows' : List MemoryRecord} (hkeep : ∀ x ∈ rows, ∃ x' ∈ rows', x'.id = x.id)
    (hbook : ∀ x ∈ rows', ∃ x₀ ∈ rows, x.id = x₀.id ∧ x.sourceEventIds = x₀.sourceEventIds ∧
      x.referenceCount = x₀.referenceCount + if x.id = id then 1 else 0) :
    InOrder u (ops ++ [.recordMemoryReference id now]) rows' := by
  have hcalls : ∀ {call}, .appendEvent call ∈ ops ++ [.recordMemoryReference id now] →
      .appendEvent call ∈ ops := by
    intro call hcall
    simpa using hcall
  refine ⟨⟨fun x hx call hcall hemits => ?_, fun x hx => ?_⟩, fun call hcall m hm => ?_,
    fun x hx => ?_⟩
  · obtain ⟨x₀, hx₀, hid, hsource, -⟩ := hbook x hx
    rw [hsource]
    exact h.books.sources x₀ hx₀ call (hcalls hcall) (hid ▸ hemits)
  · obtain ⟨x₀, hx₀, hid, -, hcount⟩ := hbook x hx
    rw [hcount, referencesSince_append, h.books.references x₀ hx₀, hid, h.drawn x₀ hx₀]
    by_cases heq : x₀.id = id
    · simp [isReference, heq]
    · simp [isReference, heq, Ne.symm heq]
  · obtain ⟨x, hx, hid⟩ := h.stored call (hcalls hcall) m hm
    obtain ⟨x', hx', hid'⟩ := hkeep x hx
    exact ⟨x', hx', hid'.trans hid⟩
  · obtain ⟨x₀, hx₀, hid, -, -⟩ := hbook x hx
    rw [hid, List.any_append, h.drawn x₀ hx₀, Bool.true_or]

/-- What a call has to find: nothing that it draws is stored, and what it writes can be kept. -/
def MemoryProvider.Undisturbed (u : UnicodeTables) (Kept : MemoryRecord → Prop)
    (rows : List MemoryRecord) : MemoryOp → Prop
  | .appendEvent call => ∀ m ∈ emitted u call, (∀ r ∈ rows, r.id ≠ m.id) ∧
      ∀ v, IsInt64 v → Kept { m with version := v }
  | .recordMemoryReference memoryId now =>
      ∀ r ∈ rows, r.id = memoryId → Kept (referenced r now)

theorem MemoryProvider.Faithful.inOrder_run {P : MemoryProvider}
    {Holds : P.State → List MemoryRecord → Prop} {Kept : MemoryRecord → Prop}
    (F : P.Faithful Holds Kept) {ok : Option P.State → MemoryOp → Prop}
    (hok : ∀ s rows op, Holds s rows → ok (some s) op → Undisturbed u Kept rows op)
    {s : P.State} (h : Holds s rows) (hin : InOrder u ops rows) {more : List MemoryOp}
    (hmore : Noninterference.Along ok (P.step u) (some s) more) :
    ∃ s' rows', more.foldl (P.step u) (some s) = some s' ∧ Holds s' rows' ∧
      InOrder u (ops ++ more) rows' := by
  induction more generalizing s rows ops with
  | nil => exact ⟨s, rows, rfl, h, by rwa [List.append_nil]⟩
  | cons op rest ih =>
      have hop := hok s rows op h hmore.head
      obtain ⟨s₁, rows₁, hstep, hholds, hin₁⟩ : ∃ s₁ rows₁, P.step u (some s) op = some s₁ ∧
          Holds s₁ rows₁ ∧ InOrder u (ops ++ [op]) rows₁ := by
        cases op with
        | appendEvent call =>
            have hfresh : ∀ m ∈ emitted u call, ∀ r ∈ rows, r.id ≠ m.id := fun m hm => (hop m hm).1
            obtain ⟨s₁, rows₁, hstep, hholds, hkeep, hstored, hbook⟩ :=
              F.appendEvent h hfresh fun m hm => (hop m hm).2
            exact ⟨s₁, rows₁, hstep, hholds, hin.appendEvent hfresh hkeep hstored hbook⟩
        | recordMemoryReference memoryId now =>
            obtain ⟨s₁, rows₁, hstep, hholds, hkeep, hbook⟩ := F.recordMemoryReference h hop
            exact ⟨s₁, rows₁, hstep, hholds, hin.recordMemoryReference hkeep hbook⟩
      have htail := hmore.tail
      rw [hstep] at htail
      obtain ⟨s', rows', hrun, hholds', hin'⟩ := ih hholds hin₁ htail
      refine ⟨s', rows', ?_, hholds', ?_⟩
      · rw [List.foldl_cons, hstep]
        exact hrun
      · rwa [List.append_assoc, List.singleton_append] at hin'

/-! ## The two providers -/

namespace SQLiteMemoryProvider

/-- No memory that the call draws is stored, and the next count of a referenced memory can be
bound. -/
def Undisturbed (u : UnicodeTables) (state : Option (List MemoryRecord)) : MemoryOp → Prop
  | .appendEvent call => ∀ rows ∈ state, ∀ m ∈ emitted u call, ∀ r ∈ rows, r.id ≠ m.id
  | .recordMemoryReference memoryId _ =>
      ∀ rows ∈ state, ∀ r ∈ rows, r.id = memoryId → r.referenceCount + 1 < 2 ^ 63

theorem undisturbed {rows : List MemoryRecord} (hrows : ∀ r ∈ rows, Fits r ∧ 0 ≤ r.referenceCount)
    {op : MemoryOp} (h : Undisturbed u (some rows) op) :
    MemoryProvider.Undisturbed u (fun r => Fits r ∧ 0 ≤ r.referenceCount) rows op := by
  cases op with
  | appendEvent call =>
      refine fun m hm => ⟨h rows rfl m hm, fun v hv => ?_⟩
      have hcount : m.referenceCount = 0 := ((emitted_spec u call).2 m hm).referenceCount_eq
      refine ⟨⟨hv, ?_⟩, hcount.ge⟩
      change IsInt64 m.referenceCount
      rw [hcount]
      decide
  | recordMemoryReference memoryId now =>
      intro r hr hid
      obtain ⟨⟨hversion, -⟩, hpos⟩ := hrows r hr
      have hnext : r.referenceCount + 1 < 2 ^ 63 := h rows rfl r hr hid
      have hfits : IsInt64 (r.referenceCount + 1) := ⟨by omega, hnext⟩
      exact ⟨⟨hversion, hfits⟩, by change 0 ≤ r.referenceCount + 1; omega⟩

theorem faithful : provider.Faithful
    (fun table rows => table = rows ∧ (rows.map MemoryRecord.id).Nodup ∧ ∀ r ∈ rows,
      Fits r ∧ 0 ≤ r.referenceCount)
    (fun r => Fits r ∧ 0 ≤ r.referenceCount) where
  read := fun {_ rows} h now => congrArg some h.1
  nodup h := h.2.1
  kept h := h.2.2
  add := by
    rintro table rows r ⟨rfl, hids, hfits⟩ hr now
    have hadd : addRecord table r = .ok (Table.replace MemoryRecord.id table (numbered table r)) :=
      if_pos hr.1
    refine ⟨_, _, congrArg some hadd, ⟨rfl, Table.nodup_replace hids _, fun x hx => ?_⟩,
      fun x => ?_⟩
    · rcases Table.mem_replace.mp hx with ⟨hx, -⟩ | rfl
      · exact hfits x hx
      · exact hr
    · rw [Table.mem_replace, numbered_id, or_comm]
  retired h := h

end SQLiteMemoryProvider

namespace MarkdownMemoryProvider

variable (u : UnicodeTables) (ft : FloatText)

/-- A text without angle brackets. -/
def Plain (s : String) : Prop := '<' ∉ s.toList ∧ '>' ∉ s.toList

instance (s : String) : Decidable (Plain s) := inferInstanceAs (Decidable (_ ∧ _))

/-- The record with other bookkeeping. -/
def rebooked (r : MemoryRecord) (version : Int) (status : String) (count : Int)
    (last : Option String) : MemoryRecord :=
  { r with
    version := version
    lifecycleStatus := status
    referenceCount := count
    lastReferencedAt := last }

/-- The record is read back as it is written, whatever is done to its version, its status and its
count. -/
def Legible (r : MemoryRecord) : Prop :=
  ∀ version status count last, (∀ s ∈ status :: last.toList, Plain s) →
    (format u ft).Framed (rebooked r version status count last) ∧
      (format u ft).Reads (rebooked r version status count last)

/-- No memory that the call draws is stored, and what the call writes can be read. -/
def Undisturbed (state : Option (Option (List Char))) : MemoryOp → Prop
  | .appendEvent call => ∀ m ∈ emitted u call, Legible u ft m ∧
      ∀ file ∈ state, ∀ rows ∈ getAllRecords u ft file call.now, ∀ r ∈ rows, r.id ≠ m.id
  | .recordMemoryReference _ now => Plain now

variable {u ft}

/-- Records without angle brackets in their texts are legible. -/
theorem legible_of_plain {r : MemoryRecord} (hsource : r.sourceType ≠ "")
    (hcreated : r.createdAt ≠ "") (h : ∀ s ∈ (Json.obj (r.toDict u)).texts, Plain s) :
    Legible u ft r := by
  intro version status count last hplain
  have hlast : ∀ x ∈ (Json.optStr last).texts, Plain x := by
    intro x hx
    cases last with
    | none => cases hx
    | some t => exact hplain x (List.mem_cons_of_mem status hx)
  have hrebooked : ∀ s ∈ (Json.obj ((rebooked r version status count last).toDict u)).texts,
      Plain s := by
    simp only [MemoryRecord.toDict, rebooked, Json.texts, Json.textsMembers, List.mem_cons,
      List.mem_append, List.not_mem_nil, or_false, or_imp, forall_and, forall_eq] at h hplain ⊢
    grind
  exact (recoverable_of_plain (r := rebooked r version status count last) hsource hcreated
    hrebooked).self

theorem stored_eq_numbered (u : UnicodeTables) (ft : FloatText) (rows : List MemoryRecord)
    (r : MemoryRecord) :
    (format u ft).stored rows r = numbered rows r := by
  rw [MarkdownFormat.stored, numbered]
  cases hfind : rows.find? fun x => x.id = r.id with
  | none =>
      have hformat : rows.find? (fun x => (format u ft).id x = (format u ft).id r) = none := hfind
      rw [hformat]
  | some x =>
      have hformat : rows.find? (fun x => (format u ft).id x = (format u ft).id r) = some x := hfind
      rw [hformat]
      rfl

/-- The status and the last reference of the record are plain and it is legible. -/
def Tidy (u : UnicodeTables) (ft : FloatText) (r : MemoryRecord) : Prop :=
  Legible u ft r ∧ ∀ s ∈ r.lifecycleStatus :: r.lastReferencedAt.toList, Plain s

theorem plain_of_digits {s : String} (h : ∀ c ∈ s.toList, c = '-' ∨ ∃ d < 16, c = Hex.digit d) :
    Plain s := by
  have hdigit : ∀ d, d < 16 → Hex.digit d ≠ '<' ∧ Hex.digit d ≠ '>' := by decide
  constructor
  · intro hmem
    obtain heq | ⟨d, hd, heq⟩ := h _ hmem
    · cases heq
    · exact (hdigit d hd).1 heq.symm
  · intro hmem
    obtain heq | ⟨d, hd, heq⟩ := h _ hmem
    · cases heq
    · exact (hdigit d hd).2 heq.symm

/-- A record whose id is a digest and whose other texts have no angle brackets. -/
theorem tidy_of_plain {r : MemoryRecord} {text : String} (hid : r.id = Sha256.hexdigest text)
    (hsource : r.sourceType ≠ "") (hcreated : r.createdAt ≠ "")
    (h : (Json.obj (r.toDict u).tail).texts.all Plain = true)
    (hlast : r.lastReferencedAt.toList.all Plain = true) : Tidy u ft r := by
  have hall : ∀ s ∈ (Json.obj (r.toDict u).tail).texts, Plain s := fun s hs =>
    of_decide_eq_true (List.all_eq_true.mp h s hs)
  refine ⟨legible_of_plain hsource hcreated fun s hs => ?_, fun s hs => ?_⟩
  · have hs : s ∈ "id" :: r.id :: (Json.obj (r.toDict u).tail).texts := hs
    rcases List.mem_cons.mp hs with rfl | hs
    · decide
    · rcases List.mem_cons.mp hs with rfl | hs
      · rw [hid]
        exact plain_of_digits fun c hc => Or.inr (Sha256.mem_hexdigest hc)
      · exact hall s hs
  · rcases List.mem_cons.mp hs with rfl | hs
    · exact hall _ (by simp [MemoryRecord.toDict, Json.texts, Json.textsMembers])
    · exact of_decide_eq_true (List.all_eq_true.mp hlast s hs)

theorem Tidy.written {r : MemoryRecord} (h : Tidy u ft r) :
    (format u ft).Framed r ∧ (format u ft).Reads r :=
  h.1 r.version r.lifecycleStatus r.referenceCount r.lastReferencedAt h.2

theorem faithful : (provider u ft).Faithful
    (fun file rows => (format u ft).Keeps file rows ∧ (rows.map MemoryRecord.id).Nodup ∧
      ∀ r ∈ rows, Tidy u ft r) (Tidy u ft) where
  read h := h.1.read
  nodup h := h.2.1
  kept h := h.2.2
  add := by
    rintro file rows (r : MemoryRecord) ⟨hkeeps, hids, htidy⟩ hr now
    rw [← stored_eq_numbered u ft] at hr ⊢
    obtain ⟨text, hadd, htext⟩ := hkeeps.add (r := r) hr.written now
    refine ⟨some text, _, ?_, ⟨htext, MarkdownFormat.nodup_upsert (F := format u ft) hids r,
      MarkdownFormat.forall_mem_upsert (r := r) htidy hr⟩, fun x => MarkdownFormat.mem_upsert hids⟩
    exact congrArg (Option.map fun text => Except.ok (some text)) hadd
  retired h := ⟨h.1, List.forall_mem_cons.mpr
    ⟨(by decide : Plain "superseded"), (List.forall_mem_cons.mp h.2).2⟩⟩

theorem undisturbed {file : Option (List Char)} {rows : List MemoryRecord}
    (hkeeps : (format u ft).Keeps file rows) (hrows : ∀ r ∈ rows, Tidy u ft r) {op : MemoryOp}
    (h : Undisturbed u ft (some file) op) :
    MemoryProvider.Undisturbed u (Tidy u ft) rows op := by
  cases op with
  | appendEvent call =>
      intro m hm
      obtain ⟨hlegible, hfresh⟩ := h m hm
      refine ⟨hfresh file rfl rows (hkeeps.read call.now), fun v _ => ⟨?_, ?_⟩⟩
      · exact hlegible
      · have hnew := (emitted_spec u call).2 m hm
        change ∀ s ∈ m.lifecycleStatus :: m.lastReferencedAt.toList, Plain s
        rw [hnew.lifecycleStatus_eq, hnew.lastReferencedAt_eq]
        decide
  | recordMemoryReference memoryId now =>
      intro r hr _
      obtain ⟨hlegible, hplain⟩ := hrows r hr
      rw [List.forall_mem_cons] at hplain
      have hnow : Plain now := h
      refine ⟨hlegible, List.forall_mem_cons.mpr ⟨hplain.1, ?_⟩⟩
      simpa [referenced] using hnow

end MarkdownMemoryProvider

/-! ## Every run -/

/-- A second event that accepts the decision of the first. -/
def acceptedAgain : AppendCall where
  event := { (acceptedCall .zero "Use Postgres").event with eventSequence := 2, id := .one }
  now := "2026-01-03"

/-- The memory that a call which accepts the decision draws. -/
def acceptedMemory (event : UUID) (now : String) : MemoryRecord where
  id := generateMemoryId .asciiOnly "DECISION" "Decision Accepted" "Use Postgres"
  version := 1
  title := "Decision Accepted"
  content := "Use Postgres"
  memoryType := .decision
  importance := "high"
  lifecycleStatus := "active"
  sourceEventIds := [event.str]
  sourceType := "decision"
  createdAt := now
  projectId := UUID.zero.str

/-- A decision is accepted, its memory is referenced, and it is accepted again. -/
def acceptedTwice : List MemoryOp :=
  [.appendEvent (acceptedCall .zero "Use Postgres"),
    .recordMemoryReference (acceptedMemory .zero "2026-01-01").id "2026-01-02",
    .appendEvent acceptedAgain]

/-- Appending an event that draws one memory and names none to supersede. -/
theorem MemoryProvider.Faithful.appendEvent_single {P : MemoryProvider}
    {Holds : P.State → List MemoryRecord → Prop} {Kept : MemoryRecord → Prop} {s : P.State}
    (F : P.Faithful Holds Kept) (h : Holds s rows) (call : AppendCall) (m : MemoryRecord)
    (htype : emitsNoMemory call.event.eventType = false)
    (hms : extractMemoriesFromEvent u call.event call.now = .ok [m])
    (hnone : supersedesOf call.event = none) (hkept : Kept (numbered rows m)) :
    ∃ s' rows', P.appendEvent u s call = some s' ∧ Holds s' rows' ∧
      ∀ x, x ∈ rows' ↔ x = numbered rows m ∨ x ∈ rows ∧ x.id ≠ m.id := by
  obtain ⟨s', rows', hadd, hholds, hmem⟩ := F.add h hkept call.now
  refine ⟨s', rows', ?_, hholds, hmem⟩
  rw [MemoryProvider.appendEvent, htype, if_neg Bool.false_ne_true, hms]
  dsimp only
  rw [MemoryProvider.addRecords, hadd, hnone]
  rfl

/-- With any provider, the memory of the decision forgets the first event and the reference. -/
theorem MemoryProvider.Faithful.acceptedTwice_forgotten {P : MemoryProvider}
    {Holds : P.State → List MemoryRecord → Prop} {Kept : MemoryRecord → Prop} {s : P.State}
    (F : P.Faithful Holds Kept) (h : Holds s []) (hkept : Kept (acceptedMemory .zero "2026-01-01"))
    (hkept' : Kept (referenced (acceptedMemory .zero "2026-01-01") "2026-01-02"))
    (hkept'' : Kept (acceptedMemory .one "2026-01-03")) :
    ∃ s' rows, acceptedTwice.foldl (P.step .asciiOnly) (some s) = some s' ∧
      (∀ now, P.getAllRecords s' now = some rows) ∧ ¬ Bookkept .asciiOnly acceptedTwice rows := by
  obtain ⟨s₁, rows₁, hstep₁, hholds₁, hmem₁⟩ := F.appendEvent_single (u := .asciiOnly) h
    (acceptedCall .zero "Use Postgres") (acceptedMemory .zero "2026-01-01")
    rfl rfl rfl hkept
  have hstored : acceptedMemory .zero "2026-01-01" ∈ rows₁ := (hmem₁ _).mpr (Or.inl rfl)
  have honly : ∀ x ∈ rows₁, x = acceptedMemory .zero "2026-01-01" := by
    intro x hx
    rcases (hmem₁ x).mp hx with hx | ⟨hx, -⟩
    · exact hx
    · cases hx
  obtain ⟨s₂, rows₂, hwrite, hholds₂, hmem₂⟩ := F.write hholds₁ hstored
    (referenced (acceptedMemory .zero "2026-01-01") "2026-01-02") rfl rfl hkept' "2026-01-02"
  have hstep₂ : P.recordMemoryReference s₁ (acceptedMemory .zero "2026-01-01").id "2026-01-02" =
      some s₂ := by
    rw [MemoryProvider.recordMemoryReference, F.read hholds₁, Option.bind_some]
    cases hfind : rows₁.find? fun r => r.id = (acceptedMemory .zero "2026-01-01").id with
    | none =>
        have hmissing := List.find?_eq_none.mp hfind _ hstored
        simp at hmissing
    | some t =>
        rw [honly t (List.mem_of_find?_eq_some hfind)]
        exact hwrite
  have hsame : numbered rows₂ (acceptedMemory .one "2026-01-03") =
      acceptedMemory .one "2026-01-03" :=
    numbered_of_mem (F.nodup hholds₂) ((hmem₂ _).mpr (Or.inl rfl)) rfl rfl
  obtain ⟨s₃, rows₃, hstep₃, hholds₃, hmem₃⟩ := F.appendEvent_single (u := .asciiOnly) hholds₂
    acceptedAgain (acceptedMemory .one "2026-01-03") rfl rfl rfl
    (hsame.symm ▸ hkept'')
  refine ⟨s₃, rows₃, ?_, F.read hholds₃, fun hbooks => ?_⟩
  · simp only [acceptedTwice, List.foldl_cons, List.foldl_nil, MemoryProvider.step,
      Option.bind_some, hstep₁, hstep₂, hstep₃]
  · have hlast : acceptedMemory .one "2026-01-03" ∈ rows₃ := (hmem₃ _).mpr (Or.inl hsame.symm)
    have hdrawn : emits .asciiOnly (acceptedMemory .one "2026-01-03").id
        (.appendEvent (acceptedCall .zero "Use Postgres")) = true :=
      emits_appendEvent.mpr ⟨acceptedMemory .zero "2026-01-01", List.mem_singleton_self _, rfl⟩
    have hnames := hbooks.sources _ hlast _ List.mem_cons_self hdrawn
    exact absurd hnames (by decide)

end RationaleVault
