import RationaleVault.Library.Shelf
import RationaleVault.Memory.Isolation

/-!
# The memories that the lexical index replays

The index is built over the memories that are active after a replay of the stream. The
replay draws memories from events as the store did, but it retires before it draws, and
it retires every record that a decision names.
-/

namespace RationaleVault

/-- The ids of the active records. -/
def activeIds (records : List MemoryRecord) : List String :=
  (records.filter fun r => r.lifecycleStatus = "active").map MemoryRecord.id

namespace BM25IndexProjection

variable (u : UnicodeTables)

/-- The record under the given id gets another status; a value that cannot be a key raises. -/
def setStatus (memories : OrdDict String MemoryRecord) (memoryId : Json) (status : String) :
    Except Exc (OrdDict String MemoryRecord) := do
  match ← memoryId.hash with
  | .str id => return memories.modify id fun m => { m with lifecycleStatus := status }
  | _ => return memories

/-- The status changes of an event. A record is stored under its id; a `supersedes` value that is no
text raises at the first record. -/
def transition (memories : OrdDict String MemoryRecord) (event : EventRecord) :
    Except Exc (OrdDict String MemoryRecord) :=
  match event.eventType with
  | .memorySuperseded => setStatus memories (event.payload.get "memory_id") "superseded"
  | .memoryArchived => setStatus memories (event.payload.get "memory_id") "archived"
  | .decisionAccepted =>
      let supersedes := event.payload.get "supersedes"
      if supersedes.truthy then
        match supersedes with
        | .str s => .ok (memories.mapVals fun m =>
            if SQLiteMemoryProvider.names u s m then SQLiteMemoryProvider.retired m else m)
        | _ => if memories.entries = [] then .ok memories else .error (.attributeError "lower")
      else .ok memories
  | _ => .ok memories

/-- One event of the replay; `clock` gives the times at which memories are drawn. -/
def replayEvent (clock : EventRecord → String) (memories : OrdDict String MemoryRecord)
    (event : EventRecord) : Except Exc (OrdDict String MemoryRecord) := do
  let memories ← transition u memories event
  let extracted ← extractMemoriesFromEvent u event (clock event)
  return extracted.foldl (fun memories m => memories.set m.id m) memories

/-- The memories that `project(events)` reconstructs before it indexes the active ones. -/
def reconstruct (clock : EventRecord → String) (events : List EventRecord) :
    Except Exc (OrdDict String MemoryRecord) :=
  (Table.orderBy EventRecord.eventSequence events).foldlM (replayEvent u clock) .empty

end BM25IndexProjection

/-! ## Shelves of records -/

/-- What replay and store read of a record. -/
def shown (r : MemoryRecord) : (String × String) × Bool :=
  ((r.title, r.content), decide (r.lifecycleStatus = "active"))

/-- The item that a new memory is. -/
def label (m : MemoryRecord) : String × (String × String) := (m.id, (m.title, m.content))

/-- The shelf of a table. -/
def shelfOf (rows : List MemoryRecord) : ItemShelf String (String × String) := fun id =>
  (rows.find? fun r => r.id = id).map shown

/-- The shelf of a dictionary. -/
def shelfOfDict (memories : OrdDict String MemoryRecord) : ItemShelf String (String × String) :=
  fun id => (memories.get? id).map shown

section Table

variable {rows rows' : List MemoryRecord} (hids : (rows.map MemoryRecord.id).Nodup)

include hids

theorem shelfOf_eq_some_iff {id : String} {x : (String × String) × Bool} :
    shelfOf rows id = some x ↔ ∃ r ∈ rows, r.id = id ∧ shown r = x := by
  simp only [shelfOf, Option.map_eq_some_iff, Table.find?_key_eq_some_iff hids]
  constructor
  · rintro ⟨r, ⟨hr, hid⟩, hx⟩
    exact ⟨r, hr, hid, hx⟩
  · rintro ⟨r, hr, hid, hx⟩
    exact ⟨r, ⟨hr, hid⟩, hx⟩

theorem active_shelfOf {id : String} : (shelfOf rows).Active id ↔ id ∈ activeIds rows := by
  simp only [ItemShelf.Active, shelfOf_eq_some_iff hids, activeIds, List.mem_map, List.mem_filter,
    decide_eq_true_eq]
  constructor
  · rintro ⟨b, r, hr, hid, hx⟩
    exact ⟨r, ⟨hr, of_decide_eq_true (congrArg Prod.snd hx)⟩, hid⟩
  · rintro ⟨r, ⟨hr, hactive⟩, hid⟩
    exact ⟨_, r, hr, hid, Prod.ext rfl (decide_eq_true hactive)⟩

/-- Writing a record changes what is shown under its id. -/
theorem shelfOf_written (hids' : (rows'.map MemoryRecord.id).Nodup) {r stored : MemoryRecord}
    (hid : stored.id = r.id)
    (hmem : ∀ x, x ∈ rows' ↔ x = stored ∨ x ∈ rows ∧ x.id ≠ r.id) (id : String) :
    shelfOf rows' id = if r.id = id then some (shown stored) else shelfOf rows id := by
  apply Option.ext
  intro x
  rw [shelfOf_eq_some_iff hids']
  simp only [hmem]
  split_ifs with h
  · constructor
    · rintro ⟨y, rfl | ⟨_, hne⟩, hy, rfl⟩
      · rfl
      · exact absurd (hy.trans h.symm) hne
    · intro hx
      exact ⟨stored, Or.inl rfl, hid.trans h, Option.some.inj hx⟩
  · rw [shelfOf_eq_some_iff hids]
    constructor
    · rintro ⟨y, rfl | ⟨hy, _⟩, hyid, hx⟩
      · exact absurd (hid.symm.trans hyid) h
      · exact ⟨y, hy, hyid, hx⟩
    · rintro ⟨y, hy, hyid, hx⟩
      exact ⟨y, Or.inr ⟨hy, fun hne => h (hne.symm.trans hyid)⟩, hyid, hx⟩

end Table

/-! ## One event of the replay -/

/-- The records of a dictionary are stored under their ids. -/
def Keyed (memories : OrdDict String MemoryRecord) : Prop :=
  ∀ id m, memories.get? id = some m → m.id = id

theorem active_shelfOfDict {memories : OrdDict String MemoryRecord} (h : Keyed memories)
    {id : String} : (shelfOfDict memories).Active id ↔ id ∈ activeIds memories.values := by
  simp only [ItemShelf.Active, shelfOfDict, Option.map_eq_some_iff, activeIds, List.mem_map,
    List.mem_filter, decide_eq_true_eq, OrdDict.mem_values_iff]
  constructor
  · rintro ⟨b, m, hm, hx⟩
    exact ⟨m, ⟨⟨id, hm⟩, of_decide_eq_true (congrArg Prod.snd hx)⟩, h id m hm⟩
  · rintro ⟨m, ⟨⟨id', hm⟩, hactive⟩, rfl⟩
    rw [h id' m hm]
    exact ⟨_, m, hm, Prod.ext rfl (decide_eq_true hactive)⟩

/-- `SQLiteMemoryProvider.names` of what is shown. -/
def namesItem (u : UnicodeTables) (supersedes id : String) (about : String × String) : Bool :=
  decide (id = supersedes) || decide (u.lower about.1 = u.lower supersedes) ||
    decide (u.lower about.2 = u.lower supersedes)

/-- Whether the replay retires an item at an event. -/
def touched (u : UnicodeTables) (event : EventRecord) (id : String) (about : String × String) :
    Bool :=
  match event.eventType with
  | .memorySuperseded | .memoryArchived => event.payload.get "memory_id" = .str id
  | _ =>
      match supersedesOf event with
      | some s => namesItem u s id about
      | none => false

/-- The status changes of the event raise nothing; `empty` says that there is no record. -/
structure Transits (event : EventRecord) (empty : Prop) : Prop where
  hashable : event.eventType = .memorySuperseded ∨ event.eventType = .memoryArchived →
    (event.payload.get "memory_id").hashable = true
  text : event.eventType = .decisionAccepted → (event.payload.get "supersedes").truthy = true →
    (∃ s, event.payload.get "supersedes" = .str s) ∨ empty

namespace BM25IndexProjection

variable {u : UnicodeTables} {memories memories' : OrdDict String MemoryRecord}
  {event : EventRecord}

theorem setStatus_isOk_iff {memoryId : Json} {status : String} :
    (∃ memories', setStatus memories memoryId status = .ok memories') ↔
      memoryId.hashable = true := by
  cases memoryId with
  | atom a =>
      apply iff_of_true _ rfl
      cases a with
      | str id => exact ⟨_, rfl⟩
      | null => exact ⟨_, rfl⟩
      | bool b => exact ⟨_, rfl⟩
      | int n => exact ⟨_, rfl⟩
      | float x => exact ⟨_, rfl⟩
  | arr items => exact iff_of_false nofun nofun
  | obj members => exact iff_of_false nofun nofun

/-- Another status than `active` retires the item. -/
theorem setStatus_spec (hkeyed : Keyed memories) {memoryId : Json} {status : String}
    (hstatus : status ≠ "active") (h : setStatus memories memoryId status = .ok memories') :
    Keyed memories' ∧ shelfOfDict memories' =
      (shelfOfDict memories).retire fun id _ => decide (memoryId = .str id) := by
  have hother : (∀ id, memoryId ≠ .str id) → memories' = memories → Keyed memories' ∧
      shelfOfDict memories' =
        (shelfOfDict memories).retire fun id _ => decide (memoryId = .str id) := by
    rintro hne rfl
    refine ⟨hkeyed, (ItemShelf.retire_of_not_active fun id b _ => ?_).symm⟩
    exact decide_eq_false (hne id)
  cases memoryId with
  | atom a =>
      cases a with
      | str id =>
          obtain rfl := Except.ok.inj h
          constructor
          · intro id' m hm
            rw [OrdDict.get?_modify] at hm
            split_ifs at hm with hid
            · obtain ⟨m', hm', rfl⟩ := Option.map_eq_some_iff.mp hm
              exact hkeyed id' m' hm'
            · exact hkeyed id' m hm
          · funext id'
            rw [ItemShelf.retire_apply, shelfOfDict, shelfOfDict, OrdDict.get?_modify,
              Option.map_map]
            split_ifs with hid
            · obtain rfl : id = id' := hid
              rw [Option.map_map]
              congr 1
              funext m
              simp [shown, hstatus]
            · congr 1
              funext m
              have hne : Json.str id ≠ .str id' := fun heq => hid (by simpa using heq)
              simp [hne]
      | null => exact hother nofun (Except.ok.inj h).symm
      | bool b => exact hother nofun (Except.ok.inj h).symm
      | int n => exact hother nofun (Except.ok.inj h).symm
      | float x => exact hother nofun (Except.ok.inj h).symm
  | arr items => cases h
  | obj members => cases h

/-- Retiring the records that a text names. -/
theorem retireNamed_spec (hkeyed : Keyed memories) (s : String) :
    Keyed (memories.mapVals fun m =>
        if SQLiteMemoryProvider.names u s m then SQLiteMemoryProvider.retired m else m) ∧
      shelfOfDict (memories.mapVals fun m =>
        if SQLiteMemoryProvider.names u s m then SQLiteMemoryProvider.retired m else m) =
        (shelfOfDict memories).retire (namesItem u s) := by
  constructor
  · intro id m hm
    rw [OrdDict.get?_mapVals] at hm
    obtain ⟨m', hm', rfl⟩ := Option.map_eq_some_iff.mp hm
    split_ifs
    · exact hkeyed id m' hm'
    · exact hkeyed id m' hm'
  · funext id
    rw [ItemShelf.retire_apply, shelfOfDict, shelfOfDict, OrdDict.get?_mapVals, Option.map_map,
      Option.map_map]
    cases hm : memories.get? id with
    | none => rfl
    | some m =>
        have hnames : SQLiteMemoryProvider.names u s m = namesItem u s id (m.title, m.content) :=
          hkeyed id m hm ▸ rfl
        simp only [Option.map_some, Function.comp_apply, hnames, shown]
        split_ifs with hnamed
        · simp [hnamed, SQLiteMemoryProvider.retired]
        · simp [hnamed]

/-- A lifecycle event retires the record that it names. -/
theorem touched_of_lifecycle
    (htype : event.eventType = .memorySuperseded ∨ event.eventType = .memoryArchived) :
    touched u event = fun id _ => decide (event.payload.get "memory_id" = .str id) := by
  funext id b
  rcases htype with htype | htype
  · simp only [touched, htype]
  · simp only [touched, htype]

/-- The status changes of an event retire what it touches. -/
theorem transition_spec (hkeyed : Keyed memories)
    (h : transition u memories event = .ok memories') : Keyed memories' ∧
      shelfOfDict memories' = (shelfOfDict memories).retire (touched u event) := by
  have hsame : memories' = memories → (∀ id b, shelfOfDict memories id = some (b, true) →
      touched u event id b = false) → Keyed memories' ∧
        shelfOfDict memories' = (shelfOfDict memories).retire (touched u event) := by
    rintro rfl hnone
    exact ⟨hkeyed, (ItemShelf.retire_of_not_active hnone).symm⟩
  unfold transition at h
  split at h
  next htype =>
    exact touched_of_lifecycle (Or.inl htype) ▸ setStatus_spec hkeyed (by decide) h
  next htype =>
    exact touched_of_lifecycle (Or.inr htype) ▸ setStatus_spec hkeyed (by decide) h
  next htype =>
    dsimp only at h
    by_cases htruthy : (event.payload.get "supersedes").truthy = true
    · rw [if_pos htruthy] at h
      split at h
      next s hs =>
        have hne : s ≠ "" := by
          rw [hs] at htruthy
          simpa [Json.truthy] using htruthy
        have htouched : touched u event = namesItem u s := by
          funext id b
          simp only [touched, htype, supersedesOf, if_true, hs, if_neg hne]
        obtain rfl := Except.ok.inj h
        exact htouched ▸ retireNamed_spec hkeyed s
      next hs =>
        split_ifs at h with hempty
        refine hsame (Except.ok.inj h).symm fun id b hid => ?_
        have hnone : memories.get? id = none := by
          rw [OrdDict.get?, hempty]
          rfl
        rw [shelfOfDict, hnone] at hid
        cases hid
    · rw [if_neg htruthy] at h
      refine hsame (Except.ok.inj h).symm fun id b _ => ?_
      have hnone : supersedesOf event = none := by
        rw [supersedesOf, if_pos htype]
        split
        next s hs =>
          rw [hs] at htruthy
          exact if_pos (by simpa [Json.truthy] using htruthy)
        next => rfl
      simp only [touched, htype, hnone]
  next hsuperseded harchived haccepted =>
    refine hsame (Except.ok.inj h).symm fun id b _ => ?_
    have hnone : supersedesOf event = none := by
      rw [supersedesOf, if_neg haccepted]
    unfold touched
    split
    next htype => exact absurd htype hsuperseded
    next htype => exact absurd htype harchived
    next => rw [hnone]

theorem transition_isOk_iff : (∃ memories', transition u memories event = .ok memories') ↔
    Transits event (memories.entries = []) := by
  unfold transition
  split
  next htype =>
    rw [setStatus_isOk_iff]
    constructor
    · exact fun h => ⟨fun _ => h, fun haccepted => by rw [htype] at haccepted; cases haccepted⟩
    · exact fun h => h.hashable (Or.inl htype)
  next htype =>
    rw [setStatus_isOk_iff]
    constructor
    · exact fun h => ⟨fun _ => h, fun haccepted => by rw [htype] at haccepted; cases haccepted⟩
    · exact fun h => h.hashable (Or.inr htype)
  next htype =>
    have hother : ¬(event.eventType = .memorySuperseded ∨ event.eventType = .memoryArchived) := by
      rw [htype]
      decide
    dsimp only
    by_cases htruthy : (event.payload.get "supersedes").truthy = true
    · rw [if_pos htruthy]
      split
      next s hs =>
        exact iff_of_true ⟨_, rfl⟩ ⟨fun h => absurd h hother, fun _ _ => Or.inl ⟨s, hs⟩⟩
      next hs =>
        split_ifs with hempty
        · exact iff_of_true ⟨_, rfl⟩ ⟨fun h => absurd h hother, fun _ _ => Or.inr hempty⟩
        · refine iff_of_false nofun fun h => ?_
          rcases h.text htype htruthy with ⟨s, hs'⟩ | hempty'
          · exact hs s hs'
          · exact hempty hempty'
    · rw [if_neg htruthy]
      exact iff_of_true ⟨_, rfl⟩ ⟨fun h => absurd h hother, fun _ h => absurd h htruthy⟩
  next hsuperseded harchived haccepted =>
    refine iff_of_true ⟨_, rfl⟩ ⟨fun h => ?_, fun h => absurd h haccepted⟩
    rcases h with h | h
    · exact absurd h hsuperseded
    · exact absurd h harchived

/-- A memory that is drawn from an event. -/
structure Drawn (m : MemoryRecord) : Prop where
  version_eq : m.version = 1
  lifecycleStatus_eq : m.lifecycleStatus = "active"
  referenceCount_eq : m.referenceCount = 0
  lastReferencedAt_eq : m.lastReferencedAt = none

theorem drawn_of_extract {now : String} {ms : List MemoryRecord}
    (h : extractMemoriesFromEvent u event now = .ok ms) : ms.length ≤ 2 ∧ ∀ m ∈ ms, Drawn m := by
  refine forall_mem_extract h fun {_ _ _ _ _ m} hm => ?_
  unfold memoryOf at hm
  split at hm
  · exact Except.ok.inj hm ▸ ⟨rfl, rfl, rfl, rfl⟩
  · cases hm

theorem shown_of_drawn {m : MemoryRecord} (h : Drawn m) :
    shown m = ((m.title, m.content), true) := by
  rw [shown, h.lifecycleStatus_eq]
  rfl

/-- The drawn memories are put on the shelf. -/
theorem foldl_set_spec {ms : List MemoryRecord} (hms : ∀ m ∈ ms, Drawn m)
    (hkeyed : Keyed memories) :
    Keyed (ms.foldl (fun memories m => memories.set m.id m) memories) ∧
      shelfOfDict (ms.foldl (fun memories m => memories.set m.id m) memories) =
        (shelfOfDict memories).putAll (ms.map label) := by
  induction ms generalizing memories with
  | nil => exact ⟨hkeyed, rfl⟩
  | cons m rest ih =>
      have hset : Keyed (memories.set m.id m) := by
        intro id m' hm'
        rw [OrdDict.get?_set] at hm'
        split_ifs at hm' with hid
        · exact Option.some.inj hm' ▸ hid
        · exact hkeyed id m' hm'
      have hput : shelfOfDict (memories.set m.id m) = (shelfOfDict memories).put (label m) := by
        funext id
        rw [shelfOfDict, OrdDict.get?_set, ItemShelf.put]
        change Option.map shown (if m.id = id then _ else _) = if m.id = id then _ else _
        split_ifs with hid
        · rw [Option.map_some, shown_of_drawn (hms m List.mem_cons_self)]
          rfl
        · rfl
      rw [List.foldl_cons, List.map_cons, ItemShelf.putAll_cons, ← hput]
      exact ih (fun m' hm' => hms m' (List.mem_cons_of_mem m hm')) hset

/-- What the replay of one event does to the shelf. -/
theorem replayEvent_spec {clock : EventRecord → String} (hkeyed : Keyed memories)
    (h : replayEvent u clock memories event = .ok memories') :
    ∃ ms, extractMemoriesFromEvent u event (clock event) = .ok ms ∧ Keyed memories' ∧
      shelfOfDict memories' =
        ((shelfOfDict memories).retire (touched u event)).putAll (ms.map label) := by
  rw [replayEvent, Except.bind_eq_ok_iff] at h
  obtain ⟨between, hbetween, hrest⟩ := h
  rw [Except.bind_eq_ok_iff] at hrest
  obtain ⟨ms, hms, hfold⟩ := hrest
  obtain ⟨hkeyed', hshelf⟩ := transition_spec hkeyed hbetween
  obtain ⟨hkeyed'', hshelf'⟩ := foldl_set_spec (drawn_of_extract hms).2 hkeyed'
  obtain rfl := Except.ok.inj hfold
  exact ⟨ms, hms, hkeyed'', by rw [hshelf', hshelf]⟩

theorem replayEvent_isOk_iff {clock : EventRecord → String} :
    (∃ memories', replayEvent u clock memories event = .ok memories') ↔
      Transits event (memories.entries = []) ∧
        ∃ ms, extractMemoriesFromEvent u event (clock event) = .ok ms := by
  rw [← transition_isOk_iff (u := u)]
  constructor
  · rintro ⟨memories', h⟩
    rw [replayEvent, Except.bind_eq_ok_iff] at h
    obtain ⟨between, hbetween, hrest⟩ := h
    rw [Except.bind_eq_ok_iff] at hrest
    obtain ⟨ms, hms, _⟩ := hrest
    exact ⟨⟨between, hbetween⟩, ms, hms⟩
  · rintro ⟨⟨between, hbetween⟩, ms, hms⟩
    refine ⟨ms.foldl (fun memories m => memories.set m.id m) between, ?_⟩
    rw [replayEvent, hbetween]
    change (do
      let extracted ← extractMemoriesFromEvent u event (clock event)
      return extracted.foldl (fun memories m => memories.set m.id m) between :
        Except Exc (OrdDict String MemoryRecord)) = _
    rw [hms]
    rfl

end BM25IndexProjection

end RationaleVault
