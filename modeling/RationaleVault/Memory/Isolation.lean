import RationaleVault.Library.Noninterference
import RationaleVault.Library.Fold
import RationaleVault.Memory.Store

/-!
# Projects in the shared memory table

A call acts on its own project's records as it would without the others, and
leaves the others' records alone, as long as no id that it stores is taken by
another project and no record of another project stands in for the one that its
`supersedes` field names.
-/

namespace RationaleVault

namespace SQLiteMemoryProvider

variable {u : UnicodeTables} {rows rows' : List MemoryRecord} {p q : String}

/-- The records of one project. -/
def ofProject (p : String) (rows : List MemoryRecord) : List MemoryRecord :=
  rows.filter fun r => r.projectId = p

theorem mem_ofProject {r : MemoryRecord} : r ∈ ofProject p rows ↔ r ∈ rows ∧ r.projectId = p := by
  simp [ofProject]

/-! ## One record -/

@[simp] theorem numbered_id (record : MemoryRecord) : (numbered rows record).id = record.id := by
  rw [numbered]
  split
  · split <;> rfl
  · rfl

@[simp] theorem numbered_projectId (record : MemoryRecord) :
    (numbered rows record).projectId = record.projectId := by
  rw [numbered]
  split
  · split <;> rfl
  · rfl

theorem addRecord_eq_ok {record : MemoryRecord} (h : addRecord rows record = .ok rows') :
    rows' = Table.replace MemoryRecord.id rows (numbered rows record) := by
  rw [addRecord] at h
  by_cases hfits : Fits (numbered rows record)
  · rw [if_pos hfits] at h
    exact (Except.ok.inj h).symm
  · rw [if_neg hfits] at h
    cases h

theorem nodup_addRecord {record : MemoryRecord} (hids : (rows.map MemoryRecord.id).Nodup)
    (h : addRecord rows record = .ok rows') : (rows'.map MemoryRecord.id).Nodup := by
  rw [addRecord_eq_ok h]
  exact Table.nodup_replace hids _

theorem mem_addRecord {record r : MemoryRecord} (h : addRecord rows record = .ok rows')
    (hr : r ∈ rows') : r ∈ rows ∨ r.id = record.id ∧ r.projectId = record.projectId := by
  rw [addRecord_eq_ok h] at hr
  rcases Table.mem_replace.mp hr with ⟨hr, -⟩ | rfl
  · exact Or.inl hr
  · exact Or.inr ⟨numbered_id record, numbered_projectId record⟩

/-- A search for a record that only `p` can have may leave out the others. -/
theorem find?_ofProject {f : MemoryRecord → Bool}
    (h : ∀ r ∈ rows, f r = true → r.projectId = p) : (ofProject p rows).find? f = rows.find? f := by
  induction rows with
  | nil => rfl
  | cons r rest ih =>
      have hrest := ih fun r' hr' => h r' (List.mem_cons_of_mem _ hr')
      rw [ofProject] at hrest ⊢
      by_cases hp : r.projectId = p
      · rw [List.filter_cons_of_pos (by simpa using hp), List.find?_cons, List.find?_cons, hrest]
      · have hf : f r = false := by
          rw [Bool.eq_false_iff]
          exact fun hf => hp (h r List.mem_cons_self hf)
        rw [List.filter_cons_of_neg (by simpa using hp), List.find?_cons, hf, hrest]

theorem ofProject_replace_self {record : MemoryRecord} (hp : record.projectId = p) :
    ofProject p (Table.replace MemoryRecord.id rows record) =
      Table.replace MemoryRecord.id (ofProject p rows) record := by
  rw [ofProject, Table.replace, Table.replace, ofProject, List.filter_append, List.filter_filter,
    List.filter_filter, List.filter_cons_of_pos (by simpa using hp), List.filter_nil]
  congr 1
  apply List.filter_congr
  exact fun r _ => Bool.and_comm _ _

theorem ofProject_replace_other {record : MemoryRecord} (hp : record.projectId ≠ p)
    (h : ∀ r ∈ rows, r.id = record.id → r.projectId ≠ p) :
    ofProject p (Table.replace MemoryRecord.id rows record) = ofProject p rows := by
  rw [ofProject, Table.replace, ofProject, List.filter_append, List.filter_filter,
    List.filter_cons_of_neg (by simpa using hp), List.filter_nil, List.append_nil]
  apply List.filter_congr
  intro r hr
  by_cases hid : r.id = record.id
  · simp [h r hr hid]
  · simp [hid]

/-- Storing a record of `p` under an id that no other project has. -/
theorem addRecord_ofProject {record : MemoryRecord} (hp : record.projectId = p)
    (h : ∀ r ∈ rows, r.id = record.id → r.projectId = p) :
    addRecord (ofProject p rows) record = (addRecord rows record).map (ofProject p) := by
  have hnumbered : numbered (ofProject p rows) record = numbered rows record := by
    rw [numbered, numbered,
      find?_ofProject fun r hr hid => h r hr (of_decide_eq_true hid)]
  rw [addRecord, addRecord, hnumbered]
  by_cases hfits : Fits (numbered rows record)
  · rw [if_pos hfits, if_pos hfits, Except.map,
      ofProject_replace_self ((numbered_projectId record).trans hp)]
  · rw [if_neg hfits, if_neg hfits, Except.map]

theorem ofProject_addRecord {record : MemoryRecord} (hp : record.projectId ≠ p)
    (h : ∀ r ∈ rows, r.id = record.id → r.projectId ≠ p)
    (hok : addRecord rows record = .ok rows') : ofProject p rows' = ofProject p rows := by
  rw [addRecord_eq_ok hok]
  apply ofProject_replace_other ((numbered_projectId record).trans_ne hp)
  exact fun r hr hid => h r hr (hid.trans (numbered_id record))

/-! ## The memories of an event -/

/-- Memories of `q`, none under an id of another project's record. -/
def Fresh (q : String) (rows memories : List MemoryRecord) : Prop :=
  ∀ m ∈ memories, m.projectId = q ∧ ∀ r ∈ rows, r.id = m.id → r.projectId = q

theorem Fresh.tail {m : MemoryRecord} {rest : List MemoryRecord} (h : Fresh q rows (m :: rest))
    (hok : addRecord rows m = .ok rows') : Fresh q rows' rest := by
  intro m' hm'
  refine ⟨(h m' (List.mem_cons_of_mem _ hm')).1, fun r hr hid => ?_⟩
  rcases mem_addRecord hok hr with hold | ⟨-, hproject⟩
  · exact (h m' (List.mem_cons_of_mem _ hm')).2 r hold hid
  · exact hproject.trans (h m List.mem_cons_self).1

theorem nodup_addRecords (hids : (rows.map MemoryRecord.id).Nodup) (memories : List MemoryRecord) :
    ((addRecords rows memories).1.map MemoryRecord.id).Nodup := by
  induction memories generalizing rows with
  | nil => exact hids
  | cons m rest ih =>
      rw [addRecords]
      cases hok : addRecord rows m with
      | error e => exact hids
      | ok rows' => exact ih (nodup_addRecord hids hok)

theorem addRecords_ofProject {memories : List MemoryRecord} (h : Fresh q rows memories) :
    addRecords (ofProject q rows) memories =
      (ofProject q (addRecords rows memories).1, (addRecords rows memories).2) := by
  induction memories generalizing rows with
  | nil => rfl
  | cons m rest ih =>
      obtain ⟨hproject, hother⟩ := h m List.mem_cons_self
      rw [addRecords, addRecords, addRecord_ofProject hproject hother]
      cases hok : addRecord rows m with
      | error e => rfl
      | ok rows' => exact ih (h.tail hok)

theorem ofProject_addRecords {memories : List MemoryRecord} (hpq : q ≠ p)
    (h : Fresh q rows memories) : ofProject p (addRecords rows memories).1 = ofProject p rows := by
  induction memories generalizing rows with
  | nil => rfl
  | cons m rest ih =>
      obtain ⟨hproject, hother⟩ := h m List.mem_cons_self
      rw [addRecords]
      cases hok : addRecord rows m with
      | error e => rfl
      | ok rows' =>
          rw [ih (h.tail hok)]
          exact ofProject_addRecord (hproject.trans_ne hpq)
            (fun r hr hid => (hother r hr hid).trans_ne hpq) hok

/-! ## The superseded record -/

/-- The record that a text names is one of `q`, or it is superseded already, and so is the one that
the text names among the records of `q`. -/
def OwnTarget (u : UnicodeTables) (q : String) (rows : List MemoryRecord) (s : String) : Prop :=
  ∀ t, rows.find? (names u s) = some t →
    t.projectId = q ∨ t.lifecycleStatus = "superseded" ∧
      ∀ t', (ofProject q rows).find? (names u s) = some t' → t'.lifecycleStatus = "superseded"

theorem projectId_of_id (hids : (rows.map MemoryRecord.id).Nodup) {t : MemoryRecord} (ht : t ∈ rows) :
    ∀ r ∈ rows, r.id = t.id → r.projectId = t.projectId := by
  intro r hr hid
  rw [List.inj_on_of_nodup_map hids hr ht hid]

theorem nodup_supersede (hids : (rows.map MemoryRecord.id).Nodup) (s : String) :
    ((supersede u rows s).map MemoryRecord.id).Nodup := by
  rw [supersede]
  split
  · split
    · split
      · next hok => exact nodup_addRecord hids hok
      · exact hids
    · exact hids
  · exact hids

theorem supersede_of_superseded {s : String}
    (h : ∀ t, rows.find? (names u s) = some t → t.lifecycleStatus = "superseded") :
    supersede u rows s = rows := by
  rw [supersede]
  cases hfind : rows.find? (names u s) with
  | none => rfl
  | some t => exact if_neg (not_not.mpr (h t hfind))

theorem find?_ofProject_of_some {f : MemoryRecord → Bool} {t : MemoryRecord}
    (h : rows.find? f = some t) (hp : t.projectId = p) : (ofProject p rows).find? f = some t := by
  obtain ⟨hf, before, after, rfl, hbefore⟩ := List.find?_eq_some_iff_append.mp h
  apply List.find?_eq_some_iff_append.mpr
  refine ⟨hf, ofProject p before, ofProject p after, ?_, ?_⟩
  · rw [ofProject, List.filter_append, List.filter_cons_of_pos (by simpa using hp)]
    rfl
  · exact fun r hr => hbefore r (mem_ofProject.mp hr).1

theorem supersede_ofProject (hids : (rows.map MemoryRecord.id).Nodup) {s : String}
    (h : OwnTarget u q rows s) :
    supersede u (ofProject q rows) s = ofProject q (supersede u rows s) := by
  cases hfind : rows.find? (names u s) with
  | none =>
      have hown : (ofProject q rows).find? (names u s) = none := by
        rw [List.find?_eq_none] at hfind ⊢
        exact fun r hr => hfind r (mem_ofProject.mp hr).1
      rw [supersede, supersede, hfind, hown]
  | some t =>
      rcases h t hfind with hproject | ⟨hdone, hown⟩
      · have hmem := List.mem_of_find?_eq_some hfind
        have hadd : addRecord (ofProject q rows) (retired t) =
            (addRecord rows (retired t)).map (ofProject q) :=
          addRecord_ofProject hproject
            fun r hr hid => (projectId_of_id hids hmem r hr hid).trans hproject
        rw [supersede, supersede, hfind, find?_ofProject_of_some hfind hproject]
        dsimp only
        split
        · rw [hadd]
          cases addRecord rows (retired t) <;> rfl
        · rfl
      · rw [supersede_of_superseded hown, supersede_of_superseded fun t' ht' => ?_]
        rw [hfind] at ht'
        exact Option.some.inj ht' ▸ hdone

theorem ofProject_supersede (hids : (rows.map MemoryRecord.id).Nodup) (hpq : q ≠ p) {s : String}
    (h : OwnTarget u q rows s) : ofProject p (supersede u rows s) = ofProject p rows := by
  cases hfind : rows.find? (names u s) with
  | none => rw [supersede, hfind]
  | some t =>
      rcases h t hfind with hproject | ⟨hdone, -⟩
      · have hmem := List.mem_of_find?_eq_some hfind
        rw [supersede, hfind]
        dsimp only
        split
        · split
          · next hok =>
              have hretired : (retired t).projectId ≠ p := hproject.trans_ne hpq
              apply ofProject_addRecord hretired _ hok
              exact fun r hr hid =>
                ((projectId_of_id hids hmem r hr hid).trans hproject).trans_ne hpq
          · rfl
        · rfl
      · rw [supersede_of_superseded fun t' ht' => ?_]
        rw [hfind] at ht'
        exact Option.some.inj ht' ▸ hdone

/-! ## What the comparison leaves out -/

/-- A record without its time and the ids of its events. -/
def strip (r : MemoryRecord) : MemoryRecord := { r with createdAt := "", sourceEventIds := [] }

theorem numbered_strip (record : MemoryRecord) :
    numbered (rows.map strip) (strip record) = strip (numbered rows record) := by
  have hfind : (rows.map strip).find? (fun r => r.id = record.id) =
      (rows.find? fun r => r.id = record.id).map strip := by
    rw [List.find?_map]
    rfl
  rw [numbered, numbered, show (strip record).id = record.id from rfl, hfind]
  cases rows.find? fun r => r.id = record.id with
  | none => rfl
  | some existing =>
      by_cases hcontent : existing.content = record.content <;> simp [strip, hcontent]

theorem addRecord_strip (record : MemoryRecord) :
    addRecord (rows.map strip) (strip record) = (addRecord rows record).map (List.map strip) := by
  rw [addRecord, addRecord, numbered_strip]
  by_cases hfits : Fits (numbered rows record)
  · have hreplace : Table.replace MemoryRecord.id (rows.map strip) (strip (numbered rows record)) =
        (Table.replace MemoryRecord.id rows (numbered rows record)).map strip := by
      rw [Table.replace, Table.replace, List.map_append, List.filter_map]
      rfl
    rw [if_pos hfits, Except.map, ← hreplace]
    exact if_pos hfits
  · rw [if_neg hfits]
    exact if_neg hfits

theorem addRecords_strip (memories : List MemoryRecord) :
    addRecords (rows.map strip) (memories.map strip) =
      ((addRecords rows memories).1.map strip, (addRecords rows memories).2) := by
  induction memories generalizing rows with
  | nil => rfl
  | cons m rest ih =>
      rw [List.map_cons, addRecords, addRecords, addRecord_strip]
      cases hok : addRecord rows m with
      | error e => rfl
      | ok rows' => exact ih

theorem supersede_strip (s : String) :
    supersede u (rows.map strip) s = (supersede u rows s).map strip := by
  have hfind : (rows.map strip).find? (names u s) = (rows.find? (names u s)).map strip := by
    rw [List.find?_map]
    rfl
  rw [supersede, supersede, hfind]
  cases rows.find? (names u s) with
  | none => rfl
  | some t =>
      rw [Option.map_some]
      dsimp only
      rw [show (strip t).lifecycleStatus = t.lifecycleStatus from rfl,
        show retired (strip t) = strip (retired t) from rfl, addRecord_strip]
      split
      · cases addRecord rows (retired t) <;> rfl
      · rfl

theorem remember_strip (memories : Except Exc (List MemoryRecord)) (s : Option String) :
    remember u (rows.map strip) (memories.map (List.map strip)) s =
      (remember u rows memories s).map strip := by
  cases memories with
  | error e => rfl
  | ok ms =>
      have hstored : addRecords (rows.map strip) (ms.map strip) =
          ((addRecords rows ms).1.map strip, (addRecords rows ms).2) := addRecords_strip ms
      cases s with
      | none => exact congrArg Prod.fst hstored
      | some text =>
          simp only [Except.map, remember, hstored]
          split
          · exact supersede_strip text
          · rfl

end SQLiteMemoryProvider

open SQLiteMemoryProvider

variable {u : UnicodeTables}

/-- What the caller of `append_event` decides; the id, the numbers and the times come later. -/
def AppendCall.request (call : AppendCall) : UUID × EventType × JsonObj :=
  (call.event.projectId, call.event.eventType, call.event.payload)

theorem memoryOf_strip {e e' : EventRecord} (h : e.projectId = e'.projectId) (now now' : String)
    (memoryType : MemoryType) (title importance sourceType : String) (content : Json) :
    (memoryOf u e now memoryType title importance sourceType content).map strip =
      (memoryOf u e' now' memoryType title importance sourceType content).map strip := by
  unfold memoryOf
  split
  · rw [Except.map, Except.map, strip, strip, h]
  · rfl

/-- One memory, whose record is determined up to what is left out. -/
theorem map_strip_single {x x' : Except Exc MemoryRecord} (h : x.map strip = x'.map strip) :
    (do return [← x] : Except Exc (List MemoryRecord)).map (List.map strip) =
      (do return [← x'] : Except Exc (List MemoryRecord)).map (List.map strip) := by
  cases x with
  | error e =>
      cases x' with
      | error e' => exact congrArg Except.error (Except.error.inj h)
      | ok m' => cases h
  | ok m =>
      cases x' with
      | error e' => cases h
      | ok m' => exact congrArg (fun r => Except.ok [r]) (Except.ok.inj h)

theorem map_strip_pair {x x' y y' : Except Exc MemoryRecord} (h : x.map strip = x'.map strip)
    (h' : y.map strip = y'.map strip) :
    (do return [← x, ← y] : Except Exc (List MemoryRecord)).map (List.map strip) =
      (do return [← x', ← y'] : Except Exc (List MemoryRecord)).map (List.map strip) := by
  cases x with
  | error e =>
      cases x' with
      | error e' => exact congrArg Except.error (Except.error.inj h)
      | ok m' => cases h
  | ok m =>
      cases x' with
      | error e' => cases h
      | ok m' =>
          cases y with
          | error e =>
              cases y' with
              | error e' => exact congrArg Except.error (Except.error.inj h')
              | ok n' => cases h'
          | ok n =>
              cases y' with
              | error e' => cases h'
              | ok n' =>
                  have hm : strip m = strip m' := Except.ok.inj h
                  have hn : strip n = strip n' := Except.ok.inj h'
                  exact congrArg Except.ok (by rw [List.map_cons, hm, List.map_cons, hn]; rfl)

theorem extract_strip {call call' : AppendCall} (h : call.request = call'.request) :
    (extractMemoriesFromEvent u call.event call.now).map (List.map strip) =
      (extractMemoriesFromEvent u call'.event call'.now).map (List.map strip) := by
  obtain ⟨hproject, hrest⟩ := Prod.mk.inj h
  obtain ⟨htype, hpayload⟩ := Prod.mk.inj hrest
  rw [extractMemoriesFromEvent, extractMemoriesFromEvent, hpayload, htype]
  dsimp only
  split
  · split
    · exact map_strip_pair (memoryOf_strip hproject ..) (memoryOf_strip hproject ..)
    · exact map_strip_single (memoryOf_strip hproject ..)
  · exact map_strip_single (memoryOf_strip hproject ..)
  · exact map_strip_single (memoryOf_strip hproject ..)
  · exact map_strip_single (memoryOf_strip hproject ..)
  · exact map_strip_single (memoryOf_strip hproject ..)
  · exact map_strip_single (memoryOf_strip hproject ..)
  · split
    · exact map_strip_single (memoryOf_strip hproject ..)
    · rfl
  · split
    · exact map_strip_single (memoryOf_strip hproject ..)
    · rfl
  · rfl

theorem projectId_of_memoryOf {e : EventRecord} {now title importance sourceType : String}
    {memoryType : MemoryType} {content : Json} {m : MemoryRecord}
    (h : memoryOf u e now memoryType title importance sourceType content = .ok m) :
    m.projectId = e.projectId.str := by
  unfold memoryOf at h
  split at h
  · exact Except.ok.inj h ▸ rfl
  · cases h

theorem eq_singleton_of_ok {x : Except Exc MemoryRecord} {ms : List MemoryRecord}
    (h : (do return [← x] : Except Exc (List MemoryRecord)) = .ok ms) :
    ∃ m, x = .ok m ∧ ms = [m] := by
  rw [Except.bind_eq_ok_iff] at h
  obtain ⟨m, hm, hms⟩ := h
  exact ⟨m, hm, (Except.ok.inj hms).symm⟩

/-- An event gives at most two memories, and what holds of every record that is drawn from it holds
of them. -/
theorem forall_mem_extract {e : EventRecord} {now : String} {ms : List MemoryRecord}
    (h : extractMemoriesFromEvent u e now = .ok ms) {Q : MemoryRecord → Prop}
    (hQ : ∀ {memoryType title importance sourceType content m},
      memoryOf u e now memoryType title importance sourceType content = .ok m → Q m) :
    ms.length ≤ 2 ∧ ∀ m ∈ ms, Q m := by
  have hsingle : ∀ {memoryType : MemoryType} {title importance sourceType : String}
      {content : Json}, (do return [← memoryOf u e now memoryType title importance sourceType
        content] : Except Exc (List MemoryRecord)) = .ok ms → ms.length ≤ 2 ∧ ∀ m ∈ ms, Q m := by
    intro _ _ _ _ _ hok
    obtain ⟨m', hm', rfl⟩ := eq_singleton_of_ok hok
    exact ⟨Nat.le_succ 1, fun m hm => List.mem_singleton.mp hm ▸ hQ hm'⟩
  unfold extractMemoriesFromEvent at h
  dsimp only at h
  split at h
  · split at h
    · rw [Except.bind_eq_ok_iff] at h
      obtain ⟨d, hd, hrest⟩ := h
      rw [Except.bind_eq_ok_iff] at hrest
      obtain ⟨r, hr, hms⟩ := hrest
      obtain rfl : [d, r] = ms := Except.ok.inj hms
      refine ⟨Nat.le_refl 2, fun m hm => ?_⟩
      rcases List.mem_cons.mp hm with rfl | hm
      · exact hQ hd
      · exact List.mem_singleton.mp hm ▸ hQ hr
    · exact hsingle h
  · exact hsingle h
  · exact hsingle h
  · exact hsingle h
  · exact hsingle h
  · exact hsingle h
  · split at h
    · exact hsingle h
    · exact Except.ok.inj h ▸ by simp
  · split at h
    · exact hsingle h
    · exact Except.ok.inj h ▸ by simp
  · exact Except.ok.inj h ▸ by simp

/-- The memories of an event belong to its project. -/
theorem projectId_of_mem_extract {e : EventRecord} {now : String} {ms : List MemoryRecord}
    (h : extractMemoriesFromEvent u e now = .ok ms) :
    ∀ m ∈ ms, m.projectId = e.projectId.str := (forall_mem_extract h projectId_of_memoryOf).2

/-! ## One call -/

/-- No memory of the event has the id of another project's record, and what its `supersedes` field
names is a record of its own project, or is superseded already and stands in for no other. -/
structure Isolated (u : UnicodeTables) (rows : List MemoryRecord) (call : AppendCall) : Prop where
  ids : ∀ ms, extractMemoriesFromEvent u call.event call.now = .ok ms →
    ∀ m ∈ ms, ∀ r ∈ rows, r.id = m.id → r.projectId = call.event.projectId.str
  target : ∀ ms s, extractMemoriesFromEvent u call.event call.now = .ok ms →
    supersedesOf call.event = some s →
    OwnTarget u call.event.projectId.str (addRecords rows ms).1 s

variable {rows : List MemoryRecord}

theorem Isolated.fresh {call : AppendCall} (h : Isolated u rows call) {ms : List MemoryRecord}
    (hms : extractMemoriesFromEvent u call.event call.now = .ok ms) :
    Fresh call.event.projectId.str rows ms := fun m hm =>
  ⟨projectId_of_mem_extract hms m hm, h.ids ms hms m hm⟩

theorem nodup_appendEvent (hids : (rows.map MemoryRecord.id).Nodup) (call : AppendCall) :
    ((EventStore.appendEvent u rows call).map MemoryRecord.id).Nodup := by
  rw [EventStore.appendEvent]
  split
  · exact hids
  · cases extractMemoriesFromEvent u call.event call.now with
    | error e => exact hids
    | ok ms =>
        cases supersedesOf call.event with
        | none => exact nodup_addRecords hids ms
        | some s =>
            dsimp only [remember]
            split
            · exact nodup_supersede (nodup_addRecords hids ms) s
            · exact nodup_addRecords hids ms

theorem appendEvent_ofProject {call : AppendCall} (hids : (rows.map MemoryRecord.id).Nodup)
    (h : Isolated u rows call) :
    ofProject call.event.projectId.str (EventStore.appendEvent u rows call) =
      EventStore.appendEvent u (ofProject call.event.projectId.str rows) call := by
  rw [EventStore.appendEvent, EventStore.appendEvent]
  split
  · rfl
  · cases hms : extractMemoriesFromEvent u call.event call.now with
    | error e => rfl
    | ok ms =>
        have hstored := addRecords_ofProject (h.fresh hms)
        cases hs : supersedesOf call.event with
        | none => exact (congrArg Prod.fst hstored).symm
        | some s =>
            simp only [remember, hstored]
            split
            · exact (supersede_ofProject (nodup_addRecords hids ms) (h.target ms s hms hs)).symm
            · rfl

theorem ofProject_appendEvent {call : AppendCall} (hids : (rows.map MemoryRecord.id).Nodup)
    {p : String} (hp : call.event.projectId.str ≠ p) (h : Isolated u rows call) :
    ofProject p (EventStore.appendEvent u rows call) = ofProject p rows := by
  rw [EventStore.appendEvent]
  split
  · rfl
  · cases hms : extractMemoriesFromEvent u call.event call.now with
    | error e => rfl
    | ok ms =>
        have hstored := ofProject_addRecords hp (h.fresh hms)
        cases hs : supersedesOf call.event with
        | none => exact hstored
        | some s =>
            dsimp only [remember]
            split
            · exact (ofProject_supersede (nodup_addRecords hids ms) hp
                (h.target ms s hms hs)).trans hstored
            · exact hstored

/-- Calls with one request differ in what is left out. -/
theorem appendEvent_strip {call call' : AppendCall} (h : call.request = call'.request)
    {rows' : List MemoryRecord} (hrows : rows.map strip = rows'.map strip) :
    (EventStore.appendEvent u rows call).map strip =
      (EventStore.appendEvent u rows' call').map strip := by
  have htype : call.event.eventType = call'.event.eventType := (Prod.mk.inj (Prod.mk.inj h).2).1
  have hpayload : call.event.payload = call'.event.payload := (Prod.mk.inj (Prod.mk.inj h).2).2
  have hsupersedes : supersedesOf call.event = supersedesOf call'.event := by
    rw [supersedesOf, supersedesOf, htype, hpayload]
  rw [EventStore.appendEvent, EventStore.appendEvent, htype]
  split
  · exact hrows
  · rw [← remember_strip, ← remember_strip, hrows, extract_strip h, hsupersedes]

theorem run_strip {calls calls' : List AppendCall}
    (h : calls.map AppendCall.request = calls'.map AppendCall.request) {rows' : List MemoryRecord}
    (hrows : rows.map strip = rows'.map strip) :
    (calls.foldl (EventStore.appendEvent u) rows).map strip =
      (calls'.foldl (EventStore.appendEvent u) rows').map strip := by
  induction calls generalizing calls' rows rows' with
  | nil =>
      cases calls' with
      | nil => exact hrows
      | cons call' rest' => cases h
  | cons call rest ih =>
      cases calls' with
      | nil => cases h
      | cons call' rest' =>
          obtain ⟨hrequest, hrest⟩ := List.cons.inj h
          exact ih hrest (appendEvent_strip hrequest hrows)

/-! ## Runs -/

theorem UUID.str_injective : Function.Injective UUID.str := by
  intro x y h
  have hparse := UUID.parse_str x
  rw [h, UUID.parse_str] at hparse
  exact (Except.ok.inj hparse).symm

theorem map_strip_ofProject (p : String) :
    (ofProject p rows).map strip = ofProject p (rows.map strip) := by
  rw [ofProject, ofProject, List.filter_map]
  rfl

theorem ofProject_ofProject (p : String) : ofProject p (ofProject p rows) = ofProject p rows := by
  rw [ofProject, ofProject, List.filter_filter]
  simp

/-- The records of a project after a run of isolated calls come from its own calls. -/
theorem ofProject_run {calls : List AppendCall}
    (hisolated : Noninterference.Along (Isolated u) (EventStore.appendEvent u) [] calls)
    (project : UUID) :
    ofProject project.str (calls.foldl (EventStore.appendEvent u) []) =
      (calls.filter fun c => c.event.projectId = project).foldl (EventStore.appendEvent u) [] := by
  apply Noninterference.view_run (ofProject project.str)
    (fun rows => (rows.map MemoryRecord.id).Nodup) _ _ _ (by simp) hisolated
  · exact fun rows call hids => nodup_appendEvent hids call
  · intro rows call hids hok hmine
    obtain rfl : call.event.projectId = project := of_decide_eq_true hmine
    exact appendEvent_ofProject hids hok
  · intro rows call hids hok hother
    have hne : call.event.projectId ≠ project := of_decide_eq_false hother
    exact ofProject_appendEvent hids (UUID.str_injective.ne hne) hok

/-- In every run of isolated calls, the records of a project are those that its own calls make. -/
theorem EventStore.memories_of_project (u : UnicodeTables) (calls : List AppendCall)
    (hisolated : Noninterference.Along (Isolated u) (EventStore.appendEvent u) [] calls)
    (project : UUID) (own : List AppendCall)
    (hown : own.map AppendCall.request =
      (calls.filter fun c => c.event.projectId = project).map AppendCall.request) :
    (ofProject project.str (calls.foldl (EventStore.appendEvent u) [])).map strip =
      (ofProject project.str (own.foldl (EventStore.appendEvent u) [])).map strip := by
  have hrun := ofProject_run hisolated project
  have hsame : (own.foldl (EventStore.appendEvent u) []).map strip =
      ((calls.filter fun c => c.event.projectId = project).foldl
        (EventStore.appendEvent u) []).map strip := run_strip hown rfl
  calc
    (ofProject project.str (calls.foldl (EventStore.appendEvent u) [])).map strip =
        (ofProject project.str (ofProject project.str
          (calls.foldl (EventStore.appendEvent u) []))).map strip := by rw [ofProject_ofProject]
    _ = ofProject project.str ((own.foldl (EventStore.appendEvent u) []).map strip) := by
      rw [hrun, map_strip_ofProject, hsame]
    _ = (ofProject project.str (own.foldl (EventStore.appendEvent u) [])).map strip :=
      (map_strip_ofProject project.str).symm

/-- A call that accepts a decision in a project. -/
def acceptedCall (project : UUID) (decision : String) : AppendCall where
  event :=
    { eventSequence := 1
      id := .zero
      projectId := project
      streamId := "decisions"
      version := 1
      eventType := .decisionAccepted
      metadata := ⟨"agent", "cli", "", ""⟩
      payload := [("decision", .str decision)]
      parentId := none
      recordedAt := none
      schemaVersion := .int 1 }
  now := "2026-01-01"

/-- Another project. -/
def UUID.one : UUID := ⟨1, by decide⟩

/-- Two projects that accept different decisions. -/
theorem EventStore.memories_of_project_two :
    (ofProject UUID.zero.str ([acceptedCall .zero "Use Postgres",
        acceptedCall .one "Use SQLite"].foldl (EventStore.appendEvent .asciiOnly) [])).map strip =
      (ofProject UUID.zero.str ([acceptedCall .zero "Use Postgres"].foldl
        (EventStore.appendEvent .asciiOnly) [])).map strip := by
  apply EventStore.memories_of_project
  · refine .cons ⟨fun ms _ m _ r hr => absurd hr (by simp), fun ms s _ hs => ?_⟩
      (.cons ⟨fun ms hms m hm r hr hid => ?_, fun ms s _ hs => ?_⟩
        (Noninterference.along_nil _ _ _))
    · exact absurd hs nofun
    · obtain rfl := Except.ok.inj hms
      obtain rfl := List.mem_singleton.mp hm
      obtain rfl := List.mem_singleton.mp hr
      exact absurd hid (by decide +kernel)
    · exact absurd hs nofun
  · rfl

/-- The decision of one project is taken over by another project that accepts the same. -/
theorem EventStore.memories_taken_over :
    (ofProject UUID.zero.str ([acceptedCall .zero "Use Postgres",
        acceptedCall .one "Use Postgres"].foldl (EventStore.appendEvent .asciiOnly) [])).map strip =
        [] ∧
      ((ofProject UUID.zero.str ([acceptedCall .zero "Use Postgres"].foldl
        (EventStore.appendEvent .asciiOnly) [])).map strip).map MemoryRecord.content =
        ["Use Postgres"] := by
  constructor <;> decide +kernel

end RationaleVault
