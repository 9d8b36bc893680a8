import RationaleVault.Memory.Vault

/-!
# Replayed memories

The store draws the memories of an event and then retires the first record that the event
names. The replay retires every record that the event names, draws its memories, and
retires what was logged. Both start from one shelf and change it by the same steps in
another order.
-/

namespace RationaleVault

open SQLiteMemoryProvider

variable {u : UnicodeTables} {rows : List MemoryRecord}

/-! ## Providers that say where a record is put -/

/-- Reading gives the records that the state holds, and adding a record that can be kept changes
them as `place` says. -/
structure MemoryProvider.Placing (P : MemoryProvider)
    (Holds : P.State → List MemoryRecord → Prop) (Kept : MemoryRecord → Prop)
    (place : List MemoryRecord → MemoryRecord → List MemoryRecord) : Prop where
  read : ∀ {s rows}, Holds s rows → ∀ now, P.getAllRecords s now = some rows
  nodup : ∀ {s rows}, Holds s rows → (rows.map MemoryRecord.id).Nodup
  kept : ∀ {s rows}, Holds s rows → ∀ r ∈ rows, Kept r
  add : ∀ {s rows r}, Holds s rows → Kept (numbered rows r) → ∀ now,
    ∃ s', P.addRecord s now r = some (.ok s') ∧ Holds s' (place rows r)
  mem_place : ∀ {rows r}, (rows.map MemoryRecord.id).Nodup → ∀ x,
    x ∈ place rows r ↔ x = numbered rows r ∨ x ∈ rows ∧ x.id ≠ r.id
  retired : ∀ {r}, Kept r → Kept (retired r)

/-- The records can be added one after the other. -/
def Writable (Kept : MemoryRecord → Prop)
    (place : List MemoryRecord → MemoryRecord → List MemoryRecord) :
    List MemoryRecord → List MemoryRecord → Prop
  | _, [] => True
  | rows, m :: rest => Kept (numbered rows m) ∧ Writable Kept place (place rows m) rest

/-- Every record is active or superseded. -/
def Statused (rows : List MemoryRecord) : Prop :=
  ∀ r ∈ rows, r.lifecycleStatus = "active" ∨ r.lifecycleStatus = "superseded"

theorem shown_numbered (rows : List MemoryRecord) (m : MemoryRecord) :
    shown (numbered rows m) = shown m := by
  rcases numbered_eq rows m with heq | ⟨r, _, _, heq⟩
  · rw [heq]
  · rw [heq]
    rfl

theorem lifecycleStatus_numbered (rows : List MemoryRecord) (m : MemoryRecord) :
    (numbered rows m).lifecycleStatus = m.lifecycleStatus := by
  rcases numbered_eq rows m with heq | ⟨r, _, _, heq⟩
  · rw [heq]
  · rw [heq]

/-- The item that the lifecycle transition picks. -/
def isPicked (u : UnicodeTables) (place : List MemoryRecord → MemoryRecord → List MemoryRecord)
    (rows ms : List MemoryRecord) (event : EventRecord) (id : String) (_ : String × String) :
    Bool :=
  (picked u place rows ms event).map MemoryRecord.id = some id

/-- The record whose supersession is logged: the one that is picked, unless it was superseded. -/
def loggedBy (u : UnicodeTables) (place : List MemoryRecord → MemoryRecord → List MemoryRecord)
    (rows ms : List MemoryRecord) (event : EventRecord) : Option MemoryRecord :=
  (picked u place rows ms event).filter fun t => t.lifecycleStatus ≠ "superseded"

/-- An event that draws no memories names nothing. -/
theorem silent_event {event : EventRecord} {now : String} {ms : List MemoryRecord}
    (hsilent : emitsNoMemory event.eventType = true)
    (hms : extractMemoriesFromEvent u event now = .ok ms) :
    ms = [] ∧ supersedesOf event = none := by
  have hother : event.eventType ≠ .decisionAccepted := by
    intro htype
    rw [htype] at hsilent
    exact absurd hsilent (by decide)
  refine ⟨?_, if_neg hother⟩
  have hsilent' : ∀ {t}, event.eventType = t → emitsNoMemory t = true :=
    fun htype => htype ▸ hsilent
  unfold extractMemoriesFromEvent at hms
  split at hms
  next htype => exact absurd htype hother
  next htype => exact absurd (hsilent' htype) (by decide)
  next htype => exact absurd (hsilent' htype) (by decide)
  next htype => exact absurd (hsilent' htype) (by decide)
  next htype => exact absurd (hsilent' htype) (by decide)
  next htype => exact absurd (hsilent' htype) (by decide)
  next htype => exact absurd (hsilent' htype) (by decide)
  next htype => exact absurd (hsilent' htype) (by decide)
  next => exact (Except.ok.inj hms).symm

namespace MemoryProvider.Placing

variable {P : MemoryProvider} {Holds : P.State → List MemoryRecord → Prop}
  {Kept : MemoryRecord → Prop} {place : List MemoryRecord → MemoryRecord → List MemoryRecord}
  {s : P.State} (F : P.Placing Holds Kept place)

include F

theorem statused_place (hids : (rows.map MemoryRecord.id).Nodup) (hstatus : Statused rows)
    {m : MemoryRecord} (hm : m.lifecycleStatus = "active" ∨ m.lifecycleStatus = "superseded") :
    Statused (place rows m) := by
  intro x hx
  rcases (F.mem_place hids x).mp hx with rfl | ⟨hx, _⟩
  · rwa [lifecycleStatus_numbered]
  · exact hstatus x hx

theorem shelfOf_place (hids : (rows.map MemoryRecord.id).Nodup) {m : MemoryRecord}
    (hids' : ((place rows m).map MemoryRecord.id).Nodup) (id : String) :
    shelfOf (place rows m) id = if m.id = id then some (shown m) else shelfOf rows id := by
  rw [shelfOf_written hids hids' (numbered_id m) (F.mem_place hids), shown_numbered]

/-- Drawn memories are put on the shelf. -/
theorem addRecords {ms : List MemoryRecord} (h : Holds s rows) (hstatus : Statused rows)
    (hms : ∀ m ∈ ms, BM25IndexProjection.Drawn m) (hw : Writable Kept place rows ms)
    (now : String) :
    ∃ s', P.addRecords s now ms = some (s', true) ∧ Holds s' (ms.foldl place rows) ∧
      Statused (ms.foldl place rows) ∧
      shelfOf (ms.foldl place rows) = (shelfOf rows).putAll (ms.map label) ∧
      ∀ r ∈ rows, (∀ m ∈ ms, m.id ≠ r.id) → r ∈ ms.foldl place rows := by
  induction ms generalizing s rows with
  | nil => exact ⟨s, rfl, h, hstatus, rfl, fun r hr _ => hr⟩
  | cons m rest ih =>
      have hids := F.nodup h
      have hm := hms m List.mem_cons_self
      obtain ⟨s₁, hadd, hholds⟩ := F.add h hw.1 now
      obtain ⟨s', hrun, hholds', hstatus', hshelf, hstay⟩ := ih hholds
        (F.statused_place hids hstatus (Or.inl hm.lifecycleStatus_eq))
        (fun m' hm' => hms m' (List.mem_cons_of_mem m hm')) hw.2
      have hput : shelfOf (place rows m) = (shelfOf rows).put (label m) := by
        funext id
        rw [F.shelfOf_place hids (F.nodup hholds), BM25IndexProjection.shown_of_drawn hm]
        rfl
      refine ⟨s', ?_, hholds', hstatus', ?_, fun r hr hne => ?_⟩
      · rw [MemoryProvider.addRecords, hadd, Option.bind_some]
        exact hrun
      · rw [List.foldl_cons, hshelf, hput, List.map_cons, ItemShelf.putAll_cons]
      · rw [List.forall_mem_cons] at hne
        exact hstay r ((F.mem_place hids r).mpr (Or.inr ⟨hr, Ne.symm hne.1⟩)) hne.2

/-- The lifecycle transition retires the first record that is named, and logs it unless it was
superseded already. -/
theorem supersedeLogged (h : Holds s rows) (hstatus : Statused rows) (now text : String) :
    ∃ s' rows', P.supersedeLogged u s now text = some (s',
        (rows.find? (names u text)).filter fun t => t.lifecycleStatus ≠ "superseded") ∧
      Holds s' rows' ∧ Statused rows' ∧
      shelfOf rows' = (shelfOf rows).retire fun id _ =>
        decide ((rows.find? (names u text)).map MemoryRecord.id = some id) := by
  have hids := F.nodup h
  rw [MemoryProvider.supersedeLogged, F.read h, Option.bind_some]
  cases hfind : rows.find? (names u text) with
  | none =>
      refine ⟨s, rows, rfl, h, hstatus, (ItemShelf.retire_of_not_active fun id b _ => ?_).symm⟩
      apply decide_eq_false
      intro heq
      cases heq
  | some t =>
      have ht := List.mem_of_find?_eq_some hfind
      dsimp only
      by_cases hsuperseded : t.lifecycleStatus = "superseded"
      · rw [if_neg (by simpa using hsuperseded), Option.filter_some,
          if_neg (by simpa using hsuperseded)]
        refine ⟨s, rows, rfl, h, hstatus, (ItemShelf.retire_of_not_active fun id b hid => ?_).symm⟩
        obtain ⟨r, hr, hrid, hshown⟩ := (shelfOf_eq_some_iff hids).mp hid
        apply decide_eq_false
        intro heq
        obtain rfl : t = r := List.inj_on_of_nodup_map hids ht hr
          ((Option.some.inj heq).trans hrid.symm)
        have hactive : decide (t.lifecycleStatus = "active") = true := congrArg Prod.snd hshown
        rw [hsuperseded] at hactive
        exact absurd hactive (by decide)
      · have hnumbered : numbered rows (SQLiteMemoryProvider.retired t) =
            SQLiteMemoryProvider.retired t := numbered_of_mem hids ht rfl rfl
        obtain ⟨s', hadd, hholds⟩ :=
          F.add h (hnumbered.symm ▸ F.retired (F.kept h t ht)) now
        rw [if_pos hsuperseded, hadd, Option.filter_some, if_pos (by simpa using hsuperseded)]
        refine ⟨s', _, rfl, hholds, F.statused_place hids hstatus (Or.inr rfl), ?_⟩
        funext id
        have hretired : (SQLiteMemoryProvider.retired t).id = t.id := rfl
        rw [F.shelfOf_place hids (F.nodup hholds), ItemShelf.retire_apply, hretired]
        by_cases hid : t.id = id
        · have hshelf : shelfOf rows id = some (shown t) :=
            (shelfOf_eq_some_iff hids).mpr ⟨t, ht, hid, rfl⟩
          rw [if_pos hid, hshelf]
          simp [hid, shown, SQLiteMemoryProvider.retired]
        · rw [if_neg hid]
          simp [hid]

/-- What the store does with the memories of an event. -/
theorem appendLogged (h : Holds s rows) (hstatus : Statused rows) {call : AppendCall}
    {ms : List MemoryRecord} (hms : extractMemoriesFromEvent u call.event call.now = .ok ms)
    (hw : Writable Kept place rows ms) :
    ∃ s' rows', P.appendLogged u s call = some (s', loggedBy u place rows ms call.event) ∧
      Holds s' rows' ∧ Statused rows' ∧
      shelfOf rows' = ((shelfOf rows).putAll (ms.map label)).retire
        (isPicked u place rows ms call.event) := by
  have hunnamed : supersedesOf call.event = none →
      isPicked u place rows ms call.event = fun _ _ => false := by
    intro hnone
    funext id b
    rw [isPicked, picked, hnone]
    rfl
  rw [MemoryProvider.appendLogged]
  by_cases hsilent : emitsNoMemory call.event.eventType = true
  · obtain ⟨hempty, hnone⟩ := silent_event hsilent hms
    rw [if_pos hsilent, hunnamed hnone, hempty, loggedBy, picked, hnone]
    refine ⟨s, rows, rfl, h, hstatus, (ItemShelf.retire_of_not_active fun _ _ _ => rfl).symm⟩
  · obtain ⟨s₁, hadd, hholds, hstatus₁, hshelf, _⟩ := F.addRecords h hstatus
      (BM25IndexProjection.drawn_of_extract hms).2 hw call.now
    rw [if_neg hsilent, hms]
    dsimp only
    rw [hadd, Option.bind_some]
    cases hs : supersedesOf call.event with
    | none =>
        rw [hunnamed hs, loggedBy, picked, hs, ← hshelf]
        refine ⟨s₁, _, rfl, hholds, hstatus₁, ?_⟩
        exact (ItemShelf.retire_of_not_active fun _ _ _ => rfl).symm
    | some text =>
        have hpicked : picked u place rows ms call.event =
            (ms.foldl place rows).find? (names u text) := by
          rw [picked, hs, Option.bind_some]
        obtain ⟨s', rows', hrun, hholds', hstatus', hshelf'⟩ :=
          F.supersedeLogged (u := u) hholds hstatus₁ call.now text
        refine ⟨s', rows', ?_, hholds', hstatus', ?_⟩
        · rw [loggedBy, hpicked]
          exact hrun
        · rw [hshelf', hshelf]
          congr 1
          funext id b
          rw [isPicked, hpicked]

end MemoryProvider.Placing

/-! ## The replay of one call -/

/-- The memories of the replay show what the records of the store show. -/
structure Mirrors (rows : List MemoryRecord) (memories : OrdDict String MemoryRecord) : Prop where
  keyed : Keyed memories
  same : shelfOfDict memories = shelfOf rows

theorem Mirrors.agree {memories : OrdDict String MemoryRecord} (h : Mirrors rows memories)
    (hids : (rows.map MemoryRecord.id).Nodup) (id : String) :
    id ∈ activeIds memories.values ↔ id ∈ activeIds rows := by
  rw [← active_shelfOfDict h.keyed, ← active_shelfOf hids, h.same]

/-- There are records in both or in none. -/
theorem Mirrors.entries_eq_nil_iff {memories : OrdDict String MemoryRecord}
    (h : Mirrors rows memories) (hids : (rows.map MemoryRecord.id).Nodup) :
    memories.entries = [] ↔ rows = [] := by
  constructor
  · intro hempty
    rw [List.eq_nil_iff_forall_not_mem]
    intro r hr
    have hshelf := (shelfOf_eq_some_iff hids).mpr ⟨r, hr, rfl, rfl⟩
    rw [← h.same, shelfOfDict, OrdDict.get?, hempty] at hshelf
    cases hshelf
  · rintro rfl
    rw [List.eq_nil_iff_forall_not_mem]
    intro e he
    have hshelf : shelfOfDict memories e.1 = some (shown e.2) := by
      rw [shelfOfDict, OrdDict.get?_of_mem he, Option.map_some]
    rw [h.same] at hshelf
    cases hshelf

/-- Two extractions from one event draw the same items. -/
theorem map_label_extract {event : EventRecord} {now : String} {ms : List MemoryRecord}
    (hms : extractMemoriesFromEvent u event now = .ok ms) (now' : String) :
    ∃ ms', extractMemoriesFromEvent u event now' = .ok ms' ∧ ms'.map label = ms.map label := by
  have hstrip : (extractMemoriesFromEvent u event now).map (List.map strip) =
      (extractMemoriesFromEvent u event now').map (List.map strip) :=
    @extract_strip u ⟨event, now⟩ ⟨event, now'⟩ rfl
  rw [hms] at hstrip
  cases hms' : extractMemoriesFromEvent u event now' with
  | error e =>
      rw [hms'] at hstrip
      cases hstrip
  | ok ms' =>
      rw [hms'] at hstrip
      have hlabels : ∀ l : List MemoryRecord, l.map label = (l.map strip).map label := fun l => by
        rw [List.map_map]
        rfl
      refine ⟨ms', rfl, ?_⟩
      rw [hlabels, hlabels ms]
      exact congrArg (List.map label) (Except.ok.inj hstrip).symm

namespace BM25IndexProjection

variable {clock : EventRecord → String} {p : UUID}

/-- The stream is in order already. -/
theorem reconstruct_eq (db : EventDb) : reconstruct u clock (db.getProjectStream p 0) =
    (db.projectRows p).foldlM (replayEvent u clock) .empty := by
  have hordered : (db.projectRows p).Pairwise fun r r' => r.eventSequence < r'.eventSequence :=
    db.ordered.filter _
  rw [EventDb.getProjectStream_zero, reconstruct,
    Table.orderBy_eq_self (hordered.imp fun hlt => Nat.le_of_lt hlt)]

/-- A further event of the project is replayed last. -/
theorem reconstruct_appendEvent {db : EventDb} {req : AppendRequest} (hp : req.projectId = p) :
    reconstruct u clock ((db.appendEvent req).getProjectStream p 0) =
      (reconstruct u clock (db.getProjectStream p 0)).bind fun memories =>
        replayEvent u clock memories (db.newRecord req) := by
  rw [reconstruct_eq, reconstruct_eq, EventDb.projectRows_appendEvent, if_pos hp,
    List.foldlM_append]
  simp only [List.foldlM_cons, List.foldlM_nil, bind_pure]
  rfl

/-- A logged event retires the record that it was logged for. -/
theorem replayEvent_log {memories : OrdDict String MemoryRecord} (hkeyed : Keyed memories)
    {event : EventRecord} {target : MemoryRecord} (htype : event.eventType = .memorySuperseded)
    (hid : event.payload.get "memory_id" = .str target.id) :
    ∃ memories', replayEvent u clock memories event = .ok memories' ∧ Keyed memories' ∧
      shelfOfDict memories' = (shelfOfDict memories).retire fun id _ =>
        decide (target.id = id) := by
  have hnone : extractMemoriesFromEvent u event (clock event) = .ok [] := by
    simp only [extractMemoriesFromEvent, htype]
  have hother : event.eventType ≠ .decisionAccepted := by
    rw [htype]
    decide
  obtain ⟨memories', hreplay⟩ := replayEvent_isOk_iff.mpr
    ⟨(⟨fun _ => by rw [hid]; rfl, fun h => absurd h hother⟩ :
      Transits event (memories.entries = [])), [], hnone⟩
  obtain ⟨ms, hms, hkeyed', hshelf⟩ := replayEvent_spec hkeyed hreplay
  obtain rfl := Except.ok.inj (hnone.symm.trans hms)
  refine ⟨memories', hreplay, hkeyed', hshelf.trans ?_⟩
  change (shelfOfDict memories).retire (touched u event) = _
  congr 1
  funext id b
  simp only [touched, htype, hid]
  congr 1
  exact propext ⟨fun h => by simpa using h, fun h => by rw [h]⟩

end BM25IndexProjection

/-! ## One call -/

namespace Vault

variable {P : MemoryProvider} {clock : EventRecord → String} {p : UUID} {v : Vault P}
  {call : VaultCall} {memories between : OrdDict String MemoryRecord}

/-- The logged event retires its record in the replay, too. -/
theorem reconstruct_record (hp : call.request.projectId = p)
    (hreplay : BM25IndexProjection.reconstruct u clock (v.events.getProjectStream p 0) =
      .ok memories)
    (hevent : BM25IndexProjection.replayEvent u clock memories (v.eventOf call) = .ok between)
    (hkeyed : Keyed between) (logged : Option MemoryRecord) :
    ∃ memories', BM25IndexProjection.reconstruct u clock
        ((v.record call logged).getProjectStream p 0) = .ok memories' ∧ Keyed memories' ∧
      shelfOfDict memories' = (shelfOfDict between).retire fun id _ =>
        decide (logged.map MemoryRecord.id = some id) := by
  have hfirst : BM25IndexProjection.reconstruct u clock
      ((v.events.appendEvent call.request).getProjectStream p 0) = .ok between := by
    rw [BM25IndexProjection.reconstruct_appendEvent hp, hreplay]
    exact hevent
  cases logged with
  | none =>
      refine ⟨between, hfirst, hkeyed, (ItemShelf.retire_of_not_active fun id b _ => ?_).symm⟩
      exact decide_eq_false nofun
  | some target =>
      obtain ⟨memories', hlog, hkeyed', hshelf⟩ :=
        @BM25IndexProjection.replayEvent_log u clock _ hkeyed
          ((v.events.appendEvent call.request).newRecord
            (call.logRequest (v.eventOf call) target)) target rfl rfl
      refine ⟨memories', ?_, hkeyed', hshelf.trans ?_⟩
      · have hlogged : (call.logRequest (v.eventOf call) target).projectId = p := hp
        rw [record, BM25IndexProjection.reconstruct_appendEvent hlogged, hfirst]
        exact hlog
      · congr 1
        funext id b
        simp

/-- An event that the replay cannot read ends it. -/
theorem reconstruct_record_error (hp : call.request.projectId = p)
    (hreplay : BM25IndexProjection.reconstruct u clock (v.events.getProjectStream p 0) =
      .ok memories)
    (hevent : ¬∃ between, BM25IndexProjection.replayEvent u clock memories (v.eventOf call) =
      .ok between) (logged : Option MemoryRecord) :
    ¬∃ memories', BM25IndexProjection.reconstruct u clock
      ((v.record call logged).getProjectStream p 0) = .ok memories' := by
  have hfirst : BM25IndexProjection.reconstruct u clock
      ((v.events.appendEvent call.request).getProjectStream p 0) =
        BM25IndexProjection.replayEvent u clock memories (v.eventOf call) := by
    rw [BM25IndexProjection.reconstruct_appendEvent hp, hreplay]
    rfl
  rintro ⟨memories', h⟩
  cases logged with
  | none => exact hevent ⟨memories', hfirst.symm.trans h⟩
  | some target =>
      have hlogged : (call.logRequest (v.eventOf call) target).projectId = p := hp
      rw [record, BM25IndexProjection.reconstruct_appendEvent hlogged, hfirst] at h
      obtain ⟨between, hbetween, _⟩ := Except.bind_eq_ok_iff.mp h
      exact hevent ⟨between, hbetween⟩

end Vault

/-- The condition on the records is the condition on the shelf. -/
theorem followed_iff {place : List MemoryRecord → MemoryRecord → List MemoryRecord}
    {event : EventRecord} {now : String} {ms : List MemoryRecord}
    (hids : (rows.map MemoryRecord.id).Nodup)
    (hids' : ((ms.foldl place rows).map MemoryRecord.id).Nodup)
    (hstay : ∀ r ∈ rows, (∀ m ∈ ms, m.id ≠ r.id) → r ∈ ms.foldl place rows)
    (hms : extractMemoriesFromEvent u event now = .ok ms) (htransits : Transits event (rows = [])) :
    Followed u place rows event now ↔
      ∀ id b, shelfOf rows id = some (b, true) → touched u event id b = true →
        id ∉ (ms.map label).map Prod.fst → isPicked u place rows ms event id b = true := by
  have hkeys : ∀ id, id ∉ (ms.map label).map Prod.fst ↔ ∀ m ∈ ms, m.id ≠ id := by
    intro id
    simp [label]
  constructor
  · rintro ⟨_, ms', hms', hpicked⟩ id b hid htouched hnew
    obtain rfl := Except.ok.inj (hms.symm.trans hms')
    obtain ⟨r, hr, rfl, hshown⟩ := (shelfOf_eq_some_iff hids).mp hid
    obtain ⟨rfl, hactive⟩ := Prod.mk.inj hshown
    have hsome := hpicked r hr (of_decide_eq_true hactive) htouched ((hkeys r.id).mp hnew)
    rw [isPicked, hsome]
    exact decide_eq_true rfl
  · intro h
    refine ⟨htransits, ms, hms, fun r hr hactive htouched hnew => ?_⟩
    have hid : shelfOf rows r.id = some ((r.title, r.content), true) :=
      (shelfOf_eq_some_iff hids).mpr ⟨r, hr, rfl, Prod.ext rfl (decide_eq_true hactive)⟩
    have hpicked := h r.id _ hid htouched ((hkeys r.id).mpr hnew)
    obtain ⟨t, ht, htid⟩ := Option.map_eq_some_iff.mp (of_decide_eq_true hpicked)
    have hmem : t ∈ ms.foldl place rows := by
      obtain ⟨text, _, hfind⟩ := Option.bind_eq_some_iff.mp ht
      exact List.mem_of_find?_eq_some hfind
    rw [ht, List.inj_on_of_nodup_map hids' hmem (hstay r hr hnew) htid]

/-- The state holds records that the replay of the project's events mirrors. -/
def Vault.Mirrored {P : MemoryProvider} (Holds : P.State → List MemoryRecord → Prop)
    (u : UnicodeTables) (clock : EventRecord → String) (p : UUID) (v : Vault P) : Prop :=
  ∃ rows memories, Holds v.memories rows ∧ Statused rows ∧
    BM25IndexProjection.reconstruct u clock (v.events.getProjectStream p 0) = .ok memories ∧
    Mirrors rows memories

/-- A record that was superseded already is not active in the replay either. -/
theorem retire_logged {place : List MemoryRecord → MemoryRecord → List MemoryRecord}
    {ms : List MemoryRecord} {event : EventRecord}
    (hids : ((ms.foldl place rows).map MemoryRecord.id).Nodup)
    (hshelf : shelfOf (ms.foldl place rows) = (shelfOf rows).putAll (ms.map label)) :
    (((shelfOf rows).retire (touched u event)).putAll (ms.map label)).retire (fun id _ =>
        decide ((loggedBy u place rows ms event).map MemoryRecord.id = some id)) =
      (((shelfOf rows).retire (touched u event)).putAll (ms.map label)).retire
        (isPicked u place rows ms event) := by
  have hpicked : ∀ id b, isPicked u place rows ms event id b =
      decide ((picked u place rows ms event).map MemoryRecord.id = some id) := fun _ _ => rfl
  cases hp : picked u place rows ms event with
  | none =>
      congr 1
      funext id b
      rw [hpicked, loggedBy, hp]
      rfl
  | some t =>
      by_cases hstatus : t.lifecycleStatus = "superseded"
      · have hlogged : loggedBy u place rows ms event = none := by
          rw [loggedBy, hp, Option.filter_some, if_neg (by simpa using hstatus)]
        have hmem : t ∈ ms.foldl place rows := by
          obtain ⟨text, _, hfind⟩ := Option.bind_eq_some_iff.mp hp
          exact List.mem_of_find?_eq_some hfind
        rw [hlogged, ItemShelf.retire_of_not_active (p := isPicked u place rows ms event)]
        · exact ItemShelf.retire_of_not_active fun _ _ _ => decide_eq_false nofun
        · intro id b hid
          rw [hpicked, hp]
          apply decide_eq_false
          intro heq
          obtain ⟨b', hb'⟩ := ItemShelf.active_of_active_early ⟨b, hid⟩
          rw [← hshelf] at hb'
          obtain ⟨r, hr, hrid, hshown⟩ := (shelfOf_eq_some_iff hids).mp hb'
          obtain rfl : t = r := List.inj_on_of_nodup_map hids hmem hr
            ((Option.some.inj heq).trans hrid.symm)
          have hactive : decide (t.lifecycleStatus = "active") = true := congrArg Prod.snd hshown
          rw [hstatus] at hactive
          exact absurd hactive (by decide)
      · congr 1
        funext id b
        rw [hpicked, loggedBy, hp, Option.filter_some, if_pos (by simpa using hstatus)]

namespace MemoryProvider.Placing

variable {P : MemoryProvider} {Holds : P.State → List MemoryRecord → Prop}
  {Kept : MemoryRecord → Prop} {place : List MemoryRecord → MemoryRecord → List MemoryRecord}
  {clock : EventRecord → String} {p : UUID} {v : Vault P} (F : P.Placing Holds Kept place)

include F

theorem agrees_of_mirrored (h : v.Mirrored Holds u clock p) :
    Vault.Agrees u clock p (some v) := by
  obtain ⟨rows, memories, hholds, _, hreplay, hmirrors⟩ := h
  exact ⟨v, rfl, memories, rows, hreplay, F.read hholds, hmirrors.agree (F.nodup hholds)⟩

theorem follows_iff {call : VaultCall} (h : Holds v.memories rows) :
    Vault.Follows u place (some v) call ↔ Followed u place rows (v.eventOf call) call.now := by
  constructor
  · exact fun hfollows => hfollows v rfl rows (F.read h call.now)
  · rintro hfollowed v' ⟨⟩ rows' hrows'
    rw [F.read h call.now] at hrows'
    exact Option.some.inj hrows' ▸ hfollowed

/-- The replay can read an event when its memories can be drawn and its status changes raise
nothing. -/
theorem replayEvent_isOk_iff {call : VaultCall} (h : Holds v.memories rows)
    {memories : OrdDict String MemoryRecord} (hmirrors : Mirrors rows memories) :
    (∃ between, BM25IndexProjection.replayEvent u clock memories (v.eventOf call) = .ok between) ↔
      Transits (v.eventOf call) (rows = []) ∧
        ∃ ms, extractMemoriesFromEvent u (v.eventOf call) call.now = .ok ms := by
  rw [BM25IndexProjection.replayEvent_isOk_iff, hmirrors.entries_eq_nil_iff (F.nodup h)]
  apply and_congr_right'
  constructor
  · rintro ⟨ms, hms⟩
    obtain ⟨ms', hms', _⟩ := map_label_extract hms call.now
    exact ⟨ms', hms'⟩
  · rintro ⟨ms, hms⟩
    obtain ⟨ms', hms', _⟩ := map_label_extract hms (clock (v.eventOf call))
    exact ⟨ms', hms'⟩

/-- An event that the replay cannot read is not followed, and store and replay part whatever the
store holds after it. -/
theorem agrees_unread {call : VaultCall} (hp : call.request.projectId = p)
    (hholds : Holds v.memories rows) {memories : OrdDict String MemoryRecord}
    (hreplay : BM25IndexProjection.reconstruct u clock (v.events.getProjectStream p 0) =
      .ok memories)
    (hmirrors : Mirrors rows memories)
    (hevent : ¬∃ between,
      BM25IndexProjection.replayEvent u clock memories (v.eventOf call) = .ok between)
    (s : P.State) (logged : Option MemoryRecord) :
    (Vault.Agrees u clock p (some ⟨v.record call logged, s⟩) ↔
      Followed u place rows (v.eventOf call) call.now) ∧
      (Followed u place rows (v.eventOf call) call.now →
        Vault.Mirrored Holds u clock p ⟨v.record call logged, s⟩) := by
  have hnot : ¬Followed u place rows (v.eventOf call) call.now := fun h =>
    hevent ((F.replayEvent_isOk_iff hholds hmirrors).mpr
      ⟨h.transits, h.drawn.imp fun _ hms => hms.1⟩)
  refine ⟨iff_of_false ?_ hnot, fun h => absurd h hnot⟩
  rintro ⟨_, ⟨⟩, memories', _, hreplay', _⟩
  exact Vault.reconstruct_record_error hp hreplay hevent logged ⟨memories', hreplay'⟩

/-- From a state in which store and replay show the same, a call keeps them together exactly when
the replay follows it. -/
theorem agrees_append (h : v.Mirrored Holds u clock p) {call : VaultCall}
    (hp : call.request.projectId = p)
    (hw : ∀ rows ms, Holds v.memories rows →
      extractMemoriesFromEvent u (v.eventOf call) call.now = .ok ms →
        Writable Kept place rows ms) :
    ∃ v', v.append u call = some v' ∧
      (Vault.Agrees u clock p (some v') ↔ Vault.Follows u place (some v) call) ∧
      (Vault.Follows u place (some v) call → v'.Mirrored Holds u clock p) := by
  obtain ⟨rows, memories, hholds, hstatus, hreplay, hmirrors⟩ := h
  have hids := F.nodup hholds
  have hread : (∃ between,
        BM25IndexProjection.replayEvent u clock memories (v.eventOf call) = .ok between) ↔
      Transits (v.eventOf call) (rows = []) ∧
        ∃ ms, extractMemoriesFromEvent u (v.eventOf call) call.now = .ok ms :=
    F.replayEvent_isOk_iff hholds hmirrors
  rw [F.follows_iff hholds]
  cases hms : extractMemoriesFromEvent u (v.eventOf call) call.now with
  | error e =>
      have hlive : P.appendLogged u v.memories ⟨v.eventOf call, call.now⟩ =
          some (v.memories, none) := by
        rw [MemoryProvider.appendLogged, hms]
        split_ifs <;> rfl
      refine ⟨⟨v.record call none, v.memories⟩, ?_,
        F.agrees_unread hp hholds hreplay hmirrors (fun h => ?_) _ _⟩
      · rw [Vault.append, hlive, Option.map_some]
      · obtain ⟨_, ms, hms'⟩ := hread.mp h
        rw [hms] at hms'
        cases hms'
  | ok ms =>
      have hwritable := hw rows ms hholds hms
      obtain ⟨s₁, _, hholds₁, _, hshelf₁, hstay⟩ := F.addRecords hholds hstatus
        (BM25IndexProjection.drawn_of_extract hms).2 hwritable call.now
      have hlogged : ∃ s' rows', P.appendLogged u v.memories ⟨v.eventOf call, call.now⟩ =
          some (s', loggedBy u place rows ms (v.eventOf call)) ∧ Holds s' rows' ∧
          Statused rows' ∧ shelfOf rows' = ((shelfOf rows).putAll (ms.map label)).retire
            (isPicked u place rows ms (v.eventOf call)) :=
        F.appendLogged hholds hstatus hms hwritable
      obtain ⟨s', rows', hlive, hholds', hstatus', hshelf'⟩ := hlogged
      refine ⟨⟨v.record call (loggedBy u place rows ms (v.eventOf call)), s'⟩, ?_, ?_⟩
      · rw [Vault.append, hlive, Option.map_some]
      by_cases hevent : ∃ between, BM25IndexProjection.replayEvent u clock memories
          (v.eventOf call) = .ok between
      · have htransits := (hread.mp hevent).1
        obtain ⟨between, hbetween⟩ := hevent
        obtain ⟨ms', hms', hkeyed, hshelf⟩ :=
          BM25IndexProjection.replayEvent_spec hmirrors.keyed hbetween
        obtain ⟨ms'', hms'', hlabels⟩ := map_label_extract hms (clock (v.eventOf call))
        obtain rfl := Except.ok.inj (hms'.symm.trans hms'')
        obtain ⟨memories', hreplay', hkeyed', hshelf''⟩ := Vault.reconstruct_record hp hreplay
          hbetween hkeyed (loggedBy u place rows ms (v.eventOf call))
        rw [hshelf, hlabels, hmirrors.same, retire_logged (F.nodup hholds₁) hshelf₁] at hshelf''
        rw [followed_iff hids (F.nodup hholds₁) hstay hms htransits]
        constructor
        · rw [← ItemShelf.active_early_iff_late, ← hshelf', ← hshelf'']
          simp only [active_shelfOf (F.nodup hholds'), active_shelfOfDict hkeyed']
          constructor
          · rintro ⟨_, ⟨⟩, memories'', rows'', hreplay'', hshows, hagree⟩ id
            obtain rfl := Except.ok.inj (hreplay'.symm.trans hreplay'')
            obtain rfl := Option.some.inj ((F.read hholds' "").symm.trans (hshows ""))
            exact (hagree id).symm
          · intro hagree
            exact ⟨_, rfl, memories', rows', hreplay', F.read hholds', fun id => (hagree id).symm⟩
        · intro hcondition
          refine ⟨rows', memories', hholds', hstatus', hreplay', hkeyed', ?_⟩
          rw [hshelf'', hshelf']
          exact ItemShelf.early_eq_late hcondition
      · exact F.agrees_unread hp hholds hreplay hmirrors hevent _ _

/-- In a run whose memories can be written, store and replay agree throughout exactly when the
replay follows every call. -/
theorem agrees_run {ok : Option (Vault P) → VaultCall → Prop}
    (hok : ∀ v call rows ms, Holds v.memories rows → ok (some v) call →
      extractMemoriesFromEvent u (v.eventOf call) call.now = .ok ms → Writable Kept place rows ms)
    (h : v.Mirrored Holds u clock p) {calls : List VaultCall}
    (hp : ∀ call ∈ calls, call.request.projectId = p)
    (hcalls : Noninterference.Along ok (Vault.step u) (some v) calls) :
    (∀ before after, calls = before ++ after →
        Vault.Agrees u clock p (before.foldl (Vault.step u) (some v))) ↔
      Noninterference.Along (Vault.Follows u place) (Vault.step u) (some v) calls := by
  induction calls generalizing v with
  | nil =>
      refine iff_of_true (fun before after hsplit => ?_) (Noninterference.along_nil _ _ _)
      rw [(List.append_eq_nil_iff.mp hsplit.symm).1]
      exact F.agrees_of_mirrored h
  | cons call rest ih =>
      obtain ⟨v', happend, hagrees, hmirrored⟩ := F.agrees_append h
        (hp call List.mem_cons_self) fun rows ms hholds => hok v call rows ms hholds hcalls.head
      have hstep : Vault.step u (some v) call = some v' := happend
      have htail := hcalls.tail
      rw [hstep] at htail
      have hrest := fun hfollows => ih (hmirrored hfollows)
        (fun c hc => hp c (List.mem_cons_of_mem call hc)) htail
      constructor
      · intro hall
        have hfollows : Vault.Follows u place (some v) call := by
          rw [← hagrees, ← hstep]
          exact hall [call] rest rfl
        apply Noninterference.Along.cons hfollows
        rw [hstep, ← hrest hfollows]
        intro before after hsplit
        rw [← hstep]
        exact hall (call :: before) after (congrArg (call :: ·) hsplit)
      · intro halong before after hsplit
        cases before with
        | nil => exact F.agrees_of_mirrored h
        | cons c before =>
            obtain ⟨rfl, hrest'⟩ := List.cons.inj hsplit
            have hrun := halong.tail
            rw [hstep, ← hrest halong.head] at hrun
            rw [List.foldl_cons, hstep]
            exact hrun before after hrest'

end MemoryProvider.Placing

/-! ## The two providers -/

namespace SQLiteMemoryProvider

/-- The table after a record has been added. -/
def placed (rows : List MemoryRecord) (m : MemoryRecord) : List MemoryRecord :=
  Table.replace MemoryRecord.id rows (numbered rows m)

theorem placing : provider.Placing
    (fun table rows => table = rows ∧ (rows.map MemoryRecord.id).Nodup ∧ ∀ r ∈ rows, Fits r)
    Fits placed where
  read := fun {_ rows} h now => congrArg some h.1
  nodup h := h.2.1
  kept h := h.2.2
  add := by
    rintro table rows r ⟨rfl, hids, hfits⟩ hr now
    have hadd : addRecord table r = .ok (placed table r) := if_pos hr
    refine ⟨_, congrArg some hadd, rfl, Table.nodup_replace hids _, fun x hx => ?_⟩
    rcases Table.mem_replace.mp hx with ⟨hx, -⟩ | rfl
    · exact hfits x hx
    · exact hr
  mem_place := by
    intro rows r _ x
    rw [placed, Table.mem_replace, numbered_id, or_comm]
  retired h := h

/-- No version is so large that two more writes could not be bound. -/
def HasRoom (state : Option (Vault provider)) (_ : VaultCall) : Prop :=
  ∀ v ∈ state, ∀ r ∈ v.memories, r.version + 2 < 2 ^ 63

theorem writable_of_room {ms : List MemoryRecord} (hfits : ∀ r ∈ rows, Fits r)
    (hroom : ∀ r ∈ rows, r.version + ms.length < 2 ^ 63)
    (hms : ∀ m ∈ ms, BM25IndexProjection.Drawn m) (hfew : ms.length ≤ 2) :
    Writable Fits placed rows ms := by
  induction ms generalizing rows with
  | nil => exact trivial
  | cons m rest ih =>
      have hm := hms m List.mem_cons_self
      rw [List.length_cons] at hroom hfew
      obtain ⟨hnumbered, hversion⟩ : Fits (numbered rows m) ∧
          (numbered rows m).version + rest.length < 2 ^ 63 := by
        have hcount : IsInt64 m.referenceCount := by
          rw [hm.referenceCount_eq]
          decide
        rcases numbered_eq rows m with heq | ⟨r, hr, _, heq⟩
        · rw [heq, Fits, hm.version_eq]
          exact ⟨⟨by decide, hcount⟩, by omega⟩
        · have hlarge := hroom r hr
          have hsmall : -2 ^ 63 ≤ r.version := (hfits r hr).1.1
          rw [heq]
          exact ⟨⟨⟨by change -2 ^ 63 ≤ r.version + 1; omega,
            by change r.version + 1 < 2 ^ 63; omega⟩, hcount⟩,
            by change r.version + 1 + rest.length < 2 ^ 63; omega⟩
      refine ⟨hnumbered, ih (fun x hx => ?_) (fun x hx => ?_)
        (fun m' hm' => hms m' (List.mem_cons_of_mem m hm')) (by omega)⟩
      · rcases Table.mem_replace.mp hx with ⟨hx, -⟩ | rfl
        · exact hfits x hx
        · exact hnumbered
      · rcases Table.mem_replace.mp hx with ⟨hx, -⟩ | rfl
        · have hlarge := hroom x hx
          omega
        · exact hversion

end SQLiteMemoryProvider

namespace MarkdownMemoryProvider

variable {ft : FloatText}

theorem placing : (provider u ft).Placing
    (fun file rows => (format u ft).Keeps file rows ∧ (rows.map MemoryRecord.id).Nodup ∧
      ∀ r ∈ rows, Tidy u ft r) (Tidy u ft) (format u ft).upsert where
  read h := h.1.read
  nodup h := h.2.1
  kept h := h.2.2
  add := by
    rintro file rows (r : MemoryRecord) ⟨hkeeps, hids, htidy⟩ hr now
    rw [← stored_eq_numbered u ft] at hr
    obtain ⟨text, hadd, htext⟩ := hkeeps.add (r := r) hr.written now
    refine ⟨some text, congrArg (Option.map fun text => Except.ok (some text)) hadd, htext,
      MarkdownFormat.nodup_upsert (F := format u ft) hids r,
      MarkdownFormat.forall_mem_upsert (r := r) htidy hr⟩
  mem_place := by
    intro rows (r : MemoryRecord) hids x
    rw [← stored_eq_numbered u ft]
    exact MarkdownFormat.mem_upsert (F := format u ft) hids
  retired h := ⟨h.1, List.forall_mem_cons.mpr
    ⟨(by decide : Plain "superseded"), (List.forall_mem_cons.mp h.2).2⟩⟩

/-- The memories that a call draws can be read back from the file. -/
def DrawsLegible (u : UnicodeTables) (ft : FloatText) (state : Option (Vault (provider u ft)))
    (call : VaultCall) : Prop :=
  ∀ v ∈ state, ∀ ms, extractMemoriesFromEvent u (v.eventOf call) call.now = .ok ms →
    ∀ m ∈ ms, Legible u ft m

theorem writable_of_legible {ms : List MemoryRecord} (hms : ∀ m ∈ ms, Legible u ft m)
    (hdrawn : ∀ m ∈ ms, BM25IndexProjection.Drawn m) :
    Writable (Tidy u ft) (format u ft).upsert rows ms := by
  induction ms generalizing rows with
  | nil => exact trivial
  | cons m rest ih =>
      have hm := hdrawn m List.mem_cons_self
      have hlegible := hms m List.mem_cons_self
      refine ⟨?_, ih (fun m' hm' => hms m' (List.mem_cons_of_mem m hm'))
        fun m' hm' => hdrawn m' (List.mem_cons_of_mem m hm')⟩
      have htidy : ∀ v, Tidy u ft { m with version := v } := by
        refine fun v => ⟨hlegible, ?_⟩
        change ∀ s ∈ m.lifecycleStatus :: m.lastReferencedAt.toList, Plain s
        rw [hm.lifecycleStatus_eq, hm.lastReferencedAt_eq]
        decide
      rcases numbered_eq rows m with heq | ⟨r, _, _, heq⟩
      · rw [heq]
        exact htidy m.version
      · rw [heq]
        exact htidy _

end MarkdownMemoryProvider

/-! ## Every run -/

/-- A call that accepts a decision. -/
def decisionCall (decision supersedes : String) : VaultCall where
  request :=
    { projectId := .zero
      streamId := "decisions"
      eventType := .decisionAccepted
      payload := [("decision", .str decision), ("supersedes", .str supersedes)]
      metadata := ⟨"agent", "cli", "", ""⟩
      parentId := none
      eventId := .zero
      recordedAt := ⟨2026, 1, 1, 0, 0, 0, 0⟩ }
  now := "2026-01-01"
  logId := .zero
  logRecordedAt := ⟨2026, 1, 1, 0, 0, 0, 0⟩
  logTimestamp := "2026-01-01"
  logCorrelationId := ""
  logSessionId := ""

/-- Two decisions, and a third one that supersedes them by their common title. -/
def threeDecisions : List VaultCall :=
  [decisionCall "Use A" "", decisionCall "Use B" "", decisionCall "Use C" "Decision Accepted"]

/-- The id of the memory of a decision. -/
def decisionId (decision : String) : String :=
  generateMemoryId .asciiOnly "DECISION" "Decision Accepted" decision

end RationaleVault
