import RationaleVault.Ledger.Memory
import RationaleVault.Library.Fold
import RationaleVault.Library.Table

/-!
# Replay of the ledger

`DefaultReplayer` folds every registered reducer over the entries of a ledger
and reports the greatest order it has processed. A ledger without entries has
no such order and reports zero, which is the order of the first commit.
-/

namespace RationaleVault

/-- `_entry_to_event(entry)`. -/
def LedgerEntry.toEvent (e : LedgerEntry) : JsonObj :=
  [("event_id", .str e.eventId), ("event_type", .str e.eventType), ("stream_id", .str e.streamId),
    ("sequence", .int e.sequence), ("global_order", .int e.globalOrder),
    ("timestamp", .str e.timestamp), ("payload", e.payload), ("rvcj_version", .int e.rvcjVersion),
    ("event_schema_version", .int e.eventSchemaVersion), ("commit_id", .str e.commitId)]

namespace Replay

/-- A reducer; it may raise. The state type is left open. -/
abbrev ReducerFunc (σ : Type) := σ → JsonObj → Except Exc σ

/-- `ProjectionRegistry`: reducers by name, in registration order. -/
abbrev ReducerRegistry (σ : Type) := OrdDict String (ReducerFunc σ)

/-- `get_reducer(name)`. -/
def ReducerRegistry.getReducer {σ : Type} (registry : ReducerRegistry σ) (name : String) :
    Except Exc (ReducerFunc σ) :=
  match registry.get? name with
  | some reducer => .ok reducer
  | none => .error (.keyError ("Unknown projection: '" ++ name ++ "'"))

/-- A nonnegative order. -/
structure ReplayBoundary where
  globalOrder : Int
  nonneg : 0 ≤ globalOrder
  deriving DecidableEq

/-- `ReplayBoundary(global_order)`. -/
def ReplayBoundary.make (n : Int) : Except Exc ReplayBoundary :=
  if h : 0 ≤ n then .ok ⟨n, h⟩
  else .error (.valueError ("ReplayBoundary must be non-negative, got " ++ toString n))

/-- Which entries a replay reads. -/
inductive ReplayScope
  | global
  | stream (streamId : String)

inductive ReplayMode
  | auto
  | full
  | delta
  | fastPath

/-- The value of a mode, which the report repeats. -/
def ReplayMode.value : ReplayMode → String
  | auto => "auto"
  | full => "full"
  | delta => "delta"
  | fastPath => "fast_path"

/-- What a replay returns: the states of the projections, the boundary and the report. -/
structure ReplayResult (σ : Type) where
  projections : OrdDict String σ
  replayBoundary : ReplayBoundary
  mode : String
  eventsProcessed : Nat

namespace DefaultReplayer

variable {σ : Type}

/-- `_compute_boundary(entries)`. -/
def computeBoundary (entries : List LedgerEntry) : Except Exc ReplayBoundary :=
  if entries = [] then ReplayBoundary.make 0
  else ReplayBoundary.make (Table.maxD 0 (entries.map LedgerEntry.globalOrder))

/-- The reducer of one name folded over the events. -/
def reduceFrom (start : σ) (registry : ReducerRegistry σ) (events : List JsonObj) (name : String) :
    Except Exc σ := do
  let reducer ← registry.getReducer name
  events.foldlM reducer start

/-- Every reducer folded over the events, from a start state for each name. -/
def applyFrom (start : String → σ) (registry : ReducerRegistry σ) (events : List JsonObj) :
    Except Exc (OrdDict String σ) :=
  registry.keys.foldlM (fun states name => do
    let state ← reduceFrom (start name) registry events name
    return states.set name state) OrdDict.empty

/-- `_apply_reducers(registry, events)`: every state starts as the empty one. -/
def applyReducers (init : σ) (registry : ReducerRegistry σ) (events : List JsonObj) :
    Except Exc (OrdDict String σ) := applyFrom (fun _ => init) registry events

/-- The reducers folded from the states of an earlier replay. -/
def resume (init : σ) (registry : ReducerRegistry σ) (states : OrdDict String σ)
    (entries : List LedgerEntry) : Except Exc (OrdDict String σ) :=
  applyFrom (fun name => (states.get? name).getD init) registry (entries.map LedgerEntry.toEvent)

/-- The result for a list of entries. -/
def replayEntries (init : σ) (registry : ReducerRegistry σ) (mode : ReplayMode)
    (entries : List LedgerEntry) : Except Exc (ReplayResult σ) := do
  let boundary ← computeBoundary entries
  let projections ← applyReducers init registry (entries.map LedgerEntry.toEvent)
  return ⟨projections, boundary, mode.value, entries.length⟩

/-- `_read_entries(ledger, scope)`. -/
def readEntries (ledger : MemoryLedger) : ReplayScope → List LedgerEntry
  | .global => ledger.readFrom 0
  | .stream s => ledger.readStream s

/-- `replay(ledger, scope, mode)`. -/
def replay (init : σ) (registry : ReducerRegistry σ) (ledger : MemoryLedger)
    (scope : ReplayScope) (mode : ReplayMode) : Except Exc (ReplayResult σ) :=
  replayEntries init registry mode (readEntries ledger scope)

/-- `replay_to(ledger, boundary, mode)`. -/
def replayTo (init : σ) (registry : ReducerRegistry σ) (ledger : MemoryLedger)
    (boundary : ReplayBoundary) (mode : ReplayMode) : Except Exc (ReplayResult σ) :=
  replayEntries init registry mode
    ((ledger.readFrom 0).filter fun e => e.globalOrder ≤ boundary.globalOrder)

/-- `replay_stream(ledger, stream_id, mode)`. -/
def replayStream (init : σ) (registry : ReducerRegistry σ) (ledger : MemoryLedger)
    (streamId : String) (mode : ReplayMode) : Except Exc (ReplayResult σ) :=
  replay init registry ledger (.stream streamId) mode

/-! ## Folding in two parts -/

/-- A dictionary that is filled name by name. -/
theorem get?_of_foldlM_set {g : String → Except Exc σ} {names : List String}
    {states states' : OrdDict String σ}
    (h : names.foldlM (fun states name => do
      let state ← g name
      return states.set name state) states = .ok states') :
    (∀ name ∈ names, ∃ state, g name = .ok state ∧ states'.get? name = some state) ∧
      ∀ name ∉ names, states'.get? name = states.get? name := by
  induction names generalizing states with
  | nil =>
      rw [List.foldlM_nil, Except.pure_eq_ok_iff] at h
      subst h
      exact ⟨by simp, fun _ _ => rfl⟩
  | cons first rest ih =>
      rw [List.foldlM_cons, Except.bind_eq_ok_iff] at h
      obtain ⟨next, hfirst, hrest⟩ := h
      rw [Except.bind_eq_ok_iff] at hfirst
      obtain ⟨state, hstate, hnext⟩ := hfirst
      rw [Except.pure_eq_ok_iff] at hnext
      subst hnext
      obtain ⟨hmem, hother⟩ := ih hrest
      constructor
      · intro name hname
        by_cases hlater : name ∈ rest
        · exact hmem name hlater
        · have heq := (List.mem_cons.mp hname).resolve_right hlater
          subst heq
          refine ⟨state, hstate, ?_⟩
          rw [hother name hlater, OrdDict.get?_set_self]
      · intro name hname
        rw [List.mem_cons, not_or] at hname
        rw [hother name hname.2, OrdDict.get?_set_of_ne]
        exact fun heq => hname.1 heq.symm

/-- Folding the reducers from the states of a first part over a second part. -/
theorem applyFrom_append {init : σ} {registry : ReducerRegistry σ} {events : List JsonObj}
    {states : OrdDict String σ} (h : applyReducers init registry events = .ok states)
    (later : List JsonObj) :
    applyFrom (fun name => (states.get? name).getD init) registry later =
      applyReducers init registry (events ++ later) := by
  apply Fold.congr
  intro acc name hname
  obtain ⟨state, hstate, hget⟩ := (get?_of_foldlM_set h).1 name hname
  rw [reduceFrom, Except.bind_eq_ok_iff] at hstate
  obtain ⟨reducer, hreducer, hfold⟩ := hstate
  have hsame : reduceFrom ((states.get? name).getD init) registry later name =
      reduceFrom init registry (events ++ later) name := by
    rw [reduceFrom, reduceFrom, hreducer, hget, Option.getD_some, Except.ok_bind_eq,
      Except.ok_bind_eq, List.foldlM_append, hfold, Except.ok_bind_eq]
  rw [hsame]

/-! ## Boundaries -/

theorem computeBoundary_nil : computeBoundary [] = .ok ⟨0, Int.le_refl 0⟩ := rfl

/-- The boundary of a nonempty ledger is the order of its last commit. -/
theorem computeBoundary_entries {nfc : Canonical.Normalizer} {J : Journal nfc} (hJ : J ≠ []) :
    ∃ b, computeBoundary J.entries = .ok b ∧ b.globalOrder + 1 = J.length := by
  have hmax := Journal.maxD_globalOrder 0 hJ
  have hlen : 0 < J.length := List.length_pos_of_ne_nil hJ
  have hne : J.entries ≠ [] := Journal.entries_ne_nil_iff.mpr hJ
  have hnonneg : 0 ≤ Table.maxD 0 (J.entries.map LedgerEntry.globalOrder) := by omega
  refine ⟨⟨_, hnonneg⟩, ?_, hmax⟩
  rw [computeBoundary, if_neg hne, ReplayBoundary.make, dif_pos hnonneg]

/-! ## Replays of a prefix -/

/-- The boundary of a replay stands for its prefix: the replay up to the boundary has the same
projections, and the reducers resumed after it reach the projections of the whole ledger. -/
def IdentifiesPrefix (init : σ) (registry : ReducerRegistry σ) (mode : ReplayMode)
    (ledger later : MemoryLedger) : Prop :=
  ∀ result, replay init registry ledger .global mode = .ok result →
    (replayTo init registry later result.replayBoundary mode).map ReplayResult.projections =
        .ok result.projections ∧
      resume init registry result.projections
          (later.readFrom (result.replayBoundary.globalOrder + 1)) =
        (replay init registry later .global mode).map ReplayResult.projections

/-- The projections of a replay whose boundary is known. -/
theorem map_projections_replayEntries {init : σ} {registry : ReducerRegistry σ} {mode : ReplayMode}
    {entries : List LedgerEntry} {b : ReplayBoundary} (hb : computeBoundary entries = .ok b) :
    (replayEntries init registry mode entries).map ReplayResult.projections =
      applyReducers init registry (entries.map LedgerEntry.toEvent) := by
  rw [replayEntries, hb, Except.ok_bind_eq]
  cases applyReducers init registry (entries.map LedgerEntry.toEvent) <;> rfl

theorem replayEntries_eq_ok {init : σ} {registry : ReducerRegistry σ} {mode : ReplayMode}
    {entries : List LedgerEntry} {result : ReplayResult σ}
    (h : replayEntries init registry mode entries = .ok result) :
    computeBoundary entries = .ok result.replayBoundary ∧
      applyReducers init registry (entries.map LedgerEntry.toEvent) = .ok result.projections := by
  rw [replayEntries, Except.bind_eq_ok_iff] at h
  obtain ⟨b, hb, h⟩ := h
  rw [Except.bind_eq_ok_iff] at h
  obtain ⟨projections, hprojections, h⟩ := h
  rw [Except.pure_eq_ok_iff] at h
  subst h
  exact ⟨hb, hprojections⟩

/-- Every journal has a boundary. -/
theorem exists_computeBoundary {nfc : Canonical.Normalizer} (J : Journal nfc) :
    ∃ b, computeBoundary J.entries = .ok b := by
  by_cases hJ : J = []
  · subst hJ
    exact ⟨_, computeBoundary_nil⟩
  · obtain ⟨b, hb, _⟩ := computeBoundary_entries hJ
    exact ⟨b, hb⟩

/-- The boundary of a nonempty ledger identifies its prefix, for every registry. -/
theorem identifiesPrefix_of_ne_nil {nfc : Canonical.Normalizer} {ledger later : MemoryLedger}
    {J added : Journal nfc} (hledger : ledger.Represents J) (hlater : later.Represents (J ++ added))
    (hJ : J ≠ []) (init : σ) (registry : ReducerRegistry σ) (mode : ReplayMode) :
    IdentifiesPrefix init registry mode ledger later := by
  intro result hresult
  rw [replay, readEntries, hledger.readFrom_zero] at hresult
  obtain ⟨hboundary, hstates⟩ := replayEntries_eq_ok hresult
  obtain ⟨b, hb, hlast⟩ := computeBoundary_entries hJ
  rw [hb, Except.ok.injEq] at hboundary
  subst hboundary
  have hupto : (later.readFrom 0).filter
      (fun e => e.globalOrder ≤ result.replayBoundary.globalOrder) = J.entries := by
    rw [hlater.readFrom_zero, ← Journal.filter_entries_lt J added]
    apply List.filter_congr
    intro e _
    rw [decide_eq_decide]
    omega
  have htail : later.readFrom (result.replayBoundary.globalOrder + 1) =
      Journal.entriesFrom J.length added := by
    rw [hlater.readFrom, hlast, Journal.filter_entries_ge]
  constructor
  · rw [replayTo, hupto, map_projections_replayEntries hb, hstates]
  · obtain ⟨b', hb'⟩ := exists_computeBoundary (J ++ added)
    rw [resume, htail, applyFrom_append hstates, replay, readEntries, hlater.readFrom_zero,
      map_projections_replayEntries hb', Journal.entries_append, List.map_append]

/-- While nothing is appended, every boundary identifies the empty prefix. -/
theorem identifiesPrefix_of_nil {ledger later : MemoryLedger} (hledger : ledger.entries = [])
    (hlater : later.entries = []) (init : σ) (registry : ReducerRegistry σ) (mode : ReplayMode) :
    IdentifiesPrefix init registry mode ledger later := by
  intro result hresult
  rw [replay, readEntries, MemoryLedger.readFrom, hledger, List.filter_nil] at hresult
  obtain ⟨_, hstates⟩ := replayEntries_eq_ok hresult
  rw [List.map_nil] at hstates
  have hread : ∀ n, later.readFrom n = [] := by
    intro n
    rw [MemoryLedger.readFrom, hlater, List.filter_nil]
  constructor
  · rw [replayTo, hread, List.filter_nil, map_projections_replayEntries computeBoundary_nil,
      List.map_nil, hstates]
  · rw [resume, hread, List.map_nil, applyFrom_append hstates, replay, readEntries, hread,
      map_projections_replayEntries computeBoundary_nil]
    rfl

/-- A registry that counts events. -/
def countingRegistry : ReducerRegistry Nat :=
  OrdDict.empty.set "count" fun n _ => .ok (n + 1)

theorem applyReducers_counting (events : List JsonObj) :
    applyReducers 0 countingRegistry events = .ok (OrdDict.empty.set "count" events.length) := by
  have hcount : ∀ (l : List JsonObj) (n : Nat),
      l.foldlM (fun (n : Nat) _ => (.ok (n + 1) : Except Exc Nat)) n = .ok (n + l.length) := by
    intro l
    induction l with
    | nil => exact fun n => rfl
    | cons e rest ih =>
        intro n
        rw [List.foldlM_cons, Except.ok_bind_eq, ih, List.length_cons]
        congr 1
        omega
  have hone : reduceFrom 0 countingRegistry events "count" = .ok events.length := by
    change (events.foldlM (fun (n : Nat) _ => (.ok (n + 1) : Except Exc Nat)) 0) = _
    rw [hcount, Nat.zero_add]
  have hkeys : countingRegistry.keys = ["count"] := rfl
  rw [applyReducers, applyFrom, hkeys, List.foldlM_cons, hone]
  rfl

/-- The counts of two lists of events are equal only if their lengths are. -/
theorem length_eq_of_counting {events events' : List JsonObj}
    (h : applyReducers 0 countingRegistry events = applyReducers 0 countingRegistry events') :
    events.length = events'.length := by
  rw [applyReducers_counting, applyReducers_counting, Except.ok.injEq] at h
  have hcount := congrArg (fun states => states.get? "count") h
  simpa using hcount

/-- A replay of no entries. -/
theorem replay_of_nil {ledger : MemoryLedger} (h : ledger.entries = []) (mode : ReplayMode) :
    replay 0 countingRegistry ledger .global mode =
      .ok ⟨OrdDict.empty.set "count" 0, ⟨0, Int.le_refl 0⟩, mode.value, 0⟩ := by
  rw [replay, readEntries, MemoryLedger.readFrom, h]
  rfl

/-- Counting shows that the boundary of a ledger without entries does not stand for it. -/
theorem not_identifiesPrefix {nfc : Canonical.Normalizer} {ledger later : MemoryLedger}
    {J : Journal nfc} (hempty : ledger.entries = []) (hlater : later.Represents J) (hJ : J ≠ [])
    (mode : ReplayMode) : ¬ IdentifiesPrefix 0 countingRegistry mode ledger later := by
  intro h
  obtain ⟨_, htail⟩ := h _ (replay_of_nil hempty mode)
  obtain ⟨b, hb⟩ := exists_computeBoundary J
  have hstates : applyReducers 0 countingRegistry [] = .ok (OrdDict.empty.set "count" 0) :=
    applyReducers_counting []
  rw [resume, applyFrom_append hstates, List.nil_append, replay, readEntries, hlater.readFrom_zero,
    map_projections_replayEntries hb] at htail
  have hlength := length_eq_of_counting htail
  rw [List.length_map, List.length_map, hlater.readFrom, List.length_filter_eq_length_iff]
    at hlength
  -- The entries of the first commit have order zero.
  obtain ⟨c, rest, rfl⟩ := List.exists_cons_of_ne_nil hJ
  obtain ⟨e, he⟩ := List.exists_mem_of_ne_nil _ (Journal.entries_ne_nil c 0)
  have hmem : e ∈ Journal.entries (c :: rest) := Journal.mem_entries_iff.mpr ⟨0, c, rfl, he⟩
  have horder := hlength e hmem
  rw [(Journal.commitId_of_mem_entries he).2] at horder
  simp at horder

end DefaultReplayer

/-- The boundary of a replay identifies the replayed prefix, for every registry of reducers,
exactly when the replayed ledger has an entry or nothing was appended to it. -/
theorem replay_boundary_identifies_iff {nfc : Canonical.Normalizer}
    (commits added : List (Commit nfc)) (mode : ReplayMode) :
    let ledger := MemoryLedger.empty.run commits
    let later := ledger.run added
    (∀ (σ : Type) (init : σ) (registry : ReducerRegistry σ),
      DefaultReplayer.IdentifiesPrefix init registry mode ledger later) ↔
    ledger.entries ≠ [] ∨ later.entries = [] := by
  intro ledger later
  obtain ⟨J, hledger⟩ : ∃ J : Journal nfc, ledger.Represents J :=
    ⟨_, MemoryLedger.Represents.empty.run commits⟩
  obtain ⟨new, hnew, _⟩ := Journal.run_extends J added
  have hlater : later.Represents (J ++ new) := hnew ▸ hledger.run added
  constructor
  · intro h
    by_contra hcond
    rw [not_or, not_not] at hcond
    obtain ⟨hempty, hgrown⟩ := hcond
    rw [hlater.entries] at hgrown
    exact DefaultReplayer.not_identifiesPrefix hempty hlater (Journal.entries_ne_nil_iff.mp hgrown)
      mode (h Nat 0 DefaultReplayer.countingRegistry)
  · rintro (hne | hempty) σ init registry
    · rw [hledger.entries] at hne
      exact DefaultReplayer.identifiesPrefix_of_ne_nil hledger hlater
        (Journal.entries_ne_nil_iff.mp hne) init registry mode
    · have hnil : ledger.entries = [] := by
        rw [hlater.entries, Journal.entries_append] at hempty
        rw [hledger.entries]
        exact (List.append_eq_nil_iff.mp hempty).1
      exact DefaultReplayer.identifiesPrefix_of_nil hnil hempty init registry mode

/-- A replay of the empty ledger has boundary 0, and the replay up to 0 after the first append
includes the first commit. -/
theorem replay_boundary_of_empty_ledger :
    ∃ (result : ReplayResult Nat) (later : ReplayResult Nat),
      DefaultReplayer.replay 0 DefaultReplayer.countingRegistry MemoryLedger.empty .global .auto =
          .ok result ∧
        DefaultReplayer.replayTo 0 DefaultReplayer.countingRegistry
          (MemoryLedger.empty.run [Commit.single .identity "a" (firstEvent "a")])
          result.replayBoundary .auto = .ok later ∧
        result.projections.get? "count" = some 0 ∧ later.projections.get? "count" = some 1 :=
  ⟨_, _, rfl, rfl, rfl, rfl⟩

end Replay

end RationaleVault
