import RationaleVault.Library.Table
import RationaleVault.Schema.Events

/-!
# The append-only event store

Rows are kept in insertion order. `event_sequence` is assigned by the
database from a counter that never goes back, and `version` is one more than
the largest version of the project, both inside one write transaction.
-/

namespace RationaleVault

/-- The `rationalevault_events` table with its autoincrement counter. -/
structure EventDb where
  rows : List EventRecord
  lastSequence : Nat
  ordered : rows.Pairwise fun r r' => r.eventSequence < r'.eventSequence
  bounded : ∀ r ∈ rows, 1 ≤ r.eventSequence ∧ r.eventSequence ≤ lastSequence

/-- The arguments of `append_event`, with the generated id and the clock reading. -/
structure AppendRequest where
  projectId : UUID
  streamId : String
  eventType : EventType
  payload : JsonObj
  metadata : EventMetadata
  parentId : Option UUID
  eventId : UUID
  recordedAt : DateTime

namespace EventDb

def empty : EventDb := ⟨[], 0, by simp, by simp⟩

instance : Inhabited EventDb := ⟨empty⟩

/-- Rows of one project, in insertion order. -/
def projectRows (db : EventDb) (p : UUID) : List EventRecord :=
  db.rows.filter fun r => r.projectId = p

/-- `SELECT COALESCE(MAX(version), 0) + 1`. -/
def nextVersion (db : EventDb) (p : UUID) : Nat :=
  Table.maxD 0 ((db.projectRows p).map EventRecord.version) + 1

/-- The record that `append_event` inserts. -/
def newRecord (db : EventDb) (req : AppendRequest) : EventRecord where
  eventSequence := db.lastSequence + 1
  id := req.eventId
  projectId := req.projectId
  streamId := req.streamId
  version := db.nextVersion req.projectId
  eventType := req.eventType
  metadata := req.metadata
  payload := req.payload
  parentId := req.parentId
  recordedAt := some req.recordedAt
  schemaVersion := JsonObj.getD req.payload "schema_version" (.int 1)

/-- `append_event`. -/
def appendEvent (db : EventDb) (req : AppendRequest) : EventDb where
  rows := db.rows ++ [db.newRecord req]
  lastSequence := db.lastSequence + 1
  ordered := by
    rw [List.pairwise_append]
    refine ⟨db.ordered, by simp, fun r hr r' hr' => ?_⟩
    have := (db.bounded r hr).2
    simp only [List.mem_singleton] at hr'
    simp only [hr', newRecord]
    omega
  bounded := by
    intro r hr
    rcases List.mem_append.mp hr with hr | hr
    · have := db.bounded r hr
      omega
    · simp only [List.mem_singleton] at hr
      simp only [hr, newRecord]
      omega

/-- A run of `append_event` calls. -/
def appendAll (db : EventDb) (reqs : List AppendRequest) : EventDb := reqs.foldl appendEvent db

/-- `get_project_stream(project_id, since_sequence)`. -/
def getProjectStream (db : EventDb) (p : UUID) (since : Int) : List EventRecord :=
  Table.orderBy EventRecord.eventSequence
    (db.rows.filter fun r => r.projectId = p ∧ since < r.eventSequence)

/-- `get_latest_sequence(project_id)`. -/
def getLatestSequence (db : EventDb) (p : UUID) : Nat :=
  Table.maxD 0 ((db.projectRows p).map EventRecord.eventSequence)

/-- `get_last_session_id(project_id)`. -/
def getLastSessionId (db : EventDb) (p : UUID) : Option String :=
  (Table.orderByDesc EventRecord.eventSequence (db.projectRows p)).head?.map fun r =>
    r.metadata.sessionId

/-- Rows are inserted in sequence order, so sorting a selection changes nothing. -/
theorem getProjectStream_eq (db : EventDb) (p : UUID) (since : Int) :
    db.getProjectStream p since =
      (db.projectRows p).filter fun r => since < (r.eventSequence : Int) := by
  have hsorted := (db.ordered.filter fun r => r.projectId = p ∧ since < (r.eventSequence : Int))
  rw [getProjectStream, Table.orderBy_eq_self (hsorted.imp fun h => Nat.le_of_lt h),
    projectRows, List.filter_filter]
  congr 1
  funext r
  rw [Bool.decide_and, Bool.and_comm]

/-- The stream from the start is the project's rows. -/
theorem getProjectStream_zero (db : EventDb) (p : UUID) :
    db.getProjectStream p 0 = db.projectRows p := by
  rw [getProjectStream_eq]
  apply List.filter_eq_self.mpr
  intro r hr
  have := (db.bounded r (List.mem_filter.mp hr).1).1
  simp only [decide_eq_true_eq]
  omega

/-- Reads of one project depend on its rows only. -/
theorem getProjectStream_congr {db db' : EventDb} {p : UUID}
    (h : db.projectRows p = db'.projectRows p) (since : Int) :
    db.getProjectStream p since = db'.getProjectStream p since := by
  rw [getProjectStream_eq, getProjectStream_eq, h]

theorem getLatestSequence_congr {db db' : EventDb} {p : UUID}
    (h : db.projectRows p = db'.projectRows p) :
    db.getLatestSequence p = db'.getLatestSequence p := by
  rw [getLatestSequence, getLatestSequence, h]

theorem projectId_of_mem_projectRows {db : EventDb} {p : UUID} {r : EventRecord}
    (h : r ∈ db.projectRows p) : r.projectId = p := by
  simpa using (List.mem_filter.mp h).2

theorem projectRows_appendEvent (db : EventDb) (req : AppendRequest) (p : UUID) :
    (db.appendEvent req).projectRows p =
      db.projectRows p ++ if req.projectId = p then [db.newRecord req] else [] := by
  simp only [projectRows, appendEvent, List.filter_append]
  congr 1
  split <;> simp_all [newRecord]

theorem le_getLatestSequence {db : EventDb} {p : UUID} {r : EventRecord}
    (h : r ∈ db.projectRows p) : r.eventSequence ≤ db.getLatestSequence p :=
  Table.le_maxD (List.mem_map_of_mem h)

/-- The latest sequence is that of a row, or 0 without rows. -/
theorem getLatestSequence_le (db : EventDb) (p : UUID) :
    db.getLatestSequence p ≤ db.lastSequence := by
  by_cases h : (db.projectRows p).map EventRecord.eventSequence = []
  · simp [getLatestSequence, h]
  · obtain ⟨r, hr, he⟩ := List.mem_map.mp (Table.maxD_mem (d := 0) h)
    rw [getLatestSequence, ← he]
    exact (db.bounded r (List.mem_filter.mp hr).1).2

theorem getLatestSequence_pos {db : EventDb} {p : UUID} (h : db.projectRows p ≠ []) :
    1 ≤ db.getLatestSequence p := by
  obtain ⟨r, hr⟩ := List.exists_mem_of_ne_nil _ h
  exact (db.bounded r (List.mem_filter.mp hr).1).1.trans (le_getLatestSequence hr)

/-- Nothing lies beyond the latest sequence. -/
theorem getProjectStream_latest (db : EventDb) (p : UUID) :
    db.getProjectStream p (db.getLatestSequence p) = [] := by
  rw [getProjectStream_eq, List.filter_eq_nil_iff]
  intro r hr
  have := le_getLatestSequence hr
  simp only [decide_eq_true_eq]
  omega

/-- The project's events up to a sequence. -/
def upTo (db : EventDb) (p : UUID) (s : Int) : List EventRecord :=
  (db.projectRows p).filter fun r => (r.eventSequence : Int) ≤ s

/-- A cut of the stream loses and repeats nothing. -/
theorem upTo_append_stream (db : EventDb) (p : UUID) (s : Int) :
    db.upTo p s ++ db.getProjectStream p s = db.projectRows p := by
  rw [upTo, getProjectStream_eq]
  have hordered : (db.projectRows p).Pairwise fun r r' => r.eventSequence < r'.eventSequence :=
    db.ordered.filter _
  generalize db.projectRows p = rows at hordered
  induction rows with
  | nil => rfl
  | cons r rest ih =>
      rw [List.pairwise_cons] at hordered
      by_cases hr : (r.eventSequence : Int) ≤ s
      · simp [hr, ih hordered.2]
      · -- The first row lies beyond the cut, and so do all rows after it.
        have hlate : ∀ r' ∈ rest, s < (r'.eventSequence : Int) := by
          intro r' hr'
          have := hordered.1 r' hr'
          omega
        have hnone : rest.filter (fun r => decide ((r.eventSequence : Int) ≤ s)) = [] := by
          rw [List.filter_eq_nil_iff]
          intro r' hr'
          simpa using hlate r' hr'
        have hall : rest.filter (fun r => decide (s < (r.eventSequence : Int))) = rest := by
          rw [List.filter_eq_self]
          intro r' hr'
          simpa using hlate r' hr'
        simp [hr, hnone, hall, lt_of_not_ge hr]

theorem upTo_of_latest_le {db : EventDb} {p : UUID} {s : Int}
    (h : (db.getLatestSequence p : Int) ≤ s) : db.upTo p s = db.projectRows p := by
  apply List.filter_eq_self.mpr
  intro r hr
  have := le_getLatestSequence hr
  simp only [decide_eq_true_eq]
  omega

/-! ## Extensions

`db'` extends `db` when it was reached by further appends: the project's rows
grow at the end, by records whose sequences lie beyond everything seen before
and whose versions exceed all earlier versions. -/

/-- What a run of appends adds to one project. -/
structure Extends (db db' : EventDb) (p : UUID) (added : List EventRecord) : Prop where
  rows : db'.projectRows p = db.projectRows p ++ added
  fresh : ∀ r ∈ added, db.lastSequence < r.eventSequence
  counter : db.lastSequence ≤ db'.lastSequence
  version : ∀ r ∈ db.projectRows p, ∀ r' ∈ added, r.version < r'.version

theorem Extends.refl (db : EventDb) (p : UUID) : Extends db db p [] where
  rows := by simp
  fresh := by simp
  counter := Nat.le_refl _
  version := by simp

/-- One `append_event` adds the new record to its own project and nothing to the others. -/
theorem extends_appendEvent (db : EventDb) (req : AppendRequest) (p : UUID) :
    Extends db (db.appendEvent req) p
      (if req.projectId = p then [db.newRecord req] else []) where
  rows := projectRows_appendEvent db req p
  fresh := by
    intro r hr
    split at hr <;> simp_all [newRecord]
  counter := Nat.le_succ _
  version := by
    intro r hr r' hr'
    split at hr'
    · rename_i hp
      simp only [List.mem_singleton] at hr'
      subst hr'; subst hp
      have : r.version ≤ Table.maxD 0 ((db.projectRows req.projectId).map EventRecord.version) :=
        Table.le_maxD (List.mem_map_of_mem hr)
      simp only [newRecord, nextVersion]
      omega
    · simp at hr'

theorem Extends.trans {db db' db'' : EventDb} {p : UUID} {a b : List EventRecord}
    (h : Extends db db' p a) (h' : Extends db' db'' p b) : Extends db db'' p (a ++ b) where
  rows := by rw [h'.rows, h.rows, List.append_assoc]
  fresh := by
    intro r hr
    rcases List.mem_append.mp hr with hr | hr
    · exact h.fresh r hr
    · exact Nat.lt_of_le_of_lt h.counter (h'.fresh r hr)
  counter := h.counter.trans h'.counter
  version := by
    intro r hr r' hr'
    rcases List.mem_append.mp hr' with hr' | hr'
    · exact h.version r hr r' hr'
    · exact h'.version r (by rw [h.rows]; simp [hr]) r' hr'

/-- A run of appends extends every project. -/
theorem extends_appendAll (db : EventDb) (reqs : List AppendRequest) (p : UUID) :
    ∃ added, Extends db (db.appendAll reqs) p added := by
  induction reqs generalizing db with
  | nil => exact ⟨[], Extends.refl db p⟩
  | cons req rest ih =>
      obtain ⟨added, h⟩ := ih (db.appendEvent req)
      exact ⟨_, (extends_appendEvent db req p).trans h⟩

/-- Reading from the old latest sequence returns exactly the added records. -/
theorem Extends.stream_since {db db' : EventDb} {p : UUID} {added : List EventRecord}
    (h : Extends db db' p added) :
    db'.getProjectStream p (db.getLatestSequence p) = added := by
  rw [getProjectStream_eq, h.rows, List.filter_append]
  have hold : (db.projectRows p).filter
      (fun r => (db.getLatestSequence p : Int) < (r.eventSequence : Int)) = [] := by
    rw [← getProjectStream_eq]
    exact getProjectStream_latest db p
  have hnew : added.filter
      (fun r => (db.getLatestSequence p : Int) < (r.eventSequence : Int)) = added := by
    apply List.filter_eq_self.mpr
    intro r hr
    have h₁ := h.fresh r hr
    have h₂ := getLatestSequence_le db p
    simp only [decide_eq_true_eq]
    omega
  rw [hold, hnew, List.nil_append]

/-- The latest sequence moves exactly when something was added. -/
theorem Extends.latest_lt {db db' : EventDb} {p : UUID} {added : List EventRecord}
    (h : Extends db db' p added) (hne : added ≠ []) :
    db.getLatestSequence p < db'.getLatestSequence p := by
  obtain ⟨r, hr⟩ := List.exists_mem_of_ne_nil _ hne
  have h₁ : r.eventSequence ≤ db'.getLatestSequence p :=
    le_getLatestSequence (by rw [h.rows]; simp [hr])
  have h₂ := h.fresh r hr
  have h₃ := getLatestSequence_le db p
  omega

theorem Extends.latest_eq {db db' : EventDb} {p : UUID} (h : Extends db db' p []) :
    db'.getLatestSequence p = db.getLatestSequence p := by
  simp [getLatestSequence, h.rows]

theorem Extends.latest_le {db db' : EventDb} {p : UUID} {added : List EventRecord}
    (h : Extends db db' p added) : db.getLatestSequence p ≤ db'.getLatestSequence p := by
  by_cases hne : added = []
  · subst hne
    exact h.latest_eq.ge
  · exact (h.latest_lt hne).le

/-- Further appends lie beyond every earlier cut. -/
theorem Extends.upTo_eq {db db' : EventDb} {p : UUID} {added : List EventRecord}
    (h : Extends db db' p added) {s : Int} (hs : s ≤ db.lastSequence) :
    db'.upTo p s = db.upTo p s := by
  rw [upTo, upTo, h.rows, List.filter_append]
  have hnone : added.filter (fun r => decide ((r.eventSequence : Int) ≤ s)) = [] := by
    rw [List.filter_eq_nil_iff]
    intro r hr
    have := h.fresh r hr
    simp only [decide_eq_true_eq]
    omega
  rw [hnone, List.append_nil]

/-- Versions grow along a project, so the added records decide the maximum. -/
theorem Extends.maxVersion_append {db db' : EventDb} {p : UUID} {added : List EventRecord}
    (h : Extends db db' p added) (hne : added ≠ []) :
    maxVersion (db.projectRows p ++ added) = maxVersion added := by
  simp only [maxVersion, List.map_append]
  apply Table.maxD_append_of_lt
  · simpa using hne
  · intro x hx y hy
    obtain ⟨r, hr, rfl⟩ := List.mem_map.mp hx
    obtain ⟨r', hr', rfl⟩ := List.mem_map.mp hy
    exact h.version r hr r' hr'

end EventDb

/-! ## A small project

A bootstrapped project with a few further events, for concrete runs. -/

/-- An append to the sample project. -/
def sampleRequest (event : EventType × JsonObj) : AppendRequest where
  projectId := .zero
  streamId := "main"
  eventType := event.1
  payload := event.2
  metadata := ⟨"agent", "cli", "", ""⟩
  parentId := none
  eventId := .zero
  recordedAt := ⟨2026, 1, 1, 12, 0, 0, 0⟩

/-- The three bootstrap events. -/
def sampleBootstrap : List (EventType × JsonObj) :=
  [(.projectCreated, [("name", .str "vault")]), (.projectGoalSet, [("goal", .str "ship")]),
    (.projectFocusChanged, [("focus", .str "replay")])]

/-- The sample project after its bootstrap and the given events. -/
def sampleDb (events : List (EventType × JsonObj)) : EventDb :=
  EventDb.empty.appendAll ((sampleBootstrap ++ events).map sampleRequest)

/-- A `TASK_CREATED` event with the given id, title and priority. -/
def sampleTask (id : Json) (title priority : String) : EventType × JsonObj :=
  (.taskCreated, [("task_id", id), ("priority", .str priority),
    ("details", .obj [("summary", .str title), ("body", .str "")])])

/-- A `TASK_COMPLETED` event. -/
def sampleCompletion (id : Json) : EventType × JsonObj := (.taskCompleted, [("task_id", id)])

end RationaleVault
