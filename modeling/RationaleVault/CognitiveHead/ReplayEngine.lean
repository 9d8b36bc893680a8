import RationaleVault.CognitiveHead.Snapshot
import RationaleVault.Db.EventStore

/-!
# The replay engine and the compiler

`buildProjection` chooses between the fast path, delta replay and full
replay. The compiler reads the store several times; each read is given the
database as it is at that moment, so that a quiet run uses one database for
all of them and an interleaved run uses successive ones.
-/

namespace RationaleVault

inductive ReplayMode
  | full
  | delta
  | fastPath
  deriving DecidableEq

/-- The result of `build_projection`. -/
structure ReplayResult where
  head : CognitiveHead
  mode : ReplayMode
  eventsReplayed : Nat
  eventsReused : Int
  snapshotValid : Bool
  snapshotUsed : Bool
  snapshotSequence : Int
  latestSequence : Nat
  deriving DecidableEq

namespace ReplayEngine

/-- `_dict_to_task_state(d)`. -/
def dictToTaskState (d : JsonObj) : Except Exc TaskState :=
  TaskState.ofDict (.ok (d.getD "task_id" (.str ""))) (.ok (d.getD "title" (.str "")))
    Json.copyList d

/-- `_dict_to_decision_state(d)`. -/
def dictToDecisionState (d : JsonObj) : Except Exc DecisionState :=
  DecisionState.ofDict (.ok (d.getD "decision_id" (.str ""))) (.ok (d.getD "title" (.str ""))) d

/-- `_dict_to_question_state(d)`. -/
def dictToQuestionState (d : JsonObj) : Except Exc QuestionState :=
  QuestionState.ofDict (.ok (d.getD "question_id" (.str ""))) (.ok (d.getD "title" (.str "")))
    Json.copyList d

/-- Convert every value of a dictionary and keep its keys. -/
def convertItems {α : Type} (f : JsonObj → Except Exc α) (d : ItemDicts) :
    Except Exc (OrdDict Atom α) := do
  let entries ← d.entries.mapM fun e => do return (e.1, ← f e.2)
  return OrdDict.ofList entries

/-- The reducer state a snapshot payload stands for. -/
def stateOfPayload (payload : SnapshotPayload) : Except Exc ReducerState := do
  let tasks ← convertItems dictToTaskState payload.tasks
  let decisions ← convertItems dictToDecisionState payload.decisions
  let questions ← convertItems dictToQuestionState payload.questions
  return {
    project := {
      ProjectState.initial with
      name := payload.projectName
      goal := payload.projectGoal
      currentFocus := payload.currentFocus }
    tasks := tasks
    decisions := decisions
    questions := questions }

/-- Replay of a whole stream, with the bootstrap check. -/
def fullReplay (p : UUID) (events : List EventRecord) (now : String) :
    Except Exc CognitiveHead := do
  checkBootstrap (bootstrapMessage p) events
  let s ← ReducerState.initial.reduce events
  buildHead p now s events

/-- Replay of the events after a snapshot on top of the snapshot's state. -/
def deltaReplay (p : UUID) (payload : SnapshotPayload) (events : List EventRecord)
    (now : String) : Except Exc CognitiveHead := do
  let s ← stateOfPayload payload
  let s' ← s.reduce events
  buildHead p now s' events

/-- The payload of a loaded snapshot, when it is valid. -/
def usablePayload (loaded : SnapshotValidationResult) : Option SnapshotPayload :=
  if loaded.valid then loaded.payload else none

/-- `build_projection(project_id)`. `dbLatest` is the database at `get_latest_sequence`,
`dbStream` the one at `get_project_stream`. -/
def buildProjection (loaded : SnapshotValidationResult) (dbLatest dbStream : EventDb) (p : UUID)
    (now : String) : Except Exc ReplayResult := do
  let latest := dbLatest.getLatestSequence p
  let payload := usablePayload loaded
  let snapshotSequence := (payload.map SnapshotPayload.sequence).getD 0
  match payload with
  | some payload =>
      if snapshotSequence ≥ latest then
        let head ← payload.toCognitiveHead
        return ⟨head, .fastPath, 0, snapshotSequence, loaded.valid, true, snapshotSequence, latest⟩
      else if snapshotSequence > 0 then
        let events := dbStream.getProjectStream p snapshotSequence
        let head ← deltaReplay p payload events now
        return ⟨head, .delta, events.length, snapshotSequence, loaded.valid, true,
          snapshotSequence, latest⟩
      else
        let events := dbStream.getProjectStream p 0
        let head ← fullReplay p events now
        return ⟨head, .full, events.length, 0, loaded.valid, false, snapshotSequence, latest⟩
  | none =>
      let events := dbStream.getProjectStream p 0
      let head ← fullReplay p events now
      return ⟨head, .full, events.length, 0, loaded.valid, false, snapshotSequence, latest⟩

end ReplayEngine

/-! ## The compiler -/

/-- The snapshot the compiler builds from a head, the whole stream and the current sequence. -/
def compileSnapshot (head : CognitiveHead) (events : List EventRecord) (currentSequence : Nat) :
    Except Exc SnapshotPayload := do
  let tasks ← TaskReducer.reduce .empty events
  let decisions ← DecisionReducer.reduce .empty events
  let questions ← QuestionReducer.reduce .empty events
  SnapshotPayload.fromCognitiveHead head currentSequence
    (some (tasks.mapVals TaskState.toDict))
    (some (decisions.mapVals DecisionState.toDict))
    (some (questions.mapVals QuestionState.toDict))

/-- The database at each event read of one `compile_cognitive_head` call, in order. -/
structure CompileReads where
  latest : EventDb
  stream : EventDb
  again : EventDb
  final : EventDb

/-- All reads see the same database. -/
def CompileReads.quiet (db : EventDb) : CompileReads := ⟨db, db, db, db⟩

/-- `compile_cognitive_head` from the loaded snapshot to the payload passed to
`refresh_snapshot`. -/
def compileReads (loaded : SnapshotValidationResult) (reads : CompileReads) (p : UUID)
    (now : String) : Except Exc (CognitiveHead × SnapshotPayload) := do
  let result ← ReplayEngine.buildProjection loaded reads.latest reads.stream p now
  let events := reads.again.getProjectStream p 0
  let payload ← compileSnapshot result.head events (reads.final.getLatestSequence p)
  return (result.head, payload)

end RationaleVault
