import RationaleVault.Library.LastWrite
import RationaleVault.Library.Table
import RationaleVault.PythonNumber
import RationaleVault.Schema.Events

/-!
# Governance projection

The configuration in force, projected from the governance decisions of the
ledger. The state keeps one entry for each target, with the sequence from
which it is effective. A payload that is no governance record is passed over;
a target that cannot be a dictionary key, or a version that is no integer,
raises.
-/

namespace RationaleVault

inductive GovernanceDomain
  | policy
  | projection
  | schema
  deriving DecidableEq

inductive GovernanceAction
  | adjusted
  | topologyChanged
  | migrationApplied
  | deprecated
  | disabled
  deriving DecidableEq

/-- `GovernanceDomain(v)`. -/
def GovernanceDomain.parse (v : Json) : Except Exc GovernanceDomain :=
  if v = .str "POLICY" then .ok .policy
  else if v = .str "PROJECTION" then .ok .projection
  else if v = .str "SCHEMA" then .ok .schema
  else .error (.valueError "is not a valid GovernanceDomain")

/-- `GovernanceAction(v)`. -/
def GovernanceAction.parse (v : Json) : Except Exc GovernanceAction :=
  if v = .str "ADJUSTED" then .ok .adjusted
  else if v = .str "TOPOLOGY_CHANGED" then .ok .topologyChanged
  else if v = .str "MIGRATION_APPLIED" then .ok .migrationApplied
  else if v = .str "DEPRECATED" then .ok .deprecated
  else if v = .str "DISABLED" then .ok .disabled
  else .error (.valueError "is not a valid GovernanceAction")

/-- One governance decision. Only the domain and the action are checked. -/
structure GovernanceRecord where
  domain : GovernanceDomain
  action : GovernanceAction
  target : Json
  previousVersion : Json
  newVersion : Json
  rationale : Json
  approvedBy : Json
  effectiveSequence : Json
  deriving DecidableEq

def GovernanceRecord.fromDict (d : JsonObj) : Except Exc GovernanceRecord := do
  let domain ← GovernanceDomain.parse (← d.getItem "domain")
  let action ← GovernanceAction.parse (← d.getItem "action")
  let target ← d.getItem "target"
  return {
    domain := domain
    action := action
    target := target
    previousVersion := d.get "previous_version"
    newVersion := d.get "new_version"
    rationale := d.getD "rationale" (.str "")
    approvedBy := d.get "approved_by"
    effectiveSequence := d.getD "effective_sequence" (.int 0) }

structure PolicyValue where
  value : Json
  effectiveSequence : Json
  deriving DecidableEq

/-- The configuration in force, by target. -/
structure GovernanceState where
  policies : OrdDict Atom PolicyValue := .empty
  projectionTopology : Json := .str "default"
  topologyEffectiveSequence : Json := .int 0
  schemaVersions : OrdDict Atom (Int × Json) := .empty
  disabledComponents : OrdDict Atom Json := .empty

namespace GovernanceState

/-- Whether the sequence is asked for and comes before the effective one. -/
def isBefore (sequence : Option Int) (effective : Json) : Except Exc Bool :=
  match sequence with
  | none => .ok false
  | some s => effective.gtInt s

def getEffectivePolicy (state : GovernanceState) (name : String) (sequence : Option Int) :
    Except Exc Json :=
  match state.policies.get? (.str name) with
  | none => .ok .null
  | some policy =>
      (isBefore sequence policy.effectiveSequence).map fun before =>
        if before then .null else policy.value

def getEffectiveSchemaVersion (state : GovernanceState) (eventType : String)
    (sequence : Option Int) : Except Exc Int :=
  match state.schemaVersions.get? (.str eventType) with
  | none => .ok 1
  | some (version, effective) =>
      (isBefore sequence effective).map fun before => if before then 1 else version

def isComponentDisabled (state : GovernanceState) (name : String) (sequence : Option Int) :
    Except Exc Bool :=
  match (state.disabledComponents.get? (.str name)).getD .null with
  | .null => .ok false
  | effective => (isBefore sequence effective).map fun before => !before

end GovernanceState

namespace GovernanceProjection

/-- The sequence a record takes effect at: its event's own when it names none or 0. -/
def effectiveSeq (record : GovernanceRecord) (event : EventRecord) : Json :=
  if record.effectiveSequence.truthy then record.effectiveSequence else .int event.eventSequence

/-- `d.pop(target, None)`: an empty dictionary does not look at the key. -/
def popTarget {ν : Type} (d : OrdDict Atom ν) (target : Json) : Except Exc (OrdDict Atom ν) :=
  if d.entries.isEmpty then .ok d else target.hash.map d.erase

/-- What a record does to the state. -/
def applyRecord (state : GovernanceState) (record : GovernanceRecord) (effective : Json) :
    Except Exc GovernanceState :=
  match record.domain, record.action with
  | .policy, .adjusted => do
      let key ← record.target.hash
      return { state with policies := state.policies.set key ⟨record.newVersion, effective⟩ }
  | .policy, .disabled => do
      return { state with policies := ← popTarget state.policies record.target }
  | .projection, .topologyChanged =>
      .ok { state with
        projectionTopology := record.target
        topologyEffectiveSequence := effective }
  | .projection, .disabled => do
      let key ← record.target.hash
      return { state with disabledComponents := state.disabledComponents.set key effective }
  | .projection, .adjusted => do
      return { state with
        disabledComponents := ← popTarget state.disabledComponents record.target }
  | .schema, .migrationApplied =>
      if record.newVersion.truthy then do
        let version ← record.newVersion.toInt
        let key ← record.target.hash
        return { state with schemaVersions := state.schemaVersions.set key (version, effective) }
      else .ok state
  | _, _ => .ok state

/-- The record of a governance event; a payload that is none is logged and passed over. -/
def decision (event : EventRecord) : Option GovernanceRecord :=
  if event.eventType.value != "GOVERNANCE_DECISION_RECORDED" then none
  else
    match GovernanceRecord.fromDict event.payload with
    | .error _ => none
    | .ok record => some record

def applyEvent (state : GovernanceState) (event : EventRecord) : Except Exc GovernanceState :=
  match decision event with
  | none => .ok state
  | some record => applyRecord state record (effectiveSeq record event)

/-- The events in sequence order, the latest decision wins. -/
def project (events : List EventRecord) : Except Exc GovernanceState :=
  (Table.orderBy EventRecord.eventSequence events).foldlM applyEvent {}

/-- The event of a decision about `target`; it takes effect at its own sequence. -/
def decisionEvent (eventSequence : Nat) (domain action target : String) (newVersion : Json) :
    EventRecord where
  eventSequence := eventSequence
  id := UUID.zero
  projectId := UUID.zero
  streamId := "governance"
  version := eventSequence
  eventType := .governanceDecisionRecorded
  metadata := ⟨"human", "cli", "", ""⟩
  payload := [("domain", .str domain), ("action", .str action), ("target", .str target),
    ("previous_version", .null), ("new_version", newVersion), ("rationale", .str ""),
    ("approved_by", .null), ("effective_sequence", .int 0)]
  parentId := none
  recordedAt := none
  schemaVersion := .int 1

end GovernanceProjection

end RationaleVault
