import Mathlib.Data.String.Basic
import RationaleVault.Knowledge.Models
import RationaleVault.Library.OrdDict
import RationaleVault.Library.Table
import RationaleVault.Memory.Models

/-!
# Contradictions between rules

Two records contradict each other when they share an id with different texts,
when both set one key to different values, or when they take opposite sides on
one of five subjects. A finding names the two records.
-/

namespace RationaleVault

structure ContradictionFinding where
  findingId : String
  ruleAId : String
  ruleBId : String
  contradictionType : String
  severity : String
  evidence : String
  suggestedStatus : EpistemicStatus
  suppressed : Bool := false
  deriving DecidableEq

/-- `generate_finding_id(contradiction_type, rule_a_id, rule_b_id, detail_key)`. -/
def ContradictionFinding.generateFindingId (contradictionType ruleAId ruleBId detailKey : String) :
    String :=
  let pair := String.intercalate ":" (Table.orderBy id [ruleAId, ruleBId])
  "CONTR-" ++ shortHash (contradictionType ++ ":" ++ pair ++ ":" ++ detailKey)

namespace ContradictionEngine

variable (u : UnicodeTables) (suppressedIds : List String)

/-! ## Duplicate ids -/

/-- The finding on a record whose id another record with other texts has. -/
def duplicateFinding (existing r : MemoryRecord) : ContradictionFinding :=
  let fid := ContradictionFinding.generateFindingId "duplicate_conflicting" existing.id r.id ""
  { findingId := fid, ruleAId := existing.id, ruleBId := r.id
    contradictionType := "duplicate_conflicting", severity := "critical"
    evidence := "Duplicate ID '" ++ r.id ++ "' has conflicting content. A: '" ++ existing.title ++
      "', B: '" ++ r.title ++ "'"
    suggestedStatus := .conflicted, suppressed := decide (fid ∈ suppressedIds) }

/-- The loop over the records with the first record of each id. -/
def duplicatesFrom (idMap : OrdDict String MemoryRecord) :
    List MemoryRecord → List ContradictionFinding
  | [] => []
  | r :: rest =>
      match idMap.get? r.id with
      | none => duplicatesFrom (idMap.set r.id r) rest
      | some existing =>
          if existing.title ≠ r.title ∨ existing.content ≠ r.content then
            duplicateFinding suppressedIds existing r :: duplicatesFrom idMap rest
          else duplicatesFrom idMap rest

/-! ## Pairs of records -/

/-- The key and the value of a line, split at the first separator. -/
def configOf (separator : Char) (line : List Char) : String × String :=
  (String.ofList (PythonText.strip (line.takeWhile (· ≠ separator))),
    String.ofList (PythonText.strip ((line.dropWhile (· ≠ separator)).drop 1)))

/-- `parse_configs(text)`. -/
def parseConfigs (text : List Char) : OrdDict String String :=
  (PythonText.splitlines text).foldl (fun configs line =>
    if '=' ∈ line then configs.set (configOf '=' line).1 (configOf '=' line).2
    else if ':' ∈ line then configs.set (configOf ':' line).1 (configOf ':' line).2
    else configs) .empty

/-- The content a pair is compared by. -/
def comparedContent (r : MemoryRecord) : List Char := PythonText.strip (u.lower r.content).toList

/-- Keys that both records set, to different values. -/
def exclusiveConfigs (a b : MemoryRecord) : List ContradictionFinding :=
  let cfgB := parseConfigs (comparedContent u b)
  (parseConfigs (comparedContent u a)).entries.flatMap fun (key, valA) =>
    match cfgB.get? key with
    | none => []
    | some valB =>
        if valA = valB then []
        else
          let fid := ContradictionFinding.generateFindingId "exclusive_config" a.id b.id key
          [{ findingId := fid, ruleAId := a.id, ruleBId := b.id
             contradictionType := "exclusive_config", severity := "critical"
             evidence := "Mutually exclusive configuration for '" ++ key ++ "': '" ++ valA ++
              "' vs '" ++ valB ++ "'"
             suggestedStatus := .conflicted, suppressed := decide (fid ∈ suppressedIds) }]

def keywords : List String := ["postgres", "sqlite", "mysql", "pooling", "migration"]

def polarities : List (String × String) :=
  [("enable", "disable"), ("allow", "forbid"), ("allow", "prohibit"), ("always", "never"),
    ("use", "avoid"), ("shall", "shall not")]

/-- Opposite sides on a subject both records mention. -/
def oppositeAssertions (a b : MemoryRecord) : List ContradictionFinding :=
  let inA (word : String) := PythonText.contains word.toList (comparedContent u a)
  let inB (word : String) := PythonText.contains word.toList (comparedContent u b)
  (keywords.filter fun kw => inA kw && inB kw).flatMap fun kw =>
    (polarities.filter fun (polA, polB) => (inA polA && inB polB) || (inA polB && inB polA)).map
      fun (polA, polB) =>
        let fid := ContradictionFinding.generateFindingId "opposite_assertion" a.id b.id kw
        { findingId := fid, ruleAId := a.id, ruleBId := b.id
          contradictionType := "opposite_assertion", severity := "warning"
          evidence := "Opposite assertions found regarding '" ++ kw ++ "': '" ++ polA ++ "' vs '" ++
            polB ++ "'"
          suggestedStatus := .conflicted, suppressed := decide (fid ∈ suppressedIds) }

/-- Every record with each of the records after it. -/
def pairFindings : List MemoryRecord → List ContradictionFinding
  | [] => []
  | a :: rest =>
      (rest.flatMap fun b =>
        exclusiveConfigs u suppressedIds a b ++ oppositeAssertions u suppressedIds a b) ++
      pairFindings rest

/-- `ContradictionEngine.detect(records, suppressed_ids)`. -/
def detect (records : List MemoryRecord) : List ContradictionFinding :=
  duplicatesFrom suppressedIds .empty records ++ pairFindings u suppressedIds records

end ContradictionEngine

end RationaleVault
