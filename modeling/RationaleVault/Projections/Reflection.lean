import RationaleVault.Library.Delimited
import RationaleVault.Library.Fold
import RationaleVault.Schema.Events
import RationaleVault.SkillPlatform.Reflection

/-!
# Reflection cycles

A cycle rebuilds the earlier reflections from the events, takes the names of
their targets out of their rationales, and reflects on the new learning records.
What it generates is appended to the events. The names are read back correctly
except for those that the sentence around them makes ambiguous.
-/

namespace RationaleVault

/-- What the engine takes from the interpreter: the tables of characters, how results are rounded
to floats, and how floats are written. -/
structure ReflectionEngine where
  unicode : UnicodeTables
  round : ℚ → ℚ
  float : FloatText

structure ReflectionReport where
  reportId : String
  reflections : List Reflection
  createdAt : String

/-- The id of a reflection as a part of a text: only texts can be joined. -/
def Reflection.idText (r : Reflection) : Except Exc String :=
  match r.reflectionId with
  | .str id => .ok id
  | _ => .error .typeError

/-- `ReflectionReport.generate_report_id(reflections, created_at)`. -/
def ReflectionReport.generateReportId (reflections : List Reflection) (createdAt : String) :
    Except Exc String := do
  let ids ← reflections.mapM Reflection.idText
  return "RREP-" ++ shortHash ("report:" ++
    String.intercalate "," (ids.insertionSort (· ≤ ·)) ++ ":" ++ createdAt)

/-- The payloads that reflections are rebuilt from. -/
structure ReflectionEventBundle where
  generated : List ReflectionGeneratedPayload

/-- A candidate with its reflection. -/
structure Reflected where
  candidate : ReflectionCandidate
  reflection : Reflection

/-- Whether the reflection was approved. -/
def Reflected.isCompleted (r : Reflected) : Bool := r.reflection.status = .completed

namespace ReflectionStateProjection

/-! ## Earlier reflections -/

/-- What stands for a payload that is not read as a reflection. -/
def unreadable (createdAt : String) (event : EventRecord) : Reflection where
  reflectionId := .str ("REFL-HIST-" ++ toString event.eventSequence)
  candidateId := .str "RCAND-HISTORICAL"
  status := .completed
  insights := .arr [event.payload.getD "reflection" (.str "")]
  reconstructedRationale := .str "Loaded from event history"
  actionableGuidelines := .arr []
  createdAt := .str createdAt

/-- The reflection of an event. -/
def historicalOf (createdAt : String) (event : EventRecord) : Option Reflection :=
  if event.eventType = .reflectionGenerated ∧
      (event.payload.lookup "reflection_id").isSome = true then
    some (match Reflection.fromDict event.payload with
      | .ok reflection => reflection
      | .error _ => unreadable createdAt event)
  else none

/-- `historical_reflections`. -/
def historical (createdAt : String) (events : List EventRecord) : List Reflection :=
  events.filterMap (historicalOf createdAt)

/-- The single quote, code 39. -/
def quote : Char := Char.ofNat 39

/-- `text.split("target '")[1].split("'")[0]`, if there is a second part. -/
def targetOfText (text : String) : Option String :=
  if PythonText.contains "target '".toList text.toList then
    ((Delimited.split "target '".toList text.toList)[1]?).map fun part =>
      String.ofList (part.takeWhile (· ≠ quote))
  else none

/-- The target that a rationale names. A number cannot be looked into, a list or a dictionary in
which the word was found cannot be split. -/
def activeTarget : Json → Except Exc (Option String)
  | .str text => .ok (targetOfText text)
  | .arr items =>
      if .str "target '" ∈ items then .error (.attributeError "split") else .ok none
  | .obj members =>
      if (members.lookup "target '").isSome then .error (.attributeError "split") else .ok none
  | .atom _ => .error .typeError

/-- `active_targets`. -/
def activeTargets (reflections : List Reflection) : Except Exc (List String) := do
  let standing := reflections.filter fun r => r.status = .active || r.status = .completed
  let targets ← standing.mapM fun r => activeTarget r.reconstructedRationale
  return targets.filterMap id

/-! ## A cycle -/

section

variable (x : ReflectionEngine) (order : SetOrder String)

/-- The loop body: the candidate is assessed and compiled. -/
def reflect (config : ReflectionConfig) (createdAt : String) (activeTargets : List String)
    (candidate : ReflectionCandidate) : Reflected where
  candidate := candidate
  reflection := ReflectionCompiler.compile x.float order
    (ReflectionRuleEngine.assess x.round
      (evidenceRules x.round ++ [duplicateSuppressionRule activeTargets]) candidate config)
    candidate createdAt

def payloadOf (createdAt : String) (r : Reflected) : ReflectionGeneratedPayload :=
  ReflectionCompiler.compileGeneratedPayload r.reflection
    (r.candidate.context.supportingRecordIds ++ r.candidate.context.conflictingRecordIds) createdAt

/-- The candidates of a cycle with their reflections. -/
def reflected (events : List EventRecord) (learningRecords : List ExecutionLearningRecord)
    (config : ReflectionConfig) (createdAt : String) : Except Exc (List Reflected) := do
  let active ← activeTargets (historical createdAt events)
  return (ReflectionCandidateBuilder.buildCandidates x.unicode learningRecords config
    createdAt).map (reflect x order config createdAt active)

/-- The report and the payloads of the reflections of a cycle. -/
def bundleOf (events : List EventRecord) (createdAt : String) (new : List Reflected) :
    Except Exc (ReflectionReport × ReflectionEventBundle) := do
  let allReflections := historical createdAt events ++
    (new.filter Reflected.isCompleted).map Reflected.reflection
  let reportId ← ReflectionReport.generateReportId allReflections createdAt
  return (⟨reportId, allReflections, createdAt⟩, ⟨new.map (payloadOf createdAt)⟩)

/-- `project(events, learning_records, config, created_at)`. -/
def project (events : List EventRecord) (learningRecords : List ExecutionLearningRecord)
    (config : ReflectionConfig) (createdAt : String) :
    Except Exc (ReflectionReport × ReflectionEventBundle) := do
  bundleOf events createdAt (← reflected x order events learningRecords config createdAt)

end

/-! ## Names in a sentence -/

/-- What is read of a target: the text up to its first quote, without a last word `target`. -/
def readTarget (target : String) : String :=
  let read := target.toList.takeWhile (· ≠ quote)
  String.ofList (if "target ".toList <:+ read then read.take (read.length - 7) else read)

/-- A name is read as it is, unless it has a quote or ends with the word `target`. -/
theorem readTarget_eq_self_iff (target : String) :
    readTarget target = target ↔ quote ∉ target.toList ∧ ¬ "target ".toList <:+ target.toList := by
  have hinj : readTarget target = target ↔ (readTarget target).toList = target.toList :=
    ⟨congrArg String.toList, fun h => String.toList_inj.mp h⟩
  have hlength := (List.takeWhile_prefix (· ≠ quote) (l := target.toList)).length_le
  rw [hinj, readTarget, String.toList_ofList]
  constructor
  · intro h
    have hself : target.toList.takeWhile (· ≠ quote) = target.toList := by
      apply (List.takeWhile_prefix _).eq_of_length_le
      have htotal := congrArg List.length h
      split_ifs at htotal with hword
      · rw [List.length_take] at htotal
        omega
      · exact htotal.ge
    rw [hself] at h
    refine ⟨fun hmem => ?_, fun hword => ?_⟩
    · simpa using List.takeWhile_eq_self_iff.mp hself quote hmem
    · rw [if_pos hword] at h
      have hshort := congrArg List.length h
      have hseven : 7 ≤ target.toList.length := hword.length_le
      rw [List.length_take] at hshort
      omega
  · rintro ⟨hquote, hword⟩
    have hself : target.toList.takeWhile (· ≠ quote) = target.toList := by
      rw [List.takeWhile_eq_self_iff]
      simpa using fun c hc (heq : c = quote) => hquote (heq ▸ hc)
    rw [hself, if_neg hword]

/-- The sentence around a target. -/
theorem toList_rationaleOf (float : FloatText) (target candidateId : String)
    (supportingRecords : Nat) (confidence : ℚ) :
    ∃ rest, (ReflectionCompiler.rationaleOf float target candidateId supportingRecords
      confidence).toList = "Reflection triggered for ".toList ++ ("target ".toList ++ [quote]) ++
        (target.toList ++ quote :: rest) := by
  have hsplit : ∀ opening closing rest : String, ∀ before after : List Char,
      opening.toList = before → closing.toList = quote :: after →
      (opening ++ target ++ closing ++ rest).toList =
        before ++ (target.toList ++ quote :: (after ++ rest.toList)) := by
    rintro opening closing rest before after rfl hclosing
    simp [String.toList_append, hclosing]
  exact ⟨_, hsplit _ _ _ _ _ rfl rfl⟩

/-- The name that is read out of the sentence about a target. -/
theorem targetOfText_rationaleOf (float : FloatText) (target candidateId : String)
    (supportingRecords : Nat) (confidence : ℚ) :
    targetOfText (ReflectionCompiler.rationaleOf float target candidateId supportingRecords
      confidence) = some (readTarget target) := by
  obtain ⟨rest, htext⟩ :=
    toList_rationaleOf float target candidateId supportingRecords confidence
  have hword : "target '".toList = "target ".toList ++ [quote] := rfl
  have hstem : quote ∉ "target ".toList := by decide
  have hopen : quote ∉ "Reflection triggered for ".toList := by decide
  have hread : quote ∉ target.toList.takeWhile (· ≠ quote) := fun hmem => by
    simpa using List.mem_takeWhile_imp hmem
  obtain ⟨more, hmore⟩ : ∃ more, target.toList ++ quote :: rest =
      target.toList.takeWhile (· ≠ quote) ++ quote :: more :=
    Delimited.exists_takeWhile_append target.toList rest
  obtain ⟨piece, hpiece⟩ := Delimited.exists_head?_splitFrom ("target ".toList ++ [quote]) [] 0
    (target.toList.takeWhile (· ≠ quote) ++ quote :: more)
  -- the second part of the sentence is the first part of what follows the word
  have hsecond : (Delimited.split ("target ".toList ++ [quote])
      ("Reflection triggered for ".toList ++ ("target ".toList ++ [quote]) ++
        (target.toList ++ quote :: rest)))[1]? = some piece := by
    rw [Delimited.split_append hstem hopen, List.getElem?_cons_succ, ← List.head?_eq_getElem?,
      hmore, Delimited.split, hpiece, List.nil_append]
  have hfirst := Delimited.takeWhile_head?_split hstem hread more
  rw [Delimited.split, hpiece, List.nil_append, Option.getD_some] at hfirst
  rw [targetOfText, htext, hword, if_pos, hsecond, Option.map_some, hfirst]
  · rfl
  · exact decide_eq_true ⟨_, _, rfl⟩

end ReflectionStateProjection

end RationaleVault
