import RationaleVault.Library.Delimited
import RationaleVault.SkillPlatform.Reflection

/-!
# Ids of reflections

The id of a candidate is a digest of its artifact, its reason and the version of the
config. The target is not part of it, so candidates about two targets have one id
when their latest complaints are about one artifact for one reason. The ids of the
reflections and of their traces are made from it.
-/

namespace RationaleVault

/-- The text behind `ReflectionCandidate.generate_candidate_id(...)`. -/
def candidateText (sourceArtifactId : String) (reason : ReflectionReason)
    (configVersion : String) : String :=
  "candidate_reflection:" ++ sourceArtifactId ++ ":" ++ reason.value ++ ":" ++ configVersion

/-- The text behind `Reflection.generate_reflection_id(candidate_id, created_at)`. -/
def reflectionText (candidateId createdAt : String) : String :=
  "reflection:" ++ candidateId ++ ":" ++ createdAt

/-- The text behind `generate_reflection_trace_id(reflection_id, candidate_id, created_at)`. -/
def traceText (reflectionId candidateId createdAt : String) : String :=
  "trace:" ++ reflectionId ++ ":" ++ candidateId ++ ":" ++ createdAt

/-- `generate_reflection_trace_id(reflection_id, candidate_id, created_at)`. -/
def generateReflectionTraceId (reflectionId candidateId createdAt : String) : String :=
  "RTRC-" ++ shortHash (traceText reflectionId candidateId createdAt)

namespace ReflectionCandidate

/-- The id of the reflection that the candidate is compiled to. -/
def reflectionId (createdAt : String) (c : ReflectionCandidate) : String :=
  Reflection.generateReflectionId c.candidateId createdAt

/-- The id of its trace. -/
def traceId (createdAt : String) (c : ReflectionCandidate) : String :=
  generateReflectionTraceId (c.reflectionId createdAt) c.candidateId createdAt

/-- What is hashed for a candidate, its reflection and its trace. -/
def hashed (createdAt : String) (c : ReflectionCandidate) : List String :=
  [candidateText c.sourceArtifactId c.reason c.configVersion,
    reflectionText c.candidateId createdAt,
    traceText (c.reflectionId createdAt) c.candidateId createdAt]

end ReflectionCandidate

/-! ## What the texts tell -/

theorem ReflectionReason.value_injective : Function.Injective ReflectionReason.value := by
  intro r r' h
  cases r <;> cases r' <;> simp_all [ReflectionReason.value]

theorem colon_not_mem_value (reason : ReflectionReason) : ':' ∉ reason.value.toList := by
  cases reason <;> decide

/-- The last part of a text behind a colon tells the part before it. -/
theorem append_colon_inj {a a' b b' : String} (hb : ':' ∉ b.toList) (hb' : ':' ∉ b'.toList)
    (h : a ++ ":" ++ b = a' ++ ":" ++ b') : a = a' ∧ b = b' := by
  have hlist : a.toList ++ ':' :: b.toList = a'.toList ++ ':' :: b'.toList := by
    have htext := congrArg String.toList h
    simpa using htext
  obtain ⟨ha, hb⟩ := Delimited.append_cons_inj hb hb' hlist
  exact ⟨String.toList_inj.mp ha, String.toList_inj.mp hb⟩

/-- Between one stem and one end the last colon splits a text. -/
theorem stem_inj {stem tail a a' b b' : String} (hb : ':' ∉ b.toList) (hb' : ':' ∉ b'.toList)
    (h : stem ++ a ++ ":" ++ b ++ ":" ++ tail = stem ++ a' ++ ":" ++ b' ++ ":" ++ tail) :
    a = a' ∧ b = b' := by
  have hfront := (String.append_left_inj ":").mp ((String.append_left_inj tail).mp h)
  obtain ⟨ha, hb⟩ := append_colon_inj hb hb' hfront
  exact ⟨(String.append_right_inj stem).mp ha, hb⟩

/-- One version: the text tells the artifact and the reason. -/
theorem candidateText_inj {artifact artifact' version : String} {reason reason' : ReflectionReason} :
    candidateText artifact reason version = candidateText artifact' reason' version ↔
      artifact = artifact' ∧ reason = reason' := by
  constructor
  · intro h
    obtain ⟨hartifact, hreason⟩ :=
      stem_inj (colon_not_mem_value reason) (colon_not_mem_value reason') h
    exact ⟨hartifact, ReflectionReason.value_injective hreason⟩
  · rintro ⟨rfl, rfl⟩
    rfl

theorem reflectionText_inj {id id' createdAt : String} :
    reflectionText id createdAt = reflectionText id' createdAt ↔ id = id' := by
  constructor
  · intro h
    have hfront := (String.append_left_inj ":").mp ((String.append_left_inj createdAt).mp h)
    exact (String.append_right_inj "reflection:").mp hfront
  · rintro rfl
    rfl

theorem traceText_inj {reflectionId reflectionId' id id' createdAt : String}
    (hid : ':' ∉ id.toList) (hid' : ':' ∉ id'.toList)
    (h : traceText reflectionId id createdAt = traceText reflectionId' id' createdAt) :
    id = id' :=
  (stem_inj hid hid' h).2

/-! ## Candidates of one cycle -/

namespace ReflectionCandidateBuilder

variable (u : UnicodeTables) (records : List ExecutionLearningRecord) (config : ReflectionConfig)
  (createdAt : String)

/-- The records about the target make a candidate. -/
def Proposes (target : String) : Prop :=
  config.enabled = true ∧ supporting u (about target records) ≠ [] ∧
    reasonOf u (about target records) ∈ config.enabledReasons

/-- No two targets with a candidate have one reason and one artifact. -/
def Apart : Prop :=
  ∀ target target', Proposes u records config target → Proposes u records config target' →
    target ≠ target' →
      ¬(sourceArtifactIdOf (supporting u (about target records)) =
          sourceArtifactIdOf (supporting u (about target' records)) ∧
        reasonOf u (about target records) = reasonOf u (about target' records))

/-- A candidate stands for its target. -/
structure Represents (target : String) (c : ReflectionCandidate) : Prop where
  target_eq : c.context.target = target
  source_eq : c.sourceArtifactId = sourceArtifactIdOf (supporting u (about target records))
  reason_eq : c.reason = reasonOf u (about target records)
  version_eq : c.configVersion = config.version
  id_eq : c.candidateId =
    "RCAND-" ++ shortHash (candidateText c.sourceArtifactId c.reason c.configVersion)

variable {u records config createdAt}

theorem represents_of_mem {c : ReflectionCandidate}
    (hc : c ∈ buildCandidates u records config createdAt) :
    Proposes u records config c.context.target ∧
      Represents u records config c.context.target c := by
  rw [buildCandidates] at hc
  split_ifs at hc with henabled
  · obtain ⟨e, he, hsome⟩ := List.mem_filterMap.mp hc
    rw [entries_byTarget he] at hsome
    rw [target_of_candidateOf u hsome]
    rw [candidateOf] at hsome
    split_ifs at hsome with hnone hreason
    obtain rfl := Option.some.inj hsome
    exact ⟨⟨henabled, hnone, hreason⟩, rfl, rfl, rfl, rfl, rfl⟩
  · cases hc

variable (createdAt) in
theorem exists_candidate {target : String} (h : Proposes u records config target) :
    ∃ c ∈ buildCandidates u records config createdAt, c.context.target = target := by
  obtain ⟨henabled, hsupporting, hreason⟩ := h
  have habout : about target records ≠ [] := by
    intro hnil
    rw [hnil] at hsupporting
    exact hsupporting rfl
  obtain ⟨e, he, rfl⟩ := List.mem_map.mp
    (((byTarget records).contains_iff target).mp (contains_byTarget habout))
  cases hc : candidateOf u config createdAt e.1 e.2 with
  | none =>
      rw [entries_byTarget he, candidateOf_eq_none_iff] at hc
      exact absurd hc (not_or.mpr ⟨hsupporting, not_not_intro hreason⟩)
  | some c =>
      refine ⟨c, ?_, target_of_candidateOf u hc⟩
      rw [buildCandidates, if_pos henabled]
      exact List.mem_filterMap.mpr ⟨e, he, hc⟩

/-- Ids tell the candidates apart when they differ for different targets. -/
theorem nodup_map_iff (id : ReflectionCandidate → String)
    (hid : ∀ c ∈ buildCandidates u records config createdAt,
      ∀ c' ∈ buildCandidates u records config createdAt,
        id c = id c' ↔ c.sourceArtifactId = c'.sourceArtifactId ∧ c.reason = c'.reason) :
    ((buildCandidates u records config createdAt).map id).Nodup ↔ Apart u records config := by
  have htargets := nodup_targets u records config createdAt
  constructor
  · intro hnodup target target' h h' hne hsame
    obtain ⟨c, hc, rfl⟩ := exists_candidate createdAt h
    obtain ⟨c', hc', rfl⟩ := exists_candidate createdAt h'
    have hr := (represents_of_mem hc).2
    have hr' := (represents_of_mem hc').2
    have heq : id c = id c' := (hid c hc c' hc').mpr
      ⟨by rw [hr.source_eq, hr'.source_eq, hsame.1], by rw [hr.reason_eq, hr'.reason_eq, hsame.2]⟩
    exact hne (congrArg (fun c => c.context.target) (List.inj_on_of_nodup_map hnodup hc hc' heq))
  · intro hapart
    apply (List.Nodup.of_map _ htargets).map_on
    intro c hc c' hc' heq
    obtain ⟨hproposes, hr⟩ := represents_of_mem hc
    obtain ⟨hproposes', hr'⟩ := represents_of_mem hc'
    obtain ⟨hsource, hreason⟩ := (hid c hc c' hc').mp heq
    by_contra hne
    apply hapart _ _ hproposes hproposes'
    · exact fun htarget => hne (List.inj_on_of_nodup_map htargets hc hc' htarget)
    · exact ⟨by rw [← hr.source_eq, ← hr'.source_eq, hsource],
        by rw [← hr.reason_eq, ← hr'.reason_eq, hreason]⟩

section CollisionFree

variable (hfree : CollisionFree ((buildCandidates u records config createdAt).flatMap
  (ReflectionCandidate.hashed createdAt)))
  {c c' : ReflectionCandidate} (hc : c ∈ buildCandidates u records config createdAt)
  (hc' : c' ∈ buildCandidates u records config createdAt)

include hfree hc hc'

omit hfree hc' in
theorem mem_hashed {text : String} (htext : text ∈ c.hashed createdAt) :
    text ∈ (buildCandidates u records config createdAt).flatMap
      (ReflectionCandidate.hashed createdAt) :=
  List.mem_flatMap.mpr ⟨c, hc, htext⟩

theorem candidateId_eq_iff : c.candidateId = c'.candidateId ↔
    c.sourceArtifactId = c'.sourceArtifactId ∧ c.reason = c'.reason := by
  have hr := (represents_of_mem hc).2
  have hr' := (represents_of_mem hc').2
  rw [hr.id_eq, hr'.id_eq, String.append_right_inj]
  constructor
  · intro h
    have htext := hfree _ (mem_hashed hc (by simp [ReflectionCandidate.hashed])) _
      (mem_hashed hc' (by simp [ReflectionCandidate.hashed])) h
    rw [hr.version_eq, hr'.version_eq] at htext
    exact candidateText_inj.mp htext
  · rintro ⟨hsource, hreason⟩
    rw [hsource, hreason, hr.version_eq, hr'.version_eq]

theorem reflectionId_eq_iff : c.reflectionId createdAt = c'.reflectionId createdAt ↔
    c.candidateId = c'.candidateId := by
  have hid : ∀ x : ReflectionCandidate, x.reflectionId createdAt =
      "REFL-" ++ shortHash (reflectionText x.candidateId createdAt) := fun _ => rfl
  rw [hid, hid, String.append_right_inj]
  constructor
  · intro h
    exact reflectionText_inj.mp (hfree _ (mem_hashed hc (by simp [ReflectionCandidate.hashed]))
      _ (mem_hashed hc' (by simp [ReflectionCandidate.hashed])) h)
  · intro h
    rw [h]

theorem traceId_eq_iff : c.traceId createdAt = c'.traceId createdAt ↔
    c.candidateId = c'.candidateId := by
  have hcolon : ∀ x ∈ buildCandidates u records config createdAt, ':' ∉ x.candidateId.toList := by
    intro x hx
    rw [(represents_of_mem hx).2.id_eq, String.toList_append, List.mem_append]
    rintro (h | h)
    · revert h
      decide
    · exact not_mem_shortHash (by decide) _ h
  rw [ReflectionCandidate.traceId, ReflectionCandidate.traceId, generateReflectionTraceId,
    generateReflectionTraceId, String.append_right_inj]
  constructor
  · intro h
    exact traceText_inj (hcolon c hc) (hcolon c' hc')
      (hfree _ (mem_hashed hc (by simp [ReflectionCandidate.hashed]))
        _ (mem_hashed hc' (by simp [ReflectionCandidate.hashed])) h)
  · intro h
    rw [ReflectionCandidate.reflectionId, ReflectionCandidate.reflectionId, h]

end CollisionFree

/-- Every candidate has a target of its own. The ids of the candidates, of their reflections and
of their traces are distinct exactly when no two of the targets share reason and artifact. -/
theorem ids_distinct_iff (hfree : CollisionFree
    ((buildCandidates u records config createdAt).flatMap (ReflectionCandidate.hashed createdAt))) :
    ((buildCandidates u records config createdAt).map fun c => c.context.target).Nodup ∧
      (((buildCandidates u records config createdAt).map
        ReflectionCandidate.candidateId).Nodup ↔ Apart u records config) ∧
      (((buildCandidates u records config createdAt).map
        (ReflectionCandidate.reflectionId createdAt)).Nodup ↔ Apart u records config) ∧
      (((buildCandidates u records config createdAt).map
        (ReflectionCandidate.traceId createdAt)).Nodup ↔ Apart u records config) := by
  have hcandidate : ∀ c ∈ buildCandidates u records config createdAt,
      ∀ c' ∈ buildCandidates u records config createdAt, c.candidateId = c'.candidateId ↔
        c.sourceArtifactId = c'.sourceArtifactId ∧ c.reason = c'.reason :=
    fun c hc c' hc' => candidateId_eq_iff hfree hc hc'
  refine ⟨nodup_targets u records config createdAt, nodup_map_iff _ hcandidate, ?_, ?_⟩
  · apply nodup_map_iff
    intro c hc c' hc'
    rw [reflectionId_eq_iff hfree hc hc', hcandidate c hc c' hc']
  · apply nodup_map_iff
    intro c hc c' hc'
    rw [traceId_eq_iff hfree hc hc', hcandidate c hc c' hc']

/-- A record that complains about some skills, with its artifact. -/
def complains (skills : List String) (artifact : String) : ExecutionLearningRecord where
  learningId := "l1"
  plannerFeedback := {
    plannerId := "p1"
    confidenceAdjustment := -1
    skillPriorityDelta := .ofList (skills.map fun skill => (skill, -1))
    plannerRecommendation := .decreasePriority
    rationale := "" }
  createdAt := "2026-01-01T00:00:00"
  sourceArtifactIds := [artifact]

/-- A config that lets the common reason pass. -/
def openConfig : ReflectionConfig := ⟨"1.0", true, 1 / 2, [.outcomeMismatch]⟩

theorem ids_distinct_iff_twoArtifacts :
    ((buildCandidates .asciiOnly [complains ["a"] "ART-1", complains ["b"] "ART-2"] openConfig
        "now").map fun c => c.context.target).Nodup ∧
      (((buildCandidates .asciiOnly [complains ["a"] "ART-1", complains ["b"] "ART-2"] openConfig
          "now").map ReflectionCandidate.candidateId).Nodup ↔
        Apart .asciiOnly [complains ["a"] "ART-1", complains ["b"] "ART-2"] openConfig) ∧
      (((buildCandidates .asciiOnly [complains ["a"] "ART-1", complains ["b"] "ART-2"] openConfig
          "now").map (ReflectionCandidate.reflectionId "now")).Nodup ↔
        Apart .asciiOnly [complains ["a"] "ART-1", complains ["b"] "ART-2"] openConfig) ∧
      (((buildCandidates .asciiOnly [complains ["a"] "ART-1", complains ["b"] "ART-2"] openConfig
          "now").map (ReflectionCandidate.traceId "now")).Nodup ↔
        Apart .asciiOnly [complains ["a"] "ART-1", complains ["b"] "ART-2"] openConfig) :=
  ids_distinct_iff (by decide +kernel)

/-- One record about two skills makes two candidates with one id. -/
theorem not_nodup_sharedRecord :
    ¬((buildCandidates .asciiOnly [complains ["a", "b"] "ART-1"] openConfig "now").map
      ReflectionCandidate.candidateId).Nodup := by
  decide +kernel

end ReflectionCandidateBuilder

end RationaleVault
