import RationaleVault.Memory.Bookkeeping
import RationaleVault.Projections.ReflectionCycles

/-!
# Lessons of reflections

The memories of a `REFLECTION_GENERATED` event are drawn from a key that the
payloads of a cycle do not have. All of them draw one empty lesson, each takes
the place of the one before, and rejected reflections draw it too.
-/

namespace RationaleVault

/-- A payload of a cycle and the call that appends it. -/
structure GeneratedEvent where
  payload : ReflectionGeneratedPayload
  call : AppendCall
  eventType_eq : call.event.eventType = .reflectionGenerated
  payload_eq : call.event.payload = payload.toDict

namespace GeneratedEvent

/-- The memory names the event of the payload. -/
def Names (e : GeneratedEvent) (r : MemoryRecord) : Prop := e.call.event.id.str ∈ r.sourceEventIds

/-- The memory is a lesson of the event with an insight of its reflection. -/
def TaughtBy (e : GeneratedEvent) (r : MemoryRecord) : Prop :=
  e.Names r ∧ r.memoryType = .lessonLearned ∧
    ∃ insight ∈ e.payload.insights.texts,
      PythonText.contains insight.toList r.content.toList = true

end GeneratedEvent

/-- Every approved reflection has a lesson, reflections with distinct insights have distinct ones,
and a rejected reflection has no memory. -/
structure Taught (generated : List GeneratedEvent) (rows : List MemoryRecord) : Prop where
  lessons : ∃ lesson : GeneratedEvent → MemoryRecord,
    (∀ e ∈ generated, e.payload.status = "COMPLETED" → lesson e ∈ rows ∧ e.TaughtBy (lesson e)) ∧
    ∀ e ∈ generated, ∀ e' ∈ generated, e.payload.status = "COMPLETED" →
      e'.payload.status = "COMPLETED" → e.payload.insights ≠ e'.payload.insights →
      lesson e ≠ lesson e'
  rejected : ∀ e ∈ generated, e.payload.status = "REJECTED" → ∀ r ∈ rows, ¬ e.Names r

variable (u : UnicodeTables)

/-- The lesson that a payload without a `reflection` key draws. -/
def emptyLesson (call : AppendCall) : MemoryRecord where
  id := generateMemoryId u MemoryType.lessonLearned.value "Reflection Lesson Learned" ""
  version := 1
  title := "Reflection Lesson Learned"
  content := ""
  memoryType := .lessonLearned
  importance := "medium"
  lifecycleStatus := "active"
  sourceEventIds := [call.event.id.str]
  sourceType := "reflection"
  createdAt := call.now
  projectId := call.event.projectId.str

/-- Whatever a payload says, its event draws the empty lesson. -/
theorem GeneratedEvent.extract_eq (e : GeneratedEvent) :
    extractMemoriesFromEvent u e.call.event e.call.now = .ok [emptyLesson u e.call] := by
  have htext : e.call.event.payload.getD "reflection" (.str "") = .str "" := by
    rw [e.payload_eq]
    rfl
  simp only [extractMemoriesFromEvent, e.eventType_eq, htext]
  rfl

theorem GeneratedEvent.emitsNoMemory_eq (e : GeneratedEvent) :
    emitsNoMemory e.call.event.eventType = false := by
  rw [e.eventType_eq]
  rfl

theorem GeneratedEvent.supersedesOf_eq (e : GeneratedEvent) : supersedesOf e.call.event = none := by
  rw [supersedesOf, e.eventType_eq]
  rfl

/-! ## Appending -/

open SQLiteMemoryProvider

variable {u} {rows : List MemoryRecord}

theorem exists_numbered_emptyLesson (rows : List MemoryRecord) (u : UnicodeTables)
    (call : AppendCall) :
    ∃ v, numbered rows (emptyLesson u call) = { emptyLesson u call with version := v } := by
  rcases numbered_eq rows (emptyLesson u call) with heq | ⟨r, -, -, heq⟩
  · exact ⟨1, heq⟩
  · exact ⟨r.version + 1, heq⟩

namespace MemoryProvider.Faithful

variable {P : MemoryProvider} {Holds : P.State → List MemoryRecord → Prop}
  {Kept : MemoryRecord → Prop} {s : P.State}

/-- Appending the payload of a reflection writes the empty lesson. -/
theorem appendGenerated (F : P.Faithful Holds Kept) (h : Holds s rows) (e : GeneratedEvent)
    (hkept : Kept (numbered rows (emptyLesson u e.call))) :
    ∃ s' rows', P.step u (some s) (.appendEvent e.call) = some s' ∧ Holds s' rows' ∧
      ∀ r, r ∈ rows' ↔ r = numbered rows (emptyLesson u e.call) ∨
        r ∈ rows ∧ r.id ≠ (emptyLesson u e.call).id :=
  F.appendEvent_single h e.call (emptyLesson u e.call) e.emitsNoMemory_eq (e.extract_eq u)
    e.supersedesOf_eq hkept

/-- After the payloads every record is an old one or an empty lesson of one of them, and an empty
lesson that could be kept before can be kept still. -/
theorem appendAllGenerated (F : P.Faithful Holds Kept) (h : Holds s rows)
    {generated : List GeneratedEvent}
    (hkept : ∀ e ∈ generated, Kept (emptyLesson u e.call) ∧
      Kept (numbered rows (emptyLesson u e.call))) :
    ∃ s' rows', (generated.map fun e => MemoryOp.appendEvent e.call).foldl (P.step u) (some s) =
        some s' ∧ Holds s' rows' ∧
      (∀ r ∈ rows', r ∈ rows ∨ ∃ e ∈ generated, r.sourceEventIds = [e.call.event.id.str]) ∧
      ∀ call, Kept (emptyLesson u call) → Kept (numbered rows (emptyLesson u call)) →
        Kept (numbered rows' (emptyLesson u call)) := by
  induction generated generalizing s rows with
  | nil => exact ⟨s, rows, rfl, h, fun r hr => Or.inl hr, fun _ _ hnumbered => hnumbered⟩
  | cons e rest ih =>
      obtain ⟨s₁, rows₁, hstep, hholds, hmem⟩ :=
        F.appendGenerated h e (hkept e List.mem_cons_self).2
      obtain ⟨v, hv⟩ := exists_numbered_emptyLesson rows u e.call
      rw [hv] at hmem
      -- from now on the lesson replaces one of the same content
      have hsame : ∀ call, numbered rows₁ (emptyLesson u call) = emptyLesson u call := fun call =>
        numbered_of_mem (F.nodup hholds) ((hmem _).mpr (Or.inl rfl)) rfl rfl
      obtain ⟨s', rows', hrun, hholds', hback, hkeep⟩ := ih hholds fun e' he' => by
        have hlesson := (hkept e' (List.mem_cons_of_mem e he')).1
        exact ⟨hlesson, (hsame e'.call).symm ▸ hlesson⟩
      refine ⟨s', rows', ?_, hholds', fun r hr => ?_, fun call hlesson _ => ?_⟩
      · rw [List.map_cons, List.foldl_cons, hstep]
        exact hrun
      · rcases hback r hr with hr | ⟨e', he', hsource⟩
        · rcases (hmem r).mp hr with rfl | ⟨hold, -⟩
          · exact Or.inr ⟨e, List.mem_cons_self, rfl⟩
          · exact Or.inl hold
        · exact Or.inr ⟨e', List.mem_cons_of_mem e he', hsource⟩
      · exact hkeep call hlesson ((hsame call).symm ▸ hlesson)

end MemoryProvider.Faithful

/-! ## The payloads of a cycle -/

section

variable {x : ReflectionEngine} {order : SetOrder String} {events : List EventRecord}
  {records : List ExecutionLearningRecord} {config : ReflectionConfig} {createdAt : String}
  {report : ReflectionReport} {bundle : ReflectionEventBundle}

open ReflectionStateProjection ReflectionCandidateBuilder

/-- Every candidate has one payload. -/
theorem exists_generated_eq
    (h : project x order events records config createdAt = .ok (report, bundle)) :
    ∃ active, bundle.generated = (buildCandidates x.unicode records config createdAt).map
      fun candidate => payloadOf createdAt (reflect x order config createdAt active candidate) := by
  obtain ⟨new, hnew, h⟩ := Except.bind_eq_ok_iff.mp h
  obtain ⟨active, -, hnew⟩ := Except.bind_eq_ok_iff.mp hnew
  obtain ⟨reportId, -, h⟩ := Except.bind_eq_ok_iff.mp h
  cases hnew
  cases h
  exact ⟨active, List.map_map⟩

/-- A payload is of an approved or of a rejected reflection, and its insights are not empty. -/
theorem spec_of_mem_generated
    (h : project x order events records config createdAt = .ok (report, bundle))
    {p : ReflectionGeneratedPayload} (hp : p ∈ bundle.generated) :
    (p.status = "COMPLETED" ∨ p.status = "REJECTED") ∧
      ∀ insight ∈ p.insights.texts, insight ≠ "" := by
  obtain ⟨active, heq⟩ := exists_generated_eq h
  rw [heq] at hp
  obtain ⟨candidate, -, rfl⟩ := List.mem_map.mp hp
  constructor
  · change (ReflectionStatus.value (if _ then _ else _)) = _ ∨
      (ReflectionStatus.value (if _ then _ else _)) = _
    split_ifs
    · exact Or.inl rfl
    · exact Or.inr rfl
  · intro insight hinsight
    change insight ∈ (Json.strs (ReflectionCompiler.insightsOf candidate)).texts at hinsight
    rw [Json.texts_strs] at hinsight
    exact ReflectionCompiler.ne_empty_of_mem_insightsOf hinsight

/-- The last payload breaks the law: its lesson is empty, or it is rejected and has a lesson. -/
theorem not_taught_concat {before : List GeneratedEvent} {last : GeneratedEvent}
    (hlast : (last.payload.status = "COMPLETED" ∨ last.payload.status = "REJECTED") ∧
      ∀ insight ∈ last.payload.insights.texts, insight ≠ "")
    {v : Int} (hstored : { emptyLesson u last.call with version := v } ∈ rows)
    (honly : ∀ r ∈ rows, last.Names r → r = { emptyLesson u last.call with version := v }) :
    ¬ Taught (before ++ [last]) rows := by
  have hmem : last ∈ before ++ [last] := List.mem_append_right _ (List.mem_singleton_self last)
  intro htaught
  rcases hlast.1 with hcompleted | hrejected
  · obtain ⟨lesson, hlessons, -⟩ := htaught.lessons
    obtain ⟨hin, hnames, -, insight, hinsight, hcontains⟩ := hlessons last hmem hcompleted
    rw [honly _ hin hnames] at hcontains
    have hinfix : insight.toList <:+: [] := of_decide_eq_true hcontains
    exact hlast.2 insight hinsight (String.toList_inj.mp (List.infix_nil.mp hinfix))
  · exact htaught.rejected last hmem hrejected _ hstored (List.mem_singleton_self _)

/-- With any provider, the law holds after a cycle exactly if the cycle has no candidate. -/
theorem MemoryProvider.Faithful.taught_iff {P : MemoryProvider}
    {Holds : P.State → List MemoryRecord → Prop} {Kept : MemoryRecord → Prop} {s : P.State}
    (F : P.Faithful Holds Kept) (h : Holds s rows)
    (hproject : project x order events records config createdAt = .ok (report, bundle))
    {generated : List GeneratedEvent}
    (hgenerated : generated.map GeneratedEvent.payload = bundle.generated)
    (hids : (generated.map fun e => e.call.event.id).Nodup)
    (hfresh : ∀ e ∈ generated, ∀ r ∈ rows, ¬ e.Names r)
    (hkept : ∀ e ∈ generated, Kept (emptyLesson u e.call) ∧
      Kept (numbered rows (emptyLesson u e.call))) :
    ∃ s' rows', (generated.map fun e => MemoryOp.appendEvent e.call).foldl (P.step u) (some s) =
        some s' ∧ Holds s' rows' ∧
      (Taught generated rows' ↔ Quiet x.unicode config records) := by
  have hquiet : generated = [] ↔ Quiet x.unicode config records := by
    obtain ⟨active, heq⟩ := exists_generated_eq hproject
    have hnil : buildCandidates x.unicode records config createdAt = [] ↔ _ :=
      buildCandidates_eq_nil_iff x.unicode
    rw [← hnil, ← List.map_eq_nil_iff, hgenerated, heq, List.map_eq_nil_iff]
  rw [← hquiet]
  rcases List.eq_nil_or_concat' generated with rfl | ⟨before, last, rfl⟩
  · refine ⟨s, rows, rfl, h, iff_of_true ⟨⟨fun e => emptyLesson u e.call, ?_⟩, ?_⟩ rfl⟩
    · simp
    · simp
  · have hlast : last ∈ before ++ [last] :=
      List.mem_append_right _ (List.mem_singleton_self last)
    obtain ⟨hlesson, hnumbered⟩ := hkept last hlast
    obtain ⟨s₁, rows₁, hrun, hholds, hback, hkeep⟩ :=
      F.appendAllGenerated h fun e he => hkept e (List.mem_append_left [last] he)
    obtain ⟨s', rows', hstep, hholds', hmem⟩ :=
      F.appendGenerated hholds last (hkeep last.call hlesson hnumbered)
    obtain ⟨v, hv⟩ := exists_numbered_emptyLesson rows₁ u last.call
    rw [hv] at hmem
    refine ⟨s', rows', ?_, hholds', iff_of_false ?_ (by simp)⟩
    · rw [List.map_append, List.foldl_append, hrun]
      exact hstep
    · refine not_taught_concat (spec_of_mem_generated hproject (hgenerated ▸
        List.mem_map_of_mem hlast)) ((hmem _).mpr (Or.inl rfl)) fun r hr hnames => ?_
      rcases (hmem r).mp hr with heq | ⟨hr, -⟩
      · exact heq
      · rcases hback r hr with hold | ⟨e, he, hsource⟩
        · exact absurd hnames (hfresh last hlast r hold)
        · -- an earlier payload has another event
          rw [GeneratedEvent.Names, hsource, List.mem_singleton] at hnames
          rw [List.map_append, List.nodup_append] at hids
          exact absurd (UUID.str_injective hnames).symm (hids.2.2 _ (List.mem_map_of_mem he) _
            (List.mem_singleton_self _))

end

/-! ## The two providers -/

/-- A table whose numbers can be bound, and whose versions can be counted up. -/
structure SQLiteMemoryProvider.Writable (rows : List MemoryRecord) : Prop where
  nodup : (rows.map MemoryRecord.id).Nodup
  fits : ∀ r ∈ rows, Fits r ∧ 0 ≤ r.referenceCount
  versions : ∀ r ∈ rows, r.version + 1 < 2 ^ 63

theorem SQLiteMemoryProvider.Writable.kept_emptyLesson (h : Writable rows) (call : AppendCall) :
    (Fits (emptyLesson u call) ∧ 0 ≤ (emptyLesson u call).referenceCount) ∧
      Fits (numbered rows (emptyLesson u call)) ∧
        0 ≤ (numbered rows (emptyLesson u call)).referenceCount := by
  have hcount : IsInt64 0 := by decide
  have hfirst : Fits (emptyLesson u call) := ⟨(by decide : IsInt64 1), hcount⟩
  refine ⟨⟨hfirst, le_rfl⟩, ?_⟩
  rcases numbered_eq rows (emptyLesson u call) with heq | ⟨r, hr, -, heq⟩
  · rw [heq]
    exact ⟨hfirst, le_rfl⟩
  · rw [heq]
    obtain ⟨⟨⟨hlower, -⟩, -⟩, -⟩ := h.fits r hr
    have hversion : IsInt64 (r.version + 1) := ⟨by omega, h.versions r hr⟩
    exact ⟨⟨hversion, hcount⟩, le_rfl⟩

namespace MarkdownMemoryProvider

variable {ft : FloatText}

/-- A file that holds records which can be read back however often they are written. -/
structure Written (u : UnicodeTables) (ft : FloatText) (file : Option (List Char))
    (rows : List MemoryRecord) : Prop where
  keeps : (format u ft).Keeps file rows
  nodup : (rows.map MemoryRecord.id).Nodup
  tidy : ∀ r ∈ rows, Tidy u ft r

theorem plain_str (id : UUID) : Plain id.str := by
  apply plain_of_digits
  intro c hc
  by_cases hhyphen : c = '-'
  · exact Or.inl hhyphen
  · have hmem : c ∈ id.str.toList.filter (· != '-') :=
      List.mem_filter.mpr ⟨hc, by simpa using hhyphen⟩
    rw [UUID.filter_hyphen_str] at hmem
    exact Or.inr (Hex.mem_encode hmem)

theorem kept_emptyLesson (rows : List MemoryRecord) {call : AppendCall} (hnow : Plain call.now)
    (hne : call.now ≠ "") :
    Tidy u ft (emptyLesson u call) ∧ Tidy u ft (numbered rows (emptyLesson u call)) := by
  have htidy : Tidy u ft (emptyLesson u call) := by
    have hsource : (emptyLesson u call).sourceType ≠ "" := by simp [emptyLesson]
    have htexts : (Json.obj ((emptyLesson u call).toDict u).tail).texts =
        ["version", "title", "Reflection Lesson Learned", "content", "", "memory_type",
          "LESSON_LEARNED", "importance", "medium", "lifecycle_status", "active",
          "source_event_ids", call.event.id.str, "source_type", "reflection", "tags", "confidence",
          "retrieval_priority", "reference_count", "last_referenced_at", "created_at", call.now,
          "project_id", call.event.projectId.str] := rfl
    refine tidy_of_plain rfl hsource hne ?_ rfl
    rw [htexts]
    simp only [List.all_cons, List.all_nil, plain_str, hnow, decide_true, Bool.true_and,
      Bool.and_true]
    decide
  refine ⟨htidy, ?_⟩
  obtain ⟨v, hv⟩ := exists_numbered_emptyLesson rows u call
  rw [hv]
  exact htidy

end MarkdownMemoryProvider

/-! ## Every cycle -/

section

open ReflectionStateProjection

/-- With both providers, the reflections of a cycle become lessons as they should exactly if the
cycle has no candidate. -/
theorem lessons_iff (x : ReflectionEngine) (order : SetOrder String) (events : List EventRecord)
    (records : List ExecutionLearningRecord) (config : ReflectionConfig) (createdAt : String)
    {report : ReflectionReport} {bundle : ReflectionEventBundle}
    (hproject : project x order events records config createdAt = .ok (report, bundle))
    {generated : List GeneratedEvent}
    (hgenerated : generated.map GeneratedEvent.payload = bundle.generated)
    (hids : (generated.map fun e => e.call.event.id).Nodup) :
    (∀ rows, SQLiteMemoryProvider.Writable rows →
      (∀ e ∈ generated, ∀ r ∈ rows, ¬ e.Names r) →
      ∃ rows', (generated.map fun e => MemoryOp.appendEvent e.call).foldl
          (SQLiteMemoryProvider.provider.step x.unicode) (some rows) = some rows' ∧
        (Taught generated rows' ↔
          ReflectionCandidateBuilder.Quiet x.unicode config records)) ∧
    (∀ file rows, MarkdownMemoryProvider.Written x.unicode x.float file rows →
      (∀ e ∈ generated, ∀ r ∈ rows, ¬ e.Names r) →
      (∀ e ∈ generated, MarkdownMemoryProvider.Plain e.call.now ∧ e.call.now ≠ "") →
      ∃ file' rows', (generated.map fun e => MemoryOp.appendEvent e.call).foldl
          ((MarkdownMemoryProvider.provider x.unicode x.float).step x.unicode) (some file) =
            some file' ∧
        (∀ now, MarkdownMemoryProvider.getAllRecords x.unicode x.float file' now = some rows') ∧
        (Taught generated rows' ↔
          ReflectionCandidateBuilder.Quiet x.unicode config records)) := by
  constructor
  · intro rows hrows hfresh
    obtain ⟨table, rows', hrun, ⟨rfl, -⟩, htaught⟩ := SQLiteMemoryProvider.faithful.taught_iff
      ⟨rfl, hrows.nodup, hrows.fits⟩ hproject hgenerated hids hfresh
      fun e _ => hrows.kept_emptyLesson e.call
    exact ⟨table, hrun, htaught⟩
  · intro file rows hrows hfresh hnow
    obtain ⟨file', rows', hrun, ⟨hkeeps, -⟩, htaught⟩ :=
      MarkdownMemoryProvider.faithful.taught_iff ⟨hrows.keeps, hrows.nodup, hrows.tidy⟩ hproject
        hgenerated hids hfresh fun e he =>
          MarkdownMemoryProvider.kept_emptyLesson rows (hnow e he).1 (hnow e he).2
    exact ⟨file', rows', hrun, hkeeps.read, htaught⟩

open ReflectionHistory

theorem exists_project_complaint : ∃ report p,
    project exactEngine complaintCycle.order [] complaintCycle.learningRecords
      complaintCycle.config complaintCycle.createdAt = .ok (report, ⟨[p]⟩) := by
  obtain ⟨candidate, hbuild, -⟩ := buildCandidates_complaintCycle
  obtain ⟨report, -, hproject⟩ := coherent_empty.project_eq exactEngine complaintCycle
  rw [newOf, hbuild] at hproject
  exact ⟨report, _, hproject⟩

/-- The payload of the complaints, appended at some time. -/
def complaintEvent (p : ReflectionGeneratedPayload) : GeneratedEvent :=
  ⟨p, ⟨complaintCycle.event 0 p, "2026-01-02T00:00:00"⟩, rfl, rfl⟩

theorem map_payload_complaintEvent (p : ReflectionGeneratedPayload) :
    [complaintEvent p].map GeneratedEvent.payload = (ReflectionEventBundle.mk [p]).generated := rfl

theorem writable_nil : SQLiteMemoryProvider.Writable [] := ⟨by simp, by simp, by simp⟩

/-- The approved reflection of the complaints becomes no lesson of its own. -/
theorem not_taught_complaint : ∃ report p,
    project exactEngine complaintCycle.order [] complaintCycle.learningRecords
      complaintCycle.config complaintCycle.createdAt = .ok (report, ⟨[p]⟩) ∧
    ∃ rows', [MemoryOp.appendEvent (complaintEvent p).call].foldl
        (SQLiteMemoryProvider.provider.step .asciiOnly) (some []) = some rows' ∧
      ¬ Taught [complaintEvent p] rows' := by
  obtain ⟨report, p, hproject⟩ := exists_project_complaint
  have hnone : ∀ e ∈ [complaintEvent p], ∀ r ∈ ([] : List MemoryRecord), ¬ e.Names r := by simp
  obtain ⟨table, rows', hrun, ⟨rfl, -⟩, htaught⟩ := SQLiteMemoryProvider.faithful.taught_iff
    ⟨rfl, writable_nil.nodup, writable_nil.fits⟩ hproject (map_payload_complaintEvent p)
    (List.nodup_singleton _) hnone fun e _ => writable_nil.kept_emptyLesson e.call
  exact ⟨report, p, hproject, table, hrun, fun h => not_quiet_complaintCycle (htaught.mp h)⟩

/-- Both providers, starting from nothing, with the payload of the complaints. -/
theorem lessons_iff_complaint : ∃ report p,
    project exactEngine complaintCycle.order [] complaintCycle.learningRecords
      complaintCycle.config complaintCycle.createdAt = .ok (report, ⟨[p]⟩) ∧
    (∃ rows', [MemoryOp.appendEvent (complaintEvent p).call].foldl
        (SQLiteMemoryProvider.provider.step .asciiOnly) (some []) = some rows' ∧
      (Taught [complaintEvent p] rows' ↔ ReflectionCandidateBuilder.Quiet .asciiOnly
        complaintCycle.config complaintCycle.learningRecords)) ∧
    ∃ file' rows', [MemoryOp.appendEvent (complaintEvent p).call].foldl
        ((MarkdownMemoryProvider.provider .asciiOnly .zeroOne).step .asciiOnly) (some none) =
          some file' ∧
      (∀ now, MarkdownMemoryProvider.getAllRecords .asciiOnly .zeroOne file' now = some rows') ∧
      (Taught [complaintEvent p] rows' ↔ ReflectionCandidateBuilder.Quiet .asciiOnly
        complaintCycle.config complaintCycle.learningRecords) := by
  obtain ⟨report, p, hproject⟩ := exists_project_complaint
  have hboth := lessons_iff exactEngine complaintCycle.order [] complaintCycle.learningRecords
    complaintCycle.config complaintCycle.createdAt hproject (map_payload_complaintEvent p)
    (List.nodup_singleton _)
  refine ⟨report, p, hproject, hboth.1 [] writable_nil (by simp), hboth.2 none []
    ⟨MarkdownFormat.keeps_none, by simp, by simp⟩ (by simp) fun e he => ?_⟩
  obtain rfl := List.mem_singleton.mp he
  have hnow : MarkdownMemoryProvider.Plain "2026-01-02T00:00:00" ∧ "2026-01-02T00:00:00" ≠ "" :=
    ⟨by decide, by decide⟩
  exact hnow

end

end RationaleVault
