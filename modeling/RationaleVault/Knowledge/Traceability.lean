import RationaleVault.Knowledge.Resynthesis
import RationaleVault.Knowledge.Store
import RationaleVault.Library.Fold
import RationaleVault.Memory.Bookkeeping

/-!
# Tracing knowledge to source events

An object names the memories it is drawn from, and its provenance lists source events. The
detectors of clusters collect the events of all members; a decision lineage lists those of the
decision and leaves out those of its rationale.

Memories and knowledge are written by processes that read one table and write the other, with any
steps of other processes in between. Memories are replaced but never taken out, so what was drawn
from them stays traceable.
-/

namespace RationaleVault

namespace KnowledgeSynthesizer

variable {u : UnicodeTables} {float : ℚ → FloatLit} {ctx : Context} {memories : List MemoryRecord}

/-! ## Groups are made of memories -/

theorem mem_of_mem_clusterFrom {threshold : ℚ} {l : List MemoryRecord} {visited : List String}
    {g : List MemoryRecord} (h : g ∈ clusterFrom u threshold l visited) {m : MemoryRecord}
    (hm : m ∈ g) : m ∈ l := by
  induction l generalizing visited with
  | nil => cases h
  | cons m1 rest ih =>
      rw [clusterFrom] at h
      split at h
      · exact List.mem_cons_of_mem m1 (ih h)
      · dsimp only at h
        split at h
        · rcases List.mem_cons.mp h with rfl | h
          · rcases List.mem_cons.mp hm with rfl | hm
            · exact List.mem_cons_self
            · exact List.mem_cons_of_mem m1 (List.mem_of_mem_filter hm)
          · exact List.mem_cons_of_mem m1 (ih h)
        · exact List.mem_cons_of_mem m1 (ih h)

theorem mem_of_mem_ofType {t : MemoryType} {m : MemoryRecord} (h : m ∈ ofType t memories) :
    m ∈ memories :=
  List.mem_of_mem_filter h

theorem mem_sourceMemories {dec m : MemoryRecord} :
    m ∈ sourceMemories u memories dec ↔
      m = dec ∨ findMatchingRationale u dec (ofType .decisionRationale memories) = some m := by
  rw [sourceMemories, List.mem_cons, Option.mem_toList]

theorem mem_of_mem_groups {t : KnowledgeType} {g : List MemoryRecord}
    (h : g ∈ groups u memories t) {m : MemoryRecord} (hm : m ∈ g) : m ∈ memories := by
  cases t with
  | projectInvariant =>
      obtain ⟨m', hm', rfl⟩ := List.mem_map.mp h
      rw [List.mem_singleton.mp hm]
      exact List.mem_of_mem_filter hm'
  | architecturePrinciple =>
      rcases List.mem_append.mp h with h | h
      · exact mem_of_mem_ofType (mem_of_mem_clusterFrom h hm)
      · obtain ⟨m', hm', rfl⟩ := List.mem_map.mp h
        rw [List.mem_singleton.mp hm]
        exact mem_of_mem_ofType (List.mem_of_mem_filter hm')
  | decisionLineage =>
      obtain ⟨dec, hdec, rfl⟩ := List.mem_map.mp h
      rcases mem_sourceMemories.mp hm with rfl | hrat
      · exact mem_of_mem_ofType hdec
      · exact mem_of_mem_ofType (List.mem_of_find?_eq_some hrat)
  | lesson => exact mem_of_mem_ofType (mem_of_mem_clusterFrom h hm)
  | failurePattern => exact mem_of_mem_ofType (mem_of_mem_clusterFrom h hm)
  | workflowPattern => exact mem_of_mem_ofType (mem_of_mem_clusterFrom h hm)
  | researchFinding => exact mem_of_mem_ofType (mem_of_mem_clusterFrom h hm)

/-! ## What an object records of its group -/

/-- The source events of a group that an object of a type lists: a decision lineage lists those of
the decision, which comes first. -/
def recordedEvents (t : KnowledgeType) (g : List MemoryRecord) : List String :=
  if t = .decisionLineage then g.head?.toList.flatMap MemoryRecord.sourceEventIds
  else g.flatMap MemoryRecord.sourceEventIds

/-- The object's evidence is the group. -/
structure DrawnFrom (t : KnowledgeType) (k : KnowledgeObject) (g : List MemoryRecord) : Prop where
  supporting : k.supportingMemoryIds = g.map MemoryRecord.id
  sources : k.provenance.sourceMemoryIds = g.map MemoryRecord.id
  evidenceCount : k.provenance.evidenceCount = g.length
  events : ∀ e, e ∈ k.provenance.sourceEventIds ↔ e ∈ recordedEvents t g

theorem forall₂_fromCluster {t : KnowledgeType} (ht : t ≠ .decisionLineage)
    (domain : KnowledgeDomain) (importance : String) (transferability : KnowledgeTransferability)
    (gs : List (List MemoryRecord)) :
    List.Forall₂ (DrawnFrom t)
      (gs.map (fromCluster u float ctx t domain importance transferability)) gs := by
  rw [List.forall₂_map_left_iff, List.forall₂_same]
  intro g _
  refine ⟨rfl, rfl, rfl, fun e => ?_⟩
  rw [recordedEvents, if_neg ht]
  exact List.mem_dedup

/-- The objects of a detector are drawn from its groups, one from each. -/
theorem forall₂_detect (t : KnowledgeType) :
    List.Forall₂ (DrawnFrom t) (detect u float ctx memories t) (groups u memories t) := by
  cases t with
  | projectInvariant =>
      rw [groups, detect, detectProjectInvariants, List.forall₂_map_left_iff,
        List.forall₂_map_right_iff, List.forall₂_same]
      intro mem _
      exact ⟨rfl, rfl, rfl, fun e => by simp [recordedEvents, provenance]⟩
  | decisionLineage =>
      rw [groups, detect, buildDecisionLineage, List.forall₂_map_left_iff,
        List.forall₂_map_right_iff, List.forall₂_same]
      intro dec _
      exact ⟨rfl, rfl, rfl, fun e => by simp [recordedEvents, provenance, sourceMemories]⟩
  | architecturePrinciple => exact forall₂_fromCluster (by decide) _ _ _ _
  | lesson => exact forall₂_fromCluster (by decide) _ _ _ _
  | failurePattern => exact forall₂_fromCluster (by decide) _ _ _ _
  | workflowPattern => exact forall₂_fromCluster (by decide) _ _ _ _
  | researchFinding => exact forall₂_fromCluster (by decide) _ _ _ _

/-! ## Complete provenance -/

/-- The object's provenance names its supporting memories and how many there are, and lists the
source events of the memories of the project with these ids and no others. -/
structure Traceable (memories : List MemoryRecord) (k : KnowledgeObject) : Prop where
  supporting : k.supportingMemoryIds = k.provenance.sourceMemoryIds
  evidenceCount : k.provenance.evidenceCount = k.supportingMemoryIds.length
  sourceEventIds : ∀ e, e ∈ k.provenance.sourceEventIds ↔
    ∃ m ∈ memories, m.id ∈ k.provenance.sourceMemoryIds ∧ e ∈ m.sourceEventIds

/-- The events of all memories with an id of the group are recorded. -/
def RecordsAll (memories : List MemoryRecord) (t : KnowledgeType) (g : List MemoryRecord) : Prop :=
  ∀ m ∈ memories, m.id ∈ g.map MemoryRecord.id → ∀ e ∈ m.sourceEventIds, e ∈ recordedEvents t g

theorem exists_of_mem_recordedEvents {t : KnowledgeType} {g : List MemoryRecord} {e : String}
    (h : e ∈ recordedEvents t g) : ∃ m ∈ g, e ∈ m.sourceEventIds := by
  rw [recordedEvents] at h
  split_ifs at h with ht
  · obtain ⟨m, hm, he⟩ := List.mem_flatMap.mp h
    exact ⟨m, List.mem_of_mem_head? (Option.mem_toList.mp hm), he⟩
  · exact List.mem_flatMap.mp h

theorem traceable_iff {t : KnowledgeType} {g : List MemoryRecord} {k : KnowledgeObject}
    (hg : ∀ m ∈ g, m ∈ memories) (h : DrawnFrom t k g) :
    Traceable memories k ↔ RecordsAll memories t g := by
  constructor
  · intro htraceable m hm hid e he
    rw [← h.events, htraceable.sourceEventIds, h.sources]
    exact ⟨m, hm, hid, he⟩
  · intro hall
    refine ⟨h.supporting.trans h.sources.symm, ?_, fun e => ?_⟩
    · rw [h.evidenceCount, h.supporting, List.length_map]
    · rw [h.events, h.sources]
      constructor
      · intro he
        obtain ⟨m, hm, hem⟩ := exists_of_mem_recordedEvents he
        exact ⟨m, hg m hm, List.mem_map_of_mem hm, hem⟩
      · rintro ⟨m, hm, hid, he⟩
        exact hall m hm hid e he

theorem forall_mem_synthesize_iff {p : KnowledgeObject → Prop} :
    (∀ k ∈ synthesize u float ctx memories, p k) ↔
      ∀ t, ∀ k ∈ detect u float ctx memories t, p k := by
  constructor
  · intro h t k hk
    rw [← filter_synthesize] at hk
    exact h k (List.mem_of_mem_filter hk)
  · intro h k hk
    apply h k.knowledgeType
    rw [← filter_synthesize, List.mem_filter]
    exact ⟨hk, decide_eq_true rfl⟩

/-- What the memories of a project must be like: the matching rationale of a decision adds no
source events, and neither does a memory with the id of one that an object is drawn from. -/
structure Recorded (u : UnicodeTables) (memories : List MemoryRecord) : Prop where
  rationales : ∀ dec ∈ ofType .decision memories, ∀ rat,
    findMatchingRationale u dec (ofType .decisionRationale memories) = some rat →
      ∀ e ∈ rat.sourceEventIds, e ∈ dec.sourceEventIds
  namesakes : ∀ t, ∀ g ∈ groups u memories t, ∀ m ∈ memories, m.id ∈ g.map MemoryRecord.id →
    ∀ e ∈ m.sourceEventIds, ∃ m' ∈ g, e ∈ m'.sourceEventIds

/-- Where memories have ids of their own only rationales can add events. -/
theorem recorded_iff_of_nodup (hids : (memories.map MemoryRecord.id).Nodup) :
    Recorded u memories ↔ ∀ dec ∈ ofType .decision memories, ∀ rat,
      findMatchingRationale u dec (ofType .decisionRationale memories) = some rat →
        ∀ e ∈ rat.sourceEventIds, e ∈ dec.sourceEventIds := by
  refine ⟨Recorded.rationales, fun h => ⟨h, fun t g hg m hm hid e he => ?_⟩⟩
  obtain ⟨m', hm', heq⟩ := List.mem_map.mp hid
  have hsame : m' = m := List.inj_on_of_nodup_map hids (mem_of_mem_groups hg hm') hm heq
  exact ⟨m', hm', hsame ▸ he⟩

theorem recorded_iff :
    Recorded u memories ↔ ∀ t, ∀ g ∈ groups u memories t, RecordsAll memories t g := by
  have hlineage : ∀ dec, recordedEvents .decisionLineage (sourceMemories u memories dec) =
      dec.sourceEventIds := by
    intro dec
    simp [recordedEvents, sourceMemories]
  constructor
  · intro h t g hg m hm hid e he
    obtain ⟨m', hm', he'⟩ := h.namesakes t g hg m hm hid e he
    by_cases ht : t = .decisionLineage
    · subst ht
      obtain ⟨dec, hdec, rfl⟩ := List.mem_map.mp hg
      rw [hlineage]
      rcases mem_sourceMemories.mp hm' with rfl | hrat
      · exact he'
      · exact h.rationales dec hdec m' hrat e he'
    · rw [recordedEvents, if_neg ht]
      exact List.mem_flatMap.mpr ⟨m', hm', he'⟩
  · intro h
    refine ⟨fun dec hdec rat hrat e he => ?_, fun t g hg m hm hid e he =>
      exists_of_mem_recordedEvents (h t g hg m hm hid e he)⟩
    have hgroup : sourceMemories u memories dec ∈ groups u memories .decisionLineage :=
      List.mem_map_of_mem hdec
    have hmem : rat ∈ sourceMemories u memories dec := mem_sourceMemories.mpr (.inr hrat)
    rw [← hlineage dec]
    exact h .decisionLineage _ hgroup rat (mem_of_mem_groups hgroup hmem)
      (List.mem_map_of_mem hmem) e he

/-- All knowledge of a project has complete provenance exactly when no rationale and no memory of
a repeated id adds source events. -/
theorem synthesizeAll_traceable_iff (u : UnicodeTables) (float : ℚ → FloatLit) (ctx : Context)
    (allMemories : List MemoryRecord) (existingKnowledge : Option (List KnowledgeObject)) :
    (∀ k ∈ (synthesizeAll u float allMemories ctx existingKnowledge).1,
      Traceable (projectMemories allMemories ctx.projectId) k) ↔
      Recorded u (projectMemories allMemories ctx.projectId) := by
  rw [synthesizeAll, forall_mem_synthesize_iff, recorded_iff]
  apply forall_congr'
  intro t
  exact (forall₂_detect t).forall_mem_iff fun k g hg hk =>
    traceable_iff (fun _ hm => mem_of_mem_groups hg hm) hk

/-- A decision, and a rationale that refers to it. -/
def decided : List MemoryRecord :=
  [{ id := "d1", version := 1, title := "Storage", content := "use postgres"
     memoryType := .decision, importance := "high", lifecycleStatus := "ACTIVE"
     sourceEventIds := ["e1"], sourceType := "event", createdAt := "", projectId := "p1" },
   { id := "r1", version := 1, title := "Why", content := "it is durable"
     memoryType := .decisionRationale, importance := "high", lifecycleStatus := "ACTIVE"
     sourceEventIds := ["d1", "e2"], sourceType := "event", createdAt := "", projectId := "p1" }]

/-- The lineage names both memories and lists the events of one. -/
theorem synthesizeAll_decided :
    ∃ k ∈ (synthesizeAll .asciiOnly (fun _ => .one) decided ⟨"p1", "", ""⟩ none).1,
      k.provenance.sourceMemoryIds = ["d1", "r1"] ∧ k.provenance.sourceEventIds = ["e1"] ∧
        ¬Traceable (projectMemories decided "p1") k := by
  refine ⟨_, List.mem_append_right _ List.mem_cons_self, by decide +kernel, rfl, fun h => ?_⟩
  have hevent := (h.sourceEventIds "e2").mpr (by decide +kernel)
  exact absurd (List.mem_singleton.mp hevent) (by decide)

end KnowledgeSynthesizer

/-! ## Looking up the sources -/

namespace Lineage

/-- `{m.id: m for m in provider.get_all_records()}`. -/
def allMemories (records : List MemoryRecord) : OrdDict String MemoryRecord :=
  .ofList (records.map fun m => (m.id, m))

/-- `build_provenance_chain(knowledge_id, source_memory_ids, synthesis_event_id)` at the time
`now`. -/
def buildProvenanceChain (float : ℚ → FloatLit) (records : List MemoryRecord)
    (knowledgeId : String) (sourceMemoryIds : List String) (synthesisEventId now : String) :
    ProvenanceChain :=
  let found := sourceMemoryIds.filterMap (allMemories records).get?
  { knowledgeId := knowledgeId
    sourceMemoryIds := sourceMemoryIds
    sourceEventIds := (found.flatMap MemoryRecord.sourceEventIds).dedup
    synthesisEventId := synthesisEventId
    confidence := KnowledgeSynthesizer.computeConfidence float found
    evidenceCount := found.length
    createdAt := now }

/-- `verify_provenance(knowledge)`. -/
def verifyProvenance (records : List MemoryRecord) (knowledge : KnowledgeObject) : Bool :=
  knowledge.provenance.sourceMemoryIds.all fun mid => (records.map MemoryRecord.id).contains mid

/-- An entry of `get_memory_lineage`. -/
structure LineageEntry where
  memoryId : String
  eventId : String
  memoryType : String
  sourceType : String
  deriving DecidableEq

/-- `get_memory_lineage(memory_id)`. -/
def getMemoryLineage (records : List MemoryRecord) (memoryId : String) : List LineageEntry :=
  match (allMemories records).get? memoryId with
  | some mem => mem.sourceEventIds.map fun eventId =>
      ⟨memoryId, eventId, mem.memoryType.value, mem.sourceType⟩
  | none => []

end Lineage

/-! ## Processes that write the two tables -/

/-- The record that the command `memory add` builds. -/
def MemoryRecord.manual (u : UnicodeTables) (memoryType : MemoryType) (title content : String)
    (tags : List String) (now : String) : MemoryRecord where
  id := generateMemoryId u memoryType.value title content
  version := 1
  title := title
  content := content
  memoryType := memoryType
  importance := "medium"
  lifecycleStatus := "active"
  sourceEventIds := []
  sourceType := "manual"
  tags := tags
  createdAt := now

/-- What a process still has to write. -/
structure Writer where
  memories : List MemoryRecord := []
  objects : List KnowledgeObject := []

/-- The ids of the recorded events, the two tables and the processes. -/
structure Stores (ι : Type) where
  events : List String := []
  memories : List MemoryRecord := []
  knowledge : List KnowledgeObject := []
  writers : ι → Writer := fun _ => {}

/-- One step of a process. Each is one access to a table, and processes may stop at any time. -/
inductive StoreStep (ι : Type)
  /-- An event is recorded, and the memories drawn from it have to be written. -/
  | record (i : ι) (call : AppendCall)
  /-- The memory that a `supersedes` field names is read. -/
  | supersede (i : ι) (supersedes : String)
  /-- A referenced memory is read. -/
  | reference (i : ι) (memoryId now : String)
  /-- A memory is entered by hand. -/
  | enter (i : ι) (memoryType : MemoryType) (title content : String) (tags : List String)
      (now : String)
  /-- The next memory is written. -/
  | addRecord (i : ι)
  /-- Knowledge is synthesized from all memories. -/
  | synthesize (i : ι) (ctx : KnowledgeSynthesizer.Context)
  /-- The next object is written. -/
  | addKnowledge (i : ι)
  | updateLifecycle (knowledgeId status now : String)
  | stop (i : ι)

namespace Stores

variable {ι : Type} [DecidableEq ι] (u : UnicodeTables) (float : ℚ → FloatLit)

/-- Memories that a process has to write besides those it still has. -/
def await (w : Stores ι) (i : ι) (ms : List MemoryRecord) : Stores ι :=
  { w with
    writers := Function.update w.writers i
      { w.writers i with memories := (w.writers i).memories ++ ms } }

/-- The outcome of a step. A process that meets an exception writes nothing more of its kind. -/
def step (w : Stores ι) : StoreStep ι → Stores ι
  | .record i call =>
      { w.await i (emitted u call) with events := call.event.id.str :: w.events }
  | .supersede i supersedes =>
      w.await i ((w.memories.find? (SQLiteMemoryProvider.names u supersedes)).map
        SQLiteMemoryProvider.retired).toList
  | .reference i memoryId now =>
      w.await i ((w.memories.find? fun r => r.id = memoryId).map (referenced · now)).toList
  | .enter i memoryType title content tags now =>
      w.await i [.manual u memoryType title content tags now]
  | .addRecord i =>
      match (w.writers i).memories with
      | [] => w
      | m :: rest =>
          match SQLiteMemoryProvider.addRecord w.memories m with
          | .ok memories =>
              { w with
                memories := memories
                writers := Function.update w.writers i { w.writers i with memories := rest } }
          | .error _ =>
              { w with writers := Function.update w.writers i { w.writers i with memories := [] } }
  | .synthesize i ctx =>
      let knowledge := (KnowledgeSynthesizer.synthesizeAll u float w.memories ctx
        (some w.knowledge)).1
      { w with
        writers := Function.update w.writers i
          { w.writers i with objects := (w.writers i).objects ++ knowledge } }
  | .addKnowledge i =>
      match (w.writers i).objects with
      | [] => w
      | k :: rest =>
          match SQLiteKnowledgeProvider.addKnowledge w.knowledge k with
          | .ok knowledge =>
              { w with
                knowledge := knowledge
                writers := Function.update w.writers i { w.writers i with objects := rest } }
          | .error _ =>
              { w with writers := Function.update w.writers i { w.writers i with objects := [] } }
  | .updateLifecycle knowledgeId status now =>
      { w with
        knowledge := SQLiteKnowledgeProvider.updateLifecycle w.knowledge knowledgeId status now }
  | .stop i => { w with writers := Function.update w.writers i {} }

def run (w : Stores ι) (steps : List (StoreStep ι)) : Stores ι := steps.foldl (step u float) w

/-! ## What stays traceable -/

/-- The events of a memory were recorded. -/
def Recorded (events : List String) (m : MemoryRecord) : Prop := ∀ e ∈ m.sourceEventIds, e ∈ events

/-- The memories of an object are stored and counted, and its events were recorded. -/
structure Backed (events : List String) (memories : List MemoryRecord) (k : KnowledgeObject) :
    Prop where
  sources : ∀ mid ∈ k.provenance.sourceMemoryIds, mid ∈ memories.map MemoryRecord.id
  count : k.provenance.evidenceCount = k.provenance.sourceMemoryIds.length
  recorded : ∀ e ∈ k.provenance.sourceEventIds, e ∈ events

/-- What is stored and what still has to be written is traceable. -/
structure Traced (w : Stores ι) : Prop where
  memories : ∀ m ∈ w.memories, Recorded w.events m
  knowledge : ∀ k ∈ w.knowledge, Backed w.events w.memories k
  awaited : ∀ i, (∀ m ∈ (w.writers i).memories, Recorded w.events m) ∧
    ∀ k ∈ (w.writers i).objects, Backed w.events w.memories k

variable {u float} {w : Stores ι}

omit [DecidableEq ι] in
/-- More events and more memories do no harm. -/
theorem Traced.grow {events : List String} {memories : List MemoryRecord} (h : Traced w)
    (hevents : w.events ⊆ events)
    (hids : w.memories.map MemoryRecord.id ⊆ memories.map MemoryRecord.id)
    (hmemories : ∀ m ∈ memories, m ∈ w.memories ∨ Recorded events m) :
    Traced { w with events := events, memories := memories } := by
  have hrecorded : ∀ m, Recorded w.events m → Recorded events m :=
    fun m hm e he => hevents (hm e he)
  have hbacked : ∀ k, Backed w.events w.memories k → Backed events memories k := fun k hk =>
    ⟨fun mid hmid => hids (hk.sources mid hmid), hk.count, fun e he => hevents (hk.recorded e he)⟩
  constructor
  · exact fun m hm => (hmemories m hm).elim (fun hold => hrecorded m (h.memories m hold)) id
  · exact fun k hk => hbacked k (h.knowledge k hk)
  · exact fun i => ⟨fun m hm => hrecorded m ((h.awaited i).1 m hm),
      fun k hk => hbacked k ((h.awaited i).2 k hk)⟩

/-- A process that has recorded memories and backed objects to write. -/
theorem Traced.update (h : Traced w) (i : ι) {writer : Writer}
    (hmemories : ∀ m ∈ writer.memories, Recorded w.events m)
    (hobjects : ∀ k ∈ writer.objects, Backed w.events w.memories k) :
    Traced { w with writers := Function.update w.writers i writer } where
  memories := h.memories
  knowledge := h.knowledge
  awaited := by
    rw [Function.forall_update_iff w.writers fun _ writer =>
      (∀ m ∈ writer.memories, Recorded w.events m) ∧
        ∀ k ∈ writer.objects, Backed w.events w.memories k]
    exact ⟨⟨hmemories, hobjects⟩, fun j _ => h.awaited j⟩

theorem Traced.await (h : Traced w) (i : ι) {ms : List MemoryRecord}
    (hms : ∀ m ∈ ms, Recorded w.events m) : Traced (w.await i ms) := by
  refine h.update i (fun m hm => ?_) (h.awaited i).2
  rcases List.mem_append.mp hm with hm | hm
  · exact (h.awaited i).1 m hm
  · exact hms m hm

/-- What is synthesized from recorded memories is backed by them. -/
theorem backed_of_mem_synthesize {events : List String} {ctx : KnowledgeSynthesizer.Context}
    {records : List MemoryRecord} (hrecords : ∀ m ∈ records, Recorded events m)
    {k : KnowledgeObject}
    (hk : k ∈ KnowledgeSynthesizer.synthesize u float ctx
      (KnowledgeSynthesizer.projectMemories records ctx.projectId)) : Backed events records k := by
  revert k
  rw [KnowledgeSynthesizer.forall_mem_synthesize_iff]
  intro t k hk
  obtain ⟨g, hg, hk⟩ := (KnowledgeSynthesizer.forall₂_detect t).exists_of_mem hk
  have hgroup : ∀ m ∈ g, m ∈ records := fun m hm =>
    List.mem_of_mem_filter (KnowledgeSynthesizer.mem_of_mem_groups hg hm)
  refine ⟨fun mid hmid => ?_, ?_, fun e he => ?_⟩
  · rw [hk.sources] at hmid
    exact List.map_subset _ hgroup hmid
  · rw [hk.evidenceCount, hk.sources, List.length_map]
  · obtain ⟨m, hm, hem⟩ :=
      KnowledgeSynthesizer.exists_of_mem_recordedEvents ((hk.events e).mp he)
    exact hrecords m (hgroup m hm) e hem

omit [DecidableEq ι] in
/-- Writing a memory replaces the one with its id. -/
theorem Traced.addRecord (h : Traced w) {m : MemoryRecord} (hm : Recorded w.events m)
    {memories : List MemoryRecord}
    (hadd : SQLiteMemoryProvider.addRecord w.memories m = .ok memories) :
    Traced { w with memories := memories } := by
  rw [SQLiteMemoryProvider.addRecord] at hadd
  split at hadd
  · obtain rfl := Except.ok.inj hadd
    obtain ⟨version, hnumbered⟩ : ∃ version,
        SQLiteMemoryProvider.numbered w.memories m = { m with version := version } := by
      rcases numbered_eq w.memories m with heq | ⟨r, -, -, heq⟩
      · exact ⟨m.version, heq⟩
      · exact ⟨_, heq⟩
    rw [hnumbered]
    refine h.grow (List.Subset.refl _) (fun id hid => ?_) fun x hx => ?_
    · obtain ⟨r, hr, rfl⟩ := List.mem_map.mp hid
      by_cases hsame : r.id = m.id
      · exact List.mem_map.mpr ⟨_, Table.mem_replace.mpr (.inr rfl), hsame.symm⟩
      · exact List.mem_map_of_mem (Table.mem_replace.mpr (.inl ⟨hr, hsame⟩))
    · rcases Table.mem_replace.mp hx with ⟨hx, -⟩ | rfl
      · exact .inl hx
      · exact .inr hm
  · cases hadd

omit [DecidableEq ι] in
/-- Writing an object replaces the one with its id. -/
theorem Traced.addKnowledge (h : Traced w) {k : KnowledgeObject}
    (hk : Backed w.events w.memories k) {knowledge : List KnowledgeObject}
    (hadd : SQLiteKnowledgeProvider.addKnowledge w.knowledge k = .ok knowledge) :
    Traced { w with knowledge := knowledge } := by
  rw [SQLiteKnowledgeProvider.addKnowledge] at hadd
  split at hadd
  · obtain rfl := Except.ok.inj hadd
    refine ⟨h.memories, fun x hx => ?_, h.awaited⟩
    rcases Table.mem_replace.mp hx with ⟨hx, -⟩ | rfl
    · exact h.knowledge x hx
    · have hprovenance : (SQLiteKnowledgeProvider.row
          (SQLiteKnowledgeProvider.numbered w.knowledge k)).provenance = k.provenance := by
        change (SQLiteKnowledgeProvider.numbered w.knowledge k).provenance = k.provenance
        rw [SQLiteKnowledgeProvider.numbered]
        split
        · split <;> rfl
        · rfl
      obtain ⟨hsources, hcount, hrecorded⟩ := hk
      constructor <;> rwa [hprovenance]
  · cases hadd

omit [DecidableEq ι] in
theorem Traced.updateLifecycle (h : Traced w) (knowledgeId status now : String) :
    Traced { w with
      knowledge := SQLiteKnowledgeProvider.updateLifecycle w.knowledge knowledgeId status now } := by
  refine ⟨h.memories, fun x hx => ?_, h.awaited⟩
  obtain ⟨k, hk, rfl⟩ := List.mem_map.mp hx
  obtain ⟨hsources, hcount, hrecorded⟩ := h.knowledge k hk
  split
  · exact ⟨hsources, hcount, hrecorded⟩
  · exact ⟨hsources, hcount, hrecorded⟩

theorem Traced.step (h : Traced w) (s : StoreStep ι) : Traced (w.step u float s) := by
  cases s with
  | record i call =>
      have hgrown : Traced { w with events := call.event.id.str :: w.events } :=
        h.grow (List.subset_cons_self _ _) (List.Subset.refl _) fun m hm => .inl hm
      refine hgrown.await i fun m hm e he => ?_
      rw [((emitted_spec u call).2 m hm).sourceEventIds_eq] at he
      exact List.mem_singleton.mp he ▸ List.mem_cons_self
  | supersede i supersedes =>
      refine h.await i fun m hm => ?_
      obtain ⟨target, htarget, rfl⟩ := Option.mem_map.mp (Option.mem_toList.mp hm)
      exact h.memories target (List.mem_of_find?_eq_some htarget)
  | reference i memoryId now =>
      refine h.await i fun m hm => ?_
      obtain ⟨record, hrecord, rfl⟩ := Option.mem_map.mp (Option.mem_toList.mp hm)
      exact h.memories record (List.mem_of_find?_eq_some hrecord)
  | enter i memoryType title content tags now =>
      refine h.await i fun m hm e he => ?_
      rw [List.mem_singleton.mp hm] at he
      cases he
  | addRecord i =>
      rw [Stores.step]
      split
      · exact h
      · rename_i m rest hrest
        have hwriter := (h.awaited i).1
        rw [hrest, List.forall_mem_cons] at hwriter
        split
        · rename_i memories hadd
          have hadded := h.addRecord hwriter.1 hadd
          exact hadded.update i hwriter.2 (hadded.awaited i).2
        · exact h.update i (fun _ hm => by cases hm) (h.awaited i).2
  | synthesize i ctx =>
      refine h.update i (h.awaited i).1 fun k hk => ?_
      rcases List.mem_append.mp hk with hk | hk
      · exact (h.awaited i).2 k hk
      · exact backed_of_mem_synthesize h.memories hk
  | addKnowledge i =>
      rw [Stores.step]
      split
      · exact h
      · rename_i k rest hrest
        have hwriter := (h.awaited i).2
        rw [hrest, List.forall_mem_cons] at hwriter
        split
        · rename_i knowledge hadd
          exact (h.addKnowledge hwriter.1 hadd).update i (h.awaited i).1 hwriter.2
        · exact h.update i (h.awaited i).1 fun _ hk => by cases hk
  | updateLifecycle knowledgeId status now => exact h.updateLifecycle knowledgeId status now
  | stop i => exact h.update i (fun _ hm => by cases hm) fun _ hk => by cases hk

theorem traced_run (u : UnicodeTables) (float : ℚ → FloatLit) (steps : List (StoreStep ι)) :
    Traced (run u float {} steps) := by
  have hall : ∀ {w : Stores ι}, Traced w → Traced (w.run u float steps) := by
    induction steps with
    | nil => exact fun h => h
    | cons s rest ih => exact fun h => ih (h.step s)
  apply hall
  constructor
  · intro m hm
    cases hm
  · intro k hk
    cases hk
  · intro i
    constructor
    · intro m hm
      cases hm
    · intro k hk
      cases hk

end Stores

/-! ## What can be looked up -/

namespace Lineage

theorem mem_of_get?_allMemories {records : List MemoryRecord} {id : String} {m : MemoryRecord}
    (h : (allMemories records).get? id = some m) : m ∈ records := by
  obtain ⟨before, e, after, hsplit, -, rfl, -⟩ := OrdDict.get?_ofList_eq_some_iff.mp h
  have hmem : e ∈ records.map fun m => (m.id, m) := by
    rw [hsplit]
    exact List.mem_append_right _ List.mem_cons_self
  obtain ⟨m, hm, rfl⟩ := List.mem_map.mp hmem
  exact hm

theorem exists_get?_allMemories {records : List MemoryRecord} {id : String}
    (h : id ∈ records.map MemoryRecord.id) : ∃ m, (allMemories records).get? id = some m := by
  obtain ⟨m, hm, rfl⟩ := List.mem_map.mp h
  have hcontains : (allMemories records).contains m.id :=
    OrdDict.contains_ofList (List.mem_map_of_mem hm)
  exact Option.isSome_iff_exists.mp hcontains

end Lineage

namespace Stores

open Lineage

variable {ι : Type} [DecidableEq ι]

/-- What holds of the stored knowledge. -/
structure Verified (float : ℚ → FloatLit) (w : Stores ι) : Prop where
  verified : ∀ k ∈ w.knowledge, verifyProvenance w.memories k = true
  /-- The chain can be built again, from all the memories that were counted. -/
  rebuilt : ∀ k ∈ w.knowledge, ∀ synthesisEventId now,
    let chain := buildProvenanceChain float w.memories k.id k.provenance.sourceMemoryIds
      synthesisEventId now
    chain.evidenceCount = k.provenance.evidenceCount ∧ ∀ e ∈ chain.sourceEventIds, e ∈ w.events
  recorded : ∀ k ∈ w.knowledge, ∀ e ∈ k.provenance.sourceEventIds, e ∈ w.events
  lineage : ∀ id, ∀ entry ∈ getMemoryLineage w.memories id, entry.eventId ∈ w.events

/-- Whatever the processes do and whenever they stop, all stored knowledge can be verified and
leads to recorded events only. -/
theorem verified_of_run (u : UnicodeTables) (float : ℚ → FloatLit) (steps : List (StoreStep ι)) :
    Verified float (run u float {} steps) := by
  have h := traced_run u float steps
  generalize run u float {} steps = w at h
  constructor
  · intro k hk
    rw [verifyProvenance, List.all_eq_true]
    exact fun mid hmid => List.contains_iff_mem.mpr ((h.knowledge k hk).sources mid hmid)
  · intro k hk synthesisEventId now
    constructor
    · have hfound : ∀ mid ∈ k.provenance.sourceMemoryIds,
          ((allMemories w.memories).get? mid).isSome := fun mid hmid =>
        Option.isSome_iff_exists.mpr
          (exists_get?_allMemories ((h.knowledge k hk).sources mid hmid))
      change ((k.provenance.sourceMemoryIds.filterMap (allMemories w.memories).get?).length : Int) =
        _
      rw [(h.knowledge k hk).count, Nat.cast_inj, List.length_filterMap_eq_countP,
        List.countP_eq_length]
      exact hfound
    · intro e he
      obtain ⟨m, hm, hem⟩ := List.mem_flatMap.mp (List.mem_dedup.mp he)
      obtain ⟨mid, -, hmid⟩ := List.mem_filterMap.mp hm
      exact h.memories m (mem_of_get?_allMemories hmid) e hem
  · exact fun k hk => (h.knowledge k hk).recorded
  · intro id entry hentry
    rw [getMemoryLineage] at hentry
    split at hentry
    · rename_i m hm
      obtain ⟨e, he, rfl⟩ := List.mem_map.mp hentry
      exact h.memories m (mem_of_get?_allMemories hm) e he
    · cases hentry

end Stores

end RationaleVault
