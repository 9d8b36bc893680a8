import RationaleVault.Library.Distinct
import RationaleVault.Projections.LastSession

/-!
# The sessions of a stream

The summaries account for the events of a stream: every event of a session stands
in one summary, at the place of its sequence. What is summarised depends on the
events alone and not on the order in which they are handed over.
-/

namespace RationaleVault

namespace SessionProjection

/-! ## One session -/

/-- The events with the session id. -/
def eventsOf (events : List EventRecord) (sessionId : String) : List EventRecord :=
  events.filter fun e => e.metadata.sessionId = sessionId

theorem mem_eventsOf {events : List EventRecord} {sessionId : String} {e : EventRecord} :
    e ∈ eventsOf events sessionId ↔ e ∈ events ∧ e.metadata.sessionId = sessionId := by
  simp [eventsOf]

theorem mem_bySequence {group : List EventRecord} {e : EventRecord} :
    e ∈ bySequence group ↔ e ∈ group := List.mem_insertionSort _

/-- Events with distinct sequences are put in one order. -/
theorem bySequence_eq_of_perm {group group' : List EventRecord} (hperm : group.Perm group')
    (hseqs : (group.map EventRecord.eventSequence).Nodup) :
    bySequence group = bySequence group' :=
  Table.orderBy_eq_of_perm hperm hseqs

theorem pairwise_bySequence {group : List EventRecord}
    (hseqs : (group.map EventRecord.eventSequence).Nodup) :
    (bySequence group).Pairwise fun e e' => e.eventSequence < e'.eventSequence := by
  have hle : (bySequence group).Pairwise fun e e' => e.eventSequence ≤ e'.eventSequence :=
    (Table.ordered_orderBy EventRecord.eventSequence group).sorted
  have hperm : (bySequence group).Perm group :=
    Table.orderBy_perm EventRecord.eventSequence group
  have hne : (bySequence group).Pairwise fun e e' => e.eventSequence ≠ e'.eventSequence :=
    List.pairwise_map.mp ((hperm.map EventRecord.eventSequence).nodup_iff.mpr hseqs)
  exact hle.imp₂ (fun _ _ hle hne => lt_of_le_of_ne hle hne) hne

/-- A session with events is summarised. -/
theorem exists_summary_of_ne_nil {group : List EventRecord} (hne : group ≠ [])
    (sessionId : String) : ∃ s, summary sessionId group = some s ∧ s.sessionId = sessionId ∧
      s.eventCount = group.length ∧
      s.sourceEventSeqs = (bySequence group).map EventRecord.eventSequence ∧
      s.eventTypesSeen =
        (Distinct.firsts (fun e : EventRecord => e.eventType.value) (bySequence group)).map
          fun e => e.eventType.value := by
  have hlength : (bySequence group).length = group.length :=
    (Table.orderBy_perm EventRecord.eventSequence group).length_eq
  have hsorted : bySequence group ≠ [] := by
    rw [← List.length_pos_iff, hlength]
    exact List.length_pos_iff.mpr hne
  rw [summary, List.head?_eq_some_head hsorted, List.getLast?_eq_some_getLast hsorted]
  exact ⟨_, rfl, rfl, hlength, rfl,
    Distinct.foldl_keys (fun e : EventRecord => e.eventType.value) (bySequence group)⟩

/-- The largest sequence that a summary is sorted by is one of its own. -/
theorem sortKey_mem {s : SessionSummary} (hne : s.sourceEventSeqs ≠ []) :
    (sortKey s).2 ∈ s.sourceEventSeqs := Table.maxD_mem (d := 0) hne

/-! ## What a summary records -/

/-- The type is met in the session before the other one. -/
def MetBefore (events : List EventRecord) (sessionId type type' : String) : Prop :=
  ∀ e ∈ eventsOf events sessionId, e.eventType.value = type' →
    ∃ first ∈ eventsOf events sessionId, first.eventType.value = type ∧
      first.eventSequence < e.eventSequence

/-- The summary of the events with its session id. -/
structure Records (events : List EventRecord) (s : SessionSummary) : Prop where
  named : s.sessionId ≠ ""
  mem_seqs : ∀ n, n ∈ s.sourceEventSeqs ↔
    ∃ e ∈ eventsOf events s.sessionId, e.eventSequence = n
  increasing : s.sourceEventSeqs.Pairwise fun n n' => n < n'
  counted : s.eventCount = s.sourceEventSeqs.length
  mem_types : ∀ type, type ∈ s.eventTypesSeen ↔
    ∃ e ∈ eventsOf events s.sessionId, e.eventType.value = type
  types_once : s.eventTypesSeen.Nodup
  types_met : s.eventTypesSeen.Pairwise (MetBefore events s.sessionId)

variable {events : List EventRecord}

theorem eventsOf_seqs (hseqs : (events.map EventRecord.eventSequence).Nodup)
    (sessionId : String) :
    ((eventsOf events sessionId).map EventRecord.eventSequence).Nodup :=
  hseqs.sublist (List.filter_sublist.map EventRecord.eventSequence)

/-- The first events of their types, one of which is met before the other. -/
theorem pairwise_firsts (hseqs : (events.map EventRecord.eventSequence).Nodup)
    (sessionId : String) :
    ((Distinct.firsts (fun e : EventRecord => e.eventType.value)
      (bySequence (eventsOf events sessionId))).map fun e => e.eventType.value).Pairwise
        (MetBefore events sessionId) := by
  have hsorted := pairwise_bySequence (eventsOf_seqs hseqs sessionId)
  apply List.pairwise_map.mpr
  refine (hsorted.sublist (Distinct.firsts_sublist _)).imp_of_mem ?_
  intro first first' hfirst hfirst' hlt e he htype
  refine ⟨first, mem_bySequence.mp (Distinct.mem_of_mem_firsts hfirst), rfl, ?_⟩
  rcases Distinct.eq_or_rel_of_mem_firsts hsorted hfirst' (mem_bySequence.mpr he) htype with
    rfl | hlater
  · exact hlt
  · exact hlt.trans hlater

theorem exists_records (hseqs : (events.map EventRecord.eventSequence).Nodup)
    {sessionId : String} (hsession : sessionId ∈ events.map fun e => e.metadata.sessionId)
    (hnamed : sessionId ≠ "") :
    ∃ s, summary sessionId (eventsOf events sessionId) = some s ∧ s.sessionId = sessionId ∧
      Records events s := by
  obtain ⟨e, he, hid⟩ := List.mem_map.mp hsession
  have hne : eventsOf events sessionId ≠ [] :=
    List.ne_nil_of_mem (mem_eventsOf.mpr ⟨he, hid⟩)
  obtain ⟨s, hs, rfl, hcount, hlist, htypes⟩ := exists_summary_of_ne_nil hne sessionId
  refine ⟨s, hs, rfl, hnamed, ?_, ?_, ?_, ?_, ?_, ?_⟩
  · intro n
    simp only [hlist, List.mem_map, mem_bySequence]
  · rw [hlist]
    exact List.pairwise_map.mpr (pairwise_bySequence (eventsOf_seqs hseqs s.sessionId))
  · rw [hcount, hlist, List.length_map]
    exact (Table.orderBy_perm EventRecord.eventSequence _).length_eq.symm
  · intro type
    rw [htypes, Distinct.mem_map_firsts]
    simp only [List.mem_map, mem_bySequence]
  · exact htypes ▸ Distinct.nodup_map_firsts _
  · exact htypes ▸ pairwise_firsts hseqs s.sessionId

/-! ## All sessions -/

/-- The session ids of a stream in the order in which they are met. -/
def sessionIds (events : List EventRecord) : List String :=
  (sessionsOf (events.filter fun e => e.metadata.sessionId ≠ "")).keys

theorem nodup_sessionIds (events : List EventRecord) : (sessionIds events).Nodup :=
  OrdDict.normKeys_nodup _

theorem mem_sessionIds {sessionId : String} : sessionId ∈ sessionIds events ↔
    sessionId ∈ (events.map fun e => e.metadata.sessionId) ∧ sessionId ≠ "" := by
  have hkeys : sessionId ∈ sessionIds events ↔ sessionId ∈
      (events.filter fun e => e.metadata.sessionId ≠ "").map fun e => e.metadata.sessionId :=
    Grouping.mem_normKeys_group
  rw [hkeys]
  simp only [List.mem_map, List.mem_filter, decide_eq_true_eq]
  constructor
  · rintro ⟨e, ⟨he, hne⟩, rfl⟩
    exact ⟨⟨e, he, rfl⟩, hne⟩
  · rintro ⟨⟨e, he, rfl⟩, hne⟩
    exact ⟨e, ⟨he, hne⟩, rfl⟩

/-- The summaries of the sessions before they are sorted. -/
def summaries (events : List EventRecord) : List SessionSummary :=
  (sessionIds events).filterMap fun sessionId => summary sessionId (eventsOf events sessionId)

theorem project_eq_summaries (events : List EventRecord) :
    project events = Table.orderByDesc (fun s => toLex (sortKey s)) (summaries events) := by
  have hidem : project events = project (events.filter fun e => e.metadata.sessionId ≠ "") := by
    rw [project, project, List.filter_filter]
    simp only [Bool.and_self]
  rw [hidem, project_eq fun e he => by simpa using (List.mem_filter.mp he).2, summaries,
    sessionIds, OrdDict.keys, List.filterMap_map]
  congr 1
  apply List.filterMap_congr
  intro entry hentry
  obtain ⟨hgroup, hne⟩ := mem_entries_sessionsOf hentry
  obtain ⟨e, he⟩ := List.exists_mem_of_ne_nil _ hne
  rw [hgroup] at he
  have hnamed : entry.1 ≠ "" := by
    obtain ⟨hsession, hid⟩ := List.mem_filter.mp he
    have hid : e.metadata.sessionId = entry.1 := by simpa using hid
    exact hid ▸ by simpa using (List.mem_filter.mp hsession).2
  rw [hgroup, List.filter_filter, Function.comp_apply, eventsOf]
  congr 1
  apply List.filter_congr
  intro e _
  by_cases hid : e.metadata.sessionId = entry.1 <;> simp [hid, hnamed]

theorem mem_project {s : SessionSummary} : s ∈ project events ↔
    ∃ sessionId ∈ sessionIds events,
      summary sessionId (eventsOf events sessionId) = some s := by
  rw [project_eq_summaries, Table.mem_orderByDesc, summaries, List.mem_filterMap]

/-! ## Nothing is lost or counted twice -/

/-- The summaries account for the events of all sessions. -/
structure Accounted (events : List EventRecord) (summaries : List SessionSummary) : Prop where
  once : (summaries.flatMap SessionSummary.sourceEventSeqs).Perm
    ((events.filter fun e => e.metadata.sessionId ≠ "").map EventRecord.eventSequence)
  counted : ∀ e ∈ events, e.metadata.sessionId ≠ "" →
    ∃! s, s ∈ summaries ∧ e.eventSequence ∈ s.sourceEventSeqs
  sessions : (summaries.map SessionSummary.sessionId).Nodup
  records : ∀ s ∈ summaries, Records events s

section Distinct

variable (hseqs : (events.map EventRecord.eventSequence).Nodup)

include hseqs

theorem eq_of_eventSequence {e e' : EventRecord} (he : e ∈ events) (he' : e' ∈ events)
    (h : e.eventSequence = e'.eventSequence) : e = e' :=
  List.inj_on_of_nodup_map hseqs he he' h

theorem summary_of_mem_sessionIds {sessionId : String} (h : sessionId ∈ sessionIds events) :
    ∃ s, summary sessionId (eventsOf events sessionId) = some s ∧ s.sessionId = sessionId ∧
      Records events s := by
  obtain ⟨hsession, hnamed⟩ := mem_sessionIds.mp h
  exact exists_records hseqs hsession hnamed

theorem records_of_mem_project {s : SessionSummary} (hs : s ∈ project events) :
    Records events s := by
  obtain ⟨sessionId, hsession, hsummary⟩ := mem_project.mp hs
  obtain ⟨s', hs', -, hrecords⟩ := summary_of_mem_sessionIds hseqs hsession
  obtain rfl : s' = s := Option.some.inj (hs'.symm.trans hsummary)
  exact hrecords

/-- The summaries stand for the sessions one by one. -/
theorem map_sessionId_summaries :
    (summaries events).map SessionSummary.sessionId = sessionIds events := by
  have hmap : ∀ ids : List String, (∀ id ∈ ids, id ∈ sessionIds events) →
      (ids.filterMap fun id => summary id (eventsOf events id)).map SessionSummary.sessionId =
        ids := by
    intro ids hids
    induction ids with
    | nil => rfl
    | cons id rest ih =>
        obtain ⟨s, hs, hid, -⟩ :=
          summary_of_mem_sessionIds hseqs (hids id List.mem_cons_self)
        rw [List.filterMap_cons_some (f := fun id => summary id (eventsOf events id)) hs,
          List.map_cons, hid, ih fun id' hid' => hids id' (List.mem_cons_of_mem id hid')]
  exact hmap (sessionIds events) fun _ h => h

theorem nodup_project : ((project events).map SessionSummary.sessionId).Nodup := by
  have hperm : (project events).Perm (summaries events) := by
    rw [project_eq_summaries]
    exact List.perm_insertionSort _ _
  rw [(hperm.map SessionSummary.sessionId).nodup_iff, map_sessionId_summaries hseqs]
  exact nodup_sessionIds events

/-- A sequence stands in the summary of one session. -/
theorem eq_of_mem_seqs {s s' : SessionSummary} (hs : s ∈ project events)
    (hs' : s' ∈ project events) {n : Nat} (hn : n ∈ s.sourceEventSeqs)
    (hn' : n ∈ s'.sourceEventSeqs) : s = s' := by
  obtain ⟨e, he, rfl⟩ := ((records_of_mem_project hseqs hs).mem_seqs n).mp hn
  obtain ⟨e', he', hseq⟩ :=
    ((records_of_mem_project hseqs hs').mem_seqs e.eventSequence).mp hn'
  obtain ⟨hmem, hid⟩ := mem_eventsOf.mp he
  obtain ⟨hmem', hid'⟩ := mem_eventsOf.mp he'
  rw [eq_of_eventSequence hseqs hmem' hmem hseq] at hid'
  exact List.inj_on_of_nodup_map (nodup_project hseqs) hs hs' (hid.symm.trans hid')

/-- The largest sequences tell the summaries apart, so no two are sorted alike. -/
theorem nodup_sortKeys : ((summaries events).map fun s => toLex (sortKey s)).Nodup := by
  have hmem : ∀ s, s ∈ summaries events → s ∈ project events := by
    intro s hs
    rw [project_eq_summaries]
    exact Table.mem_orderByDesc.mpr hs
  have hkey : ∀ s ∈ summaries events, (sortKey s).2 ∈ s.sourceEventSeqs := by
    intro s hs
    obtain ⟨sessionId, hsession, hsummary⟩ := mem_project.mp (hmem s hs)
    have hrecords := records_of_mem_project hseqs (hmem s hs)
    obtain ⟨s', hs', hid, -⟩ := summary_of_mem_sessionIds hseqs hsession
    obtain rfl : s' = s := Option.some.inj (hs'.symm.trans hsummary)
    obtain ⟨e, he, hsame⟩ := List.mem_map.mp (mem_sessionIds.mp hsession).1
    have hseq : e.eventSequence ∈ s'.sourceEventSeqs :=
      (hrecords.mem_seqs _).mpr ⟨e, mem_eventsOf.mpr ⟨he, hsame.trans hid.symm⟩, rfl⟩
    exact sortKey_mem (List.ne_nil_of_mem hseq)
  have hnodup : (summaries events).Nodup := by
    apply List.Nodup.of_map SessionSummary.sessionId
    rw [map_sessionId_summaries hseqs]
    exact nodup_sessionIds events
  apply hnodup.map_on
  intro s hs s' hs' hsame
  have hsecond : (sortKey s).2 = (sortKey s').2 := congrArg Prod.snd (toLex.injective hsame)
  exact eq_of_mem_seqs hseqs (hmem s hs) (hmem s' hs') (hkey s hs) (hsecond ▸ hkey s' hs')

theorem accounted_project : Accounted events (project events) where
  once := by
    apply (List.perm_ext_iff_of_nodup ?_ ?_).mpr
    · intro n
      simp only [List.mem_flatMap, List.mem_map, List.mem_filter, decide_eq_true_eq]
      constructor
      · rintro ⟨s, hs, hn⟩
        have hrecords := records_of_mem_project hseqs hs
        obtain ⟨e, he, rfl⟩ := (hrecords.mem_seqs n).mp hn
        obtain ⟨hmem, hid⟩ := mem_eventsOf.mp he
        exact ⟨e, ⟨hmem, hid ▸ hrecords.named⟩, rfl⟩
      · rintro ⟨e, ⟨he, hnamed⟩, rfl⟩
        have hsession : e.metadata.sessionId ∈ sessionIds events :=
          mem_sessionIds.mpr ⟨List.mem_map.mpr ⟨e, he, rfl⟩, hnamed⟩
        obtain ⟨s, hs, hid, hrecords⟩ := summary_of_mem_sessionIds hseqs hsession
        exact ⟨s, mem_project.mpr ⟨_, hsession, hs⟩,
          (hrecords.mem_seqs _).mpr ⟨e, mem_eventsOf.mpr ⟨he, hid.symm⟩, rfl⟩⟩
    · apply List.nodup_flatMap.mpr
      refine ⟨fun s hs => ?_, ?_⟩
      · exact (records_of_mem_project hseqs hs).increasing.imp fun hlt => Nat.ne_of_lt hlt
      · have hdistinct : (project events).Nodup := .of_map _ (nodup_project hseqs)
        apply hdistinct.imp_of_mem
        intro s s' hs hs' hne n hn hn'
        exact hne (eq_of_mem_seqs hseqs hs hs' hn hn')
    · exact hseqs.sublist (List.filter_sublist.map EventRecord.eventSequence)
  counted := by
    intro e he hnamed
    have hsession : e.metadata.sessionId ∈ sessionIds events :=
      mem_sessionIds.mpr ⟨List.mem_map.mpr ⟨e, he, rfl⟩, hnamed⟩
    obtain ⟨s, hs, hid, hrecords⟩ := summary_of_mem_sessionIds hseqs hsession
    have hs : s ∈ project events := mem_project.mpr ⟨_, hsession, hs⟩
    have hseq : e.eventSequence ∈ s.sourceEventSeqs :=
      (hrecords.mem_seqs _).mpr ⟨e, mem_eventsOf.mpr ⟨he, hid.symm⟩, rfl⟩
    exact ⟨s, ⟨hs, hseq⟩, fun s' hs' => eq_of_mem_seqs hseqs hs'.1 hs hs'.2 hseq⟩
  sessions := nodup_project hseqs
  records _ hs := records_of_mem_project hseqs hs

/-- The events of a session are summarised alike in every order. -/
theorem summary_eq_of_perm {events' : List EventRecord} (hperm : events'.Perm events)
    (sessionId : String) :
    summary sessionId (eventsOf events' sessionId) =
      summary sessionId (eventsOf events sessionId) := by
  have hgroup : (eventsOf events' sessionId).Perm (eventsOf events sessionId) :=
    hperm.filter _
  rw [summary, summary, bySequence_eq_of_perm hgroup.symm (eventsOf_seqs hseqs sessionId)]

theorem project_eq_of_perm {events' : List EventRecord} (hperm : events'.Perm events) :
    project events' = project events := by
  have hids : (sessionIds events').Perm (sessionIds events) := by
    apply (List.perm_ext_iff_of_nodup (nodup_sessionIds _) (nodup_sessionIds _)).mpr
    intro sessionId
    rw [mem_sessionIds, mem_sessionIds, (hperm.map _).mem_iff]
  have hsummaries : (summaries events').Perm (summaries events) := by
    simp only [summaries, summary_eq_of_perm hseqs hperm]
    exact hids.filterMap _
  have hkeys : ((summaries events').map fun s => OrderDual.toDual (toLex (sortKey s))).Nodup :=
    (hsummaries.map _).nodup_iff.mpr (nodup_sortKeys hseqs)
  calc
    project events' = Table.orderByDesc (fun s => toLex (sortKey s)) (summaries events') :=
      project_eq_summaries events'
    _ = Table.orderByDesc (fun s => toLex (sortKey s)) (summaries events) :=
      Table.orderBy_eq_of_perm hsummaries hkeys
    _ = project events := (project_eq_summaries events).symm

end Distinct

/-- Events with distinct sequences are accounted for in every order in the same way. -/
theorem project_accounted (hseqs : (events.map EventRecord.eventSequence).Nodup) :
    Accounted events (project events) ∧
      ∀ events' : List EventRecord, events'.Perm events → project events' = project events :=
  ⟨accounted_project hseqs, fun _ hperm => project_eq_of_perm hseqs hperm⟩

/-- An event of a session. -/
def sessionEvent (seq : Nat) (sessionId : String) (type : EventType)
    (recordedAt : Option DateTime) : EventRecord where
  eventSequence := seq
  id := .zero
  projectId := .zero
  streamId := "main"
  version := 1
  eventType := type
  metadata := { actor := "human", source := "cli", correlationId := "", sessionId := sessionId }
  payload := []
  parentId := none
  recordedAt := recordedAt
  schemaVersion := .int 1

/-- Two sessions in turns, one of them without times. -/
def sessionsInTurns : List EventRecord :=
  [sessionEvent 4 "b" .taskCreated none, sessionEvent 3 "a" .taskMutated none,
    sessionEvent 1 "a" .taskCreated (some ⟨2026, 1, 1, 0, 0, 1, 0⟩),
    sessionEvent 5 "" .taskCreated none, sessionEvent 2 "b" .taskCreated none,
    sessionEvent 6 "a" .taskCreated none]

theorem project_accounted_inTurns :
    Accounted sessionsInTurns (project sessionsInTurns) ∧
      ∀ events' : List EventRecord, events'.Perm sessionsInTurns →
        project events' = project sessionsInTurns :=
  project_accounted (by decide)

example : (project sessionsInTurns).map (fun s => (s.sessionId, s.sourceEventSeqs)) =
    [("a", [1, 3, 6]), ("b", [2, 4])] := by decide +kernel

end SessionProjection

end RationaleVault
