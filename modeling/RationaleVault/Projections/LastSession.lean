import Mathlib.Data.Prod.Lex
import Mathlib.Data.String.Basic
import RationaleVault.Db.EventStore
import RationaleVault.Projections.Continuation

/-!
# The last session

The store takes the session of the event with the largest sequence. The projection
takes the session whose last event has the largest time. They differ when the clock
was set back between the last events of two sessions.
-/

namespace RationaleVault

namespace EventDb

/-- The last row of the project has the largest sequence. -/
theorem getLastSessionId_eq (db : EventDb) (p : UUID) :
    db.getLastSessionId p = (db.projectRows p).getLast?.map fun r => r.metadata.sessionId := by
  have hordered : (db.projectRows p).Pairwise fun r r' => r.eventSequence < r'.eventSequence :=
    db.ordered.filter _
  rw [getLastSessionId]
  cases hhead : (Table.orderByDesc EventRecord.eventSequence (db.projectRows p)).head? with
  | none =>
      have hperm : (Table.orderByDesc EventRecord.eventSequence (db.projectRows p)).Perm
          (db.projectRows p) := List.perm_insertionSort _ _
      rw [List.head?_eq_none_iff.mp hhead] at hperm
      rw [← hperm.nil_eq]
      rfl
  | some r =>
      obtain ⟨hr, hmax⟩ := Table.head?_orderByDesc hhead
      obtain ⟨before, after, hrows⟩ := List.append_of_mem hr
      rw [hrows] at hordered hmax ⊢
      have hafter : after = [] := by
        rw [List.eq_nil_iff_forall_not_mem]
        intro r' hr'
        have hlt := (List.pairwise_cons.mp (List.pairwise_append.mp hordered).2.1).1 r' hr'
        have hle := hmax r' (List.mem_append_right _ (List.mem_cons_of_mem _ hr'))
        omega
      rw [hafter, List.getLast?_concat]

end EventDb

namespace SessionProjection

/-! ## What the summaries are sorted by -/

/-- `last_event_at or ""` of an event. -/
def timeText (e : EventRecord) : String :=
  match e.recordedIso with
  | .str text => text
  | _ => ""

variable {events : List EventRecord}

theorem bySequence_eq (h : events.Pairwise fun e e' => e.eventSequence < e'.eventSequence) :
    bySequence events = events :=
  (h.imp fun hlt => Nat.le_of_lt hlt).insertionSort_eq

/-- A session is sorted by the time and the sequence of its last event. -/
theorem exists_summary (h : events.Pairwise fun e e' => e.eventSequence < e'.eventSequence)
    {last : EventRecord} (hlast : events.getLast? = some last) (sessionId : String) :
    ∃ s, summary sessionId events = some s ∧ s.sessionId = sessionId ∧
      sortKey s = (timeText last, last.eventSequence) := by
  obtain ⟨front, rfl⟩ : ∃ front, events = front ++ [last] := List.getLast?_eq_some_iff.mp hlast
  obtain ⟨first, hfirst⟩ : ∃ first, (front ++ [last]).head? = some first := by
    cases front with
    | nil => exact ⟨last, rfl⟩
    | cons e rest => exact ⟨e, rfl⟩
  have hmax : ((front ++ [last]).map EventRecord.eventSequence).max?.getD 0 =
      last.eventSequence := by
    apply Table.maxD_eq (List.mem_map_of_mem (List.mem_append_right _ List.mem_cons_self))
    intro x hx
    obtain ⟨e, he, rfl⟩ := List.mem_map.mp hx
    rcases List.mem_append.mp he with he | he
    · exact Nat.le_of_lt ((List.pairwise_append.mp h).2.2 e he last List.mem_cons_self)
    · rw [List.mem_singleton.mp he]
  simp only [summary, bySequence_eq h, hfirst, hlast]
  refine ⟨_, rfl, rfl, ?_⟩
  simp only [sortKey, hmax]
  rfl

/-! ## The sessions of a stream -/

/-- The event is the last one of its session. -/
def EndsSession (events : List EventRecord) (e : EventRecord) : Prop :=
  e ∈ events ∧ ∀ e' ∈ events, e'.metadata.sessionId = e.metadata.sessionId →
    e'.eventSequence ≤ e.eventSequence

/-- The summary is that of the session that the event ends. -/
def Summarizes (s : SessionSummary) (e : EventRecord) : Prop :=
  s.sessionId = e.metadata.sessionId ∧ sortKey s = (timeText e, e.eventSequence)

/-- The sessions with their events. -/
def sessionsOf (events : List EventRecord) : OrdDict String (List EventRecord) :=
  Grouping.lists (fun e : EventRecord => e.metadata.sessionId) id events

theorem mem_entries_sessionsOf {entry : String × List EventRecord}
    (h : entry ∈ (sessionsOf events).entries) :
    entry.2 = events.filter (fun e => e.metadata.sessionId = entry.1) ∧ entry.2 ≠ [] := by
  have hget := OrdDict.get?_of_mem h
  have hlist := Grouping.getD_lists (fun e : EventRecord => e.metadata.sessionId) id events entry.1
  change ((sessionsOf events).get? entry.1).getD [] = _ at hlist
  rw [hget, Option.getD_some, List.map_id] at hlist
  exact ⟨hlist, Grouping.lists_ne_nil hget⟩

theorem project_eq (hsession : ∀ e ∈ events, e.metadata.sessionId ≠ "") :
    project events = Table.orderByDesc (fun s => toLex (sortKey s))
      ((sessionsOf events).entries.filterMap fun entry => summary entry.1 entry.2) := by
  have hall : events.filter (fun e => e.metadata.sessionId ≠ "") = events :=
    List.filter_eq_self.mpr fun e he => by simpa using hsession e he
  rw [project, hall]
  simp only [Table.orderByDesc, Prod.Lex.toLex_le_toLex]
  rfl

section Stream

variable (hordered : events.Pairwise fun e e' => e.eventSequence < e'.eventSequence)

include hordered

/-- Events of one session with the largest sequence are the same. -/
theorem EndsSession.eq {e e' : EventRecord} (he : EndsSession events e)
    (he' : EndsSession events e') (hsame : e.metadata.sessionId = e'.metadata.sessionId) :
    e = e' := by
  have hseq : e.eventSequence = e'.eventSequence :=
    le_antisymm (he'.2 e he.1 hsame) (he.2 e' he'.1 hsame.symm)
  have hnodup : (events.map EventRecord.eventSequence).Nodup :=
    List.pairwise_map.mpr (hordered.imp fun hlt => Nat.ne_of_lt hlt)
  exact List.inj_on_of_nodup_map hnodup he.1 he'.1 hseq

/-- The last event of a stream ends its session. -/
theorem endsSession_getLast {last : EventRecord} (hlast : events.getLast? = some last) :
    EndsSession events last := by
  obtain ⟨front, hfront⟩ := List.getLast?_eq_some_iff.mp hlast
  rw [hfront] at hordered ⊢
  refine ⟨List.mem_append_right _ List.mem_cons_self, fun e he _ => ?_⟩
  rcases List.mem_append.mp he with he | he
  · exact Nat.le_of_lt ((List.pairwise_append.mp hordered).2.2 e he last List.mem_cons_self)
  · rw [List.mem_singleton.mp he]

/-- No other event has a sequence as large as the last one. -/
theorem eq_of_getLast {e last : EventRecord} (hlast : events.getLast? = some last) (he : e ∈ events)
    (hle : last.eventSequence ≤ e.eventSequence) : e = last := by
  obtain ⟨front, hfront⟩ := List.getLast?_eq_some_iff.mp hlast
  rw [hfront] at hordered he
  rcases List.mem_append.mp he with he | he
  · have hlt := (List.pairwise_append.mp hordered).2.2 e he last List.mem_cons_self
    omega
  · exact List.mem_singleton.mp he

variable (hsession : ∀ e ∈ events, e.metadata.sessionId ≠ "")

include hsession

/-- Every summary is that of a session that some event ends. -/
theorem exists_ends {s : SessionSummary} (hs : s ∈ project events) :
    ∃ e, EndsSession events e ∧ Summarizes s e := by
  rw [project_eq hsession, Table.mem_orderByDesc] at hs
  obtain ⟨entry, hentry, hsummary⟩ := List.mem_filterMap.mp hs
  obtain ⟨hevents, hne⟩ := mem_entries_sessionsOf hentry
  have hgroup : entry.2.Pairwise fun e e' => e.eventSequence < e'.eventSequence :=
    hevents ▸ hordered.filter _
  obtain ⟨last, hlast⟩ := Option.isSome_iff_exists.mp (List.getLast?_isSome.mpr hne)
  obtain ⟨s', hs', hid, hkey⟩ := exists_summary hgroup hlast entry.1
  obtain rfl : s = s' := Option.some.inj (hsummary.symm.trans hs')
  obtain ⟨front, hfront⟩ := List.getLast?_eq_some_iff.mp hlast
  have hmem : last ∈ entry.2 := hfront ▸ List.mem_append_right _ List.mem_cons_self
  rw [hevents] at hmem
  obtain ⟨hmem, hsession⟩ := List.mem_filter.mp hmem
  have hlastId : last.metadata.sessionId = entry.1 := by simpa using hsession
  refine ⟨last, ⟨hmem, fun e he hsame => ?_⟩, hid.trans hlastId.symm, hkey⟩
  have hin : e ∈ entry.2 := by
    rw [hevents]
    exact List.mem_filter.mpr ⟨he, by simpa using hsame.trans hlastId⟩
  rw [hfront] at hin hgroup
  rcases List.mem_append.mp hin with hin | hin
  · exact Nat.le_of_lt ((List.pairwise_append.mp hgroup).2.2 e hin last List.mem_cons_self)
  · rw [List.mem_singleton.mp hin]

/-- Every session that some event ends has a summary. -/
theorem exists_summarizes {e : EventRecord} (he : EndsSession events e) :
    ∃ s ∈ project events, Summarizes s e := by
  have hcontains : (sessionsOf events).contains e.metadata.sessionId = true :=
    Grouping.contains_group he.1
  obtain ⟨group, hgroup⟩ := Option.isSome_iff_exists.mp hcontains
  obtain ⟨entry, hentry, hkey, rfl⟩ := OrdDict.lookupIn_mem hgroup
  obtain ⟨hevents, hne⟩ := mem_entries_sessionsOf hentry
  have hincreasing : entry.2.Pairwise fun e e' => e.eventSequence < e'.eventSequence :=
    hevents ▸ hordered.filter _
  obtain ⟨last, hlast⟩ := Option.isSome_iff_exists.mp (List.getLast?_isSome.mpr hne)
  obtain ⟨s, hs, hid, _⟩ := exists_summary hincreasing hlast entry.1
  have hmem : s ∈ project events := by
    rw [project_eq hsession, Table.mem_orderByDesc]
    exact List.mem_filterMap.mpr ⟨entry, hentry, hs⟩
  obtain ⟨e', he', hsummarizes⟩ := exists_ends hordered hsession hmem
  have hsame : e'.metadata.sessionId = e.metadata.sessionId :=
    hsummarizes.1.symm.trans (hid.trans hkey)
  obtain rfl := he'.eq hordered he hsame
  exact ⟨s, hmem, hsummarizes⟩

/-- The projection finds the session of the last event exactly when no session ended at a later
time. -/
theorem lastSession_eq_iff {last : EventRecord} (hlast : events.getLast? = some last) :
    (lastSession events).map SessionSummary.sessionId = some last.metadata.sessionId ↔
      ∀ e, EndsSession events e → timeText e ≤ timeText last := by
  have hends := endsSession_getLast hordered hlast
  obtain ⟨sLast, hsLast, hsummarizes⟩ := exists_summarizes hordered hsession hends
  have hmax : ∀ {s}, lastSession events = some s → s ∈ project events ∧
      ∀ s' ∈ project events, toLex (sortKey s') ≤ toLex (sortKey s) := by
    intro s hs
    rw [lastSession, project_eq hsession] at hs
    rw [project_eq hsession]
    simp only [Table.mem_orderByDesc]
    exact Table.head?_orderByDesc hs
  obtain ⟨first, hfirst⟩ : ∃ first, lastSession events = some first := by
    cases hlist : project events with
    | nil => rw [hlist] at hsLast; cases hsLast
    | cons s rest => exact ⟨s, by rw [lastSession, hlist, List.head?_cons]⟩
  obtain ⟨hmem, hall⟩ := hmax hfirst
  obtain ⟨e, he, hfirstOf⟩ := exists_ends hordered hsession hmem
  rw [hfirst, Option.map_some, Option.some.injEq, hfirstOf.1]
  constructor
  · intro hsame e' he'
    obtain rfl := he.eq hordered hends hsame
    obtain ⟨s', hs', hsummarizes'⟩ := exists_summarizes hordered hsession he'
    have hle := hall s' hs'
    rw [hsummarizes'.2, hfirstOf.2, Prod.Lex.toLex_le_toLex] at hle
    rcases hle with hlt | ⟨heq, _⟩
    · exact hlt.le
    · exact heq.le
  · intro htimes
    have hle := hall sLast hsLast
    rw [hsummarizes.2, hfirstOf.2, Prod.Lex.toLex_le_toLex] at hle
    have hlater : last.eventSequence ≤ e.eventSequence := by
      rcases hle with hlt | ⟨_, hseq⟩
      · exact absurd (htimes e he) (not_le.mpr hlt)
      · exact hseq
    rw [eq_of_getLast hordered hlast he.1 hlater]

end Stream

/-! ## Recorded streams -/

/-- The session and the time that a request is recorded with. -/
def stamp (r : AppendRequest) : String × String := (r.metadata.sessionId, r.recordedAt.isoformat)

/-- No session ends at a later time than the last one. -/
def EndsInOrder (stamps : List (String × String)) : Prop :=
  ∀ before s after, stamps = before ++ s :: after → (∀ s' ∈ after, s'.1 ≠ s.1) →
    ∀ last, stamps.getLast? = some last → s.2 ≤ last.2

/-- A clock that never goes back ends the sessions in order. -/
theorem endsInOrder_of_pairwise {stamps : List (String × String)}
    (h : stamps.Pairwise fun s s' => s.2 ≤ s'.2) : EndsInOrder stamps := by
  rintro before s after rfl _ last hlast
  rw [List.getLast?_append_cons] at hlast
  rcases List.mem_cons.mp (List.mem_of_getLast? hlast) with rfl | hmem
  · exact le_refl _
  · exact (List.pairwise_cons.mp (List.pairwise_append.mp h).2.1).1 last hmem

/-- The rows carry the stamps of their requests. -/
theorem map_projectRows (p : UUID) (reqs : List AppendRequest) (db : EventDb) :
    ((db.appendAll reqs).projectRows p).map (fun e => (e.metadata.sessionId, timeText e)) =
      (db.projectRows p).map (fun e => (e.metadata.sessionId, timeText e)) ++
        (reqs.filter fun r => r.projectId = p).map stamp := by
  induction reqs generalizing db with
  | nil => exact (List.append_nil _).symm
  | cons r rest ih =>
      change (((db.appendEvent r).appendAll rest).projectRows p).map _ = _
      rw [ih, EventDb.projectRows_appendEvent, List.map_append, List.append_assoc]
      congr 1
      by_cases hp : r.projectId = p
      · rw [if_pos hp, List.filter_cons_of_pos (by simpa using hp)]
        rfl
      · rw [if_neg hp, List.filter_cons_of_neg (by simpa using hp)]
        rfl

/-- Sessions end in order when no event that ends one has a later time than the last event. -/
theorem endsInOrder_iff (h : events.Pairwise fun e e' => e.eventSequence < e'.eventSequence)
    {last : EventRecord} (hlast : events.getLast? = some last) :
    EndsInOrder (events.map fun e => (e.metadata.sessionId, timeText e)) ↔
      ∀ e, EndsSession events e → timeText e ≤ timeText last := by
  have hlastStamp : (events.map fun e => (e.metadata.sessionId, timeText e)).getLast? =
      some (last.metadata.sessionId, timeText last) := by
    rw [List.getLast?_map, hlast, Option.map_some]
  constructor
  · intro hstamps e he
    obtain ⟨before, after, rfl⟩ := List.append_of_mem he.1
    refine hstamps (before.map _) (e.metadata.sessionId, timeText e) (after.map _)
      (by rw [List.map_append, List.map_cons]) ?_ _ hlastStamp
    intro s hs
    obtain ⟨e', he', rfl⟩ := List.mem_map.mp hs
    intro hsame
    have hle := he.2 e' (List.mem_append_right _ (List.mem_cons_of_mem _ he')) hsame
    have hlt := (List.pairwise_cons.mp (List.pairwise_append.mp h).2.1).1 e' he'
    omega
  · intro htimes before s after hsplit hafter last' hlast'
    obtain ⟨before', rest', rfl, rfl, hrest⟩ := List.map_eq_append_iff.mp hsplit
    obtain ⟨e, after', rfl, rfl, rfl⟩ := List.map_eq_cons_iff.mp hrest
    obtain rfl := Option.some.inj (hlastStamp.symm.trans hlast')
    refine htimes e ⟨List.mem_append_right _ List.mem_cons_self, fun e' he' hsame => ?_⟩
    rcases List.mem_append.mp he' with hbefore | hmem
    · exact Nat.le_of_lt ((List.pairwise_append.mp h).2.2 e' hbefore e List.mem_cons_self)
    · rcases List.mem_cons.mp hmem with rfl | hin
      · exact Nat.le_refl _
      · exact absurd hsame (hafter _ (List.mem_map_of_mem hin))

/-- The projection and the store name the same last session exactly when no session of the project
ended at a later time than the last one. -/
theorem lastSession_agrees_iff (p : UUID) (reqs : List AppendRequest)
    (hsession : ∀ r ∈ reqs, r.projectId = p → r.metadata.sessionId ≠ "") :
    (lastSession ((EventDb.empty.appendAll reqs).getProjectStream p 0)).map
        SessionSummary.sessionId = (EventDb.empty.appendAll reqs).getLastSessionId p ↔
      EndsInOrder ((reqs.filter fun r => r.projectId = p).map stamp) := by
  have hstamps := map_projectRows p reqs EventDb.empty
  change _ = [] ++ _ at hstamps
  rw [List.nil_append] at hstamps
  have hordered : ((EventDb.empty.appendAll reqs).projectRows p).Pairwise fun e e' =>
      e.eventSequence < e'.eventSequence := (EventDb.empty.appendAll reqs).ordered.filter _
  rw [EventDb.getProjectStream_zero, EventDb.getLastSessionId_eq, ← hstamps]
  generalize (EventDb.empty.appendAll reqs).projectRows p = rows at hstamps hordered ⊢
  have hrows : ∀ e ∈ rows, e.metadata.sessionId ≠ "" := by
    intro e he
    have hmem := List.mem_map_of_mem (f := fun e => (e.metadata.sessionId, timeText e)) he
    rw [hstamps] at hmem
    obtain ⟨r, hr, hstamp⟩ := List.mem_map.mp hmem
    obtain ⟨hr, hp⟩ := List.mem_filter.mp hr
    have hid : r.metadata.sessionId = e.metadata.sessionId := congrArg Prod.fst hstamp
    exact hid ▸ hsession r hr (by simpa using hp)
  cases hlast : rows.getLast? with
  | none =>
      rw [List.getLast?_eq_none_iff.mp hlast]
      apply iff_of_true rfl
      intro before s after hsplit
      simp at hsplit
  | some last =>
      rw [Option.map_some, lastSession_eq_iff hordered hrows hlast, endsInOrder_iff hordered hlast]

/-- A request of a session at a time. -/
def request (sessionId : String) (at_ : DateTime) : AppendRequest where
  projectId := .zero
  streamId := "main"
  eventType := .projectCreated
  payload := []
  metadata := { actor := "human", source := "cli", correlationId := "", sessionId := sessionId }
  parentId := none
  eventId := .zero
  recordedAt := at_

/-- Two sessions with one event each, at the given seconds. -/
def twoSessions (second second' : Nat) : List AppendRequest :=
  [request "a" ⟨2026, 1, 1, 0, 0, second, 0⟩, request "b" ⟨2026, 1, 1, 0, 0, second', 0⟩]

theorem lastSession_agrees_iff_twoSessions :
    (lastSession ((EventDb.empty.appendAll (twoSessions 1 2)).getProjectStream .zero 0)).map
        SessionSummary.sessionId =
      (EventDb.empty.appendAll (twoSessions 1 2)).getLastSessionId .zero ↔
    EndsInOrder (((twoSessions 1 2).filter fun r => r.projectId = .zero).map stamp) := by
  apply lastSession_agrees_iff
  intro r hr _
  simp only [twoSessions, List.mem_cons, List.not_mem_nil, or_false] at hr
  rcases hr with rfl | rfl
  · decide
  · decide

/-- The clock goes back by one second between two sessions. -/
theorem lastSession_clockBack :
    (lastSession ((EventDb.empty.appendAll (twoSessions 2 1)).getProjectStream .zero 0)).map
        SessionSummary.sessionId = some "a" ∧
      (EventDb.empty.appendAll (twoSessions 2 1)).getLastSessionId .zero = some "b" := by
  decide +kernel

end SessionProjection

end RationaleVault
