import RationaleVault.Knowledge.Store
import RationaleVault.Library.Delimited
import RationaleVault.Library.JsonText
import RationaleVault.Projections.Planner

/-!
# The knowledge fingerprint

The fingerprint lists the ids and versions of the knowledge it is given. It
shows a change of the store exactly as far as the versions show it.
-/

namespace RationaleVault.Projections

/-- `f"{k.id}:{k.version}"`. -/
def kvPair (k : KnowledgeObject) : String :=
  k.id ++ ":" ++ String.ofList (Json.encodeInt k.version)

/-- The text that `compute_knowledge_fingerprint` hashes. -/
def knowledgeText (knowledge : List KnowledgeObject) (projectId : String) (version : SemVer) :
    String :=
  let sortedItems := Table.orderBy (fun k : KnowledgeObject => toLex (k.id, k.version)) knowledge
  "knowledge_store|" ++ version.str ++ "|" ++ projectId ++ "|" ++
    String.intercalate "," (sortedItems.map kvPair)

/-- `compute_knowledge_fingerprint(knowledge, project_id, version)`. -/
def computeKnowledgeFingerprint (knowledge : List KnowledgeObject) (projectId : String)
    (version : SemVer) : String :=
  Sha256.hexdigest (knowledgeText knowledge projectId version)

/-! ## What the hashed text tells -/

theorem toList_kvPair (k : KnowledgeObject) :
    (kvPair k).toList = k.id.toList ++ ':' :: Json.encodeInt k.version := by
  simp [kvPair]

theorem idVersion_of_kvPair {k k' : KnowledgeObject} (h : kvPair k = kvPair k') :
    SQLiteKnowledgeProvider.idVersion k = SQLiteKnowledgeProvider.idVersion k' := by
  have hlist := congrArg String.toList h
  rw [toList_kvPair, toList_kvPair] at hlist
  have hcolon : ∀ n, ':' ∉ Json.encodeInt n := Json.not_mem_encodeInt (by decide) (by decide)
  obtain ⟨hid, hversion⟩ := Delimited.append_cons_inj (hcolon _) (hcolon _) hlist
  have hread : some k.version = some k'.version := by
    rw [← Json.readInt_encodeInt, ← Json.readInt_encodeInt, hversion]
  exact Prod.ext (String.toList_inj.mp hid) (Option.some.inj hread)

theorem map_eq_map_of_imp {α β γ : Type} {f : α → β} {g : α → γ}
    (h : ∀ x y, f x = f y → g x = g y) {l l' : List α} (hl : l.map f = l'.map f) :
    l.map g = l'.map g := by
  induction l generalizing l' with
  | nil =>
      cases l' with
      | nil => rfl
      | cons y rest' => cases hl
  | cons x rest ih =>
      cases l' with
      | nil => cases hl
      | cons y rest' =>
          obtain ⟨hhead, htail⟩ := List.cons.inj hl
          rw [List.map_cons, List.map_cons, h x y hhead, ih htail]

/-- Ids without commas and versions can be read off the text. -/
theorem perm_of_knowledgeText {K K' : List KnowledgeObject} {projectId : String} {version : SemVer}
    (hK : ∀ k ∈ K, ',' ∉ k.id.toList) (hK' : ∀ k ∈ K', ',' ∉ k.id.toList)
    (h : knowledgeText K projectId version = knowledgeText K' projectId version) :
    (K.map SQLiteKnowledgeProvider.idVersion).Perm
      (K'.map SQLiteKnowledgeProvider.idVersion) := by
  have hpieces : ∀ L : List KnowledgeObject, (∀ k ∈ L, ',' ∉ k.id.toList) →
      ∀ p ∈ L.map fun k => (kvPair k).toList, p ≠ [] ∧ ',' ∉ p := by
    intro L hL p hp
    obtain ⟨k, hk, rfl⟩ := List.mem_map.mp hp
    rw [toList_kvPair]
    refine ⟨by simp, ?_⟩
    rw [List.mem_append, List.mem_cons, not_or, not_or]
    exact ⟨hL k hk, by decide, Json.not_mem_encodeInt (by decide) (by decide) _⟩
  let sorted (L : List KnowledgeObject) : List KnowledgeObject :=
    Table.orderBy (fun k : KnowledgeObject => toLex (k.id, k.version)) L
  have hsorted : ∀ L : List KnowledgeObject, (sorted L).Perm L := Table.orderBy_perm _
  have hjoined := congrArg String.toList ((String.append_right_inj _).mp h)
  rw [String.toList_intercalate, String.toList_intercalate, List.map_map, List.map_map] at hjoined
  have htexts : (sorted K).map (fun k => (kvPair k).toList) =
      (sorted K').map (fun k => (kvPair k).toList) :=
    Delimited.eq_of_intercalate_eq
      (hpieces _ fun k hk => hK k ((hsorted K).mem_iff.mp hk))
      (hpieces _ fun k hk => hK' k ((hsorted K').mem_iff.mp hk)) hjoined
  have hpairs : (sorted K).map SQLiteKnowledgeProvider.idVersion =
      (sorted K').map SQLiteKnowledgeProvider.idVersion :=
    map_eq_map_of_imp (fun k k' hk => idVersion_of_kvPair (String.toList_inj.mp hk)) htexts
  have hperm : ∀ L : List KnowledgeObject, (L.map SQLiteKnowledgeProvider.idVersion).Perm
      ((sorted L).map SQLiteKnowledgeProvider.idVersion) := fun L => ((hsorted L).map _).symm
  exact (hperm K).trans (hpairs ▸ (hperm K').symm)

/-- The fingerprint of a project's knowledge shows every change of what the knowledge projection
reads, in every run in which the operations between the two projections are `Versioned` and ids
hold no comma. -/
theorem computeKnowledgeFingerprint_ne (u : UnicodeTables) (before between : List KnowledgeOp)
    (projectId : String) (version : SemVer)
    (hids : ∀ k, KnowledgeOp.addKnowledge k ∈ before ++ between → ',' ∉ k.id.toList)
    (hversioned : ∀ pre op post, between = pre ++ op :: post →
      SQLiteKnowledgeProvider.Versioned u
        (SQLiteKnowledgeProvider.run [] (before ++ pre)) op)
    (hcollision :
      computeKnowledgeFingerprint (SQLiteKnowledgeProvider.run [] before) projectId version =
        computeKnowledgeFingerprint (SQLiteKnowledgeProvider.run [] (before ++ between))
          projectId version →
      knowledgeText (SQLiteKnowledgeProvider.run [] before) projectId version =
        knowledgeText (SQLiteKnowledgeProvider.run [] (before ++ between)) projectId version)
    (hinputs : ¬ KnowledgeProjection.SameInputs u (SQLiteKnowledgeProvider.run [] before)
      (SQLiteKnowledgeProvider.run [] (before ++ between))) :
    computeKnowledgeFingerprint (SQLiteKnowledgeProvider.run [] before) projectId version ≠
      computeKnowledgeFingerprint (SQLiteKnowledgeProvider.run [] (before ++ between))
        projectId version := by
  intro heq
  apply hinputs
  have hcomma : ∀ ops, (∀ k, KnowledgeOp.addKnowledge k ∈ ops → ',' ∉ k.id.toList) →
      ∀ k ∈ SQLiteKnowledgeProvider.run [] ops, ',' ∉ k.id.toList := fun ops hops =>
    SQLiteKnowledgeProvider.forall_ids_run (P := fun id => ',' ∉ id.toList) (by simp) hops
  have hsame := perm_of_knowledgeText
    (hcomma before fun k hk => hids k (List.mem_append_left _ hk)) (hcomma _ hids)
    (hcollision heq)
  rw [SQLiteKnowledgeProvider.run_append] at hsame ⊢
  apply SQLiteKnowledgeProvider.sameInputs_of_perm
    (SQLiteKnowledgeProvider.nodup_run (by simp) before) _ hsame
  intro pre op post h
  rw [← SQLiteKnowledgeProvider.run_append]
  exact hversioned pre op post h

/-- A lesson drawn from one memory. -/
def lesson (content : String) : KnowledgeObject where
  id := "k1"
  version := 1
  title := "Pooling"
  content := content
  knowledgeType := .lesson
  knowledgeDomain := .process
  confidence := ⟨1, 1, 0, ⟨['0', '.', '8'], rfl⟩⟩
  importance := "medium"
  provenance := ⟨"k1", ["m1"], ["e1"], "", ⟨1, 1, 0, ⟨['0', '.', '8'], rfl⟩⟩, 1, "2026-01-01"⟩
  supportingMemoryIds := ["m1"]
  createdAt := "2026-01-01"
  updatedAt := "2026-01-01"
  projectId := "p1"

/-- Marking a lesson stale changes what the projection reads and not the fingerprint. -/
theorem computeKnowledgeFingerprint_updateLifecycle :
    ¬ KnowledgeProjection.SameInputs .asciiOnly
        (SQLiteKnowledgeProvider.run [] [.addKnowledge (lesson "Use a pool.")])
        (SQLiteKnowledgeProvider.run [] [.addKnowledge (lesson "Use a pool."),
          .updateLifecycle "k1" "STALE" "2026-01-02"]) ∧
      computeKnowledgeFingerprint
          (SQLiteKnowledgeProvider.run [] [.addKnowledge (lesson "Use a pool.")]) "p1" ⟨1, 0, 0⟩ =
        computeKnowledgeFingerprint
          (SQLiteKnowledgeProvider.run [] [.addKnowledge (lesson "Use a pool."),
            .updateLifecycle "k1" "STALE" "2026-01-02"]) "p1" ⟨1, 0, 0⟩ := by
  constructor
  · intro h
    have hrecord := List.perm_singleton.mp h.records.symm
    have hstatus := congrArg (fun l => l.map KnowledgeProjection.RecordInputs.lifecycleStatus) hrecord
    exact absurd hstatus (by decide)
  · rfl

/-- New content under the same id is shown. -/
theorem computeKnowledgeFingerprint_ne_lesson :
    computeKnowledgeFingerprint
        (SQLiteKnowledgeProvider.run [] [.addKnowledge (lesson "Use a pool.")]) "p1" ⟨1, 0, 0⟩ ≠
      computeKnowledgeFingerprint
        (SQLiteKnowledgeProvider.run [] ([.addKnowledge (lesson "Use a pool.")] ++
          [.addKnowledge (lesson "Use two pools.")])) "p1" ⟨1, 0, 0⟩ := by
  apply computeKnowledgeFingerprint_ne .asciiOnly
  · intro k hk
    simp only [List.singleton_append, List.mem_cons, KnowledgeOp.addKnowledge.injEq,
      List.not_mem_nil, or_false] at hk
    rcases hk with rfl | rfl <;> decide
  · intro pre op post h
    obtain ⟨rfl, rfl, -⟩ : pre = [] ∧ op = .addKnowledge (lesson "Use two pools.") ∧ post = [] := by
      cases pre with
      | nil => exact ⟨rfl, (List.cons.inj h).1.symm, (List.cons.inj h).2.symm⟩
      | cons x rest => exact absurd (List.cons.inj h).2 (by simp)
    intro before r after hrows _ hcontent
    have hmem : r ∈ SQLiteKnowledgeProvider.run [] [.addKnowledge (lesson "Use a pool.")] := by
      rw [← List.append_nil [KnowledgeOp.addKnowledge (lesson "Use a pool.")], hrows]
      exact List.mem_append_right _ List.mem_cons_self
    obtain rfl : r = lesson "Use a pool." := List.mem_singleton.mp hmem
    exact absurd hcontent (by decide)
  · exact fun h => absurd h (Sha256.hexdigest_ne (by decide +kernel))
  · intro h
    have hrecord := List.perm_singleton.mp h.records.symm
    have hcontent := congrArg (fun l => l.map KnowledgeProjection.RecordInputs.content) hrecord
    exact absurd hcontent (by decide)

end RationaleVault.Projections
