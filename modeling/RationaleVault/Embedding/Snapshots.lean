import RationaleVault.Embedding.Projection
import RationaleVault.Library.Fold

/-!
# Snapshots of the embedding projection

A snapshot holds the nodes in the order of their ids, which cannot be made when
two ids do not compare. Every event changes the nodes only and depends on what
lookups find, so a state is as good as the one restored from its snapshot.
-/

namespace RationaleVault

/-- The state up to the order of its nodes. -/
def EmbeddingState.upToOrder (s : EmbeddingState) :
    (Atom → Option NodeInfo) × String × String × Int × Int × Nat :=
  (s.nodes.get?, s.provider, s.model, s.version, s.dimension, s.sequence)

namespace EmbeddingProjection

variable {fmt : FormatText}

/-! ## What an event changes -/

/-- The nodes after an event. -/
def nodesAfter (fmt : FormatText) (event : EventRecord) (nodes : OrdDict Atom NodeInfo) :
    Except Exc (OrdDict Atom NodeInfo) :=
  (applyEvent fmt { nodes := nodes } event).map EmbeddingState.nodes

theorem addNode_nodes (s : EmbeddingState) (payload : JsonObj) :
    addNode fmt s payload = (addNode fmt { nodes := s.nodes } payload).map fun t =>
      { s with nodes := t.nodes } := by
  rw [addNode, addNode]
  split
  · rfl
  · cases createdInfo fmt payload with
    | error e => rfl
    | ok info => cases (nodeId payload).hash <;> rfl

theorem updateNode_nodes (s : EmbeddingState) (payload : JsonObj) :
    updateNode fmt s payload = (updateNode fmt { nodes := s.nodes } payload).map fun t =>
      { s with nodes := t.nodes } := by
  rw [updateNode, updateNode]
  split
  · rfl
  · cases (nodeId payload).hash with
    | error e => rfl
    | ok key =>
        rw [Except.ok_bind_eq, Except.ok_bind_eq]
        dsimp only
        cases s.nodes.get? key with
        | none => rfl
        | some existing => dsimp only; cases updatedInfo fmt existing payload <;> rfl

theorem removeNode_nodes (s : EmbeddingState) (payload : JsonObj) :
    removeNode s payload = (removeNode { nodes := s.nodes } payload).map fun t =>
      { s with nodes := t.nodes } := by
  rw [removeNode, removeNode]
  split
  · rfl
  · cases (nodeId payload).hash <;> rfl

/-- An event changes the nodes only. -/
theorem applyEvent_eq (s : EmbeddingState) (event : EventRecord) :
    applyEvent fmt s event = (nodesAfter fmt event s.nodes).map fun nodes =>
      { s with nodes := nodes } := by
  rw [nodesAfter, Except.map_map_eq, applyEvent, applyEvent]
  split
  · exact addNode_nodes s _
  · exact updateNode_nodes s _
  · exact removeNode_nodes s _
  · exact addNode_nodes s _
  · exact removeNode_nodes s _
  · rfl

/-- What an event does to the nodes depends on what lookups find. -/
theorem nodesAfter_congr (fmt : FormatText) {nodes nodes' : OrdDict Atom NodeInfo}
    (h : nodes.get? = nodes'.get?) (event : EventRecord) :
    (nodesAfter fmt event nodes).map OrdDict.get? =
      (nodesAfter fmt event nodes').map OrdDict.get? := by
  have hset : ∀ k x, (nodes.set k x).get? = (nodes'.set k x).get? := by
    intro k x
    funext k'
    rw [OrdDict.get?_set, OrdDict.get?_set, h]
  have herase : ∀ k, (nodes.erase k).get? = (nodes'.erase k).get? := by
    intro k
    funext k'
    rw [OrdDict.get?_erase, OrdDict.get?_erase, h]
  have hadd : ∀ payload,
      ((addNode fmt { nodes := nodes } payload).map EmbeddingState.nodes).map OrdDict.get? =
        ((addNode fmt { nodes := nodes' } payload).map EmbeddingState.nodes).map OrdDict.get? := by
    intro payload
    rw [addNode, addNode]
    split
    · exact congrArg Except.ok h
    · cases createdInfo fmt payload with
      | error e => rfl
      | ok info =>
          cases (nodeId payload).hash with
          | error e => rfl
          | ok key => exact congrArg Except.ok (hset key info)
  have hupdate : ∀ payload,
      ((updateNode fmt { nodes := nodes } payload).map EmbeddingState.nodes).map OrdDict.get? =
        ((updateNode fmt { nodes := nodes' } payload).map EmbeddingState.nodes).map
          OrdDict.get? := by
    intro payload
    rw [updateNode, updateNode]
    split
    · exact congrArg Except.ok h
    · cases (nodeId payload).hash with
      | error e => rfl
      | ok key =>
          rw [Except.ok_bind_eq, Except.ok_bind_eq]
          dsimp only
          rw [h]
          cases nodes'.get? key with
          | none => exact congrArg Except.ok h
          | some existing =>
              dsimp only
              cases updatedInfo fmt existing payload with
              | error e => rfl
              | ok info => exact congrArg Except.ok (hset key info)
  have hremove : ∀ payload,
      ((removeNode { nodes := nodes } payload).map EmbeddingState.nodes).map OrdDict.get? =
        ((removeNode { nodes := nodes' } payload).map EmbeddingState.nodes).map OrdDict.get? := by
    intro payload
    rw [removeNode, removeNode]
    split
    · exact congrArg Except.ok h
    · cases (nodeId payload).hash with
      | error e => rfl
      | ok key => exact congrArg Except.ok (herase key)
  rw [nodesAfter, nodesAfter, applyEvent, applyEvent]
  split
  · exact hadd _
  · exact hupdate _
  · exact hremove _
  · exact hadd _
  · exact hremove _
  · exact congrArg Except.ok h

/-- A state without its sequence, up to the order of its nodes. -/
def view (s : EmbeddingState) : (Atom → Option NodeInfo) × String × String × Int × Int :=
  (s.nodes.get?, s.provider, s.model, s.version, s.dimension)

theorem applyEvent_congr (fmt : FormatText) (s s' : EmbeddingState) (event : EventRecord)
    (h : view s = view s') :
    (applyEvent fmt s event).map view = (applyEvent fmt s' event).map view := by
  obtain ⟨hget, hrest⟩ := Prod.mk.inj h
  have hnodes := nodesAfter_congr fmt hget event
  rw [applyEvent_eq, applyEvent_eq]
  rw [Except.map_map_eq, Except.map_map_eq]
  exact Except.map_congr_of_map hnodes fun nodes nodes' _ _ hsame => Prod.ext hsame hrest

theorem sequence_applyEvent {s s' : EmbeddingState} {event : EventRecord}
    (h : applyEvent fmt s event = .ok s') : s'.sequence = s.sequence := by
  rw [applyEvent_eq, Except.map_eq_ok_iff] at h
  obtain ⟨nodes, -, rfl⟩ := h
  rfl

theorem sequence_foldlM {s s' : EmbeddingState} {events : List EventRecord}
    (h : events.foldlM (applyEvent fmt) s = .ok s') : s'.sequence = s.sequence :=
  Fold.invariant (P := fun t : EmbeddingState => t.sequence = s.sequence)
    (fun _ _ _ _ ht hstep => (sequence_applyEvent hstep).trans ht) rfl h

/-! ## Snapshots -/

/-- The state with the sequence of the last event. -/
def advance (events : List EventRecord) (s : EmbeddingState) : EmbeddingState :=
  { s with sequence := (events.map EventRecord.eventSequence).foldl max s.sequence }

theorem reduce_eq (events : List EventRecord) (initialState : Option EmbeddingState) :
    reduce fmt events initialState =
      (events.foldlM (applyEvent fmt) (initialState.getD {})).map (advance events) := by
  rw [reduce]
  cases events.foldlM (applyEvent fmt) (initialState.getD {}) with
  | error e => rfl
  | ok state =>
      rw [Except.ok_bind_eq]
      cases events with
      | nil => rfl
      | cons event rest =>
          rw [List.map_cons, List.max?_cons']
          apply congrArg Except.ok
          rw [advance, List.map_cons, List.foldl_cons, List.foldl_assoc]

/-- A snapshot keeps the state up to the order of its nodes. -/
theorem upToOrder_deserialize {s : EmbeddingState} {snapshot : Snapshot}
    (h : serialize s = .ok snapshot) : (deserialize snapshot).upToOrder = s.upToOrder := by
  rw [serialize, Except.bind_eq_ok_iff] at h
  obtain ⟨sorted, hsorted, h⟩ := h
  obtain rfl := Except.pure_eq_ok_iff.mp h
  have hperm := sortedBy_perm hsorted
  have hentries : (OrdDict.ofList sorted).entries = sorted :=
    OrdDict.entries_ofList ((hperm.map _).nodup_iff.mpr s.nodes.nodup)
  have hget : (OrdDict.ofList (OrdDict.ofList sorted).entries).get? = s.nodes.get? := by
    funext k
    rw [OrdDict.ofList_entries]
    apply OrdDict.get?_eq_of_perm
    rw [hentries]
    exact hperm
  exact Prod.ext hget rfl

/-- Going on from a snapshot replays the whole history up to the order of the nodes. -/
theorem resume {A : List EventRecord} {state : EmbeddingState} {snapshot : Snapshot}
    (hA : reduce fmt A none = .ok state) (hsnapshot : serialize state = .ok snapshot)
    (B : List EventRecord) :
    (reduce fmt B (some (deserialize snapshot))).map EmbeddingState.upToOrder =
      (reduce fmt (A ++ B) none).map EmbeddingState.upToOrder := by
  rw [reduce_eq, Option.getD_none, Except.map_eq_ok_iff] at hA
  obtain ⟨p, hp, rfl⟩ := hA
  have hrestored := upToOrder_deserialize hsnapshot
  have hsequence : (deserialize snapshot).sequence =
      (A.map EventRecord.eventSequence).foldl max p.sequence :=
    congrArg (fun v => v.2.2.2.2.2) hrestored
  have hview : view (deserialize snapshot) = view p :=
    congrArg (fun v => (v.1, v.2.1, v.2.2.1, v.2.2.2.1, v.2.2.2.2.1)) hrestored
  have hfold := Fold.map_eq_of_step (applyEvent_congr fmt) hview B
  rw [reduce_eq, reduce_eq, Option.getD_some, Option.getD_none, Fold.append_of_ok hp]
  rw [Except.map_map_eq, Except.map_map_eq]
  refine Except.map_congr_of_map hfold fun t t' ht ht' hsame => ?_
  have hlast : (advance B t).sequence = (advance (A ++ B) t').sequence := by
    rw [advance, advance, sequence_foldlM ht, sequence_foldlM ht', hsequence, List.map_append,
      List.foldl_append]
  simp only [view, Prod.mk.injEq] at hsame
  obtain ⟨hget, hprovider, hmodel, hversion, hdimension⟩ := hsame
  simp only [EmbeddingState.upToOrder, Prod.mk.injEq]
  exact ⟨hget, hprovider, hmodel, hversion, hdimension, hlast⟩

end EmbeddingProjection

end RationaleVault
