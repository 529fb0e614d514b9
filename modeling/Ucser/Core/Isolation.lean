import Ucser.Core.Dispatch

/-!
# Event isolation

An event of the bus is matched with a node by comparing the `ucer_id` of the two, and a
node that has not been dispatched has the `ucer_id` `None`, which is also what an event
without the field is read as.

* `ucerId?` — the identifier a node carries; `IdStep` — what a step may do to it.
* `HandedOver` — a node has been handed to `dispatch_ucer` with a record.
* `RecordInv` — the invariant: a node carries an identifier exactly when it has been
  handed over, and then that of a record it was handed over with.
* `eventIsolated_iff` — **when an event is isolated**: when it names a `ucer_id`, or when
  every node has been handed over.
-/

namespace Ucser

namespace UCERGraph

variable {graph graph' : UCERGraph} {key key' : String}

/-! ## The identifier a node carries -/

/-- The identifier that the node under a key carries. -/
def ucerId? (graph : UCERGraph) (key : String) : Option String :=
  (graph.nodes.get? key).bind DAGNode.ucerId

theorem ucerId?_of_get? {node : DAGNode} (h : graph.nodes.get? key = some node) :
    graph.ucerId? key = node.ucerId := by
  rw [ucerId?, h, Option.bind_some]

theorem ucerId?_modify (f : DAGNode → DAGNode) :
    { graph with nodes := graph.nodes.modify key f }.ucerId? key' =
      if key' = key then (graph.nodes.get? key').bind (fun node => (f node).ucerId)
      else graph.ucerId? key' := by
  unfold ucerId?
  rw [Dict.get?_modify]
  by_cases hkey : key' = key
  · rw [if_pos hkey, if_pos hkey, Option.bind_map]
    rfl
  · rw [if_neg hkey, if_neg hkey]

@[simp] theorem ucerId?_setRunning : (graph.setRunning key).ucerId? key' = graph.ucerId? key' := by
  rw [setRunning, ucerId?_modify]
  by_cases hkey : key' = key
  · rw [if_pos hkey]
    rfl
  · rw [if_neg hkey]

@[simp] theorem ucerId?_markFailed : (graph.markFailed key).ucerId? key' = graph.ucerId? key' := by
  rw [markFailed, guarded_modify, ucerId?_modify]
  by_cases hkey : key' = key
  · rw [if_pos hkey]
    rfl
  · rw [if_neg hkey]

theorem bind_const (ucerId : Option String) :
    ((graph.nodes.get? key').bind fun _ => ucerId) =
      if key' ∈ graph.nodes.keys then ucerId else none := by
  by_cases h : key' ∈ graph.nodes.keys
  · obtain ⟨node, hnode⟩ := Dict.mem_keys_iff.mp h
    rw [if_pos h, hnode, Option.bind_some]
  · rw [if_neg h, Dict.get?_eq_none_iff.mpr h, Option.bind_none]

theorem ucerId?_setUcerId (ucerId : String) :
    (graph.setUcerId key ucerId).ucerId? key' =
      if key' = key then if key' ∈ graph.nodes.keys then some ucerId else none
      else graph.ucerId? key' := by
  rw [setUcerId, ucerId?_modify, bind_const]

theorem ucerId?_markCompleted (ucerId : Option String) :
    (graph.markCompleted key ucerId).ucerId? key' =
      if key' = key then if key' ∈ graph.nodes.keys then ucerId else none
      else graph.ucerId? key' := by
  rw [markCompleted, guarded_modify, ucerId?_modify, bind_const]

/-- The identifiers that nodes carry after a change were carried before or come from a given
relation, and no node loses its identifier. -/
structure IdStep (handed : String → String → Prop) (graph graph' : UCERGraph) : Prop where
  source : ∀ key ucerId, graph'.ucerId? key = some ucerId →
    graph.ucerId? key = some ucerId ∨ handed key ucerId
  kept : ∀ key, graph.ucerId? key ≠ none → graph'.ucerId? key ≠ none

variable {handed : String → String → Prop}

theorem idStep_of_eq (h : ∀ key, graph'.ucerId? key = graph.ucerId? key) :
    IdStep handed graph graph' :=
  ⟨fun key _ hid => Or.inl (h key ▸ hid), fun key hid => (h key).symm ▸ hid⟩

/-- A change that gives one node an identifier it has been handed over with. -/
theorem idStep_of_assign {ucerId : String} (hhanded : handed key ucerId)
    (h : ∀ key', graph'.ucerId? key' =
      if key' = key then if key' ∈ graph.nodes.keys then some ucerId else none
      else graph.ucerId? key') : IdStep handed graph graph' := by
  constructor
  · intro key' ucerId' hid
    rw [h key'] at hid
    by_cases hkey : key' = key
    · rw [if_pos hkey] at hid
      obtain ⟨_, heq⟩ := Option.ite_none_right_eq_some.mp hid
      rw [hkey, ← Option.some.inj heq]
      exact Or.inr hhanded
    · rw [if_neg hkey] at hid
      exact Or.inl hid
  · intro key' hid
    rw [h key']
    by_cases hkey : key' = key
    · have hmem : key' ∈ graph.nodes.keys := by
        by_contra hmem
        exact hid (by rw [ucerId?, Dict.get?_eq_none_iff.mpr hmem, Option.bind_none])
      rw [if_pos hkey, if_pos hmem]
      simp
    · rw [if_neg hkey]
      exact hid

/-- An event is about a node whose identifier it matches, and completes it with that. -/
theorem onJobEvent_named (hnamed : graph.Named) {event : List (String × Json.Value)}
    (h : onJobEvent graph (.obj event) = some graph') :
    ∃ key node, graph.nodes.get? key = some node ∧
      sameUcerId node.ucerId ((Json.get? event "ucer_id").getD .null) = true ∧
      (graph' = graph.markCompleted key node.ucerId ∨ graph' = graph.markFailed key) := by
  obtain ⟨fields, key, node, hobj, hmatch, hgraph⟩ := onJobEvent_cases h
  obtain rfl := Json.Value.obj.inj hobj
  have hnode : graph.nodes.get? key = some node :=
    Dict.mem_items_iff.mp (List.mem_of_find?_eq_some hmatch)
  have hid : node.nodeId = key := by
    have hkey := hnamed key
    rwa [nodeIdOf, nodeId?, hnode] at hkey
  have hsame := List.find?_some (p := fun item : String × DAGNode =>
    sameUcerId item.2.ucerId ((Json.get? event "ucer_id").getD .null)) hmatch
  rw [hid] at hgraph
  refine ⟨key, node, hnode, hsame, ?_⟩
  rcases hgraph with ⟨_, hgraph⟩ | ⟨_, hgraph⟩
  · exact Or.inl hgraph
  · exact Or.inr hgraph

/-- An event that matches a node is about one. -/
theorem exists_onJobEvent (event : List (String × Json.Value)) {node : DAGNode}
    (hnode : graph.nodes.get? key = some node)
    (hsame : sameUcerId node.ucerId ((Json.get? event "ucer_id").getD .null) = true) :
    ∃ graph', onJobEvent graph (.obj event) = some graph' := by
  cases hmatch : firstMatch graph event with
  | none =>
      have hnot := List.find?_eq_none.mp hmatch (key, node) (Dict.mem_items_iff.mpr hnode)
      exact absurd hsame hnot
  | some item =>
      unfold onJobEvent
      simp only [hmatch]
      by_cases hverdict : verdict event = true
      · exact ⟨_, if_pos hverdict⟩
      · exact ⟨_, if_neg hverdict⟩

theorem idStep_onJobEvent (hnamed : graph.Named) {event : Json.Value}
    (h : onJobEvent graph event = some graph') : IdStep handed graph graph' := by
  obtain ⟨fields, _, _, rfl, _, _⟩ := onJobEvent_cases h
  obtain ⟨key, node, hnode, _, rfl | rfl⟩ := onJobEvent_named hnamed h
  · refine idStep_of_eq fun key' => ?_
    rw [ucerId?_markCompleted]
    by_cases hkey : key' = key
    · rw [if_pos hkey, hkey, if_pos (Dict.mem_keys_of_get? hnode), ucerId?_of_get? hnode]
    · rw [if_neg hkey]
  · exact idStep_of_eq fun _ => ucerId?_markFailed

end UCERGraph

/-! ## Handing a node over -/

/-- The node and the record that are in `dispatch_ucer`, or just out of it. -/
def Pc.record : Pc → Option (String × String)
  | .dispatch key _ ucerId => some (key, ucerId)
  | .dispatched key _ ucerId => some (key, ucerId)
  | _ => none

/-- The node has been handed to `dispatch_ucer` with the record: in one of the states, or by
an earlier call, whose graph this one was given. -/
def HandedOver (given : UCERGraph) (states : List OrcState) (key ucerId : String) : Prop :=
  given.ucerId? key = some ucerId ∨ ∃ t ∈ states, ∃ rest, t.pc = .dispatch key rest ucerId

theorem HandedOver.mono {given : UCERGraph} {states states' : List OrcState}
    {key ucerId : String} (h : HandedOver given states key ucerId) (hsub : states ⊆ states') :
    HandedOver given states' key ucerId := by
  rcases h with h | ⟨t, ht, hpc⟩
  · exact Or.inl h
  · exact Or.inr ⟨t, hsub ht, hpc⟩

namespace OrcState

variable {hasBus ok : Bool} {compiled : Option String} {s s' : OrcState} {key ucerId : String}

theorem record_startNode {t : OrcState} {key' : String} {rest : List String}
    (h : (t.startNode compiled key' rest).pc.record = some (key, ucerId)) :
    (∃ rest', (t.startNode compiled key' rest).pc = .dispatch key rest' ucerId) ∧
      (t.startNode compiled key' rest).graph = (t.graph.setRunning key).setUcerId key ucerId ∧
      (t.startNode compiled key' rest).dispatched = t.dispatched ++ [key] := by
  cases compiled with
  | none => exact absurd h (by simp [startNode, fail, Pc.record])
  | some id =>
      have hrecord : some (key', id) = some (key, ucerId) := h
      obtain ⟨rfl, rfl⟩ := Prod.mk.inj (Option.some.inj hrecord)
      exact ⟨⟨rest, rfl⟩, rfl, rfl⟩

/-- The only record that going on puts into `dispatch_ucer` is that of the node it starts. -/
theorem record_goOn {t : OrcState} (hgraph : t.graph = s.graph)
    (hdispatched : t.dispatched = s.dispatched) (batch : List String)
    (h : (t.goOn compiled batch).pc.record = some (key, ucerId)) :
    (∃ rest, (t.goOn compiled batch).pc = .dispatch key rest ucerId) ∧
      (t.goOn compiled batch).graph = (s.graph.setRunning key).setUcerId key ucerId ∧
      (t.goOn compiled batch).dispatched = s.dispatched ++ [key] := by
  rw [← hgraph, ← hdispatched]
  cases batch with
  | cons key' rest => exact record_startNode h
  | nil =>
      have hgoOn : t.goOn compiled [] = t.loopTop compiled := rfl
      rw [hgoOn] at h ⊢
      obtain ⟨_, heq⟩ | ⟨_, _, heq⟩ | ⟨_, _, heq⟩ | ⟨key', rest, _, _, _, heq⟩ :=
        loopTop_cases compiled t
      · exact absurd h (by rw [heq]; simp [Pc.record])
      · exact absurd h (by rw [heq]; simp [Pc.record])
      · exact absurd h (by rw [heq]; simp [Pc.record])
      · rw [heq] at h ⊢
        exact record_startNode h

/-- **The record in `dispatch_ucer`** after a step was there before, or is that of the node
the step has started. -/
theorem record_mainStep (h : s.mainStep hasBus ok compiled = some s')
    (hrecord : s'.pc.record = some (key, ucerId)) :
    s.pc.record = some (key, ucerId) ∧ s'.graph = s.graph ∧ s'.dispatched = s.dispatched ∨
      (∃ rest, s'.pc = .dispatch key rest ucerId) ∧
        s'.graph = (s.graph.setRunning key).setUcerId key ucerId ∧
        s'.dispatched = s.dispatched ++ [key] := by
  have hnotify : ∀ batch, some (s.notify compiled batch) = some s' →
      (∃ rest, s'.pc = .dispatch key rest ucerId) ∧
        s'.graph = (s.graph.setRunning key).setUcerId key ucerId ∧
        s'.dispatched = s.dispatched ++ [key] := by
    intro batch heq
    rw [← Option.some.inj heq] at hrecord ⊢
    unfold notify at hrecord ⊢
    by_cases hfree : s.lock.free = true
    · rw [if_pos hfree] at hrecord ⊢
      exact record_goOn (notifyAll_graph s) (notifyAll_dispatched s) batch hrecord
    · rw [if_neg hfree] at hrecord
      exact absurd hrecord (by simp [Pc.record])
  have hsome : s'.pc.record ≠ none := by
    rw [hrecord]
    simp
  unfold mainStep at h
  cases hpc : s.pc with
  | checkpoint =>
      rw [hpc] at h
      cases ok with
      | true =>
          cases hasBus with
          | true => exact absurd (by rw [← Option.some.inj h]; rfl) hsome
          | false =>
              rw [← Option.some.inj h] at hrecord ⊢
              exact Or.inr (record_goOn rfl rfl [] hrecord)
      | false => exact absurd (by rw [← Option.some.inj h]; rfl) hsome
  | subscribe =>
      rw [hpc] at h
      cases ok with
      | true =>
          rw [← Option.some.inj h] at hrecord ⊢
          exact Or.inr (record_goOn (t := { s with listening := true }) rfl rfl [] hrecord)
      | false => exact absurd (by rw [← Option.some.inj h]; rfl) hsome
  | dispatch key' rest id =>
      rw [hpc] at h
      cases ok with
      | true =>
          rw [← Option.some.inj h] at hrecord ⊢
          exact Or.inl ⟨hrecord, rfl, rfl⟩
      | false => exact absurd (by rw [← Option.some.inj h]; rfl) hsome
  | dispatched key' rest id =>
      rw [hpc] at h
      cases ok with
      | true =>
          cases hasBus with
          | true =>
              rw [← Option.some.inj h] at hrecord ⊢
              exact Or.inr (record_goOn rfl rfl rest hrecord)
          | false => exact absurd (by rw [← Option.some.inj h]; rfl) hsome
      | false => exact absurd (by rw [← Option.some.inj h]; rfl) hsome
  | completed key' rest =>
      rw [hpc] at h
      cases ok with
      | true => exact Or.inr (hnotify rest h)
      | false => exact absurd (by rw [← Option.some.inj h]; rfl) hsome
  | failed =>
      rw [hpc] at h
      cases ok with
      | true => exact Or.inr (hnotify [] h)
      | false => exact absurd (by rw [← Option.some.inj h]; rfl) hsome
  | notifyLock rest =>
      rw [hpc] at h
      obtain ⟨_, heq⟩ := Option.ite_none_right_eq_some.mp h
      rw [← Option.some.inj heq] at hrecord ⊢
      exact Or.inr (record_goOn (notifyAll_graph s.popQueue)
        (notifyAll_dispatched s.popQueue) rest hrecord)
  | waitLock =>
      rw [hpc] at h
      obtain ⟨_, heq⟩ := Option.ite_none_right_eq_some.mp h
      exact absurd (by rw [← Option.some.inj heq]; rfl) hsome
  | armed =>
      rw [hpc] at h
      exact absurd (by rw [← Option.some.inj h]; rfl) hsome
  | waiting =>
      rw [hpc] at h
      exact absurd h (by simp)
  | woken t =>
      rw [hpc] at h
      dsimp only at h
      by_cases hfree : s.lock.free = true
      · rw [if_pos hfree] at h
        exact absurd (by rw [← Option.some.inj h]; rfl) hsome
      · rw [if_neg hfree] at h
        exact absurd (by rw [← Option.some.inj h]; rfl) hsome
  | relocking t =>
      rw [hpc] at h
      obtain ⟨_, heq⟩ := Option.ite_none_right_eq_some.mp h
      exact absurd (by rw [← Option.some.inj heq]; rfl) hsome
  | relocked t =>
      rw [hpc] at h
      cases t with
      | true => exact absurd (by rw [← Option.some.inj h]; rfl) hsome
      | false =>
          rw [← Option.some.inj h] at hrecord ⊢
          exact Or.inr (record_goOn (t := { s with lock := { s.lock with locked := false } })
            rfl rfl [] hrecord)
  | returned b =>
      rw [hpc] at h
      exact absurd h (by simp)
  | raised =>
      rw [hpc] at h
      exact absurd h (by simp)

theorem notifyAll_record (s : OrcState) : s.notifyAll.pc.record = s.pc.record := by
  unfold notifyAll
  split
  · rename_i hpc
    rw [hpc]
    rfl
  · rfl

end OrcState

/-! ## The invariant -/

/-- The invariant of the identifiers, for the graph given, the states gone through and the
state reached. -/
structure RecordInv (given : UCERGraph) (past : List OrcState) (s : OrcState) : Prop where
  shape : UCERGraph.SameShape given s.graph
  source : ∀ key ucerId, s.graph.ucerId? key = some ucerId →
    HandedOver given (past ++ [s]) key ucerId
  carried : ∀ key ucerId, HandedOver given (past ++ [s]) key ucerId → key ∈ given.nodes.keys →
    s.graph.ucerId? key ≠ none
  current : ∀ key ucerId, s.pc.record = some (key, ucerId) →
    HandedOver given (past ++ [s]) key ucerId

namespace RecordInv

variable {given : UCERGraph} {past : List OrcState} {s s' : OrcState} {compiled : Option String}

theorem init (given : UCERGraph) : RecordInv given [] { graph := given } where
  shape := UCERGraph.SameShape.refl given
  source := fun _ _ h => Or.inl h
  carried := by
    intro key ucerId h _
    rcases h with h | ⟨t, ht, rest, hpc⟩
    · rw [h]
      simp
    · rw [List.nil_append, List.mem_singleton] at ht
      rw [ht] at hpc
      exact absurd hpc (by simp)
  current := fun _ _ h => absurd h (by simp [Pc.record])

theorem mono (hhanded : HandedOver given (past ++ [s]) key ucerId) (s' : OrcState) :
    HandedOver given ((past ++ [s]) ++ [s']) key ucerId :=
  hhanded.mono (List.subset_append_left _ _)

/-- A step after which the record in `dispatch_ucer` is the one before, or none. -/
theorem update (h : RecordInv given past s) (hshape : UCERGraph.SameShape s.graph s'.graph)
    (hids : UCERGraph.IdStep (HandedOver given (past ++ [s])) s.graph s'.graph)
    (hrecord : s'.pc.record = s.pc.record ∨ s'.pc.record = none) :
    RecordInv given (past ++ [s]) s' := by
  have hcurrent : ∀ key ucerId, s'.pc.record = some (key, ucerId) →
      HandedOver given (past ++ [s]) key ucerId := by
    intro key ucerId hsome
    rcases hrecord with heq | heq
    · exact h.current key ucerId (heq ▸ hsome)
    · rw [heq] at hsome
      exact absurd hsome (by simp)
  refine ⟨h.shape.trans hshape, ?_, ?_, fun key ucerId hsome => mono (hcurrent key ucerId hsome) s'⟩
  · intro key ucerId hid
    rcases hids.source key ucerId hid with hid | hhanded
    · exact mono (h.source key ucerId hid) s'
    · exact mono hhanded s'
  · intro key ucerId hhanded hkey
    refine hids.kept key ?_
    rcases hhanded with hgiven | ⟨t, ht, rest, hpc⟩
    · exact h.carried key ucerId (Or.inl hgiven) hkey
    · rcases List.mem_append.mp ht with ht | ht
      · exact h.carried key ucerId (Or.inr ⟨t, ht, rest, hpc⟩) hkey
      · obtain rfl := List.mem_singleton.mp ht
        exact h.carried key ucerId (hcurrent key ucerId (by rw [hpc]; rfl)) hkey

/-- Nothing happens. -/
theorem stay (h : RecordInv given past s) : RecordInv given (past ++ [s]) s :=
  h.update (UCERGraph.SameShape.refl _) (UCERGraph.idStep_of_eq fun _ => rfl) (Or.inl rfl)

/-- A node is handed over. -/
theorem handOver (h : RecordInv given past s) {key ucerId : String} {rest : List String}
    (hpc : s'.pc = .dispatch key rest ucerId)
    (hgraph : s'.graph = (s.graph.setRunning key).setUcerId key ucerId) :
    RecordInv given (past ++ [s]) s' := by
  have hnew : HandedOver given ((past ++ [s]) ++ [s']) key ucerId :=
    Or.inr ⟨s', by simp, rest, hpc⟩
  have hshape : UCERGraph.SameShape s.graph s'.graph := by
    rw [hgraph]
    exact (UCERGraph.sameShape_setRunning key).trans (UCERGraph.sameShape_setUcerId _ _)
  have hids : UCERGraph.IdStep (HandedOver given ((past ++ [s]) ++ [s'])) s.graph s'.graph := by
    refine UCERGraph.idStep_of_assign hnew fun key' => ?_
    simp [hgraph, UCERGraph.ucerId?_setUcerId, (UCERGraph.sameShape_setRunning key).keys]
  refine ⟨h.shape.trans hshape, ?_, ?_, ?_⟩
  · intro key' ucerId' hid
    rcases hids.source key' ucerId' hid with hid | hhanded
    · exact mono (h.source key' ucerId' hid) s'
    · exact hhanded
  · intro key' ucerId' hhanded hkey
    rcases hhanded with hgiven | ⟨t, ht, rest', hpc'⟩
    · exact hids.kept key' (h.carried key' ucerId' (Or.inl hgiven) hkey)
    · rcases List.mem_append.mp ht with ht | ht
      · exact hids.kept key' (h.carried key' ucerId' (Or.inr ⟨t, ht, rest', hpc'⟩) hkey)
      · -- the node that has just been handed over carries the identifier assigned to it
        rw [List.mem_singleton.mp ht, hpc] at hpc'
        obtain ⟨rfl, _, _⟩ := Pc.dispatch.inj hpc'
        rw [hgraph, UCERGraph.ucerId?_setUcerId, if_pos rfl,
          if_pos ((h.shape.trans (UCERGraph.sameShape_setRunning key)).keys ▸ hkey)]
        simp
  · intro key' ucerId' hrecord
    rw [hpc] at hrecord
    obtain ⟨rfl, rfl⟩ := Prod.mk.inj (Option.some.inj hrecord)
    exact hnew

/-- A step of `execute_graph` preserves the invariant. -/
theorem mainStep {hasBus ok : Bool} (hnamed : given.Named) (h : RecordInv given past s)
    (hstep : s.mainStep hasBus ok compiled = some s') : RecordInv given (past ++ [s]) s' := by
  cases hrecord : s'.pc.record with
  | some record =>
      obtain ⟨key, ucerId⟩ := record
      obtain ⟨hsame, hgraph, _⟩ | ⟨⟨rest, hpc⟩, hgraph, _⟩ :=
        OrcState.record_mainStep hstep hrecord
      · refine h.update ?_ ?_ (Or.inl (hrecord.trans hsame.symm))
        · rw [hgraph]
          exact UCERGraph.SameShape.refl _
        · rw [hgraph]
          exact UCERGraph.idStep_of_eq fun _ => rfl
      · exact h.handOver hpc hgraph
  | none =>
      have hsame : ∀ s' : OrcState, s'.pc.record = none → s'.graph = s.graph →
          RecordInv given (past ++ [s]) s' := by
        intro s' hnone hg
        refine h.update ?_ ?_ (Or.inr hnone)
        · rw [hg]
          exact UCERGraph.SameShape.refl _
        · rw [hg]
          exact UCERGraph.idStep_of_eq fun _ => rfl
      cases OrcState.mainStep_effect_cases hstep with
      | keep lock pc _ _ heq =>
          rw [heq] at hrecord ⊢
          exact hsame _ hrecord rfl
      | fail key _ heq =>
          rw [heq] at hrecord ⊢
          exact h.update (UCERGraph.sameShape_markFailed _)
            (UCERGraph.idStep_of_eq fun _ => UCERGraph.ucerId?_markFailed) (Or.inr hrecord)
      | complete key rest ucerId hpc _ heq =>
          have hhanded : HandedOver given (past ++ [s]) key ucerId :=
            h.current key ucerId (by rw [hpc]; rfl)
          rw [← h.shape.named hnamed key] at hhanded
          rw [heq] at hrecord ⊢
          exact h.update (UCERGraph.sameShape_markCompleted _ _)
            (UCERGraph.idStep_of_assign hhanded fun _ => UCERGraph.ucerId?_markCompleted _)
            (Or.inr hrecord)
      | goOn lock listening heq =>
          rw [heq] at hrecord ⊢
          obtain ⟨key, rest, _, heq⟩ | ⟨pc, lock', _, heq⟩ := OrcState.goOn_cases compiled
            s.pc.batch { s with lock := lock, listening := listening }
          · rw [heq] at hrecord ⊢
            cases compiled with
            | none =>
                exact h.update ((UCERGraph.sameShape_setRunning key).trans
                  (UCERGraph.sameShape_markFailed _))
                  (UCERGraph.idStep_of_eq fun _ =>
                    UCERGraph.ucerId?_markFailed.trans UCERGraph.ucerId?_setRunning)
                  (Or.inr hrecord)
            | some ucerId => exact absurd hrecord (by simp [OrcState.startNode, Pc.record])
          · rw [heq] at hrecord ⊢
            exact hsame _ hrecord rfl

/-- A step of a handler preserves the invariant. -/
theorem handlerStep {i : Nat} {ok : Bool} (h : RecordInv given past s)
    (hstep : s.handlerStep i ok = some s') : RecordInv given (past ++ [s]) s' := by
  have hsame : ∀ s' : OrcState, s'.graph = s.graph → s'.pc.record = s.pc.record →
      RecordInv given (past ++ [s]) s' := by
    intro s' hg hrecord
    refine h.update ?_ ?_ (Or.inl hrecord)
    · rw [hg]
      exact UCERGraph.SameShape.refl _
    · rw [hg]
      exact UCERGraph.idStep_of_eq fun _ => rfl
  cases OrcState.handlerStep_cases hstep with
  | raise _ _ heq =>
      rw [heq]
      exact hsame _ rfl rfl
  | notifyNow _ _ heq =>
      rw [heq]
      exact hsame _ (by simp) (OrcState.notifyAll_record s)
  | queue _ _ heq =>
      rw [heq]
      exact hsame _ rfl rfl
  | notifyLater _ _ heq =>
      rw [heq]
      exact hsame _ (by simp [OrcState.popQueue]) (OrcState.notifyAll_record s.popQueue)

/-- Every step preserves the invariant. -/
theorem step {hasBus : Bool} {a : Action} (hnamed : given.Named) (h : RecordInv given past s)
    (hstep : (orchestrator hasBus).step s a = some s') : RecordInv given (past ++ [s]) s' := by
  cases a with
  | main ok compiled => exact h.mainStep hnamed hstep
  | deliver event =>
      obtain rfl | ⟨graph', hevent, rfl⟩ := OrcState.deliverStep_cases hstep
      · exact h.stay
      · exact h.update (UCERGraph.sameShape_onJobEvent hevent)
          (UCERGraph.idStep_onJobEvent (h.shape.named hnamed) hevent) (Or.inl rfl)
  | handler i ok => exact h.handlerStep hstep
  | timeout =>
      obtain ⟨_, rfl⟩ | ⟨_, rfl⟩ := OrcState.timeoutStep_cases hstep
      · exact h.update (UCERGraph.SameShape.refl _) (UCERGraph.idStep_of_eq fun _ => rfl)
          (Or.inr rfl)
      · exact h.update (UCERGraph.SameShape.refl _) (UCERGraph.idStep_of_eq fun _ => rfl)
          (Or.inr rfl)

/-- The invariant holds after every run. -/
theorem run (hasBus : Bool) (hnamed : given.Named) (actions : List Action) :
    RecordInv given ((orchestrator hasBus).past { graph := given } actions)
      ((orchestrator hasBus).run { graph := given } actions) :=
  System.past_invariant (fun _ _ _ _ h hstep => h.step hnamed hstep) (fun _ _ h => h.stay)
    (init given) actions

end RecordInv

/-! ## Isolation -/

/-- The event is isolated in the state after a run: its verdict goes to one node, which has
been handed over with the record that the event names, and to no other. -/
def EventIsolated (hasBus : Bool) (given : UCERGraph) (actions : List Action)
    (event : List (String × Json.Value)) : Prop :=
  let s := (orchestrator hasBus).run { graph := given } actions
  ∀ graph', onJobEvent s.graph (.obj event) = some graph' →
    ∃ key ucerId,
      HandedOver given ((orchestrator hasBus).past { graph := given } actions ++ [s]) key ucerId ∧
        s.graph.ucerId? key = some ucerId ∧
        Json.get? event "ucer_id" = some (.str ucerId) ∧
        (graph' = s.graph.markCompleted key (some ucerId) ∨ graph' = s.graph.markFailed key) ∧
        ∀ key', key' ≠ key → graph'.status? key' = s.graph.status? key'

/-- The event names no `ucer_id`: it has none, or it has `null`. -/
def NamesNothing (event : List (String × Json.Value)) : Prop :=
  (Json.get? event "ucer_id").getD .null = .null

/-- Every node of the graph has been handed over. -/
def AllHandedOver (hasBus : Bool) (given : UCERGraph) (actions : List Action) : Prop :=
  ∀ key ∈ given.nodes.keys, ∃ ucerId,
    HandedOver given ((orchestrator hasBus).past { graph := given } actions ++
      [(orchestrator hasBus).run { graph := given } actions]) key ucerId

/-- An identifier is matched with a value of the event that is the same string, or with
`null` if there is none. -/
theorem sameUcerId_cases {own : Option String} {value : Json.Value}
    (h : sameUcerId own value = true) :
    (∃ ucerId, own = some ucerId ∧ value = .str ucerId) ∨ own = none ∧ value = .null := by
  unfold sameUcerId at h
  split at h
  · exact Or.inr ⟨rfl, rfl⟩
  · exact Or.inl ⟨_, rfl, by rw [of_decide_eq_true h]⟩
  · exact absurd h (by simp)

theorem get?_of_getD_str {event : List (String × Json.Value)} {key ucerId : String}
    (h : (Json.get? event key).getD .null = .str ucerId) :
    Json.get? event key = some (.str ucerId) := by
  cases hget : Json.get? event key with
  | none =>
      rw [hget] at h
      exact absurd h (by simp)
  | some value =>
      rw [hget] at h
      exact congrArg some h

theorem exists_not_handedOver {hasBus : Bool} {given : UCERGraph} {actions : List Action}
    (h : ¬ AllHandedOver hasBus given actions) :
    ∃ key ∈ given.nodes.keys, ∀ ucerId,
      ¬ HandedOver given ((orchestrator hasBus).past { graph := given } actions ++
        [(orchestrator hasBus).run { graph := given } actions]) key ucerId := by
  by_contra hnot
  refine h fun key hkey => ?_
  by_contra hnever
  exact hnot ⟨key, hkey, fun ucerId hhanded => hnever ⟨ucerId, hhanded⟩⟩

/-- **When an event is isolated.**  In every state that `execute_graph` reaches, an event
gives its verdict only to the one node that has been dispatched with the record it names, if
and only if it names a `ucer_id` at all, or every node has been dispatched. -/
theorem eventIsolated_iff (hasBus : Bool) (nodes : List DAGNode) (actions : List Action)
    (event : List (String × Json.Value)) :
    EventIsolated hasBus (.ofNodes nodes) actions event ↔
      ¬ NamesNothing event ∨ AllHandedOver hasBus (.ofNodes nodes) actions := by
  have hnamed := UCERGraph.named_ofNodes nodes
  have hinv := RecordInv.run hasBus hnamed actions
  have hnamed' := hinv.shape.named hnamed
  constructor
  · intro hisolated
    by_contra hnot
    obtain ⟨hnothing, hall⟩ := not_or.mp hnot
    have hnull : (Json.get? event "ucer_id").getD .null = .null := not_not.mp hnothing
    obtain ⟨key, hkey, hnever⟩ := exists_not_handedOver hall
    -- a node that has not been handed over carries no identifier, so the event matches one
    obtain ⟨node, hnode⟩ := Dict.mem_keys_iff.mp (hinv.shape.keys ▸ hkey)
    have hid : node.ucerId = none := by
      by_contra hsome
      obtain ⟨ucerId, hucerId⟩ := Option.ne_none_iff_exists'.mp hsome
      exact hnever ucerId (hinv.source key ucerId ((UCERGraph.ucerId?_of_get? hnode).trans hucerId))
    obtain ⟨graph', hgraph'⟩ := UCERGraph.exists_onJobEvent event hnode (by rw [hid, hnull]; rfl)
    obtain ⟨_, _, _, _, hnames, _⟩ := hisolated graph' hgraph'
    rw [hnames] at hnull
    exact absurd hnull (by simp)
  · intro hcond graph' hgraph'
    obtain ⟨key, node, hnode, hsame, hverdict⟩ := UCERGraph.onJobEvent_named hnamed' hgraph'
    have hkey : key ∈ (UCERGraph.ofNodes nodes).nodes.keys :=
      hinv.shape.keys ▸ Dict.mem_keys_of_get? hnode
    have hid := UCERGraph.ucerId?_of_get? hnode
    obtain ⟨ucerId, hucerId, hvalue⟩ | ⟨hnone, hnull⟩ := sameUcerId_cases hsame
    · rw [hucerId] at hid hverdict
      refine ⟨key, ucerId, hinv.source key ucerId hid, hid, get?_of_getD_str hvalue, hverdict, ?_⟩
      intro key' hne
      rcases hverdict with rfl | rfl
      · rw [UCERGraph.status?_markCompleted, if_neg hne]
      · rw [UCERGraph.status?_markFailed, if_neg hne]
    · -- without an identifier of its own the node has not been handed over
      rcases hcond with hnames | hall
      · exact absurd hnull hnames
      · obtain ⟨ucerId, hhanded⟩ := hall key hkey
        exact absurd (hid.trans hnone) (hinv.carried key ucerId hhanded hkey)

/-- A task that another one waits for, and that one. -/
def twoInSequence : List DAGNode :=
  [{ nodeId := "a", intent := "build" }, { nodeId := "b", intent := "test", dependsOn := ["a"] }]

/-- While the first task runs, an event that names no record completes the second one, which
has never been dispatched. -/
theorem unnamed_event_not_isolated :
    ¬ EventIsolated true (.ofNodes twoInSequence)
      [.main true none, .main true (some "ua"), .main true none]
      [("success", .bool true)] := by
  intro h
  obtain ⟨_, _, _, _, hnames, _⟩ := h _ rfl
  exact absurd hnames (by simp [Json.get?])

end Ucser
