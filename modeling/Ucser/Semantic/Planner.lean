import Ucser.Core.Isolation
import Ucser.Core.Schedule
import Ucser.Core.Terminal
import Ucser.Core.Validation

/-!
# From a plan to its execution: `semantic/planner.py`

The planner turns the raw nodes of a plan, which a language model wrote, into a graph, and
`execute_graph` works the graph off.

* `DAGNode.ofRaw`, `planWorkflow` — the loop of `plan_workflow` over the raw nodes.
* `planWorkflow_eq` — it builds the graph of the nodes the entries describe.
* `Undisturbed` — the invariant without a bus: what is completed has been dispatched.
* `plan_executed` — **a plan with distinct ids is executed as written** when
  `execute_graph` returns `True`: every entry is dispatched once, with its own intent, after
  the entries it depends on.
* `plan_not_faithful` — an entry is lost when another one has its id, and the id of a task
  that is not in the plan is ignored.
-/

namespace Ucser

/-! ## Building the graph -/

/-- `raw.get("depends_on", [])`. -/
def rawDependsOn (raw : Json.Value) : Json.Value :=
  match raw with
  | .obj fields => (Json.get? fields "depends_on").getD (.arr [])
  | _ => .arr []

/-- The `DAGNode` of a raw node, whose `name` is checked like the other fields. -/
def DAGNode.ofRaw (raw : Json.Value) : Except PyError DAGNode := do
  let id ← getItem raw "id"
  let name ← getItem raw "name"
  let intent ← getItem raw "intent"
  let nodeId ← validateStr id
  let _ ← validateStr name
  let intent ← validateStr intent
  let dependsOn ← validateStrs (rawDependsOn raw)
  return { nodeId := nodeId, intent := intent, dependsOn := dependsOn }

/-- `plan_workflow` from the raw nodes on. -/
def planWorkflow (rawNodes : List Json.Value) : Except PyError UCERGraph :=
  rawNodes.foldlM (fun graph raw => do
    let node ← DAGNode.ofRaw raw
    return graph.addNode node) {}

theorem foldlM_addNode (rawNodes : List Json.Value) (graph : UCERGraph) :
    rawNodes.foldlM (fun graph raw => do
      let node ← DAGNode.ofRaw raw
      return graph.addNode node) graph =
      (rawNodes.mapM DAGNode.ofRaw).map (fun nodes => nodes.foldl UCERGraph.addNode graph) := by
  induction rawNodes generalizing graph with
  | nil => rfl
  | cons raw rest ih =>
      rw [List.foldlM_cons, List.mapM_cons]
      cases DAGNode.ofRaw raw with
      | error e => rfl
      | ok node =>
          show rest.foldlM _ (graph.addNode node) = _
          rw [ih]
          show (rest.mapM DAGNode.ofRaw).map _ = (rest.mapM DAGNode.ofRaw >>= _).map _
          cases rest.mapM DAGNode.ofRaw with
          | error e => rfl
          | ok nodes => rfl

/-- The graph of a plan is that of the nodes its entries describe. -/
theorem planWorkflow_eq (rawNodes : List Json.Value) :
    planWorkflow rawNodes = (rawNodes.mapM DAGNode.ofRaw).map UCERGraph.ofNodes :=
  foldlM_addNode rawNodes {}

/-- A node that comes from a raw node is pending. -/
theorem status_of_ofRaw {raw : Json.Value} {node : DAGNode} (h : DAGNode.ofRaw raw = .ok node) :
    node.status = .pending := by
  obtain ⟨_, _, h⟩ := exists_of_bind_eq_ok h
  obtain ⟨_, _, h⟩ := exists_of_bind_eq_ok h
  obtain ⟨_, _, h⟩ := exists_of_bind_eq_ok h
  obtain ⟨_, _, h⟩ := exists_of_bind_eq_ok h
  obtain ⟨_, _, h⟩ := exists_of_bind_eq_ok h
  obtain ⟨_, _, h⟩ := exists_of_bind_eq_ok h
  obtain ⟨_, _, h⟩ := exists_of_bind_eq_ok h
  rw [← Except.ok.inj h]

theorem status_of_mapM {rawNodes : List Json.Value} {nodes : List DAGNode}
    (h : rawNodes.mapM DAGNode.ofRaw = .ok nodes) : ∀ node ∈ nodes, node.status = .pending := by
  induction rawNodes generalizing nodes with
  | nil =>
      obtain rfl : [] = nodes := Except.ok.inj h
      simp
  | cons raw rest ih =>
      rw [List.mapM_cons] at h
      obtain ⟨node, hnode, h⟩ := exists_of_bind_eq_ok h
      obtain ⟨others, hothers, h⟩ := exists_of_bind_eq_ok h
      obtain rfl : node :: others = nodes := Except.ok.inj h
      exact List.forall_mem_cons.mpr ⟨status_of_ofRaw hnode, ih hothers⟩

namespace UCERGraph

/-! ## The nodes of a graph that was built -/

theorem get?_addNode (graph : UCERGraph) (node : DAGNode) (key : String) :
    (graph.addNode node).nodes.get? key =
      if key = node.nodeId then some node else graph.nodes.get? key :=
  Dict.get?_insert _ _ _ _

/-- The keys are the ids of the nodes. -/
theorem mem_keys_foldl_addNode {nodes : List DAGNode} {graph : UCERGraph} {key : String} :
    key ∈ (nodes.foldl addNode graph).nodes.keys ↔
      key ∈ graph.nodes.keys ∨ key ∈ nodes.map DAGNode.nodeId := by
  induction nodes generalizing graph with
  | nil => simp
  | cons node rest ih =>
      rw [List.foldl_cons, ih, List.map_cons, List.mem_cons]
      have hinsert : key ∈ (graph.addNode node).nodes.keys ↔
          key = node.nodeId ∨ key ∈ graph.nodes.keys := Dict.mem_keys_insert
      rw [hinsert]
      tauto

/-- What later nodes do not replace stays. -/
theorem get?_foldl_addNode {nodes : List DAGNode} {graph : UCERGraph} {key : String}
    (h : key ∉ nodes.map DAGNode.nodeId) :
    (nodes.foldl addNode graph).nodes.get? key = graph.nodes.get? key := by
  induction nodes generalizing graph with
  | nil => rfl
  | cons node rest ih =>
      rw [List.map_cons, List.mem_cons, not_or] at h
      rw [List.foldl_cons, ih h.2, get?_addNode, if_neg h.1]

/-- With distinct ids every node is stored under its own. -/
theorem get?_ofNodes {nodes : List DAGNode} (hdistinct : (nodes.map DAGNode.nodeId).Nodup)
    {node : DAGNode} (h : node ∈ nodes) : (ofNodes nodes).nodes.get? node.nodeId = some node := by
  obtain ⟨before, after, rfl⟩ := List.append_of_mem h
  rw [List.map_append, List.map_cons, List.nodup_append, List.nodup_cons] at hdistinct
  obtain ⟨_, ⟨hafter, _⟩, _⟩ := hdistinct
  rw [ofNodes, List.foldl_append, List.foldl_cons, get?_foldl_addNode hafter, get?_addNode,
    if_pos rfl]

theorem completed_of_setRunning {graph : UCERGraph} {key key' : String}
    (h : (graph.setRunning key).status? key' = some .completed) :
    graph.status? key' = some .completed :=
  status?_of_ne_assigned (by decide) status?_setRunning h

theorem completed_of_markFailed {graph : UCERGraph} {key key' : String}
    (h : (graph.markFailed key).status? key' = some .completed) :
    graph.status? key' = some .completed :=
  status?_of_ne_assigned (by decide) status?_markFailed h

theorem fresh_ofNodes {nodes : List DAGNode} (h : ∀ node ∈ nodes, node.status = .pending) :
    (ofNodes nodes).Fresh :=
  fresh_foldl_addNode h fresh_empty

end UCERGraph

/-! ## Runs without a bus -/

/-- Nobody but `execute_graph` is at work: no event is listened for and no handler runs. -/
structure Quiet (s : OrcState) : Prop where
  deaf : s.listening = false
  alone : s.handlers = []
  unsubscribed : s.pc ≠ .subscribe

namespace Quiet

variable {s s' t : OrcState} {compiled : Option String}

theorem setPc (h : Quiet s) {pc : Pc} (hpc : pc ≠ .subscribe) : Quiet { s with pc := pc } :=
  ⟨h.deaf, h.alone, hpc⟩

theorem startNode (hdeaf : t.listening = false) (halone : t.handlers = []) (key : String)
    (rest : List String) : Quiet (t.startNode compiled key rest) := by
  cases compiled with
  | none => exact ⟨hdeaf, halone, by simp [OrcState.startNode, OrcState.fail]⟩
  | some ucerId => exact ⟨hdeaf, halone, by simp [OrcState.startNode]⟩

theorem goOn (hdeaf : t.listening = false) (halone : t.handlers = []) (batch : List String) :
    Quiet (t.goOn compiled batch) := by
  cases batch with
  | cons key rest => exact startNode hdeaf halone key rest
  | nil =>
      show Quiet (t.loopTop compiled)
      obtain ⟨_, heq⟩ | ⟨_, _, heq⟩ | ⟨_, _, heq⟩ | ⟨key, rest, _, _, _, heq⟩ :=
        OrcState.loopTop_cases compiled t
      · exact heq ▸ ⟨hdeaf, halone, by simp⟩
      · exact heq ▸ ⟨hdeaf, halone, by simp⟩
      · exact heq ▸ ⟨hdeaf, halone, by simp⟩
      · exact heq ▸ startNode hdeaf halone key rest

theorem notify (h : Quiet s) (batch : List String) : Quiet (s.notify compiled batch) := by
  unfold OrcState.notify
  by_cases hfree : s.lock.free = true
  · rw [if_pos hfree]
    unfold OrcState.notifyAll
    split
    · exact goOn h.deaf h.alone batch
    · exact goOn h.deaf h.alone batch
  · rw [if_neg hfree]
    exact ⟨h.deaf, h.alone, by simp⟩

theorem mainStep {ok : Bool} (h : Quiet s) (hstep : s.mainStep false ok compiled = some s') :
    Quiet s' := by
  have hset : ∀ {graph lock pc}, pc ≠ .subscribe →
      some { s with graph := graph, lock := lock, pc := pc } = some s' → Quiet s' := by
    intro graph lock pc hpc heq
    rw [← Option.some.inj heq]
    exact ⟨h.deaf, h.alone, hpc⟩
  have hgoOn : ∀ lock batch, some ({ s with lock := lock }.goOn compiled batch) = some s' →
      Quiet s' := by
    intro lock batch heq
    rw [← Option.some.inj heq]
    exact goOn (t := { s with lock := lock }) h.deaf h.alone batch
  have hnotify : ∀ batch, some (s.notify compiled batch) = some s' → Quiet s' := by
    intro batch heq
    rw [← Option.some.inj heq]
    exact h.notify batch
  unfold OrcState.mainStep at hstep
  cases hpc : s.pc with
  | checkpoint =>
      rw [hpc] at hstep
      cases ok with
      | true => exact hgoOn s.lock [] hstep
      | false => exact hset (by simp) hstep
  | subscribe => exact absurd hpc h.unsubscribed
  | dispatch key rest ucerId =>
      rw [hpc] at hstep
      cases ok with
      | true => exact hset (by simp) hstep
      | false => exact hset (by simp) hstep
  | dispatched key rest ucerId =>
      rw [hpc] at hstep
      cases ok with
      | true => exact hset (by simp) hstep
      | false => exact hset (by simp) hstep
  | completed key rest =>
      rw [hpc] at hstep
      cases ok with
      | true => exact hnotify rest hstep
      | false => exact hset (by simp) hstep
  | failed =>
      rw [hpc] at hstep
      cases ok with
      | true => exact hnotify [] hstep
      | false => exact hset (by simp) hstep
  | notifyLock rest =>
      rw [hpc] at hstep
      obtain ⟨_, heq⟩ := Option.ite_none_right_eq_some.mp hstep
      rw [OrcState.notifyAll_of_ne_waiting (by simp [OrcState.popQueue, hpc])] at heq
      exact hgoOn _ rest heq
  | waitLock =>
      rw [hpc] at hstep
      exact hset (by simp) (Option.ite_none_right_eq_some.mp hstep).2
  | armed =>
      rw [hpc] at hstep
      exact hset (by simp) hstep
  | waiting =>
      rw [hpc] at hstep
      exact absurd hstep (by simp)
  | woken t =>
      rw [hpc] at hstep
      dsimp only at hstep
      by_cases hfree : s.lock.free = true
      · rw [if_pos hfree] at hstep
        exact hset (by simp) hstep
      · rw [if_neg hfree] at hstep
        exact hset (by simp) hstep
  | relocking t =>
      rw [hpc] at hstep
      exact hset (by simp) (Option.ite_none_right_eq_some.mp hstep).2
  | relocked t =>
      rw [hpc] at hstep
      cases t with
      | true => exact hset (by simp) hstep
      | false => exact hgoOn _ [] hstep
  | returned b =>
      rw [hpc] at hstep
      exact absurd hstep (by simp)
  | raised =>
      rw [hpc] at hstep
      exact absurd hstep (by simp)

end Quiet

/-- The invariant of a call without a bus on a graph of pending nodes: what is completed, or
about to be, has been dispatched. -/
structure Undisturbed (s : OrcState) : Prop where
  quiet : Quiet s
  sent : ∀ key ucerId, s.pc.record = some (key, ucerId) → key ∈ s.dispatched
  done : ∀ key, s.graph.status? key = some .completed → key ∈ s.dispatched
  returned : ReturnedComplete s

namespace Undisturbed

variable {s s' : OrcState} {compiled : Option String}

theorem init {given : UCERGraph} (hfresh : given.Fresh) : Undisturbed { graph := given } where
  quiet := ⟨rfl, rfl, by simp⟩
  sent := fun _ _ h => absurd h (by simp [Pc.record])
  done := by
    intro key h
    have hpending := hfresh.pending key (UCERGraph.mem_keys_iff_status?.mpr ⟨_, h⟩)
    exact absurd (hpending.symm.trans h) (by simp)
  returned := fun h => absurd h (by simp)

/-- Going on completes no node. -/
theorem done_goOn (h : Undisturbed s) {t : OrcState} (hgraph : t.graph = s.graph)
    (hdispatched : t.dispatched = s.dispatched) (batch : List String) {key : String}
    (hkey : (t.goOn compiled batch).graph.status? key = some .completed) :
    key ∈ (t.goOn compiled batch).dispatched := by
  have hstart : ∀ {key' rest}, (t.startNode compiled key' rest).graph.status? key =
      some .completed → key ∈ (t.startNode compiled key' rest).dispatched := by
    intro key' rest hcompleted
    have hrunning : (t.graph.setRunning key').status? key = some .completed := by
      cases compiled with
      | none => exact UCERGraph.completed_of_markFailed hcompleted
      | some ucerId => exact UCERGraph.status?_setUcerId.symm.trans hcompleted
    have hbefore := UCERGraph.completed_of_setRunning hrunning
    rw [hgraph] at hbefore
    have hmem : key ∈ t.dispatched := hdispatched ▸ h.done key hbefore
    cases compiled with
    | none => exact hmem
    | some ucerId => exact List.mem_append_left _ hmem
  obtain ⟨key', rest, _, heq⟩ | ⟨pc, lock, _, heq⟩ := OrcState.goOn_cases compiled batch t
  · rw [heq] at hkey ⊢
    exact hstart hkey
  · rw [heq] at hkey ⊢
    exact hdispatched ▸ h.done key (hgraph ▸ hkey)

/-- A step of `execute_graph` preserves the invariant. -/
theorem mainStep {ok : Bool} (hnamed : s.graph.Named) (h : Undisturbed s)
    (hstep : s.mainStep false ok compiled = some s') : Undisturbed s' := by
  have hsent : ∀ key ucerId, s'.pc.record = some (key, ucerId) → key ∈ s'.dispatched := by
    intro key ucerId hrecord
    obtain ⟨hbefore, _, hsame⟩ | ⟨_, _, hnew⟩ := OrcState.record_mainStep hstep hrecord
    · exact hsame ▸ h.sent key ucerId hbefore
    · rw [hnew]
      exact List.mem_append_right _ List.mem_cons_self
  have hquiet := h.quiet.mainStep hstep
  have hreturned := returnedComplete_mainStep hstep
  cases OrcState.mainStep_effect_cases hstep with
  | keep lock pc _ _ heq =>
      subst heq
      exact ⟨hquiet, hsent, h.done, hreturned⟩
  | fail key _ heq =>
      subst heq
      refine ⟨hquiet, hsent, ?_, hreturned⟩
      intro key' hkey'
      exact h.done key' (UCERGraph.completed_of_markFailed hkey')
  | complete key rest ucerId hpc _ heq =>
      subst heq
      refine ⟨hquiet, hsent, ?_, hreturned⟩
      intro key' hkey'
      dsimp only at hkey'
      rw [hnamed key, UCERGraph.status?_markCompleted] at hkey'
      by_cases hkey : key' = key
      · rw [hkey]
        exact h.sent key ucerId (by rw [hpc]; rfl)
      · rw [if_neg hkey] at hkey'
        exact h.done key' hkey'
  | goOn lock listening heq =>
      subst heq
      refine ⟨hquiet, hsent, ?_, hreturned⟩
      exact fun key => h.done_goOn (t := { s with lock := lock, listening := listening }) rfl rfl _

/-- Every step preserves the invariant. -/
theorem step {a : Action} (hnamed : s.graph.Named) (h : Undisturbed s)
    (hstep : (orchestrator false).step s a = some s') : Undisturbed s' := by
  cases a with
  | main ok compiled => exact h.mainStep hnamed hstep
  | deliver event =>
      obtain ⟨hlistening, _⟩ := Option.ite_none_right_eq_some.mp hstep
      rw [h.quiet.deaf] at hlistening
      exact absurd hlistening (by decide)
  | handler i ok =>
      have hnone : s.handlers[i]? = none := by rw [h.quiet.alone]; rfl
      have hstep' : s.handlerStep i ok = some s' := hstep
      unfold OrcState.handlerStep at hstep'
      rw [hnone] at hstep'
      exact absurd hstep' (by simp)
  | timeout =>
      have hset : ∀ pc : Pc, pc ≠ .subscribe → pc.record = none → pc ≠ .returned true →
          Undisturbed { s with pc := pc } := by
        intro pc hsubscribe hrecord hreturned
        refine ⟨h.quiet.setPc hsubscribe, ?_, h.done, fun hpc => absurd hpc hreturned⟩
        intro key ucerId hsome
        exact absurd (hrecord.symm.trans hsome) (by simp)
      obtain ⟨_, rfl⟩ | ⟨_, rfl⟩ := OrcState.timeoutStep_cases hstep
      · exact hset _ (by simp) rfl (by simp)
      · exact hset _ (by simp) rfl (by simp)

/-- The invariant holds after every run on a graph of pending nodes. -/
theorem run {given : UCERGraph} (hfresh : given.Fresh) (actions : List Action) :
    Undisturbed ((orchestrator false).run { graph := given } actions) := by
  refine System.run_invariant_along (init hfresh) fun before a _ _ h => ?_
  have hnamed := (DispatchInv.run false given before).shape.named hfresh.named
  exact System.exec_invariant h fun s' hstep => h.step hnamed hstep

end Undisturbed

/-! ## Executing a plan -/

/-- The step compiles the intent and hands the record over for the node under the key. -/
def HandsOver (t : OrcState) (a : Action) (key intent : String) : Prop :=
  (∃ ok ucerId, a = .main ok (some ucerId)) ∧
    ((orchestrator false).exec t a).dispatched = t.dispatched ++ [key] ∧
    t.graph.intent? key = some intent

/-- In a run without a bus the intent of the node is compiled and dispatched exactly once. -/
def DispatchedOnce (graph : UCERGraph) (actions : List Action) (node : DAGNode) : Prop :=
  ((orchestrator false).run { graph := graph } actions).dispatched.count node.nodeId = 1 ∧
    ∃ before a after, actions = before ++ a :: after ∧
      HandsOver ((orchestrator false).run { graph := graph } before) a node.nodeId node.intent

/-- The task was completed at some moment before the node was dispatched. -/
def CompletedFirst (graph : UCERGraph) (actions : List Action) (dep : String) (node : DAGNode) :
    Prop :=
  ∃ earlier later, actions = earlier ++ later ∧
    ((orchestrator false).run { graph := graph } earlier).graph.status? dep = some .completed ∧
    node.nodeId ∉ ((orchestrator false).run { graph := graph } earlier).dispatched

/-! ## What a run has dispatched -/

namespace OrcState

variable {hasBus : Bool} {s s' : OrcState}

theorem dispatched_goOn (compiled : Option String) (batch : List String) (t : OrcState) :
    (t.goOn compiled batch).dispatched = t.dispatched ∨
      ∃ key ucerId, compiled = some ucerId ∧
        (t.goOn compiled batch).dispatched = t.dispatched ++ [key] := by
  obtain ⟨key, rest, _, heq⟩ | ⟨pc, lock, _, heq⟩ := goOn_cases compiled batch t
  · rw [heq]
    cases compiled with
    | none => exact Or.inl rfl
    | some ucerId => exact Or.inr ⟨key, ucerId, rfl, rfl⟩
  · rw [heq]
    exact Or.inl rfl

/-- A step dispatches nothing, or it is one of `execute_graph` that compiles a node and
dispatches it. -/
theorem dispatched_step {a : Action} (hstep : (orchestrator hasBus).step s a = some s') :
    s'.dispatched = s.dispatched ∨
      ∃ key ok ucerId, a = .main ok (some ucerId) ∧ s'.dispatched = s.dispatched ++ [key] := by
  cases a with
  | main ok compiled =>
      cases mainStep_effect_cases hstep with
      | keep lock pc _ _ heq =>
          rw [heq]
          exact Or.inl rfl
      | fail key _ heq =>
          rw [heq]
          exact Or.inl rfl
      | complete key rest ucerId _ _ heq =>
          rw [heq]
          exact Or.inl rfl
      | goOn lock listening heq =>
          rw [heq]
          obtain heq | ⟨key, ucerId, rfl, heq⟩ := dispatched_goOn compiled s.pc.batch
            { s with lock := lock, listening := listening }
          · exact Or.inl heq
          · exact Or.inr ⟨key, ok, ucerId, rfl, heq⟩
  | deliver event =>
      obtain rfl | ⟨graph, _, rfl⟩ := deliverStep_cases hstep
      · exact Or.inl rfl
      · exact Or.inl rfl
  | handler i ok =>
      cases handlerStep_cases hstep with
      | raise _ _ heq =>
          rw [heq]
          exact Or.inl rfl
      | notifyNow _ _ heq =>
          rw [heq]
          exact Or.inl s.notifyAll_dispatched
      | queue _ _ heq =>
          rw [heq]
          exact Or.inl rfl
      | notifyLater _ _ heq =>
          rw [heq]
          exact Or.inl s.popQueue.notifyAll_dispatched
  | timeout =>
      obtain ⟨_, rfl⟩ | ⟨_, rfl⟩ := timeoutStep_cases hstep
      · exact Or.inl rfl
      · exact Or.inl rfl

end OrcState

/-- Every node dispatched was dispatched by some step of the run. -/
theorem exists_handsOver {graph : UCERGraph} {actions : List Action} {key intent : String}
    (hkey : key ∈ ((orchestrator false).run { graph := graph } actions).dispatched)
    (hintent : graph.intent? key = some intent) :
    ∃ before a after, actions = before ++ a :: after ∧
      HandsOver ((orchestrator false).run { graph := graph } before) a key intent := by
  induction actions using List.reverseRecOn with
  | nil => exact absurd hkey List.not_mem_nil
  | append_singleton before a ih =>
      have hearlier : key ∈ ((orchestrator false).run { graph := graph } before).dispatched →
          ∃ before' a' after, before ++ [a] = before' ++ a' :: after ∧
            HandsOver ((orchestrator false).run { graph := graph } before') a' key intent := by
        intro hmem
        obtain ⟨before', a', after, heq, hover⟩ := ih hmem
        exact ⟨before', a', after ++ [a], by rw [heq, List.append_assoc, List.cons_append], hover⟩
      rw [System.run_concat] at hkey
      cases hstep : (orchestrator false).step
          ((orchestrator false).run { graph := graph } before) a with
      | none =>
          rw [System.exec_of_none hstep] at hkey
          exact hearlier hkey
      | some s' =>
          rw [System.exec_of_step hstep] at hkey
          obtain hsame | ⟨key', ok, ucerId, rfl, hnew⟩ := OrcState.dispatched_step hstep
          · exact hearlier (hsame ▸ hkey)
          · rw [hnew, List.mem_append, List.mem_singleton] at hkey
            rcases hkey with hkey | rfl
            · exact hearlier hkey
            · have hshape := (DispatchInv.run false graph before).shape
              exact ⟨before, _, [], rfl, ⟨ok, ucerId, rfl⟩,
                (congrArg OrcState.dispatched (System.exec_of_step hstep)).trans hnew,
                (hshape.intent key).trans hintent⟩

/-- **A plan with distinct ids is executed as written.**  When `execute_graph` returns `True`
on its graph, without a bus, the intent of every entry has been compiled and dispatched
exactly once, and every entry it depends on was completed before. -/
theorem plan_executed {rawNodes : List Json.Value} {nodes : List DAGNode} {graph : UCERGraph}
    (hnodes : rawNodes.mapM DAGNode.ofRaw = .ok nodes) (hplan : planWorkflow rawNodes = .ok graph)
    (hdistinct : (nodes.map DAGNode.nodeId).Nodup) {actions : List Action}
    (hreturned : ((orchestrator false).run { graph := graph } actions).pc = .returned true) :
    ∀ node ∈ nodes, DispatchedOnce graph actions node ∧
      ∀ dep ∈ node.dependsOn, dep ∈ nodes.map DAGNode.nodeId →
        CompletedFirst graph actions dep node := by
  rw [planWorkflow_eq, hnodes] at hplan
  obtain rfl : UCERGraph.ofNodes nodes = graph := Except.ok.inj hplan
  have hfresh := UCERGraph.fresh_ofNodes (status_of_mapM hnodes)
  have hinv := DispatchInv.run false (UCERGraph.ofNodes nodes) actions
  have hundisturbed := Undisturbed.run hfresh actions
  intro node hnode
  have hget := UCERGraph.get?_ofNodes hdistinct hnode
  have hkeys : ∀ id ∈ nodes.map DAGNode.nodeId, id ∈ (UCERGraph.ofNodes nodes).nodes.keys :=
    fun id hid => UCERGraph.mem_keys_foldl_addNode.mpr (Or.inr hid)
  -- everything is completed in the end, so everything has been dispatched
  have hdispatched : node.nodeId ∈
      ((orchestrator false).run { graph := UCERGraph.ofNodes nodes } actions).dispatched := by
    have hkey := hinv.shape.keys ▸ hkeys node.nodeId (List.mem_map_of_mem hnode)
    obtain ⟨status, hstatus⟩ := UCERGraph.mem_keys_iff_status?.mp hkey
    have hcomplete := UCERGraph.isComplete_iff.mp (hundisturbed.returned hreturned)
    exact hundisturbed.done node.nodeId (hcomplete _ _ hstatus ▸ hstatus)
  refine ⟨⟨List.count_eq_one_of_mem hinv.once hdispatched, ?_⟩, ?_⟩
  · exact exists_handsOver hdispatched (by rw [UCERGraph.intent?, hget, Option.map_some])
  · intro dep hdep hplanned
    have hdepends : (UCERGraph.ofNodes nodes).Depends node.nodeId dep :=
      ⟨node.dependsOn, by rw [UCERGraph.dependsOn?, hget, Option.map_some], hdep,
        hkeys dep hplanned⟩
    obtain ⟨t, ht, hdone, hnotYet⟩ := hinv.afterDeps node.nodeId hdispatched dep hdepends
    obtain ⟨earlier, a, later, hactions, rfl⟩ := System.mem_past_iff.mp ht
    exact ⟨earlier, a :: later, hactions, hdone, hnotYet⟩

/-! ## Plans that are not executed as written -/

/-- A plan is executed as written: whenever `execute_graph` returns `True`, every entry has
been dispatched once, after all the tasks its `depends_on` names. -/
def PlanFaithful (rawNodes : List Json.Value) (actions : List Action) : Prop :=
  ∀ nodes graph, rawNodes.mapM DAGNode.ofRaw = .ok nodes → planWorkflow rawNodes = .ok graph →
    ((orchestrator false).run { graph := graph } actions).pc = .returned true →
      ∀ node ∈ nodes, DispatchedOnce graph actions node ∧
        ∀ dep ∈ node.dependsOn, CompletedFirst graph actions dep node

/-- A raw node. -/
def rawNode (id intent : String) (dependsOn : List String) : Json.Value :=
  .obj [("id", .str id), ("name", .str id), ("intent", .str intent),
    ("depends_on", .arr (dependsOn.map .str))]

/-- A run that dispatches one node and returns. -/
def oneDispatch : List Action :=
  [.main true (some "u"), .main true none, .main true none, .main true none]

/-- Two runs that return `True`: in one the second entry with an id has replaced the first,
whose intent nobody compiles; in the other an entry waits for no task that is not planned. -/
theorem plan_not_faithful :
    ¬ PlanFaithful [rawNode "a" "build" [], rawNode "a" "test" []] oneDispatch ∧
      ¬ PlanFaithful [rawNode "a" "build" ["b"]] oneDispatch := by
  constructor
  · intro h
    obtain ⟨⟨_, before, a, after, _, _, _, hintent⟩, _⟩ := h _ _ rfl rfl (by decide) _
      List.mem_cons_self
    rw [(DispatchInv.run false _ before).shape.intent] at hintent
    exact absurd hintent (by decide)
  · intro h
    obtain ⟨_, hdeps⟩ := h _ _ rfl rfl (by decide) _ List.mem_cons_self
    obtain ⟨earlier, _, _, hdone, _⟩ := hdeps "b" List.mem_cons_self
    have hkey := UCERGraph.mem_keys_iff_status?.mpr ⟨_, hdone⟩
    rw [(DispatchInv.run false _ earlier).shape.keys] at hkey
    exact absurd hkey (by decide)

/-- A plan of two tasks, the second after the first and after one that is not planned. -/
def twoTasks : List Json.Value := [rawNode "a" "build" [], rawNode "b" "test" ["a", "c"]]

/-- In a run that executes the two tasks the first one is completed before the second. -/
theorem plan_executed_twoTasks :
    ∃ graph, planWorkflow twoTasks = .ok graph ∧
      CompletedFirst graph
        [.main true (some "u"), .main true none, .main true none, .main true (some "v"),
          .main true none, .main true none, .main true none]
        "a" { nodeId := "b", intent := "test", dependsOn := ["a", "c"] } := by
  have hnodes : twoTasks.mapM DAGNode.ofRaw = .ok
      [{ nodeId := "a", intent := "build" },
        { nodeId := "b", intent := "test", dependsOn := ["a", "c"] }] := rfl
  refine ⟨_, rfl, ?_⟩
  exact (plan_executed hnodes rfl (by decide) (by decide) _ (by simp)).2 "a" (by simp) (by decide)

end Ucser
