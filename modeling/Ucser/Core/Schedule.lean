import Ucser.Core.Dispatch
import Ucser.Lib.Depend

/-!
# Scheduling without a bus

Without a bus no event arrives, so how a call of `execute_graph` fares depends only on
how the nodes fare: every save succeeds, and for every node it is fixed what compiling
and dispatching it come to.

* `Attempt`, `move` — how a node fares, and what therefore happens next in a state.
* `Progress` — the invariant between two nodes: what has been dispatched is completed,
  in an order of the dependencies, and everything else is pending.
* `Rests`, `leads_rests` — **every run comes to rest**: with everything completed, at
  the first failure, or waiting for what nobody will do.
* `schedule_without_bus` — **which of the three it is**, by the dependencies and the
  attempts alone.
-/

namespace Ucser

/-- What compiling the intent of a node and dispatching the record come to. -/
inductive Attempt where
  | compileError
  | dispatchError (ucerId : String)
  | dispatched (ucerId : String)
  deriving DecidableEq, Repr

/-- The identifier of the compiled record. -/
def Attempt.compiled : Attempt → Option String
  | .compileError => none
  | .dispatchError ucerId => some ucerId
  | .dispatched ucerId => some ucerId

def Attempt.succeeds : Attempt → Bool
  | .dispatched _ => true
  | _ => false

/-- The node that `execute_graph` starts next, if it does start one. -/
def OrcState.next (s : OrcState) : Option String := (s.pc.batch ++ s.graph.getReadyNodes).head?

/-- What happens next: a wait runs out of time, a dispatch comes to what it does, and
every other await returns. -/
def move (attempt : String → Attempt) (s : OrcState) : Action :=
  match s.pc with
  | .waiting => .timeout
  | .dispatch key _ _ => .main (attempt key).succeeds none
  | _ => .main true (s.next.bind fun key => (attempt key).compiled)

namespace UCERGraph

/-! ## Graphs as `add_node` builds them -/

/-- A graph without running, completed or failed nodes, every node under its own
identifier. -/
structure Fresh (graph : UCERGraph) : Prop where
  pending : ∀ key ∈ graph.nodes.keys, graph.status? key = some .pending
  named : graph.Named

theorem Fresh.addNode {graph : UCERGraph} (h : Fresh graph) {node : DAGNode}
    (hnode : node.status = .pending) : Fresh (graph.addNode node) where
  pending := by
    intro key hkey
    show ((graph.nodes.insert node.nodeId node).get? key).map DAGNode.status = some .pending
    rw [Dict.get?_insert]
    by_cases hid : key = node.nodeId
    · rw [if_pos hid, Option.map_some, hnode]
    · rw [if_neg hid]
      exact h.pending key ((Dict.mem_keys_insert.mp hkey).resolve_left hid)
  named := h.named.addNode node

theorem fresh_foldl_addNode {nodes : List DAGNode} (h : ∀ node ∈ nodes, node.status = .pending)
    {graph : UCERGraph} (hgraph : Fresh graph) : Fresh (nodes.foldl addNode graph) := by
  induction nodes generalizing graph with
  | nil => exact hgraph
  | cons node rest ih =>
      obtain ⟨hnode, hrest⟩ := List.forall_mem_cons.mp h
      exact ih hrest (hgraph.addNode hnode)

theorem fresh_empty : Fresh {} := ⟨by simp [Dict.keys, Dict.empty], named_empty⟩

end UCERGraph

/-! ## Between two nodes -/

/-- Between two nodes: the nodes dispatched are completed and in order, all others are
pending, and the rest of the batch is ready. -/
structure Progress (graph : UCERGraph) (attempt : String → Attempt) (batch : List String)
    (s : OrcState) : Prop where
  shape : UCERGraph.SameShape graph s.graph
  lock : s.lock = {}
  known : ∀ key ∈ s.dispatched, key ∈ graph.nodes.keys
  succeeded : ∀ key ∈ s.dispatched, (attempt key).succeeds = true
  once : s.dispatched.Nodup
  inOrder : Depend.InOrder graph.Depends s.dispatched
  status : ∀ key, s.graph.status? key =
    (graph.status? key).map fun _ => if key ∈ s.dispatched then .completed else .pending
  batchOnce : batch.Nodup
  batchReady : ∀ key ∈ batch, key ∈ graph.nodes.keys ∧ key ∉ s.dispatched ∧
    ∀ dep, graph.Depends key dep → dep ∈ s.dispatched

/-- The run has stopped at the first attempt that failed. -/
structure StopsAt (graph : UCERGraph) (attempt : String → Attempt) (before : List String)
    (key : String) (s : OrcState) : Prop where
  returned : s.pc = .returned false
  fails : (attempt key).succeeds = false
  succeeded : ∀ k ∈ before, (attempt k).succeeds = true
  known : ∀ k ∈ before ++ [key], k ∈ graph.nodes.keys
  once : (before ++ [key]).Nodup
  inOrder : Depend.InOrder graph.Depends (before ++ [key])
  dispatched : s.dispatched = before ++ (if (attempt key).compiled = none then [] else [key])
  status : ∀ k, s.graph.status? k = (graph.status? k).map fun _ =>
    if k = key then .failed else if k ∈ before then .completed else .pending

/-- The states in which a run comes to rest. -/
inductive Rests (graph : UCERGraph) (attempt : String → Attempt) (s : OrcState) : Prop where
  | completed (h : Progress graph attempt [] s) (hpc : s.pc = .returned true)
      (hall : ∀ key ∈ graph.nodes.keys, key ∈ s.dispatched)
  | failed (before : List String) (key : String) (h : StopsAt graph attempt before key s)
  | waiting (h : Progress graph attempt [] s) (hpc : s.pc = .waiting)
      (hleft : ∃ key ∈ graph.nodes.keys, key ∉ s.dispatched)
      (hstuck : ∀ key ∈ graph.nodes.keys, key ∉ s.dispatched →
        ∃ dep ∈ graph.nodes.keys, dep ∉ s.dispatched ∧ graph.Depends key dep)

namespace Progress

variable {graph : UCERGraph} {attempt : String → Attempt} {batch rest : List String}
  {key : String} {s s' : OrcState}

theorem init (hgraph : graph.Fresh) : Progress graph attempt [] { graph := graph } where
  shape := UCERGraph.SameShape.refl graph
  lock := rfl
  known := by simp
  succeeded := by simp
  once := List.nodup_nil
  inOrder := Depend.inOrder_nil
  status := by
    intro key
    by_cases hkey : key ∈ graph.nodes.keys
    · rw [hgraph.pending key hkey]
      rfl
    · rw [UCERGraph.status?_eq_none_iff.mpr hkey]
      rfl
  batchOnce := List.nodup_nil
  batchReady := by simp

/-- Only the graph, the lock and what has been dispatched matter. -/
theorem congr (h : Progress graph attempt batch s) (hgraph : s'.graph = s.graph)
    (hlock : s'.lock = s.lock) (hdispatched : s'.dispatched = s.dispatched) :
    Progress graph attempt batch s' where
  shape := hgraph ▸ h.shape
  lock := hlock.trans h.lock
  known := hdispatched ▸ h.known
  succeeded := hdispatched ▸ h.succeeded
  once := hdispatched ▸ h.once
  inOrder := hdispatched ▸ h.inOrder
  status := by
    rw [hgraph, hdispatched]
    exact h.status
  batchOnce := h.batchOnce
  batchReady := hdispatched ▸ h.batchReady

/-- Without the rest of the batch. -/
theorem nil (h : Progress graph attempt batch s) : Progress graph attempt [] s :=
  { h with batchOnce := List.nodup_nil, batchReady := by simp }

theorem status_of_mem (h : Progress graph attempt batch s) (hfresh : graph.Fresh)
    (hkey : key ∈ graph.nodes.keys) :
    s.graph.status? key = some (if key ∈ s.dispatched then .completed else .pending) := by
  rw [h.status, hfresh.pending key hkey, Option.map_some]

theorem completed_iff (h : Progress graph attempt batch s) (hfresh : graph.Fresh)
    (hkey : key ∈ graph.nodes.keys) :
    s.graph.status? key = some .completed ↔ key ∈ s.dispatched := by
  rw [h.status_of_mem hfresh hkey]
  by_cases hmem : key ∈ s.dispatched
  · simp [hmem]
  · simp [hmem]

theorem hasFailed_eq_false (h : Progress graph attempt batch s) : s.graph.hasFailed = false := by
  rw [Bool.eq_false_iff]
  intro hfailed
  obtain ⟨key, hkey⟩ := UCERGraph.hasFailed_iff.mp hfailed
  rw [h.status] at hkey
  obtain ⟨_, _, hstatus⟩ := Option.map_eq_some_iff.mp hkey
  by_cases hmem : key ∈ s.dispatched
  · rw [if_pos hmem] at hstatus
    exact absurd hstatus (by decide)
  · rw [if_neg hmem] at hstatus
    exact absurd hstatus (by decide)

theorem isComplete_iff (h : Progress graph attempt batch s) (hfresh : graph.Fresh) :
    s.graph.isComplete = true ↔ ∀ key ∈ graph.nodes.keys, key ∈ s.dispatched := by
  rw [UCERGraph.isComplete_iff]
  constructor
  · intro hcomplete key hkey
    rw [← h.completed_iff hfresh hkey]
    have hstatus := h.status_of_mem hfresh hkey
    rw [hstatus, hcomplete key _ hstatus]
  · intro hall key s' hs'
    have hkey : key ∈ graph.nodes.keys := by
      rw [← h.shape.keys]
      exact UCERGraph.mem_keys_iff_status?.mpr ⟨s', hs'⟩
    rw [(h.completed_iff hfresh hkey).mpr (hall key hkey)] at hs'
    exact (Option.some.inj hs').symm

/-- **The ready nodes**: not dispatched, with all dependencies dispatched. -/
theorem mem_getReadyNodes (h : Progress graph attempt batch s) (hfresh : graph.Fresh) :
    key ∈ s.graph.getReadyNodes ↔ key ∈ graph.nodes.keys ∧ key ∉ s.dispatched ∧
      ∀ dep, graph.Depends key dep → dep ∈ s.dispatched := by
  rw [UCERGraph.mem_getReadyNodes]
  have hdeps : (∀ dep, s.graph.Depends key dep → s.graph.status? dep = some .completed) ↔
      ∀ dep, graph.Depends key dep → dep ∈ s.dispatched := by
    refine forall_congr' fun dep => ?_
    rw [h.shape.depends]
    refine forall_congr' fun hdep => ?_
    obtain ⟨_, _, _, hkey⟩ := hdep
    exact h.completed_iff hfresh hkey
  rw [hdeps, ← and_assoc]
  refine and_congr_left fun _ => ?_
  constructor
  · intro hpending
    have hkey : key ∈ graph.nodes.keys := by
      rw [← h.shape.keys]
      exact UCERGraph.mem_keys_iff_status?.mpr ⟨_, hpending⟩
    refine ⟨hkey, fun hmem => ?_⟩
    rw [(h.completed_iff hfresh hkey).mpr hmem] at hpending
    exact absurd hpending (by decide)
  · rintro ⟨hkey, hmem⟩
    rw [h.status_of_mem hfresh hkey, if_neg hmem]

/-- A new batch may begin. -/
theorem ready (h : Progress graph attempt batch s) (hfresh : graph.Fresh)
    (hready : s.graph.getReadyNodes = key :: rest) : Progress graph attempt (key :: rest) s :=
  { h with
    batchOnce := hready ▸ s.graph.nodup_getReadyNodes
    batchReady := fun _ hk => (h.mem_getReadyNodes hfresh).mp (hready ▸ hk) }

/-! ## One node -/

theorem concat_inOrder (h : Progress graph attempt (key :: rest) s) :
    Depend.InOrder graph.Depends (s.dispatched ++ [key]) :=
  h.inOrder.concat (h.batchReady key List.mem_cons_self).2.2

theorem concat_once (h : Progress graph attempt (key :: rest) s) :
    (s.dispatched ++ [key]).Nodup := by
  rw [← List.concat_eq_append]
  exact h.once.concat (h.batchReady key List.mem_cons_self).2.1

theorem concat_known (h : Progress graph attempt (key :: rest) s) :
    ∀ k ∈ s.dispatched ++ [key], k ∈ graph.nodes.keys := by
  intro k hk
  rcases List.mem_append.mp hk with hk | hk
  · exact h.known k hk
  · rw [List.mem_singleton.mp hk]
    exact (h.batchReady key List.mem_cons_self).1

/-- The node is dispatched and completed. -/
theorem complete (h : Progress graph attempt (key :: rest) s)
    (hsucceeds : (attempt key).succeeds = true)
    (hshape : UCERGraph.SameShape s.graph s'.graph) (hlock : s'.lock = {})
    (hdispatched : s'.dispatched = s.dispatched ++ [key])
    (hstatus : ∀ k, s'.graph.status? k =
      if k = key then (s.graph.status? k).map (fun _ => .completed) else s.graph.status? k) :
    Progress graph attempt rest s' where
  shape := h.shape.trans hshape
  lock := hlock
  known := hdispatched ▸ h.concat_known
  succeeded := by
    rw [hdispatched]
    intro k hk
    rcases List.mem_append.mp hk with hk | hk
    · exact h.succeeded k hk
    · rw [List.mem_singleton.mp hk]
      exact hsucceeds
  once := hdispatched ▸ h.concat_once
  inOrder := hdispatched ▸ h.concat_inOrder
  status := by
    intro k
    rw [hstatus, h.status, hdispatched]
    by_cases hk : k = key
    · rw [if_pos hk, Option.map_map, hk]
      simp [Function.comp_def]
    · simp [hk]
  batchOnce := (List.nodup_cons.mp h.batchOnce).2
  batchReady := by
    intro k hk
    obtain ⟨hkey, hfresh, hdeps⟩ := h.batchReady k (List.mem_cons_of_mem _ hk)
    refine ⟨hkey, ?_, fun dep hdep => ?_⟩
    · rw [hdispatched, List.mem_append, List.mem_singleton]
      rintro (hmem | rfl)
      · exact hfresh hmem
      · exact (List.nodup_cons.mp h.batchOnce).1 hk
    · rw [hdispatched]
      exact List.mem_append_left _ (hdeps dep hdep)

end Progress

/-! ## Coming to rest -/

/-- The run goes on with what is left of a batch. -/
def resume (attempt : String → Attempt) (batch : List String) (s : OrcState) : OrcState :=
  s.goOn ((batch ++ s.graph.getReadyNodes).head?.bind fun key => (attempt key).compiled) batch

section Steps

variable {attempt : String → Attempt} {s : OrcState} {key ucerId : String} {rest : List String}

theorem exec_checkpoint (hpc : s.pc = .checkpoint) :
    (orchestrator false).exec s (move attempt s) = resume attempt [] s := by
  simp [System.exec, orchestrator, move, OrcState.mainStep, hpc, OrcState.next, Pc.batch, resume,
    OrcState.goOn]

theorem exec_dispatch (hpc : s.pc = .dispatch key rest ucerId) :
    (orchestrator false).exec s (move attempt s) =
      if (attempt key).succeeds then { s with pc := .dispatched key rest ucerId }
      else s.fail key := by
  by_cases hsucceeds : (attempt key).succeeds = true
  · simp [System.exec, orchestrator, move, OrcState.mainStep, hpc, hsucceeds]
  · simp [System.exec, orchestrator, move, OrcState.mainStep, hpc, hsucceeds]

theorem exec_dispatched (hpc : s.pc = .dispatched key rest ucerId) :
    (orchestrator false).exec s (move attempt s) =
      { s with
        graph := s.graph.markCompleted (s.graph.nodeIdOf key) (some ucerId)
        pc := .completed key rest } := by
  simp [System.exec, orchestrator, move, OrcState.mainStep, hpc]

theorem exec_completed (hpc : s.pc = .completed key rest) (hlock : s.lock = {}) :
    (orchestrator false).exec s (move attempt s) = resume attempt rest s := by
  have hnotify : s.notifyAll = s := OrcState.notifyAll_of_ne_waiting (by rw [hpc]; simp)
  simp [System.exec, orchestrator, move, OrcState.mainStep, hpc, OrcState.notify, hlock,
    Lock.free, hnotify, OrcState.next, Pc.batch, resume]

/-- After a failure the run stops. -/
theorem exec_failed (hpc : s.pc = .failed) (hlock : s.lock = {}) (hfailed : s.graph.hasFailed = true) :
    (orchestrator false).exec s (move attempt s) = { s with pc := .returned false } := by
  have hnotify : s.notifyAll = s := OrcState.notifyAll_of_ne_waiting (by rw [hpc]; simp)
  simp [System.exec, orchestrator, move, OrcState.mainStep, hpc, OrcState.notify, hlock,
    Lock.free, hnotify, OrcState.goOn, OrcState.loopTop, hfailed]

theorem exec_armed (hpc : s.pc = .armed) :
    (orchestrator false).exec s (move attempt s) =
      { s with lock := { s.lock with locked := false }, pc := .waiting } := by
  simp [System.exec, orchestrator, move, OrcState.mainStep, hpc]

/-- A wait that nobody ends runs out of time. -/
theorem exec_waiting (hpc : s.pc = .waiting) :
    (orchestrator false).exec s (move attempt s) = { s with pc := .woken true } := by
  simp [System.exec, orchestrator, move, OrcState.timeoutStep, hpc]

theorem exec_woken (hpc : s.pc = .woken true) (hlock : s.lock = {}) :
    (orchestrator false).exec s (move attempt s) =
      { s with lock := ⟨true, []⟩, pc := .relocked true } := by
  simp [System.exec, orchestrator, move, OrcState.mainStep, hpc, hlock, Lock.free]

theorem exec_relocked (hpc : s.pc = .relocked true) :
    (orchestrator false).exec s (move attempt s) =
      { s with lock := { s.lock with locked := false }, pc := .raised } := by
  simp [System.exec, orchestrator, move, OrcState.mainStep, hpc]

end Steps

section Rest

variable {graph : UCERGraph} {attempt : String → Attempt} {s s' : OrcState} {key : String}
  {rest : List String}

/-- A run that has failed at a node comes to rest. -/
theorem leads_failed (h : Progress graph attempt (key :: rest) s)
    (hfails : (attempt key).succeeds = false) (hpc : s'.pc = .failed) (hlock : s'.lock = {})
    (hdispatched : s'.dispatched =
      s.dispatched ++ (if (attempt key).compiled = none then [] else [key]))
    (hstatus : ∀ k, s'.graph.status? k =
      if k = key then (s.graph.status? k).map (fun _ => .failed) else s.graph.status? k) :
    (orchestrator false).Leads (move attempt) s' (Rests graph attempt) := by
  have hkey : key ∈ graph.nodes.keys := (h.batchReady key List.mem_cons_self).1
  have hfailed : s'.graph.hasFailed = true := by
    obtain ⟨status, hs⟩ := UCERGraph.mem_keys_iff_status?.mp (h.shape.keys ▸ hkey)
    refine UCERGraph.hasFailed_iff.mpr ⟨key, ?_⟩
    rw [hstatus, if_pos rfl, hs, Option.map_some]
  refine System.Leads.step (System.Leads.here ?_)
  rw [exec_failed hpc hlock hfailed]
  refine .failed s.dispatched key
    ⟨rfl, hfails, h.succeeded, h.concat_known, h.concat_once, h.concat_inOrder, hdispatched, ?_⟩
  intro k
  show s'.graph.status? k = _
  rw [hstatus, h.status]
  by_cases hk : k = key
  · rw [if_pos hk, Option.map_map]
    simp [Function.comp_def, hk]
  · simp [hk]

theorem fail_status? (hgraph : graph.Fresh) (h : UCERGraph.SameShape graph s.graph) (k : String) :
    (s.fail key).graph.status? k =
      if k = key then (s.graph.status? k).map (fun _ => .failed) else s.graph.status? k := by
  unfold OrcState.fail
  rw [h.nodeIdOf, hgraph.named, UCERGraph.status?_markFailed]

/-- A run that starts a node comes to rest, if it does so after having completed it. -/
theorem leads_startNode (hgraph : graph.Fresh) (h : Progress graph attempt (key :: rest) s)
    (hnext : ∀ s', Progress graph attempt rest s' → s'.dispatched = s.dispatched ++ [key] →
      (orchestrator false).Leads (move attempt) (resume attempt rest s') (Rests graph attempt)) :
    (orchestrator false).Leads (move attempt) (s.startNode (attempt key).compiled key rest)
      (Rests graph attempt) := by
  have hrunning : UCERGraph.SameShape s.graph (s.graph.setRunning key) :=
    UCERGraph.sameShape_setRunning key
  have hover : ∀ (k : String) (status : Status),
      (if k = key then ((s.graph.setRunning key).status? k).map (fun _ => status)
        else (s.graph.setRunning key).status? k) =
      if k = key then (s.graph.status? k).map (fun _ => status) else s.graph.status? k := by
    intro k status
    rw [UCERGraph.status?_setRunning]
    by_cases hk : k = key
    · rw [if_pos hk, if_pos hk, if_pos hk, Option.map_map]
      rfl
    · rw [if_neg hk, if_neg hk, if_neg hk]
  cases hattempt : attempt key with
  | compileError =>
      refine leads_failed h (by rw [hattempt]; rfl) rfl h.lock ?_ fun k => ?_
      · rw [hattempt]
        exact (List.append_nil _).symm
      · show (OrcState.fail key { s with graph := s.graph.setRunning key }).graph.status? k = _
        rw [fail_status? hgraph (h.shape.trans hrunning)]
        exact hover k .failed
  | dispatchError ucerId =>
      have hshape := hrunning.trans (UCERGraph.sameShape_setUcerId key ucerId)
      refine System.Leads.step ?_
      rw [exec_dispatch rfl, hattempt]
      refine leads_failed h (by rw [hattempt]; rfl) rfl h.lock ?_ fun k => ?_
      · rw [hattempt]
        rfl
      · show (OrcState.fail key _).graph.status? k = _
        rw [fail_status? hgraph (h.shape.trans hshape)]
        show (if k = key then
          (((s.graph.setRunning key).setUcerId key ucerId).status? k).map (fun _ => .failed)
          else ((s.graph.setRunning key).setUcerId key ucerId).status? k) = _
        rw [UCERGraph.status?_setUcerId]
        exact hover k .failed
  | dispatched ucerId =>
      have hshape := hrunning.trans (UCERGraph.sameShape_setUcerId key ucerId)
      have hsucceeds : (attempt key).succeeds = true := by rw [hattempt]; rfl
      refine System.Leads.step ?_
      rw [exec_dispatch rfl, if_pos hsucceeds]
      refine System.Leads.step ?_
      rw [exec_dispatched rfl]
      refine System.Leads.step ?_
      rw [exec_completed rfl (by exact h.lock)]
      refine hnext _ (h.complete hsucceeds ?_ h.lock rfl fun k => ?_) rfl
      · exact hshape.trans (UCERGraph.sameShape_markCompleted _ _)
      · show (((s.graph.setRunning key).setUcerId key ucerId).markCompleted
          (((s.graph.setRunning key).setUcerId key ucerId).nodeIdOf key) (some ucerId)).status? k = _
        rw [(h.shape.trans hshape).nodeIdOf, hgraph.named, UCERGraph.status?_markCompleted,
          UCERGraph.status?_setUcerId]
        exact hover k .completed

/-- A run that finds no node to start comes to rest. -/
theorem leads_loopTop (hgraph : graph.Fresh) (h : Progress graph attempt [] s)
    (hstart : ∀ key rest, Progress graph attempt (key :: rest) s →
      (orchestrator false).Leads (move attempt) (s.startNode (attempt key).compiled key rest)
        (Rests graph attempt)) :
    (orchestrator false).Leads (move attempt) (resume attempt [] s) (Rests graph attempt) := by
  show (orchestrator false).Leads (move attempt)
    (s.loopTop (s.graph.getReadyNodes.head?.bind fun key => (attempt key).compiled)) _
  obtain ⟨hdone, heq⟩ | ⟨hstirred, _, heq⟩ | ⟨_, hbusy, _⟩ | ⟨key, rest, hready, _, _, heq⟩ :=
    OrcState.loopTop_cases
      (s.graph.getReadyNodes.head?.bind fun key => (attempt key).compiled) s
  · have hcomplete : s.graph.isComplete = true := by
      refine hdone.resolve_right ?_
      rw [h.hasFailed_eq_false]
      decide
    rw [heq, h.hasFailed_eq_false]
    exact System.Leads.here
      (.completed (h.congr rfl rfl rfl) rfl ((h.isComplete_iff hgraph).mp hcomplete))
  · have hready : s.graph.getReadyNodes = [] := by
      by_contra hne
      exact hstirred (Or.inl hne)
    rw [heq]
    refine System.Leads.step ?_
    rw [exec_armed rfl]
    refine System.Leads.here (.waiting (h.congr rfl ?_ rfl) rfl ?_ ?_)
    · show (⟨false, s.lock.queue⟩ : Lock) = s.lock
      rw [h.lock]
    · by_contra hleft
      refine hstirred (Or.inr (Or.inl ((h.isComplete_iff hgraph).mpr fun key hkey => ?_)))
      by_contra hmem
      exact hleft ⟨key, hkey, hmem⟩
    · intro key hkey hmem
      by_contra hnone
      have hnot : key ∉ s.graph.getReadyNodes := by
        rw [hready]
        exact List.not_mem_nil
      refine hnot ((h.mem_getReadyNodes hgraph).mpr ⟨hkey, hmem, fun dep hdep => ?_⟩)
      by_contra hdepmem
      obtain ⟨_, _, _, hdepkey⟩ := id hdep
      exact hnone ⟨dep, hdepkey, hdepmem, hdep⟩
  · rw [h.lock] at hbusy
    exact absurd hbusy (by decide)
  · rw [heq, hready]
    exact hstart key rest (h.ready hgraph hready)

/-- **Every run comes to rest.**  By induction on how many nodes are yet to be
dispatched. -/
theorem leads_rests (hgraph : graph.Fresh) (n : Nat) {batch : List String} {s : OrcState}
    (h : Progress graph attempt batch s)
    (hn : graph.nodes.keys.length < s.dispatched.length + n) :
    (orchestrator false).Leads (move attempt) (resume attempt batch s) (Rests graph attempt) := by
  induction n generalizing batch s with
  | zero =>
      have hle := (h.once.subperm h.known).length_le
      exact absurd hn (by omega)
  | succ n ih =>
      have hstart : ∀ key rest, Progress graph attempt (key :: rest) s →
          (orchestrator false).Leads (move attempt) (s.startNode (attempt key).compiled key rest)
            (Rests graph attempt) := by
        intro key rest h
        refine leads_startNode hgraph h fun s' hs' hdispatched => ih hs' ?_
        rw [hdispatched, List.length_append, List.length_singleton]
        omega
      cases batch with
      | nil => exact leads_loopTop hgraph h hstart
      | cons key rest => exact hstart key rest h

end Rest

/-! ## Where a run ends -/

/-- All nodes have been dispatched, each once and after its dependencies, and are
completed. -/
structure CompletesAll (graph : UCERGraph) (final : OrcState) : Prop where
  returned : final.pc = .returned true
  completed : ∀ key ∈ graph.nodes.keys, final.graph.status? key = some .completed
  once : final.dispatched.Nodup
  all : ∀ key, key ∈ final.dispatched ↔ key ∈ graph.nodes.keys
  inOrder : Depend.InOrder graph.Depends final.dispatched

/-- The wait has run out of time: dispatched, each once and after its dependencies, and
completed are exactly the nodes that do not depend on a cycle. -/
structure TimesOut (graph : UCERGraph) (final : OrcState) : Prop where
  raised : final.pc = .raised
  dispatched : ∀ key, key ∈ final.dispatched ↔
    key ∈ graph.nodes.keys ∧ ¬ Depend.MeetsCycle graph.Depends key
  once : final.dispatched.Nodup
  inOrder : Depend.InOrder graph.Depends final.dispatched
  status : ∀ key ∈ graph.nodes.keys, final.graph.status? key =
    some (if key ∈ final.dispatched then .completed else .pending)

/-- No attempt fails, where a node that depends on a cycle is never attempted. -/
def NoneFails (graph : UCERGraph) (attempt : String → Attempt) : Prop :=
  ∀ key ∈ graph.nodes.keys, ¬ Depend.MeetsCycle graph.Depends key →
    (attempt key).succeeds = true

section Ends

variable {graph : UCERGraph} {attempt : String → Attempt} {s : OrcState}

theorem mem_keys_of_onCycle {key : String} (h : Depend.OnCycle graph.Depends key) :
    key ∈ graph.nodes.keys := by
  obtain ⟨_, ⟨deps, hdeps, _⟩, _⟩ := Relation.TransGen.head'_iff.mp h
  obtain ⟨node, hnode, _⟩ := Option.map_eq_some_iff.mp hdeps
  exact Dict.mem_keys_of_get? hnode

theorem endsIn_returned {b : Bool} (hpc : s.pc = .returned b) :
    (orchestrator false).EndsIn (move attempt) s s := by
  refine System.endsIn_of_none ?_
  simp [orchestrator, move, OrcState.mainStep, hpc]

/-- The state in which a wait that has run out of time ends. -/
theorem endsIn_waiting (hpc : s.pc = .waiting) (hlock : s.lock = {}) :
    (orchestrator false).EndsIn (move attempt) s { s with pc := .raised } := by
  refine System.EndsIn.step ?_
  rw [exec_waiting hpc]
  refine System.EndsIn.step ?_
  rw [exec_woken rfl (by exact hlock)]
  refine System.EndsIn.step ?_
  rw [exec_relocked rfl]
  have hfinal : ({ s with lock := ⟨false, []⟩, pc := .raised } : OrcState) =
      { s with pc := .raised } := by rw [hlock]
  show (orchestrator false).EndsIn (move attempt)
    { s with lock := ⟨false, []⟩, pc := .raised } _
  rw [hfinal]
  refine System.endsIn_of_none ?_
  simp [orchestrator, move, OrcState.mainStep]

theorem Progress.mem_iff_of_stuck {batch : List String} (h : Progress graph attempt batch s)
    (hstuck : ∀ key ∈ graph.nodes.keys, key ∉ s.dispatched →
      ∃ dep ∈ graph.nodes.keys, dep ∉ s.dispatched ∧ graph.Depends key dep) (key : String) :
    key ∈ s.dispatched ↔ key ∈ graph.nodes.keys ∧ ¬ Depend.MeetsCycle graph.Depends key := by
  constructor
  · intro hmem
    exact ⟨h.known key hmem, Depend.not_meetsCycle_of_mem h.inOrder hmem⟩
  · rintro ⟨hkey, hmeets⟩
    exact (Depend.mem_iff_of_stuck h.inOrder hstuck hkey).mpr hmeets

end Ends

/-- **How a call of `execute_graph` without a bus ends.**  For a graph built by `add_node`
from pending nodes, whatever the attempts come to: the run ends.  If no attempt fails and
the dependencies are acyclic, it returns `True`, with every node dispatched once, after
its dependencies, and completed; if no attempt fails and there is a cycle, the wait runs
out of time, with exactly the nodes that do not depend on a cycle dispatched.  If an
attempt fails, the run returns `False` at the first that does. -/
theorem schedule_without_bus (nodes : List DAGNode) (attempt : String → Attempt)
    (hpending : ∀ node ∈ nodes, node.status = .pending) :
    let graph := nodes.foldl UCERGraph.addNode {}
    ∃ final, (orchestrator false).EndsIn (move attempt) { graph := graph } final ∧
      (NoneFails graph attempt → Depend.Acyclic graph.Depends → CompletesAll graph final) ∧
      (NoneFails graph attempt → ¬ Depend.Acyclic graph.Depends →
        TimesOut graph final ∧ (orchestrator false).Leads (move attempt) { graph := graph }
          (fun s => s.pc = .woken true)) ∧
      (¬ NoneFails graph attempt → ∃ before key, StopsAt graph attempt before key final) := by
  intro graph
  have hgraph : graph.Fresh := UCERGraph.fresh_foldl_addNode hpending UCERGraph.fresh_empty
  have hrests : (orchestrator false).Leads (move attempt) { graph := graph }
      (Rests graph attempt) := by
    refine System.Leads.step ?_
    rw [exec_checkpoint rfl]
    exact leads_rests hgraph (graph.nodes.keys.length + 1) (Progress.init hgraph) (by simp)
  obtain ⟨n, hn⟩ := hrests
  cases hn with
  | completed h hpc hall =>
      refine ⟨_, System.EndsIn.of_follow n (endsIn_returned hpc), ?_, ?_, ?_⟩
      · intro _ _
        refine ⟨hpc, fun key hkey => (h.completed_iff hgraph hkey).mpr (hall key hkey), h.once,
          fun key => ⟨h.known key, hall key⟩, h.inOrder⟩
      · intro _ hcyclic
        refine absurd (fun key hcycle => ?_) hcyclic
        exact Depend.not_meetsCycle_of_mem h.inOrder (hall key (mem_keys_of_onCycle hcycle))
          ⟨key, Relation.ReflTransGen.refl, hcycle⟩
      · intro hfails
        exact absurd (fun key hkey _ => h.succeeded key (hall key hkey)) hfails
  | failed before key h =>
      have hsome : ¬ NoneFails graph attempt := by
        intro hnone
        have hmem : key ∈ before ++ [key] := by simp
        have hsucceeds := hnone key (h.known key hmem)
          (Depend.not_meetsCycle_of_mem h.inOrder hmem)
        exact absurd (h.fails.symm.trans hsucceeds) (by decide)
      refine ⟨_, System.EndsIn.of_follow n (endsIn_returned h.returned), ?_, ?_, ?_⟩
      · exact fun hnone => absurd hnone hsome
      · exact fun hnone => absurd hnone hsome
      · exact fun _ => ⟨before, key, h⟩
  | waiting h hpc hleft hstuck =>
      have hmem := h.mem_iff_of_stuck hstuck
      refine ⟨_, System.EndsIn.of_follow n (endsIn_waiting hpc h.lock), ?_, ?_, ?_⟩
      · intro _ hacyclic
        obtain ⟨key, hkey, hnot⟩ := hleft
        exact absurd ((hmem key).mpr ⟨hkey, hacyclic.not_meetsCycle key⟩) hnot
      · intro _ _
        refine ⟨⟨rfl, hmem, h.once, h.inOrder, fun key hkey => h.status_of_mem hgraph hkey⟩,
          System.Leads.of_follow n (System.Leads.step (System.Leads.here ?_))⟩
        rw [exec_waiting hpc]
      · intro hfails
        refine absurd (fun key hkey hmeets => ?_) hfails
        exact h.succeeded key ((hmem key).mpr ⟨hkey, hmeets⟩)

/-- A cycle of two nodes beside one that is free to run. -/
def cyclic : List DAGNode :=
  [{ nodeId := "a", intent := "build", dependsOn := ["b"] },
    { nodeId := "b", intent := "test", dependsOn := ["a"] }, { nodeId := "c", intent := "lint" }]

theorem cyclic_timesOut :
    let graph := cyclic.foldl UCERGraph.addNode {}
    ∃ final, (orchestrator false).EndsIn (move fun key => .dispatched key) { graph := graph } final ∧
      TimesOut graph final := by
  intro graph
  have hpending : ∀ node ∈ cyclic, node.status = .pending := by decide
  have hab : graph.Depends "a" "b" := ⟨["b"], by decide, by decide, by decide⟩
  have hba : graph.Depends "b" "a" := ⟨["a"], by decide, by decide, by decide⟩
  have hcyclic : ¬ Depend.Acyclic graph.Depends := by
    intro hacyclic
    exact hacyclic "a" (Relation.TransGen.head hab (Relation.TransGen.single hba))
  obtain ⟨final, hends, _, htimesOut, _⟩ :=
    schedule_without_bus cyclic (fun key => .dispatched key) hpending
  exact ⟨final, hends, (htimesOut (fun _ _ _ => rfl) hcyclic).1⟩

end Ucser
