import Ucser.Core.Terminal
import Ucser.Lib.Register

/-!
# Checkpoints

`_sync_graph_state` writes the whole graph under one key.  `set_kv` runs in a worker
thread, so the document is the graph as it is when the save starts, and takes effect at
some moment before the save is over; the saves of `execute_graph` and of the handlers
may overlap.

* `SyncState`, `checkpointed` — a call of `execute_graph` and its handlers together with
  what is stored; a task goes on from a save only after the save has taken effect.
* `mainStep_effect` — **what a step of `execute_graph` does to the graph** is saved at
  once, except that a node has been started.
* `SyncInv` — the invariant: the graph is the document of the save started last, unless a
  node has been started since.
* `current_iff` — **when the stored graph is up to date**, if the save started last took
  effect last; `landed_eq_of_inTurn` — as it does if no save overtakes another.
* `overtaken_save_stale` — a save of `execute_graph` overtaken by the one of a handler.
-/

namespace Ucser

/-- At an await of `_sync_graph_state`. -/
def Pc.saving : Pc → Bool
  | .checkpoint => true
  | .dispatched _ _ _ => true
  | .completed _ _ => true
  | .failed => true
  | _ => false

/-- A call of `execute_graph`, its handlers, and what is stored under the key of its
graph. -/
structure SyncState where
  orc : OrcState
  store : Register Task UCERGraph
  /-- A node has been handed to `dispatch_ucer` since a save was last started. -/
  unsaved : Bool := false

/-- What happens next: a step of one of the tasks, or the save of a task takes effect. -/
inductive SyncAction where
  | orc (a : Action)
  | land (task : Task)

namespace SyncState

/-- The call begins: its first save is started. -/
def begin (stored : Option UCERGraph) (graph : UCERGraph) : SyncState where
  orc := { graph := graph }
  store := ({ stored := stored } : Register Task UCERGraph).start .main graph

/-- The task that would go on is still saving. -/
def blocked (s : SyncState) : Action → Bool
  | .main _ _ => s.store.busy .main
  | .handler i _ => s.store.busy (.handler i)
  | _ => false

/-- The task that starts a save by a step: `execute_graph` when it arrives at an await of
`_sync_graph_state`, and a handler that has found its node. -/
def saver (s : SyncState) (orc : OrcState) : Action → Option Task
  | .main _ _ => if orc.pc.saving then some .main else none
  | .deliver _ =>
      if orc.handlers.length = s.orc.handlers.length then none
      else some (.handler s.orc.handlers.length)
  | _ => none

/-- A step of one of the tasks has been made. -/
def advance (s : SyncState) (a : Action) (orc : OrcState) : SyncState :=
  match s.saver orc a with
  | some task => { orc := orc, store := s.store.start task orc.graph, unsaved := false }
  | none =>
      { s with orc := orc, unsaved := s.unsaved || orc.dispatched ≠ s.orc.dispatched }

end SyncState

/-- `execute_graph` and its handlers with their saves. -/
def checkpointed (hasBus : Bool) : System SyncState SyncAction where
  step s action :=
    match action with
    | .orc a =>
        if s.blocked a then none else ((orchestrator hasBus).step s.orc a).map (s.advance a)
    | .land task => (s.store.land task).map fun store => { s with store := store }

namespace SyncState

variable {hasBus : Bool} {s s' : SyncState} {a : Action} {orc : OrcState}

theorem advance_of_some {task : Task} (h : s.saver orc a = some task) :
    s.advance a orc =
      { orc := orc, store := s.store.start task orc.graph, unsaved := false } := by
  rw [advance, h]

theorem advance_of_none (h : s.saver orc a = none) :
    s.advance a orc =
      { s with orc := orc, unsaved := s.unsaved || orc.dispatched ≠ s.orc.dispatched } := by
  rw [advance, h]

theorem land_step {task : Task} (h : (checkpointed hasBus).step s (.land task) = some s') :
    ∃ store, s.store.land task = some store ∧ s' = { s with store := store } := by
  obtain ⟨store, hstore, rfl⟩ := Option.map_eq_some_iff.mp h
  exact ⟨store, hstore, rfl⟩

theorem orc_step (h : (checkpointed hasBus).step s (.orc a) = some s') :
    s.blocked a = false ∧ ∃ orc, (orchestrator hasBus).step s.orc a = some orc ∧
      s' = s.advance a orc := by
  change (if s.blocked a then none else _) = some s' at h
  by_cases hblocked : s.blocked a = true
  · rw [if_pos hblocked] at h
    exact absurd h (by simp)
  · rw [if_neg hblocked] at h
    obtain ⟨orc, horc, rfl⟩ := Option.map_eq_some_iff.mp h
    exact ⟨Bool.eq_false_iff.mpr hblocked, orc, horc, rfl⟩

end SyncState

/-! ## Nodes that are not running -/

namespace UCERGraph

variable {graph graph' : UCERGraph} {key : String}

/-- There is a node under the key, and it is not running. -/
def AtRest (graph : UCERGraph) (key : String) : Prop :=
  ∃ status, graph.status? key = some status ∧ status ≠ .running

/-- No node is set running by the change. -/
def NoNewRunning (graph graph' : UCERGraph) : Prop := ∀ key, graph.AtRest key → graph'.AtRest key

theorem NoNewRunning.refl (graph : UCERGraph) : NoNewRunning graph graph := fun _ h => h

theorem noNewRunning_of_status? {s : Status} (hs : s ≠ .running)
    (h : ∀ key', graph'.status? key' =
      if key' = key then (graph.status? key').map (fun _ => s) else graph.status? key') :
    NoNewRunning graph graph' := by
  rintro key' ⟨status, hstatus, hrest⟩
  by_cases hkey : key' = key
  · exact ⟨s, by rw [h, if_pos hkey, hstatus, Option.map_some], hs⟩
  · exact ⟨status, by rw [h, if_neg hkey, hstatus], hrest⟩

theorem noNewRunning_markCompleted (nodeId : String) (ucerId : Option String) :
    NoNewRunning graph (graph.markCompleted nodeId ucerId) :=
  noNewRunning_of_status? (by decide) (fun _ => status?_markCompleted)

theorem noNewRunning_markFailed (nodeId : String) :
    NoNewRunning graph (graph.markFailed nodeId) :=
  noNewRunning_of_status? (by decide) (fun _ => status?_markFailed)

theorem noNewRunning_onJobEvent {event : Json.Value} (h : onJobEvent graph event = some graph') :
    NoNewRunning graph graph' := by
  obtain ⟨_, _, _, _, _, ⟨_, rfl⟩ | ⟨_, rfl⟩⟩ := onJobEvent_cases h
  · exact noNewRunning_markCompleted _ _
  · exact noNewRunning_markFailed _

/-- Setting one node running leaves the others as they are. -/
theorem AtRest.setRunning {key' : String} (h : graph.AtRest key') (hne : key' ≠ key) :
    (graph.setRunning key).AtRest key' := by
  obtain ⟨status, hstatus, hrest⟩ := h
  exact ⟨status, by rw [status?_setRunning, if_neg hne, hstatus], hrest⟩

theorem AtRest.setUcerId {ucerId : String} {key' : String} (h : graph.AtRest key') :
    (graph.setUcerId key ucerId).AtRest key' := by
  obtain ⟨status, hstatus, hrest⟩ := h
  exact ⟨status, by rw [status?_setUcerId, hstatus], hrest⟩

theorem AtRest.of_ready (h : key ∈ graph.getReadyNodes) : graph.AtRest key :=
  ⟨.pending, (mem_getReadyNodes.mp h).1, by decide⟩

end UCERGraph

/-! ## What a step does to the graph -/

/-- The nodes of the batch that are yet to be started are not running. -/
structure BatchAtRest (batch : List String) (graph : UCERGraph) : Prop where
  once : batch.Nodup
  atRest : ∀ key ∈ batch, graph.AtRest key

theorem BatchAtRest.nil (graph : UCERGraph) : BatchAtRest [] graph := ⟨List.nodup_nil, by simp⟩

theorem BatchAtRest.mono {batch : List String} {graph graph' : UCERGraph}
    (h : BatchAtRest batch graph) (hgraph : graph.NoNewRunning graph') :
    BatchAtRest batch graph' :=
  ⟨h.once, fun key hkey => hgraph key (h.atRest key hkey)⟩

/-- What a step of `execute_graph` does to the graph: it starts a save, it leaves the
graph alone, or it has handed a node to `dispatch_ucer`. -/
inductive Effect (s s' : OrcState) : Prop where
  | saved (h : s'.pc.saving = true)
  | kept (hgraph : s'.graph = s.graph) (hdispatched : s'.dispatched = s.dispatched)
  | handed (key : String) (rest : List String) (ucerId : String)
      (hpc : s'.pc = .dispatch key rest ucerId) (hbefore : s.graph.AtRest key)
      (hrunning : s'.graph.status? key = some .running)
      (hdispatched : s'.dispatched = s.dispatched ++ [key])

section Effects

variable {hasBus ok : Bool} {compiled : Option String} {s s' t : OrcState}

theorem startNode_effect {key : String} {rest : List String} (hgraph : t.graph = s.graph)
    (hdispatched : t.dispatched = s.dispatched) (hbatch : BatchAtRest (key :: rest) s.graph) :
    Effect s (t.startNode compiled key rest) ∧
      BatchAtRest (t.startNode compiled key rest).pc.batch
        (t.startNode compiled key rest).graph := by
  unfold OrcState.startNode
  cases compiled with
  | none => exact ⟨.saved rfl, BatchAtRest.nil _⟩
  | some ucerId =>
      obtain ⟨hkey, hrest⟩ := List.nodup_cons.mp hbatch.once
      have hbefore : s.graph.AtRest key := hbatch.atRest key List.mem_cons_self
      refine ⟨.handed key rest ucerId rfl hbefore ?_ (by rw [← hdispatched]), hrest, ?_⟩
      · obtain ⟨status, hstatus, _⟩ := hbefore
        show ((t.graph.setRunning key).setUcerId key ucerId).status? key = some .running
        rw [UCERGraph.status?_setUcerId, UCERGraph.status?_setRunning, if_pos rfl, hgraph, hstatus,
          Option.map_some]
      · intro k hk
        have hne : k ≠ key := fun heq => hkey (heq ▸ hk)
        show ((t.graph.setRunning key).setUcerId key ucerId).AtRest k
        rw [hgraph]
        exact ((hbatch.atRest k (List.mem_cons_of_mem _ hk)).setRunning hne).setUcerId

theorem goOn_effect (hgraph : t.graph = s.graph) (hdispatched : t.dispatched = s.dispatched)
    {batch : List String} (hbatch : BatchAtRest batch s.graph) :
    Effect s (t.goOn compiled batch) ∧
      BatchAtRest (t.goOn compiled batch).pc.batch (t.goOn compiled batch).graph := by
  obtain ⟨key, rest, heq | hready, hgoOn⟩ | ⟨pc, lock, hpc, hgoOn⟩ :=
    OrcState.goOn_cases compiled batch t
  · rw [hgoOn]
    exact startNode_effect hgraph hdispatched (heq ▸ hbatch)
  · rw [hgoOn]
    rw [hgraph] at hready
    refine startNode_effect hgraph hdispatched ⟨hready ▸ UCERGraph.nodup_getReadyNodes _, ?_⟩
    exact fun k hk => UCERGraph.AtRest.of_ready (hready ▸ hk)
  · rw [hgoOn]
    refine ⟨.kept hgraph hdispatched, ?_⟩
    show BatchAtRest pc.batch t.graph
    rw [hpc]
    exact BatchAtRest.nil _

/-- **What a step of `execute_graph` does to the graph.** -/
theorem mainStep_effect (hstep : s.mainStep hasBus ok compiled = some s')
    (hbatch : BatchAtRest s.pc.batch s.graph) :
    Effect s s' ∧ BatchAtRest s'.pc.batch s'.graph := by
  cases OrcState.mainStep_effect_cases hstep with
  | keep lock pc hpc _ heq =>
      rw [heq]
      refine ⟨.kept rfl rfl, ?_⟩
      show BatchAtRest pc.batch s.graph
      rcases hpc with hpc | hpc
      · rw [hpc]
        exact hbatch
      · rw [hpc]
        exact BatchAtRest.nil _
  | fail key _ heq =>
      rw [heq]
      exact ⟨.saved rfl, BatchAtRest.nil _⟩
  | complete key rest ucerId hpc _ heq =>
      rw [heq]
      refine ⟨.saved rfl, ?_⟩
      rw [hpc] at hbatch
      exact hbatch.mono (UCERGraph.noNewRunning_markCompleted _ _)
  | goOn lock listening heq =>
      rw [heq]
      exact goOn_effect (s := s) (t := { s with lock := lock, listening := listening }) rfl rfl hbatch

/-- After a dispatch `execute_graph` saves, whatever the dispatch came to. -/
theorem saving_of_dispatch {key ucerId : String} {rest : List String}
    (hpc : s.pc = .dispatch key rest ucerId) (hstep : s.mainStep hasBus ok compiled = some s') :
    s'.pc.saving = true := by
  rw [OrcState.mainStep, hpc] at hstep
  cases ok with
  | true =>
      rw [← Option.some.inj hstep]
      rfl
  | false =>
      rw [← Option.some.inj hstep]
      rfl

end Effects

/-! ## The invariant -/

/-- The save started last carries this document, and it is the graph unless a node has
been started since. -/
structure SyncInv (s : SyncState) (last : UCERGraph) : Prop where
  batch : BatchAtRest s.orc.pc.batch s.orc.graph
  newest : s.store.Newest last
  current : s.unsaved = false → s.orc.graph = last
  handed : s.unsaved = true → ∃ key rest ucerId, s.orc.pc = .dispatch key rest ucerId ∧
    last.AtRest key ∧ s.orc.graph.status? key = some .running

namespace SyncInv

variable {hasBus : Bool} {s s' : SyncState} {orc : OrcState} {a : Action} {last : UCERGraph}

theorem init (stored : Option UCERGraph) (graph : UCERGraph) :
    SyncInv (.begin stored graph) graph where
  batch := BatchAtRest.nil graph
  newest := by
    show (Register.start ({ stored := stored } : Register Task UCERGraph) .main graph).Newest graph
    exact Register.newest_start (by simp) (Nat.le_refl 0) Task.main graph
  current := fun _ => rfl
  handed := fun h => absurd h (by simp [SyncState.begin])

/-- A save takes effect. -/
theorem land (h : SyncInv s last) {task : Task} {store : Register Task UCERGraph}
    (hland : s.store.land task = some store) : SyncInv { s with store := store } last :=
  { h with newest := h.newest.land hland }

/-- A step that starts a save. -/
theorem saved (h : SyncInv s last) {task : Task} (hsaver : s.saver orc a = some task)
    (hbatch : BatchAtRest orc.pc.batch orc.graph) : SyncInv (s.advance a orc) orc.graph := by
  rw [SyncState.advance_of_some hsaver]
  exact ⟨hbatch, h.newest.start task orc.graph, fun _ => rfl, fun h => absurd h (by simp)⟩

/-- A step that starts no save and leaves the graph alone. -/
theorem kept (h : SyncInv s last) (hsaver : s.saver orc a = none)
    (hgraph : orc.graph = s.orc.graph) (hdispatched : orc.dispatched = s.orc.dispatched)
    (hpc : ∀ key rest ucerId, s.orc.pc = .dispatch key rest ucerId → orc.pc = s.orc.pc)
    (hbatch : BatchAtRest orc.pc.batch orc.graph) : SyncInv (s.advance a orc) last := by
  have hunsaved : (s.unsaved || decide (orc.dispatched ≠ s.orc.dispatched)) = s.unsaved := by
    simp [hdispatched]
  rw [SyncState.advance_of_none hsaver]
  refine ⟨hbatch, h.newest, fun hsaved => ?_, fun hmarked => ?_⟩
  · dsimp only at hsaved ⊢
    rw [hunsaved] at hsaved
    rw [hgraph]
    exact h.current hsaved
  · dsimp only at hmarked ⊢
    rw [hunsaved] at hmarked
    obtain ⟨key, rest, ucerId, hdispatch, hlast, hrunning⟩ := h.handed hmarked
    exact ⟨key, rest, ucerId, (hpc key rest ucerId hdispatch).trans hdispatch, hlast,
      by rw [hgraph]; exact hrunning⟩

/-- A step of `execute_graph` preserves the invariant. -/
theorem mainStep {ok : Bool} {compiled : Option String} (h : SyncInv s last)
    (hstep : s.orc.mainStep hasBus ok compiled = some orc) :
    ∃ last, SyncInv (s.advance (.main ok compiled) orc) last := by
  obtain ⟨heffect, hbatch⟩ := mainStep_effect hstep h.batch
  cases hsaving : orc.pc.saving with
  | true => exact ⟨orc.graph, h.saved (if_pos hsaving) hbatch⟩
  | false =>
      have hsaver : s.saver orc (.main ok compiled) = none :=
        if_neg (by rw [hsaving]; decide)
      -- in `dispatch_ucer` it would have been a save
      have hpc : ∀ key rest ucerId, s.orc.pc ≠ .dispatch key rest ucerId := by
        intro key rest ucerId hpc
        rw [saving_of_dispatch hpc hstep] at hsaving
        exact absurd hsaving (by decide)
      cases heffect with
      | saved hsaved => exact absurd (hsaving.symm.trans hsaved) (by decide)
      | kept hgraph hdispatched =>
          exact ⟨last, h.kept hsaver hgraph hdispatched
            (fun key rest ucerId hdispatch => absurd hdispatch (hpc key rest ucerId)) hbatch⟩
      | handed key rest ucerId hpc' hbefore hrunning hdispatched =>
          have hsaved : s.unsaved = false := by
            rw [Bool.eq_false_iff]
            intro hunsaved
            obtain ⟨key, rest, ucerId, hdispatch, _⟩ := h.handed hunsaved
            exact hpc key rest ucerId hdispatch
          refine ⟨last, ?_⟩
          rw [SyncState.advance_of_none hsaver]
          refine ⟨hbatch, h.newest, fun hnot => ?_, fun _ => ?_⟩
          · exact absurd hnot (by simp [hdispatched])
          · rw [h.current hsaved] at hbefore
            exact ⟨key, rest, ucerId, hpc', hbefore, hrunning⟩

/-- The arrival of an event preserves the invariant. -/
theorem deliverStep {event : Json.Value} (h : SyncInv s last)
    (hstep : s.orc.deliverStep event = some orc) :
    ∃ last, SyncInv (s.advance (.deliver event) orc) last := by
  obtain rfl | ⟨graph, hevent, rfl⟩ := OrcState.deliverStep_cases hstep
  · exact ⟨last, h.kept (if_pos rfl) rfl rfl (fun _ _ _ _ => rfl) h.batch⟩
  · refine ⟨graph, h.saved (if_neg ?_) (h.batch.mono (UCERGraph.noNewRunning_onJobEvent hevent))⟩
    simp

/-- A step of a handler preserves the invariant. -/
theorem handlerStep {i : Nat} {ok : Bool} (h : SyncInv s last)
    (hstep : s.orc.handlerStep i ok = some orc) : SyncInv (s.advance (.handler i ok) orc) last := by
  have hnotify : ∀ key rest ucerId, s.orc.pc = .dispatch key rest ucerId → s.orc.pc ≠ .waiting := by
    intro key rest ucerId hpc
    rw [hpc]
    simp
  cases OrcState.handlerStep_cases hstep with
  | raise _ _ heq =>
      rw [heq]
      exact h.kept rfl rfl rfl (fun _ _ _ _ => rfl) h.batch
  | notifyNow _ _ heq =>
      rw [heq]
      refine h.kept rfl (by simp) (by simp) (fun key rest ucerId hpc => ?_) ?_
      · show s.orc.notifyAll.pc = s.orc.pc
        rw [OrcState.notifyAll_of_ne_waiting (hnotify key rest ucerId hpc)]
      · show BatchAtRest s.orc.notifyAll.pc.batch s.orc.notifyAll.graph
        rw [OrcState.notifyAll_batch, OrcState.notifyAll_graph]
        exact h.batch
  | queue _ _ heq =>
      rw [heq]
      exact h.kept rfl rfl rfl (fun _ _ _ _ => rfl) h.batch
  | notifyLater _ _ heq =>
      rw [heq]
      refine h.kept rfl (by simp [OrcState.popQueue]) (by simp [OrcState.popQueue])
        (fun key rest ucerId hpc => ?_) ?_
      · show s.orc.popQueue.notifyAll.pc = s.orc.pc
        rw [OrcState.notifyAll_of_ne_waiting (s := s.orc.popQueue) (hnotify key rest ucerId hpc)]
        rfl
      · show BatchAtRest s.orc.popQueue.notifyAll.pc.batch s.orc.popQueue.notifyAll.graph
        rw [OrcState.notifyAll_batch, OrcState.notifyAll_graph]
        exact h.batch

/-- The end of the waiting time preserves the invariant. -/
theorem timeoutStep (h : SyncInv s last) (hstep : s.orc.timeoutStep = some orc) :
    SyncInv (s.advance .timeout orc) last := by
  obtain ⟨hpc, rfl⟩ | ⟨⟨t, hpc⟩, rfl⟩ := OrcState.timeoutStep_cases hstep
  · refine h.kept rfl rfl rfl (fun key rest ucerId hdispatch => ?_) (BatchAtRest.nil _)
    rcases hpc with hpc | ⟨t, hpc⟩
    · exact absurd (hpc.symm.trans hdispatch) (by simp)
    · exact absurd (hpc.symm.trans hdispatch) (by simp)
  · refine h.kept rfl rfl rfl (fun key rest ucerId hdispatch => ?_) (BatchAtRest.nil _)
    exact absurd (hpc.symm.trans hdispatch) (by simp)

/-- Every step preserves the invariant. -/
theorem step {action : SyncAction} (h : ∃ last, SyncInv s last)
    (hstep : (checkpointed hasBus).step s action = some s') : ∃ last, SyncInv s' last := by
  obtain ⟨last, h⟩ := h
  cases action with
  | land task =>
      obtain ⟨store, hland, rfl⟩ := SyncState.land_step hstep
      exact ⟨last, h.land hland⟩
  | orc a =>
      obtain ⟨_, orc, horc, rfl⟩ := SyncState.orc_step hstep
      cases a with
      | main ok compiled => exact h.mainStep horc
      | deliver event => exact h.deliverStep horc
      | handler i ok => exact ⟨last, h.handlerStep horc⟩
      | timeout => exact ⟨last, h.timeoutStep horc⟩

/-- The invariant holds after every run. -/
theorem run (hasBus : Bool) (stored : Option UCERGraph) (graph : UCERGraph)
    (actions : List SyncAction) :
    ∃ last, SyncInv ((checkpointed hasBus).run (.begin stored graph) actions) last :=
  System.run_invariant (fun _ _ _ h hstep => step h hstep) ⟨graph, init stored graph⟩ actions

/-- If the save started last took effect last, the stored graph is up to date unless a
node has been started since. -/
theorem stored_iff (h : SyncInv s last) (hlast : s.store.landed = s.store.started) :
    s.store.stored = some s.orc.graph ↔ s.unsaved = false := by
  rw [h.newest.stored hlast, Option.some.injEq]
  constructor
  · intro heq
    rw [Bool.eq_false_iff]
    intro hunsaved
    obtain ⟨key, _, _, _, ⟨status, hstatus, hrest⟩, hrunning⟩ := h.handed hunsaved
    rw [← heq, hstatus, Option.some.injEq] at hrunning
    exact hrest hrunning
  · exact fun hsaved => (h.current hsaved).symm

end SyncInv

/-! ## Stale checkpoints -/

/-- When every started save has finished, the stored graph is the graph in memory. -/
def SyncState.Current (s : SyncState) : Prop :=
  s.store.inFlight = [] → s.store.stored = some s.orc.graph

/-- **When the stored graph is up to date.**  In every run, with every interleaving of
`execute_graph`, the handlers and their saves: if, once no save is in flight, the one
started last is the one that took effect last, the stored graph is the graph in memory if
and only if no node has been handed to `dispatch_ucer` since a save was last started. -/
theorem current_iff (hasBus : Bool) (stored : Option UCERGraph) (graph : UCERGraph)
    (actions : List SyncAction) :
    let s := (checkpointed hasBus).run (.begin stored graph) actions
    (s.store.inFlight = [] → s.store.landed = s.store.started) →
      (s.Current ↔ (s.store.inFlight = [] → s.unsaved = false)) := by
  intro s hlast
  obtain ⟨last, h⟩ := SyncInv.run hasBus stored graph actions
  exact forall_congr' fun hquiet => h.stored_iff (hlast hquiet)

/-- One node. -/
def oneNode : UCERGraph := ({} : UCERGraph).addNode { nodeId := "a", intent := "build" }

/-- An event completes the node while `execute_graph` saves after its dispatch: the saves of
`execute_graph` and of the handler overlap. -/
def overlapping : List SyncAction :=
  [.land .main, .orc (.main true none), .orc (.main true (some "ua")), .orc (.main true none),
    .orc (.deliver (eventOn "ua" true))]

/-- The call returns. -/
def thenReturns : List SyncAction := [.orc (.handler 0 true), .orc (.main true none)]

theorem inTurn_save_current : ((checkpointed true).run (.begin none oneNode)
    (overlapping ++ [.land .main, .land (.handler 0)] ++ thenReturns)).Current := by
  have h := current_iff true none oneNode
    (overlapping ++ [.land .main, .land (.handler 0)] ++ thenReturns) (fun _ => by decide)
  exact h.mpr fun _ => by decide

/-- The save of `execute_graph` is overtaken: it has returned `True`, no save is in
flight, and stored is a graph whose node is still running. -/
theorem overtaken_save_stale : ¬ ((checkpointed true).run (.begin none oneNode)
    (overlapping ++ [.land (.handler 0), .land .main] ++ thenReturns)).Current := by
  intro h
  have hstored := congrArg (Option.map fun graph => graph.status? "a") (h (by decide))
  exact absurd hstored (by decide)

/-! ## Saves in turn -/

/-- In the run no save takes effect before one that was started earlier. -/
def SavesInTurn (hasBus : Bool) (stored : Option UCERGraph) (graph : UCERGraph)
    (actions : List SyncAction) : Prop :=
  ∀ earlier task later, actions = earlier ++ .land task :: later →
    let s := (checkpointed hasBus).run (.begin stored graph) earlier
    s.store.busy task = true → s.store.inFlight.head?.map Register.Pending.owner = some task

section InTurn

variable {hasBus ok : Bool} {compiled : Option String} {s s' : OrcState}

theorem handlers_goOn (compiled : Option String) (batch : List String) (s : OrcState) :
    (s.goOn compiled batch).handlers = s.handlers := by
  obtain ⟨key, rest, _, heq⟩ | ⟨pc, lock, _, heq⟩ := OrcState.goOn_cases compiled batch s
  · rw [heq]
    cases compiled with
    | none => rfl
    | some ucerId => rfl
  · rw [heq]

theorem handlers_mainStep (hstep : s.mainStep hasBus ok compiled = some s') :
    s'.handlers = s.handlers := by
  cases OrcState.mainStep_effect_cases hstep with
  | keep lock pc _ _ heq => rw [heq]
  | fail key _ heq =>
      rw [heq]
      rfl
  | complete key rest ucerId _ _ heq => rw [heq]
  | goOn lock listening heq =>
      rw [heq]
      exact handlers_goOn _ _ _

theorem length_handlers_handlerStep {i : Nat} (hstep : s.handlerStep i ok = some s') :
    s'.handlers.length = s.handlers.length := by
  cases OrcState.handlerStep_cases hstep with
  | raise _ _ heq => simp [heq]
  | notifyNow _ _ heq => simp [heq]
  | queue _ _ heq => simp [heq]
  | notifyLater _ _ heq => simp [heq]

theorem handlers_timeoutStep (hstep : s.timeoutStep = some s') : s'.handlers = s.handlers := by
  obtain ⟨_, rfl⟩ | ⟨_, rfl⟩ := OrcState.timeoutStep_cases hstep
  · rfl
  · rfl

end InTurn

/-- The saves in flight are in turn, and those of handlers belong to handlers that are
there. -/
structure SavesInv (s : SyncState) : Prop where
  inTurn : s.store.InTurn
  owners : ∀ w ∈ s.store.inFlight, ∀ i, w.owner = .handler i → i < s.orc.handlers.length

namespace SavesInv

variable {hasBus : Bool} {s : SyncState} {orc : OrcState} {a : Action}

theorem init (stored : Option UCERGraph) (graph : UCERGraph) : SavesInv (.begin stored graph) := by
  refine ⟨?_, ?_⟩
  · refine Register.InTurn.start (r := { stored := stored }) ⟨Nat.le_refl 0, rfl, List.nodup_nil⟩ rfl
  · intro w hw i howner
    obtain rfl := List.mem_singleton.mp hw
    exact absurd howner (by simp)

/-- The oldest save takes effect. -/
theorem land (h : SavesInv s) {task : Task} {store : Register Task UCERGraph}
    (holdest : s.store.inFlight.head?.map Register.Pending.owner = some task)
    (hland : s.store.land task = some store) : SavesInv { s with store := store } := by
  refine ⟨h.inTurn.land holdest hland, fun w hw => ?_⟩
  obtain ⟨_, _, _, rfl⟩ := Register.land_cases hland
  exact h.owners w (List.mem_of_mem_filter hw)

/-- A step of a task that is not blocked. -/
theorem advance (h : SavesInv s) (hblocked : s.blocked a = false)
    (hstep : (orchestrator hasBus).step s.orc a = some orc) : SavesInv (s.advance a orc) := by
  -- a step that starts no save
  have hkept : orc.handlers.length = s.orc.handlers.length → s.saver orc a = none →
      SavesInv (s.advance a orc) := by
    intro hlength hsaver
    rw [SyncState.advance_of_none hsaver]
    exact ⟨h.inTurn, fun w hw i howner => hlength ▸ h.owners w hw i howner⟩
  cases a with
  | main ok compiled =>
      have hhandlers : orc.handlers = s.orc.handlers := handlers_mainStep hstep
      cases hsaving : orc.pc.saving with
      | false => exact hkept (by rw [hhandlers]) (if_neg (by rw [hsaving]; decide))
      | true =>
          have hsaver : s.saver orc (.main ok compiled) = some .main := if_pos hsaving
          rw [SyncState.advance_of_some hsaver]
          refine ⟨h.inTurn.start hblocked, fun w hw i howner => ?_⟩
          rcases List.mem_append.mp hw with hw | hw
          · dsimp only
            rw [hhandlers]
            exact h.owners w hw i howner
          · obtain rfl := List.mem_singleton.mp hw
            exact absurd howner (by simp)
  | deliver event =>
      obtain rfl | ⟨graph, _, rfl⟩ := OrcState.deliverStep_cases hstep
      · exact hkept rfl (if_pos rfl)
      · have hbusy : s.store.busy (.handler s.orc.handlers.length) = false := by
          rw [Register.busy_eq_false_iff]
          intro w hw howner
          exact absurd (h.owners w hw _ howner) (Nat.lt_irrefl _)
        have hsaver : s.saver { s.orc with graph := graph, handlers := s.orc.handlers ++ [.sync] }
            (.deliver event) = some (.handler s.orc.handlers.length) := if_neg (by simp)
        rw [SyncState.advance_of_some hsaver]
        refine ⟨h.inTurn.start hbusy, fun w hw i howner => ?_⟩
        show i < (s.orc.handlers ++ [HandlerPc.sync]).length
        rw [List.length_append, List.length_singleton]
        rcases List.mem_append.mp hw with hw | hw
        · have hlt := h.owners w hw i howner
          omega
        · obtain rfl := List.mem_singleton.mp hw
          obtain rfl := Task.handler.inj howner
          omega
  | handler i ok => exact hkept (length_handlers_handlerStep hstep) rfl
  | timeout => exact hkept (by rw [handlers_timeoutStep hstep]) rfl

end SavesInv

/-- **If no save overtakes another, the one started last took effect last** as soon as
none is in flight. -/
theorem landed_eq_of_inTurn {hasBus : Bool} {stored : Option UCERGraph} {graph : UCERGraph}
    {actions : List SyncAction} (h : SavesInTurn hasBus stored graph actions) :
    let s := (checkpointed hasBus).run (.begin stored graph) actions
    s.store.inFlight = [] → s.store.landed = s.store.started := by
  intro s hquiet
  have hinv : SavesInv s := by
    refine System.run_invariant_along (SavesInv.init stored graph)
      fun earlier action later heq hearlier => ?_
    refine System.exec_invariant hearlier fun s' hstep => ?_
    cases action with
    | land task =>
        obtain ⟨store, hland, rfl⟩ := SyncState.land_step hstep
        refine hearlier.land (h earlier task later heq ?_) hland
        obtain ⟨w, hw, howner, _⟩ := Register.land_cases hland
        simpa [Register.busy] using ⟨w, hw, howner⟩
    | orc a =>
        obtain ⟨hblocked, orc, horc, rfl⟩ := SyncState.orc_step hstep
        exact hearlier.advance hblocked horc
  exact hinv.inTurn.landed_eq hquiet

end Ucser
