import Ucser.Core.Orchestrator

/-!
# Dispatching at most once, and only after the dependencies

Whatever events arrive, in whatever order, and however the handlers interleave with
`execute_graph`: no node is handed to `dispatch_ucer` twice, and every dependency of a
node that is handed over has been completed before.

* `DispatchInv` — the invariant: nodes once dispatched are never pending again, and the
  rest of a batch is fresh, with dependencies that were completed when it was computed.
* `DispatchInv.update`, `DispatchInv.startNode` — the two ways a step preserves it.
* `dispatch_at_most_once` — **the property of every run**.
-/

namespace Ucser

/-- Only pending nodes are pending after the change. -/
def UCERGraph.NoNewPending (graph graph' : UCERGraph) : Prop :=
  ∀ key, graph'.status? key = some .pending → graph.status? key = some .pending

namespace UCERGraph

variable {graph graph' : UCERGraph}

theorem NoNewPending.refl (graph : UCERGraph) : NoNewPending graph graph := fun _ h => h

theorem NoNewPending.trans {g₁ g₂ g₃ : UCERGraph} (h : NoNewPending g₁ g₂)
    (h' : NoNewPending g₂ g₃) : NoNewPending g₁ g₃ :=
  fun key hkey => h key (h' key hkey)

theorem noNewPending_setRunning (key : String) : NoNewPending graph (graph.setRunning key) :=
  fun _ => status?_of_ne_assigned (by decide) status?_setRunning

theorem noNewPending_markCompleted (nodeId : String) (ucerId : Option String) :
    NoNewPending graph (graph.markCompleted nodeId ucerId) :=
  fun _ => status?_of_ne_assigned (by decide) status?_markCompleted

theorem noNewPending_markFailed (nodeId : String) :
    NoNewPending graph (graph.markFailed nodeId) :=
  fun _ => status?_of_ne_assigned (by decide) status?_markFailed

theorem noNewPending_setUcerId (key ucerId : String) :
    NoNewPending graph (graph.setUcerId key ucerId) := by
  intro key' hpending
  rwa [status?_setUcerId] at hpending

/-- What an event does to a graph: one of the two verdicts on the node it is about. -/
theorem onJobEvent_cases {event : Json.Value} (h : onJobEvent graph event = some graph') :
    ∃ fields key node, event = .obj fields ∧ firstMatch graph fields = some (key, node) ∧
      (verdict fields = true ∧ graph' = graph.markCompleted node.nodeId node.ucerId ∨
        verdict fields = false ∧ graph' = graph.markFailed node.nodeId) := by
  unfold onJobEvent at h
  cases event with
  | obj fields =>
      dsimp only at h
      cases hmatch : firstMatch graph fields with
      | none =>
          rw [hmatch] at h
          exact absurd h (by simp)
      | some item =>
          obtain ⟨key, node⟩ := item
          rw [hmatch] at h
          dsimp only at h
          refine ⟨fields, key, node, rfl, hmatch, ?_⟩
          by_cases hverdict : verdict fields = true
          · rw [if_pos hverdict] at h
            exact Or.inl ⟨hverdict, (Option.some.inj h).symm⟩
          · rw [if_neg hverdict] at h
            exact Or.inr ⟨Bool.eq_false_iff.mpr hverdict, (Option.some.inj h).symm⟩
  | _ => exact absurd h (by simp)

theorem sameShape_onJobEvent {event : Json.Value} (h : onJobEvent graph event = some graph') :
    SameShape graph graph' := by
  obtain ⟨_, _, _, _, _, ⟨_, rfl⟩ | ⟨_, rfl⟩⟩ := onJobEvent_cases h
  · exact sameShape_markCompleted _ _
  · exact sameShape_markFailed _

theorem noNewPending_onJobEvent {event : Json.Value} (h : onJobEvent graph event = some graph') :
    NoNewPending graph graph' := by
  obtain ⟨_, _, _, _, _, ⟨_, rfl⟩ | ⟨_, rfl⟩⟩ := onJobEvent_cases h
  · exact noNewPending_markCompleted _ _
  · exact noNewPending_markFailed _

end UCERGraph

/-! ## The invariant -/

/-- In some state the dependency was completed and the node not yet dispatched. -/
def DoneBefore (states : List OrcState) (dep key : String) : Prop :=
  ∃ t ∈ states, t.graph.status? dep = some .completed ∧ key ∉ t.dispatched

theorem DoneBefore.mono {states states' : List OrcState} {dep key : String}
    (h : DoneBefore states dep key) (hsub : states ⊆ states') : DoneBefore states' dep key := by
  obtain ⟨t, ht, hdone⟩ := h
  exact ⟨t, hsub ht, hdone⟩

/-- The invariant of dispatching, for the initial graph, the states gone through and the
state reached. -/
structure DispatchInv (graph : UCERGraph) (past : List OrcState) (s : OrcState) : Prop where
  shape : UCERGraph.SameShape graph s.graph
  once : s.dispatched.Nodup
  started : ∀ key ∈ s.dispatched, s.graph.status? key ≠ some .pending
  afterDeps : ∀ key ∈ s.dispatched, ∀ dep, graph.Depends key dep → DoneBefore past dep key
  batchOnce : s.pc.batch.Nodup
  batchFresh : ∀ key ∈ s.pc.batch, key ∉ s.dispatched
  batchDeps : ∀ key ∈ s.pc.batch, ∀ dep, graph.Depends key dep → DoneBefore (past ++ [s]) dep key

namespace DispatchInv

variable {graph : UCERGraph} {past : List OrcState} {s s' : OrcState} {compiled : Option String}

theorem init (graph : UCERGraph) : DispatchInv graph [] { graph := graph } where
  shape := UCERGraph.SameShape.refl graph
  once := List.nodup_nil
  started := by simp
  afterDeps := by simp
  batchOnce := List.nodup_nil
  batchFresh := by simp [Pc.batch]
  batchDeps := by simp [Pc.batch]

/-- A step that dispatches nothing and begins no batch. -/
theorem update (h : DispatchInv graph past s) (hshape : UCERGraph.SameShape s.graph s'.graph)
    (hpending : UCERGraph.NoNewPending s.graph s'.graph)
    (hdispatched : s'.dispatched = s.dispatched)
    (hbatch : s'.pc.batch = s.pc.batch ∨ s'.pc.batch = []) :
    DispatchInv graph (past ++ [s]) s' where
  shape := h.shape.trans hshape
  once := by
    rw [hdispatched]
    exact h.once
  started := by
    intro key hkey hstatus
    rw [hdispatched] at hkey
    exact h.started key hkey (hpending key hstatus)
  afterDeps := by
    intro key hkey dep hdep
    rw [hdispatched] at hkey
    exact (h.afterDeps key hkey dep hdep).mono (List.subset_append_left _ _)
  batchOnce := by
    rcases hbatch with hbatch | hbatch
    · rw [hbatch]
      exact h.batchOnce
    · rw [hbatch]
      exact List.nodup_nil
  batchFresh := by
    intro key hkey
    rcases hbatch with hbatch | hbatch
    · rw [hbatch] at hkey
      rw [hdispatched]
      exact h.batchFresh key hkey
    · rw [hbatch] at hkey
      exact absurd hkey List.not_mem_nil
  batchDeps := by
    intro key hkey dep hdep
    rcases hbatch with hbatch | hbatch
    · rw [hbatch] at hkey
      exact (h.batchDeps key hkey dep hdep).mono (List.subset_append_left _ _)
    · rw [hbatch] at hkey
      exact absurd hkey List.not_mem_nil

/-- Nothing happens. -/
theorem stay (h : DispatchInv graph past s) : DispatchInv graph (past ++ [s]) s :=
  h.update (UCERGraph.SameShape.refl _) (UCERGraph.NoNewPending.refl _) rfl (Or.inl rfl)

/-- A node of a fresh batch is started, in a state with the graph and the record of
dispatches of the last one. -/
theorem startNode (h : DispatchInv graph past s) {s₁ : OrcState} {key : String}
    {rest : List String} (hgraph : s₁.graph = s.graph) (hdispatched : s₁.dispatched = s.dispatched)
    (honce : (key :: rest).Nodup) (hfresh : ∀ k ∈ key :: rest, k ∉ s.dispatched)
    (hdeps : ∀ k ∈ key :: rest, ∀ dep, graph.Depends k dep → DoneBefore (past ++ [s]) dep k) :
    DispatchInv graph (past ++ [s]) (s₁.startNode compiled key rest) := by
  have hshape : UCERGraph.SameShape s.graph (s₁.graph.setRunning key) := by
    rw [hgraph]
    exact UCERGraph.sameShape_setRunning key
  have hpending : UCERGraph.NoNewPending s.graph (s₁.graph.setRunning key) := by
    rw [hgraph]
    exact UCERGraph.noNewPending_setRunning key
  unfold OrcState.startNode
  cases compiled with
  | none =>
      exact h.update (hshape.trans (UCERGraph.sameShape_markFailed _))
        (hpending.trans (UCERGraph.noNewPending_markFailed _)) hdispatched (Or.inr rfl)
  | some ucerId =>
      obtain ⟨hkey, hrest⟩ := List.nodup_cons.mp honce
      refine ⟨(h.shape.trans hshape).trans (UCERGraph.sameShape_setUcerId _ _), ?_, ?_, ?_, hrest,
        ?_, ?_⟩
      · show (s₁.dispatched ++ [key]).Nodup
        rw [hdispatched, ← List.concat_eq_append]
        exact h.once.concat (hfresh key List.mem_cons_self)
      · intro k hk hstatus
        have hbefore := (hpending.trans (UCERGraph.noNewPending_setUcerId _ _)) k hstatus
        dsimp only at hk
        rw [hdispatched] at hk
        rcases List.mem_append.mp hk with hk | hk
        · exact h.started k hk hbefore
        · -- the node itself has just been set running
          obtain rfl := List.mem_singleton.mp hk
          dsimp only at hstatus
          rw [UCERGraph.status?_setUcerId, UCERGraph.status?_setRunning, if_pos rfl] at hstatus
          obtain ⟨_, _, hrunning⟩ := Option.map_eq_some_iff.mp hstatus
          exact absurd hrunning (by decide)
      · intro k hk dep hdep
        dsimp only at hk
        rw [hdispatched] at hk
        rcases List.mem_append.mp hk with hk | hk
        · exact (h.afterDeps k hk dep hdep).mono (List.subset_append_left _ _)
        · obtain rfl := List.mem_singleton.mp hk
          exact hdeps k List.mem_cons_self dep hdep
      · intro k hk
        show k ∉ s₁.dispatched ++ [key]
        rw [hdispatched, List.mem_append, List.mem_singleton]
        rintro (hmem | rfl)
        · exact hfresh k (List.mem_cons_of_mem _ hk) hmem
        · exact hkey hk
      · intro k hk dep hdep
        exact (hdeps k (List.mem_cons_of_mem _ hk) dep hdep).mono (List.subset_append_left _ _)

/-- Going on with the batch, or with a new one. -/
theorem goOn (h : DispatchInv graph past s) {s₁ : OrcState} (hgraph : s₁.graph = s.graph)
    (hdispatched : s₁.dispatched = s.dispatched) :
    DispatchInv graph (past ++ [s]) (s₁.goOn compiled s.pc.batch) := by
  obtain ⟨key, rest, hbatch | hready, heq⟩ | ⟨pc, lock, hpc, heq⟩ :=
    OrcState.goOn_cases compiled s.pc.batch s₁
  · rw [heq]
    exact h.startNode hgraph hdispatched (hbatch ▸ h.batchOnce) (hbatch ▸ h.batchFresh)
      (hbatch ▸ h.batchDeps)
  · -- a new batch is pending, so fresh, and its dependencies are completed in the last state
    rw [heq]
    rw [hgraph] at hready
    have hmem : ∀ k ∈ key :: rest, k ∈ s.graph.getReadyNodes := fun k hk => hready ▸ hk
    refine h.startNode hgraph hdispatched (hready ▸ UCERGraph.nodup_getReadyNodes _) ?_ ?_
    · intro k hk hdis
      exact h.started k hdis (UCERGraph.mem_getReadyNodes.mp (hmem k hk)).1
    · intro k hk dep hdep
      obtain ⟨hpending, hdone⟩ := UCERGraph.mem_getReadyNodes.mp (hmem k hk)
      exact ⟨s, by simp, hdone dep (h.shape.depends.mpr hdep),
        fun hdis => h.started k hdis hpending⟩
  · rw [heq]
    refine h.update ?_ ?_ hdispatched (Or.inr hpc)
    · show UCERGraph.SameShape s.graph s₁.graph
      rw [hgraph]
      exact UCERGraph.SameShape.refl _
    · show UCERGraph.NoNewPending s.graph s₁.graph
      rw [hgraph]
      exact UCERGraph.NoNewPending.refl _

/-- A step of `execute_graph` preserves the invariant. -/
theorem mainStep {hasBus ok : Bool} (h : DispatchInv graph past s)
    (hstep : s.mainStep hasBus ok compiled = some s') : DispatchInv graph (past ++ [s]) s' := by
  cases OrcState.mainStep_effect_cases hstep with
  | keep lock pc hbatch _ heq =>
      rw [heq]
      exact h.update (UCERGraph.SameShape.refl _) (UCERGraph.NoNewPending.refl _) rfl hbatch
  | fail key _ heq =>
      rw [heq]
      exact h.update (UCERGraph.sameShape_markFailed _) (UCERGraph.noNewPending_markFailed _) rfl
        (Or.inr rfl)
  | complete key rest ucerId hpc _ heq =>
      rw [heq]
      refine h.update (UCERGraph.sameShape_markCompleted _ _)
        (UCERGraph.noNewPending_markCompleted _ _) rfl (Or.inl ?_)
      rw [hpc]
      rfl
  | goOn lock listening heq =>
      rw [heq]
      exact h.goOn rfl rfl

/-- A step of a handler preserves the invariant. -/
theorem handlerStep {i : Nat} {ok : Bool} (h : DispatchInv graph past s)
    (hstep : s.handlerStep i ok = some s') : DispatchInv graph (past ++ [s]) s' := by
  have hsame : ∀ s' : OrcState, s'.graph = s.graph → s'.dispatched = s.dispatched →
      s'.pc.batch = s.pc.batch → DispatchInv graph (past ++ [s]) s' := by
    intro s' hg hd hbatch
    refine h.update ?_ ?_ hd (Or.inl hbatch)
    · rw [hg]
      exact UCERGraph.SameShape.refl _
    · rw [hg]
      exact UCERGraph.NoNewPending.refl _
  cases OrcState.handlerStep_cases hstep with
  | raise _ _ heq =>
      rw [heq]
      exact hsame _ rfl rfl rfl
  | notifyNow _ _ heq =>
      rw [heq]
      exact hsame _ (by simp) (by simp) (OrcState.notifyAll_batch s)
  | queue _ _ heq =>
      rw [heq]
      exact hsame _ rfl rfl rfl
  | notifyLater _ _ heq =>
      rw [heq]
      exact hsame _ (by simp [OrcState.popQueue]) (by simp [OrcState.popQueue])
        (OrcState.notifyAll_batch s.popQueue)

/-- The arrival of an event preserves the invariant. -/
theorem deliverStep {event : Json.Value} (h : DispatchInv graph past s)
    (hstep : s.deliverStep event = some s') : DispatchInv graph (past ++ [s]) s' := by
  obtain rfl | ⟨graph', hevent, rfl⟩ := OrcState.deliverStep_cases hstep
  · exact h.stay
  · exact h.update (UCERGraph.sameShape_onJobEvent hevent)
      (UCERGraph.noNewPending_onJobEvent hevent) rfl (Or.inl rfl)

/-- The end of the waiting time preserves the invariant. -/
theorem timeoutStep (h : DispatchInv graph past s) (hstep : s.timeoutStep = some s') :
    DispatchInv graph (past ++ [s]) s' := by
  obtain ⟨_, rfl⟩ | ⟨_, rfl⟩ := OrcState.timeoutStep_cases hstep
  · exact h.update (UCERGraph.SameShape.refl _) (UCERGraph.NoNewPending.refl _) rfl (Or.inr rfl)
  · exact h.update (UCERGraph.SameShape.refl _) (UCERGraph.NoNewPending.refl _) rfl (Or.inr rfl)

/-- Every step preserves the invariant. -/
theorem step {hasBus : Bool} {a : Action} (h : DispatchInv graph past s)
    (hstep : (orchestrator hasBus).step s a = some s') : DispatchInv graph (past ++ [s]) s' := by
  cases a with
  | main ok compiled => exact h.mainStep hstep
  | deliver event => exact h.deliverStep hstep
  | handler i ok => exact h.handlerStep hstep
  | timeout => exact h.timeoutStep hstep

/-- The invariant holds after every run. -/
theorem run (hasBus : Bool) (graph : UCERGraph) (actions : List Action) :
    DispatchInv graph ((orchestrator hasBus).past { graph := graph } actions)
      ((orchestrator hasBus).run { graph := graph } actions) :=
  System.past_invariant (fun _ _ _ _ h hstep => h.step hstep) (fun _ _ h => h.stay)
    (init graph) actions

end DispatchInv

/-- **Every node is dispatched at most once, and only after its dependencies.**  In every
run no node is dispatched twice, and for every dependency of a dispatched node that is
present in the graph there is an earlier moment of the run, before the node was
dispatched, at which it held the status completed. -/
theorem dispatch_at_most_once (hasBus : Bool) (graph : UCERGraph) (actions : List Action) :
    ((orchestrator hasBus).run { graph := graph } actions).dispatched.Nodup ∧
      ∀ key ∈ ((orchestrator hasBus).run { graph := graph } actions).dispatched,
        ∀ dep, graph.Depends key dep →
          ∃ earlier later, actions = earlier ++ later ∧
            ((orchestrator hasBus).run { graph := graph } earlier).graph.status? dep =
              some .completed ∧
            key ∉ ((orchestrator hasBus).run { graph := graph } earlier).dispatched := by
  have h := DispatchInv.run hasBus graph actions
  refine ⟨h.once, ?_⟩
  intro key hkey dep hdep
  obtain ⟨t, ht, hdone, hfresh⟩ := h.afterDeps key hkey dep hdep
  obtain ⟨earlier, a, later, hactions, rfl⟩ := System.mem_past_iff.mp ht
  exact ⟨earlier, a :: later, hactions, hdone, hfresh⟩

end Ucser
