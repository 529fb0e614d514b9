import Ucser.Core.Dispatch

/-!
# When terminal statuses are absorbing

`execute_graph` and `_on_job_event` assign statuses in five places, none of which looks
at the status it replaces: an event may repeat or contradict an earlier one, and a batch
may have gone stale while a dispatch was awaited.

* `Keeps` — every completed or failed node keeps its status.
* `Write`, `OrcState.write` — what a step of `execute_graph` is about to assign.
* `StepOk` — the condition on the state before a step and its action: nothing is
  assigned to a completed or failed node but the status it has.
* `keeps_exec_iff` — **a step keeps the terminal statuses if and only if it meets the
  condition**.
* `absorbing_iff` — **and so for runs**, in which `execute_graph` then never returns
  `True` after a node has failed.
* `contradicted_not_absorbing` — two contradictory events erase a failure.
-/

namespace Ucser

/-- The node is done, one way or the other. -/
def Status.terminal : Status → Bool
  | .completed => true
  | .failed => true
  | _ => false

namespace UCERGraph

/-- The node under the key is done. -/
def Terminal (graph : UCERGraph) (key : String) : Prop :=
  ∃ status, graph.status? key = some status ∧ status.terminal = true

/-- Every completed or failed node keeps its status. -/
def Keeps (graph graph' : UCERGraph) : Prop :=
  ∀ key status, status.terminal = true → graph.status? key = some status →
    graph'.status? key = some status

variable {graph graph' : UCERGraph} {key : String}

theorem Keeps.refl (graph : UCERGraph) : Keeps graph graph := fun _ _ _ h => h

theorem Keeps.trans {g₁ g₂ g₃ : UCERGraph} (h : Keeps g₁ g₂) (h' : Keeps g₂ g₃) : Keeps g₁ g₃ :=
  fun key status hterminal hstatus => h' key status hterminal (h key status hterminal hstatus)

theorem Keeps.hasFailed (h : Keeps graph graph') (hfailed : graph.hasFailed = true) :
    graph'.hasFailed = true := by
  obtain ⟨key, hkey⟩ := hasFailed_iff.mp hfailed
  exact hasFailed_iff.mpr ⟨key, h key .failed rfl hkey⟩

theorem Keeps.isComplete (h : Keeps graph graph') (hshape : SameShape graph graph')
    (hcomplete : graph.isComplete = true) : graph'.isComplete = true := by
  rw [isComplete_iff] at hcomplete ⊢
  intro key status hstatus
  have hkey : key ∈ graph.nodes.keys := by
    rw [← hshape.keys]
    exact mem_keys_iff_status?.mpr ⟨status, hstatus⟩
  obtain ⟨old, hold⟩ := mem_keys_iff_status?.mp hkey
  obtain rfl := hcomplete key old hold
  rw [h key .completed rfl hold] at hstatus
  exact (Option.some.inj hstatus).symm

/-- A graph that is complete has no failed node. -/
theorem hasFailed_of_isComplete (h : graph.isComplete = true) : graph.hasFailed = false := by
  rw [Bool.eq_false_iff]
  intro hfailed
  obtain ⟨key, hkey⟩ := hasFailed_iff.mp hfailed
  exact absurd (isComplete_iff.mp h key .failed hkey) (by decide)

/-! ## Single assignments -/

/-- Assigning a status to one node keeps the terminal statuses if and only if that node is
not done or has this status. -/
theorem keeps_iff_of_status? {s : Status}
    (h : ∀ key', graph'.status? key' =
      if key' = key then (graph.status? key').map (fun _ => s) else graph.status? key') :
    Keeps graph graph' ↔
      ∀ status, graph.status? key = some status → status.terminal = true → status = s := by
  constructor
  · intro hkeeps status hstatus hterminal
    have hnew := hkeeps key status hterminal hstatus
    rw [h, if_pos rfl, hstatus, Option.map_some] at hnew
    exact (Option.some.inj hnew).symm
  · intro hall key' status hterminal hstatus
    rw [h]
    by_cases hkey : key' = key
    · subst hkey
      rw [if_pos rfl, hstatus, Option.map_some, hall status hstatus hterminal]
    · rw [if_neg hkey, hstatus]

/-- One of both terminal statuses is kept exactly when the other one is not there. -/
theorem all_terminal_iff {s other : Status} (hother : other.terminal = true) (hne : other ≠ s)
    (hboth : ∀ status : Status, status.terminal = true → status = s ∨ status = other) :
    (∀ status, graph.status? key = some status → status.terminal = true → status = s) ↔
      graph.status? key ≠ some other := by
  constructor
  · intro h hstatus
    exact hne (h other hstatus hother)
  · intro h status hstatus hterminal
    rcases hboth status hterminal with hs | rfl
    · exact hs
    · exact absurd hstatus h

theorem keeps_markCompleted_iff {ucerId : Option String} :
    Keeps graph (graph.markCompleted key ucerId) ↔ graph.status? key ≠ some .failed := by
  rw [keeps_iff_of_status? (fun _ => status?_markCompleted)]
  refine all_terminal_iff rfl (by decide) fun status hterminal => ?_
  cases status <;> simp [Status.terminal] at hterminal ⊢

theorem keeps_markFailed_iff :
    Keeps graph (graph.markFailed key) ↔ graph.status? key ≠ some .completed := by
  rw [keeps_iff_of_status? (fun _ => status?_markFailed)]
  refine all_terminal_iff rfl (by decide) fun status hterminal => ?_
  cases status <;> simp [Status.terminal] at hterminal ⊢

theorem keeps_setRunning_iff : Keeps graph (graph.setRunning key) ↔ ¬ graph.Terminal key := by
  rw [keeps_iff_of_status? (fun _ => status?_setRunning)]
  constructor
  · rintro h ⟨status, hstatus, hterminal⟩
    rw [h status hstatus hterminal] at hterminal
    exact absurd hterminal (by decide)
  · intro h status hstatus hterminal
    exact absurd ⟨status, hstatus, hterminal⟩ h

/-- What the start of a round of the dispatch loop does to the graph. -/
def started (graph : UCERGraph) (compiled : Option String) (key : String) : UCERGraph :=
  match compiled with
  | none => (graph.setRunning key).markFailed ((graph.setRunning key).nodeIdOf key)
  | some ucerId => (graph.setRunning key).setUcerId key ucerId

/-- The condition on a node that is about to be started.  If it is compiled, it must not
be done; if not, it is failed at once, under the identifier it goes by. -/
def StartOk (graph : UCERGraph) (compiled : Option String) (key : String) : Prop :=
  match compiled with
  | some _ => ¬ graph.Terminal key
  | none =>
      if graph.nodeIdOf key = key then graph.status? key ≠ some .completed
      else ¬ graph.Terminal key ∧ graph.status? (graph.nodeIdOf key) ≠ some .completed

theorem keeps_started_iff {compiled : Option String} :
    Keeps graph (graph.started compiled key) ↔ graph.StartOk compiled key := by
  cases compiled with
  | some ucerId =>
      have hsame : Keeps graph (graph.started (some ucerId) key) ↔
          Keeps graph (graph.setRunning key) := by
        refine forall_congr' fun key' => ?_
        rw [started, status?_setUcerId]
      rw [hsame, keeps_setRunning_iff]
      exact Iff.rfl
  | none =>
      show Keeps graph ((graph.setRunning key).markFailed ((graph.setRunning key).nodeIdOf key)) ↔
        if graph.nodeIdOf key = key then graph.status? key ≠ some .completed
        else ¬ graph.Terminal key ∧ graph.status? (graph.nodeIdOf key) ≠ some .completed
      rw [(sameShape_setRunning key).nodeIdOf]
      by_cases hid : graph.nodeIdOf key = key
      · -- the node that was set running is failed at once
        rw [if_pos hid, hid, ← keeps_markFailed_iff]
        refine forall_congr' fun key' => ?_
        rw [status?_markFailed, status?_markFailed, status?_setRunning]
        by_cases hkey : key' = key
        · rw [if_pos hkey, if_pos hkey, if_pos hkey, Option.map_map]
          rfl
        · rw [if_neg hkey, if_neg hkey, if_neg hkey]
      · -- two nodes are written to, each with one status
        rw [if_neg hid, ← keeps_setRunning_iff, ← keeps_markFailed_iff]
        constructor
        · intro h
          constructor
          · intro key' status hterminal hstatus
            by_cases hkey : key' = key
            · have hnew := h key' status hterminal hstatus
              rwa [status?_markFailed, if_neg (by rw [hkey]; exact fun h => hid h.symm)] at hnew
            · rw [status?_setRunning, if_neg hkey, hstatus]
          · intro key' status hterminal hstatus
            by_cases hkey : key' = key
            · rw [status?_markFailed, if_neg (by rw [hkey]; exact fun h => hid h.symm), hstatus]
            · have hnew := h key' status hterminal hstatus
              rw [status?_markFailed, status?_setRunning, if_neg hkey] at hnew
              rwa [status?_markFailed]
        · rintro ⟨hrunning, hfailed⟩
          refine hrunning.trans fun key' status hterminal hstatus => ?_
          by_cases hkey : key' = key
          · rwa [status?_markFailed, if_neg (by rw [hkey]; exact fun h => hid h.symm)]
          · rw [status?_setRunning, if_neg hkey] at hstatus
            have hnew := hfailed key' status hterminal hstatus
            rw [status?_markFailed] at hnew
            rwa [status?_markFailed, status?_setRunning, if_neg hkey]

end UCERGraph

/-! ## What a step assigns -/

/-- What a step of `execute_graph` is about to assign. -/
inductive Write where
  /-- A node is started. -/
  | start (key : String)
  /-- A node is completed after its dispatch. -/
  | complete (key ucerId : String)
  /-- A node is failed. -/
  | fail (key : String)
  deriving DecidableEq, Repr

namespace Write

/-- The assignment is made. -/
def apply (compiled : Option String) (graph : UCERGraph) : Write → UCERGraph
  | .start key => graph.started compiled key
  | .complete key ucerId => graph.markCompleted (graph.nodeIdOf key) (some ucerId)
  | .fail key => graph.markFailed (graph.nodeIdOf key)

/-- What is handed to `dispatch_ucer` along with the assignment. -/
def handed (compiled : Option String) : Write → List String
  | .start key => match compiled with
      | some _ => [key]
      | none => []
  | _ => []

/-- The condition on an assignment: the node is not done, or has that status. -/
def Ok (compiled : Option String) (graph : UCERGraph) : Write → Prop
  | .start key => graph.StartOk compiled key
  | .complete key _ => graph.status? (graph.nodeIdOf key) ≠ some .failed
  | .fail key => graph.status? (graph.nodeIdOf key) ≠ some .completed

theorem keeps_apply_iff {compiled : Option String} {graph : UCERGraph} (write : Write) :
    graph.Keeps (write.apply compiled graph) ↔ write.Ok compiled graph := by
  cases write with
  | start key => exact UCERGraph.keeps_started_iff
  | complete key ucerId => exact UCERGraph.keeps_markCompleted_iff
  | fail key => exact UCERGraph.keeps_markFailed_iff

end Write

namespace OrcState

/-- The node `execute_graph` starts when it goes on: the next of the batch or, after it,
the first of a new one. -/
def startNext (s : OrcState) : Option Write :=
  match s.pc.batch with
  | key :: _ => some (.start key)
  | [] =>
      if s.graph.isComplete || s.graph.hasFailed then none
      else s.graph.getReadyNodes.head?.map .start

/-- What a step of `execute_graph` is about to assign. -/
def write (hasBus ok : Bool) (s : OrcState) : Option Write :=
  match s.pc with
  | .checkpoint => if ok && !hasBus then s.startNext else none
  | .subscribe => if ok then s.startNext else none
  | .dispatch key _ _ => if ok then none else some (.fail key)
  | .dispatched key _ ucerId =>
      if ok then if hasBus then s.startNext else some (.complete key ucerId)
      else some (.fail key)
  | .completed key _ =>
      if ok then if s.lock.free then s.startNext else none else some (.fail key)
  | .failed => if ok && s.lock.free then s.startNext else none
  | .notifyLock _ => if s.lock.offers .main then s.startNext else none
  | .relocked timedOut => if timedOut then none else s.startNext
  | _ => none

variable {hasBus ok : Bool} {compiled : Option String}

/-- The graph of a state, and what has been handed to `dispatch_ucer`. -/
def marks (s : OrcState) : UCERGraph × List String := (s.graph, s.dispatched)

/-- The graph, and what has been handed over, once an assignment is made. -/
def marksAfter (compiled : Option String) (s : OrcState) (write : Write) :
    UCERGraph × List String :=
  (write.apply compiled s.graph, s.dispatched ++ write.handed compiled)

/-- What a step that goes on does to the graph, and what it hands over. -/
theorem marks_goOn (s t : OrcState) (h : t.marks = s.marks) :
    (t.goOn compiled s.pc.batch).marks = s.startNext.elim s.marks (s.marksAfter compiled) := by
  obtain ⟨hgraph, hdispatched⟩ := Prod.mk.inj h
  have hstart : ∀ key rest, (t.startNode compiled key rest).marks =
      s.marksAfter compiled (.start key) := by
    intro key rest
    rw [marksAfter, ← hgraph, ← hdispatched]
    cases compiled with
    | none => exact Prod.ext rfl (List.append_nil _).symm
    | some ucerId => rfl
  unfold goOn startNext
  cases hbatch : s.pc.batch with
  | cons key rest => exact hstart key rest
  | nil =>
      unfold loopTop
      rw [hgraph]
      by_cases hdone : (s.graph.isComplete || s.graph.hasFailed) = true
      · simp [hdone, marks, hdispatched]
      · cases hready : s.graph.getReadyNodes with
        | nil =>
            by_cases hfree : t.lock.free = true
            · simp [hdone, hfree, marks, hdispatched]
            · simp [hdone, hfree, marks, hdispatched]
        | cons key rest =>
            simp only [hdone]
            exact hstart key rest

/-- **What a step of `execute_graph` does to the graph, and what it hands over.** -/
theorem marks_exec_main (s : OrcState) :
    ((orchestrator hasBus).exec s (.main ok compiled)).marks =
      (s.write hasBus ok).elim s.marks (s.marksAfter compiled) := by
  show ((s.mainStep hasBus ok compiled).getD s).marks = _
  have hgoOn : ∀ t : OrcState, t.marks = s.marks →
      (t.goOn compiled s.pc.batch).marks = s.startNext.elim s.marks (s.marksAfter compiled) :=
    fun t ht => marks_goOn s t ht
  have hkept : ∀ w : Write, w.handed compiled = [] → ∀ t : OrcState,
      t.graph = w.apply compiled s.graph → t.dispatched = s.dispatched →
        t.marks = s.marksAfter compiled w := by
    intro w hnone t hgraph hdispatched
    rw [marks, marksAfter, hgraph, hdispatched, hnone, List.append_nil]
  -- once it may notify, a step goes on if the lock is free
  have hnotify : (s.notify compiled s.pc.batch).marks =
      (if s.lock.free then s.startNext else none).elim s.marks (s.marksAfter compiled) := by
    unfold notify
    by_cases hfree : s.lock.free = true
    · rw [if_pos hfree, if_pos hfree]
      exact hgoOn _ (Prod.ext (notifyAll_graph s) (notifyAll_dispatched s))
    · rw [if_neg hfree, if_neg hfree]
      rfl
  unfold mainStep write
  cases hpc : s.pc with
  | checkpoint =>
      rw [hpc] at hgoOn
      cases ok with
      | true =>
          cases hasBus with
          | true => rfl
          | false => exact hgoOn s rfl
      | false => rfl
  | subscribe =>
      rw [hpc] at hgoOn
      cases ok with
      | true => exact hgoOn _ rfl
      | false => rfl
  | dispatch key rest ucerId =>
      cases ok with
      | true => rfl
      | false => exact hkept (.fail key) rfl _ rfl rfl
  | dispatched key rest ucerId =>
      rw [hpc] at hgoOn
      cases ok with
      | true =>
          cases hasBus with
          | true => exact hgoOn s rfl
          | false => exact hkept (.complete key ucerId) rfl _ rfl rfl
      | false => exact hkept (.fail key) rfl _ rfl rfl
  | completed key rest =>
      rw [hpc] at hnotify
      cases ok with
      | true => exact hnotify
      | false => exact hkept (.fail key) rfl _ rfl rfl
  | failed =>
      rw [hpc] at hnotify
      cases ok with
      | true => exact hnotify
      | false => rfl
  | notifyLock rest =>
      rw [hpc] at hgoOn
      dsimp only
      by_cases hoffers : s.lock.offers .main = true
      · rw [if_pos hoffers, if_pos hoffers]
        refine hgoOn _ (Prod.ext ?_ ?_)
        · exact notifyAll_graph s.popQueue
        · exact notifyAll_dispatched s.popQueue
      · rw [if_neg hoffers, if_neg hoffers]
        rfl
  | waitLock =>
      dsimp only
      by_cases hoffers : s.lock.offers .main = true
      · rw [if_pos hoffers]
        rfl
      · rw [if_neg hoffers]
        rfl
  | woken t =>
      dsimp only
      by_cases hfree : s.lock.free = true
      · rw [if_pos hfree]
        rfl
      · rw [if_neg hfree]
        rfl
  | relocking t =>
      dsimp only
      by_cases hoffers : s.lock.offers .main = true
      · rw [if_pos hoffers]
        rfl
      · rw [if_neg hoffers]
        rfl
  | relocked t =>
      rw [hpc] at hgoOn
      cases t with
      | true => rfl
      | false => exact hgoOn _ rfl
  | _ => rfl

/-- What a step of `execute_graph` does to the graph. -/
theorem graph_exec_main (s : OrcState) :
    ((orchestrator hasBus).exec s (.main ok compiled)).graph =
      (s.write hasBus ok).elim s.graph (Write.apply compiled s.graph) := by
  show ((orchestrator hasBus).exec s (.main ok compiled)).marks.1 = _
  rw [marks_exec_main]
  cases s.write hasBus ok with
  | none => rfl
  | some write => rfl

end OrcState

/-! ## The condition on a step -/

/-- The condition on an event: its verdict is not the contrary of the one its node
already has. -/
def EventOk (graph : UCERGraph) (event : Json.Value) : Prop :=
  ∀ fields key node, event = .obj fields → firstMatch graph fields = some (key, node) →
    if verdict fields then graph.status? node.nodeId ≠ some .failed
    else graph.status? node.nodeId ≠ some .completed

/-- The condition on the state before a step and its action. -/
def StepOk (hasBus : Bool) (s : OrcState) (a : Action) : Prop :=
  match a with
  | .main ok compiled => ∀ write, s.write hasBus ok = some write → write.Ok compiled s.graph
  | .deliver event => s.listening = true → EventOk s.graph event
  | .handler _ _ => True
  | .timeout => True

variable {hasBus : Bool} {s : OrcState} {a : Action}

theorem keeps_onJobEvent_iff {graph : UCERGraph} {event : Json.Value} :
    graph.Keeps ((onJobEvent graph event).getD graph) ↔ EventOk graph event := by
  constructor
  · rintro h fields key node rfl hmatch
    unfold onJobEvent at h
    simp only [hmatch] at h
    by_cases hverdict : verdict fields = true
    · rw [if_pos hverdict] at h ⊢
      exact UCERGraph.keeps_markCompleted_iff.mp h
    · rw [if_neg hverdict] at h ⊢
      exact UCERGraph.keeps_markFailed_iff.mp h
  · intro h
    cases hevent : onJobEvent graph event with
    | none => exact UCERGraph.Keeps.refl graph
    | some graph' =>
        obtain ⟨fields, key, node, hobj, hmatch, ⟨hverdict, rfl⟩ | ⟨hverdict, rfl⟩⟩ :=
          UCERGraph.onJobEvent_cases hevent
        · have hok := h fields key node hobj hmatch
          rw [if_pos hverdict] at hok
          exact UCERGraph.keeps_markCompleted_iff.mpr hok
        · have hok := h fields key node hobj hmatch
          rw [if_neg (by rw [hverdict]; decide)] at hok
          exact UCERGraph.keeps_markFailed_iff.mpr hok

/-- What an event does to the graph. -/
theorem graph_exec_deliver (hasBus : Bool) (s : OrcState) (event : Json.Value) :
    ((orchestrator hasBus).exec s (.deliver event)).graph =
      if s.listening then (onJobEvent s.graph event).getD s.graph else s.graph := by
  show ((s.deliverStep event).getD s).graph = _
  unfold OrcState.deliverStep
  by_cases hlistening : s.listening = true
  · rw [if_pos hlistening, if_pos hlistening]
    cases onJobEvent s.graph event with
    | none => rfl
    | some graph => rfl
  · rw [if_neg hlistening, if_neg hlistening]
    rfl

/-- A handler that goes on, and the end of the waiting time, do nothing to the graph. -/
theorem graph_exec_of_still (h : ∀ s', (orchestrator hasBus).step s a = some s' →
    s'.graph = s.graph) : ((orchestrator hasBus).exec s a).graph = s.graph :=
  System.exec_invariant (I := fun t : OrcState => t.graph = s.graph) rfl h

theorem graph_exec_handler (i : Nat) (ok : Bool) :
    ((orchestrator hasBus).exec s (.handler i ok)).graph = s.graph := by
  refine graph_exec_of_still fun s' hstep => ?_
  cases OrcState.handlerStep_cases hstep with
  | raise _ _ heq => rw [heq]
  | notifyNow _ _ heq =>
      rw [heq]
      exact s.notifyAll_graph
  | queue _ _ heq => rw [heq]
  | notifyLater _ _ heq =>
      rw [heq]
      exact s.popQueue.notifyAll_graph

theorem graph_exec_timeout : ((orchestrator hasBus).exec s .timeout).graph = s.graph := by
  refine graph_exec_of_still fun s' hstep => ?_
  obtain ⟨_, rfl⟩ | ⟨_, rfl⟩ := OrcState.timeoutStep_cases hstep
  · rfl
  · rfl

/-- **A step keeps the terminal statuses if and only if it meets the condition.** -/
theorem keeps_exec_iff :
    s.graph.Keeps ((orchestrator hasBus).exec s a).graph ↔ StepOk hasBus s a := by
  cases a with
  | main ok compiled =>
      rw [OrcState.graph_exec_main]
      show _ ↔ ∀ write, s.write hasBus ok = some write → write.Ok compiled s.graph
      cases hwrite : s.write hasBus ok with
      | none => exact iff_of_true (UCERGraph.Keeps.refl s.graph) (by simp)
      | some write => simpa using write.keeps_apply_iff
  | deliver event =>
      rw [graph_exec_deliver]
      show _ ↔ (s.listening = true → EventOk s.graph event)
      by_cases hlistening : s.listening = true
      · rw [if_pos hlistening, keeps_onJobEvent_iff]
        exact ⟨fun h _ => h, fun h => h hlistening⟩
      · rw [if_neg hlistening]
        exact iff_of_true (UCERGraph.Keeps.refl s.graph) (fun h => absurd h hlistening)
  | handler i ok =>
      rw [graph_exec_handler]
      exact iff_of_true (UCERGraph.Keeps.refl s.graph) trivial
  | timeout =>
      rw [graph_exec_timeout]
      exact iff_of_true (UCERGraph.Keeps.refl s.graph) trivial

/-! ## Returning `True` -/

/-- Whoever returned `True` did so with all nodes completed. -/
def ReturnedComplete (s : OrcState) : Prop := s.pc = .returned true → s.graph.isComplete = true

theorem returnedComplete_goOn (compiled : Option String) (batch : List String) (t : OrcState) :
    ReturnedComplete (t.goOn compiled batch) := by
  have hstart : ∀ key rest, ReturnedComplete (t.startNode compiled key rest) := by
    intro key rest hpc
    unfold OrcState.startNode at hpc
    cases compiled with
    | none => exact absurd hpc (by simp [OrcState.fail])
    | some ucerId => exact absurd hpc (by simp)
  cases batch with
  | cons key rest => exact hstart key rest
  | nil =>
      show ReturnedComplete (t.loopTop compiled)
      obtain ⟨hdone, heq⟩ | ⟨_, _, heq⟩ | ⟨_, _, heq⟩ | ⟨key, rest, _, _, _, heq⟩ :=
        OrcState.loopTop_cases compiled t
      · rw [heq]
        intro hpc
        have hfailed : t.graph.hasFailed = false := by simpa using hpc
        refine hdone.resolve_right ?_
        rw [hfailed]
        decide
      · rw [heq]
        intro hpc
        exact absurd hpc (by simp)
      · rw [heq]
        intro hpc
        exact absurd hpc (by simp)
      · rw [heq]
        exact hstart key rest

theorem ReturnedComplete.notifyAll (h : ReturnedComplete s) : ReturnedComplete s.notifyAll := by
  intro hpc
  rw [OrcState.notifyAll_graph]
  refine h ?_
  unfold OrcState.notifyAll at hpc
  split at hpc
  · exact absurd hpc (by simp)
  · exact hpc

/-- A step of `execute_graph` returns `True` only with all nodes completed. -/
theorem returnedComplete_mainStep {ok : Bool} {compiled : Option String} {s' : OrcState}
    (hstep : s.mainStep hasBus ok compiled = some s') : ReturnedComplete s' := by
  cases OrcState.mainStep_effect_cases hstep with
  | keep lock pc _ hne heq =>
      rw [heq]
      exact fun hpc => absurd hpc (hne true)
  | fail key _ heq =>
      rw [heq]
      exact fun hpc => absurd hpc (by simp [OrcState.fail])
  | complete key rest ucerId _ _ heq =>
      rw [heq]
      exact fun hpc => absurd hpc (by simp)
  | goOn lock listening heq =>
      rw [heq]
      exact returnedComplete_goOn _ _ _

/-- A step that keeps the terminal statuses keeps this, too. -/
theorem ReturnedComplete.step {s' : OrcState} (h : ReturnedComplete s)
    (hkeeps : s.graph.Keeps s'.graph) (hstep : (orchestrator hasBus).step s a = some s') :
    ReturnedComplete s' := by
  have hstay : s'.pc = s.pc → UCERGraph.SameShape s.graph s'.graph → ReturnedComplete s' := by
    intro hpc hshape hreturned
    exact hkeeps.isComplete hshape (h (hpc.symm.trans hreturned))
  cases a with
  | main ok compiled => exact returnedComplete_mainStep hstep
  | deliver event =>
      obtain rfl | ⟨graph, hevent, rfl⟩ := OrcState.deliverStep_cases hstep
      · exact h
      · exact hstay rfl (UCERGraph.sameShape_onJobEvent hevent)
  | handler i ok =>
      cases OrcState.handlerStep_cases hstep with
      | raise _ _ heq =>
          rw [heq]
          exact h
      | notifyNow _ _ heq =>
          rw [heq]
          exact h.notifyAll
      | queue _ _ heq =>
          rw [heq]
          exact h
      | notifyLater _ _ heq =>
          rw [heq]
          exact ReturnedComplete.notifyAll (s := s.popQueue) h
  | timeout =>
      obtain ⟨_, rfl⟩ | ⟨_, rfl⟩ := OrcState.timeoutStep_cases hstep
      · exact fun hpc => absurd hpc (by simp)
      · exact fun hpc => absurd hpc (by simp)

/-! ## Runs -/

/-- Along the run, a completed or failed node keeps its status, and once a node has failed
`execute_graph` does not return `True`. -/
def Absorbing (hasBus : Bool) (graph : UCERGraph) (actions : List Action) : Prop :=
  ∀ earlier middle later, actions = earlier ++ middle ++ later →
    let before := (orchestrator hasBus).run { graph := graph } earlier
    let after := (orchestrator hasBus).run { graph := graph } (earlier ++ middle)
    before.graph.Keeps after.graph ∧
      (before.graph.hasFailed = true → after.pc ≠ .returned true)

/-- Every step of the run meets the condition. -/
def StepsOk (hasBus : Bool) (graph : UCERGraph) (actions : List Action) : Prop :=
  ∀ earlier a later, actions = earlier ++ a :: later →
    StepOk hasBus ((orchestrator hasBus).run { graph := graph } earlier) a

variable {graph : UCERGraph} {actions : List Action}

theorem StepsOk.take {earlier later : List Action}
    (h : StepsOk hasBus graph (earlier ++ later)) : StepsOk hasBus graph earlier := by
  rintro before a after rfl
  refine h before a (after ++ later) ?_
  rw [List.append_assoc, List.cons_append]

theorem StepsOk.returnedComplete (h : StepsOk hasBus graph actions) :
    ReturnedComplete ((orchestrator hasBus).run { graph := graph } actions) := by
  refine System.run_invariant_along ?_ fun before a after heq hbefore => ?_
  · intro hpc
    exact absurd hpc (by simp)
  · have hkeeps := keeps_exec_iff.mpr (h before a after heq)
    cases hstep : (orchestrator hasBus).step
        ((orchestrator hasBus).run { graph := graph } before) a with
    | none =>
        rw [System.exec_of_none hstep]
        exact hbefore
    | some s' =>
        rw [System.exec_of_step hstep] at hkeeps ⊢
        exact hbefore.step hkeeps hstep

theorem StepsOk.keeps {earlier middle : List Action}
    (h : StepsOk hasBus graph (earlier ++ middle)) :
    ((orchestrator hasBus).run { graph := graph } earlier).graph.Keeps
      ((orchestrator hasBus).run { graph := graph } (earlier ++ middle)).graph := by
  rw [System.run_append]
  refine System.run_invariant_along
    (I := fun t : OrcState =>
      ((orchestrator hasBus).run { graph := graph } earlier).graph.Keeps t.graph)
    (UCERGraph.Keeps.refl _) fun before a after heq hbefore => ?_
  refine hbefore.trans (keeps_exec_iff.mpr ?_)
  rw [← System.run_append]
  refine h (earlier ++ before) a after ?_
  rw [heq, List.append_assoc]

/-- **When terminal statuses are absorbing.**  Along a run every completed or failed node
keeps its status, and `execute_graph` does not return `True` after a node has failed, if
and only if every step of the run meets the condition. -/
theorem absorbing_iff (hasBus : Bool) (graph : UCERGraph) (actions : List Action) :
    Absorbing hasBus graph actions ↔ StepsOk hasBus graph actions := by
  constructor
  · intro h earlier a later heq
    obtain ⟨hkeeps, _⟩ := h earlier [a] later (by rw [heq, List.append_assoc]; rfl)
    rw [System.run_concat] at hkeeps
    exact keeps_exec_iff.mp hkeeps
  · rintro h earlier middle later rfl
    have hok : StepsOk hasBus graph (earlier ++ middle) := h.take
    refine ⟨hok.keeps, fun hfailed hpc => ?_⟩
    have hcomplete := hok.returnedComplete hpc
    have hstill := hok.keeps.hasFailed hfailed
    rw [UCERGraph.hasFailed_of_isComplete hcomplete] at hstill
    exact absurd hstill (by decide)

/-- Two nodes that do not depend on each other. -/
def twoNodes : UCERGraph :=
  (({} : UCERGraph).addNode { nodeId := "a", intent := "build" }).addNode
    { nodeId := "b", intent := "test" }

/-- An event about a record. -/
def eventOn (ucerId : String) (success : Bool) : Json.Value :=
  .obj [("ucer_id", .str ucerId), ("success", .bool success)]

/-- While the second node is being dispatched, the first one fails. -/
def firstFails : List Action :=
  [.main true none, .main true (some "ua"), .main true none, .main true (some "ub"),
    .deliver (eventOn "ua" false), .handler 0 true]

/-- Then a contradictory event completes it, and the second node completes. -/
def thenSucceeds : List Action :=
  [.deliver (eventOn "ua" true), .handler 1 true, .deliver (eventOn "ub" true), .handler 2 true,
    .main true none, .main true none]

/-- A recorded failure is erased: `execute_graph` returns `True` after a node has failed. -/
theorem contradicted_not_absorbing : ¬ Absorbing true twoNodes (firstFails ++ thenSucceeds) := by
  intro h
  obtain ⟨_, hreturns⟩ := h firstFails thenSucceeds [] (by simp)
  have hfailed : ((orchestrator true).run { graph := twoNodes } firstFails).graph.hasFailed =
      true := by decide
  have hreturned : ((orchestrator true).run { graph := twoNodes }
      (firstFails ++ thenSucceeds)).pc = .returned true := by decide
  exact hreturns hfailed hreturned

end Ucser
