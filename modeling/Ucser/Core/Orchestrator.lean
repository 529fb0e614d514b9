import Ucser.Core.Dag
import Ucser.Lib.Json
import Ucser.Lib.Transition

/-!
# The orchestrator: `DAGOrchestrator` in `core/orchestrator.py`

One call of `execute_graph` and any number of `_on_job_event` handlers share a graph and
the condition `_node_updated`.  Tasks switch only where they await, so a step of the
system is what one task does between two awaits.

* `Pc`, `HandlerPc` — the awaits at which `execute_graph` and a handler can stand.
* `Lock` — `asyncio.Lock`, which hands itself over in the order of its queue.
* `OrcState`, `Action`, `orchestrator` — states, actions, and the transition system.
* `firstMatch`, `onJobEvent` — what an event does to a graph.
* `mainStep_cases`, `handlerStep_cases` — **what a step can do**; `mainStep_effect_cases` —
  what it can do to all but the lock.
-/

namespace Ucser

/-! ## States -/

/-- A task that can hold the lock of the condition. -/
inductive Task where
  | main
  | handler (i : Nat)
  deriving DecidableEq, Repr

/-- `asyncio.Lock`: is it held, and who waits for it, first come first. -/
structure Lock where
  locked : Bool := false
  queue : List Task := []

/-- The lock can be taken on the spot. -/
def Lock.free (lock : Lock) : Bool := !lock.locked && lock.queue.isEmpty

/-- The lock can be taken by a task that waits for it. -/
def Lock.offers (lock : Lock) (task : Task) : Bool :=
  !lock.locked && lock.queue.head? = some task

/-- Where `execute_graph` stands. -/
inductive Pc where
  /-- At the initial checkpoint. -/
  | checkpoint
  /-- Subscribing to the bus. -/
  | subscribe
  /-- In `dispatch_ucer` for a node, with the rest of the batch. -/
  | dispatch (key : String) (rest : List String) (ucerId : String)
  /-- At the checkpoint after a dispatch. -/
  | dispatched (key : String) (rest : List String) (ucerId : String)
  /-- Without a bus: at the checkpoint after the node has been completed. -/
  | completed (key : String) (rest : List String)
  /-- At the checkpoint after a dispatch has failed. -/
  | failed
  /-- Waiting for the lock in order to notify, then going on with what is left of the
  batch: nothing after a `break`. -/
  | notifyLock (rest : List String)
  /-- Waiting for the lock in order to wait on the condition. -/
  | waitLock
  /-- Holding the lock, about to wait. -/
  | armed
  /-- In `_node_updated.wait()`, not notified. -/
  | waiting
  /-- Notified, or timed out, and yet to ask for the lock again. -/
  | woken (timedOut : Bool)
  /-- Waiting for the lock again. -/
  | relocking (timedOut : Bool)
  /-- Holding the lock again. -/
  | relocked (timedOut : Bool)
  | returned (result : Bool)
  | raised
  deriving DecidableEq, Repr

/-- Where a handler stands. -/
inductive HandlerPc where
  /-- At its checkpoint. -/
  | sync
  /-- Waiting for the lock in order to notify. -/
  | lock
  | done
  deriving DecidableEq, Repr

/-- The state of a call of `execute_graph` and of the handlers. -/
structure OrcState where
  graph : UCERGraph
  pc : Pc := .checkpoint
  handlers : List HandlerPc := []
  lock : Lock := {}
  /-- Events are delivered once the subscription is there. -/
  listening : Bool := false
  /-- The keys of the nodes handed to `dispatch_ucer`, in that order. -/
  dispatched : List String := []

/-- What happens next. -/
inductive Action where
  /-- `execute_graph` goes on from its await, which returns or raises; `compiled` is the
  identifier of the record if a node is then compiled, `none` if compiling it raises. -/
  | main (ok : Bool) (compiled : Option String)
  /-- An event arrives and its handler runs up to its first await. -/
  | deliver (event : Json.Value)
  /-- A handler goes on from its await. -/
  | handler (i : Nat) (ok : Bool)
  /-- The 30 seconds of `wait_for` are over. -/
  | timeout

/-! ## Events -/

/-- `node.ucer_id == ucer_id` for what `event.get("ucer_id")` returned. -/
def sameUcerId (ucerId : Option String) (value : Json.Value) : Bool :=
  match ucerId, value with
  | none, .null => true
  | some s, .str t => s = t
  | _, _ => false

/-- The first node an event is about. -/
def firstMatch (graph : UCERGraph) (event : List (String × Json.Value)) :
    Option (String × DAGNode) :=
  graph.nodes.items.find? (fun item =>
    sameUcerId item.2.ucerId ((Json.get? event "ucer_id").getD .null))

/-- `event.get("success", False)` as a condition. -/
def verdict (event : List (String × Json.Value)) : Bool :=
  ((Json.get? event "success").getD (.bool false)).truthy

/-- What the handler does to the graph before its first await; `none` when the event is
about no node, or is no object, so that `event.get` raises. -/
def onJobEvent (graph : UCERGraph) (event : Json.Value) : Option UCERGraph :=
  match event with
  | .obj fields =>
      match firstMatch graph fields with
      | some (_, node) =>
          if verdict fields then some (graph.markCompleted node.nodeId node.ucerId)
          else some (graph.markFailed node.nodeId)
      | none => none
  | _ => none

/-! ## The steps of `execute_graph` -/

namespace UCERGraph

/-- The identifier of the node under a key. -/
def nodeIdOf (graph : UCERGraph) (key : String) : String :=
  (graph.nodeId? key).getD key

/-- Every node goes by the key it is stored under. -/
def Named (graph : UCERGraph) : Prop := ∀ key, graph.nodeIdOf key = key

theorem SameShape.nodeIdOf {graph graph' : UCERGraph} (h : SameShape graph graph') (key : String) :
    graph'.nodeIdOf key = graph.nodeIdOf key := by
  rw [UCERGraph.nodeIdOf, h.nodeId]
  rfl

theorem SameShape.named {graph graph' : UCERGraph} (h : SameShape graph graph')
    (hnamed : graph.Named) : graph'.Named :=
  fun key => (h.nodeIdOf key).trans (hnamed key)

theorem named_empty : Named {} := fun _ => rfl

/-- `add_node` stores a node under its identifier. -/
theorem Named.addNode {graph : UCERGraph} (h : graph.Named) (node : DAGNode) :
    (graph.addNode node).Named := by
  intro key
  show (((graph.nodes.insert node.nodeId node).get? key).map DAGNode.nodeId).getD key = key
  rw [Dict.get?_insert]
  by_cases hid : key = node.nodeId
  · rw [if_pos hid, Option.map_some, Option.getD_some, hid]
  · rw [if_neg hid]
    exact h key

theorem Named.foldl_addNode {nodes : List DAGNode} {graph : UCERGraph} (h : graph.Named) :
    (nodes.foldl UCERGraph.addNode graph).Named := by
  induction nodes generalizing graph with
  | nil => exact h
  | cons node rest ih => exact ih (h.addNode node)

theorem named_ofNodes (nodes : List DAGNode) : (ofNodes nodes).Named :=
  named_empty.foldl_addNode

end UCERGraph

namespace OrcState

/-- `notify_all()`. -/
def notifyAll (s : OrcState) : OrcState :=
  match s.pc with
  | .waiting => { s with pc := .woken false }
  | _ => s

/-- The `except` of the dispatch loop, up to its checkpoint. -/
def fail (key : String) (s : OrcState) : OrcState :=
  { s with graph := s.graph.markFailed (s.graph.nodeIdOf key), pc := .failed }

/-- The start of a round of the dispatch loop, up to its first await. -/
def startNode (compiled : Option String) (key : String) (rest : List String) (s : OrcState) :
    OrcState :=
  let s := { s with graph := s.graph.setRunning key }
  match compiled with
  | none => s.fail key
  | some ucerId =>
      { s with
        graph := s.graph.setUcerId key ucerId
        pc := .dispatch key rest ucerId
        dispatched := s.dispatched ++ [key] }

/-- From the head of the `while` to the next await. -/
def loopTop (compiled : Option String) (s : OrcState) : OrcState :=
  if s.graph.isComplete || s.graph.hasFailed then
    { s with pc := .returned (!s.graph.hasFailed) }
  else
    match s.graph.getReadyNodes with
    | [] =>
        if s.lock.free then { s with lock := { s.lock with locked := true }, pc := .armed }
        else { s with lock := { s.lock with queue := s.lock.queue ++ [.main] }, pc := .waitLock }
    | key :: rest => s.startNode compiled key rest

/-- The rest of a batch, then the head of the `while`. -/
def goOn (compiled : Option String) (rest : List String) (s : OrcState) : OrcState :=
  match rest with
  | [] => s.loopTop compiled
  | key :: rest => s.startNode compiled key rest

/-- `async with self._node_updated: self._node_updated.notify_all()`, then going on. -/
def notify (compiled : Option String) (rest : List String) (s : OrcState) : OrcState :=
  if s.lock.free then s.notifyAll.goOn compiled rest
  else { s with lock := { s.lock with queue := s.lock.queue ++ [.main] }, pc := .notifyLock rest }

/-- The lock goes to the first task in its queue. -/
def popQueue (s : OrcState) : OrcState :=
  { s with lock := { s.lock with queue := s.lock.queue.tail } }

/-- A step of `execute_graph` from the await it stands at. -/
def mainStep (hasBus ok : Bool) (compiled : Option String) (s : OrcState) : Option OrcState :=
  match s.pc with
  | .checkpoint =>
      if ok then
        if hasBus then some { s with pc := .subscribe } else some (s.loopTop compiled)
      else some { s with pc := .raised }
  | .subscribe =>
      if ok then some ({ s with listening := true }.loopTop compiled)
      else some { s with pc := .raised }
  | .dispatch key rest ucerId =>
      if ok then some { s with pc := .dispatched key rest ucerId } else some (s.fail key)
  | .dispatched key rest ucerId =>
      if ok then
        if hasBus then some (s.goOn compiled rest)
        else some { s with
          graph := s.graph.markCompleted (s.graph.nodeIdOf key) (some ucerId)
          pc := .completed key rest }
      else some (s.fail key)
  | .completed key rest =>
      if ok then some (s.notify compiled rest) else some (s.fail key)
  | .failed => if ok then some (s.notify compiled []) else some { s with pc := .raised }
  | .notifyLock rest =>
      if s.lock.offers .main then some (s.popQueue.notifyAll.goOn compiled rest) else none
  | .waitLock =>
      if s.lock.offers .main then
        some { s.popQueue with lock := { s.popQueue.lock with locked := true }, pc := .armed }
      else none
  | .armed => some { s with lock := { s.lock with locked := false }, pc := .waiting }
  | .waiting => none
  | .woken timedOut =>
      if s.lock.free then
        some { s with lock := { s.lock with locked := true }, pc := .relocked timedOut }
      else
        some { s with
          lock := { s.lock with queue := s.lock.queue ++ [.main] }
          pc := .relocking timedOut }
  | .relocking timedOut =>
      if s.lock.offers .main then
        some { s.popQueue with
          lock := { s.popQueue.lock with locked := true }
          pc := .relocked timedOut }
      else none
  | .relocked timedOut =>
      let s := { s with lock := { s.lock with locked := false } }
      if timedOut then some { s with pc := .raised } else some (s.loopTop compiled)
  | .returned _ => none
  | .raised => none

/-- A step of a handler. -/
def handlerStep (i : Nat) (ok : Bool) (s : OrcState) : Option OrcState :=
  match s.handlers[i]? with
  | some .sync =>
      if ok then
        if s.lock.free then some { s.notifyAll with handlers := s.handlers.set i .done }
        else some { s with
          lock := { s.lock with queue := s.lock.queue ++ [.handler i] }
          handlers := s.handlers.set i .lock }
      else some { s with handlers := s.handlers.set i .done }
  | some .lock =>
      if s.lock.offers (.handler i) then
        some { s.popQueue.notifyAll with handlers := s.handlers.set i .done }
      else none
  | _ => none

/-- An event is delivered. -/
def deliverStep (event : Json.Value) (s : OrcState) : Option OrcState :=
  if s.listening then
    match onJobEvent s.graph event with
    | some graph => some { s with graph := graph, handlers := s.handlers ++ [.sync] }
    | none => some s
  else none

/-- The time of `wait_for` runs out. -/
def timeoutStep (s : OrcState) : Option OrcState :=
  match s.pc with
  | .waiting => some { s with pc := .woken true }
  | .woken _ => some { s with pc := .woken true }
  | .relocking _ => some { s with pc := .relocking true }
  | _ => none

end OrcState

/-- `execute_graph` and its handlers. -/
def orchestrator (hasBus : Bool) : System OrcState Action where
  step s action :=
    match action with
    | .main ok compiled => s.mainStep hasBus ok compiled
    | .deliver event => s.deliverStep event
    | .handler i ok => s.handlerStep i ok
    | .timeout => s.timeoutStep

/-! ## What a step can do -/

namespace Pc

/-- The nodes of the batch that are yet to be started. -/
def batch : Pc → List String
  | .dispatch _ rest _ => rest
  | .dispatched _ rest _ => rest
  | .completed _ rest => rest
  | .notifyLock rest => rest
  | _ => []

/-- The node whose dispatch is under way. -/
def attempting : Pc → Option String
  | .dispatch key _ _ => some key
  | .dispatched key _ _ => some key
  | .completed key _ => some key
  | _ => none

/-- The task stands in the queue of the lock. -/
def queued : Pc → Bool
  | .notifyLock _ => true
  | .waitLock => true
  | .relocking _ => true
  | _ => false

/-- The task holds the lock. -/
def holding : Pc → Bool
  | .armed => true
  | .relocked _ => true
  | _ => false

/-- The task neither holds the lock, nor stands in its queue, nor waits on the
condition. -/
def away (pc : Pc) : Bool := !pc.queued && !pc.holding && pc ≠ .waiting

end Pc

namespace OrcState

variable {hasBus ok : Bool} {compiled : Option String} {s s' : OrcState}

/-- A step that only moves `execute_graph` on: nothing is touched and no new batch
begun. -/
def StillMove (s s' : OrcState) : Prop :=
  ∃ pc : Pc, s.pc.away = true ∧ pc.away = true ∧ (pc.batch = s.pc.batch ∨ pc.batch = []) ∧
    (∀ b, pc ≠ .returned b) ∧ s' = { s with pc := pc }

/-- A step that goes on with the batch or, after it, at the head of the `while`. -/
def GoOnMove (compiled : Option String) (s s' : OrcState) : Prop :=
  ∃ lock listening,
    (s.pc.away = true ∧ lock = s.lock ∨
      s.lock.offers .main = true ∧ s.pc = .notifyLock s.pc.batch ∧
        lock = { s.lock with queue := s.lock.queue.tail } ∨
      s.pc = .relocked false ∧ lock = { s.lock with locked := false }) ∧
    s' = goOn compiled s.pc.batch { s with lock := lock, listening := listening }

/-- A step into the queue of the lock. -/
def QueueMove (s s' : OrcState) : Prop :=
  ∃ pc : Pc, s.pc.away = true ∧ (pc = .notifyLock s.pc.batch ∨ ∃ t, pc = .relocking t ∧
      s.pc.batch = []) ∧
    s' = { s with lock := { s.lock with queue := s.lock.queue ++ [.main] }, pc := pc }

/-- A step that takes the lock and keeps it. -/
def TakeMove (s s' : OrcState) : Prop :=
  (s.lock.offers .main = true ∧ s.pc = .waitLock ∧
      s' = { s with lock := ⟨true, s.lock.queue.tail⟩, pc := .armed }) ∨
    ∃ t, (s.lock.offers .main = true ∧ s.pc = .relocking t ∧
        s' = { s with lock := ⟨true, s.lock.queue.tail⟩, pc := .relocked t }) ∨
      (s.lock.free = true ∧ s.pc = .woken t ∧
        s' = { s with lock := ⟨true, s.lock.queue⟩, pc := .relocked t })

/-- A step that releases the lock. -/
def ReleaseMove (s s' : OrcState) : Prop :=
  (s.pc = .armed ∧ s' = { s with lock := ⟨false, s.lock.queue⟩, pc := .waiting }) ∨
    (s.pc = .relocked true ∧ s' = { s with lock := ⟨false, s.lock.queue⟩, pc := .raised })

/-- The kinds of steps of `execute_graph`. -/
inductive MainMove (hasBus : Bool) (compiled : Option String) (s s' : OrcState) : Prop where
  | still (h : StillMove s s')
  | fail (key : String) (h : s.pc.attempting = some key) (heq : s' = s.fail key)
  | complete (key : String) (rest : List String) (ucerId : String)
      (h : s.pc = .dispatched key rest ucerId) (hbus : hasBus = false)
      (heq : s' = { s with
        graph := s.graph.markCompleted (s.graph.nodeIdOf key) (some ucerId)
        pc := .completed key rest })
  | goOn (h : GoOnMove compiled s s')
  | queue (h : QueueMove s s')
  | take (h : TakeMove s s')
  | release (h : ReleaseMove s s')

theorem notifyAll_of_ne_waiting (h : s.pc ≠ .waiting) : s.notifyAll = s := by
  unfold notifyAll
  split
  · exact absurd ‹_› h
  · rfl

theorem ne_waiting_of_away (h : s.pc.away = true) : s.pc ≠ .waiting := by
  intro hpc
  rw [hpc] at h
  exact absurd h (by decide)

theorem goOnMove_of_away (h : s.pc.away = true) (listening : Bool) :
    GoOnMove compiled s (goOn compiled s.pc.batch { s with listening := listening }) :=
  ⟨s.lock, listening, Or.inl ⟨h, rfl⟩, rfl⟩

/-- Notifying, `execute_graph` goes on or joins the queue of the lock. -/
theorem mainMove_notify (haway : s.pc.away = true) :
    MainMove hasBus compiled s (s.notify compiled s.pc.batch) := by
  unfold notify
  by_cases hfree : s.lock.free = true
  · rw [if_pos hfree, notifyAll_of_ne_waiting (ne_waiting_of_away haway)]
    exact .goOn (goOnMove_of_away haway s.listening)
  · rw [if_neg hfree]
    exact .queue ⟨_, haway, Or.inl rfl, rfl⟩

theorem mainMove_still (pc : Pc) (h : s.pc.away = true) (hpc : pc.away = true)
    (hbatch : pc.batch = s.pc.batch ∨ pc.batch = []) (hreturned : ∀ b, pc ≠ .returned b) :
    MainMove hasBus compiled s { s with pc := pc } :=
  .still ⟨pc, h, hpc, hbatch, hreturned, rfl⟩

/-- **What a step of `execute_graph` can do.** -/
theorem mainStep_cases (h : s.mainStep hasBus ok compiled = some s') :
    MainMove hasBus compiled s s' := by
  have hraised : s.pc.away = true → some { s with pc := .raised } = some s' →
      MainMove hasBus compiled s s' := by
    intro haway heq
    rw [← Option.some.inj heq]
    exact mainMove_still .raised haway rfl (Or.inr rfl) (by simp)
  have hgoOn : ∀ listening, s.pc.away = true →
      some (goOn compiled s.pc.batch { s with listening := listening }) = some s' →
      MainMove hasBus compiled s s' := by
    intro listening haway heq
    rw [← Option.some.inj heq]
    exact .goOn (goOnMove_of_away haway listening)
  have hfail : ∀ key, s.pc.attempting = some key → some (s.fail key) = some s' →
      MainMove hasBus compiled s s' := by
    intro key hkey heq
    exact .fail key hkey (Option.some.inj heq).symm
  have hnotify : s.pc.away = true → some (s.notify compiled s.pc.batch) = some s' →
      MainMove hasBus compiled s s' := by
    intro haway heq
    rw [← Option.some.inj heq]
    exact mainMove_notify haway
  unfold mainStep at h
  cases hpc : s.pc with
  | checkpoint =>
      rw [hpc] at h hraised hgoOn
      cases ok with
      | true =>
          cases hasBus with
          | true =>
              rw [← Option.some.inj h]
              exact mainMove_still .subscribe (by rw [hpc]; rfl) rfl (by rw [hpc]; exact Or.inl rfl)
                (by simp)
          | false => exact hgoOn s.listening rfl h
      | false => exact hraised rfl h
  | subscribe =>
      rw [hpc] at h hraised hgoOn
      cases ok with
      | true =>
          refine hgoOn true rfl ?_
          rw [← h]
          rfl
      | false => exact hraised rfl h
  | dispatch key rest ucerId =>
      rw [hpc] at h hfail
      cases ok with
      | true =>
          rw [← Option.some.inj h]
          exact mainMove_still (.dispatched key rest ucerId) (by rw [hpc]; rfl) rfl
            (by rw [hpc]; exact Or.inl rfl) (by simp)
      | false => exact hfail key rfl h
  | dispatched key rest ucerId =>
      rw [hpc] at h hgoOn hfail
      cases ok with
      | true =>
          cases hasBus with
          | true => exact hgoOn s.listening rfl h
          | false => exact .complete key rest ucerId hpc rfl (Option.some.inj h).symm
      | false => exact hfail key rfl h
  | completed key rest =>
      rw [hpc] at h hnotify hfail
      cases ok with
      | true => exact hnotify rfl h
      | false => exact hfail key rfl h
  | failed =>
      rw [hpc] at h hnotify hraised
      cases ok with
      | true => exact hnotify rfl h
      | false => exact hraised rfl h
  | notifyLock rest =>
      rw [hpc] at h
      obtain ⟨hoffers, heq⟩ := Option.ite_none_right_eq_some.mp h
      rw [notifyAll_of_ne_waiting (by simp [popQueue, hpc])] at heq
      refine .goOn ⟨_, s.listening, Or.inr (Or.inl ⟨hoffers, by rw [hpc]; rfl, rfl⟩), ?_⟩
      rw [hpc, ← Option.some.inj heq]
      rfl
  | waitLock =>
      rw [hpc] at h
      obtain ⟨hoffers, heq⟩ := Option.ite_none_right_eq_some.mp h
      exact .take (Or.inl ⟨hoffers, hpc, (Option.some.inj heq).symm⟩)
  | armed =>
      rw [hpc] at h
      exact .release (Or.inl ⟨hpc, (Option.some.inj h).symm⟩)
  | waiting =>
      rw [hpc] at h
      exact absurd h (by simp)
  | woken t =>
      rw [hpc] at h
      dsimp only at h
      by_cases hfree : s.lock.free = true
      · rw [if_pos hfree] at h
        exact .take (Or.inr ⟨t, Or.inr ⟨hfree, hpc, (Option.some.inj h).symm⟩⟩)
      · rw [if_neg hfree] at h
        exact .queue ⟨.relocking t, by rw [hpc]; rfl, Or.inr ⟨t, rfl, by rw [hpc]; rfl⟩,
          (Option.some.inj h).symm⟩
  | relocking t =>
      rw [hpc] at h
      obtain ⟨hoffers, heq⟩ := Option.ite_none_right_eq_some.mp h
      exact .take (Or.inr ⟨t, Or.inl ⟨hoffers, hpc, (Option.some.inj heq).symm⟩⟩)
  | relocked t =>
      rw [hpc] at h
      cases t with
      | true => exact .release (Or.inr ⟨hpc, (Option.some.inj h).symm⟩)
      | false =>
          refine .goOn ⟨_, s.listening, Or.inr (Or.inr ⟨hpc, rfl⟩), ?_⟩
          rw [hpc, ← Option.some.inj h]
          rfl
  | returned b =>
      rw [hpc] at h
      exact absurd h (by simp)
  | raised =>
      rw [hpc] at h
      exact absurd h (by simp)

/-- What a step of `execute_graph` is to whoever does not ask about the lock. -/
inductive MainEffect (hasBus : Bool) (compiled : Option String) (s s' : OrcState) : Prop where
  | keep (lock : Lock) (pc : Pc) (hbatch : pc.batch = s.pc.batch ∨ pc.batch = [])
      (hreturned : ∀ b, pc ≠ .returned b) (heq : s' = { s with lock := lock, pc := pc })
  | fail (key : String) (h : s.pc.attempting = some key) (heq : s' = s.fail key)
  | complete (key : String) (rest : List String) (ucerId : String)
      (h : s.pc = .dispatched key rest ucerId) (hbus : hasBus = false)
      (heq : s' = { s with
        graph := s.graph.markCompleted (s.graph.nodeIdOf key) (some ucerId)
        pc := .completed key rest })
  | goOn (lock : Lock) (listening : Bool)
      (heq : s' = goOn compiled s.pc.batch { s with lock := lock, listening := listening })

/-- **What a step of `execute_graph` can do to all but the lock.** -/
theorem mainStep_effect_cases (h : s.mainStep hasBus ok compiled = some s') :
    MainEffect hasBus compiled s s' := by
  cases mainStep_cases h with
  | still hmove =>
      obtain ⟨pc, _, _, hbatch, hreturned, heq⟩ := hmove
      exact .keep s.lock pc hbatch hreturned heq
  | fail key hkey heq => exact .fail key hkey heq
  | complete key rest ucerId hpc hbus heq => exact .complete key rest ucerId hpc hbus heq
  | goOn hmove =>
      obtain ⟨lock, listening, _, heq⟩ := hmove
      exact .goOn lock listening heq
  | queue hmove =>
      obtain ⟨pc, _, rfl | ⟨t, rfl, _⟩, heq⟩ := hmove
      · exact .keep _ (.notifyLock s.pc.batch) (Or.inl rfl) (by simp) heq
      · exact .keep _ (.relocking t) (Or.inr rfl) (by simp) heq
  | take hmove =>
      obtain ⟨_, _, heq⟩ | ⟨t, ⟨_, _, heq⟩ | ⟨_, _, heq⟩⟩ := hmove
      · exact .keep _ _ (Or.inr rfl) (by simp) heq
      · exact .keep _ _ (Or.inr rfl) (by simp) heq
      · exact .keep _ _ (Or.inr rfl) (by simp) heq
  | release hmove =>
      obtain ⟨_, heq⟩ | ⟨_, heq⟩ := hmove
      · exact .keep _ _ (Or.inr rfl) (by simp) heq
      · exact .keep _ _ (Or.inr rfl) (by simp) heq

/-- The graph gives `execute_graph` no reason to wait: a node is ready, all are completed,
or one has failed. -/
def Stirred (graph : UCERGraph) : Prop :=
  graph.getReadyNodes ≠ [] ∨ graph.isComplete = true ∨ graph.hasFailed = true

/-- **What the head of the `while` can do.** -/
theorem loopTop_cases (compiled : Option String) (s : OrcState) :
    ((s.graph.isComplete = true ∨ s.graph.hasFailed = true) ∧
        s.loopTop compiled = { s with pc := .returned (!s.graph.hasFailed) }) ∨
      (¬ Stirred s.graph ∧ s.lock.free = true ∧
        s.loopTop compiled = { s with lock := ⟨true, s.lock.queue⟩, pc := .armed }) ∨
      (¬ Stirred s.graph ∧ s.lock.free = false ∧
        s.loopTop compiled =
          { s with lock := ⟨s.lock.locked, s.lock.queue ++ [.main]⟩, pc := .waitLock }) ∨
      ∃ key rest, s.graph.getReadyNodes = key :: rest ∧ s.graph.isComplete = false ∧
        s.graph.hasFailed = false ∧ s.loopTop compiled = s.startNode compiled key rest := by
  unfold loopTop
  by_cases hdone : (s.graph.isComplete || s.graph.hasFailed) = true
  · rw [if_pos hdone]
    exact Or.inl ⟨Bool.or_eq_true_iff.mp hdone, rfl⟩
  · rw [if_neg hdone]
    obtain ⟨hcomplete, hfailed⟩ := Bool.or_eq_false_iff.mp (Bool.eq_false_iff.mpr hdone)
    right
    cases hready : s.graph.getReadyNodes with
    | nil =>
        have hstirred : ¬ Stirred s.graph := by
          rintro (h | h | h)
          · exact h hready
          · exact absurd (hcomplete.symm.trans h) (by decide)
          · exact absurd (hfailed.symm.trans h) (by decide)
        by_cases hfree : s.lock.free = true
        · exact Or.inl ⟨hstirred, hfree, by rw [if_pos hfree]⟩
        · exact Or.inr (Or.inl ⟨hstirred, Bool.eq_false_iff.mpr hfree, by rw [if_neg hfree]⟩)
    | cons key rest =>
        exact Or.inr (Or.inr ⟨key, rest, rfl, hcomplete, hfailed, rfl⟩)

/-- **What going on can do**: it starts a node, the next of the batch or the first that is
ready, or it comes to rest. -/
theorem goOn_cases (compiled : Option String) (batch : List String) (s : OrcState) :
    (∃ key rest, (batch = key :: rest ∨ s.graph.getReadyNodes = key :: rest) ∧
        s.goOn compiled batch = s.startNode compiled key rest) ∨
      ∃ pc lock, pc.batch = [] ∧ s.goOn compiled batch = { s with pc := pc, lock := lock } := by
  cases batch with
  | cons key rest => exact Or.inl ⟨key, rest, Or.inl rfl, rfl⟩
  | nil =>
      obtain ⟨_, heq⟩ | ⟨_, _, heq⟩ | ⟨_, _, heq⟩ | ⟨key, rest, hready, _, _, heq⟩ :=
        loopTop_cases compiled s
      · exact Or.inr ⟨_, _, rfl, heq⟩
      · exact Or.inr ⟨_, _, rfl, heq⟩
      · exact Or.inr ⟨_, _, rfl, heq⟩
      · exact Or.inl ⟨key, rest, Or.inr hready, heq⟩

/-- The kinds of steps of a handler. -/
inductive HandlerMove (i : Nat) (ok : Bool) (s s' : OrcState) : Prop where
  /-- Its checkpoint raises. -/
  | raise (h : s.handlers[i]? = some .sync) (hok : ok = false)
      (heq : s' = { s with handlers := s.handlers.set i .done })
  /-- It takes the lock on the spot, notifies and ends. -/
  | notifyNow (h : s.handlers[i]? = some .sync) (hfree : s.lock.free = true)
      (heq : s' = { s.notifyAll with handlers := s.handlers.set i .done })
  /-- It joins the queue of the lock. -/
  | queue (h : s.handlers[i]? = some .sync) (hfree : s.lock.free = false)
      (heq : s' = { s with
        lock := ⟨s.lock.locked, s.lock.queue ++ [.handler i]⟩
        handlers := s.handlers.set i .lock })
  /-- Its turn has come: it notifies and ends. -/
  | notifyLater (h : s.handlers[i]? = some .lock) (hoffers : s.lock.offers (.handler i) = true)
      (heq : s' = { s.popQueue.notifyAll with handlers := s.handlers.set i .done })

/-- **What a step of a handler can do.** -/
theorem handlerStep_cases {i : Nat} (h : s.handlerStep i ok = some s') :
    HandlerMove i ok s s' := by
  unfold handlerStep at h
  cases hpc : s.handlers[i]? with
  | none =>
      rw [hpc] at h
      exact absurd h (by simp)
  | some pc =>
      rw [hpc] at h
      cases pc with
      | sync =>
          cases ok with
          | true =>
              dsimp only at h
              rw [if_pos rfl] at h
              by_cases hfree : s.lock.free = true
              · rw [if_pos hfree] at h
                exact .notifyNow hpc hfree (Option.some.inj h).symm
              · rw [if_neg hfree] at h
                exact .queue hpc (Bool.eq_false_iff.mpr hfree) (Option.some.inj h).symm
          | false => exact .raise hpc rfl (Option.some.inj h).symm
      | lock =>
          obtain ⟨hoffers, heq⟩ := Option.ite_none_right_eq_some.mp h
          exact .notifyLater hpc hoffers (Option.some.inj heq).symm
      | done =>
          exact absurd h (by simp)

/-- What the delivery of an event can do. -/
theorem deliverStep_cases {event : Json.Value} (h : s.deliverStep event = some s') :
    s' = s ∨ ∃ graph, onJobEvent s.graph event = some graph ∧
      s' = { s with graph := graph, handlers := s.handlers ++ [.sync] } := by
  obtain ⟨_, heq⟩ := Option.ite_none_right_eq_some.mp h
  cases hevent : onJobEvent s.graph event with
  | none =>
      rw [hevent] at heq
      exact Or.inl (Option.some.inj heq).symm
  | some graph =>
      rw [hevent] at heq
      exact Or.inr ⟨graph, rfl, (Option.some.inj heq).symm⟩

/-- What the end of the waiting time can do. -/
theorem timeoutStep_cases (h : s.timeoutStep = some s') :
    (s.pc = .waiting ∨ ∃ t, s.pc = .woken t) ∧ s' = { s with pc := .woken true } ∨
      (∃ t, s.pc = .relocking t) ∧ s' = { s with pc := .relocking true } := by
  unfold timeoutStep at h
  cases hpc : s.pc with
  | waiting =>
      rw [hpc] at h
      exact Or.inl ⟨Or.inl rfl, (Option.some.inj h).symm⟩
  | woken t =>
      rw [hpc] at h
      exact Or.inl ⟨Or.inr ⟨t, rfl⟩, (Option.some.inj h).symm⟩
  | relocking t =>
      rw [hpc] at h
      exact Or.inr ⟨⟨t, rfl⟩, (Option.some.inj h).symm⟩
  | _ =>
      rw [hpc] at h
      exact absurd h (by simp)

@[simp] theorem notifyAll_graph (s : OrcState) : s.notifyAll.graph = s.graph := by
  unfold notifyAll
  split <;> rfl

@[simp] theorem notifyAll_lock (s : OrcState) : s.notifyAll.lock = s.lock := by
  unfold notifyAll
  split <;> rfl

@[simp] theorem notifyAll_dispatched (s : OrcState) : s.notifyAll.dispatched = s.dispatched := by
  unfold notifyAll
  split <;> rfl

theorem notifyAll_batch (s : OrcState) : s.notifyAll.pc.batch = s.pc.batch := by
  unfold notifyAll
  split
  · rename_i hpc
    rw [hpc]
    rfl
  · rfl

end OrcState

end Ucser
