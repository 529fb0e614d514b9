import Ucser.Core.Orchestrator

/-!
# No wake-up is lost

A handler changes the graph, saves it, and only then takes the lock of the condition to
notify; `execute_graph` looks at the graph outside the lock and then takes it to wait.
In between, the task can be switched.

* `Ahead` — a handler that has its `notify_all` ahead of it.
* `LockInv` — who stands in the queue of the lock.
* `WakeInv` — while `execute_graph` waits, or is about to, a graph that would not have
  let it wait has a handler ahead that will notify *after* the wait has begun.
* `no_lost_wakeup` — **in no run does `execute_graph` wait in vain**.
-/

namespace Ucser

/-- The handler still has its `notify_all` ahead of it. -/
def Ahead (handlers : List HandlerPc) (i : Nat) : Prop :=
  handlers[i]? = some .sync ∨ handlers[i]? = some .lock

/-- The handler will notify after `execute_graph`, which stands in the queue of the lock:
it has yet to join the queue, or stands behind. -/
def Behind (handlers : List HandlerPc) (queue : List Task) (i : Nat) : Prop :=
  handlers[i]? = some .sync ∨
    handlers[i]? = some .lock ∧
      ∃ before after, queue = before ++ .main :: after ∧ .handler i ∈ after

theorem Behind.ahead {handlers : List HandlerPc} {queue : List Task} {i : Nat}
    (h : Behind handlers queue i) : Ahead handlers i :=
  h.imp_right And.left

/-! ## The queue of the lock -/

/-- Nobody stands in the queue twice, and who stands there is waiting for the lock. -/
structure LockInv (queue : List Task) (handlers : List HandlerPc) : Prop where
  once : queue.Nodup
  waits : ∀ i, .handler i ∈ queue → handlers[i]? = some .lock

namespace LockInv

variable {queue : List Task} {handlers : List HandlerPc} {i : Nat}

theorem tail (h : LockInv queue handlers) : LockInv queue.tail handlers :=
  ⟨h.once.tail, fun i hi => h.waits i (List.mem_of_mem_tail hi)⟩

theorem concat_main (h : LockInv queue handlers) (hmain : .main ∉ queue) :
    LockInv (queue ++ [.main]) handlers := by
  refine ⟨?_, fun i hi => ?_⟩
  · rw [← List.concat_eq_append]
    exact h.once.concat hmain
  · rcases List.mem_append.mp hi with hi | hi
    · exact h.waits i hi
    · exact absurd (List.mem_singleton.mp hi) (by simp)

/-- A handler that is not in the queue changes its place. -/
theorem set (h : LockInv queue handlers) (hi : .handler i ∉ queue) (pc : HandlerPc) :
    LockInv queue (handlers.set i pc) := by
  refine ⟨h.once, fun j hj => ?_⟩
  have hne : i ≠ j := by
    rintro rfl
    exact hi hj
  rw [List.getElem?_set_ne hne]
  exact h.waits j hj

theorem notMem_of_sync (h : LockInv queue handlers) (hi : handlers[i]? = some .sync) :
    .handler i ∉ queue := by
  intro hmem
  rw [h.waits i hmem] at hi
  exact absurd hi (by simp)

/-- A handler joins the queue. -/
theorem concat_handler (h : LockInv queue handlers) (hi : handlers[i]? = some .sync) :
    LockInv (queue ++ [.handler i]) (handlers.set i .lock) := by
  have hnot := h.notMem_of_sync hi
  have hset := h.set hnot .lock
  refine ⟨?_, fun j hj => ?_⟩
  · rw [← List.concat_eq_append]
    exact h.once.concat hnot
  · rcases List.mem_append.mp hj with hj | hj
    · exact hset.waits j hj
    · obtain rfl : j = i := Task.handler.inj (List.mem_singleton.mp hj)
      obtain ⟨hlt, _⟩ := List.getElem?_eq_some_iff.mp hi
      exact List.getElem?_set_self hlt

/-- A handler arrives. -/
theorem append (h : LockInv queue handlers) (pc : HandlerPc) :
    LockInv queue (handlers ++ [pc]) := by
  refine ⟨h.once, fun i hi => ?_⟩
  have hlock := h.waits i hi
  obtain ⟨hlt, _⟩ := List.getElem?_eq_some_iff.mp hlock
  rw [List.getElem?_append_left hlt, hlock]

end LockInv

/-- The lock offers itself to the first in its queue. -/
theorem Lock.eq_cons_of_offers {lock : Lock} {task : Task} (h : lock.offers task = true) :
    lock.locked = false ∧ lock.queue = task :: lock.queue.tail := by
  unfold Lock.offers at h
  obtain ⟨hlocked, hhead⟩ := Bool.and_eq_true_iff.mp h
  refine ⟨by simpa using hlocked, ?_⟩
  cases hqueue : lock.queue with
  | nil =>
      rw [hqueue] at hhead
      exact absurd hhead (by simp)
  | cons first rest =>
      rw [hqueue] at hhead
      obtain rfl : first = task := by simpa using hhead
      rfl

/-- Taking the lock, a task leaves the queue. -/
theorem LockInv.notMem_tail {lock : Lock} {task : Task} {handlers : List HandlerPc}
    (h : LockInv lock.queue handlers) (hoffers : lock.offers task = true) :
    task ∉ lock.queue.tail := by
  have honce := h.once
  rw [(Lock.eq_cons_of_offers hoffers).2] at honce
  exact (List.nodup_cons.mp honce).1

theorem Lock.eq_nil_of_free {lock : Lock} (h : lock.free = true) :
    lock.locked = false ∧ lock.queue = [] := by
  unfold Lock.free at h
  obtain ⟨hlocked, hempty⟩ := Bool.and_eq_true_iff.mp h
  exact ⟨by simpa using hlocked, List.isEmpty_iff.mp hempty⟩

/-! ## The invariant -/

/-- The invariant of waiting. -/
structure WakeInv (s : OrcState) : Prop where
  lockInv : LockInv s.lock.queue s.handlers
  mainQueued : .main ∈ s.lock.queue ↔ s.pc.queued = true
  armedHolds : s.pc = .armed → s.lock.locked = true
  awake : s.pc = .waiting ∨ s.pc = .armed → OrcState.Stirred s.graph →
    ∃ i, Ahead s.handlers i
  behind : s.pc = .waitLock → OrcState.Stirred s.graph → ∃ i, Behind s.handlers s.lock.queue i

namespace WakeInv

variable {s s' : OrcState} {compiled : Option String}

theorem init (graph : UCERGraph) : WakeInv { graph := graph } where
  lockInv := ⟨List.nodup_nil, by simp⟩
  mainQueued := by simp [Pc.queued]
  armedHolds := by simp
  awake := by simp
  behind := by simp

/-- Where `execute_graph` does not wait and is not about to, only the queue matters. -/
theorem of_busy (hlock : LockInv s.lock.queue s.handlers)
    (hmain : .main ∈ s.lock.queue ↔ s.pc.queued = true) (hwaiting : s.pc ≠ .waiting)
    (harmed : s.pc ≠ .armed) (hwaitLock : s.pc ≠ .waitLock) : WakeInv s where
  lockInv := hlock
  mainQueued := hmain
  armedHolds := fun h => absurd h harmed
  awake := fun h => absurd h (not_or.mpr ⟨hwaiting, harmed⟩)
  behind := fun h => absurd h hwaitLock

theorem notMem_of_queued (h : WakeInv s) (hqueued : s.pc.queued = false) :
    .main ∉ s.lock.queue := by
  rw [h.mainQueued, hqueued]
  decide

theorem notMem_of_away (h : WakeInv s) (haway : s.pc.away = true) : .main ∉ s.lock.queue := by
  refine h.notMem_of_queued ?_
  cases hqueued : s.pc.queued with
  | false => rfl
  | true => simp [Pc.away, hqueued] at haway

/-- Going on after the lock has been given back, or while it was never held. -/
theorem startNode {key : String} {rest : List String} (hlock : LockInv s.lock.queue s.handlers)
    (hmain : .main ∉ s.lock.queue) : WakeInv (s.startNode compiled key rest) := by
  unfold OrcState.startNode
  cases compiled with
  | none =>
      exact of_busy hlock (iff_of_false hmain (by simp [OrcState.fail, Pc.queued]))
        (by simp [OrcState.fail]) (by simp [OrcState.fail]) (by simp [OrcState.fail])
  | some ucerId =>
      exact of_busy hlock (iff_of_false hmain (by simp [Pc.queued])) (by simp) (by simp) (by simp)

/-- The head of the `while` begins to wait only on a graph that gives no reason not to. -/
theorem loopTop (hlock : LockInv s.lock.queue s.handlers) (hmain : .main ∉ s.lock.queue) :
    WakeInv (s.loopTop compiled) := by
  obtain ⟨_, heq⟩ | ⟨hcalm, _, heq⟩ | ⟨hcalm, _, heq⟩ | ⟨key, rest, _, _, _, heq⟩ :=
    OrcState.loopTop_cases compiled s
  · rw [heq]
    exact of_busy hlock (iff_of_false hmain (by simp [Pc.queued])) (by simp) (by simp) (by simp)
  · rw [heq]
    exact ⟨hlock, iff_of_false hmain (by simp [Pc.queued]), fun _ => rfl,
      fun _ hstirred => absurd hstirred hcalm, fun h => absurd h (by simp)⟩
  · rw [heq]
    exact ⟨hlock.concat_main hmain, iff_of_true (by simp) rfl, fun h => absurd h (by simp),
      fun h => absurd h (by simp), fun _ hstirred => absurd hstirred hcalm⟩
  · rw [heq]
    exact startNode hlock hmain

theorem goOn {batch : List String} (hlock : LockInv s.lock.queue s.handlers)
    (hmain : .main ∉ s.lock.queue) : WakeInv (s.goOn compiled batch) := by
  unfold OrcState.goOn
  cases batch with
  | nil => exact loopTop hlock hmain
  | cons key rest => exact startNode hlock hmain

/-- A step of `execute_graph` preserves the invariant. -/
theorem mainStep {hasBus ok : Bool} (h : WakeInv s)
    (hstep : s.mainStep hasBus ok compiled = some s') : WakeInv s' := by
  cases OrcState.mainStep_cases hstep with
  | still hmove =>
      obtain ⟨pc, haway, hpc, _, _, rfl⟩ := hmove
      refine of_busy h.lockInv (iff_of_false (h.notMem_of_away haway) ?_) ?_ ?_ ?_
      · intro hqueued
        unfold Pc.away at hpc
        rw [show pc.queued = true from hqueued] at hpc
        exact absurd hpc (by simp)
      all_goals
        rintro rfl
        exact absurd hpc (by decide)
  | fail key hkey heq =>
      have hmain : .main ∉ s.lock.queue := by
        refine h.notMem_of_away ?_
        cases hpc : s.pc <;> rw [hpc] at hkey <;>
          first | rfl | exact absurd hkey (by simp [Pc.attempting])
      rw [heq]
      exact of_busy h.lockInv (iff_of_false hmain (by simp [OrcState.fail, Pc.queued]))
        (by simp [OrcState.fail]) (by simp [OrcState.fail]) (by simp [OrcState.fail])
  | complete key rest ucerId hpc _ heq =>
      have hmain : .main ∉ s.lock.queue := h.notMem_of_away (by rw [hpc]; rfl)
      rw [heq]
      exact of_busy h.lockInv (iff_of_false hmain (by simp [Pc.queued])) (by simp) (by simp)
        (by simp)
  | goOn hmove =>
      obtain ⟨lock, listening, ⟨haway, rfl⟩ | ⟨hoffers, _, rfl⟩ | ⟨hpc, rfl⟩, rfl⟩ := hmove
      · exact goOn h.lockInv (h.notMem_of_away haway)
      · exact goOn h.lockInv.tail (h.lockInv.notMem_tail hoffers)
      · exact goOn h.lockInv (h.notMem_of_queued (by rw [hpc]; rfl))
  | queue hmove =>
      obtain ⟨pc, haway, hpc, rfl⟩ := hmove
      have hmain := h.notMem_of_away haway
      obtain rfl | ⟨t, rfl, _⟩ := hpc
      · exact of_busy (h.lockInv.concat_main hmain) (iff_of_true (by simp) rfl) (by simp)
          (by simp) (by simp)
      · exact of_busy (h.lockInv.concat_main hmain) (iff_of_true (by simp) rfl) (by simp)
          (by simp) (by simp)
  | take hmove =>
      obtain ⟨hoffers, hpc, rfl⟩ | ⟨t, ⟨hoffers, _, rfl⟩ | ⟨hfree, _, rfl⟩⟩ := hmove
      · -- the wait begins: who was behind is ahead now
        refine ⟨h.lockInv.tail, iff_of_false (h.lockInv.notMem_tail hoffers) (by simp [Pc.queued]),
          fun _ => rfl, fun _ hstirred => ?_, fun h => absurd h (by simp)⟩
        obtain ⟨i, hi⟩ := h.behind hpc hstirred
        exact ⟨i, hi.ahead⟩
      · exact of_busy h.lockInv.tail
          (iff_of_false (h.lockInv.notMem_tail hoffers) (by simp [Pc.queued])) (by simp) (by simp)
          (by simp)
      · refine of_busy h.lockInv (iff_of_false ?_ (by simp [Pc.queued])) (by simp) (by simp)
          (by simp)
        rw [(Lock.eq_nil_of_free hfree).2]
        exact List.not_mem_nil
  | release hmove =>
      obtain ⟨hpc, rfl⟩ | ⟨hpc, rfl⟩ := hmove
      · have hmain : .main ∉ s.lock.queue := h.notMem_of_queued (by rw [hpc]; rfl)
        exact ⟨h.lockInv, iff_of_false hmain (by simp [Pc.queued]), fun h => absurd h (by simp),
          fun _ hstirred => h.awake (Or.inr hpc) hstirred, fun h => absurd h (by simp)⟩
      · have hmain : .main ∉ s.lock.queue := h.notMem_of_queued (by rw [hpc]; rfl)
        exact of_busy h.lockInv (iff_of_false hmain (by simp [Pc.queued])) (by simp) (by simp)
          (by simp)

/-- After a notification `execute_graph` does not wait. -/
theorem pc_notifyAll (s : OrcState) :
    s.notifyAll.pc ≠ .waiting ∧ s.notifyAll.pc.queued = s.pc.queued ∧
      (s.notifyAll.pc = .armed → s.pc = .armed) ∧
      (s.notifyAll.pc = .waitLock → s.pc = .waitLock) := by
  unfold OrcState.notifyAll
  split
  · rename_i hpc
    rw [hpc]
    simp [Pc.queued]
  · rename_i hpc
    exact ⟨hpc, rfl, id, id⟩

/-- Another handler changes its place: who was behind stays behind. -/
theorem behind_set {handlers : List HandlerPc} {queue queue' : List Task} {i j : Nat}
    {pc : HandlerPc} (h : Behind handlers queue j) (hne : i ≠ j)
    (hqueue : ∀ before after, queue = before ++ .main :: after → .handler j ∈ after →
      ∃ before' after', queue' = before' ++ .main :: after' ∧ .handler j ∈ after') :
    Behind (handlers.set i pc) queue' j := by
  unfold Behind
  rw [List.getElem?_set_ne hne]
  rcases h with h | ⟨h, before, after, heq, hmem⟩
  · exact Or.inl h
  · exact Or.inr ⟨h, hqueue before after heq hmem⟩

/-- A handler notifies on the spot. -/
theorem notifyNow {i : Nat} (h : WakeInv s) (hi : s.handlers[i]? = some .sync)
    (hfree : s.lock.free = true) :
    WakeInv { s.notifyAll with handlers := s.handlers.set i .done } := by
  obtain ⟨hwaiting, hqueued, harmed, hwaitLock⟩ := pc_notifyAll s
  obtain ⟨hlocked, hempty⟩ := Lock.eq_nil_of_free hfree
  refine of_busy ?_ ?_ hwaiting ?_ ?_
  · show LockInv s.notifyAll.lock.queue (s.handlers.set i .done)
    rw [OrcState.notifyAll_lock]
    exact h.lockInv.set (h.lockInv.notMem_of_sync hi) .done
  · show .main ∈ s.notifyAll.lock.queue ↔ s.notifyAll.pc.queued = true
    rw [OrcState.notifyAll_lock, hqueued]
    exact h.mainQueued
  · -- `execute_graph` does not hold the lock
    intro hpc
    have hheld := h.armedHolds (harmed hpc)
    rw [hlocked] at hheld
    exact absurd hheld (by decide)
  · -- nor does it stand in the queue
    intro hpc
    have hmem := h.mainQueued.mpr (by rw [hwaitLock hpc]; rfl)
    rw [hempty] at hmem
    exact absurd hmem List.not_mem_nil

/-- A handler joins the queue: behind `execute_graph`, if that stands there. -/
theorem joinQueue {i : Nat} (h : WakeInv s) (hi : s.handlers[i]? = some .sync) :
    WakeInv { s with
      lock := ⟨s.lock.locked, s.lock.queue ++ [.handler i]⟩
      handlers := s.handlers.set i .lock } := by
  obtain ⟨hlt, _⟩ := List.getElem?_eq_some_iff.mp hi
  have hself : (s.handlers.set i .lock)[i]? = some .lock := List.getElem?_set_self hlt
  refine ⟨h.lockInv.concat_handler hi, ?_, h.armedHolds, ?_, ?_⟩
  · show .main ∈ s.lock.queue ++ [.handler i] ↔ s.pc.queued = true
    rw [List.mem_append, h.mainQueued]
    simp
  · intro hpc hstirred
    obtain ⟨j, hj⟩ := h.awake hpc hstirred
    by_cases hij : i = j
    · exact ⟨i, Or.inr hself⟩
    · refine ⟨j, ?_⟩
      unfold Ahead
      rw [List.getElem?_set_ne hij]
      exact hj
  · intro hpc hstirred
    obtain ⟨j, hj⟩ := h.behind hpc hstirred
    by_cases hij : i = j
    · have hmain := h.mainQueued.mpr (by rw [show s.pc = .waitLock from hpc]; rfl)
      obtain ⟨before, after, heq⟩ := List.append_of_mem hmain
      refine ⟨i, Or.inr ⟨hself, before, after ++ [.handler i], ?_, by simp⟩⟩
      show s.lock.queue ++ [.handler i] = _
      rw [heq, List.append_assoc, List.cons_append]
    · refine ⟨j, behind_set hj hij fun before after heq hmem => ?_⟩
      refine ⟨before, after ++ [.handler i], ?_, List.mem_append_left _ hmem⟩
      rw [heq, List.append_assoc, List.cons_append]

/-- The turn of a handler in the queue has come. -/
theorem notifyLater {i : Nat} (h : WakeInv s) (hoffers : s.lock.offers (.handler i) = true) :
    WakeInv { s.popQueue.notifyAll with handlers := s.handlers.set i .done } := by
  obtain ⟨hwaiting, hqueued, harmed, hwaitLock⟩ := pc_notifyAll s.popQueue
  obtain ⟨hlocked, hqueue⟩ := Lock.eq_cons_of_offers hoffers
  have hnot : .handler i ∉ s.lock.queue.tail := h.lockInv.notMem_tail hoffers
  refine ⟨?_, ?_, ?_, ?_, ?_⟩
  · show LockInv s.popQueue.notifyAll.lock.queue (s.handlers.set i .done)
    rw [OrcState.notifyAll_lock]
    exact h.lockInv.tail.set hnot .done
  · show .main ∈ s.popQueue.notifyAll.lock.queue ↔ s.popQueue.notifyAll.pc.queued = true
    rw [OrcState.notifyAll_lock, hqueued]
    show .main ∈ s.lock.queue.tail ↔ s.pc.queued = true
    rw [← h.mainQueued, hqueue]
    simp
  · intro hpc
    have hheld := h.armedHolds (harmed hpc)
    rw [hlocked] at hheld
    exact absurd hheld (by decide)
  · intro hpc
    rcases hpc with hpc | hpc
    · exact absurd hpc hwaiting
    · have hheld := h.armedHolds (harmed hpc)
      rw [hlocked] at hheld
      exact absurd hheld (by decide)
  · intro hpc hstirred
    have hgraph : s.popQueue.notifyAll.graph = s.graph := OrcState.notifyAll_graph _
    obtain ⟨j, hj⟩ := h.behind (hwaitLock hpc) (hgraph ▸ hstirred)
    refine ⟨j, ?_⟩
    have hlock : s.popQueue.notifyAll.lock.queue = s.lock.queue.tail := by
      rw [OrcState.notifyAll_lock]
      rfl
    show Behind (s.handlers.set i .done) s.popQueue.notifyAll.lock.queue j
    rw [hlock]
    have hne : i ≠ j := by
      rintro rfl
      -- the handler at the head of the queue stands before `execute_graph`, not behind it
      rcases hj with hsync | ⟨_, before, after, heq, hmem⟩
      · exact h.lockInv.notMem_of_sync hsync (by rw [hqueue]; exact List.mem_cons_self)
      · cases before with
        | nil =>
            rw [hqueue] at heq
            exact absurd (List.cons.inj heq).1 (by simp)
        | cons first before =>
            rw [hqueue] at heq
            apply hnot
            rw [(List.cons.inj heq).2]
            exact List.mem_append_right _ (List.mem_cons_of_mem _ hmem)
    refine behind_set hj hne fun before after heq hmem => ?_
    cases before with
    | nil =>
        rw [hqueue] at heq
        exact absurd (List.cons.inj heq).1 (by simp)
    | cons first before =>
        refine ⟨before, after, ?_, hmem⟩
        rw [heq]
        rfl

/-- A step of a handler whose save does not raise preserves the invariant. -/
theorem handlerStep {i : Nat} (h : WakeInv s) (hstep : s.handlerStep i true = some s') :
    WakeInv s' := by
  cases OrcState.handlerStep_cases hstep with
  | raise _ hok _ => exact absurd hok (by decide)
  | notifyNow hi hfree heq =>
      rw [heq]
      exact h.notifyNow hi hfree
  | queue hi _ heq =>
      rw [heq]
      exact h.joinQueue hi
  | notifyLater _ hoffers heq =>
      rw [heq]
      exact h.notifyLater hoffers

/-- The arrival of an event preserves the invariant: whatever it does to the graph, its
handler has everything ahead of it. -/
theorem deliverStep {event : Json.Value} (h : WakeInv s)
    (hstep : s.deliverStep event = some s') : WakeInv s' := by
  obtain rfl | ⟨graph, _, rfl⟩ := OrcState.deliverStep_cases hstep
  · exact h
  · have hnew : (s.handlers ++ [.sync])[s.handlers.length]? = some .sync := by simp
    exact ⟨h.lockInv.append .sync, h.mainQueued, h.armedHolds,
      fun _ _ => ⟨_, Or.inl hnew⟩, fun _ _ => ⟨_, Or.inl hnew⟩⟩

/-- The end of the waiting time preserves the invariant. -/
theorem timeoutStep (h : WakeInv s) (hstep : s.timeoutStep = some s') : WakeInv s' := by
  obtain ⟨hpc, rfl⟩ | ⟨⟨t, hpc⟩, rfl⟩ := OrcState.timeoutStep_cases hstep
  · have hmain : .main ∉ s.lock.queue := by
      intro hmem
      have hqueued := h.mainQueued.mp hmem
      rcases hpc with hpc | ⟨t, hpc⟩
      · rw [hpc] at hqueued
        exact absurd hqueued (by decide)
      · rw [hpc] at hqueued
        exact absurd hqueued (by simp [Pc.queued])
    exact of_busy h.lockInv (iff_of_false hmain (by simp [Pc.queued])) (by simp) (by simp)
      (by simp)
  · have hmain : .main ∈ s.lock.queue := h.mainQueued.mpr (by rw [hpc]; rfl)
    exact of_busy h.lockInv (iff_of_true hmain rfl) (by simp) (by simp) (by simp)

/-- Every step preserves the invariant, as long as the saves of the handlers do not
raise. -/
theorem step {hasBus : Bool} {a : Action} (h : WakeInv s)
    (hsave : ∀ i, a ≠ .handler i false)
    (hstep : (orchestrator hasBus).step s a = some s') : WakeInv s' := by
  cases a with
  | main ok compiled => exact h.mainStep hstep
  | deliver event => exact h.deliverStep hstep
  | handler i ok =>
      cases ok with
      | true => exact h.handlerStep hstep
      | false => exact absurd rfl (hsave i)
  | timeout => exact h.timeoutStep hstep

end WakeInv

/-- **No wake-up is lost.**  In every run in which the saves of the handlers do not raise:
when `execute_graph` waits on the condition, not notified, although a node is ready, or
all are completed, or one has failed, then some handler still has its `notify_all` ahead
of it. -/
theorem no_lost_wakeup (hasBus : Bool) (graph : UCERGraph) (actions : List Action)
    (hsaves : ∀ i, .handler i false ∉ actions)
    (hwaiting : ((orchestrator hasBus).run { graph := graph } actions).pc = .waiting)
    (hstirred : OrcState.Stirred ((orchestrator hasBus).run { graph := graph } actions).graph) :
    ∃ i, Ahead ((orchestrator hasBus).run { graph := graph } actions).handlers i := by
  have hinv : WakeInv ((orchestrator hasBus).run { graph := graph } actions) := by
    refine System.run_invariant_of (fun s a s' h (hsave : ∀ i, a ≠ .handler i false) hstep =>
      h.step hsave hstep) (WakeInv.init graph) ?_
    intro a ha i heq
    exact hsaves i (heq ▸ ha)
  exact hinv.awake (Or.inl hwaiting) hstirred

/-- The only node is dispatched, `execute_graph` waits, and the event that completes the
node finds it there. -/
def wakeUp : List Action :=
  [.main true none, .main true (some "u"), .main true none, .main true none, .main true none,
    .deliver (.obj [("ucer_id", .str "u"), ("success", .bool true)])]

theorem wakeUp_ahead :
    let graph := ({} : UCERGraph).addNode { nodeId := "a", intent := "build" }
    ((orchestrator true).run { graph := graph } wakeUp).pc = .waiting ∧
      ((orchestrator true).run { graph := graph } wakeUp).graph.isComplete = true ∧
      ∃ i, Ahead ((orchestrator true).run { graph := graph } wakeUp).handlers i := by
  intro graph
  have hwaiting : ((orchestrator true).run { graph := graph } wakeUp).pc = .waiting := by decide
  have hcomplete : ((orchestrator true).run { graph := graph } wakeUp).graph.isComplete = true := by
    decide
  refine ⟨hwaiting, hcomplete,
    no_lost_wakeup true graph wakeUp ?_ hwaiting (Or.inr (Or.inl hcomplete))⟩
  intro i hmem
  simp [wakeUp] at hmem

end Ucser
