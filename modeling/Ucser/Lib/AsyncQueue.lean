import Mathlib.Data.List.Nodup

/-!
# A queue that tasks share: `asyncio.Queue` without a bound

A `get` on an empty queue waits for a future; a `put` completes the future that has waited
longest.  The task that waited goes on later, and another one may have taken the item by then,
so it looks again.  A task that is cancelled while its future is done passes the call on.

* `AsyncQueue`, `Call`, `step` — the queue, and what tasks do with it.
* `step_items` — **nothing is lost, doubled or reordered**: a step takes from the front what it
  hands out, and adds behind what is put.
* `Alert`, `step_alert` — **no call is lost**: while tasks wait, there are as many on their way
  as there are items.
-/

namespace Ucser

/-- The items, and the tasks in a call of `get`: those that wait, longest first, and those whose
future is done. -/
structure AsyncQueue (κ ε : Type) where
  items : List ε := []
  getters : List κ := []
  woken : List κ := []

namespace AsyncQueue

variable {κ ε : Type}

/-- What a task does. -/
inductive Call (κ ε : Type) where
  /-- `put`. -/
  | put (item : ε)
  /-- The task enters `get`. -/
  | get (task : κ)
  /-- The task goes on after its future is done. -/
  | resume (task : κ)
  /-- The task is cancelled in `get`. -/
  | cancel (task : κ)

/-- `_wakeup_next(self._getters)`. -/
def wakeupNext (q : AsyncQueue κ ε) : AsyncQueue κ ε :=
  match q.getters with
  | [] => q
  | task :: rest => { q with getters := rest, woken := q.woken ++ [task] }

/-- The body of `get`: the first item is handed out, or the task waits. -/
def fetch (q : AsyncQueue κ ε) (task : κ) : AsyncQueue κ ε × Option (κ × ε) :=
  match q.items with
  | [] => ({ q with getters := q.getters ++ [task] }, none)
  | item :: rest => ({ q with items := rest }, some (task, item))

variable [DecidableEq κ]

/-- A step: the queue afterwards, and what is handed out to whom.  A task is in `get` once. -/
def step (q : AsyncQueue κ ε) : Call κ ε → Option (AsyncQueue κ ε × Option (κ × ε))
  | .put item => some (wakeupNext { q with items := q.items ++ [item] }, none)
  | .get task => if task ∈ q.getters ++ q.woken then none else some (q.fetch task)
  | .resume task =>
      if task ∈ q.woken then some (fetch { q with woken := q.woken.erase task } task) else none
  | .cancel task =>
      if task ∈ q.getters then some ({ q with getters := q.getters.erase task }, none)
      else if task ∈ q.woken then
        let left := { q with woken := q.woken.erase task }
        some (if q.items = [] then left else left.wakeupNext, none)
      else none

/-- What a call puts into the queue. -/
def Call.added : Call κ ε → List ε
  | .put item => [item]
  | _ => []

/-- While tasks wait, there are as many on their way as there are items. -/
def Alert (q : AsyncQueue κ ε) : Prop := q.getters ≠ [] → q.items.length ≤ q.woken.length

variable {q q' : AsyncQueue κ ε} {call : Call κ ε} {out : Option (κ × ε)} {task : κ}

omit [DecidableEq κ] in
@[simp] theorem wakeupNext_items (q : AsyncQueue κ ε) : q.wakeupNext.items = q.items := by
  unfold wakeupNext
  split
  · rfl
  · rfl

omit [DecidableEq κ] in
theorem fetch_items (q : AsyncQueue κ ε) (task : κ) :
    q.items = (q.fetch task).2.toList.map Prod.snd ++ (q.fetch task).1.items := by
  unfold fetch
  split
  · rfl
  · rename_i item rest hitems
    exact hitems

/-- **Nothing is lost, doubled or reordered.** -/
theorem step_items (h : q.step call = some (q', out)) :
    q.items ++ call.added = out.toList.map Prod.snd ++ q'.items := by
  cases call with
  | put item =>
      obtain ⟨rfl, rfl⟩ := Prod.mk.inj (Option.some.inj h)
      rw [wakeupNext_items]
      rfl
  | get task =>
      rw [step] at h
      split_ifs at h
      have hfetch := q.fetch_items task
      rw [Option.some.inj h] at hfetch
      exact (List.append_nil _).trans hfetch
  | resume task =>
      rw [step] at h
      split_ifs at h
      have hfetch := fetch_items { q with woken := q.woken.erase task } task
      rw [Option.some.inj h] at hfetch
      exact (List.append_nil _).trans hfetch
  | cancel task =>
      rw [step] at h
      split_ifs at h with hwaits hwoken hitems
      · obtain ⟨rfl, rfl⟩ := Prod.mk.inj (Option.some.inj h)
        exact List.append_nil _
      · obtain ⟨rfl, rfl⟩ := Prod.mk.inj (Option.some.inj h)
        exact List.append_nil _
      · obtain ⟨rfl, rfl⟩ := Prod.mk.inj (Option.some.inj h)
        rw [wakeupNext_items]
        exact List.append_nil _

omit [DecidableEq κ] in
/-- A call to the next that waits makes up for one item, or nobody waits any more. -/
theorem alert_wakeupNext (h : q.getters ≠ [] → q.items.length ≤ q.woken.length + 1) :
    q.wakeupNext.Alert := by
  unfold wakeupNext
  split
  · rename_i hgetters
    exact fun hne => absurd hgetters hne
  · rename_i first rest hgetters
    intro _
    have hle := h (by rw [hgetters]; exact List.cons_ne_nil _ _)
    simpa using hle

omit [DecidableEq κ] in
/-- A task that looks needs one call less. -/
theorem alert_fetch (h : q.getters ≠ [] → q.items.length ≤ q.woken.length + 1) :
    (q.fetch task).1.Alert := by
  unfold fetch
  split
  · rename_i hitems
    intro _
    simp [hitems]
  · rename_i item rest hitems
    intro hgetters
    have hle := h hgetters
    rw [hitems] at hle
    simpa using hle

/-- **No call is lost.** -/
theorem step_alert (halert : q.Alert) (h : q.step call = some (q', out)) : q'.Alert := by
  have hloose : ∀ task ∈ q.woken, q.getters ≠ [] →
      q.items.length ≤ (q.woken.erase task).length + 1 := by
    intro task htask hgetters
    have hle := halert hgetters
    rw [List.length_erase_of_mem htask]
    omega
  cases call with
  | put item =>
      obtain ⟨rfl, _⟩ := Prod.mk.inj (Option.some.inj h)
      refine alert_wakeupNext fun hgetters => ?_
      have hle := halert hgetters
      simpa using hle
  | get task =>
      rw [step] at h
      split_ifs at h
      have hfetch : (q.fetch task).1.Alert := alert_fetch fun hne => Nat.le_succ_of_le (halert hne)
      rwa [Option.some.inj h] at hfetch
  | resume task =>
      rw [step] at h
      split_ifs at h with hwoken
      have hfetch : (fetch { q with woken := q.woken.erase task } task).1.Alert :=
        alert_fetch (hloose task hwoken)
      rwa [Option.some.inj h] at hfetch
  | cancel task =>
      rw [step] at h
      split_ifs at h with hwaits hwoken hitems
      · obtain ⟨rfl, _⟩ := Prod.mk.inj (Option.some.inj h)
        exact fun _ => halert (List.ne_nil_of_mem hwaits)
      · obtain ⟨rfl, _⟩ := Prod.mk.inj (Option.some.inj h)
        intro _
        simp [hitems]
      · obtain ⟨rfl, _⟩ := Prod.mk.inj (Option.some.inj h)
        exact alert_wakeupNext (hloose task hwoken)

omit [DecidableEq κ] in
/-- While there are items and a task waits, another is about to take one. -/
theorem Alert.exists_woken (h : q.Alert) (hitems : q.items ≠ []) (hgetters : q.getters ≠ []) :
    q.woken ≠ [] := by
  intro hwoken
  have hle := h hgetters
  rw [hwoken] at hle
  exact hitems (List.length_eq_zero_iff.mp (Nat.le_zero.mp hle))

omit [DecidableEq κ] in
/-- A call moves a task, and adds none. -/
theorem mem_tasks_wakeupNext {k : κ} :
    k ∈ q.wakeupNext.getters ++ q.wakeupNext.woken ↔ k ∈ q.getters ++ q.woken := by
  unfold wakeupNext
  split
  · exact Iff.rfl
  · rename_i first rest hgetters
    simp only [hgetters, List.mem_append, List.mem_cons]
    tauto

omit [DecidableEq κ] in
theorem mem_tasks_of_fetch {k : κ} (h : k ∈ (q.fetch task).1.getters ++ (q.fetch task).1.woken) :
    k ∈ q.getters ++ q.woken ∨ k = task := by
  unfold fetch at h
  split at h
  · simp only [List.mem_append, List.mem_singleton] at h ⊢
    tauto
  · exact Or.inl h

/-- A task is in `get` after a step only if it was, or enters it. -/
theorem mem_tasks_of_step {k : κ} (h : q.step call = some (q', out))
    (hk : k ∈ q'.getters ++ q'.woken) : k ∈ q.getters ++ q.woken ∨ call = .get k := by
  have herase : ∀ task : κ, k ∈ q.getters ++ q.woken.erase task → k ∈ q.getters ++ q.woken :=
    fun task hmem => (List.mem_append.mp hmem).elim (List.mem_append_left _)
      fun hwoken => List.mem_append_right _ (List.mem_of_mem_erase hwoken)
  cases call with
  | put item =>
      obtain ⟨rfl, _⟩ := Prod.mk.inj (Option.some.inj h)
      have hmem := mem_tasks_wakeupNext.mp hk
      exact Or.inl hmem
  | get task =>
      rw [step] at h
      split_ifs at h
      have hfst : (q.fetch task).1 = q' := congrArg Prod.fst (Option.some.inj h)
      rw [← hfst] at hk
      exact (mem_tasks_of_fetch hk).imp_right fun heq => congrArg Call.get heq.symm
  | resume task =>
      rw [step] at h
      split_ifs at h with hwoken
      have hfst : (fetch { q with woken := q.woken.erase task } task).1 = q' :=
        congrArg Prod.fst (Option.some.inj h)
      rw [← hfst] at hk
      rcases mem_tasks_of_fetch hk with hmem | rfl
      · exact Or.inl (herase task hmem)
      · exact Or.inl (List.mem_append_right _ hwoken)
  | cancel task =>
      rw [step] at h
      split_ifs at h
      · obtain ⟨rfl, _⟩ := Prod.mk.inj (Option.some.inj h)
        exact Or.inl ((List.mem_append.mp hk).elim
          (fun hgetters => List.mem_append_left _ (List.mem_of_mem_erase hgetters))
          (List.mem_append_right _))
      · obtain ⟨rfl, _⟩ := Prod.mk.inj (Option.some.inj h)
        exact Or.inl (herase task hk)
      · obtain ⟨rfl, _⟩ := Prod.mk.inj (Option.some.inj h)
        exact Or.inl (herase task (mem_tasks_wakeupNext.mp hk))

theorem mem_woken_of_resume (h : q.step (.resume task) = some (q', out)) : task ∈ q.woken := by
  rw [step] at h
  split_ifs at h with hwoken
  exact hwoken

omit [DecidableEq κ] in
theorem task_of_fetch {item : ε} {task' : κ} (h : (q.fetch task).2 = some (task', item)) :
    task' = task := by
  unfold fetch at h
  split at h
  · cases h
  · exact (Prod.mk.inj (Option.some.inj h)).1.symm

/-- What is handed out goes to a task that asks for it. -/
theorem asks_of_step {item : ε} (h : q.step call = some (q', some (task, item))) :
    call = .get task ∨ call = .resume task := by
  cases call with
  | put item => cases h
  | get task' =>
      rw [step] at h
      split_ifs at h
      have heq : task = task' := task_of_fetch (congrArg Prod.snd (Option.some.inj h))
      exact Or.inl (congrArg Call.get heq.symm)
  | resume task' =>
      rw [step] at h
      split_ifs at h
      have heq : task = task' := task_of_fetch (congrArg Prod.snd (Option.some.inj h))
      exact Or.inr (congrArg Call.resume heq.symm)
  | cancel task' =>
      rw [step] at h
      split_ifs at h
      · cases (Prod.mk.inj (Option.some.inj h)).2
      · cases (Prod.mk.inj (Option.some.inj h)).2
      · cases (Prod.mk.inj (Option.some.inj h)).2

end AsyncQueue
end Ucser
