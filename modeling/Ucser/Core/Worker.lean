import Mathlib.Data.Finset.Card
import Ucser.Core.Scheduler
import Ucser.Lib.Transition

/-!
# Workers: `DistributedWorker` in `core/scheduler.py`

A worker takes one message after the other, decodes it, hands it to a callback and answers
it.  Every worker subscribes with a durable consumer of its own, and the stream keeps
delivering a message to a consumer until that consumer acknowledges it.

* `DistributedWorker.handle`, `DistributedWorker.start` — one round of the loop, and the loop.
* `allAnswered_iff` — **when every message is answered**: decoding and logging stand outside
  the inner `try`, so a message that fails there ends the loop without an answer.
* `QueueState`, `jobQueue` — the stream, its consumers and the workers as a transition system.
* `ConsumerInv` — the invariant of a job that always succeeds: each worker tries it once.
* `oneExecution_iff` — **a job is executed once exactly when there is one worker.**
-/

namespace Ucser
namespace DistributedWorker

/-! ## The loop of one worker -/

/-- The answer to a message. -/
inductive Reply where
  | ack
  | nak
  deriving DecidableEq, Repr

/-- A message as it is delivered, and what the callback comes to when it is handed it. -/
structure Delivery where
  data : List UInt8
  callback : Except PyError Unit

variable (decode : List UInt8 → Option Json.Value)

/-- `data['ucer']['command_id']`, which is logged. -/
def loggedId (data : Json.Value) : Except PyError Json.Value := do
  let ucer ← getItem data "ucer"
  getItem ucer "command_id"

/-- One round of the loop, from `json.loads(msg.data.decode())` on: the answer, or what escapes
the inner `try`. -/
def handle (delivery : Delivery) : Except PyError Reply :=
  match decode delivery.data with
  | none => .error (.exception "JSONDecodeError")
  | some data => do
      let _ ← loggedId data
      match delivery.callback with
      | .ok () => return .ack
      | .error e => if e.isException then return .nak else .error e

/-- What a call of `start` has done: the answers to each message, and whether the loop goes on. -/
structure Outcome where
  answers : List (List Reply)
  alive : Bool
  deriving DecidableEq

/-- `start` on the messages in the order of their delivery.  Whatever escapes a round ends the
loop, and the messages behind it are not even taken. -/
def start : List Delivery → Outcome
  | [] => ⟨[], true⟩
  | delivery :: rest =>
      match handle decode delivery with
      | .ok reply => { start rest with answers := [reply] :: (start rest).answers }
      | .error _ => ⟨[] :: rest.map (fun _ => []), false⟩

/-- The message can be decoded, and has a record with an identifier. -/
def Readable (data : List UInt8) : Prop :=
  ∃ value id, decode data = some value ∧ loggedId value = .ok id

/-- The answer a message is due: `ack` when the callback returned, `nak` for anything else. -/
def Due (delivery : Delivery) (reply : Reply) : Prop :=
  (Readable decode delivery.data ∧ delivery.callback = .ok () ∧ reply = .ack) ∨
    (¬ (Readable decode delivery.data ∧ delivery.callback = .ok ()) ∧ reply = .nak)

/-- Every message is answered once, with the answer it is due, and the loop goes on. -/
def AllAnswered (deliveries : List Delivery) : Prop :=
  (start decode deliveries).alive = true ∧
    List.Forall₂ (fun delivery answers => ∃ reply, answers = [reply] ∧ Due decode delivery reply)
      deliveries (start decode deliveries).answers

variable {decode}

theorem handle_of_not_readable {delivery : Delivery} (h : ¬ Readable decode delivery.data) :
    ∃ e, handle decode delivery = .error e := by
  unfold handle
  cases hdata : decode delivery.data with
  | none => exact ⟨_, rfl⟩
  | some value =>
      cases hid : loggedId value with
      | error e => exact ⟨e, by simp [hid, bind, Except.bind]⟩
      | ok id => exact absurd ⟨value, id, hdata, hid⟩ h

/-- A message that can be read is answered by what the callback comes to. -/
theorem handle_of_readable {delivery : Delivery} (h : Readable decode delivery.data) :
    handle decode delivery =
      match delivery.callback with
      | .ok () => .ok .ack
      | .error e => if e.isException then .ok .nak else .error e := by
  obtain ⟨value, id, hdata, hid⟩ := h
  simp [handle, hdata, hid, bind, Except.bind]
  rfl

/-- The condition on a message: it can be read, and its callback is not cancelled. -/
def Fine (decode : List UInt8 → Option Json.Value) (delivery : Delivery) : Prop :=
  Readable decode delivery.data ∧ delivery.callback ≠ .error .cancelledError

/-- A round answers the message, as is due, or ends the loop. -/
theorem handle_cases (delivery : Delivery) :
    (Fine decode delivery ∧ ∃ reply, handle decode delivery = .ok reply ∧
        Due decode delivery reply) ∨
      (¬ Fine decode delivery ∧ ∃ e, handle decode delivery = .error e) := by
  by_cases hreadable : Readable decode delivery.data
  · rw [handle_of_readable hreadable]
    cases hcallback : delivery.callback with
    | ok u =>
        refine Or.inl ⟨⟨hreadable, by rw [hcallback]; simp⟩, .ack, rfl, ?_⟩
        exact Or.inl ⟨hreadable, hcallback, rfl⟩
    | error e =>
        by_cases he : e = .cancelledError
        · subst he
          exact Or.inr ⟨fun h => h.2 hcallback, _, rfl⟩
        · have hexception : e.isException = true := by cases e <;> simp_all [PyError.isException]
          refine Or.inl ⟨⟨hreadable, by rw [hcallback]; simpa using he⟩, .nak, ?_, ?_⟩
          · simp [hexception]
          · exact Or.inr ⟨fun h => by simp [hcallback] at h, rfl⟩
  · exact Or.inr ⟨fun h => hreadable h.1, handle_of_not_readable hreadable⟩

/-- **When every message is answered.**  The loop answers all messages and goes on exactly
when every one can be decoded and has a `command_id` in its record (and no callback is
cancelled). -/
theorem allAnswered_iff (decode : List UInt8 → Option Json.Value) (deliveries : List Delivery) :
    AllAnswered decode deliveries ↔ ∀ delivery ∈ deliveries, Fine decode delivery := by
  induction deliveries with
  | nil => simp [AllAnswered, start]
  | cons delivery rest ih =>
      rw [List.forall_mem_cons, ← ih]
      obtain ⟨hfine, reply, hreply, hdue⟩ | ⟨hnot, e, he⟩ := @handle_cases decode delivery
      · simp only [AllAnswered, start, hreply, List.forall₂_cons, hfine, true_and]
        constructor
        · rintro ⟨halive, _, hrest⟩
          exact ⟨halive, hrest⟩
        · rintro ⟨halive, hrest⟩
          exact ⟨halive, ⟨reply, rfl, hdue⟩, hrest⟩
      · refine iff_of_false ?_ fun h => hnot h.1
        rintro ⟨halive, _⟩
        simp [start, he] at halive

/-- A message that is no JSON. -/
def poisoned : Delivery := ⟨Text.utf8 (String.ofList ['o', 'o', 'p', 's']), .ok ()⟩

/-- It ends the loop without an answer. -/
theorem poisoned_not_answered : ¬ AllAnswered decodeMessage [poisoned] := by
  have hnone : decodeMessage poisoned.data = none := by
    rw [decodeMessage, poisoned, Text.utf8Decode_utf8, Option.bind_some, Json.loads,
      String.toList_ofList]
    rfl
  rintro ⟨halive, _⟩
  simp [start, handle, hnone] at halive

end DistributedWorker

/-! ## The queue -/

/-- The name of the durable consumer of a worker. -/
def durableOf (workerId : String) : String := "worker-" ++ workerId

theorem durableOf_injective : Function.Injective durableOf := by
  intro v w h
  have hlist := congrArg String.toList h
  simp only [durableOf, String.toList_append] at hlist
  exact String.toList_injective (List.append_cancel_left hlist)

/-- The tokens of a subject. -/
def tokens (subject : String) : List (List Char) := subject.toList.splitOn '.'

/-- Does a filter match a subject, token by token?  `*` stands for any one token. -/
def filterMatches : List (List Char) → List (List Char) → Bool
  | [], [] => true
  | token :: filter, token' :: subject =>
      ((token = ['*'] && token' ≠ []) || token = token') && filterMatches filter subject
  | _, _ => false

/-- The filter of the stream and of every consumer. -/
def jobFilter : String := "ucser.jobs.*"

/-- The stream, its consumers and the workers. -/
structure QueueState where
  /-- The subjects of the messages, oldest first. -/
  stream : List String := []
  /-- The durable consumers and the messages they have acknowledged. -/
  acked : List (String × Nat) := []
  /-- The message a worker is handling. -/
  busy : String → Option Nat := fun _ => none
  /-- The calls of the callbacks, in order: which worker, which message. -/
  executions : List (String × Nat) := []

/-- What happens next. -/
inductive QueueAction where
  /-- `submit_job` publishes a job; without a matching stream it raises. -/
  | submit (commandId : String)
  /-- A worker that waits in `next_msg` gets a message, and calls its callback. -/
  | deliver (workerId : String) (seq : Nat)
  /-- The callback ends, and the worker answers the message. -/
  | finish (workerId : String)

/-- How the callback fares: for a worker, a message, and how often this worker has tried it. -/
abbrev Callback : Type := String → Nat → Nat → Bool

/-- The queue with a set of workers.  A consumer is not handed a message again while its worker
is busy with it: the callback ends before the `ack_wait` of the consumer does. -/
def jobQueue (workers : Finset String) (callback : Callback) : System QueueState QueueAction where
  step s action :=
    match action with
    | .submit commandId =>
        if filterMatches (tokens jobFilter) (tokens ("ucser.jobs." ++ commandId)) then
          some { s with stream := s.stream ++ ["ucser.jobs." ++ commandId] }
        else none
    | .deliver w seq =>
        match s.stream[seq]? with
        | some subject =>
            if w ∈ workers ∧ s.busy w = none ∧ (durableOf w, seq) ∉ s.acked ∧
                filterMatches (tokens jobFilter) (tokens subject) = true then
              some { s with
                busy := Function.update s.busy w (some seq)
                executions := s.executions ++ [(w, seq)] }
            else none
        | none => none
    | .finish w =>
        match s.busy w with
        | some seq =>
            some { s with
              busy := Function.update s.busy w none
              acked := if callback w seq (s.executions.count (w, seq)) then
                s.acked ++ [(durableOf w, seq)] else s.acked }
        | none => none

/-- The callback succeeds whenever it is tried on the message. -/
def Reliable (callback : Callback) (seq : Nat) : Prop := ∀ w n, callback w seq n = true

/-- No consumer is owed the message any more. -/
def AcknowledgedByAll (workers : Finset String) (s : QueueState) (seq : Nat) : Prop :=
  ∀ w ∈ workers, (durableOf w, seq) ∈ s.acked

/-- How often a message has been handed to a callback. -/
def QueueState.timesExecuted (s : QueueState) (seq : Nat) : Nat :=
  s.executions.countP (fun execution => execution.2 = seq)

/-- One execution per job: a job that always succeeds is executed at most once at any moment
of a run, and exactly once when no consumer is owed it any more. -/
def OneExecution (workers : Finset String) (callback : Callback) (actions : List QueueAction) :
    Prop :=
  let s := (jobQueue workers callback).run {} actions
  ∀ seq < s.stream.length, Reliable callback seq →
    s.timesExecuted seq ≤ 1 ∧ (AcknowledgedByAll workers s seq → s.timesExecuted seq = 1)

/-- The invariant of a job that always succeeds. -/
structure ConsumerInv (workers : Finset String) (seq : Nat) (s : QueueState) : Prop where
  member : ∀ w, (w, seq) ∈ s.executions → w ∈ workers
  once : ∀ w, s.executions.count (w, seq) ≤ 1
  handled : ∀ w, (w, seq) ∈ s.executions → s.busy w = some seq ∨ (durableOf w, seq) ∈ s.acked
  started : ∀ w, s.busy w = some seq → (w, seq) ∈ s.executions
  acknowledged : ∀ w, (durableOf w, seq) ∈ s.acked → (w, seq) ∈ s.executions

namespace ConsumerInv

variable {workers : Finset String} {callback : Callback} {seq : Nat} {s s' : QueueState}

theorem init (workers : Finset String) (seq : Nat) : ConsumerInv workers seq {} where
  member := by simp
  once := by simp
  handled := by simp
  started := by simp
  acknowledged := by simp

/-- A worker that is idle and is owed the message has not executed it. -/
theorem notMem_executions (h : ConsumerInv workers seq s) {w : String} (hidle : s.busy w = none)
    (howed : (durableOf w, seq) ∉ s.acked) : (w, seq) ∉ s.executions := by
  intro hmem
  rcases h.handled w hmem with hbusy | hacked
  · rw [hidle] at hbusy
    exact absurd hbusy (by simp)
  · exact howed hacked

/-- A worker is handed some message. -/
theorem deliver (h : ConsumerInv workers seq s) {w : String} {q : Nat} (hw : w ∈ workers)
    (hidle : s.busy w = none) (howed : (durableOf w, q) ∉ s.acked) :
    ConsumerInv workers seq { s with
      busy := Function.update s.busy w (some q), executions := s.executions ++ [(w, q)] } := by
  have hmem : ∀ v, (v, seq) ∈ s.executions ++ [(w, q)] ↔
      (v, seq) ∈ s.executions ∨ v = w ∧ seq = q := by
    intro v
    rw [List.mem_append, List.mem_singleton, Prod.mk.injEq]
  constructor
  · intro v hv
    rcases (hmem v).mp hv with hv | ⟨rfl, _⟩
    · exact h.member v hv
    · exact hw
  · intro v
    rw [List.count_append, List.count_singleton]
    by_cases heq : (w, q) = (v, seq)
    · -- the first delivery of the message to this worker
      obtain ⟨rfl, rfl⟩ := Prod.mk.inj heq
      rw [List.count_eq_zero_of_not_mem (h.notMem_executions hidle howed)]
      simp
    · have hone := h.once v
      rw [if_neg (by simpa using heq)]
      omega
  · intro v hv
    rcases (hmem v).mp hv with hv | ⟨rfl, rfl⟩
    · refine (h.handled v hv).imp_left fun hbusy => ?_
      have hvw : v ≠ w := by
        rintro rfl
        rw [hidle] at hbusy
        exact absurd hbusy (by simp)
      dsimp only
      rw [Function.update_of_ne hvw]
      exact hbusy
    · exact Or.inl (Function.update_self _ _ _)
  · intro v hv
    dsimp only at hv
    apply (hmem v).mpr
    by_cases hvw : v = w
    · subst hvw
      rw [Function.update_self, Option.some.injEq] at hv
      exact Or.inr ⟨rfl, hv.symm⟩
    · rw [Function.update_of_ne hvw] at hv
      exact Or.inl (h.started v hv)
  · intro v hv
    exact (hmem v).mpr (Or.inl (h.acknowledged v hv))

/-- A worker is done with some message. -/
theorem finish (h : ConsumerInv workers seq s) {w : String} {q : Nat} (hbusy : s.busy w = some q)
    {acked : List (String × Nat)} (hsub : s.acked ⊆ acked)
    (hnew : ∀ durable, (durable, seq) ∈ acked →
      (durable, seq) ∈ s.acked ∨ durable = durableOf w ∧ q = seq)
    (hdone : q = seq → (durableOf w, seq) ∈ acked) :
    ConsumerInv workers seq
      { s with busy := Function.update s.busy w none, acked := acked } := by
  refine ⟨h.member, h.once, ?_, ?_, ?_⟩
  · intro v hv
    dsimp only
    by_cases hvw : v = w
    · subst hvw
      rcases h.handled v hv with hsome | hacked
      · rw [hbusy, Option.some.injEq] at hsome
        exact Or.inr (hdone hsome)
      · exact Or.inr (hsub hacked)
    · rw [Function.update_of_ne hvw]
      exact (h.handled v hv).imp_right fun hacked => hsub hacked
  · intro v hv
    dsimp only at hv
    by_cases hvw : v = w
    · rw [hvw, Function.update_self] at hv
      exact absurd hv (by simp)
    · rw [Function.update_of_ne hvw] at hv
      exact h.started v hv
  · intro v hv
    rcases hnew _ hv with hacked | ⟨hdurable, hq⟩
    · exact h.acknowledged v hacked
    · rw [durableOf_injective hdurable]
      exact h.started w (hq ▸ hbusy)

/-- Every step preserves the invariant. -/
theorem step (hreliable : Reliable callback seq) (h : ConsumerInv workers seq s)
    {action : QueueAction} (hstep : (jobQueue workers callback).step s action = some s') :
    ConsumerInv workers seq s' := by
  cases action with
  | submit commandId =>
      obtain ⟨_, heq⟩ := Option.ite_none_right_eq_some.mp hstep
      rw [← Option.some.inj heq]
      exact ⟨h.member, h.once, h.handled, h.started, h.acknowledged⟩
  | deliver w q =>
      dsimp only [jobQueue] at hstep
      cases hsubject : s.stream[q]? with
      | none =>
          rw [hsubject] at hstep
          exact absurd hstep (by simp)
      | some subject =>
          rw [hsubject] at hstep
          obtain ⟨⟨hw, hidle, howed, _⟩, heq⟩ := Option.ite_none_right_eq_some.mp hstep
          rw [← Option.some.inj heq]
          exact h.deliver hw hidle howed
  | finish w =>
      dsimp only [jobQueue] at hstep
      cases hbusy : s.busy w with
      | none =>
          rw [hbusy] at hstep
          exact absurd hstep (by simp)
      | some q =>
          rw [hbusy] at hstep
          rw [← Option.some.inj hstep]
          refine h.finish hbusy ?_ ?_ ?_
          · split_ifs
            · exact List.subset_append_left _ _
            · exact List.Subset.refl _
          · intro durable hmem
            split_ifs at hmem
            · rcases List.mem_append.mp hmem with hmem | hmem
              · exact Or.inl hmem
              · obtain ⟨hdurable, hq⟩ := Prod.mk.inj (List.mem_singleton.mp hmem)
                exact Or.inr ⟨hdurable, hq.symm⟩
            · exact Or.inl hmem
          · rintro rfl
            rw [if_pos (hreliable w _)]
            exact List.mem_append_right _ List.mem_cons_self

/-- The invariant holds after every run. -/
theorem run (workers : Finset String) (hreliable : Reliable callback seq)
    (actions : List QueueAction) :
    ConsumerInv workers seq ((jobQueue workers callback).run {} actions) :=
  System.run_invariant (fun _ _ _ h hstep => h.step hreliable hstep) (init workers seq) actions

/-- With one worker, a message is executed as often as this worker executes it. -/
theorem timesExecuted_singleton {w : String} (h : ConsumerInv {w} seq s) :
    s.timesExecuted seq = s.executions.count (w, seq) := by
  unfold QueueState.timesExecuted List.count
  refine List.countP_congr fun execution hmem => ?_
  obtain ⟨v, q⟩ := execution
  simp only [decide_eq_true_eq, beq_iff_eq, Prod.mk.injEq]
  constructor
  · rintro rfl
    exact ⟨Finset.mem_singleton.mp (h.member v hmem), rfl⟩
  · exact fun heq => heq.2

end ConsumerInv

/-- One worker alone executes every job once. -/
theorem oneExecution_singleton (w : String) (callback : Callback) (actions : List QueueAction) :
    OneExecution {w} callback actions := by
  intro seq _ hreliable
  have h := ConsumerInv.run {w} hreliable actions
  rw [h.timesExecuted_singleton]
  refine ⟨h.once w, fun hsettled => ?_⟩
  have hmem := h.acknowledged w (hsettled w (Finset.mem_singleton_self w))
  have hpos := List.count_pos_iff.mpr hmem
  have hone := h.once w
  exact le_antisymm hone hpos

/-- A job is submitted and delivered to two workers. -/
def deliveredTwice (v w : String) : List QueueAction := [.submit "j", .deliver v 0, .deliver w 0]

/-- Two workers execute it twice. -/
theorem not_oneExecution_of_two {workers : Finset String} {v w : String} (hv : v ∈ workers)
    (hw : w ∈ workers) (hne : w ≠ v) :
    ¬ OneExecution workers (fun _ _ _ => true) (deliveredTwice v w) := by
  intro h
  have hsubmit : (jobQueue workers fun _ _ _ => true).exec {} (.submit "j") =
      { stream := ["ucser.jobs.j"] } := by
    rw [System.exec, jobQueue]
    dsimp only
    rw [if_pos (by decide)]
    rfl
  have hmatch : filterMatches (tokens jobFilter) (tokens "ucser.jobs.j") = true := by decide
  have hrun : (jobQueue workers fun _ _ _ => true).run {} (deliveredTwice v w) =
      { stream := ["ucser.jobs.j"],
        busy := Function.update (Function.update (fun _ => none) v (some 0)) w (some 0),
        executions := [(v, 0), (w, 0)] } := by
    rw [deliveredTwice, System.run_cons, hsubmit]
    simp [System.run, System.exec, jobQueue, hmatch, hv, hw, hne]
  unfold OneExecution at h
  rw [hrun] at h
  obtain ⟨hle, _⟩ := h 0 (by simp) (fun _ _ => rfl)
  simp [QueueState.timesExecuted] at hle

/-- **A job is executed once exactly when there is one worker.**  Every worker has a durable
consumer of its own, so each executes every job. -/
theorem oneExecution_iff (workers : Finset String) :
    (∀ callback actions, OneExecution workers callback actions) ↔ workers.card = 1 := by
  constructor
  · intro h
    by_contra hcard
    rcases Nat.lt_or_ge 1 workers.card with hmany | hfew
    · obtain ⟨v, hv, w, hw, hne⟩ := Finset.one_lt_card.mp hmany
      exact not_oneExecution_of_two hv hw hne.symm (h _ _)
    · -- without a worker the job is owed to nobody and executed by nobody
      have hempty : workers = ∅ := Finset.card_eq_zero.mp (by omega)
      subst hempty
      obtain ⟨_, hexact⟩ := h (fun _ _ _ => true) [.submit "j"] 0 (by decide) (fun _ _ => rfl)
      exact absurd (hexact (by simp [AcknowledgedByAll])) (by decide)
  · intro hcard callback actions
    obtain ⟨w, rfl⟩ := Finset.card_eq_one.mp hcard
    exact oneExecution_singleton w callback actions

/-- Two workers, a job whose callback always succeeds: both execute it. -/
theorem two_workers_execute_twice :
    ¬ OneExecution {"a", "b"} (fun _ _ _ => true) (deliveredTwice "a" "b") :=
  not_oneExecution_of_two (by decide) (by decide) (by decide)

end Ucser
