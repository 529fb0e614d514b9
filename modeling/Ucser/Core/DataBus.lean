import Ucser.Core.Worker
import Ucser.Lib.JsonLoads
import Ucser.Lib.Text

/-!
# The data bus: `core/databus.py`

An event is published as JSON text to a JetStream subject; a subscription hands the messages
one after the other to a callback, and answers them.  The stream may deliver a message again
until it is acknowledged, and does not deliver one that is.

* `encode`, `decode_encode` — the payload of an event, and what is read from it.
* `Attempt`, `listenOnce` — a round of the loop of `listen`.
* `BusState`, `dataBus` — the stream, the deliveries and the loop as a transition system.
* `Sound`, `sound_run` — **the invariant of every run.**
* `subscription_exact` — what a subscriber can rely on.
-/

namespace Ucser
namespace DataBus

open Json (Value)
open DistributedWorker (Reply)

/-- `json.dumps(data).encode('utf-8')`. -/
def encode (data : Value) : List UInt8 := Text.utf8 (Json.dumpsPlain data)

/-- `json.loads(msg.data.decode())`. -/
def decode (payload : List UInt8) : Option Value := (Text.utf8Decode payload).bind Json.loads

/-- **A payload is read back.** -/
theorem decode_encode {data : Value} (h : data.wellFormed = true) :
    decode (encode data) = some data := by
  rw [decode, encode, Text.utf8Decode_utf8, Option.bind_some, Json.loads_dumpsPlain h]

/-! ## A round of the loop -/

/-- What the calls that a round awaits come to. -/
structure Attempt where
  callback : Except PyError Unit
  ack : Except PyError Unit
  nak : Except PyError Unit

/-- What a round has done: the message, what the callback was called with, whether it has
returned, and the answer that was sent. -/
structure Round where
  message : Nat
  called : Option Value
  returned : Bool
  answer : Option Reply

/-- The inner `try`: the callback is awaited, and then the `ack`. -/
def tryHandle (payload : List UInt8) (attempt : Attempt) : Except PyError Unit :=
  match decode payload with
  | none => .error (.exception "JSONDecodeError")
  | some _ => do
      attempt.callback
      attempt.ack

/-- A round of `listen`, and whether the loop goes on.  An exception is answered by `nak`; where
that raises, or what is raised is no `Exception`, the loop ends. -/
def listenOnce (message : Nat) (payload : List UInt8) (attempt : Attempt) : Round × Bool :=
  let called := decode payload
  let returned := called.isSome && attempt.callback.isOk
  match tryHandle payload attempt with
  | .ok () => (⟨message, called, returned, some .ack⟩, true)
  | .error e =>
      if e.isException && attempt.nak.isOk then (⟨message, called, returned, some .nak⟩, true)
      else (⟨message, called, returned, none⟩, false)

/-- **A round answers, or ends the loop**; it acknowledges only after the callback. -/
theorem listenOnce_spec (message : Nat) (payload : List UInt8) (attempt : Attempt) :
    (listenOnce message payload attempt).1.message = message ∧
    (listenOnce message payload attempt).1.called = decode payload ∧
    ((listenOnce message payload attempt).1.answer = some .ack →
      (listenOnce message payload attempt).1.returned = true) ∧
    ((listenOnce message payload attempt).2 = true ↔
      (listenOnce message payload attempt).1.answer ≠ none) := by
  unfold listenOnce tryHandle
  cases hdecode : decode payload with
  | none => cases attempt.nak.isOk <;> simp [PyError.isException]
  | some data =>
      cases hcallback : attempt.callback with
      | error e =>
          cases hgoes : e.isException && attempt.nak.isOk <;>
            simp [bind, Except.bind, hgoes]
      | ok u =>
          cases hack : attempt.ack with
          | error e =>
              cases hgoes : e.isException && attempt.nak.isOk <;>
                simp [bind, Except.bind, hgoes]
          | ok u => simp [bind, Except.bind, Except.isOk, Except.toBool]

/-! ## The bus -/

/-- The stream of a subject and one subscription: the payloads, what has been delivered, what
of it has not been handled, what the loop has done, and whether it goes on. -/
structure BusState where
  stream : List (List UInt8) := []
  delivered : List Nat := []
  pending : List Nat := []
  rounds : List Round := []
  listening : Bool := true

/-- What may happen next. -/
inductive Action where
  /-- `publish_event`. -/
  | publish (data : Value)
  /-- The stream delivers a message, for the first time or again. -/
  | deliver (message : Nat)
  /-- The loop takes the next message. -/
  | handle (attempt : Attempt)

/-- A message has been acknowledged. -/
def BusState.acked (s : BusState) (message : Nat) : Bool :=
  s.rounds.any fun r => r.message = message && r.answer = some .ack

/-- A step of the bus. -/
def BusState.step (s : BusState) : Action → Option BusState
  | .publish data => some { s with stream := s.stream ++ [encode data] }
  | .deliver message =>
      if message < s.stream.length ∧ s.acked message = false then
        some { s with delivered := s.delivered ++ [message], pending := s.pending ++ [message] }
      else none
  | .handle attempt =>
      match s.listening, s.pending with
      | true, message :: rest =>
          let round := listenOnce message ((s.stream[message]?).getD []) attempt
          some { s with
            pending := rest, rounds := s.rounds ++ [round.1], listening := round.2 }
      | _, _ => none

/-- The stream and the subscription. -/
def dataBus : System BusState Action := ⟨BusState.step⟩

/-- The events that are published. -/
def Action.published : Action → List Value
  | .publish data => [data]
  | _ => []

/-- The invariant of a bus to which `events` have been published. -/
structure Sound (s : BusState) (events : List Value) : Prop where
  stream : s.stream = events.map encode
  order : s.delivered = s.rounds.map Round.message ++ s.pending
  known : ∀ i ∈ s.delivered, i < events.length
  called : ∀ r ∈ s.rounds, ∃ data, events[r.message]? = some data ∧ r.called = some data
  acked : ∀ r ∈ s.rounds, r.answer = some .ack → r.returned = true
  open_ : s.listening = true → ∀ r ∈ s.rounds, r.answer ≠ none
  closed : s.listening = false → ∃ before r, s.rounds = before ++ [r] ∧ r.answer = none ∧
    ∀ r ∈ before, r.answer ≠ none

variable {s s' : BusState} {events : List Value}

theorem Sound.publish (h : Sound s events) (data : Value) :
    Sound { s with stream := s.stream ++ [encode data] } (events ++ [data]) where
  stream := by simp [h.stream]
  order := h.order
  known := fun i hi => by
    have hlt := h.known i hi
    rw [List.length_append]
    omega
  called := fun r hr => by
    obtain ⟨value, hvalue, hcalled⟩ := h.called r hr
    have hlt : r.message < events.length := (List.getElem?_eq_some_iff.mp hvalue).1
    exact ⟨value, by rw [List.getElem?_append_left hlt, hvalue], hcalled⟩
  acked := h.acked
  open_ := h.open_
  closed := h.closed

theorem Sound.handle (hformed : ∀ data ∈ events, data.wellFormed = true) (h : Sound s events)
    (hopen : s.listening = true) {message : Nat} {rest : List Nat}
    (hpending : s.pending = message :: rest) (attempt : Attempt) :
    Sound { s with
      pending := rest
      rounds := s.rounds ++ [(listenOnce message ((s.stream[message]?).getD []) attempt).1]
      listening := (listenOnce message ((s.stream[message]?).getD []) attempt).2 } events := by
  have hlt : message < events.length := by
    apply h.known
    rw [h.order, hpending]
    simp
  have hpayload : (s.stream[message]?).getD [] = encode events[message] := by
    rw [h.stream]
    simp [hlt]
  obtain ⟨hmessage, hcalled, hacked, hgoes⟩ :=
    listenOnce_spec message ((s.stream[message]?).getD []) attempt
  constructor
  · exact h.stream
  · rw [h.order, hpending, List.map_append, List.map_singleton, hmessage, List.append_assoc]
    rfl
  · exact h.known
  · refine List.forall_mem_append.mpr ⟨h.called, List.forall_mem_singleton.mpr ?_⟩
    refine ⟨events[message], ?_, ?_⟩
    · rw [hmessage, List.getElem?_eq_getElem hlt]
    · rw [hcalled, hpayload, decode_encode (hformed _ (List.getElem_mem hlt))]
  · exact List.forall_mem_append.mpr ⟨h.acked, List.forall_mem_singleton.mpr hacked⟩
  · intro hgo
    exact List.forall_mem_append.mpr
      ⟨h.open_ hopen, List.forall_mem_singleton.mpr (hgoes.mp hgo)⟩
  · intro hstop
    refine ⟨_, _, rfl, ?_, h.open_ hopen⟩
    by_contra hanswer
    rw [hgoes.mpr hanswer] at hstop
    cases hstop

/-- **A step keeps the invariant.** -/
theorem Sound.step {a : Action} (hformed : ∀ data ∈ events, data.wellFormed = true)
    (h : Sound s events) (hstep : dataBus.step s a = some s') :
    Sound s' (events ++ a.published) := by
  cases a with
  | publish data =>
      obtain rfl := Option.some.inj hstep
      exact h.publish data
  | deliver message =>
      simp only [dataBus, BusState.step] at hstep
      split_ifs at hstep with hguard
      obtain rfl := Option.some.inj hstep
      have hlt : message < events.length := by simpa [h.stream] using hguard.1
      rw [Action.published, List.append_nil]
      · exact { h with
          order := by rw [h.order, List.append_assoc]
          known := List.forall_mem_append.mpr ⟨h.known, List.forall_mem_singleton.mpr hlt⟩ }
      · intro data hdata
        cases hdata
  | handle attempt =>
      simp only [dataBus, BusState.step] at hstep
      split at hstep
      · rename_i message rest hopen hpending
        obtain rfl := Option.some.inj hstep
        rw [Action.published, List.append_nil]
        · exact h.handle hformed hopen hpending attempt
        · intro data hdata
          cases hdata
      · cases hstep

theorem published_of_none {a : Action} (h : dataBus.step s a = none) : a.published = [] := by
  cases a with
  | publish data => cases h
  | deliver message => rfl
  | handle attempt => rfl

/-- **Every run keeps it.**  By induction from its end. -/
theorem sound_run (actions : List Action)
    (hformed : ∀ data ∈ actions.flatMap Action.published, data.wellFormed = true) :
    Sound (dataBus.run {} actions) (actions.flatMap Action.published) := by
  induction actions using List.reverseRecOn with
  | nil =>
      exact {
        stream := rfl
        order := rfl
        known := List.forall_mem_nil _
        called := List.forall_mem_nil _
        acked := List.forall_mem_nil _
        open_ := fun _ => List.forall_mem_nil _
        closed := fun h => by cases h }
  | append_singleton actions a ih =>
      rw [List.flatMap_append, List.flatMap_singleton] at hformed ⊢
      obtain ⟨hbefore, _⟩ := List.forall_mem_append.mp hformed
      rw [System.run_concat]
      cases hstep : dataBus.step (dataBus.run {} actions) a with
      | none =>
          rw [System.exec_of_none hstep, published_of_none hstep, List.append_nil]
          exact ih hbefore
      | some s' =>
          rw [System.exec_of_step hstep]
          exact (ih hbefore).step hbefore hstep

/-! ## What is settled -/

/-- The message is acknowledged, and no delivery of it waits. -/
def BusState.Settled (s : BusState) (message : Nat) : Prop :=
  s.acked message = true ∧ message ∉ s.pending

/-- What the loop has done with a message. -/
def BusState.roundsOf (s : BusState) (message : Nat) : List Round :=
  s.rounds.filter fun r => r.message = message

theorem Settled.step {message : Nat} {a : Action} (h : s.Settled message)
    (hstep : dataBus.step s a = some s') :
    s'.Settled message ∧ s'.roundsOf message = s.roundsOf message := by
  obtain ⟨hacked, hpending⟩ := h
  cases a with
  | publish data =>
      obtain rfl := Option.some.inj hstep
      exact ⟨⟨hacked, hpending⟩, rfl⟩
  | deliver message' =>
      simp only [dataBus, BusState.step] at hstep
      split_ifs at hstep with hguard
      obtain rfl := Option.some.inj hstep
      have hne : message ≠ message' := by
        rintro rfl
        rw [hacked] at hguard
        cases hguard.2
      exact ⟨⟨hacked, by simp [hpending, hne]⟩, rfl⟩
  | handle attempt =>
      simp only [dataBus, BusState.step] at hstep
      split at hstep
      · rename_i message' rest _ hqueue
        obtain rfl := Option.some.inj hstep
        rw [hqueue, List.mem_cons, not_or] at hpending
        have hmessage := (listenOnce_spec message' ((s.stream[message']?).getD []) attempt).1
        refine ⟨⟨?_, hpending.2⟩, ?_⟩
        · rw [BusState.acked, List.any_append]
          exact Bool.or_eq_true_iff.mpr (Or.inl hacked)
        · rw [BusState.roundsOf, List.filter_append, List.filter_singleton]
          simp [BusState.roundsOf, hmessage, Ne.symm hpending.1]
      · cases hstep

/-- **What is settled stays settled**, in every run. -/
theorem Settled.run {message : Nat} (h : s.Settled message) (actions : List Action) :
    (dataBus.run s actions).Settled message ∧
      (dataBus.run s actions).roundsOf message = s.roundsOf message := by
  refine System.run_invariant (I := fun t : BusState => t.Settled message ∧
    t.roundsOf message = s.roundsOf message) ?_ ⟨h, rfl⟩ actions
  rintro t a t' ⟨hsettled, hrounds⟩ hstep
  obtain ⟨hsettled', hrounds'⟩ := Settled.step hsettled hstep
  exact ⟨hsettled', hrounds'.trans hrounds⟩

/-- **What a subscriber can rely on.**  In every run the callback is called with what was
published, in the order of delivery and once for each; an acknowledged message is one the
callback has returned on; the loop goes on exactly while every message it took is answered; and
a message that is acknowledged with no delivery waiting is never handled again. -/
theorem subscription_exact (actions : List Action)
    (hformed : ∀ data ∈ actions.flatMap Action.published, data.wellFormed = true) :
    (dataBus.run {} actions).delivered =
      (dataBus.run {} actions).rounds.map Round.message ++ (dataBus.run {} actions).pending ∧
    (∀ r ∈ (dataBus.run {} actions).rounds,
      ∃ data, (actions.flatMap Action.published)[r.message]? = some data ∧ r.called = some data) ∧
    (∀ r ∈ (dataBus.run {} actions).rounds, r.answer = some .ack → r.returned = true) ∧
    ((dataBus.run {} actions).listening = true ↔
      ∀ r ∈ (dataBus.run {} actions).rounds, r.answer ≠ none) ∧
    ∀ message more, (dataBus.run {} actions).Settled message →
      (dataBus.run {} (actions ++ more)).roundsOf message =
        (dataBus.run {} actions).roundsOf message := by
  have hsound := sound_run actions hformed
  refine ⟨hsound.order, hsound.called, hsound.acked, ⟨hsound.open_, fun hall => ?_⟩,
    fun message more hsettled => ?_⟩
  · by_contra hclosed
    obtain ⟨before, r, hrounds, hnone, -⟩ := hsound.closed (Bool.eq_false_iff.mpr hclosed)
    exact hall r (by rw [hrounds]; simp) hnone
  · rw [System.run_append]
    exact (Settled.run hsettled more).2

/-- One event whose callback fails, and is called again. -/
def someEvents : List Action :=
  [.publish (.obj [("job", .str "a")]), .deliver 0,
    .handle ⟨.error (.exception "ValueError"), .ok (), .ok ()⟩, .deliver 0,
    .handle ⟨.ok (), .ok (), .ok ()⟩]

theorem subscription_someEvents :
    (dataBus.run {} someEvents).delivered =
      (dataBus.run {} someEvents).rounds.map Round.message ++
        (dataBus.run {} someEvents).pending ∧
    (∀ r ∈ (dataBus.run {} someEvents).rounds,
      ∃ data, (someEvents.flatMap Action.published)[r.message]? = some data ∧
        r.called = some data) ∧
    (∀ r ∈ (dataBus.run {} someEvents).rounds, r.answer = some .ack → r.returned = true) ∧
    ((dataBus.run {} someEvents).listening = true ↔
      ∀ r ∈ (dataBus.run {} someEvents).rounds, r.answer ≠ none) ∧
    ∀ message more, (dataBus.run {} someEvents).Settled message →
      (dataBus.run {} (someEvents ++ more)).roundsOf message =
        (dataBus.run {} someEvents).roundsOf message :=
  subscription_exact someEvents (List.forall_mem_singleton.mpr rfl)

end DataBus
end Ucser
