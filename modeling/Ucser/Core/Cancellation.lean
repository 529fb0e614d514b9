import Ucser.Core.Coherence
import Ucser.Core.Gates
import Ucser.Core.Telemetry

/-!
# A task that is cancelled

The `finally` of `PersistenceMiddleware` saves the record however the rest of the pipeline
ends.  An `except Exception` before it writes the status `failed`, and a cancellation passes by
that one.

* `settle_status_iff` — **what the `finally` saves**, whatever the rest of the pipeline is.
* `Engine.Succeeds`, `Engine.Cancels`, `Engine.CancelledFrom` — what the outside does to the
  steps, by their places in the record.
* `cancelled_iff` — **which loops are cancelled**, read off the answers of the outside.
* `neverLeftRunning_iff` — **which calls leave no record running**.
-/

namespace Ucser

/-! ## What is saved last -/

/-- The status of a record that is not under way. -/
def Status.Final (status : Status) : Prop := status = .completed ∨ status = .failed

namespace PersistenceMiddleware

variable {world : World} {context : ExecutionContext} {run : Run}

/-- The record is settled unless the rest of the pipeline has raised what is no `Exception`
and has left it under way. -/
theorem settle_status_iff (outcome : Run × Except PyError Unit) :
    (settle outcome).1.ucer.status.Final ↔
      ∀ e, outcome.2 = .error e → e.isException = false → outcome.1.ucer.status.Final := by
  rcases outcome with ⟨run', e | _⟩
  · cases he : e.isException with
    | true =>
        refine iff_of_true ?_ ?_
        · simp [settle, he, Run.setStatus, Status.Final]
        · intro e' he' hnot
          obtain rfl := Except.error.inj he'
          simp [he] at hnot
    | false => simp [settle, he]
  · refine iff_of_true ?_ (by simp)
    unfold settle
    dsimp only [Run.setStatus]
    split_ifs
    · exact Or.inl rfl
    · exact Or.inr rfl

/-- When every save is stored, the record saved last is the settled one. -/
theorem getLast?_saved (hstored : ∀ n, world.saveUcer n = .stored) (next : PipelineHandler) :
    (process world next context run).1.saved.getLast? =
      some (settle (next context (started run))).1.ucer := by
  rw [process_of_stored hstored]
  exact List.getLast?_concat

end PersistenceMiddleware

/-! ## The steps and the answers of the outside -/

namespace Engine

section Answers

variable (auditors : Auditors) (world : World) (isolation : Isolation)
  (context : ExecutionContext)

/-- As the step at place `n`, the step succeeds: nobody cancels the task, the gate admits the
command, and the adapter answers with exit code zero and nothing that alarms the sentinel. -/
def Succeeds (n : Nat) (step : ExecutionStep) : Prop :=
  world.interrupted n = none ∧
    Unified.Admits auditors context (adapterName isolation step) step.command ∧
    ∃ result, world.run n (adapterName isolation step) step.command context = .ok result ∧
      inspectTrace getAuditLog (traceOf (adapterName isolation step) step result) context = true ∧
      (traceOf (adapterName isolation step) step result).exitCode = 0

/-- As the step at place `n`, the step is cancelled: the task is, while it awaits the thread, or
the adapter raises what is no `Exception`. -/
def Cancels (n : Nat) (step : ExecutionStep) : Prop :=
  world.interrupted n ≠ none ∨
    Unified.Admits auditors context (adapterName isolation step) step.command ∧
      ∃ e, world.run n (adapterName isolation step) step.command context = .error e ∧
        e.isException = false

/-- One of the steps is cancelled, those before it having succeeded; the first stands at place
`n` of the record. -/
def CancelledFrom : Nat → List ExecutionStep → Prop
  | _, [] => False
  | n, step :: steps =>
      Cancels auditors world isolation context n step ∨
        Succeeds auditors world isolation context n step ∧ CancelledFrom (n + 1) steps

end Answers

variable {auditors : Auditors} {world : World} {isolation : Isolation}
  {context : ExecutionContext} {step : ExecutionStep} {steps : List ExecutionStep} {run : Run}
  {n : Nat}

theorem Succeeds.not_cancels (h : Succeeds auditors world isolation context n step) :
    ¬ Cancels auditors world isolation context n step := by
  obtain ⟨hthread, _, result, hresult, _⟩ := h
  rintro (hcancelled | ⟨_, e, he, _⟩)
  · exact hcancelled hthread
  · rw [hresult] at he
    exact absurd he (by simp)

/-- The state in which the step at place `n` is taken up, if all before it have succeeded. -/
def AtPlace (n : Nat) (run : Run) : Prop := run.awaits = n ∧ run.invocations.length = n

/-- **What a step comes to**, by the answers of the outside at its place. -/
theorem outcomeOf_atPlace (step : ExecutionStep) (h : AtPlace n run) :
    (outcomeOf auditors world isolation context step run = .success ↔
        Succeeds auditors world isolation context n step) ∧
      (outcomeOf auditors world isolation context step run = .cancelled ↔
        Cancels auditors world isolation context n step) := by
  obtain ⟨hawaits, hlength⟩ := h
  unfold outcomeOf awaitExecute
  rw [hawaits]
  cases hthread : world.interrupted n with
  | some ran => cases ran <;> simp [Succeeds, Cancels, hthread, PyError.isException]
  | none =>
      by_cases hadmits : Unified.Admits auditors context (adapterName isolation step) step.command
      · have hexecute := Unified.execute_of_admits world { run with awaits := n + 1 } hadmits
        simp only [hlength] at hexecute
        simp only [hexecute]
        cases hresult : world.run n (adapterName isolation step) step.command context with
        | error e =>
            cases he : e.isException <;>
              simp [Succeeds, Cancels, hthread, hresult, hadmits, he]
        | ok result =>
            by_cases hinspect : inspectTrace getAuditLog
                (traceOf (adapterName isolation step) step result) context = true
            · by_cases hexit : (traceOf (adapterName isolation step) step result).exitCode = 0
              · simp [Succeeds, Cancels, hthread, hresult, hadmits, hinspect, hexit]
              · simp [Succeeds, Cancels, hthread, hresult, hadmits, hinspect, hexit]
            · simp [Succeeds, Cancels, hthread, hresult, hadmits, hinspect]
      · obtain ⟨e, he, hexecute⟩ :=
          Unified.execute_of_not_admits world { run with awaits := n + 1 } hadmits
        simp [hexecute, he, Succeeds, Cancels, hthread, hadmits]

/-- After a round that succeeds the next place has been reached. -/
theorem atPlace_execStep (h : AtPlace n run)
    (hsucceeds : outcomeOf auditors world isolation context step run = .success) :
    AtPlace (n + 1) (execStep auditors world isolation context step run).1 := by
  obtain ⟨hawaits, hlength⟩ := h
  rw [outcomeOf_eq] at hsucceeds
  cases execStep_round auditors world isolation context step run with
  | success result _ _ _ heq =>
      rw [heq]
      exact ⟨by simp [advance, hawaits], by simp [advance, hlength]⟩
  | exitCode result _ _ _ heq =>
      rw [heq] at hsucceeds
      exact absurd hsucceeds (by simp)
  | raised handed e _ he heq =>
      rw [heq] at hsucceeds
      simp [he] at hsucceeds
  | cancelled handed e _ he _ heq =>
      rw [heq] at hsucceeds
      simp [he] at hsucceeds

/-- **Which loops are cancelled.**  By induction on the steps. -/
theorem cancelled_iff (h : AtPlace n run) :
    Cancelled auditors world isolation context steps run ↔
      CancelledFrom auditors world isolation context n steps := by
  induction steps generalizing n run with
  | nil => exact Iff.rfl
  | cons step steps ih =>
      obtain ⟨hsuccess, hcancelled⟩ := outcomeOf_atPlace step h
      unfold Cancelled CancelledFrom
      cases houtcome : outcomeOf auditors world isolation context step run with
      | success =>
          have hsucceeds := hsuccess.mp houtcome
          dsimp only
          rw [ih (atPlace_execStep h houtcome)]
          simp [hsucceeds, hsucceeds.not_cancels]
      | exitCode =>
          rw [houtcome] at hsuccess hcancelled
          simp [← hsuccess, ← hcancelled]
      | exception =>
          rw [houtcome] at hsuccess hcancelled
          simp [← hsuccess, ← hcancelled]
      | cancelled =>
          simp [hcancelled.mp houtcome]

/-- Where a loop is cancelled, a step is. -/
theorem CancelledFrom.exists_cancels
    (h : CancelledFrom auditors world isolation context n steps) :
    ∃ k step, steps[k]? = some step ∧
      Cancels auditors world isolation context (n + k) step := by
  induction steps generalizing n with
  | nil => exact h.elim
  | cons step steps ih =>
      obtain hcancels | ⟨_, hrest⟩ := h
      · exact ⟨0, step, rfl, hcancels⟩
      · obtain ⟨k, last, hlast, hcancels⟩ := ih hrest
        refine ⟨k + 1, last, hlast, ?_⟩
        rwa [show n + (k + 1) = n + 1 + k by omega]

end Engine

/-! ## Who is left running -/

/-- When every save is stored, the record saved last is settled exactly when no step of the
engine is cancelled. -/
theorem persistence_settled_iff {auditors : Auditors} {world : World}
    {context : ExecutionContext} {run : Run} (hstored : ∀ n, world.saveUcer n = .stored)
    (hplace : Engine.AtPlace 0 run) :
    (∀ last ∈ (PersistenceMiddleware.process world (Engine.process auditors world) context
        run).1.saved.getLast?, last.status.Final) ↔
      ¬ Engine.CancelledFrom auditors world (negotiateIsolation run.ucer) context 0
        run.ucer.steps := by
  have hcases := Engine.cancelled_cases auditors world (negotiateIsolation run.ucer) context
    run.ucer.steps (PersistenceMiddleware.started run)
  rw [Engine.cancelled_iff (show Engine.AtPlace 0 (PersistenceMiddleware.started run) from
    hplace)] at hcases
  simp only [PersistenceMiddleware.getLast?_saved hstored, Option.mem_some_iff, forall_eq']
  rw [PersistenceMiddleware.settle_status_iff]
  obtain ⟨hcancelled, ⟨e, herror, he⟩, hstatus⟩ | ⟨hnot, hexception⟩ := hcases
  · refine iff_of_false (fun hfinal => ?_) (not_not.mpr hcancelled)
    have hrunning := hfinal e herror he
    have hsame : (Engine.process auditors world context
        (PersistenceMiddleware.started run)).1.ucer.status = .running := hstatus
    rw [hsame] at hrunning
    exact absurd hrunning (by simp [Status.Final])
  · refine iff_of_true (fun e herror he => ?_) hnot
    rw [hexception e herror] at he
    exact absurd he (by simp)

namespace Facade

variable {facade : Facade} {world : World} {ucer : UCER} {context : Option ExecutionContext}
  {allowedCaps : Option (Finset Capability)}

/-- The record saved last, if one is saved, is completed or failed. -/
def NeverLeftRunning (facade : Facade) (world : World) (ucer : UCER)
    (context : Option ExecutionContext) (allowedCaps : Option (Finset Capability)) : Prop :=
  ∀ last ∈ (executeUcer facade world ucer context allowedCaps).1.saved.getLast?,
    last.status.Final

/-- **Which calls leave no record running.**  If every save is stored, the record saved last is
completed or failed if and only if the record is refused or no step that the loop reaches is
cancelled. -/
theorem neverLeftRunning_iff (facade : Facade) (world : World) (ucer : UCER)
    (context : Option ExecutionContext) (allowedCaps : Option (Finset Capability))
    (hstored : ∀ n, world.saveUcer n = .stored) :
    NeverLeftRunning facade world ucer context allowedCaps ↔
      (world.readPubKey = none → Accepts facade ucer (activeCapabilities context allowedCaps) →
        ¬ Engine.CancelledFrom facade.auditors world (isolationOf facade ucer)
          (activeContext world context allowedCaps) 0 ucer.steps) := by
  by_cases hlet : world.readPubKey = none ∧
      Accepts facade ucer (activeCapabilities context allowedCaps)
  · obtain ⟨hkey, haccepts⟩ := hlet
    have hsteps : (gated facade world ucer).steps = ucer.steps :=
      (admitted_fields facade world ucer).1
    rw [NeverLeftRunning, executeUcer_of_accepts hkey haccepts, execution,
      persistence_settled_iff hstored ⟨rfl, rfl⟩, ← hsteps]
    exact ⟨fun h _ _ => h, fun h => h hkey haccepts⟩
  · refine iff_of_true ?_ (fun hkey haccepts => absurd ⟨hkey, haccepts⟩ hlet)
    obtain ⟨ucer', e, herror⟩ := executeUcer_of_refused hlet
    intro last hlast
    rw [herror] at hlast
    exact absurd hlast (by simp)

/-- The calm world, but that the task is cancelled while the step at place `n` runs. -/
def cancelledAt (n : Nat) : World :=
  { Engine.calm with interrupted := fun k => if k = n then some true else none }

/-- The task is cancelled while a greeting runs: the record is saved as running. -/
theorem cancelled_left_running :
    ¬ ((∀ n, (cancelledAt 0).saveUcer n = .stored) →
      NeverLeftRunning plainFacade (cancelledAt 0) (echoRecord {.exec}) (some execContext)
        none) := by
  intro hnever
  have hsettled := hnever (fun _ => rfl)
  rw [NeverLeftRunning, executeUcer_of_accepts rfl (accepts_echoRecord _), execution,
    persistence_settled_iff (fun _ => rfl) ⟨rfl, rfl⟩] at hsettled
  refine hsettled (Or.inl (Or.inl ?_))
  simp [cancelledAt]

/-- The greeting is not cancelled by a cancellation that comes later. -/
theorem not_cancelledFrom_echoRecord {isolation : Isolation} {context : ExecutionContext} :
    ¬ Engine.CancelledFrom plainAuditors (cancelledAt 1) isolation context 0
      (echoRecord {.exec}).steps := by
  intro hcancelled
  obtain ⟨k, step, hstep, hcancels⟩ := hcancelled.exists_cancels
  obtain ⟨hlt, _⟩ := List.getElem?_eq_some_iff.mp hstep
  obtain rfl : k = 0 := Nat.lt_one_iff.mp hlt
  obtain hthread | ⟨_, e, hraised, _⟩ := hcancels
  · exact hthread rfl
  · exact absurd hraised (by simp [cancelledAt, Engine.calm])

/-- A cancellation that comes after the greeting finds the record completed. -/
theorem late_cancellation_settled :
    NeverLeftRunning plainFacade (cancelledAt 1) (echoRecord {.exec}) (some execContext) none := by
  have hstored : ∀ n, (cancelledAt 1).saveUcer n = .stored := fun _ => rfl
  rw [neverLeftRunning_iff plainFacade (cancelledAt 1) (echoRecord {.exec}) (some execContext)
    none hstored]
  intro _ _
  exact not_cancelledFrom_echoRecord

end Facade
end Ucser
