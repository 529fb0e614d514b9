import Ucser.Core.Trust

/-!
# The record after a run

Three places write the status of a record around a loop with four exits.  Whatever the
adapters answer and the sentinel says, the record and its traces tell which exit was
taken.

* `LoopExit`, `runSteps_exit` — **the four exits of the loop**, with the traces and the
  commands handed over up to each.
* `ReturnedAfter`, `RaisedAt` — the record of a run that returned after some number of
  steps, and of one that raised at a step.
* `persistence_coherent` — **every run leaves one or the other**, and saves it last.
-/

namespace Ucser
namespace Engine

/-! ## The exits of the loop -/

/-- The command of a step as it is handed over. -/
def invocationOf (isolation : Isolation) (context : ExecutionContext) (step : ExecutionStep) :
    Invocation :=
  ⟨adapterName isolation step, step.command, context⟩

/-- The trace of a step that an adapter has answered. -/
def Answered (world : World) (isolation : Isolation) (context : ExecutionContext)
    (step : ExecutionStep) (trace : ExecutionTrace) : Prop :=
  ∃ n result, world.run n (adapterName isolation step) step.command context = .ok result ∧
    trace = traceOf (adapterName isolation step) step result

/-- The steps, each answered with exit code zero. -/
def CleanRun (world : World) (isolation : Isolation) (context : ExecutionContext)
    (steps : List ExecutionStep) (traces : List ExecutionTrace) : Prop :=
  List.Forall₂ (fun step trace =>
    Answered world isolation context step trace ∧ trace.exitCode = 0) steps traces

/-- The ways in which the loop can end. -/
inductive LoopExit (auditors : Auditors) (world : World) (isolation : Isolation)
    (context : ExecutionContext) (steps : List ExecutionStep) (run : Run)
    (outcome : Run × Except PyError Unit) : Prop where
  /-- All steps have exited with code zero. -/
  | finished (traces : List ExecutionTrace)
      (hclean : CleanRun world isolation context steps traces)
      (hstatus : outcome.1.ucer.status = run.ucer.status)
      (htraces : outcome.1.ucer.traces = run.ucer.traces ++ traces)
      (hhanded : outcome.1.invocations =
        run.invocations ++ steps.map (invocationOf isolation context))
      (hresult : outcome.2 = .ok ())
  /-- A step has exited with another code. -/
  | exitCode (before after : List ExecutionStep) (step : ExecutionStep)
      (traces : List ExecutionTrace) (trace : ExecutionTrace)
      (hsteps : steps = before ++ step :: after)
      (hclean : CleanRun world isolation context before traces)
      (htrace : Answered world isolation context step trace) (hexit : trace.exitCode ≠ 0)
      (hstatus : outcome.1.ucer.status = .failed)
      (htraces : outcome.1.ucer.traces = run.ucer.traces ++ (traces ++ [trace]))
      (hhanded : outcome.1.invocations =
        run.invocations ++ (before ++ [step]).map (invocationOf isolation context))
      (hresult : outcome.2 = .ok ())
  /-- A step has raised an exception. -/
  | raised (before after : List ExecutionStep) (step : ExecutionStep)
      (traces : List ExecutionTrace) (handed : List Invocation) (e : PyError)
      (hsteps : steps = before ++ step :: after)
      (hclean : CleanRun world isolation context before traces)
      (hover : Unified.HandsOver auditors context (adapterName isolation step) step.command
        handed)
      (he : e.isException = true)
      (hstatus : outcome.1.ucer.status = .failed)
      (htraces : outcome.1.ucer.traces = run.ucer.traces ++ traces)
      (hhanded : outcome.1.invocations =
        run.invocations ++ (before.map (invocationOf isolation context) ++ handed))
      (hresult : outcome.2 = .error e)
  /-- The task has been cancelled, or an adapter has raised what is no `Exception`. -/
  | cancelled (e : PyError) (he : e.isException = false)
      (hwhy : (∃ n, world.interrupted n ≠ none) ∨
        ∃ n adapter command, world.run n adapter command context = .error e)
      (hresult : outcome.2 = .error e)

variable {auditors : Auditors} {world : World} {isolation : Isolation}
  {context : ExecutionContext} {step : ExecutionStep} {steps : List ExecutionStep} {run run' : Run}
  {outcome : Run × Except PyError Unit}

/-- A step that exits with code zero before the loop goes on. -/
theorem LoopExit.cons {trace : ExecutionTrace}
    (h : LoopExit auditors world isolation context steps run' outcome)
    (htrace : Answered world isolation context step trace) (hexit : trace.exitCode = 0)
    (hstatus' : run'.ucer.status = run.ucer.status)
    (htraces' : run'.ucer.traces = run.ucer.traces ++ [trace])
    (hhanded' : run'.invocations = run.invocations ++ [invocationOf isolation context step]) :
    LoopExit auditors world isolation context (step :: steps) run outcome := by
  cases h with
  | finished traces hclean hstatus htraces hhanded hresult =>
      refine .finished (trace :: traces) (.cons ⟨htrace, hexit⟩ hclean) (hstatus.trans hstatus')
        ?_ ?_ hresult
      · simp [htraces, htraces']
      · simp [hhanded, hhanded']
  | exitCode before after last traces lastTrace hsteps hclean hlast hexit' hstatus htraces hhanded
      hresult =>
      refine .exitCode (step :: before) after last (trace :: traces) lastTrace (by simp [hsteps])
        (.cons ⟨htrace, hexit⟩ hclean) hlast hexit' hstatus ?_ ?_ hresult
      · simp [htraces, htraces']
      · simp [hhanded, hhanded']
  | raised before after last traces handed e hsteps hclean hover he hstatus htraces hhanded
      hresult =>
      refine .raised (step :: before) after last (trace :: traces) handed e (by simp [hsteps])
        (.cons ⟨htrace, hexit⟩ hclean) hover he hstatus ?_ ?_ hresult
      · simp [htraces, htraces']
      · simp [hhanded, hhanded']
  | cancelled e he hwhy hresult => exact .cancelled e he hwhy hresult

/-- **The loop ends in one of the four ways.**  By induction on the steps. -/
theorem runSteps_exit (auditors : Auditors) (world : World) (isolation : Isolation)
    (context : ExecutionContext) (steps : List ExecutionStep) (run : Run) :
    LoopExit auditors world isolation context steps run
      (runSteps auditors world isolation context steps run) := by
  induction steps generalizing run with
  | nil => exact .finished [] .nil rfl (by simp [runSteps]) (by simp [runSteps]) rfl
  | cons step steps ih =>
      rw [runSteps]
      cases execStep_round auditors world isolation context step run with
      | success result hadmits hresult hexit heq =>
          rw [heq]
          exact (ih _).cons ⟨_, result, hresult, rfl⟩ hexit rfl rfl rfl
      | exitCode result hadmits hresult hexit heq =>
          rw [heq]
          exact .exitCode [] steps step [] _ rfl .nil ⟨_, result, hresult, rfl⟩ hexit rfl rfl rfl
            rfl
      | raised handed e hover he heq =>
          rw [heq]
          exact .raised [] steps step [] handed e rfl .nil hover he rfl (by simp [advance]) rfl rfl
      | cancelled handed e hover he hwhy heq =>
          rw [heq]
          exact .cancelled e he (hwhy.imp (fun h => ⟨_, h⟩) (fun h => ⟨_, _, _, h⟩)) rfl

/-! ## Traces and steps -/

/-- The traces carry the identifiers and the commands of the steps, one for one. -/
def Traced (steps : List ExecutionStep) (traces : List ExecutionTrace) : Prop :=
  traces.map (fun trace => (trace.stepId, trace.command)) =
    steps.map (fun step => (step.stepId, step.command))

theorem Answered.ids {trace : ExecutionTrace} (h : Answered world isolation context step trace) :
    (trace.stepId, trace.command) = (step.stepId, step.command) := by
  obtain ⟨_, _, _, rfl⟩ := h
  rfl

theorem CleanRun.traced {traces : List ExecutionTrace}
    (h : CleanRun world isolation context steps traces) : Traced steps traces := by
  induction h with
  | nil => rfl
  | cons hhead _ ih =>
      unfold Traced at ih ⊢
      simp [hhead.1.ids, ih]

theorem CleanRun.exitCode {traces : List ExecutionTrace}
    (h : CleanRun world isolation context steps traces) : ∀ trace ∈ traces, trace.exitCode = 0 := by
  induction h with
  | nil => simp
  | cons hhead _ ih => simpa using ⟨hhead.2, ih⟩

theorem Traced.concat {traces : List ExecutionTrace} {trace : ExecutionTrace}
    (h : Traced steps traces) (htrace : Answered world isolation context step trace) :
    Traced (steps ++ [step]) (traces ++ [trace]) := by
  unfold Traced at h ⊢
  simp [h, htrace.ids]

theorem handsOver_isPrefix_singleton {handed : List Invocation}
    (h : Unified.HandsOver auditors context (adapterName isolation step) step.command handed) :
    handed <+: [invocationOf isolation context step] := by
  obtain rfl | ⟨_, rfl⟩ := h
  · exact List.nil_prefix
  · exact List.prefix_refl _

end Engine

/-! ## The record -/

section Record

variable (isolation : Isolation) (context : ExecutionContext) (steps : List ExecutionStep)
  (earlier : List Invocation)

/-- What a run leaves that returned after its first `k` steps: their traces, of which all
but the last exited with code zero, their commands handed over in order, and the status
that says whether all steps have run and succeeded. -/
structure ReturnedAfter (k : Nat) (final : Run) : Prop where
  bound : k ≤ steps.length
  traced : Engine.Traced (steps.take k) final.ucer.traces
  clean : ∀ trace ∈ final.ucer.traces.dropLast, trace.exitCode = 0
  invoked : final.invocations =
    earlier ++ (steps.take k).map (Engine.invocationOf isolation context)
  completed_iff : final.ucer.status = .completed ↔
    k = steps.length ∧ ∀ trace ∈ final.ucer.traces, trace.exitCode = 0
  otherwise : final.ucer.status ≠ .completed → final.ucer.status = .failed

/-- What a run leaves that raised while it processed the step after the first `j`: their
traces, all with exit code zero, their commands handed over in order, that of the step at
most, and the status `failed`. -/
structure RaisedAt (j : Nat) (final : Run) : Prop where
  bound : j < steps.length
  traced : Engine.Traced (steps.take j) final.ucer.traces
  clean : ∀ trace ∈ final.ucer.traces, trace.exitCode = 0
  invoked : earlier ++ (steps.take j).map (Engine.invocationOf isolation context) <+:
    final.invocations
  noLater : final.invocations <+:
    earlier ++ (steps.take (j + 1)).map (Engine.invocationOf isolation context)
  status : final.ucer.status = .failed

end Record

section Record

variable {auditors : Auditors} {world : World} {isolation : Isolation} {context : ExecutionContext}
  {steps : List ExecutionStep} {run left final : Run}

/-- A loop that returns leaves a record settled after some number of steps. -/
theorem Engine.LoopExit.returnedAfter
    (h : LoopExit auditors world isolation context steps run (left, .ok ()))
    (hrunning : run.ucer.status = .running) (hempty : run.ucer.traces = [])
    (hstatus : final.ucer.status = if left.ucer.status ≠ .failed then .completed else .failed)
    (htraces : final.ucer.traces = left.ucer.traces)
    (hinvocations : final.invocations = left.invocations) :
    ∃ k, ReturnedAfter isolation context steps run.invocations k final := by
  cases h with
  | finished traces hclean hleft hleftTraces hhanded _ =>
      dsimp only at hleft hleftTraces hhanded
      rw [hempty, List.nil_append] at hleftTraces
      rw [hleft, hrunning, if_pos (by decide)] at hstatus
      rw [hleftTraces] at htraces
      refine ⟨steps.length, le_rfl, ?_, ?_, ?_, ?_, fun hne => absurd hstatus hne⟩
      · rw [List.take_length, htraces]
        exact hclean.traced
      · intro trace htrace
        rw [htraces] at htrace
        exact hclean.exitCode trace (List.dropLast_subset _ htrace)
      · rw [List.take_length, hinvocations, hhanded]
      · rw [htraces]
        exact iff_of_true hstatus ⟨rfl, hclean.exitCode⟩
  | exitCode before after step traces trace hsteps hclean htrace hexit hleft hleftTraces hhanded _ =>
      dsimp only at hleft hleftTraces hhanded
      rw [hempty, List.nil_append] at hleftTraces
      rw [hleft, if_neg (by decide)] at hstatus
      rw [hleftTraces] at htraces
      have htake : steps.take (before.length + 1) = before ++ [step] := by
        rw [hsteps, List.take_append]
        simp
      refine ⟨before.length + 1, ?_, ?_, ?_, ?_, ?_, fun _ => hstatus⟩
      · rw [hsteps]
        simp
      · rw [htake, htraces]
        exact hclean.traced.concat htrace
      · rw [htraces, List.dropLast_concat]
        exact hclean.exitCode
      · rw [htake, hinvocations, hhanded]
      · refine iff_of_false (by rw [hstatus]; decide) ?_
        rintro ⟨_, hall⟩
        rw [htraces] at hall
        exact hexit (hall trace (by simp))
  | raised _ _ _ _ _ _ _ _ _ _ _ _ _ hresult => exact absurd hresult (by simp)
  | cancelled _ _ _ hresult => exact absurd hresult (by simp)

/-- A loop out of which an exception escapes leaves a record that failed at some step. -/
theorem Engine.LoopExit.raisedAt {e : PyError}
    (h : LoopExit auditors world isolation context steps run (left, .error e))
    (he : e.isException = true) (hempty : run.ucer.traces = [])
    (hstatus : final.ucer.status = .failed) (htraces : final.ucer.traces = left.ucer.traces)
    (hinvocations : final.invocations = left.invocations) :
    ∃ j, RaisedAt isolation context steps run.invocations j final := by
  cases h with
  | finished _ _ _ _ _ hresult => exact absurd hresult (by simp)
  | exitCode _ _ _ _ _ _ _ _ _ _ _ _ hresult => exact absurd hresult (by simp)
  | raised before after step traces handed _ hsteps hclean hover _ _ hleftTraces hhanded _ =>
      dsimp only at hleftTraces hhanded
      rw [hempty, List.nil_append] at hleftTraces
      rw [hleftTraces] at htraces
      have htake : steps.take before.length = before := by
        rw [hsteps, List.take_left']
        rfl
      have htake' : steps.take (before.length + 1) = before ++ [step] := by
        rw [hsteps, List.take_append]
        simp
      refine ⟨before.length, ?_, ?_, ?_, ?_, ?_, hstatus⟩
      · rw [hsteps]
        simp
      · rw [htake, htraces]
        exact hclean.traced
      · rw [htraces]
        exact hclean.exitCode
      · rw [htake, hinvocations, hhanded, ← List.append_assoc]
        exact List.prefix_append _ _
      · rw [htake', hinvocations, hhanded, List.map_append]
        exact (List.prefix_append_right_inj _).mpr
          ((List.prefix_append_right_inj _).mpr (handsOver_isPrefix_singleton hover))
  | cancelled e' he' _ hresult =>
      obtain rfl := Except.error.inj hresult
      rw [he] at he'
      exact absurd he' (by decide)

end Record

namespace PersistenceMiddleware

variable {auditors : Auditors} {world : World} {context : ExecutionContext} {run : Run}

/-- When every save is stored, the middleware saves what the `try` statement leaves. -/
theorem process_of_stored (h : ∀ n, world.saveUcer n = .stored) (next : PipelineHandler) :
    process world next context run =
      ({ (settle (next context (started run))).1 with
          saves := (settle (next context (started run))).1.saves + 1
          saved := (settle (next context (started run))).1.saved ++
            [(settle (next context (started run))).1.ucer] },
        (settle (next context (started run))).2) := by
  simp [process, finallySave, saveUcer, h, started, start]

end PersistenceMiddleware

/-- **Status and traces tell how the run went.**  A record that reaches the middleware,
whatever its previous status and traces, comes out in one of two ways.  If the run returns,
some number of steps have been executed: their traces and their commands are there in
order, all but the last exited with code zero, and the status is `completed` exactly when
these are all the steps and all of them exited with code zero, `failed` otherwise.  If an
exception escapes, the steps before some step have been executed with exit code zero, no
later one has been handed over, and the status is `failed`.  The record is the last one
saved. -/
theorem persistence_coherent (auditors : Auditors) (world : World) (context : ExecutionContext)
    (run : Run) (hsaves : ∀ n, world.saveUcer n = .stored)
    (hcalm : ∀ n, world.interrupted n = none)
    (hordinary : ∀ n adapter command e,
      world.run n adapter command context = .error e → e.isException = true) :
    let outcome :=
      PersistenceMiddleware.process world (Engine.process auditors world) context run
    let isolation := negotiateIsolation run.ucer
    (outcome.2 = .ok () → ∃ k,
        ReturnedAfter isolation context run.ucer.steps run.invocations k outcome.1) ∧
      (∀ e, outcome.2 = .error e → ∃ j,
        RaisedAt isolation context run.ucer.steps run.invocations j outcome.1) ∧
      outcome.1.saved.getLast? = some outcome.1.ucer := by
  intro outcome isolation
  have houtcome : outcome = _ :=
    PersistenceMiddleware.process_of_stored hsaves (Engine.process auditors world)
  have hexit : Engine.LoopExit auditors world isolation context run.ucer.steps
      (PersistenceMiddleware.started run)
      (Engine.process auditors world context (PersistenceMiddleware.started run)) :=
    Engine.runSteps_exit auditors world isolation context run.ucer.steps
      (PersistenceMiddleware.started run)
  have hinvocations : (PersistenceMiddleware.started run).invocations = run.invocations := rfl
  rcases hengine : Engine.process auditors world context (PersistenceMiddleware.started run)
    with ⟨left, e | _⟩
  · rw [hengine] at hexit houtcome
    have he : e.isException = true := by
      cases hexit with
      | finished _ _ _ _ _ hresult => exact absurd hresult (by simp)
      | exitCode _ _ _ _ _ _ _ _ _ _ _ _ hresult => exact absurd hresult (by simp)
      | raised _ _ _ _ _ _ _ _ _ he _ _ _ hresult => rwa [Except.error.inj hresult]
      | cancelled e' he' hwhy hresult =>
          rcases hwhy with ⟨n, hn⟩ | ⟨n, adapter, command, hn⟩
          · exact absurd (hcalm n) hn
          · rw [Except.error.inj hresult]
            exact hordinary n adapter command e' hn
    rw [PersistenceMiddleware.settle] at houtcome
    simp only [he, if_true] at houtcome
    refine ⟨?_, ?_, by rw [houtcome]; simp⟩
    · intro hreturns
      rw [houtcome] at hreturns
      exact absurd hreturns (by simp)
    · intro _ _
      rw [← hinvocations]
      exact hexit.raisedAt he rfl (by rw [houtcome]; rfl) (by rw [houtcome]; rfl)
        (by rw [houtcome]; rfl)
  · rw [hengine] at hexit houtcome
    refine ⟨?_, ?_, by rw [houtcome]; simp⟩
    · intro _
      rw [← hinvocations]
      exact hexit.returnedAfter rfl rfl (by rw [houtcome]; rfl) (by rw [houtcome]; rfl)
        (by rw [houtcome]; rfl)
    · intro e herror
      rw [houtcome] at herror
      exact absurd herror (by simp [PersistenceMiddleware.settle])

/-- In the calm world a record with one step comes out as a run that returned. -/
theorem echo_returnedAfter :
    ∃ k, ReturnedAfter .docker Facade.execContext (Facade.echoRecord ∅).steps [] k
      (PersistenceMiddleware.process Engine.calm
        (Engine.process Facade.plainAuditors Engine.calm) Facade.execContext
        { ucer := Facade.echoRecord ∅ }).1 := by
  have hordinary : ∀ n adapter command e,
      Engine.calm.run n adapter command Facade.execContext = .error e → e.isException = true := by
    simp [Engine.calm]
  obtain ⟨hreturns, _, _⟩ := persistence_coherent Facade.plainAuditors Engine.calm
    Facade.execContext { ucer := Facade.echoRecord ∅ } (fun _ => rfl) (fun _ => rfl) hordinary
  apply hreturns
  rw [PersistenceMiddleware.process_of_stored (fun _ => rfl)]
  have hengine : (Engine.process Facade.plainAuditors Engine.calm Facade.execContext
      (PersistenceMiddleware.started { ucer := Facade.echoRecord ∅ })).2 = .ok () := by
    apply Engine.runSteps_calm_ok
    intro step hstep
    obtain rfl := List.mem_singleton.mp hstep
    decide
  rcases hrun : Engine.process Facade.plainAuditors Engine.calm Facade.execContext
    (PersistenceMiddleware.started { ucer := Facade.echoRecord ∅ }) with ⟨left, e | _⟩
  · rw [hrun] at hengine
    exact absurd hengine (by simp)
  · rfl

end Ucser
