import Ucser.Core.ReplayTrust

/-!
# Does a replay agree with the execution?

The loop of `replay` is not the loop of the engine: it takes no side effects over, and a
non-zero exit code neither stops it nor marks the record.

* `replayTraceOf_eq` — the trace of a replayed step, in terms of the engine's.
* `replaySteps_of_cleanRun` — **what a replay makes of a clean run**: its traces, without
  the side effects.
* `replay_completed` — a replay that returns has always completed.
* `replay_parity_iff` — **the records a replay agrees on**.
-/

namespace Ucser

/-- A trace without its side effects. -/
def ExecutionTrace.withoutEffects (trace : ExecutionTrace) : ExecutionTrace :=
  { trace with sideEffects := [] }

theorem ExecutionTrace.withoutEffects_eq_self_iff {trace : ExecutionTrace} :
    trace.withoutEffects = trace ↔ trace.sideEffects = [] := by
  constructor
  · intro h
    rw [← h]
    rfl
  · intro h
    rw [ExecutionTrace.withoutEffects, ← h]

theorem map_withoutEffects_eq_self_iff {traces : List ExecutionTrace} :
    traces.map ExecutionTrace.withoutEffects = traces ↔
      ∀ trace ∈ traces, trace.sideEffects = [] := by
  induction traces with
  | nil => simp
  | cons trace traces ih => simp [ExecutionTrace.withoutEffects_eq_self_iff, ih]

/-- The loop of `replay` makes the engine's trace, without the side effects. -/
theorem replayTraceOf_eq (adapter : Adapter) (step : ExecutionStep) (result : RunResult) :
    replayTraceOf adapter step result = (Engine.traceOf adapter step result).withoutEffects :=
  rfl

/-- The world answers every command as `answer` does, whenever and wherever it is run. -/
def World.Fixed (world : World) (answer : Adapter → String → Except PyError RunResult) : Prop :=
  ∀ n adapter command context, world.run n adapter command context = answer adapter command

/-- Nothing but the adapters can make a call of `replay` raise. -/
structure ReplayWorld.Undisturbed (world : ReplayWorld) : Prop where
  interrupted : ∀ n, world.interrupted n = none
  getUcer : world.getUcer = none
  captureBackup : world.captureBackup = none
  restore : world.restore = none

section Loop

variable {auditors : Auditors} {world : World} {later : World} {isolation : Isolation}
  {context : ExecutionContext} {steps : List ExecutionStep} {traces : List ExecutionTrace}
  {answer : Adapter → String → Except PyError RunResult}

/-- **What a replay makes of a clean run.**  By induction on the run. -/
theorem replaySteps_of_cleanRun {replayed : ExecutionContext} (run : Run)
    (hclean : Engine.CleanRun world isolation context steps traces) (hfixed : world.Fixed answer)
    (hlater : later.Fixed answer) (hcalm : ∀ n, later.interrupted n = none)
    (hadmits : ∀ step ∈ steps,
      Unified.Admits auditors replayed (Engine.adapterName isolation step) step.command) :
    (replaySteps auditors later isolation replayed steps run).2 = .ok () ∧
      (replaySteps auditors later isolation replayed steps run).1.ucer.traces =
        run.ucer.traces ++ traces.map ExecutionTrace.withoutEffects := by
  induction hclean generalizing run with
  | nil => simp [replaySteps]
  | @cons step trace steps traces hhead _ ih =>
      obtain ⟨⟨n, result, hresult, rfl⟩, _⟩ := hhead
      obtain ⟨hfirst, hrest⟩ := List.forall_mem_cons.mp hadmits
      rw [hfixed] at hresult
      rw [replaySteps, replayStep_of_admits run (hcalm _) hfirst ((hlater _ _ _ _).trans hresult)]
      dsimp only
      obtain ⟨hok, htraces⟩ := ih _ hrest
      refine ⟨hok, ?_⟩
      rw [htraces, replayTraceOf_eq]
      simp

/-- A step is clean: it is answered with exit code zero and no side effects, that is without a
`side_effects` entry or with an empty dictionary; a dictionary of empty lists is not empty. -/
def Clean (answer : Adapter → String → Except PyError RunResult) (isolation : Isolation)
    (step : ExecutionStep) : Prop :=
  ∃ result, answer (Engine.adapterName isolation step) step.command = .ok result ∧
    result.exitCode.getD (-1) = 0 ∧ result.sideEffects.getD [] = []

/-- The traces of a clean run have no side effects exactly when the steps are clean. -/
theorem sideEffects_of_cleanRun (hclean : Engine.CleanRun world isolation context steps traces)
    (hfixed : world.Fixed answer) :
    (∀ trace ∈ traces, trace.sideEffects = []) ↔ ∀ step ∈ steps, Clean answer isolation step := by
  induction hclean with
  | nil => simp
  | cons hhead _ ih =>
      obtain ⟨⟨n, result, hresult, rfl⟩, hexit⟩ := hhead
      rw [hfixed] at hresult
      rw [List.forall_mem_cons, List.forall_mem_cons, ih]
      refine and_congr_left fun _ => ⟨fun h => ⟨result, hresult, hexit, h⟩, ?_⟩
      rintro ⟨result', hresult', _, heffects⟩
      obtain rfl := Except.ok.inj (hresult.symm.trans hresult')
      exact heffects

/-- A step that has exited with another code is not clean. -/
theorem not_clean_of_answered {step : ExecutionStep} {trace : ExecutionTrace}
    (h : Engine.Answered world isolation context step trace) (hexit : trace.exitCode ≠ 0)
    (hfixed : world.Fixed answer) : ¬ Clean answer isolation step := by
  obtain ⟨n, result, hresult, rfl⟩ := h
  rw [hfixed] at hresult
  rintro ⟨result', hresult', hzero, _⟩
  obtain rfl := Except.ok.inj (hresult.symm.trans hresult')
  exact hexit hzero

end Loop

/-- When the middleware returns, it returns the record that the `try` statement leaves. -/
theorem PersistenceMiddleware.process_ok_ucer {world : World} {next : PipelineHandler}
    {context : ExecutionContext} {run : Run} (h : (process world next context run).2 = .ok ()) :
    (next context (started run)).2 = .ok () ∧
      (process world next context run).1.ucer = (settle (next context (started run))).1.ucer := by
  obtain ⟨e, herror⟩ | heq := process_cases world next context run
  · rw [herror] at h
    exact absurd h (by simp)
  · rw [heq] at h ⊢
    obtain ⟨hsettle, hucer, _⟩ := finallySave_ok h
    exact ⟨(settle_ok hsettle).1, hucer⟩

namespace Facade

variable {facade : Facade} {world : World} {ucer : UCER} {context : Option ExecutionContext}
  {allowedCaps : Option (Finset Capability)}

/-- A replay that returns has always completed. -/
theorem replay_completed {later : ReplayWorld} {stored : List UCER} {ucerId : String}
    {context' : Option ExecutionContext} {record : UCER}
    (h : (replay facade later stored ucerId context').2 = .ok record) :
    record.status = .completed := by
  unfold replay at h
  split at h
  · exact absurd h (by simp)
  split at h
  · exact absurd h (by simp)
  split at h
  · exact absurd h (by simp)
  dsimp only at h
  split at h
  · exact absurd h (by simp)
  rename_i original _ _ _ _
  unfold replayRecord at h
  dsimp only at h
  split at h
  · exact absurd h (by simp [Except.map])
  · obtain rfl : _ = record := by simpa [Except.map] using h
    rfl

/-- In a world that leaves the replay alone it returns what the loop leaves, completed. -/
theorem replay_of_undisturbed {later : ReplayWorld} {stored : List UCER} {ucerId : String}
    {original : UCER} (context' : Option ExecutionContext) (hundisturbed : later.Undisturbed)
    (hstored : getUcer stored ucerId = some original) (run : Run)
    (hrun : replaySteps facade.auditors later.toWorld (negotiateIsolation original)
      (replayContext original context') original.steps
        { ucer := { original with traces := [], status := .running } } = (run, .ok ())) :
    (replay facade later stored ucerId context').2 = .ok (run.setStatus .completed).ucer := by
  obtain ⟨_, hget, hcapture, hrestore⟩ := hundisturbed
  simp [replay, replayRecord, hget, hcapture, hrestore, hstored, hrun, Except.map]

/-- How a call that returned has gone: the loop of the engine has finished, or it has
stopped at a non-zero exit code. -/
theorem execution_exit (h : (executeUcer facade world ucer context allowedCaps).2 = .ok ()) :
    (executeUcer facade world ucer context allowedCaps).1.ucer.status = .completed ∧
        Engine.CleanRun world (isolationOf facade ucer)
          (activeContext world context allowedCaps) ucer.steps
          (executeUcer facade world ucer context allowedCaps).1.ucer.traces ∨
      (executeUcer facade world ucer context allowedCaps).1.ucer.status = .failed ∧
        ∃ step ∈ ucer.steps, ∃ trace, Engine.Answered world (isolationOf facade ucer)
          (activeContext world context allowedCaps) step trace ∧ trace.exitCode ≠ 0 := by
  obtain ⟨hkey, haccepts⟩ := accepts_of_ok h
  rw [executeUcer_of_accepts hkey haccepts] at h ⊢
  set active := activeContext world context allowedCaps
  have hexit := Engine.runSteps_exit facade.auditors world (isolationOf facade ucer) active
    (gated facade world ucer).steps (PersistenceMiddleware.started { ucer := gated facade world ucer })
  rw [gated_steps] at hexit
  obtain ⟨hengine, hucer⟩ := PersistenceMiddleware.process_ok_ucer h
  rw [execution, hucer]
  rcases hrun : Engine.process facade.auditors world active
    (PersistenceMiddleware.started { ucer := gated facade world ucer }) with ⟨left, e | _⟩
  · rw [hrun] at hengine
    exact absurd hengine (by simp)
  have hloop : Engine.runSteps facade.auditors world (isolationOf facade ucer) active ucer.steps
      (PersistenceMiddleware.started { ucer := gated facade world ucer }) = (left, .ok ()) := by
    rw [← hrun, ← gated_steps facade world ucer]
    rfl
  rw [hloop] at hexit
  cases hexit with
  | finished traces hclean hstatus htraces _ _ =>
      left
      dsimp only at hstatus htraces
      have hnot : left.ucer.status ≠ .failed := by
        rw [hstatus]
        exact Status.noConfusion
      refine ⟨by simp [PersistenceMiddleware.settle, Run.setStatus, hnot], ?_⟩
      rw [PersistenceMiddleware.settle]
      dsimp only [Run.setStatus]
      rw [htraces]
      exact hclean
  | exitCode before after step traces trace hsteps _ htrace hexit hstatus _ _ _ =>
      right
      dsimp only at hstatus
      refine ⟨by simp [PersistenceMiddleware.settle, Run.setStatus, hstatus], step, ?_, trace,
        htrace, hexit⟩
      rw [hsteps]
      simp
  | raised _ _ _ _ _ _ _ _ _ _ _ _ _ hresult => exact absurd hresult (by simp)
  | cancelled _ _ _ hresult => exact absurd hresult (by simp)

/-- The record that a call returned is the one the database holds. -/
theorem getUcer_executeUcer (h : (executeUcer facade world ucer context allowedCaps).2 = .ok ())
    (earlier : List UCER) :
    getUcer (earlier ++ (executeUcer facade world ucer context allowedCaps).1.saved)
        ucer.commandId =
      some (executeUcer facade world ucer context allowedCaps).1.ucer := by
  obtain ⟨status, traces, key, hucer, hlast⟩ := executeUcer_ok h
  obtain ⟨before, hsaved⟩ := List.getLast?_eq_some_iff.mp hlast
  have hid : (executeUcer facade world ucer context allowedCaps).1.ucer.commandId =
      ucer.commandId := by
    rw [hucer]
    unfold signed
    split_ifs <;> rfl
  rw [hsaved, ← List.append_assoc, ← hid]
  exact getUcer_concat _ _

/-- **The records a replay agrees on.**  Let a call have returned, let the adapters answer
every command the same way whenever it is run, let the second gate admit the steps under
the context of the replay, and let nothing else disturb the replay.  Then the replay returns
a record with the status and the traces of the one stored if and only if every step is
answered with exit code zero and without side effects. -/
theorem replay_parity_iff (facade : Facade) (world : World) (later : ReplayWorld)
    (answer : Adapter → String → Except PyError RunResult) (ucer : UCER)
    (context context' : Option ExecutionContext) (allowedCaps : Option (Finset Capability))
    (earlier : List UCER)
    (hreturned : (executeUcer facade world ucer context allowedCaps).2 = .ok ())
    (hfixed : world.Fixed answer) (hlater : later.Fixed answer)
    (hundisturbed : later.Undisturbed)
    (hadmits : ∀ step ∈ ucer.steps, Unified.Admits facade.auditors
      (replayContext (executeUcer facade world ucer context allowedCaps).1.ucer context')
      (Engine.adapterName (isolationOf facade ucer) step) step.command) :
    (∃ record,
        (replay facade later (earlier ++ (executeUcer facade world ucer context allowedCaps).1.saved)
          ucer.commandId context').2 = .ok record ∧
        record.status = (executeUcer facade world ucer context allowedCaps).1.ucer.status ∧
        record.traces = (executeUcer facade world ucer context allowedCaps).1.ucer.traces) ↔
      ∀ step ∈ ucer.steps, Clean answer (isolationOf facade ucer) step := by
  have hstored := getUcer_executeUcer hreturned earlier
  have hexit := execution_exit hreturned
  obtain ⟨_, _, _, hucer, _⟩ := executeUcer_ok hreturned
  set original := (executeUcer facade world ucer context allowedCaps).1.ucer
  have hsteps : original.steps = ucer.steps := by
    rw [hucer]
    unfold signed
    split_ifs <;> rfl
  have hisolation : negotiateIsolation original = isolationOf facade ucer := by
    rw [hucer]
    rfl
  rcases hexit with ⟨hstatus, hclean⟩ | ⟨hstatus, step, hstep, trace, htrace, hexit⟩
  · rw [← sideEffects_of_cleanRun hclean hfixed, ← map_withoutEffects_eq_self_iff]
    obtain ⟨hok, htraces⟩ := replaySteps_of_cleanRun
      { ucer := { original with traces := [], status := .running } } hclean hfixed hlater
      hundisturbed.interrupted hadmits
    rw [← hsteps, ← hisolation] at hok htraces
    have hreplay := replay_of_undisturbed context' hundisturbed hstored _
      (Prod.ext rfl hok)
    constructor
    · rintro ⟨record, hrecord, _, hsame⟩
      obtain rfl := Except.ok.inj (hreplay.symm.trans hrecord)
      exact htraces.symm.trans hsame
    · intro hsame
      refine ⟨_, hreplay, hstatus.symm, ?_⟩
      exact htraces.trans hsame
  · refine iff_of_false ?_ fun hall => not_clean_of_answered htrace hexit hfixed (hall step hstep)
    rintro ⟨record, hrecord, hsame, _⟩
    rw [replay_completed hrecord, hstatus] at hsame
    exact absurd hsame (by decide)

/-! ## Two worlds -/

/-- Every command exits with code one. -/
def failing : World := { Engine.calm with run := fun _ _ _ _ => .ok { exitCode := some 1 } }

/-- The same in a later process. -/
def failingReplay : ReplayWorld := { failing with }

theorem execStep_failing {auditors : Auditors} {isolation : Isolation} {context : ExecutionContext}
    {step : ExecutionStep} (run : Run)
    (h : Unified.Admits auditors context (Engine.adapterName isolation step) step.command) :
    (Engine.execStep auditors failing isolation context step run).2 = .ok false ∧
      (Engine.execStep auditors failing isolation context step run).1.ucer.status = .failed := by
  have hawait : Engine.awaitExecute auditors failing context (Engine.adapterName isolation step)
      step.command run = ({ run with
        invocations := run.invocations ++ [Engine.invocationOf isolation context step]
        awaits := run.awaits + 1 }, .ok { exitCode := some 1 }) :=
    Unified.execute_of_admits failing { run with awaits := run.awaits + 1 } h
  have hexit : (Engine.traceOf (Engine.adapterName isolation step) step
      { exitCode := some 1 }).exitCode ≠ 0 := Int.one_ne_zero
  simp [Engine.execStep, Engine.tryStep, hawait, Engine.inspectTrace_silent, hexit, Run.setStatus]

/-- A round that does not go on ends the loop. -/
theorem runSteps_of_stop {auditors : Auditors} {world : World} {isolation : Isolation}
    {context : ExecutionContext} {step : ExecutionStep} {run : Run} (steps : List ExecutionStep)
    (h : (Engine.execStep auditors world isolation context step run).2 = .ok false) :
    Engine.runSteps auditors world isolation context (step :: steps) run =
      ((Engine.execStep auditors world isolation context step run).1, .ok ()) := by
  rw [Engine.runSteps]
  rcases hexec : Engine.execStep auditors world isolation context step run with ⟨left, result⟩
  rw [hexec] at h
  obtain rfl : result = .ok false := h
  rfl

/-- Where every command fails the call returns, its record marked failed. -/
theorem executeUcer_failing :
    (executeUcer plainFacade failing (echoRecord ∅) (some execContext) none).2 = .ok () ∧
      (executeUcer plainFacade failing (echoRecord ∅) (some execContext) none).1.ucer.status =
        .failed := by
  set run := PersistenceMiddleware.started { ucer := gated plainFacade failing (echoRecord ∅) }
    with hrun
  have hsteps : run.ucer.steps = (echoRecord ∅).steps := gated_steps _ _ _
  have hadmits := admits_echoRecord (Finset.empty_subset {Capability.exec})
  obtain ⟨hresult, hstatus⟩ := execStep_failing run (hadmits _ (List.mem_singleton_self _))
  obtain ⟨left, hloop, hleft⟩ : ∃ left, Engine.process plainFacade.auditors failing
      (activeContext failing (some execContext) none) run = (left, .ok ()) ∧
        left.ucer.status = .failed := by
    rw [Engine.process, hsteps]
    exact ⟨_, runSteps_of_stop [] hresult, hstatus⟩
  rw [executeUcer_of_accepts rfl (accepts_echoRecord ∅), execution,
    PersistenceMiddleware.process_of_stored (fun _ => rfl), ← hrun, hloop]
  simp [PersistenceMiddleware.settle, Run.setStatus, hleft]

/-- Where every command fails a replay of the stored record disagrees with it: it is
completed. -/
theorem failed_record_completes :
    (executeUcer plainFacade failing (echoRecord ∅) (some execContext) none).2 = .ok () ∧
      failing.Fixed (fun _ _ => .ok { exitCode := some 1 }) ∧
      failingReplay.Fixed (fun _ _ => .ok { exitCode := some 1 }) ∧ failingReplay.Undisturbed ∧
      (∀ step ∈ (echoRecord ∅).steps, Unified.Admits plainFacade.auditors
        (replayContext (executeUcer plainFacade failing (echoRecord ∅) (some execContext)
          none).1.ucer (some execContext))
        (Engine.adapterName (isolationOf plainFacade (echoRecord ∅)) step) step.command) ∧
      ¬ ∃ record,
        (replay plainFacade failingReplay ([] ++ (executeUcer plainFacade failing (echoRecord ∅)
          (some execContext) none).1.saved) "c" (some execContext)).2 = .ok record ∧
        record.status = (executeUcer plainFacade failing (echoRecord ∅) (some execContext)
          none).1.ucer.status ∧
        record.traces = (executeUcer plainFacade failing (echoRecord ∅) (some execContext)
          none).1.ucer.traces := by
  obtain ⟨hreturned, hstatus⟩ := executeUcer_failing
  refine ⟨hreturned, fun _ _ _ _ => rfl, fun _ _ _ _ => rfl, ⟨fun _ => rfl, rfl, rfl, rfl⟩,
    admits_echoRecord (Finset.empty_subset _), ?_⟩
  rintro ⟨record, hrecord, hsame, _⟩
  rw [replay_completed hrecord, hstatus] at hsame
  exact absurd hsame (by decide)

/-- Where every command succeeds the replay agrees. -/
theorem echo_replayed :
    ∃ record,
      (replay plainFacade calmReplay ([] ++ (executeUcer plainFacade Engine.calm
        (echoRecord {.exec}) (some execContext) none).1.saved) "c" (some execContext)).2 =
          .ok record ∧
      record.status = (executeUcer plainFacade Engine.calm (echoRecord {.exec})
        (some execContext) none).1.ucer.status ∧
      record.traces = (executeUcer plainFacade Engine.calm (echoRecord {.exec})
        (some execContext) none).1.ucer.traces := by
  have hreturned := executeUcer_echoRecord (Finset.Subset.refl {Capability.exec})
  have hadmits := admits_echoRecord (Finset.Subset.refl {Capability.exec})
  have hfixed : Engine.calm.Fixed (fun _ _ => .ok { exitCode := some 0 }) := fun _ _ _ _ => rfl
  have hlater : calmReplay.Fixed (fun _ _ => .ok { exitCode := some 0 }) := fun _ _ _ _ => rfl
  refine (replay_parity_iff _ _ _ _ _ _ (some execContext) _ [] hreturned hfixed hlater
    ⟨fun _ => rfl, rfl, rfl, rfl⟩ hadmits).mpr ?_
  intro step hstep
  exact ⟨_, rfl, rfl, rfl⟩

end Facade
end Ucser
