import Ucser.Core.Coherence
import Ucser.Core.Authority
import Ucser.Core.Tamper

/-!
# Replay: `UniversalExecutorFacade.replay`

A stored record is run once more, by a loop of its own: without Crypto, without the gate
over the whole record, without the sentinel and without a stop at a non-zero exit code.

* `getUcer` — what the database holds under an identifier.
* `replayContext`, `replaySteps`, `replay` — the context, the loop, and the entry point.
* `replayStep_cases` — what one round of the loop can do.
* `replay_invocations` — **what a replay hands over**: a prefix of what the second gate
  admits under its context.
* `replay_calm` — in a world that disturbs nothing it is all of that.
-/

namespace Ucser

/-! ## The database -/

/-- `get_ucer`: what was stored last under the identifier. -/
def getUcer (stored : List UCER) (commandId : String) : Option UCER :=
  stored.reverse.find? (fun ucer => ucer.commandId = commandId)

theorem getUcer_concat (stored : List UCER) (ucer : UCER) :
    getUcer (stored ++ [ucer]) ucer.commandId = some ucer := by
  simp [getUcer]

/-! ## The entry point -/

/-- The answers of the outside to a call of `replay`. -/
structure ReplayWorld extends World where
  /-- The database may fail to be read. -/
  getUcer : Option PyError := none
  /-- `snapshot.capture_backup()` may raise. -/
  captureBackup : Option PyError := none
  /-- `snapshot.restore()` may raise. -/
  restore : Option PyError := none

/-- The capabilities a replay runs with. -/
def replayCaps (original : UCER) : Finset Capability :=
  if original.requiredCapabilities = ∅ then {.exec} else original.requiredCapabilities

/-- `active_context`: the given one, or one made from the record. -/
def replayContext (original : UCER) (context : Option ExecutionContext) : ExecutionContext :=
  context.getD ⟨"replay-" ++ original.commandId, replayCaps original⟩

/-- The trace of a replayed step: side effects are not taken over. -/
def replayTraceOf (adapter : Adapter) (step : ExecutionStep) (result : RunResult) :
    ExecutionTrace where
  stepId := step.stepId
  adapter := adapter
  command := step.command
  stdout := normalizeOutput (result.stdout.getD "")
  stderr := normalizeOutput (result.stderr.getD "")
  exitCode := result.exitCode.getD (-1)

section Loop

variable (auditors : Auditors) (world : World) (isolation : Isolation) (context : ExecutionContext)

/-- One round of the loop. -/
def replayStep (step : ExecutionStep) (run : Run) : Run × Except PyError Unit :=
  let adapter := Engine.adapterName isolation step
  match Engine.awaitExecute auditors world context adapter step.command run with
  | (run', .error e) => (run', .error e)
  | (run', .ok result) =>
      ({ run' with ucer := { run'.ucer with
          traces := run'.ucer.traces ++ [replayTraceOf adapter step result] } }, .ok ())

/-- The loop over the steps. -/
def replaySteps : List ExecutionStep → Run → Run × Except PyError Unit
  | [], run => (run, .ok ())
  | step :: steps, run =>
      match replayStep auditors world isolation context step run with
      | (run', .error e) => (run', .error e)
      | (run', .ok ()) => replaySteps steps run'

end Loop

namespace Facade

variable (facade : Facade) (world : ReplayWorld)

/-- The `try` of `replay`: the record returned is the copy, marked completed. -/
def replayRecord (original : UCER) (context : ExecutionContext) : Run × Except PyError Unit :=
  let replayUcer := { original with traces := [], status := .running }
  match replaySteps facade.auditors world.toWorld (negotiateIsolation original) context
      replayUcer.steps { ucer := replayUcer } with
  | (run, .error e) => (run, .error e)
  | (run, .ok ()) => (run.setStatus .completed, .ok ())

/-- `replay`: the commands handed over, and the record returned. -/
def replay (stored : List UCER) (ucerId : String) (context : Option ExecutionContext) :
    List Invocation × Except PyError UCER :=
  match world.getUcer with
  | some e => ([], .error e)
  | none =>
      match Ucser.getUcer stored ucerId with
      | none => ([], .error (.valueError ("UCER " ++ ucerId ++ " not found for replay")))
      | some original =>
          match world.captureBackup with
          | some e => ([], .error e)
          | none =>
              let (run, result) := replayRecord facade world original (replayContext original context)
              match world.restore with
              | some e => (run.invocations, .error e)
              | none => (run.invocations, result.map (fun _ => run.ucer))

end Facade

/-! ## What a replay hands over -/

section Loop

variable {auditors : Auditors} {world : World} {isolation : Isolation} {context : ExecutionContext}

/-- **What one round can do**: the command is handed over and its trace appended, or an
exception escapes. -/
theorem replayStep_cases (step : ExecutionStep) (run : Run) :
    (∃ result, Unified.Admits auditors context (Engine.adapterName isolation step) step.command ∧
        world.run run.invocations.length (Engine.adapterName isolation step) step.command
          context = .ok result ∧
        replayStep auditors world isolation context step run =
          ({ run with
              ucer := { run.ucer with
                traces := run.ucer.traces ++
                  [replayTraceOf (Engine.adapterName isolation step) step result] }
              invocations :=
                run.invocations ++ [Engine.invocationOf isolation context step]
              awaits := run.awaits + 1 }, .ok ())) ∨
      ∃ handed e, Unified.HandsOver auditors context (Engine.adapterName isolation step)
          step.command handed ∧
        replayStep auditors world isolation context step run =
          ({ run with invocations := run.invocations ++ handed, awaits := run.awaits + 1 },
            .error e) := by
  unfold replayStep
  obtain ⟨hadmits, hawait⟩ | ⟨handed, e, hover, _, hawait⟩ :=
    Engine.awaitExecute_result auditors world context (Engine.adapterName isolation step)
      step.command run
  · cases hresult : world.run run.invocations.length (Engine.adapterName isolation step)
        step.command context with
    | error e =>
        rw [hresult] at hawait
        exact Or.inr ⟨_, e, Or.inr ⟨hadmits, rfl⟩, by simp [hawait]⟩
    | ok result =>
        rw [hresult] at hawait
        exact Or.inl ⟨result, hadmits, rfl, by simp [hawait, Engine.invocationOf]⟩
  · exact Or.inr ⟨handed, e, hover, by simp [hawait]⟩

/-- A round that nothing disturbs succeeds. -/
theorem replayStep_of_admits {step : ExecutionStep} {result : RunResult} (run : Run)
    (hcalm : world.interrupted run.awaits = none)
    (hadmits : Unified.Admits auditors context (Engine.adapterName isolation step) step.command)
    (hresult : world.run run.invocations.length (Engine.adapterName isolation step) step.command
      context = .ok result) :
    replayStep auditors world isolation context step run =
      ({ run with
          ucer := { run.ucer with
            traces := run.ucer.traces ++
              [replayTraceOf (Engine.adapterName isolation step) step result] }
          invocations := run.invocations ++ [Engine.invocationOf isolation context step]
          awaits := run.awaits + 1 }, .ok ()) := by
  have hexecute := Unified.execute_of_admits world { run with awaits := run.awaits + 1 } hadmits
  dsimp only at hexecute
  rw [hresult] at hexecute
  simp [replayStep, Engine.awaitExecute, hcalm, hexecute, Engine.invocationOf]

/-- What the loop hands over, in any world: the steps in their order, none after one that
is not admitted. -/
theorem replaySteps_invocations (auditors : Auditors) (world : World) (isolation : Isolation)
    (context : ExecutionContext) (steps : List ExecutionStep) (run : Run) :
    ∃ handed, handed <+: Engine.admitted auditors isolation context steps ∧
      (replaySteps auditors world isolation context steps run).1.invocations =
        run.invocations ++ handed := by
  induction steps generalizing run with
  | nil => exact ⟨[], List.nil_prefix, by simp [replaySteps]⟩
  | cons step steps ih =>
      rw [replaySteps]
      obtain ⟨result, hadmits, _, h⟩ | ⟨handed, e, hover, h⟩ := replayStep_cases step run
      · rw [h, Engine.admitted_cons_of_admits steps hadmits]
        obtain ⟨rest, hpre, hrest⟩ := ih _
        refine ⟨_ :: rest, List.cons_prefix_cons.mpr ⟨rfl, hpre⟩, ?_⟩
        dsimp only
        rw [hrest]
        simp [Engine.invocationOf]
      · rw [h]
        exact ⟨handed, Engine.handsOver_isPrefix steps hover, rfl⟩

/-- In the calm world the loop hands over every step before the first one that is not
admitted. -/
theorem replaySteps_calm (steps : List ExecutionStep) (run : Run) :
    (replaySteps auditors Engine.calm isolation context steps run).1.invocations =
      run.invocations ++ Engine.admitted auditors isolation context steps := by
  induction steps generalizing run with
  | nil => simp [replaySteps, Engine.admitted]
  | cons step steps ih =>
      by_cases hadmits : Unified.Admits auditors context (Engine.adapterName isolation step)
          step.command
      · rw [replaySteps, replayStep_of_admits run rfl hadmits rfl,
          Engine.admitted_cons_of_admits steps hadmits]
        dsimp only
        rw [ih]
        simp [Engine.invocationOf]
      · obtain ⟨handed, hpre, hhanded⟩ :=
          replaySteps_invocations auditors Engine.calm isolation context (step :: steps) run
        rw [Engine.admitted_cons_of_not_admits steps hadmits] at hpre ⊢
        rw [hhanded, List.prefix_nil.mp hpre]

end Loop

namespace Facade

variable {stored : List UCER} {ucerId : String} {original : UCER}

theorem replayRecord_invocations (facade : Facade) (world : ReplayWorld) (original : UCER)
    (context : ExecutionContext) :
    (replayRecord facade world original context).1.invocations =
      (replaySteps facade.auditors world.toWorld (negotiateIsolation original) context
        original.steps { ucer := { original with traces := [], status := .running } }).1.invocations
      := by
  unfold replayRecord
  dsimp only
  rcases replaySteps facade.auditors world.toWorld (negotiateIsolation original) context
    original.steps { ucer := { original with traces := [], status := .running } } with ⟨run, e | _⟩
  · rfl
  · rfl

/-- **What a replay hands over**, in any world. -/
theorem replay_invocations (facade : Facade) (world : ReplayWorld)
    (context : Option ExecutionContext) (h : Ucser.getUcer stored ucerId = some original) :
    (replay facade world stored ucerId context).1 <+:
      Engine.admitted facade.auditors (negotiateIsolation original)
        (replayContext original context) original.steps := by
  unfold replay
  rw [h]
  cases world.getUcer with
  | some e => exact List.nil_prefix
  | none =>
      cases world.captureBackup with
      | some e => exact List.nil_prefix
      | none =>
          obtain ⟨handed, hpre, hhanded⟩ := replaySteps_invocations facade.auditors world.toWorld
            (negotiateIsolation original) (replayContext original context) original.steps
            { ucer := { original with traces := [], status := .running } }
          rw [← replayRecord_invocations, List.nil_append] at hhanded
          dsimp only
          cases world.restore with
          | some e => simpa [hhanded] using hpre
          | none => simpa [hhanded] using hpre

/-- The calm world, in which the snapshot is taken and restored. -/
def calmReplay : ReplayWorld := { Engine.calm with }

theorem replay_calm (facade : Facade) (context : Option ExecutionContext)
    (h : Ucser.getUcer stored ucerId = some original) :
    (replay facade calmReplay stored ucerId context).1 =
      Engine.admitted facade.auditors (negotiateIsolation original)
        (replayContext original context) original.steps := by
  have hinvocations := replayRecord_invocations facade calmReplay original
    (replayContext original context)
  have hcalm : calmReplay.toWorld = Engine.calm := rfl
  rw [hcalm, replaySteps_calm, List.nil_append] at hinvocations
  simp [replay, calmReplay, h, ← hinvocations]

end Facade

end Ucser
