import Ucser.Security.Policy

/-!
# The engine: `core/unified_executor.py` and `EngineMiddleware`

The engine takes the steps of a record one after another, hands each to the
`UnifiedExecutor`, inspects what came back, and reports every outcome on the bus.

* `World` — what the outside answers: files, the database, the adapters, the
  scheduler that may cancel a task, the clocks.
* `Run` — the shared record and what has been done to the outside so far.
* `Unified.execute` — the second gate and the table of adapters.
* `Engine.execStep`, `Engine.runSteps` — one round of the loop, and the loop.
* `Round`, `execStep_round` — **what one round can do**; every fact about the loop
  follows from it.
* `runSteps_frame`, `runSteps_invocations` — the loop touches nothing of the record but traces
  and status, saves nothing, and hands out a prefix of the steps the second gate admits.
-/

namespace Ucser

/-! ## The outside -/

/-- What an adapter's `run` returns; any key may be absent. -/
structure RunResult where
  stdout : Option String := none
  stderr : Option String := none
  exitCode : Option Int := none
  sideEffects : Option (List (String × Json.Value)) := none

/-- What becomes of a call of `save_ucer`. -/
inductive SaveOutcome where
  /-- It returns. -/
  | stored
  /-- It raises although the record has been stored. -/
  | storedThenRaised (e : PyError)
  /-- It raises and stores nothing. -/
  | raised (e : PyError)

/-- The answers of the outside, by the number of the call. -/
structure World where
  /-- The control plane's public key file may fail to be read. -/
  readPubKey : Option PyError := none
  /-- The public half of the ephemeral pair. -/
  generateKeyPair : String
  /-- A fresh execution identifier. -/
  uuid : String
  saveUcer : Nat → SaveOutcome
  run : Nat → Adapter → String → ExecutionContext → Except PyError RunResult
  /-- Is the task cancelled while it awaits the thread of a step, and has the thread run? -/
  interrupted : Nat → Option Bool
  /-- `duration_ms` of a step. -/
  duration : Nat → Json.Number
  /-- `time.time()` when an event is emitted. -/
  time : Nat → Json.Number

/-- A command handed to `adapters[adapter].run`. -/
structure Invocation where
  adapter : Adapter
  command : String
  context : ExecutionContext
  deriving DecidableEq

/-- The shared record, and what has been done to the outside so far. -/
structure Run where
  ucer : UCER
  /-- The records stored, oldest first. -/
  saved : List UCER := []
  /-- The calls of `save_ucer`. -/
  saves : Nat := 0
  /-- The commands handed to adapters. -/
  invocations : List Invocation := []
  /-- The threads awaited. -/
  awaits : Nat := 0
  /-- The telemetry events, in the order of their tasks. -/
  events : List Json.Value := []

/-- `ucer.status = …`. -/
def Run.setStatus (run : Run) (status : Status) : Run :=
  { run with ucer := { run.ucer with status := status } }

/-! ## The unified executor -/

namespace Unified

variable (auditors : Auditors)

/-- The auditors table of the facade. -/
def registered : Adapter → Option (String → AuditResult)
  | .powershell => some auditors.powershell
  | .ps => some auditors.powershell
  | .bash => some auditors.bash
  | .linux => some auditors.bash
  | .microvm => some auditors.bash
  | .python => none

/-- The keys of the adapters table of the facade. -/
def adapters : List Adapter := [.powershell, .ps, .bash, .linux, .microvm]

/-- `rewrite` of every auditor. -/
def rewrite (command : String) : String := command

/-- The temporary record around one command. -/
def tempUcer (uuid : String) (shell : Adapter) (command : String) : UCER where
  commandId := uuid
  intent := "unified_exec"
  steps := [{ stepId := uuid, adapter := shell, command := command }]

/-- `UnifiedExecutor.execute`. -/
def execute (world : World) (shell : Adapter) (command : String) (context : ExecutionContext)
    (run : Run) : Run × Except PyError RunResult :=
  if (registered auditors shell).isNone ∨ shell ∉ adapters then
    (run, .error (.valueError
      ("Unsupported shell or missing components for: " ++ shell.name)))
  else
    match (PolicyGate.evaluate auditors (tempUcer world.uuid shell command) (some context)).2 with
    | .error e => (run, .error e)
    | .ok () =>
        let auditedCommand := rewrite command
        ({ run with invocations := run.invocations ++ [⟨shell, auditedCommand, context⟩] },
          world.run run.invocations.length shell auditedCommand context)

/-- The executor hands a command over: its shell has both components and the gate
accepts the command under it. -/
def Admits (context : ExecutionContext) (shell : Adapter) (command : String) : Prop :=
  shell ∈ adapters ∧ .exec ∈ context.capabilities ∧
    ((PolicyGate.auditorOf auditors shell command).capabilities ⊆ context.capabilities ∧
      (PolicyGate.auditorOf auditors shell command).isSafe = true)

instance (context : ExecutionContext) (shell : Adapter) (command : String) :
    Decidable (Admits auditors context shell command) :=
  inferInstanceAs (Decidable (_ ∧ _ ∧ (_ ∧ _)))

variable {auditors}

theorem registered_isNone_iff {shell : Adapter} :
    (registered auditors shell).isNone ↔ shell ∉ adapters := by
  cases shell <;> simp [registered, adapters]

theorem gate_eq_ok_iff {uuid : String} {context : ExecutionContext} {shell : Adapter}
    {command : String} :
    (PolicyGate.evaluate auditors (tempUcer uuid shell command) (some context)).2 = .ok () ↔
      .exec ∈ context.capabilities ∧
        ((PolicyGate.auditorOf auditors shell command).capabilities ⊆ context.capabilities ∧
          (PolicyGate.auditorOf auditors shell command).isSafe = true) := by
  rw [PolicyGate.evaluate_eq_ok_iff]
  simp [PolicyGate.Accepts, PolicyGate.StepAllowed, PolicyGate.auditStep, tempUcer]

/-- A command that is admitted is handed over as it is. -/
theorem execute_of_admits (world : World) {shell : Adapter} {command : String}
    {context : ExecutionContext} (run : Run) (h : Admits auditors context shell command) :
    execute auditors world shell command context run =
      ({ run with invocations := run.invocations ++ [⟨shell, command, context⟩] },
        world.run run.invocations.length shell command context) := by
  have hshell : ¬ ((registered auditors shell).isNone ∨ shell ∉ adapters) := by
    rw [registered_isNone_iff, or_self]
    exact not_not.mpr h.1
  rw [execute, if_neg hshell, gate_eq_ok_iff.mpr h.2]
  rfl

/-- A command that is not admitted leaves everything as it was and raises. -/
theorem execute_of_not_admits (world : World) {shell : Adapter} {command : String}
    {context : ExecutionContext} (run : Run) (h : ¬ Admits auditors context shell command) :
    ∃ e, e.isException = true ∧
      execute auditors world shell command context run = (run, .error e) := by
  by_cases hshell : shell ∈ adapters
  · have hcomponents : ¬ ((registered auditors shell).isNone ∨ shell ∉ adapters) := by
      rw [registered_isNone_iff, or_self]
      exact not_not.mpr hshell
    cases hgate : (PolicyGate.evaluate auditors (tempUcer world.uuid shell command)
        (some context)).2 with
    | ok => exact absurd ⟨hshell, gate_eq_ok_iff.mp hgate⟩ h
    | error e =>
        obtain ⟨reason, rfl⟩ := PolicyGate.evaluate_error hgate
        exact ⟨_, rfl, by rw [execute, if_neg hcomponents, hgate]⟩
  · exact ⟨_, rfl, by rw [execute, if_pos (Or.inr hshell)]⟩

/-- What a call can hand over: nothing, or the command if it is admitted. -/
def HandsOver (auditors : Auditors) (context : ExecutionContext) (shell : Adapter)
    (command : String) (handed : List Invocation) : Prop :=
  handed = [] ∨ Admits auditors context shell command ∧ handed = [⟨shell, command, context⟩]

end Unified
/-! ## What is inspected -/

/-- Is the code point of a character in a range? -/
def inRange (low high : Nat) (c : Char) : Bool := low ≤ c.toNat && c.toNat ≤ high

/-- The length of the ANSI escape sequence a text starts with, zero if it starts with
none: ESC and one of `@`..`Z`, `\`..`_`, or ESC `[`, parameters `0`..`?`,
intermediates (blank to `/`) and a final character `@`..`~`. -/
def ansiLength (text : List Char) : Nat :=
  match text with
  | esc :: c :: rest =>
      if esc.toNat ≠ 0x1B then 0
      else if inRange 0x40 0x5A c || inRange 0x5C 0x5F c then 2
      else if c ≠ '[' then 0
      else
        let params := rest.takeWhile (inRange 0x30 0x3F)
        let after := rest.dropWhile (inRange 0x30 0x3F)
        let middle := after.takeWhile (inRange 0x20 0x2F)
        match after.dropWhile (inRange 0x20 0x2F) with
        | last :: _ => if inRange 0x40 0x7E last then params.length + middle.length + 3 else 0
        | [] => 0
  | _ => 0

/-- `ansi_escape.sub("", text)`, with the number of characters still to drop. -/
def dropAnsi (skip : Nat) : List Char → List Char
  | [] => []
  | c :: cs =>
      match skip with
      | skip + 1 => dropAnsi skip cs
      | 0 =>
          match ansiLength (c :: cs) with
          | 0 => c :: dropAnsi 0 cs
          | length + 1 => dropAnsi length cs

/-- `normalize_output`. -/
def normalizeOutput (text : String) : String :=
  String.ofList (Text.strip (dropAnsi 0 text.toList))

/-- `NetworkAuditor.get_audit_log`, which is a mock. -/
def getAuditLog (_executionId : String) : List String := []

/-- `sensitive_patterns`. -/
def sensitivePatterns : List String := ["password=", "secret=", "key=", "BEGIN RSA PRIVATE KEY"]

/-- `SecuritySentinel.inspect_trace`, for a network auditor. -/
def inspectTrace (auditLog : String → List String) (trace : ExecutionTrace)
    (context : ExecutionContext) : Bool :=
  if .network ∉ context.capabilities ∧ auditLog context.executionId ≠ [] then false
  else
    let output := Text.lower (trace.stdout ++ trace.stderr)
    sensitivePatterns.all (fun pattern => !Text.contains output pattern)

/-! ## The loop over the steps -/

/-- The two isolation levels. -/
inductive Isolation where
  | docker
  | microvm
  deriving DecidableEq, Repr

/-- `DistributedNodeManager.negotiate_isolation`. -/
def negotiateIsolation (ucer : UCER) : Isolation :=
  if (ucer.requiredCapabilities ∩ {.deleteRoot, .network}).Nonempty then .microvm else .docker

/-- The event of `emit_execution_metric`. -/
def executionMetric (ucerId : String) (adapter : Adapter) (durationMs : Json.Number)
    (success : Bool) (timestamp : Json.Number) : Json.Value :=
  .obj [("type", .str "execution_metric"), ("ucer_id", .str ucerId),
    ("adapter", .str adapter.name), ("duration_ms", .num durationMs),
    ("success", .bool success), ("timestamp", .num timestamp)]

/-- The literal `0.0`. -/
def zeroFloat : Json.Number := ⟨['0', '.', '0'], by decide, List.all_eq_true.mp rfl⟩

namespace Engine

variable (auditors : Auditors) (world : World)

/-- `asyncio.create_task(self.telemetry.emit_execution_metric(…))`. -/
def emit (adapter : Adapter) (durationMs : Json.Number) (success : Bool) (run : Run) : Run :=
  { run with events := run.events ++
      [executionMetric run.ucer.commandId adapter durationMs success
        (world.time run.events.length)] }

/-- The adapter a step goes to. -/
def adapterName (isolation : Isolation) (step : ExecutionStep) : Adapter :=
  match isolation with
  | .microvm => .microvm
  | .docker => step.adapter

/-- `await asyncio.to_thread(self.unified.execute, …)`.  A cancelled task raises
whether or not the thread gets to run. -/
def awaitExecute (context : ExecutionContext) (adapter : Adapter) (command : String) (run : Run) :
    Run × Except PyError RunResult :=
  let run' := { run with awaits := run.awaits + 1 }
  match world.interrupted run.awaits with
  | none => Unified.execute auditors world adapter command context run'
  | some false => (run', .error .cancelledError)
  | some true =>
      ((Unified.execute auditors world adapter command context run').1, .error .cancelledError)

/-- The trace of a step. -/
def traceOf (adapter : Adapter) (step : ExecutionStep) (result : RunResult) : ExecutionTrace where
  stepId := step.stepId
  adapter := adapter
  command := step.command
  stdout := normalizeOutput (result.stdout.getD "")
  stderr := normalizeOutput (result.stderr.getD "")
  exitCode := result.exitCode.getD (-1)
  sideEffects := result.sideEffects.getD []

/-- What is raised when the sentinel rejects a trace. -/
def sentinelError (step : ExecutionStep) : PyError :=
  .securityError ("Sentinel Blocked Execution at step " ++ step.stepId ++
    ": Behavioral Anomaly Detected.")

/-- The body of the `try` of a round: `true` goes on, `false` breaks. -/
def tryStep (isolation : Isolation) (context : ExecutionContext) (step : ExecutionStep)
    (run : Run) : Run × Except PyError Bool :=
  let adapter := adapterName isolation step
  match awaitExecute auditors world context adapter step.command run with
  | (run', .error e) => (run', .error e)
  | (run', .ok result) =>
      let trace := traceOf adapter step result
      if inspectTrace getAuditLog trace context = false then
        (run'.setStatus .failed, .error (sentinelError step))
      else
        let appended :=
          { run' with ucer := { run'.ucer with traces := run'.ucer.traces ++ [trace] } }
        if trace.exitCode ≠ 0 then (appended.setStatus .failed, .ok false)
        else (emit world adapter (world.duration run.awaits) true appended, .ok true)

/-- One round of the loop: the `try` and its `except Exception`. -/
def execStep (isolation : Isolation) (context : ExecutionContext) (step : ExecutionStep)
    (run : Run) : Run × Except PyError Bool :=
  match tryStep auditors world isolation context step run with
  | (run', .error e) =>
      if e.isException then
        (emit world (adapterName isolation step) zeroFloat false (run'.setStatus .failed),
          .error e)
      else (run', .error e)
  | (run', .ok goOn) => (run', .ok goOn)

/-- The loop over the steps. -/
def runSteps (isolation : Isolation) (context : ExecutionContext) :
    List ExecutionStep → Run → Run × Except PyError Unit
  | [], run => (run, .ok ())
  | step :: steps, run =>
      match execStep auditors world isolation context step run with
      | (run', .error e) => (run', .error e)
      | (run', .ok false) => (run', .ok ())
      | (run', .ok true) => runSteps isolation context steps run'

/-- `EngineMiddleware.process`. -/
def process (context : ExecutionContext) (run : Run) : Run × Except PyError Unit :=
  runSteps auditors world (negotiateIsolation run.ucer) context run.ucer.steps run

/-! ## What a round can do -/

/-- The record and the outside after a round: new status and traces, commands handed
over, events emitted. -/
def advance (run : Run) (status : Status) (traces : List ExecutionTrace)
    (handed : List Invocation) (emitted : List Json.Value) : Run :=
  { run with
    ucer := { run.ucer with status := status, traces := traces }
    invocations := run.invocations ++ handed
    awaits := run.awaits + 1
    events := run.events ++ emitted }

/-- The event a round emits. -/
def eventOf (run : Run) (isolation : Isolation) (step : ExecutionStep) (success : Bool) :
    Json.Value :=
  executionMetric run.ucer.commandId (adapterName isolation step)
    (if success then world.duration run.awaits else zeroFloat) success
    (world.time run.events.length)

/-- What awaiting the thread of a step can do: the command is handed over and the adapter
answers; or nothing but an exception comes back, a cancellation only if the task is
cancelled. -/
theorem awaitExecute_result (context : ExecutionContext) (adapter : Adapter) (command : String)
    (run : Run) :
    (Unified.Admits auditors context adapter command ∧
        awaitExecute auditors world context adapter command run =
          ({ run with
              invocations := run.invocations ++ [⟨adapter, command, context⟩]
              awaits := run.awaits + 1 },
            world.run run.invocations.length adapter command context)) ∨
      ∃ handed e, Unified.HandsOver auditors context adapter command handed ∧
        (e.isException = false → world.interrupted run.awaits ≠ none) ∧
        awaitExecute auditors world context adapter command run =
          ({ run with invocations := run.invocations ++ handed, awaits := run.awaits + 1 },
            .error e) := by
  unfold awaitExecute
  by_cases hadmits : Unified.Admits auditors context adapter command
  · have hexecute := Unified.execute_of_admits world { run with awaits := run.awaits + 1 } hadmits
    cases hint : world.interrupted run.awaits with
    | none => exact Or.inl ⟨hadmits, hexecute⟩
    | some ran =>
        right
        cases ran with
        | false => exact ⟨[], .cancelledError, Or.inl rfl, by simp, by simp⟩
        | true =>
            refine ⟨_, .cancelledError, Or.inr ⟨hadmits, rfl⟩, by simp, ?_⟩
            dsimp only
            rw [hexecute]
  · obtain ⟨e, he, hexecute⟩ :=
      Unified.execute_of_not_admits world { run with awaits := run.awaits + 1 } hadmits
    right
    cases hint : world.interrupted run.awaits with
    | none => exact ⟨[], e, Or.inl rfl, by simp [he], by simp [hexecute]⟩
    | some ran =>
        cases ran with
        | false => exact ⟨[], .cancelledError, Or.inl rfl, by simp, by simp⟩
        | true => exact ⟨[], .cancelledError, Or.inl rfl, by simp, by simp [hexecute]⟩

/-- **What one round can do**, with what the adapter answered.  It succeeds and says so; it
ends with a non-zero exit code and says nothing; it raises an exception and says so; it is
cancelled and says nothing. -/
inductive Round (isolation : Isolation) (context : ExecutionContext) (step : ExecutionStep)
    (run : Run) (outcome : Run × Except PyError Bool) : Prop where
  | success (result : RunResult)
      (hadmits : Unified.Admits auditors context (adapterName isolation step) step.command)
      (hresult : world.run run.invocations.length (adapterName isolation step) step.command
        context = .ok result)
      (hexit : (traceOf (adapterName isolation step) step result).exitCode = 0)
      (heq : outcome =
        (advance run run.ucer.status
          (run.ucer.traces ++ [traceOf (adapterName isolation step) step result])
          [⟨adapterName isolation step, step.command, context⟩]
          [eventOf world run isolation step true], .ok true))
  | exitCode (result : RunResult)
      (hadmits : Unified.Admits auditors context (adapterName isolation step) step.command)
      (hresult : world.run run.invocations.length (adapterName isolation step) step.command
        context = .ok result)
      (hexit : (traceOf (adapterName isolation step) step result).exitCode ≠ 0)
      (heq : outcome =
        (advance run .failed
          (run.ucer.traces ++ [traceOf (adapterName isolation step) step result])
          [⟨adapterName isolation step, step.command, context⟩] [], .ok false))
  | raised (handed : List Invocation) (e : PyError)
      (hover : Unified.HandsOver auditors context (adapterName isolation step) step.command
        handed)
      (he : e.isException = true)
      (heq : outcome =
        (advance run .failed run.ucer.traces handed [eventOf world run isolation step false],
          .error e))
  | cancelled (handed : List Invocation) (e : PyError)
      (hover : Unified.HandsOver auditors context (adapterName isolation step) step.command
        handed)
      (he : e.isException = false)
      (hwhy : world.interrupted run.awaits ≠ none ∨
        world.run run.invocations.length (adapterName isolation step) step.command context =
          .error e)
      (heq : outcome = (advance run run.ucer.status run.ucer.traces handed [], .error e))

theorem execStep_round (isolation : Isolation) (context : ExecutionContext)
    (step : ExecutionStep) (run : Run) :
    Round auditors world isolation context step run
      (execStep auditors world isolation context step run) := by
  -- an error of the awaited thread is emitted if `except Exception` catches it
  have herror : ∀ handed e,
      Unified.HandsOver auditors context (adapterName isolation step) step.command handed →
      (e.isException = false → world.interrupted run.awaits ≠ none ∨
        world.run run.invocations.length (adapterName isolation step) step.command context =
          .error e) →
      awaitExecute auditors world context (adapterName isolation step) step.command run =
        ({ run with invocations := run.invocations ++ handed, awaits := run.awaits + 1 },
          .error e) →
      Round auditors world isolation context step run
        (execStep auditors world isolation context step run) := by
    intro handed e hover hwhy hawait
    cases he : e.isException with
    | true =>
        refine .raised handed e hover he ?_
        simp only [execStep, tryStep, hawait, he, if_true]
        rfl
    | false =>
        refine .cancelled handed e hover he (hwhy he) ?_
        simp [execStep, tryStep, hawait, he, advance]
  obtain ⟨hadmits, hawait⟩ | ⟨handed, e, hover, hwhy, hawait⟩ :=
    awaitExecute_result auditors world context (adapterName isolation step) step.command run
  · cases hresult : world.run run.invocations.length (adapterName isolation step) step.command
        context with
    | error e =>
        rw [hresult] at hawait
        exact herror _ e (Or.inr ⟨hadmits, rfl⟩) (fun _ => Or.inr hresult) hawait
    | ok result =>
        rw [hresult] at hawait
        by_cases hinspect :
            inspectTrace getAuditLog (traceOf (adapterName isolation step) step result) context =
              false
        · refine .raised _ (sentinelError step) (Or.inr ⟨hadmits, rfl⟩) rfl ?_
          simp only [execStep, tryStep, hawait, hinspect, sentinelError, PyError.isException,
            if_true]
          rfl
        · by_cases hexit : (traceOf (adapterName isolation step) step result).exitCode = 0
          · refine .success result hadmits hresult hexit ?_
            simp only [execStep, tryStep, hawait, hinspect, hexit, ne_eq, not_true_eq_false,
              if_false]
            rfl
          · refine .exitCode result hadmits hresult hexit ?_
            simp [execStep, tryStep, hawait, hinspect, hexit, advance, Run.setStatus]
  · exact herror handed e hover (fun he => Or.inl (hwhy he)) hawait

/-- What one round can do, whatever the adapter answered.  Only a command that is admitted
is handed over, and a round that does not raise has handed its command over. -/
theorem execStep_cases (isolation : Isolation) (context : ExecutionContext) (step : ExecutionStep)
    (run : Run) :
    ∃ handed traces,
      Unified.HandsOver auditors context (adapterName isolation step) step.command handed ∧
      (handed ≠ [] ∧ execStep auditors world isolation context step run =
          (advance run run.ucer.status traces handed [eventOf world run isolation step true],
            .ok true) ∨
        handed ≠ [] ∧ execStep auditors world isolation context step run =
          (advance run .failed traces handed [], .ok false) ∨
        (∃ e, e.isException = true ∧ execStep auditors world isolation context step run =
          (advance run .failed traces handed [eventOf world run isolation step false],
            .error e)) ∨
        ∃ e, e.isException = false ∧ execStep auditors world isolation context step run =
          (advance run run.ucer.status traces handed [], .error e)) := by
  cases execStep_round auditors world isolation context step run with
  | success result hadmits _ _ heq =>
      exact ⟨_, _, Or.inr ⟨hadmits, rfl⟩, Or.inl ⟨List.cons_ne_nil _ _, heq⟩⟩
  | exitCode result hadmits _ _ heq =>
      exact ⟨_, _, Or.inr ⟨hadmits, rfl⟩, Or.inr (Or.inl ⟨List.cons_ne_nil _ _, heq⟩)⟩
  | raised handed e hover he heq =>
      exact ⟨_, _, hover, Or.inr (Or.inr (Or.inl ⟨e, he, heq⟩))⟩
  | cancelled handed e hover he _ heq =>
      exact ⟨_, _, hover, Or.inr (Or.inr (Or.inr ⟨e, he, heq⟩))⟩

/-! ## What the loop can do -/

/-- The loop touches nothing of the record but its status and traces, and saves nothing. -/
theorem runSteps_frame (isolation : Isolation) (context : ExecutionContext)
    (steps : List ExecutionStep) (run : Run) :
    ∃ status traces,
      (runSteps auditors world isolation context steps run).1.ucer =
        { run.ucer with status := status, traces := traces } ∧
      (runSteps auditors world isolation context steps run).1.saved = run.saved ∧
      (runSteps auditors world isolation context steps run).1.saves = run.saves := by
  induction steps generalizing run with
  | nil => exact ⟨run.ucer.status, run.ucer.traces, rfl, rfl, rfl⟩
  | cons step steps ih =>
      rw [runSteps]
      obtain ⟨handed, traces, _, ⟨_, h⟩ | ⟨_, h⟩ | ⟨e, _, h⟩ | ⟨e, _, h⟩⟩ :=
        execStep_cases auditors world isolation context step run
      · obtain ⟨status, traces, hucer, hsaved, hsaves⟩ := ih (advance run run.ucer.status traces
          handed [eventOf world run isolation step true])
        rw [h]
        exact ⟨status, traces, hucer, hsaved, hsaves⟩
      · rw [h]
        exact ⟨.failed, traces, rfl, rfl, rfl⟩
      · rw [h]
        exact ⟨.failed, traces, rfl, rfl, rfl⟩
      · rw [h]
        exact ⟨run.ucer.status, traces, rfl, rfl, rfl⟩

/-- The steps before the first one that is not admitted, as they would be handed over. -/
def admitted (isolation : Isolation) (context : ExecutionContext) (steps : List ExecutionStep) :
    List Invocation :=
  (steps.takeWhile (fun step =>
    decide (Unified.Admits auditors context (adapterName isolation step) step.command))).map
      (fun step => ⟨adapterName isolation step, step.command, context⟩)

variable {auditors}

theorem admitted_cons_of_admits {isolation : Isolation} {context : ExecutionContext}
    {step : ExecutionStep} (steps : List ExecutionStep)
    (h : Unified.Admits auditors context (adapterName isolation step) step.command) :
    admitted auditors isolation context (step :: steps) =
      ⟨adapterName isolation step, step.command, context⟩ ::
        admitted auditors isolation context steps := by
  rw [admitted, List.takeWhile_cons, if_pos (by simpa using h)]
  rfl

theorem admitted_cons_of_not_admits {isolation : Isolation} {context : ExecutionContext}
    {step : ExecutionStep} (steps : List ExecutionStep)
    (h : ¬ Unified.Admits auditors context (adapterName isolation step) step.command) :
    admitted auditors isolation context (step :: steps) = [] := by
  rw [admitted, List.takeWhile_cons, if_neg (by simpa using h)]
  rfl

theorem handsOver_isPrefix {isolation : Isolation} {context : ExecutionContext}
    {step : ExecutionStep} (steps : List ExecutionStep) {handed : List Invocation}
    (h : Unified.HandsOver auditors context (adapterName isolation step) step.command handed) :
    handed <+: admitted auditors isolation context (step :: steps) := by
  obtain rfl | ⟨hadmits, rfl⟩ := h
  · exact List.nil_prefix
  · rw [admitted_cons_of_admits steps hadmits]
    exact ⟨_, rfl⟩

/-- **What the loop hands over**, in any world: the steps in their order, none after
one that is not admitted. -/
theorem runSteps_invocations (auditors : Auditors) (world : World) (isolation : Isolation)
    (context : ExecutionContext) (steps : List ExecutionStep) (run : Run) :
    ∃ handed, handed <+: admitted auditors isolation context steps ∧
      (runSteps auditors world isolation context steps run).1.invocations =
        run.invocations ++ handed := by
  induction steps generalizing run with
  | nil => exact ⟨[], List.nil_prefix, by simp [runSteps]⟩
  | cons step steps ih =>
      rw [runSteps]
      obtain ⟨handed, traces, hover, ⟨hne, h⟩ | ⟨_, h⟩ | ⟨e, _, h⟩ | ⟨e, _, h⟩⟩ :=
        execStep_cases auditors world isolation context step run
      · -- the round went on, so it has handed its command over
        obtain hnil | ⟨hadmits, rfl⟩ := hover
        · exact absurd hnil hne
        · obtain ⟨rest, hpre, hrest⟩ := ih (advance run run.ucer.status traces
            [⟨adapterName isolation step, step.command, context⟩]
            [eventOf world run isolation step true])
          rw [h, admitted_cons_of_admits steps hadmits]
          refine ⟨⟨adapterName isolation step, step.command, context⟩ :: rest,
            List.cons_prefix_cons.mpr ⟨rfl, hpre⟩, ?_⟩
          dsimp only
          rw [hrest]
          simp [advance]
      · rw [h]
        exact ⟨handed, handsOver_isPrefix steps hover, rfl⟩
      · rw [h]
        exact ⟨handed, handsOver_isPrefix steps hover, rfl⟩
      · rw [h]
        exact ⟨handed, handsOver_isPrefix steps hover, rfl⟩

/-! ## A world in which nothing goes wrong -/

/-- Every command exits with code zero and prints nothing, nothing is cancelled, the
key is read and every save stored. -/
def calm : World where
  generateKeyPair := "key"
  uuid := "id"
  saveUcer _ := .stored
  run _ _ _ _ := .ok { exitCode := some 0 }
  interrupted _ := none
  duration _ := zeroFloat
  time _ := zeroFloat

theorem normalizeOutput_empty : normalizeOutput "" = "" := by decide

theorem inspectTrace_silent (adapter : Adapter) (step : ExecutionStep) (exitCode : Int)
    (context : ExecutionContext) :
    inspectTrace getAuditLog (traceOf adapter step { exitCode := some exitCode }) context =
      true := by
  have hclean : sensitivePatterns.all (fun pattern =>
      !Text.contains (Text.lower ("" ++ "")) pattern) = true := by decide
  unfold inspectTrace
  rw [if_neg (fun h => h.2 rfl)]
  show sensitivePatterns.all (fun pattern =>
    !Text.contains (Text.lower (normalizeOutput "" ++ normalizeOutput "")) pattern) = true
  rw [normalizeOutput_empty]
  exact hclean

/-- In the calm world a round whose step is admitted succeeds. -/
theorem execStep_calm {isolation : Isolation} {context : ExecutionContext} {step : ExecutionStep}
    (run : Run)
    (h : Unified.Admits auditors context (adapterName isolation step) step.command) :
    execStep auditors calm isolation context step run =
      (advance run run.ucer.status
        (run.ucer.traces ++ [traceOf (adapterName isolation step) step { exitCode := some 0 }])
        [⟨adapterName isolation step, step.command, context⟩]
        [eventOf calm run isolation step true], .ok true) := by
  have hawait : awaitExecute auditors calm context (adapterName isolation step) step.command run =
      ({ run with
          invocations := run.invocations ++ [⟨adapterName isolation step, step.command, context⟩]
          awaits := run.awaits + 1 }, .ok { exitCode := some 0 }) :=
    Unified.execute_of_admits calm { run with awaits := run.awaits + 1 } h
  have hexit : (traceOf (adapterName isolation step) step { exitCode := some 0 }).exitCode = 0 :=
    rfl
  simp only [execStep, tryStep, hawait, inspectTrace_silent, hexit, ne_eq, not_true_eq_false,
    Bool.true_eq_false, if_false]
  rfl

/-- In the calm world the loop hands over every step before the first one that is not
admitted. -/
theorem runSteps_calm (isolation : Isolation) (context : ExecutionContext)
    (steps : List ExecutionStep) (run : Run) :
    (runSteps auditors calm isolation context steps run).1.invocations =
      run.invocations ++ admitted auditors isolation context steps := by
  induction steps generalizing run with
  | nil => simp [runSteps, admitted]
  | cons step steps ih =>
      by_cases hadmits : Unified.Admits auditors context (adapterName isolation step) step.command
      · rw [runSteps, execStep_calm run hadmits, admitted_cons_of_admits steps hadmits]
        dsimp only
        rw [ih]
        simp [advance]
      · obtain ⟨handed, hpre, hhanded⟩ :=
          runSteps_invocations auditors calm isolation context (step :: steps) run
        rw [admitted_cons_of_not_admits steps hadmits] at hpre ⊢
        rw [hhanded, List.prefix_nil.mp hpre]

/-- In the calm world the loop returns when every step is admitted. -/
theorem runSteps_calm_ok {isolation : Isolation} {context : ExecutionContext}
    {steps : List ExecutionStep} (run : Run)
    (h : ∀ step ∈ steps,
      Unified.Admits auditors context (adapterName isolation step) step.command) :
    (runSteps auditors calm isolation context steps run).2 = .ok () := by
  induction steps generalizing run with
  | nil => rfl
  | cons step steps ih =>
      obtain ⟨hstep, hrest⟩ := List.forall_mem_cons.mp h
      rw [runSteps, execStep_calm run hstep]
      exact ih _ hrest

end Engine
end Ucser
