import Ucser.Core.ReplayTrust
import Ucser.Security.PsDaemon

/-!
# The background task of the API: `execute_workflow_task` in `api/rest_server.py`

The task builds a record of one step, has the facade execute it, and publishes what has
become of it.  Where the execution raises, it makes up a trace and publishes that.

* `WorkflowTask`, `ApiWorld`, `Event`, `Row` — the task, what it takes from the outside, what
  goes to the dashboard and into the database.
* `executeWorkflowTask` — the task; `forged` is the record of its fallback.
* `executeUcer_commandId`, `Refused.saved` — what a refused call leaves: a record of the same
  identifier, and nothing completed in the database.
* `refusalsKept_iff` — **when a refusal stays one**: when nothing is refused, or when the
  database refuses the made-up record.
-/

namespace Ucser

/-! ## The task -/

/-- The arguments of `execute_workflow_task`. -/
structure WorkflowTask where
  intent : String
  command : String
  commandId : String
  isViolation : Bool := false
  isPowershell : Bool := false

/-- What the task takes from the outside. -/
structure ApiWorld where
  world : World
  /-- The default of `step_id`. -/
  stepId : String
  /-- The default of `timestamp`. -/
  timestamp : Int
  /-- `uuid.uuid4().hex[:16]`. -/
  hex : Nat → String
  modelDumpJson : UCER → String
  /-- `str(e)`. -/
  str : PyError → String

/-- The text of a status. -/
def Status.text : Status → String
  | pending => "pending"
  | running => "running"
  | completed => "completed"
  | failed => "failed"

/-- A record in the database or in an event.  Its status is any text there: the task writes
`blocked`, which the executor does not know. -/
structure Row where
  ucer : UCER
  status : String

/-- The record as the executor leaves it. -/
def UCER.row (ucer : UCER) : Row := ⟨ucer, ucer.status.text⟩

/-- What is put into the event queue. -/
inductive Event where
  | log (message level : String)
  | auditBlocked (reason : String) (row : Row)
  | auditComplete (row : Row)

/-- What a task has stored, and what it has published. -/
structure TaskOutcome where
  stored : List Row
  events : List Event

namespace Api

variable (facade : Facade) (api : ApiWorld) (task : WorkflowTask)

/-- The adapter of the step. -/
def adapter : Adapter := if task.isPowershell then .powershell else .bash

/-- The record of the task. -/
def initialUcer : UCER where
  commandId := task.commandId
  timestamp := api.timestamp
  intent := task.intent
  steps := [{ stepId := api.stepId, adapter := adapter task, command := task.command }]

/-- Its context. -/
def contextOf : ExecutionContext where
  executionId := task.commandId
  capabilities := if task.isPowershell then {.fsRead, .exec, .writeFs} else {.fsRead, .exec}

/-- `await executor.execute_ucer(ucer, context)`. -/
def execution : Run × Except PyError Unit :=
  facade.executeUcer api.world (initialUcer api task) (some (contextOf task)) none

/-- The lines of the log before the policy is looked at. -/
def opening : List Event :=
  [.log ("Parsing natural language intent: '" ++ task.intent ++ "'") "info",
    .log ("Compiled to UCER shell command: " ++ task.command) "info",
    .log "Evaluating security policy gate..." "info"]

/-- The lines before the execution. -/
def preparing : List Event :=
  [.log "AST Audit PASSED. No forbidden cmdlets or dangerous flags detected." "info",
    .log ("Spawning child isolated sandbox for adapter: " ++ (adapter task).name ++ "...") "info"]

/-- The outer `except Exception as e`. -/
def orchestrationError (e : PyError) : List Event :=
  if e.isException then [.log ("Orchestration Error: " ++ api.str e) "alert"] else []

/-- Why a task marked as a violation is blocked. -/
def blockedReason : String :=
  "Security Gate Blocked Execution: Command '" ++ task.command ++
    "' violates ISO 27001 policy. Use of forbidden binary 'rm' is restricted."

/-- The record of such a task. -/
def blockedRow : Row where
  ucer :=
    { commandId := task.commandId
      timestamp := api.timestamp
      intent := task.intent
      steps := [{ stepId := api.stepId, adapter := .bash, command := task.command }]
      controlSignature := some ("sig_block_err_" ++ api.hex 0) }
  status := "blocked"

/-- The task where it is marked as a violation. -/
def violation : TaskOutcome :=
  let logged := opening task ++
    [.log "AST Audit detected forbidden command: 'rm'" "warn", .log (blockedReason task) "alert"]
  match api.world.saveUcer 0 with
  | .stored =>
      ⟨[blockedRow api task], logged ++ [.auditBlocked (blockedReason task) (blockedRow api task)]⟩
  | .storedThenRaised e => ⟨[blockedRow api task], logged ++ orchestrationError api e⟩
  | .raised e => ⟨[], logged ++ orchestrationError api e⟩

/-- What the fallback says the command printed. -/
def mockStdout : String :=
  if task.isPowershell then
    "Handles  NPM(K)    PM(K)      WS(K)     CPU(s)     Id  SI ProcessName\n" ++
    "-------  ------    -----      -----     ------     --  -- -----------\n" ++
    "    312      19     4320       9540       0.12    405   1 pwsh\n" ++
    "    512      32    12540      24120       1.45   1204   1 uvicorn\n" ++
    "    145      12     1850       4510       0.05   3904   1 conhost"
  else "Promoted workspace path runtime_space/job_1.log"

/-- The trace that is made up; the record has one step. -/
def mockTrace (ucer : UCER) : ExecutionTrace where
  stepId := (ucer.steps.head?.map ExecutionStep.stepId).getD ""
  adapter := adapter task
  command := task.command
  stdout := mockStdout task
  stderr := ""
  exitCode := 0

/-- The record with the made-up trace. -/
def simulated (ucer : UCER) : UCER :=
  { ucer with traces := ucer.traces ++ [mockTrace task ucer], status := .completed }

/-- The record the fallback saves: hashed as it is, with made-up signatures. -/
def forged (ucer : UCER) : UCER :=
  { simulated task ucer with
    stateHash :=
      some (facade.crypto.sha256 (Text.utf8 (api.modelDumpJson (simulated task ucer))))
    controlSignature := some ("sig_valid_" ++ api.hex 0)
    executionSignature := some ("sig_exec_" ++ api.hex 1)
    executionPubKey := some ("pub_key_" ++ api.hex 2) }

/-- The fallback, on the record as the execution left it. -/
def fallback (run : Run) : TaskOutcome :=
  let logged := opening task ++ preparing task ++
    [.log ("Docker sandbox or Powershell environment not available. " ++
      "Falling back to secure simulated telemetry...") "warn"]
  let saved := saveUcer api.world { run with ucer := forged facade api task run.ucer }
  match saved.2 with
  | .ok () =>
      ⟨saved.1.saved.map UCER.row,
        logged ++ [.log "Execution trace generated and signed. State promoted." "info",
          .auditComplete saved.1.ucer.row]⟩
  | .error e => ⟨saved.1.saved.map UCER.row, logged ++ orchestrationError api e⟩

/-- `execute_workflow_task`. -/
def executeWorkflowTask : TaskOutcome :=
  if task.isViolation then violation api task
  else
    match execution facade api task with
    | (run, .ok ()) =>
        ⟨run.saved.map UCER.row, opening task ++ preparing task ++
          [.log ("Execution completed. Status: " ++ run.ucer.status.text) "info",
            .auditComplete run.ucer.row]⟩
    | (run, .error e) =>
        if e.isException then fallback facade api task run
        else ⟨run.saved.map UCER.row, opening task ++ preparing task⟩

/-! ## Refusals -/

/-- `PermissionError` or `SecurityError`. -/
def isRefusal : PyError → Bool
  | .permissionError _ => true
  | .securityError _ => true
  | _ => false

/-- The execution refuses the record: it raises one of the two, and not because a save, the
reading of the key or an adapter that was called has raised it. -/
def Refused : Prop :=
  ∃ e, (execution facade api task).2 = .error e ∧ isRefusal e = true ∧
    (∀ n < (execution facade api task).1.saves, api.world.saveUcer n = .stored) ∧
    api.world.readPubKey ≠ some e ∧
    ∀ n call, (execution facade api task).1.invocations[n]? = some call →
      api.world.run n call.adapter call.command call.context ≠ .error e

/-- A refused task leaves no completed record of its command, and is not published as
complete. -/
def RefusalsKept : Prop :=
  task.isViolation = false → Refused facade api task →
    (∀ row ∈ (executeWorkflowTask facade api task).stored,
      row.ucer.commandId = task.commandId → row.status ≠ "completed") ∧
    ∀ row, .auditComplete row ∈ (executeWorkflowTask facade api task).events →
      row.ucer.commandId ≠ task.commandId

/-! ## What a call leaves of the record -/

/-- A handler that leaves the identifier of the record alone. -/
def KeepsId (handler : PipelineHandler) : Prop :=
  ∀ context run, (handler context run).1.ucer.commandId = run.ucer.commandId

section KeepsId

variable {next : PipelineHandler} {world : World}

theorem keepsId_crypto (h : KeepsId next) (crypto : Crypto) (publicKey privateKey : String) :
    KeepsId (CryptoMiddleware.process crypto publicKey privateKey world next) := by
  intro context run
  unfold CryptoMiddleware.process
  cases world.readPubKey with
  | some e => rfl
  | none =>
      dsimp only
      split_ifs
      · match run.ucer.verifyIntegrity crypto publicKey with
        | .error e => rfl
        | .ok false => rfl
        | .ok true => exact h context _
      · exact h context _

theorem keepsId_policy (h : KeepsId next) (auditors : Auditors) :
    KeepsId (PolicyMiddleware.process auditors next) := by
  intro context run
  obtain ⟨caps, hcaps⟩ := PolicyGate.evaluate_record auditors run.ucer context none
  unfold PolicyMiddleware.process
  rcases hgate : PolicyGate.evaluate auditors run.ucer (some context) none with ⟨ucer, e | _⟩
  · rw [hgate] at hcaps
    dsimp only at hcaps ⊢
    rw [hcaps]
  · rw [hgate] at hcaps
    dsimp only at hcaps ⊢
    rw [h, hcaps]

theorem saveUcer_ucer (world : World) (run : Run) : (saveUcer world run).1.ucer = run.ucer := by
  unfold saveUcer
  cases world.saveUcer run.saves <;> rfl

theorem keepsId_persistence (h : KeepsId next) :
    KeepsId (PersistenceMiddleware.process world next) := by
  intro context run
  obtain ⟨e, heq⟩ | heq := PersistenceMiddleware.process_cases world next context run
  · rw [heq, saveUcer_ucer]
    rfl
  · obtain ⟨status, hsettle⟩ :=
      Facade.settle_ucer (next context (PersistenceMiddleware.started run))
    have hfinally : ∀ outcome : Run × Except PyError Unit,
        (PersistenceMiddleware.finallySave world outcome).1.ucer = outcome.1.ucer := by
      intro outcome
      rw [← saveUcer_ucer world outcome.1]
      unfold PersistenceMiddleware.finallySave
      rcases saveUcer world outcome.1 with ⟨run', _ | _⟩ <;> rfl
    rw [heq, hfinally, hsettle]
    exact h context (PersistenceMiddleware.started run)

theorem keepsId_engine (auditors : Auditors) : KeepsId (Engine.process auditors world) := by
  intro context run
  obtain ⟨status, traces, hucer, _⟩ := Engine.runSteps_frame auditors world
    (negotiateIsolation run.ucer) context run.ucer.steps run
  rw [Engine.process, hucer]

end KeepsId

/-- Whatever becomes of a call, the record keeps its identifier. -/
theorem executeUcer_commandId (facade : Facade) (world : World) (ucer : UCER)
    (context : Option ExecutionContext) (allowedCaps : Option (Finset Capability)) :
    (facade.executeUcer world ucer context allowedCaps).1.ucer.commandId = ucer.commandId := by
  have hpipeline : KeepsId (facade.pipelineProcess world) :=
    keepsId_crypto (keepsId_policy (keepsId_persistence (keepsId_engine _)) _) _ _ _
  exact hpipeline _ _

theorem saves_saveUcer (world : World) (run : Run) :
    (saveUcer world run).1.saves = run.saves + 1 := by
  unfold saveUcer
  cases world.saveUcer run.saves <;> rfl

theorem saveUcer_of_stored {world : World} {run : Run}
    (h : world.saveUcer run.saves = .stored) :
    saveUcer world run =
      ({ run with saves := run.saves + 1, saved := run.saved ++ [run.ucer] }, .ok ()) := by
  rw [saveUcer, h]

theorem saves_finallySave (world : World) (outcome : Run × Except PyError Unit) :
    (PersistenceMiddleware.finallySave world outcome).1.saves = outcome.1.saves + 1 := by
  rw [← saves_saveUcer world outcome.1, PersistenceMiddleware.finallySave]
  rcases saveUcer world outcome.1 with ⟨run, e | _⟩ <;> rfl

/-- A save that returns leaves the outcome of the `try`. -/
theorem finallySave_of_stored {world : World} {outcome : Run × Except PyError Unit}
    (h : world.saveUcer outcome.1.saves = .stored) :
    PersistenceMiddleware.finallySave world outcome =
      ({ outcome.1 with
          saves := outcome.1.saves + 1
          saved := outcome.1.saved ++ [outcome.1.ucer] }, outcome.2) := by
  rw [PersistenceMiddleware.finallySave, saveUcer_of_stored h]

/-- An exception stays the outcome, and the record fails. -/
theorem settle_of_error {run : Run} {e e' : PyError} (hexception : e.isException = true)
    (h : (PersistenceMiddleware.settle (run, .error e')).2 = .error e) :
    (PersistenceMiddleware.settle (run, .error e')).1 = run.setStatus .failed := by
  have he : e' = e := by
    unfold PersistenceMiddleware.settle at h
    dsimp only at h
    split_ifs at h <;> exact Except.error.inj h
  rw [PersistenceMiddleware.settle, he, if_pos hexception]

/-- What an execution has saved that raises although every save returned: the record as it
starts, and as it fails. -/
theorem saved_of_raised {world : World} {next : PipelineHandler} {context : ExecutionContext}
    {run : Run} {e : PyError} (hrun : run.saved = [])
    (hnext : (next context (PersistenceMiddleware.started run)).1.saved =
      (PersistenceMiddleware.started run).saved)
    (herror : (PersistenceMiddleware.process world next context run).2 = .error e)
    (hexception : e.isException = true)
    (hsaves : ∀ n < (PersistenceMiddleware.process world next context run).1.saves,
      world.saveUcer n = .stored) :
    ∀ record ∈ (PersistenceMiddleware.process world next context run).1.saved,
      record.status ≠ .completed := by
  obtain ⟨e', heq⟩ | heq := PersistenceMiddleware.process_cases world next context run
  · -- the first save is the only one
    have hstored : world.saveUcer (PersistenceMiddleware.start run).saves = .stored := by
      apply hsaves
      rw [heq, saves_saveUcer]
      exact Nat.lt_succ_self _
    rw [heq, saveUcer_of_stored hstored]
    simp [PersistenceMiddleware.start, hrun]
  · rcases houtcome : next context (PersistenceMiddleware.started run) with ⟨run', result⟩
    rw [houtcome] at hnext heq
    dsimp only at hnext
    have hstored : world.saveUcer (PersistenceMiddleware.settle (run', result)).1.saves =
        .stored := by
      apply hsaves
      rw [heq, saves_finallySave]
      exact Nat.lt_succ_self _
    rw [heq, finallySave_of_stored hstored] at herror ⊢
    cases result with
    | ok u => exact absurd herror (by simp [PersistenceMiddleware.settle])
    | error e' =>
        rw [settle_of_error hexception herror]
        simp [Run.setStatus, hnext, PersistenceMiddleware.started, PersistenceMiddleware.start,
          hrun]

/-- A call that is refused has saved nothing that is completed. -/
theorem Refused.saved {facade : Facade} {api : ApiWorld} {task : WorkflowTask}
    (h : Refused facade api task) :
    ∀ record ∈ (execution facade api task).1.saved, record.status ≠ .completed := by
  obtain ⟨e, herror, hrefusal, hsaves, _⟩ := h
  have hexception : e.isException = true := by
    cases e <;> simp_all [isRefusal, PyError.isException]
  unfold execution at herror hsaves ⊢
  by_cases haccepts : api.world.readPubKey = none ∧
      Facade.Accepts facade (initialUcer api task)
        (Facade.activeCapabilities (some (contextOf task)) none)
  · rw [Facade.executeUcer_of_accepts haccepts.1 haccepts.2] at herror hsaves ⊢
    obtain ⟨status, traces, _, hframe, _⟩ := Engine.runSteps_frame facade.auditors api.world
      (negotiateIsolation (PersistenceMiddleware.started
        { ucer := Facade.gated facade api.world (initialUcer api task) }).ucer)
      (Facade.activeContext api.world (some (contextOf task)) none)
      (PersistenceMiddleware.started
        { ucer := Facade.gated facade api.world (initialUcer api task) }).ucer.steps
      (PersistenceMiddleware.started
        { ucer := Facade.gated facade api.world (initialUcer api task) })
    exact saved_of_raised rfl hframe herror hexception hsaves
  · obtain ⟨ucer', e', hrefused⟩ := Facade.executeUcer_of_refused haccepts
    rw [hrefused]
    simp

/-! ## When a refusal stays one -/

theorem text_ne_completed {status : Status} (h : status ≠ .completed) :
    status.text ≠ "completed" := by
  cases status <;> simp_all [Status.text]

section Kept

variable {facade : Facade} {api : ApiWorld} {task : WorkflowTask}

/-- A refusal ends in the fallback. -/
theorem executeWorkflowTask_of_refused (hviolation : task.isViolation = false)
    (h : Refused facade api task) :
    executeWorkflowTask facade api task =
      fallback facade api task (execution facade api task).1 := by
  obtain ⟨e, herror, hrefusal, _⟩ := h
  have hexception : e.isException = true := by
    cases e <;> simp_all [isRefusal, PyError.isException]
  rcases hexecution : execution facade api task with ⟨run, result⟩
  rw [hexecution] at herror
  dsimp only at herror
  rw [executeWorkflowTask, hviolation, hexecution, herror]
  simp [hexception]

/-- The made-up record has the identifier of the task. -/
theorem forged_commandId :
    (forged facade api task (execution facade api task).1.ucer).commandId = task.commandId :=
  executeUcer_commandId facade api.world (initialUcer api task) (some (contextOf task)) none

/-- Where the database does not refuse it, the made-up record is stored as completed. -/
theorem not_kept_of_stored (hviolation : task.isViolation = false)
    (h : Refused facade api task)
    (hsave : ∀ e, api.world.saveUcer (execution facade api task).1.saves ≠ .raised e) :
    ¬ RefusalsKept facade api task := by
  intro hkept
  obtain ⟨hstored, _⟩ := hkept hviolation h
  rw [executeWorkflowTask_of_refused hviolation h] at hstored
  refine hstored (forged facade api task (execution facade api task).1.ucer).row ?_
    forged_commandId rfl
  unfold fallback saveUcer
  cases houtcome : api.world.saveUcer (execution facade api task).1.saves with
  | stored => simp
  | storedThenRaised e => simp
  | raised e => exact absurd houtcome (hsave e)

/-- Where the database refuses it, nothing is made up. -/
theorem kept_of_raised {e : PyError}
    (hsave : api.world.saveUcer (execution facade api task).1.saves = .raised e) :
    RefusalsKept facade api task := by
  intro hviolation h
  have hfallback : fallback facade api task (execution facade api task).1 =
      ⟨(execution facade api task).1.saved.map UCER.row, opening task ++ preparing task ++
        [.log ("Docker sandbox or Powershell environment not available. " ++
          "Falling back to secure simulated telemetry...") "warn"] ++
        orchestrationError api e⟩ := by
    rw [fallback, saveUcer, hsave]
  rw [executeWorkflowTask_of_refused hviolation h, hfallback]
  refine ⟨fun row hrow _ => ?_, fun row hevent => ?_⟩
  · obtain ⟨record, hrecord, rfl⟩ := List.mem_map.mp hrow
    exact text_ne_completed (h.saved record hrecord)
  · exfalso
    revert hevent
    unfold orchestrationError opening preparing
    split_ifs <;> simp

/-- What the gate refuses is refused. -/
theorem refused_of_gate (hkey : api.world.readPubKey = none)
    (hgate : ¬ PolicyGate.Accepts facade.auditors (contextOf task) none
      (initialUcer api task).steps) : Refused facade api task := by
  have hadmits : CryptoMiddleware.Admits facade.crypto facade.controlPlanePublicKey
      (initialUcer api task) := fun hsigned => absurd hsigned (by simp [initialUcer, truthy])
  set ucer := CryptoMiddleware.admitted facade.crypto facade.controlPlanePrivateKey api.world
    (initialUcer api task) with hucer
  have hsteps : ucer.steps = (initialUcer api task).steps :=
    (Facade.admitted_fields facade api.world (initialUcer api task)).1
  have hpolicy : execution facade api task =
      PolicyMiddleware.process facade.auditors
        (PersistenceMiddleware.process api.world (Engine.process facade.auditors api.world))
        (contextOf task) { ucer := ucer } :=
    process_of_admits _ _ _ { ucer := initialUcer api task } hkey hadmits
  rcases hevaluate : PolicyGate.evaluate facade.auditors ucer (some (contextOf task)) none with
    ⟨ucer', e | _⟩
  · obtain ⟨reason, rfl⟩ := PolicyGate.evaluate_error (congrArg Prod.snd hevaluate)
    rw [PolicyMiddleware.process] at hpolicy
    dsimp only at hpolicy
    rw [hevaluate] at hpolicy
    refine ⟨_, by rw [hpolicy], rfl, ?_, by simp [hkey], ?_⟩
    · rw [hpolicy]
      exact fun n hn => absurd hn (Nat.not_lt_zero n)
    · rw [hpolicy]
      exact fun n call hcall => absurd hcall (by simp)
  · have haccepts := PolicyGate.evaluate_eq_ok_iff.mp (congrArg Prod.snd hevaluate)
    rw [hsteps] at haccepts
    exact absurd haccepts hgate

end Kept

/-- **When a refusal stays one.**  The fallback takes a refusal for a missing sandbox: unless
the database refuses the made-up record, it is stored and published as completed. -/
theorem refusalsKept_iff (facade : Facade) (api : ApiWorld) (task : WorkflowTask) :
    RefusalsKept facade api task ↔
      task.isViolation = true ∨ ¬ Refused facade api task ∨
        ∃ e, api.world.saveUcer (execution facade api task).1.saves = .raised e := by
  constructor
  · intro hkept
    by_contra hnone
    obtain ⟨hviolation, hrefused, hsave⟩ := by simpa only [not_or, not_not, not_exists] using hnone
    exact not_kept_of_stored (by simpa using hviolation) hrefused hsave hkept
  · rintro (hviolation | hrefused | ⟨e, hsave⟩)
    · intro hfalse
      exact absurd (hviolation.symm.trans hfalse) (by simp)
    · exact fun _ h => absurd h hrefused
    · exact kept_of_raised hsave

/-- A facade with the repository's auditors, on a command whose Bash tree is that of
`bash:rm -rf /var/log`. -/
def removalFacade : Facade :=
  { Facade.plainFacade with
    auditors :=
      { bash := Bash.audit fun _ =>
          .ok [.command [.word "bash:rm" [], .word "-rf" [], .word "/var/log" []]]
        powershell := PsDaemon.audit (· == ·) PsDaemon.parseWord (.ok ()) } }

/-- The calm world around the task. -/
def calmApi : ApiWorld where
  world := Engine.calm
  stepId := "s"
  timestamp := 0
  hex _ := "0123456789abcdef"
  modelDumpJson _ := "\x7b\x7d"
  str _ := ""

/-- A task whose command the gate refuses: it is audited with `WRITE_FS`. -/
def removal : WorkflowTask where
  intent := "clean up"
  command := "bash:rm -rf /var/log"
  commandId := "c"

/-- The refusal becomes a completed record. -/
theorem removal_recorded_as_completed : ¬ RefusalsKept removalFacade calmApi removal := by
  refine not_kept_of_stored rfl (refused_of_gate rfl ?_) (by simp [calmApi, Engine.calm])
  rintro ⟨_, _, hsteps⟩
  obtain ⟨hwithin, _⟩ := hsteps _ List.mem_cons_self
  have hwrites : Capability.writeFs ∈
      (PolicyGate.auditStep removalFacade.auditors
        { stepId := "s", adapter := .bash, command := "bash:rm -rf /var/log" }).capabilities := by
    decide
  exact absurd (hwithin hwrites) (by decide)

end Api

end Ucser
