import Ucser.Engine.StateManager
import Ucser.Security.Policy

/-!
# The execution manager: `engine/manager.py`, its adapters and `engine/executor.py`

`ExecutionManager.execute_ucer` runs the steps of a record between a snapshot of the working
directory and its removal, and puts the directory back when a step fails or raises.

* `Signature.bind` — how a call finds the parameters of a function.
* `EngineAdapter`, `runSubprocess` — the adapters, and what a command comes to.
* `ExecutionManager.loop`, `executeUcer` — the manager.
* `plan`, `Transactional` — the steps as they are meant to run, and the law of the manager.
* `transactional_of_binds` — **the manager keeps the law with adapters that take the call**.
* `transactional_iff` — **with its own adapters it keeps it only where it calls none**: none
  of them has a parameter `cwd`.
-/

namespace Ucser

/-! ## Calls -/

/-- The parameters of a function behind `self`, those with a default last. -/
structure Signature where
  required : List String
  optional : List String

/-- Does a call with some positional arguments and some keywords fit? -/
def Signature.bind (signature : Signature) (positional : Nat) (keywords : List String) :
    Except PyError Unit :=
  let params := signature.required ++ signature.optional
  -- too many arguments, an unknown keyword, an argument given twice, or one that is missing
  if params.length < positional then .error (.exception "TypeError")
  else if ∃ keyword ∈ keywords, keyword ∉ params.drop positional then
    .error (.exception "TypeError")
  else if ∃ param ∈ signature.required.drop positional, param ∉ keywords then
    .error (.exception "TypeError")
  else .ok ()

/-! ## The adapters -/

/-- The arguments of `subprocess.run`: a text for a shell, or a list. -/
inductive Args where
  | text (command : Option String)
  | list (args : List (Option String))

/-- What an adapter hands to `run_subprocess`; `shell=False` is passed on as an executable. -/
structure Spawn where
  args : Args
  shell : Option String

/-- An adapter. -/
structure EngineAdapter where
  name : String
  spawn : Option String → Spawn
  signature : Signature

/-- `execute(self, command_id, command, timeout=5)`. -/
def executeSignature : Signature where
  required := ["command_id", "command"]
  optional := ["timeout"]

def powerShellAdapter : EngineAdapter where
  name := "powershell"
  spawn command := ⟨.text command, some "pwsh"⟩
  signature := executeSignature

def bashAdapter : EngineAdapter where
  name := "bash"
  spawn command := ⟨.text command, some "bash"⟩
  signature := executeSignature

def pythonAdapter : EngineAdapter where
  name := "python"
  spawn command := ⟨.list [some "python", some "-c", command], none⟩
  signature := executeSignature

/-- `ExecutionResult`, without its times and its meta data. -/
structure ExecutionResult where
  commandId : Option String
  adapter : String
  success : Bool
  stdout : String
  stderr : String
  exitCode : Int
  deriving DecidableEq

/-- `text.replace("\r\n", "\n")`. -/
def replaceCrLf : List Char → List Char
  | '\r' :: '\n' :: rest => '\n' :: replaceCrLf rest
  | c :: rest => c :: replaceCrLf rest
  | [] => []

/-- `normalize`. -/
def ExecutionResult.normalize (result : ExecutionResult) : ExecutionResult :=
  { result with
    stdout := String.ofList (replaceCrLf (Text.strip result.stdout.toList))
    stderr := String.ofList (replaceCrLf (Text.strip result.stderr.toList)) }

/-- What `subprocess.run` comes to. -/
inductive ProcOutcome where
  | completed (returncode : Int) (stdout stderr : String)
  /-- What was captured until the time was over, as a text or as bytes. -/
  | timedOut (stdout : Option (String ⊕ Bytes))
  | raised (e : PyError)

/-- A step of a record, read with `get`. -/
structure EngineStep where
  adapter : Option String
  command : Option String

/-- A record, read with `get`. -/
structure EngineUcer where
  commandId : Option String
  steps : Option (List EngineStep)

/-- `ExecutionManager`: its adapters, and the world of its commands.  A command works on the
files of the working directory. -/
structure ExecutionManager where
  adapters : Option String → Option EngineAdapter
  subprocessRun : Spawn → Machine → ProcOutcome × List Operation
  windows : Bool

/-- The adapters of `__init__`. -/
def engineAdapters (name : Option String) : Option EngineAdapter :=
  if name = some "powershell" then some powerShellAdapter
  else if name = some "bash" then some bashAdapter
  else if name = some "python" then some pythonAdapter
  else none

namespace ExecutionManager

variable (manager : ExecutionManager)

/-- `run_subprocess`. -/
def runSubprocess (commandId : Option String) (adapter : String) (spawn : Spawn)
    (machine : Machine) : Except PyError ExecutionResult × Machine :=
  let ran := manager.subprocessRun spawn machine
  let timeout (stdout : String) : ExecutionResult :=
    ⟨commandId, adapter, false, stdout, "TIMEOUT", -1⟩
  (match ran.1 with
    | .completed returncode stdout stderr => .ok (ExecutionResult.normalize
        ⟨commandId, adapter, returncode = 0, stdout, stderr, returncode⟩)
    | .timedOut none => .ok (timeout "").normalize
    | .timedOut (some (.inl stdout)) => .ok (timeout stdout).normalize
    | .timedOut (some (.inr stdout)) =>
        -- `e.stdout or ""`; bytes have no `replace` of texts
        if stdout = [] then .ok (timeout "").normalize else .error (.exception "TypeError")
    | .raised e => .error e,
    machine.perform ran.2)

/-- `adapter.execute(command_id, command, cwd=self.working_dir)`. -/
def call (adapter : EngineAdapter) (commandId command : Option String) (machine : Machine) :
    Except PyError ExecutionResult × Machine :=
  match adapter.signature.bind 2 ["cwd"] with
  | .error e => (.error e, machine)
  | .ok () => manager.runSubprocess commandId adapter.name (adapter.spawn command) machine

/-- `ValueError(f"Unsupported adapter: {adapter_name}")`. -/
def unsupported (name : Option String) : PyError :=
  .valueError ("Unsupported adapter: " ++ name.getD "None")

/-- The loop over the steps, with the results so far. -/
def loop (snapshot : FastHardlinkSnapshot) (commandId : Option String) :
    List EngineStep → List ExecutionResult → Machine →
      Except PyError (List ExecutionResult) × Machine
  | [], results, machine => (.ok results, machine)
  | step :: steps, results, machine =>
      match manager.adapters step.adapter with
      | none => (.error (unsupported step.adapter), machine)
      | some adapter =>
          match manager.call adapter commandId step.command machine with
          | (.error e, machine) => (.error e, machine)
          | (.ok result, machine) =>
              if result.success then loop snapshot commandId steps (results ++ [result]) machine
              else (.ok (results ++ [result]), snapshot.restore machine)

/-- `execute_ucer` behind its contract. -/
def execute (ucer : EngineUcer) (machine : Machine) :
    Except PyError (List ExecutionResult) × Machine :=
  let snapshot : FastHardlinkSnapshot := ⟨machine.environ⟩
  match manager.loop snapshot ucer.commandId (ucer.steps.getD []) []
      (FastHardlinkSnapshot.capture manager.windows machine) with
  | (.ok results, machine) =>
      (.ok results,
        if results.all (fun result => result.success) then FastHardlinkSnapshot.cleanup machine
        else machine)
  | (.error e, machine) =>
      (.error e, if e.isException then snapshot.restore machine else machine)

/-- `execute_ucer`. -/
def executeUcer (ucer : EngineUcer) (context : Option ExecutionContext) (machine : Machine) :
    Except PyError (List ExecutionResult) × Machine :=
  match requires {.exec} context (.ok ()) with
  | .error e => (.error e, machine)
  | .ok () => manager.execute ucer machine

/-! ## The law -/

/-- How the steps of a record end. -/
inductive Verdict where
  | succeeded
  | failed
  | unsupported (name : Option String)
  | raised (e : PyError)

/-- The steps one after another, up to the first that does not succeed: the results, how it
ends, and the files with the effects of the steps. -/
def plan (commandId : Option String) :
    List EngineStep → Machine → List ExecutionResult × Verdict × Machine
  | [], machine => ([], .succeeded, machine)
  | step :: steps, machine =>
      match manager.adapters step.adapter with
      | none => ([], .unsupported step.adapter, machine)
      | some adapter =>
          match manager.runSubprocess commandId adapter.name (adapter.spawn step.command)
              machine with
          | (.error e, machine) => ([], .raised e, machine)
          | (.ok result, machine) =>
              if result.success then
                let rest := plan commandId steps machine
                (result :: rest.1, rest.2)
              else ([result], .failed, machine)

/-- The law: one result for each step that was executed; the files as before when a step
failed, and with the effects of all steps otherwise; the backup is gone exactly when all
succeeded; an exception only for an unsupported adapter, and then the files as before. -/
def Transactional (ucer : EngineUcer) (context : Option ExecutionContext) (machine : Machine) :
    Prop :=
  let outcome := manager.executeUcer ucer context machine
  match manager.plan ucer.commandId (ucer.steps.getD [])
      (FastHardlinkSnapshot.capture manager.windows machine) with
  | (results, .succeeded, planned) =>
      outcome.1 = .ok results ∧ (∀ path, outcome.2.files path = planned.files path) ∧
        outcome.2.backupExists = false
  | (results, .failed, _) =>
      outcome.1 = .ok results ∧ (∀ path, outcome.2.files path = machine.files path) ∧
        outcome.2.backupExists = true
  | (_, .unsupported name, _) =>
      outcome.1 = .error (unsupported name) ∧
        ∀ path, outcome.2.files path = machine.files path
  | (_, .raised _, _) => False

/-- `restore` puts the files back as they were captured, whatever commands have done to them
since. -/
def Restores (machine : Machine) : Prop :=
  ∀ operations path,
    (FastHardlinkSnapshot.restore ⟨machine.environ⟩
      ((FastHardlinkSnapshot.capture manager.windows machine).perform operations)).files path =
        machine.files path

/-! ## What the steps do to the files -/

theorem perform_perform (machine : Machine) (first second : List Operation) :
    (machine.perform first).perform second = machine.perform (first ++ second) := by
  simp [Machine.perform, Volume.applyAll]

theorem files_cleanup (machine : Machine) (path : RelPath) :
    (FastHardlinkSnapshot.cleanup machine).files path = machine.files path := by
  unfold FastHardlinkSnapshot.cleanup Machine.files
  dsimp only
  split_ifs
  · rw [Volume.read, Volume.trees_clear_of_ne _ (by decide)]
    rfl
  · rfl

variable {manager}

/-- The planned steps do nothing but operations on the files. -/
theorem exists_perform_plan (commandId : Option String) (steps : List EngineStep)
    (machine : Machine) :
    ∃ operations, (manager.plan commandId steps machine).2.2 = machine.perform operations := by
  induction steps generalizing machine with
  | nil => exact ⟨[], rfl⟩
  | cons step steps ih =>
      rw [plan]
      cases manager.adapters step.adapter with
      | none => exact ⟨[], rfl⟩
      | some adapter =>
          dsimp only
          rcases hrun : manager.runSubprocess commandId adapter.name (adapter.spawn step.command)
            machine with ⟨e | result, machine'⟩
          · refine ⟨(manager.subprocessRun (adapter.spawn step.command) machine).2, ?_⟩
            exact (congrArg Prod.snd hrun).symm
          · have hmachine' : machine' = machine.perform
                (manager.subprocessRun (adapter.spawn step.command) machine).2 :=
              (congrArg Prod.snd hrun).symm
            dsimp only
            split_ifs
            · obtain ⟨operations, hoperations⟩ := ih machine'
              rw [hmachine', perform_perform] at hoperations
              rw [hmachine']
              exact ⟨_, hoperations⟩
            · exact ⟨_, hmachine'⟩

/-- All results are successful exactly in a plan that succeeds. -/
theorem all_success_plan (commandId : Option String) (steps : List EngineStep)
    (machine : Machine) :
    match (manager.plan commandId steps machine).2.1 with
    | .succeeded => (manager.plan commandId steps machine).1.all (fun r => r.success) = true
    | .failed => (manager.plan commandId steps machine).1.all (fun r => r.success) = false
    | _ => True := by
  induction steps generalizing machine with
  | nil => rfl
  | cons step steps ih =>
      rw [plan]
      cases manager.adapters step.adapter with
      | none => trivial
      | some adapter =>
          dsimp only
          rcases manager.runSubprocess commandId adapter.name (adapter.spawn step.command)
            machine with ⟨e | result, machine'⟩
          · trivial
          · dsimp only
            by_cases hsuccess : result.success = true
            · simp only [hsuccess, if_true, List.all_cons, Bool.true_and]
              exact ih machine'
            · simp [hsuccess]

/-! ## The loop -/

/-- What the loop makes of the end of a plan. -/
def conclude (snapshot : FastHardlinkSnapshot) (results : List ExecutionResult) :
    List ExecutionResult × Verdict × Machine →
      Except PyError (List ExecutionResult) × Machine
  | (rest, .succeeded, machine) => (.ok (results ++ rest), machine)
  | (rest, .failed, machine) => (.ok (results ++ rest), snapshot.restore machine)
  | (_, .unsupported name, machine) => (.error (unsupported name), machine)
  | (_, .raised e, machine) => (.error e, machine)

/-- The adapters take a call with `cwd`. -/
def Binds (manager : ExecutionManager) : Prop :=
  ∀ name adapter, manager.adapters name = some adapter →
    adapter.signature.bind 2 ["cwd"] = .ok ()

/-- A result in front of the rest of a plan. -/
theorem conclude_cons (snapshot : FastHardlinkSnapshot) (results : List ExecutionResult)
    (result : ExecutionResult) (rest : List ExecutionResult × Verdict × Machine) :
    conclude snapshot (results ++ [result]) rest =
      conclude snapshot results (result :: rest.1, rest.2) := by
  obtain ⟨rest, verdict, machine⟩ := rest
  cases verdict <;> simp [conclude]

/-- **The loop carries out the plan**, where the adapters take its calls. -/
theorem loop_eq (hbinds : manager.Binds) (snapshot : FastHardlinkSnapshot)
    (commandId : Option String) (steps : List EngineStep) (results : List ExecutionResult)
    (machine : Machine) :
    manager.loop snapshot commandId steps results machine =
      conclude snapshot results (manager.plan commandId steps machine) := by
  induction steps generalizing results machine with
  | nil => simp [loop, plan, conclude]
  | cons step steps ih =>
      rw [loop, plan]
      cases hadapter : manager.adapters step.adapter with
      | none => rfl
      | some adapter =>
          dsimp only
          rw [call, hbinds step.adapter adapter hadapter]
          dsimp only
          rcases manager.runSubprocess commandId adapter.name (adapter.spawn step.command)
            machine with ⟨e | result, machine'⟩
          · rfl
          · dsimp only
            split_ifs
            · rw [ih, conclude_cons]
            · rfl

theorem executeUcer_of_exec {context : ExecutionContext} (hexec : .exec ∈ context.capabilities)
    (ucer : EngineUcer) (machine : Machine) :
    manager.executeUcer ucer (some context) machine = manager.execute ucer machine := by
  have hcontract : requires {.exec} (some context) (.ok ()) = .ok () :=
    if_pos (by simpa using hexec)
  rw [executeUcer, hcontract]

/-- **The manager keeps the law with adapters that take the call**, where no command raises. -/
theorem transactional_of_binds (hbinds : manager.Binds) {machine : Machine}
    (hrestore : manager.Restores machine) {context : ExecutionContext}
    (hexec : .exec ∈ context.capabilities) (ucer : EngineUcer)
    (hraised : ∀ e, (manager.plan ucer.commandId (ucer.steps.getD [])
      (FastHardlinkSnapshot.capture manager.windows machine)).2.1 ≠ .raised e) :
    manager.Transactional ucer (some context) machine := by
  unfold Transactional
  rw [executeUcer_of_exec hexec, execute, loop_eq hbinds]
  obtain ⟨operations, hperform⟩ := @exists_perform_plan manager ucer.commandId
    (ucer.steps.getD []) (FastHardlinkSnapshot.capture manager.windows machine)
  have hall := @all_success_plan manager ucer.commandId (ucer.steps.getD [])
    (FastHardlinkSnapshot.capture manager.windows machine)
  rcases hplan : manager.plan ucer.commandId (ucer.steps.getD [])
    (FastHardlinkSnapshot.capture manager.windows machine) with ⟨results, verdict, planned⟩
  rw [hplan] at hperform hall hraised
  dsimp only at hperform hall hraised
  have hfiles := hrestore operations
  rw [← hperform] at hfiles
  cases verdict with
  | succeeded =>
      dsimp only [conclude] at hall ⊢
      rw [List.nil_append, hall]
      exact ⟨rfl, files_cleanup planned, rfl⟩
  | failed =>
      dsimp only [conclude] at hall ⊢
      rw [List.nil_append, hall]
      refine ⟨rfl, hfiles, ?_⟩
      rw [hperform]
      rfl
  | unsupported name => exact ⟨rfl, hfiles⟩
  | raised e => exact absurd rfl (hraised e)

/-! ## The adapters of the manager -/

/-- The adapters of the manager have no parameter `cwd`. -/
theorem bind_engineAdapters {name : Option String} {adapter : EngineAdapter}
    (h : engineAdapters name = some adapter) :
    adapter.signature.bind 2 ["cwd"] = .error (.exception "TypeError") := by
  have hsignature : adapter.signature = executeSignature := by
    unfold engineAdapters at h
    split_ifs at h <;> rw [← Option.some.inj h] <;> rfl
  rw [hsignature]
  decide

section Adapters

variable {subprocessRun : Spawn → Machine → ProcOutcome × List Operation} {windows : Bool}
  {machine : Machine} {context : ExecutionContext}

/-- A call raises before the first command runs, so the law is broken whatever was planned. -/
theorem not_transactional_of_called (hexec : .exec ∈ context.capabilities) {ucer : EngineUcer}
    {step : EngineStep} {steps : List EngineStep} (hsteps : ucer.steps.getD [] = step :: steps)
    {adapter : EngineAdapter} (hadapter : engineAdapters step.adapter = some adapter) :
    ¬ Transactional ⟨engineAdapters, subprocessRun, windows⟩ ucer (some context) machine := by
  unfold Transactional
  rw [executeUcer_of_exec hexec, execute, hsteps, loop]
  simp only [hadapter, call, bind_engineAdapters hadapter]
  rcases plan _ ucer.commandId (step :: steps) _ with ⟨results, verdict, planned⟩
  cases verdict <;> simp [unsupported]

/-- The condition: the first step, if there is one, has an adapter that is not supported. -/
def CallsNone (ucer : EngineUcer) : Prop :=
  ∀ step ∈ (ucer.steps.getD []).head?, engineAdapters step.adapter = none

/-- **With its own adapters the manager keeps the law only where it calls none**: for a record
without steps, and where the first adapter is not supported. -/
theorem transactional_iff (hrestore : Restores ⟨engineAdapters, subprocessRun, windows⟩ machine)
    (hexec : .exec ∈ context.capabilities) (ucer : EngineUcer) :
    Transactional ⟨engineAdapters, subprocessRun, windows⟩ ucer (some context) machine ↔
      CallsNone ucer := by
  cases hsteps : ucer.steps.getD [] with
  | nil =>
      refine iff_of_true ?_ (by simp [CallsNone, hsteps])
      unfold Transactional
      rw [executeUcer_of_exec hexec, execute, hsteps]
      exact ⟨rfl, files_cleanup _, rfl⟩
  | cons step steps =>
      cases hadapter : engineAdapters step.adapter with
      | none =>
          refine iff_of_true ?_ (by simp [CallsNone, hsteps, hadapter])
          unfold Transactional
          rw [executeUcer_of_exec hexec, execute, hsteps, plan, loop]
          dsimp only
          rw [hadapter]
          exact ⟨rfl, hrestore []⟩
      | some adapter =>
          refine iff_of_false (not_transactional_of_called hexec hsteps hadapter) fun h => ?_
          have hnone := h step (by rw [hsteps]; rfl)
          rw [hadapter] at hnone
          exact absurd hnone (by simp)

end Adapters

/-- A context that may execute. -/
def execContext : ExecutionContext := ⟨"e", {.exec}⟩

/-- On Windows the backup is a copy, so whatever the commands do, `restore` puts the files
back. -/
theorem restores_windows (subprocessRun : Spawn → Machine → ProcOutcome × List Operation)
    (machine : Machine) : Restores ⟨engineAdapters, subprocessRun, true⟩ machine :=
  fun operations path => FastHardlinkSnapshot.restored_windows _ _ operations path

/-- A record without steps is executed by the law. -/
theorem no_steps_transactional :
    Transactional ⟨engineAdapters, fun _ _ => (.completed 0 "" "", []), true⟩
      ⟨some "c", some []⟩ (some execContext) FastHardlinkSnapshot.keepMachine :=
  (transactional_iff (restores_windows _ _) (by decide) ⟨some "c", some []⟩).mpr
    (by simp [CallsNone])

/-- A record with one step for bash, whose command would succeed, is not. -/
theorem bash_step_not_transactional :
    Restores ⟨engineAdapters, fun _ _ => (.completed 0 "" "", []), true⟩
        FastHardlinkSnapshot.keepMachine ∧
      ¬ Transactional ⟨engineAdapters, fun _ _ => (.completed 0 "" "", []), true⟩
        ⟨some "c", some [⟨some "bash", some "true"⟩]⟩ (some execContext)
        FastHardlinkSnapshot.keepMachine :=
  ⟨restores_windows _ _, not_transactional_of_called (by decide) rfl rfl⟩

end ExecutionManager
end Ucser
