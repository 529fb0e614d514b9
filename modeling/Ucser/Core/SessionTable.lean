import Ucser.Core.SandboxRun
import Ucser.Lib.Dict
import Ucser.Lib.PosixPath

/-!
# The tables of `SandboxExecutor`

A container, its workspace, its shell, two queues and an event are kept in six dictionaries
under one execution identifier.  `_get_or_start_container` fills them one after the other,
`cleanup` empties them, and a call of the outside may fail in between.

* `buildDockerStartCmd`, `getOrStartContainer`, `cleanup`, `run` — the methods.
* `Outcome` — everything `_get_or_start_container` can come to.
* `Call`, `sandbox` — the calls on one executor, as a transition system.
* `Tabled`, `TableIntact` — what is expected whenever control is back at the caller.
* `Backed` — **what holds whatever fails**: every shell is in the container of its identifier,
  which has everything else.
* `keyError_of_orphan` — once a shell has failed to start, every run on its identifier raises
  `KeyError` until a cleanup.
* `sessionTable_iff` — **the sequences of calls that keep the tables intact**.
-/

namespace Ucser
namespace Sandbox

/-! ## Starting a container -/

/-- The fields of the configuration the sandbox reads. -/
structure Config where
  seccompProfilePath : String
  defaultMemoryLimit : String
  defaultCpuLimit : String
  workspaceBaseDir : String
  executionTimeout : Nat

/-- `ExecutionContext`, with the environment that is passed to the container. -/
structure SandboxContext extends ExecutionContext where
  environment : Dict String String := .empty

/-- `network_mode`. -/
def networkMode (context : SandboxContext) : String :=
  if .network ∈ context.capabilities then "bridge" else "none"

/-- `NetworkAuditor().get_proxy_env()`. -/
def proxyEnv : List (String × String) :=
  [("HTTP_PROXY", "http://127.0.0.1:8080"), ("HTTPS_PROXY", "http://127.0.0.1:8080"),
    ("http_proxy", "http://127.0.0.1:8080"), ("https_proxy", "http://127.0.0.1:8080"),
    ("NO_PROXY", "localhost,127.0.0.1")]

/-- `{**context.environment, **proxy_env}`. -/
def combinedEnv (context : SandboxContext) : Dict String String :=
  (if .network ∈ context.capabilities then proxyEnv else []).foldl
    (fun env item => env.insert item.1 item.2) context.environment

/-- `SandboxConfigBuilder.build_docker_start_cmd`; does the seccomp profile exist? -/
def buildDockerStartCmd (config : Config) (seccompExists : Bool) (shell : Adapter)
    (context : SandboxContext) (workspacePath containerName : String) : List String :=
  ["docker", "run", "-d", "--rm", "--name=" ++ containerName,
    "--network=" ++ networkMode context, "--memory=" ++ config.defaultMemoryLimit,
    "--cpus=" ++ config.defaultCpuLimit, "-v", workspacePath ++ ":/workspace",
    "-w", "/workspace"] ++
    (if seccompExists then ["--security-opt", "seccomp=" ++ config.seccompProfilePath] else []) ++
    (combinedEnv context).items.flatMap (fun item => ["-e", item.1 ++ "=" ++ item.2]) ++
    if isPowerShell shell then
      ["mcr.microsoft.com/powershell:latest", "pwsh", "-NoLogo", "-NoProfile", "-Command",
        "while($true) \x7b Start-Sleep -Seconds 1 \x7d"]
    else ["alpine:latest", "tail", "-f", "/dev/null"]

/-- `exec_cmd`. -/
def execCmd (shell : Adapter) (containerName : String) : List String :=
  if isPowerShell shell then
    ["docker", "exec", "-i", containerName, "pwsh", "-NoLogo", "-NoProfile", "-Command", "-"]
  else ["docker", "exec", "-i", containerName, "sh"]

/-! ## The tables -/

/-- A container, with the network mode it was started with. -/
structure Container where
  name : String
  network : String
  deriving DecidableEq

/-- `SandboxExecutor`.  What is in the queues comes with the calls of `run`. -/
structure SandboxExecutor where
  shell : Adapter
  activeContainers : Dict String Container := .empty
  workspaces : Dict String String := .empty
  /-- The shells, each by the container it was started in. -/
  processes : Dict String Container := .empty
  outputQueues : Dict String Unit := .empty
  errorQueues : Dict String Unit := .empty
  /-- Has the event been set? -/
  stopEvents : Dict String Bool := .empty

/-- What a call lets through. -/
inductive CallError where
  | keyError (key : String)
  /-- An exception of the operating system or of Docker. -/
  | raised (e : SandboxError)

/-- What the outside answers when a container is started: what each call raises, if anything. -/
structure StartAnswers where
  makedirs : Option SandboxError := none
  seccompExists : Bool := true
  /-- `uuid.uuid4().hex[:4]`. -/
  suffix : String := "0000"
  dockerStart : List String → Option SandboxError := fun _ => none
  popen : List String → Option SandboxError := fun _ => none

/-- `host_path`. -/
def hostPath (config : Config) (context : SandboxContext) : String :=
  String.ofList (PosixPath.join config.workspaceBaseDir.toList context.executionId.toList)

/-- `container_name`, and the network mode that goes into the command. -/
def newContainer (context : SandboxContext) (start : StartAnswers) : Container :=
  ⟨"ucser_" ++ String.ofList (context.executionId.toList.take 8) ++ "_" ++ start.suffix,
    networkMode context⟩

/-- `start_cmd`. -/
def startCmd (config : Config) (shell : Adapter) (context : SandboxContext)
    (start : StartAnswers) : List String :=
  buildDockerStartCmd config start.seccompExists shell context (hostPath config context)
    (newContainer context start).name

namespace SandboxExecutor

/-- `self.workspaces[exec_id] = host_path`. -/
def reserve (executor : SandboxExecutor) (execId hostPath : String) : SandboxExecutor :=
  { executor with workspaces := executor.workspaces.insert execId hostPath }

/-- `self.active_containers[exec_id] = container_name`. -/
def register (executor : SandboxExecutor) (execId : String) (container : Container) :
    SandboxExecutor :=
  { executor with activeContainers := executor.activeContainers.insert execId container }

/-- `self.processes[exec_id] = proc`, and the assignments behind it. -/
def attach (executor : SandboxExecutor) (execId : String) (container : Container) :
    SandboxExecutor :=
  { executor with
    processes := executor.processes.insert execId container
    outputQueues := executor.outputQueues.insert execId ()
    errorQueues := executor.errorQueues.insert execId ()
    stopEvents := executor.stopEvents.insert execId false }

end SandboxExecutor

/-- `_get_or_start_container`. -/
def getOrStartContainer (config : Config) (executor : SandboxExecutor)
    (context : SandboxContext) (start : StartAnswers) :
    SandboxExecutor × Except CallError Container :=
  let execId := context.executionId
  match executor.activeContainers.get? execId with
  | some container => (executor, .ok container)
  | none =>
      match start.makedirs with
      | some e => (executor, .error (.raised e))
      | none =>
          let executor := executor.reserve execId (hostPath config context)
          let container := newContainer context start
          match start.dockerStart (startCmd config executor.shell context start) with
          | some e => (executor, .error (.raised e))
          | none =>
              let executor := executor.register execId container
              match start.popen (execCmd executor.shell container.name) with
              | some e => (executor, .error (.raised e))
              | none => (executor.attach execId container, .ok container)

/-! ## Running and cleaning up -/

/-- `cleanup`.  Whatever ending the shell raises is swallowed; what `docker stop` raises is
not. -/
def cleanup (executor : SandboxExecutor) (context : SandboxContext)
    (dockerStop : Option SandboxError) : SandboxExecutor × Except CallError Unit :=
  let execId := context.executionId
  let executor :=
    { executor with
      stopEvents := executor.stopEvents.modify execId (fun _ => true)
      processes := executor.processes.erase execId }
  match executor.activeContainers.get? execId, dockerStop with
  | some _, some e =>
      ({ executor with activeContainers := executor.activeContainers.erase execId },
        .error (.raised e))
  | _, _ =>
      ({ executor with
          activeContainers := executor.activeContainers.erase execId
          workspaces := executor.workspaces.erase execId
          outputQueues := executor.outputQueues.erase execId
          errorQueues := executor.errorQueues.erase execId
          stopEvents := executor.stopEvents.erase execId }, .ok ())

/-- What the outside answers to a call of `run`. -/
structure RunAnswers where
  start : StartAnswers := {}
  markerId : String := "0"
  body : Answers
  dockerStop : Option SandboxError := none

/-- Does the `except` of `run` clean up? -/
def cleansUp (config : Config) (shell : Adapter) (command : String) (answers : RunAnswers) :
    Bool :=
  match (attempt config.executionTimeout shell command (marker answers.markerId)
      answers.body).2 with
  | .ok _ => false
  | .error e => e.cleansUp

/-- What `run` does once it has the shell and its queues. -/
def conclude (config : Config) (executor : SandboxExecutor) (command : String)
    (context : SandboxContext) (answers : RunAnswers) :
    SandboxExecutor × Except CallError RunResult :=
  let result := execute config.executionTimeout executor.shell command
    (marker answers.markerId) answers.body
  if cleansUp config executor.shell command answers then
    match cleanup executor context answers.dockerStop with
    | (executor, .error e) => (executor, .error e)
    | (executor, .ok ()) => (executor, .ok result)
  else (executor, .ok result)

/-- `run`. -/
def run (config : Config) (executor : SandboxExecutor) (command : String)
    (context : SandboxContext) (answers : RunAnswers) :
    SandboxExecutor × Except CallError RunResult :=
  let execId := context.executionId
  match getOrStartContainer config executor context answers.start with
  | (executor, .error e) => (executor, .error e)
  | (executor, .ok _) =>
      match executor.processes.get? execId, executor.outputQueues.get? execId,
          executor.errorQueues.get? execId with
      | some _, some _, some _ => conclude config executor command context answers
      | _, _, _ => (executor, .error (.keyError execId))

/-! ## Calls on one executor -/

/-- A call, with what the outside answers to it. -/
inductive Call where
  | run (command : String) (context : SandboxContext) (answers : RunAnswers)
  | cleanup (context : SandboxContext) (dockerStop : Option SandboxError)

/-- What a call leaves behind, and what comes back to its caller. -/
def perform (config : Config) (executor : SandboxExecutor) :
    Call → SandboxExecutor × Except CallError (Option RunResult)
  | .run command context answers =>
      let (executor, result) := run config executor command context answers
      (executor, result.map some)
  | .cleanup context dockerStop =>
      let (executor, result) := cleanup executor context dockerStop
      (executor, result.map fun _ => none)

/-- The calls on one executor. -/
def sandbox (config : Config) : System SandboxExecutor Call :=
  ⟨fun executor call => some (perform config executor call).1⟩

/-- The executor of a shell after a sequence of calls. -/
def after (config : Config) (shell : Adapter) (calls : List Call) : SandboxExecutor :=
  (sandbox config).run { shell := shell } calls

/-! ## Intact tables -/

/-- An identifier is in the five tables beside `active_containers`. -/
structure Tabled (executor : SandboxExecutor) (execId : String) : Prop where
  workspace : execId ∈ executor.workspaces.keys
  process : execId ∈ executor.processes.keys
  output : execId ∈ executor.outputQueues.keys
  error : execId ∈ executor.errorQueues.keys
  event : execId ∈ executor.stopEvents.keys

/-- Whatever has a container has everything else. -/
def TableIntact (executor : SandboxExecutor) : Prop :=
  ∀ execId ∈ executor.activeContainers.keys, Tabled executor execId

/-- Whenever control is back at the caller the tables are intact, and no call has failed with
a missing key. -/
def KeepsTables (config : Config) (shell : Adapter) (calls : List Call) : Prop :=
  ∀ before call rest, calls = before ++ call :: rest →
    TableIntact (perform config (after config shell before) call).1 ∧
      ∀ key, (perform config (after config shell before) call).2 ≠ .error (.keyError key)

/-- `docker run` is called for an identifier that has no container, and succeeds. -/
def Starts (config : Config) (executor : SandboxExecutor) (context : SandboxContext)
    (start : StartAnswers) : Prop :=
  context.executionId ∉ executor.activeContainers.keys ∧ start.makedirs = none ∧
    start.dockerStart (startCmd config executor.shell context start) = none

/-- What `Popen` raises for the shell in a new container. -/
def popenRaises (executor : SandboxExecutor) (context : SandboxContext)
    (start : StartAnswers) : Option SandboxError :=
  start.popen (execCmd executor.shell (newContainer context start).name)

/-- A container is started, and `Popen` fails to start the shell in it. -/
def PopenFails (config : Config) (executor : SandboxExecutor) : Call → Prop
  | .run _ context answers =>
      Starts config executor context answers.start ∧
        popenRaises executor context answers.start ≠ none
  | .cleanup _ _ => False

/-! ## What starting a container comes to -/

variable {config : Config} {executor : SandboxExecutor} {context : SandboxContext}
  {start : StartAnswers} {key : String} {container : Container}

/-- Everything `_get_or_start_container` can come to. -/
inductive Outcome (config : Config) (executor : SandboxExecutor) (context : SandboxContext)
    (start : StartAnswers) : SandboxExecutor × Except CallError Container → Prop where
  | cached (container : Container)
      (hactive : executor.activeContainers.get? context.executionId = some container) :
      Outcome config executor context start (executor, .ok container)
  /-- No container has been started; the workspace may have been. -/
  | refused (workspaces : Dict String String) (e : SandboxError)
      (hfresh : context.executionId ∉ executor.activeContainers.keys)
      (hstarts : ¬ Starts config executor context start)
      (hworkspaces : ∀ key ∈ executor.workspaces.keys, key ∈ workspaces.keys) :
      Outcome config executor context start
        ({ executor with workspaces := workspaces }, .error (.raised e))
  /-- There is a container, and no shell in it. -/
  | orphaned (e : SandboxError) (hstarts : Starts config executor context start)
      (hpopen : popenRaises executor context start = some e) :
      Outcome config executor context start
        ((executor.reserve context.executionId (hostPath config context)).register
          context.executionId (newContainer context start), .error (.raised e))
  | opened (hstarts : Starts config executor context start)
      (hpopen : popenRaises executor context start = none) :
      Outcome config executor context start
        (((executor.reserve context.executionId (hostPath config context)).register
          context.executionId (newContainer context start)).attach
            context.executionId (newContainer context start), .ok (newContainer context start))

theorem getOrStartContainer_outcome (config : Config) (executor : SandboxExecutor)
    (context : SandboxContext) (start : StartAnswers) :
    Outcome config executor context start
      (getOrStartContainer config executor context start) := by
  unfold getOrStartContainer
  dsimp only
  cases hactive : executor.activeContainers.get? context.executionId with
  | some container => exact .cached container hactive
  | none =>
      have hfresh := Dict.get?_eq_none_iff.mp hactive
      cases hmakedirs : start.makedirs with
      | some e =>
          refine .refused executor.workspaces e hfresh ?_ fun _ h => h
          rintro ⟨_, hnone, _⟩
          exact absurd (hmakedirs.symm.trans hnone) (by simp)
      | none =>
          dsimp only
          cases hstart : start.dockerStart
              (startCmd config (executor.reserve context.executionId
                (hostPath config context)).shell context start) with
          | some e =>
              refine .refused _ e hfresh ?_ fun _ h => Dict.mem_keys_insert.mpr (Or.inr h)
              rintro ⟨_, _, hnone⟩
              exact absurd (hstart.symm.trans hnone) (by simp)
          | none =>
              have hstarts : Starts config executor context start := ⟨hfresh, hmakedirs, hstart⟩
              dsimp only
              cases hpopen : start.popen (execCmd _ (newContainer context start).name) with
              | some e => exact .orphaned e hstarts hpopen
              | none => exact .opened hstarts hpopen

/-- Once the shell and the queues are there, `run` goes on to its body. -/
theorem run_of_tabled {command : String} {answers : RunAnswers} {executor' : SandboxExecutor}
    (hstart : getOrStartContainer config executor context answers.start =
      (executor', .ok container)) (htabled : Tabled executor' context.executionId) :
    run config executor command context answers =
      conclude config executor' command context answers := by
  obtain ⟨process, hprocess⟩ := Dict.mem_keys_iff.mp htabled.process
  obtain ⟨output, houtput⟩ := Dict.mem_keys_iff.mp htabled.output
  obtain ⟨error, herror⟩ := Dict.mem_keys_iff.mp htabled.error
  unfold run
  rw [hstart]
  dsimp only
  rw [hprocess, houtput, herror]

/-- Without a shell, it raises `KeyError`. -/
theorem run_of_no_process {command : String} {answers : RunAnswers}
    {executor' : SandboxExecutor}
    (hstart : getOrStartContainer config executor context answers.start =
      (executor', .ok container))
    (hprocess : executor'.processes.get? context.executionId = none) :
    run config executor command context answers =
      (executor', .error (.keyError context.executionId)) := by
  unfold run
  rw [hstart]
  dsimp only
  rw [hprocess]

theorem run_of_error {command : String} {answers : RunAnswers} {executor' : SandboxExecutor}
    {e : CallError}
    (hstart : getOrStartContainer config executor context answers.start =
      (executor', .error e)) :
    run config executor command context answers = (executor', .error e) := by
  unfold run
  rw [hstart]

/-! ## What a cleanup leaves -/

variable {dockerStop : Option SandboxError}

@[simp] theorem cleanup_shell :
    (cleanup executor context dockerStop).1.shell = executor.shell := by
  unfold cleanup
  dsimp only
  split
  · rfl
  · rfl

@[simp] theorem cleanup_activeContainers :
    (cleanup executor context dockerStop).1.activeContainers =
      executor.activeContainers.erase context.executionId := by
  unfold cleanup
  dsimp only
  split
  · rfl
  · rfl

@[simp] theorem cleanup_processes :
    (cleanup executor context dockerStop).1.processes =
      executor.processes.erase context.executionId := by
  unfold cleanup
  dsimp only
  split
  · rfl
  · rfl

/-- A container and a workspace more take nothing away. -/
theorem Tabled.grow (htabled : Tabled executor key) {workspaces : Dict String String}
    {containers : Dict String Container} (hworkspaces : key ∈ workspaces.keys) :
    Tabled { executor with workspaces := workspaces, activeContainers := containers } key :=
  ⟨hworkspaces, htabled.process, htabled.output, htabled.error, htabled.event⟩

/-- Other identifiers keep what they have. -/
theorem Tabled.cleanup (htabled : Tabled executor key) (hne : key ≠ context.executionId) :
    Tabled (cleanup executor context dockerStop).1 key := by
  obtain ⟨hworkspace, hprocess, houtput, herror, hevent⟩ := htabled
  unfold Sandbox.cleanup
  dsimp only
  split
  · exact ⟨hworkspace, Dict.mem_keys_erase.mpr ⟨hne, hprocess⟩, houtput, herror,
      by rwa [Dict.keys_modify]⟩
  · exact ⟨Dict.mem_keys_erase.mpr ⟨hne, hworkspace⟩, Dict.mem_keys_erase.mpr ⟨hne, hprocess⟩,
      Dict.mem_keys_erase.mpr ⟨hne, houtput⟩, Dict.mem_keys_erase.mpr ⟨hne, herror⟩,
      Dict.mem_keys_erase.mpr ⟨hne, by rwa [Dict.keys_modify]⟩⟩

theorem cleanup_ne_keyError (executor : SandboxExecutor) (context : SandboxContext)
    (dockerStop : Option SandboxError) (key : String) :
    (cleanup executor context dockerStop).2 ≠ .error (.keyError key) := by
  unfold cleanup
  dsimp only
  split
  · simp
  · simp

/-- The body of `run` cleans up, or leaves the executor as it is. -/
theorem conclude_fst (command : String) (answers : RunAnswers) :
    (conclude config executor command context answers).1 =
      if cleansUp config executor.shell command answers then
        (cleanup executor context answers.dockerStop).1
      else executor := by
  unfold conclude
  split_ifs
  · rcases cleanup executor context answers.dockerStop with ⟨executor', e | _⟩
    · rfl
    · rfl
  · rfl

theorem conclude_ne_keyError (command : String) (answers : RunAnswers) :
    (conclude config executor command context answers).2 ≠ .error (.keyError key) := by
  unfold conclude
  split_ifs
  · have hne := cleanup_ne_keyError executor context answers.dockerStop key
    cases hcleanup : cleanup executor context answers.dockerStop with
    | mk executor' outcome =>
        rw [hcleanup] at hne
        cases outcome with
        | error e => exact fun h => hne (congrArg Except.error (Except.error.inj h))
        | ok _ => simp
  · simp

/-! ## What holds whatever fails -/

/-- A shell is in the container of its identifier, which has everything else. -/
def Backed (executor : SandboxExecutor) : Prop :=
  ∀ key container, executor.processes.get? key = some container →
    executor.activeContainers.get? key = some container ∧ Tabled executor key

theorem backed_empty (shell : Adapter) : Backed { shell := shell } := by
  intro key container h
  exact absurd h (by simp [Dict.get?, Dict.empty])

theorem Backed.process_eq_none (hbacked : Backed executor)
    (hfresh : key ∉ executor.activeContainers.keys) : executor.processes.get? key = none := by
  refine Option.eq_none_iff_forall_ne_some.mpr fun container h => ?_
  exact hfresh (Dict.mem_keys_of_get? (hbacked key container h).1)

/-- A new container with its shell has everything, and takes nothing from the others. -/
theorem tabled_attach {execId path : String} (htabled : key = execId ∨ Tabled executor key) :
    Tabled (((executor.reserve execId path).register execId container).attach execId container)
      key := by
  have hkeys : ∀ {α : Type} {d : Dict String α} {v : α}, (key = execId ∨ key ∈ d.keys) →
      key ∈ (d.insert execId v).keys := fun h => Dict.mem_keys_insert.mpr h
  obtain rfl | ⟨hworkspace, hprocess, houtput, herror, hevent⟩ := htabled
  · exact ⟨hkeys (Or.inl rfl), hkeys (Or.inl rfl), hkeys (Or.inl rfl), hkeys (Or.inl rfl),
      hkeys (Or.inl rfl)⟩
  · exact ⟨hkeys (Or.inr hworkspace), hkeys (Or.inr hprocess), hkeys (Or.inr houtput),
      hkeys (Or.inr herror), hkeys (Or.inr hevent)⟩

theorem getOrStartContainer_backed (hbacked : Backed executor) :
    Backed (getOrStartContainer config executor context start).1 := by
  have houtcome := getOrStartContainer_outcome config executor context start
  generalize getOrStartContainer config executor context start = result at houtcome ⊢
  intro key container h
  cases houtcome with
  | cached found hactive => exact hbacked key container h
  | refused workspaces e hfresh hstarts hworkspaces =>
      obtain ⟨hactive, htabled⟩ := hbacked key container h
      exact ⟨hactive, htabled.grow (hworkspaces key htabled.workspace)⟩
  | orphaned e hstarts hpopen =>
      obtain ⟨hactive, htabled⟩ := hbacked key container h
      have hne : key ≠ context.executionId := by
        rintro rfl
        exact hstarts.1 (Dict.mem_keys_of_get? hactive)
      exact ⟨(Dict.get?_insert _ _ _ _).trans ((if_neg hne).trans hactive),
        htabled.grow (Dict.mem_keys_insert.mpr (Or.inr htabled.workspace))⟩
  | opened hstarts hpopen =>
      have hprocess := (Dict.get?_insert _ _ _ _).symm.trans h
      have hactive := fun found => Dict.get?_insert executor.activeContainers
        context.executionId key found
      by_cases hkey : key = context.executionId
      · rw [if_pos hkey] at hprocess
        refine ⟨?_, tabled_attach (Or.inl hkey)⟩
        rw [← hprocess]
        exact (hactive _).trans (if_pos hkey)
      · rw [if_neg hkey] at hprocess
        obtain ⟨hfound, htabled⟩ := hbacked key container hprocess
        exact ⟨(hactive _).trans ((if_neg hkey).trans hfound), tabled_attach (Or.inr htabled)⟩

theorem cleanup_backed (hbacked : Backed executor) :
    Backed (cleanup executor context dockerStop).1 := by
  intro key container h
  rw [cleanup_processes, Dict.get?_erase] at h
  by_cases hkey : key = context.executionId
  · rw [if_pos hkey] at h
    exact absurd h (by simp)
  · rw [if_neg hkey] at h
    obtain ⟨hactive, htabled⟩ := hbacked key container h
    rw [cleanup_activeContainers, Dict.get?_erase, if_neg hkey]
    exact ⟨hactive, htabled.cleanup hkey⟩

/-- What starting a container and cleaning up preserve, `run` preserves. -/
theorem run_preserves {P : SandboxExecutor → Prop} {command : String} {answers : RunAnswers}
    (hstart : P (getOrStartContainer config executor context answers.start).1)
    (hcleanup : ∀ executor, P executor → P (cleanup executor context answers.dockerStop).1) :
    P (run config executor command context answers).1 := by
  cases hresult : getOrStartContainer config executor context answers.start with
  | mk executor' outcome =>
      rw [hresult] at hstart
      cases outcome with
      | error e =>
          rw [run_of_error hresult]
          exact hstart
      | ok container =>
          unfold run
          rw [hresult]
          dsimp only
          split
          · rw [conclude_fst]
            split_ifs
            · exact hcleanup _ hstart
            · exact hstart
          · exact hstart

theorem perform_backed (hbacked : Backed executor) (call : Call) :
    Backed (perform config executor call).1 := by
  cases call with
  | run command context answers =>
      exact run_preserves (getOrStartContainer_backed hbacked) fun _ => cleanup_backed
  | cleanup context dockerStop => exact cleanup_backed hbacked

theorem sandbox_exec (call : Call) :
    (sandbox config).exec executor call = (perform config executor call).1 := rfl

/-- What every call preserves holds after any calls. -/
theorem after_of_perform {I : SandboxExecutor → Prop} {shell : Adapter}
    (hstep : ∀ executor, I executor → ∀ call, I (perform config executor call).1)
    (hs : I { shell := shell }) (calls : List Call) : I (after config shell calls) := by
  refine System.run_invariant (fun executor call executor' h hperform => ?_) hs calls
  rw [← Option.some.inj hperform]
  exact hstep executor h call

theorem after_backed (config : Config) (shell : Adapter) (calls : List Call) :
    Backed (after config shell calls) :=
  after_of_perform (I := Backed) (fun _ h call => perform_backed h call) (backed_empty shell)
    calls

/-! ## Which calls keep the tables intact -/

theorem tableIntact_empty (shell : Adapter) : TableIntact { shell := shell } := by
  intro key h
  exact absurd h (by simp [Dict.keys, Dict.empty])

theorem getOrStartContainer_tableIntact (hintact : TableIntact executor)
    (hpopen : Starts config executor context start → popenRaises executor context start = none) :
    TableIntact (getOrStartContainer config executor context start).1 := by
  have houtcome := getOrStartContainer_outcome config executor context start
  generalize getOrStartContainer config executor context start = result at houtcome ⊢
  cases houtcome with
  | cached found hactive => exact hintact
  | refused workspaces e hfresh hstarts hworkspaces =>
      intro key hkey
      have htabled := hintact key hkey
      exact htabled.grow (hworkspaces key htabled.workspace)
  | orphaned e hstarts hraises => exact absurd ((hpopen hstarts).symm.trans hraises) (by simp)
  | opened hstarts hnone =>
      intro key hkey
      refine tabled_attach ?_
      exact (Dict.mem_keys_insert.mp hkey).imp_right (hintact key)

theorem cleanup_tableIntact (hintact : TableIntact executor) :
    TableIntact (cleanup executor context dockerStop).1 := by
  intro key hkey
  rw [cleanup_activeContainers, Dict.mem_keys_erase] at hkey
  exact (hintact key hkey.2).cleanup hkey.1

/-- Whoever has been given a container finds it in the table. -/
theorem mem_keys_of_ok {executor' : SandboxExecutor}
    (h : getOrStartContainer config executor context start = (executor', .ok container)) :
    context.executionId ∈ executor'.activeContainers.keys := by
  have houtcome := getOrStartContainer_outcome config executor context start
  rw [h] at houtcome
  cases houtcome with
  | cached found hactive => exact Dict.mem_keys_of_get? hactive
  | opened hstarts hnone => exact Dict.mem_keys_insert.mpr (Or.inl rfl)

theorem getOrStartContainer_ne_keyError {executor' : SandboxExecutor} {e : CallError}
    (h : getOrStartContainer config executor context start = (executor', .error e)) :
    e ≠ .keyError key := by
  have houtcome := getOrStartContainer_outcome config executor context start
  rw [h] at houtcome
  cases houtcome with
  | refused workspaces e hfresh hstarts hworkspaces => simp
  | orphaned e hstarts hraises => simp

/-- Intact tables after the start spare the run a missing key. -/
theorem run_ne_keyError {command : String} {answers : RunAnswers}
    (hintact : TableIntact (getOrStartContainer config executor context answers.start).1) :
    (run config executor command context answers).2 ≠ .error (.keyError key) := by
  cases hresult : getOrStartContainer config executor context answers.start with
  | mk executor' outcome =>
      rw [hresult] at hintact
      cases outcome with
      | error e =>
          rw [run_of_error hresult]
          exact fun h => getOrStartContainer_ne_keyError hresult (Except.error.inj h)
      | ok container =>
          rw [run_of_tabled hresult (hintact _ (mem_keys_of_ok hresult))]
          exact conclude_ne_keyError command answers

theorem map_ne_error {α β : Type} {outcome : Except CallError α} {f : α → β} {e : CallError}
    (hne : outcome ≠ .error e) : outcome.map f ≠ .error e := by
  cases outcome with
  | error e' => exact fun h => hne (congrArg Except.error (Except.error.inj h))
  | ok a => simp [Except.map]

/-- **The step.**  A call whose `Popen` does not fail keeps the tables intact and misses no
key. -/
theorem perform_keeps (hintact : TableIntact executor) {call : Call}
    (hpopen : ¬ PopenFails config executor call) :
    TableIntact (perform config executor call).1 ∧
      ∀ key, (perform config executor call).2 ≠ .error (.keyError key) := by
  cases call with
  | run command context answers =>
      have hstart : TableIntact (getOrStartContainer config executor context answers.start).1 :=
        getOrStartContainer_tableIntact hintact fun hstarts => by
          by_contra hraises
          exact hpopen ⟨hstarts, hraises⟩
      exact ⟨run_preserves hstart fun _ => cleanup_tableIntact,
        fun key => map_ne_error (run_ne_keyError hstart)⟩
  | cleanup context dockerStop =>
      exact ⟨cleanup_tableIntact hintact,
        fun key => map_ne_error (cleanup_ne_keyError executor context dockerStop key)⟩

/-- A container without a shell. -/
def Orphan (executor : SandboxExecutor) (execId : String) : Prop :=
  execId ∈ executor.activeContainers.keys ∧ executor.processes.get? execId = none

theorem Orphan.not_tableIntact (horphan : Orphan executor key) : ¬ TableIntact executor := by
  intro hintact
  obtain ⟨container, hprocess⟩ := Dict.mem_keys_iff.mp (hintact key horphan.1).process
  exact absurd (horphan.2.symm.trans hprocess) (by simp)

/-- A `Popen` that fails leaves a container without a shell. -/
theorem orphan_of_popenFails (hbacked : Backed executor) {command : String}
    {answers : RunAnswers} (h : PopenFails config executor (.run command context answers)) :
    Orphan (run config executor command context answers).1 context.executionId := by
  obtain ⟨hstarts, hraises⟩ := h
  have houtcome := getOrStartContainer_outcome config executor context answers.start
  cases hresult : getOrStartContainer config executor context answers.start with
  | mk executor' outcome =>
      rw [hresult] at houtcome
      cases houtcome with
      | cached found hactive => exact absurd (Dict.mem_keys_of_get? hactive) hstarts.1
      | refused workspaces e hfresh hnot hworkspaces => exact absurd hstarts hnot
      | orphaned e _ _ =>
          rw [run_of_error hresult]
          exact ⟨Dict.mem_keys_insert.mpr (Or.inl rfl), hbacked.process_eq_none hstarts.1⟩
      | opened _ hnone => exact absurd hnone hraises

theorem getOrStartContainer_orphan (horphan : Orphan executor key) :
    Orphan (getOrStartContainer config executor context start).1 key := by
  have houtcome := getOrStartContainer_outcome config executor context start
  generalize getOrStartContainer config executor context start = result at houtcome ⊢
  have hne : Starts config executor context start → key ≠ context.executionId := by
    rintro hstarts rfl
    exact hstarts.1 horphan.1
  cases houtcome with
  | cached found hactive => exact horphan
  | refused workspaces e hfresh hstarts hworkspaces => exact horphan
  | orphaned e hstarts hraises =>
      exact ⟨Dict.mem_keys_insert.mpr (Or.inr horphan.1), horphan.2⟩
  | opened hstarts hnone =>
      refine ⟨Dict.mem_keys_insert.mpr (Or.inr horphan.1), ?_⟩
      exact (Dict.get?_insert _ _ _ _).trans ((if_neg (hne hstarts)).trans horphan.2)

/-- Every run on a container without a shell raises `KeyError`, and changes nothing. -/
theorem keyError_of_orphan (command : String) (answers : RunAnswers)
    (horphan : Orphan executor context.executionId) :
    run config executor command context answers =
      (executor, .error (.keyError context.executionId)) := by
  obtain ⟨container, hactive⟩ := Dict.mem_keys_iff.mp horphan.1
  have hcached : getOrStartContainer config executor context answers.start =
      (executor, .ok container) := by
    unfold getOrStartContainer
    dsimp only
    rw [hactive]
  exact run_of_no_process hcached horphan.2

/-- A cleanup of the identifier. -/
def Call.Cleans (execId : String) : Call → Prop
  | .run _ _ _ => False
  | .cleanup context _ => context.executionId = execId

theorem perform_orphan (horphan : Orphan executor key) {call : Call}
    (hcall : ¬ call.Cleans key) : Orphan (perform config executor call).1 key := by
  have hcleanup : ∀ (context : SandboxContext) dockerStop (executor : SandboxExecutor),
      context.executionId ≠ key → Orphan executor key →
        Orphan (cleanup executor context dockerStop).1 key := by
    rintro context dockerStop executor hne ⟨hactive, hprocess⟩
    refine ⟨?_, ?_⟩
    · rw [cleanup_activeContainers, Dict.mem_keys_erase]
      exact ⟨hne.symm, hactive⟩
    · rw [cleanup_processes, Dict.get?_erase, if_neg hne.symm, hprocess]
  cases call with
  | cleanup context dockerStop => exact hcleanup context dockerStop executor hcall horphan
  | run command context answers =>
      by_cases hkey : context.executionId = key
      · subst hkey
        have hrun : run config executor command context answers =
            (executor, .error (.keyError context.executionId)) :=
          keyError_of_orphan command answers horphan
        unfold perform
        dsimp only
        rwa [hrun]
      · exact run_preserves (P := fun executor => Orphan executor key)
          (getOrStartContainer_orphan horphan) fun _ => hcleanup context _ _ hkey

/-- **A failed `Popen` is not healed by running again**: until its identifier is cleaned up,
every run on it raises `KeyError`. -/
theorem keyError_until_cleanup (horphan : Orphan executor context.executionId)
    {calls : List Call} (hcalls : ∀ call ∈ calls, ¬ call.Cleans context.executionId)
    (command : String) (answers : RunAnswers) :
    (run config ((sandbox config).run executor calls) command context answers).2 =
      .error (.keyError context.executionId) := by
  have horphan' : Orphan ((sandbox config).run executor calls) context.executionId := by
    refine System.run_invariant_of (I := fun executor => Orphan executor context.executionId)
      (fun executor call executor' h hcall hperform => ?_) horphan hcalls
    rw [← Option.some.inj hperform]
    exact perform_orphan h hcall
  rw [keyError_of_orphan command answers horphan']

/-- **The sequences of calls that keep the tables intact** are those in which no container is
started whose shell `Popen` fails to start. -/
theorem sessionTable_iff (config : Config) (shell : Adapter) (calls : List Call) :
    KeepsTables config shell calls ↔
      ∀ before call rest, calls = before ++ call :: rest →
        ¬ PopenFails config (after config shell before) call := by
  constructor
  · intro hkeeps before call rest heq hfails
    cases call with
    | cleanup context dockerStop => exact hfails
    | run command context answers =>
        have horphan := orphan_of_popenFails (after_backed config shell before) hfails
        exact horphan.not_tableIntact (hkeeps before _ rest heq).1
  · intro hpopen before call rest heq
    have hintact : TableIntact (after config shell before) := by
      refine System.run_invariant_along (I := TableIntact) (tableIntact_empty shell) ?_
      intro earlier call' later hbefore hintact
      refine (perform_keeps hintact (hpopen earlier call' (later ++ call :: rest) ?_)).1
      rw [heq, hbefore, List.append_assoc, List.cons_append]
    exact perform_keeps hintact (hpopen before call rest heq)

/-- `Popen` fails for the shell of `t`; the next run on `t` raises `KeyError`. -/
theorem second_run_keyError :
    ¬ KeepsTables ⟨"seccomp.json", "512m", "1.0", "/tmp/ucser", 30⟩ .bash
      [.run "ls" { executionId := "t", capabilities := {.exec} }
          { start := { popen := fun _ => some (.exception "Too many open files") }
            body := { rounds := [] } },
        .run "ls" { executionId := "t", capabilities := {.exec} }
          { body := { rounds := [] } }] := by
  intro hkeeps
  exact (hkeeps [_] _ [] rfl).2 "t" rfl

end Sandbox
end Ucser
