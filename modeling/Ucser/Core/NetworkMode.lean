import Ucser.Core.SessionTable

/-!
# The network a command runs in

The network mode of a container is fixed by the context that starts it; later runs are given
the container by their execution identifier alone.  The facade copies a context with other
capabilities under the same identifier.

* `executedIn` — the container whose shell takes the command of a run.
* `NetworkFollows` — a command is executed on `bridge` only if its own context has `NETWORK`.
* `perform_process` — **what one call does to the shells**: it closes one, opens one, or leaves
  them.
* `BridgeLeft`, `bridgeShell_iff` — a shell is on `bridge` exactly since a run with `NETWORK`
  that nothing has closed.
* `networkFollows_iff` — **the sequences of calls in which the network follows the
  capability**.
-/

namespace Ucser
namespace Sandbox

variable {config : Config} {executor : SandboxExecutor} {context : SandboxContext}
  {start : StartAnswers} {command : String} {answers : RunAnswers} {key : String}
  {container : Container}

/-! ## Where a command is executed -/

/-- The shell is alive and takes the command. -/
def Takes (shell : Adapter) (command : String) (answers : RunAnswers) : Prop :=
  answers.body.died = false ∧
    answers.body.write (wrap shell command (marker answers.markerId)) = none

instance (shell : Adapter) (command : String) (answers : RunAnswers) :
    Decidable (Takes shell command answers) :=
  inferInstanceAs (Decidable (_ ∧ _))

/-- The container of the shell that takes the command of a run. -/
def executedIn (config : Config) (executor : SandboxExecutor) (command : String)
    (context : SandboxContext) (answers : RunAnswers) : Option Container :=
  match getOrStartContainer config executor context answers.start with
  | (_, .error _) => none
  | (executor, .ok _) =>
      match executor.processes.get? context.executionId,
          executor.outputQueues.get? context.executionId,
          executor.errorQueues.get? context.executionId with
      | some container, some _, some _ =>
          if Takes executor.shell command answers then some container else none
      | _, _, _ => none

/-- A run that is executed somewhere reaches its body. -/
theorem run_of_executedIn
    (h : executedIn config executor command context answers = some container) :
    run config executor command context answers =
      conclude config (getOrStartContainer config executor context answers.start).1 command
        context answers := by
  unfold executedIn at h
  unfold run
  cases hresult : getOrStartContainer config executor context answers.start with
  | mk executor' outcome =>
      rw [hresult] at h
      cases outcome with
      | error e => exact absurd h (by simp)
      | ok given =>
          dsimp only at h ⊢
          cases hprocess : executor'.processes.get? context.executionId with
          | none => exact absurd h (by simp [hprocess])
          | some process =>
              cases houtput : executor'.outputQueues.get? context.executionId with
              | none => exact absurd h (by simp [houtput])
              | some output =>
                  cases herror : executor'.errorQueues.get? context.executionId with
                  | none => exact absurd h (by simp [herror])
                  | some error => rfl

/-- A command is executed in a container on `bridge` only if `NETWORK` is in the capabilities
of the context of that very run. -/
def NetworkFollows (config : Config) (shell : Adapter) (calls : List Call) : Prop :=
  ∀ before command context answers rest container,
    calls = before ++ .run command context answers :: rest →
      executedIn config (after config shell before) command context answers = some container →
        container.network = "bridge" → .network ∈ context.capabilities

theorem networkMode_eq_bridge :
    networkMode context = "bridge" ↔ .network ∈ context.capabilities := by
  unfold networkMode
  split_ifs with h
  · exact iff_of_true rfl h
  · exact iff_of_false (by decide) h

/-- The command that starts a container says its network mode. -/
theorem network_mem_startCmd (config : Config) (shell : Adapter) (context : SandboxContext)
    (start : StartAnswers) :
    "--network=" ++ (newContainer context start).network ∈
      startCmd config shell context start := by
  unfold startCmd buildDockerStartCmd newContainer
  simp

/-! ## The shells after one call -/

/-- A container is started, and its shell in it. -/
def Opens (config : Config) (executor : SandboxExecutor) (context : SandboxContext)
    (start : StartAnswers) : Prop :=
  Starts config executor context start ∧ popenRaises executor context start = none

namespace Call

/-- The call opens a shell under the identifier, in that container. -/
def Opens (config : Config) (executor : SandboxExecutor) (execId : String)
    (container : Container) : Call → Prop
  | .run _ context answers =>
      context.executionId = execId ∧ Sandbox.Opens config executor context answers.start ∧
        newContainer context answers.start = container
  | .cleanup _ _ => False

/-- The call cleans up the identifier, or is a run on it that does so in its `except`. -/
def Closes (config : Config) (shell : Adapter) (execId : String) : Call → Prop
  | .run command context answers =>
      context.executionId = execId ∧ cleansUp config shell command answers = true
  | .cleanup context _ => context.executionId = execId

end Call

theorem getOrStartContainer_shell :
    (getOrStartContainer config executor context start).1.shell = executor.shell := by
  have houtcome := getOrStartContainer_outcome config executor context start
  generalize getOrStartContainer config executor context start = result at houtcome ⊢
  cases houtcome with
  | cached found hactive => rfl
  | refused workspaces e hfresh hstarts hworkspaces => rfl
  | orphaned e hstarts hraises => rfl
  | opened hstarts hnone => rfl

theorem perform_shell (call : Call) :
    (perform config executor call).1.shell = executor.shell := by
  cases call with
  | run command context answers =>
      exact run_preserves (P := fun executor' => executor'.shell = executor.shell)
        getOrStartContainer_shell fun _ h => cleanup_shell.trans h
  | cleanup context dockerStop => exact cleanup_shell

theorem after_shell (config : Config) (shell : Adapter) (calls : List Call) :
    (after config shell calls).shell = shell :=
  after_of_perform (I := fun executor => executor.shell = shell)
    (fun _ h call => (perform_shell call).trans h) rfl calls

theorem getOrStartContainer_process (hbacked : Backed executor) :
    (getOrStartContainer config executor context start).1.processes.get? key =
        some container ↔
      (context.executionId = key ∧ Opens config executor context start ∧
        newContainer context start = container) ∨
      executor.processes.get? key = some container := by
  have houtcome := getOrStartContainer_outcome config executor context start
  generalize getOrStartContainer config executor context start = result at houtcome ⊢
  cases houtcome with
  | cached found hactive =>
      refine (or_iff_right ?_).symm
      rintro ⟨_, ⟨⟨hfresh, _⟩, _⟩, _⟩
      exact hfresh (Dict.mem_keys_of_get? hactive)
  | refused workspaces e hfresh hnot hworkspaces =>
      refine (or_iff_right ?_).symm
      rintro ⟨_, ⟨hstarts, _⟩, _⟩
      exact hnot hstarts
  | orphaned e hstarts hraises =>
      refine (or_iff_right ?_).symm
      rintro ⟨_, ⟨_, hnone⟩, _⟩
      exact absurd (hraises.symm.trans hnone) (by simp)
  | opened hstarts hnone =>
      have hinsert := Dict.get?_insert executor.processes context.executionId key
        (newContainer context start)
      refine (Eq.congr_left hinsert).trans ?_
      by_cases hkey : key = context.executionId
      · have hold : executor.processes.get? key = none := by
          rw [hkey]
          exact hbacked.process_eq_none hstarts.1
        rw [if_pos hkey, hold]
        simp [hkey, Opens, hstarts, hnone]
      · rw [if_neg hkey]
        simp [Ne.symm hkey]

/-- Without a container given, there is no shell under the identifier. -/
theorem no_process_of_error (hbacked : Backed executor) {executor' : SandboxExecutor}
    {e : CallError}
    (h : getOrStartContainer config executor context start = (executor', .error e)) :
    executor'.processes.get? context.executionId = none := by
  have houtcome := getOrStartContainer_outcome config executor context start
  rw [h] at houtcome
  cases houtcome with
  | refused workspaces e hfresh hnot hworkspaces => exact hbacked.process_eq_none hfresh
  | orphaned e hstarts hraises => exact hbacked.process_eq_none hstarts.1

/-- The shells after a run are those its start has left, without its own if it cleans up. -/
theorem run_process (hbacked : Backed executor) :
    (run config executor command context answers).1.processes.get? key =
      if context.executionId = key ∧ cleansUp config executor.shell command answers = true then
        none
      else (getOrStartContainer config executor context answers.start).1.processes.get? key := by
  have hbacked' : Backed (getOrStartContainer config executor context answers.start).1 :=
    getOrStartContainer_backed hbacked
  have hshell : (getOrStartContainer config executor context answers.start).1.shell =
      executor.shell := getOrStartContainer_shell
  cases hresult : getOrStartContainer config executor context answers.start with
  | mk executor' outcome =>
      rw [hresult] at hbacked' hshell
      -- a run that does not reach its body leaves no shell that it could have closed
      have hskipped : executor'.processes.get? context.executionId = none →
          executor'.processes.get? key =
            if context.executionId = key ∧ cleansUp config executor.shell command answers = true
              then none
            else executor'.processes.get? key := by
        intro hnone
        split_ifs with hcloses
        · rw [← hcloses.1, hnone]
        · rfl
      cases outcome with
      | error e =>
          rw [run_of_error hresult]
          exact hskipped (no_process_of_error hbacked hresult)
      | ok container =>
          cases hprocess : executor'.processes.get? context.executionId with
          | none =>
              rw [run_of_no_process hresult hprocess]
              exact hskipped hprocess
          | some found =>
              rw [run_of_tabled hresult (hbacked' _ _ hprocess).2, conclude_fst, hshell]
              by_cases hcleans : cleansUp config executor.shell command answers = true
              · rw [if_pos hcleans, cleanup_processes, Dict.get?_erase]
                simp [hcleans, eq_comm]
              · rw [if_neg hcleans, if_neg fun h => hcleans h.2]

/-- **What one call does to the shells**: it closes one, opens one, or leaves them. -/
theorem perform_process (hbacked : Backed executor) (call : Call) :
    (perform config executor call).1.processes.get? key = some container ↔
      ¬ call.Closes config executor.shell key ∧
        (call.Opens config executor key container ∨
          executor.processes.get? key = some container) := by
  cases call with
  | run command context answers =>
      refine (Eq.congr_left (run_process hbacked)).trans ?_
      by_cases hcloses : context.executionId = key ∧
          cleansUp config executor.shell command answers = true
      · rw [if_pos hcloses]
        exact iff_of_false (by simp) fun h => h.1 hcloses
      · rw [if_neg hcloses]
        exact (getOrStartContainer_process hbacked).trans (and_iff_right hcloses).symm
  | cleanup context dockerStop =>
      have hprocess : (cleanup executor context dockerStop).1.processes.get? key =
          if key = context.executionId then none else executor.processes.get? key := by
        rw [cleanup_processes, Dict.get?_erase]
      refine (Eq.congr_left hprocess).trans ?_
      by_cases hkey : key = context.executionId
      · rw [if_pos hkey]
        exact iff_of_false (by simp) fun h => h.1 hkey.symm
      · rw [if_neg hkey]
        have hstays : ¬ (Call.cleanup context dockerStop).Closes config executor.shell key :=
          fun h => hkey h.symm
        exact ⟨fun h => ⟨hstays, Or.inr h⟩, fun h => h.2.resolve_left fun hopens => hopens⟩

/-! ## Where the shells come from -/

/-- A shell is opened under the identifier, in a container that is started with `NETWORK`. -/
def Call.OpensBridge (config : Config) (executor : SandboxExecutor) (execId : String) :
    Call → Prop
  | .run _ context answers =>
      context.executionId = execId ∧ Sandbox.Opens config executor context answers.start ∧
        .network ∈ context.capabilities
  | .cleanup _ _ => False

/-- An earlier run with `NETWORK` has opened a shell under the identifier, and no call has
closed it since. -/
def BridgeLeft (config : Config) (shell : Adapter) (calls : List Call) (execId : String) : Prop :=
  (sandbox config).Since (fun executor call => call.OpensBridge config executor execId)
    (Call.Closes config shell execId) { shell := shell } calls

theorem opensBridge_iff {call : Call} :
    call.OpensBridge config executor key ↔
      ∃ container, call.Opens config executor key container ∧ container.network = "bridge" := by
  cases call with
  | cleanup context dockerStop => simp [Call.OpensBridge, Call.Opens]
  | run command context answers =>
      constructor
      · rintro ⟨hkey, hopens, hnetwork⟩
        exact ⟨_, ⟨hkey, hopens, rfl⟩, networkMode_eq_bridge.mpr hnetwork⟩
      · rintro ⟨container, ⟨hkey, hopens, rfl⟩, hbridge⟩
        exact ⟨hkey, hopens, networkMode_eq_bridge.mp hbridge⟩

/-- **A shell is on `bridge`** exactly since a run with `NETWORK` that nothing has closed. -/
theorem bridgeShell_iff (config : Config) (shell : Adapter) (calls : List Call)
    (execId : String) :
    (∃ container, (after config shell calls).processes.get? execId = some container ∧
        container.network = "bridge") ↔
      BridgeLeft config shell calls execId := by
  refine System.run_iff_since
    (I := fun executor => Backed executor ∧ executor.shell = shell)
    (P := fun executor => ∃ container, executor.processes.get? execId = some container ∧
      container.network = "bridge") ?_ ?_ ⟨backed_empty shell, rfl⟩ ?_ calls
  · rintro executor call executor' ⟨hbacked, hshell⟩ hperform
    rw [← Option.some.inj hperform]
    exact ⟨perform_backed hbacked call, (perform_shell call).trans hshell⟩
  · rintro executor call ⟨hbacked, rfl⟩
    rw [sandbox_exec, opensBridge_iff]
    simp only [perform_process hbacked]
    constructor
    · rintro ⟨container, ⟨hstays, hopens | hfound⟩, hbridge⟩
      · exact ⟨hstays, Or.inl ⟨container, hopens, hbridge⟩⟩
      · exact ⟨hstays, Or.inr ⟨container, hfound, hbridge⟩⟩
    · rintro ⟨hstays, ⟨container, hopens, hbridge⟩ | ⟨container, hfound, hbridge⟩⟩
      · exact ⟨container, ⟨hstays, Or.inl hopens⟩, hbridge⟩
      · exact ⟨container, ⟨hstays, Or.inr hfound⟩, hbridge⟩
  · rintro ⟨container, hfound, _⟩
    exact absurd (backed_empty shell execId container hfound).1 (by simp [Dict.get?, Dict.empty])

/-! ## Does the network follow the capability? -/

/-- A command is executed in the container of the shell that was there before, or in the one
its own run has started. -/
theorem executedIn_eq_some_iff (hbacked : Backed executor) :
    executedIn config executor command context answers = some container ↔
      Takes executor.shell command answers ∧
        (getOrStartContainer config executor context answers.start).1.processes.get?
          context.executionId = some container := by
  have hbacked' : Backed (getOrStartContainer config executor context answers.start).1 :=
    getOrStartContainer_backed hbacked
  have hshell : (getOrStartContainer config executor context answers.start).1.shell =
      executor.shell := getOrStartContainer_shell
  unfold executedIn
  cases hresult : getOrStartContainer config executor context answers.start with
  | mk executor' outcome =>
      rw [hresult] at hbacked' hshell
      cases outcome with
      | error e =>
          refine iff_of_false (by simp) fun h => ?_
          exact absurd ((no_process_of_error hbacked hresult).symm.trans h.2) (by simp)
      | ok given =>
          dsimp only
          cases hprocess : executor'.processes.get? context.executionId with
          | none => simp
          | some found =>
              have htabled := (hbacked' _ _ hprocess).2
              obtain ⟨output, houtput⟩ := Dict.mem_keys_iff.mp htabled.output
              obtain ⟨error, herror⟩ := Dict.mem_keys_iff.mp htabled.error
              rw [houtput, herror, hshell]
              dsimp only
              split_ifs with htakes
              · exact (and_iff_right htakes).symm
              · exact iff_of_false (by simp) fun h => htakes h.1

/-- **The sequences of calls in which the network follows the capability** are those in which
no run without `NETWORK` writes to the shell that a run with it has left under its
identifier. -/
theorem networkFollows_iff (config : Config) (shell : Adapter) (calls : List Call) :
    NetworkFollows config shell calls ↔
      ∀ before command context answers rest,
        calls = before ++ .run command context answers :: rest →
          .network ∉ context.capabilities → Takes shell command answers →
            ¬ BridgeLeft config shell before context.executionId := by
  constructor
  · intro hfollows before command context answers rest heq hnarrow htakes hleft
    have hbacked := after_backed config shell before
    obtain ⟨container, hfound, hbridge⟩ :=
      (bridgeShell_iff config shell before context.executionId).mpr hleft
    refine hnarrow (hfollows before command context answers rest container heq ?_ hbridge)
    rw [executedIn_eq_some_iff hbacked, after_shell, getOrStartContainer_process hbacked]
    exact ⟨htakes, Or.inr hfound⟩
  · intro hfresh before command context answers rest container heq hexecuted hbridge
    have hbacked := after_backed config shell before
    rw [executedIn_eq_some_iff hbacked, after_shell,
      getOrStartContainer_process hbacked] at hexecuted
    obtain ⟨htakes, ⟨_, _, rfl⟩ | hfound⟩ := hexecuted
    · exact networkMode_eq_bridge.mp hbridge
    · by_contra hnarrow
      exact hfresh before command context answers rest heq hnarrow htakes
        ((bridgeShell_iff config shell before context.executionId).mp
          ⟨container, hfound, hbridge⟩)

/-- The rounds of a command that exits with zero. -/
def quietRounds : List Round :=
  [⟨[], .line (marker "0").toList⟩, ⟨[], .line "__UCSER_EXIT__:0".toList⟩]

/-- A run with `NETWORK` leaves its container to the next run of `t`, which has none. -/
theorem narrowed_run_on_bridge :
    ¬ NetworkFollows ⟨"seccomp.json", "512m", "1.0", "/tmp/ucser", 30⟩ .bash
      [.run "ls" { executionId := "t", capabilities := {.exec, .network} }
          { body := { rounds := quietRounds } },
        .run "curl example.com" { executionId := "t", capabilities := {.exec} }
          { body := { rounds := quietRounds } }] := by
  intro hfollows
  have hnetwork := hfollows [_] _ _ _ [] ⟨"ucser_t_0000", "bridge"⟩ rfl rfl rfl
  exact absurd hnetwork (by decide)

end Sandbox
end Ucser
