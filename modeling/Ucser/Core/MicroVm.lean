import Ucser.Core.Engine
import Ucser.Lib.Dict
import Ucser.Lib.PosixPath
import Ucser.Lib.Transition

/-!
# Virtual machines and their snapshots: `core/microvm.py`

`MicroVMExecutor` keeps the socket of a machine and a snapshot for each execution identifier.
A machine is started by the first `run`, and ended by `cleanup`; a snapshot is taken of a
running machine only, and is never given up.

* `createSnapshot`, `restoreSnapshot`, `startVm`, `run`, `cleanup` — the methods.
* `Call`, `microVms` — the calls on one executor, as a transition system.
* `Vm`, `view` — one execution, and what an executor keeps for it.
* `perform_own`, `view_after` — **executions do not interfere**: what is kept for one is the work
  of its own calls.
* `running_iff`, `restores_iff` — **when a machine runs, and when a snapshot can be restored**,
  from the calls before.
* `ownSocket_run` — the socket of a machine is that of its execution, or the mock one.
-/

namespace Ucser
namespace MicroVm

/-- The fields of the configuration the executor reads, and `tempfile.gettempdir()`. -/
structure Config where
  firecrackerBin : String
  tempDir : String

/-- A snapshot; its time is a reading of the clock. -/
structure Snapshot where
  memFile : String
  stateFile : String
  timestamp : Nat
  deriving DecidableEq

/-- `MicroVMExecutor`. -/
structure MicroVMExecutor where
  shell : String
  activeVms : Dict String String := .empty
  snapshots : Dict String Snapshot := .empty

/-- `os.path.join`. -/
def pathJoin (directory name : String) : String :=
  String.ofList (PosixPath.join directory.toList name.toList)

/-- `socket_path`. -/
def socketPath (execId : String) : String := "/tmp/firecracker_" ++ execId ++ ".socket"

/-- The socket of a machine that there is no Firecracker for. -/
def mockSocket : String := "mock_socket"

/-! ## The methods -/

variable (config : Config)

/-- The snapshot that `create_snapshot` keeps. -/
def newSnapshot (execId : String) (now : Nat) : Snapshot :=
  let snapDir := pathJoin config.tempDir ("ucser_snaps_" ++ execId)
  ⟨pathJoin snapDir "mem.snap", pathJoin snapDir "state.snap", now⟩

/-- `create_snapshot`; what does `os.makedirs` raise? -/
def createSnapshot (executor : MicroVMExecutor) (context : ExecutionContext)
    (makedirs : Option PyError) (now : Nat) : MicroVMExecutor × Except PyError Unit :=
  let execId := context.executionId
  if execId ∉ executor.activeVms.keys then (executor, .ok ())
  else
    match makedirs with
    | some e => (executor, .error e)
    | none =>
        ({ executor with
            snapshots := executor.snapshots.insert execId (newSnapshot config execId now) },
          .ok ())

/-- The socket of a new machine. -/
def newSocket (execId : String) (present : String → Bool) : String :=
  if present config.firecrackerBin then socketPath execId else mockSocket

/-- `_start_vm`; which files are there? -/
def startVm (executor : MicroVMExecutor) (context : ExecutionContext)
    (present : String → Bool) : MicroVMExecutor × String :=
  let execId := context.executionId
  let socket := newSocket config execId present
  ({ executor with activeVms := executor.activeVms.insert execId socket }, socket)

/-- `cleanup`, and the files it tries to remove. -/
def cleanup (executor : MicroVMExecutor) (context : ExecutionContext)
    (present : String → Bool) : MicroVMExecutor × List String :=
  let execId := context.executionId
  match executor.activeVms.get? execId with
  | none => (executor, [])
  | some socket =>
      ({ executor with activeVms := executor.activeVms.erase execId },
        if present socket then [socket] else [])

/-- What `restore_snapshot` raises. -/
def noSnapshot (execId : String) : PyError :=
  .valueError ("No snapshot found for execution " ++ execId)

/-- `restore_snapshot`: which files are there when the machine is ended, and which when the new
one is started? -/
def restoreSnapshot (executor : MicroVMExecutor) (context : ExecutionContext)
    (presentThen present : String → Bool) :
    MicroVMExecutor × List String × Except PyError Unit :=
  let execId := context.executionId
  if execId ∉ executor.snapshots.keys then (executor, [], .error (noSnapshot execId))
  else
    let (executor, removed) := cleanup executor context presentThen
    ((startVm config executor context present).1, removed, .ok ())

/-- What `run` returns. -/
def simulated (shell command : String) : RunResult where
  stdout := some (String.ofList (Text.strip
    ("[MicroVM: " ++ shell ++ "] Executed: " ++ command ++ "\n__UCSER_END_MOCK__").toList))
  stderr := some (String.ofList (Text.strip "".toList))
  exitCode := some 0
  sideEffects := some [("files_added", .arr []), ("files_removed", .arr [])]

/-- `run`. -/
def run (executor : MicroVMExecutor) (command : String) (context : ExecutionContext)
    (present : String → Bool) : MicroVMExecutor × RunResult :=
  (if context.executionId ∉ executor.activeVms.keys then
      (startVm config executor context present).1
    else executor, simulated executor.shell command)

/-! ## Calls on one executor -/

/-- A call, with what the outside answers to it. -/
inductive Call where
  | createSnapshot (context : ExecutionContext) (makedirs : Option PyError) (now : Nat)
  | restoreSnapshot (context : ExecutionContext) (presentThen present : String → Bool)
  | run (command : String) (context : ExecutionContext) (present : String → Bool)
  | cleanup (context : ExecutionContext) (present : String → Bool)

/-- The execution a call is for. -/
def Call.execId : Call → String
  | .createSnapshot context _ _ => context.executionId
  | .restoreSnapshot context _ _ => context.executionId
  | .run _ context _ => context.executionId
  | .cleanup context _ => context.executionId

/-- What comes of a call: what its caller gets, and the files that it tries to remove. -/
structure Reply where
  result : Except PyError (Option RunResult)
  removed : List String := []

/-- What a call leaves behind, and what comes of it. -/
def perform (executor : MicroVMExecutor) : Call → MicroVMExecutor × Reply
  | .createSnapshot context makedirs now =>
      let (executor, result) := createSnapshot config executor context makedirs now
      (executor, { result := result.map fun _ => none })
  | .restoreSnapshot context presentThen present =>
      let (executor, removed, result) := restoreSnapshot config executor context presentThen present
      (executor, { result := result.map fun _ => none, removed })
  | .run command context present =>
      let (executor, result) := run config executor command context present
      (executor, { result := .ok (some result) })
  | .cleanup context present =>
      let (executor, removed) := cleanup executor context present
      (executor, { result := .ok none, removed })

/-- The calls on one executor. -/
def microVms : System MicroVMExecutor Call :=
  ⟨fun executor call => some (perform config executor call).1⟩

/-- The executor of a shell after a sequence of calls. -/
def after (shell : String) (calls : List Call) : MicroVMExecutor :=
  (microVms config).run { shell := shell } calls

/-! ## One execution -/

/-- What is kept for one execution: the socket of its machine and its snapshot, if any. -/
structure Vm where
  socket : Option String := none
  snapshot : Option Snapshot := none

/-- What a call for one execution does to it. -/
def Vm.next (vm : Vm) : Call → Vm
  | .createSnapshot context makedirs now =>
      match vm.socket, makedirs with
      | some _, none =>
          { vm with snapshot := some (newSnapshot config context.executionId now) }
      | _, _ => vm
  | .restoreSnapshot context _ present =>
      match vm.snapshot with
      | some _ => { vm with socket := some (newSocket config context.executionId present) }
      | none => vm
  | .run _ context present =>
      { vm with socket := some (vm.socket.getD (newSocket config context.executionId present)) }
  | .cleanup _ _ => { vm with socket := none }

/-- What comes of the call. -/
def Vm.reply (shell : String) (vm : Vm) : Call → Reply
  | .createSnapshot _ makedirs _ =>
      match vm.socket, makedirs with
      | some _, some e => { result := .error e }
      | _, _ => { result := .ok none }
  | .restoreSnapshot context presentThen _ =>
      match vm.snapshot with
      | some _ => { result := .ok none, removed := vm.socket.toList.filter presentThen }
      | none => { result := .error (noSnapshot context.executionId) }
  | .run command _ _ => { result := .ok (some (simulated shell command)) }
  | .cleanup _ present => { result := .ok none, removed := vm.socket.toList.filter present }

/-- The calls for one execution. -/
def oneVm : System Vm Call := ⟨fun vm call => some (vm.next config call)⟩

variable {config} {executor : MicroVMExecutor} {execId : String} {call : Call}
  {context : ExecutionContext} {present : String → Bool}

/-- What an executor keeps for an execution. -/
def view (execId : String) (executor : MicroVMExecutor) : Vm :=
  ⟨executor.activeVms.get? execId, executor.snapshots.get? execId⟩

theorem view_startVm (execId : String) :
    view execId (startVm config executor context present).1 =
      if execId = context.executionId then
        { view execId executor with socket := some (newSocket config context.executionId present) }
      else view execId executor := by
  unfold view startVm
  rw [Dict.get?_insert]
  split_ifs
  · rfl
  · rfl

theorem view_cleanup (execId : String) :
    view execId (cleanup executor context present).1 =
      if execId = context.executionId then { view execId executor with socket := none }
      else view execId executor := by
  unfold view cleanup
  dsimp only
  split
  · rename_i hnone
    split_ifs with h
    · rw [h, hnone]
    · rfl
  · dsimp only
    rw [Dict.get?_erase]
    by_cases h : execId = context.executionId
    · rw [if_pos h, if_pos h]
    · rw [if_neg h, if_neg h]

theorem shell_cleanup : (cleanup executor context present).1.shell = executor.shell := by
  unfold cleanup
  dsimp only
  split
  · rfl
  · rfl

theorem removed_cleanup :
    (cleanup executor context present).2 =
      (executor.activeVms.get? context.executionId).toList.filter present := by
  unfold cleanup
  dsimp only
  split
  · rename_i hnone
    rw [hnone]
    rfl
  · rename_i socket hsocket
    rw [hsocket, Option.toList_some, List.filter_singleton]
    cases present socket with
    | true => rfl
    | false => rfl

/-- **A call does to its own execution what it would do to one alone**, and so it answers. -/
theorem perform_own (executor : MicroVMExecutor) (call : Call) :
    view call.execId (perform config executor call).1 =
        (view call.execId executor).next config call ∧
      (perform config executor call).2 =
        (view call.execId executor).reply executor.shell call := by
  cases call with
  | createSnapshot context makedirs now =>
      simp only [perform, createSnapshot, Call.execId]
      by_cases hmem : context.executionId ∈ executor.activeVms.keys
      · obtain ⟨socket, hsocket⟩ := Dict.mem_keys_iff.mp hmem
        cases makedirs with
        | some e => simp [hmem, hsocket, view, Vm.next, Vm.reply, Except.map]
        | none => simp [hmem, hsocket, view, Vm.next, Vm.reply, Except.map, Dict.get?_insert]
      · have hnone := Dict.get?_eq_none_iff.mpr hmem
        simp [hmem, hnone, view, Vm.next, Vm.reply, Except.map]
  | restoreSnapshot context presentThen present =>
      simp only [perform, restoreSnapshot, Call.execId]
      by_cases hmem : context.executionId ∈ executor.snapshots.keys
      · obtain ⟨snapshot, hsnapshot⟩ := Dict.mem_keys_iff.mp hmem
        have hview : view context.executionId executor =
            ⟨executor.activeVms.get? context.executionId, some snapshot⟩ := by
          rw [view, hsnapshot]
        simp [hmem, hview, view_startVm, view_cleanup, removed_cleanup, Vm.next, Vm.reply,
          Except.map]
      · have hnone := Dict.get?_eq_none_iff.mpr hmem
        simp [hmem, hnone, view, Vm.next, Vm.reply, Except.map]
  | run command context present =>
      simp only [perform, run, Call.execId]
      by_cases hmem : context.executionId ∈ executor.activeVms.keys
      · obtain ⟨socket, hsocket⟩ := Dict.mem_keys_iff.mp hmem
        simp [hmem, hsocket, view, Vm.next, Vm.reply]
      · have hview : (view context.executionId executor).socket = none :=
          Dict.get?_eq_none_iff.mpr hmem
        simp [hmem, hview, view_startVm, Vm.next, Vm.reply]
  | cleanup context present =>
      simp only [perform, Call.execId, Vm.next, Vm.reply, removed_cleanup]
      exact ⟨(view_cleanup _).trans (if_pos rfl), rfl⟩

/-- **It leaves the others alone.** -/
theorem view_perform_of_ne (h : call.execId ≠ execId) :
    view execId (perform config executor call).1 = view execId executor := by
  cases call with
  | createSnapshot context makedirs now =>
      have hne : execId ≠ context.executionId := Ne.symm h
      simp only [perform, createSnapshot]
      split_ifs
      · cases makedirs with
        | some e => rfl
        | none => simp [view, Dict.get?_insert, hne]
      · rfl
  | restoreSnapshot context presentThen present =>
      have hne : execId ≠ context.executionId := Ne.symm h
      simp only [perform, restoreSnapshot]
      split_ifs
      · rw [view_startVm, if_neg hne, view_cleanup, if_neg hne]
      · rfl
  | run command context present =>
      have hne : execId ≠ context.executionId := Ne.symm h
      simp only [perform, run]
      split_ifs
      · rfl
      · rw [view_startVm, if_neg hne]
  | cleanup context present =>
      have hne : execId ≠ context.executionId := Ne.symm h
      simp only [perform]
      rw [view_cleanup, if_neg hne]

theorem shell_perform (executor : MicroVMExecutor) (call : Call) :
    (perform config executor call).1.shell = executor.shell := by
  cases call with
  | createSnapshot context makedirs now =>
      simp only [perform, createSnapshot]
      split_ifs
      · cases makedirs with
        | some e => rfl
        | none => rfl
      · rfl
  | restoreSnapshot context presentThen present =>
      simp only [perform, restoreSnapshot]
      split_ifs
      · exact shell_cleanup
      · rfl
  | run command context present =>
      simp only [perform, run]
      split_ifs
      · rfl
      · rfl
  | cleanup context present => exact shell_cleanup

/-! ## Sequences of calls -/

variable {shell : String} {calls : List Call}

theorem shell_after (config : Config) (shell : String) (calls : List Call) :
    (after config shell calls).shell = shell := by
  induction calls using List.reverseRecOn with
  | nil => rfl
  | append_singleton calls call ih =>
      rw [after, System.run_concat]
      exact (shell_perform _ call).trans ih

/-- The calls for an execution. -/
def own (execId : String) (calls : List Call) : List Call :=
  calls.filter fun call => call.execId = execId

theorem own_own (execId : String) (calls : List Call) :
    own execId (own execId calls) = own execId calls := by
  simp [own]

/-- **Executions do not interfere**: what is kept for one is the work of its own calls. -/
theorem view_after (config : Config) (shell execId : String) (calls : List Call) :
    view execId (after config shell calls) = (oneVm config).run {} (own execId calls) := by
  refine System.view_run (fun executor call => ?_) _ calls
  by_cases h : call.execId = execId
  · subst h
    rw [if_pos (decide_eq_true rfl)]
    exact (perform_own executor call).1
  · rw [if_neg (by simpa using h)]
    exact view_perform_of_ne h

/-- And so are the answers. -/
theorem reply_after (config : Config) (shell : String) (calls : List Call) (call : Call) :
    (perform config (after config shell calls) call).2 =
      ((oneVm config).run {} (own call.execId calls)).reply shell call := by
  rw [(perform_own _ call).2, view_after, shell_after]

/-! ## From the calls before -/

/-- A call that starts a machine for an execution: a `run`, or a `restore_snapshot` that
returns. -/
def Starts (config : Config) (execId : String) (executor : MicroVMExecutor) : Call → Prop
  | .run _ context _ => context.executionId = execId
  | .restoreSnapshot context presentThen present =>
      context.executionId = execId ∧
        (restoreSnapshot config executor context presentThen present).2.2 = .ok ()
  | _ => False

/-- A call that ends it. -/
def Ends (execId : String) : Call → Prop
  | .cleanup context _ => context.executionId = execId
  | _ => False

/-- A machine has been started for an execution, and not been ended since. -/
def Running (config : Config) (shell execId : String) (calls : List Call) : Prop :=
  (microVms config).Since (Starts config execId) (Ends execId) { shell := shell } calls

/-- A snapshot of a running machine is taken. -/
def Snaps (execId : String) (executor : MicroVMExecutor) : Call → Prop
  | .createSnapshot context none _ =>
      context.executionId = execId ∧ (view execId executor).socket.isSome
  | _ => False

theorem execId_of_starts (h : Starts config execId executor call) : call.execId = execId := by
  cases call with
  | createSnapshot context makedirs now => exact h.elim
  | restoreSnapshot context presentThen present => exact h.1
  | run command context present => exact h
  | cleanup context present => exact h.elim

theorem execId_of_snaps (h : Snaps execId executor call) : call.execId = execId := by
  cases call with
  | createSnapshot context makedirs now =>
      cases makedirs with
      | some e => exact h.elim
      | none => exact h.1
  | restoreSnapshot context presentThen present => exact h.elim
  | run command context present => exact h.elim
  | cleanup context present => exact h.elim

theorem execId_of_ends (h : Ends execId call) : call.execId = execId := by
  cases call with
  | createSnapshot context makedirs now => exact h.elim
  | restoreSnapshot context presentThen present => exact h.elim
  | run command context present => exact h.elim
  | cleanup context present => exact h

theorem isSome_snapshot_iff :
    (view execId executor).snapshot.isSome ↔ execId ∈ executor.snapshots.keys := by
  rw [Dict.mem_keys_iff, Option.isSome_iff_exists]
  exact Iff.rfl

theorem restoreSnapshot_eq_ok_iff {presentThen : String → Bool} :
    (restoreSnapshot config executor context presentThen present).2.2 = .ok () ↔
      (view context.executionId executor).snapshot.isSome := by
  rw [isSome_snapshot_iff]
  simp only [restoreSnapshot]
  split_ifs with hmem
  · simp [hmem]
  · simp [hmem]

/-- A machine runs after a call if the call has started it, or has not ended it. -/
theorem socket_perform (executor : MicroVMExecutor) (call : Call) :
    (view execId (perform config executor call).1).socket.isSome ↔
      ¬ Ends execId call ∧
        (Starts config execId executor call ∨ (view execId executor).socket.isSome) := by
  by_cases h : call.execId = execId
  · subst h
    rw [(perform_own executor call).1]
    cases call with
    | createSnapshot context makedirs now =>
        simp only [Vm.next, Ends, Starts, Call.execId]
        split
        · simp [*]
        · simp
    | restoreSnapshot context presentThen present =>
        simp only [Vm.next, Ends, Starts, Call.execId, restoreSnapshot_eq_ok_iff]
        cases (view context.executionId executor).snapshot with
        | some snapshot => simp
        | none => simp
    | run command context present => simp [Vm.next, Ends, Starts, Call.execId]
    | cleanup context present => simp [Vm.next, Ends, Call.execId]
  · rw [view_perform_of_ne h]
    have hstarts : ¬ Starts config execId executor call := fun hs => h (execId_of_starts hs)
    have hends : ¬ Ends execId call := fun he => h (execId_of_ends he)
    simp [hstarts, hends]

/-- A snapshot is there after a call if the call has taken it, or it has been there. -/
theorem snapshot_perform (executor : MicroVMExecutor) (call : Call) :
    (view execId (perform config executor call).1).snapshot.isSome ↔
      Snaps execId executor call ∨ (view execId executor).snapshot.isSome := by
  by_cases h : call.execId = execId
  · subst h
    rw [(perform_own executor call).1]
    cases call with
    | createSnapshot context makedirs now =>
        cases makedirs with
        | some e => simp [Vm.next, Snaps]
        | none =>
            simp only [Vm.next, Snaps, Call.execId]
            cases (view context.executionId executor).socket with
            | some socket => simp
            | none => simp
    | restoreSnapshot context presentThen present =>
        simp only [Vm.next, Snaps, false_or]
        split
        · rfl
        · rfl
    | run command context present => simp [Vm.next, Snaps]
    | cleanup context present => simp [Vm.next, Snaps]
  · rw [view_perform_of_ne h]
    have hsnaps : ¬ Snaps execId executor call := fun hs => h (execId_of_snaps hs)
    simp [hsnaps]

/-- **When a machine runs**: since a call that has started it. -/
theorem running_iff (config : Config) (shell execId : String) (calls : List Call) :
    (view execId (after config shell calls)).socket.isSome ↔
      Running config shell execId calls :=
  System.run_iff_since (I := fun _ => True) (s := { shell := shell })
    (P := fun executor => (view execId executor).socket.isSome) (fun _ _ _ _ _ => trivial)
    (fun executor call _ => socket_perform executor call) trivial Bool.false_ne_true calls

/-- Once a snapshot has been taken of a running machine, it can be restored. -/
theorem snapshot_iff (config : Config) (shell execId : String) (calls : List Call) :
    (view execId (after config shell calls)).snapshot.isSome ↔
      (microVms config).Since (Snaps execId) (fun _ => False) { shell := shell } calls :=
  System.run_iff_since (I := fun _ => True) (s := { shell := shell })
    (P := fun executor => (view execId executor).snapshot.isSome) (fun _ _ _ _ _ => trivial)
    (fun executor call _ => (snapshot_perform executor call).trans (by simp)) trivial
    Bool.false_ne_true calls

/-- **When a snapshot can be restored**: once one has been taken of a running machine. -/
theorem restores_iff (config : Config) (shell : String) (calls : List Call)
    (context : ExecutionContext) (presentThen present : String → Bool) :
    (restoreSnapshot config (after config shell calls) context presentThen present).2.2 = .ok () ↔
      ∃ before c now rest, calls = before ++ .createSnapshot c none now :: rest ∧
        c.executionId = context.executionId ∧
        Running config shell context.executionId before := by
  rw [restoreSnapshot_eq_ok_iff, snapshot_iff]
  constructor
  · rintro ⟨before, call, rest, rfl, hsnaps, _⟩
    cases call with
    | createSnapshot c makedirs now =>
        cases makedirs with
        | some e => exact hsnaps.elim
        | none => exact ⟨before, c, now, rest, rfl, hsnaps.1, (running_iff ..).mp hsnaps.2⟩
    | restoreSnapshot c presentThen present => exact hsnaps.elim
    | run command c present => exact hsnaps.elim
    | cleanup c present => exact hsnaps.elim
  · rintro ⟨before, c, now, rest, rfl, hown, hrunning⟩
    exact ⟨before, _, rest, rfl, ⟨hown, (running_iff ..).mpr hrunning⟩, fun _ _ h => h⟩

/-! ## Sockets -/

/-- The socket of a machine is that of its execution, or none. -/
def OwnSocket (execId : String) (vm : Vm) : Prop :=
  ∀ socket ∈ vm.socket, socket = mockSocket ∨ socket = socketPath execId

theorem ownSocket_newSocket (config : Config) (execId : String) (present : String → Bool) :
    newSocket config execId present = mockSocket ∨
      newSocket config execId present = socketPath execId := by
  unfold newSocket
  split_ifs
  · exact Or.inr rfl
  · exact Or.inl rfl

theorem ownSocket_next {vm : Vm} (h : OwnSocket call.execId vm) :
    OwnSocket call.execId (vm.next config call) := by
  cases call with
  | createSnapshot context makedirs now =>
      simp only [Vm.next]
      split
      · exact h
      · exact h
  | restoreSnapshot context presentThen present =>
      simp only [Vm.next]
      split
      · rintro socket hsocket
        obtain rfl := Option.some.inj hsocket
        exact ownSocket_newSocket ..
      · exact h
  | run command context present =>
      rintro socket hsocket
      obtain rfl := Option.some.inj hsocket
      cases hvm : vm.socket with
      | some socket => exact h socket hvm
      | none => exact ownSocket_newSocket ..
  | cleanup context present =>
      rintro socket hsocket
      cases hsocket

theorem ownSocket_run {calls : List Call} (h : ∀ call ∈ calls, call.execId = execId) :
    OwnSocket execId ((oneVm config).run {} calls) := by
  refine System.run_invariant_of ?_ ?_ h
  · rintro vm call vm' hvm rfl hstep
    obtain rfl := Option.some.inj hstep
    exact ownSocket_next hvm
  · rintro socket hsocket
    cases hsocket

theorem mem_removed {vm : Vm} {path : String} (h : path ∈ (vm.reply shell call).removed) :
    path ∈ vm.socket := by
  cases call with
  | createSnapshot context makedirs now =>
      simp only [Vm.reply] at h
      split at h
      · cases h
      · cases h
  | restoreSnapshot context presentThen present =>
      simp only [Vm.reply] at h
      split at h
      · simpa using (List.mem_filter.mp h).1
      · cases h
  | run command context present => cases h
  | cleanup context present => simpa using (List.mem_filter.mp h).1

theorem socketPath_injective : Function.Injective socketPath := fun _ _ h =>
  (String.append_right_inj _).mp ((String.append_left_inj _).mp h)

end MicroVm
end Ucser
