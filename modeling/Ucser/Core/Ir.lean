import Ucser.Core.Ucer
import Ucser.Engine.StateManager
import Ucser.Lib.PosixPath
import Ucser.Lib.ShellWords

/-!
# Paths across two systems: `core/ir.py`

`SemanticBridge` turns an operation on a path into a shell command, for the system the path
looks like, after it has checked that the path lies in the workspace.

* `resolveOsFromPath`, `Workspace.validatePath` — which system, and whether at all.
* `Executor`, `Session` — whoever is handed the commands, and what has been handed over.
* `delete`, `listDir`, `copy` — the operations; `sendChunks` and `receive` are the two loops
  of a copy across the boundary.
* `PosixHost` — the host of the service, where paths are POSIX paths.
* `workspaceContains_iff` — **when the workspace contains what is let through**: when what follows
  the name of the workspace in the path is empty or begins with a slash.
* `quotedVerbatim_iff` — **when the shell gets the path that was given**: when no single quote
  is in it.
-/

namespace Ucser
namespace SemanticBridge

/-! ## Which system a path belongs to -/

/-- The answers of `resolve_os_from_path`. -/
inductive TargetOs where
  | windows
  | linux
  | unknown
  deriving DecidableEq, Repr

/-- The answer as a text. -/
def TargetOs.name : TargetOs → String
  | windows => "WINDOWS"
  | linux => "LINUX"
  | unknown => "UNKNOWN"

/-- `re.match(r'^[a-zA-Z]:', path)`. -/
def hasDrive : List Char → Bool
  | c :: ':' :: _ => c.isAlpha
  | _ => false

/-- `resolve_os_from_path`. -/
def resolveOsFromPath (path : String) : TargetOs :=
  if path = "" then .unknown
  else if hasDrive path.toList then .windows
  else if ['\\', '\\'].isPrefixOf path.toList then .windows
  else if path.toList.head? = some '/' then .linux
  else .unknown

/-! ## Validation -/

/-- `os.path.abspath` of the host, and `config.workspace_base_dir`. -/
structure Workspace where
  abspath : String → String
  workspaceBaseDir : String

/-- The workspace as an absolute path. -/
def Workspace.baseDir (workspace : Workspace) : String :=
  workspace.abspath workspace.workspaceBaseDir

/-- `_validate_path`. -/
def Workspace.validatePath (workspace : Workspace) (path : String) : Except PyError Unit :=
  if path = "" then .ok ()
  else if workspace.baseDir.toList.isPrefixOf (workspace.abspath path).toList then .ok ()
  else .error (.securityError ("Sandbox escape detected! Path '" ++ workspace.abspath path ++
    "' is outside workspace '" ++ workspace.baseDir ++ "'"))

/-! ## Whoever executes the commands -/

/-- An item of a result: `{"type": …, "data": …, "stream": …}`. -/
structure Item where
  type : Option String := none
  data : String
  stream : String
  deriving DecidableEq

/-- The files on the two sides of the boundary. -/
structure Machines where
  host : String → Option Bytes
  guest : String → Option Bytes

/-- The host side with a file written. -/
def Machines.writeHost (machines : Machines) (path : String) (content : Bytes) : Machines :=
  { machines with host := Function.update machines.host path (some content) }

/-- The executor of a bridge: what the call `execute(command)` does, and what it does when
its result is iterated over. -/
structure Executor (ι : Type) where
  execute : String → Machines → Except PyError ι × Machines
  iterate : ι → Machines → (List Item × Except PyError Unit) × Machines

/-- What has happened so far: the commands that were handed over, and the files. -/
structure Session where
  calls : List String := []
  machines : Machines

/-- What an operation of the bridge returns: the result of `execute`, or a list of items. -/
inductive Answer (ι : Type) where
  | iterator (it : ι)
  | items (items : List Item)

/-- What goes wrong with the files of the host, and what `str(e)` makes of an exception. -/
structure Files where
  openRead : Option PyError := none
  read : Nat → Option PyError := fun _ => none
  makedirs : Option PyError := none
  openWrite : Option PyError := none
  write : Nat → Option PyError := fun _ => none
  close : Option PyError := none
  str : PyError → String

section Operations

variable {ι : Type} (executor : Executor ι)

/-- `self.executor.execute(command)`. -/
def hand (command : String) (s : Session) : Except PyError ι × Session :=
  ((executor.execute command s.machines).1,
    { calls := s.calls ++ [command], machines := (executor.execute command s.machines).2 })

/-- `return self.executor.execute(command)`. -/
def handOver (command : String) (s : Session) : Except PyError (Answer ι) × Session :=
  ((hand executor command s).1.map .iterator, (hand executor command s).2)

/-- `path.replace('/', '\\')`. -/
def winPath (path : String) : String :=
  String.ofList (path.toList.map fun c => if c = '/' then '\\' else c)

/-- `re.match(r'^[a-zA-Z]:$', win_path)`; the pattern also matches in front of a last
newline. -/
def isDriveRoot : List Char → Bool
  | [c, ':'] => c.isAlpha
  | [c, ':', '\n'] => c.isAlpha
  | _ => false

/-- The answer to a path that belongs to no system. -/
def unresolved (path : String) : Answer ι :=
  .items [⟨some "error", "Cannot resolve OS for path: " ++ path, "resolver"⟩]

variable (workspace : Workspace)

/-- `delete`. -/
def delete (path : String) (s : Session) : Except PyError (Answer ι) × Session :=
  match workspace.validatePath path with
  | .error e => (.error e, s)
  | .ok () =>
      match resolveOsFromPath path with
      | .windows => handOver executor
          ("ps:Remove-Item -Path '" ++ winPath path ++ "' -Recurse -Force") s
      | .linux => handOver executor ("bash:rm -rf '" ++ path ++ "'") s
      | .unknown => (.ok (unresolved path), s)

/-- `list_dir`. -/
def listDir (path : String) (s : Session) : Except PyError (Answer ι) × Session :=
  match workspace.validatePath path with
  | .error e => (.error e, s)
  | .ok () =>
      match resolveOsFromPath path with
      | .windows =>
          let root := if isDriveRoot (winPath path).toList then winPath path ++ "\\"
            else winPath path
          handOver executor ("ps:Get-ChildItem -Path '" ++ root ++
            "' -Force | Select-Object Name, Length, LastWriteTime, Mode") s
      | .linux => handOver executor ("bash:ls -la '" ++ path ++ "'") s
      | .unknown => (.ok (unresolved path), s)

variable (files : Files)

/-- `open(path, 'rb')`: the content, which nobody writes while it is read. -/
def openRead (machines : Machines) (path : String) : Except PyError Bytes :=
  match files.openRead with
  | some e => .error e
  | none =>
      match machines.host path with
      | some content => .ok content
      | none => .error (.exception "FileNotFoundError")

/-- `48 * 1024`. -/
def chunkSize : Nat := 49152

/-- The command that appends a chunk. -/
def transferCmd (dest : String) (chunk : Bytes) : String :=
  "bash:base64 -di << 'EOF_UCSER_CHUNK' >> '" ++ dest ++ "'\n" ++
    String.ofList (Text.b64encode chunk) ++ "\nEOF_UCSER_CHUNK"

/-- The loop that sends what is left of the source, from a given read on. -/
def sendChunks (dest : String) (reads : Nat) (content : Bytes) (s : Session) :
    Except PyError Unit × Session :=
  match files.read reads with
  | some e => (.error e, s)
  | none =>
      if content = [] then (.ok (), s)
      else
        match hand executor (transferCmd dest (content.take chunkSize)) s with
        | (.error e, s) => (.error e, s)
        | (.ok _, s) => sendChunks dest (reads + 1) (content.drop chunkSize) s
termination_by content.length
decreasing_by
  have hpos : 0 < content.length := List.length_pos_iff.mpr ‹_›
  rw [List.length_drop, chunkSize]
  omega

/-- The loop over the items of the guest, from a given write on: what has been written, and
whether it came to the end. -/
def receive (writes : Nat) (written : Bytes) : List Item → Bytes × Except PyError Unit
  | [] => (written, .ok ())
  | item :: items =>
      if item.stream = "stdout" ∧ Text.strip item.data.toList ≠ [] then
        match Text.b64decode (Text.strip item.data.toList) with
        | .error e => (written, .error (.base64Error e))
        | .ok bytes =>
            match files.write writes with
            | some e => (written, .error e)
            | none => receive (writes + 1) (written ++ bytes) items
      else receive writes written items

/-- The body of the copy from the host to the guest. -/
def streamToLinux (source dest : String) (s : Session) : Except PyError Unit × Session :=
  match hand executor ("bash:true > '" ++ dest ++ "'") s with
  | (.error e, s) => (.error e, s)
  | (.ok _, s) =>
      match openRead files s.machines (winPath source) with
      | .error e => (.error e, s)
      | .ok content => sendChunks executor files dest 0 content s

/-- The body of the copy from the guest to the host.  The file is closed in any case, and an
exception of `close` replaces another one. -/
def streamToWindows (source dest : String) (s : Session) : Except PyError Unit × Session :=
  match files.makedirs with
  | some e => (.error e, s)
  | none =>
      match hand executor ("bash:base64 '" ++ source ++ "'") s with
      | (.error e, s) => (.error e, s)
      | (.ok it, s) =>
          match files.openWrite with
          | some e => (.error e, s)
          | none =>
              let iterated := executor.iterate it (s.machines.writeHost (winPath dest) [])
              let received := receive files 0 [] iterated.1.1
              let outcome := match files.close with
                | some e => .error e
                | none => received.2.bind fun _ => iterated.1.2
              (outcome, { s with
                machines := iterated.2.writeHost (winPath dest) received.1 })

/-- The record of a copy that went through. -/
def bridged (source dest : String) : Item :=
  ⟨some "text", "Successfully bridged " ++ source ++ " -> " ++ dest ++ " (streamed)", "bridge"⟩

/-- `except Exception as e`, around either body. -/
def report (direction source dest : String) (outcome : Except PyError Unit × Session) :
    Except PyError (Answer ι) × Session :=
  match outcome with
  | (.ok (), s) => (.ok (.items [bridged source dest]), s)
  | (.error e, s) =>
      if e.isException then
        (.ok (.items [⟨some "error", "Bridge Copy (" ++ direction ++ ") Failed: " ++ files.str e,
          "bridge"⟩]), s)
      else (.error e, s)

/-- `copy`. -/
def copy (source dest : String) (s : Session) : Except PyError (Answer ι) × Session :=
  match workspace.validatePath source, workspace.validatePath dest with
  | .error e, _ => (.error e, s)
  | .ok (), .error e => (.error e, s)
  | .ok (), .ok () =>
      match resolveOsFromPath source, resolveOsFromPath dest with
      | .windows, .windows => handOver executor ("ps:Copy-Item -Path '" ++ winPath source ++
          "' -Destination '" ++ winPath dest ++ "' -Recurse -Force") s
      | .linux, .linux => handOver executor
          ("bash:cp -r '" ++ source ++ "' '" ++ dest ++ "'") s
      | .windows, .linux =>
          report files "W->L" source dest (streamToLinux executor files source dest s)
      | .linux, .windows =>
          report files "L->W" source dest (streamToWindows executor files source dest s)
      | src, dst => (.ok (.items [⟨some "error", "Unsupported cross-boundary operation: " ++
          src.name ++ " -> " ++ dst.name, "resolver"⟩]), s)

end Operations

/-! ## Containment -/

/-- The host of the service: a POSIX system with a working directory. -/
structure PosixHost where
  cwd : String
  workspaceBaseDir : String
  cwd_absolute : cwd.toList.head? = some '/'

/-- Its `os.path.abspath`, and its workspace. -/
def PosixHost.workspace (host : PosixHost) : Workspace where
  abspath path := String.ofList (PosixPath.abspath host.cwd.toList path.toList)
  workspaceBaseDir := host.workspaceBaseDir

/-- The path lies in the workspace, component by component. -/
def InWorkspace (workspace : Workspace) (path : String) : Prop :=
  PosixPath.Within workspace.baseDir.toList (workspace.abspath path).toList

/-- What follows the workspace in the path is empty or begins with a slash, unless the
workspace is the root. -/
def EndsAtSlash (workspace : Workspace) (path : String) : Prop :=
  ∀ rest, (workspace.abspath path).toList = workspace.baseDir.toList ++ rest →
    PosixPath.components workspace.baseDir.toList = [] ∨ rest = [] ∨ rest.head? = some '/'

theorem validatePath_eq_ok_iff {workspace : Workspace} {path : String} :
    workspace.validatePath path = .ok () ↔
      path = "" ∨ workspace.baseDir.toList <+: (workspace.abspath path).toList := by
  unfold Workspace.validatePath
  split_ifs with hempty hprefix
  · simp [hempty]
  · simp [List.isPrefixOf_iff_prefix.mp hprefix]
  · rw [List.isPrefixOf_iff_prefix] at hprefix
    simp [hempty, hprefix]

/-- On a POSIX host, the check lets through what is in the workspace exactly when the text
that follows the name of the workspace does not go on with it. -/
theorem validated_iff (host : PosixHost) (path : String) :
    (host.workspace.validatePath path = .ok () → path = "" ∨ InWorkspace host.workspace path) ↔
      path = "" ∨ EndsAtSlash host.workspace path := by
  by_cases hempty : path = ""
  · simp [hempty]
  · obtain ⟨a, ha⟩ := PosixPath.abspath_eq_path host.cwd_absolute path.toList
    obtain ⟨b, hb⟩ :=
      PosixPath.abspath_eq_path host.cwd_absolute host.workspaceBaseDir.toList
    have hpath : (host.workspace.abspath path).toList = a.path := by
      rw [← ha]
      exact String.toList_ofList
    have hbase : host.workspace.baseDir.toList = b.path := by
      rw [← hb]
      exact String.toList_ofList
    rw [validatePath_eq_ok_iff, EndsAtSlash, InWorkspace, hpath, hbase, b.components_path]
    simp only [hempty, false_or]
    constructor
    · intro h rest hrest
      exact (PosixPath.Absolute.within_iff_of_append hrest).mp (h ⟨rest, hrest.symm⟩)
    · rintro h ⟨rest, hrest⟩
      exact (PosixPath.Absolute.within_iff_of_append hrest.symm).mpr (h rest hrest.symm)

section Containment

variable {ι : Type} (executor : Executor ι) (workspace : Workspace) (files : Files)

/-- A path, and what the operations on it hand over. -/
structure PathContained (path : String) (s : Session) : Prop where
  validated : workspace.validatePath path = .ok () → path = "" ∨ InWorkspace workspace path
  refused : ¬ (path = "" ∨ InWorkspace workspace path) →
    ∃ message, workspace.validatePath path = .error (.securityError message)
  deleted : (delete executor workspace path s).2.calls ≠ s.calls → InWorkspace workspace path
  listed : (listDir executor workspace path s).2.calls ≠ s.calls → InWorkspace workspace path

/-- Two paths: the operations on each, and the copy from one to the other. -/
structure Contained (source dest : String) (s : Session) : Prop where
  ofSource : PathContained executor workspace source s
  ofDest : PathContained executor workspace dest s
  copied : (copy executor workspace files source dest s).2.calls ≠ s.calls →
    InWorkspace workspace source ∧ InWorkspace workspace dest

end Containment

section Issues

variable {ι : Type} {executor : Executor ι} {workspace : Workspace} {files : Files}
  {path source dest : String} {s : Session}

/-- A path that belongs to a system is not empty. -/
theorem resolveOsFromPath_ne_unknown (h : resolveOsFromPath path ≠ .unknown) : path ≠ "" := by
  rintro rfl
  exact h (by rw [resolveOsFromPath, if_pos rfl])

theorem validatePath_cases (workspace : Workspace) (path : String) :
    workspace.validatePath path = .ok () ∨
      ∃ message, workspace.validatePath path = .error (.securityError message) := by
  unfold Workspace.validatePath
  split_ifs
  · exact Or.inl rfl
  · exact Or.inl rfl
  · exact Or.inr ⟨_, rfl⟩

/-- What hands nothing over for a path that is refused, or whose system is unknown, hands
something over only for a path that was let through. -/
theorem validated_of_ne {α : Type} {calls calls' : α}
    (hrefused : ∀ e, workspace.validatePath path = .error e → calls' = calls)
    (hunknown : workspace.validatePath path = .ok () → resolveOsFromPath path = .unknown →
      calls' = calls) (h : calls' ≠ calls) :
    workspace.validatePath path = .ok () ∧ path ≠ "" := by
  rcases validatePath_cases workspace path with hok | ⟨message, herror⟩
  · exact ⟨hok, resolveOsFromPath_ne_unknown fun hos => h (hunknown hok hos)⟩
  · exact absurd (hrefused _ herror) h

/-- `delete` hands a command over only for a path that was let through. -/
theorem validated_of_delete (h : (delete executor workspace path s).2.calls ≠ s.calls) :
    workspace.validatePath path = .ok () ∧ path ≠ "" :=
  validated_of_ne (fun e herror => by simp only [delete, herror])
    (fun hok hos => by simp only [delete, hok, hos]) h

/-- So does `list_dir`. -/
theorem validated_of_listDir (h : (listDir executor workspace path s).2.calls ≠ s.calls) :
    workspace.validatePath path = .ok () ∧ path ≠ "" :=
  validated_of_ne (fun e herror => by simp only [listDir, herror])
    (fun hok hos => by simp only [listDir, hok, hos]) h

/-- And `copy`, for both paths. -/
theorem validated_of_copy (h : (copy executor workspace files source dest s).2.calls ≠ s.calls) :
    (workspace.validatePath source = .ok () ∧ source ≠ "") ∧
      (workspace.validatePath dest = .ok () ∧ dest ≠ "") := by
  unfold copy at h
  rcases validatePath_cases workspace source with hsource | ⟨message, herror⟩
  · rcases validatePath_cases workspace dest with hdest | ⟨message, herror⟩
    · rw [hsource, hdest] at h
      refine ⟨⟨hsource, resolveOsFromPath_ne_unknown ?_⟩,
        ⟨hdest, resolveOsFromPath_ne_unknown ?_⟩⟩
      · intro hunknown
        rw [hunknown] at h
        exact h (by cases resolveOsFromPath dest <;> rfl)
      · intro hunknown
        rw [hunknown] at h
        exact h (by cases resolveOsFromPath source <;> rfl)
    · rw [hsource, herror] at h
      exact absurd rfl h
  · rw [herror] at h
    exact absurd rfl h

/-- Whatever the check guarantees of a path, the operations hand over no other. -/
theorem pathContained_iff : PathContained executor workspace path s ↔
    (workspace.validatePath path = .ok () → path = "" ∨ InWorkspace workspace path) := by
  constructor
  · exact PathContained.validated
  · intro h
    refine ⟨h, fun hout => ?_, fun hcalls => ?_, fun hcalls => ?_⟩
    · rcases validatePath_cases workspace path with hok | herror
      · exact absurd (h hok) hout
      · exact herror
    · obtain ⟨hok, hne⟩ := validated_of_delete hcalls
      exact (h hok).resolve_left hne
    · obtain ⟨hok, hne⟩ := validated_of_listDir hcalls
      exact (h hok).resolve_left hne

end Issues

/-- **When the workspace contains what is let through.**  The check and the operations keep
to the workspace exactly when, in both paths, the name of the workspace ends at a slash. -/
theorem workspaceContains_iff {ι : Type} (executor : Executor ι) (host : PosixHost) (files : Files)
    (source dest : String) (s : Session) :
    Contained executor host.workspace files source dest s ↔
      (source = "" ∨ EndsAtSlash host.workspace source) ∧
        (dest = "" ∨ EndsAtSlash host.workspace dest) := by
  rw [← validated_iff host source, ← validated_iff host dest]
  constructor
  · exact fun h => ⟨h.ofSource.validated, h.ofDest.validated⟩
  · rintro ⟨hsource, hdest⟩
    refine ⟨pathContained_iff.mpr hsource, pathContained_iff.mpr hdest, fun hcalls => ?_⟩
    obtain ⟨⟨hsok, hsne⟩, hdok, hdne⟩ := validated_of_copy hcalls
    exact ⟨(hsource hsok).resolve_left hsne, (hdest hdok).resolve_left hdne⟩

/-- A host whose workspace is `/ws`. -/
def wsHost : PosixHost where
  cwd := String.ofList ['/', 'w', 's']
  workspaceBaseDir := String.ofList ['/', 'w', 's']
  cwd_absolute := by rw [String.toList_ofList]; rfl

theorem wsHost_baseDir : wsHost.workspace.baseDir.toList = ['/', 'w', 's'] := by
  simp only [Workspace.baseDir, PosixHost.workspace, wsHost, String.toList_ofList]
  decide

theorem wsHost_abspath (path : List Char) :
    (wsHost.workspace.abspath (String.ofList path)).toList =
      PosixPath.abspath ['/', 'w', 's'] path := by
  simp only [PosixHost.workspace, wsHost, String.toList_ofList]

/-- What it lets through. -/
theorem wsHost_accepts {path : List Char}
    (h : ['/', 'w', 's'] <+: PosixPath.abspath ['/', 'w', 's'] path) :
    wsHost.workspace.validatePath (String.ofList path) = .ok () := by
  rw [validatePath_eq_ok_iff, wsHost_baseDir, wsHost_abspath]
  exact Or.inr h

/-- An executor that does nothing. -/
def idle : Executor Unit where
  execute _ machines := (.ok (), machines)
  iterate _ machines := (([], .ok ()), machines)

/-- No file anywhere. -/
def noFiles : Session where
  machines := ⟨fun _ => none, fun _ => none⟩

/-- `/ws-evil`, which is no path in `/ws`. -/
def sibling : String := String.ofList ['/', 'w', 's', '-', 'e', 'v', 'i', 'l']

/-- It is let through. -/
theorem sibling_not_contained :
    ¬ Contained idle wsHost.workspace { str := fun _ => "" } sibling sibling noFiles := by
  intro h
  rcases h.ofSource.validated (wsHost_accepts (by decide)) with hempty | hin
  · exact absurd (congrArg String.toList hempty) (by rw [sibling, String.toList_ofList]; simp)
  · rw [InWorkspace, wsHost_baseDir, sibling, wsHost_abspath] at hin
    exact absurd hin (by decide)

/-! ## Quoting -/

/-- The one thing that was handed over is a command for bash, and the shell cuts it into
these words. -/
def HandsOver {α : Type} (words : List String) (s : Session) (outcome : α × Session) : Prop :=
  ∃ text : String, outcome.2.calls = s.calls ++ ["bash:" ++ text] ∧
    ShellWords.split text.toList = some (words.map String.toList)

section Quoting

variable {ι : Type} {executor : Executor ι} {workspace : Workspace} {files : Files}
  {source dest : String}

theorem handsOver_handOver {words : List String} {text : String} {s : Session} :
    HandsOver words s (handOver executor ("bash:" ++ text) s) ↔
      ShellWords.split text.toList = some (words.map String.toList) := by
  constructor
  · rintro ⟨text', hcalls, hsplit⟩
    obtain rfl : text = text' := by
      have hlast := List.append_cancel_left hcalls
      exact (String.append_right_inj _).mp (List.singleton_inj.mp hlast)
    exact hsplit
  · exact fun hsplit => ⟨text, rfl, hsplit⟩

/-- A command of plain words and quoted paths is handed over as these exactly when no quote is
in the paths. -/
theorem handsOver_iff {words paths : List String} {text : String} (hne : words ≠ [])
    (hplain : ∀ word ∈ words, ShellWords.PlainWord word.toList)
    (hline : text.toList =
      ShellWords.commandLine (words.map String.toList) (paths.map String.toList)) {s : Session} :
    HandsOver (words ++ paths) s (handOver executor ("bash:" ++ text) s) ↔
      ∀ path ∈ paths, '\'' ∉ path.toList := by
  rw [handsOver_handOver, hline, List.map_append,
    ShellWords.split_commandLine_iff (by simpa using hne) (List.forall_mem_map.mpr hplain),
    List.forall_mem_map]

/-- What `delete` does with a path of the guest that was let through. -/
theorem delete_linux (hok : workspace.validatePath source = .ok ())
    (hos : resolveOsFromPath source = .linux) (s : Session) :
    delete executor workspace source s =
      handOver executor ("bash:" ++ ("rm -rf '" ++ source ++ "'")) s := by
  rw [delete, hok, hos, ← String.append_assoc, ← String.append_assoc]
  rfl

theorem listDir_linux (hok : workspace.validatePath source = .ok ())
    (hos : resolveOsFromPath source = .linux) (s : Session) :
    listDir executor workspace source s =
      handOver executor ("bash:" ++ ("ls -la '" ++ source ++ "'")) s := by
  rw [listDir, hok, hos, ← String.append_assoc, ← String.append_assoc]
  rfl

theorem copy_linux (hsource : workspace.validatePath source = .ok ())
    (hdest : workspace.validatePath dest = .ok ())
    (hsourceOs : resolveOsFromPath source = .linux) (hdestOs : resolveOsFromPath dest = .linux)
    (s : Session) :
    copy executor workspace files source dest s =
      handOver executor ("bash:" ++ ("cp -r '" ++ source ++ "' '" ++ dest ++ "'")) s := by
  rw [copy, hsource, hdest, hsourceOs, hdestOs, ← String.append_assoc, ← String.append_assoc,
    ← String.append_assoc, ← String.append_assoc]
  rfl

/-- **When the shell gets the path that was given.**  For paths of the guest that were let
through, each of the three commands comes apart into its words and the paths exactly when no
single quote is in them. -/
theorem quotedVerbatim_iff (executor : Executor ι) (files : Files)
    (hsource : workspace.validatePath source = .ok ())
    (hdest : workspace.validatePath dest = .ok ())
    (hsourceOs : resolveOsFromPath source = .linux) (hdestOs : resolveOsFromPath dest = .linux)
    (s : Session) :
    (HandsOver ["rm", "-rf", source] s (delete executor workspace source s) ↔
        '\'' ∉ source.toList) ∧
      (HandsOver ["ls", "-la", source] s (listDir executor workspace source s) ↔
        '\'' ∉ source.toList) ∧
      (HandsOver ["cp", "-r", source, dest] s
          (copy executor workspace files source dest s) ↔
        '\'' ∉ source.toList ∧ '\'' ∉ dest.toList) := by
  refine ⟨?_, ?_, ?_⟩
  · rw [delete_linux hsource hsourceOs]
    have h := @handsOver_iff _ executor ["rm", "-rf"] [source] ("rm -rf '" ++ source ++ "'")
      (by simp) (by decide) (by simp [ShellWords.commandLine, ShellWords.quoteAll]) s
    simpa using h
  · rw [listDir_linux hsource hsourceOs]
    have h := @handsOver_iff _ executor ["ls", "-la"] [source] ("ls -la '" ++ source ++ "'")
      (by simp) (by decide) (by simp [ShellWords.commandLine, ShellWords.quoteAll]) s
    simpa using h
  · rw [copy_linux hsource hdest hsourceOs hdestOs]
    have h := @handsOver_iff _ executor ["cp", "-r"] [source, dest]
      ("cp -r '" ++ source ++ "' '" ++ dest ++ "'") (by simp) (by decide)
      (by simp [ShellWords.commandLine, ShellWords.quoteAll]) s
    simpa using h

end Quoting

theorem resolveOsFromPath_of_slash {path : String} (h : path.toList.head? = some '/') :
    resolveOsFromPath path = .linux := by
  obtain ⟨rest, hpath⟩ : ∃ rest, path.toList = '/' :: rest := by
    cases hlist : path.toList with
    | nil => simp [hlist] at h
    | cons c rest => exact ⟨rest, by simpa [hlist] using h⟩
  have hne : path ≠ "" := by
    rintro rfl
    simp at h
  have hdrive : hasDrive ('/' :: rest) = false := by
    cases rest with
    | nil => rfl
    | cons c rest =>
        by_cases hc : c = ':'
        · subst hc
          rfl
        · simp [hasDrive, hc]
  rw [resolveOsFromPath, if_neg hne, hpath, hdrive]
  simp

/-- `/ws/a`. -/
def wsFile : String := String.ofList ['/', 'w', 's', '/', 'a']

/-- It is copied to itself by the words that were meant. -/
theorem wsFile_quotedVerbatim : HandsOver ["cp", "-r", wsFile, wsFile] noFiles
    (copy idle wsHost.workspace { str := fun _ => "" } wsFile wsFile noFiles) := by
  have hok : wsHost.workspace.validatePath wsFile = .ok () := wsHost_accepts (by decide)
  have hos : resolveOsFromPath wsFile = .linux :=
    resolveOsFromPath_of_slash (by rw [wsFile, String.toList_ofList]; rfl)
  have hquote : '\'' ∉ wsFile.toList := by
    rw [wsFile, String.toList_ofList]
    decide
  exact (quotedVerbatim_iff idle { str := fun _ => "" } hok hok hos hos noFiles).2.2.mpr
    ⟨hquote, hquote⟩

/-- `/ws/';id;'`. -/
def injected : String := String.ofList ['/', 'w', 's', '/', '\'', ';', 'i', 'd', ';', '\'']

/-- It is let through, and what `delete` hands over for it is not the words that were meant. -/
theorem injected_not_verbatim :
    wsHost.workspace.validatePath injected = .ok () ∧ resolveOsFromPath injected = .linux ∧
      ¬ HandsOver ["rm", "-rf", injected] noFiles
        (delete idle wsHost.workspace injected noFiles) := by
  have hok : wsHost.workspace.validatePath injected = .ok () := wsHost_accepts (by decide)
  have hos : resolveOsFromPath injected = .linux :=
    resolveOsFromPath_of_slash (by rw [injected, String.toList_ofList]; rfl)
  refine ⟨hok, hos, ?_⟩
  rw [delete_linux hok hos, handsOver_handOver]
  have hsplit : ShellWords.split ("rm -rf '" ++ injected ++ "'").toList = none := by
    simp only [injected, String.toList_append, String.toList_ofList]
    decide
  rw [hsplit]
  simp

end SemanticBridge
end Ucser
