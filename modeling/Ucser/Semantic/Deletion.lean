import Ucser.Lib.FileTree
import Ucser.Lib.ShellWords
import Ucser.Semantic.Parser

/-!
# Deleting with a rollback: `SemanticParser.build_intent_delete`

The record removes a path, and its rollback copies the path back from below the backup
directory.  No step puts a copy there.

* `buildIntentDelete` — the record.
* `bash` — what the two commands it is made of do to a tree of files; every other line is a
  parameter.
* `deleteAndRollback` — the steps, and then those of the rollback.
* `recovered_iff` — **when the file is back**: when another file with its content happens to
  be where `os.path.join` of the backup directory and the path leads.
* `absolute_not_recovered` — never for an absolute path: for it `os.path.join` gives the path
  itself.
-/

namespace Ucser
namespace Semantic

/-! ## The record -/

namespace SemanticParser

/-- `os.path.join(backup_dir, target_path)`. -/
def backupPath (backupDir targetPath : String) : String :=
  String.ofList (PosixPath.join backupDir.toList targetPath.toList)

/-- `del_cmd`. -/
def deleteCommand (isWindows : Bool) (targetPath : String) : String :=
  if isWindows then "Remove-Item -Path '" ++ targetPath ++ "' -Recurse -Force"
  else "rm -rf '" ++ targetPath ++ "'"

/-- `rb_cmd`. -/
def rollbackCommand (isWindows : Bool) (backupDir targetPath : String) : String :=
  if isWindows then
    "Copy-Item -Path '" ++ backupPath backupDir targetPath ++ "' -Destination '" ++
      targetPath ++ "'"
  else "cp -r '" ++ backupPath backupDir targetPath ++ "' '" ++ targetPath ++ "'"

/-- `build_intent_delete`, with `config.backup_base_dir`. -/
def buildIntentDelete (auditors : Auditors) (backupDir targetPath : String) (isWindows : Bool) :
    UCER :=
  let shell := if isWindows then Shell.powershell else Shell.bash
  let delCmd := deleteCommand isWindows targetPath
  { intent := "Delete file/directory: " ++ targetPath
    requiredCapabilities := CapabilityMapper.resolveForCommand auditors delCmd none
    executionSteps := [{ shell := shell, command := delCmd }]
    rollbackStrategy := some
      { enabled := true
        steps := [{ shell := shell, command := rollbackCommand isWindows backupDir targetPath,
                    ignoreErrors := true }] } }

end SemanticParser

/-! ## What the commands do -/

namespace Deletion

variable {α : Type}

/-- Is an argument of `rm` or `cp` read as options? -/
def isOption (arg : List Char) : Bool := arg.head? = some '-' && arg ≠ ['-']

/-- `rm -rf path`.  Without a path it does nothing; it refuses the root directory, `.` and
`..`. -/
def rm (cwd : List String) (path : List Char) (t : FileTree String α) : FileTree String α :=
  if isOption path then t
  else
    match t.resolve cwd path with
    | none => t
    | some p =>
        if t.isDir p ∧ (p = [] ∨ (PosixPath.components path).getLast? ∈
            [some ['.'], some ['.', '.']]) then t
        else t.remove p

/-- `cp -r src dst`, when nothing stands at `dst`: what is at `src`, if anything. -/
def cp (cwd : List String) (src : List Char) (dst : List String) (t : FileTree String α) :
    FileTree String α :=
  match t.resolve cwd src with
  | none => t
  | some s => t.put dst (t.sub s)

/-- A line for `bash`: `rm -rf path`, or `cp -r src dst` with two paths and a `dst` that is
free; what any other line does is given by `other`. -/
def bash (other : String → FileTree String α → FileTree String α) (cwd : List String)
    (command : String) (t : FileTree String α) : FileTree String α :=
  match ShellWords.split command.toList with
  | some [name, option, path] =>
      if name = ['r', 'm'] ∧ option = ['-', 'r', 'f'] then rm cwd path t else other command t
  | some [name, option, src, dst] =>
      if name = ['c', 'p'] ∧ option = ['-', 'r'] ∧ isOption src = false ∧ isOption dst = false then
        match t.resolve cwd dst with
        | none => other command t
        | some d => if (t.node d).isSome then other command t else cp cwd src d t
      else other command t
  | _ => other command t

/-- The steps, one after the other. -/
def runSteps (other : String → FileTree String α → FileTree String α) (cwd : List String)
    (steps : List ExecutionStep) (t : FileTree String α) : FileTree String α :=
  steps.foldl (fun t step =>
    if step.shell = .bash then bash other cwd step.command t else other step.command t) t

/-- The steps of a record, and then those of its rollback. -/
def deleteAndRollback (other : String → FileTree String α → FileTree String α)
    (cwd : List String) (ucer : UCER) (t : FileTree String α) : FileTree String α :=
  runSteps other cwd ((ucer.rollbackStrategy.map RollbackStrategy.steps).getD [])
    (runSteps other cwd ucer.executionSteps t)

/-! ## The commands as words -/

open SemanticParser

theorem split_deleteCommand {path : String} (h : '\'' ∉ path.toList) :
    ShellWords.split (deleteCommand false path).toList =
      some [['r', 'm'], ['-', 'r', 'f'], path.toList] := by
  have hline : (deleteCommand false path).toList =
      ShellWords.commandLine [['r', 'm'], ['-', 'r', 'f']] [path.toList] := by
    simp [deleteCommand, ShellWords.commandLine, ShellWords.quoteAll]
  rw [hline, ShellWords.split_commandLine (by decide) (by decide) (by simpa using h)]
  rfl

theorem split_rollbackCommand {backupDir path : String} (hbackup : '\'' ∉ backupDir.toList)
    (h : '\'' ∉ path.toList) :
    ShellWords.split (rollbackCommand false backupDir path).toList =
      some [['c', 'p'], ['-', 'r'], PosixPath.join backupDir.toList path.toList, path.toList] := by
  have hline : (rollbackCommand false backupDir path).toList =
      ShellWords.commandLine [['c', 'p'], ['-', 'r']]
        [PosixPath.join backupDir.toList path.toList, path.toList] := by
    simp [rollbackCommand, backupPath, ShellWords.commandLine, ShellWords.quoteAll]
  have hjoin : '\'' ∉ PosixPath.join backupDir.toList path.toList := by
    unfold PosixPath.join
    split_ifs <;> simp [hbackup, h]
  rw [hline, ShellWords.split_commandLine (by decide) (by decide) (by simp [hjoin, h])]
  rfl

/-! ## Whether the file is back -/

variable {other : String → FileTree String α → FileTree String α} {cwd : List String}
  {backupDir path : String} {t : FileTree String α} {content : α}

/-- A backup directory that is no option makes no option of a path that is none. -/
theorem isOption_join (hbackup : backupDir.toList.head? ≠ some '-')
    (h : isOption path.toList = false) :
    isOption (PosixPath.join backupDir.toList path.toList) = false := by
  unfold PosixPath.join
  cases hdir : backupDir.toList with
  | nil =>
      simp only [true_or, if_true, List.nil_append, ite_self]
      exact h
  | cons c rest =>
      rw [hdir] at hbackup
      have hc : c ≠ '-' := by simpa using hbackup
      split_ifs <;> first | exact h | simp [isOption, hc]

theorem runSteps_bash (command : String) (ignoreErrors : Bool) :
    runSteps other cwd [{ shell := .bash, command := command, ignoreErrors := ignoreErrors }] t =
      bash other cwd command t := by
  rw [runSteps, List.foldl_cons, List.foldl_nil, if_pos rfl]

/-- The record, run on a tree of files. -/
theorem deleteAndRollback_eq (auditors : Auditors) :
    deleteAndRollback other cwd (buildIntentDelete auditors backupDir path false) t =
      bash other cwd (rollbackCommand false backupDir path)
        (bash other cwd (deleteCommand false path) t) := by
  rw [← runSteps_bash (deleteCommand false path) false, ← runSteps_bash _ true]
  rfl

/-- Deleting removes the file, unless the path is an option. -/
theorem bash_deleteCommand (hpath : '\'' ∉ path.toList) (h : isOption path.toList = false)
    {file : List String} (hresolve : t.resolve cwd path.toList = some file)
    (hread : t.read file = some content) :
    bash other cwd (deleteCommand false path) t = t.remove file := by
  have hdir : t.isDir file = false := by
    by_contra hdir
    rw [FileTree.read_eq_none_of_isDir (Bool.not_eq_false _ ▸ hdir)] at hread
    exact absurd hread (by simp)
  simp [bash, split_deleteCommand hpath, rm, h, hresolve, hdir]

/-- Rolling back copies to where the file was. -/
theorem bash_rollbackCommand (hquote : '\'' ∉ backupDir.toList)
    (hbackup : backupDir.toList.head? ≠ some '-') (hpath : '\'' ∉ path.toList)
    (h : isOption path.toList = false) {file : List String}
    (hresolve : t.resolve cwd path.toList = some file) (hfree : t.node file = none) :
    bash other cwd (rollbackCommand false backupDir path) t =
      cp cwd (PosixPath.join backupDir.toList path.toList) file t := by
  simp [bash, split_rollbackCommand hquote hpath, hresolve, isOption_join hbackup h, h, hfree]

/-- The file has a copy: `os.path.join` of the backup directory and the path leads to another
file with this content. -/
def BackedUp (cwd : List String) (backupDir path : String) (content : α)
    (t : FileTree String α) : Prop :=
  t.lookup cwd (PosixPath.join backupDir.toList path.toList) = some content ∧
    t.resolve cwd (PosixPath.join backupDir.toList path.toList) ≠ t.resolve cwd path.toList

instance [DecidableEq α] : Decidable (BackedUp cwd backupDir path content t) :=
  inferInstanceAs (Decidable (_ ∧ _))

/-- Whether a file whose path is no option is back. -/
theorem recovered_iff_of_not_option (auditors : Auditors) (hquote : '\'' ∉ backupDir.toList)
    (hbackup : backupDir.toList.head? ≠ some '-') (hpath : '\'' ∉ path.toList)
    (hoption : isOption path.toList = false) (hfile : t.lookup cwd path.toList = some content) :
    (deleteAndRollback other cwd (buildIntentDelete auditors backupDir path false) t).lookup cwd
        path.toList = some content ↔ BackedUp cwd backupDir path content t := by
  obtain ⟨file, hresolve, hread⟩ := Option.bind_eq_some_iff.mp hfile
  have hgone : (t.remove file).node file = none := by
    refine FileTree.node_remove_self ?_
    rw [FileTree.read_eq_some_iff.mp hread]
    exact Option.some_ne_none _
  have hresolve' : (t.remove file).resolve cwd path.toList = some file := by
    rw [FileTree.resolve_remove hread, hresolve]
  rw [deleteAndRollback_eq, bash_deleteCommand hpath hoption hresolve hread,
    bash_rollbackCommand hquote hbackup hpath hoption hresolve' hgone, cp,
    FileTree.resolve_remove hread, BackedUp, FileTree.lookup, FileTree.lookup, hresolve]
  cases hsrc : t.resolve cwd (PosixPath.join backupDir.toList path.toList) with
  | none =>
      -- There is nothing to copy, and the file stays away.
      simp [hresolve', FileTree.read, hgone]
  | some src =>
      have hthere : ((t.remove file).put file ((t.remove file).sub src)).resolve cwd path.toList =
          some file :=
        FileTree.resolve_mono (fun _ => FileTree.isDir_put_of_isDir hgone _) hresolve'
      have hcopied : ((t.remove file).put file ((t.remove file).sub src)).read file =
          (t.remove file).read src := by
        rw [FileTree.read_put_remove hread, FileTree.read_sub, List.append_nil]
      simp only [hthere, Option.bind_some, hcopied, FileTree.read_remove_eq_some_iff hread,
        Option.some.injEq, ne_eq]

/-- **When a deleted file is back.**  After the steps of the record and those of its rollback
the path leads to a file with the old content exactly when the file has a copy where the
rollback looks for one; when the path is an option, nothing is deleted, and all depends on
what `cp` does with it. -/
theorem recovered_iff (auditors : Auditors) (hquote : '\'' ∉ backupDir.toList)
    (hbackup : backupDir.toList.head? ≠ some '-') (hpath : '\'' ∉ path.toList)
    (hfile : t.lookup cwd path.toList = some content) :
    (deleteAndRollback other cwd (buildIntentDelete auditors backupDir path false) t).lookup cwd
        path.toList = some content ↔
      if isOption path.toList then
        (other (rollbackCommand false backupDir path) t).lookup cwd path.toList = some content
      else BackedUp cwd backupDir path content t := by
  cases hoption : isOption path.toList with
  | false =>
      rw [if_neg Bool.false_ne_true]
      exact recovered_iff_of_not_option auditors hquote hbackup hpath hoption hfile
  | true =>
      have hdelete : bash other cwd (deleteCommand false path) t = t := by
        simp [bash, split_deleteCommand hpath, rm, hoption]
      have hrollback : bash other cwd (rollbackCommand false backupDir path) t =
          other (rollbackCommand false backupDir path) t := by
        simp [bash, split_rollbackCommand hquote hpath, hoption]
      rw [if_pos rfl, deleteAndRollback_eq, hdelete, hrollback]

/-- `test.txt` in `/tmp`, and a copy of it below `/tmp/ucser_backups`. -/
def box : FileTree String (List UInt8) :=
  ((((FileTree.leaf .directory).put ["tmp"] (FileTree.leaf .directory)).put ["tmp", "test.txt"]
    (FileTree.leaf (.file [111, 107]))).put ["tmp", "ucser_backups"]
      (FileTree.leaf .directory)).put ["tmp", "ucser_backups", "test.txt"]
        (FileTree.leaf (.file [111, 107]))

/-- From `/tmp` the file is back: there is a copy. -/
theorem recovered_copy :
    (deleteAndRollback (fun _ t => t) ["tmp"] (buildIntentDelete auditorsOfRemoval
      "/tmp/ucser_backups" "test.txt" false) box).lookup ["tmp"] "test.txt".toList =
        some [111, 107] :=
  (recovered_iff auditorsOfRemoval (by decide) (by decide) (by decide) (by decide +kernel)).mpr
    (by decide +kernel)

/-- **A file deleted by an absolute path is never back.** -/
theorem absolute_not_recovered (auditors : Auditors) (hquote : '\'' ∉ backupDir.toList)
    (hbackup : backupDir.toList.head? ≠ some '-') (hpath : '\'' ∉ path.toList)
    (habsolute : path.toList.head? = some '/') (hfile : t.lookup cwd path.toList = some content) :
    (deleteAndRollback other cwd (buildIntentDelete auditors backupDir path false) t).lookup cwd
        path.toList ≠ some content := by
  have hoption : isOption path.toList = false := by
    rw [isOption, habsolute]
    rfl
  intro hrecovered
  obtain ⟨-, hne⟩ :=
    (recovered_iff_of_not_option auditors hquote hbackup hpath hoption hfile).mp hrecovered
  rw [PosixPath.join, if_pos habsolute] at hne
  exact hne rfl

/-- `/tmp/test.txt` is gone for good, in the default backup directory too. -/
theorem deleted_for_good : ¬ ∀ (auditors : Auditors) (cwd : List String) (path : String)
    (other : String → FileTree String (List UInt8) → FileTree String (List UInt8))
    (t : FileTree String (List UInt8)) (content : List UInt8),
    '\'' ∉ path.toList → t.lookup cwd path.toList = some content →
    (deleteAndRollback other cwd (buildIntentDelete auditors "/tmp/ucser_backups" path false)
      t).lookup cwd path.toList = some content := by
  intro h
  exact absolute_not_recovered auditorsOfRemoval (by decide) (by decide) (by decide) (by decide)
    (by decide +kernel)
    (h auditorsOfRemoval [] "/tmp/test.txt" (fun _ t => t) box [111, 107] (by decide)
      (by decide +kernel))

end Deletion
end Semantic
end Ucser
