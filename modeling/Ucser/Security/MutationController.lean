import Ucser.Engine.Fingerprint
import Ucser.Lib.FileTree

/-!
# The mutation cycle: `security/mutation_controller.py`

`run_cycle` takes the fingerprint of `./core` before, the fingerprint of the workspace
directory after, and calls any difference drift.

* `shown` — what `os.walk` and the ignore lists leave of a directory.
* `capture`, `restore`, `cleanup` — the snapshot of `./core` in its tree of files.
* `appendLog`, `logEvent` — the line in `autonomous_audit.log`, a file of the workspace
  directory that is never shown.
* `runCycle` — the cycle, around any change made between the two measurements.
* `Detects` — drift is logged and rolled back exactly when `./core` has changed.
* `detects_iff` — **when it is**: an unchanged `./core` must be shown by the workspace
  directory file by file; when `./core` has changed the workspace directory must differ from
  what it was, and still differ once the backup is in its place; and the log must open.
* `false_alarm` — with the default workspace directory nothing has to change for a rollback.
* `not_logged` — with `./core` itself as the workspace directory a rollback that works is
  never logged.
-/

namespace Ucser
namespace MutationController

open DirTree (passedOver ignoredDir)

/-! ## What is measured -/

/-- The map from relative path to content over the files below a directory that are not
ignored. -/
def shown (t : FileTree String Bytes) (root : List String) (path : RelPath) : Option Bytes :=
  if passedOver path then none else t.read (root ++ path)

/-- What is shown of a directory are the files of its tree. -/
theorem shown_eq_contents {t : FileTree String Bytes} {root : List String} {tree : Tree}
    (h : ∀ path, t.node (root ++ path) = tree.1.node? path) : shown t root = tree.1.contents := by
  funext path
  rw [shown, DirTree.contents_eq, FileTree.read, h]

/-- The same for a directory given by a path; `os.walk` shows nothing where there is none. -/
def shownAt (t : FileTree String Bytes) (cwd : List String) (root : List Char) :
    RelPath → Option Bytes :=
  match t.resolve cwd root with
  | none => fun _ => none
  | some root => shown t root

/-! ## The snapshot -/

/-- `./core`. -/
def core (cwd : List String) : List String := cwd ++ ["core"]

/-- `./core_snapshot_` and the MD5 digest of `./core`. -/
def backup (cwd : List String) : List String :=
  cwd ++ ["core_snapshot_6ca700b25ec2770ca9638634cab0ca43"]

/-- `shutil.rmtree`, which raises where there is no directory. -/
def rmtree (t : FileTree String Bytes) (path : List String) : Option (FileTree String Bytes) :=
  if t.isDir path then some (t.remove path) else none

/-- `shutil.copytree` to where nothing is. -/
def copytree (t : FileTree String Bytes) (src dst : List String) :
    Option (FileTree String Bytes) :=
  if t.isDir src then some (t.put dst (t.sub src)) else none

/-- `cleanup`. -/
def cleanup (cwd : List String) (t : FileTree String Bytes) : Option (FileTree String Bytes) :=
  if t.node (backup cwd) = none then some t else rmtree t (backup cwd)

/-- `capture`: an earlier backup is removed, and `cp -al` makes the new one. -/
def capture (cwd : List String) (t : FileTree String Bytes) : Option (FileTree String Bytes) := do
  let t ← cleanup cwd t
  if t.node (core cwd) = none then none
  else some (t.put (backup cwd) (t.sub (core cwd)))

/-- `restore`, as far as files go. -/
def restore (cwd : List String) (t : FileTree String Bytes) : Option (FileTree String Bytes) :=
  if t.node (backup cwd) = none then some t
  else do
    let t ← rmtree t (core cwd)
    copytree t (backup cwd) (core cwd)

/-! ## The cycle -/

variable {δ : Type} [DecidableEq δ]

/-- The entry of `autonomous_audit.log`. -/
structure LogEntry (δ : Type) where
  mutationId : String
  testResult : String
  remediationLogic : String
  hashPre : δ
  hashPost : δ
  driftDetected : Bool

/-- The entry that `log_event` writes, without its time. -/
def entryOf (mutationId testResult remediation : String) (hashPre hashPost : δ) : LogEntry δ where
  mutationId := mutationId
  testResult := testResult
  remediationLogic := remediation
  hashPre := hashPre
  hashPost := hashPost
  driftDetected := hashPre ≠ hashPost

/-- `self.log_file`. -/
def logFile (workspaceDir : List Char) : List Char :=
  PosixPath.join workspaceDir "autonomous_audit.log".toList

/-- `open(self.log_file, "a")`, and a line written; it raises where the directory is gone or a
directory is in its place. -/
def appendLog (cwd : List String) (workspaceDir : List Char) (line : Bytes)
    (t : FileTree String Bytes) : Option (FileTree String Bytes) := do
  let path ← t.resolve cwd (logFile workspaceDir)
  if t.isDir path then none else some (t.write path ((t.read path).getD [] ++ line))

/-- `log_event`, where `line` is the text of an entry. -/
def logEvent (line : LogEntry δ → Bytes) (cwd : List String) (workspaceDir : List Char)
    (mutationId testResult remediation : String) (hashPre hashPost : δ)
    (t : FileTree String Bytes) : Option (FileTree String Bytes × LogEntry δ) :=
  let entry := entryOf mutationId testResult remediation hashPre hashPost
  (appendLog cwd workspaceDir (line entry) t).map fun logged => (logged, entry)

/-- How a cycle ends: the files, whether the backup has been put in the place of `./core`, and
what is logged. -/
structure Cycle (δ : Type) where
  tree : FileTree String Bytes
  rolledBack : Bool
  entry : LogEntry δ

/-- What `run_cycle` does from the second measurement on; `none` is an exception.  Where there
is no backup `restore` puts nothing back. -/
def verify (calculateFsHash : (RelPath → Option Bytes) → δ) (line : LogEntry δ → Bytes)
    (cwd : List String) (workspaceDir : List Char) (hashPre : δ) (found : FileTree String Bytes) :
    Option (Cycle δ) := do
  let hashPost := calculateFsHash (shownAt found cwd workspaceDir)
  if hashPre ≠ hashPost then
    let restored ← restore cwd found
    let hashPost := calculateFsHash (shownAt restored cwd workspaceDir)
    let (logged, entry) ←
      logEvent line cwd workspaceDir "INIT" "Setup" "None" hashPre hashPost restored
    some ⟨logged, (found.node (backup cwd)).isSome, entry⟩
  else
    let cleaned ← cleanup cwd found
    let (logged, entry) ←
      logEvent line cwd workspaceDir "INIT" "Setup" "None" hashPre hashPost cleaned
    some ⟨logged, false, entry⟩

/-- `run_cycle`, with what changes between the two measurements. -/
def runCycle (calculateFsHash : (RelPath → Option Bytes) → δ) (line : LogEntry δ → Bytes)
    (cwd : List String) (workspaceDir : List Char)
    (change : FileTree String Bytes → FileTree String Bytes) (before : FileTree String Bytes) :
    Option (Cycle δ) := do
  let hashPre := calculateFsHash (shown before (core cwd))
  let captured ← capture cwd before
  verify calculateFsHash line cwd workspaceDir hashPre (change captured)

/-- The cycle comes to its end, logs drift and rolls back exactly when `./core` has changed,
and otherwise reports nothing and leaves `./core` as it was. -/
def Detects (result : Option (Cycle δ)) (cwd : List String) (before found : FileTree String Bytes) :
    Prop :=
  ∃ cycle, result = some cycle ∧
    (cycle.entry.driftDetected = true ∧ cycle.rolledBack = true ↔
      shown found (core cwd) ≠ shown before (core cwd)) ∧
    (shown found (core cwd) = shown before (core cwd) →
      cycle.entry.driftDetected = false ∧ cycle.rolledBack = false ∧
        shown cycle.tree (core cwd) = shown before (core cwd))

/-- The log opens: its directory is there, and no directory is in its place. -/
def LogOpens (cwd : List String) (workspaceDir : List Char) (t : FileTree String Bytes) : Prop :=
  ∃ path, t.resolve cwd (logFile workspaceDir) = some path ∧ t.isDir path = false

/-- When the cycle is right about what it finds: an unchanged `./core` is what the workspace
directory shows, the backup can be removed, and then the log opens; with `./core` changed, the
workspace directory shows something else than `./core` did, the backup can be put in place, and
then the workspace directory still shows something else and the log opens. -/
def Seen (cwd : List String) (workspaceDir : List Char) (before found : FileTree String Bytes) :
    Prop :=
  (shown found (core cwd) = shown before (core cwd) →
    shownAt found cwd workspaceDir = shown before (core cwd) ∧
      (found.node (backup cwd) = none ∨ found.isDir (backup cwd) = true) ∧
      LogOpens cwd workspaceDir (found.remove (backup cwd))) ∧
  (shown found (core cwd) ≠ shown before (core cwd) →
    shownAt found cwd workspaceDir ≠ shown before (core cwd) ∧
      found.isDir (core cwd) = true ∧ found.isDir (backup cwd) = true ∧
      shownAt (found.put (core cwd) (found.sub (backup cwd))) cwd workspaceDir ≠
        shown before (core cwd) ∧
      LogOpens cwd workspaceDir (found.put (core cwd) (found.sub (backup cwd))))

/-! ## Both directories -/

theorem core_beside_backup (cwd : List String) : ¬ core cwd <+: backup cwd := by
  rw [core, backup, List.prefix_append_right_inj]
  decide

theorem backup_beside_core (cwd : List String) : ¬ backup cwd <+: core cwd := by
  rw [core, backup, List.prefix_append_right_inj]
  decide

/-- The files below a directory beside the backup are not touched by what becomes of it. -/
theorem shown_put_backup (cwd : List String) (t other : FileTree String Bytes) :
    shown (t.put (backup cwd) other) (core cwd) = shown t (core cwd) := by
  funext path
  have hbeside : ¬ backup cwd <+: core cwd ++ path := by
    intro hpre
    rcases List.prefix_or_prefix_of_prefix hpre (List.prefix_append (core cwd) path) with h | h
    · exact backup_beside_core cwd h
    · exact core_beside_backup cwd h
  rw [shown, shown, FileTree.read_put_beside other hbeside]

/-- What `cleanup` does. -/
theorem cleanup_eq_some_iff {cwd : List String} {t t' : FileTree String Bytes} :
    cleanup cwd t = some t' ↔
      (t.node (backup cwd) = none ∨ t.isDir (backup cwd) = true) ∧ t' = t.remove (backup cwd) := by
  unfold cleanup rmtree
  by_cases hnone : t.node (backup cwd) = none
  · rw [if_pos hnone, FileTree.remove_of_none hnone, Option.some.injEq]
    exact ⟨fun h => ⟨.inl hnone, h.symm⟩, fun h => h.2.symm⟩
  · rw [if_neg hnone]
    split_ifs with hdir <;> simp [hnone, hdir, eq_comm]

theorem shown_cleanup {cwd : List String} {t t' : FileTree String Bytes}
    (h : cleanup cwd t = some t') : shown t' (core cwd) = shown t (core cwd) := by
  rw [(cleanup_eq_some_iff.mp h).2]
  exact shown_put_backup cwd t FileTree.empty

/-- What `restore` does. -/
theorem restore_eq_some_iff {cwd : List String} {t t' : FileTree String Bytes} :
    restore cwd t = some t' ↔
      t.node (backup cwd) = none ∧ t' = t ∨
        t.isDir (core cwd) = true ∧ t.isDir (backup cwd) = true ∧
          t' = t.put (core cwd) (t.sub (backup cwd)) := by
  unfold restore
  by_cases hnone : t.node (backup cwd) = none
  · have hdir : t.isDir (backup cwd) = false := by rw [FileTree.isDir, hnone]
    simp only [hnone, if_true, Option.some.injEq, true_and, hdir, Bool.false_eq_true, false_and,
      and_false, or_false]
    exact eq_comm
  · rw [if_neg hnone]
    by_cases hcore : t.isDir (core cwd) = true
    · have hreach : t.Reachable (core cwd) :=
        FileTree.reachable_of_node
          (by rw [FileTree.isDir_iff.mp hcore]; exact Option.some_ne_none _)
      have hdir : (t.remove (core cwd)).isDir (backup cwd) = t.isDir (backup cwd) := by
        rw [FileTree.isDir, FileTree.isDir, FileTree.node_remove_beside (core_beside_backup cwd)]
      have hbackup : (t.remove (core cwd)).sub (backup cwd) = t.sub (backup cwd) :=
        FileTree.sub_remove (core_beside_backup cwd) (backup_beside_core cwd)
      rw [rmtree, if_pos hcore, Option.bind_eq_bind, Option.bind_some, copytree, hdir, hbackup,
        FileTree.put_remove hreach]
      simp only [hnone, hcore, false_and, false_or, true_and]
      split_ifs with h
      · simp only [h, Option.some.injEq, true_and]
        exact eq_comm
      · simp [h]
    · simp [rmtree, hcore, hnone]

/-! ## The log -/

/-- A path is passed over when the name at its end is. -/
theorem passedOver_concat {name : String} (h : DirTree.ignoredFile name = true) (path : RelPath) :
    passedOver (path ++ [name]) = true := by
  induction path with
  | nil => exact h
  | cons first rest ih =>
      obtain ⟨next, more, hrest⟩ := List.exists_cons_of_ne_nil (List.append_ne_nil_of_right_ne_nil
        rest (List.cons_ne_nil name []))
      rw [hrest] at ih
      rw [List.cons_append, hrest, passedOver, ih, Bool.or_true]

/-- A file whose name is ignored shows nowhere. -/
theorem shown_write {t : FileTree String Bytes} {parent : List String} {name : String}
    (hparent : t.isDir parent = true) (hfile : t.isDir (parent ++ [name]) = false)
    (hname : DirTree.ignoredFile name = true) (content : Bytes) (root : List String) :
    shown (t.write (parent ++ [name]) content) root = shown t root := by
  have hreach : t.Reachable (parent ++ [name]) := by
    refine .inr ?_
    rwa [List.dropLast_concat]
  funext path
  rw [shown, shown]
  split_ifs with hpassed
  · rfl
  · have hne : root ++ path ≠ parent ++ [name] := by
      intro heq
      obtain rfl | ⟨front, last, rfl⟩ := List.eq_nil_or_concat path
      · exact hpassed rfl
      · rw [List.concat_eq_append, ← List.append_assoc] at heq
        obtain ⟨_, hlast⟩ := List.append_inj' heq rfl
        obtain rfl := List.singleton_inj.mp hlast
        rw [List.concat_eq_append] at hpassed
        exact hpassed (passedOver_concat hname front)
    rw [FileTree.read, FileTree.read, FileTree.node_write hreach hfile, if_neg hne]

/-- Every name that ends as the log does is ignored. -/
theorem ignoredFile_log (front : List Char) :
    DirTree.ignoredFile (String.ofList (front ++ "autonomous_audit.log".toList)) = true := by
  have hsuffix : ".log".toList <:+ front ++ "autonomous_audit.log".toList :=
    (show ".log".toList <:+ "autonomous_audit.log".toList by decide).trans (List.suffix_append _ _)
  have htext : (String.ofList (front ++ "autonomous_audit.log".toList)).toList =
      front ++ "autonomous_audit.log".toList := String.toList_ofList
  rw [DirTree.ignoredFile, htext, List.any_eq_true]
  exact ⟨".log", List.mem_cons_self, List.isSuffixOf_iff_suffix.mpr hsuffix⟩

variable {δ : Type} [DecidableEq δ] {line : LogEntry δ → Bytes} {cwd : List String}
  {workspaceDir : List Char} {hashPre hashPost : δ} {t : FileTree String Bytes}

/-- The log is a file whose name ends as it does. -/
theorem exists_logFile {path : List String}
    (h : t.resolve cwd (logFile workspaceDir) = some path) :
    ∃ parent name, path = parent ++ [name] ∧ t.isDir parent = true ∧
      DirTree.ignoredFile name = true := by
  obtain ⟨text, htext⟩ : ∃ text, logFile workspaceDir = text ++ "autonomous_audit.log".toList := by
    unfold logFile PosixPath.join
    split_ifs
    · exact ⟨[], rfl⟩
    · exact ⟨workspaceDir, rfl⟩
    · exact ⟨workspaceDir ++ ['/'], by simp⟩
  rw [htext] at h
  obtain ⟨parent, front, rfl, _, hparent⟩ := FileTree.resolve_append (by decide) (by decide) h
  exact ⟨parent, _, rfl, hparent, ignoredFile_log front⟩

/-- **What `log_event` comes to**: it returns exactly when the log opens, with its entry and
with a line that no directory shows. -/
theorem logEvent_spec {r : FileTree String Bytes × LogEntry δ}
    (h : logEvent line cwd workspaceDir "INIT" "Setup" "None" hashPre hashPost t = some r) :
    LogOpens cwd workspaceDir t ∧ r.2 = entryOf "INIT" "Setup" "None" hashPre hashPost ∧
      ∀ root, shown r.1 root = shown t root := by
  obtain ⟨logged, hlogged, rfl⟩ := Option.map_eq_some_iff.mp h
  obtain ⟨path, hpath, hwritten⟩ := Option.bind_eq_some_iff.mp hlogged
  split_ifs at hwritten with hdir
  obtain rfl := Option.some.inj hwritten
  obtain ⟨parent, name, rfl, hparent, hname⟩ := exists_logFile hpath
  have hfile := Bool.eq_false_iff.mpr hdir
  exact ⟨⟨_, hpath, hfile⟩, rfl, shown_write hparent hfile hname _⟩

theorem exists_logEvent (line : LogEntry δ → Bytes) (hashPre hashPost : δ)
    (h : LogOpens cwd workspaceDir t) :
    ∃ r, logEvent line cwd workspaceDir "INIT" "Setup" "None" hashPre hashPost t = some r := by
  obtain ⟨path, hpath, hdir⟩ := h
  have happend : ∀ text, appendLog cwd workspaceDir text t =
      some (t.write path ((t.read path).getD [] ++ text)) := by
    intro text
    rw [appendLog, hpath, Option.bind_eq_bind, Option.bind_some, if_neg (by simp [hdir])]
  exact ⟨_, congrArg (Option.map _) (happend _)⟩

/-! ## When drift is detected -/

variable {calculateFsHash : (RelPath → Option Bytes) → δ} {guarded : RelPath → Option Bytes}
  {found : FileTree String Bytes}

theorem verify_of_eq (h : shownAt found cwd workspaceDir = guarded) :
    verify calculateFsHash line cwd workspaceDir (calculateFsHash guarded) found =
      (cleanup cwd found).bind fun cleaned =>
        (logEvent line cwd workspaceDir "INIT" "Setup" "None" (calculateFsHash guarded)
          (calculateFsHash guarded) cleaned).map fun r => ⟨r.1, false, r.2⟩ := by
  simp [verify, h, Option.map_eq_bind]

theorem verify_of_ne (hinj : Function.Injective calculateFsHash)
    (h : shownAt found cwd workspaceDir ≠ guarded) :
    verify calculateFsHash line cwd workspaceDir (calculateFsHash guarded) found =
      (restore cwd found).bind fun restored =>
        (logEvent line cwd workspaceDir "INIT" "Setup" "None" (calculateFsHash guarded)
          (calculateFsHash (shownAt restored cwd workspaceDir)) restored).map fun r =>
            ⟨r.1, (found.node (backup cwd)).isSome, r.2⟩ := by
  have hhash : calculateFsHash guarded ≠ calculateFsHash (shownAt found cwd workspaceDir) :=
    fun heq => h (hinj heq).symm
  simp [verify, hhash, Option.map_eq_bind]

variable {change : FileTree String Bytes → FileTree String Bytes}
  {before captured : FileTree String Bytes}

theorem runCycle_eq (hcapture : capture cwd before = some captured) :
    runCycle calculateFsHash line cwd workspaceDir change before =
      verify calculateFsHash line cwd workspaceDir (calculateFsHash (shown before (core cwd)))
        (change captured) := by
  rw [runCycle, hcapture, Option.bind_eq_bind, Option.bind_some]

/-- The cycle, when the workspace directory shows what `./core` showed before. -/
theorem detects_iff_of_eq (h : shownAt found cwd workspaceDir = shown before (core cwd)) :
    Detects (verify calculateFsHash line cwd workspaceDir
        (calculateFsHash (shown before (core cwd))) found) cwd before found ↔
      shown found (core cwd) = shown before (core cwd) ∧
        (found.node (backup cwd) = none ∨ found.isDir (backup cwd) = true) ∧
        LogOpens cwd workspaceDir (found.remove (backup cwd)) := by
  rw [verify_of_eq h, Detects]
  constructor
  · rintro ⟨cycle, hcycle, hdrift, -⟩
    obtain ⟨cleaned, hcleaned, hlogs⟩ := Option.bind_eq_some_iff.mp hcycle
    obtain ⟨r, hlogged, rfl⟩ := Option.map_eq_some_iff.mp hlogs
    obtain ⟨hbackup, rfl⟩ := cleanup_eq_some_iff.mp hcleaned
    refine ⟨?_, hbackup, (logEvent_spec hlogged).1⟩
    by_contra hchanged
    exact absurd (hdrift.mpr hchanged).2 Bool.false_ne_true
  · rintro ⟨hsame, hbackup, hopens⟩
    have hcleaned := cleanup_eq_some_iff.mpr ⟨hbackup, rfl⟩
    obtain ⟨r, hlogged⟩ := exists_logEvent line
      (calculateFsHash (shown before (core cwd))) (calculateFsHash (shown before (core cwd))) hopens
    obtain ⟨_, hentry, hshown⟩ := logEvent_spec hlogged
    refine ⟨_, by rw [hcleaned, Option.bind_some, hlogged, Option.map_some], ?_,
      fun _ => ⟨?_, rfl, ?_⟩⟩
    · simp [hsame]
    · simp [hentry, entryOf]
    · rw [hshown, shown_cleanup hcleaned, hsame]

/-- The cycle, when the workspace directory shows something else. -/
theorem detects_iff_of_ne (hinj : Function.Injective calculateFsHash)
    (h : shownAt found cwd workspaceDir ≠ shown before (core cwd)) :
    Detects (verify calculateFsHash line cwd workspaceDir
        (calculateFsHash (shown before (core cwd))) found) cwd before found ↔
      shown found (core cwd) ≠ shown before (core cwd) ∧
        found.isDir (core cwd) = true ∧ found.isDir (backup cwd) = true ∧
        shownAt (found.put (core cwd) (found.sub (backup cwd))) cwd workspaceDir ≠
          shown before (core cwd) ∧
        LogOpens cwd workspaceDir (found.put (core cwd) (found.sub (backup cwd))) := by
  rw [verify_of_ne hinj h, Detects]
  constructor
  · rintro ⟨cycle, hcycle, hdrift, hsame⟩
    obtain ⟨restored, hrestored, hlogs⟩ := Option.bind_eq_some_iff.mp hcycle
    obtain ⟨r, hlogged, rfl⟩ := Option.map_eq_some_iff.mp hlogs
    obtain ⟨hopens, hentry, _⟩ := logEvent_spec hlogged
    rcases restore_eq_some_iff.mp hrestored with ⟨hnone, rfl⟩ | ⟨hcore, hbackup, rfl⟩
    · -- nothing is put back, and drift is logged all the same
      exfalso
      have hdrifted : r.2.driftDetected = true := by
        have hhash : calculateFsHash (shown before (core cwd)) ≠
            calculateFsHash (shownAt restored cwd workspaceDir) := fun heq => h (hinj heq).symm
        simp [hentry, entryOf, hhash]
      by_cases heq : shown restored (core cwd) = shown before (core cwd)
      · exact absurd (hdrifted.symm.trans (hsame heq).1) (by simp)
      · have hrolled := (hdrift.mpr heq).2
        rw [hnone] at hrolled
        exact absurd hrolled Bool.false_ne_true
    · have hchanged : shown found (core cwd) ≠ shown before (core cwd) := by
        intro heq
        have hrolled := (hsame heq).2.1
        rw [FileTree.isDir_iff.mp hbackup] at hrolled
        exact absurd hrolled (by simp)
      have hlogged' : calculateFsHash (shown before (core cwd)) ≠
          calculateFsHash (shownAt (found.put (core cwd) (found.sub (backup cwd))) cwd
            workspaceDir) := by
        simpa [hentry, entryOf] using (hdrift.mpr hchanged).1
      exact ⟨hchanged, hcore, hbackup,
        fun heq => hlogged' (congrArg calculateFsHash heq.symm), hopens⟩
  · rintro ⟨hchanged, hcore, hbackup, hstill, hopens⟩
    have hrestored := restore_eq_some_iff.mpr (Or.inr ⟨hcore, hbackup, rfl⟩)
    have hhash : calculateFsHash (shown before (core cwd)) ≠
        calculateFsHash (shownAt (found.put (core cwd) (found.sub (backup cwd))) cwd
          workspaceDir) := fun heq => hstill (hinj heq).symm
    obtain ⟨r, hlogged⟩ := exists_logEvent line
      (calculateFsHash (shown before (core cwd)))
      (calculateFsHash (shownAt (found.put (core cwd) (found.sub (backup cwd))) cwd workspaceDir))
      hopens
    obtain ⟨_, hentry, _⟩ := logEvent_spec hlogged
    refine ⟨_, by rw [hrestored, Option.bind_some, hlogged, Option.map_some], ?_,
      fun heq => absurd heq hchanged⟩
    simp [hentry, entryOf, hhash, hchanged, FileTree.isDir_iff.mp hbackup]

/-- **When drift detection is exact.**  With a fingerprint that tells any two maps of files
apart, a cycle whose snapshot could be taken is right about `./core` exactly when the
workspace directory shows it. -/
theorem detects_iff (hinj : Function.Injective calculateFsHash)
    (hcapture : capture cwd before = some captured) :
    Detects (runCycle calculateFsHash line cwd workspaceDir change before) cwd before
        (change captured) ↔
      Seen cwd workspaceDir before (change captured) := by
  rw [runCycle_eq hcapture, Seen]
  by_cases hshown : shownAt (change captured) cwd workspaceDir = shown before (core cwd)
  · rw [detects_iff_of_eq hshown]
    simp only [hshown, true_and, ne_eq, not_true_eq_false, false_and, imp_false, not_not]
    exact ⟨fun h => ⟨fun _ => h.2, h.1⟩, fun h => ⟨h.2, h.1 h.2⟩⟩
  · rw [detects_iff_of_ne hinj hshown]
    simp only [hshown, false_and, imp_false, ne_eq, not_false_eq_true, true_and]
    exact ⟨fun h => ⟨h.1, fun _ => h.2⟩, fun h => ⟨h.1, h.2 h.1⟩⟩

/-! ## What the workspace directory shows -/

theorem shown_eq_none {t : FileTree String Bytes} {root : List String} {path : RelPath}
    (h : t.node (root ++ path) = none) : shown t root path = none := by
  rw [shown, FileTree.read, h]
  exact ite_self _

theorem node_of_shown {t : FileTree String Bytes} {root : List String} {path : RelPath}
    (h : shown t root path ≠ none) : t.node (root ++ path) ≠ none :=
  mt shown_eq_none h

/-- A path of a file that is shown is not empty. -/
theorem ne_nil_of_shown {t : FileTree String Bytes} {root : List String} {path : RelPath}
    (h : shown t root path ≠ none) : path ≠ [] := by
  rintro rfl
  exact h rfl

/-- What `./core` shows stands below `core` in its directory. -/
theorem shown_core_cons (t : FileTree String Bytes) (cwd : List String) {path : RelPath}
    (h : path ≠ []) : shown t cwd ("core" :: path) = shown t (core cwd) path := by
  obtain ⟨name, rest, rfl⟩ := List.exists_cons_of_ne_nil h
  have hname : ignoredDir "core" = false := by decide
  rw [shown, shown, passedOver, hname, Bool.false_or, core, List.append_assoc]
  rfl

theorem isDir_of_shown_core {t : FileTree String Bytes} {path : RelPath}
    (h : shown t (core cwd) path ≠ none) : t.isDir cwd = true := by
  have hnode := node_of_shown h
  rw [core, List.append_assoc] at hnode
  exact FileTree.isDir_of_below hnode

/-- The working directory never shows just what `./core` shows, unless there is no file in
`./core`: every file would lead to another one further down. -/
theorem shown_cwd_ne {t : FileTree String Bytes} {path : RelPath}
    (h : shown t (core cwd) path ≠ none) : shown t cwd ≠ shown t (core cwd) := by
  intro heq
  obtain ⟨depth, hdepth⟩ := t.bounded
  have hdeeper : ∀ n, ∃ path, n ≤ path.length ∧ shown t (core cwd) path ≠ none := by
    intro n
    induction n with
    | zero => exact ⟨path, Nat.zero_le _, h⟩
    | succ n ih =>
        obtain ⟨path, hlength, hpath⟩ := ih
        refine ⟨"core" :: path, by simpa using hlength, ?_⟩
        rwa [← heq, shown_core_cons t cwd (ne_nil_of_shown hpath)]
  obtain ⟨path, hlength, hpath⟩ := hdeeper depth
  have hbound := hdepth _ (node_of_shown hpath)
  rw [List.length_append] at hbound
  omega

theorem shownAt_dot {t : FileTree String Bytes} (h : t.isDir cwd = true) :
    shownAt t cwd ['.'] = shown t cwd := by
  have hresolve : t.resolve cwd ['.'] = some cwd := by
    show t.walk cwd [.stay] = some cwd
    rw [FileTree.walk, if_pos h]
    rfl
  rw [shownAt, hresolve]

theorem shownAt_core (t : FileTree String Bytes) (cwd : List String) :
    shownAt t cwd ['.', '/', 'c', 'o', 'r', 'e'] = shown t (core cwd) := by
  have hwalk : t.resolve cwd ['.', '/', 'c', 'o', 'r', 'e'] =
      t.walk cwd [.stay, .down "core"] := rfl
  by_cases hdir : t.isDir cwd = true
  · rw [shownAt, hwalk, FileTree.walk, if_pos hdir, FileTree.walk, if_pos hdir]
    rfl
  · rw [shownAt, hwalk, FileTree.walk, if_neg hdir]
    funext path
    by_contra hpath
    exact hdir (isDir_of_shown_core (Ne.symm hpath))

/-- Taking the snapshot changes nothing that `./core` shows. -/
theorem shown_capture (h : capture cwd before = some captured) :
    shown captured (core cwd) = shown before (core cwd) := by
  obtain ⟨cleaned, hcleaned, hcaptured⟩ := Option.bind_eq_some_iff.mp h
  split_ifs at hcaptured
  rw [← Option.some.inj hcaptured, shown_put_backup, shown_cleanup hcleaned]

/-- **With the default workspace directory nothing has to change for a rollback.**  A cycle
that comes to its end rolls back when a file of `./core` is shown, none has changed and the
backup is there. -/
theorem false_alarm (hinj : Function.Injective calculateFsHash)
    (hcapture : capture cwd before = some captured)
    {path : RelPath} (hfile : shown before (core cwd) path ≠ none)
    (hsame : shown (change captured) (core cwd) = shown before (core cwd))
    (hbackup : (change captured).isDir (backup cwd) = true) {cycle : Cycle δ}
    (hcycle : runCycle calculateFsHash line cwd ['.'] change before = some cycle) :
    cycle.rolledBack = true := by
  rw [← hsame] at hfile
  have hne : shownAt (change captured) cwd ['.'] ≠ shown before (core cwd) := by
    rw [shownAt_dot (isDir_of_shown_core hfile), ← hsame]
    exact shown_cwd_ne hfile
  rw [runCycle_eq hcapture, verify_of_ne hinj hne] at hcycle
  obtain ⟨restored, -, hlogs⟩ := Option.bind_eq_some_iff.mp hcycle
  obtain ⟨r, -, rfl⟩ := Option.map_eq_some_iff.mp hlogs
  simp [FileTree.isDir_iff.mp hbackup]

/-- **With `./core` as the workspace directory a rollback that works is not logged**: the entry
is written from the fingerprint taken after it. -/
theorem not_logged (hinj : Function.Injective calculateFsHash)
    (hcapture : capture cwd before = some captured)
    (hchanged : shown (change captured) (core cwd) ≠ shown before (core cwd))
    (hbackup : (change captured).isDir (backup cwd) = true)
    (hkept : shown (change captured) (backup cwd) = shown before (core cwd)) {cycle : Cycle δ}
    (hcycle : runCycle calculateFsHash line cwd ['.', '/', 'c', 'o', 'r', 'e'] change before =
      some cycle) :
    cycle.rolledBack = true ∧ cycle.entry.driftDetected = false := by
  have hne : shownAt (change captured) cwd ['.', '/', 'c', 'o', 'r', 'e'] ≠
      shown before (core cwd) := by rwa [shownAt_core]
  rw [runCycle_eq hcapture, verify_of_ne hinj hne] at hcycle
  obtain ⟨restored, hrestored, hlogs⟩ := Option.bind_eq_some_iff.mp hcycle
  obtain ⟨r, hlogged, rfl⟩ := Option.map_eq_some_iff.mp hlogs
  refine ⟨by simp [FileTree.isDir_iff.mp hbackup], ?_⟩
  rcases restore_eq_some_iff.mp hrestored with ⟨hnone, -⟩ | ⟨hcore, -, rfl⟩
  · rw [FileTree.isDir, hnone] at hbackup
    exact absurd hbackup Bool.false_ne_true
  · have hreach : (change captured).Reachable (core cwd) :=
      FileTree.reachable_of_node (by rw [FileTree.isDir_iff.mp hcore]; exact Option.some_ne_none _)
    have hshown : shown ((change captured).put (core cwd) ((change captured).sub (backup cwd)))
        (core cwd) = shown before (core cwd) := by
      rw [← hkept]
      funext path
      rw [shown, shown, FileTree.read, FileTree.node_put_below hreach]
      rfl
    rw [shownAt_core, hshown] at hlogged
    simp [(logEvent_spec hlogged).2.1, entryOf]

/-! ## A workspace with one module -/

/-- `core/a.py` in the root directory. -/
def home : FileTree String Bytes :=
  ((FileTree.leaf .directory).put ["core"] (FileTree.leaf .directory)).put ["core", "a.py"]
    (FileTree.leaf (.file [35]))

/-- The snapshot of it. -/
def homeCaptured : FileTree String Bytes := home.put (backup []) (home.sub (core []))

theorem capture_home : capture [] home = some homeCaptured := rfl

open scoped Classical in
/-- With `./core` as the workspace directory a cycle in which nothing changes is in order. -/
theorem detects_unchanged :
    Detects (runCycle (id : (RelPath → Option Bytes) → _) (fun _ => [10]) []
      ['.', '/', 'c', 'o', 'r', 'e'] id home) [] home (id homeCaptured) := by
  refine (detects_iff Function.injective_id capture_home).mpr ⟨fun _ => ?_, fun h => ?_⟩
  · exact ⟨(shownAt_core homeCaptured []).trans (shown_capture capture_home), .inr rfl,
      ["core", "autonomous_audit.log"], rfl, rfl⟩
  · exact absurd (shown_capture capture_home) h

/-- In the default workspace directory nothing changes, and the cycle rolls back. -/
theorem unchanged_rolled_back : ¬ ∀ (δ : Type) [DecidableEq δ]
    (calculateFsHash : (RelPath → Option Bytes) → δ) (line : LogEntry δ → Bytes)
    (cwd : List String) (workspaceDir : List Char)
    (change : FileTree String Bytes → FileTree String Bytes)
    (before captured : FileTree String Bytes), Function.Injective calculateFsHash →
    capture cwd before = some captured →
    Detects (runCycle calculateFsHash line cwd workspaceDir change before) cwd before
      (change captured) := by
  intro h
  classical
  have hfile : shown home (core []) ["a.py"] ≠ none := by decide
  have hsame : shown (id homeCaptured) (core []) = shown home (core []) :=
    shown_capture capture_home
  obtain ⟨cycle, hcycle, -, hunchanged⟩ :=
    h (RelPath → Option Bytes) id (fun _ => [10]) [] ['.'] id home homeCaptured
      Function.injective_id capture_home
  have hrolled := false_alarm Function.injective_id capture_home hfile hsame rfl hcycle
  rw [(hunchanged hsame).2.1] at hrolled
  exact absurd hrolled Bool.false_ne_true

end MutationController
end Ucser
