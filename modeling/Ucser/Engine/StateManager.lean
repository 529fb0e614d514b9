import Ucser.Lib.Inodes

/-!
# Snapshots: `engine/state_manager.py`

Before a pipeline or a replay a snapshot of the workspace is captured, and afterwards it is
put back.  Where `cp -al` is used the backup is made of new names for the same files.

* `Machine`, `Operation` — the workspace, its backup and the environment; what a command can
  do to the files of the workspace.
* `capture`, `restore`, `cleanup` — the snapshot.
* `restored_iff` — **the runs after which the workspace is restored**: those whose writes in
  place leave every captured file as it was.
* `restored_of_no_writes`, `restored_windows` — without writes in place, and with a backup
  that has been copied, it always is.
-/

namespace Ucser

/-- The two directories a snapshot works with. -/
inductive Directory where
  /-- `root_dir`. -/
  | root
  /-- `backup_path`, which lies beside it. -/
  | backup
  deriving DecidableEq

/-- A path below a directory, by its components. -/
abbrev RelPath := List String

/-- The content of a file. -/
abbrev Bytes := List UInt8

/-- The file system, and the environment of the process. -/
structure Machine where
  volume : Volume Directory RelPath Bytes
  /-- `os.path.exists(self.backup_path)`. -/
  backupExists : Bool
  environ : Dict String String

/-- The map from relative path to file content under `root_dir`. -/
def Machine.files (machine : Machine) (path : RelPath) : Option Bytes :=
  machine.volume.read .root path

/-! ## What a command can do -/

/-- A file of the given length: cut off, or filled up with zeros. -/
def truncateTo (length : Nat) (content : Bytes) : Bytes :=
  content.take length ++ List.replicate (length - content.length) 0

/-- Bytes written from an offset on; a gap before it is filled up with zeros. -/
def overwriteAt (offset : Nat) (bytes content : Bytes) : Bytes :=
  truncateTo offset content ++ bytes ++ content.drop (offset + bytes.length)

/-- What a command can do to the files below `root_dir`. -/
inductive Operation where
  | create (path : RelPath) (content : Bytes)
  | delete (path : RelPath)
  | rename (old new : RelPath)
  | overwrite (path : RelPath) (offset : Nat) (bytes : Bytes)
  | append (path : RelPath) (bytes : Bytes)
  | truncate (path : RelPath) (length : Nat)

/-- What the operation does to names and inodes. -/
def Operation.fileOp : Operation → FileOp RelPath Bytes
  | create path content => .create path content
  | delete path => .delete path
  | rename old new => .rename old new
  | overwrite path offset bytes => .edit path (overwriteAt offset bytes)
  | append path bytes => .edit path (fun content => content ++ bytes)
  | truncate path length => .edit path (truncateTo length)

/-- Is a file written in place? -/
def Operation.writesInPlace : Operation → Bool
  | overwrite _ _ _ => true
  | append _ _ => true
  | truncate _ _ => true
  | _ => false

/-- A sequence of operations below `root_dir`. -/
def Machine.perform (machine : Machine) (operations : List Operation) : Machine :=
  { machine with volume := machine.volume.applyAll .root (operations.map Operation.fileOp) }

/-! ## The snapshot -/

/-- `FastHardlinkSnapshot`: the environment when it was made. -/
structure FastHardlinkSnapshot where
  envSnapshot : Dict String String

namespace FastHardlinkSnapshot

/-- `capture`: an earlier backup is removed; `cp -al`, or on Windows `copytree`. -/
def capture (windows : Bool) (machine : Machine) : Machine :=
  { machine with
    volume :=
      if windows then machine.volume.copy .root .backup else machine.volume.link .root .backup
    backupExists := true }

/-- `restore`: the files of the backup in place of those of the workspace. -/
def restore (snapshot : FastHardlinkSnapshot) (machine : Machine) : Machine :=
  { machine with
    volume := if machine.backupExists then machine.volume.copy .backup .root else machine.volume
    environ := snapshot.envSnapshot }

/-- `cleanup`. -/
def cleanup (machine : Machine) : Machine :=
  { machine with
    volume := if machine.backupExists then machine.volume.clear .backup else machine.volume
    backupExists := false }

/-! ## What is restored -/

/-- The writes a sequence of operations makes in place to a captured file, under any name
the file has meanwhile, oldest first. -/
def writes (machine : Machine) (operations : List Operation) (inode : Nat) :
    List (Bytes → Bytes) :=
  FileOp.edits (machine.volume.trees .root) machine.volume.fresh inode
    (operations.map Operation.fileOp)

variable (snapshot : FastHardlinkSnapshot) (machine : Machine) (operations : List Operation)

/-- **What is restored from links**: the captured files with the writes made to them since. -/
theorem files_restore (path : RelPath) :
    (snapshot.restore ((capture false machine).perform operations)).files path =
      ((machine.volume.trees .root).get? path).map (fun inode =>
        (writes machine operations inode).foldl (fun content write => write content)
          (machine.volume.content inode)) :=
  machine.volume.read_copy_link _ (by decide) path

/-- **When the workspace is restored.**  On the path that uses `cp -al`, after any sequence
of operations below `root_dir`, `restore` brings the files back that were there at the time
of `capture` if and only if the writes made in place to each of them, one after another,
leave its content as it was. -/
theorem restored_iff :
    (∀ path, (snapshot.restore ((capture false machine).perform operations)).files path =
        machine.files path) ↔
      ∀ path inode, (machine.volume.trees .root).get? path = some inode →
        (writes machine operations inode).foldl (fun content write => write content)
          (machine.volume.content inode) = machine.volume.content inode := by
  constructor
  · intro hrestored path inode hinode
    have hpath := hrestored path
    rw [files_restore, Machine.files, Volume.read, hinode] at hpath
    exact Option.some.inj hpath
  · intro hwrites path
    rw [files_restore, Machine.files, Volume.read]
    cases hinode : (machine.volume.trees .root).get? path with
    | none => rfl
    | some inode => exact congrArg some (hwrites path inode hinode)

/-- A workspace with one file. -/
def keepMachine : Machine where
  volume :=
    { trees directory := if directory = .root then Dict.empty.insert ["keep.txt"] 0 else Dict.empty
      content _ := [111, 107]
      fresh := 1
      bounded := by
        intro directory path inode h
        cases directory with
        | root =>
            rw [if_pos rfl, Dict.get?_insert] at h
            split_ifs at h
            · rw [← Option.some.inj h]
              exact Nat.one_pos
            · exact absurd h (by simp [Dict.get?, Dict.empty])
        | backup => exact absurd h (by simp [Dict.get?, Dict.empty]) }
  backupExists := false
  environ := Dict.empty

/-- A byte appended to the file is still there after `restore`. -/
theorem appended_not_restored :
    ¬ ∀ path, (restore ⟨Dict.empty⟩ ((capture false keepMachine).perform
        [.append ["keep.txt"] [33]])).files path = keepMachine.files path := by
  intro hrestored
  exact absurd (hrestored ["keep.txt"]) (by decide)

/-- Without writes in place the workspace is restored. -/
theorem restored_of_no_writes (h : ∀ operation ∈ operations, operation.writesInPlace = false)
    (path : RelPath) :
    (snapshot.restore ((capture false machine).perform operations)).files path =
      machine.files path := by
  have hnone : ∀ op ∈ operations.map Operation.fileOp, ∀ path f, op ≠ .edit path f := by
    intro op hop path f heq
    obtain ⟨operation, hoperation, rfl⟩ := List.mem_map.mp hop
    have hwrites := h operation hoperation
    cases operation <;> simp [Operation.fileOp, Operation.writesInPlace] at heq hwrites
  rw [files_restore, Machine.files, Volume.read]
  simp [writes, FileOp.edits_of_no_edit hnone]

/-- On Windows, where the backup is a copy, the workspace is always restored. -/
theorem restored_windows (path : RelPath) :
    (snapshot.restore ((capture true machine).perform operations)).files path =
      machine.files path :=
  machine.volume.read_copy_copy _ (by decide) path

end FastHardlinkSnapshot
end Ucser
