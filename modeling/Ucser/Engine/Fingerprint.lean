import Ucser.Engine.StateManager
import Ucser.Lib.FileTree
import Ucser.Lib.Text

/-!
# The fingerprint of a tree: `StateSnapshot._calculate_fs_hash`

The names and contents of the files go into one hash, one behind the other, in the order of
`os.walk`.  Where a file lies does not go into it, nor where a name ends.

* `DirTree`, `Tree` — directory trees of readable files, without links, with names as a file
  system has them.
* `stream` — the bytes the hash is fed.
* `contents` — the map from relative path to content, over what is not ignored.
* `stream_eq_nil_iff` — nothing is fed exactly when no file is left.
* `identified_iff` — **the bytes identify a tree** exactly when no file is left in it: any
  other tree has the bytes of the tree that holds it as its only directory.
-/

namespace Ucser

/-! ## Trees -/

/-- A directory: its files and its directories, in the order the system lists them. -/
inductive DirTree where
  | node (files : List (String × Bytes)) (dirs : List (String × DirTree))
  deriving Inhabited

namespace DirTree

/-- The name of an entry of a directory. -/
def ValidName (name : String) : Prop :=
  name ≠ "" ∧ name ≠ "." ∧ name ≠ ".." ∧ '/' ∉ name.toList ∧ '\x00' ∉ name.toList

instance (name : String) : Decidable (ValidName name) :=
  inferInstanceAs (Decidable (_ ∧ _ ∧ _ ∧ _ ∧ _))

mutual
/-- Every directory has entries with valid and distinct names. -/
def wellFormed : DirTree → Bool
  | node files dirs =>
      (files.map Prod.fst ++ dirs.map Prod.fst).Nodup &&
        (files.map Prod.fst ++ dirs.map Prod.fst).all (fun name => ValidName name) &&
        wellFormedDirs dirs

def wellFormedDirs : List (String × DirTree) → Bool
  | [] => true
  | (_, t) :: rest => t.wellFormed && wellFormedDirs rest
end

/-! ## What is hashed -/

/-- `ignore_exts`. -/
def ignoreExts : List String := [".log", ".db", ".pyc", ".tmp"]

/-- `ignore_dirs`. -/
def ignoreDirs : List String := ["node_modules", ".git", "__pycache__", ".pytest_cache", "venv"]

/-- `any(name.endswith(ext) for ext in ignore_exts)`. -/
def ignoredFile (name : String) : Bool :=
  ignoreExts.any fun ext => ext.toList.isSuffixOf name.toList

/-- `d in ignore_dirs or d.startswith('_backup_')`. -/
def ignoredDir (name : String) : Bool :=
  ignoreDirs.contains name || "_backup_".toList.isPrefixOf name.toList

/-- `sorted(files)`. -/
def sortedFiles (files : List (String × Bytes)) : List (String × Bytes) :=
  files.mergeSort fun f g => f.1 ≤ g.1

/-- What the files of one directory are fed as. -/
def filesStream (files : List (String × Bytes)) : Bytes :=
  ((sortedFiles files).filter fun f => !ignoredFile f.1).flatMap fun f => Text.utf8 f.1 ++ f.2

mutual
/-- What `_calculate_fs_hash` feeds to SHA-256. -/
def stream : DirTree → Bytes
  | node files dirs => filesStream files ++ streamDirs dirs

def streamDirs : List (String × DirTree) → Bytes
  | [] => []
  | (name, t) :: rest => (if ignoredDir name then [] else t.stream) ++ streamDirs rest
end

/-- `_calculate_fs_hash`. -/
def calculateFsHash (sha256 : Bytes → String) (t : DirTree) : String := sha256 t.stream

/-! ## What a tree contains -/

/-- The content of a file of one directory. -/
def fileContent (files : List (String × Bytes)) (name : String) : Option Bytes :=
  if ignoredFile name then none else files.lookup name

mutual
/-- The map from relative path to content over the files that are not ignored. -/
def contents : DirTree → RelPath → Option Bytes
  | node _ _, [] => none
  | node files dirs, name :: path =>
      match path with
      | [] => fileContent files name
      | _ :: _ => contentsDirs dirs name path

def contentsDirs : List (String × DirTree) → String → RelPath → Option Bytes
  | [], _, _ => none
  | (d, t) :: rest, name, path =>
      if d = name then if ignoredDir d then none else t.contents path
      else contentsDirs rest name path
end

/-- A path that `_calculate_fs_hash` passes over, or that no file can have. -/
def passedOver : RelPath → Bool
  | [] => true
  | [name] => ignoredFile name
  | name :: next :: rest => ignoredDir name || passedOver (next :: rest)

mutual
/-- What stands at a path. -/
def node? : DirTree → RelPath → Option (Node Bytes)
  | node _ _, [] => some .directory
  | node files dirs, name :: path =>
      match path, files.lookup name with
      | [], some content => some (.file content)
      | _, _ => nodeDirs dirs name path

def nodeDirs : List (String × DirTree) → String → RelPath → Option (Node Bytes)
  | [], _, _ => none
  | (d, t) :: rest, name, path => if d = name then t.node? path else nodeDirs rest name path
end

end DirTree

/-- A tree as a file system can hold it. -/
abbrev Tree : Type := { t : DirTree // t.wellFormed = true }

namespace DirTree

theorem wellFormed_node {files : List (String × Bytes)} {dirs : List (String × DirTree)}
    (h : (node files dirs).wellFormed = true) :
    (files.map Prod.fst ++ dirs.map Prod.fst).Nodup ∧
      (∀ name ∈ files.map Prod.fst ++ dirs.map Prod.fst, ValidName name) ∧
      wellFormedDirs dirs = true := by
  rw [wellFormed, Bool.and_eq_true, Bool.and_eq_true, decide_eq_true_eq, List.all_eq_true] at h
  exact ⟨h.1.1, fun name hname => of_decide_eq_true (h.1.2 name hname), h.2⟩

theorem utf8_ne_nil {name : String} (h : name ≠ "") : Text.utf8 name ≠ [] := by
  intro hnil
  exact h (Text.utf8_injective (hnil.trans Text.utf8_empty.symm))

/-- The files of a directory are fed as nothing exactly when all are ignored. -/
theorem filesStream_eq_nil_iff {files : List (String × Bytes)} (h : ∀ f ∈ files, f.1 ≠ "") :
    filesStream files = [] ↔ ∀ f ∈ files, ignoredFile f.1 = true := by
  rw [filesStream, List.flatMap_eq_nil_iff]
  constructor
  · intro hnil f hf
    by_contra hkept
    have hmem : f ∈ (sortedFiles files).filter fun f => !ignoredFile f.1 :=
      List.mem_filter.mpr ⟨List.mem_mergeSort.mpr hf, by simpa using hkept⟩
    exact utf8_ne_nil (h f hf) (List.append_eq_nil_iff.mp (hnil f hmem)).1
  · intro hall f hf
    obtain ⟨hmem, hkept⟩ := List.mem_filter.mp hf
    rw [hall f (List.mem_mergeSort.mp hmem)] at hkept
    exact absurd hkept (by decide)

theorem fileContent_eq_none_iff {files : List (String × Bytes)} :
    (∀ name, fileContent files name = none) ↔ ∀ f ∈ files, ignoredFile f.1 = true := by
  unfold fileContent
  constructor
  · intro hnone f hf
    by_contra hkept
    have hlookup := hnone f.1
    rw [if_neg hkept, List.lookup_eq_none_iff] at hlookup
    simpa using hlookup f hf
  · intro hall name
    split_ifs with hignored
    · rfl
    · rw [List.lookup_eq_none_iff]
      intro f hf
      have hne : name ≠ f.1 := by
        rintro rfl
        exact hignored (hall f hf)
      simpa using hne

theorem contents_nil (t : DirTree) : t.contents [] = none := by
  cases t
  rfl

theorem contents_file (files : List (String × Bytes)) (dirs : List (String × DirTree))
    (name : String) : (node files dirs).contents [name] = fileContent files name := rfl

theorem contents_dir (files : List (String × Bytes)) (dirs : List (String × DirTree))
    (name : String) {path : RelPath} (h : path ≠ []) :
    (node files dirs).contents (name :: path) = contentsDirs dirs name path := by
  cases path with
  | nil => exact absurd rfl h
  | cons next path => rfl

theorem contentsDirs_eq (dirs : List (String × DirTree)) (name : String) (path : RelPath) :
    contentsDirs dirs name path =
      if ignoredDir name then none else (dirs.lookup name).bind fun t => t.contents path := by
  induction dirs with
  | nil => exact (ite_self none).symm
  | cons entry dirs ih =>
      obtain ⟨d, t⟩ := entry
      rw [contentsDirs, ih, Dict.lookup_cons_eq]
      by_cases hname : d = name
      · subst hname
        rw [if_pos rfl, if_pos rfl]
        rfl
      · rw [if_neg hname, if_neg (Ne.symm hname)]

theorem contentsDirs_of_notMem {dirs : List (String × DirTree)} {name : String}
    (h : name ∉ dirs.map Prod.fst) (path : RelPath) : contentsDirs dirs name path = none := by
  have hlookup : dirs.lookup name = none := by
    rw [List.lookup_eq_none_iff]
    intro p hp
    have hne : name ≠ p.1 := fun heq => h (heq ▸ List.mem_map_of_mem hp)
    simpa using hne
  rw [contentsDirs_eq, hlookup]
  exact ite_self none

theorem nodeDirs_eq (dirs : List (String × DirTree)) (name : String) (path : RelPath) :
    nodeDirs dirs name path = (dirs.lookup name).bind fun t => t.node? path := by
  induction dirs with
  | nil => rfl
  | cons entry dirs ih =>
      obtain ⟨d, t⟩ := entry
      rw [nodeDirs, ih, Dict.lookup_cons_eq]
      by_cases hname : d = name
      · subst hname
        rw [if_pos rfl, if_pos rfl]
        rfl
      · rw [if_neg hname, if_neg (Ne.symm hname)]

/-- The files are those of the tree whose path is not passed over. -/
theorem contents_eq (t : DirTree) (path : RelPath) : t.contents path =
    if passedOver path then none else (t.node? path).bind Node.content? := by
  induction path generalizing t with
  | nil => rw [contents_nil, passedOver, if_pos rfl]
  | cons name path ih =>
      obtain ⟨files, dirs⟩ := t
      cases path with
      | nil =>
          rw [contents_file, fileContent, passedOver]
          split_ifs
          · rfl
          · cases hfile : files.lookup name with
            | some content =>
                have hleaf : (node files dirs).node? [name] = some (.file content) := by
                  simp [node?, hfile]
                rw [hleaf]
                rfl
            | none =>
                have hdirs : (node files dirs).node? [name] = nodeDirs dirs name [] := by
                  simp [node?, hfile]
                rw [hdirs, nodeDirs_eq]
                cases dirs.lookup name with
                | none => rfl
                | some t => cases t; rfl
      | cons next rest =>
          have hdirs : (node files dirs).node? (name :: next :: rest) =
              nodeDirs dirs name (next :: rest) := by simp [node?]
          rw [contents_dir files dirs name (List.cons_ne_nil next rest), contentsDirs_eq, passedOver,
            hdirs, nodeDirs_eq]
          by_cases hignored : ignoredDir name = true
          · rw [hignored, if_pos rfl, Bool.true_or, if_pos rfl]
          · rw [Bool.not_eq_true] at hignored
            rw [hignored, if_neg Bool.false_ne_true, Bool.false_or]
            cases dirs.lookup name with
            | none => exact (ite_self none).symm
            | some t => exact ih t

mutual
/-- **Nothing is fed exactly when no file is left.** -/
theorem stream_eq_nil_iff : ∀ {t : DirTree}, t.wellFormed = true →
    (t.stream = [] ↔ ∀ path, t.contents path = none)
  | node files dirs, h => by
      obtain ⟨hnodup, hvalid, hdirs⟩ := wellFormed_node h
      have hnames : ∀ f ∈ files, f.1 ≠ "" :=
        fun f hf => (hvalid f.1 (List.mem_append_left _ (List.mem_map_of_mem hf))).1
      rw [stream, List.append_eq_nil_iff, filesStream_eq_nil_iff hnames, ← fileContent_eq_none_iff,
        streamDirs_eq_nil_iff hdirs (List.nodup_append.mp hnodup).2.1]
      constructor
      · rintro ⟨hfiles, hbelow⟩ path
        match path with
        | [] => exact contents_nil _
        | [name] => exact hfiles name
        | name :: next :: path => exact hbelow name next path
      · intro hnone
        exact ⟨fun name => hnone [name], fun name next path => hnone (name :: next :: path)⟩

theorem streamDirs_eq_nil_iff : ∀ {dirs : List (String × DirTree)}, wellFormedDirs dirs = true →
    (dirs.map Prod.fst).Nodup →
    (streamDirs dirs = [] ↔ ∀ name next path, contentsDirs dirs name (next :: path) = none)
  | [], _, _ => ⟨fun _ _ _ _ => rfl, fun _ => rfl⟩
  | (d, t) :: rest, h, hnodup => by
      obtain ⟨ht, hrest⟩ := Bool.and_eq_true_iff.mp h
      obtain ⟨hd, hnodup'⟩ := List.nodup_cons.mp hnodup
      rw [streamDirs, List.append_eq_nil_iff, streamDirs_eq_nil_iff hrest hnodup']
      constructor
      · rintro ⟨hstream, hbelow⟩ name next path
        rw [contentsDirs]
        split_ifs at hstream ⊢ with hname hignored
        · rfl
        · exact (stream_eq_nil_iff ht).mp hstream _
        · exact hbelow name next path
        · exact hbelow name next path
      · intro hnone
        constructor
        · split_ifs with hignored
          · rfl
          · rw [stream_eq_nil_iff ht]
            intro path
            cases path with
            | nil => exact contents_nil t
            | cons next path =>
                have hpath := hnone d next path
                rwa [contentsDirs, if_pos rfl, if_neg hignored] at hpath
        · intro name next path
          by_cases hname : d = name
          · subst hname
            exact contentsDirs_of_notMem hd _
          · have hpath := hnone name next path
            rwa [contentsDirs, if_neg hname] at hpath
end

/-! ## A tree inside another -/

/-- The tree that holds another one as its only directory. -/
def inside (name : String) (t : DirTree) : DirTree := node [] [(name, t)]

theorem wellFormed_inside {name : String} (hname : ValidName name) {t : DirTree}
    (h : t.wellFormed = true) : (inside name t).wellFormed = true := by
  simp [inside, wellFormed, wellFormedDirs, hname, h]

/-- Both trees are fed as the same bytes. -/
theorem stream_inside {name : String} (hname : ignoredDir name = false) (t : DirTree) :
    (inside name t).stream = t.stream := by
  simp [inside, stream, streamDirs, filesStream, sortedFiles, hname]

/-- All paths are one longer. -/
theorem contents_inside {name : String} (hname : ignoredDir name = false) (t : DirTree)
    (path : RelPath) : (inside name t).contents (name :: path) = t.contents path := by
  cases path with
  | nil =>
      rw [contents_nil]
      simp [inside, contents, fileContent]
  | cons next path =>
      show contentsDirs [(name, t)] name (next :: path) = _
      rw [contentsDirs, if_pos rfl, hname]
      rfl

theorem contents_inside_eq_none {name other : String} (h : other ≠ name) (t : DirTree)
    (path : RelPath) : (inside name t).contents (other :: path) = none := by
  cases path with
  | nil => simp [inside, contents, fileContent]
  | cons next path =>
      exact contentsDirs_of_notMem (by simpa using h) _

/-- A tree that has the files of the tree that holds it has no file: the path of one would
lead to a shorter path of another. -/
theorem contents_eq_none_of_inside {name : String} (hname : ignoredDir name = false) {t : DirTree}
    (h : t.contents = (inside name t).contents) (path : RelPath) : t.contents path = none := by
  induction path with
  | nil => exact contents_nil t
  | cons first path ih =>
      rw [h]
      by_cases hfirst : first = name
      · rw [hfirst, contents_inside hname, ih]
      · exact contents_inside_eq_none hfirst t path

/-! ## What the bytes identify -/

/-- A tree is fed as the same bytes as another exactly when both have the same files. -/
def Identified (t : Tree) : Prop :=
  ∀ t' : Tree, t.1.stream = t'.1.stream ↔ t.1.contents = t'.1.contents

/-- A tree that is identified has no file left: the tree that holds it as its only directory is
fed as the same bytes. -/
theorem contents_eq_none_of_identified {t : Tree} (h : Identified t) (path : RelPath) :
    t.1.contents path = none := by
  have hname : ignoredDir "a" = false := by decide
  let t' : Tree := ⟨inside "a" t.1, wellFormed_inside (by decide) t.2⟩
  have hcontents : t.1.contents = (inside "a" t.1).contents :=
    (h t').mp (stream_inside hname t.1).symm
  exact contents_eq_none_of_inside hname hcontents path

theorem identified_of_contents_eq_none {t : Tree} (h : ∀ path, t.1.contents path = none) :
    Identified t := by
  intro t'
  have hstream : t.1.stream = [] := (stream_eq_nil_iff t.2).mpr h
  have hcontents : t.1.contents = fun _ => none := funext h
  rw [hstream, hcontents, eq_comm, stream_eq_nil_iff t'.2, eq_comm, funext_iff]

/-- **The bytes identify a tree** exactly when it has no file that is not ignored. -/
theorem identified_iff (t : Tree) : Identified t ↔ ∀ path, t.1.contents path = none :=
  ⟨contents_eq_none_of_identified, identified_of_contents_eq_none⟩

/-- A file moved to a directory beside its own is not noticed. -/
theorem move_not_detected : ¬ ∀ t t' : Tree,
    t.1.stream = t'.1.stream ↔ t.1.contents = t'.1.contents := by
  intro h
  have hname : ignoredDir "a" = false := by decide
  have hname' : ignoredDir "b" = false := by decide
  let t : DirTree := node [("x.txt", [104, 105])] []
  have ht : t.wellFormed = true := by decide
  have hcontents : (inside "a" t).contents = (inside "b" t).contents :=
    (h ⟨_, wellFormed_inside (by decide) ht⟩ ⟨_, wellFormed_inside (by decide) ht⟩).mp
      ((stream_inside hname t).trans (stream_inside hname' t).symm)
  have hfile := congrFun hcontents ["a", "x.txt"]
  rw [contents_inside hname, contents_inside_eq_none (by decide)] at hfile
  exact absurd hfile (by decide)

end DirTree
end Ucser
