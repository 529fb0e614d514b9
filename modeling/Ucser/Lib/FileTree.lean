import Ucser.Lib.PosixPath

/-!
# Trees of files, without links

What a file system without links holds, by the names that lead to it from the root.

* `FileTree` — files and directories; what is below a path is only there when the path is a
  directory.
* `sub`, `put`, `remove` — what is at a path as a tree of its own, a tree put at a path, and
  everything at a path removed.
* `Step`, `walk`, `resolve`, `lookup` — the way from a directory along the pieces of a path,
  which leads through directories only.
* `isDir_remove`, `resolve_remove` — **without a file, every path leads where it led**.
* `read_put_self`, `read_put_beside` — what is read after a tree has been put.
* `read_remove_eq_some_iff` — what is read after a file has been removed: all other files.
* `write`, `node_write`, `node_remove_file` — a file put somewhere or removed, and that
  everything else stays.
* `resolve_join`, `resolve_append` — where a name leads that is joined to a directory, and the
  last name on the way of a path.
-/

namespace Ucser

/-- What stands at a path. -/
inductive Node (α : Type) where
  | directory
  | file (content : α)
  deriving DecidableEq

def Node.content? {α : Type} : Node α → Option α
  | directory => none
  | file content => some content

/-- A tree of files with names in `κ` and contents in `α`, of some depth. -/
@[ext]
structure FileTree (κ α : Type) where
  node : List κ → Option (Node α)
  parent : ∀ path name, node (path ++ [name]) ≠ none → node path = some .directory
  bounded : ∃ depth, ∀ path, node path ≠ none → path.length < depth

namespace FileTree

variable {κ α : Type}

/-- Is there a directory? -/
def isDir (t : FileTree κ α) (path : List κ) : Bool :=
  match t.node path with
  | some .directory => true
  | _ => false

/-- The content of the file, if there is one. -/
def read (t : FileTree κ α) (path : List κ) : Option α :=
  (t.node path).bind Node.content?

theorem isDir_iff {t : FileTree κ α} {path : List κ} :
    t.isDir path = true ↔ t.node path = some .directory := by
  unfold isDir
  split
  · next h => simp [h]
  · next h => simpa using h

theorem read_eq_some_iff {t : FileTree κ α} {path : List κ} {content : α} :
    t.read path = some content ↔ t.node path = some (.file content) := by
  rw [read, Option.bind_eq_some_iff]
  constructor
  · rintro ⟨n, hn, hcontent⟩
    cases n with
    | directory => exact absurd hcontent (by simp [Node.content?])
    | file content' => rwa [← Option.some.inj hcontent]
  · exact fun h => ⟨_, h, rfl⟩

/-- What is below a path stands in a directory. -/
theorem isDir_of_below {t : FileTree κ α} {path : List κ} {name : κ} {rest : List κ}
    (h : t.node (path ++ name :: rest) ≠ none) : t.isDir path = true := by
  rw [isDir_iff]
  induction rest using List.reverseRecOn with
  | nil => exact t.parent path name h
  | append_singleton rest last ih =>
      have hdir := t.parent (path ++ name :: rest) last (by simpa using h)
      exact ih (by rw [hdir]; exact Option.some_ne_none _)

/-- Every path to something leads through directories. -/
theorem isDir_above {t : FileTree κ α} {path below : List κ} (h : path <+: below)
    (hne : path ≠ below) (hbelow : t.node below ≠ none) : t.isDir path = true := by
  obtain ⟨rest, rfl⟩ := h
  cases rest with
  | nil => exact absurd (List.append_nil path).symm hne
  | cons name rest => exact isDir_of_below hbelow

/-- Nothing is below what is not a directory. -/
theorem node_below {t : FileTree κ α} {path : List κ} (h : t.isDir path = false)
    {p : List κ} (hp : path <+: p) (hne : p ≠ path) : t.node p = none := by
  by_contra hsome
  exact absurd (isDir_above hp hne.symm hsome) (by rw [h]; exact Bool.false_ne_true)

theorem read_eq_none_of_isDir {t : FileTree κ α} {path : List κ} (h : t.isDir path = true) :
    t.read path = none := by
  rw [read, isDir_iff.mp h]
  rfl

/-! ## Parts of a tree -/

/-- The tree with nothing in it. -/
def empty : FileTree κ α where
  node _ := none
  parent _ _ h := absurd rfl h
  bounded := ⟨0, fun _ h => absurd rfl h⟩

/-- A file, or a directory with nothing in it. -/
def leaf (n : Node α) : FileTree κ α where
  node
    | [] => some n
    | _ :: _ => none
  parent path name h := by cases path <;> exact absurd rfl h
  bounded := ⟨1, fun path h => by cases path <;> simp at h ⊢⟩

/-- What is at a path. -/
def sub (t : FileTree κ α) (path : List κ) : FileTree κ α where
  node rest := t.node (path ++ rest)
  parent rest name h := t.parent (path ++ rest) name (by rwa [List.append_assoc])
  bounded := by
    obtain ⟨depth, hdepth⟩ := t.bounded
    refine ⟨depth, fun rest h => ?_⟩
    have hlength := hdepth (path ++ rest) h
    rw [List.length_append] at hlength
    omega

@[simp] theorem node_empty (path : List κ) : (empty : FileTree κ α).node path = none := rfl

@[simp] theorem node_sub (t : FileTree κ α) (path rest : List κ) :
    (t.sub path).node rest = t.node (path ++ rest) := rfl

@[simp] theorem read_sub (t : FileTree κ α) (path rest : List κ) :
    (t.sub path).read rest = t.read (path ++ rest) := rfl

/-- Can something stand at the path? -/
def Reachable (t : FileTree κ α) (path : List κ) : Prop :=
  path = [] ∨ t.isDir path.dropLast = true

instance (t : FileTree κ α) (path : List κ) : Decidable (t.Reachable path) :=
  inferInstanceAs (Decidable (_ ∨ _))

theorem reachable_of_node {t : FileTree κ α} {path : List κ} (h : t.node path ≠ none) :
    t.Reachable path := by
  induction path using List.reverseRecOn with
  | nil => exact .inl rfl
  | append_singleton path name _ =>
      rw [Reachable, List.dropLast_concat]
      exact .inr (isDir_of_below h)

section Put

variable [DecidableEq κ]

/-- The tree with another one at a path, in place of what is there. -/
def put (t : FileTree κ α) (path : List κ) (other : FileTree κ α) : FileTree κ α where
  node p :=
    if t.Reachable path ∧ path <+: p then other.node (p.drop path.length) else t.node p
  parent p name := by
    intro h
    by_cases hreach : t.Reachable path
    · by_cases hp : path <+: p
      · have hp' : path <+: p ++ [name] := hp.trans (List.prefix_append p [name])
        rw [if_pos ⟨hreach, hp'⟩, List.drop_append_of_le_length hp.length_le] at h
        rw [if_pos ⟨hreach, hp⟩]
        exact other.parent _ name h
      · rw [if_neg (fun hboth => hp hboth.2)]
        by_cases hp' : path <+: p ++ [name]
        · -- The path is that of the new entry, so `p` is its directory.
          obtain rfl : path = p ++ [name] := by
            rcases List.prefix_concat_iff.mp hp' with heq | hbelow
            · simpa using heq
            · exact absurd hbelow hp
          rcases hreach with hnil | hdir
          · simp at hnil
          · rwa [List.dropLast_concat, isDir_iff] at hdir
        · rw [if_neg (fun hboth => hp' hboth.2)] at h
          exact t.parent p name h
    · rw [if_neg (fun hboth => hreach hboth.1)] at h ⊢
      exact t.parent p name h
  bounded := by
    obtain ⟨depth, hdepth⟩ := t.bounded
    obtain ⟨depth', hdepth'⟩ := other.bounded
    refine ⟨depth + path.length + depth', fun p h => ?_⟩
    split_ifs at h
    · have hlength := hdepth' _ h
      rw [List.length_drop] at hlength
      omega
    · have hlength := hdepth p h
      omega

/-- The tree without what is at a path. -/
def remove (t : FileTree κ α) (path : List κ) : FileTree κ α := t.put path empty

variable {t : FileTree κ α} {path : List κ}

theorem node_put_below (h : t.Reachable path) (other : FileTree κ α) (rest : List κ) :
    (t.put path other).node (path ++ rest) = other.node rest := by
  show (if _ then _ else _) = _
  rw [if_pos ⟨h, List.prefix_append path rest⟩, List.drop_left]

theorem node_put_beside (other : FileTree κ α) {p : List κ} (h : ¬ path <+: p) :
    (t.put path other).node p = t.node p :=
  if_neg fun hboth => h hboth.2

theorem read_put_self (h : t.Reachable path) (other : FileTree κ α) :
    (t.put path other).read path = other.read [] := by
  have hnode := node_put_below h other []
  rw [List.append_nil] at hnode
  rw [read, read, hnode]

theorem read_put_beside (other : FileTree κ α) {p : List κ} (h : ¬ path <+: p) :
    (t.put path other).read p = t.read p := by
  rw [read, read, node_put_beside other h]

theorem node_remove_self (h : t.node path ≠ none) : (t.remove path).node path = none := by
  have hnode := node_put_below (reachable_of_node h) empty []
  rwa [List.append_nil] at hnode

theorem node_remove_beside {p : List κ} (h : ¬ path <+: p) :
    (t.remove path).node p = t.node p :=
  node_put_beside empty h

/-- Where nothing stands there is nothing to remove. -/
theorem remove_of_none (h : t.node path = none) : t.remove path = t := by
  apply FileTree.ext
  funext p
  by_cases hboth : t.Reachable path ∧ path <+: p
  · have hp : t.node p = none := by
      by_cases heq : p = path
      · rw [heq, h]
      · exact node_below (by rw [isDir, h]) hboth.2 heq
    rw [hp]
    exact if_pos hboth
  · exact if_neg hboth

/-- What is beside a path stays when the path is removed. -/
theorem sub_remove {p : List κ} (h : ¬ path <+: p) (h' : ¬ p <+: path) :
    (t.remove path).sub p = t.sub p := by
  apply FileTree.ext
  funext rest
  refine node_remove_beside fun hpre => ?_
  rcases List.prefix_or_prefix_of_prefix hpre (List.prefix_append p rest) with hp | hp
  · exact h hp
  · exact h' hp

/-- What is put somewhere need not be removed before. -/
theorem put_remove (h : t.Reachable path) (other : FileTree κ α) :
    (t.remove path).put path other = t.put path other := by
  have hreach : (t.remove path).Reachable path := by
    by_cases hnil : path = []
    · exact .inl hnil
    · have hbeside : ¬ path <+: path.dropLast := by
        intro hpre
        have hlength := hpre.length_le
        rw [List.length_dropLast] at hlength
        have hpos := List.length_pos_iff.mpr hnil
        omega
      refine .inr ?_
      rw [isDir, node_remove_beside hbeside]
      exact h.resolve_left hnil
  apply FileTree.ext
  funext p
  by_cases hp : path <+: p
  · obtain ⟨rest, rfl⟩ := hp
    rw [node_put_below hreach, node_put_below h]
  · rw [node_put_beside other hp, node_put_beside other hp,
      node_remove_beside hp]

/-- Without a file, every other file is still there. -/
theorem read_remove_eq_some_iff {content content' : α} (h : t.read path = some content)
    {p : List κ} :
    (t.remove path).read p = some content' ↔ t.read p = some content' ∧ p ≠ path := by
  have hnode := read_eq_some_iff.mp h
  have hsome : t.node path ≠ none := by rw [hnode]; exact Option.some_ne_none _
  by_cases hp : path <+: p
  · have hgone : (t.remove path).read p = none := by
      obtain ⟨rest, rfl⟩ := hp
      rw [read, remove, node_put_below (reachable_of_node hsome)]
      rfl
    rw [hgone]
    refine ⟨fun hread => absurd hread (by simp), fun ⟨hread, hne⟩ => ?_⟩
    have hdir := isDir_above hp hne.symm
      (by rw [read_eq_some_iff.mp hread]; exact Option.some_ne_none _)
    rw [read_eq_none_of_isDir hdir] at h
    exact absurd h (by simp)
  · have hne : p ≠ path := by
      rintro rfl
      exact hp (List.prefix_refl p)
    rw [read, node_remove_beside hp, ← read]
    exact ⟨fun hread => ⟨hread, hne⟩, And.left⟩

/-- Where nothing stands, nothing is lost by putting something there. -/
theorem isDir_put_of_isDir (h : t.node path = none) (other : FileTree κ α) {p : List κ}
    (hp : t.isDir p = true) : (t.put path other).isDir p = true := by
  have hbeside : ¬ path <+: p := by
    intro hpre
    have hsome : t.node p ≠ none := by rw [isDir_iff.mp hp]; exact Option.some_ne_none _
    by_cases heq : path = p
    · exact hsome (heq ▸ h)
    · have hdir := isDir_iff.mp (isDir_above hpre heq hsome)
      rw [h] at hdir
      exact absurd hdir (by simp)
  rwa [isDir, node_put_beside other hbeside]

/-- **Without a file, every directory is still there.** -/
theorem isDir_remove {content : α} (h : t.read path = some content) (p : List κ) :
    (t.remove path).isDir p = t.isDir p := by
  rw [read_eq_some_iff] at h
  have hreach : t.Reachable path := reachable_of_node (by rw [h]; exact Option.some_ne_none _)
  by_cases hp : path <+: p
  · -- Nothing at or below the file is a directory, before and after.
    have hdir : t.isDir p = false := by
      by_contra hnot
      have hdir := isDir_iff.mp (Bool.not_eq_false _ ▸ hnot)
      have hpath : t.node path = some .directory := by
        by_cases heq : path = p
        · rwa [heq]
        · exact isDir_iff.mp (isDir_above hp heq (by rw [hdir]; exact Option.some_ne_none _))
      rw [h] at hpath
      exact absurd hpath (by simp)
    obtain ⟨rest, rfl⟩ := hp
    rw [hdir, isDir, remove, node_put_below hreach]
    rfl
  · rw [isDir, isDir, node_remove_beside hp]

/-- What is put in place of a file is read there. -/
theorem read_put_remove {content : α} (h : t.read path = some content) (other : FileTree κ α) :
    ((t.remove path).put path other).read path = other.read [] := by
  have hreach : t.Reachable path :=
    reachable_of_node (by rw [read_eq_some_iff.mp h]; exact Option.some_ne_none _)
  rw [put_remove hreach, read_put_self hreach]

/-- The tree with a file at a path, in place of one that is there. -/
def write (t : FileTree κ α) (path : List κ) (content : α) : FileTree κ α :=
  t.put path (leaf (.file content))

/-- What is put in place of a file, with nothing below it, leaves everything else. -/
theorem node_put_leaf (hreach : t.Reachable path) (h : t.isDir path = false)
    {other : FileTree κ α} (hother : ∀ name rest, other.node (name :: rest) = none) (p : List κ) :
    (t.put path other).node p = if p = path then other.node [] else t.node p := by
  by_cases hp : path <+: p
  · obtain ⟨rest, rfl⟩ := hp
    rw [node_put_below hreach]
    cases rest with
    | nil => rw [List.append_nil, if_pos rfl]
    | cons name rest =>
        have hne : path ++ name :: rest ≠ path := by simp
        rw [if_neg hne, node_below h (List.prefix_append _ _) hne, hother]
  · have hne : p ≠ path := by
      rintro rfl
      exact hp (List.prefix_refl p)
    rw [node_put_beside _ hp, if_neg hne]

/-- **A file is put at its path, and everything else stays.** -/
theorem node_write (hreach : t.Reachable path) (h : t.isDir path = false) (content : α)
    (p : List κ) :
    (t.write path content).node p = if p = path then some (.file content) else t.node p :=
  node_put_leaf hreach h (fun _ _ => rfl) p

/-- **A file is removed from its path, and everything else stays.** -/
theorem node_remove_file {content : α} (h : t.read path = some content) (p : List κ) :
    (t.remove path).node p = if p = path then none else t.node p := by
  have hnode := read_eq_some_iff.mp h
  have hsome : t.node path ≠ none := by rw [hnode]; exact Option.some_ne_none _
  have hdir : t.isDir path = false := by rw [isDir, hnode]
  exact node_put_leaf (reachable_of_node hsome) hdir (fun _ _ => rfl) p

/-- With a file put somewhere, every directory is still there. -/
theorem isDir_write (hreach : t.Reachable path) (h : t.isDir path = false) (content : α)
    (p : List κ) : (t.write path content).isDir p = t.isDir p := by
  rw [isDir, node_write hreach h]
  by_cases hp : p = path
  · rw [if_pos hp, hp, h]
  · rw [if_neg hp]
    rfl

end Put

/-! ## Walking -/

/-- A piece of a path. -/
inductive Step (κ : Type) where
  | stay
  | up
  | down (name : κ)
  deriving DecidableEq

/-- Where the pieces lead from a directory; the last one may lead to nothing. -/
def walk (t : FileTree κ α) : List κ → List (Step κ) → Option (List κ)
  | here, [] => some here
  | here, step :: steps =>
      if t.isDir here then
        match step with
        | .stay => walk t here steps
        | .up => walk t here.dropLast steps
        | .down name => walk t (here ++ [name]) steps
      else none

/-- Where the pieces lead depends on the directories only. -/
theorem walk_congr {t t' : FileTree κ α} (h : ∀ path, t.isDir path = t'.isDir path)
    (here : List κ) (steps : List (Step κ)) : t.walk here steps = t'.walk here steps := by
  induction steps generalizing here with
  | nil => rfl
  | cons step steps ih => cases step <;> simp only [walk, h, ih]

/-- With more directories, what led somewhere still leads there. -/
theorem walk_mono {t t' : FileTree κ α} (h : ∀ path, t.isDir path = true → t'.isDir path = true)
    {here there : List κ} {steps : List (Step κ)} (hwalk : t.walk here steps = some there) :
    t'.walk here steps = some there := by
  induction steps generalizing here with
  | nil => exact hwalk
  | cons step steps ih =>
      cases step <;>
      · simp only [walk] at hwalk ⊢
        split_ifs at hwalk with hdir
        rw [if_pos (h here hdir)]
        exact ih hwalk

theorem walk_append (t : FileTree κ α) (here : List κ) (steps more : List (Step κ)) :
    t.walk here (steps ++ more) = (t.walk here steps).bind (t.walk · more) := by
  induction steps generalizing here with
  | nil => rfl
  | cons step steps ih =>
      cases step <;>
      · simp only [List.cons_append, walk, ih]
        split_ifs <;> rfl

/-- What the text between two slashes says. -/
def Step.ofText (text : List Char) : Step String :=
  if text = [] ∨ text = ['.'] then .stay
  else if text = ['.', '.'] then .up
  else .down (String.ofList text)

/-- Where a path leads, in a working directory.  The empty path leads nowhere. -/
def resolve (t : FileTree String α) (cwd : List String) (path : List Char) :
    Option (List String) :=
  if path = [] then none
  else t.walk (if path.head? = some '/' then [] else cwd) ((path.splitOn '/').map Step.ofText)

theorem resolve_congr {t t' : FileTree String α} (h : ∀ path, t.isDir path = t'.isDir path)
    (cwd : List String) (path : List Char) : t.resolve cwd path = t'.resolve cwd path := by
  rw [resolve, resolve, walk_congr h]

theorem resolve_mono {t t' : FileTree String α}
    (h : ∀ path, t.isDir path = true → t'.isDir path = true) {cwd there : List String}
    {path : List Char} (hresolve : t.resolve cwd path = some there) :
    t'.resolve cwd path = some there := by
  rw [resolve] at hresolve ⊢
  split_ifs at hresolve ⊢ <;> exact walk_mono h hresolve

/-- The content of the file a path leads to. -/
def lookup (t : FileTree String α) (cwd : List String) (path : List Char) : Option α :=
  (t.resolve cwd path).bind t.read

/-- **Without a file, every path leads where it led.** -/
theorem resolve_remove {t : FileTree String α} {file : List String} {content : α}
    (h : t.read file = some content) (cwd : List String) (path : List Char) :
    (t.remove file).resolve cwd path = t.resolve cwd path :=
  resolve_congr (isDir_remove h) cwd path

/-! ## Names joined to a directory -/

/-- A text that is no `.` or `..` is a name. -/
theorem Step.ofText_eq_down {text : List Char} (h : 2 < text.length) :
    Step.ofText text = .down (String.ofList text) := by
  have hdot : ¬ (text = [] ∨ text = ['.']) := by
    rintro (rfl | rfl)
    · exact absurd h (by decide)
    · exact absurd h (by decide)
  have hdots : text ≠ ['.', '.'] := by
    rintro rfl
    exact absurd h (by decide)
  rw [Step.ofText, if_neg hdot, if_neg hdots]

/-- The last piece of a path. -/
theorem splitOn_append_slash (a : List Char) {b : List Char} (hb : '/' ∉ b) :
    (a ++ '/' :: b).splitOn '/' = a.splitOn '/' ++ [b] := by
  rw [List.splitOn_append_cons_self, List.splitOn_eq_singleton hb]

variable {t : FileTree String α} {cwd : List String}

/-- Where the pieces of a path lead, the last of which is a name. -/
theorem walk_concat_down (here : List String) (steps : List (Step String)) (name : String) :
    t.walk here (steps ++ [.down name]) =
      (t.walk here steps).bind fun p => if t.isDir p then some (p ++ [name]) else none := by
  rw [walk_append]
  rfl

/-- **A name joined to a directory** leads into the directory. -/
theorem resolve_join {dir : List Char} {base : List String}
    (hdir : t.resolve cwd dir = some base) (hbase : t.isDir base = true) {file : List Char}
    (hslash : '/' ∉ file) (hlength : 2 < file.length) :
    t.resolve cwd (PosixPath.join dir file) = some (base ++ [String.ofList file]) := by
  have hne : dir ≠ [] := by
    rintro rfl
    exact absurd hdir (by simp [resolve])
  have hrelative : file.head? ≠ some '/' := fun hhead => hslash (List.mem_of_mem_head? hhead)
  rw [resolve, if_neg hne] at hdir
  by_cases hlast : dir.getLast? = some '/'
  · -- The directory ends in a slash, behind which nothing stands.
    obtain ⟨front, rfl⟩ := List.getLast?_eq_some_iff.mp hlast
    have hfront : t.walk (if (front ++ ['/']).head? = some '/' then [] else cwd)
        ((front.splitOn '/').map Step.ofText) = some base := by
      rw [splitOn_append_slash front List.not_mem_nil, List.map_append, walk_append] at hdir
      obtain ⟨p, hp, hstay⟩ := Option.bind_eq_some_iff.mp hdir
      have hpbase : t.isDir p = true ∧ p = base := by
        simpa [walk, Step.ofText] using hstay
      rw [hp, hpbase.2]
    rw [PosixPath.join, if_neg hrelative, if_pos (Or.inr hlast), resolve,
      if_neg (List.append_ne_nil_of_left_ne_nil hne file),
      List.head?_append_of_ne_nil _ hne, List.append_assoc, List.singleton_append,
      splitOn_append_slash front hslash, List.map_append, List.map_singleton,
      Step.ofText_eq_down hlength, walk_concat_down, hfront, Option.bind_some, if_pos hbase]
  · rw [PosixPath.join, if_neg hrelative, if_neg (not_or.mpr ⟨hne, hlast⟩), resolve,
      if_neg (List.append_ne_nil_of_left_ne_nil hne _), List.head?_append_of_ne_nil _ hne,
      splitOn_append_slash dir hslash, List.map_append, List.map_singleton,
      Step.ofText_eq_down hlength, walk_concat_down, hdir, Option.bind_some, if_pos hbase]

/-- The last piece of a path ends as the path does.  By induction on the slashes of the text,
from the first one. -/
theorem exists_splitOn_append (text : List Char) {ending : List Char} (hslash : '/' ∉ ending) :
    ∃ pieces front, (text ++ ending).splitOn '/' = pieces ++ [front ++ ending] ∧
      '/' ∉ front := by
  induction hn : text.length using Nat.strong_induction_on generalizing text with
  | _ n ih =>
      by_cases hmem : '/' ∈ text
      · obtain ⟨first, rest, rfl, -⟩ := List.eq_append_cons_of_mem hmem
        obtain ⟨pieces, front, hpieces, hfront⟩ := ih rest.length
          (by rw [← hn, List.length_append, List.length_cons]; omega) rest rfl
        refine ⟨first.splitOn '/' ++ pieces, front, ?_, hfront⟩
        rw [List.append_assoc, List.cons_append, List.splitOn_append_cons_self, hpieces,
          List.append_assoc]
      · refine ⟨[], text, List.splitOn_eq_singleton fun h => ?_, hmem⟩
        exact (List.mem_append.mp h).elim hmem hslash

/-- **The last name on the way** ends as the path does. -/
theorem resolve_append {text ending : List Char} (hslash : '/' ∉ ending)
    (hlength : 2 < ending.length) {path : List String}
    (h : t.resolve cwd (text ++ ending) = some path) :
    ∃ parent front, path = parent ++ [String.ofList (front ++ ending)] ∧ '/' ∉ front ∧
      t.isDir parent = true := by
  obtain ⟨pieces, front, hpieces, hfront⟩ := exists_splitOn_append text hslash
  have hlong : 2 < (front ++ ending).length := by
    rw [List.length_append]
    omega
  have hne : text ++ ending ≠ [] := by
    intro hnil
    rw [(List.append_eq_nil_iff.mp hnil).2] at hlength
    exact absurd hlength (by decide)
  rw [resolve, if_neg hne, hpieces, List.map_append, List.map_singleton,
    Step.ofText_eq_down hlong, walk_concat_down] at h
  obtain ⟨parent, -, hparent⟩ := Option.bind_eq_some_iff.mp h
  by_cases hdir : t.isDir parent = true
  · rw [if_pos hdir] at hparent
    exact ⟨parent, front, (Option.some.inj hparent).symm, hfront, hdir⟩
  · rw [if_neg hdir] at hparent
    exact absurd hparent (by simp)

end FileTree
end Ucser
