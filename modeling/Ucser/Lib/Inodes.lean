import Mathlib.Logic.Function.Basic
import Mathlib.Order.Nat
import Ucser.Lib.Dict

/-!
# Trees of names over shared inodes

A file system with several trees.  The names of a tree refer to inodes, several names may
refer to one, and what is written in place is seen under all of them.

* `FileOp`, `FileOp.edits` — an operation on one tree, and the edits in place a list of
  operations makes to one inode: these depend on names alone.
* `Volume` — the trees and the contents; no name refers to an inode not yet in use.
* `Volume.link`, `Volume.copy` — new names for the same inodes, new inodes for the same
  contents.
* `content_applyAll` — **what an inode holds after a list of operations**: its edits, in
  order.
* `read_copy` — **a copy reads as its source does**.
* `read_copy_link`, `read_copy_copy` — **what comes back from a tree of links, and from a
  copy**.
-/

namespace Ucser

/-- An operation on a tree of files with contents of type `α`. -/
inductive FileOp (κ α : Type) where
  /-- A new file; nothing happens when there is one under the name. -/
  | create (path : κ) (content : α)
  | delete (path : κ)
  /-- Replaces what is under the new name, unless it is the same file. -/
  | rename (old new : κ)
  /-- Any write in place. -/
  | edit (path : κ) (f : α → α)

namespace FileOp

variable {κ α : Type} [DecidableEq κ]

/-- The names of the tree afterwards, given the next inode to be used. -/
def names (tree : Dict κ Nat) (fresh : Nat) : FileOp κ α → Dict κ Nat
  | create path _ => if (tree.get? path).isNone then tree.insert path fresh else tree
  | delete path => tree.erase path
  | rename old new =>
      match tree.get? old with
      | none => tree
      | some inode =>
          if tree.get? new = some inode then tree else (tree.erase old).insert new inode
  | edit _ _ => tree

/-- The next inode to be used afterwards. -/
def next (tree : Dict κ Nat) (fresh : Nat) : FileOp κ α → Nat
  | create path _ => if (tree.get? path).isNone then fresh + 1 else fresh
  | _ => fresh

/-- The edit an operation makes to an inode that is in use. -/
def editOf (tree : Dict κ Nat) (inode : Nat) : FileOp κ α → Option (α → α)
  | edit path f => if tree.get? path = some inode then some f else none
  | _ => none

/-- The edits a list of operations makes to an inode, oldest first. -/
def edits (tree : Dict κ Nat) (fresh inode : Nat) : List (FileOp κ α) → List (α → α)
  | [] => []
  | op :: ops =>
      (op.editOf tree inode).toList ++ edits (op.names tree fresh) (op.next tree fresh) inode ops

/-- The contents afterwards. -/
def contents (tree : Dict κ Nat) (fresh : Nat) (content : Nat → α) : FileOp κ α → Nat → α
  | create path c =>
      if (tree.get? path).isNone then Function.update content fresh c else content
  | edit path f =>
      match tree.get? path with
      | none => content
      | some inode => Function.update content inode (f (content inode))
  | _ => content

variable {tree : Dict κ Nat} {fresh inode : Nat}

theorem le_next (op : FileOp κ α) : fresh ≤ op.next tree fresh := by
  cases op with
  | create path c =>
      dsimp only [next]
      split_ifs
      · exact Nat.le_succ fresh
      · exact le_rfl
  | delete path => exact le_rfl
  | rename old new => exact le_rfl
  | edit path f => exact le_rfl

/-- **Where names can lead afterwards**: where a name led before, or to a new inode. -/
theorem get?_names {op : FileOp κ α} {path : κ}
    (h : (op.names tree fresh).get? path = some inode) :
    (∃ path', tree.get? path' = some inode) ∨ inode = fresh ∧ fresh < op.next tree fresh := by
  cases op with
  | create path' c =>
      dsimp only [names, next] at h ⊢
      split_ifs at h ⊢
      · rw [Dict.get?_insert] at h
        split_ifs at h
        · exact Or.inr ⟨(Option.some.inj h).symm, Nat.lt_succ_self fresh⟩
        · exact Or.inl ⟨path, h⟩
      · exact Or.inl ⟨path, h⟩
  | delete path' =>
      rw [names, Dict.get?_erase] at h
      split_ifs at h
      exact Or.inl ⟨path, h⟩
  | rename old new =>
      dsimp only [names] at h
      cases hold : tree.get? old with
      | none =>
          rw [hold] at h
          exact Or.inl ⟨path, h⟩
      | some i =>
          rw [hold] at h
          dsimp only at h
          split_ifs at h
          · exact Or.inl ⟨path, h⟩
          · rw [Dict.get?_insert, Dict.get?_erase] at h
            split_ifs at h
            · exact Or.inl ⟨old, hold.trans h⟩
            · exact Or.inl ⟨path, h⟩
  | edit path' f => exact Or.inl ⟨path, h⟩

/-- **What an operation does to an inode in use**: its edit, if it has one for it. -/
theorem contents_of_lt (op : FileOp κ α) (content : Nat → α) (h : inode < fresh) :
    op.contents tree fresh content inode = ((op.editOf tree inode).getD id) (content inode) := by
  cases op with
  | create path c =>
      dsimp only [contents, editOf]
      split_ifs
      · exact Function.update_of_ne h.ne c content
      · rfl
  | delete path => rfl
  | rename old new => rfl
  | edit path f =>
      dsimp only [contents, editOf]
      cases hpath : tree.get? path with
      | none => simp
      | some i =>
          dsimp only
          by_cases hi : i = inode
          · subst hi
            simp
          · rw [Function.update_of_ne (Ne.symm hi)]
            simp [hi]

/-- An inode in use that no name leads to is never edited. -/
theorem edits_of_unnamed (ops : List (FileOp κ α)) (hinode : inode < fresh)
    (h : ∀ path, tree.get? path ≠ some inode) : edits tree fresh inode ops = [] := by
  induction ops generalizing tree fresh with
  | nil => rfl
  | cons op ops ih =>
      have hnone : op.editOf tree inode = none := by
        cases op with
        | edit path f => simp [editOf, h path]
        | create path c => rfl
        | delete path => rfl
        | rename old new => rfl
      rw [edits, hnone, Option.toList_none, List.nil_append]
      apply ih (hinode.trans_le (le_next op))
      intro path hpath
      obtain ⟨path', hpath'⟩ | ⟨hfresh, _⟩ := get?_names hpath
      · exact h path' hpath'
      · exact absurd hfresh hinode.ne

/-- Without edits in place no inode is edited. -/
theorem edits_of_no_edit {ops : List (FileOp κ α)} (h : ∀ op ∈ ops, ∀ path f, op ≠ edit path f) :
    edits tree fresh inode ops = [] := by
  induction ops generalizing tree fresh with
  | nil => rfl
  | cons op ops ih =>
      obtain ⟨hop, hops⟩ := List.forall_mem_cons.mp h
      have hnone : op.editOf tree inode = none := by
        cases op with
        | edit path f => exact absurd rfl (hop path f)
        | create path c => rfl
        | delete path => rfl
        | rename old new => rfl
      rw [edits, hnone, Option.toList_none, List.nil_append]
      exact ih hops

end FileOp

/-- Trees of names over shared inodes. -/
structure Volume (ι κ α : Type) [DecidableEq κ] where
  trees : ι → Dict κ Nat
  content : Nat → α
  /-- The inodes from here on are not in use. -/
  fresh : Nat
  bounded : ∀ tree path inode, (trees tree).get? path = some inode → inode < fresh

namespace Volume

variable {ι κ α : Type} [DecidableEq ι] [DecidableEq κ]

/-- What is read under a name. -/
def read (volume : Volume ι κ α) (tree : ι) (path : κ) : Option α :=
  ((volume.trees tree).get? path).map volume.content

/-- An operation on a tree. -/
def apply (volume : Volume ι κ α) (tree : ι) (op : FileOp κ α) : Volume ι κ α where
  trees := Function.update volume.trees tree (op.names (volume.trees tree) volume.fresh)
  content := op.contents (volume.trees tree) volume.fresh volume.content
  fresh := op.next (volume.trees tree) volume.fresh
  bounded := by
    intro tree' path inode h
    by_cases htree : tree' = tree
    · subst htree
      rw [Function.update_self] at h
      obtain ⟨path', hpath'⟩ | ⟨rfl, hlt⟩ := FileOp.get?_names h
      · exact (volume.bounded _ _ _ hpath').trans_le (FileOp.le_next op)
      · exact hlt
    · rw [Function.update_of_ne htree] at h
      exact (volume.bounded _ _ _ h).trans_le (FileOp.le_next op)

/-- A list of operations on a tree. -/
def applyAll (volume : Volume ι κ α) (tree : ι) (ops : List (FileOp κ α)) : Volume ι κ α :=
  ops.foldl (fun volume op => volume.apply tree op) volume

/-- Removing all names of a tree. -/
def clear (volume : Volume ι κ α) (tree : ι) : Volume ι κ α where
  trees := Function.update volume.trees tree Dict.empty
  content := volume.content
  fresh := volume.fresh
  bounded := by
    intro tree' path inode h
    by_cases htree : tree' = tree
    · subst htree
      rw [Function.update_self] at h
      exact absurd h (by simp [Dict.get?, Dict.empty])
    · rw [Function.update_of_ne htree] at h
      exact volume.bounded _ _ _ h

/-- New names for the inodes of a tree, in place of another tree. -/
def link (volume : Volume ι κ α) (source target : ι) : Volume ι κ α where
  trees := Function.update volume.trees target (volume.trees source)
  content := volume.content
  fresh := volume.fresh
  bounded := by
    intro tree path inode h
    by_cases htree : tree = target
    · subst htree
      rw [Function.update_self] at h
      exact volume.bounded _ _ _ h
    · rw [Function.update_of_ne htree] at h
      exact volume.bounded _ _ _ h

/-- A new file in a tree for every one of a list of names. -/
def createAll (volume : Volume ι κ α) (target : ι) (items : List (κ × Nat)) : Volume ι κ α :=
  items.foldl (fun volume item => volume.apply target (.create item.1 (volume.content item.2)))
    volume

/-- New files with the contents of a tree, in place of another tree. -/
def copy (volume : Volume ι κ α) (source target : ι) : Volume ι κ α :=
  (volume.clear target).createAll target (volume.trees source).items

/-! ## Runs of operations -/

variable (volume : Volume ι κ α) {tree tree' : ι} {ops : List (FileOp κ α)}

@[simp] theorem trees_apply (tree : ι) (op : FileOp κ α) :
    (volume.apply tree op).trees tree = op.names (volume.trees tree) volume.fresh :=
  Function.update_self ..

theorem trees_apply_of_ne (op : FileOp κ α) (h : tree' ≠ tree) :
    (volume.apply tree op).trees tree' = volume.trees tree' :=
  Function.update_of_ne h ..

theorem fresh_le_apply (tree : ι) (op : FileOp κ α) :
    volume.fresh ≤ (volume.apply tree op).fresh :=
  FileOp.le_next op

theorem content_apply (tree : ι) (op : FileOp κ α) {inode : Nat} (h : inode < volume.fresh) :
    (volume.apply tree op).content inode =
      ((op.editOf (volume.trees tree) inode).getD id) (volume.content inode) :=
  FileOp.contents_of_lt op volume.content h

/-- Operations on one tree leave the names of another. -/
theorem trees_applyAll_of_ne (ops : List (FileOp κ α)) (h : tree' ≠ tree) :
    (volume.applyAll tree ops).trees tree' = volume.trees tree' := by
  induction ops generalizing volume with
  | nil => rfl
  | cons op ops ih => exact (ih _).trans (volume.trees_apply_of_ne op h)

/-- **What an inode holds after a list of operations.**  By induction on the list. -/
theorem content_applyAll (tree : ι) (ops : List (FileOp κ α)) {inode : Nat}
    (h : inode < volume.fresh) :
    (volume.applyAll tree ops).content inode =
      (FileOp.edits (volume.trees tree) volume.fresh inode ops).foldl (fun c f => f c)
        (volume.content inode) := by
  induction ops generalizing volume with
  | nil => rfl
  | cons op ops ih =>
      refine (ih _ (h.trans_le (volume.fresh_le_apply tree op))).trans ?_
      rw [trees_apply, content_apply _ _ _ h, FileOp.edits, List.foldl_append]
      cases op.editOf (volume.trees tree) inode <;> rfl

/-! ## Links and copies -/

@[simp] theorem trees_link (source target : ι) :
    (volume.link source target).trees target = volume.trees source :=
  Function.update_self ..

theorem trees_link_of_ne {source target : ι} (h : tree ≠ target) :
    (volume.link source target).trees tree = volume.trees tree :=
  Function.update_of_ne h ..

theorem read_clear (tree : ι) (path : κ) : (volume.clear tree).read tree path = none := by
  simp [read, clear, Dict.get?, Dict.empty]

theorem trees_clear_of_ne (h : tree' ≠ tree) :
    (volume.clear tree).trees tree' = volume.trees tree' :=
  Function.update_of_ne h ..

/-- New files leave the inodes in use alone. -/
theorem content_create (tree : ι) (path : κ) (c : α) {inode : Nat} (h : inode < volume.fresh) :
    (volume.apply tree (.create path c)).content inode = volume.content inode :=
  volume.content_apply tree (.create path c) h

theorem trees_createAll_of_ne (items : List (κ × Nat)) (h : tree' ≠ tree) :
    (volume.createAll tree items).trees tree' = volume.trees tree' := by
  induction items generalizing volume with
  | nil => rfl
  | cons item items ih => exact (ih _).trans (volume.trees_apply_of_ne _ h)

/-- The names after a file has been created. -/
theorem get?_create (tree : ι) {path : κ} (c : α) (path' : κ)
    (h : (volume.trees tree).get? path = none) :
    ((volume.apply tree (.create path c)).trees tree).get? path' =
      if path' = path then some volume.fresh else (volume.trees tree).get? path' := by
  rw [trees_apply, FileOp.names, h, Option.isNone_none, if_pos rfl, Dict.get?_insert]

/-- What is read after a file has been created. -/
theorem read_create (tree : ι) {path : κ} (c : α) (path' : κ)
    (h : (volume.trees tree).get? path = none) :
    (volume.apply tree (.create path c)).read tree path' =
      if path' = path then some c else volume.read tree path' := by
  rw [read, volume.get?_create tree c path' h]
  by_cases hpath : path' = path
  · simp [hpath, apply, FileOp.contents, h]
  · rw [if_neg hpath, if_neg hpath, read]
    cases hget : (volume.trees tree).get? path' with
    | none => rfl
    | some inode => simp [volume.content_create tree path c (volume.bounded _ _ _ hget)]

/-- **What is read after a file has been created for each of a list of names**, none of
which was there. -/
theorem read_createAll (tree : ι) (items : List (κ × Nat)) (path : κ)
    (hnodup : (items.map Prod.fst).Nodup)
    (hfree : ∀ item ∈ items, (volume.trees tree).get? item.1 = none)
    (hbounded : ∀ item ∈ items, item.2 < volume.fresh) :
    (volume.createAll tree items).read tree path =
      ((items.lookup path).map volume.content).or (volume.read tree path) := by
  induction items generalizing volume with
  | nil => simp [createAll]
  | cons item items ih =>
      obtain ⟨key, inode⟩ := item
      rw [List.map_cons, List.nodup_cons] at hnodup
      obtain ⟨hkey, hrest⟩ := List.forall_mem_cons.mp hfree
      obtain ⟨hinode, hinodes⟩ := List.forall_mem_cons.mp hbounded
      have hne : ∀ item ∈ items, item.1 ≠ key := by
        intro item hitem heq
        exact hnodup.1 (List.mem_map.mpr ⟨item, hitem, heq⟩)
      have hfresh := volume.fresh_le_apply tree (.create key (volume.content inode))
      refine (ih (volume.apply tree (.create key (volume.content inode))) hnodup.2 ?_ ?_).trans ?_
      · intro item hitem
        rw [volume.get?_create tree _ _ hkey, if_neg (hne item hitem)]
        exact hrest item hitem
      · intro item hitem
        exact (hinodes item hitem).trans_le hfresh
      · rw [volume.read_create tree _ _ hkey, Dict.lookup_cons_eq]
        cases hlookup : items.lookup path with
        | none =>
            by_cases hpath : path = key
            · simp [hpath]
            · simp [hpath]
        | some inode' =>
            have hmem := Dict.mem_of_lookup hlookup
            simp [volume.content_create tree key _ (hinodes _ hmem), hne _ hmem]

/-- The names of new files lead to new inodes. -/
theorem get?_createAll (tree : ι) (items : List (κ × Nat)) {path : κ} {inode : Nat}
    (h : ((volume.createAll tree items).trees tree).get? path = some inode) :
    (volume.trees tree).get? path = some inode ∨ volume.fresh ≤ inode := by
  induction items generalizing volume with
  | nil => exact Or.inl h
  | cons item items ih =>
      rcases ih _ h with hget | hle
      · rw [trees_apply, FileOp.names] at hget
        split_ifs at hget
        · rw [Dict.get?_insert] at hget
          split_ifs at hget
          · exact Or.inr (Option.some.inj hget).le
          · exact Or.inl hget
        · exact Or.inl hget
      · exact Or.inr ((volume.fresh_le_apply tree _).trans hle)

section Copy

variable {source target : ι}

/-- A copy leaves the names of every other tree. -/
theorem trees_copy_of_ne (source : ι) (h : tree ≠ target) :
    (volume.copy source target).trees tree = volume.trees tree :=
  (trees_createAll_of_ne _ _ h).trans (volume.trees_clear_of_ne h)

/-- **A copy reads as its source does.** -/
theorem read_copy (source target : ι) (path : κ) :
    (volume.copy source target).read target path = volume.read source path := by
  have hfree : ∀ item ∈ (volume.trees source).items,
      ((volume.clear target).trees target).get? item.1 = none := by
    intro item _
    simp [clear, Dict.get?, Dict.empty]
  have hbounded : ∀ item ∈ (volume.trees source).items, item.2 < (volume.clear target).fresh := by
    intro item hitem
    exact volume.bounded source item.1 item.2 (Dict.mem_items_iff.mp hitem)
  rw [copy, read_createAll _ _ _ _ (volume.trees source).nodup hfree hbounded, read_clear,
    Option.or_none]
  rfl

/-- **What comes back from a tree of links**: the files of the source, each with the edits
made to its inode meanwhile. -/
theorem read_copy_link (ops : List (FileOp κ α)) (h : source ≠ target) (path : κ) :
    (((volume.link source target).applyAll source ops).copy target source).read source path =
      ((volume.trees source).get? path).map (fun inode =>
        (FileOp.edits (volume.trees source) volume.fresh inode ops).foldl (fun c f => f c)
          (volume.content inode)) := by
  rw [read_copy, read, trees_applyAll_of_ne _ ops h.symm, trees_link]
  cases hget : (volume.trees source).get? path with
  | none => rfl
  | some inode =>
      have hlt : inode < (volume.link source target).fresh := volume.bounded _ _ _ hget
      rw [Option.map_some, Option.map_some, content_applyAll _ _ _ hlt, volume.trees_link_of_ne h]
      rfl

/-- **What comes back from a copy**: the files of the source as they were. -/
theorem read_copy_copy (ops : List (FileOp κ α)) (h : source ≠ target) (path : κ) :
    (((volume.copy source target).applyAll source ops).copy target source).read source path =
      volume.read source path := by
  rw [read_copy, ← volume.read_copy source target, read, read, trees_applyAll_of_ne _ ops h.symm]
  cases hget : ((volume.copy source target).trees target).get? path with
  | none => rfl
  | some inode =>
      have hlt := (volume.copy source target).bounded _ _ _ hget
      have hunnamed : ∀ path', ((volume.copy source target).trees source).get? path' ≠
          some inode := by
        intro path' hpath'
        rw [volume.trees_copy_of_ne source h] at hpath'
        rcases get?_createAll _ _ _ hget with hcleared | hle
        · exact absurd hcleared (by simp [clear, Dict.get?, Dict.empty])
        · exact absurd (volume.bounded _ _ _ hpath') (not_lt.mpr hle)
      rw [Option.map_some, Option.map_some, content_applyAll _ _ _ hlt,
        FileOp.edits_of_unnamed ops hlt hunnamed]
      rfl

end Copy

end Volume
end Ucser
