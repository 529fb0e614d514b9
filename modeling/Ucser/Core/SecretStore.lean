import Mathlib.Data.List.Dedup
import Ucser.Core.SecretsManagement
import Ucser.Lib.Transition

/-!
# The secrets as a map over names

What the backend is for: a map from names to values.  It is one as long as no name with a slash
in it reaches a file.

* `Call`, `Traced`, `backend` — the calls, and the files together with the map.
* `Law`, `Lawful` — what is answered and listed is the map, and nothing outside is touched.
* `Safe`, `Fresh` — when a call keeps to that, and with which directory it begins.
* `mem_listSecrets` — what is listed.
* `Good` — the files are the map; `good_step` — **a safe call keeps that**.
* `law_iff` — **a call is lawful exactly when it is safe**.
* `lawful_iff` — **when the backend is a map**, over whole runs.
-/

namespace Ucser
namespace Secrets

variable {ν : Type}

/-! ## The calls -/

/-- A call of the backend; nothing else fails on the way. -/
inductive Call (ν : Type) where
  | set (nonce : ν) (name value : String)
  | rotate (nonce : ν) (name value : String)
  | delete (name : String)
  | get (name : String)

/-- What the call returns, if it is a `bool`, and the files after it. -/
def Call.run (b : EncryptedLocalBackend ν) (t : Tree) : Call ν → Bool × Tree
  | .set nonce name value => b.setSecret nonce none name value t
  | .rotate nonce name value => b.rotateSecret nonce none name value t
  | .delete name => b.deleteSecret name t
  | .get _ => (true, t)

/-- The map after a call: the value of the last successful set or rotation since the last
deletion. -/
def Call.record (done : Bool) (stored : String → Option String) :
    Call ν → String → Option String
  | .set _ name value | .rotate _ name value =>
      if done then Function.update stored name (some value) else stored
  | .delete name => Function.update stored name none
  | .get _ => stored

/-- The files, and the map. -/
structure Traced where
  tree : Tree
  stored : String → Option String

/-- No call has been made. -/
def start (t : Tree) : Traced := ⟨t, fun _ => none⟩

/-- The backend under a sequence of calls. -/
def backend (b : EncryptedLocalBackend ν) : System Traced (Call ν) where
  step s call :=
    let (done, tree) := call.run b s.tree
    some ⟨tree, call.record done s.stored⟩

/-- What `os.listdir` returns: every entry once, in some order. -/
structure Listdir (t : Tree) (dir filenames : List String) : Prop where
  nodup : filenames.Nodup
  mem_iff : ∀ filename, filename ∈ filenames ↔ t.node (dir ++ [filename]) ≠ none

/-! ## The law -/

/-- What is listed are the names of the map. -/
def Lists (base : List String) (s : Traced) : Prop :=
  ∀ filenames, Listdir s.tree base filenames →
    (EncryptedLocalBackend.listSecrets filenames).Nodup ∧
      ∀ name, name ∈ EncryptedLocalBackend.listSecrets filenames ↔ s.stored name ≠ none

/-- Nothing outside the storage directory has changed. -/
def Confined (base : List String) (t t' : Tree) : Prop :=
  ∀ path, ¬ base <+: path → t'.node path = t.node path

/-- A call is answered from the map, after it the names of the map are listed, and it has
changed nothing outside. -/
structure Law (b : EncryptedLocalBackend ν) (base : List String) (s : Traced) (call : Call ν) :
    Prop where
  answers : ∀ name, call = .get name → b.getSecret s.tree name = s.stored name
  lists : Lists base ((backend b).exec s call)
  confined : Confined base s.tree ((backend b).exec s call).tree

/-- At the beginning no name is listed, and every call is lawful. -/
def Lawful (b : EncryptedLocalBackend ν) (base : List String) (t : Tree) (calls : List (Call ν)) :
    Prop :=
  Lists base (start t) ∧ (backend b).Along (Law b base) (start t) calls

/-- Names with a slash reach nothing that matters: they cannot be opened for writing, what they
delete lies in a directory of the storage directory, and what they read is no secret. -/
def Safe (b : EncryptedLocalBackend ν) (base : List String) (s : Traced) : Call ν → Prop
  | .set _ name _ | .rotate _ name _ =>
      '/' ∉ name.toList ∨ ¬ ∃ path, Opens b s.tree name path
  | .delete name => '/' ∉ name.toList ∨ ∀ path encrypted, b.secretFile s.tree name = some path →
      s.tree.read path = some encrypted → base <+: path ∧ base.length + 1 < path.length
  | .get name => '/' ∉ name.toList ∨ ∀ path encrypted, b.secretFile s.tree name = some path →
      s.tree.read path = some encrypted → b.decode encrypted = none

/-- The storage directory has no entry that ends in `.enc`. -/
def Fresh (base : List String) (t : Tree) : Prop :=
  ∀ name, t.node (base ++ [fileName name]) = none

/-! ## What is listed -/

/-- The listed names, each with its suffix, are the entries that end in it. -/
theorem map_fileName_listSecrets (filenames : List String) :
    (EncryptedLocalBackend.listSecrets filenames).map fileName =
      filenames.filter fun filename => suffix <:+ filename.toList := by
  rw [EncryptedLocalBackend.listSecrets, List.map_map]
  refine (List.map_congr_left fun filename hfilename => ?_).trans (List.map_id _)
  obtain ⟨front, hfront⟩ := of_decide_eq_true (List.mem_filter.mp hfilename).2
  have hlength : filename.toList.length - 4 = front.length := by
    rw [← hfront, List.length_append]
    exact Nat.add_sub_cancel _ 4
  rw [Function.comp_apply, hlength, fileName, String.toList_ofList, ← hfront, List.take_left,
    hfront, String.ofList_toList, id_eq]

/-- **What is listed**: the names whose files are entries. -/
theorem mem_listSecrets {filenames : List String} {name : String} :
    name ∈ EncryptedLocalBackend.listSecrets filenames ↔ fileName name ∈ filenames := by
  have hsuffix : suffix <:+ (fileName name).toList := by
    rw [fileName, String.toList_ofList]
    exact List.suffix_append _ _
  rw [← List.mem_map_of_injective fileName_injective, map_fileName_listSecrets, List.mem_filter]
  exact and_iff_left (decide_eq_true hsuffix)

theorem nodup_listSecrets {filenames : List String} (h : filenames.Nodup) :
    (EncryptedLocalBackend.listSecrets filenames).Nodup := by
  refine List.Nodup.of_map fileName ?_
  rw [map_fileName_listSecrets]
  exact h.filter _

variable {b : EncryptedLocalBackend ν} {base path : List String} {s : Traced} {name : String}

/-- The names of the map are listed when they have the entries. -/
theorem lists_iff (hlist : ∃ filenames, Listdir s.tree base filenames) :
    Lists base s ↔
      ∀ name, s.tree.node (base ++ [fileName name]) ≠ none ↔ s.stored name ≠ none := by
  constructor
  · intro h name
    obtain ⟨filenames, hfilenames⟩ := hlist
    rw [← (h filenames hfilenames).2 name, mem_listSecrets, hfilenames.mem_iff]
  · intro h filenames hfilenames
    refine ⟨nodup_listSecrets hfilenames.nodup, fun name => ?_⟩
    rw [mem_listSecrets, hfilenames.mem_iff, h]

/-- A directory can still be listed when one path has changed. -/
theorem exists_listdir {t t' : Tree} (hlist : ∃ filenames, Listdir t base filenames)
    (h : ∀ p, p ≠ path → t'.node p = t.node p) : ∃ filenames, Listdir t' base filenames := by
  obtain ⟨filenames, hnodup, hmem⟩ := hlist
  refine ⟨((path.getLastD "" :: filenames).dedup).filter
    fun filename => (t'.node (base ++ [filename])).isSome, (List.nodup_dedup _).filter _, ?_⟩
  intro filename
  rw [List.mem_filter, List.mem_dedup, Option.isSome_iff_ne_none]
  refine and_iff_right_of_imp fun hsome => ?_
  by_cases hpath : base ++ [filename] = path
  · rw [← hpath]
    simp
  · rw [h _ hpath] at hsome
    exact List.mem_cons_of_mem _ ((hmem filename).mpr hsome)

/-! ## The files are the map -/

/-- A name has no entry and no value, or it is plain, and its file holds a token of the
value. -/
def Entry (b : EncryptedLocalBackend ν) (base : List String) (s : Traced) (name : String) : Prop :=
  (s.stored name = none ∧ s.tree.node (base ++ [fileName name]) = none) ∨
    ∃ value nonce, Plain name ∧ s.stored name = some value ∧
      s.tree.node (base ++ [fileName name]) = some (.file (b.token nonce value))

/-- The storage directory is there, and its entries are the map. -/
structure Good (b : EncryptedLocalBackend ν) (base : List String) (s : Traced) : Prop where
  mounted : Mounted b s.tree base
  listed : ∃ filenames, Listdir s.tree base filenames
  entry : ∀ name, Entry b base s name

theorem Good.node_iff (h : Good b base s) (name : String) :
    s.tree.node (base ++ [fileName name]) ≠ none ↔ s.stored name ≠ none := by
  obtain ⟨hstored, hnode⟩ | ⟨value, nonce, -, hstored, hnode⟩ := h.entry name
  · rw [hstored, hnode]
    exact iff_of_false (not_ne_iff.mpr rfl) (not_ne_iff.mpr rfl)
  · rw [hstored, hnode]
    exact iff_of_true (Option.some_ne_none _) (Option.some_ne_none _)

theorem Good.lists (h : Good b base s) : Lists base s := (lists_iff h.listed).mpr h.node_iff

/-- Only plain names have values. -/
theorem Good.stored_eq_none (h : Good b base s) (hname : ¬ Plain name) : s.stored name = none := by
  obtain ⟨hstored, -⟩ | ⟨value, nonce, hplain, -⟩ := h.entry name
  · exact hstored
  · exact absurd hplain hname

/-- At the beginning it depends on the entries of the storage directory. -/
theorem lists_start_iff {t : Tree} (hlist : ∃ filenames, Listdir t base filenames) :
    Lists base (start t) ↔ Fresh base t := by
  rw [lists_iff hlist]
  refine forall_congr' fun name => ⟨fun h => ?_, fun h => ?_⟩
  · exact not_ne_iff.mp fun hne => h.mp hne rfl
  · exact iff_of_false (not_ne_iff.mpr h) (not_ne_iff.mpr rfl)

theorem good_start {t : Tree} (hmount : Mounted b t base)
    (hlist : ∃ filenames, Listdir t base filenames) (h : Fresh base t) : Good b base (start t) :=
  ⟨hmount, hlist, fun name => Or.inl ⟨rfl, h name⟩⟩

/-- A plain name reads its value. -/
theorem Good.getSecret_eq (hc : b.cipher.Inverse) (h : Good b base s) (hname : Plain name) :
    b.getSecret s.tree name = s.stored name := by
  rw [EncryptedLocalBackend.getSecret, secretFile_of_plain h.mounted hname]
  dsimp only
  obtain ⟨hstored, hnode⟩ | ⟨value, nonce, -, hstored, hnode⟩ := h.entry name
  · rw [hstored, hnode]
  · rw [hstored, hnode]
    exact decode_token hc nonce value

/-- The files change at one path, which is no directory before and after. -/
structure Touches (t t' : Tree) (path : List String) : Prop where
  beside : ∀ p, p ≠ path → t'.node p = t.node p
  isDir : ∀ p, t'.isDir p = t.isDir p

theorem Mounted.congr {t t' : Tree} (hmount : Mounted b t base)
    (h : ∀ p, t'.isDir p = t.isDir p) : Mounted b t' base where
  nul := hmount.nul
  resolve := by rw [FileTree.resolve_congr h, hmount.resolve]
  isDir := by rw [h, hmount.isDir]

/-- The entries stay the map, if the entry that is touched does. -/
theorem Good.of_touches {s' : Traced} (h : Good b base s) (htouch : Touches s.tree s'.tree path)
    (hself : ∀ name, base ++ [fileName name] = path → Entry b base s' name)
    (hbeside : ∀ name, base ++ [fileName name] ≠ path → s'.stored name = s.stored name) :
    Good b base s' where
  mounted := h.mounted.congr htouch.isDir
  listed := exists_listdir h.listed htouch.beside
  entry name := by
    by_cases hpath : base ++ [fileName name] = path
    · exact hself name hpath
    · unfold Entry
      rw [hbeside name hpath, htouch.beside _ hpath]
      exact h.entry name

/-- The entry of a name may change with its value. -/
theorem Good.of_entry {s' : Traced} (h : Good b base s)
    (htouch : Touches s.tree s'.tree (base ++ [fileName name])) (hself : Entry b base s' name)
    (hbeside : ∀ other, other ≠ name → s'.stored other = s.stored other) : Good b base s' := by
  refine h.of_touches htouch (fun other heq => ?_) fun other hne => hbeside other ?_
  · obtain ⟨-, hname⟩ := List.append_inj' heq rfl
    obtain rfl := fileName_injective (List.singleton_inj.mp hname)
    exact hself
  · rintro rfl
    exact hne rfl

theorem touches_write (h : Opens b s.tree name path) (encrypted : Bytes) :
    Touches s.tree (s.tree.write path encrypted) path where
  beside p hp := by rw [FileTree.node_write (reachable_of_secretFile h.1) h.2, if_neg hp]
  isDir := FileTree.isDir_write (reachable_of_secretFile h.1) h.2 encrypted

theorem touches_remove {encrypted : Bytes} (h : s.tree.read path = some encrypted) :
    Touches s.tree (s.tree.remove path) path where
  beside p hp := by rw [FileTree.node_remove_file h, if_neg hp]
  isDir := FileTree.isDir_remove h

/-- What is touched inside leaves what is outside. -/
theorem Touches.confined {t t' : Tree} (h : Touches t t' path) (hpath : base <+: path) :
    Confined base t t' := by
  refine fun p hp => h.beside p ?_
  rintro rfl
  exact hp hpath

/-! ## Every kind of call -/

/-- The names listed after a call are those of the map, and nothing outside has changed. -/
def LawAfter (base : List String) (s s' : Traced) : Prop :=
  Lists base s' ∧ Confined base s.tree s'.tree

theorem Good.lawAfter {s' : Traced} (h : Good b base s')
    (hconfined : Confined base s.tree s'.tree) : LawAfter base s s' := ⟨h.lists, hconfined⟩

/-- A name with a slash is no name of an entry. -/
theorem entry_ne_of_slash (hfile : b.secretFile s.tree name = some path) {other : String}
    (hslash : '/' ∈ other.toList) : base ++ [fileName other] ≠ path := by
  obtain ⟨parent, front, rfl, hfront, -⟩ := exists_of_secretFile hfile
  intro heq
  obtain ⟨-, hname⟩ := List.append_inj' heq rfl
  rw [← fileName_injective (List.singleton_inj.mp hname)] at hfront
  exact hfront hslash

/-- A name without a slash that leads anywhere is plain. -/
theorem plain_of_secretFile (hfile : b.secretFile s.tree name = some path)
    (hslash : '/' ∉ name.toList) : Plain name := by
  refine ⟨hslash, fun hnul => ?_⟩
  have hpath : name.toList ++ suffix <:+ b.secretPath name := by
    unfold EncryptedLocalBackend.secretPath PosixPath.join
    split_ifs
    · exact List.suffix_refl _
    · exact List.suffix_append _ _
    · exact (List.suffix_cons _ _).trans (List.suffix_append _ _)
  have hmem := hpath.subset (List.mem_append_left suffix hnul)
  rw [EncryptedLocalBackend.secretFile, if_pos hmem] at hfile
  exact absurd hfile (by simp)

/-- A name without a slash leads to its entry. -/
theorem Good.path_eq (h : Good b base s) (hfile : b.secretFile s.tree name = some path)
    (hslash : '/' ∉ name.toList) : path = base ++ [fileName name] :=
  Option.some.inj
    (hfile.symm.trans (secretFile_of_plain h.mounted (plain_of_secretFile hfile hslash)))

theorem not_plain_of_slash (hslash : '/' ∈ name.toList) : ¬ Plain name := fun h => h.1 hslash

theorem exec_eq (s : Traced) (call : Call ν) :
    (backend b).exec s call =
      ⟨(call.run b s.tree).2, call.record (call.run b s.tree).1 s.stored⟩ := rfl

section Set

variable (nonce : ν) (value : String)

/-- A name that cannot be opened leaves everything. -/
theorem exec_set_of_not_opens (h : ¬ ∃ path, Opens b s.tree name path) :
    (backend b).exec s (.set nonce name value) = s := by
  rw [exec_eq, Call.run, setSecret_of_not_opens h]
  rfl

theorem exec_set_of_opens (h : Opens b s.tree name path) :
    (backend b).exec s (.set nonce name value) =
      ⟨s.tree.write path (b.token nonce value),
        Function.update s.stored name (some value)⟩ := by
  rw [exec_eq, Call.run, setSecret_of_opens h]
  rfl

/-- A plain name that is opened gets its entry. -/
theorem Good.set_plain (h : Good b base s) (hslash : '/' ∉ name.toList)
    (hopens : Opens b s.tree name path) :
    Good b base ((backend b).exec s (.set nonce name value)) := by
  obtain rfl := h.path_eq hopens.1 hslash
  rw [exec_set_of_opens nonce value hopens]
  refine h.of_entry (touches_write hopens _) ?_ fun other hne => Function.update_of_ne hne _ _
  refine Or.inr ⟨value, nonce, plain_of_secretFile hopens.1 hslash, Function.update_self .., ?_⟩
  rw [FileTree.node_write (reachable_of_secretFile hopens.1) hopens.2, if_pos rfl]

theorem good_set (h : Good b base s) (hsafe : Safe b base s (.set nonce name value)) :
    Good b base ((backend b).exec s (.set nonce name value)) := by
  by_cases hopens : ∃ path, Opens b s.tree name path
  · obtain ⟨path, hopens⟩ := hopens
    exact h.set_plain nonce value (hsafe.resolve_right (not_not_intro ⟨path, hopens⟩)) hopens
  · rwa [exec_set_of_not_opens nonce value hopens]

/-- A name with a slash that is opened is not listed. -/
theorem Good.not_lists_set (h : Good b base s) (hslash : '/' ∈ name.toList)
    (hopens : Opens b s.tree name path) :
    ¬ Lists base ((backend b).exec s (.set nonce name value)) := by
  rw [exec_set_of_opens nonce value hopens,
    lists_iff (exists_listdir h.listed (touches_write hopens _).beside)]
  intro hlists
  have hvalue : Function.update s.stored name (some value) name ≠ none := by
    rw [Function.update_self]
    exact Option.some_ne_none value
  have hnode := (hlists name).mpr hvalue
  rw [(touches_write hopens _).beside _ (entry_ne_of_slash hopens.1 hslash), h.node_iff] at hnode
  exact hnode (h.stored_eq_none (not_plain_of_slash hslash))

/-- **A stored secret**: a name with a slash must not be opened. -/
theorem lawAfter_set_iff (h : Good b base s) :
    LawAfter base s ((backend b).exec s (.set nonce name value)) ↔
      Safe b base s (.set nonce name value) := by
  by_cases hopens : ∃ path, Opens b s.tree name path
  · obtain ⟨path, hopens⟩ := hopens
    by_cases hslash : '/' ∈ name.toList
    · have hlists := h.not_lists_set nonce value hslash hopens
      refine iff_of_false (fun hlaw => hlists hlaw.1) fun hsafe => ?_
      exact hsafe.elim (fun hno => hno hslash) fun hno => hno ⟨path, hopens⟩
    · refine iff_of_true ((h.set_plain nonce value hslash hopens).lawAfter ?_) (Or.inl hslash)
      rw [exec_set_of_opens nonce value hopens]
      refine (touches_write hopens _).confined ?_
      rw [h.path_eq hopens.1 hslash]
      exact List.prefix_append _ _
  · rw [exec_set_of_not_opens nonce value hopens]
    exact iff_of_true (h.lawAfter fun _ _ => rfl) (Or.inr hopens)

end Set

section Delete

/-- Where there is no file, nothing is deleted. -/
theorem Good.exec_delete_of_no_file (h : Good b base s)
    (hno : ¬ ∃ path encrypted, b.secretFile s.tree name = some path ∧
      s.tree.read path = some encrypted) : (backend b).exec s (.delete name) = s := by
  have hstored : s.stored name = none := by
    obtain ⟨hstored, -⟩ | ⟨value, nonce, hplain, -, hnode⟩ := h.entry name
    · exact hstored
    · exact absurd ⟨_, _, secretFile_of_plain h.mounted hplain,
        FileTree.read_eq_some_iff.mpr hnode⟩ hno
  have hmap : Function.update s.stored name none = s.stored :=
    Function.update_eq_self_iff.mpr hstored.symm
  have htree : (b.deleteSecret name s.tree).2 = s.tree := by
    unfold EncryptedLocalBackend.deleteSecret
    cases hfile : b.secretFile s.tree name with
    | none => rfl
    | some path =>
        cases hnode : s.tree.node path with
        | none => simp [hnode]
        | some n =>
            cases n with
            | directory => simp [hnode]
            | file encrypted =>
                exact absurd ⟨path, encrypted, hfile, FileTree.read_eq_some_iff.mpr hnode⟩ hno
  rw [exec_eq, Call.run, htree, Call.record, hmap]

theorem exec_delete_of_file {encrypted : Bytes} (hfile : b.secretFile s.tree name = some path)
    (hread : s.tree.read path = some encrypted) :
    (backend b).exec s (.delete name) =
      ⟨s.tree.remove path, Function.update s.stored name none⟩ := by
  rw [exec_eq, Call.run, EncryptedLocalBackend.deleteSecret, hfile]
  dsimp only
  rw [FileTree.read_eq_some_iff.mp hread]
  rfl

variable {encrypted : Bytes}

/-- A plain name loses its entry. -/
theorem Good.delete_plain (h : Good b base s) (hslash : '/' ∉ name.toList)
    (hfile : b.secretFile s.tree name = some path) (hread : s.tree.read path = some encrypted) :
    Good b base ((backend b).exec s (.delete name)) := by
  obtain rfl := h.path_eq hfile hslash
  rw [exec_delete_of_file hfile hread]
  refine h.of_entry (touches_remove hread) ?_ fun other hne => Function.update_of_ne hne _ _
  refine Or.inl ⟨Function.update_self .., ?_⟩
  rw [FileTree.node_remove_file hread, if_pos rfl]

/-- What lies deeper is no entry. -/
theorem Good.delete_deep (h : Good b base s) (hslash : '/' ∈ name.toList)
    (hfile : b.secretFile s.tree name = some path) (hread : s.tree.read path = some encrypted)
    (hdeep : base.length + 1 < path.length) :
    Good b base ((backend b).exec s (.delete name)) := by
  have hmap : Function.update s.stored name none = s.stored :=
    Function.update_eq_self_iff.mpr (h.stored_eq_none (not_plain_of_slash hslash)).symm
  rw [exec_delete_of_file hfile hread, hmap]
  refine h.of_touches (touches_remove hread) (fun other heq => ?_) fun _ _ => rfl
  rw [← heq, List.length_append, List.length_singleton] at hdeep
  exact absurd hdeep (lt_irrefl _)

theorem good_delete (h : Good b base s) (hsafe : Safe b base s (.delete name)) :
    Good b base ((backend b).exec s (.delete name)) := by
  by_cases hthere : ∃ path encrypted, b.secretFile s.tree name = some path ∧
      s.tree.read path = some encrypted
  · obtain ⟨path, encrypted, hfile, hread⟩ := hthere
    by_cases hslash : '/' ∈ name.toList
    · have hdeep := hsafe.resolve_left (not_not_intro hslash) path encrypted hfile hread
      exact h.delete_deep hslash hfile hread hdeep.2
    · exact h.delete_plain hslash hfile hread
  · rwa [h.exec_delete_of_no_file hthere]

/-- An entry that is deleted by a name with a slash is listed no more, and still has its
value. -/
theorem Good.not_lists_delete (h : Good b base s) (hslash : '/' ∈ name.toList)
    (hfile : b.secretFile s.tree name = some path) (hread : s.tree.read path = some encrypted)
    (hbase : base <+: path) (hlength : path.length ≤ base.length + 1) :
    ¬ Lists base ((backend b).exec s (.delete name)) := by
  have hnode := FileTree.read_eq_some_iff.mp hread
  obtain ⟨rest, rfl⟩ := hbase
  obtain ⟨parent, front, hpath, hfront, -⟩ := exists_of_secretFile hfile
  have hrest : rest = [fileName front] := by
    cases rest with
    | nil =>
        rw [List.append_nil, FileTree.isDir_iff.mp h.mounted.isDir] at hnode
        exact absurd hnode (by simp)
    | cons file rest =>
        rw [List.length_append, List.length_cons] at hlength
        obtain rfl : rest = [] := List.length_eq_zero_iff.mp (by omega)
        exact (List.append_inj' hpath rfl).2
  subst hrest
  have hother : front ≠ name := by
    rintro rfl
    exact hfront hslash
  have hvalue : s.stored front ≠ none :=
    (h.node_iff front).mp (by rw [hnode]; exact Option.some_ne_none _)
  rw [exec_delete_of_file hfile hread,
    lists_iff (exists_listdir h.listed (touches_remove hread).beside)]
  intro hlists
  have hgone := (hlists front).mpr (by
    show Function.update s.stored name none front ≠ none
    rwa [Function.update_of_ne hother])
  exact hgone (by rw [FileTree.node_remove_file hread, if_pos rfl])

/-- A file that a name with a slash deletes must lie in a directory below. -/
theorem Good.lawAfter_delete_slash_iff (h : Good b base s) (hslash : '/' ∈ name.toList)
    (hfile : b.secretFile s.tree name = some path) (hread : s.tree.read path = some encrypted) :
    LawAfter base s ((backend b).exec s (.delete name)) ↔
      base <+: path ∧ base.length + 1 < path.length := by
  have hexec := exec_delete_of_file hfile hread
  constructor
  · rintro ⟨hlists, hconfined⟩
    have hbase : base <+: path := by
      by_contra hbeside
      have hnode := hconfined path hbeside
      rw [hexec, FileTree.node_remove_file hread, if_pos rfl,
        FileTree.read_eq_some_iff.mp hread] at hnode
      exact absurd hnode (by simp)
    refine ⟨hbase, ?_⟩
    by_contra hlength
    exact h.not_lists_delete hslash hfile hread hbase (Nat.le_of_not_lt hlength) hlists
  · rintro ⟨hbase, hdeep⟩
    refine (h.delete_deep hslash hfile hread hdeep).lawAfter ?_
    rw [hexec]
    exact (touches_remove hread).confined hbase

/-- **A deleted secret**: a name with a slash must not delete an entry, or anything outside. -/
theorem lawAfter_delete_iff (h : Good b base s) :
    LawAfter base s ((backend b).exec s (.delete name)) ↔ Safe b base s (.delete name) := by
  by_cases hthere : ∃ path encrypted, b.secretFile s.tree name = some path ∧
      s.tree.read path = some encrypted
  · obtain ⟨path, encrypted, hfile, hread⟩ := hthere
    by_cases hslash : '/' ∈ name.toList
    · rw [h.lawAfter_delete_slash_iff hslash hfile hread]
      constructor
      · intro hdeep
        refine Or.inr fun path' encrypted' hfile' _ => ?_
        obtain rfl := Option.some.inj (hfile.symm.trans hfile')
        exact hdeep
      · exact fun hsafe => hsafe.resolve_left (not_not_intro hslash) path encrypted hfile hread
    · refine iff_of_true ((h.delete_plain hslash hfile hread).lawAfter ?_) (Or.inl hslash)
      rw [exec_delete_of_file hfile hread]
      refine (touches_remove hread).confined ?_
      rw [h.path_eq hfile hslash]
      exact List.prefix_append _ _
  · rw [h.exec_delete_of_no_file hthere]
    refine iff_of_true (h.lawAfter fun _ _ => rfl) (Or.inr fun path encrypted hfile hread => ?_)
    exact absurd ⟨path, encrypted, hfile, hread⟩ hthere

end Delete

/-- **A secret that is read**: a name with a slash must not find one. -/
theorem answers_iff (hc : b.cipher.Inverse) (h : Good b base s) :
    b.getSecret s.tree name = s.stored name ↔ Safe b base s (.get name) := by
  by_cases hplain : Plain name
  · exact iff_of_true (h.getSecret_eq hc hplain) (Or.inl hplain.1)
  · rw [h.stored_eq_none hplain, Option.eq_none_iff_forall_ne_some]
    constructor
    · intro hnone
      refine Or.inr fun path encrypted hfile hread => ?_
      refine Option.eq_none_iff_forall_ne_some.mpr fun value hvalue => ?_
      exact hnone value (getSecret_eq_some_iff.mpr ⟨path, encrypted, hfile, hread, hvalue⟩)
    · intro hsafe value hvalue
      obtain ⟨path, encrypted, hfile, hread, hdecode⟩ := getSecret_eq_some_iff.mp hvalue
      obtain hslash | hnone := hsafe
      · exact hplain (plain_of_secretFile hfile hslash)
      · rw [hnone path encrypted hfile hread] at hdecode
        exact absurd hdecode (by simp)

/-! ## Whole runs -/

/-- Only `get_secret` answers from the map. -/
theorem law_iff_lawAfter {call : Call ν} (hcall : ∀ name, call ≠ .get name) :
    Law b base s call ↔ LawAfter base s ((backend b).exec s call) :=
  ⟨fun h => ⟨h.lists, h.confined⟩,
    fun h => ⟨fun name heq => absurd heq (hcall name), h.1, h.2⟩⟩

/-- **A call is lawful exactly when it is safe.**  By cases on the call. -/
theorem law_iff (hc : b.cipher.Inverse) (h : Good b base s) (call : Call ν) :
    Law b base s call ↔ Safe b base s call := by
  cases call with
  | set nonce name value => rw [law_iff_lawAfter (by simp), lawAfter_set_iff nonce value h]
  | rotate nonce name value =>
      rw [law_iff_lawAfter (by simp)]
      exact lawAfter_set_iff nonce value h
  | delete name => rw [law_iff_lawAfter (by simp), lawAfter_delete_iff h]
  | get name =>
      rw [← answers_iff hc h]
      constructor
      · exact fun hlaw => hlaw.answers name rfl
      · intro hanswers
        refine ⟨fun name' heq => ?_, h.lists, fun _ _ => rfl⟩
        obtain rfl := Call.get.inj heq
        exact hanswers

/-- **A safe call keeps the files the map.**  By cases on the call. -/
theorem good_step (h : Good b base s) (call : Call ν) (hsafe : Safe b base s call) :
    Good b base ((backend b).exec s call) := by
  cases call with
  | set nonce name value => exact good_set nonce value h hsafe
  | rotate nonce name value => exact good_set nonce value h hsafe
  | delete name => exact good_delete h hsafe
  | get name => exact h

/-- **When the backend is a map over names**: when the storage directory begins without secrets,
and every call is safe. -/
theorem lawful_iff (b : EncryptedLocalBackend ν) (hc : b.cipher.Inverse) (base : List String)
    (t : Tree) (hmount : Mounted b t base) (hlist : ∃ filenames, Listdir t base filenames)
    (calls : List (Call ν)) :
    Lawful b base t calls ↔
      Fresh base t ∧ (backend b).Along (Safe b base) (start t) calls := by
  rw [Lawful, lists_start_iff hlist]
  refine and_congr_right fun hfresh => ?_
  exact System.along_iff (I := Good b base) (fun s call h => law_iff hc h call)
    (fun s call h hsafe => good_step h call hsafe) (good_start hmount hlist hfresh) calls

/-! ### One secret -/

theorem listdir_store : Listdir store ["store"] [] where
  nodup := List.nodup_nil
  mem_iff _ := iff_of_false List.not_mem_nil (not_ne_iff.mpr rfl)

/-- One secret, without a slash in its name. -/
theorem lawful_db : Lawful storage ["store"] store
    [.set () "db" "old", .get "db", .rotate () "db" "new", .delete "db", .get "db"] := by
  refine (lawful_iff storage marking_authenticated.inverse ["store"] store mounted_store
    ⟨[], listdir_store⟩ _).mpr ⟨fun _ => rfl, ?_⟩
  have hslash : '/' ∉ "db".toList := by decide
  exact ⟨Or.inl hslash, Or.inl hslash, Or.inl hslash, Or.inl hslash, Or.inl hslash, trivial⟩

/-- A name that leads out of the storage directory is stored there. -/
theorem name_escapes : ¬ ∀ (b : EncryptedLocalBackend Unit), b.cipher.Inverse →
    ∀ (base : List String) (t : Tree), Mounted b t base →
      (∃ filenames, Listdir t base filenames) → Fresh base t →
        ∀ calls, Lawful b base t calls := by
  intro h
  obtain ⟨-, hlaw, -⟩ := h storage marking_authenticated.inverse ["store"] store mounted_store
    ⟨[], listdir_store⟩ (fun _ => rfl) [.set () "../db" "pw"]
  have hopens : Opens storage store "../db" ["db.enc"] := ⟨by decide, by decide⟩
  have hnode := hlaw.confined ["db.enc"] (by decide)
  rw [exec_set_of_opens () "pw" hopens] at hnode
  exact absurd hnode (by decide)

end Secrets
end Ucser
