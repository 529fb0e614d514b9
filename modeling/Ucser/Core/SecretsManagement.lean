import Ucser.Lib.FileTree
import Ucser.Lib.Text

/-!
# Secrets in files: `core/secrets_management.py`

`EncryptedLocalBackend` keeps each secret in a file of its own, under the name of the secret
with `.enc` behind it, joined to the storage directory.

* `Cipher`, `Cipher.Authenticated` — Fernet, and what is known of it.
* `EncryptedLocalBackend` and its methods; `Fault` — what can fail while a secret is stored.
* `secretFile_of_plain`, `exists_of_secretFile` — where a name leads: without a slash, to an
  entry of the storage directory.
* `setSecret_of_opens`, `getSecret_eq_some_iff` — what is stored and what is read.
* `keepsOld_iff` — **when a failed call keeps the old secret**: when it fails before the file is
  opened, or leaves in the file what was there.
-/

namespace Ucser
namespace Secrets

/-- What a file holds. -/
abbrev Bytes := List UInt8

/-- The file system. -/
abbrev Tree := FileTree String Bytes

variable {ν : Type}

/-! ## The backend -/

/-- `Fernet` with a key.  A token depends on the time and on random bytes, too: its nonce. -/
structure Cipher (ν : Type) where
  encrypt : ν → Bytes → Bytes
  decrypt : Bytes → Option Bytes

/-- What has been encrypted can be decrypted. -/
def Cipher.Inverse (cipher : Cipher ν) : Prop :=
  ∀ nonce data, cipher.decrypt (cipher.encrypt nonce data) = some data

/-- What has been encrypted can be decrypted, and a part of a token is no token. -/
structure Cipher.Authenticated (cipher : Cipher ν) : Prop where
  inverse : cipher.Inverse
  part : ∀ nonce data n, n < (cipher.encrypt nonce data).length →
    cipher.decrypt ((cipher.encrypt nonce data).take n) = none

/-- `EncryptedLocalBackend`, with the working directory of its process. -/
structure EncryptedLocalBackend (ν : Type) where
  storageDir : String
  cipher : Cipher ν
  cwd : List String := []

/-- What is behind the name of a secret. -/
def suffix : List Char := ['.', 'e', 'n', 'c']

namespace EncryptedLocalBackend

/-- `os.path.join(self.storage_dir, f"{name}.enc")`. -/
def secretPath (b : EncryptedLocalBackend ν) (name : String) : List Char :=
  PosixPath.join b.storageDir.toList (name.toList ++ suffix)

/-- Where the path leads; the system takes no path with a NUL in it. -/
def secretFile (b : EncryptedLocalBackend ν) (t : Tree) (name : String) : Option (List String) :=
  if '\x00' ∈ b.secretPath name then none else t.resolve b.cwd (b.secretPath name)

/-- `self.cipher.decrypt(encrypted).decode()`, if neither raises. -/
def decode (b : EncryptedLocalBackend ν) (encrypted : Bytes) : Option String :=
  (b.cipher.decrypt encrypted).bind Text.utf8Decode

/-- `get_secret`. -/
def getSecret (b : EncryptedLocalBackend ν) (t : Tree) (name : String) : Option String :=
  match b.secretFile t name with
  | none => none
  | some path =>
      match t.node path with
      | none => none
      | some .directory => none
      | some (.file encrypted) => b.decode encrypted

/-- `self.cipher.encrypt(value.encode())`. -/
def token (b : EncryptedLocalBackend ν) (nonce : ν) (value : String) : Bytes :=
  b.cipher.encrypt nonce (Text.utf8 value)

end EncryptedLocalBackend

/-- What can fail while a secret is stored. -/
inductive Fault where
  | encryption
  | opening
  /-- Writing stops when so many bytes are in the file. -/
  | writing (length : Nat)
  | chmod
  deriving DecidableEq

namespace EncryptedLocalBackend

/-- `set_secret`: opening the file empties it. -/
def setSecret (b : EncryptedLocalBackend ν) (nonce : ν) (fault : Option Fault)
    (name value : String) (t : Tree) : Bool × Tree :=
  if fault = some .encryption then (false, t)
  else
    match b.secretFile t name with
    | none => (false, t)
    | some path =>
        if t.isDir path ∨ fault = some .opening then (false, t)
        else
          match fault with
          | some (.writing length) => (false, t.write path ((b.token nonce value).take length))
          | some .chmod => (false, t.write path (b.token nonce value))
          | _ => (true, t.write path (b.token nonce value))

/-- `rotate_secret`. -/
def rotateSecret (b : EncryptedLocalBackend ν) (nonce : ν) (fault : Option Fault)
    (name newValue : String) (t : Tree) : Bool × Tree :=
  b.setSecret nonce fault name newValue t

/-- `delete_secret`. -/
def deleteSecret (b : EncryptedLocalBackend ν) (name : String) (t : Tree) : Bool × Tree :=
  match b.secretFile t name with
  | none => (true, t)
  | some path =>
      match t.node path with
      | none => (true, t)
      | some .directory => (false, t)
      | some (.file _) => (true, t.remove path)

/-- `list_secrets`, of what `os.listdir` returns. -/
def listSecrets (filenames : List String) : List String :=
  (filenames.filter fun filename => suffix <:+ filename.toList).map fun filename =>
    String.ofList (filename.toList.take (filename.toList.length - 4))

end EncryptedLocalBackend

/-! ## Where a name leads -/

/-- The file of a secret, as an entry of a directory. -/
def fileName (name : String) : String := String.ofList (name.toList ++ suffix)

theorem fileName_injective : Function.Injective fileName := by
  intro m n h
  have hlist := String.ofList_injective h
  exact String.toList_inj.mp (List.append_cancel_right hlist)

/-- A text joined to a directory may be lengthened, if it does not become absolute. -/
theorem join_append (dir text : List Char) {ending : List Char} (h : ending.head? ≠ some '/') :
    PosixPath.join dir (text ++ ending) = PosixPath.join dir text ++ ending := by
  have hhead : (text ++ ending).head? = some '/' ↔ text.head? = some '/' := by
    cases text with
    | nil => exact iff_of_false h (by simp)
    | cons c text => rfl
  unfold PosixPath.join
  simp only [hhead]
  split_ifs <;> simp

/-- The storage directory is there. -/
structure Mounted (b : EncryptedLocalBackend ν) (t : Tree) (base : List String) : Prop where
  nul : '\x00' ∉ b.storageDir.toList
  resolve : t.resolve b.cwd b.storageDir.toList = some base
  isDir : t.isDir base = true

variable {b : EncryptedLocalBackend ν} {t : Tree} {base path : List String} {name : String}

/-- A name is plain if it has no slash and no NUL in it. -/
def Plain (name : String) : Prop := '/' ∉ name.toList ∧ '\x00' ∉ name.toList

/-- **A plain name leads to an entry of the storage directory.** -/
theorem secretFile_of_plain (hmount : Mounted b t base) (h : Plain name) :
    b.secretFile t name = some (base ++ [fileName name]) := by
  have hslash : '/' ∉ name.toList ++ suffix := fun hmem =>
    (List.mem_append.mp hmem).elim h.1 (by decide)
  have hnul : '\x00' ∉ b.secretPath name := by
    have hending : '\x00' ∉ name.toList ++ suffix := fun hmem =>
      (List.mem_append.mp hmem).elim h.2 (by decide)
    unfold EncryptedLocalBackend.secretPath PosixPath.join
    split_ifs
    · exact hending
    · exact fun hmem => (List.mem_append.mp hmem).elim hmount.nul hending
    · intro hmem
      rcases List.mem_append.mp hmem with hmem | hmem
      · exact hmount.nul hmem
      · exact (List.mem_cons.mp hmem).elim (by decide) hending
  have hlength : 2 < (name.toList ++ suffix).length := by
    rw [List.length_append]
    exact lt_of_lt_of_le (by decide : 2 < suffix.length) (Nat.le_add_left _ _)
  rw [EncryptedLocalBackend.secretFile, if_neg hnul]
  exact FileTree.resolve_join hmount.resolve hmount.isDir hslash hlength

/-- **Every name leads to an entry of some directory**, whose name ends in `.enc`. -/
theorem exists_of_secretFile (h : b.secretFile t name = some path) :
    ∃ parent front, path = parent ++ [fileName front] ∧ '/' ∉ front.toList ∧
      t.isDir parent = true := by
  rw [EncryptedLocalBackend.secretFile, EncryptedLocalBackend.secretPath] at h
  split_ifs at h
  rw [join_append _ _ (by decide)] at h
  obtain ⟨parent, front, hpath, hfront, hparent⟩ :=
    FileTree.resolve_append (by decide) (by decide) h
  refine ⟨parent, String.ofList front, ?_, by rwa [String.toList_ofList], hparent⟩
  rw [hpath, fileName, String.toList_ofList]

theorem reachable_of_secretFile (h : b.secretFile t name = some path) : t.Reachable path := by
  obtain ⟨parent, front, rfl, -, hparent⟩ := exists_of_secretFile h
  rw [FileTree.Reachable, List.dropLast_concat]
  exact Or.inr hparent

/-- Where names lead depends on the directories only. -/
theorem secretFile_congr {t' : Tree} (h : ∀ path, t.isDir path = t'.isDir path)
    (b : EncryptedLocalBackend ν) (name : String) : b.secretFile t name = b.secretFile t' name := by
  rw [EncryptedLocalBackend.secretFile, EncryptedLocalBackend.secretFile,
    FileTree.resolve_congr h]

/-! ## What is stored and what is read -/

/-- The file of a name can be opened for writing: it leads somewhere, and not to a directory. -/
def Opens (b : EncryptedLocalBackend ν) (t : Tree) (name : String) (path : List String) : Prop :=
  b.secretFile t name = some path ∧ t.isDir path = false

/-- A file is read if it holds a token, and one of a text. -/
theorem getSecret_eq_some_iff {value : String} :
    b.getSecret t name = some value ↔ ∃ path encrypted, b.secretFile t name = some path ∧
      t.read path = some encrypted ∧ b.decode encrypted = some value := by
  unfold EncryptedLocalBackend.getSecret FileTree.read
  cases b.secretFile t name with
  | none => simp
  | some path =>
      cases hnode : t.node path with
      | none => simp [hnode]
      | some n =>
          cases n with
          | directory => simp [hnode, Node.content?]
          | file encrypted => simp [hnode, Node.content?]

/-- What a name that has been opened reads. -/
theorem getSecret_write (h : Opens b t name path) (encrypted : Bytes) :
    b.getSecret (t.write path encrypted) name = b.decode encrypted := by
  obtain ⟨hfile, hdir⟩ := h
  have hreach := reachable_of_secretFile hfile
  have hfile' : b.secretFile (t.write path encrypted) name = some path := by
    rwa [secretFile_congr (FileTree.isDir_write hreach hdir encrypted)]
  rw [EncryptedLocalBackend.getSecret, hfile']
  dsimp only
  rw [FileTree.node_write hreach hdir, if_pos rfl]

/-- What has been stored is read. -/
theorem decode_token (hc : b.cipher.Inverse) (nonce : ν) (value : String) :
    b.decode (b.token nonce value) = some value := by
  rw [EncryptedLocalBackend.decode, EncryptedLocalBackend.token, hc, Option.bind_some,
    Text.utf8Decode_utf8]

/-- A name that cannot be opened stores nothing. -/
theorem setSecret_of_not_opens (h : ¬ ∃ path, Opens b t name path) (nonce : ν)
    (fault : Option Fault) (value : String) :
    b.setSecret nonce fault name value t = (false, t) := by
  unfold EncryptedLocalBackend.setSecret
  by_cases hfault : fault = some .encryption
  · rw [if_pos hfault]
  · rw [if_neg hfault]
    cases hfile : b.secretFile t name with
    | none => rfl
    | some path =>
        have hdir : t.isDir path = true := by
          by_contra hnot
          exact h ⟨path, hfile, Bool.not_eq_true _ ▸ hnot⟩
        exact if_pos (Or.inl hdir)

/-- A name that can be opened stores the value, if nothing else fails. -/
theorem setSecret_of_opens (h : Opens b t name path) (nonce : ν) (value : String) :
    b.setSecret nonce none name value t = (true, t.write path (b.token nonce value)) := by
  unfold EncryptedLocalBackend.setSecret
  rw [if_neg (by simp), h.1]
  dsimp only
  rw [if_neg (by simp [h.2])]

/-! ## A call that fails -/

/-- A call that returns `False` leaves what a name reads. -/
def KeepsOld (b : EncryptedLocalBackend ν) (name : String) (t : Tree) (result : Bool × Tree) :
    Prop :=
  result.1 = false → b.getSecret result.2 name = b.getSecret t name

/-- Nothing is lost by a fault: it comes before the file is opened, or the file reads as it did
before, where a part of the token reads as nothing. -/
def Harmless (fault : Option Fault) (token : Bytes) (before : Option String) (value : String) :
    Prop :=
  match fault with
  | none | some .encryption | some .opening => True
  | some (.writing length) =>
      if length < token.length then before = none else before = some value
  | some .chmod => before = some value

/-- To write a part of the token is harmless where nothing has been read. -/
theorem harmless_of_lt {length : Nat} {token : Bytes} (h : length < token.length)
    (before : Option String) (value : String) :
    Harmless (some (.writing length)) token before value ↔ before = none := by
  rw [Harmless, if_pos h]

/-- What is left in the file, if it has been opened and something fails. -/
theorem keepsOld_write (h : Opens b t name path) (encrypted : Bytes) :
    KeepsOld b name t (false, t.write path encrypted) ↔
      b.getSecret t name = b.decode encrypted := by
  rw [KeepsOld, getSecret_write h]
  exact ⟨fun hkept => (hkept rfl).symm, fun heq _ => heq.symm⟩

/-- A part of a token reads as nothing, the whole one as the value. -/
theorem decode_take_token (hc : b.cipher.Authenticated) (nonce : ν) (value : String)
    (length : Nat) :
    b.decode ((b.token nonce value).take length) =
      if length < (b.token nonce value).length then none else some value := by
  by_cases hshort : length < (b.token nonce value).length
  · rw [if_pos hshort, EncryptedLocalBackend.decode, EncryptedLocalBackend.token,
      hc.part nonce _ length hshort, Option.bind_none]
  · rw [if_neg hshort, List.take_of_length_le (Nat.le_of_not_lt hshort),
      decode_token hc.inverse]

/-- With the file opened, it depends on the fault.  By cases on it. -/
theorem keepsOld_setSecret_iff (hc : b.cipher.Authenticated) (h : Opens b t name path)
    (nonce : ν) (fault : Option Fault) (value : String) :
    KeepsOld b name t (b.setSecret nonce fault name value t) ↔
      Harmless fault (b.token nonce value) (b.getSecret t name) value := by
  cases fault with
  | none =>
      rw [setSecret_of_opens h]
      exact iff_of_true (fun hfalse => absurd hfalse (by simp)) trivial
  | some fault =>
      have hopened : b.setSecret nonce (some fault) name value t =
          match fault with
          | .encryption | .opening => (false, t)
          | .writing length => (false, t.write path ((b.token nonce value).take length))
          | .chmod => (false, t.write path (b.token nonce value)) := by
        unfold EncryptedLocalBackend.setSecret
        rw [h.1]
        cases fault <;> simp [h.2]
      rw [hopened]
      cases fault with
      | encryption => exact iff_of_true (fun _ => rfl) trivial
      | opening => exact iff_of_true (fun _ => rfl) trivial
      | writing length =>
          dsimp only [Harmless]
          rw [keepsOld_write h, decode_take_token hc]
          split_ifs
          · exact Iff.rfl
          · exact Iff.rfl
      | chmod =>
          dsimp only [Harmless]
          rw [keepsOld_write h, decode_token hc.inverse]

/-- **When a failed call keeps the old secret**: when the file is not opened, or the fault is
harmless. -/
theorem keepsOld_iff (b : EncryptedLocalBackend ν) (hc : b.cipher.Authenticated) (nonce : ν)
    (fault : Option Fault) (name value : String) (t : Tree) :
    let condition := (¬ ∃ path, Opens b t name path) ∨
      Harmless fault (b.token nonce value) (b.getSecret t name) value
    (KeepsOld b name t (b.setSecret nonce fault name value t) ↔ condition) ∧
      (KeepsOld b name t (b.rotateSecret nonce fault name value t) ↔ condition) := by
  have hset : KeepsOld b name t (b.setSecret nonce fault name value t) ↔
      (¬ ∃ path, Opens b t name path) ∨
        Harmless fault (b.token nonce value) (b.getSecret t name) value := by
    by_cases hopens : ∃ path, Opens b t name path
    · obtain ⟨path, h⟩ := hopens
      rw [keepsOld_setSecret_iff hc h, or_iff_right (not_not_intro ⟨path, h⟩)]
    · rw [setSecret_of_not_opens hopens]
      exact iff_of_true (fun _ => rfl) (Or.inl hopens)
  exact ⟨hset, hset⟩

/-! ### One secret -/

/-- A cipher that marks every byte and the end. -/
def marking : Cipher Unit where
  encrypt _ data := data.flatMap (fun byte => [1, byte]) ++ [0]
  decrypt := unmark
where
  unmark : Bytes → Option Bytes
    | [0] => some []
    | 1 :: byte :: rest => (unmark rest).map (byte :: ·)
    | _ => none

theorem marking_authenticated : marking.Authenticated where
  inverse _ data := by
    induction data with
    | nil => rfl
    | cons byte data ih => exact congrArg (Option.map (byte :: ·)) ih
  part _ data n h := by
    induction data generalizing n with
    | nil =>
        obtain rfl : n = 0 := Nat.lt_one_iff.mp h
        rfl
    | cons byte data ih =>
        match n, h with
        | 0, _ => rfl
        | 1, _ => rfl
        | n + 2, h =>
            have hrest := ih n (by simpa [marking] using h)
            exact congrArg (Option.map (byte :: ·)) hrest

/-- The backend in `/store`. -/
def storage : EncryptedLocalBackend Unit := { storageDir := "/store", cipher := marking }

/-- A storage directory with nothing in it. -/
def store : Tree := (FileTree.leaf .directory).put ["store"] (FileTree.leaf .directory)

theorem mounted_store : Mounted storage store ["store"] where
  nul := by decide
  resolve := by decide
  isDir := by decide

/-- A name of letters. -/
theorem plain_db : Plain "db" := by
  unfold Plain
  decide

/-- A new secret that is not written to its end is no more there than before. -/
theorem keepsOld_new : KeepsOld storage "db" store
    (storage.setSecret () (some (.writing 2)) "db" "pw" store) := by
  refine (keepsOld_iff storage marking_authenticated () (some (.writing 2)) "db" "pw"
    store).1.mpr (Or.inr ?_)
  have hnone : storage.getSecret store "db" = none := by
    rw [EncryptedLocalBackend.getSecret, secretFile_of_plain mounted_store plain_db]
    rfl
  have hpart : 2 < (storage.token () "pw").length := by decide
  exact (harmless_of_lt hpart _ _).mpr hnone

/-- An old one that cannot be written is lost. -/
theorem old_lost : ¬ ∀ (b : EncryptedLocalBackend Unit), b.cipher.Authenticated →
    ∀ (nonce : Unit) (fault : Option Fault) (name value : String) (t : Tree),
      KeepsOld b name t (b.setSecret nonce fault name value t) := by
  intro h
  have hopens : Opens storage store "db" (["store"] ++ [fileName "db"]) :=
    ⟨secretFile_of_plain mounted_store plain_db, rfl⟩
  let full : Tree := store.write (["store"] ++ [fileName "db"]) (storage.token () "old")
  have hopens' : Opens storage full "db" (["store"] ++ [fileName "db"]) := by
    have hdir := FileTree.isDir_write (reachable_of_secretFile hopens.1) hopens.2
      (storage.token () "old")
    exact ⟨(secretFile_congr hdir storage "db").trans hopens.1, (hdir _).trans hopens.2⟩
  have hkept := h storage marking_authenticated () (some (.writing 0)) "db" "new" full
  rw [keepsOld_setSecret_iff marking_authenticated hopens',
    getSecret_write hopens, decode_token marking_authenticated.inverse] at hkept
  have hpart : 0 < (storage.token () "new").length := by decide
  exact absurd ((harmless_of_lt hpart _ _).mp hkept) (by simp)

end Secrets
end Ucser
