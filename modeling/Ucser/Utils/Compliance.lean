import Ucser.Core.Rejection
import Ucser.Core.Scheduler

/-!
# The compliance verifier: `utils/compliance.py`

The signer signs the canonical hash of a record, and `UCER.verify_integrity` checks a signature
of that hash.  `ComplianceEngine.verify_ucer_integrity` checks a signature of the document
itself, with blanks behind the separators, and hands on a missing signature as it is.

* `finalPayload`, `verifyUcerIntegrity` — the compliance verifier.
* `Crypto.Definite` — what is assumed of the primitives.
* `VerifiersAgree`, `verifiersAgree_iff` — **when the two verifiers return the same boolean**:
  when the key loads, there is a signature, it is base64, and both reject it.
-/

namespace Ucser

namespace ComplianceEngine

variable (crypto : Crypto) (publicKey : String)

/-- `json.dumps(ucer.model_dump_canonical(), sort_keys=True)`. -/
def finalPayload (ucer : UCER) : String :=
  Json.dumpsPlain (Json.sortKeys (.obj ucer.modelDumpCanonical))

/-- `ComplianceEngine.verify_ucer_integrity`.  Once the key is loaded, `b64decode(None)` is a
`TypeError`. -/
def verifyUcerIntegrity (ucer : UCER) : Except PyError Bool :=
  match ucer.controlSignature with
  | none =>
      match crypto.loadPemPublicKey publicKey with
      | some message => .error (.valueError message)
      | none => .error (.exception
          "argument should be a bytes-like object or ASCII string, not 'NoneType'")
  | some signature => verifySignature crypto publicKey (finalPayload ucer) signature

/-- Both verifiers return, and return the same. -/
def VerifiersAgree (ucer : UCER) : Prop :=
  ∃ verdict, verifyUcerIntegrity crypto publicKey ucer = .ok verdict ∧
    ucer.verifyIntegrity crypto publicKey = .ok verdict

end ComplianceEngine

/-! ## What is assumed of the primitives -/

/-- The digits of a hexadecimal digest. -/
def isHexDigit (c : Char) : Bool := "0123456789abcdef".toList.contains c

/-- A digest is written in hexadecimal digits, and a signature is one of at most one text. -/
structure Crypto.Definite (crypto : Crypto) (publicKey : String) : Prop where
  hexdigest : ∀ data, ∀ c ∈ (crypto.sha256 data).toList, isHexDigit c = true
  unique : ∀ payload payload' signature, crypto.pssVerify publicKey payload signature = true →
    crypto.pssVerify publicKey payload' signature = true → payload = payload'

namespace ComplianceEngine

variable {crypto : Crypto} {publicKey : String} {ucer : UCER}

/-- The compliance verifier returns exactly for a key that loads and a signature in base64. -/
theorem verifyUcerIntegrity_eq_ok_iff {verdict : Bool} :
    verifyUcerIntegrity crypto publicKey ucer = .ok verdict ↔
      crypto.loadPemPublicKey publicKey = none ∧
        ∃ signature bytes, ucer.controlSignature = some signature ∧
          Text.b64decode signature.toList = .ok bytes ∧
          crypto.pssVerify publicKey (Text.utf8 (finalPayload ucer)) bytes = verdict := by
  unfold verifyUcerIntegrity
  cases ucer.controlSignature with
  | none => cases crypto.loadPemPublicKey publicKey <;> simp
  | some signature =>
      constructor
      · intro h
        obtain ⟨hload, bytes, hdecode, hverdict⟩ := verifySignature_eq_ok h
        exact ⟨hload, signature, bytes, rfl, hdecode, hverdict⟩
      · rintro ⟨hload, _, bytes, hsignature, hdecode, rfl⟩
        obtain rfl := Option.some.inj hsignature
        exact verifySignature_of_b64decode hload _ hdecode

/-- A document starts with a brace. -/
theorem brace_mem_finalPayload (ucer : UCER) : '{' ∈ (finalPayload ucer).toList := by
  rw [finalPayload, Json.dumpsPlain, String.toList_ofList]
  obtain ⟨kvs, hkvs⟩ : ∃ kvs, Json.sortKeys (.obj ucer.modelDumpCanonical) = .obj kvs := ⟨_, rfl⟩
  rw [hkvs]
  cases kvs <;> exact List.mem_cons_self

/-- No digest is a document. -/
theorem hash_ne_finalPayload (h : crypto.Definite publicKey) (ucer : UCER) :
    ucer.getCanonicalHash crypto ≠ finalPayload ucer := by
  intro heq
  have hbrace := brace_mem_finalPayload ucer
  rw [← heq] at hbrace
  exact absurd (h.hexdigest _ _ hbrace) (by decide)

/-- The signature bytes are a good signature of the hash, and the hash stands. -/
def VerifiesHash (crypto : Crypto) (publicKey : String) (ucer : UCER) (bytes : List UInt8) :
    Prop :=
  ucer.HashStands crypto ∧
    crypto.pssVerify publicKey (Text.utf8 (ucer.getCanonicalHash crypto)) bytes = true

/-- What `verify_integrity` says of a record whose signature is base64. -/
theorem verifyIntegrity_of_b64decode (hload : crypto.loadPemPublicKey publicKey = none)
    {signature : String} {bytes : List UInt8} (hsignature : ucer.controlSignature = some signature)
    (hdecode : Text.b64decode signature.toList = .ok bytes) :
    ucer.verifyIntegrity crypto publicKey = .ok true ∧
        (signature ≠ "" ∧ VerifiesHash crypto publicKey ucer bytes) ∨
      ucer.verifyIntegrity crypto publicKey = .ok false ∧
        (signature ≠ "" → ¬ VerifiesHash crypto publicKey ucer bytes) := by
  by_cases hstands : ucer.HashStands crypto
  · by_cases hempty : signature = ""
    · right
      refine ⟨?_, fun hne => absurd hempty hne⟩
      rw [UCER.verifyIntegrity, hsignature, hstands.2]
      exact if_pos (Or.inl hempty)
    · rw [UCER.verifyIntegrity_of_stands hstands hsignature hempty,
        verifySignature_of_b64decode hload _ hdecode]
      cases hverdict : crypto.pssVerify publicKey
          (Text.utf8 (ucer.getCanonicalHash crypto)) bytes with
      | true => exact Or.inl ⟨rfl, hempty, hstands, hverdict⟩
      | false =>
          refine Or.inr ⟨rfl, fun _ hverifies => ?_⟩
          exact absurd (hverdict.symm.trans hverifies.2) (by simp)
  · exact Or.inr ⟨UCER.verifyIntegrity_of_not_stands hstands,
      fun _ hverifies => hstands hverifies.1⟩

/-- **No record passes both verifiers**: no signature is one of the hash and one of the
document. -/
theorem not_both_verify (h : crypto.Definite publicKey)
    (hcompliance : verifyUcerIntegrity crypto publicKey ucer = .ok true) :
    ucer.verifyIntegrity crypto publicKey ≠ .ok true := by
  intro hintegrity
  obtain ⟨hload, signature, bytes, hsignature, hdecode, hdocument⟩ :=
    verifyUcerIntegrity_eq_ok_iff.mp hcompliance
  obtain ⟨_, _, _, hhash⟩ | ⟨hfalse, _⟩ := verifyIntegrity_of_b64decode hload hsignature hdecode
  · have hsame := Text.utf8_injective (h.unique _ _ _ hhash hdocument)
    exact hash_ne_finalPayload h ucer hsame
  · rw [hintegrity] at hfalse
    exact absurd hfalse (by simp)

/-- **When the verifiers agree**: exactly when the key loads and the record carries a signature
in base64 that is neither one of its document nor, if it is not the empty text, one of its
hash. -/
theorem verifiersAgree_iff (h : crypto.Definite publicKey) (ucer : UCER) :
    VerifiersAgree crypto publicKey ucer ↔
      crypto.loadPemPublicKey publicKey = none ∧
        ∃ signature bytes, ucer.controlSignature = some signature ∧
          Text.b64decode signature.toList = .ok bytes ∧
          crypto.pssVerify publicKey (Text.utf8 (finalPayload ucer)) bytes = false ∧
          (signature ≠ "" → ¬ VerifiesHash crypto publicKey ucer bytes) := by
  constructor
  · rintro ⟨verdict, hcompliance, hintegrity⟩
    obtain ⟨hload, signature, bytes, hsignature, hdecode, hdocument⟩ :=
      verifyUcerIntegrity_eq_ok_iff.mp hcompliance
    refine ⟨hload, signature, bytes, hsignature, hdecode, ?_⟩
    obtain ⟨htrue, _⟩ | ⟨hfalse, hnot⟩ := verifyIntegrity_of_b64decode hload hsignature hdecode
    · obtain rfl := Except.ok.inj (htrue.symm.trans hintegrity)
      exact absurd htrue (not_both_verify h hcompliance)
    · obtain rfl := Except.ok.inj (hfalse.symm.trans hintegrity)
      exact ⟨hdocument, hnot⟩
  · rintro ⟨hload, signature, bytes, hsignature, hdecode, hdocument, hhash⟩
    refine ⟨false, ?_, ?_⟩
    · exact verifyUcerIntegrity_eq_ok_iff.mpr
        ⟨hload, signature, bytes, hsignature, hdecode, hdocument⟩
    · obtain ⟨_, hne, hverifies⟩ | ⟨hfalse, _⟩ :=
        verifyIntegrity_of_b64decode hload hsignature hdecode
      · exact absurd hverifies (hhash hne)
      · exact hfalse

end ComplianceEngine

/-! ## Two records -/

/-- The two digits of a byte. -/
def byteHex (b : UInt8) : List Char :=
  [Json.hexDigit (b.toNat / 16), Json.hexDigit (b.toNat % 16)]

/-- Primitives that spell the data out in hexadecimal digits, behind a zero. -/
def Crypto.spelled : Crypto where
  sha256 data := String.ofList ('0' :: data.flatMap byteHex)
  pssSign _ payload := 0 :: payload
  pssVerify _ payload signature := signature == 0 :: payload

theorem byteHex_inj {a b : UInt8} (h : byteHex a = byteHex b) : a = b := by
  obtain ⟨hhigh, hrest⟩ := List.cons.inj h
  have hlow := (List.cons.inj hrest).1
  have ha := a.toNat_lt
  have hb := b.toNat_lt
  have hhigh' := congrArg Json.hexVal hhigh
  have hlow' := congrArg Json.hexVal hlow
  rw [Json.hexVal_hexDigit _ (by omega), Json.hexVal_hexDigit _ (by omega)] at hhigh' hlow'
  exact UInt8.toNat_inj.mp (by omega)

theorem flatMap_byteHex_inj {data data' : List UInt8}
    (h : data.flatMap byteHex = data'.flatMap byteHex) : data = data' := by
  induction data generalizing data' with
  | nil =>
      cases data' with
      | nil => rfl
      | cons b data' => exact absurd h (by simp [byteHex])
  | cons a data ih =>
      cases data' with
      | nil => exact absurd h (by simp [byteHex])
      | cons b data' =>
          rw [List.flatMap_cons, List.flatMap_cons] at h
          obtain ⟨hbyte, hrest⟩ := List.append_inj h rfl
          rw [byteHex_inj hbyte, ih hrest]

theorem isHexDigit_hexDigit : ∀ n, n < 16 → isHexDigit (Json.hexDigit n) = true := by decide

theorem Crypto.spelled_sound (privateKey publicKey : String) :
    Crypto.spelled.Sound privateKey publicKey where
  loads := rfl
  sha256_injective := by
    intro data data' h
    exact flatMap_byteHex_inj (List.cons.inj (String.ofList_injective h)).2
  sha256_ne_empty := by
    intro data h
    have hlist := congrArg String.toList h
    rw [Crypto.spelled, String.toList_ofList] at hlist
    exact absurd hlist (List.cons_ne_nil _ _)
  verify_sign := by
    intro payload
    exact beq_self_eq_true _
  sign_ne_nil := by
    intro payload
    exact List.cons_ne_nil _ _

theorem Crypto.spelled_definite (publicKey : String) : Crypto.spelled.Definite publicKey where
  hexdigest := by
    intro data c hc
    rw [Crypto.spelled, String.toList_ofList] at hc
    obtain rfl | hc := List.mem_cons.mp hc
    · decide
    · obtain ⟨b, _, hb⟩ := List.mem_flatMap.mp hc
      have hlt := b.toNat_lt
      obtain rfl | rfl := List.mem_pair.mp hb
      · exact isHexDigit_hexDigit _ (by omega)
      · exact isHexDigit_hexDigit _ (by omega)
  unique := by
    intro payload payload' signature hpayload hpayload'
    have hsame := (beq_iff_eq.mp hpayload).symm.trans (beq_iff_eq.mp hpayload')
    exact (List.cons.inj hsame).2

namespace ComplianceEngine

/-- A greeting, as the control plane signs it. -/
def signedGreeting : UCER := (Facade.echoRecord {.exec}).signIntent .spelled "private"

/-- The record verifies, and the compliance verifier rejects it. -/
theorem signed_greeting_noncompliant :
    Crypto.spelled.Sound "private" "public" ∧ Crypto.spelled.Definite "public" ∧
      ¬ VerifiersAgree .spelled "public" signedGreeting := by
  refine ⟨Crypto.spelled_sound _ _, Crypto.spelled_definite _, ?_⟩
  rintro ⟨verdict, hcompliance, hintegrity⟩
  have hverified := verifyIntegrity_signIntent (Crypto.spelled_sound "private" "public")
    (Facade.echoRecord {.exec})
  obtain rfl := Except.ok.inj (hverified.symm.trans hintegrity)
  exact not_both_verify (Crypto.spelled_definite _) hcompliance hintegrity

/-- Three bytes that are no signature in the place of the signature: both reject the record. -/
theorem forged_greeting_agreed :
    VerifiersAgree .spelled "public" { signedGreeting with controlSignature := some "BBBB" } :=
  (verifiersAgree_iff (Crypto.spelled_definite "public")
    { signedGreeting with controlSignature := some "BBBB" }).mpr
    ⟨rfl, "BBBB", [4, 16, 65], rfl, by decide, rfl,
      fun _ hverifies => Bool.false_ne_true hverifies.2⟩

end ComplianceEngine
end Ucser
