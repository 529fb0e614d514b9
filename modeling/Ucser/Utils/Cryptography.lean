import Ucser.Core.Types
import Ucser.Lib.Json

/-!
# Hashing and signing: `utils/cryptography.py` and `core/uck.py`

SHA-256 and RSA-PSS come from packages outside the repository, so they are
parameters (`Crypto`).  What the repository does around them — UTF-8, base64,
canonical JSON — is modelled as it is.

* `Crypto.Sound` — what is assumed of them: the public key loads, the hash has no
  collisions, a signature of the control plane verifies, and neither is ever empty.
* `verifySignature_signPayload` — **a signature made by `signPayload` is accepted
  by `verifySignature`**, through the base64 text it travels as.
-/

namespace Ucser

/-- The primitives of `hashlib` and `cryptography`. -/
structure Crypto where
  /-- With what message `serialization.load_pem_public_key` raises, if the text is no key. -/
  loadPemPublicKey : String → Option String := fun _ => none
  /-- `hashlib.sha256(data).hexdigest()`. -/
  sha256 : List UInt8 → String
  /-- `private_key.sign` with PSS padding, the salt drawn once and for all. -/
  pssSign : String → List UInt8 → List UInt8
  /-- `public_key.verify` with PSS padding: does it return without raising? -/
  pssVerify : String → List UInt8 → List UInt8 → Bool

/-- What is assumed of the primitives for one key pair. -/
structure Crypto.Sound (crypto : Crypto) (privateKey publicKey : String) : Prop where
  loads : crypto.loadPemPublicKey publicKey = none
  sha256_injective : Function.Injective crypto.sha256
  sha256_ne_empty : ∀ data, crypto.sha256 data ≠ ""
  verify_sign : ∀ payload, crypto.pssVerify publicKey payload
    (crypto.pssSign privateKey payload) = true
  sign_ne_nil : ∀ payload, crypto.pssSign privateKey payload ≠ []

/-- `sign_payload`: the signature as base64 text. -/
def signPayload (crypto : Crypto) (privateKeyPem payload : String) : String :=
  String.ofList (Text.b64encode (crypto.pssSign privateKeyPem (Text.utf8 payload)))

/-- `verify_signature`.  The loading of the key and the base64 decoding stand outside
the `try`, so their errors escape. -/
def verifySignature (crypto : Crypto) (publicKeyPem payload signatureB64 : String) :
    Except PyError Bool :=
  match crypto.loadPemPublicKey publicKeyPem with
  | some message => .error (.valueError message)
  | none =>
      match Text.b64decode signatureB64.toList with
      | .error reason => .error (.base64Error reason)
      | .ok signature => .ok (crypto.pssVerify publicKeyPem (Text.utf8 payload) signature)

/-- `UCKCore.compute_canonical_hash_uck`. -/
def computeCanonicalHashUck (crypto : Crypto) (data : Json.Value) : String :=
  crypto.sha256 (Text.utf8 (Json.dumps data))

variable {crypto : Crypto} {privateKey publicKey : String}

/-- **A signature made by `signPayload` is accepted by `verifySignature`.** -/
theorem verifySignature_signPayload (h : crypto.Sound privateKey publicKey) (payload : String) :
    verifySignature crypto publicKey payload (signPayload crypto privateKey payload) = .ok true := by
  unfold verifySignature signPayload
  rw [h.loads, String.toList_ofList, Text.b64decode_b64encode]
  exact congrArg Except.ok (h.verify_sign _)

theorem signPayload_ne_empty (h : crypto.Sound privateKey publicKey) (payload : String) :
    signPayload crypto privateKey payload ≠ "" := by
  intro hempty
  have hnil := congrArg String.toList hempty
  rw [signPayload, String.toList_ofList] at hnil
  exact Text.b64encode_ne_nil (h.sign_ne_nil _) hnil

/-- Equal hashes mean equal data, up to the order of keys. -/
theorem computeCanonicalHashUck_inj (h : crypto.Sound privateKey publicKey)
    {data data' : Json.Value} :
    computeCanonicalHashUck crypto data = computeCanonicalHashUck crypto data' ↔
      Json.sortKeys data = Json.sortKeys data' := by
  constructor
  · intro heq
    exact Json.dumps_inj.mp (Text.utf8_injective (h.sha256_injective heq))
  · intro heq
    rw [computeCanonicalHashUck, computeCanonicalHashUck, Json.dumps_inj.mpr heq]

/-! ## The assumptions can be met -/

/-- Transparent primitives: the digest spells the data out, a signature is the payload
behind a zero byte. -/
def Crypto.transparent : Crypto where
  sha256 data := String.ofList ('#' :: data.map (fun b => Char.ofNat b.toNat))
  pssSign _ payload := 0 :: payload
  pssVerify _ payload signature := signature == 0 :: payload

set_option maxRecDepth 2000 in
theorem toNat_ofNat_of_byte : ∀ {n : Nat}, n < 256 → (Char.ofNat n).toNat = n := by decide

theorem ofNat_toNat_injective :
    Function.Injective (fun b : UInt8 => Char.ofNat b.toNat) := by
  intro a b h
  have hnat : (Char.ofNat a.toNat).toNat = (Char.ofNat b.toNat).toNat := congrArg Char.toNat h
  rw [toNat_ofNat_of_byte a.toNat_lt, toNat_ofNat_of_byte b.toNat_lt] at hnat
  exact UInt8.toNat_inj.mp hnat

theorem Crypto.transparent_sound (privateKey publicKey : String) :
    Crypto.transparent.Sound privateKey publicKey where
  loads := rfl
  sha256_injective := by
    intro data data' h
    have hlist := String.ofList_injective h
    exact List.map_injective_iff.mpr ofNat_toNat_injective (List.cons.inj hlist).2
  sha256_ne_empty := by
    intro data h
    have hlist := congrArg String.toList h
    rw [Crypto.transparent, String.toList_ofList] at hlist
    exact absurd hlist (List.cons_ne_nil _ _)
  verify_sign := by
    intro payload
    exact beq_self_eq_true _
  sign_ne_nil := by
    intro payload
    exact List.cons_ne_nil _ _

end Ucser
