import Ucser.Engine.Manager
import Ucser.Lib.JsonLoads
import Ucser.Utils.Cryptography

/-!
# The result of an execution: `engine/schema.py`

`ExecutionResult.deterministic_hash` hashes five fields one behind the other, with nothing to
tell where one ends and the next begins.  The record itself is that of the manager.

* `payload`, `deterministicHash` — what is hashed, and the hash.
* `exists_lastDigit` — the digits of an exit code end in a digit, and are more than that unless
  the code is a digit itself.
* `hash_binds_iff` — **the hash binds the outcome** for results whose texts are all empty and
  whose exit code is a single digit, and for no others.
-/

namespace Ucser
namespace ExecutionResult

/-! ## What is hashed -/

/-- `f"{self.command_id}"`: the manager passes on a missing id, which is written `None`. -/
def commandIdText (r : ExecutionResult) : String := r.commandId.getD "None"

/-- `f"{self.command_id}{self.adapter}{self.stdout}{self.stderr}{self.exit_code}"`. -/
def payload (r : ExecutionResult) : String :=
  r.commandIdText ++ r.adapter ++ r.stdout ++ r.stderr ++ String.ofList (Json.intText r.exitCode)

/-- `ExecutionResult.deterministic_hash`. -/
def deterministicHash (sha256 : List UInt8 → String) (r : ExecutionResult) : String :=
  sha256 (Text.utf8 r.payload)

/-- Two results agree on what the hash is to prove. -/
def SameOutcome (r r' : ExecutionResult) : Prop :=
  r.commandId = r'.commandId ∧ r.adapter = r'.adapter ∧ r.stdout = r'.stdout ∧
    r.stderr = r'.stderr ∧ r.exitCode = r'.exitCode

/-- The results that consist of a single digit. -/
def BareDigit (r : ExecutionResult) : Prop :=
  r.commandId = some "" ∧ r.adapter = "" ∧ r.stdout = "" ∧ r.stderr = "" ∧
    0 ≤ r.exitCode ∧ r.exitCode ≤ 9

theorem intText_of_digit {k : Nat} (h : k < 10) : Json.intText k = [Nat.digitChar k] := by
  have hnonneg : ¬ (k : Int) < 0 := by omega
  rw [Json.intText, if_neg hnonneg, Int.natAbs_natCast, Nat.toDigits_of_lt_base h]

/-- The text of a number ends in a digit, and is nothing else only if the number is this
digit. -/
theorem exists_lastDigit (n : Int) : ∃ init k, k < 10 ∧
    Json.intText n = init ++ [Nat.digitChar k] ∧ (init = [] → n = k) := by
  have hdigits : ∃ init k, k < 10 ∧ Nat.toDigits 10 n.natAbs = init ++ [Nat.digitChar k] ∧
      (init = [] → n.natAbs = k) := by
    by_cases hlt : n.natAbs < 10
    · exact ⟨[], n.natAbs, hlt, Nat.toDigits_of_lt_base hlt, fun _ => rfl⟩
    · refine ⟨Nat.toDigits 10 (n.natAbs / 10), n.natAbs % 10, Nat.mod_lt _ (by decide),
        Nat.toDigits_of_base_le (by decide) (by omega), fun hnil => ?_⟩
      exact absurd hnil Nat.toDigits_ne_nil
  obtain ⟨init, k, hk, heq, hinit⟩ := hdigits
  by_cases hneg : n < 0
  · refine ⟨'-' :: init, k, hk, by rw [Json.intText, if_pos hneg, heq, List.cons_append], ?_⟩
    exact fun hnil => absurd hnil (List.cons_ne_nil _ _)
  · refine ⟨init, k, hk, by rw [Json.intText, if_neg hneg, heq], fun hnil => ?_⟩
    have habs := hinit hnil
    omega

theorem toList_payload (r : ExecutionResult) : r.payload.toList =
    r.commandIdText.toList ++ r.adapter.toList ++ r.stdout.toList ++ r.stderr.toList ++
      Json.intText r.exitCode := by
  simp [payload]

/-- Without collisions, results with one hash are those with one payload. -/
theorem deterministicHash_eq_iff {sha256 : List UInt8 → String}
    (hsha : Function.Injective sha256) {r r' : ExecutionResult} :
    r.deterministicHash sha256 = r'.deterministicHash sha256 ↔ r.payload = r'.payload :=
  ⟨fun h => Text.utf8_injective (hsha h), fun h => by rw [deterministicHash, h]; rfl⟩

/-- A missing id does not come out empty. -/
theorem commandId_of_commandIdText_empty {r : ExecutionResult} (h : r.commandIdText = "") :
    r.commandId = some "" := by
  unfold commandIdText at h
  cases hid : r.commandId with
  | none =>
      rw [hid] at h
      exact absurd h (by decide)
  | some id =>
      rw [hid] at h
      exact congrArg some h

/-! ## When the hash binds the outcome -/

/-- A result of a single digit shares its payload with no other outcome. -/
theorem sameOutcome_of_bareDigit {r r' : ExecutionResult} (hr : r.BareDigit)
    (h : r.payload = r'.payload) : r.SameOutcome r' := by
  obtain ⟨hid, hadapter, hout, herr, hlow, hhigh⟩ := hr
  obtain ⟨k, hk⟩ := Int.eq_ofNat_of_zero_le hlow
  have hlt : k < 10 := by omega
  obtain ⟨init, l, hl, htext, hinit⟩ := exists_lastDigit r'.exitCode
  have hlist := congrArg String.toList h
  rw [toList_payload, toList_payload, commandIdText, hid, hadapter, hout, herr, hk,
    intText_of_digit hlt, htext, ← List.append_assoc] at hlist
  obtain ⟨hfront, hlast⟩ := List.append_inj' hlist rfl
  simp only [Option.getD_some, String.toList_empty, List.nil_append, List.nil_eq,
    List.append_eq_nil_iff, String.toList_eq_nil_iff] at hfront
  obtain ⟨⟨⟨⟨hid', hadapter'⟩, hout'⟩, herr'⟩, hnil⟩ := hfront
  have hid' := commandId_of_commandIdText_empty hid'
  have hdigit : k = l := Text.digitChar_inj hlt hl (List.cons.inj hlast).1
  refine ⟨hid.trans hid'.symm, hadapter.trans hadapter'.symm, hout.trans hout'.symm,
    herr.trans herr'.symm, ?_⟩
  rw [hk, hdigit, hinit hnil]

/-- The result that carries a text in its command id, and nothing else but a digit. -/
def inCommandId (text : List Char) (k : Nat) : ExecutionResult :=
  ⟨some (String.ofList text), "", true, "", "", k⟩

/-- The result that carries it in its adapter. -/
def inAdapter (text : List Char) (k : Nat) : ExecutionResult :=
  ⟨some "", String.ofList text, true, "", "", k⟩

/-- **When the hash binds the outcome.**  If the hash has no collisions, every result with
the hash of `r` has the outcome of `r` exactly when `r` consists of a single digit. -/
theorem hash_binds_iff (sha256 : List UInt8 → String) (hsha : Function.Injective sha256)
    (r : ExecutionResult) :
    (∀ r', r.deterministicHash sha256 = r'.deterministicHash sha256 → r.SameOutcome r') ↔
      r.BareDigit := by
  constructor
  · intro hbinds
    obtain ⟨init, k, hk, htext, -⟩ := exists_lastDigit r.exitCode
    -- everything in front of the last digit, moved into one field or another
    have hmoved : ∀ r', r'.payload.toList = r.commandIdText.toList ++ r.adapter.toList ++
        r.stdout.toList ++ r.stderr.toList ++ init ++ [Nat.digitChar k] → r.SameOutcome r' := by
      intro r' hr'
      refine hbinds r' ((deterministicHash_eq_iff hsha).mpr (String.toList_injective ?_))
      rw [hr', toList_payload, htext, List.append_assoc _ init]
    obtain ⟨-, hadapter, hout, herr, hcode⟩ := hmoved
      (inCommandId (r.commandIdText.toList ++ r.adapter.toList ++ r.stdout.toList ++
        r.stderr.toList ++ init) k)
      (by rw [toList_payload]; simp [inCommandId, commandIdText, intText_of_digit hk])
    obtain ⟨hid, -⟩ := hmoved
      (inAdapter (r.commandIdText.toList ++ r.adapter.toList ++ r.stdout.toList ++
        r.stderr.toList ++ init) k)
      (by rw [toList_payload]; simp [inAdapter, commandIdText, intText_of_digit hk])
    have hcode : r.exitCode = k := hcode
    exact ⟨hid, hadapter, hout, herr, by omega, by omega⟩
  · intro hr r' h
    exact sameOutcome_of_bareDigit hr ((deterministicHash_eq_iff hsha).mp h)

/-- The two sides on a hash without collisions. -/
theorem hash_binds_transparent :
    (∀ r', (⟨some "", "", true, "", "", 0⟩ : ExecutionResult).deterministicHash
        Crypto.transparent.sha256 = r'.deterministicHash Crypto.transparent.sha256 →
      (⟨some "", "", true, "", "", 0⟩ : ExecutionResult).SameOutcome r') ↔
      (⟨some "", "", true, "", "", 0⟩ : ExecutionResult).BareDigit :=
  hash_binds_iff Crypto.transparent.sha256 (Crypto.transparent_sound "" "").sha256_injective _

/-- A byte moved from one output to the other keeps the hash, whatever the hash is; both
results are normalised. -/
theorem hash_not_binding :
    ¬ ∀ (sha256 : List UInt8 → String), Function.Injective sha256 →
      ∀ r r' : ExecutionResult, r.deterministicHash sha256 = r'.deterministicHash sha256 →
        r.SameOutcome r' := by
  intro hbinds
  have hsha := (Crypto.transparent_sound "" "").sha256_injective
  have hsame := hbinds Crypto.transparent.sha256 hsha
    (normalize ⟨some "c1", "bash", true, "ab", "", 0⟩)
    (normalize ⟨some "c1", "bash", true, "a", "b", 0⟩)
    ((deterministicHash_eq_iff hsha).mpr (by decide))
  exact absurd hsame.2.2.1 (by decide)

end ExecutionResult
end Ucser
