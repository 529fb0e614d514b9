import Ucser.Utils.Cryptography

/-!
# The record: `core/ucer.py`

A `UCER` carries an intent, its steps, what executing them showed, and a chain
of trust: a hash of the fields that make up the intent and a signature of that
hash by the control plane.

* `UCER.modelDumpCanonical`, `UCER.getCanonicalHash` — what the hash covers.
* `UCER.signIntent`, `UCER.verifyIntegrity` — signing and checking.
* `getCanonicalHash_eq_iff_capabilities` — **the hash covers the capabilities**:
  changing nothing but `required_capabilities` keeps the hash exactly when the
  set stays the same.
* `verifyIntegrity_signIntent` — a record just signed verifies.
* `verifyIntegrity_rewrite` — what becomes of a record that verified when a stage
  rewrites the fields a pipeline run writes.
-/

namespace Ucser

/-- `ExecutionStep`. -/
structure ExecutionStep where
  stepId : String
  adapter : Adapter
  command : String
  expectedStateChanges : Option (List (String × Json.Value)) := none

/-- `ExecutionTrace`, without its duration and its timestamp. -/
structure ExecutionTrace where
  stepId : String
  adapter : Adapter
  command : String
  stdout : String
  stderr : String
  exitCode : Int
  sideEffects : List (String × Json.Value) := []

/-- `UCER`: the universal cross-execution record. -/
structure UCER where
  commandId : String
  /-- Microseconds on the clock of `datetime.utcnow`. -/
  timestamp : Int := 0
  intent : String
  steps : List ExecutionStep
  traces : List ExecutionTrace := []
  requiredCapabilities : Finset Capability := ∅
  stateHash : Option String := none
  status : Status := .pending
  canonicalHash : Option String := none
  controlSignature : Option String := none
  executionSignature : Option String := none
  executionPubKey : Option String := none

/-- `bool(text)` of an optional string: neither `None` nor empty. -/
def truthy (text : Option String) : Bool :=
  match text with
  | none => false
  | some s => s != ""

/-! ## What the hash covers -/

/-- An optional string as JSON. -/
def jsonOfOption (text : Option String) : Json.Value :=
  match text with
  | none => .null
  | some s => .str s

/-- A step as `model_dump` gives it. -/
def ExecutionStep.modelDump (step : ExecutionStep) : Json.Value :=
  .obj [("step_id", .str step.stepId), ("adapter", .str step.adapter.name),
    ("command", .str step.command),
    ("expected_state_changes", match step.expectedStateChanges with
      | none => .null
      | some changes => .obj changes)]

namespace UCER

/-- `model_dump_canonical`: every field but the hash, the signatures, the key,
the traces, the status and the timestamp. -/
def modelDumpCanonical (ucer : UCER) : List (String × Json.Value) :=
  [("command_id", .str ucer.commandId), ("intent", .str ucer.intent),
    ("steps", .arr (ucer.steps.map ExecutionStep.modelDump)),
    ("required_capabilities",
      .arr ((Capability.sortedValues ucer.requiredCapabilities).map .str)),
    ("state_hash", jsonOfOption ucer.stateHash)]

/-- `get_canonical_hash`. -/
def getCanonicalHash (crypto : Crypto) (ucer : UCER) : String :=
  computeCanonicalHashUck crypto (.obj ucer.modelDumpCanonical)

/-- `sign_intent`. -/
def signIntent (crypto : Crypto) (privateKeyPem : String) (ucer : UCER) : UCER :=
  { ucer with
    canonicalHash := some (ucer.getCanonicalHash crypto)
    controlSignature := some (signPayload crypto privateKeyPem (ucer.getCanonicalHash crypto)) }

/-- `verify_integrity`. -/
def verifyIntegrity (crypto : Crypto) (publicKeyPem : String) (ucer : UCER) :
    Except PyError Bool :=
  match ucer.controlSignature, ucer.canonicalHash with
  | some signature, some hash =>
      if signature = "" ∨ hash = "" then .ok false
      else if ucer.getCanonicalHash crypto ≠ hash then .ok false
      else verifySignature crypto publicKeyPem hash signature
  | _, _ => .ok false

end UCER

/-! ## Results -/

section Trust

variable {crypto : Crypto} {privateKey publicKey : String}

/-- The hash depends on the canonical dump alone. -/
theorem getCanonicalHash_congr {ucer ucer' : UCER}
    (h : ucer.modelDumpCanonical = ucer'.modelDumpCanonical) :
    ucer.getCanonicalHash crypto = ucer'.getCanonicalHash crypto := by
  rw [UCER.getCanonicalHash, UCER.getCanonicalHash, h]

theorem get?_requiredCapabilities (ucer : UCER) :
    Json.get? ucer.modelDumpCanonical "required_capabilities" =
      some (.arr ((Capability.sortedValues ucer.requiredCapabilities).map .str)) := by
  have h1 : "command_id" ≠ "required_capabilities" := by decide
  have h2 : "intent" ≠ "required_capabilities" := by decide
  have h3 : "steps" ≠ "required_capabilities" := by decide
  unfold UCER.modelDumpCanonical
  rw [Json.get?, if_neg h1, Json.get?, if_neg h2, Json.get?, if_neg h3, Json.get?, if_pos rfl]

/-- **The hash covers the capabilities.**  Two records that differ in nothing
the hash covers but `required_capabilities` have the same hash exactly when the
two sets are equal. -/
theorem getCanonicalHash_eq_iff_capabilities (h : crypto.Sound privateKey publicKey) (ucer : UCER)
    (caps : Finset Capability) :
    { ucer with requiredCapabilities := caps }.getCanonicalHash crypto =
      ucer.getCanonicalHash crypto ↔ caps = ucer.requiredCapabilities := by
  constructor
  · intro heq
    have hsorted := (computeCanonicalHashUck_inj h).mp heq
    have hfield := Json.get?_of_dumps_eq (Json.dumps_inj.mpr hsorted) "required_capabilities"
    rw [get?_requiredCapabilities, get?_requiredCapabilities, Option.map_some, Option.map_some,
      Json.sortKeys, Json.sortKeys, Json.sortElems_str, Json.sortElems_str, Option.some.injEq,
      Json.Value.arr.injEq] at hfield
    have hvalues := List.map_injective_iff.mpr (fun _ _ hs => Json.Value.str.inj hs) hfield
    exact Capability.sortedValues_injective hvalues
  · rintro rfl
    rfl

/-- Signing touches nothing the hash covers. -/
@[simp] theorem getCanonicalHash_signIntent (ucer : UCER) :
    (ucer.signIntent crypto privateKey).getCanonicalHash crypto = ucer.getCanonicalHash crypto :=
  getCanonicalHash_congr rfl

/-- A record that verifies carries the hash of its content. -/
theorem canonicalHash_of_verifyIntegrity {ucer : UCER}
    (hv : ucer.verifyIntegrity crypto publicKey = .ok true) :
    ucer.canonicalHash = some (ucer.getCanonicalHash crypto) := by
  unfold UCER.verifyIntegrity at hv
  split at hv
  · rename_i signature hash _ hhash
    split_ifs at hv with hempty hne
    · exact absurd hv (by simp)
    · exact absurd hv (by simp)
    · rw [hhash, not_not.mp hne]
  · exact absurd hv (by simp)

/-- A record just signed verifies. -/
theorem verifyIntegrity_signIntent (h : crypto.Sound privateKey publicKey) (ucer : UCER) :
    (ucer.signIntent crypto privateKey).verifyIntegrity crypto publicKey = .ok true := by
  have hsig := signPayload_ne_empty h (ucer.getCanonicalHash crypto)
  have hhash : ucer.getCanonicalHash crypto ≠ "" := h.sha256_ne_empty _
  show (if _ then Except.ok false else if _ then Except.ok false else _) = _
  rw [if_neg (not_or.mpr ⟨hsig, hhash⟩), if_neg (not_not.mpr (getCanonicalHash_signIntent ucer))]
  exact verifySignature_signPayload h _

/-- **What rewriting does to a record that verified.**  The fields a run of the
pipeline writes are the capabilities, the status, the traces and the ephemeral
key; of these only the capabilities are under the hash, so the rewritten record
verifies exactly when they are unchanged. -/
theorem verifyIntegrity_rewrite (h : crypto.Sound privateKey publicKey) {ucer : UCER}
    (hv : ucer.verifyIntegrity crypto publicKey = .ok true) (caps : Finset Capability)
    (status : Status) (traces : List ExecutionTrace) (key : Option String) :
    { ucer with
        requiredCapabilities := caps, status := status, traces := traces,
        executionPubKey := key }.verifyIntegrity crypto publicKey = .ok true ↔
      caps = ucer.requiredCapabilities := by
  set ucer' : UCER :=
    { ucer with
      requiredCapabilities := caps, status := status, traces := traces, executionPubKey := key }
    with hucer'
  have hhash : ucer'.getCanonicalHash crypto =
      { ucer with requiredCapabilities := caps }.getCanonicalHash crypto :=
    getCanonicalHash_congr rfl
  rw [← getCanonicalHash_eq_iff_capabilities h ucer caps, ← hhash]
  have hcanon := canonicalHash_of_verifyIntegrity hv
  constructor
  · intro hv'
    have hcanon' := canonicalHash_of_verifyIntegrity hv'
    have hsame : ucer'.canonicalHash = ucer.canonicalHash := rfl
    rw [hsame, hcanon, Option.some.injEq] at hcanon'
    exact hcanon'.symm
  · intro heq
    have hcanon' : ucer'.canonicalHash = ucer.canonicalHash := rfl
    have hsig' : ucer'.controlSignature = ucer.controlSignature := rfl
    rw [← hv, UCER.verifyIntegrity, UCER.verifyIntegrity, hcanon', hsig', heq]

end Trust

end Ucser
