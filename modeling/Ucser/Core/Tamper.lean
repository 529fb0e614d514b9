import Ucser.Core.Ucer

/-!
# Tamper evidence

A record carries the hash of its intent and a signature of the hash.  What a change to the
record does to `verify_integrity` is decided by the fields the hash covers.

* `StepAgrees`, `UCER.IntentAgrees` — agreement on these fields, expected state changes up
  to the order of keys.
* `getCanonicalHash_eq_iff` — **equal hashes mean equal intents**: the canonical text
  separates any two.
* `verifyIntegrity_iff_intentAgrees` — **a record with a carried signature verifies exactly
  when its intent is the signed one**.
-/

namespace Ucser

/-! ## Agreement -/

/-- Two steps agree; what they expect to change may differ in the order of keys. -/
structure StepAgrees (step step' : ExecutionStep) : Prop where
  stepId : step.stepId = step'.stepId
  adapter : step.adapter = step'.adapter
  command : step.command = step'.command
  expectedStateChanges : Option.Rel Json.Reordered
    (step.expectedStateChanges.map Json.Value.obj) (step'.expectedStateChanges.map Json.Value.obj)

/-- Two records agree on all the hash covers: their identifier, intent, steps in order,
set of capabilities and state hash. -/
structure UCER.IntentAgrees (ucer ucer' : UCER) : Prop where
  commandId : ucer.commandId = ucer'.commandId
  intent : ucer.intent = ucer'.intent
  steps : List.Forall₂ StepAgrees ucer.steps ucer'.steps
  requiredCapabilities : ucer.requiredCapabilities = ucer'.requiredCapabilities
  stateHash : ucer.stateHash = ucer'.stateHash

/-! ## The canonical dump -/

theorem Adapter.name_injective : Function.Injective Adapter.name := by
  intro a b h
  cases a <;> cases b <;> first | rfl | exact absurd h (by decide)

theorem jsonOfOption_injective : Function.Injective jsonOfOption := by
  intro s t h
  cases s <;> cases t <;> simp_all [jsonOfOption]

@[simp] theorem sortKeys_jsonOfOption (text : Option String) :
    Json.sortKeys (jsonOfOption text) = jsonOfOption text := by
  cases text <;> simp [jsonOfOption, Json.sortKeys]

/-- The dump of the expected state changes. -/
def dumpChanges (changes : Option (List (String × Json.Value))) : Json.Value :=
  changes.elim .null .obj

theorem modelDump_eq (step : ExecutionStep) :
    step.modelDump = .obj [("step_id", .str step.stepId), ("adapter", .str step.adapter.name),
      ("command", .str step.command),
      ("expected_state_changes", dumpChanges step.expectedStateChanges)] := by
  unfold ExecutionStep.modelDump
  cases step.expectedStateChanges <;> rfl

theorem sortKeys_dumpChanges_iff {changes changes' : Option (List (String × Json.Value))} :
    Json.sortKeys (dumpChanges changes) = Json.sortKeys (dumpChanges changes') ↔
      Option.Rel Json.Reordered (changes.map Json.Value.obj) (changes'.map Json.Value.obj) := by
  cases changes with
  | none =>
      cases changes' with
      | none => exact iff_of_true rfl .none
      | some changes' =>
          refine iff_of_false (by simp [dumpChanges, Json.sortKeys]) ?_
          rintro ⟨⟩
  | some changes =>
      cases changes' with
      | none =>
          refine iff_of_false (by simp [dumpChanges, Json.sortKeys]) ?_
          rintro ⟨⟩
      | some changes' =>
          constructor
          · intro h
            exact .some (Json.reordered_iff.mpr h)
          · intro h
            cases h with
            | some h => exact Json.reordered_iff.mp h

/-- Equal dumps agree on what each key is mapped to. -/
theorem get?_of_sortKeys_eq {kvs kvs' : List (String × Json.Value)}
    (h : Json.sortKeys (.obj kvs) = Json.sortKeys (.obj kvs')) (key : String) :
    (Json.get? kvs key).map Json.sortKeys = (Json.get? kvs' key).map Json.sortKeys :=
  Json.get?_of_dumps_eq (Json.dumps_inj.mpr h) key

/-- **The dumps of two steps agree exactly when the steps do.** -/
theorem sortKeys_modelDump_iff {step step' : ExecutionStep} :
    Json.sortKeys step.modelDump = Json.sortKeys step'.modelDump ↔ StepAgrees step step' := by
  rw [modelDump_eq, modelDump_eq]
  constructor
  · intro h
    have hid := get?_of_sortKeys_eq h "step_id"
    have hadapter := get?_of_sortKeys_eq h "adapter"
    have hcommand := get?_of_sortKeys_eq h "command"
    have hchanges := get?_of_sortKeys_eq h "expected_state_changes"
    simp [Json.get?, Json.sortKeys] at hid hadapter hcommand hchanges
    exact ⟨hid, Adapter.name_injective hadapter, hcommand, sortKeys_dumpChanges_iff.mp hchanges⟩
  · rintro ⟨hid, hadapter, hcommand, hchanges⟩
    have hdump := sortKeys_dumpChanges_iff.mpr hchanges
    simp only [Json.sortKeys, Json.sortFields, hid, hadapter, hcommand, hdump]

theorem sortElems_modelDump_iff {steps steps' : List ExecutionStep} :
    Json.sortElems (steps.map ExecutionStep.modelDump) =
        Json.sortElems (steps'.map ExecutionStep.modelDump) ↔
      List.Forall₂ StepAgrees steps steps' := by
  induction steps generalizing steps' with
  | nil =>
      cases steps' with
      | nil => simp
      | cons step' steps' => simp [Json.sortElems]
  | cons step steps ih =>
      cases steps' with
      | nil => simp [Json.sortElems]
      | cons step' steps' =>
          simp [Json.sortElems, ih, sortKeys_modelDump_iff]

/-- **The dumps of two records agree exactly when the intents do.** -/
theorem sortKeys_modelDumpCanonical_iff {ucer ucer' : UCER} :
    Json.sortKeys (.obj ucer.modelDumpCanonical) = Json.sortKeys (.obj ucer'.modelDumpCanonical) ↔
      ucer.IntentAgrees ucer' := by
  constructor
  · intro h
    have hid := get?_of_sortKeys_eq h "command_id"
    have hintent := get?_of_sortKeys_eq h "intent"
    have hsteps := get?_of_sortKeys_eq h "steps"
    have hcaps := get?_of_sortKeys_eq h "required_capabilities"
    have hstate := get?_of_sortKeys_eq h "state_hash"
    simp [UCER.modelDumpCanonical, Json.get?, Json.sortKeys] at hid hintent hsteps hstate
    rw [get?_requiredCapabilities, get?_requiredCapabilities] at hcaps
    simp only [Option.map_some, Json.sortKeys, Json.sortElems_str, Option.some.injEq,
      Json.Value.arr.injEq] at hcaps
    have hvalues := List.map_injective_iff.mpr (fun _ _ hs => Json.Value.str.inj hs) hcaps
    exact ⟨hid, hintent, sortElems_modelDump_iff.mp hsteps,
      Capability.sortedValues_injective hvalues, jsonOfOption_injective hstate⟩
  · rintro ⟨hid, hintent, hsteps, hcaps, hstate⟩
    have hdump := sortElems_modelDump_iff.mpr hsteps
    simp [UCER.modelDumpCanonical, Json.sortKeys, Json.sortFields, hid, hintent, hcaps, hstate,
      hdump]

section Tamper

variable {crypto : Crypto} {privateKey publicKey : String} {ucer ucer' : UCER}

/-- Signing leaves a signature. -/
theorem truthy_signIntent (h : crypto.Sound privateKey publicKey) (ucer : UCER) :
    truthy (ucer.signIntent crypto privateKey).controlSignature = true := by
  have hsig := signPayload_ne_empty h (ucer.getCanonicalHash crypto)
  simpa [UCER.signIntent, truthy] using hsig

/-- **Equal hashes mean equal intents.** -/
theorem getCanonicalHash_eq_iff (h : crypto.Sound privateKey publicKey) :
    ucer.getCanonicalHash crypto = ucer'.getCanonicalHash crypto ↔ ucer.IntentAgrees ucer' := by
  rw [UCER.getCanonicalHash, UCER.getCanonicalHash, computeCanonicalHashUck_inj h,
    sortKeys_modelDumpCanonical_iff]

/-- With the hash and the signature of another record, a record verifies exactly when the
other one's hash is its own. -/
theorem verifyIntegrity_carried (h : crypto.Sound privateKey publicKey)
    (hhash : ucer'.canonicalHash = (ucer.signIntent crypto privateKey).canonicalHash)
    (hsignature : ucer'.controlSignature = (ucer.signIntent crypto privateKey).controlSignature) :
    ucer'.verifyIntegrity crypto publicKey =
      .ok (decide (ucer'.getCanonicalHash crypto = ucer.getCanonicalHash crypto)) := by
  have hsig := signPayload_ne_empty h (ucer.getCanonicalHash crypto)
  have hne : ucer.getCanonicalHash crypto ≠ "" := h.sha256_ne_empty _
  have hvalid := verifySignature_signPayload h (ucer.getCanonicalHash crypto)
  unfold UCER.verifyIntegrity
  rw [hhash, hsignature]
  simp only [UCER.signIntent, hsig, hne, or_self, if_false]
  by_cases heq : ucer'.getCanonicalHash crypto = ucer.getCanonicalHash crypto
  · simp [heq, hvalid]
  · simp [heq]

/-- **Tampering is evident.**  A record that carries the hash and the signature of a signed
record verifies exactly when the two agree on the identifier, the intent, the steps in their
order, the set of required capabilities and the state hash. -/
theorem verifyIntegrity_iff_intentAgrees (h : crypto.Sound privateKey publicKey) (ucer ucer' : UCER)
    (hhash : ucer'.canonicalHash = (ucer.signIntent crypto privateKey).canonicalHash)
    (hsignature : ucer'.controlSignature = (ucer.signIntent crypto privateKey).controlSignature) :
    ucer'.verifyIntegrity crypto publicKey = .ok true ↔
      (ucer.signIntent crypto privateKey).IntentAgrees ucer' := by
  rw [verifyIntegrity_carried h hhash hsignature, ← getCanonicalHash_eq_iff h,
    getCanonicalHash_signIntent]
  simp [eq_comm]

/-- A signed record whose steps are replaced by others no longer verifies. -/
theorem verifyIntegrity_of_steps_changed (h : crypto.Sound privateKey publicKey) (ucer : UCER)
    {steps : List ExecutionStep} (hchanged : ¬ List.Forall₂ StepAgrees steps ucer.steps) :
    { ucer.signIntent crypto privateKey with steps := steps }.verifyIntegrity crypto publicKey =
      .ok false := by
  set ucer' : UCER := { ucer.signIntent crypto privateKey with steps := steps } with hucer'
  have hne : ucer'.getCanonicalHash crypto ≠ ucer.getCanonicalHash crypto := by
    intro heq
    exact hchanged ((getCanonicalHash_eq_iff h).mp heq).steps
  have hhash : ucer'.canonicalHash = (ucer.signIntent crypto privateKey).canonicalHash := rfl
  have hsignature : ucer'.controlSignature = (ucer.signIntent crypto privateKey).controlSignature :=
    rfl
  rw [verifyIntegrity_carried h hhash hsignature, decide_eq_false hne]

end Tamper

/-- A step that expects two changes, in one or the other order. -/
def writeStep (swapped : Bool) : ExecutionStep where
  stepId := "s"
  adapter := .bash
  command := "touch f"
  expectedStateChanges :=
    if swapped then some [("g", .null), ("f", .bool true)]
    else some [("f", .bool true), ("g", .null)]

/-- A record with this step, signed. -/
def signedWrite : UCER :=
  UCER.signIntent .transparent "private"
    { commandId := "c", intent := "write", steps := [writeStep false] }

/-- Its expected changes may come back in the other order: it still verifies. -/
theorem swapped_write_verifies :
    { signedWrite with steps := [writeStep true] }.verifyIntegrity .transparent "public" =
      .ok true := by
  have hsound := Crypto.transparent_sound "private" "public"
  have hne : "f" ≠ "g" := by decide
  have hchanges := Json.Reordered.swap [] [] (.bool true) .null hne
  have hagrees : signedWrite.IntentAgrees { signedWrite with steps := [writeStep true] } :=
    ⟨rfl, rfl, .cons ⟨rfl, rfl, rfl, .some hchanges⟩ .nil, rfl, rfl⟩
  exact (verifyIntegrity_iff_intentAgrees hsound _ { signedWrite with steps := [writeStep true] }
    rfl rfl).mpr hagrees

end Ucser
