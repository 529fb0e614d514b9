import Ucser.Core.Ucer
import Ucser.Core.Validation
import Ucser.Lib.JsonLoads

/-!
# The job queue: `JobScheduler` in `core/scheduler.py`

A job travels as JSON: the canonical dump of the record, a snapshot of the context, and some
meta data.  A worker decodes the message and hands it to its callback, which rebuilds the
record from `data['ucer']`.

* `SubmitContext.snapshot`, `payload`, `submitJob` — what is published.
* `decodeMessage`, `UCER.ofCanonical` — what a worker makes of it.
* `decodeMessage_submitJob` — **the payload arrives as it was sent**.
* `ofCanonical_modelDumpCanonical` — the record that is rebuilt: what the hash covers is
  there, and everything else, the signature among it, is gone.
* `trustSurvives_iff` — **trust survives the queue only where there was none**: when the
  public key rejects the signature anyway.
-/

namespace Ucser

/-! ## Publishing -/

/-- `ExecutionContext` with the fields `snapshot` reads. -/
structure SubmitContext extends ExecutionContext where
  environment : Dict String String
  workingDir : String
  createdAt : Json.Literal

/-- `snapshot()`; a Python set is listed in an order of its own. -/
def SubmitContext.snapshot (context : SubmitContext) (listing : List Capability) : Json.Value :=
  .obj [("execution_id", .str context.executionId),
    ("env", .obj (context.environment.items.map fun item => (item.1, .str item.2))),
    ("cwd", .str context.workingDir),
    ("capabilities", .arr ((listing.map Capability.value).map .str)),
    ("timestamp", .num context.createdAt.val)]

/-- What the scheduler adds to a job. -/
structure JobMeta where
  priority : Json.Literal
  submittedAt : Json.Literal
  traceId : String

/-- A message of the stream. -/
structure Message where
  subject : String
  data : List UInt8

/-- The payload of a job. -/
def payload (ucer : UCER) (snapshot : Json.Value) (jobMeta : JobMeta) : Json.Value :=
  .obj [("ucer", .obj ucer.modelDumpCanonical), ("context", snapshot),
    ("meta", .obj [("priority", .num jobMeta.priority.val),
      ("submitted_at", .num jobMeta.submittedAt.val), ("trace_id", .str jobMeta.traceId)])]

/-- `submit_job`: the message it publishes. -/
def submitJob (ucer : UCER) (context : SubmitContext) (listing : List Capability)
    (jobMeta : JobMeta) : Message where
  subject := "ucser.jobs." ++ ucer.commandId
  data := Text.utf8 (Json.dumpsPlain (payload ucer (context.snapshot listing) jobMeta))

/-! ## Receiving -/

/-- `json.loads(msg.data.decode())`, if it does not raise. -/
def decodeMessage (data : List UInt8) : Option Json.Value := (Text.utf8Decode data).bind Json.loads

/-- The member of an enumeration that a string names. -/
def validateNamed {α : Type} (members : List α) (name : α → String) (value : Json.Value) :
    Except PyError α :=
  match value with
  | .str s =>
      match members.find? (fun member => name member = s) with
      | some member => .ok member
      | none => .error (.exception "ValidationError")
  | _ => .error (.exception "ValidationError")

/-- A field of type `Capability`. -/
def validateCapability (value : Json.Value) : Except PyError Capability :=
  validateNamed Capability.inOrder Capability.value value

/-- A field of type `Literal["bash", "powershell", "ps", "linux", "python", "microvm"]`. -/
def validateAdapter (value : Json.Value) : Except PyError Adapter :=
  validateNamed [.bash, .powershell, .ps, .linux, .python, .microvm] Adapter.name value

/-- `ExecutionStep` from what `model_dump` gives. -/
def ExecutionStep.ofDump (dump : Json.Value) : Except PyError ExecutionStep := do
  let stepId ← getItem dump "step_id"
  let stepId ← validateStr stepId
  let adapter ← getItem dump "adapter"
  let adapter ← validateAdapter adapter
  let command ← getItem dump "command"
  let command ← validateStr command
  let changes ← getItem dump "expected_state_changes"
  let changes ← validateOptional validateDict changes
  return ⟨stepId, adapter, command, changes⟩

/-- `UCER` from a canonical dump, at a time: the fields it leaves out take their defaults. -/
def UCER.ofCanonical (now : Int) (dump : Json.Value) : Except PyError UCER := do
  let commandId ← getItem dump "command_id"
  let commandId ← validateStr commandId
  let intent ← getItem dump "intent"
  let intent ← validateStr intent
  let steps ← getItem dump "steps"
  let steps ← validateList ExecutionStep.ofDump steps
  let caps ← getItem dump "required_capabilities"
  let caps ← validateList validateCapability caps
  let stateHash ← getItem dump "state_hash"
  let stateHash ← validateOptional validateStr stateHash
  return {
    commandId := commandId
    timestamp := now
    intent := intent
    steps := steps
    requiredCapabilities := caps.toFinset
    stateHash := stateHash }

/-! ## What arrives -/

/-- The state changes a record expects are values that Python can hold. -/
def UCER.WellFormed (ucer : UCER) : Prop :=
  ∀ step ∈ ucer.steps, ∀ changes, step.expectedStateChanges = some changes →
    (Json.Value.obj changes).wellFormed = true

theorem wellFormed_stepDump {step : ExecutionStep}
    (h : ∀ changes, step.expectedStateChanges = some changes →
      (Json.Value.obj changes).wellFormed = true) : step.modelDump.wellFormed = true := by
  cases hchanges : step.expectedStateChanges with
  | none => simp [ExecutionStep.modelDump, Json.Value.wellFormed, Json.wellFormedFields, hchanges]
  | some changes =>
      have hobj := h changes hchanges
      simp [ExecutionStep.modelDump, Json.Value.wellFormed, Json.wellFormedFields, hchanges] at hobj ⊢
      exact hobj

theorem wellFormed_stepDumps {steps : List ExecutionStep}
    (h : ∀ step ∈ steps, step.modelDump.wellFormed = true) :
    Json.wellFormedElems (steps.map ExecutionStep.modelDump) = true := by
  induction steps with
  | nil => rfl
  | cons step rest ih =>
      obtain ⟨hstep, hrest⟩ := List.forall_mem_cons.mp h
      exact Bool.and_eq_true_iff.mpr ⟨hstep, ih hrest⟩

theorem wellFormed_modelDumpCanonical {ucer : UCER} (h : ucer.WellFormed) :
    (Json.Value.obj ucer.modelDumpCanonical).wellFormed = true := by
  have hsteps := wellFormed_stepDumps (fun step hstep => wellFormed_stepDump (h step hstep))
  have hcaps := Json.wellFormedElems_str (Capability.sortedValues ucer.requiredCapabilities)
  have hstate : (jsonOfOption ucer.stateHash).wellFormed = true := by
    cases ucer.stateHash with
    | none => rfl
    | some s => rfl
  simp [UCER.modelDumpCanonical, Json.Value.wellFormed, Json.wellFormedFields, hsteps, hcaps, hstate]

theorem wellFormed_snapshot (context : SubmitContext) (listing : List Capability) :
    (context.snapshot listing).wellFormed = true := by
  have hcaps := Json.wellFormedElems_str (listing.map Capability.value)
  have henv : (Json.Value.obj (context.environment.items.map
      fun item => (item.1, .str item.2))).wellFormed = true := by
    have hkeys : (context.environment.items.map
        fun item => (item.1, Json.Value.str item.2)).map Prod.fst =
        context.environment.items.map Prod.fst := by
      rw [List.map_map]
      rfl
    have hfields : ∀ items : List (String × String),
        Json.wellFormedFields (items.map fun item => (item.1, .str item.2)) = true := by
      intro items
      induction items with
      | nil => rfl
      | cons item rest ih => exact ih
    refine Bool.and_eq_true_iff.mpr ⟨decide_eq_true ?_, hfields _⟩
    rw [hkeys]
    exact context.environment.nodup
  have htime : (Json.Value.num context.createdAt.val).wellFormed = true :=
    decide_eq_true context.createdAt.property
  simp [SubmitContext.snapshot, Json.Value.wellFormed, Json.wellFormedFields] at hcaps henv htime ⊢
  exact ⟨henv, hcaps, htime⟩

theorem wellFormed_payload {ucer : UCER} (h : ucer.WellFormed) (context : SubmitContext)
    (listing : List Capability) (jobMeta : JobMeta) :
    (payload ucer (context.snapshot listing) jobMeta).wellFormed = true := by
  have hucer := wellFormed_modelDumpCanonical h
  have hsnapshot := wellFormed_snapshot context listing
  have hpriority : (Json.Value.num jobMeta.priority.val).wellFormed = true :=
    decide_eq_true jobMeta.priority.property
  have htime : (Json.Value.num jobMeta.submittedAt.val).wellFormed = true :=
    decide_eq_true jobMeta.submittedAt.property
  simp [payload, Json.Value.wellFormed, Json.wellFormedFields] at hucer hpriority htime ⊢
  exact ⟨hucer, hsnapshot, hpriority, htime⟩

/-- **The payload arrives as it was sent.** -/
theorem decodeMessage_submitJob {ucer : UCER} (h : ucer.WellFormed) (context : SubmitContext)
    (listing : List Capability) (jobMeta : JobMeta) :
    decodeMessage (submitJob ucer context listing jobMeta).data =
      some (payload ucer (context.snapshot listing) jobMeta) := by
  rw [decodeMessage, submitJob, Text.utf8Decode_utf8, Option.bind_some,
    Json.loads_dumpsPlain (wellFormed_payload h context listing jobMeta)]

/-! ## What is rebuilt -/

theorem ofDump_modelDump (step : ExecutionStep) :
    ExecutionStep.ofDump step.modelDump = .ok step := by
  obtain ⟨stepId, adapter, command, changes⟩ := step
  cases adapter <;> cases changes <;> rfl

theorem validateCapability_value (cap : Capability) :
    validateCapability (.str cap.value) = .ok cap := by
  cases cap <;> rfl

theorem validateList_sortedValues (caps : Finset Capability) :
    validateList validateCapability (.arr ((Capability.sortedValues caps).map .str)) =
      .ok (Capability.inOrder.filter (· ∈ caps)) := by
  rw [Capability.sortedValues, List.map_map]
  exact mapM_eq_ok validateCapability_value _

theorem toFinset_inOrder (caps : Finset Capability) :
    (Capability.inOrder.filter (· ∈ caps)).toFinset = caps := by
  ext cap
  simp [Capability.mem_inOrder]

/-- **The record that is rebuilt**: the fields of the dump are there, all others are new. -/
theorem ofCanonical_modelDumpCanonical (now : Int) (ucer : UCER) :
    UCER.ofCanonical now (.obj ucer.modelDumpCanonical) = .ok {
      commandId := ucer.commandId
      timestamp := now
      intent := ucer.intent
      steps := ucer.steps
      requiredCapabilities := ucer.requiredCapabilities
      stateHash := ucer.stateHash } := by
  have hsteps : validateList ExecutionStep.ofDump (.arr (ucer.steps.map ExecutionStep.modelDump)) =
      .ok ucer.steps := mapM_eq_ok ofDump_modelDump ucer.steps
  have hcaps := validateList_sortedValues ucer.requiredCapabilities
  have hstate : validateOptional validateStr (jsonOfOption ucer.stateHash) = .ok ucer.stateHash := by
    cases ucer.stateHash with
    | none => rfl
    | some s => rfl
  show (do
    let steps ← validateList ExecutionStep.ofDump (.arr (ucer.steps.map ExecutionStep.modelDump))
    let caps ← validateList validateCapability
      (.arr ((Capability.sortedValues ucer.requiredCapabilities).map .str))
    let stateHash ← validateOptional validateStr (jsonOfOption ucer.stateHash)
    return {
      commandId := ucer.commandId
      timestamp := now
      intent := ucer.intent
      steps := steps
      requiredCapabilities := caps.toFinset
      stateHash := stateHash } : Except PyError UCER) = _
  rw [hsteps, hcaps, hstate]
  show Except.ok _ = _
  rw [toFinset_inOrder]

/-! ## Trust -/

variable {crypto : Crypto} {signer publicKey : String}

/-- Trust survives the queue: a worker rebuilds a record with the same hash, which
`verify_integrity` judges as it judges the record submitted. -/
def TrustSurvives (crypto : Crypto) (publicKey : String) (ucer : UCER) (message : Message)
    (now : Int) : Prop :=
  ∃ data dump rebuilt, decodeMessage message.data = some data ∧ getItem data "ucer" = .ok dump ∧
    UCER.ofCanonical now dump = .ok rebuilt ∧
    rebuilt.getCanonicalHash crypto = ucer.getCanonicalHash crypto ∧
    rebuilt.verifyIntegrity crypto publicKey = ucer.verifyIntegrity crypto publicKey

/-- What is rebuilt has the hash of the record submitted and no signature. -/
theorem trustSurvives_submitJob {ucer : UCER} (h : ucer.WellFormed) (context : SubmitContext)
    (listing : List Capability) (jobMeta : JobMeta) (now : Int) :
    TrustSurvives crypto publicKey ucer (submitJob ucer context listing jobMeta) now ↔
      ucer.verifyIntegrity crypto publicKey = .ok false := by
  have hdecode := decodeMessage_submitJob h context listing jobMeta
  have hrebuilt := ofCanonical_modelDumpCanonical now ucer
  constructor
  · rintro ⟨data, dump, rebuilt, hdata, hdump, hof, _, hverify⟩
    obtain rfl := Option.some.inj (hdecode.symm.trans hdata)
    obtain rfl := Except.ok.inj hdump
    obtain rfl := Except.ok.inj (hrebuilt.symm.trans hof)
    exact hverify.symm
  · intro hfalse
    exact ⟨_, _, _, hdecode, rfl, hrebuilt, getCanonicalHash_congr rfl, hfalse.symm⟩

theorem verifySignature_of_signer (payload : String) :
    verifySignature crypto publicKey payload (signPayload crypto signer payload) =
      match crypto.loadPemPublicKey publicKey with
      | some message => .error (.valueError message)
      | none => .ok (crypto.pssVerify publicKey (Text.utf8 payload)
          (crypto.pssSign signer (Text.utf8 payload))) := by
  have hdecode : Text.b64decode (signPayload crypto signer payload).toList =
      .ok (crypto.pssSign signer (Text.utf8 payload)) := by
    rw [signPayload, String.toList_ofList, Text.b64decode_b64encode]
  cases hload : crypto.loadPemPublicKey publicKey with
  | some message => simp only [verifySignature, hload]
  | none => simp only [verifySignature, hload, hdecode]

/-- What `verify_integrity` says of a record just signed, by whomever. -/
theorem verifyIntegrity_of_signer (hhash : ∀ data, crypto.sha256 data ≠ "")
    (hsign : ∀ payload, crypto.pssSign signer payload ≠ []) (ucer : UCER) :
    (ucer.signIntent crypto signer).verifyIntegrity crypto publicKey =
      match crypto.loadPemPublicKey publicKey with
      | some message => .error (.valueError message)
      | none => .ok (crypto.pssVerify publicKey (Text.utf8 (ucer.getCanonicalHash crypto))
          (crypto.pssSign signer (Text.utf8 (ucer.getCanonicalHash crypto)))) := by
  have hsignature : signPayload crypto signer (ucer.getCanonicalHash crypto) ≠ "" := by
    intro hempty
    have hnil := congrArg String.toList hempty
    rw [signPayload, String.toList_ofList] at hnil
    exact Text.b64encode_ne_nil (hsign _) hnil
  have hne : ucer.getCanonicalHash crypto ≠ "" := hhash _
  show (if _ then Except.ok false else if _ then Except.ok false else _) = _
  rw [if_neg (not_or.mpr ⟨hsignature, hne⟩),
    if_neg (not_not.mpr (getCanonicalHash_signIntent ucer))]
  exact verifySignature_of_signer _

/-- **Trust survives the queue only where there was none.**  A record signed by whomever is
judged alike before and after the queue exactly when the public key loads and rejects the
signature. -/
theorem trustSurvives_iff (hhash : ∀ data, crypto.sha256 data ≠ "")
    (hsign : ∀ payload, crypto.pssSign signer payload ≠ []) {ucer : UCER}
    (hjson : ucer.WellFormed) (context : SubmitContext) (listing : List Capability)
    (jobMeta : JobMeta) (now : Int) :
    TrustSurvives crypto publicKey (ucer.signIntent crypto signer)
        (submitJob (ucer.signIntent crypto signer) context listing jobMeta) now ↔
      crypto.loadPemPublicKey publicKey = none ∧
        crypto.pssVerify publicKey (Text.utf8 (ucer.getCanonicalHash crypto))
          (crypto.pssSign signer (Text.utf8 (ucer.getCanonicalHash crypto))) = false := by
  have hjson' : (ucer.signIntent crypto signer).WellFormed := hjson
  rw [trustSurvives_submitJob hjson' context listing jobMeta now,
    verifyIntegrity_of_signer hhash hsign]
  cases crypto.loadPemPublicKey publicKey with
  | some message => simp
  | none => simp

/-- A record with one step. -/
def echoRecord : UCER where
  commandId := "job"
  intent := "say hi"
  steps := [{ stepId := "s", adapter := .bash, command := "echo hi" }]

theorem wellFormed_echoRecord : echoRecord.WellFormed := by
  intro step hstep changes hchanges
  obtain rfl := List.mem_singleton.mp hstep
  exact absurd hchanges (by simp)

/-- The number one. -/
def literalOne : Json.Literal := ⟨⟨['1'], by decide, by simp [Json.isNumChar]⟩, rfl⟩

def someContext : SubmitContext where
  executionId := "e"
  capabilities := {.exec}
  environment := .empty
  workingDir := "/tmp"
  createdAt := literalOne

def someMeta : JobMeta where
  priority := literalOne
  submittedAt := literalOne
  traceId := "t"

/-- Primitives in which a key accepts the signatures of the key of the same name only. -/
def Crypto.keyed : Crypto where
  sha256 := Crypto.transparent.sha256
  pssSign privateKey payload := 0 :: (Text.utf8 privateKey ++ payload)
  pssVerify publicKey payload signature := signature == 0 :: (Text.utf8 publicKey ++ payload)

theorem Crypto.keyed_rejects {publicKey signer : String} (h : signer ≠ publicKey)
    (payload : List UInt8) :
    Crypto.keyed.pssVerify publicKey payload (Crypto.keyed.pssSign signer payload) = false := by
  refine beq_eq_false_iff_ne.mpr fun heq => h ?_
  exact Text.utf8_injective (List.append_cancel_right (List.cons.inj heq).2)

/-- A record that a stranger signed fails `verify_integrity` on both sides of the queue. -/
theorem stranger_rejected_twice :
    TrustSurvives .keyed "control plane" (echoRecord.signIntent .keyed "stranger")
      (submitJob (echoRecord.signIntent .keyed "stranger") someContext [.exec] someMeta) 0 := by
  have hhash : ∀ data, Crypto.keyed.sha256 data ≠ "" :=
    (Crypto.transparent_sound "" "").sha256_ne_empty
  have hsign : ∀ payload, Crypto.keyed.pssSign "stranger" payload ≠ [] :=
    fun _ => List.cons_ne_nil _ _
  have hkeys : "stranger" ≠ "control plane" := by decide
  exact (trustSurvives_iff hhash hsign wellFormed_echoRecord someContext [.exec] someMeta 0).mpr
    ⟨rfl, Crypto.keyed_rejects hkeys _⟩

/-- A record that the control plane signed verifies when it is submitted, and no longer when
a worker has it. -/
theorem signed_record_distrusted :
    ¬ TrustSurvives .transparent "public" (echoRecord.signIntent .transparent "private")
      (submitJob (echoRecord.signIntent .transparent "private") someContext [.exec] someMeta)
      0 := by
  have hjson : (echoRecord.signIntent .transparent "private").WellFormed := wellFormed_echoRecord
  rw [trustSurvives_submitJob hjson,
    verifyIntegrity_signIntent (Crypto.transparent_sound "private" "public")]
  simp

end Ucser
