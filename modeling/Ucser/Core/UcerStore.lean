import Ucser.Core.GraphStore
import Ucser.Core.Scheduler
import Ucser.Lib.DatetimeParse

/-!
# Saved records: `model_dump_json` and `model_validate_json` of a `UCER`

The two stores keep a record as the JSON that pydantic writes, and read it back with pydantic.

* `TraceRecord`, `UcerRecord` — `ExecutionTrace` and `UCER` with all their fields.
* `modelDump`, `ofDump` — what pydantic writes and what it accepts; a field that is left out
  takes its default.
* `modelValidateJson_modelDumpJson` — **a record is read back.**
* `SQLiteDatabase.saveRecord`, `NATSDatabase.saveRecord` — the two stores of records.
* `lastRecord` — what they are for: the record last saved under each identifier.
* `getRecord_eq_last` — **both stores give it back.**
-/

namespace Ucser

/-- `ExecutionTrace` with all its fields.  A duration is the literal of its double. -/
structure TraceRecord where
  stepId : String
  adapter : String
  command : String
  stdout : String
  stderr : String
  exitCode : Int
  durationMs : Json.Literal
  sideEffects : List (String × Json.Value) := []
  timestamp : Datetime

/-- `UCER` with all its fields. -/
structure UcerRecord where
  commandId : String
  timestamp : Datetime
  intent : String
  steps : List ExecutionStep
  traces : List TraceRecord := []
  requiredCapabilities : Finset Capability := ∅
  stateHash : Option String := none
  status : String := "pending"
  canonicalHash : Option String := none
  controlSignature : Option String := none
  executionSignature : Option String := none
  executionPubKey : Option String := none

/-! ## Writing -/

/-- The order in which a set of capabilities is iterated. -/
structure SetOrder where
  list : Finset Capability → List Capability
  toFinset_list : ∀ caps, (list caps).toFinset = caps

/-- A trace as `model_dump` gives it. -/
def TraceRecord.modelDump (trace : TraceRecord) : Json.Value :=
  .obj [("step_id", .str trace.stepId), ("adapter", .str trace.adapter),
    ("command", .str trace.command), ("stdout", .str trace.stdout), ("stderr", .str trace.stderr),
    ("exit_code", .num (.ofInt trace.exitCode)), ("duration_ms", .num trace.durationMs.val),
    ("side_effects", .obj trace.sideEffects), ("timestamp", .str trace.timestamp.isoformat)]

/-- A record as `model_dump` gives it. -/
def UcerRecord.modelDump (order : SetOrder) (ucer : UcerRecord) : Json.Value :=
  .obj [("command_id", .str ucer.commandId), ("timestamp", .str ucer.timestamp.isoformat),
    ("intent", .str ucer.intent), ("steps", .arr (ucer.steps.map ExecutionStep.modelDump)),
    ("traces", .arr (ucer.traces.map TraceRecord.modelDump)),
    ("required_capabilities",
      .arr (((order.list ucer.requiredCapabilities).map Capability.value).map .str)),
    ("state_hash", jsonOfOption ucer.stateHash), ("status", .str ucer.status),
    ("canonical_hash", jsonOfOption ucer.canonicalHash),
    ("control_signature", jsonOfOption ucer.controlSignature),
    ("execution_signature", jsonOfOption ucer.executionSignature),
    ("execution_pub_key", jsonOfOption ucer.executionPubKey)]

/-- `model_dump_json()`. -/
def UcerRecord.modelDumpJson (order : SetOrder) (ucer : UcerRecord) : String :=
  Json.dumpsCompact (ucer.modelDump order)

/-! ## Reading -/

/-- The integer of a numeral. -/
def intOf? : List Char → Option Int
  | '-' :: cs => if cs.all Char.isDigit then some (-Nat.ofDigitChars 10 cs 0) else none
  | cs => if cs.all Char.isDigit then some (Nat.ofDigitChars 10 cs 0) else none

/-- A field of type `int`. -/
def validateInt (value : Json.Value) : Except PyError Int :=
  match value with
  | .num n =>
      match intOf? n.text with
      | some i => .ok i
      | none => .error (.exception "ValidationError")
  | _ => .error (.exception "ValidationError")

/-- A field of type `float`. -/
def validateFloat (value : Json.Value) : Except PyError Json.Literal :=
  match value with
  | .num n =>
      if h : n.IsLiteral then .ok ⟨n, h⟩
      else .error (.exception "ValidationError")
  | _ => .error (.exception "ValidationError")

/-- A field of type `datetime`. -/
def validateDatetime (value : Json.Value) : Except PyError Datetime :=
  match value with
  | .str text =>
      match Datetime.ofIsoformat? text with
      | some d => .ok d
      | none => .error (.exception "ValidationError")
  | _ => .error (.exception "ValidationError")

/-- `ExecutionTrace.model_validate`; `now` is the time a trace without one gets. -/
def TraceRecord.ofDump (now : Datetime) (dump : Json.Value) : Except PyError TraceRecord := do
  let stepId ← validateField dump "step_id" required validateStr
  let adapter ← validateField dump "adapter" required validateStr
  let command ← validateField dump "command" required validateStr
  let stdout ← validateField dump "stdout" required validateStr
  let stderr ← validateField dump "stderr" required validateStr
  let exitCode ← validateField dump "exit_code" required validateInt
  let durationMs ← validateField dump "duration_ms" required validateFloat
  let sideEffects ← validateField dump "side_effects" (.ok []) validateDict
  let timestamp ← validateField dump "timestamp" (.ok now) validateDatetime
  return ⟨stepId, adapter, command, stdout, stderr, exitCode, durationMs, sideEffects, timestamp⟩

/-- What is made up for fields that are left out. -/
structure Fresh where
  commandId : String
  now : Datetime

/-- `UCER.model_validate`. -/
def UcerRecord.ofDump (fresh : Fresh) (dump : Json.Value) : Except PyError UcerRecord := do
  let commandId ← validateField dump "command_id" (.ok fresh.commandId) validateStr
  let timestamp ← validateField dump "timestamp" (.ok fresh.now) validateDatetime
  let intent ← validateField dump "intent" required validateStr
  let steps ← validateField dump "steps" required (validateList ExecutionStep.ofDump)
  let traces ← validateField dump "traces" (.ok []) (validateList (TraceRecord.ofDump fresh.now))
  let capabilities ← validateField dump "required_capabilities" (.ok [])
    (validateList validateCapability)
  let stateHash ← validateField dump "state_hash" (.ok none) (validateOptional validateStr)
  let status ← validateField dump "status" (.ok "pending") validateStr
  let canonicalHash ← validateField dump "canonical_hash" (.ok none) (validateOptional validateStr)
  let controlSignature ←
    validateField dump "control_signature" (.ok none) (validateOptional validateStr)
  let executionSignature ←
    validateField dump "execution_signature" (.ok none) (validateOptional validateStr)
  let executionPubKey ←
    validateField dump "execution_pub_key" (.ok none) (validateOptional validateStr)
  return ⟨commandId, timestamp, intent, steps, traces, capabilities.toFinset, stateHash, status,
    canonicalHash, controlSignature, executionSignature, executionPubKey⟩

/-- `UCER.model_validate_json`. -/
def UcerRecord.modelValidateJson (fresh : Fresh) (text : String) : Except PyError UcerRecord :=
  match Json.loads text with
  | some dump => ofDump fresh dump
  | none => .error (.exception "ValidationError")

/-! ## A record is read back -/

/-- The data of the record is data that Python can hold, and its timestamps are naive, as those
of `datetime.now` and `datetime.utcnow` are. -/
structure UcerRecord.WellFormed (ucer : UcerRecord) : Prop where
  timestamp : ucer.timestamp.offset = none
  steps : ∀ step ∈ ucer.steps, ∀ changes, step.expectedStateChanges = some changes →
    (Json.Value.obj changes).wellFormed = true
  traces : ∀ trace ∈ ucer.traces, trace.timestamp.offset = none ∧
    (Json.Value.obj trace.sideEffects).wellFormed = true

section RoundTrip

variable {fresh : Fresh} {order : SetOrder} {ucer : UcerRecord}

theorem intOf?_intText (i : Int) : intOf? (Json.intText i) = some i := by
  have hall : (Nat.toDigits 10 i.natAbs).all Char.isDigit = true :=
    List.all_eq_true.mpr (Json.isDigit_toDigits i.natAbs)
  unfold Json.intText
  split_ifs with hneg
  · rw [intOf?, if_pos hall, Nat.ofDigitChars_ten_toDigits]
    exact congrArg some (by omega)
  · have hminus := Json.minus_notMem_toDigits i.natAbs
    rw [intOf?, if_pos hall, Nat.ofDigitChars_ten_toDigits]
    · exact congrArg some (by omega)
    · rintro cs hcs
      rw [hcs] at hminus
      exact hminus List.mem_cons_self

theorem validateInt_ofInt (i : Int) : validateInt (.num (.ofInt i)) = .ok i := by
  rw [validateInt, Json.Number.ofInt]
  dsimp only
  rw [intOf?_intText]

theorem validateFloat_literal (x : Json.Literal) : validateFloat (.num x.val) = .ok x :=
  dif_pos x.property

theorem validateDatetime_isoformat {d : Datetime} (h : d.offset = none) :
    validateDatetime (.str d.isoformat) = .ok d := by
  rw [validateDatetime, Datetime.ofIsoformat?_isoformat h]

theorem TraceRecord.ofDump_modelDump (now : Datetime) {trace : TraceRecord}
    (h : trace.timestamp.offset = none) : ofDump now trace.modelDump = .ok trace := by
  simp [ofDump, modelDump, validateField, Json.get?, validateStr, validateDict, validateInt_ofInt,
    validateFloat_literal, validateDatetime_isoformat h, bind, Except.bind, pure, Except.pure]

theorem validateTraces (now : Datetime) {traces : List TraceRecord}
    (h : ∀ trace ∈ traces, trace.timestamp.offset = none) :
    validateList (TraceRecord.ofDump now) (.arr (traces.map TraceRecord.modelDump)) =
      .ok traces := by
  rw [validateList]
  induction traces with
  | nil => rfl
  | cons trace rest ih =>
      obtain ⟨htrace, hrest⟩ := List.forall_mem_cons.mp h
      rw [List.map_cons, List.mapM_cons, TraceRecord.ofDump_modelDump now htrace, ih hrest]
      rfl

theorem UcerRecord.ofDump_modelDump (fresh : Fresh) (order : SetOrder) (h : ucer.WellFormed) :
    ofDump fresh (ucer.modelDump order) = .ok ucer := by
  have hsteps : validateList ExecutionStep.ofDump (.arr (ucer.steps.map ExecutionStep.modelDump)) =
      .ok ucer.steps := mapM_eq_ok Ucser.ofDump_modelDump ucer.steps
  have htraces := validateTraces fresh.now fun trace htrace => (h.traces trace htrace).1
  have hcaps : validateList validateCapability
      (.arr (((order.list ucer.requiredCapabilities).map Capability.value).map .str)) =
      .ok (order.list ucer.requiredCapabilities) := by
    rw [List.map_map]
    exact mapM_eq_ok validateCapability_value _
  simp only [ofDump, modelDump, validateField, Json.get?, validateStr, String.reduceEq, ↓reduceIte,
    validateDatetime_isoformat h.timestamp, hsteps, htraces, hcaps, validateOptional_jsonOfOption,
    bind, Except.bind, pure, Except.pure, order.toFinset_list]

theorem TraceRecord.wellFormed_modelDump {trace : TraceRecord}
    (h : (Json.Value.obj trace.sideEffects).wellFormed = true) :
    trace.modelDump.wellFormed = true := by
  have hexit : (Json.Value.num (.ofInt trace.exitCode)).wellFormed = true :=
    decide_eq_true (Json.Number.isLiteral_ofInt trace.exitCode)
  have hduration : (Json.Value.num trace.durationMs.val).wellFormed = true :=
    decide_eq_true trace.durationMs.property
  simp [modelDump, Json.Value.wellFormed, Json.wellFormedFields] at h hexit hduration ⊢
  exact ⟨hexit, hduration, h⟩

theorem wellFormedElems_map {α : Type} {dump : α → Json.Value} {items : List α}
    (h : ∀ item ∈ items, (dump item).wellFormed = true) :
    Json.wellFormedElems (items.map dump) = true := by
  induction items with
  | nil => rfl
  | cons item rest ih =>
      obtain ⟨hitem, hrest⟩ := List.forall_mem_cons.mp h
      exact Bool.and_eq_true_iff.mpr ⟨hitem, ih hrest⟩

theorem UcerRecord.wellFormed_modelDump (order : SetOrder) (h : ucer.WellFormed) :
    (ucer.modelDump order).wellFormed = true := by
  have hsteps : Json.wellFormedElems (ucer.steps.map ExecutionStep.modelDump) = true :=
    wellFormedElems_map fun step hstep => wellFormed_stepDump (h.steps step hstep)
  have htraces : Json.wellFormedElems (ucer.traces.map TraceRecord.modelDump) = true :=
    wellFormedElems_map fun trace htrace =>
      TraceRecord.wellFormed_modelDump (h.traces trace htrace).2
  have hcaps : Json.wellFormedElems ((order.list ucer.requiredCapabilities).map
      (Json.Value.str ∘ Capability.value)) = true := by
    rw [← List.map_map]
    exact Json.wellFormedElems_str _
  simp [modelDump, Json.Value.wellFormed, Json.wellFormedFields, wellFormed_jsonOfOption, hsteps,
    htraces, hcaps]

/-- **A record is read back.** -/
theorem UcerRecord.modelValidateJson_modelDumpJson (fresh : Fresh) (order : SetOrder)
    (h : ucer.WellFormed) : modelValidateJson fresh (ucer.modelDumpJson order) = .ok ucer := by
  rw [modelValidateJson, modelDumpJson, Json.loads_dumpsCompact (wellFormed_modelDump order h)]
  exact ofDump_modelDump fresh order h

end RoundTrip

/-! ## The stores -/

/-- The record last saved under each identifier. -/
def lastRecord (saves : List UcerRecord) : String → Option UcerRecord :=
  saves.foldl (fun m ucer => Function.update m ucer.commandId (some ucer)) fun _ => none

namespace SQLiteDatabase

/-- `_save_ucer_sync`: the column `ucer_json`, with the identifier as the primary key. -/
def saveRecord (order : SetOrder) (table : Dict String String) (ucer : UcerRecord) :
    Dict String String :=
  table.insert ucer.commandId (ucer.modelDumpJson order)

/-- `_get_ucer_sync`. -/
def getRecord (fresh : Fresh) (table : Dict String String) (commandId : String) :
    Except PyError (Option UcerRecord) :=
  match table.get? commandId with
  | none => .ok none
  | some text => (UcerRecord.modelValidateJson fresh text).map some

/-- The table after these saves. -/
def records (order : SetOrder) (saves : List UcerRecord) : Dict String String :=
  saves.foldl (saveRecord order) .empty

end SQLiteDatabase

namespace NATSDatabase

variable (takes : String → Bool)

/-- `save_ucer`: `put` raises for a key the bucket does not take. -/
def saveRecord (order : SetOrder) (bucket : Dict String (List UInt8)) (ucer : UcerRecord) :
    Except PyError (Dict String (List UInt8)) :=
  if takes (key ucer.commandId) then
    .ok (bucket.insert (key ucer.commandId) (Text.utf8 (ucer.modelDumpJson order)))
  else .error (.exception "InvalidKeyError")

/-- `get_ucer`: every exception is caught. -/
def getRecord (fresh : Fresh) (bucket : Dict String (List UInt8)) (commandId : String) :
    Option UcerRecord :=
  if takes (key commandId) then
    match (bucket.get? (key commandId)).bind Text.utf8Decode with
    | none => none
    | some text => (UcerRecord.modelValidateJson fresh text).toOption
  else none

/-- The bucket after these saves; one that raises leaves it. -/
def records (order : SetOrder) (saves : List UcerRecord) : Dict String (List UInt8) :=
  saves.foldl (fun bucket ucer =>
    match saveRecord takes order bucket ucer with
    | .ok bucket' => bucket'
    | .error _ => bucket) .empty

end NATSDatabase

section Stores

variable {saves : List UcerRecord}

theorem lastRecord_concat (saves : List UcerRecord) (ucer : UcerRecord) :
    lastRecord (saves ++ [ucer]) =
      Function.update (lastRecord saves) ucer.commandId (some ucer) := by
  rw [lastRecord, List.foldl_append]
  rfl

/-- **The table holds the last records.**  By induction on the saves, from the last one. -/
theorem SQLiteDatabase.getRecord_eq (fresh : Fresh) (order : SetOrder)
    (h : ∀ ucer ∈ saves, ucer.WellFormed) (commandId : String) :
    getRecord fresh (records order saves) commandId = .ok (lastRecord saves commandId) := by
  induction saves using List.reverseRecOn with
  | nil => rfl
  | append_singleton saves last ih =>
      obtain ⟨hsaves, hlast⟩ := List.forall_mem_append.mp h
      rw [records, List.foldl_append, lastRecord_concat]
      show getRecord fresh (saveRecord order (records order saves) last) commandId = _
      rw [getRecord, saveRecord, Dict.get?_insert]
      by_cases hid : commandId = last.commandId
      · rw [if_pos hid, hid, Function.update_self]
        dsimp only
        rw [UcerRecord.modelValidateJson_modelDumpJson fresh order (hlast last List.mem_cons_self)]
        rfl
      · rw [if_neg hid, Function.update_of_ne hid]
        exact ih hsaves

/-- **The bucket holds the last records**, under the identifiers it takes.  By induction on the
saves, from the last one. -/
theorem NATSDatabase.getRecord_eq {takes : String → Bool} (fresh : Fresh) (order : SetOrder)
    (h : ∀ ucer ∈ saves, ucer.WellFormed) {commandId : String}
    (hkey : takes (key commandId) = true) :
    getRecord takes fresh (records takes order saves) commandId = lastRecord saves commandId := by
  induction saves using List.reverseRecOn with
  | nil =>
      rw [getRecord, if_pos hkey]
      rfl
  | append_singleton saves last ih =>
      obtain ⟨hsaves, hlast⟩ := List.forall_mem_append.mp h
      have ih := ih hsaves
      rw [getRecord, if_pos hkey] at ih
      rw [records, List.foldl_append, lastRecord_concat, getRecord, if_pos hkey]
      rw [records] at ih
      simp only [List.foldl_cons, List.foldl_nil]
      by_cases hid : commandId = last.commandId
      · subst hid
        rw [saveRecord, if_pos hkey]
        dsimp only
        rw [Dict.get?_insert, if_pos rfl, Option.bind_some, Text.utf8Decode_utf8,
          Function.update_self]
        dsimp only
        rw [UcerRecord.modelValidateJson_modelDumpJson fresh order (hlast last List.mem_cons_self)]
        rfl
      · rw [Function.update_of_ne hid, ← ih]
        have hne : key commandId ≠ key last.commandId := fun heq => hid (key_injective heq)
        rw [saveRecord]
        split_ifs
        · dsimp only
          rw [Dict.get?_insert, if_neg hne]
        · rfl

/-- The order of the values. -/
def valueOrder : SetOrder :=
  ⟨fun caps => Capability.inOrder.filter (· ∈ caps), toFinset_inOrder⟩

/-- A record before and after its execution. -/
def someRecords : List UcerRecord :=
  [{ commandId := "a", timestamp := firstSave.timestamp, intent := "list"
     steps := [⟨"s", .bash, "ls", none⟩] },
   { commandId := "a", timestamp := firstSave.timestamp, intent := "list"
     steps := [⟨"s", .bash, "ls", none⟩]
     traces := [{
       stepId := "s", adapter := "bash", command := "ls", stdout := "x", stderr := ""
       exitCode := 0, durationMs := literalOne, timestamp := secondSave.timestamp }]
     requiredCapabilities := {.exec}, status := "completed" }]

theorem wellFormed_someRecords : ∀ ucer ∈ someRecords, ucer.WellFormed := by
  refine List.forall_mem_cons.mpr ⟨⟨rfl, ?_, List.forall_mem_nil _⟩,
    List.forall_mem_singleton.mpr ⟨rfl, ?_, List.forall_mem_singleton.mpr ⟨rfl, rfl⟩⟩⟩
  · exact List.forall_mem_singleton.mpr fun changes h => by cases h
  · exact List.forall_mem_singleton.mpr fun changes h => by cases h

end Stores

end Ucser
