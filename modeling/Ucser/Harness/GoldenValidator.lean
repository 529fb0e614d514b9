import Ucser.Harness.ReplayEngine

/-!
# Golden records: `tests/harness/golden_validator.py`

A golden hash is taken of what a record is to do: its intent, and the adapter and the command of
each step.

* `hashUcerStructure`, `validateGolden` — the hash, and the comparison with a golden one.
* `Structure`, `validateGolden_iff` — **what is compared**.
* `validateGolden_executed` — **an execution, and the record it leaves in the database, match the
  golden records of what was submitted, and no others**.
-/

namespace Ucser
namespace GoldenValidator

open TraceComparator (strip)

/-- What is hashed of a step. -/
def stepData (step : ExecutionStep) : Json.Value :=
  .obj [("adapter", .str step.adapter.name), ("command", .str (strip step.command))]

/-- What is hashed of a record. -/
def recordData (ucer : UCER) : Json.Value :=
  .obj [("intent", .str ucer.intent), ("steps", .arr (ucer.steps.map stepData))]

/-- `hash_ucer_structure`. -/
def hashUcerStructure (crypto : Crypto) (ucer : UCER) : String :=
  crypto.sha256 (Text.utf8 (Json.dumpsSorted (recordData ucer)))

/-- `validate_golden`. -/
def validateGolden (crypto : Crypto) (ucer : UCER) (expectedHash : String) : Bool :=
  hashUcerStructure crypto ucer = expectedHash

/-! ## What is compared -/

/-- What a record is to do, up to the blanks around the commands. -/
def Structure (ucer : UCER) : String × List (Adapter × String) :=
  (ucer.intent, ucer.steps.map fun step => (step.adapter, strip step.command))

variable {crypto : Crypto} {ucer golden : UCER}

theorem wellFormed_steps (steps : List ExecutionStep) :
    Json.wellFormedElems (steps.map stepData) = true := by
  induction steps with
  | nil => rfl
  | cons step steps ih =>
      simp [Json.wellFormedElems, ih, stepData, Json.Value.wellFormed, Json.wellFormedFields]

theorem wellFormed_recordData (ucer : UCER) : (recordData ucer).wellFormed = true := by
  simp [recordData, Json.Value.wellFormed, Json.wellFormedFields, wellFormed_steps]

theorem adapter_le_command : "adapter" ≤ "command" := by decide

theorem intent_le_steps : "intent" ≤ "steps" := by decide

/-- The keys are written in order anyway. -/
theorem sortElems_steps (steps : List ExecutionStep) :
    Json.sortElems (steps.map stepData) = steps.map stepData := by
  induction steps with
  | nil => rfl
  | cons step steps ih =>
      have hle : Json.KeyLE ("adapter", Json.Value.str step.adapter.name)
          ("command", Json.Value.str (strip step.command)) := adapter_le_command
      simp [Json.sortElems, ih, stepData, Json.sortKeys, Json.sortFields, hle]

theorem sortKeys_recordData (ucer : UCER) : Json.sortKeys (recordData ucer) = recordData ucer := by
  have hle : Json.KeyLE ("intent", Json.Value.str ucer.intent)
      ("steps", Json.Value.arr (ucer.steps.map stepData)) := intent_le_steps
  simp [recordData, Json.sortKeys, Json.sortFields, sortElems_steps, hle]

/-- What is hashed of an adapter and a command without blanks around it. -/
def pairData (pair : Adapter × String) : Json.Value :=
  .obj [("adapter", .str pair.1.name), ("command", .str pair.2)]

theorem pairData_injective : Function.Injective pairData := by
  rintro ⟨adapter, command⟩ ⟨adapter', command'⟩ h
  simpa [pairData, Adapter.name_injective.eq_iff] using h

/-- The hashed data and the structure determine each other. -/
theorem recordData_eq (ucer : UCER) :
    recordData ucer = .obj [("intent", .str (Structure ucer).1),
      ("steps", .arr ((Structure ucer).2.map pairData))] := by
  rw [Structure, List.map_map]
  rfl

theorem recordData_inj :
    recordData ucer = recordData golden ↔ Structure ucer = Structure golden := by
  rw [recordData_eq, recordData_eq, Prod.ext_iff,
    ← (List.map_injective_iff.mpr pairData_injective).eq_iff]
  simp

/-- **What is compared**: the intent, and the adapter and the command of each step in their
order, up to the blanks around the commands. -/
theorem validateGolden_iff (h : Function.Injective crypto.sha256) :
    validateGolden crypto ucer (hashUcerStructure crypto golden) = true ↔
      Structure ucer = Structure golden := by
  rw [validateGolden, decide_eq_true_iff, hashUcerStructure, hashUcerStructure, h.eq_iff,
    Text.utf8_injective.eq_iff,
    Json.dumpsSorted_inj (wellFormed_recordData ucer) (wellFormed_recordData golden),
    sortKeys_recordData, sortKeys_recordData, recordData_inj]

/-! ## From the submission to the replay -/

section Loop

variable {auditors : Auditors} {world : World} {isolation : Isolation} {context : ExecutionContext}

/-- A replay writes nothing but traces. -/
theorem structure_replaySteps (steps : List ExecutionStep) (run : Run) :
    Structure (replaySteps auditors world isolation context steps run).1.ucer =
      Structure run.ucer := by
  induction steps generalizing run with
  | nil => rfl
  | cons step steps ih =>
      rw [replaySteps]
      obtain ⟨result, _, _, h⟩ | ⟨handed, e, _, h⟩ := replayStep_cases step run
      · rw [h]
        exact ih _
      · rw [h]

end Loop

variable {facade : Facade} {world : World} {context context' : Option ExecutionContext}
  {allowedCaps : Option (Finset Capability)}

/-- What is replayed is what has been stored. -/
theorem structure_replay {later : ReplayWorld} {stored : List UCER} {ucerId : String}
    {original record : UCER} (hstored : getUcer stored ucerId = some original)
    (h : (Facade.replay facade later stored ucerId context').2 = .ok record) :
    Structure record = Structure original := by
  unfold Facade.replay at h
  rw [hstored] at h
  split at h
  · exact absurd h (by simp)
  dsimp only at h
  split at h
  · exact absurd h (by simp)
  split at h
  · exact absurd h (by simp)
  unfold Facade.replayRecord at h
  dsimp only at h
  split at h
  · simp [Except.map] at h
  · rename_i run hrun
    have hloop := congrArg (fun outcome => Structure outcome.1.ucer) hrun
    dsimp only at hloop
    rw [structure_replaySteps] at hloop
    obtain rfl : _ = record := by simpa [Except.map] using h
    exact hloop.symm

/-- What is executed is what has been submitted. -/
theorem structure_executeUcer
    (h : (Facade.executeUcer facade world ucer context allowedCaps).2 = .ok ()) :
    Structure (Facade.executeUcer facade world ucer context allowedCaps).1.ucer =
      Structure ucer := by
  obtain ⟨_, _, _, hucer, _⟩ := Facade.executeUcer_ok h
  rw [hucer]
  unfold Facade.signed
  split_ifs
  · rfl
  · rfl

/-- The records a call that has returned is seen by. -/
inductive Appears (facade : Facade) (world : World) (ucer : UCER)
    (context : Option ExecutionContext) (allowedCaps : Option (Finset Capability)) :
    UCER → Prop where
  /-- It returns this. -/
  | returned :
      Appears facade world ucer context allowedCaps
        (Facade.executeUcer facade world ucer context allowedCaps).1.ucer
  /-- This is in the database, whatever was in it before. -/
  | stored (earlier : List UCER) (record : UCER)
      (h : getUcer
        (earlier ++ (Facade.executeUcer facade world ucer context allowedCaps).1.saved)
        ucer.commandId = some record) :
      Appears facade world ucer context allowedCaps record
  /-- A replay returns this. -/
  | replayed (earlier : List UCER) (later : ReplayWorld) (context' : Option ExecutionContext)
      (record : UCER)
      (h : (Facade.replay facade later
        (earlier ++ (Facade.executeUcer facade world ucer context allowedCaps).1.saved)
        ucer.commandId context').2 = .ok record) :
      Appears facade world ucer context allowedCaps record

/-- **A golden hash follows a record from its submission to its replay.**  What a call returns,
what it leaves in the database, and what a replay of it returns match a golden record if and only
if the record that was submitted has its intent and its steps, whatever the commands have
answered. -/
theorem validateGolden_executed (facade : Facade) (world : World) (ucer golden : UCER)
    (context : Option ExecutionContext) (allowedCaps : Option (Finset Capability))
    (hcrypto : Function.Injective facade.crypto.sha256)
    (hreturned : (Facade.executeUcer facade world ucer context allowedCaps).2 = .ok ())
    {record : UCER} (happears : Appears facade world ucer context allowedCaps record) :
    validateGolden facade.crypto record (hashUcerStructure facade.crypto golden) = true ↔
      Structure ucer = Structure golden := by
  have hexecuted := structure_executeUcer hreturned
  have hrecord : Structure record = Structure ucer := by
    cases happears with
    | returned => exact hexecuted
    | stored earlier record h =>
        have hget := (Facade.getUcer_executeUcer hreturned earlier).symm.trans h
        exact Option.some.inj hget ▸ hexecuted
    | replayed earlier later context' record h =>
        exact (structure_replay (Facade.getUcer_executeUcer hreturned earlier) h).trans hexecuted
  rw [validateGolden_iff hcrypto, hrecord]

/-- A record that has been run in the calm world, against one that declares nothing. -/
theorem validateGolden_echoRecord :
    validateGolden Facade.plainFacade.crypto
        (Facade.executeUcer Facade.plainFacade Engine.calm (Facade.echoRecord {.exec})
          (some Facade.execContext) none).1.ucer
        (hashUcerStructure Facade.plainFacade.crypto (Facade.echoRecord ∅)) = true ↔
      Structure (Facade.echoRecord {.exec}) = Structure (Facade.echoRecord ∅) := by
  apply validateGolden_executed Facade.plainFacade Engine.calm (Facade.echoRecord {.exec})
    (Facade.echoRecord ∅) (some Facade.execContext) none
  · exact (Crypto.transparent_sound "private" "public").sha256_injective
  · exact Facade.executeUcer_echoRecord (Finset.Subset.refl {Capability.exec})
  · exact .returned

end GoldenValidator
end Ucser
