import Mathlib.Data.Finset.Lattice.Lemmas
import Ucser.Core.Pipeline
import Ucser.Lib.Retry
import Ucser.Semantic.Parser

/-!
# The semantic compiler: `semantic/compiler.py`

A client turns an intent into a dictionary, pydantic the dictionary into a record, and a
failure of the second kind asks for another answer, up to three in all.  What the record
declares is replaced by what its commands need, and the gate judges it.

The client and pydantic's constructor are parameters: whatever they give is compiled.

* `compileIntent` — `ResilientSemanticCompiler.compile_intent`.
* `resolveUcerCapabilities`, `compile` — the capability mapper and the compiler.
* `resolveUcerCapabilities_eq` — the mapper audits every step as the gate does.
* `compile_eq_ok_iff` — **what the compiler returns**: an answer whose steps the gate accepts,
  with its capabilities replaced by those audited.
-/

namespace Ucser

/-- Is it a `ValueError`?  A `ValidationError` of pydantic is one. -/
def PyError.isValueError : PyError → Bool
  | .valueError _ => true
  | .base64Error _ => true
  | .exception message => message = "ValidationError" || message = "JSONDecodeError"
  | _ => false

/-- The exceptions of `compile`. -/
inductive CompileError where
  /-- An exception of the client or of pydantic, or tenacity's `RetryError`. -/
  | translation (e : PyError)
  /-- `PermissionError("Semantic Security Violation: …")` -/
  | violation (cause : PyError)

/-- What the compiler relies on; every call of the client is numbered. -/
structure Translator where
  /-- `self.client.to_ucer(intent)`. -/
  toUcer : Nat → String → Except PyError (List (String × Json.Value))
  /-- `UCER(**raw_dict)`. -/
  ucer : Nat → List (String × Json.Value) → Except PyError UCER

namespace Translator

variable (translator : Translator) (intent : String)

/-- The body of `compile_intent`. -/
def translate (n : Nat) : Except PyError UCER := do
  let rawDict ← translator.toUcer n intent
  translator.ucer n rawDict

/-- `compile_intent`: `stop_after_attempt(3)`, and a `RetryError` after the last. -/
def compileIntent : Nat × Except PyError UCER :=
  Retry.retry PyError.isValueError (fun _ => .exception "RetryError")
    (translator.translate intent) 2 0

/-- One of the three answers gives the record, and the ones before it are malformed. -/
def Gives (ucer : UCER) : Prop :=
  ∃ k ≤ 2, translator.translate intent k = .ok ucer ∧
    Retry.AskedAgain PyError.isValueError (translator.translate intent) 0 k

variable {translator intent}

theorem compileIntent_eq_ok_iff {ucer : UCER} :
    (translator.compileIntent intent).2 = .ok ucer ↔ translator.Gives intent ucer := by
  constructor
  · intro h
    obtain ⟨k, _, hle, _, hcall, hasked⟩ := Retry.retry_eq_ok_iff.mp
      (Prod.ext (rfl : (translator.compileIntent intent).1 = _) h)
    exact ⟨k, by omega, hcall, hasked⟩
  · rintro ⟨k, hle, hcall, hasked⟩
    exact congrArg Prod.snd (Retry.retry_eq_ok_iff.mpr
      ⟨k, Nat.zero_le k, by omega, rfl, hcall, hasked⟩)

/-- At most three answers are asked for. -/
theorem calls_le (translator : Translator) (intent : String) :
    (translator.compileIntent intent).1 ≤ 3 := by
  have hsettles : Retry.Settles PyError.isValueError (fun _ => .exception "RetryError")
    (translator.translate intent) 0 2 (translator.compileIntent intent) := Retry.retry_settles 2 0
  cases hsettles with
  | returned k _ _ hle _ _ heq => rw [heq]; dsimp only; omega
  | raised k _ _ hle _ _ _ heq => rw [heq]; dsimp only; omega
  | gaveUp _ _ _ heq => rw [heq]

end Translator

/-! ## Capabilities -/

namespace Semantic.CapabilityMapper

variable (auditors : Auditors) (steps : List Ucser.ExecutionStep)

/-- `resolve_ucer_capabilities`. -/
def resolveUcerCapabilities : Finset Capability :=
  steps.foldl (fun totalCaps step =>
    totalCaps ∪ resolveForCommand auditors step.command (some step.adapter)) ∅

theorem foldl_resolve (caps : Finset Capability) :
    steps.foldl (fun totalCaps step =>
      totalCaps ∪ resolveForCommand auditors step.command (some step.adapter)) caps =
      caps ∪ PolicyGate.auditedCapabilities auditors steps := by
  induction steps generalizing caps with
  | nil => exact (Finset.union_empty caps).symm
  | cons step steps ih =>
      have hstep : resolveForCommand auditors step.command (some step.adapter) =
          (PolicyGate.auditStep auditors step).capabilities := by
        simp [resolveForCommand, PolicyGate.auditStep, PolicyGate.auditorOf]
      rw [List.foldl_cons, ih, hstep, Finset.union_assoc]
      rfl

/-- **The mapper audits every step as the gate does.** -/
theorem resolveUcerCapabilities_eq :
    resolveUcerCapabilities auditors steps = PolicyGate.auditedCapabilities auditors steps := by
  rw [resolveUcerCapabilities, foldl_resolve, Finset.empty_union]

end Semantic.CapabilityMapper

/-! ## The compiler -/

/-- `ExecutionContext(capabilities={Capability.EXEC, Capability.FS_READ})`, with the execution
id it gets. -/
def defaultContext (executionId : String) : ExecutionContext := ⟨executionId, {.exec, .fsRead}⟩

/-- `SemanticCompilerFacade.compile`: the answers asked for, and the result. -/
def compile (auditors : Auditors) (translator : Translator) (uuid intent : String)
    (context : Option ExecutionContext) : Nat × Except CompileError UCER :=
  let activeContext := context.getD (defaultContext uuid)
  match translator.compileIntent intent with
  | (calls, .error e) => (calls, .error (.translation e))
  | (calls, .ok ucer) =>
      let resolved := { ucer with requiredCapabilities :=
        Semantic.CapabilityMapper.resolveUcerCapabilities auditors ucer.steps }
      match PolicyGate.evaluate auditors resolved (some activeContext) with
      | (_, .error e) => (calls, .error (.violation e))
      | (evaluated, .ok ()) => (calls, .ok evaluated)

/-- A record as it leaves the compiler. -/
def compiled (auditors : Auditors) (ucer : UCER) : UCER :=
  { ucer with requiredCapabilities := PolicyGate.auditedCapabilities auditors ucer.steps }

section Compile

variable {auditors : Auditors} {translator : Translator} {uuid intent : String}
  {context : Option ExecutionContext} {ucer record : UCER}

theorem compile_of_translated (h : (translator.compileIntent intent).2 = .ok ucer) :
    (compile auditors translator uuid intent context).2 =
      match PolicyGate.evaluate auditors (compiled auditors ucer)
        (some (context.getD (defaultContext uuid))) with
      | (_, .error e) => .error (.violation e)
      | (evaluated, .ok ()) => .ok evaluated := by
  rcases hcall : translator.compileIntent intent with ⟨calls, result⟩
  rw [hcall] at h
  obtain rfl : result = .ok ucer := h
  rw [compile, hcall]
  dsimp only
  rw [Semantic.CapabilityMapper.resolveUcerCapabilities_eq, compiled]
  split <;> rfl

theorem compile_of_accepts (h : (translator.compileIntent intent).2 = .ok ucer)
    (haccepts : PolicyGate.Accepts auditors (context.getD (defaultContext uuid)) none ucer.steps) :
    (compile auditors translator uuid intent context).2 = .ok (compiled auditors ucer) := by
  have hcompiled : PolicyGate.Accepts auditors (context.getD (defaultContext uuid)) none
    (compiled auditors ucer).steps := haccepts
  have hevaluate := PolicyGate.evaluate_ok hcompiled
  rw [compile_of_translated h, hevaluate]
  have hself : PolicyGate.auditedCapabilities auditors ucer.steps ∪
      PolicyGate.auditedCapabilities auditors ucer.steps =
        PolicyGate.auditedCapabilities auditors ucer.steps := Finset.union_self _
  simp only [compiled, hself]

/-- **What the compiler returns.**  An answer of the client, after malformed ones at most; the
gate accepts its steps under the context; and its capabilities are replaced by those audited. -/
theorem compile_eq_ok_iff :
    (compile auditors translator uuid intent context).2 = .ok record ↔
      ∃ ucer, translator.Gives intent ucer ∧
        PolicyGate.Accepts auditors (context.getD (defaultContext uuid)) none ucer.steps ∧
        record = compiled auditors ucer := by
  constructor
  · intro h
    cases htranslated : (translator.compileIntent intent).2 with
    | error e =>
        rcases hcall : translator.compileIntent intent with ⟨calls, result⟩
        rw [hcall] at htranslated
        obtain rfl : result = .error e := htranslated
        rw [compile, hcall] at h
        exact absurd h (by simp)
    | ok ucer =>
        have hgives := Translator.compileIntent_eq_ok_iff.mp htranslated
        by_cases haccepts : PolicyGate.Accepts auditors (context.getD (defaultContext uuid)) none
            ucer.steps
        · rw [compile_of_accepts htranslated haccepts] at h
          exact ⟨ucer, hgives, haccepts, (Except.ok.inj h).symm⟩
        · rw [compile_of_translated htranslated] at h
          rcases hevaluate : PolicyGate.evaluate auditors (compiled auditors ucer)
            (some (context.getD (defaultContext uuid))) with ⟨evaluated, e | _⟩
          · rw [hevaluate] at h
            exact absurd h (by simp)
          · exact absurd (PolicyGate.evaluate_eq_ok_iff.mp (congrArg Prod.snd hevaluate)) haccepts
  · rintro ⟨ucer, hgives, haccepts, rfl⟩
    exact compile_of_accepts (Translator.compileIntent_eq_ok_iff.mpr hgives) haccepts

end Compile
end Ucser
