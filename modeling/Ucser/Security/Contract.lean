import Mathlib.Data.List.Perm.Basic
import Ucser.Security.Policy

/-!
# Calling the gate: the decorator of `security/contract.py`

`FormalContract.requires` does not know the parameters of the function it wraps: it takes the
keyword argument `context` or, failing that, hunts through the positional arguments for the
first `ExecutionContext`.

* `Argument`, `huntContext` — what the wrapper sees of a call, and the context it finds.
* `Passing`, `PolicyGate.call` — the two ways of passing the context, and a call of
  `evaluate` through the wrapper.
* `call_eq_evaluate` — **the wrapper judges the context that `evaluate` gets**.
* `gate_verdict` — **the exact verdict of the gate**, and what it has written when it returns.
-/

namespace Ucser

/-! ## The wrapper -/

/-- A positional argument of `evaluate`. -/
inductive Argument where
  | gate
  | record (ucer : UCER)
  | context (c : ExecutionContext)
  | none
  | capabilities (allowedCaps : Finset Capability)

/-- `isinstance(arg, ExecutionContext)`. -/
def Argument.context? : Argument → Option ExecutionContext
  | .context c => some c
  | _ => .none

/-- The context the wrapper finds: `kwargs.get('context')`, or the first positional argument
that is one. -/
def huntContext (keyword : Option ExecutionContext) (args : List Argument) :
    Option ExecutionContext :=
  match keyword with
  | some context => some context
  | none => args.findSome? Argument.context?

/-- How a caller passes `context`, and `allowed_caps` if it is passed by position, too. -/
inductive Passing where
  | keyword
  | position
  | bothByPosition

namespace PolicyGate

variable (auditors : Auditors)

/-- `None`, or a context, as a positional argument. -/
def contextArgument : Option ExecutionContext → Argument
  | some context => .context context
  | none => .none

/-- `None`, or a set of capabilities, as a positional argument. -/
def capabilitiesArgument : Option (Finset Capability) → Argument
  | some allowed => .capabilities allowed
  | none => .none

/-- The positional arguments of a call, the gate itself in front. -/
def positional (passing : Passing) (ucer : UCER) (context : Option ExecutionContext)
    (allowedCaps : Option (Finset Capability)) : List Argument :=
  match passing with
  | .keyword => [.gate, .record ucer]
  | .position => [.gate, .record ucer, contextArgument context]
  | .bothByPosition =>
      [.gate, .record ucer, contextArgument context, capabilitiesArgument allowedCaps]

/-- `kwargs.get('context')`. -/
def keywordContext (passing : Passing) (context : Option ExecutionContext) :
    Option ExecutionContext :=
  match passing with
  | .keyword => context
  | _ => none

/-- A call of the decorated `evaluate`: the record afterwards, and whether it returned. -/
def call (passing : Passing) (ucer : UCER) (context : Option ExecutionContext)
    (allowedCaps : Option (Finset Capability)) : UCER × Except PyError Unit :=
  let found := huntContext (keywordContext passing context)
    (positional passing ucer context allowedCaps)
  match requires {.exec} found (.ok ()) with
  | .error e => (ucer, .error e)
  | .ok () => evaluateBody auditors ucer context allowedCaps

/-- The wrapper finds the context that `evaluate` gets. -/
theorem huntContext_eq (passing : Passing) (ucer : UCER) (context : Option ExecutionContext)
    (allowedCaps : Option (Finset Capability)) :
    huntContext (keywordContext passing context)
      (positional passing ucer context allowedCaps) = context := by
  cases passing with
  | keyword =>
      cases context with
      | none => rfl
      | some c => rfl
  | position =>
      cases context with
      | none => rfl
      | some c => rfl
  | bothByPosition =>
      cases context with
      | none =>
          cases allowedCaps with
          | none => rfl
          | some allowed => rfl
      | some c => rfl

/-- **The wrapper judges the context that `evaluate` gets**, however it is passed. -/
theorem call_eq_evaluate (passing : Passing) (ucer : UCER) (context : Option ExecutionContext)
    (allowedCaps : Option (Finset Capability)) :
    call auditors passing ucer context allowedCaps =
      evaluate auditors ucer context allowedCaps := by
  have hfound := huntContext_eq passing ucer context allowedCaps
  unfold call
  generalize huntContext (keywordContext passing context)
    (positional passing ucer context allowedCaps) = found at hfound ⊢
  subst hfound
  rfl

/-! ## The verdict -/

variable {auditors} {steps steps' : List ExecutionStep}

/-- The union of the audits does not depend on the order of the steps. -/
theorem auditedCapabilities_perm (h : steps.Perm steps') :
    auditedCapabilities auditors steps = auditedCapabilities auditors steps' := by
  ext c
  rw [mem_auditedCapabilities, mem_auditedCapabilities]
  simp only [h.mem_iff]

theorem Accepts.perm {context : ExecutionContext} {allowedCaps : Option (Finset Capability)}
    (h : Accepts auditors context allowedCaps steps) (hperm : steps.Perm steps') :
    Accepts auditors context allowedCaps steps' :=
  ⟨h.1, h.2.1, fun step hstep => h.2.2 step (hperm.mem_iff.mpr hstep)⟩

/-- **The exact verdict of the gate.**  A call returns if and only if the context may execute,
an explicit set stays inside the context, and the audit of every step stays inside the
effective set and judges the step safe; any other call raises `PermissionError`.  When it
returns, nothing of the record has changed but that the audits of all steps have joined its
required capabilities, in whatever order the steps stand.  Sets of capabilities are values here:
the record's set, which the gate updates, is not one object with `allowed_caps` or with the
capabilities of the context. -/
theorem gate_verdict (auditors : Auditors) (passing : Passing) (ucer : UCER)
    (context : ExecutionContext) (allowedCaps : Option (Finset Capability)) :
    let outcome := call auditors passing ucer (some context) allowedCaps
    let effective := allowedCaps.getD context.capabilities
    (outcome.2 = .ok () ↔ .exec ∈ context.capabilities ∧
      (∀ allowed ∈ allowedCaps, allowed ⊆ context.capabilities) ∧
      ∀ step ∈ ucer.steps, (auditStep auditors step).capabilities ⊆ effective ∧
        (auditStep auditors step).isSafe = true) ∧
    (outcome.2 = .ok () ∨ ∃ reason, outcome.2 = .error (.permissionError reason)) ∧
    (outcome.2 = .ok () →
      (∃ caps, outcome.1 = { ucer with requiredCapabilities := caps }) ∧
      (∀ c, c ∈ outcome.1.requiredCapabilities ↔ c ∈ ucer.requiredCapabilities ∨
        ∃ step ∈ ucer.steps, c ∈ (auditStep auditors step).capabilities) ∧
      ∀ steps, steps.Perm ucer.steps →
        let reordered := call auditors passing { ucer with steps := steps } (some context)
          allowedCaps
        reordered.2 = .ok () ∧
          reordered.1.requiredCapabilities = outcome.1.requiredCapabilities) := by
  intro outcome effective
  have houtcome : outcome = evaluate auditors ucer (some context) allowedCaps :=
    call_eq_evaluate auditors passing ucer (some context) allowedCaps
  rw [houtcome]
  refine ⟨evaluate_eq_ok_iff, ?_, fun hok => ?_⟩
  · cases hverdict : (evaluate auditors ucer (some context) allowedCaps).2 with
    | ok u => exact Or.inl rfl
    | error e =>
        obtain ⟨reason, rfl⟩ := evaluate_error hverdict
        exact Or.inr ⟨reason, rfl⟩
  · have haccepts := evaluate_eq_ok_iff.mp hok
    rw [evaluate_ok haccepts]
    refine ⟨⟨_, rfl⟩, fun c => ?_, fun steps hperm => ?_⟩
    · rw [Finset.mem_union, mem_auditedCapabilities]
    · intro reordered
      have hreordered : reordered =
          evaluate auditors { ucer with steps := steps } (some context) allowedCaps :=
        call_eq_evaluate auditors passing _ (some context) allowedCaps
      rw [hreordered, evaluate_ok (haccepts.perm hperm.symm), auditedCapabilities_perm hperm]
      exact ⟨rfl, rfl⟩

end PolicyGate
end Ucser
