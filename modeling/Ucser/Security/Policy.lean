import Ucser.Core.Ucer
import Ucser.Security.Auditor

/-!
# The policy gate: `security/contract.py` and `security/policy.py`

`PolicyGate.evaluate` checks that the context may execute at all, that an
explicit set of allowed capabilities stays inside it, and then audits the steps
one after another, writing what each audit finds into the record before judging
it.

* `requires`, `evaluate` — the contract decorator and the gate.
* `Accepts` — what the gate accepts: every step's audit inside the allowed set,
  and judged safe.
* `evaluate_eq_ok_iff` — **the gate returns exactly when it accepts**, and
  `evaluate_ok` says what it has then written into the record: the audits of all
  steps, and nothing else.
* `evaluate_record` — a refusal, too, writes nothing but capabilities.
-/

namespace Ucser

/-- The two auditors: fixed functions of the command. -/
structure Auditors where
  bash : String → AuditResult
  powershell : String → AuditResult

/-- `FormalContract.requires(required)` around a function of a context. -/
def requires {α : Type} (required : Finset Capability) (context : Option ExecutionContext)
    (func : Except PyError α) : Except PyError α :=
  match context with
  | none => .error (.permissionError .noContext)
  | some c =>
      if required ⊆ c.capabilities then func
      else .error (.permissionError (.contract (required \ c.capabilities)))

namespace PolicyGate

variable (auditors : Auditors)

/-- The auditor the gate picks for an adapter. -/
def auditorOf (adapter : Adapter) : String → AuditResult :=
  if adapter = .bash ∨ adapter = .linux then auditors.bash else auditors.powershell

/-- The audit of a step. -/
def auditStep (step : ExecutionStep) : AuditResult :=
  auditorOf auditors step.adapter step.command

/-- The loop over the steps: the capabilities collected so far, and the verdict. -/
def evaluateSteps (allowed : Finset Capability) :
    List ExecutionStep → Finset Capability → Finset Capability × Except PyError Unit
  | [], caps => (caps, .ok ())
  | step :: steps, caps =>
      let result := auditStep auditors step
      let caps := caps ∪ result.capabilities
      if ¬ result.capabilities ⊆ allowed then
        (caps, .error (.permissionError (.unauthorized (result.capabilities \ allowed))))
      else if result.isSafe = false then
        (caps, .error (.permissionError (.flagged result.reasons)))
      else evaluateSteps allowed steps caps

/-- The body of `evaluate`, once the contract holds. -/
def evaluateBody (ucer : UCER) (context : Option ExecutionContext)
    (allowedCaps : Option (Finset Capability)) : UCER × Except PyError Unit :=
  let contextCaps := match context with
    | some c => c.capabilities
    | none => ∅
  match allowedCaps with
  | some allowed =>
      if ¬ allowed ⊆ contextCaps then
        (ucer, .error (.permissionError (.exceedsContext (allowed \ contextCaps))))
      else
        let (caps, verdict) :=
          evaluateSteps auditors allowed ucer.steps ucer.requiredCapabilities
        ({ ucer with requiredCapabilities := caps }, verdict)
  | none =>
      let allowed := match context with
        | some c => c.capabilities
        | none => {.fsRead, .exec, .executeRead}
      let (caps, verdict) := evaluateSteps auditors allowed ucer.steps ucer.requiredCapabilities
      ({ ucer with requiredCapabilities := caps }, verdict)

/-- `PolicyGate.evaluate`: the record afterwards, and whether it returned. -/
def evaluate (ucer : UCER) (context : Option ExecutionContext)
    (allowedCaps : Option (Finset Capability) := none) : UCER × Except PyError Unit :=
  match requires {.exec} context (.ok ()) with
  | .error e => (ucer, .error e)
  | .ok () => evaluateBody auditors ucer context allowedCaps

/-! ## What the gate accepts -/

/-- The union of the audits of a list of steps. -/
def auditedCapabilities (steps : List ExecutionStep) : Finset Capability :=
  steps.foldr (fun step caps => (auditStep auditors step).capabilities ∪ caps) ∅

/-- The audit of a step stays inside a set and judges the step safe. -/
def StepAllowed (allowed : Finset Capability) (step : ExecutionStep) : Prop :=
  (auditStep auditors step).capabilities ⊆ allowed ∧ (auditStep auditors step).isSafe = true

instance (allowed : Finset Capability) (step : ExecutionStep) :
    Decidable (StepAllowed auditors allowed step) :=
  inferInstanceAs (Decidable (_ ∧ _))

/-- What the gate accepts under a context: `EXEC` granted, an explicit set inside
the context, every step allowed. -/
def Accepts (context : ExecutionContext) (allowedCaps : Option (Finset Capability))
    (steps : List ExecutionStep) : Prop :=
  .exec ∈ context.capabilities ∧ (∀ allowed ∈ allowedCaps, allowed ⊆ context.capabilities) ∧
    ∀ step ∈ steps, StepAllowed auditors (allowedCaps.getD context.capabilities) step

variable {auditors}

theorem mem_auditedCapabilities {steps : List ExecutionStep} {c : Capability} :
    c ∈ auditedCapabilities auditors steps ↔
      ∃ step ∈ steps, c ∈ (auditStep auditors step).capabilities := by
  induction steps with
  | nil => simp [auditedCapabilities]
  | cons step steps ih =>
      rw [auditedCapabilities, List.foldr_cons, ← auditedCapabilities, Finset.mem_union, ih]
      simp

theorem auditedCapabilities_subset {steps : List ExecutionStep} {caps : Finset Capability} :
    auditedCapabilities auditors steps ⊆ caps ↔
      ∀ step ∈ steps, (auditStep auditors step).capabilities ⊆ caps := by
  constructor
  · intro h step hstep c hc
    exact h (mem_auditedCapabilities.mpr ⟨step, hstep, hc⟩)
  · intro h c hc
    obtain ⟨step, hstep, hmem⟩ := mem_auditedCapabilities.mp hc
    exact h step hstep hmem

/-- The loop returns exactly when every step is allowed. -/
theorem evaluateSteps_eq_ok_iff (allowed : Finset Capability) (steps : List ExecutionStep)
    (caps : Finset Capability) :
    (evaluateSteps auditors allowed steps caps).2 = .ok () ↔
      ∀ step ∈ steps, StepAllowed auditors allowed step := by
  induction steps generalizing caps with
  | nil => simp [evaluateSteps]
  | cons step steps ih =>
      rw [evaluateSteps, List.forall_mem_cons]
      by_cases hsub : (auditStep auditors step).capabilities ⊆ allowed
      · by_cases hsafe : (auditStep auditors step).isSafe = true
        · simp [StepAllowed, hsub, hsafe, ih]
        · simp [StepAllowed, hsub, hsafe]
      · simp [StepAllowed, hsub]

/-- When the loop returns it has collected the audits of all steps. -/
theorem evaluateSteps_caps (allowed : Finset Capability) (steps : List ExecutionStep)
    (caps : Finset Capability) (h : ∀ step ∈ steps, StepAllowed auditors allowed step) :
    (evaluateSteps auditors allowed steps caps).1 =
      caps ∪ auditedCapabilities auditors steps := by
  induction steps generalizing caps with
  | nil => simp [evaluateSteps, auditedCapabilities]
  | cons step steps ih =>
      obtain ⟨⟨hsub, hsafe⟩, hrest⟩ := List.forall_mem_cons.mp h
      rw [evaluateSteps, if_neg (not_not.mpr hsub), if_neg (by simp [hsafe]), ih _ hrest,
        Finset.union_assoc]
      rfl

/-- The errors of the loop are refusals. -/
theorem evaluateSteps_error {allowed : Finset Capability} {steps : List ExecutionStep}
    {caps : Finset Capability} {e : PyError}
    (h : (evaluateSteps auditors allowed steps caps).2 = .error e) :
    ∃ reason, e = .permissionError reason := by
  induction steps generalizing caps with
  | nil => exact absurd h (by simp [evaluateSteps])
  | cons step steps ih =>
      by_cases hsub : (auditStep auditors step).capabilities ⊆ allowed
      · by_cases hsafe : (auditStep auditors step).isSafe = true
        · rw [evaluateSteps, if_neg (not_not.mpr hsub), if_neg (by simp [hsafe])] at h
          exact ih h
        · rw [evaluateSteps, if_neg (not_not.mpr hsub), if_pos (by simp [hsafe])] at h
          exact ⟨_, (Except.error.inj h).symm⟩
      · rw [evaluateSteps, if_pos hsub] at h
        exact ⟨_, (Except.error.inj h).symm⟩

section Context

variable {ucer : UCER} {context : ExecutionContext} {allowedCaps : Option (Finset Capability)}

theorem evaluate_of_exec (h : .exec ∈ context.capabilities) :
    evaluate auditors ucer (some context) allowedCaps =
      evaluateBody auditors ucer (some context) allowedCaps := by
  have hcontract : requires {.exec} (some context) (.ok ()) = .ok () :=
    if_pos (Finset.singleton_subset_iff.mpr h)
  rw [evaluate, hcontract]

/-- What the gate does once `EXEC` and the explicit set are in order: the loop. -/
theorem evaluateBody_eq (h : ∀ allowed ∈ allowedCaps, allowed ⊆ context.capabilities) :
    evaluateBody auditors ucer (some context) allowedCaps =
      ({ ucer with requiredCapabilities :=
          (evaluateSteps auditors (allowedCaps.getD context.capabilities) ucer.steps
            ucer.requiredCapabilities).1 },
        (evaluateSteps auditors (allowedCaps.getD context.capabilities) ucer.steps
          ucer.requiredCapabilities).2) := by
  cases allowedCaps with
  | none => rfl
  | some allowed =>
      have hsub := h allowed rfl
      simp only [evaluateBody, hsub, not_true_eq_false, if_false, Option.getD_some]

/-- **The gate returns exactly when it accepts.** -/
theorem evaluate_eq_ok_iff :
    (evaluate auditors ucer (some context) allowedCaps).2 = .ok () ↔
      Accepts auditors context allowedCaps ucer.steps := by
  by_cases hexec : Capability.exec ∈ context.capabilities
  · rw [evaluate_of_exec hexec]
    by_cases hallowed : ∀ allowed ∈ allowedCaps, allowed ⊆ context.capabilities
    · rw [evaluateBody_eq hallowed, evaluateSteps_eq_ok_iff]
      exact ⟨fun h => ⟨hexec, hallowed, h⟩, fun h => h.2.2⟩
    · refine iff_of_false ?_ (fun h => hallowed h.2.1)
      cases allowedCaps with
      | none => exact absurd (by simp) hallowed
      | some allowed =>
          have hsub : ¬ allowed ⊆ context.capabilities := by simpa using hallowed
          simp [evaluateBody, hsub]
  · refine iff_of_false ?_ (fun h => hexec h.1)
    unfold evaluate requires
    simp [hexec]

/-- **What the gate has written when it returns**: the audits of all steps. -/
theorem evaluate_ok (h : Accepts auditors context allowedCaps ucer.steps) :
    evaluate auditors ucer (some context) allowedCaps =
      ({ ucer with requiredCapabilities :=
          ucer.requiredCapabilities ∪ auditedCapabilities auditors ucer.steps }, .ok ()) := by
  rw [evaluate_of_exec h.1, evaluateBody_eq h.2.1, evaluateSteps_caps _ _ _ h.2.2,
    (evaluateSteps_eq_ok_iff _ _ _).mpr h.2.2]

/-- Whatever the verdict, the gate writes nothing but capabilities. -/
theorem evaluate_record (auditors : Auditors) (ucer : UCER) (context : ExecutionContext)
    (allowedCaps : Option (Finset Capability)) :
    ∃ caps, (evaluate auditors ucer (some context) allowedCaps).1 =
      { ucer with requiredCapabilities := caps } := by
  by_cases hexec : Capability.exec ∈ context.capabilities
  · rw [evaluate_of_exec hexec]
    cases allowedCaps with
    | none => exact ⟨_, rfl⟩
    | some allowed =>
        by_cases hsub : allowed ⊆ context.capabilities
        · rw [evaluateBody_eq (by simpa using hsub)]
          exact ⟨_, rfl⟩
        · exact ⟨ucer.requiredCapabilities, by simp [evaluateBody, hsub]⟩
  · refine ⟨ucer.requiredCapabilities, ?_⟩
    unfold evaluate requires
    simp [hexec]

/-- The gate refuses with a `PermissionError` and with nothing else. -/
theorem evaluate_error {e : PyError}
    (h : (evaluate auditors ucer (some context) allowedCaps).2 = .error e) :
    ∃ reason, e = .permissionError reason := by
  by_cases hexec : Capability.exec ∈ context.capabilities
  · rw [evaluate_of_exec hexec] at h
    by_cases hallowed : ∀ allowed ∈ allowedCaps, allowed ⊆ context.capabilities
    · rw [evaluateBody_eq hallowed] at h
      exact evaluateSteps_error h
    · cases allowedCaps with
      | none => exact absurd (by simp) hallowed
      | some allowed =>
          have hsub : ¬ allowed ⊆ context.capabilities := by simpa using hallowed
          simp only [evaluateBody, hsub, not_false_eq_true, if_true] at h
          exact ⟨_, (Except.error.inj h).symm⟩
  · unfold evaluate requires at h
    simp only [Finset.singleton_subset_iff, hexec, if_false] at h
    exact ⟨_, (Except.error.inj h).symm⟩

end Context

end PolicyGate
end Ucser
