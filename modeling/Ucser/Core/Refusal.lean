import Ucser.Core.Authority
import Ucser.Core.Rejection

/-!
# What a refusal leaves behind

The gate writes what an audit finds into the record before it judges it.  A refused record
therefore carries the audits of every step up to the one refused, in a field the hash covers.

* `PolicyGate.examined` — the steps the gate audits: up to the first it does not allow.
* `evaluateSteps_fst`, `evaluate_fst` — **what the gate has written**, whatever the verdict.
* `RefusalIntact` — what is expected of a refusal.
* `refusalIntact_iff` — **when a refusal leaves the record intact**.
* `tampered_after_refusal` — otherwise a signed record is taken for tampered with by every
  later call.
-/

namespace Ucser

/-! ## What the gate has written -/

namespace PolicyGate

/-- The steps the gate audits: up to the first that it does not allow, that one included. -/
def examined (auditors : Auditors) (allowed : Finset Capability) :
    List ExecutionStep → List ExecutionStep
  | [] => []
  | step :: steps =>
      if StepAllowed auditors allowed step then step :: examined auditors allowed steps
      else [step]

/-- The gate gets as far as auditing: there is a context, it may execute, and an explicit set
stays inside it. -/
def Opens (context : Option ExecutionContext) (allowedCaps : Option (Finset Capability)) : Prop :=
  ∃ c, context = some c ∧ .exec ∈ c.capabilities ∧
    ∀ allowed ∈ allowedCaps, allowed ⊆ c.capabilities

/-- The set every audit has to stay inside, once the gate gets as far as auditing. -/
def boundary (context : Option ExecutionContext) (allowedCaps : Option (Finset Capability)) :
    Finset Capability :=
  allowedCaps.getD (context.elim ∅ ExecutionContext.capabilities)

/-- What the gate writes into a record: the audits of the steps it examines. -/
def written (auditors : Auditors) (ucer : UCER) (context : Option ExecutionContext)
    (allowedCaps : Option (Finset Capability)) : Finset Capability :=
  auditedCapabilities auditors (examined auditors (boundary context allowedCaps) ucer.steps)

variable {auditors : Auditors}

/-- **What the loop has written**, whatever the verdict: the audits of the steps it has
examined. -/
theorem evaluateSteps_fst (allowed : Finset Capability) (steps : List ExecutionStep)
    (caps : Finset Capability) :
    (evaluateSteps auditors allowed steps caps).1 =
      caps ∪ auditedCapabilities auditors (examined auditors allowed steps) := by
  induction steps generalizing caps with
  | nil => simp [evaluateSteps, examined, auditedCapabilities]
  | cons step steps ih =>
      by_cases hallowed : StepAllowed auditors allowed step
      · obtain ⟨hsub, hsafe⟩ := hallowed
        rw [evaluateSteps, if_neg (not_not.mpr hsub), if_neg (by simp [hsafe]), ih, examined,
          if_pos ⟨hsub, hsafe⟩, Finset.union_assoc]
        rfl
      · have hlast : auditedCapabilities auditors [step] =
            (auditStep auditors step).capabilities := by simp [auditedCapabilities]
        rw [examined, if_neg hallowed, hlast, evaluateSteps]
        by_cases hsub : (auditStep auditors step).capabilities ⊆ allowed
        · have hunsafe : (auditStep auditors step).isSafe = false :=
            Bool.eq_false_iff.mpr (fun hsafe => hallowed ⟨hsub, hsafe⟩)
          rw [if_neg (not_not.mpr hsub), if_pos hunsafe]
        · rw [if_pos hsub]

/-- The gate that does not get as far as auditing leaves the record as it is. -/
theorem evaluate_of_not_opens {ucer : UCER} {context : Option ExecutionContext}
    {allowedCaps : Option (Finset Capability)} (h : ¬ Opens context allowedCaps) :
    (evaluate auditors ucer context allowedCaps).1 = ucer := by
  cases context with
  | none => rfl
  | some c =>
      by_cases hexec : Capability.exec ∈ c.capabilities
      · rw [evaluate_of_exec hexec]
        cases allowedCaps with
        | none => exact absurd ⟨c, rfl, hexec, by simp⟩ h
        | some allowed =>
            by_cases hsub : allowed ⊆ c.capabilities
            · exact absurd ⟨c, rfl, hexec, by simpa using hsub⟩ h
            · simp [evaluateBody, hsub]
      · unfold evaluate requires
        simp [hexec]

/-- **What the gate has written** once it gets as far as auditing. -/
theorem evaluate_fst {ucer : UCER} {context : Option ExecutionContext}
    {allowedCaps : Option (Finset Capability)} (h : Opens context allowedCaps) :
    (evaluate auditors ucer context allowedCaps).1 =
      { ucer with requiredCapabilities :=
          ucer.requiredCapabilities ∪ written auditors ucer context allowedCaps } := by
  obtain ⟨c, rfl, hexec, hallowed⟩ := h
  rw [evaluate_of_exec hexec, evaluateBody_eq hallowed, evaluateSteps_fst]
  rfl

/-- The record is as before exactly when the audits of the examined steps were declared. -/
theorem evaluate_fst_eq_self_iff {ucer : UCER} {context : Option ExecutionContext}
    {allowedCaps : Option (Finset Capability)} :
    (evaluate auditors ucer context allowedCaps).1 = ucer ↔
      (Opens context allowedCaps →
        ∀ step ∈ examined auditors (boundary context allowedCaps) ucer.steps,
          (auditStep auditors step).capabilities ⊆ ucer.requiredCapabilities) := by
  constructor
  · intro hsame hopens
    have hcaps := congrArg UCER.requiredCapabilities ((evaluate_fst hopens).symm.trans hsame)
    exact auditedCapabilities_subset.mp (Finset.union_eq_left.mp hcaps)
  · intro hdeclared
    by_cases hopens : Opens context allowedCaps
    · rw [evaluate_fst hopens, written,
        Finset.union_eq_left.mpr (auditedCapabilities_subset.mpr (hdeclared hopens))]
    · exact evaluate_of_not_opens hopens

end PolicyGate

/-! ## When a refusal is intact -/

namespace Facade

variable {facade : Facade} {ucer : UCER} {context : Option ExecutionContext}
  {allowedCaps : Option (Finset Capability)}

/-- What is expected of a refusal: the record is as it was, it verifies if it did, and every
set of capabilities that lets the submitted record through lets the refused one through. -/
def RefusalIntact (facade : Facade) (ucer : UCER) (context : Option ExecutionContext)
    (allowedCaps : Option (Finset Capability)) : Prop :=
  ∀ reason, (PolicyGate.evaluate facade.auditors ucer context allowedCaps).2 =
      .error (.permissionError reason) →
    (PolicyGate.evaluate facade.auditors ucer context allowedCaps).1 = ucer ∧
      (ucer.verifyIntegrity facade.crypto facade.controlPlanePublicKey = .ok true →
        (PolicyGate.evaluate facade.auditors ucer context allowedCaps).1.verifyIntegrity
          facade.crypto facade.controlPlanePublicKey = .ok true) ∧
      ∀ caps, Accepts facade ucer caps →
        Accepts facade (PolicyGate.evaluate facade.auditors ucer context allowedCaps).1 caps

/-- **When a refusal leaves the record intact**: the gate returns, or does not get as far as
auditing, or the record declares what the audits of the examined steps find. -/
theorem refusalIntact_iff (facade : Facade) (ucer : UCER) (context : Option ExecutionContext)
    (allowedCaps : Option (Finset Capability)) :
    RefusalIntact facade ucer context allowedCaps ↔
      (PolicyGate.Opens context allowedCaps →
        (∀ step ∈ ucer.steps, PolicyGate.StepAllowed facade.auditors
          (PolicyGate.boundary context allowedCaps) step) ∨
        ∀ step ∈ PolicyGate.examined facade.auditors
            (PolicyGate.boundary context allowedCaps) ucer.steps,
          (PolicyGate.auditStep facade.auditors step).capabilities ⊆
            ucer.requiredCapabilities) := by
  have hverdict : PolicyGate.Opens context allowedCaps →
      ((PolicyGate.evaluate facade.auditors ucer context allowedCaps).2 = .ok () ↔
        ∀ step ∈ ucer.steps, PolicyGate.StepAllowed facade.auditors
          (PolicyGate.boundary context allowedCaps) step) := by
    rintro ⟨c, rfl, hexec, hallowed⟩
    rw [PolicyGate.evaluate_eq_ok_iff]
    exact ⟨fun h => h.2.2, fun h => ⟨hexec, hallowed, h⟩⟩
  constructor
  · intro hintact hopens
    by_cases hsteps : ∀ step ∈ ucer.steps, PolicyGate.StepAllowed facade.auditors
        (PolicyGate.boundary context allowedCaps) step
    · exact Or.inl hsteps
    · right
      obtain ⟨c, rfl, _⟩ := id hopens
      cases hgate : (PolicyGate.evaluate facade.auditors ucer (some c) allowedCaps).2 with
      | ok => exact absurd ((hverdict hopens).mp hgate) hsteps
      | error e =>
          obtain ⟨reason, rfl⟩ := PolicyGate.evaluate_error hgate
          exact PolicyGate.evaluate_fst_eq_self_iff.mp (hintact reason hgate).1 hopens
  · intro hcondition reason hrefused
    have hsame : (PolicyGate.evaluate facade.auditors ucer context allowedCaps).1 = ucer := by
      refine PolicyGate.evaluate_fst_eq_self_iff.mpr (fun hopens => ?_)
      refine (hcondition hopens).resolve_left (fun hsteps => ?_)
      rw [(hverdict hopens).mpr hsteps] at hrefused
      exact absurd hrefused (by simp)
    rw [hsame]
    exact ⟨rfl, id, fun _ h => h⟩

/-- A signed record for `curl` is refused by a context that may only execute; it no longer
verifies, and the context that would have let it through does not. -/
theorem refused_curl_not_intact :
    ¬ RefusalIntact curlFacade (signed curlFacade (curlRecord .bash))
      (some ⟨"x", {.exec}⟩) none := by
  intro hintact
  obtain ⟨hsame, _⟩ := hintact (.unauthorized {.network}) rfl
  have hcaps := congrArg UCER.requiredCapabilities hsame
  exact absurd hcaps (by decide)

/-! ## The next call -/

section Later

variable
  (hsound : facade.crypto.Sound facade.controlPlanePrivateKey facade.controlPlanePublicKey)
  (hverified : ucer.verifyIntegrity facade.crypto facade.controlPlanePublicKey = .ok true)

include hsound hverified

/-- The hash of a record that verified stands only if the gate has written nothing. -/
theorem evaluate_fst_of_stands
    (h : (PolicyGate.evaluate facade.auditors ucer context allowedCaps).1.HashStands
      facade.crypto) :
    (PolicyGate.evaluate facade.auditors ucer context allowedCaps).1 = ucer := by
  by_cases hopens : PolicyGate.Opens context allowedCaps
  · rw [PolicyGate.evaluate_fst hopens] at h ⊢
    have hcarried : ucer.canonicalHash = some _ := h.2
    rw [canonicalHash_of_verifyIntegrity hverified, Option.some.injEq] at hcarried
    rw [(getCanonicalHash_eq_iff_capabilities hsound ucer _).mp hcarried.symm]
  · exact PolicyGate.evaluate_of_not_opens hopens

/-- **The false alarm.**  A signed record that a refusal has written to is taken for tampered
with by every later call, under any context. -/
theorem tampered_after_refusal {world : World} (hkey : world.readPubKey = none)
    (hwritten : (PolicyGate.evaluate facade.auditors ucer context allowedCaps).1 ≠ ucer)
    (later : Option ExecutionContext) (laterCaps : Option (Finset Capability)) :
    (executeUcer facade world
        (PolicyGate.evaluate facade.auditors ucer context allowedCaps).1 later laterCaps).2 =
      .error (.securityError
        "UCER Integrity Check Failed: Intent has been tampered with.") := by
  have hopens : PolicyGate.Opens context allowedCaps :=
    not_not.mp (fun hopens => hwritten (PolicyGate.evaluate_of_not_opens hopens))
  have hfails : (PolicyGate.evaluate facade.auditors ucer context allowedCaps).1.verifyIntegrity
      facade.crypto facade.controlPlanePublicKey = .ok false :=
    UCER.verifyIntegrity_of_not_stands
      (fun hstands => hwritten (evaluate_fst_of_stands hsound hverified hstands))
  have htruthy := UCER.truthy_of_verifyIntegrity hverified
  have hsigned : truthy (PolicyGate.evaluate facade.auditors ucer context
      allowedCaps).1.controlSignature = true := by
    rw [PolicyGate.evaluate_fst hopens]
    exact htruthy
  rw [executeUcer_of_false hkey hsigned hfails]

end Later

end Facade
end Ucser
