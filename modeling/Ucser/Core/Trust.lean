import Ucser.Core.Pipeline

/-!
# The chain of trust along the pipeline

Crypto verifies or signs a record; Policy, Persistence and Engine then write to it.
`model_dump_canonical` leaves status, traces and keys out of the hash, but not the
capabilities, which Policy writes.

* `executeUcer_ok` — **the record that comes back**: the one Crypto has verified or
  signed, with new capabilities, status, traces and key, stored last.
* `TrustKept` — what is expected of a call that returned.
* `trustKept_iff_audits_declared` — **trust is kept exactly when the gate finds nothing
  the record has not declared**.
-/

namespace Ucser
namespace Facade

variable {facade : Facade} {world : World} {ucer : UCER} {context : Option ExecutionContext}
  {allowedCaps : Option (Finset Capability)}

/-- The record as Crypto has verified or signed it. -/
def signed (facade : Facade) (ucer : UCER) : UCER :=
  if truthy ucer.controlSignature then ucer
  else ucer.signIntent facade.crypto facade.controlPlanePrivateKey

theorem admitted_eq_signed (world : World) :
    CryptoMiddleware.admitted facade.crypto facade.controlPlanePrivateKey world ucer =
      { signed facade ucer with executionPubKey := some world.generateKeyPair } := by
  unfold CryptoMiddleware.admitted signed
  split_ifs <;> rfl

/-- The record verifies when it leaves Crypto. -/
theorem verifyIntegrity_signed
    (hsound : facade.crypto.Sound facade.controlPlanePrivateKey facade.controlPlanePublicKey)
    (h : CryptoMiddleware.Admits facade.crypto facade.controlPlanePublicKey ucer) :
    (signed facade ucer).verifyIntegrity facade.crypto facade.controlPlanePublicKey =
      .ok true := by
  unfold signed
  by_cases hsig : truthy ucer.controlSignature = true
  · rw [if_pos hsig]
    exact h hsig
  · rw [if_neg hsig]
    exact verifyIntegrity_signIntent hsound ucer

theorem signed_requiredCapabilities (facade : Facade) (ucer : UCER) :
    (signed facade ucer).requiredCapabilities = ucer.requiredCapabilities := by
  unfold signed
  split_ifs <;> rfl

theorem signed_modelDumpCanonical (facade : Facade) (ucer : UCER) :
    (signed facade ucer).modelDumpCanonical = ucer.modelDumpCanonical := by
  unfold signed
  split_ifs <;> rfl

/-- A call that returns was let through. -/
theorem accepts_of_ok (h : (executeUcer facade world ucer context allowedCaps).2 = .ok ()) :
    world.readPubKey = none ∧ Accepts facade ucer (activeCapabilities context allowedCaps) := by
  by_contra hrefused
  obtain ⟨ucer', e, herror⟩ := executeUcer_of_refused hrefused
  rw [herror] at h
  exact absurd h (by simp)

/-- **The record that comes back** is the one Crypto has verified or signed, with the
audits of all steps among its capabilities and a new status, new traces and a new key;
and it is the last one stored. -/
theorem executeUcer_ok (h : (executeUcer facade world ucer context allowedCaps).2 = .ok ()) :
    ∃ status traces key,
      (executeUcer facade world ucer context allowedCaps).1.ucer =
        { signed facade ucer with
          requiredCapabilities := ucer.requiredCapabilities ∪
            PolicyGate.auditedCapabilities facade.auditors ucer.steps
          status := status, traces := traces, executionPubKey := key } ∧
      (executeUcer facade world ucer context allowedCaps).1.saved.getLast? =
        some (executeUcer facade world ucer context allowedCaps).1.ucer := by
  obtain ⟨hkey, haccepts⟩ := accepts_of_ok h
  rw [executeUcer_of_accepts hkey haccepts] at h ⊢
  obtain ⟨_, ⟨status, hucer⟩, hsaved⟩ := PersistenceMiddleware.process_ok h
  obtain ⟨_, traces, hengine, _, _⟩ := Engine.runSteps_frame facade.auditors world
    (negotiateIsolation (PersistenceMiddleware.started
      { ucer := gated facade world ucer }).ucer)
    (activeContext world context allowedCaps)
    (PersistenceMiddleware.started { ucer := gated facade world ucer }).ucer.steps
    (PersistenceMiddleware.started { ucer := gated facade world ucer })
  refine ⟨status, traces, some world.generateKeyPair, ?_, hsaved⟩
  rw [execution, hucer, Engine.process, hengine]
  unfold PersistenceMiddleware.started PersistenceMiddleware.start gated
  rw [admitted_eq_signed]

/-- The record a call returns verifies exactly when the gate has found nothing new. -/
theorem verifyIntegrity_executeUcer_iff
    (hsound : facade.crypto.Sound facade.controlPlanePrivateKey facade.controlPlanePublicKey)
    (h : (executeUcer facade world ucer context allowedCaps).2 = .ok ()) :
    (executeUcer facade world ucer context allowedCaps).1.ucer.verifyIntegrity facade.crypto
        facade.controlPlanePublicKey = .ok true ↔
      ∀ step ∈ ucer.steps,
        (PolicyGate.auditStep facade.auditors step).capabilities ⊆ ucer.requiredCapabilities := by
  obtain ⟨status, traces, key, hucer, _⟩ := executeUcer_ok h
  have hverified := verifyIntegrity_signed hsound (accepts_of_ok h).2.1
  rw [hucer, verifyIntegrity_rewrite hsound hverified, signed_requiredCapabilities,
    Finset.union_eq_left, PolicyGate.auditedCapabilities_subset]

/-- What is expected of a call that returned: the returned record and the one last saved
verify, and what the hash covers is as it was submitted. -/
def TrustKept (facade : Facade) (ucer : UCER) (outcome : Run) : Prop :=
  outcome.ucer.verifyIntegrity facade.crypto facade.controlPlanePublicKey = .ok true ∧
    (∃ last, outcome.saved.getLast? = some last ∧
      last.verifyIntegrity facade.crypto facade.controlPlanePublicKey = .ok true) ∧
    outcome.ucer.modelDumpCanonical = ucer.modelDumpCanonical

/-- **Trust is kept exactly when the gate finds nothing undeclared.**  A call that
returns keeps the chain of trust if and only if the audit of every step stays inside
the `required_capabilities` the record was submitted with. -/
theorem trustKept_iff_audits_declared
    (hsound : facade.crypto.Sound facade.controlPlanePrivateKey facade.controlPlanePublicKey)
    (hreturns : (executeUcer facade world ucer context allowedCaps).2 = .ok ()) :
    TrustKept facade ucer (executeUcer facade world ucer context allowedCaps).1 ↔
      ∀ step ∈ ucer.steps,
        (PolicyGate.auditStep facade.auditors step).capabilities ⊆ ucer.requiredCapabilities := by
  have hverifies := verifyIntegrity_executeUcer_iff hsound hreturns
  constructor
  · intro htrust
    exact hverifies.mp htrust.1
  · intro hdeclared
    obtain ⟨status, traces, key, hucer, hsaved⟩ := executeUcer_ok hreturns
    have hcaps : ucer.requiredCapabilities ∪
        PolicyGate.auditedCapabilities facade.auditors ucer.steps =
          (signed facade ucer).requiredCapabilities := by
      rw [signed_requiredCapabilities]
      exact Finset.union_eq_left.mpr (PolicyGate.auditedCapabilities_subset.mpr hdeclared)
    refine ⟨hverifies.mpr hdeclared, ⟨_, hsaved, hverifies.mpr hdeclared⟩, ?_⟩
    rw [hucer, hcaps]
    exact signed_modelDumpCanonical facade ucer

/-! ## Two records -/

/-- Two auditors that find in every command what those of the facade find in `echo hi`: the
capability to execute, and nothing wrong. -/
def plainAuditors : Auditors where
  bash _ := ⟨true, [], {.exec}⟩
  powershell _ := ⟨true, [], {.exec}⟩

/-- A facade over transparent primitives. -/
def plainFacade : Facade where
  crypto := .transparent
  auditors := plainAuditors
  controlPlanePrivateKey := "private"
  controlPlanePublicKey := "public"

/-- An unsigned record with one step, `echo hi`, and a set of declared capabilities. -/
def echoRecord (declared : Finset Capability) : UCER where
  commandId := "c"
  intent := "say hi"
  steps := [{ stepId := "s", adapter := .bash, command := "echo hi" }]
  requiredCapabilities := declared

/-- The context that may execute. -/
def execContext : ExecutionContext := ⟨"x", {.exec}⟩

/-- The record is let through, whatever it declares. -/
theorem accepts_echoRecord (declared : Finset Capability) :
    Accepts plainFacade (echoRecord declared) (activeCapabilities (some execContext) none) := by
  refine ⟨fun hsig => absurd hsig Bool.false_ne_true, by decide, ?_⟩
  intro step hstep
  rw [List.mem_singleton.mp hstep]
  decide

/-- Its step is admitted, whatever of `EXEC` it declares. -/
theorem admits_echoRecord {declared : Finset Capability} (h : declared ⊆ {.exec}) :
    ∀ step ∈ (echoRecord declared).steps, Unified.Admits plainFacade.auditors execContext
      (Engine.adapterName (isolationOf plainFacade (echoRecord declared)) step) step.command := by
  intro step hstep
  have hisolation : isolationOf plainFacade (echoRecord declared) = .docker := by
    obtain rfl | rfl := Finset.subset_singleton_iff.mp h
    · decide
    · decide
  rw [List.mem_singleton.mp hstep, hisolation]
  decide

/-- In the calm world the call returns, whatever of `EXEC` the record declares. -/
theorem executeUcer_echoRecord {declared : Finset Capability} (h : declared ⊆ {.exec}) :
    (executeUcer plainFacade Engine.calm (echoRecord declared) (some execContext) none).2 =
      .ok () := by
  rw [executeUcer_of_accepts rfl (accepts_echoRecord declared)]
  exact execution_calm_ok _ _ _ (admits_echoRecord h)

/-- An unsigned record that declares nothing: the call returns, and what it returns and
saves no longer verifies. -/
theorem echo_breaks_trust :
    plainFacade.crypto.Sound plainFacade.controlPlanePrivateKey
        plainFacade.controlPlanePublicKey ∧
      (executeUcer plainFacade Engine.calm (echoRecord ∅) (some execContext) none).2 = .ok () ∧
      ¬ TrustKept plainFacade (echoRecord ∅)
        (executeUcer plainFacade Engine.calm (echoRecord ∅) (some execContext) none).1 := by
  have hreturns := executeUcer_echoRecord (Finset.empty_subset {Capability.exec})
  refine ⟨Crypto.transparent_sound _ _, hreturns, ?_⟩
  intro htrust
  have hdeclared := (verifyIntegrity_executeUcer_iff (Crypto.transparent_sound _ _) hreturns).mp
    htrust.1
  exact absurd (hdeclared _ (List.mem_singleton_self _)) (by decide)

/-- A record that declares `EXEC` keeps its trust. -/
theorem echo_keeps_trust :
    TrustKept plainFacade (echoRecord {.exec})
      (executeUcer plainFacade Engine.calm (echoRecord {.exec}) (some execContext) none).1 :=
  (trustKept_iff_audits_declared (Crypto.transparent_sound _ _)
    (executeUcer_echoRecord (Finset.Subset.refl {Capability.exec}))).mpr (by
      intro step hstep
      rw [List.mem_singleton.mp hstep]
      decide)

end Facade
end Ucser
