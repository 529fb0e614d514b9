import Ucser.Core.Replay

/-!
# What a replay may do

A record reaches the adapters along two paths: through the middlewares, and through the
loop of `replay`.

* `integrity_checked_iff` — **whose integrity both paths check**: the records of which a
  replay can run nothing anyway.
* `mem_saved` — what a call saves: the record as it leaves the gate, with other status and
  traces.
* `replay_within_iff` — **whose replay gains no privilege**: the records that declared no
  more than the context had.
* `high_risk_in_microvm` — **both paths keep high-risk records out of the Docker sandbox**.
-/

namespace Ucser

namespace Engine

variable {auditors : Auditors} {isolation : Isolation} {context : ExecutionContext}

theorem admitted_eq_nil_iff {steps : List ExecutionStep} :
    admitted auditors isolation context steps = [] ↔
      ∀ step ∈ steps.head?,
        ¬ Unified.Admits auditors context (adapterName isolation step) step.command := by
  cases steps with
  | nil => simp [admitted]
  | cons step steps =>
      by_cases hadmits : Unified.Admits auditors context (adapterName isolation step) step.command
      · simp [admitted_cons_of_admits steps hadmits, hadmits]
      · simp [admitted_cons_of_not_admits steps hadmits, hadmits]

/-- The first step, if it is admitted, is handed over. -/
theorem mem_admitted_head {steps : List ExecutionStep} {step : ExecutionStep}
    (hstep : step ∈ steps.head?)
    (hadmits : Unified.Admits auditors context (adapterName isolation step) step.command) :
    invocationOf isolation context step ∈ admitted auditors isolation context steps := by
  cases steps with
  | nil => simp at hstep
  | cons first steps =>
      obtain rfl : first = step := by simpa using hstep
      simp [admitted_cons_of_admits steps hadmits, invocationOf]

theorem context_of_mem_admitted {steps : List ExecutionStep} {inv : Invocation}
    (h : inv ∈ admitted auditors isolation context steps) : inv.context = context := by
  obtain ⟨step, _, rfl⟩ := mem_admitted.mp h
  rfl

theorem adapter_of_mem_admitted {steps : List ExecutionStep} {inv : Invocation}
    (h : inv ∈ admitted auditors .microvm context steps) : inv.adapter = .microvm := by
  obtain ⟨step, _, rfl⟩ := mem_admitted.mp h
  rfl

end Engine

namespace Facade

variable {facade : Facade} {world : World} {ucer : UCER} {context : Option ExecutionContext}
  {allowedCaps : Option (Finset Capability)}

/-! ## Integrity -/

/-- A record that does not verify hands nothing over on its way through the middlewares. -/
theorem executeUcer_of_tampered (hsigned : truthy ucer.controlSignature = true)
    (hfails : ucer.verifyIntegrity facade.crypto facade.controlPlanePublicKey ≠ .ok true) :
    (executeUcer facade world ucer context allowedCaps).1.invocations = [] := by
  have hrefused : ¬ (world.readPubKey = none ∧
      Accepts facade ucer (activeCapabilities context allowedCaps)) :=
    fun haccepts => hfails (haccepts.2.1 hsigned)
  obtain ⟨ucer', e, herror⟩ := executeUcer_of_refused hrefused
  rw [herror]

/-- **Whose integrity is checked.**  For a signed record that does not verify, neither
entry point hands a command to an adapter, in any world, if and only if the record has no
first step that the second gate admits under the context of the replay. -/
theorem integrity_checked_iff (facade : Facade) (ucer : UCER) (context : Option ExecutionContext)
    (hsigned : truthy ucer.controlSignature = true)
    (hfails : ucer.verifyIntegrity facade.crypto facade.controlPlanePublicKey ≠ .ok true) :
    ((∀ world allowedCaps,
        (executeUcer facade world ucer context allowedCaps).1.invocations = []) ∧
      ∀ world stored ucerId, getUcer stored ucerId = some ucer →
        (replay facade world stored ucerId context).1 = []) ↔
      ∀ step ∈ ucer.steps.head?,
        ¬ Unified.Admits facade.auditors (replayContext ucer context)
          (Engine.adapterName (negotiateIsolation ucer) step) step.command := by
  rw [← Engine.admitted_eq_nil_iff]
  constructor
  · rintro ⟨_, hreplay⟩
    have hstored := getUcer_concat [] ucer
    rw [← replay_calm facade context hstored]
    exact hreplay calmReplay _ _ hstored
  · intro hnone
    refine ⟨fun world allowedCaps => executeUcer_of_tampered hsigned hfails, ?_⟩
    intro world stored ucerId hstored
    have hpre := replay_invocations facade world context hstored
    rw [hnone] at hpre
    exact List.prefix_nil.mp hpre

/-- What has been put in place of the command. -/
def tamperedStep : ExecutionStep where
  stepId := "s"
  adapter := .bash
  command := "echo bye"

/-- A signed record whose command has been changed in the database. -/
def tamperedRecord : UCER :=
  { (echoRecord {.exec}).signIntent plainFacade.crypto plainFacade.controlPlanePrivateKey with
    steps := [tamperedStep] }

theorem plainFacade_sound : plainFacade.crypto.Sound plainFacade.controlPlanePrivateKey
    plainFacade.controlPlanePublicKey :=
  Crypto.transparent_sound _ _

theorem truthy_tamperedRecord : truthy tamperedRecord.controlSignature = true := by
  have hsigned := truthy_signIntent plainFacade_sound (echoRecord {.exec})
  exact hsigned

theorem verifyIntegrity_tamperedRecord :
    tamperedRecord.verifyIntegrity plainFacade.crypto plainFacade.controlPlanePublicKey =
      .ok false := by
  have hchanged : ¬ List.Forall₂ StepAgrees [tamperedStep] (echoRecord {.exec}).steps := by
    intro hagrees
    cases hagrees with
    | cons hstep _ => exact absurd hstep.command (by decide)
  have hfails := verifyIntegrity_of_steps_changed plainFacade_sound (echoRecord {.exec}) hchanged
  exact hfails

/-- The record carries a signature and does not verify, and a replay runs the changed
command. -/
theorem tampered_command_replayed :
    truthy tamperedRecord.controlSignature = true ∧
      tamperedRecord.verifyIntegrity plainFacade.crypto plainFacade.controlPlanePublicKey =
        .ok false ∧
      ¬ ((∀ world allowedCaps,
          (executeUcer plainFacade world tamperedRecord none allowedCaps).1.invocations = []) ∧
        ∀ world stored ucerId, getUcer stored ucerId = some tamperedRecord →
          (replay plainFacade world stored ucerId none).1 = []) := by
  refine ⟨truthy_tamperedRecord, verifyIntegrity_tamperedRecord, ?_⟩
  rintro ⟨_, hreplay⟩
  have hstored := getUcer_concat [] tamperedRecord
  have hnone := hreplay calmReplay _ _ hstored
  rw [replay_calm plainFacade none hstored, Engine.admitted_eq_nil_iff] at hnone
  exact hnone _ rfl (by decide)

/-- A signed record whose steps have been removed. -/
def emptiedRecord : UCER :=
  { (echoRecord {.exec}).signIntent plainFacade.crypto plainFacade.controlPlanePrivateKey with
    steps := [] }

/-- Of this one neither entry point runs anything. -/
theorem emptied_record_not_run :
    (∀ world allowedCaps,
        (executeUcer plainFacade world emptiedRecord none allowedCaps).1.invocations = []) ∧
      ∀ world stored ucerId, getUcer stored ucerId = some emptiedRecord →
        (replay plainFacade world stored ucerId none).1 = [] := by
  have hsigned : truthy emptiedRecord.controlSignature = true := by
    have h := truthy_signIntent plainFacade_sound (echoRecord {.exec})
    exact h
  have hfails : emptiedRecord.verifyIntegrity plainFacade.crypto
      plainFacade.controlPlanePublicKey ≠ .ok true := by
    have hchanged : ¬ List.Forall₂ StepAgrees [] (echoRecord {.exec}).steps := nofun
    have h := verifyIntegrity_of_steps_changed plainFacade_sound (echoRecord {.exec}) hchanged
    intro hverifies
    exact absurd (h.symm.trans hverifies) (by simp)
  refine (integrity_checked_iff plainFacade emptiedRecord none hsigned hfails).mpr ?_
  intro step hstep
  exact absurd hstep (by simp [emptiedRecord])

/-! ## What a call saves -/

theorem finallySave_saved (outcome : Run × Except PyError Unit) {record : UCER}
    (h : record ∈ (PersistenceMiddleware.finallySave world outcome).1.saved) :
    record ∈ outcome.1.saved ∨ record = outcome.1.ucer := by
  have hcases : (PersistenceMiddleware.finallySave world outcome).1.saved = outcome.1.saved ∨
      (PersistenceMiddleware.finallySave world outcome).1.saved =
        outcome.1.saved ++ [outcome.1.ucer] := by
    unfold PersistenceMiddleware.finallySave saveUcer
    cases world.saveUcer outcome.1.saves with
    | stored => exact Or.inr rfl
    | storedThenRaised e => exact Or.inr rfl
    | raised e => exact Or.inl rfl
  rcases hcases with heq | heq
  · rw [heq] at h
    exact Or.inl h
  · rw [heq] at h
    simpa using h

theorem saveUcer_saved (run : Run) {record : UCER} (h : record ∈ (saveUcer world run).1.saved) :
    record ∈ run.saved ∨ record = run.ucer := by
  unfold saveUcer at h
  cases hsave : world.saveUcer run.saves with
  | stored =>
      rw [hsave] at h
      simpa using h
  | storedThenRaised e =>
      rw [hsave] at h
      simpa using h
  | raised e =>
      rw [hsave] at h
      exact Or.inl h

theorem settle_ucer (outcome : Run × Except PyError Unit) :
    ∃ status, (PersistenceMiddleware.settle outcome).1 = outcome.1.setStatus status := by
  rcases outcome with ⟨run, e | _⟩
  · unfold PersistenceMiddleware.settle
    dsimp only
    split_ifs
    · exact ⟨_, rfl⟩
    · exact ⟨run.ucer.status, rfl⟩
  · exact ⟨_, rfl⟩

/-- **What a call saves**: the record as it leaves the gate, with some status and traces. -/
theorem mem_saved {record : UCER}
    (h : record ∈ (executeUcer facade world ucer context allowedCaps).1.saved) :
    Accepts facade ucer (activeCapabilities context allowedCaps) ∧
      ∃ status traces, record =
        { gated facade world ucer with status := status, traces := traces } := by
  by_cases haccepts : world.readPubKey = none ∧
      Accepts facade ucer (activeCapabilities context allowedCaps)
  · refine ⟨haccepts.2, ?_⟩
    rw [executeUcer_of_accepts haccepts.1 haccepts.2] at h
    set run : Run := { ucer := gated facade world ucer } with hrun
    set active := activeContext world context allowedCaps
    have hstarted : ∀ record, record ∈ (PersistenceMiddleware.started run).saved →
        ∃ status traces, record =
          { gated facade world ucer with status := status, traces := traces } := by
      intro record hrecord
      obtain rfl : record = _ := by simpa [PersistenceMiddleware.started, hrun,
        PersistenceMiddleware.start] using hrecord
      exact ⟨.running, [], rfl⟩
    obtain ⟨e, heq⟩ | heq := PersistenceMiddleware.process_cases world
      (Engine.process facade.auditors world) active run
    · rw [execution, heq] at h
      rcases saveUcer_saved _ h with hold | rfl
      · exact absurd hold (by simp [PersistenceMiddleware.start, hrun])
      · exact ⟨.running, [], rfl⟩
    · rw [execution, heq] at h
      obtain ⟨status, hsettle⟩ := settle_ucer
        (Engine.process facade.auditors world active (PersistenceMiddleware.started run))
      obtain ⟨status', traces, hucer, hsaved, _⟩ := Engine.runSteps_frame facade.auditors world
        (negotiateIsolation (PersistenceMiddleware.started run).ucer) active
        (PersistenceMiddleware.started run).ucer.steps (PersistenceMiddleware.started run)
      rcases finallySave_saved _ h with hold | rfl
      · rw [hsettle] at hold
        refine hstarted record ?_
        rw [← hsaved]
        exact hold
      · refine ⟨status, traces, ?_⟩
        rw [hsettle]
        show { (Engine.process facade.auditors world active
          (PersistenceMiddleware.started run)).1.ucer with status := status } = _
        rw [Engine.process, hucer]
        rfl
  · obtain ⟨ucer', e, herror⟩ := executeUcer_of_refused haccepts
    rw [herror] at h
    exact absurd h (by simp)

/-! ## Privilege -/

/-- The record with the audits of its steps among its capabilities, as the gate leaves it. -/
def audited (facade : Facade) (ucer : UCER) : UCER :=
  { ucer with requiredCapabilities :=
      ucer.requiredCapabilities ∪ PolicyGate.auditedCapabilities facade.auditors ucer.steps }

theorem gated_steps (facade : Facade) (world : World) (ucer : UCER) :
    (gated facade world ucer).steps = ucer.steps :=
  (admitted_fields facade world ucer).1

theorem gated_commandId (facade : Facade) (world : World) (ucer : UCER) :
    (gated facade world ucer).commandId = ucer.commandId := by
  unfold gated CryptoMiddleware.admitted
  split_ifs <;> rfl

theorem replayContext_gated (facade : Facade) (world : World) (ucer : UCER) (status : Status)
    (traces : List ExecutionTrace) (context : Option ExecutionContext) :
    replayContext { gated facade world ucer with status := status, traces := traces } context =
      replayContext (audited facade ucer) context := by
  unfold replayContext
  dsimp only
  rw [gated_commandId]
  rfl

/-- What a later replay of a saved record hands over. -/
theorem replay_saved (later : Facade) (world' : ReplayWorld)
    (context' : Option ExecutionContext) {stored : List UCER} {ucerId : String} {record : UCER}
    (hsaved : record ∈ (executeUcer facade world ucer context allowedCaps).1.saved)
    (hstored : getUcer stored ucerId = some record) :
    (replay later world' stored ucerId context').1 <+:
      Engine.admitted later.auditors (isolationOf facade ucer)
        (replayContext (audited facade ucer) context') ucer.steps := by
  obtain ⟨_, status, traces, rfl⟩ := mem_saved hsaved
  have hpre := replay_invocations later world' context' hstored
  rw [replayContext_gated] at hpre
  dsimp only at hpre
  rw [gated_steps] at hpre
  exact hpre

/-- In the calm world it is everything that is admitted. -/
theorem replay_saved_calm (later : Facade) (context' : Option ExecutionContext)
    {stored : List UCER} {ucerId : String} {record : UCER}
    (hsaved : record ∈ (executeUcer facade world ucer context allowedCaps).1.saved)
    (hstored : getUcer stored ucerId = some record) :
    (replay later calmReplay stored ucerId context').1 =
      Engine.admitted later.auditors (isolationOf facade ucer)
        (replayContext (audited facade ucer) context') ucer.steps := by
  obtain ⟨_, status, traces, rfl⟩ := mem_saved hsaved
  have hall := replay_calm later context' hstored
  rw [replayContext_gated] at hall
  dsimp only at hall
  rw [gated_steps] at hall
  exact hall

/-- The capabilities of a replay stay within those of the context the record was accepted
under exactly when the declared ones did. -/
theorem replayCaps_audited_subset_iff {caps : Finset Capability} (h : Accepts facade ucer caps) :
    replayCaps (audited facade ucer) ⊆ caps ↔ ucer.requiredCapabilities ⊆ caps := by
  have haudits : PolicyGate.auditedCapabilities facade.auditors ucer.steps ⊆ caps :=
    PolicyGate.auditedCapabilities_subset.mpr fun step hstep => (h.2.2 step hstep).1
  unfold replayCaps audited
  dsimp only
  by_cases hempty : ucer.requiredCapabilities ∪
      PolicyGate.auditedCapabilities facade.auditors ucer.steps = ∅
  · rw [if_pos hempty]
    have hdeclared : ucer.requiredCapabilities = ∅ :=
      Finset.subset_empty.mp (hempty ▸ Finset.subset_union_left)
    simp [h.2.1, hdeclared]
  · rw [if_neg hempty, Finset.union_subset_iff]
    simp [haudits]

/-- **Whose replay gains no privilege.**  For a record that a call has saved, every command
a later replay without an explicit context hands over runs under capabilities the context
of the call had, if and only if the record was submitted with no other
`required_capabilities`, or has no first step that the second gate admits in the replay. -/
theorem replay_within_iff (facade : Facade) (world : World) (ucer : UCER)
    (context : Option ExecutionContext) (allowedCaps : Option (Finset Capability)) (record : UCER)
    (hsaved : record ∈ (executeUcer facade world ucer context allowedCaps).1.saved) :
    (∀ later stored ucerId, getUcer stored ucerId = some record →
        ∀ inv ∈ (replay facade later stored ucerId none).1,
          inv.context.capabilities ⊆ activeCapabilities context allowedCaps) ↔
      ucer.requiredCapabilities ⊆ activeCapabilities context allowedCaps ∨
        ∀ step ∈ ucer.steps.head?,
          ¬ Unified.Admits facade.auditors (replayContext (audited facade ucer) none)
            (Engine.adapterName (isolationOf facade ucer) step) step.command := by
  have hcaps := replayCaps_audited_subset_iff (mem_saved hsaved).1
  constructor
  · intro hwithin
    by_contra h
    obtain ⟨hexceeds, hrun⟩ := not_or.mp h
    obtain ⟨step, hstep, hadmits⟩ : ∃ step ∈ ucer.steps.head?,
        Unified.Admits facade.auditors (replayContext (audited facade ucer) none)
          (Engine.adapterName (isolationOf facade ucer) step) step.command := by
      by_contra hnone
      exact hrun fun step hstep hadmits => hnone ⟨step, hstep, hadmits⟩
    have hstored := getUcer_concat [] record
    have hmem := Engine.mem_admitted_head hstep hadmits
    rw [← replay_saved_calm facade none hsaved hstored] at hmem
    exact hexceeds (hcaps.mp (hwithin calmReplay _ _ hstored _ hmem))
  · intro h later stored ucerId hstored inv hinv
    have hpre := replay_saved facade later none hsaved hstored
    have hadmitted := hpre.subset hinv
    rcases h with hdeclared | hnone
    · rw [Engine.context_of_mem_admitted hadmitted]
      exact hcaps.mpr hdeclared
    · rw [Engine.admitted_eq_nil_iff.mpr hnone] at hadmitted
      exact absurd hadmitted List.not_mem_nil

/-- A record that is let through is saved in the calm world. -/
theorem exists_saved_calm (h : Accepts facade ucer (activeCapabilities context allowedCaps)) :
    ∃ record, record ∈ (executeUcer facade Engine.calm ucer context allowedCaps).1.saved := by
  rw [executeUcer_of_accepts rfl h]
  exact List.exists_mem_of_ne_nil _ (execution_calm_saved facade _ _)

/-- A record that declares more than it is executed under is given it when it is
replayed. -/
theorem declared_capability_gained :
    ¬ ∀ record ∈ (executeUcer plainFacade Engine.calm (echoRecord {.deleteRoot})
          (some execContext) none).1.saved,
        ∀ later stored ucerId, getUcer stored ucerId = some record →
          ∀ inv ∈ (replay plainFacade later stored ucerId none).1,
            inv.context.capabilities ⊆ activeCapabilities (some execContext) none := by
  intro hwithin
  obtain ⟨record, hsaved⟩ := exists_saved_calm (accepts_echoRecord {.deleteRoot})
  have hstored := getUcer_concat [] record
  have hinvocations := replay_saved_calm plainFacade none hsaved hstored
  have hadmits : Unified.Admits plainFacade.auditors
      (replayContext (audited plainFacade (echoRecord {.deleteRoot})) none)
      (Engine.adapterName (isolationOf plainFacade (echoRecord {.deleteRoot}))
        { stepId := "s", adapter := .bash, command := "echo hi" }) "echo hi" := by decide
  have hmem : _ ∈ Engine.admitted _ _ _ (echoRecord {.deleteRoot}).steps :=
    Engine.mem_admitted_head rfl hadmits
  rw [← hinvocations] at hmem
  exact absurd (hwithin record hsaved calmReplay _ _ hstored _ hmem) (by decide)

/-- A record that declares what the context grants is saved, and gains nothing. -/
theorem echo_gains_nothing :
    ∃ record ∈ (executeUcer plainFacade Engine.calm (echoRecord {.exec})
        (some execContext) none).1.saved,
      ∀ later stored ucerId, getUcer stored ucerId = some record →
        ∀ inv ∈ (replay plainFacade later stored ucerId none).1,
          inv.context.capabilities ⊆ activeCapabilities (some execContext) none := by
  obtain ⟨record, hsaved⟩ := exists_saved_calm (accepts_echoRecord {.exec})
  exact ⟨record, hsaved, (replay_within_iff _ _ _ _ _ record hsaved).mpr (Or.inl (by decide))⟩

/-! ## Isolation -/

/-- The audit of a step finds what calls for the stronger isolation. -/
def HighRisk (auditors : Auditors) (step : ExecutionStep) : Prop :=
  .network ∈ (PolicyGate.auditStep auditors step).capabilities ∨
    .deleteRoot ∈ (PolicyGate.auditStep auditors step).capabilities

theorem isolationOf_of_highRisk (h : ∃ step ∈ ucer.steps, HighRisk facade.auditors step) :
    isolationOf facade ucer = .microvm := by
  obtain ⟨step, hstep, hrisk⟩ := h
  refine if_pos ?_
  rcases hrisk with hrisk | hrisk
  · refine ⟨.network, Finset.mem_inter.mpr ⟨Finset.mem_union_right _ ?_, by decide⟩⟩
    exact PolicyGate.mem_auditedCapabilities.mpr ⟨step, hstep, hrisk⟩
  · refine ⟨.deleteRoot, Finset.mem_inter.mpr ⟨Finset.mem_union_right _ ?_, by decide⟩⟩
    exact PolicyGate.mem_auditedCapabilities.mpr ⟨step, hstep, hrisk⟩

/-- **High-risk records stay out of the Docker sandbox.**  If the gate's audit of some step
finds `NETWORK` or `DELETE_ROOT`, every command the call hands over goes to `microvm`, and
so does every command of any later replay of what the call has saved. -/
theorem high_risk_in_microvm (facade : Facade) (world : World) (ucer : UCER)
    (context : Option ExecutionContext) (allowedCaps : Option (Finset Capability))
    (hrisk : ∃ step ∈ ucer.steps, HighRisk facade.auditors step) :
    (∀ inv ∈ (executeUcer facade world ucer context allowedCaps).1.invocations,
        inv.adapter = .microvm) ∧
      ∀ record ∈ (executeUcer facade world ucer context allowedCaps).1.saved,
        ∀ later world' stored ucerId context', getUcer stored ucerId = some record →
          ∀ inv ∈ (replay later world' stored ucerId context').1, inv.adapter = .microvm := by
  have hmicrovm := isolationOf_of_highRisk hrisk
  constructor
  · intro inv hinv
    by_cases haccepts : world.readPubKey = none ∧
        Accepts facade ucer (activeCapabilities context allowedCaps)
    · obtain ⟨handed, hpre, hhanded⟩ := execution_invocations facade world
        (activeContext world context allowedCaps) ucer
      rw [executeUcer_of_accepts haccepts.1 haccepts.2, hhanded] at hinv
      have hadmitted := hpre.subset hinv
      rw [hmicrovm] at hadmitted
      exact Engine.adapter_of_mem_admitted hadmitted
    · obtain ⟨ucer', e, herror⟩ := executeUcer_of_refused haccepts
      rw [herror] at hinv
      exact absurd hinv List.not_mem_nil
  · intro record hsaved later world' stored ucerId context' hstored inv hinv
    have hadmitted := (replay_saved later world' context' hsaved hstored).subset hinv
    rw [hmicrovm] at hadmitted
    exact Engine.adapter_of_mem_admitted hadmitted

/-- The Bash auditor finds network access in `curl`, which goes to `microvm`. -/
theorem curl_in_microvm :
    (∃ step ∈ (curlRecord .bash).steps, HighRisk curlFacade.auditors step) ∧
      ∀ inv ∈ (executeUcer curlFacade Engine.calm (curlRecord .bash)
        (some ⟨"x", {.exec, .network}⟩) none).1.invocations, inv.adapter = .microvm := by
  have hrisk : ∃ step ∈ (curlRecord .bash).steps, HighRisk curlFacade.auditors step :=
    ⟨_, List.mem_singleton_self _, Or.inl (by decide)⟩
  exact ⟨hrisk, (high_risk_in_microvm _ _ _ _ _ hrisk).1⟩

end Facade
end Ucser
