import Ucser.Core.Authority
import Ucser.Security.PsDaemon

/-!
# The two gates

The gate is asked twice: by `PolicyMiddleware` about the record, and by `UnifiedExecutor` about
each command, in a fresh record and under the adapter the engine has chosen for the step.

* `Engine.TakesUp` — the loop takes up a step in a state.
* `Facade.EntersLoop`, `executeUcer_of_entersLoop` — the state in which a call starts the loop,
  and **what the call comes to** from there.
* `Engine.RefusedInside` — the second gate refuses the command of a step.
* `Facade.GatesAgree` — what is expected of a record that the first gate accepts.
* `gatesAgree_iff` — **the records on which the two gates agree**.
-/

namespace Ucser

/-! ## The steps the loop takes up -/

namespace Engine

section TakesUp

variable (auditors : Auditors) (world : World) (isolation : Isolation)
  (context : ExecutionContext)

/-- The loop, begun with some steps in a state, takes up a step in a state. -/
inductive TakesUp : List ExecutionStep → Run → ExecutionStep → Run → Prop where
  | here (step : ExecutionStep) (steps : List ExecutionStep) (run : Run) :
      TakesUp (step :: steps) run step run
  | later {first step : ExecutionStep} {steps : List ExecutionStep} {run run' taken : Run}
      (hfirst : execStep auditors world isolation context first run = (run', .ok true))
      (h : TakesUp steps run' step taken) : TakesUp (first :: steps) run step taken

variable {auditors world isolation context}

theorem TakesUp.mem {steps : List ExecutionStep} {run taken : Run} {step : ExecutionStep}
    (h : TakesUp auditors world isolation context steps run step taken) : step ∈ steps := by
  induction h with
  | here step steps run => exact List.mem_cons_self
  | later _ _ ih => exact List.mem_cons_of_mem _ ih

end TakesUp

/-! ## The second gate -/

/-- The thread of a step runs, and the gate refuses the temporary record around its command. -/
def RefusedInside (auditors : Auditors) (world : World) (isolation : Isolation)
    (context : ExecutionContext) (step : ExecutionStep) (run : Run) : Prop :=
  world.interrupted run.awaits ≠ some false ∧ adapterName isolation step ∈ Unified.adapters ∧
    ∃ reason, (PolicyGate.evaluate auditors
      (Unified.tempUcer world.uuid (adapterName isolation step) step.command)
      (some context)).2 = .error (.permissionError reason)

end Engine

/-- The outside raises no `PermissionError` of its own. -/
structure World.RaisesNoPermissionError (world : World) : Prop where
  read : ∀ reason, world.readPubKey ≠ some (.permissionError reason)
  run : ∀ n adapter command context reason,
    world.run n adapter command context ≠ .error (.permissionError reason)
  save : ∀ n reason, world.saveUcer n ≠ .raised (.permissionError reason) ∧
    world.saveUcer n ≠ .storedThenRaised (.permissionError reason)

namespace Engine

variable {auditors : Auditors} {world : World} {isolation : Isolation}
  {context : ExecutionContext} {step : ExecutionStep} {steps : List ExecutionStep} {run : Run}
  {reason : PolicyReason}

/-- A step that the second gate admits is not refused by it, and no other is let through. -/
theorem not_refusedInside_of_admits
    (h : Unified.Admits auditors context (adapterName isolation step) step.command) :
    ¬ RefusedInside auditors world isolation context step run := by
  rintro ⟨_, _, reason, hrefused⟩
  rw [Unified.gate_eq_ok_iff.mpr h.2] at hrefused
  exact absurd hrefused (by simp)

theorem admits_of_not_refusedInside (hthread : world.interrupted run.awaits ≠ some false)
    (hadapter : adapterName isolation step ∈ Unified.adapters)
    (h : ¬ RefusedInside auditors world isolation context step run) :
    Unified.Admits auditors context (adapterName isolation step) step.command := by
  cases hgate : (PolicyGate.evaluate auditors
      (Unified.tempUcer world.uuid (adapterName isolation step) step.command)
      (some context)).2 with
  | ok => exact ⟨hadapter, Unified.gate_eq_ok_iff.mp hgate⟩
  | error e =>
      obtain ⟨reason, rfl⟩ := PolicyGate.evaluate_error hgate
      exact absurd ⟨hthread, hadapter, reason, hgate⟩ h

/-- A `PermissionError` that comes back from a thread is the gate's. -/
theorem refusedInside_of_awaitExecute (houtside : world.RaisesNoPermissionError)
    (h : (awaitExecute auditors world context (adapterName isolation step) step.command run).2 =
      .error (.permissionError reason)) :
    RefusedInside auditors world isolation context step run := by
  unfold awaitExecute at h
  cases hthread : world.interrupted run.awaits with
  | some ran => cases ran <;> simp [hthread] at h
  | none =>
      rw [hthread] at h
      simp only [Unified.execute] at h
      split_ifs at h with hshell
      · exact absurd h (by simp)
      · obtain ⟨_, hadapter⟩ := not_or.mp hshell
        cases hgate : (PolicyGate.evaluate auditors
            (Unified.tempUcer world.uuid (adapterName isolation step) step.command)
            (some context)).2 with
        | ok =>
            rw [hgate] at h
            exact absurd h (houtside.run _ _ _ _ reason)
        | error e =>
            obtain ⟨why, rfl⟩ := PolicyGate.evaluate_error hgate
            exact ⟨by simp [hthread], not_not.mp hadapter, why, hgate⟩

/-- A round raises what comes back from its thread, or what the sentinel raises. -/
theorem execStep_error {e : PyError}
    (h : (execStep auditors world isolation context step run).2 = .error e) :
    (awaitExecute auditors world context (adapterName isolation step) step.command run).2 =
        .error e ∨ e = sentinelError step := by
  have htry : (tryStep auditors world isolation context step run).2 = .error e := by
    unfold execStep at h
    rcases htry : tryStep auditors world isolation context step run with ⟨run', e' | goOn⟩
    · rw [htry] at h
      dsimp only at h
      split_ifs at h <;> exact h
    · rw [htry] at h
      exact absurd h (by simp)
  unfold tryStep at htry
  rcases hawait : awaitExecute auditors world context (adapterName isolation step) step.command
    run with ⟨run', e' | result⟩
  · simp only [hawait] at htry
    exact Or.inl (congrArg Except.error (Except.error.inj htry))
  · simp only [hawait] at htry
    split_ifs at htry
    exact Or.inr (Except.error.inj htry).symm

/-- **A loop that raises `PermissionError` has taken up a step that the second gate
refuses.**  By induction on the steps. -/
theorem exists_refusedInside (houtside : world.RaisesNoPermissionError)
    (h : (runSteps auditors world isolation context steps run).2 =
      .error (.permissionError reason)) :
    ∃ step taken, TakesUp auditors world isolation context steps run step taken ∧
      RefusedInside auditors world isolation context step taken := by
  induction steps generalizing run with
  | nil => exact absurd h (by simp [runSteps])
  | cons step steps ih =>
      rw [runSteps] at h
      rcases hstep : execStep auditors world isolation context step run with ⟨run', e | goOn⟩
      · rw [hstep] at h
        obtain rfl := Except.error.inj h
        obtain hawait | hsentinel := execStep_error (congrArg Prod.snd hstep)
        · exact ⟨step, run, .here step steps run, refusedInside_of_awaitExecute houtside hawait⟩
        · exact absurd hsentinel (by simp [sentinelError])
      · rw [hstep] at h
        cases goOn with
        | false => exact absurd h (by simp)
        | true =>
            obtain ⟨last, taken, htakes, hrefused⟩ := ih h
            exact ⟨last, taken, .later hstep htakes, hrefused⟩

/-- In the calm world the loop takes up every step before the first one that is not
admitted: if none it takes up is refused, all are admitted. -/
theorem admits_of_calm (hadapters : ∀ step ∈ steps, adapterName isolation step ∈ Unified.adapters)
    (h : ∀ step taken, TakesUp auditors calm isolation context steps run step taken →
      ¬ RefusedInside auditors calm isolation context step taken) :
    ∀ step ∈ steps, Unified.Admits auditors context (adapterName isolation step) step.command := by
  induction steps generalizing run with
  | nil => exact fun step hstep => absurd hstep List.not_mem_nil
  | cons step steps ih =>
      obtain ⟨hadapter, hadapters'⟩ := List.forall_mem_cons.mp hadapters
      have hadmits : Unified.Admits auditors context (adapterName isolation step) step.command :=
        admits_of_not_refusedInside (by simp [calm]) hadapter (h step run (.here step steps run))
      have hrest := ih hadapters' (fun last taken htakes =>
        h last taken (.later (execStep_calm run hadmits) htakes))
      exact List.forall_mem_cons.mpr ⟨hadmits, hrest⟩

end Engine

/-! ## A call -/

namespace PersistenceMiddleware

variable {world : World} {next : PipelineHandler} {context : ExecutionContext} {run : Run}
  {e : PyError}

/-- A save of the database raises this exception. -/
def SaveRaises (world : World) (e : PyError) : Prop :=
  ∃ n, world.saveUcer n = .raised e ∨ world.saveUcer n = .storedThenRaised e

theorem saveRaises_of_saveUcer (h : (saveUcer world run).2 = .error e) : SaveRaises world e := by
  unfold saveUcer at h
  refine ⟨run.saves, ?_⟩
  cases hsave : world.saveUcer run.saves with
  | stored => simp [hsave] at h
  | storedThenRaised e' => simpa [hsave] using h
  | raised e' => simpa [hsave] using h

/-- When the first save returns the next handler runs. -/
theorem process_of_saved (h : (saveUcer world (start run)).2 = .ok ()) :
    process world next context run =
      finallySave world (settle (next context (started run))) := by
  have hstarted := saveUcer_ok h
  unfold process
  rcases hsave : saveUcer world (start run) with ⟨run', _ | _⟩
  · rw [hsave] at h
    exact absurd h (by simp)
  · rw [hsave] at hstarted
    rw [show run' = started run from hstarted]

/-- What the middleware raises comes from a save, or from the next handler. -/
theorem process_error (h : (process world next context run).2 = .error e) :
    SaveRaises world e ∨
      (saveUcer world (start run)).2 = .ok () ∧ (next context (started run)).2 = .error e := by
  rcases hfirst : saveUcer world (start run) with ⟨run', e' | _⟩
  · rw [process, hfirst] at h
    exact Or.inl (saveRaises_of_saveUcer ((congrArg Prod.snd hfirst).trans h))
  · rw [process_of_saved (congrArg Prod.snd hfirst)] at h
    unfold finallySave at h
    rcases hlast : saveUcer world (settle (next context (started run))).1 with ⟨run'', e'' | _⟩
    · rw [hlast] at h
      exact Or.inl (saveRaises_of_saveUcer ((congrArg Prod.snd hlast).trans h))
    · rw [hlast] at h
      refine Or.inr ⟨rfl, ?_⟩
      unfold settle at h
      rcases hnext : next context (started run) with ⟨run₃, e₃ | _⟩
      · rw [hnext] at h
        dsimp only at h ⊢
        split_ifs at h <;> exact h
      · rw [hnext] at h
        exact absurd h (by simp)

end PersistenceMiddleware

namespace Facade

variable {facade : Facade} {world : World} {ucer : UCER} {context : Option ExecutionContext}
  {allowedCaps : Option (Finset Capability)} {run : Run}

/-- A call starts the loop in a state: the public key is read, the record let through, and
the first save returns. -/
structure EntersLoop (facade : Facade) (world : World) (ucer : UCER)
    (context : Option ExecutionContext) (allowedCaps : Option (Finset Capability))
    (run : Run) : Prop where
  key : world.readPubKey = none
  accepts : Accepts facade ucer (activeCapabilities context allowedCaps)
  saved : (saveUcer world (PersistenceMiddleware.start { ucer := gated facade world ucer })).2 =
    .ok ()
  state : run = PersistenceMiddleware.started { ucer := gated facade world ucer }

theorem EntersLoop.steps (h : EntersLoop facade world ucer context allowedCaps run) :
    run.ucer.steps = ucer.steps := by
  rw [h.state]
  exact (admitted_fields facade world ucer).1

theorem EntersLoop.isolation (h : EntersLoop facade world ucer context allowedCaps run) :
    negotiateIsolation run.ucer = isolationOf facade ucer := by
  rw [h.state]
  rfl

/-- **What a call comes to** that starts the loop: the loop's outcome, settled and saved. -/
theorem executeUcer_of_entersLoop (h : EntersLoop facade world ucer context allowedCaps run) :
    executeUcer facade world ucer context allowedCaps =
      PersistenceMiddleware.finallySave world (PersistenceMiddleware.settle
        (Engine.process facade.auditors world (activeContext world context allowedCaps) run)) := by
  rw [executeUcer_of_accepts h.key h.accepts, execution,
    PersistenceMiddleware.process_of_saved h.saved, h.state]

/-- A call about an accepted record that raises a `PermissionError` not of the outside has
got it from the loop. -/
theorem exists_entersLoop {reason : PolicyReason} (houtside : world.RaisesNoPermissionError)
    (haccepts : Accepts facade ucer (activeCapabilities context allowedCaps))
    (h : (executeUcer facade world ucer context allowedCaps).2 =
      .error (.permissionError reason)) :
    ∃ run, EntersLoop facade world ucer context allowedCaps run ∧
      (Engine.process facade.auditors world (activeContext world context allowedCaps) run).2 =
        .error (.permissionError reason) := by
  cases hkey : world.readPubKey with
  | some e =>
      have hraises : (executeUcer facade world ucer context allowedCaps).2 = .error e := by
        unfold executeUcer pipelineProcess build
        rw [List.foldr_cons, CryptoMiddleware.process, hkey]
      rw [hraises] at h
      exact absurd (hkey.trans (congrArg some (Except.error.inj h))) (houtside.read reason)
  | none =>
      rw [executeUcer_of_accepts hkey haccepts] at h
      obtain ⟨n, hraised | hraised⟩ | ⟨hsaved, hloop⟩ := PersistenceMiddleware.process_error h
      · exact absurd hraised (houtside.save n reason).1
      · exact absurd hraised (houtside.save n reason).2
      · exact ⟨_, ⟨hkey, haccepts, hsaved, rfl⟩, hloop⟩

/-- What is expected of a record that the first gate accepts: no step that the loop takes up is
refused by the second, and no call is aborted by policy. -/
structure GatesAgree (facade : Facade) (ucer : UCER) (context : Option ExecutionContext)
    (allowedCaps : Option (Finset Capability)) : Prop where
  inside : ∀ world run step taken, EntersLoop facade world ucer context allowedCaps run →
    Engine.TakesUp facade.auditors world (negotiateIsolation run.ucer)
      (activeContext world context allowedCaps) run.ucer.steps run step taken →
    ¬ Engine.RefusedInside facade.auditors world (negotiateIsolation run.ucer)
      (activeContext world context allowedCaps) step taken
  aborted : ∀ world reason, world.RaisesNoPermissionError →
    (executeUcer facade world ucer context allowedCaps).2 ≠ .error (.permissionError reason)

/-- The PowerShell auditor finds a command safe and within `caps`. -/
def PowerShellAllows (auditors : Auditors) (caps : Finset Capability) (command : String) : Prop :=
  (auditors.powershell command).capabilities ⊆ caps ∧ (auditors.powershell command).isSafe = true

/-- The steps over Bash that are sent to `microvm` because of the record's capabilities are
allowed by the PowerShell auditor, too. -/
def BashStepsPortable (facade : Facade) (ucer : UCER) (caps : Finset Capability) : Prop :=
  isolationOf facade ucer = .microvm →
    ∀ step ∈ ucer.steps, step.adapter = .bash ∨ step.adapter = .linux →
      PowerShellAllows facade.auditors caps step.command

/-- A step that the first gate allows is admitted by the second under its own adapter, and
under `microvm` if the PowerShell auditor allows it. -/
theorem admits_adapterName_iff {auditors : Auditors} {isolation : Isolation}
    {context : ExecutionContext} {step : ExecutionStep} (hpython : step.adapter ≠ .python)
    (hexec : .exec ∈ context.capabilities)
    (hallowed : PolicyGate.StepAllowed auditors context.capabilities step) :
    Unified.Admits auditors context (Engine.adapterName isolation step) step.command ↔
      (isolation = .microvm → step.adapter = .bash ∨ step.adapter = .linux →
        PowerShellAllows auditors context.capabilities step.command) := by
  have hadapter : step.adapter ∈ Unified.adapters := by
    revert hpython
    cases step.adapter <;> decide
  cases isolation with
  | docker => exact iff_of_true ⟨hadapter, hexec, hallowed⟩ (fun h => by cases h)
  | microvm =>
      constructor
      · intro hadmits _ _
        exact hadmits.2.2
      · intro hportable
        refine ⟨(by decide : Adapter.microvm ∈ Unified.adapters), hexec, ?_⟩
        by_cases hbash : step.adapter = .bash ∨ step.adapter = .linux
        · exact hportable rfl hbash
        · unfold PolicyGate.StepAllowed PolicyGate.auditStep PolicyGate.auditorOf at hallowed
          rw [if_neg hbash] at hallowed
          exact hallowed

/-- **The records on which the two gates agree.**  They agree on a record that the first
accepts if and only if it stays in the Docker sandbox, or the PowerShell auditor allows its
steps over Bash. -/
theorem gatesAgree_iff (facade : Facade) (ucer : UCER) (context : Option ExecutionContext)
    (allowedCaps : Option (Finset Capability))
    (hadapters : ∀ step ∈ ucer.steps, step.adapter ≠ .python) :
    (Accepts facade ucer (activeCapabilities context allowedCaps) →
        GatesAgree facade ucer context allowedCaps) ↔
      (Accepts facade ucer (activeCapabilities context allowedCaps) →
        BashStepsPortable facade ucer (activeCapabilities context allowedCaps)) := by
  refine imp_congr_right (fun haccepts => ?_)
  have hadmits : ∀ world, ∀ step ∈ ucer.steps,
      (Unified.Admits facade.auditors (activeContext world context allowedCaps)
          (Engine.adapterName (isolationOf facade ucer) step) step.command ↔
        (isolationOf facade ucer = .microvm → step.adapter = .bash ∨ step.adapter = .linux →
          PowerShellAllows facade.auditors (activeCapabilities context allowedCaps)
            step.command)) := by
    intro world step hstep
    obtain ⟨_, hexec, hallowed⟩ := haccepts
    rw [← activeContext_capabilities world context allowedCaps] at hexec hallowed ⊢
    exact admits_adapterName_iff (hadapters step hstep) hexec (hallowed step hstep)
  constructor
  · intro hagree hmicrovm step hstep hbash
    have henters : EntersLoop facade Engine.calm ucer context allowedCaps
        (PersistenceMiddleware.started { ucer := gated facade Engine.calm ucer }) :=
      ⟨rfl, haccepts, rfl, rfl⟩
    have hinside := fun last taken => hagree.inside Engine.calm _ last taken henters
    rw [henters.steps, henters.isolation] at hinside
    have hall := Engine.admits_of_calm (fun last hlast => ?_) hinside
    · exact (hadmits Engine.calm step hstep).mp (hall step hstep) hmicrovm hbash
    · rw [hmicrovm]
      exact (by decide : Adapter.microvm ∈ Unified.adapters)
  · intro hportable
    have hinside : ∀ world run step taken,
        EntersLoop facade world ucer context allowedCaps run →
        Engine.TakesUp facade.auditors world (negotiateIsolation run.ucer)
          (activeContext world context allowedCaps) run.ucer.steps run step taken →
        ¬ Engine.RefusedInside facade.auditors world (negotiateIsolation run.ucer)
          (activeContext world context allowedCaps) step taken := by
      intro world run step taken henters htakes
      have hstep := htakes.mem
      rw [henters.steps] at hstep
      rw [henters.isolation]
      exact Engine.not_refusedInside_of_admits ((hadmits world step hstep).mpr
        (fun hmicrovm => hportable hmicrovm step hstep))
    refine ⟨hinside, fun world reason houtside haborted => ?_⟩
    obtain ⟨run, henters, hloop⟩ := exists_entersLoop houtside haccepts haborted
    obtain ⟨step, taken, htakes, hrefused⟩ := Engine.exists_refusedInside houtside hloop
    exact hinside world run step taken henters htakes hrefused

/-! ## A greeting -/

/-- The repository's auditors, on commands whose Bash tree is that of `echo hi`; the connection
to the daemon holds or fails. -/
def greetingAuditors (connection : Except String Unit) : Auditors where
  bash := Bash.audit fun _ => .ok [.command [.word "echo" [], .word "hi" []]]
  powershell := PsDaemon.audit (· == ·) PsDaemon.parseWord connection

/-- A facade over these auditors. -/
def greetingFacade (connection : Except String Unit) : Facade where
  crypto := .transparent
  auditors := greetingAuditors connection
  controlPlanePrivateKey := "private"
  controlPlanePublicKey := "public"

/-- A greeting, in a record that declares network access. -/
def greetingRecord : UCER where
  commandId := "c"
  intent := "say hi"
  steps := [{ stepId := "s", adapter := .bash, command := "echo hi" }]
  requiredCapabilities := {.network}

/-- The context that may execute and reach the network. -/
def networkContext : ExecutionContext := ⟨"x", {.exec, .network}⟩

theorem accepts_greetingRecord (connection : Except String Unit) :
    Accepts (greetingFacade connection) greetingRecord
      (activeCapabilities (some networkContext) none) := by
  refine ⟨fun hsig => absurd hsig Bool.false_ne_true, by decide, ?_⟩
  intro step hstep
  rw [List.mem_singleton.mp hstep]
  have hbash : (greetingAuditors connection).bash "echo hi" = ⟨true, [], {.exec}⟩ := by
    show Bash.audit (fun _ => .ok [.command [.word "echo" [], .word "hi" []]]) "echo hi" = _
    decide
  rw [PolicyGate.StepAllowed, PolicyGate.auditStep, PolicyGate.auditorOf,
    if_pos (Or.inl rfl)]
  show ((greetingAuditors connection).bash "echo hi").capabilities ⊆ _ ∧
    ((greetingAuditors connection).bash "echo hi").isSafe = true
  rw [hbash]
  exact ⟨by decide, rfl⟩

/-- The first gate accepts the greeting; where the PowerShell daemon does not answer, the call
is aborted by policy in the calm world. -/
theorem unanswered_aborted :
    (∀ step ∈ greetingRecord.steps, step.adapter ≠ .python) ∧
      ¬ (Accepts (greetingFacade (.error "[Errno 111] Connection refused")) greetingRecord
          (activeCapabilities (some networkContext) none) →
        GatesAgree (greetingFacade (.error "[Errno 111] Connection refused")) greetingRecord
          (some networkContext) none) := by
  refine ⟨by decide, fun hagree => ?_⟩
  have hquiet : Engine.calm.RaisesNoPermissionError :=
    ⟨by simp [Engine.calm], by simp [Engine.calm], by simp [Engine.calm]⟩
  refine (hagree (accepts_greetingRecord _)).aborted Engine.calm
    (.flagged ["Auditor Daemon Connection Error: [Errno 111] Connection refused"]) hquiet ?_
  rfl

/-- Where the daemon answers, the greeting is sent to `microvm`, and the gates agree. -/
theorem greetings_agree :
    GatesAgree (greetingFacade (.ok ())) greetingRecord (some networkContext) none :=
  (gatesAgree_iff (greetingFacade (.ok ())) greetingRecord (some networkContext) none
    (by decide)).mpr (by
      intro _ _ step hstep _
      rw [List.mem_singleton.mp hstep]
      have hwithin := PsDaemon.capabilities_audit_subset (· == ·) PsDaemon.parseWord (.ok ())
        "echo hi"
      have hsafe : (PsDaemon.audit (· == ·) PsDaemon.parseWord (.ok ()) "echo hi").isSafe =
          true := by
        rw [PsDaemon.audit_connected]
        decide
      exact ⟨hwithin.trans (by decide), hsafe⟩) (accepts_greetingRecord _)

end Facade
end Ucser
