import Ucser.Core.Engine

/-!
# The pipeline: `core/pipeline.py`, `core/middlewares.py`, `core/executor.py`

`execute_ucer` sends a record through four middlewares that share and mutate it:
Crypto verifies or signs it, Policy audits it, Persistence saves it around the
execution, Engine executes it.

* `PipelineHandler`, `build` — handlers and how the builder chains them.
* `CryptoMiddleware.process`, `PolicyMiddleware.process`, `PersistenceMiddleware.process`,
  `EngineMiddleware.process` — the middlewares.
* `Facade.executeUcer` — the public entry point.
* `CryptoMiddleware.Admits`, `Accepts` — the records that are let through.
* `executeUcer_of_accepts`, `executeUcer_of_refused` — **what the entry point does**:
  a record that Crypto and the gate let through is saved and executed, any other
  runs nothing and saves nothing.
-/

namespace Ucser

/-- A handler of the pipeline: the state afterwards, and whether it returned. -/
abbrev PipelineHandler := ExecutionContext → Run → Run × Except PyError Unit

/-- A middleware, given what `super().process` does. -/
abbrev Middleware := PipelineHandler → PipelineHandler

/-- `PipelineBuilder.build`: the last middleware is followed by nothing. -/
def build (middlewares : List Middleware) : PipelineHandler :=
  middlewares.foldr (fun middleware next => middleware next) (fun _ run => (run, .ok ()))

/-! ## The middlewares -/

namespace CryptoMiddleware

variable (crypto : Crypto) (publicKey privateKey : String) (world : World)

/-- `CryptoMiddleware.process`. -/
def process : Middleware := fun next context run =>
  match world.readPubKey with
  | some e => (run, .error e)
  | none =>
      let issueKey (ucer : UCER) : Run :=
        { run with ucer := { ucer with executionPubKey := some world.generateKeyPair } }
      if truthy run.ucer.controlSignature then
        match run.ucer.verifyIntegrity crypto publicKey with
        | .error e => (run, .error e)
        | .ok false => (run.setStatus .failed, .error (.securityError
            "UCER Integrity Check Failed: Intent has been tampered with."))
        | .ok true => next context (issueKey run.ucer)
      else next context (issueKey (run.ucer.signIntent crypto privateKey))

/-- The record verifies, or carries no signature. -/
def Admits (ucer : UCER) : Prop :=
  truthy ucer.controlSignature = true → ucer.verifyIntegrity crypto publicKey = .ok true

/-- The record as it leaves Crypto. -/
def admitted (ucer : UCER) : UCER :=
  if truthy ucer.controlSignature then
    { ucer with executionPubKey := some world.generateKeyPair }
  else { ucer.signIntent crypto privateKey with executionPubKey := some world.generateKeyPair }

end CryptoMiddleware

/-- `PolicyMiddleware.process`. -/
def PolicyMiddleware.process (auditors : Auditors) : Middleware := fun next context run =>
  match PolicyGate.evaluate auditors run.ucer (some context) with
  | (ucer, .error e) => ({ run with ucer := ucer }, .error e)
  | (ucer, .ok ()) => next context { run with ucer := ucer }

/-- `await self.db.save_ucer(ucer)`. -/
def saveUcer (world : World) (run : Run) : Run × Except PyError Unit :=
  match world.saveUcer run.saves with
  | .stored => ({ run with saves := run.saves + 1, saved := run.saved ++ [run.ucer] }, .ok ())
  | .storedThenRaised e =>
      ({ run with saves := run.saves + 1, saved := run.saved ++ [run.ucer] }, .error e)
  | .raised e => ({ run with saves := run.saves + 1 }, .error e)

namespace PersistenceMiddleware

/-- The `finally`: an exception of the save replaces the outcome of the `try`. -/
def finallySave (world : World) (outcome : Run × Except PyError Unit) :
    Run × Except PyError Unit :=
  match saveUcer world outcome.1 with
  | (run, .error e) => (run, .error e)
  | (run, .ok ()) => (run, outcome.2)

/-- What the `try` and its `except Exception` make of the outcome of the next handler. -/
def settle (outcome : Run × Except PyError Unit) : Run × Except PyError Unit :=
  match outcome with
  | (run, .ok ()) =>
      (run.setStatus (if run.ucer.status ≠ .failed then .completed else .failed), .ok ())
  | (run, .error e) =>
      if e.isException then (run.setStatus .failed, .error e) else (run, .error e)

/-- `ucer.status = "running"` and `ucer.traces = []`. -/
def start (run : Run) : Run :=
  { run with ucer := { run.ucer with status := .running, traces := [] } }

/-- `PersistenceMiddleware.process`. -/
def process (world : World) : Middleware := fun next context run =>
  match saveUcer world (start run) with
  | (run, .error e) => (run, .error e)
  | (run, .ok ()) => finallySave world (settle (next context run))

end PersistenceMiddleware

/-- `EngineMiddleware.process` as the last middleware: it never calls the next one. -/
def EngineMiddleware.process (auditors : Auditors) (world : World) : Middleware := fun _ =>
  Engine.process auditors world

/-! ## The entry point -/

/-- `UniversalExecutorFacade`, with what it was built from. -/
structure Facade where
  crypto : Crypto
  auditors : Auditors
  controlPlanePrivateKey : String
  controlPlanePublicKey : String

namespace Facade

variable (facade : Facade) (world : World)

/-- `self._pipeline_process`. -/
def pipelineProcess : PipelineHandler :=
  build
    [CryptoMiddleware.process facade.crypto facade.controlPlanePublicKey
        facade.controlPlanePrivateKey world,
      PolicyMiddleware.process facade.auditors, PersistenceMiddleware.process world,
      EngineMiddleware.process facade.auditors world]

/-- The context the pipeline gets: the given or the default one, with its
capabilities replaced by an explicit `allowed_caps`. -/
def activeContext (context : Option ExecutionContext)
    (allowedCaps : Option (Finset Capability)) : ExecutionContext :=
  let active := context.getD ⟨world.uuid, {.exec, .fsRead}⟩
  match allowedCaps with
  | none => active
  | some allowed => { active with capabilities := allowed }

/-- `execute_ucer`. -/
def executeUcer (ucer : UCER) (context : Option ExecutionContext)
    (allowedCaps : Option (Finset Capability)) : Run × Except PyError Unit :=
  facade.pipelineProcess world (activeContext world context allowedCaps) { ucer := ucer }

end Facade

/-! ## What the middlewares do -/

section Crypto

variable {crypto : Crypto} {publicKey : String} {world : World}

theorem process_of_admits (privateKey : String) (next : PipelineHandler)
    (context : ExecutionContext) (run : Run) (hkey : world.readPubKey = none)
    (h : CryptoMiddleware.Admits crypto publicKey run.ucer) :
    CryptoMiddleware.process crypto publicKey privateKey world next context run =
      next context
        { run with ucer := CryptoMiddleware.admitted crypto privateKey world run.ucer } := by
  unfold CryptoMiddleware.process CryptoMiddleware.admitted
  rw [hkey]
  by_cases hsig : truthy run.ucer.controlSignature = true
  · simp only [hsig, if_true, h hsig]
  · simp only [hsig, if_false, Bool.false_eq_true]

/-- A record that is not admitted, or a key that cannot be read: nothing happens but
that the record may be marked failed. -/
theorem process_of_not_admits (privateKey : String) (next : PipelineHandler)
    (context : ExecutionContext) (run : Run)
    (h : ¬ (world.readPubKey = none ∧ CryptoMiddleware.Admits crypto publicKey run.ucer)) :
    ∃ status e, CryptoMiddleware.process crypto publicKey privateKey world next context run =
      (run.setStatus status, .error e) := by
  unfold CryptoMiddleware.process
  cases hkey : world.readPubKey with
  | some e => exact ⟨run.ucer.status, e, rfl⟩
  | none =>
      obtain ⟨hsig, hverify⟩ := Classical.not_imp.mp (fun hadmits => h ⟨hkey, hadmits⟩)
      simp only [hsig, if_true]
      match hv : run.ucer.verifyIntegrity crypto publicKey with
      | .error e => exact ⟨run.ucer.status, e, rfl⟩
      | .ok false => exact ⟨.failed, _, rfl⟩
      | .ok true => exact absurd hv hverify

end Crypto

section Policy

variable {auditors : Auditors} {context : ExecutionContext}

theorem process_of_accepts (next : PipelineHandler) (run : Run)
    (h : PolicyGate.Accepts auditors context none run.ucer.steps) :
    PolicyMiddleware.process auditors next context run =
      next context { run with ucer := { run.ucer with
        requiredCapabilities := run.ucer.requiredCapabilities ∪
          PolicyGate.auditedCapabilities auditors run.ucer.steps } } := by
  rw [PolicyMiddleware.process, PolicyGate.evaluate_ok h]

theorem process_of_not_accepts (next : PipelineHandler) (run : Run)
    (h : ¬ PolicyGate.Accepts auditors context none run.ucer.steps) :
    ∃ caps e, PolicyMiddleware.process auditors next context run =
      ({ run with ucer := { run.ucer with requiredCapabilities := caps } }, .error e) := by
  obtain ⟨caps, hcaps⟩ := PolicyGate.evaluate_record auditors run.ucer context none
  rcases hgate : PolicyGate.evaluate auditors run.ucer (some context) none with ⟨ucer, verdict⟩
  rw [hgate] at hcaps
  cases verdict with
  | ok => exact absurd (PolicyGate.evaluate_eq_ok_iff.mp (congrArg Prod.snd hgate)) h
  | error e =>
      refine ⟨caps, e, ?_⟩
      rw [PolicyMiddleware.process, hgate]
      dsimp only at hcaps ⊢
      rw [hcaps]

end Policy

namespace PersistenceMiddleware

variable {world : World} {next : PipelineHandler} {context : ExecutionContext} {run : Run}

theorem saveUcer_ok (h : (saveUcer world run).2 = .ok ()) :
    (saveUcer world run).1 = { run with saves := run.saves + 1, saved := run.saved ++ [run.ucer] } := by
  unfold saveUcer at h ⊢
  cases hsave : world.saveUcer run.saves with
  | stored => rfl
  | storedThenRaised e => exact absurd h (by simp [hsave])
  | raised e => exact absurd h (by simp [hsave])

theorem saveUcer_invocations (world : World) (run : Run) :
    (saveUcer world run).1.invocations = run.invocations := by
  unfold saveUcer
  cases world.saveUcer run.saves <;> rfl

/-- The state in which the next middleware starts: marked running and saved. -/
def started (run : Run) : Run :=
  { start run with saves := run.saves + 1, saved := run.saved ++ [(start run).ucer] }

/-- Either the first save fails and nothing follows, or the next middleware runs and its
outcome is settled and saved. -/
theorem process_cases (world : World) (next : PipelineHandler) (context : ExecutionContext)
    (run : Run) :
    (∃ e, process world next context run = ((saveUcer world (start run)).1, .error e)) ∨
      process world next context run =
        finallySave world (settle (next context (started run))) := by
  unfold process
  rcases hsave : saveUcer world (start run) with ⟨run', _ | _⟩
  · exact Or.inl ⟨_, rfl⟩
  · have hrun' := saveUcer_ok (congrArg Prod.snd hsave)
    rw [hsave] at hrun'
    exact Or.inr (by rw [show run' = started run from hrun'])

theorem settle_invocations (outcome : Run × Except PyError Unit) :
    (settle outcome).1.invocations = outcome.1.invocations := by
  rcases outcome with ⟨run', e | _⟩
  · unfold settle
    dsimp only
    split_ifs <;> rfl
  · rfl

theorem finallySave_invocations (outcome : Run × Except PyError Unit) :
    (finallySave world outcome).1.invocations = outcome.1.invocations := by
  rw [← saveUcer_invocations world outcome.1]
  unfold finallySave
  rcases saveUcer world outcome.1 with ⟨run', _ | _⟩ <;> rfl

/-- When the `try` statement returns, so did the next handler. -/
theorem settle_ok {outcome : Run × Except PyError Unit} (h : (settle outcome).2 = .ok ()) :
    outcome.2 = .ok () ∧
      ∃ status, (settle outcome).1 = outcome.1.setStatus status := by
  rcases outcome with ⟨run', e | _⟩
  · unfold settle at h
    dsimp only at h
    split_ifs at h
  · exact ⟨rfl, _, rfl⟩

/-- When the `finally` lets a call return, the call returned and its record is the
last one stored. -/
theorem finallySave_ok {outcome : Run × Except PyError Unit}
    (h : (finallySave world outcome).2 = .ok ()) :
    outcome.2 = .ok () ∧ (finallySave world outcome).1.ucer = outcome.1.ucer ∧
      (finallySave world outcome).1.saved = outcome.1.saved ++ [outcome.1.ucer] := by
  unfold finallySave at h ⊢
  rcases hsave : saveUcer world outcome.1 with ⟨run', _ | _⟩
  · rw [hsave] at h
    exact absurd h (by simp)
  · have hrun' := saveUcer_ok (congrArg Prod.snd hsave)
    rw [hsave] at h hrun'
    dsimp only at h hrun' ⊢
    rw [hrun']
    exact ⟨h, rfl, rfl⟩

/-- The middleware hands over what the next one hands over, or nothing when the first
save fails. -/
theorem process_invocations (world : World) (next : PipelineHandler)
    (context : ExecutionContext) (run : Run) :
    (process world next context run).1.invocations = run.invocations ∨
      (process world next context run).1.invocations =
        (next context (started run)).1.invocations := by
  obtain ⟨e, h⟩ | h := process_cases world next context run
  · exact Or.inl (by rw [h, saveUcer_invocations]; rfl)
  · exact Or.inr (by rw [h, finallySave_invocations, settle_invocations])

/-- When the middleware returns, so did the next one; the record it returns differs
from the next one's in its status alone, and is the last one stored. -/
theorem process_ok (h : (process world next context run).2 = .ok ()) :
    (next context (started run)).2 = .ok () ∧
      (∃ status, (process world next context run).1.ucer =
        { (next context (started run)).1.ucer with status := status }) ∧
      (process world next context run).1.saved.getLast? =
        some (process world next context run).1.ucer := by
  obtain ⟨e, herror⟩ | heq := process_cases world next context run
  · rw [herror] at h
    exact absurd h (by simp)
  · rw [heq] at h ⊢
    obtain ⟨hsettle, hucer, hsaved⟩ := finallySave_ok h
    obtain ⟨hnext, status, hstatus⟩ := settle_ok hsettle
    rw [hucer, hsaved, List.getLast?_concat, hstatus]
    exact ⟨hnext, ⟨status, rfl⟩, rfl⟩

end PersistenceMiddleware

namespace Facade

variable {facade : Facade} {world : World} {ucer : UCER} {context : Option ExecutionContext}
  {allowedCaps : Option (Finset Capability)}

/-- The capabilities the pipeline's context carries. -/
def activeCapabilities (context : Option ExecutionContext)
    (allowedCaps : Option (Finset Capability)) : Finset Capability :=
  allowedCaps.getD (context.elim {.exec, .fsRead} ExecutionContext.capabilities)

theorem activeContext_capabilities (world : World) (context : Option ExecutionContext)
    (allowedCaps : Option (Finset Capability)) :
    (activeContext world context allowedCaps).capabilities =
      activeCapabilities context allowedCaps := by
  cases context <;> cases allowedCaps <;> rfl

/-- The records and contexts that Crypto and the gate let through. -/
def Accepts (facade : Facade) (ucer : UCER) (caps : Finset Capability) : Prop :=
  CryptoMiddleware.Admits facade.crypto facade.controlPlanePublicKey ucer ∧ .exec ∈ caps ∧
    ∀ step ∈ ucer.steps, PolicyGate.StepAllowed facade.auditors caps step

/-- The record as it leaves the gate. -/
def gated (facade : Facade) (world : World) (ucer : UCER) : UCER :=
  { CryptoMiddleware.admitted facade.crypto facade.controlPlanePrivateKey world ucer with
    requiredCapabilities := ucer.requiredCapabilities ∪
      PolicyGate.auditedCapabilities facade.auditors ucer.steps }

/-- What follows the gate. -/
def execution (facade : Facade) (world : World) : PipelineHandler :=
  PersistenceMiddleware.process world (Engine.process facade.auditors world)

theorem accepts_iff (world : World) (context : Option ExecutionContext)
    (allowedCaps : Option (Finset Capability)) (steps : List ExecutionStep) :
    PolicyGate.Accepts facade.auditors (activeContext world context allowedCaps) none steps ↔
      .exec ∈ activeCapabilities context allowedCaps ∧
        ∀ step ∈ steps, PolicyGate.StepAllowed facade.auditors
          (activeCapabilities context allowedCaps) step := by
  rw [PolicyGate.Accepts, activeContext_capabilities]
  simp

theorem admitted_fields (facade : Facade) (world : World) (ucer : UCER) :
    (CryptoMiddleware.admitted facade.crypto facade.controlPlanePrivateKey world ucer).steps =
        ucer.steps ∧
      (CryptoMiddleware.admitted facade.crypto facade.controlPlanePrivateKey world
        ucer).requiredCapabilities = ucer.requiredCapabilities := by
  unfold CryptoMiddleware.admitted
  split_ifs <;> exact ⟨rfl, rfl⟩

/-- **A record that is let through is saved and executed**, with the audits of all its
steps written into its capabilities. -/
theorem executeUcer_of_accepts (hkey : world.readPubKey = none)
    (h : Accepts facade ucer (activeCapabilities context allowedCaps)) :
    executeUcer facade world ucer context allowedCaps =
      execution facade world (activeContext world context allowedCaps)
        { ucer := gated facade world ucer } := by
  obtain ⟨hadmits, hexec, hsteps⟩ := h
  have hfields := admitted_fields facade world ucer
  unfold executeUcer pipelineProcess build
  rw [List.foldr_cons, process_of_admits _ _ _ _ hkey hadmits, List.foldr_cons, process_of_accepts]
  · rw [hfields.1, hfields.2]
    rfl
  · dsimp only
    rw [hfields.1]
    exact (accepts_iff world context allowedCaps ucer.steps).mpr ⟨hexec, hsteps⟩

/-- **Any other record is refused**: the call raises, nothing has been handed to an
adapter and nothing saved. -/
theorem executeUcer_of_refused
    (h : ¬ (world.readPubKey = none ∧
      Accepts facade ucer (activeCapabilities context allowedCaps))) :
    ∃ ucer' e, executeUcer facade world ucer context allowedCaps =
      ({ ucer := ucer' }, .error e) := by
  unfold executeUcer pipelineProcess build
  rw [List.foldr_cons]
  by_cases hcrypto : world.readPubKey = none ∧
      CryptoMiddleware.Admits facade.crypto facade.controlPlanePublicKey ucer
  · have hfields := admitted_fields facade world ucer
    have hgate : ¬ PolicyGate.Accepts facade.auditors (activeContext world context allowedCaps)
        none (CryptoMiddleware.admitted facade.crypto facade.controlPlanePrivateKey world
          ucer).steps := by
      intro haccepts
      rw [hfields.1] at haccepts
      obtain ⟨hexec, hsteps⟩ := (accepts_iff world context allowedCaps ucer.steps).mp haccepts
      exact h ⟨hcrypto.1, hcrypto.2, hexec, hsteps⟩
    rw [process_of_admits _ _ _ _ hcrypto.1 hcrypto.2, List.foldr_cons]
    obtain ⟨caps, e, herror⟩ := process_of_not_accepts _ { ucer := _ } hgate
    exact ⟨_, e, herror⟩
  · obtain ⟨status, e, herror⟩ := process_of_not_admits facade.controlPlanePrivateKey _
      (activeContext world context allowedCaps) { ucer := ucer } hcrypto
    exact ⟨_, e, herror⟩

/-! ## In the calm world -/

/-- The isolation level negotiated for a record that was let through. -/
def isolationOf (facade : Facade) (ucer : UCER) : Isolation :=
  negotiateIsolation { ucer with requiredCapabilities :=
    ucer.requiredCapabilities ∪ PolicyGate.auditedCapabilities facade.auditors ucer.steps }

/-- What the execution of a record that was let through hands over, in any world. -/
theorem execution_invocations (facade : Facade) (world : World) (context : ExecutionContext)
    (ucer : UCER) :
    ∃ handed, handed <+: Engine.admitted facade.auditors (isolationOf facade ucer) context ucer.steps ∧
      (execution facade world context { ucer := gated facade world ucer }).1.invocations =
        handed := by
  obtain hnone | hengine := PersistenceMiddleware.process_invocations world
    (Engine.process facade.auditors world) context { ucer := gated facade world ucer }
  · exact ⟨[], List.nil_prefix, hnone⟩
  · obtain ⟨handed, hpre, hhanded⟩ := Engine.runSteps_invocations facade.auditors
      world (isolationOf facade ucer) context
      (CryptoMiddleware.admitted facade.crypto facade.controlPlanePrivateKey world ucer).steps
      (PersistenceMiddleware.started { ucer := gated facade world ucer })
    rw [(admitted_fields facade world ucer).1] at hpre
    exact ⟨handed, hpre, hengine.trans hhanded⟩

/-- In the calm world every step before the first one not admitted is handed over. -/
theorem execution_calm (facade : Facade) (context : ExecutionContext) (ucer : UCER) :
    (execution facade Engine.calm context
        { ucer := gated facade Engine.calm ucer }).1.invocations =
      Engine.admitted facade.auditors (isolationOf facade ucer) context ucer.steps := by
  have hcalm : execution facade Engine.calm context { ucer := gated facade Engine.calm ucer } =
      PersistenceMiddleware.finallySave Engine.calm (PersistenceMiddleware.settle
        (Engine.process facade.auditors Engine.calm context
          (PersistenceMiddleware.started { ucer := gated facade Engine.calm ucer }))) := rfl
  rw [hcalm, PersistenceMiddleware.finallySave_invocations,
    PersistenceMiddleware.settle_invocations, ← (admitted_fields facade Engine.calm ucer).1]
  exact (Engine.runSteps_calm (isolationOf facade ucer) context _ _).trans (List.nil_append _)

/-- In the calm world the execution returns when every step is admitted. -/
theorem execution_calm_ok (facade : Facade) (context : ExecutionContext) (ucer : UCER)
    (h : ∀ step ∈ ucer.steps, Unified.Admits facade.auditors context
      (Engine.adapterName (isolationOf facade ucer) step) step.command) :
    (execution facade Engine.calm context { ucer := gated facade Engine.calm ucer }).2 =
      .ok () := by
  rw [← (admitted_fields facade Engine.calm ucer).1] at h
  have hengine : (Engine.process facade.auditors Engine.calm context
      (PersistenceMiddleware.started { ucer := gated facade Engine.calm ucer })).2 = .ok () :=
    Engine.runSteps_calm_ok _ h
  show (PersistenceMiddleware.settle (Engine.process facade.auditors Engine.calm context
    (PersistenceMiddleware.started { ucer := gated facade Engine.calm ucer }))).2 = .ok ()
  rcases hrun : Engine.process facade.auditors Engine.calm context
    (PersistenceMiddleware.started { ucer := gated facade Engine.calm ucer }) with ⟨run, e | _⟩
  · rw [hrun] at hengine
    exact absurd hengine (by simp)
  · rfl

/-- In the calm world the execution saves the record. -/
theorem execution_calm_saved (facade : Facade) (context : ExecutionContext) (run : Run) :
    (execution facade Engine.calm context run).1.saved ≠ [] := by
  show (PersistenceMiddleware.settle (Engine.process facade.auditors Engine.calm context
    (PersistenceMiddleware.started run))).1.saved ++ [_] ≠ []
  exact List.append_ne_nil_of_right_ne_nil _ (List.cons_ne_nil _ _)

end Facade

end Ucser
