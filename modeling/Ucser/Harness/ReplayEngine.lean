import Ucser.Core.Parity
import Ucser.Lib.JsonLoads

/-!
# The replay harness: `tests/harness`

`replay_and_analyze` replays a stored record and compares its traces with those of the replay,
pair by pair, by a hash of what does not depend on the moment.

* `TraceComparator` — the normal form of a trace, its hash, and the comparison;
  `assertEquivalent_iff` — what it compares.
* `ReplayEngine.replayAndAnalyze` — the analysis.
* `execution_answered`, `replay_answered` — the traces of a call that returned, and of a replay.
* `stepDrift` — on which steps two adapters differ, as far as the traces show it.
* `replayAndAnalyze_exact` — **the drifts that are found are the steps executed on which the
  adapters differ.**
-/

namespace Ucser

/-! ## Comparing traces -/

/-- What is printed and returned. -/
structure Output where
  stdout : String
  stderr : String
  exitCode : Int
  deriving DecidableEq

namespace TraceComparator

variable (crypto : Crypto)

/-- `str.strip()`. -/
def strip (text : String) : String := String.ofList (Text.strip text.toList)

/-- What is compared of a trace. -/
def normalized (trace : ExecutionTrace) : Json.Value :=
  .obj [("adapter", .str trace.adapter.name), ("command", .str (strip trace.command)),
    ("stdout", .str (strip trace.stdout)), ("stderr", .str (strip trace.stderr)),
    ("exit_code", .num (.ofInt trace.exitCode))]

/-- `normalize_trace`. -/
def normalizeTrace (trace : ExecutionTrace) : String := Json.dumpsSorted (normalized trace)

/-- `hash_trace`. -/
def hashTrace (trace : ExecutionTrace) : String := crypto.sha256 (Text.utf8 (normalizeTrace trace))

/-- `assert_equivalent`. -/
def assertEquivalent (trace₁ trace₂ : ExecutionTrace) : Bool :=
  hashTrace crypto trace₁ = hashTrace crypto trace₂

variable {crypto} {trace₁ trace₂ : ExecutionTrace}

theorem wellFormed_normalized (trace : ExecutionTrace) : (normalized trace).wellFormed = true := by
  have hexit := Json.Number.isLiteral_ofInt trace.exitCode
  simp [normalized, Json.Value.wellFormed, Json.wellFormedFields, hexit]

/-- **What is compared**: the adapter, the exit code, and the three texts up to the blanks
around them. -/
theorem assertEquivalent_iff (h : Function.Injective crypto.sha256) :
    assertEquivalent crypto trace₁ trace₂ = true ↔
      trace₁.adapter = trace₂.adapter ∧ strip trace₁.command = strip trace₂.command ∧
        strip trace₁.stdout = strip trace₂.stdout ∧ strip trace₁.stderr = strip trace₂.stderr ∧
        trace₁.exitCode = trace₂.exitCode := by
  rw [assertEquivalent, decide_eq_true_iff]
  constructor
  · intro heq
    have hsorted := (Json.dumpsSorted_inj (wellFormed_normalized trace₁)
      (wellFormed_normalized trace₂)).mp (Text.utf8_injective (h heq))
    rw [normalized, normalized, Json.sortKeys, Json.sortKeys, Json.Value.obj.injEq] at hsorted
    have hfield := fun key => congrArg (fun kvs => Json.get? kvs key) hsorted
    simp only [Json.get?_sortFields] at hfield
    have hadapter := hfield "adapter"
    have hcommand := hfield "command"
    have hstdout := hfield "stdout"
    have hstderr := hfield "stderr"
    have hexit := hfield "exit_code"
    simp [Json.get?, Json.sortKeys] at hadapter hcommand hstdout hstderr hexit
    exact ⟨Adapter.name_injective hadapter, hcommand, hstdout, hstderr,
      Json.Number.ofInt_injective hexit⟩
  · rintro ⟨hadapter, hcommand, hstdout, hstderr, hexit⟩
    rw [hashTrace, hashTrace, normalizeTrace, normalizeTrace, normalized, normalized, hadapter,
      hcommand, hstdout, hstderr, hexit]

end TraceComparator

/-! ## The analysis -/

/-- An entry of the list of drifts. -/
structure Drift where
  stepId : String
  command : String
  original : Output
  replay : Output

/-- What is printed and returned, as the trace has it. -/
def ExecutionTrace.output (trace : ExecutionTrace) : Output :=
  ⟨trace.stdout, trace.stderr, trace.exitCode⟩

/-- What `replay_and_analyze` returns. -/
structure Analysis where
  isDeterministic : Bool
  drifts : List Drift

namespace ReplayEngine

/-- One round of the loop over the pairs of traces. -/
def compare (crypto : Crypto) (analysis : Analysis) (pair : ExecutionTrace × ExecutionTrace) :
    Analysis :=
  if TraceComparator.assertEquivalent crypto pair.1 pair.2 then analysis
  else ⟨false, analysis.drifts ++
    [⟨pair.1.stepId, pair.1.command, pair.1.output, pair.2.output⟩]⟩

/-- The answers of the outside to a call of `replay_and_analyze`. -/
structure AnalysisWorld extends ReplayWorld where
  /-- The record may fail to be read before the replay is begun. -/
  getOriginal : Option PyError := none

/-- `replay_and_analyze`. -/
def replayAndAnalyze (facade : Facade) (world : AnalysisWorld) (stored : List UCER)
    (ucerId : String) : Except PyError Analysis :=
  match world.getOriginal with
  | some e => .error e
  | none =>
      match getUcer stored ucerId with
      | none => .error (.valueError ("UCER " ++ ucerId ++ " not found for replay"))
      | some original =>
          match (Facade.replay facade world.toReplayWorld stored ucerId none).2 with
          | .error e => .error e
          | .ok replayed =>
              .ok ((original.traces.zip replayed.traces).foldl (compare facade.crypto) ⟨true, []⟩)

/-- A replay that returns is analysed. -/
theorem replayAndAnalyze_of_replay {facade : Facade} {world : AnalysisWorld} {stored : List UCER}
    {ucerId : String} {original replayed : UCER} (hget : world.getOriginal = none)
    (hstored : getUcer stored ucerId = some original)
    (hreplay : (Facade.replay facade world.toReplayWorld stored ucerId none).2 = .ok replayed) :
    replayAndAnalyze facade world stored ucerId =
      .ok ((original.traces.zip replayed.traces).foldl (compare facade.crypto) ⟨true, []⟩) := by
  rw [replayAndAnalyze, hget, hstored]
  dsimp only
  rw [hreplay]

/-- The entry for a pair of traces, if it gets one. -/
def drift? (crypto : Crypto) (pair : ExecutionTrace × ExecutionTrace) : Option Drift :=
  if TraceComparator.assertEquivalent crypto pair.1 pair.2 then none
  else some ⟨pair.1.stepId, pair.1.command, pair.1.output, pair.2.output⟩

/-- **What the loop comes to.**  By induction on the pairs, from the last one. -/
theorem foldl_compare (crypto : Crypto) (pairs : List (ExecutionTrace × ExecutionTrace)) :
    pairs.foldl (compare crypto) ⟨true, []⟩ =
      ⟨(pairs.filterMap (drift? crypto)).isEmpty, pairs.filterMap (drift? crypto)⟩ := by
  induction pairs using List.reverseRecOn with
  | nil => rfl
  | append_singleton pairs last ih =>
      rw [List.foldl_append, ih, List.filterMap_append, List.foldl_cons, List.foldl_nil, compare]
      by_cases hlast : TraceComparator.assertEquivalent crypto last.1 last.2 = true
      · simp [drift?, hlast]
      · simp [drift?, hlast]

end ReplayEngine

/-! ## The traces of a call and of a replay -/

/-- The loop of the engine, if it returns, has traced the first steps. -/
theorem Engine.runSteps_answered {auditors : Auditors} {world : World} {isolation : Isolation}
    {context : ExecutionContext} {steps : List ExecutionStep} {run : Run}
    (h : (runSteps auditors world isolation context steps run).2 = .ok ()) :
    ∃ executed traces, executed <+: steps ∧
      List.Forall₂ (Answered world isolation context) executed traces ∧
      (runSteps auditors world isolation context steps run).1.ucer.traces =
        run.ucer.traces ++ traces := by
  cases runSteps_exit auditors world isolation context steps run with
  | finished traces hclean _ htraces _ _ =>
      exact ⟨steps, traces, List.prefix_refl _, hclean.imp fun _ _ h => h.1, htraces⟩
  | exitCode before after step traces trace hsteps hclean htrace _ _ htraces _ _ =>
      refine ⟨before ++ [step], traces ++ [trace], ⟨after, ?_⟩, ?_, htraces⟩
      · rw [hsteps, List.append_assoc, List.singleton_append]
      · exact List.rel_append (hclean.imp fun _ _ h => h.1) (.cons htrace .nil)
  | raised _ _ _ _ _ _ _ _ _ _ _ _ _ hresult => exact absurd (h.symm.trans hresult) (by simp)
  | cancelled _ _ _ hresult => exact absurd (h.symm.trans hresult) (by simp)

/-- The loop of a replay, if it returns, has traced every step. -/
theorem replaySteps_answered {auditors : Auditors} {world : World} {isolation : Isolation}
    {context : ExecutionContext} {steps : List ExecutionStep} {run : Run}
    (h : (replaySteps auditors world isolation context steps run).2 = .ok ()) :
    ∃ traces, List.Forall₂ (Engine.Answered world isolation context) steps traces ∧
      (replaySteps auditors world isolation context steps run).1.ucer.traces =
        run.ucer.traces ++ traces.map ExecutionTrace.withoutEffects := by
  induction steps generalizing run with
  | nil => exact ⟨[], .nil, (List.append_nil _).symm⟩
  | cons step steps ih =>
      rw [replaySteps] at h ⊢
      obtain ⟨result, _, hresult, hstep⟩ | ⟨handed, e, _, hstep⟩ := replayStep_cases step run
      · rw [hstep] at h ⊢
        obtain ⟨traces, hanswered, htraces⟩ := ih h
        refine ⟨_ :: traces, .cons ⟨_, result, hresult, rfl⟩ hanswered, ?_⟩
        dsimp only
        rw [htraces, replayTraceOf_eq, List.map_cons, List.append_assoc, List.singleton_append]
      · rw [hstep] at h
        exact absurd h (by simp)

namespace Facade

variable {facade : Facade} {world : World} {ucer : UCER} {context : Option ExecutionContext}
  {allowedCaps : Option (Finset Capability)}

/-- The traces of a record whose call returned are those of its first steps. -/
theorem execution_answered (h : (executeUcer facade world ucer context allowedCaps).2 = .ok ()) :
    ∃ executed, executed <+: ucer.steps ∧
      List.Forall₂ (Engine.Answered world (isolationOf facade ucer)
        (activeContext world context allowedCaps)) executed
        (executeUcer facade world ucer context allowedCaps).1.ucer.traces := by
  obtain ⟨hkey, haccepts⟩ := accepts_of_ok h
  rw [executeUcer_of_accepts hkey haccepts] at h ⊢
  obtain ⟨hengine, hucer⟩ := PersistenceMiddleware.process_ok_ucer h
  rw [execution, hucer]
  rcases hrun : Engine.process facade.auditors world (activeContext world context allowedCaps)
    (PersistenceMiddleware.started { ucer := gated facade world ucer }) with ⟨left, e | _⟩
  · rw [hrun] at hengine
    exact absurd hengine (by simp)
  have hloop : Engine.runSteps facade.auditors world (isolationOf facade ucer)
      (activeContext world context allowedCaps) ucer.steps
      (PersistenceMiddleware.started { ucer := gated facade world ucer }) = (left, .ok ()) := by
    rw [← hrun, ← gated_steps facade world ucer]
    rfl
  obtain ⟨executed, traces, hprefix, hanswered, htraces⟩ :=
    Engine.runSteps_answered (congrArg Prod.snd hloop)
  rw [hloop] at htraces
  have hleft : left.ucer.traces = traces := htraces
  refine ⟨executed, hprefix, ?_⟩
  rw [PersistenceMiddleware.settle]
  dsimp only [Run.setStatus]
  rw [hleft]
  exact hanswered

/-- The traces of a replay that returned are those of all steps, without side effects. -/
theorem replay_answered {later : ReplayWorld} {stored : List UCER} {ucerId : String}
    {original record : UCER} {context' : Option ExecutionContext}
    (hstored : getUcer stored ucerId = some original)
    (h : (replay facade later stored ucerId context').2 = .ok record) :
    ∃ traces, List.Forall₂ (Engine.Answered later.toWorld (negotiateIsolation original)
        (replayContext original context')) original.steps traces ∧
      record.traces = traces.map ExecutionTrace.withoutEffects := by
  unfold replay at h
  rw [hstored] at h
  split at h
  · exact absurd h (by simp)
  dsimp only at h
  split at h
  · exact absurd h (by simp)
  split at h
  · exact absurd h (by simp)
  rcases hrun : replaySteps facade.auditors later.toWorld (negotiateIsolation original)
    (replayContext original context') original.steps
    { ucer := { original with traces := [], status := .running } } with ⟨run, e | _⟩
  · simp [replayRecord, hrun, Except.map] at h
  · obtain ⟨traces, hanswered, htraces⟩ := replaySteps_answered (congrArg Prod.snd hrun)
    rw [hrun] at htraces
    simp [replayRecord, hrun, Except.map] at h
    exact ⟨traces, hanswered, by rw [← h]; exact htraces⟩

end Facade

/-! ## What is found -/

/-- The text of an output, without noise and without blanks around it, is stripped. -/
theorem TraceComparator.strip_normalizeOutput (text : String) :
    strip (normalizeOutput text) = normalizeOutput text := by
  have hself : Text.strip (Text.strip (dropAnsi 0 text.toList)) =
      Text.strip (dropAnsi 0 text.toList) := Text.strip_strip _
  rw [strip, normalizeOutput, String.toList_ofList, hself]

/-- What a trace has of a result. -/
def RunResult.output (result : RunResult) : Output :=
  ⟨normalizeOutput (result.stdout.getD ""), normalizeOutput (result.stderr.getD ""),
    result.exitCode.getD (-1)⟩

section Exact

variable (answer answer' : Adapter → String → Except PyError RunResult) (isolation : Isolation)

/-- The drift of a step that is answered by `answer` first and by `answer'` in the replay. -/
def stepDrift (step : ExecutionStep) : Option Drift :=
  match answer (Engine.adapterName isolation step) step.command,
    answer' (Engine.adapterName isolation step) step.command with
  | .ok result, .ok result' =>
      if result.output = result'.output then none
      else some ⟨step.stepId, step.command, result.output, result'.output⟩
  | _, _ => none

variable {answer answer' isolation} {crypto : Crypto} {world later : World}
  {context context' : ExecutionContext} {step : ExecutionStep} {trace trace' : ExecutionTrace}

/-- The entry of a step is the drift of its traces. -/
theorem drift?_of_answered (hcrypto : Function.Injective crypto.sha256)
    (hfixed : world.Fixed answer) (hlater : later.Fixed answer')
    (h : Engine.Answered world isolation context step trace)
    (h' : Engine.Answered later isolation context' step trace') :
    ReplayEngine.drift? crypto (trace, trace'.withoutEffects) =
      stepDrift answer answer' isolation step := by
  obtain ⟨n, result, hresult, rfl⟩ := h
  obtain ⟨m, result', hresult', rfl⟩ := h'
  rw [hfixed] at hresult
  rw [hlater] at hresult'
  have houtput : (Engine.traceOf (Engine.adapterName isolation step) step result).output =
      result.output := rfl
  have houtput' : ((Engine.traceOf (Engine.adapterName isolation step) step
      result').withoutEffects).output = result'.output := rfl
  have hequivalent : TraceComparator.assertEquivalent crypto
      (Engine.traceOf (Engine.adapterName isolation step) step result)
      (Engine.traceOf (Engine.adapterName isolation step) step result').withoutEffects = true ↔
        result.output = result'.output := by
    rw [TraceComparator.assertEquivalent_iff hcrypto]
    simp [Engine.traceOf, ExecutionTrace.withoutEffects, RunResult.output,
      TraceComparator.strip_normalizeOutput]
  rw [ReplayEngine.drift?, stepDrift, hresult, hresult']
  dsimp only
  by_cases heq : result.output = result'.output
  · rw [if_pos (hequivalent.mpr heq), if_pos heq]
  · rw [if_neg (mt hequivalent.mp heq), if_neg heq, houtput, houtput']
    rfl

/-- **The entries for the traces of a call and of a replay.**  By induction on the traces of
the call; the replay may have more. -/
theorem filterMap_drift? {executed rest : List ExecutionStep}
    {traces replayed : List ExecutionTrace} (hcrypto : Function.Injective crypto.sha256)
    (hfixed : world.Fixed answer) (hlater : later.Fixed answer')
    (h : List.Forall₂ (Engine.Answered world isolation context) executed traces)
    (h' : List.Forall₂ (Engine.Answered later isolation context') (executed ++ rest) replayed) :
    (traces.zip (replayed.map ExecutionTrace.withoutEffects)).filterMap
        (ReplayEngine.drift? crypto) =
      executed.filterMap (stepDrift answer answer' isolation) := by
  induction h generalizing replayed with
  | nil => rfl
  | @cons step trace executed traces hstep _ ih =>
      cases h' with
      | @cons _ trace' _ replayed hstep' hrest =>
          rw [List.map_cons, List.zip_cons_cons, List.filterMap_cons, List.filterMap_cons,
            drift?_of_answered hcrypto hfixed hlater hstep hstep', ih hrest]

end Exact

namespace ReplayEngine

/-- **The analysis is exact.**  Let a call have returned, let the adapters answer every
command by `answer` in it, and by `answer'` whenever it is run in the replay, and let the
analysis return.  Then its drifts are those of the steps that the call has traced, in their
order, and it says so if there are none.  The steps behind a non-zero exit code, which the
replay runs as well, are not looked at. -/
theorem replayAndAnalyze_exact (facade : Facade) (world : World) (later : AnalysisWorld)
    (answer answer' : Adapter → String → Except PyError RunResult) (ucer : UCER)
    (context : Option ExecutionContext) (allowedCaps : Option (Finset Capability))
    (earlier : List UCER) (analysis : Analysis)
    (hcrypto : Function.Injective facade.crypto.sha256)
    (hreturned : (Facade.executeUcer facade world ucer context allowedCaps).2 = .ok ())
    (hfixed : world.Fixed answer) (hlater : later.Fixed answer')
    (hanalysis : replayAndAnalyze facade later
      (earlier ++ (Facade.executeUcer facade world ucer context allowedCaps).1.saved)
      ucer.commandId = .ok analysis) :
    analysis.drifts = (ucer.steps.take
        (Facade.executeUcer facade world ucer context allowedCaps).1.ucer.traces.length).filterMap
        (stepDrift answer answer' (Facade.isolationOf facade ucer)) ∧
      (analysis.isDeterministic = true ↔ analysis.drifts = []) := by
  have hstored := Facade.getUcer_executeUcer hreturned earlier
  obtain ⟨executed, hprefix, hanswered⟩ := Facade.execution_answered hreturned
  obtain ⟨_, _, _, hucer, _⟩ := Facade.executeUcer_ok hreturned
  set original := (Facade.executeUcer facade world ucer context allowedCaps).1.ucer
  have hsteps : original.steps = ucer.steps := by
    rw [hucer]
    unfold Facade.signed
    split_ifs <;> rfl
  have hisolation : negotiateIsolation original = Facade.isolationOf facade ucer := by
    rw [hucer]
    rfl
  rw [replayAndAnalyze, hstored] at hanalysis
  split at hanalysis
  · exact absurd hanalysis (by simp)
  dsimp only at hanalysis
  split at hanalysis
  · exact absurd hanalysis (by simp)
  rename_i replayed hreplay
  obtain ⟨traces, hreplayed, htraces⟩ := Facade.replay_answered hstored hreplay
  obtain ⟨rest, hrest⟩ := hprefix
  rw [hsteps, hisolation, ← hrest] at hreplayed
  rw [foldl_compare, htraces,
    filterMap_drift? hcrypto hfixed hlater hanswered hreplayed] at hanalysis
  obtain rfl := Except.ok.inj hanalysis
  have htake : ucer.steps.take original.traces.length = executed := by
    rw [← hrest, ← hanswered.length_eq, List.take_left]
  rw [htake]
  exact ⟨rfl, List.isEmpty_iff⟩

/-- A replay that nothing disturbs runs every step, if the steps are admitted and answered. -/
theorem replaySteps_returns {auditors : Auditors} {world : World} {isolation : Isolation}
    {context : ExecutionContext} {steps : List ExecutionStep}
    {answer : Adapter → String → Except PyError RunResult} (run : Run)
    (hcalm : ∀ n, world.interrupted n = none) (hfixed : world.Fixed answer)
    (hanswers : ∀ adapter command, ∃ result, answer adapter command = .ok result)
    (hadmits : ∀ step ∈ steps,
      Unified.Admits auditors context (Engine.adapterName isolation step) step.command) :
    (replaySteps auditors world isolation context steps run).2 = .ok () := by
  induction steps generalizing run with
  | nil => rfl
  | cons step steps ih =>
      obtain ⟨hstep, hsteps⟩ := List.forall_mem_cons.mp hadmits
      obtain ⟨result, hresult⟩ := hanswers (Engine.adapterName isolation step) step.command
      rw [replaySteps, replayStep_of_admits run (hcalm _) hstep ((hfixed _ _ _ _).trans hresult)]
      exact ih _ hsteps

/-- A replay in a world where every command fails. -/
def failingAnalysis : AnalysisWorld := { Facade.failingReplay with }

/-- The record that has been run in the calm world. -/
def echoed : UCER :=
  (Facade.executeUcer Facade.plainFacade Engine.calm (Facade.echoRecord {.exec})
    (some Facade.execContext) none).1.ucer

theorem admits_echoed : ∀ step ∈ echoed.steps, Unified.Admits Facade.plainFacade.auditors
    (replayContext echoed none) (Engine.adapterName (negotiateIsolation echoed) step)
    step.command := by
  obtain ⟨status, traces, key, hucer, _⟩ :=
    Facade.executeUcer_ok (Facade.executeUcer_echoRecord (Finset.Subset.refl {Capability.exec}))
  have hcaps : echoed.requiredCapabilities = {.exec} := by
    rw [echoed, hucer]
    show (Facade.echoRecord {.exec}).requiredCapabilities ∪
      PolicyGate.auditedCapabilities Facade.plainFacade.auditors (Facade.echoRecord ∅).steps = _
    decide
  have hsteps : echoed.steps = (Facade.echoRecord ∅).steps := by
    rw [echoed, hucer]
    rfl
  have hne : ({Capability.exec} : Finset Capability) ≠ ∅ := by decide
  intro step hstep
  rw [hsteps] at hstep
  rw [List.mem_singleton.mp hstep, negotiateIsolation, replayContext, replayCaps, hcaps,
    if_neg hne, Option.getD_none]
  decide

theorem echoed_drifts :
    ∃ analysis, replayAndAnalyze Facade.plainFacade failingAnalysis
        ([] ++ (Facade.executeUcer Facade.plainFacade Engine.calm (Facade.echoRecord {.exec})
          (some Facade.execContext) none).1.saved) "c" = .ok analysis ∧
      analysis.drifts = ((Facade.echoRecord {.exec}).steps.take
          (Facade.executeUcer Facade.plainFacade Engine.calm (Facade.echoRecord {.exec})
            (some Facade.execContext) none).1.ucer.traces.length).filterMap
        (stepDrift (fun _ _ => .ok { exitCode := some 0 }) (fun _ _ => .ok { exitCode := some 1 })
          (Facade.isolationOf Facade.plainFacade (Facade.echoRecord {.exec}))) ∧
      (analysis.isDeterministic = true ↔ analysis.drifts = []) := by
  have hreturned := Facade.executeUcer_echoRecord (Finset.Subset.refl {Capability.exec})
  have hstored := Facade.getUcer_executeUcer hreturned []
  have hfixed : Facade.failing.Fixed fun _ _ => .ok { exitCode := some 1 } := fun _ _ _ _ => rfl
  have hundisturbed : Facade.failingReplay.Undisturbed := ⟨fun _ => rfl, rfl, rfl, rfl⟩
  have hloop := replaySteps_returns { ucer := { echoed with traces := [], status := .running } }
    (fun _ => rfl) hfixed (fun _ _ => ⟨_, rfl⟩) admits_echoed
  have hreplay := Facade.replay_of_undisturbed none hundisturbed hstored _ (Prod.ext rfl hloop)
  obtain ⟨analysis, hanalysis⟩ : ∃ analysis, replayAndAnalyze Facade.plainFacade failingAnalysis
      ([] ++ (Facade.executeUcer Facade.plainFacade Engine.calm (Facade.echoRecord {.exec})
        (some Facade.execContext) none).1.saved) "c" = .ok analysis := by
    refine ⟨_, replayAndAnalyze_of_replay rfl hstored hreplay⟩
  exact ⟨analysis, hanalysis, replayAndAnalyze_exact _ _ _ _ _ _ _ _ _ _
    (Crypto.transparent_sound "private" "public").sha256_injective hreturned
    (fun _ _ _ _ => rfl) (fun _ _ _ _ => rfl) hanalysis⟩

end ReplayEngine
end Ucser
