import Mathlib.Data.List.Find
import Ucser.Core.Dispatch
import Ucser.Core.Trust

/-!
# The engine's telemetry and the status of its node

The engine reports single steps; `_on_job_event` takes every report for the verdict on
the whole record.  The events of a record may be handled in any order, while the engine
is still at work or later.

* `Outcome`, `Engine.outcomeOf` — what a step comes to; `execStep_of_outcome` — what
  the engine makes of it.
* `UCERGraph.bearer` — the node an event about a record reaches.
* `TelemetryState`, `telemetry` — the engine, the events on the bus, and the graph.
* `outcome_eq_process` — **the rounds of the system are the loop of `EngineMiddleware`**.
* `telemetryAgrees_iff` — **when the node agrees with its record**.
-/

namespace Ucser

/-! ## What a step comes to -/

/-- What processing a step comes to. -/
inductive Outcome where
  /-- Its command ends with exit code zero, and its trace is inspected. -/
  | success
  /-- Its command ends with another exit code. -/
  | exitCode
  /-- An ordinary exception is raised, by the executor or the sentinel. -/
  | exception
  /-- The task is cancelled. -/
  | cancelled
  deriving DecidableEq, Repr

namespace Engine

variable (auditors : Auditors) (world : World) (isolation : Isolation) (context : ExecutionContext)

/-- What a step comes to, by what the executor and the sentinel answer. -/
def outcomeOf (step : ExecutionStep) (run : Run) : Outcome :=
  match (awaitExecute auditors world context (adapterName isolation step) step.command run).2 with
  | .error e => if e.isException then .exception else .cancelled
  | .ok result =>
      let trace := traceOf (adapterName isolation step) step result
      if inspectTrace getAuditLog trace context = false then .exception
      else if trace.exitCode ≠ 0 then .exitCode
      else .success

/-- The outcome is what a round returns or raises. -/
theorem outcomeOf_eq (step : ExecutionStep) (run : Run) :
    outcomeOf auditors world isolation context step run =
      match (execStep auditors world isolation context step run).2 with
      | .ok true => .success
      | .ok false => .exitCode
      | .error e => if e.isException then .exception else .cancelled := by
  unfold outcomeOf execStep tryStep
  rcases hawait : awaitExecute auditors world context (adapterName isolation step) step.command run
    with ⟨run', e | result⟩
  · cases he : e.isException with
    | true => simp [hawait, he]
    | false => simp [hawait, he]
  · by_cases hinspect :
        inspectTrace getAuditLog (traceOf (adapterName isolation step) step result) context = false
    · simp [hawait, hinspect, sentinelError, PyError.isException]
    · by_cases hexit : (traceOf (adapterName isolation step) step result).exitCode = 0
      · simp [hawait, hinspect, hexit]
      · simp [hawait, hinspect, hexit]

/-- **What a round makes of the outcome.** -/
theorem execStep_of_outcome (step : ExecutionStep) (run : Run) :
    ∃ handed traces, match outcomeOf auditors world isolation context step run with
      | .success => execStep auditors world isolation context step run =
          (advance run run.ucer.status traces handed [eventOf world run isolation step true],
            .ok true)
      | .exitCode => execStep auditors world isolation context step run =
          (advance run .failed traces handed [], .ok false)
      | .exception => ∃ e, e.isException = true ∧
          execStep auditors world isolation context step run =
            (advance run .failed traces handed [eventOf world run isolation step false], .error e)
      | .cancelled => ∃ e, e.isException = false ∧
          execStep auditors world isolation context step run =
            (advance run run.ucer.status traces handed [], .error e) := by
  obtain ⟨handed, traces, _, ⟨_, h⟩ | ⟨_, h⟩ | ⟨e, he, h⟩ | ⟨e, he, h⟩⟩ :=
    execStep_cases auditors world isolation context step run
  · refine ⟨handed, traces, ?_⟩
    rw [outcomeOf_eq, h]
  · refine ⟨handed, traces, ?_⟩
    rw [outcomeOf_eq, h]
  · refine ⟨handed, traces, ?_⟩
    rw [outcomeOf_eq, h]
    simp [he]
  · refine ⟨handed, traces, ?_⟩
    rw [outcomeOf_eq, h]
    simp [he]

/-- The task of the engine is cancelled at one of the steps, those before it having
succeeded. -/
def Cancelled : List ExecutionStep → Run → Prop
  | [], _ => False
  | step :: steps, run =>
      match outcomeOf auditors world isolation context step run with
      | .success => Cancelled steps (execStep auditors world isolation context step run).1
      | .cancelled => True
      | _ => False

/-- A cancelled loop leaves the status of the record alone; any other raises no
cancellation. -/
theorem cancelled_cases (steps : List ExecutionStep) (run : Run) :
    (Cancelled auditors world isolation context steps run ∧
        (∃ e, (runSteps auditors world isolation context steps run).2 = .error e ∧
          e.isException = false) ∧
        (runSteps auditors world isolation context steps run).1.ucer.status = run.ucer.status) ∨
      (¬ Cancelled auditors world isolation context steps run ∧
        ∀ e, (runSteps auditors world isolation context steps run).2 = .error e →
          e.isException = true) := by
  induction steps generalizing run with
  | nil => exact Or.inr ⟨id, fun e he => absurd he (by simp [runSteps])⟩
  | cons step steps ih =>
      obtain ⟨handed, traces, h⟩ :=
        execStep_of_outcome auditors world isolation context step run
      unfold Cancelled runSteps
      cases houtcome : outcomeOf auditors world isolation context step run with
      | success =>
          rw [houtcome] at h
          dsimp only at h ⊢
          rw [h]
          exact ih _
      | exitCode =>
          rw [houtcome] at h
          dsimp only at h ⊢
          rw [h]
          exact Or.inr ⟨id, fun e he => absurd he (by simp)⟩
      | exception =>
          rw [houtcome] at h
          obtain ⟨e, hexception, h⟩ := h
          dsimp only
          rw [h]
          refine Or.inr ⟨id, fun e' he' => ?_⟩
          rwa [← Except.error.inj he']
      | cancelled =>
          rw [houtcome] at h
          obtain ⟨e, hexception, h⟩ := h
          dsimp only
          rw [h]
          exact Or.inl ⟨trivial, ⟨e, rfl, hexception⟩, rfl⟩

end Engine

/-! ## Events about a record -/

namespace UCERGraph

/-- The key of the first node that carries the identifier. -/
def bearer (graph : UCERGraph) (ucerId : String) : Option String :=
  (graph.nodes.items.find? (fun item => item.2.ucerId = some ucerId)).map Prod.fst

variable {graph graph' : UCERGraph} {key ucerId : String}

theorem get?_of_bearer (h : graph.bearer ucerId = some key) :
    ∃ node, graph.nodes.items.find? (fun item => item.2.ucerId = some ucerId) = some (key, node) ∧
      graph.nodes.get? key = some node ∧ node.ucerId = some ucerId := by
  obtain ⟨⟨k, node⟩, hfind, rfl⟩ := Option.map_eq_some_iff.mp h
  refine ⟨node, hfind, Dict.mem_items_iff.mp (List.mem_of_find?_eq_some hfind), ?_⟩
  have hid := List.find?_some hfind
  simpa using hid

/-- An operation that leaves the identifiers alone, if it is one that updates one node. -/
theorem bearer_modify {f : DAGNode → DAGNode}
    (hf : ∀ node, graph.nodes.get? key = some node →
      ((f node).ucerId = some ucerId ↔ node.ucerId = some ucerId)) :
    { graph with nodes := graph.nodes.modify key f }.bearer ucerId = graph.bearer ucerId := by
  unfold bearer Dict.modify
  dsimp only
  rw [List.find?_map, Option.map_map]
  have hfind : graph.nodes.items.find? ((fun item : String × DAGNode =>
        decide (item.2.ucerId = some ucerId)) ∘
          fun p => if p.1 = key then (p.1, f p.2) else p) =
      graph.nodes.items.find? (fun item => decide (item.2.ucerId = some ucerId)) := by
    refine List.find?_congr fun item hitem => ?_
    obtain ⟨k, node⟩ := item
    by_cases hk : k = key
    · subst hk
      simp only [Function.comp_apply, if_true]
      exact decide_eq_decide.mpr (hf node (Dict.mem_items_iff.mp hitem))
    · simp only [Function.comp_apply, if_neg hk]
  rw [hfind]
  congr 1
  funext p
  by_cases hp : p.1 = key
  · simp [hp]
  · simp [hp]

theorem bearer_markFailed : (graph.markFailed key).bearer ucerId = graph.bearer ucerId := by
  rw [markFailed, guarded_modify]
  exact bearer_modify fun _ _ => Iff.rfl

theorem bearer_markCompleted {node : DAGNode} (hnode : graph.nodes.get? key = some node)
    (hid : node.ucerId = some ucerId) :
    (graph.markCompleted key (some ucerId)).bearer ucerId = graph.bearer ucerId := by
  rw [markCompleted, guarded_modify]
  refine bearer_modify fun node' hnode' => ?_
  obtain rfl := Option.some.inj (hnode.symm.trans hnode')
  exact iff_of_true rfl hid

theorem sameUcerId_str (own : Option String) (ucerId : String) :
    sameUcerId own (.str ucerId) = decide (own = some ucerId) := by
  cases own with
  | none => simp [sameUcerId]
  | some s => simp [sameUcerId]

theorem Named.nodeId (hnamed : graph.Named) {node : DAGNode}
    (hnode : graph.nodes.get? key = some node) : node.nodeId = key := by
  have hkey := hnamed key
  rw [nodeIdOf, nodeId?, hnode] at hkey
  exact hkey

/-- What an event about a record does to a graph. -/
theorem onJobEvent_executionMetric (hnamed : graph.Named) (adapter : Adapter)
    (duration timestamp : Json.Number) (success : Bool) :
    onJobEvent graph (executionMetric ucerId adapter duration success timestamp) =
      (graph.bearer ucerId).map (fun key =>
        if success then graph.markCompleted key (some ucerId) else graph.markFailed key) := by
  obtain ⟨fields, hfields, hucerId, hsuccess⟩ : ∃ fields,
      executionMetric ucerId adapter duration success timestamp = .obj fields ∧
        Json.get? fields "ucer_id" = some (.str ucerId) ∧
        Json.get? fields "success" = some (.bool success) := ⟨_, rfl, rfl, rfl⟩
  have hmatch : firstMatch graph fields =
      graph.nodes.items.find? (fun item => item.2.ucerId = some ucerId) := by
    refine List.find?_congr fun item _ => ?_
    rw [hucerId, Option.getD_some, sameUcerId_str]
  have hverdict : verdict fields = success := by
    rw [verdict, hsuccess]
    rfl
  rw [hfields]
  cases hbearer : graph.bearer ucerId with
  | none =>
      rw [Option.map_eq_none_iff.mp hbearer] at hmatch
      simp [onJobEvent, hmatch]
  | some key =>
      obtain ⟨node, hfind, hnode, hid⟩ := get?_of_bearer hbearer
      rw [hfind] at hmatch
      simp only [onJobEvent, hmatch, hverdict, hnamed.nodeId hnode, hid, Option.map_some]
      cases success with
      | true => rfl
      | false => rfl

/-- **What handling an event about a record does to the statuses**: its verdict goes to the
first node that carries the identifier. -/
theorem status?_handle (hnamed : graph.Named) (adapter : Adapter)
    (duration timestamp : Json.Number) (success : Bool) :
    ((onJobEvent graph (executionMetric ucerId adapter duration success timestamp)).getD
        graph).status? key =
      if graph.bearer ucerId = some key then
        (graph.status? key).map (fun _ => if success then .completed else .failed)
      else graph.status? key := by
  rw [onJobEvent_executionMetric hnamed]
  cases hbearer : graph.bearer ucerId with
  | none => simp
  | some k =>
      have hkey : (some k = some key) ↔ key = k := by
        rw [Option.some.injEq]
        exact eq_comm
      simp only [Option.map_some, Option.getD_some, hkey]
      cases success with
      | true => exact status?_markCompleted
      | false => exact status?_markFailed

/-- Handling an event about a record leaves the names and identifiers alone. -/
theorem handle_frame (ucerId : String) (hnamed : graph.Named) (adapter : Adapter)
    (duration timestamp : Json.Number) (success : Bool) :
    ((onJobEvent graph (executionMetric ucerId adapter duration success timestamp)).getD
        graph).Named ∧
      ((onJobEvent graph (executionMetric ucerId adapter duration success timestamp)).getD
        graph).bearer ucerId = graph.bearer ucerId := by
  rw [onJobEvent_executionMetric hnamed]
  cases hbearer : graph.bearer ucerId with
  | none => exact ⟨hnamed, hbearer⟩
  | some k =>
      obtain ⟨node, _, hnode, hid⟩ := get?_of_bearer hbearer
      cases success with
      | true =>
          exact ⟨(sameShape_markCompleted _ _).named hnamed,
            (bearer_markCompleted hnode hid).trans hbearer⟩
      | false => exact ⟨(sameShape_markFailed _).named hnamed, bearer_markFailed.trans hbearer⟩

end UCERGraph

/-! ## The engine and the graph -/

/-- The engine at work on a record, the events on the bus, and the graph. -/
structure TelemetryState where
  graph : UCERGraph
  run : Run
  /-- The steps to come. -/
  rest : List ExecutionStep
  /-- What the loop has returned or raised, once it has. -/
  outcome : Option (Except PyError Unit) := none
  /-- The events emitted and not yet handled. -/
  pending : List Json.Value := []

inductive TelemetryAction where
  /-- The engine does the next round, or finds that there is none. -/
  | round
  /-- One of the pending events is handled. -/
  | handle (i : Nat)

section System

variable (auditors : Auditors) (world : World) (isolation : Isolation) (context : ExecutionContext)

/-- A round of the engine. -/
def roundStep (s : TelemetryState) : Option TelemetryState :=
  match s.outcome, s.rest with
  | some _, _ => none
  | none, [] => some { s with outcome := some (.ok ()) }
  | none, step :: rest =>
      let round := Engine.execStep auditors world isolation context step s.run
      some { s with
        run := round.1
        rest := rest
        pending := s.pending ++ round.1.events.drop s.run.events.length
        outcome :=
          match round.2 with
          | .error e => some (.error e)
          | .ok false => some (.ok ())
          | .ok true => none }

/-- The orchestrator handles an event, whichever of the pending ones is delivered. -/
def handleStep (i : Nat) (s : TelemetryState) : Option TelemetryState :=
  match s.pending[i]? with
  | some event =>
      some { s with
        graph := (onJobEvent s.graph event).getD s.graph
        pending := s.pending.eraseIdx i }
  | none => none

/-- The engine and the orchestrator, joined by the events. -/
def telemetry : System TelemetryState TelemetryAction where
  step s action :=
    match action with
    | .round => roundStep auditors world isolation context s
    | .handle i => handleStep i s

end System

/-- The engine takes up a record. -/
def TelemetryState.start (graph : UCERGraph) (run : Run) : TelemetryState where
  graph := graph
  run := run
  rest := run.ucer.steps

/-- The status a record is left with. -/
def finalStatus (outcome : Run × Except PyError Unit) : Status :=
  (PersistenceMiddleware.settle outcome).1.ucer.status

section Rounds

variable {auditors : Auditors} {world : World} {isolation : Isolation} {context : ExecutionContext}
  {s s' : TelemetryState}

/-- What the engine will have done in the end. -/
def TelemetryState.total (auditors : Auditors) (world : World) (isolation : Isolation)
    (context : ExecutionContext) (s : TelemetryState) : Run × Except PyError Unit :=
  match s.outcome with
  | some outcome => (s.run, outcome)
  | none => Engine.runSteps auditors world isolation context s.rest s.run

theorem total_roundStep (h : roundStep auditors world isolation context s = some s') :
    s'.total auditors world isolation context = s.total auditors world isolation context := by
  unfold roundStep at h
  unfold TelemetryState.total
  cases houtcome : s.outcome with
  | some outcome =>
      rw [houtcome] at h
      exact absurd h (by simp)
  | none =>
      cases hrest : s.rest with
      | nil =>
          rw [houtcome, hrest] at h
          rw [← Option.some.inj h]
          rfl
      | cons step rest =>
          rw [houtcome, hrest] at h
          rw [← Option.some.inj h]
          dsimp only
          rw [Engine.runSteps]
          rcases Engine.execStep auditors world isolation context step s.run
            with ⟨run', e | _ | _⟩
          · rfl
          · rfl
          · rfl

theorem handleStep_cases {i : Nat} (h : handleStep i s = some s') :
    ∃ event, s.pending[i]? = some event ∧
      s' = { s with
        graph := (onJobEvent s.graph event).getD s.graph
        pending := s.pending.eraseIdx i } := by
  unfold handleStep at h
  cases hevent : s.pending[i]? with
  | none =>
      rw [hevent] at h
      exact absurd h (by simp)
  | some event =>
      rw [hevent] at h
      exact ⟨event, rfl, (Option.some.inj h).symm⟩

/-- **The rounds of the system are the loop of `EngineMiddleware`**, however the events
are handled in between. -/
theorem outcome_eq_process (graph : UCERGraph) (run : Run) (actions : List TelemetryAction)
    {outcome : Except PyError Unit}
    (h : ((telemetry auditors world (negotiateIsolation run.ucer) context).run
      (.start graph run) actions).outcome = some outcome) :
    (((telemetry auditors world (negotiateIsolation run.ucer) context).run
      (.start graph run) actions).run, outcome) = Engine.process auditors world context run := by
  have htotal : ((telemetry auditors world (negotiateIsolation run.ucer) context).run
      (.start graph run) actions).total auditors world (negotiateIsolation run.ucer) context =
      Engine.process auditors world context run := by
    refine System.run_invariant (I := fun s : TelemetryState =>
      s.total auditors world (negotiateIsolation run.ucer) context =
        Engine.process auditors world context run) (fun s a s' hs hstep => ?_) rfl actions
    cases a with
    | round => exact (total_roundStep hstep).trans hs
    | handle i =>
        obtain ⟨event, _, rfl⟩ := handleStep_cases hstep
        exact hs
  rw [← htotal, TelemetryState.total, h]

end Rounds

/-! ## Agreement -/

/-- However the events of the record are delivered: once the engine is done and all of
them are handled, the node is completed if and only if the record is, and failed if and
only if the record is; and the node is not completed while steps are to come. -/
def TelemetryAgrees (auditors : Auditors) (world : World) (context : ExecutionContext)
    (graph : UCERGraph) (key : String) (run : Run) : Prop :=
  ∀ actions,
    let s := (telemetry auditors world (negotiateIsolation run.ucer) context).run
      (.start graph run) actions
    (∀ outcome, s.outcome = some outcome → s.pending = [] →
      (s.graph.status? key = some .completed ↔ finalStatus (s.run, outcome) = .completed) ∧
      (s.graph.status? key = some .failed ↔ finalStatus (s.run, outcome) = .failed)) ∧
    (s.graph.status? key = some .completed → s.rest = [])

/-- The condition.  If the events of the record reach the node: there is a first step, and
it raises, or it succeeds and is the only one.  If they do not, because an earlier node
carries the same identifier: the engine is cancelled. -/
def TelemetryOk (auditors : Auditors) (world : World) (context : ExecutionContext)
    (graph : UCERGraph) (key : String) (run : Run) : Prop :=
  if graph.bearer run.ucer.commandId = some key then
    match run.ucer.steps with
    | [] => False
    | step :: rest =>
        match Engine.outcomeOf auditors world (negotiateIsolation run.ucer) context step run with
        | .success => rest = []
        | .exitCode => False
        | .exception => True
        | .cancelled => True
  else
    Engine.Cancelled auditors world (negotiateIsolation run.ucer) context run.ucer.steps run

section Agreement

variable {auditors : Auditors} {world : World} {isolation : Isolation} {context : ExecutionContext}
  {graph : UCERGraph} {key : String} {run : Run} {s s' : TelemetryState}

theorem finalStatus_ok (run : Run) (h : run.ucer.status ≠ .failed) :
    finalStatus (run, .ok ()) = .completed := if_pos h

theorem finalStatus_failed (run : Run) (h : run.ucer.status = .failed) :
    finalStatus (run, .ok ()) = .failed := if_neg (not_not.mpr h)

theorem finalStatus_exception (run : Run) {e : PyError} (he : e.isException = true) :
    finalStatus (run, .error e) = .failed := by
  simp [finalStatus, PersistenceMiddleware.settle, he, Run.setStatus]

theorem finalStatus_cancelled (run : Run) {e : PyError} (he : e.isException = false) :
    finalStatus (run, .error e) = run.ucer.status := by
  simp [finalStatus, PersistenceMiddleware.settle, he]

/-! ### Rounds -/

variable (auditors world isolation context) in
/-- What the round of a step does, by what the step comes to. -/
theorem roundStep_of_outcome {step : ExecutionStep} {rest : List ExecutionStep}
    (houtcome : s.outcome = none) (hrest : s.rest = step :: rest) :
    ∃ run', run'.ucer.commandId = s.run.ucer.commandId ∧
      match Engine.outcomeOf auditors world isolation context step s.run with
      | .success => run'.ucer.status = s.run.ucer.status ∧
          roundStep auditors world isolation context s = some { s with
            run := run', rest := rest
            pending := s.pending ++ [Engine.eventOf world s.run isolation step true] }
      | .exitCode => run'.ucer.status = .failed ∧
          roundStep auditors world isolation context s = some { s with
            run := run', rest := rest, outcome := some (.ok ()) }
      | .exception => ∃ e, e.isException = true ∧
          roundStep auditors world isolation context s = some { s with
            run := run', rest := rest, outcome := some (.error e)
            pending := s.pending ++ [Engine.eventOf world s.run isolation step false] }
      | .cancelled => run'.ucer.status = s.run.ucer.status ∧ ∃ e, e.isException = false ∧
          roundStep auditors world isolation context s = some { s with
            run := run', rest := rest, outcome := some (.error e) } := by
  obtain ⟨handed, traces, h⟩ :=
    Engine.execStep_of_outcome auditors world isolation context step s.run
  have hround : ∀ status emitted result,
      Engine.execStep auditors world isolation context step s.run =
        (Engine.advance s.run status traces handed emitted, result) →
      roundStep auditors world isolation context s = some { s with
        run := Engine.advance s.run status traces handed emitted
        rest := rest
        pending := s.pending ++ emitted
        outcome :=
          match result with
          | .error e => some (.error e)
          | .ok false => some (.ok ())
          | .ok true => none } := by
    intro status emitted result hexec
    unfold roundStep
    rw [houtcome, hrest]
    dsimp only
    rw [hexec]
    simp [Engine.advance]
  cases hstep : Engine.outcomeOf auditors world isolation context step s.run with
  | success =>
      rw [hstep] at h
      refine ⟨Engine.advance s.run s.run.ucer.status traces handed
        [Engine.eventOf world s.run isolation step true], rfl, rfl, ?_⟩
      rw [houtcome]
      exact hround _ _ (.ok true) h
  | exitCode =>
      rw [hstep] at h
      have hnext := hround _ _ (.ok false) h
      rw [List.append_nil] at hnext
      exact ⟨Engine.advance s.run .failed traces handed [], rfl, rfl, hnext⟩
  | exception =>
      rw [hstep] at h
      obtain ⟨e, he, h⟩ := h
      exact ⟨Engine.advance s.run .failed traces handed
        [Engine.eventOf world s.run isolation step false], rfl, e, he, hround _ _ (.error e) h⟩
  | cancelled =>
      rw [hstep] at h
      obtain ⟨e, he, h⟩ := h
      have hnext := hround _ _ (.error e) h
      rw [List.append_nil] at hnext
      exact ⟨Engine.advance s.run s.run.ucer.status traces handed [], rfl, rfl, e, he, hnext⟩

variable (auditors world isolation context) in
/-- The rounds can always be carried on until the engine is done.  By induction on the
steps to come. -/
theorem exists_outcome (rest : List ExecutionStep) (s : TelemetryState) (hrest : s.rest = rest) :
    ∃ actions outcome,
      ((telemetry auditors world isolation context).run s actions).outcome = some outcome := by
  induction rest generalizing s with
  | nil =>
      cases houtcome : s.outcome with
      | some outcome => exact ⟨[], outcome, houtcome⟩
      | none =>
          refine ⟨[.round], .ok (), ?_⟩
          simp [System.run, System.exec, telemetry, roundStep, houtcome, hrest]
  | cons step rest ih =>
      cases houtcome : s.outcome with
      | some outcome => exact ⟨[], outcome, houtcome⟩
      | none =>
          have hnext : ((telemetry auditors world isolation context).exec s .round).rest = rest := by
            simp [System.exec, telemetry, roundStep, houtcome, hrest]
          obtain ⟨actions, outcome, h⟩ := ih _ hnext
          exact ⟨.round :: actions, outcome, h⟩

variable (auditors world isolation context) in
/-- The pending events can always be handled.  By induction on their number. -/
theorem exists_drained (n : Nat) (s : TelemetryState) (hlength : s.pending.length = n) :
    ∃ actions,
      ((telemetry auditors world isolation context).run s actions).outcome = s.outcome ∧
      ((telemetry auditors world isolation context).run s actions).pending = [] := by
  induction n generalizing s with
  | zero => exact ⟨[], rfl, List.eq_nil_of_length_eq_zero hlength⟩
  | succ n ih =>
      cases hpending : s.pending with
      | nil => exact ⟨[], rfl, hpending⟩
      | cons event events =>
          have hexec : (telemetry auditors world isolation context).exec s (.handle 0) =
              { s with graph := (onJobEvent s.graph event).getD s.graph, pending := events } := by
            simp [System.exec, telemetry, handleStep, hpending]
          have hshorter :
              ((telemetry auditors world isolation context).exec s (.handle 0)).pending.length = n := by
            rw [hexec]
            rw [hpending, List.length_cons] at hlength
            simpa using hlength
          obtain ⟨actions, houtcome, hdrained⟩ := ih _ hshorter
          refine ⟨.handle 0 :: actions, ?_, hdrained⟩
          rw [System.run_cons, houtcome, hexec]

variable (auditors world isolation context) in
/-- A run can always be carried on until the engine is done and all events are handled. -/
theorem exists_done (s : TelemetryState) :
    ∃ actions outcome,
      ((telemetry auditors world isolation context).run s actions).outcome = some outcome ∧
      ((telemetry auditors world isolation context).run s actions).pending = [] := by
  obtain ⟨rounds, outcome, houtcome⟩ :=
    exists_outcome auditors world isolation context s.rest s rfl
  obtain ⟨handles, hkept, hdrained⟩ := exists_drained auditors world isolation context _
    ((telemetry auditors world isolation context).run s rounds) rfl
  refine ⟨rounds ++ handles, outcome, ?_, ?_⟩
  · rw [System.run_append, hkept, houtcome]
  · rw [System.run_append, hdrained]

/-- What a round can do to what is not the engine's own. -/
theorem roundStep_cases (h : roundStep auditors world isolation context s = some s') :
    s'.graph = s.graph ∧ s'.run.ucer.commandId = s.run.ucer.commandId ∧
      ∀ event ∈ s'.pending, event ∈ s.pending ∨
        ∃ step success, event = Engine.eventOf world s.run isolation step success := by
  cases houtcome : s.outcome with
  | some outcome =>
      rw [roundStep, houtcome] at h
      exact absurd h (by simp)
  | none =>
      cases hrest : s.rest with
      | nil =>
          rw [roundStep, houtcome, hrest] at h
          rw [← Option.some.inj h]
          exact ⟨rfl, rfl, fun event hevent => Or.inl hevent⟩
      | cons step rest =>
          have hnew : ∀ {event : Json.Value} {success : Bool},
              event ∈ s.pending ++ [Engine.eventOf world s.run isolation step success] →
              event ∈ s.pending ∨
                ∃ step success, event = Engine.eventOf world s.run isolation step success := by
            intro event success hevent
            rcases List.mem_append.mp hevent with hold | hnew
            · exact Or.inl hold
            · exact Or.inr ⟨step, success, List.mem_singleton.mp hnew⟩
          obtain ⟨run', hid, hround⟩ :=
            roundStep_of_outcome auditors world isolation context houtcome hrest
          cases hstep : Engine.outcomeOf auditors world isolation context step s.run with
          | success =>
              rw [hstep] at hround
              obtain ⟨_, hround⟩ := hround
              obtain rfl := Option.some.inj (hround.symm.trans h)
              exact ⟨rfl, hid, fun _ => hnew⟩
          | exitCode =>
              rw [hstep] at hround
              obtain ⟨_, hround⟩ := hround
              obtain rfl := Option.some.inj (hround.symm.trans h)
              exact ⟨rfl, hid, fun _ => Or.inl⟩
          | exception =>
              rw [hstep] at hround
              obtain ⟨e, _, hround⟩ := hround
              obtain rfl := Option.some.inj (hround.symm.trans h)
              exact ⟨rfl, hid, fun _ => hnew⟩
          | cancelled =>
              rw [hstep] at hround
              obtain ⟨_, e, _, hround⟩ := hround
              obtain rfl := Option.some.inj (hround.symm.trans h)
              exact ⟨rfl, hid, fun _ => Or.inl⟩

/-! ### When the events go to another node -/

/-- The events of the record reach another node, so the node stays as it is. -/
structure Passed (key ucerId : String) (s : TelemetryState) : Prop where
  named : s.graph.Named
  bearer : s.graph.bearer ucerId ≠ some key
  running : s.graph.status? key = some .running
  commandId : s.run.ucer.commandId = ucerId
  events : ∀ event ∈ s.pending, ∃ adapter duration success timestamp,
    event = executionMetric ucerId adapter duration success timestamp

theorem Passed.step {ucerId : String} {a : TelemetryAction} (h : Passed key ucerId s)
    (hstep : (telemetry auditors world isolation context).step s a = some s') :
    Passed key ucerId s' := by
  cases a with
  | round =>
      obtain ⟨hgraph, hid, hevents⟩ := roundStep_cases hstep
      refine ⟨hgraph ▸ h.named, hgraph ▸ h.bearer, hgraph ▸ h.running, hid.trans h.commandId, ?_⟩
      intro event hevent
      rcases hevents event hevent with hold | ⟨step, success, rfl⟩
      · exact h.events event hold
      · rw [Engine.eventOf, h.commandId]
        exact ⟨_, _, _, _, rfl⟩
  | handle i =>
      obtain ⟨event, hevent, rfl⟩ := handleStep_cases hstep
      obtain ⟨adapter, duration, success, timestamp, rfl⟩ :=
        h.events event (List.mem_of_getElem? hevent)
      obtain ⟨hnamed, hbearer⟩ :=
        UCERGraph.handle_frame ucerId h.named adapter duration timestamp success
      refine ⟨hnamed, hbearer ▸ h.bearer, ?_, h.commandId, fun event hmem =>
        h.events event (List.mem_of_mem_eraseIdx hmem)⟩
      show ((onJobEvent s.graph _).getD s.graph).status? key = some .running
      rw [UCERGraph.status?_handle h.named, if_neg h.bearer]
      exact h.running

/-- Then the node agrees with the record if and only if the engine is cancelled. -/
theorem agrees_iff_of_bearer_ne (hnamed : graph.Named) (hrunning : graph.status? key = some .running)
    (hstatus : run.ucer.status = .running) (hbearer : graph.bearer run.ucer.commandId ≠ some key) :
    TelemetryAgrees auditors world context graph key run ↔
      Engine.Cancelled auditors world (negotiateIsolation run.ucer) context run.ucer.steps run := by
  have hpassed : ∀ actions, Passed key run.ucer.commandId
      ((telemetry auditors world (negotiateIsolation run.ucer) context).run
        (.start graph run) actions) := by
    intro actions
    exact System.run_invariant (fun _ _ _ h hstep => h.step hstep)
      ⟨hnamed, hbearer, hrunning, rfl, fun _ hevent => absurd hevent List.not_mem_nil⟩ actions
  have hcases := Engine.cancelled_cases auditors world (negotiateIsolation run.ucer) context
    run.ucer.steps run
  constructor
  · intro h
    obtain ⟨hcancelled, _⟩ | ⟨_, hexception⟩ := hcases
    · exact hcancelled
    · obtain ⟨actions, outcome, houtcome, hpending⟩ := exists_done auditors world
        (negotiateIsolation run.ucer) context (TelemetryState.start graph run)
      obtain ⟨⟨hcompleted, hfailed⟩, _⟩ :=
        And.imp_left (fun h => h outcome houtcome hpending) (h actions)
      rw [(hpassed actions).running] at hcompleted hfailed
      have hprocess := outcome_eq_process graph run actions houtcome
      cases outcome with
      | ok =>
          by_cases hrun : (((telemetry auditors world (negotiateIsolation run.ucer) context).run
              (.start graph run) actions).run).ucer.status = .failed
          · exact absurd (hfailed.mpr (finalStatus_failed _ hrun)) (by decide)
          · exact absurd (hcompleted.mpr (finalStatus_ok _ hrun)) (by decide)
      | error e =>
          have he := hexception e (congrArg Prod.snd hprocess).symm
          exact absurd (hfailed.mpr (finalStatus_exception _ he)) (by decide)
  · intro hcancelled actions
    obtain ⟨_, ⟨e, herror, he⟩, hkept⟩ | ⟨hnot, _⟩ := hcases
    · refine ⟨fun outcome houtcome _ => ?_, fun hcompleted => ?_⟩
      · have hprocess := outcome_eq_process graph run actions houtcome
        have hrun := congrArg (fun r => r.1.ucer.status) hprocess
        have hout := (congrArg Prod.snd hprocess).trans herror
        dsimp only at hrun hout
        rw [(hpassed actions).running, hout, finalStatus_cancelled _ he, hrun]
        show (_ ↔ (Engine.runSteps auditors world _ context run.ucer.steps run).1.ucer.status =
          .completed) ∧ (_ ↔
            (Engine.runSteps auditors world _ context run.ucer.steps run).1.ucer.status = .failed)
        rw [hkept, hstatus]
        decide
      · rw [(hpassed actions).running] at hcompleted
        exact absurd hcompleted (by decide)
    · exact absurd hcancelled hnot

/-! ### When the events reach the node -/

/-- After the first round the engine is done, or will be when it looks for a second one,
and at most one event is pending, whose handling gives the node the status the record is
left with. -/
structure Settles (graph : UCERGraph) (key : String) (s : TelemetryState)
    (outcome : Except PyError Unit) : Prop where
  graph_eq : s.graph = graph
  outcome_eq : s.outcome = some outcome ∨ s.outcome = none ∧ s.rest = [] ∧ outcome = .ok ()
  pending : s.pending = [] ∧ graph.status? key = some (finalStatus (s.run, outcome)) ∨
    ∃ event, s.pending = [event] ∧ ((onJobEvent graph event).getD graph).status? key =
      some (finalStatus (s.run, outcome))
  completed : finalStatus (s.run, outcome) = .completed → s.rest = []

/-- The states after the first round: they differ from the first of them at most in that
the engine has found no second round, and that the event has been handled. -/
structure Settled (graph : UCERGraph) (key : String) (s₁ : TelemetryState)
    (outcome : Except PyError Unit) (s : TelemetryState) : Prop where
  run_eq : s.run = s₁.run
  rest_eq : s.rest = s₁.rest
  outcome_eq : s.outcome = some outcome ∨ s.outcome = none ∧ s₁.rest = [] ∧ outcome = .ok ()
  pending : s.pending = s₁.pending ∧ s.graph = graph ∨
    s.pending = [] ∧ s.graph.status? key = some (finalStatus (s₁.run, outcome))

theorem Settled.step {a : TelemetryAction} {s₁ : TelemetryState} {outcome : Except PyError Unit}
    (h₁ : Settles graph key s₁ outcome) (h : Settled graph key s₁ outcome s)
    (hstep : (telemetry auditors world isolation context).step s a = some s') :
    Settled graph key s₁ outcome s' := by
  cases a with
  | round =>
      have hround : roundStep auditors world isolation context s = some s' := hstep
      obtain houtcome | ⟨houtcome, hrest, hok⟩ := h.outcome_eq
      · rw [roundStep, houtcome] at hround
        exact absurd hround (by simp)
      · rw [roundStep, houtcome, h.rest_eq, hrest] at hround
        obtain rfl := Option.some.inj hround
        exact ⟨h.run_eq, hrest.symm, Or.inl (congrArg some hok.symm), h.pending⟩
  | handle i =>
      obtain ⟨event, hevent, rfl⟩ := handleStep_cases hstep
      obtain ⟨hpending, hgraph⟩ | ⟨hpending, _⟩ := h.pending
      · obtain ⟨hnil, _⟩ | ⟨only, honly, hstatus⟩ := h₁.pending
        · rw [hpending, hnil] at hevent
          exact absurd hevent (by simp)
        · -- the only event is handled
          rw [hpending, honly] at hevent
          obtain ⟨rfl, rfl⟩ : i = 0 ∧ event = only := by
            cases i with
            | zero => exact ⟨rfl, (Option.some.inj hevent).symm⟩
            | succ i => exact absurd hevent (by simp)
          refine ⟨h.run_eq, h.rest_eq, h.outcome_eq, Or.inr ⟨?_, ?_⟩⟩
          · show s.pending.eraseIdx 0 = []
            rw [hpending, honly]
            rfl
          · show ((onJobEvent s.graph event).getD s.graph).status? key = _
            rw [hgraph, hstatus]
      · rw [hpending] at hevent
        exact absurd hevent (by simp)

/-- Then the node agrees with the record. -/
theorem agrees_of_settles (hrunning : graph.status? key = some .running) {s₁ : TelemetryState}
    {outcome : Except PyError Unit}
    (hround : roundStep auditors world (negotiateIsolation run.ucer) context
      (.start graph run) = some s₁) (h : Settles graph key s₁ outcome) :
    TelemetryAgrees auditors world context graph key run := by
  intro actions
  have hinv : (telemetry auditors world (negotiateIsolation run.ucer) context).run
        (.start graph run) actions = .start graph run ∨
      Settled graph key s₁ outcome
        ((telemetry auditors world (negotiateIsolation run.ucer) context).run
          (.start graph run) actions) := by
    refine System.run_invariant (I := fun s : TelemetryState => s = .start graph run ∨
      Settled graph key s₁ outcome s) (fun s a s' hs hstep => ?_) (Or.inl rfl) actions
    obtain rfl | hs := hs
    · cases a with
      | round =>
          obtain rfl : s₁ = s' := Option.some.inj (hround.symm.trans hstep)
          refine Or.inr ⟨rfl, rfl, ?_, Or.inl ⟨rfl, h.graph_eq⟩⟩
          exact h.outcome_eq
      | handle i =>
          have hhandle : handleStep i (.start graph run) = some s' := hstep
          obtain ⟨event, hevent, _⟩ := handleStep_cases hhandle
          exact absurd hevent (by simp [TelemetryState.start])
    · exact Or.inr (hs.step h hstep)
  obtain hstart | hs := hinv
  · rw [hstart]
    refine ⟨fun outcome houtcome => absurd houtcome (by simp [TelemetryState.start]), ?_⟩
    intro hcompleted
    exact absurd (hrunning.symm.trans hcompleted) (by decide)
  · refine ⟨fun outcome' houtcome hpending => ?_, fun hcompleted => ?_⟩
    · obtain houtcome' | ⟨hnone, _⟩ := hs.outcome_eq
      · obtain rfl := Option.some.inj (houtcome'.symm.trans houtcome)
        have hstatus : ((telemetry auditors world (negotiateIsolation run.ucer) context).run
            (.start graph run) actions).graph.status? key =
            some (finalStatus (s₁.run, outcome)) := by
          obtain ⟨hsame, hgraph⟩ | ⟨_, hhandled⟩ := hs.pending
          · obtain ⟨_, hkept⟩ | ⟨event, hevent, _⟩ := h.pending
            · rw [hgraph]
              exact hkept
            · rw [hpending, hevent] at hsame
              exact absurd hsame (by simp)
          · exact hhandled
        rw [hstatus, hs.run_eq, Option.some.injEq, Option.some.injEq]
        exact ⟨Iff.rfl, Iff.rfl⟩
      · exact absurd (hnone.symm.trans houtcome) (by simp)
    · rw [hs.rest_eq]
      obtain ⟨_, hgraph⟩ | ⟨_, hhandled⟩ := hs.pending
      · rw [hgraph, hrunning] at hcompleted
        exact absurd hcompleted (by decide)
      · rw [hhandled] at hcompleted
        exact h.completed (Option.some.inj hcompleted)

/-- A record without steps leaves its node running. -/
theorem not_agrees_of_nil (hrunning : graph.status? key = some .running)
    (hstatus : run.ucer.status = .running) (hsteps : run.ucer.steps = []) :
    ¬ TelemetryAgrees auditors world context graph key run := by
  intro h
  obtain ⟨hdone, _⟩ := h [.round]
  have hexec : (telemetry auditors world (negotiateIsolation run.ucer) context).run
      (.start graph run) [.round] =
      { TelemetryState.start graph run with outcome := some (.ok ()) } := by
    simp [System.run, System.exec, telemetry, roundStep, TelemetryState.start, hsteps]
  rw [hexec] at hdone
  have hcompleted := (hdone (.ok ()) rfl rfl).1.mpr
    (finalStatus_ok run (by rw [hstatus]; decide))
  exact absurd (hrunning.symm.trans hcompleted) (by decide)

section FirstRound

variable {step : ExecutionStep} {rest : List ExecutionStep} {run' : Run}

/-- The state after the first round. -/
theorem run_round {s₁ : TelemetryState}
    (hround : roundStep auditors world (negotiateIsolation run.ucer) context
      (.start graph run) = some s₁) :
    (telemetry auditors world (negotiateIsolation run.ucer) context).run
      (.start graph run) [.round] = s₁ :=
  System.exec_of_step hround

/-- Handling the event of the first round gives the node its verdict. -/
theorem status?_handle_eventOf (hnamed : graph.Named) (hrunning : graph.status? key = some .running)
    (hbearer : graph.bearer run.ucer.commandId = some key) (step : ExecutionStep) (success : Bool) :
    ((onJobEvent graph (Engine.eventOf world run isolation step success)).getD graph).status? key =
      some (if success then .completed else .failed) := by
  rw [Engine.eventOf, UCERGraph.status?_handle hnamed, if_pos hbearer, hrunning, Option.map_some]

/-- A first step that succeeds is reported, so it must be the last one. -/
theorem agrees_iff_of_success (hnamed : graph.Named)
    (hrunning : graph.status? key = some .running)
    (hbearer : graph.bearer run.ucer.commandId = some key) (hstatus : run'.ucer.status = .running)
    (hround : roundStep auditors world (negotiateIsolation run.ucer) context (.start graph run) =
      some ⟨graph, run', rest, none,
        [Engine.eventOf world run (negotiateIsolation run.ucer) step true]⟩) :
    TelemetryAgrees auditors world context graph key run ↔ rest = [] := by
  have hcompleted : ((onJobEvent graph (Engine.eventOf world run (negotiateIsolation run.ucer) step
      true)).getD graph).status? key = some .completed :=
    status?_handle_eventOf hnamed hrunning hbearer step true
  constructor
  · intro h
    obtain ⟨_, htooEarly⟩ := h [.round, .handle 0]
    rw [show [TelemetryAction.round, .handle 0] = [.round] ++ [.handle 0] from rfl,
      System.run_append, run_round hround] at htooEarly
    exact htooEarly hcompleted
  · intro hrest
    refine agrees_of_settles hrunning hround ⟨rfl, Or.inr ⟨rfl, hrest, rfl⟩,
      Or.inr ⟨_, rfl, ?_⟩, fun _ => hrest⟩
    rw [hcompleted, finalStatus_ok run' (by rw [hstatus]; decide)]

/-- A first step that ends with a non-zero exit code is not reported. -/
theorem not_agrees_of_exitCode (hrunning : graph.status? key = some .running)
    (hstatus : run'.ucer.status = .failed)
    (hround : roundStep auditors world (negotiateIsolation run.ucer) context (.start graph run) =
      some ⟨graph, run', rest, some (.ok ()), []⟩) :
    ¬ TelemetryAgrees auditors world context graph key run := by
  intro h
  obtain ⟨hdone, _⟩ := h [.round]
  rw [run_round hround] at hdone
  have hfailed := (hdone (.ok ()) rfl rfl).2.mpr (finalStatus_failed run' hstatus)
  exact absurd (hrunning.symm.trans hfailed) (by decide)

/-- A first step that raises is reported as the failure it is. -/
theorem agrees_of_exception (hnamed : graph.Named) (hrunning : graph.status? key = some .running)
    (hbearer : graph.bearer run.ucer.commandId = some key) {e : PyError}
    (he : e.isException = true)
    (hround : roundStep auditors world (negotiateIsolation run.ucer) context (.start graph run) =
      some ⟨graph, run', rest, some (.error e),
        [Engine.eventOf world run (negotiateIsolation run.ucer) step false]⟩) :
    TelemetryAgrees auditors world context graph key run := by
  have hfinal : finalStatus (run', .error e) = .failed := finalStatus_exception run' he
  refine agrees_of_settles hrunning hround ⟨rfl, Or.inl rfl, Or.inr ⟨_, rfl, ?_⟩,
    fun hcompleted => absurd (hfinal.symm.trans hcompleted) (by decide)⟩
  rw [status?_handle_eventOf hnamed hrunning hbearer, hfinal]
  rfl

/-- A first step that is cancelled is not reported, and leaves the record running. -/
theorem agrees_of_cancelled (hrunning : graph.status? key = some .running) {e : PyError}
    (he : e.isException = false) (hstatus : run'.ucer.status = .running)
    (hround : roundStep auditors world (negotiateIsolation run.ucer) context (.start graph run) =
      some ⟨graph, run', rest, some (.error e), []⟩) :
    TelemetryAgrees auditors world context graph key run := by
  have hfinal : finalStatus (run', .error e) = .running :=
    (finalStatus_cancelled run' he).trans hstatus
  refine agrees_of_settles hrunning hround ⟨rfl, Or.inl rfl, Or.inl ⟨rfl, ?_⟩,
    fun hcompleted => absurd (hfinal.symm.trans hcompleted) (by decide)⟩
  rw [hfinal]
  exact hrunning

end FirstRound

/-- When the events reach the node, it agrees with the record if and only if there is a
first step, and it raises, or it succeeds and is the only one. -/
theorem agrees_iff_of_bearer (hnamed : graph.Named) (hrunning : graph.status? key = some .running)
    (hstatus : run.ucer.status = .running) (hbearer : graph.bearer run.ucer.commandId = some key) :
    TelemetryAgrees auditors world context graph key run ↔
      match run.ucer.steps with
      | [] => False
      | step :: rest =>
          match Engine.outcomeOf auditors world (negotiateIsolation run.ucer) context step run with
          | .success => rest = []
          | .exitCode => False
          | .exception => True
          | .cancelled => True := by
  cases hsteps : run.ucer.steps with
  | nil => exact iff_of_false (not_agrees_of_nil hrunning hstatus hsteps) id
  | cons step rest =>
      have hstart : (TelemetryState.start graph run).rest = step :: rest := hsteps
      obtain ⟨run', _, hround⟩ :=
        roundStep_of_outcome auditors world (negotiateIsolation run.ucer) context rfl hstart
      have hsame : Engine.outcomeOf auditors world (negotiateIsolation run.ucer) context step
          (TelemetryState.start graph run).run =
          Engine.outcomeOf auditors world (negotiateIsolation run.ucer) context step run := rfl
      rw [hsame] at hround
      dsimp only
      cases houtcome : Engine.outcomeOf auditors world (negotiateIsolation run.ucer) context step run
        with
      | success =>
          rw [houtcome] at hround
          obtain ⟨hkept, hround⟩ := hround
          exact agrees_iff_of_success hnamed hrunning hbearer (hkept.trans hstatus) hround
      | exitCode =>
          rw [houtcome] at hround
          obtain ⟨hfailed, hround⟩ := hround
          exact iff_of_false (not_agrees_of_exitCode hrunning hfailed hround) id
      | exception =>
          rw [houtcome] at hround
          obtain ⟨e, he, hround⟩ := hround
          exact iff_of_true (agrees_of_exception hnamed hrunning hbearer he hround) trivial
      | cancelled =>
          rw [houtcome] at hround
          obtain ⟨hkept, e, he, hround⟩ := hround
          exact iff_of_true (agrees_of_cancelled hrunning he (hkept.trans hstatus) hround) trivial

end Agreement

/-- **When the node agrees with its record.**  For a graph whose nodes go by their keys, a
running node of it, and a record marked as running that the engine takes up: the node
agrees with the record, however the events are delivered, if and only if the condition
holds. -/
theorem telemetryAgrees_iff (auditors : Auditors) (world : World) (context : ExecutionContext)
    (graph : UCERGraph) (key : String) (run : Run) (hnamed : graph.Named)
    (hrunning : graph.status? key = some .running) (hstatus : run.ucer.status = .running) :
    TelemetryAgrees auditors world context graph key run ↔
      TelemetryOk auditors world context graph key run := by
  unfold TelemetryOk
  by_cases hbearer : graph.bearer run.ucer.commandId = some key
  · rw [if_pos hbearer]
    exact agrees_iff_of_bearer hnamed hrunning hstatus hbearer
  · rw [if_neg hbearer]
    exact agrees_iff_of_bearer_ne hnamed hrunning hstatus hbearer

/-- A record that says hi a number of times, marked as running. -/
def echoes (times : Nat) : Run :=
  PersistenceMiddleware.started
    { ucer := {
        commandId := "u"
        intent := "say hi"
        steps := List.replicate times { stepId := "s", adapter := .bash, command := "echo hi" } } }

/-- The node the record has been dispatched for. -/
def dispatchedNode : UCERGraph :=
  ((({} : UCERGraph).addNode { nodeId := "a", intent := "say hi" }).setRunning "a").setUcerId "a" "u"

/-- The node of a record whose only step succeeds agrees with it. -/
theorem oneEcho_agrees :
    TelemetryAgrees Facade.plainAuditors Engine.calm Facade.execContext dispatchedNode "a"
      (echoes 1) := by
  have hnamed : dispatchedNode.Named :=
    (UCERGraph.sameShape_setUcerId "a" "u").named
      ((UCERGraph.sameShape_setRunning "a").named (UCERGraph.named_empty.addNode _))
  have hsuccess : Engine.outcomeOf Facade.plainAuditors Engine.calm .docker Facade.execContext
      { stepId := "s", adapter := .bash, command := "echo hi" } (echoes 1) = .success := by decide
  have hisolation : negotiateIsolation (echoes 1).ucer = .docker := by decide
  refine (telemetryAgrees_iff Facade.plainAuditors Engine.calm Facade.execContext dispatchedNode "a"
    (echoes 1) hnamed (by decide) rfl).mpr ?_
  rw [TelemetryOk, if_pos (by decide), hisolation]
  show match Engine.outcomeOf Facade.plainAuditors Engine.calm .docker Facade.execContext
      { stepId := "s", adapter := .bash, command := "echo hi" } (echoes 1) with
    | .success => [] = []
    | .exitCode => False
    | .exception => True
    | .cancelled => True
  rw [hsuccess]

/-- The second command ends with exit code 1. -/
def secondFails : World :=
  { Engine.calm with run := fun n _ _ _ => .ok { exitCode := some (if n = 0 then 0 else 1) } }

/-- The report of the first step completes the node of a record that then fails. -/
theorem secondFails_not_agrees :
    ¬ TelemetryAgrees Facade.plainAuditors secondFails Facade.execContext dispatchedNode "a"
      (echoes 2) := by
  intro h
  obtain ⟨hdone, _⟩ := h [.round, .handle 0, .round]
  have hcompleted := (hdone (.ok ()) (by decide) (by decide)).1.mp (by decide)
  exact absurd hcompleted (by decide)

end Ucser
