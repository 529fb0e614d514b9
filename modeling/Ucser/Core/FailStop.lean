import Ucser.Semantic.Planner

/-!
# Stopping at a failure

`execute_graph` looks for failed nodes at the head of its `while`, and a dispatch that raises
leaves the batch at once.  Between two nodes of a batch nobody looks.

* `FailStop` — once a node has failed, nothing more is handed to `dispatch_ucer`.
* `Busless` — without a bus no node fails while the rest of a batch is still to be started.
* `StopOk` — the condition on a step: no batch is gone on with after a failure, and no event
  takes a failure back.
* `failStop_of_steps` — **the runs whose steps meet the condition stop at a failure**, and
  every run that stops at a failure goes on with no batch after one.
-/

namespace Ucser

variable {hasBus ok : Bool} {compiled : Option String} {graph : UCERGraph}

/-! ## Failed nodes after an operation -/

namespace UCERGraph

variable {graph' : UCERGraph} {key : String}

/-- Giving one node a status other than failed fails none. -/
theorem hasFailed_of_status? {status : Status} (hne : status ≠ .failed)
    (h : ∀ key', graph'.status? key' =
      if key' = key then (graph.status? key').map (fun _ => status) else graph.status? key')
    (hfailed : graph.hasFailed = false) : graph'.hasFailed = false := by
  rw [Bool.eq_false_iff] at hfailed ⊢
  intro hfailed'
  obtain ⟨key', hkey'⟩ := hasFailed_iff.mp hfailed'
  exact hfailed (hasFailed_iff.mpr ⟨key', status?_of_ne_assigned hne.symm (h key') hkey'⟩)

theorem hasFailed_setRunning (h : graph.hasFailed = false) (key : String) :
    (graph.setRunning key).hasFailed = false :=
  hasFailed_of_status? (by decide) (fun _ => status?_setRunning) h

theorem hasFailed_markCompleted (h : graph.hasFailed = false) (key : String)
    (ucerId : Option String) : (graph.markCompleted key ucerId).hasFailed = false :=
  hasFailed_of_status? (by decide) (fun _ => status?_markCompleted) h

theorem hasFailed_setUcerId (h : graph.hasFailed = false) (key ucerId : String) :
    (graph.setUcerId key ucerId).hasFailed = false := by
  rw [Bool.eq_false_iff] at h ⊢
  intro hfailed
  obtain ⟨key', hkey'⟩ := hasFailed_iff.mp hfailed
  rw [status?_setUcerId] at hkey'
  exact h (hasFailed_iff.mpr ⟨key', hkey'⟩)

/-- Failing a node takes no failure back. -/
theorem hasFailed_markFailed (h : graph.hasFailed = true) (key : String) :
    (graph.markFailed key).hasFailed = true := by
  obtain ⟨key', hkey'⟩ := hasFailed_iff.mp h
  refine hasFailed_iff.mpr ⟨key', ?_⟩
  rw [status?_markFailed]
  by_cases hkey : key' = key
  · rw [if_pos hkey, hkey', Option.map_some]
  · rw [if_neg hkey, hkey']

end UCERGraph

/-! ## What a step is about to start -/

namespace OrcState

variable {s : OrcState} {key ucerId : String}

/-- What a step may be about to assign: nothing, the start of the next node, a failure, or,
without a bus, the completion of a node that has been dispatched. -/
theorem write_cases (hasBus ok : Bool) (s : OrcState) :
    s.write hasBus ok = none ∨ s.write hasBus ok = s.startNext ∨
      (∃ key, s.write hasBus ok = some (.fail key)) ∨
      hasBus = false ∧ ∃ key rest ucerId, s.pc = .dispatched key rest ucerId ∧
        s.write hasBus ok = some (.complete key ucerId) := by
  have hite : ∀ b : Bool, (if b then s.startNext else none) = none ∨
      (if b then s.startNext else none) = s.startNext := by
    intro b
    cases b with
    | true => exact Or.inr rfl
    | false => exact Or.inl rfl
  unfold write
  cases hpc : s.pc with
  | checkpoint => exact (hite (ok && !hasBus)).imp_right Or.inl
  | subscribe => exact (hite ok).imp_right Or.inl
  | dispatch key rest ucerId =>
      cases ok with
      | true => exact Or.inl rfl
      | false => exact Or.inr (Or.inr (Or.inl ⟨key, rfl⟩))
  | dispatched key rest ucerId =>
      cases ok with
      | true =>
          cases hasBus with
          | true => exact Or.inr (Or.inl rfl)
          | false => exact Or.inr (Or.inr (Or.inr ⟨rfl, key, rest, ucerId, rfl, rfl⟩))
      | false => exact Or.inr (Or.inr (Or.inl ⟨key, rfl⟩))
  | completed key rest =>
      cases ok with
      | true => exact (hite s.lock.free).imp_right Or.inl
      | false => exact Or.inr (Or.inr (Or.inl ⟨key, rfl⟩))
  | failed => exact (hite (ok && s.lock.free)).imp_right Or.inl
  | notifyLock rest => exact (hite (s.lock.offers .main)).imp_right Or.inl
  | relocked timedOut =>
      cases timedOut with
      | true => exact Or.inl rfl
      | false => exact Or.inr (Or.inl rfl)
  | _ => exact Or.inl rfl

/-- The step starts the next node of the batch `execute_graph` is working through. -/
def StartsRest (hasBus ok : Bool) (s : OrcState) : Prop :=
  ∃ key rest, s.pc.batch = key :: rest ∧ s.write hasBus ok = some (.start key)

/-- After a failure nothing is started but the rest of a batch. -/
theorem startNext_of_hasFailed (h : s.graph.hasFailed = true) :
    s.startNext = none ∨
      ∃ key rest, s.pc.batch = key :: rest ∧ s.startNext = some (.start key) := by
  unfold startNext
  cases hbatch : s.pc.batch with
  | nil => exact Or.inl (by simp [h])
  | cons key rest => exact Or.inr ⟨key, rest, rfl, rfl⟩

end OrcState

/-! ## Without a bus -/

/-- Without a bus no node has failed while a dispatch is under way or the rest of a batch is
still to be started. -/
structure Busless (s : OrcState) : Prop where
  quiet : Quiet s
  sound : s.pc.record ≠ none ∨ s.pc.batch ≠ [] → s.graph.hasFailed = false

namespace Busless

variable {s s' : OrcState}

theorem init (graph : UCERGraph) : Busless { graph := graph } where
  quiet := ⟨rfl, rfl, by simp⟩
  sound := fun h => absurd h (by simp [Pc.record, Pc.batch])

/-- Starting a node fails none, unless its intent does not compile, which ends the batch. -/
theorem sound_startNode {t : OrcState} (h : t.graph.hasFailed = false) (key : String)
    (rest : List String)
    (hbusy : (t.startNode compiled key rest).pc.record ≠ none ∨
      (t.startNode compiled key rest).pc.batch ≠ []) :
    (t.startNode compiled key rest).graph.hasFailed = false := by
  cases compiled with
  | none => exact absurd hbusy (by simp [OrcState.startNode, OrcState.fail, Pc.record, Pc.batch])
  | some ucerId =>
      exact UCERGraph.hasFailed_setUcerId (UCERGraph.hasFailed_setRunning h key) key ucerId

/-- A step of `execute_graph` preserves the invariant. -/
theorem mainStep (h : Busless s) (hstep : s.mainStep false ok compiled = some s') :
    Busless s' := by
  refine ⟨h.quiet.mainStep hstep, ?_⟩
  cases OrcState.mainStep_effect_cases hstep with
  | keep lock pc hbatch _ heq =>
      subst heq
      rintro (hrecord | hrest)
      · obtain ⟨⟨key, ucerId⟩, hrecord⟩ := Option.ne_none_iff_exists'.mp hrecord
        obtain ⟨hbefore, _, _⟩ | ⟨_, _, hdispatched⟩ := OrcState.record_mainStep hstep hrecord
        · exact h.sound (Or.inl (by rw [hbefore]; simp))
        · exact absurd hdispatched (by simp)
      · obtain hsame | hnil := hbatch
        · exact h.sound (Or.inr (hsame ▸ hrest))
        · exact absurd hnil hrest
  | fail key _ heq =>
      rw [heq]
      exact fun hbusy => absurd hbusy (by simp [OrcState.fail, Pc.record, Pc.batch])
  | complete key rest ucerId hpc _ heq =>
      rw [heq]
      intro _
      have hsound := h.sound (Or.inl (by rw [hpc]; simp [Pc.record]))
      exact UCERGraph.hasFailed_markCompleted hsound _ _
  | goOn lock listening heq =>
      rw [heq]
      unfold OrcState.goOn
      cases hbatch : s.pc.batch with
      | cons key rest =>
          have hfailed : s.graph.hasFailed = false := h.sound (Or.inr (by rw [hbatch]; simp))
          exact sound_startNode (t := { s with lock := lock, listening := listening }) hfailed key rest
      | nil =>
          obtain ⟨_, htop⟩ | ⟨_, _, htop⟩ | ⟨_, _, htop⟩ | ⟨key, rest, _, _, hfailed, htop⟩ :=
            OrcState.loopTop_cases compiled { s with lock := lock, listening := listening }
          · rw [htop]
            exact fun hbusy => absurd hbusy (by simp [Pc.record, Pc.batch])
          · rw [htop]
            exact fun hbusy => absurd hbusy (by simp [Pc.record, Pc.batch])
          · rw [htop]
            exact fun hbusy => absurd hbusy (by simp [Pc.record, Pc.batch])
          · rw [htop]
            exact sound_startNode hfailed key rest

/-- Every step preserves the invariant. -/
theorem step {a : Action} (h : Busless s) (hstep : (orchestrator false).step s a = some s') :
    Busless s' := by
  cases a with
  | main ok compiled => exact h.mainStep hstep
  | deliver event =>
      obtain ⟨hlistening, _⟩ := Option.ite_none_right_eq_some.mp hstep
      rw [h.quiet.deaf] at hlistening
      exact absurd hlistening (by decide)
  | handler i ok =>
      have hnone : s.handlers[i]? = none := by rw [h.quiet.alone]; rfl
      have hstep' : s.handlerStep i ok = some s' := hstep
      unfold OrcState.handlerStep at hstep'
      rw [hnone] at hstep'
      exact absurd hstep' (by simp)
  | timeout =>
      obtain ⟨_, rfl⟩ | ⟨_, rfl⟩ := OrcState.timeoutStep_cases hstep
      · exact ⟨h.quiet.setPc (by simp), fun hbusy => absurd hbusy (by simp [Pc.record, Pc.batch])⟩
      · exact ⟨h.quiet.setPc (by simp), fun hbusy => absurd hbusy (by simp [Pc.record, Pc.batch])⟩

/-- The invariant holds after every run. -/
theorem run (graph : UCERGraph) (actions : List Action) :
    Busless ((orchestrator false).run { graph := graph } actions) :=
  System.run_invariant (fun _ _ _ h hstep => h.step hstep) (init graph) actions

end Busless

/-! ## Runs that stop at a failure -/

/-- Along a run, once a node has failed, `execute_graph` hands nothing more to
`dispatch_ucer`. -/
def FailStop (hasBus : Bool) (graph : UCERGraph) (actions : List Action) : Prop :=
  ∀ earlier middle later, actions = earlier ++ middle ++ later →
    let before := (orchestrator hasBus).run { graph := graph } earlier
    let after := (orchestrator hasBus).run { graph := graph } (earlier ++ middle)
    before.graph.hasFailed = true → after.dispatched = before.dispatched

/-- No batch is gone on with after a failure. -/
def BatchStops (hasBus : Bool) (s : OrcState) (a : Action) : Prop :=
  ∀ ok compiled, a = .main ok compiled → s.StartsRest hasBus ok → s.graph.hasFailed = false

/-- No event completes a node that has failed. -/
def FailureStands (s : OrcState) (a : Action) : Prop :=
  ∀ fields key node, a = .deliver (.obj fields) → s.listening = true →
    firstMatch s.graph fields = some (key, node) → verdict fields = true →
      s.graph.status? node.nodeId ≠ some .failed

/-- The condition on the state before a step and its action. -/
def StopOk (hasBus : Bool) (s : OrcState) (a : Action) : Prop :=
  BatchStops hasBus s a ∧ FailureStands s a

variable {s : OrcState} {a : Action}

/-- An event that completes no failed node takes no failure back. -/
theorem hasFailed_deliver {event : Json.Value} (hfailed : s.graph.hasFailed = true)
    (h : FailureStands s (.deliver event)) :
    ((orchestrator hasBus).exec s (.deliver event)).graph.hasFailed = true := by
  rw [graph_exec_deliver]
  by_cases hlistening : s.listening = true
  · rw [if_pos hlistening]
    cases hevent : onJobEvent s.graph event with
    | none => exact hfailed
    | some graph' =>
        obtain ⟨fields, key, node, hobj, hmatch, ⟨hverdict, rfl⟩ | ⟨_, rfl⟩⟩ :=
          UCERGraph.onJobEvent_cases hevent
        · have hstands := h fields key node (by rw [hobj]) hlistening hmatch hverdict
          exact (UCERGraph.keeps_markCompleted_iff.mpr hstands).hasFailed hfailed
        · exact UCERGraph.hasFailed_markFailed hfailed _
  · rw [if_neg hlistening]
    exact hfailed

/-- A step of `execute_graph` that goes on with no batch takes no failure back and hands
nothing over. -/
theorem marks_main_of_hasFailed (hbusless : hasBus = false → Busless s)
    (hfailed : s.graph.hasFailed = true) (h : BatchStops hasBus s (.main ok compiled)) :
    ((orchestrator hasBus).exec s (.main ok compiled)).graph.hasFailed = true ∧
      ((orchestrator hasBus).exec s (.main ok compiled)).dispatched = s.dispatched := by
  have hmarks : ((orchestrator hasBus).exec s (.main ok compiled)).marks =
      (s.write hasBus ok).elim s.marks (s.marksAfter compiled) := OrcState.marks_exec_main s
  have hnone : s.write hasBus ok = none →
      ((orchestrator hasBus).exec s (.main ok compiled)).graph.hasFailed = true ∧
        ((orchestrator hasBus).exec s (.main ok compiled)).dispatched = s.dispatched := by
    intro hwrite
    rw [hwrite] at hmarks
    obtain ⟨hgraph, hdispatched⟩ := Prod.mk.inj hmarks
    exact ⟨hgraph ▸ hfailed, hdispatched⟩
  obtain hwrite | hwrite | ⟨key, hwrite⟩ | ⟨hbus, key, rest, ucerId, hpc, _⟩ :=
    OrcState.write_cases hasBus ok s
  · exact hnone hwrite
  · obtain hnext | ⟨key, rest, hbatch, hnext⟩ := OrcState.startNext_of_hasFailed hfailed
    · exact hnone (hwrite.trans hnext)
    · have hstops := h ok compiled rfl ⟨key, rest, hbatch, hwrite.trans hnext⟩
      exact absurd (hfailed.symm.trans hstops) (by decide)
  · rw [hwrite] at hmarks
    obtain ⟨hgraph, hdispatched⟩ := Prod.mk.inj hmarks
    refine ⟨?_, hdispatched.trans (List.append_nil _)⟩
    rw [hgraph]
    exact UCERGraph.hasFailed_markFailed hfailed _
  · -- without a bus nothing has failed while a dispatch is under way
    have hsound := (hbusless hbus).sound (Or.inl (by rw [hpc]; simp [Pc.record]))
    exact absurd (hfailed.symm.trans hsound) (by decide)

/-- Nothing but a step of `execute_graph` hands anything over. -/
theorem dispatched_exec_of_ne_main (h : ∀ ok compiled, a ≠ .main ok compiled) :
    ((orchestrator hasBus).exec s a).dispatched = s.dispatched := by
  refine System.exec_invariant (I := fun t : OrcState => t.dispatched = s.dispatched) rfl ?_
  intro s' hstep
  obtain hsame | ⟨key, ok, ucerId, rfl, _⟩ := OrcState.dispatched_step hstep
  · exact hsame
  · exact absurd rfl (h ok (some ucerId))

/-- **A step that meets the condition takes no failure back, and hands nothing over after
one.** -/
theorem stopOk_exec (hbusless : hasBus = false → Busless s) (hfailed : s.graph.hasFailed = true)
    (h : StopOk hasBus s a) :
    ((orchestrator hasBus).exec s a).graph.hasFailed = true ∧
      ((orchestrator hasBus).exec s a).dispatched = s.dispatched := by
  cases a with
  | main ok compiled => exact marks_main_of_hasFailed hbusless hfailed h.1
  | deliver event =>
      exact ⟨hasFailed_deliver hfailed h.2, dispatched_exec_of_ne_main (by simp)⟩
  | handler i ok =>
      refine ⟨?_, dispatched_exec_of_ne_main (by simp)⟩
      rw [graph_exec_handler]
      exact hfailed
  | timeout =>
      refine ⟨?_, dispatched_exec_of_ne_main (by simp)⟩
      rw [graph_exec_timeout]
      exact hfailed

/-- **When a run stops at a failure.**  A run whose steps all meet the condition hands nothing
over once a node has failed.  Conversely, in a run that stops at a failure no batch is gone on
with after one, unless the next intent does not compile. -/
theorem failStop_of_steps (hasBus : Bool) (graph : UCERGraph) (actions : List Action) :
    ((∀ earlier a later, actions = earlier ++ a :: later →
        StopOk hasBus ((orchestrator hasBus).run { graph := graph } earlier) a) →
      FailStop hasBus graph actions) ∧
    (FailStop hasBus graph actions →
      ∀ earlier ok ucerId later, actions = earlier ++ .main ok (some ucerId) :: later →
        BatchStops hasBus ((orchestrator hasBus).run { graph := graph } earlier)
          (.main ok (some ucerId))) := by
  constructor
  · rintro h earlier middle later rfl
    intro before after hfailed
    have hafter : after.graph.hasFailed = true ∧ after.dispatched = before.dispatched := by
      show ((orchestrator hasBus).run _ (earlier ++ middle)).graph.hasFailed = true ∧
        ((orchestrator hasBus).run _ (earlier ++ middle)).dispatched = before.dispatched
      rw [System.run_append]
      refine System.run_invariant_along
        (I := fun t : OrcState => t.graph.hasFailed = true ∧ t.dispatched = before.dispatched)
        ⟨hfailed, rfl⟩ fun done a rest heq hdone => ?_
      have hok := h (earlier ++ done) a (rest ++ later) (by rw [heq]; simp)
      rw [System.run_append] at hok
      have hbusless : hasBus = false →
          Busless ((orchestrator hasBus).run before done) := by
        rintro rfl
        have hrun := Busless.run graph (earlier ++ done)
        rwa [System.run_append] at hrun
      obtain ⟨hfailed', hdispatched⟩ := stopOk_exec hbusless hdone.1 hok
      exact ⟨hfailed', hdispatched.trans hdone.2⟩
    exact hafter.2
  · rintro h earlier ok ucerId later heq ok' compiled' hmain ⟨key, rest, _, hwrite⟩
    obtain ⟨rfl, rfl⟩ := Action.main.inj hmain
    rw [Bool.eq_false_iff]
    intro hfailed
    have hsame := h earlier [.main ok (some ucerId)] later (by rw [heq]; simp) hfailed
    set s := (orchestrator hasBus).run { graph := graph } earlier with hs
    have hmarks : ((orchestrator hasBus).exec s (.main ok (some ucerId))).marks =
        (s.write hasBus ok).elim s.marks (s.marksAfter (some ucerId)) :=
      OrcState.marks_exec_main s
    rw [hwrite] at hmarks
    rw [System.run_concat, ← hs, (Prod.mk.inj hmarks).2] at hsame
    exact absurd hsame (by simp [Write.handed])

/-- The first of two nodes that do not depend on each other fails while it is dispatched. -/
def failsInBatch : List Action :=
  [.main true none, .main true (some "ua"), .deliver (eventOn "ua" false)]

/-- The second one is handed over all the same. -/
theorem batch_goes_on_after_failure :
    ¬ FailStop true twoNodes (failsInBatch ++ [.main true none, .main true (some "ub")]) := by
  intro h
  have hfailed : ((orchestrator true).run { graph := twoNodes } failsInBatch).graph.hasFailed =
      true := by decide
  have hsame := h failsInBatch [.main true none, .main true (some "ub")] [] (by simp) hfailed
  exact absurd hsame (by decide)

end Ucser
