import Ucser.Core.Checkpoint
import Ucser.Core.Schedule

/-!
# Recovering from a crash

The process may stop at any await of a call of `execute_graph`, and a fresh orchestrator
runs what `recover_graph` loads.  Here there is no bus, and no compilation, dispatch or
save fails.

* `UCERGraph.Settled` — every node is pending or completed.
* `Solo` — the invariant of a call: the nodes dispatched are completed, but for the one
  under way, and were pending; all others are as they were in the beginning.
* `recovers_iff` — **which graphs a fresh orchestrator completes**: the settled ones.
* `Held`, `SyncState.Window` — what is stored, and when that is a graph with a node
  under way.
* `crash_recovers_iff` — **when a crash is recovered from**.
* `crash_after_dispatch_stuck` — a node that is stored as running is never resumed.
-/

namespace Ucser

/-! ## Settled graphs -/

namespace UCERGraph

variable {graph : UCERGraph}

/-- Every node is pending or completed. -/
def Settled (graph : UCERGraph) : Prop :=
  ∀ key status, graph.status? key = some status → status = .pending ∨ status = .completed

theorem Fresh.settled (h : graph.Fresh) : graph.Settled := by
  intro key status hstatus
  have hpending := h.pending key (mem_keys_iff_status?.mpr ⟨status, hstatus⟩)
  exact Or.inl (Option.some.inj (hstatus.symm.trans hpending))

theorem SameShape.acyclic {graph' : UCERGraph} (h : SameShape graph graph')
    (hacyclic : Depend.Acyclic graph.Depends) : Depend.Acyclic graph'.Depends := by
  have hdepends : graph'.Depends = graph.Depends := by
    funext a b
    exact propext h.depends
  rw [hdepends]
  exact hacyclic

theorem Settled.hasFailed (h : graph.Settled) : graph.hasFailed = false := by
  rw [Bool.eq_false_iff]
  intro hfailed
  obtain ⟨key, hkey⟩ := hasFailed_iff.mp hfailed
  exact absurd (h key .failed hkey) (by simp)

/-- While the dependencies are acyclic, a settled graph that is not complete has a ready
node. -/
theorem Settled.exists_ready (h : graph.Settled) (hacyclic : Depend.Acyclic graph.Depends)
    (hcomplete : graph.isComplete = false) : graph.getReadyNodes ≠ [] := by
  intro hready
  let done := graph.nodes.keys.filter (fun key => graph.status? key = some .completed)
  have hdone : ∀ key ∈ graph.nodes.keys, key ∉ done → graph.status? key = some .pending := by
    intro key hkey hnot
    obtain ⟨status, hstatus⟩ := mem_keys_iff_status?.mp hkey
    rcases h key status hstatus with rfl | rfl
    · exact hstatus
    · exact absurd (List.mem_filter.mpr ⟨hkey, by simpa using hstatus⟩) hnot
  -- every node left waits for another one left
  have hstuck : ∀ key ∈ graph.nodes.keys, key ∉ done →
      ∃ dep ∈ graph.nodes.keys, dep ∉ done ∧ graph.Depends key dep := by
    intro key hkey hnot
    by_contra hnone
    have hmem : key ∈ graph.getReadyNodes := by
      refine mem_getReadyNodes.mpr ⟨hdone key hkey hnot, fun dep hdep => ?_⟩
      obtain ⟨_, _, _, hdepkey⟩ := id hdep
      by_contra hstatus
      refine hnone ⟨dep, hdepkey, fun hmem => hstatus ?_, hdep⟩
      simpa using (List.mem_filter.mp hmem).2
    rw [hready] at hmem
    exact List.not_mem_nil hmem
  obtain ⟨key, hkey, hnot⟩ : ∃ key ∈ graph.nodes.keys, key ∉ done := by
    by_contra hnone
    refine absurd (isComplete_iff.mpr fun key status hstatus => ?_) (by rw [hcomplete]; decide)
    have hkey : key ∈ graph.nodes.keys := mem_keys_iff_status?.mpr ⟨status, hstatus⟩
    by_contra hne
    refine hnone ⟨key, hkey, fun hmem => hne ?_⟩
    have hcompleted : graph.status? key = some .completed := by
      simpa using (List.mem_filter.mp hmem).2
    exact Option.some.inj (hstatus.symm.trans hcompleted)
  exact hacyclic.not_meetsCycle key (Depend.meetsCycle_of_stuck hstuck hkey hnot)

end UCERGraph

/-! ## A call by itself -/

namespace Pc

/-- The node that has been started and not yet completed. -/
def underWay : Pc → Option String
  | .dispatch key _ _ => some key
  | .dispatched key _ _ => some key
  | _ => none

/-- No node is being executed, and none is about to be started. -/
def idle : Pc → Bool
  | .armed => true
  | .waiting => true
  | .woken _ => true
  | .relocked _ => true
  | .returned _ => true
  | .raised => true
  | _ => false

/-- Reached without a bus as long as nothing fails. -/
def solo : Pc → Bool
  | .subscribe => false
  | .failed => false
  | .notifyLock _ => false
  | .waitLock => false
  | .relocking _ => false
  | _ => true

variable {pc : Pc}

theorem underWay_of_idle (h : pc.idle = true) : pc.underWay = none := by
  cases pc <;> simp_all [idle, underWay]

theorem batch_of_idle (h : pc.idle = true) : pc.batch = [] := by
  cases pc <;> simp_all [idle, batch]

theorem solo_of_idle (h : pc.idle = true) : pc.solo = true := by
  cases pc <;> simp_all [idle, solo]

theorem saving_of_idle (h : pc.idle = true) : pc.saving = false := by
  cases pc <;> simp_all [idle, saving]

theorem cases_of_solo (hsolo : pc.solo = true) (hidle : pc.idle = false) :
    pc = .checkpoint ∨ (∃ key rest ucerId, pc = .dispatch key rest ucerId) ∨
      (∃ key rest ucerId, pc = .dispatched key rest ucerId) ∨
      ∃ key rest, pc = .completed key rest := by
  cases pc <;> simp_all [solo, idle]

end Pc

/-- A call without a bus, started with a graph, in which nothing has failed. -/
structure Solo (graph : UCERGraph) (s : OrcState) : Prop where
  shape : UCERGraph.SameShape graph s.graph
  handlers : s.handlers = []
  listening : s.listening = false
  pc : s.pc.solo = true
  lock : s.lock = ⟨s.pc.holding, []⟩
  once : s.dispatched.Nodup
  started : ∀ key ∈ s.dispatched, graph.status? key = some .pending
  underWay : ∀ key, s.pc.underWay = some key → key ∈ s.dispatched
  status : ∀ key, s.graph.status? key =
    if key ∈ s.dispatched then some (if s.pc.underWay = some key then .running else .completed)
    else graph.status? key
  batchOnce : s.pc.batch.Nodup
  batchFresh : ∀ key ∈ s.pc.batch, graph.status? key = some .pending ∧ key ∉ s.dispatched

/-- The kinds of steps of such a call, when its awaits return. -/
inductive SoloMove (compiled : Option String) (s s' : OrcState) : Prop where
  | dispatched (key : String) (rest : List String) (ucerId : String)
      (hpc : s.pc = .dispatch key rest ucerId) (heq : s' = { s with pc := .dispatched key rest ucerId })
  | completed (key : String) (rest : List String) (ucerId : String)
      (hpc : s.pc = .dispatched key rest ucerId)
      (heq : s' = { s with
        graph := s.graph.markCompleted (s.graph.nodeIdOf key) (some ucerId)
        pc := .completed key rest })
  | goOn (hpc : s.pc.underWay = none)
      (heq : s' = OrcState.goOn compiled s.pc.batch { s with lock := {} })
  | idle (pc : Pc) (hbefore : s.pc.idle = true) (hpc : pc.idle = true)
      (heq : s' = { s with lock := ⟨pc.holding, []⟩, pc := pc })

namespace Solo

variable {graph : UCERGraph} {compiled : Option String} {s s' : OrcState} {key : String}
  {rest : List String}

theorem init (graph : UCERGraph) : Solo graph { graph := graph } where
  shape := UCERGraph.SameShape.refl graph
  handlers := rfl
  listening := rfl
  pc := rfl
  lock := rfl
  once := List.nodup_nil
  started := by simp
  underWay := fun _ h => absurd h (by simp [Pc.underWay])
  status := by simp
  batchOnce := List.nodup_nil
  batchFresh := by simp [Pc.batch]

/-- **What a step of such a call can do.** -/
theorem cases (h : Solo graph s) (hstep : s.mainStep false true compiled = some s') :
    SoloMove compiled s s' := by
  have hlock := h.lock
  have hsolo := h.pc
  have hsame : ∀ lock : Lock, s.lock = lock → { s with lock := lock } = s := by
    rintro lock rfl
    rfl
  unfold OrcState.mainStep at hstep
  cases hpc : s.pc with
  | checkpoint =>
      rw [hpc] at hstep hlock
      refine .goOn (by rw [hpc]; rfl) ?_
      rw [hsame {} hlock, hpc, ← Option.some.inj hstep]
      rfl
  | dispatch key rest ucerId =>
      rw [hpc] at hstep
      exact .dispatched key rest ucerId hpc (Option.some.inj hstep).symm
  | dispatched key rest ucerId =>
      rw [hpc] at hstep
      exact .completed key rest ucerId hpc (Option.some.inj hstep).symm
  | completed key rest =>
      rw [hpc] at hstep hlock
      have hnotify : s.notify compiled rest = s.goOn compiled rest := by
        rw [OrcState.notify, if_pos (by rw [hlock]; rfl),
          OrcState.notifyAll_of_ne_waiting (by rw [hpc]; simp)]
      refine .goOn (by rw [hpc]; rfl) ?_
      rw [hsame {} hlock, hpc, ← Option.some.inj hstep]
      exact hnotify
  | armed =>
      rw [hpc] at hstep hlock
      refine .idle .waiting (by rw [hpc]; rfl) rfl ?_
      rw [← Option.some.inj hstep, hlock]
      rfl
  | woken t =>
      rw [hpc] at hstep hlock
      have hfree : s.lock.free = true := by
        rw [hlock]
        rfl
      dsimp only at hstep
      rw [if_pos hfree] at hstep
      refine .idle (.relocked t) (by rw [hpc]; rfl) rfl ?_
      rw [← Option.some.inj hstep, hlock]
      rfl
  | relocked t =>
      rw [hpc] at hstep hlock
      cases t with
      | true =>
          refine .idle .raised (by rw [hpc]; rfl) rfl ?_
          rw [← Option.some.inj hstep, hlock]
          rfl
      | false =>
          refine .goOn (by rw [hpc]; rfl) ?_
          rw [hpc, ← Option.some.inj hstep, hlock]
          rfl
  | waiting =>
      rw [hpc] at hstep
      exact absurd hstep (by simp)
  | returned b =>
      rw [hpc] at hstep
      exact absurd hstep (by simp)
  | raised =>
      rw [hpc] at hstep
      exact absurd hstep (by simp)
  | _ =>
      rw [hpc] at hsolo
      exact absurd hsolo (by simp [Pc.solo])

/-- While no node is under way, the nodes dispatched are completed. -/
theorem status_of_none (h : Solo graph s) (hpc : s.pc.underWay = none) (key : String) :
    s.graph.status? key = if key ∈ s.dispatched then some .completed else graph.status? key := by
  rw [h.status, hpc]
  simp

theorem settled_iff (h : Solo graph s) (hpc : s.pc.underWay = none) :
    s.graph.Settled ↔ graph.Settled := by
  constructor
  · intro hsettled key status hstatus
    by_cases hmem : key ∈ s.dispatched
    · rw [h.started key hmem] at hstatus
      exact Or.inl (Option.some.inj hstatus).symm
    · exact hsettled key status (by rw [h.status_of_none hpc, if_neg hmem, hstatus])
  · intro hsettled key status hstatus
    rw [h.status_of_none hpc] at hstatus
    by_cases hmem : key ∈ s.dispatched
    · rw [if_pos hmem] at hstatus
      exact Or.inr (Option.some.inj hstatus).symm
    · rw [if_neg hmem] at hstatus
      exact hsettled key status hstatus

/-- A node that is under way is running. -/
theorem not_settled (h : Solo graph s) (hpc : s.pc.underWay = some key) : ¬ s.graph.Settled := by
  intro hsettled
  have hstatus := h.status key
  rw [if_pos (h.underWay key hpc), if_pos hpc] at hstatus
  exact absurd (hsettled key .running hstatus) (by simp)

theorem ready (h : Solo graph s) (hpc : s.pc.underWay = none) (hkey : key ∈ s.graph.getReadyNodes) :
    graph.status? key = some .pending ∧ key ∉ s.dispatched := by
  have hpending := (UCERGraph.mem_getReadyNodes.mp hkey).1
  rw [h.status_of_none hpc] at hpending
  by_cases hmem : key ∈ s.dispatched
  · rw [if_pos hmem] at hpending
    exact absurd hpending (by decide)
  · rw [if_neg hmem] at hpending
    exact ⟨hpending, hmem⟩

/-- A call that only moves on, without a node under way or a batch. -/
theorem toIdle (h : Solo graph s) (hbefore : s.pc.underWay = none) (pc : Pc)
    (hpc : pc.idle = true) : Solo graph { s with lock := ⟨pc.holding, []⟩, pc := pc } where
  shape := h.shape
  handlers := h.handlers
  listening := h.listening
  pc := Pc.solo_of_idle hpc
  lock := rfl
  once := h.once
  started := h.started
  underWay := fun key hkey => absurd (hkey.symm.trans (Pc.underWay_of_idle hpc)) (by simp)
  status := by
    intro key
    show s.graph.status? key = if key ∈ s.dispatched then
      some (if pc.underWay = some key then .running else .completed) else graph.status? key
    rw [h.status_of_none hbefore, Pc.underWay_of_idle hpc]
    simp
  batchOnce := by
    show pc.batch.Nodup
    rw [Pc.batch_of_idle hpc]
    exact List.nodup_nil
  batchFresh := by
    intro key hkey
    rw [show Pc.batch _ = [] from Pc.batch_of_idle hpc] at hkey
    exact absurd hkey List.not_mem_nil

/-- A node is started. -/
theorem startNode (h : Solo graph s) (hpc : s.pc.underWay = none) (ucerId : String)
    (honce : (key :: rest).Nodup)
    (hfresh : ∀ k ∈ key :: rest, graph.status? k = some .pending ∧ k ∉ s.dispatched) :
    Solo graph (OrcState.startNode (some ucerId) key rest { s with lock := {} }) where
  shape := (h.shape.trans (UCERGraph.sameShape_setRunning key)).trans
    (UCERGraph.sameShape_setUcerId key ucerId)
  handlers := h.handlers
  listening := h.listening
  pc := rfl
  lock := rfl
  once := by
    show (s.dispatched ++ [key]).Nodup
    rw [← List.concat_eq_append]
    exact h.once.concat (hfresh key List.mem_cons_self).2
  started := by
    intro k hk
    rcases List.mem_append.mp hk with hk | hk
    · exact h.started k hk
    · rw [List.mem_singleton.mp hk]
      exact (hfresh key List.mem_cons_self).1
  underWay := by
    intro k hk
    obtain rfl : key = k := Option.some.inj hk
    exact List.mem_append_right _ List.mem_cons_self
  status := by
    intro k
    show ((s.graph.setRunning key).setUcerId key ucerId).status? k =
      if k ∈ s.dispatched ++ [key] then some (if some key = some k then .running else .completed)
      else graph.status? k
    rw [UCERGraph.status?_setUcerId, UCERGraph.status?_setRunning, h.status_of_none hpc]
    by_cases hk : k = key
    · obtain ⟨hpending, hnot⟩ := hfresh key List.mem_cons_self
      rw [if_pos hk, hk, if_neg hnot, hpending]
      simp
    · have hne : key ≠ k := fun heq => hk heq.symm
      simp [hk, hne]
  batchOnce := (List.nodup_cons.mp honce).2
  batchFresh := by
    intro k hk
    obtain ⟨hpending, hnot⟩ := hfresh k (List.mem_cons_of_mem _ hk)
    refine ⟨hpending, ?_⟩
    show k ∉ s.dispatched ++ [key]
    rw [List.mem_append, List.mem_singleton]
    rintro (hmem | rfl)
    · exact hnot hmem
    · exact (List.nodup_cons.mp honce).1 hk

/-- What going on comes to: a node is started, or the call comes to rest. -/
theorem goOn_cases (h : Solo graph s) (hpc : s.pc.underWay = none)
    (hcompiled : s.next ≠ none → compiled ≠ none) :
    (∃ key rest ucerId, (key :: rest).Nodup ∧
        (∀ k ∈ key :: rest, graph.status? k = some .pending ∧ k ∉ s.dispatched) ∧
        OrcState.goOn compiled s.pc.batch { s with lock := {} } =
          OrcState.startNode (some ucerId) key rest { s with lock := {} }) ∨
      ((s.graph.isComplete = true ∨ s.graph.hasFailed = true) ∧
        OrcState.goOn compiled s.pc.batch { s with lock := {} } =
          { s with lock := {}, pc := .returned (!s.graph.hasFailed) }) ∨
      (¬ OrcState.Stirred s.graph ∧ OrcState.goOn compiled s.pc.batch { s with lock := {} } =
        { s with lock := ⟨true, []⟩, pc := .armed }) := by
  have hstart : ∀ key rest, (key :: rest).Nodup →
      (∀ k ∈ key :: rest, graph.status? k = some .pending ∧ k ∉ s.dispatched) →
      s.next = some key →
      ∃ key' rest' ucerId, (key' :: rest').Nodup ∧
        (∀ k ∈ key' :: rest', graph.status? k = some .pending ∧ k ∉ s.dispatched) ∧
        OrcState.startNode compiled key rest { s with lock := {} } =
          OrcState.startNode (some ucerId) key' rest' { s with lock := {} } := by
    intro key rest honce hfresh hnext
    obtain ⟨ucerId, rfl⟩ := Option.ne_none_iff_exists'.mp (hcompiled (by rw [hnext]; simp))
    exact ⟨key, rest, ucerId, honce, hfresh, rfl⟩
  cases hbatch : s.pc.batch with
  | cons key rest =>
      refine Or.inl (hstart key rest ?_ ?_ ?_)
      · rw [← hbatch]
        exact h.batchOnce
      · rw [← hbatch]
        exact h.batchFresh
      · rw [OrcState.next, hbatch]
        rfl
  | nil =>
      show _ ∨ (_ ∧ OrcState.loopTop compiled { s with lock := {} } = _) ∨
        (_ ∧ OrcState.loopTop compiled { s with lock := {} } = _)
      obtain ⟨hdone, heq⟩ | ⟨hstirred, _, heq⟩ | ⟨_, hbusy, _⟩ | ⟨key, rest, hready, _, _, heq⟩ :=
        OrcState.loopTop_cases compiled { s with lock := {} }
      · exact Or.inr (Or.inl ⟨hdone, heq⟩)
      · exact Or.inr (Or.inr ⟨hstirred, heq⟩)
      · exact absurd hbusy (by simp [Lock.free])
      · left
        have hready' : s.graph.getReadyNodes = key :: rest := hready
        obtain ⟨key', rest', ucerId, honce, hfresh, heq'⟩ := hstart key rest
          (by rw [← hready']; exact UCERGraph.nodup_getReadyNodes _)
          (fun k hk => h.ready hpc (by rw [hready']; exact hk))
          (by rw [OrcState.next, hbatch, hready']; rfl)
        exact ⟨key', rest', ucerId, honce, hfresh, heq.trans heq'⟩

theorem goOn (h : Solo graph s) (hpc : s.pc.underWay = none)
    (hcompiled : s.next ≠ none → compiled ≠ none) :
    Solo graph (OrcState.goOn compiled s.pc.batch { s with lock := {} }) := by
  obtain ⟨key, rest, ucerId, honce, hfresh, heq⟩ | ⟨_, heq⟩ | ⟨_, heq⟩ := h.goOn_cases hpc hcompiled
  · rw [heq]
    exact h.startNode hpc ucerId honce hfresh
  · rw [heq]
    exact h.toIdle hpc (.returned (!s.graph.hasFailed)) rfl
  · rw [heq]
    exact h.toIdle hpc .armed rfl

/-- The save after a dispatch is under way. -/
theorem toDispatched (h : Solo graph s) {ucerId : String} (hpc : s.pc = .dispatch key rest ucerId) :
    Solo graph { s with pc := .dispatched key rest ucerId } := by
  obtain ⟨hshape, hhandlers, hlistening, _, hlock, honce, hstarted, hunderWay, hstatus, hbatchOnce,
    hbatchFresh⟩ := h
  rw [hpc] at hlock hunderWay hstatus hbatchOnce hbatchFresh
  exact ⟨hshape, hhandlers, hlistening, rfl, hlock, honce, hstarted, hunderWay, hstatus, hbatchOnce,
    hbatchFresh⟩

/-- The node under way is completed. -/
theorem toCompleted (h : Solo graph s) (hnamed : graph.Named) {ucerId : String}
    (hpc : s.pc = .dispatched key rest ucerId) :
    Solo graph { s with
      graph := s.graph.markCompleted (s.graph.nodeIdOf key) (some ucerId)
      pc := .completed key rest } := by
  have hid : s.graph.nodeIdOf key = key := by rw [h.shape.nodeIdOf, hnamed]
  obtain ⟨hshape, hhandlers, hlistening, _, hlock, honce, hstarted, hunderWay, hstatus, hbatchOnce,
    hbatchFresh⟩ := h
  rw [hpc] at hlock hunderWay hstatus hbatchOnce hbatchFresh
  refine ⟨hshape.trans (UCERGraph.sameShape_markCompleted _ _), hhandlers, hlistening, rfl, hlock,
    honce, hstarted, fun k hk => absurd hk (by simp [Pc.underWay]), fun k => ?_, hbatchOnce,
    hbatchFresh⟩
  have hmem : key ∈ s.dispatched := hunderWay key rfl
  show (s.graph.markCompleted (s.graph.nodeIdOf key) (some ucerId)).status? k =
    if k ∈ s.dispatched then some (if none = some k then .running else .completed)
    else graph.status? k
  rw [hid, UCERGraph.status?_markCompleted, hstatus]
  by_cases hk : k = key
  · simp [hk, hmem]
  · have hne : key ≠ k := fun heq => hk heq.symm
    simp [hk, hne, Pc.underWay]

/-- A step of the call. -/
theorem mainStep (h : Solo graph s) (hnamed : graph.Named)
    (hcompiled : s.pc.underWay = none → s.next ≠ none → compiled ≠ none)
    (hstep : s.mainStep false true compiled = some s') : Solo graph s' := by
  cases h.cases hstep with
  | dispatched key rest ucerId hpc heq =>
      rw [heq]
      exact h.toDispatched hpc
  | completed key rest ucerId hpc heq =>
      rw [heq]
      exact h.toCompleted hnamed hpc
  | goOn hpc heq =>
      rw [heq]
      exact h.goOn hpc (hcompiled hpc)
  | idle pc hbefore hpc heq =>
      rw [heq]
      exact h.toIdle (Pc.underWay_of_idle hbefore) pc hpc

/-- The end of the waiting time. -/
theorem timeout_cases (h : Solo graph s) (hstep : s.timeoutStep = some s') :
    s.pc.idle = true ∧ s' = { s with lock := ⟨Pc.holding (.woken true), []⟩, pc := .woken true } := by
  have hlock := h.lock
  have hsolo := h.pc
  obtain ⟨hpc, rfl⟩ | ⟨⟨t, hpc⟩, rfl⟩ := OrcState.timeoutStep_cases hstep
  · rcases hpc with hpc | ⟨t, hpc⟩
    · rw [hpc] at hlock
      exact ⟨by rw [hpc]; rfl, by rw [hlock]; rfl⟩
    · rw [hpc] at hlock
      exact ⟨by rw [hpc]; rfl, by rw [hlock]; rfl⟩
  · rw [hpc] at hsolo
    exact absurd hsolo (by simp [Pc.solo])

theorem timeoutStep (h : Solo graph s) (hstep : s.timeoutStep = some s') : Solo graph s' := by
  obtain ⟨hidle, rfl⟩ := h.timeout_cases hstep
  exact h.toIdle (Pc.underWay_of_idle hidle) (.woken true) rfl

end Solo

/-! ## The resumed call -/

/-- A fresh orchestrator completes the graph: whatever the records are called, the call
returns `True` with every node completed, and no node that is completed already is
dispatched. -/
def Recovers (graph : UCERGraph) : Prop :=
  ∀ ids : String → String, ∃ final,
    (orchestrator false).EndsIn (move fun key => .dispatched (ids key)) { graph := graph } final ∧
      final.pc = .returned true ∧
      (∀ key ∈ graph.nodes.keys, final.graph.status? key = some .completed) ∧
      ∀ key, graph.status? key = some .completed → key ∉ final.dispatched

/-- How many steps the node under way takes, and the start of the next one. -/
def Pc.phase : Pc → Nat
  | .checkpoint => 1
  | .dispatch _ _ _ => 3
  | .dispatched _ _ _ => 2
  | .completed _ _ => 1
  | _ => 0

/-- A bound on the steps of a call until it returns. -/
def remaining (graph : UCERGraph) (s : OrcState) : Nat :=
  4 * (graph.nodes.keys.length - s.dispatched.length) + s.pc.phase

/-- The call has returned `True` with every node completed. -/
def Completed (s : OrcState) : Prop := s.pc = .returned true ∧ s.graph.isComplete = true

section Resumed

variable {graph : UCERGraph} {s s' : OrcState} {ids : String → String}

theorem move_cases (ids : String → String) (s : OrcState) :
    move (fun key => .dispatched (ids key)) s = .timeout ∨
      ∃ compiled, move (fun key => .dispatched (ids key)) s = .main true compiled ∧
        (s.pc.underWay = none → s.next ≠ none → compiled ≠ none) := by
  unfold move
  split
  · exact Or.inl rfl
  · rename_i hpc
    exact Or.inr ⟨none, rfl, fun hnone => absurd hnone (by simp [hpc, Pc.underWay])⟩
  · refine Or.inr ⟨_, rfl, fun _ hnext => ?_⟩
    obtain ⟨key, hkey⟩ := Option.ne_none_iff_exists'.mp hnext
    simp [hkey, Attempt.compiled]

theorem Solo.exec (h : Solo graph s) (hnamed : graph.Named) (ids : String → String) :
    Solo graph ((orchestrator false).exec s (move (fun key => .dispatched (ids key)) s)) := by
  refine System.exec_invariant h fun s' hstep => ?_
  obtain hmove | ⟨compiled, hmove, hcompiled⟩ := move_cases ids s
  · rw [hmove] at hstep
    exact h.timeoutStep hstep
  · rw [hmove] at hstep
    exact h.mainStep hnamed hcompiled hstep

theorem Solo.length_le (h : Solo graph s) : s.dispatched.length ≤ graph.nodes.keys.length := by
  refine (h.once.subperm fun key hkey => ?_).length_le
  exact UCERGraph.mem_keys_iff_status?.mpr ⟨.pending, h.started key hkey⟩

/-- Going on, the call starts a node or returns `True`. -/
theorem Solo.resume (h : Solo graph s) (ids : String → String) (hsettled : graph.Settled)
    (hacyclic : Depend.Acyclic graph.Depends) (hpc : s.pc.underWay = none) (hlock : s.lock = {})
    (hphase : 0 < s.pc.phase) :
    let s' := resume (fun key => .dispatched (ids key)) s.pc.batch s
    (s'.pc.idle = false ∨ Completed s') ∧ remaining graph s' < remaining graph s := by
  have hsettled' : s.graph.Settled := (h.settled_iff hpc).mpr hsettled
  have hacyclic' : Depend.Acyclic s.graph.Depends := h.shape.acyclic hacyclic
  have hsame : { s with lock := {} } = s := by rw [← hlock]
  have hcompiled : s.next ≠ none →
      (s.next.bind fun key => (Attempt.dispatched (ids key)).compiled) ≠ none := by
    intro hnext
    obtain ⟨key, hkey⟩ := Option.ne_none_iff_exists'.mp hnext
    simp [hkey, Attempt.compiled]
  have hcases := h.goOn_cases hpc hcompiled
  rw [hsame] at hcases
  show (Pc.idle (OrcState.goOn (s.next.bind _) s.pc.batch s).pc = false ∨
    Completed (OrcState.goOn (s.next.bind _) s.pc.batch s)) ∧
      remaining graph (OrcState.goOn (s.next.bind _) s.pc.batch s) < remaining graph s
  obtain ⟨key, rest, ucerId, honce, hfresh, heq⟩ | ⟨hdone, heq⟩ | ⟨hstirred, heq⟩ := hcases
  · rw [heq]
    refine ⟨Or.inl rfl, ?_⟩
    have hle := (h.startNode hpc ucerId honce hfresh).length_le
    change (s.dispatched ++ [key]).length ≤ graph.nodes.keys.length at hle
    show 4 * (graph.nodes.keys.length - (s.dispatched ++ [key]).length) + 3 < remaining graph s
    rw [List.length_append, List.length_singleton] at hle ⊢
    unfold remaining
    omega
  · have hcomplete : s.graph.isComplete = true := by
      refine hdone.resolve_right ?_
      rw [hsettled'.hasFailed]
      decide
    rw [heq, hsettled'.hasFailed]
    refine ⟨Or.inr ⟨rfl, hcomplete⟩, ?_⟩
    show 4 * (graph.nodes.keys.length - s.dispatched.length) + 0 < remaining graph s
    unfold remaining
    omega
  · refine absurd ?_ hstirred
    cases hcomplete : s.graph.isComplete with
    | true => exact Or.inr (Or.inl hcomplete)
    | false => exact Or.inl (hsettled'.exists_ready hacyclic' hcomplete)

/-- **A settled graph is completed**, in a number of steps that the nodes bound. -/
theorem leads_completed (hnamed : graph.Named) (hacyclic : Depend.Acyclic graph.Depends)
    (hsettled : graph.Settled) (ids : String → String) :
    (orchestrator false).Leads (move fun key => .dispatched (ids key)) { graph := graph }
      Completed := by
  have hstep : ∀ s, (Solo graph s ∧ (s.pc.idle = false ∨ Completed s)) → ¬ Completed s →
      let s' := (orchestrator false).exec s (move (fun key => .dispatched (ids key)) s)
      (Solo graph s' ∧ (s'.pc.idle = false ∨ Completed s')) ∧
        remaining graph s' < remaining graph s := by
    rintro s ⟨h, hactive⟩ hnot s'
    have hsolo : Solo graph s' := h.exec hnamed ids
    have hidle := hactive.resolve_right hnot
    rw [and_assoc]
    refine ⟨hsolo, ?_⟩
    have hlock := h.lock
    obtain hpc | ⟨key, rest, ucerId, hpc⟩ | ⟨key, rest, ucerId, hpc⟩ | ⟨key, rest, hpc⟩ :=
      Pc.cases_of_solo h.pc hidle
    · have hresume := h.resume ids hsettled hacyclic (by rw [hpc]; rfl)
        (by rw [hlock, hpc]; rfl) (by rw [hpc]; decide)
      have hexec : s' = resume _ [] s := exec_checkpoint hpc
      rw [hpc] at hresume
      rw [hexec]
      exact hresume
    · have hexec : s' = { s with pc := .dispatched key rest ucerId } :=
        (exec_dispatch hpc).trans (if_pos rfl)
      rw [hexec]
      exact ⟨Or.inl rfl, by simp [remaining, hpc, Pc.phase]⟩
    · have hexec : s' = _ := exec_dispatched hpc
      rw [hexec]
      exact ⟨Or.inl rfl, by simp [remaining, hpc, Pc.phase]⟩
    · have hfree : s.lock = {} := by rw [hlock, hpc]; rfl
      have hresume := h.resume ids hsettled hacyclic (by rw [hpc]; rfl) hfree
        (by simp [hpc, Pc.phase])
      have hexec : s' = resume _ rest s := exec_completed hpc hfree
      rw [hpc] at hresume
      rw [hexec]
      exact hresume
  exact System.leads_of_measure (remaining graph) hstep ⟨Solo.init graph, Or.inl rfl⟩

/-- **Which graphs a fresh orchestrator completes.** -/
theorem recovers_iff (hnamed : graph.Named) (hacyclic : Depend.Acyclic graph.Depends) :
    Recovers graph ↔ graph.Settled := by
  have hsolo : ∀ (ids : String → String) n, Solo graph ((orchestrator false).follow
      (move fun key => .dispatched (ids key)) { graph := graph } n) :=
    fun ids n => System.follow_invariant (fun s h => h.exec hnamed ids) (Solo.init graph) n
  constructor
  · intro hrecovers key status hstatus
    obtain ⟨final, ⟨n, hn⟩, hpc, hcompleted, _⟩ := hrecovers id
    have h : Solo graph final := hn n (Nat.le_refl n) ▸ hsolo id n
    have hfinal := hcompleted key (UCERGraph.mem_keys_iff_status?.mpr ⟨status, hstatus⟩)
    -- only pending nodes have been dispatched, and all others are as they were
    by_cases hmem : key ∈ final.dispatched
    · rw [h.started key hmem] at hstatus
      exact Or.inl (Option.some.inj hstatus).symm
    · rw [h.status, if_neg hmem, hstatus] at hfinal
      exact Or.inr (Option.some.inj hfinal)
  · intro hsettled ids
    obtain ⟨n, hpc, hcomplete⟩ := leads_completed hnamed hacyclic hsettled ids
    have h := hsolo ids n
    refine ⟨_, System.EndsIn.of_follow n (endsIn_returned hpc), hpc, fun key hkey => ?_,
      fun key hstatus hmem => ?_⟩
    · rw [← h.shape.keys] at hkey
      obtain ⟨status, hstatus⟩ := UCERGraph.mem_keys_iff_status?.mp hkey
      rw [hstatus, UCERGraph.isComplete_iff.mp hcomplete key status hstatus]
    · rw [h.started key hmem] at hstatus
      exact absurd hstatus (by decide)

end Resumed

/-! ## What is stored -/

/-- `recover_graph`. -/
def recoverGraph (s : SyncState) : Option UCERGraph := s.store.stored

/-- Nothing fails: every await returns, and every node is compiled. -/
def SyncAction.calm : SyncAction → Bool
  | .orc (.main ok compiled) => ok && compiled.isSome
  | _ => true

/-- The stored graph has a node under way: the save after its dispatch has taken effect,
and the one after its completion has not. -/
def SyncState.Window (s : SyncState) : Prop :=
  match s.orc.pc with
  | .dispatched _ _ _ => s.store.inFlight = []
  | .completed _ _ => s.store.inFlight ≠ []
  | _ => False

theorem SyncState.not_window_of_not_saving {s : SyncState} (h : s.orc.pc.saving = false) :
    ¬ s.Window := by
  unfold Window
  split
  · rename_i hpc
    exact absurd (hpc ▸ h) (by simp [Pc.saving])
  · rename_i hpc
    exact absurd (hpc ▸ h) (by simp [Pc.saving])
  · exact id

/-- A call by itself, its save, if one is in flight, and what is stored. -/
structure Held (graph : UCERGraph) (s : SyncState) : Prop where
  solo : Solo graph s.orc
  flight : s.orc.pc.saving = false → s.store.inFlight = []
  document : ∀ w ∈ s.store.inFlight, w.owner = .main ∧ w.value = s.orc.graph
  stored : ∀ g, s.store.stored = some g →
    UCERGraph.SameShape graph g ∧ (g.Settled ↔ graph.Settled ∧ ¬ s.Window)

namespace Held

variable {graph : UCERGraph} {s s' : SyncState} {orc : OrcState} {a : Action}

theorem init {stored : Option UCERGraph} (h : stored = none ∨ stored = some graph) :
    Held graph (.begin stored graph) where
  solo := Solo.init graph
  flight := fun h => absurd h (by simp [SyncState.begin, Pc.saving])
  document := by
    intro w hw
    obtain rfl := List.mem_singleton.mp hw
    exact ⟨rfl, rfl⟩
  stored := by
    intro g hg
    change stored = some g at hg
    rcases h with rfl | rfl
    · exact absurd hg (by simp)
    · obtain rfl := Option.some.inj hg
      exact ⟨UCERGraph.SameShape.refl graph, by simp [SyncState.Window, SyncState.begin]⟩

/-- Going on from a save, the call finds it done. -/
theorem quiet (h : Held graph s) (hbusy : s.store.busy .main = false) : s.store.inFlight = [] := by
  refine List.eq_nil_iff_forall_not_mem.mpr fun w hw => ?_
  exact Register.busy_eq_false_iff.mp hbusy w hw (h.document w hw).1

/-- The graph in memory, stored at the end of a save. -/
theorem settled_graph_iff (h : Held graph s) (hsaving : s.orc.pc.saving = true)
    {store : Register Task UCERGraph} (hstore : store.inFlight = []) :
    s.orc.graph.Settled ↔ graph.Settled ∧ ¬ SyncState.Window { s with store := store } := by
  have hsolo := h.solo.pc
  cases hpc : s.orc.pc with
  | checkpoint =>
      rw [h.solo.settled_iff (by rw [hpc]; rfl)]
      simp [SyncState.Window, hpc]
  | completed key rest =>
      rw [h.solo.settled_iff (by rw [hpc]; rfl)]
      simp [SyncState.Window, hpc, hstore]
  | dispatched key rest ucerId =>
      have hunder : s.orc.pc.underWay = some key := by rw [hpc]; rfl
      refine iff_of_false (h.solo.not_settled hunder) ?_
      simp [SyncState.Window, hpc, hstore]
  | failed =>
      rw [hpc] at hsolo
      exact absurd hsolo (by decide)
  | _ =>
      rw [hpc] at hsaving
      exact absurd hsaving (by simp [Pc.saving])

/-- The save takes effect. -/
theorem land (h : Held graph s) {task : Task} {store : Register Task UCERGraph}
    (hland : s.store.land task = some store) : Held graph { s with store := store } := by
  obtain ⟨w, hw, howner, rfl⟩ := Register.land_cases hland
  obtain ⟨hmain, hvalue⟩ := h.document w hw
  obtain rfl : task = .main := howner.symm.trans hmain
  have hempty : s.store.inFlight.filter (fun w => w.owner ≠ .main) = [] := by
    refine List.filter_eq_nil_iff.mpr fun w' hw' => ?_
    simpa using (h.document w' hw').1
  have hsaving : s.orc.pc.saving = true := by
    by_contra hnot
    rw [h.flight (Bool.eq_false_iff.mpr hnot)] at hw
    exact List.not_mem_nil hw
  refine ⟨h.solo, fun _ => hempty, fun w' hw' => h.document w' (List.mem_of_mem_filter hw'),
    fun g hg => ?_⟩
  obtain rfl : w.value = g := Option.some.inj hg
  rw [hvalue]
  exact ⟨h.solo.shape, h.settled_graph_iff hsaving hempty⟩

/-- A step after which the call is not saving. -/
theorem moved (h : Held graph s) (hsaver : s.saver orc a = none) (hsolo : Solo graph orc)
    (hsaving : orc.pc.saving = false) (hquiet : s.store.inFlight = []) (hwindow : ¬ s.Window) :
    Held graph (s.advance a orc) := by
  rw [SyncState.advance_of_none hsaver]
  refine ⟨hsolo, fun _ => hquiet, fun w hw => ?_, fun g hg => ?_⟩
  · rw [show s.store.inFlight = [] from hquiet] at hw
    exact absurd hw List.not_mem_nil
  · obtain ⟨hshape, hiff⟩ := h.stored g hg
    refine ⟨hshape, hiff.trans (and_congr_right fun _ => iff_of_true hwindow ?_)⟩
    exact SyncState.not_window_of_not_saving hsaving

/-- A step that starts a save. -/
theorem saves (h : Held graph s) (hsaver : s.saver orc a = some .main) (hsolo : Solo graph orc)
    (hsaving : orc.pc.saving = true) (hquiet : s.store.inFlight = [])
    (hwindow : s.Window ↔ (s.advance a orc).Window) : Held graph (s.advance a orc) := by
  rw [SyncState.advance_of_some hsaver] at hwindow ⊢
  refine ⟨hsolo, fun hnot => absurd (hsaving.symm.trans hnot) (by decide), fun w hw => ?_,
    fun g hg => ?_⟩
  · change w ∈ s.store.inFlight ++ [_] at hw
    rw [hquiet, List.nil_append] at hw
    obtain rfl := List.mem_singleton.mp hw
    exact ⟨rfl, rfl⟩
  · rw [← hwindow]
    exact h.stored g hg

/-- A step of the call. -/
theorem mainStep (h : Held graph s) (hnamed : graph.Named) {ucerId : String}
    (hbusy : s.store.busy .main = false)
    (hstep : s.orc.mainStep false true (some ucerId) = some orc) :
    Held graph (s.advance (.main true (some ucerId)) orc) := by
  have hquiet := h.quiet hbusy
  have hsolo : Solo graph orc := h.solo.mainStep hnamed (fun _ _ => by simp) hstep
  cases h.solo.cases hstep with
  | dispatched key rest ucerId hpc heq =>
      rw [heq] at hsolo ⊢
      refine h.saves rfl hsolo rfl hquiet ?_
      rw [SyncState.advance_of_some rfl]
      simp [SyncState.Window, hpc, Register.start]
  | completed key rest ucerId hpc heq =>
      rw [heq] at hsolo ⊢
      refine h.saves rfl hsolo rfl hquiet ?_
      rw [SyncState.advance_of_some rfl]
      simp [SyncState.Window, hpc, hquiet, Register.start]
  | goOn hpc heq =>
      have hwindow : ¬ s.Window := by
        unfold SyncState.Window
        split
        · rename_i hdispatched
          exact absurd hpc (by simp [hdispatched, Pc.underWay])
        · exact fun hflight => hflight hquiet
        · exact id
      have hsaving : orc.pc.saving = false := by
        rw [heq]
        obtain ⟨_, _, _, _, _, heq'⟩ | ⟨_, heq'⟩ | ⟨_, heq'⟩ :=
          h.solo.goOn_cases hpc (fun _ => Option.some_ne_none ucerId)
        · rw [heq']
          rfl
        · rw [heq']
          rfl
        · rw [heq']
          rfl
      exact h.moved (if_neg (by rw [hsaving]; decide)) hsolo hsaving hquiet hwindow
  | idle pc hbefore hpc heq =>
      have hsaving : orc.pc.saving = false := by
        rw [heq]
        exact Pc.saving_of_idle hpc
      exact h.moved (if_neg (by rw [hsaving]; decide)) hsolo hsaving hquiet
        (SyncState.not_window_of_not_saving (Pc.saving_of_idle hbefore))

/-- Every step preserves the invariant. -/
theorem step (h : Held graph s) (hnamed : graph.Named) {action : SyncAction}
    (hcalm : action.calm = true) (hstep : (checkpointed false).step s action = some s') :
    Held graph s' := by
  cases action with
  | land task =>
      obtain ⟨store, hland, rfl⟩ := SyncState.land_step hstep
      exact h.land hland
  | orc a =>
      obtain ⟨hblocked, orc, horc, rfl⟩ := SyncState.orc_step hstep
      cases a with
      | main ok compiled =>
          obtain ⟨rfl, hcompiled⟩ := Bool.and_eq_true_iff.mp hcalm
          obtain ⟨ucerId, rfl⟩ := Option.isSome_iff_exists.mp hcompiled
          exact h.mainStep hnamed hblocked horc
      | deliver event =>
          -- nobody has subscribed
          have hnone : s.orc.deliverStep event = none := by
            rw [OrcState.deliverStep, h.solo.listening]
            rfl
          exact absurd (hnone.symm.trans horc) (by simp)
      | handler i ok =>
          have hnone : s.orc.handlerStep i ok = none := by
            simp [OrcState.handlerStep, h.solo.handlers]
          exact absurd (hnone.symm.trans horc) (by simp)
      | timeout =>
          obtain ⟨hidle, heq⟩ := h.solo.timeout_cases horc
          have hsaving := Pc.saving_of_idle hidle
          refine h.moved rfl (h.solo.timeoutStep horc) ?_ (h.flight hsaving)
            (SyncState.not_window_of_not_saving hsaving)
          rw [heq]
          rfl

/-- The invariant holds after every run in which nothing fails. -/
theorem run {stored : Option UCERGraph} {actions : List SyncAction} (hnamed : graph.Named)
    (hstored : stored = none ∨ stored = some graph)
    (hcalm : ∀ action ∈ actions, action.calm = true) :
    Held graph ((checkpointed false).run (.begin stored graph) actions) :=
  System.run_invariant_of (fun _ _ _ h hcalm hstep => h.step hnamed hcalm hstep)
    (init hstored) hcalm

/-- What is stored is completed by a fresh orchestrator, except for what was never settled
and for a node under way. -/
theorem recovers_iff (h : Held graph s) (hnamed : graph.Named)
    (hacyclic : Depend.Acyclic graph.Depends) {g : UCERGraph} (hg : recoverGraph s = some g) :
    Recovers g ↔ graph.Settled ∧ ¬ s.Window := by
  obtain ⟨hshape, hiff⟩ := h.stored g hg
  rw [Ucser.recovers_iff (hshape.named hnamed) (hshape.acyclic hacyclic), hiff]

end Held

/-! ## Crashes -/

/-- **When a crash is recovered from.**  The process stops after any run of a call on a
graph with acyclic dependencies, without a bus, in which no compilation, dispatch or save
fails.  There is a stored graph, and a fresh orchestrator completes it without dispatching
what is stored as completed, if and only if a first save has taken effect, every node was
pending or completed when the call began, and the crash does not fall between the save
after a dispatch and the one after the completion of the node. -/
theorem crash_recovers_iff {stored : Option UCERGraph} {graph : UCERGraph}
    {actions : List SyncAction} (hnamed : graph.Named)
    (hacyclic : Depend.Acyclic graph.Depends) (hstored : stored = none ∨ stored = some graph)
    (hcalm : ∀ action ∈ actions, action.calm = true) :
    let s := (checkpointed false).run (.begin stored graph) actions
    (∃ g, recoverGraph s = some g ∧ Recovers g) ↔
      recoverGraph s ≠ none ∧ graph.Settled ∧ ¬ s.Window := by
  intro s
  have h : Held graph s := Held.run hnamed hstored hcalm
  constructor
  · rintro ⟨g, hg, hrecovers⟩
    exact ⟨by rw [hg]; simp, (h.recovers_iff hnamed hacyclic hg).mp hrecovers⟩
  · rintro ⟨hsome, hcondition⟩
    obtain ⟨g, hg⟩ := Option.ne_none_iff_exists'.mp hsome
    exact ⟨g, hg, (h.recovers_iff hnamed hacyclic hg).mpr hcondition⟩

theorem fresh_oneNode : oneNode.Fresh := UCERGraph.fresh_empty.addNode rfl

theorem acyclic_oneNode : Depend.Acyclic oneNode.Depends := by
  intro key hcycle
  obtain ⟨dep, ⟨deps, hdeps, hdep, _⟩, _⟩ := Relation.TransGen.head'_iff.mp hcycle
  have hkey : key ∈ oneNode.nodes.keys := mem_keys_of_onCycle hcycle
  obtain rfl : key = "a" := List.mem_singleton.mp hkey
  obtain rfl : [] = deps := Option.some.inj hdeps
  exact List.not_mem_nil hdep

/-- The crash comes while the node is being dispatched. -/
def duringDispatch : List SyncAction := [.land .main, .orc (.main true (some "ua"))]

/-- The crash comes once the save after the dispatch has taken effect. -/
def afterDispatch : List SyncAction := duringDispatch ++ [.orc (.main true (some "ua")), .land .main]

theorem crash_during_dispatch_recovers :
    ∃ g, recoverGraph ((checkpointed false).run (.begin none oneNode) duringDispatch) = some g ∧
      Recovers g := by
  have h := crash_recovers_iff fresh_oneNode.named acyclic_oneNode (Or.inl rfl)
    (show ∀ action ∈ duringDispatch, action.calm = true by decide)
  exact h.mpr ⟨by decide, fresh_oneNode.settled, id⟩

/-- **A node that is stored as running is never resumed.** -/
theorem crash_after_dispatch_stuck :
    (∀ action ∈ afterDispatch, action.calm = true) ∧
      ¬ ∃ g, recoverGraph ((checkpointed false).run (.begin none oneNode) afterDispatch) = some g ∧
        Recovers g := by
  have hcalm : ∀ action ∈ afterDispatch, action.calm = true := by decide
  refine ⟨hcalm, ?_⟩
  rintro ⟨g, hg, hrecovers⟩
  have h := Held.run fresh_oneNode.named (Or.inl rfl) hcalm
  obtain ⟨_, hwindow⟩ := (h.recovers_iff fresh_oneNode.named acyclic_oneNode hg).mp hrecovers
  exact hwindow rfl

end Ucser
