import Mathlib.Data.List.TakeWhile
import Ucser.Core.Pipeline

/-!
# What a call may run

Two properties of `execute_ucer`: every command that reaches an adapter has been judged
by the auditor registered for that adapter, and no argument of the call widens the
capabilities of the context it is given.

* `Invocation.Vetted` — the registered auditor finds a command within some capabilities.
* `vetted_iff_of_admits` — the second gate and the table of auditors agree on every
  adapter but `microvm`.
* `all_vetted_iff` — **the calls whose commands are all vetted**.
* `RunsWithin`, `Refused` — no step beyond the context runs; too wide an `allowed_caps`
  is refused.
* `contained_iff` — **the calls that are contained**.
-/

namespace Ucser

/-! ## The registered auditor -/

/-- The auditor registered for the adapter finds the command safe and within `caps`. -/
def Invocation.Vetted (auditors : Auditors) (caps : Finset Capability) (inv : Invocation) :
    Prop :=
  ∃ audit, Unified.registered auditors inv.adapter = some audit ∧
    (audit inv.command).capabilities ⊆ caps ∧ (audit inv.command).isSafe = true

/-- The Bash auditor finds a command safe and within `caps`. -/
def BashAllows (auditors : Auditors) (caps : Finset Capability) (command : String) : Prop :=
  (auditors.bash command).capabilities ⊆ caps ∧ (auditors.bash command).isSafe = true

/-- **Where the two tables agree.**  A command the second gate admits is vetted, unless
it goes to `microvm`: there the gate asks the PowerShell auditor and the table holds the
Bash auditor. -/
theorem vetted_iff_of_admits {auditors : Auditors} {context : ExecutionContext}
    {shell : Adapter} {command : String}
    (h : Unified.Admits auditors context shell command) :
    Invocation.Vetted auditors context.capabilities ⟨shell, command, context⟩ ↔
      (shell = .microvm → BashAllows auditors context.capabilities command) := by
  obtain ⟨hshell, _, hgate⟩ := h
  cases shell with
  | python => exact absurd hshell (by decide)
  | microvm =>
      constructor
      · rintro ⟨audit, haudit, hallows⟩ _
        obtain rfl := Option.some.inj haudit
        exact hallows
      · intro hallows
        exact ⟨auditors.bash, rfl, hallows rfl⟩
  | bash => exact iff_of_true ⟨auditors.bash, rfl, hgate⟩ (fun h => by cases h)
  | linux => exact iff_of_true ⟨auditors.bash, rfl, hgate⟩ (fun h => by cases h)
  | powershell => exact iff_of_true ⟨auditors.powershell, rfl, hgate⟩ (fun h => by cases h)
  | ps => exact iff_of_true ⟨auditors.powershell, rfl, hgate⟩ (fun h => by cases h)

/-! ## The steps that are reached -/

section Reached

variable {auditors : Auditors} {isolation : Isolation} {context : ExecutionContext}
  {steps : List ExecutionStep}

/-- A step is reached: it and all steps before it are admitted. -/
def Reached (auditors : Auditors) (isolation : Isolation) (context : ExecutionContext)
    (steps : List ExecutionStep) (step : ExecutionStep) : Prop :=
  ∃ before after, steps = before ++ step :: after ∧
    ∀ s ∈ before ++ [step],
      Unified.Admits auditors context (Engine.adapterName isolation s) s.command

theorem reached_cons {first step : ExecutionStep} :
    Reached auditors isolation context (first :: steps) step ↔
      Unified.Admits auditors context (Engine.adapterName isolation first) first.command ∧
        (step = first ∨ Reached auditors isolation context steps step) := by
  constructor
  · rintro ⟨before, after, heq, hadmits⟩
    cases before with
    | nil =>
        obtain ⟨rfl, _⟩ := List.cons.inj heq
        exact ⟨hadmits _ (List.mem_singleton_self _), Or.inl rfl⟩
    | cons s before =>
        obtain ⟨rfl, hrest⟩ := List.cons.inj heq
        obtain ⟨hfirst, hothers⟩ := List.forall_mem_cons.mp hadmits
        exact ⟨hfirst, Or.inr ⟨before, after, hrest, hothers⟩⟩
  · rintro ⟨hfirst, rfl | ⟨before, after, rfl, hadmits⟩⟩
    · exact ⟨[], steps, rfl, by simpa using hfirst⟩
    · exact ⟨first :: before, after, rfl, List.forall_mem_cons.mpr ⟨hfirst, hadmits⟩⟩

/-- What can be handed over is what the reached steps come to. -/
theorem mem_admitted {inv : Invocation} :
    inv ∈ Engine.admitted auditors isolation context steps ↔
      ∃ step, Reached auditors isolation context steps step ∧
        inv = ⟨Engine.adapterName isolation step, step.command, context⟩ := by
  induction steps with
  | nil =>
      refine iff_of_false (by simp [Engine.admitted]) ?_
      rintro ⟨step, ⟨before, after, heq, _⟩, _⟩
      simp at heq
  | cons first steps ih =>
      by_cases hadmits : Unified.Admits auditors context (Engine.adapterName isolation first)
          first.command
      · rw [Engine.admitted_cons_of_admits steps hadmits, List.mem_cons, ih]
        constructor
        · rintro (rfl | ⟨step, hstep, rfl⟩)
          · exact ⟨first, reached_cons.mpr ⟨hadmits, Or.inl rfl⟩, rfl⟩
          · exact ⟨step, reached_cons.mpr ⟨hadmits, Or.inr hstep⟩, rfl⟩
        · rintro ⟨step, hstep, rfl⟩
          obtain ⟨_, rfl | hstep⟩ := reached_cons.mp hstep
          · exact Or.inl rfl
          · exact Or.inr ⟨step, hstep, rfl⟩
      · rw [Engine.admitted_cons_of_not_admits steps hadmits]
        refine iff_of_false (List.not_mem_nil) ?_
        rintro ⟨step, hstep, _⟩
        exact hadmits (reached_cons.mp hstep).1

theorem Reached.admits {step : ExecutionStep}
    (h : Reached auditors isolation context steps step) :
    Unified.Admits auditors context (Engine.adapterName isolation step) step.command := by
  obtain ⟨before, after, _, hadmits⟩ := h
  exact hadmits step (by simp)

/-- A member of a prefix stands at the same place in the whole list. -/
theorem getElem?_of_isPrefix {α : Type} {l l' : List α} {k : Nat} {a : α} (h : l <+: l')
    (hk : l[k]? = some a) : l'[k]? = some a := by
  obtain ⟨rest, rfl⟩ := h
  obtain ⟨hlt, _⟩ := List.getElem?_eq_some_iff.mp hk
  rw [List.getElem?_append_left hlt, hk]

/-- The steps handed over stand in the record at the places they are handed over at. -/
theorem getElem?_admitted {k : Nat} {inv : Invocation}
    (h : (Engine.admitted auditors isolation context steps)[k]? = some inv) :
    ∃ step, steps[k]? = some step ∧
      Unified.Admits auditors context (Engine.adapterName isolation step) step.command ∧
      inv = ⟨Engine.adapterName isolation step, step.command, context⟩ := by
  rw [Engine.admitted, List.getElem?_map, Option.map_eq_some_iff] at h
  obtain ⟨step, hk, rfl⟩ := h
  refine ⟨step, getElem?_of_isPrefix (List.takeWhile_prefix _) hk, ?_, rfl⟩
  simpa using List.mem_takeWhile_imp (List.mem_of_getElem? hk)

end Reached

namespace Facade

variable {facade : Facade} {ucer : UCER} {context : ExecutionContext}
  {allowedCaps : Option (Finset Capability)}

/-- An explicit context does not depend on the world. -/
theorem activeContext_some (world : World) :
    activeContext world (some context) allowedCaps =
      { context with capabilities := allowedCaps.getD context.capabilities } := by
  cases allowedCaps <;> rfl

/-- What a call hands over, in any world: a prefix of what the second gate admits, and
nothing when the record is refused. -/
theorem executeUcer_invocations (facade : Facade) (world : World) (ucer : UCER)
    (context : ExecutionContext) (allowedCaps : Option (Finset Capability)) :
    (executeUcer facade world ucer (some context) allowedCaps).1.invocations = [] ∨
      Accepts facade ucer (allowedCaps.getD context.capabilities) ∧
        (executeUcer facade world ucer (some context) allowedCaps).1.invocations <+:
          Engine.admitted facade.auditors (isolationOf facade ucer)
            { context with capabilities := allowedCaps.getD context.capabilities }
            ucer.steps := by
  by_cases h : world.readPubKey = none ∧
      Accepts facade ucer (activeCapabilities (some context) allowedCaps)
  · right
    refine ⟨h.2, ?_⟩
    obtain ⟨handed, hpre, hhanded⟩ := execution_invocations facade world
      (activeContext world (some context) allowedCaps) ucer
    rw [executeUcer_of_accepts h.1 h.2, hhanded, ← activeContext_some world]
    exact hpre
  · left
    obtain ⟨ucer', e, herror⟩ := executeUcer_of_refused h
    rw [herror]

/-- In the calm world an accepted record has all reached steps handed over. -/
theorem executeUcer_calm_invocations
    (h : Accepts facade ucer (allowedCaps.getD context.capabilities)) :
    (executeUcer facade Engine.calm ucer (some context) allowedCaps).1.invocations =
      Engine.admitted facade.auditors (isolationOf facade ucer)
        { context with capabilities := allowedCaps.getD context.capabilities } ucer.steps := by
  rw [executeUcer_of_accepts rfl h, execution_calm, activeContext_some]

/-! ## Every command is vetted -/

/-- **The calls whose commands are all vetted.**  In every world every command handed
over is vetted by the auditor registered for its adapter, if and only if the record is
refused, or the Bash auditor allows every reached step that goes to `microvm`. -/
theorem all_vetted_iff (facade : Facade) (ucer : UCER) (context : ExecutionContext) :
    (∀ world, ∀ inv ∈ (executeUcer facade world ucer (some context) none).1.invocations,
        inv.Vetted facade.auditors context.capabilities) ↔
      (Accepts facade ucer context.capabilities →
        ∀ step, Reached facade.auditors (isolationOf facade ucer) context ucer.steps step →
          Engine.adapterName (isolationOf facade ucer) step = .microvm →
            BashAllows facade.auditors context.capabilities step.command) := by
  constructor
  · intro hall haccepts step hreached
    have hmem : ⟨Engine.adapterName (isolationOf facade ucer) step, step.command, context⟩ ∈
        (executeUcer facade Engine.calm ucer (some context) none).1.invocations := by
      rw [executeUcer_calm_invocations haccepts]
      exact mem_admitted.mpr ⟨step, hreached, rfl⟩
    exact (vetted_iff_of_admits hreached.admits).mp (hall Engine.calm _ hmem)
  · intro hmicrovm world inv hinv
    obtain hnil | ⟨haccepts, hpre⟩ := executeUcer_invocations facade world ucer context none
    · rw [hnil] at hinv
      exact absurd hinv List.not_mem_nil
    · obtain ⟨step, hreached, rfl⟩ := mem_admitted.mp (hpre.subset hinv)
      exact (vetted_iff_of_admits hreached.admits).mpr (hmicrovm haccepts step hreached)

/-- Auditors that agree on everything but `curl`, which only the Bash auditor takes for
network access. -/
def curlAuditors : Auditors where
  bash command := ⟨true, [],
    if command = "curl http://example.com" then {.exec, .network} else {.exec}⟩
  powershell _ := ⟨true, [], {.exec}⟩

/-- A facade over these auditors. -/
def curlFacade : Facade where
  crypto := .transparent
  auditors := curlAuditors
  controlPlanePrivateKey := "private"
  controlPlanePublicKey := "public"

/-- An unsigned record with one step for an adapter, `curl`. -/
def curlRecord (adapter : Adapter) : UCER where
  commandId := "c"
  intent := "fetch"
  steps := [{ stepId := "s", adapter := adapter, command := "curl http://example.com" }]

/-- Sent to `microvm` under a context that may only execute, `curl` is handed over
although the auditor registered for `microvm` finds network access in it. -/
theorem curl_reaches_microvm :
    ¬ ∀ world, ∀ inv ∈ (executeUcer curlFacade world (curlRecord .microvm)
        (some ⟨"x", {.exec}⟩) none).1.invocations,
      inv.Vetted curlFacade.auditors {.exec} := by
  intro hall
  have haccepts : Accepts curlFacade (curlRecord .microvm)
      ((none : Option (Finset Capability)).getD {Capability.exec}) := by
    refine ⟨fun hsig => absurd hsig Bool.false_ne_true, by decide, ?_⟩
    intro step hstep
    rw [List.mem_singleton.mp hstep]
    decide
  have hcalm := hall Engine.calm
  rw [executeUcer_calm_invocations haccepts] at hcalm
  have hadmits : Unified.Admits curlFacade.auditors ⟨"x", {.exec}⟩
      (Engine.adapterName (isolationOf curlFacade (curlRecord .microvm))
        { stepId := "s", adapter := .microvm, command := "curl http://example.com" })
      "curl http://example.com" := by decide
  obtain ⟨audit, haudit, hcaps, _⟩ := hcalm _ (mem_admitted.mpr
    ⟨_, reached_cons.mpr ⟨hadmits, Or.inl rfl⟩, rfl⟩)
  obtain rfl : curlAuditors.bash = audit := Option.some.inj haudit
  exact absurd hcaps (by decide)

/-! ## No capability is gained -/

/-- A call is refused: it raises, and nothing has been run or saved. -/
def Refused (outcome : Run × Except PyError Unit) : Prop :=
  (∃ e, outcome.2 = .error e) ∧ outcome.1.invocations = [] ∧ outcome.1.saved = []

/-- The audits of a step that was run, as it stands in the record and as it went to its
adapter, stay inside `caps`. -/
def RunsWithin (auditors : Auditors) (caps : Finset Capability) (steps : List ExecutionStep)
    (invocations : List Invocation) : Prop :=
  ∀ (k : Nat) (inv : Invocation), invocations[k]? = some inv → ∃ step, steps[k]? = some step ∧
    inv.command = step.command ∧ (PolicyGate.auditStep auditors step).capabilities ⊆ caps ∧
    (PolicyGate.auditorOf auditors inv.adapter inv.command).capabilities ⊆ caps

/-- **The calls that are contained.**  In every world no step beyond the context's
capabilities is run and an `allowed_caps` that exceeds them is refused, if and only if
`allowed_caps` does not exceed them or the record is refused for another reason.  Sets of
capabilities are values: the record's set is not one object with the other two. -/
theorem contained_iff (facade : Facade) (ucer : UCER) (context : ExecutionContext)
    (allowed : Finset Capability) :
    (∀ world,
        RunsWithin facade.auditors context.capabilities ucer.steps
          (executeUcer facade world ucer (some context) (some allowed)).1.invocations ∧
        (¬ allowed ⊆ context.capabilities →
          Refused (executeUcer facade world ucer (some context) (some allowed)))) ↔
      (allowed ⊆ context.capabilities ∨ ¬ Accepts facade ucer allowed) := by
  constructor
  · intro hcontained
    by_contra h
    obtain ⟨hexceeds, haccepts⟩ := not_or.mp h
    obtain ⟨_, _, hsaved⟩ := (hcontained Engine.calm).2 hexceeds
    rw [executeUcer_of_accepts rfl (not_not.mp haccepts)] at hsaved
    exact execution_calm_saved facade _ _ hsaved
  · intro h world
    obtain hnil | ⟨haccepts, hpre⟩ :=
      executeUcer_invocations facade world ucer context (some allowed)
    · refine ⟨by rw [hnil]; exact fun k inv hk => absurd hk (by simp), fun hexceeds => ?_⟩
      have hrefused : ¬ (world.readPubKey = none ∧
          Accepts facade ucer (activeCapabilities (some context) (some allowed))) :=
        fun haccepts => h.resolve_left hexceeds haccepts.2
      obtain ⟨ucer', e, herror⟩ := executeUcer_of_refused hrefused
      rw [herror]
      exact ⟨⟨e, rfl⟩, rfl, rfl⟩
    · have hsub := h.resolve_right (not_not.mpr haccepts)
      refine ⟨?_, fun hexceeds => absurd hsub hexceeds⟩
      intro k inv hk
      obtain ⟨step, hstep, hadmits, rfl⟩ := getElem?_admitted (getElem?_of_isPrefix hpre hk)
      refine ⟨step, hstep, rfl, ?_, hadmits.2.2.1.trans hsub⟩
      exact (haccepts.2.2 step (List.mem_of_getElem? hstep)).1.trans hsub

/-- With `allowed_caps` wider than the context the call is not refused: `curl` runs with
network access under a context that may only execute. -/
theorem allowedCaps_escalates :
    ¬ ∀ world,
      RunsWithin curlFacade.auditors {.exec} (curlRecord .bash).steps
        (executeUcer curlFacade world (curlRecord .bash) (some ⟨"x", {.exec}⟩)
          (some {.exec, .network})).1.invocations ∧
      (¬ ({.exec, .network} : Finset Capability) ⊆ {.exec} →
        Refused (executeUcer curlFacade world (curlRecord .bash) (some ⟨"x", {.exec}⟩)
          (some {.exec, .network}))) := by
  intro hcontained
  have haccepts : Accepts curlFacade (curlRecord .bash)
      (activeCapabilities (some ⟨"x", {.exec}⟩) (some {.exec, .network})) := by
    refine ⟨fun hsig => absurd hsig Bool.false_ne_true, by decide, ?_⟩
    intro step hstep
    rw [List.mem_singleton.mp hstep]
    decide
  obtain ⟨_, _, hsaved⟩ := (hcontained Engine.calm).2 (by decide)
  rw [executeUcer_of_accepts rfl haccepts] at hsaved
  exact execution_calm_saved curlFacade _ _ hsaved

end Facade
end Ucser
