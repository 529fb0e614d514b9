import Mathlib.Data.List.Infix

/-!
# Runs of a transition system

A system steps from a state by an action, or does not: an action that is not enabled
leaves the state alone.  A run is a list of actions, so statements about runs quantify
over lists and need no hypothesis.

* `System`, `exec`, `run` — one step, and the state after a run.
* `past` — the states a run has gone through before the last one.
* `run_invariant` — **what every step preserves holds after every run**.
* `past_invariant` — the same for a property of the state together with its past.
* `run_invariant_of` — the same when the actions, too, meet a condition.
* `run_invariant_along` — the same for what the steps of one run preserve.
* `Along`, `along_iff` — what holds at every step of a run, and **when two such conditions are
  the same**: when they are at each step, in the states that one of them leads to.
* `Since`, `run_iff_since` — an action that opens something none of the actions since has
  closed, and **what holds exactly since such an action**.
* `view_run` — **a part of the state that only some actions act on goes its own way**.
* `exists_run` — a run can be completed when a measure can always be made smaller.
* `follow`, `Leads`, `EndsIn` — the run in which every action is chosen by the state, a
  property some state on it has, and the state it comes to rest in.
* `leads_of_measure` — such a run gets somewhere if a measure grows smaller until then.
-/

namespace Ucser

/-- A transition system: `none` when the action is not enabled. -/
structure System (σ α : Type) where
  step : σ → α → Option σ

namespace System

variable {σ α : Type} (sys : System σ α)

/-- The state after an action, enabled or not. -/
def exec (s : σ) (a : α) : σ := (sys.step s a).getD s

/-- The state after a run. -/
def run (s : σ) (actions : List α) : σ := actions.foldl sys.exec s

/-- The states before the last one of a run, oldest first. -/
def past (s : σ) (actions : List α) : List σ :=
  match actions with
  | [] => []
  | a :: rest => s :: past (sys.exec s a) rest

variable {sys}

theorem exec_of_step {s s' : σ} {a : α} (h : sys.step s a = some s') : sys.exec s a = s' := by
  rw [exec, h, Option.getD_some]

theorem exec_of_none {s : σ} {a : α} (h : sys.step s a = none) : sys.exec s a = s := by
  rw [exec, h, Option.getD_none]

theorem run_cons (s : σ) (a : α) (rest : List α) :
    sys.run s (a :: rest) = sys.run (sys.exec s a) rest := rfl

theorem run_append (s : σ) (as bs : List α) :
    sys.run s (as ++ bs) = sys.run (sys.run s as) bs :=
  List.foldl_append

theorem run_concat (s : σ) (as : List α) (a : α) :
    sys.run s (as ++ [a]) = sys.exec (sys.run s as) a := by
  rw [run_append]
  rfl

theorem past_concat (s : σ) (as : List α) (a : α) :
    sys.past s (as ++ [a]) = sys.past s as ++ [sys.run s as] := by
  induction as generalizing s with
  | nil => rfl
  | cons b rest ih =>
      rw [List.cons_append, past, ih, past, run_cons, List.cons_append]

/-- The states of the past are the states of the shorter runs. -/
theorem mem_past_iff {s t : σ} {actions : List α} :
    t ∈ sys.past s actions ↔
      ∃ before a after, actions = before ++ a :: after ∧ t = sys.run s before := by
  induction actions generalizing s with
  | nil =>
      rw [past]
      refine iff_of_false List.not_mem_nil ?_
      rintro ⟨before, a, after, h, _⟩
      exact absurd h (by simp)
  | cons a rest ih =>
      rw [past, List.mem_cons, ih]
      constructor
      · rintro (rfl | ⟨before, b, after, rfl, rfl⟩)
        · exact ⟨[], a, rest, rfl, rfl⟩
        · exact ⟨a :: before, b, after, rfl, rfl⟩
      · rintro ⟨before, b, after, h, rfl⟩
        cases before with
        | nil => exact Or.inl rfl
        | cons c before =>
            obtain ⟨rfl, rfl⟩ := List.cons.inj h
            exact Or.inr ⟨before, b, after, rfl, rfl⟩

/-! ## Invariants -/

/-- An invariant of the enabled steps is an invariant of `exec`. -/
theorem exec_invariant {I : σ → Prop} {s : σ} {a : α} (hs : I s)
    (hstep : ∀ s', sys.step s a = some s' → I s') : I (sys.exec s a) := by
  cases h : sys.step s a with
  | none =>
      rw [exec_of_none h]
      exact hs
  | some s' =>
      rw [exec_of_step h]
      exact hstep s' h

/-- **What every step preserves, by actions that meet a condition, holds after every run
of such actions.** -/
theorem run_invariant_of {I : σ → Prop} {P : α → Prop}
    (hstep : ∀ s a s', I s → P a → sys.step s a = some s' → I s') {s : σ} (hs : I s)
    {actions : List α} (hP : ∀ a ∈ actions, P a) : I (sys.run s actions) := by
  induction actions generalizing s with
  | nil => exact hs
  | cons a rest ih =>
      obtain ⟨ha, hrest⟩ := List.forall_mem_cons.mp hP
      rw [run_cons]
      exact ih (exec_invariant hs (fun s' h => hstep s a s' hs ha h)) hrest

/-- **What every step preserves holds after every run.** -/
theorem run_invariant {I : σ → Prop} (hstep : ∀ s a s', I s → sys.step s a = some s' → I s')
    {s : σ} (hs : I s) (actions : List α) : I (sys.run s actions) := by
  have hall : ∀ a ∈ actions, (fun _ : α => True) a := fun _ _ => trivial
  exact run_invariant_of (fun s a s' h _ => hstep s a s' h) hs hall

/-- **What every step of a run preserves holds after it.** -/
theorem run_invariant_along {I : σ → Prop} {s : σ} {actions : List α} (hs : I s)
    (hstep : ∀ before a after, actions = before ++ a :: after → I (sys.run s before) →
      I (sys.exec (sys.run s before) a)) : I (sys.run s actions) := by
  induction actions using List.reverseRecOn with
  | nil => exact hs
  | append_singleton as a ih =>
      rw [run_concat]
      refine hstep as a [] rfl (ih fun before b after heq hbefore => ?_)
      refine hstep before b (after ++ [a]) ?_ hbefore
      rw [heq, List.append_assoc, List.cons_append]

/-- The same for a property of a state and the states before it, which may only grow
weaker as the past grows longer. -/
theorem past_invariant {I : List σ → σ → Prop}
    (hstep : ∀ past s a s', I past s → sys.step s a = some s' → I (past ++ [s]) s')
    (hstay : ∀ past s, I past s → I (past ++ [s]) s) {s : σ} (hs : I [] s)
    (actions : List α) : I (sys.past s actions) (sys.run s actions) := by
  induction actions using List.reverseRecOn with
  | nil => exact hs
  | append_singleton as a ih =>
      rw [past_concat, run_concat]
      cases h : sys.step (sys.run s as) a with
      | none =>
          rw [exec_of_none h]
          exact hstay _ _ ih
      | some s' =>
          rw [exec_of_step h]
          exact hstep _ _ a s' ih h

/-! ## What holds at every step -/

variable (sys) in
/-- A condition holds of every action of the run, in the state before it. -/
def Along (P : σ → α → Prop) : σ → List α → Prop
  | _, [] => True
  | s, a :: rest => P s a ∧ Along P (sys.exec s a) rest

/-- **A law holds at every step of a run exactly when a condition does**, if the two are the
same in the states that the condition leads to. -/
theorem along_iff {I : σ → Prop} {law condition : σ → α → Prop}
    (hlaw : ∀ s a, I s → (law s a ↔ condition s a))
    (hstep : ∀ s a, I s → condition s a → I (sys.exec s a)) {s : σ} (hs : I s)
    (actions : List α) : sys.Along law s actions ↔ sys.Along condition s actions := by
  induction actions generalizing s with
  | nil => exact Iff.rfl
  | cons a rest ih =>
      rw [Along, Along, hlaw s a hs]
      exact and_congr_right fun ha => ih (hstep s a hs ha)

/-! ## What holds since an action -/

variable (sys) in
/-- Some action of the run opens what neither it nor any later one closes. -/
def Since (opens : σ → α → Prop) (closes : α → Prop) (s : σ) (actions : List α) : Prop :=
  ∃ before a after, actions = before ++ a :: after ∧ opens (sys.run s before) a ∧
    ∀ b ∈ a :: after, ¬ closes b

variable {opens : σ → α → Prop} {closes : α → Prop}

theorem not_since_nil (s : σ) : ¬ sys.Since opens closes s [] := by
  rintro ⟨before, a, after, h, _⟩
  exact absurd h (by simp)

/-- The last action closes, or it opens, or it leaves what has been open before. -/
theorem since_concat (s : σ) (as : List α) (a : α) :
    sys.Since opens closes s (as ++ [a]) ↔
      ¬ closes a ∧ (opens (sys.run s as) a ∨ sys.Since opens closes s as) := by
  constructor
  · rintro ⟨before, b, after, heq, hopens, hclosed⟩
    obtain rfl | ⟨after', c, rfl⟩ := List.eq_nil_or_concat after
    · obtain ⟨rfl, hab⟩ := List.append_inj' heq rfl
      obtain rfl := List.singleton_inj.mp hab
      exact ⟨hclosed _ List.mem_cons_self, Or.inl hopens⟩
    · rw [List.concat_eq_append] at heq hclosed
      rw [← List.cons_append, ← List.append_assoc] at heq
      obtain ⟨rfl, hac⟩ := List.append_inj' heq rfl
      obtain rfl := List.singleton_inj.mp hac
      refine ⟨hclosed _ (by simp), Or.inr ⟨before, b, after', rfl, hopens, fun d hd => ?_⟩⟩
      refine hclosed d ?_
      rw [← List.cons_append]
      exact List.mem_append_left _ hd
  · rintro ⟨hclosed, hopens | ⟨before, b, after, rfl, hopens, hafter⟩⟩
    · refine ⟨as, a, [], rfl, hopens, fun b hb => ?_⟩
      rwa [List.mem_singleton.mp hb]
    · refine ⟨before, b, after ++ [a], by simp, hopens, fun c hc => ?_⟩
      rw [← List.cons_append] at hc
      rcases List.mem_append.mp hc with hc | hc
      · exact hafter c hc
      · rwa [List.mem_singleton.mp hc]

/-- **What one action opens and another closes holds exactly since an action that opened
it.**  By induction on the run, from its end. -/
theorem run_iff_since {I P : σ → Prop} (hI : ∀ s a s', I s → sys.step s a = some s' → I s')
    (hstep : ∀ s a, I s → (P (sys.exec s a) ↔ ¬ closes a ∧ (opens s a ∨ P s))) {s : σ}
    (hs : I s) (hnot : ¬ P s) (actions : List α) :
    P (sys.run s actions) ↔ sys.Since opens closes s actions := by
  induction actions using List.reverseRecOn with
  | nil => exact iff_of_false hnot (not_since_nil s)
  | append_singleton as a ih =>
      rw [run_concat, hstep _ a (run_invariant hI hs as), ih, since_concat]

/-- **A part of the state that some actions act on, and the others leave alone, goes its own
way**: it is what a system of its own makes of these actions. -/
theorem view_run {σ' : Type} {part : System σ' α} {view : σ → σ'} {own : α → Bool}
    (hstep : ∀ s a, view (sys.exec s a) = if own a then part.exec (view s) a else view s) (s : σ)
    (actions : List α) :
    view (sys.run s actions) = part.run (view s) (actions.filter own) := by
  induction actions generalizing s with
  | nil => rfl
  | cons a rest ih =>
      rw [run_cons, ih, hstep]
      cases ha : own a with
      | true => simp [ha, run_cons]
      | false => simp [ha]

/-- **A run can be completed** when some action makes a measure smaller in every state
that is not yet as it should be. -/
theorem exists_run {I P : σ → Prop} (measure : σ → Nat)
    (hstep : ∀ s a s', I s → sys.step s a = some s' → I s')
    (hprogress : ∀ s, I s → ¬ P s → ∃ a s', sys.step s a = some s' ∧ measure s' < measure s)
    {s : σ} (hs : I s) : ∃ actions, P (sys.run s actions) := by
  induction hn : measure s using Nat.strong_induction_on generalizing s with
  | _ n ih =>
      by_cases hP : P s
      · exact ⟨[], hP⟩
      · obtain ⟨a, s', hs', hlt⟩ := hprogress s hs hP
        obtain ⟨actions, hfinal⟩ := ih _ (hn ▸ hlt) (hstep s a s' hs hs') rfl
        refine ⟨a :: actions, ?_⟩
        rwa [run_cons, exec_of_step hs']

/-! ## Runs whose actions the states choose -/

variable (sys)

/-- The state after `n` steps, each by the action its state chooses. -/
def follow (choose : σ → α) (s : σ) : Nat → σ
  | 0 => s
  | n + 1 => follow choose (sys.exec s (choose s)) n

/-- Some state from here on has the property. -/
def Leads (choose : σ → α) (s : σ) (P : σ → Prop) : Prop := ∃ n, P (sys.follow choose s n)

/-- From some step on, the run stays in one state. -/
def EndsIn (choose : σ → α) (s final : σ) : Prop :=
  ∃ n, ∀ m, n ≤ m → sys.follow choose s m = final

variable {sys} {choose : σ → α} {s : σ} {P : σ → Prop}

theorem Leads.here (h : P s) : sys.Leads choose s P := ⟨0, h⟩

theorem Leads.step (h : sys.Leads choose (sys.exec s (choose s)) P) : sys.Leads choose s P := by
  obtain ⟨n, hn⟩ := h
  exact ⟨n + 1, hn⟩

/-- A property of some state on the way to a state that leads on. -/
theorem Leads.of_follow (n : Nat) (h : sys.Leads choose (sys.follow choose s n) P) :
    sys.Leads choose s P := by
  induction n generalizing s with
  | zero => exact h
  | succ n ih => exact (ih h).step

/-- **A run gets somewhere** if a measure grows smaller until it is there. -/
theorem leads_of_measure {I : σ → Prop} (measure : σ → Nat)
    (hstep : ∀ s, I s → ¬ P s →
      I (sys.exec s (choose s)) ∧ measure (sys.exec s (choose s)) < measure s)
    (hs : I s) : sys.Leads choose s P := by
  induction hn : measure s using Nat.strong_induction_on generalizing s with
  | _ n ih =>
      by_cases hP : P s
      · exact Leads.here hP
      · obtain ⟨hnext, hlt⟩ := hstep s hs hP
        exact (ih _ (hn ▸ hlt) hnext rfl).step

/-- What every step preserves holds all along the run. -/
theorem follow_invariant {I : σ → Prop} (hstep : ∀ s, I s → I (sys.exec s (choose s)))
    (hs : I s) (n : Nat) : I (sys.follow choose s n) := by
  induction n generalizing s with
  | zero => exact hs
  | succ n ih => exact ih (hstep s hs)

theorem EndsIn.step {final : σ} (h : sys.EndsIn choose (sys.exec s (choose s)) final) :
    sys.EndsIn choose s final := by
  obtain ⟨n, hn⟩ := h
  refine ⟨n + 1, fun m hm => ?_⟩
  cases m with
  | zero => exact absurd hm (by omega)
  | succ m => exact hn m (by omega)

theorem EndsIn.of_follow {final : σ} (n : Nat)
    (h : sys.EndsIn choose (sys.follow choose s n) final) : sys.EndsIn choose s final := by
  induction n generalizing s with
  | zero => exact h
  | succ n ih => exact (ih h).step

/-- A run stays in a state whose action is not enabled. -/
theorem endsIn_of_none (h : sys.step s (choose s) = none) : sys.EndsIn choose s s := by
  refine ⟨0, fun m _ => ?_⟩
  induction m with
  | zero => rfl
  | succ m ih =>
      rw [follow, exec_of_none h]
      exact ih (Nat.zero_le m)

end System
end Ucser
