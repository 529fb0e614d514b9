import Mathlib.Order.Nat
import Mathlib.Tactic.ByContra

/-!
# Trying again

A call is repeated while it raises an exception of a certain kind, but not beyond a limit.

* `retry` — how many calls are made, and what comes of them.
* `Settles` — a sequence of calls comes to an end at some call.
* `retry_settles` — **where the calls end**; `retry_eq_ok_iff` — when something is returned.
-/

namespace Ucser
namespace Retry

variable {ε α : Type} (retryable : ε → Bool) (exhausted : ε → ε) (attempt : Nat → Except ε α)

/-- The calls from the one numbered `n`, with so many more allowed behind it: the number of
all calls made, and the result.  What is raised by the last one allowed is wrapped. -/
def retry : Nat → Nat → Nat × Except ε α
  | further, n =>
      match attempt n with
      | .ok a => (n + 1, .ok a)
      | .error e =>
          if retryable e then
            match further with
            | 0 => (n + 1, .error (exhausted e))
            | further + 1 => retry further (n + 1)
          else (n + 1, .error e)

/-- The calls before the one numbered `k`, from the one numbered `n`, ask for another one. -/
def AskedAgain (n k : Nat) : Prop :=
  ∀ j, n ≤ j → j < k → ∃ e, attempt j = .error e ∧ retryable e = true

/-- How the calls end, with `further` calls allowed behind the one numbered `n`. -/
inductive Settles (n further : Nat) (outcome : Nat × Except ε α) : Prop where
  | returned (k : Nat) (a : α) (hlow : n ≤ k) (hhigh : k ≤ n + further)
      (hasked : AskedAgain retryable attempt n k) (hcall : attempt k = .ok a)
      (heq : outcome = (k + 1, .ok a))
  | raised (k : Nat) (e : ε) (hlow : n ≤ k) (hhigh : k ≤ n + further)
      (hasked : AskedAgain retryable attempt n k) (hcall : attempt k = .error e)
      (he : retryable e = false) (heq : outcome = (k + 1, .error e))
  | gaveUp (e : ε) (hasked : AskedAgain retryable attempt n (n + further + 1))
      (hcall : attempt (n + further) = .error e)
      (heq : outcome = (n + further + 1, .error (exhausted e)))

variable {retryable exhausted attempt} {n k further : Nat}

theorem askedAgain_self : AskedAgain retryable attempt n n :=
  fun _ hlow hhigh => absurd hhigh (not_lt.mpr hlow)

theorem AskedAgain.cons {e : ε} (h : AskedAgain retryable attempt (n + 1) k)
    (hcall : attempt n = .error e) (he : retryable e = true) :
    AskedAgain retryable attempt n k := by
  intro j hlow hhigh
  rcases Nat.eq_or_lt_of_le hlow with rfl | hlt
  · exact ⟨e, hcall, he⟩
  · exact h j hlt hhigh

/-- **Where the calls end.**  By induction on the calls allowed. -/
theorem retry_settles (further n : Nat) :
    Settles retryable exhausted attempt n further
      (retry retryable exhausted attempt further n) := by
  induction further generalizing n with
  | zero =>
      rw [retry]
      cases hcall : attempt n with
      | ok a => exact .returned n a le_rfl le_rfl askedAgain_self hcall rfl
      | error e =>
          by_cases he : retryable e = true
          · refine .gaveUp e (askedAgain_self.cons hcall he) hcall ?_
            simp [he]
          · exact .raised n e le_rfl le_rfl askedAgain_self hcall (by simpa using he) (by simp [he])
  | succ further ih =>
      rw [retry]
      cases hcall : attempt n with
      | ok a => exact .returned n a le_rfl (by omega) askedAgain_self hcall rfl
      | error e =>
          by_cases he : retryable e = true
          · simp only [he, if_true]
            cases ih (n + 1) with
            | returned k a hlow hhigh hasked hreturn heq =>
                exact .returned k a (by omega) (by omega) (hasked.cons hcall he) hreturn heq
            | raised k e' hlow hhigh hasked hraise he' heq =>
                exact .raised k e' (by omega) (by omega) (hasked.cons hcall he) hraise he' heq
            | gaveUp e' hasked hlast heq =>
                have hshift : n + 1 + further = n + (further + 1) := by omega
                rw [hshift] at hasked hlast heq
                exact .gaveUp e' (hasked.cons hcall he) hlast heq
          · exact .raised n e le_rfl (by omega) askedAgain_self hcall (by simpa using he)
              (by simp [he])

/-- Calls that have all asked for another one do not end before the first that has not. -/
theorem AskedAgain.le {k' : Nat} (h : AskedAgain retryable attempt n k) (hlow : n ≤ k')
    (hcall : ∀ e, attempt k' = .error e → retryable e = false) : k ≤ k' := by
  by_contra hlt
  obtain ⟨e, he, hretry⟩ := h k' hlow (by omega)
  exact absurd hretry (by simp [hcall e he])

/-- **When something is returned**: by one of the calls allowed, if all calls before it ask
for another one. -/
theorem retry_eq_ok_iff {a : α} {calls : Nat} :
    retry retryable exhausted attempt further n = (calls, .ok a) ↔
      ∃ k, n ≤ k ∧ k ≤ n + further ∧ calls = k + 1 ∧ attempt k = .ok a ∧
        AskedAgain retryable attempt n k := by
  have hsettles : Settles retryable exhausted attempt n further
    (retry retryable exhausted attempt further n) := retry_settles further n
  constructor
  · intro h
    cases hsettles with
    | returned k b hlow hhigh hasked hcall heq =>
        obtain ⟨rfl, hb⟩ := Prod.mk.inj (h.symm.trans heq)
        obtain rfl := Except.ok.inj hb
        exact ⟨k, hlow, hhigh, rfl, hcall, hasked⟩
    | raised k e _ _ _ _ _ heq => exact absurd (congrArg Prod.snd (h.symm.trans heq)) (by simp)
    | gaveUp e _ _ heq => exact absurd (congrArg Prod.snd (h.symm.trans heq)) (by simp)
  · rintro ⟨k, hlow, hhigh, rfl, hcall, hasked⟩
    have hnot : ∀ e, attempt k = .error e → retryable e = false :=
      fun e he => absurd (hcall.symm.trans he) (by simp)
    cases hsettles with
    | returned k' b hlow' _ hasked' hcall' heq =>
        have hle := hasked.le hlow' fun e he => absurd (hcall'.symm.trans he) (by simp)
        obtain rfl : k = k' := le_antisymm hle (hasked'.le hlow hnot)
        obtain rfl := Except.ok.inj (hcall.symm.trans hcall')
        exact heq
    | raised k' e hlow' _ hasked' hcall' he heq =>
        have hle : k ≤ k' := hasked.le hlow' fun e' he' => by
          obtain rfl := Except.error.inj (hcall'.symm.trans he')
          exact he
        obtain rfl : k = k' := le_antisymm hle (hasked'.le hlow hnot)
        exact absurd (hcall.symm.trans hcall') (by simp)
    | gaveUp e hasked' _ _ =>
        have hle := hasked'.le hlow hnot
        omega

end Retry
end Ucser
