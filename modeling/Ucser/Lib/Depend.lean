import Mathlib.Data.Fintype.Pigeonhole
import Mathlib.Data.Set.Finite.List
import Mathlib.Logic.Relation

/-!
# Dependencies on a finite set

`R a b` says that `a` depends on `b`.

* `OnCycle`, `MeetsCycle`, `Acyclic` — the elements on a cycle, those that depend on
  one in any number of steps, and the relations without either.
* `InOrder` — a list in which every element comes after all it depends on.
* `not_meetsCycle_of_mem` — nothing in such a list depends on a cycle.
* `mem_iff_of_stuck` — **a list that cannot be continued is complete**: if every element
  left out waits for another one left out, the list holds exactly the elements that do
  not depend on a cycle.
-/

namespace Ucser
namespace Depend

variable {α : Type} (R : α → α → Prop)

/-- The element depends on itself, in one step or more. -/
def OnCycle (a : α) : Prop := Relation.TransGen R a a

/-- The element is on a cycle, or depends on one in any number of steps. -/
def MeetsCycle (a : α) : Prop := ∃ b, Relation.ReflTransGen R a b ∧ OnCycle R b

/-- No element is on a cycle. -/
def Acyclic : Prop := ∀ a, ¬ OnCycle R a

/-- Every element of the list comes after everything it depends on. -/
def InOrder (l : List α) : Prop :=
  ∀ before a after, l = before ++ a :: after → ∀ b, R a b → b ∈ before

variable {R}

theorem Acyclic.not_meetsCycle (h : Acyclic R) (a : α) : ¬ MeetsCycle R a := by
  rintro ⟨b, _, hb⟩
  exact h b hb

theorem MeetsCycle.step {a : α} (h : MeetsCycle R a) : ∃ b, R a b ∧ MeetsCycle R b := by
  obtain ⟨c, hreach, hcycle⟩ := h
  rcases Relation.ReflTransGen.cases_head hreach with rfl | ⟨b, hab, hbc⟩
  · obtain ⟨b, hab, hba⟩ := Relation.TransGen.head'_iff.mp hcycle
    exact ⟨b, hab, a, hba, hcycle⟩
  · exact ⟨b, hab, c, hbc, hcycle⟩

/-! ## Lists in order -/

theorem inOrder_nil : InOrder R ([] : List α) := by
  intro before a after h
  exact absurd h (by simp)

/-- An element whose dependencies are all there may come next. -/
theorem InOrder.concat {l : List α} {a : α} (hl : InOrder R l) (ha : ∀ b, R a b → b ∈ l) :
    InOrder R (l ++ [a]) := by
  intro before c after h b hb
  rcases List.eq_nil_or_concat after with rfl | ⟨after', last, rfl⟩
  · obtain ⟨rfl, hc⟩ := List.append_inj' h rfl
    obtain rfl := List.head_eq_of_cons_eq hc
    exact ha b hb
  · have hsplit : l ++ [a] = (before ++ c :: after') ++ [last] := by
      rw [h, List.concat_eq_append, List.append_assoc, List.cons_append]
    obtain ⟨hl', _⟩ := List.append_inj' hsplit rfl
    exact hl before c after' hl' b hb

/-- Nothing in a list in order depends on a cycle. -/
theorem not_meetsCycle_of_mem {l : List α} (hl : InOrder R l) {a : α} (ha : a ∈ l) :
    ¬ MeetsCycle R a := by
  -- by induction on how much stands before the element
  have hbefore : ∀ n before a after, before.length = n → l = before ++ a :: after →
      ¬ MeetsCycle R a := by
    intro n
    induction n using Nat.strong_induction_on with
    | _ n ih =>
        intro before a after hn hsplit hmeets
        obtain ⟨b, hab, hb⟩ := hmeets.step
        obtain ⟨first, second, rfl⟩ := List.append_of_mem (hl before a after hsplit b hab)
        refine ih first.length ?_ first b (second ++ a :: after) rfl ?_ hb
        · rw [← hn, List.length_append, List.length_cons]
          omega
        · rw [hsplit, List.append_assoc, List.cons_append]
  obtain ⟨before, after, hsplit⟩ := List.append_of_mem ha
  exact hbefore _ before a after rfl hsplit

/-! ## Lists that cannot be continued -/

theorem reflTransGen_iterate {f : α → α} (hf : ∀ a, R a (f a)) (n : ℕ) (a : α) :
    Relation.ReflTransGen R a (f^[n] a) := by
  induction n generalizing a with
  | zero => exact Relation.ReflTransGen.refl
  | succ n ih => exact Relation.ReflTransGen.head (hf a) (ih (f a))

/-- On a finite type, following one dependency after another ends on a cycle. -/
theorem meetsCycle_of_forall_exists [Finite α] (h : ∀ a, ∃ b, R a b) (a : α) :
    MeetsCycle R a := by
  choose f hf using h
  obtain ⟨i, j, hne, heq⟩ := Finite.exists_ne_map_eq_of_infinite (fun n : ℕ => f^[n] a)
  wlog hlt : i < j generalizing i j
  · exact this j i hne.symm heq.symm (by omega)
  refine ⟨f^[i] a, reflTransGen_iterate hf i a, ?_⟩
  have hcycle : f^[j] a = f^[j - (i + 1)] (f (f^[i] a)) := by
    rw [← Function.iterate_succ_apply' f i a, ← Function.iterate_add_apply]
    congr 1
    omega
  have hreach := reflTransGen_iterate hf (j - (i + 1)) (f (f^[i] a))
  rw [← hcycle, ← heq] at hreach
  exact Relation.TransGen.head' (hf _) hreach

/-- If every element left out waits for another one left out, each of them depends on
a cycle. -/
theorem meetsCycle_of_stuck {V l : List α}
    (hstuck : ∀ a ∈ V, a ∉ l → ∃ b ∈ V, b ∉ l ∧ R a b) {a : α} (ha : a ∈ V) (hal : a ∉ l) :
    MeetsCycle R a := by
  let S := {x : α // x ∈ V ∧ x ∉ l}
  have hfinite : Finite S := ((List.finite_toSet V).subset (fun x hx => hx.1)).to_subtype
  let R' : S → S → Prop := fun x y => R x.1 y.1
  have hnext : ∀ x : S, ∃ y, R' x y := by
    intro x
    obtain ⟨b, hb, hbl, hxb⟩ := hstuck x.1 x.2.1 x.2.2
    exact ⟨⟨b, hb, hbl⟩, hxb⟩
  obtain ⟨b, hreach, hcycle⟩ := meetsCycle_of_forall_exists hnext ⟨a, ha, hal⟩
  exact ⟨b.1, hreach.lift Subtype.val (fun _ _ h => h), hcycle.lift Subtype.val (fun _ _ h => h)⟩

/-- **A list that cannot be continued is complete.** -/
theorem mem_iff_of_stuck {V l : List α} (hl : InOrder R l)
    (hstuck : ∀ a ∈ V, a ∉ l → ∃ b ∈ V, b ∉ l ∧ R a b) {a : α} (ha : a ∈ V) :
    a ∈ l ↔ ¬ MeetsCycle R a := by
  constructor
  · exact not_meetsCycle_of_mem hl
  · intro hmeets
    by_contra hal
    exact hmeets (meetsCycle_of_stuck hstuck ha hal)

end Depend
end Ucser
