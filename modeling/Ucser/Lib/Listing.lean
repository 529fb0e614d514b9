import Mathlib.Order.Lattice
import Mathlib.Tactic.Common

/-!
# Listings: the newest first, up to a limit

* `Descending` — strictly falling keys: `Descending.unique` says that **there is one order**
  of the entries with them.
* `MostRecent` — what a listing with a limit should hold; `mostRecent_take` says that a
  descending list cut off **is one**.
* `exists_perm_of_perm_map`, `mapM_map` — entries written and read back, in any order.
-/

namespace Ucser

variable {α β : Type}

section Order

variable [LinearOrder β] (key : α → β)

/-- The keys fall strictly. -/
def Descending (l : List α) : Prop := l.Pairwise fun a b => key b < key a

/-- The entries with the greatest keys, as many as the limit allows, the greatest first. -/
structure MostRecent (limit : Nat) (all result : List α) : Prop where
  descending : Descending key result
  length : result.length = min limit all.length
  mem : ∀ a ∈ result, a ∈ all
  newest : ∀ a ∈ all, a ∉ result → ∀ b ∈ result, key a < key b

variable {key}

/-- There is one order with falling keys. -/
theorem Descending.unique {l l' : List α} (h : Descending key l) (h' : Descending key l')
    (hperm : l.Perm l') : l = l' :=
  hperm.eq_of_pairwise (fun _ _ _ _ hab hba => absurd hab (lt_asymm hba)) h h'

/-- Keys that never rise and are distinct fall. -/
theorem descending_of_pairwise {l : List α} (h : l.Pairwise fun a b => ¬ key a < key b)
    (hne : l.Pairwise fun a b => key a ≠ key b) : Descending key l :=
  h.imp₂ (fun _ _ hle hab => lt_of_le_of_ne (not_lt.mp hle) (Ne.symm hab)) hne

/-- A descending list cut off holds the greatest keys. -/
theorem mostRecent_take {all l : List α} (h : Descending key l) (hperm : l.Perm all)
    (limit : Nat) : MostRecent key limit all (l.take limit) where
  descending := h.sublist (List.take_sublist limit l)
  length := by rw [List.length_take, hperm.length_eq]
  mem a ha := hperm.mem_iff.mp (List.mem_of_mem_take ha)
  newest a ha hnot b hb := by
    have hsplit : a ∈ l.take limit ++ l.drop limit := by
      rw [List.take_append_drop]
      exact hperm.mem_iff.mpr ha
    have hdrop : a ∈ l.drop limit := (List.mem_append.mp hsplit).resolve_left hnot
    have hpairwise : Descending key (l.take limit ++ l.drop limit) := by
      rwa [List.take_append_drop]
    exact (List.pairwise_append.mp hpairwise).2.2 b hb a hdrop

end Order

/-- Sorted by a key that is a list, the greatest first, the keys never rise. -/
theorem pairwise_mergeSort_list [DecidableEq β] [LT β] [LE β] [Std.IsLinearOrder β]
    [Std.LawfulOrderLT β] [DecidableLT β] (f : α → List β) (l : List α) :
    (l.mergeSort fun a b => !decide (f a < f b)).Pairwise fun a b => ¬ f a < f b := by
  have hsorted : (l.mergeSort fun a b => !decide (f a < f b)).Pairwise
      fun a b => (!decide (f a < f b)) = true := by
    refine List.pairwise_mergeSort (fun a b c hab hbc => ?_) (fun a b => ?_) l
    · rw [Bool.not_eq_true', decide_eq_false_iff_not, List.not_lt] at hab hbc ⊢
      exact List.le_trans hbc hab
    · rw [Bool.or_eq_true, Bool.not_eq_true', decide_eq_false_iff_not, List.not_lt,
        Bool.not_eq_true', decide_eq_false_iff_not, List.not_lt]
      exact List.le_total (f b) (f a)
  exact hsorted.imp fun h => by simpa using h

/-- What was written can be read back, in whatever order it comes. -/
theorem exists_perm_of_perm_map (write : α → β) (read : β → Option α) {l : List α}
    (hread : ∀ a ∈ l, read (write a) = some a) {s : List β} (hperm : s.Perm (l.map write)) :
    ∃ l' : List α, l'.Perm l ∧ s = l'.map write := by
  have hback : (l.map write).filterMap read = l := by
    clear hperm
    induction l with
    | nil => rfl
    | cons a l ih =>
        obtain ⟨ha, hl⟩ := List.forall_mem_cons.mp hread
        rw [List.map_cons, List.filterMap_cons_some ha, ih hl]
  refine ⟨s.filterMap read, ?_, ?_⟩
  · have hfilter := hperm.filterMap read
    rwa [hback] at hfilter
  · have hmem : ∀ b ∈ s, ∃ a, read b = some a ∧ write a = b := by
      intro b hb
      obtain ⟨a, ha, rfl⟩ := List.mem_map.mp (hperm.mem_iff.mp hb)
      exact ⟨a, hread a ha, rfl⟩
    clear hperm
    induction s with
    | nil => rfl
    | cons b s ih =>
        obtain ⟨a, ha, hwrite⟩ := hmem b List.mem_cons_self
        rw [List.filterMap_cons_some ha, List.map_cons, hwrite,
          ← ih fun c hc => hmem c (List.mem_cons_of_mem _ hc)]

/-- Reading what was written, one after the other. -/
theorem mapM_map {write : α → β} {read : β → Option α} {l : List α}
    (hread : ∀ a ∈ l, read (write a) = some a) : (l.map write).mapM read = some l := by
  induction l with
  | nil => rfl
  | cons a l ih =>
      obtain ⟨ha, hl⟩ := List.forall_mem_cons.mp hread
      rw [List.map_cons, List.mapM_cons, ha, ih hl]
      rfl

end Ucser
