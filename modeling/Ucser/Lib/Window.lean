import Mathlib.Data.List.DropRight
import Mathlib.Order.Lattice

/-!
# The last values of a stream, and their ranks

A buffer that drops its oldest value when it is too long, and the value that stands at a place
of the sorted buffer.

* `push`, `push_rtake` — **the buffer holds the last values of the stream**, whatever its length.
* `countP_lt_sorted`, `lt_countP_sorted` — the value at a place of the sorted list: as many values
  are less as stand before it, at most, and it is among the first that are not greater.
-/

namespace Ucser
namespace Window

variable {α : Type}

/-- A value is added, and the oldest one dropped when there are more than `cap`. -/
def push (cap : Nat) (values : List α) (value : α) : List α :=
  let grown := values ++ [value]
  if cap < grown.length then grown.drop 1 else grown

@[simp] theorem length_rtake (cap : Nat) (values : List α) :
    (values.rtake cap).length = min cap values.length := by
  simp only [List.rtake, List.length_drop]
  omega

/-- **The buffer holds the last values of the stream.** -/
theorem push_rtake (cap : Nat) (values : List α) (value : α) :
    push cap (values.rtake cap) value = (values ++ [value]).rtake cap := by
  cases cap with
  | zero => simp [push]
  | succ n =>
      rw [List.rtake_concat_succ]
      simp only [push, List.length_append, length_rtake, List.length_singleton]
      by_cases hfull : n < values.length
      · rw [if_pos (by omega), List.rtake, List.rtake, List.drop_append_of_le_length, List.drop_drop]
        · congr 2
          omega
        · simp only [List.length_drop]
          omega
      · rw [if_neg (by omega), List.rtake, List.rtake, Nat.sub_eq_zero_of_le (by omega),
          Nat.sub_eq_zero_of_le (by omega)]

section Rank

variable [LinearOrder α] {values : List α}

/-- At most as many values are less than one of the sorted list as stand before it. -/
theorem countP_lt_sorted (h : values.Pairwise (· ≤ ·)) (k : Nat) (hk : k < values.length) :
    values.countP (· < values[k]) ≤ k := by
  have hlast : (values.drop k).countP (· < values[k]) = 0 := by
    rw [List.countP_eq_zero]
    intro v hv
    obtain ⟨j, hj, rfl⟩ := List.mem_iff_getElem.mp hv
    rw [List.getElem_drop]
    rcases Nat.eq_zero_or_pos j with rfl | hpos
    · simp
    · have hle := List.pairwise_iff_getElem.mp h k (k + j) hk (by simp at hj; omega) (by omega)
      simpa using hle
  calc values.countP (· < values[k])
      = (values.take k ++ values.drop k).countP (· < values[k]) := by rw [List.take_append_drop]
    _ = (values.take k).countP (· < values[k]) := by rw [List.countP_append, hlast, Nat.add_zero]
    _ ≤ (values.take k).length := List.countP_le_length
    _ ≤ k := List.length_take_le k values

/-- And it is not greater than any that stands behind. -/
theorem lt_countP_sorted (h : values.Pairwise (· ≤ ·)) (k : Nat) (hk : k < values.length) :
    k < values.countP (· ≤ values[k]) := by
  have hfirst : (values.take (k + 1)).countP (· ≤ values[k]) = (values.take (k + 1)).length := by
    rw [List.countP_eq_length]
    intro v hv
    obtain ⟨j, hj, rfl⟩ := List.mem_iff_getElem.mp hv
    rw [List.getElem_take]
    have hle : j ≤ k := by simp at hj; omega
    rcases Nat.eq_or_lt_of_le hle with rfl | hlt
    · simp
    · simpa using List.pairwise_iff_getElem.mp h j k (by omega) hk hlt
  have hle : (values.take (k + 1)).countP (· ≤ values[k]) ≤ values.countP (· ≤ values[k]) :=
    (List.take_sublist _ _).countP_le
  rw [hfirst, List.length_take] at hle
  omega

end Rank

end Window
end Ucser
