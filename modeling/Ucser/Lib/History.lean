import Mathlib.Data.List.Basic

/-!
# Snapshots in a row, with a cursor

The usual history of an editor: a list of snapshots and an index into it.  A new snapshot goes
behind the cursor, and what was there is dropped.

* `History`, `snap`, `undo`, `redo` — the list and its operations.
* `behind`, `ahead` — the snapshots up to the cursor, latest first, and those behind it.
* `behind_snap`, `undo_of_behind`, `redo_of_ahead` — **the operations are those of a zipper**.
* `At`, `at_undo`, `at_redo` — the history of given snapshots with the cursor on one of them, and
  where going back and going on lead from there.
* `mem_items_snap`, `items_of_undo`, `items_of_redo` — no snapshot appears from nowhere.
-/

namespace Ucser

/-- Snapshots, and how many of them the cursor has passed: its index and one. -/
structure History (α : Type) where
  items : List α
  cursor : Nat
  cursor_le : cursor ≤ items.length

namespace History

variable {α : Type}

/-- No snapshot. -/
def empty : History α := ⟨[], 0, Nat.le_refl 0⟩

/-- A new snapshot; the cursor is on it. -/
def snap (h : History α) (x : α) : History α where
  items := h.items.take h.cursor ++ [x]
  cursor := (h.items.take h.cursor ++ [x]).length
  cursor_le := Nat.le_refl _

/-- The cursor goes to the snapshot before, if there is one. -/
def undo (h : History α) : Option (History α × α) :=
  if h.cursor ≤ 1 then none
  else
    (h.items[h.cursor - 2]?).map fun x =>
      ({ h with cursor := h.cursor - 1, cursor_le := Nat.le_trans (Nat.sub_le _ _) h.cursor_le }, x)

/-- The cursor goes to the next snapshot, if there is one. -/
def redo (h : History α) : Option (History α × α) :=
  if hcursor : h.cursor < h.items.length then
    some ({ h with cursor := h.cursor + 1, cursor_le := hcursor }, h.items.get ⟨h.cursor, hcursor⟩)
  else none

/-- The snapshots up to the cursor, the latest first. -/
def behind (h : History α) : List α := (h.items.take h.cursor).reverse

/-- The snapshots behind the cursor. -/
def ahead (h : History α) : List α := h.items.drop h.cursor

variable {h : History α} {x y : α} {rest : List α}

@[simp] theorem behind_empty : (empty : History α).behind = [] := rfl

@[simp] theorem behind_snap (h : History α) (x : α) : (h.snap x).behind = x :: h.behind := by
  rw [behind, snap, List.take_length, List.reverse_append, behind]
  rfl

@[simp] theorem ahead_snap (h : History α) (x : α) : (h.snap x).ahead = [] :=
  List.drop_length

theorem length_behind (h : History α) : h.behind.length = h.cursor := by
  rw [behind, List.length_reverse, List.length_take, Nat.min_eq_left h.cursor_le]

theorem items_eq (h : History α) : h.items = h.behind.reverse ++ h.ahead := by
  rw [behind, List.reverse_reverse, ahead, List.take_append_drop]

/-- **Going back** moves the latest snapshot to the other side, and shows the one before. -/
theorem undo_of_behind (hbehind : h.behind = x :: y :: rest) :
    ∃ h', h.undo = some (h', y) ∧ h'.behind = y :: rest ∧ h'.ahead = x :: h.ahead := by
  have hcursor : h.cursor = rest.length + 2 := by
    rw [← length_behind, hbehind]
    rfl
  have hitems : h.items = rest.reverse ++ y :: x :: h.ahead := by
    rw [items_eq, hbehind]
    simp
  have hget : h.items[h.cursor - 2]? = some y := by
    rw [hcursor, hitems, Nat.add_sub_cancel, ← List.length_reverse,
      List.getElem?_append_right (Nat.le_refl _), Nat.sub_self]
    rfl
  have hsplit : h.items = (rest.reverse ++ [y]) ++ x :: h.ahead := by
    rw [hitems, List.append_assoc]
    rfl
  have hlength : h.cursor - 1 = (rest.reverse ++ [y]).length := by
    simp [hcursor]
  refine ⟨_, by rw [undo, if_neg (by omega), hget]; rfl, ?_, ?_⟩
  · show (h.items.take (h.cursor - 1)).reverse = y :: rest
    rw [hlength, hsplit, List.take_left]
    simp
  · show h.items.drop (h.cursor - 1) = x :: h.ahead
    rw [hlength, hsplit, List.drop_left]

/-- There is nothing to go back to before the second snapshot. -/
theorem undo_eq_none_iff : h.undo = none ↔ h.behind.length ≤ 1 := by
  rw [length_behind, undo]
  split_ifs with hcursor
  · exact iff_of_true rfl hcursor
  · have hle := h.cursor_le
    have hget : h.cursor - 2 < h.items.length := by omega
    rw [List.getElem?_eq_getElem hget]
    exact iff_of_false (by simp) hcursor

/-- **Going on** moves the next snapshot back, and shows it. -/
theorem redo_of_ahead (hahead : h.ahead = y :: rest) :
    ∃ h', h.redo = some (h', y) ∧ h'.behind = y :: h.behind ∧ h'.ahead = rest := by
  have hcursor : h.cursor < h.items.length := by
    apply Nat.lt_of_not_le
    rw [← List.drop_eq_nil_iff, ← ahead, hahead]
    exact List.cons_ne_nil y rest
  have hdrop := List.drop_eq_getElem_cons hcursor
  rw [← ahead, hahead] at hdrop
  obtain ⟨hget, hrest⟩ := List.cons.inj hdrop
  refine ⟨⟨h.items, h.cursor + 1, hcursor⟩, ?_, ?_, hrest.symm⟩
  · rw [redo, dif_pos hcursor, List.get_eq_getElem, ← hget]
  show (h.items.take (h.cursor + 1)).reverse = y :: h.behind
  rw [← List.take_append_getElem hcursor, ← hget, behind]
  simp

theorem redo_eq_none_iff : h.redo = none ↔ h.ahead = [] := by
  rw [redo, ahead, List.drop_eq_nil_iff]
  split_ifs with hcursor
  · exact iff_of_false (by simp) (Nat.not_le_of_lt hcursor)
  · exact iff_of_true rfl (Nat.le_of_not_lt hcursor)

/-! ## The cursor on one of some snapshots -/

/-- These are the snapshots, the latest first, and the cursor is on the one with this index. -/
structure At (xs : List α) (m : Nat) (h : History α) : Prop where
  behind_eq : h.behind = xs.drop m
  ahead_eq : h.ahead = (xs.take m).reverse

variable {xs : List α} {m : Nat}

theorem at_empty : At [] 0 (empty : History α) := ⟨rfl, rfl⟩

/-- A new snapshot, when the cursor was on the latest. -/
theorem At.snap (hat : At xs 0 h) (x : α) : At (x :: xs) 0 (h.snap x) where
  behind_eq := by
    rw [behind_snap, hat.behind_eq]
    rfl
  ahead_eq := ahead_snap h x

/-- Going back from one that is not the first. -/
theorem at_undo (hat : At xs m h) (hm : m + 1 < xs.length) :
    ∃ h', h.undo = some (h', xs[m + 1]) ∧ At xs (m + 1) h' := by
  have hbehind : h.behind = xs[m] :: xs[m + 1] :: xs.drop (m + 2) := by
    rw [hat.behind_eq, List.drop_eq_getElem_cons (by omega), List.drop_eq_getElem_cons hm]
  obtain ⟨h', hundo, hrest, hahead⟩ := undo_of_behind hbehind
  refine ⟨h', hundo, ?_, ?_⟩
  · rw [hrest, List.drop_eq_getElem_cons hm]
  · rw [hahead, hat.ahead_eq, List.take_succ_eq_append_getElem (by omega), List.reverse_append]
    rfl

/-- Going back from the first. -/
theorem At.undo_eq_none (hat : At xs m h) (hm : xs.length ≤ m + 1) : h.undo = none := by
  rw [undo_eq_none_iff, hat.behind_eq, List.length_drop]
  omega

/-- Going on from one that is not the latest. -/
theorem at_redo (hat : At xs (m + 1) h) (hm : m < xs.length) :
    ∃ h', h.redo = some (h', xs[m]) ∧ At xs m h' := by
  have hahead : h.ahead = xs[m] :: (xs.take m).reverse := by
    rw [hat.ahead_eq, List.take_succ_eq_append_getElem hm, List.reverse_append]
    rfl
  obtain ⟨h', hredo, hbehind, hrest⟩ := redo_of_ahead hahead
  refine ⟨h', hredo, ?_, hrest⟩
  rw [hbehind, hat.behind_eq, ← List.drop_eq_getElem_cons hm]

/-- Going on from the latest. -/
theorem At.redo_eq_none (hat : At xs 0 h) : h.redo = none := by
  rw [redo_eq_none_iff, hat.ahead_eq]
  rfl

/-! ## What is in it -/

theorem mem_items_snap {z : α} (hz : z ∈ (h.snap x).items) : z = x ∨ z ∈ h.items := by
  rcases List.mem_append.mp hz with hz | hz
  · exact Or.inr (List.mem_of_mem_take hz)
  · exact Or.inl (List.mem_singleton.mp hz)

/-- Going back shows one of the snapshots, and keeps them. -/
theorem items_of_undo {h' : History α} (hundo : h.undo = some (h', y)) :
    h'.items = h.items ∧ y ∈ h.items := by
  rw [undo] at hundo
  split_ifs at hundo
  obtain ⟨z, hz, heq⟩ := Option.map_eq_some_iff.mp hundo
  cases heq
  exact ⟨rfl, List.mem_of_getElem? hz⟩

/-- And so does going on. -/
theorem items_of_redo {h' : History α} (hredo : h.redo = some (h', y)) :
    h'.items = h.items ∧ y ∈ h.items := by
  rw [redo] at hredo
  split_ifs at hredo
  cases hredo
  exact ⟨rfl, List.get_mem _ _⟩

end History
end Ucser
