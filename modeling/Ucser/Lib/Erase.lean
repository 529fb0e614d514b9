import Mathlib.Data.List.Infix
import Mathlib.Tactic.Common

/-!
# Erasing marked sequences from a text

A scanner that goes through a text once and erases every marker it meets.  A marker begins
with a character that occurs nowhere else in it, and what follows a marker does not decide
whether it is one.

* `Markers` — a kind of marker and the function that measures the marker a text begins with.
* `erase`, `scan_induction` — the scanner, and induction along it.
* `Padded` — a text with markers put in between its characters.
* `contains_erase_iff` — **what is left contains a marker** exactly when the text contains a
  marker interrupted by others.
* `erase_eq_self` — a text without markers stays as it is.
-/

namespace Ucser
namespace Erase

/-! ## Markers -/

/-- A kind of marker. -/
structure Markers (α : Type) where
  /-- The character every marker begins with. -/
  esc : α
  Marker : List α → Prop
  /-- The length of the marker a text begins with, zero if it begins with none. -/
  len : List α → Nat
  len_append : ∀ {q : List α}, Marker q → ∀ rest, len (q ++ rest) = q.length
  exists_marker : ∀ {t : List α}, len t ≠ 0 → ∃ q rest, t = q ++ rest ∧ Marker q
  shape : ∀ {q : List α}, Marker q →
    ∃ middle last, q = esc :: (middle ++ [last]) ∧ esc ∉ middle ∧ last ≠ esc

variable {α : Type} (m : Markers α)

/-- The scanner, with the number of characters still to erase. -/
def erase (skip : Nat) : List α → List α
  | [] => []
  | c :: cs =>
      match skip with
      | skip + 1 => erase skip cs
      | 0 =>
          match m.len (c :: cs) with
          | 0 => c :: erase 0 cs
          | skip + 1 => erase skip cs

/-- A text contains a marker. -/
def Contains (t : List α) : Prop := ∃ before q after, t = before ++ q ++ after ∧ m.Marker q

/-- The second text is the first with markers put in. -/
inductive Padded : List α → List α → Prop where
  | nil : Padded [] []
  | char {s t : List α} (c : α) (h : Padded s t) : Padded (c :: s) (c :: t)
  | marker {s t q : List α} (hq : m.Marker q) (h : Padded s t) : Padded s (q ++ t)

/-- A text contains a marker with others put in between its first and its last character. -/
def Interrupted (t : List α) : Prop :=
  ∃ before middle last woven after, m.Marker (m.esc :: (middle ++ [last])) ∧
    Padded m middle woven ∧ woven ≠ middle ∧ t = before ++ m.esc :: (woven ++ last :: after)

variable {m}

/-! ## Where a marker begins -/

theorem esc_notMem_tail {c : α} {q : List α} (h : m.Marker (c :: q)) : c = m.esc ∧ m.esc ∉ q := by
  obtain ⟨middle, last, hq, hmiddle, hlast⟩ := m.shape h
  obtain ⟨rfl, rfl⟩ := List.cons.inj hq
  refine ⟨rfl, fun hmem => ?_⟩
  rcases List.mem_append.mp hmem with hmem | hmem
  · exact hmiddle hmem
  · exact hlast (List.mem_singleton.mp hmem).symm

theorem marker_ne_nil {q : List α} (h : m.Marker q) : q ≠ [] := by
  obtain ⟨middle, last, rfl, -, -⟩ := m.shape h
  exact List.cons_ne_nil _ _

theorem len_cons_of_ne {c : α} (h : c ≠ m.esc) (t : List α) : m.len (c :: t) = 0 := by
  by_contra hlen
  obtain ⟨q, rest, heq, hq⟩ := m.exists_marker hlen
  cases q with
  | nil => exact marker_ne_nil hq rfl
  | cons d q =>
      rw [List.cons_append] at heq
      exact h ((List.cons.inj heq).1.trans (esc_notMem_tail hq).1)

/-- The beginning of a marker is no marker. -/
theorem len_of_proper_prefix {u v : List α} (h : m.Marker (u ++ v)) (hv : v ≠ []) :
    m.len u = 0 := by
  by_contra hlen
  obtain ⟨q, rest, rfl, hq⟩ := m.exists_marker hlen
  have hwhole := m.len_append h []
  rw [List.append_nil] at hwhole
  have hshort := m.len_append hq (rest ++ v)
  rw [← List.append_assoc, hwhole] at hshort
  have hpos := List.length_pos_of_ne_nil hv
  simp only [List.length_append] at hshort
  omega

/-- The next `esc` ends what can belong to a marker. -/
theorem len_append_esc {u : List α} (hu : u ≠ []) (t : List α) :
    m.len (u ++ m.esc :: t) = m.len u := by
  by_cases hlen : m.len u = 0
  · by_contra hne
    rw [hlen] at hne
    obtain ⟨q, rest, heq, hq⟩ := m.exists_marker hne
    rcases List.append_eq_append_iff.mp heq with ⟨v, rfl, hv⟩ | ⟨v, rfl, hv⟩
    · obtain ⟨c, u', rfl⟩ := List.exists_cons_of_ne_nil hu
      cases v with
      | nil =>
          rw [List.append_nil] at hq
          have hself := m.len_append hq []
          rw [List.append_nil, hlen] at hself
          exact absurd hself.symm (by simp)
      | cons d v =>
          have hd : m.esc = d := (List.cons.inj hv).1
          have hnot := (esc_notMem_tail hq).2
          rw [hd] at hnot
          exact hnot (List.mem_append_right _ List.mem_cons_self)
    · rw [m.len_append hq] at hlen
      exact marker_ne_nil hq (List.eq_nil_of_length_eq_zero hlen)
  · obtain ⟨q, rest, rfl, hq⟩ := m.exists_marker hlen
    rw [List.append_assoc, m.len_append hq, m.len_append hq]

/-! ## The scanner -/

theorem erase_skip (u t : List α) : erase m u.length (u ++ t) = erase m 0 t := by
  induction u with
  | nil => rfl
  | cons c u ih => exact ih

/-- A marker is erased. -/
theorem erase_marker {q : List α} (h : m.Marker q) (t : List α) :
    erase m 0 (q ++ t) = erase m 0 t := by
  have hlen := m.len_append h t
  cases q with
  | nil => exact absurd rfl (marker_ne_nil h)
  | cons c q =>
      rw [List.cons_append] at hlen ⊢
      rw [erase, hlen]
      exact erase_skip q t

/-- What begins no marker is kept. -/
theorem erase_cons {c : α} {t : List α} (h : m.len (c :: t) = 0) :
    erase m 0 (c :: t) = c :: erase m 0 t := by
  rw [erase, h]

/-- Induction along the scanner: over markers, and over characters that begin none. -/
theorem scan_induction {P : List α → Prop} (nil : P [])
    (marker : ∀ q t, m.Marker q → P t → P (q ++ t))
    (char : ∀ c t, m.len (c :: t) = 0 → P t → P (c :: t)) (t : List α) : P t := by
  induction hn : t.length using Nat.strong_induction_on generalizing t with
  | _ n ih =>
      subst hn
      cases t with
      | nil => exact nil
      | cons c t =>
          by_cases hlen : m.len (c :: t) = 0
          · exact char c t hlen (ih t.length (Nat.lt_succ_self _) t rfl)
          · obtain ⟨q, rest, heq, hq⟩ := m.exists_marker hlen
            have hpos := List.length_pos_of_ne_nil (marker_ne_nil hq)
            have hlength := congrArg List.length heq
            rw [List.length_append] at hlength
            rw [heq]
            exact marker q rest hq (ih rest.length (by omega) rest rfl)

/-- What stands in front of an `esc` is scanned for itself. -/
theorem erase_append_esc (u t : List α) :
    erase m 0 (u ++ m.esc :: t) = erase m 0 u ++ erase m 0 (m.esc :: t) := by
  induction u using scan_induction with
  | nil => rfl
  | marker q u hq ih => rw [List.append_assoc, erase_marker hq, erase_marker hq, ih]
  | char c u hlen ih =>
      have hlen' : m.len (c :: (u ++ m.esc :: t)) = 0 := by
        rw [← List.cons_append, len_append_esc (List.cons_ne_nil c u), hlen]
      rw [List.cons_append, erase_cons hlen', erase_cons hlen, ih, List.cons_append]

/-- **A text without markers stays as it is.** -/
theorem erase_eq_self {t : List α} (h : ¬ Contains m t) : erase m 0 t = t := by
  induction t using scan_induction with
  | nil => rfl
  | marker q t hq ih => exact absurd ⟨[], q, t, rfl, hq⟩ h
  | char c t hlen ih =>
      have ht : ¬ Contains m t := by
        rintro ⟨before, q, after, rfl, hq⟩
        exact h ⟨c :: before, q, after, rfl, hq⟩
      rw [erase_cons hlen, ih ht]

/-! ## Markers that come together -/

/-- What was put into a text without `esc` is erased again. -/
theorem erase_padded {s w : List α} (h : Padded m s w) (hesc : m.esc ∉ s) (t : List α) :
    erase m 0 (w ++ t) = s ++ erase m 0 t := by
  induction h with
  | nil => rfl
  | char c h ih =>
      obtain ⟨hc, hs⟩ := not_or.mp (mt List.mem_cons.mpr hesc)
      rw [List.cons_append, erase_cons (len_cons_of_ne (Ne.symm hc) _), ih hs, List.cons_append]
  | marker hq h ih => rw [List.append_assoc, erase_marker hq, ih hesc]

/-- Where a kept character stood, and what was erased in front of it. -/
theorem exists_padded {t : List α} : ∀ {s : List α} {c : α} {y : List α},
    erase m 0 t = s ++ c :: y → ∃ w t', t = w ++ c :: t' ∧ Padded m s w ∧
      m.len (c :: t') = 0 ∧ erase m 0 t' = y := by
  induction t using scan_induction with
  | nil =>
      intro s c y h
      exact absurd h.symm (List.append_ne_nil_of_right_ne_nil s (List.cons_ne_nil c y))
  | marker q t hq ih =>
      intro s c y h
      rw [erase_marker hq] at h
      obtain ⟨w, t', rfl, hw, hlen, hy⟩ := ih h
      exact ⟨q ++ w, t', (List.append_assoc _ _ _).symm, .marker hq hw, hlen, hy⟩
  | char d t hlen ih =>
      intro s c y h
      rw [erase_cons hlen] at h
      cases s with
      | nil =>
          obtain ⟨rfl, hy⟩ := List.cons.inj h
          exact ⟨[], t, rfl, .nil, hlen, hy⟩
      | cons e s =>
          obtain ⟨rfl, htail⟩ := List.cons.inj h
          obtain ⟨w, t', rfl, hw, hlen', hy⟩ := ih htail
          exact ⟨d :: w, t', rfl, .char d hw, hlen', hy⟩

/-- The first marker that was put in begins behind a beginning of the text. -/
theorem exists_first_marker {s w : List α} (h : Padded m s w) (hne : w ≠ s) :
    ∃ u v x, s = u ++ v ∧ w = u ++ m.esc :: x := by
  induction h with
  | nil => exact absurd rfl hne
  | char c h ih =>
      obtain ⟨u, v, x, rfl, rfl⟩ := ih fun heq => hne (congrArg (c :: ·) heq)
      exact ⟨c :: u, v, x, rfl, rfl⟩
  | marker hq h ih =>
      obtain ⟨middle, last, rfl, -, -⟩ := m.shape hq
      exact ⟨[], _, _, rfl, rfl⟩

/-- **What is left contains a marker** exactly when the text contains a marker that others
interrupt. -/
theorem contains_erase_iff {t : List α} : Contains m (erase m 0 t) ↔ Interrupted m t := by
  constructor
  · rintro ⟨before, q, after, herase, hq⟩
    obtain ⟨middle, last, rfl, -, -⟩ := m.shape hq
    rw [List.append_assoc, List.cons_append, List.append_assoc, List.singleton_append] at herase
    obtain ⟨w, t', rfl, -, hlen, hrest⟩ := exists_padded herase
    obtain ⟨woven, after', rfl, hwoven, -, -⟩ := exists_padded hrest
    refine ⟨w, middle, last, woven, after', hq, hwoven, ?_, rfl⟩
    rintro rfl
    -- the marker would have been erased
    have hmarker := m.len_append hq after'
    rw [List.cons_append, List.append_assoc, List.singleton_append, hlen] at hmarker
    simp at hmarker
  · rintro ⟨before, middle, last, woven, after, hq, hwoven, hne, rfl⟩
    obtain ⟨-, hesc⟩ := esc_notMem_tail hq
    obtain ⟨hmiddle, hlast⟩ := not_or.mp (mt List.mem_append.mpr hesc)
    have hlast : last ≠ m.esc := fun heq => hlast (by rw [heq]; exact List.mem_singleton_self _)
    obtain ⟨u, v, x, hs, hw⟩ := exists_first_marker hwoven hne
    have hhead : m.len (m.esc :: (woven ++ last :: after)) = 0 := by
      have hprefix : m.Marker ((m.esc :: u) ++ (v ++ [last])) := by
        rwa [List.cons_append, ← List.append_assoc, ← hs]
      have hzero := len_of_proper_prefix hprefix (by simp)
      rw [hw, List.append_assoc, List.cons_append, ← List.cons_append,
        len_append_esc (List.cons_ne_nil _ u), hzero]
    refine ⟨erase m 0 before, m.esc :: (middle ++ [last]), erase m 0 after, ?_, hq⟩
    rw [erase_append_esc, erase_cons hhead, erase_padded hwoven hmiddle,
      erase_cons (len_cons_of_ne hlast after)]
    simp

end Erase
end Ucser
