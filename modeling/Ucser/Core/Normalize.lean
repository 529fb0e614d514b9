import Ucser.Core.Engine
import Ucser.Lib.Erase

/-!
# Escape sequences in outputs: `normalize_output` of `core/executor.py`

`normalize_output` erases the ANSI escape sequences of a text in one pass, and then the blanks
around what is left.  Two halves of a sequence that another one kept apart come together.

* `Escape` — the texts the pattern matches.
* `ansiMarkers`, `dropAnsi_eq_erase` — the scan is the general one, for these sequences.
* `hasEscape_strip` — taking away surrounding blanks neither makes nor breaks a sequence.
* `normalizeOutput_fixed_iff` — **the result is free of sequences and a fixed point** exactly
  when no sequence of the text is interrupted by others.
-/

namespace Ucser
namespace Ansi

/-! ## Escape sequences -/

/-- ESC. -/
def esc : Char := '\x1b'

/-- The characters that make a sequence behind an ESC: `[@-Z\\-_]`. -/
def isSingle (c : Char) : Bool := inRange 0x40 0x5A c || inRange 0x5C 0x5F c

/-- The texts the pattern matches: ESC and a single character, or ESC `[`, parameters `0`..`?`,
intermediates (blank to `/`) and a final character `@`..`~`. -/
inductive Escape : List Char → Prop where
  | single {c : Char} (hc : isSingle c = true) : Escape [esc, c]
  | control {params middle : List Char} {last : Char}
      (hparams : ∀ c ∈ params, inRange 0x30 0x3F c = true)
      (hmiddle : ∀ c ∈ middle, inRange 0x20 0x2F c = true)
      (hlast : inRange 0x40 0x7E last = true) :
      Escape (esc :: '[' :: (params ++ middle ++ [last]))

theorem inRange_iff {low high : Nat} {c : Char} :
    inRange low high c = true ↔ low ≤ c.toNat ∧ c.toNat ≤ high := by
  simp [inRange]

/-- The three classes of characters behind `ESC [` have nothing in common. -/
theorem inRange_disjoint {low high low' high' : Nat} {c : Char} (h : inRange low high c = true)
    (hlt : high < low' ∨ high' < low) : inRange low' high' c = false := by
  rw [inRange_iff] at h
  rw [Bool.eq_false_iff, ne_eq, inRange_iff]
  omega

theorem takeWhile_append_stop {p : Char → Bool} {l rest : List Char} (h : ∀ c ∈ l, p c = true)
    (hrest : ∀ d ∈ rest.head?, p d = false) :
    (l ++ rest).takeWhile p = l ∧ (l ++ rest).dropWhile p = rest := by
  rw [List.takeWhile_append_of_pos h, List.dropWhile_append_of_pos h]
  cases rest with
  | nil => simp
  | cons d rest =>
      have hd : ¬ p d = true := by simpa using hrest d rfl
      rw [List.takeWhile_cons_of_neg hd, List.dropWhile_cons_of_neg hd, List.append_nil]
      exact ⟨rfl, rfl⟩

/-- A sequence is measured as such, whatever follows it. -/
theorem ansiLength_append {q : List Char} (h : Escape q) (rest : List Char) :
    ansiLength (q ++ rest) = q.length := by
  cases h with
  | single hc =>
      have hesc : ¬ esc.toNat ≠ 0x1B := by decide
      show ansiLength (esc :: _ :: rest) = 2
      rw [ansiLength, if_neg hesc]
      exact if_pos hc
  | @control params middle last hparams hmiddle hlast =>
      have hesc : ¬ esc.toNat ≠ 0x1B := by decide
      have hbracket : ¬ (inRange 0x40 0x5A '[' || inRange 0x5C 0x5F '[') = true := by decide
      have hstop : ∀ d ∈ (middle ++ last :: rest).head?, inRange 0x30 0x3F d = false := by
        intro d hd
        cases middle with
        | nil =>
            obtain rfl := Option.some.inj hd
            exact inRange_disjoint hlast (Or.inr (by decide))
        | cons e middle =>
            obtain rfl := Option.some.inj hd
            exact inRange_disjoint (hmiddle _ List.mem_cons_self) (Or.inl (by decide))
      have hstop' : ∀ d ∈ (last :: rest).head?, inRange 0x20 0x2F d = false := by
        intro d hd
        obtain rfl := Option.some.inj hd
        exact inRange_disjoint hlast (Or.inr (by decide))
      obtain ⟨htake, hdrop⟩ := takeWhile_append_stop hparams hstop
      obtain ⟨htake', hdrop'⟩ := takeWhile_append_stop hmiddle hstop'
      have htext : esc :: '[' :: (params ++ middle ++ [last]) ++ rest =
          esc :: '[' :: (params ++ (middle ++ last :: rest)) := by simp
      rw [htext, ansiLength, if_neg hesc, if_neg hbracket, if_neg (by decide)]
      simp only [htake, hdrop, htake', hdrop', hlast, if_true]
      simp
      omega

/-- What the scan erases is a sequence. -/
theorem exists_escape {t : List Char} (h : ansiLength t ≠ 0) :
    ∃ q rest, t = q ++ rest ∧ Escape q := by
  unfold ansiLength at h
  split at h
  · next e c rest =>
    split_ifs at h with hesc hsingle hbracket
    · exact absurd rfl h
    · have he : e = esc := Char.toNat_inj.mp (not_not.mp hesc)
      exact ⟨[e, c], rest, rfl, he ▸ .single hsingle⟩
    · exact absurd rfl h
    · have he : e = esc := Char.toNat_inj.mp (not_not.mp hesc)
      obtain rfl := not_not.mp hbracket
      dsimp only at h
      split at h
      · next last tail hlast =>
        split_ifs at h with hfinal
        · have hafter : (rest.dropWhile (inRange 0x30 0x3F)).takeWhile (inRange 0x20 0x2F) ++
              last :: tail = rest.dropWhile (inRange 0x30 0x3F) := by
            rw [← hlast, List.takeWhile_append_dropWhile]
          have hq : Escape (esc :: '[' :: (rest.takeWhile (inRange 0x30 0x3F) ++
              (rest.dropWhile (inRange 0x30 0x3F)).takeWhile (inRange 0x20 0x2F) ++ [last])) :=
            .control (fun c hc => List.mem_takeWhile_imp hc)
              (fun c hc => List.mem_takeWhile_imp hc) hfinal
          have hrest : rest.takeWhile (inRange 0x30 0x3F) ++ rest.dropWhile (inRange 0x30 0x3F) =
              rest := List.takeWhile_append_dropWhile
          rw [← hafter] at hrest
          exact ⟨_, tail, by simp [he, hrest], hq⟩
        · exact absurd rfl h
      · exact absurd rfl h
  · exact absurd rfl h

/-- A sequence has its ESC in front, and a last character that is none. -/
theorem escape_shape {q : List Char} (h : Escape q) :
    ∃ middle last, q = esc :: (middle ++ [last]) ∧ esc ∉ middle ∧ last ≠ esc := by
  cases h with
  | @single c hc =>
      refine ⟨[], c, rfl, List.not_mem_nil, ?_⟩
      rintro rfl
      exact absurd hc (by decide)
  | @control params middle last hparams hmiddle hlast =>
      refine ⟨'[' :: (params ++ middle), last, by simp, ?_, ?_⟩
      · intro hmem
        rcases List.mem_cons.mp hmem with hbracket | hmem
        · exact absurd hbracket (by decide)
        · rcases List.mem_append.mp hmem with hmem | hmem
          · exact absurd (hparams _ hmem) (by decide)
          · exact absurd (hmiddle _ hmem) (by decide)
      · rintro rfl
        exact absurd hlast (by decide)

/-- The escape sequences as markers. -/
def ansiMarkers : Erase.Markers Char where
  esc := esc
  Marker := Escape
  len := ansiLength
  len_append := ansiLength_append
  exists_marker := exists_escape
  shape := escape_shape

theorem dropAnsi_eq_erase (skip : Nat) (t : List Char) :
    dropAnsi skip t = Erase.erase ansiMarkers skip t := by
  induction t generalizing skip with
  | nil => rfl
  | cons c t ih =>
      cases skip with
      | succ skip => exact ih skip
      | zero =>
          have hlen : ansiMarkers.len (c :: t) = ansiLength (c :: t) := rfl
          rw [dropAnsi, Erase.erase, hlen]
          cases ansiLength (c :: t) with
          | zero => exact congrArg (c :: ·) (ih 0)
          | succ skip => exact ih skip

/-! ## Normalised outputs -/

/-- A text contains something the pattern matches. -/
def HasEscape (t : List Char) : Prop := ∃ before q after, t = before ++ q ++ after ∧ Escape q

/-- A text contains a sequence with others put in between its first and its last character. -/
def Interrupted (t : List Char) : Prop := Erase.Interrupted ansiMarkers t

/-- A sequence has no blank at either end. -/
theorem strip_escape {q : List Char} (h : Escape q) : Text.strip q = q := by
  have hfinal : ∀ {c : Char}, inRange 0x40 0x7E c = true → Text.isSpace c = false := by
    intro c hc
    rw [inRange_iff] at hc
    simp [Text.isSpace]
    omega
  rw [Text.strip_eq_self_iff]
  constructor
  · intro c hc
    cases h with
    | single => exact Option.some.inj hc ▸ by decide
    | control => exact Option.some.inj hc ▸ by decide
  · intro c hc
    cases h with
    | @single d hsingle =>
        have hd : d = c := Option.some.inj hc
        rw [← hd]
        refine hfinal ?_
        simp only [isSingle, Bool.or_eq_true, inRange_iff] at hsingle ⊢
        omega
    | @control params middle last hparams hmiddle hlast =>
        rw [← List.cons_append, ← List.cons_append, List.getLast?_concat] at hc
        exact Option.some.inj hc ▸ hfinal hlast

/-- Blanks are dropped in front of a text that begins with none. -/
theorem dropWhile_around {q : List Char} (hne : q ≠ [])
    (hhead : ∀ c ∈ q.head?, Text.isSpace c = false) (before after : List Char) :
    ∃ before', (before ++ q ++ after).dropWhile Text.isSpace = before' ++ q ++ after := by
  have hhead' : ∀ c ∈ (q ++ after).head?, Text.isSpace c = false := by
    rwa [List.head?_append_of_ne_nil q hne]
  rw [List.append_assoc, List.dropWhile_append, Text.dropWhile_eq_self hhead']
  split_ifs
  · exact ⟨[], rfl⟩
  · exact ⟨before.dropWhile Text.isSpace, (List.append_assoc _ _ _).symm⟩

/-- Stripping does not reach into a sequence. -/
theorem strip_around {q : List Char} (h : Escape q) (before after : List Char) :
    ∃ before' after', Text.strip (before ++ q ++ after) = before' ++ q ++ after' := by
  obtain ⟨hhead, hlast⟩ := Text.strip_eq_self_iff.mp (strip_escape h)
  have hne : q ≠ [] := by
    obtain ⟨middle, last, rfl, -, -⟩ := escape_shape h
    exact List.cons_ne_nil _ _
  obtain ⟨before', hbefore⟩ := dropWhile_around hne hhead before after
  obtain ⟨after', hafter⟩ := dropWhile_around (q := q.reverse) (by simpa using hne)
    (by simpa using hlast) after.reverse before'.reverse
  refine ⟨before', after'.reverse, ?_⟩
  have hreverse : (before' ++ q ++ after).reverse =
      after.reverse ++ q.reverse ++ before'.reverse := by
    simp
  rw [Text.strip, hbefore, hreverse, hafter]
  simp

/-- Surrounding blanks have no part in a sequence. -/
theorem hasEscape_strip {t : List Char} : HasEscape (Text.strip t) ↔ HasEscape t := by
  constructor
  · rintro ⟨before, q, after, heq, hq⟩
    obtain ⟨a, b, -, -, ht⟩ := Text.exists_strip t
    refine ⟨a ++ before, q, after ++ b, ?_, hq⟩
    rw [ht, heq]
    simp
  · rintro ⟨before, q, after, rfl, hq⟩
    obtain ⟨before', after', heq⟩ := strip_around hq before after
    exact ⟨before', q, after', heq, hq⟩

/-- A normalised output is free of sequences exactly when none was interrupted. -/
theorem hasEscape_normalizeOutput {text : String} :
    HasEscape (normalizeOutput text).toList ↔ Interrupted text.toList := by
  rw [normalizeOutput, String.toList_ofList, hasEscape_strip, dropAnsi_eq_erase]
  exact Erase.contains_erase_iff

/-- **When normalisation reaches a fixed point.**  The normalised text is free of escape
sequences, and normalising it again changes nothing, exactly when no sequence of the text is
interrupted by others. -/
theorem normalizeOutput_fixed_iff (text : String) :
    (¬ HasEscape (normalizeOutput text).toList ∧
        normalizeOutput (normalizeOutput text) = normalizeOutput text) ↔
      ¬ Interrupted text.toList := by
  rw [hasEscape_normalizeOutput]
  refine and_iff_left_of_imp fun hfree => ?_
  have hescape : ¬ HasEscape (normalizeOutput text).toList :=
    mt hasEscape_normalizeOutput.mp hfree
  have hsame : dropAnsi 0 (normalizeOutput text).toList = (normalizeOutput text).toList := by
    rw [dropAnsi_eq_erase]
    exact Erase.erase_eq_self hescape
  rw [normalizeOutput, hsame, normalizeOutput, String.toList_ofList, Text.strip_strip]

/-- An escape sequence inside another one: `ESC ESC[m [m` becomes `ESC[m`. -/
theorem normalizeOutput_leaves_escape :
    ¬ ∀ text : String, ¬ HasEscape (normalizeOutput text).toList ∧
      normalizeOutput (normalizeOutput text) = normalizeOutput text := by
  intro hfixed
  have hsecond := (hfixed "\x1b\x1b[m[m").2
  exact absurd hsecond (by decide)

end Ansi
end Ucser
