import Ucser.Lib.Text

/-!
# Lines of a text stream

A stream opened as text: `\r` and `\r\n` are read as `\n`, and a reader takes whole lines.

* `universal` — the translation of line ends, character by character.
* `split`, `splitLines` — the complete lines of a text, and what follows the last of them.
* `readline` — what a reader takes from the characters that have arrived so far;
  `splitLines_of_readline` — **it takes the first line of the whole stream**, whatever
  arrives later.
* `splitLines_append` — the lines of a text that goes on with a line of its own.
* `strip_flatten_iff` — **when the complete lines of a text are all of it**, up to blanks
  around it.
-/

namespace Ucser
namespace Lines

/-! ## Line ends -/

/-- The translation of line ends; has the last character been `\r`? -/
def universal (afterCr : Bool) : List Char → List Char
  | [] => []
  | c :: cs =>
      if c = '\r' then '\n' :: universal true cs
      else if c = '\n' ∧ afterCr = true then universal false cs
      else c :: universal false cs

@[simp] theorem universal_nil (afterCr : Bool) : universal afterCr [] = [] := rfl

theorem universal_false_cons (c : Char) (cs : List Char) :
    universal false (c :: cs) =
      if c = '\r' then '\n' :: universal true cs else c :: universal false cs := by
  simp [universal]

/-- Only a `\n` is read in view of what came before it. -/
theorem universal_cons_of_ne (afterCr : Bool) {c : Char} (cs : List Char) (h : c ≠ '\n') :
    universal afterCr (c :: cs) = universal false (c :: cs) := by
  simp [universal, h]

/-- A text that goes on with anything but `\n`. -/
theorem universal_append (afterCr : Bool) (a : List Char) {c : Char} (b : List Char)
    (h : c ≠ '\n') :
    universal afterCr (a ++ c :: b) = universal afterCr a ++ universal false (c :: b) := by
  induction a generalizing afterCr with
  | nil => exact universal_cons_of_ne afterCr b h
  | cons d a ih =>
      rw [List.cons_append, universal, universal, ih, ih]
      split_ifs <;> simp

/-- Text without `\r` is left as it is. -/
theorem universal_append_of_no_cr {a : List Char} (b : List Char) (h : '\r' ∉ a) :
    universal false (a ++ b) = a ++ universal false b := by
  induction a with
  | nil => rfl
  | cons c a ih =>
      obtain ⟨hc, ha⟩ := List.ne_and_not_mem_of_not_mem_cons h
      simp [universal, Ne.symm hc, ih ha]

theorem cr_notMem_universal (afterCr : Bool) (text : List Char) :
    '\r' ∉ universal afterCr text := by
  induction text generalizing afterCr with
  | nil => simp
  | cons c text ih =>
      rw [universal]
      split_ifs with hcr hskip
      · simp [ih]
      · exact ih false
      · simp [ih, Ne.symm hcr]

/-- Line ends are blanks, before and after. -/
theorem filter_universal (afterCr : Bool) (text : List Char) :
    (universal afterCr text).filter (fun c => !Text.isSpace c) =
      text.filter (fun c => !Text.isSpace c) := by
  have hcr : Text.isSpace '\r' = true := by decide
  have hlf : Text.isSpace '\n' = true := by decide
  induction text generalizing afterCr with
  | nil => rfl
  | cons c text ih =>
      rw [universal]
      split_ifs with h h'
      · subst h
        simp [hcr, hlf, ih]
      · obtain ⟨rfl, _⟩ := h'
        simp [hlf, ih]
      · simp only [List.filter_cons, ih]

theorem blank_universal (afterCr : Bool) {text : List Char} (h : Text.Blank text) :
    Text.Blank (universal afterCr text) := by
  intro c hc
  have hnone : text.filter (fun c => !Text.isSpace c) = [] := by
    rw [List.filter_eq_nil_iff]
    intro d hd
    simp [h d hd]
  rw [← filter_universal afterCr] at hnone
  simpa using List.filter_eq_nil_iff.mp hnone c hc

/-- Blanks apart, text without `\r` within is left as it is. -/
theorem strip_universal {text : List Char} (h : '\r' ∉ Text.strip text) :
    Text.strip (universal false text) = Text.strip text := by
  obtain ⟨a, b, ha, hb, htext⟩ := Text.exists_strip text
  cases hstrip : Text.strip text with
  | nil =>
      apply Text.strip_of_blank
      apply blank_universal
      rw [htext, hstrip]
      simpa [Text.Blank, or_imp, forall_and] using And.intro ha hb
  | cons c rest =>
      have hlf : c ≠ '\n' := by
        rintro rfl
        exact absurd (Text.head_strip hstrip) (by decide)
      have huniversal : universal false text =
          universal false a ++ (c :: rest) ++ universal false b := by
        rw [htext, hstrip, List.append_assoc, List.cons_append, universal_append false a _ hlf,
          ← List.cons_append, universal_append_of_no_cr b (hstrip ▸ h), List.append_assoc]
      rw [huniversal, Text.strip_pad (blank_universal false ha) _ (blank_universal false hb),
        ← hstrip]
      conv => rhs; rw [htext]
      rw [Text.strip_pad ha _ hb]

/-- A piece without `\n` that begins a translated text begins the text. -/
theorem prefix_of_universal {piece text : List Char} (hpiece : '\n' ∉ piece)
    (h : piece <+: universal false text) : piece <+: text := by
  induction text generalizing piece with
  | nil => simpa using h
  | cons c text ih =>
      cases piece with
      | nil => exact List.nil_prefix
      | cons d piece =>
          obtain ⟨hd, hrest⟩ := List.ne_and_not_mem_of_not_mem_cons hpiece
          rw [universal_false_cons] at h
          split_ifs at h with hcr
          · exact absurd (List.cons_prefix_cons.mp h).1.symm hd
          · obtain ⟨rfl, htail⟩ := List.cons_prefix_cons.mp h
            exact List.cons_prefix_cons.mpr ⟨rfl, ih hrest htail⟩

/-- A piece without `\n` that is found in a translated text is found in the text. -/
theorem infix_of_universal {piece text : List Char} {afterCr : Bool} (hpiece : '\n' ∉ piece)
    (h : piece <:+: universal afterCr text) : piece <:+: text := by
  induction text generalizing afterCr with
  | nil => simpa using h
  | cons c text ih =>
      rw [universal] at h
      split_ifs at h with hcr hskip
      · rcases List.infix_cons_iff.mp h with hprefix | hpart
        · cases piece with
          | nil => exact List.nil_infix
          | cons d piece =>
              exact absurd (List.cons_prefix_cons.mp hprefix).1.symm
                (List.ne_and_not_mem_of_not_mem_cons hpiece).1
        · exact List.infix_cons (ih hpart)
      · exact List.infix_cons (ih h)
      · rcases List.infix_cons_iff.mp h with hprefix | hpart
        · cases piece with
          | nil => exact List.nil_infix
          | cons d piece =>
              obtain ⟨hd, hrest⟩ := List.ne_and_not_mem_of_not_mem_cons hpiece
              obtain ⟨rfl, htail⟩ := List.cons_prefix_cons.mp hprefix
              exact (List.cons_prefix_cons.mpr ⟨rfl, prefix_of_universal hrest htail⟩).isInfix
        · exact List.infix_cons (ih hpart)

/-! ## Splitting -/

/-- The complete lines of a text, each with its `\n`, and the rest. -/
def split : List Char → List (List Char) × List Char
  | [] => ([], [])
  | c :: cs =>
      if c = '\n' then (['\n'] :: (split cs).1, (split cs).2)
      else match (split cs).1 with
        | [] => ([], c :: (split cs).2)
        | line :: lines => ((c :: line) :: lines, (split cs).2)

/-- The complete lines of a stream, and what follows the last of them. -/
def splitLines (text : List Char) : List (List Char) × List Char := split (universal false text)

theorem flatten_split (text : List Char) : (split text).1.flatten ++ (split text).2 = text := by
  induction text with
  | nil => rfl
  | cons c text ih =>
      rw [split]
      split_ifs with hc
      · simpa [hc] using ih
      · cases hlines : (split text).1 with
        | nil => simpa [hlines] using ih
        | cons line lines => simpa [hlines] using ih

/-- A text that goes on with a line. -/
theorem split_append (a : List Char) {line : List Char} (b : List Char) (h : '\n' ∉ line) :
    split (a ++ (line ++ '\n' :: b)) =
      ((split a).1 ++ ((split a).2 ++ (line ++ ['\n'])) :: (split b).1, (split b).2) := by
  induction a with
  | nil =>
      induction line with
      | nil => simp [split]
      | cons c line ih =>
          obtain ⟨hc, hline⟩ := List.ne_and_not_mem_of_not_mem_cons h
          have hsplit := ih hline
          simp only [List.nil_append, split] at hsplit
          simp [split, Ne.symm hc, hsplit]
  | cons c a ih =>
      rw [List.cons_append, split, split, ih]
      split_ifs with hc
      · simp
      · cases (split a).1 <;> simp

/-! ## Reading -/

/-- What `readline` takes: the first line of what has arrived, and what is left.  After a
last `\r` it waits for the next character. -/
def readline : List Char → Option (List Char × List Char)
  | [] => none
  | c :: cs =>
      if c = '\n' then some (['\n'], cs)
      else if c = '\r' then
        if cs = [] then none else some (['\n'], if cs.head? = some '\n' then cs.tail else cs)
      else (readline cs).map (fun taken => (c :: taken.1, taken.2))

/-- **What a reader has taken**: a line, and some of the characters. -/
theorem readline_spec {text line rest : List Char} (h : readline text = some (line, rest)) :
    (∃ body, '\n' ∉ body ∧ line = body ++ ['\n']) ∧ rest.length < text.length ∧ rest <:+ text ∧
      ∀ later, universal false (text ++ later) = line ++ universal false (rest ++ later) := by
  induction text generalizing line with
  | nil => exact absurd h (by simp [readline])
  | cons c text ih =>
      rw [readline] at h
      split_ifs at h with hlf hcr hnil hhead
      · obtain ⟨rfl, rfl⟩ := Prod.mk.inj (Option.some.inj h)
        subst hlf
        exact ⟨⟨[], by simp, rfl⟩, Nat.lt_succ_self _, List.suffix_cons _ _,
          fun later => universal_false_cons '\n' _⟩
      · obtain ⟨rfl, rfl⟩ := Prod.mk.inj (Option.some.inj h)
        subst hcr
        obtain ⟨ds, rfl⟩ := List.head?_eq_some_iff.mp hhead
        refine ⟨⟨[], by simp, rfl⟩, Nat.lt_succ_of_lt (Nat.lt_succ_self _), ?_,
          fun later => by simp [universal]⟩
        exact (List.suffix_cons _ _).trans (List.suffix_cons _ _)
      · obtain ⟨rfl, rfl⟩ := Prod.mk.inj (Option.some.inj h)
        subst hcr
        obtain ⟨d, ds, rfl⟩ := List.exists_cons_of_ne_nil hnil
        have hd : d ≠ '\n' := by simpa using hhead
        refine ⟨⟨[], by simp, rfl⟩, by simp, List.suffix_cons _ _, fun later => ?_⟩
        rw [List.cons_append, universal_false_cons, if_pos rfl, List.cons_append,
          universal_cons_of_ne true _ hd]
        rfl
      · obtain ⟨⟨line', rest'⟩, htaken, heq⟩ := Option.map_eq_some_iff.mp h
        obtain ⟨rfl, rfl⟩ := Prod.mk.inj heq
        obtain ⟨⟨body, hbody, rfl⟩, hlength, hsuffix, hlater⟩ := ih htaken
        refine ⟨⟨c :: body, ?_, rfl⟩, Nat.lt_succ_of_lt hlength,
          hsuffix.trans (List.suffix_cons _ _), fun later => ?_⟩
        · exact List.not_mem_cons_of_ne_of_not_mem (Ne.symm hlf) hbody
        · rw [List.cons_append, universal_false_cons, if_neg hcr, hlater]
          rfl

/-- **What a reader takes is the first line of the stream**, whatever arrives later. -/
theorem splitLines_of_readline {text line rest : List Char}
    (h : readline text = some (line, rest)) (later : List Char) :
    splitLines (text ++ later) =
      (line :: (splitLines (rest ++ later)).1, (splitLines (rest ++ later)).2) := by
  obtain ⟨⟨body, hbody, rfl⟩, _, _, hlater⟩ := readline_spec h
  have hsplit := split_append [] (universal false (rest ++ later)) hbody
  rw [splitLines, hlater later, splitLines]
  simpa [split] using hsplit

/-- Once a `\n` has arrived there is a line to be taken. -/
theorem readline_of_mem {text : List Char} (h : '\n' ∈ text) :
    ∃ line rest, readline text = some (line, rest) := by
  induction text with
  | nil => exact absurd h List.not_mem_nil
  | cons c text ih =>
      rw [readline]
      split_ifs with hlf hcr hnil hhead
      · exact ⟨_, _, rfl⟩
      · subst hnil
        exact absurd h (by simp [Ne.symm hlf])
      · exact ⟨_, _, rfl⟩
      · exact ⟨_, _, rfl⟩
      · obtain ⟨line, rest, htaken⟩ := ih (List.mem_of_ne_of_mem (Ne.symm hlf) h)
        exact ⟨c :: line, rest, by rw [htaken]; rfl⟩

/-! ## The lines of a stream -/

theorem flatten_splitLines (text : List Char) :
    (splitLines text).1.flatten ++ (splitLines text).2 = universal false text :=
  flatten_split _

/-- A complete line is part of the text. -/
theorem line_infix {text line : List Char} (h : line ∈ (splitLines text).1) :
    line <:+: universal false text := by
  have hflat : line <:+: (splitLines text).1.flatten := List.infix_of_mem_flatten h
  exact hflat.trans ⟨[], (splitLines text).2, by simpa using flatten_splitLines text⟩

/-- **The lines of a text that goes on with a line of its own.** -/
theorem splitLines_append (text : List Char) {line : List Char} (later : List Char)
    (hne : line ≠ []) (hlf : '\n' ∉ line) (hcr : '\r' ∉ line) :
    splitLines (text ++ (line ++ '\n' :: later)) =
      ((splitLines text).1 ++ ((splitLines text).2 ++ (line ++ ['\n'])) :: (splitLines later).1,
        (splitLines later).2) := by
  obtain ⟨c, line, rfl⟩ := List.exists_cons_of_ne_nil hne
  have hlater : universal false ('\n' :: later) = '\n' :: universal false later :=
    universal_false_cons '\n' later
  rw [splitLines, List.cons_append,
    universal_append false text _ (Ne.symm (List.ne_of_not_mem_cons hlf)), ← List.cons_append,
    universal_append_of_no_cr _ hcr, hlater, split_append _ _ hlf]
  rfl

theorem eq_nil_of_splitLines {text : List Char} (h : splitLines text = ([], [])) : text = [] := by
  have hnil : universal false text = [] := by simpa [h] using (flatten_splitLines text).symm
  cases text with
  | nil => rfl
  | cons c text =>
      rw [universal_false_cons] at hnil
      split_ifs at hnil

/-- **When the complete lines of a text are all of it**, up to blanks around it: when
nothing but blanks follows the last of them, and no `\r` is left within. -/
theorem strip_flatten_iff (text : List Char) :
    Text.strip (splitLines text).1.flatten = Text.strip text ↔
      Text.Blank (splitLines text).2 ∧ '\r' ∉ Text.strip text := by
  have hall := flatten_splitLines text
  constructor
  · intro h
    constructor
    · -- the characters that are no blanks are all in the complete lines
      have hfilter : (splitLines text).1.flatten.filter (fun c => !Text.isSpace c) =
          (splitLines text).1.flatten.filter (fun c => !Text.isSpace c) ++
            (splitLines text).2.filter (fun c => !Text.isSpace c) := by
        rw [← List.filter_append, hall, filter_universal, ← Text.filter_strip text, ← h,
          Text.filter_strip]
      have hnone := List.append_right_eq_self.mp hfilter.symm
      intro c hc
      simpa using List.filter_eq_nil_iff.mp hnone c hc
    · rw [← h]
      obtain ⟨a, b, _, _, hstrip⟩ := Text.exists_strip (splitLines text).1.flatten
      intro hmem
      apply cr_notMem_universal false text
      rw [← hall, hstrip]
      simp [hmem]
  · rintro ⟨hblank, hcr⟩
    rw [← Text.strip_append_blank _ hblank, hall, strip_universal hcr]

end Lines
end Ucser
