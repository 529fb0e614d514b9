import Mathlib.Algebra.BigOperators.Group.List.Basic
import Ucser.Lib.Text

/-!
# One record on each line

A text with one record on each line, for any characters at which a line ends, and a reader
that strips the lines, skips the blank ones and reads the others.

* `lines` — the lines of a text; `lines_append_end`, `lines_append` — a line end in the middle.
* `join` — the records with a line end between them.
* `Solid` — a text that neither starts nor ends with a blank.
* `readLines_join` — what is read from the joined records is read record by record.
* `readLines_join_iff` — **the records come back exactly when none has a line end inside.**
-/

namespace Ucser
namespace TextRecords

variable (isBreak : Char → Bool)

/-- The lines of a text, without their ends; behind the last end there is a line only if
there is a character. -/
def lines : List Char → List (List Char)
  | [] => []
  | c :: cs =>
      if isBreak c then [] :: lines cs
      else
        match lines cs with
        | [] => [[c]]
        | line :: rest => (c :: line) :: rest

/-- The lines that are not blank, stripped and read. -/
def readLines {α : Type} (read : List Char → α) (text : List Char) : List α :=
  (((lines isBreak text).map Text.strip).filter (fun line => !line.isEmpty)).map read

/-- The texts with a separator between them. -/
def join (sep : Char) : List (List Char) → List Char
  | [] => []
  | [text] => text
  | text :: rest => text ++ sep :: join sep rest

/-- The text neither starts nor ends with a blank, and is not empty. -/
structure Solid (text : List Char) : Prop where
  ne_nil : text ≠ []
  head : ∀ c ∈ text.head?, Text.isSpace c = false
  last : ∀ c ∈ text.getLast?, Text.isSpace c = false

variable {isBreak}

theorem lines_cons_of_break {c : Char} (h : isBreak c = true) (cs : List Char) :
    lines isBreak (c :: cs) = [] :: lines isBreak cs := by
  rw [lines, if_pos h]

/-- A text without a line end is one line, in front of whatever follows a line end. -/
theorem lines_append_break {a : List Char} (ha : ∀ c ∈ a, isBreak c = false) {c : Char}
    (hc : isBreak c = true) (b : List Char) :
    lines isBreak (a ++ c :: b) = a :: lines isBreak b := by
  induction a with
  | nil => exact lines_cons_of_break hc b
  | cons d ds ih =>
      obtain ⟨hd, hds⟩ := List.forall_mem_cons.mp ha
      rw [List.cons_append, lines, if_neg (by simp [hd]), ih hds]

theorem lines_eq_nil_iff {text : List Char} : lines isBreak text = [] ↔ text = [] := by
  cases text with
  | nil => exact iff_of_true rfl rfl
  | cons c cs =>
      refine iff_of_false ?_ (List.cons_ne_nil c cs)
      rw [lines]
      split_ifs
      · simp
      · cases lines isBreak cs <;> simp

/-- The lines up to a line end, and those behind it.  By induction on what stands before it. -/
theorem lines_append_end {c : Char} (hc : isBreak c = true) (a b : List Char) :
    lines isBreak (a ++ c :: b) = lines isBreak (a ++ [c]) ++ lines isBreak b := by
  induction a with
  | nil => simp [lines, hc]
  | cons d ds ih =>
      rw [List.cons_append, List.cons_append, lines, lines, ih]
      split_ifs with hd
      · rfl
      · cases hlines : lines isBreak (ds ++ [c]) with
        | nil => exact absurd (lines_eq_nil_iff.mp hlines) (by simp)
        | cons line rest => rfl

/-- A line has no line end in it, and no other characters than the text. -/
theorem mem_of_mem_lines {text : List Char} :
    ∀ line ∈ lines isBreak text, ∀ c ∈ line, c ∈ text ∧ isBreak c = false := by
  induction text with
  | nil => intro line hline; exact absurd hline List.not_mem_nil
  | cons d text ih =>
      have hrest : ∀ line ∈ lines isBreak text, ∀ c ∈ line,
          c ∈ d :: text ∧ isBreak c = false := fun line hline c hc =>
        ⟨List.mem_cons_of_mem d (ih line hline c hc).1, (ih line hline c hc).2⟩
      intro line hline c hc
      rw [lines] at hline
      split_ifs at hline with hd
      · rcases List.mem_cons.mp hline with rfl | hline
        · exact absurd hc List.not_mem_nil
        · exact hrest line hline c hc
      · have hfirst : c = d → c ∈ d :: text ∧ isBreak c = false := by
          rintro rfl
          exact ⟨List.mem_cons_self, Bool.eq_false_iff.mpr hd⟩
        cases hlines : lines isBreak text with
        | nil =>
            rw [hlines, List.mem_singleton] at hline
            rw [hline, List.mem_singleton] at hc
            exact hfirst hc
        | cons line' rest =>
            rw [hlines] at hline hrest
            rcases List.mem_cons.mp hline with rfl | hline
            · rcases List.mem_cons.mp hc with hc | hc
              · exact hfirst hc
              · exact hrest line' List.mem_cons_self c hc
            · exact hrest line (List.mem_cons_of_mem _ hline) c hc

theorem lines_of_unbroken {a : List Char} (ha : ∀ c ∈ a, isBreak c = false) (hne : a ≠ []) :
    lines isBreak a = [a] := by
  induction a with
  | nil => exact absurd rfl hne
  | cons d ds ih =>
      obtain ⟨hd, hds⟩ := List.forall_mem_cons.mp ha
      rw [lines, if_neg (by simp [hd])]
      cases ds with
      | nil => rfl
      | cons e es => rw [ih hds (List.cons_ne_nil e es)]

/-- **A line end in the middle**: the lines before it and the lines behind it, if the text
before it does not itself end a line. -/
theorem lines_append {a : List Char} (hne : a ≠ []) (hlast : ∀ c ∈ a.getLast?, isBreak c = false)
    {c : Char} (hc : isBreak c = true) (b : List Char) :
    lines isBreak (a ++ c :: b) = lines isBreak a ++ lines isBreak b := by
  induction a with
  | nil => exact absurd rfl hne
  | cons d ds ih =>
      cases ds with
      | nil =>
          have hd : isBreak d = false := hlast d rfl
          rw [lines_of_unbroken (a := [d]) (by simpa using hd) hne]
          exact lines_append_break (by simpa using hd) hc b
      | cons e es =>
          have hrest := ih (List.cons_ne_nil e es) (by simpa using hlast)
          rw [List.cons_append, lines, lines, hrest]
          split_ifs
          · rfl
          · obtain ⟨line, rest, hlines⟩ : ∃ line rest, lines isBreak (e :: es) = line :: rest := by
              rw [lines]
              split_ifs
              · exact ⟨_, _, rfl⟩
              · split
                · exact ⟨_, _, rfl⟩
                · exact ⟨_, _, rfl⟩
            rw [hlines]
            rfl

/-- Every character that ends no line is on a line. -/
theorem exists_line {text : List Char} {c : Char} (h : c ∈ text) (hc : isBreak c = false) :
    ∃ line ∈ lines isBreak text, c ∈ line := by
  induction text with
  | nil => exact absurd h List.not_mem_nil
  | cons d ds ih =>
      rw [lines]
      rcases List.mem_cons.mp h with rfl | hmem
      · rw [if_neg (by simp [hc])]
        split
        · exact ⟨_, List.mem_cons_self, List.mem_cons_self⟩
        · exact ⟨_, List.mem_cons_self, List.mem_cons_self⟩
      · obtain ⟨line, hline, hcline⟩ := ih hmem
        split_ifs
        · exact ⟨line, List.mem_cons_of_mem _ hline, hcline⟩
        · split
          · rename_i hnil
            rw [hnil] at hline
            exact absurd hline List.not_mem_nil
          · rename_i first rest heq
            rw [heq] at hline
            rcases List.mem_cons.mp hline with rfl | hrest
            · exact ⟨_, List.mem_cons_self, List.mem_cons_of_mem _ hcline⟩
            · exact ⟨line, List.mem_cons_of_mem _ hrest, hcline⟩

theorem mem_join {sep c : Char} {texts : List (List Char)} (h : c ∈ join sep texts) :
    c = sep ∨ ∃ text ∈ texts, c ∈ text := by
  induction texts with
  | nil => exact absurd h List.not_mem_nil
  | cons text rest ih =>
      cases rest with
      | nil => exact Or.inr ⟨text, List.mem_cons_self, h⟩
      | cons next later =>
          rcases List.mem_append.mp h with hmem | hmem
          · exact Or.inr ⟨text, List.mem_cons_self, hmem⟩
          · rcases List.mem_cons.mp hmem with rfl | hmem
            · exact Or.inl rfl
            · refine (ih hmem).imp_right ?_
              rintro ⟨text', htext', hc⟩
              exact ⟨text', List.mem_cons_of_mem _ htext', hc⟩

/-! ## Reading the lines -/

section Read

variable {α : Type} (read : List Char → α)

theorem readLines_of_lines {text a b : List Char}
    (h : lines isBreak text = lines isBreak a ++ lines isBreak b) :
    readLines isBreak read text = readLines isBreak read a ++ readLines isBreak read b := by
  rw [readLines, h, List.map_append, List.filter_append, List.map_append]
  rfl

/-- A text with a character that is no blank has a line to be read. -/
theorem one_le_length_readLines (hspace : ∀ c, isBreak c = true → Text.isSpace c = true)
    {text : List Char} {c : Char} (h : c ∈ text) (hc : Text.isSpace c = false) :
    1 ≤ (readLines isBreak read text).length := by
  have hbreak : isBreak c = false := by
    by_contra hne
    rw [hspace c (Bool.eq_true_of_not_eq_false hne)] at hc
    exact absurd hc (by simp)
  obtain ⟨line, hline, hcline⟩ := exists_line h hbreak
  rw [readLines, List.length_map]
  refine List.length_pos_of_mem (List.mem_filter.mpr ⟨List.mem_map_of_mem hline, ?_⟩)
  simpa using Text.strip_ne_nil hcline hc

/-- A solid text without a line end inside is read as a whole. -/
theorem readLines_of_unbroken {text : List Char} (hsolid : Solid text)
    (h : ∀ c ∈ text, isBreak c = false) : readLines isBreak read text = [read text] := by
  have hstrip := Text.strip_eq_self_iff.mpr ⟨hsolid.head, hsolid.last⟩
  rw [readLines, lines_of_unbroken h hsolid.ne_nil]
  simp [hstrip, hsolid.ne_nil]

/-- The first line end of a solid text: before it stands its first character, behind it
its last one. -/
theorem Solid.exists_break (hspace : ∀ c, isBreak c = true → Text.isSpace c = true)
    {text : List Char} (hsolid : Solid text) (h : ¬ ∀ c ∈ text, isBreak c = false) :
    ∃ a e b, text = a ++ e :: b ∧ (∀ c ∈ a, isBreak c = false) ∧ isBreak e = true ∧
      (∃ c ∈ a, Text.isSpace c = false) ∧ ∃ c ∈ b, Text.isSpace c = false := by
  obtain ⟨e, b, hdrop⟩ : ∃ e b, text.dropWhile (fun c => !isBreak c) = e :: b := by
    refine List.exists_cons_of_ne_nil fun hnil => h fun c hc => ?_
    simpa using List.dropWhile_eq_nil_iff.mp hnil c hc
  have hsplit : text = text.takeWhile (fun c => !isBreak c) ++ e :: b := by
    rw [← hdrop, List.takeWhile_append_dropWhile]
  have hbreak : isBreak e = true := by
    have hhead := List.head?_dropWhile_not (fun c => !isBreak c) text
    rw [hdrop] at hhead
    simpa using hhead
  have hblank : Text.isSpace e ≠ false := by rw [hspace e hbreak]; simp
  refine ⟨text.takeWhile (fun c => !isBreak c), e, b, hsplit, ?_, hbreak, ?_, ?_⟩
  · intro c hc
    simpa using List.mem_takeWhile_imp hc
  · cases ha : text.takeWhile (fun c => !isBreak c) with
    | nil =>
        rw [ha, List.nil_append] at hsplit
        exact absurd (hsolid.head e (by rw [hsplit]; rfl)) hblank
    | cons c cs =>
        rw [ha] at hsplit
        exact ⟨c, List.mem_cons_self, hsolid.head c (by rw [hsplit]; rfl)⟩
  · obtain rfl | ⟨front, last, rfl⟩ := List.eq_nil_or_concat' b
    · exact absurd (hsolid.last e (by rw [hsplit]; simp)) hblank
    · refine ⟨last, by simp, hsolid.last last ?_⟩
      rw [hsplit, ← List.cons_append, ← List.append_assoc, List.getLast?_concat]
      rfl

/-- A solid text with a line end inside falls apart. -/
theorem two_le_length_readLines (hspace : ∀ c, isBreak c = true → Text.isSpace c = true)
    {text : List Char} (hsolid : Solid text) (h : ¬ ∀ c ∈ text, isBreak c = false) :
    2 ≤ (readLines isBreak read text).length := by
  obtain ⟨a, e, b, rfl, ha, he, ⟨c, hc, hcspace⟩, d, hd, hdspace⟩ := hsolid.exists_break hspace h
  have hlines : lines isBreak (a ++ e :: b) = lines isBreak a ++ lines isBreak b := by
    rw [lines_append_break ha he, lines_of_unbroken ha (List.ne_nil_of_mem hc),
      List.singleton_append]
  have hfirst := one_le_length_readLines read hspace hc hcspace
  have hlast := one_le_length_readLines read hspace hd hdspace
  rw [readLines_of_lines read hlines, List.length_append]
  omega

/-- What is read from joined texts is read text by text. -/
theorem readLines_join (hspace : ∀ c, isBreak c = true → Text.isSpace c = true) {sep : Char}
    (hsep : isBreak sep = true) {texts : List (List Char)} (hsolid : ∀ text ∈ texts, Solid text) :
    readLines isBreak read (join sep texts) = texts.flatMap (readLines isBreak read) := by
  induction texts with
  | nil => rfl
  | cons text rest ih =>
      obtain ⟨htext, hrest⟩ := List.forall_mem_cons.mp hsolid
      cases rest with
      | nil => simp [join]
      | cons next later =>
          have hlast : ∀ c ∈ text.getLast?, isBreak c = false := by
            intro c hc
            by_contra hne
            have hblank := htext.last c hc
            rw [hspace c (Bool.eq_true_of_not_eq_false hne)] at hblank
            exact absurd hblank (by simp)
          rw [join, readLines_of_lines read (lines_append htext.ne_nil hlast hsep _), List.flatMap_cons,
            ih hrest]
          simp

variable {read} in
/-- **The records come back exactly when none has a line end inside.** -/
theorem readLines_join_iff (hspace : ∀ c, isBreak c = true → Text.isSpace c = true) {sep : Char}
    (hsep : isBreak sep = true) {write : α → List Char} {records : List α}
    (hsolid : ∀ x ∈ records, Solid (write x)) (hread : ∀ x ∈ records, read (write x) = x) :
    readLines isBreak read (join sep (records.map write)) = records ↔
      ∀ x ∈ records, ∀ c ∈ write x, isBreak c = false := by
  rw [readLines_join read hspace hsep (by simpa using hsolid), List.flatMap_map]
  constructor
  · intro h x hx
    by_contra hbroken
    -- every record gives at least one line, and a broken one gives two
    have hone : ∀ n ∈ records.map fun y => (readLines isBreak read (write y)).length, 1 ≤ n := by
      intro n hn
      obtain ⟨y, hy, rfl⟩ := List.mem_map.mp hn
      obtain ⟨first, hfirst⟩ : ∃ first, (write y).head? = some first :=
        ⟨_, List.head?_eq_some_head (hsolid y hy).ne_nil⟩
      exact one_le_length_readLines read hspace (List.mem_of_mem_head? hfirst)
        ((hsolid y hy).head first hfirst)
    have htwo := two_le_length_readLines read hspace (hsolid x hx) hbroken
    have hlength := congrArg List.length h
    rw [List.length_flatMap] at hlength
    obtain ⟨before, after, rfl⟩ := List.append_of_mem hx
    simp only [List.map_append, List.map_cons, List.forall_mem_append, List.forall_mem_cons] at hone
    have hbefore := List.length_le_sum_of_one_le _ hone.1
    have hafter := List.length_le_sum_of_one_le _ hone.2.2
    simp only [List.length_map, List.length_append, List.length_cons, List.map_append,
      List.map_cons, List.sum_append, List.sum_cons] at hbefore hafter hlength
    omega
  · intro h
    have hsingle : ∀ x ∈ records, readLines isBreak read (write x) = [x] := by
      intro x hx
      rw [readLines_of_unbroken read (hsolid x hx) (h x hx), hread x hx]
    rw [List.flatMap_congr hsingle, List.flatMap_singleton']

end Read

end TextRecords
end Ucser
