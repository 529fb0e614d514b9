import Mathlib.Data.List.Infix

/-!
# Texts with marks put in

A text some of whose characters have a mark put in front of them.

* `Marked`, `plain`, `render` — the text, without the marks and with them.
* `expand` — every character replaced by a text, in front of which its mark stays.
* `Spared` — a word stands in the text, and no mark stands inside it.
* `infix_render_iff` — **a word without the mark is found** exactly if it is spared somewhere.
-/

namespace Ucser
namespace Marks

variable {α : Type}

/-- A text, and for each of its characters whether a mark is put in front of it. -/
abbrev Marked (α : Type) := List (Bool × α)

/-- The text without the marks. -/
def plain (l : Marked α) : List α := l.map Prod.snd

/-- The text with the marks. -/
def render (mark : α) : Marked α → List α
  | [] => []
  | (true, c) :: l => mark :: c :: render mark l
  | (false, c) :: l => c :: render mark l

/-- Every character replaced by a text. -/
def expand (f : α → List α) : Marked α → Marked α
  | [] => []
  | (marked, c) :: l =>
      match f c with
      | [] => expand f l
      | d :: ds => (marked, d) :: (ds.map (false, ·) ++ expand f l)

/-- The word stands somewhere in the text, without a mark inside it. -/
def Spared (word : List α) (l : Marked α) : Prop :=
  ∃ before marked c rest after, l = before ++ (marked, c) :: (rest ++ after) ∧
    c :: plain rest = word ∧ ∀ p ∈ rest, p.1 = false

variable {mark : α} {l : Marked α} {word : List α}

theorem render_unmarked_append {rest : Marked α} (h : ∀ p ∈ rest, p.1 = false) (l : Marked α) :
    render mark (rest ++ l) = plain rest ++ render mark l := by
  induction rest with
  | nil => rfl
  | cons p rest ih =>
      obtain ⟨marked, c⟩ := p
      obtain rfl : marked = false := h _ List.mem_cons_self
      exact congrArg (c :: ·) (ih fun p hp => h p (List.mem_cons_of_mem _ hp))

/-! ## Replacing characters -/

/-- Marks that stay as they are can be put in before or after. -/
theorem render_expand {f : α → List α} (hmark : f mark = [mark]) (hne : ∀ c, f c ≠ [])
    (l : Marked α) : render mark (expand f l) = (render mark l).flatMap f := by
  induction l with
  | nil => rfl
  | cons p l ih =>
      obtain ⟨marked, c⟩ := p
      obtain ⟨d, ds, hf⟩ := List.exists_cons_of_ne_nil (hne c)
      have hrest : render mark (ds.map (false, ·) ++ expand f l) =
          ds ++ (render mark l).flatMap f := by
        rw [render_unmarked_append (by simp), ih, plain, List.map_map]
        simp [Function.comp_def]
      cases marked with
      | true => simp [expand, hf, render, hrest, hmark]
      | false => simp [expand, hf, render, hrest]

/-! ## Words -/

/-- A text that goes on with a character other than the mark has it without one. -/
theorem cons_prefix_render_iff {c : α} (hc : c ≠ mark) :
    c :: word <+: render mark l ↔ ∃ l', l = (false, c) :: l' ∧ word <+: render mark l' := by
  match l with
  | [] => simp [render]
  | (true, d) :: l =>
      rw [render, List.cons_prefix_cons]
      simp [hc]
  | (false, d) :: l =>
      rw [render, List.cons_prefix_cons]
      simp [eq_comm]

/-- A text that goes on with the mark and another character has it in front of this one, or
as a character of its own. -/
theorem mark_prefix_render_iff {c : α} :
    mark :: c :: word <+: render mark l ↔
      (∃ l', l = (true, c) :: l' ∧ word <+: render mark l') ∨
        ∃ l', l = (false, mark) :: l' ∧ c :: word <+: render mark l' := by
  match l with
  | [] => simp [render]
  | (true, d) :: l =>
      rw [render, List.cons_prefix_cons, List.cons_prefix_cons]
      simp [eq_comm]
  | (false, d) :: l =>
      rw [render, List.cons_prefix_cons]
      simp [eq_comm]

/-- A word without the mark begins a text exactly if it stands there without marks. -/
theorem prefix_render_iff (h : mark ∉ word) :
    word <+: render mark l ↔
      ∃ rest after, l = rest ++ after ∧ plain rest = word ∧ ∀ p ∈ rest, p.1 = false := by
  constructor
  · intro hprefix
    induction word generalizing l with
    | nil => exact ⟨[], l, rfl, rfl, by simp⟩
    | cons c word ih =>
        obtain ⟨hc, hword⟩ := not_or.mp (mt List.mem_cons.mpr h)
        obtain ⟨l', rfl, hl'⟩ := (cons_prefix_render_iff (Ne.symm hc)).mp hprefix
        obtain ⟨rest, after, rfl, rfl, hrest⟩ := ih hword hl'
        refine ⟨(false, c) :: rest, after, rfl, rfl, fun p hp => ?_⟩
        rcases List.mem_cons.mp hp with rfl | hp
        · rfl
        · exact hrest p hp
  · rintro ⟨rest, after, rfl, rfl, hrest⟩
    rw [render_unmarked_append hrest]
    exact List.prefix_append _ _

/-- Where a word can begin in the text: with a character, behind its mark if it has one. -/
theorem infix_render_cons {c : α} (hc : c ≠ mark) {marked : Bool} {d : α} :
    c :: word <:+: render mark ((marked, d) :: l) ↔
      c :: word <+: d :: render mark l ∨ c :: word <:+: render mark l := by
  cases marked with
  | true =>
      rw [render, List.infix_cons_iff, List.infix_cons_iff, List.cons_prefix_cons]
      simp [hc]
  | false => rw [render, List.infix_cons_iff]

/-- A word that does not begin with the mark is found where its first character stands and the
rest follows.  By induction on the text. -/
theorem infix_render_iff_exists {c : α} (hc : c ≠ mark) :
    c :: word <:+: render mark l ↔
      ∃ before marked after, l = before ++ (marked, c) :: after ∧ word <+: render mark after := by
  constructor
  · intro hinfix
    induction l with
    | nil => exact absurd hinfix (by simp [render])
    | cons p l ih =>
        obtain ⟨marked, d⟩ := p
        rcases (infix_render_cons hc).mp hinfix with hprefix | hlater
        · obtain ⟨rfl, hbehind⟩ := List.cons_prefix_cons.mp hprefix
          exact ⟨[], marked, l, rfl, hbehind⟩
        · obtain ⟨before, marked', after, rfl, hbehind⟩ := ih hlater
          exact ⟨(marked, d) :: before, marked', after, rfl, hbehind⟩
  · rintro ⟨before, marked, after, rfl, hbehind⟩
    induction before with
    | nil => exact (infix_render_cons hc).mpr (Or.inl (List.cons_prefix_cons.mpr ⟨rfl, hbehind⟩))
    | cons p before ih => exact (infix_render_cons hc).mpr (Or.inr ih)

theorem infix_of_spared {c : α} (hc : c ≠ mark) (h : Spared (c :: word) l) :
    c :: word <:+: render mark l := by
  obtain ⟨before, marked, c', rest, after, rfl, hspells, hrest⟩ := h
  obtain ⟨rfl, rfl⟩ := List.cons.inj hspells
  refine (infix_render_iff_exists hc).mpr ⟨before, marked, rest ++ after, rfl, ?_⟩
  rw [render_unmarked_append hrest]
  exact List.prefix_append _ _

/-- **A word without the mark is found** exactly if it is spared somewhere. -/
theorem infix_render_iff (hne : word ≠ []) (h : mark ∉ word) :
    word <:+: render mark l ↔ Spared word l := by
  obtain ⟨c, word, rfl⟩ := List.exists_cons_of_ne_nil hne
  obtain ⟨hc, hword⟩ := not_or.mp (mt List.mem_cons.mpr h)
  refine ⟨fun hinfix => ?_, infix_of_spared (Ne.symm hc)⟩
  obtain ⟨before, marked, after, rfl, hbehind⟩ := (infix_render_iff_exists (Ne.symm hc)).mp hinfix
  obtain ⟨rest, after, rfl, rfl, hrest⟩ := (prefix_render_iff hword).mp hbehind
  exact ⟨before, marked, c, rest, after, rfl, rfl, hrest⟩

/-- The word stands somewhere in the text, with a mark behind its first character and no
other inside it. -/
def SplitOnce (first second : α) (word : List α) (l : Marked α) : Prop :=
  ∃ before marked rest after, l = before ++ (marked, first) :: (true, second) :: (rest ++ after) ∧
    plain rest = word ∧ ∀ p ∈ rest, p.1 = false

/-- **A word with one mark, behind its first character, is found** where the mark belongs to
the text and the word is spared, or where the mark has been put in. -/
theorem infix_render_mark_iff {first second : α} (hfirst : first ≠ mark)
    (h : mark ∉ second :: word) :
    first :: mark :: second :: word <:+: render mark l ↔
      Spared (first :: mark :: second :: word) l ∨ SplitOnce first second word l := by
  obtain ⟨-, hword⟩ := not_or.mp (mt List.mem_cons.mpr h)
  constructor
  · intro hinfix
    obtain ⟨before, marked, after, rfl, hbehind⟩ := (infix_render_iff_exists hfirst).mp hinfix
    obtain ⟨after, rfl, hafter⟩ | ⟨after, rfl, hafter⟩ := mark_prefix_render_iff.mp hbehind
    · obtain ⟨rest, after, rfl, rfl, hrest⟩ := (prefix_render_iff hword).mp hafter
      exact Or.inr ⟨before, marked, rest, after, rfl, rfl, hrest⟩
    · obtain ⟨rest, after, rfl, hspells, hrest⟩ := (prefix_render_iff h).mp hafter
      refine Or.inl ⟨before, marked, first, (false, mark) :: rest, after, rfl, ?_, fun p hp => ?_⟩
      · rw [plain, List.map_cons, ← plain, hspells]
      · rcases List.mem_cons.mp hp with rfl | hp
        · rfl
        · exact hrest p hp
  · rintro (hspared | ⟨before, marked, rest, after, rfl, rfl, hrest⟩)
    · exact infix_of_spared hfirst hspared
    · refine (infix_render_iff_exists hfirst).mpr ⟨before, marked,
        (true, second) :: (rest ++ after), rfl, mark_prefix_render_iff.mpr (Or.inl ⟨_, rfl, ?_⟩)⟩
      exact (prefix_render_iff hword).mpr ⟨rest, after, rfl, rfl, hrest⟩

end Marks
end Ucser
