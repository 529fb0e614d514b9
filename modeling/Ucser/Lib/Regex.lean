import Mathlib.Computability.RegularExpressions
import Ucser.Lib.Text

/-!
# Regular expressions written as text

A part of Python's `re` over the regular expressions of Mathlib: literals, classes, groups,
alternatives, stars and pluses.  A `{` that begins no repetition stands for itself, and an
alternative may be empty.

* `search`, `search_iff` — what `re.search` finds.
* `oneOf`, `followed` — one character of a list, and an expression followed by a text.
* `variants` — the characters a literal stands for when case is ignored.
* `compile` — the expression a pattern is written for.
-/

namespace Ucser
namespace Regex

open RegularExpression

/-! ## Searching -/

/-- `re.search`. -/
def search (P : RegularExpression Char) (s : List Char) : Bool :=
  s.tails.any fun t => t.inits.any fun q => P.rmatch q

variable {P Q : RegularExpression Char} {s q : List Char}

/-- **What is searched for is found** wherever it stands. -/
theorem search_iff :
    search P s = true ↔ ∃ before q after, s = before ++ q ++ after ∧ q ∈ P.matches' := by
  simp only [search, List.any_eq_true, List.mem_tails, List.mem_inits, rmatch_iff_matches']
  constructor
  · rintro ⟨t, ⟨before, rfl⟩, q, ⟨after, rfl⟩, hq⟩
    exact ⟨before, q, after, by rw [List.append_assoc], hq⟩
  · rintro ⟨before, q, after, rfl, hq⟩
    exact ⟨q ++ after, ⟨before, by rw [List.append_assoc]⟩, q, List.prefix_append q after, hq⟩

/-- An expression that matches nothing at all is found in every text. -/
theorem search_of_nil_mem (h : [] ∈ P.matches') (s : List Char) : search P s = true :=
  search_iff.mpr ⟨[], [], s, rfl, h⟩

theorem mem_matches'_mul : q ∈ (P * Q).matches' ↔
    ∃ q₁ q₂, q = q₁ ++ q₂ ∧ q₁ ∈ P.matches' ∧ q₂ ∈ Q.matches' := by
  rw [matches'_mul, Language.mem_mul]
  constructor
  · rintro ⟨q₁, h₁, q₂, h₂, rfl⟩
    exact ⟨q₁, q₂, rfl, h₁, h₂⟩
  · rintro ⟨q₁, q₂, rfl, h₁, h₂⟩
    exact ⟨q₁, h₁, q₂, h₂, rfl⟩

/-! ## Characters -/

/-- One character of a list. -/
def oneOf (cs : List Char) : RegularExpression Char :=
  cs.foldr (fun c P => char c + P) 0

theorem mem_oneOf {cs : List Char} : q ∈ (oneOf cs).matches' ↔ ∃ c ∈ cs, q = [c] := by
  induction cs with
  | nil => exact iff_of_false id (by simp)
  | cons c cs ih =>
      have hcons : oneOf (c :: cs) = char c + oneOf cs := rfl
      rw [hcons, matches'_add, Language.mem_add, ih, matches'_char]
      constructor
      · rintro (rfl | ⟨d, hd, rfl⟩)
        · exact ⟨c, List.mem_cons_self, rfl⟩
        · exact ⟨d, List.mem_cons_of_mem c hd, rfl⟩
      · rintro ⟨d, hd, rfl⟩
        rcases List.mem_cons.mp hd with rfl | hd
        · exact Or.inl rfl
        · exact Or.inr ⟨d, hd, rfl⟩

/-- One character of a list, any number of times. -/
theorem mem_star_oneOf {cs : List Char} :
    q ∈ (oneOf cs).star.matches' ↔ ∀ c ∈ q, c ∈ cs := by
  rw [matches'_star, Language.mem_kstar]
  constructor
  · rintro ⟨parts, rfl, hparts⟩ c hc
    obtain ⟨part, hpart, hc⟩ := List.mem_flatten.mp hc
    obtain ⟨d, hd, rfl⟩ := mem_oneOf.mp (hparts part hpart)
    rwa [List.mem_singleton.mp hc]
  · intro h
    refine ⟨q.map ([·]), (List.flatMap_singleton' q).symm, fun part hpart => ?_⟩
    obtain ⟨c, hc, rfl⟩ := List.mem_map.mp hpart
    exact mem_oneOf.mpr ⟨c, h c hc, rfl⟩

/-- `\s`. -/
def spaces : List Char :=
  ([9, 10, 11, 12, 13, 28, 29, 30, 31, 32, 0x85, 0xA0, 0x1680, 0x2000, 0x2001, 0x2002, 0x2003,
    0x2004, 0x2005, 0x2006, 0x2007, 0x2008, 0x2009, 0x200A, 0x2028, 0x2029, 0x202F, 0x205F,
    0x3000] : List Nat).map Char.ofNat

theorem mem_spaces {c : Char} : c ∈ spaces ↔ Text.isSpace c = true := by
  constructor
  · intro h
    have hall : spaces.all Text.isSpace = true := by decide
    exact List.all_eq_true.mp hall c h
  · intro h
    refine List.mem_map.mpr ⟨c.toNat, ?_, Char.ofNat_toNat c⟩
    simp only [Text.isSpace, Bool.or_eq_true, Bool.and_eq_true, decide_eq_true_eq, beq_iff_eq] at h
    simp only [List.mem_cons, List.not_mem_nil, or_false]
    omega

/-- Any number of blanks. -/
theorem mem_star_spaces : q ∈ (oneOf spaces).star.matches' ↔ Text.Blank q := by
  rw [mem_star_oneOf]
  exact forall₂_congr fun c _ => mem_spaces

/-- At least one blank. -/
theorem mem_plus_spaces :
    q ∈ (oneOf spaces * (oneOf spaces).star).matches' ↔ Text.Blank q ∧ q ≠ [] := by
  rw [mem_matches'_mul]
  constructor
  · rintro ⟨q₁, q₂, rfl, h₁, h₂⟩
    obtain ⟨c, hc, rfl⟩ := mem_oneOf.mp h₁
    refine ⟨fun d hd => ?_, by simp⟩
    rcases List.mem_cons.mp hd with rfl | hd
    · exact mem_spaces.mp hc
    · exact mem_star_spaces.mp h₂ d hd
  · rintro ⟨hblank, hne⟩
    obtain ⟨c, cs, rfl⟩ := List.exists_cons_of_ne_nil hne
    refine ⟨[c], cs, rfl, mem_oneOf.mpr ⟨c, ?_, rfl⟩, mem_star_spaces.mpr fun d hd => ?_⟩
    · exact mem_spaces.mpr (hblank c List.mem_cons_self)
    · exact hblank d (List.mem_cons_of_mem c hd)

/-! ## Ignoring case -/

/-- The characters a literal in ASCII stands for when case is ignored: the letter in both
cases, and the four characters outside ASCII that have it for one of their cases. -/
def variants (c : Char) : List Char :=
  [c.toLower, c.toUpper] ++
    (if c.toLower = 'i' then ['\u0130', '\u0131'] else []) ++
    (if c.toLower = 'k' then ['\u212a'] else []) ++
    (if c.toLower = 's' then ['\u017f'] else [])

/-- The text is the word, but for the case of its letters. -/
def Spells (word text : List Char) : Prop := List.Forall₂ (fun c d => d ∈ variants c) word text

instance (word text : List Char) : Decidable (Spells word text) :=
  inferInstanceAs (Decidable (List.Forall₂ _ word text))

/-- The character of a pattern. -/
def literal (ignoreCase : Bool) (c : Char) : RegularExpression Char :=
  if ignoreCase then oneOf (variants c) else char c

/-- An expression, and behind it a text. -/
def followed (ignoreCase : Bool) (P : RegularExpression Char) (word : List Char) :
    RegularExpression Char :=
  word.foldl (fun P c => P * literal ignoreCase c) P

theorem mem_followed {word : List Char} : q ∈ (followed true P word).matches' ↔
    ∃ q₁ q₂, q = q₁ ++ q₂ ∧ q₁ ∈ P.matches' ∧ Spells word q₂ := by
  induction word generalizing P with
  | nil =>
      constructor
      · exact fun h => ⟨q, [], (List.append_nil q).symm, h, List.Forall₂.nil⟩
      · rintro ⟨q₁, q₂, rfl, h, hspells⟩
        rwa [List.forall₂_nil_left_iff.mp hspells, List.append_nil]
  | cons c word ih =>
      have hcons : followed true P (c :: word) = followed true (P * oneOf (variants c)) word := rfl
      rw [hcons, ih]
      constructor
      · rintro ⟨q', q₂, rfl, hq', hspells⟩
        obtain ⟨q₁, qc, rfl, hq₁, hqc⟩ := mem_matches'_mul.mp hq'
        obtain ⟨d, hd, rfl⟩ := mem_oneOf.mp hqc
        exact ⟨q₁, d :: q₂, by simp, hq₁, List.Forall₂.cons hd hspells⟩
      · rintro ⟨q₁, q₂, rfl, hq₁, hspells⟩
        obtain ⟨d, q₂, hd, hrest, rfl⟩ := List.forall₂_cons_left_iff.mp hspells
        exact ⟨q₁ ++ [d], q₂, by simp,
          mem_matches'_mul.mpr ⟨q₁, [d], rfl, hq₁, mem_oneOf.mpr ⟨d, hd, rfl⟩⟩, hrest⟩

/-! ## Patterns -/

/-- What has been read of a group: its closed alternatives, the sequence since, and the last
item of it, as long as a repetition can apply to it. -/
structure Frame where
  alternatives : Option (RegularExpression Char) := none
  front : Option (RegularExpression Char) := none
  last : Option (RegularExpression Char) := none

namespace Frame

/-- The sequence that is being read. -/
def sequence (f : Frame) : Option (RegularExpression Char) :=
  match f.front, f.last with
  | some P, some Q => some (P * Q)
  | none, last => last
  | front, none => front

def push (f : Frame) (P : RegularExpression Char) : Frame :=
  { f with front := f.sequence, last := some P }

/-- The last item is repeated, and cannot be repeated again. -/
def repeated (f : Frame) (repetition : RegularExpression Char → RegularExpression Char) :
    Option Frame :=
  f.last.map fun P =>
    { f with front := ({ f with last := some (repetition P) } : Frame).sequence, last := none }

/-- The group, with an empty sequence if there is none. -/
def close (f : Frame) : RegularExpression Char :=
  match f.alternatives with
  | some P => P + f.sequence.getD 1
  | none => f.sequence.getD 1

end Frame

/-- The characters of a range. -/
def range (first last : Char) : List Char :=
  (List.range' first.toNat (last.toNat + 1 - first.toNat)).map Char.ofNat

/-- A class behind its bracket: its characters, and what follows it. -/
def readClass : List Char → Option (List Char × List Char)
  | [] => none
  | ']' :: rest => some ([], rest)
  | '\\' :: c :: rest =>
      if c.isAlphanum then none else (readClass rest).map fun (cs, rest) => (c :: cs, rest)
  | c :: '-' :: d :: rest =>
      if d = ']' then none
      else (readClass rest).map fun (cs, rest) => (range c d ++ cs, rest)
  | c :: rest => (readClass rest).map fun (cs, rest) => (c :: cs, rest)

/-- `\w`, in ASCII. -/
def wordChars : List Char := range 'A' 'Z' ++ range 'a' 'z' ++ range '0' '9' ++ ['_']

/-- What an escape stands for: a class, or the character itself. -/
def escaped (ignoreCase : Bool) (c : Char) : Option (RegularExpression Char) :=
  if c = 's' then some (oneOf spaces)
  else if c = 'w' then some (oneOf wordChars)
  else if c.isAlphanum then none
  else some (literal ignoreCase c)

/-- Reads a pattern, inside the groups that are open; `none` for what is no pattern or goes
beyond this part of the language. -/
def compileFrom (ignoreCase : Bool) :
    Nat → Frame → List Frame → List Char → Option (RegularExpression Char)
  | 0, _, _, _ => none
  | _ + 1, f, [], [] => some f.close
  | _ + 1, _, _ :: _, [] => none
  | fuel + 1, f, groups, c :: rest =>
      if c = '(' then
        if rest.head? = some '?' then none
        else compileFrom ignoreCase fuel {} (f :: groups) rest
      else if c = ')' then
        match groups with
        | [] => none
        | outer :: groups => compileFrom ignoreCase fuel (outer.push f.close) groups rest
      else if c = '|' then
        compileFrom ignoreCase fuel { alternatives := some f.close } groups rest
      else if c = '*' then
        (f.repeated star).bind fun f => compileFrom ignoreCase fuel f groups rest
      else if c = '+' then
        (f.repeated fun P => P * P.star).bind fun f => compileFrom ignoreCase fuel f groups rest
      else if c = '[' then
        if rest.head? = some '^' ∨ rest.head? = some ']' then none
        else
          (readClass rest).bind fun (cs, rest) =>
            let cs := if ignoreCase then cs.flatMap variants else cs
            compileFrom ignoreCase fuel (f.push (oneOf cs)) groups rest
      else if c = '\\' then
        match rest with
        | [] => none
        | c :: rest =>
            (escaped ignoreCase c).bind fun P =>
              compileFrom ignoreCase fuel (f.push P) groups rest
      else if c ∈ ['.', '^', '$', '?'] then none
      else if c = '{' ∧ rest.head?.any (fun d => d.isDigit || d = ',') then none
      else compileFrom ignoreCase fuel (f.push (literal ignoreCase c)) groups rest

/-- `re.compile`. -/
def compile (ignoreCase : Bool) (pattern : String) : Option (RegularExpression Char) :=
  compileFrom ignoreCase (pattern.toList.length + 1) {} [] pattern.toList

end Regex
end Ucser
