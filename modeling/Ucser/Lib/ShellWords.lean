import Mathlib.Tactic.Common
import Mathlib.Data.List.Infix

/-!
# Word splitting in a POSIX shell

How a shell cuts a line into the words of one simple command, and what single quotes
protect.

* `Mode`, `splitFrom`, `split` — the splitter: blanks, quotes, backslashes, comments.  A line
  that is more than the plain words of one simple command (an operator, a newline, an
  expansion, an unclosed quote) has no words.
* `commandLine` — some plain words, and behind them some texts in single quotes.
* `escapes`, `escapes_splitFrom` — the characters that can protect a quote: **a word with a
  quote in it costs one of them**.
* `split_commandLine_iff` — **single quotes protect a text exactly when no single quote is in
  it**.
-/

namespace Ucser
namespace ShellWords

/-! ## The splitter -/

/-- Where in the line the splitter is. -/
inductive Mode where
  /-- Between two words. -/
  | between
  /-- In a word, outside quotes. -/
  | word
  /-- In single quotes. -/
  | single
  /-- In double quotes. -/
  | double
  /-- Behind a backslash outside quotes; in a word already? -/
  | escape (inWord : Bool)
  /-- Behind a backslash in double quotes. -/
  | doubleEscape
  deriving DecidableEq, Repr

/-- What separates words. -/
def isBlank (c : Char) : Bool := c = ' ' || c = '\t'

/-- The characters that, outside quotes, make a line more than plain words: operators, the
newline, and what begins an expansion. -/
def isSpecial (c : Char) : Bool :=
  ['|', '&', ';', '<', '>', '(', ')', '\n', '$', '\x60', '*', '?', '[', '~'].contains c

/-- The characters a backslash protects in double quotes. -/
def isProtected (c : Char) : Bool := ['$', '\x60', '"', '\\'].contains c

/-- One more character in front of the first word. -/
def push (c : Char) : Option (List (List Char)) → Option (List (List Char))
  | some (word :: words) => some ((c :: word) :: words)
  | _ => none

/-- The words of the rest of a line; in a word, the rest of this word comes first. -/
def splitFrom : Mode → List Char → Option (List (List Char))
  | .between, [] => some []
  | .between, c :: rest =>
      if isBlank c then splitFrom .between rest
      else if c = '#' then if '\n' ∈ rest then none else some []
      else if c = '\'' then splitFrom .single rest
      else if c = '"' then splitFrom .double rest
      else if c = '\\' then splitFrom (.escape false) rest
      else if isSpecial c then none
      else push c (splitFrom .word rest)
  | .word, [] => some [[]]
  | .word, c :: rest =>
      if isBlank c then (splitFrom .between rest).map ([] :: ·)
      else if c = '\'' then splitFrom .single rest
      else if c = '"' then splitFrom .double rest
      else if c = '\\' then splitFrom (.escape true) rest
      else if isSpecial c then none
      else push c (splitFrom .word rest)
  | .single, [] => none
  | .single, c :: rest =>
      if c = '\'' then splitFrom .word rest else push c (splitFrom .single rest)
  | .double, [] => none
  | .double, c :: rest =>
      if c = '"' then splitFrom .word rest
      else if c = '\\' then splitFrom .doubleEscape rest
      else if c = '$' ∨ c = '\x60' then none
      else push c (splitFrom .double rest)
  | .escape _, [] => some [['\\']]
  | .escape inWord, c :: rest =>
      -- a backslash in front of a newline joins two lines
      if c = '\n' then splitFrom (if inWord then .word else .between) rest
      else push c (splitFrom .word rest)
  | .doubleEscape, [] => none
  | .doubleEscape, c :: rest =>
      if c = '\n' then splitFrom .double rest
      else if isProtected c then push c (splitFrom .double rest)
      else push '\\' (push c (splitFrom .double rest))

attribute [grind =] splitFrom

/-- The words of a line. -/
def split (line : List Char) : Option (List (List Char)) := splitFrom .between line

/-! ## Plain words and quoted texts -/

/-- A character that stands for itself outside quotes. -/
def Plain (c : Char) : Prop :=
  isBlank c = false ∧ isSpecial c = false ∧ c ≠ '#' ∧ c ≠ '\'' ∧ c ≠ '"' ∧ c ≠ '\\'

instance (c : Char) : Decidable (Plain c) := inferInstanceAs (Decidable (_ ∧ _))

/-- A word of plain characters. -/
def PlainWord (word : List Char) : Prop := word ≠ [] ∧ ∀ c ∈ word, Plain c

instance (word : List Char) : Decidable (PlainWord word) :=
  @instDecidableAnd _ _ _ (List.decidableBAll _ word)

/-- Texts in single quotes, a blank in front of each. -/
def quoteAll (texts : List (List Char)) : List Char :=
  texts.flatMap fun text => ' ' :: '\'' :: text ++ ['\'']

/-- A command: plain words, and behind them texts in single quotes. -/
def commandLine (words texts : List (List Char)) : List Char :=
  [' '].intercalate words ++ quoteAll texts

theorem push_eq_some {c : Char} {result : Option (List (List Char))} {words : List (List Char)}
    (h : push c result = some words) :
    ∃ word rest, result = some (word :: rest) ∧ words = (c :: word) :: rest := by
  unfold push at h
  split at h
  · exact ⟨_, _, rfl, (Option.some.inj h).symm⟩
  · exact absurd h (by simp)

/-- What stands in single quotes is taken as it is. -/
theorem splitFrom_single {text : List Char} (h : '\'' ∉ text) {rest word : List Char}
    {words : List (List Char)} (hrest : splitFrom .word rest = some (word :: words)) :
    splitFrom .single (text ++ '\'' :: rest) = some ((text ++ word) :: words) := by
  induction text with
  | nil => rw [List.nil_append, splitFrom, if_pos rfl, hrest, List.nil_append]
  | cons c text ih =>
      obtain ⟨hc, htext⟩ := not_or.mp (mt List.mem_cons.mpr h)
      rw [List.cons_append, splitFrom, if_neg (fun heq => hc heq.symm), ih htext]
      rfl

/-- Quoted texts behind a word, which ends there. -/
theorem splitFrom_quoteAll {texts : List (List Char)} (h : ∀ text ∈ texts, '\'' ∉ text) :
    splitFrom .word (quoteAll texts) = some ([] :: texts) := by
  induction texts with
  | nil => rfl
  | cons text texts ih =>
      obtain ⟨htext, htexts⟩ := List.forall_mem_cons.mp h
      have hsplit := splitFrom_single htext (ih htexts)
      have hline : quoteAll (text :: texts) = ' ' :: '\'' :: (text ++ '\'' :: quoteAll texts) := by
        simp [quoteAll]
      rw [hline, splitFrom, if_pos (by decide), splitFrom, if_neg (by decide),
        if_neg (by decide), if_pos rfl, hsplit, List.append_nil]
      rfl

/-- A plain word is taken as it is. -/
theorem splitFrom_plain {word : List Char} (h : ∀ c ∈ word, Plain c) {rest word' : List Char}
    {words : List (List Char)} (hrest : splitFrom .word rest = some (word' :: words)) :
    splitFrom .word (word ++ rest) = some ((word ++ word') :: words) := by
  induction word with
  | nil => exact hrest
  | cons c word ih =>
      obtain ⟨⟨hblank, hspecial, _, hsingle, hdouble, hescape⟩, hword⟩ := List.forall_mem_cons.mp h
      rw [List.cons_append, splitFrom, if_neg (by simp [hblank]), if_neg hsingle, if_neg hdouble,
        if_neg hescape, if_neg (by simp [hspecial]), ih hword]
      rfl

/-- A plain word begins a word. -/
theorem splitFrom_between_plain {word : List Char} (h : PlainWord word) {rest word' : List Char}
    {words : List (List Char)} (hrest : splitFrom .word rest = some (word' :: words)) :
    splitFrom .between (word ++ rest) = some ((word ++ word') :: words) := by
  obtain ⟨hne, hplain⟩ := h
  obtain ⟨c, tail, rfl⟩ := List.exists_cons_of_ne_nil hne
  obtain ⟨⟨hblank, hspecial, hcomment, hsingle, hdouble, hescape⟩, htail⟩ :=
    List.forall_mem_cons.mp hplain
  rw [List.cons_append, splitFrom, if_neg (by simp [hblank]), if_neg hcomment, if_neg hsingle,
    if_neg hdouble, if_neg hescape, if_neg (by simp [hspecial]), splitFrom_plain htail hrest]
  rfl

/-- A command whose texts have no quote in them is cut into its words and these texts. -/
theorem split_commandLine {words texts : List (List Char)} (hne : words ≠ [])
    (hwords : ∀ word ∈ words, PlainWord word) (htexts : ∀ text ∈ texts, '\'' ∉ text) :
    split (commandLine words texts) = some (words ++ texts) := by
  unfold split commandLine
  induction words with
  | nil => exact absurd rfl hne
  | cons word words ih =>
      obtain ⟨hword, hrest⟩ := List.forall_mem_cons.mp hwords
      cases words with
      | nil =>
          rw [List.intercalate_singleton,
            splitFrom_between_plain hword (splitFrom_quoteAll htexts), List.append_nil]
          rfl
      | cons word' words =>
          have hblank : splitFrom .word (' ' :: ([' '].intercalate (word' :: words) ++
              quoteAll texts)) = some ([] :: (word' :: words ++ texts)) := by
            rw [splitFrom, if_pos (by decide), ih (List.cons_ne_nil _ _) hrest]
            rfl
          rw [List.intercalate_cons_of_ne_nil (List.cons_ne_nil word' words), List.append_assoc,
            List.append_assoc]
          have hsplit := splitFrom_between_plain hword hblank
          rw [List.append_nil] at hsplit
          exact hsplit

/-! ## What a quote in a word costs -/

/-- How many characters of a text could protect a quote: backslashes and double quotes. -/
def escapes (text : List Char) : Nat := text.countP fun c => c = '\\' || c = '"'

/-- One, for a text with a quote in it. -/
def quoted (text : List Char) : Nat := if '\'' ∈ text then 1 else 0

theorem quoted_le (text : List Char) : quoted text ≤ 1 := by
  unfold quoted
  split_ifs <;> omega

theorem quoted_cons {c : Char} (hc : c ≠ '\'') (text : List Char) :
    quoted (c :: text) = quoted text := by
  simp [quoted, List.mem_cons, Ne.symm hc]

theorem escapes_cons (c : Char) (text : List Char) :
    escapes (c :: text) = escapes text + escapes [c] := by
  rw [← List.singleton_append, escapes, List.countP_append, Nat.add_comm]
  rfl

theorem escapes_append (text text' : List Char) :
    escapes (text ++ text') = escapes text + escapes text' := List.countP_append

theorem escapes_quote : escapes ['"'] = 1 := rfl

theorem escapes_backslash : escapes ['\\'] = 1 := rfl

/-- What the words of the rest of a line may cost in each mode.  Double quotes have to be
closed, so whoever is in them still has a character to pay with. -/
def Paid : Mode → List Char → List Char → Prop
  | .double, rest, text => escapes text + 1 ≤ escapes rest
  | .doubleEscape, rest, text => escapes text ≤ escapes rest
  | .escape _, rest, text => escapes text + quoted text ≤ escapes rest + 1
  | _, rest, text => escapes text + quoted text ≤ escapes rest

/-- Whatever words the rest of a line has, they are paid for, in every mode. -/
def PaidFor (rest : List Char) : Prop :=
  ∀ {mode : Mode} {words : List (List Char)}, splitFrom mode rest = some words →
    Paid mode rest words.flatten

namespace PaidFor

variable {c : Char} {rest : List Char} {words : List (List Char)}

theorem nil : PaidFor [] := by
  intro mode words h
  have hnone : quoted [] = 0 := rfl
  have hbackslash : quoted ['\\'] = 0 := rfl
  cases mode <;> grind [Paid, escapes_backslash]

/-- A character in front of the first word leaves the others paid for. -/
theorem push {mode : Mode} (hrest : PaidFor rest)
    (h : ShellWords.push c (splitFrom mode rest) = some words) :
    ∃ text, words.flatten = c :: text ∧ Paid mode rest text := by
  obtain ⟨word, others, hresult, rfl⟩ := push_eq_some h
  exact ⟨(word :: others).flatten, rfl, hrest hresult⟩

theorem between (hrest : PaidFor rest) (h : splitFrom .between (c :: rest) = some words) :
    Paid .between (c :: rest) words.flatten := by
  have hline := escapes_cons c rest
  rw [splitFrom] at h
  split_ifs at h with hblank hcomment hnewline hsingle hdouble hescape hspecial
  · have hpaid := hrest h
    simp only [Paid] at hpaid ⊢
    omega
  · obtain rfl := Option.some.inj h
    exact Nat.zero_le _
  · have hpaid := hrest h
    simp only [Paid] at hpaid ⊢
    omega
  · have hpaid := hrest h
    have hquoted := quoted_le words.flatten
    rw [hdouble] at hline ⊢
    rw [escapes_quote] at hline
    simp only [Paid] at hpaid ⊢
    omega
  · have hpaid := hrest h
    rw [hescape] at hline ⊢
    rw [escapes_backslash] at hline
    simp only [Paid] at hpaid ⊢
    omega
  · obtain ⟨text, htext, hpaid⟩ := hrest.push h
    rw [htext]
    simp only [Paid, quoted_cons hsingle, escapes_cons c text] at hpaid ⊢
    omega

theorem word (hrest : PaidFor rest) (h : splitFrom .word (c :: rest) = some words) :
    Paid .word (c :: rest) words.flatten := by
  have hline := escapes_cons c rest
  rw [splitFrom] at h
  split_ifs at h with hblank hsingle hdouble hescape hspecial
  · obtain ⟨words', hwords', rfl⟩ := Option.map_eq_some_iff.mp h
    have hpaid := hrest hwords'
    simp only [Paid, List.flatten_cons, List.nil_append] at hpaid ⊢
    omega
  · have hpaid := hrest h
    simp only [Paid] at hpaid ⊢
    omega
  · have hpaid := hrest h
    have hquoted := quoted_le words.flatten
    rw [hdouble] at hline ⊢
    rw [escapes_quote] at hline
    simp only [Paid] at hpaid ⊢
    omega
  · have hpaid := hrest h
    rw [hescape] at hline ⊢
    rw [escapes_backslash] at hline
    simp only [Paid] at hpaid ⊢
    omega
  · obtain ⟨text, htext, hpaid⟩ := hrest.push h
    rw [htext]
    simp only [Paid, quoted_cons hsingle, escapes_cons c text] at hpaid ⊢
    omega

theorem single (hrest : PaidFor rest) (h : splitFrom .single (c :: rest) = some words) :
    Paid .single (c :: rest) words.flatten := by
  have hline := escapes_cons c rest
  rw [splitFrom] at h
  split_ifs at h with hclose
  · have hpaid := hrest h
    simp only [Paid] at hpaid ⊢
    omega
  · obtain ⟨text, htext, hpaid⟩ := hrest.push h
    rw [htext]
    simp only [Paid, quoted_cons hclose, escapes_cons c text] at hpaid ⊢
    omega

theorem double (hrest : PaidFor rest) (h : splitFrom .double (c :: rest) = some words) :
    Paid .double (c :: rest) words.flatten := by
  have hline := escapes_cons c rest
  rw [splitFrom] at h
  split_ifs at h with hclose hescape hexpansion
  · have hpaid := hrest h
    rw [hclose] at hline ⊢
    rw [escapes_quote] at hline
    simp only [Paid] at hpaid ⊢
    omega
  · have hpaid := hrest h
    rw [hescape] at hline ⊢
    rw [escapes_backslash] at hline
    simp only [Paid] at hpaid ⊢
    omega
  · obtain ⟨text, htext, hpaid⟩ := hrest.push h
    rw [htext]
    simp only [Paid, escapes_cons c text] at hpaid ⊢
    omega

theorem escape {inWord : Bool} (hrest : PaidFor rest)
    (h : splitFrom (.escape inWord) (c :: rest) = some words) :
    Paid (.escape inWord) (c :: rest) words.flatten := by
  have hline := escapes_cons c rest
  rw [splitFrom] at h
  split_ifs at h with hnewline hinWord
  · have hpaid := hrest h
    simp only [Paid] at hpaid ⊢
    omega
  · have hpaid := hrest h
    simp only [Paid] at hpaid ⊢
    omega
  · -- the one character may be a quote, and the backslash pays for it
    obtain ⟨text, htext, hpaid⟩ := hrest.push h
    have hquoted := quoted_le (c :: text)
    rw [htext]
    simp only [Paid, escapes_cons c text] at hpaid ⊢
    omega

theorem doubleEscape (hrest : PaidFor rest)
    (h : splitFrom .doubleEscape (c :: rest) = some words) :
    Paid .doubleEscape (c :: rest) words.flatten := by
  have hline := escapes_cons c rest
  rw [splitFrom] at h
  split_ifs at h with hnewline hprotected
  · have hpaid := hrest h
    simp only [Paid] at hpaid ⊢
    omega
  · obtain ⟨text, htext, hpaid⟩ := hrest.push h
    rw [htext]
    simp only [Paid, escapes_cons c text] at hpaid ⊢
    omega
  · -- the backslash stays, and is paid for by the quotes that have to be closed
    obtain ⟨word, others, hresult, rfl⟩ := push_eq_some h
    obtain ⟨text, htext, hpaid⟩ := hrest.push hresult
    have hflatten : (('\\' :: word) :: others).flatten = '\\' :: c :: text := by
      rw [← htext]
      rfl
    rw [hflatten]
    simp only [Paid, escapes_cons '\\' (c :: text), escapes_cons c text,
      escapes_backslash] at hpaid ⊢
    omega

end PaidFor

/-- **A word with a quote in it costs a backslash or a pair of double quotes.** -/
theorem escapes_splitFrom (rest : List Char) : PaidFor rest := by
  induction rest with
  | nil => exact PaidFor.nil
  | cons c rest ih =>
      intro mode words h
      cases mode with
      | between => exact ih.between h
      | word => exact ih.word h
      | single => exact ih.single h
      | double => exact ih.double h
      | escape inWord => exact ih.escape h
      | doubleEscape => exact ih.doubleEscape h

/-! ## When single quotes protect -/

/-- Plain words cannot protect a quote. -/
theorem escapes_intercalate {words : List (List Char)} (h : ∀ word ∈ words, PlainWord word) :
    escapes ([' '].intercalate words) = 0 := by
  induction words with
  | nil => rfl
  | cons word words ih =>
      obtain ⟨⟨_, hplain⟩, hrest⟩ := List.forall_mem_cons.mp h
      have hword : escapes word = 0 := by
        apply List.countP_eq_zero.mpr
        intro c hc
        obtain ⟨_, _, _, _, hdouble, hescape⟩ := hplain c hc
        simp [hdouble, hescape]
      by_cases hnil : words = []
      · rw [hnil, List.intercalate_singleton, hword]
      · rw [List.intercalate_cons_of_ne_nil hnil, escapes_append, escapes_append, hword, ih hrest]
        rfl

/-- The quotes around the texts cannot either. -/
theorem escapes_quoteAll (texts : List (List Char)) :
    escapes (quoteAll texts) = escapes texts.flatten := by
  induction texts with
  | nil => rfl
  | cons text texts ih =>
      have hline : quoteAll (text :: texts) =
          [' ', '\''] ++ (text ++ (['\''] ++ quoteAll texts)) := by
        simp [quoteAll]
      have hfront : escapes [' ', '\''] = 0 := rfl
      have hback : escapes ['\''] = 0 := rfl
      rw [hline, escapes_append, escapes_append, escapes_append, List.flatten_cons,
        escapes_append, ih, hfront, hback]
      omega

/-- **When single quotes protect a text.**  A command comes apart into its plain words and the
quoted texts exactly when no quote is in any of these. -/
theorem split_commandLine_iff {words texts : List (List Char)} (hne : words ≠ [])
    (hwords : ∀ word ∈ words, PlainWord word) :
    split (commandLine words texts) = some (words ++ texts) ↔ ∀ text ∈ texts, '\'' ∉ text := by
  constructor
  · intro h text htext hquote
    have hpaid := escapes_splitFrom _ h
    have hline : escapes (commandLine words texts) = escapes texts.flatten := by
      rw [commandLine, escapes_append, escapes_intercalate hwords, escapes_quoteAll, Nat.zero_add]
    -- the texts come out as they went in, so nothing was paid for the quote
    have hmem : '\'' ∈ (words ++ texts).flatten :=
      List.mem_flatten.mpr ⟨text, List.mem_append_right _ htext, hquote⟩
    have hone : quoted (words ++ texts).flatten = 1 := if_pos hmem
    simp only [Paid, hline, hone] at hpaid
    rw [List.flatten_append, escapes_append] at hpaid
    omega
  · exact split_commandLine hne hwords

end ShellWords
end Ucser
