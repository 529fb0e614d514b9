import Mathlib.Data.Finset.Insert
import Ucser.Lib.Marks
import Ucser.Lib.Regex
import Ucser.Security.Auditor

/-!
# The compatibility auditor: `PowerShellAuditor` of `security/auditor.py`

`parse` searches the lower-cased command for a list of texts.  A backtick in front of a letter
means nothing to PowerShell, but it breaks the text; of all the spellings with backticks the
list has one.

* `parse`, `audit` — the findings, and the result made of them.
* `Quoting`, `WellPlaced`, `Obfuscates` — backticks put in outside quotes, each in front of a
  letter it leaves as it is.
* `Kept` — the risky findings, and the network capability, are still reported.
* `iex_found_iff`, `web_found_iff` — what is found in a command with backticks put in.
* `kept_iff` — **when the findings are kept**: when a backtick-free occurrence is left, or an
  `iwr` has its only backtick where the list has it.
-/

namespace Ucser
namespace PowerShellAuditor

open Marks (Marked plain render Spared SplitOnce)

/-! ## The auditor -/

/-- The texts that stand for `iex`. -/
def iexTokens : List String := ["iex", "invoke-expression"]

/-- The texts that stand for a request to the network. -/
def webTokens : List String :=
  ["invoke-webrequest", "iwr", "i`wr", "wget", "curl", "irm", "invoke-restmethod"]

/-- The texts that stand for writing to the file system. -/
def writeTokens : List String := ["remove-item", "del ", "erase ", "rm ", "shred"]

/-- `any(token in lowered for token in tokens)`. -/
def anyIn (tokens : List String) (lowered : List Char) : Bool :=
  tokens.any (Text.contains lowered)

/-- `s.strip(chars)`. -/
def stripChars (chars s : List Char) : List Char :=
  ((s.dropWhile (chars.contains ·)).reverse.dropWhile (chars.contains ·)).reverse

/-- `re.search(pattern, command)`, or with `re.IGNORECASE`. -/
def search (ignoreCase : Bool) (pattern : String) (s : List Char) : Bool :=
  (Regex.compile ignoreCase pattern).any fun P => Regex.search P s

/-- `re.fullmatch(pattern, s)`. -/
def fullmatch (pattern : String) (s : List Char) : Bool :=
  (Regex.compile false pattern).any fun P => P.rmatch s

/-- What `_build_legacy_ast` builds. -/
structure LegacyAst where
  nodes : List String
  findings : List String

/-- `parse`. -/
def parse (command : String) : LegacyAst :=
  let lowered := Text.lower command
  let stripped := stripChars ['\'', '"'] (Text.strip command.toList)
  { nodes := [command]
    findings :=
      (if anyIn iexTokens lowered then ["Risky command detected: iex"] else []) ++
      (if anyIn webTokens lowered then ["Risky command detected: Invoke-WebRequest"] else []) ++
      (if Text.contains lowered "scriptblock" && Text.contains lowered ".invoke()" then
        ["Dynamic .Invoke() member call detected"] else []) ++
      (if 500 ≤ stripped.length && fullmatch "[A-Za-z0-9+/=]+" stripped then
        ["Suspicious large base64-like string detected"] else []) ++
      (if search true "&\\s*\\(\\s*'i'\\s*\\+\\s*'ex'\\s*\\)" command.toList ||
          search false "&\\s*\\$[A-Za-z_]\\w*" command.toList then
        ["Indirect invocation detected"] else []) }

/-- `audit`. -/
def audit (command : String) : AuditResult :=
  let reasons := (parse command).findings
  let lowered := Text.lower command
  { isSafe := reasons.isEmpty
    reasons := reasons
    capabilities :=
      {.exec} ∪ (if anyIn webTokens lowered then {.network} else ∅) ∪
        (if anyIn writeTokens lowered then {.writeFs} else ∅) }

/-- Every pattern is one that is read here. -/
theorem compiled : (Regex.compile true "&\\s*\\(\\s*'i'\\s*\\+\\s*'ex'\\s*\\)").isSome = true ∧
    (Regex.compile false "&\\s*\\$[A-Za-z_]\\w*").isSome = true ∧
    (Regex.compile false "[A-Za-z0-9+/=]+").isSome = true := ⟨rfl, rfl, rfl⟩

/-! ## Putting in backticks -/

/-- Where a character of a command stands. -/
inductive Quoting where
  | outside
  /-- Outside quotes, behind a backtick. -/
  | escaped
  | single
  | double
  /-- In double quotes, behind a backtick. -/
  | doubleEscaped
  deriving DecidableEq

namespace Quoting

/-- Where the next character stands. -/
def next : Quoting → Char → Quoting
  | outside, c =>
      if c = '\x60' then escaped else if c = '\'' then single else if c = '"' then double
      else outside
  | escaped, _ => outside
  | single, c => if c = '\'' then outside else single
  | double, c => if c = '\x60' then doubleEscaped else if c = '"' then outside else double
  | doubleEscaped, _ => double

def isOutside (q : Quoting) : Bool := q = outside || q = escaped

end Quoting

/-- A letter; outside ASCII every character is taken for one. -/
def isLetter (c : Char) : Bool := c.isAlpha || 128 ≤ c.toNat

/-- The letters a backtick makes something else of. -/
def escapeLetters : List Char := ['a', 'b', 'e', 'f', 'n', 'r', 't', 'u', 'v']

/-- Every backtick that is put in stands outside quotes and in front of a letter it leaves as
it is. -/
def WellPlaced : Quoting → Marked Char → Prop
  | _, [] => True
  | q, (marked, c) :: m =>
      (marked = true → q.isOutside = true ∧ isLetter c = true ∧ c ∉ escapeLetters) ∧
        WellPlaced (q.next c) m

instance decidableWellPlaced : ∀ (q : Quoting) (m : Marked Char), Decidable (WellPlaced q m)
  | _, [] => inferInstanceAs (Decidable True)
  | q, (_, c) :: m => @instDecidableAnd _ _ _ (decidableWellPlaced (q.next c) m)

/-- The command without the backticks that are put in. -/
def original (m : Marked Char) : String := String.ofList (plain m)

/-- The command with them. -/
def obfuscated (m : Marked Char) : String := String.ofList (render '\x60' m)

/-- One command is the other with backticks put in. -/
def Obfuscates (command command' : String) : Prop :=
  ∃ m, WellPlaced .outside m ∧ command = original m ∧ command' = obfuscated m

/-- The findings that report a risky command. -/
def Risky (finding : String) : Prop := "Risky command detected".toList <+: finding.toList

instance (finding : String) : Decidable (Risky finding) :=
  inferInstanceAs (Decidable (_ <+: _))

/-- What is reported of a risky command, or of the network, is still reported. -/
def Kept (command command' : String) : Prop :=
  (∀ finding ∈ (parse command).findings, Risky finding → finding ∈ (parse command').findings) ∧
    (Capability.network ∈ (audit command).capabilities →
      Capability.network ∈ (audit command').capabilities)

/-! ## What is reported -/

theorem risky_iff {finding : String} {command : String} :
    finding ∈ (parse command).findings ∧ Risky finding ↔
      finding = "Risky command detected: iex" ∧ anyIn iexTokens (Text.lower command) = true ∨
        finding = "Risky command detected: Invoke-WebRequest" ∧
          anyIn webTokens (Text.lower command) = true := by
  have hiex : Risky "Risky command detected: iex" := by decide
  have hweb : Risky "Risky command detected: Invoke-WebRequest" := by decide
  have hdynamic : ¬ Risky "Dynamic .Invoke() member call detected" := by decide
  have hlarge : ¬ Risky "Suspicious large base64-like string detected" := by decide
  have hindirect : ¬ Risky "Indirect invocation detected" := by decide
  simp only [parse, List.mem_append, List.mem_ite_nil_right, List.mem_singleton]
  constructor
  · rintro ⟨(((⟨h, rfl⟩ | ⟨h, rfl⟩) | ⟨-, rfl⟩) | ⟨-, rfl⟩) | ⟨-, rfl⟩, hrisky⟩
    · exact Or.inl ⟨rfl, h⟩
    · exact Or.inr ⟨rfl, h⟩
    · exact absurd hrisky hdynamic
    · exact absurd hrisky hlarge
    · exact absurd hrisky hindirect
  · rintro (⟨rfl, h⟩ | ⟨rfl, h⟩)
    · exact ⟨Or.inl (Or.inl (Or.inl (Or.inl ⟨h, rfl⟩))), hiex⟩
    · exact ⟨Or.inl (Or.inl (Or.inl (Or.inr ⟨h, rfl⟩))), hweb⟩

theorem network_mem_iff {command : String} :
    Capability.network ∈ (audit command).capabilities ↔
      anyIn webTokens (Text.lower command) = true := by
  simp only [audit, Finset.mem_union, Finset.mem_singleton, reduceCtorEq, false_or]
  constructor
  · rintro (h | h)
    · split_ifs at h with hweb
      · exact hweb
      · exact absurd h (Finset.notMem_empty _)
    · split_ifs at h
      · exact absurd (Finset.mem_singleton.mp h) (by decide)
      · exact absurd h (Finset.notMem_empty _)
  · intro hweb
    rw [if_pos hweb]
    exact Or.inl (Finset.mem_singleton_self _)

/-- What is reported is kept when both lists of texts are still met. -/
theorem kept_iff_anyIn {command command' : String} :
    Kept command command' ↔
      (anyIn iexTokens (Text.lower command) = true →
        anyIn iexTokens (Text.lower command') = true) ∧
      (anyIn webTokens (Text.lower command) = true →
        anyIn webTokens (Text.lower command') = true) := by
  constructor
  · rintro ⟨hfindings, hnetwork⟩
    refine ⟨fun hiex => ?_, fun hweb => ?_⟩
    · obtain ⟨hmem, hrisky⟩ := risky_iff.mpr (Or.inl ⟨rfl, hiex⟩)
      obtain ⟨-, hiex'⟩ | ⟨hne, -⟩ := risky_iff.mp ⟨hfindings _ hmem hrisky, hrisky⟩
      · exact hiex'
      · exact absurd hne (by decide)
    · exact network_mem_iff.mp (hnetwork (network_mem_iff.mpr hweb))
  · rintro ⟨hiex, hweb⟩
    refine ⟨fun finding hmem hrisky => ?_, fun h => ?_⟩
    · obtain ⟨rfl, h⟩ | ⟨rfl, h⟩ := risky_iff.mp ⟨hmem, hrisky⟩
      · exact (risky_iff.mpr (Or.inl ⟨rfl, hiex h⟩)).1
      · exact (risky_iff.mpr (Or.inr ⟨rfl, hweb h⟩)).1
    · exact network_mem_iff.mpr (hweb (network_mem_iff.mp h))

/-! ## What is found among backticks -/

/-- The command in lower case, with its marks. -/
def lowered (m : Marked Char) : Marked Char := Marks.expand Text.lowerChar m

theorem lowerChar_ne_nil (c : Char) : Text.lowerChar c ≠ [] := by
  unfold Text.lowerChar
  split_ifs
  · exact List.cons_ne_nil _ _
  · exact List.cons_ne_nil _ _
  · exact List.cons_ne_nil _ _
  · exact List.cons_ne_nil _ _

theorem lower_obfuscated (m : Marked Char) :
    Text.lower (obfuscated m) = render '\x60' (lowered m) := by
  rw [Text.lower, obfuscated, String.toList_ofList]
  exact (Marks.render_expand (by decide) lowerChar_ne_nil m).symm

/-- A text of the list is found where it is spared. -/
theorem contains_obfuscated_iff {token : String} (hne : token.toList ≠ [])
    (h : '\x60' ∉ token.toList) (m : Marked Char) :
    Text.contains (Text.lower (obfuscated m)) token = true ↔ Spared token.toList (lowered m) := by
  rw [Text.contains, decide_eq_true_iff, lower_obfuscated]
  exact Marks.infix_render_iff hne h

/-- Some text of the list is spared. -/
def AnySpared (tokens : List String) (m : Marked Char) : Prop :=
  ∃ token ∈ tokens, Spared token.toList (lowered m)

theorem iex_found_iff (m : Marked Char) :
    anyIn iexTokens (Text.lower (obfuscated m)) = true ↔ AnySpared iexTokens m := by
  have hplain : ∀ token ∈ iexTokens, token.toList ≠ [] ∧ '\x60' ∉ token.toList := by decide
  rw [anyIn, List.any_eq_true]
  refine exists_congr fun token => and_congr_right fun htoken => ?_
  obtain ⟨hne, h⟩ := hplain token htoken
  exact contains_obfuscated_iff hne h m

/-- An `iwr` whose only backtick is behind the `i`. -/
def SplitIwr (m : Marked Char) : Prop := SplitOnce 'i' 'w' ['r'] (lowered m)

theorem split_found_iff (m : Marked Char) :
    Text.contains (Text.lower (obfuscated m)) "i`wr" = true ↔
      Spared "i`wr".toList (lowered m) ∨ SplitIwr m := by
  rw [Text.contains, decide_eq_true_iff, lower_obfuscated]
  exact Marks.infix_render_mark_iff (by decide) (by decide)

theorem web_found_iff (m : Marked Char) :
    anyIn webTokens (Text.lower (obfuscated m)) = true ↔
      AnySpared webTokens m ∨ SplitIwr m := by
  have hplain : ∀ token ∈ webTokens, token ≠ "i`wr" →
      token.toList ≠ [] ∧ '\x60' ∉ token.toList := by decide
  rw [anyIn, List.any_eq_true]
  constructor
  · rintro ⟨token, htoken, hfound⟩
    by_cases hsplit : token = "i`wr"
    · subst hsplit
      exact (split_found_iff m).mp hfound |>.imp_left fun hspared => ⟨_, htoken, hspared⟩
    · obtain ⟨hne, h⟩ := hplain token htoken hsplit
      exact Or.inl ⟨token, htoken, (contains_obfuscated_iff hne h m).mp hfound⟩
  · rintro (⟨token, htoken, hspared⟩ | hsplit)
    · refine ⟨token, htoken, ?_⟩
      by_cases hiwr : token = "i`wr"
      · subst hiwr
        exact (split_found_iff m).mpr (Or.inl hspared)
      · obtain ⟨hne, h⟩ := hplain token htoken hiwr
        exact (contains_obfuscated_iff hne h m).mpr hspared
    · exact ⟨"i`wr", by decide, (split_found_iff m).mpr (Or.inr hsplit)⟩

/-! ## When the findings are kept -/

/-- **When the findings are kept**, wherever backticks are put in: a command with a text of a
list has an occurrence of one of its texts without a backtick put into it, or, for the
network, an `iwr` whose only backtick is behind the `i`. -/
theorem kept_iff (m : Marked Char) :
    Kept (original m) (obfuscated m) ↔
      (anyIn iexTokens (Text.lower (original m)) = true → AnySpared iexTokens m) ∧
      (anyIn webTokens (Text.lower (original m)) = true →
        AnySpared webTokens m ∨ SplitIwr m) := by
  rw [kept_iff_anyIn, iex_found_iff, web_found_iff]

/-- `iex`, with a backtick in front of the `x`. -/
theorem iex_hidden : ¬ ∀ command command', Obfuscates command command' →
    Kept command command' := by
  intro h
  let m : Marked Char := [(false, 'i'), (false, 'e'), (true, 'x')]
  obtain ⟨hiex, -⟩ := kept_iff_anyIn.mp
    (h (original m) (obfuscated m) ⟨m, by decide, rfl, rfl⟩)
  exact absurd (hiex (by decide)) (by decide)

end PowerShellAuditor
end Ucser
