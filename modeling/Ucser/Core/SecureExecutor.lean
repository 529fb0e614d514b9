import Ucser.Lib.Regex
import Ucser.Core.Types

/-!
# The command validator: `core/secure_executor_1.py`

`CommandValidator.validate` splits a command as a shell would, searches it for seven patterns,
and looks its first word up in a whitelist.  The last pattern ends in a bar, so that it also
matches the empty text.

* `shlexSplit` — `shlex.split`.
* `dangerousPatterns`, `isDangerous`, `extractBaseCommand`, `validate` — the validator.
* `Hazardous` — what the patterns are there to find.
* `found_iff_hazardous` — **the first six patterns find exactly the hazards**.
* `validate_rejects` — every command is rejected.
* `asListed_iff` — **the commands that are treated as they should be**: those with a hazard.
-/

namespace Ucser
namespace SecureExecutor

open Regex (compile search oneOf literal followed spaces Spells)

/-! ## `shlex` -/

/-- The state of the lexer: between words, in a word, in quotes, or behind a backslash in one
of them. -/
inductive Mode where
  | between
  | word
  | single
  | double
  | escape
  | doubleEscape

/-- `whitespace`. -/
def isWhitespace (c : Char) : Bool := [' ', '\t', '\r', '\n'].contains c

/-- The words of a text, in a state and with what has been read of the word. -/
def shlexFrom : Mode → List Char → List Char → Except String (List (List Char))
  | .between, _, [] => .ok []
  | .between, token, c :: cs =>
      if isWhitespace c then shlexFrom .between token cs
      else if c = '\\' then shlexFrom .escape [] cs
      else if c = '\'' then shlexFrom .single [] cs
      else if c = '"' then shlexFrom .double [] cs
      else shlexFrom .word [c] cs
  | .word, token, [] => .ok [token]
  | .word, token, c :: cs =>
      if isWhitespace c then (shlexFrom .between [] cs).map (token :: ·)
      else if c = '\\' then shlexFrom .escape token cs
      else if c = '\'' then shlexFrom .single token cs
      else if c = '"' then shlexFrom .double token cs
      else shlexFrom .word (token ++ [c]) cs
  | .single, _, [] => .error "No closing quotation"
  | .single, token, c :: cs =>
      if c = '\'' then shlexFrom .word token cs else shlexFrom .single (token ++ [c]) cs
  | .double, _, [] => .error "No closing quotation"
  | .double, token, c :: cs =>
      if c = '"' then shlexFrom .word token cs
      else if c = '\\' then shlexFrom .doubleEscape token cs
      else shlexFrom .double (token ++ [c]) cs
  | .escape, _, [] => .error "No escaped character"
  | .escape, token, c :: cs => shlexFrom .word (token ++ [c]) cs
  | .doubleEscape, _, [] => .error "No escaped character"
  | .doubleEscape, token, c :: cs =>
      -- in quotes only the quote and the backslash can be escaped
      if c = '\\' ∨ c = '"' then shlexFrom .double (token ++ [c]) cs
      else shlexFrom .double (token ++ ['\\', c]) cs

/-- `shlex.split`. -/
def shlexSplit (s : List Char) : Except String (List (List Char)) := shlexFrom .between [] s

/-! ## The validator -/

/-- `CommandSeverity`. -/
inductive CommandSeverity where
  | safe
  | warning
  | dangerous
  | forbidden
  deriving DecidableEq

/-- `DANGEROUS_PATTERNS`. -/
def dangerousPatterns : List String :=
  ["[;&|`$\\(\\)]", ">\\s*/dev/", ">\\s*/etc/", "rm\\s+-rf", "dd\\s+if=", "chmod\\s+777",
    ":()\x7b\\s*:|"]

/-- `SAFE_COMMANDS`. -/
def safeCommands : List String :=
  ["echo", "cat", "ls", "pwd", "date", "whoami", "id", "uname", "grep", "sed", "awk", "sort",
    "uniq", "wc", "tail", "head", "curl", "wget", "git", "docker", "kubectl", "terraform"]

/-- `re.search(pattern, cmd, re.IGNORECASE)`. -/
def found (cmd : String) (pattern : String) : Bool :=
  (compile true pattern).any fun P => search P cmd.toList

/-- `is_dangerous`. -/
def isDangerous (cmd : String) : Bool × String :=
  match dangerousPatterns.find? (found cmd) with
  | some pattern => (true, "Matched dangerous pattern: " ++ pattern)
  | none => (false, "")

/-- `extract_base_command`. -/
def extractBaseCommand (cmd : String) : String :=
  match shlexSplit cmd.toList with
  | .ok (token :: _) =>
      String.ofList (Text.lower (String.ofList ((token.splitOn '/').getLastD [])))
  | .ok [] => ""
  | .error _ => ""

/-- `validate`, of the command of its context. -/
def validate (command : String) : Bool × Option String × CommandSeverity :=
  match shlexSplit command.toList with
  | .error e => (false, some ("Invalid command syntax: " ++ e), .forbidden)
  | .ok _ =>
      let (dangerous, reason) := isDangerous command
      if dangerous then (false, some ("Dangerous pattern detected: " ++ reason), .forbidden)
      else
        let baseCmd := extractBaseCommand command
        if baseCmd ∈ safeCommands then (true, none, .safe)
        else (true, some ("Command not in whitelist: " ++ baseCmd), .warning)

/-! ## What the patterns are to find -/

/-- A shell metacharacter. -/
def metacharacters : List Char := [';', '&', '|', '\x60', '$', '(', ')']

/-- The command contains one text and another behind it, in any case, with so many blanks or
more in between. -/
def Spaced (blanks : Nat) (first second : String) (command : String) : Prop :=
  ∃ before a gap b after, command.toList = before ++ (a ++ gap ++ b) ++ after ∧
    Spells first.toList a ∧ Text.Blank gap ∧ blanks ≤ gap.length ∧ Spells second.toList b

/-- The hazards. -/
inductive Hazardous (command : String) : Prop where
  | metacharacter (c : Char) (hc : c ∈ command.toList) (h : c ∈ metacharacters)
  | device (h : Spaced 0 ">" "/dev/" command)
  | system (h : Spaced 0 ">" "/etc/" command)
  | removal (h : Spaced 1 "rm" "-rf" command)
  | disk (h : Spaced 1 "dd" "if=" command)
  | permission (h : Spaced 1 "chmod" "777" command)
  | forkBomb (h : Spaced 0 ":()\x7b" ":|" command)

/-- A command is treated as it should be: rejected if it has a hazard, otherwise accepted, and
called safe if its first word is in the whitelist. -/
def AsListed (command : String) : Prop :=
  ((validate command).1 = false ↔ Hazardous command) ∧
    (¬ Hazardous command → (validate command).1 = true ∧
      ((validate command).2.2 = .safe ↔ extractBaseCommand command ∈ safeCommands))

/-! ## What the patterns find -/

theorem mem_literal {c : Char} {q : List Char} :
    q ∈ (literal true c).matches' ↔ Spells [c] q := by
  have hliteral : literal true c = oneOf (Regex.variants c) := rfl
  rw [hliteral, Regex.mem_oneOf, Spells, List.forall₂_cons_left_iff]
  constructor
  · rintro ⟨d, hd, rfl⟩
    exact ⟨d, [], hd, List.Forall₂.nil, rfl⟩
  · rintro ⟨d, rest, hd, hrest, rfl⟩
    exact ⟨d, hd, by rw [List.forall₂_nil_left_iff.mp hrest]⟩

theorem mem_word {c : Char} {cs q : List Char} :
    q ∈ (followed true (literal true c) cs).matches' ↔ Spells (c :: cs) q := by
  rw [Regex.mem_followed, Spells, List.forall₂_cons_left_iff]
  constructor
  · rintro ⟨q₁, q₂, rfl, h₁, h₂⟩
    obtain ⟨d, rest, hd, hrest, rfl⟩ := List.forall₂_cons_left_iff.mp (mem_literal.mp h₁)
    rw [List.forall₂_nil_left_iff.mp hrest]
    exact ⟨d, q₂, hd, h₂, rfl⟩
  · rintro ⟨d, rest, hd, hrest, rfl⟩
    refine ⟨[d], rest, rfl, mem_literal.mpr ?_, hrest⟩
    exact List.Forall₂.cons hd List.Forall₂.nil

/-- What a pattern of two texts and blanks in between finds. -/
theorem found_spaced {P : RegularExpression Char} {blanks : Nat} {c : Char} {cs : List Char}
    {first second pattern : String} (hfirst : first.toList = c :: cs)
    (hcompile : compile true pattern =
      some (followed true (followed true (literal true c) cs * P) second.toList))
    (hgap : ∀ gap, gap ∈ P.matches' ↔ Text.Blank gap ∧ blanks ≤ gap.length) (command : String) :
    found command pattern = true ↔ Spaced blanks first second command := by
  rw [found, hcompile, Option.any_some, Regex.search_iff]
  constructor
  · rintro ⟨before, q, after, heq, hq⟩
    obtain ⟨q', b, rfl, hq', hb⟩ := Regex.mem_followed.mp hq
    obtain ⟨a, gap, rfl, ha, hgap'⟩ := Regex.mem_matches'_mul.mp hq'
    obtain ⟨hblank, hlength⟩ := (hgap gap).mp hgap'
    refine ⟨before, a, gap, b, after, heq, ?_, hblank, hlength, hb⟩
    rw [hfirst]
    exact mem_word.mp ha
  · rintro ⟨before, a, gap, b, after, heq, ha, hblank, hlength, hb⟩
    rw [hfirst] at ha
    refine ⟨before, a ++ gap ++ b, after, heq, Regex.mem_followed.mpr ⟨a ++ gap, b, rfl, ?_, hb⟩⟩
    exact Regex.mem_matches'_mul.mpr
      ⟨a, gap, rfl, mem_word.mpr ha, (hgap gap).mpr ⟨hblank, hlength⟩⟩

theorem mem_anyBlanks (gap : List Char) :
    gap ∈ (oneOf spaces).star.matches' ↔ Text.Blank gap ∧ 0 ≤ gap.length := by
  rw [Regex.mem_star_spaces]
  simp

theorem mem_someBlanks (gap : List Char) :
    gap ∈ (oneOf spaces * (oneOf spaces).star).matches' ↔ Text.Blank gap ∧ 1 ≤ gap.length := by
  rw [Regex.mem_plus_spaces, Nat.one_le_iff_ne_zero, Ne, Ne, List.length_eq_zero_iff]

theorem found_metacharacter {command : String} :
    found command "[;&|`$\\(\\)]" = true ↔ ∃ c ∈ command.toList, c ∈ metacharacters := by
  have hcompile : compile true "[;&|`$\\(\\)]" =
      some (oneOf (metacharacters.flatMap Regex.variants)) := rfl
  have hsame : ∀ c, c ∈ metacharacters.flatMap Regex.variants ↔ c ∈ metacharacters := by
    intro c
    have hsub : (metacharacters.flatMap Regex.variants).all (metacharacters.contains ·) = true := by
      decide
    have hsup : metacharacters.all ((metacharacters.flatMap Regex.variants).contains ·) = true := by
      decide
    exact ⟨fun h => List.contains_iff_mem.mp (List.all_eq_true.mp hsub c h),
      fun h => List.contains_iff_mem.mp (List.all_eq_true.mp hsup c h)⟩
  rw [found, hcompile, Option.any_some, Regex.search_iff]
  constructor
  · rintro ⟨before, q, after, heq, hq⟩
    obtain ⟨c, hc, rfl⟩ := Regex.mem_oneOf.mp hq
    exact ⟨c, by rw [heq]; simp, (hsame c).mp hc⟩
  · rintro ⟨c, hc, hmeta⟩
    obtain ⟨before, after, heq⟩ := List.append_of_mem hc
    refine ⟨before, [c], after, by simpa using heq, ?_⟩
    exact Regex.mem_oneOf.mpr ⟨c, (hsame c).mpr hmeta, rfl⟩

/-- A fork bomb has a parenthesis. -/
theorem metacharacter_of_forkBomb {command : String} (h : Spaced 0 ":()\x7b" ":|" command) :
    ∃ c ∈ command.toList, c ∈ metacharacters := by
  obtain ⟨before, a, gap, b, after, heq, ha, -⟩ := h
  obtain ⟨d, rest, -, hrest, rfl⟩ := List.forall₂_cons_left_iff.mp ha
  obtain ⟨d', rest', hd', -, rfl⟩ := List.forall₂_cons_left_iff.mp hrest
  refine ⟨d', by rw [heq]; simp, ?_⟩
  have hall : (Regex.variants '(').all (metacharacters.contains ·) = true := by decide
  exact List.contains_iff_mem.mp (List.all_eq_true.mp hall d' hd')

/-- The patterns in front of the last. -/
def properPatterns : List String := dangerousPatterns.dropLast

/-- **The first six patterns find the hazards** and nothing else. -/
theorem found_iff_hazardous (command : String) :
    properPatterns.any (found command) = true ↔ Hazardous command := by
  have hdevice : found command ">\\s*/dev/" = true ↔ Spaced 0 ">" "/dev/" command :=
    found_spaced rfl rfl mem_anyBlanks command
  have hsystem : found command ">\\s*/etc/" = true ↔ Spaced 0 ">" "/etc/" command :=
    found_spaced rfl rfl mem_anyBlanks command
  have hremoval : found command "rm\\s+-rf" = true ↔ Spaced 1 "rm" "-rf" command :=
    found_spaced rfl rfl mem_someBlanks command
  have hdisk : found command "dd\\s+if=" = true ↔ Spaced 1 "dd" "if=" command :=
    found_spaced rfl rfl mem_someBlanks command
  have hpermission : found command "chmod\\s+777" = true ↔ Spaced 1 "chmod" "777" command :=
    found_spaced rfl rfl mem_someBlanks command
  have hpatterns : properPatterns = ["[;&|`$\\(\\)]", ">\\s*/dev/", ">\\s*/etc/", "rm\\s+-rf",
      "dd\\s+if=", "chmod\\s+777"] := rfl
  rw [hpatterns]
  simp only [List.any_cons, List.any_nil, Bool.or_false, Bool.or_eq_true, found_metacharacter,
    hdevice, hsystem, hremoval, hdisk, hpermission]
  constructor
  · rintro (⟨c, hc, hmeta⟩ | h | h | h | h | h)
    · exact .metacharacter c hc hmeta
    · exact .device h
    · exact .system h
    · exact .removal h
    · exact .disk h
    · exact .permission h
  · intro h
    cases h with
    | metacharacter c hc hmeta => exact Or.inl ⟨c, hc, hmeta⟩
    | device h => exact Or.inr (Or.inl h)
    | system h => exact Or.inr (Or.inr (Or.inl h))
    | removal h => exact Or.inr (Or.inr (Or.inr (Or.inl h)))
    | disk h => exact Or.inr (Or.inr (Or.inr (Or.inr (Or.inl h))))
    | permission h => exact Or.inr (Or.inr (Or.inr (Or.inr (Or.inr h))))
    | forkBomb h => exact Or.inl (metacharacter_of_forkBomb h)

/-! ## What is rejected -/

/-- The bar at the end of the last pattern leaves an alternative that matches everywhere. -/
theorem found_last (command : String) : found command ":()\x7b\\s*:|" = true := by
  have hcompile : ∃ P, compile true ":()\x7b\\s*:|" = some (P + 1) := ⟨_, rfl⟩
  obtain ⟨P, hcompile⟩ := hcompile
  rw [found, hcompile, Option.any_some]
  refine Regex.search_of_nil_mem ?_ command.toList
  rw [RegularExpression.matches'_add, Language.mem_add]
  exact Or.inr rfl

theorem dangerousPatterns_eq : dangerousPatterns = properPatterns ++ [":()\x7b\\s*:|"] := rfl

/-- Every command is called dangerous. -/
theorem isDangerous_fst (command : String) : (isDangerous command).1 = true := by
  unfold isDangerous
  split
  · rfl
  · next hnone =>
      have hlast := List.find?_eq_none.mp hnone ":()\x7b\\s*:|" (by simp [dangerousPatterns])
      exact absurd (found_last command) hlast

/-- **Called a fork bomb** are the commands without a hazard. -/
theorem isDangerous_last_iff (command : String) :
    isDangerous command = (true, "Matched dangerous pattern: :()\x7b\\s*:|") ↔
      ¬ Hazardous command := by
  rw [← found_iff_hazardous, Bool.not_eq_true, List.any_eq_false]
  have hfind : dangerousPatterns.find? (found command) =
      (properPatterns.find? (found command)).or (some ":()\x7b\\s*:|") := by
    rw [dangerousPatterns_eq, List.find?_append, List.find?_cons_of_pos (found_last command)]
  unfold isDangerous
  rw [hfind]
  cases hproper : properPatterns.find? (found command) with
  | none =>
      rw [Option.none_or]
      exact iff_of_true rfl (List.find?_eq_none.mp hproper)
  | some pattern =>
      have hmem := List.mem_of_find?_eq_some hproper
      refine iff_of_false (fun heq => ?_) (fun hall => ?_)
      · have hne : ∀ pattern ∈ properPatterns, "Matched dangerous pattern: " ++ pattern ≠
            "Matched dangerous pattern: :()\x7b\\s*:|" := by decide
        exact hne pattern hmem (congrArg Prod.snd heq)
      · exact hall pattern hmem (List.find?_some hproper)

/-- **Every command is rejected.** -/
theorem validate_rejects (command : String) : (validate command).1 = false := by
  unfold validate
  cases shlexSplit command.toList with
  | error e => rfl
  | ok words =>
      dsimp only
      rw [if_pos (isDangerous_fst command)]

/-- **The commands that are treated as they should be** are those with a hazard. -/
theorem asListed_iff (command : String) : AsListed command ↔ Hazardous command := by
  have hrejects := validate_rejects command
  constructor
  · rintro ⟨hiff, -⟩
    exact hiff.mp hrejects
  · intro hhazard
    exact ⟨iff_of_true hrejects hhazard, fun hnot => absurd hhazard hnot⟩

/-- A command from the whitelist is rejected. -/
theorem echo_rejected : ¬ ∀ (command : String) (words : List (List Char)),
    shlexSplit command.toList = .ok words → AsListed command := by
  intro h
  have hplain : ¬ Hazardous "echo hello" := by
    rw [← found_iff_hazardous]
    decide +kernel
  obtain ⟨-, haccepted⟩ := h "echo hello" ["echo".toList, "hello".toList] rfl
  exact absurd (haccepted hplain).1 (by rw [validate_rejects]; decide)

end SecureExecutor
end Ucser
