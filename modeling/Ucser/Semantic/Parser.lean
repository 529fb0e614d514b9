import Ucser.Security.Policy
import Ucser.Security.PsDaemon

/-!
# From a pipeline string to steps: `semantic/parser.py` and `semantic/capabilities.py`

`parse_raw_pipeline` cuts a string at the pipes that stand in front of a shell prefix, and
makes a step of every part.  The capabilities of the record are those the capability mapper
finds for the commands.

* `separatorLength`, `split` — the regular expression `\|\s*(?=bash:|ps:|python:)`, and
  `re.split` with it.
* `parseRawPipeline`, `steps_parseRawPipeline` — the parser, and the steps it makes.
* `parseRawPipeline_pipelineText` — **parsing inverts writing**: commands without surrounding
  blanks and without a separator come back, each under its own shell.
* `Misrouted` — a step that the capability mapper, which is not told the shell, takes for a
  command of the other one.
* `covered_iff` — **the capabilities cover every step** exactly when they cover the misrouted
  ones; whatever the auditors find, exactly when there are none.
-/

namespace Ucser
namespace Semantic

/-! ## Records -/

/-- The shells the parser hands out. -/
inductive Shell where
  | powershell
  | bash
  | python
  deriving DecidableEq, Repr

/-- `ExecutionStep` of `semantic/ucer.py`. -/
structure ExecutionStep where
  shell : Shell
  command : String
  timeoutMs : Nat := 30000
  ignoreErrors : Bool := false
  deriving DecidableEq, Repr

/-- `RollbackStrategy`. -/
structure RollbackStrategy where
  enabled : Bool := false
  steps : List ExecutionStep := []
  deriving DecidableEq, Repr

/-- `ExpectedOutput`. -/
structure ExpectedOutput where
  format : String := "text"
  contains : Option (List String) := none
  notContains : Option (List String) := none
  deriving DecidableEq, Repr

/-- `UCER` of `semantic/ucer.py`. -/
structure UCER where
  intent : String
  requiredCapabilities : Finset Capability := ∅
  executionSteps : List ExecutionStep := []
  expectedOutputs : Option ExpectedOutput := none
  rollbackStrategy : Option RollbackStrategy := none
  deriving DecidableEq

/-! ## The capability mapper -/

namespace CapabilityMapper

/-- What marks a lower-cased command as one for PowerShell. -/
def powershellTokens : List String := ["get-", "set-", "invoke-", "foreach-object"]

/-- The adapter a command is taken for when none is named. -/
def guessAdapter (command : String) : Adapter :=
  if powershellTokens.any (Text.contains (Text.lower command)) then .powershell else .bash

variable (auditors : Auditors)

/-- `resolve_for_command`. -/
def resolveForCommand (command : String) (adapter : Option Adapter) : Finset Capability :=
  let adapter := adapter.getD (guessAdapter command)
  let auditor := if adapter ∈ [.bash, .linux] then auditors.bash else auditors.powershell
  (auditor command).capabilities

end CapabilityMapper

/-! ## The parser -/

/-- The prefix a command is written with. -/
def Shell.tag : Shell → List Char
  | powershell => "ps:".toList
  | bash => "bash:".toList
  | python => "python:".toList

namespace SemanticParser

/-- What marks a command without a prefix as one for PowerShell. -/
def powershellMarkers : List String := ["Get-", "Set-", "Invoke-", "ForEach-Object"]

/-- `_determine_shell`. -/
def determineShell (command : List Char) : Shell :=
  if Shell.powershell.tag.isPrefixOf command then .powershell
  else if Shell.bash.tag.isPrefixOf command then .bash
  else if Shell.python.tag.isPrefixOf command then .python
  else if powershellMarkers.any (Text.contains command) then .powershell
  else .bash

/-- What is left of a part without its prefix. -/
def cleanCommand (part : List Char) : List Char :=
  if Shell.powershell.tag.isPrefixOf part then Text.strip (part.drop 3)
  else if Shell.bash.tag.isPrefixOf part then Text.strip (part.drop 5)
  else if Shell.python.tag.isPrefixOf part then Text.strip (part.drop 7)
  else part

/-- `(?=bash:|ps:|python:)`. -/
def atTag (s : List Char) : Bool :=
  Shell.bash.tag.isPrefixOf s || Shell.powershell.tag.isPrefixOf s ||
    Shell.python.tag.isPrefixOf s

/-- The length of the separator a text begins with; zero if it begins with none.  No prefix
begins with a blank, so giving blanks back never helps the look-ahead. -/
def separatorLength : List Char → Nat
  | [] => 0
  | c :: rest =>
      if c = '|' ∧ atTag (rest.dropWhile Text.isSpace) = true then
        1 + (rest.takeWhile Text.isSpace).length
      else 0

/-- The scan of `re.split`, with so many characters of a separator still to pass over. -/
def splitFrom : Nat → List Char → List (List Char)
  | _, [] => [[]]
  | skip + 1, _ :: rest => splitFrom skip rest
  | 0, c :: rest =>
      match separatorLength (c :: rest) with
      | 0 => (splitFrom 0 rest).modifyHead (c :: ·)
      | skip + 1 => [] :: splitFrom skip rest

/-- `re.split(r'\|\s*(?=bash:|ps:|python:)', command_string)`. -/
def split (commandString : List Char) : List (List Char) := splitFrom 0 commandString

variable (auditors : Auditors)

/-- One turn of the loop over the parts: the steps and the capabilities so far. -/
def addPart (acc : List ExecutionStep × Finset Capability) (part : List Char) :
    List ExecutionStep × Finset Capability :=
  let part := Text.strip part
  if part = [] then acc
  else
    let shell := determineShell part
    let cleanCmd := String.ofList (cleanCommand part)
    (acc.1 ++ [{ shell := shell, command := cleanCmd }],
      acc.2 ∪ CapabilityMapper.resolveForCommand auditors cleanCmd none)

/-- `parse_raw_pipeline`. -/
def parseRawPipeline (intent commandString : String) : UCER :=
  let rawParts := split commandString.toList
  let (steps, totalCaps) := rawParts.foldl (addPart auditors) ([], ∅)
  { intent := intent
    requiredCapabilities := totalCaps
    executionSteps := steps
    expectedOutputs := some { format := "text" } }

/-! ## What the loop makes of the parts -/

/-- The step a part becomes, unless it is blank. -/
def stepOf (part : List Char) : Option ExecutionStep :=
  let part := Text.strip part
  if part = [] then none
  else some { shell := determineShell part, command := String.ofList (cleanCommand part) }

/-- The steps of a pipeline string. -/
def pipelineSteps (commandString : String) : List ExecutionStep :=
  (split commandString.toList).filterMap stepOf

variable {auditors}

theorem addPart_eq (acc : List ExecutionStep × Finset Capability) (part : List Char) :
    addPart auditors acc part =
      (acc.1 ++ (stepOf part).toList,
        (stepOf part).elim acc.2 fun step =>
          acc.2 ∪ CapabilityMapper.resolveForCommand auditors step.command none) := by
  unfold addPart stepOf
  by_cases hblank : Text.strip part = []
  · simp [hblank]
  · simp [hblank]

/-- What the loop adds to the steps and to the capabilities. -/
theorem foldl_addPart (auditors : Auditors) (parts : List (List Char))
    (acc : List ExecutionStep × Finset Capability) :
    (parts.foldl (addPart auditors) acc).1 = acc.1 ++ parts.filterMap stepOf ∧
      ∀ c, c ∈ (parts.foldl (addPart auditors) acc).2 ↔
        c ∈ acc.2 ∨ ∃ step ∈ parts.filterMap stepOf,
          c ∈ CapabilityMapper.resolveForCommand auditors step.command none := by
  induction parts generalizing acc with
  | nil => simp
  | cons part parts ih =>
      rw [List.foldl_cons, addPart_eq]
      cases hstep : stepOf part with
      | none =>
          obtain ⟨hsteps, hcaps⟩ := ih (acc.1 ++ [], acc.2)
          rw [List.filterMap_cons_none hstep]
          exact ⟨by simpa using hsteps, hcaps⟩
      | some step =>
          obtain ⟨hsteps, hcaps⟩ := ih (acc.1 ++ [step],
            acc.2 ∪ CapabilityMapper.resolveForCommand auditors step.command none)
          rw [List.filterMap_cons_some hstep]
          refine ⟨by simpa using hsteps, fun c => (hcaps c).trans ?_⟩
          rw [Finset.mem_union, List.exists_mem_cons_iff, or_assoc]

/-- **The steps the parser makes.** -/
theorem steps_parseRawPipeline (intent commandString : String) :
    (parseRawPipeline auditors intent commandString).executionSteps =
      pipelineSteps commandString :=
  (foldl_addPart auditors (split commandString.toList) ([], ∅)).1

/-- **The capabilities it asks for**: what the mapper finds for the command of some step. -/
theorem mem_capabilities_parseRawPipeline {intent commandString : String} {c : Capability} :
    c ∈ (parseRawPipeline auditors intent commandString).requiredCapabilities ↔
      ∃ step ∈ pipelineSteps commandString,
        c ∈ CapabilityMapper.resolveForCommand auditors step.command none := by
  have hcaps := (foldl_addPart auditors (split commandString.toList) ([], ∅)).2 c
  exact hcaps.trans (or_iff_right (Finset.notMem_empty c))

/-! ## Writing a pipeline and parsing it -/

/-- A pipeline string: each command behind its prefix, ` | ` between two of them. -/
def pipelineText (pairs : List (Shell × String)) : String :=
  " | ".intercalate (pairs.map fun pair => String.ofList pair.1.tag ++ pair.2)

/-- A command in which no pipe is followed, perhaps after blanks, by a prefix. -/
def NoSeparator (command : List Char) : Prop :=
  ∀ before blanks behind shell, Text.Blank blanks →
    command ≠ before ++ '|' :: (blanks ++ (Shell.tag shell ++ behind))

theorem atTag_iff {s : List Char} : atTag s = true ↔ ∃ shell, Shell.tag shell <+: s := by
  simp only [atTag, Bool.or_eq_true, List.isPrefixOf_iff_prefix]
  constructor
  · rintro ((h | h) | h)
    · exact ⟨.bash, h⟩
    · exact ⟨.powershell, h⟩
    · exact ⟨.python, h⟩
  · rintro ⟨shell, h⟩
    cases shell with
    | powershell => exact Or.inl (Or.inr h)
    | bash => exact Or.inl (Or.inl h)
    | python => exact Or.inr h

/-- Prefixes are made of neither blanks nor pipes. -/
theorem mem_tag {shell : Shell} {c : Char} (h : c ∈ shell.tag) :
    Text.isSpace c = false ∧ c ≠ '|' := by
  have hall : (shell.tag.all fun c => decide (Text.isSpace c = false ∧ c ≠ '|')) = true := by
    cases shell <;> decide
  exact of_decide_eq_true (List.all_eq_true.mp hall c h)

theorem tag_ne_nil (shell : Shell) : shell.tag ≠ [] := by cases shell <;> decide

theorem dropWhile_blanks_tag {blanks : List Char} (h : Text.Blank blanks) (shell : Shell)
    (behind : List Char) :
    (blanks ++ (shell.tag ++ behind)).dropWhile Text.isSpace = shell.tag ++ behind := by
  obtain ⟨d, ds, htag⟩ := List.exists_cons_of_ne_nil (tag_ne_nil shell)
  have hd : Text.isSpace d = false := (mem_tag (htag ▸ List.mem_cons_self)).1
  rw [List.dropWhile_append_of_pos h, htag, List.cons_append,
    List.dropWhile_cons_of_neg (by simp [hd])]

/-- Such a command is one in which the regular expression matches nowhere. -/
theorem noSeparator_iff {command : List Char} :
    NoSeparator command ↔ ∀ s ∈ command.tails, separatorLength s = 0 := by
  constructor
  · intro hsep s hs
    obtain ⟨before, rfl⟩ := (List.mem_tails s command).mp hs
    cases s with
    | nil => rfl
    | cons c rest =>
        rw [separatorLength, if_neg]
        rintro ⟨rfl, htag⟩
        obtain ⟨shell, behind, hbehind⟩ := atTag_iff.mp htag
        refine hsep before (rest.takeWhile Text.isSpace) behind shell (Text.blank_takeWhile rest) ?_
        rw [hbehind, List.takeWhile_append_dropWhile]
  · rintro hall before blanks behind shell hblanks rfl
    have hzero := hall ('|' :: (blanks ++ (shell.tag ++ behind)))
      ((List.mem_tails _ _).mpr (List.suffix_append before _))
    have htag : atTag ((blanks ++ (shell.tag ++ behind)).dropWhile Text.isSpace) = true := by
      rw [dropWhile_blanks_tag hblanks]
      exact atTag_iff.mpr ⟨shell, List.prefix_append _ behind⟩
    rw [separatorLength, if_pos ⟨rfl, htag⟩] at hzero
    omega

instance (command : List Char) : Decidable (NoSeparator command) :=
  decidable_of_iff _ noSeparator_iff.symm

/-- What can follow a command in a pipeline string: the end, or a separator. -/
def Joint (tail : List Char) : Prop := tail = [] ∨ ∃ rest, tail = ' ' :: '|' :: rest

/-- No separator begins inside a command, nor across the joint behind it. -/
theorem separatorLength_suffix {command s tail : List Char} (hsep : NoSeparator command)
    (hstrip : Text.strip command = command) (hjoint : Joint tail) (hne : s ≠ [])
    (hs : s <:+ command) : separatorLength (s ++ tail) = 0 := by
  obtain ⟨before, rfl⟩ := hs
  cases s with
  | nil => exact absurd rfl hne
  | cons c s =>
      rw [List.cons_append, separatorLength, if_neg]
      rintro ⟨rfl, htag⟩
      obtain ⟨shell, htag⟩ := atTag_iff.mp htag
      by_cases hblank : Text.Blank s
      · -- nothing but blanks behind the pipe: then there are none, and the joint is no prefix
        have hnil : s = [] := by
          rcases List.eq_nil_or_concat s with rfl | ⟨init, last, rfl⟩
          · rfl
          · have hlast := (Text.strip_eq_self_iff.mp hstrip).2 last (by
              rw [List.concat_eq_append, ← List.cons_append, ← List.append_assoc]
              exact List.getLast?_concat)
            rw [hblank last (by simp)] at hlast
            exact absurd hlast (by decide)
        subst hnil
        rcases hjoint with rfl | ⟨rest, rfl⟩
        · exact tag_ne_nil shell (List.prefix_nil.mp htag)
        · obtain ⟨d, ds, htagd⟩ := List.exists_cons_of_ne_nil (tag_ne_nil shell)
          have hdrop : ([] ++ ' ' :: '|' :: rest).dropWhile Text.isSpace = '|' :: rest := rfl
          rw [htagd, hdrop, List.cons_prefix_cons] at htag
          exact (mem_tag (htagd ▸ List.mem_cons_self)).2 htag.1
      · have hdrop : s.dropWhile Text.isSpace ≠ [] :=
          fun hnil => hblank (List.dropWhile_eq_nil_iff.mp hnil)
        rw [List.dropWhile_append, if_neg (by simpa using hdrop)] at htag
        rcases List.prefix_or_prefix_of_prefix htag (List.prefix_append _ tail) with
          hinside | ⟨cut, hcut⟩
        · -- the prefix lies inside the command
          obtain ⟨behind, hbehind⟩ := hinside
          refine hsep before (s.takeWhile Text.isSpace) behind shell (Text.blank_takeWhile s) ?_
          rw [hbehind, List.takeWhile_append_dropWhile]
        · -- the prefix reaches across the joint, over a blank
          rw [← hcut, List.prefix_append_right_inj] at htag
          cases cut with
          | nil =>
              refine hsep before (s.takeWhile Text.isSpace) [] shell (Text.blank_takeWhile s) ?_
              rw [List.append_nil, ← hcut, List.append_nil, List.takeWhile_append_dropWhile]
          | cons d cut =>
              have hd : d = ' ' := by
                rcases hjoint with rfl | ⟨rest, rfl⟩
                · exact absurd (List.prefix_nil.mp htag) (List.cons_ne_nil d cut)
                · exact (List.cons_prefix_cons.mp htag).1
              have hmem : d ∈ shell.tag := hcut ▸ List.mem_append_right _ List.mem_cons_self
              have hspace := (mem_tag hmem).1
              rw [hd] at hspace
              exact absurd hspace (by decide)

/-- The scan passes over a text in which no separator begins. -/
theorem splitFrom_append {part tail : List Char}
    (h : ∀ s, s ≠ [] → s <:+ part → separatorLength (s ++ tail) = 0) :
    splitFrom 0 (part ++ tail) = (splitFrom 0 tail).modifyHead (part ++ ·) := by
  induction part with
  | nil =>
      rw [List.nil_append]
      cases splitFrom 0 tail with
      | nil => rfl
      | cons first parts => rfl
  | cons c part ih =>
      have hhead := h (c :: part) (List.cons_ne_nil c part) List.suffix_rfl
      have htail := ih fun s hne hs => h s hne (hs.trans (List.suffix_cons c part))
      rw [List.cons_append] at hhead ⊢
      rw [splitFrom, hhead]
      simp only [htail, List.modifyHead_modifyHead]
      rfl

/-- No separator begins in a command written with its prefix. -/
theorem splitFrom_command (shell : Shell) {command : List Char} (hsep : NoSeparator command)
    (hstrip : Text.strip command = command) {tail : List Char} (hjoint : Joint tail) :
    splitFrom 0 (shell.tag ++ command ++ tail) =
      (splitFrom 0 tail).modifyHead (shell.tag ++ command ++ ·) := by
  have htag : ∀ s, s ≠ [] → s <:+ shell.tag → separatorLength (s ++ (command ++ tail)) = 0 := by
    intro s hne hs
    obtain ⟨d, s, rfl⟩ := List.exists_cons_of_ne_nil hne
    have hd := (mem_tag (hs.subset List.mem_cons_self)).2
    rw [List.cons_append, separatorLength, if_neg (fun h => hd h.1)]
  have hcommand : ∀ s, s ≠ [] → s <:+ command → separatorLength (s ++ tail) = 0 :=
    fun s hne hs => separatorLength_suffix hsep hstrip hjoint hne hs
  rw [List.append_assoc, splitFrom_append htag, splitFrom_append hcommand,
    List.modifyHead_modifyHead]
  congr 1
  funext s
  rw [Function.comp_apply, List.append_assoc]

/-- A separator between two commands is found, and takes the blank behind the pipe. -/
theorem splitFrom_separator {text : List Char} (h : atTag text = true) :
    splitFrom 0 (' ' :: '|' :: ' ' :: text) = [' '] :: splitFrom 0 text := by
  obtain ⟨shell, rest, rfl⟩ := atTag_iff.mp h
  obtain ⟨d, ds, htag⟩ := List.exists_cons_of_ne_nil (tag_ne_nil shell)
  have hd : Text.isSpace d = false := (mem_tag (htag ▸ List.mem_cons_self)).1
  rw [htag, List.cons_append] at h ⊢
  have hblanks : (' ' :: d :: (ds ++ rest)).takeWhile Text.isSpace = [' '] := by
    rw [List.takeWhile_cons_of_pos rfl, List.takeWhile_cons_of_neg (by simp [hd])]
  have hbehind : (' ' :: d :: (ds ++ rest)).dropWhile Text.isSpace = d :: (ds ++ rest) := by
    rw [List.dropWhile_cons_of_pos rfl, List.dropWhile_cons_of_neg (by simp [hd])]
  have hblank : separatorLength (' ' :: '|' :: ' ' :: d :: (ds ++ rest)) = 0 := rfl
  have hpipe : separatorLength ('|' :: ' ' :: d :: (ds ++ rest)) = 2 := by
    rw [separatorLength, hbehind, hblanks, if_pos ⟨rfl, h⟩]
    rfl
  rw [splitFrom, hblank]
  simp only [splitFrom, hpipe, List.modifyHead_cons]

/-- A part that is a command behind its prefix, a blank perhaps behind it, becomes the step
of this command and shell. -/
theorem stepOf_command (shell : Shell) {command : List Char}
    (hstrip : Text.strip command = command) {blanks : List Char} (hblanks : Text.Blank blanks) :
    stepOf (shell.tag ++ command ++ blanks) =
      some { shell := shell, command := String.ofList command } := by
  have hpart : Text.strip (shell.tag ++ command) = shell.tag ++ command := by
    rw [Text.strip_eq_self_iff]
    obtain ⟨d, ds, htag⟩ := List.exists_cons_of_ne_nil (tag_ne_nil shell)
    constructor
    · intro c hc
      rw [htag, List.cons_append, List.head?_cons, Option.mem_some_iff] at hc
      exact hc ▸ (mem_tag (htag ▸ List.mem_cons_self)).1
    · intro c hc
      rw [List.getLast?_append] at hc
      cases hlast : command.getLast? with
      | none =>
          rw [hlast, Option.none_or] at hc
          exact (mem_tag (List.mem_of_getLast? hc)).1
      | some d =>
          rw [hlast, Option.some_or, Option.mem_some_iff] at hc
          exact hc ▸ (Text.strip_eq_self_iff.mp hstrip).2 d hlast
  have hne : shell.tag ++ command ≠ [] := List.append_ne_nil_of_left_ne_nil (tag_ne_nil shell) _
  have hshell : determineShell (shell.tag ++ command) = shell := by
    cases shell <;> rfl
  have hclean : cleanCommand (shell.tag ++ command) = command := by
    cases shell <;> exact hstrip
  unfold stepOf
  rw [Text.strip_append_blank _ hblanks, hpart, if_neg hne, hshell, hclean]

theorem toList_pipelineText_cons (pair : Shell × String) {pairs : List (Shell × String)}
    (h : pairs ≠ []) : (pipelineText (pair :: pairs)).toList =
      pair.1.tag ++ pair.2.toList ++ ' ' :: '|' :: ' ' :: (pipelineText pairs).toList := by
  rw [pipelineText, List.map_cons, String.intercalate_cons_of_ne_nil (by simpa using h)]
  simp [pipelineText]

/-- A pipeline string of some commands begins with a prefix. -/
theorem atTag_pipelineText {pairs : List (Shell × String)} (h : pairs ≠ []) :
    atTag (pipelineText pairs).toList = true := by
  obtain ⟨pair, pairs, rfl⟩ := List.exists_cons_of_ne_nil h
  refine atTag_iff.mpr ⟨pair.1, ?_⟩
  by_cases hpairs : pairs = []
  · subst hpairs
    simp [pipelineText]
  · rw [toList_pipelineText_cons pair hpairs, List.append_assoc]
    exact List.prefix_append _ _

/-- The steps of a pipeline string that was written from commands. -/
theorem pipelineSteps_pipelineText {pairs : List (Shell × String)}
    (hstrip : ∀ pair ∈ pairs, Text.strip pair.2.toList = pair.2.toList)
    (hsep : ∀ pair ∈ pairs, NoSeparator pair.2.toList) :
    pipelineSteps (pipelineText pairs) =
      pairs.map fun pair => { shell := pair.1, command := pair.2 } := by
  induction pairs with
  | nil => decide
  | cons pair pairs ih =>
      obtain ⟨hstrip₁, hstrip₂⟩ := List.forall_mem_cons.mp hstrip
      obtain ⟨hsep₁, hsep₂⟩ := List.forall_mem_cons.mp hsep
      by_cases hpairs : pairs = []
      · subst hpairs
        have htext : (pipelineText [pair]).toList = pair.1.tag ++ pair.2.toList ++ [] := by
          simp [pipelineText]
        have hstep := stepOf_command pair.1 hstrip₁ (List.forall_mem_nil _)
        rw [pipelineSteps, split, htext, splitFrom_command pair.1 hsep₁ hstrip₁ (Or.inl rfl),
          splitFrom, List.modifyHead_cons, List.filterMap_cons_some hstep]
        simp
      · have hstep := stepOf_command pair.1 hstrip₁ (by decide : Text.Blank [' '])
        rw [pipelineSteps, split, toList_pipelineText_cons pair hpairs,
          splitFrom_command pair.1 hsep₁ hstrip₁ (Or.inr ⟨_, rfl⟩),
          splitFrom_separator (atTag_pipelineText hpairs), List.modifyHead_cons,
          List.filterMap_cons_some hstep, ← split, ← pipelineSteps, ih hstrip₂ hsep₂]
        simp

/-- **Parsing inverts writing.**  Commands without surrounding blanks and without a separator
inside come back from the string they are written into, in their order, each under its own
shell and with the defaults of a step. -/
theorem parseRawPipeline_pipelineText (auditors : Auditors) (intent : String)
    (pairs : List (Shell × String))
    (hstrip : ∀ pair ∈ pairs, Text.strip pair.2.toList = pair.2.toList)
    (hsep : ∀ pair ∈ pairs, NoSeparator pair.2.toList) :
    (parseRawPipeline auditors intent (pipelineText pairs)).executionSteps =
      pairs.map fun pair => { shell := pair.1, command := pair.2 } := by
  rw [steps_parseRawPipeline]
  exact pipelineSteps_pipelineText hstrip hsep

/-- Auditors that find nothing but `EXEC`. -/
def execAuditors : Auditors where
  bash _ := ⟨true, [], {.exec}⟩
  powershell _ := ⟨true, [], {.exec}⟩

/-- A command without a pipe, one that ends in a pipe, and an empty one: these come back. -/
theorem parseRawPipeline_three :
    (parseRawPipeline execAuditors "list" (pipelineText
      [(.powershell, "bash:ls"), (.bash, "cat x|"), (.python, "")])).executionSteps =
      [{ shell := .powershell, command := "bash:ls" }, { shell := .bash, command := "cat x|" },
        { shell := .python, command := "" }] :=
  parseRawPipeline_pipelineText execAuditors "list" _ (by decide) (by decide)

/-! ## Which capabilities a record asks for -/

/-- The auditor of a shell, if it has one. -/
def auditorOf (auditors : Auditors) : Shell → Option (String → AuditResult)
  | .bash => some auditors.bash
  | .powershell => some auditors.powershell
  | .python => none

/-- What the auditor of a step's own shell finds in its command. -/
def auditedCapabilities (auditors : Auditors) (step : ExecutionStep) : Finset Capability :=
  (auditorOf auditors step.shell).elim ∅ fun auditor => (auditor step.command).capabilities

/-- A record that asks for everything its steps are found to need. -/
def Covered (auditors : Auditors) (ucer : UCER) : Prop :=
  ∀ step ∈ ucer.executionSteps, auditedCapabilities auditors step ⊆ ucer.requiredCapabilities

/-- A step the capability mapper takes for a command of the other shell: a Bash command that
mentions a PowerShell token, or a PowerShell command that mentions none. -/
def Misrouted (step : ExecutionStep) : Prop :=
  step.shell = .bash ∧ CapabilityMapper.guessAdapter step.command = .powershell ∨
    step.shell = .powershell ∧ CapabilityMapper.guessAdapter step.command = .bash

instance (step : ExecutionStep) : Decidable (Misrouted step) :=
  inferInstanceAs (Decidable (_ ∨ _))

/-- The auditor the mapper picks is that of the step's own shell, unless the step is
misrouted. -/
theorem auditedCapabilities_subset {auditors : Auditors} {step : ExecutionStep}
    (h : ¬ Misrouted step) : auditedCapabilities auditors step ⊆
      CapabilityMapper.resolveForCommand auditors step.command none := by
  obtain ⟨hbash, hpowershell⟩ := not_or.mp h
  unfold auditedCapabilities CapabilityMapper.resolveForCommand
  cases hshell : step.shell with
  | python => exact Finset.empty_subset _
  | bash =>
      have hguess : CapabilityMapper.guessAdapter step.command = .bash := by
        unfold CapabilityMapper.guessAdapter at hbash ⊢
        split_ifs at hbash ⊢ with htoken
        · exact absurd ⟨hshell, rfl⟩ hbash
        · rfl
      simp [hguess, auditorOf]
  | powershell =>
      have hguess : CapabilityMapper.guessAdapter step.command = .powershell := by
        unfold CapabilityMapper.guessAdapter at hpowershell ⊢
        split_ifs at hpowershell ⊢ with htoken
        · rfl
        · exact absurd ⟨hshell, rfl⟩ hpowershell
      simp [hguess, auditorOf]

/-- **The capabilities cover every step** exactly when what the auditor of a misrouted step's
own shell finds is found, for this or another step, by the auditor the mapper takes. -/
theorem covered_parseRawPipeline_iff {auditors : Auditors} {intent commandString : String} :
    Covered auditors (parseRawPipeline auditors intent commandString) ↔
      ∀ step ∈ pipelineSteps commandString, Misrouted step →
        ∀ c ∈ auditedCapabilities auditors step, ∃ other ∈ pipelineSteps commandString,
          c ∈ CapabilityMapper.resolveForCommand auditors other.command none := by
  unfold Covered
  rw [steps_parseRawPipeline]
  constructor
  · intro hcovered step hstep _ c hc
    exact mem_capabilities_parseRawPipeline.mp (hcovered step hstep hc)
  · intro hmisrouted step hstep c hc
    rw [mem_capabilities_parseRawPipeline]
    by_cases h : Misrouted step
    · exact hmisrouted step hstep h c hc
    · exact ⟨step, hstep, auditedCapabilities_subset h hc⟩

/-- An auditor that finds `EXEC` in one command and nothing in any other. -/
def findsIn (command : String) : String → AuditResult :=
  fun text => ⟨true, [], if text = command then {.exec} else ∅⟩

/-- An auditor that finds nothing. -/
def findsNothing : String → AuditResult := fun _ => ⟨true, [], ∅⟩

theorem mem_findsIn {command text : String} {c : Capability} :
    c ∈ (findsIn command text).capabilities ↔ text = command ∧ c = .exec := by
  unfold findsIn
  split_ifs with h <;> simp [h]

/-- For a misrouted step there are auditors of which only its own finds something, and the
mapper does not ask that one. -/
theorem exists_auditors_of_misrouted {step : ExecutionStep} (h : Misrouted step) :
    ∃ auditors, .exec ∈ auditedCapabilities auditors step ∧
      ∀ command, .exec ∉ CapabilityMapper.resolveForCommand auditors command none := by
  rcases h with ⟨hshell, hguess⟩ | ⟨hshell, hguess⟩
  · refine ⟨⟨findsIn step.command, findsNothing⟩,
      by simp [auditedCapabilities, hshell, auditorOf, mem_findsIn], fun command hmem => ?_⟩
    simp only [CapabilityMapper.resolveForCommand, Option.getD_none] at hmem
    split_ifs at hmem with hadapter
    · rw [mem_findsIn] at hmem
      rw [hmem.1, hguess] at hadapter
      exact absurd hadapter (by decide)
    · simp [findsNothing] at hmem
  · refine ⟨⟨findsNothing, findsIn step.command⟩,
      by simp [auditedCapabilities, hshell, auditorOf, mem_findsIn], fun command hmem => ?_⟩
    simp only [CapabilityMapper.resolveForCommand, Option.getD_none] at hmem
    split_ifs at hmem with hadapter
    · simp [findsNothing] at hmem
    · rw [mem_findsIn] at hmem
      rw [hmem.1, hguess] at hadapter
      exact absurd hadapter (by decide)

/-- **Whatever the auditors find is covered** exactly when no step is misrouted. -/
theorem forall_covered_iff {intent commandString : String} :
    (∀ auditors, Covered auditors (parseRawPipeline auditors intent commandString)) ↔
      ∀ step ∈ pipelineSteps commandString, ¬ Misrouted step := by
  constructor
  · intro hcovered step hstep hmisrouted
    obtain ⟨auditors, hfound, hnever⟩ := exists_auditors_of_misrouted hmisrouted
    obtain ⟨other, -, hother⟩ := covered_parseRawPipeline_iff.mp (hcovered auditors) step hstep
      hmisrouted .exec hfound
    exact hnever other.command hother
  · intro hrouted auditors
    rw [covered_parseRawPipeline_iff]
    intro step hstep hmisrouted
    exact absurd hmisrouted (hrouted step hstep)

/-- **When the capabilities of a parsed pipeline cover its steps**: for given auditors, and for
whichever auditors. -/
theorem parsed_capabilities_cover_iff (intent commandString : String) :
    (∀ auditors, Covered auditors (parseRawPipeline auditors intent commandString) ↔
      ∀ step ∈ pipelineSteps commandString, Misrouted step →
        ∀ c ∈ auditedCapabilities auditors step, ∃ other ∈ pipelineSteps commandString,
          c ∈ CapabilityMapper.resolveForCommand auditors other.command none) ∧
      ((∀ auditors, Covered auditors (parseRawPipeline auditors intent commandString)) ↔
        ∀ step ∈ pipelineSteps commandString, ¬ Misrouted step) :=
  ⟨fun _ => covered_parseRawPipeline_iff, forall_covered_iff⟩

/-- The repository's auditors, on a command whose Bash tree is that of `rm get-well.txt`. -/
def auditorsOfRemoval : Auditors where
  bash := Bash.audit fun _ => .ok [.command [.word "rm" [], .word "get-well.txt" []]]
  powershell := PsDaemon.audit (· == ·) PsDaemon.parseWord (.ok ())

/-- `bash:rm get-well.txt` mentions `get-`, so the mapper asks the PowerShell auditor, and the
record does not ask for `WRITE_FS`. -/
theorem removal_not_covered :
    ¬ ∀ (auditors : Auditors) (intent commandString : String),
      Covered auditors (parseRawPipeline auditors intent commandString) := by
  intro hcovered
  have hstep : pipelineSteps "bash:rm get-well.txt" =
      [{ shell := .bash, command := "rm get-well.txt" }] := by decide
  obtain ⟨other, hother, hc⟩ := covered_parseRawPipeline_iff.mp
    (hcovered auditorsOfRemoval "remove" "bash:rm get-well.txt")
    { shell := .bash, command := "rm get-well.txt" } (by rw [hstep]; exact List.mem_singleton_self _)
    (by decide) .writeFs (by decide)
  rw [hstep, List.mem_singleton] at hother
  subst hother
  have hguess : CapabilityMapper.guessAdapter "rm get-well.txt" = .powershell := by decide
  have hpick : CapabilityMapper.resolveForCommand auditorsOfRemoval "rm get-well.txt" none =
      (auditorsOfRemoval.powershell "rm get-well.txt").capabilities := by
    rw [CapabilityMapper.resolveForCommand, Option.getD_none, hguess]
    rfl
  rw [hpick] at hc
  exact absurd (PsDaemon.capabilities_audit_subset _ _ _ _ hc) (by decide)

end SemanticParser
end Semantic
end Ucser
