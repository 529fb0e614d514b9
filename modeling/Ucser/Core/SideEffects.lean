import Ucser.Core.SandboxRun
import Ucser.Lib.Lines
import Ucser.Lib.Transition

/-!
# The side effects of a step: `docker diff` in `SandboxExecutor.run`

`docker diff` compares the file system of the container with the one it has been started with.
What `run` returns for a command is taken from that, and stored with the step.

* `Change`, `between` — what can become of a path.
* `Diff`, `output`, `Command`, `container` — the output of `docker diff`, and the commands that
  are run in one container.
* `Exact` — the side effects are those of the command.
* `Settled`, `Shadowed`, `Broken`, `Stray`, `Told` — what the output says about a path.
* `between_eq_iff` — **when the change since the start is that of the command**.
* `filterMap_splitlines_output` — the entries, line by line.
* `exact_iff_condition`, `exact_iff` — **when the side effects are those of the step**.
-/

namespace Ucser
namespace SideEffects

open Sandbox

/-! ## Changes -/

/-- What has become of a path. -/
inductive Change where
  | added
  | modified
  | deleted
  deriving DecidableEq

/-- The letter of `docker diff`. -/
def Change.code : Change → Char
  | .added => 'A'
  | .modified => 'C'
  | .deleted => 'D'

/-- The key in `side_effects`. -/
def Change.field : Change → String
  | .added => "files_added"
  | .modified => "files_modified"
  | .deleted => "files_deleted"

variable {γ : Type} [DecidableEq γ]

/-- What stands at the paths, in all that is compared. -/
abbrev Files (γ : Type) := String → Option γ

/-- What becomes of a path from one state to another. -/
def between : Option γ → Option γ → Option Change
  | none, none => none
  | none, some _ => some .added
  | some _, none => some .deleted
  | some x, some y => if x = y then none else some .modified

/-- Every path that is not as at the start, once, in some order. -/
structure Diff (start now : Files γ) (lines : List (Change × String)) : Prop where
  nodup : lines.Nodup
  mem_iff : ∀ kind path, (kind, path) ∈ lines ↔ between (start path) (now path) = some kind

/-- A line of `docker diff`. -/
def diffLine (line : Change × String) : List Char :=
  line.1.code :: ' ' :: line.2.toList ++ ['\n']

/-- The output of `docker diff`, read as text. -/
def output (lines : List (Change × String)) : String :=
  String.ofList (Lines.universal false (lines.flatMap diffLine))

/-! ## Commands in one container -/

/-- A command that is run in a container, what the outside answers meanwhile, the files after
it, and what `docker diff` lists then. -/
structure Command (start : Files γ) where
  text : String
  marker : String
  answers : Answers
  after : Files γ
  lines : List (Change × String)
  diff : Diff start after lines

section Run

variable {start : Files γ} (executionTimeout : Nat) (shell : Adapter)

/-- The answers, with that of `docker diff`. -/
def Command.told (c : Command start) : Answers :=
  { c.answers with diff := .ok (output c.lines) }

/-- What `run` returns. -/
def Command.result (c : Command start) : RunResult :=
  execute executionTimeout shell c.text c.marker c.told

/-- Does `run` remove the container? -/
def Command.removes (c : Command start) : Bool :=
  match (attempt executionTimeout shell c.text c.marker c.told).2 with
  | .error e => e.cleansUp
  | .ok _ => false

/-- The files of a container that has been started with `start`, until it is removed. -/
def container (start : Files γ) : System (Option (Files γ)) (Command start) where
  step s c := s.map fun _ => if c.removes executionTimeout shell then none else some c.after

/-- The paths in one of the lists of `side_effects`. -/
def reported (result : RunResult) (kind : Change) : List String :=
  match Json.get? (result.sideEffects.getD []) kind.field with
  | some (.arr items) => items.filterMap fun
      | .str path => some path
      | _ => none
  | _ => []

/-- A path is one of the ignored locations, or inside of one. -/
def Ignored (path : String) : Prop :=
  ∃ location ∈ ignoredPrefixes, path = location ∨ location.toList ++ ['/'] <+: path.toList

/-- The side effects list exactly what the command has changed outside the ignored
locations. -/
def Exact (s : Option (Files γ)) (c : Command start) : Prop :=
  ∀ before, s = some before → ∀ kind path,
    path ∈ reported (c.result executionTimeout shell) kind ↔
      between (before path) (c.after path) = some kind ∧ ¬ Ignored path

/-! ## What the output says -/

/-- The run gets as far as `docker diff`. -/
def Finishes (c : Command start) : Prop :=
  c.answers.died = false ∧ c.answers.write (wrap shell c.text c.marker) = none ∧
    ∃ exitCode, (loop executionTimeout c.marker c.answers.rounds {}).2 = .ok exitCode

/-- A path begins with the letters of an ignored location. -/
def Shadowed (path : String) : Prop :=
  ∃ location ∈ ignoredPrefixes, location.toList <+: path.toList

/-- There is a line separator in a path. -/
def Broken (path : String) : Prop :=
  ∃ c ∈ path.toList, isLineBreak c = true ∨ c = '\r'

/-- A path has a line of its own, which is not passed over. -/
def Shown (path : String) : Prop := ¬ Broken path ∧ ¬ Shadowed path

/-- The entries that a line of `docker diff` is read as. -/
def entriesOf (line : Change × String) : List (List Char × List Char) :=
  (splitlines (Lines.universal false (diffLine line))).filterMap diffEntry

/-- The rest of a path with a line separator reads as an entry. -/
def Stray (start now : Files γ) (kind : Change) (path : String) : Prop :=
  ∃ line : Change × String, between (start line.2) (now line.2) = some line.1 ∧
    Broken line.2 ∧ ([kind.code], path.toList) ∈ entriesOf line

/-- Before the command a path was as at the start; or it was there both times, and the command
has deleted it, or made it different from both. -/
def Settled (start before after : Option γ) : Prop :=
  start = before ∨ (start ≠ none ∧ before ≠ none ∧ after ≠ start ∧ after ≠ before)

/-- What the output says about a path is what the command has done: a path that is not shown
has not been changed, one that is shown is settled, and a stray entry is true. -/
structure Told (start before after : Files γ) (path : String) : Prop where
  hidden : ¬ Shown path → before path = after path
  shown : Shown path → Settled (start path) (before path) (after path) ∨
    (start path = after path ∧ ∃ kind, Stray start after kind path)
  stray : ∀ kind, Stray start after kind path → between (before path) (after path) = some kind

/-- The condition on a command: a run that raises has changed nothing, and one that does not is
told as it is. -/
def Condition (s : Option (Files γ)) (c : Command start) : Prop :=
  ∀ before, s = some before → ∀ path, ¬ Ignored path →
    (¬ Finishes executionTimeout shell c → before path = c.after path) ∧
      (Finishes executionTimeout shell c → Told start before c.after path)

end Run

/-! ## Two changes -/

theorem between_eq_none_iff {x y : Option γ} : between x y = none ↔ x = y := by
  cases x with
  | none => cases y <;> simp [between]
  | some x => cases y <;> simp [between]

/-- **When the change since the start is that of the command.**  By cases on what is there. -/
theorem between_eq_iff {start before after : Option γ} :
    between start after = between before after ↔ Settled start before after := by
  unfold Settled
  cases start with
  | none =>
      cases before with
      | none => simp
      | some y =>
          cases after with
          | none => simp [between]
          | some z => by_cases hy : y = z <;> simp [between, hy]
  | some x =>
      cases before with
      | none =>
          cases after with
          | none => simp [between]
          | some z => by_cases hx : x = z <;> simp [between, hx]
      | some y =>
          cases after with
          | none => simp [between]
          | some z =>
              by_cases hx : x = z
              · by_cases hy : y = z <;> simp [between, hx, hy, eq_comm]
              · by_cases hy : y = z <;> simp [between, hx, hy, eq_comm]

/-! ## Lines -/

/-- A text that ends in a line feed still does when it has been read. -/
theorem exists_universal (afterCr : Bool) (a : List Char) (h : afterCr = false ∨ a ≠ []) :
    ∃ front, Lines.universal afterCr (a ++ ['\n']) = front ++ ['\n'] := by
  induction a generalizing afterCr with
  | nil =>
      obtain rfl := h.resolve_right (not_not_intro rfl)
      exact ⟨[], rfl⟩
  | cons c a ih =>
      rw [List.cons_append, Lines.universal]
      split_ifs
      · by_cases hnil : a = []
        · subst hnil
          exact ⟨[], rfl⟩
        · obtain ⟨front, hfront⟩ := ih true (Or.inr hnil)
          exact ⟨'\n' :: front, by rw [hfront]; rfl⟩
      · exact ih false (Or.inl rfl)
      · obtain ⟨front, hfront⟩ := ih false (Or.inl rfl)
        exact ⟨c :: front, by rw [hfront]; rfl⟩

theorem code_ne_newline (kind : Change) : kind.code ≠ '\n' := by
  cases kind <;> decide

theorem code_ne_blank (kind : Change) : kind.code ≠ ' ' := by
  cases kind <;> decide

theorem code_injective : Function.Injective Change.code := by
  intro kind kind' h
  cases kind <;> cases kind' <;> first | rfl | exact absurd h (by decide)

/-- A line of `docker diff` is read for itself. -/
theorem universal_diffLine_append (line : Change × String) (lines : List (Change × String)) :
    Lines.universal false (diffLine line ++ lines.flatMap diffLine) =
      Lines.universal false (diffLine line) ++ Lines.universal false (lines.flatMap diffLine) := by
  cases lines with
  | nil => simp
  | cons next lines => exact Lines.universal_append false _ _ (code_ne_newline next.1)

/-- **The entries, line by line.**  By induction on the lines. -/
theorem filterMap_splitlines_output (lines : List (Change × String)) :
    (splitlines (output lines).toList).filterMap diffEntry = lines.flatMap entriesOf := by
  rw [output, String.toList_ofList]
  induction lines with
  | nil => rfl
  | cons line lines ih =>
      obtain ⟨front, hfront⟩ := exists_universal false (line.1.code :: ' ' :: line.2.toList)
        (Or.inl rfl)
      rw [List.flatMap_cons, List.flatMap_cons, ← ih, universal_diffLine_append, entriesOf,
        diffLine, hfront, List.append_assoc, List.singleton_append,
        splitlines, TextRecords.lines_append_end (by decide), List.filterMap_append]

/-! ## Entries -/

theorem any_isPrefixOf_iff {path : String} :
    (ignoredPrefixes.any fun ignored => ignored.toList.isPrefixOf path.toList) = true ↔
      Shadowed path := by
  simp [Shadowed, List.any_eq_true, List.isPrefixOf_iff_prefix]

/-- A line is read as its code and its path, unless it is passed over. -/
theorem diffEntry_line (kind : Change) (path : String) :
    diffEntry (kind.code :: ' ' :: path.toList) =
      if ignoredPrefixes.any (fun ignored => ignored.toList.isPrefixOf path.toList) then none
      else some ([kind.code], path.toList) := by
  have hstrip : Text.strip (kind.code :: ' ' :: path.toList) ≠ [] :=
    Text.strip_ne_nil List.mem_cons_self (by cases kind <;> decide)
  have hcode := code_ne_blank kind
  rw [diffEntry, if_neg hstrip, List.dropWhile_cons_of_pos (by simpa using hcode),
    List.dropWhile_cons_of_neg (by simp), List.takeWhile_cons_of_pos (by simpa using hcode),
    List.takeWhile_cons_of_neg (by simp)]

/-- **A path without a line separator has one entry**, unless it is passed over. -/
theorem mem_entriesOf_iff {line : Change × String} (h : ¬ Broken line.2)
    (entry : List Char × List Char) :
    entry ∈ entriesOf line ↔ ¬ Shadowed line.2 ∧ entry = ([line.1.code], line.2.toList) := by
  obtain ⟨kind, path⟩ := line
  have hpath : ∀ c ∈ path.toList, isLineBreak c = false ∧ c ≠ '\r' := fun c hc =>
    ⟨Bool.eq_false_iff.mpr fun hbreak => h ⟨c, hc, Or.inl hbreak⟩,
      fun hcr => h ⟨c, hc, Or.inr hcr⟩⟩
  have hline : ∀ c ∈ kind.code :: ' ' :: path.toList, isLineBreak c = false ∧ c ≠ '\r' := by
    refine List.forall_mem_cons.mpr ⟨?_, List.forall_mem_cons.mpr ⟨by decide, hpath⟩⟩
    cases kind <;> decide
  have hcr : '\r' ∉ diffLine (kind, path) := by
    intro hmem
    rcases List.mem_append.mp hmem with hmem | hmem
    · exact (hline _ hmem).2 rfl
    · exact absurd hmem (by decide)
  have huniversal : Lines.universal false (diffLine (kind, path)) = diffLine (kind, path) := by
    have happend := Lines.universal_append_of_no_cr [] hcr
    rwa [List.append_nil, Lines.universal_nil, List.append_nil] at happend
  rw [entriesOf, huniversal, diffLine, splitlines,
    TextRecords.lines_append_break (fun c hc => (hline c hc).1) (by decide), TextRecords.lines,
    List.mem_filterMap]
  simp only [List.mem_singleton, exists_eq_left, diffEntry_line]
  rw [← any_isPrefixOf_iff]
  by_cases hshadowed :
      (ignoredPrefixes.any fun ignored => ignored.toList.isPrefixOf path.toList) = true
  · rw [if_pos hshadowed]
    exact iff_of_false (by simp) fun hboth => hboth.1 hshadowed
  · rw [if_neg hshadowed, Option.some_inj, eq_comm]
    exact (and_iff_right hshadowed).symm

/-- What is read from a line is a path that can be shown. -/
theorem shown_of_mem {line : Change × String} {kind : Change} {path : String}
    (h : ([kind.code], path.toList) ∈ entriesOf line) : Shown path := by
  obtain ⟨text, htext, hentry⟩ := List.mem_filterMap.mp h
  rw [diffEntry] at hentry
  split_ifs at hentry
  cases hdrop : text.dropWhile (· ≠ ' ') with
  | nil =>
      rw [hdrop] at hentry
      exact absurd hentry (by simp)
  | cons blank rest =>
      rw [hdrop] at hentry
      dsimp only at hentry
      split_ifs at hentry with hshadowed
      obtain ⟨-, rfl⟩ := Prod.mk.inj (Option.some.inj hentry)
      refine ⟨?_, fun hpath => hshadowed (any_isPrefixOf_iff.mpr hpath)⟩
      rintro ⟨c, hc, hbreak⟩
      have hmem : c ∈ text :=
        (List.dropWhile_suffix _).subset (hdrop ▸ List.mem_cons_of_mem blank hc)
      obtain ⟨huniversal, hline⟩ := TextRecords.mem_of_mem_lines text htext c hmem
      rcases hbreak with hbreak | rfl
      · rw [hline] at hbreak
        exact Bool.false_ne_true hbreak
      · exact Lines.cr_notMem_universal _ _ huniversal

/-! ## What is reported -/

variable {start : Files γ} {executionTimeout : Nat} {shell : Adapter}

/-- A path is in a list if there is an entry for it. -/
theorem mem_reported_iff {result : RunResult} {diff : String}
    (h : result.sideEffects = some (sideEffects diff)) (kind : Change) (path : String) :
    path ∈ reported result kind ↔
      ([kind.code], path.toList) ∈ (splitlines diff.toList).filterMap diffEntry := by
  have hget : Json.get? (sideEffects diff) kind.field =
      some (pathsOf kind.code ((splitlines diff.toList).filterMap diffEntry)) := by
    cases kind <;> rfl
  rw [reported, h, Option.getD_some, hget]
  generalize (splitlines diff.toList).filterMap diffEntry = entries
  simp only [pathsOf, List.mem_filterMap, List.mem_map, List.mem_filter, decide_eq_true_eq]
  constructor
  · rintro ⟨_, ⟨⟨code, text⟩, ⟨hmem, rfl⟩, rfl⟩, hpath⟩
    obtain rfl := Option.some.inj hpath
    rwa [String.toList_ofList]
  · exact fun hmem => ⟨_, ⟨_, ⟨hmem, rfl⟩, rfl⟩, congrArg some String.ofList_toList⟩

/-- A run that gets as far as `docker diff` returns what that says, any other nothing. -/
theorem sideEffects_result (executionTimeout : Nat) (shell : Adapter) (c : Command start) :
    (Finishes executionTimeout shell c ∧
      (c.result executionTimeout shell).sideEffects = some (sideEffects (output c.lines))) ∨
      (¬ Finishes executionTimeout shell c ∧
        (c.result executionTimeout shell).sideEffects = some []) := by
  obtain ⟨exitCode, diff, hdied, hwrite, hloop, hdiff, -, heffects⟩ | ⟨hraised, -, heffects⟩ :=
    execute_cases executionTimeout shell c.text c.marker c.told
  · obtain rfl := Except.ok.inj hdiff
    exact Or.inl ⟨⟨hdied, hwrite, exitCode, hloop⟩, heffects⟩
  · exact Or.inr ⟨fun ⟨hdied, hwrite, hloop⟩ => hraised ⟨hdied, hwrite, hloop, _, rfl⟩, heffects⟩

/-- An entry is that of a path which is shown, or a stray one. -/
theorem mem_entries_iff (c : Command start) (kind : Change) (path : String) :
    ([kind.code], path.toList) ∈ c.lines.flatMap entriesOf ↔
      (Shown path ∧ between (start path) (c.after path) = some kind) ∨
        Stray start c.after kind path := by
  rw [List.mem_flatMap]
  constructor
  · rintro ⟨line, hline, hentry⟩
    have hchange := (c.diff.mem_iff line.1 line.2).mp hline
    by_cases hbroken : Broken line.2
    · exact Or.inr ⟨line, hchange, hbroken, hentry⟩
    · obtain ⟨hshadowed, heq⟩ := (mem_entriesOf_iff hbroken _).mp hentry
      obtain ⟨hcode, hpath⟩ := Prod.mk.inj heq
      have hkind := code_injective (List.singleton_inj.mp hcode)
      obtain rfl := String.toList_inj.mp hpath
      exact Or.inl ⟨⟨hbroken, hshadowed⟩, hkind ▸ hchange⟩
  · rintro (⟨⟨hbroken, hshadowed⟩, hchange⟩ | ⟨line, hchange, -, hentry⟩)
    · exact ⟨(kind, path), (c.diff.mem_iff kind path).mpr hchange,
        (mem_entriesOf_iff hbroken _).mpr ⟨hshadowed, rfl⟩⟩
    · exact ⟨line, (c.diff.mem_iff line.1 line.2).mpr hchange, hentry⟩

/-! ## Exact side effects -/

/-- If the entries for a path are what the command has done, the path is told as it is. -/
theorem told_of_forall {c : Command start} {before : Files γ} {path : String}
    (h : ∀ kind, (Shown path ∧ between (start path) (c.after path) = some kind) ∨
      Stray start c.after kind path ↔ between (before path) (c.after path) = some kind) :
    Told start before c.after path where
  hidden hhidden := by
    -- Nothing is reported, as a stray entry would be shown.
    by_contra hne
    obtain ⟨kind, hkind⟩ := Option.ne_none_iff_exists'.mp (mt between_eq_none_iff.mp hne)
    obtain ⟨hshown, -⟩ | ⟨line, -, -, hentry⟩ := (h kind).mpr hkind
    · exact hhidden hshown
    · exact hhidden (shown_of_mem hentry)
  shown hshown := by
    rw [← between_eq_iff]
    cases hstart : between (start path) (c.after path) with
    | some kind => exact Or.inl ((h kind).mp (Or.inl ⟨hshown, hstart⟩)).symm
    | none =>
        cases hbefore : between (before path) (c.after path) with
        | none => exact Or.inl rfl
        | some kind =>
            obtain ⟨-, hkind⟩ | hkind := (h kind).mpr hbefore
            · rw [hstart] at hkind
              exact absurd hkind (by simp)
            · exact Or.inr ⟨between_eq_none_iff.mp hstart, kind, hkind⟩
  stray kind hkind := (h kind).mp (Or.inr hkind)

/-- The entries for a path that is told as it is are what the command has done. -/
theorem Told.entry_iff {c : Command start} {before : Files γ} {path : String}
    (h : Told start before c.after path) (kind : Change) :
    (Shown path ∧ between (start path) (c.after path) = some kind) ∨
      Stray start c.after kind path ↔ between (before path) (c.after path) = some kind := by
  constructor
  · rintro (⟨hshown, hstart⟩ | hstray)
    · obtain hsettled | ⟨hsame, -⟩ := h.shown hshown
      · rwa [← between_eq_iff.mpr hsettled]
      · rw [between_eq_none_iff.mpr hsame] at hstart
        exact absurd hstart (by simp)
    · exact h.stray kind hstray
  · intro hbefore
    by_cases hshown : Shown path
    · obtain hsettled | ⟨-, kind', hstray⟩ := h.shown hshown
      · exact Or.inl ⟨hshown, (between_eq_iff.mpr hsettled).trans hbefore⟩
      · obtain rfl := Option.some.inj ((h.stray kind' hstray).symm.trans hbefore)
        exact Or.inr hstray
    · rw [between_eq_none_iff.mpr (h.hidden hshown)] at hbefore
      exact absurd hbefore (by simp)

/-- What is ignored is passed over. -/
theorem Ignored.shadowed {path : String} (h : Ignored path) : Shadowed path := by
  obtain ⟨location, hlocation, rfl | hinside⟩ := h
  · exact ⟨_, hlocation, List.prefix_refl _⟩
  · exact ⟨location, hlocation, (List.prefix_append _ _).trans hinside⟩

/-- A run that gets as far as `docker diff`, and one path. -/
theorem reported_iff_told {c : Command start}
    (heffects : (c.result executionTimeout shell).sideEffects =
      some (sideEffects (output c.lines))) (before : Files γ) (path : String) :
    (∀ kind, path ∈ reported (c.result executionTimeout shell) kind ↔
        between (before path) (c.after path) = some kind ∧ ¬ Ignored path) ↔
      (¬ Ignored path → Told start before c.after path) := by
  simp only [mem_reported_iff heffects, filterMap_splitlines_output, mem_entries_iff]
  by_cases hignored : Ignored path
  · refine iff_of_true (fun kind => iff_of_false ?_ fun hboth => hboth.2 hignored)
      fun hnot => absurd hignored hnot
    rintro (⟨hshown, -⟩ | ⟨line, -, -, hentry⟩)
    · exact hshown.2 hignored.shadowed
    · exact (shown_of_mem hentry).2 hignored.shadowed
  · simp only [and_iff_left hignored, forall_prop_of_true hignored]
    exact ⟨told_of_forall, Told.entry_iff⟩

/-- A run that raises, and one path. -/
theorem reported_iff_unchanged {c : Command start}
    (heffects : (c.result executionTimeout shell).sideEffects = some []) (before : Files γ)
    (path : String) :
    (∀ kind, path ∈ reported (c.result executionTimeout shell) kind ↔
        between (before path) (c.after path) = some kind ∧ ¬ Ignored path) ↔
      (¬ Ignored path → before path = c.after path) := by
  have hnone : ∀ kind, path ∉ reported (c.result executionTimeout shell) kind := by
    intro kind
    rw [reported, heffects]
    exact List.not_mem_nil
  constructor
  · intro h hignored
    by_contra hne
    obtain ⟨kind, hkind⟩ := Option.ne_none_iff_exists'.mp (mt between_eq_none_iff.mp hne)
    exact hnone kind ((h kind).mpr ⟨hkind, hignored⟩)
  · intro h kind
    refine iff_of_false (hnone kind) fun ⟨hkind, hignored⟩ => ?_
    rw [between_eq_none_iff.mpr (h hignored)] at hkind
    exact absurd hkind (by simp)

/-- **When the side effects are those of the step**: when its condition holds. -/
theorem exact_iff_condition (s : Option (Files γ)) (c : Command start) :
    Exact executionTimeout shell s c ↔ Condition executionTimeout shell s c := by
  refine forall_congr' fun before => imp_congr_right fun _ => ?_
  rw [forall_comm]
  refine forall_congr' fun path => ?_
  obtain ⟨hfinishes, heffects⟩ | ⟨hraises, heffects⟩ :=
    sideEffects_result executionTimeout shell c
  · rw [reported_iff_told heffects]
    exact imp_congr_right fun _ =>
      ⟨fun h => ⟨fun hnot => absurd hfinishes hnot, fun _ => h⟩, fun h => h.2 hfinishes⟩
  · rw [reported_iff_unchanged heffects]
    exact imp_congr_right fun _ =>
      ⟨fun h => ⟨fun _ => h, fun hfin => absurd hfin hraises⟩, fun h => h.1 hraises⟩

/-- **When the side effects belong to the step, over whole runs**: when the condition holds at
every command that finds the container. -/
theorem exact_iff (executionTimeout : Nat) (shell : Adapter) (start : Files γ)
    (commands : List (Command start)) :
    (container executionTimeout shell start).Along (Exact executionTimeout shell) (some start)
        commands ↔
      (container executionTimeout shell start).Along (Condition executionTimeout shell)
        (some start) commands :=
  System.along_iff (I := fun _ => True) (fun s c _ => exact_iff_condition s c)
    (fun _ _ _ _ => trivial) trivial commands

/-! ### Two commands -/

/-- A run that gets as far as `docker diff` leaves the container. -/
theorem exec_of_finishes {c : Command start} (h : Finishes executionTimeout shell c)
    (before : Files γ) :
    (container executionTimeout shell start).exec (some before) c = some c.after := by
  obtain ⟨hdied, hwrite, exitCode, hloop⟩ := h
  have hremoves : c.removes executionTimeout shell = false := by
    rw [Command.removes, attempt, Command.told]
    simp only [hdied, hwrite]
    rcases hresult : loop executionTimeout c.marker c.answers.rounds {} with ⟨data, result⟩
    rw [hresult] at hloop
    dsimp only at hloop
    subst hloop
    rfl
  have hstep : (container executionTimeout shell start).step (some before) c =
      some (some c.after) := by
    simp [container, hremoves]
  exact System.exec_of_step hstep

/-- A container, of whose files one is named. -/
def bare : Files Unit := fun path => if path = "/bin/sh" then some () else none

/-- The same with another file. -/
def touched : Files Unit := fun path => if path = "/a" then some () else bare path

theorem diff_touched : Diff bare touched [(.added, "/a")] where
  nodup := List.nodup_singleton _
  mem_iff kind path := by
    by_cases hpath : path = "/a"
    · subst hpath
      have hadded : between (bare "/a") (touched "/a") = some .added := by decide
      rw [hadded, List.mem_singleton, Prod.mk.injEq, and_iff_left rfl, Option.some_inj, eq_comm]
    · have hsame : touched path = bare path := if_neg hpath
      rw [hsame, between_eq_none_iff.mpr rfl, List.mem_singleton, Prod.mk.injEq]
      exact iff_of_false (fun hboth => hpath hboth.2) (by simp)

/-- A command that leaves the files of the second container. -/
def leaving (text markerId : String) : Command bare where
  text := text
  marker := Sandbox.marker markerId
  answers := { rounds :=
    [⟨[], .line ((Sandbox.marker markerId).toList ++ ['\n'])⟩,
      ⟨[], .line (exitTag.toList ++ ['0', '\n'])⟩] }
  after := touched
  lines := [(.added, "/a")]
  diff := diff_touched

theorem finishes_leaving (text markerId : String) : Finishes 30 .bash (leaving text markerId) :=
  ⟨rfl, rfl, _, loop_marker [] _ {} (decide_eq_true (List.prefix_append _ _).isInfix)⟩

theorem shown_a : Shown "/a" := by
  have hchars : ∀ c ∈ "/a".toList, isLineBreak c = false ∧ c ≠ '\r' := by
    simp [isLineBreak]
  have hlong : ∀ location ∈ ignoredPrefixes, 2 < location.toList.length := by decide
  constructor
  · rintro ⟨c, hc, hbreak⟩
    obtain ⟨hplain, hcr⟩ := hchars c hc
    exact hbreak.elim (fun h => Bool.eq_false_iff.mp hplain h) hcr
  · rintro ⟨location, hlocation, hpre⟩
    exact absurd hpre.length_le (Nat.not_le_of_lt (hlong location hlocation))

/-- The second command is reported to have added the file of the first. -/
theorem side_effects_repeated : ¬ ∀ commands : List (Command bare),
    (container 30 .bash bare).Along (Exact 30 .bash) (some bare) commands := by
  intro h
  obtain ⟨-, hsecond, -⟩ := h [leaving "touch /a" "0", leaving "ls /" "1"]
  rw [exec_of_finishes (finishes_leaving _ _), exact_iff_condition] at hsecond
  have hignored : ¬ Ignored "/a" := fun hpath => shown_a.2 hpath.shadowed
  have htold := (hsecond touched rfl "/a" hignored).2 (finishes_leaving _ _)
  obtain (hsame | ⟨hstart, -⟩) | ⟨hsame, -⟩ := htold.shown shown_a
  · exact absurd hsame (by decide)
  · exact hstart rfl
  · exact absurd hsame (by decide)

end SideEffects
end Ucser
