import Ucser.Core.Engine
import Ucser.Core.Sandbox
import Ucser.Lib.TextRecords

/-!
# One call of the sandbox: the body of `SandboxExecutor.run`

The command is written to the shell, wrapped in a marker and a line with its exit status, and
the loop waits for the two.  `exit_code` is zero until a number has been read.

* `wrap` — what is written to the shell.
* `Round`, `loop` — what a round of the loop meets, and the loop up to its deadline.
* `sideEffects` — what becomes of the output of `docker diff`.
* `Answers`, `attempt`, `execute` — the body of the `try`, and what `run` returns.
* `numberOf`, `Misread` — the number of an exit line, and the lines taken for a zero without it.
* `Unread` — the loop ends with zero without having read the number of the exit line.
* `execute_cases` — **what a call of `run` comes to**.
* `failsClosed_iff` — **which runs fail closed**: those that raise, read the number, or whose
  number zero still arrives.
-/

namespace Ucser
namespace Sandbox

/-! ## What is written -/

/-- `self.shell in ["powershell", "ps"]`. -/
def isPowerShell (shell : Adapter) : Bool := shell = .powershell || shell = .ps

/-- `wrapped_cmd`. -/
def wrap (shell : Adapter) (command marker : String) : String :=
  if isPowerShell shell then
    command ++ "\n$__ucser_exit = $LASTEXITCODE; Write-Output '" ++ marker ++
      "'; Write-Output \"__UCSER_EXIT__:$__ucser_exit\"\n"
  else
    command ++ "\n__ucser_exit=$?; echo '" ++ marker ++
      "'; echo \"__UCSER_EXIT__:$__ucser_exit\"\n"

/-! ## What the loop meets -/

/-- What waiting for a line comes to. -/
inductive Arrival where
  | line (text : List Char)
  /-- `queue.Empty`; has the shell died? -/
  | quiet (died : Bool)

/-- One round of the loop before the deadline: what is drained from `stderr`, and what
waiting for a line comes to. -/
structure Round where
  drained : List (List Char) := []
  arrival : Arrival

/-- `stdout_data` and `stderr_data`. -/
structure Collected where
  stdout : List (List Char) := []
  stderr : List (List Char) := []

/-- The exceptions that the body of `run` raises or lets through. -/
inductive SandboxError where
  | timeoutError (message : String)
  | runtimeError (message : String)
  /-- Any other `Exception`. -/
  | exception (message : String)
  deriving DecidableEq

namespace SandboxError

/-- `str(e)`. -/
def text : SandboxError → String
  | timeoutError message => message
  | runtimeError message => message
  | exception message => message

/-- `isinstance(e, (TimeoutError, RuntimeError))`. -/
def cleansUp : SandboxError → Bool
  | exception _ => false
  | _ => true

end SandboxError

/-- The exit code once the marker has been seen: nothing within a second leaves it zero. -/
def readExitCode : List Round → Int
  | ⟨_, .line text⟩ :: _ => exitCodeOf text
  | _ => 0

/-- The loop, over the rounds it can make before its deadline. -/
def loop (executionTimeout : Nat) (marker : String) :
    List Round → Collected → Collected × Except SandboxError Int
  | [], data =>
      (data, .error (.timeoutError
        ("Command execution timed out after " ++ toString executionTimeout ++ "s")))
  | round :: rest, data =>
      let data := { data with stderr := data.stderr ++ round.drained }
      match round.arrival with
      | .line text =>
          if Text.contains text marker then (data, .ok (readExitCode rest))
          else loop executionTimeout marker rest { data with stdout := data.stdout ++ [text] }
      | .quiet true => (data, .ok 0)
      | .quiet false => loop executionTimeout marker rest data

/-! ## `docker diff` -/

/-- The characters at which `splitlines` ends a line; the text has no carriage return. -/
def isLineBreak (c : Char) : Bool :=
  [0x0A, 0x0B, 0x0C, 0x1C, 0x1D, 0x1E, 0x85, 0x2028, 0x2029].contains c.toNat

/-- `splitlines()`. -/
def splitlines : List Char → List (List Char) := TextRecords.lines isLineBreak

/-- `ignored_prefixes`. -/
def ignoredPrefixes : List String :=
  ["/proc", "/sys", "/dev", "/.dockerenv", "/etc/hostname", "/etc/hosts", "/etc/resolv.conf",
    "/run", "/root/.bash_history", "/root/.ash_history"]

/-- The code and the path of a line, unless it is blank, has no blank, or is ignored. -/
def diffEntry (line : List Char) : Option (List Char × List Char) :=
  if Text.strip line = [] then none
  else
    match line.dropWhile (· ≠ ' ') with
    | [] => none
    | _ :: path =>
        if ignoredPrefixes.any (fun ignored => ignored.toList.isPrefixOf path) then none
        else some (line.takeWhile (· ≠ ' '), path)

/-- The paths that carry a code. -/
def pathsOf (code : Char) (entries : List (List Char × List Char)) : Json.Value :=
  .arr ((entries.filter (·.1 = [code])).map (fun entry => .str (String.ofList entry.2)))

/-- `side_effects`. -/
def sideEffects (diff : String) : List (String × Json.Value) :=
  let entries := (splitlines diff.toList).filterMap diffEntry
  [("files_added", pathsOf 'A' entries), ("files_modified", pathsOf 'C' entries),
    ("files_deleted", pathsOf 'D' entries)]

/-! ## The body of `run` -/

/-- What the outside answers to a call of `run` that has found its shell. -/
structure Answers where
  /-- `proc.poll() is not None`. -/
  died : Bool := false
  /-- What writing a text to the shell raises. -/
  write : String → Option SandboxError := fun _ => none
  rounds : List Round
  /-- What the final drain finds. -/
  drained : List (List Char) := []
  /-- The output of `docker diff`, or what calling it raises. -/
  diff : Except SandboxError String := .ok ""

/-- The body of the `try`. -/
def attempt (executionTimeout : Nat) (shell : Adapter) (command marker : String)
    (answers : Answers) :
    Collected × Except SandboxError (Int × List (String × Json.Value)) :=
  if answers.died then
    ({}, .error (.runtimeError "Sandbox shell process died unexpectedly"))
  else
    match answers.write (wrap shell command marker) with
    | some e => ({}, .error e)
    | none =>
        match loop executionTimeout marker answers.rounds {} with
        | (data, .error e) => (data, .error e)
        | (data, .ok exitCode) =>
            let data := { data with stderr := data.stderr ++ answers.drained }
            match answers.diff with
            | .error e => (data, .error e)
            | .ok diff => (data, .ok (exitCode, sideEffects diff))

/-- `"".join(data).strip()`. -/
def joined (data : List (List Char)) : Option String :=
  some (String.ofList (Text.strip data.flatten))

/-- What `run` returns, without the duration; the `except Exception`. -/
def execute (executionTimeout : Nat) (shell : Adapter) (command marker : String)
    (answers : Answers) : RunResult :=
  match attempt executionTimeout shell command marker answers with
  | (data, .ok (exitCode, effects)) =>
      { stdout := joined data.stdout, stderr := joined data.stderr, exitCode := some exitCode
        sideEffects := some effects }
  | (data, .error e) =>
      { stdout := joined data.stdout
        stderr := joined (data.stderr ++ [("[Sandbox Error] " ++ e.text).toList])
        exitCode := some (-1), sideEffects := some [] }

/-! ## What the shell has printed -/

/-- What stands behind the first tag in a line. -/
def behindTag : List Char → Option (List Char)
  | [] => none
  | c :: cs =>
      if exitTag.toList.isPrefixOf (c :: cs) then some ((c :: cs).drop exitTag.toList.length)
      else behindTag cs

/-- The number of a line with the exit status: what the shell has printed behind the tag. -/
def numberOf (line : List Char) : Option Int := (behindTag line).bind Text.parseInt

/-- The exit code read from a line is zero, and the shell has not printed that number: the line
has no tag, there is no number between its first two colons, or the zero there is not what
stands behind the tag. -/
def Misread (line : List Char) : Prop := exitCodeOf line = 0 ∧ numberOf line ≠ some 0

instance (line : List Char) : Decidable (Misread line) := inferInstanceAs (Decidable (_ ∧ _))

/-- Text of another process in front of the exit line, whose number is five. -/
example : Misread "a:0:__UCSER_EXIT__:5\n".toList := by decide

/-- The lines that arrive. -/
def linesOf (rounds : List Round) : List (List Char) :=
  rounds.filterMap (fun round => match round.arrival with
    | .line text => some text
    | .quiet _ => none)

/-- A line with the marker has arrived, and right behind it one with the number zero. -/
def Printed (marker : String) (rounds : List Round) : Prop :=
  ∃ before markerLine exitLine after,
    linesOf rounds = before ++ markerLine :: exitLine :: after ∧
      Text.contains markerLine marker = true ∧ numberOf exitLine = some 0

/-- The loop ends with zero without having read the number of the exit line: the shell dies
before the marker is seen, or the line behind the marker does not come within a second or is
misread. -/
inductive Unread (marker : String) : List Round → Prop where
  | died (drained : List (List Char)) (rest : List Round) :
      Unread marker (⟨drained, .quiet true⟩ :: rest)
  | exitLine (drained : List (List Char)) (text : List Char) (rest : List Round)
      (hmarker : Text.contains text marker = true)
      (hnumber : ∀ drained' line rest', rest = ⟨drained', .line line⟩ :: rest' → Misread line) :
      Unread marker (⟨drained, .line text⟩ :: rest)
  | line (drained : List (List Char)) (text : List Char) (rest : List Round)
      (hmarker : Text.contains text marker = false) (h : Unread marker rest) :
      Unread marker (⟨drained, .line text⟩ :: rest)
  | quiet (drained : List (List Char)) (rest : List Round) (h : Unread marker rest) :
      Unread marker (⟨drained, .quiet false⟩ :: rest)

/-- When the exit code read behind the marker is zero, the next line is misread, if it comes,
or the number zero is in it. -/
theorem readExitCode_eq_zero {rest : List Round} (h : readExitCode rest = 0) :
    (∀ drained line rest', rest = ⟨drained, .line line⟩ :: rest' → Misread line) ∨
      ∃ drained line rest', rest = ⟨drained, .line line⟩ :: rest' ∧ numberOf line = some 0 := by
  match rest with
  | [] => exact Or.inl (by simp)
  | ⟨_, .quiet _⟩ :: _ => exact Or.inl (by simp)
  | ⟨drained, .line line⟩ :: rest' =>
      by_cases hnumber : numberOf line = some 0
      · exact Or.inr ⟨drained, line, rest', rfl, hnumber⟩
      · refine Or.inl (fun _ _ _ heq => ?_)
        obtain ⟨hround, _⟩ := List.cons.inj heq
        obtain ⟨_, harrival⟩ := Round.mk.inj hround
        obtain rfl := Arrival.line.inj harrival
        exact ⟨h, hnumber⟩

theorem readExitCode_of_unread {rest : List Round}
    (h : ∀ drained line rest', rest = ⟨drained, .line line⟩ :: rest' → Misread line) :
    readExitCode rest = 0 := by
  match rest with
  | [] => rfl
  | ⟨_, .quiet _⟩ :: _ => rfl
  | ⟨drained, .line line⟩ :: rest' => exact (h drained line rest' rfl).1

variable {marker : String} {rounds : List Round} {executionTimeout : Nat}

theorem Printed.cons (round : Round) (h : Printed marker rounds) :
    Printed marker (round :: rounds) := by
  obtain ⟨before, markerLine, exitLine, after, hlines, hmarker, hnumber⟩ := h
  cases harrival : round.arrival with
  | line text =>
      refine ⟨text :: before, markerLine, exitLine, after, ?_, hmarker, hnumber⟩
      rw [List.cons_append, ← hlines, linesOf, List.filterMap_cons, harrival]
      rfl
  | quiet died =>
      refine ⟨before, markerLine, exitLine, after, ?_, hmarker, hnumber⟩
      rw [← hlines, linesOf, List.filterMap_cons, harrival]
      rfl

theorem loop_marker {text : List Char} (drained : List (List Char)) (rest : List Round)
    (data : Collected) (h : Text.contains text marker = true) :
    (loop executionTimeout marker (⟨drained, .line text⟩ :: rest) data).2 =
      .ok (readExitCode rest) := by
  rw [loop]
  exact congrArg Prod.snd (if_pos h)

theorem loop_line {text : List Char} (drained : List (List Char)) (rest : List Round)
    (data : Collected) (h : Text.contains text marker = false) :
    loop executionTimeout marker (⟨drained, .line text⟩ :: rest) data =
      loop executionTimeout marker rest
        { stdout := data.stdout ++ [text], stderr := data.stderr ++ drained } := by
  rw [loop]
  exact if_neg (by simp [h])

/-- **Where a zero comes from**: the loop has read it, or has not read the number. -/
theorem loop_eq_zero (data : Collected)
    (h : (loop executionTimeout marker rounds data).2 = .ok 0) :
    Unread marker rounds ∨ Printed marker rounds := by
  induction rounds generalizing data with
  | nil => exact absurd h (by simp [loop])
  | cons round rest ih =>
      obtain ⟨drained, text | died⟩ := round
      · by_cases hmarker : Text.contains text marker = true
        · rw [loop_marker drained rest data hmarker] at h
          obtain hnone | ⟨drained', line, rest', rfl, hzero⟩ :=
            readExitCode_eq_zero (Except.ok.inj h)
          · exact Or.inl (.exitLine drained text rest hmarker hnone)
          · exact Or.inr ⟨[], text, line, linesOf rest', rfl, hmarker, hzero⟩
        · have hplain := Bool.eq_false_iff.mpr hmarker
          rw [loop_line drained rest data hplain] at h
          obtain hunread | hprinted := ih _ h
          · exact Or.inl (.line drained text rest hplain hunread)
          · exact Or.inr (hprinted.cons _)
      · cases died with
        | true => exact Or.inl (.died drained rest)
        | false =>
            obtain hunread | hprinted := ih _ h
            · exact Or.inl (.quiet drained rest hunread)
            · exact Or.inr (hprinted.cons _)

/-- A loop that has not read the number ends with zero.  By induction on how it has come to that. -/
theorem Unread.loop (h : Unread marker rounds) (data : Collected) :
    (loop executionTimeout marker rounds data).2 = .ok 0 := by
  induction h generalizing data with
  | died drained rest => rfl
  | exitLine drained text rest hmarker hnumber =>
      rw [loop_marker drained rest data hmarker, readExitCode_of_unread hnumber]
  | line drained text rest hmarker h ih =>
      rw [loop_line drained rest data hmarker]
      exact ih _
  | quiet drained rest h ih => exact ih _

/-! ## Does it fail closed? -/

/-- The exit code zero is returned only if the shell has printed the marker of the run and
behind it the number zero. -/
def FailsClosed (executionTimeout : Nat) (shell : Adapter) (command marker : String)
    (answers : Answers) : Prop :=
  (execute executionTimeout shell command marker answers).exitCode = some 0 →
    Printed marker answers.rounds

/-- **What a call of `run` comes to**: it takes the command, ends its loop and asks for the
changes, and returns both; or something raises, and it returns minus one and no changes. -/
theorem execute_cases (executionTimeout : Nat) (shell : Adapter) (command marker : String)
    (answers : Answers) :
    (∃ exitCode diff, answers.died = false ∧ answers.write (wrap shell command marker) = none ∧
      (loop executionTimeout marker answers.rounds {}).2 = .ok exitCode ∧
      answers.diff = .ok diff ∧
      (execute executionTimeout shell command marker answers).exitCode = some exitCode ∧
      (execute executionTimeout shell command marker answers).sideEffects =
        some (sideEffects diff)) ∨
    ¬ (answers.died = false ∧ answers.write (wrap shell command marker) = none ∧
        (∃ exitCode, (loop executionTimeout marker answers.rounds {}).2 = .ok exitCode) ∧
        ∃ diff, answers.diff = .ok diff) ∧
      (execute executionTimeout shell command marker answers).exitCode = some (-1) ∧
      (execute executionTimeout shell command marker answers).sideEffects = some [] := by
  unfold execute attempt
  cases answers.died with
  | true => simp
  | false =>
      cases answers.write (wrap shell command marker) with
      | some e => simp
      | none =>
          rcases loop executionTimeout marker answers.rounds {} with ⟨data, e | exitCode⟩
          · simp
          · cases answers.diff with
            | error e => simp
            | ok diff => simp

/-- When `run` returns zero, nothing has raised and the loop has ended with zero. -/
theorem execute_eq_zero_iff {shell : Adapter} {command : String} {answers : Answers} :
    (execute executionTimeout shell command marker answers).exitCode = some 0 ↔
      answers.died = false ∧ answers.write (wrap shell command marker) = none ∧
        (∃ diff, answers.diff = .ok diff) ∧
        (loop executionTimeout marker answers.rounds {}).2 = .ok 0 := by
  obtain ⟨exitCode, diff, hdied, hwrite, hloop, hdiff, hexit, _⟩ | ⟨hraised, hexit, _⟩ :=
    execute_cases executionTimeout shell command marker answers
  · rw [hexit, hloop]
    simp [hdied, hwrite, hdiff]
  · rw [hexit]
    exact iff_of_false (by decide) fun ⟨hdied, hwrite, hdiff, hloop⟩ =>
      hraised ⟨hdied, hwrite, ⟨0, hloop⟩, hdiff⟩

/-- **Which runs fail closed.**  A run whose shell is alive and takes the command, and whose
`docker diff` works, fails closed unless the loop ends with zero without having read the number
of the exit line; then only if the marker and the number zero still arrive. -/
theorem failsClosed_iff (executionTimeout : Nat) (shell : Adapter) (command marker : String)
    (answers : Answers) :
    FailsClosed executionTimeout shell command marker answers ↔
      (answers.died = false → answers.write (wrap shell command marker) = none →
        (∃ diff, answers.diff = .ok diff) → Unread marker answers.rounds →
          Printed marker answers.rounds) := by
  constructor
  · intro hclosed hdied hwrite hdiff hunread
    exact hclosed (execute_eq_zero_iff.mpr ⟨hdied, hwrite, hdiff, hunread.loop {}⟩)
  · intro hcondition hzero
    obtain ⟨hdied, hwrite, hdiff, hloop⟩ := execute_eq_zero_iff.mp hzero
    obtain hunread | hprinted := loop_eq_zero {} hloop
    · exact hcondition hdied hwrite hdiff hunread
    · exact hprinted

/-- `exit 3` takes the shell with it; the run returns zero. -/
theorem exit_three_succeeds :
    ¬ FailsClosed 30 .bash "exit 3" (Sandbox.marker "0") { rounds := [⟨[], .quiet true⟩] } := by
  intro hclosed
  obtain ⟨before, markerLine, exitLine, after, hlines, _⟩ := hclosed rfl
  exact absurd hlines (by simp [linesOf])

end Sandbox
end Ucser
