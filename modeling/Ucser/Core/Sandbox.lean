import Ucser.Lib.Lines
import Ucser.Lib.Transition

/-!
# The persistent shell: `core/sandbox.py`

One shell runs the commands of a session.  Behind every command it echoes a marker and the
exit status; a reader thread puts the lines of its standard output into a queue, and `run`
takes them out until it has seen the marker and the line after it.

* `Command`, `frame` — a command by what the shell writes for it.
* `Session`, `session` — the shell, the reader thread and the caller, step by step.
* `Framing`, `framing_run` — **what is still under way belongs to the run in progress**.
* `exists_finish` — every session can be brought to its end.
* `session_iff` — **the sessions in which every run returns what its command wrote**.
-/

namespace Ucser
namespace Sandbox

/-! ## What the shell writes -/

/-- `marker`. -/
def marker (markerId : String) : String := "__UCSER_END_" ++ markerId ++ "__"

/-- What the line with the exit status begins with. -/
def exitTag : String := "__UCSER_EXIT__:"

/-- A command: what it writes, how it exits, and the `marker_id` of its run, which does
not occur in what it writes. -/
structure Command where
  output : List Char
  exitStatus : Nat
  markerId : String
  hex : ∀ c ∈ markerId.toList, c ∈ "0123456789abcdef".toList
  unmarked : Text.contains output (marker markerId) = false

/-- What the shell writes for `wrapped_cmd`: the output, the marker, the exit status. -/
def frame (command : Command) : List Char :=
  command.output ++ ((marker command.markerId).toList ++ '\n' ::
    (exitTag.toList ++ Nat.toDigits 10 command.exitStatus ++ ['\n']))

/-! ## The loop of `run` -/

/-- What `run` returns, as far as standard output goes. -/
structure Result where
  stdout : List Char
  exitCode : Int
  deriving DecidableEq

/-- What the loop is waiting for; `stdout_data` so far. -/
inductive Waiting where
  | output (data : List (List Char))
  | exitLine (data : List (List Char))

/-- `exit_line.split(":")[1]`. -/
def afterColon (line : List Char) : List Char :=
  ((line.dropWhile (· ≠ ':')).drop 1).takeWhile (· ≠ ':')

/-- The exit code read from a line: zero unless there is a number. -/
def exitCodeOf (line : List Char) : Int :=
  if Text.contains line exitTag then (Text.parseInt (afterColon line)).getD 0 else 0

/-- What the loop makes of the next line. -/
def received (marker : String) (line : List Char) : Waiting → Waiting ⊕ Result
  | .output data =>
      if Text.contains line marker then .inl (.exitLine data) else .inl (.output (data ++ [line]))
  | .exitLine data => .inr ⟨Text.strip data.flatten, exitCodeOf line⟩

/-! ## A session -/

/-- A session of one shell. -/
structure Session where
  /-- The commands not yet called. -/
  todo : List Command
  /-- The call of `run` in progress. -/
  current : Option (Command × Waiting) := none
  /-- What the shell still has to write. -/
  unwritten : List Char := []
  /-- What the reader thread has not read yet. -/
  pipe : List Char := []
  /-- `out_q`. -/
  queue : List (List Char) := []
  results : List Result := []

/-- Who takes a step. -/
inductive Action where
  /-- `run` is called for the next command, once the one before has returned. -/
  | call
  /-- The shell writes a character. -/
  | write
  /-- The reader thread puts a line into the queue. -/
  | read
  /-- `run` takes a line out of the queue. -/
  | take

/-- One step of a session. -/
def step (s : Session) : Action → Option Session
  | .call =>
      match s.current, s.todo with
      | none, command :: rest =>
          some { s with
            todo := rest
            current := some (command, .output [])
            unwritten := s.unwritten ++ frame command }
      | _, _ => none
  | .write =>
      match s.unwritten with
      | [] => none
      | c :: rest => some { s with unwritten := rest, pipe := s.pipe ++ [c] }
  | .read =>
      (Lines.readline s.pipe).map (fun taken =>
        { s with pipe := taken.2, queue := s.queue ++ [taken.1] })
  | .take =>
      match s.current, s.queue with
      | some (command, waiting), line :: rest =>
          match received (marker command.markerId) line waiting with
          | .inl waiting' => some { s with current := some (command, waiting'), queue := rest }
          | .inr result =>
              some { s with current := none, queue := rest, results := s.results ++ [result] }
      | _, _ => none

/-- The shell, the reader thread and the caller together. -/
def session : System Session Action := ⟨step⟩

/-- A session before its first call. -/
def start (commands : List Command) : Session := { todo := commands }

/-- Every command has been run. -/
def Session.Finished (s : Session) : Prop := s.todo = [] ∧ s.current = none

/-! ## The lines of a frame -/

variable {commands : List Command} {command : Command}

/-- The line the marker is in: it begins with what the command wrote last. -/
def markerLine (command : Command) : List Char :=
  (Lines.splitLines command.output).2 ++ ((marker command.markerId).toList ++ ['\n'])

/-- The line with the exit status. -/
def exitLine (command : Command) : List Char :=
  exitTag.toList ++ Nat.toDigits 10 command.exitStatus ++ ['\n']

/-- The characters of the marker. -/
theorem mem_marker {c : Char} (h : c ∈ (marker command.markerId).toList) :
    c ∈ "__UCSER_END_0123456789abcdef".toList := by
  have hbegin : ∀ c ∈ "__UCSER_END_".toList, c ∈ "__UCSER_END_0123456789abcdef".toList := by simp
  have hhex : ∀ c ∈ "0123456789abcdef".toList, c ∈ "__UCSER_END_0123456789abcdef".toList := by
    simp
  have hend : ∀ c ∈ "__".toList, c ∈ "__UCSER_END_0123456789abcdef".toList := by simp
  rw [marker, String.toList_append, String.toList_append, List.mem_append, List.mem_append] at h
  rcases h with (h | h) | h
  · exact hbegin c h
  · exact hhex c (command.hex c h)
  · exact hend c h

theorem lf_notMem_marker : '\n' ∉ (marker command.markerId).toList :=
  fun h => absurd (mem_marker h) (by decide)

theorem cr_notMem_marker : '\r' ∉ (marker command.markerId).toList :=
  fun h => absurd (mem_marker h) (by decide)

theorem marker_ne_nil : (marker command.markerId).toList ≠ [] := by
  simp [marker]

/-- A character of the line with the exit status, but for its end. -/
theorem mem_exitText {c : Char}
    (h : c ∈ exitTag.toList ++ Nat.toDigits 10 command.exitStatus) :
    c ∈ exitTag.toList ∨ c.isDigit = true := by
  rcases List.mem_append.mp h with h | h
  · exact Or.inl h
  · exact Or.inr (Nat.isDigit_of_mem_toDigits (by decide) (by decide) h)

/-- **The lines of a frame**: those the command has completed, the one with the marker, and
the one with the exit status. -/
theorem splitLines_frame (command : Command) :
    Lines.splitLines (frame command) =
      ((Lines.splitLines command.output).1 ++ [markerLine command, exitLine command], []) := by
  have hlf : '\n' ∉ exitTag.toList ++ Nat.toDigits 10 command.exitStatus :=
    fun h => (mem_exitText h).elim (by decide) (by decide)
  have hcr : '\r' ∉ exitTag.toList ++ Nat.toDigits 10 command.exitStatus :=
    fun h => (mem_exitText h).elim (by decide) (by decide)
  have hne : exitTag.toList ++ Nat.toDigits 10 command.exitStatus ≠ [] := by
    simp [exitTag]
  have hexit := Lines.splitLines_append [] [] hne hlf hcr
  rw [frame, Lines.splitLines_append _ _ marker_ne_nil lf_notMem_marker cr_notMem_marker]
  rw [List.nil_append] at hexit
  rw [hexit]
  rfl

theorem contains_markerLine :
    Text.contains (markerLine command) (marker command.markerId) = true := by
  refine decide_eq_true ⟨(Lines.splitLines command.output).2, ['\n'], ?_⟩
  simp [markerLine]

/-- The marker is in no line the command has completed. -/
theorem not_contains_of_mem {line : List Char} (h : line ∈ (Lines.splitLines command.output).1) :
    Text.contains line (marker command.markerId) = false := by
  refine decide_eq_false fun hpart => ?_
  have hunmarked := of_decide_eq_false command.unmarked
  exact hunmarked (Lines.infix_of_universal lf_notMem_marker
    (hpart.trans (Lines.line_infix h)))

/-- The exit status is read back. -/
theorem exitCodeOf_exitLine : exitCodeOf (exitLine command) = command.exitStatus := by
  have hcontains : Text.contains (exitLine command) exitTag = true := by
    refine decide_eq_true ⟨[], Nat.toDigits 10 command.exitStatus ++ ['\n'], ?_⟩
    simp [exitLine]
  have hafter : afterColon (exitLine command) =
      [] ++ Nat.toDigits 10 command.exitStatus ++ ['\n'] := by
    have hcolon : ∀ c ∈ Nat.toDigits 10 command.exitStatus ++ ['\n'], c ≠ ':' := by
      rintro c hc rfl
      rcases List.mem_append.mp hc with hdigit | hlf
      · exact absurd (Nat.isDigit_of_mem_toDigits (by decide) (by decide) hdigit) (by decide)
      · exact absurd hlf (by decide)
    rw [afterColon, exitLine, exitTag]
    simpa using hcolon
  have hlf : Text.Blank ['\n'] := by simp [Text.Blank, Text.isSpace]
  rw [exitCodeOf, if_pos hcontains, hafter, Text.parseInt_toDigits _ (by simp [Text.Blank]) hlf]
  rfl

/-! ## What is still under way -/

/-- What `run` returns for a command. -/
def resultOf (command : Command) : Result :=
  ⟨Text.strip (Lines.splitLines command.output).1.flatten, command.exitStatus⟩

/-- The lines that the loop is still to receive. -/
def Awaits (command : Command) (lines : List (List Char)) : Waiting → Prop
  | .output data => ∃ later, (Lines.splitLines command.output).1 = data ++ later ∧
      lines = later ++ [markerLine command, exitLine command]
  | .exitLine data => (Lines.splitLines command.output).1 = data ∧ lines = [exitLine command]

/-- **What is still under way belongs to the run in progress**, and there is nothing left
between two runs. -/
inductive Framing (commands : List Command) (s : Session) : Prop where
  | idle (done : List Command) (hcurrent : s.current = none)
      (hresults : s.results = done.map resultOf) (hcommands : commands = done ++ s.todo)
      (hqueue : s.queue = []) (hpipe : s.pipe = []) (hunwritten : s.unwritten = [])
  | busy (done : List Command) (command : Command) (waiting : Waiting)
      (lines : List (List Char)) (hcurrent : s.current = some (command, waiting))
      (hresults : s.results = done.map resultOf) (hcommands : commands = done ++ command :: s.todo)
      (hsuffix : s.pipe ++ s.unwritten <:+ frame command)
      (hlines : Lines.splitLines (s.pipe ++ s.unwritten) = (lines, []))
      (hawaits : Awaits command (s.queue ++ lines) waiting)

namespace Framing

variable {s s' : Session}

theorem call (h : Framing commands s) (hs' : step s .call = some s') : Framing commands s' := by
  cases h with
  | idle done hcurrent hresults hcommands hqueue hpipe hunwritten =>
      cases htodo : s.todo with
      | nil => simp [step, hcurrent, htodo] at hs'
      | cons command rest =>
          obtain rfl : _ = s' := by simpa [step, hcurrent, htodo] using hs'
          have hframe : s.pipe ++ (s.unwritten ++ frame command) = frame command := by
            simp [hpipe, hunwritten]
          refine .busy done command (.output []) _ rfl hresults (by simp [hcommands, htodo]) ?_
            ((congrArg _ hframe).trans (splitLines_frame command)) ⟨_, rfl, by simp [hqueue]⟩
          dsimp only
          rw [hframe]
  | busy done command waiting lines hcurrent => simp [step, hcurrent] at hs'

theorem write (h : Framing commands s) (hs' : step s .write = some s') : Framing commands s' := by
  cases hunwritten : s.unwritten with
  | nil => simp [step, hunwritten] at hs'
  | cons c rest =>
      obtain rfl : _ = s' := by simpa [step, hunwritten] using hs'
      cases h with
      | idle _ _ _ _ _ _ hnil => exact absurd (hunwritten.symm.trans hnil) (List.cons_ne_nil _ _)
      | busy done command waiting lines hcurrent hresults hcommands hsuffix hlines hawaits =>
          have hsame : s.pipe ++ [c] ++ rest = s.pipe ++ s.unwritten := by simp [hunwritten]
          exact .busy done command waiting lines hcurrent hresults hcommands (hsame ▸ hsuffix)
            (hsame ▸ hlines) hawaits

theorem read (h : Framing commands s) (hs' : step s .read = some s') : Framing commands s' := by
  obtain ⟨⟨line, rest⟩, htaken, rfl⟩ := Option.map_eq_some_iff.mp hs'
  cases h with
  | idle _ _ _ _ _ hpipe _ => simp [hpipe, Lines.readline] at htaken
  | busy done command waiting lines hcurrent hresults hcommands hsuffix hlines hawaits =>
      obtain ⟨_, _, ⟨taken, htext⟩, _⟩ := Lines.readline_spec htaken
      rw [Lines.splitLines_of_readline htaken] at hlines
      obtain ⟨rfl, hrest⟩ := Prod.mk.inj hlines
      refine .busy done command waiting _ hcurrent hresults hcommands ?_
        (Prod.ext rfl hrest) ?_
      · refine .trans ⟨taken, ?_⟩ hsuffix
        simp [← htext]
      · simpa using hawaits

theorem take (h : Framing commands s) (hs' : step s .take = some s') : Framing commands s' := by
  cases h with
  | idle _ hcurrent _ _ _ _ _ => simp [step, hcurrent] at hs'
  | busy done command waiting lines hcurrent hresults hcommands hsuffix hlines hawaits =>
      cases hqueue : s.queue with
      | nil => simp [step, hcurrent, hqueue] at hs'
      | cons line rest =>
          rw [hqueue, List.cons_append] at hawaits
          cases waiting with
          | output data =>
              obtain ⟨later, hdata, hrest⟩ := hawaits
              cases later with
              | nil =>
                  -- the line with the marker
                  obtain ⟨rfl, htail⟩ := List.cons.inj hrest
                  obtain rfl : _ = s' := by
                    simpa [step, hcurrent, hqueue, received, contains_markerLine] using hs'
                  exact .busy done command (.exitLine data) lines rfl hresults hcommands hsuffix
                    hlines ⟨by simpa using hdata, htail⟩
              | cons next later =>
                  obtain ⟨rfl, htail⟩ := List.cons.inj hrest
                  have hmem : line ∈ (Lines.splitLines command.output).1 := by simp [hdata]
                  obtain rfl : _ = s' := by
                    simpa [step, hcurrent, hqueue, received, not_contains_of_mem hmem] using hs'
                  exact .busy done command (.output (data ++ [line])) lines rfl hresults hcommands
                    hsuffix hlines ⟨later, by simpa using hdata, htail⟩
          | exitLine data =>
              obtain ⟨hdata, hline⟩ := hawaits
              obtain ⟨rfl, hnil⟩ := List.cons.inj hline
              obtain ⟨rfl, rfl⟩ := List.append_eq_nil_iff.mp hnil
              have hempty := Lines.eq_nil_of_splitLines hlines
              obtain ⟨hpipe, hunwritten⟩ := List.append_eq_nil_iff.mp hempty
              obtain rfl : _ = s' := by
                simpa [step, hcurrent, hqueue, received] using hs'
              refine .idle (done ++ [command]) rfl ?_ (by simp [hcommands]) rfl hpipe hunwritten
              simp [hresults, resultOf, hdata, exitCodeOf_exitLine]

end Framing

theorem framing_step (s : Session) (a : Action) (s' : Session) (h : Framing commands s)
    (hs' : session.step s a = some s') : Framing commands s' := by
  cases a with
  | call => exact h.call hs'
  | write => exact h.write hs'
  | read => exact h.read hs'
  | take => exact h.take hs'

/-- It holds in every state of every session. -/
theorem framing_run (commands : List Command) (actions : List Action) :
    Framing commands (session.run (start commands) actions) :=
  have hstart : Framing commands (start commands) := .idle [] rfl rfl rfl rfl rfl rfl
  System.run_invariant framing_step hstart actions

/-! ## Every session comes to its end -/

theorem Awaits.ne_nil {lines : List (List Char)} {waiting : Waiting}
    (h : Awaits command lines waiting) : lines ≠ [] := by
  cases waiting with
  | output data =>
      obtain ⟨later, _, rfl⟩ := h
      simp
  | exitLine data => simp [h.2]

/-- A frame ends with a line end. -/
theorem lf_mem_of_suffix_frame {text : List Char} (h : text <:+ frame command) (hne : text ≠ []) :
    '\n' ∈ text := by
  have hframe : frame command = command.output ++ (marker command.markerId).toList ++
      '\n' :: exitTag.toList ++ Nat.toDigits 10 command.exitStatus ++ ['\n'] := by
    simp [frame]
  rw [hframe, List.suffix_concat_iff] at h
  obtain rfl | ⟨_, rfl, _⟩ := h
  · exact absurd rfl hne
  · simp

/-- What is left to be done. -/
def remaining (s : Session) : Nat :=
  (s.todo.map (fun command => 3 * (frame command).length + 1)).sum + 3 * s.unwritten.length +
    2 * s.pipe.length + s.queue.length

/-- As long as the session is not finished, somebody can take a step. -/
theorem Framing.progress {s : Session} (h : Framing commands s) (hnot : ¬ s.Finished) :
    ∃ a s', session.step s a = some s' ∧ remaining s' < remaining s := by
  cases h with
  | idle done hcurrent _ _ _ _ _ =>
      cases htodo : s.todo with
      | nil => exact absurd ⟨htodo, hcurrent⟩ hnot
      | cons command rest =>
          refine ⟨.call, _, by simp [session, step, hcurrent, htodo]; rfl, ?_⟩
          simp [remaining, htodo]
          omega
  | busy done command waiting lines hcurrent _ _ hsuffix hlines hawaits =>
      cases hqueue : s.queue with
      | cons line rest =>
          cases hreceived : received (marker command.markerId) line waiting with
          | inl waiting' =>
              refine ⟨.take, _, by simp [session, step, hcurrent, hqueue, hreceived]; rfl, ?_⟩
              simp [remaining, hqueue]
          | inr result =>
              refine ⟨.take, _, by simp [session, step, hcurrent, hqueue, hreceived]; rfl, ?_⟩
              simp [remaining, hqueue]
      | nil =>
          cases hunwritten : s.unwritten with
          | cons c rest =>
              refine ⟨.write, _, by simp [session, step, hunwritten]; rfl, ?_⟩
              simp [remaining, hunwritten]
              omega
          | nil =>
              -- the reader has the whole rest of the frame, which ends with a line end
              rw [hunwritten, List.append_nil] at hsuffix hlines
              have hne : s.pipe ≠ [] := by
                intro hpipe
                rw [hpipe] at hlines
                obtain ⟨rfl, _⟩ := Prod.mk.inj hlines
                exact hawaits.ne_nil (by simp [hqueue])
              have hlf : '\n' ∈ s.pipe := lf_mem_of_suffix_frame hsuffix hne
              obtain ⟨line, rest, htaken⟩ := Lines.readline_of_mem hlf
              obtain ⟨_, hlength, _⟩ := Lines.readline_spec htaken
              refine ⟨.read, _, by simp [session, step, htaken]; rfl, ?_⟩
              simp [remaining]
              omega

/-- **Every session can be brought to its end**, from any state on its way. -/
theorem exists_finish (commands : List Command) (actions : List Action) :
    ∃ more, (session.run (start commands) (actions ++ more)).Finished := by
  obtain ⟨more, hfinished⟩ := System.exists_run remaining framing_step
    (fun s hs hnot => hs.progress hnot) (framing_run commands actions)
  exact ⟨more, by rwa [System.run_append]⟩

/-- What a finished session has returned. -/
theorem results_of_finished {actions : List Action}
    (h : (session.run (start commands) actions).Finished) :
    (session.run (start commands) actions).results = commands.map resultOf := by
  cases framing_run commands actions with
  | idle done _ hresults hcommands _ _ _ =>
      rw [hresults, hcommands, h.1, List.append_nil]
  | busy done command waiting lines hcurrent _ _ _ _ _ =>
      exact absurd (hcurrent.symm.trans h.2) (by simp)

/-! ## Is every output returned? -/

/-- What is expected of the run of a command. -/
def expected (command : Command) : Result := ⟨Text.strip command.output, command.exitStatus⟩

/-- The output ends with its last line, but for blanks, and has no `\r` within. -/
def Command.EndsInLine (command : Command) : Prop :=
  Text.Blank (Lines.splitLines command.output).2 ∧ '\r' ∉ Text.strip command.output

theorem resultOf_eq_expected_iff :
    resultOf command = expected command ↔ command.EndsInLine := by
  rw [Command.EndsInLine, ← Lines.strip_flatten_iff]
  simp [resultOf, expected]

/-- **The sessions in which every run returns what its command wrote.**  However the steps
of the shell, the reader thread and the caller interleave, the session can be brought to its
end, and at its end every run has returned the output of its own command, stripped, and its
exit status, if and only if the output of every command ends with a complete line, blanks
apart, and has no carriage return within. -/
theorem session_iff (commands : List Command) :
    (∀ actions, (∃ more, (session.run (start commands) (actions ++ more)).Finished) ∧
        ((session.run (start commands) actions).Finished →
          (session.run (start commands) actions).results = commands.map expected)) ↔
      ∀ command ∈ commands, command.EndsInLine := by
  constructor
  · intro h command hcommand
    obtain ⟨more, hfinished⟩ := exists_finish commands []
    rw [List.nil_append] at hfinished
    have hexpected := (h more).2 hfinished
    rw [results_of_finished hfinished] at hexpected
    exact resultOf_eq_expected_iff.mp (List.map_inj_left.mp hexpected command hcommand)
  · intro h actions
    refine ⟨exists_finish commands actions, fun hfinished => ?_⟩
    rw [results_of_finished hfinished]
    exact List.map_congr_left fun command hcommand =>
      resultOf_eq_expected_iff.mpr (h command hcommand)

/-- `printf abc`. -/
def printfAbc : Command where
  output := ['a', 'b', 'c']
  exitStatus := 0
  markerId := "0"
  hex := by simp
  unmarked := by decide

/-- Its output is lost: no line ends before the marker. -/
theorem printf_abc_lost :
    ¬ ∀ actions, (∃ more, (session.run (start [printfAbc]) (actions ++ more)).Finished) ∧
      ((session.run (start [printfAbc]) actions).Finished →
        (session.run (start [printfAbc]) actions).results = [printfAbc].map expected) := by
  intro h
  obtain ⟨more, hfinished⟩ := exists_finish [printfAbc] []
  rw [List.nil_append] at hfinished
  have hexpected := (h more).2 hfinished
  rw [results_of_finished hfinished] at hexpected
  exact absurd hexpected (by decide)

end Sandbox
end Ucser
