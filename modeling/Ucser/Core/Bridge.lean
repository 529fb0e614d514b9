import Ucser.Core.Ir
import Ucser.Core.Validation

/-!
# Copies across the boundary: `SemanticBridge.copy` with `UniversalExecutorFacade.execute`

The executor of the service is a generator function: a call of `execute` only makes the
generator, and the command runs when somebody iterates over it.

* `parseCommand`, `traceItems`, `facadeExecutor` — `execute`: the prefix of the command, and
  what is yielded for the traces of the record.
* `sendChunks_facade`, `receive_eq_ok_iff` — what the two loops of a copy come to.
* `CopiedFaithfully`, `Delivers` — a reported copy is one; and when it is.
* `copiedFaithfully_iff` — **a copy to the guest reports success without running anything, and
  a copy to the host takes whatever was printed for the file**.
-/

namespace Ucser
namespace SemanticBridge

/-! ## The executor -/

/-- The prefix of a command, `shell:…`, if it is one of the three that are known. -/
def parseCommand (command : String) : Adapter × String :=
  let shell := command.toList.takeWhile (· ≠ ':')
  match command.toList.dropWhile (· ≠ ':') with
  | _ :: cmd =>
      if shell = ['p', 's'] then (.ps, String.ofList cmd)
      else if shell = ['p', 'o', 'w', 'e', 'r', 's', 'h', 'e', 'l', 'l'] then
        (.powershell, String.ofList cmd)
      else if shell = ['b', 'a', 's', 'h'] then (.bash, String.ofList cmd)
      else (.bash, command)
  | [] => (.bash, command)

/-- What `execute_ucer` makes of a record with this one step: its traces or an exception, and
the files afterwards. -/
abbrev Commands : Type :=
  Adapter → String → Machines → Except PyError (List ExecutionTrace) × Machines

/-- What is yielded for a trace. -/
def traceItems (trace : ExecutionTrace) : List Item :=
  (if trace.stdout ≠ "" then [⟨none, trace.stdout, "stdout"⟩] else []) ++
    (if trace.stderr ≠ "" then [⟨none, trace.stderr, "stderr"⟩] else [])

/-- `UniversalExecutorFacade.execute`: its body runs when the generator is iterated over. -/
def facadeExecutor (commands : Commands) : Executor String where
  execute command machines := (.ok command, machines)
  iterate command machines :=
    match commands (parseCommand command).1 (parseCommand command).2 machines with
    | (.ok traces, machines) => ((traces.flatMap traceItems, .ok ()), machines)
    | (.error e, machines) => (([], .error e), machines)

/-! ## A reported copy -/

section Copy

variable (workspace : Workspace) (commands : Commands) (files : Files) (machines : Machines)
  (source dest : String)

/-- When the copy is reported as bridged, the destination holds the bytes of the source. -/
def CopiedFaithfully : Prop :=
  let outcome := copy (facadeExecutor commands) workspace files source dest { machines := machines }
  outcome.1 = .ok (.items [bridged source dest]) →
    match resolveOsFromPath source, resolveOsFromPath dest with
    | .windows, .linux => ∃ content, machines.host (winPath source) = some content ∧
        outcome.2.machines.guest dest = some content
    | .linux, .windows => ∃ content, machines.guest source = some content ∧
        outcome.2.machines.host (winPath dest) = some content
    | _, _ => True

/-- How many reads it takes to see the end of the source. -/
def readCount (content : Bytes) : Nat := (content.length + (chunkSize - 1)) / chunkSize + 1

/-- What is printed for the traces, without blanks around it and where anything is left. -/
def printed (traces : List ExecutionTrace) : List (List Char) :=
  (traces.map fun trace => Text.strip trace.stdout.toList).filter (fun text => text ≠ [])

/-- What the guest prints for the source: nothing goes wrong with the file, the command runs,
and what its traces say decodes to these bytes. -/
structure Received (content : Bytes) : Prop where
  makedirs : files.makedirs = none
  openWrite : files.openWrite = none
  close : files.close = none
  ran : ∃ traces machines' chunks,
    commands .bash ("base64 '" ++ source ++ "'") (machines.writeHost (winPath dest) []) =
      (.ok traces, machines') ∧
    (printed traces).mapM Text.b64decode = .ok chunks ∧
    (∀ i < chunks.length, files.write i = none) ∧ content = chunks.flatten

/-- The condition.  To the guest: if the source can be read, the destination holds it already.
To the host: what the guest prints for the source is the source. -/
def Delivers : Prop :=
  workspace.validatePath source = .ok () → workspace.validatePath dest = .ok () →
    match resolveOsFromPath source, resolveOsFromPath dest with
    | .windows, .linux =>
        ∀ content, openRead files machines (winPath source) = .ok content →
          (∀ i < readCount content, files.read i = none) → machines.guest dest = some content
    | .linux, .windows =>
        ∀ content, Received commands files machines source dest content →
          machines.guest source = some content
    | _, _ => True

end Copy

/-! ## To the guest -/

section ToLinux

variable {commands : Commands} {files : Files} {source dest : String}

/-- The loop hands its commands to nobody who runs them: the files stay as they are, and it
ends well when all its reads do. -/
theorem sendChunks_facade (content : Bytes) (reads : Nat) (s : Session) :
    (sendChunks (facadeExecutor commands) files dest reads content s).2.machines = s.machines ∧
      ((sendChunks (facadeExecutor commands) files dest reads content s).1 = .ok () ↔
        ∀ i < readCount content, files.read (reads + i) = none) := by
  induction hlength : content.length using Nat.strong_induction_on
    generalizing content reads s with
  | _ length ih =>
  rw [sendChunks]
  cases hread : files.read reads with
  | some e =>
      refine ⟨rfl, iff_of_false (by simp) fun h => ?_⟩
      have hzero := h 0 (Nat.succ_pos _)
      rw [Nat.add_zero, hread] at hzero
      exact absurd hzero (by simp)
  | none =>
      by_cases hnil : content = []
      · subst hnil
        refine ⟨rfl, iff_of_true rfl ?_⟩
        intro i hi
        obtain rfl : i = 0 := by simpa [readCount, chunkSize] using hi
        exact hread
      · simp only [hnil, if_false]
        have hpos := List.length_pos_iff.mpr hnil
        have hdrop : (content.drop chunkSize).length = content.length - chunkSize :=
          List.length_drop
        have hless : (content.drop chunkSize).length < length := by
          rw [hdrop, ← hlength, chunkSize]
          omega
        obtain ⟨hmachines, hok⟩ := ih _ hless (content.drop chunkSize) (reads + 1)
          (hand (facadeExecutor commands) (transferCmd dest (content.take chunkSize)) s).2 rfl
        refine ⟨hmachines, hok.trans ?_⟩
        have hcount : readCount content = readCount (content.drop chunkSize) + 1 := by
          rw [readCount, readCount, hdrop]
          simp only [chunkSize]
          omega
        rw [hcount]
        constructor
        · intro h i hi
          cases i with
          | zero => exact hread
          | succ i =>
              have hnext := h i (by omega)
              rwa [Nat.add_assoc, Nat.add_comm 1 i] at hnext
        · intro h i hi
          have hnext := h (i + 1) (by omega)
          rwa [Nat.add_assoc, Nat.add_comm 1 i]

end ToLinux

/-! ## To the host -/

section ToWindows

variable {files : Files}

/-- Whatever is printed as an error is passed over. -/
theorem receive_stderr (writes : Nat) (written : Bytes) (trace : ExecutionTrace)
    (items : List Item) :
    receive files writes written
        ((if trace.stderr ≠ "" then [⟨none, trace.stderr, "stderr"⟩] else []) ++ items) =
      receive files writes written items := by
  split_ifs
  · rw [List.singleton_append, receive, if_neg (by simp)]
  · rfl

/-- A trace of which nothing is printed is passed over as a whole. -/
theorem receive_blank {trace : ExecutionTrace} (h : Text.strip trace.stdout.toList = [])
    (writes : Nat) (written : Bytes) (items : List Item) :
    receive files writes written (traceItems trace ++ items) =
      receive files writes written items := by
  rw [traceItems, List.append_assoc]
  by_cases hstdout : trace.stdout = ""
  · rw [if_neg (not_not_intro hstdout)]
    exact receive_stderr writes written trace items
  · rw [if_pos hstdout, List.singleton_append, receive, if_neg (by simp [h])]
    exact receive_stderr writes written trace items

/-- Of any other trace, what is printed is decoded and written. -/
theorem receive_printed {trace : ExecutionTrace} (h : Text.strip trace.stdout.toList ≠ [])
    (writes : Nat) (written : Bytes) (items : List Item) :
    receive files writes written (traceItems trace ++ items) =
      match Text.b64decode (Text.strip trace.stdout.toList), files.write writes with
      | .error e, _ => (written, .error (.base64Error e))
      | .ok _, some e => (written, .error e)
      | .ok bytes, none => receive files (writes + 1) (written ++ bytes) items := by
  have hne : trace.stdout ≠ "" := by
    intro hempty
    rw [hempty] at h
    exact h rfl
  rw [traceItems, List.append_assoc, if_pos hne, List.singleton_append, receive,
    if_pos ⟨rfl, h⟩]
  cases Text.b64decode (Text.strip trace.stdout.toList) with
  | error e => rfl
  | ok bytes =>
      cases files.write writes with
      | some e => rfl
      | none => exact receive_stderr (writes + 1) (written ++ bytes) trace items

theorem mapM_cons_eq_ok_iff {α β ε : Type} {f : α → Except ε β} {a : α} {as : List α}
    {bs : List β} :
    (a :: as).mapM f = .ok bs ↔ ∃ b rest, f a = .ok b ∧ as.mapM f = .ok rest ∧ bs = b :: rest := by
  rw [List.mapM_cons]
  cases ha : f a with
  | error e => simp [bind, Except.bind]
  | ok b =>
      cases has : as.mapM f with
      | error e => simp [bind, Except.bind]
      | ok rest => simp [bind, Except.bind, pure, Except.pure, eq_comm]

/-- One more write that is not refused. -/
theorem forall_write_succ {writes n : Nat} :
    (∀ i < n + 1, files.write (writes + i) = none) ↔
      files.write writes = none ∧ ∀ i < n, files.write (writes + 1 + i) = none := by
  rw [Nat.forall_lt_succ_left]
  simp only [Nat.add_zero, Nat.add_assoc, Nat.add_comm 1]

/-- **What the loop over the items comes to**: everything printed is decoded and written, one
piece behind the other. -/
theorem receive_eq_ok_iff {traces : List ExecutionTrace} {writes : Nat} {written bytes : Bytes} :
    receive files writes written (traces.flatMap traceItems) = (bytes, .ok ()) ↔
      ∃ chunks, (printed traces).mapM Text.b64decode = .ok chunks ∧
        (∀ i < chunks.length, files.write (writes + i) = none) ∧
          bytes = written ++ chunks.flatten := by
  induction traces generalizing writes written with
  | nil =>
      constructor
      · intro h
        refine ⟨[], rfl, by simp, ?_⟩
        rw [List.flatten_nil, List.append_nil]
        exact (congrArg Prod.fst h).symm
      · rintro ⟨chunks, hchunks, _, rfl⟩
        obtain rfl : [] = chunks := Except.ok.inj hchunks
        simp [receive]
  | cons trace traces ih =>
      rw [List.flatMap_cons]
      by_cases hblank : Text.strip trace.stdout.toList = []
      · have hprinted : printed (trace :: traces) = printed traces := by
          simp [printed, hblank]
        rw [receive_blank hblank, hprinted]
        exact ih
      · have hprinted : printed (trace :: traces) =
            Text.strip trace.stdout.toList :: printed traces := by
          simp [printed, hblank]
        rw [receive_printed hblank, hprinted]
        simp only [mapM_cons_eq_ok_iff]
        cases hdecode : Text.b64decode (Text.strip trace.stdout.toList) with
        | error e => simp
        | ok piece =>
            cases hwrite : files.write writes with
            | some e =>
                refine iff_of_false (by simp) ?_
                rintro ⟨chunks, ⟨piece', rest, _, _, rfl⟩, hwrites, _⟩
                rw [List.length_cons, forall_write_succ, hwrite] at hwrites
                exact absurd hwrites.1 (by simp)
            | none =>
                dsimp only
                rw [ih]
                constructor
                · rintro ⟨rest, hrest, hwrites, rfl⟩
                  refine ⟨piece :: rest, ⟨piece, rest, rfl, hrest, rfl⟩, ?_, by simp⟩
                  exact forall_write_succ.mpr ⟨hwrite, hwrites⟩
                · rintro ⟨_, ⟨piece', rest, hpiece, hrest, rfl⟩, hwrites, rfl⟩
                  obtain rfl := Except.ok.inj hpiece
                  exact ⟨rest, hrest, (forall_write_succ.mp hwrites).2, by simp⟩

variable {commands : Commands} {source dest : String}

theorem parseCommand_bash (text : String) : parseCommand ("bash:" ++ text) = (.bash, text) := by
  have hchars : ("bash:" ++ text).toList = ['b', 'a', 's', 'h', ':'] ++ text.toList := by
    rw [String.toList_append]
    rfl
  unfold parseCommand
  rw [hchars]
  simp [List.takeWhile, List.dropWhile]

/-- What the executor does with the command for the source. -/
theorem iterate_base64 (machines : Machines) :
    (facadeExecutor commands).iterate ("bash:base64 '" ++ source ++ "'") machines =
      match commands .bash ("base64 '" ++ source ++ "'") machines with
      | (.ok traces, machines) => ((traces.flatMap traceItems, .ok ()), machines)
      | (.error e, machines) => (([], .error e), machines) := by
  have hcommand : "bash:base64 '" ++ source ++ "'" =
      "bash:" ++ ("base64 '" ++ source ++ "'") := by
    rw [← String.append_assoc, ← String.append_assoc]
    rfl
  rw [hcommand]
  unfold facadeExecutor
  dsimp only
  rw [parseCommand_bash]

/-- The body of a copy to the host, where the file can be opened. -/
theorem streamToWindows_eq (hmakedirs : files.makedirs = none)
    (hopenWrite : files.openWrite = none) (s : Session) :
    ∃ iterated, iterated = (facadeExecutor commands).iterate ("bash:base64 '" ++ source ++ "'")
        (s.machines.writeHost (winPath dest) []) ∧
      (streamToWindows (facadeExecutor commands) files source dest s).1 =
        (match files.close with
          | some e => .error e
          | none => (receive files 0 [] iterated.1.1).2.bind fun _ => iterated.1.2) ∧
      (streamToWindows (facadeExecutor commands) files source dest s).2.machines.host
        (winPath dest) = some (receive files 0 [] iterated.1.1).1 := by
  refine ⟨_, rfl, ?_⟩
  unfold streamToWindows
  rw [hmakedirs, hopenWrite]
  refine ⟨rfl, ?_⟩
  exact Function.update_self _ _ _

/-- A body that returns has received something. -/
theorem received_of_ok {s : Session}
    (h : (streamToWindows (facadeExecutor commands) files source dest s).1 = .ok ()) :
    ∃ content, Received commands files s.machines source dest content := by
  cases hmakedirs : files.makedirs with
  | some e => simp [streamToWindows, hmakedirs] at h
  | none =>
      cases hopenWrite : files.openWrite with
      | some e => simp [streamToWindows, hmakedirs, hopenWrite, hand, facadeExecutor] at h
      | none =>
          obtain ⟨iterated, hiterated, houtcome, _⟩ :=
            @streamToWindows_eq files commands source dest hmakedirs hopenWrite s
          rw [iterate_base64] at hiterated
          rw [houtcome] at h
          cases hclose : files.close with
          | some e => simp [hclose] at h
          | none =>
              rw [hclose] at h
              obtain ⟨_, hreceive, hended⟩ := exists_of_bind_eq_ok h
              rcases hran : commands .bash ("base64 '" ++ source ++ "'")
                  (s.machines.writeHost (winPath dest) []) with ⟨e | traces, machines'⟩
              · rw [hiterated, hran] at hended
                exact absurd hended (by simp)
              · rw [hran] at hiterated
                subst hiterated
                obtain ⟨chunks, hchunks, hwrites, _⟩ :=
                  receive_eq_ok_iff.mp (Prod.ext rfl hreceive)
                exact ⟨chunks.flatten, hmakedirs, hopenWrite, hclose, traces, machines', chunks,
                  hran, hchunks, by simpa using hwrites, rfl⟩

/-- What has been received is what the destination holds, and the body returns. -/
theorem Received.outcome {s : Session} {content : Bytes}
    (h : Received commands files s.machines source dest content) :
    (streamToWindows (facadeExecutor commands) files source dest s).1 = .ok () ∧
      (streamToWindows (facadeExecutor commands) files source dest s).2.machines.host
        (winPath dest) = some content := by
  obtain ⟨iterated, hiterated, houtcome, hhost⟩ :=
    @streamToWindows_eq files commands source dest h.makedirs h.openWrite s
  obtain ⟨traces, machines', chunks, hran, hchunks, hwrites, rfl⟩ := h.ran
  rw [iterate_base64, hran] at hiterated
  have hall : receive files 0 [] (traces.flatMap traceItems) = ([] ++ chunks.flatten, .ok ()) :=
    receive_eq_ok_iff.mpr ⟨chunks, hchunks, by simpa using hwrites, rfl⟩
  rw [houtcome, hhost, h.close, hiterated, hall]
  exact ⟨rfl, rfl⟩

end ToWindows

/-! ## When a reported copy is one -/

section Reported

variable {ι : Type} {files : Files} {direction source dest : String}

theorem report_machines (outcome : Except PyError Unit × Session) :
    (report files direction source dest outcome : Except PyError (Answer ι) × Session).2 =
      outcome.2 := by
  rcases outcome with ⟨e | _, s⟩
  · unfold report
    dsimp only
    split_ifs <;> rfl
  · rfl

/-- Only a body that returns is reported as bridged. -/
theorem report_eq_bridged_iff (outcome : Except PyError Unit × Session) :
    (report files direction source dest outcome : Except PyError (Answer ι) × Session).1 =
        .ok (.items [bridged source dest]) ↔ outcome.1 = .ok () := by
  rcases outcome with ⟨e | _, s⟩
  · refine iff_of_false ?_ (by simp)
    unfold report
    dsimp only
    split_ifs <;> simp [bridged]
  · exact iff_of_true rfl rfl

end Reported

/-- The body of a copy to the guest leaves the files as they are, and returns when the source
can be read. -/
theorem streamToLinux_facade {commands : Commands} {files : Files} {source dest : String}
    (s : Session) :
    (streamToLinux (facadeExecutor commands) files source dest s).2.machines = s.machines ∧
      ((streamToLinux (facadeExecutor commands) files source dest s).1 = .ok () ↔
        ∃ content, openRead files s.machines (winPath source) = .ok content ∧
          ∀ i < readCount content, files.read i = none) := by
  have hhand : hand (facadeExecutor commands) ("bash:true > '" ++ dest ++ "'") s =
      (.ok ("bash:true > '" ++ dest ++ "'"),
        { s with calls := s.calls ++ ["bash:true > '" ++ dest ++ "'"] }) := rfl
  unfold streamToLinux
  rw [hhand]
  dsimp only
  cases hopen : openRead files s.machines (winPath source) with
  | error e => exact ⟨rfl, iff_of_false (by simp) (by simp)⟩
  | ok content =>
      obtain ⟨hmachines, hok⟩ := @sendChunks_facade commands files dest content 0
        { s with calls := s.calls ++ ["bash:true > '" ++ dest ++ "'"] }
      refine ⟨hmachines, hok.trans ?_⟩
      constructor
      · exact fun h => ⟨content, rfl, by simpa using h⟩
      · rintro ⟨content', hcontent, h⟩
        obtain rfl := Except.ok.inj hcontent
        simpa using h

/-- What is open to be read is what the host holds. -/
theorem host_of_openRead {files : Files} {machines : Machines} {path : String} {content : Bytes}
    (h : openRead files machines path = .ok content) : machines.host path = some content := by
  unfold openRead at h
  cases hfault : files.openRead with
  | some e => simp [hfault] at h
  | none =>
      cases hhost : machines.host path with
      | none => simp [hfault, hhost] at h
      | some content' =>
          rw [hfault, hhost] at h
          rw [Except.ok.inj h]

section Directions

variable {workspace : Workspace} {commands : Commands} {files : Files} {machines : Machines}
  {source dest : String}

/-- A copy to the guest. -/
theorem copiedFaithfully_toLinux (hsource : workspace.validatePath source = .ok ())
    (hdest : workspace.validatePath dest = .ok ())
    (hsourceOs : resolveOsFromPath source = .windows) (hdestOs : resolveOsFromPath dest = .linux) :
    CopiedFaithfully workspace commands files machines source dest ↔
      ∀ content, openRead files machines (winPath source) = .ok content →
        (∀ i < readCount content, files.read i = none) → machines.guest dest = some content := by
  obtain ⟨hmachines, hok⟩ := @streamToLinux_facade commands files source dest
    { machines := machines }
  unfold CopiedFaithfully copy
  rw [hsource, hdest, hsourceOs, hdestOs]
  dsimp only
  rw [report_eq_bridged_iff, report_machines, hmachines, hok]
  constructor
  · intro h content hopen hreads
    obtain ⟨content', hhost, hguest⟩ := h ⟨content, hopen, hreads⟩
    obtain rfl : content = content' := by
      rw [host_of_openRead hopen] at hhost
      exact Option.some.inj hhost
    exact hguest
  · rintro h ⟨content, hopen, hreads⟩
    exact ⟨content, host_of_openRead hopen, h content hopen hreads⟩

/-- A copy to the host. -/
theorem copiedFaithfully_toWindows (hsource : workspace.validatePath source = .ok ())
    (hdest : workspace.validatePath dest = .ok ())
    (hsourceOs : resolveOsFromPath source = .linux) (hdestOs : resolveOsFromPath dest = .windows) :
    CopiedFaithfully workspace commands files machines source dest ↔
      ∀ content, Received commands files machines source dest content →
        machines.guest source = some content := by
  unfold CopiedFaithfully copy
  rw [hsource, hdest, hsourceOs, hdestOs]
  dsimp only
  rw [report_eq_bridged_iff, report_machines]
  constructor
  · intro h content hreceived
    obtain ⟨hok, hhost⟩ := @Received.outcome files commands source dest { machines := machines }
      content hreceived
    obtain ⟨content', hguest, hhost'⟩ := h hok
    rw [hhost, Option.some.injEq] at hhost'
    rw [hguest, hhost']
  · intro h hok
    obtain ⟨content, hreceived⟩ := received_of_ok hok
    exact ⟨content, h content hreceived, hreceived.outcome.2⟩

end Directions

/-- **When a reported copy is one.**  Nothing runs in a copy to the guest, so the destination
must hold the source already; in a copy to the host, what the guest prints must decode to the
source. -/
theorem copiedFaithfully_iff (workspace : Workspace) (commands : Commands) (files : Files)
    (machines : Machines) (source dest : String) :
    CopiedFaithfully workspace commands files machines source dest ↔
      Delivers workspace commands files machines source dest := by
  rcases validatePath_cases workspace source with hsource | ⟨message, hsource⟩
  · rcases validatePath_cases workspace dest with hdest | ⟨message, hdest⟩
    · unfold Delivers
      simp only [hsource, hdest, true_implies]
      cases hsourceOs : resolveOsFromPath source <;> cases hdestOs : resolveOsFromPath dest
      case windows.linux => exact copiedFaithfully_toLinux hsource hdest hsourceOs hdestOs
      case linux.windows => exact copiedFaithfully_toWindows hsource hdest hsourceOs hdestOs
      all_goals
        refine iff_of_true ?_ trivial
        intro _
        simp only [hsourceOs, hdestOs]
    · exact iff_of_true (fun h => by simp [copy, hsource, hdest] at h)
        (fun _ h => by simp [hdest] at h)
  · exact iff_of_true (fun h => by simp [copy, hsource] at h) (fun h => by simp [hsource] at h)

/-- `C:a` on the host, and `/ws/a` on the guest. -/
def hostFile : String := String.ofList ['C', ':', 'a']

/-- A file on the host, and none on the guest. -/
def hostOnly : Machines where
  host path := if path = hostFile then some [1] else none
  guest _ := none

/-- Its copy to the guest is reported, and the guest has nothing. -/
theorem hostFile_not_copied :
    ¬ CopiedFaithfully wsHost.workspace (fun _ _ machines => (.ok [], machines))
      { str := fun _ => "" } hostOnly hostFile wsFile := by
  have hdest : resolveOsFromPath wsFile = .linux :=
    resolveOsFromPath_of_slash (by rw [wsFile, String.toList_ofList]; rfl)
  have hwin : winPath hostFile = hostFile := by
    rw [winPath, hostFile, String.toList_ofList]
    rfl
  have hsource : resolveOsFromPath hostFile = .windows := by
    have hne : hostFile ≠ "" := by
      intro h
      have hlist := congrArg String.toList h
      rw [hostFile, String.toList_ofList] at hlist
      simp at hlist
    rw [resolveOsFromPath, if_neg hne, hostFile, String.toList_ofList]
    rfl
  have hsourceOk : wsHost.workspace.validatePath hostFile = .ok () := wsHost_accepts (by decide)
  have hdestOk : wsHost.workspace.validatePath wsFile = .ok () := wsHost_accepts (by decide)
  rw [copiedFaithfully_toLinux hsourceOk hdestOk hsource hdest, hwin]
  intro h
  have hopen : openRead { str := fun _ => "" } hostOnly hostFile = .ok [1] := by
    simp [openRead, hostOnly]
  exact absurd (h [1] hopen fun _ _ => rfl) (by simp [hostOnly])

end SemanticBridge
end Ucser
