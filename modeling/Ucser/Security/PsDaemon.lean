import Ucser.Security.Auditor

/-!
# Auditing PowerShell through a daemon: `security/ps_daemon.py`

`PersistentPowerShellAuditor.audit` sends one line to a PowerShell process and
reads a verdict back.  The two ends are written in two languages: the sender is
Python, the receiver a script inside a Python string.

* `request` — the line the sender puts on the wire.
* `commandToAudit` — what the receiver reads off it and hands to
  `Parser.ParseInput`.
* `daemonReply`, `audit` — the verdict of the receiver and what the sender makes
  of it, for a parser and a name comparison of PowerShell that are parameters.
* `commandToAudit_request` — **the receiver parses the base64 text**: nothing
  decodes it.
* `wireAgrees_iff` — so the two ends agree on the empty command and on no other.
-/

namespace Ucser
namespace PsDaemon

/-! ## The wire -/

/-- What `sendall` is given: the base64 of the command's UTF-8, and a newline. -/
def request (command : String) : List UInt8 :=
  Text.utf8 (String.ofList (Text.b64encode (Text.utf8 command) ++ ['\n']))

/-- `StreamReader` on UTF-8 bytes: the text they encode, if they encode one. -/
def streamText (bytes : List UInt8) : Option String := String.fromUTF8? bytes.toByteArray

/-- `$reader.ReadLine()`: the text the daemon passes to `Parser.ParseInput`. -/
def commandToAudit (bytes : List UInt8) : Option String :=
  (streamText bytes).bind fun text => (Text.readLine text.toList).map String.ofList

/-! ## The verdict -/

/-- What `Parser.ParseInput` finds in a text: the messages of its errors and the
name of every command, where it has one. -/
structure ParseResult where
  errors : List String
  commandNames : List (Option String)

/-- `$risky`. -/
def risky : List String :=
  ["Invoke-WebRequest", "iwr", "wget", "Invoke-RestMethod", "irm", "Start-Process", "saps",
    "Add-Type", "Set-ExecutionPolicy"]

/-- The reply: `@{ safe = …; reasons = … }`. -/
structure Reply where
  safe : Bool
  reasons : List String

section Verdict

/- `sameName` is PowerShell's comparison of two names, `parseInput` its parser. -/
variable (sameName : String → String → Bool) (parseInput : String → ParseResult)

/-- `$risky -contains $name`. -/
def isRisky (name : String) : Bool := risky.any (sameName name)

/-- The findings of the daemon in a parsed text. -/
def findings (result : ParseResult) : List String :=
  (if result.errors = [] then [] else ["Parse Error: " ++ " ".intercalate result.errors]) ++
    ((result.commandNames.filterMap id).filter (isRisky sameName)).map ("Risky cmdlet: " ++ ·)

/-- What the daemon answers to the bytes of one connection. -/
def daemonReply (bytes : List UInt8) : Option Reply :=
  (commandToAudit bytes).map fun text =>
    let found := findings sameName (parseInput text)
    ⟨found.isEmpty, found⟩

/-- `PersistentPowerShellAuditor.audit`: `connection` says whether the connection,
the answer within its 4096 bytes and the answer's JSON come through. -/
def audit (connection : Except String Unit) (command : String) : AuditResult :=
  match connection with
  | .error e => ⟨false, ["Auditor Daemon Connection Error: " ++ e], ∅⟩
  | .ok () =>
      match daemonReply sameName parseInput (request command) with
      | some reply => ⟨reply.safe, reply.reasons, {.exec}⟩
      | none =>
          ⟨false, ["Auditor Daemon Connection Error: Expecting value: line 1 column 1 (char 0)"], ∅⟩

/-- A text invokes a risky cmdlet. -/
def InvokesRisky (text : String) : Prop :=
  ∃ name, some name ∈ (parseInput text).commandNames ∧ isRisky sameName name = true

end Verdict

/-- An audit finds `EXEC` at most. -/
theorem capabilities_audit_subset (sameName : String → String → Bool)
    (parseInput : String → ParseResult) (connection : Except String Unit) (command : String) :
    (audit sameName parseInput connection command).capabilities ⊆ {.exec} := by
  unfold audit
  split
  · exact Finset.empty_subset _
  · split
    · exact Finset.Subset.refl _
    · exact Finset.empty_subset _

/-! ## What the daemon parses -/

theorem streamText_utf8 (s : String) : streamText (Text.utf8 s) = some s := by
  have hbytes : (Text.utf8 s).toByteArray = s.toByteArray := by
    rw [Text.utf8, ← List.utf8Encode, ← String.toByteArray_ofList, String.ofList_toList]
  rw [streamText, hbytes, String.fromUTF8?, dif_pos s.isValidUTF8]
  rfl

/-- **The daemon parses the base64 text**, for every command. -/
theorem commandToAudit_request (command : String) :
    commandToAudit (request command) =
      some (String.ofList (Text.b64encode (Text.utf8 command))) := by
  have hline : ∀ c ∈ Text.b64encode (Text.utf8 command), c ≠ '\n' ∧ c ≠ '\r' :=
    fun c hc => (Text.b64encode_chars _ c hc).2
  rw [commandToAudit, request, streamText_utf8, Option.bind_some, String.toList_ofList,
    Text.readLine_append_newline hline []]
  rfl

/-- The base64 text of a command is never that command, unless both are empty. -/
theorem b64encode_utf8_eq_iff (command : String) :
    String.ofList (Text.b64encode (Text.utf8 command)) = command ↔ command = "" := by
  constructor
  · intro h
    by_contra hne
    have hbytes : Text.utf8 command ≠ [] := by
      intro hnil
      exact hne (Text.utf8_injective (by rw [hnil, Text.utf8_empty]))
    have hlt := Text.length_lt_length_b64encode hbytes
    have hle := Text.length_le_length_utf8 command
    have hlen : command.toList.length = (Text.b64encode (Text.utf8 command)).length := by
      rw [← h, String.toList_ofList, h]
    omega
  · rintro rfl
    rw [Text.utf8_empty]
    rfl

/-! ## Where the two ends agree -/

section Agreement

variable {sameName : String → String → Bool} {parseInput : String → ParseResult}

/-- A risky cmdlet in the text the daemon parses is a finding. -/
theorem findings_ne_nil {text : String} (h : InvokesRisky sameName parseInput text) :
    findings sameName (parseInput text) ≠ [] := by
  obtain ⟨name, hmem, hrisky⟩ := h
  have hname : name ∈ ((parseInput text).commandNames.filterMap id).filter (isRisky sameName) :=
    List.mem_filter.mpr ⟨List.mem_filterMap.mpr ⟨some name, hmem, rfl⟩, hrisky⟩
  intro hnil
  have hright := (List.append_eq_nil_iff.mp hnil).2
  rw [List.map_eq_nil_iff] at hright
  rw [hright] at hname
  exact absurd hname List.not_mem_nil

/-- The verdict of an audit whose connection holds is that on the base64 text. -/
theorem audit_connected (command : String) :
    (audit sameName parseInput (.ok ()) command).isSafe =
      (findings sameName
        (parseInput (String.ofList (Text.b64encode (Text.utf8 command))))).isEmpty := by
  rw [audit, daemonReply, commandToAudit_request]
  rfl

end Agreement

/-- The two ends agree on a command: the text the daemon parses is the command,
so that an invocation of a risky cmdlet in it is reported, whatever PowerShell's
parser and name comparison are and however the connection fares. -/
def WireAgrees (command : String) : Prop :=
  commandToAudit (request command) = some command ∧
    ∀ sameName parseInput connection, InvokesRisky sameName parseInput command →
      (audit sameName parseInput connection command).isSafe = false

/-- **The two ends agree on the empty command and on no other.** -/
theorem wireAgrees_iff (command : String) : WireAgrees command ↔ command = "" := by
  constructor
  · rintro ⟨htext, -⟩
    rw [commandToAudit_request, Option.some.injEq] at htext
    exact (b64encode_utf8_eq_iff command).mp htext
  · intro hempty
    have hself := (b64encode_utf8_eq_iff command).mpr hempty
    refine ⟨by rw [commandToAudit_request, hself], ?_⟩
    intro sameName parseInput connection hrisky
    cases connection with
    | error e => rfl
    | ok u =>
        show (audit sameName parseInput (.ok ()) command).isSafe = false
        rw [audit_connected, hself, List.isEmpty_eq_false_iff]
        exact findings_ne_nil hrisky

/-- A parser for texts of one word: PowerShell takes such a text for a command of
that name. -/
def parseWord (text : String) : ParseResult := ⟨[], [some text]⟩

/-- The daemon parses `aXdy` where `iwr` was submitted, and calls it safe. -/
theorem iwr_reported_safe :
    ¬ WireAgrees "iwr" ∧ commandToAudit (request "iwr") = some "aXdy" ∧
      (audit (· == ·) parseWord (.ok ()) "iwr").isSafe = true := by
  have hrisky : InvokesRisky (· == ·) parseWord "iwr" := ⟨"iwr", by simp [parseWord], by decide⟩
  have hsafe : (audit (· == ·) parseWord (.ok ()) "iwr").isSafe = true := by
    rw [audit_connected]
    decide
  refine ⟨?_, ?_, hsafe⟩
  · rintro ⟨-, hunsafe⟩
    have h := hunsafe (· == ·) parseWord (.ok ()) hrisky
    rw [hsafe] at h
    exact absurd h (by decide)
  · rw [commandToAudit_request]
    decide

end PsDaemon
end Ucser
