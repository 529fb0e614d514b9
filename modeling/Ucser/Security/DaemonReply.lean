import Ucser.Lib.JsonPrefix
import Ucser.Security.PsDaemon

/-!
# The reply of the daemon, in part: `security/ps_daemon.py`

The daemon writes one line; `audit` receives once, at most 4096 bytes, and takes what it has
received for the reply.

* `Verdict`, `received` — what is made of the bytes.
* `Attempt`, `auditOnce` — a call of `audit`, with what the outside answers.
* `WritesReplies`, `Attempt.Receives` — what is known of the line, and of the bytes.
* `received_part` — **a part of the line is the verdict of the daemon, or a refusal**.
* `received_whole` — the whole object is its verdict.
* `auditOnce_fails_closed` — so a command is cleared only if **the daemon has found nothing**.
-/

namespace Ucser
namespace PsDaemon

open Json (Value)

/-- What `audit` returns, as it stands in the JSON: neither field is checked. -/
structure Verdict where
  isSafe : Value
  reasons : Value
  capabilities : Finset Capability

/-- `AuditResult(False, [f"Auditor Daemon Connection Error: {str(e)}"], set())`. -/
def refusal (message : String) : Verdict :=
  ⟨.bool false, .arr [.str ("Auditor Daemon Connection Error: " ++ message)], ∅⟩

/-- What goes wrong with the bytes. -/
inductive Malformed where
  | notUtf8
  | notJson
  /-- There is no `get`. -/
  | notObject

/-- What is made of the bytes that `recv` has returned; `message` is what `str` makes of an
exception. -/
def received (message : Malformed → String) (data : List UInt8) : Verdict :=
  match Text.utf8Decode data with
  | none => refusal (message .notUtf8)
  | some response =>
      match Json.loads response with
      | none => refusal (message .notJson)
      | some (.obj kvs) =>
          ⟨(Json.get? kvs "safe").getD (.bool false), (Json.get? kvs "reasons").getD (.arr []),
            {.exec}⟩
      | some _ => refusal (message .notObject)

/-- What the outside answers to a call of `audit`. -/
structure Attempt where
  /-- Does the port answer? -/
  alive : Bool
  /-- What starting the daemon raises. -/
  popen : Option PyError := none
  /-- The bytes of `recv`, or the text of what connecting, sending or receiving raises. -/
  exchange : Except String (List UInt8)

/-- `audit`: the daemon is started outside the `try`. -/
def auditOnce (message : Malformed → String) (attempt : Attempt) : Except PyError Verdict :=
  match attempt.alive, attempt.popen with
  | false, some e => .error e
  | _, _ =>
      match attempt.exchange with
      | .error text => .ok (refusal text)
      | .ok data => .ok (received message data)

/-! ## What the daemon writes -/

/-- The verdict of the daemon. -/
def Reply.verdict (reply : Reply) : Verdict :=
  ⟨.bool reply.safe, .arr (reply.reasons.map .str), {.exec}⟩

/-- `ConvertTo-Json -Compress` writes an object that reads as the reply. -/
def WritesReplies (convertToJson : Reply → String) : Prop :=
  ∀ reply, ∃ kvs, Json.loads (convertToJson reply) = some (.obj kvs) ∧
    Json.get? kvs "safe" = some (.bool reply.safe) ∧
    Json.get? kvs "reasons" = some (.arr (reply.reasons.map .str))

/-- The end of a line, on Linux and on Windows. -/
def newlines : List String := ["\n", "\r\n"]

variable {message : Malformed → String} {convertToJson : Reply → String}

theorem skipBlanks_newline {newline : String} (h : newline ∈ newlines) :
    Json.skipBlanks newline.toList = [] := by
  rcases List.mem_pair.mp h with rfl | rfl
  · rfl
  · rfl

/-- **A part of the line is the verdict of the daemon, or a refusal.** -/
theorem received_part (hwrites : WritesReplies convertToJson) {newline : String}
    (hnewline : newline ∈ newlines) (reply : Reply) {data rest : List UInt8}
    (hdata : Text.utf8 (convertToJson reply ++ newline) = data ++ rest) :
    received message data = reply.verdict ∨ ∃ text, received message data = refusal text := by
  obtain ⟨kvs, hloads, hsafe, hreasons⟩ := hwrites reply
  unfold received
  split
  · exact Or.inr ⟨_, rfl⟩
  rename_i response hresponse
  obtain ⟨tail, htail⟩ := Text.exists_append_of_utf8Decode hresponse hdata
  split
  · exact Or.inr ⟨_, rfl⟩
  · rename_i kvs' hkvs
    have hline : Json.loads (response ++ tail) = some (.obj kvs) := by
      rw [← htail]
      exact Json.loads_append_blank hloads (skipBlanks_newline hnewline)
    obtain rfl := Value.obj.inj (Json.loads_of_part hkvs hline)
    left
    rw [hsafe, hreasons]
    rfl
  · exact Or.inr ⟨_, rfl⟩

theorem utf8_append (s t : String) : Text.utf8 (s ++ t) = Text.utf8 s ++ Text.utf8 t := by
  simp [Text.utf8]

/-- A part of the end of a line is a text of blanks. -/
theorem exists_blank_of_append {newline : String} (h : newline ∈ newlines) {x rest : List UInt8}
    (hx : Text.utf8 newline = x ++ rest) :
    ∃ blank, x = Text.utf8 blank ∧ Json.skipBlanks blank.toList = [] := by
  have hlf : Text.utf8 "\n" = [10] := by decide
  have hcrlf : Text.utf8 "\r\n" = [13, 10] := by decide
  have hcr : Text.utf8 "\r" = [13] := by decide
  rcases List.mem_pair.mp h with rfl | rfl
  · rw [hlf] at hx
    rcases List.singleton_eq_append_iff.mp hx with ⟨rfl, _⟩ | ⟨rfl, _⟩
    · exact ⟨"", Text.utf8_empty.symm, rfl⟩
    · exact ⟨"\n", hlf.symm, rfl⟩
  · rw [hcrlf] at hx
    rcases List.cons_eq_append_iff.mp hx with ⟨rfl, _⟩ | ⟨y, rfl, hy⟩
    · exact ⟨"", Text.utf8_empty.symm, rfl⟩
    · rcases List.singleton_eq_append_iff.mp hy with ⟨rfl, _⟩ | ⟨rfl, _⟩
      · exact ⟨"\r", hcr.symm, rfl⟩
      · exact ⟨"\r\n", hcrlf.symm, rfl⟩

/-- **The whole object is the verdict of the daemon**, however much of the end of the line has
come. -/
theorem received_whole (hwrites : WritesReplies convertToJson) {newline : String}
    (hnewline : newline ∈ newlines) (reply : Reply) {data rest : List UInt8}
    (hdata : Text.utf8 (convertToJson reply ++ newline) = data ++ rest)
    (hlength : (Text.utf8 (convertToJson reply)).length ≤ data.length) :
    received message data = reply.verdict := by
  obtain ⟨kvs, hloads, hsafe, hreasons⟩ := hwrites reply
  obtain ⟨x, rfl⟩ : Text.utf8 (convertToJson reply) <+: data := by
    refine List.prefix_of_prefix_length_le ?_ (hdata ▸ List.prefix_append data rest) hlength
    rw [utf8_append]
    exact List.prefix_append ..
  rw [utf8_append, List.append_assoc] at hdata
  obtain ⟨blank, rfl, hblank⟩ := exists_blank_of_append hnewline (List.append_cancel_left hdata)
  rw [← utf8_append, received, Text.utf8Decode_utf8]
  dsimp only
  rw [Json.loads_append_blank hloads hblank]
  dsimp only
  rw [hsafe, hreasons]
  rfl

/-! ## The call -/

section Call

variable (sameName : String → String → Bool) (parseInput : String → ParseResult)

/-- What the daemon answers to a command: it parses the base64 text. -/
def replyTo (command : String) : Reply :=
  let found := findings sameName (parseInput (String.ofList (Text.b64encode (Text.utf8 command))))
  ⟨found.isEmpty, found⟩

theorem daemonReply_request (command : String) :
    daemonReply sameName parseInput (request command) =
      some (replyTo sameName parseInput command) := by
  rw [daemonReply, commandToAudit_request]
  rfl

/-- What `recv` returns, if it does, is the beginning of a line of the daemon. -/
def Attempt.Receives (attempt : Attempt) (line : String) : Prop :=
  ∀ data, attempt.exchange = .ok data → data <+: Text.utf8 line

variable {sameName parseInput} {newline command : String} {attempt : Attempt} {v : Verdict}

/-- A call that returns has failed on the way, or has bytes to look at. -/
theorem auditOnce_cases (h : auditOnce message attempt = .ok v) :
    (∃ text, attempt.exchange = .error text ∧ v = refusal text) ∨
      ∃ data, attempt.exchange = .ok data ∧ v = received message data := by
  unfold auditOnce at h
  split at h
  · cases h
  · split at h
    · rename_i text htext
      exact Or.inl ⟨text, htext, (Except.ok.inj h).symm⟩
    · rename_i data hdata
      exact Or.inr ⟨data, hdata, (Except.ok.inj h).symm⟩

/-- **Only the daemon clears a command.**  Whatever part of its line is received, and whatever
fails on the way, a call that returns has its verdict or refuses, with no capability; it has its
verdict once the object has come as a whole; and it says that the command is safe only if the
daemon has found nothing. -/
theorem auditOnce_fails_closed (message : Malformed → String)
    (sameName : String → String → Bool) (parseInput : String → ParseResult)
    (hwrites : WritesReplies convertToJson) (hnewline : newline ∈ newlines) {reply : Reply}
    (hreply : daemonReply sameName parseInput (request command) = some reply)
    (hreceives : attempt.Receives (convertToJson reply ++ newline))
    (haudit : auditOnce message attempt = .ok v) :
    (v = reply.verdict ∨ ∃ text, v = refusal text) ∧
      (∀ data, attempt.exchange = .ok data →
        (Text.utf8 (convertToJson reply)).length ≤ data.length → v = reply.verdict) ∧
      (v.isSafe.truthy = true →
        findings sameName
          (parseInput (String.ofList (Text.b64encode (Text.utf8 command)))) = []) := by
  obtain rfl : reply = replyTo sameName parseInput command :=
    Option.some.inj (hreply.symm.trans (daemonReply_request sameName parseInput command))
  have hpart : v = (replyTo sameName parseInput command).verdict ∨ ∃ text, v = refusal text := by
    obtain ⟨text, _, rfl⟩ | ⟨data, hdata, rfl⟩ := auditOnce_cases haudit
    · exact Or.inr ⟨text, rfl⟩
    · obtain ⟨rest, hrest⟩ := hreceives data hdata
      exact received_part hwrites hnewline _ hrest.symm
  refine ⟨hpart, fun data hdata hlength => ?_, fun hsafe => ?_⟩
  · obtain ⟨rest, hrest⟩ := hreceives data hdata
    obtain ⟨text, htext, _⟩ | ⟨data', hdata', rfl⟩ := auditOnce_cases haudit
    · cases hdata.symm.trans htext
    · obtain rfl := Except.ok.inj (hdata.symm.trans hdata')
      exact received_whole hwrites hnewline _ hrest.symm hlength
  · rcases hpart with rfl | ⟨text, rfl⟩
    · exact List.isEmpty_iff.mp hsafe
    · cases hsafe

/-- The line of a daemon that writes as Python does. -/
def plainJson (reply : Reply) : String :=
  Json.dumpsPlain (.obj [("safe", .bool reply.safe), ("reasons", .arr (reply.reasons.map .str))])

theorem writesReplies_plainJson : WritesReplies plainJson := by
  intro reply
  refine ⟨_, Json.loads_dumpsPlain ?_, rfl, rfl⟩
  simp [Value.wellFormed, Json.wellFormedFields, Json.wellFormedElems_str]

/-- The reply to `iwr`, as far as ten bytes go. -/
def tenBytes : List UInt8 :=
  (Text.utf8 (plainJson (replyTo (· == ·) parseWord "iwr") ++ "\n")).take 10

/-- A call that receives no more. -/
def tenByteAttempt : Attempt where
  alive := true
  exchange := .ok tenBytes

theorem receives_tenBytes :
    tenByteAttempt.Receives (plainJson (replyTo (· == ·) parseWord "iwr") ++ "\n") := by
  intro data hdata
  obtain rfl := Except.ok.inj hdata
  exact List.take_prefix ..

theorem auditOnce_tenBytes :
    (received (fun _ => "") tenBytes = (replyTo (· == ·) parseWord "iwr").verdict ∨
        ∃ text, received (fun _ => "") tenBytes = refusal text) ∧
      (∀ data, tenByteAttempt.exchange = .ok data →
        (Text.utf8 (plainJson (replyTo (· == ·) parseWord "iwr"))).length ≤ data.length →
          received (fun _ => "") tenBytes = (replyTo (· == ·) parseWord "iwr").verdict) ∧
      ((received (fun _ => "") tenBytes).isSafe.truthy = true →
        findings (· == ·) (parseWord (String.ofList (Text.b64encode (Text.utf8 "iwr")))) = []) := by
  apply auditOnce_fails_closed (fun _ => "") (· == ·) parseWord writesReplies_plainJson
    List.mem_cons_self (daemonReply_request (· == ·) parseWord "iwr") receives_tenBytes
  rfl

end Call

end PsDaemon
end Ucser
