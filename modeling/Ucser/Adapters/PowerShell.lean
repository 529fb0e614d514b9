import Ucser.Core.SandboxRun
import Ucser.Lib.JsonUnicode
import Ucser.Lib.TextRecords

/-!
# JSON lines to PowerShell and back: `adapters/powershell.py`

`run_powershell` sends its input to a wrapper script as one JSON text on each line, and reads
what the script prints in the same way.

* `safeSerialize`, `parseOutput`, `runPowershell` — the writer, the reader, and the call.
* `items` — the records that an input stands for.
* `Unbroken` — no string in a record has a character at which `splitlines` ends a line and
  which JSON does not escape.
* `runPowershell_echo_iff` — **records that are printed back as they were sent are read back
  exactly when they are unbroken.**
-/

namespace Ucser
namespace Adapters

/-! ## The adapter -/

/-- `safe_serialize`, for an input that is a JSON value. -/
def safeSerialize (input : Json.Value) : List Char :=
  match input with
  | .null => []
  | .arr xs => TextRecords.join '\n' (xs.map fun x => (Json.dumpsUnicode x).toList)
  | v => (Json.dumpsUnicode v).toList

/-- A line of the output: JSON, or else raw text. -/
def parseLine (line : List Char) : Json.Value :=
  match Json.loads (String.ofList line) with
  | some v => v
  | none => .obj [("type", .str "raw"), ("data", .str (String.ofList line))]

/-- The lines of the output that are not blank, parsed. -/
def parseOutput (stdout : List Char) : List Json.Value :=
  (((Sandbox.splitlines stdout).map Text.strip).filter (fun line => !line.isEmpty)).map parseLine

/-- `run_powershell`: the process gets the command and its input, and what it prints is read
with universal newlines. -/
def runPowershell (process : String → List Char → List Char) (command : String)
    (input : Json.Value) : List Json.Value :=
  parseOutput (Lines.universal false (process command (safeSerialize input)))

/-! ## What comes back -/

/-- The records of an input: none, the elements of a list, or the value itself. -/
def items : Json.Value → List Json.Value
  | .null => []
  | .arr xs => xs
  | v => [v]

/-- No string of the value, keys among them, has one of the characters NEL, LINE SEPARATOR and
PARAGRAPH SEPARATOR. -/
def Unbroken (v : Json.Value) : Prop :=
  ∀ s ∈ v.strings, ∀ c ∈ s.toList, c.toNat ≠ 0x85 ∧ c.toNat ≠ 0x2028 ∧ c.toNat ≠ 0x2029

theorem parseOutput_eq (stdout : List Char) :
    parseOutput stdout = TextRecords.readLines Sandbox.isLineBreak parseLine stdout := by
  rw [parseOutput, Sandbox.splitlines, TextRecords.readLines]

theorem isSpace_of_isLineBreak {c : Char} (h : Sandbox.isLineBreak c = true) :
    Text.isSpace c = true := by
  simp only [Sandbox.isLineBreak, List.contains_eq_mem, decide_eq_true_eq, List.mem_cons,
    List.not_mem_nil, or_false] at h
  simp only [Text.isSpace, Bool.or_eq_true, Bool.and_eq_true, decide_eq_true_eq, beq_iff_eq]
  omega

theorem isSpace_eq_false_of_printable {c : Char} (h : Json.isPrintable c = true) (hne : c ≠ ' ') :
    Text.isSpace c = false := by
  obtain ⟨hlow, hhigh⟩ := Json.isPrintable_iff.mp h
  have hblank : c.toNat ≠ 0x20 := fun heq => hne (Char.toNat_inj.mp heq)
  by_contra hspace
  simp only [Text.isSpace, Bool.or_eq_true, Bool.and_eq_true, decide_eq_true_eq, beq_iff_eq,
    Bool.not_eq_false] at hspace
  omega

theorem isSpace_eq_false_of_isNumChar {c : Char} (h : Json.isNumChar c = true) :
    Text.isSpace c = false := by
  refine isSpace_eq_false_of_printable (Json.isPrintable_of_isNumChar h) ?_
  rintro rfl
  exact absurd h (by decide)

/-- What announces a value is no blank. -/
theorem isSpace_eq_false_of_kindOf {c : Char} (h : Json.kindOf c < 6) : Text.isSpace c = false := by
  unfold Json.kindOf at h
  split_ifs at h with h1 h2 h3 h4 h5 h6
  · subst h1; rfl
  · obtain rfl | rfl := h2 <;> rfl
  · subst h3; rfl
  · subst h4; rfl
  · subst h5; rfl
  · exact isSpace_eq_false_of_isNumChar h6
  · exact absurd h (by omega)

/-! ## The ends of a text -/

section Ends

variable (pad : List Char)

/-- The text ends in a character that is no blank. -/
def EndsSolid (text : List Char) : Prop := ∃ front c, text = front ++ [c] ∧ Text.isSpace c = false

theorem EndsSolid.append {text : List Char} (h : EndsSolid text) (front : List Char) :
    EndsSolid (front ++ text) := by
  obtain ⟨rest, c, rfl, hc⟩ := h
  exact ⟨front ++ rest, c, (List.append_assoc _ _ _).symm, hc⟩

theorem endsSolid_renderTailUsing (xs : List Json.Value) :
    EndsSolid (Json.renderTailUsing Json.renderStrRaw pad xs) := by
  induction xs with
  | nil => exact ⟨[], ']', rfl, by decide⟩
  | cons x xs ih =>
      rw [Json.renderTailUsing, ← List.append_assoc, ← List.cons_append]
      exact ih.append _

theorem endsSolid_renderFieldsUsing (kvs : List (String × Json.Value)) :
    EndsSolid (Json.renderFieldsUsing Json.renderStrRaw pad kvs) := by
  induction kvs with
  | nil => exact ⟨[], _, rfl, by decide⟩
  | cons p kvs ih =>
      rw [Json.renderFieldsUsing]
      simp only [← List.append_assoc, ← List.cons_append]
      exact ih.append _

theorem endsSolid_renderUsing (v : Json.Value) :
    EndsSolid (Json.renderUsing Json.renderStrRaw pad v) := by
  cases v with
  | null => exact ⟨['n', 'u', 'l'], 'l', rfl, by decide⟩
  | bool b =>
      cases b with
      | true => exact ⟨['t', 'r', 'u'], 'e', rfl, by decide⟩
      | false => exact ⟨['f', 'a', 'l', 's'], 'e', rfl, by decide⟩
  | num n =>
      obtain ⟨front, c, hfront⟩ := (List.eq_nil_or_concat' n.text).resolve_left n.ne_nil
      exact ⟨front, c, hfront, isSpace_eq_false_of_isNumChar (n.chars c (by rw [hfront]; simp))⟩
  | str s => exact ⟨'"' :: s.toList.flatMap Json.escapeRaw, '"', rfl, by decide⟩
  | arr xs =>
      cases xs with
      | nil => exact ⟨['['], ']', rfl, by decide⟩
      | cons x xs =>
          rw [Json.renderUsing, ← List.cons_append]
          exact (endsSolid_renderTailUsing pad xs).append _
  | obj kvs =>
      cases kvs with
      | nil => exact ⟨[_], _, rfl, by decide⟩
      | cons p kvs =>
          rw [Json.renderUsing]
          simp only [← List.append_assoc, ← List.cons_append]
          exact (endsSolid_renderFieldsUsing pad kvs).append _

end Ends

/-- A record neither starts nor ends with a blank. -/
theorem solid_dumpsUnicode (v : Json.Value) : TextRecords.Solid (Json.dumpsUnicode v).toList := by
  rw [Json.dumpsUnicode, String.toList_ofList]
  obtain ⟨c, t, hhead, hkind⟩ := Json.renderUsing_head Json.reads_renderStrRaw [' '] v
  obtain ⟨front, d, hlast, hd⟩ := endsSolid_renderUsing [' '] v
  refine ⟨by rw [hhead]; exact List.cons_ne_nil c t, ?_, ?_⟩
  · intro e he
    rw [hhead] at he
    obtain rfl : c = e := Option.some.inj he
    exact isSpace_eq_false_of_kindOf (hkind ▸ Json.kind_lt_six v)
  · intro e he
    rw [hlast, List.getLast?_concat] at he
    obtain rfl : d = e := Option.some.inj he
    exact hd

/-- A record is on one line exactly when it is unbroken. -/
theorem unbroken_iff (v : Json.Value) :
    (∀ c ∈ (Json.dumpsUnicode v).toList, Sandbox.isLineBreak c = false) ↔ Unbroken v := by
  rw [Json.dumpsUnicode, String.toList_ofList, Json.forall_mem_renderUsing]
  · refine forall₄_congr fun s _ c _ => ?_
    simp only [Sandbox.isLineBreak, List.contains_eq_mem, decide_eq_false_iff_not, List.mem_cons,
      List.not_mem_nil, or_false]
    omega
  · intro c hc
    obtain ⟨hlow, hhigh⟩ := Json.isPrintable_iff.mp hc
    simp only [Sandbox.isLineBreak, List.contains_eq_mem, decide_eq_false_iff_not, List.mem_cons,
      List.not_mem_nil, or_false]
    omega
  · exact List.forall_mem_singleton.mpr rfl

theorem parseLine_dumpsUnicode {v : Json.Value} (h : v.wellFormed = true) :
    parseLine (Json.dumpsUnicode v).toList = v := by
  rw [parseLine, String.ofList_toList, Json.loads_dumpsUnicode h]

theorem wellFormed_of_mem {xs : List Json.Value} (h : Json.wellFormedElems xs = true) :
    ∀ x ∈ xs, x.wellFormed = true := by
  induction xs with
  | nil => simp
  | cons x xs ih =>
      obtain ⟨hx, hxs⟩ := Bool.and_eq_true_iff.mp h
      exact List.forall_mem_cons.mpr ⟨hx, ih hxs⟩

/-- The input as its records, one on each line. -/
theorem safeSerialize_eq (input : Json.Value) :
    safeSerialize input =
      TextRecords.join '\n' ((items input).map fun x => (Json.dumpsUnicode x).toList) := by
  cases input <;> rfl

theorem wellFormed_items {input : Json.Value} (h : input.wellFormed = true) :
    ∀ x ∈ items input, x.wellFormed = true := by
  cases input with
  | arr xs => exact wellFormed_of_mem h
  | null => simp [items]
  | bool b => simpa [items] using h
  | num n => simpa [items] using h
  | str s => simpa [items] using h
  | obj kvs => simpa [items] using h

/-- What is written has no carriage return, so reading it with universal newlines leaves it. -/
theorem universal_safeSerialize (input : Json.Value) :
    Lines.universal false (safeSerialize input) = safeSerialize input := by
  have hnone : '\r' ∉ safeSerialize input := by
    intro hmem
    rw [safeSerialize_eq] at hmem
    obtain heq | ⟨text, htext, hc⟩ := TextRecords.mem_join hmem
    · exact absurd heq (by decide)
    · obtain ⟨x, _, rfl⟩ := List.mem_map.mp htext
      have hall : ∀ c ∈ (Json.dumpsUnicode x).toList, c ≠ '\r' := by
        rw [Json.dumpsUnicode, String.toList_ofList, Json.forall_mem_renderUsing]
        · rintro s _ c _ hle rfl
          exact absurd hle (by decide)
        · rintro c hc rfl
          exact absurd hc (by decide)
        · simp
      exact hall _ hc rfl
  simpa using Lines.universal_append_of_no_cr [] hnone

/-- **The records come back exactly when they are unbroken**, from a process that prints what
it is sent. -/
theorem runPowershell_echo_iff (process : String → List Char → List Char) (command : String)
    {input : Json.Value} (hinput : input.wellFormed = true)
    (hecho : process command (safeSerialize input) = safeSerialize input) :
    runPowershell process command input = items input ↔ ∀ x ∈ items input, Unbroken x := by
  rw [runPowershell, hecho, universal_safeSerialize, parseOutput_eq, safeSerialize_eq,
    TextRecords.readLines_join_iff (fun c => isSpace_of_isLineBreak) (by decide)
      (fun x _ => solid_dumpsUnicode x)
      (fun x hx => parseLine_dumpsUnicode (wellFormed_items hinput x hx))]
  exact forall₂_congr fun x _ => unbroken_iff x

/-- A line feed in a string comes back, a line separator does not. -/
theorem runPowershell_echo_strings :
    runPowershell (fun _ stdin => stdin) "" (.arr [.str "a\nb", .null]) = [.str "a\nb", .null] ∧
      runPowershell (fun _ stdin => stdin) "" (.arr [.str "a\u2028b", .null]) ≠
        [.str "a\u2028b", .null] := by
  have hiff (s : String) := runPowershell_echo_iff (fun _ stdin => stdin) ""
    (show (Json.Value.arr [.str s, .null]).wellFormed = true from rfl) rfl
  refine ⟨(hiff "a\nb").mpr ?_, fun h => ?_⟩
  · simp [items, Unbroken, Json.Value.strings]
  · have hstr := (hiff "a\u2028b").mp h (.str "a\u2028b") (by simp [items])
    exact (hstr "a\u2028b" (by simp [Json.Value.strings]) '\u2028' (by decide)).2.1 (by decide)

end Adapters
end Ucser
