import Ucser.Core.Ucer
import Ucser.Lib.Datetime
import Ucser.Lib.Dict
import Ucser.Lib.Listing

/-!
# Two stores for records: `core/db.py`

`SQLiteDatabase` keeps a row for each record and sorts by the text of its timestamp;
`NATSDatabase` keeps the JSON under a key and sorts by the timestamp itself.

* `SQLiteDatabase.saveUcerSync`, `SQLiteDatabase.listUcers` — the table; the rows come in any
  order.
* `NATSDatabase.saveUcer`, `NATSDatabase.listUcers` — the bucket; the keys come in any order.
* `latest` — what both are to hold: the last record saved under each identifier.
* `getUcer_eq` — **both stores give the latest record** under an identifier.
* `listUcers_eq` — **both stores list alike**: the most recent of the latest records, when
  their timestamps are naive and distinct and SQLite can take the limit.
-/

namespace Ucser

/-- A `UCER` with its timestamp as a `datetime`, by which the stores sort. -/
structure SavedUcer where
  ucer : UCER
  timestamp : Datetime

namespace SavedUcer

def commandId (e : SavedUcer) : String := e.ucer.commandId

/-- The time of the record on the clock. -/
def instant (e : SavedUcer) : Int := e.timestamp.instant

end SavedUcer

/-- `model_dump_json` and `model_validate_json` of a `UCER`. -/
structure Pydantic where
  modelDumpJson : SavedUcer → String
  modelValidateJson : String → Option SavedUcer

/-! ## SQLite -/

/-- A row of the table `ucer`. -/
structure UcerRow where
  commandId : String
  timestamp : String
  intent : String
  ucerJson : String
  stateHash : Option String
  status : Status
  canonicalHash : Option String
  controlSignature : Option String
  executionSignature : Option String
  executionPubKey : Option String

namespace SQLiteDatabase

/-- The values of the `INSERT`. -/
def row (pydantic : Pydantic) (e : SavedUcer) : UcerRow where
  commandId := e.commandId
  timestamp := e.timestamp.isoformat
  intent := e.ucer.intent
  ucerJson := pydantic.modelDumpJson e
  stateHash := e.ucer.stateHash
  status := e.ucer.status
  canonicalHash := e.ucer.canonicalHash
  controlSignature := e.ucer.controlSignature
  executionSignature := e.ucer.executionSignature
  executionPubKey := e.ucer.executionPubKey

/-- `_save_ucer_sync`: `INSERT OR REPLACE`, with the identifier as the primary key. -/
def saveUcerSync (pydantic : Pydantic) (table : Dict String UcerRow) (e : SavedUcer) :
    Dict String UcerRow :=
  table.insert e.commandId (row pydantic e)

/-- `_get_ucer_sync`. -/
def getUcer (pydantic : Pydantic) (table : Dict String UcerRow) (commandId : String) :
    Option SavedUcer :=
  (table.get? commandId).bind fun row => pydantic.modelValidateJson row.ucerJson

/-- `ORDER BY timestamp DESC`: texts are compared by their bytes. -/
def orderByTimestampDesc (rows : List UcerRow) : List UcerRow :=
  rows.mergeSort fun r r' => !decide (Text.utf8 r.timestamp < Text.utf8 r'.timestamp)

/-- `list_ucers`, for the rows of the table in some order; `none` is an exception.
A larger integer than SQLite's own is not bound to `LIMIT ?`. -/
def listUcers (pydantic : Pydantic) (rows : List UcerRow) (limit : Nat) :
    Option (List SavedUcer) :=
  if limit < 2 ^ 63 then
    ((orderByTimestampDesc rows).take limit).mapM fun row =>
      pydantic.modelValidateJson row.ucerJson
  else none

end SQLiteDatabase

/-! ## NATS -/

namespace NATSDatabase

/-- The key of a record. -/
def key (commandId : String) : String := "ucer." ++ commandId

/-- `save_ucer`. -/
def saveUcer (pydantic : Pydantic) (bucket : Dict String (List UInt8)) (e : SavedUcer) :
    Dict String (List UInt8) :=
  bucket.insert (key e.commandId) (Text.utf8 (pydantic.modelDumpJson e))

/-- The record under a key. -/
def readEntry (pydantic : Pydantic) (bucket : Dict String (List UInt8)) (key : String) :
    Option SavedUcer :=
  ((bucket.get? key).bind Text.utf8Decode).bind pydantic.modelValidateJson

/-- `get_ucer`. -/
def getUcer (pydantic : Pydantic) (bucket : Dict String (List UInt8)) (commandId : String) :
    Option SavedUcer :=
  readEntry pydantic bucket (key commandId)

/-- `entries.sort(key=lambda x: x.timestamp, reverse=True)`; naive timestamps and others cannot
be compared, and sorting them raises. -/
def sortLatestFirst (entries : List SavedUcer) : Option (List SavedUcer) :=
  if entries.all fun e => e.timestamp.offset.isNone then
    some (entries.mergeSort fun e e' => !decide (e.timestamp.fields < e'.timestamp.fields))
  else if entries.all fun e => e.timestamp.offset.isSome then
    some (entries.mergeSort fun e e' => !decide (e.instant < e'.instant))
  else none

/-- `list_ucers`, for the keys of the bucket in some order.  Without keys `keys()` raises, and
every exception is caught. -/
def listUcers (pydantic : Pydantic) (bucket : Dict String (List UInt8)) (keys : List String)
    (limit : Nat) : List SavedUcer :=
  if keys = [] then []
  else
    match (keys.filter fun key => "ucer.".toList.isPrefixOf key.toList).mapM
        (readEntry pydantic bucket) with
    | none => []
    | some entries =>
        match sortLatestFirst entries with
        | none => []
        | some sorted => sorted.take limit

end NATSDatabase

/-! ## What both hold -/

/-- The last record saved under each identifier. -/
def latest (saves : List SavedUcer) : Dict String SavedUcer :=
  saves.foldl (fun d e => d.insert e.commandId e) Dict.empty

/-- The table after these saves. -/
def SQLiteDatabase.table (pydantic : Pydantic) (saves : List SavedUcer) : Dict String UcerRow :=
  saves.foldl (saveUcerSync pydantic) Dict.empty

/-- The bucket after these saves. -/
def NATSDatabase.bucket (pydantic : Pydantic) (saves : List SavedUcer) :
    Dict String (List UInt8) :=
  saves.foldl (saveUcer pydantic) Dict.empty

section Latest

variable {saves : List SavedUcer}

/-- A latest record has been saved, under its own identifier. -/
theorem of_get?_latest {commandId : String} {e : SavedUcer}
    (h : (latest saves).get? commandId = some e) : e ∈ saves ∧ e.commandId = commandId := by
  induction saves using List.reverseRecOn with
  | nil => exact absurd h (by simp [latest, Dict.get?, Dict.empty])
  | append_singleton saves last ih =>
      rw [latest, List.foldl_append] at h
      change ((latest saves).insert last.commandId last).get? commandId = some e at h
      rw [Dict.get?_insert] at h
      split_ifs at h with heq
      · obtain rfl := Option.some.inj h
        exact ⟨List.mem_append_right _ List.mem_cons_self, heq.symm⟩
      · obtain ⟨hmem, hid⟩ := ih h
        exact ⟨List.mem_append_left _ hmem, hid⟩

theorem of_mem_items {p : String × SavedUcer} (h : p ∈ (latest saves).items) :
    p.2 ∈ saves ∧ p.2.commandId = p.1 :=
  of_get?_latest (Dict.mem_items_iff.mp h)

theorem of_mem_values {e : SavedUcer} (h : e ∈ (latest saves).values) : e ∈ saves := by
  obtain ⟨p, hp, rfl⟩ := List.mem_map.mp h
  exact (of_mem_items hp).1

/-- A store that writes every record under a name for its identifier holds the latest ones. -/
theorem items_foldl_insert {κ β : Type} [DecidableEq κ] {name : String → κ}
    (hname : Function.Injective name) (write : SavedUcer → β) :
    (saves.foldl (fun d e => d.insert (name e.commandId) (write e)) Dict.empty).items =
      (latest saves).items.map (Prod.map name write) := by
  induction saves using List.reverseRecOn with
  | nil => rfl
  | append_singleton saves last ih =>
      rw [latest, List.foldl_append, List.foldl_append]
      exact Dict.items_insert_map hname write ih last.commandId last

theorem items_table (pydantic : Pydantic) (saves : List SavedUcer) :
    (SQLiteDatabase.table pydantic saves).items =
    (latest saves).items.map (Prod.map id (SQLiteDatabase.row pydantic)) :=
  items_foldl_insert Function.injective_id _

theorem key_injective : Function.Injective NATSDatabase.key := by
  intro commandId commandId' h
  have hlist := congrArg String.toList h
  rw [NATSDatabase.key, NATSDatabase.key, String.toList_append, String.toList_append] at hlist
  exact String.toList_injective (List.append_cancel_left hlist)

theorem items_bucket (pydantic : Pydantic) (saves : List SavedUcer) :
    (NATSDatabase.bucket pydantic saves).items =
    (latest saves).items.map
      (Prod.map NATSDatabase.key fun e => Text.utf8 (pydantic.modelDumpJson e)) :=
  items_foldl_insert key_injective _

/-- The rows are those of the latest records. -/
theorem values_table (pydantic : Pydantic) (saves : List SavedUcer) :
    (SQLiteDatabase.table pydantic saves).values =
    (latest saves).values.map (SQLiteDatabase.row pydantic) := by
  rw [Dict.values, Dict.values, items_table, List.map_map, List.map_map]
  rfl

/-- The keys are those of the latest records. -/
theorem keys_bucket (pydantic : Pydantic) (saves : List SavedUcer) :
    (NATSDatabase.bucket pydantic saves).keys =
    (latest saves).values.map fun e => NATSDatabase.key e.commandId := by
  rw [Dict.keys, Dict.values, items_bucket, List.map_map, List.map_map]
  refine List.map_congr_left fun p hp => ?_
  rw [Function.comp_apply, Function.comp_apply, (of_mem_items hp).2]
  rfl

end Latest

/-! ## Reading back -/

/-- What the JSON of each saved record is read as: the record. -/
def RoundTrips (pydantic : Pydantic) (saves : List SavedUcer) : Prop :=
  ∀ e ∈ saves, pydantic.modelValidateJson (pydantic.modelDumpJson e) = some e

variable {pydantic : Pydantic} {saves : List SavedUcer}

/-- **Both stores give the latest record under an identifier.** -/
theorem getUcer_eq (hjson : RoundTrips pydantic saves) (commandId : String) :
    SQLiteDatabase.getUcer pydantic (SQLiteDatabase.table pydantic saves) commandId =
        (latest saves).get? commandId ∧
      NATSDatabase.getUcer pydantic (NATSDatabase.bucket pydantic saves) commandId =
        (latest saves).get? commandId := by
  have hrow := Dict.get?_items_map Function.injective_id _ (items_table pydantic saves)
    commandId
  have hentry := Dict.get?_items_map key_injective _ (items_bucket pydantic saves) commandId
  rw [SQLiteDatabase.getUcer, NATSDatabase.getUcer, NATSDatabase.readEntry, hentry]
  change (SQLiteDatabase.table pydantic saves).get? commandId = _ at hrow
  rw [hrow]
  cases hlatest : (latest saves).get? commandId with
  | none => exact ⟨rfl, rfl⟩
  | some e =>
      have hread := hjson e (of_get?_latest hlatest).1
      simp [SQLiteDatabase.row, Text.utf8Decode_utf8, hread]

/-- The latest records have naive timestamps, no two of them the same. -/
structure NaiveDistinct (versions : List SavedUcer) : Prop where
  naive : ∀ e ∈ versions, e.timestamp.offset = none
  distinct : versions.Pairwise fun e e' => e.timestamp ≠ e'.timestamp

/-- Records ordered by something that naive timestamps order as the clock does. -/
theorem descending_of_not_lt {versions l : List SavedUcer} (h : NaiveDistinct versions)
    (hperm : l.Perm versions) (lt : SavedUcer → SavedUcer → Prop)
    (hlt : ∀ e e' : SavedUcer, e.timestamp.offset = none → e'.timestamp.offset = none →
      (lt e e' ↔ e.instant < e'.instant))
    (hsorted : l.Pairwise fun e e' => ¬ lt e e') : Descending SavedUcer.instant l := by
  have hnaive : ∀ e ∈ l, e.timestamp.offset = none := fun e he => h.naive e (hperm.mem_iff.mp he)
  have hdistinct : l.Pairwise fun e e' => e.timestamp ≠ e'.timestamp :=
    h.distinct.perm hperm.symm fun hne => hne.symm
  refine descending_of_pairwise (hsorted.imp_of_mem fun he he' hnot => ?_)
    (hdistinct.imp_of_mem fun he he' hne => ?_)
  · rwa [hlt _ _ (hnaive _ he) (hnaive _ he')] at hnot
  · exact fun heq => hne (Datetime.eq_of_instant (hnaive _ he) (hnaive _ he') heq)

/-- SQLite lists the latest records in one descending order, cut off at a limit it can take. -/
theorem SQLiteDatabase.exists_listing (hjson : RoundTrips pydantic saves)
    (h : NaiveDistinct (latest saves).values) {rows : List UcerRow}
    (hrows : rows.Perm (table pydantic saves).values) :
    ∃ l : List SavedUcer, l.Perm (latest saves).values ∧ Descending SavedUcer.instant l ∧
      ∀ limit < 2 ^ 63, listUcers pydantic rows limit = some (l.take limit) := by
  have hread : ∀ e ∈ (latest saves).values,
      pydantic.modelValidateJson (row pydantic e).ucerJson = some e :=
    fun e he => hjson e (of_mem_values he)
  have hordered : (orderByTimestampDesc rows).Perm ((latest saves).values.map (row pydantic)) := by
    rw [← values_table]
    exact (List.mergeSort_perm rows _).trans hrows
  obtain ⟨l, hperm, hl⟩ := exists_perm_of_perm_map (row pydantic)
    (fun row => pydantic.modelValidateJson row.ucerJson) hread hordered
  have hsorted : (l.map (row pydantic)).Pairwise fun r r' =>
      ¬ Text.utf8 r.timestamp < Text.utf8 r'.timestamp := by
    rw [← hl]
    exact pairwise_mergeSort_list (fun r : UcerRow => Text.utf8 r.timestamp) rows
  refine ⟨l, hperm, ?_, fun limit hlimit => ?_⟩
  · exact descending_of_not_lt h hperm
      (fun e e' => Text.utf8 e.timestamp.isoformat < Text.utf8 e'.timestamp.isoformat)
      (fun e e' he he' => Datetime.utf8_isoformat_lt_iff he he') (List.pairwise_map.mp hsorted)
  · rw [listUcers, if_pos hlimit, hl, ← List.map_take]
    exact mapM_map fun e he => hread e (hperm.mem_iff.mp (List.mem_of_mem_take he))

/-- NATS lists them in one too. -/
theorem NATSDatabase.exists_listing (hjson : RoundTrips pydantic saves)
    (h : NaiveDistinct (latest saves).values) {keys : List String}
    (hkeys : keys.Perm (bucket pydantic saves).keys) :
    ∃ l : List SavedUcer, l.Perm (latest saves).values ∧ Descending SavedUcer.instant l ∧
      ∀ limit, listUcers pydantic (bucket pydantic saves) keys limit = l.take limit := by
  have hread : ∀ e ∈ (latest saves).values,
      readEntry pydantic (bucket pydantic saves) (key e.commandId) = some e := by
    intro e he
    obtain ⟨p, hp, rfl⟩ := List.mem_map.mp he
    obtain ⟨hmem, hid⟩ := of_mem_items hp
    have hget := (getUcer_eq hjson p.1).2
    rw [getUcer, Dict.mem_items_iff.mp hp] at hget
    rwa [hid]
  rw [keys_bucket] at hkeys
  obtain ⟨l, hperm, rfl⟩ := exists_perm_of_perm_map (fun e : SavedUcer => key e.commandId)
    (readEntry pydantic (bucket pydantic saves)) hread hkeys
  have hfilter : (l.map fun e => key e.commandId).filter
      (fun key => "ucer.".toList.isPrefixOf key.toList) = l.map fun e => key e.commandId := by
    rw [List.filter_eq_self]
    intro k hk
    obtain ⟨e, -, rfl⟩ := List.mem_map.mp hk
    rw [key, String.toList_append, List.isPrefixOf_iff_prefix]
    exact List.prefix_append _ _
  have hentries : (l.map fun e => key e.commandId).mapM
      (readEntry pydantic (bucket pydantic saves)) = some l :=
    mapM_map fun e he => hread e (hperm.mem_iff.mp he)
  have hnaive : l.all (fun e => e.timestamp.offset.isNone) = true := by
    rw [List.all_eq_true]
    intro e he
    rw [h.naive e (hperm.mem_iff.mp he)]
    rfl
  have hsort : (l.mergeSort fun e e' => !decide (e.timestamp.fields < e'.timestamp.fields)).Perm
      (latest saves).values := (List.mergeSort_perm l _).trans hperm
  refine ⟨_, hsort, ?_, fun limit => ?_⟩
  · exact descending_of_not_lt h hsort (fun e e' => e.timestamp.fields < e'.timestamp.fields)
      (fun e e' he he' => Datetime.fields_lt_iff he he')
      (pairwise_mergeSort_list (fun e : SavedUcer => e.timestamp.fields) l)
  · rw [listUcers, hfilter, hentries]
    simp only [sortLatestFirst, hnaive, if_true]
    split_ifs with hnil
    · rw [List.map_eq_nil_iff.mp hnil]
      simp
    · rfl

/-- **Both stores list alike.**  After any saves whose latest records have naive and distinct
timestamps, both list the same records for every limit below `2 ^ 63`, whatever order the rows
and the keys come in: the most recent ones, the latest first. -/
theorem listUcers_eq (hjson : RoundTrips pydantic saves)
    (h : NaiveDistinct (latest saves).values) {rows : List UcerRow}
    (hrows : rows.Perm (SQLiteDatabase.table pydantic saves).values) {keys : List String}
    (hkeys : keys.Perm (NATSDatabase.bucket pydantic saves).keys) {limit : Nat}
    (hlimit : limit < 2 ^ 63) :
    ∃ result, SQLiteDatabase.listUcers pydantic rows limit = some result ∧
      NATSDatabase.listUcers pydantic (NATSDatabase.bucket pydantic saves) keys limit = result ∧
      MostRecent SavedUcer.instant limit (latest saves).values result := by
  obtain ⟨l, hperm, hdescending, hsqlite⟩ := SQLiteDatabase.exists_listing hjson h hrows
  obtain ⟨l', hperm', hdescending', hnats⟩ := NATSDatabase.exists_listing hjson h hkeys
  have hsame : l' = l := hdescending'.unique hdescending (hperm'.trans hperm.symm)
  refine ⟨l.take limit, hsqlite limit hlimit, ?_, mostRecent_take hdescending hperm limit⟩
  rw [hnats, hsame]

/-! ## Two records within one second -/

/-- Midnight at the turn of the year, and so many microseconds. -/
def midnight (microsecond : Fin 1000000) : Datetime where
  year := 2025
  month := 1
  day := 1
  hour := 0
  minute := 0
  second := 0
  microsecond := microsecond
  year_valid := by decide
  month_valid := by decide
  day_valid := by decide
  hour_valid := by decide
  minute_valid := by decide
  second_valid := by decide
  microsecond_valid := microsecond.isLt
  offset_valid := by simp

/-- A record without microseconds. -/
def firstSave : SavedUcer := ⟨{ commandId := "a", intent := "x", steps := [] }, midnight 0⟩

/-- A record half a second later, whose text is longer. -/
def secondSave : SavedUcer := ⟨{ commandId := "b", intent := "x", steps := [] }, midnight 500000⟩

/-- The JSON of a record with nothing in it but its identifier and its time. -/
def dumpBare (e : SavedUcer) : String :=
  "\x7b\"command_id\":\"" ++ e.commandId ++ "\",\"timestamp\":\"" ++ e.timestamp.isoformat ++
    "\",\"intent\":\"x\",\"steps\":[],\"traces\":[],\"required_capabilities\":[]," ++
    "\"state_hash\":null,\"status\":\"pending\",\"canonical_hash\":null," ++
    "\"control_signature\":null,\"execution_signature\":null,\"execution_pub_key\":null\x7d"

/-- The JSON of both records, written and read. -/
def twoBare : Pydantic where
  modelDumpJson := dumpBare
  modelValidateJson text :=
    if text = dumpBare firstSave then some firstSave
    else if text = dumpBare secondSave then some secondSave
    else none

theorem dumpBare_ne : dumpBare secondSave ≠ dumpBare firstSave := by decide

/-- Both stores list the later record first. -/
theorem listUcers_two : ∃ result,
    SQLiteDatabase.listUcers twoBare
        (SQLiteDatabase.table twoBare [firstSave, secondSave]).values 2 = some result ∧
      NATSDatabase.listUcers twoBare (NATSDatabase.bucket twoBare [firstSave, secondSave])
        (NATSDatabase.bucket twoBare [firstSave, secondSave]).keys 2 = result ∧
      MostRecent SavedUcer.instant 2 (latest [firstSave, secondSave]).values result := by
  refine listUcers_eq ?_ ⟨?_, ?_⟩ (List.Perm.refl _) (List.Perm.refl _) (by decide)
  · intro e he
    rw [twoBare]
    dsimp only
    rcases List.mem_cons.mp he with rfl | he
    · rw [if_pos rfl]
    · rw [List.mem_singleton.mp he, if_neg dumpBare_ne, if_pos rfl]
  · show ∀ e ∈ [firstSave, secondSave], e.timestamp.offset = none
    simp [firstSave, secondSave, midnight]
  · show [firstSave, secondSave].Pairwise fun e e' => e.timestamp ≠ e'.timestamp
    simp [firstSave, secondSave, midnight]

/-- Nothing is stored, and SQLite raises at the limit `2 ^ 63`, where the other store lists
nothing. -/
theorem huge_limit_raises : ¬ ∀ (pydantic : Pydantic) (saves : List SavedUcer)
    (rows : List UcerRow) (keys : List String) (limit : Nat), RoundTrips pydantic saves →
    NaiveDistinct (latest saves).values →
    rows.Perm (SQLiteDatabase.table pydantic saves).values →
    keys.Perm (NATSDatabase.bucket pydantic saves).keys →
    ∃ result, SQLiteDatabase.listUcers pydantic rows limit = some result ∧
      NATSDatabase.listUcers pydantic (NATSDatabase.bucket pydantic saves) keys limit = result ∧
      MostRecent SavedUcer.instant limit (latest saves).values result := by
  intro h
  have hnaive : NaiveDistinct (latest []).values :=
    ⟨fun e he => absurd he List.not_mem_nil, List.Pairwise.nil⟩
  obtain ⟨result, hsqlite, _⟩ := h twoBare [] [] [] (2 ^ 63)
    (fun e he => absurd he List.not_mem_nil) hnaive (List.Perm.refl _) (List.Perm.refl _)
  rw [SQLiteDatabase.listUcers, if_neg (Nat.lt_irrefl _)] at hsqlite
  exact absurd hsqlite (by simp)

end Ucser
