import Mathlib.Logic.Function.Basic
import Ucser.Core.Db
import Ucser.Core.Types
import Ucser.Lib.JsonLoads

/-!
# The key-value halves of the two stores: `set_kv` and `get_kv` in `core/db.py`

`SQLiteDatabase` keeps the JSON of a value in a row, `NATSDatabase` as an entry of a bucket;
the bucket takes only some keys.  Reading a key that is not there gives `None`.

* `SQLiteDatabase.setKv`, `SQLiteDatabase.getKv` — the table `kv_store`.
* `NATSDatabase.setKv`, `NATSDatabase.getKv` — the bucket.
* `kept` — what both are for: the value last put under each key.
* `getKv_eq` — **both stores are that map**, on the keys the bucket takes.
-/

namespace Ucser

/-- A call of `set_kv`, and the time at which it is made. -/
structure Put where
  key : String
  value : Json.Value
  now : String

/-- What is last put under each key; `None` where nothing is. -/
def kept (puts : List Put) : String → Json.Value :=
  puts.foldl (fun m put => Function.update m put.key put.value) fun _ => .null

theorem kept_concat (puts : List Put) (put : Put) :
    kept (puts ++ [put]) = Function.update (kept puts) put.key put.value := by
  rw [kept, List.foldl_append]
  rfl

/-! ## SQLite -/

namespace SQLiteDatabase

/-- A row of the table `kv_store`. -/
structure KvRow where
  key : String
  value : String
  updatedAt : String

/-- `set_kv`: `INSERT OR REPLACE`, with the key as the primary key. -/
def setKv (table : Dict String KvRow) (put : Put) : Dict String KvRow :=
  table.insert put.key ⟨put.key, Json.dumpsPlain put.value, put.now⟩

/-- `get_kv`; `json.loads` may raise. -/
def getKv (table : Dict String KvRow) (key : String) : Except PyError Json.Value :=
  match table.get? key with
  | none => .ok .null
  | some row =>
      match Json.loads row.value with
      | some v => .ok v
      | none => .error (.exception "JSONDecodeError")

/-- The table after these calls. -/
def kvStore (puts : List Put) : Dict String KvRow := puts.foldl setKv .empty

end SQLiteDatabase

/-! ## NATS -/

namespace NATSDatabase

variable (takes : String → Bool)

/-- `set_kv`: `put` raises for a key the bucket does not take. -/
def setKv (bucket : Dict String (List UInt8)) (put : Put) :
    Except PyError (Dict String (List UInt8)) :=
  if takes put.key then .ok (bucket.insert put.key (Text.utf8 (Json.dumpsPlain put.value)))
  else .error (.exception "InvalidKeyError")

/-- `get_kv`: every exception, also for a key that is not there, is caught. -/
def getKv (bucket : Dict String (List UInt8)) (key : String) : Json.Value :=
  if takes key then
    match ((bucket.get? key).bind Text.utf8Decode).bind Json.loads with
    | some v => v
    | none => .null
  else .null

/-- The bucket after these calls; one that raises leaves it. -/
def kvStore (puts : List Put) : Dict String (List UInt8) :=
  puts.foldl (fun bucket put =>
    match setKv takes bucket put with
    | .ok bucket' => bucket'
    | .error _ => bucket) .empty

end NATSDatabase

/-! ## Both are a map -/

/-- The values that are put are values that Python can hold. -/
def PutsWellFormed (puts : List Put) : Prop := ∀ put ∈ puts, put.value.wellFormed = true

instance (puts : List Put) : Decidable (PutsWellFormed puts) :=
  List.decidableBAll (fun put : Put => put.value.wellFormed = true) puts

section Kept

variable {puts : List Put} {key : String}

theorem SQLiteDatabase.getKv_insert {table : Dict String KvRow} {put : Put}
    (h : put.value.wellFormed = true) :
    getKv (setKv table put) key = if key = put.key then .ok put.value else getKv table key := by
  rw [getKv, setKv, Dict.get?_insert]
  by_cases hkey : key = put.key
  · rw [if_pos hkey, if_pos hkey]
    dsimp only
    rw [Json.loads_dumpsPlain h]
  · rw [if_neg hkey, if_neg hkey]
    rfl

/-- **The table is the map.**  By induction on the calls, from the last one. -/
theorem SQLiteDatabase.getKv_eq (h : PutsWellFormed puts) (key : String) :
    getKv (kvStore puts) key = .ok (kept puts key) := by
  induction puts using List.reverseRecOn with
  | nil => rfl
  | append_singleton puts last ih =>
      obtain ⟨hputs, hlast⟩ := List.forall_mem_append.mp h
      rw [kvStore, List.foldl_append, kept_concat]
      show getKv (setKv (kvStore puts) last) key = _
      rw [getKv_insert (hlast last List.mem_cons_self), ih hputs]
      by_cases hkey : key = last.key
      · rw [if_pos hkey, hkey, Function.update_self]
      · rw [if_neg hkey, Function.update_of_ne hkey]

theorem NATSDatabase.getKv_insert {takes : String → Bool} {bucket : Dict String (List UInt8)}
    {put : Put} (h : put.value.wellFormed = true) (hkey : takes key = true) :
    getKv takes (bucket.insert put.key (Text.utf8 (Json.dumpsPlain put.value))) key =
      if key = put.key then put.value else getKv takes bucket key := by
  rw [getKv, if_pos hkey, Dict.get?_insert]
  by_cases heq : key = put.key
  · rw [if_pos heq, if_pos heq, Option.bind_some, Text.utf8Decode_utf8, Option.bind_some,
      Json.loads_dumpsPlain h]
  · rw [if_neg heq, if_neg heq, getKv, if_pos hkey]

/-- **The bucket is the map**, on the keys it takes.  By induction on the calls, from the
last one. -/
theorem NATSDatabase.getKv_eq {takes : String → Bool} (h : PutsWellFormed puts)
    (hkey : takes key = true) : getKv takes (kvStore takes puts) key = kept puts key := by
  induction puts using List.reverseRecOn with
  | nil =>
      rw [getKv, if_pos hkey]
      rfl
  | append_singleton puts last ih =>
      obtain ⟨hputs, hlast⟩ := List.forall_mem_append.mp h
      have ih := ih hputs
      rw [kvStore] at ih
      rw [kvStore, List.foldl_append, kept_concat, List.foldl_cons, List.foldl_nil]
      by_cases htakes : takes last.key = true
      · rw [setKv, if_pos htakes]
        dsimp only
        rw [getKv_insert (hlast last List.mem_cons_self) hkey, ih]
        by_cases heq : key = last.key
        · rw [if_pos heq, heq, Function.update_self]
        · rw [if_neg heq, Function.update_of_ne heq]
      · have hne : key ≠ last.key := by
          rintro rfl
          exact htakes hkey
        rw [setKv, if_neg htakes]
        dsimp only
        rw [ih, Function.update_of_ne hne]

/-- A value that is put twice, and a key with a blank, which the bucket does not take. -/
def somePuts : List Put :=
  [⟨"a", .bool true, "t"⟩, ⟨"b c", .null, "t"⟩, ⟨"a", .str "x", "t"⟩]

end Kept

end Ucser
