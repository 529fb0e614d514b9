import Ucser.Core.Types

/-!
# Moving the database: `core/db_migration.py`

`run_migration` creates the tables in PostgreSQL and copies the rows of five of them.  What
fails on the way is logged and passed over.

* `schemas`, `migrationPlan` — the tables.
* `Psycopg2`, `Psycopg2.Documented` — the target, its statements, and what is known of them.
* `createSchema`, `migrateTable`, `runMigration` — the migration.
* `runMigration_eq_true_iff` — **success is reported** whatever becomes of the tables.
* `migrateTable_fails` — the insertion has one place for each column, where there must be one
  for each row: it raises before anything is sent.
* `honest_iff` — **when success means completeness**: when it is not reported, or the rows have
  been in the target before.
-/

namespace Ucser
namespace DbMigration

/-! ## The tables -/

/-- `sep.join(parts)`. -/
def join (sep : String) (parts : List String) : String :=
  String.ofList (sep.toList.intercalate (parts.map String.toList))

/-- The text of a table's schema. -/
def schema (table : String) (lines : List String) : String :=
  "\n            CREATE TABLE " ++ ("IF NOT EXISTS " ++ table ++ " (\n" ++
    join ",\n" (lines.map ("                " ++ ·)) ++ "\n            );\n        ")

/-- `SCHEMAS`. -/
def schemas : List (String × String) :=
  [("execution_audit", schema "execution_audit"
      ["id SERIAL PRIMARY KEY", "audit_id UUID NOT NULL UNIQUE", "timestamp TIMESTAMP NOT NULL",
        "command_hash VARCHAR(256) NOT NULL", "policy_tags TEXT[] DEFAULT '\x7b\x7d'",
        "severity VARCHAR(50) NOT NULL", "exit_code INTEGER", "stdout_hash VARCHAR(256)",
        "stderr_hash VARCHAR(256)", "duration_seconds FLOAT", "executor_user VARCHAR(255)",
        "executor_hostname VARCHAR(255)", "digital_signature VARCHAR(512)",
        "merkle_root VARCHAR(512)", "created_at TIMESTAMP DEFAULT CURRENT_TIMESTAMP",
        "INDEX idx_audit_id (audit_id)", "INDEX idx_timestamp (timestamp)",
        "INDEX idx_executor_user (executor_user)"]),
    ("users", schema "users"
      ["id SERIAL PRIMARY KEY", "user_id VARCHAR(255) NOT NULL UNIQUE",
        "username VARCHAR(255) NOT NULL", "email VARCHAR(255) NOT NULL",
        "roles TEXT[] DEFAULT '\x7b\x7d'", "is_active BOOLEAN DEFAULT TRUE",
        "created_at TIMESTAMP DEFAULT CURRENT_TIMESTAMP", "last_login TIMESTAMP",
        "mfa_enabled BOOLEAN DEFAULT FALSE", "INDEX idx_user_id (user_id)",
        "INDEX idx_username (username)"]),
    ("service_accounts", schema "service_accounts"
      ["id SERIAL PRIMARY KEY", "account_id VARCHAR(255) NOT NULL UNIQUE",
        "name VARCHAR(255) NOT NULL", "roles TEXT[] DEFAULT '\x7b\x7d'",
        "api_key_hash VARCHAR(512)", "is_active BOOLEAN DEFAULT TRUE",
        "created_at TIMESTAMP DEFAULT CURRENT_TIMESTAMP", "last_used TIMESTAMP",
        "allowed_origins TEXT[] DEFAULT '\x7b\x7d'", "rate_limit INTEGER DEFAULT 1000",
        "INDEX idx_account_id (account_id)"]),
    ("workflows", schema "workflows"
      ["id SERIAL PRIMARY KEY", "workflow_id UUID NOT NULL UNIQUE", "name VARCHAR(255) NOT NULL",
        "description TEXT", "dag_json JSONB", "policy_tags TEXT[] DEFAULT '\x7b\x7d'",
        "created_by VARCHAR(255)", "created_at TIMESTAMP DEFAULT CURRENT_TIMESTAMP",
        "updated_at TIMESTAMP", "is_active BOOLEAN DEFAULT TRUE",
        "INDEX idx_workflow_id (workflow_id)", "INDEX idx_name (name)",
        "INDEX idx_created_by (created_by)"]),
    ("policy_rules", schema "policy_rules"
      ["id SERIAL PRIMARY KEY", "policy_id UUID NOT NULL UNIQUE", "name VARCHAR(255) NOT NULL",
        "description TEXT", "rego_rule TEXT", "severity VARCHAR(50)",
        "enabled BOOLEAN DEFAULT TRUE", "created_at TIMESTAMP DEFAULT CURRENT_TIMESTAMP",
        "INDEX idx_policy_id (policy_id)", "INDEX idx_severity (severity)"])]

/-- `migration_plan`. -/
def migrationPlan : List (String × List String) :=
  [("execution_audit",
      ["audit_id", "timestamp", "command_hash", "policy_tags", "severity", "exit_code",
        "stdout_hash", "stderr_hash", "duration_seconds", "executor_user", "executor_hostname",
        "digital_signature", "merkle_root"]),
    ("users",
      ["user_id", "username", "email", "roles", "is_active", "created_at", "last_login",
        "mfa_enabled"]),
    ("service_accounts",
      ["account_id", "name", "roles", "api_key_hash", "is_active", "created_at", "last_used",
        "allowed_origins", "rate_limit"]),
    ("workflows",
      ["workflow_id", "name", "description", "dag_json", "policy_tags", "created_by",
        "created_at", "updated_at", "is_active"]),
    ("policy_rules",
      ["policy_id", "name", "description", "rego_rule", "severity", "enabled", "created_at"])]

/-- `schema.replace('INDEX', 'KEY')`. -/
def replaceIndex : List Char → List Char
  | 'I' :: 'N' :: 'D' :: 'E' :: 'X' :: rest => 'K' :: 'E' :: 'Y' :: replaceIndex rest
  | c :: rest => c :: replaceIndex rest
  | [] => []

/-- `schema_clean`. -/
def schemaClean (text : String) : String := String.ofList (replaceIndex text.toList)

/-- The query of `migrate_table`. -/
def selectQuery (table : String) (columns : List String) : String :=
  "SELECT " ++ join ", " columns ++ " FROM " ++ table

/-- `insert_query`. -/
def insertQuery (table : String) (columns : List String) : String :=
  "INSERT INTO " ++ table ++ " (" ++ join ", " columns ++ ") VALUES (" ++
    join ", " (columns.map fun _ => "%s") ++ ")"

/-! ## Both sides -/

variable {ν τ : Type}

/-- A row, as far as its columns are known by name. -/
abbrev Row (ν : Type) := String → ν

/-- The source: what it holds, and what its statements answer. -/
structure Source (ν : Type) where
  /-- The rows of a table; a table that does not exist has none. -/
  content : String → List (Row ν)
  /-- What connecting raises. -/
  connect : Option PyError := none
  fetchAll : String → Except PyError (List (List ν))
  /-- What closing raises. -/
  close : Option PyError := none

/-- The target: a connection of `psycopg2`, with the states `τ` it and its database can be
in. -/
structure Psycopg2 (ν τ : Type) where
  /-- The rows of a table that have been committed. -/
  stored : τ → String → List (Row ν)
  /-- The rows that have been inserted and not been committed. -/
  pending : τ → List (String × Row ν)
  connect : Option PyError := none
  /-- What asking for a cursor raises. -/
  cursor : τ → Option PyError
  /-- `cursor.execute(query)`. -/
  statement : String → τ → Except PyError Unit × τ
  /-- `execute_values(cursor, query, data, page_size=…)`. -/
  executeValues : String → List (List ν) → Nat → τ → Except PyError Unit × τ
  commit : τ → Except PyError Unit × τ
  close : Option PyError := none

/-- The number of `%s` in a query; `%%` is a percent sign. -/
def placeholders : List Char → Nat
  | '%' :: '%' :: rest => placeholders rest
  | '%' :: 's' :: rest => placeholders rest + 1
  | _ :: rest => placeholders rest
  | [] => 0

/-- What the documentation says: the statements of `create_schema`, each a single `CREATE TABLE`
without a query, leave the rows of all tables, a commit leaves them if nothing is pending, and
`execute_values` takes a query with a single `%s`, for the list of all rows: any other query it
rejects. -/
structure Psycopg2.Documented (db : Psycopg2 ν τ) : Prop where
  createTable : ∀ entry ∈ schemas, ∀ t, db.pending t = [] →
    db.stored (db.statement (schemaClean entry.2) t).2 = db.stored t ∧
      db.pending (db.statement (schemaClean entry.2) t).2 = []
  commit : ∀ t, db.pending t = [] →
    db.stored (db.commit t).2 = db.stored t ∧ db.pending (db.commit t).2 = []
  executeValues : ∀ query data pageSize t, placeholders query.toList ≠ 1 →
    ∃ e, db.executeValues query data pageSize t = (.error e, t)

/-! ## The migration -/

/-- `PostgresConnection.execute`. -/
def execute (db : Psycopg2 ν τ) (query : String) (t : τ) : Except PyError Unit × τ :=
  match db.cursor t with
  | some e => (.error e, t)
  | none =>
      match db.statement query t with
      | (.error e, t) => (.error e, t)
      | (.ok _, t) => db.commit t

/-- `create_schema`: every exception is passed over. -/
def createSchema (db : Psycopg2 ν τ) (t : τ) : τ :=
  schemas.foldl (fun t (_, text) => (execute db (schemaClean text) t).2) t

/-- `migrate_table`. -/
def migrateTable (source : Source ν) (db : Psycopg2 ν τ) (table : String)
    (columns : List String) (t : τ) : Except PyError Unit × τ :=
  match source.fetchAll (selectQuery table columns) with
  | .error e => (.error e, t)
  | .ok rows =>
      if rows.isEmpty then (.ok (), t)
      else
        match db.cursor t with
        | some e => (.error e, t)
        | none =>
            match db.executeValues (insertQuery table columns) rows 1000 t with
            | (.error e, t) => (.error e, t)
            | (.ok _, t) => db.commit t

/-- The loop over the plan: every exception is passed over. -/
def migrateTables (source : Source ν) (db : Psycopg2 ν τ) (t : τ) : τ :=
  migrationPlan.foldl (fun t (table, columns) => (migrateTable source db table columns t).2) t

/-- The `finally`: what the connections that are open raise when they are closed. -/
def closing (source : Source ν) (db : Psycopg2 ν τ) (sourceOpen targetOpen : Bool)
    (result : Bool) : Except PyError Bool :=
  match if sourceOpen then source.close else none with
  | some e => .error e
  | none =>
      match if targetOpen then db.close else none with
      | some e => .error e
      | none => .ok result

/-- `run_migration`: what it returns, and the target. -/
def runMigration (source : Source ν) (db : Psycopg2 ν τ) (t : τ) : Except PyError Bool × τ :=
  match source.connect with
  | some _ => (closing source db false false false, t)
  | none =>
      match db.connect with
      | some _ => (closing source db true false false, t)
      | none => (closing source db true true true, migrateTables source db (createSchema db t))

/-- Every row of the source is in the target, with the same values in the planned columns. -/
def Complete (source : Source ν) (stored : String → List (Row ν)) : Prop :=
  ∀ table columns, (table, columns) ∈ migrationPlan → ∀ row ∈ source.content table,
    ∃ row' ∈ stored table, ∀ column ∈ columns, row' column = row column

/-- Success means completeness. -/
def Honest (source : Source ν) (db : Psycopg2 ν τ) (t : τ) : Prop :=
  (runMigration source db t).1 = .ok true →
    Complete source (db.stored (runMigration source db t).2)

/-- Both connections are made, and closed. -/
def Connected (source : Source ν) (db : Psycopg2 ν τ) : Prop :=
  source.connect = none ∧ db.connect = none ∧ source.close = none ∧ db.close = none

/-! ## What is reported -/

/-- **Success is reported** when both connections are made and closed, whatever has become of
the tables. -/
theorem runMigration_eq_true_iff (source : Source ν) (db : Psycopg2 ν τ) (t : τ) :
    (runMigration source db t).1 = .ok true ↔ Connected source db := by
  unfold runMigration Connected closing
  cases source.connect with
  | some e => simp
  | none =>
      cases db.connect with
      | some e => cases source.close <;> simp
      | none =>
          cases source.close with
          | some e => simp
          | none => cases db.close <;> simp

/-! ## What is copied -/

/-- Nothing is pending, and the tables have these rows. -/
structure Unchanged (db : Psycopg2 ν τ) (stored : String → List (Row ν)) (t : τ) : Prop where
  stored_eq : db.stored t = stored
  pending_eq : db.pending t = []

/-- A text without a percent sign has no place for a value. -/
theorem placeholders_append {a : List Char} (h : '%' ∉ a) (b : List Char) :
    placeholders (a ++ b) = placeholders b := by
  induction a with
  | nil => rfl
  | cons c a ih =>
      obtain ⟨hc, ha⟩ := not_or.mp (mt List.mem_cons.mpr h)
      rw [← ih ha, List.cons_append, placeholders]
      · rintro rest rfl
        exact absurd rfl hc
      · rintro rest rfl
        exact absurd rfl hc

/-- What is joined from texts without a percent sign has none. -/
theorem percent_notMem_join {sep : String} {parts : List String} (hsep : '%' ∉ sep.toList)
    (hparts : ∀ part ∈ parts, '%' ∉ part.toList) : '%' ∉ (join sep parts).toList := by
  rw [join, String.toList_ofList]
  induction parts with
  | nil => exact List.not_mem_nil
  | cons part parts ih =>
      obtain ⟨hpart, hrest⟩ := List.forall_mem_cons.mp hparts
      rw [List.map_cons]
      by_cases hnil : parts.map String.toList = []
      · rwa [hnil, List.intercalate_singleton]
      · rw [List.intercalate_cons_of_ne_nil hnil, List.mem_append, List.mem_append]
        exact not_or.mpr ⟨not_or.mpr ⟨hpart, hsep⟩, ih hrest⟩

/-- A list of `%s` has a place for each of them. -/
theorem placeholders_join (columns : List String) (b : List Char) :
    placeholders ((join ", " (columns.map fun _ => "%s")).toList ++ b) =
      columns.length + placeholders b := by
  rw [join, String.toList_ofList, List.map_map]
  induction columns with
  | nil => rw [List.length_nil, Nat.zero_add, List.map_nil]; rfl
  | cons column columns ih =>
      have hhead : ∀ c, placeholders ("%s".toList ++ c) = placeholders c + 1 := fun _ => rfl
      rw [List.map_cons, Function.comp_apply, List.length_cons]
      by_cases hnil : columns.map (String.toList ∘ fun _ => "%s") = []
      · rw [hnil, List.intercalate_singleton, hhead, List.map_eq_nil_iff.mp hnil]
        rw [List.length_nil, Nat.zero_add, Nat.add_comm]
      · rw [List.intercalate_cons_of_ne_nil hnil, List.append_assoc, List.append_assoc, hhead,
          placeholders_append (by decide), ih]
        omega

/-- An insertion has a place for each column. -/
theorem placeholders_insertQuery {table : String} {columns : List String}
    (htable : '%' ∉ table.toList) (hcolumns : ∀ column ∈ columns, '%' ∉ column.toList) :
    placeholders (insertQuery table columns).toList = columns.length := by
  have hjoin : '%' ∉ (join ", " columns).toList :=
    percent_notMem_join (by decide) hcolumns
  delta insertQuery
  simp only [String.toList_append, List.append_assoc]
  rw [placeholders_append (by decide), placeholders_append htable, placeholders_append (by decide),
    placeholders_append hjoin, placeholders_append (by decide), placeholders_join]
  have hlast : placeholders ")".toList = 0 := by decide
  rw [hlast, Nat.add_zero]

/-- Every insertion has more places than one. -/
theorem placeholders_ne_one : ∀ entry ∈ migrationPlan,
    placeholders (insertQuery entry.1 entry.2).toList ≠ 1 := by
  have hplan : ∀ entry ∈ migrationPlan, '%' ∉ entry.1.toList ∧
      (∀ column ∈ entry.2, '%' ∉ column.toList) ∧ entry.2.length ≠ 1 := by decide
  intro entry hentry
  obtain ⟨htable, hcolumns, hlength⟩ := hplan entry hentry
  rwa [placeholders_insertQuery htable hcolumns]

variable {source : Source ν} {db : Psycopg2 ν τ} {stored : String → List (Row ν)} {t : τ}

theorem Unchanged.execute (hdb : db.Documented) {entry : String × String}
    (hentry : entry ∈ schemas) (h : Unchanged db stored t) :
    Unchanged db stored (execute db (schemaClean entry.2) t).2 := by
  obtain ⟨rfl, hpending⟩ := h
  obtain ⟨hstored, hpending'⟩ := hdb.createTable entry hentry t hpending
  generalize schemaClean entry.2 = query at hstored hpending' ⊢
  unfold DbMigration.execute
  cases db.cursor t with
  | some e => exact ⟨rfl, hpending⟩
  | none =>
      rcases hstatement : db.statement query t with ⟨e | _, t'⟩
      · rw [hstatement] at hstored hpending'
        exact ⟨hstored, hpending'⟩
      · rw [hstatement] at hstored hpending'
        obtain ⟨hcommit, hcommit'⟩ := hdb.commit t' hpending'
        exact ⟨hcommit.trans hstored, hcommit'⟩

/-- **A table is not copied**: it has no rows, or something raises. -/
theorem migrateTable_fails (source : Source ν) (hdb : db.Documented) {table : String}
    {columns : List String} (hplan : (table, columns) ∈ migrationPlan) (t : τ) :
    source.fetchAll (selectQuery table columns) = .ok [] ∨
      ∃ e, migrateTable source db table columns t = (.error e, t) := by
  unfold migrateTable
  cases source.fetchAll (selectQuery table columns) with
  | error e => exact Or.inr ⟨e, rfl⟩
  | ok rows =>
      cases rows with
      | nil => exact Or.inl rfl
      | cons row rows =>
          right
          cases db.cursor t with
          | some e => exact ⟨e, rfl⟩
          | none =>
              have hplaces := placeholders_ne_one _ hplan
              dsimp only at hplaces
              generalize insertQuery table columns = query at hplaces
              obtain ⟨e, he⟩ := hdb.executeValues query (row :: rows) 1000 t hplaces
              refine ⟨e, ?_⟩
              dsimp only
              rw [if_neg (by simp), he]

/-- Whatever becomes of a table, the target is as it was. -/
theorem migrateTable_snd (hdb : db.Documented) {table : String} {columns : List String}
    (hplan : (table, columns) ∈ migrationPlan) (t : τ) :
    (migrateTable source db table columns t).2 = t := by
  obtain hempty | ⟨e, he⟩ := migrateTable_fails source hdb hplan t
  · rw [migrateTable, hempty]
    rfl
  · rw [he]

/-- The schemas are created without touching a row.  By induction on their list. -/
theorem Unchanged.createSchema (hdb : db.Documented) (h : Unchanged db stored t) :
    Unchanged db stored (createSchema db t) := by
  have hall : ∀ entries : List (String × String), entries ⊆ schemas →
      ∀ t, Unchanged db stored t → Unchanged db stored (entries.foldl
        (fun t (_, text) => (DbMigration.execute db (schemaClean text) t).2) t) := by
    intro entries
    induction entries with
    | nil => exact fun _ t h => h
    | cons entry entries ih =>
        intro hsub t h
        obtain ⟨hentry, hentries⟩ := List.cons_subset.mp hsub
        exact ih hentries _ (h.execute hdb hentry)
  exact hall schemas (List.Subset.refl _) t h

/-- No table is copied.  By induction on the plan. -/
theorem migrateTables_eq (hdb : db.Documented) (t : τ) : migrateTables source db t = t := by
  have hall : ∀ entries, entries ⊆ migrationPlan →
      entries.foldl (fun t (table, columns) => (migrateTable source db table columns t).2) t =
        t := by
    intro entries hsub
    induction entries with
    | nil => rfl
    | cons entry entries ih =>
        obtain ⟨hentry, hentries⟩ := List.cons_subset.mp hsub
        rw [List.foldl_cons]
        dsimp only
        rw [migrateTable_snd hdb hentry]
        exact ih hentries
  exact hall migrationPlan (List.Subset.refl _)

/-- **The target is left as it was.** -/
theorem stored_runMigration (hdb : db.Documented) (hpending : db.pending t = []) :
    db.stored (runMigration source db t).2 = db.stored t := by
  have hschema := (Unchanged.createSchema hdb ⟨rfl, hpending⟩).stored_eq
  unfold runMigration
  cases source.connect with
  | some e => rfl
  | none =>
      cases db.connect with
      | some e => rfl
      | none =>
          dsimp only
          rw [migrateTables_eq hdb, hschema]

/-- **When success means completeness**: when a connection cannot be made or closed, so that
success is not reported, or the rows of the source have been in the target before. -/
theorem honest_iff (source : Source ν) (db : Psycopg2 ν τ) (hdb : db.Documented) (t : τ)
    (hpending : db.pending t = []) :
    Honest source db t ↔ ¬ Connected source db ∨ Complete source (db.stored t) := by
  rw [Honest, runMigration_eq_true_iff, stored_runMigration hdb hpending, imp_iff_not_or]

/-! ### One user -/

/-- A server: the rows, and whether a statement of the transaction has failed. -/
structure Server where
  rows : String → List (Row String)
  aborted : Bool := false

/-- The server takes no schema with a `KEY` in it, and every commit. -/
def server : Psycopg2 String Server where
  stored t := t.rows
  pending _ := []
  cursor _ := none
  statement _ t := (.error (.exception "type does not exist"), { t with aborted := true })
  executeValues query _ _ t :=
    if placeholders query.toList = 1 then (.ok (), t)
    else (.error (.valueError "the query contains more than one '%s' placeholder"), t)
  commit t := (.ok (), { t with aborted := false })

theorem server_documented : server.Documented where
  createTable _ _ _ _ := ⟨rfl, rfl⟩
  commit _ _ := ⟨rfl, rfl⟩
  executeValues _ _ _ _ h := ⟨_, if_neg h⟩

/-- The columns of a user. -/
def userColumns : List String :=
  ["user_id", "username", "email", "roles", "is_active", "created_at", "last_login",
    "mfa_enabled"]

/-- A database with one user, in whose columns stand their names. -/
def oneUser : Source String where
  content table := if table = "users" then [id] else []
  fetchAll query := .ok (if query = selectQuery "users" userColumns then [userColumns] else [])

/-- The user has been in the target before. -/
theorem honest_present : Honest oneUser server ⟨oneUser.content, false⟩ :=
  (honest_iff oneUser server server_documented ⟨oneUser.content, false⟩ rfl).mpr
    (Or.inr fun _ _ _ row hrow => ⟨row, hrow, fun _ _ => rfl⟩)

/-- Otherwise success is reported, and there is no user in the target. -/
theorem user_lost : ¬ ∀ (source : Source String) (db : Psycopg2 String Server), db.Documented →
    ∀ t, db.pending t = [] → Honest source db t := by
  intro h
  have hsuccess : (runMigration oneUser server ⟨fun _ => [], false⟩).1 = .ok true :=
    (runMigration_eq_true_iff _ _ _).mpr ⟨rfl, rfl, rfl, rfl⟩
  have hcomplete := h oneUser server server_documented ⟨fun _ => [], false⟩ rfl hsuccess
  rw [stored_runMigration server_documented rfl] at hcomplete
  obtain ⟨row, hrow, -⟩ := hcomplete "users" userColumns
    (List.mem_cons_of_mem _ List.mem_cons_self) id List.mem_cons_self
  exact List.not_mem_nil hrow

end DbMigration
end Ucser
