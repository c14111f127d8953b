import Mathlib.Data.List.Sort
import IronDrive.LibProgram
import IronDrive.Errors

/-! The migrations of the database. Each file's statements run once, and the `_migrations` table records that they
did; the statements and the record are two steps, and a run may stop between them. -/

namespace IronDrive

open Lib

structure MigrationFile where
  filename : String
  sql : String
  deriving DecidableEq

/-- The `migrations/` directory: whether it is there, the names of its entries, as far as they have one, and the
texts of its files. -/
structure MigrationsDir where
  found : Bool
  entries : Except IoError (List (Option String))
  content : String → Except IoError String

inductive MigrationError
  | sql (error : SqlError)
  | io (error : IoError)
  deriving DecidableEq

/-- The statements of `run_migrations`. -/
inductive MigrationCall
  | createTable
  | select (filename : String)
  | rawSql (migration : MigrationFile)
  | insert (filename : String)

namespace MigrationCall

@[reducible] def Answer : MigrationCall → Type
  | select _ => Except SqlError (Option String)
  | createTable | rawSql _ | insert _ => Except SqlError Unit

end MigrationCall

abbrev migrationSignature : Signature := ⟨MigrationCall, MigrationCall.Answer⟩

/-- The `_migrations` table, if it exists, and the other tables. `applied` is kept beside the database: the files
whose statements have been executed. -/
structure MigrationDb (σ : Type) where
  schema : σ
  migrations : Option (List String)
  applied : List String

variable {σ : Type}

/-- The recorded files. -/
def MigrationDb.recorded (db : MigrationDb σ) : List String := db.migrations.getD []

/-- Carry out one statement. What a file's statements do to the other tables is `exec`; they do all of it or
fail. -/
def migrationHandler (exec : String → σ → Except SqlError σ) : Handler migrationSignature (MigrationDb σ)
  | .createTable, db => (.ok (), { db with migrations := some db.recorded })
  | .select filename, db =>
      (match db.migrations with
        | some names => .ok (names.find? fun name => name = filename)
        | none => .error ⟨"no such table: _migrations"⟩, db)
  | .rawSql migration, db =>
      match exec migration.sql db.schema with
      | .ok schema => (.ok (), { db with schema := schema, applied := db.applied ++ [migration.filename] })
      | .error error => (.error error, db)
  | .insert filename, db =>
      match db.migrations with
      | some names =>
          if filename ∈ names then (.error ⟨"UNIQUE constraint failed: _migrations.filename"⟩, db)
          else (.ok (), { db with migrations := some (names ++ [filename]) })
      | none => (.error ⟨"no such table: _migrations"⟩, db)

abbrev MigrationProgram (α : Type) : Type := Program migrationSignature MigrationError α

namespace Migrations

def isSql (filename : String) : Bool := ".sql".toList.isSuffixOf filename.toList

def readMigrationFile (dir : MigrationsDir) (filename : String) : Except IoError MigrationFile := do
  let sql ← dir.content filename
  return { filename := filename, sql := sql }

/-- Read all `.sql` files, in the order of their names. -/
def readMigrationFiles (dir : MigrationsDir) : Except IoError (List MigrationFile) := do
  if !dir.found then
    throw ⟨.notFound, "migrations/ directory not found — cannot start without schema migrations"⟩
  let filenames := (← dir.entries).filterMap fun name => name.filter isSql
  (filenames.insertionSort (· ≤ ·)).mapM (readMigrationFile dir)

/-- The `?` after a statement. -/
def orError {α : Type} (result : Except SqlError α) : MigrationProgram α :=
  Program.ofExcept (result.mapError .sql)

/-- The body of the loop. -/
def applyMigration (migration : MigrationFile) : MigrationProgram Unit := do
  let alreadyApplied : Option String ←
    orError (← Program.ask (S := migrationSignature) (.select migration.filename))
  if alreadyApplied.isSome then return ()
  else
    orError (← Program.ask (S := migrationSignature) (.rawSql migration))
    orError (← Program.ask (S := migrationSignature) (.insert migration.filename))

def applyMigrations : List MigrationFile → MigrationProgram Unit
  | [] => return ()
  | migration :: migrations => do
      applyMigration migration
      applyMigrations migrations

def runMigrations (dir : MigrationsDir) : MigrationProgram Unit := do
  orError (← Program.ask (S := migrationSignature) .createTable)
  let migrations ← Program.ofExcept ((readMigrationFiles dir).mapError .io)
  applyMigrations migrations

variable {exec : String → σ → Except SqlError σ} {db : MigrationDb σ} {names : List String}
  {migration : MigrationFile} {migrations : List MigrationFile}

theorem select_recorded (h : db.migrations = some names) (hmem : migration.filename ∈ names) :
    migrationHandler exec (.select migration.filename) db = (.ok (some migration.filename), db) := by
  have hfind : names.find? (fun name => name = migration.filename) = some migration.filename := by
    cases hfound : names.find? fun name => name = migration.filename with
    | none => exact absurd (decide_eq_true rfl) (List.find?_eq_none.mp hfound _ hmem)
    | some name =>
        have hname := List.find?_some hfound
        rw [of_decide_eq_true hname]
  simp only [migrationHandler, h, hfind]

theorem select_unrecorded (h : db.migrations = some names) (hmem : migration.filename ∉ names) :
    migrationHandler exec (.select migration.filename) db = (.ok none, db) := by
  have hfind : names.find? (fun name => name = migration.filename) = none := by
    rw [List.find?_eq_none]
    intro name hname heq
    exact hmem (of_decide_eq_true heq ▸ hname)
  simp only [migrationHandler, h, hfind]

/-- The database after a file's statements were executed. -/
def executed (db : MigrationDb σ) (schema : σ) (filename : String) : MigrationDb σ :=
  { db with schema := schema, applied := db.applied ++ [filename] }

/-- The database after the file was recorded. -/
def recordedAs (db : MigrationDb σ) (names : List String) (filename : String) : MigrationDb σ :=
  { db with migrations := some (names ++ [filename]) }

theorem rawSql_ok {schema : σ} (h : exec migration.sql db.schema = .ok schema) :
    migrationHandler exec (.rawSql migration) db = (.ok (), executed db schema migration.filename) := by
  simp only [migrationHandler, h]
  rfl

theorem rawSql_error {error : SqlError} (h : exec migration.sql db.schema = .error error) :
    migrationHandler exec (.rawSql migration) db = (.error error, db) := by
  simp only [migrationHandler, h]

theorem insert_unrecorded (h : db.migrations = some names) (hmem : migration.filename ∉ names) :
    migrationHandler exec (.insert migration.filename) db = (.ok (), recordedAs db names migration.filename) := by
  simp only [migrationHandler, h, if_neg hmem]
  rfl

/-- How the loop goes on from a file: it is recorded already; its statements fail; or they are executed, and the
file is recorded. -/
inductive Turn (exec : String → σ → Except SqlError σ) (db : MigrationDb σ) (names : List String)
    (migration : MigrationFile) : Prop
  | recorded (hmem : migration.filename ∈ names)
  | failed (hmem : migration.filename ∉ names) (error : SqlError)
      (hexec : exec migration.sql db.schema = .error error)
  | applied (hmem : migration.filename ∉ names) (schema : σ)
      (hexec : exec migration.sql db.schema = .ok schema)

theorem turn (exec : String → σ → Except SqlError σ) (db : MigrationDb σ) (names : List String)
    (migration : MigrationFile) : Turn exec db names migration := by
  by_cases hmem : migration.filename ∈ names
  · exact .recorded hmem
  cases hexec : exec migration.sql db.schema with
  | error error => exact .failed hmem error hexec
  | ok schema => exact .applied hmem schema hexec

theorem applyMigrations_cons : applyMigrations (migration :: migrations) =
    .call (.select migration.filename) fun answer : Except SqlError (Option String) =>
      match answer with
      | .error error => .fail (.sql error)
      | .ok (some _) => applyMigrations migrations
      | .ok none => .call (.rawSql migration) fun answer : Except SqlError Unit =>
          match answer with
          | .error error => .fail (.sql error)
          | .ok () => .call (.insert migration.filename) fun answer : Except SqlError Unit =>
              match answer with
              | .error error => .fail (.sql error)
              | .ok () => applyMigrations migrations := by
  rw [applyMigrations]
  refine congrArg (Program.call _) (funext fun answer => ?_)
  rcases answer with _ | _ | _
  · rfl
  · refine congrArg (Program.call _) (funext fun answer => ?_)
    rcases answer with _ | _
    · rfl
    · refine congrArg (Program.call _) (funext fun answer => ?_)
      rcases answer with _ | _ <;> rfl
  · rfl

/-- The database after the file was applied and recorded. -/
def appliedAs (db : MigrationDb σ) (schema : σ) (names : List String) (filename : String) : MigrationDb σ :=
  recordedAs (executed db schema filename) names filename

theorem run_recorded (h : db.migrations = some names) (hmem : migration.filename ∈ names) :
    (applyMigrations (migration :: migrations)).run (migrationHandler exec) db =
      (applyMigrations migrations).run (migrationHandler exec) db := by
  rw [applyMigrations_cons, Program.run_call, select_recorded h hmem]

theorem run_failed {error : SqlError} (h : db.migrations = some names) (hmem : migration.filename ∉ names)
    (hexec : exec migration.sql db.schema = .error error) :
    (applyMigrations (migration :: migrations)).run (migrationHandler exec) db = (.error (.sql error), db) := by
  rw [applyMigrations_cons, Program.run_call, select_unrecorded h hmem]
  simp only [Program.run_call, rawSql_error hexec, Program.run_fail]

theorem run_applied {schema : σ} (h : db.migrations = some names) (hmem : migration.filename ∉ names)
    (hexec : exec migration.sql db.schema = .ok schema) :
    (applyMigrations (migration :: migrations)).run (migrationHandler exec) db =
      (applyMigrations migrations).run (migrationHandler exec) (appliedAs db schema names migration.filename) := by
  have hinsert : migrationHandler exec (.insert migration.filename) (executed db schema migration.filename) =
      (.ok (), appliedAs db schema names migration.filename) := insert_unrecorded h hmem
  rw [applyMigrations_cons, Program.run_call, select_unrecorded h hmem]
  simp only [Program.run_call, rawSql_ok hexec, hinsert]

/-- The statements of a file, executed. -/
def executesFile : Event migrationSignature → Bool
  | ⟨.rawSql _, .ok _⟩ => true
  | _ => false

/-- The last of the statements issued before the stop executed a file: the file is not recorded. -/
def stopsUnrecorded (exec : String → σ → Except SqlError σ) (program : MigrationProgram Unit)
    (db : MigrationDb σ) : Nat → Bool
  | 0 => false
  | n + 1 => (program.trace (migrationHandler exec) db)[n]?.any executesFile

/-- A database in which the recorded files, and no others, were applied, each of them once. -/
def Settled (db : MigrationDb σ) : Prop :=
  ∀ filename, db.applied.count filename = if filename ∈ db.recorded then 1 else 0

/-- The file was applied twice, or once and not recorded. -/
def Doubled (db : MigrationDb σ) (filename : String) : Prop :=
  2 ≤ db.applied.count filename ∨ 1 ≤ db.applied.count filename ∧ filename ∉ db.recorded

theorem settled_appliedAs {schema : σ} (h : db.migrations = some names) (hdb : Settled db)
    (hmem : migration.filename ∉ names) : Settled (appliedAs db schema names migration.filename) := by
  intro filename
  have hcount := hdb filename
  simp only [MigrationDb.recorded, h, Option.getD_some] at hcount
  simp only [appliedAs, recordedAs, executed, MigrationDb.recorded, Option.getD_some, List.count_append,
    List.mem_append, List.mem_singleton, hcount, List.count_singleton']
  by_cases heq : filename = migration.filename
  · rw [heq, if_neg hmem, if_pos rfl, if_pos (Or.inr rfl)]
  · by_cases hold : filename ∈ names
    · rw [if_pos hold, if_neg (Ne.symm heq), if_pos (Or.inl hold)]
    · rw [if_neg hold, if_neg (Ne.symm heq), if_neg (not_or.mpr ⟨hold, heq⟩)]

theorem run_settled (h : db.migrations = some names) (hdb : Settled db) :
    Settled ((applyMigrations migrations).run (migrationHandler exec) db).2 := by
  induction migrations generalizing db names with
  | nil => exact hdb
  | cons migration migrations ih =>
      cases turn exec db names migration with
      | recorded hmem =>
          rw [run_recorded h hmem]
          exact ih h hdb
      | failed hmem error hexec =>
          rw [run_failed h hmem hexec]
          exact hdb
      | applied hmem schema hexec =>
          rw [run_applied h hmem hexec]
          exact ih rfl (settled_appliedAs h hdb hmem)

/-- A run that reaches its end has recorded every file. -/
theorem run_records (h : db.migrations = some names)
    (hok : ((applyMigrations migrations).run (migrationHandler exec) db).1 = .ok ()) {filename : String}
    (hfile : filename ∈ names ∨ filename ∈ migrations.map MigrationFile.filename) :
    filename ∈ ((applyMigrations migrations).run (migrationHandler exec) db).2.recorded := by
  induction migrations generalizing db names with
  | nil =>
      show filename ∈ db.recorded
      rw [MigrationDb.recorded, h, Option.getD_some]
      simpa using hfile
  | cons migration migrations ih =>
      rw [List.map_cons, List.mem_cons] at hfile
      cases turn exec db names migration with
      | recorded hmem =>
          rw [run_recorded h hmem] at hok ⊢
          refine ih h hok ?_
          rcases hfile with hold | rfl | hlater
          · exact Or.inl hold
          · exact Or.inl hmem
          · exact Or.inr hlater
      | failed hmem error hexec =>
          rw [run_failed h hmem hexec] at hok
          cases hok
      | applied hmem schema hexec =>
          rw [run_applied h hmem hexec] at hok ⊢
          refine ih rfl hok ?_
          rcases hfile with hold | rfl | hlater
          · exact Or.inl (List.mem_append_left _ hold)
          · exact Or.inl (List.mem_append_right _ (List.mem_singleton_self _))
          · exact Or.inr hlater

theorem runFor_recorded (n : Nat) (h : db.migrations = some names) (hmem : migration.filename ∈ names) :
    (applyMigrations (migration :: migrations)).runFor (migrationHandler exec) (n + 1) db =
      (applyMigrations migrations).runFor (migrationHandler exec) n db := by
  rw [applyMigrations_cons, Program.runFor, select_recorded h hmem]

theorem runFor_failed {error : SqlError} (n : Nat) (h : db.migrations = some names)
    (hmem : migration.filename ∉ names) (hexec : exec migration.sql db.schema = .error error) :
    (applyMigrations (migration :: migrations)).runFor (migrationHandler exec) n db = db := by
  rcases n with _ | _ | n
  · rfl
  all_goals
    rw [applyMigrations_cons, Program.runFor, select_unrecorded h hmem]
  · rfl
  · simp only [Program.runFor, rawSql_error hexec]

theorem runFor_applied {schema : σ} (migrations : List MigrationFile) (h : db.migrations = some names)
    (hmem : migration.filename ∉ names) (hexec : exec migration.sql db.schema = .ok schema) :
    (applyMigrations (migration :: migrations)).runFor (migrationHandler exec) 1 db = db ∧
      (applyMigrations (migration :: migrations)).runFor (migrationHandler exec) 2 db =
        executed db schema migration.filename ∧
      ∀ n, (applyMigrations (migration :: migrations)).runFor (migrationHandler exec) (n + 3) db =
        (applyMigrations migrations).runFor (migrationHandler exec) n
          (appliedAs db schema names migration.filename) := by
  have hinsert : migrationHandler exec (.insert migration.filename) (executed db schema migration.filename) =
      (.ok (), appliedAs db schema names migration.filename) := insert_unrecorded h hmem
  rw [applyMigrations_cons]
  refine ⟨?_, ?_, fun n => ?_⟩
  · rw [Program.runFor, select_unrecorded h hmem]
    rfl
  · rw [Program.runFor, select_unrecorded h hmem]
    simp only [Program.runFor, rawSql_ok hexec]
  · rw [Program.runFor, select_unrecorded h hmem]
    simp only [Program.runFor, rawSql_ok hexec, hinsert]

theorem trace_recorded (h : db.migrations = some names) (hmem : migration.filename ∈ names) :
    (applyMigrations (migration :: migrations)).trace (migrationHandler exec) db =
      ⟨.select migration.filename, .ok (some migration.filename)⟩ ::
        (applyMigrations migrations).trace (migrationHandler exec) db := by
  rw [applyMigrations_cons, Program.trace, select_recorded h hmem]

theorem trace_applied {schema : σ} (h : db.migrations = some names) (hmem : migration.filename ∉ names)
    (hexec : exec migration.sql db.schema = .ok schema) :
    (applyMigrations (migration :: migrations)).trace (migrationHandler exec) db =
      ⟨.select migration.filename, .ok none⟩ :: ⟨.rawSql migration, .ok ()⟩ ::
        ⟨.insert migration.filename, .ok ()⟩ :: (applyMigrations migrations).trace (migrationHandler exec)
          (appliedAs db schema names migration.filename) := by
  have hinsert : migrationHandler exec (.insert migration.filename) (executed db schema migration.filename) =
      (.ok (), appliedAs db schema names migration.filename) := insert_unrecorded h hmem
  rw [applyMigrations_cons, Program.trace, select_unrecorded h hmem]
  simp only [Program.trace, rawSql_ok hexec, hinsert]

theorem trace_failed {error : SqlError} (h : db.migrations = some names) (hmem : migration.filename ∉ names)
    (hexec : exec migration.sql db.schema = .error error) :
    (applyMigrations (migration :: migrations)).trace (migrationHandler exec) db =
      [⟨.select migration.filename, .ok none⟩, ⟨.rawSql migration, .error error⟩] := by
  rw [applyMigrations_cons, Program.trace, select_unrecorded h hmem]
  simp only [Program.trace, rawSql_error hexec]

/-- After a stop that leaves every executed file recorded, the loop goes on as if it had not been stopped. -/
theorem applyMigrations_resumes (n : Nat) (h : db.migrations = some names) (hdb : Settled db)
    (hstop : ¬stopsUnrecorded exec (applyMigrations migrations) db n) :
    ∃ later, ((applyMigrations migrations).runFor (migrationHandler exec) n db).migrations = some later ∧
      (∀ name ∈ names, name ∈ later) ∧ Settled ((applyMigrations migrations).runFor (migrationHandler exec) n db) ∧
      (applyMigrations migrations).run (migrationHandler exec)
          ((applyMigrations migrations).runFor (migrationHandler exec) n db) =
        (applyMigrations migrations).run (migrationHandler exec) db := by
  induction migrations generalizing db names n with
  | nil =>
      have hsame : (applyMigrations []).runFor (migrationHandler exec) n db = db := by cases n <;> rfl
      rw [hsame]
      exact ⟨names, h, fun _ hname => hname, hdb, rfl⟩
  | cons migration migrations ih =>
      rcases n with _ | n
      · exact ⟨names, h, fun _ hname => hname, hdb, rfl⟩
      cases turn exec db names migration with
      | recorded hmem =>
          have hstop' : ¬stopsUnrecorded exec (applyMigrations migrations) db n := by
            rw [stopsUnrecorded, trace_recorded h hmem] at hstop
            cases n with
            | zero => exact Bool.false_ne_true
            | succ n => exact hstop
          obtain ⟨later, hlater, hnames, hsettled, hrun⟩ := ih n h hdb hstop'
          rw [runFor_recorded n h hmem, run_recorded h hmem, run_recorded hlater (hnames _ hmem)]
          exact ⟨later, hlater, hnames, hsettled, hrun⟩
      | failed hmem error hexec =>
          rw [runFor_failed _ h hmem hexec]
          exact ⟨names, h, fun _ hname => hname, hdb, rfl⟩
      | applied hmem schema hexec =>
          obtain ⟨hselected, -, happlied⟩ := runFor_applied migrations h hmem hexec
          rcases n with _ | _ | n
          · rw [hselected]
            exact ⟨names, h, fun _ hname => hname, hdb, rfl⟩
          · refine absurd ?_ hstop
            rw [stopsUnrecorded, trace_applied h hmem hexec]
            rfl
          · have hstop' : ¬stopsUnrecorded exec (applyMigrations migrations)
                (appliedAs db schema names migration.filename) n := by
              rw [stopsUnrecorded, trace_applied h hmem hexec] at hstop
              cases n with
              | zero => exact Bool.false_ne_true
              | succ n => exact hstop
            obtain ⟨later, hlater, hnames, hsettled, hrun⟩ := ih n rfl (settled_appliedAs h hdb hmem) hstop'
            have hfile := hnames _ (List.mem_append_right names (List.mem_singleton_self migration.filename))
            rw [happlied, run_applied h hmem hexec, run_recorded hlater hfile]
            exact ⟨later, hlater, fun name hname => hnames name (List.mem_append_left _ hname), hsettled, hrun⟩

/-- A stop between a file's statements and its record leaves the file applied and not recorded. -/
theorem doubled_of_stop (n : Nat) (h : db.migrations = some names)
    (hstop : stopsUnrecorded exec (applyMigrations migrations) db n) :
    ∃ migration ∈ migrations,
      Doubled ((applyMigrations migrations).runFor (migrationHandler exec) n db) migration.filename := by
  induction migrations generalizing db names n with
  | nil =>
      rcases n with _ | n <;> cases hstop
  | cons migration migrations ih =>
      rcases n with _ | n
      · cases hstop
      cases turn exec db names migration with
      | recorded hmem =>
          rw [stopsUnrecorded, trace_recorded h hmem] at hstop
          cases n with
          | zero => cases hstop
          | succ n =>
              rw [runFor_recorded _ h hmem]
              obtain ⟨found, hfound, hdoubled⟩ := ih (n + 1) h hstop
              exact ⟨found, List.mem_cons_of_mem _ hfound, hdoubled⟩
      | failed hmem error hexec =>
          rw [stopsUnrecorded, trace_failed h hmem hexec] at hstop
          rcases n with _ | _ | n <;> cases hstop
      | applied hmem schema hexec =>
          obtain ⟨-, hexecuted, happlied⟩ := runFor_applied migrations h hmem hexec
          rw [stopsUnrecorded, trace_applied h hmem hexec] at hstop
          rcases n with _ | _ | n
          · cases hstop
          · refine ⟨migration, List.mem_cons_self .., ?_⟩
            rw [hexecuted]
            refine Or.inr ⟨?_, ?_⟩
            · simp only [executed, List.count_append, List.count_singleton_self]
              omega
            · simpa only [executed, MigrationDb.recorded, h, Option.getD_some] using hmem
          · rw [happlied]
            cases n with
            | zero => cases hstop
            | succ n =>
                obtain ⟨found, hfound, hdoubled⟩ := ih (n + 1) rfl hstop
                exact ⟨found, List.mem_cons_of_mem _ hfound, hdoubled⟩

/-- What went wrong with a file stays wrong. -/
theorem doubled_runFor (n : Nat) {filename : String} (h : db.migrations = some names)
    (hdoubled : Doubled db filename) :
    Doubled ((applyMigrations migrations).runFor (migrationHandler exec) n db) filename := by
  induction migrations generalizing db names n with
  | nil => cases n <;> exact hdoubled
  | cons migration migrations ih =>
      rcases n with _ | n
      · exact hdoubled
      cases turn exec db names migration with
      | recorded hmem =>
          rw [runFor_recorded n h hmem]
          exact ih n h hdoubled
      | failed hmem error hexec =>
          rw [runFor_failed _ h hmem hexec]
          exact hdoubled
      | applied hmem schema hexec =>
          obtain ⟨hselected, hexecuted, happlied⟩ := runFor_applied migrations h hmem hexec
          have hmore : ∀ name, db.applied.count name ≤ (db.applied ++ [migration.filename]).count name := by
            intro name
            rw [List.count_append]
            omega
          rcases n with _ | _ | n
          · rw [hselected]
            exact hdoubled
          · rw [hexecuted]
            exact hdoubled.imp (fun htwice => htwice.trans (hmore _)) fun hone => ⟨hone.1.trans (hmore _), hone.2⟩
          · rw [happlied]
            refine ih n rfl ?_
            rcases hdoubled with htwice | ⟨hone, hnot⟩
            · exact Or.inl (htwice.trans (hmore _))
            · by_cases heq : filename = migration.filename
              · apply Or.inl
                rw [heq] at hone ⊢
                simp only [appliedAs, recordedAs, executed, List.count_append, List.count_singleton_self]
                omega
              · refine Or.inr ⟨hone.trans (hmore _), ?_⟩
                rw [MigrationDb.recorded, h, Option.getD_some] at hnot
                simp only [appliedAs, recordedAs, MigrationDb.recorded, Option.getD_some, List.mem_append,
                  List.mem_singleton]
                exact not_or.mpr ⟨hnot, heq⟩

/-! ### Whole runs -/

/-- The database once the table is there. -/
def tabled (db : MigrationDb σ) : MigrationDb σ := { db with migrations := some db.recorded }

variable {dir : MigrationsDir}

theorem run_runMigrations (hread : readMigrationFiles dir = .ok migrations) :
    (runMigrations dir).run (migrationHandler exec) db =
      (applyMigrations migrations).run (migrationHandler exec) (tabled db) := by
  rw [runMigrations, hread]
  rfl

theorem runFor_runMigrations (n : Nat) (hread : readMigrationFiles dir = .ok migrations) :
    (runMigrations dir).runFor (migrationHandler exec) (n + 1) db =
      (applyMigrations migrations).runFor (migrationHandler exec) n (tabled db) := by
  rw [runMigrations, hread]
  rfl

theorem stopsUnrecorded_runMigrations (n : Nat) (hread : readMigrationFiles dir = .ok migrations) :
    stopsUnrecorded exec (runMigrations dir) db (n + 1) =
      stopsUnrecorded exec (applyMigrations migrations) (tabled db) n := by
  rw [runMigrations, hread]
  cases n <;> rfl

theorem runMigrations_resumes (n : Nat) (hread : readMigrationFiles dir = .ok migrations) (hdb : Settled db)
    (hstop : ¬stopsUnrecorded exec (runMigrations dir) db n) :
    Settled ((runMigrations dir).runFor (migrationHandler exec) n db) ∧
      (runMigrations dir).run (migrationHandler exec) ((runMigrations dir).runFor (migrationHandler exec) n db) =
        (runMigrations dir).run (migrationHandler exec) db := by
  rcases n with _ | n
  · exact ⟨hdb, rfl⟩
  rw [stopsUnrecorded_runMigrations n hread] at hstop
  have htabled : Settled (tabled db) := hdb
  obtain ⟨later, hlater, -, hsettled, hrun⟩ := applyMigrations_resumes n rfl htabled hstop
  rw [runFor_runMigrations n hread, run_runMigrations hread, run_runMigrations hread, ← hrun]
  refine ⟨hsettled, ?_⟩
  generalize (applyMigrations migrations).runFor (migrationHandler exec) n (tabled db) = stopped at hlater
  rw [tabled, MigrationDb.recorded, hlater, Option.getD_some, ← hlater]

theorem runMigrations_doubled (n : Nat) (hread : readMigrationFiles dir = .ok migrations) {filename : String}
    (hdoubled : Doubled db filename) :
    Doubled ((runMigrations dir).runFor (migrationHandler exec) n db) filename := by
  rcases n with _ | n
  · exact hdoubled
  · rw [runFor_runMigrations n hread]
    exact doubled_runFor n rfl hdoubled

/-- The run returned `Ok`, and each file was applied once. -/
def AppliedOnce (dir : MigrationsDir) (outcome : Except MigrationError Unit × MigrationDb σ) : Prop :=
  outcome.1 = .ok () ∧ ∀ migrations, readMigrationFiles dir = .ok migrations →
    ∀ migration ∈ migrations, outcome.2.applied.count migration.filename = 1

theorem not_appliedOnce_of_doubled (hread : readMigrationFiles dir = .ok migrations) (hmem : migration ∈ migrations)
    (hdoubled : Doubled db migration.filename) :
    ¬AppliedOnce dir ((runMigrations dir).run (migrationHandler exec) db) := by
  intro ⟨hok, honce⟩
  have hone := honce migrations hread migration hmem
  obtain ⟨n, hn⟩ := Program.exists_runFor (migrationHandler exec) (runMigrations dir) db
  have hlater : Doubled ((runMigrations dir).runFor (migrationHandler exec) n db) migration.filename :=
    runMigrations_doubled n hread hdoubled
  rw [hn] at hlater
  rw [run_runMigrations hread] at hok hone hlater
  have hrecorded := run_records rfl hok (Or.inr (List.mem_map_of_mem hmem))
  rcases hlater with htwice | ⟨-, hnot⟩
  · omega
  · exact hnot hrecorded

theorem run_appliedOnce (hdb : Settled db)
    (hok : ((runMigrations dir).run (migrationHandler exec) db).1 = .ok ()) :
    AppliedOnce dir ((runMigrations dir).run (migrationHandler exec) db) := by
  refine ⟨hok, fun migrations hread migration hmem => ?_⟩
  rw [run_runMigrations hread] at hok ⊢
  have htabled : Settled (tabled db) := hdb
  have hsettled : Settled ((applyMigrations migrations).run (migrationHandler exec) (tabled db)).2 :=
    run_settled rfl htabled
  rw [hsettled, if_pos (run_records rfl hok (Or.inr (List.mem_map_of_mem hmem)))]

/-- The database after runs that were each stopped after so many statements. -/
def interrupted (exec : String → σ → Except SqlError σ) (dir : MigrationsDir) :
    List Nat → MigrationDb σ → MigrationDb σ
  | [], db => db
  | n :: stops, db => interrupted exec dir stops ((runMigrations dir).runFor (migrationHandler exec) n db)

/-- None of the runs is stopped between a file's statements and its record. -/
def recordsAll (exec : String → σ → Except SqlError σ) (dir : MigrationsDir) : List Nat → MigrationDb σ → Bool
  | [], _ => true
  | n :: stops, db => !stopsUnrecorded exec (runMigrations dir) db n &&
      recordsAll exec dir stops ((runMigrations dir).runFor (migrationHandler exec) n db)

theorem interrupted_doubled (stops : List Nat) (hread : readMigrationFiles dir = .ok migrations) {filename : String}
    (hdoubled : Doubled db filename) : Doubled (interrupted exec dir stops db) filename := by
  induction stops generalizing db with
  | nil => exact hdoubled
  | cons n stops ih => exact ih (runMigrations_doubled n hread hdoubled)

theorem runMigrations_doubled_of_stop (n : Nat) (hread : readMigrationFiles dir = .ok migrations)
    (hstop : stopsUnrecorded exec (runMigrations dir) db n) :
    ∃ migration ∈ migrations,
      Doubled ((runMigrations dir).runFor (migrationHandler exec) n db) migration.filename := by
  rcases n with _ | n
  · cases hstop
  · rw [stopsUnrecorded_runMigrations n hread] at hstop
    rw [runFor_runMigrations n hread]
    exact doubled_of_stop n rfl hstop

/-- After runs that were stopped, each anywhere, a later run returns `Ok` with every file applied once, exactly when
a run that was never stopped returns `Ok` and none was stopped between a file's statements and its record. -/
theorem appliedOnce_iff (exec : String → σ → Except SqlError σ) (dir : MigrationsDir) (db : MigrationDb σ)
    (hdb : Settled db) (stops : List Nat) :
    AppliedOnce dir ((runMigrations dir).run (migrationHandler exec) (interrupted exec dir stops db)) ↔
      ((runMigrations dir).run (migrationHandler exec) db).1 = .ok () ∧ recordsAll exec dir stops db := by
  cases hread : readMigrationFiles dir with
  | error error =>
      have hfails : ∀ db : MigrationDb σ,
          ((runMigrations dir).run (migrationHandler exec) db).1 = .error (.io error) := by
        intro db
        rw [runMigrations, hread]
        rfl
      refine iff_of_false (fun h => ?_) fun h => ?_
      · exact absurd ((hfails _).symm.trans h.1) nofun
      · exact absurd ((hfails db).symm.trans h.1) nofun
  | ok migrations =>
      induction stops generalizing db with
      | nil =>
          refine ⟨fun h => ⟨h.1, rfl⟩, fun h => run_appliedOnce hdb h.1⟩
      | cons n stops ih =>
          rw [interrupted, recordsAll, Bool.and_eq_true, Bool.not_eq_true']
          cases hstop : stopsUnrecorded exec (runMigrations dir) db n with
          | false =>
              obtain ⟨hsettled, hrun⟩ := runMigrations_resumes n hread hdb (by rw [hstop]; simp)
              rw [ih _ hsettled, hrun]
              exact ⟨fun h => ⟨h.1, rfl, h.2⟩, fun h => ⟨h.1, h.2.2⟩⟩
          | true =>
              obtain ⟨migration, hmem, hdoubled⟩ := runMigrations_doubled_of_stop n hread hstop
              refine iff_of_false ?_ fun h => nomatch h.2.1
              exact not_appliedOnce_of_doubled hread hmem (interrupted_doubled stops hread hdoubled)

/-- A line up to its comment. -/
def uncommented : List Char → List Char
  | '-' :: '-' :: _ => []
  | c :: rest => c :: uncommented rest
  | [] => []

/-- The statements of a file, each as its words. -/
def statements (sql : String) : List (List String) :=
  let text := (sql.toList.splitOnP (· = '\n')).flatMap fun line => uncommented line ++ [' ']
  (text.splitOnP (· = ';')).filterMap fun statement =>
    let words := ((statement.splitOnP fun c => c = ' ' || c = '(').filter (· ≠ [])).map String.ofList
    if words = [] then none else some words

/-- A statement on the names of the tables there are. -/
def createTable (words tables : List String) : Except SqlError (List String) :=
  match words with
  | "CREATE" :: "TABLE" :: "IF" :: "NOT" :: "EXISTS" :: name :: _ =>
      .ok (if name ∈ tables then tables else tables ++ [name])
  | "CREATE" :: "TABLE" :: name :: _ =>
      if name ∈ tables then .error ⟨"table " ++ name ++ " already exists"⟩
      else .ok (tables ++ [name])
  | _ => .error ⟨"not the creation of a table"⟩

def createTables (sql : String) (tables : List String) : Except SqlError (List String) :=
  (statements sql).foldlM (fun tables words => createTable words tables) tables

def ofLines (lines : List String) : String :=
  String.ofList (lines.flatMap fun line => line.toList ++ ['\n'])

/-- `001_create_users.sql` -/
def createUsers : String := ofLines [
  "CREATE TABLE IF NOT EXISTS users (",
  "    id              TEXT PRIMARY KEY,",
  "    username        TEXT NOT NULL UNIQUE,",
  "    email           TEXT NOT NULL UNIQUE,",
  "    password_hash   TEXT NOT NULL,",
  "    role            TEXT NOT NULL DEFAULT 'user',",
  "    quota_bytes     INTEGER NOT NULL DEFAULT 5368709120,",
  "    is_active       INTEGER NOT NULL DEFAULT 1,",
  "    setup_complete  INTEGER NOT NULL DEFAULT 0,",
  "    created_at      TEXT NOT NULL DEFAULT (datetime('now')),",
  "    updated_at      TEXT NOT NULL DEFAULT (datetime('now'))",
  ");"]

/-- `003_create_groups.sql` -/
def createGroups : String := ofLines [
  "CREATE TABLE groups (",
  "    id          TEXT PRIMARY KEY,",
  "    name        TEXT NOT NULL UNIQUE,",
  "    description TEXT,",
  "    created_by  TEXT NOT NULL REFERENCES users(id),",
  "    created_at  TEXT NOT NULL DEFAULT (datetime('now'))",
  ");",
  "",
  "CREATE TABLE group_members (",
  "    group_id  TEXT NOT NULL REFERENCES groups(id) ON DELETE CASCADE,",
  "    user_id   TEXT NOT NULL REFERENCES users(id) ON DELETE CASCADE,",
  "    role      TEXT NOT NULL DEFAULT 'member',  -- 'owner' | 'manager' | 'member'",
  "    joined_at TEXT NOT NULL DEFAULT (datetime('now')),",
  "    PRIMARY KEY (group_id, user_id)",
  ");"]

def usersFile : MigrationFile := ⟨"001_create_users.sql", createUsers⟩

def groupsFile : MigrationFile := ⟨"003_create_groups.sql", createGroups⟩

def twoFiles : MigrationsDir where
  found := true
  entries := .ok [some "003_create_groups.sql", some "README.md", none, some "001_create_users.sql"]
  content filename := .ok (if filename = usersFile.filename then createUsers else createGroups)

theorem read_twoFiles : readMigrationFiles twoFiles = .ok [usersFile, groupsFile] := rfl

theorem createUsers_words :
    (statements createUsers).map (·.take 6) = [["CREATE", "TABLE", "IF", "NOT", "EXISTS", "users"]] := by
  rw [statements, createUsers, ofLines, String.toList_ofList]
  decide +kernel

theorem createGroups_words : (statements createGroups).map (·.take 3) =
    [["CREATE", "TABLE", "groups"], ["CREATE", "TABLE", "group_members"]] := by
  rw [statements, createGroups, ofLines, String.toList_ofList]
  decide +kernel

/-- The first file may be executed again. -/
theorem createTables_users (tables : List String) :
    createTables createUsers tables = .ok (if "users" ∈ tables then tables else tables ++ ["users"]) := by
  obtain ⟨words, hwords, htake⟩ := List.map_eq_singleton_iff.mp createUsers_words
  rw [createTables, hwords, ← List.take_append_drop 6 words, htake]
  rfl

theorem createTable_groups (rest tables : List String) :
    createTable (["CREATE", "TABLE", "groups"] ++ rest) tables =
      if "groups" ∈ tables then .error ⟨"table groups already exists"⟩ else .ok (tables ++ ["groups"]) :=
  rfl

theorem createTable_members (rest tables : List String) :
    createTable (["CREATE", "TABLE", "group_members"] ++ rest) tables =
      if "group_members" ∈ tables then .error ⟨"table group_members already exists"⟩
      else .ok (tables ++ ["group_members"]) :=
  rfl

/-- The second may not. -/
theorem createTables_groups (tables : List String) :
    createTables createGroups tables =
      (if "groups" ∈ tables then .error ⟨"table groups already exists"⟩
        else if "group_members" ∈ tables ++ ["groups"] then .error ⟨"table group_members already exists"⟩
        else .ok (tables ++ ["groups"] ++ ["group_members"])) := by
  obtain ⟨first, rest, hwords, hfirst, hrest⟩ := List.map_eq_cons_iff.mp createGroups_words
  obtain ⟨second, rfl, hsecond⟩ := List.map_eq_singleton_iff.mp hrest
  rw [createTables, hwords, List.foldlM_cons, ← List.take_append_drop 3 first, hfirst, createTable_groups]
  split
  · rfl
  · show createTable second _ >>= _ = _
    rw [← List.take_append_drop 3 second, hsecond, createTable_members]
    split <;> rfl

def freshDb : MigrationDb (List String) := ⟨[], none, []⟩

/-- The database after the first file. -/
def withUsers : MigrationDb (List String) := appliedAs (tabled freshDb) ["users"] [] usersFile.filename

theorem exec_users : createTables usersFile.sql (tabled freshDb).schema = .ok ["users"] :=
  createTables_users []

theorem exec_groups :
    createTables groupsFile.sql withUsers.schema = .ok ["users", "groups", "group_members"] :=
  createTables_groups ["users"]

theorem exec_groups_again : createTables groupsFile.sql ["users", "groups", "group_members"] =
    .error ⟨"table groups already exists"⟩ := createTables_groups _

theorem unrecorded_users : usersFile.filename ∉ ([] : List String) := List.not_mem_nil

theorem unrecorded_groups : groupsFile.filename ∉ [usersFile.filename] := by decide

theorem run_twoFiles :
    ((runMigrations twoFiles).run (migrationHandler createTables) freshDb).1 = .ok () := by
  rw [run_runMigrations read_twoFiles, run_applied rfl unrecorded_users exec_users,
    ← withUsers, run_applied rfl unrecorded_groups exec_groups]
  rfl

/-- A run stopped between the two files has recorded the first. -/
theorem recordsAll_twoFiles : recordsAll createTables twoFiles [0, 4] freshDb := by
  have hstop : stopsUnrecorded createTables (runMigrations twoFiles) freshDb 4 = false := by
    rw [stopsUnrecorded_runMigrations 3 read_twoFiles, stopsUnrecorded,
      trace_applied rfl unrecorded_users exec_users]
    rfl
  show (!false && (!stopsUnrecorded createTables (runMigrations twoFiles) freshDb 4 && true)) = true
  rw [hstop]
  rfl

/-- The first run is stopped at once, the second between the two files. -/
theorem appliedOnce_twoFiles : AppliedOnce twoFiles
    ((runMigrations twoFiles).run (migrationHandler createTables)
      (interrupted createTables twoFiles [0, 4] freshDb)) :=
  (appliedOnce_iff createTables twoFiles freshDb (fun _ => rfl) [0, 4]).mpr
    ⟨run_twoFiles, recordsAll_twoFiles⟩

/-- A run stopped after the statements of `003_create_groups.sql`, before the file is recorded. -/
theorem not_appliedOnce : ¬∀ (dir : MigrationsDir) (db : MigrationDb (List String)) (stop : Nat),
    Settled db → ((runMigrations dir).run (migrationHandler createTables) db).1 = .ok () →
    AppliedOnce dir ((runMigrations dir).run (migrationHandler createTables)
      ((runMigrations dir).runFor (migrationHandler createTables) stop db)) := by
  intro h
  have hstopped : (runMigrations twoFiles).runFor (migrationHandler createTables) 6 freshDb =
      executed withUsers ["users", "groups", "group_members"] groupsFile.filename := by
    rw [runFor_runMigrations 5 read_twoFiles,
      (runFor_applied [groupsFile] rfl unrecorded_users exec_users).2.2 2]
    exact (runFor_applied [] rfl unrecorded_groups exec_groups).2.1
  have hfails : ((runMigrations twoFiles).run (migrationHandler createTables)
      (executed withUsers ["users", "groups", "group_members"] groupsFile.filename)).1 =
        .error (.sql ⟨"table groups already exists"⟩) := by
    have hrecorded : (tabled (executed withUsers ["users", "groups", "group_members"]
        groupsFile.filename)).migrations = some [usersFile.filename] := rfl
    rw [run_runMigrations read_twoFiles, run_recorded hrecorded (List.mem_singleton_self _),
      run_failed hrecorded unrecorded_groups exec_groups_again]
  have hok := (h twoFiles freshDb 6 (fun _ => rfl) run_twoFiles).1
  rw [hstopped, hfails] at hok
  cases hok

end Migrations

end IronDrive
