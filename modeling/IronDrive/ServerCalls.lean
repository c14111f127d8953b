import IronDrive.ChunkService

/-! Server programs when neither the operating system nor the database reports an error of its own: what a
statement answers, and how the outcome of a program transfers to the handler. -/

namespace IronDrive

open Lib FileTree

/-- The account of statements that do not fail for reasons outside the table. -/
def Answers (op : UploadsCall) (rows : List ChunkedUpload) (answer : op.Answer)
    (rows' : List ChunkedUpload) : Prop :=
  op.perform none rows = (answer, rows')

/-- The account of the server's calls on its tree and its session table. -/
abbrev ServerQuietly : (op : serverSignature.Op) → FileTree × List ChunkedUpload →
    serverSignature.Answer op → FileTree × List ChunkedUpload → Prop :=
  Program.sumAccount Quietly Answers

/-- The handler under an operating system and a database that report no error of their own. -/
abbrev quietHandler (oracle : Nat → Choice) : Handler serverSignature Server :=
  serverHandler oracle fun _ => none

/-- What the services see of a server. -/
def Server.view (server : Server) : FileTree × List ChunkedUpload := (server.1.tree, server.2.rows)

variable {t : FileTree} {rows : List ChunkedUpload} {α : Type}

theorem onDisk_stops {program : FsProgram α} {result : Except AppError α} {t' : FileTree}
    (h : program.Stops Quietly t result t') :
    (onDisk program).Stops ServerQuietly (t, rows) result (t', rows) :=
  Program.Stops.inl h

theorem statement_stops (op : UploadsCall) :
    (statement op).Stops ServerQuietly (t, rows) (.ok (op.perform none rows).1)
      (t, (op.perform none rows).2) := by
  apply Program.Stops.inr
  intro answer rows' hanswer
  have hpair : op.perform none rows = (answer, rows') := hanswer
  rw [hpair]
  exact ⟨rfl, rfl⟩

/-- A row under a new id is appended. -/
theorem insert_stops {row : ChunkedUpload} (hnew : ∀ old ∈ rows, old.id ≠ row.id) :
    (statement (.insert row)).Stops ServerQuietly (t, rows) (.ok (.ok ())) (t, rows ++ [row]) := by
  have hany : (rows.any fun old => old.id = row.id) = false := by simpa using hnew
  have hperform : UploadsCall.perform none (.insert row) rows = (.ok (), rows ++ [row]) := by
    simp only [UploadsCall.perform]
    rw [hany]
    rfl
  have hstops : (statement (.insert row)).Stops ServerQuietly (t, rows)
      (.ok (UploadsCall.perform none (.insert row) rows).1)
      (t, (UploadsCall.perform none (.insert row) rows).2) := statement_stops _
  rwa [hperform] at hstops

theorem orSqlx_stops (value : α) (v : FileTree × List ChunkedUpload) :
    (orSqlx (.ok value)).Stops ServerQuietly v (.ok value) v := Program.stops_done value v

theorem quietHandler_performs {oracle : Nat → Choice} (hquiet : QuietOracle oracle)
    (op : serverSignature.Op) (server : Server) :
    ServerQuietly op server.view (quietHandler oracle op server).1 (quietHandler oracle op server).2.view := by
  cases op with
  | inl op => exact ⟨fsHandler_performs hquiet op server.1, rfl⟩
  | inr op => exact ⟨rfl, rfl⟩

theorem server_run_of_ensures {oracle : Nat → Choice} (hquiet : QuietOracle oracle)
    {program : ServerProgram α} {server : Server}
    {Q : Except AppError α → FileTree × List ChunkedUpload → Prop}
    (h : program.Ensures ServerQuietly server.view Q) :
    Q (program.run (quietHandler oracle) server).1 (program.run (quietHandler oracle) server).2.view := by
  obtain ⟨v, hview, hQ⟩ := Program.Ensures.run (R := fun (server : Server) v => server.view = v) h
    (by intro op server v hv; subst hv; exact ⟨_, quietHandler_performs hquiet op server, rfl⟩) rfl
  rw [hview]
  exact hQ

theorem server_returns_of_ensures {oracle : Nat → Choice} (hquiet : QuietOracle oracle)
    {program : ServerProgram α} {server after : Server} {result : Except AppError α}
    (hrun : program.run (quietHandler oracle) server = (result, after))
    {Q : Except AppError α → FileTree × List ChunkedUpload → Prop}
    (h : program.Ensures ServerQuietly server.view Q) : Q result after.view := by
  have hreturns := server_run_of_ensures hquiet h
  rwa [hrun] at hreturns

/-- A filesystem program returns on the server what it returns on the disk. -/
theorem onDisk_returns_of_ensures {oracle : Nat → Choice} (hquiet : QuietOracle oracle) {program : FsProgram α}
    {server after : Server} {result : Except AppError α}
    (hrun : (onDisk program).run (quietHandler oracle) server = (result, after))
    {Q : Except AppError α → FileTree → Prop} (h : program.Ensures Quietly server.1.tree Q) :
    Q result after.1.tree := by
  have hserver : (onDisk program).Ensures ServerQuietly server.view fun result v' =>
      Q result v'.1 ∧ v'.2 = server.2.rows := Program.Ensures.inl h
  exact (server_returns_of_ensures hquiet hrun hserver).1

theorem server_run_of_stops {oracle : Nat → Choice} (hquiet : QuietOracle oracle)
    {program : ServerProgram α} {server : Server} {result : Except AppError α}
    {v : FileTree × List ChunkedUpload} (h : program.Stops ServerQuietly server.view result v) :
    (program.run (quietHandler oracle) server).1 = result ∧
      (program.run (quietHandler oracle) server).2.view = v :=
  server_run_of_ensures hquiet h

end IronDrive
