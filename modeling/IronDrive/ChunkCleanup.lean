import IronDrive.DiskSteps

/-! The cleanup of expired sessions. It asks the session table for their ids once, and then goes through them, each
with its directory and its row. -/

namespace IronDrive

open Lib FsService

/-- The statement that only the cleanup runs. -/
inductive ExpiredCall
  | selectExpired (now : String)

namespace ExpiredCall

def Answer : ExpiredCall → Type
  | selectExpired _ => Except SqlError (List String)

/-- The ids of the sessions that expired before `now`; dates are compared as texts. -/
def perform (fault : Option String) : (op : ExpiredCall) → List ChunkedUpload → op.Answer
  | selectExpired now, rows =>
      match fault with
      | some message => .error ⟨message⟩
      | none => .ok ((rows.filter fun row => row.expiresAt < now).map ChunkedUpload.id)

end ExpiredCall

abbrev expiredSignature : Signature := ⟨ExpiredCall, ExpiredCall.Answer⟩

/-- The calls of the chunk service, those of the cleanup included. -/
abbrev chunkSignature : Signature := serverSignature.sum expiredSignature

abbrev ChunkProgram (α : Type) : Type := Program chunkSignature AppError α

/-- The handler of these calls. The cleanup and others remove chunk files that a completion may have open, so reads may
be stale. -/
def chunkHandler (oracle : Nat → Choice) (stale : Nat → Option Bytes) (dbOracle : Nat → Option String) :
    Handler chunkSignature Server
  | .inl op, server => Program.sumHandler (staleHandler oracle stale) (uploadsHandler dbOracle) op server
  | .inr op, server =>
      (ExpiredCall.perform (dbOracle server.2.tick) op server.2.rows,
        (server.1, ⟨server.2.rows, server.2.tick + 1⟩))

namespace ChunkService

variable (crates : Crates) (config : AppConfig)

/-- Drop the sessions with these ids and their staged chunks. -/
def cleanupUploads : (uploadIds : List String) → (cleaned : Nat) → ChunkProgram Nat
  | [], cleaned => .done cleaned
  | uploadId :: rest, cleaned => do
      let found := match ← (onDisk (fsCall (.tryExists (stagingDir config uploadId)))).inl with
        | .ok found => found
        | .error _ => false
      if found then
        let _ ← (onDisk (fsCall (.removeDirAll (stagingDir config uploadId)))).inl
        let _ ← (statement (.delete uploadId)).inl
        cleanupUploads rest (cleaned + 1)
      else
        let _ ← (statement (.delete uploadId)).inl
        cleanupUploads rest (cleaned + 1)

/-- Remove expired sessions and their staging directories. -/
def cleanupExpiredUploads (now : Int) : ChunkProgram Nat := do
  let answer ← Program.inr (Program.ask (S := expiredSignature) (.selectExpired (crates.formatTimestamp now)))
  let uploadIds ← Program.ofExcept (answer.mapError AppError.sqlx)
  cleanupUploads config uploadIds 0

end ChunkService

end IronDrive
