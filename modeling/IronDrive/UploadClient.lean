import IronDrive.LibRun
import IronDrive.ChunkUpload

/-! The page's side of a chunked upload, and the page and the server as one system. The page keeps a few workers that
send chunks and send them again when they fail on the way, and completes the session when all are stored, or cancels it.
An answer may be lost after the server has done its part, and the server goes on with a request whose answer nobody
waits for. -/

namespace IronDrive

open Lib CryptoService FsService ChunkService

/-- A request of the page: a chunk at one of its attempts, the completion, the cancellation. -/
inductive PageRequest
  | chunk (chunkIndex attempt : Nat)
  | complete
  | cancel
  deriving DecidableEq

/-- What a worker of the page is at. -/
inductive Worker
  | sending (chunkIndex attempt : Nat)
  /-- The attempt failed, and the delay before the next one runs. -/
  | waiting (chunkIndex attempt : Nat)
  | resolved
  | rejected
  deriving DecidableEq

/-- What the upload as a whole is at. -/
inductive Phase
  | uploading
  | completing
  | resolved
  | cancelling
  | rejected
  deriving DecidableEq

def chunkMaxRetries : Nat := 3

/-- The chunk size of a page; the attribute is `none` where it does not parse. -/
def getChunkSizeBytes : Option Int → Nat
  | some parsed => if parsed ≤ 0 then 8 * 1024 * 1024 else parsed.toNat
  | none => 8 * 1024 * 1024

def getMaxParallelChunks : Option Int → Nat
  | some parsed => if parsed ≤ 0 then 4 else min parsed.toNat 16
  | none => 4

/-- Whether a message has the text of a network error in it, or a `5` and two digits. -/
def isTransient (message : String) : Bool :=
  decide ("network error".toList <:+: message.toList.map Char.toLower) ||
    message.toList.tails.any fun rest =>
      match rest with
      | '5' :: tens :: ones :: _ => tens.isDigit && ones.isDigit
      | _ => false

/-- The state of an upload in the page. -/
structure UploadClient where
  totalChunks : Nat
  nextChunkIndex : Nat
  workers : List Worker
  phase : Phase
  deriving DecidableEq

namespace UploadClient

/-- When all workers are through, the page asks for the completion. -/
def joinWorkers (client : UploadClient) : UploadClient × List PageRequest :=
  if client.phase = .uploading ∧ ∀ worker ∈ client.workers, worker = .resolved then
    ({ client with phase := .completing }, [.complete])
  else (client, [])

/-- The upload fails: the page asks for the cancellation, once. -/
def giveUp (client : UploadClient) : UploadClient × List PageRequest :=
  match client.phase with
  | .uploading | .completing => ({ client with phase := .cancelling }, [.cancel])
  | _ => (client, [])

/-- The page starts its workers, each with a chunk of its own. -/
def start (totalChunks maxParallel : Nat) : UploadClient × List PageRequest :=
  let count := min maxParallel totalChunks
  let (client, sent) := joinWorkers
    { totalChunks := totalChunks, nextChunkIndex := count,
      workers := (List.range count).map fun i => .sending i 1, phase := .uploading }
  (client, (List.range count).map (fun i => .chunk i 1) ++ sent)

/-- A worker's chunk is stored: it takes the next one, or is through. -/
def chunkStored (client : UploadClient) (k : Nat) : UploadClient × List PageRequest :=
  if client.nextChunkIndex < client.totalChunks then
    ({ client with nextChunkIndex := client.nextChunkIndex + 1,
                   workers := client.workers.set k (.sending client.nextChunkIndex 1) },
      [.chunk client.nextChunkIndex 1])
  else joinWorkers { client with workers := client.workers.set k .resolved }

/-- A worker's attempt failed with this message: it waits and tries again, or the upload fails. -/
def chunkFailed (client : UploadClient) (k chunkIndex attempt : Nat) (message : String) :
    UploadClient × List PageRequest :=
  if isTransient message ∧ attempt < chunkMaxRetries then
    ({ client with workers := client.workers.set k (.waiting chunkIndex attempt) }, [])
  else giveUp { client with workers := client.workers.set k .rejected }

/-- The delay of a worker is over. -/
def chunkResent (client : UploadClient) (k chunkIndex attempt : Nat) : UploadClient × List PageRequest :=
  ({ client with workers := client.workers.set k (.sending chunkIndex (attempt + 1)) },
    [.chunk chunkIndex (attempt + 1)])

end UploadClient

/-! ### The page and the server -/

/-- An upload of a file by a page with these attributes: what it is for, and what the server draws and knows of the time
for each request. -/
structure PageUpload where
  session : Session
  targetPath : String
  file : Bytes
  chunkSizeAttribute : Option Int
  maxParallelAttribute : Option Int
  clock : PageRequest → Int
  streamNonce : FixedBytes 7

namespace PageUpload

variable (page : PageUpload)

def chunkSize : Nat := getChunkSizeBytes page.chunkSizeAttribute

def totalChunks : Nat := (page.file.length + page.chunkSize - 1) / page.chunkSize

/-- The part of the file that is sent as one chunk. -/
def chunk (chunkIndex : Nat) : Bytes :=
  slice page.file (chunkIndex * page.chunkSize)
    (min (chunkIndex * page.chunkSize + page.chunkSize) page.file.length)

/-- What the page opens the session with. -/
def initParams : InitUploadParams where
  userId := page.session.userId
  targetId := page.session.targetId
  targetType := page.session.targetType
  targetPath := page.targetPath
  totalChunks := page.totalChunks
  totalBytes := page.file.length
  checksumSha256 := none

variable (P : Primitives) (crates : Crates) (config : AppConfig) (unlockState : UnlockState)

/-- The workers the page starts with. -/
def start : UploadClient × List PageRequest :=
  UploadClient.start page.totalChunks (getMaxParallelChunks page.maxParallelAttribute)

/-- What the server does for a request. -/
def serve : PageRequest → ServerProgram Unit
  | .chunk chunkIndex attempt => do
      let _ ← receiveChunk crates config (page.clock (.chunk chunkIndex attempt)) page.session chunkIndex
        (page.chunk chunkIndex)
      return ()
  | .complete => do
      let _ ← completeUpload crates config P unlockState (page.clock .complete) page.streamNonce page.session false
      return ()
  | .cancel => cancelUpload crates config page.session

end PageUpload

/-- The page, how far the server is with each request, and the server. -/
structure UploadSystem where
  client : UploadClient
  programs : PageRequest → ServerProgram Unit
  sent : List PageRequest
  server : Server

inductive UploadEvent
  /-- The server makes the next call of a request. -/
  | turn (request : PageRequest)
  /-- A worker gets the answer to its request. -/
  | answered (k : Nat)
  /-- A worker's request fails before it reaches the services, or its answer on the way back. -/
  | refused (k : Nat) (message : String)
  /-- A worker's delay is over. -/
  | resend (k : Nat)
  | completeAnswered
  | completeRefused
  /-- The request for the cancellation has come to its end, in whatever way. -/
  | cancelSettled

namespace UploadSystem

def react (system : UploadSystem) (reaction : UploadClient × List PageRequest) : UploadSystem :=
  { system with client := reaction.1, sent := system.sent ++ reaction.2 }

/-- The page and the server once the session is open. -/
def start (page : PageUpload) (P : Primitives) (crates : Crates) (config : AppConfig) (unlockState : UnlockState)
    (server : Server) : UploadSystem where
  client := page.start.1
  programs := page.serve P crates config unlockState
  sent := page.start.2
  server := server

def step (h : Handler serverSignature Server) (system : UploadSystem) : UploadEvent → Option UploadSystem
  | .turn request =>
      if request ∈ system.sent then
        match system.programs request with
        | .call op next =>
            some { system with programs := Function.update system.programs request (next (h op system.server).1),
                               server := (h op system.server).2 }
        | _ => none
      else none
  | .answered k =>
      match system.client.workers[k]? with
      | some (.sending chunkIndex attempt) =>
          match system.programs (.chunk chunkIndex attempt) with
          | .done _ => some (system.react (system.client.chunkStored k))
          | .fail error => some (system.react (system.client.chunkFailed k chunkIndex attempt error.display))
          | .call _ _ => none
      | _ => none
  | .refused k message =>
      match system.client.workers[k]? with
      | some (.sending chunkIndex attempt) =>
          some (system.react (system.client.chunkFailed k chunkIndex attempt message))
      | _ => none
  | .resend k =>
      match system.client.workers[k]? with
      | some (.waiting chunkIndex attempt) => some (system.react (system.client.chunkResent k chunkIndex attempt))
      | _ => none
  | .completeAnswered =>
      if system.client.phase = .completing then
        match system.programs .complete with
        | .done _ => some { system with client := { system.client with phase := .resolved } }
        | .fail _ => some (system.react system.client.giveUp)
        | .call _ _ => none
      else none
  | .completeRefused =>
      if system.client.phase = .completing then some (system.react system.client.giveUp) else none
  | .cancelSettled =>
      if system.client.phase = .cancelling then
        some { system with client := { system.client with phase := .rejected } }
      else none

end UploadSystem

/-- A run of the system. -/
abbrev UploadRun (h : Handler serverSignature Server) : UploadSystem → List UploadEvent → UploadSystem → Prop :=
  Run fun system event system' => system.step h event = some system'

end IronDrive
