import IronDrive.FsService

/-! Chunked uploads: a session row in the database, a staging directory of chunk files, and the
completion that streams them into one encrypted file. The session table's statements are calls of their
own, beside those of the filesystem. -/

namespace IronDrive

open Lib PathSafety CryptoService FsService

/-- The functions of other crates the chunk service calls: parsing a UUID, writing and parsing a date
to the second, guessing a MIME type. -/
structure Crates where
  uuidParses : String → Bool
  formatTimestamp : Int → String
  parseTimestamp : String → Option Int
  mimeFromFilename : String → Option String

/-- A row of `chunked_uploads`, without the columns no function reads back. -/
structure ChunkedUpload where
  id : String
  userId : String
  targetType : String
  targetId : String
  targetPath : String
  totalChunks : Int
  receivedChunks : Int
  totalBytes : Int
  expiresAt : String
  deriving DecidableEq

inductive UploadsCall
  | load (id targetType : String)
  | insert (row : ChunkedUpload)
  | setReceived (id : String) (receivedChunks : Int)
  | delete (id : String)

namespace UploadsCall

def Answer : UploadsCall → Type
  | load _ _ => Except SqlError (Option ChunkedUpload)
  | insert _ | setReceived _ _ | delete _ => Except SqlError Unit

/-- Carry out one statement on the table; a failing statement changes nothing. -/
def perform (fault : Option String) : (op : UploadsCall) → List ChunkedUpload →
    op.Answer × List ChunkedUpload
  | load id targetType, rows =>
      (match fault with
        | some message => .error ⟨message⟩
        | none => .ok (rows.find? fun row => row.id = id && row.targetType = targetType), rows)
  | insert row, rows =>
      match fault with
      | some message => (.error ⟨message⟩, rows)
      | none =>
          if rows.any fun old => old.id = row.id then
            (.error ⟨"UNIQUE constraint failed: chunked_uploads.id"⟩, rows)
          else (.ok (), rows ++ [row])
  | setReceived id n, rows =>
      match fault with
      | some message => (.error ⟨message⟩, rows)
      | none => (.ok (), rows.map fun row => if row.id = id then { row with receivedChunks := n } else row)
  | delete id, rows =>
      match fault with
      | some message => (.error ⟨message⟩, rows)
      | none => (.ok (), rows.filter fun row => row.id ≠ id)

end UploadsCall

abbrev uploadsSignature : Signature := ⟨UploadsCall, UploadsCall.Answer⟩

/-- The session table, and the number of statements run so far. -/
structure UploadsDb where
  rows : List ChunkedUpload
  tick : Nat

/-- The handler of statements; the oracle makes some of them fail. -/
def uploadsHandler (oracle : Nat → Option String) : Handler uploadsSignature UploadsDb := fun op db =>
  ((UploadsCall.perform (oracle db.tick) op db.rows).1,
    ⟨(UploadsCall.perform (oracle db.tick) op db.rows).2, db.tick + 1⟩)

/-- The disk and the session table under one roof. -/
abbrev serverSignature : Signature := fsSignature.sum uploadsSignature

abbrev ServerProgram (α : Type) : Type := Program serverSignature AppError α

abbrev Server : Type := Disk × UploadsDb

def serverHandler (oracle : Nat → Choice) (dbOracle : Nat → Option String) :
    Handler serverSignature Server :=
  Program.sumHandler (fsHandler oracle) (uploadsHandler dbOracle)

/-- A filesystem program as part of a server program. -/
def onDisk {α : Type} (program : FsProgram α) : ServerProgram α := program.inl

/-- One statement, as it answers. -/
def statement (op : UploadsCall) : ServerProgram op.Answer :=
  Program.inr (Program.ask (S := uploadsSignature) op)

/-- The `?` after a statement. -/
def orSqlx {α : Type} : Except SqlError α → ServerProgram α
  | .ok value => .done value
  | .error error => .fail (.sqlx error)

namespace ChunkService

def toI64 (n : Nat) : Int := Int.bmod n (2 ^ 64)

def toU64 (i : Int) : Nat := (i % 2 ^ 64).toNat

def toU32 (i : Int) : Nat := (i % 2 ^ 32).toNat

abbrev u64Max : Nat := 2 ^ 64 - 1

variable (crates : Crates) (config : AppConfig)

/-- Reject upload ids that are not UUIDs. -/
def validateUploadId (uploadId : String) : Except AppError Unit :=
  if crates.uuidParses uploadId then .ok () else .error .notFound

def stagingDir (uploadId : String) : Path := config.chunksDir ++ [uploadId]

/-- The file name of a chunk: its index in at least eight digits. -/
def chunkName (chunkIndex : Nat) : String :=
  String.ofList (List.replicate (8 - (Nat.toDigits 10 chunkIndex).length) '0' ++
    Nat.toDigits 10 chunkIndex ++ ".chunk".toList)

def chunkPath (uploadId : String) (chunkIndex : Nat) : Path :=
  stagingDir config uploadId ++ [chunkName chunkIndex]

def expectedTotalChunks (totalBytes chunkSizeBytes : Nat) : Nat :=
  if totalBytes = 0 then 1
  else ((totalBytes + chunkSizeBytes - 1) / chunkSizeBytes) % 2 ^ 32

def expectedChunkLen (totalBytes chunkSizeBytes totalChunks index : Nat) : Nat :=
  if index + 1 < totalChunks then chunkSizeBytes
  else totalBytes - min (chunkSizeBytes * (totalChunks - 1)) u64Max

def isHexDigit (c : Char) : Bool :=
  ('0' ≤ c && c ≤ '9') || ('a' ≤ c && c ≤ 'f') || ('A' ≤ c && c ≤ 'F')

def normalizeHex (s : String) : List Char := (trim s.toList).map Char.toLower

def isValidSha256Hex (s : String) : Bool :=
  (String.ofList (normalizeHex s)).utf8ByteSize = 64 && (normalizeHex s).all isHexDigit

/-- A date that does not parse counts as expired. -/
def isExpired (now : Int) (expiresAt : String) : Bool :=
  match crates.parseTimestamp expiresAt with
  | some date => date ≤ now
  | none => true

def formatBytes (bytes : Nat) : String :=
  if 2 ^ 40 ≤ bytes ∧ bytes % 2 ^ 40 = 0 then toString (bytes / 2 ^ 40) ++ " TiB"
  else if 2 ^ 30 ≤ bytes ∧ bytes % 2 ^ 30 = 0 then toString (bytes / 2 ^ 30) ++ " GiB"
  else if 2 ^ 20 ≤ bytes ∧ bytes % 2 ^ 20 = 0 then toString (bytes / 2 ^ 20) ++ " MiB"
  else if 2 ^ 10 ≤ bytes ∧ bytes % 2 ^ 10 = 0 then toString (bytes / 2 ^ 10) ++ " KiB"
  else toString bytes ++ " B"

/-- The row of a session, under its target type. -/
def loadUploadRow (uploadId targetType : String) : ServerProgram (Option ChunkedUpload) := do
  orSqlx (← statement (.load uploadId targetType))

/-- Count the staged chunk files, in 32 bits and saturating. -/
def countUploadedChunks (uploadId : String) : FsProgram Nat := do
  let found := match ← fsCall (.tryExists (stagingDir config uploadId)) with
    | .ok found => found
    | .error _ => false
  if !found then return 0
  else
    let (names, failure) ← attempt (fun e => .internal ("Failed to list staging dir: " ++ e.message))
      (← fsCall (.readDir (stagingDir config uploadId)))
    match failure with
    | some e => Program.fail (.internal ("Failed to read staging dir entry: " ++ e.message))
    | none => return min (names.filter fun name => ".chunk".toList <:+ name.toList).length (2 ^ 32 - 1)

/-! ### The operations -/

structure InitUploadParams where
  userId : String
  targetId : String
  targetType : String
  targetPath : String
  totalChunks : Nat
  totalBytes : Nat
  checksumSha256 : Option String

structure InitUploadResult where
  uploadId : String
  chunkSizeBytes : Nat
  totalChunks : Nat
  totalBytes : Nat
  expiresAt : String
  deriving DecidableEq

/-- The checks on the parameters of a new session. -/
def checkInitUpload (params : InitUploadParams) : Except AppError Unit :=
  if trim params.targetPath.toList = [] then .error (.validation "Target path must not be empty.")
  else if params.targetPath.toList.getLast? = some '/' then
    .error (.validation "Target path must include a filename, not a directory.")
  else if params.totalChunks = 0 then
    .error (.validation "total_chunks must be greater than zero.")
  else if params.totalBytes ≤ config.chunkSizeBytes then
    .error (.validation
      "File is small enough for single-request upload; use /api/v1/library/upload instead.")
  else if config.maxUploadBytes < params.totalBytes then
    .error (.validation ("File exceeds maximum allowed upload size of " ++
      formatBytes config.maxUploadBytes ++ "."))
  else if (params.checksumSha256.map isValidSha256Hex).getD true = false then
    .error (.validation "checksum_sha256 must be a 64-character SHA-256 hex string.")
  else
    let expectedChunks := expectedTotalChunks params.totalBytes config.chunkSizeBytes
    if params.totalChunks ≠ expectedChunks then
      .error (.validation ("total_chunks mismatch: expected " ++ toString expectedChunks ++ ", got " ++
        toString params.totalChunks ++ "."))
    else .ok ()

/-- The row a new session is stored as. -/
def newUploadRow (uploadId expiresAt : String) (params : InitUploadParams) : ChunkedUpload where
  id := uploadId
  userId := params.userId
  targetType := params.targetType
  targetId := params.targetId
  targetPath := params.targetPath
  totalChunks := params.totalChunks
  receivedChunks := 0
  totalBytes := toI64 params.totalBytes
  expiresAt := expiresAt

/-- Open a session; `uploadId` is the UUID drawn for it. -/
def initUpload (uploadId : String) (now : Int) (params : InitUploadParams) :
    ServerProgram InitUploadResult := do
  Program.ofExcept (checkInitUpload config params)
  let expiresAt := crates.formatTimestamp (now + 3600 * toI64 config.chunkUploadExpiryHours)
  onDisk (createDirAll (stagingDir config uploadId) fun e =>
    .internal ("Failed to create staging directory: " ++ e.message))
  orSqlx (← statement (.insert (newUploadRow uploadId expiresAt params)))
  return { uploadId := uploadId, chunkSizeBytes := config.chunkSizeBytes,
           totalChunks := params.totalChunks, totalBytes := params.totalBytes, expiresAt := expiresAt }

structure ReceiveChunkResult where
  uploadId : String
  chunkIndex : Nat
  receivedChunks : Nat
  totalChunks : Nat
  deriving DecidableEq

/-- Who calls, for which target and session. -/
structure Session where
  userId : String
  targetId : String
  targetType : String
  uploadId : String

/-- The session's row, if the caller owns it and it has not expired. -/
def requireSession (now : Int) (session : Session) : ServerProgram ChunkedUpload := do
  Program.ofExcept (validateUploadId crates session.uploadId)
  let row ← Program.okOr .notFound (← loadUploadRow session.uploadId session.targetType)
  if row.userId ≠ session.userId ∨ row.targetId ≠ session.targetId then Program.fail .notFound
  else if isExpired crates now row.expiresAt then
    Program.fail (.validation "Upload session has expired.")
  else return row

/-- Write a chunk to its new file. -/
def fillChunk (place : Path) (data : Bytes) : FsProgram Unit := do
  let (file, written) ← OpenFile.writeBuffered ⟨place, 0⟩ data fun e =>
    .internal ("Failed to write chunk: " ++ e.message)
  file.flushAfter written fun e => .internal ("Failed to flush chunk: " ++ e.message)
  file.syncData fun e => .internal ("Failed to sync chunk to disk: " ++ e.message)

/-- Stage one chunk in a file of its own. -/
def stageChunk (uploadId : String) (chunkIndex : Nat) (data : Bytes) : FsProgram Unit := do
  createDirAll (stagingDir config uploadId) fun e =>
    .internal ("Failed to ensure staging directory: " ++ e.message)
  match ← fsCall (.createNew (chunkPath config uploadId chunkIndex)) with
  | .ok place => fillChunk place data
  | .error e =>
      if e.kind = .alreadyExists then Program.fail (.conflict "Chunk already uploaded.")
      else Program.fail (.internal ("Failed to create chunk file: " ++ e.message))

/-- Receive the chunk of one index. -/
def receiveChunk (now : Int) (session : Session) (chunkIndex : Nat) (data : Bytes) :
    ServerProgram ReceiveChunkResult := do
  let row ← requireSession crates now session
  let totalChunks := toU32 row.totalChunks
  if totalChunks ≤ chunkIndex then Program.fail (.validation "chunk_index out of range.")
  else
    let expectedLen := expectedChunkLen (toU64 row.totalBytes) config.chunkSizeBytes totalChunks chunkIndex
    if data.length ≠ expectedLen then
      Program.fail (.validation ("Chunk size mismatch for index " ++ toString chunkIndex ++ ": expected " ++
        toString expectedLen ++ " bytes, got " ++ toString data.length ++ " bytes."))
    else
      onDisk (stageChunk config session.uploadId chunkIndex data)
      let receivedChunks ← onDisk (countUploadedChunks config session.uploadId)
      orSqlx (← statement (.setReceived session.uploadId receivedChunks))
      return { uploadId := session.uploadId, chunkIndex := chunkIndex, receivedChunks := receivedChunks,
               totalChunks := totalChunks }

/-- Verify that every chunk file from index `index` on is present. -/
def checkChunksPresent : (chunkPaths : List Path) → (index : Nat) → FsProgram Unit
  | [], _ => .done ()
  | path :: paths, index => do
      let found := match ← fsCall (.tryExists path) with
        | .ok found => found
        | .error _ => false
      if !found then Program.fail (.validation ("Missing chunk " ++ toString index ++ "."))
      else checkChunksPresent paths (index + 1)

/-- The chunk files of a session in index order. -/
def chunkPaths (uploadId : String) (totalChunks : Nat) : List Path :=
  (List.range totalChunks).map (chunkPath config uploadId)

variable (P : Primitives) (unlockState : UnlockState)

/-- The streaming upload into the session's target, in a space or a library. -/
def uploadTarget (targetType targetId : String) : FixedBytes 7 → String → List Path → Nat → Bool →
    FsProgram UploadResult :=
  if targetType = "space" then
    uploadSpaceFileStreaming P crates.mimeFromFilename config unlockState targetId
  else uploadFileStreaming P crates.mimeFromFilename config unlockState targetId

/-- Assemble the staged chunks into the target and drop the session. -/
def completeUpload (now : Int) (streamNonce : FixedBytes 7) (session : Session) (writeVerify : Bool) :
    ServerProgram UploadResult := do
  let row ← requireSession crates now session
  let totalChunks := toU32 row.totalChunks
  let totalBytes := toU64 row.totalBytes
  let paths := chunkPaths config session.uploadId totalChunks
  onDisk (checkChunksPresent paths 0)
  let upload ← onDisk (uploadTarget crates config P unlockState session.targetType session.targetId
    streamNonce row.targetPath paths totalBytes writeVerify)
  let _ ← onDisk (fsCall (.removeDirAll (stagingDir config session.uploadId)))
  let _ ← statement (.delete session.uploadId)
  return upload

/-- Drop a session and its staged chunks. -/
def cancelUpload (session : Session) : ServerProgram Unit := do
  Program.ofExcept (validateUploadId crates session.uploadId)
  let row ← Program.okOr .notFound (← loadUploadRow session.uploadId session.targetType)
  if row.userId ≠ session.userId ∨ row.targetId ≠ session.targetId then Program.fail .notFound
  else
    let _ ← onDisk (fsCall (.removeDirAll (stagingDir config session.uploadId)))
    orSqlx (← statement (.delete session.uploadId))

end ChunkService

def sampleConfig : AppConfig where
  secretKey := "secret"
  dataDir := []
  defaultQuotaBytes := 100
  maxUploadBytes := 100
  sessionExpiryHours := 24
  chunkSizeBytes := 1
  chunkUploadExpiryHours := 24

/-- Every library and space is unlocked under the zero key. -/
def sampleUnlocked : UnlockState where
  libraries _ := some zeroKey
  spaces _ := some zeroKey

def sampleCrates : Crates where
  uuidParses _ := true
  formatTimestamp _ := ""
  parseTimestamp _ := some 0
  mimeFromFilename _ := none

end IronDrive
