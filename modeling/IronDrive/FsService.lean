import IronDrive.CryptoService
import IronDrive.PathSafety
import IronDrive.UnlockState

/-! Uploads and downloads of whole files in libraries and spaces. The functions for spaces mirror those
for libraries; they differ in where the key and the root come from. The guess of a MIME type from a file
name is a crate's. -/

namespace IronDrive

open Lib PathSafety CryptoService

/-- The configuration the services read. The data directory is given by its canonical path. -/
structure AppConfig where
  secretKey : String
  dataDir : Path
  defaultQuotaBytes : Nat
  maxUploadBytes : Nat
  sessionExpiryHours : Nat
  chunkSizeBytes : Nat
  chunkUploadExpiryHours : Nat

namespace AppConfig

def chunksDir (config : AppConfig) : Path := config.dataDir ++ [".chunks"]

end AppConfig

structure UploadResult where
  path : String
  size : Nat
  diskSize : Nat
  checksumSha256 : String
  mimeType : Option String
  deriving DecidableEq

structure DownloadResult where
  data : Bytes
  checksumSha256 : String
  mimeType : Option String
  filename : String
  deriving DecidableEq

namespace FsService

def libraryRoot (config : AppConfig) (libraryId : String) : Path :=
  config.dataDir ++ ["libraries", libraryId]

def spaceRoot (config : AppConfig) (spaceId : String) : Path := config.dataDir ++ ["spaces", spaceId]

def requireDataKey (unlockState : UnlockState) (libraryId : String) : Except AppError DataKey :=
  match unlockState.getLibraryKey libraryId with
  | some key => .ok key
  | none => .error .locked

def requireSpaceKey (unlockState : UnlockState) (spaceId : String) : Except AppError DataKey :=
  match unlockState.getSpaceKey spaceId with
  | some key => .ok key
  | none => .error .locked

def hexDigit (n : Nat) : Char := Nat.digitChar n

def hexEncode (bytes : Bytes) : String :=
  String.ofList (bytes.flatMap fun b => [hexDigit (b.toNat / 16), hexDigit (b.toNat % 16)])

def fileName (target : Path) : String := target.getLast?.getD ""

variable (P : Primitives) (mimeFromFilename : String → Option String)

/-- What every upload does before it writes: the key, the target, and the target's parent directory. -/
def prepareUpload (dataKey : Except AppError DataKey) (root : Path) (userPath : String) :
    FsProgram (DataKey × Path) := do
  if userPath = "" then Program.fail (.validation "File path must not be empty.")
  else
    let key ← Program.ofExcept dataKey
    let target ← safeJoin root userPath
    if target ≠ [] then
      createDirAll target.dropLast fun e =>
        .internal ("Failed to create parent directories: " ++ e.message)
      return (key, target)
    else return (key, target)

/-- Upload with owned plaintext, into the tree with this key and root. -/
def uploadOwned (dataKey : Except AppError DataKey) (root : Path) (nonce : FixedBytes 12)
    (userPath : String) (data : Bytes) (writeVerify : Bool) : FsProgram UploadResult := do
  let (key, target) ← prepareUpload dataKey root userPath
  let checksumHex := hexEncode (P.sha256 data).val
  match ← (encryptAndWriteFileOwned P key nonce data target writeVerify).outcome with
  | .ok () =>
      let diskMeta ← metadata target fun e => .internal ("Failed to stat written file: " ++ e.message)
      return { path := userPath, size := data.length, diskSize := diskMeta.len,
               checksumSha256 := checksumHex, mimeType := mimeFromFilename (fileName target) }
  | .error e =>
      -- A directory at the target is a conflict the user can resolve.
      match ← fsCall (.metadata target) with
      | .ok m =>
          if m.isDir then Program.fail (.conflict "A directory already exists at this path.")
          else Program.fail e
      | .error _ => Program.fail e

/-- Upload from chunk staging files, into the tree with this key and root. -/
def uploadStreaming (dataKey : Except AppError DataKey) (root : Path) (nonce : FixedBytes 7)
    (userPath : String) (chunkPaths : List Path) (totalPlaintextBytes : Nat) (writeVerify : Bool) :
    FsProgram UploadResult := do
  let (key, target) ← prepareUpload dataKey root userPath
  streamEncryptChunksToFile P key nonce chunkPaths totalPlaintextBytes target writeVerify
  let diskMeta ← metadata target fun e => .internal ("Failed to stat written file: " ++ e.message)
  return { path := userPath, size := totalPlaintextBytes, diskSize := diskMeta.len,
           checksumSha256 := "", mimeType := mimeFromFilename (fileName target) }

/-- Download from the tree with this key and root. -/
def download (dataKey : Except AppError DataKey) (root : Path) (userPath : String) :
    FsProgram DownloadResult := do
  if userPath = "" then Program.fail (.validation "File path must not be empty.")
  else
    let key ← Program.ofExcept dataKey
    let target ← safeJoin root userPath
    let m ← metadata target fun e =>
      if e.kind = .notFound then .notFound
      else .internal ("Cannot read file metadata: " ++ e.message)
    if m.isDir then
      Program.fail (.validation "The specified path is a directory, not a file.")
    else
      let plaintext ← readAndDecryptFile P key target
      return { data := plaintext, checksumSha256 := hexEncode (P.sha256 plaintext).val,
               mimeType := mimeFromFilename (fileName target), filename := fileName target }

/-- Make a directory, with its parents, in the tree with this root. One that is there already is fine. -/
def createDirectoryIn (root : Path) (userPath : String) : FsProgram String := do
  if userPath = "" then Program.fail (.validation "Directory path must not be empty.")
  else
    let target ← safeJoin root userPath
    match ← fsCall (.createDirAll target) with
    | .ok () => return userPath
    | .error e =>
        match ← fsCall (.metadata target) with
        | .ok m =>
            if ¬ m.isDir then Program.fail (.conflict "A file already exists at this path.")
            else return userPath
        | .error _ => Program.fail (.internal ("Failed to create directory: " ++ e.message))

variable (config : AppConfig) (unlockState : UnlockState)

def uploadFileOwned (libraryId : String) : FixedBytes 12 → String → Bytes → Bool →
    FsProgram UploadResult :=
  uploadOwned P mimeFromFilename (requireDataKey unlockState libraryId) (libraryRoot config libraryId)

def createDirectory (libraryId : String) : String → FsProgram String :=
  createDirectoryIn (libraryRoot config libraryId)

def createSpaceDirectory (spaceId : String) : String → FsProgram String :=
  createDirectoryIn (spaceRoot config spaceId)

def uploadSpaceFile (spaceId : String) : FixedBytes 12 → String → Bytes → Bool →
    FsProgram UploadResult :=
  uploadOwned P mimeFromFilename (requireSpaceKey unlockState spaceId) (spaceRoot config spaceId)

def uploadFileStreaming (libraryId : String) : FixedBytes 7 → String → List Path → Nat → Bool →
    FsProgram UploadResult :=
  uploadStreaming P mimeFromFilename (requireDataKey unlockState libraryId) (libraryRoot config libraryId)

def uploadSpaceFileStreaming (spaceId : String) : FixedBytes 7 → String → List Path → Nat → Bool →
    FsProgram UploadResult :=
  uploadStreaming P mimeFromFilename (requireSpaceKey unlockState spaceId) (spaceRoot config spaceId)

def downloadFile (libraryId : String) : String → FsProgram DownloadResult :=
  download P mimeFromFilename (requireDataKey unlockState libraryId) (libraryRoot config libraryId)

def downloadSpaceFile (spaceId : String) : String → FsProgram DownloadResult :=
  download P mimeFromFilename (requireSpaceKey unlockState spaceId) (spaceRoot config spaceId)

end FsService

end IronDrive
