import IronDrive.ChunkService

/-! Chunked downloads: a signed token that names a user and a file, and the chunks served against it. JSON,
base64 and the message authentication code are crates'. Times are in nanoseconds; a token holds seconds. -/

namespace IronDrive

open Lib PathSafety FsService

/-! ### Hexadecimal -/

def hexValue (c : Char) : Option Nat :=
  if '0' ≤ c ∧ c ≤ '9' then some (c.toNat - '0'.toNat)
  else if 'a' ≤ c ∧ c ≤ 'f' then some (c.toNat - 'a'.toNat + 10)
  else if 'A' ≤ c ∧ c ≤ 'F' then some (c.toNat - 'A'.toNat + 10)
  else none

/-- Two digits of either case a byte. -/
def hexDecode : List Char → Option Bytes
  | [] => some []
  | [_] => none
  | high :: low :: rest =>
      (hexValue high).bind fun high => (hexValue low).bind fun low =>
        (hexDecode rest).map fun bytes => UInt8.ofNat (16 * high + low) :: bytes

namespace ChunkService

abbrev downloadTokenVersion : String := "v1"
abbrev downloadTokenTtlMinutes : Int := 10

abbrev defaultTargetType : String := "library"

structure DownloadTokenPayload where
  v : String
  uid : String
  lib : String
  path : String
  exp : Int
  nonce : String
  typ : String
  deriving DecidableEq

/-- The fields found in a payload's JSON; the type may be missing. -/
structure TokenFields where
  v : String
  uid : String
  lib : String
  path : String
  exp : Int
  nonce : String
  typ : Option String
  deriving DecidableEq

def TokenFields.payload (fields : TokenFields) : DownloadTokenPayload where
  v := fields.v
  uid := fields.uid
  lib := fields.lib
  path := fields.path
  exp := fields.exp
  nonce := fields.nonce
  typ := fields.typ.getD defaultTargetType

def DownloadTokenPayload.fields (payload : DownloadTokenPayload) : TokenFields where
  v := payload.v
  uid := payload.uid
  lib := payload.lib
  path := payload.path
  exp := payload.exp
  nonce := payload.nonce
  typ := some payload.typ

/-- The functions of other crates that tokens need: a message authentication code under a key, and the two
encodings. -/
structure TokenCrates where
  hmac : Bytes → Except String (Bytes → Bytes)
  toJson : DownloadTokenPayload → Except String Bytes
  fromJson : Bytes → Option TokenFields
  base64Encode : Bytes → String
  base64Decode : String → Option Bytes

/-- The whole seconds of a time. -/
def timestamp (now : Int) : Int := now / 10 ^ 9

variable (crates : Crates) (tokens : TokenCrates)

def signPayload (secretKey payloadB64 : String) : Except AppError String := do
  let mac ← (tokens.hmac (utf8 secretKey)).mapError fun e => .internal ("Failed to initialize HMAC signer: " ++ e)
  return hexEncode (mac (utf8 payloadB64))

/-- The payload of a new token; `nonce` is the UUID drawn for it. -/
def newPayload (now : Int) (nonce userId targetId targetType path : String) : DownloadTokenPayload where
  v := downloadTokenVersion
  uid := userId
  lib := targetId
  path := path
  exp := timestamp (now + 60 * 10 ^ 9 * downloadTokenTtlMinutes)
  nonce := nonce
  typ := targetType

/-- The token, and the date it expires at. -/
def buildDownloadToken (secretKey : String) (now : Int) (nonce userId targetId targetType path : String) :
    Except AppError (String × String) := do
  let payload := newPayload now nonce userId targetId targetType path
  let payloadJson ← (tokens.toJson payload).mapError fun e =>
    .internal ("Failed to serialize token payload: " ++ e)
  let payloadB64 := tokens.base64Encode payloadJson
  let sig ← signPayload tokens secretKey payloadB64
  return (payloadB64 ++ "." ++ sig, crates.formatTimestamp payload.exp)

/-- What stands before and after the first dot. -/
def splitToken (token : String) : Option (String × String) :=
  match token.toList.dropWhile (· ≠ '.') with
  | [] => none
  | _ :: sig => some (String.ofList (token.toList.takeWhile (· ≠ '.')), String.ofList sig)

def validated {α : Type} (message : String) (value : Option α) : Except AppError α :=
  value.elim (.error (.validation message)) .ok

def verifyDownloadToken (secretKey : String) (now : Int) (token : String) :
    Except AppError DownloadTokenPayload := do
  let (payloadB64, sig) ← validated "Invalid download token." (splitToken token)
  let providedSig ← validated "Invalid download token signature." (hexDecode (normalizeHex sig))
  let mac ← (tokens.hmac (utf8 secretKey)).mapError fun e =>
    .internal ("Failed to initialize HMAC verifier: " ++ e)
  if mac (utf8 payloadB64) ≠ providedSig then .error (.validation "Invalid download token signature.")
  else
    let payloadBytes ← validated "Invalid download token payload." (tokens.base64Decode payloadB64)
    let fields ← validated "Invalid download token payload." (tokens.fromJson payloadBytes)
    let payload := fields.payload
    if payload.v ≠ downloadTokenVersion then .error (.validation "Unsupported download token version.")
    else if payload.exp ≤ timestamp now then .error (.validation "Download token expired.")
    else return payload

structure InitDownloadResult where
  token : String
  filename : String
  mimeType : Option String
  chunkSizeBytes : Nat
  totalChunks : Nat
  totalBytes : Nat
  expiresAt : String
  deriving DecidableEq

structure ChunkDownloadResult where
  data : Bytes
  mimeType : Option String
  checksumSha256 : String
  chunkIndex : Nat
  totalChunks : Nat
  totalBytes : Nat
  deriving DecidableEq

variable (config : AppConfig) (P : Primitives) (unlockState : UnlockState)

/-- The download from a space or a library. -/
def downloadTarget (targetType targetId : String) : String → FsProgram DownloadResult :=
  if targetType = "space" then downloadSpaceFile P crates.mimeFromFilename config unlockState targetId
  else downloadFile P crates.mimeFromFilename config unlockState targetId

/-- Read the whole file once, and give out a token for its chunks. -/
def initDownload (now : Int) (nonce userId targetId targetType path : String) : FsProgram InitDownloadResult := do
  let download ← downloadTarget crates config P unlockState targetType targetId path
  let totalBytes := download.data.length
  let totalChunks := expectedTotalChunks (max totalBytes 1) config.chunkSizeBytes
  let (token, expiresAt) ← Program.ofExcept
    (buildDownloadToken crates tokens config.secretKey now nonce userId targetId targetType path)
  return { token := token, filename := download.filename, mimeType := download.mimeType,
           chunkSizeBytes := config.chunkSizeBytes, totalChunks := totalChunks, totalBytes := totalBytes,
           expiresAt := expiresAt }

/-- Serve one chunk of the file that the token names, to the user it names. -/
def serveChunk (now : Int) (userId token : String) (chunkIndex : Nat) : FsProgram ChunkDownloadResult := do
  let payload ← Program.ofExcept (verifyDownloadToken tokens config.secretKey now token)
  if payload.uid ≠ userId then Program.fail .forbidden
  else
    let download ← downloadTarget crates config P unlockState payload.typ payload.lib payload.path
    let totalBytes := download.data.length
    let totalChunks := expectedTotalChunks (max totalBytes 1) config.chunkSizeBytes
    if totalChunks ≤ chunkIndex then Program.fail (.validation "chunk_index out of range.")
    else
      let start := min (chunkIndex * config.chunkSizeBytes) u64Max
      let chunk := slice download.data start (min (start + config.chunkSizeBytes) totalBytes)
      return { data := chunk, mimeType := download.mimeType, checksumSha256 := download.checksumSha256,
               chunkIndex := chunkIndex, totalChunks := totalChunks, totalBytes := totalBytes }

end ChunkService

end IronDrive
