import IronDrive.CryptoPrimitives
import IronDrive.DiskCalls

/-! The crypto service: the two writers of encrypted files, the two readers, and the integrity checker.
A nonce that the code draws from the system's generator is an argument here. -/

namespace IronDrive

open Lib

namespace CryptoService

abbrev nonceLen : Nat := 12
abbrev tagLen : Nat := 16
/-- Buffer size for streaming SHA-256 reads. -/
abbrev hashBufSize : Nat := 64 * 1024
/-- Identifies a STREAM-encrypted file on disk. -/
def streamMagic : Bytes := [0x49, 0x44, 0x02]
abbrev streamNonceLen : Nat := 7
abbrev streamSegmentHeaderLen : Nat := 4
/-- Identifies a single-shot encrypted file on disk. -/
def singleMagic : Bytes := [0x49, 0x44, 0x01]
abbrev fileHashLen : Nat := 32
abbrev magicLen : Nat := 3
abbrev minSingleFileLen : Nat := magicLen + nonceLen + tagLen + fileHashLen
abbrev minStreamFileLen : Nat := magicLen + streamNonceLen + fileHashLen

/-- The text of an AEAD failure. -/
def aeadError : String := "aead::Error"

def fileHashMismatchMessage : String := "File hash mismatch — data on disk may be corrupted"

variable (P : Primitives)

/-- Encrypt plaintext and return the on-disk format: magic, nonce, ciphertext and tag, file hash. -/
def encryptFileBytes (dataKey : DataKey) (nonce : FixedBytes 12) (plaintext : Bytes) :
    Except AppError Bytes :=
  match P.encrypt dataKey nonce plaintext with
  | none => .error (.internal ("File encryption failed: " ++ aeadError))
  | some ciphertextAndTag =>
      let blob := singleMagic ++ nonce.val ++ ciphertextAndTag
      .ok (blob ++ (P.sha256 blob).val)

inductive DecryptOutcome
  | ok (plaintext : Bytes)
  | decryptionFailed (message : String)
  | fileHashMismatch

def decryptFileBytesInner (dataKey : DataKey) (blob : Bytes) : DecryptOutcome :=
  if blob.length < minSingleFileLen then
    .decryptionFailed ("Encrypted file too small (" ++ toString blob.length ++ " bytes, minimum " ++
      toString minSingleFileLen ++ ")")
  else if slice blob 0 magicLen ≠ singleMagic then
    .decryptionFailed "Not a single-shot encrypted file (bad magic bytes)"
  else
    let content := slice blob 0 (blob.length - fileHashLen)
    let storedHash := slice blob (blob.length - fileHashLen) blob.length
    if (P.sha256 content).val ≠ storedHash then .fileHashMismatch
    else
      let nonce := fixedBytes 12 (slice content magicLen (magicLen + nonceLen))
      let ciphertextAndTag := content.drop (magicLen + nonceLen)
      match P.decrypt dataKey nonce ciphertextAndTag with
      | some plaintext => .ok plaintext
      | none => .decryptionFailed "File decryption failed — wrong key or tampered ciphertext"

def decryptFileBytes (dataKey : DataKey) (blob : Bytes) : Except AppError Bytes :=
  match decryptFileBytesInner P dataKey blob with
  | .ok plaintext => .ok plaintext
  | .fileHashMismatch => .error (.internal fileHashMismatchMessage)
  | .decryptionFailed message => .error (.internal message)

inductive IntegrityStatus
  | ok
  | fileHashMismatch
  | decryptionFailed (message : String)
  deriving DecidableEq

def verifyFileIntegrity (dataKey : DataKey) (blob : Bytes) : IntegrityStatus :=
  match decryptFileBytesInner P dataKey blob with
  | .ok _ => .ok
  | .fileHashMismatch => .fileHashMismatch
  | .decryptionFailed message => .decryptionFailed message

def tooSmallMessage (len : Nat) : String :=
  "File too small for integrity check (" ++ toString len ++ " bytes, need at least " ++
    toString (magicLen + fileHashLen) ++ ")"

/-- Hash all but the last 32 bytes and compare with those. -/
def verifyFileHashBytes (blob : Bytes) : Except AppError Unit :=
  if blob.length < magicLen + fileHashLen then .error (.internal (tooSmallMessage blob.length))
  else
    let content := slice blob 0 (blob.length - fileHashLen)
    let storedHash := slice blob (blob.length - fileHashLen) blob.length
    if (P.sha256 content).val ≠ storedHash then .error (.internal fileHashMismatchMessage)
    else .ok ()

/-- The hashing loop of `verifyFileHash`: read until the content is hashed, however short the reads. -/
def hashContent (file : OpenFile) (remaining : Nat) (hasher : Bytes) : FsProgram (Bytes × OpenFile) :=
  if remaining = 0 then .done (hasher, file)
  else
    (file.read (min remaining hashBufSize) fun e =>
      .internal ("Failed to read file for integrity check: " ++ e.message)).bind fun (bytes, file) =>
    if bytes.length = 0 then .fail (.internal "Unexpected EOF during integrity check")
    else hashContent file (remaining - bytes.length) (hasher ++ bytes)
termination_by remaining

/-- The same check as `verifyFileHashBytes`, streaming from disk. -/
def verifyFileHash (path : Path) : FsProgram Unit := do
  let m ← metadata path fun e =>
    .internal ("Failed to stat file for integrity check: " ++ e.message)
  let fileLen := m.len
  if fileLen < magicLen + fileHashLen then
    Program.fail (.internal (tooSmallMessage fileLen))
  else
    let contentLen := fileLen - fileHashLen
    let file ← openFile path fun e =>
      .internal ("Failed to open file for integrity check: " ++ e.message)
    let (hashed, file) ← hashContent file contentLen []
    let (storedHash, _) ← file.readExact fileHashLen fun e =>
      .internal ("Failed to read file hash tail: " ++ e.message)
    if (P.sha256 hashed).val ≠ storedHash then Program.fail (.internal fileHashMismatchMessage)
    else return ()

/-- Encrypt owned plaintext in place and write the encrypted payload to disk. -/
def encryptAndWriteFileOwned (dataKey : DataKey) (nonce : FixedBytes 12) (plaintext : Bytes) (dest : Path)
    (writeVerify : Bool) : FsProgram Unit := do
  let (ciphertext, tag) ← Program.okOr (.internal ("File encryption failed: " ++ aeadError))
    (P.encryptDetached dataKey nonce plaintext)
  let file ← createFile dest fun e => .internal ("Failed to write encrypted file: " ++ e.message)
  let file ← file.writeAll singleMagic fun e =>
    .internal ("Failed to write encrypted file magic: " ++ e.message)
  let file ← file.writeAll nonce.val fun e =>
    .internal ("Failed to write encrypted file nonce: " ++ e.message)
  let file ← file.writeAll ciphertext fun e =>
    .internal ("Failed to write encrypted file body: " ++ e.message)
  let file ← file.writeAll tag.val fun e =>
    .internal ("Failed to write encrypted file tag: " ++ e.message)
  let fileHash := P.sha256 (singleMagic ++ nonce.val ++ ciphertext ++ tag.val)
  let file ← file.writeAll fileHash.val fun e =>
    .internal ("Failed to write encrypted file hash: " ++ e.message)
  file.flush fun e => .internal ("Failed to flush encrypted file: " ++ e.message)
  file.syncData fun e => .internal ("Failed to sync encrypted file to disk: " ++ e.message)
  if writeVerify then
    match ← (verifyFileHash P dest).outcome with
    | .error e => Program.fail (.internal ("Write-verify failed: " ++ e.display))
    | .ok () =>
        let readback ← readFile dest fun e =>
          .internal ("Write-verify: failed to read back file: " ++ e.message)
        let _ ← Program.ofExcept (decryptFileBytes P dataKey readback)
        return ()
  else return ()

/-- What the loop of `streamEncryptChunksToFile` carries from one chunk to the next. -/
structure StreamWriter where
  out : OpenFile
  hasher : Bytes
  encryptor : EncryptorBE32
  bytesRead : Nat

/-- Read, encrypt and write the chunks from index `index` on; the last one closes the stream. -/
def streamChunks : (chunkPaths : List Path) → (index : Nat) → StreamWriter → FsProgram StreamWriter
  | [], _, w => .done w
  | path :: paths, index, w => do
      let buffer ← readFile path fun _ => .validation ("Missing chunk " ++ toString index ++ ".")
      let (sealed, encryptor) ←
        if paths = [] then
          (Program.okOr (.internal ("STREAM encrypt last segment failed: " ++ aeadError))
            ((w.encryptor.encryptLast P buffer).map fun sealed => (sealed, w.encryptor)) :
              FsProgram (Bytes × EncryptorBE32))
        else
          Program.okOr (.internal ("STREAM encrypt segment " ++ toString index ++ " failed: " ++ aeadError))
            (w.encryptor.encryptNext P buffer)
      let segLenBytes := le32 sealed.length
      let out ← w.out.writeAll segLenBytes fun e =>
        .internal ("Failed to write segment header: " ++ e.message)
      let out ← out.writeAll sealed fun e => .internal ("Failed to write segment body: " ++ e.message)
      streamChunks paths (index + 1)
        { out := out, hasher := w.hasher ++ segLenBytes ++ sealed, encryptor := encryptor,
          bytesRead := w.bytesRead + buffer.length }

/-- Encrypt ordered chunk files into a single STREAM-format file on disk. -/
def streamEncryptChunksToFile (dataKey : DataKey) (streamNonce : FixedBytes 7) (chunkPaths : List Path)
    (totalPlaintextBytes : Nat) (dest : Path) (writeVerify : Bool) : FsProgram Unit := do
  let out ← createFile dest fun e => .internal ("Failed to create encrypted file: " ++ e.message)
  let out ← out.writeAll streamMagic fun e => .internal ("Failed to write STREAM magic: " ++ e.message)
  let out ← out.writeAll streamNonce.val fun e =>
    .internal ("Failed to write STREAM nonce: " ++ e.message)
  let w ← streamChunks P chunkPaths 0
    { out := out, hasher := streamMagic ++ streamNonce.val,
      encryptor := EncryptorBE32.new dataKey streamNonce, bytesRead := 0 }
  if w.bytesRead ≠ totalPlaintextBytes then
    Program.fail (.internal ("Chunk size mismatch: expected " ++ toString totalPlaintextBytes ++
      " bytes, read " ++ toString w.bytesRead))
  else
    let out ← w.out.writeAll (P.sha256 w.hasher).val fun e =>
      .internal ("Failed to write file hash: " ++ e.message)
    out.flush fun e => .internal ("Failed to flush encrypted file: " ++ e.message)
    out.syncData fun e => .internal ("Failed to sync encrypted file to disk: " ++ e.message)
    if writeVerify then verifyFileHash P dest else return ()

/-! ### The readers -/

/-- Decrypt the pending segment as one that is not the last. -/
def decryptPending (message : String) (pending : Option Bytes) (decryptor : DecryptorBE32)
    (plaintext : Bytes) : Except AppError (DecryptorBE32 × Bytes) :=
  match pending with
  | none => .ok (decryptor, plaintext)
  | some segment =>
      match decryptor.decryptNext P segment with
      | some (opened, decryptor) => .ok (decryptor, plaintext ++ opened)
      | none => .error (.internal message)

/-- Decrypt the segment still pending when the segments end. -/
def decryptFinal (message : String) (pending : Option Bytes) (decryptor : DecryptorBE32)
    (plaintext : Bytes) : Except AppError Bytes :=
  match pending with
  | none => .ok plaintext
  | some segment =>
      match decryptor.decryptLast P segment with
      | some opened => .ok (plaintext ++ opened)
      | none => .error (.internal message)

def decryptMessage : String := "STREAM decrypt segment failed — wrong key or tampered data"

def decryptLastMessage : String := "STREAM decrypt last segment failed — wrong key or tampered data"

/-- The segment loop of `streamDecryptFileInner`, with one segment of lookahead. -/
def streamDecryptLoop (raw : Bytes) (segmentsEnd pos : Nat) (pending : Option Bytes)
    (decryptor : DecryptorBE32) (plaintext : Bytes) : Except AppError Bytes :=
  if pos < segmentsEnd then
    if pos + streamSegmentHeaderLen > segmentsEnd then
      .error (.internal "STREAM file truncated inside segment header")
    else
      let segLen := ofLe32 (slice raw pos (pos + 4))
      let start := pos + streamSegmentHeaderLen
      if start + segLen > segmentsEnd then
        .error (.internal "STREAM file truncated inside segment body")
      else
        (decryptPending P decryptMessage pending decryptor plaintext).bind fun (decryptor, plaintext) =>
        streamDecryptLoop raw segmentsEnd (start + segLen) (some (slice raw start (start + segLen)))
          decryptor plaintext
  else
    decryptFinal P decryptLastMessage pending decryptor plaintext
termination_by segmentsEnd - pos
decreasing_by simp only [streamSegmentHeaderLen]; omega

/-- What `streamDecryptFileInner` does with the bytes it has read. -/
def streamDecryptBytes (dataKey : DataKey) (raw : Bytes) : Except AppError Bytes :=
  if raw.length < minStreamFileLen then
    .error (.internal "STREAM file too small to contain header + file hash")
  else do
    verifyFileHashBytes P raw
    if slice raw 0 magicLen ≠ streamMagic then
      throw (.internal "STREAM file has wrong magic bytes")
    let streamNonce := fixedBytes 7 (slice raw magicLen (magicLen + streamNonceLen))
    streamDecryptLoop P raw (raw.length - fileHashLen) (magicLen + streamNonceLen) none
      (DecryptorBE32.new dataKey streamNonce) []

/-- Read and decrypt a STREAM-encrypted file, returning all plaintext. -/
def streamDecryptFile (dataKey : DataKey) (path : Path) : FsProgram Bytes := do
  let raw ← readFile path fun e => .internal ("Failed to read STREAM encrypted file: " ++ e.message)
  Program.ofExcept (streamDecryptBytes P dataKey raw)

def verifyMessage : String := "STREAM verify: decrypt segment failed"

def verifyLastMessage : String := "STREAM verify: decrypt last segment failed"

/-- The segment loop of `streamVerifyDecryption`; it reads on from the file's cursor. -/
def streamVerifyLoop (file : OpenFile) (segmentsEnd pos : Nat) (pending : Option Bytes)
    (decryptor : DecryptorBE32) : FsProgram (Option Bytes × DecryptorBE32) :=
  if pos < segmentsEnd then
    (file.readExact streamSegmentHeaderLen fun e =>
      .internal ("STREAM verify: truncated segment header: " ++ e.message)).bind fun (segLenBuf, file) =>
    (file.readExact (ofLe32 segLenBuf) fun e =>
      .internal ("STREAM verify: truncated segment body: " ++ e.message)).bind fun (segData, file) =>
    (Program.ofExcept (decryptPending P verifyMessage pending decryptor [])).bind fun (decryptor, _) =>
    streamVerifyLoop file segmentsEnd (pos + 4 + ofLe32 segLenBuf) (some segData) decryptor
  else .done (pending, decryptor)
termination_by segmentsEnd - pos

/-- Verify a STREAM file's tags without keeping the plaintext. -/
def streamVerifyDecryption (dataKey : DataKey) (path : Path) : FsProgram Unit := do
  let file ← openFile path fun e => .internal ("Failed to open STREAM file for verify: " ++ e.message)
  let m ← file.metadata fun e => .internal ("Failed to stat STREAM file: " ++ e.message)
  let fileLen := m.len
  verifyFileHash P path
  let file ← openFile path fun e => .internal ("Failed to re-open STREAM file: " ++ e.message)
  let (header, file) ← file.readExact (magicLen + streamNonceLen) fun _ =>
    .internal "STREAM file too small to contain header"
  if slice header 0 magicLen ≠ streamMagic then
    Program.fail (.internal "STREAM file has wrong magic bytes")
  else
    let streamNonce := fixedBytes 7 (slice header magicLen (magicLen + streamNonceLen))
    let (pending, decryptor) ← streamVerifyLoop P file (fileLen - fileHashLen) (magicLen + streamNonceLen)
      none (DecryptorBE32.new dataKey streamNonce)
    let _ ← Program.ofExcept (decryptFinal P verifyLastMessage pending decryptor [])
    return ()

/-- Check whether a file on disk uses the STREAM format. -/
def isStreamFormat (path : Path) : FsProgram Bool := do
  match ← fsCall (.openFile path) with
  | .error _ => return false
  | .ok place =>
      match ← fsCall (.readExact place 0 3) with
      | .error _ => return false
      | .ok magic => return magic = streamMagic

/-- Verify the integrity of any encrypted file: the file hash first, then, with a key, every tag. -/
def verifyFileIntegrityAsync (dataKey : Option DataKey) (path : Path) : FsProgram IntegrityStatus := do
  match ← (verifyFileHash P path).outcome with
  | .error _ => return .fileHashMismatch
  | .ok () =>
      match dataKey with
      | none => return .ok
      | some key =>
          if ← isStreamFormat path then
            match ← (streamVerifyDecryption P key path).outcome with
            | .ok () => return .ok
            | .error e => return .decryptionFailed e.display
          else
            match ← fsCall (.readFile path) with
            | .ok blob => return verifyFileIntegrity P key blob
            | .error e => return .decryptionFailed ("read error: " ++ e.message)

/-- Read and decrypt any encrypted file. -/
def readAndDecryptFile (dataKey : DataKey) (path : Path) : FsProgram Bytes := do
  if ← isStreamFormat path then streamDecryptFile P dataKey path
  else
    let blob ← readFile path fun e => .internal ("Failed to read encrypted file: " ++ e.message)
    Program.ofExcept (decryptFileBytes P dataKey blob)

end CryptoService

end IronDrive
