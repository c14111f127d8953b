import IronDrive.EntryCalls
import IronDrive.EntryInfo

/-! The walkers over a directory tree: disk usage and the background scan, which keep a stack of directories still
to be read, and a client that lists every directory it is shown. How many directories a walk may read is bounded
by an argument; `none` says that the bound was too low. -/

namespace IronDrive

open Lib FileTree PathSafety CryptoService

structure UsageResult where
  diskBytes : Nat
  fileCount : Nat
  dirCount : Nat
  deriving DecidableEq

/-- A row of `integrity_events`. -/
structure IntegrityEvent where
  id : String
  targetType : String
  targetId : String
  filePath : String
  eventType : String
  details : Option String
  detectedBy : String
  acknowledged : Nat
  createdAt : String
  deriving DecidableEq

structure ScanResult where
  filesScanned : Nat
  failuresFound : Nat
  deriving DecidableEq

def u64Max : Nat := 2 ^ 64 - 1

/-- `u64::saturating_add` -/
def saturatingAdd (a b : Nat) : Nat := min (a + b) u64Max

def Metadata.isFile (m : Metadata) : Bool := m.fileType = .file

section Walk

variable {S : Signature} {σ : Type} (call : (op : FsCall) → Program S AppError op.Answer) (onDir : σ → σ)
  (onFile : Path → Metadata → σ → Program S AppError σ)

/-- The entries of one directory: hidden and unreadable ones are passed over, directories go on the stack. -/
def walkNames (dir : Path) : List String → List Path → σ → Program S AppError (List Path × σ)
  | [], stack, acc => return (stack, acc)
  | name :: names, stack, acc => do
      if FsService.isHidden name then walkNames dir names stack acc
      else
        match ← call (.symlinkMetadata (dir ++ [name])) with
        | .error _ => walkNames dir names stack acc
        | .ok m =>
            if m.isDir then walkNames dir names ((dir ++ [name]) :: stack) (onDir acc)
            else if m.isFile then do
              let acc ← onFile (dir ++ [name]) m acc
              walkNames dir names stack acc
            else walkNames dir names stack acc

/-- Read the directories on the stack until it is empty, at most as many as `fuel`. -/
def walkTree : Nat → List Path → σ → Program S AppError (Option σ)
  | _, [], acc => return some acc
  | 0, _ :: _, _ => return none
  | fuel + 1, dir :: stack, acc => do
      match ← call (.readDir dir) with
      | .error _ => walkTree fuel stack acc
      -- An error in the midst of a listing ends it like its last entry.
      | .ok (names, _) =>
          let (stack, acc) ← walkNames call onDir onFile dir names stack acc
          walkTree fuel stack acc

end Walk

namespace FsService

def countDir (usage : UsageResult) : UsageResult := { usage with dirCount := saturatingAdd usage.dirCount 1 }

def countFile (usage : UsageResult) (len : Nat) : UsageResult :=
  { usage with fileCount := saturatingAdd usage.fileCount 1, diskBytes := saturatingAdd usage.diskBytes len }

/-- The usage of what is at a path of the tree with this root. -/
def usageIn (fuel : Nat) (root : Path) (userPath : String) : FsProgram (Option UsageResult) := do
  let target ← if userPath = "" then canonicalizeAsync root else safeJoin root userPath
  let m ← metadata target fun e =>
    if e.kind = .notFound then .notFound else .internal ("Cannot read entry metadata: " ++ e.message)
  if !m.isDir then return some ⟨m.len, 1, 0⟩
  else walkTree fsCall countDir (fun _ m usage => return countFile usage m.len) fuel [target] ⟨0, 0, 0⟩

def calculateUsage (fuel : Nat) (config : AppConfig) (libraryId : String) :
    String → FsProgram (Option UsageResult) := usageIn fuel (libraryRoot config libraryId)

def calculateSpaceUsage (fuel : Nat) (config : AppConfig) (spaceId : String) :
    String → FsProgram (Option UsageResult) := usageIn fuel (spaceRoot config spaceId)

end FsService

/-- The insertion of an event, as its statement binds it. -/
structure EventInsert where
  targetType : String
  targetId : String
  filePath : String
  eventType : String
  details : Option String
  detectedBy : String

abbrev eventSignature : Signature := ⟨EventInsert, fun _ => Except SqlError IntegrityEvent⟩

/-- What is drawn for one insertion: the new id, the time, and the error the database reports, if any. -/
structure EventDraw where
  id : String
  createdAt : String
  fault : Option String

/-- The rows of `integrity_events`, and the number of insertions tried so far. -/
structure EventLog where
  rows : List IntegrityEvent
  tick : Nat

/-- The handler of insertions. The ids are a primary key. -/
def eventHandler (draws : Nat → EventDraw) : Handler eventSignature EventLog := fun insert log =>
  match (draws log.tick).fault with
  | some message => (.error ⟨message⟩, ⟨log.rows, log.tick + 1⟩)
  | none =>
      let event : IntegrityEvent :=
        { id := (draws log.tick).id, targetType := insert.targetType, targetId := insert.targetId,
          filePath := insert.filePath, eventType := insert.eventType, details := insert.details,
          detectedBy := insert.detectedBy, acknowledged := 0, createdAt := (draws log.tick).createdAt }
      if event.id ∈ log.rows.map IntegrityEvent.id then
        (.error ⟨"UNIQUE constraint failed: integrity_events.id"⟩, ⟨log.rows, log.tick + 1⟩)
      else (.ok event, ⟨log.rows ++ [event], log.tick + 1⟩)

abbrev scanSignature : Signature := fsSignature.sum eventSignature

abbrev ScanProgram (α : Type) : Type := Program scanSignature AppError α

/-- A call of the file API during a scan. -/
def scanCall (op : FsCall) : ScanProgram op.Answer := (fsCall op).inl

namespace IntegrityService

variable (P : Primitives)

def recordEvent (insert : EventInsert) : ScanProgram (Except SqlError IntegrityEvent) :=
  Program.ask (S := scanSignature) (.inr insert)

def relativePath (root full : Path) : String := FsService.relativeDisplayPath root full

/-- The text has the other in it. -/
def contains (message text : String) : Bool := text.toList <:+: message.toList

/-- Verify one file and record a failure. That the record cannot be written is only logged. -/
def scanFile (targetType targetId : String) (root : Path) (dataKey : Option DataKey) (filePath : Path)
    (scan : ScanResult) : ScanProgram ScanResult := do
  let status ← (verifyFileIntegrityAsync P dataKey filePath).inl
  let scanned := { scan with filesScanned := (scan.filesScanned + 1) % 2 ^ 64 }
  let failed := { scanned with failuresFound := (scanned.failuresFound + 1) % 2 ^ 64 }
  match status with
  | .ok => return scanned
  | .fileHashMismatch =>
      let _ ← recordEvent ⟨targetType, targetId, relativePath root filePath, "checksum_mismatch",
        some "File hash mismatch detected during background scan", "background_scan"⟩
      return failed
  | .decryptionFailed message =>
      let eventType := if contains message "truncated" || contains message "too small" then "file_truncated"
        else "decrypt_failed"
      let _ ← recordEvent ⟨targetType, targetId, relativePath root filePath, eventType, some message,
        "background_scan"⟩
      return failed

def scanDirectory (fuel : Nat) (targetType targetId : String) (root start : Path) (dataKey : Option DataKey) :
    ScanProgram (Option ScanResult) :=
  walkTree scanCall id (fun path _ scan => scanFile P targetType targetId root dataKey path scan) fuel [start]
    ⟨0, 0⟩

variable (config : AppConfig) (unlockState : UnlockState)

def scanLibrary (fuel : Nat) (libraryId : String) : ScanProgram (Option ScanResult) :=
  scanDirectory P fuel "library" libraryId (FsService.libraryRoot config libraryId)
    (FsService.libraryRoot config libraryId) (unlockState.getLibraryKey libraryId)

def scanSpace (fuel : Nat) (spaceId : String) : ScanProgram (Option ScanResult) :=
  scanDirectory P fuel "space" spaceId (FsService.spaceRoot config spaceId) (FsService.spaceRoot config spaceId)
    (unlockState.getSpaceKey spaceId)

end IntegrityService

/-! ### Listing after listing -/

/-- The entries of a listing, each directory with what is listed in it. -/
def listEach (list : String → FsProgram (Option (List FsEntry))) : List FsEntry → FsProgram (Option (List FsEntry))
  | [] => return some []
  | entry :: entries => do
      let inside ← if entry.isDir then list entry.path else pure (some [])
      let rest ← listEach list entries
      return do
        let inside ← inside
        let rest ← rest
        some (entry :: inside ++ rest)

/-- What a client gets that lists a path and then, in turn, each directory it is shown, `fuel` levels deep. -/
def listRecursively (list : String → FsProgram (List FsEntry)) : Nat → String → FsProgram (Option (List FsEntry))
  | 0, _ => return none
  | fuel + 1, userPath => do
      let entries ← list userPath
      listEach (listRecursively list fuel) entries

end IronDrive
