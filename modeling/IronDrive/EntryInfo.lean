import Mathlib.Data.List.Sort
import IronDrive.ChunkService

/-! Listings of directories and the entries in them. An entry's size is computed from its length on disk, as if it
had been written in one piece. -/

namespace IronDrive

open Lib PathSafety CryptoService ChunkService

/-- A single filesystem entry as returned by list and info operations. -/
structure FsEntry where
  name : String
  path : String
  isDir : Bool
  size : Option Nat
  diskSize : Option Nat
  mimeType : Option String
  modified : Option String
  integrity : Option String
  deriving DecidableEq

/-- A point in time: the seconds from the epoch on, negative before it, and the nanoseconds after them. -/
structure SystemTime where
  secs : Int
  nanos : Nat
  secs_i64 : -2 ^ 63 ≤ secs ∧ secs < 2 ^ 63
  nanos_lt : nanos < 10 ^ 9

/-- The whole seconds since the epoch; a time before it counts as the epoch. -/
def SystemTime.sinceEpoch (t : SystemTime) : Nat := t.secs.toNat

/-- What is said of an entry beside its tree: the guess of a MIME type, the Unicode lower case of a name, and the
time of the last modification, where the filesystem keeps it. -/
structure EntryFacts where
  mimeFromFilename : String → Option String
  toLowercase : String → String
  modified : Path → Option SystemTime

namespace FsService

def internalMetaFilename : String := ".irondrive.meta"

def isInternalFile (name : String) : Bool := name = internalMetaFilename

/-- Magic, nonce, tag and hash of a file written in one piece. -/
def encryptionOverhead : Nat := 3 + 12 + 16 + 32

def plaintextSizeFromDisk (diskSize : Nat) : Nat := diskSize - encryptionOverhead

def relativeDisplayPath (root full : Path) : String :=
  let text := if root <+: full then "/".intercalate (full.drop root.length) else "/" ++ "/".intercalate full
  String.ofList (text.toList.map fun c => if c = '\\' then '/' else c)

def padded (width n : Nat) : String :=
  let digits := Nat.toDigits 10 n
  String.ofList (List.replicate (width - digits.length) '0' ++ digits)

/-- Convert days since the epoch to year, month and day. -/
def daysToYmd (days : Nat) : Nat × Nat × Nat :=
  let z := toI64 days + 719468
  let era := (if 0 ≤ z then z else z - 146096).tdiv 146097
  let doe := toU64 (z - era * 146097)
  let yoe := (doe - doe / 1460 + doe / 36524 - doe / 146096) / 365
  let y := toI64 yoe + era * 400
  let doy := doe - (365 * yoe + yoe / 4 - yoe / 100)
  let mp := (5 * doy + 2) / 153
  let d := doy - (153 * mp + 2) / 5 + 1
  let m := if mp < 10 then mp + 3 else mp - 9
  let y := if m ≤ 2 then y + 1 else y
  (toU64 (max y 0), m, d)

def formatSystemTime (t : SystemTime) : String :=
  let secs := t.sinceEpoch
  let timeOfDay := secs % 86400
  let (year, month, day) := daysToYmd (secs / 86400)
  padded 4 year ++ "-" ++ padded 2 month ++ "-" ++ padded 2 day ++ "T" ++ padded 2 (timeOfDay / 3600) ++ ":" ++
    padded 2 (timeOfDay % 3600 / 60) ++ ":" ++ padded 2 (timeOfDay % 60) ++ "Z"

def formatIntegrityStatus : IntegrityStatus → String
  | .ok => "ok"
  | .fileHashMismatch => "file_hash_mismatch"
  | .decryptionFailed message => "decryption_failed: " ++ message

variable (P : Primitives) (facts : EntryFacts)

/-- The integrity of an entry, when it is asked for. -/
def checkEntry (dataKey : Option DataKey) (checkIntegrity : Bool) (isDir : Bool) (path : Path) :
    FsProgram (Option String) := do
  if checkIntegrity && !isDir then
    let status ← verifyFileIntegrityAsync P dataKey path
    return some (formatIntegrityStatus status)
  else return none

/-- The entry at a path, given its metadata. -/
def describeEntry (dataKey : Option DataKey) (checkIntegrity : Bool) (canonicalRoot path : Path) (name : String)
    (m : Metadata) : FsProgram FsEntry := do
  let integrity ← checkEntry P dataKey checkIntegrity m.isDir path
  return { name := name, path := relativeDisplayPath canonicalRoot path, isDir := m.isDir,
           size := if m.isDir then none else some (plaintextSizeFromDisk m.len),
           diskSize := if m.isDir then none else some m.len,
           mimeType := if m.isDir then none else facts.mimeFromFilename name,
           modified := (facts.modified path).map formatSystemTime, integrity := integrity }

/-- A listing passes over the internal files and everything that starts with a dot. -/
def isHidden (name : String) : Bool := isInternalFile name || name.toList.head? = some '.'

def listNames (dataKey : Option DataKey) (checkIntegrity : Bool) (canonicalRoot target : Path) :
    List String → FsProgram (List FsEntry)
  | [] => return []
  | name :: names => do
      if isHidden name then listNames dataKey checkIntegrity canonicalRoot target names
      else
        let m ← attempt (fun e => .internal ("Cannot read metadata for '" ++ name ++ "': " ++ e.message))
          (← fsCall (.symlinkMetadata (target ++ [name])))
        let entry ← describeEntry P facts dataKey checkIntegrity canonicalRoot (target ++ [name]) name m
        let entries ← listNames dataKey checkIntegrity canonicalRoot target names
        return entry :: entries

/-- Directories first, then by the lower case of the names. -/
def entryLe (a b : FsEntry) : Bool :=
  if a.isDir = b.isDir then facts.toLowercase a.name ≤ facts.toLowercase b.name else a.isDir

/-- The canonical root and the path asked for; the empty path is the root itself. -/
def resolveTarget (root : Path) (userPath : String) : FsProgram (Path × Path) := do
  let canonicalRoot ← attempt (fun e => .internal ("Cannot resolve path: " ++ e.message))
    (← fsCall (.canonicalize root))
  if userPath = "" then return (canonicalRoot, canonicalRoot)
  else
    let target ← safeJoin root userPath
    return (canonicalRoot, target)

/-- List a directory of the tree with this root. -/
def listEntries (dataKey : Option DataKey) (root : Path) (userPath : String) (checkIntegrity : Bool) :
    FsProgram (List FsEntry) := do
  let (canonicalRoot, target) ← resolveTarget root userPath
  let m ← metadata target fun e =>
    if e.kind = .notFound then .notFound else .internal ("Cannot read directory metadata: " ++ e.message)
  if !m.isDir then Program.fail (.validation "The specified path is not a directory.")
  else
    let (names, stopped) ← attempt (fun e => .internal ("Cannot read directory: " ++ e.message))
      (← fsCall (.readDir target))
    let entries ← listNames P facts dataKey checkIntegrity canonicalRoot target names
    match stopped with
    | some e => Program.fail (.internal ("Error reading directory entry: " ++ e.message))
    | none => return entries.insertionSort fun a b => entryLe facts a b

/-- A single file or directory of the tree with this root. -/
def entryInfo (dataKey : Option DataKey) (root : Path) (userPath : String) (checkIntegrity : Bool) :
    FsProgram FsEntry := do
  let (canonicalRoot, target) ← resolveTarget root userPath
  let m ← metadata target fun e =>
    if e.kind = .notFound then .notFound else .internal ("Cannot read entry metadata: " ++ e.message)
  describeEntry P facts dataKey checkIntegrity canonicalRoot target (fileName target) m

variable (config : AppConfig) (unlockState : UnlockState)

def listDirectory (libraryId : String) : String → Bool → FsProgram (List FsEntry) :=
  listEntries P facts (unlockState.getLibraryKey libraryId) (libraryRoot config libraryId)

def listSpaceDirectory (spaceId : String) : String → Bool → FsProgram (List FsEntry) :=
  listEntries P facts (unlockState.getSpaceKey spaceId) (spaceRoot config spaceId)

def getEntryInfo (libraryId : String) : String → Bool → FsProgram FsEntry :=
  entryInfo P facts (unlockState.getLibraryKey libraryId) (libraryRoot config libraryId)

def getSpaceEntryInfo (spaceId : String) : String → Bool → FsProgram FsEntry :=
  entryInfo P facts (unlockState.getSpaceKey spaceId) (spaceRoot config spaceId)

end FsService

end IronDrive
