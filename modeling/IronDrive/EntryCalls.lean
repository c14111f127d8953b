import IronDrive.LibSubtree
import IronDrive.PathGrammar
import IronDrive.FsService

/-! Renaming and deleting entries of libraries and spaces. The two calls that move or unlink a single entry
stand beside those of the file API, on the same disk. -/

namespace IronDrive

open Lib FileTree PathSafety

inductive EntryCall
  | rename (source dest : Path)
  | removeFile (path : Path)

namespace EntryCall

def Answer : EntryCall → Type := fun _ => Except IoError Unit

/-- Carry out one call on a tree. Either happens or leaves the tree alone. -/
def perform (choice : Choice) : EntryCall → FileTree → Except IoError Unit × FileTree
  | rename source dest, t =>
      match choice.guard (t.renameTo source dest) with
      | .ok t' => (.ok (), t')
      | .error error => (.error error, t)
  | removeFile path, t =>
      match choice.guard (t.unlinkPlace path) with
      | .ok place => (.ok (), t.removeAll place)
      | .error error => (.error error, t)

end EntryCall

abbrev entrySignature : Signature := fsSignature.sum ⟨EntryCall, EntryCall.Answer⟩

abbrev EntryProgram (α : Type) : Type := Program entrySignature AppError α

/-- The handler of both kinds of calls, on one disk. -/
def entryHandler (oracle : Nat → Choice) : Handler entrySignature Disk
  | .inl op, disk => fsHandler oracle op disk
  | .inr op, disk =>
      ((op.perform (oracle disk.tick) disk.tree).1, ⟨(op.perform (oracle disk.tick) disk.tree).2, disk.tick + 1⟩)

/-- How a call may change a tree when the operating system's choices are in `G`. -/
def EntryPerforms (G : Choice → Prop) : (op : entrySignature.Op) → FileTree → entrySignature.Answer op →
    FileTree → Prop
  | .inl op, t, answer, t' => Performs G op t answer t'
  | .inr op, t, answer, t' => ∃ choice, G choice ∧ op.perform choice t = (answer, t')

abbrev EntryQuietly : (op : entrySignature.Op) → FileTree → entrySignature.Answer op → FileTree → Prop :=
  EntryPerforms Choice.Quiet

/-- A program of the file API beside the entry calls. -/
def amongEntries {α : Type} (program : FsProgram α) : EntryProgram α := program.inl

def entryCall (op : EntryCall) (onError : IoError → AppError) : EntryProgram Unit := do
  match ← (Program.ask (S := entrySignature) (.inr op) : EntryProgram (Except IoError Unit)) with
  | .ok () => return ()
  | .error e => Program.fail (onError e)

namespace FsService

structure RenameResult where
  oldPath : String
  newPath : String
  deriving DecidableEq

def canonicalizeAsync (path : Path) : FsProgram Path := do
  attempt (fun e => .internal ("Cannot resolve path: " ++ e.message)) (← fsCall (.canonicalize path))

/-- `try_exists(path).unwrap_or(false)` -/
def existsOrFalse (path : Path) : FsProgram Bool := do
  match ← fsCall (.tryExists path) with
  | .ok found => return found
  | .error _ => return false

/-- Delete an entry of the tree with this root, recursively. -/
def deleteIn (kind : String) (root : Path) (userPath : String) : EntryProgram Unit := do
  if userPath = "" then Program.fail (.validation ("Cannot delete the " ++ kind ++ " root."))
  else
    let target ← amongEntries (safeJoin root userPath)
    let m ← amongEntries (metadata target fun e =>
      if e.kind = .notFound then .notFound else .internal ("Cannot read entry metadata: " ++ e.message))
    let canonicalRoot ← amongEntries (canonicalizeAsync root)
    let canonicalTarget ← amongEntries (canonicalizeAsync target)
    if ¬ canonicalRoot <+: canonicalTarget ∨ canonicalTarget = canonicalRoot then
      Program.fail (.validation ("Path escapes the " ++ kind ++ " root."))
    else if m.isDir then
      amongEntries do
        attempt (fun e => .internal ("Failed to remove directory: " ++ e.message))
          (← fsCall (.removeDirAll target))
    else entryCall (.removeFile target) fun e => .internal ("Failed to remove file: " ++ e.message)

/-- Rename or move an entry within the tree with this root. -/
def renameIn (kind : String) (root : Path) (oldPath newPath : String) : EntryProgram RenameResult := do
  if oldPath = "" then Program.fail (.validation ("Cannot rename the " ++ kind ++ " root."))
  else if newPath = "" then Program.fail (.validation "New path must not be empty.")
  else
    let source ← amongEntries (safeJoin root oldPath)
    let dest ← amongEntries (safeJoin root newPath)
    if ¬ (← amongEntries (existsOrFalse source)) then Program.fail .notFound
    else if ← amongEntries (existsOrFalse dest) then
      Program.fail (.conflict "An entry already exists at the destination path.")
    else
      -- The root directory has no parent.
      if dest ≠ [] then
        amongEntries (createDirAll dest.dropLast fun e =>
          .internal ("Failed to create destination parent directories: " ++ e.message))
        entryCall (.rename source dest) fun e => .internal ("Failed to rename entry: " ++ e.message)
        return ⟨oldPath, newPath⟩
      else
        entryCall (.rename source dest) fun e => .internal ("Failed to rename entry: " ++ e.message)
        return ⟨oldPath, newPath⟩

variable (config : AppConfig)

def deleteEntry (libraryId : String) : String → EntryProgram Unit :=
  deleteIn "library" (libraryRoot config libraryId)

def deleteSpaceEntry (spaceId : String) : String → EntryProgram Unit :=
  deleteIn "space" (spaceRoot config spaceId)

def renameEntry (libraryId : String) : String → String → EntryProgram RenameResult :=
  renameIn "library" (libraryRoot config libraryId)

def renameSpaceEntry (spaceId : String) : String → String → EntryProgram RenameResult :=
  renameIn "space" (spaceRoot config spaceId)

end FsService

end IronDrive
