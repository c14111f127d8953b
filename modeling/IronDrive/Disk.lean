import IronDrive.Errors
import IronDrive.LibProgram

/-! The filesystem the services run on. Each call of the async file API is one operation; a service is a
program over them, so every run of it, every failure point and every interleaving of several services is a
run of programs against the handler below. An oracle decides, call by call, whether the operating system
reports an error and how far a short read or a failing call gets. -/

namespace IronDrive

open Lib

inductive FileType
  | dir
  | file
  | symlink
  deriving DecidableEq

structure Metadata where
  fileType : FileType
  len : Nat
  deriving DecidableEq

namespace Metadata

def isDir (m : Metadata) : Bool := m.fileType = .dir

def isSymlink (m : Metadata) : Bool := m.fileType = .symlink

def ofNode : Node → Metadata
  | .dir => ⟨.dir, 4096⟩
  | .file content => ⟨.file, content.length⟩
  | .symlink _ target => ⟨.symlink, ("/".intercalate target).utf8ByteSize⟩

end Metadata

/-- The calls. An open file is known by the place it was opened at, as if no file were removed while it is
open; runs in which some are have a handler of their own. The caller keeps the cursor, and passes it as an offset. -/
inductive FsCall
  | canonicalize (path : Path)
  | symlinkMetadata (path : Path)
  | metadata (path : Path)
  | tryExists (path : Path)
  | readDir (path : Path)
  | createDirAll (path : Path)
  | removeDirAll (path : Path)
  | create (path : Path)
  | createNew (path : Path)
  | openFile (path : Path)
  | readFile (path : Path)
  | fileMetadata (place : Path)
  | read (place : Path) (offset limit : Nat)
  | readExact (place : Path) (offset count : Nat)
  | writeAll (place : Path) (offset : Nat) (data : Bytes)
  | flush (place : Path)
  | syncData (place : Path)

namespace FsCall

def Answer : FsCall → Type
  | canonicalize _ => Except IoError Path
  | symlinkMetadata _ | metadata _ | fileMetadata _ => Except IoError Metadata
  | tryExists _ => Except IoError Bool
  -- The names a listing yields before it ends or fails.
  | readDir _ => Except IoError (List String × Option IoError)
  | createDirAll _ | removeDirAll _ | writeAll _ _ _ | flush _ | syncData _ => Except IoError Unit
  | create _ | createNew _ | openFile _ => Except IoError Path
  | readFile _ | read _ _ _ | readExact _ _ _ => Except IoError Bytes

/-- The calls that never change the tree. -/
def ReadOnly : FsCall → Prop
  | createDirAll _ | removeDirAll _ | create _ | createNew _ | writeAll _ _ _ => False
  | _ => True

end FsCall

abbrev fsSignature : Signature := ⟨FsCall, FsCall.Answer⟩

/-- What the operating system decides about one call: the error it reports, if any, and an amount that
bounds a short read and the part of a failing call that is carried out. -/
structure Choice where
  fault : Option String
  amount : Nat

namespace Choice

/-- The call does not fail for a reason outside the tree. -/
def Quiet (choice : Choice) : Prop := choice.fault = none

def guard {α : Type} (choice : Choice) (result : Except IoErrorKind α) : Except IoError α :=
  match choice.fault with
  | some message => .error ⟨.other, message⟩
  | none => result.mapError IoError.ofKind

end Choice

namespace FsCall

/-- The node a path leads to, links followed. -/
def stat (t : FileTree) (path : Path) : Except IoErrorKind Metadata := do
  match t.node (← t.locate path) with
  | some n => return Metadata.ofNode n
  | none => throw .notFound

def lstat (t : FileTree) (path : Path) : Except IoErrorKind Metadata := do
  match t.node (← t.locateEntry path) with
  | some n => return Metadata.ofNode n
  | none => throw .notFound

def exists? (t : FileTree) (path : Path) : Except IoErrorKind Bool :=
  match stat t path with
  | .ok _ => .ok true
  | .error .notFound => .ok false
  | .error kind => .error kind

/-- The bytes of an open file from an offset on. -/
def rest (t : FileTree) (place : Path) (offset : Nat) : Except IoErrorKind Bytes :=
  match t.node place with
  | some (.file content) => .ok (content.drop offset)
  | some _ => .error .isADirectory
  | none => .ok []

/-- A read returns nothing only at the end of the file. -/
def readSome (choice : Choice) (limit : Nat) (bytes : Bytes) : Bytes :=
  bytes.take (min limit (choice.amount + 1))

def readWhole (count : Nat) (bytes : Bytes) : Except IoErrorKind Bytes :=
  if count ≤ bytes.length then .ok (bytes.take count) else .error .unexpectedEof

def listDir (t : FileTree) (path : Path) : Except IoErrorKind (List String) := do
  let place ← t.locate path
  match t.node place with
  | some .dir => return t.children place
  | some _ => throw .notADirectory
  | none => throw .notFound

/-- What `remove_dir_all` removes: the directory with its contents, or the link itself. -/
def removalPlace (t : FileTree) (path : Path) : Except IoErrorKind Path := do
  let place ← t.locateEntry path
  match t.node place with
  | some (.file _) => throw .notADirectory
  | some _ => return place
  | none => throw .notFound

/-- Carry out one call on a tree. -/
def perform (choice : Choice) : (op : FsCall) → FileTree → op.Answer × FileTree
  | canonicalize path, t => (choice.guard (t.canonicalize path), t)
  | symlinkMetadata path, t => (choice.guard (lstat t path), t)
  | metadata path, t => (choice.guard (stat t path), t)
  | tryExists path, t => (choice.guard (exists? t path), t)
  | readDir path, t =>
      match listDir t path, choice.fault with
      | .error kind, none => (.error (IoError.ofKind kind), t)
      | .error _, some message => (.error ⟨.other, message⟩, t)
      | .ok names, none => (.ok (names, none), t)
      | .ok names, some message =>
          -- The listing fails when it is opened, or at one of its entries.
          (if choice.amount = 0 then .error ⟨.other, message⟩
            else .ok (names.take (choice.amount - 1), some ⟨.other, message⟩), t)
  | createDirAll path, t =>
      match choice.fault with
      | some message =>
          (.error ⟨.other, message⟩, ((t.createDirs [] (path.take choice.amount)).toOption).getD t)
      | none =>
          match t.createDirs [] path with
          | .ok t' => (.ok (), t')
          | .error kind => (.error (IoError.ofKind kind), t)
  | removeDirAll path, t =>
      match removalPlace t path, choice.fault with
      | .error kind, none => (.error (IoError.ofKind kind), t)
      | .error _, some message => (.error ⟨.other, message⟩, t)
      | .ok place, none => (.ok (), t.removeAll place)
      | .ok place, some message =>
          (.error ⟨.other, message⟩,
            ((t.children place).take choice.amount).foldl (fun t name => t.removeAll (place ++ [name])) t)
  | create path, t =>
      match choice.guard (t.createPlace path) with
      | .ok place => (.ok place, t.put place (.file []))
      | .error error => (.error error, t)
  | createNew path, t =>
      match choice.guard (t.createNewPlace path) with
      | .ok place => (.ok place, t.put place (.file []))
      | .error error => (.error error, t)
  | openFile path, t => (choice.guard ((t.canonicalize path)), t)
  | readFile path, t => (choice.guard ((t.fileAt path).map Prod.snd), t)
  | fileMetadata place, t =>
      (choice.guard (.ok (((t.node place).map Metadata.ofNode).getD ⟨.file, 0⟩)), t)
  | read place offset limit, t => (choice.guard ((rest t place offset).map (readSome choice limit)), t)
  | readExact place offset count, t =>
      (choice.guard ((rest t place offset).bind (readWhole count)), t)
  | writeAll place offset data, t =>
      let written := if choice.fault = none then data else data.take choice.amount
      (choice.guard (.ok ()),
        match t.node place with
        | some (.file content) => t.put place (.file (writeAt content offset written))
        | _ => t)
  | flush _, t | syncData _, t => (choice.guard (.ok ()), t)

end FsCall

/-- The disk: a tree, and the number of calls made so far. -/
structure Disk where
  tree : FileTree
  tick : Nat

/-- The handler of filesystem calls under an oracle. -/
def fsHandler (oracle : Nat → Choice) : Handler fsSignature Disk := fun op disk =>
  ((FsCall.perform (oracle disk.tick) op disk.tree).1,
    ⟨(FsCall.perform (oracle disk.tick) op disk.tree).2, disk.tick + 1⟩)

/-- How a call may change a tree when the operating system's choices are in `P`. -/
def Performs (P : Choice → Prop) (op : FsCall) (t : FileTree) (answer : op.Answer) (t' : FileTree) :
    Prop :=
  ∃ choice, P choice ∧ op.perform choice t = (answer, t')

/-- Every choice of the oracle is quiet. -/
def QuietOracle (oracle : Nat → Choice) : Prop := ∀ tick, (oracle tick).Quiet

end IronDrive
