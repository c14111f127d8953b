import IronDrive.DiskCalls

/-! Joining a user path to a root: the component rules, and the walk that resolves every existing
component and appends the rest. -/

namespace IronDrive

open Lib FileTree

namespace PathSafety

abbrev maxComponentBytes : Nat := 255
abbrev maxPathBytes : Nat := 4096
abbrev maxDepth : Nat := 128

/-- The code points with the Unicode property `White_Space`. -/
def isWhitespace (c : Char) : Bool :=
  let n := c.toNat
  (9 ≤ n && n ≤ 13) || n = 0x20 || n = 0x85 || n = 0xA0 || n = 0x1680 || (0x2000 ≤ n && n ≤ 0x200A) ||
    n = 0x2028 || n = 0x2029 || n = 0x202F || n = 0x205F || n = 0x3000

def trim (chars : List Char) : List Char :=
  ((chars.dropWhile isWhitespace).reverse.dropWhile isWhitespace).reverse

/-- The control bytes below `0x20` and `0x7F` occur in UTF-8 only as the characters themselves. -/
def isControl (c : Char) : Bool := c.toNat < 0x20 || c.toNat = 0x7F

def isSeparator (c : Char) : Bool := c = '/' || c = '\\'

/-- Validate a single path component. -/
def validateComponent (component : String) : Except AppError Unit :=
  let chars := component.toList
  if chars = [] then
    .error (.validation "Path contains empty components (double slashes or trailing slash).")
  else if maxComponentBytes < component.utf8ByteSize then
    .error (.validation ("Path component exceeds maximum length of " ++ toString maxComponentBytes ++
      " bytes."))
  else if '\x00' ∈ chars then .error (.validation "Path contains null bytes.")
  else if chars.any isControl then .error (.validation "Path contains control characters.")
  else if component = "." then .error (.validation "Path contains '.' component.")
  else if component = ".." then .error (.validation "Path traversal ('..') is not allowed.")
  else if chars.head? = some '.' then
    .error (.validation "Dot-prefixed path components are not allowed.")
  else if chars ≠ trim chars then
    .error (.validation "Path component has leading or trailing whitespace.")
  else if chars.all isWhitespace then .error (.validation "Path component is whitespace-only.")
  else .ok ()

def validateComponents : List String → Except AppError Unit
  | [] => .ok ()
  | component :: rest => do
      validateComponent component
      validateComponents rest

/-- Split on both separators. -/
def splitComponents (userPath : String) : List String :=
  (userPath.toList.splitOnP isSeparator).map String.ofList

/-- The checks on the user path before the filesystem is touched. -/
def parseUserPath (userPath : String) : Except AppError (List String) :=
  let chars := userPath.toList
  if chars = [] then .error (.validation "Path must not be empty.")
  else if maxPathBytes < userPath.utf8ByteSize then
    .error (.validation ("Path exceeds maximum length of " ++ toString maxPathBytes ++ " bytes."))
  else if chars.head? = some '/' ∨ chars.head? = some '\\' ∨ ':' ∈ chars then
    .error (.validation "Absolute paths are not allowed.")
  else
    let components := splitComponents userPath
    if maxDepth < components.length then
      .error (.validation ("Path exceeds maximum nesting depth of " ++ toString maxDepth ++ "."))
    else do
      validateComponents components
      return components

/-- Walk the components from `current`, a resolved path under the root. -/
def walkComponents (canonicalRoot : Path) : (current : Path) → List String → FsProgram Path
  | current, [] => .done current
  | current, component :: remaining => do
      match ← fsCall (.symlinkMetadata (current ++ [component])) with
      | .ok m =>
          let resolved ← attempt (fun e => .validation ("Cannot resolve path component: " ++ e.message))
            (← fsCall (.canonicalize (current ++ [component])))
          if ¬ canonicalRoot <+: resolved then
            Program.fail (.validation (if m.isSymlink then "Path escapes the root directory via symlink."
              else "Path escapes the root directory."))
          else walkComponents canonicalRoot resolved remaining
      | .error e =>
          -- What does not exist yet is appended as it stands: its components were validated.
          if e.kind = .notFound then return current ++ [component] ++ remaining
          else Program.fail (.validation ("Cannot read metadata for path component: " ++ e.message))

/-- Returns a safe path within `root`. -/
def safeJoin (root : Path) (userPath : String) : FsProgram Path := do
  let components ← Program.ofExcept (parseUserPath userPath)
  let canonicalRoot ← attempt (fun e => .validation ("Root path cannot be resolved: " ++ e.message))
    (← fsCall (.canonicalize root))
  let current ← walkComponents canonicalRoot canonicalRoot components
  if ¬ canonicalRoot <+: current then
    Program.fail (.validation "Path escapes the root directory.")
  else return current

end PathSafety

end IronDrive
