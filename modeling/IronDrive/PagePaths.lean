import Mathlib.Data.List.DropRight
import IronDrive.PathGrammar

/-! The path helpers of the pages. They split a path on `/` alone, while `safeJoin` splits it on `\` too, so
the name that a move keeps and the directory that a rename stays in are those of the resolved entry exactly
when no `\` follows the last `/`. -/

namespace IronDrive

open Lib FileTree PathSafety

def trimMatches (p : Char → Bool) (chars : List Char) : List Char :=
  ((chars.dropWhile p).reverse.dropWhile p).reverse

def normalizeDirPath (path : String) : String :=
  String.ofList (trimMatches (· = '/') (trim path.toList))

/-- The piece after the last `/`. -/
def fileNameFromPath (path : String) : String :=
  ((path.toList.splitOnP (· = '/')).getLast?.map String.ofList).getD ""

def joinDirAndName (dir name : String) : String :=
  if dir = "" then name else dir ++ "/" ++ name

/-- The destination that `move_submit` and `bulk_move` hand to the rename, unless they reject the source. -/
def moveDestination (oldPath targetDir : String) : Option String :=
  if fileNameFromPath oldPath = "" then none
  else some (joinDirAndName (normalizeDirPath targetDir) (fileNameFromPath oldPath))

/-- The names in a path. The empty pieces between its separators name nothing. -/
def pathNames (chars : List Char) : List String :=
  ((chars.splitOnP isSeparator).filter (· ≠ [])).map String.ofList

end IronDrive
