import IronDrive.LibFileTree

/-! The errors of the services: what the filesystem and the database report, and the application error
that wraps them. -/

namespace IronDrive

open Lib

/-- An error of a filesystem call: its kind and the text it displays. -/
structure IoError where
  kind : IoErrorKind
  message : String
  deriving DecidableEq

/-- The error the filesystem itself answers with, under the system's text for it. -/
def IoError.ofKind (kind : IoErrorKind) : IoError where
  kind := kind
  message := match kind with
    | .notFound => "No such file or directory (os error 2)"
    | .alreadyExists => "File exists (os error 17)"
    | .notADirectory => "Not a directory (os error 20)"
    | .isADirectory => "Is a directory (os error 21)"
    | .filesystemLoop => "Too many levels of symbolic links (os error 40)"
    | .unexpectedEof => "early eof"
    | .other => "Input/output error (os error 5)"

/-- An error of a database statement, by the text it displays. -/
structure SqlError where
  message : String
  deriving DecidableEq

inductive AppError
  | notFound
  | unauthorized
  | forbidden
  | conflict (message : String)
  | quotaExceeded
  | locked
  | recoveryNotAvailable
  | validation (message : String)
  | badPassphrase
  | internal (message : String)
  | sqlx (error : SqlError)
  | io (error : IoError)
  deriving DecidableEq

/-- The text of an error, as it is formatted into other messages and logs. -/
def AppError.display : AppError → String
  | .notFound => "not found"
  | .unauthorized => "unauthorized"
  | .forbidden => "forbidden"
  | .conflict message => "conflict: " ++ message
  | .quotaExceeded => "quota exceeded"
  | .locked => "library/space is locked — unlock first"
  | .recoveryNotAvailable => "recovery not available for this encryption mode"
  | .validation message => "validation error: " ++ message
  | .badPassphrase => "incorrect passphrase"
  | .internal message => "internal error: " ++ message
  | .sqlx error => error.message
  | .io error => error.message

/-- The HTTP status an error is answered with. -/
def AppError.status : AppError → Nat
  | .notFound => 404
  | .unauthorized => 401
  | .forbidden => 403
  | .conflict _ => 409
  | .quotaExceeded => 413
  | .locked => 423
  | .recoveryNotAvailable => 422
  | .validation _ => 400
  | .badPassphrase => 401
  | .internal _ => 500
  | .sqlx _ => 500
  | .io _ => 500

end IronDrive
