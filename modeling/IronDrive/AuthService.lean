import IronDrive.ChunkService
import IronDrive.StoreCalls

/-! Accounts and login sessions: the queries of the user and session models, and the service over them. Of a
session the database holds the hash of its token and the second it expires at. -/

namespace IronDrive

open Lib PathSafety

/-- The functions of other crates that accounts need: hashing a password under a salt and checking it, writing
a date to the second and reading it back. -/
structure AuthCrates where
  hashPassword : Bytes → String → Except String String
  verifyPassword : String → String → Except String Bool
  formatTimestamp : Int → String
  parseTimestamp : String → Option Int

namespace User

structure CreateParams where
  username : String
  email : String
  passwordHash : String
  role : String
  quotaBytes : Int

/-- The row a new user is stored as. -/
def ofParams (drawn : Drawn) (params : CreateParams) : UserRow where
  user :=
    { id := drawn.id, username := params.username, email := params.email, role := params.role,
      quotaBytes := params.quotaBytes, isActive := true, setupComplete := false, createdAt := drawn.now,
      updatedAt := drawn.now }
  passwordHash := params.passwordHash

/-- Insert a new user. -/
def create (drawn : Drawn) (params : CreateParams) : ServiceProgram User := do
  -- Pre-check for friendly error messages; the unique columns catch races.
  if (← query (·.findUserByUsername params.username)).isSome then
    Program.fail (.conflict "A user with that username already exists.")
  else if (← query (·.findUserByEmail params.email)).isSome then
    Program.fail (.conflict "A user with that email already exists.")
  else
    insertOr "A user with that username or email already exists." (Db.insertUser (ofParams drawn params))
    Program.okOr (.internal "User was inserted but could not be read back")
      (← query (·.findUserById drawn.id))

end User

/-- Times are in nanoseconds; the database holds seconds. -/
abbrev nanos : Int := 10 ^ 9

namespace SessionRow

/-- An unreadable date counts as expired. -/
def isExpired (crates : AuthCrates) (now : Int) (row : SessionRow) : Bool :=
  match crates.parseTimestamp row.expiresAt with
  | some date => date * nanos ≤ now
  | none => true

/-- Insert a new session row and return it. -/
def create (crates : AuthCrates) (drawn : Drawn) (userId tokenHash : String) (expiresAt : Int) :
    ServiceProgram SessionRow := do
  let row : SessionRow :=
    { id := drawn.id, userId := userId, tokenHash := tokenHash,
      expiresAt := crates.formatTimestamp (expiresAt / nanos), createdAt := drawn.now }
  match ← execute (Db.insertSession row) with
  | .ok _ => return row
  | .error e => Program.fail (.sqlx e)

/-- Delete some sessions, and count them. -/
def delete (p : SessionRow → Bool) : ServiceProgram Nat := do
  Program.ofExcept ((← execute (Db.deleteSessions p)).mapError AppError.sqlx)

/-- Find by token hash and check expiry. Expired sessions are deleted. -/
def validate (crates : AuthCrates) (now : Int) (tokenHash : String) : ServiceProgram (Option SessionRow) := do
  match ← query (·.findSessionByTokenHash tokenHash) with
  | none => return none
  | some session =>
      if session.isExpired crates now then
        let _ ← (delete (·.id = session.id)).outcome
        return none
      else return some session

def deleteByUserAndToken (userId tokenHash : String) : ServiceProgram Bool := do
  let count ← delete fun row => row.userId = userId && row.tokenHash = tokenHash
  return 0 < count

/-- Delete all expired sessions. Returns the number removed. -/
def deleteExpired (crates : AuthCrates) (now : Int) : ServiceProgram Nat :=
  delete fun row => row.expiresAt ≤ crates.formatTimestamp (now / nanos)

end SessionRow

/-! ### The auth service -/

namespace AuthService

abbrev usernameMinLen : Nat := 3
abbrev usernameMaxLen : Nat := 32
abbrev passwordMinLen : Nat := 8
abbrev passwordMaxLen : Nat := 1024
abbrev emailMaxLen : Nat := 254

/-- Trim, validate length and charset, return normalized username. -/
@[irreducible] def normalizeUsername (username : String) : Except AppError String :=
  let trimmed := trim username.toList
  let len := (String.ofList trimmed).utf8ByteSize
  if len < usernameMinLen then
    .error (.validation ("Username must be at least " ++ toString usernameMinLen ++ " characters."))
  else if usernameMaxLen < len then
    .error (.validation ("Username must be at most " ++ toString usernameMaxLen ++ " characters."))
  else if ¬ trimmed.all fun c => c.isAlphanum || c = '-' || c = '_' then
    .error (.validation "Username may only contain letters, numbers, hyphens, and underscores.")
  else if (trimmed.head?.map Char.isAlphanum).getD true = false then
    .error (.validation "Username must start with a letter or number.")
  else .ok (String.ofList trimmed)

/-- Trim, validate structure, lowercase the whole address. -/
@[irreducible] def normalizeEmail (email : String) : Except AppError String :=
  let trimmed := trim email.toList
  let localPart := trimmed.takeWhile (· ≠ '@')
  let domain := (trimmed.dropWhile (· ≠ '@')).tail
  if trimmed = [] then .error (.validation "Email is required.")
  else if emailMaxLen < (String.ofList trimmed).utf8ByteSize then
    .error (.validation ("Email must be at most " ++ toString emailMaxLen ++ " characters."))
  else if localPart = [] ∨ domain = [] then .error (.validation "Email must be a valid email address.")
  else if '.' ∉ domain then .error (.validation "Email must be a valid email address.")
  else .ok (String.ofList (localPart.map Char.toLower ++ '@' :: domain.map Char.toLower))

@[irreducible] def validatePassword (password : String) : Except AppError Unit :=
  if password.utf8ByteSize < passwordMinLen then
    .error (.validation ("Password must be at least " ++ toString passwordMinLen ++ " characters."))
  else if passwordMaxLen < password.utf8ByteSize then
    .error (.validation ("Password must be at most " ++ toString passwordMaxLen ++ " characters."))
  else .ok ()

variable (crates : AuthCrates) (config : AppConfig)

/-- Register a new user. First user is auto-promoted to admin. -/
def register (drawn : Drawn) (salt : Bytes) (username email password : String) : ServiceProgram User := do
  let username ← Program.ofExcept (normalizeUsername username)
  let email ← Program.ofExcept (normalizeEmail email)
  Program.ofExcept (validatePassword password)
  let passwordHash ← Program.ofExcept ((crates.hashPassword salt password).mapError AppError.internal)
  let role := if ← query (·.noUsers) then "admin" else "user"
  User.create drawn { username := username, email := email, passwordHash := passwordHash, role := role,
                      quotaBytes := ChunkService.toI64 config.defaultQuotaBytes }

structure LoginResult where
  token : String
  setupComplete : Bool
  user : User

variable (P : Primitives)

/-- The hex digest of a raw session token. -/
def hashToken (token : String) : String := FsService.hexEncode (P.sha256 (utf8 token)).val

/-- Authenticate with username and password, return a session token; `rawToken` is the token drawn for it. -/
def login (drawn : Drawn) (now : Int) (rawToken username password : String) : ServiceProgram LoginResult := do
  let username ← Program.ofExcept (normalizeUsername username)
  let (userId, storedHash) ← Program.okOr .unauthorized (← query (·.getPasswordHash username))
  let isValid ← Program.ofExcept ((crates.verifyPassword password storedHash).mapError AppError.internal)
  if isValid = false then Program.fail .unauthorized
  else
    let user ← Program.okOr (.internal "User found by hash but not by ID") (← query (·.findUserById userId))
    if user.isActive = false then Program.fail .unauthorized
    else
      let expiresAt := now + 3600 * nanos * ChunkService.toI64 config.sessionExpiryHours
      let _ ← SessionRow.create crates drawn user.id (hashToken P rawToken) expiresAt
      return { token := rawToken, setupComplete := user.setupComplete, user := user }

/-- Destroy a single session by user and token hash. -/
def logout (userId sessionTokenHash : String) : ServiceProgram Unit := do
  let _ ← SessionRow.deleteByUserAndToken userId sessionTokenHash
  return ()

end AuthService

/-- Days since 1970-01-01 of the last day of 2024. -/
abbrev sampleEve : Int := 20088

/-- Passwords that are their own hashes, and the midnights of January 2025. -/
def sampleAuthCrates : AuthCrates where
  hashPassword _ password := .ok password
  verifyPassword password hash := .ok (password = hash)
  formatTimestamp seconds :=
    let day := (seconds / 86400 - sampleEve).toNat
    "2025-01-" ++ (if day < 10 then "0" else "") ++ toString day ++ " 00:00:00"
  parseTimestamp text :=
    match text.toList.drop 8 with
    | tens :: ones :: _ => some ((sampleEve + (10 * (tens.toNat - 48) + (ones.toNat - 48))) * 86400)
    | _ => none

end IronDrive
