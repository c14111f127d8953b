import IronDrive.DownloadRoutes
import IronDrive.LoginSessions

/-! The guards in front of the handlers: whom a request is from, by its bearer token or by its cookie, and whether that
account is set up. A guard answers by what the rows say; it changes none, except that it deletes a session which has
expired. -/

namespace IronDrive

open Lib PathSafety

/-- What a guard turns a request away with: the status of the answer, and the error. -/
structure Rejection where
  status : Nat
  error : AppError

namespace AuthGuard

abbrev tokenMinLen : Nat := 32
abbrev tokenMaxLen : Nat := 512

/-- The token in the value of an `Authorization` header, which is cut at its first blank. -/
def extractBearerToken (authorization : Option String) : Option String :=
  match authorization with
  | none => none
  | some value =>
      let trimmed := trim value.toList
      let scheme := trimmed.takeWhile fun c => !isWhitespace c
      let rest := (trimmed.dropWhile fun c => !isWhitespace c).tail
      if scheme.map Char.toLower ≠ "bearer".toList then none
      else
        let token := trim rest
        if token = [] then none else some (String.ofList token)

/-- A sane length, and safe characters only. -/
def isValidTokenFormat (token : String) : Bool :=
  decide (tokenMinLen ≤ token.utf8ByteSize) && decide (token.utf8ByteSize ≤ tokenMaxLen) && token.toList.all fun c =>
    c.isAlphanum || c = '-' || c = '_' || c = '.' || c = '+' || c = '/' || c = '='

def unauthorized : Rejection := ⟨401, .unauthorized⟩

def forbidden : Rejection := ⟨403, .forbidden⟩

def failed (message : String) : Rejection := ⟨500, .internal message⟩

section

variable (crates : AuthCrates) (P : Primitives) (now : Int)

/-- The active user of the session that a token belongs to. A session whose user is gone is removed. -/
def userOfToken (token : String) : ServiceProgram (Except Rejection User) :=
  if isValidTokenFormat token = false then return .error unauthorized
  else do
    match ← (SessionRow.validate crates now (AuthService.hashToken P token)).outcome with
    | .error _ => return .error (failed "Session validation failed")
    | .ok none => return .error unauthorized
    | .ok (some session) => do
        match ← (query (·.findUserById session.userId)).outcome with
        | .error _ => return .error (failed "User lookup failed")
        | .ok none => do
            let _ ← (SessionRow.delete fun row => row.id = session.id).outcome
            return .error unauthorized
        | .ok (some user) => if user.isActive = false then return .error forbidden else return .ok user

/-- The guard `AuthenticatedUser`. -/
def authenticatedUser (authorization : Option String) : ServiceProgram (Except Rejection User) :=
  match extractBearerToken authorization with
  | none => return .error unauthorized
  | some token => userOfToken crates P now token

end

end AuthGuard

namespace SessionGuard

/-- The token in the cookie of a session. -/
def extractCookieToken (cookie : Option String) : Option String :=
  match cookie with
  | none => none
  | some value =>
      let token := trim value.toList
      if token = [] then none else some (String.ofList token)

variable (crates : AuthCrates) (P : Primitives) (now : Int)

/-- The guard `SessionUser`. -/
def validateSessionCookie (cookie : Option String) : ServiceProgram (Except Rejection User) :=
  match extractCookieToken cookie with
  | none => return .error AuthGuard.unauthorized
  | some token => AuthGuard.userOfToken crates P now token

end SessionGuard

/-- What a request shows for a session: the header of the API, or the cookie of the pages. -/
inductive Credentials
  | bearer (authorization : Option String)
  | cookie (value : Option String)

namespace Credentials

def token : Credentials → Option String
  | bearer authorization => AuthGuard.extractBearerToken authorization
  | cookie value => SessionGuard.extractCookieToken value

/-- How a guard refuses an account that is not set up. -/
def unfinished : Credentials → Rejection
  | bearer _ => ⟨403, .validation "Setup is not complete. Please complete library setup first."⟩
  | cookie _ => ⟨403, .validation "Setup not complete."⟩

variable (crates : AuthCrates) (P : Primitives) (now : Int)

/-- Whose session it is. -/
def user : Credentials → ServiceProgram (Except Rejection User)
  | bearer authorization => AuthGuard.authenticatedUser crates P now authorization
  | cookie value => SessionGuard.validateSessionCookie crates P now value

/-- The guards `SetupComplete` and `SessionSetupComplete`. -/
def setupComplete (credentials : Credentials) : ServiceProgram (Except Rejection User) := do
  match ← credentials.user crates P now with
  | .error rejection => return .error rejection
  | .ok user => if user.setupComplete = false then return .error credentials.unfinished else return .ok user

end Credentials

/-! ### What the rows say -/

/-- Whom a token stands for. -/
def Db.tokenUser (db : Db) (crates : AuthCrates) (P : Primitives) (now : Int) (token : String) :
    Except Rejection User :=
  if AuthGuard.isValidTokenFormat token = false then .error AuthGuard.unauthorized
  else
    match (SessionRow.current crates now (AuthService.hashToken P token) db).bind fun row =>
        db.findUserById row.userId with
    | none => .error AuthGuard.unauthorized
    | some user => if user.isActive = false then .error AuthGuard.forbidden else .ok user

/-- Whom the credentials stand for, if the account is set up. -/
def Db.setupUser (db : Db) (crates : AuthCrates) (P : Primitives) (now : Int) (credentials : Credentials) :
    Except Rejection User :=
  match credentials.token with
  | none => .error AuthGuard.unauthorized
  | some token =>
      match db.tokenUser crates P now token with
      | .error rejection => .error rejection
      | .ok user => if user.setupComplete = false then .error credentials.unfinished else .ok user

/-- The rows without some of the sessions. -/
def Db.dropSessions (db : Db) (p : SessionRow → Bool) : Db := (db.execute (Db.deleteSessions p)).2

/-- The rows once a token was looked up: its session is gone if it has expired. -/
def Db.lapse (db : Db) (crates : AuthCrates) (now : Int) (tokenHash : String) : Db :=
  match db.findSessionByTokenHash tokenHash with
  | none => db
  | some session => if session.isExpired crates now then db.dropSessions (·.id = session.id) else db

def Db.afterToken (db : Db) (crates : AuthCrates) (P : Primitives) (now : Int) (token : String) : Db :=
  if AuthGuard.isValidTokenFormat token = false then db else db.lapse crates now (AuthService.hashToken P token)

/-- The rows once a guard has looked at the credentials. -/
def Db.afterGuard (db : Db) (crates : AuthCrates) (P : Primitives) (now : Int) (credentials : Credentials) : Db :=
  match credentials.token with
  | none => db
  | some token => db.afterToken crates P now token

/-- The rows differ in their sessions only, and have no session that was not there. -/
structure FewerSessions (db db' : Db) : Prop where
  tables : db'.toTables = { db.toTables with sessions := db'.sessions }
  sessions : ∀ row ∈ db'.sessions.rows, row ∈ db.sessions.rows

variable {F : Choice → Prop} {crates : AuthCrates} {P : Primitives} {now : Int} {token tokenHash : String}
  {db db' : Db} {v : FileTree × Records}

namespace FewerSessions

theorem refl (db : Db) : FewerSessions db db := ⟨rfl, fun _ hrow => hrow⟩

theorem dropSessions (db : Db) (p : SessionRow → Bool) : FewerSessions db (db.dropSessions p) where
  tables := rfl
  sessions _ hrow := (Table.mem_deleteWhere.mp hrow).1

theorem lapse (db : Db) (crates : AuthCrates) (now : Int) (tokenHash : String) :
    FewerSessions db (db.lapse crates now tokenHash) := by
  unfold Db.lapse
  split
  · exact .refl db
  · split
    · exact .dropSessions db _
    · exact .refl db

theorem afterGuard (db : Db) (crates : AuthCrates) (P : Primitives) (now : Int) (credentials : Credentials) :
    FewerSessions db (db.afterGuard crates P now credentials) := by
  unfold Db.afterGuard Db.afterToken
  split
  · exact .refl db
  · split
    · exact .refl db
    · exact .lapse db crates now _

theorem users (h : FewerSessions db db') : db'.users = db.users := by rw [h.tables]

theorem findUserById (h : FewerSessions db db') (id : String) : db'.findUserById id = db.findUserById id := by
  rw [Db.findUserById, h.users, Db.findUserById]

end FewerSessions

theorem query_calm {α : Type} {q : Db → α} : (query q).Stops (Serves F Calm) v (.ok (q v.2.db)) v := by
  rw [← Program.bind_done (query q)]
  exact query_bind ⟨rfl, rfl⟩ fun message hcalm => by cases hcalm

theorem delete_sessions_calm {p : SessionRow → Bool} :
    (SessionRow.delete p).Stops (Serves F Calm) v (.ok (Db.affected v.2.db.sessions.rows p))
      (v.1, { v.2 with db := v.2.db.dropSessions p }) := by
  refine execute_bind ?_ fun message hcalm => by cases hcalm
  exact ⟨rfl, rfl⟩

/-- The current session is found, and it stays. -/
theorem validate_calm :
    (SessionRow.validate crates now tokenHash).Stops (Serves F Calm) v
      (.ok (SessionRow.current crates now tokenHash v.2.db))
      (v.1, { v.2 with db := v.2.db.lapse crates now tokenHash }) := by
  refine query_bind ?_ fun message hcalm => by cases hcalm
  rw [SessionRow.current, Db.lapse]
  cases v.2.db.findSessionByTokenHash tokenHash with
  | none => exact ⟨rfl, rfl⟩
  | some session =>
      dsimp only
      by_cases hexpired : session.isExpired crates now = true
      · rw [if_pos hexpired, if_pos hexpired, Option.filter_some, hexpired]
        refine delete_sessions_calm.outcome_bind fun _ v' h => ?_
        obtain ⟨-, rfl⟩ := h
        exact ⟨rfl, rfl⟩
      · rw [if_neg hexpired, if_neg hexpired, Option.filter_some, Bool.eq_false_iff.mpr hexpired]
        exact ⟨rfl, rfl⟩

/-- The user of a current session is there. -/
theorem current_user {tokenHash : String} {session : SessionRow}
    (h : SessionRow.current crates now tokenHash db = some session) :
    ∃ user, db.findUserById session.userId = some user :=
  Db.mem_users_iff_found.mp (db.sessionUsers session (current_eq_some.mp h).1)

theorem userOfToken_calm :
    (AuthGuard.userOfToken crates P now token).Stops (Serves F Calm) v
      (.ok (v.2.db.tokenUser crates P now token)) (v.1, { v.2 with db := v.2.db.afterToken crates P now token }) := by
  unfold AuthGuard.userOfToken Db.tokenUser Db.afterToken
  by_cases hformat : AuthGuard.isValidTokenFormat token = false
  · rw [if_pos hformat, if_pos hformat, if_pos hformat]
    exact ⟨rfl, rfl⟩
  rw [if_neg hformat, if_neg hformat, if_neg hformat]
  refine validate_calm.outcome_bind fun result v' h => ?_
  obtain ⟨rfl, rfl⟩ := h
  cases hcurrent : SessionRow.current crates now (AuthService.hashToken P token) v.2.db with
  | none => exact ⟨rfl, rfl⟩
  | some session =>
      obtain ⟨user, huser⟩ := current_user hcurrent
      refine query_calm.outcome_bind fun result v'' h => ?_
      obtain ⟨rfl, rfl⟩ := h
      rw [(FewerSessions.lapse v.2.db crates now _).findUserById, huser, Option.bind_some, huser]
      dsimp only
      split
      · exact ⟨rfl, rfl⟩
      · exact ⟨rfl, rfl⟩

theorem Credentials.user_calm {credentials : Credentials} :
    (credentials.user crates P now).Stops (Serves F Calm) v
      (.ok (match credentials.token with
        | none => .error AuthGuard.unauthorized
        | some token => v.2.db.tokenUser crates P now token))
      (v.1, { v.2 with db := v.2.db.afterGuard crates P now credentials }) := by
  cases credentials with
  | bearer authorization =>
      simp only [Credentials.user, AuthGuard.authenticatedUser, Credentials.token, Db.afterGuard]
      cases AuthGuard.extractBearerToken authorization with
      | none => exact ⟨rfl, rfl⟩
      | some token => exact userOfToken_calm
  | cookie value =>
      simp only [Credentials.user, SessionGuard.validateSessionCookie, Credentials.token, Db.afterGuard]
      cases SessionGuard.extractCookieToken value with
      | none => exact ⟨rfl, rfl⟩
      | some token => exact userOfToken_calm

/-- The guard admits whom the rows say. -/
theorem Credentials.setupComplete_calm {credentials : Credentials} :
    (credentials.setupComplete crates P now).Stops (Serves F Calm) v
      (.ok (v.2.db.setupUser crates P now credentials))
      (v.1, { v.2 with db := v.2.db.afterGuard crates P now credentials }) := by
  apply Credentials.user_calm.ensures_bind
  rw [Db.setupUser]
  cases credentials.token with
  | none => exact ⟨rfl, rfl⟩
  | some token =>
      dsimp only
      cases v.2.db.tokenUser crates P now token with
      | error rejection => exact ⟨rfl, rfl⟩
      | ok user =>
          dsimp only
          by_cases hsetup : user.setupComplete = false
          · rw [if_pos hsetup, if_pos hsetup]
            exact ⟨rfl, rfl⟩
          · rw [if_neg hsetup, if_neg hsetup]
            exact ⟨rfl, rfl⟩

/-- Who is admitted has a current session under the token, and an active account that is set up. -/
theorem setupUser_eq_ok {credentials : Credentials} {user : User}
    (h : db.setupUser crates P now credentials = .ok user) :
    ∃ token session, credentials.token = some token ∧
      SessionRow.current crates now (AuthService.hashToken P token) db = some session ∧
      db.findUserById session.userId = some user ∧ user.isActive = true ∧ user.setupComplete = true := by
  unfold Db.setupUser Db.tokenUser at h
  cases htoken : credentials.token with
  | none =>
      rw [htoken] at h
      cases h
  | some token =>
      rw [htoken] at h
      dsimp only at h
      split_ifs at h with hformat
      cases hcurrent : SessionRow.current crates now (AuthService.hashToken P token) db with
      | none =>
          rw [hcurrent] at h
          cases h
      | some session =>
          rw [hcurrent, Option.bind_some] at h
          cases huser : db.findUserById session.userId with
          | none =>
              rw [huser] at h
              cases h
          | some found =>
              rw [huser] at h
              dsimp only at h
              by_cases hactive : found.isActive = false
              · rw [if_pos hactive] at h
                cases h
              · rw [if_neg hactive] at h
                dsimp only at h
                by_cases hsetup : found.setupComplete = false
                · rw [if_pos hsetup] at h
                  cases h
                · rw [if_neg hsetup] at h
                  cases h
                  exact ⟨token, session, rfl, hcurrent, huser, by simpa using hactive, by simpa using hsetup⟩

end IronDrive
