import IronDrive.KeyRestart
import IronDrive.RequestGuards
import IronDrive.TreeEffects
import IronDrive.VaultRefinement

/-! The whole server: operations on accounts, groups and spaces, logins and logouts, requests on files through the
guards of their routes, and restarts. A client sees of an answer what it got, or the status of the refusal. -/

namespace IronDrive

open Lib FileTree

/-- Whose files a route is on: those of the caller's library, or of the space under a segment of the path. -/
inductive FileArea
  | library
  | space (segment : String)

namespace FileRequest

/-- The last segment of the route of a request. -/
def verb : FileRequest → String
  | .createDirectory _ => "mkdir"
  | .uploadFile .. => "upload"
  | .downloadFile _ => "download"
  | .listDirectory .. => "list"
  | .renameEntry .. => "rename"
  | .deleteEntry _ => "delete"

/-- Below a space a route has the guard `SpaceReader` or `SpaceWriter`. -/
def requiredLevel : FileRequest → Nat
  | .downloadFile _ | .listDirectory .. => SpaceGuard.levelRead
  | _ => SpaceGuard.levelWrite

/-- The most bytes that an upload reads of a body. -/
def allowedBytes (config : AppConfig) : Nat := min config.maxUploadBytes (50 * 1024 * 1024)

/-- An upload with more than the allowed bytes. -/
def oversized (config : AppConfig) : FileRequest → Bool
  | .uploadFile _ _ data _ => allowedBytes config < data.length
  | _ => false

end FileRequest

/-- A request on files as it comes in. -/
structure FileCall where
  now : Int
  authorization : Option String
  area : FileArea
  request : FileRequest

/-- What a client sees: the status of a refusal, or the answer. -/
abbrev Seen : Type := Except Nat (Reply String Bytes)

/-- A refusal of a vault is seen by its status. -/
def shown : Reply String Bytes → Seen
  | .refused why => .error (refusalStatus why)
  | reply => .ok reply

def seen : Except AppError (Reply String Bytes) → Seen
  | .ok reply => shown reply
  | .error error => .error error.status

theorem seen_eq_shown {result : Except AppError (Reply String Bytes)} {reply : Reply String Bytes}
    (h : RepliesAs result reply) : seen result = shown reply := by
  cases h with
  | ok => rfl
  | error hstatus => exact congrArg Except.error hstatus

namespace FileCall

/-- The path of a route below a space, cut at its slashes. -/
def segments (segment : String) (request : FileRequest) : List String :=
  ["", "api", "v1", "spaces", segment, "files", request.verb]

section

variable (crates : AuthCrates) (P : Primitives)

/-- The tree a route opens: the guard's checks, and the look-up of the library. -/
def openTree (call : FileCall) : ServiceProgram (Except Nat UserTree) := do
  match ← Credentials.setupComplete crates P call.now (.bearer call.authorization) with
  | .error rejection => return .error rejection.status
  | .ok user =>
      match call.area with
      | .library => do
          match ← (requireLibrary user.id).outcome with
          | .error e => return .error e.status
          | .ok lib => return .ok (.library lib.id)
      | .space segment => do
          match ← (SpaceGuard.checkSpacePermission (segments segment call.request) user.id
              call.request.requiredLevel).outcome with
          | .error e => return .error e.status
          | .ok found => return .ok (.space found.space.id)

end

end FileCall

/-- What the drive is set up with, beside what the operations are. -/
structure DriveBackend extends Backend where
  mimeFromFilename : String → Option String
  facts : EntryFacts

/-- A call of the server. -/
inductive DriveCall
  | operate (request : Request)
  | attend (now : Int) (op : SessionOp)
  | files (call : FileCall)
  | restart

/-- How a client sees an operation end. -/
def ended {α : Type} : Except AppError α → Seen
  | .ok _ => .ok .done
  | .error error => .error error.status

section Serve

variable (drive : DriveBackend) (oracle : Nat → Choice) (dbOracle : Nat → Option String)

/-- A request on files, once its tree is open. -/
def serveFiles (tree : UserTree) (request : FileRequest) (site : Site) : Seen × Site :=
  if request.oversized drive.config = true then (.error 400, site)
  else
    let served := serveRequest drive.primitives drive.mimeFromFilename drive.facts drive.config oracle
      ⟨tree, site.records.unlockState, request⟩ site.1
    (seen served.1, (served.2, site.2))

def FileCall.serve (call : FileCall) (site : Site) : Seen × Site :=
  let opened := (call.openTree drive.crates drive.primitives).run (serviceHandler oracle dbOracle) site
  match opened.1 with
  | .ok (.ok tree) => serveFiles drive oracle tree call.request opened.2
  | .ok (.error status) => (.error status, opened.2)
  | .error e => (.error e.status, opened.2)

def DriveCall.serve (site : Site) : DriveCall → Seen × Site
  | operate request =>
      let served := (request.program drive.toBackend).run (serviceHandler oracle dbOracle) site
      (ended served.1, served.2)
  | attend now op =>
      let served := (op.program drive.crates drive.primitives now).run (serviceHandler oracle dbOracle) site
      (ended served.1, served.2)
  | files call => call.serve drive oracle dbOracle site
  | restart =>
      let served := (IronDrive.restart drive.primitives drive.masterKey).run (serviceHandler oracle dbOracle) site
      (ended served.1, served.2)

end Serve

/-- A call and what was seen of its answer. -/
structure DriveEvent where
  call : DriveCall
  answer : Seen

/-- One step of the server, when neither the disk nor the database fails. -/
def DriveStep (drive : DriveBackend) (site : Site) (event : DriveEvent) (site' : Site) : Prop :=
  ∃ oracle dbOracle, QuietOracle oracle ∧ (∀ tick, Calm (dbOracle tick)) ∧
    (event.answer, site') = event.call.serve drive oracle dbOracle site

/-! ### What the guards open -/

/-- The tree that a call opens, by the rows there are. -/
def Db.openTree (db : Db) (crates : AuthCrates) (P : Primitives) (call : FileCall) : Except Nat UserTree :=
  match db.setupUser crates P call.now (.bearer call.authorization) with
  | .error rejection => .error rejection.status
  | .ok user =>
      match call.area with
      | .library =>
          match db.findLibraryByUser user.id with
          | none => .error 404
          | some lib => .ok (.library lib.id)
      | .space segment =>
          if segment = "" then .error 400
          else
            match db.findForUser user.id segment with
            | none => .error 404
            | some found =>
                if SpaceGuard.permissionLevel found.userPermission < call.request.requiredLevel then .error 403
                else .ok (.space found.space.id)

variable {F : Choice → Prop} {crates : AuthCrates} {P : Primitives} {v : FileTree × Records} {db db' : Db}
  {call : FileCall} {tree : UserTree}

theorem extractSpaceId_files (segment : String) (request : FileRequest) :
    SpaceGuard.extractSpaceId (FileCall.segments segment request) = if segment = "" then none else some segment := by
  by_cases hempty : segment = ""
  · rw [if_pos hempty, hempty]
    cases request <;> rfl
  · rw [if_neg hempty]
    simp [FileCall.segments, SpaceGuard.extractSpaceId, hempty]

theorem requireLibrary_calm {userId : String} :
    (requireLibrary userId).Stops (Serves F Calm) v
      (match v.2.db.findLibraryByUser userId with
        | none => .error .notFound
        | some lib => .ok lib) v := by
  refine query_calm.bind ?_
  cases v.2.db.findLibraryByUser userId with
  | none => exact Program.stops_fail _ _
  | some lib => exact Program.stops_done _ _

theorem checkSpacePermission_missing {segments : List String} {userId : String} {level : Nat}
    (hspace : SpaceGuard.extractSpaceId segments = none) :
    (SpaceGuard.checkSpacePermission segments userId level).Stops (Serves F Calm) v
      (.error (.validation "Missing space ID in request path.")) v := by
  unfold SpaceGuard.checkSpacePermission
  rw [hspace]
  exact Program.stops_fail _ _

theorem checkSpacePermission_calm {segments : List String} {userId spaceId : String} {level : Nat}
    (hspace : SpaceGuard.extractSpaceId segments = some spaceId) :
    (SpaceGuard.checkSpacePermission segments userId level).Stops (Serves F Calm) v
      (match v.2.db.findForUser userId spaceId with
        | none => .error .notFound
        | some found => if SpaceGuard.permissionLevel found.userPermission < level then .error .forbidden
            else .ok found) v := by
  unfold SpaceGuard.checkSpacePermission
  rw [hspace]
  refine query_calm.outcome_bind fun result v' h => ?_
  obtain ⟨rfl, rfl⟩ := h
  cases v'.2.db.findForUser userId spaceId with
  | none => exact Program.stops_fail _ _
  | some found =>
      show Program.Stops (Serves F Calm) (if SpaceGuard.permissionLevel found.userPermission < level then
        Program.fail AppError.forbidden else Program.done found) v'
          (if SpaceGuard.permissionLevel found.userPermission < level then .error AppError.forbidden else .ok found) v'
      split
      · exact Program.stops_fail _ _
      · exact Program.stops_done _ _

theorem FewerSessions.findLibraryByUser (h : FewerSessions db db') (userId : String) :
    db'.findLibraryByUser userId = db.findLibraryByUser userId := by
  rw [Db.findLibraryByUser, h.tables, Db.findLibraryByUser]

theorem FewerSessions.findForUser (h : FewerSessions db db') (userId spaceId : String) :
    db'.findForUser userId spaceId = db.findForUser userId spaceId := by
  have hdb : db' = { db with
      sessions := db'.sessions
      tokenHashes := db'.tokenHashes
      sessionUsers := h.users ▸ db'.sessionUsers } := Db.eq_of_tables h.tables
  rw [hdb]
  rfl

/-- The guards of a route open what the rows say, and leave the disk alone. -/
theorem openTree_calm :
    (call.openTree crates P).Stops (Serves F Calm) v (.ok (v.2.db.openTree crates P call))
      (v.1, { v.2 with db := v.2.db.afterGuard crates P call.now (.bearer call.authorization) }) := by
  have hfewer := FewerSessions.afterGuard v.2.db crates P call.now (.bearer call.authorization)
  refine Credentials.setupComplete_calm.ensures_bind ?_
  rw [Db.openTree]
  cases v.2.db.setupUser crates P call.now (.bearer call.authorization) with
  | error rejection => exact ⟨rfl, rfl⟩
  | ok user =>
      dsimp only
      cases call.area with
      | library =>
          refine requireLibrary_calm.outcome_bind fun result v' h => ?_
          obtain ⟨rfl, rfl⟩ := h
          dsimp only
          rw [hfewer.findLibraryByUser]
          cases v.2.db.findLibraryByUser user.id with
          | none => exact ⟨rfl, rfl⟩
          | some lib => exact ⟨rfl, rfl⟩
      | space segment =>
          dsimp only
          have hextract := extractSpaceId_files segment call.request
          by_cases hempty : segment = ""
          · rw [if_pos hempty] at hextract ⊢
            refine (checkSpacePermission_missing hextract).outcome_bind fun result v' h => ?_
            obtain ⟨rfl, rfl⟩ := h
            exact ⟨rfl, rfl⟩
          · rw [if_neg hempty] at hextract ⊢
            refine (checkSpacePermission_calm hextract).outcome_bind fun result v' h => ?_
            obtain ⟨rfl, rfl⟩ := h
            dsimp only
            rw [hfewer.findForUser]
            cases v.2.db.findForUser user.id segment with
            | none => exact ⟨rfl, rfl⟩
            | some found =>
                dsimp only
                by_cases hlevel : SpaceGuard.permissionLevel found.userPermission < call.request.requiredLevel
                · rw [if_pos hlevel, if_pos hlevel]
                  exact ⟨rfl, rfl⟩
                · rw [if_neg hlevel, if_neg hlevel]
                  exact ⟨rfl, rfl⟩

end IronDrive
