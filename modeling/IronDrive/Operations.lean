import IronDrive.AccountEffects
import IronDrive.LibRun
import IronDrive.SpaceEffects

/-! The server as a transition system: users ask for operations of the services, one after another, and the
disk and the database may fail along the way. A request carries the identifier, the keys and the time that the
server draws for it. -/

namespace IronDrive

open Lib

/-- An operation on accounts, libraries, groups or spaces, with the arguments of its request. -/
inductive Operation
  | register (salt : Bytes) (username email password : String)
  | setupLibrary
  | createGroup (name : String) (description : Option String)
  | updateGroup (groupId name : String) (description : Option String)
  | deleteGroup (groupId : String)
  | addMember (groupId username role : String)
  | removeMember (groupId userId : String)
  | updateMemberRole (groupId userId role : String)
  | createSpace (name : String)
  | createGroupSpace (groupId name : String)
  | updateSpace (spaceId name : String)
  | deleteSpace (spaceId : String)
  | grantUserAccess (spaceId username permission : String)
  | grantGroupAccess (spaceId groupId permission : String)
  | revokeAccess (spaceId granteeType granteeId : String)
  | updateAccessPermission (spaceId granteeType granteeId permission : String)

/-- Registering needs no account. -/
def Operation.anonymous : Operation → Bool
  | .register .. => true
  | _ => false

structure Request where
  actor : String
  drawn : Drawn
  operation : Operation

/-- The group that a request asks to be deleted. -/
def Request.condemned (request : Request) : Option String :=
  match request.operation with
  | .deleteGroup groupId => some groupId
  | _ => none

/-- What a running server is set up with. -/
structure Backend where
  primitives : Primitives
  crates : AuthCrates
  config : AppConfig
  masterKey : MasterKey

/-- A program whose value is of no further use. -/
def discard {α : Type} (program : ServiceProgram α) : ServiceProgram Unit := program.bind fun _ => .done ()

/-- The service a request is dispatched to. -/
def Request.program (backend : Backend) (request : Request) : ServiceProgram Unit :=
  let actor := request.actor
  let drawn := request.drawn
  let now := drawn.now
  let P := backend.primitives
  match request.operation with
  | .register salt username email password =>
      discard (AuthService.register backend.crates backend.config drawn salt username email password)
  | .setupLibrary => discard (LibraryService.setupLibrary P backend.config backend.masterKey drawn actor)
  | .createGroup name description => discard (GroupService.createGroup drawn actor name description)
  | .updateGroup groupId name description => discard (GroupService.updateGroup actor groupId name description)
  | .deleteGroup groupId => GroupService.deleteGroup actor groupId
  | .addMember groupId username role => discard (GroupService.addMember now actor groupId username role)
  | .removeMember groupId userId => GroupService.removeMember actor groupId userId
  | .updateMemberRole groupId userId role =>
      discard (GroupService.updateMemberRole actor groupId userId role)
  | .createSpace name => discard (SpaceService.createSpace P backend.config backend.masterKey drawn actor name)
  | .createGroupSpace groupId name =>
      discard (SpaceService.createGroupSpace P backend.config backend.masterKey drawn groupId name)
  | .updateSpace spaceId name => discard (SpaceService.updateSpace actor spaceId name)
  | .deleteSpace spaceId => SpaceService.deleteSpace backend.config actor spaceId
  | .grantUserAccess spaceId username permission =>
      discard (SpaceService.grantUserAccess now actor spaceId username permission)
  | .grantGroupAccess spaceId groupId permission =>
      discard (SpaceService.grantGroupAccess now actor spaceId groupId permission)
  | .revokeAccess spaceId granteeType granteeId =>
      SpaceService.revokeAccess actor spaceId granteeType granteeId
  | .updateAccessPermission spaceId granteeType granteeId permission =>
      discard (SpaceService.updateAccessPermission actor spaceId granteeType granteeId permission)

/-- What serving a request can do to the records. -/
inductive Effect (G : Option String → Prop) (backend : Backend) (request : Request) (records : Records) :
    Records → Prop
  | account {db' : Db} : RegisterEffect request.drawn records.db db' →
      Effect G backend request records { records with db := db' }
  | library {result : Except AppError PersonalLibrary} {records' : Records} :
      SetupEffect G backend.primitives backend.masterKey request.drawn request.actor records result records' →
      Effect G backend request records records'
  | group {db' : Db} : GroupEffect G request.drawn.id request.actor request.condemned records.db db' →
      Effect G backend request records { records with db := db' }
  | space {records' : Records} :
      request.operation.anonymous = false →
      SpaceEffect G backend.primitives backend.masterKey request.drawn request.actor records records' →
      Effect G backend request records records'

variable {F : Choice → Prop} {G : Option String → Prop} {backend : Backend} {request : Request}
  {v : FileTree × Records} {α : Type}

theorem discard_ensures {program : ServiceProgram α} {R : FileTree × Records → Prop}
    (h : program.Ensures (Serves F G) v fun _ v' => R v') :
    (discard program).Ensures (Serves F G) v fun _ v' => R v' :=
  h.bind (fun _ _ h => h) fun _ _ h => h

theorem Effect.of_group {v' : FileTree × Records}
    (h : OnDb (GroupEffect G request.drawn.id request.actor request.condemned) v v') :
    Effect G backend request v.2 v'.2 := by
  obtain ⟨db', rfl, heffect⟩ := h
  exact .group heffect

theorem request_effect (F : Choice → Prop) (G : Option String → Prop) (backend : Backend) (request : Request)
    (v : FileTree × Records) :
    (request.program backend).Ensures (Serves F G) v fun _ v' => Effect G backend request v.2 v'.2 := by
  obtain ⟨actor, drawn, operation⟩ := request
  have hgroup : ∀ {condemned : Option String} {α : Type} {program : ServiceProgram α},
      program.Ensures (Serves F G) v (fun _ v' => OnDb (GroupEffect G drawn.id actor condemned) v v') →
        condemned = Request.condemned ⟨actor, drawn, operation⟩ →
          program.Ensures (Serves F G) v fun _ v' => Effect G backend ⟨actor, drawn, operation⟩ v.2 v'.2 :=
    fun h heq => h.mono fun _ _ heffect => Effect.of_group (heq ▸ heffect)
  have hspace : ∀ {α : Type} {program : ServiceProgram α},
      program.Ensures (Serves F G) v (fun _ v' => SpaceEffect G backend.primitives backend.masterKey drawn
        actor v.2 v'.2) → operation.anonymous = false →
        program.Ensures (Serves F G) v fun _ v' => Effect G backend ⟨actor, drawn, operation⟩ v.2 v'.2 :=
    fun h hop => h.mono fun _ _ heffect => .space hop heffect
  cases operation with
  | register salt username email password =>
      apply discard_ensures
      refine register_effect.mono fun _ v' h => ?_
      obtain ⟨db', rfl, heffect⟩ := h
      exact .account heffect
  | setupLibrary => exact discard_ensures (setupLibrary_effect.mono fun _ _ h => .library h)
  | createGroup name description => exact discard_ensures (hgroup createGroup_effect rfl)
  | updateGroup groupId name description => exact discard_ensures (hgroup updateGroup_effect rfl)
  | deleteGroup groupId => exact hgroup deleteGroup_effect rfl
  | addMember groupId username role => exact discard_ensures (hgroup addMember_effect rfl)
  | removeMember groupId userId => exact hgroup removeMember_effect rfl
  | updateMemberRole groupId userId role => exact discard_ensures (hgroup updateMemberRole_effect rfl)
  | createSpace name => exact discard_ensures (hspace createSpace_effect rfl)
  | createGroupSpace groupId name => exact discard_ensures (hspace createGroupSpace_effect rfl)
  | updateSpace spaceId name => exact discard_ensures (hspace updateSpace_effect rfl)
  | deleteSpace spaceId => exact hspace deleteSpace_effect rfl
  | grantUserAccess spaceId username permission => exact discard_ensures (hspace grantUserAccess_effect rfl)
  | grantGroupAccess spaceId groupId permission => exact discard_ensures (hspace grantGroupAccess_effect rfl)
  | revokeAccess spaceId granteeType granteeId => exact hspace revokeAccess_effect rfl
  | updateAccessPermission spaceId granteeType granteeId permission =>
      exact discard_ensures (hspace updateAccessPermission_effect rfl)

/-! ### The transition system -/

/-- Serving a request, under failures of the disk in `F` and of the database in `G`. -/
def Serve (F : Choice → Prop) (G : Option String → Prop) (backend : Backend) (site : Site) (request : Request)
    (site' : Site) : Prop :=
  ∃ oracle dbOracle, (∀ tick, F (oracle tick)) ∧ (∀ tick, G (dbOracle tick)) ∧
    site' = ((request.program backend).run (serviceHandler oracle dbOracle) site).2

/-- Any failure at all. -/
def Anything {α : Type} (_ : α) : Prop := True

theorem Serve.effect {site site' : Site} (h : Serve F G backend site request site') :
    Effect G backend request site.records site'.records := by
  obtain ⟨oracle, dbOracle, hF, hG, rfl⟩ := h
  exact service_run hF hG (request_effect F G backend request site.view)

def sampleBackend : Backend where
  primitives := plainPrimitives
  crates := sampleAuthCrates
  config := sampleConfig
  masterKey := ⟨zeroKey.key⟩

def sampleDrawn (id : String) : Drawn where
  id := id
  dataKey := zeroKey
  nonce := ⟨List.replicate 12 0, twelve_zeros⟩
  now := "2025-01-01 00:00:00"

def sampleRequest (actor id : String) (operation : Operation) : Request := ⟨actor, sampleDrawn id, operation⟩

/-- Serve a request without any failure. -/
def calmServe (backend : Backend) (site : Site) (request : Request) : Site :=
  ((request.program backend).run (serviceHandler calmOracle fun _ => none) site).2

def calmServeAll (backend : Backend) (site : Site) (requests : List Request) : Site :=
  requests.foldl (calmServe backend) site

theorem serve_calm (hF : ∀ tick, F (calmOracle tick)) (hG : G none) (site : Site) (request : Request) :
    Serve F G backend site request (calmServe backend site request) :=
  ⟨calmOracle, fun _ => none, hF, fun _ => hG, rfl⟩

theorem run_calm (hF : ∀ tick, F (calmOracle tick)) (hG : G none) (site : Site) (requests : List Request) :
    Run (Serve F G backend) site requests (calmServeAll backend site requests) := by
  induction requests using List.reverseRecOn with
  | nil => exact .nil
  | append_singleton requests request ih =>
      rw [calmServeAll, List.foldl_concat]
      exact ih.snoc (serve_calm hF hG _ request)

end IronDrive
