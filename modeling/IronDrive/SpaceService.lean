import IronDrive.AccessQueries
import IronDrive.FsService
import IronDrive.GroupService
import IronDrive.KeyWrap

/-! Spaces: the queries of the space model, and the service over them. A space has a row, a directory on the
disk, and a data key in memory. -/

namespace IronDrive

open Lib PathSafety CryptoService

namespace Space

structure CreateParams where
  name : String
  ownerType : String
  ownerId : String
  encryptionMode : String
  encryptedDataKey : Bytes

/-- The row a new space is stored as. -/
def ofParams (drawn : Drawn) (params : CreateParams) : Space where
  id := drawn.id
  name := params.name
  ownerType := params.ownerType
  ownerId := params.ownerId
  encryptionMode := params.encryptionMode
  encryptedDataKey := params.encryptedDataKey
  salt := none
  verifyBlob := none
  recoveryBlob := none
  createdAt := drawn.now

/-- Insert a new space. -/
def create (drawn : Drawn) (params : CreateParams) : ServiceProgram Space := do
  match ← execute (Db.insertSpace (ofParams drawn params)) with
  | .ok _ =>
      Program.okOr (.internal "Space was inserted but could not be read back")
        (← query (·.findSpaceById drawn.id))
  | .error e => Program.fail (.sqlx e)

def update (id name : String) : ServiceProgram Space := do
  executeSome (Db.updateSpace id name)
  Program.okOr .notFound (← query (·.findSpaceById id))

/-- Delete a space. Access rows are cascade-deleted by the database. -/
def deleteById (id : String) : ServiceProgram Unit := executeSome (Db.deleteSpace id)

end Space

namespace SpaceAccess

/-- Grant access to a user or group. -/
def grant (now spaceId granteeType granteeId permission : String) : ServiceProgram SpaceAccess := do
  insertOr "Access already granted to this user or group."
    (Db.insertAccess { spaceId := spaceId, granteeType := granteeType, granteeId := granteeId,
                       permission := permission, grantedAt := now })
  Program.okOr (.internal "Access grant was inserted but could not be read back")
    (← query (·.findAccess spaceId granteeType granteeId))

def revoke (spaceId granteeType granteeId : String) : ServiceProgram Unit :=
  executeSome (Db.deleteAccess spaceId granteeType granteeId)

def updatePermission (spaceId granteeType granteeId permission : String) : ServiceProgram SpaceAccess := do
  executeSome (Db.updatePermission spaceId granteeType granteeId permission)
  Program.okOr .notFound (← query (·.findAccess spaceId granteeType granteeId))

end SpaceAccess

def metaFilename : String := ".irondrive.meta"

def displayPath (path : Path) : String := "/" ++ "/".intercalate path

/-- Create the directory of a space or a library, with its meta file. -/
def createDirectory (kind : String) (dir : Path) (id : String) : FsProgram Unit := do
  createDirAll dir fun e =>
    .internal ("Failed to create " ++ kind ++ " directory '" ++ displayPath dir ++ "': " ++ e.message)
  let metaPath := dir ++ [metaFilename]
  let metaContent := "type = \"" ++ kind ++ "\"\nid = \"" ++ id ++ "\"\ncreated_by = \"irondrive\"\n"
  let writeError (e : IoError) : AppError :=
    .internal ("Failed to write meta file '" ++ displayPath metaPath ++ "': " ++ e.message)
  let file ← createFile metaPath writeError
  let _ ← file.writeAll (utf8 metaContent) writeError
  return ()

/-! ### The space service -/

namespace SpaceService

abbrev nameMinLen : Nat := 1
abbrev nameMaxLen : Nat := 100

def permRead : String := "read"
def permWrite : String := "write"
def permAdmin : String := "admin"

def createSpaceDirectory (dir : Path) (spaceId : String) : FsProgram Unit := createDirectory "space" dir spaceId

def permissionLevel (perm : String) : Nat :=
  if perm = permRead then 1 else if perm = permWrite then 2 else if perm = permAdmin then 3 else 0

/-- Check that the user has at least the required permission level. -/
def requirePermission (userId spaceId required : String) : ServiceProgram Unit := do
  let perm ← Program.okOr .notFound (← query (·.resolveUserPermission userId spaceId))
  if permissionLevel perm < permissionLevel required then Program.fail .forbidden
  else return ()

def isControl (c : Char) : Bool := c.toNat < 0x20 || c.toNat = 0x7F

@[irreducible] def validateName (name : String) : Except AppError String :=
  let name := String.ofList (trim name.toList)
  if name.utf8ByteSize < nameMinLen ∨ nameMaxLen < name.utf8ByteSize then
    .error (.validation ("Space name must be between " ++ toString nameMinLen ++ " and " ++
      toString nameMaxLen ++ " characters."))
  else if name.toList.any isControl then
    .error (.validation "Space name contains invalid control characters.")
  else .ok name

def validatePermission (perm : String) : Except AppError Unit :=
  if perm = permRead ∨ perm = permWrite ∨ perm = permAdmin then .ok ()
  else .error (.validation ("Invalid permission '" ++ perm ++ "'. Must be one of: " ++ permRead ++ ", " ++
    permWrite ++ ", " ++ permAdmin ++ "."))

section Creation

variable (P : Primitives) (config : AppConfig) (masterKey : MasterKey) (drawn : Drawn)

/-- What both creations do with a checked name: the row, the directory, and the key in memory. A failing
directory rolls the row back on a best-effort basis. -/
def createOwned (ownerType ownerId name : String) : ServiceProgram SpaceWithMeta := do
  let encryptedDataKey ← Program.ofExcept (wrapDataKey P masterKey drawn.nonce drawn.dataKey)
  let space ← Space.create drawn { name := name, ownerType := ownerType, ownerId := ownerId,
                                   encryptionMode := "server", encryptedDataKey := encryptedDataKey }
  match ← (onFiles (createSpaceDirectory (FsService.spaceRoot config space.id) space.id)).outcome with
  | .error e =>
      let _ ← (Space.deleteById space.id).outcome
      Program.fail e
  | .ok () =>
      changeKeys (·.insertSpaceKey space.id drawn.dataKey)
      return { space := space, granteeCount := 0, userPermission := permAdmin }

/-- Create a new space owned by a user. -/
def createSpace (ownerId name : String) : ServiceProgram SpaceWithMeta := do
  let name ← Program.ofExcept (validateName name)
  createOwned P config masterKey drawn "user" ownerId name

/-- Create a new space owned by a group. -/
def createGroupSpace (groupId name : String) : ServiceProgram SpaceWithMeta := do
  let name ← Program.ofExcept (validateName name)
  let _ ← Program.okOr .notFound (← query (·.findGroupById groupId))
  createOwned P config masterKey drawn "group" groupId name

end Creation

/-- Rename a space. Requires admin permission. -/
def updateSpace (userId spaceId name : String) : ServiceProgram Space := do
  requirePermission userId spaceId permAdmin
  let name ← Program.ofExcept (validateName name)
  Space.update spaceId name

/-- Delete a space. Requires admin permission. -/
def deleteSpace (config : AppConfig) (userId spaceId : String) : ServiceProgram Unit := do
  requirePermission userId spaceId permAdmin
  Space.deleteById spaceId
  changeKeys (·.removeSpaceKey spaceId)
  let _ ← onFiles (fsCall (.removeDirAll (FsService.spaceRoot config spaceId)))
  return ()

/-- Grant access to a user on a space. -/
def grantUserAccess (now actorId spaceId targetUsername permission : String) : ServiceProgram SpaceAccess := do
  requirePermission actorId spaceId permAdmin
  Program.ofExcept (validatePermission permission)
  let target ← Program.okOr .notFound (← query (·.findUserByUsername targetUsername))
  SpaceAccess.grant now spaceId "user" target.id permission

/-- Grant access to a group on a space. -/
def grantGroupAccess (now actorId spaceId groupId permission : String) : ServiceProgram SpaceAccess := do
  requirePermission actorId spaceId permAdmin
  Program.ofExcept (validatePermission permission)
  let _ ← Program.okOr .notFound (← query (·.findGroupById groupId))
  SpaceAccess.grant now spaceId "group" groupId permission

/-- Revoke a specific access grant. -/
def revokeAccess (actorId spaceId granteeType granteeId : String) : ServiceProgram Unit := do
  requirePermission actorId spaceId permAdmin
  SpaceAccess.revoke spaceId granteeType granteeId

/-- Update permission level for an existing access grant. -/
def updateAccessPermission (actorId spaceId granteeType granteeId permission : String) :
    ServiceProgram SpaceAccess := do
  requirePermission actorId spaceId permAdmin
  Program.ofExcept (validatePermission permission)
  SpaceAccess.updatePermission spaceId granteeType granteeId permission

/-- Load the server-mode keys of some rows: a key that cannot be unwrapped is skipped. -/
def loadKeys {ρ : Type} (P : Primitives) (masterKey : MasterKey) (encryptedDataKey : ρ → Bytes)
    (insert : ρ → DataKey → UnlockState → UnlockState) : List ρ → ServiceProgram Nat
  | [] => .done 0
  | row :: rows =>
      match unwrapDataKey P masterKey (encryptedDataKey row) with
      | .ok dataKey => do
          changeKeys (insert row dataKey)
          let loaded ← loadKeys P masterKey encryptedDataKey insert rows
          return loaded + 1
      | .error _ => loadKeys P masterKey encryptedDataKey insert rows

/-- Load all server-mode space data keys at startup. -/
def loadServerModeKeys (P : Primitives) (masterKey : MasterKey) : ServiceProgram Nat := do
  let spaces ← query (·.findAllServerMode)
  loadKeys P masterKey (·.encryptedDataKey) (fun space dataKey => (·.insertSpaceKey space.id dataKey)) spaces

end SpaceService

end IronDrive
