import IronDrive.RequestGuards

/-! The registry: what the operations on accounts, groups, spaces and sessions are for, said of the rows alone. An
operation is refused for the first reason there is, or it leaves new rows. Nothing is read back here, nothing is
undone, and there are neither keys in memory nor directories. -/

namespace IronDrive

open Lib CryptoService

namespace Registry

open AuthService GroupService

def required {α : Type} (error : AppError) : Option α → Except AppError α
  | some value => .ok value
  | none => .error error

/-- A statement that must apply to some row. -/
def change (statement : Db → Db.Outcome) (db : Db) : Except AppError Db :=
  match statement db with
  | .ok (count, db') => if count = 0 then .error .notFound else .ok db'
  | .error error => .error (.sqlx error)

/-- A new row, which may be in conflict with another. -/
def add (conflict : String) (statement : Db → Db.Outcome) (db : Db) : Except AppError Db :=
  match statement db with
  | .ok (_, db') => .ok db'
  | .error error => .error (if isUniqueViolation error then .conflict conflict else .sqlx error)

/-- The owner and the managers of a group may change it. -/
def mayManage (groupId userId : String) (db : Db) : Except AppError Unit := do
  let member ← required .notFound (db.findMember groupId userId)
  if member.role ≠ roleOwner ∧ member.role ≠ roleManager then .error .forbidden else .ok ()

/-- Who has the highest permission on a space may change it. -/
def mayAdminister (userId spaceId : String) (db : Db) : Except AppError Unit := do
  let perm ← required .notFound (db.resolveUserPermission userId spaceId)
  if SpaceService.permissionLevel perm < SpaceService.permissionLevel SpaceService.permAdmin then .error .forbidden
  else .ok ()

section Accounts

variable (backend : Backend) (drawn : Drawn)

def addUser (row : UserRow) (db : Db) : Except AppError Db :=
  if (db.findUserByUsername row.username).isSome then
    .error (.conflict "A user with that username already exists.")
  else if (db.findUserByEmail row.email).isSome then .error (.conflict "A user with that email already exists.")
  else add "A user with that username or email already exists." (Db.insertUser row) db

/-- The first user is an administrator. -/
def register (salt : Bytes) (username email password : String) (db : Db) : Except AppError Db := do
  let username ← normalizeUsername username
  let email ← normalizeEmail email
  validatePassword password
  let passwordHash ← (backend.crates.hashPassword salt password).mapError AppError.internal
  addUser (User.ofParams drawn
    { username := username, email := email, passwordHash := passwordHash,
      role := if db.noUsers then "admin" else "user",
      quotaBytes := ChunkService.toI64 backend.config.defaultQuotaBytes }) db

/-- A user has one library, and is set up once. -/
def setupLibrary (userId : String) (db : Db) : Except AppError Db := do
  let user ← required .notFound (db.findUserById userId)
  if user.setupComplete then .error (.conflict "Setup has already been completed for this user.")
  else if (db.findLibraryByUser userId).isSome then .error (.conflict PersonalLibrary.alreadyHasLibrary)
  else
    let encryptedDataKey ← wrapDataKey backend.primitives backend.masterKey drawn.nonce drawn.dataKey
    let made ← add PersonalLibrary.alreadyHasLibrary
      (Db.insertLibrary (PersonalLibrary.serverMode drawn userId encryptedDataKey)) db
    change (Db.markSetupComplete userId drawn.now) made

end Accounts

def addGroup (group : Group) (db : Db) : Except AppError Db :=
  if (db.findGroupByName group.name).isSome then .error (.conflict Group.nameTaken)
  else add Group.nameTaken (Db.insertGroup group) db

def addMembership (row : GroupMember) (db : Db) : Except AppError Db :=
  add "This user is already a member of the group." (Db.insertMember row) db

/-- A group has its creator as the owner. -/
def createGroup (drawn : Drawn) (userId name : String) (description : Option String) (db : Db) :
    Except AppError Db := do
  let name ← validateName name
  let description ← validateDescription description
  let made ← addGroup ⟨drawn.id, name, description, userId, drawn.now⟩ db
  addMembership ⟨drawn.id, userId, roleOwner, drawn.now⟩ made

def updateGroup (userId groupId name : String) (description : Option String) (db : Db) : Except AppError Db := do
  mayManage groupId userId db
  let name ← validateName name
  let description ← validateDescription description
  if Group.heldByOther groupId (db.findGroupByName name) then .error (.conflict Group.nameTaken)
  else change (Db.updateGroup groupId name description) db

def deleteGroup (userId groupId : String) (db : Db) : Except AppError Db := do
  let group ← required .notFound (db.findGroupById groupId)
  if group.createdBy ≠ userId then .error .forbidden else change (Db.deleteGroup groupId) db

def addMember (now actorId groupId username role : String) (db : Db) : Except AppError Db := do
  mayManage groupId actorId db
  validateRole role
  if role = roleOwner then .error (.validation "Cannot assign the owner role. There can only be one owner.")
  else
    let target ← required .notFound (db.findUserByUsername username)
    addMembership ⟨groupId, target.id, role, now⟩ db

/-- Whoever is not the owner may leave; others are removed by the managers. -/
def removeMember (actorId groupId userId : String) (db : Db) : Except AppError Db := do
  let group ← required .notFound (db.findGroupById groupId)
  if userId = group.createdBy then .error (.validation "The group owner cannot be removed.")
  else if actorId ≠ userId then
    mayManage groupId actorId db
    change (Db.deleteMember groupId userId) db
  else change (Db.deleteMember groupId userId) db

def updateMemberRole (actorId groupId userId role : String) (db : Db) : Except AppError Db := do
  let group ← required .notFound (db.findGroupById groupId)
  if group.createdBy ≠ actorId then .error .forbidden
  else if userId = group.createdBy then .error (.validation "Cannot change the owner's role.")
  else
    validateRole role
    if role = roleOwner then .error (.validation "Cannot assign the owner role.")
    else change (Db.updateRole groupId userId role) db

section Spaces

open SpaceService

variable (backend : Backend) (drawn : Drawn)

def createOwned (ownerType ownerId name : String) (db : Db) : Except AppError Db := do
  let encryptedDataKey ← wrapDataKey backend.primitives backend.masterKey drawn.nonce drawn.dataKey
  change (Db.insertSpace (Space.ofParams drawn ⟨name, ownerType, ownerId, "server", encryptedDataKey⟩)) db

def createSpace (userId name : String) (db : Db) : Except AppError Db := do
  let name ← SpaceService.validateName name
  createOwned backend drawn "user" userId name db

/-- Anybody may create a space for a group that is there. -/
def createGroupSpace (groupId name : String) (db : Db) : Except AppError Db := do
  let name ← SpaceService.validateName name
  let _ ← required .notFound (db.findGroupById groupId)
  createOwned backend drawn "group" groupId name db

def updateSpace (userId spaceId name : String) (db : Db) : Except AppError Db := do
  mayAdminister userId spaceId db
  let name ← SpaceService.validateName name
  change (Db.updateSpace spaceId name) db

def deleteSpace (userId spaceId : String) (db : Db) : Except AppError Db := do
  mayAdminister userId spaceId db
  change (Db.deleteSpace spaceId) db

def grant (row : SpaceAccess) (db : Db) : Except AppError Db :=
  add "Access already granted to this user or group." (Db.insertAccess row) db

def grantUserAccess (now actorId spaceId username permission : String) (db : Db) : Except AppError Db := do
  mayAdminister actorId spaceId db
  validatePermission permission
  let target ← required .notFound (db.findUserByUsername username)
  grant ⟨spaceId, "user", target.id, permission, now⟩ db

def grantGroupAccess (now actorId spaceId groupId permission : String) (db : Db) : Except AppError Db := do
  mayAdminister actorId spaceId db
  validatePermission permission
  let _ ← required .notFound (db.findGroupById groupId)
  grant ⟨spaceId, "group", groupId, permission, now⟩ db

def revokeAccess (actorId spaceId granteeType granteeId : String) (db : Db) : Except AppError Db := do
  mayAdminister actorId spaceId db
  change (Db.deleteAccess spaceId granteeType granteeId) db

def updateAccessPermission (actorId spaceId granteeType granteeId permission : String) (db : Db) :
    Except AppError Db := do
  mayAdminister actorId spaceId db
  validatePermission permission
  change (Db.updatePermission spaceId granteeType granteeId permission) db

end Spaces

/-- What a request comes to. -/
def settle (backend : Backend) (request : Request) : Db → Except AppError Db :=
  let actor := request.actor
  let drawn := request.drawn
  match request.operation with
  | .register salt username email password => register backend drawn salt username email password
  | .setupLibrary => setupLibrary backend drawn actor
  | .createGroup name description => createGroup drawn actor name description
  | .updateGroup groupId name description => updateGroup actor groupId name description
  | .deleteGroup groupId => deleteGroup actor groupId
  | .addMember groupId username role => addMember drawn.now actor groupId username role
  | .removeMember groupId userId => removeMember actor groupId userId
  | .updateMemberRole groupId userId role => updateMemberRole actor groupId userId role
  | .createSpace name => createSpace backend drawn actor name
  | .createGroupSpace groupId name => createGroupSpace backend drawn groupId name
  | .updateSpace spaceId name => updateSpace actor spaceId name
  | .deleteSpace spaceId => deleteSpace actor spaceId
  | .grantUserAccess spaceId username permission => grantUserAccess drawn.now actor spaceId username permission
  | .grantGroupAccess spaceId groupId permission => grantGroupAccess drawn.now actor spaceId groupId permission
  | .revokeAccess spaceId granteeType granteeId => revokeAccess actor spaceId granteeType granteeId
  | .updateAccessPermission spaceId granteeType granteeId permission =>
      updateAccessPermission actor spaceId granteeType granteeId permission

/-! ### Sessions -/

section Sessions

variable (crates : AuthCrates) (P : Primitives) (now : Int)

def login (config : AppConfig) (drawn : Drawn) (token username password : String) (db : Db) : Except AppError Db := do
  let username ← normalizeUsername username
  let (userId, storedHash) ← required .unauthorized (db.getPasswordHash username)
  let isValid ← (crates.verifyPassword password storedHash).mapError AppError.internal
  if isValid = false then .error .unauthorized
  else
    let user ← required (.internal "User found by hash but not by ID") (db.findUserById userId)
    if user.isActive = false then .error .unauthorized
    else
      let expiresAt := now + 3600 * nanos * ChunkService.toI64 config.sessionExpiryHours
      change (Db.insertSession
        { id := drawn.id, userId := user.id, tokenHash := hashToken P token,
          expiresAt := crates.formatTimestamp (expiresAt / nanos), createdAt := drawn.now }) db

/-- Only a login can be refused. -/
def attend (op : SessionOp) (db : Db) : Except AppError Db :=
  match op with
  | .login config drawn token username password => login crates P now config drawn token username password db
  | .logout userId token =>
      .ok (db.dropSessions fun row => row.userId = userId && row.tokenHash = hashToken P token)
  | .validate token => .ok (db.lapse crates now (hashToken P token))
  | .deleteExpired => .ok (db.dropSessions fun row => row.expiresAt ≤ crates.formatTimestamp (now / nanos))

end Sessions

/-- The rows after what an operation came to: a refused one leaves them as they were. -/
def after (db : Db) : Except AppError Db → Db
  | .ok db' => db'
  | .error _ => db

end Registry

end IronDrive
