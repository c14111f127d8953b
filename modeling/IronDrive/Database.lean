import IronDrive.Errors
import IronDrive.LibRelation

/-! The database of the server. A state carries what the schema enforces: primary keys, unique columns, and
the references between tables. The statements are the ones the models issue; a statement that breaks the
schema is refused with the text the database gives. -/

namespace IronDrive

open Lib

structure User where
  id : String
  username : String
  email : String
  role : String
  quotaBytes : Int
  isActive : Bool
  setupComplete : Bool
  createdAt : String
  updatedAt : String
  deriving DecidableEq

/-- A row of `users`: the user with the hash that `User` leaves out. -/
structure UserRow where
  user : User
  passwordHash : String
  deriving DecidableEq

structure PersonalLibrary where
  id : String
  userId : String
  encryptionMode : String
  encryptedDataKey : Bytes
  salt : Option Bytes
  verifyBlob : Option Bytes
  recoveryBlob : Option Bytes
  createdAt : String
  deriving DecidableEq

structure Group where
  id : String
  name : String
  description : Option String
  createdBy : String
  createdAt : String
  deriving DecidableEq

structure GroupMember where
  groupId : String
  userId : String
  role : String
  joinedAt : String
  deriving DecidableEq

structure Space where
  id : String
  name : String
  ownerType : String
  ownerId : String
  encryptionMode : String
  encryptedDataKey : Bytes
  salt : Option Bytes
  verifyBlob : Option Bytes
  recoveryBlob : Option Bytes
  createdAt : String
  deriving DecidableEq

structure SpaceAccess where
  spaceId : String
  granteeType : String
  granteeId : String
  permission : String
  grantedAt : String
  deriving DecidableEq

/-- A row of `sessions`. -/
structure SessionRow where
  id : String
  userId : String
  tokenHash : String
  expiresAt : String
  createdAt : String
  deriving DecidableEq

/-- A row of `server_config`. -/
structure ConfigRow where
  key : String
  value : Bytes
  deriving DecidableEq

namespace UserRow

def id (row : UserRow) : String := row.user.id

def username (row : UserRow) : String := row.user.username

def email (row : UserRow) : String := row.user.email

def completeSetup (now : String) (row : UserRow) : UserRow :=
  { row with user := { row.user with setupComplete := true, updatedAt := now } }

@[simp] theorem completeSetup_id (now : String) (row : UserRow) : (row.completeSetup now).id = row.id := rfl

@[simp] theorem completeSetup_username (now : String) (row : UserRow) :
    (row.completeSetup now).username = row.username := rfl

@[simp] theorem completeSetup_email (now : String) (row : UserRow) :
    (row.completeSetup now).email = row.email := rfl

end UserRow

def GroupMember.key (row : GroupMember) : String × String := (row.groupId, row.userId)

def SpaceAccess.key (row : SpaceAccess) : String × String × String :=
  (row.spaceId, row.granteeType, row.granteeId)

/-- The tables, each under its primary key. -/
structure Tables where
  users : Table UserRow.id
  libraries : Table PersonalLibrary.id
  groups : Table Group.id
  members : Table GroupMember.key
  spaces : Table Space.id
  access : Table SpaceAccess.key
  sessions : Table SessionRow.id
  serverConfig : Table ConfigRow.key

/-- The tables as far as the schema admits them. -/
structure Db extends Tables where
  usernames : (users.rows.map UserRow.username).Nodup
  emails : (users.rows.map UserRow.email).Nodup
  libraryUsers : (libraries.rows.map PersonalLibrary.userId).Nodup
  groupNames : (groups.rows.map Group.name).Nodup
  tokenHashes : (sessions.rows.map SessionRow.tokenHash).Nodup
  libraryOwners : ∀ row ∈ libraries.rows, row.userId ∈ users.rows.map UserRow.id
  creators : ∀ row ∈ groups.rows, row.createdBy ∈ users.rows.map UserRow.id
  memberGroups : ∀ row ∈ members.rows, row.groupId ∈ groups.rows.map Group.id
  memberUsers : ∀ row ∈ members.rows, row.userId ∈ users.rows.map UserRow.id
  accessSpaces : ∀ row ∈ access.rows, row.spaceId ∈ spaces.rows.map Space.id
  sessionUsers : ∀ row ∈ sessions.rows, row.userId ∈ users.rows.map UserRow.id

namespace Db

def empty : Db where
  users := Table.empty UserRow.id
  libraries := Table.empty PersonalLibrary.id
  groups := Table.empty Group.id
  members := Table.empty GroupMember.key
  spaces := Table.empty Space.id
  access := Table.empty SpaceAccess.key
  sessions := Table.empty SessionRow.id
  serverConfig := Table.empty ConfigRow.key
  usernames := List.nodup_nil
  emails := List.nodup_nil
  libraryUsers := List.nodup_nil
  groupNames := List.nodup_nil
  tokenHashes := List.nodup_nil
  libraryOwners := by simp [Table.empty]
  creators := by simp [Table.empty]
  memberGroups := by simp [Table.empty]
  memberUsers := by simp [Table.empty]
  accessSpaces := by simp [Table.empty]
  sessionUsers := by simp [Table.empty]

/-- A state is its tables. -/
theorem eq_of_tables {db db' : Db} (h : db.toTables = db'.toTables) : db = db' := by
  cases db
  cases db'
  congr

/-- What a statement that changes rows answers: how many it changed, and the new state. -/
abbrev Outcome : Type := Except SqlError (Nat × Db)

def uniqueFailed (columns : String) : SqlError := ⟨"UNIQUE constraint failed: " ++ columns⟩

def foreignKeyFailed : SqlError := ⟨"FOREIGN KEY constraint failed"⟩

/-- Run a statement: a refused one changes nothing. -/
def execute (statement : Db → Outcome) (db : Db) : Except SqlError Nat × Db :=
  match statement db with
  | .ok (count, db') => (.ok count, db')
  | .error error => (.error error, db)

theorem execute_ok {statement : Db → Outcome} {db db' : Db} {count : Nat} (h : statement db = .ok (count, db')) :
    db.execute statement = (.ok count, db') := by
  rw [execute, h]

theorem execute_error {statement : Db → Outcome} {db : Db} {error : SqlError} (h : statement db = .error error) :
    db.execute statement = (.error error, db) := by
  rw [execute, h]

/-- The state after some statements. -/
def executeAll (statements : List (Db → Outcome)) (db : Db) : Db :=
  statements.foldl (fun db statement => (db.execute statement).2) db

/-- The number of rows of a table a statement applies to. -/
def affected {ρ : Type} (rows : List ρ) (p : ρ → Bool) : Nat := (rows.filter p).length

def insertUser (row : UserRow) (db : Db) : Outcome :=
  if hid : row.id ∈ db.users.rows.map UserRow.id then .error (uniqueFailed "users.id")
  else if hname : row.username ∈ db.users.rows.map UserRow.username then .error (uniqueFailed "users.username")
  else if hemail : row.email ∈ db.users.rows.map UserRow.email then .error (uniqueFailed "users.email")
  else .ok (1, { db with
    users := db.users.insert row hid
    usernames := Table.nodup_map_snoc db.usernames hname
    emails := Table.nodup_map_snoc db.emails hemail
    libraryOwners := fun library h => Table.mem_map_insert hid (db.libraryOwners library h)
    creators := fun group h => Table.mem_map_insert hid (db.creators group h)
    memberUsers := fun m h => Table.mem_map_insert hid (db.memberUsers m h)
    sessionUsers := fun s h => Table.mem_map_insert hid (db.sessionUsers s h) })

/-- `UPDATE users SET setup_complete = 1, updated_at = datetime('now')`. -/
def markSetupComplete (userId now : String) (db : Db) : Outcome :=
  have hids : ((db.users.updateWhere (·.id = userId) (UserRow.completeSetup now)
      (UserRow.completeSetup_id now)).rows.map UserRow.id) = db.users.rows.map UserRow.id :=
    Table.map_updateWhere (UserRow.completeSetup_id now)
  .ok (affected db.users.rows (·.id = userId), { db with
    users := db.users.updateWhere (·.id = userId) (UserRow.completeSetup now) (UserRow.completeSetup_id now)
    usernames := by rw [Table.map_updateWhere (UserRow.completeSetup_username now)]; exact db.usernames
    emails := by rw [Table.map_updateWhere (UserRow.completeSetup_email now)]; exact db.emails
    libraryOwners := hids ▸ db.libraryOwners
    creators := hids ▸ db.creators
    memberUsers := hids ▸ db.memberUsers
    sessionUsers := hids ▸ db.sessionUsers })

def insertSession (row : SessionRow) (db : Db) : Outcome :=
  if hid : row.id ∈ db.sessions.rows.map SessionRow.id then .error (uniqueFailed "sessions.id")
  else if hhash : row.tokenHash ∈ db.sessions.rows.map SessionRow.tokenHash then
    .error (uniqueFailed "sessions.token_hash")
  else if huser : row.userId ∈ db.users.rows.map UserRow.id then .ok (1, { db with
    sessions := db.sessions.insert row hid
    tokenHashes := Table.nodup_map_snoc db.tokenHashes hhash
    sessionUsers := Table.forall_mem_insert hid db.sessionUsers huser })
  else .error foreignKeyFailed

/-- The four deletions from `sessions` differ in which rows they name. -/
def deleteSessions (p : SessionRow → Bool) (db : Db) : Outcome :=
  .ok (affected db.sessions.rows p, { db with
    sessions := db.sessions.deleteWhere p
    tokenHashes := db.tokenHashes.sublist (List.filter_sublist.map SessionRow.tokenHash)
    sessionUsers := fun s h => db.sessionUsers s (Table.mem_deleteWhere.mp h).1 })

def insertLibrary (row : PersonalLibrary) (db : Db) : Outcome :=
  if hid : row.id ∈ db.libraries.rows.map PersonalLibrary.id then .error (uniqueFailed "personal_libraries.id")
  else if huser : row.userId ∈ db.libraries.rows.map PersonalLibrary.userId then
    .error (uniqueFailed "personal_libraries.user_id")
  else if howner : row.userId ∈ db.users.rows.map UserRow.id then .ok (1, { db with
    libraries := db.libraries.insert row hid
    libraryUsers := Table.nodup_map_snoc db.libraryUsers huser
    libraryOwners := Table.forall_mem_insert hid db.libraryOwners howner })
  else .error foreignKeyFailed

def deleteLibrary (id : String) (db : Db) : Outcome :=
  .ok (affected db.libraries.rows (·.id = id), { db with
    libraries := db.libraries.deleteWhere (·.id = id)
    libraryUsers := db.libraryUsers.sublist (List.filter_sublist.map PersonalLibrary.userId)
    libraryOwners := fun library h => db.libraryOwners library (Table.mem_deleteWhere.mp h).1 })

def insertGroup (row : Group) (db : Db) : Outcome :=
  if hid : row.id ∈ db.groups.rows.map Group.id then .error (uniqueFailed "groups.id")
  else if hname : row.name ∈ db.groups.rows.map Group.name then .error (uniqueFailed "groups.name")
  else if hcreator : row.createdBy ∈ db.users.rows.map UserRow.id then .ok (1, { db with
    groups := db.groups.insert row hid
    groupNames := Table.nodup_map_snoc db.groupNames hname
    creators := Table.forall_mem_insert hid db.creators hcreator
    memberGroups := fun m h => Table.mem_map_insert hid (db.memberGroups m h) })
  else .error foreignKeyFailed

/-- `UPDATE groups SET name = ?, description = ?`; another group may hold the name. -/
def updateGroup (id name : String) (description : Option String) (db : Db) : Outcome :=
  if id ∉ db.groups.rows.map Group.id then .ok (0, db)
  else if hname : ∀ row ∈ db.groups.rows, row.name = name → row.id = id then
    .ok (affected db.groups.rows (·.id = id), { db with
      groups := db.groups.updateWhere (·.id = id)
        (fun row => { row with name := name, description := description }) fun _ => rfl
      groupNames := Table.nodup_map_updateWhere db.groupNames (fun _ _ => rfl) hname
      creators := Table.forall_mem_updateWhere db.creators fun _ h => h
      memberGroups := by rw [Table.map_updateWhere]; exacts [db.memberGroups, fun _ => rfl] })
  else .error (uniqueFailed "groups.name")

/-- Delete a group, and with it its memberships. -/
def deleteGroup (id : String) (db : Db) : Outcome :=
  .ok (affected db.groups.rows (·.id = id), { db with
    groups := db.groups.deleteWhere (·.id = id)
    members := db.members.deleteWhere (·.groupId = id)
    groupNames := db.groupNames.sublist (List.filter_sublist.map Group.name)
    creators := fun group h => db.creators group (Table.mem_deleteWhere.mp h).1
    memberGroups := Table.refers_deleteWhere db.memberGroups
    memberUsers := fun m h => db.memberUsers m (Table.mem_deleteWhere.mp h).1 })

def insertMember (row : GroupMember) (db : Db) : Outcome :=
  if hkey : row.key ∈ db.members.rows.map GroupMember.key then
    .error (uniqueFailed "group_members.group_id, group_members.user_id")
  else if hrefs : row.groupId ∈ db.groups.rows.map Group.id ∧ row.userId ∈ db.users.rows.map UserRow.id then
    .ok (1, { db with
      members := db.members.insert row hkey
      memberGroups := Table.forall_mem_insert hkey db.memberGroups hrefs.1
      memberUsers := Table.forall_mem_insert hkey db.memberUsers hrefs.2 })
  else .error foreignKeyFailed

def deleteMember (groupId userId : String) (db : Db) : Outcome :=
  .ok (affected db.members.rows (·.key = (groupId, userId)), { db with
    members := db.members.deleteWhere (·.key = (groupId, userId))
    memberGroups := fun m h => db.memberGroups m (Table.mem_deleteWhere.mp h).1
    memberUsers := fun m h => db.memberUsers m (Table.mem_deleteWhere.mp h).1 })

def updateRole (groupId userId newRole : String) (db : Db) : Outcome :=
  .ok (affected db.members.rows (·.key = (groupId, userId)), { db with
    members := db.members.updateWhere (·.key = (groupId, userId)) (fun row => { row with role := newRole })
      fun _ => rfl
    memberGroups := Table.forall_mem_updateWhere db.memberGroups fun _ h => h
    memberUsers := Table.forall_mem_updateWhere db.memberUsers fun _ h => h })

def insertSpace (row : Space) (db : Db) : Outcome :=
  if hid : row.id ∈ db.spaces.rows.map Space.id then .error (uniqueFailed "spaces.id")
  else .ok (1, { db with
    spaces := db.spaces.insert row hid
    accessSpaces := fun a h => Table.mem_map_insert hid (db.accessSpaces a h) })

def updateSpace (id name : String) (db : Db) : Outcome :=
  .ok (affected db.spaces.rows (·.id = id), { db with
    spaces := db.spaces.updateWhere (·.id = id) (fun row => { row with name := name }) fun _ => rfl
    accessSpaces := by rw [Table.map_updateWhere]; exacts [db.accessSpaces, fun _ => rfl] })

/-- Delete a space, and with it its grants. -/
def deleteSpace (id : String) (db : Db) : Outcome :=
  .ok (affected db.spaces.rows (·.id = id), { db with
    spaces := db.spaces.deleteWhere (·.id = id)
    access := db.access.deleteWhere (·.spaceId = id)
    accessSpaces := Table.refers_deleteWhere db.accessSpaces })

def insertAccess (row : SpaceAccess) (db : Db) : Outcome :=
  if hkey : row.key ∈ db.access.rows.map SpaceAccess.key then
    .error (uniqueFailed "space_access.space_id, space_access.grantee_type, space_access.grantee_id")
  else if hspace : row.spaceId ∈ db.spaces.rows.map Space.id then .ok (1, { db with
    access := db.access.insert row hkey
    accessSpaces := Table.forall_mem_insert hkey db.accessSpaces hspace })
  else .error foreignKeyFailed

def deleteAccess (spaceId granteeType granteeId : String) (db : Db) : Outcome :=
  .ok (affected db.access.rows (·.key = (spaceId, granteeType, granteeId)), { db with
    access := db.access.deleteWhere (·.key = (spaceId, granteeType, granteeId))
    accessSpaces := fun a h => db.accessSpaces a (Table.mem_deleteWhere.mp h).1 })

def updatePermission (spaceId granteeType granteeId permission : String) (db : Db) : Outcome :=
  .ok (affected db.access.rows (·.key = (spaceId, granteeType, granteeId)), { db with
    access := db.access.updateWhere (·.key = (spaceId, granteeType, granteeId))
      (fun row => { row with permission := permission }) fun _ => rfl
    accessSpaces := Table.forall_mem_updateWhere db.accessSpaces fun _ h => h })

/-- `INSERT OR IGNORE`: a key that is there keeps its value. -/
def insertConfigOrIgnore (row : ConfigRow) (db : Db) : Outcome :=
  if hkey : row.key ∈ db.serverConfig.rows.map ConfigRow.key then .ok (0, db)
  else .ok (1, { db with serverConfig := db.serverConfig.insert row hkey })

/-! ### Look-ups -/

variable (db : Db)

def findUserById (id : String) : Option User := (db.users.rows.find? (·.id = id)).map (·.user)

def findUserByUsername (username : String) : Option User :=
  (db.users.rows.find? (·.username = username)).map (·.user)

def findUserByEmail (email : String) : Option User :=
  (db.users.rows.find? (·.email = email)).map (·.user)

def getPasswordHash (username : String) : Option (String × String) :=
  (db.users.rows.find? (·.username = username)).map fun row => (row.id, row.passwordHash)

/-- `SELECT NOT EXISTS (SELECT 1 FROM users)`. -/
def noUsers : Bool := db.users.rows.isEmpty

def findLibraryById (id : String) : Option PersonalLibrary := db.libraries.rows.find? (·.id = id)

def findLibraryByUser (userId : String) : Option PersonalLibrary := db.libraries.rows.find? (·.userId = userId)

def serverModeLibraries : List PersonalLibrary := db.libraries.rows.filter (·.encryptionMode = "server")

def findGroupById (id : String) : Option Group := db.groups.rows.find? (·.id = id)

def findGroupByName (name : String) : Option Group := db.groups.rows.find? (·.name = name)

def findMember (groupId userId : String) : Option GroupMember :=
  db.members.rows.find? (·.key = (groupId, userId))

def isMember (groupId userId : String) : Bool := 0 < affected db.members.rows (·.key = (groupId, userId))

def findSpaceById (id : String) : Option Space := db.spaces.rows.find? (·.id = id)

def findAllServerMode : List Space := db.spaces.rows.filter (·.encryptionMode = "server")

def findAccess (spaceId granteeType granteeId : String) : Option SpaceAccess :=
  db.access.rows.find? (·.key = (spaceId, granteeType, granteeId))

def findSessionByTokenHash (tokenHash : String) : Option SessionRow :=
  db.sessions.rows.find? (·.tokenHash = tokenHash)

def findConfig (key : String) : Option Bytes := (db.serverConfig.rows.find? (·.key = key)).map (·.value)

end Db

end IronDrive
