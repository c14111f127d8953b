import IronDrive.PathSafety
import IronDrive.StoreCalls

/-! Groups: the queries of the group model, and the service over them. -/

namespace IronDrive

open Lib PathSafety

namespace Group

def nameTaken : String := "A group with that name already exists."

/-- Insert a new group. -/
def create (drawn : Drawn) (name : String) (description : Option String) (createdBy : String) :
    ServiceProgram Group := do
  if (← query (·.findGroupByName name)).isSome then Program.fail (.conflict nameTaken)
  else
    insertOr nameTaken (Db.insertGroup { id := drawn.id, name := name, description := description,
                                         createdBy := createdBy, createdAt := drawn.now })
    Program.okOr (.internal "Group was inserted but could not be read back")
      (← query (·.findGroupById drawn.id))

/-- Whether a name that was looked up is held by another group. -/
def heldByOther (id : String) : Option Group → Bool
  | some existing => existing.id ≠ id
  | none => false

/-- Update group name and description. -/
def update (id name : String) (description : Option String) : ServiceProgram Group := do
  if heldByOther id (← query (·.findGroupByName name)) then Program.fail (.conflict nameTaken)
  else
    match ← execute (Db.updateGroup id name description) with
    | .ok count =>
        if count = 0 then Program.fail .notFound
        else Program.okOr .notFound (← query (·.findGroupById id))
    | .error e => Program.fail (if isUniqueViolation e then .conflict nameTaken else .sqlx e)

/-- Delete a group. Members are cascade-deleted by the database. -/
def deleteById (id : String) : ServiceProgram Unit := executeSome (Db.deleteGroup id)

end Group

namespace GroupMember

/-- Add a member to a group. -/
def add (now groupId userId role : String) : ServiceProgram GroupMember := do
  insertOr "This user is already a member of the group."
    (Db.insertMember { groupId := groupId, userId := userId, role := role, joinedAt := now })
  Program.okOr (.internal "Member was inserted but could not be read back")
    (← query (·.findMember groupId userId))

def remove (groupId userId : String) : ServiceProgram Unit := executeSome (Db.deleteMember groupId userId)

def updateRole (groupId userId newRole : String) : ServiceProgram GroupMember := do
  executeSome (Db.updateRole groupId userId newRole)
  Program.okOr .notFound (← query (·.findMember groupId userId))

end GroupMember

/-! ### The group service -/

structure GroupWithMeta where
  group : Group
  memberCount : Nat
  userRole : String
  deriving DecidableEq

namespace GroupService

abbrev nameMinLen : Nat := 1
abbrev nameMaxLen : Nat := 100
abbrev descriptionMaxLen : Nat := 500

def roleOwner : String := "owner"
def roleManager : String := "manager"
def roleMember : String := "member"

@[irreducible] def validateName (name : String) : Except AppError String :=
  let name := String.ofList (trim name.toList)
  if name.utf8ByteSize < nameMinLen ∨ nameMaxLen < name.utf8ByteSize then
    .error (.validation ("Group name must be between " ++ toString nameMinLen ++ " and " ++
      toString nameMaxLen ++ " characters."))
  else .ok name

@[irreducible] def validateDescription : Option String → Except AppError (Option String)
  | none => .ok none
  | some description =>
      let description := String.ofList (trim description.toList)
      if description = "" then .ok none
      else if descriptionMaxLen < description.utf8ByteSize then
        .error (.validation ("Description must be at most " ++ toString descriptionMaxLen ++ " characters."))
      else .ok (some description)

def validateRole (role : String) : Except AppError Unit :=
  if role = roleOwner ∨ role = roleManager ∨ role = roleMember then .ok ()
  else .error (.validation ("Invalid role '" ++ role ++ "'. Must be one of: " ++ roleMember ++ ", " ++
    roleManager ++ "."))

/-- Verify the user is a member of the group. -/
def requireMember (groupId userId : String) : ServiceProgram Unit := do
  if (← query (·.isMember groupId userId)) = false then Program.fail .notFound
  else return ()

/-- Verify the user is an owner or manager. -/
def requireManagerOrOwner (groupId userId : String) : ServiceProgram Unit := do
  let member ← Program.okOr .notFound (← query (·.findMember groupId userId))
  if member.role ≠ roleOwner ∧ member.role ≠ roleManager then Program.fail .forbidden
  else return ()

/-- Create a group and add the creator as its owner. -/
def createGroup (drawn : Drawn) (userId name : String) (description : Option String) :
    ServiceProgram GroupWithMeta := do
  let name ← Program.ofExcept (validateName name)
  let description ← Program.ofExcept (validateDescription description)
  let group ← Group.create drawn name description userId
  let _ ← GroupMember.add drawn.now group.id userId roleOwner
  return { group := group, memberCount := 1, userRole := roleOwner }

/-- Update a group's name and description. -/
def updateGroup (userId groupId name : String) (description : Option String) : ServiceProgram Group := do
  requireManagerOrOwner groupId userId
  let name ← Program.ofExcept (validateName name)
  let description ← Program.ofExcept (validateDescription description)
  Group.update groupId name description

/-- Delete a group. Only the creator can delete. -/
def deleteGroup (userId groupId : String) : ServiceProgram Unit := do
  let group ← Program.okOr .notFound (← query (·.findGroupById groupId))
  if group.createdBy ≠ userId then Program.fail .forbidden
  else Group.deleteById groupId

/-- Add a member to a group by username. -/
def addMember (now actorId groupId username role : String) : ServiceProgram GroupMember := do
  requireManagerOrOwner groupId actorId
  Program.ofExcept (validateRole role)
  if role = roleOwner then
    Program.fail (.validation "Cannot assign the owner role. There can only be one owner.")
  else
    let targetUser ← Program.okOr .notFound (← query (·.findUserByUsername username))
    GroupMember.add now groupId targetUser.id role

/-- Remove a member from a group, or leave it. -/
def removeMember (actorId groupId targetUserId : String) : ServiceProgram Unit := do
  let group ← Program.okOr .notFound (← query (·.findGroupById groupId))
  if targetUserId = group.createdBy then
    Program.fail (.validation "The group owner cannot be removed.")
  else if actorId ≠ targetUserId then
    requireManagerOrOwner groupId actorId
    GroupMember.remove groupId targetUserId
  else
    requireMember groupId actorId
    GroupMember.remove groupId targetUserId

/-- Update a member's role. Only the owner can change roles. -/
def updateMemberRole (actorId groupId targetUserId newRole : String) : ServiceProgram GroupMember := do
  let group ← Program.okOr .notFound (← query (·.findGroupById groupId))
  if group.createdBy ≠ actorId then Program.fail .forbidden
  else if targetUserId = group.createdBy then
    Program.fail (.validation "Cannot change the owner's role.")
  else
    Program.ofExcept (validateRole newRole)
    if newRole = roleOwner then Program.fail (.validation "Cannot assign the owner role.")
    else
      requireMember groupId targetUserId
      GroupMember.updateRole groupId targetUserId newRole

end GroupService

end IronDrive
