import Mathlib.Order.Defs.LinearOrder
import Mathlib.Order.Basic
import IronDrive.Database

/-! The permission of a user on a space. What it is for: the highest level that ownership or a grant gives
the user, in person or as a member of a group. How it is computed: by three queries written separately, one
for the services, one for the guards of the routes and one for the list of spaces. They agree. -/

namespace IronDrive

open Lib

inductive Permission
  | read
  | write
  | admin
  deriving DecidableEq

namespace Permission

/-- The text of a level in the database. -/
def label : Permission → String
  | read => "read"
  | write => "write"
  | admin => "admin"

def rank : Permission → Nat
  | read => 1
  | write => 2
  | admin => 3

theorem rank_injective : Function.Injective rank := by
  intro first second h
  cases first <;> cases second <;> first | rfl | cases h

instance : LinearOrder Permission := LinearOrder.lift' rank rank_injective

theorem le_iff (first second : Permission) : first ≤ second ↔ first.rank ≤ second.rank := Iff.rfl

end Permission

/-- Someone, a user or a group by `holderType`, is given a permission on a space: as its owner, or by a
grant. -/
def Given (db : Db) (holderType holderId spaceId permission : String) : Prop :=
  (permission = "admin" ∧ ∃ space ∈ db.spaces.rows,
    space.id = spaceId ∧ space.ownerType = holderType ∧ space.ownerId = holderId) ∨
  ∃ grant ∈ db.access.rows, grant.spaceId = spaceId ∧ grant.granteeType = holderType ∧
    grant.granteeId = holderId ∧ grant.permission = permission

/-- A user holds what the user is given, and what a group is given that the user is a member of. -/
def Holds (db : Db) (userId spaceId permission : String) : Prop :=
  Given db "user" userId spaceId permission ∨
    ∃ m ∈ db.members.rows, m.userId = userId ∧ Given db "group" m.groupId spaceId permission

/-! ### The queries -/

/-- `CASE perm WHEN 'admin' THEN 3 WHEN 'write' THEN 2 WHEN 'read' THEN 1 ELSE 0 END`. -/
def permRank (perm : String) : Nat :=
  if perm = "admin" then 3 else if perm = "write" then 2 else if perm = "read" then 1 else 0

/-- `CASE rank WHEN 3 THEN 'admin' WHEN 2 THEN 'write' WHEN 1 THEN 'read' ELSE 'none' END`; the rank of no
rows is NULL. -/
def rankLabel : Option Nat → String
  | some 3 => "admin"
  | some 2 => "write"
  | some 1 => "read"
  | _ => "none"

/-- The label of the greatest rank among permissions. -/
def bestLabel (perms : List String) : String := rankLabel (greatest (perms.map permRank))

structure SpaceWithMeta where
  space : Space
  granteeCount : Nat
  userPermission : String
  deriving DecidableEq

namespace Db

variable (db : Db) (userId : String)

def userGroups : List String := (db.members.rows.filter (·.userId = userId)).map (·.groupId)

def granteeCount (spaceId : String) : Nat := affected db.access.rows (·.spaceId = spaceId)

section Owned

variable (spaceId : String)

/-- `'admin'` for each row of the space that the user owns. -/
def ownedByUser : List String :=
  (db.spaces.rows.filter fun s => s.id = spaceId && s.ownerType = "user" && s.ownerId = userId).map
    fun _ => "admin"

def ownedByGroup : List String :=
  (db.spaces.rows.filter fun s =>
    s.id = spaceId && s.ownerType = "group" && s.ownerId ∈ db.userGroups userId).map fun _ => "admin"

def grantedToUser : List String :=
  (db.access.rows.filter fun a => a.spaceId = spaceId && a.granteeType = "user" && a.granteeId = userId).map
    (·.permission)

def grantedToGroup : List String :=
  (db.access.rows.filter fun a =>
    a.spaceId = spaceId && a.granteeType = "group" && a.granteeId ∈ db.userGroups userId).map (·.permission)

/-- The common table `perms`, a `UNION ALL`. -/
def perms : List String :=
  db.ownedByUser userId spaceId ++ db.ownedByGroup userId spaceId ++ db.grantedToUser userId spaceId ++
    db.grantedToGroup userId spaceId

/-- The query of the services: no row unless `COUNT(*) > 0`. -/
def resolveUserPermission : Option String :=
  if 0 < (db.perms userId spaceId).length then some (bestLabel (db.perms userId spaceId)) else none

/-- The common table `accessible` of the query for one space, a `UNION`. -/
def accessible : List String :=
  union (union (union (db.ownedByUser userId spaceId) (db.ownedByGroup userId spaceId))
    (db.grantedToUser userId spaceId)) (db.grantedToGroup userId spaceId)

/-- The query of the route guards: the space joined with its best permission, unless that is `'none'`. -/
def findForUser : Option SpaceWithMeta :=
  let best := bestLabel (db.accessible userId spaceId)
  ((db.spaces.rows.filter fun s => s.id = spaceId && best ≠ "none").map fun s =>
    { space := s, granteeCount := db.granteeCount s.id, userPermission := best }).head?

end Owned

/-- The common table `accessible_spaces`: every way in which the user can access any space. -/
def accessibleSpaces : List (String × String) :=
  union (union (union
    ((db.spaces.rows.filter fun s => s.ownerType = "user" && s.ownerId = userId).map fun s => (s.id, "admin"))
    ((db.spaces.rows.filter fun s => s.ownerType = "group" && s.ownerId ∈ db.userGroups userId).map
      fun s => (s.id, "admin")))
    ((db.access.rows.filter fun a => a.granteeType = "user" && a.granteeId = userId).map
      fun a => (a.spaceId, a.permission)))
    ((db.access.rows.filter fun a => a.granteeType = "group" && a.granteeId ∈ db.userGroups userId).map
      fun a => (a.spaceId, a.permission))

/-- The common table `best_perm`, without its rank column: the best permission of each group of rows. -/
def bestPerm : List (String × String) :=
  (groupBy Prod.fst (db.accessibleSpaces userId)).map fun group =>
    (group.1, bestLabel (group.2.map Prod.snd))

/-- The query of the list of spaces, ordered by name. -/
def findAllForUser : List SpaceWithMeta :=
  ((innerJoin (fun s bp => bp.1 = s.id) db.spaces.rows (db.bestPerm userId)).map fun row =>
    ({ space := row.1, granteeCount := db.granteeCount row.1.id, userPermission := row.2.2 } :
      SpaceWithMeta)).mergeSort fun first second => first.space.name ≤ second.space.name

end Db

end IronDrive
