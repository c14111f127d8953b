import IronDrive.DatabaseSteps
import IronDrive.GroupService

/-! What the operations on groups can do to the database. An operation that is rejected changes nothing; one
that goes through runs its statements, under the checks that let it get there. -/

namespace IronDrive

open Lib GroupService

/-- The effects of the group service on behalf of an actor. `G` holds of the reasons for which a call to the
database may fail, `id` is the identifier drawn for a new group, and `condemned` is the group that is asked to be
deleted. -/
inductive GroupEffect (G : Option String → Prop) (id actor : String) (condemned : Option String) (db : Db) : Db → Prop
  | rejected : GroupEffect G id actor condemned db db
  | created {group : Group} {joinedAt : String} {n m : Nat} {made db' : Db} :
      group.id = id → group.createdBy = actor → Db.insertGroup group db = .ok (n, made) →
      Db.insertMember ⟨id, actor, roleOwner, joinedAt⟩ made = .ok (m, db') → GroupEffect G id actor condemned db db'
  /-- The database failed between the group and its owner. -/
  | ownerless {group : Group} {message : String} {n : Nat} {db' : Db} :
      G (some message) → group.id = id → group.createdBy = actor → Db.insertGroup group db = .ok (n, db') →
      GroupEffect G id actor condemned db db'
  | updated {groupId name : String} {description : Option String} {n : Nat} {db' : Db} :
      Db.updateGroup groupId name description db = .ok (n, db') → GroupEffect G id actor condemned db db'
  | deleted {group : Group} {n : Nat} {db' : Db} :
      condemned = some group.id → db.findGroupById group.id = some group → group.createdBy = actor →
      Db.deleteGroup group.id db = .ok (n, db') → GroupEffect G id actor condemned db db'
  | added {member row : GroupMember} {target : User} {n : Nat} {db' : Db} :
      db.findMember row.groupId actor = some member → row.role = roleManager ∨ row.role = roleMember →
      db.findUserById target.id = some target → row.userId = target.id →
      Db.insertMember row db = .ok (n, db') → GroupEffect G id actor condemned db db'
  | removed {group : Group} {userId : String} {n : Nat} {db' : Db} :
      db.findGroupById group.id = some group → userId ≠ group.createdBy →
      Db.deleteMember group.id userId db = .ok (n, db') → GroupEffect G id actor condemned db db'
  | changedRole {group : Group} {userId role : String} {n : Nat} {db' : Db} :
      db.findGroupById group.id = some group → group.createdBy = actor → userId ≠ group.createdBy →
      role = roleManager ∨ role = roleMember → Db.updateRole group.id userId role db = .ok (n, db') →
      GroupEffect G id actor condemned db db'

/-- The effect of an operation that leaves the disk and the keys in memory alone. -/
def OnDb (effect : Db → Db → Prop) (v v' : FileTree × Records) : Prop :=
  ∃ db', v' = (v.1, { v.2 with db := db' }) ∧ effect v.2.db db'

variable {F : Choice → Prop} {G : Option String → Prop} {α β : Type} {v : FileTree × Records}
  {Q : Except AppError β → FileTree × Records → Prop} {id actor : String} {condemned : Option String}

theorem onDb_rejected : OnDb (GroupEffect G id actor condemned) v v := ⟨v.2.db, rfl, .rejected⟩

theorem findGroupById_id {db : Db} {groupId : String} {group : Group} (h : db.findGroupById groupId = some group) :
    group.id = groupId := by
  simpa using List.find?_some h

theorem findGroupById_self {db : Db} {groupId : String} {group : Group}
    (h : db.findGroupById groupId = some group) : db.findGroupById group.id = some group := by
  rw [findGroupById_id h]
  exact h

theorem findMember_key {db : Db} {groupId userId : String} {member : GroupMember}
    (h : db.findMember groupId userId = some member) : member.groupId = groupId ∧ member.userId = userId := by
  have hkey : member.key = (groupId, userId) := by simpa using List.find?_some h
  exact Prod.mk.inj hkey

/-- A user found by name is the user of that id. -/
theorem findUserById_of_username {db : Db} {username : String} {user : User}
    (h : db.findUserByUsername username = some user) : db.findUserById user.id = some user := by
  obtain ⟨row, hrow, rfl⟩ := Option.map_eq_some_iff.mp h
  have hfind := Table.find_key db.users (List.mem_of_find?_eq_some hrow)
  exact congrArg (Option.map UserRow.user) hfind

theorem requireManagerOrOwner_bind {groupId userId : String} {f : Unit → ServiceProgram β}
    (hok : ∀ member, v.2.db.findMember groupId userId = some member →
      member.role = roleOwner ∨ member.role = roleManager → (f ()).Ensures (Serves F G) v Q)
    (hreject : ∀ error, Q (.error error) v) :
    ((requireManagerOrOwner groupId userId).bind f).Ensures (Serves F G) v Q := by
  rw [requireManagerOrOwner, Program.bind_eq, Program.bind_assoc]
  simp only [Program.bind_eq, Program.bind_assoc]
  refine found_bind (fun member hmember => ?_) hreject
  by_cases hrole : member.role ≠ roleOwner ∧ member.role ≠ roleManager
  · rw [if_pos hrole]
    exact hreject _
  · rw [if_neg hrole]
    exact hok member hmember (by tauto)

theorem requireMember_bind {groupId userId : String} {f : Unit → ServiceProgram β}
    (hok : v.2.db.isMember groupId userId = true → (f ()).Ensures (Serves F G) v Q)
    (hreject : ∀ error, Q (.error error) v) :
    ((requireMember groupId userId).bind f).Ensures (Serves F G) v Q := by
  rw [requireMember, Program.bind_eq, Program.bind_assoc]
  refine query_bind ?_ fun message _ => hreject _
  by_cases hmember : v.2.db.isMember groupId userId = false
  · rw [if_pos hmember]
    exact hreject _
  · rw [if_neg hmember]
    exact hok (by simpa using hmember)

/-- A statement that must apply to some row, followed by reading the row back. -/
theorem executeSome_ensures {statement : Db → Db.Outcome} {Q : Except AppError Unit → FileTree × Records → Prop}
    (hdone : ∀ count db' result, statement v.2.db = .ok (count, db') → Q result (v.1, { v.2 with db := db' }))
    (hreject : ∀ error, Q (.error error) v) : (executeSome statement).Ensures (Serves F G) v Q := by
  have hdone' : ((executeSome statement).bind Program.done).Ensures (Serves F G) v Q := by
    apply executeSome_bind
    · intro count db' h _
      exact hdone count db' _ h
    · intro db' h
      exact hdone 0 db' _ h
    · intro error _
      exact hreject _
    · intro message _
      exact hreject _
  rwa [Program.bind_done] at hdone'

/-- After its statement an operation only reads back a row that may be missing. -/
theorem readBack_ensures {q : Db → Option α} {error : AppError} {v' : FileTree × Records}
    {Q : Except AppError α → FileTree × Records → Prop} (h : ∀ result, Q result v') :
    ((query q).bind fun found => Program.okOr error found).Ensures (Serves F G) v' Q := by
  apply query_bind
  · apply Program.ensures_okOr
    · intro value _
      exact h _
    · intro _
      exact h _
  · intro message _
    exact h _

/-- A valid role other than the owner's. -/
theorem otherRole {role : String} (h : validateRole role = .ok ()) (howner : role ≠ roleOwner) :
    role = roleManager ∨ role = roleMember := by
  by_contra hnot
  rw [validateRole, if_neg (by tauto)] at h
  cases h

theorem add_ensures {now groupId userId role : String}
    {Q : Except AppError GroupMember → FileTree × Records → Prop}
    (hdone : ∀ n db' result, Db.insertMember ⟨groupId, userId, role, now⟩ v.2.db = .ok (n, db') →
      Q result (v.1, { v.2 with db := db' }))
    (hrefused : ∀ refusal error, Db.insertMember ⟨groupId, userId, role, now⟩ v.2.db = .error refusal →
      Q (.error error) v)
    (hfault : ∀ message error, G (some message) → Q (.error error) v) :
    (GroupMember.add now groupId userId role).Ensures (Serves F G) v Q := by
  apply insertOr_bind
  · intro n db' h
    exact readBack_ensures fun result => hdone n db' result h
  · intro refusal h
    exact hrefused refusal _ h
  · intro message hG
    exact hfault message _ hG

theorem updateRole_ensures {groupId userId newRole : String}
    {Q : Except AppError GroupMember → FileTree × Records → Prop}
    (hdone : ∀ n db' result, Db.updateRole groupId userId newRole v.2.db = .ok (n, db') →
      Q result (v.1, { v.2 with db := db' }))
    (hreject : ∀ error, Q (.error error) v) :
    (GroupMember.updateRole groupId userId newRole).Ensures (Serves F G) v Q := by
  apply executeSome_bind
  · intro n db' h _
    exact readBack_ensures fun result => hdone n db' result h
  · intro db' h
    exact hdone 0 db' _ h
  · intro error _
    exact hreject _
  · intro message _
    exact hreject _

theorem update_ensures {groupId name : String} {description : Option String}
    {Q : Except AppError Group → FileTree × Records → Prop}
    (hdone : ∀ n db' result, Db.updateGroup groupId name description v.2.db = .ok (n, db') →
      Q result (v.1, { v.2 with db := db' }))
    (hreject : ∀ error, Q (.error error) v) :
    (Group.update groupId name description).Ensures (Serves F G) v Q := by
  refine query_bind ?_ fun message _ => hreject _
  by_cases hother : Group.heldByOther groupId (v.2.db.findGroupByName name) = true
  · rw [if_pos hother]
    exact hreject _
  · rw [if_neg hother]
    apply execute_bind
    · cases h : Db.updateGroup groupId name description v.2.db with
      | ok found =>
          obtain ⟨n, db'⟩ := found
          rw [Db.execute_ok h]
          dsimp only
          split
          · exact hdone n db' _ h
          · exact readBack_ensures fun result => hdone n db' result h
      | error refusal =>
          rw [Db.execute_error h]
          exact hreject _
    · intro message _
      exact hreject _

/-- A group is inserted and read back, unless the database fails in between. -/
theorem create_ensures {drawn : Drawn} {name : String} {description : Option String} {createdBy : String}
    {Q : Except AppError Group → FileTree × Records → Prop}
    (hdone : ∀ group n db', group.id = drawn.id → group.createdBy = createdBy →
      Db.insertGroup group v.2.db = .ok (n, db') → Q (.ok group) (v.1, { v.2 with db := db' }))
    (hlost : ∀ group n db' message, group.id = drawn.id → group.createdBy = createdBy → G (some message) →
      Db.insertGroup group v.2.db = .ok (n, db') → Q (.error (.sqlx ⟨message⟩)) (v.1, { v.2 with db := db' }))
    (hreject : ∀ error, Q (.error error) v) :
    (Group.create drawn name description createdBy).Ensures (Serves F G) v Q := by
  refine query_bind ?_ fun message _ => hreject _
  by_cases htaken : (v.2.db.findGroupByName name).isSome
  · rw [if_pos htaken]
    exact hreject _
  · rw [if_neg htaken]
    refine insertOr_bind (fun n db' h => ?_) (fun error _ => hreject _) fun message _ => hreject _
    refine query_bind ?_ fun message hG => hlost _ n db' message rfl rfl hG h
    have hback := Db.findGroupById_insertGroup h
    apply Program.ensures_okOr
    · intro found hfound
      rw [Option.some.inj (hfound.symm.trans hback)]
      exact hdone _ n db' rfl rfl h
    · intro hnone
      cases hnone.symm.trans hback

theorem createGroup_effect {drawn : Drawn} {name : String} {description : Option String} :
    (createGroup drawn actor name description).Ensures (Serves F G) v
      fun _ v' => OnDb (GroupEffect G drawn.id actor condemned) v v' := by
  refine Program.ensures_ofExcept_bind (fun name _ => ?_) fun _ _ => onDb_rejected
  refine Program.ensures_ofExcept_bind (fun description _ => ?_) fun _ _ => onDb_rejected
  have hcreate : (Group.create drawn name description actor).Ensures (Serves F G) v fun result v' =>
      (∃ group n db', result = .ok group ∧ group.id = drawn.id ∧ group.createdBy = actor ∧
        Db.insertGroup group v.2.db = .ok (n, db') ∧ v' = (v.1, { v.2 with db := db' })) ∨
      ∃ error, result = .error error ∧ OnDb (GroupEffect G drawn.id actor condemned) v v' := by
    apply create_ensures
    · intro group n db' hid hcreator h
      exact Or.inl ⟨group, n, db', rfl, hid, hcreator, h, rfl⟩
    · intro group n db' message hid hcreator hG h
      exact Or.inr ⟨_, rfl, db', rfl, .ownerless hG hid hcreator h⟩
    · intro error
      exact Or.inr ⟨error, rfl, onDb_rejected⟩
  refine hcreate.bind ?_ ?_
  · intro group v' h
    obtain ⟨_, n, made, hgroup, hid, hcreator, hinsert, rfl⟩ | ⟨_, herror, _⟩ := h
    · cases hgroup
      have hadd : (GroupMember.add drawn.now group.id actor roleOwner).Ensures (Serves F G)
          (v.1, { v.2 with db := made }) fun _ v' => OnDb (GroupEffect G drawn.id actor condemned) v v' := by
        apply add_ensures
        · intro m db' _ h
          rw [hid] at h
          exact ⟨db', rfl, .created hid hcreator hinsert h⟩
        · intro refusal _ hrefused
          obtain ⟨m, db', h⟩ := Db.insertMember_insertGroup hinsert roleOwner drawn.now
          rw [hcreator] at h
          cases h.symm.trans hrefused
        · intro message _ hG
          exact ⟨made, rfl, .ownerless hG hid hcreator hinsert⟩
      exact hadd.bind (fun _ _ heffect => heffect) fun _ _ heffect => heffect
    · cases herror
  · intro error v' h
    obtain ⟨_, _, _, hresult, _⟩ | ⟨_, _, heffect⟩ := h
    · cases hresult
    · exact heffect

theorem updateGroup_effect {groupId name : String} {description : Option String} :
    (updateGroup actor groupId name description).Ensures (Serves F G) v
      fun _ v' => OnDb (GroupEffect G id actor condemned) v v' := by
  refine requireManagerOrOwner_bind (fun _ _ _ => ?_) fun _ => onDb_rejected
  refine Program.ensures_ofExcept_bind (fun name _ => ?_) fun _ _ => onDb_rejected
  refine Program.ensures_ofExcept_bind (fun description _ => ?_) fun _ _ => onDb_rejected
  exact update_ensures (fun n db' _ h => ⟨db', rfl, .updated h⟩) fun _ => onDb_rejected

theorem deleteGroup_effect {groupId : String} :
    (deleteGroup actor groupId).Ensures (Serves F G) v
      fun _ v' => OnDb (GroupEffect G id actor (some groupId)) v v' := by
  refine found_bind (fun group hgroup => ?_) fun _ => onDb_rejected
  by_cases hother : group.createdBy ≠ actor
  · rw [if_pos hother]
    exact onDb_rejected
  · rw [if_neg hother]
    refine executeSome_ensures (fun n db' _ h => ?_) fun _ => onDb_rejected
    rw [← findGroupById_id hgroup] at h
    exact ⟨db', rfl, .deleted (by rw [findGroupById_id hgroup]) (findGroupById_self hgroup) (not_not.mp hother) h⟩

theorem addMember_effect {now groupId username role : String} :
    (addMember now actor groupId username role).Ensures (Serves F G) v
      fun _ v' => OnDb (GroupEffect G id actor condemned) v v' := by
  refine requireManagerOrOwner_bind (fun member hmember _ => ?_) fun _ => onDb_rejected
  refine Program.ensures_ofExcept_bind (fun _ hvalid => ?_) fun _ _ => onDb_rejected
  by_cases howner : role = roleOwner
  · rw [if_pos howner]
    exact onDb_rejected
  · rw [if_neg howner]
    refine found_bind (fun target htarget => ?_) fun _ => onDb_rejected
    refine add_ensures (fun n db' _ h => ?_) (fun _ _ _ => onDb_rejected) fun _ _ _ => onDb_rejected
    exact ⟨db', rfl, .added hmember (otherRole hvalid howner) (findUserById_of_username htarget) rfl h⟩

theorem removeMember_effect {groupId targetUserId : String} :
    (removeMember actor groupId targetUserId).Ensures (Serves F G) v
      fun _ v' => OnDb (GroupEffect G id actor condemned) v v' := by
  refine found_bind (fun group hgroup => ?_) fun _ => onDb_rejected
  by_cases howner : targetUserId = group.createdBy
  · rw [if_pos howner]
    exact onDb_rejected
  · rw [if_neg howner]
    have hremove : (GroupMember.remove groupId targetUserId).Ensures (Serves F G) v
        fun _ v' => OnDb (GroupEffect G id actor condemned) v v' := by
      refine executeSome_ensures (fun n db' _ h => ?_) fun _ => onDb_rejected
      rw [← findGroupById_id hgroup] at h
      exact ⟨db', rfl, .removed (findGroupById_self hgroup) howner h⟩
    by_cases hself : actor ≠ targetUserId
    · rw [if_pos hself]
      exact requireManagerOrOwner_bind (fun _ _ _ => hremove) fun _ => onDb_rejected
    · rw [if_neg hself]
      exact requireMember_bind (fun _ => hremove) fun _ => onDb_rejected

theorem updateMemberRole_effect {groupId targetUserId newRole : String} :
    (updateMemberRole actor groupId targetUserId newRole).Ensures (Serves F G) v
      fun _ v' => OnDb (GroupEffect G id actor condemned) v v' := by
  refine found_bind (fun group hgroup => ?_) fun _ => onDb_rejected
  by_cases hother : group.createdBy ≠ actor
  · rw [if_pos hother]
    exact onDb_rejected
  · rw [if_neg hother]
    by_cases howner : targetUserId = group.createdBy
    · rw [if_pos howner]
      exact onDb_rejected
    · rw [if_neg howner]
      refine Program.ensures_ofExcept_bind (fun _ hvalid => ?_) fun _ _ => onDb_rejected
      by_cases hrole : newRole = roleOwner
      · rw [if_pos hrole]
        exact onDb_rejected
      · rw [if_neg hrole]
        refine requireMember_bind (fun _ => ?_) fun _ => onDb_rejected
        refine updateRole_ensures (fun n db' _ h => ?_) fun _ => onDb_rejected
        rw [← findGroupById_id hgroup] at h
        exact ⟨db', rfl, .changedRole (findGroupById_self hgroup) (not_not.mp hother) howner
          (otherRole hvalid hrole) h⟩

/-! ### The frame -/

/-- An operation on groups changes groups and memberships only. -/
theorem GroupEffect.frame {db db' : Db} (h : GroupEffect G id actor condemned db db') :
    db'.toTables = { db.toTables with groups := db'.groups, members := db'.members } := by
  cases h with
  | rejected => rfl
  | @created _ _ _ _ made _ _ _ hinsert hadd =>
      obtain ⟨_, hmade, -⟩ := Db.insertGroup_ok hinsert
      obtain ⟨_, htables, -⟩ := Db.insertMember_ok hadd
      have hgroup : made.toTables = { db.toTables with groups := made.groups } := by rw [hmade]
      have hmember : db'.toTables = { made.toTables with members := db'.members } := by rw [htables]
      rw [hmember, hgroup]
  | ownerless _ _ _ hinsert =>
      obtain ⟨_, htables, -⟩ := Db.insertGroup_ok hinsert
      rw [htables]
  | updated hupdate => rw [Db.updateGroup_ok hupdate]
  | deleted _ _ _ hdelete => rw [Db.deleteGroup_ok hdelete]
  | added _ _ _ _ hadd =>
      obtain ⟨_, htables, -⟩ := Db.insertMember_ok hadd
      rw [htables]
  | removed _ _ hremove => rw [Db.deleteMember_ok hremove]
  | changedRole _ _ _ _ hchange => rw [Db.updateRole_ok hchange]

end IronDrive
