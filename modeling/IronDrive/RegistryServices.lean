import IronDrive.Registry
import IronDrive.TreeEffects

/-! The services come to what the registry says when neither the disk nor the database fails, whatever they do
besides. -/

namespace IronDrive

open Lib FileTree CryptoService

namespace Registry

open AuthService GroupService

/-- The program ends as it should: it returns when the outcome has new rows, and leaves these; it stops with the reason
of a refusal, and leaves the rows as they were. -/
def Settles {α : Type} (program : ServiceProgram α) (v : FileTree × Records) (outcome : Except AppError Db) : Prop :=
  program.Ensures (Serves Choice.Quiet Calm) v fun result v' =>
    (result.map fun _ => ()) = (outcome.map fun _ => ()) ∧ v'.2.db = after v.2.db outcome

variable {α β : Type} {v : FileTree × Records} {outcome : Except AppError Db} {f : α → ServiceProgram β}
  {g : α → Except AppError Db}

theorem settles_map {program : ServiceProgram α} {k : α → β} (h : Settles program v outcome) :
    Settles (program.bind fun value => .done (k value)) v outcome :=
  h.bind (fun _ _ h => h) fun _ _ h => h

theorem settles_discard {program : ServiceProgram α} (h : Settles program v outcome) :
    Settles (discard program) v outcome := settles_map h

theorem settles_refused (error : AppError) : Settles (Program.fail error : ServiceProgram α) v (.error error) :=
  ⟨rfl, rfl⟩

theorem settles_ofExcept_bind {x : Except AppError α} (h : ∀ value, x = .ok value → Settles (f value) v (g value)) :
    Settles ((Program.ofExcept x).bind f) v (x >>= g) := by
  cases hx : x with
  | ok value => exact h value hx
  | error error => exact settles_refused error

theorem settles_query_bind {q : Db → α} (h : Settles (f (q v.2.db)) v outcome) :
    Settles ((query q).bind f) v outcome :=
  query_bind h fun message hcalm => by cases hcalm

theorem settles_found_bind {q : Db → Option α} {error : AppError}
    (h : ∀ value, q v.2.db = some value → Settles (f value) v (g value)) :
    Settles ((query q).bind fun found => (Program.okOr error found).bind f) v
      (required error (q v.2.db) >>= g) := by
  apply settles_query_bind
  cases hq : q v.2.db with
  | some value => exact h value hq
  | none => exact settles_refused error

/-- What is looked up at the end is there. -/
theorem settles_readBack {q : Db → Option α} {error : AppError} {v' : FileTree × Records} {db : Db}
    (hdb : v'.2.db = db) (h : (q db).isSome) :
    ((query q).bind fun found => Program.okOr error found).Ensures (Serves Choice.Quiet Calm) v'
      fun result w => (result.map fun _ => ()) = .ok () ∧ w.2.db = db := by
  refine query_bind ?_ fun message hcalm => by cases hcalm
  rw [hdb]
  obtain ⟨value, hvalue⟩ := Option.isSome_iff_exists.mp h
  rw [hvalue]
  exact ⟨rfl, hdb⟩

/-- A statement that applied to some row is followed by what leaves the rows as it left them. -/
theorem settles_change_bind {statement : Db → Db.Outcome} {f : Unit → ServiceProgram β}
    (hzero : ∀ db', statement v.2.db = .ok (0, db') → db' = v.2.db)
    (hsome : ∀ count db', statement v.2.db = .ok (count, db') → count ≠ 0 →
      (f ()).Ensures (Serves Choice.Quiet Calm) (v.1, { v.2 with db := db' }) fun result v' =>
        (result.map fun _ => ()) = .ok () ∧ v'.2.db = db') :
    Settles ((executeSome statement).bind f) v (change statement v.2.db) := by
  unfold Settles change
  apply executeSome_bind
  · intro count db' h hcount
    rw [h]
    dsimp only
    rw [if_neg hcount]
    exact hsome count db' h hcount
  · intro db' h
    rw [h]
    exact ⟨rfl, hzero db' h⟩
  · intro error h
    rw [h]
    exact ⟨rfl, rfl⟩
  · intro message hcalm
    cases hcalm

theorem settles_change {statement : Db → Db.Outcome}
    (hzero : ∀ db', statement v.2.db = .ok (0, db') → db' = v.2.db) :
    Settles (executeSome statement) v (change statement v.2.db) := by
  rw [← Program.bind_done (executeSome statement)]
  exact settles_change_bind hzero fun _ _ _ _ => ⟨rfl, rfl⟩

theorem settles_change_readBack {statement : Db → Db.Outcome} {q : Db → Option α} {error : AppError}
    (hzero : ∀ db', statement v.2.db = .ok (0, db') → db' = v.2.db)
    (hread : ∀ count db', statement v.2.db = .ok (count, db') → count ≠ 0 → (q db').isSome) :
    Settles ((executeSome statement).bind fun _ => (query q).bind fun found => Program.okOr error found) v
      (change statement v.2.db) :=
  settles_change_bind hzero fun count db' h hcount => settles_readBack rfl (hread count db' h hcount)

/-- The program makes a value with the new rows, or is refused. -/
def Makes (program : ServiceProgram α) (v : FileTree × Records) (value : α) (outcome : Except AppError Db) : Prop :=
  program.Stops (Serves Choice.Quiet Calm) v (outcome.map fun _ => value)
    (v.1, { v.2 with db := after v.2.db outcome })

theorem Makes.settles {program : ServiceProgram α} {value : α} (h : Makes program v value outcome) :
    Settles program v outcome := by
  refine Program.Ensures.mono h fun result v' hstops => ?_
  obtain ⟨rfl, rfl⟩ := hstops
  refine ⟨?_, rfl⟩
  cases outcome <;> rfl

theorem Makes.bind {program : ServiceProgram α} {value : α} {Q : Except AppError β → FileTree × Records → Prop}
    (h : Makes program v value outcome)
    (hok : ∀ made, outcome = .ok made → (f value).Ensures (Serves Choice.Quiet Calm) (v.1, { v.2 with db := made }) Q)
    (herror : ∀ error, outcome = .error error → Q (.error error) v) :
    (program.bind f).Ensures (Serves Choice.Quiet Calm) v Q := by
  unfold Makes at h
  cases houtcome : outcome with
  | ok made =>
      rw [houtcome] at h
      exact h.ensures_bind (hok made houtcome)
  | error error =>
      rw [houtcome] at h
      refine Program.Ensures.bind h (fun _ _ hstops => by cases hstops.1) fun failure v' hstops => ?_
      obtain ⟨hfailure, rfl⟩ := hstops
      cases hfailure
      exact herror error houtcome

theorem add_ok {conflict : String} {statement : Db → Db.Outcome} {db db' : Db}
    (h : add conflict statement db = .ok db') : ∃ n, statement db = .ok (n, db') := by
  unfold add at h
  split at h
  · cases h
    exact ⟨_, by assumption⟩
  · cases h

/-- A row that was added is read back. -/
theorem makes_add {conflict : String} {statement : Db → Db.Outcome} {q : Db → Option α} {error : AppError} {value : α}
    (hread : ∀ count db', statement v.2.db = .ok (count, db') → q db' = some value) :
    Makes ((insertOr conflict statement).bind fun _ => (query q).bind fun found => Program.okOr error found) v value
      (add conflict statement v.2.db) := by
  unfold Makes add
  apply insertOr_bind
  · intro count db' h
    rw [h]
    refine query_bind ?_ fun message hcalm => by cases hcalm
    rw [hread count db' h]
    exact ⟨rfl, rfl⟩
  · intro error h
    rw [h]
    exact ⟨rfl, rfl⟩
  · intro message hcalm
    cases hcalm

theorem settles_mayManage {groupId userId : String} {f : Unit → ServiceProgram β} {g : Unit → Except AppError Db}
    (h : Settles (f ()) v (g ())) :
    Settles ((requireManagerOrOwner groupId userId).bind f) v (mayManage groupId userId v.2.db >>= g) := by
  rw [requireManagerOrOwner, Program.bind_eq, Program.bind_assoc, mayManage]
  simp only [Program.bind_eq, Program.bind_assoc, bind_assoc]
  apply settles_found_bind
  intro member _
  by_cases hrole : member.role ≠ roleOwner ∧ member.role ≠ roleManager
  · rw [if_pos hrole, if_pos hrole]
    exact settles_refused _
  · rw [if_neg hrole, if_neg hrole]
    exact h

theorem settles_mayAdminister {userId spaceId : String} {f : Unit → ServiceProgram β}
    {g : Unit → Except AppError Db} (h : Settles (f ()) v (g ())) :
    Settles ((SpaceService.requirePermission userId spaceId SpaceService.permAdmin).bind f) v
      (mayAdminister userId spaceId v.2.db >>= g) := by
  rw [SpaceService.requirePermission, Program.bind_eq, Program.bind_assoc, mayAdminister]
  simp only [Program.bind_eq, Program.bind_assoc, bind_assoc]
  apply settles_found_bind
  intro perm _
  by_cases hlow : SpaceService.permissionLevel perm < SpaceService.permissionLevel SpaceService.permAdmin
  · rw [if_pos hlow, if_pos hlow]
    exact settles_refused _
  · rw [if_neg hlow, if_neg hlow]
    exact h

section Operations

variable {backend : Backend} {drawn : Drawn} {actor groupId userId name : String} {description : Option String}

theorem makes_user {params : User.CreateParams} :
    Makes (User.create drawn params) v (User.ofParams drawn params).user
      (addUser (User.ofParams drawn params) v.2.db) := by
  refine query_bind ?_ fun message hcalm => by cases hcalm
  rw [addUser, show (User.ofParams drawn params).username = params.username from rfl,
    show (User.ofParams drawn params).email = params.email from rfl]
  split
  · exact ⟨rfl, rfl⟩
  refine query_bind ?_ fun message hcalm => by cases hcalm
  split
  · exact ⟨rfl, rfl⟩
  exact makes_add fun _ _ => Db.findUserById_insertUser

theorem settles_register {salt : Bytes} {username email password : String} :
    Settles (AuthService.register backend.crates backend.config drawn salt username email password) v
      (register backend drawn salt username email password v.2.db) := by
  apply settles_ofExcept_bind
  intro username _
  apply settles_ofExcept_bind
  intro email _
  apply settles_ofExcept_bind
  intro _ _
  apply settles_ofExcept_bind
  intro passwordHash _
  exact settles_query_bind makes_user.settles

theorem makes_group :
    Makes (Group.create drawn name description actor) v ⟨drawn.id, name, description, actor, drawn.now⟩
      (addGroup ⟨drawn.id, name, description, actor, drawn.now⟩ v.2.db) := by
  refine query_bind ?_ fun message hcalm => by cases hcalm
  rw [addGroup]
  split
  · exact ⟨rfl, rfl⟩
  exact makes_add fun _ _ => Db.findGroupById_insertGroup

theorem makes_member {now role : String} :
    Makes (GroupMember.add now groupId userId role) v ⟨groupId, userId, role, now⟩
      (addMembership ⟨groupId, userId, role, now⟩ v.2.db) :=
  makes_add fun _ _ => Db.findMember_insertMember

/-- The creator can always be added to a group that was just made. -/
theorem settles_createGroup :
    Settles (GroupService.createGroup drawn actor name description) v
      (createGroup drawn actor name description v.2.db) := by
  apply settles_ofExcept_bind
  intro name _
  apply settles_ofExcept_bind
  intro description _
  refine makes_group.bind (fun made hmade => ?_) fun error herror => ?_
  · have hadd : ∃ n, Db.insertGroup ⟨drawn.id, name, description, actor, drawn.now⟩ v.2.db = .ok (n, made) := by
      unfold addGroup at hmade
      split at hmade
      · cases hmade
      · exact add_ok hmade
    obtain ⟨n, hinsert⟩ := hadd
    obtain ⟨m, db', hmember⟩ := Db.insertMember_insertGroup hinsert roleOwner drawn.now
    have hsettled : addMembership ⟨drawn.id, actor, roleOwner, drawn.now⟩ made = .ok db' := by
      rw [addMembership, add, hmember]
    have houtcome : (addGroup ⟨drawn.id, name, description, actor, drawn.now⟩ v.2.db >>= fun made =>
        addMembership ⟨drawn.id, actor, roleOwner, drawn.now⟩ made) = .ok db' := by
      rw [hmade]
      exact hsettled
    rw [houtcome]
    refine makes_member.bind (fun owned howned => ?_) fun error herror => ?_
    · cases hsettled.symm.trans howned
      exact ⟨rfl, rfl⟩
    · cases hsettled.symm.trans herror
  · rw [herror]
    exact ⟨rfl, rfl⟩

theorem settles_updateGroup :
    Settles (GroupService.updateGroup actor groupId name description) v
      (updateGroup actor groupId name description v.2.db) := by
  apply settles_mayManage
  apply settles_ofExcept_bind
  intro name _
  apply settles_ofExcept_bind
  intro description _
  apply settles_query_bind
  split
  · exact settles_refused _
  rename_i hother
  have hname : ∀ group, v.2.db.findGroupByName name = some group → group.id = groupId := by
    intro group hgroup
    rw [hgroup] at hother
    simpa [Group.heldByOther] using hother
  obtain ⟨n, db', hupdate⟩ := Db.updateGroup_admitted description hname
  unfold Settles change
  refine execute_bind ?_ fun message hcalm => by cases hcalm
  rw [Db.execute_ok hupdate, hupdate]
  dsimp only
  by_cases hcount : n = 0
  · rw [if_pos hcount, if_pos hcount]
    subst hcount
    exact ⟨rfl, Db.updateGroup_zero hupdate⟩
  · rw [if_neg hcount, if_neg hcount]
    exact settles_readBack rfl (Db.findGroupById_updateGroup hupdate hcount)

theorem settles_deleteGroup :
    Settles (GroupService.deleteGroup actor groupId) v (deleteGroup actor groupId v.2.db) := by
  apply settles_found_bind
  intro group _
  split
  · exact settles_refused _
  · exact settles_change fun _ => Db.deleteGroup_zero

theorem settles_addMember {now username role : String} :
    Settles (GroupService.addMember now actor groupId username role) v
      (addMember now actor groupId username role v.2.db) := by
  apply settles_mayManage
  apply settles_ofExcept_bind
  intro _ _
  split
  · exact settles_refused _
  exact settles_found_bind fun target _ => makes_member.settles

theorem settles_requireMember {f : Unit → ServiceProgram β}
    (hnone : Db.affected v.2.db.members.rows (·.key = (groupId, userId)) = 0 → outcome = .error .notFound)
    (h : Settles (f ()) v outcome) : Settles ((requireMember groupId userId).bind f) v outcome := by
  rw [requireMember, Program.bind_eq, Program.bind_assoc]
  apply settles_query_bind
  by_cases hmember : v.2.db.isMember groupId userId = false
  · rw [if_pos hmember, hnone (Nat.eq_zero_of_not_pos (of_decide_eq_false hmember))]
    exact settles_refused _
  · rw [if_neg hmember]
    exact h

theorem settles_removeMember :
    Settles (GroupService.removeMember actor groupId userId) v (removeMember actor groupId userId v.2.db) := by
  apply settles_found_bind
  intro group _
  split
  · exact settles_refused _
  split
  · exact settles_mayManage (settles_change fun _ => Db.deleteMember_zero)
  · rename_i hself
    obtain rfl : actor = userId := not_not.mp hself
    exact settles_requireMember (fun hzero => if_pos hzero) (settles_change fun _ => Db.deleteMember_zero)

theorem settles_updateMemberRole {role : String} :
    Settles (GroupService.updateMemberRole actor groupId userId role) v
      (updateMemberRole actor groupId userId role v.2.db) := by
  apply settles_found_bind
  intro group _
  split
  · exact settles_refused _
  split
  · exact settles_refused _
  apply settles_ofExcept_bind
  intro _ _
  split
  · exact settles_refused _
  refine settles_requireMember (fun hzero => if_pos hzero) ?_
  exact settles_change_readBack (fun _ => Db.updateRole_zero) fun _ _ => Db.findMember_updateRole

variable {spaceId granteeType granteeId permission now username : String}

theorem makes_space {params : Space.CreateParams} :
    Makes (Space.create drawn params) v (Space.ofParams drawn params)
      (change (Db.insertSpace (Space.ofParams drawn params)) v.2.db) := by
  unfold Makes change
  refine execute_bind ?_ fun message hcalm => by cases hcalm
  cases h : Db.insertSpace (Space.ofParams drawn params) v.2.db with
  | error refusal =>
      rw [Db.execute_error h]
      exact ⟨rfl, rfl⟩
  | ok found =>
      obtain ⟨n, db'⟩ := found
      have hcount : n ≠ 0 := by
        unfold Db.insertSpace at h
        split_ifs at h
        cases h
        exact one_ne_zero
      rw [Db.execute_ok h]
      refine query_bind ?_ fun message hcalm => by cases hcalm
      dsimp only
      rw [if_neg hcount, show db'.findSpaceById drawn.id = _ from Db.findSpaceById_insertSpace h]
      exact ⟨rfl, rfl⟩

theorem settles_createOwned (hvacant : v.1.Vacant (backend.config.dataDir ++ ["spaces"]) drawn.id)
    {ownerType ownerId : String} :
    Settles (SpaceService.createOwned backend.primitives backend.config backend.masterKey drawn ownerType ownerId name)
      v (createOwned backend drawn ownerType ownerId name v.2.db) := by
  apply settles_ofExcept_bind
  intro blob _
  refine makes_space.bind (fun made hmade => ?_) fun error herror => ?_
  · have hroot : FsService.spaceRoot backend.config drawn.id =
        (backend.config.dataDir ++ ["spaces"]) ++ [drawn.id] := by simp [FsService.spaceRoot]
    obtain ⟨content, hdirectory⟩ := createDirectory_stops hvacant "space" drawn.id
    rw [← hroot] at hdirectory
    rw [hmade]
    refine onFiles_outcome_bind hdirectory fun result tree h => ?_
    obtain ⟨rfl, rfl⟩ := h
    exact changeKeys_bind ⟨rfl, rfl⟩
  · rw [herror]
    exact ⟨rfl, rfl⟩

theorem settles_createSpace (hvacant : v.1.Vacant (backend.config.dataDir ++ ["spaces"]) drawn.id) :
    Settles (SpaceService.createSpace backend.primitives backend.config backend.masterKey drawn actor name) v
      (createSpace backend drawn actor name v.2.db) :=
  settles_ofExcept_bind fun _ _ => settles_createOwned hvacant

theorem settles_createGroupSpace (hvacant : v.1.Vacant (backend.config.dataDir ++ ["spaces"]) drawn.id) :
    Settles (SpaceService.createGroupSpace backend.primitives backend.config backend.masterKey drawn groupId name) v
      (createGroupSpace backend drawn groupId name v.2.db) := by
  apply settles_ofExcept_bind
  intro _ _
  exact settles_found_bind fun _ _ => settles_createOwned hvacant

theorem settles_updateSpace :
    Settles (SpaceService.updateSpace actor spaceId name) v (updateSpace actor spaceId name v.2.db) := by
  refine settles_mayAdminister (settles_ofExcept_bind fun _ _ => ?_)
  exact settles_change_readBack (fun _ => Db.updateSpace_zero) fun _ _ => Db.findSpaceById_updateSpace

theorem settles_deleteSpace (hhoused : Housed backend.config v) :
    Settles (SpaceService.deleteSpace backend.config actor spaceId) v (deleteSpace actor spaceId v.2.db) := by
  apply settles_mayAdminister
  refine settles_change_bind (fun _ => Db.deleteSpace_zero) fun count db' h hcount => ?_
  apply changeKeys_bind
  obtain ⟨hresolved, hdir⟩ := hhoused spaceId (has_of_deleteSpace h hcount)
  refine onFiles_bind (removeDirAll_stops (locateEntry_of_resolved hresolved) hdir) (fun _ tree _ => ⟨rfl, rfl⟩)
    fun _ _ hremoved => by cases hremoved.1

theorem settles_grant :
    Settles (SpaceAccess.grant now spaceId granteeType granteeId permission) v
      (grant ⟨spaceId, granteeType, granteeId, permission, now⟩ v.2.db) :=
  Makes.settles (makes_add fun _ _ => Db.findAccess_insertAccess)

theorem settles_grantUserAccess :
    Settles (SpaceService.grantUserAccess now actor spaceId username permission) v
      (grantUserAccess now actor spaceId username permission v.2.db) := by
  refine settles_mayAdminister (settles_ofExcept_bind fun _ _ => ?_)
  exact settles_found_bind fun target _ => settles_grant

theorem settles_grantGroupAccess :
    Settles (SpaceService.grantGroupAccess now actor spaceId groupId permission) v
      (grantGroupAccess now actor spaceId groupId permission v.2.db) := by
  refine settles_mayAdminister (settles_ofExcept_bind fun _ _ => ?_)
  exact settles_found_bind fun group _ => settles_grant

theorem settles_revokeAccess :
    Settles (SpaceService.revokeAccess actor spaceId granteeType granteeId) v
      (revokeAccess actor spaceId granteeType granteeId v.2.db) :=
  settles_mayAdminister (settles_change fun _ => Db.deleteAccess_zero)

theorem settles_updateAccessPermission :
    Settles (SpaceService.updateAccessPermission actor spaceId granteeType granteeId permission) v
      (updateAccessPermission actor spaceId granteeType granteeId permission v.2.db) := by
  refine settles_mayAdminister (settles_ofExcept_bind fun _ _ => ?_)
  exact settles_change_readBack (fun _ => Db.updatePermission_zero) fun _ _ => Db.findAccess_updatePermission

theorem makes_library {row : PersonalLibrary} (hnone : v.2.db.findLibraryByUser row.userId = none) :
    Makes (PersonalLibrary.create row) v row
      (add PersonalLibrary.alreadyHasLibrary (Db.insertLibrary row) v.2.db) := by
  refine query_bind ?_ fun message hcalm => by cases hcalm
  rw [hnone]
  exact makes_add fun _ _ => Db.findLibraryById_insertLibrary

/-- A user who was found can be marked. -/
theorem settles_setupLibrary (hvacant : v.1.Vacant (backend.config.dataDir ++ ["libraries"]) drawn.id) :
    Settles (LibraryService.setupLibrary backend.primitives backend.config backend.masterKey drawn actor) v
      (setupLibrary backend drawn actor v.2.db) := by
  apply settles_found_bind
  intro user huser
  split
  · exact settles_refused _
  apply settles_query_bind
  split
  · exact settles_refused _
  rename_i hlibrary
  have hnone : v.2.db.findLibraryByUser actor = none := by simpa using hlibrary
  apply settles_ofExcept_bind
  intro blob _
  refine (makes_library hnone).bind (fun made hmade => ?_) fun error herror => ?_
  · have hroot : FsService.libraryRoot backend.config drawn.id =
        (backend.config.dataDir ++ ["libraries"]) ++ [drawn.id] := by simp [FsService.libraryRoot]
    obtain ⟨content, hdirectory⟩ := createDirectory_stops hvacant "library" drawn.id
    rw [← hroot] at hdirectory
    obtain ⟨n, hinsert⟩ := add_ok hmade
    have huser' : made.findUserById actor = some user := by
      obtain ⟨hid, htables⟩ := Db.insertLibrary_ok hinsert
      rw [Db.findUserById, htables]
      exact huser
    obtain ⟨db', hmark, hcount⟩ := Db.markSetupComplete_of_found huser' drawn.now
    have hsettled : change (Db.markSetupComplete actor drawn.now) made = .ok db' := by
      rw [change, hmark]
      exact if_neg hcount
    have houtcome : (add PersonalLibrary.alreadyHasLibrary
        (Db.insertLibrary (PersonalLibrary.serverMode drawn actor blob)) v.2.db >>= fun made =>
          change (Db.markSetupComplete actor drawn.now) made) = .ok db' := by
      rw [hmade]
      exact hsettled
    rw [houtcome]
    refine onFiles_outcome_bind hdirectory fun result tree h => ?_
    obtain ⟨rfl, rfl⟩ := h
    apply changeKeys_bind
    refine (markSetupComplete_ensures huser').outcome_bind fun marked v' h => ?_
    obtain ⟨error, message, -, hcalm, -⟩ | ⟨m, db'', rfl, hmarked, rfl⟩ := h
    · cases hcalm
    · cases hmark.symm.trans hmarked
      exact ⟨rfl, rfl⟩
  · rw [herror]
    exact ⟨rfl, rfl⟩

end Operations

/-- A request comes to what the registry says. -/
theorem request_settles (backend : Backend) (request : Request)
    (hspaces : v.1.Vacant (backend.config.dataDir ++ ["spaces"]) request.drawn.id)
    (hlibraries : v.1.Vacant (backend.config.dataDir ++ ["libraries"]) request.drawn.id)
    (hhoused : Housed backend.config v) :
    Settles (request.program backend) v (settle backend request v.2.db) := by
  obtain ⟨actor, drawn, operation⟩ := request
  cases operation with
  | register salt username email password => exact settles_discard settles_register
  | setupLibrary => exact settles_discard (settles_setupLibrary hlibraries)
  | createGroup name description => exact settles_discard settles_createGroup
  | updateGroup groupId name description => exact settles_discard settles_updateGroup
  | deleteGroup groupId => exact settles_deleteGroup
  | addMember groupId username role => exact settles_discard settles_addMember
  | removeMember groupId userId => exact settles_removeMember
  | updateMemberRole groupId userId role => exact settles_discard settles_updateMemberRole
  | createSpace name => exact settles_discard (settles_createSpace hspaces)
  | createGroupSpace groupId name => exact settles_discard (settles_createGroupSpace hspaces)
  | updateSpace spaceId name => exact settles_discard settles_updateSpace
  | deleteSpace spaceId => exact settles_deleteSpace hhoused
  | grantUserAccess spaceId username permission => exact settles_discard settles_grantUserAccess
  | grantGroupAccess spaceId groupId permission => exact settles_discard settles_grantGroupAccess
  | revokeAccess spaceId granteeType granteeId => exact settles_revokeAccess
  | updateAccessPermission spaceId granteeType granteeId permission =>
      exact settles_discard settles_updateAccessPermission

/-! ### Sessions -/

section Sessions

variable {crates : AuthCrates} {P : Primitives} {now : Int}

theorem makes_session {drawn : Drawn} {userId tokenHash : String} {expiresAt : Int} :
    Makes (SessionRow.create crates drawn userId tokenHash expiresAt) v
      ⟨drawn.id, userId, tokenHash, crates.formatTimestamp (expiresAt / nanos), drawn.now⟩
      (change (Db.insertSession
        ⟨drawn.id, userId, tokenHash, crates.formatTimestamp (expiresAt / nanos), drawn.now⟩) v.2.db) := by
  unfold Makes change
  refine execute_bind ?_ fun message hcalm => by cases hcalm
  generalize hrow : (⟨drawn.id, userId, tokenHash, crates.formatTimestamp (expiresAt / nanos), drawn.now⟩ :
    SessionRow) = row
  cases h : Db.insertSession row v.2.db with
  | error refusal =>
      rw [Db.execute_error h]
      exact ⟨rfl, rfl⟩
  | ok found =>
      obtain ⟨n, db'⟩ := found
      have hcount : n ≠ 0 := by
        unfold Db.insertSession at h
        split_ifs at h
        cases h
        exact one_ne_zero
      rw [Db.execute_ok h]
      dsimp only
      rw [if_neg hcount]
      exact ⟨rfl, rfl⟩

theorem settles_login {config : AppConfig} {drawn : Drawn} {token username password : String} :
    Settles (AuthService.login crates config P drawn now token username password) v
      (login crates P now config drawn token username password v.2.db) := by
  apply settles_ofExcept_bind
  intro name _
  apply settles_found_bind
  intro found _
  obtain ⟨userId, storedHash⟩ := found
  apply settles_ofExcept_bind
  intro isValid _
  dsimp only
  split
  · exact settles_refused _
  apply settles_found_bind
  intro user _
  split
  · exact settles_refused _
  exact settles_map makes_session.settles

theorem settles_drop {p : SessionRow → Bool} :
    Settles (SessionRow.delete p) v (.ok (v.2.db.dropSessions p)) := by
  refine Program.Ensures.mono delete_sessions_calm fun result v' h => ?_
  obtain ⟨rfl, rfl⟩ := h
  exact ⟨rfl, rfl⟩

theorem settles_attend (op : SessionOp) : Settles (op.program crates P now) v (attend crates P now op v.2.db) := by
  cases op with
  | login config drawn token username password => exact settles_map settles_login
  | logout userId token => exact settles_map (settles_map (settles_map settles_drop))
  | validate token =>
      refine settles_map (Program.Ensures.mono validate_calm fun result v' h => ?_)
      obtain ⟨rfl, rfl⟩ := h
      exact ⟨rfl, rfl⟩
  | deleteExpired => exact settles_map settles_drop

end Sessions

end Registry

end IronDrive
