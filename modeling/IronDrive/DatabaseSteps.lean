import IronDrive.Database

/-! What a statement that goes through leaves in the tables, one lemma for each statement. -/

namespace IronDrive

open Lib

namespace Db

variable {db db' : Db} {n : Nat}

theorem insertUser_ok {row : UserRow} (h : insertUser row db = .ok (n, db')) :
    ∃ hid, db'.toTables = { db.toTables with users := db.users.insert row hid } := by
  unfold insertUser at h
  split_ifs at h with hid
  cases h
  exact ⟨hid, rfl⟩

theorem markSetupComplete_ok {userId now : String} (h : markSetupComplete userId now db = .ok (n, db')) :
    db'.toTables = { db.toTables with
      users := db.users.updateWhere (·.id = userId) (UserRow.completeSetup now) (UserRow.completeSetup_id now) } := by
  cases h
  rfl

theorem insertSession_ok {row : SessionRow} (h : insertSession row db = .ok (n, db')) :
    ∃ hid, db'.toTables = { db.toTables with sessions := db.sessions.insert row hid } ∧
      row.tokenHash ∉ db.sessions.rows.map SessionRow.tokenHash := by
  unfold insertSession at h
  split_ifs at h with hid hhash
  cases h
  exact ⟨hid, rfl, hhash⟩

theorem deleteSessions_ok {p : SessionRow → Bool} (h : deleteSessions p db = .ok (n, db')) :
    db'.toTables = { db.toTables with sessions := db.sessions.deleteWhere p } := by
  cases h
  rfl

theorem insertLibrary_ok {row : PersonalLibrary} (h : insertLibrary row db = .ok (n, db')) :
    ∃ hid, db'.toTables = { db.toTables with libraries := db.libraries.insert row hid } := by
  unfold insertLibrary at h
  split_ifs at h with hid
  cases h
  exact ⟨hid, rfl⟩

theorem deleteLibrary_ok {id : String} (h : deleteLibrary id db = .ok (n, db')) :
    db'.toTables = { db.toTables with libraries := db.libraries.deleteWhere (·.id = id) } := by
  cases h
  rfl

theorem insertGroup_ok {row : Group} (h : insertGroup row db = .ok (n, db')) :
    ∃ hid, db'.toTables = { db.toTables with groups := db.groups.insert row hid } ∧
      row.createdBy ∈ db.users.rows.map UserRow.id := by
  unfold insertGroup at h
  split_ifs at h with hid hname hcreator
  cases h
  exact ⟨hid, rfl, hcreator⟩

theorem updateGroup_ok {id name : String} {description : Option String}
    (h : updateGroup id name description db = .ok (n, db')) :
    db'.toTables = { db.toTables with
      groups := db.groups.updateWhere (·.id = id)
        (fun row => { row with name := name, description := description }) fun _ => rfl } := by
  unfold updateGroup at h
  split_ifs at h with hid
  · cases h
    rfl
  · cases h
    have hnone : ∀ row ∈ db.groups.rows, decide (row.id = id) = false := fun row hrow =>
      decide_eq_false fun heq => hid (heq ▸ List.mem_map_of_mem hrow)
    rw [Table.updateWhere_none hnone]

theorem deleteGroup_ok {id : String} (h : deleteGroup id db = .ok (n, db')) :
    db'.toTables = { db.toTables with
      groups := db.groups.deleteWhere (·.id = id), members := db.members.deleteWhere (·.groupId = id) } := by
  cases h
  rfl

theorem insertMember_ok {row : GroupMember} (h : insertMember row db = .ok (n, db')) :
    ∃ hkey, db'.toTables = { db.toTables with members := db.members.insert row hkey } ∧
      row.groupId ∈ db.groups.rows.map Group.id := by
  unfold insertMember at h
  split_ifs at h with hkey hrefs
  cases h
  exact ⟨hkey, rfl, hrefs.1⟩

theorem deleteMember_ok {groupId userId : String} (h : deleteMember groupId userId db = .ok (n, db')) :
    db'.toTables = { db.toTables with members := db.members.deleteWhere (·.key = (groupId, userId)) } := by
  cases h
  rfl

theorem updateRole_ok {groupId userId newRole : String} (h : updateRole groupId userId newRole db = .ok (n, db')) :
    db'.toTables = { db.toTables with
      members := db.members.updateWhere (·.key = (groupId, userId)) (fun row => { row with role := newRole })
        fun _ => rfl } := by
  cases h
  rfl

theorem insertSpace_ok {row : Space} (h : insertSpace row db = .ok (n, db')) :
    ∃ hid, db'.toTables = { db.toTables with spaces := db.spaces.insert row hid } := by
  unfold insertSpace at h
  split_ifs at h with hid
  cases h
  exact ⟨hid, rfl⟩

theorem updateSpace_ok {id name : String} (h : updateSpace id name db = .ok (n, db')) :
    db'.toTables = { db.toTables with
      spaces := db.spaces.updateWhere (·.id = id) (fun row => { row with name := name }) fun _ => rfl } := by
  cases h
  rfl

theorem deleteSpace_ok {id : String} (h : deleteSpace id db = .ok (n, db')) :
    db'.toTables = { db.toTables with
      spaces := db.spaces.deleteWhere (·.id = id), access := db.access.deleteWhere (·.spaceId = id) } := by
  cases h
  rfl

theorem insertAccess_ok {row : SpaceAccess} (h : insertAccess row db = .ok (n, db')) :
    ∃ hkey, db'.toTables = { db.toTables with access := db.access.insert row hkey } := by
  unfold insertAccess at h
  split_ifs at h with hkey
  cases h
  exact ⟨hkey, rfl⟩

theorem deleteAccess_ok {spaceId granteeType granteeId : String}
    (h : deleteAccess spaceId granteeType granteeId db = .ok (n, db')) :
    db'.toTables = { db.toTables with
      access := db.access.deleteWhere (·.key = (spaceId, granteeType, granteeId)) } := by
  cases h
  rfl

theorem updatePermission_ok {spaceId granteeType granteeId permission : String}
    (h : updatePermission spaceId granteeType granteeId permission db = .ok (n, db')) :
    db'.toTables = { db.toTables with
      access := db.access.updateWhere (·.key = (spaceId, granteeType, granteeId))
        (fun row => { row with permission := permission }) fun _ => rfl } := by
  cases h
  rfl

theorem findGroupById_insertGroup {row : Group} (h : insertGroup row db = .ok (n, db')) :
    db'.findGroupById row.id = some row := by
  obtain ⟨hid, htables, -⟩ := insertGroup_ok h
  rw [findGroupById, htables]
  exact Table.find_insert hid

theorem findSpaceById_insertSpace {row : Space} (h : insertSpace row db = .ok (n, db')) :
    db'.findSpaceById row.id = some row := by
  obtain ⟨hid, htables⟩ := insertSpace_ok h
  rw [findSpaceById, htables]
  exact Table.find_insert hid

theorem findLibraryById_insertLibrary {row : PersonalLibrary} (h : insertLibrary row db = .ok (n, db')) :
    db'.findLibraryById row.id = some row := by
  obtain ⟨hid, htables⟩ := insertLibrary_ok h
  rw [findLibraryById, htables]
  exact Table.find_insert hid

/-- Deleting the space just inserted is as if it never was. -/
theorem deleteSpace_insertSpace {row : Space} {made : Db} {m : Nat} (h : insertSpace row db = .ok (n, made))
    (hdelete : deleteSpace row.id made = .ok (m, db')) : db' = db := by
  obtain ⟨hid, hmade⟩ := insertSpace_ok h
  apply eq_of_tables
  rw [deleteSpace_ok hdelete, hmade]
  have hspaces : (db.spaces.insert row hid).deleteWhere (fun space => decide (space.id = row.id)) = db.spaces :=
    Table.deleteWhere_insert hid
  have haccess : db.access.deleteWhere (fun a => decide (a.spaceId = row.id)) = db.access := by
    apply Table.deleteWhere_none
    intro a ha
    have hne : a.spaceId ≠ row.id := fun heq => hid (heq ▸ db.accessSpaces a ha)
    simpa using hne
  rw [hspaces, haccess]

theorem deleteLibrary_insertLibrary {row : PersonalLibrary} {made : Db} {m : Nat}
    (h : insertLibrary row db = .ok (n, made)) (hdelete : deleteLibrary row.id made = .ok (m, db')) :
    db' = db := by
  obtain ⟨hid, hmade⟩ := insertLibrary_ok h
  apply eq_of_tables
  rw [deleteLibrary_ok hdelete, hmade]
  have hlibraries : (db.libraries.insert row hid).deleteWhere (fun other => decide (other.id = row.id)) =
      db.libraries := Table.deleteWhere_insert hid
  rw [hlibraries]

theorem none_of_affected {ρ : Type} {rows : List ρ} {p : ρ → Bool} (h : affected rows p = 0) :
    ∀ row ∈ rows, p row = false := by
  intro row hrow
  have hnot := List.filter_eq_nil_iff.mp (List.length_eq_zero_iff.mp h) row hrow
  simpa using hnot

theorem some_of_affected {ρ : Type} {rows : List ρ} {p : ρ → Bool} (h : affected rows p ≠ 0) :
    ∃ row ∈ rows, p row = true := by
  rw [affected, Ne, List.length_eq_zero_iff] at h
  obtain ⟨row, hrow⟩ := List.exists_mem_of_ne_nil _ h
  exact ⟨row, List.mem_filter.mp hrow⟩

/-- A deletion that applies to no row changes nothing. -/
theorem deleteSpace_zero {id : String} (h : deleteSpace id db = .ok (0, db')) : db' = db := by
  have hnone := none_of_affected (Prod.mk.inj (Except.ok.inj h)).1
  apply eq_of_tables
  rw [deleteSpace_ok h, Table.deleteWhere_none hnone]
  have haccess : db.access.deleteWhere (fun a => decide (a.spaceId = id)) = db.access := by
    apply Table.deleteWhere_none
    intro a ha
    obtain ⟨space, hspace, heq⟩ := List.mem_map.mp (db.accessSpaces a ha)
    rw [← heq]
    exact hnone space hspace
  rw [haccess]

theorem deleteGroup_zero {id : String} (h : deleteGroup id db = .ok (0, db')) : db' = db := by
  have hnone := none_of_affected (Prod.mk.inj (Except.ok.inj h)).1
  apply eq_of_tables
  rw [deleteGroup_ok h, Table.deleteWhere_none hnone]
  have hmembers : db.members.deleteWhere (fun m => decide (m.groupId = id)) = db.members := by
    apply Table.deleteWhere_none
    intro m hm
    obtain ⟨group, hgroup, heq⟩ := List.mem_map.mp (db.memberGroups m hm)
    rw [← heq]
    exact hnone group hgroup
  rw [hmembers]

theorem deleteMember_zero {groupId userId : String} (h : deleteMember groupId userId db = .ok (0, db')) :
    db' = db := by
  apply eq_of_tables
  rw [deleteMember_ok h, Table.deleteWhere_none (none_of_affected (Prod.mk.inj (Except.ok.inj h)).1)]

theorem updateRole_zero {groupId userId newRole : String} (h : updateRole groupId userId newRole db = .ok (0, db')) :
    db' = db := by
  apply eq_of_tables
  rw [updateRole_ok h]
  exact congrArg (fun members => { db.toTables with members := members })
    (Table.updateWhere_none (none_of_affected (Prod.mk.inj (Except.ok.inj h)).1))

theorem updateSpace_zero {id name : String} (h : updateSpace id name db = .ok (0, db')) : db' = db := by
  apply eq_of_tables
  rw [updateSpace_ok h, Table.updateWhere_none (none_of_affected (Prod.mk.inj (Except.ok.inj h)).1)]

theorem deleteAccess_zero {spaceId granteeType granteeId : String}
    (h : deleteAccess spaceId granteeType granteeId db = .ok (0, db')) : db' = db := by
  apply eq_of_tables
  rw [deleteAccess_ok h, Table.deleteWhere_none (none_of_affected (Prod.mk.inj (Except.ok.inj h)).1)]

theorem updatePermission_zero {spaceId granteeType granteeId permission : String}
    (h : updatePermission spaceId granteeType granteeId permission db = .ok (0, db')) : db' = db := by
  apply eq_of_tables
  rw [updatePermission_ok h]
  exact congrArg (fun access => { db.toTables with access := access })
    (Table.updateWhere_none (none_of_affected (Prod.mk.inj (Except.ok.inj h)).1))

/-- What an update of a group counts. -/
theorem updateGroup_count {id name : String} {description : Option String}
    (h : updateGroup id name description db = .ok (n, db')) : affected db.groups.rows (·.id = id) = n := by
  unfold updateGroup at h
  split_ifs at h with hid
  · exact (Prod.mk.inj (Except.ok.inj h)).1
  · rw [← (Prod.mk.inj (Except.ok.inj h)).1, affected, List.length_eq_zero_iff, List.filter_eq_nil_iff]
    intro row hrow heq
    exact hid (of_decide_eq_true heq ▸ List.mem_map_of_mem hrow)

theorem updateGroup_zero {id name : String} {description : Option String}
    (h : updateGroup id name description db = .ok (0, db')) : db' = db := by
  apply eq_of_tables
  rw [updateGroup_ok h, Table.updateWhere_none (none_of_affected (updateGroup_count h))]

theorem findMember_updateRole {groupId userId newRole : String}
    (h : updateRole groupId userId newRole db = .ok (n, db')) (hcount : n ≠ 0) :
    (db'.findMember groupId userId).isSome := by
  rw [← (Prod.mk.inj (Except.ok.inj h)).1] at hcount
  obtain ⟨row, hrow, hkey⟩ := some_of_affected hcount
  rw [findMember, updateRole_ok h]
  refine Table.isSome_find_updateWhere ?_ ⟨row, hrow, of_decide_eq_true hkey⟩
  exact fun _ => rfl

theorem findSpaceById_updateSpace {id name : String} (h : updateSpace id name db = .ok (n, db')) (hcount : n ≠ 0) :
    (db'.findSpaceById id).isSome := by
  rw [← (Prod.mk.inj (Except.ok.inj h)).1] at hcount
  obtain ⟨row, hrow, hkey⟩ := some_of_affected hcount
  rw [findSpaceById, updateSpace_ok h]
  refine Table.isSome_find_updateWhere ?_ ⟨row, hrow, of_decide_eq_true hkey⟩
  exact fun _ => rfl

theorem findAccess_updatePermission {spaceId granteeType granteeId permission : String}
    (h : updatePermission spaceId granteeType granteeId permission db = .ok (n, db')) (hcount : n ≠ 0) :
    (db'.findAccess spaceId granteeType granteeId).isSome := by
  rw [← (Prod.mk.inj (Except.ok.inj h)).1] at hcount
  obtain ⟨row, hrow, hkey⟩ := some_of_affected hcount
  rw [findAccess, updatePermission_ok h]
  refine Table.isSome_find_updateWhere ?_ ⟨row, hrow, of_decide_eq_true hkey⟩
  exact fun _ => rfl

theorem findGroupById_updateGroup {id name : String} {description : Option String}
    (h : updateGroup id name description db = .ok (n, db')) (hcount : n ≠ 0) : (db'.findGroupById id).isSome := by
  rw [← updateGroup_count h] at hcount
  obtain ⟨row, hrow, hkey⟩ := some_of_affected hcount
  rw [findGroupById, updateGroup_ok h]
  refine Table.isSome_find_updateWhere ?_ ⟨row, hrow, of_decide_eq_true hkey⟩
  exact fun _ => rfl

/-- The name of a group may change when no other group holds the new one. -/
theorem updateGroup_admitted {id name : String} (description : Option String)
    (h : ∀ group, db.findGroupByName name = some group → group.id = id) :
    ∃ n db', updateGroup id name description db = .ok (n, db') := by
  unfold updateGroup
  split_ifs with hid hname
  · exact ⟨_, _, rfl⟩
  · refine absurd (fun row hrow heq => h row ?_) hname
    have hsome : (db.findGroupByName name).isSome := List.find?_isSome.mpr ⟨row, hrow, decide_eq_true heq⟩
    obtain ⟨found, hfound⟩ := Option.isSome_iff_exists.mp hsome
    have hheld : found.name = name := by simpa using List.find?_some hfound
    rw [hfound, List.inj_on_of_nodup_map db.groupNames (List.mem_of_find?_eq_some hfound) hrow
      (hheld.trans heq.symm)]
  · exact ⟨_, _, rfl⟩

theorem findUserById_insertUser {row : UserRow} (h : insertUser row db = .ok (n, db')) :
    db'.findUserById row.id = some row.user := by
  obtain ⟨hid, htables⟩ := insertUser_ok h
  rw [findUserById, htables]
  exact congrArg (Option.map UserRow.user) (Table.find_insert hid)

theorem findAccess_insertAccess {row : SpaceAccess} (h : insertAccess row db = .ok (n, db')) :
    db'.findAccess row.spaceId row.granteeType row.granteeId = some row := by
  obtain ⟨hkey, htables⟩ := insertAccess_ok h
  rw [findAccess, htables]
  exact Table.find_insert hkey

/-- A user that is found can be marked. -/
theorem markSetupComplete_of_found {userId : String} {user : User} (h : db.findUserById userId = some user)
    (now : String) :
    ∃ db', markSetupComplete userId now db = .ok (affected db.users.rows (·.id = userId), db') ∧
      affected db.users.rows (·.id = userId) ≠ 0 := by
  obtain ⟨row, hrow, -⟩ := Option.map_eq_some_iff.mp h
  refine ⟨_, rfl, ?_⟩
  rw [affected, Ne, List.length_eq_zero_iff, List.filter_eq_nil_iff]
  intro hnone
  have hid : decide (row.id = userId) = true := by simpa using List.find?_some hrow
  exact hnone row (List.mem_of_find?_eq_some hrow) hid

/-- The creator of a new group can always be added to it. -/
theorem insertMember_insertGroup {group : Group} (h : insertGroup group db = .ok (n, db')) (role joinedAt : String) :
    ∃ m db'', insertMember ⟨group.id, group.createdBy, role, joinedAt⟩ db' = .ok (m, db'') := by
  obtain ⟨hid, htables, hcreator⟩ := insertGroup_ok h
  have hkey : GroupMember.key ⟨group.id, group.createdBy, role, joinedAt⟩ ∉
      db'.members.rows.map GroupMember.key := by
    intro hmem
    rw [htables] at hmem
    obtain ⟨m, hm, heq⟩ := List.mem_map.mp hmem
    have hgroup : m.groupId = group.id := (Prod.mk.inj heq).1
    exact hid (hgroup ▸ db.memberGroups m hm)
  have hrefs : group.id ∈ db'.groups.rows.map Group.id ∧ group.createdBy ∈ db'.users.rows.map UserRow.id := by
    rw [htables]
    exact ⟨Table.key_mem_insert hid, hcreator⟩
  exact ⟨1, _, by rw [insertMember, dif_neg hkey, dif_pos hrefs]⟩

theorem insertSpace_of_fresh (row : Space) (hid : row.id ∉ db.spaces.rows.map Space.id) :
    ∃ db', insertSpace row db = .ok (1, db') :=
  ⟨_, dif_neg hid⟩

theorem mem_users_iff_found {userId : String} :
    userId ∈ db.users.rows.map UserRow.id ↔ ∃ user, db.findUserById userId = some user := by
  constructor
  · intro hmem
    obtain ⟨row, hrow, heq⟩ := List.mem_map.mp hmem
    have hsome : (db.users.rows.find? (·.id = userId)).isSome := List.find?_isSome.mpr ⟨row, hrow, by simpa using heq⟩
    obtain ⟨found, hfound⟩ := Option.isSome_iff_exists.mp hsome
    exact ⟨found.user, by rw [findUserById, hfound]; rfl⟩
  · intro hfound
    obtain ⟨user, h⟩ := hfound
    obtain ⟨row, hrow, -⟩ := Option.map_eq_some_iff.mp h
    have hid : row.id = userId := by simpa using List.find?_some hrow
    exact List.mem_map.mpr ⟨row, List.mem_of_find?_eq_some hrow, hid⟩

theorem insertLibrary_of_fresh (row : PersonalLibrary) {user : User}
    (hid : row.id ∉ db.libraries.rows.map PersonalLibrary.id) (hnone : db.findLibraryByUser row.userId = none)
    (huser : db.findUserById row.userId = some user) : ∃ db', insertLibrary row db = .ok (1, db') := by
  have hfree : row.userId ∉ db.libraries.rows.map PersonalLibrary.userId := by
    intro hmem
    obtain ⟨other, hother, heq⟩ := List.mem_map.mp hmem
    have hnot := List.find?_eq_none.mp hnone other hother
    exact hnot (by simpa using heq)
  exact ⟨_, by rw [insertLibrary, dif_neg hid, dif_neg hfree, dif_pos (mem_users_iff_found.mpr ⟨_, huser⟩)]⟩

theorem insertGroup_of_fresh (row : Group) {user : User} (hid : row.id ∉ db.groups.rows.map Group.id)
    (hnone : db.findGroupByName row.name = none) (huser : db.findUserById row.createdBy = some user) :
    ∃ db', insertGroup row db = .ok (1, db') := by
  have hfree : row.name ∉ db.groups.rows.map Group.name := by
    intro hmem
    obtain ⟨other, hother, heq⟩ := List.mem_map.mp hmem
    have hnot := List.find?_eq_none.mp hnone other hother
    exact hnot (by simpa using heq)
  exact ⟨_, by rw [insertGroup, dif_neg hid, dif_neg hfree, dif_pos (mem_users_iff_found.mpr ⟨_, huser⟩)]⟩

theorem findMember_insertMember {row : GroupMember} (h : insertMember row db = .ok (n, db')) :
    db'.findMember row.groupId row.userId = some row := by
  obtain ⟨hkey, htables, -⟩ := insertMember_ok h
  rw [findMember, htables]
  exact Table.find_insert hkey

/-! ### An insertion shows -/

theorem insertSpace_ne {row : Space} (h : insertSpace row db = .ok (n, db')) : db' ≠ db := by
  obtain ⟨hid, htables⟩ := insertSpace_ok h
  intro heq
  have hspaces : db.spaces.insert row hid = db.spaces := by
    rw [heq] at htables
    exact (congrArg Tables.spaces htables).symm
  exact Table.insert_ne hid hspaces

theorem insertLibrary_ne {row : PersonalLibrary} (h : insertLibrary row db = .ok (n, db')) : db' ≠ db := by
  obtain ⟨hid, htables⟩ := insertLibrary_ok h
  intro heq
  have hlibraries : db.libraries.insert row hid = db.libraries := by
    rw [heq] at htables
    exact (congrArg Tables.libraries htables).symm
  exact Table.insert_ne hid hlibraries

theorem insertGroup_ne {row : Group} (h : insertGroup row db = .ok (n, db')) : db' ≠ db := by
  obtain ⟨hid, htables, -⟩ := insertGroup_ok h
  intro heq
  have hgroups : db.groups.insert row hid = db.groups := by
    rw [heq] at htables
    exact (congrArg Tables.groups htables).symm
  exact Table.insert_ne hid hgroups

end Db

end IronDrive
