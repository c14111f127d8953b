import IronDrive.Operations

/-! Who owns a group. The owner's role is given only to the creator, when the group is made, and can neither be
changed nor taken away; everybody else is a manager or a plain member. -/

namespace IronDrive

open Lib GroupService

/-- The creator of each group is its owner, and the others are not. -/
structure Owned (db : Db) : Prop where
  creator : ∀ group ∈ db.groups.rows, ∃ m ∈ db.members.rows, m.key = (group.id, group.createdBy) ∧ m.role = roleOwner
  others : ∀ m ∈ db.members.rows, ∀ group ∈ db.groups.rows, m.groupId = group.id → m.userId ≠ group.createdBy →
    m.role = roleManager ∨ m.role = roleMember

variable {G : Option String → Prop} {backend : Backend} {request : Request} {records records' : Records}
  {db db' : Db} {id actor : String} {condemned : Option String}

theorem Owned.of_same (h : Owned db) (hgroups : db'.groups = db.groups) (hmembers : db'.members = db.members) :
    Owned db' where
  creator := by rw [hgroups, hmembers]; exact h.creator
  others := by rw [hgroups, hmembers]; exact h.others

/-- A group that is found is the one under its identifier. -/
theorem findGroupById_unique {group other : Group} (h : db.findGroupById group.id = some group)
    (hother : other ∈ db.groups.rows) (hid : other.id = group.id) : other = group :=
  List.inj_on_of_nodup_map db.groups.nodup hother (List.mem_of_find?_eq_some h) hid

theorem Owned.created {group : Group} {joinedAt : String} {n m : Nat} {made : Db} (h : Owned db)
    (hinsert : Db.insertGroup group db = .ok (n, made))
    (hadd : Db.insertMember ⟨group.id, group.createdBy, roleOwner, joinedAt⟩ made = .ok (m, db')) : Owned db' := by
  obtain ⟨hid, hmade, -⟩ := Db.insertGroup_ok hinsert
  obtain ⟨hkey, htables, -⟩ := Db.insertMember_ok hadd
  have hgroups : db'.groups = db.groups.insert group hid := by
    have hsame : db'.groups = made.groups := by rw [htables]
    rw [hsame, hmade]
  have hmembers : ∀ row, row ∈ db'.members.rows ↔
      row ∈ db.members.rows ∨ row = ⟨group.id, group.createdBy, roleOwner, joinedAt⟩ := by
    intro row
    have hsame : made.members = db.members := by rw [hmade]
    simp only [htables]
    rw [Table.mem_insert, hsame]
  constructor
  · rw [hgroups]
    apply Table.forall_mem_insert
    · intro old hold
      obtain ⟨row, hrow, hfacts⟩ := h.creator old hold
      exact ⟨row, (hmembers row).mpr (Or.inl hrow), hfacts⟩
    · exact ⟨_, (hmembers _).mpr (Or.inr rfl), rfl, rfl⟩
  · intro row hrow
    rw [hgroups]
    apply Table.forall_mem_insert
    · intro old hold hgroup hne
      rcases (hmembers row).mp hrow with hin | rfl
      · exact h.others row hin old hold hgroup hne
      · exact absurd (List.mem_map.mpr ⟨old, hold, hgroup.symm⟩) hid
    · intro hgroup hne
      rcases (hmembers row).mp hrow with hin | rfl
      · exact absurd (hgroup ▸ db.memberGroups row hin) hid
      · exact absurd rfl hne

theorem Owned.updated {groupId name : String} {description : Option String} {n : Nat} (h : Owned db)
    (hupdate : Db.updateGroup groupId name description db = .ok (n, db')) : Owned db' := by
  have htables := Db.updateGroup_ok hupdate
  constructor
  · simp only [htables]
    exact Table.forall_mem_updateWhere h.creator fun _ hrow => hrow
  · simp only [htables]
    intro row hrow
    exact Table.forall_mem_updateWhere (h.others row hrow) fun _ hgroup => hgroup

theorem Owned.deleted {groupId : String} {n : Nat} (h : Owned db)
    (hdelete : Db.deleteGroup groupId db = .ok (n, db')) : Owned db' := by
  have htables := Db.deleteGroup_ok hdelete
  constructor
  · simp only [htables]
    intro group hgroup
    obtain ⟨hin, hne⟩ := Table.mem_deleteWhere.mp hgroup
    obtain ⟨row, hrow, hkey, hrole⟩ := h.creator group hin
    have hrowGroup : row.groupId = group.id := (Prod.mk.inj hkey).1
    exact ⟨row, Table.mem_deleteWhere.mpr ⟨hrow, by rw [hrowGroup]; exact hne⟩, hkey, hrole⟩
  · simp only [htables]
    intro row hrow group hgroup
    exact h.others row (Table.mem_deleteWhere.mp hrow).1 group (Table.mem_deleteWhere.mp hgroup).1

theorem Owned.added {row : GroupMember} {n : Nat} (h : Owned db)
    (hrole : row.role = roleManager ∨ row.role = roleMember)
    (hadd : Db.insertMember row db = .ok (n, db')) : Owned db' := by
  obtain ⟨hkey, htables, -⟩ := Db.insertMember_ok hadd
  constructor
  · simp only [htables]
    intro group hgroup
    obtain ⟨owner, howner, hfacts⟩ := h.creator group hgroup
    exact ⟨owner, Table.mem_insert.mpr (Or.inl howner), hfacts⟩
  · simp only [htables]
    exact Table.forall_mem_insert hkey h.others fun _ _ _ _ => hrole

theorem Owned.removed {group : Group} {userId : String} {n : Nat} (h : Owned db)
    (hfound : db.findGroupById group.id = some group) (hne : userId ≠ group.createdBy)
    (hremove : Db.deleteMember group.id userId db = .ok (n, db')) : Owned db' := by
  have htables := Db.deleteMember_ok hremove
  constructor
  · simp only [htables]
    intro other hother
    obtain ⟨owner, howner, hkey, hrole⟩ := h.creator other hother
    refine ⟨owner, Table.mem_deleteWhere.mpr ⟨howner, ?_⟩, hkey, hrole⟩
    rw [decide_eq_false_iff_not, hkey, Prod.mk.injEq]
    -- The one removed is not the creator of this group.
    rintro ⟨hid, huser⟩
    rw [findGroupById_unique hfound hother hid] at huser
    exact hne huser.symm
  · simp only [htables]
    exact fun row hrow => h.others row (Table.mem_deleteWhere.mp hrow).1

theorem Owned.changedRole {group : Group} {userId role : String} {n : Nat} (h : Owned db)
    (hfound : db.findGroupById group.id = some group) (hne : userId ≠ group.createdBy)
    (hrole : role = roleManager ∨ role = roleMember)
    (hchange : Db.updateRole group.id userId role db = .ok (n, db')) : Owned db' := by
  have htables := Db.updateRole_ok hchange
  constructor
  · simp only [htables]
    intro other hother
    obtain ⟨owner, howner, hkey, hownerRole⟩ := h.creator other hother
    refine ⟨owner, Table.mem_updateWhere_of_not howner ?_, hkey, hownerRole⟩
    rw [decide_eq_false_iff_not, hkey, Prod.mk.injEq]
    rintro ⟨hid, huser⟩
    rw [findGroupById_unique hfound hother hid] at huser
    exact hne huser.symm
  · simp only [htables]
    intro row hrow other hother hgroup hneOther
    rcases Table.mem_updateWhere hrow with hold | ⟨old, hold, hkey, rfl⟩
    · exact h.others row hold other hother hgroup hneOther
    · exact hrole

/-! ### Every run -/

/-- An operation on groups keeps the owners, as long as the database does not fail. -/
theorem GroupEffect.owned (h : GroupEffect Calm id actor condemned db db') (howned : Owned db) : Owned db' := by
  cases h with
  | rejected => exact howned
  | created hid hcreator hinsert hadd =>
      subst hid hcreator
      exact howned.created hinsert hadd
  | ownerless hcalm _ _ _ => cases hcalm
  | updated hupdate => exact howned.updated hupdate
  | deleted _ _ _ hdelete => exact howned.deleted hdelete
  | added _ hrole _ _ hadd => exact howned.added hrole hadd
  | removed hfound hne hremove => exact howned.removed hfound hne hremove
  | changedRole hfound _ hne hrole hchange => exact howned.changedRole hfound hne hrole hchange

theorem Effect.owned (h : Effect Calm backend request records records') (howned : Owned records.db) :
    Owned records'.db := by
  cases h with
  | account hregister =>
      have hframe := hregister.frame
      exact howned.of_same (by rw [hframe]) (by rw [hframe])
  | library hsetup =>
      have hframe := hsetup.frame
      exact howned.of_same (by rw [hframe]) (by rw [hframe])
  | group hgroup => exact hgroup.owned howned
  | space _ hspace =>
      have hframe := hspace.frame
      exact howned.of_same (by rw [hframe]) (by rw [hframe])

theorem owned_firstSite (disk : Disk) : Owned (firstSite disk).db where
  creator := by simp [firstSite, Site.db, Db.empty, Table.empty]
  others := by simp [firstSite, Site.db, Db.empty, Table.empty]

theorem run_owned {disk : Disk} {requests : List Request} {site : Site}
    (h : Run (Serve Anything Calm backend) (firstSite disk) requests site) : Owned site.db := by
  apply h.invariant (I := fun site => Owned site.db)
  · exact owned_firstSite disk
  · intro site request site' howned hserve
    exact hserve.effect.owned howned

/-- In every state that the operations reach while the database does not fail, each group has exactly one
owner, its creator; its other members are managers or plain members, and every membership is of a group that is
there. -/
theorem group_ownership {disk : Disk} {requests : List Request} {site : Site}
    (hrun : Run (Serve Anything Calm backend) (firstSite disk) requests site) :
    (∀ group ∈ site.db.groups.rows,
      (∃! member, member ∈ site.db.members.rows ∧ member.groupId = group.id ∧ member.role = roleOwner) ∧
      ∀ member ∈ site.db.members.rows, member.groupId = group.id →
        member.role = roleOwner ∧ member.userId = group.createdBy ∨
          (member.role = roleManager ∨ member.role = roleMember) ∧ member.userId ≠ group.createdBy) ∧
    ∀ member ∈ site.db.members.rows, ∃ group ∈ site.db.groups.rows, group.id = member.groupId := by
  have howned := run_owned hrun
  have hroles : ∀ group ∈ site.db.groups.rows, ∀ member ∈ site.db.members.rows, member.groupId = group.id →
      member.role = roleOwner ∧ member.userId = group.createdBy ∨
        (member.role = roleManager ∨ member.role = roleMember) ∧ member.userId ≠ group.createdBy := by
    intro group hgroup member hmember hof
    by_cases huser : member.userId = group.createdBy
    · obtain ⟨owner, howner, hkey, hrole⟩ := howned.creator group hgroup
      have hsame : member.key = owner.key := by rw [hkey, GroupMember.key, hof, huser]
      rw [List.inj_on_of_nodup_map site.db.members.nodup hmember howner hsame] at huser ⊢
      exact Or.inl ⟨hrole, huser⟩
    · exact Or.inr ⟨howned.others member hmember group hgroup hof huser, huser⟩
  refine ⟨fun group hgroup => ⟨?_, hroles group hgroup⟩, ?_⟩
  · obtain ⟨owner, howner, hkey, hrole⟩ := howned.creator group hgroup
    have hof : owner.groupId = group.id := (Prod.mk.inj hkey).1
    refine ⟨owner, ⟨howner, hof, hrole⟩, ?_⟩
    rintro member ⟨hmember, hmemberOf, hmemberRole⟩
    apply List.inj_on_of_nodup_map site.db.members.nodup hmember howner
    rcases hroles group hgroup member hmember hmemberOf with ⟨-, huser⟩ | ⟨hother, -⟩
    · rw [hkey, GroupMember.key, hmemberOf, huser]
    · rw [hmemberRole] at hother
      exact absurd hother (by decide)
  · intro member hmember
    exact List.mem_map.mp (site.db.memberGroups member hmember)

/-- Alice makes Bob a manager of her group, and Bob tries to remove her. -/
def sampleGroup : List Request :=
  [sampleRequest "" "alice" (.register [] "alice" "alice@example.com" "password"),
    sampleRequest "" "bob" (.register [] "bob" "bob@example.com" "password"),
    sampleRequest "alice" "band" (.createGroup "Band" none),
    sampleRequest "alice" "none" (.addMember "band" "bob" "manager"),
    sampleRequest "bob" "none" (.removeMember "band" "alice")]

theorem group_ownership_sample :
    let site := calmServeAll sampleBackend (firstSite ⟨.empty, 0⟩) sampleGroup
    site.db.members.rows.map (fun m => (m.userId, m.role)) = [("alice", roleOwner), ("bob", roleManager)] ∧
    (∀ group ∈ site.db.groups.rows,
      (∃! member, member ∈ site.db.members.rows ∧ member.groupId = group.id ∧ member.role = roleOwner) ∧
      ∀ member ∈ site.db.members.rows, member.groupId = group.id →
        member.role = roleOwner ∧ member.userId = group.createdBy ∨
          (member.role = roleManager ∨ member.role = roleMember) ∧ member.userId ≠ group.createdBy) ∧
    ∀ member ∈ site.db.members.rows, ∃ group ∈ site.db.groups.rows, group.id = member.groupId :=
  ⟨by decide +kernel, group_ownership (run_calm (fun _ => trivial) calm_none _ _)⟩

end IronDrive
