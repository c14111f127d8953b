import IronDrive.AccessAgreement
import IronDrive.Operations

/-! Effective permissions as levels, and what the operations of the services do to them: an operation gives a
user at most what its actor already had. -/

namespace IronDrive

open Lib SpaceService

/-- The level of what the services resolve for a user on a space; 0 when that is nothing. -/
def effectiveLevel (db : Db) (userId spaceId : String) : Nat :=
  ((db.resolveUserPermission userId spaceId).map permissionLevel).getD 0

variable {db db' : Db} {userId spaceId permission : String} {n : Nat}

theorem permRank_le (p : String) : permRank p ≤ 3 := by
  unfold permRank
  split
  · exact le_rfl
  · split
    · decide
    · split <;> decide

theorem permissionLevel_rankLabel (h : n ≤ 3) : permissionLevel (rankLabel (some n)) = n := by
  match n, h with
  | 0, _ | 1, _ | 2, _ | 3, _ => decide

/-- The level is the greatest rank of what the user holds. -/
theorem effectiveLevel_le_iff :
    effectiveLevel db userId spaceId ≤ n ↔ ∀ p, Holds db userId spaceId p → permRank p ≤ n := by
  by_cases hholds : ∃ p, Holds db userId spaceId p
  · obtain ⟨p, hp⟩ := hholds
    cases hgreatest : greatest ((db.perms userId spaceId).map permRank) with
    | none =>
        have hnil := List.map_eq_nil_iff.mp (greatest_eq_none.mp hgreatest)
        have hmem := mem_perms.mpr hp
        rw [hnil] at hmem
        cases hmem
    | some best =>
        obtain ⟨hbest, hupper⟩ := greatest_eq_some.mp hgreatest
        obtain ⟨q, hq, hrank⟩ := List.mem_map.mp hbest
        have hlevel : effectiveLevel db userId spaceId = best := by
          rw [effectiveLevel, resolveUserPermission_of_holds hp, bestLabel, hgreatest]
          exact permissionLevel_rankLabel (hrank ▸ permRank_le q)
        rw [hlevel]
        constructor
        · intro hle p' hp'
          exact (hupper (List.mem_map_of_mem (mem_perms.mpr hp'))).trans hle
        · intro hall
          rw [← hrank]
          exact hall q (mem_perms.mp hq)
  · have hnone : ∀ p, ¬ Holds db userId spaceId p := fun p hp => hholds ⟨p, hp⟩
    rw [effectiveLevel, resolveUserPermission_of_none hnone]
    exact ⟨fun _ p hp => absurd hp (hnone p), fun _ => Nat.zero_le n⟩

theorem permRank_le_effectiveLevel (h : Holds db userId spaceId permission) :
    permRank permission ≤ effectiveLevel db userId spaceId :=
  effectiveLevel_le_iff.mp le_rfl permission h

theorem effectiveLevel_of_admin (h : db.resolveUserPermission userId spaceId = some permAdmin) :
    effectiveLevel db userId spaceId = 3 := by
  rw [effectiveLevel, h]
  rfl

/-- Whoever holds the highest permission is resolved to it. -/
theorem resolveUserPermission_of_admin (h : Holds db userId spaceId permAdmin) :
    db.resolveUserPermission userId spaceId = some permAdmin := by
  rw [resolveUserPermission_of_holds h, bestLabel]
  have hgreatest : greatest ((db.perms userId spaceId).map permRank) = some 3 := by
    rw [greatest_eq_some]
    refine ⟨List.mem_map.mpr ⟨permAdmin, mem_perms.mpr h, rfl⟩, ?_⟩
    intro rank hrank
    obtain ⟨p, -, rfl⟩ := List.mem_map.mp hrank
    exact permRank_le p
  rw [hgreatest]
  rfl

/-- An administrator's level bounds every permission. -/
theorem permRank_le_of_admin (h : db.resolveUserPermission userId spaceId = some permAdmin) (p : String) :
    permRank p ≤ effectiveLevel db userId spaceId := by
  rw [effectiveLevel_of_admin h]
  exact permRank_le p

/-- Every owner, grant and membership of the first state is one of the second. -/
structure Fewer (db' db : Db) : Prop where
  spaces : ∀ row ∈ db'.spaces.rows, ∃ old ∈ db.spaces.rows,
    old.id = row.id ∧ old.ownerType = row.ownerType ∧ old.ownerId = row.ownerId
  access : ∀ row ∈ db'.access.rows, row ∈ db.access.rows
  members : ∀ row ∈ db'.members.rows, ∃ old ∈ db.members.rows,
    old.groupId = row.groupId ∧ old.userId = row.userId

theorem Given.of_fewer {holderType holderId : String} (hspaces : ∀ row ∈ db'.spaces.rows,
      ∃ old ∈ db.spaces.rows, old.id = row.id ∧ old.ownerType = row.ownerType ∧ old.ownerId = row.ownerId)
    (haccess : ∀ row ∈ db'.access.rows, row ∈ db.access.rows)
    (h : Given db' holderType holderId spaceId permission) : Given db holderType holderId spaceId permission := by
  rcases h with ⟨hp, space, hspace, hid, htype, howner⟩ | ⟨grant, hgrant, hfacts⟩
  · obtain ⟨old, hold, hid', htype', howner'⟩ := hspaces space hspace
    exact Or.inl ⟨hp, old, hold, hid'.trans hid, htype'.trans htype, howner'.trans howner⟩
  · exact Or.inr ⟨grant, haccess grant hgrant, hfacts⟩

theorem Holds.imp (hmembers : ∀ row ∈ db'.members.rows, ∃ old ∈ db.members.rows,
      old.groupId = row.groupId ∧ old.userId = row.userId)
    (hgiven : ∀ holderType holderId, Given db' holderType holderId spaceId permission →
      Given db holderType holderId spaceId permission)
    (h : Holds db' userId spaceId permission) : Holds db userId spaceId permission := by
  rcases h with hown | ⟨m, hm, huser, hgroup⟩
  · exact Or.inl (hgiven _ _ hown)
  · obtain ⟨old, hold, hgroup', huser'⟩ := hmembers m hm
    refine Or.inr ⟨old, hold, huser'.trans huser, ?_⟩
    rw [hgroup']
    exact hgiven _ _ hgroup

theorem Holds.of_fewer (hfewer : Fewer db' db) (h : Holds db' userId spaceId permission) :
    Holds db userId spaceId permission :=
  h.imp hfewer.members fun _ _ => Given.of_fewer hfewer.spaces hfewer.access

theorem same_spaces (h : db'.spaces = db.spaces) : ∀ row ∈ db'.spaces.rows, ∃ old ∈ db.spaces.rows,
    old.id = row.id ∧ old.ownerType = row.ownerType ∧ old.ownerId = row.ownerId := by
  rw [h]
  exact fun row hrow => ⟨row, hrow, rfl, rfl, rfl⟩

theorem same_members (h : db'.members = db.members) : ∀ row ∈ db'.members.rows, ∃ old ∈ db.members.rows,
    old.groupId = row.groupId ∧ old.userId = row.userId := by
  rw [h]
  exact fun row hrow => ⟨row, hrow, rfl, rfl⟩

/-- A state that differs in other tables only. -/
theorem Fewer.of_same (hspaces : db'.spaces = db.spaces) (haccess : db'.access = db.access)
    (hmembers : db'.members = db.members) : Fewer db' db where
  spaces := same_spaces hspaces
  access := by rw [haccess]; exact fun _ h => h
  members := same_members hmembers

/-! ### What the statements add -/

/-- A new space gives nobody anything on the others. -/
theorem holds_insertSpace {row : Space} (h : Db.insertSpace row db = .ok (n, db'))
    (hspace : spaceId ∈ db.spaces.rows.map Space.id) (hholds : Holds db' userId spaceId permission) :
    Holds db userId spaceId permission := by
  obtain ⟨hid, htables⟩ := Db.insertSpace_ok h
  refine hholds.imp (same_members (by rw [htables])) fun holderType holderId hgiven => ?_
  simp only [Given, htables] at hgiven
  rcases hgiven with ⟨hp, space, hmem, hfacts⟩ | hgrant
  · rcases (Table.mem_insert (h := hid)).mp hmem with hold | rfl
    · exact Or.inl ⟨hp, space, hold, hfacts⟩
    · exact absurd (hfacts.1 ▸ hspace) hid
  · exact Or.inr hgrant

/-- A new grant gives something on its own space only. -/
theorem holds_insertAccess {row : SpaceAccess} (h : Db.insertAccess row db = .ok (n, db'))
    (hholds : Holds db' userId spaceId permission) :
    Holds db userId spaceId permission ∨ row.spaceId = spaceId := by
  obtain ⟨hkey, htables⟩ := Db.insertAccess_ok h
  by_cases hrow : row.spaceId = spaceId
  · exact Or.inr hrow
  · refine Or.inl (hholds.imp (same_members (by rw [htables])) fun holderType holderId hgiven => ?_)
    simp only [Given, htables] at hgiven
    rcases hgiven with hown | ⟨grant, hmem, hfacts⟩
    · exact Or.inl hown
    · rcases (Table.mem_insert (h := hkey)).mp hmem with hold | rfl
      · exact Or.inr ⟨grant, hold, hfacts⟩
      · exact absurd hfacts.1 hrow

/-- A changed grant gives something new on its own space only. -/
theorem holds_updatePermission {grantSpace granteeType granteeId newPermission : String}
    (h : Db.updatePermission grantSpace granteeType granteeId newPermission db = .ok (n, db'))
    (hholds : Holds db' userId spaceId permission) :
    Holds db userId spaceId permission ∨ grantSpace = spaceId := by
  have htables := Db.updatePermission_ok h
  by_cases hgrant : grantSpace = spaceId
  · exact Or.inr hgrant
  · refine Or.inl (hholds.imp (same_members (by rw [htables])) fun holderType holderId hgiven => ?_)
    simp only [Given, htables] at hgiven
    rcases hgiven with hown | ⟨grant, hmem, hfacts⟩
    · exact Or.inl hown
    · rcases Table.mem_updateWhere hmem with hold | ⟨old, hold, hkey, rfl⟩
      · exact Or.inr ⟨grant, hold, hfacts⟩
      · have hspace : old.spaceId = grantSpace := (Prod.mk.inj (of_decide_eq_true hkey)).1
        exact absurd (hspace.symm.trans hfacts.1) hgrant

/-- A new member gets what the group is given. -/
theorem holds_insertMember {row : GroupMember} (h : Db.insertMember row db = .ok (n, db'))
    (hholds : Holds db' userId spaceId permission) :
    Holds db userId spaceId permission ∨ Given db "group" row.groupId spaceId permission := by
  obtain ⟨hkey, htables, -⟩ := Db.insertMember_ok h
  have hgiven : ∀ holderType holderId, Given db' holderType holderId spaceId permission →
      Given db holderType holderId spaceId permission := by
    intro holderType holderId hgiven
    simpa only [Given, htables] using hgiven
  rcases hholds with hown | ⟨m, hm, huser, hgroup⟩
  · exact Or.inl (Or.inl (hgiven _ _ hown))
  · simp only [htables] at hm
    rcases (Table.mem_insert (h := hkey)).mp hm with hold | rfl
    · exact Or.inl (Or.inr ⟨m, hold, huser, hgiven _ _ hgroup⟩)
    · exact Or.inr (hgiven _ _ hgroup)

end IronDrive
