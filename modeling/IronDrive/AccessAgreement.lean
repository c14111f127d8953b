import IronDrive.AccessQueries

/-! The three permission queries against what they are for: each yields the greatest level the user holds on
the space, and nothing when the user holds none. -/

namespace IronDrive

open Lib

variable {db : Db} {userId spaceId permission : String}

theorem mem_userGroups {groupId : String} :
    groupId ∈ db.userGroups userId ↔ ∃ m ∈ db.members.rows, m.userId = userId ∧ m.groupId = groupId := by
  simp [Db.userGroups, and_assoc]

theorem mem_ownedByUser : permission ∈ db.ownedByUser userId spaceId ↔ permission = "admin" ∧
    ∃ space ∈ db.spaces.rows, space.id = spaceId ∧ space.ownerType = "user" ∧ space.ownerId = userId := by
  simp only [Db.ownedByUser, List.mem_map, List.mem_filter, Bool.and_eq_true, decide_eq_true_eq]
  constructor
  · rintro ⟨space, ⟨hmem, ⟨hid, htype⟩, howner⟩, rfl⟩
    exact ⟨rfl, space, hmem, hid, htype, howner⟩
  · rintro ⟨rfl, space, hmem, hid, htype, howner⟩
    exact ⟨space, ⟨hmem, ⟨hid, htype⟩, howner⟩, rfl⟩

theorem mem_ownedByGroup : permission ∈ db.ownedByGroup userId spaceId ↔ permission = "admin" ∧
    ∃ space ∈ db.spaces.rows, space.id = spaceId ∧ space.ownerType = "group" ∧
      space.ownerId ∈ db.userGroups userId := by
  simp only [Db.ownedByGroup, List.mem_map, List.mem_filter, Bool.and_eq_true, decide_eq_true_eq]
  constructor
  · rintro ⟨space, ⟨hmem, ⟨hid, htype⟩, howner⟩, rfl⟩
    exact ⟨rfl, space, hmem, hid, htype, howner⟩
  · rintro ⟨rfl, space, hmem, hid, htype, howner⟩
    exact ⟨space, ⟨hmem, ⟨hid, htype⟩, howner⟩, rfl⟩

theorem mem_grantedToUser : permission ∈ db.grantedToUser userId spaceId ↔
    ∃ grant ∈ db.access.rows, grant.spaceId = spaceId ∧ grant.granteeType = "user" ∧
      grant.granteeId = userId ∧ grant.permission = permission := by
  simp [Db.grantedToUser, and_assoc]

theorem mem_grantedToGroup : permission ∈ db.grantedToGroup userId spaceId ↔
    ∃ grant ∈ db.access.rows, grant.spaceId = spaceId ∧ grant.granteeType = "group" ∧
      grant.granteeId ∈ db.userGroups userId ∧ grant.permission = permission := by
  simp [Db.grantedToGroup, and_assoc]

/-- The four ways to a permission are what a user holds. -/
theorem holds_iff : Holds db userId spaceId permission ↔
    permission ∈ db.ownedByUser userId spaceId ∨ permission ∈ db.ownedByGroup userId spaceId ∨
      permission ∈ db.grantedToUser userId spaceId ∨ permission ∈ db.grantedToGroup userId spaceId := by
  rw [mem_ownedByUser, mem_ownedByGroup, mem_grantedToUser, mem_grantedToGroup]
  constructor
  · rintro ((hown | hgrant) | ⟨m, hm, huser, (⟨hp, space, hspace, hid, htype, howner⟩ |
      ⟨grant, hgrant, hspace, htype, hid, hp⟩)⟩)
    · exact Or.inl hown
    · exact Or.inr (Or.inr (Or.inl hgrant))
    · exact Or.inr (Or.inl ⟨hp, space, hspace, hid, htype, mem_userGroups.mpr ⟨m, hm, huser, howner.symm⟩⟩)
    · exact Or.inr (Or.inr (Or.inr ⟨grant, hgrant, hspace, htype,
        mem_userGroups.mpr ⟨m, hm, huser, hid.symm⟩, hp⟩))
  · rintro (hown | ⟨hp, space, hspace, hid, htype, howner⟩ | hgrant | ⟨grant, hgrant, hspace, htype, hid, hp⟩)
    · exact Or.inl (Or.inl hown)
    · obtain ⟨m, hm, huser, hgroup⟩ := mem_userGroups.mp howner
      exact Or.inr ⟨m, hm, huser, Or.inl ⟨hp, space, hspace, hid, htype, hgroup.symm⟩⟩
    · exact Or.inl (Or.inr hgrant)
    · obtain ⟨m, hm, huser, hgroup⟩ := mem_userGroups.mp hid
      exact Or.inr ⟨m, hm, huser, Or.inr ⟨grant, hgrant, hspace, htype, hgroup.symm, hp⟩⟩

theorem mem_perms : permission ∈ db.perms userId spaceId ↔ Holds db userId spaceId permission := by
  rw [holds_iff, Db.perms]
  simp only [List.mem_append, or_assoc]

theorem mem_accessible : permission ∈ db.accessible userId spaceId ↔ Holds db userId spaceId permission := by
  rw [holds_iff, Db.accessible]
  simp only [mem_union, or_assoc]

/-- The rows of one space among those of all spaces. -/
theorem mem_accessibleSpaces : (spaceId, permission) ∈ db.accessibleSpaces userId ↔
    Holds db userId spaceId permission := by
  rw [holds_iff, mem_ownedByUser, mem_ownedByGroup, mem_grantedToUser, mem_grantedToGroup,
    Db.accessibleSpaces]
  simp only [mem_union, List.mem_map, List.mem_filter, Bool.and_eq_true, decide_eq_true_eq, Prod.mk.injEq,
    or_assoc]
  refine or_congr ?_ (or_congr ?_ (or_congr ?_ ?_))
  · constructor
    · rintro ⟨space, ⟨hmem, htype, howner⟩, hid, rfl⟩
      exact ⟨rfl, space, hmem, hid, htype, howner⟩
    · rintro ⟨rfl, space, hmem, hid, htype, howner⟩
      exact ⟨space, ⟨hmem, htype, howner⟩, hid, rfl⟩
  · constructor
    · rintro ⟨space, ⟨hmem, htype, howner⟩, hid, rfl⟩
      exact ⟨rfl, space, hmem, hid, htype, howner⟩
    · rintro ⟨rfl, space, hmem, hid, htype, howner⟩
      exact ⟨space, ⟨hmem, htype, howner⟩, hid, rfl⟩
  · constructor
    · rintro ⟨grant, ⟨hmem, htype, hid⟩, hspace, hp⟩
      exact ⟨grant, hmem, hspace, htype, hid, hp⟩
    · rintro ⟨grant, hmem, hspace, htype, hid, hp⟩
      exact ⟨grant, ⟨hmem, htype, hid⟩, hspace, hp⟩
  · constructor
    · rintro ⟨grant, ⟨hmem, htype, hid⟩, hspace, hp⟩
      exact ⟨grant, hmem, hspace, htype, hid, hp⟩
    · rintro ⟨grant, hmem, hspace, htype, hid, hp⟩
      exact ⟨grant, ⟨hmem, htype, hid⟩, hspace, hp⟩

/-- Whoever holds something on a space holds it on a space that exists. -/
theorem Holds.space (h : Holds db userId spaceId permission) : spaceId ∈ db.spaces.rows.map Space.id := by
  have hgiven : ∀ holderType holderId, Given db holderType holderId spaceId permission →
      spaceId ∈ db.spaces.rows.map Space.id := by
    intro holderType holderId hgiven
    rcases hgiven with ⟨-, space, hspace, hid, -⟩ | ⟨grant, hgrant, hspace, -⟩
    · exact List.mem_map.mpr ⟨space, hspace, hid⟩
    · rw [← hspace]
      exact db.accessSpaces grant hgrant
  rcases h with hown | ⟨m, -, -, hgroup⟩
  · exact hgiven _ _ hown
  · exact hgiven _ _ hgroup

theorem permRank_label (level : Permission) : permRank level.label = level.rank := by
  cases level <;> decide

theorem rankLabel_rank (level : Permission) : rankLabel (some level.rank) = level.label := by
  cases level <;> rfl

theorem label_ne_none (level : Permission) : level.label ≠ "none" := by
  cases level <;> decide

/-- The best label depends only on which permissions there are. -/
theorem bestLabel_congr {first second : List String} (h : ∀ p, p ∈ first ↔ p ∈ second) :
    bestLabel first = bestLabel second := by
  have hranks : greatest (first.map permRank) = greatest (second.map permRank) := by
    apply greatest_congr
    intro n
    simp only [List.mem_map, h]
  rw [bestLabel, bestLabel, hranks]

/-- The levels a user holds on a space. -/
def levels (db : Db) (userId spaceId : String) : Set Permission :=
  {level | Holds db userId spaceId level.label}

/-- Every grant carries a level. -/
def KnownPermissions (db : Db) : Prop :=
  ∀ grant ∈ db.access.rows, ∃ level : Permission, grant.permission = level.label

theorem Holds.level (hknown : KnownPermissions db) (h : Holds db userId spaceId permission) :
    ∃ level : Permission, permission = level.label := by
  have hgiven : ∀ holderType holderId, Given db holderType holderId spaceId permission →
      ∃ level : Permission, permission = level.label := by
    intro holderType holderId hgiven
    rcases hgiven with ⟨rfl, -⟩ | ⟨grant, hgrant, -, -, -, rfl⟩
    · exact ⟨.admin, rfl⟩
    · exact hknown grant hgrant
  rcases h with hown | ⟨m, -, -, hgroup⟩
  · exact hgiven _ _ hown
  · exact hgiven _ _ hgroup

/-- The best label of what a user holds is the label of the greatest level. -/
theorem bestLabel_eq (hknown : KnownPermissions db) {perms : List String}
    (hperms : ∀ p, p ∈ perms ↔ Holds db userId spaceId p) {level : Permission}
    (hlevel : IsGreatest (levels db userId spaceId) level) : bestLabel perms = level.label := by
  have hgreatest : greatest (perms.map permRank) = some level.rank := by
    rw [greatest_eq_some]
    constructor
    · exact List.mem_map.mpr ⟨level.label, (hperms _).mpr hlevel.1, permRank_label level⟩
    · intro n hn
      obtain ⟨p, hp, rfl⟩ := List.mem_map.mp hn
      have hholds := (hperms p).mp hp
      obtain ⟨other, rfl⟩ := hholds.level hknown
      rw [permRank_label, ← Permission.le_iff]
      exact hlevel.2 hholds
  rw [bestLabel, hgreatest, rankLabel_rank]

/-- A user who holds anything holds a greatest level. -/
theorem exists_isGreatest (hknown : KnownPermissions db) (h : Holds db userId spaceId permission) :
    ∃ level, IsGreatest (levels db userId spaceId) level := by
  obtain ⟨level, rfl⟩ := h.level hknown
  have hmem : level.rank ∈ (db.perms userId spaceId).map permRank :=
    List.mem_map.mpr ⟨level.label, mem_perms.mpr h, permRank_label level⟩
  cases hbest : greatest ((db.perms userId spaceId).map permRank) with
  | none =>
      rw [greatest_eq_none] at hbest
      rw [hbest] at hmem
      cases hmem
  | some n =>
      obtain ⟨hn, hupper⟩ := greatest_eq_some.mp hbest
      obtain ⟨p, hp, rfl⟩ := List.mem_map.mp hn
      have hholds := mem_perms.mp hp
      obtain ⟨best, rfl⟩ := hholds.level hknown
      refine ⟨best, hholds, fun other hother => ?_⟩
      rw [Permission.le_iff, ← permRank_label, ← permRank_label]
      exact hupper (List.mem_map.mpr ⟨other.label, mem_perms.mpr hother, rfl⟩)

/-! ### The three answers -/

theorem resolveUserPermission_of_none (h : ∀ p, ¬ Holds db userId spaceId p) :
    db.resolveUserPermission userId spaceId = none := by
  have hperms : db.perms userId spaceId = [] := by
    apply List.eq_nil_iff_forall_not_mem.mpr
    exact fun p hp => h p (mem_perms.mp hp)
  rw [Db.resolveUserPermission, hperms]
  rfl

theorem resolveUserPermission_of_holds (h : Holds db userId spaceId permission) :
    db.resolveUserPermission userId spaceId = some (bestLabel (db.perms userId spaceId)) :=
  if_pos (List.length_pos_of_mem (mem_perms.mpr h))

theorem findForUser_of_none (h : ∀ p, ¬ Holds db userId spaceId p) :
    db.findForUser userId spaceId = none := by
  have haccessible : db.accessible userId spaceId = [] := by
    apply List.eq_nil_iff_forall_not_mem.mpr
    exact fun p hp => h p (mem_accessible.mp hp)
  have hnone : bestLabel (db.accessible userId spaceId) = "none" := by
    rw [haccessible]
    rfl
  simp [Db.findForUser, hnone]

/-- The query for one space answers the row of the space with its best permission. -/
theorem findForUser_of_holds (h : Holds db userId spaceId permission)
    (hbest : bestLabel (db.accessible userId spaceId) ≠ "none") :
    ∃ space, db.findForUser userId spaceId = some
      { space := space, granteeCount := db.granteeCount space.id,
        userPermission := bestLabel (db.accessible userId spaceId) } := by
  have hfilter : db.spaces.rows.filter (fun s => s.id = spaceId &&
      bestLabel (db.accessible userId spaceId) ≠ "none") = db.spaces.rows.filter fun s => s.id = spaceId := by
    apply List.filter_congr
    intro s _
    simp [hbest]
  obtain ⟨space, hspace, hid⟩ := List.mem_map.mp h.space
  have hfound : ∃ found, db.spaces.rows.find? (fun s => s.id = spaceId) = some found := by
    rw [← Option.isSome_iff_exists, List.find?_isSome]
    exact ⟨space, hspace, by simpa using hid⟩
  obtain ⟨found, hfound⟩ := hfound
  refine ⟨found, ?_⟩
  simp only [Db.findForUser]
  rw [hfilter, filter_key_eq db.spaces.nodup, hfound]
  rfl

theorem bestPerm_keys : ((db.bestPerm userId).map Prod.fst).Nodup := by
  have hkeys : (db.bestPerm userId).map Prod.fst =
      (groupBy Prod.fst (db.accessibleSpaces userId)).map Prod.fst := by
    rw [Db.bestPerm, List.map_map]
    rfl
  rw [hkeys, groupBy_keys]
  exact List.nodup_dedup _

/-- The best permission of a space, if there is any. -/
theorem find_bestPerm : ((db.bestPerm userId).find? fun bp => bp.1 = spaceId) =
    if (db.accessibleSpaces userId).filter (fun row => row.1 = spaceId) = [] then none
    else some (spaceId, bestLabel (((db.accessibleSpaces userId).filter fun row => row.1 = spaceId).map
      Prod.snd)) := by
  rw [Db.bestPerm, List.find?_map]
  have hgroup := find_groupBy Prod.fst (db.accessibleSpaces userId) spaceId
  rw [show ((fun bp : String × String => decide (bp.1 = spaceId)) ∘
    fun group : String × List (String × String) => (group.1, bestLabel (group.2.map Prod.snd))) =
      fun group => decide (group.1 = spaceId) from rfl, hgroup]
  split <;> rfl

theorem mem_rowsOfSpace {p : String} :
    p ∈ ((db.accessibleSpaces userId).filter fun row => row.1 = spaceId).map Prod.snd ↔
      Holds db userId spaceId p := by
  rw [← mem_accessibleSpaces, List.mem_map]
  constructor
  · rintro ⟨⟨id, q⟩, hrow, rfl⟩
    obtain ⟨hmem, hid⟩ := List.mem_filter.mp hrow
    have hid' : id = spaceId := by simpa using hid
    subst hid'
    exact hmem
  · intro h
    exact ⟨(spaceId, p), List.mem_filter.mpr ⟨h, by simp⟩, rfl⟩

/-- The entries of one space in the list: one if the user holds anything on it, with the best of it. -/
theorem findAllForUser_entries :
    ((db.findAllForUser userId).filter fun entry => entry.space.id = spaceId).map (·.userPermission) =
      if (db.accessibleSpaces userId).filter (fun row => row.1 = spaceId) = [] then []
      else [bestLabel (((db.accessibleSpaces userId).filter fun row => row.1 = spaceId).map Prod.snd)] := by
  set rows : List (Space × String × String) :=
    innerJoin (fun s bp => bp.1 = s.id) db.spaces.rows (db.bestPerm userId)
  set entry : Space × String × String → SpaceWithMeta := fun row =>
    { space := row.1, granteeCount := db.granteeCount row.1.id, userPermission := row.2.2 }
  have hjoin : rows.filter (fun row => row.1.id = spaceId) =
      innerJoin (fun (s : Space) (bp : String × String) => bp.1 = s.id) (db.spaces.rows.filter fun s => s.id = spaceId)
        (db.bestPerm userId) := filter_innerJoin _ (fun s : Space => decide (s.id = spaceId)) _ _
  have hperm : (((db.findAllForUser userId).filter fun entry => entry.space.id = spaceId).map
      (·.userPermission)).Perm ((rows.filter fun row => row.1.id = spaceId).map fun row => row.2.2) := by
    have hsort : (db.findAllForUser userId).Perm (rows.map entry) := List.mergeSort_perm _ _
    have hfilter := (hsort.filter fun entry => entry.space.id = spaceId).map SpaceWithMeta.userPermission
    rw [List.filter_map, List.map_map] at hfilter
    exact hfilter
  rw [hjoin, filter_key_eq db.spaces.nodup] at hperm
  cases hspace : db.spaces.rows.find? fun s => s.id = spaceId with
  | none =>
      have hempty : (db.accessibleSpaces userId).filter (fun row => row.1 = spaceId) = [] := by
        rw [List.filter_eq_nil_iff]
        rintro ⟨id, p⟩ hrow hid
        have hid' : id = spaceId := by simpa using hid
        subst hid'
        obtain ⟨space, hmem, heq⟩ := List.mem_map.mp (mem_accessibleSpaces.mp hrow).space
        rw [List.find?_eq_none] at hspace
        exact hspace space hmem (by simpa using heq)
      rw [hspace] at hperm
      rw [if_pos hempty]
      exact List.perm_nil.mp hperm
  | some space =>
      have hid : space.id = spaceId := by simpa using List.find?_some hspace
      have hone : innerJoin (fun (s : Space) (bp : String × String) => bp.1 = s.id) [space] (db.bestPerm userId) =
          ((db.bestPerm userId).filter fun bp => bp.1 = spaceId).map fun bp => (space, bp) := by
        rw [← hid]
        exact List.append_nil _
      rw [hspace, Option.toList_some, hone, filter_key_eq bestPerm_keys, find_bestPerm] at hperm
      split at hperm
      · next hempty =>
          rw [if_pos hempty]
          exact List.perm_nil.mp hperm
      · next hsome =>
          rw [if_neg hsome]
          exact List.perm_singleton.mp hperm

/-- In every state whose grants carry known levels, the three queries agree for every user and space. If
the user holds nothing on the space they all answer nothing; else they all answer the greatest level that
ownership and grants give the user, in person or through a group, and the list has the space once. -/
theorem permission_queries_agree (db : Db) (hknown : KnownPermissions db) (userId spaceId : String) :
    ∃ best : Option Permission,
      db.resolveUserPermission userId spaceId = best.map Permission.label ∧
      (db.findForUser userId spaceId).map (·.userPermission) = best.map Permission.label ∧
      ((db.findAllForUser userId).filter fun entry => entry.space.id = spaceId).map (·.userPermission) =
        (best.map Permission.label).toList ∧
      match best with
      | none => levels db userId spaceId = ∅
      | some level => IsGreatest (levels db userId spaceId) level := by
  by_cases hholds : ∃ p, Holds db userId spaceId p
  · obtain ⟨p, hp⟩ := hholds
    obtain ⟨level, hlevel⟩ := exists_isGreatest hknown hp
    have haccessible := bestLabel_eq hknown (fun _ => mem_accessible) hlevel
    have hrows : (db.accessibleSpaces userId).filter (fun row => row.1 = spaceId) ≠ [] := by
      intro hempty
      have hmem := mem_rowsOfSpace.mpr hp
      rw [hempty] at hmem
      cases hmem
    refine ⟨some level, ?_, ?_, ?_, hlevel⟩
    · rw [resolveUserPermission_of_holds hp, bestLabel_eq hknown (fun _ => mem_perms) hlevel, Option.map_some]
    · obtain ⟨space, hspace⟩ := findForUser_of_holds hp (by rw [haccessible]; exact label_ne_none level)
      rw [hspace, Option.map_some, haccessible, Option.map_some]
    · rw [findAllForUser_entries, if_neg hrows, bestLabel_eq hknown (fun _ => mem_rowsOfSpace) hlevel]
      rfl
  · have hnone : ∀ p, ¬ Holds db userId spaceId p := fun p hp => hholds ⟨p, hp⟩
    have hrows : (db.accessibleSpaces userId).filter (fun row => row.1 = spaceId) = [] := by
      apply List.eq_nil_iff_forall_not_mem.mpr
      exact fun row hrow => hnone row.2 (mem_rowsOfSpace.mp (List.mem_map_of_mem hrow))
    refine ⟨none, ?_, ?_, ?_, ?_⟩
    · rw [resolveUserPermission_of_none hnone, Option.map_none]
    · rw [findForUser_of_none hnone, Option.map_none, Option.map_none]
    · rw [findAllForUser_entries, if_pos hrows]
      rfl
    · exact Set.eq_empty_iff_forall_notMem.mpr fun level => hnone level.label

/-- A space of a group, and a member of the group with a grant of their own. -/
def sampleAccess : Db := Db.empty.executeAll
  [Db.insertUser ⟨⟨"u", "u", "u@e.f", "user", 0, true, true, "", ""⟩, ""⟩,
    Db.insertGroup ⟨"g", "G", none, "u", ""⟩, Db.insertMember ⟨"g", "u", "owner", ""⟩,
    Db.insertSpace ⟨"s", "S", "group", "g", "server", [], none, none, none, ""⟩,
    Db.insertAccess ⟨"s", "user", "u", "read", ""⟩]

theorem permission_queries_agree_sample :
    sampleAccess.resolveUserPermission "u" "s" = some "admin" ∧
      ∃ best : Option Permission,
        sampleAccess.resolveUserPermission "u" "s" = best.map Permission.label ∧
        (sampleAccess.findForUser "u" "s").map (·.userPermission) = best.map Permission.label ∧
        ((sampleAccess.findAllForUser "u").filter fun entry => entry.space.id = "s").map (·.userPermission) =
          (best.map Permission.label).toList ∧
        match best with
        | none => levels sampleAccess "u" "s" = ∅
        | some level => IsGreatest (levels sampleAccess "u" "s") level := by
  have hknown : KnownPermissions sampleAccess := by
    have haccess : sampleAccess.access.rows = [⟨"s", "user", "u", "read", ""⟩] := by decide +kernel
    intro grant hgrant
    rw [haccess] at hgrant
    exact ⟨.read, by rw [List.mem_singleton.mp hgrant]; rfl⟩
  exact ⟨by decide +kernel, permission_queries_agree sampleAccess hknown "u" "s"⟩

end IronDrive
