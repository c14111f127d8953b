import IronDrive.AccessLevels

/-! No operation raises anybody above what its actor may do. Memberships are changed without a look at the
spaces, so the argument needs to know that the group a member joins is one the actor belongs to, and that a new
group is not one that a space or a grant already names. -/

namespace IronDrive

open Lib SpaceService

variable {G : Option String → Prop} {backend : Backend} {request : Request} {records records' : Records}
  {db db' : Db} {userId spaceId permission actor id : String} {condemned : Option String} {n : Nat}

/-- The group identifiers that the database mentions have been drawn before. -/
structure Settled (used : List String) (db : Db) : Prop where
  groups : ∀ row ∈ db.groups.rows, row.id ∈ used
  owners : ∀ row ∈ db.spaces.rows, row.ownerType = "group" → row.ownerId ∈ used
  grantees : ∀ row ∈ db.access.rows, row.granteeType = "group" → row.granteeId ∈ used

/-- A group whose identifier was never drawn is given nothing. -/
theorem Settled.not_given {used : List String} (h : Settled used db) (hid : id ∉ used) :
    ¬ Given db "group" id spaceId permission := by
  rintro (⟨-, space, hspace, -, htype, howner⟩ | ⟨grant, hgrant, -, htype, hgrantee, -⟩)
  · exact hid (howner ▸ h.owners space hspace htype)
  · exact hid (hgrantee ▸ h.grantees grant hgrant htype)

/-- After an operation on groups a user holds what was held before, or what the actor holds. -/
theorem GroupEffect.holds {used : List String} (h : GroupEffect G id actor condemned db db')
    (hsettled : Settled used db) (hid : id ∉ used) (hholds : Holds db' userId spaceId permission) :
    Holds db userId spaceId permission ∨ Holds db actor spaceId permission := by
  cases h with
  | rejected => exact Or.inl hholds
  | @created group joinedAt n m made db' hgroup hcreator hinsert hadd =>
      obtain ⟨_, htables, -⟩ := Db.insertGroup_ok hinsert
      have hfewer : Fewer made db := Fewer.of_same (by rw [htables]) (by rw [htables]) (by rw [htables])
      rcases holds_insertMember hadd hholds with hmade | hgiven
      · exact Or.inl (hmade.of_fewer hfewer)
      · exact absurd (hgiven.of_fewer hfewer.spaces hfewer.access) (hsettled.not_given hid)
  | ownerless _ _ _ hinsert =>
      obtain ⟨_, htables, -⟩ := Db.insertGroup_ok hinsert
      exact Or.inl (hholds.of_fewer (Fewer.of_same (by rw [htables]) (by rw [htables]) (by rw [htables])))
  | updated hupdate =>
      have htables := Db.updateGroup_ok hupdate
      exact Or.inl (hholds.of_fewer (Fewer.of_same (by rw [htables]) (by rw [htables]) (by rw [htables])))
  | deleted _ _ _ hdelete =>
      have htables := Db.deleteGroup_ok hdelete
      refine Or.inl (hholds.of_fewer ⟨same_spaces (by rw [htables]), by rw [htables]; exact fun _ h => h, ?_⟩)
      rw [htables]
      exact fun row hrow => ⟨row, (Table.mem_deleteWhere.mp hrow).1, rfl, rfl⟩
  | @added member row target n db' hmember _ _ _ hadd =>
      rcases holds_insertMember hadd hholds with hold | hgiven
      · exact Or.inl hold
      · obtain ⟨hgroup, hactor⟩ := findMember_key hmember
        exact Or.inr (Or.inr ⟨member, List.mem_of_find?_eq_some hmember, hactor, hgroup ▸ hgiven⟩)
  | removed _ _ hremove =>
      have htables := Db.deleteMember_ok hremove
      refine Or.inl (hholds.of_fewer ⟨same_spaces (by rw [htables]), by rw [htables]; exact fun _ h => h, ?_⟩)
      rw [htables]
      exact fun row hrow => ⟨row, (Table.mem_deleteWhere.mp hrow).1, rfl, rfl⟩
  | changedRole _ _ _ _ hchange =>
      have htables := Db.updateRole_ok hchange
      refine Or.inl (hholds.of_fewer ⟨same_spaces (by rw [htables]), by rw [htables]; exact fun _ h => h, ?_⟩)
      simp only [htables]
      intro row hrow
      rcases Table.mem_updateWhere hrow with hold | ⟨old, hold, -, rfl⟩
      · exact ⟨row, hold, rfl, rfl⟩
      · exact ⟨old, hold, rfl, rfl⟩

/-- After an operation on spaces a user holds on the old ones what was held before, or no more than the
actor's level. -/
theorem SpaceEffect.holds {P : Primitives} {masterKey : MasterKey} {drawn : Drawn}
    (h : SpaceEffect G P masterKey drawn actor records records')
    (hspace : spaceId ∈ records.db.spaces.rows.map Space.id) (hholds : Holds records'.db userId spaceId permission) :
    Holds records.db userId spaceId permission ∨
      permRank permission ≤ effectiveLevel records.db actor spaceId := by
  cases h with
  | rejected => exact Or.inl hholds
  | opened _ hcreation =>
      cases hcreation with
      | rejected error => exact Or.inl hholds
      | stranded _ hinsert => exact Or.inl (holds_insertSpace hinsert hspace hholds)
      | created _ hinsert => exact Or.inl (holds_insertSpace hinsert hspace hholds)
  | renamed _ hrename =>
      have htables := Db.updateSpace_ok hrename
      refine Or.inl (hholds.of_fewer ⟨?_, by simp only [htables]; exact fun _ h => h,
        same_members (by simp only [htables])⟩)
      simp only [htables]
      intro row hrow
      rcases Table.mem_updateWhere hrow with hold | ⟨old, hold, -, rfl⟩
      · exact ⟨row, hold, rfl, rfl, rfl⟩
      · exact ⟨old, hold, rfl, rfl, rfl⟩
  | deleted _ hdelete =>
      have htables := Db.deleteSpace_ok hdelete
      refine Or.inl (hholds.of_fewer ⟨?_, ?_, same_members (by simp only [htables])⟩)
      · simp only [htables]
        exact fun row hrow => ⟨row, (Table.mem_deleteWhere.mp hrow).1, rfl, rfl, rfl⟩
      · simp only [htables]
        exact fun row hrow => (Table.mem_deleteWhere.mp hrow).1
  | granted hinsert hadmin _ _ =>
      rcases holds_insertAccess hinsert hholds with hold | rfl
      · exact Or.inl hold
      · exact Or.inr (permRank_le_of_admin hadmin permission)
  | revoked _ hdelete =>
      have htables := Db.deleteAccess_ok hdelete
      refine Or.inl (hholds.of_fewer ⟨same_spaces (by simp only [htables]), ?_,
        same_members (by simp only [htables])⟩)
      simp only [htables]
      exact fun row hrow => (Table.mem_deleteWhere.mp hrow).1
  | regraded hadmin _ hchange =>
      rcases holds_updatePermission hchange hholds with hold | rfl
      · exact Or.inl hold
      · exact Or.inr (permRank_le_of_admin hadmin permission)

/-! ### Every run -/

theorem Settled.of_same {used used' : List String} (h : Settled used db) (hused : used ⊆ used')
    (hgroups : db'.groups = db.groups) (hspaces : db'.spaces = db.spaces) (haccess : db'.access = db.access) :
    Settled used' db' where
  groups := by rw [hgroups]; exact fun row hrow => hused (h.groups row hrow)
  owners := by rw [hspaces]; exact fun row hrow htype => hused (h.owners row hrow htype)
  grantees := by rw [haccess]; exact fun row hrow htype => hused (h.grantees row hrow htype)

/-- Spaces and grants name groups that are there. -/
theorem Settled.mem {used : List String} (h : Settled used db) (hid : id ∈ db.groups.rows.map Group.id) :
    id ∈ used := by
  obtain ⟨group, hgroup, rfl⟩ := List.mem_map.mp hid
  exact h.groups group hgroup

theorem GroupEffect.settled {used : List String} (h : GroupEffect G id actor condemned db db')
    (hsettled : Settled used db) : Settled (used ++ [id]) db' := by
  have hids : ∀ row ∈ db'.groups.rows, row.id ∈ used ++ [id] := by
    have hold : ∀ row ∈ db.groups.rows, row.id ∈ used ++ [id] :=
      fun row hrow => List.mem_append_left _ (hsettled.groups row hrow)
    have hnew : ∀ {group : Group}, group.id = id → group.id ∈ used ++ [id] := by
      intro group hgroup
      rw [hgroup]
      exact List.mem_append_right _ (List.mem_singleton_self id)
    cases h with
    | rejected => exact hold
    | @created group joinedAt n m made _ hgroup _ hinsert hadd =>
        obtain ⟨hid, hmade, -⟩ := Db.insertGroup_ok hinsert
        obtain ⟨_, htables, -⟩ := Db.insertMember_ok hadd
        have hsame : db'.groups = made.groups := by rw [htables]
        rw [hsame, hmade]
        exact Table.forall_mem_insert hid hold (hnew hgroup)
    | ownerless _ hgroup _ hinsert =>
        obtain ⟨hid, htables, -⟩ := Db.insertGroup_ok hinsert
        rw [htables]
        exact Table.forall_mem_insert hid hold (hnew hgroup)
    | updated hupdate =>
        simp only [Db.updateGroup_ok hupdate]
        exact Table.forall_mem_updateWhere hold fun _ hrow => hrow
    | deleted _ _ _ hdelete =>
        rw [Db.deleteGroup_ok hdelete]
        exact fun row hrow => hold row (Table.mem_deleteWhere.mp hrow).1
    | added _ _ _ _ hadd =>
        obtain ⟨_, htables, -⟩ := Db.insertMember_ok hadd
        rw [htables]
        exact hold
    | removed _ _ hremove =>
        rw [Db.deleteMember_ok hremove]
        exact hold
    | changedRole _ _ _ _ hchange =>
        rw [Db.updateRole_ok hchange]
        exact hold
  have hgrown := hsettled.of_same (List.subset_append_left used [id]) rfl rfl rfl
  refine ⟨hids, ?_, ?_⟩
  · rw [h.frame]
    exact hgrown.owners
  · rw [h.frame]
    exact hgrown.grantees

theorem SpaceEffect.settled {used : List String} {P : Primitives} {masterKey : MasterKey} {drawn : Drawn}
    (h : SpaceEffect G P masterKey drawn actor records records') (hsettled : Settled used records.db) :
    Settled used records'.db := by
  have hgroups : ∀ row ∈ records'.db.groups.rows, row.id ∈ used := by
    rw [h.frame]
    exact hsettled.groups
  cases h with
  | rejected => exact hsettled
  | @opened ownerType ownerId result _ howner hcreation =>
      have hinserted : ∀ {name : String} {blob : Bytes} {n : Nat} {db' : Db},
          Db.insertSpace (Space.ofParams drawn ⟨name, ownerType, ownerId, "server", blob⟩) records.db =
            .ok (n, db') → Settled used db' := by
        intro name blob n db' hinsert
        obtain ⟨hid, htables⟩ := Db.insertSpace_ok hinsert
        refine ⟨by rw [htables]; exact hsettled.groups, ?_, by rw [htables]; exact hsettled.grantees⟩
        simp only [htables]
        refine Table.forall_mem_insert hid hsettled.owners fun htype => ?_
        rcases howner with ⟨huser, -⟩ | ⟨-, hgroup⟩
        · exact absurd (huser.symm.trans htype) (by decide)
        · exact hsettled.mem hgroup
      cases hcreation with
      | rejected error => exact hsettled
      | stranded _ hinsert => exact hinserted hinsert
      | created _ hinsert => exact hinserted hinsert
  | renamed _ hrename =>
      have htables := Db.updateSpace_ok hrename
      refine ⟨hgroups, ?_, by simp only [htables]; exact hsettled.grantees⟩
      simp only [htables]
      exact Table.forall_mem_updateWhere hsettled.owners fun _ hrow => hrow
  | deleted _ hdelete =>
      have htables := Db.deleteSpace_ok hdelete
      refine ⟨hgroups, ?_, ?_⟩ <;> simp only [htables]
      · exact fun row hrow => hsettled.owners row (Table.mem_deleteWhere.mp hrow).1
      · exact fun row hrow => hsettled.grantees row (Table.mem_deleteWhere.mp hrow).1
  | granted hinsert _ _ hgrantee =>
      obtain ⟨hkey, htables⟩ := Db.insertAccess_ok hinsert
      refine ⟨hgroups, by simp only [htables]; exact hsettled.owners, ?_⟩
      simp only [htables]
      refine Table.forall_mem_insert hkey hsettled.grantees fun htype => ?_
      rcases hgrantee with ⟨huser, -⟩ | ⟨-, hgroup⟩
      · exact absurd (huser.symm.trans htype) (by decide)
      · exact hsettled.mem hgroup
  | revoked _ hdelete =>
      have htables := Db.deleteAccess_ok hdelete
      refine ⟨hgroups, by simp only [htables]; exact hsettled.owners, ?_⟩
      simp only [htables]
      exact fun row hrow => hsettled.grantees row (Table.mem_deleteWhere.mp hrow).1
  | regraded _ _ hchange =>
      have htables := Db.updatePermission_ok hchange
      refine ⟨hgroups, by simp only [htables]; exact hsettled.owners, ?_⟩
      simp only [htables]
      exact Table.forall_mem_updateWhere hsettled.grantees fun _ hrow => hrow

theorem Effect.settled {used : List String} (h : Effect G backend request records records')
    (hsettled : Settled used records.db) : Settled (used ++ [request.drawn.id]) records'.db := by
  have hgrows := List.subset_append_left used [request.drawn.id]
  cases h with
  | account hregister =>
      have hframe := hregister.frame
      exact hsettled.of_same hgrows (by rw [hframe]) (by rw [hframe]) (by rw [hframe])
  | library hsetup =>
      have hframe := hsetup.frame
      exact hsettled.of_same hgrows (by rw [hframe]) (by rw [hframe]) (by rw [hframe])
  | group hgroup => exact hgroup.settled hsettled
  | space _ hspace => exact (hspace.settled hsettled).of_same hgrows rfl rfl rfl

/-- After any operation a user holds on the old spaces what was held before, or no more than the actor's
level. -/
theorem Effect.holds {used : List String} (h : Effect G backend request records records')
    (hsettled : Settled used records.db) (hid : request.drawn.id ∉ used)
    (hspace : spaceId ∈ records.db.spaces.rows.map Space.id) (hholds : Holds records'.db userId spaceId permission) :
    Holds records.db userId spaceId permission ∨
      permRank permission ≤ effectiveLevel records.db request.actor spaceId := by
  cases h with
  | account hregister =>
      have hframe := hregister.frame
      exact Or.inl (hholds.of_fewer (Fewer.of_same (by rw [hframe]) (by rw [hframe]) (by rw [hframe])))
  | library hsetup =>
      have hframe := hsetup.frame
      exact Or.inl (hholds.of_fewer (Fewer.of_same (by rw [hframe]) (by rw [hframe]) (by rw [hframe])))
  | group hgroup => exact (hgroup.holds hsettled hid hholds).imp id permRank_le_effectiveLevel
  | space _ heffect => exact heffect.holds hspace hholds

theorem settled_firstSite (disk : Disk) : Settled [] (firstSite disk).db where
  groups := by simp [firstSite, Site.db, Db.empty, Table.empty]
  owners := by simp [firstSite, Site.db, Db.empty, Table.empty]
  grantees := by simp [firstSite, Site.db, Db.empty, Table.empty]

/-- In every run a database mentions only groups whose identifiers were drawn in it. -/
theorem run_settled {disk : Disk} {requests : List Request} {site : Site}
    (h : Run (Serve Anything Anything backend) (firstSite disk) requests site) :
    Settled (requests.map (·.drawn.id)) site.db := by
  apply h.history (I := fun requests site => Settled (requests.map fun r => r.drawn.id) site.db)
  · exact settled_firstSite disk
  · intro requests site request site' hsettled hserve
    rw [List.map_append]
    exact hserve.effect.settled hsettled

/-- No privilege escalation: whatever was done before and whatever fails, an operation leaves every user on
every old space with at most the greater of what the user and the actor could do there. -/
theorem no_privilege_escalation {disk : Disk} {requests : List Request} {site site' : Site}
    (hrun : Run (Serve Anything Anything backend) (firstSite disk) requests site)
    (hfresh : ((requests ++ [request]).map (·.drawn.id)).Nodup)
    (hstep : Serve Anything Anything backend site request site')
    (hspace : spaceId ∈ site.db.spaces.rows.map Space.id) (userId : String) :
    effectiveLevel site'.db userId spaceId ≤
      max (effectiveLevel site.db userId spaceId) (effectiveLevel site.db request.actor spaceId) := by
  have hid : request.drawn.id ∉ requests.map (·.drawn.id) := by
    rw [List.map_append, List.nodup_append] at hfresh
    exact fun hmem => hfresh.2.2 _ hmem _ (List.mem_singleton_self _) rfl
  rw [effectiveLevel_le_iff]
  intro permission hholds
  rcases hstep.effect.holds (run_settled hrun) hid hspace hholds with hold | hactor
  · exact (permRank_le_effectiveLevel hold).trans (le_max_left _ _)
  · exact hactor.trans (le_max_right _ _)

/-- A space of Alice's, and Bob, whom she has not let in yet. -/
def sampleSharing : List Request :=
  [sampleRequest "" "alice" (.register [] "alice" "alice@example.com" "password"),
    sampleRequest "" "bob" (.register [] "bob" "bob@example.com" "password"),
    sampleRequest "alice" "photos" (.createSpace "Photos")]

def sampleGrant : Request := sampleRequest "alice" "none" (.grantUserAccess "photos" "bob" "write")

theorem no_privilege_escalation_grant :
    let site := calmServeAll sampleBackend (firstSite ⟨.empty, 0⟩) sampleSharing
    let site' := calmServe sampleBackend site sampleGrant
    effectiveLevel site.db "bob" "photos" = 0 ∧ effectiveLevel site'.db "bob" "photos" = 2 ∧
      effectiveLevel site'.db "bob" "photos" ≤
        max (effectiveLevel site.db "bob" "photos") (effectiveLevel site.db "alice" "photos") :=
  ⟨by decide +kernel, by decide +kernel, no_privilege_escalation (run_calm (fun _ => trivial) trivial _ _)
    (by decide +kernel) (serve_calm (fun _ => trivial) trivial _ _) (by decide +kernel) "bob"⟩

end IronDrive
