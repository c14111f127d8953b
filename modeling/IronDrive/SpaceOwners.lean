import IronDrive.AccessLevels
import IronDrive.GroupOwnership

/-! Who can administer a space. The owner of a space is named by text, a user's or a group's identifier, and
nothing in the schema ties it to a row. Users stay, so their spaces can always be administered; a group can be
deleted from under its spaces, and then nobody may be left who can. -/

namespace IronDrive

open Lib GroupService SpaceService

/-- The owner of each space is a user or a group that is there. -/
def Anchored (db : Db) : Prop :=
  ∀ space ∈ db.spaces.rows,
    space.ownerType = "user" ∧ space.ownerId ∈ db.users.rows.map UserRow.id ∨
      space.ownerType = "group" ∧ space.ownerId ∈ db.groups.rows.map Group.id

/-- The guards of the routes let registered users through only; registering itself needs no account. -/
def Admitted (site : Site) (request : Request) : Prop :=
  request.operation.anonymous = true ∨ request.actor ∈ site.db.users.rows.map UserRow.id

/-- The group that its creator asks to be deleted owns no space. -/
def SparesSpaces (site : Site) (request : Request) : Prop :=
  ∀ group ∈ site.db.groups.rows, request.condemned = some group.id → group.createdBy = request.actor →
    ∀ space ∈ site.db.spaces.rows, space.ownerType = "group" → space.ownerId ≠ group.id

variable {G : Option String → Prop} {backend : Backend} {request : Request} {records records' : Records}
  {db db' : Db} {id actor : String} {condemned : Option String} {P : Primitives} {masterKey : MasterKey}
  {drawn : Drawn}

theorem Anchored.of_grown (h : Anchored db) (hspaces : db'.spaces = db.spaces)
    (husers : ∀ userId ∈ db.users.rows.map UserRow.id, userId ∈ db'.users.rows.map UserRow.id)
    (hgroups : ∀ space ∈ db.spaces.rows, space.ownerType = "group" → space.ownerId ∈ db.groups.rows.map Group.id →
      space.ownerId ∈ db'.groups.rows.map Group.id) : Anchored db' := by
  intro space hspace
  rw [hspaces] at hspace
  rcases h space hspace with ⟨htype, howner⟩ | ⟨htype, howner⟩
  · exact Or.inl ⟨htype, husers _ howner⟩
  · exact Or.inr ⟨htype, hgroups space hspace htype howner⟩

theorem RegisterEffect.anchored (h : RegisterEffect drawn db db') (hanchored : Anchored db) : Anchored db' := by
  cases h with
  | rejected => exact hanchored
  | registered _ hinsert =>
      obtain ⟨hid, htables⟩ := Db.insertUser_ok hinsert
      refine hanchored.of_grown (by rw [htables]) (fun userId huser => ?_) fun _ _ _ hgroup => ?_
      · rw [htables]
        exact Table.mem_map_insert hid huser
      · rw [htables]
        exact hgroup

theorem SetupEffect.anchored {userId : String} {result : Except AppError PersonalLibrary}
    (h : SetupEffect G P masterKey drawn userId records result records') (hanchored : Anchored records.db) :
    Anchored records'.db := by
  have hids : records'.db.users.rows.map UserRow.id = records.db.users.rows.map UserRow.id := by
    cases h with
    | rejected => rfl
    | undone => rfl
    | stranded _ hinsert _ =>
        obtain ⟨_, htables⟩ := Db.insertLibrary_ok hinsert
        rw [htables]
    | @created _ _ _ made _ _ hinsert hmark =>
        obtain ⟨_, hmade⟩ := Db.insertLibrary_ok hinsert
        have hsame : made.users = records.db.users := by rw [hmade]
        simp only [Db.markSetupComplete_ok hmark, ← hsame]
        exact Table.map_updateWhere (UserRow.completeSetup_id drawn.now)
  have hframe := h.frame
  refine hanchored.of_grown (by rw [hframe]) (fun userId huser => ?_) fun _ _ _ hgroup => ?_
  · rw [hids]
    exact huser
  · rw [hframe]
    exact hgroup

/-- A group that is deleted must not own a space. -/
theorem GroupEffect.anchored (h : GroupEffect G id actor condemned db db') (hanchored : Anchored db)
    (hspares : ∀ group ∈ db.groups.rows, condemned = some group.id → group.createdBy = actor →
      ∀ space ∈ db.spaces.rows, space.ownerType = "group" → space.ownerId ≠ group.id) : Anchored db' := by
  have hframe := h.frame
  refine hanchored.of_grown (by rw [hframe]) (by rw [hframe]; exact fun _ huser => huser) ?_
  intro space hspace htype howner
  cases h with
  | rejected => exact howner
  | @created group joinedAt n m made _ _ _ hinsert hadd =>
      obtain ⟨hid, hmade, -⟩ := Db.insertGroup_ok hinsert
      obtain ⟨_, htables, -⟩ := Db.insertMember_ok hadd
      have hsame : db'.groups = made.groups := by rw [htables]
      rw [hsame, hmade]
      exact Table.mem_map_insert hid howner
  | ownerless _ _ _ hinsert =>
      obtain ⟨hid, htables, -⟩ := Db.insertGroup_ok hinsert
      rw [htables]
      exact Table.mem_map_insert hid howner
  | updated hupdate =>
      simp only [Db.updateGroup_ok hupdate]
      rw [Table.map_updateWhere]
      · exact howner
      · exact fun _ => rfl
  | @deleted group n _ hcondemned hfound hcreator hdelete =>
      simp only [Db.deleteGroup_ok hdelete]
      obtain ⟨owner, hownerRow, heq⟩ := List.mem_map.mp howner
      refine List.mem_map.mpr ⟨owner, Table.mem_deleteWhere.mpr ⟨hownerRow, ?_⟩, heq⟩
      rw [decide_eq_false_iff_not, heq]
      exact hspares group (List.mem_of_find?_eq_some hfound) hcondemned hcreator space hspace htype
  | added _ _ _ _ hadd =>
      obtain ⟨_, htables, -⟩ := Db.insertMember_ok hadd
      rw [htables]
      exact howner
  | removed _ _ hremove =>
      rw [Db.deleteMember_ok hremove]
      exact howner
  | changedRole _ _ _ _ hchange =>
      rw [Db.updateRole_ok hchange]
      exact howner

/-- The space of a registered user has an owner that is there. -/
theorem SpaceEffect.anchored (h : SpaceEffect G P masterKey drawn actor records records')
    (hanchored : Anchored records.db) (hactor : actor ∈ records.db.users.rows.map UserRow.id) :
    Anchored records'.db := by
  cases h with
  | rejected => exact hanchored
  | @opened ownerType ownerId result _ howner hcreation =>
      have hinserted : ∀ {name : String} {blob : Bytes} {n : Nat} {db' : Db},
          Db.insertSpace (Space.ofParams drawn ⟨name, ownerType, ownerId, "server", blob⟩) records.db =
            .ok (n, db') → Anchored db' := by
        intro name blob n db' hinsert
        obtain ⟨hid, htables⟩ := Db.insertSpace_ok hinsert
        simp only [Anchored, htables]
        refine Table.forall_mem_insert hid hanchored ?_
        rcases howner with ⟨htype, rfl⟩ | hgroup
        · exact Or.inl ⟨htype, hactor⟩
        · exact Or.inr hgroup
      cases hcreation with
      | rejected error => exact hanchored
      | stranded _ hinsert => exact hinserted hinsert
      | created _ hinsert => exact hinserted hinsert
  | renamed _ hrename =>
      simp only [Anchored, Db.updateSpace_ok hrename]
      exact Table.forall_mem_updateWhere hanchored fun _ hrow => hrow
  | deleted _ hdelete =>
      simp only [Anchored, Db.deleteSpace_ok hdelete]
      exact fun row hrow => hanchored row (Table.mem_deleteWhere.mp hrow).1
  | granted hinsert _ _ _ =>
      obtain ⟨_, htables⟩ := Db.insertAccess_ok hinsert
      simp only [Anchored, htables]
      exact hanchored
  | revoked _ hdelete =>
      simp only [Anchored, Db.deleteAccess_ok hdelete]
      exact hanchored
  | regraded _ _ hchange =>
      simp only [Anchored, Db.updatePermission_ok hchange]
      exact hanchored

theorem Effect.anchored {site : Site} (h : Effect G backend request site.records records')
    (hanchored : Anchored site.db) (hadmitted : Admitted site request) (hspares : SparesSpaces site request) :
    Anchored records'.db := by
  cases h with
  | account hregister => exact hregister.anchored hanchored
  | library hsetup => exact hsetup.anchored hanchored
  | group hgroup => exact hgroup.anchored hanchored hspares
  | space hop hspace =>
      rcases hadmitted with hanonymous | hactor
      · rw [hop] at hanonymous
        cases hanonymous
      · exact hspace.anchored hanchored hactor

/-! ### Every run -/

/-- Serving admitted requests while the database does not fail. -/
def AdmittedServe (backend : Backend) (site : Site) (request : Request) (site' : Site) : Prop :=
  Serve Anything Calm backend site request site' ∧ Admitted site request

/-- Of a space whose owner is there some user is an administrator. -/
theorem exists_admin (howned : Owned db) (hanchored : Anchored db) :
    ∀ space ∈ db.spaces.rows, ∃ user ∈ db.users.rows,
      db.resolveUserPermission user.id space.id = some permAdmin := by
  intro space hspace
  rcases hanchored space hspace with ⟨htype, howner⟩ | ⟨htype, howner⟩
  · obtain ⟨user, huser, heq⟩ := List.mem_map.mp howner
    refine ⟨user, huser, resolveUserPermission_of_admin (Or.inl (Or.inl ⟨rfl, space, hspace, rfl, htype, ?_⟩))⟩
    exact heq.symm
  · obtain ⟨group, hgroup, heq⟩ := List.mem_map.mp howner
    obtain ⟨member, hmember, hkey, -⟩ := howned.creator group hgroup
    obtain ⟨user, huser, hid⟩ := List.mem_map.mp (db.memberUsers member hmember)
    have hof : member.groupId = group.id := (Prod.mk.inj hkey).1
    refine ⟨user, huser, resolveUserPermission_of_admin (Or.inr ⟨member, hmember, hid.symm, ?_⟩)⟩
    exact Or.inl ⟨rfl, space, hspace, rfl, htype, heq.symm.trans hof.symm⟩

/-- In every run in which no group is deleted while it owns a space, each space can be administered by some
user in every state reached. -/
theorem spaces_administered {disk : Disk} {requests : List Request} {site : Site}
    (hrun : Run (fun site request site' => AdmittedServe backend site request site' ∧ SparesSpaces site request)
      (firstSite disk) requests site) :
    ∀ space ∈ site.db.spaces.rows, ∃ user ∈ site.db.users.rows,
      site.db.resolveUserPermission user.id space.id = some permAdmin := by
  have howned := run_owned (hrun.mono fun _ _ _ h => h.1.1)
  have hanchored : Anchored site.db := by
    apply hrun.invariant (I := fun site => Anchored site.db)
    · simp [Anchored, firstSite, Site.db, Db.empty, Table.empty]
    · intro site request site' hanchored hstep
      obtain ⟨⟨hserve, hadmitted⟩, hspares⟩ := hstep
      exact hserve.effect.anchored hanchored hadmitted hspares
  exact exists_admin howned hanchored

/-- Alice makes a group and a space that the group owns. -/
def sampleGroupSpace : List Request :=
  [sampleRequest "" "alice" (.register [] "alice" "alice@example.com" "password"),
    sampleRequest "alice" "band" (.createGroup "Band" none),
    sampleRequest "alice" "photos" (.createGroupSpace "band" "Photos")]

/-- She deletes the group. -/
def sampleOrphaning : Request := sampleRequest "alice" "none" (.deleteGroup "band")

theorem admittedServe_calm {site : Site} {request : Request} (h : Admitted site request) :
    AdmittedServe sampleBackend site request (calmServe sampleBackend site request) :=
  ⟨serve_calm (fun _ => trivial) calm_none site request, h⟩

theorem spares_of_other {site : Site} {request : Request} (h : request.condemned = none) :
    SparesSpaces site request := by
  intro group _ hcondemned
  rw [h] at hcondemned
  cases hcondemned

theorem spaces_administered_sample :
    let site := calmServeAll sampleBackend (firstSite ⟨.empty, 0⟩) sampleGroupSpace
    site.db.spaces.rows.map Space.id = ["photos"] ∧
      ∀ space ∈ site.db.spaces.rows, ∃ user ∈ site.db.users.rows,
        site.db.resolveUserPermission user.id space.id = some permAdmin := by
  have hrun : Run (fun site request site' =>
      AdmittedServe sampleBackend site request site' ∧ SparesSpaces site request) (firstSite ⟨.empty, 0⟩)
      sampleGroupSpace (calmServeAll sampleBackend (firstSite ⟨.empty, 0⟩) sampleGroupSpace) :=
    ((Run.nil.snoc ⟨admittedServe_calm (Or.inl rfl), spares_of_other rfl⟩).snoc
      ⟨admittedServe_calm (Or.inr (by decide +kernel)), spares_of_other rfl⟩).snoc
      ⟨admittedServe_calm (Or.inr (by decide +kernel)), spares_of_other rfl⟩
  exact ⟨by decide +kernel, spaces_administered hrun⟩

/-- Once the group is deleted its space is left, and nobody can administer it. -/
theorem orphaned_space :
    ∃ site, Run (AdmittedServe sampleBackend) (firstSite ⟨.empty, 0⟩) (sampleGroupSpace ++ [sampleOrphaning]) site ∧
      ¬ ∀ space ∈ site.db.spaces.rows, ∃ user ∈ site.db.users.rows,
        site.db.resolveUserPermission user.id space.id = some permAdmin := by
  refine ⟨calmServeAll sampleBackend (firstSite ⟨.empty, 0⟩) (sampleGroupSpace ++ [sampleOrphaning]), ?_, ?_⟩
  · exact (((Run.nil.snoc (admittedServe_calm (Or.inl rfl))).snoc
      (admittedServe_calm (Or.inr (by decide +kernel)))).snoc
      (admittedServe_calm (Or.inr (by decide +kernel)))).snoc (admittedServe_calm (Or.inr (by decide +kernel)))
  · decide +kernel

end IronDrive
