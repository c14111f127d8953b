import IronDrive.SpaceOwners

/-! The route that creates a space, and whether what it answers is so. The requester of a space for a group is
told to be its administrator, but is so only as a member of the group. -/

namespace IronDrive

open Lib CryptoService SpaceService

/-- The body of the request, with the owner type that is filled in when it is missing. -/
structure CreateSpaceRequest where
  name : String
  ownerType : String
  groupId : Option String

structure SpaceResponse where
  id : String
  name : String
  ownerType : String
  ownerId : String
  encryptionMode : String
  createdAt : String
  granteeCount : Nat
  userPermission : String

def spaceResponse (s : SpaceWithMeta) : SpaceResponse where
  id := s.space.id
  name := s.space.name
  ownerType := s.space.ownerType
  ownerId := s.space.ownerId
  encryptionMode := s.space.encryptionMode
  createdAt := s.space.createdAt
  granteeCount := s.granteeCount
  userPermission := s.userPermission

namespace SpaceRoutes

/-- `POST /api/v1/spaces`, after the guard has found the user. -/
def createSpace (backend : Backend) (drawn : Drawn) (userId : String) (body : CreateSpaceRequest) :
    ServiceProgram SpaceResponse := do
  let P := backend.primitives
  let result ←
    if body.ownerType = "group" then do
      let groupId ← Program.okOr (.validation "group_id is required when owner_type is 'group'.") body.groupId
      SpaceService.createGroupSpace P backend.config backend.masterKey drawn groupId body.name
    else if body.ownerType = "user" ∨ body.ownerType = "" then
      SpaceService.createSpace P backend.config backend.masterKey drawn userId body.name
    else
      Program.fail (.validation ("Invalid owner_type '" ++ body.ownerType ++ "'. Must be 'user' or 'group'."))
  return spaceResponse result

end SpaceRoutes

variable {F : Choice → Prop} {G : Option String → Prop} {backend : Backend} {drawn : Drawn} {P : Primitives}
  {masterKey : MasterKey} {v : FileTree × Records} {records records' : Records}
  {userId ownerType ownerId permission : String} {entry : SpaceWithMeta} {body : CreateSpaceRequest}

theorem isMember_iff {db : Db} {groupId : String} :
    db.isMember groupId userId = true ↔ ∃ m ∈ db.members.rows, m.userId = userId ∧ m.groupId = groupId := by
  rw [Db.isMember, decide_eq_true_iff, Db.affected, List.length_pos_iff_exists_mem]
  constructor
  · rintro ⟨m, hm⟩
    obtain ⟨hmem, hkey⟩ := List.mem_filter.mp hm
    obtain ⟨hgroup, huser⟩ := Prod.mk.inj (of_decide_eq_true hkey)
    exact ⟨m, hmem, huser, hgroup⟩
  · rintro ⟨m, hm, huser, hgroup⟩
    exact ⟨m, List.mem_filter.mpr ⟨hm, decide_eq_true (Prod.ext hgroup huser)⟩⟩

/-- On a space just made only its owner is given anything: there can be no grants yet. -/
theorem given_created {holderType holderId : String}
    (h : Creation G P masterKey drawn ownerType ownerId records (.ok entry) records') :
    Given records'.db holderType holderId entry.space.id permission ↔
      permission = permAdmin ∧ ownerType = holderType ∧ ownerId = holderId := by
  cases h with
  | created _ hinsert =>
      obtain ⟨hid, htables⟩ := Db.insertSpace_ok hinsert
      simp only [Given, htables]
      constructor
      · rintro (⟨hp, space, hspace, hspaceId, htype, howner⟩ | ⟨grant, hgrant, hspaceId, -⟩)
        · rcases (Table.mem_insert (h := hid)).mp hspace with hold | rfl
          · exact absurd (List.mem_map.mpr ⟨space, hold, hspaceId⟩) hid
          · exact ⟨hp, htype, howner⟩
        · exact absurd (hspaceId ▸ records.db.accessSpaces grant hgrant) hid
      · rintro ⟨hp, htype, howner⟩
        exact Or.inl ⟨hp, _, (Table.mem_insert (h := hid)).mpr (Or.inr rfl), rfl, htype, howner⟩

/-- On a space just made its owner is an administrator, or each member of its group; the others have nothing. -/
theorem resolve_created (h : Creation G P masterKey drawn ownerType ownerId records (.ok entry) records') :
    records'.db.resolveUserPermission userId entry.space.id = some entry.userPermission ↔
      ownerType = "user" ∧ ownerId = userId ∨ ownerType = "group" ∧ records.db.isMember ownerId userId = true := by
  have hmembers : records'.db.members = records.db.members := by
    cases h with
    | created _ hinsert =>
        obtain ⟨_, htables⟩ := Db.insertSpace_ok hinsert
        rw [htables]
  have hadmin : entry.userPermission = permAdmin := by
    cases h
    rfl
  have hholds : Holds records'.db userId entry.space.id permAdmin ↔
      ownerType = "user" ∧ ownerId = userId ∨ ownerType = "group" ∧ records.db.isMember ownerId userId = true := by
    rw [Holds, given_created h, isMember_iff, hmembers]
    constructor
    · rintro (⟨-, huser, howner⟩ | ⟨m, hm, huser, hgiven⟩)
      · exact Or.inl ⟨huser, howner⟩
      · obtain ⟨-, hgroup, howner⟩ := (given_created h).mp hgiven
        exact Or.inr ⟨hgroup, m, hm, huser, howner.symm⟩
    · rintro (⟨huser, howner⟩ | ⟨hgroup, m, hm, huser, howner⟩)
      · exact Or.inl ⟨rfl, huser, howner⟩
      · exact Or.inr ⟨m, hm, huser, (given_created h).mpr ⟨rfl, hgroup, howner.symm⟩⟩
  rw [← hholds, hadmin]
  constructor
  · intro hresolved
    by_contra hnot
    have hnone : ∀ p, ¬ Holds records'.db userId entry.space.id p := by
      intro p hp
      apply hnot
      have hall : p = permAdmin := by
        rcases hp with hgiven | ⟨m, -, -, hgiven⟩
        · exact ((given_created h).mp hgiven).1
        · exact ((given_created h).mp hgiven).1
      exact hall ▸ hp
    rw [resolveUserPermission_of_none hnone] at hresolved
    cases hresolved
  · exact resolveUserPermission_of_admin

/-! ### What the route answers -/

/-- What the creation of a space must have left when its response is sent. -/
def Reports (G : Option String → Prop) (backend : Backend) (drawn : Drawn) (userId : String)
    (body : CreateSpaceRequest) (records : Records) (result : Except AppError SpaceResponse) (records' : Records) :
    Prop :=
  ∀ response, result = .ok response → ∃ entry ownerType ownerId,
    response = spaceResponse entry ∧
    Creation G backend.primitives backend.masterKey drawn ownerType ownerId records (.ok entry) records' ∧
    (body.ownerType = "group" ∧ ownerType = "group" ∧ body.groupId = some ownerId ∨
      body.ownerType ≠ "group" ∧ ownerType = "user" ∧ ownerId = userId)

theorem reports_error {error : AppError} :
    Reports G backend drawn userId body records (.error error) records' := by
  intro response h
  cases h

/-- A space that is made is made for the group named, or for the requester. -/
theorem createSpace_route_ensures :
    (SpaceRoutes.createSpace backend drawn userId body).Ensures (Serves F G) v fun result v' =>
      Reports G backend drawn userId body v.2 result v'.2 := by
  unfold SpaceRoutes.createSpace
  simp only [Program.bind_eq]
  by_cases hgroup : body.ownerType = "group"
  · simp only [if_pos hgroup]
    apply Program.ensures_okOr_bind
    · intro groupId hgroupId
      refine createGroupSpace_ensures.bind ?_ fun _ _ _ => reports_error
      intro entry v' hcreation response hresponse
      cases hresponse
      exact ⟨entry, "group", groupId, rfl, hcreation.1, Or.inl ⟨hgroup, rfl, hgroupId⟩⟩
    · intro _
      exact reports_error
  · simp only [if_neg hgroup]
    by_cases huser : body.ownerType = "user" ∨ body.ownerType = ""
    · rw [if_pos huser]
      refine createSpace_ensures.bind ?_ fun _ _ _ => reports_error
      intro entry v' hcreation response hresponse
      cases hresponse
      exact ⟨entry, "user", userId, rfl, hcreation, Or.inr ⟨hgroup, rfl, rfl⟩⟩
    · rw [if_neg huser]
      exact reports_error

/-- A creation that succeeds answers the permission of the requester on the new space exactly when the space
is not for a group, or the requester is a member of it. -/
theorem createSpace_route_truthful_iff (backend : Backend) (oracle : Nat → Choice)
    (dbOracle : Nat → Option String) (site site' : Site) (drawn : Drawn) (userId : String)
    (body : CreateSpaceRequest) (response : SpaceResponse)
    (h : (SpaceRoutes.createSpace backend drawn userId body).run (serviceHandler oracle dbOracle) site =
      (.ok response, site')) :
    site'.db.resolveUserPermission userId response.id = some response.userPermission ↔
      (body.ownerType = "group" → ∃ groupId, body.groupId = some groupId ∧
        site.db.isMember groupId userId = true) := by
  have hreports : Reports Anything backend drawn userId body site.records
      ((SpaceRoutes.createSpace backend drawn userId body).run (serviceHandler oracle dbOracle) site).1
      ((SpaceRoutes.createSpace backend drawn userId body).run (serviceHandler oracle dbOracle) site).2.records :=
    service_run (F := Anything) (fun _ => trivial) (fun _ => trivial) createSpace_route_ensures
  rw [h] at hreports
  obtain ⟨entry, ownerType, ownerId, rfl, hcreation, howner⟩ := hreports response rfl
  refine (resolve_created hcreation).trans ?_
  rcases howner with ⟨hgroup, rfl, hgroupId⟩ | ⟨huser, rfl, rfl⟩
  · constructor
    · rintro (⟨hfalse, -⟩ | ⟨-, hmember⟩)
      · exact absurd hfalse (by decide)
      · exact fun _ => ⟨ownerId, hgroupId, hmember⟩
    · intro hcond
      obtain ⟨groupId, hsome, hmember⟩ := hcond hgroup
      cases hgroupId.symm.trans hsome
      exact Or.inr ⟨rfl, hmember⟩
  · exact ⟨fun _ hgroup => absurd hgroup huser, fun _ => Or.inl ⟨rfl, rfl⟩⟩

/-- The band is Alice's; Bob is not in it. -/
def sampleBand : List Request :=
  [sampleRequest "" "alice" (.register [] "alice" "alice@example.com" "password"),
    sampleRequest "" "bob" (.register [] "bob" "bob@example.com" "password"),
    sampleRequest "alice" "band" (.createGroup "Band" none)]

/-- A user asks for a space for the band. -/
def sampleBandSpace (userId : String) : Except AppError SpaceResponse × Site :=
  (SpaceRoutes.createSpace sampleBackend (sampleDrawn "photos") userId ⟨"Photos", "group", some "band"⟩).run
    (serviceHandler calmOracle fun _ => none) (calmServeAll sampleBackend (firstSite ⟨.empty, 0⟩) sampleBand)

theorem createSpace_route_truthful_iff_alice :
    ∃ response, (sampleBandSpace "alice").1 = .ok response ∧ response.userPermission = "admin" ∧
      ((sampleBandSpace "alice").2.db.resolveUserPermission "alice" response.id = some response.userPermission ↔
        ("group" = "group" → ∃ groupId, some "band" = some groupId ∧
          (calmServeAll sampleBackend (firstSite ⟨.empty, 0⟩) sampleBand).db.isMember groupId "alice" = true)) := by
  obtain ⟨response, hok, hadmin⟩ : ∃ response, (sampleBandSpace "alice").1 = .ok response ∧
      response.userPermission = "admin" := exists_ok (by decide +kernel)
  exact ⟨response, hok, hadmin, createSpace_route_truthful_iff sampleBackend calmOracle (fun _ => none) _ _
    (sampleDrawn "photos") "alice" ⟨"Photos", "group", some "band"⟩ response (Prod.ext hok rfl)⟩

/-- Bob makes a space for the band, is told to be its administrator, and has nothing on it. -/
theorem createSpace_route_outsider :
    Run (AdmittedServe sampleBackend) (firstSite ⟨.empty, 0⟩) sampleBand
      (calmServeAll sampleBackend (firstSite ⟨.empty, 0⟩) sampleBand) ∧
    ∃ response, (sampleBandSpace "bob").1 = .ok response ∧ response.userPermission = "admin" ∧
      (sampleBandSpace "bob").2.db.resolveUserPermission "bob" response.id = none := by
  refine ⟨?_, exists_ok (by decide +kernel)⟩
  exact ((Run.nil.snoc (admittedServe_calm (Or.inl rfl))).snoc (admittedServe_calm (Or.inl rfl))).snoc
    (admittedServe_calm (Or.inr (by decide +kernel)))

end IronDrive
