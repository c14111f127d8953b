import IronDrive.AccessLevels
import IronDrive.TokenBinding

/-! The routes of chunked downloads. Two of them know users only; the third is below a space, and a guard looks at
what the user may do there. -/

namespace IronDrive

open Lib

namespace SpaceGuard

abbrev levelRead : Nat := 1
abbrev levelWrite : Nat := 2
abbrev levelAdmin : Nat := 3

def permissionLevel (perm : String) : Nat :=
  if perm = "read" then levelRead
  else if perm = "write" then levelWrite
  else if perm = "admin" then levelAdmin
  else 0

/-- The segment right after `spaces`, in the path cut at its slashes. -/
def extractSpaceId : List String → Option String
  | "spaces" :: id :: segments => if id = "" then extractSpaceId segments else some id
  | _ :: segments => extractSpaceId segments
  | [] => none

/-- Load the space in the path, and check that the user meets the required level there. -/
def checkSpacePermission (segments : List String) (userId : String) (requiredLevel : Nat) :
    ServiceProgram SpaceWithMeta := do
  let spaceId ← Program.okOr (.validation "Missing space ID in request path.") (extractSpaceId segments)
  match ← (query (·.findForUser userId spaceId)).outcome with
  | .error _ => Program.fail (.internal "Failed to load space.")
  | .ok found => do
      let space ← Program.okOr .notFound found
      if permissionLevel space.userPermission < requiredLevel then Program.fail .forbidden
      else return space

end SpaceGuard

/-! ### The routes -/

/-- Where a chunked download goes through. The guard looks at the segment of the path, and the handler gets what
the segment decodes to. -/
inductive DownloadRoute
  | library
  | files
  | space (segment spaceId : String)

/-- The path of the route, cut at its slashes. -/
def DownloadRoute.segments (last : String) : DownloadRoute → List String
  | .library => ["", "api", "v1", "library", "chunked", "download", last]
  | .files => ["", "files", "chunked", "download", last]
  | .space segment _ => ["", "spaces", segment, "chunked", "download", last]

/-- The space whose guard the route has. -/
def DownloadRoute.guarded : DownloadRoute → Option String
  | .library | .files => none
  | .space segment _ => some segment

def requireLibrary (userId : String) : ServiceProgram PersonalLibrary := do
  Program.okOr .notFound (← query (·.findLibraryByUser userId))

namespace DownloadRoutes

open ChunkService SpaceGuard

variable (crates : Crates) (tokens : TokenCrates) (config : AppConfig) (P : Primitives) (unlockState : UnlockState)

/-- `GET …/chunked/download/init`, after the session has named the user. -/
def chunkedInitDownload (route : DownloadRoute) (userId : String) (now : Int) (nonce path : String) :
    ServiceProgram InitDownloadResult :=
  match route with
  | .library => do
      let lib ← requireLibrary userId
      onFiles (initDownload crates tokens config P unlockState now nonce userId lib.id "library" path)
  | .files => do
      -- The page has one answer for every failure here.
      match ← (requireLibrary userId).outcome with
      | .error _ => Program.fail .notFound
      | .ok lib => onFiles (initDownload crates tokens config P unlockState now nonce userId lib.id "library" path)
  | .space _ spaceId => do
      let _ ← checkSpacePermission (route.segments "init") userId levelRead
      onFiles (initDownload crates tokens config P unlockState now nonce userId spaceId "space" path)

/-- `GET …/chunked/download/chunk`, after the session has named the user. -/
def chunkedDownloadChunk (route : DownloadRoute) (userId : String) (now : Int) (token : String) (index : Nat) :
    ServiceProgram ChunkDownloadResult :=
  match route with
  | .library | .files => onFiles (serveChunk crates tokens config P unlockState now userId token index)
  | .space _ _ => do
      let _ ← checkSpacePermission (route.segments "chunk") userId levelRead
      onFiles (serveChunk crates tokens config P unlockState now userId token index)

end DownloadRoutes

variable {F : Choice → Prop} {G : Option String → Prop} {α : Type} {v : FileTree × Records} {db : Db}
  {userId spaceId segment : String} {entry : SpaceWithMeta}

theorem query_ensures {q : Db → α} :
    (query q).Ensures (Serves F G) v fun result v' => v' = v ∧ ∀ value, result = .ok value → value = q v.2.db := by
  rw [← Program.bind_done (query q)]
  apply query_bind
  · exact ⟨rfl, fun value hvalue => (Except.ok.inj hvalue).symm⟩
  · exact fun message _ => ⟨rfl, nofun⟩

namespace SpaceGuard

/-- The guard and the services order permissions alike. -/
theorem permissionLevel_eq (perm : String) : permissionLevel perm = SpaceService.permissionLevel perm := rfl

/-- What the guard's query answers is the user's level. -/
theorem permissionLevel_findForUser (h : db.findForUser userId spaceId = some entry) :
    permissionLevel entry.userPermission = effectiveLevel db userId spaceId := by
  by_cases hholds : ∃ p, Holds db userId spaceId p
  · obtain ⟨p, hp⟩ := hholds
    have hsame : bestLabel (db.accessible userId spaceId) = bestLabel (db.perms userId spaceId) :=
      bestLabel_congr fun q => mem_accessible.trans mem_perms.symm
    have hbest : entry.userPermission = bestLabel (db.accessible userId spaceId) := by
      obtain ⟨space, -, rfl⟩ := List.mem_map.mp (List.mem_of_head? h)
      rfl
    rw [permissionLevel_eq, effectiveLevel, resolveUserPermission_of_holds hp, hbest, hsame]
    rfl
  · have hnone : ∀ p, ¬ Holds db userId spaceId p := fun p hp => hholds ⟨p, hp⟩
    rw [findForUser_of_none hnone] at h
    cases h

/-- On a route the guard finds the space that the route is below. -/
theorem extractSpaceId_segments {route : DownloadRoute} {last : String}
    (h : extractSpaceId (route.segments last) = some spaceId) : route.guarded = some spaceId := by
  cases route with
  | library => simp [DownloadRoute.segments, extractSpaceId] at h
  | files => simp [DownloadRoute.segments, extractSpaceId] at h
  | space segment decoded =>
      by_cases hempty : segment = ""
      · simp [DownloadRoute.segments, extractSpaceId, hempty] at h
      · simpa [DownloadRoute.segments, DownloadRoute.guarded, extractSpaceId, hempty] using h

/-- Whoever passes the guard has the level at that moment. -/
theorem checkSpacePermission_ensures {segments : List String} {requiredLevel : Nat} :
    (checkSpacePermission segments userId requiredLevel).Ensures (Serves F G) v fun result v' =>
      v' = v ∧ ∀ space, result = .ok space → ∃ spaceId, extractSpaceId segments = some spaceId ∧
        requiredLevel ≤ effectiveLevel v.2.db userId spaceId := by
  apply Program.ensures_okOr_bind
  · intro spaceId hspace
    refine query_ensures.outcome_bind fun result v' h => ?_
    obtain ⟨rfl, hfound⟩ := h
    cases result with
    | error error => exact ⟨rfl, nofun⟩
    | ok found =>
        apply Program.ensures_okOr_bind
        · intro space hsome
          by_cases hlevel : permissionLevel space.userPermission < requiredLevel
          · rw [if_pos hlevel]
            exact ⟨rfl, nofun⟩
          · rw [if_neg hlevel]
            refine ⟨rfl, fun _ _ => ⟨spaceId, hspace, ?_⟩⟩
            rw [← permissionLevel_findForUser ((hfound found rfl).symm.trans hsome)]
            exact not_lt.mp hlevel
        · exact fun _ => ⟨rfl, nofun⟩
  · exact fun _ => ⟨rfl, nofun⟩

end SpaceGuard

namespace DownloadRoutes

open ChunkService SpaceGuard

variable {crates : Crates} {tokens : TokenCrates} {config : AppConfig} {P : Primitives} {unlockState : UnlockState}
  {route : DownloadRoute} {now : Int} {nonce path token : String} {index : Nat}

/-- A program on the files that nothing follows. -/
theorem onFiles_ensures {program : FsProgram α} {R : Except AppError α → Prop}
    (h : program.Ensures (Performs F) v.1 fun result _ => R result) :
    (onFiles program).Ensures (Serves F G) v fun result v' => v'.2 = v.2 ∧ R result :=
  (Program.Ensures.inl h).mono fun _ _ h => ⟨h.2, h.1⟩

/-- The route below a space gives out tokens for it, to those who may read what its guard looks at. -/
theorem spaceInitDownload_ensures :
    (chunkedInitDownload crates tokens config P unlockState (.space segment spaceId) userId now nonce path).Ensures
      (Serves F G) v fun result v' => v'.2 = v.2 ∧ ∀ init, result = .ok init →
        levelRead ≤ effectiveLevel v.2.db userId segment ∧
          buildDownloadToken crates tokens config.secretKey now nonce userId spaceId "space" path =
            .ok (init.token, init.expiresAt) := by
  refine checkSpacePermission_ensures.bind (fun space v' h => ?_) fun error v' h => ⟨by rw [h.1], nofun⟩
  obtain ⟨rfl, hguard⟩ := h
  obtain ⟨found, hfound, hlevel⟩ := hguard space rfl
  cases extractSpaceId_segments hfound
  refine (onFiles_ensures initDownload_ensures).mono fun result v'' h => ⟨h.1, fun init hinit => ⟨hlevel, ?_⟩⟩
  exact h.2 init hinit

/-- A chunk is served to the user its token names; below a space, to those who may read what the guard looks at. -/
theorem chunkedDownloadChunk_ensures :
    (chunkedDownloadChunk crates tokens config P unlockState route userId now token index).Ensures (Serves F G) v
      fun result v' => v'.2 = v.2 ∧ ∀ served, result = .ok served →
        (∃ payload, verifyDownloadToken tokens config.secretKey now token = .ok payload ∧ payload.uid = userId) ∧
          ∀ spaceId, route.guarded = some spaceId → levelRead ≤ effectiveLevel v.2.db userId spaceId := by
  cases route with
  | library =>
      exact (onFiles_ensures serveChunk_ensures).mono fun result v' h =>
        ⟨h.1, fun served hserved => ⟨h.2 served hserved, nofun⟩⟩
  | files =>
      exact (onFiles_ensures serveChunk_ensures).mono fun result v' h =>
        ⟨h.1, fun served hserved => ⟨h.2 served hserved, nofun⟩⟩
  | space segment decoded =>
      refine checkSpacePermission_ensures.bind (fun space v' h => ?_) fun error v' h => ⟨by rw [h.1], nofun⟩
      obtain ⟨rfl, hguard⟩ := h
      obtain ⟨found, hfound, hlevel⟩ := hguard space rfl
      refine (onFiles_ensures serveChunk_ensures).mono fun result v'' h =>
        ⟨h.1, fun served hserved => ⟨h.2 served hserved, fun spaceId hspace => ?_⟩⟩
      cases (extractSpaceId_segments hfound).symm.trans hspace
      exact hlevel

end DownloadRoutes

end IronDrive
