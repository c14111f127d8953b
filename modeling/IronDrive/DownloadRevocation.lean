import IronDrive.DownloadRoutes
import IronDrive.NoEscalation

/-! Revocation and chunked downloads. A token outlives the permission it was given out under, so what counts is
what the routes check when it is presented: the route below a space asks for the permission on the space of its
path, and the others ask for none. -/

namespace IronDrive

open Lib ChunkService DownloadRoutes

/-- What is asked of the server. Whatever else works on the files stands for the uploads. -/
inductive DownloadCall
  | operation (request : Request)
  | files (program : UnlockState → FsProgram Unit)
  | initDownload (route : DownloadRoute) (userId : String) (now : Int) (nonce path : String)
  | downloadChunk (route : DownloadRoute) (userId : String) (now : Int) (token : String) (index : Nat)

inductive DownloadAnswer
  | done
  | initiated (result : InitDownloadResult)
  | served (result : ChunkDownloadResult)
  deriving DecidableEq

variable (backend : Backend) (crates : Crates) (tokens : TokenCrates)

def DownloadCall.program (unlockState : UnlockState) : DownloadCall → ServiceProgram DownloadAnswer
  | .operation request => (request.program backend).bind fun _ => .done .done
  | .files program => (onFiles (program unlockState)).bind fun _ => .done .done
  | .initDownload route userId now nonce path =>
      (chunkedInitDownload crates tokens backend.config backend.primitives unlockState route userId now nonce
        path).bind fun result => .done (.initiated result)
  | .downloadChunk route userId now token index =>
      (chunkedDownloadChunk crates tokens backend.config backend.primitives unlockState route userId now token
        index).bind fun result => .done (.served result)

/-- A call and what it was answered. -/
structure Exchange where
  call : DownloadCall
  answer : Except AppError DownloadAnswer

/-- One step: a call under any failures of the disk and the database. -/
def Exchanged (site : Site) (exchange : Exchange) (site' : Site) : Prop :=
  ∃ oracle dbOracle, (exchange.call.program backend crates tokens site.records.unlockState).run
    (serviceHandler oracle dbOracle) site = (exchange.answer, site')

/-- The chunk of a space that is returned is returned to a user who may read the space then. -/
def Authorised (site : Site) (exchange : Exchange) (site' : Site) : Prop :=
  ∀ route userId now token index served, exchange.call = .downloadChunk route userId now token index →
    exchange.answer = .ok (.served served) →
    ∀ payload, verifyDownloadToken tokens backend.config.secretKey now token = .ok payload →
      payload.typ = "space" →
      1 ≤ effectiveLevel site.db userId payload.lib ∧ 1 ≤ effectiveLevel site'.db userId payload.lib

/-- A user who presents a token for a space presents it below that space. -/
def OwnRoute (call : DownloadCall) : Prop :=
  ∀ route userId now token index, call = .downloadChunk route userId now token index →
    ∀ payload, verifyDownloadToken tokens backend.config.secretKey now token = .ok payload → payload.uid = userId →
      payload.typ = "space" → route.guarded = some payload.lib

variable {backend : Backend} {crates : Crates} {tokens : TokenCrates} {site site' start : Site}
  {exchange : Exchange} {exchanges : List Exchange} {F : Choice → Prop} {G : Option String → Prop}
  {v : FileTree × Records} {unlockState : UnlockState} {route : DownloadRoute}
  {userId segment spaceId nonce path token : String} {now : Int} {index : Nat}

theorem downloadChunk_ensures :
    ((DownloadCall.downloadChunk route userId now token index).program backend crates tokens unlockState).Ensures
      (Serves F G) v fun result v' => v'.2 = v.2 ∧ ∀ served, result = .ok (.served served) →
        (∃ payload, verifyDownloadToken tokens backend.config.secretKey now token = .ok payload ∧
          payload.uid = userId) ∧
        ∀ spaceId, route.guarded = some spaceId → 1 ≤ effectiveLevel v.2.db userId spaceId := by
  refine chunkedDownloadChunk_ensures.bind (fun served v' h => ?_) fun error v' h => ⟨h.1, nofun⟩
  refine ⟨h.1, fun other hother => ?_⟩
  exact h.2 served rfl

theorem spaceInit_ensures :
    ((DownloadCall.initDownload (.space segment spaceId) userId now nonce path).program backend crates tokens
      unlockState).Ensures (Serves F G) v fun result _ => ∀ init, result = .ok (.initiated init) →
        buildDownloadToken crates tokens backend.config.secretKey now nonce userId spaceId "space" path =
          .ok (init.token, init.expiresAt) := by
  refine spaceInitDownload_ensures.bind (fun init v' h => ?_) fun error v' h => nofun
  intro other hother
  cases hother
  exact (h.2 init rfl).2

/-- What a call ensures, whatever fails, holds of its answer. -/
theorem Exchanged.ensures (h : Exchanged backend crates tokens site exchange site')
    {Q : Except AppError DownloadAnswer → FileTree × Records → Prop}
    (hensures : (exchange.call.program backend crates tokens site.records.unlockState).Ensures
      (Serves Anything Anything) site.view Q) : Q exchange.answer site'.view := by
  obtain ⟨oracle, dbOracle, hrun⟩ := h
  have hQ : Q ((exchange.call.program backend crates tokens site.records.unlockState).run
      (serviceHandler oracle dbOracle) site).1 ((exchange.call.program backend crates tokens
        site.records.unlockState).run (serviceHandler oracle dbOracle) site).2.view :=
    service_run (fun _ => trivial) (fun _ => trivial) hensures
  rwa [hrun] at hQ

/-- The step: a token presented on its own route is served under its own permission. -/
theorem Exchanged.authorised (h : Exchanged backend crates tokens site exchange site')
    (hown : OwnRoute backend tokens exchange.call) : Authorised backend tokens site exchange site' := by
  intro route userId now token index served hcall hanswer payload hverify htyp
  have hensures := h.ensures (by rw [hcall]; exact downloadChunk_ensures)
  obtain ⟨⟨other, hother, huser⟩, hguard⟩ := hensures.2 served hanswer
  cases hother.symm.trans hverify
  have hlevel := hguard payload.lib (hown route userId now token index hcall payload hverify huser htyp)
  have hdb : site'.db = site.db := congrArg Records.db hensures.1
  rw [hdb]
  exact ⟨hlevel, hlevel⟩

/-- Revocation takes effect on chunked downloads where tokens are presented on their own routes: in a run of such
exchanges every chunk of a space is returned to a user who may read the space at that moment. -/
theorem revocation_effective
    (h : Run (fun site exchange site' => Exchanged backend crates tokens site exchange site' ∧
      OwnRoute backend tokens exchange.call) start exchanges site) :
    Run (fun site exchange site' => Exchanged backend crates tokens site exchange site' ∧
      Authorised backend tokens site exchange site') start exchanges site :=
  h.mono fun _ _ _ hstep => ⟨hstep.1, hstep.1.authorised hstep.2⟩

/-! ### Bob downloads from a space of Alice's -/

def Exchange.initiated (exchange : Exchange) : Option InitDownloadResult :=
  match exchange.answer with
  | .ok (.initiated init) => some init
  | _ => none

def Exchange.served (exchange : Exchange) : Option ChunkDownloadResult :=
  match exchange.answer with
  | .ok (.served served) => some served
  | _ => none

theorem Exchange.initiated_eq_some {init : InitDownloadResult} :
    exchange.initiated = some init ↔ exchange.answer = .ok (.initiated init) := by
  unfold Exchange.initiated
  split <;> simp_all

theorem Exchange.served_eq_some {served : ChunkDownloadResult} :
    exchange.served = some served ↔ exchange.answer = .ok (.served served) := by
  unfold Exchange.served
  split <;> simp_all

/-- Answer a call without any failure. -/
def calmExchange (call : DownloadCall) (site : Site) : Exchange × Site :=
  let outcome := (call.program sampleBackend sampleCrates sampleTokens site.records.unlockState).run
    (serviceHandler calmOracle fun _ => none) site
  (⟨call, outcome.1⟩, outcome.2)

def calmExchanges (calls : List DownloadCall) (site : Site) : List Exchange × Site :=
  calls.foldl (fun reached call =>
    (reached.1 ++ [(calmExchange call reached.2).1], (calmExchange call reached.2).2)) ([], site)

theorem exchanged_calm (call : DownloadCall) (site : Site) :
    Exchanged sampleBackend sampleCrates sampleTokens site (calmExchange call site).1 (calmExchange call site).2 :=
  ⟨calmOracle, fun _ => none, rfl⟩

theorem exchanges_calm {I : DownloadCall → Prop} (calls : List DownloadCall) (h : ∀ call ∈ calls, I call)
    (site : Site) :
    Run (fun site exchange site' => Exchanged sampleBackend sampleCrates sampleTokens site exchange site' ∧
      I exchange.call) site (calmExchanges calls site).1 (calmExchanges calls site).2 := by
  induction calls using List.reverseRecOn with
  | nil => exact .nil
  | append_singleton calls call ih =>
      rw [calmExchanges, List.foldl_concat]
      refine (ih fun call hcall => h call (List.mem_append_left _ hcall)).snoc ⟨exchanged_calm _ _, ?_⟩
      exact h call (List.mem_append_right _ (List.mem_singleton_self call))

/-- Alice lets Bob read her photos, and puts one there. -/
def sampleShared : List DownloadCall :=
  [.operation (sampleRequest "" "alice" (.register [] "alice" "alice@example.com" "password")),
    .operation (sampleRequest "alice" "first" .setupLibrary),
    .operation (sampleRequest "" "bob" (.register [] "bob" "bob@example.com" "password")),
    .operation (sampleRequest "bob" "second" .setupLibrary),
    .operation (sampleRequest "alice" "photos" (.createSpace "Photos")),
    .operation (sampleRequest "alice" "none" (.grantUserAccess "photos" "bob" "read")),
    .files fun keys => (FsService.uploadSpaceFile plainPrimitives sampleCrates.mimeFromFilename sampleConfig keys
      "photos" ⟨List.replicate 12 0, twelve_zeros⟩ "a" [7] false).bind fun _ => .done ()]

/-- Bob asks for the photo. -/
def bobInit : DownloadCall := .initDownload (.space "photos" "photos") "bob" 0 "n" "a"

/-- Alice takes the permission back. -/
def aliceRevokes : DownloadCall := .operation (sampleRequest "alice" "none" (.revokeAccess "photos" "user" "bob"))

def sharedSite : Site := (calmExchanges sampleShared emptySite).2

def askedSite : Site := (calmExchanges (sampleShared ++ [bobInit]) emptySite).2

def revokedSite : Site := (calmExchanges (sampleShared ++ [bobInit, aliceRevokes]) emptySite).2

def bobBuild : BuildCall where
  secret := "secret"
  now := 0
  nonce := "n"
  userId := "bob"
  targetId := "photos"
  targetType := "space"
  path := "a"

/-- The token that Bob is given is accepted for a while, with what he asked for. -/
theorem bobInit_token : ∃ init, (calmExchange bobInit sharedSite).1.answer = .ok (.initiated init) ∧
    verifyDownloadToken sampleTokens sampleBackend.config.secretKey 5 init.token = .ok bobBuild.payload := by
  have hsome : (calmExchange bobInit sharedSite).1.initiated.isSome = true := by decide +kernel
  obtain ⟨init, hinit⟩ := Option.isSome_iff_exists.mp hsome
  have hanswer := Exchange.initiated_eq_some.mp hinit
  have hbuild := (exchanged_calm bobInit sharedSite).ensures spaceInit_ensures init hanswer
  obtain ⟨token, expiresAt, hbuilt, hverify⟩ := build_verifies sampleCrates sampleTokens_lawful bobBuild
  obtain ⟨htoken, -⟩ := Prod.mk.inj (Except.ok.inj (hbuild.symm.trans hbuilt))
  refine ⟨init, hanswer, ?_⟩
  rw [htoken]
  exact hverify 5 (by decide)

variable (hverify : verifyDownloadToken sampleTokens sampleBackend.config.secretKey 5 token = .ok bobBuild.payload)

include hverify

theorem bobChunk_space :
    (calmExchange (.downloadChunk (.space "photos" "photos") "bob" 5 token 0) askedSite).1.served.map (·.data) =
      some [7] := by
  simp only [Exchange.served, calmExchange, DownloadCall.program, chunkedDownloadChunk, serveChunk]
  rw [hverify]
  decide +kernel

theorem bobChunk_library :
    (calmExchange (.downloadChunk .library "bob" 5 token 0) revokedSite).1.served.map (·.data) = some [7] := by
  simp only [Exchange.served, calmExchange, DownloadCall.program, chunkedDownloadChunk, serveChunk]
  rw [hverify]
  decide +kernel

theorem bobChunk_own :
    OwnRoute sampleBackend sampleTokens (.downloadChunk (.space "photos" "photos") "bob" 5 token 0) := by
  intro route userId now other index hcall payload hother _ _
  cases hcall
  cases hother.symm.trans hverify
  rfl

omit hverify

/-- Bob downloads the photo while he may. -/
theorem revocation_effective_shared : ∃ exchanges exchange site,
    Run (fun site exchange site' => Exchanged sampleBackend sampleCrates sampleTokens site exchange site' ∧
      Authorised sampleBackend sampleTokens site exchange site') emptySite (exchanges ++ [exchange]) site ∧
    exchange.served.map (·.data) = some [7] := by
  obtain ⟨init, -, hverify⟩ := bobInit_token
  have hasked := exchanges_calm (I := OwnRoute sampleBackend sampleTokens) (sampleShared ++ [bobInit])
    (by
      intro call hcall route userId now token index heq
      subst heq
      simp [sampleShared, bobInit] at hcall)
    emptySite
  exact ⟨_, _, _, revocation_effective (hasked.snoc ⟨exchanged_calm _ _, bobChunk_own hverify⟩),
    bobChunk_space hverify⟩

/-- Bob keeps his token. When Alice has taken the permission back, he presents it on the route of libraries and
gets the photo. -/
theorem revocation_effective_revoked : ∃ exchanges init exchange site site',
    Run (Exchanged sampleBackend sampleCrates sampleTokens) emptySite exchanges site ∧
    ⟨bobInit, .ok (.initiated init)⟩ ∈ exchanges ∧
    exchange.call = .downloadChunk .library "bob" 5 init.token 0 ∧
    Exchanged sampleBackend sampleCrates sampleTokens site exchange site' ∧
    exchange.served.map (·.data) = some [7] ∧ effectiveLevel site.db "bob" "photos" = 0 ∧
    ¬ Authorised sampleBackend sampleTokens site exchange site' := by
  obtain ⟨init, hinit, hverify⟩ := bobInit_token
  have hrun := exchanges_calm (I := fun _ => True) (sampleShared ++ [bobInit, aliceRevokes]) (fun _ _ => trivial)
    emptySite
  have hlevel : effectiveLevel revokedSite.db "bob" "photos" = 0 := by decide +kernel
  have hserved := bobChunk_library hverify
  refine ⟨_, init, _, _, _, hrun.mono fun _ _ _ h => h.1, ?_, rfl, exchanged_calm _ _, hserved, hlevel, ?_⟩
  · rw [← hinit]
    simp [calmExchanges, calmExchange, sharedSite, bobInit]
  · intro hauthorised
    obtain ⟨served, hanswer, -⟩ := Option.map_eq_some_iff.mp hserved
    have hread := (hauthorised .library "bob" 5 init.token 0 served rfl (Exchange.served_eq_some.mp hanswer) _
      hverify rfl).1
    have hzero : ¬ 1 ≤ effectiveLevel revokedSite.db "bob" "photos" := by
      rw [hlevel]
      decide
    exact hzero hread

end IronDrive
