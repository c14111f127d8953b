import IronDrive.Operations

/-! The keys in memory across a restart. A running server holds the key of each library and of each space, and
no other keys: each the key that the row has wrapped. So a restarted server, which unwraps the keys of all
rows, goes on with the same keys. -/

namespace IronDrive

open Lib CryptoService

section

variable (P : Primitives) (masterKey : MasterKey)

/-- The key that is wrapped in a blob. -/
def unwrapped (blob : Bytes) : Option DataKey := (unwrapDataKey P masterKey blob).toOption

def PersonalLibrary.dataKey (row : PersonalLibrary) : Option DataKey := unwrapped P masterKey row.encryptedDataKey

def Space.dataKey (row : Space) : Option DataKey := unwrapped P masterKey row.encryptedDataKey

/-- The keys in memory are those of the rows, and the server can unwrap them all. -/
structure KeysMirrored (records : Records) : Prop where
  libraries : Indexes PersonalLibrary.id (PersonalLibrary.dataKey P masterKey) records.db.libraries.rows
    records.unlockState.libraries
  spaces : Indexes Space.id (Space.dataKey P masterKey) records.db.spaces.rows records.unlockState.spaces
  libraryModes : ∀ row ∈ records.db.libraries.rows, row.encryptionMode = "server"
  spaceModes : ∀ row ∈ records.db.spaces.rows, row.encryptionMode = "server"

end

variable {F : Choice → Prop} {G : Option String → Prop} {P : Primitives} {masterKey : MasterKey} {drawn : Drawn}
  {backend : Backend} {request : Request} {records records' : Records} {actor : String} {db : Db}

theorem unwrapped_of_wrap (hP : P.Lawful) {nonce : FixedBytes 12} {dataKey : DataKey} {blob : Bytes}
    (h : wrapDataKey P masterKey nonce dataKey = .ok blob) : unwrapped P masterKey blob = some dataKey := by
  rw [unwrapped, unwrapDataKey_of_wrap hP h]
  rfl

theorem KeysMirrored.of_same (h : KeysMirrored P masterKey records) {db' : Db}
    (hlibraries : db'.libraries = records.db.libraries) (hspaces : db'.spaces = records.db.spaces) :
    KeysMirrored P masterKey { records with db := db' } where
  libraries := by simp only [hlibraries]; exact h.libraries
  spaces := by simp only [hspaces]; exact h.spaces
  libraryModes := by simp only [hlibraries]; exact h.libraryModes
  spaceModes := by simp only [hspaces]; exact h.spaceModes

/-- A library that is set up comes with its key. -/
theorem SetupEffect.mirrored (hP : P.Lawful) {userId : String} {result : Except AppError PersonalLibrary}
    (h : SetupEffect Calm P masterKey drawn userId records result records') (hkeys : KeysMirrored P masterKey records) :
    KeysMirrored P masterKey records' := by
  cases h with
  | rejected => exact hkeys
  | undone hcalm => cases hcalm
  | stranded hcalm _ _ => cases hcalm
  | @created blob n m made db' hwrap hinsert hmark =>
      obtain ⟨hid, hmade⟩ := Db.insertLibrary_ok hinsert
      have hmarked := Db.markSetupComplete_ok hmark
      have hlibraries : db'.libraries =
          records.db.libraries.insert (PersonalLibrary.serverMode drawn userId blob) hid := by
        have hsame : db'.libraries = made.libraries := by rw [hmarked]
        rw [hsame, hmade]
      have hspaces : db'.spaces = records.db.spaces := by
        have hsame : db'.spaces = made.spaces := by rw [hmarked]
        rw [hsame, hmade]
      refine ⟨?_, by simp only [hspaces]; exact hkeys.spaces, ?_, by simp only [hspaces]; exact hkeys.spaceModes⟩
      · simp only [hlibraries]
        exact hkeys.libraries.insert (unwrapped_of_wrap hP hwrap) hid
      · simp only [hlibraries]
        exact Table.forall_mem_insert hid hkeys.libraryModes rfl

theorem SpaceEffect.mirrored (hP : P.Lawful) (h : SpaceEffect Calm P masterKey drawn actor records records')
    (hkeys : KeysMirrored P masterKey records) : KeysMirrored P masterKey records' := by
  cases h with
  | rejected => exact hkeys
  | opened _ hcreation =>
      cases hcreation with
      | rejected error => exact hkeys
      | stranded hcalm _ => cases hcalm
      | @created name blob n db' hwrap hinsert =>
          obtain ⟨hid, htables⟩ := Db.insertSpace_ok hinsert
          refine ⟨by simp only [htables]; exact hkeys.libraries, ?_,
            by simp only [htables]; exact hkeys.libraryModes, ?_⟩
          · simp only [htables]
            exact hkeys.spaces.insert (unwrapped_of_wrap hP hwrap) hid
          · simp only [htables]
            exact Table.forall_mem_insert hid hkeys.spaceModes rfl
  | renamed _ hrename =>
      have htables := Db.updateSpace_ok hrename
      refine ⟨by simp only [htables]; exact hkeys.libraries, ?_,
        by simp only [htables]; exact hkeys.libraryModes, ?_⟩
      · simp only [htables]
        exact hkeys.spaces.updateWhere fun _ => rfl
      · simp only [htables]
        exact Table.forall_mem_updateWhere hkeys.spaceModes fun _ hrow => hrow
  | @deleted spaceId n db' _ hdelete =>
      have htables := Db.deleteSpace_ok hdelete
      refine ⟨by simp only [htables]; exact hkeys.libraries, ?_,
        by simp only [htables]; exact hkeys.libraryModes, ?_⟩
      · simp only [htables]
        exact hkeys.spaces.deleteWhere spaceId
      · simp only [htables]
        exact fun row hrow => hkeys.spaceModes row (Table.mem_deleteWhere.mp hrow).1
  | granted hinsert _ _ _ =>
      obtain ⟨_, htables⟩ := Db.insertAccess_ok hinsert
      exact hkeys.of_same (by rw [htables]) (by rw [htables])
  | revoked _ hdelete =>
      have htables := Db.deleteAccess_ok hdelete
      exact hkeys.of_same (by rw [htables]) (by rw [htables])
  | regraded _ _ hchange =>
      have htables := Db.updatePermission_ok hchange
      exact hkeys.of_same (by rw [htables]) (by rw [htables])

theorem Effect.mirrored (hP : backend.primitives.Lawful) (h : Effect Calm backend request records records')
    (hkeys : KeysMirrored backend.primitives backend.masterKey records) :
    KeysMirrored backend.primitives backend.masterKey records' := by
  cases h with
  | account hregister =>
      have hframe := hregister.frame
      exact hkeys.of_same (by rw [hframe]) (by rw [hframe])
  | library hsetup => exact hsetup.mirrored hP hkeys
  | group hgroup =>
      have hframe := hgroup.frame
      exact hkeys.of_same (by rw [hframe]) (by rw [hframe])
  | space _ hspace => exact hspace.mirrored hP hkeys

/-! ### A restart -/

/-- What a restarted server does about keys: it has none, and loads those of the libraries and of the spaces. -/
def restart (P : Primitives) (masterKey : MasterKey) : ServiceProgram Unit := do
  changeKeys (·.clearAll)
  let _ ← LibraryService.loadServerModeKeys P masterKey
  let _ ← SpaceService.loadServerModeKeys P masterKey
  return ()

section Load

variable {ρ : Type} {encryptedDataKey : ρ → Bytes} {insert : ρ → DataKey → UnlockState → UnlockState}
  {v : FileTree × Records}

/-- The keys in memory after the keys of some rows are loaded. -/
def loaded (P : Primitives) (masterKey : MasterKey) (encryptedDataKey : ρ → Bytes)
    (insert : ρ → DataKey → UnlockState → UnlockState) (unlockState : UnlockState) (row : ρ) : UnlockState :=
  match unwrapped P masterKey (encryptedDataKey row) with
  | some dataKey => insert row dataKey unlockState
  | none => unlockState

theorem loadKeys_ensures (rows : List ρ) :
    (SpaceService.loadKeys P masterKey encryptedDataKey insert rows).Ensures (Serves F G) v fun result v' =>
      (∃ n, result = .ok n) ∧ v' = (v.1, { v.2 with
        unlockState := rows.foldl (loaded P masterKey encryptedDataKey insert) v.2.unlockState }) := by
  induction rows generalizing v with
  | nil => exact ⟨⟨0, rfl⟩, rfl⟩
  | cons row rows ih =>
      rw [SpaceService.loadKeys, List.foldl_cons, loaded, unwrapped]
      cases unwrapDataKey P masterKey (encryptedDataKey row) with
      | ok dataKey =>
          apply changeKeys_bind
          refine ih.bind ?_ ?_
          · rintro n v' ⟨-, rfl⟩
            exact ⟨⟨n + 1, rfl⟩, rfl⟩
          · rintro error v' ⟨⟨n, herror⟩, -⟩
            cases herror
      | error error => exact ih

end Load

theorem loaded_libraries (rows : List PersonalLibrary) (unlockState : UnlockState) :
    rows.foldl (loaded P masterKey (·.encryptedDataKey)
      (fun library dataKey => (·.insertLibraryKey library.id dataKey))) unlockState =
      { unlockState with
        libraries := rows.foldl (enter PersonalLibrary.id (PersonalLibrary.dataKey P masterKey))
          unlockState.libraries } := by
  induction rows generalizing unlockState with
  | nil => rfl
  | cons row rows ih =>
      rw [List.foldl_cons, List.foldl_cons, ih]
      simp only [loaded, enter, PersonalLibrary.dataKey]
      cases unwrapped P masterKey row.encryptedDataKey <;> rfl

theorem loaded_spaces (rows : List Space) (unlockState : UnlockState) :
    rows.foldl (loaded P masterKey (·.encryptedDataKey)
      (fun space dataKey => (·.insertSpaceKey space.id dataKey))) unlockState =
      { unlockState with
        spaces := rows.foldl (enter Space.id (Space.dataKey P masterKey)) unlockState.spaces } := by
  induction rows generalizing unlockState with
  | nil => rfl
  | cons row rows ih =>
      rw [List.foldl_cons, List.foldl_cons, ih]
      simp only [loaded, enter, Space.dataKey]
      cases unwrapped P masterKey row.encryptedDataKey <;> rfl

theorem loadLibraries_ensures {v : FileTree × Records}
    (hmodes : ∀ row ∈ v.2.db.libraries.rows, row.encryptionMode = "server") :
    (LibraryService.loadServerModeKeys P masterKey).Ensures (Serves F Calm) v fun result v' =>
      (∃ n, result = .ok n) ∧ v' = (v.1, { v.2 with unlockState := { v.2.unlockState with
        libraries := v.2.db.libraries.rows.foldl (enter PersonalLibrary.id (PersonalLibrary.dataKey P masterKey))
          v.2.unlockState.libraries } }) := by
  refine query_bind ?_ fun message hcalm => by cases hcalm
  have hall : v.2.db.serverModeLibraries = v.2.db.libraries.rows :=
    List.filter_eq_self.mpr fun row hrow => decide_eq_true (hmodes row hrow)
  rw [hall, ← loaded_libraries]
  exact loadKeys_ensures _

theorem loadSpaces_ensures {v : FileTree × Records}
    (hmodes : ∀ row ∈ v.2.db.spaces.rows, row.encryptionMode = "server") :
    (SpaceService.loadServerModeKeys P masterKey).Ensures (Serves F Calm) v fun result v' =>
      (∃ n, result = .ok n) ∧ v' = (v.1, { v.2 with unlockState := { v.2.unlockState with
        spaces := v.2.db.spaces.rows.foldl (enter Space.id (Space.dataKey P masterKey))
          v.2.unlockState.spaces } }) := by
  refine query_bind ?_ fun message hcalm => by cases hcalm
  have hall : v.2.db.findAllServerMode = v.2.db.spaces.rows :=
    List.filter_eq_self.mpr fun row hrow => decide_eq_true (hmodes row hrow)
  rw [hall, ← loaded_spaces]
  exact loadKeys_ensures _

/-- A restarted server has the keys it had. -/
theorem restart_ensures {v : FileTree × Records} (hkeys : KeysMirrored P masterKey v.2) :
    (restart P masterKey).Ensures (Serves F Calm) v fun result v' => result = .ok () ∧ v' = v := by
  apply changeKeys_bind
  refine (loadLibraries_ensures (v := (v.1, ⟨v.2.db, v.2.unlockState.clearAll⟩)) hkeys.libraryModes).bind ?_ ?_
  · rintro _ v' ⟨-, rfl⟩
    refine (loadSpaces_ensures (by exact hkeys.spaceModes)).bind ?_ ?_
    · rintro _ v' ⟨-, rfl⟩
      refine ⟨rfl, ?_⟩
      have hlibraries := hkeys.libraries.rebuild
      have hspaces := hkeys.spaces.rebuild
      simp only [UnlockState.clearAll, UnlockState.new, hlibraries, hspaces]
    · rintro error v' ⟨⟨n, herror⟩, -⟩
      cases herror
  · rintro error v' ⟨⟨n, herror⟩, -⟩
    cases herror

theorem mirrored_firstSite (disk : Disk) : KeysMirrored P masterKey (firstSite disk).records where
  libraries := Indexes.empty
  spaces := Indexes.empty
  libraryModes := by simp [firstSite, Site.records, Db.empty, Table.empty]
  spaceModes := by simp [firstSite, Site.records, Db.empty, Table.empty]

theorem run_mirrored (hP : backend.primitives.Lawful) {disk : Disk} {requests : List Request} {site : Site}
    (hrun : Run (Serve Anything Calm backend) (firstSite disk) requests site) :
    KeysMirrored backend.primitives backend.masterKey site.records := by
  apply hrun.invariant (I := fun site => KeysMirrored backend.primitives backend.masterKey site.records)
  · exact mirrored_firstSite disk
  · intro site request site' hkeys hserve
    exact hserve.effect.mirrored hP hkeys

/-- Keys in memory for exactly the rows that there are, each the one the row has wrapped. -/
def HoldsKeys (P : Primitives) (masterKey : MasterKey) (site : Site) : Prop :=
  (∀ id, site.records.unlockState.getLibraryKey id =
    (site.db.findLibraryById id).bind fun row => unwrapped P masterKey row.encryptedDataKey) ∧
  (∀ id, (site.records.unlockState.getLibraryKey id).isSome ↔ id ∈ site.db.libraries.rows.map PersonalLibrary.id) ∧
  (∀ id, site.records.unlockState.getSpaceKey id =
    (site.db.findSpaceById id).bind fun row => unwrapped P masterKey row.encryptedDataKey) ∧
  ∀ id, (site.records.unlockState.getSpaceKey id).isSome ↔ id ∈ site.db.spaces.rows.map Space.id

theorem holdsKeys_of_mirrored {site : Site} (h : KeysMirrored P masterKey site.records) :
    HoldsKeys P masterKey site :=
  ⟨h.libraries.find, h.libraries.isSome_iff, h.spaces.find, h.spaces.isSome_iff⟩

/-- After any run in which the database does not fail the server holds a key for exactly the libraries and the
spaces that have a row, each the one the row has wrapped; and if it is restarted every look-up of a key answers
as before. -/
theorem restart_transparent (hP : backend.primitives.Lawful) {disk : Disk} {requests : List Request} {site : Site}
    (hrun : Run (Serve Anything Calm backend) (firstSite disk) requests site) :
    HoldsKeys backend.primitives backend.masterKey site ∧
    ∀ oracle,
      let restarted := (restart backend.primitives backend.masterKey).run (serviceHandler oracle fun _ => none) site
      restarted.1 = .ok () ∧
      (∀ id, restarted.2.records.unlockState.getLibraryKey id = site.records.unlockState.getLibraryKey id) ∧
      ∀ id, restarted.2.records.unlockState.getSpaceKey id = site.records.unlockState.getSpaceKey id := by
  have hkeys := run_mirrored hP hrun
  refine ⟨holdsKeys_of_mirrored hkeys, fun oracle => ?_⟩
  intro restarted
  obtain ⟨hok, hview⟩ : restarted.1 = .ok () ∧ restarted.2.view = site.view :=
    service_run (F := Anything) (fun _ => trivial) (fun _ => calm_none) (restart_ensures hkeys)
  have hrecords := congrArg Prod.snd hview
  refine ⟨hok, fun id => ?_, fun id => ?_⟩
  · exact congrArg (fun records : Records => records.unlockState.getLibraryKey id) hrecords
  · exact congrArg (fun records : Records => records.unlockState.getSpaceKey id) hrecords

/-- Alice sets up her library, makes two spaces and deletes one. -/
def sampleKeyed : List Request :=
  [sampleRequest "" "alice" (.register [] "alice" "alice@example.com" "password"),
    sampleRequest "alice" "library" .setupLibrary,
    sampleRequest "alice" "photos" (.createSpace "Photos"),
    sampleRequest "alice" "music" (.createSpace "Music"),
    sampleRequest "alice" "none" (.deleteSpace "photos")]

theorem restart_transparent_sample :
    let site := calmServeAll sampleBackend (firstSite ⟨.empty, 0⟩) sampleKeyed
    (site.records.unlockState.getLibraryKey "library" = some zeroKey ∧
      site.records.unlockState.getSpaceKey "photos" = none ∧
      site.records.unlockState.getSpaceKey "music" = some zeroKey) ∧
    HoldsKeys sampleBackend.primitives sampleBackend.masterKey site ∧
    ∀ oracle,
      let restarted := (restart sampleBackend.primitives sampleBackend.masterKey).run
        (serviceHandler oracle fun _ => none) site
      restarted.1 = .ok () ∧
      (∀ id, restarted.2.records.unlockState.getLibraryKey id = site.records.unlockState.getLibraryKey id) ∧
      ∀ id, restarted.2.records.unlockState.getSpaceKey id = site.records.unlockState.getSpaceKey id :=
  ⟨by decide +kernel, restart_transparent plainPrimitives_lawful (run_calm (fun _ => trivial) calm_none _ _)⟩

end IronDrive
