import IronDrive.UploadRace

/-! Uploads that race for one file: in one piece, or completions, of one chunk session or of several. Each
completion finds under its chunk paths the chunks of its session or nothing, whatever the other does, so
one that succeeds and stays the author of the file has stored its whole plaintext. -/

namespace IronDrive

open Lib FileTree PathSafety CryptoService FsService ChunkService

/-- The chunk files of a session, as far as they are there, hold `chunks`, and so many does the session
expect. -/
structure Staging (config : AppConfig) (v : FileTree × List ChunkedUpload) (uploadId : String)
    (chunks : List Bytes) : Prop where
  ordinary : ∀ name ∈ stagingDir config uploadId, Ordinary name
  area : v.1.node config.chunksDir = some .dir
  dir : v.1.node (stagingDir config uploadId) = none ∨ v.1.node (stagingDir config uploadId) = some .dir
  chunk : ∀ i, (hi : i < chunks.length) →
    v.1.node (chunkPath config uploadId i) = none ∨ v.1.node (chunkPath config uploadId i) = some .dir ∨
      v.1.node (chunkPath config uploadId i) = some (.file chunks[i])
  total : ∀ row ∈ v.2, row.id = uploadId → toU32 row.totalChunks = chunks.length

section Staging

variable {config : AppConfig} {v v' : FileTree × List ChunkedUpload} {uploadId : String}
  {chunks : List Bytes} {q : Path}

theorem Staging.resolved (h : Staging config v uploadId chunks) :
    v.1.Resolved (stagingDir config uploadId) where
  ordinary := h.ordinary
  dir := by rw [stagingDir, List.dropLast_concat]; exact h.area
  not_symlink absolute target hlink := by
    rcases h.dir with hnone | hdir
    · rw [hnone] at hlink; cases hlink
    · rw [hdir] at hlink; cases hlink

theorem staging_below_chunk (config : AppConfig) (uploadId : String) (i : Nat) :
    stagingDir config uploadId <+: chunkPath config uploadId i := List.prefix_append _ _

/-- A chunk path leads to the chunk, if it leads to a file. -/
theorem Staging.chunk_of_fileAt (h : Staging config v uploadId chunks) {i : Nat} (hi : i < chunks.length)
    {place : Path} {content : Bytes}
    (hfile : v.1.fileAt (chunkPath config uploadId i) = .ok (place, content)) : content = chunks[i] := by
  rcases h.dir with hnone | hdir
  · have hmissing : v.1.canonicalize (chunkPath config uploadId i) = .error .notFound := by
      have harea : v.1.Resolved config.chunksDir := by
        have hresolved := h.resolved.dropLast
        rwa [stagingDir, List.dropLast_concat] at hresolved
      rw [chunkPath, stagingDir, List.append_assoc]
      exact canonicalize_of_missing harea h.area (h.ordinary uploadId (by simp [stagingDir])) hnone _
    rw [canonicalize_of_fileAt hfile] at hmissing
    cases hmissing
  · have hresolved : v.1.Resolved (chunkPath config uploadId i) := by
      refine h.resolved.snoc hdir (chunkName_ordinary i) fun absolute target hlink => ?_
      change v.1.node (chunkPath config uploadId i) = some (.symlink absolute target) at hlink
      rcases h.chunk i hi with hnode | hnode | hnode
      all_goals rw [hnode] at hlink; cases hlink
    obtain ⟨hplace, hnode⟩ := locate_of_fileAt hfile
    rw [locate_of_resolved hresolved] at hplace
    cases hplace
    rcases h.chunk i hi with hchunk | hchunk | hchunk
    all_goals rw [hchunk] at hnode; cases hnode
    rfl

/-- What comes into the tree beside the file `q` is directories, so the chunk files stay what they are. -/
theorem Staging.stays {rows : List ChunkedUpload} {t t' : FileTree}
    (h : Staging config (t, rows) uploadId chunks) (hout : ¬ stagingDir config uploadId <+: q)
    (hstays : StaysBut q t t') : Staging config (t', rows) uploadId chunks := by
  refine ⟨h.ordinary, (hstays _).1 h.area, ?_, ?_, h.total⟩
  · rcases (hstays _).2 fun heq => hout (by rw [← heq]) with hsame | ⟨-, hdir⟩
    · exact hsame.symm ▸ h.dir
    · exact Or.inr hdir
  · intro i hi
    have hne : chunkPath config uploadId i ≠ q := by
      intro heq
      rw [← heq] at hout
      exact hout (staging_below_chunk config uploadId i)
    rcases (hstays _).2 hne with hsame | ⟨-, hdir⟩
    · exact hsame.symm ▸ h.chunk i hi
    · exact Or.inr (Or.inl hdir)

/-- A tree some of whose entries are gone, the staging area apart. -/
theorem Staging.shrinks {rows : List ChunkedUpload} {t t' : FileTree}
    (h : Staging config (t, rows) uploadId chunks) (harea : t'.node config.chunksDir = t.node config.chunksDir)
    (hshrinks : ∀ p, t'.node p = t.node p ∨ t'.node p = none) : Staging config (t', rows) uploadId chunks := by
  refine ⟨h.ordinary, harea.trans h.area, ?_, ?_, h.total⟩
  · rcases hshrinks (stagingDir config uploadId) with hsame | hnone
    · exact hsame.symm ▸ h.dir
    · exact Or.inl hnone
  · intro i hi
    rcases hshrinks (chunkPath config uploadId i) with hsame | hnone
    · exact hsame.symm ▸ h.chunk i hi
    · exact Or.inl hnone

end Staging

section Scene

/-- The sessions a race for the file `q` may complete. -/
def Open (config : AppConfig) (v : FileTree × List ChunkedUpload) (q : Path) (uploadId : String)
    (chunks : List Bytes) : Prop :=
  Staging config v uploadId chunks ∧ ¬ stagingDir config uploadId <+: q

variable (config : AppConfig) (v : FileTree × List ChunkedUpload) (q : Path)

/-- The staging directories of these sessions. -/
def IsStaged (path : Path) : Prop :=
  ∃ uploadId chunks, Open config v q uploadId chunks ∧ path = stagingDir config uploadId

/-- What a read of one of their chunk files may answer. -/
def ReadsChunk (path : Path) (content : Bytes) : Prop :=
  ∀ uploadId chunks i, Open config v q uploadId chunks → (hi : i < chunks.length) →
    path = chunkPath config uploadId i → content = chunks[i]

/-- What their rows may be. -/
def StoresRow (uploadId : String) (row : ChunkedUpload) : Prop :=
  ∀ chunks, Open config v q uploadId chunks → toU32 row.totalChunks = chunks.length

/-- All of them keep their chunks. -/
def KeepsChunks (v' : FileTree × List ChunkedUpload) : Prop :=
  ∀ uploadId chunks, Open config v q uploadId chunks → Staging config v' uploadId chunks

variable {config v q}

/-- A removal of a staging directory removes what lies there. -/
theorem removalPlace_of_staged {v' : FileTree × List ChunkedUpload} {path place : Path}
    (hK : KeepsChunks config v q v') (hstaged : IsStaged config v q path)
    (hplace : FsCall.removalPlace v'.1 path = .ok place) : place = path := by
  obtain ⟨uploadId, chunks, hopen, rfl⟩ := hstaged
  have hresolved := (hK uploadId chunks hopen).resolved
  simp only [FsCall.removalPlace, locateEntry_of_resolved hresolved, bind, Except.bind] at hplace
  split at hplace
  · cases hplace
  · cases hplace
    rfl
  · cases hplace

theorem scene_of_open : Scene q (IsStaged config v q) (ReadsChunk config v q) (StoresRow config v q)
    (KeepsChunks config v q) where
  reads_of v' path place content hK hfile uploadId chunks i hopen hi hpath := by
    subst hpath
    exact (hK uploadId chunks hopen).chunk_of_fileAt hi hfile
  stored_of v' id targetType row hK hfind chunks hopen := by
    have hid := List.find?_some hfind
    simp only [Bool.and_eq_true, decide_eq_true_eq] at hid
    exact (hK id chunks hopen).total row (List.mem_of_find?_eq_some hfind) hid.1
  clear v' path place hK hstaged hplace := by
    rw [removalPlace_of_staged hK hstaged hplace]
    obtain ⟨uploadId, chunks, hopen, rfl⟩ := hstaged
    exact hopen.2
  step op v' answer v'' hK hfine hstep uploadId chunks hopen := by
    obtain ⟨t, rows⟩ := v'
    obtain ⟨t', rows'⟩ := v''
    have hkept := hK uploadId chunks hopen
    cases op with
    | inr op =>
        obtain ⟨⟨fault, hperform⟩, rfl⟩ := hstep
        have hrows : (op.perform fault rows).2 = rows' := by rw [hperform]
        have hsub : ∀ row ∈ rows', row ∈ rows := by
          intro row hrow
          rw [← hrows] at hrow
          cases op with
          | insert row => exact absurd hfine.1 id
          | setReceived _ _ => exact absurd hfine.1 id
          | load _ _ => exact hrow
          | delete _ =>
              cases fault with
              | some message => exact hrow
              | none => exact List.mem_of_mem_filter hrow
        exact ⟨hkept.ordinary, hkept.area, hkept.dir, hkept.chunk,
          fun row hrow => hkept.total row (hsub row hrow)⟩
    | inl op =>
        obtain ⟨⟨choice, -, hperform⟩, rfl⟩ := hstep
        by_cases hremoval : ∃ path, op = .removeDirAll path
        · obtain ⟨path, rfl⟩ := hremoval
          refine hkept.shrinks (node_removeDirAll hperform fun place hplace hbelow => ?_)
            (node_removeDirAll_cases hperform)
          -- The staging directory removed lies in the staging area, not above it.
          rw [removalPlace_of_staged hK hfine.1 hplace] at hbelow
          obtain ⟨id, chunks', -, rfl⟩ := hfine.1
          have hlen := hbelow.length_le
          simp only [stagingDir, List.length_append, List.length_singleton] at hlen
          omega
        · exact hkept.stays hopen.2 (staysBut_step hperform hfine.2 fun path heq => hremoval ⟨path, heq⟩)

end Scene

/-! ### The rivals -/

/-- The key an upload encrypts under. -/
def Upload.key (unlockState : UnlockState) : Upload → Except AppError DataKey
  | .uploadFileOwned libraryId _ _ _ | .uploadFileStreaming libraryId _ _ _ _ =>
      requireDataKey unlockState libraryId
  | .uploadSpaceFile spaceId _ _ _ | .uploadSpaceFileStreaming spaceId _ _ _ _ =>
      requireSpaceKey unlockState spaceId
  | .completeUpload _ _ session => targetKey unlockState session.targetType session.targetId

/-- The uploads that may race for the file `q`, each with its full plaintext: those in one piece, and the
completions of sessions whose staging directory does not contain `q`. -/
inductive Rival (config : AppConfig) (v : FileTree × List ChunkedUpload) (q : Path) :
    Upload → Bytes → Prop
  | library (libraryId : String) (nonce : FixedBytes 12) (userPath : String) (data : Bytes) :
      Rival config v q (.uploadFileOwned libraryId nonce userPath data) data
  | space (spaceId : String) (nonce : FixedBytes 12) (userPath : String) (data : Bytes) :
      Rival config v q (.uploadSpaceFile spaceId nonce userPath data) data
  | completion (now : Int) (nonce : FixedBytes 7) (session : Session) (chunks : List Bytes)
      (staged : Staging config v session.uploadId chunks)
      (apart : ¬ stagingDir config session.uploadId <+: q)
      (short : ∀ chunk ∈ chunks, chunk.length + 16 < 2 ^ 32) :
      Rival config v q (.completeUpload now nonce session) chunks.flatten

section Rivals

variable {P : Primitives} {crates : Crates} {config : AppConfig} {unlockState : UnlockState}
  {v : FileTree × List ChunkedUpload} {q : Path} {upload : Upload} {plaintext : Bytes} {α : Type}
  {staged : Path → Prop}

theorem onDisk_only {R : α → Prop} {program : FsProgram α}
    (h : program.Only (WritesIn fun _ => True) R) : (onDisk program).Only (UploadCalls staged) R := by
  refine (Program.Only.inl (N := fun _ => False) h).mono (fun op hop => ?_) fun _ => id
  cases op with
  | inr op => exact absurd hop id
  | inl op =>
      cases op with
      | removeDirAll path | createNew path => exact absurd hop id
      | _ => trivial

theorem completeUpload_only (now : Int) (nonce : FixedBytes 7) (session : Session)
    (hstaged : staged (stagingDir config session.uploadId)) :
    (completeUpload crates config P unlockState now nonce session false).Only (UploadCalls staged)
      fun _ => True := by
  have hloads : (requireSession crates now session).Only (UploadCalls staged) fun _ => True := by
    refine (requireSession_loads now session).mono (fun op hop => ?_) fun _ => id
    cases op with
    | inl op => exact absurd hop id
    | inr op =>
        cases op with
        | load _ _ => trivial
        | insert _ | setReceived _ _ | delete _ => exact absurd hop id
  refine hloads.bind fun row _ => ?_
  refine (onDisk_only (writesIn_of_readsOnly (checkChunksPresent_readsOnly _ 0))).bind fun _ _ => ?_
  rw [uploadTarget_eq]
  refine (onDisk_only (uploadStreaming_only _ _ _ _ _ _ _)).bind fun upload _ => ?_
  exact ⟨hstaged, fun _ => ⟨trivial, fun _ => trivial⟩⟩

theorem Rival.only (h : Rival config v q upload plaintext) :
    (upload.program P crates config unlockState false).Only (UploadCalls (IsStaged config v q))
      fun _ => True := by
  cases h with
  | library libraryId nonce userPath => exact onDisk_only (uploadOwned_only _ _ _ _ _ _)
  | space spaceId nonce userPath => exact onDisk_only (uploadOwned_only _ _ _ _ _ _)
  | completion now nonce session chunks hstaged apart short =>
      exact completeUpload_only now nonce session ⟨_, chunks, ⟨hstaged, apart⟩, rfl⟩

/-- A rival that succeeds has written a file that reads back as its plaintext. -/
theorem Rival.onOk (hP : P.Lawful) (h : Rival config v q upload plaintext) :
    (upload.program P crates config unlockState false).Ensures
      (Races (ReadsChunk config v q) (StoresRow config v q)) none
      (OnOk fun _ w => ∃ key place blob, upload.key unlockState = .ok key ∧ w = some (place, blob) ∧
        readBytes P key blob = .ok plaintext) := by
  have hsingle : ∀ dataKey root (nonce : FixedBytes 12) userPath data,
      (onDisk (uploadOwned P crates.mimeFromFilename dataKey root nonce userPath data false)).Ensures
        (Races (ReadsChunk config v q) (StoresRow config v q)) none
        (OnOk fun _ w => ∃ key place blob, dataKey = .ok key ∧ w = some (place, blob) ∧
          readBytes P key blob = .ok data) := by
    intro dataKey root nonce userPath data
    refine Program.Ensures.mono (onDisk_races (uploadOwned_onOk nonce data)) ?_
    intro result w hwritten value hvalue
    obtain ⟨key, place, blob, hkey, rfl, hblob⟩ := hwritten value hvalue
    exact ⟨key, place, blob, hkey, rfl,
      (readBytes_single hblob).2.trans (decryptFileBytes_encryptFileBytes hP hblob)⟩
  cases h with
  | library libraryId nonce userPath => exact hsingle _ _ nonce userPath plaintext
  | space spaceId nonce userPath => exact hsingle _ _ nonce userPath plaintext
  | completion now nonce session chunks hstaged apart short =>
      have hopen : Open config v q session.uploadId chunks := ⟨hstaged, apart⟩
      have hchunks : List.Forall₂ (ReadsAs (ReadsChunk config v q))
          (chunkPaths config session.uploadId chunks.length) chunks := by
        rw [List.forall₂_iff_get]
        refine ⟨by simp [chunkPaths], fun i hi hi' content hreads => ?_⟩
        exact hreads session.uploadId chunks i hopen hi' (by simp [chunkPaths])
      refine Program.Ensures.mono (completeUpload_onOk now nonce session
        (fun row hrow => hrow chunks hopen) hchunks) ?_
      intro result w hwritten value hvalue
      obtain ⟨key, place, segments, hkey, hseal, rfl⟩ := hwritten value hvalue
      exact ⟨key, place, _, hkey, rfl, (readBytes_stream P key nonce segments).2.trans
        (streamDecryptBytes_streamContent hP hseal short)⟩

end Rivals

/-- The programs of two uploads, without verification of what they write. -/
def racers (P : Primitives) (crates : Crates) (config : AppConfig) (unlockState : UnlockState)
    (uploads : Bool → Upload) (i : Bool) : ServerProgram UploadResult :=
  (uploads i).program P crates config unlockState false

/-- However two uploads to one file interleave, and whatever else fails: once a call has returned Ok, and
as long as it is the author of every byte of the file and nothing it wrote is cut off, the file decrypts
to its full plaintext. -/
theorem racing_upload_stored (P : Primitives) (hP : P.Lawful) (crates : Crates) (config : AppConfig)
    (unlockState : UnlockState) (oracle : Nat → Choice) (dbOracle : Nat → Option String)
    (uploads : Bool → Upload) (plaintexts : Bool → Bytes) (server : Server) (q : Path)
    (hrival : ∀ i, Rival config server.view q (uploads i) (plaintexts i)) (schedule : List Bool)
    (hsame : ∀ event ∈ Pool.trace (serverHandler oracle dbOracle) schedule
      (racers P crates config unlockState uploads) server, ∀ p, touched event.2 = some p → p = q)
    (b : Bool) (result : UploadResult)
    (hdone : (Pool.run (serverHandler oracle dbOracle) schedule
      (racers P crates config unlockState uploads) server).1 b = .done result)
    (hsole : SoleAuthor q b (Pool.trace (serverHandler oracle dbOracle) schedule
      (racers P crates config unlockState uploads) server)) :
    ∃ key, (uploads b).key unlockState = .ok key ∧ ∀ quiet : Nat → Choice, QuietOracle quiet →
      ((readAndDecryptFile P key q).run (fsHandler quiet)
        (Pool.run (serverHandler oracle dbOracle) schedule
          (racers P crates config unlockState uploads) server).2.1).1 = .ok (plaintexts b) := by
  have honly : ∀ i, (racers P crates config unlockState uploads i).Only
      (UploadCalls (IsStaged config server.view q)) fun _ => True := fun i => (hrival i).only
  obtain ⟨w, ⟨key, place, blob, hkey, rfl, hread⟩, hstored⟩ := sole_author_stores scene_of_open honly
    ((hrival b).onOk hP) (fun uploadId chunks hopen => hopen.1) hsame hdone hsole
  refine ⟨key, hkey, fun quiet hquiet => ?_⟩
  rw [(run_of_stops hquiet (readAndDecryptFile_stops (hstored place blob rfl) key)).1, hread]

/-- Over the file `a` of the library, `true` uploads two bytes and `false` one. -/
def sampleRivals : Bool → Upload
  | true => .uploadFileOwned "l" ⟨List.replicate 12 1, by simp⟩ "a" [1, 2]
  | false => .uploadFileOwned "l" ⟨List.replicate 12 0, twelve_zeros⟩ "a" [3]

/-- Both open the file, then one of them writes and finishes, then the other. -/
def overlapping (first second : Bool) : List Bool :=
  List.replicate 5 first ++ List.replicate 5 second ++ List.replicate 8 first ++ List.replicate 8 second

/-- The calls a schedule makes, and the pool and server it leaves. -/
def sampleTrace (schedule : List Bool) : List (Bool × Event serverSignature) :=
  Pool.trace (serverHandler calmOracle fun _ => none) schedule
    (racers plainPrimitives sampleCrates sampleConfig sampleUnlocked sampleRivals) sampleServer

def sampleRun (schedule : List Bool) : (Bool → ServerProgram UploadResult) × Server :=
  Pool.run (serverHandler calmOracle fun _ => none) schedule
    (racers plainPrimitives sampleCrates sampleConfig sampleUnlocked sampleRivals) sampleServer

/-- The longer file, written last, takes every byte of the shorter one over. -/
theorem racing_upload_stored_overlapping :
    ∃ key, (sampleRivals true).key sampleUnlocked = .ok key ∧ ∀ quiet : Nat → Choice, QuietOracle quiet →
      ((readAndDecryptFile plainPrimitives key ["libraries", "l", "a"]).run (fsHandler quiet)
        (Pool.run (serverHandler calmOracle fun _ => none) (overlapping false true)
          (racers plainPrimitives sampleCrates sampleConfig sampleUnlocked sampleRivals)
          sampleServer).2.1).1 = .ok [1, 2] :=
  racing_upload_stored plainPrimitives plainPrimitives_lawful sampleCrates sampleConfig sampleUnlocked
    calmOracle (fun _ => none) sampleRivals (fun i => if i then [1, 2] else [3]) sampleServer
    ["libraries", "l", "a"] (fun i => by cases i <;> exact .library _ _ _ _) (overlapping false true)
    (by decide) true _ rfl (by unfold SoleAuthor; decide)

/-- The shorter file, written last, leaves the end of the longer one standing: both calls return Ok, and
the file decrypts to the plaintext of neither. -/
theorem racing_uploads_corrupt :
    (∃ first, (sampleRun (overlapping true false)).1 true = .done first) ∧
      (∃ second, (sampleRun (overlapping true false)).1 false = .done second) ∧
      (∀ event ∈ sampleTrace (overlapping true false),
        ∀ p, touched event.2 = some p → p = ["libraries", "l", "a"]) ∧
      ((readAndDecryptFile plainPrimitives zeroKey ["libraries", "l", "a"]).run (fsHandler calmOracle)
        (sampleRun (overlapping true false)).2.1).1 =
          .error (.internal "File hash mismatch — data on disk may be corrupted") :=
  ⟨⟨_, rfl⟩, ⟨_, rfl⟩, by decide, by decide⟩

end IronDrive
