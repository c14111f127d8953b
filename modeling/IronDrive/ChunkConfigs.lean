import IronDrive.ChunkUpload

/-! Upload sessions across changes of the configuration. A session's row stores how many chunks there are, but
not the size they were counted with; each call of `receiveChunk` demands the length that follows from the size
in force at that call. -/

namespace IronDrive

open Lib FileTree PathSafety CryptoService FsService

namespace ChunkService

/-- The sizes in force for the chunks before the last add up to as many times the size in force for the last, or
to the whole file. -/
def Balanced (sizes : Nat → Nat) (totalChunks totalBytes : Nat) : Prop :=
  ((List.range (totalChunks - 1)).map sizes).sum = min (sizes (totalChunks - 1) * (totalChunks - 1)) totalBytes

instance (sizes : Nat → Nat) (totalChunks totalBytes : Nat) : Decidable (Balanced sizes totalChunks totalBytes) :=
  inferInstanceAs (Decidable (_ = _))

theorem sum_expectedChunkLen_iff {sizes : Nat → Nat} {totalChunks totalBytes : Nat} (hpos : 0 < totalChunks)
    (hlt : totalBytes < 2 ^ 64) :
    ((List.range totalChunks).map fun i => expectedChunkLen totalBytes (sizes i) totalChunks i).sum = totalBytes ↔
      Balanced sizes totalChunks totalBytes := by
  obtain ⟨k, rfl⟩ : ∃ k, totalChunks = k + 1 := ⟨totalChunks - 1, by omega⟩
  have hfull : (List.range k).map (fun i => expectedChunkLen totalBytes (sizes i) (k + 1) i) =
      (List.range k).map sizes := by
    apply List.map_congr_left
    intro i hi
    rw [expectedChunkLen, if_pos (by have := List.mem_range.mp hi; omega)]
  have hlast : expectedChunkLen totalBytes (sizes k) (k + 1) k = totalBytes - min (sizes k * k) u64Max := by
    rw [expectedChunkLen, if_neg (by omega), Nat.add_sub_cancel]
  rw [List.range_succ, List.map_append, hfull, List.map_singleton, hlast, List.sum_append, List.sum_singleton,
    Balanced, Nat.add_sub_cancel]
  simp only [u64Max]
  omega

/-! ### Calls under changing configurations -/

/-- A call of `receiveChunk`, with the configuration in force. -/
structure ConfiguredCall extends ReceiveCall where
  config : AppConfig

def ConfiguredCall.entry (call : ConfiguredCall) : Nat × Bytes := (call.chunkIndex, call.data)

/-- Make the calls one after the other, and keep those that were accepted. -/
def receiveAllUnder (crates : Crates) (h : Handler serverSignature Server) :
    List ConfiguredCall → Server → List ConfiguredCall × Server
  | [], server => ([], server)
  | call :: calls, server =>
      match (receiveChunk crates call.config call.now call.session call.chunkIndex call.data).run h server with
      | (.ok _, server') =>
          (call :: (receiveAllUnder crates h calls server').1, (receiveAllUnder crates h calls server').2)
      | (.error _, server') => receiveAllUnder crates h calls server'

/-- The configuration in force when a chunk was received; for a chunk not received yet, the current one. -/
def inForce (current : AppConfig) (accepted : List ConfiguredCall) (i : Nat) : AppConfig :=
  match accepted.find? fun call => call.chunkIndex = i with
  | some call => call.config
  | none => current

/-- The length of a chunk that was received; of one not received yet, the length that is demanded. -/
def lengthOf (current : AppConfig) (row : ChunkedUpload) (accepted : List ConfiguredCall) (i : Nat) : Nat :=
  match accepted.find? fun call => call.chunkIndex = i with
  | some call => call.data.length
  | none => expectedChunkLen (toU64 row.totalBytes) current.chunkSizeBytes (toU32 row.totalChunks) i

variable {crates : Crates} {config current : AppConfig} {row : ChunkedUpload} {start : FileTree}
  {accepted : List ConfiguredCall} {v : FileTree × List ChunkedUpload}

/-- The session's chunk files are the accepted payloads, each of the length demanded under the configuration it
was received under. -/
structure Gathered (config : AppConfig) (row : ChunkedUpload) (start : FileTree) (accepted : List ConfiguredCall)
    (v : FileTree × List ChunkedUpload) : Prop where
  collected : Collected config row start (accepted.map ConfiguredCall.entry) v
  fits : ∀ call ∈ accepted, ChunkFits call.config row call.entry

/-- The step: a call under any configuration of the same data directory. -/
theorem receiveChunk_gathers (h : Gathered config row start accepted v) (huuid : crates.uuidParses row.id = true)
    {call : ConfiguredCall} (hid : call.session.uploadId = row.id) (hdir : call.config.dataDir = config.dataDir)
    (hdate : isExpired crates call.now row.expiresAt = false) :
    (receiveChunk crates call.config call.now call.session call.chunkIndex call.data).Ensures ServerQuietly v
      fun result v' =>
        match result with
        | .ok _ => Gathered config row start (accepted ++ [call]) v'
        | .error _ => Gathered config row start accepted v' := by
  refine (receiveChunk_collects (h.collected.of_dataDir hdir) huuid hid hdate call.chunkIndex call.data).mono
    fun result v' hresult => ?_
  cases result with
  | ok received =>
      refine ⟨?_, fun other hother => ?_⟩
      · rw [List.map_append, List.map_singleton]
        exact hresult.1.of_dataDir hdir.symm
      · rcases List.mem_append.mp hother with hold | hnew
        · exact h.fits other hold
        · rw [List.mem_singleton.mp hnew]
          exact hresult.2.fits
  | error error => exact ⟨hresult.1.of_dataDir hdir.symm, h.fits⟩

/-- The run. -/
theorem receiveAllUnder_gathers {oracle : Nat → Choice} (hquiet : QuietOracle oracle)
    (huuid : crates.uuidParses row.id = true) (calls : List ConfiguredCall) :
    ∀ {accepted : List ConfiguredCall} {server : Server},
      (∀ call ∈ calls, call.session.uploadId = row.id ∧ call.config.dataDir = config.dataDir ∧
        isExpired crates call.now row.expiresAt = false) →
      Gathered config row start accepted server.view →
        Gathered config row start (accepted ++ (receiveAllUnder crates (quietHandler oracle) calls server).1)
          (receiveAllUnder crates (quietHandler oracle) calls server).2.view := by
  induction calls with
  | nil =>
      intro accepted server _ h
      simpa [receiveAllUnder] using h
  | cons call calls ih =>
      intro accepted server hcalls h
      obtain ⟨hid, hdir, hdate⟩ := hcalls call (by simp)
      have hstep := server_run_of_ensures hquiet (receiveChunk_gathers h huuid hid hdir hdate)
      rw [receiveAllUnder]
      generalize (receiveChunk crates call.config call.now call.session call.chunkIndex call.data).run
        (quietHandler oracle) server = outcome at hstep
      obtain ⟨result, server'⟩ := outcome
      cases result with
      | ok received =>
          have hrest := ih (fun c hc => hcalls c (by simp [hc])) hstep
          simpa [List.append_assoc] using hrest
      | error e => exact ih (fun c hc => hcalls c (by simp [hc])) hstep

theorem accepted_mem_calls {h : Handler serverSignature Server} {call : ConfiguredCall}
    (calls : List ConfiguredCall) :
    ∀ {server : Server}, call ∈ (receiveAllUnder crates h calls server).1 → call ∈ calls := by
  induction calls with
  | nil => intro server hmem; cases hmem
  | cons first calls ih =>
      intro server hmem
      rw [receiveAllUnder] at hmem
      split at hmem
      · rcases List.mem_cons.mp hmem with rfl | hmem
        · exact List.mem_cons_self
        · exact List.mem_cons_of_mem _ (ih hmem)
      · exact List.mem_cons_of_mem _ (ih hmem)

/-- A chunk has the length demanded under the configuration in force for it. -/
theorem lengthOf_eq (hfits : ∀ call ∈ accepted, ChunkFits call.config row call.entry) (i : Nat) :
    lengthOf current row accepted i = expectedChunkLen (toU64 row.totalBytes)
      (inForce current accepted i).chunkSizeBytes (toU32 row.totalChunks) i := by
  rw [lengthOf, inForce]
  cases hfind : accepted.find? fun call => call.chunkIndex = i with
  | none => rfl
  | some call =>
      have hindex : call.chunkIndex = i := by simpa using List.find?_some hfind
      rw [← hindex]
      exact (hfits call (List.mem_of_find?_eq_some hfind)).2

theorem lookup_entries (accepted : List ConfiguredCall) (i : Nat) :
    (accepted.map ConfiguredCall.entry).lookup i =
      (accepted.find? fun call => call.chunkIndex = i).map fun call => call.data := by
  induction accepted with
  | nil => rfl
  | cons call accepted ih =>
      rw [List.map_cons, ConfiguredCall.entry, List.lookup_cons, List.find?_cons]
      by_cases hi : call.chunkIndex = i
      · simp [hi]
      · simp only [beq_eq_false_iff_ne.mpr (Ne.symm hi), decide_eq_false hi]
        exact ih

/-- Once every index has been accepted, the lengths are those of the payloads. -/
theorem sum_lengthOf (current : AppConfig) (hall : AllAccepted row (accepted.map ConfiguredCall.entry)) :
    ((List.range (toU32 row.totalChunks)).map (lengthOf current row accepted)).sum =
      (payloads (accepted.map ConfiguredCall.entry) (toU32 row.totalChunks)).flatten.length := by
  rw [List.length_flatten, payloads, List.map_map]
  refine congrArg List.sum (List.map_congr_left fun i hi => ?_)
  have hfound := hall i (List.mem_range.mp hi)
  rw [lookup_entries] at hfound
  rw [Function.comp_apply, lookup_entries, lengthOf]
  cases hfind : accepted.find? fun call => call.chunkIndex = i with
  | none => rw [hfind] at hfound; exact absurd rfl hfound
  | some call => rfl

theorem payloads_le {bound : Nat} (h : ∀ call ∈ accepted, call.data.length ≤ bound) (totalChunks : Nat) :
    ∀ chunk ∈ payloads (accepted.map ConfiguredCall.entry) totalChunks, chunk.length ≤ bound := by
  intro chunk hmem
  obtain ⟨i, -, rfl⟩ := List.mem_map.mp hmem
  rw [lookup_entries]
  cases hfind : accepted.find? fun call => call.chunkIndex = i with
  | none => exact Nat.zero_le bound
  | some call => exact h call (List.mem_of_find?_eq_some hfind)

/-- Upload sessions across changes of the configuration. After a session is opened and any calls of
`receiveChunk` are made on it, each under a configuration of its own: the lengths received and demanded add up
to the file, and with every index accepted the completion passes its size check, exactly when the chunk sizes in
force are balanced. -/
theorem upload_survives_configs_iff (P : Primitives) (hP : P.Lawful) (crates : Crates) (config : AppConfig)
    (hmax : config.maxUploadBytes < 2 ^ 64) (unlockState : UnlockState) (oracle : Nat → Choice)
    (hquiet : QuietOracle oracle) (server started : Server) (uploadId : String)
    (hfresh : FreshUpload crates config server uploadId) (opened : Int) (params : InitUploadParams)
    (info : InitUploadResult)
    (hopen : (initUpload crates config uploadId opened params).run (quietHandler oracle) server =
      (.ok info, started))
    (calls : List ConfiguredCall)
    (hcalls : ∀ call ∈ calls, call.session.uploadId = uploadId ∧ call.config.dataDir = config.dataDir ∧
      isExpired crates call.now info.expiresAt = false)
    (hlens : ∀ call ∈ calls, call.data.length ≤ maxPlaintextLen)
    (current : AppConfig) (hdir : current.dataDir = config.dataDir) (key : DataKey) (target : Path)
    (htarget : Writable current unlockState oracle server.1 (newUploadRow uploadId info.expiresAt params)
      key target)
    (now : Int) (hnow : isExpired crates now info.expiresAt = false) (nonce : FixedBytes 7)
    (writeVerify : Bool) :
    ∃ accepted received result completed,
      receiveAllUnder crates (quietHandler oracle) calls started = (accepted, received) ∧
      (completeUpload crates current P unlockState now nonce
        ⟨params.userId, params.targetId, params.targetType, uploadId⟩ writeVerify).run (quietHandler oracle)
          received = (result, completed) ∧
      (((List.range params.totalChunks).map
          (lengthOf current (newUploadRow uploadId info.expiresAt params) accepted)).sum = params.totalBytes ↔
        Balanced (fun i => (inForce current accepted i).chunkSizeBytes) params.totalChunks params.totalBytes) ∧
      ((∀ i < params.totalChunks, ∃ call ∈ accepted, call.chunkIndex = i) →
        ((∃ upload, result = .ok upload) ↔
          Balanced (fun i => (inForce current accepted i).chunkSizeBytes) params.totalChunks
            params.totalBytes) ∧
        ∀ error, result = .error error → ∃ read, read ≠ params.totalBytes ∧
          error = .internal ("Chunk size mismatch: expected " ++ toString params.totalBytes ++
            " bytes, read " ++ toString read)) := by
  -- What `initUpload` checked, and the session it left.
  obtain ⟨hcheck, hstart⟩ := server_returns_of_ensures hquiet hopen (initUpload_ensures hfresh opened params) info rfl
  obtain ⟨hsmall, hlarge, htotal⟩ := checkInitUpload_ok hcheck
  obtain ⟨hchunks, hbytes⟩ := newUploadRow_reads hcheck hmax uploadId info.expiresAt
  -- The calls.
  have hgathered := receiveAllUnder_gathers hquiet hfresh.parses calls hcalls
    ⟨hstart.collected, fun call hmem => absurd hmem List.not_mem_nil⟩
  rw [List.nil_append] at hgathered
  have hknown : ∀ call ∈ (receiveAllUnder crates (quietHandler oracle) calls started).1, call ∈ calls :=
    fun call => accepted_mem_calls calls
  generalize receiveAllUnder crates (quietHandler oracle) calls started = outcome at hgathered hknown ⊢
  obtain ⟨accepted, received⟩ := outcome
  have hsum : ((List.range params.totalChunks).map
      (lengthOf current (newUploadRow uploadId info.expiresAt params) accepted)).sum = params.totalBytes ↔
      Balanced (fun i => (inForce current accepted i).chunkSizeBytes) params.totalChunks params.totalBytes := by
    rw [← sum_expectedChunkLen_iff (checkInitUpload_pos hcheck) (by omega)]
    rw [List.map_congr_left fun i _ => lengthOf_eq hgathered.fits i, hchunks, hbytes]
  generalize hfinal : (completeUpload crates current P unlockState now nonce
    ⟨params.userId, params.targetId, params.targetType, uploadId⟩ writeVerify).run (quietHandler oracle)
      received = final
  obtain ⟨result, completed⟩ := final
  refine ⟨accepted, received, result, completed, rfl, hfinal, hsum, fun hevery => ?_⟩
  -- The completion, which reads every accepted payload.
  have hcollected := hgathered.collected.of_dataDir hdir
  have hall : AllAccepted (newUploadRow uploadId info.expiresAt params)
      (accepted.map ConfiguredCall.entry) := by
    intro i hi
    rw [hchunks] at hi
    obtain ⟨call, hmem, hindex⟩ := hevery i hi
    rw [lookup_entries]
    cases hfind : accepted.find? fun call => call.chunkIndex = i with
    | none => exact absurd (List.find?_eq_none.mp hfind call hmem) (by simp [hindex])
    | some found => simp
  have hshort := payloads_le (fun call hmem => hlens call (hknown call hmem))
    (toU32 (newUploadRow uploadId info.expiresAt params).totalChunks)
  have hread := sum_lengthOf current hall
  rw [hchunks] at hread
  have howns : (Session.mk params.userId params.targetId params.targetType uploadId).Owns
      (newUploadRow uploadId info.expiresAt params) := ⟨rfl, rfl, rfl⟩
  have hnone : server.1.tree.node (stagingDir current uploadId) = none := by
    rw [stagingDir_of_dataDir hdir]
    exact hfresh.no_dir
  by_cases hbalanced : Balanced (fun i => (inForce current accepted i).chunkSizeBytes) params.totalChunks
      params.totalBytes
  · obtain ⟨upload, t', rows', segments, hstops, -, -⟩ := completeUpload_assembles hP hquiet htarget hnone
      hcollected hfresh.parses rfl howns hnow hall
      (by rw [hchunks, ← hread, hbytes]; exact (hsum.mpr hbalanced).symm) hshort nonce writeVerify
    have hresult : result = .ok upload := by
      simpa only [hfinal] using (server_run_of_stops hquiet hstops).1
    refine ⟨iff_of_true ⟨upload, hresult⟩ hbalanced, fun error herror => ?_⟩
    rw [hresult] at herror
    cases herror
  · have hdiffers := mt hsum.mp hbalanced
    obtain ⟨v', hstops⟩ := completeUpload_mismatches hP hquiet htarget hnone hcollected hfresh.parses rfl
      howns hnow hall (by rw [hchunks, ← hread, hbytes]; exact Ne.symm hdiffers) hshort nonce
      writeVerify
    have hresult := (server_run_of_stops hquiet hstops).1
    rw [hfinal, hbytes, hchunks] at hresult
    dsimp only at hresult
    refine ⟨iff_of_false ?_ hbalanced, fun error herror => ⟨_, hread ▸ hdiffers, ?_⟩⟩
    · intro hok
      obtain ⟨upload, hok⟩ := hok
      rw [hresult] at hok
      cases hok
    · rw [hresult] at herror
      exact (Except.error.inj herror).symm

/-- The configuration after the chunk size was doubled. -/
def doubledConfig : AppConfig := { sampleConfig with chunkSizeBytes := 2 }

def threeBytes : InitUploadParams where
  userId := "alice"
  targetId := "l"
  targetType := "library"
  targetPath := "docs/b"
  totalChunks := 3
  totalBytes := 3
  checksumSha256 := none

def threeBytesServer : Server :=
  ((initUpload sampleCrates sampleConfig "u" (-2) threeBytes).run (quietHandler calmOracle) emptyServer).2

/-- Three chunks received before the change. -/
def beforeDoubling : List ConfiguredCall :=
  [⟨⟨-1, twoBytesSession, 2, [3]⟩, sampleConfig⟩, ⟨⟨-1, twoBytesSession, 0, [1]⟩, sampleConfig⟩,
    ⟨⟨-1, twoBytesSession, 1, [2]⟩, sampleConfig⟩]

/-- The completion comes after the change. -/
theorem upload_survives_configs_iff_before :
    ∃ accepted received result completed,
      receiveAllUnder sampleCrates (quietHandler calmOracle) beforeDoubling threeBytesServer =
        (accepted, received) ∧
      (completeUpload sampleCrates doubledConfig plainPrimitives sampleUnlocked (-1)
        ⟨List.replicate 7 0, by simp⟩ twoBytesSession false).run (quietHandler calmOracle) received =
          (result, completed) ∧
      (((List.range 3).map (lengthOf doubledConfig (newUploadRow "u" "" threeBytes) accepted)).sum = 3 ↔
        Balanced (fun i => (inForce doubledConfig accepted i).chunkSizeBytes) 3 3) ∧
      ((∀ i < 3, ∃ call ∈ accepted, call.chunkIndex = i) →
        ((∃ upload, result = .ok upload) ↔
          Balanced (fun i => (inForce doubledConfig accepted i).chunkSizeBytes) 3 3) ∧
        ∀ error, result = .error error → ∃ read, read ≠ 3 ∧
          error = .internal ("Chunk size mismatch: expected " ++ toString 3 ++ " bytes, read " ++
            toString read)) :=
  upload_survives_configs_iff plainPrimitives plainPrimitives_lawful sampleCrates sampleConfig (by decide)
    sampleUnlocked calmOracle calmOracle_quiet emptyServer threeBytesServer "u"
    emptyServer_fresh (-2) threeBytes ⟨"u", 1, 3, 3, ""⟩ (Prod.ext (by decide) rfl)
    beforeDoubling (by decide) (by decide)
    doubledConfig rfl zeroKey ["libraries", "l", "docs", "b"]
    ⟨rfl, by decide, by decide, by
      intro canonicalRoot hroot
      have hplace : emptyServer.1.tree.canonicalize ["libraries", "l"] = .ok ["libraries", "l"] := by decide
      cases hplace.symm.trans hroot
      decide⟩
    (-1) (by decide) ⟨List.replicate 7 0, by simp⟩ false

/-- Three chunks of the lengths that are demanded after the change. -/
def afterDoubling : List ConfiguredCall :=
  [⟨⟨-1, twoBytesSession, 0, [1, 2]⟩, doubledConfig⟩, ⟨⟨-1, twoBytesSession, 1, [3, 4]⟩, doubledConfig⟩,
    ⟨⟨-1, twoBytesSession, 2, []⟩, doubledConfig⟩]

/-- All three chunks are accepted, and the session of three bytes fails with the four it was made to read. -/
theorem upload_survives_configs_doubled :
    ∃ accepted received completed,
      (initUpload sampleCrates sampleConfig "u" (-2) threeBytes).run (quietHandler calmOracle) emptyServer =
        (.ok ⟨"u", 1, 3, 3, ""⟩, threeBytesServer) ∧
      receiveAllUnder sampleCrates (quietHandler calmOracle) afterDoubling threeBytesServer =
        (accepted, received) ∧
      accepted.map (fun call => call.chunkIndex) = [0, 1, 2] ∧
      ((List.range 3).map (lengthOf doubledConfig (newUploadRow "u" "" threeBytes) accepted)).sum = 4 ∧
      (completeUpload sampleCrates doubledConfig plainPrimitives sampleUnlocked (-1)
        ⟨List.replicate 7 0, by simp⟩ twoBytesSession false).run (quietHandler calmOracle) received =
          (.error (.internal "Chunk size mismatch: expected 3 bytes, read 4"), completed) :=
  ⟨_, _, _, Prod.ext (by decide) rfl, rfl, by decide +kernel, by decide +kernel, Prod.ext (by decide +kernel) rfl⟩

end ChunkService

end IronDrive
