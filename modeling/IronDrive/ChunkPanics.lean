import IronDrive.ChunkedDownload

/-! The arithmetic of chunked transfers with its panics: divisions, checked additions, the constructor of durations,
the addition of a duration to a date, and slicing. The four functions that compute with chunk sizes are written once
more with this arithmetic; where nothing panics they are the functions that the rest is about. -/

namespace IronDrive

open Lib FileTree PathSafety CryptoService FsService

/-- What stops a thread. -/
inductive Panic
  | divideByZero
  | addOverflow
  | durationRange
  | dateRange
  | sliceRange
  deriving DecidableEq

/-- How a function that may panic ends without a value. -/
inductive Raised
  | error (error : AppError)
  | panic (panic : Panic)
  deriving DecidableEq

namespace ChunkService

/-- The first and the last second that a date can be in, the years from -262143 to 262142. -/
def minSecond : Int := -8334601228800

def maxSecond : Int := 8210266876799

namespace Panicking

def divCeil (n d : Nat) : Except Panic Nat :=
  if d = 0 then .error .divideByZero else .ok ((n + d - 1) / d)

/-- Addition of unsigned integers of so many bits. -/
def add (bits a b : Nat) : Except Panic Nat :=
  if a + b < 2 ^ bits then .ok (a + b) else .error .addOverflow

/-- The seconds of so many hours; durations count milliseconds in 64 bits. -/
def hours (n : Int) : Except Panic Int :=
  if (3600 * n * 1000).natAbs ≤ 2 ^ 63 - 1 then .ok (3600 * n) else .error .durationRange

/-- A date, by its second. -/
def date (second : Int) : Except Panic Int :=
  if minSecond ≤ second ∧ second ≤ maxSecond then .ok second else .error .dateRange

def slice (data : Bytes) (start stop : Nat) : Except Panic Bytes :=
  if start ≤ stop ∧ stop ≤ data.length then .ok (Lib.slice data start stop) else .error .sliceRange

variable {S : Signature} {α : Type}

/-- Go on with a value that was computed without a panic. -/
def arith (value : Except Panic α) : Program S Raised α := Program.ofExcept (value.mapError Raised.panic)

/-- A part that does not panic. -/
def raise (program : Program S AppError α) : Program S Raised α := program.mapError Raised.error

def expectedTotalChunks (totalBytes chunkSizeBytes : Nat) : Except Panic Nat :=
  if totalBytes = 0 then .ok 1
  else do
    let chunks ← divCeil totalBytes chunkSizeBytes
    return chunks % 2 ^ 32

def expectedChunkLen (totalBytes chunkSizeBytes totalChunks index : Nat) : Except Panic Nat := do
  let next ← add 32 index 1
  if next < totalChunks then return chunkSizeBytes
  else
    let prior := min (chunkSizeBytes * (totalChunks - 1)) u64Max
    return totalBytes - prior

variable (crates : Crates) (config : AppConfig)

def checkInitUpload (params : InitUploadParams) : Except Raised Unit :=
  if trim params.targetPath.toList = [] then .error (.error (.validation "Target path must not be empty."))
  else if params.targetPath.toList.getLast? = some '/' then
    .error (.error (.validation "Target path must include a filename, not a directory."))
  else if params.totalChunks = 0 then
    .error (.error (.validation "total_chunks must be greater than zero."))
  else if params.totalBytes ≤ config.chunkSizeBytes then
    .error (.error (.validation
      "File is small enough for single-request upload; use /api/v1/library/upload instead."))
  else if config.maxUploadBytes < params.totalBytes then
    .error (.error (.validation ("File exceeds maximum allowed upload size of " ++
      formatBytes config.maxUploadBytes ++ ".")))
  else if (params.checksumSha256.map isValidSha256Hex).getD true = false then
    .error (.error (.validation "checksum_sha256 must be a 64-character SHA-256 hex string."))
  else do
    let expectedChunks ← (expectedTotalChunks params.totalBytes config.chunkSizeBytes).mapError Raised.panic
    if params.totalChunks ≠ expectedChunks then
      .error (.error (.validation ("total_chunks mismatch: expected " ++ toString expectedChunks ++ ", got " ++
        toString params.totalChunks ++ ".")))
    else .ok ()

def initUpload (uploadId : String) (now : Int) (params : InitUploadParams) :
    Program serverSignature Raised InitUploadResult := do
  Program.ofExcept (checkInitUpload config params)
  let lifetime ← arith (hours (toI64 config.chunkUploadExpiryHours))
  let expiry ← arith (date (now + lifetime))
  let expiresAt := crates.formatTimestamp expiry
  raise (onDisk (createDirAll (stagingDir config uploadId) fun e =>
    .internal ("Failed to create staging directory: " ++ e.message)))
  raise (orSqlx (← raise (statement (.insert (newUploadRow uploadId expiresAt params)))))
  return { uploadId := uploadId, chunkSizeBytes := config.chunkSizeBytes,
           totalChunks := params.totalChunks, totalBytes := params.totalBytes, expiresAt := expiresAt }

def receiveChunk (now : Int) (session : Session) (chunkIndex : Nat) (data : Bytes) :
    Program serverSignature Raised ReceiveChunkResult := do
  let row ← raise (requireSession crates now session)
  let totalChunks := toU32 row.totalChunks
  if totalChunks ≤ chunkIndex then Program.fail (.error (.validation "chunk_index out of range."))
  else
    let expectedLen ← arith
      (expectedChunkLen (toU64 row.totalBytes) config.chunkSizeBytes totalChunks chunkIndex)
    if data.length ≠ expectedLen then
      Program.fail (.error (.validation ("Chunk size mismatch for index " ++ toString chunkIndex ++ ": expected " ++
        toString expectedLen ++ " bytes, got " ++ toString data.length ++ " bytes.")))
    else
      raise (onDisk (stageChunk config session.uploadId chunkIndex data))
      let receivedChunks ← raise (onDisk (countUploadedChunks config session.uploadId))
      raise (orSqlx (← raise (statement (.setReceived session.uploadId receivedChunks))))
      return { uploadId := session.uploadId, chunkIndex := chunkIndex, receivedChunks := receivedChunks,
               totalChunks := totalChunks }

variable (tokens : TokenCrates) (P : Primitives) (unlockState : UnlockState)

def buildDownloadToken (secretKey : String) (now : Int) (nonce userId targetId targetType path : String) :
    Except Raised (String × String) := do
  let _ ← (date (newPayload now nonce userId targetId targetType path).exp).mapError Raised.panic
  (ChunkService.buildDownloadToken crates tokens secretKey now nonce userId targetId targetType path).mapError
    Raised.error

def initDownload (now : Int) (nonce userId targetId targetType path : String) :
    Program fsSignature Raised InitDownloadResult := do
  let download ← raise (downloadTarget crates config P unlockState targetType targetId path)
  let totalBytes := download.data.length
  let totalChunks ← arith (expectedTotalChunks (max totalBytes 1) config.chunkSizeBytes)
  let (token, expiresAt) ← Program.ofExcept
    (buildDownloadToken crates tokens config.secretKey now nonce userId targetId targetType path)
  return { token := token, filename := download.filename, mimeType := download.mimeType,
           chunkSizeBytes := config.chunkSizeBytes, totalChunks := totalChunks, totalBytes := totalBytes,
           expiresAt := expiresAt }

/-- Cut a chunk out of what was read. -/
def cutChunk (download : DownloadResult) (chunkIndex : Nat) : Program fsSignature Raised ChunkDownloadResult := do
  let totalBytes := download.data.length
  let totalChunks ← arith (expectedTotalChunks (max totalBytes 1) config.chunkSizeBytes)
  if totalChunks ≤ chunkIndex then Program.fail (.error (.validation "chunk_index out of range."))
  else
    let start := min (chunkIndex * config.chunkSizeBytes) u64Max
    let reach ← arith (add 64 start config.chunkSizeBytes)
    let stop := min reach totalBytes
    let chunk ← arith (if totalBytes ≤ start then .ok [] else slice download.data start stop)
    return { data := chunk, mimeType := download.mimeType, checksumSha256 := download.checksumSha256,
             chunkIndex := chunkIndex, totalChunks := totalChunks, totalBytes := totalBytes }

def serveChunk (now : Int) (userId token : String) (chunkIndex : Nat) :
    Program fsSignature Raised ChunkDownloadResult := do
  let payload ← Program.ofExcept
    ((verifyDownloadToken tokens config.secretKey now token).mapError Raised.error)
  if payload.uid ≠ userId then Program.fail (.error .forbidden)
  else
    let download ← raise (downloadTarget crates config P unlockState payload.typ payload.lib payload.path)
    cutChunk config download chunkIndex

variable {crates config tokens P unlockState} {σ : Type} {program : Program S AppError α} {h : Handler S σ} {s : σ}

/-- The program panics in this run. -/
def Panics (program : Program S Raised α) (h : Handler S σ) (s : σ) : Prop :=
  ∃ p, (program.run h s).1 = .error (.panic p)

theorem not_panics_raise : ¬Panics (raise program) h s := by
  rintro ⟨p, hp⟩
  rw [raise, Program.run_mapError] at hp
  cases hresult : (program.run h s).1 with
  | ok value => rw [hresult] at hp; cases hp
  | error error => rw [hresult] at hp; cases hp

/-- What follows a part that does not panic can panic once that part has returned. -/
theorem panics_raise_bind {β : Type} {f : α → Program S Raised β} :
    Panics ((raise program).bind f) h s ↔ ∃ value s', program.run h s = (.ok value, s') ∧ Panics (f value) h s' := by
  rw [Panics, Program.run_bind, raise, Program.run_mapError]
  generalize program.run h s = outcome
  obtain ⟨result, s'⟩ := outcome
  cases result with
  | ok value =>
      constructor
      · intro hp
        exact ⟨value, s', rfl, hp⟩
      · rintro ⟨value', s'', heq, hp⟩
        cases heq
        exact hp
  | error error =>
      constructor
      · rintro ⟨p, hp⟩
        cases hp
      · rintro ⟨value', s'', heq, -⟩
        cases heq

theorem expectedTotalChunks_ok {n d : Nat} (hd : d ≠ 0) :
    expectedTotalChunks n d = .ok (ChunkService.expectedTotalChunks n d) := by
  rw [expectedTotalChunks, ChunkService.expectedTotalChunks, divCeil, if_neg hd]
  split
  · rfl
  · rfl

theorem expectedTotalChunks_panics {n : Nat} (hn : n ≠ 0) : expectedTotalChunks n 0 = .error .divideByZero := by
  rw [expectedTotalChunks, if_neg hn, divCeil, if_pos rfl]
  rfl

/-- An index below a number of chunks can be counted up. -/
theorem expectedChunkLen_ok {n c total i : Nat} (hi : i < total) (htotal : total < 2 ^ 32) :
    expectedChunkLen n c total i = .ok (ChunkService.expectedChunkLen n c total i) := by
  rw [expectedChunkLen, ChunkService.expectedChunkLen, add, if_pos (by omega)]
  show (if i + 1 < total then pure c else _ : Except Panic Nat) = _
  split
  · rfl
  · rfl

theorem toU32_lt (i : Int) : toU32 i < 2 ^ 32 := by
  rw [toU32]
  omega

/-- The parameters pass the checks that come before the number of chunks is computed. -/
def Admitted (config : AppConfig) (params : InitUploadParams) : Prop :=
  trim params.targetPath.toList ≠ [] ∧ params.targetPath.toList.getLast? ≠ some '/' ∧ params.totalChunks ≠ 0 ∧
    config.chunkSizeBytes < params.totalBytes ∧ params.totalBytes ≤ config.maxUploadBytes ∧
    (params.checksumSha256.map isValidSha256Hex).getD true = true

/-- The lifetime of a session is a duration, and its end a date. -/
def ExpiryFits (config : AppConfig) (now : Int) : Prop :=
  (3600 * toI64 config.chunkUploadExpiryHours * 1000).natAbs ≤ 2 ^ 63 - 1 ∧
    minSecond ≤ now + 3600 * toI64 config.chunkUploadExpiryHours ∧
    now + 3600 * toI64 config.chunkUploadExpiryHours ≤ maxSecond

instance (config : AppConfig) (now : Int) : Decidable (ExpiryFits config now) :=
  inferInstanceAs (Decidable (_ ∧ _))

theorem checkInitUpload_ok_iff {params : InitUploadParams} :
    ChunkService.checkInitUpload config params = .ok () ↔ Admitted config params ∧
      params.totalChunks = ChunkService.expectedTotalChunks params.totalBytes config.chunkSizeBytes := by
  rw [ChunkService.checkInitUpload, Admitted]
  split
  · next h => simp [h]
  split
  · next h => simp [h]
  split
  · next h => simp [h]
  split
  · next h => simp [Nat.not_lt.mpr h]
  split
  · next h => simp [Nat.not_le.mpr h]
  split
  · next h => simp [h]
  next hpath hlast hcount hsmall hlarge hchecksum =>
    dsimp only
    split
    · next h => simp [h]
    · next h =>
      refine iff_of_true rfl ⟨⟨hpath, hlast, hcount, Nat.not_le.mp hsmall, Nat.not_lt.mp hlarge, ?_⟩, not_not.mp h⟩
      simpa using hchecksum

theorem checkInitUpload_panics {params : InitUploadParams} (hparams : Admitted config params)
    (hchunk : config.chunkSizeBytes = 0) : checkInitUpload config params = .error (.panic .divideByZero) := by
  obtain ⟨hpath, hlast, hcount, hsmall, hlarge, hchecksum⟩ := hparams
  rw [checkInitUpload, if_neg hpath, if_neg hlast, if_neg hcount, if_neg (Nat.not_le.mpr hsmall),
    if_neg (Nat.not_lt.mpr hlarge), if_neg (by rw [hchecksum]; decide), hchunk,
    expectedTotalChunks_panics (Nat.ne_of_gt (Nat.zero_lt_of_lt hsmall))]
  rfl

theorem checkInitUpload_eq {params : InitUploadParams}
    (h : ¬(Admitted config params ∧ config.chunkSizeBytes = 0)) :
    checkInitUpload config params = (ChunkService.checkInitUpload config params).mapError Raised.error := by
  rw [checkInitUpload, ChunkService.checkInitUpload]
  by_cases hpath : trim params.targetPath.toList = []
  · rw [if_pos hpath, if_pos hpath]
    rfl
  rw [if_neg hpath, if_neg hpath]
  by_cases hlast : params.targetPath.toList.getLast? = some '/'
  · rw [if_pos hlast, if_pos hlast]
    rfl
  rw [if_neg hlast, if_neg hlast]
  by_cases hcount : params.totalChunks = 0
  · rw [if_pos hcount, if_pos hcount]
    rfl
  rw [if_neg hcount, if_neg hcount]
  by_cases hsmall : params.totalBytes ≤ config.chunkSizeBytes
  · rw [if_pos hsmall, if_pos hsmall]
    rfl
  rw [if_neg hsmall, if_neg hsmall]
  by_cases hlarge : config.maxUploadBytes < params.totalBytes
  · rw [if_pos hlarge, if_pos hlarge]
    rfl
  rw [if_neg hlarge, if_neg hlarge]
  by_cases hchecksum : (params.checksumSha256.map isValidSha256Hex).getD true = false
  · rw [if_pos hchecksum, if_pos hchecksum]
    rfl
  rw [if_neg hchecksum, if_neg hchecksum, expectedTotalChunks_ok fun hchunk => h ⟨⟨hpath, hlast, hcount,
    Nat.not_le.mp hsmall, Nat.not_lt.mp hlarge, by simpa using hchecksum⟩, hchunk⟩]
  dsimp only [Except.mapError, bind, Except.bind]
  split
  · rfl
  · rfl

/-- A session whose parameters pass and whose expiry can be computed is opened as without panics. -/
theorem initUpload_eq {uploadId : String} {now : Int} {params : InitUploadParams}
    (hchunk : ¬(Admitted config params ∧ config.chunkSizeBytes = 0))
    (hexpiry : ChunkService.checkInitUpload config params = .ok () → ExpiryFits config now) :
    initUpload crates config uploadId now params =
      raise (ChunkService.initUpload crates config uploadId now params) := by
  rw [initUpload, ChunkService.initUpload, checkInitUpload_eq hchunk]
  cases hcheck : ChunkService.checkInitUpload config params with
  | error e => rfl
  | ok u =>
      obtain ⟨hhours, hdate⟩ := hexpiry hcheck
      rw [hours, if_pos hhours]
      simp only [Program.bind_eq, Program.ofExcept_ok, Program.done_bind, arith, Except.mapError, date, if_pos hdate,
        raise, Program.mapError_bind, Program.pure_eq, Program.mapError_done]

/-- A call to open a session panics if its parameters pass, and chunks have no size, or their number is right and the
expiry does not fit. -/
theorem initUpload_panics_iff {σ : Type} {uploadId : String} {now : Int} {params : InitUploadParams}
    {h : Handler serverSignature σ} {s : σ} :
    Panics (initUpload crates config uploadId now params) h s ↔ Admitted config params ∧
      (config.chunkSizeBytes = 0 ∨ params.totalChunks =
        ChunkService.expectedTotalChunks params.totalBytes config.chunkSizeBytes ∧ ¬ExpiryFits config now) := by
  by_cases hchunk : Admitted config params ∧ config.chunkSizeBytes = 0
  · refine iff_of_true ⟨.divideByZero, ?_⟩ ⟨hchunk.1, Or.inl hchunk.2⟩
    rw [initUpload, checkInitUpload_panics hchunk.1 hchunk.2]
    rfl
  by_cases hexpiry : ChunkService.checkInitUpload config params = .ok () → ExpiryFits config now
  · refine iff_of_false ?_ ?_
    · rw [initUpload_eq hchunk hexpiry]
      exact not_panics_raise
    · rintro ⟨hparams, hzero | ⟨hcount, hlate⟩⟩
      · exact hchunk ⟨hparams, hzero⟩
      · exact hlate (hexpiry (checkInitUpload_ok_iff.mpr ⟨hparams, hcount⟩))
  · obtain ⟨hcheck, hlate⟩ := Classical.not_imp.mp hexpiry
    obtain ⟨hparams, hcount⟩ := checkInitUpload_ok_iff.mp hcheck
    refine iff_of_true ?_ ⟨hparams, Or.inr ⟨hcount, hlate⟩⟩
    rw [initUpload, checkInitUpload_eq hchunk, hcheck]
    by_cases hhours : (3600 * toI64 config.chunkUploadExpiryHours * 1000).natAbs ≤ 2 ^ 63 - 1
    · refine ⟨.dateRange, ?_⟩
      rw [hours, if_pos hhours]
      simp only [Program.bind_eq, Program.ofExcept_ok, Program.done_bind, arith, Except.mapError, date,
        if_neg fun hdate => hlate ⟨hhours, hdate⟩]
      rfl
    · refine ⟨.durationRange, ?_⟩
      rw [hours, if_neg hhours]
      rfl

theorem receiveChunk_eq {now : Int} {session : Session} {chunkIndex : Nat} {data : Bytes} :
    receiveChunk crates config now session chunkIndex data =
      raise (ChunkService.receiveChunk crates config now session chunkIndex data) := by
  rw [receiveChunk, ChunkService.receiveChunk]
  simp only [Program.bind_eq, raise, Program.mapError_bind]
  congr 1
  funext row
  by_cases hrange : toU32 row.totalChunks ≤ chunkIndex
  · rw [if_pos hrange, if_pos hrange]
    rfl
  rw [if_neg hrange, if_neg hrange, expectedChunkLen_ok (Nat.not_le.mp hrange) (toU32_lt _)]
  show (if _ then _ else _ : Program serverSignature Raised ReceiveChunkResult) = _
  split
  · rfl
  · simp only [Program.mapError_bind, Program.pure_eq, Program.mapError_done]

/-- The date a token made now expires at is a date. -/
def TokenFits (now : Int) : Prop :=
  minSecond ≤ timestamp (now + 60 * 10 ^ 9 * downloadTokenTtlMinutes) ∧
    timestamp (now + 60 * 10 ^ 9 * downloadTokenTtlMinutes) ≤ maxSecond

instance (now : Int) : Decidable (TokenFits now) := inferInstanceAs (Decidable (_ ∧ _))

/-- The file of a target can be read from here. -/
def Readable {σ : Type} (crates : Crates) (config : AppConfig) (P : Primitives) (unlockState : UnlockState)
    (targetType targetId path : String) (h : Handler fsSignature σ) (s : σ) : Prop :=
  ∃ download s', (downloadTarget crates config P unlockState targetType targetId path).run h s = (.ok download, s')

theorem initDownload_eq {now : Int} {nonce userId targetId targetType path : String}
    (hchunk : config.chunkSizeBytes ≠ 0) (hdate : TokenFits now) :
    initDownload crates config tokens P unlockState now nonce userId targetId targetType path =
      raise (ChunkService.initDownload crates tokens config P unlockState now nonce userId targetId targetType
        path) := by
  rw [initDownload, ChunkService.initDownload]
  simp only [Program.bind_eq, raise, Program.mapError_bind]
  congr 1
  funext download
  rw [expectedTotalChunks_ok hchunk]
  have hdate' : date (newPayload now nonce userId targetId targetType path).exp = .ok _ := if_pos hdate
  rw [Program.mapError_ofExcept, buildDownloadToken, hdate']
  rfl

theorem initDownload_panics_iff {σ : Type} {now : Int} {nonce userId targetId targetType path : String}
    {h : Handler fsSignature σ} {s : σ} :
    Panics (initDownload crates config tokens P unlockState now nonce userId targetId targetType path) h s ↔
      (config.chunkSizeBytes = 0 ∨ ¬TokenFits now) ∧
        Readable crates config P unlockState targetType targetId path h s := by
  by_cases hfits : config.chunkSizeBytes ≠ 0 ∧ TokenFits now
  · refine iff_of_false ?_ fun hpanics => hpanics.1.elim hfits.1 fun hlate => hlate hfits.2
    rw [initDownload_eq hfits.1 hfits.2]
    exact not_panics_raise
  · have hcondition : config.chunkSizeBytes = 0 ∨ ¬TokenFits now := by tauto
    have htail : ∀ download : DownloadResult, ∀ s' : σ, Panics (Program.bind (arith
        (expectedTotalChunks (max download.data.length 1) config.chunkSizeBytes)) fun totalChunks => Program.bind
        (Program.ofExcept (buildDownloadToken crates tokens config.secretKey now nonce userId targetId targetType path))
        fun token => Program.done (⟨token.1, download.filename, download.mimeType, config.chunkSizeBytes, totalChunks,
          download.data.length, token.2⟩ : InitDownloadResult)) h s' := by
      intro download s'
      by_cases hchunk : config.chunkSizeBytes = 0
      · refine ⟨.divideByZero, ?_⟩
        rw [hchunk, expectedTotalChunks_panics (by omega)]
        rfl
      · refine ⟨.dateRange, ?_⟩
        have hdate : date (newPayload now nonce userId targetId targetType path).exp = .error .dateRange :=
          if_neg (hcondition.resolve_left hchunk)
        rw [expectedTotalChunks_ok hchunk, buildDownloadToken, hdate]
        rfl
    rw [initDownload, Program.bind_eq, panics_raise_bind]
    constructor
    · rintro ⟨download, s', hrun, -⟩
      exact ⟨hcondition, download, s', hrun⟩
    · rintro ⟨-, download, s', hrun⟩
      exact ⟨download, s', hrun, htail download s'⟩

/-- An index in range starts within the file. -/
theorem start_lt {n c i : Nat} (hc : c ≠ 0) (hn : 0 < n) (hi : i < ChunkService.expectedTotalChunks n c) :
    i * c < n := by
  rw [ChunkService.expectedTotalChunks, if_neg (by omega)] at hi
  have hcount : i + 1 ≤ (n + c - 1) / c := hi.trans_le (Nat.mod_le _ _)
  have hreach := (Nat.le_div_iff_mul_le (Nat.pos_of_ne_zero hc)).mp hcount
  rw [Nat.succ_mul] at hreach
  omega

/-- From what fits the memory a chunk is cut without a panic. -/
theorem cutChunk_eq {download : DownloadResult} {chunkIndex : Nat} (hchunk : config.chunkSizeBytes ≠ 0)
    (hsize : config.chunkSizeBytes < 2 ^ 64) (hmemory : download.data.length < 2 ^ 63) :
    cutChunk config download chunkIndex = raise (
      if ChunkService.expectedTotalChunks (max download.data.length 1) config.chunkSizeBytes ≤ chunkIndex then
        Program.fail (.validation "chunk_index out of range.")
      else
        Program.done
          { data := Lib.slice download.data (min (chunkIndex * config.chunkSizeBytes) u64Max)
              (min (min (chunkIndex * config.chunkSizeBytes) u64Max + config.chunkSizeBytes) download.data.length),
            mimeType := download.mimeType, checksumSha256 := download.checksumSha256, chunkIndex := chunkIndex,
            totalChunks := ChunkService.expectedTotalChunks (max download.data.length 1) config.chunkSizeBytes,
            totalBytes := download.data.length }) := by
  rw [cutChunk, expectedTotalChunks_ok hchunk]
  simp only [arith, Except.mapError, Program.bind_eq, Program.ofExcept_ok, Program.done_bind]
  by_cases hrange : ChunkService.expectedTotalChunks (max download.data.length 1) config.chunkSizeBytes ≤ chunkIndex
  · rw [if_pos hrange, if_pos hrange]
    rfl
  rw [if_neg hrange, if_neg hrange]
  have hstart := start_lt hchunk (by omega) (Nat.not_le.mp hrange)
  have hreach : chunkIndex * config.chunkSizeBytes + config.chunkSizeBytes < 2 ^ 64 := by
    rcases Nat.eq_zero_or_pos chunkIndex with hzero | hpos
    · rw [hzero, Nat.zero_mul, Nat.zero_add]
      exact hsize
    · have hfirst := Nat.le_mul_of_pos_left config.chunkSizeBytes hpos
      omega
  rw [Nat.min_eq_left (by rw [u64Max]; omega), add, if_pos hreach]
  simp only [Program.ofExcept_ok, Program.done_bind]
  by_cases hpast : download.data.length ≤ chunkIndex * config.chunkSizeBytes
  · rw [if_pos hpast, Lib.slice, List.drop_eq_nil_of_le hpast, List.take_nil]
    rfl
  · rw [if_neg hpast, slice, if_pos (by omega)]
    rfl

/-- What a download returns fits the memory. -/
def FitsMemory {σ : Type} (crates : Crates) (config : AppConfig) (P : Primitives) (unlockState : UnlockState)
    (h : Handler fsSignature σ) (s : σ) : Prop :=
  ∀ targetType targetId path download s',
    (downloadTarget crates config P unlockState targetType targetId path).run h s = (.ok download, s') →
      download.data.length < 2 ^ 63

theorem cutChunk_panics {download : DownloadResult} {chunkIndex : Nat} (hchunk : config.chunkSizeBytes = 0)
    {σ : Type} {h : Handler fsSignature σ} {s : σ} : Panics (cutChunk config download chunkIndex) h s := by
  refine ⟨.divideByZero, ?_⟩
  rw [cutChunk, hchunk, expectedTotalChunks_panics (by omega)]
  rfl

theorem serveChunk_panics_iff {σ : Type} {now : Int} {userId token : String} {chunkIndex : Nat}
    (hsize : config.chunkSizeBytes < 2 ^ 64) {h : Handler fsSignature σ} {s : σ}
    (hmemory : FitsMemory crates config P unlockState h s) :
    Panics (serveChunk crates config tokens P unlockState now userId token chunkIndex) h s ↔
      config.chunkSizeBytes = 0 ∧ ∃ payload, verifyDownloadToken tokens config.secretKey now token = .ok payload ∧
        payload.uid = userId ∧ Readable crates config P unlockState payload.typ payload.lib payload.path h s := by
  rw [serveChunk]
  cases hverify : verifyDownloadToken tokens config.secretKey now token with
  | error e =>
      refine iff_of_false ?_ ?_
      · rintro ⟨p, hp⟩
        cases hp
      · rintro ⟨-, payload, hpayload, -⟩
        cases hpayload
  | ok payload =>
      show Panics (if payload.uid ≠ userId then _ else _) h s ↔ _
      by_cases huser : payload.uid = userId
      · rw [if_neg (not_not.mpr huser), Program.bind_eq, panics_raise_bind]
        constructor
        · rintro ⟨download, s', hrun, hpanics⟩
          refine ⟨?_, payload, rfl, huser, download, s', hrun⟩
          by_contra hchunk
          rw [cutChunk_eq hchunk hsize (hmemory _ _ _ _ _ hrun)] at hpanics
          exact not_panics_raise hpanics
        · rintro ⟨hchunk, payload', heq, -, download, s', hrun⟩
          cases heq
          exact ⟨download, s', hrun, cutChunk_panics hchunk⟩
      · rw [if_pos huser]
        refine iff_of_false ?_ ?_
        · rintro ⟨p, hp⟩
          cases hp
        · rintro ⟨-, payload', heq, huser', -⟩
          cases heq
          exact huser huser'

/-- Where it does not panic, `serveChunk` does what it does without panics. -/
theorem serveChunk_run {σ : Type} {now : Int} {userId token : String} {chunkIndex : Nat}
    (hchunk : config.chunkSizeBytes ≠ 0) (hsize : config.chunkSizeBytes < 2 ^ 64) {h : Handler fsSignature σ} {s : σ}
    (hmemory : FitsMemory crates config P unlockState h s) :
    (serveChunk crates config tokens P unlockState now userId token chunkIndex).run h s =
      (raise (ChunkService.serveChunk crates tokens config P unlockState now userId token chunkIndex)).run h s := by
  rw [serveChunk, ChunkService.serveChunk]
  cases verifyDownloadToken tokens config.secretKey now token with
  | error e => rfl
  | ok payload =>
      show (if payload.uid ≠ userId then _ else _ : Program fsSignature Raised ChunkDownloadResult).run h s =
        (raise (if payload.uid ≠ userId then _ else _)).run h s
      by_cases huser : payload.uid = userId
      · rw [if_neg (not_not.mpr huser), if_neg (not_not.mpr huser)]
        simp only [Program.bind_eq, raise, Program.mapError_bind, Program.run_bind, Program.run_mapError]
        generalize hrun : (downloadTarget crates config P unlockState payload.typ payload.lib payload.path).run h s =
          outcome
        obtain ⟨result, s'⟩ := outcome
        cases result with
        | error e => rfl
        | ok download =>
            show (cutChunk config download chunkIndex).run h s' = _
            rw [cutChunk_eq hchunk hsize (hmemory _ _ _ _ _ hrun), raise, Program.run_mapError]
            rfl
      · rw [if_pos huser, if_pos huser]
        rfl

/-! ### When nothing panics -/

/-- What the arithmetic of chunked transfers needs not to panic, for every configuration and every request: opening a
session needs, once the parameters pass, chunks of some size and an expiry that is a date; receiving a chunk needs
nothing; a download needs, once its file can be read, chunks of some size and, for the token, an expiry that is a
date. -/
theorem chunk_arithmetic_panics_iff (crates : Crates) (config : AppConfig) (tokens : TokenCrates) (P : Primitives)
    (unlockState : UnlockState) (hsize : config.chunkSizeBytes < 2 ^ 64) {σ τ : Type} (h : Handler serverSignature σ)
    (s : σ) (k : Handler fsSignature τ) (r : τ) (hmemory : FitsMemory crates config P unlockState k r) (now : Int) :
    (∀ uploadId params, ¬Panics (initUpload crates config uploadId (timestamp now) params) h s ↔
      (Admitted config params → config.chunkSizeBytes ≠ 0 ∧
        (params.totalChunks = ChunkService.expectedTotalChunks params.totalBytes config.chunkSizeBytes →
          ExpiryFits config (timestamp now)))) ∧
    (∀ session chunkIndex data,
      ¬Panics (receiveChunk crates config (timestamp now) session chunkIndex data) h s) ∧
    (∀ nonce userId targetId targetType path,
      ¬Panics (initDownload crates config tokens P unlockState now nonce userId targetId targetType path) k r ↔
        (Readable crates config P unlockState targetType targetId path k r →
          config.chunkSizeBytes ≠ 0 ∧ TokenFits now)) ∧
    ∀ userId token chunkIndex,
      ¬Panics (serveChunk crates config tokens P unlockState now userId token chunkIndex) k r ↔
        ∀ payload, verifyDownloadToken tokens config.secretKey now token = .ok payload → payload.uid = userId →
          Readable crates config P unlockState payload.typ payload.lib payload.path k r →
            config.chunkSizeBytes ≠ 0 := by
  refine ⟨fun uploadId params => ?_, fun session chunkIndex data => ?_, fun nonce userId targetId targetType path => ?_,
    fun userId token chunkIndex => ?_⟩
  · rw [initUpload_panics_iff]
    tauto
  · rw [receiveChunk_eq]
    exact not_panics_raise
  · rw [initDownload_panics_iff]
    tauto
  · rw [serveChunk_panics_iff hsize hmemory]
    constructor
    · intro hnot payload hverify huser hread hchunk
      exact hnot ⟨hchunk, payload, hverify, huser, hread⟩
    · rintro hall ⟨hchunk, payload, hverify, huser, hread⟩
      exact hall payload hverify huser hread hchunk

/-- What can be read of a node, under the zero key, fits into memory. -/
def fitsNode : Option Node → Bool
  | some (.file stored) =>
      match readBytes plainPrimitives zeroKey stored with
      | .ok data => data.length < 2 ^ 63
      | .error _ => true
  | _ => true

theorem wholeServer_fits :
    FitsMemory sampleCrates sampleConfig plainPrimitives sampleUnlocked (fsHandler calmOracle) wholeServer.1 := by
  intro targetType targetId path downloaded s' hrun
  have hfiles : ∀ place ∈ wholeServer.1.tree.paths, fitsNode (wholeServer.1.tree.node place) = true := by
    decide +kernel
  have hreads : ∀ {root : Path} {dataKey : Except AppError DataKey}, (∀ key, dataKey = .ok key → key = zeroKey) →
      ((download plainPrimitives sampleCrates.mimeFromFilename dataKey root path).run (fsHandler calmOracle)
        wholeServer.1).1 = .ok downloaded → downloaded.data.length < 2 ^ 63 := by
    intro root dataKey hzero hrun
    obtain ⟨⟨key, stored, hkey, ⟨found, place, -, hfile⟩, hread⟩, -⟩ := download_reads hrun
    have hnode := (locate_of_fileAt hfile).2
    have hfits := hfiles place ((wholeServer.1.tree.mem_paths place).mpr (by rw [hnode]; simp))
    rw [hzero key hkey] at hread
    rw [hnode, fitsNode, hread] at hfits
    exact of_decide_eq_true hfits
  rw [downloadTarget] at hrun
  split at hrun
  · exact hreads (fun key hkey => by cases hkey; rfl) (congrArg Prod.fst hrun)
  · exact hreads (fun key hkey => by cases hkey; rfl) (congrArg Prod.fst hrun)

/-- Uploads and downloads of two bytes in chunks of one. -/
theorem chunk_arithmetic_panics_iff_whole :
    ¬Panics (initUpload sampleCrates sampleConfig "u" (timestamp 0) twoBytes) (quietHandler calmOracle) emptyServer ∧
    ¬Panics (receiveChunk sampleCrates sampleConfig (timestamp 0) twoBytesSession 0 [1]) (quietHandler calmOracle)
      emptyServer ∧
    ¬Panics (initDownload sampleCrates sampleConfig sampleTokens plainPrimitives sampleUnlocked 0 "n" "u" "l" "library"
      "docs/b") (fsHandler calmOracle) wholeServer.1 ∧
    ¬Panics (serveChunk sampleCrates sampleConfig sampleTokens plainPrimitives sampleUnlocked 0 "u" "t" 0)
      (fsHandler calmOracle) wholeServer.1 := by
  obtain ⟨hinit, hreceive, hdownload, hserve⟩ := chunk_arithmetic_panics_iff sampleCrates sampleConfig sampleTokens
    plainPrimitives sampleUnlocked (by decide) (quietHandler calmOracle) emptyServer (fsHandler calmOracle)
    wholeServer.1 wholeServer_fits 0
  exact ⟨(hinit _ _).mpr fun _ => ⟨by decide, fun _ => by decide⟩, hreceive _ _ _,
    (hdownload _ _ _ _ _).mpr fun _ => ⟨by decide, by decide⟩, (hserve _ _ _).mpr fun _ _ _ _ => by decide⟩

/-- Chunks of no size make the opening of an upload and of a download panic; so does an expiry after 2562047788016
hours, which is no duration, or after 2300000000, which is no date. -/
theorem chunk_arithmetic_panics :
    ((initUpload sampleCrates { sampleConfig with chunkSizeBytes := 0 } "u" 1760000000 twoBytes).run
      (quietHandler calmOracle) emptyServer).1 = .error (.panic .divideByZero) ∧
    ((initDownload sampleCrates { sampleConfig with chunkSizeBytes := 0 } sampleTokens plainPrimitives sampleUnlocked 0
      "n" "u" "l" "library" "docs/b").run (fsHandler calmOracle) wholeServer.1).1 = .error (.panic .divideByZero) ∧
    ((initUpload sampleCrates { sampleConfig with chunkUploadExpiryHours := 2562047788016 } "u" 1760000000 twoBytes).run
      (quietHandler calmOracle) emptyServer).1 = .error (.panic .durationRange) ∧
    ((initUpload sampleCrates { sampleConfig with chunkUploadExpiryHours := 2300000000 } "u" 1760000000 twoBytes).run
      (quietHandler calmOracle) emptyServer).1 = .error (.panic .dateRange) := by
  refine ⟨?_, ?_, ?_, ?_⟩
  · decide +kernel
  · decide +kernel
  · decide +kernel
  · decide +kernel

end Panicking

end ChunkService

end IronDrive
