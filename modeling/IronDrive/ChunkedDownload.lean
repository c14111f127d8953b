import IronDrive.ReportedSize
import IronDrive.TokenBinding

/-! Reassembling a chunked download. Every request reads the file anew and cuts its chunk from what it reads, so the
chunks come from as many versions as the file has had in the meantime; the checksum ties them together. -/

namespace IronDrive

open Lib FileTree PathSafety CryptoService FsService

variable {P : Primitives} {t : FileTree} {path place : Path}

theorem isStreamFormat_readsOnly (path : Path) : ReadsOnly (isStreamFormat path) := by
  refine ⟨trivial, fun opened => ?_⟩
  cases opened with
  | error e => trivial
  | ok place =>
      refine ⟨trivial, fun magic => ?_⟩
      cases magic <;> trivial

theorem keeps_anyhow {α : Type} {program : FsProgram α} (h : ReadsOnly program) (t : FileTree) :
    program.Ensures Anyhow t fun _ t' => t' = t := by
  refine Program.Only.ensures (I := fun t' => t' = t) h ?_ rfl
  rintro op v answer v' hread rfl ⟨choice, -, hperform⟩
  exact (congrArg Prod.snd hperform).symm.trans (perform_readOnly hread choice v)

theorem readFile_anyhow (path : Path) (onError : IoError → AppError) :
    (readFile path onError).Ensures Anyhow t fun result t' =>
      t' = t ∧ ∀ blob, result = .ok blob → ∃ place, t.fileAt path = .ok (place, blob) := by
  rintro answer t' ⟨choice, -, hperform⟩
  obtain ⟨rfl, rfl⟩ := Prod.mk.inj hperform
  have haccounted := guard_accounted choice ((t.fileAt path).map Prod.snd)
  cases hanswer : choice.guard ((t.fileAt path).map Prod.snd) with
  | error error => exact ⟨rfl, nofun⟩
  | ok blob =>
      have hfile := haccounted.ok blob hanswer
      refine ⟨rfl, fun blob' hblob => ?_⟩
      cases hblob
      cases hat : t.fileAt path with
      | error kind =>
          rw [hat] at hfile
          cases hfile
      | ok found =>
          rw [hat] at hfile
          cases hfile
          exact ⟨found.1, rfl⟩

theorem decryptFileBytes_magic {dataKey : DataKey} {blob plaintext : Bytes}
    (h : decryptFileBytes P dataKey blob = .ok plaintext) : slice blob 0 3 ≠ streamMagic := by
  intro hmagic
  have hother : slice blob 0 magicLen ≠ singleMagic := by
    show slice blob 0 3 ≠ singleMagic
    rw [hmagic]
    decide
  rw [decryptFileBytes, decryptFileBytesInner] at h
  by_cases hsmall : blob.length < minSingleFileLen
  · rw [if_pos hsmall] at h
    cases h
  · rw [if_neg hsmall, if_pos hother] at h
    cases h

/-- The two readers each refuse the format of the other, so a failure to see the format does no harm. -/
theorem readAndDecryptFile_anyhow (dataKey : DataKey) (path : Path) :
    (readAndDecryptFile P dataKey path).Ensures Anyhow t fun result _ => ∀ plaintext, result = .ok plaintext →
      ∃ place blob, t.fileAt path = .ok (place, blob) ∧ readBytes P dataKey blob = .ok plaintext := by
  refine Program.Ensures.bind (keeps_anyhow (isStreamFormat_readsOnly path) t) ?_ fun _ _ _ => nofun
  rintro stream t' rfl
  cases stream with
  | true =>
      refine Program.Ensures.bind (readFile_anyhow path _) ?_ fun _ _ _ => nofun
      rintro blob t' ⟨rfl, hfile⟩
      obtain ⟨place, hplace⟩ := hfile blob rfl
      have hstops : (Program.ofExcept (streamDecryptBytes P dataKey blob) : FsProgram Bytes).Stops Anyhow t' _ t' :=
        Program.stops_ofExcept _ t'
      refine Program.Ensures.mono hstops ?_
      rintro result t'' ⟨rfl, -⟩ plaintext hread
      have hmagic := ((streamDecryptBytes_eq_ok dataKey plaintext).mp hread).2.2.1
      exact ⟨place, blob, hplace, by rw [readBytes, if_pos hmagic, hread]⟩
  | false =>
      refine Program.Ensures.bind (readFile_anyhow path _) ?_ fun _ _ _ => nofun
      rintro blob t' ⟨rfl, hfile⟩
      obtain ⟨place, hplace⟩ := hfile blob rfl
      have hstops : (Program.ofExcept (decryptFileBytes P dataKey blob) : FsProgram Bytes).Stops Anyhow t' _ t' :=
        Program.stops_ofExcept _ t'
      refine Program.Ensures.mono hstops ?_
      rintro result t'' ⟨rfl, -⟩ plaintext hread
      exact ⟨place, blob, hplace, by rw [readBytes, if_neg (decryptFileBytes_magic hread), hread]⟩

/-- The part of a download after its target is known. -/
theorem readTarget_anyhow (onError : IoError → AppError) (refusal : AppError) (dataKey : DataKey) (target : Path)
    (found : Bytes → DownloadResult) (hfound : ∀ plaintext, (found plaintext).data = plaintext ∧
      (found plaintext).checksumSha256 = hexEncode (P.sha256 plaintext).val) :
    ((metadata target onError).bind fun m =>
      if m.isDir then Program.fail refusal
      else (readAndDecryptFile P dataKey target).bind fun plaintext => Program.done (found plaintext)).Ensures
        Anyhow t fun result _ => ∀ downloaded, result = .ok downloaded →
          (∃ place stored, t.fileAt target = .ok (place, stored) ∧ readBytes P dataKey stored = .ok downloaded.data) ∧
            downloaded.checksumSha256 = hexEncode (P.sha256 downloaded.data).val := by
  refine Program.Ensures.bind (keeps_anyhow (metadata_readsOnly target onError) t) ?_ fun _ _ _ => nofun
  rintro m t' rfl
  by_cases hdir : m.isDir = true
  · rw [if_pos hdir]
    exact nofun
  · rw [if_neg hdir]
    refine Program.Ensures.bind (readAndDecryptFile_anyhow dataKey target) ?_ fun _ _ _ => nofun
    rintro plaintext t'' hread downloaded ⟨⟩
    rw [(hfound plaintext).1, (hfound plaintext).2]
    exact ⟨hread plaintext rfl, rfl⟩

/-- What a download returns is what the file at the path holds. -/
theorem download_reads {oracle : Nat → Choice} {disk : Disk} {root : Path} {userPath : String}
    {mimeFromFilename : String → Option String} {dataKey : Except AppError DataKey} {downloaded : DownloadResult}
    (hrun : ((download P mimeFromFilename dataKey root userPath).run (fsHandler oracle) disk).1 = .ok downloaded) :
    (∃ key stored, dataKey = .ok key ∧ LeadsTo oracle disk root userPath stored ∧
      readBytes P key stored = .ok downloaded.data) ∧
      downloaded.checksumSha256 = hexEncode (P.sha256 downloaded.data).val := by
  rw [download] at hrun
  by_cases hempty : userPath = ""
  · rw [if_pos hempty] at hrun
    cases hrun
  rw [if_neg hempty] at hrun
  cases hkey : dataKey with
  | error e =>
      rw [hkey] at hrun
      cases hrun
  | ok key =>
      rw [hkey, Program.ofExcept_ok, Program.bind_eq, Program.done_bind, Program.bind_eq, Program.run_bind] at hrun
      have hkept : ((safeJoin root userPath).run (fsHandler oracle) disk).2.tree = disk.tree :=
        run_of_ensures (fun _ => trivial) (keeps_anyhow (safeJoin_readsOnly root userPath) disk.tree)
      cases hjoin : (safeJoin root userPath).run (fsHandler oracle) disk with
      | mk result disk' =>
          rw [hjoin] at hrun hkept
          cases result with
          | error e => cases hrun
          | ok target =>
              obtain ⟨⟨place, stored, hfile, hread⟩, hchecksum⟩ := run_of_ensures (fun _ => trivial)
                (readTarget_anyhow (P := P) _ _ key target _ fun plaintext => ⟨rfl, rfl⟩) downloaded hrun
              rw [hkept] at hfile
              exact ⟨⟨key, stored, rfl, ⟨target, place, by rw [hjoin], hfile⟩, hread⟩, hchecksum⟩

/-- Without faults a file that can be decrypted is downloaded. -/
theorem download_stops {oracle : Nat → Choice} (hquiet : QuietOracle oracle) {disk : Disk} {root : Path}
    {userPath : String} {stored plaintext : Bytes} (hleads : LeadsTo oracle disk root userPath stored)
    (mimeFromFilename : String → Option String) {key : DataKey} (hread : readBytes P key stored = .ok plaintext) :
    ∃ downloaded, (download P mimeFromFilename (.ok key) root userPath).Stops Quietly disk.tree (.ok downloaded)
      disk.tree ∧ downloaded.data = plaintext := by
  obtain ⟨target, place, hjoin, hfile⟩ := hleads
  obtain ⟨-, -, -, -, -, hstops⟩ := safeJoin_stops hquiet hjoin
  have hplain := readAndDecryptFile_stops (P := P) hfile key
  rw [hread] at hplain
  refine ⟨⟨plaintext, hexEncode (P.sha256 plaintext).val, mimeFromFilename (fileName target), fileName target⟩, ?_, rfl⟩
  rw [download, if_neg (safeJoin_nonempty hjoin)]
  exact hstops.bind ((metadata_stops_of_fileAt hfile _).bind (hplain.bind (Program.stops_done _ _)))

namespace ChunkService

variable {crates : Crates} {tokens : TokenCrates} {config : AppConfig} {unlockState : UnlockState}
  {userId token : String}

/-- The key and the root that a token stands for. -/
def payloadKey (unlockState : UnlockState) (payload : DownloadTokenPayload) : Except AppError DataKey :=
  if payload.typ = "space" then requireSpaceKey unlockState payload.lib else requireDataKey unlockState payload.lib

def payloadRoot (config : AppConfig) (payload : DownloadTokenPayload) : Path :=
  if payload.typ = "space" then spaceRoot config payload.lib else libraryRoot config payload.lib

theorem downloadTarget_eq (payload : DownloadTokenPayload) :
    downloadTarget crates config P unlockState payload.typ payload.lib =
      download P crates.mimeFromFilename (payloadKey unlockState payload) (payloadRoot config payload) := by
  by_cases hspace : payload.typ = "space"
  · rw [downloadTarget, if_pos hspace, payloadKey, if_pos hspace, payloadRoot, if_pos hspace]
    rfl
  · rw [downloadTarget, if_neg hspace, payloadKey, if_neg hspace, payloadRoot, if_neg hspace]
    rfl

/-- A moment at which a chunk is asked for: the time, the disk as it is then, and what the operating system does
during the request. -/
structure ChunkRequest where
  now : Int
  oracle : Nat → Choice
  disk : Disk

/-- What is answered to a request for a chunk. -/
def ChunkRequest.serve (crates : Crates) (tokens : TokenCrates) (config : AppConfig) (P : Primitives)
    (unlockState : UnlockState) (userId token : String) (request : ChunkRequest) (index : Nat) :
    Except AppError ChunkDownloadResult :=
  ((serveChunk crates tokens config P unlockState request.now userId token index).run (fsHandler request.oracle)
    request.disk).1

/-- The plaintext of the file that the token names, as it is on the disk at that moment. -/
def IsVersion (tokens : TokenCrates) (config : AppConfig) (P : Primitives) (unlockState : UnlockState)
    (token : String) (request : ChunkRequest) (version : Bytes) : Prop :=
  ∃ payload key stored, verifyDownloadToken tokens config.secretKey request.now token = .ok payload ∧
    payloadKey unlockState payload = .ok key ∧
    LeadsTo request.oracle request.disk (payloadRoot config payload) payload.path stored ∧
    readBytes P key stored = .ok version

theorem IsVersion.unique {request : ChunkRequest} {version version' : Bytes}
    (h : IsVersion tokens config P unlockState token request version)
    (h' : IsVersion tokens config P unlockState token request version') : version = version' := by
  obtain ⟨payload, key, stored, hverify, hkey, ⟨target, place, hjoin, hfile⟩, hread⟩ := h
  obtain ⟨payload', key', stored', hverify', hkey', ⟨target', place', hjoin', hfile'⟩, hread'⟩ := h'
  cases hverify.symm.trans hverify'
  cases hkey.symm.trans hkey'
  cases hjoin.symm.trans hjoin'
  cases hfile.symm.trans hfile'
  exact Except.ok.inj (hread.symm.trans hread')

/-- The number of chunks of a version. -/
def chunksOf (config : AppConfig) (version : Bytes) : Nat :=
  expectedTotalChunks (max version.length 1) config.chunkSizeBytes

/-- The chunk cut from a version. -/
def chunkOf (config : AppConfig) (version : Bytes) (index : Nat) : Bytes :=
  slice version (min (index * config.chunkSizeBytes) u64Max)
    (min (min (index * config.chunkSizeBytes) u64Max + config.chunkSizeBytes) version.length)

/-- A chunk that is served is cut from the version of that moment. -/
theorem serve_cuts {request : ChunkRequest} {index : Nat} {served : ChunkDownloadResult}
    (h : request.serve crates tokens config P unlockState userId token index = .ok served) :
    ∃ version, IsVersion tokens config P unlockState token request version ∧
      served.checksumSha256 = hexEncode (P.sha256 version).val ∧ served.totalBytes = version.length ∧
      served.totalChunks = chunksOf config version ∧ index < chunksOf config version ∧
      served.data = chunkOf config version index := by
  rw [ChunkRequest.serve, serveChunk] at h
  cases hverify : verifyDownloadToken tokens config.secretKey request.now token with
  | error e =>
      rw [hverify] at h
      cases h
  | ok payload =>
      rw [hverify, Program.ofExcept_ok, Program.bind_eq, Program.done_bind] at h
      by_cases huser : payload.uid = userId
      · rw [if_neg (not_not.mpr huser), downloadTarget_eq, Program.bind_eq, Program.run_bind] at h
        cases hrun : (download P crates.mimeFromFilename (payloadKey unlockState payload) (payloadRoot config payload)
            payload.path).run (fsHandler request.oracle) request.disk with
        | mk result disk' =>
            rw [hrun] at h
            cases result with
            | error e => cases h
            | ok downloaded =>
                obtain ⟨⟨key, stored, hkey, hleads, hread⟩, hchecksum⟩ := download_reads (congrArg Prod.fst hrun)
                dsimp only at h
                by_cases hrange : chunksOf config downloaded.data ≤ index
                · rw [if_pos (by exact hrange)] at h
                  cases h
                · rw [if_neg (by exact hrange)] at h
                  cases h
                  exact ⟨downloaded.data, ⟨payload, key, stored, hverify, hkey, hleads, hread⟩, hchecksum, rfl, rfl,
                    Nat.lt_of_not_le hrange, rfl⟩
      · rw [if_pos huser] at h
        cases h

/-- The token alone decides what it stands for; the time decides only whether it still does. -/
theorem verify_payload_unique {secret : String} {now now' : Int} {payload payload' : DownloadTokenPayload}
    (h : verifyDownloadToken tokens secret now token = .ok payload)
    (h' : verifyDownloadToken tokens secret now' token = .ok payload') : payload = payload' := by
  obtain ⟨_, _, _, bytes, fields, hquery, -, -, hbase, hjson, rfl, -⟩ := verifyDownloadToken_eq_ok.mp h
  obtain ⟨_, _, _, bytes', fields', hquery', -, -, hbase', hjson', rfl, -⟩ := verifyDownloadToken_eq_ok.mp h'
  cases hquery.symm.trans hquery'
  cases hbase.symm.trans hbase'
  cases hjson.symm.trans hjson'
  rfl

/-- Past the last chunk of a version there is nothing to serve. -/
theorem serve_out_of_range {request : ChunkRequest} {version : Bytes} {index : Nat}
    (hversion : IsVersion tokens config P unlockState token request version)
    (hindex : chunksOf config version ≤ index) :
    ∃ error, request.serve crates tokens config P unlockState userId token index = .error error := by
  cases hserve : request.serve crates tokens config P unlockState userId token index with
  | error error => exact ⟨error, rfl⟩
  | ok served =>
      obtain ⟨found, hfound, -, -, -, hrange, -⟩ := serve_cuts hserve
      rw [hversion.unique hfound] at hindex
      omega

/-- Without faults, and for the user of the token, the answer says so. -/
theorem serve_out_of_range_quiet {request : ChunkRequest} (hquiet : QuietOracle request.oracle) {version : Bytes}
    {index : Nat} {payload : DownloadTokenPayload} {now : Int}
    (hverify : verifyDownloadToken tokens config.secretKey now token = .ok payload) (huser : payload.uid = userId)
    (hversion : IsVersion tokens config P unlockState token request version)
    (hindex : chunksOf config version ≤ index) :
    request.serve crates tokens config P unlockState userId token index =
      .error (.validation "chunk_index out of range.") := by
  obtain ⟨payload', key, stored, hverify', hkey, hleads, hread⟩ := hversion
  cases verify_payload_unique hverify hverify'
  obtain ⟨downloaded, hdownload, hdata⟩ := download_stops hquiet hleads crates.mimeFromFilename hread
  rw [ChunkRequest.serve, serveChunk, hverify', Program.ofExcept_ok, Program.bind_eq, Program.done_bind,
    if_neg (not_not.mpr huser), downloadTarget_eq, hkey]
  have hstops := hdownload.bind (f := fun found => if chunksOf config found.data ≤ index then
      (Program.fail (.validation "chunk_index out of range.") : FsProgram ChunkDownloadResult)
    else Program.done ⟨chunkOf config found.data index, found.mimeType, found.checksumSha256, index,
      chunksOf config found.data, found.data.length⟩) (by
        rw [hdata, if_pos hindex]
        exact Program.stops_fail _ _)
  exact (run_of_stops hquiet hstops).1

/-! ### The chunks of one version -/

/-- As many chunks as can be counted hold the version, and each of them starts within it. -/
theorem chunksOf_bounds {version : Bytes} (hchunk : 1 ≤ config.chunkSizeBytes)
    (hsmall : version.length ≤ config.chunkSizeBytes * (2 ^ 32 - 1)) :
    version.length ≤ chunksOf config version * config.chunkSizeBytes ∧
      ∀ i < chunksOf config version, i * config.chunkSizeBytes < max version.length 1 := by
  have hpos : 1 ≤ max version.length 1 := le_max_right _ _
  have hmax : max version.length 1 ≤ config.chunkSizeBytes * (2 ^ 32 - 1) := by
    rw [max_le_iff]
    exact ⟨hsmall, by omega⟩
  have hsplit := Nat.div_add_mod (max version.length 1 + config.chunkSizeBytes - 1) config.chunkSizeBytes
  have hrest := Nat.mod_lt (max version.length 1 + config.chunkSizeBytes - 1) hchunk
  have hfits : (max version.length 1 + config.chunkSizeBytes - 1) / config.chunkSizeBytes < 2 ^ 32 :=
    Nat.div_lt_of_lt_mul (by omega)
  have hcount : chunksOf config version =
      (max version.length 1 + config.chunkSizeBytes - 1) / config.chunkSizeBytes := by
    rw [chunksOf, expectedTotalChunks, if_neg (by omega), Nat.mod_eq_of_lt hfits]
  rw [← hcount, Nat.mul_comm] at hsplit
  refine ⟨?_, fun i hi => ?_⟩
  · have := le_max_left version.length 1
    omega
  · have hnext := Nat.mul_le_mul_right config.chunkSizeBytes (Nat.succ_le_of_lt hi)
    rw [Nat.succ_mul] at hnext
    omega

/-- The chunks of a version, in index order, are the version. -/
theorem flatMap_chunkOf {version : Bytes} (hchunk : 1 ≤ config.chunkSizeBytes)
    (hsmall : version.length ≤ config.chunkSizeBytes * (2 ^ 32 - 1)) (hlen : version.length < 2 ^ 63) :
    ((List.range (chunksOf config version)).flatMap (chunkOf config version)) = version := by
  obtain ⟨hcover, hstart⟩ := chunksOf_bounds hchunk hsmall
  have hplain : ∀ i ∈ List.range (chunksOf config version), chunkOf config version i =
      slice version (i * config.chunkSizeBytes) (i * config.chunkSizeBytes + config.chunkSizeBytes) := by
    intro i hi
    have hless := hstart i (List.mem_range.mp hi)
    have hmin : min (i * config.chunkSizeBytes) u64Max = i * config.chunkSizeBytes := by
      rw [Nat.min_eq_left]
      unfold u64Max
      omega
    rw [chunkOf, hmin, slice_min_length]
  rw [List.flatMap_congr hplain, flatMap_slices, List.take_of_length_le hcover]

/-- A chunked download reassembles one version: whatever happens to the file between the requests, if the responses
under one token carry the same checksum and length, and their number is the one they name, then their data in index
order is a version of the file that was there at one of the requests, and has that checksum. Indexes past the last
one are rejected. The hash tells the versions apart that were read, and a vector holds less than `2 ^ 63` bytes. -/
theorem chunked_download_reassembles (crates : Crates) (tokens : TokenCrates) (config : AppConfig) (P : Primitives)
    (unlockState : UnlockState) (userId token : String) (hchunk : 1 ≤ config.chunkSizeBytes)
    (requests : Nat → ChunkRequest) (n : Nat) (hn : 0 < n) (served : Nat → ChunkDownloadResult)
    (hserved : ∀ i < n, (requests i).serve crates tokens config P unlockState userId token i = .ok (served i))
    (checksum : String) (totalBytes : Nat)
    (hsame : ∀ i < n, (served i).checksumSha256 = checksum ∧ (served i).totalBytes = totalBytes ∧
      (served i).totalChunks = n)
    (hsize : ∀ i < n, ∀ version, IsVersion tokens config P unlockState token (requests i) version →
      version.length ≤ config.chunkSizeBytes * (2 ^ 32 - 1) ∧ version.length < 2 ^ 63)
    (hinj : Set.InjOn P.sha256
      {version | ∃ i < n, IsVersion tokens config P unlockState token (requests i) version}) :
    ∃ version, (∃ i < n, IsVersion tokens config P unlockState token (requests i) version) ∧
      hexEncode (P.sha256 version).val = checksum ∧ version.length = totalBytes ∧
      ((List.range n).flatMap fun i => (served i).data) = version ∧
      ∀ (request : ChunkRequest) (index : Nat), IsVersion tokens config P unlockState token request version →
        n ≤ index → ∃ error, request.serve crates tokens config P unlockState userId token index = .error error ∧
          (QuietOracle request.oracle → error = .validation "chunk_index out of range.") := by
  obtain ⟨version, hversion, hchecksum, htotal, hchunks, -, -⟩ := serve_cuts (hserved 0 hn)
  rw [(hsame 0 hn).1] at hchecksum
  rw [(hsame 0 hn).2.1] at htotal
  rw [(hsame 0 hn).2.2] at hchunks
  obtain ⟨hsmall, hlen⟩ := hsize 0 hn version hversion
  have hdata : ∀ i ∈ List.range n, (served i).data = chunkOf config version i := by
    intro i hi
    have hi := List.mem_range.mp hi
    obtain ⟨other, hother, hsum, -, -, -, hcut⟩ := serve_cuts (hserved i hi)
    rw [(hsame i hi).1, hchecksum] at hsum
    have hhash : P.sha256 version = P.sha256 other := Subtype.ext (hexEncode_injective hsum)
    rw [hcut, hinj ⟨0, hn, hversion⟩ ⟨i, hi, hother⟩ hhash]
  refine ⟨version, ⟨0, hn, hversion⟩, hchecksum.symm, htotal.symm, ?_, fun request index hrequest hindex => ?_⟩
  · rw [List.flatMap_congr hdata, hchunks]
    exact flatMap_chunkOf hchunk hsmall hlen
  · rw [hchunks] at hindex
    have hrejected : ∃ error, request.serve crates tokens config P unlockState userId token index = .error error :=
      serve_out_of_range hrequest hindex
    obtain ⟨error, herror⟩ := hrejected
    refine ⟨error, herror, fun hquiet => ?_⟩
    obtain ⟨payload, hverify, huser⟩ := serveChunk_user (hserved 0 hn)
    rw [serve_out_of_range_quiet hquiet hverify huser hrequest hindex] at herror
    exact (Except.error.inj herror).symm

def wholeBuild : BuildCall where
  secret := "secret"
  now := 0
  nonce := "n"
  userId := "u"
  targetId := "l"
  targetType := "library"
  path := "docs/b"

def wholeRequest : ChunkRequest := ⟨5, calmOracle, wholeServer.1⟩

def wholeServed (index : Nat) : ChunkDownloadResult :=
  ⟨if index = 0 then [5] else [6], none, hexEncode (lengthHash [5, 6]).val, index, 2, 2⟩

theorem wholeServed_served {token : String}
    (hverify : verifyDownloadToken sampleTokens sampleConfig.secretKey 5 token = .ok wholeBuild.payload) :
    ∀ i < 2, wholeRequest.serve sampleCrates sampleTokens sampleConfig plainPrimitives sampleUnlocked "u" token i =
      .ok (wholeServed i) := by
  intro i hi
  simp only [ChunkRequest.serve, wholeRequest, serveChunk]
  rw [hverify]
  have hcases : i = 0 ∨ i = 1 := by omega
  rcases hcases with rfl | rfl
  · decide +kernel
  · decide +kernel

theorem chunked_download_reassembles_whole : ∃ token,
    (∀ i < 2, wholeRequest.serve sampleCrates sampleTokens sampleConfig plainPrimitives sampleUnlocked "u" token i =
      .ok (wholeServed i)) ∧
    ∃ version,
      (∃ i < 2, IsVersion sampleTokens sampleConfig plainPrimitives sampleUnlocked token wholeRequest version) ∧
      hexEncode (plainPrimitives.sha256 version).val = hexEncode (lengthHash [5, 6]).val ∧ version.length = 2 ∧
      ((List.range 2).flatMap fun i => (wholeServed i).data) = version ∧
      ∀ (request : ChunkRequest) (index : Nat),
        IsVersion sampleTokens sampleConfig plainPrimitives sampleUnlocked token request version → 2 ≤ index →
          ∃ error, request.serve sampleCrates sampleTokens sampleConfig plainPrimitives sampleUnlocked "u" token index =
              .error error ∧
            (QuietOracle request.oracle → error = .validation "chunk_index out of range.") := by
  obtain ⟨token, expiresAt, -, hlive⟩ := build_verifies sampleCrates sampleTokens_lawful wholeBuild
  have hserved := wholeServed_served (hlive 5 (by decide))
  obtain ⟨first, hfirst, -, hlength, -⟩ := serve_cuts (hserved 0 (by decide))
  refine ⟨token, hserved, chunked_download_reassembles sampleCrates sampleTokens sampleConfig plainPrimitives
    sampleUnlocked "u" token (by decide) (fun _ => wholeRequest) 2 (by decide) wholeServed hserved _ 2
    (fun i _ => ⟨rfl, rfl, rfl⟩) (fun i _ version hversion => ?_) ?_⟩
  · have htwo : (2 : Nat) = first.length := hlength
    rw [hversion.unique hfirst, ← htwo]
    decide
  · rintro version ⟨_, _, hversion⟩ other ⟨_, _, hother⟩ -
    exact hversion.unique hother

end ChunkService

end IronDrive
