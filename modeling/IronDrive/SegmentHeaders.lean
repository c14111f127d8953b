import Mathlib.Algebra.Order.BigOperators.Group.List
import Mathlib.Algebra.Order.Group.Nat
import IronDrive.ChunkPlan
import IronDrive.ChunkResend

/-! The length in front of each segment of a completed upload. The writer casts the length of the ciphertext to 32 bits
and the hash covers the cast bytes, so a segment that does not fit is stored behind the header of another length, and
no check of the writer's notices. -/

namespace IronDrive

open Lib FileTree CryptoService FsService

namespace ChunkService

variable {crates : Crates} {config : AppConfig} {row : ChunkedUpload} {start : FileTree}
  {files : List (Nat × Bytes)} {v : FileTree × List ChunkedUpload} {P : Primitives}

/-- Where the header of the segment after these is. -/
def headerAt (before : List Bytes) : Nat := magicLen + streamNonceLen + (before.flatMap frame).length

/-- Every segment follows a header that reads as its length. -/
def HeadersTell (file : Bytes) (segments : List Bytes) : Prop :=
  ∀ before segment after, segments = before ++ segment :: after →
    ofLe32 (slice file (headerAt before) (headerAt before + streamSegmentHeaderLen)) = segment.length ∧
      slice file (headerAt before + streamSegmentHeaderLen)
        (headerAt before + streamSegmentHeaderLen + segment.length) = segment

/-- What is stored for a segment: the length cut to 32 bits, and the whole of it. -/
theorem slice_segment (P : Primitives) (nonce : FixedBytes 7) (before : List Bytes) (segment : Bytes)
    (after : List Bytes) :
    slice (withHash P (streamContent nonce (before ++ segment :: after))) (headerAt before)
        (headerAt before + streamSegmentHeaderLen) = le32 segment.length ∧
      slice (withHash P (streamContent nonce (before ++ segment :: after)))
        (headerAt before + streamSegmentHeaderLen) (headerAt before + streamSegmentHeaderLen + segment.length) =
          segment := by
  set content := streamContent nonce (before ++ segment :: after) with hcontent
  have hfile : withHash P content = streamHeader nonce ++ before.flatMap frame ++ le32 segment.length ++
      (segment ++ (after.flatMap frame ++ (P.sha256 content).val)) := by
    rw [withHash, hcontent, streamContent]
    simp [frame, List.append_assoc]
  have hat : headerAt before = (streamHeader nonce ++ before.flatMap frame).length := by
    simp [headerAt, magicLen, streamNonceLen]
  constructor
  · rw [hfile]
    exact slice_append_middle _ _ _ hat (by rw [hat]; rfl)
  · rw [hfile, ← List.append_assoc _ segment]
    have hbody : headerAt before + streamSegmentHeaderLen =
        (streamHeader nonce ++ before.flatMap frame ++ le32 segment.length).length := by
      rw [List.length_append, ← hat]
      rfl
    exact slice_append_middle _ _ _ hbody (by rw [hbody])

/-- The headers tell the lengths exactly when these fit 32 bits. -/
theorem headersTell_iff (P : Primitives) (nonce : FixedBytes 7) (segments : List Bytes) :
    HeadersTell (withHash P (streamContent nonce segments)) segments ↔
      ∀ segment ∈ segments, segment.length < 2 ^ 32 := by
  constructor
  · intro htell segment hmem
    obtain ⟨before, after, rfl⟩ := List.append_of_mem hmem
    obtain ⟨hheader, -⟩ := htell before segment after rfl
    rw [(slice_segment P nonce before segment after).1, ofLe32_le32] at hheader
    omega
  · rintro hshort before segment after rfl
    obtain ⟨hheader, hbody⟩ := slice_segment P nonce before segment after
    refine ⟨?_, hbody⟩
    rw [hheader]
    exact ofLe32_le32_of_lt (hshort segment (by simp))

/-- Nothing that is at most something else in every place has the same sum, unless it is the same in every place. -/
theorem map_eq_of_sum_eq {α : Type} {f g : α → Nat} {l : List α} (hle : ∀ a ∈ l, f a ≤ g a)
    (hsum : (l.map f).sum = (l.map g).sum) : l.map f = l.map g := by
  refine List.map_congr_left fun a ha => ?_
  by_contra hne
  have hlt := List.sum_lt_sum f g hle ⟨a, ha, lt_of_le_of_ne (hle a ha) hne⟩
  exact absurd hsum hlt.ne

/-- Staged chunks that are together as long as the session says have the lengths it expects. -/
theorem stagedChunks_lengths (h : Collected config row start files v)
    (hwithin : ∀ entry ∈ files, ChunkWithin config row entry)
    (htotal : (stagedChunks config row v.1).flatten.length = toU64 row.totalBytes)
    (hsum : (chunkLens config.chunkSizeBytes (toU32 row.totalChunks) (toU64 row.totalBytes)).sum =
      toU64 row.totalBytes) :
    (stagedChunks config row v.1).map List.length =
      chunkLens config.chunkSizeBytes (toU32 row.totalChunks) (toU64 row.totalBytes) := by
  rw [stagedChunks, List.map_map]
  refine map_eq_of_sum_eq (fun i _ => ?_) ?_
  · show (stagedBytes config row v.1 i).length ≤ _
    rw [stagedBytes_eq h]
    cases hlookup : files.lookup i with
    | none => exact Nat.zero_le _
    | some data =>
        obtain ⟨front, back, rfl, -⟩ := List.lookup_eq_some_iff.mp hlookup
        exact (hwithin (i, data) (by simp)).2
  · rw [List.length_flatten, stagedChunks, List.map_map] at htotal
    exact htotal.trans hsum.symm

/-- The number of chunks of a session that was opened leaves something for the last. -/
theorem sum_chunkLens {params : InitUploadParams} (hcheck : checkInitUpload config params = .ok ())
    (hbytes : params.totalBytes < 2 ^ 64) :
    (chunkLens config.chunkSizeBytes params.totalChunks params.totalBytes).sum = params.totalBytes := by
  obtain ⟨hsmall, -, htotal⟩ := checkInitUpload_ok hcheck
  have hsome := checkInitUpload_pos hcheck
  rw [htotal] at hsome ⊢
  have hcut : expectedTotalChunks params.totalBytes config.chunkSizeBytes =
      (params.totalBytes + config.chunkSizeBytes - 1) / config.chunkSizeBytes % 2 ^ 32 := by
    rw [expectedTotalChunks, if_neg (by omega)]
  have hchunk : 0 < config.chunkSizeBytes := by
    refine Nat.pos_of_ne_zero fun hzero => ?_
    rw [hcut, hzero, Nat.div_zero] at hsome
    exact absurd hsome (by decide)
  obtain ⟨k, hk, hlow, -⟩ := needed_bounds hchunk hsmall
  obtain ⟨j, hj⟩ : ∃ j, expectedTotalChunks params.totalBytes config.chunkSizeBytes = j + 1 :=
    ⟨expectedTotalChunks params.totalBytes config.chunkSizeBytes - 1, by omega⟩
  have hfewer : j ≤ k := by
    have := Nat.mod_le ((params.totalBytes + config.chunkSizeBytes - 1) / config.chunkSizeBytes) (2 ^ 32)
    omega
  rw [hj]
  exact sum_expectedChunkLen ((Nat.mul_le_mul_left _ hfewer).trans hlow.le) hbytes

/-! ### A completed upload -/

/-- Only a session's owner can complete it, and only until it expires. -/
theorem completeUpload_admits {unlockState : UnlockState} (h : Collected config row start files v) {session : Session}
    (hid : session.uploadId = row.id) {now : Int} {nonce : FixedBytes 7} {writeVerify : Bool} :
    (completeUpload crates config P unlockState now nonce session writeVerify).Ensures ServerQuietly v
      fun result _ => ∀ upload, result = .ok upload →
        session.Owns row ∧ isExpired crates now row.expiresAt = false := by
  obtain ⟨t, rows⟩ := v
  refine Program.Ensures.bind (requireSession_returns t rows now session) ?_ ?_
  · intro found v' hfound
    obtain ⟨-, hrow⟩ := hfound
    obtain ⟨hload, huser, htarget, hdate⟩ := hrow found rfl
    have hmem := List.mem_of_find?_eq_some hload
    have hkeys := List.find?_some hload
    simp only [Bool.and_eq_true, decide_eq_true_eq] at hkeys
    obtain ⟨n, rfl⟩ := h.only found hmem (hkeys.1.trans hid)
    exact Program.Ensures.mono (Program.ensures_true _ _) fun _ _ _ _ _ => ⟨⟨huser, htarget, hkeys.2⟩, hdate⟩
  · intro error v' _ upload hupload
    cases hupload

/-- What a completed upload leaves is the staged chunks, each sealed and behind a header; the headers tell the truth,
and the file decrypts to the chunks, exactly when no chunk of the session is longer than a header can say, its tag
included. This holds for every chunk size, after any calls under any faults, with or without verification. -/
theorem segment_headers_tell_iff (P : Primitives) (hP : P.Lawful) (crates : Crates) (config : AppConfig)
    (hmax : config.maxUploadBytes < 2 ^ 64) (unlockState : UnlockState) (quiet : Nat → Choice)
    (hquiet : QuietOracle quiet) (server started : Server) (uploadId : String)
    (hfresh : FreshUpload crates config server uploadId) (opened : Int) (params : InitUploadParams)
    (info : InitUploadResult)
    (hopen : (initUpload crates config uploadId opened params).run (quietHandler quiet) server = (.ok info, started))
    (oracle : Nat → Choice) (dbOracle : Nat → Option String) (calls : List ReceiveCall)
    (hcalls : ∀ call ∈ calls, call.session.uploadId = uploadId) (received : Server)
    (hreceived : received = (receiveAll crates config (serverHandler oracle dbOracle) calls started).2)
    (key : DataKey) (target : Path)
    (htarget : Writable config unlockState quiet server.1 (newUploadRow uploadId info.expiresAt params) key target)
    (now : Int) (nonce : FixedBytes 7) (session : Session) (hsession : session.uploadId = uploadId)
    (writeVerify : Bool) (upload : UploadResult) (completed : Server)
    (hcomplete : (completeUpload crates config P unlockState now nonce session writeVerify).run (quietHandler quiet)
      received = (.ok upload, completed)) :
    ∃ segments,
      sealSegments P (EncryptorBE32.new key nonce)
        (stagedChunks config (newUploadRow uploadId info.expiresAt params) received.1.tree) = some segments ∧
      completed.1.tree.fileAt target = .ok (target, withHash P (streamContent nonce segments)) ∧
      ((HeadersTell (withHash P (streamContent nonce segments)) segments ∧
          ((readAndDecryptFile P key target).run (fsHandler quiet) completed.1).1 =
            .ok (stagedChunks config (newUploadRow uploadId info.expiresAt params) received.1.tree).flatten) ↔
        ∀ len ∈ chunkLens config.chunkSizeBytes params.totalChunks params.totalBytes, len + 16 < 2 ^ 32) := by
  obtain ⟨hcheck, hstart⟩ := server_returns_of_ensures hquiet hopen (initUpload_ensures hfresh opened params) info rfl
  have hbytes : params.totalBytes < 2 ^ 64 := (checkInitUpload_ok hcheck).2.1.trans_lt hmax
  obtain ⟨hrowChunks, hrowBytes⟩ := newUploadRow_reads hcheck hmax uploadId info.expiresAt
  -- The chunks in the staging area.
  obtain ⟨files, hfiles, hwithin⟩ : ∃ files, Collected config (newUploadRow uploadId info.expiresAt params)
      server.1.tree files (receiveAll crates config (serverHandler oracle dbOracle) calls started).2.view ∧ _ :=
    receiveAll_faulty hfresh.parses calls hcalls hstart.collected (by simp)
  rw [← hreceived] at hfiles
  -- What the completion makes of them.
  obtain ⟨howns, hdate⟩ := server_returns_of_ensures hquiet hcomplete (completeUpload_admits hfiles hsession) upload rfl
  obtain ⟨hstaged, segments, hseal, hfile⟩ := server_returns_of_ensures hquiet hcomplete
    (completeUpload_stores hquiet htarget hfresh.no_dir hfiles hfresh.parses hsession howns hdate nonce writeVerify)
    upload rfl
  have hlens := stagedChunks_lengths hfiles hwithin hstaged (by
    rw [hrowChunks, hrowBytes]
    exact sum_chunkLens hcheck hbytes)
  rw [hrowChunks, hrowBytes] at hlens
  have hshort : (∀ len ∈ chunkLens config.chunkSizeBytes params.totalChunks params.totalBytes, len + 16 < 2 ^ 32) ↔
      ∀ chunk ∈ stagedChunks config (newUploadRow uploadId info.expiresAt params) received.1.tree,
        chunk.length + 16 < 2 ^ 32 := by
    rw [← hlens]
    exact List.forall_mem_map
  refine ⟨segments, hseal, hfile, ?_⟩
  rw [hshort, (run_of_stops hquiet (readAndDecryptFile_stops hfile key)).1, (readBytes_stream P key nonce segments).2,
    headersTell_iff, sealSegments_length hP hseal]
  exact ⟨And.left, fun hfit => ⟨hfit, streamDecryptBytes_streamContent hP hseal hfit⟩⟩

/-- The file of two bytes, uploaded backwards, with verification. -/
theorem segment_headers_tell_iff_backwards :
    ∃ received upload completed segments,
      (completeUpload sampleCrates sampleConfig plainPrimitives sampleUnlocked (-1) ⟨List.replicate 7 0, by simp⟩
        twoBytesSession true).run (quietHandler calmOracle) received = (.ok upload, completed) ∧
      sealSegments plainPrimitives (EncryptorBE32.new zeroKey ⟨List.replicate 7 0, by simp⟩)
        (stagedChunks sampleConfig (newUploadRow "u" "" twoBytes) received.1.tree) = some segments ∧
      completed.1.tree.fileAt ["libraries", "l", "docs", "b"] = .ok (["libraries", "l", "docs", "b"],
        withHash plainPrimitives (streamContent ⟨List.replicate 7 0, by simp⟩ segments)) ∧
      ((HeadersTell (withHash plainPrimitives (streamContent ⟨List.replicate 7 0, by simp⟩ segments)) segments ∧
          ((readAndDecryptFile plainPrimitives zeroKey ["libraries", "l", "docs", "b"]).run (fsHandler calmOracle)
            completed.1).1 = .ok (stagedChunks sampleConfig (newUploadRow "u" "" twoBytes) received.1.tree).flatten) ↔
        ∀ len ∈ chunkLens 1 2 2, len + 16 < 2 ^ 32) := by
  have hresult : ((completeUpload sampleCrates sampleConfig plainPrimitives sampleUnlocked (-1)
      ⟨List.replicate 7 0, by simp⟩ twoBytesSession true).run (quietHandler calmOracle)
        (receiveAll sampleCrates sampleConfig (quietHandler calmOracle) backwards startedServer).2).1 =
      .ok ⟨"docs/b", 2, 84, "", none⟩ := by decide +kernel
  generalize hcomplete : (completeUpload sampleCrates sampleConfig plainPrimitives sampleUnlocked (-1)
      ⟨List.replicate 7 0, by simp⟩ twoBytesSession true).run (quietHandler calmOracle)
        (receiveAll sampleCrates sampleConfig (quietHandler calmOracle) backwards startedServer).2 = outcome at hresult
  obtain ⟨result, completed⟩ := outcome
  cases hresult
  obtain ⟨segments, hsegments⟩ := segment_headers_tell_iff plainPrimitives plainPrimitives_lawful sampleCrates
    sampleConfig (by decide) sampleUnlocked calmOracle calmOracle_quiet emptyServer startedServer "u"
    emptyServer_fresh (-2) twoBytes ⟨"u", 1, 2, 2, ""⟩ (Prod.ext (by decide) rfl)
    calmOracle (fun _ => none) backwards (by decide) _ rfl
    zeroKey ["libraries", "l", "docs", "b"] (emptyServer_writable rfl rfl rfl)
    (-1) ⟨List.replicate 7 0, by simp⟩ twoBytesSession rfl true _ _ hcomplete
  exact ⟨_, _, _, segments, hcomplete, hsegments⟩

/-- Calls of the owner that fit, one for each index, are all accepted. -/
theorem receiveAll_accepts {oracle : Nat → Choice} (hquiet : QuietOracle oracle)
    (huuid : crates.uuidParses row.id = true) (calls : List ReceiveCall)
    (hcalls : ∀ call ∈ calls, call.session.uploadId = row.id ∧ isExpired crates call.now row.expiresAt = false ∧
      call.session.Owns row ∧ ChunkFits config row (call.chunkIndex, call.data)) :
    ∀ {accepted : List (Nat × Bytes)} {server : Server}, Collected config row start accepted server.view →
      (accepted.map Prod.fst ++ calls.map ReceiveCall.chunkIndex).Nodup →
      ∃ received, receiveAll crates config (quietHandler oracle) calls server =
          (calls.map fun call => (call.chunkIndex, call.data), received) ∧
        Collected config row start (accepted ++ calls.map fun call => (call.chunkIndex, call.data)) received.view := by
  induction calls with
  | nil =>
      intro accepted server h _
      exact ⟨server, rfl, by simpa using h⟩
  | cons call calls ih =>
      intro accepted server h hnodup
      obtain ⟨hid, hdate, howns, hfits⟩ := hcalls call (List.mem_cons_self ..)
      have hnew : accepted.lookup call.chunkIndex = none := by
        rw [List.lookup_eq_none_iff]
        intro entry hentry
        have hne := (List.nodup_append.mp hnodup).2.2 entry.1 (List.mem_map_of_mem hentry) call.chunkIndex (by simp)
        simpa using hne.symm
      obtain ⟨⟨result, hresult⟩, hcollected⟩ := server_run_of_ensures hquiet
        (receiveChunk_accepts h huuid hid hdate howns hfits hnew)
      obtain ⟨received, hrest, hfinal⟩ := ih (fun other hother => hcalls other (List.mem_cons_of_mem _ hother))
        hcollected (by simpa [List.append_assoc] using hnodup)
      refine ⟨received, ?_, by simpa [List.append_assoc] using hfinal⟩
      rw [receiveAll]
      generalize (receiveChunk crates config call.now call.session call.chunkIndex call.data).run (quietHandler oracle)
        server = outcome at hresult hrest
      obtain ⟨found, server'⟩ := outcome
      cases hresult
      dsimp only at hrest ⊢
      rw [hrest]
      rfl

theorem openSegments_nil_cons (d : DecryptorBE32) (rest : List Bytes) :
    openSegments plainPrimitives d ([] :: rest) = none := by
  have hopen : untag d.key [] = none := by
    have hne : ([] : Bytes) ≠ (keyTag d.key).val := by
      intro heq
      have hlen := congrArg List.length heq
      rw [(keyTag d.key).property] at hlen
      cases hlen
    rw [untag, List.drop_nil, if_neg hne]
  rw [openSegments]
  split
  · exact hopen
  · simp [DecryptorBE32.decryptNext, plainPrimitives, hopen]

/-- A segment of 4 GiB stands behind a zero, and the file does not decrypt. -/
theorem readBytes_of_wrapped (key : DataKey) (nonce : FixedBytes 7) {segment : Bytes}
    (hlen : segment.length = 2 ^ 32) (rest : List Bytes) :
    ∃ error, readBytes plainPrimitives key (withHash plainPrimitives (streamContent nonce (segment :: rest))) =
      .error error := by
  rw [(readBytes_stream _ _ _ _).2]
  have hzero : segLenAt (withHash plainPrimitives (streamContent nonce (segment :: rest))) 10 = 0 := by
    rw [segLenAt]
    have hheader := (slice_segment plainPrimitives nonce [] segment rest).1
    rw [hlen] at hheader
    exact (congrArg ofLe32 hheader).trans (ofLe32_le32 _)
  generalize hfile : withHash plainPrimitives (streamContent nonce (segment :: rest)) = file at hzero
  cases hread : streamDecryptBytes plainPrimitives key file with
  | error error => exact ⟨error, rfl⟩
  | ok plaintext =>
      obtain ⟨-, -, -, segments, hframes, hopen⟩ := (streamDecryptBytes_eq_ok _ _).mp hread
      rcases frames_cases hframes with ⟨hshort, -, -⟩ | ⟨-, -, segments', -, rfl⟩
      · rw [← hfile, withHash_length, streamContent, List.length_append, streamHeader_length, List.flatMap_cons,
          List.length_append, frame_length] at hshort
        omega
      · have hempty : segmentAt file 10 = [] := by
          rw [segmentAt, hzero, slice, Nat.add_zero, Nat.sub_self, List.take_zero]
        rw [hempty, openSegments_nil_cons] at hopen
        cases hopen

/-- Chunks that need 2^32 bytes when they are sealed. -/
def hugeConfig : AppConfig := { sampleConfig with chunkSizeBytes := 2 ^ 32 - 16, maxUploadBytes := 2 ^ 33 }

/-- A file of such a chunk and one byte more. -/
def hugeFile : InitUploadParams := { twoBytes with totalBytes := 2 ^ 32 - 15 }

def hugeCalls (first : Bytes) : List ReceiveCall :=
  [⟨-1, twoBytesSession, 0, first⟩, ⟨-1, twoBytesSession, 1, [7]⟩]

theorem hugeConfig_fresh : FreshUpload sampleCrates hugeConfig emptyServer "u" :=
  ⟨by decide, by simp [Ordinary], resolved_of_node (n := .dir)
    (by simp [Ordinary, AppConfig.chunksDir, hugeConfig, sampleConfig]) (by decide) (by simp), by decide, by decide,
    by decide⟩

theorem hugeFile_writable :
    Writable hugeConfig sampleUnlocked calmOracle emptyServer.1 (newUploadRow "u" "" hugeFile) zeroKey
      ["libraries", "l", "docs", "b"] :=
  ⟨rfl, by decide, by decide, by
    intro canonicalRoot hroot
    have hplace : emptyServer.1.tree.canonicalize ["libraries", "l"] = .ok ["libraries", "l"] := by decide
    cases hplace.symm.trans hroot
    decide⟩

/-- Such a file is accepted, chunk by chunk and as a whole, and cannot be read. -/
def CompletesUnread (first : Bytes) (writeVerify : Bool) : Prop :=
  ∃ started received upload completed segments,
    (initUpload sampleCrates hugeConfig "u" (-2) hugeFile).run (quietHandler calmOracle) emptyServer =
      (.ok ⟨"u", 2 ^ 32 - 16, 2, 2 ^ 32 - 15, ""⟩, started) ∧
    receiveAll sampleCrates hugeConfig (quietHandler calmOracle) (hugeCalls first) started =
      ([(0, first), (1, [7])], received) ∧
    (completeUpload sampleCrates hugeConfig plainPrimitives sampleUnlocked (-1) ⟨List.replicate 7 0, seven_zeros⟩
      twoBytesSession writeVerify).run (quietHandler calmOracle) received = (.ok upload, completed) ∧
    completed.1.tree.fileAt ["libraries", "l", "docs", "b"] = .ok (["libraries", "l", "docs", "b"],
      withHash plainPrimitives (streamContent ⟨List.replicate 7 0, seven_zeros⟩ segments)) ∧
    ¬HeadersTell (withHash plainPrimitives (streamContent ⟨List.replicate 7 0, seven_zeros⟩ segments)) segments ∧
    ∃ error, ((readAndDecryptFile plainPrimitives zeroKey ["libraries", "l", "docs", "b"]).run
      (fsHandler calmOracle) completed.1).1 = .error error

theorem huge_completes {first : Bytes} (hfirst : first.length = 2 ^ 32 - 16) (writeVerify : Bool) :
    CompletesUnread first writeVerify := by
  unfold CompletesUnread
  have hresult : ((initUpload sampleCrates hugeConfig "u" (-2) hugeFile).run (quietHandler calmOracle)
    emptyServer).1 = .ok ⟨"u", 2 ^ 32 - 16, 2, 2 ^ 32 - 15, ""⟩ := by decide
  generalize hopen : (initUpload sampleCrates hugeConfig "u" (-2) hugeFile).run (quietHandler calmOracle)
    emptyServer = opened at hresult
  obtain ⟨result, started⟩ := opened
  cases hresult
  obtain ⟨-, hstart⟩ := server_returns_of_ensures calmOracle_quiet hopen
    (initUpload_ensures hugeConfig_fresh (-2) hugeFile) _ rfl
  have howns : twoBytesSession.Owns (newUploadRow "u" "" hugeFile) := ⟨rfl, rfl, rfl⟩
  -- The two chunks are accepted.
  have hcalls : ∀ call ∈ hugeCalls first, call.session.uploadId = "u" ∧ isExpired sampleCrates call.now "" = false ∧
      call.session.Owns (newUploadRow "u" "" hugeFile) ∧
      ChunkFits hugeConfig (newUploadRow "u" "" hugeFile) (call.chunkIndex, call.data) := by
    intro call hcall
    rcases List.mem_pair.mp hcall with rfl | rfl
    · exact ⟨rfl, rfl, howns, (by decide : 0 < toU32 (newUploadRow "u" "" hugeFile).totalChunks), hfirst⟩
    · exact ⟨rfl, by decide, howns, by decide, by decide⟩
  obtain ⟨received, hreceived, hcollected⟩ : ∃ received,
      receiveAll sampleCrates hugeConfig (quietHandler calmOracle) (hugeCalls first) started =
        ([(0, first), (1, [7])], received) ∧
      Collected hugeConfig (newUploadRow "u" "" hugeFile) emptyServer.1.tree [(0, first), (1, [7])] received.view :=
    receiveAll_accepts calmOracle_quiet hugeConfig_fresh.parses (hugeCalls first) hcalls hstart.collected
      (by simp [hugeCalls])
  have hchunks : toU32 (newUploadRow "u" "" hugeFile).totalChunks = 2 := by decide
  have hpayloads : payloads [(0, first), (1, [7])] (toU32 (newUploadRow "u" "" hugeFile).totalChunks) =
      [first, [7]] := by
    rw [hchunks]
    rfl
  have hall : AllAccepted (newUploadRow "u" "" hugeFile) [(0, first), (1, [7])] := by
    intro i hi
    have hcases : i = 0 ∨ i = 1 := by omega
    rcases hcases with rfl | rfl
    · exact Option.some_ne_none _
    · exact Option.some_ne_none _
  have hbytes : toU64 (newUploadRow "u" "" hugeFile).totalBytes = [first, [7]].flatten.length := by
    rw [List.length_flatten]
    simp only [List.map_cons, List.map_nil, List.sum_cons, List.sum_nil, hfirst]
    decide
  have hlens : ∀ chunk ∈ [first, [7]], chunk.length ≤ maxPlaintextLen := by
    intro chunk hchunk
    rcases List.mem_pair.mp hchunk with rfl | rfl
    · rw [hfirst, maxPlaintextLen]
      omega
    · decide
  -- The completion succeeds.
  have hdate : isExpired sampleCrates (-1) "" = false := rfl
  obtain ⟨upload, t', rows', segments, hstops, hseal, hfile⟩ := completeUpload_assembles plainPrimitives_lawful
    calmOracle_quiet hugeFile_writable hugeConfig_fresh.no_dir hcollected hugeConfig_fresh.parses rfl howns
    hdate hall (by rw [hpayloads]; exact hbytes) (by rw [hpayloads]; exact hlens)
    ⟨List.replicate 7 0, by simp⟩ writeVerify
  rw [hpayloads] at hseal
  obtain ⟨hupload, hview⟩ := server_run_of_stops calmOracle_quiet hstops
  generalize hcomplete : (completeUpload sampleCrates hugeConfig plainPrimitives sampleUnlocked (-1)
    ⟨List.replicate 7 0, by simp⟩ twoBytesSession writeVerify).run (quietHandler calmOracle) received =
      outcome at hupload hview
  obtain ⟨result, completed⟩ := outcome
  cases hupload
  obtain rfl : completed.1.tree = t' := congrArg Prod.fst hview
  -- The first segment has 2^32 bytes.
  have hsegments := sealSegments_lengths plainPrimitives_lawful _ _ _ hseal
  cases segments with
  | nil => cases hsegments
  | cons segment rest =>
      have hlong : segment.length = 2 ^ 32 := by
        have hhead : segment.length = first.length + 16 := (List.cons.inj hsegments).1
        omega
      refine ⟨started, received, upload, completed, segment :: rest, rfl, hreceived, hcomplete, hfile, ?_,
        ?_⟩
      · rw [headersTell_iff]
        intro hshort
        have := hshort segment (List.mem_cons_self ..)
        omega
      · rw [(run_of_stops calmOracle_quiet (readAndDecryptFile_stops hfile zeroKey)).1]
        exact readBytes_of_wrapped zeroKey _ hlong rest

/-- With chunks of 2^32 - 16 bytes, which the configuration may ask for, a completion reports success for a file whose
first header is zero and which does not decrypt, verified or not. -/
theorem complete_upload_lies :
    CompletesUnread (List.replicate (2 ^ 32 - 16) 0) false ∧ CompletesUnread (List.replicate (2 ^ 32 - 16) 0) true :=
  ⟨huge_completes List.length_replicate false, huge_completes List.length_replicate true⟩

end ChunkService

end IronDrive
