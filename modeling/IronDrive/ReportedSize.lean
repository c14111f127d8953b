import IronDrive.EntryReports
import IronDrive.UploadContents

/-! The size that listings report. It is the length on disk less the overhead of a file written in one piece; a
file assembled from chunks has a different overhead, one for each chunk. -/

namespace IronDrive

open Lib FileTree PathSafety CryptoService FsService ChunkService

variable {P : Primitives}

/-- Each segment is framed in four bytes and has a tag of sixteen. -/
theorem frames_length (hP : P.Lawful) (chunks : List Bytes) : ∀ (e : EncryptorBE32) (segments : List Bytes),
    sealSegments P e chunks = some segments →
      (segments.flatMap frame).length = chunks.flatten.length + 20 * chunks.length := by
  induction chunks with
  | nil =>
      intro e segments h
      cases h
      rfl
  | cons chunk rest ih =>
      intro e segments h
      by_cases hrest : rest = []
      · simp only [sealSegments, hrest, if_true, EncryptorBE32.encryptLast, Option.map_eq_some_iff] at h
        obtain ⟨sealed, hsealed, rfl⟩ := h
        rw [hrest, List.flatMap_singleton, frame_length, hP.streamEncrypt_length _ _ _ _ _ _ hsealed]
        simp only [List.flatten_cons, List.flatten_nil, List.append_nil, List.length_cons, List.length_nil]
        omega
      · simp only [sealSegments, hrest, if_false, EncryptorBE32.encryptNext, Option.bind_eq_some_iff,
          Option.map_eq_some_iff] at h
        obtain ⟨next, hnext, segments', hsegments, rfl⟩ := h
        split at hnext
        · cases hnext
        · obtain ⟨sealed, hsealed, rfl⟩ := Option.map_eq_some_iff.mp hnext
          rw [List.flatMap_cons, List.length_append, frame_length, ih _ _ hsegments,
            hP.streamEncrypt_length _ _ _ _ _ _ hsealed, List.flatten_cons, List.length_append, List.length_cons]
          omega

theorem stream_length (hP : P.Lawful) {key : DataKey} {nonce : FixedBytes 7} {chunks segments : List Bytes}
    (h : sealSegments P (EncryptorBE32.new key nonce) chunks = some segments) :
    (withHash P (streamContent nonce segments)).length = chunks.flatten.length + 20 * chunks.length + 42 := by
  rw [withHash_length, streamContent, List.length_append, streamHeader_length, frames_length hP chunks _ _ h]
  omega

/-- Opening a box strips a tag of sixteen bytes. -/
structure Primitives.StripsTags (P : Primitives) : Prop where
  decrypt_length : ∀ key nonce ciphertext plaintext, P.decrypt key nonce ciphertext = some plaintext →
    ciphertext.length = plaintext.length + 16
  streamDecrypt_length : ∀ key nonce counter last ciphertext plaintext,
    P.streamDecrypt key nonce counter last ciphertext = some plaintext → ciphertext.length = plaintext.length + 16

theorem openSegments_length (hstrips : P.StripsTags) (segments : List Bytes) : ∀ (d : DecryptorBE32)
    (plaintext : Bytes), openSegments P d segments = some plaintext →
      segments.flatten.length = plaintext.length + 16 * segments.length := by
  induction segments with
  | nil =>
      intro d plaintext h
      cases h
      rfl
  | cons segment rest ih =>
      intro d plaintext h
      by_cases hrest : rest = []
      · simp only [openSegments, hrest, if_true, DecryptorBE32.decryptLast] at h
        have hsegment := hstrips.streamDecrypt_length _ _ _ _ _ _ h
        simp only [hrest, List.flatten_cons, List.flatten_nil, List.append_nil, List.length_cons, List.length_nil]
        omega
      · simp only [openSegments, hrest, if_false, DecryptorBE32.decryptNext, Option.bind_eq_some_iff,
          Option.map_eq_some_iff] at h
        obtain ⟨next, hnext, others, hothers, rfl⟩ := h
        split at hnext
        · cases hnext
        · obtain ⟨opened, hopened, rfl⟩ := Option.map_eq_some_iff.mp hnext
          have hsegment := hstrips.streamDecrypt_length _ _ _ _ _ _ hopened
          rw [List.flatten_cons, List.length_append, hsegment, ih _ _ hothers, List.length_append, List.length_cons]
          show opened.length + 16 + _ = opened.length + _ + _
          omega

/-- Frames that end where they should account for every byte. -/
theorem frames_total {file : Bytes} {stop pos fin : Nat} {segments : List Bytes}
    (h : frames file stop pos = some (segments, fin)) :
    fin = pos + segments.flatten.length + 4 * segments.length := by
  induction segments generalizing pos with
  | nil =>
      rcases frames_cases h with ⟨-, -, rfl⟩ | ⟨-, -, rest, -, hcons⟩
      · rfl
      · cases hcons
  | cons segment segments ih =>
      rcases frames_cases h with ⟨-, hnil, -⟩ | ⟨-, hend, rest, hrest, hcons⟩
      · cases hnil
      · cases hcons
        have hsegment : (segmentAt file pos).length = segLenAt file pos := by
          rw [segmentAt, slice_length hend]
          omega
        rw [ih hrest, List.flatten_cons, List.length_append, List.length_cons, hsegment]
        omega

/-- A file read as a stream of segments is longer than its plaintext by a header, a trailer and their overheads. -/
theorem length_of_streamRead (hstrips : P.StripsTags) {key : DataKey} {content plaintext : Bytes}
    (h : streamDecryptBytes P key content = .ok plaintext) :
    ∃ count, content.length = plaintext.length + 20 * count + 42 ∧ (count = 0 → plaintext.length = 0) := by
  obtain ⟨hlong, -, -, segments, hframes, hopen⟩ := (streamDecryptBytes_eq_ok key plaintext).mp h
  have htotal := frames_total hframes
  have hlength := openSegments_length hstrips segments _ _ hopen
  refine ⟨segments.length, by omega, fun hnone => ?_⟩
  rw [List.length_eq_zero_iff.mp hnone] at hopen
  cases hopen
  rfl

theorem length_of_singleRead (hstrips : P.StripsTags) {key : DataKey} {content plaintext : Bytes}
    (h : decryptFileBytes P key content = .ok plaintext) : content.length = plaintext.length + 63 := by
  obtain ⟨hlong, -, -, hopen⟩ :=
    (decryptFileBytesInner_eq_ok key plaintext).mp ((decryptFileBytes_eq_ok key plaintext).mp h)
  have hbox := hstrips.decrypt_length _ _ _ _ hopen
  rw [List.length_drop, slice_length (Nat.sub_le _ _)] at hbox
  omega

/-! ### Files written by uploads -/

/-- The row a completion loads. -/
def Upload.row? (rows : List ChunkedUpload) (session : Session) : Option ChunkedUpload :=
  rows.find? fun row => row.id = session.uploadId && row.targetType = session.targetType

/-- The root of the tree an upload writes to. -/
def Upload.root (config : AppConfig) : Upload → Path
  | uploadFileOwned libraryId _ _ _ | uploadFileStreaming libraryId _ _ _ _ => libraryRoot config libraryId
  | uploadSpaceFile spaceId _ _ _ | uploadSpaceFileStreaming spaceId _ _ _ _ => spaceRoot config spaceId
  | completeUpload _ _ session => targetRoot config session.targetType session.targetId

/-- The path an upload writes to. -/
def Upload.userPath (rows : List ChunkedUpload) : Upload → String
  | uploadFileOwned _ _ userPath _ | uploadSpaceFile _ _ userPath _ => userPath
  | uploadFileStreaming _ _ userPath _ _ | uploadSpaceFileStreaming _ _ userPath _ _ => userPath
  | completeUpload _ _ session => ((Upload.row? rows session).map ChunkedUpload.targetPath).getD ""

/-- The number of chunks and of bytes of an upload in chunks. -/
def Upload.inChunks (rows : List ChunkedUpload) : Upload → Option (Nat × Nat)
  | uploadFileOwned _ _ _ _ | uploadSpaceFile _ _ _ _ => none
  | uploadFileStreaming _ _ _ paths total | uploadSpaceFileStreaming _ _ _ paths total => some (paths.length, total)
  | completeUpload _ _ session =>
      (Upload.row? rows session).map fun row => (toU32 row.totalChunks, toU64 row.totalBytes)

/-- The upload is in one piece, or has nothing to store and at most one chunk for it. -/
def Upload.SizeTrue (rows : List ChunkedUpload) (upload : Upload) : Prop :=
  ∀ count total, upload.inChunks rows = some (count, total) → total = 0 ∧ count ≤ 1

/-- The bytes are sealed in one piece, or in so many segments for so many bytes. -/
def SealedAs (P : Primitives) (content : Bytes) : Option (Nat × Nat) → Prop
  | none => ∃ key nonce plaintext, encryptFileBytes P key nonce plaintext = .ok content
  | some (count, total) => ∃ key nonce chunks segments, chunks.length = count ∧ chunks.flatten.length = total ∧
      sealSegments P (EncryptorBE32.new key nonce) chunks = some segments ∧
      content = withHash P (streamContent nonce segments)

section Seals

variable {crates : Crates} {config : AppConfig} {unlockState : UnlockState} {writeVerify : Bool}
  {oracle : Nat → Choice} {server after : Server} {result : UploadResult} {target root : Path} {userPath : String}
  {content : Bytes} {mimeFromFilename : String → Option String} {dataKey : Except AppError DataKey}

theorem uploadOwned_seals (hP : P.Lawful) (hquiet : QuietOracle oracle) {nonce : FixedBytes 12} {data : Bytes}
    (hrun : (onDisk (uploadOwned P mimeFromFilename dataKey root nonce userPath data writeVerify)).run
      (quietHandler oracle) server = (.ok result, after))
    (hjoin : ((safeJoin root userPath).run (fsHandler oracle) server.1).1 = .ok target)
    (hleft : after.1.tree.node target = some (.file content)) : SealedAs P content none := by
  obtain ⟨canonicalRoot, existing, appended, -, hjoined, hstops⟩ := safeJoin_stops hquiet hjoin
  obtain ⟨key, blob, -, hblob, hfile, -⟩ := onDisk_returns_of_ensures hquiet hrun
    (uploadOwned_returns hP hjoined hstops nonce data writeVerify) result rfl
  cases (locate_of_fileAt hfile).2.symm.trans hleft
  exact ⟨key, nonce, data, hblob⟩

theorem uploadStreaming_seals (hquiet : QuietOracle oracle) {nonce : FixedBytes 7} {paths : List Path} {total : Nat}
    (hrun : (onDisk (uploadStreaming P mimeFromFilename dataKey root nonce userPath paths total writeVerify)).run
      (quietHandler oracle) server = (.ok result, after))
    (hjoin : ((safeJoin root userPath).run (fsHandler oracle) server.1).1 = .ok target)
    (hleft : after.1.tree.node target = some (.file content)) : SealedAs P content (some (paths.length, total)) := by
  obtain ⟨canonicalRoot, existing, appended, -, hjoined, hstops⟩ := safeJoin_stops hquiet hjoin
  obtain ⟨key, made, chunks, segments, -, -, hplace, hchunks, htotal, hseal, htree⟩ := onDisk_returns_of_ensures
    hquiet hrun (uploadStreaming_returns hjoined hstops nonce paths total writeVerify) result rfl
  rw [htree] at hleft
  cases (locate_of_fileAt (fileAt_put hplace _)).2.symm.trans hleft
  exact ⟨key, nonce, chunks, segments, hchunks.length_eq.symm, htotal, hseal, rfl⟩

theorem completeUpload_seals (hquiet : QuietOracle oracle) {now : Int} {nonce : FixedBytes 7} {session : Session}
    {row : ChunkedUpload} (hrow : Upload.row? server.2.rows session = some row)
    (hrun : (completeUpload crates config P unlockState now nonce session writeVerify).run (quietHandler oracle)
      server = (.ok result, after))
    (hjoin : ((safeJoin (targetRoot config session.targetType session.targetId) row.targetPath).run
      (fsHandler oracle) server.1).1 = .ok target)
    (hleft : after.1.tree.node target = some (.file content)) :
    SealedAs P content (some (toU32 row.totalChunks, toU64 row.totalBytes)) := by
  obtain ⟨canonicalRoot, existing, appended, -, hjoined, hstops⟩ := safeJoin_stops hquiet hjoin
  obtain ⟨key, chunks, segments, hcount, htotal, hseal, honly⟩ := server_returns_of_ensures hquiet hrun
    (completeUpload_returns hrow hjoined hstops now nonce writeVerify) result rfl
  exact ⟨key, nonce, chunks, segments, hcount, htotal, hseal, honly content hleft⟩

/-- What a successful upload leaves at its target is sealed the way it was uploaded. -/
theorem Upload.seals (hP : P.Lawful) (hquiet : QuietOracle oracle) {upload : Upload}
    (hrun : (upload.program P crates config unlockState writeVerify).run (quietHandler oracle) server =
      (.ok result, after))
    (hjoin : ((safeJoin (upload.root config) (upload.userPath server.2.rows)).run (fsHandler oracle)
      server.1).1 = .ok target) (hleft : after.1.tree.node target = some (.file content)) :
    SealedAs P content (upload.inChunks server.2.rows) := by
  cases upload with
  | uploadFileOwned libraryId nonce userPath data => exact uploadOwned_seals hP hquiet hrun hjoin hleft
  | uploadSpaceFile spaceId nonce userPath data => exact uploadOwned_seals hP hquiet hrun hjoin hleft
  | uploadFileStreaming libraryId nonce userPath paths total => exact uploadStreaming_seals hquiet hrun hjoin hleft
  | uploadSpaceFileStreaming spaceId nonce userPath paths total =>
      exact uploadStreaming_seals hquiet hrun hjoin hleft
  | completeUpload now nonce session =>
      cases hrow : Upload.row? server.2.rows session with
      | none =>
          simp only [Upload.userPath, hrow, Option.map_none, Option.getD_none] at hjoin
          exact absurd rfl (safeJoin_nonempty hjoin)
      | some row =>
          simp only [Upload.userPath, hrow, Option.map_some, Option.getD_some] at hjoin
          simp only [Upload.inChunks, hrow, Option.map_some]
          exact completeUpload_seals hquiet hrow hrun hjoin hleft

end Seals

/-- The size reported of a sealed file is the length of what it is read as exactly if it is in one piece, or in
at most one segment and empty. -/
theorem reportedSize_iff (hP : P.Lawful) (hstrips : P.StripsTags) {content plaintext : Bytes} {key : DataKey}
    {inChunks : Option (Nat × Nat)} (hseals : SealedAs P content inChunks)
    (hread : readBytes P key content = .ok plaintext) :
    reportedSize content = plaintext.length ↔
      ∀ count total, inChunks = some (count, total) → total = 0 ∧ count ≤ 1 := by
  cases inChunks with
  | none =>
      obtain ⟨key', nonce, data, hblob⟩ := hseals
      rw [readBytes, if_neg (readBytes_single hblob).1] at hread
      have hlength := length_of_singleRead hstrips hread
      refine iff_of_true ?_ fun _ _ heq => by cases heq
      simp only [reportedSize, plaintextSizeFromDisk, encryptionOverhead]
      omega
  | some sizes =>
      obtain ⟨count, total⟩ := sizes
      obtain ⟨key', nonce, chunks, segments, rfl, rfl, hseal, rfl⟩ := hseals
      rw [(readBytes_stream P key nonce segments).2] at hread
      obtain ⟨read, hlength, hempty⟩ := length_of_streamRead hstrips hread
      have hstored := stream_length hP hseal
      have hnone : chunks.length = 0 → chunks.flatten.length = 0 := by
        intro hchunks
        rw [List.length_eq_zero_iff.mp hchunks]
        rfl
      simp only [reportedSize, plaintextSizeFromDisk, encryptionOverhead, Option.some.injEq, Prod.mk.injEq]
      constructor
      · rintro hreported count total ⟨rfl, rfl⟩
        omega
      · intro hsmall
        obtain ⟨htotal, hcount⟩ := hsmall _ _ ⟨rfl, rfl⟩
        omega

/-- What is downloaded from a path is the plaintext of the file it leads to. -/
theorem readBytes_of_download {oracle : Nat → Choice} (hquiet : QuietOracle oracle) {disk : Disk} {root : Path}
    {userPath : String} {content : Bytes} (hleads : LeadsTo oracle disk root userPath content)
    {mimeFromFilename : String → Option String} {key : DataKey} {downloaded : DownloadResult}
    (hrun : ((download P mimeFromFilename (.ok key) root userPath).run (fsHandler oracle) disk).1 =
      .ok downloaded) : readBytes P key content = .ok downloaded.data := by
  obtain ⟨found, place, hjoin, hfile⟩ := hleads
  obtain ⟨canonicalRoot, existing, appended, -, -, hstops⟩ := safeJoin_stops hquiet hjoin
  have hdownload : (download P mimeFromFilename (.ok key) root userPath).Ensures Quietly disk.tree fun result _ =>
      ∀ downloaded, result = .ok downloaded → readBytes P key content = .ok downloaded.data := by
    unfold download
    rw [if_neg (safeJoin_nonempty hjoin)]
    refine hstops.ensures_bind ((metadata_stops_of_fileAt hfile _).ensures_bind ?_)
    have hread := readAndDecryptFile_stops (P := P) hfile key
    cases hplain : readBytes P key content with
    | error e =>
        rw [hplain] at hread
        exact fails_bind hread
    | ok plaintext =>
        rw [hplain] at hread
        refine hread.ensures_bind ?_
        rintro downloaded ⟨⟩
        rfl
  exact run_of_ensures hquiet hdownload downloaded hrun

/-- The size that entry information and listings report of an uploaded file is the length of the plaintext that is
downloaded exactly if the upload was in one piece, or in at most one chunk and empty. -/
theorem reported_size_iff (P : Primitives) (hP : P.Lawful) (hstrips : P.StripsTags) (crates : Crates)
    (config : AppConfig) (unlockState : UnlockState) (writeVerify : Bool) (oracle : Nat → Choice)
    (hquiet : QuietOracle oracle) (upload : Upload) (server after : Server) (result : UploadResult)
    (hrun : (upload.program P crates config unlockState writeVerify).run (quietHandler oracle) server =
      (.ok result, after)) (target : Path)
    (hjoin : ((safeJoin (upload.root config) (upload.userPath server.2.rows)).run (fsHandler oracle)
      server.1).1 = .ok target) (content : Bytes) (hleft : after.1.tree.node target = some (.file content))
    (later : Nat → Choice) (hlater : QuietOracle later) (disk : Disk) (root : Path) (userPath : String)
    (hleads : LeadsTo later disk root userPath content) (key : DataKey) (downloaded : DownloadResult)
    (hdownload : ((download P crates.mimeFromFilename (.ok key) root userPath).run (fsHandler later) disk).1 =
      .ok downloaded) (facts : EntryFacts) (dataKey : Option DataKey) (checkIntegrity : Bool) :
    (∃ entry, ((entryInfo P facts dataKey root userPath checkIntegrity).run (fsHandler later) disk).1 = .ok entry ∧
      (entry.size = some downloaded.data.length ↔ upload.SizeTrue server.2.rows)) ∧
    ∀ (dirPath : String) (dir : Path) (name : String), LeadsToDir later disk root dirPath dir →
      disk.tree.node (dir ++ [name]) = some (.file content) → isHidden name = false →
        ∃ entries, ((listEntries P facts dataKey root dirPath checkIntegrity).run (fsHandler later) disk).1 =
          .ok entries ∧ (∃ entry ∈ entries, entry.name = name) ∧ ∀ entry ∈ entries, entry.name = name →
            (entry.size = some downloaded.data.length ↔ upload.SizeTrue server.2.rows) := by
  have hiff : some (reportedSize content) = some downloaded.data.length ↔ upload.SizeTrue server.2.rows := by
    rw [Option.some.injEq]
    exact reportedSize_iff hP hstrips (upload.seals hP hquiet hrun hjoin hleft)
      (readBytes_of_download hlater hleads hdownload)
  constructor
  · obtain ⟨entry, hentry, hsize⟩ := entryInfo_reports hlater hleads dataKey checkIntegrity
    exact ⟨entry, hentry, hsize ▸ hiff⟩
  · intro dirPath dir name hdir hfile hshown
    obtain ⟨entries, hentries, hlisted, hsizes⟩ := listEntries_reports hlater hdir hfile hshown dataKey checkIntegrity
    exact ⟨entries, hentries, hlisted, fun entry hentry hname => hsizes entry hentry hname ▸ hiff⟩

theorem untag_length {key : DataKey} {ciphertext plaintext : Bytes} (h : untag key ciphertext = some plaintext) :
    ciphertext.length = plaintext.length + 16 := by
  obtain ⟨htag, hplain⟩ := Option.ite_none_right_eq_some.mp h
  have hlength := congrArg List.length htag
  rw [List.length_drop, (keyTag key).property] at hlength
  rw [← Option.some.inj hplain, List.length_take]
  omega

theorem plainPrimitives_stripsTags : plainPrimitives.StripsTags where
  decrypt_length _ _ _ _ h := untag_length h
  streamDecrypt_length _ _ _ _ _ _ h := untag_length h

/-- Nothing is known of an entry beside its tree. -/
def plainFacts : EntryFacts := ⟨fun _ => none, id, fun _ => none⟩

def wholeUpload : Upload := .uploadFileOwned "l" ⟨List.replicate 12 0, twelve_zeros⟩ "docs/b" [5, 6]

/-- The server after two bytes have been uploaded in one piece. -/
def wholeServer : Server :=
  ((wholeUpload.program plainPrimitives sampleCrates sampleConfig sampleUnlocked false).run
    (quietHandler calmOracle) emptyServer).2

def wholeContent : Bytes :=
  withHash plainPrimitives (singleContent ⟨List.replicate 12 0, twelve_zeros⟩ ([5, 6] ++ (keyTag zeroKey).val))

theorem reported_size_iff_whole :
    (∃ entry, ((entryInfo plainPrimitives plainFacts none ["libraries", "l"] "docs/b" false).run
        (fsHandler calmOracle) wholeServer.1).1 = .ok entry ∧
      (entry.size = some 2 ↔ wholeUpload.SizeTrue [])) ∧
    ∀ (dirPath : String) (dir : Path) (name : String),
      LeadsToDir calmOracle wholeServer.1 ["libraries", "l"] dirPath dir →
      wholeServer.1.tree.node (dir ++ [name]) = some (.file wholeContent) → isHidden name = false →
        ∃ entries, ((listEntries plainPrimitives plainFacts none ["libraries", "l"] dirPath false).run
            (fsHandler calmOracle) wholeServer.1).1 = .ok entries ∧ (∃ entry ∈ entries, entry.name = name) ∧
          ∀ entry ∈ entries, entry.name = name → (entry.size = some 2 ↔ wholeUpload.SizeTrue []) :=
  reported_size_iff plainPrimitives plainPrimitives_lawful plainPrimitives_stripsTags sampleCrates sampleConfig
    sampleUnlocked false calmOracle calmOracle_quiet wholeUpload emptyServer wholeServer
    ⟨"docs/b", 2, 65, hexEncode (lengthHash [5, 6]).val, none⟩ (Prod.ext (by decide +kernel) rfl)
    ["libraries", "l", "docs", "b"] (by decide +kernel) wholeContent (by decide +kernel) calmOracle calmOracle_quiet
    wholeServer.1 ["libraries", "l"] "docs/b"
    ⟨["libraries", "l", "docs", "b"], ["libraries", "l", "docs", "b"], by decide +kernel, by decide +kernel⟩ zeroKey
    ⟨[5, 6], hexEncode (lengthHash [5, 6]).val, none, "b"⟩ (by decide +kernel) plainFacts none false

/-- The server after two bytes have been uploaded in two chunks. -/
def chunkedServer : Server :=
  ((completeUpload sampleCrates sampleConfig plainPrimitives sampleUnlocked (-1) ⟨List.replicate 7 0, seven_zeros⟩
    twoBytesSession false).run (quietHandler calmOracle)
      (receiveAll sampleCrates sampleConfig (quietHandler calmOracle) backwards startedServer).2).2

/-- Two bytes uploaded in two chunks are downloaded as two bytes, and reported as twenty-one. -/
theorem chunked_size_twentyOne :
    (∃ upload, ((completeUpload sampleCrates sampleConfig plainPrimitives sampleUnlocked (-1)
        ⟨List.replicate 7 0, by simp⟩ twoBytesSession false).run (quietHandler calmOracle)
          (receiveAll sampleCrates sampleConfig (quietHandler calmOracle) backwards startedServer).2).1 =
        .ok upload ∧ upload.size = 2) ∧
    (∃ downloaded, ((downloadFile plainPrimitives sampleCrates.mimeFromFilename sampleConfig sampleUnlocked "l"
        "docs/b").run (fsHandler calmOracle) chunkedServer.1).1 = .ok downloaded ∧ downloaded.data = [1, 2]) ∧
    (∃ entry, ((getEntryInfo plainPrimitives plainFacts sampleConfig sampleUnlocked "l" "docs/b" false).run
        (fsHandler calmOracle) chunkedServer.1).1 = .ok entry ∧ entry.size = some 21) ∧
    ∃ entries, ((listDirectory plainPrimitives plainFacts sampleConfig sampleUnlocked "l" "docs" false).run
        (fsHandler calmOracle) chunkedServer.1).1 = .ok entries ∧
      entries.map (fun entry => (entry.name, entry.size)) = [("b", some 21)] := by
  refine ⟨exists_ok ?_, exists_ok ?_, exists_ok ?_, exists_ok ?_⟩
  · decide +kernel
  · decide +kernel
  · decide +kernel
  · decide +kernel

end IronDrive
