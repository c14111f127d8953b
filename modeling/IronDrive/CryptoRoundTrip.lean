import IronDrive.CryptoReaders

/-! What the two writers leave on disk, and that the reader gets the plaintext back from it. -/

namespace IronDrive

open Lib FileTree

namespace CryptoService

variable {P : Primitives} {t : FileTree} {dest place : Path}

theorem encryptFileBytes_eq_ok {dataKey : DataKey} {nonce : FixedBytes 12} {plaintext blob : Bytes}
    (h : encryptFileBytes P dataKey nonce plaintext = .ok blob) :
    ∃ ciphertext tag, P.encryptDetached dataKey nonce plaintext = some (ciphertext, tag) ∧
      blob = withHash P (singleContent nonce (ciphertext ++ tag.val)) := by
  rw [encryptFileBytes, Primitives.encrypt] at h
  cases hsealed : P.encryptDetached dataKey nonce plaintext with
  | none => rw [hsealed] at h; cases h
  | some sealed =>
      rw [hsealed] at h
      cases h
      exact ⟨sealed.1, sealed.2, rfl, rfl⟩

/-- A single-shot file decrypts to what was sealed in it. -/
theorem decryptFileBytes_encryptFileBytes (hP : P.Lawful) {dataKey : DataKey} {nonce : FixedBytes 12}
    {plaintext blob : Bytes} (h : encryptFileBytes P dataKey nonce plaintext = .ok blob) :
    decryptFileBytes P dataKey blob = .ok plaintext := by
  obtain ⟨ciphertext, tag, hsealed, rfl⟩ := encryptFileBytes_eq_ok h
  rw [decryptFileBytes_eq_ok, decryptFileBytesInner_eq_ok]
  have hcut : (withHash P (singleContent nonce (ciphertext ++ tag.val))).length - 32 =
      (singleContent nonce (ciphertext ++ tag.val)).length := by simp
  have hcontent : slice (withHash P (singleContent nonce (ciphertext ++ tag.val))) 0
      (singleContent nonce (ciphertext ++ tag.val)).length =
        singleContent nonce (ciphertext ++ tag.val) := by
    simp [slice, withHash]
  have hnonce : slice (singleContent nonce (ciphertext ++ tag.val)) 3 15 = nonce.val :=
    slice_append_middle singleMagic nonce.val (ciphertext ++ tag.val) rfl
      (by rw [fixedBytes_length]; rfl)
  have hbox : (singleContent nonce (ciphertext ++ tag.val)).drop 15 = ciphertext ++ tag.val := by
    rw [singleContent]
    exact List.drop_left' (by rw [List.length_append, fixedBytes_length]; rfl)
  refine ⟨by simp; omega, hashOk_withHash P (by simp; omega), ?_, ?_⟩
  · simp [withHash, singleContent, slice, singleMagic]
  · rw [hcut, hcontent, hnonce, hbox]
    have hfixed : fixedBytes 12 nonce.val = nonce := Subtype.ext (fixedBytes_val (fixedBytes_length nonce))
    rw [hfixed]
    exact hP.decrypt_encrypt _ _ _ _ (by rw [Primitives.encrypt, hsealed]; rfl)

/-- A STREAM file decrypts to the concatenation of the chunks sealed in it. -/
theorem streamDecryptBytes_streamContent (hP : P.Lawful) {dataKey : DataKey} {nonce : FixedBytes 7}
    {chunks segments : List Bytes}
    (hseal : sealSegments P (EncryptorBE32.new dataKey nonce) chunks = some segments)
    (hlen : ∀ chunk ∈ chunks, chunk.length + 16 < 2 ^ 32) :
    streamDecryptBytes P dataKey (withHash P (streamContent nonce segments)) = .ok chunks.flatten := by
  rw [streamDecryptBytes_eq_ok]
  have hcontent : (streamContent nonce segments).length = 10 + (segments.flatMap frame).length := by
    simp [streamContent]
  have hcut : (withHash P (streamContent nonce segments)).length - 32 =
      (streamContent nonce segments).length := by simp
  refine ⟨by simp [streamContent], hashOk_withHash P (by omega), ?_, segments, ?_, ?_⟩
  · simp [withHash, streamContent, streamHeader, slice, streamMagic]
  · rw [hcut]
    exact frames_flatMap segments (streamHeader nonce) _ (streamHeader_length nonce).symm
      (by rw [hcontent, streamHeader_length]) ((sealSegments_length hP hseal).mpr hlen)
  · have hnonce : slice (withHash P (streamContent nonce segments)) 3 10 = nonce.val := by
      have hmiddle : slice (streamMagic ++ nonce.val ++
          (segments.flatMap frame ++ (P.sha256 (streamContent nonce segments)).val)) 3 10 = nonce.val :=
        slice_append_middle _ _ _ rfl (by rw [fixedBytes_length]; rfl)
      simpa [withHash, streamContent, streamHeader, List.append_assoc] using hmiddle
    have hfixed : fixedBytes 7 nonce.val = nonce := Subtype.ext (fixedBytes_val (fixedBytes_length nonce))
    rw [streamDecryptor, hnonce, hfixed]
    exact openSegments_sealSegments hP chunks _ segments hseal

theorem readBytes_single {dataKey : DataKey} {nonce : FixedBytes 12} {plaintext blob : Bytes}
    (h : encryptFileBytes P dataKey nonce plaintext = .ok blob) :
    slice blob 0 3 ≠ streamMagic ∧ readBytes P dataKey blob = decryptFileBytes P dataKey blob := by
  obtain ⟨ciphertext, tag, -, rfl⟩ := encryptFileBytes_eq_ok h
  have hmagic : slice (withHash P (singleContent nonce (ciphertext ++ tag.val))) 0 3 ≠ streamMagic := by
    simp [withHash, singleContent, slice, singleMagic, streamMagic]
  exact ⟨hmagic, if_neg hmagic⟩

theorem readBytes_stream (P : Primitives) (dataKey : DataKey) (nonce : FixedBytes 7)
    (segments : List Bytes) :
    slice (withHash P (streamContent nonce segments)) 0 3 = streamMagic ∧
      readBytes P dataKey (withHash P (streamContent nonce segments)) =
        streamDecryptBytes P dataKey (withHash P (streamContent nonce segments)) := by
  have hmagic : slice (withHash P (streamContent nonce segments)) 0 3 = streamMagic := by
    simp [withHash, streamContent, streamHeader, slice, streamMagic]
  exact ⟨hmagic, if_pos hmagic⟩

/-- A STREAM file as the streaming writer makes one, of two segments under `zeroKey`. -/
def twoSegments : List Bytes := [[1, 2] ++ (keyTag zeroKey).val, [3] ++ (keyTag zeroKey).val]

def twoSegmentFile : Bytes :=
  withHash plainPrimitives (streamContent ⟨List.replicate 7 0, seven_zeros⟩ twoSegments)

theorem twoSegmentFile_read : readBytes plainPrimitives zeroKey twoSegmentFile = .ok [1, 2, 3] := by
  have hseal : sealSegments plainPrimitives (EncryptorBE32.new zeroKey ⟨List.replicate 7 0, seven_zeros⟩)
      [[1, 2], [3]] = some twoSegments := rfl
  obtain ⟨-, hread⟩ := readBytes_stream plainPrimitives zeroKey ⟨List.replicate 7 0, seven_zeros⟩ twoSegments
  rw [twoSegmentFile, hread, streamDecryptBytes_streamContent plainPrimitives_lawful hseal (by decide)]
  rfl

/-- Writing at the end of the file under construction appends to it. -/
theorem writeAll_append_stops (hadmits : t.Admits place) (content data : Bytes)
    (onError : IoError → AppError) :
    (OpenFile.writeAll ⟨place, content.length⟩ data onError).Stops Quietly (t.put place (.file content))
      (.ok ⟨place, (content ++ data).length⟩) (t.put place (.file (content ++ data))) := by
  have hwrite := OpenFile.writeAll_stops ⟨place, content.length⟩ onError
    (node_put_self hadmits (.file content)) data
  rw [writeAt, overwrite_end, put_put hadmits] at hwrite
  rw [List.length_append]
  exact hwrite

theorem writeLast_append_stops (hadmits : t.Admits place) (content data : Bytes) :
    (OpenFile.writeLast ⟨place, content.length⟩ data).Stops Quietly (t.put place (.file content))
      (.ok (⟨place, (content ++ data).length⟩, .ok ())) (t.put place (.file (content ++ data))) := by
  have hwrite := OpenFile.writeLast_stops ⟨place, content.length⟩ (node_put_self hadmits (.file content)) data
  rw [writeAt, overwrite_end, put_put hadmits] at hwrite
  rw [List.length_append]
  exact hwrite

/-- The buffers append one after the other. -/
theorem writeBuffered_append_stops (hadmits : t.Admits place) (content data : Bytes)
    (onError : IoError → AppError) :
    (OpenFile.writeBuffered ⟨place, content.length⟩ data onError).Stops Quietly (t.put place (.file content))
      (.ok (⟨place, (content ++ data).length⟩, .ok ())) (t.put place (.file (content ++ data))) := by
  unfold OpenFile.writeBuffered
  split
  · exact writeLast_append_stops hadmits content data
  · have hwhole := writeAll_append_stops hadmits content
      (data.take (OpenFile.maxBufSize * ((data.length - 1) / OpenFile.maxBufSize))) onError
    have hlast := writeLast_append_stops hadmits
      (content ++ data.take (OpenFile.maxBufSize * ((data.length - 1) / OpenFile.maxBufSize)))
      (data.drop (OpenFile.maxBufSize * ((data.length - 1) / OpenFile.maxBufSize)))
    rw [List.append_assoc, List.take_append_drop] at hlast
    exact hwhole.bind hlast

/-- The file just written is found at the path it was created by. -/
theorem fileAt_put (hdest : t.createPlace dest = .ok place) (content : Bytes) :
    (t.put place (.file content)).fileAt dest = .ok (place, content) := by
  obtain ⟨hadmits, hresolved⟩ := admits_of_createPlace hdest
  have hext := extends_put_file hresolved.not_symlink content
  have hloc := hext.locate (locate_of_createPlace hdest)
  simp [FileTree.fileAt, hloc, node_put_self hadmits, bind, Except.bind, pure, Except.pure]

theorem encryptAndWriteFileOwned_stops (hP : P.Lawful) (hdest : t.createPlace dest = .ok place)
    {dataKey : DataKey} {nonce : FixedBytes 12} {plaintext blob : Bytes}
    (h : encryptFileBytes P dataKey nonce plaintext = .ok blob) (writeVerify : Bool) :
    (encryptAndWriteFileOwned P dataKey nonce plaintext dest writeVerify).Stops Quietly t (.ok ())
      (t.put place (.file blob)) := by
  obtain ⟨ciphertext, tag, hsealed, hblob⟩ := encryptFileBytes_eq_ok h
  have hadmits := (admits_of_createPlace hdest).1
  have happend := fun content data => writeAll_append_stops hadmits content data
  simp only [encryptAndWriteFileOwned, hsealed, Program.okOr_some, Program.bind_eq, Program.done_bind]
  refine (createFile_stops hdest).bind ?_
  refine (happend [] singleMagic _).bind ?_
  refine (happend _ nonce.val _).bind ?_
  refine (happend _ ciphertext _).bind ?_
  refine (happend _ tag.val _).bind ?_
  refine (happend _ _ _).bind ?_
  refine OpenFile.flush_stops.bind (OpenFile.syncData_stops.bind ?_)
  have hfinal : [] ++ singleMagic ++ nonce.val ++ ciphertext ++ tag.val ++
      (P.sha256 (singleMagic ++ nonce.val ++ ciphertext ++ tag.val)).val = blob := by
    rw [hblob, withHash, singleContent]
    simp [List.append_assoc]
  rw [hfinal]
  have hfile := fileAt_put hdest blob
  cases writeVerify with
  | false => exact Program.stops_done _ _
  | true =>
      have hverify := verifyFileHash_stops (P := P) hfile
      have hplain := decryptFileBytes_encryptFileBytes hP h
      have hhash := ((decryptFileBytesInner_eq_ok _ _).mp ((decryptFileBytes_eq_ok _ _).mp hplain)).2.1
      rw [verifyFileHashBytes_of_hashOk P hhash] at hverify
      simp only [if_true]
      refine hverify.outcome.bind ((readFile_stops_of_fileAt hfile _).bind ?_)
      rw [hplain]
      exact Program.stops_done _ _

/-- When the cipher refuses the plaintext, nothing is created. -/
theorem encryptAndWriteFileOwned_stops_error {dataKey : DataKey} {nonce : FixedBytes 12}
    {plaintext : Bytes} {error : AppError}
    (h : encryptFileBytes P dataKey nonce plaintext = .error error) (writeVerify : Bool) :
    (encryptAndWriteFileOwned P dataKey nonce plaintext dest writeVerify).Stops Quietly t (.error error)
      t := by
  rw [encryptFileBytes, Primitives.encrypt] at h
  cases hsealed : P.encryptDetached dataKey nonce plaintext with
  | some sealed => rw [hsealed] at h; cases h
  | none =>
      rw [hsealed] at h
      cases h
      simp only [encryptAndWriteFileOwned, hsealed, Program.okOr_none, Program.bind_eq, Program.fail_bind]
      exact Program.stops_fail _ t

/-- The chunk at a path is stored in a file other than the one being written. -/
def ChunkFile (t : FileTree) (place : Path) (path : Path) (chunk : Bytes) : Prop :=
  ∃ q, t.fileAt path = .ok (q, chunk) ∧ q ≠ place

theorem ChunkFile.fileAt_put {path : Path} {chunk : Bytes} (h : ChunkFile t place path chunk)
    (hlink : ∀ absolute target, t.node place ≠ some (.symlink absolute target)) (content : Bytes) :
    ∃ q, (t.put place (.file content)).fileAt path = .ok (q, chunk) := by
  obtain ⟨q, hfile, hne⟩ := h
  refine ⟨q, (extends_put_file hlink content).fileAt hfile ?_⟩
  rw [node_put_of_ne hne]
  exact (locate_of_fileAt hfile).2

/-- The chunk loop appends the framed segments of the sealed chunks. -/
theorem streamChunks_ensures (hdest : t.createPlace dest = .ok place) (paths : List Path) :
    ∀ (chunks segments : List Bytes) (index : Nat) (content hasher : Bytes) (e : EncryptorBE32)
      (bytesRead : Nat), List.Forall₂ (ChunkFile t place) paths chunks →
      sealSegments P e chunks = some segments →
        (streamChunks P paths index ⟨⟨place, content.length⟩, hasher, e, bytesRead⟩).Ensures Quietly
          (t.put place (.file content)) fun result t' =>
            t' = t.put place (.file (content ++ segments.flatMap frame)) ∧
              ∃ e', result = .ok ⟨⟨place, (content ++ segments.flatMap frame).length⟩,
                hasher ++ segments.flatMap frame, e', bytesRead + chunks.flatten.length⟩ := by
  obtain ⟨hadmits, hresolved⟩ := admits_of_createPlace hdest
  induction paths with
  | nil =>
      intro chunks segments index content hasher e bytesRead hchunks hseal
      cases hchunks
      cases hseal
      exact ⟨by simp, e, by simp⟩
  | cons path paths ih =>
      intro chunks segments index content hasher e bytesRead hchunks hseal
      cases hchunks with
      | @cons _ chunk _ chunks hchunk hrest =>
          obtain ⟨q, hfile⟩ := hchunk.fileAt_put hresolved.not_symlink content
          have hempty : paths = [] ↔ chunks = [] := by
            constructor
            · rintro rfl; cases hrest; rfl
            · rintro rfl; cases hrest; rfl
          rw [streamChunks]
          refine (readFile_stops_of_fileAt hfile _).ensures_bind ?_
          -- Both branches seal one chunk and write it; they differ in the last flag and the next state.
          have hwrite : ∀ (sealed : Bytes) (e' : EncryptorBE32) (segments' : List Bytes),
              sealSegments P e' chunks = some segments' → segments = sealed :: segments' →
              (Program.bind (OpenFile.writeAll ⟨place, content.length⟩ (le32 sealed.length) fun e =>
                  .internal ("Failed to write segment header: " ++ e.message)) fun out =>
                Program.bind (out.writeAll sealed fun e =>
                  .internal ("Failed to write segment body: " ++ e.message)) fun out =>
                streamChunks P paths (index + 1)
                  { out := out, hasher := hasher ++ le32 sealed.length ++ sealed, encryptor := e',
                    bytesRead := bytesRead + chunk.length }).Ensures Quietly
                (t.put place (.file content)) fun result t' =>
                  t' = t.put place (.file (content ++ segments.flatMap frame)) ∧
                    ∃ e', result = .ok ⟨⟨place, (content ++ segments.flatMap frame).length⟩,
                      hasher ++ segments.flatMap frame, e',
                      bytesRead + (chunk :: chunks).flatten.length⟩ := by
            intro sealed e' segments' hseal' hsegments
            refine (writeAll_append_stops hadmits content (le32 sealed.length) _).ensures_bind ?_
            refine (writeAll_append_stops hadmits _ sealed _).ensures_bind ?_
            have hrec := ih chunks segments' (index + 1) (content ++ le32 sealed.length ++ sealed)
              (hasher ++ le32 sealed.length ++ sealed) e' (bytesRead + chunk.length) hrest hseal'
            have hflat : ∀ front : Bytes, front ++ le32 sealed.length ++ sealed ++
                segments'.flatMap frame = front ++ segments.flatMap frame := by
              intro front
              simp [hsegments, frame, List.append_assoc]
            have hsum : bytesRead + chunk.length + chunks.flatten.length =
                bytesRead + (chunk :: chunks).flatten.length := by
              simp only [List.flatten_cons, List.length_append]
              omega
            rw [hflat, hflat, hsum] at hrec
            exact hrec
          by_cases hlast : chunks = []
          · simp only [sealSegments, hlast, if_true] at hseal
            obtain ⟨sealed, hsealed, rfl⟩ := Option.map_eq_some_iff.mp hseal
            simp only [hempty.mpr hlast, if_true, hsealed, Option.map_some, Program.okOr_some]
            have := hwrite sealed e [] (by rw [hlast]; rfl) rfl
            rw [hempty.mpr hlast] at this
            exact this
          · simp only [sealSegments, hlast, if_false] at hseal
            obtain ⟨⟨sealed, e'⟩, hnext, hmore⟩ := Option.bind_eq_some_iff.mp hseal
            obtain ⟨segments', hseal', rfl⟩ := Option.map_eq_some_iff.mp hmore
            simp only [mt hempty.mp hlast, if_false, hnext, Program.okOr_some]
            exact hwrite sealed e' segments' hseal' rfl

theorem streamEncryptChunksToFile_stops (hdest : t.createPlace dest = .ok place) {dataKey : DataKey}
    {nonce : FixedBytes 7} {chunkPaths : List Path} {chunks segments : List Bytes}
    (hchunks : List.Forall₂ (ChunkFile t place) chunkPaths chunks)
    (hseal : sealSegments P (EncryptorBE32.new dataKey nonce) chunks = some segments) {total : Nat}
    (htotal : total = chunks.flatten.length) (writeVerify : Bool) :
    (streamEncryptChunksToFile P dataKey nonce chunkPaths total dest writeVerify).Stops Quietly t (.ok ())
      (t.put place (.file (withHash P (streamContent nonce segments)))) := by
  have hadmits := (admits_of_createPlace hdest).1
  simp only [streamEncryptChunksToFile, Program.bind_eq]
  refine (createFile_stops hdest).bind ?_
  refine (writeAll_append_stops hadmits [] streamMagic _).bind ?_
  refine (writeAll_append_stops hadmits _ nonce.val _).bind ?_
  rw [List.nil_append]
  refine Program.Ensures.bind (streamChunks_ensures hdest chunkPaths chunks segments 0
    (streamMagic ++ nonce.val) (streamMagic ++ nonce.val) (EncryptorBE32.new dataKey nonce) 0 hchunks
    hseal) ?_ ?_
  · intro w t' h
    obtain ⟨rfl, e', hw⟩ := h
    cases hw
    simp only [Nat.zero_add, htotal, ne_eq, not_true_eq_false, if_false]
    refine (writeAll_append_stops hadmits _ _ _).bind ?_
    refine OpenFile.flush_stops.bind (OpenFile.syncData_stops.bind ?_)
    have hcontent : streamMagic ++ nonce.val ++ segments.flatMap frame = streamContent nonce segments := rfl
    rw [hcontent]
    cases writeVerify with
    | false => exact Program.stops_done _ _
    | true =>
        have hverify := verifyFileHash_stops (P := P)
          (fileAt_put hdest (withHash P (streamContent nonce segments)))
        rw [verifyFileHashBytes_of_hashOk P (hashOk_withHash P (by simp [streamContent]; omega))] at hverify
        exact hverify
  · intro error t' h
    obtain ⟨-, e', hw⟩ := h
    cases hw

/-- Chunks of another total length than announced are found out after they have been written. -/
theorem streamEncryptChunksToFile_stops_mismatch (hdest : t.createPlace dest = .ok place) {dataKey : DataKey}
    {nonce : FixedBytes 7} {chunkPaths : List Path} {chunks segments : List Bytes}
    (hchunks : List.Forall₂ (ChunkFile t place) chunkPaths chunks)
    (hseal : sealSegments P (EncryptorBE32.new dataKey nonce) chunks = some segments) {total : Nat}
    (htotal : total ≠ chunks.flatten.length) (writeVerify : Bool) :
    (streamEncryptChunksToFile P dataKey nonce chunkPaths total dest writeVerify).Stops Quietly t
      (.error (.internal ("Chunk size mismatch: expected " ++ toString total ++ " bytes, read " ++
        toString chunks.flatten.length)))
      (t.put place (.file (streamContent nonce segments))) := by
  have hadmits := (admits_of_createPlace hdest).1
  simp only [streamEncryptChunksToFile, Program.bind_eq]
  refine (createFile_stops hdest).bind ?_
  refine (writeAll_append_stops hadmits [] streamMagic _).bind ?_
  refine (writeAll_append_stops hadmits _ nonce.val _).bind ?_
  rw [List.nil_append]
  refine Program.Ensures.bind (streamChunks_ensures hdest chunkPaths chunks segments 0
    (streamMagic ++ nonce.val) (streamMagic ++ nonce.val) (EncryptorBE32.new dataKey nonce) 0 hchunks
    hseal) ?_ ?_
  · intro w t' hresult
    obtain ⟨rfl, e', hw⟩ := hresult
    cases hw
    simp only [Nat.zero_add, ne_eq, htotal.symm, not_false_eq_true, if_true]
    exact Program.stops_fail _ _
  · intro error t' hresult
    obtain ⟨-, e', hw⟩ := hresult
    cases hw

/-! ### The round trip -/

/-- A file that was just written is read back, by the reader its magic bytes select. -/
theorem read_of_written {oracle : Nat → Choice} (hquiet : QuietOracle oracle) {dataKey : DataKey}
    {plaintext blob : Bytes} {writer : FsProgram Unit} {disk : Disk}
    (hdest : disk.tree.createPlace dest = .ok place)
    (hwriter : writer.Stops Quietly disk.tree (.ok ()) (disk.tree.put place (.file blob)))
    (hread : readBytes P dataKey blob = .ok plaintext) :
    ∃ written, writer.run (fsHandler oracle) disk = (.ok (), written) ∧
      written.tree.fileAt dest = .ok (place, blob) ∧
      ((isStreamFormat dest).run (fsHandler oracle) written).1 =
        .ok (decide (slice blob 0 3 = streamMagic)) ∧
      ((readAndDecryptFile P dataKey dest).run (fsHandler oracle) written).1 = .ok plaintext := by
  obtain ⟨hresult, htree⟩ := run_of_stops hquiet hwriter
  have hfile : (writer.run (fsHandler oracle) disk).2.tree.fileAt dest = .ok (place, blob) := by
    rw [htree]
    exact fileAt_put hdest blob
  refine ⟨_, Prod.ext hresult rfl, hfile, (run_of_stops hquiet (isStreamFormat_stops hfile)).1, ?_⟩
  rw [(run_of_stops hquiet (readAndDecryptFile_stops hfile dataKey)).1, hread]

/-- Both writers succeed, and what they leave on disk is read back under the same key as exactly the
plaintext: the single-shot file is the blob of `encryptFileBytes`, the STREAM file the chunks in order.
A plaintext the cipher refuses is refused by both, with the same error and nothing written. -/
theorem written_file_reads_back (P : Primitives) (hP : P.Lawful) (oracle : Nat → Choice)
    (hquiet : QuietOracle oracle) (dataKey : DataKey) (disk : Disk) (dest place : Path)
    (hdest : disk.tree.createPlace dest = .ok place) (writeVerify : Bool) :
    (∀ (nonce : FixedBytes 12) (plaintext : Bytes),
      match encryptFileBytes P dataKey nonce plaintext with
      | .ok blob => ∃ written,
          (encryptAndWriteFileOwned P dataKey nonce plaintext dest writeVerify).run (fsHandler oracle)
            disk = (.ok (), written) ∧
          written.tree.fileAt dest = .ok (place, blob) ∧
          ((isStreamFormat dest).run (fsHandler oracle) written).1 = .ok false ∧
          ((readAndDecryptFile P dataKey dest).run (fsHandler oracle) written).1 = .ok plaintext
      | .error error => maxPlaintextLen < plaintext.length ∧
          ((encryptAndWriteFileOwned P dataKey nonce plaintext dest writeVerify).run (fsHandler oracle)
            disk).1 = .error error ∧
          ((encryptAndWriteFileOwned P dataKey nonce plaintext dest writeVerify).run (fsHandler oracle)
            disk).2.tree = disk.tree) ∧
    (∀ (nonce : FixedBytes 7) (chunkPaths : List Path) (chunks : List Bytes) (total : Nat),
      List.Forall₂ (ChunkFile disk.tree place) chunkPaths chunks →
      (∀ chunk ∈ chunks, chunk.length < 2 ^ 32 - 16) → chunks.length < 2 ^ 32 →
      (chunks.map List.length).sum = total → ∃ written,
        (streamEncryptChunksToFile P dataKey nonce chunkPaths total dest writeVerify).run
          (fsHandler oracle) disk = (.ok (), written) ∧
        ((isStreamFormat dest).run (fsHandler oracle) written).1 = .ok true ∧
        ((readAndDecryptFile P dataKey dest).run (fsHandler oracle) written).1 = .ok chunks.flatten) := by
  constructor
  · intro nonce plaintext
    cases hblob : encryptFileBytes P dataKey nonce plaintext with
    | ok blob =>
        obtain ⟨hmagic, hbytes⟩ := readBytes_single hblob
        obtain ⟨written, hrun, hfile, hformat, hread⟩ := read_of_written hquiet hdest
          (encryptAndWriteFileOwned_stops hP hdest hblob writeVerify)
          (hbytes.trans (decryptFileBytes_encryptFileBytes hP hblob))
        exact ⟨written, hrun, hfile, by rw [hformat, decide_eq_false hmagic], hread⟩
    | error error =>
        refine ⟨?_, run_of_stops hquiet (encryptAndWriteFileOwned_stops_error hblob writeVerify)⟩
        by_contra hshort
        obtain ⟨sealed, hsealed⟩ := Option.isSome_iff_exists.mp
          (hP.encryptDetached_isSome dataKey nonce plaintext (Nat.not_lt.mp hshort))
        simp [encryptFileBytes, Primitives.encrypt, hsealed] at hblob
  · intro nonce chunkPaths chunks total hchunks hlen hcount htotal
    have hlong : ∀ chunk ∈ chunks, chunk.length ≤ maxPlaintextLen := by
      intro chunk hmem
      have := hlen chunk hmem
      rw [maxPlaintextLen]
      omega
    obtain ⟨segments, hseal⟩ := Option.isSome_iff_exists.mp
      (sealSegments_isSome hP chunks (EncryptorBE32.new dataKey nonce) hlong
        (by show 0 + chunks.length ≤ 2 ^ 32; omega))
    obtain ⟨hmagic, hbytes⟩ := readBytes_stream P dataKey nonce segments
    obtain ⟨written, hrun, -, hformat, hread⟩ := read_of_written hquiet hdest
      (streamEncryptChunksToFile_stops hdest hchunks hseal
        (by rw [List.length_flatten, htotal]) writeVerify)
      (hbytes.trans (streamDecryptBytes_streamContent hP hseal fun chunk hmem => by
        have := hlen chunk hmem
        omega))
    exact ⟨written, hrun, by rw [hformat, decide_eq_true hmagic], hread⟩

/-- A disk with two staged chunk files and a directory to write into. -/
def stagedDisk : Disk where
  tree := (((FileTree.empty.put ["files"] .dir).put ["0.chunk"] (.file [1, 2])).put ["1.chunk"] (.file [3]))
  tick := 0

/-- The round trip on two staged chunks. -/
theorem written_file_reads_back_staged :
    ∃ written, (streamEncryptChunksToFile plainPrimitives zeroKey ⟨List.replicate 7 0, by simp⟩
        [["0.chunk"], ["1.chunk"]] 3 ["files", "a"] true).run (fsHandler calmOracle) stagedDisk =
          (.ok (), written) ∧
      ((isStreamFormat ["files", "a"]).run (fsHandler calmOracle) written).1 = .ok true ∧
      ((readAndDecryptFile plainPrimitives zeroKey ["files", "a"]).run (fsHandler calmOracle) written).1 =
        .ok [1, 2, 3] :=
  (written_file_reads_back plainPrimitives plainPrimitives_lawful calmOracle calmOracle_quiet zeroKey
    stagedDisk ["files", "a"] ["files", "a"] (by decide) true).2 ⟨List.replicate 7 0, by simp⟩
      [["0.chunk"], ["1.chunk"]] [[1, 2], [3]] 3
      (.cons ⟨["0.chunk"], by decide, by decide⟩ (.cons ⟨["1.chunk"], by decide, by decide⟩ .nil))
      (by decide) (by decide) (by decide)

end CryptoService

end IronDrive
