import IronDrive.CryptoRoundTrip

/-! The reader of STREAM files as a parser. The segment loop is run with a log of what it takes out of the buffer and
what it hands to the decryptor; the log tiles the buffer between header and trailer, so that writing the segments out
again gives back the file. -/

namespace IronDrive

open Lib

namespace CryptoService

variable (P : Primitives)

/-- What the segment loop takes out of the buffer, each from a position up to another, and what it hands to the
decryptor. -/
structure StreamLog where
  reads : List (Nat × Nat)
  handed : List Bytes
  deriving DecidableEq

/-- The segment loop of `streamDecryptFileInner` with its log. -/
def streamDecryptLogged (raw : Bytes) (segmentsEnd pos : Nat) (pending : Option Bytes) (decryptor : DecryptorBE32)
    (plaintext : Bytes) : Except AppError Bytes × StreamLog :=
  if pos < segmentsEnd then
    if pos + streamSegmentHeaderLen > segmentsEnd then
      (.error (.internal "STREAM file truncated inside segment header"), ⟨[], []⟩)
    else
      let segLen := ofLe32 (slice raw pos (pos + 4))
      let start := pos + streamSegmentHeaderLen
      if start + segLen > segmentsEnd then
        (.error (.internal "STREAM file truncated inside segment body"), ⟨[(pos, pos + 4)], []⟩)
      else
        match decryptPending P decryptMessage pending decryptor plaintext with
        | .error e => (.error e, ⟨[(pos, pos + 4), (start, start + segLen)], pending.toList⟩)
        | .ok (decryptor, plaintext) =>
            let rest := streamDecryptLogged raw segmentsEnd (start + segLen) (some (slice raw start (start + segLen)))
              decryptor plaintext
            (rest.1, ⟨(pos, pos + 4) :: (start, start + segLen) :: rest.2.reads, pending.toList ++ rest.2.handed⟩)
  else
    (decryptFinal P decryptLastMessage pending decryptor plaintext, ⟨[], pending.toList⟩)
termination_by segmentsEnd - pos
decreasing_by simp only [streamSegmentHeaderLen]; omega

/-- What `streamDecryptFileInner` does with the bytes it has read, with the log of its loop. -/
def streamDecryptBytesLogged (dataKey : DataKey) (raw : Bytes) : Except AppError Bytes × StreamLog :=
  if raw.length < minStreamFileLen then
    (.error (.internal "STREAM file too small to contain header + file hash"), ⟨[], []⟩)
  else
    match verifyFileHashBytes P raw with
    | .error e => (.error e, ⟨[], []⟩)
    | .ok () =>
        if slice raw 0 magicLen ≠ streamMagic then (.error (.internal "STREAM file has wrong magic bytes"), ⟨[], []⟩)
        else
          let streamNonce := fixedBytes 7 (slice raw magicLen (magicLen + streamNonceLen))
          streamDecryptLogged P raw (raw.length - fileHashLen) (magicLen + streamNonceLen) none
            (DecryptorBE32.new dataKey streamNonce) []

variable {P}

/-- The log is only a log. -/
theorem streamDecryptLogged_fst (raw : Bytes) (segmentsEnd pos : Nat) (pending : Option Bytes)
    (decryptor : DecryptorBE32) (plaintext : Bytes) :
    (streamDecryptLogged P raw segmentsEnd pos pending decryptor plaintext).1 =
      streamDecryptLoop P raw segmentsEnd pos pending decryptor plaintext := by
  fun_induction streamDecryptLogged P raw segmentsEnd pos pending decryptor plaintext with
  | case1 pos pending decryptor plaintext hlt hheader =>
      rw [streamDecryptLoop, if_pos hlt, if_pos hheader]
  | case2 pos pending decryptor plaintext hlt hheader segLen start hbody =>
      rw [streamDecryptLoop, if_pos hlt, if_neg hheader]
      exact (if_pos hbody).symm
  | case3 pos pending decryptor plaintext hlt hheader segLen start hbody e hpending =>
      rw [streamDecryptLoop, if_pos hlt, if_neg hheader, hpending]
      exact (if_neg hbody).symm
  | case4 pos pending decryptor plaintext hlt hheader segLen start hbody decryptor' plaintext' hpending rest ih =>
      rw [streamDecryptLoop, if_pos hlt, if_neg hheader, hpending]
      exact ih.trans (if_neg hbody).symm
  | case5 pos pending decryptor plaintext hnot =>
      rw [streamDecryptLoop, if_neg hnot]

theorem streamDecryptBytesLogged_fst (dataKey : DataKey) (raw : Bytes) :
    (streamDecryptBytesLogged P dataKey raw).1 = streamDecryptBytes P dataKey raw := by
  unfold streamDecryptBytesLogged streamDecryptBytes
  split
  · rfl
  · cases verifyFileHashBytes P raw with
    | error e => rfl
    | ok u =>
        dsimp only
        split
        · rfl
        · exact streamDecryptLogged_fst raw _ _ none _ []

/-- The reads follow each other from one position to another without gap or overlap. -/
def Tiles : (pos : Nat) → List (Nat × Nat) → (stop : Nat) → Prop
  | pos, [], stop => pos = stop
  | pos, read :: rest, stop => read.1 = pos ∧ read.1 ≤ read.2 ∧ Tiles read.2 rest stop

theorem Tiles.bounds {reads : List (Nat × Nat)} : ∀ {pos stop : Nat}, Tiles pos reads stop →
    pos ≤ stop ∧ ∀ read ∈ reads, pos ≤ read.1 ∧ read.1 ≤ read.2 ∧ read.2 ≤ stop := by
  induction reads with
  | nil =>
      intro pos stop h
      exact ⟨Nat.le_of_eq h, nofun⟩
  | cons read rest ih =>
      intro pos stop h
      obtain ⟨hstart, hle, hrest⟩ := h
      obtain ⟨hstop, hreads⟩ := ih hrest
      refine ⟨by omega, fun other hother => ?_⟩
      rcases List.mem_cons.mp hother with rfl | hother
      · omega
      · have := hreads other hother
        omega

/-- The loop reads on from where it is, never past the end of the segments, and moves on in every round. -/
theorem streamDecryptLogged_reads {raw : Bytes} {segmentsEnd pos : Nat} (hpos : pos ≤ segmentsEnd)
    (pending : Option Bytes) (decryptor : DecryptorBE32) (plaintext : Bytes) :
    ∃ stop ≤ segmentsEnd,
      Tiles pos (streamDecryptLogged P raw segmentsEnd pos pending decryptor plaintext).2.reads stop ∧
      2 * (streamDecryptLogged P raw segmentsEnd pos pending decryptor plaintext).2.reads.length ≤
        segmentsEnd - pos := by
  fun_induction streamDecryptLogged P raw segmentsEnd pos pending decryptor plaintext with
  | case1 pos pending decryptor plaintext hlt hheader => exact ⟨pos, hpos, rfl, Nat.zero_le _⟩
  | case2 pos pending decryptor plaintext hlt hheader segLen start hbody =>
      simp only [streamSegmentHeaderLen] at hheader
      refine ⟨pos + 4, by omega, ⟨rfl, by simp, rfl⟩, ?_⟩
      simp only [List.length_singleton]
      omega
  | case3 pos pending decryptor plaintext hlt hheader segLen start hbody e hpending =>
      simp only [streamSegmentHeaderLen] at hheader
      refine ⟨start + segLen, by omega, ⟨rfl, by simp, rfl, by simp, rfl⟩, ?_⟩
      simp only [List.length_cons, List.length_nil]
      omega
  | case4 pos pending decryptor plaintext hlt hheader segLen start hbody decryptor' plaintext' hpending rest ih =>
      have hstart : start = pos + 4 := rfl
      obtain ⟨stop, hstop, htiles, hlength⟩ := ih (by omega)
      have hlength : 2 * rest.2.reads.length ≤ segmentsEnd - (start + segLen) := hlength
      refine ⟨stop, hstop, ⟨rfl, by simp, rfl, by simp, htiles⟩, ?_⟩
      simp only [List.length_cons]
      omega
  | case5 pos pending decryptor plaintext hnot => exact ⟨pos, hpos, rfl, Nat.zero_le _⟩

/-- A segment under its prefix is the part of the buffer that both were read from. -/
theorem frame_segmentAt {raw : Bytes} {pos : Nat} (h : pos + 4 + segLenAt raw pos ≤ raw.length) :
    frame (segmentAt raw pos) = slice raw pos (pos + 4 + segLenAt raw pos) := by
  have hlength : (segmentAt raw pos).length = segLenAt raw pos := by
    rw [segmentAt, slice_length h]
    omega
  have hword : le32 (segLenAt raw pos) = slice raw pos (pos + 4) := by
    refine le32_ofLe32 ?_
    rw [slice_length (by omega)]
    omega
  calc frame (segmentAt raw pos)
      = le32 (segLenAt raw pos) ++ segmentAt raw pos := by rw [frame, hlength]
    _ = slice raw pos (pos + 4) ++ slice raw (pos + 4) (pos + 4 + segLenAt raw pos) := by rw [hword, segmentAt]
    _ = slice raw pos (pos + 4 + segLenAt raw pos) := slice_append_slice raw (by omega) (by omega)

/-- A loop that accepts reads up to the end of the segments; what it hands over, the pending segment first, opens to
what it returns, and written out again is what it has read. -/
theorem streamDecryptLogged_handed {raw : Bytes} {segmentsEnd pos : Nat} (hend : segmentsEnd ≤ raw.length)
    (hpos : pos ≤ segmentsEnd) {pending : Option Bytes} {decryptor : DecryptorBE32} {plaintext result : Bytes}
    (hok : (streamDecryptLogged P raw segmentsEnd pos pending decryptor plaintext).1 = .ok result) :
    Tiles pos (streamDecryptLogged P raw segmentsEnd pos pending decryptor plaintext).2.reads segmentsEnd ∧
      ∃ segments, (streamDecryptLogged P raw segmentsEnd pos pending decryptor plaintext).2.handed =
        pending.toList ++ segments ∧
        (openSegments P decryptor (pending.toList ++ segments)).map (plaintext ++ ·) = some result ∧
        segments.flatMap frame = slice raw pos segmentsEnd := by
  fun_induction streamDecryptLogged P raw segmentsEnd pos pending decryptor plaintext with
  | case1 pos pending decryptor plaintext hlt hheader => cases hok
  | case2 pos pending decryptor plaintext hlt hheader segLen start hbody => cases hok
  | case3 pos pending decryptor plaintext hlt hheader segLen start hbody e hpending => cases hok
  | case4 pos pending decryptor plaintext hlt hheader segLen start hbody decryptor' plaintext' hpending rest ih =>
      have hnext : start + segLen = pos + 4 + segLenAt raw pos := rfl
      obtain ⟨htiles, segments, hhanded, hopens, hsegments⟩ := ih (by omega) hok
      refine ⟨⟨rfl, by simp, rfl, by simp, htiles⟩, segmentAt raw pos :: segments, ?_, ?_, ?_⟩
      · show pending.toList ++ rest.2.handed = _
        rw [hhanded]
        rfl
      · -- The pending segment was opened in this round, the one just read becomes the pending one.
        rw [openSegments_pending decryptMessage, hpending]
        exact hopens
      · rw [List.flatMap_cons, hsegments, frame_segmentAt (by omega), hnext]
        exact slice_append_slice raw (by omega) (by omega)
  | case5 pos pending decryptor plaintext hnot =>
      obtain rfl : pos = segmentsEnd := by omega
      have hfinal : decryptFinal P decryptLastMessage pending decryptor plaintext = .ok result := hok
      refine ⟨rfl, [], (List.append_nil _).symm, ?_, by simp [slice]⟩
      rw [List.append_nil, openSegments_final decryptLastMessage, hfinal]
      rfl

/-! ### The file -/

/-- The nonce that a STREAM file names. -/
def streamNonceOf (raw : Bytes) : FixedBytes 7 := fixedBytes 7 (slice raw magicLen (magicLen + streamNonceLen))

/-- The checks before the loop: nothing is read from a file that fails one of them. -/
theorem streamDecryptBytesLogged_cases (dataKey : DataKey) (raw : Bytes) :
    (∃ e, streamDecryptBytesLogged P dataKey raw = (.error e, ⟨[], []⟩)) ∨
      (42 ≤ raw.length ∧ HashOk P raw ∧ slice raw 0 3 = streamMagic ∧
        streamDecryptBytesLogged P dataKey raw = streamDecryptLogged P raw (raw.length - 32) 10 none
          (DecryptorBE32.new dataKey (streamNonceOf raw)) []) := by
  unfold streamDecryptBytesLogged
  split
  · exact Or.inl ⟨_, rfl⟩
  · next hlen =>
      simp only [minStreamFileLen, magicLen, streamNonceLen, fileHashLen] at hlen
      cases hhash : verifyFileHashBytes P raw with
      | error e => exact Or.inl ⟨e, rfl⟩
      | ok u =>
          dsimp only
          split
          · exact Or.inl ⟨_, rfl⟩
          · next hmagic => exact Or.inr ⟨by omega, (verifyFileHashBytes_eq P raw).1.mp hhash, not_not.mp hmagic, rfl⟩

/-- The header, the segments and the trailer written out again. -/
theorem withHash_of_segments {raw : Bytes} (hlen : 42 ≤ raw.length) (hhash : HashOk P raw)
    (hmagic : slice raw 0 3 = streamMagic) {segments : List Bytes}
    (hsegments : segments.flatMap frame = slice raw 10 (raw.length - 32)) :
    withHash P (streamContent (streamNonceOf raw) segments) = raw := by
  have hnonce : (streamNonceOf raw).val = slice raw 3 10 :=
    fixedBytes_val (slice_length (show 10 ≤ raw.length by omega))
  have hcontent : streamContent (streamNonceOf raw) segments = slice raw 0 (raw.length - 32) := by
    rw [streamContent, streamHeader, hsegments, hnonce, ← hmagic, slice_append_slice raw (by omega) (by omega),
      slice_append_slice raw (by omega) (by omega)]
  calc withHash P (streamContent (streamNonceOf raw) segments)
      = slice raw 0 (raw.length - 32) ++ slice raw (raw.length - 32) raw.length := by
        rw [withHash, hcontent, hhash.2]
    _ = slice raw 0 raw.length := slice_append_slice raw (by omega) (by omega)
    _ = raw := by simp [slice]

/-- The parser consumes every byte exactly once. On every byte string, what its loop reads lies between the header and
the trailer, in at most half as many reads as there are bytes; and of a byte string that it accepts the reads tile that
part, the segments handed to the decryptor open to the plaintext it returns, and magic, nonce, these segments under
their prefixes and the hash give back the string. -/
theorem stream_parser_exact (P : Primitives) (dataKey : DataKey) (raw : Bytes) :
    (streamDecryptBytesLogged P dataKey raw).1 = streamDecryptBytes P dataKey raw ∧
    (∀ read ∈ (streamDecryptBytesLogged P dataKey raw).2.reads,
      10 ≤ read.1 ∧ read.1 ≤ read.2 ∧ read.2 + 32 ≤ raw.length) ∧
    2 * (streamDecryptBytesLogged P dataKey raw).2.reads.length ≤ raw.length ∧
    ∀ plaintext, streamDecryptBytes P dataKey raw = .ok plaintext →
      Tiles 10 (streamDecryptBytesLogged P dataKey raw).2.reads (raw.length - 32) ∧
      openSegments P (DecryptorBE32.new dataKey (streamNonceOf raw))
        (streamDecryptBytesLogged P dataKey raw).2.handed = some plaintext ∧
      withHash P (streamContent (streamNonceOf raw) (streamDecryptBytesLogged P dataKey raw).2.handed) = raw := by
  refine ⟨streamDecryptBytesLogged_fst dataKey raw, ?_⟩
  rw [← streamDecryptBytesLogged_fst]
  rcases streamDecryptBytesLogged_cases (P := P) dataKey raw with ⟨e, herror⟩ | ⟨hlen, hhash, hmagic, hloop⟩
  · rw [herror]
    exact ⟨nofun, Nat.zero_le _, nofun⟩
  · rw [hloop]
    have hstart : 10 ≤ raw.length - 32 := by omega
    obtain ⟨stop, hstop, htiles, hlength⟩ := @streamDecryptLogged_reads P raw _ _ hstart none
      (DecryptorBE32.new dataKey (streamNonceOf raw)) []
    refine ⟨fun read hread => ?_, by omega, fun plaintext hok => ?_⟩
    · have := htiles.bounds.2 read hread
      omega
    · obtain ⟨htiles, segments, hhanded, hopens, hsegments⟩ :=
        streamDecryptLogged_handed (by omega) (by omega) hok
      rw [hhanded]
      refine ⟨htiles, ?_, withHash_of_segments hlen hhash hmagic hsegments⟩
      simpa using hopens

/-- The file of two segments: four reads, each segment handed over once. -/
theorem stream_parser_exact_twoSegments :
    streamDecryptBytes plainPrimitives zeroKey twoSegmentFile = .ok [1, 2, 3] ∧
    (streamDecryptBytesLogged plainPrimitives zeroKey twoSegmentFile).2 =
      ⟨[(10, 14), (14, 32), (32, 36), (36, 53)], twoSegments⟩ ∧
    Tiles 10 [(10, 14), (14, 32), (32, 36), (36, 53)] (twoSegmentFile.length - 32) ∧
    openSegments plainPrimitives (DecryptorBE32.new zeroKey (streamNonceOf twoSegmentFile)) twoSegments =
      some [1, 2, 3] ∧
    withHash plainPrimitives (streamContent (streamNonceOf twoSegmentFile) twoSegments) = twoSegmentFile := by
  obtain ⟨-, hread⟩ := readBytes_stream plainPrimitives zeroKey ⟨List.replicate 7 0, seven_zeros⟩ twoSegments
  have haccepted : streamDecryptBytes plainPrimitives zeroKey twoSegmentFile = .ok [1, 2, 3] :=
    hread.symm.trans twoSegmentFile_read
  have hlog : (streamDecryptBytesLogged plainPrimitives zeroKey twoSegmentFile).2 =
      ⟨[(10, 14), (14, 32), (32, 36), (36, 53)], twoSegments⟩ := by decide +kernel
  obtain ⟨-, -, -, hexact⟩ := stream_parser_exact plainPrimitives zeroKey twoSegmentFile
  have h := hexact [1, 2, 3] haccepted
  rw [hlog] at h
  exact ⟨haccepted, hlog, h⟩

end CryptoService

end IronDrive
