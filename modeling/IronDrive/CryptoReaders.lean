import IronDrive.CryptoFormat

/-! What the readers and the integrity checker compute, as functions of the bytes of the file. The
streaming hash check equals the in-memory one under every schedule of short reads; the checker's segment
loop is bounded by the end of the file, the reader's by the trailer. -/

namespace IronDrive

open Lib FileTree

namespace CryptoService

variable {P : Primitives} {t : FileTree} {path place : Path} {b : Bytes}

theorem hashContent_stops {content : Bytes} (remaining : Nat) : ∀ (file : OpenFile) (hasher : Bytes),
    t.node file.place = some (.file content) → file.cursor + remaining ≤ content.length →
      (hashContent file remaining hasher).Stops Quietly t
        (.ok (hasher ++ slice content file.cursor (file.cursor + remaining),
          { file with cursor := file.cursor + remaining })) t := by
  induction remaining using Nat.strong_induction_on with
  | _ remaining ih =>
      intro file hasher hnode hend
      by_cases hzero : remaining = 0
      · subst hzero
        rw [hashContent, if_pos rfl]
        refine ⟨?_, rfl⟩
        simp [slice]
      · rw [hashContent, if_neg hzero]
        refine Program.Ensures.bind (OpenFile.read_ensures hnode (by simp [hashBufSize]; omega) (by omega)
          (Q := fun r t' => t' = t ∧ ∃ n, 0 < n ∧ n ≤ remaining ∧
            r = .ok (slice content file.cursor (file.cursor + n), { file with cursor := file.cursor + n }))
          fun n hpos hle hlen => ⟨rfl, n, hpos, by omega, rfl⟩) ?_ ?_
        · rintro ⟨bytes, next⟩ t' ⟨rfl, n, hpos, hle, hread⟩
          cases hread
          have hlen : (slice content file.cursor (file.cursor + n)).length = n := by
            rw [slice_length (by omega)]
            omega
          simp only [hlen, Nat.ne_of_gt hpos, if_false]
          have hrest := ih (remaining - n) (by omega) { file with cursor := file.cursor + n }
            (hasher ++ slice content file.cursor (file.cursor + n)) hnode (by simp only; omega)
          simp only [show file.cursor + n + (remaining - n) = file.cursor + remaining by omega,
            List.append_assoc, slice_append_slice content (Nat.le_add_right file.cursor n)
              (show file.cursor + n ≤ file.cursor + remaining by omega)] at hrest
          exact hrest
        · rintro error t' ⟨-, n, -, -, hread⟩
          cases hread

/-- The streaming hash check decides what the in-memory check decides. -/
theorem verifyFileHash_stops (h : t.fileAt path = .ok (place, b)) :
    (verifyFileHash P path).Stops Quietly t (verifyFileHashBytes P b) t := by
  refine (metadata_stops_of_fileAt h _).bind ?_
  simp only [verifyFileHashBytes]
  by_cases hsmall : b.length < magicLen + fileHashLen
  · rw [if_pos hsmall, if_pos hsmall]
    exact Program.stops_fail _ t
  · rw [if_neg hsmall, if_neg hsmall]
    simp only [magicLen, fileHashLen] at hsmall ⊢
    have hnode := (locate_of_fileAt h).2
    refine (openFile_stops_of_fileAt h _).bind ?_
    have hhash := hashContent_stops (b.length - 32) ⟨place, 0⟩ [] hnode (by simp only; omega)
    simp only [Nat.zero_add, List.nil_append] at hhash
    refine hhash.bind ?_
    refine (OpenFile.readExact_stops ⟨place, b.length - 32⟩ _ hnode
      (show b.length - 32 + 32 ≤ b.length by omega)).bind ?_
    simp only [show b.length - 32 + 32 = b.length by omega]
    by_cases heq : (P.sha256 (slice b 0 (b.length - 32))).val = slice b (b.length - 32) b.length
    · simp only [heq, ne_eq, not_true_eq_false, if_false]
      exact Program.stops_done _ t
    · simp only [heq, ne_eq, not_false_eq_true, if_true]
      exact Program.stops_fail _ t

theorem hashContent_readsOnly (remaining : Nat) : ∀ (file : OpenFile) (hasher : Bytes),
    ReadsOnly (hashContent file remaining hasher) := by
  induction remaining using Nat.strong_induction_on with
  | _ remaining ih =>
      intro file hasher
      rw [hashContent]
      by_cases hzero : remaining = 0
      · rw [if_pos hzero]
        trivial
      · rw [if_neg hzero]
        apply (OpenFile.read_readsOnly file _ _).bind
        intro next _
        obtain ⟨bytes, file'⟩ := next
        by_cases heof : bytes.length = 0
        · simp only [heof, if_true]
          trivial
        · simp only [heof, if_false]
          exact ih _ (by omega) file' _

theorem verifyFileHash_readsOnly (P : Primitives) (path : Path) : ReadsOnly (verifyFileHash P path) := by
  unfold verifyFileHash
  apply (metadata_readsOnly path _).bind
  intro m _
  dsimp only
  split
  · trivial
  · apply (openFile_readsOnly path _).bind
    intro file _
    apply (hashContent_readsOnly _ file []).bind
    intro hashed _
    apply (OpenFile.readExact_readsOnly _ _ _).bind
    intro tail _
    split <;> trivial

theorem isStreamFormat_stops (h : t.fileAt path = .ok (place, b)) :
    (isStreamFormat path).Stops Quietly t (.ok (decide (slice b 0 3 = streamMagic))) t := by
  obtain ⟨hplace, hnode⟩ := locate_of_fileAt h
  have hopen : (fsCall (.openFile path)).Stops Quietly t (.ok (.ok place)) t := by
    refine fsCall_stops fun choice hquiet => ?_
    simp [FsCall.perform, hquiet, canonicalize_of_fileAt h, Except.mapError]
  refine hopen.bind ?_
  by_cases hlen : 3 ≤ b.length
  · have hread : (fsCall (.readExact place 0 3)).Stops Quietly t (.ok (.ok (slice b 0 3))) t := by
      refine fsCall_stops fun choice hquiet => ?_
      simp [FsCall.perform, hquiet, FsCall.rest, hnode, Except.bind, FsCall.readWhole, hlen,
        Except.mapError, slice]
    exact hread.bind (Program.stops_done _ t)
  · have hread : (fsCall (.readExact place 0 3)).Stops Quietly t
        (.ok (.error (IoError.ofKind .unexpectedEof))) t := by
      refine fsCall_stops fun choice hquiet => ?_
      simp [FsCall.perform, hquiet, FsCall.rest, hnode, Except.bind, FsCall.readWhole, hlen,
        Except.mapError]
    have hne : slice b 0 3 ≠ streamMagic := by
      intro heq
      have := congrArg List.length heq
      simp [slice, streamMagic] at this
      omega
    rw [decide_eq_false hne]
    exact hread.bind (Program.stops_done _ t)

variable (P) in
/-- What reading a stored file returns, as a function of its bytes. -/
def readBytes (dataKey : DataKey) (b : Bytes) : Except AppError Bytes :=
  if slice b 0 3 = streamMagic then streamDecryptBytes P dataKey b else decryptFileBytes P dataKey b

theorem readAndDecryptFile_stops (h : t.fileAt path = .ok (place, b)) (dataKey : DataKey) :
    (readAndDecryptFile P dataKey path).Stops Quietly t (readBytes P dataKey b) t := by
  refine (isStreamFormat_stops h).bind ?_
  by_cases hmagic : slice b 0 3 = streamMagic
  · simp only [hmagic, decide_true, if_true, readBytes]
    exact (readFile_stops_of_fileAt h _).bind (Program.stops_ofExcept _ t)
  · simp only [hmagic, decide_false, if_false, readBytes, Bool.false_eq_true]
    exact (readFile_stops_of_fileAt h _).bind (Program.stops_ofExcept _ t)

/-- The decryptor a STREAM file is read with. -/
def streamDecryptor (dataKey : DataKey) (b : Bytes) : DecryptorBE32 :=
  DecryptorBE32.new dataKey (fixedBytes 7 (slice b 3 10))

/-- The STREAM reader returns the plaintext of the segments framed exactly up to the trailer. -/
theorem streamDecryptBytes_eq_ok (dataKey : DataKey) (plaintext : Bytes) :
    streamDecryptBytes P dataKey b = .ok plaintext ↔
      42 ≤ b.length ∧ HashOk P b ∧ slice b 0 3 = streamMagic ∧
        ∃ segments, frames b (b.length - 32) 10 = some (segments, b.length - 32) ∧
          openSegments P (streamDecryptor dataKey b) segments = some plaintext := by
  unfold streamDecryptBytes
  by_cases hlen : b.length < minStreamFileLen
  · rw [if_pos hlen]
    simp only [minStreamFileLen, magicLen, streamNonceLen, fileHashLen] at hlen
    simp
    omega
  · rw [if_neg hlen]
    simp only [minStreamFileLen, magicLen, streamNonceLen, fileHashLen] at hlen ⊢
    by_cases hhash : HashOk P b
    · rw [verifyFileHashBytes_of_hashOk P hhash]
      by_cases hmagic : slice b 0 3 = streamMagic
      · have hloop := streamDecryptLoop_eq_ok (P := P) (show b.length - 32 ≤ b.length by omega)
          plaintext 10 none (streamDecryptor dataKey b) [] (by omega)
        simp only [Option.toList_none, List.nil_append, Option.map_id'] at hloop
        simp [hmagic, hhash, bind, Except.bind, show 42 ≤ b.length by omega]
        exact hloop
      · simp [hmagic, bind, Except.bind, throw, throwThe, MonadExceptOf.throw]
    · obtain ⟨error, herror⟩ := verifyFileHashBytes_of_not_hashOk P hhash
      simp [herror, hhash, bind, Except.bind]

/-- The checker's loop hands over the segments framed up to the end of the file: it stops with a last
segment pending that opens exactly when the whole list opens, and fails only when nothing could. -/
theorem streamVerifyLoop_ensures {stop : Nat} : ∀ (pos : Nat) (file : OpenFile) (pending : Option Bytes)
    (d : DecryptorBE32), t.node file.place = some (.file b) → file.cursor = pos → pos ≤ b.length →
      (streamVerifyLoop P file stop pos pending d).Ensures Quietly t fun result t' => t' = t ∧
        match result with
        | .ok (pending', d') => ∃ segments fin, frames b stop pos = some (segments, fin) ∧
            ((openSegments P d (pending.toList ++ segments)).isSome ↔
              (openSegments P d' pending'.toList).isSome)
        | .error _ => ∀ segments fin, frames b stop pos = some (segments, fin) →
            openSegments P d (pending.toList ++ segments) = none := by
  intro pos
  induction hn : stop - pos using Nat.strong_induction_on generalizing pos with
  | _ n ih =>
      intro file pending d hnode hcursor hpos
      rw [streamVerifyLoop]
      by_cases hlt : pos < stop
      · rw [if_pos hlt]
        by_cases hheader : pos + 4 ≤ b.length
        · refine (OpenFile.readExact_stops file _ hnode
            (show file.cursor + 4 ≤ b.length by omega)).ensures_bind ?_
          simp only [hcursor, show ofLe32 (slice b pos (pos + 4)) = segLenAt b pos from rfl]
          by_cases hbody : pos + 4 + segLenAt b pos ≤ b.length
          · refine (OpenFile.readExact_stops ⟨file.place, pos + 4⟩ _ hnode hbody).ensures_bind ?_
            simp only [show slice b (pos + 4) (pos + 4 + segLenAt b pos) = segmentAt b pos from rfl]
            have hpending := openSegments_pending (P := P) verifyMessage pending d [] (segmentAt b pos)
            cases hdec : decryptPending P verifyMessage pending d [] with
            | error e =>
                simp only [hdec] at hpending
                refine ⟨rfl, ?_⟩
                intro segments fin hframes
                rw [frames_step hlt hbody] at hframes
                obtain ⟨rest, -, hpair⟩ := Option.map_eq_some_iff.mp hframes
                cases hpair
                exact Option.map_eq_none_iff.mp (hpending rest.1)
            | ok next =>
                obtain ⟨d', plaintext⟩ := next
                simp only [hdec] at hpending
                have hopen : ∀ rest, (openSegments P d (pending.toList ++ segmentAt b pos :: rest)).isSome =
                    (openSegments P d' (segmentAt b pos :: rest)).isSome := by
                  intro rest
                  have := congrArg Option.isSome (hpending rest)
                  simpa only [Option.isSome_map] using this
                refine Program.Ensures.mono (ih (stop - (pos + 4 + segLenAt b pos)) (by omega)
                  (pos + 4 + segLenAt b pos) rfl _ (some (segmentAt b pos)) d' hnode rfl hbody) ?_
                rintro result t' ⟨rfl, hresult⟩
                refine ⟨rfl, ?_⟩
                rw [frames_step hlt hbody]
                cases result with
                | ok pair =>
                    obtain ⟨segments, fin, hframes, hiff⟩ := hresult
                    exact ⟨_, fin, by rw [hframes]; rfl, by rw [hopen]; exact hiff⟩
                | error e =>
                    intro segments fin hframes
                    obtain ⟨rest, hrest, hpair⟩ := Option.map_eq_some_iff.mp hframes
                    cases hpair
                    have := hresult rest.1 rest.2 hrest
                    rw [← Option.not_isSome_iff_eq_none] at this ⊢
                    rwa [hopen]
          · have heof := OpenFile.readExact_stops_eof ⟨file.place, pos + 4⟩
              (fun e => .internal ("STREAM verify: truncated segment body: " ++ e.message)) hnode
              (show 0 < segLenAt b pos by omega) (show b.length < pos + 4 + segLenAt b pos by omega)
            refine Program.Ensures.mono heof.bind_error ?_
            rintro result t' ⟨rfl, rfl⟩
            refine ⟨rfl, ?_⟩
            intro segments fin hframes
            rw [frames_none hlt (by omega)] at hframes
            cases hframes
        · have heof := OpenFile.readExact_stops_eof file
            (fun e => .internal ("STREAM verify: truncated segment header: " ++ e.message)) hnode
            (show 0 < streamSegmentHeaderLen by decide)
            (show b.length < file.cursor + streamSegmentHeaderLen by simp only [streamSegmentHeaderLen]; omega)
          refine Program.Ensures.mono heof.bind_error ?_
          rintro result t' ⟨rfl, rfl⟩
          refine ⟨rfl, ?_⟩
          intro segments fin hframes
          rw [frames_none hlt (by omega)] at hframes
          cases hframes
      · rw [if_neg hlt]
        refine ⟨rfl, [], pos, frames_stop b (by omega), ?_⟩
        rw [List.append_nil]

/-- What the checker accepts as a STREAM file: the framing may end anywhere in the file. -/
def StreamVerifies (P : Primitives) (dataKey : DataKey) (b : Bytes) : Prop :=
  HashOk P b ∧ slice b 0 3 = streamMagic ∧ ∃ segments fin,
    frames b (b.length - 32) 10 = some (segments, fin) ∧
      (openSegments P (streamDecryptor dataKey b) segments).isSome

theorem streamVerifyDecryption_ensures (h : t.fileAt path = .ok (place, b)) (dataKey : DataKey)
    (hmagic : slice b 0 3 = streamMagic) :
    (streamVerifyDecryption P dataKey path).Ensures Quietly t fun result t' => t' = t ∧
      (result = .ok () ↔ StreamVerifies P dataKey b) := by
  have hnode := (locate_of_fileAt h).2
  refine (openFile_stops_of_fileAt h _).ensures_bind ((OpenFile.metadata_stops hnode).ensures_bind ?_)
  by_cases hhash : HashOk P b
  · have hverify := verifyFileHash_stops (P := P) h
    rw [verifyFileHashBytes_of_hashOk P hhash] at hverify
    refine hverify.ensures_bind ((openFile_stops_of_fileAt h _).ensures_bind ?_)
    have hlen := hhash.1
    refine (OpenFile.readExact_stops ⟨place, 0⟩ _ hnode
      (show 0 + (magicLen + streamNonceLen) ≤ b.length by simp only [magicLen, streamNonceLen]; omega)).ensures_bind ?_
    have hheader : slice (slice b 0 10) 0 3 = slice b 0 3 := by
      simp [slice, List.take_take]
    have hnonce : slice (slice b 0 10) 3 10 = slice b 3 10 := by
      simp [slice, List.drop_take, List.take_take]
    simp only [magicLen, streamNonceLen, Nat.zero_add, Nat.reduceAdd, hheader, hmagic, ne_eq,
      not_true_eq_false, if_false, hnonce, fileHashLen]
    refine Program.Ensures.bind (streamVerifyLoop_ensures 10 ⟨place, 10⟩ none (streamDecryptor dataKey b)
      hnode rfl (by omega)) ?_ ?_
    · rintro ⟨pending, d⟩ t' ⟨rfl, segments, fin, hframes, hiff⟩
      have hfinal := openSegments_final (P := P) verifyLastMessage pending d []
      simp only [Option.toList_none, List.nil_append] at hiff
      have hverifies : StreamVerifies P dataKey b ↔ (openSegments P d pending.toList).isSome := by
        rw [← hiff]
        constructor
        · rintro ⟨-, -, segments', fin', hframes', hsome⟩
          rw [hframes] at hframes'
          cases hframes'
          exact hsome
        · exact fun hsome => ⟨hhash, hmagic, segments, fin, hframes, hsome⟩
      cases hdec : decryptFinal P verifyLastMessage pending d [] with
      | ok opened =>
          refine ⟨rfl, iff_of_true rfl (hverifies.mpr ?_)⟩
          rw [hdec] at hfinal
          obtain ⟨x, hx, -⟩ := Option.map_eq_some_iff.mp hfinal
          simp [hx]
      | error e =>
          refine ⟨rfl, iff_of_false (by simp) ?_⟩
          rw [hverifies]
          rw [hdec] at hfinal
          simp [Option.map_eq_none_iff.mp hfinal]
    · rintro e t' ⟨rfl, hnone⟩
      refine ⟨rfl, iff_of_false (by simp) ?_⟩
      rintro ⟨-, -, segments, fin, hframes, hsome⟩
      have := hnone segments fin hframes
      simp only [Option.toList_none, List.nil_append] at this
      rw [this] at hsome
      cases hsome
  · obtain ⟨error, herror⟩ := verifyFileHashBytes_of_not_hashOk P hhash
    have hverify := verifyFileHash_stops (P := P) h
    rw [herror] at hverify
    refine Program.Ensures.mono hverify.bind_error ?_
    rintro result t' ⟨rfl, rfl⟩
    exact ⟨rfl, iff_of_false (by simp) fun hv => hhash hv.1⟩

/-- Decrypting a single-shot file needs its hash, its magic and the tag of its one box. -/
theorem decryptFileBytesInner_eq_ok (dataKey : DataKey) (plaintext : Bytes) :
    decryptFileBytesInner P dataKey b = .ok plaintext ↔
      63 ≤ b.length ∧ HashOk P b ∧ slice b 0 3 = singleMagic ∧
        P.decrypt dataKey (fixedBytes 12 (slice (slice b 0 (b.length - 32)) 3 15))
          ((slice b 0 (b.length - 32)).drop 15) = some plaintext := by
  unfold decryptFileBytesInner HashOk
  simp only [minSingleFileLen, magicLen, nonceLen, tagLen, fileHashLen, Nat.reduceAdd]
  by_cases hlen : b.length < 63
  · rw [if_pos hlen]
    simp
    omega
  · rw [if_neg hlen]
    by_cases hmagic : slice b 0 3 = singleMagic
    · by_cases hhash : (P.sha256 (slice b 0 (b.length - 32))).val = slice b (b.length - 32) b.length
      · simp only [hmagic, hhash, ne_eq, not_true_eq_false, if_false]
        cases hdec : P.decrypt dataKey (fixedBytes 12 (slice (slice b 0 (b.length - 32)) 3 15))
            ((slice b 0 (b.length - 32)).drop 15) with
        | none => simp
        | some opened =>
            have h63 : 63 ≤ b.length := by omega
            have h35 : 35 ≤ b.length := by omega
            simp [h63, h35]
      · simp [hmagic, hhash]
    · simp [hmagic]

theorem decryptFileBytes_eq_ok (dataKey : DataKey) (plaintext : Bytes) :
    decryptFileBytes P dataKey b = .ok plaintext ↔ decryptFileBytesInner P dataKey b = .ok plaintext := by
  rw [decryptFileBytes]
  cases decryptFileBytesInner P dataKey b <;> simp

theorem verifyFileIntegrity_eq_ok (dataKey : DataKey) :
    verifyFileIntegrity P dataKey b = .ok ↔ ∃ plaintext, decryptFileBytes P dataKey b = .ok plaintext := by
  rw [verifyFileIntegrity, decryptFileBytes]
  cases decryptFileBytesInner P dataKey b <;> simp

/-- What the integrity checker accepts, as a property of the bytes. -/
def Verifies (P : Primitives) (dataKey : DataKey) (b : Bytes) : Prop :=
  if slice b 0 3 = streamMagic then StreamVerifies P dataKey b
  else ∃ plaintext, decryptFileBytes P dataKey b = .ok plaintext

theorem verifyFileIntegrityAsync_ensures (h : t.fileAt path = .ok (place, b)) (dataKey : DataKey) :
    (verifyFileIntegrityAsync P (some dataKey) path).Ensures Quietly t fun result t' => t' = t ∧
      (result = .ok .ok ↔ Verifies P dataKey b) := by
  refine (verifyFileHash_stops h).outcome.ensures_bind ?_
  by_cases hhash : HashOk P b
  · rw [verifyFileHashBytes_of_hashOk P hhash]
    refine (isStreamFormat_stops h).ensures_bind ?_
    by_cases hmagic : slice b 0 3 = streamMagic
    · simp only [hmagic, decide_true, if_true]
      rw [Verifies, if_pos hmagic]
      refine Program.Ensures.bind (streamVerifyDecryption_ensures h dataKey hmagic).outcome ?_ ?_
      · rintro inner t' ⟨inner', hinner, rfl, hiff⟩
        cases hinner
        cases inner with
        | ok u => exact ⟨rfl, by simpa using hiff⟩
        | error e => exact ⟨rfl, by simpa using hiff⟩
      · rintro error t' ⟨inner, hinner, -⟩
        cases hinner
    · simp only [hmagic, decide_false, Bool.false_eq_true, if_false]
      rw [Verifies, if_neg hmagic, ← verifyFileIntegrity_eq_ok]
      have hread : (fsCall (.readFile path)).Stops Quietly t (.ok (.ok b)) t := by
        refine fsCall_stops fun choice hquiet => ?_
        simp [FsCall.perform, hquiet, h, Except.map, Except.mapError]
      refine hread.ensures_bind ⟨rfl, by simp⟩
  · obtain ⟨error, herror⟩ := verifyFileHashBytes_of_not_hashOk P hhash
    rw [herror]
    refine ⟨rfl, iff_of_false (by simp) ?_⟩
    unfold Verifies
    split
    · exact fun hv => hhash hv.1
    · rintro ⟨plaintext, hplain⟩
      exact hhash ((decryptFileBytesInner_eq_ok dataKey plaintext).mp
        ((decryptFileBytes_eq_ok dataKey plaintext).mp hplain)).2.1

/-! ### The integrity check as a reader -/

theorem streamVerifyLoop_readsOnly {stop : Nat} : ∀ (pos : Nat) (file : OpenFile) (pending : Option Bytes)
    (decryptor : DecryptorBE32), ReadsOnly (streamVerifyLoop P file stop pos pending decryptor) := by
  intro pos
  induction h : stop - pos using Nat.strong_induction_on generalizing pos with
  | _ n ih =>
      intro file pending decryptor
      rw [streamVerifyLoop]
      by_cases hlt : pos < stop
      · rw [if_pos hlt]
        apply (OpenFile.readExact_readsOnly _ _ _).bind
        intro header _
        obtain ⟨segLenBuf, file'⟩ := header
        apply (OpenFile.readExact_readsOnly _ _ _).bind
        intro body _
        obtain ⟨segData, file''⟩ := body
        apply (Program.only_ofExcept _).bind
        intro opened _
        obtain ⟨decryptor', plaintext⟩ := opened
        exact ih _ (by omega) _ rfl file'' (some segData) decryptor'
      · rw [if_neg hlt]
        trivial

theorem streamVerifyDecryption_readsOnly (P : Primitives) (dataKey : DataKey) (path : Path) :
    ReadsOnly (streamVerifyDecryption P dataKey path) := by
  apply (openFile_readsOnly path _).bind
  intro file _
  apply (fsCall_attempt_only (.fileMetadata file.place) trivial _ id).bind
  intro m _
  apply (verifyFileHash_readsOnly P path).bind
  intro u _
  apply (openFile_readsOnly path _).bind
  intro file' _
  apply (OpenFile.readExact_readsOnly _ _ _).bind
  intro header _
  obtain ⟨bytes, file''⟩ := header
  dsimp only
  split
  · trivial
  · apply (streamVerifyLoop_readsOnly _ _ _ _).bind
    intro verified _
    apply (Program.only_ofExcept _).bind
    intro opened _
    trivial

theorem keeps_of_readOnly (op : FsCall) {answer : op.Answer} {t' : FileTree} (h : op.ReadOnly)
    (hstep : Quietly op t answer t') : t' = t := by
  obtain ⟨choice, -, hperform⟩ := hstep
  have htree := congrArg Prod.snd hperform
  exact htree.symm.trans (perform_readOnly h choice t)

theorem keeps_of_readsOnly {α : Type} {program : FsProgram α} (h : ReadsOnly program) (t : FileTree) :
    program.Ensures Quietly t fun _ t' => t' = t := by
  refine Program.Only.ensures (I := fun t' => t' = t) h ?_ rfl
  rintro op v answer v' hread rfl hstep
  exact keeps_of_readOnly op hread hstep

/-- The outcome of a program that only reads, whatever it is. -/
theorem outcome_keeps {α : Type} {program : FsProgram α} (h : ReadsOnly program) (t : FileTree) :
    program.outcome.Ensures Quietly t fun result t' => t' = t ∧ ∃ inner, result = .ok inner := by
  refine Program.Ensures.mono (keeps_of_readsOnly h t).outcome ?_
  rintro result t' ⟨inner, hinner, ht⟩
  exact ⟨ht, inner, hinner⟩

theorem isStreamFormat_returns (path : Path) (t : FileTree) :
    (isStreamFormat path).Ensures Quietly t fun result t' => t' = t ∧ ∃ stream, result = .ok stream := by
  intro opened t₁ hopen
  have ht₁ : t₁ = t := keeps_of_readOnly (.openFile path) trivial hopen
  subst ht₁
  cases opened with
  | error e => exact ⟨rfl, _, rfl⟩
  | ok place =>
      intro magic t₂ hmagic
      have ht₂ : t₂ = t₁ := keeps_of_readOnly (.readExact place 0 3) trivial hmagic
      cases magic <;> exact ⟨ht₂, _, rfl⟩

/-- The integrity check gives a status for every path, and changes nothing. -/
theorem verifyFileIntegrityAsync_returns (P : Primitives) (dataKey : Option DataKey) (path : Path) (t : FileTree) :
    (verifyFileIntegrityAsync P dataKey path).Ensures Quietly t fun result t' =>
      t' = t ∧ ∃ status, result = .ok status := by
  refine Program.Ensures.bind (outcome_keeps (verifyFileHash_readsOnly P path) t) ?_ ?_
  · rintro hashed t' ⟨rfl, -⟩
    cases hashed with
    | error e => exact ⟨rfl, _, rfl⟩
    | ok u =>
        cases dataKey with
        | none => exact ⟨rfl, _, rfl⟩
        | some key =>
            refine Program.Ensures.bind (isStreamFormat_returns path t') ?_ ?_
            · rintro stream t'' ⟨rfl, -⟩
              cases stream with
              | true =>
                  refine Program.Ensures.bind (outcome_keeps (streamVerifyDecryption_readsOnly P key path) t'') ?_ ?_
                  · rintro verified t' ⟨rfl, -⟩
                    cases verified <;> exact ⟨rfl, _, rfl⟩
                  · rintro error t' ⟨-, inner, hinner⟩
                    cases hinner
              | false =>
                  intro read t' hread
                  have ht' : t' = t'' := keeps_of_readOnly (.readFile path) trivial hread
                  cases read <;> exact ⟨ht', _, rfl⟩
            · rintro error t'' ⟨-, inner, hinner⟩
              cases hinner
  · rintro error t' ⟨-, inner, hinner⟩
    cases hinner

end CryptoService

end IronDrive
