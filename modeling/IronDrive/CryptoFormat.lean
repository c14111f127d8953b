import IronDrive.CryptoService

/-! What the two file formats are, apart from the code that writes and reads them: a single-shot file is
one sealed box, a STREAM file is a list of sealed segments under length prefixes; both end with the hash
of everything before it. `frames` reads length prefixes the way a file is read, bounded only by its end;
the segments of a well-formed file are the ones whose framing ends exactly at the trailer. -/

namespace IronDrive

open Lib

namespace CryptoService

variable (P : Primitives)

/-- Anything, followed by its hash. -/
def withHash (content : Bytes) : Bytes := content ++ (P.sha256 content).val

def singleContent (nonce : FixedBytes 12) (sealed : Bytes) : Bytes := singleMagic ++ nonce.val ++ sealed

/-- One segment under its length prefix. -/
def frame (segment : Bytes) : Bytes := le32 segment.length ++ segment

def streamHeader (nonce : FixedBytes 7) : Bytes := streamMagic ++ nonce.val

def streamContent (nonce : FixedBytes 7) (segments : List Bytes) : Bytes :=
  streamHeader nonce ++ segments.flatMap frame

@[simp] theorem withHash_length (content : Bytes) : (withHash P content).length = content.length + 32 := by
  simp [withHash]

@[simp] theorem frame_length (segment : Bytes) : (frame segment).length = 4 + segment.length := by
  simp [frame]

@[simp] theorem streamHeader_length (nonce : FixedBytes 7) : (streamHeader nonce).length = 10 := by
  simp [streamHeader, streamMagic]

@[simp] theorem singleContent_length (nonce : FixedBytes 12) (sealed : Bytes) :
    (singleContent nonce sealed).length = 15 + sealed.length := by
  simp [singleContent, singleMagic]
  omega

/-- The hash of a byte string's head is its last 32 bytes. -/
def HashOk (b : Bytes) : Prop :=
  35 ≤ b.length ∧ (P.sha256 (slice b 0 (b.length - 32))).val = slice b (b.length - 32) b.length

instance (b : Bytes) : Decidable (HashOk P b) := inferInstanceAs (Decidable (_ ∧ _))

theorem hashOk_withHash {content : Bytes} (h : 3 ≤ content.length) : HashOk P (withHash P content) := by
  have hcut : (withHash P content).length - 32 = content.length := by simp
  refine ⟨by simp; omega, ?_⟩
  rw [hcut]
  have hhead : slice (withHash P content) 0 content.length = content := by simp [slice, withHash]
  have htail : slice (withHash P content) content.length (withHash P content).length =
      (P.sha256 content).val := by
    simp [slice, withHash]
  rw [hhead, htail]

theorem verifyFileHashBytes_eq (b : Bytes) :
    (verifyFileHashBytes P b = .ok () ↔ HashOk P b) ∧
      (verifyFileHashBytes P b = .ok () ∨ ∃ error, verifyFileHashBytes P b = .error error) := by
  unfold verifyFileHashBytes HashOk
  simp only [magicLen, fileHashLen]
  by_cases hlen : b.length < 3 + 32
  · rw [if_pos hlen]
    exact ⟨by simp; omega, Or.inr ⟨_, rfl⟩⟩
  · rw [if_neg hlen]
    by_cases hhash : (P.sha256 (slice b 0 (b.length - 32))).val = slice b (b.length - 32) b.length
    · simp only [hhash, ne_eq, not_true_eq_false, if_false]
      exact ⟨by simp; omega, Or.inl trivial⟩
    · simp only [hhash, ne_eq, not_false_eq_true, if_true]
      exact ⟨by simp, Or.inr ⟨_, rfl⟩⟩

theorem verifyFileHashBytes_of_hashOk {b : Bytes} (h : HashOk P b) : verifyFileHashBytes P b = .ok () :=
  (verifyFileHashBytes_eq P b).1.mpr h

theorem verifyFileHashBytes_of_not_hashOk {b : Bytes} (h : ¬ HashOk P b) :
    ∃ error, verifyFileHashBytes P b = .error error :=
  (verifyFileHashBytes_eq P b).2.resolve_left fun hok => h ((verifyFileHashBytes_eq P b).1.mp hok)

/-- Seal the chunks of a stream in order; exactly the last is sealed as last. -/
def sealSegments (e : EncryptorBE32) : List Bytes → Option (List Bytes)
  | [] => some []
  | chunk :: rest =>
      if rest = [] then (e.encryptLast P chunk).map fun segment => [segment]
      else (e.encryptNext P chunk).bind fun next => (sealSegments next.2 rest).map fun segments =>
        next.1 :: segments

/-- Open the segments of a stream in order; exactly the last is opened as last. -/
def openSegments (d : DecryptorBE32) : List Bytes → Option Bytes
  | [] => some []
  | segment :: rest =>
      if rest = [] then d.decryptLast P segment
      else (d.decryptNext P segment).bind fun next => (openSegments next.2 rest).map fun plaintext =>
        next.1 ++ plaintext

variable {P}

theorem sealSegments_isSome (hP : P.Lawful) (chunks : List Bytes) : ∀ e : EncryptorBE32,
    (∀ chunk ∈ chunks, chunk.length ≤ maxPlaintextLen) → e.counter + chunks.length ≤ 2 ^ 32 →
      (sealSegments P e chunks).isSome := by
  induction chunks with
  | nil => intro e _ _; rfl
  | cons chunk rest ih =>
      intro e hlen hcount
      rw [List.length_cons] at hcount
      by_cases hrest : rest = []
      · obtain ⟨segment, hsegment⟩ := Option.isSome_iff_exists.mp
          (hP.streamEncrypt_isSome e.key e.nonce e.counter true chunk (hlen chunk (by simp)))
        simp [sealSegments, hrest, EncryptorBE32.encryptLast, hsegment]
      · obtain ⟨segment, hsegment⟩ := Option.isSome_iff_exists.mp
          (hP.streamEncrypt_isSome e.key e.nonce e.counter false chunk (hlen chunk (by simp)))
        have hpos := List.length_pos_of_ne_nil hrest
        have hmax : e.counter ≠ counterMax := by rw [counterMax]; omega
        obtain ⟨segments, hsegments⟩ := Option.isSome_iff_exists.mp
          (ih { e with counter := e.counter + 1 } (fun c hc => hlen c (by simp [hc]))
            (by show e.counter + 1 + rest.length ≤ 2 ^ 32; omega))
        simp [sealSegments, hrest, EncryptorBE32.encryptNext, hmax, hsegment, hsegments]

/-- A segment is its chunk and the tag. -/
theorem sealSegments_lengths (hP : P.Lawful) (chunks : List Bytes) :
    ∀ (e : EncryptorBE32) (segments : List Bytes), sealSegments P e chunks = some segments →
      segments.map List.length = chunks.map fun chunk => chunk.length + 16 := by
  induction chunks with
  | nil =>
      intro e segments h
      cases h
      rfl
  | cons chunk rest ih =>
      intro e segments h
      by_cases hrest : rest = []
      · simp only [sealSegments, hrest, if_true, EncryptorBE32.encryptLast, Option.map_eq_some_iff] at h
        obtain ⟨sealed, hsealed, rfl⟩ := h
        rw [hrest, List.map_singleton, List.map_singleton, hP.streamEncrypt_length _ _ _ _ _ _ hsealed]
      · simp only [sealSegments, hrest, if_false, EncryptorBE32.encryptNext, Option.bind_eq_some_iff,
          Option.map_eq_some_iff] at h
        obtain ⟨next, hnext, segments', hsegments, rfl⟩ := h
        split at hnext
        · cases hnext
        · obtain ⟨sealed, hsealed, rfl⟩ := Option.map_eq_some_iff.mp hnext
          rw [List.map_cons, List.map_cons, hP.streamEncrypt_length _ _ _ _ _ _ hsealed, ih _ _ hsegments]

theorem sealSegments_length (hP : P.Lawful) {bound : Nat} {chunks segments : List Bytes} {e : EncryptorBE32}
    (h : sealSegments P e chunks = some segments) :
    (∀ segment ∈ segments, segment.length < bound) ↔ ∀ chunk ∈ chunks, chunk.length + 16 < bound := by
  have hlens := sealSegments_lengths hP chunks e segments h
  calc (∀ segment ∈ segments, segment.length < bound)
      ↔ ∀ len ∈ segments.map List.length, len < bound := by simp only [List.forall_mem_map]
    _ ↔ ∀ len ∈ chunks.map (fun chunk => chunk.length + 16), len < bound := by rw [hlens]
    _ ↔ ∀ chunk ∈ chunks, chunk.length + 16 < bound := by simp only [List.forall_mem_map]

/-- Opening undoes sealing, with the same key, nonce and counters. -/
theorem openSegments_sealSegments (hP : P.Lawful) (chunks : List Bytes) :
    ∀ (e : EncryptorBE32) (segments : List Bytes), sealSegments P e chunks = some segments →
      openSegments P ⟨e.key, e.nonce, e.counter⟩ segments = some chunks.flatten := by
  induction chunks with
  | nil => intro e segments h; cases h; rfl
  | cons chunk rest ih =>
      intro e segments h
      by_cases hrest : rest = []
      · simp only [sealSegments, hrest, if_true, EncryptorBE32.encryptLast, Option.map_eq_some_iff] at h
        obtain ⟨sealed, hsealed, rfl⟩ := h
        have hopen := hP.streamDecrypt_streamEncrypt _ _ _ _ _ _ hsealed
        simpa [openSegments, DecryptorBE32.decryptLast, hrest] using hopen
      · simp only [sealSegments, hrest, if_false, EncryptorBE32.encryptNext, Option.bind_eq_some_iff,
          Option.map_eq_some_iff] at h
        obtain ⟨next, hnext, segments', hsegments, rfl⟩ := h
        split at hnext
        · cases hnext
        · rename_i hmax
          obtain ⟨sealed, hsealed, rfl⟩ := Option.map_eq_some_iff.mp hnext
          have hopen := hP.streamDecrypt_streamEncrypt _ _ _ _ _ _ hsealed
          have hne : segments' ≠ [] := by
            rintro rfl
            cases rest with
            | nil => exact hrest rfl
            | cons c cs =>
                simp only [sealSegments] at hsegments
                split at hsegments
                · obtain ⟨s, -, hs⟩ := Option.map_eq_some_iff.mp hsegments
                  cases hs
                · obtain ⟨n, -, hn⟩ := Option.bind_eq_some_iff.mp hsegments
                  obtain ⟨s, -, hs⟩ := Option.map_eq_some_iff.mp hn
                  cases hs
          have hrec := ih _ _ hsegments
          simp only [openSegments, hne, if_false, DecryptorBE32.decryptNext, hmax, hopen, Option.map_some,
            Option.bind_some]
          simp only at hrec
          rw [hrec]
          rfl

/-- Read length-prefixed segments from `pos` while before `stop`, bounded only by the end of the file:
the segments, and the position after the last one. -/
def frames (file : Bytes) (stop pos : Nat) : Option (List Bytes × Nat) :=
  if pos < stop then
    if file.length < pos + 4 then none
    else
      let start := pos + 4
      let segLen := ofLe32 (slice file pos start)
      if file.length < start + segLen then none
      else (frames file stop (start + segLen)).map fun rest =>
        (slice file start (start + segLen) :: rest.1, rest.2)
  else some ([], pos)
termination_by stop - pos

theorem frames_stop (file : Bytes) {stop pos : Nat} (h : stop ≤ pos) :
    frames file stop pos = some ([], pos) := by
  rw [frames, if_neg (Nat.not_lt.mpr h)]

/-- The length a prefix at `pos` announces. -/
def segLenAt (file : Bytes) (pos : Nat) : Nat := ofLe32 (slice file pos (pos + 4))

/-- The segment that follows the length prefix at `pos`. -/
def segmentAt (file : Bytes) (pos : Nat) : Bytes := slice file (pos + 4) (pos + 4 + segLenAt file pos)

theorem frames_step {file : Bytes} {stop pos : Nat} (hlt : pos < stop)
    (hend : pos + 4 + segLenAt file pos ≤ file.length) :
    frames file stop pos = (frames file stop (pos + 4 + segLenAt file pos)).map fun rest =>
      (segmentAt file pos :: rest.1, rest.2) := by
  rw [frames, if_pos hlt, if_neg (by omega)]
  exact if_neg (Nat.not_lt.mpr hend)

/-- Framing past the end of the file fails. -/
theorem frames_none {file : Bytes} {stop pos : Nat} (hlt : pos < stop)
    (hend : file.length < pos + 4 + segLenAt file pos) : frames file stop pos = none := by
  rw [frames, if_pos hlt]
  by_cases hheader : file.length < pos + 4
  · rw [if_pos hheader]
  · rw [if_neg hheader]
    exact if_pos hend

/-- One step of framing: the segments end here, or one more segment follows. -/
theorem frames_cases {file : Bytes} {stop pos fin : Nat} {segments : List Bytes}
    (h : frames file stop pos = some (segments, fin)) :
    (stop ≤ pos ∧ segments = [] ∧ fin = pos) ∨
      (pos < stop ∧ pos + 4 + segLenAt file pos ≤ file.length ∧
        ∃ rest, frames file stop (pos + 4 + segLenAt file pos) = some (rest, fin) ∧
          segments = segmentAt file pos :: rest) := by
  by_cases hlt : pos < stop
  · by_cases hend : file.length < pos + 4 + segLenAt file pos
    · rw [frames_none hlt hend] at h
      cases h
    · rw [frames_step hlt (by omega)] at h
      obtain ⟨⟨rest, fin'⟩, hrest, hpair⟩ := Option.map_eq_some_iff.mp h
      cases hpair
      exact Or.inr ⟨hlt, by omega, rest, hrest, rfl⟩
  · rw [frames_stop file (by omega)] at h
    cases h
    exact Or.inl ⟨by omega, rfl, rfl⟩

/-- Framing never ends before its stop, nor past the end of the file. -/
theorem frames_bounds {file : Bytes} {stop pos fin : Nat} {segments : List Bytes}
    (h : frames file stop pos = some (segments, fin)) :
    stop ≤ fin ∧ pos ≤ fin ∧ (pos ≤ file.length → fin ≤ file.length) := by
  induction segments generalizing pos with
  | nil =>
      rcases frames_cases h with ⟨hle, -, rfl⟩ | ⟨-, -, rest, -, hcons⟩
      · exact ⟨hle, Nat.le_refl _, id⟩
      · cases hcons
  | cons segment segments ih =>
      rcases frames_cases h with ⟨-, hnil, -⟩ | ⟨hlt, hend, rest, hrest, hcons⟩
      · cases hnil
      · cases hcons
        have := ih hrest
        omega

/-- Well-formed segments are framed back, up to exactly where they end. -/
theorem frames_flatMap (segments : List Bytes) : ∀ (left right : Bytes) {stop pos : Nat},
    pos = left.length → stop = left.length + (segments.flatMap frame).length →
      (∀ segment ∈ segments, segment.length < 2 ^ 32) →
        frames (left ++ segments.flatMap frame ++ right) stop pos = some (segments, stop) := by
  induction segments with
  | nil =>
      intro left right stop pos hpos hstop _
      rw [frames_stop _ (by simp at hstop; omega)]
      simp at hstop
      rw [hstop, hpos]
  | cons segment rest ih =>
      intro left right stop pos hpos hstop hlen
      have hsegment := hlen segment (by simp)
      simp only [List.flatMap_cons, List.length_append, frame_length] at hstop
      have hfile : left ++ (segment :: rest).flatMap frame ++ right =
          (left ++ frame segment) ++ rest.flatMap frame ++ right := by
        simp [List.append_assoc]
      have hfront : left ++ (segment :: rest).flatMap frame ++ right =
          left ++ le32 segment.length ++ (segment ++ rest.flatMap frame ++ right) := by
        simp [frame, List.append_assoc]
      have hbody : left ++ (segment :: rest).flatMap frame ++ right =
          (left ++ le32 segment.length) ++ segment ++ (rest.flatMap frame ++ right) := by
        simp [frame, List.append_assoc]
      have hlength : (left ++ (segment :: rest).flatMap frame ++ right).length =
          left.length + 4 + segment.length + (rest.flatMap frame).length + right.length := by
        rw [hbody]
        simp only [List.length_append, le32_length]
        omega
      have hword : slice (left ++ (segment :: rest).flatMap frame ++ right) pos (pos + 4) =
          le32 segment.length := by
        rw [hfront]
        exact slice_append_middle _ _ _ hpos (by rw [hpos, le32_length])
      have hread : slice (left ++ (segment :: rest).flatMap frame ++ right) (pos + 4)
          (pos + 4 + segment.length) = segment := by
        rw [hbody]
        exact slice_append_middle _ _ _ (by simp [hpos]) (by simp [hpos])
      have hsegLen : segLenAt (left ++ (segment :: rest).flatMap frame ++ right) pos = segment.length := by
        rw [segLenAt, hword, ofLe32_le32_of_lt hsegment]
      rw [frames_step (by omega) (by omega), segmentAt, hsegLen, hread, hfile,
        ih (left ++ frame segment) right (by simp [hpos]; omega)
          (by simp only [List.length_append, frame_length]; omega) fun s hs => hlen s (by simp [hs])]
      rfl

/-! ### The loops of the two readers -/

theorem openSegments_single (d : DecryptorBE32) (segment : Bytes) :
    openSegments P d [segment] = d.decryptLast P segment := by
  simp [openSegments]

/-- One step of the lookahead: the pending segment is opened as one that is not the last. -/
theorem openSegments_pending (message : String) (pending : Option Bytes) (d : DecryptorBE32)
    (plaintext segment : Bytes) (rest : List Bytes) :
    (openSegments P d (pending.toList ++ segment :: rest)).map (plaintext ++ ·) =
      match decryptPending P message pending d plaintext with
      | .ok (d', plaintext') => (openSegments P d' (segment :: rest)).map (plaintext' ++ ·)
      | .error _ => none := by
  cases pending with
  | none => rfl
  | some previous =>
      cases hnext : d.decryptNext P previous with
      | none => simp [decryptPending, openSegments, hnext]
      | some next =>
          obtain ⟨opened, d'⟩ := next
          simp only [Option.toList_some, List.singleton_append, decryptPending, hnext]
          rw [openSegments, if_neg (List.cons_ne_nil _ _), hnext, Option.bind_some, Option.map_map]
          congr 1
          funext tail
          simp [List.append_assoc]

theorem openSegments_final (message : String) (pending : Option Bytes) (d : DecryptorBE32)
    (plaintext : Bytes) :
    (openSegments P d pending.toList).map (plaintext ++ ·) =
      (decryptFinal P message pending d plaintext).toOption := by
  cases pending with
  | none => simp [openSegments, decryptFinal, Except.toOption]
  | some segment =>
      rw [Option.toList_some, openSegments_single, decryptFinal]
      cases d.decryptLast P segment with
      | none => rfl
      | some opened => rfl

/-- A segment that would run past the trailer is refused. -/
theorem streamDecryptLoop_truncated {raw : Bytes} {stop pos : Nat} (hlt : pos < stop)
    (hbody : stop < pos + 4 + segLenAt raw pos) (pending : Option Bytes) (d : DecryptorBE32)
    (plaintext : Bytes) : ∃ error, streamDecryptLoop P raw stop pos pending d plaintext = .error error := by
  rw [streamDecryptLoop, if_pos hlt]
  by_cases hheader : pos + streamSegmentHeaderLen > stop
  · rw [if_pos hheader]
    exact ⟨_, rfl⟩
  · rw [if_neg hheader]
    exact ⟨_, if_pos hbody⟩

theorem streamDecryptLoop_step {raw : Bytes} {stop pos : Nat} (hlt : pos < stop)
    (hbody : pos + 4 + segLenAt raw pos ≤ stop) (pending : Option Bytes) (d : DecryptorBE32)
    (plaintext : Bytes) :
    streamDecryptLoop P raw stop pos pending d plaintext =
      (decryptPending P decryptMessage pending d plaintext).bind fun next =>
        streamDecryptLoop P raw stop (pos + 4 + segLenAt raw pos) (some (segmentAt raw pos)) next.1
          next.2 := by
  rw [streamDecryptLoop, if_pos hlt, if_neg (by simp only [streamSegmentHeaderLen]; omega)]
  exact if_neg (Nat.not_lt.mpr hbody)

theorem streamDecryptLoop_end {raw : Bytes} {stop pos : Nat} (hle : stop ≤ pos) (pending : Option Bytes)
    (d : DecryptorBE32) (plaintext : Bytes) :
    streamDecryptLoop P raw stop pos pending d plaintext =
      decryptFinal P decryptLastMessage pending d plaintext := by
  rw [streamDecryptLoop, if_neg (Nat.not_lt.mpr hle)]

/-- The in-memory loop accepts exactly the segments whose framing ends at the trailer. -/
theorem streamDecryptLoop_eq_ok {raw : Bytes} {stop : Nat} (hstop : stop ≤ raw.length) (result : Bytes) :
    ∀ (pos : Nat) (pending : Option Bytes) (d : DecryptorBE32) (plaintext : Bytes), pos ≤ stop →
      (streamDecryptLoop P raw stop pos pending d plaintext = .ok result ↔
        ∃ segments, frames raw stop pos = some (segments, stop) ∧
          (openSegments P d (pending.toList ++ segments)).map (plaintext ++ ·) = some result) := by
  intro pos
  induction hn : stop - pos using Nat.strong_induction_on generalizing pos with
  | _ n ih =>
      intro pending d plaintext hpos
      by_cases hlt : pos < stop
      · by_cases hbody : pos + 4 + segLenAt raw pos > stop
        · -- The segment would run past the trailer: the loop refuses it, and the framing ends too late.
          obtain ⟨error, herror⟩ :=
            streamDecryptLoop_truncated (P := P) hlt hbody pending d plaintext
          refine iff_of_false (by simp [herror]) ?_
          rintro ⟨segments, hframes, -⟩
          rcases frames_cases hframes with ⟨hle, -, -⟩ | ⟨-, -, rest, hrest, -⟩
          · omega
          · have := frames_bounds hrest
            omega
        · have hpending := openSegments_pending (P := P) decryptMessage pending d plaintext
            (segmentAt raw pos)
          rw [streamDecryptLoop_step hlt (by omega), frames_step hlt (by omega)]
          cases hdec : decryptPending P decryptMessage pending d plaintext with
          | error e =>
              simp only [hdec] at hpending
              refine iff_of_false (by simp [Except.bind]) ?_
              rintro ⟨segments, hframes, hopen⟩
              obtain ⟨⟨rest, fin⟩, -, hpair⟩ := Option.map_eq_some_iff.mp hframes
              cases hpair
              rw [hpending] at hopen
              cases hopen
          | ok next =>
              obtain ⟨d', plaintext'⟩ := next
              simp only [hdec] at hpending
              simp only [Except.bind]
              rw [ih (stop - (pos + 4 + segLenAt raw pos)) (by omega) _ rfl _ _ _ (by omega)]
              constructor
              · rintro ⟨segments, hframes, hopen⟩
                exact ⟨_, by rw [hframes]; rfl, by rw [hpending]; exact hopen⟩
              · rintro ⟨segments, hframes, hopen⟩
                obtain ⟨⟨rest, fin⟩, hrest, hpair⟩ := Option.map_eq_some_iff.mp hframes
                cases hpair
                exact ⟨rest, hrest, by rw [hpending] at hopen; exact hopen⟩
      · have heq : pos = stop := by omega
        have hfinal := openSegments_final (P := P) decryptLastMessage pending d plaintext
        rw [streamDecryptLoop_end (by omega)]
        constructor
        · intro hok
          refine ⟨[], by rw [frames_stop raw (by omega), heq], ?_⟩
          rw [List.append_nil, hfinal, hok]
          rfl
        · rintro ⟨segments, hframes, hopen⟩
          rw [frames_stop raw (by omega)] at hframes
          cases hframes
          rw [List.append_nil, hfinal] at hopen
          cases hdec : decryptFinal P decryptLastMessage pending d plaintext with
          | ok found => rw [hdec] at hopen; cases hopen; rfl
          | error e => rw [hdec] at hopen; cases hopen

end CryptoService

end IronDrive
