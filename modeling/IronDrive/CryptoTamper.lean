import IronDrive.CryptoAgreement

/-! Tamper evidence of files at rest, against an ideal cipher: whatever decrypts under a key is on record
as having been sealed under it, in its place in its stream. The file hash takes no part in it, since
anyone can recompute it. -/

namespace IronDrive

open Lib FileTree

namespace CryptoService

/-- One act of encryption: the key, the place in a stream if it is a segment, and the ciphertext. -/
inductive Sealing
  | box (key : DataKey) (nonce : FixedBytes 12) (ciphertext : Bytes)
  | segment (key : DataKey) (nonce : FixedBytes 7) (counter : Nat) (last : Bool) (ciphertext : Bytes)

namespace Sealing

def key : Sealing → DataKey
  | box key _ _ => key
  | segment key _ _ _ _ => key

def ciphertext : Sealing → Bytes
  | box _ _ ciphertext => ciphertext
  | segment _ _ _ _ ciphertext => ciphertext

end Sealing

/-- Only what is on record decrypts, and only under its own key, nonce, counter and last flag. -/
structure Ideal (P : Primitives) (record : Set Sealing) : Prop where
  decrypt : ∀ key nonce ciphertext plaintext,
    P.decrypt key nonce ciphertext = some plaintext → Sealing.box key nonce ciphertext ∈ record
  streamDecrypt : ∀ key nonce counter last ciphertext plaintext,
    P.streamDecrypt key nonce counter last ciphertext = some plaintext →
      Sealing.segment key nonce counter last ciphertext ∈ record

/-- The file contains a ciphertext that was sealed under the key. -/
def ContainsSealing (record : Set Sealing) (dataKey : DataKey) (b : Bytes) : Prop :=
  ∃ sealing ∈ record, sealing.key = dataKey ∧ sealing.ciphertext <:+: b

/-- The nonce was used under the key for one stream: exactly these segments, the last of them marked. -/
def SealedStream (record : Set Sealing) (dataKey : DataKey) (nonce : FixedBytes 7)
    (segments : List Bytes) : Prop :=
  ∀ counter last ciphertext, Sealing.segment dataKey nonce counter last ciphertext ∈ record ↔
    segments[counter]? = some ciphertext ∧ (last = true ↔ counter + 1 = segments.length)

variable {P : Primitives} {b : Bytes} {record : Set Sealing}

/-- A stream opens only if its last segment was sealed as the last, with its own counter. -/
theorem openSegments_last (hP : Ideal P record) (segments : List Bytes) : ∀ (d : DecryptorBE32)
    {plaintext : Bytes}, openSegments P d segments = some plaintext → segments ≠ [] →
      ∃ ciphertext ∈ segments,
        Sealing.segment d.key d.nonce (d.counter + (segments.length - 1)) true ciphertext ∈ record := by
  induction segments with
  | nil => intro d plaintext _ hne; exact absurd rfl hne
  | cons segment rest ih =>
      intro d plaintext h _
      by_cases hrest : rest = []
      · subst hrest
        rw [openSegments_single] at h
        exact ⟨segment, by simp, hP.streamDecrypt _ _ _ _ _ _ h⟩
      · rw [openSegments, if_neg hrest] at h
        obtain ⟨⟨opened, d'⟩, hnext, hmore⟩ := Option.bind_eq_some_iff.mp h
        obtain ⟨tail, htail, -⟩ := Option.map_eq_some_iff.mp hmore
        rw [DecryptorBE32.decryptNext] at hnext
        split at hnext
        · cases hnext
        · obtain ⟨_, -, heq⟩ := Option.map_eq_some_iff.mp hnext
          cases heq
          obtain ⟨ciphertext, hmem, hrecord⟩ := ih _ htail hrest
          have hpos := List.length_pos_of_ne_nil hrest
          refine ⟨ciphertext, by simp [hmem], ?_⟩
          rw [show d.counter + ((segment :: rest).length - 1) = d.counter + 1 + (rest.length - 1) by
            rw [List.length_cons]; omega]
          exact hrecord

/-- Every framed segment is part of the file. -/
theorem frames_infix {file : Bytes} {stop pos fin : Nat} {segments : List Bytes}
    (h : frames file stop pos = some (segments, fin)) : ∀ segment ∈ segments, segment <:+: file := by
  induction segments generalizing pos with
  | nil => intro segment hmem; cases hmem
  | cons first rest ih =>
      intro segment hmem
      rcases frames_cases h with ⟨-, hnil, -⟩ | ⟨-, -, rest', hrest, hcons⟩
      · cases hnil
      · cases hcons
        rcases List.mem_cons.mp hmem with rfl | hmem
        · exact ((List.take_prefix _ _).isInfix).trans (List.drop_suffix _ _).isInfix
        · exact ih hrest segment hmem

/-- The reader or the checker accepts the bytes. -/
def Accepts (P : Primitives) (dataKey : DataKey) (b : Bytes) : Prop :=
  (∃ plaintext, readBytes P dataKey b = .ok plaintext) ∨ Verifies P dataKey b

/-- A STREAM file with a valid hash and no segment: at most a header and a trailer. -/
def Segmentless (P : Primitives) (b : Bytes) : Prop :=
  HashOk P b ∧ slice b 0 3 = streamMagic ∧ b.length ≤ 42

/-- What is accepted as STREAM has segments that open, or has none. -/
theorem segments_of_accepts {dataKey : DataKey} (h : Accepts P dataKey b) (hmagic : slice b 0 3 = streamMagic)
    (hsegments : ¬ Segmentless P b) : ∃ segments fin, frames b (b.length - 32) 10 = some (segments, fin) ∧
      segments ≠ [] ∧ (openSegments P (streamDecryptor dataKey b) segments).isSome := by
  have hverifies : StreamVerifies P dataKey b := by
    rcases h with ⟨plaintext, hread⟩ | hverifies
    · rw [readBytes, if_pos hmagic] at hread
      exact streamVerifies_of_read hread
    · rwa [Verifies, if_pos hmagic] at hverifies
  obtain ⟨hhash, -, segments, fin, hframes, hsome⟩ := hverifies
  refine ⟨segments, fin, hframes, ?_, hsome⟩
  rintro rfl
  rcases frames_cases hframes with ⟨hle, -, -⟩ | ⟨-, -, rest, -, hcons⟩
  · exact hsegments ⟨hhash, hmagic, by omega⟩
  · cases hcons

theorem containsSealing_of_accepts (hP : Ideal P record) {dataKey : DataKey} (h : Accepts P dataKey b)
    (hsegments : ¬ Segmentless P b) : ContainsSealing record dataKey b := by
  by_cases hmagic : slice b 0 3 = streamMagic
  · obtain ⟨segments, fin, hframes, hne, hsome⟩ := segments_of_accepts h hmagic hsegments
    obtain ⟨plaintext, hopen⟩ := Option.isSome_iff_exists.mp hsome
    obtain ⟨ciphertext, hmem, hrecord⟩ := openSegments_last hP segments _ hopen hne
    exact ⟨_, hrecord, rfl, frames_infix hframes ciphertext hmem⟩
  · have hplain : ∃ plaintext, decryptFileBytes P dataKey b = .ok plaintext := by
      rcases h with ⟨plaintext, hread⟩ | hverifies
      · rw [readBytes, if_neg hmagic] at hread
        exact ⟨plaintext, hread⟩
      · rwa [Verifies, if_neg hmagic] at hverifies
    obtain ⟨plaintext, hdecrypt⟩ := hplain
    rw [decryptFileBytes_eq_ok, decryptFileBytesInner_eq_ok] at hdecrypt
    refine ⟨_, hP.decrypt _ _ _ _ hdecrypt.2.2.2, rfl, ?_⟩
    exact (List.drop_suffix _ _).isInfix.trans (List.take_prefix _ _).isInfix

/-- A STREAM file that keeps only some segments of a sealed stream is refused by both. -/
theorem not_accepts_of_removed (hP : Ideal P record) {dataKey : DataKey} {nonce : FixedBytes 7}
    {segments kept : List Bytes} {trailer : Bytes} (hstream : SealedStream record dataKey nonce segments)
    (hlen : ∀ segment ∈ kept, segment.length < 2 ^ 32) (htrailer : trailer.length = 32)
    (hb : b = streamContent nonce kept ++ trailer) (hkept : kept.Sublist segments) (hne : kept ≠ segments)
    (hsegments : ¬ Segmentless P b) : ¬ Accepts P dataKey b := by
  intro h
  have hmagic : slice b 0 3 = streamMagic := by
    simp [hb, streamContent, streamHeader, slice, streamMagic]
  have hnonce : slice b 3 10 = nonce.val := by
    have hmiddle : slice (streamMagic ++ nonce.val ++ (kept.flatMap frame ++ trailer)) 3 10 = nonce.val :=
      slice_append_middle _ _ _ rfl (by rw [fixedBytes_length]; rfl)
    simpa [hb, streamContent, streamHeader, List.append_assoc] using hmiddle
  have hcut : b.length - 32 = 10 + (kept.flatMap frame).length := by
    simp only [hb, streamContent, List.length_append, streamHeader_length, htrailer]
    omega
  obtain ⟨found, fin, hframes, hfound, hsome⟩ := segments_of_accepts h hmagic hsegments
  have hkeptFrames : frames b (b.length - 32) 10 = some (kept, b.length - 32) := by
    rw [hb]
    exact frames_flatMap kept (streamHeader nonce) trailer (streamHeader_length nonce).symm
      (by rw [← hb, hcut, streamHeader_length]) hlen
  rw [hkeptFrames] at hframes
  cases hframes
  obtain ⟨plaintext, hopen⟩ := Option.isSome_iff_exists.mp hsome
  obtain ⟨ciphertext, -, hrecord⟩ := openSegments_last hP kept _ hopen hfound
  have hfixed : (streamDecryptor dataKey b).nonce = nonce := by
    rw [streamDecryptor, hnonce]
    exact Subtype.ext (fixedBytes_val (fixedBytes_length nonce))
  rw [hfixed] at hrecord
  have hpos := List.length_pos_of_ne_nil hfound
  have hlast := ((hstream _ _ _).mp hrecord).2.mp rfl
  have hcounter : (streamDecryptor dataKey b).counter = 0 := rfl
  exact hne (hkept.eq_of_length (by omega))

/-! ### Tamper evidence of the runs -/

/-- Under every ideal cipher and on every disk that stores `b`, the reader or the checker accepting `b`
means that `b` contains something sealed under the key, and that `b` is not a sealed stream with some of
its segments removed. -/
def TamperEvident (P : Primitives) (dataKey : DataKey) (b : Bytes) : Prop :=
  ∀ (Q : Primitives) (record : Set Sealing), Q.sha256 = P.sha256 → Ideal Q record →
    ∀ (oracle : Nat → Choice) (disk : Disk) (path place : Path), QuietOracle oracle →
      disk.tree.fileAt path = .ok (place, b) →
      ((∃ plaintext,
          ((readAndDecryptFile Q dataKey path).run (fsHandler oracle) disk).1 = .ok plaintext) ∨
        ((verifyFileIntegrityAsync Q (some dataKey) path).run (fsHandler oracle) disk).1 = .ok .ok) →
      ContainsSealing record dataKey b ∧
        ∀ (nonce : FixedBytes 7) (segments kept : List Bytes) (trailer : Bytes),
          SealedStream record dataKey nonce segments → kept.Sublist segments →
          (∀ segment ∈ kept, segment.length < 2 ^ 32) → trailer.length = 32 →
          b = streamContent nonce kept ++ trailer → kept = segments

/-- A cipher under which nothing ever decrypts. -/
def deafPrimitives (sha256 : Bytes → FixedBytes 32) : Primitives where
  sha256 := sha256
  encryptDetached _ _ _ := none
  decrypt _ _ _ := none
  streamEncrypt _ _ _ _ _ := none
  streamDecrypt _ _ _ _ _ := none

theorem deafPrimitives_ideal (sha256 : Bytes → FixedBytes 32) : Ideal (deafPrimitives sha256) ∅ where
  decrypt _ _ _ _ h := by cases h
  streamDecrypt _ _ _ _ _ _ h := by cases h

theorem verifies_of_segmentless {Q : Primitives} (hsha : Q.sha256 = P.sha256) (dataKey : DataKey)
    (h : Segmentless P b) : Verifies Q dataKey b := by
  obtain ⟨hhash, hmagic, hlen⟩ := h
  have hhash' : HashOk Q b := by
    rw [HashOk, hsha]
    exact hhash
  rw [Verifies, if_pos hmagic]
  exact ⟨hhash', hmagic, [], 10, frames_stop b (by omega), rfl⟩

theorem not_tamperEvident_of_segmentless {dataKey : DataKey} (h : Segmentless P b) :
    ¬ TamperEvident P dataKey b := by
  intro htamper
  obtain ⟨⟨sealing, hmem, -⟩, -⟩ := htamper (deafPrimitives P.sha256) ∅ rfl
    (deafPrimitives_ideal P.sha256) calmOracle (oneFileDisk b) ["f"] ["f"] calmOracle_quiet
    (oneFileDisk_fileAt b)
    (Or.inr ((run_verify_iff calmOracle_quiet (oneFileDisk_fileAt b) dataKey).mpr
      (verifies_of_segmentless rfl dataKey h)))
  exact hmem

/-- A stored file is tamper evident exactly when it is not a STREAM file without segments. -/
theorem tamperEvident_iff (P : Primitives) (dataKey : DataKey) (b : Bytes) :
    TamperEvident P dataKey b ↔ ¬ Segmentless P b := by
  constructor
  · exact fun htamper h => not_tamperEvident_of_segmentless h htamper
  · intro hsegments Q record hsha hideal oracle disk path place hquiet hfile haccepts
    have hsegments' : ¬ Segmentless Q b := by
      rintro ⟨hhash, hrest⟩
      rw [HashOk, hsha] at hhash
      exact hsegments ⟨hhash, hrest⟩
    have hbytes : Accepts Q dataKey b := by
      rcases haccepts with ⟨plaintext, hread⟩ | hverify
      · exact Or.inl ⟨plaintext, by rw [← hread, run_read_eq hquiet hfile]⟩
      · exact Or.inr ((run_verify_iff hquiet hfile dataKey).mp hverify)
    refine ⟨containsSealing_of_accepts hideal hbytes hsegments', ?_⟩
    intro nonce segments kept trailer hstream hkept hlen htrailer hb
    by_contra hne
    exact not_accepts_of_removed hideal hstream hlen htrailer hb hkept hne hsegments' hbytes

/-- A STREAM header followed directly by its hash: 42 bytes that anyone can compute. -/
def emptyStreamFile : Bytes :=
  withHash (deafPrimitives lengthHash) (streamContent ⟨List.replicate 7 0, by simp⟩ [])

/-- Reader and checker accept a file in which nothing was ever sealed, under any key. -/
theorem emptyStreamFile_accepted :
    ((readAndDecryptFile (deafPrimitives lengthHash) zeroKey ["f"]).run (fsHandler calmOracle)
        (oneFileDisk emptyStreamFile)).1 = .ok [] ∧
      ((verifyFileIntegrityAsync (deafPrimitives lengthHash) (some zeroKey) ["f"]).run
        (fsHandler calmOracle) (oneFileDisk emptyStreamFile)).1 = .ok .ok ∧
      Ideal (deafPrimitives lengthHash) ∅ ∧ ¬ ContainsSealing ∅ zeroKey emptyStreamFile ∧
      ¬ TamperEvident (deafPrimitives lengthHash) zeroKey emptyStreamFile := by
  have hhash : HashOk (deafPrimitives lengthHash) emptyStreamFile := hashOk_withHash _ (by decide)
  have hempty : Segmentless (deafPrimitives lengthHash) emptyStreamFile := ⟨hhash, by decide, by decide⟩
  refine ⟨?_, ?_, deafPrimitives_ideal lengthHash, ?_, not_tamperEvident_of_segmentless hempty⟩
  · rw [run_read_eq calmOracle_quiet (oneFileDisk_fileAt _), readBytes, if_pos (by decide),
      streamDecryptBytes_eq_ok]
    exact ⟨by decide, hhash, by decide, [], frames_stop _ (by decide), rfl⟩
  · rw [run_verify_iff calmOracle_quiet (oneFileDisk_fileAt _)]
    exact verifies_of_segmentless rfl zeroKey hempty
  · rintro ⟨sealing, hmem, -⟩
    exact hmem

end CryptoService

end IronDrive
