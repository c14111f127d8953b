import IronDrive.CryptoRoundTrip

/-! Checks that should agree. The streaming hash check and the one in memory do, however the file is read. The
integrity checker and the download path check the same hash and the same tags, but only the reader insists that
the segments end where the trailer begins. -/

namespace IronDrive

open Lib FileTree

namespace CryptoService

variable {P : Primitives} {b : Bytes}

/-- The streaming check passes exactly the files that the check in memory passes, under every schedule of short
reads, and says the same of the others. -/
theorem hash_checks_agree (P : Primitives) (oracle : Nat → Choice) (hquiet : QuietOracle oracle) (disk : Disk)
    (path place : Path) (content : Bytes) (hfile : disk.tree.fileAt path = .ok (place, content)) :
    (((verifyFileHash P path).run (fsHandler oracle) disk).1 = .ok () ↔ verifyFileHashBytes P content = .ok ()) ∧
      ((verifyFileHash P path).run (fsHandler oracle) disk).1 = verifyFileHashBytes P content := by
  have hrun : ((verifyFileHash P path).run (fsHandler oracle) disk).1 = verifyFileHashBytes P content :=
    (run_of_stops hquiet (verifyFileHash_stops hfile)).1
  refine ⟨?_, hrun⟩
  rw [hrun]

/-- A disk that holds one file. -/
def oneFileDisk (b : Bytes) : Disk := ⟨FileTree.empty.put ["f"] (.file b), 0⟩

theorem oneFileDisk_fileAt (b : Bytes) : (oneFileDisk b).tree.fileAt ["f"] = .ok (["f"], b) := by
  have hdest : FileTree.empty.createPlace ["f"] = .ok ["f"] := by decide
  exact fileAt_put hdest b

/-- Every read returns a single byte. -/
def drippingOracle : Nat → Choice := fun _ => ⟨none, 0⟩

theorem hash_checks_agree_dripping :
    (((verifyFileHash plainPrimitives ["f"]).run (fsHandler drippingOracle)
        (oneFileDisk (withHash plainPrimitives [1, 2, 3, 4, 5]))).1 = .ok () ↔
      verifyFileHashBytes plainPrimitives (withHash plainPrimitives [1, 2, 3, 4, 5]) = .ok ()) ∧
      ((verifyFileHash plainPrimitives ["f"]).run (fsHandler drippingOracle)
        (oneFileDisk (withHash plainPrimitives [1, 2, 3, 4, 5]))).1 =
          verifyFileHashBytes plainPrimitives (withHash plainPrimitives [1, 2, 3, 4, 5]) :=
  hash_checks_agree plainPrimitives drippingOracle (fun _ => rfl) _ ["f"] ["f"] _ (oneFileDisk_fileAt _)

/-! ### The checker and the reader -/

/-- The framed segments authenticate but run past the trailer's first byte: into the trailer, or, in a
file too short for a header and a trailer, because the header already does. -/
def OverrunsTrailer (P : Primitives) (dataKey : DataKey) (b : Bytes) : Prop :=
  HashOk P b ∧ slice b 0 3 = streamMagic ∧ ∃ segments fin,
    frames b (b.length - 32) 10 = some (segments, fin) ∧ b.length - 32 < fin ∧
      (openSegments P (streamDecryptor dataKey b) segments).isSome

theorem streamVerifies_of_read {dataKey : DataKey} {plaintext : Bytes}
    (h : streamDecryptBytes P dataKey b = .ok plaintext) : StreamVerifies P dataKey b := by
  obtain ⟨-, hhash, hmagic, segments, hframes, hopen⟩ := (streamDecryptBytes_eq_ok _ _).mp h
  exact ⟨hhash, hmagic, segments, _, hframes, by simp [hopen]⟩

/-- A STREAM file that verifies is read, unless its segments overrun the trailer. -/
theorem read_of_streamVerifies {dataKey : DataKey} (h : StreamVerifies P dataKey b)
    (hend : ¬ OverrunsTrailer P dataKey b) :
    ∃ plaintext, streamDecryptBytes P dataKey b = .ok plaintext := by
  obtain ⟨hhash, hmagic, segments, fin, hframes, hsome⟩ := h
  have hbounds := frames_bounds hframes
  have hfin : fin = b.length - 32 := by
    by_contra hne
    exact hend ⟨hhash, hmagic, segments, fin, hframes, by omega, hsome⟩
  obtain ⟨plaintext, hopen⟩ := Option.isSome_iff_exists.mp hsome
  exact ⟨plaintext, (streamDecryptBytes_eq_ok _ _).mpr
    ⟨by omega, hhash, hmagic, segments, by rw [hframes, hfin], hopen⟩⟩

theorem not_overrunsTrailer_of_read {dataKey : DataKey} {plaintext : Bytes}
    (h : streamDecryptBytes P dataKey b = .ok plaintext) : ¬ OverrunsTrailer P dataKey b := by
  rintro ⟨-, -, segments, fin, hframes, hlt, -⟩
  obtain ⟨-, -, -, segments', hframes', -⟩ := (streamDecryptBytes_eq_ok _ _).mp h
  rw [hframes] at hframes'
  cases hframes'
  exact Nat.lt_irrefl _ hlt

/-- On bytes, the checker and the reader agree except on files that overrun their trailer. -/
theorem verifies_iff_readBytes (P : Primitives) (dataKey : DataKey) (b : Bytes) :
    (Verifies P dataKey b ↔ ∃ plaintext, readBytes P dataKey b = .ok plaintext) ↔
      ¬ OverrunsTrailer P dataKey b := by
  by_cases hmagic : slice b 0 3 = streamMagic
  · rw [Verifies, if_pos hmagic]
    simp only [readBytes, hmagic, if_true]
    constructor
    · intro hagree hover
      obtain ⟨hhash, hm, segments, fin, hframes, hlt, hsome⟩ := hover
      obtain ⟨plaintext, hread⟩ := hagree.mp ⟨hhash, hm, segments, fin, hframes, hsome⟩
      exact not_overrunsTrailer_of_read hread ⟨hhash, hm, segments, fin, hframes, hlt, hsome⟩
    · intro hend
      refine ⟨fun hv => read_of_streamVerifies hv hend, fun hreads => ?_⟩
      obtain ⟨plaintext, hread⟩ := hreads
      exact streamVerifies_of_read hread
  · rw [Verifies, if_neg hmagic]
    simp only [readBytes, hmagic, if_false]
    exact iff_of_true trivial fun hover => hmagic hover.2.1

/-- The runs of checker and reader on a stored file decide what the byte-level predicates say. -/
theorem run_verify_iff {oracle : Nat → Choice} (hquiet : QuietOracle oracle) {disk : Disk} {path place : Path}
    (hfile : disk.tree.fileAt path = .ok (place, b)) (dataKey : DataKey) :
    ((verifyFileIntegrityAsync P (some dataKey) path).run (fsHandler oracle) disk).1 = .ok .ok ↔
      Verifies P dataKey b :=
  (run_of_ensures hquiet (verifyFileIntegrityAsync_ensures hfile dataKey)).2

theorem run_read_eq {oracle : Nat → Choice} (hquiet : QuietOracle oracle) {disk : Disk} {path place : Path}
    (hfile : disk.tree.fileAt path = .ok (place, b)) (dataKey : DataKey) :
    ((readAndDecryptFile P dataKey path).run (fsHandler oracle) disk).1 = readBytes P dataKey b :=
  (run_of_stops hquiet (readAndDecryptFile_stops hfile dataKey)).1

/-- The checker says `Ok` exactly when the reader returns, for a stored file that does not overrun its
trailer, and for no other. -/
theorem integrity_check_agrees_iff (P : Primitives) (oracle : Nat → Choice) (hquiet : QuietOracle oracle)
    (disk : Disk) (path place : Path) (b : Bytes) (hfile : disk.tree.fileAt path = .ok (place, b))
    (dataKey : DataKey) :
    (((verifyFileIntegrityAsync P (some dataKey) path).run (fsHandler oracle) disk).1 = .ok .ok ↔
      ∃ plaintext, ((readAndDecryptFile P dataKey path).run (fsHandler oracle) disk).1 = .ok plaintext) ↔
      ¬ OverrunsTrailer P dataKey b := by
  rw [run_verify_iff hquiet hfile, run_read_eq hquiet hfile]
  exact verifies_iff_readBytes P dataKey b

/-- The file of two segments verifies, the reader returns its three bytes, and nothing overruns its trailer. -/
theorem integrity_check_agrees_iff_twoSegments :
    ((((verifyFileIntegrityAsync plainPrimitives (some zeroKey) ["f"]).run (fsHandler calmOracle)
        (oneFileDisk twoSegmentFile)).1 = .ok .ok ↔
      ∃ plaintext, ((readAndDecryptFile plainPrimitives zeroKey ["f"]).run (fsHandler calmOracle)
        (oneFileDisk twoSegmentFile)).1 = .ok plaintext) ↔
      ¬ OverrunsTrailer plainPrimitives zeroKey twoSegmentFile) ∧
    ((verifyFileIntegrityAsync plainPrimitives (some zeroKey) ["f"]).run (fsHandler calmOracle)
      (oneFileDisk twoSegmentFile)).1 = .ok .ok ∧
    ((readAndDecryptFile plainPrimitives zeroKey ["f"]).run (fsHandler calmOracle)
      (oneFileDisk twoSegmentFile)).1 = .ok [1, 2, 3] := by
  have hagree := integrity_check_agrees_iff plainPrimitives calmOracle calmOracle_quiet
    (oneFileDisk twoSegmentFile) ["f"] ["f"] twoSegmentFile (oneFileDisk_fileAt _) zeroKey
  have hread : ((readAndDecryptFile plainPrimitives zeroKey ["f"]).run (fsHandler calmOracle)
      (oneFileDisk twoSegmentFile)).1 = .ok [1, 2, 3] := by
    rw [run_read_eq calmOracle_quiet (oneFileDisk_fileAt _), twoSegmentFile_read]
  have hend : ¬ OverrunsTrailer plainPrimitives zeroKey twoSegmentFile := by
    obtain ⟨-, hstream⟩ :=
      readBytes_stream plainPrimitives zeroKey ⟨List.replicate 7 0, seven_zeros⟩ twoSegments
    exact not_overrunsTrailer_of_read (hstream.symm.trans twoSegmentFile_read)
  exact ⟨hagree, (hagree.mpr hend).mpr ⟨[1, 2, 3], hread⟩, hread⟩

/-- The STREAM magic and its hash, with no nonce between them: 35 bytes. -/
def bareMagicFile : Bytes := withHash plainPrimitives streamMagic

/-- The checker passes a file of 35 bytes that the reader refuses. -/
theorem bareMagicFile_verifies_unread :
    ((verifyFileIntegrityAsync plainPrimitives (some zeroKey) ["f"]).run (fsHandler calmOracle)
        (oneFileDisk bareMagicFile)).1 = .ok .ok ∧
      ((readAndDecryptFile plainPrimitives zeroKey ["f"]).run (fsHandler calmOracle)
        (oneFileDisk bareMagicFile)).1 =
          .error (.internal "STREAM file too small to contain header + file hash") := by
  rw [run_verify_iff calmOracle_quiet (oneFileDisk_fileAt _),
    run_read_eq calmOracle_quiet (oneFileDisk_fileAt _)]
  have hhash : HashOk plainPrimitives bareMagicFile := hashOk_withHash _ (by decide)
  constructor
  · rw [Verifies, if_pos (by decide)]
    exact ⟨hhash, by decide, [], 10, frames_stop _ (by decide), rfl⟩
  · rw [readBytes, if_pos (by decide), streamDecryptBytes, if_pos (by decide)]

end CryptoService

end IronDrive
