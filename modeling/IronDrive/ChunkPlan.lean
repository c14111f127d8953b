import IronDrive.ChunkUpload

/-! The lengths that a session's chunks must have. The number of chunks is a ceiling division cut to 32 bits, so
the last of the chunks takes up what a cut number leaves over. -/

namespace IronDrive

open Lib FileTree PathSafety CryptoService FsService

namespace ChunkService

/-- The lengths that the chunks of a session must have, in index order. -/
def chunkLens (chunkSizeBytes totalChunks totalBytes : Nat) : List Nat :=
  (List.range totalChunks).map (expectedChunkLen totalBytes chunkSizeBytes totalChunks)

/-- No chunk is empty or larger than the chunk size, and together they are the file. -/
def Partitions (chunkSizeBytes totalChunks totalBytes : Nat) : Prop :=
  (∀ len ∈ chunkLens chunkSizeBytes totalChunks totalBytes, 1 ≤ len ∧ len ≤ chunkSizeBytes) ∧
    (chunkLens chunkSizeBytes totalChunks totalBytes).sum = totalBytes

theorem expectedChunkLen_last {n c k : Nat} (hk : c * k ≤ n) (hlt : n < 2 ^ 64) :
    expectedChunkLen n c (k + 1) k = n - c * k := by
  rw [expectedChunkLen, if_neg (by omega), Nat.add_sub_cancel, u64Max, Nat.min_eq_left (by omega)]

/-- With as many chunks as the file needs, they partition it. -/
theorem partitions_of_needed {n c k : Nat} (hk : c * k < n) (hn : n ≤ c * (k + 1)) (hlt : n < 2 ^ 64) :
    Partitions c (k + 1) n := by
  have hpos : 1 ≤ c := Nat.pos_of_ne_zero fun h => by simp [h] at hk hn; omega
  refine ⟨fun len hlen => ?_, sum_expectedChunkLen hk.le hlt⟩
  obtain ⟨i, hi, rfl⟩ := List.mem_map.mp hlen
  refine ⟨?_, expectedChunkLen_le hk.le hn hlt⟩
  rcases Nat.lt_or_ge (i + 1) (k + 1) with hinner | hlast
  · rw [expectedChunkLen, if_pos hinner]
    exact hpos
  · have hi' : i = k := by
      have := List.mem_range.mp hi
      omega
    rw [hi', expectedChunkLen_last hk.le hlt]
    omega

/-- With fewer chunks than the file needs, the last is too large. -/
theorem not_partitions_of_fewer {n c k : Nat} (hfew : c * (k + 1) < n) (hlt : n < 2 ^ 64) :
    ¬Partitions c (k + 1) n := by
  intro h
  have hk : c * k ≤ n := (Nat.mul_le_mul_left c (Nat.le_succ k)).trans hfew.le
  have hlast := (h.1 _ (List.mem_map_of_mem (List.mem_range.mpr (Nat.lt_succ_self k)))).2
  rw [expectedChunkLen_last hk hlt] at hlast
  rw [Nat.mul_succ] at hfew
  omega

/-- The cut number of chunks partitions the file exactly when nothing is cut. -/
theorem partitions_expectedTotalChunks {n c : Nat} (hc : 0 < c) (hn : c < n) (hlt : n < 2 ^ 64)
    (hsome : 0 < expectedTotalChunks n c) :
    Partitions c (expectedTotalChunks n c) n ↔ n ≤ c * (2 ^ 32 - 1) := by
  obtain ⟨k, hk, hlow, hhigh⟩ := needed_bounds hc hn
  have hcut : expectedTotalChunks n c = (k + 1) % 2 ^ 32 := by
    rw [expectedTotalChunks, if_neg (by omega), hk]
  rcases Nat.lt_or_ge k (2 ^ 32 - 1) with hfits | hwraps
  · rw [hcut, Nat.mod_eq_of_lt (by omega)]
    exact iff_of_true (partitions_of_needed hlow hhigh hlt)
      (hhigh.trans (Nat.mul_le_mul_left c hfits))
  · obtain ⟨j, hj⟩ : ∃ j, expectedTotalChunks n c = j + 1 := ⟨expectedTotalChunks n c - 1, by omega⟩
    have hfewer : j + 1 ≤ k := by omega
    rw [hj]
    refine iff_of_false (not_partitions_of_fewer ?_ hlt) fun hle => ?_
    · exact (Nat.mul_le_mul_left c hfewer).trans_lt hlow
    · exact absurd (hle.trans (Nat.mul_le_mul_left c hwraps)) (Nat.not_le.mpr hlow)

variable {crates : Crates} {config : AppConfig} {σ : Type}

/-- What `initUpload` returns is what it checked. -/
theorem initUpload_only {uploadId : String} {now : Int} {params : InitUploadParams} :
    (initUpload crates config uploadId now params).Only (fun _ => True) fun info =>
      checkInitUpload config params = .ok () ∧ info.totalChunks = params.totalChunks ∧
        info.totalBytes = params.totalBytes := by
  unfold initUpload
  cases hcheck : checkInitUpload config params with
  | error e => trivial
  | ok u =>
      refine ⟨trivial, fun made => ?_⟩
      cases made with
      | error e => trivial
      | ok u =>
          refine ⟨trivial, fun inserted => ?_⟩
          cases inserted with
          | error e => trivial
          | ok u => exact ⟨rfl, rfl, rfl⟩

/-- The chunks of a session that was opened partition its file exactly when their number fits 32 bits: as many
chunks as can be counted hold the file. -/
theorem chunks_partition_iff (crates : Crates) (config : AppConfig) (h : Handler serverSignature σ) (s : σ)
    (uploadId : String) (now : Int) (params : InitUploadParams) (info : InitUploadResult)
    (hchunk : 1 ≤ config.chunkSizeBytes) (hbytes : params.totalBytes < 2 ^ 64)
    (hopen : ((initUpload crates config uploadId now params).run h s).1 = .ok info) :
    Partitions config.chunkSizeBytes info.totalChunks info.totalBytes ↔
      info.totalBytes ≤ config.chunkSizeBytes * (2 ^ 32 - 1) := by
  obtain ⟨hcheck, hchunks, htotal⟩ := initUpload_only.of_run hopen
  obtain ⟨hsmall, -, hcount⟩ := checkInitUpload_ok hcheck
  have hsome := checkInitUpload_pos hcheck
  rw [hcount] at hsome
  rw [hchunks, htotal, hcount]
  exact partitions_expectedTotalChunks hchunk hsmall hbytes hsome

theorem chunks_partition_iff_twoBytes : Partitions 1 2 2 ↔ 2 ≤ 1 * (2 ^ 32 - 1) :=
  chunks_partition_iff sampleCrates sampleConfig (quietHandler calmOracle) emptyServer "u" (-2) twoBytes
    ⟨"u", 1, 2, 2, ""⟩ (by decide) (by decide) (by decide)

/-- One byte to a chunk, and room for a file of more than `2 ^ 32` of them. -/
def tinyChunks : AppConfig := { sampleConfig with maxUploadBytes := 2 ^ 33 }

/-- A file of `2 ^ 32 + 5` bytes in five chunks. -/
def cutParams : InitUploadParams := { twoBytes with totalChunks := 5, totalBytes := 2 ^ 32 + 5 }

theorem not_partitions : ¬∀ (crates : Crates) (config : AppConfig) (h : Handler serverSignature Server) (s : Server)
    (uploadId : String) (now : Int) (params : InitUploadParams) (info : InitUploadResult),
    1 ≤ config.chunkSizeBytes → params.totalBytes < 2 ^ 64 →
    ((initUpload crates config uploadId now params).run h s).1 = .ok info →
    Partitions config.chunkSizeBytes info.totalChunks info.totalBytes := by
  intro hall
  have h := (hall sampleCrates tinyChunks (quietHandler calmOracle) emptyServer "u" (-2) cutParams
    ⟨"u", 1, 5, 2 ^ 32 + 5, ""⟩ (by decide) (by decide) (by decide)).1
  exact absurd (h (2 ^ 32 + 1) (by decide)).2 (by decide)

end ChunkService

end IronDrive
