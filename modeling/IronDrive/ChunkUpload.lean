import Mathlib.Data.List.Forall2
import IronDrive.FsUploads

/-! Chunked uploads as a state machine over a session's row and its staging directory. One invariant
relates the chunk files to the accepted calls; every call of `receiveChunk` keeps it, accepted or not, and
the completion reads the chunks off it. -/

namespace IronDrive

open Lib FileTree PathSafety CryptoService FsService

namespace ChunkService

theorem chunkName_injective {i j : Nat} (h : chunkName i = chunkName j) : i = j := by
  have hchars := congrArg String.toList h
  simp only [chunkName, String.toList_ofList] at hchars
  have hdigits := congrArg (fun chars => Nat.ofDigitChars 10 chars 0) (List.append_cancel_right hchars)
  simpa [Nat.ofDigitChars_append, Nat.ofDigitChars_replicate_zero, Nat.ofDigitChars_ten_toDigits]
    using hdigits

theorem chunkName_ordinary (i : Nat) : Ordinary (chunkName i) := by
  have hlong : ∀ name : String, chunkName i = name → 6 ≤ name.toList.length := by
    intro name h
    rw [← h, chunkName, String.toList_ofList, List.length_append]
    simp
  constructor
  · intro h
    have := hlong "." h
    simp at this
  · intro h
    have := hlong ".." h
    simp at this

theorem toU32_natCast {n : Nat} (h : n < 2 ^ 32) : toU32 n = n := by
  rw [toU32]
  omega

theorem toU64_toI64 {n : Nat} (h : n < 2 ^ 64) : toU64 (toI64 n) = n := by
  have hmod : toI64 n % 2 ^ 64 = (n : Int) % 2 ^ 64 := by
    unfold toI64
    exact_mod_cast Int.bmod_emod (x := (n : Int)) (m := 2 ^ 64)
  rw [toU64, hmod]
  omega

/-- The number of chunks the file needs. -/
theorem needed_bounds {n c : Nat} (hc : 0 < c) (hn : c < n) :
    ∃ k, (n + c - 1) / c = k + 1 ∧ c * k < n ∧ n ≤ c * (k + 1) := by
  have hpos : 0 < (n + c - 1) / c := Nat.div_pos (by omega) hc
  obtain ⟨k, hk⟩ : ∃ k, (n + c - 1) / c = k + 1 := ⟨(n + c - 1) / c - 1, by omega⟩
  have hlow := Nat.div_mul_le_self (n + c - 1) c
  have hhigh := Nat.lt_mul_div_succ (n + c - 1) hc
  rw [hk] at hlow hhigh
  refine ⟨k, hk, ?_, ?_⟩
  · rw [Nat.succ_mul, Nat.mul_comm] at hlow
    omega
  · rw [Nat.mul_succ] at hhigh
    omega

/-- The chunks of a file cover it. -/
theorem expectedTotalChunks_eq {n c : Nat} (hc : 0 < c) (hn : c < n)
    (hcount : (n + c - 1) / c < 2 ^ 32) :
    ∃ k, expectedTotalChunks n c = k + 1 ∧ c * k ≤ n ∧ n ≤ c * (k + 1) := by
  obtain ⟨k, hk, hlow, hhigh⟩ := needed_bounds hc hn
  refine ⟨k, ?_, hlow.le, hhigh⟩
  rw [expectedTotalChunks, if_neg (by omega), hk, Nat.mod_eq_of_lt (by omega)]

/-- The expected lengths are at most the chunk size and add up to the file. -/
theorem expectedChunkLen_le {n c k i : Nat} (hk : c * k ≤ n) (hn : n ≤ c * (k + 1)) (hlt : n < 2 ^ 64) :
    expectedChunkLen n c (k + 1) i ≤ c := by
  rw [expectedChunkLen]
  split
  · exact Nat.le_refl c
  · rw [Nat.mul_succ] at hn
    simp only [Nat.add_sub_cancel, u64Max]
    omega

theorem sum_expectedChunkLen {n c k : Nat} (hk : c * k ≤ n) (hlt : n < 2 ^ 64) :
    ((List.range (k + 1)).map (expectedChunkLen n c (k + 1))).sum = n := by
  have hfull : (List.range k).map (expectedChunkLen n c (k + 1)) = List.replicate k c := by
    apply List.eq_replicate_iff.mpr
    refine ⟨by simp, ?_⟩
    intro len hlen
    obtain ⟨i, hi, rfl⟩ := List.mem_map.mp hlen
    rw [expectedChunkLen, if_pos (by have := List.mem_range.mp hi; omega)]
  have hlast : expectedChunkLen n c (k + 1) k = n - c * k := by
    rw [expectedChunkLen, if_neg (by omega), Nat.add_sub_cancel, u64Max, Nat.min_eq_left (by omega)]
  rw [List.range_succ, List.map_append, hfull, List.map_singleton, hlast, List.sum_append,
    List.sum_replicate_nat, List.sum_singleton, Nat.mul_comm]
  omega

variable {crates : Crates} {config : AppConfig} {row : ChunkedUpload} {start : FileTree}
  {accepted : List (Nat × Bytes)} {v : FileTree × List ChunkedUpload}

/-- The number of chunks a session expects, and the length of each. -/
def ChunkFits (config : AppConfig) (row : ChunkedUpload) (entry : Nat × Bytes) : Prop :=
  entry.1 < toU32 row.totalChunks ∧ entry.2.length =
    expectedChunkLen (toU64 row.totalBytes) config.chunkSizeBytes (toU32 row.totalChunks) entry.1

/-- The session's chunk files are the accepted payloads, its row is stored under its id, and outside the
staging directory the tree is the one the session started from. -/
structure Receiving (config : AppConfig) (row : ChunkedUpload) (start : FileTree)
    (accepted : List (Nat × Bytes)) (v : FileTree × List ChunkedUpload) : Prop where
  resolved : v.1.Resolved (stagingDir config row.id)
  dir : v.1.node (stagingDir config row.id) = some .dir
  chunk : ∀ i, v.1.node (chunkPath config row.id i) = (accepted.lookup i).map Node.file
  later : start.Extends v.1
  frame : ∀ p, ¬ stagingDir config row.id <+: p → v.1.node p = start.node p
  fits : ∀ entry ∈ accepted, ChunkFits config row entry
  nodup : (accepted.map Prod.fst).Nodup
  stored : ∃ n, { row with receivedChunks := n } ∈ v.2
  only : ∀ r ∈ v.2, r.id = row.id → ∃ n, r = { row with receivedChunks := n }

/-- The part of it that holds whatever the chunks' lengths are. -/
structure Collected (config : AppConfig) (row : ChunkedUpload) (start : FileTree)
    (accepted : List (Nat × Bytes)) (v : FileTree × List ChunkedUpload) : Prop where
  resolved : v.1.Resolved (stagingDir config row.id)
  dir : v.1.node (stagingDir config row.id) = some .dir
  chunk : ∀ i, v.1.node (chunkPath config row.id i) = (accepted.lookup i).map Node.file
  later : start.Extends v.1
  frame : ∀ p, ¬ stagingDir config row.id <+: p → v.1.node p = start.node p
  nodup : (accepted.map Prod.fst).Nodup
  stored : ∃ n, { row with receivedChunks := n } ∈ v.2
  only : ∀ r ∈ v.2, r.id = row.id → ∃ n, r = { row with receivedChunks := n }

theorem Receiving.collected (h : Receiving config row start accepted v) : Collected config row start accepted v :=
  ⟨h.resolved, h.dir, h.chunk, h.later, h.frame, h.nodup, h.stored, h.only⟩

theorem Collected.receiving (h : Collected config row start accepted v)
    (hfits : ∀ entry ∈ accepted, ChunkFits config row entry) : Receiving config row start accepted v :=
  ⟨h.resolved, h.dir, h.chunk, h.later, h.frame, hfits, h.nodup, h.stored, h.only⟩

theorem stagingDir_of_dataDir {config' : AppConfig} (hdir : config'.dataDir = config.dataDir) :
    stagingDir config' = stagingDir config := by
  funext uploadId
  rw [stagingDir, stagingDir, AppConfig.chunksDir, AppConfig.chunksDir, hdir]

/-- Only the data directory matters. -/
theorem Collected.of_dataDir {config' : AppConfig} (h : Collected config row start accepted v)
    (hdir : config'.dataDir = config.dataDir) : Collected config' row start accepted v := by
  have hstaging := stagingDir_of_dataDir hdir
  have hpath : chunkPath config' = chunkPath config := by
    funext uploadId i
    rw [chunkPath, chunkPath, hstaging]
  refine ⟨?_, ?_, ?_, h.later, ?_, h.nodup, h.stored, h.only⟩
  · rw [hstaging]
    exact h.resolved
  · rw [hstaging]
    exact h.dir
  · rw [hpath]
    exact h.chunk
  · rw [hstaging]
    exact h.frame

/-- The caller owns the session, and asks for its target type. -/
def Session.Owns (session : Session) (row : ChunkedUpload) : Prop :=
  row.userId = session.userId ∧ row.targetId = session.targetId ∧ row.targetType = session.targetType

theorem Collected.chunk_resolved (h : Collected config row start accepted v) (i : Nat) :
    v.1.Resolved (chunkPath config row.id i) := by
  refine h.resolved.snoc h.dir (chunkName_ordinary i) ?_
  intro absolute target hlink
  have hchunk := h.chunk i
  rw [chunkPath] at hchunk
  rw [hchunk] at hlink
  cases hlookup : accepted.lookup i with
  | none => rw [hlookup] at hlink; cases hlink
  | some data => rw [hlookup] at hlink; cases hlink

/-- A chunk file can be made under an index that has none. -/
theorem Collected.createNewPlace (h : Collected config row start accepted v) (i : Nat) :
    v.1.createNewPlace (chunkPath config row.id i) =
      if accepted.lookup i = none then .ok (chunkPath config row.id i) else .error .alreadyExists := by
  rw [createNewPlace_of_entry (locateEntry_of_resolved (h.chunk_resolved i)), h.chunk]
  simp only [Option.map_eq_none_iff]

/-- The row that the session's statements find. -/
theorem Collected.load (h : Collected config row start accepted v) (targetType : String) :
    (row.targetType = targetType → ∃ n, v.2.find? (fun r => r.id = row.id && r.targetType = targetType) =
      some { row with receivedChunks := n }) ∧
    (row.targetType ≠ targetType →
      v.2.find? (fun r => r.id = row.id && r.targetType = targetType) = none) := by
  constructor
  · intro htype
    obtain ⟨n, hmem⟩ := h.stored
    cases hfind : v.2.find? (fun r => r.id = row.id && r.targetType = targetType) with
    | none =>
        have := List.find?_eq_none.mp hfind _ hmem
        simp [htype] at this
    | some r =>
        have hid := List.find?_some hfind
        simp only [Bool.and_eq_true, decide_eq_true_eq] at hid
        obtain ⟨m, rfl⟩ := h.only r (List.mem_of_find?_eq_some hfind) hid.1
        exact ⟨m, rfl⟩
  · intro htype
    apply List.find?_eq_none.mpr
    intro r hmem hid
    simp only [Bool.and_eq_true, decide_eq_true_eq] at hid
    obtain ⟨m, rfl⟩ := h.only r hmem hid.1
    exact htype hid.2

theorem loadUploadRow_stops (t : FileTree) (rows : List ChunkedUpload) (uploadId targetType : String) :
    (loadUploadRow uploadId targetType).Stops ServerQuietly (t, rows)
      (.ok (rows.find? fun row => row.id = uploadId && row.targetType = targetType)) (t, rows) :=
  (statement_stops (.load uploadId targetType)).bind (orSqlx_stops _ _)

/-- A session's row is one of the table, of the caller, and not expired. -/
theorem requireSession_returns (t : FileTree) (rows : List ChunkedUpload) (now : Int) (session : Session) :
    (requireSession crates now session).Ensures ServerQuietly (t, rows) fun result v' => v' = (t, rows) ∧
      ∀ row, result = .ok row →
        rows.find? (fun row => row.id = session.uploadId && row.targetType = session.targetType) = some row ∧
        row.userId = session.userId ∧ row.targetId = session.targetId ∧
        isExpired crates now row.expiresAt = false := by
  unfold requireSession
  cases validateUploadId crates session.uploadId with
  | error e => exact ⟨rfl, nofun⟩
  | ok u =>
      refine (loadUploadRow_stops t rows session.uploadId session.targetType).ensures_bind ?_
      cases hrow : rows.find? fun row => row.id = session.uploadId && row.targetType = session.targetType with
      | none => exact ⟨rfl, nofun⟩
      | some row =>
          simp only [Program.okOr_some, Program.bind_eq, Program.done_bind]
          by_cases howns : row.userId ≠ session.userId ∨ row.targetId ≠ session.targetId
          · rw [if_pos howns]
            exact ⟨rfl, nofun⟩
          · rw [if_neg howns]
            obtain ⟨huser, htarget⟩ := not_or.mp howns
            by_cases hdate : isExpired crates now row.expiresAt
            · rw [if_pos hdate]
              exact ⟨rfl, nofun⟩
            · rw [if_neg hdate]
              refine ⟨rfl, fun found hfound => ?_⟩
              cases hfound
              exact ⟨rfl, not_not.mp huser, not_not.mp htarget, by simpa using hdate⟩

/-- The session's row is found by its owner, and by nobody else. -/
theorem requireSession_stops (h : Collected config row start accepted v)
    (huuid : crates.uuidParses row.id = true) {session : Session} (hid : session.uploadId = row.id)
    {now : Int} (hdate : isExpired crates now row.expiresAt = false) :
    (session.Owns row → ∃ n, (requireSession crates now session).Stops ServerQuietly v
      (.ok { row with receivedChunks := n }) v) ∧
    (¬ session.Owns row → (requireSession crates now session).Stops ServerQuietly v (.error .notFound) v) := by
  obtain ⟨t, rows⟩ := v
  have hvalid : validateUploadId crates session.uploadId = .ok () := by
    rw [validateUploadId, hid, if_pos huuid]
  obtain ⟨hfound, hmissing⟩ := h.load session.targetType
  have hload := loadUploadRow_stops t rows session.uploadId session.targetType
  simp only [requireSession, hvalid, Program.ofExcept_ok, Program.bind_eq, Program.done_bind]
  constructor
  · intro howns
    obtain ⟨n, hrow⟩ := hfound howns.2.2
    refine ⟨n, hload.bind ?_⟩
    simp only [hid, hrow, Program.okOr_some, Program.done_bind, howns.1, howns.2.1, hdate, ne_eq,
      not_true_eq_false, or_self, if_false, Bool.false_eq_true]
    exact Program.stops_done _ _
  · intro howns
    apply hload.bind
    by_cases htype : row.targetType = session.targetType
    · obtain ⟨n, hrow⟩ := hfound htype
      have hother : row.userId ≠ session.userId ∨ row.targetId ≠ session.targetId := by
        by_contra hboth
        obtain ⟨huser, htarget⟩ := not_or.mp hboth
        exact howns ⟨not_not.mp huser, not_not.mp htarget, htype⟩
      simp only [hid, hrow, Program.okOr_some, Program.done_bind, hother, if_true]
      exact Program.stops_fail _ _
    · simp only [hid, hmissing htype, Program.okOr_none, Program.fail_bind]
      exact Program.stops_fail _ _

/-- A chunk whose index is new is staged under its own name. -/
theorem stageChunk_stops (h : Collected config row start accepted v) {i : Nat}
    (hnew : accepted.lookup i = none) (data : Bytes) :
    (stageChunk config row.id i data).Stops Quietly v.1 (.ok ())
      (v.1.put (chunkPath config row.id i) (.file data)) := by
  have hnone : v.1.node (chunkPath config row.id i) = none := by rw [h.chunk, hnew]; rfl
  have hresolved := h.chunk_resolved i
  have hplace : v.1.createNewPlace (chunkPath config row.id i) = .ok (chunkPath config row.id i) := by
    rw [h.createNewPlace, if_pos hnew]
  have hadmits : v.1.Admits (chunkPath config row.id i) :=
    ⟨by simp [chunkPath], hresolved.dir, by simp [hnone]⟩
  have hcreate : (fsCall (.createNew (chunkPath config row.id i))).Stops Quietly v.1
      (.ok (.ok (chunkPath config row.id i))) (v.1.put (chunkPath config row.id i) (.file [])) :=
    fsCall_stops fun choice hquiet => by simp [FsCall.perform, hquiet, hplace, Except.mapError]
  refine (createDirAll_stops (createDirs_of_dir h.resolved h.dir)).bind (hcreate.bind ?_)
  have hwrite := writeBuffered_append_stops hadmits [] data fun e =>
    .internal ("Failed to write chunk: " ++ e.message)
  rw [List.nil_append] at hwrite
  exact hwrite.bind (OpenFile.flush_stops.bind OpenFile.syncData_stops)

/-- A second chunk of one index is refused. -/
theorem stageChunk_stops_conflict (h : Collected config row start accepted v) {i : Nat} {old : Bytes}
    (hold : accepted.lookup i = some old) (data : Bytes) :
    (stageChunk config row.id i data).Stops Quietly v.1 (.error (.conflict "Chunk already uploaded."))
      v.1 := by
  have hplace : v.1.createNewPlace (chunkPath config row.id i) = .error .alreadyExists := by
    rw [h.createNewPlace, if_neg (by simp [hold])]
  have hcreate : (fsCall (.createNew (chunkPath config row.id i))).Stops Quietly v.1
      (.ok (.error (IoError.ofKind .alreadyExists))) v.1 :=
    fsCall_stops fun choice hquiet => by simp [FsCall.perform, hquiet, hplace, Except.mapError]
  refine (createDirAll_stops (createDirs_of_dir h.resolved h.dir)).bind (hcreate.bind ?_)
  exact Program.stops_fail _ _

theorem countUploadedChunks_stops {t : FileTree} {uploadId : String}
    (hresolved : t.Resolved (stagingDir config uploadId))
    (hdir : t.node (stagingDir config uploadId) = some .dir) :
    ∃ n, (countUploadedChunks config uploadId).Stops Quietly t (.ok n) t := by
  have hexists : (fsCall (.tryExists (stagingDir config uploadId))).Stops Quietly t (.ok (.ok true)) t :=
    fsCall_stops fun choice hquiet => by
      simp [FsCall.perform, hquiet, FsCall.exists?, FsCall.stat, locate_of_resolved hresolved, hdir, bind,
        Except.bind, pure, Except.pure, Except.mapError]
  have hlist : (fsCall (.readDir (stagingDir config uploadId))).Stops Quietly t
      (.ok (.ok (t.children (stagingDir config uploadId), none))) t :=
    fsCall_stops fun choice hquiet => by
      have hfault : choice.fault = none := hquiet
      simp [FsCall.perform, hfault, FsCall.listDir, locate_of_resolved hresolved, hdir, bind, Except.bind,
        pure, Except.pure]
  exact ⟨_, hexists.bind (hlist.bind (Program.stops_done _ _))⟩

/-- Staging a new chunk extends the invariant by it. -/
theorem Collected.stage (h : Collected config row start accepted v) (entry : Nat × Bytes)
    (hnew : accepted.lookup entry.1 = none) :
    Collected config row start (accepted ++ [entry])
      (v.1.put (chunkPath config row.id entry.1) (.file entry.2), v.2) := by
  have hnone : v.1.node (chunkPath config row.id entry.1) = none := by rw [h.chunk, hnew]; rfl
  have hresolved := h.chunk_resolved entry.1
  have hadmits : v.1.Admits (chunkPath config row.id entry.1) :=
    ⟨by simp [chunkPath], hresolved.dir, by simp [hnone]⟩
  have hext := extends_put_file hresolved.not_symlink entry.2
  refine ⟨hext.resolved h.resolved, hext.dir _ h.dir, ?_, h.later.trans hext, ?_, ?_, h.stored, h.only⟩
  · intro i
    obtain ⟨index, data⟩ := entry
    by_cases hi : i = index
    · subst hi
      rw [node_put_self hadmits, List.lookup_append, hnew]
      simp
    · have hne : chunkPath config row.id i ≠ chunkPath config row.id index := by
        intro heq
        exact hi (chunkName_injective (by simpa [chunkPath] using heq))
      have hbeq : (i == index) = false := by simpa using hi
      rw [node_put_of_ne hne, h.chunk, List.lookup_append]
      simp [List.lookup_cons, hbeq]
  · intro p hp
    have hne : p ≠ chunkPath config row.id entry.1 := by
      intro heq
      exact hp (by rw [heq, chunkPath]; exact List.prefix_append _ _)
    rw [node_put_of_ne hne, h.frame p hp]
  · rw [List.map_append, List.map_singleton]
    refine List.nodup_append.mpr ⟨h.nodup, by simp, ?_⟩
    intro i hi j hj hij
    rw [List.mem_singleton] at hj
    obtain ⟨e, he, rfl⟩ := List.mem_map.mp hi
    rw [List.lookup_eq_none_iff] at hnew
    have := hnew e he
    simp [hij, hj] at this

/-- Counting the chunks changes a column nothing depends on. -/
theorem Collected.setReceived (h : Collected config row start accepted v) (n : Int) :
    Collected config row start accepted
      (v.1, v.2.map fun r => if r.id = row.id then { r with receivedChunks := n } else r) := by
  refine ⟨h.resolved, h.dir, h.chunk, h.later, h.frame, h.nodup, ⟨n, ?_⟩, ?_⟩
  · obtain ⟨m, hmem⟩ := h.stored
    exact List.mem_map.mpr ⟨_, hmem, by simp⟩
  · intro r hmem hid
    obtain ⟨old, hold, rfl⟩ := List.mem_map.mp hmem
    by_cases hsame : old.id = row.id
    · obtain ⟨m, rfl⟩ := h.only old hold hsame
      exact ⟨n, by simp⟩
    · simp only [hsame, if_false] at hid

/-- A chunk that the session still waits for, from its owner. -/
structure Due (config : AppConfig) (row : ChunkedUpload) (accepted : List (Nat × Bytes)) (session : Session)
    (entry : Nat × Bytes) : Prop where
  owns : session.Owns row
  fits : ChunkFits config row entry
  new : accepted.lookup entry.1 = none

section Receive

variable (h : Collected config row start accepted v) (huuid : crates.uuidParses row.id = true) {session : Session}
  (hid : session.uploadId = row.id) {now : Int} (hdate : isExpired crates now row.expiresAt = false) {i : Nat}
  {data : Bytes}

include h huuid hid hdate

/-- A chunk of its owner that fits and is new is accepted. -/
theorem receiveChunk_accepts (howns : session.Owns row) (hfits : ChunkFits config row (i, data))
    (hnew : accepted.lookup i = none) :
    (receiveChunk crates config now session i data).Ensures ServerQuietly v fun result v' =>
      (∃ received, result = .ok received) ∧ Collected config row start (accepted ++ [(i, data)]) v' := by
  obtain ⟨n, hrow⟩ := (requireSession_stops h huuid hid hdate).1 howns
  obtain ⟨t, rows⟩ := v
  apply hrow.ensures_bind
  dsimp only
  rw [if_neg (Nat.not_le.mpr hfits.1), if_neg (not_not.mpr hfits.2), hid]
  have hstaged := h.stage (i, data) hnew
  refine (onDisk_stops (stageChunk_stops h hnew data)).ensures_bind ?_
  obtain ⟨count, hcount⟩ := countUploadedChunks_stops hstaged.resolved hstaged.dir
  refine (onDisk_stops hcount).ensures_bind ?_
  refine (statement_stops (.setReceived row.id count)).ensures_bind ?_
  exact ⟨⟨_, rfl⟩, hstaged.setReceived count⟩

/-- One whose index has a chunk file is a conflict. -/
theorem receiveChunk_conflicts (howns : session.Owns row) (hfits : ChunkFits config row (i, data)) {old : Bytes}
    (hold : accepted.lookup i = some old) :
    (receiveChunk crates config now session i data).Stops ServerQuietly v
      (.error (.conflict "Chunk already uploaded.")) v := by
  obtain ⟨n, hrow⟩ := (requireSession_stops h huuid hid hdate).1 howns
  obtain ⟨t, rows⟩ := v
  apply hrow.bind
  dsimp only
  rw [if_neg (Nat.not_le.mpr hfits.1), if_neg (not_not.mpr hfits.2), hid]
  exact (onDisk_stops (stageChunk_stops_conflict h hold data)).bind_error

/-- Every call keeps what is collected: one that sends what is due is accepted and adds its payload, and any other is
rejected and changes nothing. -/
theorem receiveChunk_collects (i : Nat) (data : Bytes) :
    (receiveChunk crates config now session i data).Ensures ServerQuietly v fun result v' =>
      match result with
      | .ok _ => Collected config row start (accepted ++ [(i, data)]) v' ∧ Due config row accepted session (i, data)
      | .error _ => Collected config row start accepted v' ∧ ¬ Due config row accepted session (i, data) := by
  obtain ⟨howner, hstranger⟩ := requireSession_stops h huuid hid hdate
  by_cases howns : session.Owns row
  · by_cases hfits : ChunkFits config row (i, data)
    · cases hlookup : accepted.lookup i with
      | none =>
          refine Program.Ensures.mono (receiveChunk_accepts h huuid hid hdate howns hfits hlookup) ?_
          intro result v' h
          obtain ⟨⟨received, rfl⟩, hcollected⟩ := h
          exact ⟨hcollected, howns, hfits, hlookup⟩
      | some old =>
          refine Program.Ensures.mono (receiveChunk_conflicts h huuid hid hdate howns hfits hlookup) ?_
          intro result v' h
          obtain ⟨rfl, rfl⟩ := h
          exact ⟨h, fun hdue => Option.some_ne_none _ (hlookup.symm.trans hdue.new)⟩
    · obtain ⟨n, hrow⟩ := howner howns
      apply hrow.ensures_bind
      dsimp only
      by_cases hrange : toU32 row.totalChunks ≤ i
      · rw [if_pos hrange]
        exact ⟨h, fun hdue => hfits hdue.fits⟩
      · rw [if_neg hrange, if_pos fun hlen => hfits ⟨Nat.not_le.mp hrange, hlen⟩]
        exact ⟨h, fun hdue => hfits hdue.fits⟩
  · refine Program.Ensures.mono (hstranger howns).bind_error ?_
    intro result v' h
    obtain ⟨rfl, rfl⟩ := h
    exact ⟨h, fun hdue => howns hdue.owns⟩

end Receive

/-- Every call keeps the invariant. -/
theorem receiveChunk_ensures (h : Receiving config row start accepted v)
    (huuid : crates.uuidParses row.id = true) {session : Session} (hid : session.uploadId = row.id)
    {now : Int} (hdate : isExpired crates now row.expiresAt = false) (i : Nat) (data : Bytes) :
    (receiveChunk crates config now session i data).Ensures ServerQuietly v fun result v' =>
      match result with
      | .ok _ => Receiving config row start (accepted ++ [(i, data)]) v' ∧ Due config row accepted session (i, data)
      | .error _ => Receiving config row start accepted v' ∧ ¬ Due config row accepted session (i, data) := by
  refine (receiveChunk_collects h.collected huuid hid hdate i data).mono fun result v' hresult => ?_
  cases result with
  | ok received =>
      obtain ⟨hcollected, hdue⟩ := hresult
      refine ⟨hcollected.receiving fun entry hentry => ?_, hdue⟩
      rcases List.mem_append.mp hentry with hold | hnew
      · exact h.fits entry hold
      · rw [List.mem_singleton.mp hnew]
        exact hdue.fits
  | error error => exact ⟨hresult.1.receiving h.fits, hresult.2⟩

/-- A call of `receiveChunk`, by whoever makes it. -/
structure ReceiveCall where
  now : Int
  session : Session
  chunkIndex : Nat
  data : Bytes

/-- Make the calls one after the other, and keep what was accepted. -/
def receiveAll (crates : Crates) (config : AppConfig) (h : Handler serverSignature Server) :
    List ReceiveCall → Server → List (Nat × Bytes) × Server
  | [], server => ([], server)
  | call :: calls, server =>
      match (receiveChunk crates config call.now call.session call.chunkIndex call.data).run h server with
      | (.ok _, server') =>
          ((call.chunkIndex, call.data) :: (receiveAll crates config h calls server').1,
            (receiveAll crates config h calls server').2)
      | (.error _, server') => receiveAll crates config h calls server'

/-- What every call keeps, counting the accepted payloads, a run of calls keeps. -/
theorem receiveAll_invariant {h : Handler serverSignature Server} {I : List (Nat × Bytes) → Server → Prop}
    (calls : List ReceiveCall)
    (hstep : ∀ call ∈ calls, ∀ accepted server, I accepted server →
      match (receiveChunk crates config call.now call.session call.chunkIndex call.data).run h server with
      | (.ok _, server') => I (accepted ++ [(call.chunkIndex, call.data)]) server'
      | (.error _, server') => I accepted server') :
    ∀ (accepted : List (Nat × Bytes)) {server : Server}, I accepted server →
      I (accepted ++ (receiveAll crates config h calls server).1) (receiveAll crates config h calls server).2 := by
  induction calls with
  | nil =>
      intro accepted server hI
      simpa [receiveAll] using hI
  | cons call calls ih =>
      intro accepted server hI
      have hcall := hstep call (List.mem_cons_self ..) accepted server hI
      have hrest := ih fun other hother => hstep other (List.mem_cons_of_mem _ hother)
      rw [receiveAll]
      generalize (receiveChunk crates config call.now call.session call.chunkIndex call.data).run h server =
        outcome at hcall
      obtain ⟨result, server'⟩ := outcome
      cases result with
      | ok received =>
          have hlater := hrest _ hcall
          simpa [List.append_assoc] using hlater
      | error e => exact hrest _ hcall

/-- A run of calls keeps the invariant. -/
theorem receiveAll_receiving {oracle : Nat → Choice} (hquiet : QuietOracle oracle)
    (huuid : crates.uuidParses row.id = true) (calls : List ReceiveCall)
    (hcalls : ∀ call ∈ calls, call.session.uploadId = row.id ∧ isExpired crates call.now row.expiresAt = false)
    {accepted : List (Nat × Bytes)} {server : Server} (h : Receiving config row start accepted server.view) :
    Receiving config row start (accepted ++ (receiveAll crates config (quietHandler oracle) calls server).1)
      (receiveAll crates config (quietHandler oracle) calls server).2.view := by
  refine receiveAll_invariant (I := fun accepted server => Receiving config row start accepted server.view) calls ?_
    accepted h
  intro call hcall accepted server hreceiving
  have hstep := server_run_of_ensures hquiet (receiveChunk_ensures hreceiving huuid (hcalls call hcall).1
    (hcalls call hcall).2 call.chunkIndex call.data)
  split
  · next hrun =>
    rw [hrun] at hstep
    exact hstep.1
  · next hrun =>
    rw [hrun] at hstep
    exact hstep.1

def ReceiveCall.entry (call : ReceiveCall) : Nat × Bytes := (call.chunkIndex, call.data)

/-- The first of each index. -/
def firstOfEach : List (Nat × Bytes) → List (Nat × Bytes)
  | [] => []
  | entry :: entries => entry :: (firstOfEach entries).filter fun other => other.1 ≠ entry.1

/-- What is not there yet, of the entries from one on that is new. -/
theorem firstOfEach_new {accepted : List (Nat × Bytes)} {entry : Nat × Bytes} (hnew : accepted.lookup entry.1 = none)
    (entries : List (Nat × Bytes)) :
    (firstOfEach (entry :: entries)).filter (fun other => (accepted.lookup other.1).isNone) =
      entry :: (firstOfEach entries).filter fun other => ((accepted ++ [entry]).lookup other.1).isNone := by
  have hkept : (accepted.lookup entry.1).isNone = true := Option.isNone_iff_eq_none.mpr hnew
  rw [firstOfEach, List.filter_cons, if_pos hkept, List.filter_filter]
  refine congrArg (entry :: ·) (List.filter_congr fun other _ => ?_)
  obtain ⟨index, data⟩ := entry
  rw [List.lookup_append, List.lookup_cons]
  by_cases hsame : other.1 = index
  · simp [hsame]
  · have hother : (other.1 == index) = false := beq_eq_false_iff_ne.mpr hsame
    simp [hsame, hother]

/-- From one on whose index is taken. -/
theorem firstOfEach_old {accepted : List (Nat × Bytes)} {entry : Nat × Bytes} (hold : accepted.lookup entry.1 ≠ none)
    (entries : List (Nat × Bytes)) :
    (firstOfEach (entry :: entries)).filter (fun other => (accepted.lookup other.1).isNone) =
      (firstOfEach entries).filter fun other => (accepted.lookup other.1).isNone := by
  have hdropped : ¬ (accepted.lookup entry.1).isNone = true := fun h => hold (Option.isNone_iff_eq_none.mp h)
  rw [firstOfEach, List.filter_cons, if_neg hdropped, List.filter_filter]
  refine List.filter_congr fun other _ => ?_
  by_cases hsame : other.1 = entry.1
  · simp [hsame, hdropped]
  · simp [hsame]

/-- A run accepts, of each index, the first call of the owner that sends it in full. -/
theorem receiveAll_accepted {oracle : Nat → Choice} (hquiet : QuietOracle oracle)
    (huuid : crates.uuidParses row.id = true) {sends : ReceiveCall → Bool} (calls : List ReceiveCall)
    (hcalls : ∀ call ∈ calls, call.session.uploadId = row.id ∧ isExpired crates call.now row.expiresAt = false)
    (hsends : ∀ call ∈ calls, sends call = true ↔ call.session.Owns row ∧ ChunkFits config row call.entry) :
    ∀ {accepted : List (Nat × Bytes)} {server : Server}, Receiving config row start accepted server.view →
      (receiveAll crates config (quietHandler oracle) calls server).1 =
        (firstOfEach ((calls.filter sends).map ReceiveCall.entry)).filter fun entry =>
          (accepted.lookup entry.1).isNone := by
  induction calls with
  | nil =>
      intro accepted server _
      rfl
  | cons call calls ih =>
      intro accepted server h
      obtain ⟨hid, hdate⟩ := hcalls call (List.mem_cons_self ..)
      have hcall := hsends call (List.mem_cons_self ..)
      replace ih := @ih (fun other hother => hcalls other (List.mem_cons_of_mem _ hother))
        fun other hother => hsends other (List.mem_cons_of_mem _ hother)
      have hstep := server_run_of_ensures hquiet (receiveChunk_ensures h huuid hid hdate call.chunkIndex call.data)
      rw [receiveAll]
      generalize (receiveChunk crates config call.now call.session call.chunkIndex call.data).run
        (quietHandler oracle) server = outcome at hstep
      obtain ⟨result, server'⟩ := outcome
      cases result with
      | ok received =>
          obtain ⟨hreceiving, hdue⟩ := hstep
          have hnew : accepted.lookup call.entry.1 = none := hdue.new
          rw [List.filter_cons, if_pos (hcall.mpr ⟨hdue.owns, hdue.fits⟩), List.map_cons, firstOfEach_new hnew]
          exact congrArg (call.entry :: ·) (ih hreceiving)
      | error e =>
          obtain ⟨hreceiving, hnot⟩ := hstep
          refine (ih hreceiving).trans ?_
          by_cases hsent : sends call = true
          · obtain ⟨howns, hfits⟩ := hcall.mp hsent
            have hold : accepted.lookup call.entry.1 ≠ none := fun hnone => hnot ⟨howns, hfits, hnone⟩
            rw [List.filter_cons, if_pos hsent, List.map_cons, firstOfEach_old hold]
          · rw [List.filter_cons, if_neg hsent]

/-- Whatever lengths the chunks have, a run of calls keeps them. -/
theorem receiveAll_collects {oracle : Nat → Choice} (hquiet : QuietOracle oracle)
    (huuid : crates.uuidParses row.id = true) (calls : List ReceiveCall)
    (hcalls : ∀ call ∈ calls, call.session.uploadId = row.id ∧ isExpired crates call.now row.expiresAt = false)
    {accepted : List (Nat × Bytes)} {server : Server} (h : Collected config row start accepted server.view) :
    Collected config row start (accepted ++ (receiveAll crates config (quietHandler oracle) calls server).1)
      (receiveAll crates config (quietHandler oracle) calls server).2.view := by
  refine receiveAll_invariant (I := fun accepted server => Collected config row start accepted server.view) calls ?_
    accepted h
  intro call hcall accepted server hcollected
  have hstep := server_run_of_ensures hquiet (receiveChunk_collects hcollected huuid (hcalls call hcall).1
    (hcalls call hcall).2 call.chunkIndex call.data)
  split
  · next hrun =>
    rw [hrun] at hstep
    exact hstep.1
  · next hrun =>
    rw [hrun] at hstep
    exact hstep.1

/-- The key and the root of a session's target. -/
def targetKey (unlockState : UnlockState) (targetType targetId : String) : Except AppError DataKey :=
  if targetType = "space" then requireSpaceKey unlockState targetId
  else requireDataKey unlockState targetId

def targetRoot (config : AppConfig) (targetType targetId : String) : Path :=
  if targetType = "space" then spaceRoot config targetId else libraryRoot config targetId

theorem uploadTarget_eq (P : Primitives) (unlockState : UnlockState) (targetType targetId : String) :
    uploadTarget crates config P unlockState targetType targetId =
      uploadStreaming P crates.mimeFromFilename (targetKey unlockState targetType targetId)
        (targetRoot config targetType targetId) := by
  unfold uploadTarget targetKey targetRoot
  by_cases hspace : targetType = "space"
  · rw [if_pos hspace, if_pos hspace, if_pos hspace]
    rfl
  · rw [if_neg hspace, if_neg hspace, if_neg hspace]
    rfl

/-- The session's target can be written: the key is present, the path joins to a place that is no
directory, and the library or space does not contain the staging area. -/
structure Writable (config : AppConfig) (unlockState : UnlockState) (oracle : Nat → Choice) (disk : Disk)
    (row : ChunkedUpload) (key : DataKey) (target : Path) : Prop where
  key : targetKey unlockState row.targetType row.targetId = .ok key
  joined : ((safeJoin (targetRoot config row.targetType row.targetId) row.targetPath).run
    (fsHandler oracle) disk).1 = .ok target
  not_dir : disk.tree.node target ≠ some .dir
  apart : ∀ canonicalRoot, disk.tree.canonicalize (targetRoot config row.targetType row.targetId) =
    .ok canonicalRoot → ¬ canonicalRoot <+: config.chunksDir

section Complete

variable {unlockState : UnlockState} {oracle : Nat → Choice} {disk : Disk} {key : DataKey} {target : Path}

/-- What lies under the target's root does not lie in the staging directory. -/
theorem Writable.not_staged (h : Writable config unlockState oracle disk row key target)
    (hfresh : disk.tree.node (stagingDir config row.id) = none)
    {canonicalRoot p : Path}
    (hroot : disk.tree.canonicalize (targetRoot config row.targetType row.targetId) = .ok canonicalRoot)
    (hp : canonicalRoot <+: p) : ¬ stagingDir config row.id <+: p := by
  intro hstaged
  have hexists := (canonicalize_resolved hroot).2
  rcases List.prefix_or_prefix_of_prefix hp hstaged with hbelow | habove
  · rw [stagingDir, List.prefix_concat_iff] at hbelow
    rcases hbelow with heq | hchunks
    · rw [heq] at hexists
      exact hexists hfresh
    · exact h.apart canonicalRoot hroot hchunks
  · by_cases heq : stagingDir config row.id = canonicalRoot
    · rw [← heq] at hexists
      exact hexists hfresh
    · have := node_above habove heq hexists
      rw [hfresh] at this
      cases this

/-- The target is found in every tree the session passes through. -/
theorem Writable.joins (h : Writable config unlockState oracle disk row key target)
    (hfresh : disk.tree.node (stagingDir config row.id) = none) (hquiet : QuietOracle oracle)
    (hv : Collected config row disk.tree accepted v) :
    (safeJoin (targetRoot config row.targetType row.targetId) row.targetPath).Stops Quietly v.1
        (.ok target) v.1 ∧
      v.1.node target ≠ some .dir ∧ ¬ stagingDir config row.id <+: target ∧
      ∃ canonicalRoot existing appended, Joined v.1 canonicalRoot target existing appended := by
  obtain ⟨canonicalRoot, existing, appended, hroot, hjoined⟩ :=
    run_of_ensures (fun _ => trivial) (safeJoin_ensures disk.tree _ _) target h.joined
  have hsame : SameBelow canonicalRoot disk.tree v.1 := fun p hp => hv.frame p (h.not_staged hfresh hroot hp)
  have hunder : canonicalRoot <+: target := by
    rw [hjoined.eq]
    exact hjoined.under.trans (List.prefix_append _ _)
  have hstops := safeJoin_stays hquiet hroot hv.later hsame h.joined
  refine ⟨hstops, by rw [hsame target hunder]; exact h.not_dir, h.not_staged hfresh hroot hunder, ?_⟩
  -- A run on the later tree, to read off the shape of the target there.
  have hstops' : (safeJoin (targetRoot config row.targetType row.targetId) row.targetPath).Stops Quietly
      (Disk.mk v.1 0).tree (.ok target) v.1 := hstops
  obtain ⟨canonicalRoot', existing', appended', -, hjoined'⟩ :=
    run_of_ensures (fun _ => trivial) (safeJoin_ensures (Disk.mk v.1 0).tree _ _) target
      (run_of_stops calmOracle_quiet hstops').1
  exact ⟨canonicalRoot', existing', appended', hjoined'⟩

theorem targetPath_ne (h : Writable config unlockState oracle disk row key target) :
    row.targetPath ≠ "" := by
  intro hempty
  have hjoined := h.joined
  rw [hempty] at hjoined
  cases hjoined

/-- The presence check passes exactly when every chunk file is there. -/
theorem checkChunksPresent_stops {t : FileTree} (paths : List Path) : ∀ index : Nat,
    (∀ path ∈ paths, t.Resolved path) →
      ((∀ path ∈ paths, t.node path ≠ none) →
        (checkChunksPresent paths index).Stops Quietly t (.ok ()) t) ∧
      ((∃ path ∈ paths, t.node path = none) → ∃ error,
        (checkChunksPresent paths index).Stops Quietly t (.error error) t) := by
  induction paths with
  | nil =>
      intro index _
      refine ⟨fun _ => Program.stops_done _ _, fun hmissing => ?_⟩
      obtain ⟨path, hmem, -⟩ := hmissing
      cases hmem
  | cons path paths ih =>
      intro index hresolved
      have hpath := hresolved path (by simp)
      obtain ⟨hall, hsome⟩ := ih (index + 1) fun p hp => hresolved p (by simp [hp])
      have hexists : (fsCall (.tryExists path)).Stops Quietly t (.ok (.ok (t.node path).isSome)) t :=
        fsCall_stops fun choice hquiet => by
          cases hnode : t.node path with
          | none =>
              simp [FsCall.perform, hquiet, FsCall.exists?, FsCall.stat, locate_of_resolved hpath, hnode,
                bind, Except.bind, throw, throwThe, MonadExceptOf.throw, Except.mapError]
          | some n =>
              simp [FsCall.perform, hquiet, FsCall.exists?, FsCall.stat, locate_of_resolved hpath, hnode,
                bind, Except.bind, pure, Except.pure, Except.mapError]
      constructor
      · intro hpresent
        have hsome : (t.node path).isSome = true := Option.isSome_iff_ne_none.mpr (hpresent path (by simp))
        rw [hsome] at hexists
        exact hexists.bind (hall fun p hp => hpresent p (by simp [hp]))
      · intro hmissing
        cases hnode : t.node path with
        | none =>
            rw [hnode] at hexists
            exact ⟨_, hexists.bind (Program.stops_fail _ _)⟩
        | some n =>
            rw [hnode] at hexists
            obtain ⟨p, hp, hnone⟩ := hmissing
            rcases List.mem_cons.mp hp with rfl | hp
            · rw [hnone] at hnode
              cases hnode
            · obtain ⟨error, herror⟩ := hsome ⟨p, hp, hnone⟩
              exact ⟨error, hexists.bind herror⟩

/-- The accepted payloads in index order. -/
def payloads (accepted : List (Nat × Bytes)) (totalChunks : Nat) : List Bytes :=
  (List.range totalChunks).map fun i => (accepted.lookup i).getD []

theorem chunkPaths_resolved (h : Collected config row start accepted v) (total : Nat) :
    ∀ path ∈ chunkPaths config row.id total, v.1.Resolved path := by
  intro path hpath
  obtain ⟨i, -, rfl⟩ := List.mem_map.mp hpath
  exact h.chunk_resolved i

/-- A completion before the last index was accepted is refused. -/
theorem completeUpload_stops_missing (h : Collected config row disk.tree accepted v)
    (P : Primitives) (unlockState : UnlockState)
    (huuid : crates.uuidParses row.id = true) {session : Session} (hid : session.uploadId = row.id)
    (howns : session.Owns row) {now : Int} (hdate : isExpired crates now row.expiresAt = false)
    {i : Nat} (hi : i < toU32 row.totalChunks) (hmissing : accepted.lookup i = none)
    (nonce : FixedBytes 7) (writeVerify : Bool) :
    ∃ error, (completeUpload crates config P unlockState now nonce session writeVerify).Stops ServerQuietly
      v (.error error) v := by
  obtain ⟨t, rows⟩ := v
  obtain ⟨n, hrow⟩ := (requireSession_stops h huuid hid hdate).1 howns
  obtain ⟨error, herror⟩ := (checkChunksPresent_stops (chunkPaths config row.id (toU32 row.totalChunks)) 0
    (chunkPaths_resolved h _)).2 ⟨chunkPath config row.id i,
      List.mem_map.mpr ⟨i, List.mem_range.mpr hi, rfl⟩, by rw [h.chunk, hmissing]; rfl⟩
  refine ⟨error, hrow.bind ?_⟩
  rw [← hid] at herror
  exact (onDisk_stops herror).bind_error

/-- Every index of the session has been accepted. -/
def AllAccepted (row : ChunkedUpload) (accepted : List (Nat × Bytes)) : Prop :=
  ∀ i < toU32 row.totalChunks, accepted.lookup i ≠ none

theorem Receiving.lookup_length (h : Receiving config row start accepted v)
    (hall : AllAccepted row accepted) {i : Nat} (hi : i < toU32 row.totalChunks) :
    ((accepted.lookup i).getD []).length = expectedChunkLen (toU64 row.totalBytes) config.chunkSizeBytes
      (toU32 row.totalChunks) i := by
  obtain ⟨data, hdata⟩ := Option.ne_none_iff_exists'.mp (hall i hi)
  obtain ⟨front, back, hsplit, -⟩ := List.lookup_eq_some_iff.mp hdata
  rw [hdata, Option.getD_some]
  exact (h.fits (i, data) (by rw [hsplit]; simp)).2

/-- The chunk files hold the payloads, also after directories have been made beside them. -/
theorem Collected.chunkFiles (h : Collected config row start accepted v)
    (hall : AllAccepted row accepted) {made : FileTree} {names : Path}
    (hmade : v.1.createDirs [] names = .ok made) (htarget : ¬ stagingDir config row.id <+: target) :
    List.Forall₂ (ChunkFile made target) (chunkPaths config row.id (toU32 row.totalChunks))
      (payloads accepted (toU32 row.totalChunks)) := by
  refine List.forall₂_map_left_iff.mpr (List.forall₂_map_right_iff.mpr (List.forall₂_same.mpr ?_))
  intro i hi
  obtain ⟨data, hdata⟩ := Option.ne_none_iff_exists'.mp (hall i (List.mem_range.mp hi))
  have hnode := h.chunk i
  rw [hdata] at hnode ⊢
  refine ⟨chunkPath config row.id i, fileAt_of_resolved
    ((extends_createDirs names hmade).resolved (h.chunk_resolved i)) (node_of_createDirs names hmade hnode), ?_⟩
  intro heq
  exact htarget (by rw [← heq, chunkPath]; exact List.prefix_append _ _)

/-- Removing the staged chunks leaves a file elsewhere where it is. -/
theorem removeStaged_stops {t : FileTree} {staged : Path} {content : Bytes} (hresolved : t.Resolved staged)
    (hdir : t.node staged = some .dir) (hfile : t.Resolved target)
    (hnode : t.node target = some (.file content)) (hout : ¬ staged <+: target) :
    (fsCall (.removeDirAll staged)).Stops Quietly t (.ok (.ok ())) (t.removeAll staged) ∧
      (t.removeAll staged).fileAt target = .ok (target, content) := by
  have hplace : FsCall.removalPlace t staged = .ok staged := by
    simp [FsCall.removalPlace, locateEntry_of_resolved hresolved, hdir, bind, Except.bind, pure, Except.pure]
  constructor
  · refine fsCall_stops fun choice hquiet => ?_
    have hfault : choice.fault = none := hquiet
    simp [FsCall.perform, hplace, hfault]
  · have hstill : (t.removeAll staged).node target = some (.file content) := by
      rw [node_removeAll_of_not_below hout, hnode]
    exact fileAt_of_resolved (resolved_of_node hfile.ordinary hstill (by simp)) hstill

/-- The same for the chunks of a session, after directories and a file have been made elsewhere. -/
theorem Collected.removeStaged (h : Collected config row start accepted v) {made : FileTree} {names : Path}
    (hmade : v.1.createDirs [] names = .ok made) (hplace : made.createPlace target = .ok target)
    (hout : ¬ stagingDir config row.id <+: target) (content : Bytes) :
    (fsCall (.removeDirAll (stagingDir config row.id))).Stops Quietly (made.put target (.file content)) (.ok (.ok ()))
        ((made.put target (.file content)).removeAll (stagingDir config row.id)) ∧
      ((made.put target (.file content)).removeAll (stagingDir config row.id)).fileAt target =
        .ok (target, content) := by
  obtain ⟨hadmits, hresolved⟩ := admits_of_createPlace hplace
  have hmadeExt := extends_createDirs _ hmade
  have hext := extends_put_file hresolved.not_symlink content
  exact removeStaged_stops (hext.resolved (hmadeExt.resolved h.resolved)) (hext.dir _ (hmadeExt.dir _ h.dir))
    (hext.resolved hresolved) (node_put_self hadmits _) hout

/-- Once every index has been accepted, the presence check passes. -/
theorem Collected.present (h : Collected config row start accepted v) (hall : AllAccepted row accepted) :
    (checkChunksPresent (chunkPaths config row.id (toU32 row.totalChunks)) 0).Stops Quietly v.1 (.ok ()) v.1 := by
  refine (checkChunksPresent_stops _ 0 (chunkPaths_resolved h _)).1 ?_
  intro path hpath
  obtain ⟨i, hi, rfl⟩ := List.mem_map.mp hpath
  rw [h.chunk]
  simpa using hall i (List.mem_range.mp hi)

theorem payloads_sealed {P : Primitives} (hP : P.Lawful) (key : DataKey) (nonce : FixedBytes 7) (count : Int)
    (hlens : ∀ chunk ∈ payloads accepted (toU32 count), chunk.length ≤ maxPlaintextLen) :
    ∃ segments, sealSegments P (EncryptorBE32.new key nonce) (payloads accepted (toU32 count)) = some segments := by
  have hcount : (payloads accepted (toU32 count)).length ≤ 2 ^ 32 := by
    simp only [payloads, List.length_map, List.length_range, toU32]
    omega
  exact Option.isSome_iff_exists.mp (sealSegments_isSome hP _ (EncryptorBE32.new key nonce) hlens
    (by rw [EncryptorBE32.new, Nat.zero_add]; exact hcount))

/-- Once every index has been accepted, a completion is the writing of the target and the dropping of the session. -/
theorem Collected.completeUpload_ensures {P : Primitives} (h : Collected config row start accepted v)
    (hkey : targetKey unlockState row.targetType row.targetId = .ok key) (huuid : crates.uuidParses row.id = true)
    {session : Session} (hid : session.uploadId = row.id) (howns : session.Owns row) {now : Int}
    (hdate : isExpired crates now row.expiresAt = false) (hall : AllAccepted row accepted) {nonce : FixedBytes 7}
    {writeVerify : Bool} {Q : Except AppError UploadResult → FileTree × List ChunkedUpload → Prop}
    (hrest : ((onDisk (uploadStreaming P crates.mimeFromFilename (.ok key)
        (targetRoot config row.targetType row.targetId) nonce row.targetPath
        (chunkPaths config row.id (toU32 row.totalChunks)) (toU64 row.totalBytes) writeVerify)).bind fun upload =>
      (onDisk (fsCall (.removeDirAll (stagingDir config row.id)))).bind fun _ =>
      (statement (.delete row.id)).bind fun _ => .done upload).Ensures ServerQuietly v Q) :
    (completeUpload crates config P unlockState now nonce session writeVerify).Ensures ServerQuietly v Q := by
  obtain ⟨t, rows⟩ := v
  obtain ⟨n, hrow⟩ := (requireSession_stops h huuid hid hdate).1 howns
  apply hrow.ensures_bind
  have hpresent := h.present hall
  rw [← hid] at hpresent hrest
  refine (onDisk_stops hpresent).ensures_bind ?_
  rw [uploadTarget_eq, ← howns.2.1, ← howns.2.2, hkey]
  exact hrest

/-- Once every index has been accepted, and the payloads are together as long as the session says, a completion
leaves them encrypted at the target. -/
theorem completeUpload_assembles {P : Primitives} (hP : P.Lawful) (hquiet : QuietOracle oracle)
    (htarget : Writable config unlockState oracle disk row key target)
    (hfresh : disk.tree.node (stagingDir config row.id) = none) (h : Collected config row disk.tree accepted v)
    (huuid : crates.uuidParses row.id = true) {session : Session} (hid : session.uploadId = row.id)
    (howns : session.Owns row) {now : Int} (hdate : isExpired crates now row.expiresAt = false)
    (hall : AllAccepted row accepted)
    (hbytes : toU64 row.totalBytes = (payloads accepted (toU32 row.totalChunks)).flatten.length)
    (hlens : ∀ chunk ∈ payloads accepted (toU32 row.totalChunks), chunk.length ≤ maxPlaintextLen)
    (nonce : FixedBytes 7) (writeVerify : Bool) :
    ∃ upload t' rows' segments,
      (completeUpload crates config P unlockState now nonce session writeVerify).Stops ServerQuietly v
        (.ok upload) (t', rows') ∧
      sealSegments P (EncryptorBE32.new key nonce) (payloads accepted (toU32 row.totalChunks)) = some segments ∧
      t'.fileAt target = .ok (target, withHash P (streamContent nonce segments)) := by
  obtain ⟨t, rows⟩ := v
  obtain ⟨hjoins, hnotDir, hunstaged, canonicalRoot, existing, appended, hjoined⟩ :=
    htarget.joins hfresh hquiet h
  obtain ⟨made, hmade, hplace, hne⟩ := hjoined.parents hnotDir
  obtain ⟨segments, hseal⟩ := payloads_sealed hP key nonce row.totalChunks hlens
  obtain ⟨upload, hupload⟩ := uploadStreaming_stops (targetPath_ne htarget) hjoins hne hmade hplace
    (h.chunkFiles hall hmade hunstaged) hseal hbytes writeVerify
  obtain ⟨hremove, hfile⟩ := h.removeStaged hmade hplace hunstaged (withHash P (streamContent nonce segments))
  refine ⟨upload, _, (UploadsCall.perform none (.delete row.id) rows).2, segments,
    h.completeUpload_ensures htarget.key huuid hid howns hdate hall ?_, hseal, hfile⟩
  refine (onDisk_stops hupload).bind ?_
  exact (onDisk_stops hremove).bind ((statement_stops (.delete row.id)).bind (Program.stops_done _ _))

/-- If the payloads are together of another length than the session says, the completion fails in the writer. -/
theorem completeUpload_mismatches {P : Primitives} (hP : P.Lawful) (hquiet : QuietOracle oracle)
    (htarget : Writable config unlockState oracle disk row key target)
    (hfresh : disk.tree.node (stagingDir config row.id) = none) (h : Collected config row disk.tree accepted v)
    (huuid : crates.uuidParses row.id = true) {session : Session} (hid : session.uploadId = row.id)
    (howns : session.Owns row) {now : Int} (hdate : isExpired crates now row.expiresAt = false)
    (hall : AllAccepted row accepted)
    (hbytes : toU64 row.totalBytes ≠ (payloads accepted (toU32 row.totalChunks)).flatten.length)
    (hlens : ∀ chunk ∈ payloads accepted (toU32 row.totalChunks), chunk.length ≤ maxPlaintextLen)
    (nonce : FixedBytes 7) (writeVerify : Bool) :
    ∃ v', (completeUpload crates config P unlockState now nonce session writeVerify).Stops ServerQuietly v
      (.error (.internal ("Chunk size mismatch: expected " ++ toString (toU64 row.totalBytes) ++
        " bytes, read " ++ toString (payloads accepted (toU32 row.totalChunks)).flatten.length))) v' := by
  obtain ⟨t, rows⟩ := v
  obtain ⟨hjoins, hnotDir, hunstaged, canonicalRoot, existing, appended, hjoined⟩ :=
    htarget.joins hfresh hquiet h
  obtain ⟨made, hmade, hplace, hne⟩ := hjoined.parents hnotDir
  obtain ⟨segments, hseal⟩ := payloads_sealed hP key nonce row.totalChunks hlens
  have hupload : (uploadStreaming P crates.mimeFromFilename (.ok key)
      (targetRoot config row.targetType row.targetId) nonce row.targetPath
      (chunkPaths config row.id (toU32 row.totalChunks)) (toU64 row.totalBytes) writeVerify).Stops Quietly t _ _ :=
    uploadStreaming_stops_mismatch (targetPath_ne htarget) hjoins hne hmade hplace
      (h.chunkFiles hall hmade hunstaged) hseal hbytes writeVerify
  exact ⟨(made.put target (.file (streamContent nonce segments)), rows),
    h.completeUpload_ensures htarget.key huuid hid howns hdate hall (onDisk_stops hupload).bind_error⟩

/-- Once every index has been accepted, a completion leaves the encrypted payloads at the target. -/
theorem completeUpload_stops {P : Primitives} (hP : P.Lawful) (hquiet : QuietOracle oracle)
    (htarget : Writable config unlockState oracle disk row key target)
    (hfresh : disk.tree.node (stagingDir config row.id) = none) (h : Receiving config row disk.tree accepted v)
    (huuid : crates.uuidParses row.id = true) {session : Session} (hid : session.uploadId = row.id)
    (howns : session.Owns row) {now : Int} (hdate : isExpired crates now row.expiresAt = false)
    (hall : AllAccepted row accepted)
    (hsum : ((List.range (toU32 row.totalChunks)).map (expectedChunkLen (toU64 row.totalBytes)
      config.chunkSizeBytes (toU32 row.totalChunks))).sum = toU64 row.totalBytes)
    (hshort : ∀ i, expectedChunkLen (toU64 row.totalBytes) config.chunkSizeBytes (toU32 row.totalChunks) i
      + 16 < 2 ^ 32)
    (nonce : FixedBytes 7) (writeVerify : Bool) :
    ∃ upload t' rows' blob,
      (completeUpload crates config P unlockState now nonce session writeVerify).Stops ServerQuietly v
        (.ok upload) (t', rows') ∧
      t'.fileAt target = .ok (target, blob) ∧
      readBytes P key blob = .ok (payloads accepted (toU32 row.totalChunks)).flatten := by
  have hlens : ∀ chunk ∈ payloads accepted (toU32 row.totalChunks), chunk.length + 16 < 2 ^ 32 := by
    intro chunk hmem
    obtain ⟨i, hi, rfl⟩ := List.mem_map.mp hmem
    rw [h.lookup_length hall (List.mem_range.mp hi)]
    exact hshort i
  have hbytes : toU64 row.totalBytes = (payloads accepted (toU32 row.totalChunks)).flatten.length := by
    rw [List.length_flatten, ← hsum, payloads, List.map_map]
    exact congrArg List.sum
      (List.map_congr_left fun i hi => (h.lookup_length hall (List.mem_range.mp hi)).symm)
  obtain ⟨upload, t', rows', segments, hstops, hseal, hfile⟩ := completeUpload_assembles hP hquiet htarget hfresh
    h.collected huuid hid howns hdate hall hbytes (fun chunk hmem => by
      have := hlens chunk hmem
      rw [maxPlaintextLen]
      omega) nonce writeVerify
  refine ⟨upload, t', rows', _, hstops, hfile, ?_⟩
  rw [(readBytes_stream P key nonce segments).2]
  exact streamDecryptBytes_streamContent hP hseal hlens

end Complete

/-! ### From the first call to the last -/

/-- A new upload id: a UUID under which there is no row and, in the staging area, no directory. -/
structure FreshUpload (crates : Crates) (config : AppConfig) (server : Server) (uploadId : String) :
    Prop where
  parses : crates.uuidParses uploadId = true
  ordinary : Ordinary uploadId
  area : server.1.tree.Resolved config.chunksDir
  area_dir : server.1.tree.node config.chunksDir = some .dir
  no_dir : server.1.tree.node (stagingDir config uploadId) = none
  no_row : ∀ row ∈ server.2.rows, row.id ≠ uploadId

theorem checkInitUpload_ok {params : InitUploadParams} (h : checkInitUpload config params = .ok ()) :
    config.chunkSizeBytes < params.totalBytes ∧ params.totalBytes ≤ config.maxUploadBytes ∧
      params.totalChunks = expectedTotalChunks params.totalBytes config.chunkSizeBytes := by
  simp only [checkInitUpload] at h
  split at h
  · cases h
  split at h
  · cases h
  split at h
  · cases h
  split at h
  · cases h
  rename_i hsmall
  split at h
  · cases h
  rename_i hlarge
  split at h
  · cases h
  split at h
  · cases h
  rename_i hchunks
  exact ⟨Nat.not_le.mp hsmall, Nat.not_lt.mp hlarge, not_not.mp hchunks⟩

theorem checkInitUpload_pos {params : InitUploadParams} (h : checkInitUpload config params = .ok ()) :
    0 < params.totalChunks := by
  by_contra hzero
  simp only [checkInitUpload, Nat.eq_zero_of_not_pos hzero, if_true] at h
  split at h
  · cases h
  split at h <;> cases h

/-- The row of an opened session reads back as the counts it was opened with. -/
theorem newUploadRow_reads {params : InitUploadParams} (hcheck : checkInitUpload config params = .ok ())
    (hmax : config.maxUploadBytes < 2 ^ 64) (uploadId expiresAt : String) :
    toU32 (newUploadRow uploadId expiresAt params).totalChunks = params.totalChunks ∧
      toU64 (newUploadRow uploadId expiresAt params).totalBytes = params.totalBytes := by
  obtain ⟨-, hlarge, htotal⟩ := checkInitUpload_ok hcheck
  have hfew : params.totalChunks < 2 ^ 32 := by
    rw [htotal, expectedTotalChunks]
    split
    · omega
    · exact Nat.mod_lt _ (by decide)
  refine ⟨toU32_natCast hfew, ?_⟩
  simp only [newUploadRow]
  exact toU64_toI64 (by omega)

theorem FreshUpload.resolved {server : Server} {uploadId : String} (h : FreshUpload crates config server uploadId) :
    server.1.tree.Resolved (stagingDir config uploadId) :=
  h.area.snoc h.area_dir h.ordinary (by
    have hnone := h.no_dir
    rw [stagingDir] at hnone
    simp [hnone])

/-- Opening a session makes its directory and its row. -/
theorem initUpload_opens {server : Server} {uploadId : String}
    (h : FreshUpload crates config server uploadId) (now : Int) (params : InitUploadParams) :
    (initUpload crates config uploadId now params).Ensures ServerQuietly server.view fun result v' =>
      ∀ info, result = .ok info → checkInitUpload config params = .ok () ∧
        v' = (server.1.tree.put (stagingDir config uploadId) .dir,
          server.2.rows ++ [newUploadRow uploadId info.expiresAt params]) := by
  unfold initUpload
  cases hcheck : checkInitUpload config params with
  | error e =>
      intro info hinfo
      cases hinfo
  | ok u =>
      have hmade : server.1.tree.createDirs [] (stagingDir config uploadId) =
          .ok (server.1.tree.put (stagingDir config uploadId) .dir) := by
        have hplace := h.resolved
        have hnone := h.no_dir
        rw [stagingDir] at hplace hnone ⊢
        rw [createDirs_through config.chunksDir [uploadId] (by simpa using h.area)
          (by simpa using h.area_dir), List.nil_append, createDirs,
          locateFrom_of_resolved maxLinks _ hplace]
        simp [hnone, createDirs]
      refine (onDisk_stops (createDirAll_stops hmade)).ensures_bind ?_
      refine (insert_stops h.no_row).ensures_bind ?_
      intro info hinfo
      cases hinfo
      exact ⟨rfl, rfl⟩

/-- It establishes the invariant, with nothing accepted yet. -/
theorem initUpload_ensures {server : Server} {uploadId : String}
    (h : FreshUpload crates config server uploadId) (now : Int) (params : InitUploadParams) :
    (initUpload crates config uploadId now params).Ensures ServerQuietly server.view fun result v' =>
      ∀ info, result = .ok info → checkInitUpload config params = .ok () ∧
        Receiving config (newUploadRow uploadId info.expiresAt params) server.1.tree [] v' := by
  refine Program.Ensures.mono (initUpload_opens h now params) fun result v' hopens info hinfo => ?_
  obtain ⟨hcheck, rfl⟩ := hopens info hinfo
  have hplace := h.resolved
  have hadmits : server.1.tree.Admits (stagingDir config uploadId) :=
    ⟨by simp [stagingDir], hplace.dir, by simp [h.no_dir]⟩
  have hext := extends_put_dir h.no_dir
  refine ⟨hcheck, hext.resolved hplace, node_put_self hadmits _, ?_, hext, ?_, by simp, by simp,
    ⟨0, by simp [newUploadRow]⟩, ?_⟩
  · intro i
    have hbelow : server.1.tree.node (chunkPath config uploadId i) = none :=
      node_append_of_not_dir (by simp [h.no_dir]) (List.cons_ne_nil _ _)
    show (server.1.tree.put (stagingDir config uploadId) .dir).node (chunkPath config uploadId i) = _
    rw [node_put_of_ne (by simp [chunkPath]), hbelow]
    rfl
  · intro p hp
    exact node_put_of_ne (fun heq => hp (by rw [heq]; exact List.prefix_refl _)) _
  · intro r hmem hid
    rcases List.mem_append.mp hmem with hold | hold
    · exact absurd hid (h.no_row r hold)
    · rw [List.mem_singleton.mp hold]
      exact ⟨0, by simp only [newUploadRow]⟩

/-- A call that sends a chunk of the upload: from its owner, with one of its indexes and as many bytes as that chunk
has. -/
def ReceiveCall.Sends (call : ReceiveCall) (config : AppConfig) (params : InitUploadParams) : Prop :=
  (call.session.userId = params.userId ∧ call.session.targetId = params.targetId ∧
      call.session.targetType = params.targetType) ∧
    call.chunkIndex < params.totalChunks ∧
    call.data.length = min config.chunkSizeBytes (params.totalBytes - call.chunkIndex * config.chunkSizeBytes)

instance (call : ReceiveCall) (config : AppConfig) (params : InitUploadParams) :
    Decidable (call.Sends config params) :=
  inferInstanceAs (Decidable (_ ∧ _))

/-- Of a file of `k + 1` chunks each is as long as the chunk size, or what is left. -/
theorem expectedChunkLen_min {n c k i : Nat} (hlow : c * k ≤ n) (hhigh : n ≤ c * (k + 1)) (hlt : n < 2 ^ 64)
    (hi : i < k + 1) : expectedChunkLen n c (k + 1) i = min c (n - i * c) := by
  rw [expectedChunkLen, Nat.add_sub_cancel, u64Max, Nat.min_eq_left (show c * k ≤ 2 ^ 64 - 1 by omega)]
  rw [Nat.mul_succ] at hhigh
  by_cases hlast : i + 1 < k + 1
  · have hnext : (i + 1) * c ≤ c * k := by
      rw [Nat.mul_comm c k]
      exact Nat.mul_le_mul_right c (by omega)
    rw [Nat.succ_mul] at hnext
    rw [if_pos hlast]
    omega
  · obtain rfl : i = k := by omega
    rw [if_neg hlast, Nat.mul_comm i c]
    omega

/-- A call sends a chunk of the upload just in case its caller owns the row and the chunk fits it. -/
theorem ReceiveCall.sends_iff {params : InitUploadParams} (hchunk : 1 ≤ config.chunkSizeBytes)
    (hmax : config.maxUploadBytes < 2 ^ 64)
    (hcount : (params.totalBytes + config.chunkSizeBytes - 1) / config.chunkSizeBytes < 2 ^ 32)
    (hcheck : checkInitUpload config params = .ok ()) (uploadId expiresAt : String) (call : ReceiveCall) :
    call.Sends config params ↔ call.session.Owns (newUploadRow uploadId expiresAt params) ∧
      ChunkFits config (newUploadRow uploadId expiresAt params) call.entry := by
  obtain ⟨hsmall, hlarge, htotal⟩ := checkInitUpload_ok hcheck
  obtain ⟨k, hk, hlow, hhigh⟩ := expectedTotalChunks_eq hchunk hsmall hcount
  obtain ⟨hchunks, hbytes⟩ := newUploadRow_reads hcheck hmax uploadId expiresAt
  have howns : (call.session.userId = params.userId ∧ call.session.targetId = params.targetId ∧
      call.session.targetType = params.targetType) ↔ call.session.Owns (newUploadRow uploadId expiresAt params) :=
    ⟨fun h => ⟨h.1.symm, h.2.1.symm, h.2.2.symm⟩, fun h => ⟨h.1.symm, h.2.1.symm, h.2.2.symm⟩⟩
  rw [ReceiveCall.Sends, ChunkFits, hchunks, hbytes]
  refine and_congr howns (and_congr_right fun hi => ?_)
  rw [htotal, hk] at hi ⊢
  have hlength := expectedChunkLen_min hlow hhigh (by omega) hi
  rw [← hlength]
  rfl

/-- Chunked uploads do not depend on the order in which chunks arrive. After a session is opened and any
calls of `receiveChunk` are made on it, by anyone, in any order: of each index the first call that sends it is
accepted, and no other, the completion succeeds exactly when all indexes have been accepted, and the file it leaves
decrypts to the accepted payloads in index order. -/
theorem chunked_upload_any_order (P : Primitives) (hP : P.Lawful) (crates : Crates) (config : AppConfig)
    (hchunk : 1 ≤ config.chunkSizeBytes) (hchunk' : config.chunkSizeBytes ≤ 2 ^ 32 - 17)
    (hmax : config.maxUploadBytes < 2 ^ 64) (unlockState : UnlockState) (oracle : Nat → Choice)
    (hquiet : QuietOracle oracle) (server started : Server) (uploadId : String)
    (hfresh : FreshUpload crates config server uploadId) (opened : Int) (params : InitUploadParams)
    (hcount : (params.totalBytes + config.chunkSizeBytes - 1) / config.chunkSizeBytes < 2 ^ 32)
    (info : InitUploadResult)
    (hopen : (initUpload crates config uploadId opened params).run (quietHandler oracle) server =
      (.ok info, started))
    (key : DataKey) (target : Path)
    (htarget : Writable config unlockState oracle server.1 (newUploadRow uploadId info.expiresAt params)
      key target)
    (calls : List ReceiveCall)
    (hcalls : ∀ call ∈ calls, call.session.uploadId = uploadId ∧
      isExpired crates call.now info.expiresAt = false)
    (now : Int) (hnow : isExpired crates now info.expiresAt = false) (nonce : FixedBytes 7)
    (writeVerify : Bool) :
    ∃ accepted received result completed,
      receiveAll crates config (quietHandler oracle) calls started = (accepted, received) ∧
      (completeUpload crates config P unlockState now nonce
        ⟨params.userId, params.targetId, params.targetType, uploadId⟩ writeVerify).run (quietHandler oracle)
          received = (result, completed) ∧
      accepted = firstOfEach ((calls.filter (·.Sends config params)).map ReceiveCall.entry) ∧
      (accepted.map Prod.fst).Nodup ∧
      ((∃ upload, result = .ok upload) ↔ ∀ i < params.totalChunks, i ∈ accepted.map Prod.fst) ∧
      ∀ upload, result = .ok upload →
        ((readAndDecryptFile P key target).run (fsHandler oracle) completed.1).1 =
          .ok (payloads accepted params.totalChunks).flatten := by
  -- What `initUpload` checked, and the session it left.
  obtain ⟨hcheck, hstart⟩ := server_returns_of_ensures hquiet hopen (initUpload_ensures hfresh opened params) info rfl
  obtain ⟨hsmall, hlarge, htotal⟩ := checkInitUpload_ok hcheck
  obtain ⟨k, hk, hlow, hhigh⟩ := expectedTotalChunks_eq hchunk hsmall hcount
  obtain ⟨hchunks, hbytes⟩ := newUploadRow_reads hcheck hmax uploadId info.expiresAt
  -- The calls.
  have haccepted := receiveAll_accepted hquiet hfresh.parses calls hcalls (fun call _ =>
    decide_eq_true_iff.trans (call.sends_iff hchunk hmax hcount hcheck uploadId info.expiresAt)) hstart
  have hreceived := receiveAll_receiving hquiet hfresh.parses calls hcalls hstart
  rw [List.nil_append] at hreceived
  generalize receiveAll crates config (quietHandler oracle) calls started = outcome at haccepted hreceived ⊢
  obtain ⟨accepted, received⟩ := outcome
  have hfirst : accepted = firstOfEach ((calls.filter (·.Sends config params)).map ReceiveCall.entry) :=
    haccepted.trans (List.filter_eq_self.mpr fun _ _ => rfl)
  -- The completion.
  have howns : (Session.mk params.userId params.targetId params.targetType uploadId).Owns
      (newUploadRow uploadId info.expiresAt params) := ⟨rfl, rfl, rfl⟩
  have hmem : ∀ i, accepted.lookup i ≠ none ↔ i ∈ accepted.map Prod.fst := by
    intro i
    rw [← Option.isSome_iff_ne_none, List.lookup_isSome_iff]
    simp
  generalize hfinal : (completeUpload crates config P unlockState now nonce
    ⟨params.userId, params.targetId, params.targetType, uploadId⟩ writeVerify).run (quietHandler oracle)
      received = final
  obtain ⟨result, completed⟩ := final
  refine ⟨accepted, received, result, completed, rfl, hfinal, hfirst, hreceived.nodup, ?_⟩
  by_cases hall : AllAccepted (newUploadRow uploadId info.expiresAt params) accepted
  · obtain ⟨upload, t', rows', blob, hstops, hfile, hread⟩ := completeUpload_stops hP hquiet htarget
      hfresh.no_dir hreceived hfresh.parses rfl howns hnow hall
      (by rw [hchunks, hbytes, htotal, hk]; exact sum_expectedChunkLen hlow (by omega))
      (by
        intro i
        have := expectedChunkLen_le (i := i) hlow hhigh (by omega)
        rw [hchunks, hbytes, htotal, hk]
        omega) nonce writeVerify
    obtain ⟨hresult, hview⟩ := server_run_of_stops hquiet hstops
    rw [hfinal] at hresult hview
    have htree : completed.1.tree = t' := congrArg Prod.fst hview
    subst htree
    refine ⟨iff_of_true ⟨upload, hresult⟩ ?_, ?_⟩
    · intro i hi
      exact (hmem i).mp (hall i (by rw [hchunks]; exact hi))
    · intro upload' _
      rw [(run_of_stops hquiet (readAndDecryptFile_stops hfile key)).1, hread, hchunks]
  · simp only [AllAccepted, not_forall, not_not] at hall
    obtain ⟨i, hi, hnone⟩ := hall
    obtain ⟨error, hstops⟩ := completeUpload_stops_missing hreceived.collected P unlockState hfresh.parses rfl howns
      hnow hi hnone nonce writeVerify
    have hresult : result = .error error := by
      simpa only [hfinal] using (server_run_of_stops hquiet hstops).1
    refine ⟨iff_of_false ?_ ?_, ?_⟩
    · intro hok
      obtain ⟨upload, hok⟩ := hok
      rw [hresult] at hok
      cases hok
    · intro hevery
      rw [hchunks] at hi
      exact (hmem i).mpr (hevery i hi) hnone
    · intro upload hok
      rw [hresult] at hok
      cases hok

/-- A server with one library, and nothing staged. -/
def emptyServer : Server :=
  (⟨(((FileTree.empty.put ["libraries"] .dir).put ["libraries", "l"] .dir).put [".chunks"] .dir), 0⟩,
    ⟨[], 0⟩)

theorem emptyServer_fresh : FreshUpload sampleCrates sampleConfig emptyServer "u" :=
  ⟨by decide, by simp [Ordinary], resolved_of_node (n := .dir)
    (by simp [Ordinary, AppConfig.chunksDir, sampleConfig]) (by decide) (by simp), by decide, by decide, by decide⟩

theorem emptyServer_writable {row : ChunkedUpload} (htype : row.targetType = "library") (hid : row.targetId = "l")
    (hpath : row.targetPath = "docs/b") :
    Writable sampleConfig sampleUnlocked calmOracle emptyServer.1 row zeroKey ["libraries", "l", "docs", "b"] := by
  refine ⟨?_, ?_, by decide, fun canonicalRoot hroot => ?_⟩
  · rw [htype, hid]
    rfl
  · rw [htype, hid, hpath]
    decide
  · rw [htype, hid] at hroot
    have hplace : emptyServer.1.tree.canonicalize ["libraries", "l"] = .ok ["libraries", "l"] := by decide
    cases hplace.symm.trans hroot
    decide

def twoBytes : InitUploadParams where
  userId := "alice"
  targetId := "l"
  targetType := "library"
  targetPath := "docs/b"
  totalChunks := 2
  totalBytes := 2
  checksumSha256 := none

def twoBytesSession : Session := ⟨"alice", "l", "library", "u"⟩

/-- The chunks arrive backwards, between a duplicate, an index out of range and a wrong size. -/
def backwards : List ReceiveCall :=
  [⟨-1, twoBytesSession, 1, [2]⟩, ⟨-1, twoBytesSession, 1, [9]⟩, ⟨-1, twoBytesSession, 7, [7]⟩,
    ⟨-1, twoBytesSession, 0, [5, 5]⟩, ⟨-1, twoBytesSession, 0, [1]⟩]

def startedServer : Server :=
  ((initUpload sampleCrates sampleConfig "u" (-2) twoBytes).run (quietHandler calmOracle) emptyServer).2

/-- The file of two bytes, uploaded backwards: its two chunks are accepted, and what is stored are its bytes. -/
theorem chunked_upload_any_order_backwards :
    ∃ received upload completed,
      receiveAll sampleCrates sampleConfig (quietHandler calmOracle) backwards startedServer =
        ([(1, [2]), (0, [1])], received) ∧
      (completeUpload sampleCrates sampleConfig plainPrimitives sampleUnlocked (-1)
        ⟨List.replicate 7 0, seven_zeros⟩ twoBytesSession false).run (quietHandler calmOracle) received =
          (.ok upload, completed) ∧
      ((readAndDecryptFile plainPrimitives zeroKey ["libraries", "l", "docs", "b"]).run
        (fsHandler calmOracle) completed.1).1 = .ok [1, 2] := by
  obtain ⟨accepted, received, result, completed, hcalls, hcomplete, hfirst, -, hok, hread⟩ :=
    chunked_upload_any_order plainPrimitives plainPrimitives_lawful sampleCrates sampleConfig (by decide)
      (by decide) (by decide) sampleUnlocked calmOracle calmOracle_quiet emptyServer startedServer "u"
      emptyServer_fresh (-2) twoBytes (by decide) ⟨"u", 1, 2, 2, ""⟩ (Prod.ext (by decide) rfl) zeroKey
      ["libraries", "l", "docs", "b"] (emptyServer_writable rfl rfl rfl)
      backwards (by decide) (-1) (by decide) ⟨List.replicate 7 0, seven_zeros⟩ false
  obtain rfl : accepted = [(1, [2]), (0, [1])] := hfirst.trans (by decide)
  obtain ⟨upload, rfl⟩ := hok.mpr (by decide)
  exact ⟨received, upload, completed, hcalls, hcomplete, hread upload rfl⟩

end ChunkService

end IronDrive
