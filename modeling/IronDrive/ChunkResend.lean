import IronDrive.UploadContents

/-! Sending a chunk again after a failure. The chunk file is created exclusively before its bytes are written, and
nothing removes it when a later step fails: from then on the index counts as uploaded, with whatever bytes the file
has. Until then a failure leaves the session as it was. -/

namespace IronDrive

open Lib FileTree CryptoService FsService

namespace ChunkService

variable {crates : Crates} {config : AppConfig} {row : ChunkedUpload} {start : FileTree}
  {files : List (Nat × Bytes)} {oracle : Nat → Choice} {dbOracle : Nat → Option String}

theorem readsOnly_exactly {α : Type} {program : FsProgram α} (h : ReadsOnly program) (disk : Disk) :
    program.Ensures (Program.Exactly (fsHandler oracle)) disk fun _ disk' => disk'.tree = disk.tree := by
  refine Program.Only.ensures (I := fun disk' : Disk => disk'.tree = disk.tree) h ?_ rfl
  intro op disk₁ answer disk' hread htree h
  obtain ⟨rfl, rfl⟩ := h
  rw [← htree]
  exact perform_readOnly hread _ _

/-- One of the first two calls to the disk fails. -/
def FailsOnDisk (oracle : Nat → Choice) (disk : Disk) : Prop :=
  (oracle disk.tick).fault ≠ none ∨ (oracle (disk.tick + 1)).fault ≠ none

/-- Writing at the end of a file appends to it, a failing write with a part of the data. -/
theorem appended {t : FileTree} {path : Path} (hadmits : t.Admits path) (choice : Choice) (content data : Bytes) :
    ∃ written, written <+: data ∧ (choice.fault = none → written = data) ∧
      (FsCall.perform choice (.writeAll path content.length data) (t.put path (.file content))).2 =
        t.put path (.file (content ++ written)) := by
  refine ⟨if choice.fault = none then data else data.take choice.amount, ?_, fun hnone => if_pos hnone, ?_⟩
  · split
    · exact List.prefix_refl _
    · exact List.take_prefix _ _
  · simp only [FsCall.perform, node_put_self hadmits, put_put hadmits, writeAt, overwrite_end]

/-- Of the data to be written, some are in the file. -/
def Holds (t : FileTree) (path : Path) (data : Bytes) (disk : Disk) : Prop :=
  ∃ content, content <+: data ∧ disk.tree = t.put path (.file content)

theorem writeLast_faulty {t : FileTree} {path : Path} (hadmits : t.Admits path) (tick : Nat) (content data : Bytes) :
    (OpenFile.writeLast ⟨path, content.length⟩ data).Ensures (Program.Exactly (fsHandler oracle))
      ⟨t.put path (.file content), tick⟩ fun _ disk' => Holds t path (content ++ data) disk' := by
  apply Program.ensures_exactly_ask
  obtain ⟨written, hprefix, -, htree⟩ := appended hadmits (oracle tick) content data
  exact ⟨content ++ written, (List.prefix_append_right_inj content).mpr hprefix, htree⟩

theorem writeAll_faulty {t : FileTree} {path : Path} (hadmits : t.Admits path) (tick : Nat) (content data : Bytes)
    (onError : IoError → AppError) :
    (OpenFile.writeAll ⟨path, content.length⟩ data onError).Ensures (Program.Exactly (fsHandler oracle))
      ⟨t.put path (.file content), tick⟩ fun result disk' => Holds t path (content ++ data) disk' ∧
        ∀ file, result = .ok file → file = ⟨path, (content ++ data).length⟩ ∧
          disk'.tree = t.put path (.file (content ++ data)) := by
  apply Program.ensures_exactly_ask
  obtain ⟨written, hprefix, hwhole, htree⟩ := appended hadmits (oracle tick) content data
  have hholds : Holds t path (content ++ data)
      (fsHandler oracle (.writeAll path content.length data) ⟨t.put path (.file content), tick⟩).2 :=
    ⟨content ++ written, (List.prefix_append_right_inj content).mpr hprefix, htree⟩
  cases hfault : (oracle tick).fault with
  | some message =>
      simp only [fsHandler, FsCall.perform, Choice.guard, hfault] at hholds ⊢
      exact ⟨hholds, fun file hfile => by cases hfile⟩
  | none =>
      rw [hwhole hfault] at htree
      simp only [fsHandler, FsCall.perform, Choice.guard, hfault] at hholds htree ⊢
      refine ⟨hholds, fun file hfile => ?_⟩
      cases hfile
      exact ⟨by rw [List.length_append], htree⟩

/-- Whatever fails after the creation of a chunk file, some of its bytes are in it. -/
theorem fillChunk_faulty {t : FileTree} {path : Path} (hadmits : t.Admits path) (tick : Nat) (data : Bytes) :
    (fillChunk path data).Ensures (Program.Exactly (fsHandler oracle)) ⟨t.put path (.file []), tick⟩ fun _ disk' =>
      Holds t path data disk' := by
  have hwritten : (OpenFile.writeBuffered ⟨path, 0⟩ data fun e =>
      .internal ("Failed to write chunk: " ++ e.message)).Ensures (Program.Exactly (fsHandler oracle))
        ⟨t.put path (.file []), tick⟩ fun _ disk' => Holds t path data disk' := by
    unfold OpenFile.writeBuffered
    split
    · exact writeLast_faulty hadmits tick [] data
    · generalize OpenFile.maxBufSize * ((data.length - 1) / OpenFile.maxBufSize) = whole
      refine Program.Ensures.bind (writeAll_faulty hadmits tick [] (data.take whole) _) ?_ ?_
      · rintro file ⟨tree, tick⟩ ⟨-, hfile⟩
        obtain ⟨rfl, rfl⟩ := hfile file rfl
        refine (writeLast_faulty hadmits tick (data.take whole) (data.drop whole)).mono fun _ disk' hlast => ?_
        rwa [List.take_append_drop] at hlast
      · intro error disk' h
        obtain ⟨⟨content, hprefix, htree⟩, -⟩ := h
        exact ⟨content, hprefix.trans (List.take_prefix _ _), htree⟩
  refine Program.Ensures.bind hwritten (fun written disk' hholds => ?_) fun _ _ hholds => hholds
  -- What follows leaves the tree alone.
  have hafter : ReadsOnly (Program.bind (written.1.flushAfter written.2 fun e =>
      .internal ("Failed to flush chunk: " ++ e.message)) fun _ =>
        written.1.syncData fun e => .internal ("Failed to sync chunk to disk: " ++ e.message)) := by
    refine ((attempt_only _ written.2).bind fun _ _ => fsCall_attempt_only (.flush written.1.place) trivial _ id).bind
      fun _ _ => ?_
    exact fsCall_attempt_only (.syncData written.1.place) trivial _ id
  refine Program.Ensures.mono (readsOnly_exactly hafter disk') fun _ disk'' hsame => ?_
  obtain ⟨content, hprefix, htree⟩ := hholds
  exact ⟨content, hprefix, hsame.trans htree⟩

/-- How the staging of a chunk ends. Before the chunk file is created it leaves the tree as it was, afterwards with
the file, and some of its bytes. -/
theorem stageChunk_faulty {disk : Disk} {rows : List ChunkedUpload}
    (h : Collected config row start files (disk.tree, rows)) (i : Nat) (data : Bytes) :
    (stageChunk config row.id i data).Ensures (Program.Exactly (fsHandler oracle)) disk fun result disk' =>
      ((∃ error, result = .error error) ∧ disk'.tree = disk.tree ∧
        (files.lookup i = none → FailsOnDisk oracle disk)) ∨
      (files.lookup i = none ∧ ¬ FailsOnDisk oracle disk ∧ ∃ content, content <+: data ∧
        disk'.tree = disk.tree.put (chunkPath config row.id i) (.file content)) := by
  have hmade := createDirs_take_of_dir h.resolved h.dir
  have hfull := createDirs_of_dir h.resolved h.dir
  unfold stageChunk
  apply Program.ensures_exactly_ask
  cases hfirst : (oracle disk.tick).fault with
  | some message =>
      simp only [fsHandler, FsCall.perform, hfirst, hmade]
      exact Or.inl ⟨⟨_, rfl⟩, rfl, fun _ => Or.inl (by rw [hfirst]; simp)⟩
  | none =>
      simp only [fsHandler, FsCall.perform, hfirst, hfull]
      apply Program.ensures_exactly_ask
      cases hsecond : (oracle (disk.tick + 1)).fault with
      | some message =>
          simp only [fsHandler, FsCall.perform, Choice.guard, hsecond]
          exact Or.inl ⟨⟨_, rfl⟩, rfl, fun _ => Or.inr (by rw [hsecond]; simp)⟩
      | none =>
          have hearly : ¬ FailsOnDisk oracle disk := by simp [FailsOnDisk, hfirst, hsecond]
          simp only [fsHandler, FsCall.perform, Choice.guard, hsecond]
          cases hlookup : files.lookup i with
          | some old =>
              have hplace : disk.tree.createNewPlace (chunkPath config row.id i) = .error .alreadyExists :=
                (h.createNewPlace i).trans (if_neg (by simp [hlookup]))
              simp only [hplace]
              exact Or.inl ⟨⟨_, rfl⟩, rfl, fun heq => by cases heq⟩
          | none =>
              have hnode : disk.tree.node (chunkPath config row.id i) = none := by
                rw [h.chunk, hlookup]
                rfl
              have hplace : disk.tree.createNewPlace (chunkPath config row.id i) = .ok (chunkPath config row.id i) :=
                (h.createNewPlace i).trans (if_pos hlookup)
              simp only [hplace]
              refine Program.Ensures.mono (fillChunk_faulty ⟨by simp [chunkPath], (h.chunk_resolved i).dir,
                by simp [hnode]⟩ _ data) ?_
              rintro result disk' hwritten
              exact Or.inr ⟨trivial, hearly, hwritten⟩

theorem countUploadedChunks_readsOnly (uploadId : String) : ReadsOnly (countUploadedChunks config uploadId) := by
  apply (fsCall_only (.tryExists (stagingDir config uploadId)) trivial).bind
  intro found _
  dsimp only
  split_ifs
  · trivial
  · apply (fsCall_only (.readDir (stagingDir config uploadId)) trivial).bind
    intro listing _
    apply (attempt_only _ listing).bind
    rintro ⟨names, failure⟩ -
    cases failure <;> trivial

/-- One of the calls before the creation of the chunk file fails. -/
def FailsEarly (oracle : Nat → Choice) (dbOracle : Nat → Option String) (server : Server) : Prop :=
  dbOracle server.2.tick ≠ none ∨ FailsOnDisk oracle server.1

variable {session : Session} {server : Server}

/-- The session's row is returned unless its statement fails, or the caller may not have it. -/
theorem requireSession_faulty (h : Collected config row start files server.view)
    (huuid : crates.uuidParses row.id = true) (hid : session.uploadId = row.id) (now : Int) :
    (requireSession crates now session).Ensures (Program.Exactly (serverHandler oracle dbOracle)) server
      fun result server' => (server'.1 = server.1 ∧ server'.2.rows = server.2.rows) ∧
        (((∃ error, result = .error error) ∧ (session.Owns row → isExpired crates now row.expiresAt = false →
          dbOracle server.2.tick ≠ none)) ∨
        (dbOracle server.2.tick = none ∧ ∃ n, result = .ok { row with receivedChunks := n })) := by
  have hvalid : validateUploadId crates session.uploadId = .ok () := by
    rw [validateUploadId, hid, if_pos huuid]
  simp only [requireSession, hvalid, Program.ofExcept_ok, Program.bind_eq, Program.done_bind]
  apply Program.ensures_exactly_ask
  cases hdb : dbOracle server.2.tick with
  | some message =>
      simp only [serverHandler, Program.sumHandler, uploadsHandler, UploadsCall.perform, hdb]
      exact ⟨⟨rfl, rfl⟩, Or.inl ⟨⟨_, rfl⟩, fun _ _ => by simp⟩⟩
  | none =>
      simp only [serverHandler, Program.sumHandler, uploadsHandler, UploadsCall.perform, hdb, hid]
      obtain ⟨hfound, hmissing⟩ := h.load session.targetType
      by_cases htype : row.targetType = session.targetType
      · obtain ⟨n, hrow⟩ := hfound htype
        have hload : server.2.rows.find? (fun r => r.id = row.id && r.targetType = session.targetType) =
          some { row with receivedChunks := n } := hrow
        rw [hload]
        show (if row.userId ≠ session.userId ∨ row.targetId ≠ session.targetId then Program.fail .notFound
          else if isExpired crates now row.expiresAt then
            Program.fail (.validation "Upload session has expired.")
          else Program.done { row with receivedChunks := n } : ServerProgram ChunkedUpload).Ensures _ _ _
        split
        · next hother =>
          refine ⟨⟨rfl, rfl⟩, Or.inl ⟨⟨_, rfl⟩, fun howns _ => ?_⟩⟩
          rcases hother with huser | htarget
          · exact absurd howns.1 huser
          · exact absurd howns.2.1 htarget
        · split
          · next hexpired =>
            refine ⟨⟨rfl, rfl⟩, Or.inl ⟨⟨_, rfl⟩, fun _ hdate => ?_⟩⟩
            rw [hdate] at hexpired
            cases hexpired
          · exact ⟨⟨rfl, rfl⟩, Or.inr ⟨trivial, n, rfl⟩⟩
      · have hload : server.2.rows.find? (fun r => r.id = row.id && r.targetType = session.targetType) = none :=
          hmissing htype
        rw [hload]
        exact ⟨⟨rfl, rfl⟩, Or.inl ⟨⟨_, rfl⟩, fun howns _ => absurd howns.2.2 htype⟩⟩

/-- Counting the chunk files, and storing the count, keeps them. -/
theorem recordChunk_faulty (h : Collected config row start files server.view) (i total : Nat) :
    (do
      let receivedChunks ← onDisk (countUploadedChunks config row.id)
      orSqlx (← statement (.setReceived row.id receivedChunks))
      return { uploadId := row.id, chunkIndex := i, receivedChunks := receivedChunks,
               totalChunks := total } : ServerProgram ReceiveChunkResult).Ensures
      (Program.Exactly (serverHandler oracle dbOracle)) server fun _ server' =>
        Collected config row start files server'.view := by
  obtain ⟨disk, db⟩ := server
  have hsame : ∀ disk' : Disk, disk'.tree = disk.tree → ∀ db' : UploadsDb, db'.rows = db.rows →
      Collected config row start files (Server.view (disk', db')) := by
    intro disk' htree db' hrows
    have hview : Server.view (disk', db') = Server.view (disk, db) := Prod.ext htree hrows
    rw [hview]
    exact h
  refine Program.Ensures.bind (readsOnly_exactly (countUploadedChunks_readsOnly row.id) disk).inl_exactly ?_ ?_
  · rintro count ⟨disk', db'⟩ ⟨htree, rfl⟩
    apply Program.ensures_exactly_ask
    cases hupdate : dbOracle db'.tick with
    | some message =>
        simp only [serverHandler, Program.sumHandler, uploadsHandler, UploadsCall.perform, hupdate]
        exact hsame disk' htree ⟨db'.rows, db'.tick + 1⟩ rfl
    | none =>
        simp only [serverHandler, Program.sumHandler, uploadsHandler, UploadsCall.perform, hupdate]
        have hcounted := (hsame disk' htree db' rfl).setReceived count
        exact hcounted
  · rintro error ⟨disk', db'⟩ ⟨htree, rfl⟩
    exact hsame disk' htree db' rfl

/-- Whatever fails, a call either leaves the session as it was, or adds a chunk file with some of its bytes. For a
call that is in order the first is the case only if a call before the creation of the file fails. -/
theorem receiveChunk_faulty (h : Collected config row start files server.view)
    (huuid : crates.uuidParses row.id = true) (hid : session.uploadId = row.id) (now : Int) (i : Nat)
    (data : Bytes) :
    (receiveChunk crates config now session i data).Ensures (Program.Exactly (serverHandler oracle dbOracle)) server
      fun result server' =>
        ((∃ error, result = .error error) ∧ server'.view = server.view ∧
          (session.Owns row → isExpired crates now row.expiresAt = false → ChunkFits config row (i, data) →
            files.lookup i = none → FailsEarly oracle dbOracle server)) ∨
        (ChunkFits config row (i, data) ∧ files.lookup i = none ∧ ¬ FailsEarly oracle dbOracle server ∧
          ∃ content, content <+: data ∧ Collected config row start (files ++ [(i, content)]) server'.view) := by
  refine Program.Ensures.bind (requireSession_faulty h huuid hid now) ?_ ?_
  · rintro found ⟨disk, db⟩ ⟨⟨hdisk, hrows⟩, ⟨⟨error, herror⟩, -⟩ | ⟨hdb, n, hfound⟩⟩
    · cases herror
    cases hfound
    dsimp only at hdisk hrows
    subst hdisk
    dsimp only
    by_cases hrange : toU32 row.totalChunks ≤ i
    · rw [if_pos hrange]
      refine Or.inl ⟨⟨_, rfl⟩, Prod.ext rfl hrows, fun _ _ hfits => ?_⟩
      exact absurd hfits.1 (Nat.not_lt.mpr hrange)
    rw [if_neg hrange]
    by_cases hlen : data.length ≠ expectedChunkLen (toU64 row.totalBytes) config.chunkSizeBytes
        (toU32 row.totalChunks) i
    · rw [if_pos hlen]
      exact Or.inl ⟨⟨_, rfl⟩, Prod.ext rfl hrows, fun _ _ hfits => absurd hfits.2 hlen⟩
    rw [if_neg hlen, hid]
    have hfits : ChunkFits config row (i, data) := ⟨Nat.not_le.mp hrange, not_not.mp hlen⟩
    refine Program.Ensures.bind (stageChunk_faulty h i data).inl_exactly ?_ ?_
    · rintro u ⟨disk', db'⟩ ⟨⟨⟨error, herror⟩, -⟩ | ⟨hnew, hearly, content, hfilled, htree⟩, rfl⟩
      · cases herror
      have hlate : ¬ FailsEarly oracle dbOracle server := not_or.mpr ⟨not_not.mpr hdb, hearly⟩
      have hview : Server.view (disk', db') =
        (server.1.tree.put (chunkPath config row.id i) (.file content), server.2.rows) := Prod.ext htree hrows
      have hstaged : Collected config row start (files ++ [(i, content)]) (Server.view (disk', db')) := by
        rw [hview]
        exact h.stage (i, content) hnew
      refine Program.Ensures.mono (recordChunk_faulty hstaged i (toU32 row.totalChunks)) ?_
      intro result server' hcollected
      exact Or.inr ⟨hfits, hnew, hlate, content, hfilled, hcollected⟩
    · rintro error ⟨disk', db'⟩ ⟨⟨-, htree, hwhy⟩ | ⟨hnew, hearly, content, hfilled, htree⟩, rfl⟩
      · exact Or.inl ⟨⟨_, rfl⟩, Prod.ext htree hrows, fun _ _ _ hnew => Or.inr (hwhy hnew)⟩
      · refine Or.inr ⟨hfits, hnew, not_or.mpr ⟨not_not.mpr hdb, hearly⟩, content, hfilled, ?_⟩
        have hview : Server.view (disk', db') =
          (server.1.tree.put (chunkPath config row.id i) (.file content), server.2.rows) := Prod.ext htree hrows
        rw [hview]
        exact h.stage (i, content) hnew
  · intro error server' h
    obtain ⟨⟨hdisk, hrows⟩, ⟨-, hwhy⟩ | ⟨-, n, hfound⟩⟩ := h
    · refine Or.inl ⟨⟨_, rfl⟩, Prod.ext (congrArg Disk.tree hdisk) hrows,
        fun howns hdate _ _ => Or.inl (hwhy howns hdate)⟩
    · cases hfound

/-- A chunk file has an index of the session, and at most the bytes expected for it. -/
def ChunkWithin (config : AppConfig) (row : ChunkedUpload) (entry : Nat × Bytes) : Prop :=
  entry.1 < toU32 row.totalChunks ∧ entry.2.length ≤
    expectedChunkLen (toU64 row.totalBytes) config.chunkSizeBytes (toU32 row.totalChunks) entry.1

/-- Whatever fails, a run of calls keeps what the session has collected. -/
theorem receiveAll_faulty (huuid : crates.uuidParses row.id = true) (calls : List ReceiveCall)
    (hcalls : ∀ call ∈ calls, call.session.uploadId = row.id) (h : Collected config row start files server.view)
    (hwithin : ∀ entry ∈ files, ChunkWithin config row entry) :
    ∃ files', Collected config row start files'
        (receiveAll crates config (serverHandler oracle dbOracle) calls server).2.view ∧
      ∀ entry ∈ files', ChunkWithin config row entry := by
  refine receiveAll_invariant (I := fun _ server => ∃ files, Collected config row start files server.view ∧
    ∀ entry ∈ files, ChunkWithin config row entry) calls ?_ [] ⟨files, h, hwithin⟩
  intro call hcall accepted server h
  obtain ⟨files, hfiles, hwithin⟩ := h
  have hstep : (receiveChunk crates config call.now call.session call.chunkIndex call.data).Ensures
      (Program.Exactly (serverHandler oracle dbOracle)) server fun _ server' =>
        ∃ files, Collected config row start files server'.view ∧ ∀ entry ∈ files, ChunkWithin config row entry := by
    refine Program.Ensures.mono (receiveChunk_faulty hfiles huuid (hcalls call hcall) call.now call.chunkIndex
      call.data) ?_
    rintro result server' (⟨-, hview, -⟩ | ⟨hfits, -, -, content, hfilled, hcollected⟩)
    · exact ⟨files, by rw [hview]; exact hfiles, hwithin⟩
    · refine ⟨_, hcollected, fun entry hentry => ?_⟩
      rcases List.mem_append.mp hentry with hold | hnew
      · exact hwithin entry hold
      · rw [List.mem_singleton.mp hnew]
        exact ⟨hfits.1, hfilled.length_le.trans hfits.2.le⟩
  have hafter := hstep.run_exactly
  split <;> next hrun => rwa [hrun] at hafter

/-- The bytes staged for an index. -/
def stagedBytes (config : AppConfig) (row : ChunkedUpload) (t : FileTree) (i : Nat) : Bytes :=
  match t.node (chunkPath config row.id i) with
  | some (.file content) => content
  | _ => []

/-- The staged chunks in index order. -/
def stagedChunks (config : AppConfig) (row : ChunkedUpload) (t : FileTree) : List Bytes :=
  (List.range (toU32 row.totalChunks)).map (stagedBytes config row t)

variable {v : FileTree × List ChunkedUpload}

theorem stagedBytes_eq (h : Collected config row start files v) (i : Nat) :
    stagedBytes config row v.1 i = (files.lookup i).getD [] := by
  rw [stagedBytes, h.chunk]
  cases files.lookup i <;> rfl

theorem stagedChunks_eq (h : Collected config row start files v) :
    stagedChunks config row v.1 = payloads files (toU32 row.totalChunks) :=
  List.map_congr_left fun i _ => stagedBytes_eq h i

theorem readBeside_unique {made : FileTree} {place path : Path} {chunk chunk' : Bytes}
    (hlink : ∀ absolute target, made.node place ≠ some (.symlink absolute target))
    (h : ReadBeside made place path chunk) (h' : ChunkFile made place path chunk') : chunk = chunk' := by
  obtain ⟨content, found, hfile⟩ := h
  obtain ⟨found', hfile'⟩ := h'.fileAt_put hlink content
  rw [hfile] at hfile'
  cases hfile'
  rfl

theorem chunks_unique {made : FileTree} {place : Path}
    (hlink : ∀ absolute target, made.node place ≠ some (.symlink absolute target)) {paths : List Path} :
    ∀ {chunks chunks' : List Bytes}, List.Forall₂ (ReadBeside made place) paths chunks →
      List.Forall₂ (ChunkFile made place) paths chunks' → chunks = chunks' := by
  induction paths with
  | nil =>
      rintro chunks chunks' ⟨⟩ ⟨⟩
      rfl
  | cons path paths ih =>
      rintro chunks chunks' (_ | ⟨hread, hreads⟩) (_ | ⟨hfile, hfiles⟩)
      rw [readBeside_unique hlink hread hfile, ih hreads hfiles]

section Complete

variable {P : Primitives} {unlockState : UnlockState} {disk : Disk} {key : DataKey} {target : Path}

/-- A completion that succeeds leaves the staged chunks at the target, each in its segment. -/
theorem completeUpload_stores (hquiet : QuietOracle oracle)
    (htarget : Writable config unlockState oracle disk row key target)
    (hfresh : disk.tree.node (stagingDir config row.id) = none) (h : Collected config row disk.tree files v)
    (huuid : crates.uuidParses row.id = true) (hid : session.uploadId = row.id) (howns : session.Owns row) {now : Int}
    (hdate : isExpired crates now row.expiresAt = false) (nonce : FixedBytes 7) (writeVerify : Bool) :
    (completeUpload crates config P unlockState now nonce session writeVerify).Ensures ServerQuietly v
      fun result v' => ∀ upload, result = .ok upload →
        (stagedChunks config row v.1).flatten.length = toU64 row.totalBytes ∧ ∃ segments,
        sealSegments P (EncryptorBE32.new key nonce) (stagedChunks config row v.1) = some segments ∧
        v'.1.fileAt target = .ok (target, withHash P (streamContent nonce segments)) := by
  by_cases hall : AllAccepted row files
  · rw [stagedChunks_eq h]
    obtain ⟨t, rows⟩ := v
    obtain ⟨hjoins, hnotDir, hunstaged, canonicalRoot, existing, appended, hjoined⟩ :=
      htarget.joins hfresh hquiet h
    apply h.completeUpload_ensures htarget.key huuid hid howns hdate hall
    refine Program.Ensures.bind (Program.Ensures.inl (uploadStreaming_returns hjoined hjoins nonce _ _ writeVerify))
      ?_ ?_
    · rintro uploaded ⟨t', rows'⟩ ⟨hupload, rfl⟩
      obtain ⟨key', made, chunks, segments, hkey, hmade, hplace, hchunks, htotal, hseal, rfl⟩ := hupload uploaded rfl
      cases hkey
      cases chunks_unique (admits_of_createPlace hplace).2.not_symlink hchunks (h.chunkFiles hall hmade hunstaged)
      obtain ⟨hremove, hfile⟩ := h.removeStaged hmade hplace hunstaged (withHash P (streamContent nonce segments))
      refine (onDisk_stops hremove).ensures_bind ((statement_stops (.delete row.id)).ensures_bind ?_)
      exact fun upload _ => ⟨htotal, segments, hseal, hfile⟩
    · rintro error v' - upload hupload
      cases hupload
  · simp only [AllAccepted, not_forall, not_not] at hall
    obtain ⟨i, hi, hnone⟩ := hall
    obtain ⟨error, hstops⟩ := completeUpload_stops_missing h P unlockState huuid hid howns hdate hi hnone nonce
      writeVerify
    refine Program.Ensures.mono hstops ?_
    rintro result v' ⟨rfl, -⟩ upload hupload
    cases hupload

end Complete

/-! ### Sending the chunk again -/

variable {P : Primitives} {unlockState : UnlockState} {fresh : Disk}

/-- A completion stores these bytes at their index: whenever it succeeds the target has the staged chunks, and it
succeeds when all of them are there with the bytes the session was opened for. -/
structure CompletesWith (P : Primitives) (crates : Crates) (config : AppConfig) (unlockState : UnlockState)
    (row : ChunkedUpload) (fresh : Disk) (session : Session) (i : Nat) (data : Bytes) (quiet : Nat → Choice)
    (received : Server) (now : Int) (nonce : FixedBytes 7) (writeVerify : Bool) (key : DataKey)
    (target : Path) : Prop where
  staged : stagedBytes config row received.1.tree i = data
  stores : ∀ upload completed,
    (completeUpload crates config P unlockState now nonce session writeVerify).run (quietHandler quiet) received =
      (.ok upload, completed) → ∃ segments,
        sealSegments P (EncryptorBE32.new key nonce) (stagedChunks config row received.1.tree) = some segments ∧
        completed.1.tree.fileAt target = .ok (target, withHash P (streamContent nonce segments))
  succeeds : (∀ j < toU32 row.totalChunks, received.1.tree.node (chunkPath config row.id j) ≠ none) →
    (stagedChunks config row received.1.tree).flatten.length = toU64 row.totalBytes →
    (∀ chunk ∈ stagedChunks config row received.1.tree, chunk.length + 16 < 2 ^ 32) →
      ∃ upload completed,
        (completeUpload crates config P unlockState now nonce session writeVerify).run (quietHandler quiet)
          received = (.ok upload, completed) ∧
        ((readAndDecryptFile P key target).run (fsHandler quiet) completed.1).1 =
          .ok (stagedChunks config row received.1.tree).flatten

/-- The same chunk sent again without faults is accepted, and every completion after it, with any calls in between,
uses its bytes. -/
def Resendable (P : Primitives) (crates : Crates) (config : AppConfig) (unlockState : UnlockState)
    (row : ChunkedUpload) (fresh : Disk) (session : Session) (i : Nat) (data : Bytes) (failed : Server) : Prop :=
  ∀ (quiet : Nat → Choice), QuietOracle quiet → ∀ now, isExpired crates now row.expiresAt = false →
    ∃ result resent,
      (receiveChunk crates config now session i data).run (quietHandler quiet) failed = (.ok result, resent) ∧
      ∀ rest : List ReceiveCall,
        (∀ call ∈ rest, call.session.uploadId = row.id ∧ isExpired crates call.now row.expiresAt = false) →
        ∀ now' nonce writeVerify key target, isExpired crates now' row.expiresAt = false →
          Writable config unlockState quiet fresh row key target →
            CompletesWith P crates config unlockState row fresh session i data quiet
              (receiveAll crates config (quietHandler quiet) rest resent).2 now' nonce writeVerify key target

theorem completesWith_of_collected (hP : P.Lawful) {quiet : Nat → Choice} (hquiet : QuietOracle quiet)
    (hfresh : fresh.tree.node (stagingDir config row.id) = none) {received : Server}
    (h : Collected config row fresh.tree files received.view) (huuid : crates.uuidParses row.id = true)
    (hid : session.uploadId = row.id) (howns : session.Owns row) {now : Int}
    (hdate : isExpired crates now row.expiresAt = false) {i : Nat} {data : Bytes} (hdata : files.lookup i = some data)
    (nonce : FixedBytes 7) (writeVerify : Bool) {key : DataKey} {target : Path}
    (htarget : Writable config unlockState quiet fresh row key target) :
    CompletesWith P crates config unlockState row fresh session i data quiet received now nonce writeVerify key
      target where
  staged := by
    have hstaged := stagedBytes_eq h i
    rwa [hdata] at hstaged
  stores upload completed hrun :=
    (server_returns_of_ensures hquiet hrun
      (completeUpload_stores hquiet htarget hfresh h huuid hid howns hdate nonce writeVerify) upload rfl).2
  succeeds hpresent htotal hshort := by
    have hchunks : stagedChunks config row received.1.tree = payloads files (toU32 row.totalChunks) :=
      stagedChunks_eq h
    rw [hchunks] at htotal hshort ⊢
    have hall : AllAccepted row files := by
      intro j hj hnone
      have hnode : received.1.tree.node (chunkPath config row.id j) = _ := h.chunk j
      rw [hnone] at hnode
      exact hpresent j hj hnode
    obtain ⟨upload, t', rows', segments, hstops, hseal, hfile⟩ := completeUpload_assembles hP hquiet htarget hfresh h
      huuid hid howns hdate hall htotal.symm (fun chunk hchunk => by
        have := hshort chunk hchunk
        rw [maxPlaintextLen]
        omega) nonce writeVerify
    obtain ⟨hresult, hview⟩ := server_run_of_stops hquiet hstops
    obtain rfl : ((completeUpload crates config P unlockState now nonce session writeVerify).run (quietHandler quiet)
      received).2.1.tree = t' := congrArg Prod.fst hview
    refine ⟨upload, _, Prod.ext hresult rfl, ?_⟩
    rw [(run_of_stops hquiet (readAndDecryptFile_stops hfile key)).1, (readBytes_stream P key nonce segments).2]
    exact streamDecryptBytes_streamContent hP hseal hshort

/-- A chunk can be sent again if its file is not there. -/
theorem resendable_of_missing (hP : P.Lawful) (hfresh : fresh.tree.node (stagingDir config row.id) = none)
    {failed : Server} (h : Collected config row fresh.tree files failed.view)
    (huuid : crates.uuidParses row.id = true) (hid : session.uploadId = row.id) (howns : session.Owns row) {i : Nat}
    {data : Bytes} (hfits : ChunkFits config row (i, data)) (hnew : files.lookup i = none) :
    Resendable P crates config unlockState row fresh session i data failed := by
  intro quiet hquiet now hdate
  have haccepted := server_run_of_ensures hquiet (receiveChunk_accepts h huuid hid hdate howns hfits hnew)
  obtain ⟨⟨result, hresult⟩, hcollected⟩ := haccepted
  refine ⟨result, _, Prod.ext hresult rfl, fun rest hrest now' nonce writeVerify key target hdate' htarget => ?_⟩
  refine completesWith_of_collected hP hquiet hfresh (receiveAll_collects hquiet huuid rest hrest hcollected) huuid hid
    howns hdate' ?_ nonce writeVerify htarget
  simp [List.lookup_append, hnew]

/-- It cannot if its file is there. -/
theorem not_resendable_of_present {failed : Server} (h : Collected config row fresh.tree files failed.view)
    (huuid : crates.uuidParses row.id = true) (hid : session.uploadId = row.id) (howns : session.Owns row) {now : Int}
    (hdate : isExpired crates now row.expiresAt = false) {i : Nat} {data old : Bytes}
    (hfits : ChunkFits config row (i, data)) (hold : files.lookup i = some old) :
    ¬ Resendable P crates config unlockState row fresh session i data failed := by
  intro hresend
  obtain ⟨result, resent, hrun, -⟩ := hresend calmOracle calmOracle_quiet now hdate
  have hconflict := (server_run_of_stops calmOracle_quiet
    (receiveChunk_conflicts h huuid hid hdate howns hfits hold)).1
  rw [hrun] at hconflict
  cases hconflict

/-- A chunk whose call failed can be sent again exactly if its file was not there before the call, and the call
failed before it created the file. This holds after any earlier calls, under any faults. -/
theorem resendable_iff (P : Primitives) (hP : P.Lawful) (crates : Crates) (config : AppConfig)
    (unlockState : UnlockState) (quiet : Nat → Choice) (hquiet : QuietOracle quiet) (server started : Server)
    (uploadId : String) (hfresh : FreshUpload crates config server uploadId) (opened : Int)
    (params : InitUploadParams) (info : InitUploadResult)
    (hopen : (initUpload crates config uploadId opened params).run (quietHandler quiet) server = (.ok info, started))
    (oracle : Nat → Choice) (dbOracle : Nat → Option String) (earlier : List ReceiveCall)
    (hearlier : ∀ call ∈ earlier, call.session.uploadId = uploadId) (now : Int)
    (hdate : isExpired crates now info.expiresAt = false) (i : Nat) (data : Bytes)
    (hfits : ChunkFits config (newUploadRow uploadId info.expiresAt params) (i, data)) (before failed : Server)
    (hbefore : before = (receiveAll crates config (serverHandler oracle dbOracle) earlier started).2)
    (error : AppError)
    (hfail : (receiveChunk crates config now ⟨params.userId, params.targetId, params.targetType, uploadId⟩ i data).run
      (serverHandler oracle dbOracle) before = (.error error, failed)) :
    Resendable P crates config unlockState (newUploadRow uploadId info.expiresAt params) server.1
        ⟨params.userId, params.targetId, params.targetType, uploadId⟩ i data failed ↔
      before.1.tree.node (chunkPath config uploadId i) = none ∧ FailsEarly oracle dbOracle before := by
  obtain ⟨-, hstart⟩ := server_returns_of_ensures hquiet hopen (initUpload_ensures hfresh opened params) info rfl
  obtain ⟨files, hfiles, -⟩ : ∃ files,
    Collected config (newUploadRow uploadId info.expiresAt params) server.1.tree files
      (receiveAll crates config (serverHandler oracle dbOracle) earlier started).2.view ∧ _ :=
    receiveAll_faulty hfresh.parses earlier hearlier hstart.collected (by simp)
  rw [← hbefore] at hfiles
  have howns : (Session.mk params.userId params.targetId params.targetType uploadId).Owns
      (newUploadRow uploadId info.expiresAt params) := ⟨rfl, rfl, rfl⟩
  have hnode : before.1.tree.node (chunkPath config uploadId i) = _ := hfiles.chunk i
  have hcall : (receiveChunk crates config now ⟨params.userId, params.targetId, params.targetType, uploadId⟩ i
      data).Ensures (Program.Exactly (serverHandler oracle dbOracle)) before _ :=
    receiveChunk_faulty hfiles hfresh.parses rfl now i data
  have hstep := hcall.run_exactly
  rw [hfail] at hstep
  rw [hnode]
  rcases hstep with ⟨-, hview, hwhy⟩ | ⟨-, hnew, hlate, content, -, hcollected⟩
  · rw [← hview] at hfiles
    cases hlookup : files.lookup i with
    | none =>
        exact iff_of_true (resendable_of_missing hP hfresh.no_dir hfiles hfresh.parses rfl howns hfits hlookup)
          ⟨rfl, hwhy howns hdate hfits hlookup⟩
    | some old =>
        exact iff_of_false (not_resendable_of_present hfiles hfresh.parses rfl howns hdate hfits hlookup)
          fun hcondition => by cases hcondition.1
  · have hold : (files ++ [(i, content)]).lookup i = some content := by
      simp [List.lookup_append, hnew]
    exact iff_of_false (not_resendable_of_present hcollected hfresh.parses rfl howns hdate hfits hold)
      fun hcondition => hlate hcondition.2

/-- A disk with room for nothing more from its `n`th call on. -/
def fullFrom (n tick : Nat) : Choice :=
  if n ≤ tick then ⟨some "No space left on device (os error 28)", 0⟩ else calmOracle tick

/-- The server after the first chunk of two met a full disk. -/
def stuckServer (n : Nat) : Server :=
  ((receiveChunk sampleCrates sampleConfig (-1) twoBytesSession 0 [1]).run
    (serverHandler (fullFrom n) fun _ => none) startedServer).2

/-- When the disk has no room for the chunk file, the chunk can be sent again. -/
theorem resendable_iff_unopened :
    (Resendable plainPrimitives sampleCrates sampleConfig sampleUnlocked (newUploadRow "u" "" twoBytes) emptyServer.1
        twoBytesSession 0 [1] (stuckServer 2) ↔
      startedServer.1.tree.node (chunkPath sampleConfig "u" 0) = none ∧
        FailsEarly (fullFrom 2) (fun _ => none) startedServer) ∧
    Resendable plainPrimitives sampleCrates sampleConfig sampleUnlocked (newUploadRow "u" "" twoBytes) emptyServer.1
      twoBytesSession 0 [1] (stuckServer 2) := by
  have hiff := resendable_iff plainPrimitives plainPrimitives_lawful sampleCrates sampleConfig sampleUnlocked calmOracle
    calmOracle_quiet emptyServer startedServer "u"
    emptyServer_fresh (-2) twoBytes ⟨"u", 1, 2, 2, ""⟩ (Prod.ext (by decide) rfl)
    (fullFrom 2) (fun _ => none) [] (by simp) (-1) (by decide) 0 [1] ⟨by decide, by decide⟩
    startedServer (stuckServer 2) rfl
    (.internal "Failed to create chunk file: No space left on device (os error 28)") (Prod.ext (by decide) rfl)
  exact ⟨hiff, hiff.mpr ⟨by decide, Or.inr (Or.inr (by decide))⟩⟩

/-- After the first chunk could not be written it is refused as a duplicate, without faults, and the session cannot
be completed once the other chunk has arrived. -/
theorem chunk_refused_again :
    ((receiveChunk sampleCrates sampleConfig (-1) twoBytesSession 0 [1]).run (serverHandler (fullFrom 3) fun _ => none)
        startedServer).1 = .error (.internal "Failed to flush chunk: No space left on device (os error 28)") ∧
    ((receiveChunk sampleCrates sampleConfig (-1) twoBytesSession 0 [1]).run (quietHandler calmOracle)
        (stuckServer 3)).1 = .error (.conflict "Chunk already uploaded.") ∧
    ((completeUpload sampleCrates sampleConfig plainPrimitives sampleUnlocked (-1) ⟨List.replicate 7 0, by simp⟩
        twoBytesSession false).run (quietHandler calmOracle)
      (receiveAll sampleCrates sampleConfig (quietHandler calmOracle) [⟨-1, twoBytesSession, 1, [2]⟩]
        (stuckServer 3)).2).1 = .error (.internal "Chunk size mismatch: expected 2 bytes, read 1") := by
  refine ⟨?_, ?_, ?_⟩
  · decide
  · decide
  · decide +kernel

end ChunkService

end IronDrive
