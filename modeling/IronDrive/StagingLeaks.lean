import IronDrive.ChunkResend
import IronDrive.StagingArea

/-! Staging directories without a row. Every call on a session moves through the stages of the staging area, so neither
an opening nor a retirement leaks a directory; but `receiveChunk` makes the directory again after it has found the
row, and when that comes after a removal the directory stays behind. -/

namespace IronDrive

open Lib FileTree CryptoService FsService PathSafety

/-- A call that opens, feeds or ends sessions. -/
inductive ChunkCall
  | init (uploadId : String) (now : Int) (params : ChunkService.InitUploadParams)
  | receive (now : Int) (session : ChunkService.Session) (chunkIndex : Nat) (data : Bytes)
  | complete (unlockState : UnlockState) (now : Int) (streamNonce : FixedBytes 7) (session : ChunkService.Session)
      (writeVerify : Bool)
  | cancel (session : ChunkService.Session)
  | cleanup (now : Int)

open ChunkService

def ChunkCall.program (P : Primitives) (crates : Crates) (config : AppConfig) :
    ChunkCall → ChunkProgram Unit
  | .init uploadId now params => do
      let _ ← (initUpload crates config uploadId now params).inl
      return ()
  | .receive now session chunkIndex data => do
      let _ ← (receiveChunk crates config now session chunkIndex data).inl
      return ()
  | .complete unlockState now streamNonce session writeVerify => do
      let _ ← (completeUpload crates config P unlockState now streamNonce session writeVerify).inl
      return ()
  | .cancel session => (cancelUpload crates config session).inl
  | .cleanup now => do
      let _ ← cleanupExpiredUploads crates config now
      return ()

namespace ChunkCall

/-- How far a call is before its first step. An opening has drawn its id. -/
def stage : ChunkCall → Stage
  | init uploadId _ _ => .drawing uploadId
  | _ => .holding []

def receives : ChunkCall → Bool
  | receive _ _ _ _ => true
  | _ => false

end ChunkCall

namespace ChunkService

variable {P : Primitives} {crates : Crates} {config : AppConfig} {start : FileTree} {receives : Bool}

/-- The calls on the disk that leave a caller who has found rows where it is. -/
def Idle (config : AppConfig) (start : FileTree) (receives : Bool) (ids : List String) : FsCall → Prop
  | .createDirAll path =>
      (receives = true ∧ ∃ id ∈ ids, path = stagingDir config id) ∨
      (start.Straight path ∧ ∀ id, ¬ stagingDir config id <+: path)
  | .removeDirAll _ => False
  | _ => True

def Counts : UploadsCall → Prop
  | .setReceived _ _ => True
  | _ => False

theorem permits_of_idle {ids : List String} {op : serverSignature.Op}
    (h : Program.sumOps (Idle config start receives ids) Counts op) :
    Permits config start receives op (.holding ids) := by
  rcases op with op | op
  · cases op with
    | createDirAll path =>
        rcases h with ⟨hreceives, id, hmem, rfl⟩ | ⟨hstraight, hout⟩
        · exact Or.inr (Or.inl ⟨hreceives, id, ids, rfl, hmem, rfl⟩)
        · exact Or.inr (Or.inr ⟨⟨ids, rfl⟩, hstraight, hout⟩)
    | removeDirAll path => exact h.elim
    | tryExists path => exact fun _ _ _ => nofun
    | _ => trivial
  · cases op with
    | setReceived id n => trivial
    | _ => exact h.elim

theorem moves_of_idle {ids : List String} {op : serverSignature.Op} {answer : serverSignature.Answer op} {stage : Stage}
    (h : Program.sumOps (Idle config start receives ids) Counts op)
    (hmoves : Moves config start op (.holding ids) answer stage) :
    Program.sumAnswers (Trusted config start) (fun _ _ => True) op answer ∧ stage = .holding ids := by
  refine ⟨hmoves.1, hmoves.2.trans ?_⟩
  rcases op with op | op
  · cases op with
    | removeDirAll path => exact h.elim
    | _ => rfl
  · cases op with
    | setReceived id n => rfl
    | _ => exact h.elim

/-- A program of such calls. -/
theorem guarded_of_idle {α : Type} {ids : List String} {program : ServerProgram α} {R : α → Prop}
    (h : program.Within (Program.sumAnswers (Trusted config start) fun _ _ => True)
      (Program.sumOps (Idle config start receives ids) Counts) R) :
    program.Guarded (Moves config start) (Permits config start receives) (.holding ids) fun result stage =>
      stage = .holding ids ∧ ∀ value, result = .ok value → R value :=
  h.guarded (fun _ _ _ hop hmoves => moves_of_idle hop hmoves) fun _ => permits_of_idle

theorem lenient_idle (ids : List String) : Lenient (fun _ => True) (Idle config start receives ids) where
  reads op h := by cases op <;> trivial
  writes _ _ _ _ := trivial

/-- What stops is not half opened. -/
def NotOpening {α : Type} (_ : Except AppError α) (stage : Stage) : Prop := ∀ id, stage ≠ .opening id

theorem initUpload_guarded (uploadId : String) (now : Int) (params : InitUploadParams) :
    (initUpload crates config uploadId now params).Guarded (Moves config start) (Permits config start receives)
      (.drawing uploadId) NotOpening := by
  refine Program.guarded_ofExcept_bind (fun _ _ => ?_) fun _ _ => nofun
  refine ⟨Or.inl ⟨uploadId, rfl, rfl⟩, fun answer stage hmade => ?_⟩
  obtain ⟨-, rfl⟩ := hmade
  cases answer with
  | error e => exact nofun
  | ok u =>
      refine ⟨rfl, fun answer stage hinserted => ?_⟩
      obtain ⟨-, rfl⟩ := hinserted
      cases answer with
      | error e => exact nofun
      | ok u => exact nofun

/-- A caller that finds its session's row holds it. -/
theorem loadUploadRow_guarded (session : Session) :
    (loadUploadRow session.uploadId session.targetType).Guarded (Moves config start)
      (Permits config start receives) (.holding []) fun result stage =>
        (∃ ids, stage = .holding ids) ∧ ∀ row, result = .ok (some row) → stage = .holding [session.uploadId] := by
  refine ⟨trivial, fun answer stage hloaded => ?_⟩
  obtain ⟨-, rfl⟩ := hloaded
  cases answer with
  | error e => exact ⟨⟨_, rfl⟩, nofun⟩
  | ok found =>
      cases found with
      | none => exact ⟨⟨_, rfl⟩, nofun⟩
      | some row => exact ⟨⟨_, rfl⟩, fun _ _ => rfl⟩

theorem requireSession_guarded (now : Int) (session : Session) :
    (requireSession crates now session).Guarded (Moves config start) (Permits config start receives) (.holding [])
      fun result stage => (∃ ids, stage = .holding ids) ∧
        ∀ row, result = .ok row → stage = .holding [session.uploadId] := by
  refine Program.guarded_ofExcept_bind (fun _ _ => ?_) fun _ _ => ⟨⟨_, rfl⟩, nofun⟩
  refine (loadUploadRow_guarded session).bind (fun found stage hfound => ?_) fun _ _ herror => ⟨herror.1, nofun⟩
  cases found with
  | none => exact ⟨hfound.1, nofun⟩
  | some row =>
      have hstage := hfound.2 row rfl
      show (if row.userId ≠ session.userId ∨ row.targetId ≠ session.targetId then Program.fail .notFound
        else if isExpired crates now row.expiresAt then Program.fail (.validation "Upload session has expired.")
        else Program.done row : ServerProgram ChunkedUpload).Guarded _ _ stage _
      split
      · exact ⟨hfound.1, nofun⟩
      · split
        · exact ⟨hfound.1, nofun⟩
        · exact ⟨hfound.1, fun _ _ => hstage⟩

theorem stageChunk_within {ids : List String} {uploadId : String} (hmem : uploadId ∈ ids) (chunkIndex : Nat)
    (data : Bytes) :
    (stageChunk config uploadId chunkIndex data).Within (Trusted config start) (Idle config start true ids)
      fun _ => True := by
  have hN : Lenient (fun _ => True) (Idle config start true ids) := lenient_idle ids
  refine Program.Within.bind (R := fun _ => True) ⟨Or.inl ⟨rfl, uploadId, hmem, rfl⟩, fun answer _ => ?_⟩ fun _ _ => ?_
  · cases answer <;> trivial
  · refine ⟨trivial, fun answer _ => ?_⟩
    cases answer with
    | error e =>
        show (if e.kind = .alreadyExists then Program.fail (.conflict "Chunk already uploaded.")
          else Program.fail (.internal ("Failed to create chunk file: " ++ e.message)) : FsProgram Unit).Within _ _ _
        split <;> trivial
    | ok place =>
        refine (writeBuffered_only (fun _ _ => hN.writes _ _ _ trivial) data _).within.bind fun written _ => ?_
        refine ((attempt_only _ written.2).bind fun _ _ => hN.flush written.1).within.bind fun _ _ => ?_
        exact (hN.syncData written.1).within

theorem receiveChunk_guarded (now : Int) (session : Session) (chunkIndex : Nat) (data : Bytes) :
    (receiveChunk crates config now session chunkIndex data).Guarded (Moves config start) (Permits config start true)
      (.holding []) NotOpening := by
  refine (requireSession_guarded now session).bind (fun row stage hrow => ?_) fun _ stage herror => ?_
  · obtain rfl := hrow.2 row rfl
    refine (guarded_of_idle (R := fun _ => True) ?_).mono fun _ stage hstage => ?_
    · dsimp only
      split
      · trivial
      · split
        · trivial
        · refine (stageChunk_within (by simp) chunkIndex data).inl.bind fun _ _ => ?_
          refine ((lenient_idle _).readsOnly (countUploadedChunks_readsOnly session.uploadId)).within.inl.bind
            fun n _ => ?_
          refine ⟨trivial, fun answer _ => ?_⟩
          cases answer <;> trivial
    · rw [NotOpening, hstage.1]
      nofun
  · obtain ⟨ids, rfl⟩ := herror.1
    exact nofun

/-- Dropping the directory and then the row of a session that was found. -/
theorem drop_guarded {β : Type} {uploadId : String} {ids : List String} {stage : Stage}
    (hstage : stage = .holding ids ∨ stage = .clearing ids) (hmem : uploadId ∈ ids)
    {f : Except SqlError Unit → ServerProgram β} {Q : Except AppError β → Stage → Prop}
    (hf : ∀ answer, (f answer).Guarded (Moves config start) (Permits config start receives) (.clearing ids) Q) :
    ((onDisk (fsCall (.removeDirAll (stagingDir config uploadId)))).bind fun _ =>
      (statement (.delete uploadId)).bind f).Guarded (Moves config start) (Permits config start receives) stage Q := by
  refine ⟨⟨uploadId, ids, hstage, hmem, rfl⟩, fun answer stage' hremoved => ?_⟩
  obtain rfl : stage' = .retired uploadId ids := by
    rcases hstage with rfl | rfl
    · simpa only [Stage.advance, stagedId_stagingDir] using hremoved.2
    · simpa only [Stage.advance, stagedId_stagingDir] using hremoved.2
  refine ⟨⟨ids, rfl⟩, fun answer' stage'' hdeleted => ?_⟩
  obtain ⟨-, rfl⟩ := hdeleted
  exact hf answer'

theorem cancelUpload_guarded (session : Session) :
    (cancelUpload crates config session).Guarded (Moves config start) (Permits config start receives) (.holding [])
      NotOpening := by
  have hsettled : ∀ {stage : Stage}, (∃ ids, stage = .holding ids) → ∀ id, stage ≠ .opening id := by
    rintro stage ⟨ids, rfl⟩
    nofun
  refine Program.guarded_ofExcept_bind (fun _ _ => ?_) fun _ _ => nofun
  refine (loadUploadRow_guarded session).bind (fun found stage hfound => ?_) fun _ _ herror => hsettled herror.1
  cases found with
  | none => exact hsettled hfound.1
  | some row =>
      obtain rfl := hfound.2 row rfl
      show (if row.userId ≠ session.userId ∨ row.targetId ≠ session.targetId then Program.fail .notFound
        else (onDisk (fsCall (.removeDirAll (stagingDir config session.uploadId)))).bind fun _ =>
          (statement (.delete session.uploadId)).bind orSqlx : ServerProgram Unit).Guarded _ _ _ _
      split
      · exact nofun
      · refine drop_guarded (Or.inl rfl) (by simp) fun answer => ?_
        cases answer with
        | error e => exact nofun
        | ok u => exact nofun

/-- The targets of a completion are apart from the staging area, and no link leads there. -/
theorem leads_trusted {root : Path} (hroot : start.Straight root)
    (hapart : ∀ place, root <+: place → Apart config place) :
    Leads (Trusted config start) root start.Straight where
  root_eq place hplace := by
    obtain rfl := (hplace place rfl).2 hroot
    exact ⟨rfl, hroot⟩
  resolved path place hplace hunder := (hplace place rfl).1 (hapart place hunder)
  missing current component remaining e hstat hkind hcurrent hunder hsafe := by
    have hbelow : current ++ [component] <+: current ++ [component] ++ remaining := List.prefix_append _ _
    refine hstat e rfl hkind (by simp) (by rwa [List.dropLast_concat]) _ hbelow (hapart _ ?_) fun name hname => ?_
    · exact hunder.trans ((List.prefix_append _ _).trans hbelow)
    · rw [List.append_assoc, List.mem_append] at hname
      rcases hname with hname | hname
      · exact hcurrent.ordinary name hname
      · exact (hsafe name hname).ordinary

theorem targetRoot_apart (targetType targetId : String) (place : Path)
    (hunder : targetRoot config targetType targetId <+: place) : Apart config place := by
  intro hchunks
  obtain ⟨folder, hne, hroot⟩ : ∃ folder, ".chunks" ≠ folder ∧
      targetRoot config targetType targetId = config.dataDir ++ [folder] ++ [targetId] := by
    unfold targetRoot
    split
    · exact ⟨"spaces", by decide, by simp [spaceRoot]⟩
    · exact ⟨"libraries", by decide, by simp [libraryRoot]⟩
  have hfolder : config.dataDir ++ [folder] <+: place := (List.prefix_append _ [targetId]).trans (hroot ▸ hunder)
  have heq : config.dataDir ++ [".chunks"] = config.dataDir ++ [folder] :=
    (List.prefix_of_prefix_length_le hchunks hfolder (by simp [AppConfig.chunksDir])).eq_of_length
      (by simp [AppConfig.chunksDir])
  exact hne (by simpa using heq)

theorem completeUpload_guarded (unlockState : UnlockState) (now : Int) (nonce : FixedBytes 7) (session : Session)
    (writeVerify : Bool) (hroot : start.Straight (targetRoot config session.targetType session.targetId)) :
    (completeUpload crates config P unlockState now nonce session writeVerify).Guarded (Moves config start)
      (Permits config start receives) (.holding []) NotOpening := by
  have hidle : Lenient (fun _ => True) (Idle config start receives [session.uploadId]) := lenient_idle _
  have hapart : ∀ place, targetRoot config session.targetType session.targetId <+: place → Apart config place :=
    targetRoot_apart session.targetType session.targetId
  refine (requireSession_guarded now session).bind (fun row stage hrow => ?_) fun _ stage herror => ?_
  · obtain rfl := hrow.2 row rfl
    refine (guarded_of_idle (hidle.readsOnly (checkChunksPresent_readsOnly _ 0)).within.inl).bind
      (fun _ stage hstage => ?_) fun _ stage hstage => ?_
    · obtain rfl := hstage.1
      have hupload : (uploadTarget crates config P unlockState session.targetType session.targetId nonce row.targetPath
          (chunkPaths config session.uploadId (toU32 row.totalChunks)) (toU64 row.totalBytes) writeVerify).Within
            (Trusted config start) (Idle config start receives [session.uploadId]) fun _ => True := by
        rw [uploadTarget_eq]
        refine uploadStreaming_within hidle _ nonce _ _ writeVerify
          (safeJoin_within (leads_trusted hroot hapart) row.targetPath) (fun target htarget => Or.inr ?_)
          fun _ _ => trivial
        refine ⟨htarget.2.upward (List.dropLast_prefix _), fun id hbelow => ?_⟩
        exact hapart target htarget.1 ((List.prefix_append _ _).trans (hbelow.trans (List.dropLast_prefix _)))
      refine (guarded_of_idle hupload.inl).bind (fun upload stage hstage => ?_) fun _ stage hstage => ?_
      · obtain rfl := hstage.1
        exact drop_guarded (Or.inl rfl) (by simp) fun answer => nofun
      · rw [NotOpening, hstage.1]
        nofun
    · rw [NotOpening, hstage.1]
      nofun
  · obtain ⟨ids, rfl⟩ := herror.1
    exact nofun

/-- The cleanup goes through the ids that it found. -/
theorem cleanupUploads_guarded {ids : List String} (uploadIds : List String) : ∀ cleaned : Nat,
    (∀ id ∈ uploadIds, id ∈ ids) →
      (cleanupUploads config uploadIds cleaned).Guarded (ChunkMoves config start) (ChunkPermits config start receives)
        (.clearing ids) NotOpening := by
  induction uploadIds with
  | nil => exact fun _ _ _ heq => by cases heq
  | cons uploadId rest ih =>
      intro cleaned hsub
      have hmem : uploadId ∈ ids := hsub uploadId (by simp)
      have hrest : ∀ cleaned, (cleanupUploads config rest cleaned).Guarded (ChunkMoves config start)
          (ChunkPermits config start receives) (.clearing ids) NotOpening :=
        fun cleaned => ih cleaned fun id hid => hsub id (List.mem_cons_of_mem _ hid)
      have hdelete : ((statement (.delete uploadId)).inl.bind fun _ =>
          cleanupUploads config rest (cleaned + 1)).Guarded (ChunkMoves config start)
            (ChunkPermits config start receives) (.retired uploadId ids) NotOpening := by
        refine ⟨⟨ids, rfl⟩, fun answer stage hdeleted => ?_⟩
        obtain ⟨-, rfl⟩ := hdeleted
        exact hrest _
      refine ⟨fun id hpath ids' hids => ?_, fun answer stage hsought => ?_⟩
      · cases hids
        rwa [← stagingDir_inj hpath]
      · obtain ⟨-, rfl⟩ := hsought
        have hgone : (answer : Except IoError Bool) ≠ .ok true → (Stage.clearing ids).next config
            (.inl (.inl (.tryExists (stagingDir config uploadId)))) answer = .retired uploadId ids := by
          intro hnot
          simp only [Stage.next, Stage.advance, stagedId_stagingDir]
          cases answer with
          | error e => rfl
          | ok found =>
              cases found with
              | true => exact absurd rfl hnot
              | false => rfl
        cases answer with
        | error e =>
            rw [hgone fun heq => by cases heq]
            exact hdelete
        | ok found =>
            cases found with
            | false =>
                rw [hgone fun heq => by cases heq]
                exact hdelete
            | true =>
                have hkept : (Stage.clearing ids).next config
                    (.inl (.inl (.tryExists (stagingDir config uploadId)))) (.ok true : Except IoError Bool) =
                      .clearing ids := by
                  simp only [Stage.next, Stage.advance, stagedId_stagingDir]
                rw [hkept]
                refine ⟨⟨uploadId, ids, Or.inr rfl, hmem, rfl⟩, fun answer stage hremoved => ?_⟩
                obtain rfl : stage = .retired uploadId ids := by
                  simpa only [Stage.next, Stage.advance, stagedId_stagingDir] using hremoved.2
                exact hdelete

theorem cleanupExpiredUploads_guarded (now : Int) :
    (cleanupExpiredUploads crates config now).Guarded (ChunkMoves config start) (ChunkPermits config start receives)
      (.holding []) NotOpening := by
  refine ⟨trivial, fun answer stage hfound => ?_⟩
  obtain ⟨-, rfl⟩ := hfound
  cases answer with
  | error e => exact nofun
  | ok uploadIds => exact cleanupUploads_guarded uploadIds 0 fun _ => id

end ChunkService

open ChunkService

/-! ### Runs -/

/-- No link leads to, or lies at, the root of the library or space that a completion writes to. -/
def ChunkCall.Targets (config : AppConfig) (t : FileTree) : ChunkCall → Prop
  | complete _ _ _ session _ => t.Straight (targetRoot config session.targetType session.targetId)
  | _ => True

theorem ChunkCall.guarded {P : Primitives} {crates : Crates} {config : AppConfig} {start : FileTree} (call : ChunkCall)
    (htargets : call.Targets config start) :
    (call.program P crates config).Guarded (ChunkMoves config start) (ChunkPermits config start call.receives)
      call.stage NotOpening := by
  have hinl : ∀ {α : Type} {program : ServerProgram α} {receives : Bool} {stage : Stage},
      program.Guarded (Moves config start) (Permits config start receives) stage NotOpening →
        (program.inl : ChunkProgram α).Guarded (ChunkMoves config start) (ChunkPermits config start receives) stage
          NotOpening := fun h => h.inl (fun _ _ _ _ => id) fun _ _ => id
  cases call with
  | init uploadId now params =>
      exact (hinl (initUpload_guarded uploadId now params)).bind (fun _ _ => id) fun _ _ => id
  | receive now session chunkIndex data =>
      exact (hinl (receiveChunk_guarded now session chunkIndex data)).bind (fun _ _ => id) fun _ _ => id
  | complete unlockState now streamNonce session writeVerify =>
      exact (hinl (completeUpload_guarded unlockState now streamNonce session writeVerify htargets)).bind
        (fun _ _ => id) fun _ _ => id
  | cancel session => exact hinl (cancelUpload_guarded session)
  | cleanup now => exact (cleanupExpiredUploads_guarded now).bind (fun _ _ => id) fun _ _ => id

variable {ι : Type} [DecidableEq ι]

/-- The ids drawn for new sessions: no row has them, and no two are the same. -/
structure DrawnIds (rows : List ChunkedUpload) (calls : ι → ChunkCall) : Prop where
  ordinary : ∀ i id, (calls i).stage.Draws id → Ordinary id
  unused : ∀ i id, (calls i).stage.Draws id → ∀ r ∈ rows, r.id ≠ id
  distinct : ∀ i j id, (calls i).stage.Draws id → (calls j).stage.Draws id → i = j

omit [DecidableEq ι] in
/-- What holds before the first call. -/
theorem tracked_start {config : AppConfig} {server : Server} {calls : ι → ChunkCall}
    (harea : StagingArea config server.1.tree server.2.rows) (hdrawn : DrawnIds server.2.rows calls) :
    Tracked config server.1.tree server [] fun i => (calls i).stage := by
  have hholds : ∀ i id, ¬ (calls i).stage.Holds id := by
    intro i id hholds
    cases hcall : calls i with
    | init uploadId now params =>
        rw [hcall] at hholds
        exact hholds
    | _ =>
        rw [hcall] at hholds
        cases hholds
  have hretired : ∀ i id ids, (calls i).stage ≠ .retired id ids := by
    intro i id ids
    cases calls i <;> nofun
  refine ⟨⟨fun _ _ _ => id, fun _ _ _ _ => id, harea.dir, harea.ids, fun id hdir => Or.inl (harea.covered id hdir),
    fun i id ids hview => absurd hview (hretired i id ids),
    fun i id hdraws => ⟨hdrawn.unused i id hdraws, fun j => hholds j id⟩, hdrawn.distinct, fun i id h => ?_⟩,
    ⟨fun i id ids hview => absurd hview (hretired i id ids), fun i id h => absurd h (hholds i id)⟩⟩
  exact h.elim (hdrawn.ordinary i id) fun hheld => absurd hheld (hholds i id)

/-- The calls on the sessions, to be interleaved along a schedule. -/
def callsOnSessions (P : Primitives) (crates : Crates) (config : AppConfig) (calls : ι → ChunkCall) (i : ι) :
    ChunkProgram Unit :=
  (calls i).program P crates config

/-- No staging data is leaked in any run of calls, none of them failing for a reason outside the program, in which every
`receiveChunk` makes the directory of its session where it is, or has not been dropped yet: once all calls have
returned, every directory in the staging area belongs to a session that has a row. -/
theorem staging_covered (P : Primitives) (crates : Crates) (config : AppConfig) (server : Server)
    (harea : StagingArea config server.1.tree server.2.rows) (calls : ι → ChunkCall)
    (hdrawn : DrawnIds server.2.rows calls) (htargets : ∀ i, (calls i).Targets config server.1.tree)
    (oracle : Nat → Choice) (hquiet : QuietOracle oracle) (stale : Nat → Option Bytes) (schedule : List ι)
    (hfinds : Pool.AlongPast (chunkHandler oracle stale fun _ => none)
      (FindsStaging fun i => (calls i).receives) schedule (callsOnSessions P crates config calls) server [])
    (hstopped : ∀ i, Pool.Stopped ((Pool.run (chunkHandler oracle stale fun _ => none) schedule
      (callsOnSessions P crates config calls) server).1 i)) (id : String) (rest : Path)
    (hdir : (Pool.run (chunkHandler oracle stale fun _ => none) schedule (callsOnSessions P crates config calls)
      server).2.1.tree.node (config.chunksDir ++ id :: rest) = some .dir) :
    ∃ row ∈ (Pool.run (chunkHandler oracle stale fun _ => none) schedule (callsOnSessions P crates config calls)
      server).2.2.rows, row.id = id := by
  obtain ⟨views, htracked, hguarded⟩ := Pool.guarded (H := ChunkMoves config server.1.tree)
    (P := fun i => ChunkPermits config server.1.tree (calls i).receives) (I := Tracked config server.1.tree)
    (Q := fun _ => NotOpening) (fun i op s past views hop hnext h => h.step harea hquiet hop hnext) schedule _ server []
    _ hfinds (fun i => (calls i).guarded (htargets i)) (tracked_start harea hdrawn)
  have hstaging : stagingDir config id <+: config.chunksDir ++ id :: rest := ⟨rest, by simp [stagingDir]⟩
  rcases htracked.accounted.covered id (node_above_dir hstaging hdir) with hrow | ⟨i, hopening⟩
  · exact hrow
  · exfalso
    have hi := hguarded i
    cases hprogram : (Pool.run (chunkHandler oracle stale fun _ => none) schedule
        (callsOnSessions P crates config calls) server).1 i with
    | call op next => exact hstopped i op next hprogram
    | done value =>
        rw [hprogram] at hi
        exact hi id hopening
    | fail error =>
        rw [hprogram] at hi
        exact hi id hopening

instance decidableFindsStaging (receives : ι → Bool) (i : ι) (server : Server)
    (past : List (ι × Event chunkSignature)) : DecidablePred (FindsStaging receives i server past)
  | .inl (.inl (.createDirAll _)) => inferInstanceAs (Decidable (_ → _))
  | .inl (.inl (.canonicalize _)) | .inl (.inl (.symlinkMetadata _)) | .inl (.inl (.metadata _))
  | .inl (.inl (.tryExists _)) | .inl (.inl (.readDir _)) | .inl (.inl (.removeDirAll _)) | .inl (.inl (.create _))
  | .inl (.inl (.createNew _)) | .inl (.inl (.openFile _)) | .inl (.inl (.readFile _)) | .inl (.inl (.fileMetadata _))
  | .inl (.inl (.read _ _ _)) | .inl (.inl (.readExact _ _ _)) | .inl (.inl (.writeAll _ _ _)) | .inl (.inl (.flush _))
  | .inl (.inl (.syncData _)) | .inl (.inr _) | .inr _ => inferInstanceAs (Decidable True)

theorem emptyServer_area : StagingArea sampleConfig emptyServer.1.tree emptyServer.2.rows := by
  have hpaths : ∀ p ∈ emptyServer.1.tree.paths, p.head? = some ".chunks" → p.length < 2 := by decide +kernel
  have hnone : ∀ id, emptyServer.1.tree.node (stagingDir sampleConfig id) = none := by
    intro id
    by_contra hnode
    exact absurd (hpaths _ ((emptyServer.1.tree.mem_paths _).mpr hnode) rfl) (by simp [stagingDir, AppConfig.chunksDir])
  refine ⟨by simp [AppConfig.chunksDir, sampleConfig, Ordinary], by decide +kernel, fun id absolute target => ?_,
    fun r hr => absurd hr List.not_mem_nil, fun id hdir => ?_⟩
  · rw [hnone]
    simp
  · rw [hnone] at hdir
    cases hdir

/-- Two sessions are opened; a chunk is sent to the first of them while that is cancelled. -/
def cancelledWhileSending : Fin 4 → ChunkCall
  | 0 => .init "u" (-2) twoBytes
  | 1 => .init "v" (-2) twoBytes
  | 2 => .receive (-1) twoBytesSession 0 [7]
  | 3 => .cancel twoBytesSession

abbrev calmChunks : Handler chunkSignature Server := chunkHandler calmOracle (fun _ => none) fun _ => none

abbrev sendingCalls : Fin 4 → ChunkProgram Unit :=
  callsOnSessions plainPrimitives sampleCrates sampleConfig cancelledWhileSending

/-- The chunk arrives before the cancellation; the other session's directory stays, with its row. -/
def sentBefore : List (Fin 4) :=
  List.replicate 2 0 ++ List.replicate 2 1 ++ List.replicate 9 2 ++ List.replicate 3 3

/-- The cancellation comes between the look at the row and the making of the directory. -/
def sentBetween : List (Fin 4) :=
  List.replicate 2 0 ++ List.replicate 2 1 ++ [2] ++ List.replicate 3 3 ++ List.replicate 8 2

theorem drawn_sending : DrawnIds emptyServer.2.rows cancelledWhileSending := by
  have hdraws : ∀ i id, (cancelledWhileSending i).stage.Draws id → i = 0 ∧ id = "u" ∨ i = 1 ∧ id = "v" := by
    intro i id h
    match i, h with
    | 0, h => exact Or.inl ⟨rfl, h.symm⟩
    | 1, h => exact Or.inr ⟨rfl, h.symm⟩
    | 2, h => exact h.elim
    | 3, h => exact h.elim
  refine ⟨fun i id h => ?_, fun _ _ _ => nofun, fun i j id hi hj => ?_⟩
  · rcases hdraws i id h with ⟨-, rfl⟩ | ⟨-, rfl⟩ <;> simp [Ordinary]
  · obtain ⟨rfl, rfl⟩ | ⟨rfl, rfl⟩ := hdraws i id hi
    · exact ((hdraws j _ hj).resolve_right (by simp)).1.symm
    · exact ((hdraws j _ hj).resolve_left (by simp)).1.symm

theorem targets_sending (i : Fin 4) : (cancelledWhileSending i).Targets sampleConfig emptyServer.1.tree := by
  match i with
  | 0 | 1 | 2 | 3 => trivial

theorem staging_covered_sent :
    ∃ row ∈ (Pool.run calmChunks sentBefore sendingCalls emptyServer).2.2.rows, row.id = "v" :=
  staging_covered plainPrimitives sampleCrates sampleConfig emptyServer emptyServer_area cancelledWhileSending
    drawn_sending targets_sending calmOracle calmOracle_quiet (fun _ => none) sentBefore
    (by decide +kernel) (fun i => Pool.stopped_of_succeeded (by revert i; decide +kernel)) "v" [] (by decide +kernel)

/-- All calls return `Ok`, and the cancelled session has a directory, and no row. -/
theorem staging_leaked :
    (∀ i, Pool.succeeded ((Pool.run calmChunks sentBetween sendingCalls emptyServer).1 i) = true) ∧
    (Pool.run calmChunks sentBetween sendingCalls emptyServer).2.1.tree.node (stagingDir sampleConfig "u") = some .dir ∧
    (Pool.run calmChunks sentBetween sendingCalls emptyServer).2.2.rows.map ChunkedUpload.id = ["v"] := by
  refine ⟨?_, ?_, ?_⟩
  · decide +kernel
  · decide +kernel
  · decide +kernel

end IronDrive
