import IronDrive.ChunkService
import IronDrive.PathContainment
import IronDrive.CryptoAgreement

/-! Failed uploads, at every point of failure. The writers open the target itself with `File::create`,
which truncates it, and have no temporary file: until that call has succeeded a failing upload leaves
the file at the target as it was, afterwards it does not. -/

namespace IronDrive

open Lib FileTree PathSafety CryptoService FsService ChunkService

/-- The place a call opened for writing from scratch. -/
def created : Event fsSignature → Option Path
  | ⟨.create _, answer⟩ => Except.toOption (answer : Except IoError Path)
  | ⟨.createNew _, answer⟩ => Except.toOption (answer : Except IoError Path)
  | _ => none

/-- The call opened the file at `p` for writing from scratch. -/
def CreatesAt (p : Path) (event : Event fsSignature) : Prop := created event = some p

instance (p : Path) : DecidablePred (CreatesAt p) := fun event =>
  inferInstanceAs (Decidable (created event = some p))

/-- The calls of a program that removes nothing and writes only to open files at places in `R`. -/
def WritesIn (R : Path → Prop) : FsCall → Prop
  | .removeDirAll _ | .createNew _ => False
  | .writeAll place _ _ => R place
  | _ => True

/-- The calls that leave the file at `p` as it is, unless they create it. -/
abbrev Spares (p : Path) : FsCall → Prop := WritesIn fun place => place ≠ p

/-- The calls that touch no file: they read, make directories or flush. -/
def Aside : FsCall → Prop
  | .create _ | .createNew _ | .writeAll _ _ _ | .removeDirAll _ => False
  | _ => True

theorem aside_of_readOnly {op : FsCall} (h : op.ReadOnly) : Aside op := by
  cases op <;> trivial

theorem writesIn_of_aside {R : Path → Prop} {op : FsCall} (h : Aside op) : WritesIn R op := by
  cases op <;> trivial

/-- Either the file at `p` has been created during the calls logged so far, or it is what it was in
`before`, and every path leads where it led. -/
def Kept (before : FileTree) (p : Path) (content : Bytes) (v : FileTree × List (Event fsSignature)) : Prop :=
  (∃ event ∈ v.2, CreatesAt p event) ∨ (before.Extends v.1 ∧ v.1.node p = some (.file content))

section Kept

variable {before : FileTree} {p : Path} {content : Bytes} {v v' : FileTree × List (Event fsSignature)}

theorem kept_start (h : before.node p = some (.file content)) : Kept before p content (before, []) :=
  Or.inr ⟨Extends.refl before, h⟩

/-- Once the file has been created, nothing more is claimed of it. -/
theorem kept_of_created {α : Type} {program : FsProgram α} (h : ∃ event ∈ v.2, CreatesAt p event) :
    program.Ensures (Program.Logged Anyhow) v fun _ v' => Kept before p content v' := by
  refine Program.Ensures.mono (Program.Only.ensures (P := fun _ => True) (R := fun _ => True)
    (I := fun v : FileTree × List (Event fsSignature) => ∃ event ∈ v.2, CreatesAt p event) ?_ ?_ h)
    fun _ _ hcreated => Or.inl hcreated
  · induction program with
    | done value => trivial
    | fail error => trivial
    | call op next ih => exact ⟨trivial, ih⟩
  · rintro op w answer w' - ⟨event, hmem, hcreates⟩ ⟨-, hlog⟩
    exact ⟨event, by rw [hlog]; exact List.mem_append_left _ hmem, hcreates⟩

/-- The file at `p` stays as it is from one tree to the next, and every path leads where it led. -/
def Stays (p : Path) (t t' : FileTree) : Prop :=
  ∀ c, t.node p = some (.file c) → t.Extends t' ∧ t'.node p = some (.file c)

theorem stays_refl (p : Path) (t : FileTree) : Stays p t t := fun _ h => ⟨Extends.refl t, h⟩

theorem put_file_elsewhere {t : FileTree} {place : Path} (hne : place ≠ p)
    (hlink : ∀ absolute target, t.node place ≠ some (.symlink absolute target)) (data : Bytes) :
    Stays p t (t.put place (.file data)) := by
  intro c hnode
  exact ⟨extends_put_file hlink data, by rw [node_put_of_ne (Ne.symm hne), hnode]⟩

theorem stays_of_createDirs {names : List String} {t t' : FileTree} (h : t.createDirs [] names = .ok t') :
    Stays p t t' :=
  fun _ hnode => ⟨extends_createDirs names h, node_of_createDirs names h hnode⟩

/-- One call that spares the file creates it or leaves it as it is, whatever the operating system does. -/
theorem spares_step {op : FsCall} {answer : op.Answer} {choice : Choice} {t t' : FileTree}
    (hspares : Spares p op) (h : op.perform choice t = (answer, t')) :
    CreatesAt p ⟨op, answer⟩ ∨ Stays p t t' := by
  have hanswer : (op.perform choice t).1 = answer := by rw [h]
  have htree : (op.perform choice t).2 = t' := by rw [h]
  by_cases hread : op.ReadOnly
  · rw [← htree, perform_readOnly hread]
    exact Or.inr (stays_refl p t)
  subst hanswer htree
  cases op with
  | removeDirAll path | createNew path => exact absurd hspares id
  | writeAll place offset data =>
      right
      simp only [FsCall.perform]
      cases hplace : t.node place with
      | none => exact stays_refl p t
      | some n =>
          cases n with
          | file old => exact put_file_elsewhere hspares (by simp [hplace]) _
          | dir | symlink => exact stays_refl p t
  | createDirAll path =>
      right
      simp only [FsCall.perform]
      cases choice.fault with
      | some message =>
          cases hpartial : t.createDirs [] (path.take choice.amount) with
          | ok made => exact stays_of_createDirs hpartial
          | error kind => exact stays_refl p t
      | none =>
          cases hfull : t.createDirs [] path with
          | ok made => exact stays_of_createDirs hfull
          | error kind => exact stays_refl p t
  | create path =>
      simp only [FsCall.perform]
      cases hplace : choice.guard (t.createPlace path) with
      | error e => exact Or.inr (stays_refl p t)
      | ok place =>
          have hresolved := (admits_of_createPlace ((guard_accounted choice _).ok place hplace)).2
          by_cases hne : place = p
          · subst hne
            exact Or.inl rfl
          · exact Or.inr (put_file_elsewhere hne hresolved.not_symlink [])
  | _ => exact absurd trivial hread

theorem spares_kept {op : FsCall} {answer : op.Answer} (hspares : Spares p op)
    (h : Kept before p content v) (hcall : Program.Logged Anyhow op v answer v') :
    Kept before p content v' := by
  obtain ⟨⟨choice, -, hperform⟩, hlog⟩ := hcall
  rcases h with ⟨created, hmem, hcreates⟩ | ⟨hext, hnode⟩
  · exact Or.inl ⟨created, by rw [hlog]; exact List.mem_append_left _ hmem, hcreates⟩
  · rcases spares_step hspares hperform with hcreates | hstays
    · exact Or.inl ⟨_, by rw [hlog]; exact List.mem_append_right _ (List.mem_singleton_self _), hcreates⟩
    · obtain ⟨hext', hnode'⟩ := hstays content hnode
      exact Or.inr ⟨hext.trans hext', hnode'⟩

theorem kept_of_only {α : Type} {R : α → Prop} {program : FsProgram α} (h : program.Only (Spares p) R)
    (hv : Kept before p content v) :
    program.Ensures (Program.Logged Anyhow) v fun _ v' => Kept before p content v' :=
  h.ensures (fun _ _ _ _ hspares hkept hcall => spares_kept hspares hkept hcall) hv

/-- The program fails at once, or opens a file with `File::create` and then writes to that file only. -/
def CreatesFirst {α : Type} (program : FsProgram α) : Prop :=
  (∃ error, program = .fail error) ∨ ∃ path onError f, program = (createFile path onError).bind f ∧
    ∀ (R : Path → Prop) place, R place → (f ⟨place, 0⟩).Only (WritesIn R) fun _ => True

/-- Predicates that hold of every call that reads, and of those that write to places in `R`. -/
structure Lenient (R : Path → Prop) (N : FsCall → Prop) : Prop where
  reads : ∀ op, op.ReadOnly → N op
  writes : ∀ place offset data, R place → N (.writeAll place offset data)

theorem lenient_writesIn (R : Path → Prop) : Lenient R (WritesIn R) where
  reads _ h := writesIn_of_aside (aside_of_readOnly h)
  writes _ _ _ h := h

/-- The program fails at once, or opens a file with `File::create` at `dest` and then reads, and writes to it. -/
def OpensAt {α : Type} (dest : Path) (program : FsProgram α) : Prop :=
  (∃ error, program = .fail error) ∨ ∃ onError f, program = (createFile dest onError).bind f ∧
    ∀ (R : Path → Prop) (N : FsCall → Prop), Lenient R N → ∀ place, R place → (f ⟨place, 0⟩).Only N fun _ => True

theorem OpensAt.createsFirst {α : Type} {dest : Path} {program : FsProgram α} (h : OpensAt dest program) :
    CreatesFirst program := by
  rcases h with ⟨error, rfl⟩ | ⟨onError, f, rfl, hf⟩
  · exact Or.inl ⟨error, rfl⟩
  · exact Or.inr ⟨dest, onError, f, rfl, fun R => hf R _ (lenient_writesIn R)⟩

/-- Besides its creation of `dest` such a program makes calls of every kind that reads, or writes. -/
theorem OpensAt.only {α : Type} {dest : Path} {program : FsProgram α} (h : OpensAt dest program)
    {N : FsCall → Prop} (hN : Lenient (fun _ => True) N) (hcreate : N (.create dest)) :
    program.Only N fun _ => True := by
  rcases h with ⟨error, rfl⟩ | ⟨onError, f, rfl, hf⟩
  · trivial
  · refine ⟨hcreate, fun answer => ?_⟩
    cases answer with
    | error e => trivial
    | ok place => exact hf _ N hN place trivial

/-- Such a program fails, or creates the file at `p`, or opens another one. -/
theorem CreatesFirst.kept {α : Type} {program : FsProgram α} (h : CreatesFirst program)
    (hv : Kept before p content v) :
    program.Ensures (Program.Logged Anyhow) v fun _ v' => Kept before p content v' := by
  rcases h with ⟨error, rfl⟩ | ⟨path, onError, f, rfl, hf⟩
  · exact hv
  · intro answer v' hcall
    have hspares : Spares p (.create path) := trivial
    have hkept := spares_kept hspares hv hcall
    cases answer with
    | error e => exact hkept
    | ok place =>
        by_cases hplace : place = p
        · subst hplace
          apply kept_of_created
          exact ⟨⟨.create path, .ok place⟩, by rw [hcall.2]; simp, rfl⟩
        · exact kept_of_only (hf _ place hplace) hkept

theorem CreatesFirst.only {α : Type} {program : FsProgram α} (h : CreatesFirst program) :
    program.Only (WritesIn fun _ => True) fun _ => True := by
  rcases h with ⟨error, rfl⟩ | ⟨path, onError, f, rfl, hf⟩
  · trivial
  · refine ⟨trivial, fun answer => ?_⟩
    cases answer with
    | error e => trivial
    | ok place => exact hf _ place trivial

end Kept

section Writers

variable {P : Primitives} {p : Path} {R : Path → Prop} {α : Type} {onError : IoError → AppError}

theorem aside_of_readsOnly {program : FsProgram α} (h : ReadsOnly program) :
    program.Only Aside fun _ => True :=
  h.mono (fun _ => aside_of_readOnly) fun _ => id

theorem writesIn_only {Q : α → Prop} {program : FsProgram α} (h : program.Only Aside Q) :
    program.Only (WritesIn R) Q :=
  h.mono (fun _ => writesIn_of_aside) fun _ => id

theorem writesIn_of_readsOnly {program : FsProgram α} (h : ReadsOnly program) :
    program.Only (WritesIn R) fun _ => True :=
  writesIn_only (aside_of_readsOnly h)

theorem createDirAll_aside (path : Path) : (createDirAll path onError).Only Aside fun _ => True :=
  fsCall_attempt_only (.createDirAll path) trivial onError id

theorem flush_aside (file : OpenFile) : (file.flush onError).Only Aside fun _ => True :=
  fsCall_attempt_only (.flush file.place) trivial onError id

theorem syncData_aside (file : OpenFile) : (file.syncData onError).Only Aside fun _ => True :=
  fsCall_attempt_only (.syncData file.place) trivial onError id

section Lenient

variable {N : FsCall → Prop} (hN : Lenient R N)

include hN

theorem Lenient.readsOnly {program : FsProgram α} (h : ReadsOnly program) : program.Only N fun _ => True :=
  h.mono hN.reads fun _ => id

theorem Lenient.flush (file : OpenFile) : (file.flush onError).Only N fun _ => True :=
  fsCall_attempt_only (.flush file.place) (hN.reads _ trivial) onError id

theorem Lenient.syncData (file : OpenFile) : (file.syncData onError).Only N fun _ => True :=
  fsCall_attempt_only (.syncData file.place) (hN.reads _ trivial) onError id

/-- Writing to an open file leaves it open at the same place. -/
theorem Lenient.writeAll {file : OpenFile} (h : R file.place) (data : Bytes) :
    (file.writeAll data onError).Only N fun file' => R file'.place := by
  apply (fsCall_attempt_only (.writeAll file.place file.cursor data) (hN.writes _ _ _ h) onError id).bind
  intro u _
  exact h

theorem Lenient.streamChunks (paths : List Path) : ∀ (index : Nat) (w : StreamWriter), R w.out.place →
    (streamChunks P paths index w).Only N fun w' => R w'.out.place := by
  induction paths with
  | nil => intro index w h; exact h
  | cons path paths ih =>
      intro index w h
      apply (hN.readsOnly (readFile_readsOnly path _)).bind
      intro buffer _
      -- Both branches seal the chunk and write it the same way.
      have hwrite : ∀ next : Bytes × EncryptorBE32,
          (Program.bind (w.out.writeAll (le32 next.1.length) fun e =>
              .internal ("Failed to write segment header: " ++ e.message)) fun out =>
            Program.bind (out.writeAll next.1 fun e =>
              .internal ("Failed to write segment body: " ++ e.message)) fun out =>
            CryptoService.streamChunks P paths (index + 1)
              { out := out, hasher := w.hasher ++ le32 next.1.length ++ next.1, encryptor := next.2,
                bytesRead := w.bytesRead + buffer.length }).Only N fun w' => R w'.out.place := by
        intro next
        apply (hN.writeAll h _).bind
        intro out hout
        apply (hN.writeAll hout _).bind
        intro out' hout'
        exact ih (index + 1) _ hout'
      dsimp only
      split
      · exact (Program.only_okOr _ _).bind fun next _ => hwrite next
      · exact (Program.only_okOr _ _).bind fun next _ => hwrite next

end Lenient

theorem encryptAndWriteFileOwned_opensAt (dataKey : DataKey) (nonce : FixedBytes 12)
    (plaintext : Bytes) (dest : Path) (writeVerify : Bool) :
    OpensAt dest (encryptAndWriteFileOwned P dataKey nonce plaintext dest writeVerify) := by
  unfold encryptAndWriteFileOwned
  cases P.encryptDetached dataKey nonce plaintext with
  | none => exact Or.inl ⟨_, rfl⟩
  | some sealed =>
      obtain ⟨ciphertext, tag⟩ := sealed
      refine Or.inr ⟨_, _, rfl, fun R N hN place hplace => ?_⟩
      refine (hN.writeAll hplace _).bind fun out hout => ?_
      refine (hN.writeAll hout _).bind fun out hout => ?_
      refine (hN.writeAll hout _).bind fun out hout => ?_
      refine (hN.writeAll hout _).bind fun out hout => ?_
      refine (hN.writeAll hout _).bind fun out hout => ?_
      refine (hN.flush out).bind fun _ _ => ?_
      refine (hN.syncData out).bind fun _ _ => ?_
      cases writeVerify with
      | false => trivial
      | true =>
          refine (hN.readsOnly (verifyFileHash_readsOnly P dest)).outcome.bind fun verified _ => ?_
          cases verified with
          | error e => trivial
          | ok u =>
              refine (hN.readsOnly (readFile_readsOnly dest _)).bind fun readback _ => ?_
              exact (Program.only_ofExcept _).bind fun _ _ => trivial

theorem streamEncryptChunksToFile_opensAt (dataKey : DataKey) (nonce : FixedBytes 7)
    (chunkPaths : List Path) (total : Nat) (dest : Path) (writeVerify : Bool) :
    OpensAt dest (streamEncryptChunksToFile P dataKey nonce chunkPaths total dest writeVerify) := by
  refine Or.inr ⟨_, _, rfl, fun R N hN place hplace => ?_⟩
  refine (hN.writeAll hplace _).bind fun out hout => ?_
  refine (hN.writeAll hout _).bind fun out hout => ?_
  refine (hN.streamChunks chunkPaths 0 _ hout).bind fun w hw => ?_
  split
  · trivial
  · refine (hN.writeAll hw _).bind fun out _ => ?_
    refine (hN.flush out).bind fun _ _ => ?_
    refine (hN.syncData out).bind fun _ _ => ?_
    cases writeVerify with
    | false => trivial
    | true => exact hN.readsOnly (verifyFileHash_readsOnly P dest)

/-- An upload prepares without touching a file, and goes on only with its key. -/
theorem prepareUpload_aside (dataKey : Except AppError DataKey) (root : Path) (userPath : String) :
    (prepareUpload dataKey root userPath).Only Aside fun prepared => dataKey = .ok prepared.1 := by
  unfold prepareUpload
  split
  · trivial
  · cases dataKey with
    | error e => trivial
    | ok key =>
        refine (aside_of_readsOnly (safeJoin_readsOnly root userPath)).bind fun target _ => ?_
        split
        · exact (createDirAll_aside _).bind fun _ _ => rfl
        · exact rfl

variable {mimeFromFilename : String → Option String}

variable {before : FileTree} {content : Bytes} {v : FileTree × List (Event fsSignature)}

/-- What a single-shot upload does once its file is written, or could not be. -/
theorem uploadOwned_rest (target : Path) (userPath checksumHex : String) (size : Nat)
    (written : Except AppError Unit) :
    ReadsOnly (match written with
      | .ok () => do
          let diskMeta ← metadata target fun e => .internal ("Failed to stat written file: " ++ e.message)
          return { path := userPath, size := size, diskSize := diskMeta.len,
                   checksumSha256 := checksumHex, mimeType := mimeFromFilename (fileName target) }
      | .error e => do
          match ← fsCall (.metadata target) with
          | .ok m =>
              if m.isDir then Program.fail (.conflict "A directory already exists at this path.")
              else Program.fail e
          | .error _ => Program.fail e : FsProgram UploadResult) := by
  cases written with
  | ok u => exact (metadata_readsOnly target _).bind fun _ _ => trivial
  | error e =>
      refine (fsCall_only (.metadata target) trivial).bind fun answer _ => ?_
      cases answer with
      | ok m => dsimp only; split <;> trivial
      | error e' => trivial

theorem uploadOwned_kept (hv : Kept before p content v) (dataKey : Except AppError DataKey) (root : Path)
    (nonce : FixedBytes 12) (userPath : String) (data : Bytes) (writeVerify : Bool) :
    (uploadOwned P mimeFromFilename dataKey root nonce userPath data writeVerify).Ensures
      (Program.Logged Anyhow) v fun _ v' => Kept before p content v' := by
  refine Program.Ensures.bind (kept_of_only (writesIn_only (prepareUpload_aside dataKey root userPath)) hv) ?_
    fun _ _ h => h
  intro prepared v' hkept
  obtain ⟨key, target⟩ := prepared
  refine Program.Ensures.bind ((encryptAndWriteFileOwned_opensAt key nonce data target
    writeVerify).createsFirst.kept hkept).outcome ?_ ?_
  · intro written v'' hwritten
    obtain ⟨inner, -, hkept'⟩ := hwritten
    exact kept_of_only (writesIn_of_readsOnly (uploadOwned_rest target userPath _ _ written)) hkept'
  · intro error v'' hwritten
    obtain ⟨inner, -, hkept'⟩ := hwritten
    exact hkept'

theorem uploadStreaming_kept (hv : Kept before p content v) (dataKey : Except AppError DataKey)
    (root : Path) (nonce : FixedBytes 7) (userPath : String) (chunkPaths : List Path) (total : Nat)
    (writeVerify : Bool) :
    (uploadStreaming P mimeFromFilename dataKey root nonce userPath chunkPaths total writeVerify).Ensures
      (Program.Logged Anyhow) v fun _ v' => Kept before p content v' := by
  refine Program.Ensures.bind (kept_of_only (writesIn_only (prepareUpload_aside dataKey root userPath)) hv) ?_
    fun _ _ h => h
  intro prepared v' hkept
  obtain ⟨key, target⟩ := prepared
  refine Program.Ensures.bind ((streamEncryptChunksToFile_opensAt key nonce chunkPaths total target
    writeVerify).createsFirst.kept hkept) ?_ fun _ _ h => h
  intro u v'' hkept'
  exact kept_of_only ((writesIn_of_readsOnly (metadata_readsOnly target _)).bind
    (N := fun _ => True) fun _ _ => trivial) hkept'

theorem uploadOwned_only (dataKey : Except AppError DataKey) (root : Path) (nonce : FixedBytes 12)
    (userPath : String) (data : Bytes) (writeVerify : Bool) :
    (uploadOwned P mimeFromFilename dataKey root nonce userPath data writeVerify).Only
      (WritesIn fun _ => True) fun _ => True := by
  refine (writesIn_only (prepareUpload_aside dataKey root userPath)).bind fun prepared _ => ?_
  refine (encryptAndWriteFileOwned_opensAt _ nonce data _ writeVerify).createsFirst.only.outcome.bind
    fun written _ => ?_
  exact writesIn_of_readsOnly (uploadOwned_rest prepared.2 userPath _ _ written)

theorem uploadStreaming_only (dataKey : Except AppError DataKey) (root : Path) (nonce : FixedBytes 7)
    (userPath : String) (chunkPaths : List Path) (total : Nat) (writeVerify : Bool) :
    (uploadStreaming P mimeFromFilename dataKey root nonce userPath chunkPaths total writeVerify).Only
      (WritesIn fun _ => True) fun _ => True := by
  refine (writesIn_only (prepareUpload_aside dataKey root userPath)).bind fun prepared _ => ?_
  refine (streamEncryptChunksToFile_opensAt _ nonce chunkPaths total _ writeVerify).createsFirst.only.bind
    fun _ _ => ?_
  exact (writesIn_of_readsOnly (metadata_readsOnly _ _)).bind fun _ _ => trivial

end Writers

/-- The uploads that write an encrypted file. -/
inductive Upload
  | uploadFileOwned (libraryId : String) (nonce : FixedBytes 12) (userPath : String) (data : Bytes)
  | uploadSpaceFile (spaceId : String) (nonce : FixedBytes 12) (userPath : String) (data : Bytes)
  | uploadFileStreaming (libraryId : String) (nonce : FixedBytes 7) (userPath : String)
      (chunkPaths : List Path) (totalPlaintextBytes : Nat)
  | uploadSpaceFileStreaming (spaceId : String) (nonce : FixedBytes 7) (userPath : String)
      (chunkPaths : List Path) (totalPlaintextBytes : Nat)
  | completeUpload (now : Int) (nonce : FixedBytes 7) (session : Session)

/-- The program each of them runs. -/
def Upload.program (P : Primitives) (crates : Crates) (config : AppConfig) (unlockState : UnlockState)
    (writeVerify : Bool) : Upload → ServerProgram UploadResult
  | uploadFileOwned libraryId nonce userPath data =>
      onDisk (FsService.uploadFileOwned P crates.mimeFromFilename config unlockState libraryId nonce
        userPath data writeVerify)
  | uploadSpaceFile spaceId nonce userPath data =>
      onDisk (FsService.uploadSpaceFile P crates.mimeFromFilename config unlockState spaceId nonce
        userPath data writeVerify)
  | uploadFileStreaming libraryId nonce userPath chunkPaths total =>
      onDisk (FsService.uploadFileStreaming P crates.mimeFromFilename config unlockState libraryId nonce
        userPath chunkPaths total writeVerify)
  | uploadSpaceFileStreaming spaceId nonce userPath chunkPaths total =>
      onDisk (FsService.uploadSpaceFileStreaming P crates.mimeFromFilename config unlockState spaceId nonce
        userPath chunkPaths total writeVerify)
  | completeUpload now nonce session =>
      ChunkService.completeUpload crates config P unlockState now nonce session writeVerify

/-- Every call of the server on its tree: a statement leaves it alone. -/
def ServerAnyhow : (op : serverSignature.Op) → FileTree → serverSignature.Answer op → FileTree → Prop
  | .inl op, t, answer, t' => Anyhow op t answer t'
  | .inr _, t, _, t' => t' = t

theorem serverHandler_anyhow (oracle : Nat → Choice) (dbOracle : Nat → Option String)
    (op : serverSignature.Op) (server : Server) (t : FileTree) (h : server.1.tree = t) :
    ∃ t', ServerAnyhow op t (serverHandler oracle dbOracle op server).1 t' ∧
      (serverHandler oracle dbOracle op server).2.1.tree = t' := by
  subst h
  cases op with
  | inl op => exact ⟨_, fsHandler_performs (fun _ => trivial) op server.1, rfl⟩
  | inr op => exact ⟨_, rfl, rfl⟩

section Server

variable {before : FileTree} {p : Path} {content : Bytes} {P : Primitives} {crates : Crates}
  {config : AppConfig} {unlockState : UnlockState} {α : Type}

/-- What the filesystem calls logged by the server have done to the file at `p`. -/
def KeptOnServer (before : FileTree) (p : Path) (content : Bytes)
    (x : FileTree × List (Event serverSignature)) : Prop :=
  Kept before p content (x.1, Program.leftEvents x.2)

theorem leftEvents_logged {H : (op : serverSignature.Op) → FileTree → serverSignature.Answer op →
      FileTree → Prop} {op : FsCall} {x x' : FileTree × List (Event serverSignature)}
    {answer : op.Answer} (h : Program.Logged H (.inl op) x answer x') :
    Program.leftEvents x'.2 = Program.leftEvents x.2 ++ [⟨op, answer⟩] := by
  rw [h.2, Program.leftEvents_append]
  rfl

theorem onDisk_kept {program : FsProgram α} {x : FileTree × List (Event serverSignature)}
    (h : ∀ v, Kept before p content v →
      program.Ensures (Program.Logged Anyhow) v fun _ v' => Kept before p content v')
    (hx : KeptOnServer before p content x) :
    (onDisk program).Ensures (Program.Logged ServerAnyhow) x fun _ x' =>
      KeptOnServer before p content x' := by
  refine Program.Ensures.mono ((h _ hx).inl_of
    (L := fun x v => v = (x.1, Program.leftEvents x.2)) ?_ rfl) ?_
  · intro op x v answer x' hv hcall
    subst hv
    exact ⟨(x'.1, Program.leftEvents x'.2), ⟨hcall.1, leftEvents_logged hcall⟩, rfl⟩
  · intro result x' hkept
    obtain ⟨v', rfl, hkept⟩ := hkept
    exact hkept

theorem server_kept {R : α → Prop} {program : ServerProgram α}
    (h : program.Only (Program.sumOps (Spares p) fun _ => True) R)
    {x : FileTree × List (Event serverSignature)} (hx : KeptOnServer before p content x) :
    program.Ensures (Program.Logged ServerAnyhow) x fun _ x' => KeptOnServer before p content x' := by
  refine h.ensures ?_ hx
  intro op x answer x' hspares hkept hcall
  cases op with
  | inl op => exact spares_kept hspares hkept ⟨hcall.1, leftEvents_logged hcall⟩
  | inr op =>
      obtain ⟨htree, hlog⟩ := hcall
      have hleft : Program.leftEvents x'.2 = Program.leftEvents x.2 := by
        rw [hlog, Program.leftEvents_append]
        exact List.append_nil _
      have htree' : x'.1 = x.1 := htree
      rw [KeptOnServer, hleft, htree']
      exact hkept

/-- The calls of a program that only looks sessions up. -/
def Loads : serverSignature.Op → Prop
  | .inr (.load _ _) => True
  | _ => False

theorem requireSession_loads (now : Int) (session : Session) :
    (requireSession crates now session).Only Loads fun _ => True := by
  refine (Program.only_ofExcept _).bind fun _ _ => ⟨trivial, fun answer => ?_⟩
  cases answer with
  | error e => trivial
  | ok found =>
      refine (Program.only_okOr _ found).bind fun row _ => ?_
      split
      · trivial
      · split <;> trivial

theorem checkChunksPresent_readsOnly (paths : List Path) : ∀ index : Nat,
    ReadsOnly (checkChunksPresent paths index) := by
  induction paths with
  | nil => intro index; trivial
  | cons path paths ih =>
      intro index
      apply (fsCall_only (.tryExists path) trivial).bind
      intro answer _
      cases answer with
      | error e => trivial
      | ok found =>
          cases found with
          | false => trivial
          | true => exact ih (index + 1)

/-- A completion keeps the file like the streaming upload it runs, unless it succeeds: then it goes on
to remove the staged chunks. -/
theorem completeUpload_kept {x : FileTree × List (Event serverSignature)}
    (hx : KeptOnServer before p content x) (now : Int) (nonce : FixedBytes 7) (session : Session)
    (writeVerify : Bool) :
    (completeUpload crates config P unlockState now nonce session writeVerify).Ensures
      (Program.Logged ServerAnyhow) x fun result x' =>
        ∀ error, result = .error error → KeptOnServer before p content x' := by
  have hloads : (requireSession crates now session).Only
      (Program.sumOps (Spares p) fun _ => True) fun _ => True := by
    refine (requireSession_loads now session).mono (fun op hop => ?_) fun _ => id
    cases op with
    | inl op => exact absurd hop id
    | inr op => trivial
  refine Program.Ensures.bind (server_kept hloads hx) ?_ fun _ _ h _ _ => h
  intro row x₁ h₁
  refine Program.Ensures.bind (server_kept (Program.Only.inl
    (writesIn_of_readsOnly (checkChunksPresent_readsOnly _ 0))) h₁) ?_ fun _ _ h _ _ => h
  intro u x₂ h₂
  refine Program.Ensures.bind (onDisk_kept ?_ h₂) ?_ fun _ _ h _ _ => h
  · intro v hv
    unfold uploadTarget
    split
    · exact uploadStreaming_kept hv _ _ _ _ _ _ _
    · exact uploadStreaming_kept hv _ _ _ _ _ _ _
  · intro upload x₃ h₃ answer x₄ h₄ answer' x₅ h₅ error herror
    cases herror

theorem Upload.kept (upload : Upload) (writeVerify : Bool) {x : FileTree × List (Event serverSignature)}
    (hx : KeptOnServer before p content x) :
    (upload.program P crates config unlockState writeVerify).Ensures (Program.Logged ServerAnyhow) x
      fun result x' => ∀ error, result = .error error → KeptOnServer before p content x' := by
  cases upload with
  | uploadFileOwned libraryId nonce userPath data =>
      exact Program.Ensures.mono (onDisk_kept (fun v hv => uploadOwned_kept hv _ _ _ _ _ _) hx)
        fun _ _ h _ _ => h
  | uploadSpaceFile spaceId nonce userPath data =>
      exact Program.Ensures.mono (onDisk_kept (fun v hv => uploadOwned_kept hv _ _ _ _ _ _) hx)
        fun _ _ h _ _ => h
  | uploadFileStreaming libraryId nonce userPath chunkPaths total =>
      exact Program.Ensures.mono (onDisk_kept (fun v hv => uploadStreaming_kept hv _ _ _ _ _ _ _) hx)
        fun _ _ h _ _ => h
  | uploadSpaceFileStreaming spaceId nonce userPath chunkPaths total =>
      exact Program.Ensures.mono (onDisk_kept (fun v hv => uploadStreaming_kept hv _ _ _ _ _ _ _) hx)
        fun _ _ h _ _ => h
  | completeUpload now nonce session => exact completeUpload_kept hx now nonce session writeVerify

end Server

/-- Whatever fails, and wherever: an upload that returns an error, in a library or a space, in one piece
or from chunks, leaves a file as it was unless `File::create` has opened that very file in the call.
Every path to it still leads to it, and it decrypts as before. -/
theorem failed_upload_keeps (P : Primitives) (crates : Crates) (config : AppConfig)
    (unlockState : UnlockState) (oracle : Nat → Choice) (dbOracle : Nat → Option String)
    (upload : Upload) (writeVerify : Bool) (server : Server) (path place : Path) (content : Bytes)
    (hfile : server.1.tree.fileAt path = .ok (place, content)) (error : AppError)
    (hfail : ((upload.program P crates config unlockState writeVerify).run
      (serverHandler oracle dbOracle) server).1 = .error error)
    (hcreate : ∀ event ∈ Program.leftEvents ((upload.program P crates config unlockState
      writeVerify).trace (serverHandler oracle dbOracle) server), ¬ CreatesAt place event) :
    ∃ after, ((upload.program P crates config unlockState writeVerify).run
        (serverHandler oracle dbOracle) server).2.1 = after ∧
      after.tree.fileAt path = .ok (place, content) ∧
      ∀ (quiet : Nat → Choice) (dataKey : DataKey) (plaintext : Bytes), QuietOracle quiet →
        ((readAndDecryptFile P dataKey path).run (fsHandler quiet) server.1).1 = .ok plaintext →
        ((readAndDecryptFile P dataKey path).run (fsHandler quiet) after).1 = .ok plaintext := by
  have hnode := (locate_of_fileAt hfile).2
  have hkeep : (upload.program P crates config unlockState writeVerify).Ensures
      (Program.Logged ServerAnyhow) (server.1.tree, []) fun result x' =>
        ∀ error, result = .error error → KeptOnServer server.1.tree place content x' :=
    upload.kept writeVerify (kept_start hnode)
  obtain ⟨t', htree, hkept⟩ := hkeep.run_logged (R := fun (server : Server) t => server.1.tree = t)
    (fun op server t h => serverHandler_anyhow oracle dbOracle op server t h) rfl
  have hafter : t'.fileAt path = .ok (place, content) := by
    rcases hkept error hfail with ⟨event, hmem, hcreates⟩ | ⟨hext, hnode'⟩
    · exact absurd hcreates (hcreate event (by simpa using hmem))
    · exact hext.fileAt hfile hnode'
  refine ⟨_, rfl, by rw [htree]; exact hafter, fun quiet dataKey plaintext hquiet hread => ?_⟩
  rw [run_read_eq hquiet hfile] at hread
  rw [run_read_eq hquiet (htree ▸ hafter)]
  exact hread

/-! ### A file before and after a failed upload -/

/-- The one byte 7, encrypted under the zero key. -/
def sampleContent : Bytes :=
  ((encryptFileBytes plainPrimitives zeroKey ⟨List.replicate 12 0, twelve_zeros⟩ [7]).toOption).getD []

/-- A library with one file in it, and two staged chunks of which the second is missing. -/
def libraryDisk : Disk where
  tree := ((((((FileTree.empty.put ["libraries"] .dir).put ["libraries", "l"] .dir).put
    ["libraries", "l", "a"] (.file sampleContent)).put [".chunks"] .dir).put [".chunks", "u"] .dir).put
      [".chunks", "u", "00000000.chunk"] (.file [1]))
  tick := 0

def sampleServer : Server := (libraryDisk, ⟨[], 0⟩)

def sampleNonce : FixedBytes 7 := ⟨List.replicate 7 0, seven_zeros⟩

/-- A streaming upload over the file in the library. -/
def sampleUpload : Upload :=
  .uploadFileStreaming "l" sampleNonce "a"
    [[".chunks", "u", "00000000.chunk"], [".chunks", "u", "00000001.chunk"]] 2

/-- An operating system without room for another file: the fifth call, which creates it, fails. -/
def fullDisk : Nat → Choice := fun tick =>
  ⟨if tick = 4 then some "No space left on device (os error 28)" else none, 0⟩

/-- The file survives an upload that cannot create its target. -/
theorem failed_upload_keeps_full :
    ∃ after, ((sampleUpload.program plainPrimitives sampleCrates sampleConfig sampleUnlocked false).run
        (serverHandler fullDisk fun _ => none) sampleServer).2.1 = after ∧
      after.tree.fileAt ["libraries", "l", "a"] =
        .ok (["libraries", "l", "a"], sampleContent) ∧
      ∀ (quiet : Nat → Choice) (dataKey : DataKey) (plaintext : Bytes), QuietOracle quiet →
        ((readAndDecryptFile plainPrimitives dataKey ["libraries", "l", "a"]).run (fsHandler quiet)
          sampleServer.1).1 = .ok plaintext →
        ((readAndDecryptFile plainPrimitives dataKey ["libraries", "l", "a"]).run (fsHandler quiet)
          after).1 = .ok plaintext :=
  failed_upload_keeps plainPrimitives sampleCrates sampleConfig sampleUnlocked fullDisk (fun _ => none)
    sampleUpload false sampleServer ["libraries", "l", "a"] ["libraries", "l", "a"] sampleContent (by decide)
    (.internal "Failed to create encrypted file: No space left on device (os error 28)") (by decide)
    (by decide)

/-- An upload that runs into a missing chunk has truncated the file by then: it returns an error, and
what decrypted before does not any more. -/
theorem failed_upload_destroys :
    ((readAndDecryptFile plainPrimitives zeroKey ["libraries", "l", "a"]).run (fsHandler calmOracle)
        sampleServer.1).1 = .ok [7] ∧
      ∃ after, ((sampleUpload.program plainPrimitives sampleCrates sampleConfig sampleUnlocked false).run
          (serverHandler calmOracle fun _ => none) sampleServer) =
            (.error (.validation "Missing chunk 1."), after) ∧
        ((readAndDecryptFile plainPrimitives zeroKey ["libraries", "l", "a"]).run (fsHandler calmOracle)
          after.1).1 ≠ .ok [7] := by
  refine ⟨by decide, _, Prod.ext ?_ rfl, ?_⟩
  · decide
  · decide

end IronDrive
