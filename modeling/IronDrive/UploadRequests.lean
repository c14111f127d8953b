import IronDrive.UploadClient
import IronDrive.UploadRivals
import IronDrive.Addressable
import IronDrive.StagingArea

/-! The requests of one chunked upload, beside each other on the server. What each of them has done is kept in a view of
its own, and together the views say what lies in the staging directory and at the target, as long as the session is not
cancelled. -/

namespace IronDrive

open Lib FileTree PathSafety CryptoService FsService ChunkService

/-- What a request has done: the file it has created, with what it has written there, and whether it has removed the
staging directory. -/
structure Deed where
  written : Written
  cleared : Bool

/-- Without links a file is created where its literal path says. -/
def PlacedAnswer : (op : FsCall) → op.Answer → Prop
  | .create path, answer => ∀ place, (answer : Except IoError Path) = .ok place →
      (∀ name ∈ path, Ordinary name) → place = path
  | op, answer => PlainAnswer op answer

/-- How a call moves what its request has done. -/
def Does (reads : Path → Bytes → Prop) (stored : String → ChunkedUpload → Prop) :
    (op : serverSignature.Op) → Deed → serverSignature.Answer op → Deed → Prop
  | .inl (.createNew _), deed, answer, deed' =>
      match (answer : Except IoError Path) with
      | .ok place => deed' = ⟨some (place, []), deed.cleared⟩
      | .error _ => deed' = deed
  | .inl (.removeDirAll _), deed, _, deed' => deed' = ⟨deed.written, true⟩
  | op, deed, answer, deed' =>
      Races reads stored op deed.written answer deed'.written ∧ deed'.cleared = deed.cleared

def Handles (reads : Path → Bytes → Prop) (stored : String → ChunkedUpload → Prop) (op : serverSignature.Op)
    (deed : Deed) (answer : serverSignature.Answer op) (deed' : Deed) : Prop :=
  Program.sumAnswers PlacedAnswer (fun _ _ => True) op answer ∧ Does reads stored op deed answer deed'

/-- When a request may make a call. -/
def MayCall (config : AppConfig) (uploadId : String) (target : Path) :
    PageRequest → serverSignature.Op → Deed → Prop
  | .chunk chunkIndex _, .inl (.createNew path), deed =>
      path = chunkPath config uploadId chunkIndex ∧ deed.written = none
  | .chunk _ _, .inl (.writeAll place _ _), deed => ∃ content, deed.written = some (place, content)
  | .complete, .inl (.create path), _ => path = target ∧ ∀ name ∈ path, Ordinary name
  | .complete, .inl (.writeAll place _ _), _ => place = target
  | .complete, .inl (.readFile _), deed => deed.cleared = false
  | .complete, .inl (.removeDirAll path), _ => path = stagingDir config uploadId
  | _, .inl (.create _), _ | _, .inl (.createNew _), _ | _, .inl (.writeAll _ _ _), _ => False
  | _, .inl (.removeDirAll _), _ | _, .inl (.readFile _), _ | _, .inr (.insert _), _ => False
  | _, _, _ => True

section Requests

variable {P : Primitives} {crates : Crates} {config : AppConfig} {unlockState : UnlockState} {session : Session}
  {reads : Path → Bytes → Prop} {stored : String → ChunkedUpload → Prop} {target : Path} {request : PageRequest}
  {deed : Deed} {α : Type}

/-- A call of the disk that reads, but no file. -/
def Looks : FsCall → Prop
  | .readFile _ => False
  | op => op.ReadOnly

theorem does_of_looks {op : FsCall} (hop : Looks op) {answer : op.Answer} {deed' : Deed}
    (h : Handles reads stored (.inl op) deed answer deed') : deed' = deed := by
  obtain ⟨written, cleared⟩ := deed
  obtain ⟨written', cleared'⟩ := deed'
  obtain ⟨-, hdoes⟩ := h
  cases op with
  | readFile path | create path | createNew path | writeAll place offset data | removeDirAll path | createDirAll path =>
      exact absurd hop id
  | _ =>
      obtain ⟨rfl, rfl⟩ := hdoes
      rfl

theorem mayCall_of_looks {op : FsCall} (hop : Looks op) :
    MayCall config session.uploadId target request (.inl op) deed := by
  cases op with
  | readFile path | create path | createNew path | writeAll place offset data | removeDirAll path | createDirAll path =>
      exact absurd hop id
  | _ => cases request <;> trivial

theorem onDisk_guarded {program : FsProgram α} {Q : Except AppError α → Deed → Prop}
    (h : program.Guarded (fun op => Handles reads stored (.inl op))
      (fun op => MayCall config session.uploadId target request (.inl op)) deed Q) :
    (onDisk program).Guarded (Handles reads stored) (MayCall config session.uploadId target request) deed Q :=
  h.inl (fun _ _ _ _ => id) fun _ _ => id

/-- A program that looks around leaves what its request has done. -/
theorem looks_guarded {program : FsProgram α} {R : α → Prop} (h : program.Only Looks R) :
    program.Guarded (fun op => Handles reads stored (.inl op))
      (fun op => MayCall config session.uploadId target request (.inl op)) deed
      fun result deed' => deed' = deed ∧ ∀ value, result = .ok value → R value :=
  h.within.guarded (A := fun _ _ => True) (fun _ _ _ hop hhandles => ⟨trivial, does_of_looks hop hhandles⟩)
    fun _ => mayCall_of_looks

theorem statement_guarded {op : UploadsCall} (hop : ∀ row, op ≠ .insert row) :
    (statement op).Guarded (Handles reads stored) (MayCall config session.uploadId target request) deed
      fun result deed' => deed' = deed ∧ ∀ answer, result = .ok answer →
        Handles reads stored (.inr op) deed answer deed' := by
  refine ⟨?_, fun answer deed' hhandles => ?_⟩
  · cases op with
    | insert row => exact absurd rfl (hop row)
    | _ => cases request <;> trivial
  · refine ⟨?_, fun answer' hanswer => ?_⟩
    · obtain ⟨written, cleared⟩ := deed
      obtain ⟨written', cleared'⟩ := deed'
      obtain ⟨-, hraces, rfl⟩ := hhandles
      cases op with
      | load id targetType =>
          obtain ⟨-, rfl⟩ := hraces
          rfl
      | _ =>
          obtain rfl : written' = written := hraces
          rfl
    · cases hanswer
      exact hhandles

/-- The session's row is one the table may hold. -/
theorem requireSession_handles (now : Int) :
    (requireSession crates now session).Guarded (Handles reads stored) (MayCall config session.uploadId target request)
      deed fun result deed' => deed' = deed ∧ ∀ row, result = .ok row → stored session.uploadId row := by
  refine Program.guarded_ofExcept_bind (fun _ _ => ?_) fun _ _ => ⟨rfl, nofun⟩
  have hload : (loadUploadRow session.uploadId session.targetType).Guarded (Handles reads stored)
      (MayCall config session.uploadId target request) deed fun result deed' => deed' = deed ∧
        ∀ row, result = .ok (some row) → stored session.uploadId row := by
    refine (statement_guarded (fun row heq => by cases heq)).bind (fun answer deed' hanswer => ?_)
      fun _ _ herror => ⟨herror.1, nofun⟩
    obtain ⟨rfl, hhandles⟩ := hanswer
    obtain ⟨-, ⟨hstored, -⟩, -⟩ := hhandles answer rfl
    cases answer with
    | error e => exact ⟨rfl, nofun⟩
    | ok found =>
        refine ⟨rfl, fun row hrow => hstored row ?_⟩
        cases hrow
        rfl
  refine hload.bind (fun found deed' hfound => ?_) fun _ _ herror => ⟨herror.1, nofun⟩
  obtain ⟨rfl, hstored⟩ := hfound
  cases found with
  | none => exact ⟨rfl, nofun⟩
  | some row =>
      show (if row.userId ≠ session.userId ∨ row.targetId ≠ session.targetId then Program.fail .notFound
        else if isExpired crates now row.expiresAt then Program.fail (.validation "Upload session has expired.")
        else Program.done row : ServerProgram ChunkedUpload).Guarded _ _ deed' _
      split
      · exact ⟨rfl, nofun⟩
      · split
        · exact ⟨rfl, nofun⟩
        · refine ⟨rfl, fun found hfound => ?_⟩
          cases hfound
          exact hstored row rfl

theorem createDirAll_guarded {path : Path} {onError : IoError → AppError} :
    (createDirAll path onError).Guarded (fun op => Handles reads stored (.inl op))
      (fun op => MayCall config session.uploadId target request (.inl op)) deed fun _ deed' => deed' = deed := by
  refine ⟨by cases request <;> trivial, fun answer deed' hhandles => ?_⟩
  obtain ⟨written, cleared⟩ := deed
  obtain ⟨written', cleared'⟩ := deed'
  obtain ⟨-, hwritten, rfl⟩ := hhandles
  obtain rfl : written' = written := hwritten
  cases answer <;> rfl

theorem countUploadedChunks_looks (uploadId : String) :
    (countUploadedChunks config uploadId).Only Looks fun _ => True := by
  refine ⟨trivial, fun answer => ?_⟩
  cases answer with
  | error e => trivial
  | ok found =>
      cases found with
      | false => trivial
      | true =>
          refine ⟨trivial, fun answer => ?_⟩
          cases answer with
          | error e => trivial
          | ok listing =>
              obtain ⟨names, failure⟩ := listing
              cases failure <;> trivial

/-- A write at the end of what the request has written appends to it, if it succeeds. -/
theorem does_append {place : Path} {content data : Bytes} {answer : Except IoError Unit} {deed' : Deed}
    (h : Handles reads stored (.inl (.writeAll place content.length data)) ⟨some (place, content), false⟩ answer deed')
    (hok : answer = .ok ()) : deed' = ⟨some (place, content ++ data), false⟩ := by
  obtain ⟨written, cleared⟩ := deed'
  obtain ⟨-, hwrote, rfl⟩ := h
  subst hok
  simp only [Races, Writes, if_true] at hwrote
  rw [hwrote, writeAt, overwrite_end]

theorem writeLast_guarded {chunkIndex attempt : Nat} {place : Path} (content data : Bytes) :
    (OpenFile.writeLast ⟨place, content.length⟩ data).Guarded (fun op => Handles reads stored (.inl op))
      (fun op => MayCall config session.uploadId target (.chunk chunkIndex attempt) (.inl op))
      ⟨some (place, content), false⟩ fun result deed' => ∀ written, result = .ok written →
        written.1.place = place ∧ (written.2 = .ok () → deed' = ⟨some (place, content ++ data), false⟩) := by
  refine ⟨⟨content, rfl⟩, fun answer deed' hwritten written hresult => ?_⟩
  cases hresult
  exact ⟨rfl, does_append hwritten⟩

theorem writeAll_guarded {chunkIndex attempt : Nat} {place : Path} (content data : Bytes)
    (onError : IoError → AppError) :
    (OpenFile.writeAll ⟨place, content.length⟩ data onError).Guarded (fun op => Handles reads stored (.inl op))
      (fun op => MayCall config session.uploadId target (.chunk chunkIndex attempt) (.inl op))
      ⟨some (place, content), false⟩ fun result deed' => ∀ file, result = .ok file →
        file = ⟨place, (content ++ data).length⟩ ∧ deed' = ⟨some (place, content ++ data), false⟩ := by
  refine ⟨⟨content, rfl⟩, fun answer deed' hwritten => ?_⟩
  cases answer with
  | error e => exact nofun
  | ok u =>
      intro file hresult
      cases hresult
      exact ⟨by rw [List.length_append], does_append hwritten rfl⟩

/-- The buffers go to the file one after the other; only the answer to the last is still to come. -/
theorem writeBuffered_guarded {chunkIndex attempt : Nat} {place : Path} (data : Bytes) (onError : IoError → AppError) :
    (OpenFile.writeBuffered ⟨place, 0⟩ data onError).Guarded (fun op => Handles reads stored (.inl op))
      (fun op => MayCall config session.uploadId target (.chunk chunkIndex attempt) (.inl op))
      ⟨some (place, []), false⟩ fun result deed' => ∀ written, result = .ok written →
        written.1.place = place ∧ (written.2 = .ok () → deed' = ⟨some (place, data), false⟩) := by
  unfold OpenFile.writeBuffered
  split
  · exact writeLast_guarded [] data
  · generalize OpenFile.maxBufSize * ((data.length - 1) / OpenFile.maxBufSize) = whole
    refine (writeAll_guarded [] (data.take whole) onError).bind (fun file deed' hfile => ?_) fun _ _ _ => nofun
    obtain ⟨rfl, rfl⟩ := hfile file rfl
    refine (writeLast_guarded (data.take whole) (data.drop whole)).mono fun result deed' hlast => ?_
    rwa [List.take_append_drop] at hlast

/-- A chunk file whose flush succeeds holds the whole chunk. -/
theorem fillChunk_guarded {chunkIndex attempt : Nat} {place : Path} (data : Bytes) :
    (fillChunk place data).Guarded (fun op => Handles reads stored (.inl op))
      (fun op => MayCall config session.uploadId target (.chunk chunkIndex attempt) (.inl op))
      ⟨some (place, []), false⟩ fun result deed' => result = .ok () → deed'.written = some (place, data) := by
  refine (writeBuffered_guarded data _).bind (fun written deed' hwritten => ?_) fun _ _ _ => nofun
  obtain ⟨hplace, hwhole⟩ := hwritten written rfl
  obtain ⟨file, answer⟩ := written
  cases answer with
  | error e => exact nofun
  | ok u =>
      obtain rfl := hwhole rfl
      refine (looks_guarded (fsCall_attempt_only (.flush file.place) trivial _ id)).bind (fun _ deed' hflushed => ?_)
        fun _ _ _ => nofun
      obtain ⟨rfl, -⟩ := hflushed
      refine (looks_guarded (fsCall_attempt_only (.syncData file.place) trivial _ id)).mono
        fun result deed' hsynced _ => ?_
      obtain ⟨rfl, -⟩ := hsynced
      rfl

/-- A chunk that is staged is all in its file. -/
theorem stageChunk_guarded (chunkIndex attempt : Nat) (data : Bytes) :
    (stageChunk config session.uploadId chunkIndex data).Guarded (fun op => Handles reads stored (.inl op))
      (fun op => MayCall config session.uploadId target (.chunk chunkIndex attempt) (.inl op)) ⟨none, false⟩
      fun result deed' => result = .ok () → ∃ place, deed'.written = some (place, data) := by
  refine createDirAll_guarded.bind (fun _ deed' hdeed => ?_) fun _ _ _ => nofun
  subst hdeed
  refine ⟨⟨rfl, rfl⟩, fun answer deed' hcreated => ?_⟩
  cases answer with
  | error e =>
      show (if e.kind = .alreadyExists then Program.fail (.conflict "Chunk already uploaded.")
        else Program.fail (.internal ("Failed to create chunk file: " ++ e.message)) : FsProgram Unit).Guarded _ _ _ _
      split <;> exact nofun
  | ok place =>
      obtain rfl : deed' = ⟨some (place, []), false⟩ := hcreated.2
      exact (fillChunk_guarded data).mono fun result deed' hfilled hresult => ⟨place, hfilled hresult⟩

theorem receiveChunk_handles (now : Int) (chunkIndex attempt : Nat) (data : Bytes) {totalChunks totalBytes : Nat}
    (hstored : ∀ row, stored session.uploadId row → toU32 row.totalChunks = totalChunks ∧
      toU64 row.totalBytes = totalBytes) :
    (receiveChunk crates config now session chunkIndex data).Guarded (Handles reads stored)
      (MayCall config session.uploadId target (.chunk chunkIndex attempt)) ⟨none, false⟩
      fun result deed' => ∀ received, result = .ok received →
        data.length = expectedChunkLen totalBytes config.chunkSizeBytes totalChunks chunkIndex ∧
          ∃ place, deed'.written = some (place, data) := by
  refine (requireSession_handles now).bind (fun row deed' hrow => ?_) fun _ _ _ => nofun
  obtain ⟨rfl, hrow⟩ := hrow
  obtain ⟨hchunks, hbytes⟩ := hstored row (hrow row rfl)
  dsimp only
  rw [hchunks, hbytes]
  split
  · exact nofun
  · split
    · exact nofun
    · next hlength =>
        refine (onDisk_guarded (stageChunk_guarded chunkIndex attempt data)).bind (fun _ deed' hstaged => ?_)
          fun _ _ _ => nofun
        refine (onDisk_guarded (looks_guarded (countUploadedChunks_looks session.uploadId))).bind
          (fun n deed'' hcounted => ?_) fun _ _ _ => nofun
        obtain ⟨rfl, -⟩ := hcounted
        refine (statement_guarded (fun row heq => by cases heq)).bind (fun answer deed''' hanswer => ?_)
          fun _ _ _ => nofun
        obtain ⟨rfl, -⟩ := hanswer
        cases answer with
        | error e => exact nofun
        | ok u => exact fun _ _ => ⟨not_not.mp hlength, hstaged rfl⟩

/-- Of files such calls create the target, and write to it. -/
def UploadsTo (target : Path) : FsCall → Prop
  | .create path => path = target ∧ ∀ name ∈ path, Ordinary name
  | .writeAll place _ _ => place = target
  | .createNew _ | .removeDirAll _ => False
  | _ => True

theorem lenient_uploadsTo (target : Path) : Lenient (fun place => place = target) (UploadsTo target) where
  reads op h := by
    cases op with
    | create path | createNew path | removeDirAll path | writeAll place offset data => exact absurd h id
    | _ => trivial
  writes _ _ _ h := h

theorem plainAnswer_of_placed (op : FsCall) (answer : op.Answer) (h : PlacedAnswer op answer) :
    PlainAnswer op answer := by
  cases op with
  | create path => trivial
  | _ => exact h

theorem OpensAt.within {dest : Path} {program : FsProgram α} (h : OpensAt dest program)
    (hliteral : ∀ name ∈ dest, Ordinary name) : program.Within PlacedAnswer (UploadsTo dest) fun _ => True := by
  rcases h with ⟨error, rfl⟩ | ⟨onError, f, rfl, hf⟩
  · trivial
  · refine ⟨⟨rfl, hliteral⟩, fun answer hanswer => ?_⟩
    cases answer with
    | error e => trivial
    | ok place =>
        obtain rfl := hanswer place rfl hliteral
        exact (hf _ _ (lenient_uploadsTo place) place rfl).within

section Target

variable {root : Path} {userPath : String}

theorem prepareUpload_placed (hroot : ∀ name ∈ root, Ordinary name) (dataKey : Except AppError DataKey) :
    (prepareUpload dataKey root userPath).Within PlacedAnswer (UploadsTo (root ++ splitComponents userPath))
      fun prepared => WellFormedPath userPath ∧ prepared.2 = root ++ splitComponents userPath := by
  unfold prepareUpload
  split
  · trivial
  have hjoin := ((safeJoin_plain_within hroot userPath).mono
    (lenient_uploadsTo (root ++ splitComponents userPath)).reads fun _ => id).answers plainAnswer_of_placed
  refine (Program.only_ofExcept _).within.bind fun key _ => hjoin.bind fun target htarget => ?_
  split_ifs
  · exact (fsCall_attempt_only (.createDirAll target.dropLast) trivial _ id).within.bind fun _ _ => htarget
  · exact htarget

/-- A streaming upload creates and writes to its target only. -/
theorem uploadStreaming_placed (hroot : ∀ name ∈ root, Ordinary name) (mimeFromFilename : String → Option String)
    (dataKey : Except AppError DataKey) (nonce : FixedBytes 7) (chunkPaths : List Path) (total : Nat)
    (writeVerify : Bool) :
    (uploadStreaming P mimeFromFilename dataKey root nonce userPath chunkPaths total writeVerify).Within PlacedAnswer
      (UploadsTo (root ++ splitComponents userPath)) fun _ => WellFormedPath userPath := by
  refine (prepareUpload_placed hroot dataKey).bind fun prepared hprepared => ?_
  obtain ⟨key, target⟩ := prepared
  obtain ⟨hwell, rfl⟩ := hprepared
  have hliteral : ∀ name ∈ root ++ splitComponents userPath, Ordinary name := fun name hname =>
    (List.mem_append.mp hname).elim (hroot name) (ordinary_of_wellFormed hwell name)
  refine ((streamEncryptChunksToFile_opensAt key nonce chunkPaths total _ writeVerify).within hliteral).bind
    fun _ _ => ?_
  exact ((lenient_uploadsTo _).readsOnly (metadata_readsOnly _ _)).within.bind fun _ _ => hwell

end Target

theorem checkChunksPresent_looks (paths : List Path) : ∀ index : Nat,
    (checkChunksPresent paths index).Only Looks fun _ => True := by
  induction paths with
  | nil => intro index; trivial
  | cons path paths ih =>
      intro index
      refine ⟨trivial, fun answer => ?_⟩
      cases answer with
      | error e => trivial
      | ok found =>
          cases found with
          | false => trivial
          | true => exact ih (index + 1)

/-- What an upload to the target ensures of what it has written, it ensures of its request, as long as nothing is
removed. -/
theorem uploadsTo_guarded {program : FsProgram α} {Q : Except AppError α → Written → Prop} {R : α → Prop} {w : Written}
    (hens : program.Ensures (Writes reads) w Q) (hwithin : program.Within PlacedAnswer (UploadsTo target) R) :
    program.Guarded (fun op => Handles reads stored (.inl op))
      (fun op => MayCall config session.uploadId target .complete (.inl op)) ⟨w, false⟩ fun result deed' =>
        Q result deed'.written ∧ deed'.cleared = false ∧ ∀ value, result = .ok value → R value := by
  refine (hens.guarded (L := fun (deed : Deed) w => deed.written = w ∧ deed.cleared = false) hwithin ?_ ?_
    ⟨rfl, rfl⟩).mono ?_
  · rintro op ⟨written, cleared⟩ w answer ⟨written', cleared'⟩ ⟨rfl, rfl⟩ hop ⟨hplaced, hdoes⟩
    refine ⟨hplaced, written', ?_, rfl, ?_⟩
    · cases op with
      | createNew path | removeDirAll path => exact absurd hop id
      | _ => exact hdoes.1
    · cases op with
      | createNew path | removeDirAll path => exact absurd hop id
      | _ => exact hdoes.2
  · rintro op ⟨written, cleared⟩ w ⟨rfl, rfl⟩ hop
    cases op with
    | createNew path | removeDirAll path => exact absurd hop id
    | create path | writeAll place offset data => exact hop
    | readFile path => rfl
    | _ => trivial
  · intro result deed h
    obtain ⟨w, ⟨rfl, hcleared⟩, hQ, hR⟩ := h
    exact ⟨hQ, hcleared, hR⟩

/-- A completion that succeeds has written the chunks of its session to the target, sealed under its key. -/
theorem completeUpload_handles (now : Int) (nonce : FixedBytes 7) {targetPath : String} {chunks : List Bytes}
    (hroot : ∀ name ∈ targetRoot config session.targetType session.targetId, Ordinary name)
    (htarget : target = targetRoot config session.targetType session.targetId ++ splitComponents targetPath)
    (hstored : ∀ row, stored session.uploadId row → toU32 row.totalChunks = chunks.length ∧
      row.targetPath = targetPath)
    (hchunks : List.Forall₂ (ReadsAs reads) (chunkPaths config session.uploadId chunks.length) chunks) :
    (completeUpload crates config P unlockState now nonce session false).Guarded (Handles reads stored)
      (MayCall config session.uploadId target .complete) ⟨none, false⟩ fun result deed' =>
        ∀ upload, result = .ok upload → WellFormedPath targetPath ∧ ∃ key place segments,
          targetKey unlockState session.targetType session.targetId = .ok key ∧
          sealSegments P (EncryptorBE32.new key nonce) chunks = some segments ∧
          deed'.written = some (place, withHash P (streamContent nonce segments)) := by
  subst htarget
  refine (requireSession_handles now).bind (fun row deed' hrow => ?_) fun _ _ _ => nofun
  obtain ⟨rfl, hrow⟩ := hrow
  obtain ⟨hcount, hpath⟩ := hstored row (hrow row rfl)
  dsimp only
  rw [hcount, hpath, uploadTarget_eq]
  refine (onDisk_guarded (looks_guarded (checkChunksPresent_looks _ 0))).bind (fun _ deed' hpresent => ?_)
    fun _ _ _ => nofun
  obtain ⟨rfl, -⟩ := hpresent
  refine (onDisk_guarded (uploadsTo_guarded (uploadStreaming_onOk nonce hchunks (toU64 row.totalBytes))
    (uploadStreaming_placed hroot _ _ nonce _ _ false))).bind (fun upload deed' hwritten => ?_) fun _ _ _ => nofun
  obtain ⟨hwritten, hcleared, hwell⟩ := hwritten
  obtain ⟨key, place, segments, hkey, hseal, hplace⟩ := hwritten upload rfl
  refine ⟨rfl, fun answer deed'' hremoved => ?_⟩
  obtain rfl : deed'' = ⟨deed'.written, true⟩ := hremoved.2
  refine (statement_guarded (fun row heq => by cases heq)).bind (fun answer deed''' hdeleted => ?_) fun _ _ _ => nofun
  obtain ⟨rfl, -⟩ := hdeleted
  exact fun _ _ => ⟨hwell upload rfl, key, place, segments, hkey, hseal, hplace⟩

end Requests

theorem StaysBut.keeps {q p : Path} {t t' : FileTree} (h : StaysBut q t t') (hne : p ≠ q) {n : Node}
    (hnode : t.node p = some n) : t'.node p = some n := by
  rcases (h p).2 hne with hsame | ⟨hnone, -⟩
  · rw [hsame, hnode]
  · rw [hnone] at hnode
    cases hnode

theorem chunkPath_ne {config : AppConfig} {uploadId : String} {i j : Nat} (h : i ≠ j) :
    chunkPath config uploadId i ≠ chunkPath config uploadId j := by
  intro heq
  exact h (chunkName_injective (by simpa [chunkPath] using heq))

/-- A row of the session: that of its opening, but for the number of chunks received. -/
def KeepsRow (row : ChunkedUpload) (uploadId : String) (r : ChunkedUpload) : Prop :=
  uploadId = row.id → r = { row with receivedChunks := r.receivedChunks }

/-- What is on the server, in terms of what the requests of one upload have done. As long as the staging directory is
not removed, each chunk file is what the one attempt that created it has written; the target is what the completion has
written. -/
structure Intact (config : AppConfig) (row : ChunkedUpload) (target : Path) (t : FileTree) (rows : List ChunkedUpload)
    (deeds : PageRequest → Deed) : Prop where
  linkFree : t.LinkFree
  rows : ∀ r ∈ rows, KeepsRow row r.id r
  dir : (deeds .complete).cleared = false → t.node (stagingDir config row.id) = some .dir
  chunk : ∀ i a place content, (deeds (.chunk i a)).written = some (place, content) →
    place = chunkPath config row.id i ∧ ((deeds .complete).cleared = false → t.node place = some (.file content))
  single : (deeds .complete).cleared = false → ∀ i a b, (deeds (.chunk i a)).written ≠ none →
    (deeds (.chunk i b)).written ≠ none → a = b
  target : ∀ place content, (deeds .complete).written = some (place, content) →
    place = target ∧ t.node target = some (.file content)

section Disk

variable {config : AppConfig} {row : ChunkedUpload} {target : Path} {t t' : FileTree} {rows rows' : List ChunkedUpload}
  {deeds : PageRequest → Deed} {content : Bytes} {i a : Nat}

theorem chunkPath_ne_target (hapart : ¬ stagingDir config row.id <+: target) (i : Nat) :
    chunkPath config row.id i ≠ target := by
  rintro rfl
  exact hapart (staging_below_chunk config row.id i)

theorem update_chunk_complete (deed : Deed) :
    Function.update deeds (.chunk i a) deed .complete = deeds .complete :=
  Function.update_of_ne (fun heq => by cases heq) _ _

theorem update_complete_chunk (deed : Deed) (j b : Nat) :
    Function.update deeds .complete deed (.chunk j b) = deeds (.chunk j b) :=
  Function.update_of_ne (fun heq => by cases heq) _ _

namespace Intact

theorem unmoved (h : Intact config row target t rows deeds) (hfree : t'.LinkFree)
    (hkeeps : ∀ p n, t.node p = some n → t'.node p = some n) : Intact config row target t' rows deeds where
  linkFree := hfree
  rows := h.rows
  dir hcleared := hkeeps _ _ (h.dir hcleared)
  chunk i a place content hwritten :=
    ⟨(h.chunk i a place content hwritten).1, fun hcleared =>
      hkeeps _ _ ((h.chunk i a place content hwritten).2 hcleared)⟩
  single := h.single
  target place content hwritten :=
    ⟨(h.target place content hwritten).1, hkeeps _ _ (h.target place content hwritten).2⟩

/-- An attempt has written to the file of its chunk. -/
theorem wrote_chunk (h : Intact config row target t rows deeds) (hapart : ¬ stagingDir config row.id <+: target)
    (hfree : t'.LinkFree) (hstays : StaysBut (chunkPath config row.id i) t t')
    (hsingle : (deeds .complete).cleared = false → ∀ b, (deeds (.chunk i b)).written ≠ none → b = a)
    (hnode : (deeds .complete).cleared = false → t'.node (chunkPath config row.id i) = some (.file content)) :
    Intact config row target t' rows (Function.update deeds (.chunk i a)
      ⟨some (chunkPath config row.id i, content), (deeds (.chunk i a)).cleared⟩) := by
  refine ⟨hfree, h.rows, fun hcleared => ?_, fun j b place content' hwritten => ?_, fun hcleared j b b' hb hb' => ?_,
    fun place content' hwritten => ?_⟩
  · rw [update_chunk_complete] at hcleared
    exact hstays.keeps (by simp [chunkPath]) (h.dir hcleared)
  · rw [update_chunk_complete]
    by_cases hsame : PageRequest.chunk j b = .chunk i a
    · cases hsame
      rw [Function.update_self] at hwritten
      cases hwritten
      exact ⟨rfl, hnode⟩
    · rw [Function.update_of_ne hsame] at hwritten
      obtain ⟨hplace, hfile⟩ := h.chunk j b place content' hwritten
      refine ⟨hplace, fun hcleared => ?_⟩
      subst hplace
      refine hstays.keeps (chunkPath_ne fun heq => ?_) (hfile hcleared)
      subst heq
      exact hsame (congrArg _ (hsingle hcleared b (by rw [hwritten]; exact fun heq => by cases heq)))
  · rw [update_chunk_complete] at hcleared
    have hown : ∀ b, (Function.update deeds (.chunk i a)
        ⟨some (chunkPath config row.id i, content), (deeds (.chunk i a)).cleared⟩ (.chunk j b)).written ≠ none →
        (j = i ∧ b = a) ∨ (deeds (.chunk j b)).written ≠ none := by
      intro b hb
      by_cases hsame : PageRequest.chunk j b = .chunk i a
      · cases hsame
        exact Or.inl ⟨rfl, rfl⟩
      · rw [Function.update_of_ne hsame] at hb
        exact Or.inr hb
    rcases hown b hb with ⟨rfl, rfl⟩ | hold
    · rcases hown b' hb' with ⟨-, rfl⟩ | hold'
      · rfl
      · exact (hsingle hcleared b' hold').symm
    · rcases hown b' hb' with ⟨rfl, rfl⟩ | hold'
      · exact hsingle hcleared b hold
      · exact h.single hcleared j b b' hold hold'
  · rw [update_chunk_complete] at hwritten
    obtain ⟨hplace, hfile⟩ := h.target place content' hwritten
    exact ⟨hplace, hstays.keeps (chunkPath_ne_target hapart i).symm hfile⟩

/-- The completion has done something at the target. -/
theorem wrote_target (h : Intact config row target t rows deeds) (hapart : ¬ stagingDir config row.id <+: target)
    (hfree : t'.LinkFree) (hstays : StaysBut target t t') {deed : Deed}
    (hdeed : deed.cleared = (deeds .complete).cleared)
    (hnode : ∀ place content, deed.written = some (place, content) →
      place = target ∧ t'.node target = some (.file content)) :
    Intact config row target t' rows (Function.update deeds .complete deed) := by
  refine ⟨hfree, h.rows, fun hcleared => ?_, fun j b place content' hwritten => ?_, fun hcleared j b b' hb hb' => ?_,
    fun place content' hwritten => ?_⟩
  · rw [Function.update_self, hdeed] at hcleared
    exact hstays.keeps (fun heq => hapart (by rw [heq])) (h.dir hcleared)
  · rw [update_complete_chunk] at hwritten
    obtain ⟨hplace, hfile⟩ := h.chunk j b place content' hwritten
    refine ⟨hplace, fun hcleared => ?_⟩
    rw [Function.update_self, hdeed] at hcleared
    exact hstays.keeps (by rw [hplace]; exact chunkPath_ne_target hapart j) (hfile hcleared)
  · rw [Function.update_self, hdeed] at hcleared
    rw [update_complete_chunk] at hb hb'
    exact h.single hcleared j b b' hb hb'
  · rw [Function.update_self] at hwritten
    exact hnode place content' hwritten

/-- The completion has removed the staging directory, or a part of it. -/
theorem removed (h : Intact config row target t rows deeds) (hfree : t'.LinkFree)
    (hkeeps : t'.node target = t.node target) :
    Intact config row target t' rows (Function.update deeds .complete ⟨(deeds .complete).written, true⟩) := by
  refine ⟨hfree, h.rows, ?_, fun j b place content' hwritten => ?_, ?_, fun place content' hwritten => ?_⟩
  · rw [Function.update_self]
    exact nofun
  · rw [update_complete_chunk] at hwritten
    rw [Function.update_self]
    exact ⟨(h.chunk j b place content' hwritten).1, nofun⟩
  · rw [Function.update_self]
    exact nofun
  · rw [Function.update_self] at hwritten
    rw [hkeeps]
    exact h.target place content' hwritten

theorem deeds_kept (h : Intact config row target t rows deeds) (request : PageRequest) :
    Intact config row target t rows (Function.update deeds request (deeds request)) := by
  rwa [Function.update_eq_self]

theorem with_rows (h : Intact config row target t rows deeds) (hrows : ∀ r ∈ rows', KeepsRow row r.id r) :
    Intact config row target t rows' deeds :=
  ⟨h.linkFree, hrows, h.dir, h.chunk, h.single, h.target⟩

end Intact

/-! ### One call -/

variable {choice : Choice} {op : FsCall} {answer : op.Answer} {reads : Path → Bytes → Prop} {request : PageRequest}

theorem linkFree_perform (hfree : t.LinkFree) (hperform : op.perform choice t = (answer, t')) : t'.LinkFree := by
  intro p absolute link hlink
  have hmade : (op.perform choice t).2.node p = some (.symlink absolute link) := by rw [hperform]; exact hlink
  exact hfree p absolute link (symlink_of_perform op hmade)

theorem placedAnswer_of_perform (hfree : t.LinkFree) (hperform : op.perform choice t = (answer, t')) :
    PlacedAnswer op answer := by
  cases op with
  | create path =>
      intro place hplace hliteral
      have hguard : choice.guard (t.createPlace path) = .ok place := by
        simp only [FsCall.perform] at hperform
        cases hfound : choice.guard (t.createPlace path) with
        | error e =>
            rw [hfound] at hperform
            cases hperform
            cases hplace
        | ok found =>
            rw [hfound] at hperform
            cases hperform
            exact hplace
      exact locate_of_straight (hfree.straight hliteral)
        (locate_of_createPlace ((guard_accounted choice _).ok place hguard))
  | _ => exact plainAnswer_of_perform hfree hperform

theorem keeps_of_untouched (hperform : op.perform choice t = (answer, t')) (htouch : touched ⟨.inl op, answer⟩ = none)
    (hremove : ∀ path, op ≠ .removeDirAll path) (p : Path) (n : Node) (hnode : t.node p = some n) :
    t'.node p = some n := by
  refine (staysBut_step (q := p ++ [""]) hperform (fun q hq => ?_) hremove).keeps (by simp) hnode
  rw [htouch] at hq
  cases hq

theorem removalPlace_of_straight {path place : Path} (h : t.Straight path)
    (hplace : FsCall.removalPlace t path = .ok place) : place = path := by
  cases hloc : t.locateEntry path with
  | error kind => simp [FsCall.removalPlace, hloc, bind, Except.bind] at hplace
  | ok found =>
      simp only [FsCall.removalPlace, hloc, bind, Except.bind] at hplace
      split at hplace
      · cases hplace
      · cases hplace
        exact locateEntry_of_straight h hloc
      · cases hplace

theorem chunkPath_literal {uploadId : String} (hliteral : ∀ name ∈ stagingDir config uploadId, Ordinary name)
    (i : Nat) : ∀ name ∈ chunkPath config uploadId i, Ordinary name := by
  intro name hname
  rcases List.mem_append.mp hname with hdir | hlast
  · exact hliteral name hdir
  · rw [List.mem_singleton.mp hlast]
    exact chunkName_ordinary i

/-- The file that a call has newly created. -/
theorem node_created_new {base place : Path} {name : String} (hstraight : t.Straight (base ++ [name]))
    (hperform : FsCall.perform choice (.createNew (base ++ [name])) t = ((.ok place : Except IoError Path), t')) :
    place = base ++ [name] ∧ t.node (base ++ [name]) = none ∧ t'.node (base ++ [name]) = some (.file []) := by
  simp only [FsCall.perform] at hperform
  cases hguard : choice.guard (t.createNewPlace (base ++ [name])) with
  | error e =>
      rw [hguard] at hperform
      cases hperform
  | ok found =>
      rw [hguard] at hperform
      cases hperform
      have hnew := (guard_accounted choice _).ok _ hguard
      have hnone := node_of_createNewPlace hnew
      cases hparent : t.locate base with
      | error kind => simp [createNewPlace, locateEntry, hparent, bind, Except.bind] at hnew
      | ok parent =>
          obtain rfl := locate_of_straight (hstraight.upward (List.prefix_append _ _)) hparent
          cases hdir : t.node parent with
          | none => simp [createNewPlace, locateEntry, hparent, hdir, bind, Except.bind, throw, throwThe,
              MonadExceptOf.throw] at hnew
          | some n =>
              cases n with
              | file | symlink => simp [createNewPlace, locateEntry, hparent, hdir, bind, Except.bind, throw, throwThe,
                  MonadExceptOf.throw] at hnew
              | dir =>
                  have hentry : t.locateEntry (parent ++ [name]) = .ok (parent ++ [name]) := by
                    simp [locateEntry, hparent, hdir, bind, Except.bind, pure, Except.pure]
                  obtain rfl : place = parent ++ [name] := by
                    rw [createNewPlace_of_entry hentry] at hnew
                    split at hnew
                    · exact (Except.ok.inj hnew).symm
                    · cases hnew
                  have hadmits : t.Admits (parent ++ [name]) :=
                    ⟨by simp, by rw [List.dropLast_concat]; exact hdir, by simp [hnone]⟩
                  exact ⟨rfl, hnone, node_put_self hadmits _⟩

/-- What a call of the completion does. -/
theorem complete_step (h : Intact config row target t rows deeds) (hapart : ¬ stagingDir config row.id <+: target)
    (hliteral : ∀ name ∈ stagingDir config row.id, Ordinary name)
    (hmay : MayCall config row.id target .complete (.inl op) (deeds .complete))
    (hreads : (deeds .complete).cleared = false → ∀ path place content, t.fileAt path = .ok (place, content) →
      reads path content)
    (hperform : op.perform choice t = (answer, t')) :
    ∃ deed', Handles reads (KeepsRow row) (.inl op) (deeds .complete) answer deed' ∧
      Intact config row target t' rows (Function.update deeds .complete deed') := by
  have hfree := linkFree_perform h.linkFree hperform
  have hplaced := placedAnswer_of_perform h.linkFree hperform
  have hquiet : touched ⟨.inl op, answer⟩ = none → (∀ path, op ≠ .removeDirAll path) →
      Intact config row target t' rows (Function.update deeds .complete (deeds .complete)) := fun htouch hremove =>
    (h.unmoved hfree (keeps_of_untouched hperform htouch hremove)).deeds_kept .complete
  cases op with
  | createNew path => exact absurd hmay id
  | removeDirAll path =>
      obtain rfl : path = stagingDir config row.id := hmay
      refine ⟨⟨(deeds .complete).written, true⟩, ⟨hplaced, rfl⟩, h.removed hfree ?_⟩
      refine node_removeDirAll hperform fun place hplace => ?_
      rwa [removalPlace_of_straight (h.linkFree.straight hliteral) hplace]
  | create path =>
      obtain ⟨rfl, hpath⟩ := hmay
      cases answer with
      | error e =>
          refine ⟨deeds .complete, ⟨hplaced, ?_, rfl⟩, hquiet rfl (by simp)⟩
          cases hwritten : (deeds .complete).written with
          | none => rfl
          | some file => exact ⟨file.2, rfl⟩
      | ok place =>
          obtain rfl := hplaced place rfl hpath
          refine ⟨⟨some (place, []), (deeds .complete).cleared⟩, ⟨hplaced, ?_, rfl⟩,
            h.wrote_target hapart hfree (staysBut_step hperform (fun p hp => (Option.some.inj hp).symm) (by simp)) rfl
              fun p content hp => ?_⟩
          · cases hwritten : (deeds .complete).written with
            | none => rfl
            | some file =>
                obtain ⟨p, content⟩ := file
                obtain rfl := (h.target p content hwritten).1
                exact ⟨[], rfl⟩
          · cases hp
            exact ⟨rfl, (node_created hperform).1⟩
  | writeAll place offset data =>
      obtain rfl : place = target := hmay
      cases hwritten : (deeds .complete).written with
      | none =>
          refine ⟨⟨none, (deeds .complete).cleared⟩, ⟨hplaced, ?_, rfl⟩, ?_⟩
          · rw [hwritten]
            rfl
          · exact h.wrote_target hapart hfree (staysBut_step hperform (fun q hq => (Option.some.inj hq).symm) (by simp))
              rfl nofun
      | some file =>
          obtain ⟨p, content⟩ := file
          obtain ⟨rfl, hnode⟩ := h.target p content hwritten
          obtain ⟨part, hfile, -, hwhole⟩ := node_written hperform hnode
          refine ⟨⟨some (p, writeAt content offset part), (deeds .complete).cleared⟩, ⟨hplaced, ?_, rfl⟩,
            h.wrote_target hapart hfree (staysBut_step hperform (fun q hq => (Option.some.inj hq).symm) (by simp)) rfl
              fun q found hq => ?_⟩
          · rw [hwritten]
            simp only [Races, Writes, if_true]
            cases answer with
            | ok u => rw [hwhole rfl]
            | error e => exact ⟨_, rfl⟩
          · cases hq
            exact ⟨rfl, hfile⟩
  | readFile path =>
      refine ⟨deeds .complete, ⟨hplaced, ⟨fun content hcontent => ?_, rfl⟩, rfl⟩, hquiet rfl (by simp)⟩
      cases hperform
      exact reads_of_answer (fun place content => hreads hmay path place content) hcontent
  | _ => exact ⟨deeds .complete, ⟨hplaced, rfl, rfl⟩, hquiet rfl (by simp)⟩

/-- What a call of an attempt to send a chunk does. -/
theorem chunk_step (h : Intact config row target t rows deeds) (hapart : ¬ stagingDir config row.id <+: target)
    (hliteral : ∀ name ∈ stagingDir config row.id, Ordinary name)
    (hmay : MayCall config row.id target (.chunk i a) (.inl op) (deeds (.chunk i a)))
    (hperform : op.perform choice t = (answer, t')) :
    ∃ deed', Handles reads (KeepsRow row) (.inl op) (deeds (.chunk i a)) answer deed' ∧
      Intact config row target t' rows (Function.update deeds (.chunk i a) deed') := by
  have hfree := linkFree_perform h.linkFree hperform
  have hplaced := placedAnswer_of_perform h.linkFree hperform
  have hquiet : touched ⟨.inl op, answer⟩ = none → (∀ path, op ≠ .removeDirAll path) →
      Intact config row target t' rows (Function.update deeds (.chunk i a) (deeds (.chunk i a))) :=
    fun htouch hremove =>
      (h.unmoved hfree (keeps_of_untouched hperform htouch hremove)).deeds_kept (.chunk i a)
  cases op with
  | create path | removeDirAll path | readFile path => exact absurd hmay id
  | createNew path =>
      obtain ⟨rfl, hnone⟩ := hmay
      cases answer with
      | error e => exact ⟨deeds (.chunk i a), ⟨hplaced, rfl⟩, hquiet rfl (by simp)⟩
      | ok place =>
          obtain ⟨rfl, hbefore, hafter⟩ :=
            node_created_new (h.linkFree.straight (chunkPath_literal hliteral i)) hperform
          refine ⟨_, ⟨hplaced, rfl⟩, h.wrote_chunk hapart hfree
            (staysBut_step hperform (fun q hq => (Option.some.inj hq).symm) (by simp)) (fun hcleared b hb => ?_)
            fun _ => hafter⟩
          -- An attempt that had created the file would have left it there.
          obtain ⟨file, hfile⟩ := Option.ne_none_iff_exists'.mp hb
          obtain ⟨place, content⟩ := file
          obtain ⟨rfl, hnode⟩ := h.chunk i b place content hfile
          cases (hnode hcleared).symm.trans hbefore
  | writeAll place offset data =>
      obtain ⟨content, hwritten⟩ := hmay
      obtain ⟨rfl, hnode⟩ := h.chunk i a place content hwritten
      have hsingle : (deeds .complete).cleared = false → ∀ b, (deeds (.chunk i b)).written ≠ none → b = a :=
        fun hcleared b hb => h.single hcleared i b a hb (by rw [hwritten]; exact nofun)
      have hstays := staysBut_step (q := chunkPath config row.id i) hperform
        (fun q hq => (Option.some.inj hq).symm) (by simp)
      obtain ⟨content', hfile, hwrote⟩ : ∃ content', ((deeds .complete).cleared = false →
          t'.node (chunkPath config row.id i) = some (.file content')) ∧
          ((answer : Except IoError Unit) = .ok () → content' = writeAt content offset data) := by
        by_cases hcleared : (deeds .complete).cleared = false
        · obtain ⟨part, hfile, -, hwhole⟩ := node_written hperform (hnode hcleared)
          exact ⟨_, fun _ => hfile, fun hok => by rw [hwhole hok]⟩
        · exact ⟨_, fun hc => absurd hc hcleared, fun _ => rfl⟩
      refine ⟨⟨some (chunkPath config row.id i, content'), (deeds (.chunk i a)).cleared⟩, ⟨hplaced, ?_, rfl⟩,
        h.wrote_chunk hapart hfree hstays hsingle hfile⟩
      rw [hwritten]
      simp only [Races, Writes, if_true]
      cases answer with
      | ok u => rw [hwrote rfl]
      | error e => exact ⟨_, rfl⟩
  | _ => exact ⟨deeds (.chunk i a), ⟨hplaced, rfl, rfl⟩, hquiet rfl (by simp)⟩

/-- What a statement does to the session's row. -/
theorem statement_step {statement : UploadsCall} {fault : Option String} {answer : statement.Answer}
    (hrows : ∀ r ∈ rows, KeepsRow row r.id r)
    {deed : Deed} (hmay : MayCall config row.id target request (.inr statement) deed)
    (hperform : statement.perform fault rows = (answer, rows')) :
    Handles reads (KeepsRow row) (.inr statement) deed answer deed ∧ ∀ r ∈ rows', KeepsRow row r.id r := by
  cases statement with
  | insert r => cases request <;> exact absurd hmay id
  | load id targetType =>
      cases hperform
      refine ⟨⟨trivial, ⟨fun r hfound => ?_, rfl⟩, rfl⟩, hrows⟩
      cases fault with
      | some message => cases hfound
      | none =>
          obtain ⟨hmem, hid⟩ := mem_of_load (Except.ok.inj hfound)
          rw [← hid]
          exact hrows r hmem
  | setReceived id n =>
      refine ⟨⟨trivial, rfl, rfl⟩, ?_⟩
      cases fault with
      | some message =>
          cases hperform
          exact hrows
      | none =>
          cases hperform
          intro r hr hid
          obtain ⟨old, hold, rfl⟩ := List.mem_map.mp hr
          by_cases heq : old.id = id
          · rw [if_pos heq] at hid ⊢
            rw [hrows old hold hid]
          · rw [if_neg heq] at hid ⊢
            exact hrows old hold hid
  | delete id =>
      refine ⟨⟨trivial, rfl, rfl⟩, ?_⟩
      cases fault with
      | some message =>
          cases hperform
          exact hrows
      | none =>
          cases hperform
          exact fun r hr => hrows r (List.mem_of_mem_filter hr)

end Disk

/-- What a call of any request but the cancellation does to the server. -/
theorem Intact.turn {config : AppConfig} {row : ChunkedUpload} {target : Path} {server : Server}
    {deeds : PageRequest → Deed} {request : PageRequest} {op : serverSignature.Op}
    (reads : Path → Bytes → Prop) (oracle : Nat → Choice) (dbOracle : Nat → Option String)
    (h : Intact config row target server.1.tree server.2.rows deeds) (hapart : ¬ stagingDir config row.id <+: target)
    (hliteral : ∀ name ∈ stagingDir config row.id, Ordinary name) (hrequest : request ≠ .cancel)
    (hmay : MayCall config row.id target request op (deeds request))
    (hreads : request = .complete → (deeds .complete).cleared = false → ∀ path place content,
      server.1.tree.fileAt path = .ok (place, content) → reads path content) :
    ∃ deed', Handles reads (KeepsRow row) op (deeds request) (serverHandler oracle dbOracle op server).1 deed' ∧
      Intact config row target (serverHandler oracle dbOracle op server).2.1.tree
        (serverHandler oracle dbOracle op server).2.2.rows (Function.update deeds request deed') := by
  cases op with
  | inl op =>
      have hperform : op.perform (oracle server.1.tick) server.1.tree =
        ((serverHandler oracle dbOracle (.inl op) server).1,
          (serverHandler oracle dbOracle (.inl op) server).2.1.tree) := rfl
      cases request with
      | cancel => exact absurd rfl hrequest
      | complete => exact complete_step h hapart hliteral hmay (hreads rfl) hperform
      | chunk i a => exact chunk_step h hapart hliteral hmay hperform
  | inr op =>
      have hperform : op.perform (dbOracle server.2.tick) server.2.rows =
        ((serverHandler oracle dbOracle (.inr op) server).1,
          (serverHandler oracle dbOracle (.inr op) server).2.2.rows) := rfl
      obtain ⟨hhandles, hrows⟩ := statement_step h.rows hmay hperform
      exact ⟨deeds request, hhandles, (h.with_rows hrows).deeds_kept request⟩

end IronDrive
