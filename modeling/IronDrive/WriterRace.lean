import Mathlib.Data.List.Forall2
import IronDrive.ChunkUpload
import IronDrive.UploadFailure

/-! A writer among others. Seen from one upload, whatever the operating system and the other calls do: the
file it has created is the bytes it has written so far, as far as nobody else writes to it. An upload that
succeeds has then written its whole encrypted file. -/

namespace IronDrive

open Lib FileTree PathSafety CryptoService FsService ChunkService

/-- The file an upload has created, and what it has written to it. -/
abbrev Written : Type := Option (Path × Bytes)

/-- How a filesystem call of the upload moves its file. What a read of a path may answer is `reads`. -/
def Writes (reads : Path → Bytes → Prop) : (op : FsCall) → Written → op.Answer → Written → Prop
  | .create _, none, answer, w' =>
      match (answer : Except IoError Path) with
      | .ok place => w' = some (place, [])
      | .error _ => w' = none
  | .create _, some (place, _), _, w' => ∃ content, w' = some (place, content)
  | .writeAll _ _ _, none, _, w' => w' = none
  | .writeAll place offset data, some (file, content), answer, w' =>
      if place = file then
        match (answer : Except IoError Unit) with
        | .ok () => w' = some (file, writeAt content offset data)
        | .error _ => ∃ content', w' = some (file, content')
      else w' = some (file, content)
  | .readFile path, w, answer, w' =>
      (∀ content, (answer : Except IoError Bytes) = .ok content → reads path content) ∧ w' = w
  | _, w, _, w' => w' = w

variable {reads : Path → Bytes → Prop} {P : Primitives} {α β : Type} {onError : IoError → AppError}
  {w : Written}

/-- A program that stays aside leaves the written file as it is. -/
theorem aside_ensures {R : α → Prop} {program : FsProgram α} (h : program.Only Aside R) :
    program.Ensures (Writes reads) w fun _ w' => w' = w := by
  refine h.ensures (I := fun w' => w' = w) ?_ rfl
  intro op v answer v' haside hv hwrites
  subst hv
  cases op with
  | create path | createNew path | removeDirAll path => exact absurd haside id
  | writeAll place offset data => exact absurd haside id
  | readFile path => exact hwrites.2
  | _ => exact hwrites

/-- What a successful program guarantees; a failing one guarantees nothing. -/
def OnOk (Q : α → Written → Prop) (result : Except AppError α) (w : Written) : Prop :=
  ∀ value, result = .ok value → Q value w

theorem onOk_error {Q : α → Written → Prop} (error : AppError) : OnOk Q (.error error) w := by
  intro value h
  cases h

/-- The rule for a step that stays aside. -/
theorem aside_bind_onOk {R : α → Prop} {program : FsProgram α} {f : α → FsProgram β}
    {Q : β → Written → Prop} (h : program.Only Aside R)
    (hf : ∀ value, R value → (f value).Ensures (Writes reads) w (OnOk Q)) :
    (program.bind f).Ensures (Writes reads) w (OnOk Q) := by
  refine Program.Ensures.bind ((aside_ensures h).and (h.returns w)) ?_ ?_
  · intro value w' hvalue
    obtain ⟨hw, hR⟩ := hvalue
    subst hw
    exact hf value (hR value rfl)
  · intro error w' _
    exact onOk_error _

theorem createFile_onOk {path : Path} {f : OpenFile → FsProgram β} {Q : β → Written → Prop}
    (hf : ∀ place, (f ⟨place, 0⟩).Ensures (Writes reads) (some (place, [])) (OnOk Q)) :
    ((createFile path onError).bind f).Ensures (Writes reads) none (OnOk Q) := by
  intro answer w' hwrites
  cases answer with
  | ok place =>
      cases hwrites
      exact hf place
  | error e => exact onOk_error _

/-- A write at the end of what has been written appends to it. -/
theorem writeAll_onOk {place : Path} (content : Bytes) {data : Bytes} {f : OpenFile → FsProgram β}
    {Q : β → Written → Prop}
    (hf : (f ⟨place, (content ++ data).length⟩).Ensures (Writes reads) (some (place, content ++ data))
      (OnOk Q)) :
    ((OpenFile.writeAll ⟨place, content.length⟩ data onError).bind f).Ensures (Writes reads)
      (some (place, content)) (OnOk Q) := by
  intro answer w' hwrites
  simp only [Writes, if_true] at hwrites
  cases answer with
  | ok u =>
      cases hwrites
      rw [List.length_append] at hf
      rw [writeAt, overwrite_end]
      exact hf
  | error e => exact onOk_error _

/-- A single-shot writer that succeeds has written the blob of `encryptFileBytes`. -/
theorem encryptAndWriteFileOwned_onOk (dataKey : DataKey) (nonce : FixedBytes 12) (plaintext : Bytes)
    (dest : Path) :
    (encryptAndWriteFileOwned P dataKey nonce plaintext dest false).Ensures (Writes reads) none
      (OnOk fun _ w => ∃ place blob, w = some (place, blob) ∧
        encryptFileBytes P dataKey nonce plaintext = .ok blob) := by
  unfold encryptAndWriteFileOwned
  cases hsealed : P.encryptDetached dataKey nonce plaintext with
  | none => exact onOk_error _
  | some sealed =>
      obtain ⟨ciphertext, tag⟩ := sealed
      apply createFile_onOk
      intro place
      apply writeAll_onOk []
      apply writeAll_onOk
      apply writeAll_onOk
      apply writeAll_onOk
      apply writeAll_onOk
      apply aside_bind_onOk (flush_aside _)
      intro flushed _
      apply aside_bind_onOk (syncData_aside _)
      intro synced _ value hvalue
      refine ⟨place, _, rfl, ?_⟩
      rw [encryptFileBytes, Primitives.encrypt, hsealed]
      simp [List.append_assoc]

/-- What a chunk file is read as, whenever a read of it succeeds. -/
def ReadsAs (reads : Path → Bytes → Prop) (path : Path) (chunk : Bytes) : Prop :=
  ∀ content, reads path content → content = chunk

theorem readFile_onOk {path : Path} {chunk : Bytes} {f : Bytes → FsProgram β}
    {Q : β → Written → Prop} (hread : ReadsAs reads path chunk)
    (hf : (f chunk).Ensures (Writes reads) w (OnOk Q)) :
    ((readFile path onError).bind f).Ensures (Writes reads) w (OnOk Q) := by
  intro answer w' hwrites
  obtain ⟨hanswer, rfl⟩ := hwrites
  cases answer with
  | ok content =>
      rw [hread content (hanswer content rfl)]
      exact hf
  | error e => exact onOk_error _

theorem okOr_onOk {error : AppError} {value : Option α} {f : α → FsProgram β} {Q : β → Written → Prop}
    (hf : ∀ found, value = some found → (f found).Ensures (Writes reads) w (OnOk Q)) :
    ((Program.okOr error value).bind f).Ensures (Writes reads) w (OnOk Q) := by
  cases value with
  | none => exact onOk_error _
  | some found => exact hf found rfl

/-- The chunk loop appends the framed segments of the sealed chunks, if it succeeds. -/
theorem streamChunks_onOk (paths : List Path) : ∀ (chunks : List Bytes) (index : Nat)
    (place : Path) (content hasher : Bytes) (e : EncryptorBE32) (bytesRead : Nat),
      List.Forall₂ (ReadsAs reads) paths chunks →
        (streamChunks P paths index ⟨⟨place, content.length⟩, hasher, e, bytesRead⟩).Ensures (Writes reads)
          (some (place, content)) (OnOk fun writer w => ∃ segments,
            sealSegments P e chunks = some segments ∧
            w = some (place, content ++ segments.flatMap frame) ∧
            writer.out = ⟨place, (content ++ segments.flatMap frame).length⟩ ∧
            writer.hasher = hasher ++ segments.flatMap frame) := by
  induction paths with
  | nil =>
      intro chunks index place content hasher e bytesRead hchunks value hvalue
      cases hchunks
      cases hvalue
      exact ⟨[], rfl, by simp, by simp, by simp⟩
  | cons path paths ih =>
      intro chunks index place content hasher e bytesRead hchunks
      cases hchunks with
      | @cons _ chunk _ chunks hchunk hrest =>
          have hempty : paths = [] ↔ chunks = [] := by
            constructor
            · rintro rfl; cases hrest; rfl
            · rintro rfl; cases hrest; rfl
          rw [streamChunks]
          apply readFile_onOk hchunk
          -- Both branches seal the chunk and write it the same way.
          have hwrite : ∀ next : Bytes × EncryptorBE32,
              (Program.bind (OpenFile.writeAll ⟨place, content.length⟩ (le32 next.1.length) fun e =>
                  .internal ("Failed to write segment header: " ++ e.message)) fun out =>
                Program.bind (out.writeAll next.1 fun e =>
                  .internal ("Failed to write segment body: " ++ e.message)) fun out =>
                streamChunks P paths (index + 1)
                  { out := out, hasher := hasher ++ le32 next.1.length ++ next.1, encryptor := next.2,
                    bytesRead := bytesRead + chunk.length }).Ensures (Writes reads)
                (some (place, content)) (OnOk fun writer w => ∃ segments,
                  sealSegments P next.2 chunks = some segments ∧
                  w = some (place, content ++ frame next.1 ++ segments.flatMap frame) ∧
                  writer.out = ⟨place, (content ++ frame next.1 ++ segments.flatMap frame).length⟩ ∧
                  writer.hasher = hasher ++ frame next.1 ++ segments.flatMap frame) := by
            intro next
            apply writeAll_onOk
            apply writeAll_onOk
            have hrec := ih chunks (index + 1) place (content ++ le32 next.1.length ++ next.1)
              (hasher ++ le32 next.1.length ++ next.1) next.2 (bytesRead + chunk.length) hrest
            simp only [frame, ← List.append_assoc]
            exact hrec
          dsimp only
          by_cases hlast : paths = []
          · rw [if_pos hlast]
            apply okOr_onOk
            intro next hnext
            obtain ⟨sealed, hsealed, rfl⟩ := Option.map_eq_some_iff.mp hnext
            refine Program.Ensures.mono (hwrite (sealed, e)) ?_
            intro result w' hresult writer hok
            obtain ⟨segments, hseal, hw, hout, hhasher⟩ := hresult writer hok
            have hchunks := hempty.mp hlast
            subst hchunks
            cases hseal
            exact ⟨[sealed], by simp [sealSegments, hsealed], by simpa using hw, by simpa using hout,
              by simpa using hhasher⟩
          · rw [if_neg hlast]
            apply okOr_onOk
            intro next hnext
            refine Program.Ensures.mono (hwrite next) ?_
            intro result w' hresult writer hok
            obtain ⟨segments, hseal, hw, hout, hhasher⟩ := hresult writer hok
            refine ⟨next.1 :: segments, ?_, ?_, ?_, ?_⟩
            · rw [sealSegments, if_neg (mt hempty.mpr hlast), hnext, Option.bind_some, hseal]
              rfl
            · rw [hw, List.flatMap_cons, List.append_assoc]
            · rw [hout, List.flatMap_cons, List.append_assoc]
            · rw [hhasher, List.flatMap_cons, List.append_assoc]

/-- A streaming writer that succeeds has written the sealed chunks and their hash. -/
theorem streamEncryptChunksToFile_onOk (dataKey : DataKey) (nonce : FixedBytes 7)
    {chunkPaths : List Path} {chunks : List Bytes} (hchunks : List.Forall₂ (ReadsAs reads) chunkPaths chunks)
    (total : Nat) (dest : Path) :
    (streamEncryptChunksToFile P dataKey nonce chunkPaths total dest false).Ensures (Writes reads) none
      (OnOk fun _ w => ∃ place segments,
        sealSegments P (EncryptorBE32.new dataKey nonce) chunks = some segments ∧
        w = some (place, withHash P (streamContent nonce segments))) := by
  apply createFile_onOk
  intro place
  apply writeAll_onOk []
  apply writeAll_onOk
  refine Program.Ensures.bind (streamChunks_onOk chunkPaths chunks 0 place (streamMagic ++ nonce.val)
    (streamMagic ++ nonce.val) (EncryptorBE32.new dataKey nonce) 0 hchunks) ?_ ?_
  · intro writer w' hwriter
    obtain ⟨segments, hseal, rfl, hout, hhasher⟩ := hwriter writer rfl
    split
    · exact onOk_error _
    · rw [hout, hhasher]
      apply writeAll_onOk
      apply aside_bind_onOk (flush_aside _)
      intro flushed _
      apply aside_bind_onOk (syncData_aside _)
      intro synced _ value hvalue
      exact ⟨place, segments, hseal, rfl⟩
  · intro error w' _
    exact onOk_error _

/-! ### The uploads -/

section Uploads

variable {mimeFromFilename : String → Option String} {dataKey : Except AppError DataKey}
  {root : Path} {userPath : String}

/-- A single-shot upload that succeeds has written its data, encrypted under its key. -/
theorem uploadOwned_onOk (nonce : FixedBytes 12) (data : Bytes) :
    (uploadOwned P mimeFromFilename dataKey root nonce userPath data false).Ensures (Writes reads) none
      (OnOk fun _ w => ∃ key place blob, dataKey = .ok key ∧ w = some (place, blob) ∧
        encryptFileBytes P key nonce data = .ok blob) := by
  apply aside_bind_onOk (prepareUpload_aside dataKey root userPath)
  intro prepared hkey
  obtain ⟨key, target⟩ := prepared
  refine Program.Ensures.bind (encryptAndWriteFileOwned_onOk key nonce data target).outcome ?_ ?_
  · intro written w₁ hwritten
    obtain ⟨inner, hinner, hok⟩ := hwritten
    cases hinner
    cases written with
    | ok u =>
        obtain ⟨place, blob, rfl, hblob⟩ := hok u rfl
        apply aside_bind_onOk (aside_of_readsOnly (metadata_readsOnly target _))
        intro m _ upload _
        exact ⟨key, place, blob, hkey, rfl, hblob⟩
    | error e =>
        apply aside_bind_onOk (fsCall_only (.metadata target) trivial)
        intro answer _
        cases answer with
        | ok m => dsimp only; split <;> exact onOk_error _
        | error e' => exact onOk_error _
  · intro error w₁ _
    exact onOk_error _

/-- A streaming upload that succeeds has written the chunks, sealed under its key. -/
theorem uploadStreaming_onOk (nonce : FixedBytes 7) {chunkPaths : List Path} {chunks : List Bytes}
    (hchunks : List.Forall₂ (ReadsAs reads) chunkPaths chunks) (total : Nat) :
    (uploadStreaming P mimeFromFilename dataKey root nonce userPath chunkPaths total false).Ensures
      (Writes reads) none (OnOk fun _ w => ∃ key place segments, dataKey = .ok key ∧
        sealSegments P (EncryptorBE32.new key nonce) chunks = some segments ∧
        w = some (place, withHash P (streamContent nonce segments))) := by
  apply aside_bind_onOk (prepareUpload_aside dataKey root userPath)
  intro prepared hkey
  obtain ⟨key, target⟩ := prepared
  refine Program.Ensures.bind (streamEncryptChunksToFile_onOk key nonce hchunks total target) ?_ ?_
  · intro u w₁ hwritten
    obtain ⟨place, segments, hseal, rfl⟩ := hwritten u rfl
    apply aside_bind_onOk (aside_of_readsOnly (metadata_readsOnly target _))
    intro m _ upload _
    exact ⟨key, place, segments, hkey, hseal, rfl⟩
  · intro error w₁ _
    exact onOk_error _

end Uploads

/-- How a call of the server moves the file an upload has written. What the session table may hold under
an id is `stored`. -/
def Races (reads : Path → Bytes → Prop) (stored : String → ChunkedUpload → Prop) :
    (op : serverSignature.Op) → Written → serverSignature.Answer op → Written → Prop
  | .inl op, w, answer, w' => Writes reads op w answer w'
  | .inr (.load id _), w, answer, w' =>
      (∀ row, (answer : Except SqlError (Option ChunkedUpload)) = .ok (some row) → stored id row) ∧ w' = w
  | .inr _, w, _, w' => w' = w

section Server

variable {stored : String → ChunkedUpload → Prop} {crates : Crates} {config : AppConfig}
  {unlockState : UnlockState}

theorem onDisk_races {program : FsProgram α} {Q : Except AppError α → Written → Prop}
    (h : program.Ensures (Writes reads) w Q) : (onDisk program).Ensures (Races reads stored) w Q := by
  refine Program.Ensures.mono (h.inl_of (L := Eq) ?_ rfl) ?_
  · intro op x v answer x' hv hcall
    subst hv
    exact ⟨x', hcall, rfl⟩
  · intro result x' hQ
    obtain ⟨v', rfl, hQ⟩ := hQ
    exact hQ

/-- The session's row is one the table may hold. -/
theorem requireSession_races (now : Int) (session : Session) {f : ChunkedUpload → ServerProgram β}
    {Q : β → Written → Prop}
    (hf : ∀ row, stored session.uploadId row → (f row).Ensures (Races reads stored) w (OnOk Q)) :
    ((requireSession crates now session).bind f).Ensures (Races reads stored) w (OnOk Q) := by
  unfold requireSession
  cases validateUploadId crates session.uploadId with
  | error e => exact onOk_error _
  | ok u =>
      intro answer w' hload
      obtain ⟨hstored, rfl⟩ := hload
      cases answer with
      | error e => exact onOk_error _
      | ok found =>
          cases found with
          | none => exact onOk_error _
          | some row =>
              change ((if row.userId ≠ session.userId ∨ row.targetId ≠ session.targetId then
                  Program.fail .notFound
                else if isExpired crates now row.expiresAt then
                  Program.fail (.validation "Upload session has expired.")
                else Program.done row : ServerProgram ChunkedUpload).bind f).Ensures (Races reads stored)
                  _ (OnOk Q)
              split
              · exact onOk_error _
              · split
                · exact onOk_error _
                · exact hf row (hstored row rfl)

/-- A completion that succeeds has written the chunks of its session, sealed under the target's key. -/
theorem completeUpload_onOk (now : Int) (nonce : FixedBytes 7) (session : Session) {chunks : List Bytes}
    (hstored : ∀ row, stored session.uploadId row → toU32 row.totalChunks = chunks.length)
    (hchunks : List.Forall₂ (ReadsAs reads) (chunkPaths config session.uploadId chunks.length) chunks) :
    (completeUpload crates config P unlockState now nonce session false).Ensures (Races reads stored) none
      (OnOk fun _ w => ∃ key place segments,
        targetKey unlockState session.targetType session.targetId = .ok key ∧
        sealSegments P (EncryptorBE32.new key nonce) chunks = some segments ∧
        w = some (place, withHash P (streamContent nonce segments))) := by
  apply requireSession_races
  intro row hrow
  dsimp only
  rw [hstored row hrow]
  refine Program.Ensures.bind (onDisk_races (aside_ensures
    (aside_of_readsOnly (checkChunksPresent_readsOnly _ 0)))) ?_ fun _ _ _ => onOk_error _
  intro u w₁ hw
  subst hw
  rw [uploadTarget_eq]
  refine Program.Ensures.bind (onDisk_races (uploadStreaming_onOk nonce hchunks (toU64 row.totalBytes))) ?_
    fun _ _ _ => onOk_error _
  intro upload w₁ hwritten answer w₂ hremove answer' w₃ hdelete value hvalue
  obtain ⟨key, place, segments, hkey, hseal, rfl⟩ := hwritten upload rfl
  have hremoved : w₂ = some (place, withHash P (streamContent nonce segments)) := hremove
  have hdeleted : w₃ = w₂ := hdelete
  exact ⟨key, place, segments, hkey, hseal, hdeleted.trans hremoved⟩

end Server

end IronDrive
