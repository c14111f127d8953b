import IronDrive.UploadRace

/-! What an upload leaves at its target when it succeeds: the plaintext sealed in one piece, or the chunks it read,
each in a segment of its own. -/

namespace IronDrive

open Lib FileTree PathSafety CryptoService FsService ChunkService

variable {t : FileTree} {P : Primitives}

variable {dest place : Path} {key : DataKey}

/-- Nothing follows from the success of a program that fails. -/
theorem fails_bind {α β : Type} {program : FsProgram α} {f : α → FsProgram β} {error : AppError} {t' : FileTree}
    {Q : β → FileTree → Prop} (h : program.Stops Quietly t (.error error) t') :
    (program.bind f).Ensures Quietly t fun result t'' => ∀ value, result = .ok value → Q value t'' := by
  refine Program.Ensures.mono h.bind_error ?_
  rintro result t'' ⟨rfl, -⟩ value hvalue
  cases hvalue

/-- A chunk that was read while the file at the place was being written. -/
def ReadBeside (t : FileTree) (place path : Path) (chunk : Bytes) : Prop :=
  ∃ content found, (t.put place (.file content)).fileAt path = .ok (found, chunk)

/-- The chunk loop appends the framed segments of the chunks it reads, if it succeeds. -/
theorem streamChunks_returns (hadmits : t.Admits place) (paths : List Path) : ∀ (index : Nat)
    (content hasher : Bytes) (e : EncryptorBE32) (bytesRead : Nat),
      (streamChunks P paths index ⟨⟨place, content.length⟩, hasher, e, bytesRead⟩).Ensures Quietly
        (t.put place (.file content)) fun result t' => ∀ w, result = .ok w → ∃ chunks segments,
          List.Forall₂ (ReadBeside t place) paths chunks ∧ sealSegments P e chunks = some segments ∧
          t' = t.put place (.file (content ++ segments.flatMap frame)) ∧
          w.out = ⟨place, (content ++ segments.flatMap frame).length⟩ ∧
          w.hasher = hasher ++ segments.flatMap frame ∧ w.bytesRead = bytesRead + chunks.flatten.length := by
  induction paths with
  | nil =>
      intro index content hasher e bytesRead w hw
      cases hw
      exact ⟨[], [], .nil, rfl, by simp, by simp, by simp, by simp⟩
  | cons path paths ih =>
      intro index content hasher e bytesRead
      rw [streamChunks]
      have hread := readFile_stops (t.put place (.file content)) path fun _ =>
        .validation ("Missing chunk " ++ toString index ++ ".")
      cases hfile : (t.put place (.file content)).fileAt path with
      | error kind =>
          rw [hfile] at hread
          exact fails_bind hread
      | ok entry =>
          rw [hfile] at hread
          refine hread.ensures_bind ?_
          -- Both branches seal the chunk and write it the same way.
          have hwrite : ∀ next : Bytes × EncryptorBE32,
              (Program.bind (OpenFile.writeAll ⟨place, content.length⟩ (le32 next.1.length) fun e =>
                  .internal ("Failed to write segment header: " ++ e.message)) fun out =>
                Program.bind (out.writeAll next.1 fun e =>
                  .internal ("Failed to write segment body: " ++ e.message)) fun out =>
                streamChunks P paths (index + 1)
                  { out := out, hasher := hasher ++ le32 next.1.length ++ next.1, encryptor := next.2,
                    bytesRead := bytesRead + entry.2.length }).Ensures Quietly (t.put place (.file content))
                fun result t' => ∀ w, result = .ok w → ∃ chunks segments,
                  List.Forall₂ (ReadBeside t place) paths chunks ∧
                  sealSegments P next.2 chunks = some segments ∧
                  t' = t.put place (.file (content ++ frame next.1 ++ segments.flatMap frame)) ∧
                  w.out = ⟨place, (content ++ frame next.1 ++ segments.flatMap frame).length⟩ ∧
                  w.hasher = hasher ++ frame next.1 ++ segments.flatMap frame ∧
                  w.bytesRead = bytesRead + entry.2.length + chunks.flatten.length := by
            intro next
            refine (writeAll_append_stops hadmits content (le32 next.1.length) _).ensures_bind ?_
            refine (writeAll_append_stops hadmits _ next.1 _).ensures_bind ?_
            have hrec := ih (index + 1) (content ++ le32 next.1.length ++ next.1)
              (hasher ++ le32 next.1.length ++ next.1) next.2 (bytesRead + entry.2.length)
            simp only [frame, ← List.append_assoc]
            exact hrec
          have hbeside : ReadBeside t place path entry.2 := ⟨content, entry.1, hfile⟩
          dsimp only
          by_cases hlast : paths = []
          · rw [if_pos hlast]
            cases hnext : e.encryptLast P entry.2 with
            | none => exact fails_bind (Program.stops_fail _ _)
            | some sealed =>
                refine Program.Ensures.mono (hwrite (sealed, e)) ?_
                intro result t' hresult w hw
                obtain ⟨chunks, segments, hchunks, hseal, htree, hout, hhasher, hbytes⟩ := hresult w hw
                subst hlast
                cases hchunks
                cases hseal
                refine ⟨[entry.2], [sealed], .cons hbeside .nil, ?_, ?_, ?_, ?_, ?_⟩
                · rw [sealSegments, if_pos rfl, hnext]
                  rfl
                · simpa using htree
                · simpa using hout
                · simpa using hhasher
                · simpa using hbytes
          · rw [if_neg hlast]
            cases hnext : e.encryptNext P entry.2 with
            | none => exact fails_bind (Program.stops_fail _ _)
            | some next =>
                refine Program.Ensures.mono (hwrite next) ?_
                intro result t' hresult w hw
                obtain ⟨chunks, segments, hchunks, hseal, htree, hout, hhasher, hbytes⟩ := hresult w hw
                have hmore : chunks ≠ [] := by
                  rintro rfl
                  cases hchunks
                  exact hlast rfl
                refine ⟨entry.2 :: chunks, next.1 :: segments, .cons hbeside hchunks, ?_, ?_, ?_, ?_, ?_⟩
                · rw [sealSegments, if_neg hmore, hnext, Option.bind_some, hseal]
                  rfl
                · rw [htree, List.flatMap_cons, List.append_assoc]
                · rw [hout, List.flatMap_cons, List.append_assoc]
                · rw [hhasher, List.flatMap_cons, List.append_assoc]
                · rw [hbytes, List.flatten_cons, List.length_append, Nat.add_assoc]

theorem createFile_fails {kind : IoErrorKind} (h : t.createPlace dest = .error kind)
    (onError : IoError → AppError) :
    (createFile dest onError).Stops Quietly t (.error (onError (IoError.ofKind kind))) t := by
  rintro answer t' ⟨choice, hquiet, hperform⟩
  simp only [FsCall.perform, guard_of_quiet hquiet, h] at hperform
  cases hperform
  exact ⟨rfl, rfl⟩

theorem encryptAndWriteFileOwned_returns (hP : P.Lawful) (nonce : FixedBytes 12) (plaintext : Bytes) (dest : Path)
    (writeVerify : Bool) :
    (encryptAndWriteFileOwned P key nonce plaintext dest writeVerify).Ensures Quietly t fun result t' =>
      ∀ u, result = .ok u → ∃ place blob, t.createPlace dest = .ok place ∧
        encryptFileBytes P key nonce plaintext = .ok blob ∧ t' = t.put place (.file blob) := by
  cases hblob : encryptFileBytes P key nonce plaintext with
  | error error =>
      refine Program.Ensures.mono (encryptAndWriteFileOwned_stops_error hblob writeVerify) ?_
      rintro result t' ⟨rfl, -⟩ u hu
      cases hu
  | ok blob =>
      cases hdest : t.createPlace dest with
      | ok place =>
          refine Program.Ensures.mono (encryptAndWriteFileOwned_stops hP hdest hblob writeVerify) ?_
          rintro result t' ⟨-, rfl⟩ u -
          exact ⟨place, blob, rfl, rfl, rfl⟩
      | error kind =>
          obtain ⟨ciphertext, tag, hsealed, -⟩ := encryptFileBytes_eq_ok hblob
          simp only [encryptAndWriteFileOwned, hsealed, Program.okOr_some, Program.bind_eq, Program.done_bind]
          exact fails_bind (createFile_fails hdest _)

theorem streamEncryptChunksToFile_returns (nonce : FixedBytes 7) (chunkPaths : List Path) (total : Nat)
    (dest : Path) (writeVerify : Bool) :
    (streamEncryptChunksToFile P key nonce chunkPaths total dest writeVerify).Ensures Quietly t fun result t' =>
      ∀ u, result = .ok u → ∃ place chunks segments, t.createPlace dest = .ok place ∧
        List.Forall₂ (ReadBeside t place) chunkPaths chunks ∧ chunks.flatten.length = total ∧
        sealSegments P (EncryptorBE32.new key nonce) chunks = some segments ∧
        t' = t.put place (.file (withHash P (streamContent nonce segments))) := by
  cases hdest : t.createPlace dest with
  | error kind => exact fails_bind (createFile_fails hdest _)
  | ok place =>
      have hadmits := (admits_of_createPlace hdest).1
      simp only [streamEncryptChunksToFile, Program.bind_eq]
      refine (createFile_stops hdest).ensures_bind ?_
      refine (writeAll_append_stops hadmits [] streamMagic _).ensures_bind ?_
      refine (writeAll_append_stops hadmits _ nonce.val _).ensures_bind ?_
      rw [List.nil_append]
      refine Program.Ensures.bind (streamChunks_returns hadmits chunkPaths 0 (streamMagic ++ nonce.val)
        (streamMagic ++ nonce.val) (EncryptorBE32.new key nonce) 0) ?_ ?_
      · intro w t' hw
        obtain ⟨chunks, segments, hchunks, hseal, rfl, hout, hhasher, hbytes⟩ := hw w rfl
        rw [Nat.zero_add] at hbytes
        have hcontent : streamMagic ++ nonce.val ++ segments.flatMap frame = streamContent nonce segments := rfl
        rw [hout, hhasher, hbytes, hcontent]
        by_cases htotal : chunks.flatten.length = total
        · simp only [htotal, ne_eq, not_true_eq_false, if_false]
          refine (writeAll_append_stops hadmits _ _ _).ensures_bind ?_
          refine OpenFile.flush_stops.ensures_bind (OpenFile.syncData_stops.ensures_bind ?_)
          have hdone : t.put place (.file (streamContent nonce segments ++
              (P.sha256 (streamContent nonce segments)).val)) =
                t.put place (.file (withHash P (streamContent nonce segments))) := rfl
          rw [hdone]
          cases writeVerify with
          | false => exact fun _ _ => ⟨place, chunks, segments, rfl, hchunks, htotal, hseal, rfl⟩
          | true =>
              have hverify := verifyFileHash_stops (P := P)
                (fileAt_put hdest (withHash P (streamContent nonce segments)))
              refine Program.Ensures.mono hverify ?_
              rintro result t' ⟨-, rfl⟩ u -
              exact ⟨place, chunks, segments, rfl, hchunks, htotal, hseal, rfl⟩
        · simp only [ne_eq, htotal, not_false_eq_true, if_true]
          intro u hu
          cases hu
      · intro error t' _ u hu
        cases hu

variable {canonicalRoot target existing root : Path} {appended : List String} {userPath : String}
  {mimeFromFilename : String → Option String} {dataKey : Except AppError DataKey}

theorem createDirAll_returns (path : Path) (onError : IoError → AppError) :
    (createDirAll path onError).Ensures Quietly t fun result t' =>
      ∀ u, result = .ok u → t.createDirs [] path = .ok t' := by
  cases hmade : t.createDirs [] path with
  | ok made =>
      refine Program.Ensures.mono (createDirAll_stops hmade) ?_
      rintro result t' ⟨-, rfl⟩ u -
      rfl
  | error kind =>
      rintro answer t' ⟨choice, hquiet, hperform⟩
      have hfault : choice.fault = none := hquiet
      simp only [FsCall.perform, hfault, hmade] at hperform
      cases hperform
      intro u hu
      cases hu

theorem prepareUpload_returns (hjoin : (safeJoin root userPath).Stops Quietly t (.ok target) t) :
    (prepareUpload dataKey root userPath).Ensures Quietly t fun result t' => ∀ prepared, result = .ok prepared →
      ∃ key, dataKey = .ok key ∧ prepared = (key, target) ∧ t.createDirs [] target.dropLast = .ok t' := by
  unfold prepareUpload
  by_cases hpath : userPath = ""
  · rw [if_pos hpath]
    exact nofun
  rw [if_neg hpath]
  cases dataKey with
  | error e => exact nofun
  | ok key =>
      refine hjoin.ensures_bind ?_
      by_cases htarget : target = []
      · subst htarget
        rintro prepared hprepared
        cases hprepared
        exact ⟨key, rfl, rfl, rfl⟩
      · simp only [ne_eq, htarget, not_false_eq_true, if_true]
        refine Program.Ensures.bind (createDirAll_returns target.dropLast _) ?_ ?_
        · rintro u made hmade prepared hprepared
          cases hprepared
          exact ⟨key, rfl, rfl, hmade u rfl⟩
        · intro error made _ prepared hprepared
          cases hprepared

/-- A joined target is created where it is. -/
theorem createPlace_joined {made : FileTree} (hjoined : Joined t canonicalRoot target existing appended)
    (hmade : t.createDirs [] target.dropLast = .ok made) (hplace : made.createPlace target = .ok place) :
    place = target := by
  by_cases hdir : t.node target = some .dir
  · have hresolved := hjoined.resolved_of_exists (by rw [hdir]; simp)
    have hloc := locate_of_createPlace hplace
    rw [locate_of_resolved ((extends_createDirs _ hmade).resolved hresolved)] at hloc
    exact (Except.ok.inj hloc).symm
  · obtain ⟨made', hmade', hplace', -⟩ := hjoined.parents hdir
    rw [hmade] at hmade'
    cases hmade'
    rw [hplace] at hplace'
    exact Except.ok.inj hplace'

theorem uploadOwned_returns (hP : P.Lawful) (hjoined : Joined t canonicalRoot target existing appended)
    (hjoin : (safeJoin root userPath).Stops Quietly t (.ok target) t) (nonce : FixedBytes 12) (data : Bytes)
    (writeVerify : Bool) :
    (uploadOwned P mimeFromFilename dataKey root nonce userPath data writeVerify).Ensures Quietly t
      fun result t' => ∀ upload, result = .ok upload → ∃ key blob, dataKey = .ok key ∧
        encryptFileBytes P key nonce data = .ok blob ∧ t'.fileAt target = .ok (target, blob) ∧
        upload.size = data.length := by
  refine Program.Ensures.bind (prepareUpload_returns hjoin) ?_ ?_
  · intro prepared made hprepared
    obtain ⟨key, rfl, rfl, hmade⟩ := hprepared prepared rfl
    refine Program.Ensures.outcome_bind (encryptAndWriteFileOwned_returns hP nonce data target writeVerify) ?_
    intro written t' hwritten
    cases written with
    | ok u =>
        obtain ⟨place, blob, hplace, hblob, rfl⟩ := hwritten u rfl
        have hfile := fileAt_put hplace blob
        rw [createPlace_joined hjoined hmade hplace] at hfile ⊢
        refine (metadata_stops_of_fileAt hfile _).ensures_bind ?_
        intro upload hupload
        cases hupload
        exact ⟨key, blob, rfl, hblob, hfile, rfl⟩
    | error e =>
        intro answer t'' _
        cases answer with
        | error e' => exact nofun
        | ok m =>
            show Program.Ensures (S := fsSignature) Quietly
              (if m.isDir then Program.fail _ else Program.fail e) t'' _
            split <;> exact nofun
  · intro error made _ upload hupload
    cases hupload

theorem uploadStreaming_returns (hjoined : Joined t canonicalRoot target existing appended)
    (hjoin : (safeJoin root userPath).Stops Quietly t (.ok target) t) (nonce : FixedBytes 7)
    (chunkPaths : List Path) (total : Nat) (writeVerify : Bool) :
    (uploadStreaming P mimeFromFilename dataKey root nonce userPath chunkPaths total writeVerify).Ensures Quietly t
      fun result t' => ∀ upload, result = .ok upload → ∃ key made chunks segments, dataKey = .ok key ∧
        t.createDirs [] target.dropLast = .ok made ∧ made.createPlace target = .ok target ∧
        List.Forall₂ (ReadBeside made target) chunkPaths chunks ∧ chunks.flatten.length = total ∧
        sealSegments P (EncryptorBE32.new key nonce) chunks = some segments ∧
        t' = made.put target (.file (withHash P (streamContent nonce segments))) := by
  refine Program.Ensures.bind (prepareUpload_returns hjoin) ?_ ?_
  · intro prepared made hprepared
    obtain ⟨key, rfl, rfl, hmade⟩ := hprepared prepared rfl
    refine Program.Ensures.bind
      (streamEncryptChunksToFile_returns nonce chunkPaths total target writeVerify) ?_ ?_
    · intro u t' hwritten
      obtain ⟨place, chunks, segments, hplace, hchunks, htotal, hseal, rfl⟩ := hwritten u rfl
      obtain rfl : place = target := createPlace_joined hjoined hmade hplace
      refine (metadata_stops_of_fileAt (fileAt_put hplace _) _).ensures_bind ?_
      intro upload hupload
      cases hupload
      exact ⟨key, made, chunks, segments, rfl, hmade, hplace, hchunks, htotal, hseal, rfl⟩
    · intro error t' _ upload hupload
      cases hupload
  · intro error made _ upload hupload
    cases hupload

/-- A completion assembles the row it finds for its session. -/
theorem completeUpload_returns {crates : Crates} {config : AppConfig} {unlockState : UnlockState}
    {rows : List ChunkedUpload} {session : Session} {row : ChunkedUpload}
    (hrow : rows.find? (fun row => row.id = session.uploadId && row.targetType = session.targetType) = some row)
    (hjoined : Joined t canonicalRoot target existing appended)
    (hjoin : (safeJoin (targetRoot config session.targetType session.targetId) row.targetPath).Stops Quietly t
      (.ok target) t) (now : Int) (nonce : FixedBytes 7) (writeVerify : Bool) :
    (completeUpload crates config P unlockState now nonce session writeVerify).Ensures ServerQuietly (t, rows)
      fun result v' => ∀ upload, result = .ok upload → ∃ key chunks segments,
        chunks.length = toU32 row.totalChunks ∧ chunks.flatten.length = toU64 row.totalBytes ∧
        sealSegments P (EncryptorBE32.new key nonce) chunks = some segments ∧
        ∀ content, v'.1.node target = some (.file content) → content = withHash P (streamContent nonce segments) := by
  refine Program.Ensures.bind (requireSession_returns t rows now session) ?_ ?_
  · rintro found v ⟨rfl, hfound⟩
    obtain ⟨hload, -⟩ := hfound found rfl
    cases hrow.symm.trans hload
    refine Program.Ensures.bind (Program.Ensures.inl (keeps_of_readsOnly (checkChunksPresent_readsOnly _ 0) t)) ?_ ?_
    · rintro u ⟨t₁, rows₁⟩ ⟨rfl, rfl⟩
      rw [uploadTarget_eq]
      refine Program.Ensures.bind (Program.Ensures.inl (uploadStreaming_returns hjoined hjoin nonce _ _ writeVerify))
        ?_ ?_
      · rintro uploaded ⟨t₂, rows₂⟩ ⟨hupload, rfl⟩
        obtain ⟨key, made, chunks, segments, -, -, hplace, hchunks, htotal, hseal, rfl⟩ := hupload uploaded rfl
        -- The removal of the staged chunks can only take the file away.
        rintro removed ⟨t₃, rows₃⟩ ⟨⟨choice, -, hperform⟩, -⟩ deleted ⟨t₄, rows₄⟩ ⟨-, rfl⟩ upload -
        have hfile := fileAt_put hplace (withHash P (streamContent nonce segments))
        have hcount : chunks.length = toU32 row.totalChunks := by
          rw [← hchunks.length_eq, chunkPaths, List.length_map, List.length_range]
        refine ⟨key, chunks, segments, hcount, htotal, hseal, fun content hcontent => ?_⟩
        have hbefore : (made.put target (.file (withHash P (streamContent nonce segments)))).node target =
            some (.file content) := by
          rcases node_removeDirAll_cases hperform target with hsame | hnone
          · exact hsame.symm.trans hcontent
          · exact absurd (hnone.symm.trans hcontent) nofun
        exact Node.file.inj (Option.some.inj (hbefore.symm.trans (locate_of_fileAt hfile).2))
      · rintro error v - upload hupload
        cases hupload
    · rintro error v - upload hupload
      cases hupload
  · rintro error v - upload hupload
    cases hupload

end IronDrive
