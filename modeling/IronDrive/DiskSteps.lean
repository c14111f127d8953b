import IronDrive.UploadRace

/-! What any call can do to the entries of the tree: none makes a link, so a path on which there is no link stays
such a path, and what is missing on it comes back only by a call for that path. From this, the calls of the uploads
and what is known of their targets. -/

namespace IronDrive

open Lib FileTree PathSafety CryptoService FsService

section Calls

variable {t : FileTree} {choice : Choice} {path : Path}

theorem put_file_symlink {place p : Path} {content : Bytes} {absolute : Bool} {target : List String}
    (h : (t.put place (.file content)).node p = some (.symlink absolute target)) :
    t.node p = some (.symlink absolute target) := by
  by_cases hadmits : t.Admits place
  · rw [node_put hadmits] at h
    split at h
    · cases h
    · exact h
  · rwa [put, dif_neg hadmits] at h

/-- No call makes a link. -/
theorem symlink_of_perform (op : FsCall) {p : Path} {absolute : Bool} {target : List String}
    (h : (op.perform choice t).2.node p = some (.symlink absolute target)) :
    t.node p = some (.symlink absolute target) := by
  by_cases hread : op.ReadOnly
  · rwa [perform_readOnly hread] at h
  cases op with
  | createDirAll path =>
      have hmade : ∀ names made, t.createDirs [] names = .ok made →
          made.node p = some (.symlink absolute target) → t.node p = some (.symlink absolute target) :=
        fun names made hmade => ((extends_createDirs names hmade).symlink p absolute target).mp
      cases hfault : choice.fault with
      | some message =>
          simp only [FsCall.perform, hfault] at h
          cases htake : t.createDirs [] (path.take choice.amount) with
          | error kind => rwa [htake] at h
          | ok made =>
              rw [htake] at h
              exact hmade _ made htake h
      | none =>
          simp only [FsCall.perform, hfault] at h
          cases hdirs : t.createDirs [] path with
          | error kind => rwa [hdirs] at h
          | ok made =>
              rw [hdirs] at h
              exact hmade _ made hdirs h
  | removeDirAll path =>
      cases hperform : FsCall.perform choice (.removeDirAll path) t with
      | mk answer t' =>
          rw [hperform] at h
          rcases node_removeDirAll_cases hperform p with hsame | hnone
          · rwa [hsame] at h
          · rw [hnone] at h
            cases h
  | create path =>
      simp only [FsCall.perform] at h
      cases hplace : choice.guard (t.createPlace path) with
      | error error => rwa [hplace] at h
      | ok place =>
          rw [hplace] at h
          exact put_file_symlink h
  | createNew path =>
      simp only [FsCall.perform] at h
      cases hplace : choice.guard (t.createNewPlace path) with
      | error error => rwa [hplace] at h
      | ok place =>
          rw [hplace] at h
          exact put_file_symlink h
  | writeAll place offset data =>
      simp only [FsCall.perform] at h
      split at h
      · exact put_file_symlink h
      · exact h
  | _ => exact absurd trivial hread

theorem straight_perform (h : t.Straight path) (choice : Choice) (op : FsCall) :
    (op.perform choice t).2.Straight path where
  ordinary := h.ordinary
  unlinked p hp absolute target hlink := h.unlinked p hp absolute target (symlink_of_perform op hlink)

/-- Where no link is on the way, what `remove_dir_all` is asked to remove is gone when it returns `Ok`. -/
theorem missing_of_removeDirAll (h : t.Straight path) (hpath : path ≠ [])
    (hok : (FsCall.perform choice (.removeDirAll path) t).1 = .ok ()) :
    (FsCall.perform choice (.removeDirAll path) t).2.node path = none := by
  simp only [FsCall.perform] at hok ⊢
  cases hplace : FsCall.removalPlace t path with
  | error kind =>
      rw [hplace] at hok
      cases hfault : choice.fault with
      | none =>
          rw [hfault] at hok
          cases hok
      | some message =>
          rw [hfault] at hok
          cases hok
  | ok place =>
      rw [hplace] at hok
      cases hfault : choice.fault with
      | some message =>
          rw [hfault] at hok
          cases hok
      | none =>
          have hentry : t.locateEntry path = .ok place := by
            cases hloc : t.locateEntry path with
            | error kind => simp [FsCall.removalPlace, hloc, bind, Except.bind] at hplace
            | ok found =>
                simp only [FsCall.removalPlace, hloc, bind, Except.bind] at hplace
                split at hplace
                · cases hplace
                · exact congrArg Except.ok (Except.ok.inj hplace)
                · cases hplace
          cases locateEntry_of_straight h hentry
          exact node_removeAll_of_below hpath (List.prefix_refl _)

/-- The calls that can bring back what is missing at a path that no link diverts. -/
def Restores (path : Path) : FsCall → Prop
  | .createDirAll made => path <+: made
  | .create file | .createNew file => path = file
  | _ => False

/-- The calls for something on the path, or at it, or below it. -/
def Beside (path : Path) : FsCall → Prop
  | .createDirAll made => made <+: path ∨ path <+: made
  | .create file => path <+: file
  | .createNew _ => False
  | _ => True

theorem missing_put {place p : Path} (h : t.node p = none) (hne : p ≠ place) (n : Node) :
    (t.put place n).node p = none := by
  rw [node_put_of_ne hne, h]

/-- What is missing stays missing, unless a call restores it. -/
theorem missing_perform (h : t.Straight path) (hnone : t.node path = none) {op : FsCall} (hbeside : Beside path op)
    (hnot : ¬ Restores path op) : (op.perform choice t).2.node path = none := by
  by_cases hread : op.ReadOnly
  · rwa [perform_readOnly hread]
  cases op with
  | createDirAll made =>
      have habove : made <+: path := hbeside.resolve_right hnot
      have hkept : ∀ names made', names <+: path → names ≠ path → t.createDirs [] names = .ok made' →
          made'.node path = none := by
        intro names made' hpre hne hmade
        rw [createDirs_on_straight names (by simpa using h.upward hpre) hmade path ?_]
        · exact hnone
        · intro hback
          exact hne (hpre.eq_of_length_le (by simpa using hback.length_le))
      have hne : made ≠ path := by
        rintro rfl
        exact hnot (List.prefix_refl _)
      cases hfault : choice.fault with
      | some message =>
          simp only [FsCall.perform, hfault]
          cases htake : t.createDirs [] (made.take choice.amount) with
          | error kind => exact hnone
          | ok made' =>
              refine hkept _ made' ((List.take_prefix _ _).trans habove) (fun heq => ?_) htake
              have hlong : path <+: made := heq ▸ List.take_prefix choice.amount made
              exact hnot hlong
      | none =>
          simp only [FsCall.perform, hfault]
          cases hdirs : t.createDirs [] made with
          | error kind => exact hnone
          | ok made' => exact hkept _ made' habove hne hdirs
  | removeDirAll removed =>
      cases hperform : FsCall.perform choice (.removeDirAll removed) t with
      | mk answer t' =>
          rcases node_removeDirAll_cases hperform path with hsame | hgone
          · exact hsame.trans hnone
          · exact hgone
  | create file =>
      obtain ⟨rest, rfl⟩ := hbeside
      simp only [FsCall.perform]
      cases hplace : choice.guard (t.createPlace (path ++ rest)) with
      | error error => exact hnone
      | ok place =>
          have hloc := locate_of_createPlace ((guard_accounted choice _).ok place hplace)
          cases locate_of_missing h hnone hloc
          rw [List.append_nil] at hnot
          exact absurd rfl hnot
  | createNew file => exact hbeside.elim
  | writeAll place offset data =>
      simp only [FsCall.perform]
      cases hplace : t.node place with
      | none => exact hnone
      | some n =>
          cases n with
          | dir | symlink => exact hnone
          | file content =>
              refine missing_put hnone ?_ _
              rintro rfl
              rw [hplace] at hnone
              cases hnone
  | _ => exact absurd trivial hread

end Calls

/-- The handler of calls in runs that remove files while they are open. `stale` decides whether a read is through the
handle of a file that is gone, and then what the file held. -/
def staleHandler (oracle : Nat → Choice) (stale : Nat → Option Bytes) : Handler fsSignature Disk
  | .read place offset limit, disk =>
      match stale disk.tick with
      | some content =>
          ((oracle disk.tick).guard (.ok (FsCall.readSome (oracle disk.tick) limit (content.drop offset))),
            ⟨disk.tree, disk.tick + 1⟩)
      | none => fsHandler oracle (.read place offset limit) disk
  | op, disk => fsHandler oracle op disk

theorem staleHandler_disk (oracle : Nat → Choice) (stale : Nat → Option Bytes) (op : FsCall) (disk : Disk) :
    (staleHandler oracle stale op disk).2 = (fsHandler oracle op disk).2 := by
  cases op with
  | read place offset limit =>
      simp only [staleHandler]
      split <;> rfl
  | _ => rfl

/-- What is known of answers, and of a read's whatever it is, is known of these answers. -/
theorem staleHandler_answers {oracle : Nat → Choice} {A : (op : FsCall) → op.Answer → Prop}
    (hread : ∀ place offset limit answer, A (.read place offset limit) answer) (stale : Nat → Option Bytes)
    {op : FsCall} {disk : Disk} (h : A op (fsHandler oracle op disk).1) :
    A op (staleHandler oracle stale op disk).1 := by
  cases op with
  | read place offset limit => exact hread place offset limit _
  | _ => exact h

/-! ### What is known of the targets -/

section Targets

variable {A : (op : FsCall) → op.Answer → Prop} {N : FsCall → Prop} {R : Path → Prop} {root : Path}
  {P : Primitives} {mimeFromFilename : String → Option String}

/-- What answers tell of the targets joined to a root: the root resolves to itself only, what other paths resolve to
is in `R`, and what is missing below something in `R` is in `R` as well. -/
structure Leads (A : (op : FsCall) → op.Answer → Prop) (root : Path) (R : Path → Prop) : Prop where
  root_eq : ∀ place, A (.canonicalize root) (.ok place) → place = root ∧ R place
  resolved : ∀ path place, A (.canonicalize path) (.ok place) → root <+: place → R place
  missing : ∀ current component remaining e, A (.symlinkMetadata (current ++ [component])) (.error e) →
    e.kind = .notFound → R current → root <+: current → (∀ name ∈ component :: remaining, SafeName name) →
      R (current ++ [component] ++ remaining)

theorem walkComponents_within (h : Leads A root R) (components : List String) : ∀ {current : Path},
    (∀ name ∈ components, SafeName name) → R current → root <+: current →
      (walkComponents root current components).Within A FsCall.ReadOnly fun target => R target := by
  induction components with
  | nil => intro current _ hcurrent _; exact hcurrent
  | cons component remaining ih =>
      intro current hsafe hcurrent hunder
      refine ⟨trivial, fun answer hanswer => ?_⟩
      cases answer with
      | ok m =>
          refine ⟨trivial, fun answer' hanswer' => ?_⟩
          cases answer' with
          | error e => trivial
          | ok resolved =>
              show (if ¬ root <+: resolved then
                Program.fail (.validation (if m.isSymlink then "Path escapes the root directory via symlink."
                  else "Path escapes the root directory."))
                else walkComponents root resolved remaining).Within A FsCall.ReadOnly _
              by_cases hinside : root <+: resolved
              · rw [if_neg (not_not.mpr hinside)]
                exact ih (fun name hname => hsafe name (List.mem_cons_of_mem _ hname))
                  (h.resolved _ resolved hanswer' hinside) hinside
              · rw [if_pos hinside]
                trivial
      | error e =>
          show (if e.kind = .notFound then Program.done (current ++ [component] ++ remaining)
            else Program.fail (.validation ("Cannot read metadata for path component: " ++ e.message)) :
              FsProgram Path).Within A FsCall.ReadOnly _
          split_ifs with hkind
          · exact h.missing current component remaining e hanswer hkind hcurrent hunder hsafe
          · trivial

/-- The targets joined to the root lie below it. -/
theorem safeJoin_within (h : Leads A root R) (userPath : String) :
    (safeJoin root userPath).Within A FsCall.ReadOnly fun target => root <+: target ∧ R target := by
  unfold safeJoin
  cases hparse : parseUserPath userPath with
  | error e => trivial
  | ok components =>
      refine ⟨trivial, fun answer hanswer => ?_⟩
      cases answer with
      | error e => trivial
      | ok place =>
          obtain ⟨rfl, hroot⟩ := h.root_eq place hanswer
          refine (walkComponents_within h components (parseUserPath_ok hparse) hroot (List.prefix_refl _)).bind
            fun current hcurrent => ?_
          split_ifs with hunder
          · exact ⟨hunder, hcurrent⟩
          · trivial

theorem createDirectoryIn_within (hN : Lenient (fun _ => True) N) {userPath : String}
    (hjoin : (safeJoin root userPath).Within A FsCall.ReadOnly R)
    (hmake : ∀ target, R target → N (.createDirAll target)) :
    (createDirectoryIn root userPath).Within A N fun _ => True := by
  unfold createDirectoryIn
  split
  · trivial
  refine (hjoin.mono hN.reads fun _ => id).bind fun target htarget => ?_
  refine ⟨hmake target htarget, fun answer _ => ?_⟩
  cases answer with
  | ok u => trivial
  | error e =>
      refine ⟨hN.reads _ trivial, fun answer' _ => ?_⟩
      cases answer' with
      | error e' => trivial
      | ok m =>
          show (if ¬ m.isDir then Program.fail (.conflict "A file already exists at this path.")
            else Program.done userPath : FsProgram String).Within A N _
          split <;> trivial

theorem prepareUpload_within (hN : Lenient (fun _ => True) N) (dataKey : Except AppError DataKey) {userPath : String}
    (hjoin : (safeJoin root userPath).Within A FsCall.ReadOnly R)
    (hmake : ∀ target, R target → N (.createDirAll target.dropLast)) :
    (prepareUpload dataKey root userPath).Within A N fun prepared => R prepared.2 := by
  unfold prepareUpload
  split
  · trivial
  refine (Program.only_ofExcept _).within.bind fun key _ => ?_
  refine (hjoin.mono hN.reads fun _ => id).bind fun target htarget => ?_
  split_ifs
  · exact (fsCall_attempt_only (.createDirAll target.dropLast) (hmake target htarget) _ id).within.bind
      fun _ _ => htarget
  · exact htarget

theorem uploadOwned_within (hN : Lenient (fun _ => True) N) (dataKey : Except AppError DataKey)
    (nonce : FixedBytes 12) {userPath : String} (data : Bytes) (writeVerify : Bool)
    (hjoin : (safeJoin root userPath).Within A FsCall.ReadOnly R)
    (hmake : ∀ target, R target → N (.createDirAll target.dropLast))
    (hcreate : ∀ target, R target → N (.create target)) :
    (uploadOwned P mimeFromFilename dataKey root nonce userPath data writeVerify).Within A N fun _ => True := by
  refine (prepareUpload_within hN dataKey hjoin hmake).bind fun prepared htarget => ?_
  refine ((encryptAndWriteFileOwned_opensAt prepared.1 nonce data prepared.2 writeVerify).only hN
    (hcreate _ htarget)).within.outcome.bind fun written _ => ?_
  exact (hN.readsOnly (uploadOwned_rest prepared.2 userPath _ _ written)).within

theorem uploadStreaming_within (hN : Lenient (fun _ => True) N) (dataKey : Except AppError DataKey)
    (nonce : FixedBytes 7) {userPath : String} (chunkPaths : List Path) (total : Nat) (writeVerify : Bool)
    (hjoin : (safeJoin root userPath).Within A FsCall.ReadOnly R)
    (hmake : ∀ target, R target → N (.createDirAll target.dropLast))
    (hcreate : ∀ target, R target → N (.create target)) :
    (uploadStreaming P mimeFromFilename dataKey root nonce userPath chunkPaths total writeVerify).Within A N
      fun _ => True := by
  refine (prepareUpload_within hN dataKey hjoin hmake).bind fun prepared htarget => ?_
  refine ((streamEncryptChunksToFile_opensAt prepared.1 nonce chunkPaths total prepared.2 writeVerify).only hN
    (hcreate _ htarget)).within.bind fun _ _ => ?_
  exact (hN.readsOnly (metadata_readsOnly prepared.2 _)).within.bind fun _ _ => trivial

end Targets

end IronDrive
