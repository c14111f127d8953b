import IronDrive.ChunkCleanup

/-! The staging area while calls on its sessions are under way. A session's directory is made before its row, and
removed before its row is deleted. What is known of the directories and rows between two calls depends on how far each
call is with its session; one lemma for each kind of call says that this is kept. -/

namespace IronDrive

open Lib FileTree CryptoService FsService PathSafety

section Effects

variable {t : FileTree} {choice : Choice} {path p : Path}

/-- The calls that neither make nor remove directories. -/
def KeepsDirs : FsCall → Prop
  | .createDirAll _ | .removeDirAll _ => False
  | _ => True

theorem dir_put_file {place : Path} {content : Bytes} :
    (t.put place (.file content)).node p = some .dir ↔ t.node p = some .dir := by
  refine ⟨fun h => ?_, fun h => node_put_of_dir h _⟩
  by_cases hadmits : t.Admits place
  · rw [node_put hadmits] at h
    split at h
    · cases h
    · exact h
  · rwa [put, dif_neg hadmits] at h

theorem dir_perform {op : FsCall} (hop : KeepsDirs op) :
    (op.perform choice t).2.node p = some .dir ↔ t.node p = some .dir := by
  by_cases hread : op.ReadOnly
  · rw [perform_readOnly hread]
  cases op with
  | createDirAll _ | removeDirAll _ => exact hop.elim
  | create path =>
      simp only [FsCall.perform]
      cases choice.guard (t.createPlace path) with
      | error error => rfl
      | ok place => exact dir_put_file
  | createNew path =>
      simp only [FsCall.perform]
      cases choice.guard (t.createNewPlace path) with
      | error error => rfl
      | ok place => exact dir_put_file
  | writeAll place offset data =>
      simp only [FsCall.perform]
      split
      · exact dir_put_file
      · rfl
  | _ => exact absurd trivial hread

/-- Nothing takes the place of a link, where no directory is removed. -/
theorem symlink_perform {op : FsCall} (hop : ∀ path, op ≠ .removeDirAll path) {absolute : Bool} {target : List String}
    (h : t.node p = some (.symlink absolute target)) :
    (op.perform choice t).2.node p = some (.symlink absolute target) := by
  have hput : ∀ {place : Path} {content : Bytes}, t.node place ≠ some (.symlink absolute target) →
      (t.put place (.file content)).node p = some (.symlink absolute target) := by
    intro place content hplace
    rw [node_put_of_ne]
    · exact h
    · rintro rfl
      exact hplace h
  have hmade : ∀ names made, t.createDirs [] names = .ok made → made.node p = some (.symlink absolute target) :=
    fun names made hmade => ((extends_createDirs names hmade).symlink p absolute target).mpr h
  by_cases hread : op.ReadOnly
  · rwa [perform_readOnly hread]
  cases op with
  | removeDirAll path => exact absurd rfl (hop path)
  | createDirAll path =>
      cases hfault : choice.fault with
      | some message =>
          simp only [FsCall.perform, hfault]
          cases htake : t.createDirs [] (path.take choice.amount) with
          | error kind => exact h
          | ok made => exact hmade _ made htake
      | none =>
          simp only [FsCall.perform, hfault]
          cases hdirs : t.createDirs [] path with
          | error kind => exact h
          | ok made => exact hmade _ made hdirs
  | create path =>
      simp only [FsCall.perform]
      cases hplace : choice.guard (t.createPlace path) with
      | error error => exact h
      | ok place => exact hput ((admits_of_createPlace ((guard_accounted choice _).ok place hplace)).2.not_symlink _ _)
  | createNew path =>
      simp only [FsCall.perform]
      cases hplace : choice.guard (t.createNewPlace path) with
      | error error => exact h
      | ok place =>
          refine hput ?_
          have hnone := node_of_createNewPlace ((guard_accounted choice _).ok place hplace)
          rw [hnone]
          simp
  | writeAll place offset data =>
      simp only [FsCall.perform]
      split
      · next hfile => exact hput (by rw [hfile]; simp)
      · exact h
  | _ => exact absurd trivial hread

/-- Along a path without links `create_dir_all` makes directories on that path. -/
theorem dir_createDirAll (h : t.Straight path) (hquiet : choice.Quiet)
    (hdir : (FsCall.perform choice (.createDirAll path) t).2.node p = some .dir) :
    t.node p = some .dir ∨ p <+: path := by
  have hfault : choice.fault = none := hquiet
  simp only [FsCall.perform, hfault] at hdir
  cases hdirs : t.createDirs [] path with
  | error kind =>
      rw [hdirs] at hdir
      exact Or.inl hdir
  | ok made =>
      rw [hdirs] at hdir
      by_cases hon : p <+: path
      · exact Or.inr hon
      · rw [createDirs_on_straight path (by simpa using h) hdirs p (by simpa using hon)] at hdir
        exact Or.inl hdir

/-- `remove_dir_all` of a path without links removes what is there, and nothing elsewhere. -/
theorem removeDirAll_quietly (h : t.Straight path) (hpath : path ≠ []) (hquiet : choice.Quiet) :
    (FsCall.perform choice (.removeDirAll path) t).2.node path ≠ some .dir ∧
      ∀ p, ¬ path <+: p → (FsCall.perform choice (.removeDirAll path) t).2.node p = t.node p := by
  have hfault : choice.fault = none := hquiet
  have hplaces : ∀ place, FsCall.removalPlace t path = .ok place → place = path := by
    intro place hplace
    cases hloc : t.locateEntry path with
    | error kind => simp [FsCall.removalPlace, hloc, bind, Except.bind] at hplace
    | ok found =>
        simp only [FsCall.removalPlace, hloc, bind, Except.bind] at hplace
        split at hplace
        · cases hplace
        · cases hplace
          exact locateEntry_of_straight h hloc
        · cases hplace
  refine ⟨?_, fun p hp => ?_⟩
  · cases hplace : FsCall.removalPlace t path with
    | ok place =>
        obtain rfl := hplaces place hplace
        simp only [FsCall.perform, hplace, hfault]
        rw [node_removeAll_of_below hpath (List.prefix_refl _)]
        simp
    | error kind =>
        simp only [FsCall.perform, hplace, hfault]
        intro hdir
        have hentry := locateEntry_of_resolved (resolved_of_node h.ordinary hdir (by simp))
        simp [FsCall.removalPlace, hentry, hdir, bind, Except.bind, pure, Except.pure] at hplace
  · cases hperform : FsCall.perform choice (.removeDirAll path) t with
    | mk answer t' => exact node_removeDirAll hperform fun place hplace => by rwa [hplaces place hplace]

end Effects

namespace ChunkService

/-- What a call has done for its session, or is about to do. -/
inductive Stage
  /-- An id is drawn, and nothing is made under it yet. -/
  | drawing (id : String)
  /-- The directory is made, the row is not. -/
  | opening (id : String)
  /-- Rows with these ids were found. -/
  | holding (ids : List String)
  /-- Rows with these ids were found, to be dropped. -/
  | clearing (ids : List String)
  /-- The directory of one of them is gone; its row is deleted next. -/
  | retired (id : String) (ids : List String)

namespace Stage

/-- The id was drawn for a session that has no row yet. -/
def Draws (id : String) : Stage → Prop
  | drawing drawn | opening drawn => drawn = id
  | _ => False

/-- A row with the id was found. -/
def Holds (id : String) : Stage → Prop
  | holding ids | clearing ids => id ∈ ids
  | retired gone ids => gone = id ∨ id ∈ ids
  | _ => False

end Stage

/-- The session that a path is the staging directory of. -/
def stagedId (config : AppConfig) (path : Path) : Option String :=
  match path.getLast? with
  | some id => if path = stagingDir config id then some id else none
  | none => none

/-- Where a call's answer takes it. -/
def Stage.advance (config : AppConfig) : (op : serverSignature.Op) → serverSignature.Answer op → Stage → Stage
  | .inl (.createDirAll _), answer, .drawing id =>
      match (answer : Except IoError Unit) with
      | .ok () => .opening id
      | .error _ => .drawing id
  | .inl (.removeDirAll path), _, .holding ids | .inl (.removeDirAll path), _, .clearing ids =>
      match stagedId config path with
      | some id => .retired id ids
      | none => .clearing ids
  | .inl (.tryExists path), answer, .clearing ids =>
      match stagedId config path with
      | none => .clearing ids
      | some id =>
          match (answer : Except IoError Bool) with
          | .ok true => .clearing ids
          | _ => .retired id ids
  | .inr (.insert _), _, .opening _ => .holding []
  | .inr (.delete _), _, .retired _ ids => .clearing ids
  | .inr (.load id _), answer, .holding ids =>
      match (answer : Except SqlError (Option ChunkedUpload)) with
      | .ok (some _) => .holding (id :: ids)
      | _ => .holding ids
  | _, _, stage => stage

variable {crates : Crates} {config : AppConfig} {start t : FileTree} {rows : List ChunkedUpload}

theorem stagedId_stagingDir (id : String) : stagedId config (stagingDir config id) = some id := by
  simp [stagedId, stagingDir]

theorem stagingDir_of_stagedId {path : Path} {id : String} (h : stagedId config path = some id) :
    path = stagingDir config id := by
  unfold stagedId at h
  split at h
  · split at h
    · next heq =>
        cases h
        exact heq
    · cases h
  · cases h

theorem stagingDir_inj {id id' : String} (h : stagingDir config id = stagingDir config id') : id = id' := by
  simpa [stagingDir] using h

/-- Staging directories lie beside each other. -/
theorem stagingDir_above {id id' : String} (h : stagingDir config id <+: stagingDir config id') : id = id' :=
  stagingDir_inj (h.eq_of_length (by simp [stagingDir]))

/-- A path that is not in the staging area. -/
def Apart (config : AppConfig) (path : Path) : Prop := ¬ config.chunksDir <+: path

/-- What the answers tell of paths apart from the staging area, in terms of the links that were there at the start. -/
def Trusted (config : AppConfig) (start : FileTree) : (op : FsCall) → op.Answer → Prop
  | .canonicalize path, answer => ∀ place, (answer : Except IoError Path) = .ok place →
      (Apart config place → start.Straight place) ∧ (start.Straight path → place = path)
  | .symlinkMetadata path, answer => ∀ e, (answer : Except IoError Metadata) = .error e → e.kind = .notFound →
      path ≠ [] → start.Straight path.dropLast → ∀ p, path <+: p → Apart config p → (∀ name ∈ p, Ordinary name) →
        start.Straight p
  | _, _ => True

/-- The account of a call in the stage of its caller. -/
def Moves (config : AppConfig) (start : FileTree) (op : serverSignature.Op) (stage : Stage)
    (answer : serverSignature.Answer op) (stage' : Stage) : Prop :=
  Program.sumAnswers (Trusted config start) (fun _ _ => True) op answer ∧ stage' = stage.advance config op answer

/-- When a call may be made. Only a call that receives chunks makes the directory of a session that was found. -/
def Permits (config : AppConfig) (start : FileTree) (receives : Bool) : serverSignature.Op → Stage → Prop
  | .inl (.createDirAll path), stage =>
      (∃ id, stage = .drawing id ∧ path = stagingDir config id) ∨
      (receives = true ∧ ∃ id ids, stage = .holding ids ∧ id ∈ ids ∧ path = stagingDir config id) ∨
      ((∃ ids, stage = .holding ids) ∧ start.Straight path ∧ ∀ id, ¬ stagingDir config id <+: path)
  | .inl (.removeDirAll path), stage =>
      ∃ id ids, (stage = .holding ids ∨ stage = .clearing ids) ∧ id ∈ ids ∧ path = stagingDir config id
  | .inl (.tryExists path), stage => ∀ id, path = stagingDir config id → ∀ ids, stage = .clearing ids → id ∈ ids
  | .inr (.insert row), stage => stage = .opening row.id
  | .inr (.delete id), stage => ∃ ids, stage = .retired id ids
  | _, _ => True

theorem mem_of_load {id targetType : String} {row : ChunkedUpload}
    (h : rows.find? (fun row => row.id = id && row.targetType = targetType) = some row) : row ∈ rows ∧ row.id = id := by
  have hmatches := List.find?_some h
  rw [Bool.and_eq_true, decide_eq_true_eq] at hmatches
  exact ⟨List.mem_of_find?_eq_some h, hmatches.1⟩

theorem ids_of_setReceived (id : String) (n : Int) (rows : List ChunkedUpload) (id' : String) :
    (∃ r ∈ rows.map fun row => if row.id = id then { row with receivedChunks := n } else row, r.id = id') ↔
      ∃ r ∈ rows, r.id = id' := by
  have hid : ∀ row : ChunkedUpload,
      (if row.id = id then { row with receivedChunks := n } else row).id = row.id := by
    intro row
    split <;> rfl
  constructor
  · rintro ⟨row, hrow, rfl⟩
    obtain ⟨old, hold, rfl⟩ := List.mem_map.mp hrow
    exact ⟨old, hold, (hid old).symm⟩
  · rintro ⟨old, hold, rfl⟩
    exact ⟨_, List.mem_map_of_mem hold, hid old⟩

/-- The staging area: a directory without links, in which every directory has a row. -/
structure StagingArea (config : AppConfig) (t : FileTree) (rows : List ChunkedUpload) : Prop where
  ordinary : ∀ name ∈ config.chunksDir, Ordinary name
  dir : t.node config.chunksDir = some .dir
  unlinked : ∀ id absolute target, t.node (stagingDir config id) ≠ some (.symlink absolute target)
  ids : ∀ r ∈ rows, Ordinary r.id
  covered : ∀ id, t.node (stagingDir config id) = some .dir → ∃ r ∈ rows, r.id = id

variable {ι : Type} [DecidableEq ι] {views : ι → Stage}

/-- What is known of the staging area while calls are under way. -/
structure Accounted (config : AppConfig) (start t : FileTree) (rows : List ChunkedUpload) (views : ι → Stage) :
    Prop where
  links : ∀ p absolute target, t.node p = some (.symlink absolute target) →
    start.node p = some (.symlink absolute target)
  kept : ∀ p, Apart config p → ∀ absolute target, start.node p = some (.symlink absolute target) →
    t.node p = some (.symlink absolute target)
  dir : t.node config.chunksDir = some .dir
  ids : ∀ r ∈ rows, Ordinary r.id
  /-- A directory has a row, or is being opened. -/
  covered : ∀ id, t.node (stagingDir config id) = some .dir →
    (∃ r ∈ rows, r.id = id) ∨ ∃ i, views i = .opening id
  /-- What is retired stays away. -/
  retired : ∀ i id ids, views i = .retired id ids → t.node (stagingDir config id) ≠ some .dir
  /-- A drawn id is nobody else's. -/
  unborn : ∀ i id, (views i).Draws id → (∀ r ∈ rows, r.id ≠ id) ∧ ∀ j, ¬ (views j).Holds id
  single : ∀ i j id, (views i).Draws id → (views j).Draws id → i = j
  literal : ∀ i id, (views i).Draws id ∨ (views i).Holds id → Ordinary id

/-- A session whose row is there, and that no call is about to drop. -/
def Kept (rows : List ChunkedUpload) (views : ι → Stage) (id : String) : Prop :=
  (∃ r ∈ rows, r.id = id) ∧ ∀ i ids, views i ≠ .retired id ids

namespace Accounted

variable {i : ι} {t' : FileTree} {rows' opened : List ChunkedUpload} {choice : Choice}

omit [DecidableEq ι] in
theorem straight (h : Accounted config start t rows views) {path : Path} (hpath : start.Straight path) :
    t.Straight path :=
  ⟨hpath.ordinary, fun p hp absolute target hlink =>
    hpath.unlinked p hp absolute target (h.links p absolute target hlink)⟩

omit [DecidableEq ι] in
theorem straight_start (h : Accounted config start t rows views) {path : Path} (hapart : Apart config path)
    (hpath : t.Straight path) : start.Straight path where
  ordinary := hpath.ordinary
  unlinked p hp absolute target hlink :=
    hpath.unlinked p hp absolute target (h.kept p (fun hin => hapart (hin.trans hp)) absolute target hlink)

omit [DecidableEq ι] in
/-- A tree with no new link, and no new directory in the staging area but for those being opened. -/
theorem of_tree (h : Accounted config start t rows views)
    (hlinks : ∀ p absolute target, t'.node p = some (.symlink absolute target) →
      t.node p = some (.symlink absolute target))
    (hkept : ∀ p, Apart config p → ∀ absolute target, t.node p = some (.symlink absolute target) →
      t'.node p = some (.symlink absolute target))
    (hdir : t'.node config.chunksDir = some .dir)
    (hdirs : ∀ id, t'.node (stagingDir config id) = some .dir →
      t.node (stagingDir config id) = some .dir ∨ (∃ i, views i = .opening id) ∨ Kept rows views id) :
    Accounted config start t' rows views where
  links p absolute target hlink := h.links p absolute target (hlinks p absolute target hlink)
  kept p hp absolute target hlink := hkept p hp absolute target (h.kept p hp absolute target hlink)
  dir := hdir
  ids := h.ids
  covered id hnew := by
    rcases hdirs id hnew with hold | hopening | hkept
    · exact h.covered id hold
    · exact Or.inr hopening
    · exact Or.inl hkept.1
  retired i id ids hview hnew := by
    rcases hdirs id hnew with hold | ⟨j, hopening⟩ | hkept
    · exact h.retired i id ids hview hold
    · refine (h.unborn j id ?_).2 i ?_
      · rw [hopening]
        rfl
      · rw [hview]
        exact Or.inl rfl
    · exact hkept.2 i ids hview
  unborn := h.unborn
  single := h.single
  literal := h.literal

/-- A call whose stage holds no more ids than before, or ids of rows. -/
theorem of_view (h : Accounted config start t rows views) {stage : Stage}
    (hdraws : ∀ id, stage.Draws id → (views i).Draws id)
    (hholds : ∀ id, stage.Holds id → (views i).Holds id ∨ ∃ r ∈ rows, r.id = id)
    (hretired : ∀ id ids, stage = .retired id ids → t.node (stagingDir config id) ≠ some .dir)
    (hopening : ∀ id, views i = .opening id → stage = .opening id) :
    Accounted config start t rows (Function.update views i stage) := by
  have hdraws' : ∀ j id, (Function.update views i stage j).Draws id → (views j).Draws id := by
    intro j id hj
    by_cases hij : j = i
    · subst hij
      rw [Function.update_self] at hj
      exact hdraws id hj
    · rwa [Function.update_of_ne hij] at hj
  have hholds' : ∀ j id, (Function.update views i stage j).Holds id →
      (views j).Holds id ∨ ∃ r ∈ rows, r.id = id := by
    intro j id hj
    by_cases hij : j = i
    · subst hij
      rw [Function.update_self] at hj
      exact hholds id hj
    · rw [Function.update_of_ne hij] at hj
      exact Or.inl hj
  refine ⟨h.links, h.kept, h.dir, h.ids, fun id hdir => ?_, fun j id ids hview => ?_, fun j id hj => ?_,
    fun j k id hj hk => h.single j k id (hdraws' j id hj) (hdraws' k id hk), fun j id hj => ?_⟩
  · rcases h.covered id hdir with hrow | ⟨j, hj⟩
    · exact Or.inl hrow
    · refine Or.inr ⟨j, ?_⟩
      by_cases hij : j = i
      · subst hij
        rw [Function.update_self]
        exact hopening id hj
      · rw [Function.update_of_ne hij]
        exact hj
  · by_cases hij : j = i
    · subst hij
      rw [Function.update_self] at hview
      exact hretired id ids hview
    · rw [Function.update_of_ne hij] at hview
      exact h.retired j id ids hview
  · obtain ⟨hnone, hheld⟩ := h.unborn j id (hdraws' j id hj)
    refine ⟨hnone, fun k hk => ?_⟩
    rcases hholds' k id hk with hold | ⟨r, hr, hid⟩
    · exact hheld k hold
    · exact hnone r hr hid
  · rcases hj with hj | hj
    · exact h.literal j id (Or.inl (hdraws' j id hj))
    · rcases hholds' j id hj with hold | ⟨r, hr, rfl⟩
      · exact h.literal j id (Or.inr hold)
      · exact h.ids r hr

omit [DecidableEq ι] in
/-- Other rows with the same ids. -/
theorem of_rows (h : Accounted config start t rows views)
    (hids : ∀ id, (∃ r ∈ rows', r.id = id) ↔ ∃ r ∈ rows, r.id = id) : Accounted config start t rows' views where
  links := h.links
  kept := h.kept
  dir := h.dir
  ids r hr := by
    obtain ⟨old, hold, hid⟩ := (hids r.id).mp ⟨r, hr, rfl⟩
    rw [← hid]
    exact h.ids old hold
  covered id hdir := by
    rw [hids id]
    exact h.covered id hdir
  retired := h.retired
  unborn i id hdraws := by
    obtain ⟨hnone, hheld⟩ := h.unborn i id hdraws
    refine ⟨fun r hr hid => ?_, hheld⟩
    obtain ⟨old, hold, hold'⟩ := (hids id).mp ⟨r, hr, hid⟩
    exact hnone old hold hold'
  single := h.single
  literal := h.literal

/-- The row of a session that is being opened. -/
theorem of_insert (h : Accounted config start t rows views) {row : ChunkedUpload} (hview : views i = .opening row.id) :
    Accounted config start t (rows ++ [row]) (Function.update views i (.holding [])) := by
  have hdraws : ∀ j id, (Function.update views i (.holding []) j).Draws id → j ≠ i ∧ (views j).Draws id := by
    intro j id hj
    by_cases hij : j = i
    · subst hij
      rw [Function.update_self] at hj
      exact hj.elim
    · rw [Function.update_of_ne hij] at hj
      exact ⟨hij, hj⟩
  have hholds : ∀ j id, (Function.update views i (.holding []) j).Holds id → (views j).Holds id := by
    intro j id hj
    by_cases hij : j = i
    · subst hij
      rw [Function.update_self] at hj
      cases hj
    · rwa [Function.update_of_ne hij] at hj
  have hdrawn : (views i).Draws row.id := by
    rw [hview]
    rfl
  refine ⟨h.links, h.kept, h.dir, fun r hr => ?_, fun id hdir => ?_, fun j id ids hretired => ?_, fun j id hj => ?_,
    fun j k id hj hk => h.single j k id (hdraws j id hj).2 (hdraws k id hk).2, fun j id hj => ?_⟩
  · rcases List.mem_append.mp hr with hold | hnew
    · exact h.ids r hold
    · rw [List.mem_singleton.mp hnew]
      exact h.literal i row.id (Or.inl hdrawn)
  · rcases h.covered id hdir with ⟨r, hr, hid⟩ | ⟨j, hj⟩
    · exact Or.inl ⟨r, List.mem_append_left _ hr, hid⟩
    · by_cases hij : j = i
      · subst hij
        rw [hview] at hj
        cases hj
        exact Or.inl ⟨row, by simp, rfl⟩
      · exact Or.inr ⟨j, by rw [Function.update_of_ne hij]; exact hj⟩
  · by_cases hij : j = i
    · subst hij
      rw [Function.update_self] at hretired
      cases hretired
    · rw [Function.update_of_ne hij] at hretired
      exact h.retired j id ids hretired
  · obtain ⟨hij, hold⟩ := hdraws j id hj
    obtain ⟨hnone, hheld⟩ := h.unborn j id hold
    refine ⟨fun r hr hid => ?_, fun k hk => hheld k (hholds k id hk)⟩
    rcases List.mem_append.mp hr with hr | hr
    · exact hnone r hr hid
    · rw [List.mem_singleton.mp hr] at hid
      subst hid
      exact hij (h.single j i row.id hold hdrawn)
  · rcases hj with hj | hj
    · exact h.literal j id (Or.inl (hdraws j id hj).2)
    · exact h.literal j id (Or.inr (hholds j id hj))

/-- The row of a session whose directory is gone is deleted. -/
theorem of_delete (h : Accounted config start t rows views) {id : String} {ids : List String}
    (hview : views i = .retired id ids) :
    Accounted config start t (rows.filter fun r => r.id ≠ id) (Function.update views i (.clearing ids)) := by
  have hrows : Accounted config start t (rows.filter fun r => r.id ≠ id) views := by
    refine ⟨h.links, h.kept, h.dir, fun r hr => h.ids r (List.mem_of_mem_filter hr), fun id' hdir => ?_, h.retired,
      fun j id' hj => ?_, h.single, h.literal⟩
    · rcases h.covered id' hdir with ⟨r, hr, rfl⟩ | hopening
      · refine Or.inl ⟨r, List.mem_filter.mpr ⟨hr, decide_eq_true fun heq => ?_⟩, rfl⟩
        rw [heq] at hdir
        exact h.retired i id ids hview hdir
      · exact Or.inr hopening
    · obtain ⟨hnone, hheld⟩ := h.unborn j id' hj
      exact ⟨fun r hr => hnone r (List.mem_of_mem_filter hr), hheld⟩
  refine hrows.of_view (fun _ hdraws => hdraws.elim) (fun id' hholds => Or.inl ?_) nofun (fun _ hopening => ?_)
  · rw [hview]
    exact Or.inr hholds
  · rw [hview] at hopening
    cases hopening

omit [DecidableEq ι] in
/-- What is apart from the staging area resolves as the links of the start have it. -/
theorem trusted_perform (h : Accounted config start t rows views) (choice : Choice) (op : FsCall) :
    Trusted config start op (op.perform choice t).1 := by
  cases op with
  | canonicalize path =>
      intro place hplace
      have hcanon : t.canonicalize path = .ok place := (guard_accounted choice _).ok place hplace
      exact ⟨fun hapart => h.straight_start hapart (straight_of_resolved (canonicalize_resolved hcanon).1),
        fun hpath => canonicalize_of_straight (h.straight hpath) hcanon⟩
  | symlinkMetadata path =>
      intro e he hkind hpath hparent p hp hapart hord
      have hstat : FsCall.lstat t path = .error .notFound := (guard_accounted choice _).notFound e he hkind
      obtain ⟨parent, name, rfl⟩ : ∃ parent name, path = parent ++ [name] :=
        ⟨path.dropLast, path.getLast hpath, (List.dropLast_append_getLast hpath).symm⟩
      rw [List.dropLast_concat] at hparent
      have hnone : t.node (parent ++ [name]) = none := by
        by_contra hnode
        have hdir : t.node parent = some .dir := node_above (List.prefix_append _ _) (by simp) hnode
        have hresolved : t.Resolved parent := resolved_of_node hparent.ordinary hdir (by simp)
        exact hnode (lstat_eq_notFound hresolved (by rw [hdir]; simp) hstat).2
      refine h.straight_start hapart ⟨hord, fun q hq absolute target hlink => ?_⟩
      rcases List.prefix_or_prefix_of_prefix hq hp with habove | hbelow
      · rcases List.prefix_concat_iff.mp habove with rfl | hq
        · rw [hnone] at hlink
          cases hlink
        · exact (h.straight hparent).unlinked q hq absolute target hlink
      · obtain ⟨rest, rfl⟩ := hbelow
        by_cases hrest : rest = []
        · rw [hrest, List.append_nil, hnone] at hlink
          cases hlink
        · rw [node_append_of_not_dir (by rw [hnone]; simp) hrest] at hlink
          cases hlink
  | _ => trivial

omit [DecidableEq ι] in
theorem straight_stagingDir (h : Accounted config start t rows views) (harea : StagingArea config start opened)
    {id : String} (hid : Ordinary id) : t.Straight (stagingDir config id) := by
  refine ⟨fun name hname => ?_, fun p hp absolute target hlink => ?_⟩
  · rcases List.mem_append.mp hname with hname | hname
    · exact harea.ordinary name hname
    · rw [List.mem_singleton.mp hname]
      exact hid
  · rcases List.prefix_concat_iff.mp hp with rfl | hp
    · exact harea.unlinked id absolute target (h.links _ absolute target hlink)
    · rw [node_above_dir hp h.dir] at hlink
      cases hlink

omit [DecidableEq ι] in
/-- The directories made along a path without links. -/
theorem of_createDirAll (h : Accounted config start t rows views) {path : Path} (hpath : t.Straight path)
    (hquiet : choice.Quiet)
    (hopened : ∀ id, stagingDir config id <+: path → (∃ i, views i = .opening id) ∨ Kept rows views id) :
    Accounted config start (FsCall.perform choice (.createDirAll path) t).2 rows views := by
  refine h.of_tree (fun p absolute target hlink => symlink_of_perform _ hlink)
    (fun p _ absolute target hlink => symlink_perform (by simp) hlink) ?_ fun id hdir => ?_
  · have hfault : choice.fault = none := hquiet
    simp only [FsCall.perform, hfault]
    cases hdirs : t.createDirs [] path with
    | error kind => exact h.dir
    | ok made => exact (extends_createDirs path hdirs).dir _ h.dir
  · exact (dir_createDirAll hpath hquiet hdir).imp_right (hopened id)

omit [DecidableEq ι] in
/-- The removal of a staging directory. -/
theorem of_removeDirAll (h : Accounted config start t rows views) (harea : StagingArea config start opened)
    {id : String} (hid : Ordinary id) (hquiet : choice.Quiet) :
    Accounted config start (FsCall.perform choice (.removeDirAll (stagingDir config id)) t).2 rows views ∧
      (FsCall.perform choice (.removeDirAll (stagingDir config id)) t).2.node (stagingDir config id) ≠ some .dir := by
  obtain ⟨hgone, hkept⟩ := removeDirAll_quietly (h.straight_stagingDir harea hid) (by simp [stagingDir]) hquiet
  refine ⟨h.of_tree (fun p absolute target hlink => symlink_of_perform _ hlink) (fun p hp absolute target hlink => ?_)
    ?_ fun id' hdir => ?_, hgone⟩
  · rw [hkept p fun hbelow => hp ((List.prefix_append _ _).trans hbelow)]
    exact hlink
  · rw [hkept config.chunksDir fun hbelow => absurd hbelow.length_le (by simp [stagingDir])]
    exact h.dir
  · by_cases hsame : id = id'
    · subst hsame
      exact absurd hdir hgone
    · rw [hkept _ fun hbelow => hsame (stagingDir_above hbelow)] at hdir
      exact Or.inl hdir

/-- The call that makes a directory: of a session that is opened, of one whose directory is there or that is kept, or
apart from the staging directories. -/
theorem step_createDirAll (h : Accounted config start t rows views) (harea : StagingArea config start opened)
    (hquiet : choice.Quiet) {path : Path} {receives : Bool}
    (hop : Permits config start receives (.inl (.createDirAll path)) (views i))
    (hfound : receives = true → ∀ id, (views i).Holds id → path = stagingDir config id →
      t.node path = some .dir ∨ Kept rows views id) :
    Accounted config start (FsCall.perform choice (.createDirAll path) t).2 rows
      (Function.update views i
        ((views i).advance config (.inl (.createDirAll path)) (FsCall.perform choice (.createDirAll path) t).1)) := by
  have hfault : choice.fault = none := hquiet
  rcases hop with ⟨id, hview, rfl⟩ | ⟨hreceives, id, ids, hview, hmem, rfl⟩ | ⟨⟨ids, hview⟩, hstart, hout⟩
  · have hid : Ordinary id := h.literal i id (Or.inl (by rw [hview]; rfl))
    have hopening : Accounted config start t rows (Function.update views i (.opening id)) := by
      refine h.of_view (fun id' hdraws => ?_) (fun _ hholds => hholds.elim) nofun fun _ hold => ?_
      · rw [hview]
        exact hdraws
      · rw [hview] at hold
        cases hold
    have hmade := hopening.of_createDirAll (h.straight_stagingDir harea hid) hquiet fun id' hbelow =>
      Or.inl ⟨i, by rw [Function.update_self, stagingDir_above hbelow]⟩
    rw [hview]
    simp only [FsCall.perform, hfault] at hmade ⊢
    cases hdirs : t.createDirs [] (stagingDir config id) with
    | error kind =>
        show Accounted config start t rows (Function.update views i (.drawing id))
        rwa [← hview, Function.update_eq_self]
    | ok made =>
        rw [hdirs] at hmade
        exact hmade
  · have hid : Ordinary id := h.literal i id (Or.inr (by rw [hview]; exact hmem))
    have hstraight := h.straight_stagingDir harea hid
    have hstage : (views i).advance config (.inl (.createDirAll (stagingDir config id)))
        (FsCall.perform choice (.createDirAll (stagingDir config id)) t).1 = views i := by
      rw [hview]
      rfl
    rw [hstage, Function.update_eq_self]
    rcases hfound hreceives id (by rw [hview]; exact hmem) rfl with hnode | hkept
    · simp only [FsCall.perform, hfault,
        createDirs_of_dir (resolved_of_node hstraight.ordinary hnode (by simp)) hnode]
      exact h
    · refine h.of_createDirAll hstraight hquiet fun id' hbelow => Or.inr ?_
      rw [stagingDir_above hbelow]
      exact hkept
  · rw [hview]
    show Accounted config start _ rows (Function.update views i (.holding ids))
    rw [← hview, Function.update_eq_self]
    exact h.of_createDirAll (h.straight hstart) hquiet fun id hbelow => absurd hbelow (hout id)

/-- The directory of a session whose row was found is gone. -/
theorem of_retired (h : Accounted config start t rows views) {id : String} {ids : List String}
    (hview : views i = .holding ids ∨ views i = .clearing ids) (hmem : id ∈ ids)
    (hgone : t.node (stagingDir config id) ≠ some .dir) :
    Accounted config start t rows (Function.update views i (.retired id ids)) := by
  have hholds : ∀ id' ∈ ids, (views i).Holds id' := by
    intro id' hmem'
    rcases hview with hview | hview
    · rw [hview]
      exact hmem'
    · rw [hview]
      exact hmem'
  refine h.of_view (fun _ hdraws => hdraws.elim) (fun id' hretired => Or.inl ?_) (fun id' ids' heq => ?_)
    fun _ hopening => ?_
  · rcases hretired with rfl | hmem'
    · exact hholds _ hmem
    · exact hholds id' hmem'
  · cases heq
    exact hgone
  · rcases hview with hview | hview
    · rw [hview] at hopening
      cases hopening
    · rw [hview] at hopening
      cases hopening

theorem step_removeDirAll (h : Accounted config start t rows views) (harea : StagingArea config start opened)
    (hquiet : choice.Quiet) {path : Path} {receives : Bool}
    (hop : Permits config start receives (.inl (.removeDirAll path)) (views i)) :
    Accounted config start (FsCall.perform choice (.removeDirAll path) t).2 rows
      (Function.update views i
        ((views i).advance config (.inl (.removeDirAll path)) (FsCall.perform choice (.removeDirAll path) t).1)) := by
  obtain ⟨id, ids, hview, hmem, rfl⟩ := hop
  have hid : Ordinary id := by
    refine h.literal i id (Or.inr ?_)
    rcases hview with hview | hview
    · rw [hview]
      exact hmem
    · rw [hview]
      exact hmem
  obtain ⟨hafter, hgone⟩ := h.of_removeDirAll harea hid hquiet
  have hstage : (views i).advance config (.inl (.removeDirAll (stagingDir config id)))
      (FsCall.perform choice (.removeDirAll (stagingDir config id)) t).1 = .retired id ids := by
    rcases hview with hview | hview
    · simp only [hview, Stage.advance, stagedId_stagingDir]
    · simp only [hview, Stage.advance, stagedId_stagingDir]
  rw [hstage]
  exact hafter.of_retired hview hmem hgone

/-- The cleanup finds no directory where there is none. -/
theorem step_tryExists (h : Accounted config start t rows views) (harea : StagingArea config start opened)
    (hquiet : choice.Quiet) {path : Path} {receives : Bool}
    (hop : Permits config start receives (.inl (.tryExists path)) (views i)) :
    Accounted config start t rows (Function.update views i
      ((views i).advance config (.inl (.tryExists path)) (FsCall.perform choice (.tryExists path) t).1)) := by
  cases hview : views i with
  | clearing ids =>
      have hkept : Accounted config start t rows (Function.update views i (.clearing ids)) := by
        rwa [← hview, Function.update_eq_self]
      cases hstaged : stagedId config path with
      | none =>
          simp only [Stage.advance, hstaged]
          exact hkept
      | some id =>
          have hpath := stagingDir_of_stagedId hstaged
          have hmem : id ∈ ids := hop id hpath ids hview
          have hretired : (FsCall.perform choice (.tryExists path) t).1 ≠ .ok true →
              Accounted config start t rows (Function.update views i (.retired id ids)) := by
            refine fun hnot => h.of_retired (Or.inr hview) hmem fun hdir => hnot ?_
            have hid : Ordinary id := h.literal i id (Or.inr (by rw [hview]; exact hmem))
            have hresolved : t.Resolved (stagingDir config id) :=
              resolved_of_node (h.straight_stagingDir harea hid).ordinary hdir (by simp)
            have hstat : FsCall.exists? t path = .ok true := by
              rw [hpath]
              simp [FsCall.exists?, FsCall.stat, locate_of_resolved hresolved, hdir, bind, Except.bind,
                pure, Except.pure]
            show choice.guard (FsCall.exists? t path) = .ok true
            rw [guard_of_quiet hquiet, hstat]
            rfl
          simp only [Stage.advance, hstaged]
          cases hanswer : (FsCall.perform choice (.tryExists path) t).1 with
          | error e => exact hretired fun heq => by rw [hanswer] at heq; cases heq
          | ok found =>
              cases found with
              | true => exact hkept
              | false => exact hretired fun heq => by rw [hanswer] at heq; cases heq
  | _ =>
      simp only [Stage.advance]
      rwa [← hview, Function.update_eq_self]

omit [DecidableEq ι] in
theorem of_keepsDirs (h : Accounted config start t rows views) {op : FsCall} (hop : KeepsDirs op) :
    Accounted config start (op.perform choice t).2 rows views := by
  refine h.of_tree (fun p absolute target hlink => symlink_of_perform _ hlink)
    (fun p _ absolute target hlink => symlink_perform ?_ hlink) ?_ fun id hdir => ?_
  · rintro path rfl
    exact hop
  · exact (dir_perform hop).mpr h.dir
  · exact Or.inl ((dir_perform hop).mp hdir)

/-- A call on the disk. Of a call that receives a chunk, the directory that it makes is there, or kept. -/
theorem step_disk (h : Accounted config start t rows views) (harea : StagingArea config start opened)
    (hquiet : choice.Quiet) {op : FsCall} {receives : Bool} (hop : Permits config start receives (.inl op) (views i))
    (hfound : receives = true → ∀ id, (views i).Holds id → op = .createDirAll (stagingDir config id) →
      t.node (stagingDir config id) = some .dir ∨ Kept rows views id) :
    Accounted config start (op.perform choice t).2 rows
      (Function.update views i ((views i).advance config (.inl op) (op.perform choice t).1)) := by
  cases op with
  | createDirAll path =>
      refine h.step_createDirAll harea hquiet hop fun hreceives id hholds hpath => ?_
      subst hpath
      exact hfound hreceives id hholds rfl
  | removeDirAll path => exact h.step_removeDirAll harea hquiet hop
  | tryExists path => exact h.step_tryExists harea hquiet hop
  | _ =>
      simp only [Stage.advance, Function.update_eq_self]
      exact h.of_keepsDirs (by trivial)

/-- A statement. -/
theorem step_statement (h : Accounted config start t rows views) {op : UploadsCall} {receives : Bool}
    (hop : Permits config start receives (.inr op) (views i)) :
    Accounted config start t (op.perform none rows).2
      (Function.update views i ((views i).advance config (.inr op) (op.perform none rows).1)) := by
  cases op with
  | load id targetType =>
      simp only [UploadsCall.perform]
      cases hview : views i with
      | holding ids =>
          have hkept : Accounted config start t rows (Function.update views i (.holding ids)) := by
            rwa [← hview, Function.update_eq_self]
          cases hfind : rows.find? (fun row => row.id = id && row.targetType = targetType) with
          | none => exact hkept
          | some row =>
              refine h.of_view (fun _ hdraws => hdraws.elim) (fun id' hholds => ?_) (fun _ _ heq => by cases heq)
                fun _ hopening => ?_
              · rcases List.mem_cons.mp hholds with rfl | hold
                · exact Or.inr ⟨row, mem_of_load hfind⟩
                · rw [hview]
                  exact Or.inl hold
              · rw [hview] at hopening
                cases hopening
      | _ =>
          simp only [Stage.advance]
          rwa [← hview, Function.update_eq_self]
  | insert row =>
      have hview : views i = .opening row.id := hop
      have hnew : (rows.any fun old => old.id = row.id) = false := by
        simpa using (h.unborn i row.id (by rw [hview]; rfl)).1
      simp only [UploadsCall.perform, hnew]
      rw [hview]
      exact h.of_insert hview
  | setReceived id n =>
      simp only [Stage.advance, Function.update_eq_self, UploadsCall.perform]
      exact h.of_rows fun id' => ids_of_setReceived id n rows id'
  | delete id =>
      obtain ⟨ids, hview⟩ := hop
      rw [hview]
      exact h.of_delete hview

end Accounted

/-- A call that removes the directory, or finds that it is not there. -/
def drops (path : Path) : Event chunkSignature → Bool
  | ⟨.inl (.inl (.removeDirAll removed)), _⟩ => removed = path
  | ⟨.inl (.inl (.tryExists sought)), answer⟩ => sought = path && (answer : Except IoError Bool).toOption != some true
  | _ => false

def Dropped (config : AppConfig) (past : List (ι × Event chunkSignature)) (id : String) : Prop :=
  (past.any fun event => drops (stagingDir config id) event.2) = true

/-- A row that was found is there, or its directory has been dropped. -/
structure Remembered (config : AppConfig) (past : List (ι × Event chunkSignature)) (rows : List ChunkedUpload)
    (views : ι → Stage) : Prop where
  retired : ∀ i id ids, views i = .retired id ids → Dropped config past id
  held : ∀ i id, (views i).Holds id → (∃ r ∈ rows, r.id = id) ∨ Dropped config past id

omit [DecidableEq ι] in
theorem Remembered.kept {past : List (ι × Event chunkSignature)} (h : Remembered config past rows views) {i : ι}
    {id : String} (hholds : (views i).Holds id) (hnot : ¬ Dropped config past id) : Kept rows views id :=
  ⟨(h.held i id hholds).resolve_right hnot, fun j ids hview => hnot (h.retired j id ids hview)⟩

/-- Where an answer to any call takes the caller. -/
def Stage.next (config : AppConfig) : (op : chunkSignature.Op) → chunkSignature.Answer op → Stage → Stage
  | .inl op, answer, stage => stage.advance config op answer
  | .inr (.selectExpired _), answer, .holding ids =>
      match (answer : Except SqlError (List String)) with
      | .ok found => .clearing found
      | .error _ => .holding ids
  | .inr (.selectExpired _), _, stage => stage

def ChunkPermits (config : AppConfig) (start : FileTree) (receives : Bool) : chunkSignature.Op → Stage → Prop
  | .inl op, stage => Permits config start receives op stage
  | .inr _, _ => True

variable {past : List (ι × Event chunkSignature)} {event : ι × Event chunkSignature} {i : ι}
  {rows' : List ChunkedUpload} {server : Server} {oracle : Nat → Choice} {stale : Nat → Option Bytes}
  {opened : List ChunkedUpload}

omit [DecidableEq ι] in
theorem dropped_snoc {id : String} (h : Dropped config past id) : Dropped config (past ++ [event]) id := by
  rw [Dropped, List.any_append, Bool.or_eq_true]
  exact Or.inl h

omit [DecidableEq ι] in
theorem dropped_last {id : String} (h : drops (stagingDir config id) event.2 = true) :
    Dropped config (past ++ [event]) id := by
  rw [Dropped, List.any_append, Bool.or_eq_true]
  exact Or.inr (by rw [List.any_cons, h]; rfl)

theorem Remembered.snoc (h : Remembered config past rows views) {stage : Stage}
    (hrows : ∀ id, (∃ r ∈ rows, r.id = id) → (∃ r ∈ rows', r.id = id) ∨ Dropped config (past ++ [event]) id)
    (hholds : ∀ id, stage.Holds id → (views i).Holds id ∨ ∃ r ∈ rows', r.id = id)
    (hretired : ∀ id ids, stage = .retired id ids → views i = stage ∨ Dropped config (past ++ [event]) id) :
    Remembered config (past ++ [event]) rows' (Function.update views i stage) := by
  have hheld : ∀ j id, (views j).Holds id → (∃ r ∈ rows', r.id = id) ∨ Dropped config (past ++ [event]) id := by
    intro j id hj
    rcases h.held j id hj with hrow | hdropped
    · exact hrows id hrow
    · exact Or.inr (dropped_snoc hdropped)
  refine ⟨fun j id ids hview => ?_, fun j id hj => ?_⟩
  · by_cases hij : j = i
    · subst hij
      rw [Function.update_self] at hview
      rcases hretired id ids hview with hsame | hdropped
      · exact dropped_snoc (h.retired j id ids (hsame.trans hview))
      · exact hdropped
    · rw [Function.update_of_ne hij] at hview
      exact dropped_snoc (h.retired j id ids hview)
  · by_cases hij : j = i
    · subst hij
      rw [Function.update_self] at hj
      exact (hholds id hj).elim (hheld j id) Or.inl
    · rw [Function.update_of_ne hij] at hj
      exact hheld j id hj

namespace Remembered

/-- A call after which its caller is where it was. -/
theorem stay (h : Remembered config past rows views) :
    Remembered config (past ++ [event]) rows (Function.update views i (views i)) :=
  h.snoc (fun _ => Or.inl) (fun _ => Or.inl) fun _ _ _ => Or.inl rfl

theorem step_disk (h : Remembered config past rows views) {receives : Bool} {op : FsCall} {answer : op.Answer}
    (hop : Permits config start receives (.inl op) (views i)) :
    Remembered config (past ++ [(i, ⟨.inl (.inl op), answer⟩)]) rows
      (Function.update views i ((views i).advance config (.inl op) answer)) := by
  cases op with
  | createDirAll path =>
      cases hview : views i with
      | drawing id =>
          cases answer with
          | ok u => exact h.snoc (fun _ => Or.inl) (fun _ hholds => hholds.elim) nofun
          | error e => exact h.snoc (fun _ => Or.inl) (fun _ hholds => hholds.elim) nofun
      | _ =>
          simp only [Stage.advance]
          rw [← hview]
          exact h.stay
  | removeDirAll path =>
      obtain ⟨id, ids, hview, hmem, rfl⟩ := hop
      have hholds : ∀ id' ∈ ids, (views i).Holds id' := by
        rcases hview with hview | hview <;> simp [hview, Stage.Holds]
      have hstage : (views i).advance config (.inl (.removeDirAll (stagingDir config id))) answer =
          .retired id ids := by
        rcases hview with hview | hview <;> simp only [hview, Stage.advance, stagedId_stagingDir]
      rw [hstage]
      refine h.snoc (fun _ => Or.inl) (fun id' hretired => Or.inl ?_) fun id' ids' heq => Or.inr ?_
      · rcases hretired with rfl | hmem'
        · exact hholds _ hmem
        · exact hholds id' hmem'
      · cases heq
        exact dropped_last (by simp [drops])
  | tryExists path =>
      cases hview : views i with
      | clearing ids =>
          have hstay : Remembered config (past ++ [(i, ⟨.inl (.inl (.tryExists path)), answer⟩)]) rows
              (Function.update views i (.clearing ids)) := by
            rw [← hview]
            exact h.stay
          cases hstaged : stagedId config path with
          | none =>
              simp only [Stage.advance, hstaged]
              exact hstay
          | some id =>
              have hpath := stagingDir_of_stagedId hstaged
              have hmem : id ∈ ids := hop id hpath ids hview
              have hretired : (answer : Except IoError Bool).toOption ≠ some true →
                  Remembered config (past ++ [(i, ⟨.inl (.inl (.tryExists path)), answer⟩)]) rows
                    (Function.update views i (.retired id ids)) := by
                intro hnot
                refine h.snoc (fun _ => Or.inl) (fun id' hholds => Or.inl ?_) fun id' ids' heq => Or.inr ?_
                · rw [hview]
                  rcases hholds with rfl | hmem'
                  · exact hmem
                  · exact hmem'
                · cases heq
                  exact dropped_last (by simp [drops, hpath, hnot])
              simp only [Stage.advance, hstaged]
              cases answer with
              | error e => exact hretired nofun
              | ok found =>
                  cases found with
                  | true => exact hstay
                  | false => exact hretired nofun
      | _ =>
          simp only [Stage.advance]
          rw [← hview]
          exact h.stay
  | _ => exact h.stay

theorem step_statement (h : Remembered config past rows views) {receives : Bool} {op : UploadsCall}
    (hop : Permits config start receives (.inr op) (views i)) :
    Remembered config (past ++ [(i, ⟨.inl (.inr op), (op.perform none rows).1⟩)]) (op.perform none rows).2
      (Function.update views i ((views i).advance config (.inr op) (op.perform none rows).1)) := by
  cases op with
  | load id targetType =>
      simp only [UploadsCall.perform]
      cases hview : views i with
      | holding ids =>
          cases hfind : rows.find? (fun row => row.id = id && row.targetType = targetType) with
          | none =>
              simp only [Stage.advance]
              rw [← hview]
              exact h.stay
          | some row =>
              refine h.snoc (fun _ => Or.inl) (fun id' hholds => ?_) fun _ _ heq => by cases heq
              rcases List.mem_cons.mp hholds with rfl | hold
              · exact Or.inr ⟨row, mem_of_load hfind⟩
              · rw [hview]
                exact Or.inl hold
      | _ =>
          simp only [Stage.advance]
          rw [← hview]
          exact h.stay
  | insert row =>
      have hview : views i = .opening row.id := hop
      rw [hview]
      refine h.snoc (fun id' hold => Or.inl ?_) (fun _ hholds => ?_) fun _ _ heq => by cases heq
      · obtain ⟨r, hr, hid⟩ := hold
        simp only [UploadsCall.perform]
        split
        · exact ⟨r, hr, hid⟩
        · exact ⟨r, List.mem_append_left _ hr, hid⟩
      · cases hholds
  | setReceived id n =>
      simp only [Stage.advance, UploadsCall.perform]
      exact h.snoc (fun id' hold => Or.inl ((ids_of_setReceived id n rows id').mpr hold)) (fun _ => Or.inl)
        fun _ _ _ => Or.inl rfl
  | delete id =>
      obtain ⟨ids, hview⟩ := hop
      rw [hview]
      refine h.snoc (fun id' hold => ?_) (fun id' hholds => Or.inl ?_) fun _ _ heq => by cases heq
      · by_cases hsame : id' = id
        · subst hsame
          exact Or.inr (dropped_snoc (h.retired i id' ids hview))
        · obtain ⟨r, hr, hid⟩ := hold
          exact Or.inl ⟨r, List.mem_filter.mpr ⟨hr, decide_eq_true (by rw [hid]; exact hsame)⟩, hid⟩
      · rw [hview]
        exact Or.inr hholds

/-- The cleanup's statement finds ids of rows. -/
theorem step_expired (h : Remembered config past rows views) (now : String) :
    Remembered config (past ++ [(i, ⟨.inr (.selectExpired now), ExpiredCall.perform none (.selectExpired now) rows⟩)])
      rows (Function.update views i
        ((views i).next config (.inr (.selectExpired now)) (ExpiredCall.perform none (.selectExpired now) rows))) := by
  cases hview : views i with
  | holding ids =>
      refine h.snoc (fun _ => Or.inl) (fun id hholds => Or.inr ?_) nofun
      obtain ⟨r, hr, hid⟩ := List.mem_map.mp hholds
      exact ⟨r, List.mem_of_mem_filter hr, hid⟩
  | _ =>
      simp only [Stage.next]
      rw [← hview]
      exact h.stay

end Remembered

theorem Accounted.step_expired (h : Accounted config start t rows views) (now : String) :
    Accounted config start t rows (Function.update views i
      ((views i).next config (.inr (.selectExpired now)) (ExpiredCall.perform none (.selectExpired now) rows))) := by
  cases hview : views i with
  | holding ids =>
      refine h.of_view (fun _ hdraws => hdraws.elim) (fun id hholds => Or.inr ?_) nofun fun _ hopening => ?_
      · obtain ⟨r, hr, hid⟩ := List.mem_map.mp hholds
        exact ⟨r, List.mem_of_mem_filter hr, hid⟩
      · rw [hview] at hopening
        cases hopening
  | _ =>
      simp only [Stage.next]
      rwa [← hview, Function.update_eq_self]

/-! ### Any call -/

/-- A call that receives a chunk, and makes the directory of its session, finds it there, unless no call has dropped it
so far. -/
def FindsStaging (receives : ι → Bool) (i : ι) (server : Server) (past : List (ι × Event chunkSignature)) :
    chunkSignature.Op → Prop
  | .inl (.inl (.createDirAll path)) => receives i = true →
      server.1.tree.node path = some .dir ∨ (past.any fun event => drops path event.2) = false
  | _ => True

/-- The account of a call in the stage of its caller. -/
def ChunkMoves (config : AppConfig) (start : FileTree) (op : chunkSignature.Op) (stage : Stage)
    (answer : chunkSignature.Answer op) (stage' : Stage) : Prop :=
  Program.sumAnswers (Program.sumAnswers (Trusted config start) fun _ _ => True) (fun _ _ => True) op answer ∧
    stage' = stage.next config op answer

/-- What holds between the calls of a run. -/
structure Tracked (config : AppConfig) (start : FileTree) (server : Server) (past : List (ι × Event chunkSignature))
    (views : ι → Stage) : Prop where
  accounted : Accounted config start server.1.tree server.2.rows views
  remembered : Remembered config past server.2.rows views

theorem advance_stale (oracle : Nat → Choice) (stale : Nat → Option Bytes) (op : FsCall) (disk : Disk) (stage : Stage) :
    stage.advance config (.inl op) (staleHandler oracle stale op disk).1 =
      stage.advance config (.inl op) (op.perform (oracle disk.tick) disk.tree).1 := by
  cases op with
  | read place offset limit => simp only [Stage.advance]
  | _ => rfl

/-- What any call keeps. -/
theorem Tracked.step (h : Tracked config start server past views) (harea : StagingArea config start opened)
    (hquiet : QuietOracle oracle) {receives : ι → Bool} {op : chunkSignature.Op}
    (hop : ChunkPermits config start (receives i) op (views i)) (hfinds : FindsStaging receives i server past op) :
    ∃ stage, ChunkMoves config start op (views i) (chunkHandler oracle stale (fun _ => none) op server).1 stage ∧
      Tracked config start (chunkHandler oracle stale (fun _ => none) op server).2
        (past ++ [(i, ⟨op, (chunkHandler oracle stale (fun _ => none) op server).1⟩)])
        (Function.update views i stage) := by
  refine ⟨_, ⟨?_, rfl⟩, ?_⟩
  · rcases op with (op | op) | op
    · exact staleHandler_answers (A := Trusted config start) (fun _ _ _ _ => trivial) stale
        (h.accounted.trusted_perform (oracle server.1.tick) op)
    · trivial
    · trivial
  · rcases op with (op | op) | op
    · refine ⟨?_, h.remembered.step_disk hop⟩
      show Accounted config start (staleHandler oracle stale op server.1).2.tree server.2.rows
        (Function.update views i ((views i).advance config (.inl op) (staleHandler oracle stale op server.1).1))
      rw [staleHandler_disk, advance_stale]
      refine h.accounted.step_disk harea (hquiet server.1.tick) hop fun hreceives id hholds hpath => ?_
      subst hpath
      refine (hfinds hreceives).imp_right fun hnot => h.remembered.kept hholds ?_
      rw [Dropped, hnot]
      simp
    · exact ⟨h.accounted.step_statement hop, h.remembered.step_statement hop⟩
    · cases op with
      | selectExpired now => exact ⟨h.accounted.step_expired now, h.remembered.step_expired now⟩

end ChunkService

end IronDrive
