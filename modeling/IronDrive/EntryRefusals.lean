import IronDrive.WalkerAgreement

/-! With which status a request on an entry is refused, in a run without faults on a tree without links: 400 where
the path is at fault, 404 where nothing is found, 409 where something stands in the way, 500 for a move into itself. -/

namespace IronDrive

open Lib FileTree PathSafety FsService CryptoService

variable {t t' : FileTree} {root place path : Path} {userPath : String} {α : Type} {status : Nat}

/-- If the program fails, it fails with this status. -/
def FailsWith (status : Nat) (result : Except AppError α) : Prop :=
  ∀ error, result = .error error → error.status = status

theorem failsWith_ok (value : α) : FailsWith status (.ok value) := by
  intro error h
  cases h

theorem failsWith_error {error : AppError} (h : error.status = status) :
    FailsWith status (.error error : Except AppError α) := by
  intro found hfound
  cases hfound
  exact h

theorem attempt_failsWith {onError : IoError → AppError} (h : ∀ e, (onError e).status = status)
    (answer : Except IoError α) :
    (attempt onError answer).Ensures Quietly t fun result _ => FailsWith status result := by
  cases answer with
  | ok value => exact failsWith_ok value
  | error e => exact failsWith_error (h e)

/-- A sequence fails with a status if both of its parts do. -/
theorem failsWith_bind {β : Type} {G : Choice → Prop} {program : FsProgram α} {f : α → FsProgram β}
    (hprogram : program.Ensures (Performs G) t fun result _ => FailsWith status result)
    (hf : ∀ value t', (f value).Ensures (Performs G) t' fun result _ => FailsWith status result) :
    (program.bind f).Ensures (Performs G) t fun result _ => FailsWith status result := by
  apply Program.Ensures.bind hprogram
  · intro value t' _
    exact hf value t'
  · intro error t' h
    exact failsWith_error (h error rfl)

theorem fsCall_failsWith {G : Choice → Prop} (op : FsCall) :
    (fsCall op).Ensures (Performs G) t fun result _ => FailsWith status result := fun answer _ _ => failsWith_ok answer

theorem validateComponent_failsWith (component : String) : FailsWith 400 (validateComponent component) := by
  intro error h
  simp only [validateComponent] at h
  split_ifs at h <;> cases h <;> rfl

theorem validateComponents_failsWith (components : List String) : FailsWith 400 (validateComponents components) := by
  induction components with
  | nil =>
      intro error h
      cases h
  | cons component rest ih =>
      intro error h
      cases hfirst : validateComponent component with
      | error found =>
          rw [validateComponents, hfirst] at h
          cases h
          exact validateComponent_failsWith component _ hfirst
      | ok value =>
          rw [validateComponents, hfirst] at h
          exact ih error h

theorem parseUserPath_failsWith (userPath : String) : FailsWith 400 (parseUserPath userPath) := by
  intro error h
  cases hcomponents : validateComponents (splitComponents userPath) with
  | error found =>
      simp only [parseUserPath, hcomponents] at h
      split_ifs at h <;> cases h
      · rfl
      · rfl
      · rfl
      · rfl
      · exact validateComponents_failsWith _ _ hcomponents
  | ok value =>
      simp only [parseUserPath, hcomponents] at h
      split_ifs at h <;> cases h <;> rfl

theorem walkComponents_failsWith (canonicalRoot : Path) (components : List String) : ∀ (t : FileTree) (current : Path),
    (walkComponents canonicalRoot current components).Ensures Quietly t fun result _ => FailsWith 400 result := by
  induction components with
  | nil =>
      intro t current
      exact failsWith_ok current
  | cons component remaining ih =>
      intro t current
      rw [walkComponents]
      apply failsWith_bind (fsCall_failsWith _)
      intro answer t'
      cases answer with
      | ok m =>
          apply failsWith_bind (fsCall_failsWith _)
          intro resolved t'
          refine failsWith_bind (attempt_failsWith ?_ resolved) ?_
          · exact fun _ => rfl
          intro found t'
          by_cases hinside : ¬ canonicalRoot <+: found
          · rw [if_pos hinside]
            exact failsWith_error rfl
          · rw [if_neg hinside]
            exact ih t' found
      | error e =>
          by_cases hkind : e.kind = .notFound
          · simp only [hkind, if_true]
            exact failsWith_ok _
          · simp only [hkind, if_false]
            exact failsWith_error rfl

theorem safeJoin_failsWith (t : FileTree) (root : Path) (userPath : String) :
    (safeJoin root userPath).Ensures Quietly t fun result _ => FailsWith 400 result := by
  unfold safeJoin
  apply Program.ensures_ofExcept_bind
  · intro components _
    apply failsWith_bind (fsCall_failsWith _)
    intro answer t'
    refine failsWith_bind (attempt_failsWith ?_ answer) ?_
    · exact fun _ => rfl
    intro canonicalRoot t'
    apply failsWith_bind (walkComponents_failsWith canonicalRoot components t' canonicalRoot)
    intro current t'
    by_cases hinside : ¬ canonicalRoot <+: current
    · rw [if_pos hinside]
      exact failsWith_error rfl
    · rw [if_neg hinside]
      exact failsWith_ok current
  · intro error herror
    exact failsWith_error (parseUserPath_failsWith userPath error herror)

/-- The program fails with the status, and the tree is as it was. -/
def Refuses (program : EntryProgram α) (t : FileTree) (status : Nat) : Prop :=
  ∃ error : AppError, error.status = status ∧ program.Stops EntryQuietly t (.error error) t

theorem Refuses.bind {β : Type} {program : EntryProgram α} (h : Refuses program t status) (f : α → EntryProgram β) :
    Refuses (program.bind f) t status := by
  obtain ⟨error, hstatus, hstops⟩ := h
  exact ⟨error, hstatus, hstops.bind_error⟩

theorem Refuses.after {β : Type} {program : EntryProgram α} {value : α} {f : α → EntryProgram β}
    (hstops : program.Stops EntryQuietly t (.ok value) t) (h : Refuses (f value) t status) :
    Refuses (program.bind f) t status := by
  obtain ⟨error, hstatus, hfails⟩ := h
  exact ⟨error, hstatus, hstops.bind hfails⟩

theorem refuses_fail {error : AppError} (h : error.status = status) :
    Refuses (Program.fail error : EntryProgram α) t status := ⟨error, h, Program.stops_fail error t⟩

/-- Among the entry calls, a program of the file API is refused as it is by itself. -/
theorem refuses_among {program : FsProgram α} {error : AppError} (hstatus : error.status = status)
    (h : program.Stops Quietly t (.error error) t) : Refuses (amongEntries program) t status :=
  ⟨error, hstatus, amongEntries_stops h⟩

/-- The status of a failure, read off a run. -/
theorem status_of_failsWith {program : FsProgram α} {error : AppError}
    (hstops : program.Stops Quietly t (.error error) t')
    (h : program.Ensures Quietly t fun result _ => FailsWith status result) : error.status = status := by
  have hdisk : (Disk.mk t 0).tree = t := rfl
  rw [← hdisk] at hstops h
  obtain ⟨hresult, -⟩ := run_of_stops calmOracle_quiet hstops
  exact run_of_ensures calmOracle_quiet h error hresult

theorem safeJoin_refuses (hfree : t.LinkFree) (hroot : t.canonicalize root = .ok place)
    (h : ¬ Accepts t place userPath) : Refuses (amongEntries (safeJoin root userPath)) t 400 := by
  obtain ⟨error, hstops⟩ := safeJoin_plain_rejects hfree hroot h
  exact refuses_among (status_of_failsWith hstops (safeJoin_failsWith t root userPath)) hstops

theorem stat_of_canonicalize_error {kind : IoErrorKind} (h : t.canonicalize path = .error kind) :
    FsCall.stat t path = .error kind := by
  cases hloc : t.locate path with
  | error found =>
      simp only [canonicalize, hloc, bind, Except.bind, Except.error.injEq] at h
      simp only [FsCall.stat, hloc, bind, Except.bind, h]
  | ok found =>
      cases hnode : t.node found with
      | none =>
          simp only [canonicalize, hloc, hnode, bind, Except.bind, if_true, throw, throwThe, MonadExceptOf.throw,
            Except.error.injEq] at h
          simp only [FsCall.stat, hloc, hnode, bind, Except.bind, throw, throwThe, MonadExceptOf.throw, h]
      | some n => simp [canonicalize, hloc, hnode, bind, Except.bind, pure, Except.pure] at h

/-- Nothing is found where nothing is and no file is on the way. -/
theorem canonicalize_of_passable (hfree : t.LinkFree) (names : List String) : ∀ {base : Path}, t.Resolved base →
    t.node base = some .dir → (∀ name ∈ names, Ordinary name) → Passable t base names →
      t.node (base ++ names) = none → t.canonicalize (base ++ names) = .error .notFound := by
  induction names with
  | nil =>
      intro base _ hdir _ _ hnone
      rw [List.append_nil, hdir] at hnone
      cases hnone
  | cons name rest ih =>
      intro base hbase hdir hord hpass hnone
      have hname := hord name (List.mem_cons_self ..)
      have hsplit : base ++ name :: rest = base ++ [name] ++ rest := by simp
      by_cases hmissing : t.node (base ++ [name]) = none
      · exact canonicalize_of_missing hbase hdir hname hmissing rest
      · have hrest : [name] ≠ name :: rest := by
          intro heq
          rw [← heq] at hnone
          exact hmissing hnone
        have hnext : t.node (base ++ [name]) = some .dir :=
          hfree.dir_of_no_file hmissing fun content => hpass [name] (by simp) hrest content
        rw [hsplit] at hnone ⊢
        exact ih (hbase.snoc hdir hname (hfree _)) hnext (fun n hn => hord n (List.mem_cons_of_mem _ hn)) hpass.tail
          hnone

theorem stat_missing (hfree : t.LinkFree) (hroot : t.canonicalize root = .ok place) (h : Accepts t place userPath)
    (hnone : t.node (place ++ splitComponents userPath) = none) :
    FsCall.stat t (place ++ splitComponents userPath) = .error .notFound :=
  stat_of_canonicalize_error (canonicalize_of_passable hfree _ (canonicalize_resolved hroot).1 (h.dir hfree hroot)
    (ordinary_of_wellFormed h.wellFormed) h.passable hnone)

theorem metadata_missing (hfree : t.LinkFree) (hroot : t.canonicalize root = .ok place) (h : Accepts t place userPath)
    (hnone : t.node (place ++ splitComponents userPath) = none) (onError : IoError → AppError) :
    (metadata (place ++ splitComponents userPath) onError).Stops Quietly t
      (.error (onError (IoError.ofKind .notFound))) t := by
  have hmeta := metadata_stops t (place ++ splitComponents userPath) onError
  rwa [stat_missing hfree hroot h hnone] at hmeta

theorem metadata_of_node (hstraight : t.Straight path) {n : Node} (hnode : t.node path = some n)
    (onError : IoError → AppError) : (metadata path onError).Stops Quietly t (.ok (Metadata.ofNode n)) t := by
  rcases metadata_plain hstraight onError with ⟨m, hm, hmeta⟩ | ⟨hnone, -⟩
  · rw [hnode] at hm
    cases hm
    exact hmeta
  · rw [hnode] at hnone
    cases hnone

theorem refuses_unaccepted {f : Path → FsProgram α} (hfree : t.LinkFree) (hroot : t.canonicalize root = .ok place)
    (h : ¬ Accepts t place userPath) : Refuses (amongEntries ((safeJoin root userPath).bind f)) t 400 := by
  obtain ⟨error, hstops⟩ := safeJoin_plain_rejects hfree hroot h
  exact refuses_among (status_of_failsWith hstops (safeJoin_failsWith t root userPath)) hstops.bind_error

theorem createDirs_blocked (names : List String) : ∀ {base : Path} {content : Bytes}, t.Resolved (base ++ names) →
    names ≠ [] → t.node (base ++ names) = some (.file content) →
      ∃ kind, t.createDirs base names = .error kind := by
  induction names with
  | nil =>
      intro base content _ hne
      exact absurd rfl hne
  | cons name rest ih =>
      intro base content hresolved _ hfile
      have hsplit : base ++ name :: rest = base ++ [name] ++ rest := by simp
      rw [hsplit] at hresolved hfile
      by_cases hrest : rest = []
      · rw [hrest, List.append_nil] at hresolved hfile
        rw [createDirs, locateFrom_of_resolved maxLinks base hresolved]
        simp only [hfile]
        exact ⟨_, rfl⟩
      · have hne : base ++ [name] ≠ base ++ [name] ++ rest := by simpa using hrest
        have hdir := node_above (List.prefix_append _ _) hne (by rw [hfile]; simp)
        rw [createDirs, locateFrom_of_resolved maxLinks base (hresolved.of_append hdir)]
        simp only [hdir]
        exact ih hresolved hrest hfile

theorem createDirectoryIn_refuses (hfree : t.LinkFree) (hroot : t.canonicalize root = .ok place)
    (h : ¬ Accepts t place userPath) : Refuses (amongEntries (createDirectoryIn root userPath)) t 400 := by
  unfold createDirectoryIn
  by_cases hempty : userPath = ""
  · rw [if_pos hempty]
    exact refuses_among rfl (Program.stops_fail _ t)
  · rw [if_neg hempty]
    exact refuses_unaccepted hfree hroot h

theorem createDirectoryIn_occupied (hfree : t.LinkFree) (hroot : t.canonicalize root = .ok place)
    (h : Accepts t place userPath) {content : Bytes}
    (hfile : t.node (place ++ splitComponents userPath) = some (.file content)) :
    Refuses (amongEntries (createDirectoryIn root userPath)) t 409 := by
  have hstraight := straight_join hfree hroot h.wellFormed
  have hresolved := resolved_of_straight hstraight (by rw [hfile]; simp)
  have hbelow : t.Resolved ([] ++ (place ++ splitComponents userPath)) := hresolved
  obtain ⟨kind, hblocked⟩ := createDirs_blocked _ hbelow (by simp [splitComponents_ne_nil]) hfile
  have hcall : (fsCall (.createDirAll (place ++ splitComponents userPath))).Stops Quietly t
      (.ok (.error (IoError.ofKind kind))) t := fsCall_stops fun choice hquiet => by
    have hfault : choice.fault = none := hquiet
    simp only [FsCall.perform, hfault, hblocked]
  have hstat : FsCall.stat t (place ++ splitComponents userPath) = .ok (Metadata.ofNode (.file content)) := by
    simp [FsCall.stat, locate_of_resolved hresolved, hfile, bind, Except.bind, pure, Except.pure]
  have hmeta : (fsCall (.metadata (place ++ splitComponents userPath))).Stops Quietly t
      (.ok (.ok (Metadata.ofNode (.file content)))) t := fsCall_stops fun choice hquiet => by
    simp only [FsCall.perform, guard_of_quiet hquiet, hstat, Except.mapError]
  refine refuses_among (show (AppError.conflict "A file already exists at this path.").status = 409 from rfl) ?_
  rw [createDirectoryIn, if_neg h.wellFormed.nonempty]
  exact (safeJoin_plain hfree hroot h).bind (hcall.bind (hmeta.bind ⟨rfl, rfl⟩))

section Uploads

variable {P : Primitives} {mimeFromFilename : String → Option String} {nonce : FixedBytes 12} {data : Bytes}
  {writeVerify : Bool} {dataKey : Except AppError DataKey} {key : DataKey}

/-- The root itself takes no upload, locked or not. -/
theorem uploadOwned_root : Refuses (amongEntries (uploadOwned P mimeFromFilename dataKey root nonce "" data
    writeVerify)) t 400 := refuses_among rfl (Program.stops_fail _ t)

theorem uploadOwned_locked (hpath : userPath ≠ "") : Refuses (amongEntries (uploadOwned P mimeFromFilename
    (.error .locked) root nonce userPath data writeVerify)) t 423 := by
  refine refuses_among (show AppError.locked.status = 423 from rfl) ?_
  have hprepare : (prepareUpload (.error .locked) root userPath).Stops Quietly t (.error .locked) t := by
    rw [prepareUpload, if_neg hpath]
    exact ⟨rfl, rfl⟩
  exact hprepare.bind_error

theorem uploadOwned_refuses (hfree : t.LinkFree) (hroot : t.canonicalize root = .ok place)
    (h : ¬ Accepts t place userPath) :
    Refuses (amongEntries (uploadOwned P mimeFromFilename (.ok key) root nonce userPath data writeVerify)) t 400 := by
  by_cases hempty : userPath = ""
  · rw [hempty]
    exact uploadOwned_root
  · obtain ⟨error, hstops⟩ := safeJoin_plain_rejects hfree hroot h
    refine refuses_among (status_of_failsWith hstops (safeJoin_failsWith t root userPath)) ?_
    have hprepare : (prepareUpload (.ok key) root userPath).Stops Quietly t (.error error) t := by
      rw [prepareUpload, if_neg hempty]
      exact hstops.bind_error
    exact hprepare.bind_error

theorem createPlace_of_dir (h : t.Resolved path) (hdir : t.node path = some .dir) :
    t.createPlace path = .error .isADirectory := by
  simp [createPlace, locate_of_resolved h, hdir, bind, Except.bind, throw, throwThe, MonadExceptOf.throw]

/-- An upload to a directory. -/
theorem uploadOwned_occupied (hfree : t.LinkFree) (hroot : t.canonicalize root = .ok place)
    (h : Accepts t place userPath) (hdir : t.node (place ++ splitComponents userPath) = some .dir)
    (hfits : (P.encryptDetached key nonce data).isSome) :
    Refuses (amongEntries (uploadOwned P mimeFromFilename (.ok key) root nonce userPath data writeVerify)) t 409 := by
  have hstraight := straight_join hfree hroot h.wellFormed
  have hresolved := resolved_of_straight hstraight (by rw [hdir]; simp)
  have hne : place ++ splitComponents userPath ≠ [] := by simp [splitComponents_ne_nil]
  have hprepare : (prepareUpload (.ok key) root userPath).Stops Quietly t
      (.ok (key, place ++ splitComponents userPath)) t :=
    prepareUpload_stops h.wellFormed.nonempty (safeJoin_plain hfree hroot h) hne
      (createDirs_of_dir hresolved.dropLast hresolved.dir)
  obtain ⟨sealed, hsealed⟩ := Option.isSome_iff_exists.mp hfits
  have hwrite : (encryptAndWriteFileOwned P key nonce data (place ++ splitComponents userPath) writeVerify).Stops
      Quietly t
      (.error (.internal ("Failed to write encrypted file: " ++ (IoError.ofKind .isADirectory).message))) t := by
    rw [encryptAndWriteFileOwned, hsealed]
    exact (createFile_fails (createPlace_of_dir hresolved hdir) _).bind_error
  have hstat : FsCall.stat t (place ++ splitComponents userPath) = .ok (Metadata.ofNode .dir) := by
    simp [FsCall.stat, locate_of_resolved hresolved, hdir, bind, Except.bind, pure, Except.pure]
  have hmeta : (fsCall (.metadata (place ++ splitComponents userPath))).Stops Quietly t
      (.ok (.ok (Metadata.ofNode .dir))) t := fsCall_stops fun choice hquiet => by
    simp only [FsCall.perform, guard_of_quiet hquiet, hstat, Except.mapError]
  refine refuses_among (show (AppError.conflict "A directory already exists at this path.").status = 409 from rfl) ?_
  exact hprepare.bind (hwrite.outcome.bind (hmeta.bind ⟨rfl, rfl⟩))

theorem download_root : Refuses (amongEntries (download P mimeFromFilename dataKey root "")) t 400 :=
  refuses_among rfl (Program.stops_fail _ t)

theorem download_locked (hpath : userPath ≠ "") :
    Refuses (amongEntries (download P mimeFromFilename (.error .locked) root userPath)) t 423 := by
  refine refuses_among (show AppError.locked.status = 423 from rfl) ?_
  rw [download, if_neg hpath]
  exact ⟨rfl, rfl⟩

theorem download_refuses (hfree : t.LinkFree) (hroot : t.canonicalize root = .ok place)
    (h : ¬ Accepts t place userPath) :
    Refuses (amongEntries (download P mimeFromFilename (.ok key) root userPath)) t 400 := by
  by_cases hempty : userPath = ""
  · rw [hempty]
    exact download_root
  · rw [download, if_neg hempty]
    exact refuses_unaccepted hfree hroot h

theorem download_missing (hfree : t.LinkFree) (hroot : t.canonicalize root = .ok place)
    (h : Accepts t place userPath) (hnone : t.node (place ++ splitComponents userPath) = none) :
    Refuses (amongEntries (download P mimeFromFilename (.ok key) root userPath)) t 404 := by
  refine refuses_among (show AppError.notFound.status = 404 from rfl) ?_
  rw [download, if_neg h.wellFormed.nonempty]
  exact (safeJoin_plain hfree hroot h).bind (metadata_missing hfree hroot h hnone _).bind_error

theorem download_dir (hfree : t.LinkFree) (hroot : t.canonicalize root = .ok place)
    (h : Accepts t place userPath) (hdir : t.node (place ++ splitComponents userPath) = some .dir) :
    Refuses (amongEntries (download P mimeFromFilename (.ok key) root userPath)) t 400 := by
  refine refuses_among
    (show (AppError.validation "The specified path is a directory, not a file.").status = 400 from rfl) ?_
  rw [download, if_neg h.wellFormed.nonempty]
  exact (safeJoin_plain hfree hroot h).bind
    ((metadata_of_node (straight_join hfree hroot h.wellFormed) hdir _).bind ⟨rfl, rfl⟩)

theorem download_stored (hfree : t.LinkFree) (hroot : t.canonicalize root = .ok place)
    (h : Accepts t place userPath) {blob plaintext : Bytes}
    (hfile : t.node (place ++ splitComponents userPath) = some (.file blob))
    (hread : readBytes P key blob = .ok plaintext) :
    ∃ result : DownloadResult, result.data = plaintext ∧
      (download P mimeFromFilename (.ok key) root userPath).Stops Quietly t (.ok result) t := by
  have hstraight := straight_join hfree hroot h.wellFormed
  have hresolved := resolved_of_straight hstraight (by rw [hfile]; simp)
  refine ⟨⟨plaintext, hexEncode (P.sha256 plaintext).val,
    mimeFromFilename (fileName (place ++ splitComponents userPath)), fileName (place ++ splitComponents userPath)⟩,
    rfl, ?_⟩
  rw [download, if_neg h.wellFormed.nonempty]
  refine (safeJoin_plain hfree hroot h).bind ((metadata_of_node hstraight hfile _).bind ?_)
  have hreader : (readAndDecryptFile P key (place ++ splitComponents userPath)).Stops Quietly t
      (readBytes P key blob) t := readAndDecryptFile_stops (fileAt_of_resolved hresolved hfile) key
  rw [hread] at hreader
  exact hreader.bind ⟨rfl, rfl⟩

section Listing

variable {facts : EntryFacts} {key : Option DataKey} {checkIntegrity : Bool} {target : Path}

theorem listEntries_refuses (hfree : t.LinkFree) (hroot : t.canonicalize root = .ok place) (hpath : userPath ≠ "")
    (h : ¬ Accepts t place userPath) :
    Refuses (amongEntries (listEntries P facts key root userPath checkIntegrity)) t 400 := by
  obtain ⟨error, hstops⟩ := safeJoin_plain_rejects hfree hroot h
  have hcanon := canonicalize_stops t root
  rw [hroot] at hcanon
  have htarget : (resolveTarget root userPath).Stops Quietly t (.error error) t := by
    unfold resolveTarget
    refine hcanon.bind ((attempt_stops (.ok place)).bind ?_)
    rw [if_neg hpath]
    exact hstops.bind_error
  exact refuses_among (status_of_failsWith hstops (safeJoin_failsWith t root userPath)) htarget.bind_error

theorem listEntries_missing (hfree : t.LinkFree) (hroot : t.canonicalize root = .ok place)
    (h : Accepts t place userPath) (hnone : t.node (place ++ splitComponents userPath) = none) :
    Refuses (amongEntries (listEntries P facts key root userPath checkIntegrity)) t 404 := by
  have htarget : Target t place userPath (place ++ splitComponents userPath) := Or.inr ⟨h, rfl⟩
  exact refuses_among (show AppError.notFound.status = 404 from rfl)
    ((resolveTarget_plain hfree hroot htarget).bind (metadata_missing hfree hroot h hnone _).bind_error)

theorem listEntries_file (hfree : t.LinkFree) (hroot : t.canonicalize root = .ok place)
    (htarget : Target t place userPath target) {content : Bytes} (hfile : t.node target = some (.file content)) :
    Refuses (amongEntries (listEntries P facts key root userPath checkIntegrity)) t 400 := by
  have hmeta := metadata_of_node (htarget.straight hfree hroot) hfile fun e : IoError =>
    if e.kind = .notFound then AppError.notFound else .internal ("Cannot read directory metadata: " ++ e.message)
  exact refuses_among (show (AppError.validation "The specified path is not a directory.").status = 400 from rfl)
    ((resolveTarget_plain hfree hroot htarget).bind (hmeta.bind ⟨rfl, rfl⟩))

end Listing

end Uploads

/-! ### Deleting and renaming -/

theorem deleteIn_refuses (hfree : t.LinkFree) (hroot : t.canonicalize root = .ok place) (kind : String)
    (h : ¬ Accepts t place userPath) : Refuses (deleteIn kind root userPath) t 400 := by
  unfold deleteIn
  by_cases hempty : userPath = ""
  · rw [if_pos hempty]
    exact refuses_fail rfl
  · rw [if_neg hempty]
    exact (safeJoin_refuses hfree hroot h).bind _

theorem deleteIn_missing (hfree : t.LinkFree) (hroot : t.canonicalize root = .ok place) (kind : String)
    (h : Accepts t place userPath) (hnone : t.node (place ++ splitComponents userPath) = none) :
    Refuses (deleteIn kind root userPath) t 404 := by
  rw [deleteIn, if_neg h.wellFormed.nonempty]
  have hmeta := metadata_missing hfree hroot h hnone fun e : IoError =>
    if e.kind = .notFound then AppError.notFound else .internal ("Cannot read entry metadata: " ++ e.message)
  exact Refuses.after (amongEntries_stops (safeJoin_plain hfree hroot h)) ((refuses_among rfl hmeta).bind _)

variable {oldPath newPath : String}

theorem renameIn_refuses (hfree : t.LinkFree) (hroot : t.canonicalize root = .ok place) (kind : String)
    (h : ¬ (Accepts t place oldPath ∧ Accepts t place newPath)) :
    Refuses (renameIn kind root oldPath newPath) t 400 := by
  unfold renameIn
  by_cases hold : oldPath = ""
  · rw [if_pos hold]
    exact refuses_fail rfl
  rw [if_neg hold]
  by_cases hnew : newPath = ""
  · rw [if_pos hnew]
    exact refuses_fail rfl
  rw [if_neg hnew]
  by_cases hsource : Accepts t place oldPath
  · have hdest : ¬ Accepts t place newPath := fun hdest => h ⟨hsource, hdest⟩
    exact Refuses.after (amongEntries_stops (safeJoin_plain hfree hroot hsource))
      ((safeJoin_refuses hfree hroot hdest).bind _)
  · exact (safeJoin_refuses hfree hroot hsource).bind _

/-- A rename of accepted paths up to the check of its source. -/
theorem renameIn_after {status : Nat} (hfree : t.LinkFree) (hroot : t.canonicalize root = .ok place) (kind : String)
    (hsource : Accepts t place oldPath) (hdest : Accepts t place newPath)
    (h : Refuses (do
      if ¬ decide (t.node (place ++ splitComponents oldPath) ≠ none) then Program.fail .notFound
      else if ← amongEntries (existsOrFalse (place ++ splitComponents newPath)) then
        Program.fail (.conflict "An entry already exists at the destination path.")
      else if place ++ splitComponents newPath ≠ [] then
        amongEntries (createDirAll (place ++ splitComponents newPath).dropLast fun e =>
          .internal ("Failed to create destination parent directories: " ++ e.message))
        entryCall (.rename (place ++ splitComponents oldPath) (place ++ splitComponents newPath)) fun e =>
          .internal ("Failed to rename entry: " ++ e.message)
        return (⟨oldPath, newPath⟩ : RenameResult)
      else
        entryCall (.rename (place ++ splitComponents oldPath) (place ++ splitComponents newPath)) fun e =>
          .internal ("Failed to rename entry: " ++ e.message)
        return ⟨oldPath, newPath⟩ : EntryProgram RenameResult) t status) :
    Refuses (renameIn kind root oldPath newPath) t status := by
  have hfrom := existsOrFalse_stops (straight_join hfree hroot hsource.wellFormed)
  rw [renameIn, if_neg hsource.wellFormed.nonempty, if_neg hdest.wellFormed.nonempty]
  exact Refuses.after (amongEntries_stops (safeJoin_plain hfree hroot hsource))
    (Refuses.after (amongEntries_stops (safeJoin_plain hfree hroot hdest))
      (Refuses.after (amongEntries_stops hfrom) h))

theorem renameIn_missing (hfree : t.LinkFree) (hroot : t.canonicalize root = .ok place) (kind : String)
    (hsource : Accepts t place oldPath) (hdest : Accepts t place newPath)
    (hnone : t.node (place ++ splitComponents oldPath) = none) :
    Refuses (renameIn kind root oldPath newPath) t 404 := by
  apply renameIn_after hfree hroot kind hsource hdest
  rw [if_pos (by simpa using hnone)]
  exact refuses_fail rfl

theorem renameIn_occupied (hfree : t.LinkFree) (hroot : t.canonicalize root = .ok place) (kind : String)
    (hsource : Accepts t place oldPath) (hdest : Accepts t place newPath)
    (hpresent : t.node (place ++ splitComponents oldPath) ≠ none)
    (hthere : t.node (place ++ splitComponents newPath) ≠ none) :
    Refuses (renameIn kind root oldPath newPath) t 409 := by
  have hto := existsOrFalse_stops (straight_join hfree hroot hdest.wellFormed)
  apply renameIn_after hfree hroot kind hsource hdest
  rw [if_neg (by simpa using hpresent)]
  refine Refuses.after (amongEntries_stops hto) ?_
  rw [if_pos (by simpa using hthere)]
  exact refuses_fail rfl

/-- Once both checks are passed, a rename fails only with an internal error. -/
theorem renameIn_failsWith (hfree : t.LinkFree) (hroot : t.canonicalize root = .ok place) (kind : String)
    (h : Renamable t place oldPath newPath) :
    (renameIn kind root oldPath newPath).Ensures EntryQuietly t fun result _ => FailsWith 500 result := by
  have hfrom := existsOrFalse_stops (straight_join hfree hroot h.source.wellFormed)
  have hto := existsOrFalse_stops (straight_join hfree hroot h.dest.wellFormed)
  have hne : place ++ splitComponents newPath ≠ [] := by simp [splitComponents_ne_nil]
  have hcall : ∀ (op : EntryCall) (t' : FileTree),
      (entryCall op fun e => .internal ("Failed to rename entry: " ++ e.message)).Ensures EntryQuietly t'
        fun result _ => FailsWith 500 result := by
    intro op t' answer t'' _
    cases answer with
    | ok value => exact failsWith_ok value
    | error e => exact failsWith_error rfl
  have hmkdir : (createDirAll (place ++ splitComponents newPath).dropLast fun e =>
      .internal ("Failed to create destination parent directories: " ++ e.message)).Ensures Quietly t
        fun result _ => FailsWith 500 result := by
    apply failsWith_bind (fsCall_failsWith _)
    intro answer t'
    refine attempt_failsWith ?_ answer
    exact fun _ => rfl
  rw [renameIn, if_neg h.source.wellFormed.nonempty, if_neg h.dest.wellFormed.nonempty]
  refine (amongEntries_stops (safeJoin_plain hfree hroot h.source)).ensures_bind ?_
  refine (amongEntries_stops (safeJoin_plain hfree hroot h.dest)).ensures_bind ?_
  refine (amongEntries_stops hfrom).ensures_bind ?_
  rw [if_neg (by simpa using h.present)]
  refine (amongEntries_stops hto).ensures_bind ?_
  rw [if_neg (by simpa using h.vacant), if_pos hne]
  apply Program.Ensures.bind (amongEntries_ensures hmkdir)
  · intro value t' _
    apply Program.Ensures.bind (hcall _ t')
    · intro value t'' _
      exact failsWith_ok _
    · intro error t'' herror
      exact failsWith_error (herror error rfl)
  · intro error t' herror
    exact failsWith_error (herror error rfl)

/-- A move of an entry into itself makes the parents of its destination and fails. -/
theorem renameIn_inside (hfree : t.LinkFree) (hroot : t.canonicalize root = .ok place) (kind : String)
    (h : Renamable t place oldPath newPath) (hinside : splitComponents oldPath <+: splitComponents newPath) :
    ∃ (error : AppError) (made : FileTree), error.status = 500 ∧ made.LinkFree ∧
      (∀ p, made.node p = if p <+: (place ++ splitComponents newPath).dropLast then some .dir else t.node p) ∧
      (renameIn kind root oldPath newPath).Stops EntryQuietly t (.error error) made := by
  obtain ⟨made, hmade, hframe, hends⟩ := renameIn_stops hfree hroot kind h
  rw [if_pos hinside] at hends
  obtain ⟨error, hstops⟩ := hends
  have hfails := renameIn_failsWith hfree hroot kind h
  refine ⟨error, made, ?_, hfree.createDirs hmade, hframe, hstops⟩
  have hdisk : (Disk.mk t 0).tree = t := rfl
  rw [← hdisk] at hstops hfails
  obtain ⟨hresult, -⟩ := run_of_entry_stops calmOracle_quiet hstops
  exact run_of_entry_ensures calmOracle_quiet hfails error hresult

end IronDrive
