import IronDrive.ServerCalls
import IronDrive.PathContainment
import IronDrive.CryptoRoundTrip

/-! What an upload does when nothing fails: where it finds its target, in the tree it starts from and in
every later one that agrees with it below the root, and what it leaves there. -/

namespace IronDrive

open Lib FileTree PathSafety CryptoService

variable {t t' : FileTree} {canonicalRoot : Path} {oracle : Nat → Choice}

/-- Reading an entry of a link-free directory depends on that directory and the entry. -/
theorem lstat_congr {base : Path} {name : String} (h : t.Resolved base) (h' : t'.Resolved base)
    (hbase : t'.node base = t.node base) (hentry : t'.node (base ++ [name]) = t.node (base ++ [name])) :
    FsCall.lstat t' (base ++ [name]) = FsCall.lstat t (base ++ [name]) := by
  simp only [FsCall.lstat, locateEntry, List.getLast?_append_of_ne_nil, ne_eq, List.cons_ne_self,
    not_false_eq_true, List.getLast?_singleton, List.dropLast_concat, locate_of_resolved h,
    locate_of_resolved h', bind, Except.bind, hbase]
  cases t.node base with
  | none => rfl
  | some n =>
      cases n with
      | dir => simp [pure, Except.pure, hentry]
      | file content => rfl
      | symlink absolute target => rfl

theorem canonicalize_of_extends (hext : t.Extends t') {path place : Path}
    (h : t.canonicalize path = .ok place) : t'.canonicalize path = .ok place := by
  have hnode : t'.node place ≠ none := by
    cases hplace : t.node place with
    | none => exact absurd hplace (canonicalize_resolved h).2
    | some n =>
        cases n with
        | dir => simp [hext.dir place hplace]
        | file content =>
            obtain ⟨content', hfile⟩ := hext.file place content hplace
            simp [hfile]
        | symlink absolute target => simp [(hext.symlink place absolute target).mpr hplace]
  cases hloc : t.locate path with
  | error kind => simp [canonicalize, hloc, bind, Except.bind] at h
  | ok found =>
      by_cases hfound : t.node found = none
      · simp [canonicalize, hloc, hfound, bind, Except.bind, throw, throwThe, MonadExceptOf.throw] at h
      · simp only [canonicalize, hloc, hfound, bind, Except.bind, if_false, pure, Except.pure,
          Except.ok.injEq] at h
        subst h
        simp [canonicalize, hext.locate hloc, hnode, bind, Except.bind, pure, Except.pure]

/-- The trees agree at the canonical root and below. -/
def SameBelow (canonicalRoot : Path) (t t' : FileTree) : Prop :=
  ∀ p, canonicalRoot <+: p → t'.node p = t.node p

theorem symlinkMetadata_stops (t : FileTree) (path : Path) :
    (fsCall (.symlinkMetadata path)).Stops Quietly t
      (.ok ((FsCall.lstat t path).mapError IoError.ofKind)) t :=
  fsCall_stops fun choice hquiet => by simp [FsCall.perform, hquiet]

theorem canonicalize_stops (t : FileTree) (path : Path) :
    (fsCall (.canonicalize path)).Stops Quietly t
      (.ok ((t.canonicalize path).mapError IoError.ofKind)) t :=
  fsCall_stops fun choice hquiet => by simp [FsCall.perform, hquiet]

/-- A walk that succeeded succeeds again, with the same result, in a later tree. -/
theorem walkComponents_stays (hquiet : QuietOracle oracle) (hext : t.Extends t')
    (hsame : SameBelow canonicalRoot t t') {p : Path} (components : List String) :
    ∀ {disk : Disk} {current : Path}, disk.tree = t → (∀ name ∈ components, SafeName name) →
      canonicalRoot <+: current → t.Resolved current → t.node current ≠ none →
        ((walkComponents canonicalRoot current components).run (fsHandler oracle) disk).1 = .ok p →
          (walkComponents canonicalRoot current components).Stops Quietly t' (.ok p) t' := by
  induction components with
  | nil =>
      intro disk current _ _ _ _ _ hrun
      cases hrun
      exact Program.stops_done _ _
  | cons component remaining ih =>
      intro disk current htree hsafe hunder hresolved hexists hrun
      subst htree
      rw [walkComponents, Program.bind_eq] at hrun ⊢
      obtain ⟨disk₁, htree₁, hrun₁⟩ := run_bind_of_stops hquiet
        (symlinkMetadata_stops disk.tree (current ++ [component])) _
      rw [hrun₁] at hrun
      refine (symlinkMetadata_stops t' (current ++ [component])).bind ?_
      rw [lstat_congr hresolved (hext.resolved hresolved) (hsame _ hunder)
        (hsame _ (hunder.trans (List.prefix_append _ _)))]
      cases hstat : FsCall.lstat disk.tree (current ++ [component]) with
      | ok m =>
          simp only [hstat, Except.mapError] at hrun ⊢
          obtain ⟨disk₂, htree₂, hrun₂⟩ := run_bind_of_stops hquiet
            (canonicalize_stops disk₁.tree (current ++ [component])) _
          rw [Program.bind_eq, hrun₂, htree₁] at hrun
          refine (canonicalize_stops t' (current ++ [component])).bind ?_
          cases hcanon : disk.tree.canonicalize (current ++ [component]) with
          | error kind =>
              rw [hcanon] at hrun
              cases hrun
          | ok resolved =>
              obtain ⟨hres, hnode⟩ := canonicalize_resolved hcanon
              rw [canonicalize_of_extends hext hcanon]
              rw [hcanon] at hrun
              simp only [Except.mapError, attempt, Program.bind_eq, Program.done_bind] at hrun ⊢
              by_cases hinside : canonicalRoot <+: resolved
              · simp only [hinside, not_true_eq_false, if_false] at hrun ⊢
                exact ih (htree₂.trans htree₁) (fun name hmem => hsafe name (by simp [hmem])) hinside hres
                  hnode hrun
              · simp only [hinside, not_false_eq_true, if_true] at hrun
                cases hrun
      | error kind =>
          simp only [hstat, Except.mapError] at hrun ⊢
          by_cases hkind : (IoError.ofKind kind).kind = .notFound
          · simp only [hkind, if_true] at hrun ⊢
            cases hrun
            exact Program.stops_done _ _
          · simp only [hkind, if_false] at hrun
            cases hrun

/-- A user path that was joined is joined to the same target in a later tree. -/
theorem safeJoin_stays (hquiet : QuietOracle oracle) {disk : Disk} {root target : Path}
    {userPath : String} (hroot : disk.tree.canonicalize root = .ok canonicalRoot)
    (hext : disk.tree.Extends t') (hsame : SameBelow canonicalRoot disk.tree t')
    (hrun : ((safeJoin root userPath).run (fsHandler oracle) disk).1 = .ok target) :
    (safeJoin root userPath).Stops Quietly t' (.ok target) t' := by
  unfold safeJoin at hrun ⊢
  cases hparse : parseUserPath userPath with
  | error e =>
      rw [hparse] at hrun
      cases hrun
  | ok components =>
      rw [hparse] at hrun
      simp only [Program.ofExcept_ok, Program.bind_eq, Program.done_bind] at hrun ⊢
      obtain ⟨disk₁, htree₁, hrun₁⟩ := run_bind_of_stops hquiet (canonicalize_stops disk.tree root) _
      rw [hrun₁, hroot] at hrun
      refine (canonicalize_stops t' root).bind ?_
      rw [canonicalize_of_extends hext hroot]
      simp only [Except.mapError, attempt, Program.done_bind] at hrun ⊢
      obtain ⟨hresolved, hexists⟩ := canonicalize_resolved hroot
      rw [Program.run_bind] at hrun
      cases hwalk : (walkComponents canonicalRoot canonicalRoot components).run (fsHandler oracle) disk₁ with
      | mk result disk₂ =>
          cases result with
          | error e =>
              rw [hwalk] at hrun
              cases hrun
          | ok current =>
              rw [hwalk] at hrun
              refine (walkComponents_stays hquiet hext hsame components htree₁ (parseUserPath_ok hparse)
                (List.prefix_refl canonicalRoot) hresolved hexists (by rw [hwalk])).bind ?_
              by_cases hinside : canonicalRoot <+: current
              · simp only [hinside, not_true_eq_false, if_false] at hrun ⊢
                cases hrun
                exact Program.stops_done _ _
              · simp only [hinside, not_false_eq_true, if_true] at hrun
                cases hrun

/-! ### The target's parent directory, and the upload -/

/-- What was joined and exists is link-free. -/
theorem PathSafety.Joined.resolved_of_exists {canonicalRoot target existing : Path} {appended : List String}
    (h : Joined t canonicalRoot target existing appended) (hnode : t.node target ≠ none) : t.Resolved target := by
  obtain ⟨rfl, -, hresolved, -, hmissing, -⟩ := h
  cases appended with
  | nil =>
      rw [List.append_nil]
      exact hresolved
  | cons name rest =>
      have hnone := (hmissing name rest rfl).2
      rw [List.append_cons] at hnode
      by_cases hrest : rest = []
      · rw [hrest, List.append_nil] at hnode
        exact absurd hnone hnode
      · exact absurd (node_append_of_not_dir (by rw [hnone]; simp) hrest) hnode

/-- The parents of a joined path can be made, and then the file itself; files stay as they are. -/
theorem PathSafety.Joined.parents {target existing : Path} {appended : List String}
    (h : Joined t canonicalRoot target existing appended) (hdir : t.node target ≠ some .dir) :
    ∃ made, t.createDirs [] target.dropLast = .ok made ∧ made.createPlace target = .ok target ∧
      target ≠ [] := by
  obtain ⟨rfl, -, hresolved, hexists, hmissing, hsafe⟩ := h
  rcases List.eq_nil_or_concat appended with rfl | ⟨parents, last, rfl⟩
  · rw [List.append_nil] at hdir ⊢
    exact ⟨t, createDirs_of_dir hresolved.dropLast hresolved.dir, createPlace_of_resolved hresolved hdir,
      fun hnil => hdir (by rw [hnil, t.root])⟩
  · rw [List.concat_eq_append] at hmissing hsafe hdir ⊢
    have hbase : t.node existing = some .dir := by
      cases hsplit : parents ++ [last] with
      | nil => simp at hsplit
      | cons name rest => exact (hmissing name rest hsplit).1
    obtain ⟨made, hmade, hparent, hframe⟩ := createDirs_of_missing parents hresolved hbase
      (fun name hmem => (hsafe name (by simp [hmem])).ordinary) (by
        intro name rest hcons
        exact (hmissing name (rest ++ [last]) (by rw [hcons]; rfl)).2)
    have hcreate : t.createDirs [] (existing ++ parents) = .ok made := by
      rw [createDirs_through existing parents (by simpa using hresolved) (by simpa using hbase)]
      exact hmade
    have htarget : made.node (existing ++ parents ++ [last]) = none := by
      rcases hframe (existing ++ parents ++ [last]) with hsame | ⟨-, -, -, htop⟩
      · rw [hsame, List.append_assoc]
        cases hsplit : parents ++ [last] with
        | nil => simp at hsplit
        | cons name rest =>
            have hnone := (hmissing name rest hsplit).2
            by_cases hrest : rest = []
            · rw [hrest]; exact hnone
            · rw [← List.singleton_append, ← List.append_assoc]
              exact node_append_of_not_dir (by simp [hnone]) hrest
      · have := htop.length_le
        simp only [List.length_append, List.length_singleton] at this
        omega
    have hplace : made.Resolved (existing ++ parents ++ [last]) := by
      refine ⟨?_, by rw [List.dropLast_concat]; exact hparent, by rw [htarget]; simp⟩
      intro name hmem
      rw [List.append_assoc] at hmem
      rcases List.mem_append.mp hmem with hmem | hmem
      · exact hresolved.ordinary name hmem
      · exact (hsafe name hmem).ordinary
    rw [← List.append_assoc, List.dropLast_concat]
    exact ⟨made, hcreate, createPlace_of_resolved hplace (by rw [htarget]; simp), by simp⟩

namespace FsService

variable {P : Primitives} {mimeFromFilename : String → Option String} {root target : Path}
  {userPath : String} {key : DataKey}

/-- The key and the target are found, and the target's parent directory is made. -/
theorem prepareUpload_stops (hpath : userPath ≠ "") {made : FileTree}
    (hjoin : (safeJoin root userPath).Stops Quietly t (.ok target) t) (hne : target ≠ [])
    (hmade : t.createDirs [] target.dropLast = .ok made) :
    (prepareUpload (.ok key) root userPath).Stops Quietly t (.ok (key, target)) made := by
  simp only [prepareUpload, hpath, if_false, Program.ofExcept_ok, Program.bind_eq, Program.done_bind]
  refine hjoin.bind ?_
  simp only [ne_eq, hne, not_false_eq_true, if_true]
  exact (createDirAll_stops hmade).bind (Program.stops_done _ _)

/-- A streaming upload leaves the sealed chunks at its target. -/
theorem uploadStreaming_stops (hpath : userPath ≠ "") {made : FileTree}
    (hjoin : (safeJoin root userPath).Stops Quietly t (.ok target) t) (hne : target ≠ [])
    (hmade : t.createDirs [] target.dropLast = .ok made) (hplace : made.createPlace target = .ok target)
    {nonce : FixedBytes 7} {chunkPaths : List Path} {chunks segments : List Bytes}
    (hchunks : List.Forall₂ (ChunkFile made target) chunkPaths chunks)
    (hseal : sealSegments P (EncryptorBE32.new key nonce) chunks = some segments) {total : Nat}
    (htotal : total = chunks.flatten.length) (writeVerify : Bool) :
    ∃ upload, (uploadStreaming P mimeFromFilename (.ok key) root nonce userPath chunkPaths total
      writeVerify).Stops Quietly t (.ok upload)
        (made.put target (.file (withHash P (streamContent nonce segments)))) := by
  refine ⟨⟨userPath, total, (withHash P (streamContent nonce segments)).length, "",
    mimeFromFilename (fileName target)⟩, (prepareUpload_stops hpath hjoin hne hmade).bind ?_⟩
  refine (streamEncryptChunksToFile_stops hplace hchunks hseal htotal writeVerify).bind ?_
  exact (metadata_stops_of_fileAt (fileAt_put hplace _) _).bind (Program.stops_done _ _)

/-- A streaming upload of another length than announced is refused. -/
theorem uploadStreaming_stops_mismatch (hpath : userPath ≠ "") {made : FileTree}
    (hjoin : (safeJoin root userPath).Stops Quietly t (.ok target) t) (hne : target ≠ [])
    (hmade : t.createDirs [] target.dropLast = .ok made) (hplace : made.createPlace target = .ok target)
    {nonce : FixedBytes 7} {chunkPaths : List Path} {chunks segments : List Bytes}
    (hchunks : List.Forall₂ (ChunkFile made target) chunkPaths chunks)
    (hseal : sealSegments P (EncryptorBE32.new key nonce) chunks = some segments) {total : Nat}
    (htotal : total ≠ chunks.flatten.length) (writeVerify : Bool) :
    (uploadStreaming P mimeFromFilename (.ok key) root nonce userPath chunkPaths total writeVerify).Stops
      Quietly t
      (.error (.internal ("Chunk size mismatch: expected " ++ toString total ++ " bytes, read " ++
        toString chunks.flatten.length)))
      (made.put target (.file (streamContent nonce segments))) :=
  (prepareUpload_stops hpath hjoin hne hmade).bind
    (streamEncryptChunksToFile_stops_mismatch hplace hchunks hseal htotal writeVerify).bind_error

end FsService

end IronDrive
