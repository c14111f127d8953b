import IronDrive.EntryCalls

/-! What deleting and renaming an entry do to a tree without links, when the operating system reports no error
of its own: one rule for each way the call can end. -/

namespace IronDrive

open Lib FileTree PathSafety

variable {t : FileTree} {root place path : Path} {α : Type}

theorem amongEntries_ensures {G : Choice → Prop} {program : FsProgram α} {Q : Except AppError α → FileTree → Prop}
    (h : program.Ensures (Performs G) t Q) : (amongEntries program).Ensures (EntryPerforms G) t Q := by
  refine Program.Ensures.mono (Program.Ensures.inl_of (L := Eq) h ?_ rfl) ?_
  · rintro op x v answer x' rfl hstep
    exact ⟨x', hstep, rfl⟩
  · rintro result x ⟨v, rfl, hQ⟩
    exact hQ

theorem amongEntries_stops {program : FsProgram α} {result : Except AppError α} {t' : FileTree}
    (h : program.Stops Quietly t result t') : (amongEntries program).Stops EntryQuietly t result t' :=
  amongEntries_ensures h

theorem entryCall_stops {op : EntryCall} {onError : IoError → AppError} {result : Except IoError Unit}
    {t' : FileTree} (h : ∀ choice : Choice, choice.Quiet → op.perform choice t = (result, t')) :
    (entryCall op onError).Stops EntryQuietly t (result.mapError onError) t' := by
  rintro answer t'' ⟨choice, hquiet, hperform⟩
  rw [h choice hquiet] at hperform
  obtain ⟨rfl, rfl⟩ := hperform
  cases result with
  | ok value => exact ⟨rfl, rfl⟩
  | error error => exact ⟨rfl, rfl⟩

/-- What an entry program ensures under an account of the calls holds of its runs. -/
theorem run_of_entry_ensures {oracle : Nat → Choice} {G : Choice → Prop} (h : ∀ tick, G (oracle tick))
    {program : EntryProgram α} {disk : Disk} {Q : Except AppError α → FileTree → Prop}
    (ht : program.Ensures (EntryPerforms G) disk.tree Q) :
    Q (program.run (entryHandler oracle) disk).1 (program.run (entryHandler oracle) disk).2.tree := by
  have hstep : ∀ (op : entrySignature.Op) (d : Disk) (t : FileTree), d.tree = t →
      ∃ t', EntryPerforms G op t (entryHandler oracle op d).1 t' ∧ (entryHandler oracle op d).2.tree = t' := by
    rintro op d t rfl
    cases op with
    | inl op => exact ⟨_, fsHandler_performs h op d, rfl⟩
    | inr op => exact ⟨_, ⟨oracle d.tick, h _, rfl⟩, rfl⟩
  obtain ⟨v', hR, hQ⟩ := Program.Ensures.run (R := fun (d : Disk) t => d.tree = t) ht hstep rfl
  rw [hR]
  exact hQ

theorem run_of_entry_stops {oracle : Nat → Choice} (h : QuietOracle oracle) {program : EntryProgram α}
    {disk : Disk} {result : Except AppError α} {t' : FileTree}
    (ht : program.Stops EntryQuietly disk.tree result t') :
    (program.run (entryHandler oracle) disk).1 = result ∧ (program.run (entryHandler oracle) disk).2.tree = t' :=
  run_of_entry_ensures h ht

/-- Below the place of a root the path is well formed and no file is on the way. -/
structure Accepts (t : FileTree) (place : Path) (userPath : String) : Prop where
  wellFormed : WellFormedPath userPath
  passable : Passable t place (splitComponents userPath)

theorem resolved_of_straight (h : t.Straight path) (hexists : t.node path ≠ none) : t.Resolved path := by
  obtain ⟨n, hn⟩ := Option.ne_none_iff_exists'.mp hexists
  refine resolved_of_node h.ordinary hn fun absolute target hlink => ?_
  exact h.unlinked path (List.prefix_refl path) absolute target (by rw [hn, hlink])

theorem canonicalize_plain (h : t.Straight path) :
    (t.node path ≠ none ∧ t.canonicalize path = .ok path) ∨
      (t.node path = none ∧ ∃ kind, t.canonicalize path = .error kind) := by
  by_cases hnode : t.node path = none
  · refine Or.inr ⟨hnode, ?_⟩
    cases hcanon : t.canonicalize path with
    | error kind => exact ⟨kind, rfl⟩
    | ok place =>
        have hplace := canonicalize_of_straight h hcanon
        rw [hplace] at hcanon
        exact absurd hnode (canonicalize_resolved hcanon).2
  · exact Or.inl ⟨hnode, canonicalize_of_resolved (resolved_of_straight h hnode) hnode⟩

theorem stat_plain (h : t.Straight path) :
    (∃ n, t.node path = some n ∧ FsCall.stat t path = .ok (Metadata.ofNode n)) ∨
      (t.node path = none ∧ ∃ kind, FsCall.stat t path = .error kind) := by
  cases hnode : t.node path with
  | some n =>
      have hplace := locate_of_resolved (resolved_of_straight h (by simp [hnode]))
      exact Or.inl ⟨n, rfl, by simp [FsCall.stat, hplace, hnode, bind, Except.bind, pure, Except.pure]⟩
  | none =>
      refine Or.inr ⟨rfl, ?_⟩
      cases hloc : t.locate path with
      | error kind => exact ⟨kind, by simp [FsCall.stat, hloc, bind, Except.bind]⟩
      | ok place =>
          rw [locate_of_straight h hloc] at hloc
          exact ⟨.notFound, by simp [FsCall.stat, hloc, hnode, bind, Except.bind, throw, throwThe, MonadExceptOf.throw]⟩

theorem ordinary_of_wellFormed {userPath : String} (h : WellFormedPath userPath) :
    ∀ name ∈ splitComponents userPath, Ordinary name := fun name hname =>
  ((parseUserPath_ok ((parseUserPath_ok_iff userPath _).mpr ⟨h, rfl⟩)) name hname).ordinary

theorem splitComponents_ne_nil (userPath : String) : splitComponents userPath ≠ [] := by
  rw [splitComponents]
  simp

theorem straight_join (hfree : t.LinkFree) (hroot : t.canonicalize root = .ok place) {userPath : String}
    (h : WellFormedPath userPath) : t.Straight (place ++ splitComponents userPath) := by
  refine hfree.straight fun name hname => ?_
  rcases List.mem_append.mp hname with hname | hname
  · exact (canonicalize_resolved hroot).1.ordinary name hname
  · exact ordinary_of_wellFormed h name hname

theorem safeJoin_plain (hfree : t.LinkFree) (hroot : t.canonicalize root = .ok place) {userPath : String}
    (h : Accepts t place userPath) :
    (safeJoin root userPath).Stops Quietly t (.ok (place ++ splitComponents userPath)) t :=
  safeJoin_stops hfree hroot h.wellFormed h.passable

theorem safeJoin_plain_rejects (hfree : t.LinkFree) (hroot : t.canonicalize root = .ok place) {userPath : String}
    (h : ¬ Accepts t place userPath) : ∃ error, (safeJoin root userPath).Stops Quietly t (.error error) t :=
  safeJoin_rejects hfree hroot fun ⟨hwell, hpass⟩ => h ⟨hwell, hpass⟩

theorem safeJoin_no_root {kind : IoErrorKind} (hroot : t.canonicalize root = .error kind) (userPath : String) :
    ∃ error, (safeJoin root userPath).Stops Quietly t (.error error) t := by
  cases hparse : parseUserPath userPath with
  | error error =>
      refine ⟨error, ?_⟩
      rw [safeJoin, hparse]
      exact ⟨rfl, rfl⟩
  | ok components =>
      refine ⟨.validation ("Root path cannot be resolved: " ++ (IoError.ofKind kind).message), ?_⟩
      rw [safeJoin, hparse]
      refine (canonicalize_stops t root).bind ?_
      rw [hroot]
      exact ⟨rfl, rfl⟩

/-- What exists below the root is accepted under its path. -/
theorem accepts_of_exists {userPath : String} (hwell : WellFormedPath userPath)
    (hexists : t.node (place ++ splitComponents userPath) ≠ none) : Accepts t place userPath := by
  refine ⟨hwell, fun front hfront hne content => ?_⟩
  rw [node_above ((List.prefix_append_right_inj place).mpr hfront) (by simpa using hne) hexists]
  simp

theorem existsOrFalse_stops (h : t.Straight path) :
    (FsService.existsOrFalse path).Stops Quietly t (.ok (decide (t.node path ≠ none))) t := by
  have hcall : (fsCall (.tryExists path)).Stops Quietly t
      (.ok ((FsCall.exists? t path).mapError IoError.ofKind)) t :=
    fsCall_stops fun choice hquiet => by simp only [FsCall.perform, guard_of_quiet hquiet]
  refine hcall.bind ?_
  rcases stat_plain h with ⟨n, hnode, hstat⟩ | ⟨hnode, kind, hstat⟩
  · rw [FsCall.exists?, hstat, hnode]
    exact ⟨rfl, rfl⟩
  · rw [FsCall.exists?, hstat, hnode]
    cases kind <;> exact ⟨rfl, rfl⟩

theorem canonicalizeAsync_stops (h : t.canonicalize path = .ok place) :
    (FsService.canonicalizeAsync path).Stops Quietly t (.ok place) t := by
  refine (canonicalize_stops t path).bind ?_
  rw [h]
  exact ⟨rfl, rfl⟩

/-- The existing entry that a path names below the place of a root, if there is one. -/
def namedEntry (t : FileTree) (place : Path) (userPath : String) : Option Path :=
  match parseUserPath userPath with
  | .ok components => if t.node (place ++ components) = none then none else some (place ++ components)
  | .error _ => none

theorem namedEntry_eq_some {userPath : String} {entry : Path} : namedEntry t place userPath = some entry ↔
    WellFormedPath userPath ∧ entry = place ++ splitComponents userPath ∧ t.node entry ≠ none := by
  unfold namedEntry
  cases hparse : parseUserPath userPath with
  | error error =>
      refine ⟨fun h => (by cases h), fun ⟨hwell, _⟩ => ?_⟩
      rw [(parseUserPath_ok_iff userPath _).mpr ⟨hwell, rfl⟩] at hparse
      cases hparse
  | ok components =>
      obtain ⟨hwell, rfl⟩ := (parseUserPath_ok_iff userPath components).mp hparse
      by_cases hnone : t.node (place ++ splitComponents userPath) = none
      · simp only [hnone, if_true]
        exact ⟨fun h => (by cases h), fun ⟨_, hentry, hexists⟩ => absurd hnone (hentry ▸ hexists)⟩
      · simp only [hnone, if_false, Option.some.injEq]
        exact ⟨fun h => ⟨hwell, h.symm, h ▸ hnone⟩, fun ⟨_, hentry, _⟩ => hentry.symm⟩

theorem metadata_plain (h : t.Straight path) (onError : IoError → AppError) :
    (∃ n, t.node path = some n ∧ (metadata path onError).Stops Quietly t (.ok (Metadata.ofNode n)) t) ∨
      (t.node path = none ∧ ∃ error, (metadata path onError).Stops Quietly t (.error error) t) := by
  have hmeta := metadata_stops t path onError
  rcases stat_plain h with ⟨n, hnode, hstat⟩ | ⟨hnode, kind, hstat⟩
  · rw [hstat] at hmeta
    exact Or.inl ⟨n, hnode, hmeta⟩
  · rw [hstat] at hmeta
    exact Or.inr ⟨hnode, _, hmeta⟩

theorem removeDirAll_stops (hplace : t.locateEntry path = .ok path) (hdir : t.node path = some .dir) :
    (fsCall (.removeDirAll path)).Stops Quietly t (.ok (.ok ())) (t.removeAll path) := by
  refine fsCall_stops fun choice hquiet => ?_
  have hfault : choice.fault = none := hquiet
  have hremoval : FsCall.removalPlace t path = .ok path := by
    simp only [FsCall.removalPlace, hplace, hdir, bind, Except.bind, pure, Except.pure]
  simp only [FsCall.perform, hremoval, hfault]

theorem removeFile_stops (hplace : t.locateEntry path = .ok path) (hexists : t.node path ≠ none)
    (hdir : t.node path ≠ some .dir) (onError : IoError → AppError) :
    (entryCall (.removeFile path) onError).Stops EntryQuietly t (.ok ()) (t.removeAll path) := by
  have hcall : ∀ choice : Choice, choice.Quiet →
      (EntryCall.removeFile path).perform choice t = (.ok (), t.removeAll path) := fun choice hquiet => by
    simp only [EntryCall.perform, guard_of_quiet hquiet, unlinkPlace_of_entry hplace hexists hdir, Except.mapError]
  exact entryCall_stops hcall

/-- An entry that a path names is removed with everything below it. -/
theorem deleteIn_stops (hfree : t.LinkFree) (hroot : t.canonicalize root = .ok place) (kind : String)
    {userPath : String} {entry : Path} (h : namedEntry t place userPath = some entry) :
    (FsService.deleteIn kind root userPath).Stops EntryQuietly t (.ok ()) (t.removeAll entry) := by
  obtain ⟨hwell, rfl, hexists⟩ := namedEntry_eq_some.mp h
  have hstraight := straight_join hfree hroot hwell
  have haccepts := accepts_of_exists hwell hexists
  have hinside : ¬ (¬ place <+: place ++ splitComponents userPath ∨ place ++ splitComponents userPath = place) := by
    rintro (hnot | heq)
    · exact hnot (List.prefix_append _ _)
    · exact splitComponents_ne_nil userPath (List.append_right_eq_self.mp heq)
  have hentry := locateEntry_of_resolved (resolved_of_straight hstraight hexists)
  have hcanon := canonicalize_of_resolved (resolved_of_straight hstraight hexists) hexists
  rw [FsService.deleteIn, if_neg hwell.nonempty]
  refine (amongEntries_stops (safeJoin_plain hfree hroot haccepts)).bind ?_
  rcases metadata_plain hstraight _ with ⟨n, hnode, hmeta⟩ | ⟨hnone, -⟩
  · refine (amongEntries_stops hmeta).bind ?_
    refine (amongEntries_stops (canonicalizeAsync_stops hroot)).bind ?_
    refine (amongEntries_stops (canonicalizeAsync_stops hcanon)).bind ?_
    rw [if_neg hinside]
    by_cases hdir : n = .dir
    · rw [hdir] at hnode ⊢
      exact amongEntries_stops ((removeDirAll_stops hentry hnode).bind ⟨rfl, rfl⟩)
    · have hfile : (Metadata.ofNode n).isDir = false := by
        cases n with
        | dir => exact absurd rfl hdir
        | file | symlink => rfl
      rw [hfile]
      exact removeFile_stops hentry hexists (by rw [hnode]; simpa using hdir) _
  · exact absurd hnone hexists

/-- A path that names no entry is rejected. -/
theorem deleteIn_rejects (hfree : t.LinkFree) (hroot : t.canonicalize root = .ok place) (kind : String)
    {userPath : String} (h : namedEntry t place userPath = none) :
    ∃ error, (FsService.deleteIn kind root userPath).Stops EntryQuietly t (.error error) t := by
  rw [FsService.deleteIn]
  by_cases hempty : userPath = ""
  · rw [if_pos hempty]
    exact ⟨_, rfl, rfl⟩
  rw [if_neg hempty]
  by_cases haccepts : Accepts t place userPath
  · have hstraight := straight_join hfree hroot haccepts.wellFormed
    rcases metadata_plain hstraight fun e : IoError =>
      if e.kind = .notFound then AppError.notFound else .internal ("Cannot read entry metadata: " ++ e.message)
      with ⟨n, hnode, -⟩ | ⟨-, error, hmeta⟩
    · have hnamed := namedEntry_eq_some.mpr ⟨haccepts.wellFormed, rfl, by rw [hnode]; simp⟩
      rw [h] at hnamed
      cases hnamed
    · exact ⟨error, (amongEntries_stops (safeJoin_plain hfree hroot haccepts)).bind
        (amongEntries_stops hmeta).bind_error⟩
  · obtain ⟨error, hjoin⟩ := safeJoin_plain_rejects hfree hroot haccepts
    exact ⟨error, (amongEntries_stops hjoin).bind_error⟩

theorem deleteIn_no_root {kind : IoErrorKind} (hroot : t.canonicalize root = .error kind) (label userPath : String) :
    ∃ error, (FsService.deleteIn label root userPath).Stops EntryQuietly t (.error error) t := by
  rw [FsService.deleteIn]
  by_cases hempty : userPath = ""
  · rw [if_pos hempty]
    exact ⟨_, rfl, rfl⟩
  · obtain ⟨error, hjoin⟩ := safeJoin_no_root hroot userPath
    rw [if_neg hempty]
    exact ⟨error, (amongEntries_stops hjoin).bind_error⟩

/-! ### Renaming -/

variable {oldPath newPath : String}

/-- The source exists and the destination does not: nothing stands against the rename yet. -/
structure Renamable (t : FileTree) (place : Path) (oldPath newPath : String) : Prop where
  source : Accepts t place oldPath
  dest : Accepts t place newPath
  present : t.node (place ++ splitComponents oldPath) ≠ none
  vacant : t.node (place ++ splitComponents newPath) = none

theorem renameIn_rejects (hfree : t.LinkFree) (hroot : t.canonicalize root = .ok place) (kind : String)
    (h : ¬ Renamable t place oldPath newPath) :
    ∃ error, (FsService.renameIn kind root oldPath newPath).Stops EntryQuietly t (.error error) t := by
  rw [FsService.renameIn]
  by_cases hold : oldPath = ""
  · rw [if_pos hold]
    exact ⟨_, rfl, rfl⟩
  rw [if_neg hold]
  by_cases hnew : newPath = ""
  · rw [if_pos hnew]
    exact ⟨_, rfl, rfl⟩
  rw [if_neg hnew]
  by_cases hsource : Accepts t place oldPath
  · by_cases hdest : Accepts t place newPath
    · have hfrom := existsOrFalse_stops (straight_join hfree hroot hsource.wellFormed)
      have hto := existsOrFalse_stops (straight_join hfree hroot hdest.wellFormed)
      by_cases hpresent : t.node (place ++ splitComponents oldPath) = none
      · refine ⟨.notFound, ?_⟩
        refine (amongEntries_stops (safeJoin_plain hfree hroot hsource)).bind ?_
        refine (amongEntries_stops (safeJoin_plain hfree hroot hdest)).bind ?_
        refine (amongEntries_stops hfrom).bind ?_
        rw [if_pos (by simpa using hpresent)]
        exact ⟨rfl, rfl⟩
      · have hvacant : t.node (place ++ splitComponents newPath) ≠ none := fun hnone =>
          h ⟨hsource, hdest, hpresent, hnone⟩
        refine ⟨.conflict "An entry already exists at the destination path.", ?_⟩
        refine (amongEntries_stops (safeJoin_plain hfree hroot hsource)).bind ?_
        refine (amongEntries_stops (safeJoin_plain hfree hroot hdest)).bind ?_
        refine (amongEntries_stops hfrom).bind ?_
        rw [if_neg (by simpa using hpresent)]
        refine (amongEntries_stops hto).bind ?_
        rw [if_pos (by simpa using hvacant)]
        exact ⟨rfl, rfl⟩
    · obtain ⟨error, hjoin⟩ := safeJoin_plain_rejects hfree hroot hdest
      exact ⟨error, (amongEntries_stops (safeJoin_plain hfree hroot hsource)).bind
        (amongEntries_stops hjoin).bind_error⟩
  · obtain ⟨error, hjoin⟩ := safeJoin_plain_rejects hfree hroot hsource
    exact ⟨error, (amongEntries_stops hjoin).bind_error⟩

theorem renameIn_no_root {kind : IoErrorKind} (hroot : t.canonicalize root = .error kind) (label : String)
    (oldPath newPath : String) :
    ∃ error, (FsService.renameIn label root oldPath newPath).Stops EntryQuietly t (.error error) t := by
  rw [FsService.renameIn]
  by_cases hold : oldPath = ""
  · rw [if_pos hold]
    exact ⟨_, rfl, rfl⟩
  rw [if_neg hold]
  by_cases hnew : newPath = ""
  · rw [if_pos hnew]
    exact ⟨_, rfl, rfl⟩
  · obtain ⟨error, hjoin⟩ := safeJoin_no_root hroot oldPath
    rw [if_neg hnew]
    exact ⟨error, (amongEntries_stops hjoin).bind_error⟩

theorem rename_ok {path' : Path} {t' : FileTree} (h : t.renameTo path path' = .ok t') (choice : Choice)
    (hquiet : choice.Quiet) : (EntryCall.rename path path').perform choice t = (.ok (), t') := by
  simp only [EntryCall.perform, guard_of_quiet hquiet, h, Except.mapError]

theorem rename_error {path' : Path} {kind : IoErrorKind} (h : t.renameTo path path' = .error kind)
    (choice : Choice) (hquiet : choice.Quiet) :
    (EntryCall.rename path path').perform choice t = (.error (IoError.ofKind kind), t) := by
  simp only [EntryCall.perform, guard_of_quiet hquiet, h, Except.mapError]

theorem Accepts.dir (h : Accepts t place oldPath) (hfree : t.LinkFree) (hroot : t.canonicalize root = .ok place) :
    t.node place = some .dir := by
  refine hfree.dir_of_no_file (canonicalize_resolved hroot).2 fun content => ?_
  have hroot := h.passable [] (by simp) (Ne.symm (splitComponents_ne_nil oldPath)) content
  rwa [List.append_nil] at hroot

/-- No file is on the way to the parent of an accepted path. -/
theorem Accepts.parent_passable (h : Accepts t place oldPath) (hfree : t.LinkFree)
    (hroot : t.canonicalize root = .ok place) {p : Path}
    (hp : p <+: (place ++ splitComponents oldPath).dropLast) (content : Bytes) :
    t.node p ≠ some (.file content) := by
  rw [List.dropLast_append_of_ne_nil (splitComponents_ne_nil oldPath)] at hp
  rcases List.prefix_or_prefix_of_prefix hp (List.prefix_append place _) with habove | ⟨front, rfl⟩
  · rw [node_above_dir habove (h.dir hfree hroot)]
    simp
  · have hfront := (List.prefix_append_right_inj place).mp hp
    refine h.passable front (hfront.trans (List.dropLast_prefix _)) ?_ content
    rintro rfl
    have hlength := hfront.length_le
    have hpos := List.length_pos_of_ne_nil (splitComponents_ne_nil oldPath)
    rw [List.length_dropLast] at hlength
    omega

theorem not_dest_above (hpresent : t.node (place ++ splitComponents oldPath) ≠ none)
    (hvacant : t.node (place ++ splitComponents newPath) = none) :
    ¬ place ++ splitComponents newPath <+: place ++ splitComponents oldPath := by
  rintro ⟨rest, hrest⟩
  rw [← hrest] at hpresent
  by_cases hnil : rest = []
  · rw [hnil, List.append_nil] at hpresent
    exact hpresent hvacant
  · exact hpresent (node_append_of_not_dir (by rw [hvacant]; simp) hnil)

/-- Otherwise the parents of the destination are made, and the entry moves unless the destination lies
inside it. -/
theorem renameIn_stops (hfree : t.LinkFree) (hroot : t.canonicalize root = .ok place) (kind : String)
    (h : Renamable t place oldPath newPath) :
    ∃ made, t.createDirs [] (place ++ splitComponents newPath).dropLast = .ok made ∧
      (∀ p, made.node p = if p <+: (place ++ splitComponents newPath).dropLast then some .dir else t.node p) ∧
      if splitComponents oldPath <+: splitComponents newPath then
        ∃ error, (FsService.renameIn kind root oldPath newPath).Stops EntryQuietly t (.error error) made
      else made.Movable (place ++ splitComponents oldPath) (place ++ splitComponents newPath) ∧
        (FsService.renameIn kind root oldPath newPath).Stops EntryQuietly t (.ok ⟨oldPath, newPath⟩)
          (made.move (place ++ splitComponents oldPath) (place ++ splitComponents newPath)) := by
  obtain ⟨hsource, hdest, hpresent, hvacant⟩ := h
  have hfromPath := straight_join hfree hroot hsource.wellFormed
  have htoPath := straight_join hfree hroot hdest.wellFormed
  have hne : place ++ splitComponents newPath ≠ [] := by simp [splitComponents_ne_nil]
  obtain ⟨made, hmade, hnodes⟩ := createDirs_plain (place ++ splitComponents newPath).dropLast hfree
    resolved_root t.root (fun name hname => htoPath.ordinary name (List.dropLast_subset _ hname))
    fun p hp content => hdest.parent_passable hfree hroot hp content
  have hframe : ∀ p, made.node p =
      if p <+: (place ++ splitComponents newPath).dropLast then some .dir else t.node p := fun p => by
    simpa using hnodes p
  have hmadeFree : made.LinkFree := hfree.createDirs hmade
  have hparent : made.node (place ++ splitComponents newPath).dropLast = some .dir := by
    rw [hframe, if_pos (List.prefix_refl _)]
  have hmadeVacant : made.node (place ++ splitComponents newPath) = none := by
    rw [hframe, if_neg, hvacant]
    intro hpre
    have hlength := hpre.length_le
    rw [List.length_dropLast] at hlength
    have hpos := List.length_pos_of_ne_nil hne
    omega
  have hmadePresent : made.node (place ++ splitComponents oldPath) ≠ none := by
    rw [hframe]
    split
    · simp
    · exact hpresent
  have hfromEntry : made.locateEntry (place ++ splitComponents oldPath) = .ok (place ++ splitComponents oldPath) :=
    locateEntry_of_resolved (resolved_of_straight (hmadeFree.straight hfromPath.ordinary) hmadePresent)
  have htoEntry : made.locateEntry (place ++ splitComponents newPath) = .ok (place ++ splitComponents newPath) := by
    have hresolved : made.Resolved (place ++ splitComponents newPath) :=
      ⟨htoPath.ordinary, hparent, fun absolute target => hmadeFree _ absolute target⟩
    exact locateEntry_of_resolved hresolved
  have hprelude : ∀ {result t'}, (entryCall (.rename (place ++ splitComponents oldPath)
        (place ++ splitComponents newPath)) fun e => .internal ("Failed to rename entry: " ++ e.message)).Stops
          EntryQuietly made result t' →
      (FsService.renameIn kind root oldPath newPath).Stops EntryQuietly t
        (result.map fun _ => ⟨oldPath, newPath⟩) t' := by
    intro result t' hrename
    rw [FsService.renameIn, if_neg hsource.wellFormed.nonempty, if_neg hdest.wellFormed.nonempty]
    refine (amongEntries_stops (safeJoin_plain hfree hroot hsource)).bind ?_
    refine (amongEntries_stops (safeJoin_plain hfree hroot hdest)).bind ?_
    refine (amongEntries_stops (existsOrFalse_stops hfromPath)).bind ?_
    rw [if_neg (by simpa using hpresent)]
    refine (amongEntries_stops (existsOrFalse_stops htoPath)).bind ?_
    rw [if_neg (by simpa using hvacant), if_pos hne]
    refine (amongEntries_stops (createDirAll_stops hmade)).bind ?_
    cases result with
    | ok value => exact hrename.bind ⟨rfl, rfl⟩
    | error error => exact hrename.bind_error
  have hmove := renameTo_free hfromEntry htoEntry hmadePresent hmadeVacant
  refine ⟨made, hmade, hframe, ?_⟩
  by_cases hinside : splitComponents oldPath <+: splitComponents newPath
  · rw [if_pos hinside]
    rw [if_pos ((List.prefix_append_right_inj place).mpr hinside)] at hmove
    exact ⟨_, hprelude (entryCall_stops (rename_error hmove))⟩
  · rw [if_neg hinside]
    have houtside : ¬ place ++ splitComponents oldPath <+: place ++ splitComponents newPath := fun hpre =>
      hinside ((List.prefix_append_right_inj place).mp hpre)
    rw [if_neg houtside] at hmove
    exact ⟨⟨houtside, not_dest_above hpresent hvacant, hparent⟩, hprelude (entryCall_stops (rename_ok hmove))⟩

end IronDrive
