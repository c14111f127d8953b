import IronDrive.EntryEffects
import IronDrive.ChunkService

/-! Renames that fail, and what moves keep. A rejected rename can leave the parents of its destination behind;
no sequence of moves stores or loses a file's content. -/

namespace IronDrive

open Lib FileTree PathSafety FsService

variable {t : FileTree} {root place : Path} {oldPath newPath : String}

/-- The entry at `source` went to `dest` with all below it; elsewhere only missing directories above `dest`
were made. -/
structure Moved (t t' : FileTree) (source dest : Path) : Prop where
  present : t.node source ≠ none
  vacant : t.node dest = none
  arrived : ∀ rest, t'.node (dest ++ rest) = t.node (source ++ rest)
  gone : ∀ rest, t'.node (source ++ rest) = none
  elsewhere : ∀ p, ¬ source <+: p → ¬ dest <+: p →
    t'.node p = t.node p ∨ (t.node p = none ∧ t'.node p = some .dir ∧ p <+: dest)

theorem moved_of_made {made : FileTree} {source dest : Path} (hmovable : made.Movable source dest)
    (hpresent : t.node source ≠ none) (hvacant : t.node dest = none)
    (hframe : ∀ p, made.node p = if p <+: dest.dropLast then some .dir else t.node p)
    (hfile : ∀ p, p <+: dest.dropLast → t.node p = none ∨ t.node p = some .dir) :
    Moved t (made.move source dest) source dest where
  present := hpresent
  vacant := hvacant
  arrived rest := by
    have hoff : ¬ source ++ rest <+: dest.dropLast := fun hpre =>
      hmovable.not_inside ((List.prefix_append source rest).trans (hpre.trans dest.dropLast_prefix))
    rw [node_move_below hmovable, hframe, if_neg hoff]
  gone rest := node_move_source hmovable rest
  elsewhere p hsource hdest := by
    rw [node_move_elsewhere hmovable hsource hdest, hframe]
    by_cases hp : p <+: dest.dropLast
    · rw [if_pos hp]
      rcases hfile p hp with hnone | hdir
      · exact Or.inr ⟨hnone, rfl, hp.trans dest.dropLast_prefix⟩
      · exact Or.inl hdir.symm
    · rw [if_neg hp]
      exact Or.inl rfl

theorem none_or_dir_above (hfree : t.LinkFree) (hroot : t.canonicalize root = .ok place)
    (hdest : Accepts t place newPath) {p : Path} (hp : p <+: (place ++ splitComponents newPath).dropLast) :
    t.node p = none ∨ t.node p = some .dir := by
  by_cases hnone : t.node p = none
  · exact Or.inl hnone
  · exact Or.inr (hfree.dir_of_no_file hnone fun content => hdest.parent_passable hfree hroot hp content)

/-- How a rename can end: with an error, or with the entry moved; links appear nowhere, and the contents
below any place above the root are rearranged at most. -/
theorem renameIn_ensures (hfree : t.LinkFree) (kind : String) (root : Path) (oldPath newPath : String) :
    (renameIn kind root oldPath newPath).Ensures EntryQuietly t fun result t' =>
      t'.LinkFree ∧
      (∀ base, (∀ place, t.canonicalize root = .ok place → base <+: place) →
        (t'.contents base).Perm (t.contents base)) ∧
      ∀ value, result = .ok value → ∃ place, t.canonicalize root = .ok place ∧
        Moved t t' (place ++ splitComponents oldPath) (place ++ splitComponents newPath) := by
  cases hroot : t.canonicalize root with
  | error why =>
      obtain ⟨error, hstops⟩ := renameIn_no_root hroot kind oldPath newPath
      refine Program.Ensures.mono hstops ?_
      rintro result t' ⟨rfl, rfl⟩
      exact ⟨hfree, fun base _ => List.Perm.refl _, fun value hvalue => by cases hvalue⟩
  | ok place =>
      by_cases h : Renamable t place oldPath newPath
      · obtain ⟨made, hmade, hframe, hends⟩ := renameIn_stops hfree hroot kind h
        have hmadeFree := hfree.createDirs hmade
        by_cases hinside : splitComponents oldPath <+: splitComponents newPath
        · rw [if_pos hinside] at hends
          obtain ⟨error, hstops⟩ := hends
          refine Program.Ensures.mono hstops ?_
          rintro result t' ⟨rfl, rfl⟩
          refine ⟨hmadeFree, fun base _ => ?_, fun value hvalue => by cases hvalue⟩
          rw [contents_createDirs _ hmade]
        · rw [if_neg hinside] at hends
          obtain ⟨hmovable, hstops⟩ := hends
          refine Program.Ensures.mono hstops ?_
          rintro result t' ⟨rfl, rfl⟩
          refine ⟨hmadeFree.move _ _, fun base hbase => ?_, fun value _ => ⟨place, rfl, ?_⟩⟩
          · have hnone : made.node (place ++ splitComponents newPath) = none := by
              rw [hframe, if_neg, h.vacant]
              intro hpre
              have hnil : place ++ splitComponents newPath ≠ [] := hmovable.dest_ne
              exact dropLast_ne_self hnil (hpre.eq_of_length_le (by simp)).symm
            have habove := hbase place rfl
            rw [← contents_createDirs _ hmade base]
            exact contents_move hmovable hnone (habove.trans (List.prefix_append _ _))
              (habove.trans (List.prefix_append _ _))
          · exact moved_of_made hmovable h.present h.vacant hframe fun p hp =>
              none_or_dir_above hfree hroot h.dest hp
      · obtain ⟨error, hstops⟩ := renameIn_rejects hfree hroot kind h
        refine Program.Ensures.mono hstops ?_
        rintro result t' ⟨rfl, rfl⟩
        exact ⟨hfree, fun base _ => List.Perm.refl _, fun value hvalue => by cases hvalue⟩

/-! ### Rejected renames -/

/-- A move of an entry into itself, below a directory that is still to be made. -/
structure LeavesParents (t : FileTree) (root : Path) (oldPath newPath : String) (place : Path) : Prop where
  root : t.canonicalize root = .ok place
  renamable : Renamable t place oldPath newPath
  inside : splitComponents oldPath <+: splitComponents newPath
  missing : t.node (place ++ splitComponents newPath).dropLast = none

/-- A parent that is there is not made again. -/
theorem createDirs_parent_of_exists (hfree : t.LinkFree) (hroot : t.canonicalize root = .ok place)
    (hdest : Accepts t place newPath) (hexists : t.node (place ++ splitComponents newPath).dropLast ≠ none) :
    t.createDirs [] (place ++ splitComponents newPath).dropLast = .ok t := by
  have hstraight := (straight_join hfree hroot hdest.wellFormed).upward (List.dropLast_prefix _)
  have hdir := hfree.dir_of_no_file hexists fun content =>
    hdest.parent_passable hfree hroot (List.prefix_refl _) content
  exact createDirs_of_dir (resolved_of_straight hstraight hexists) hdir

theorem renameIn_unchanged_iff (oracle : Nat → Choice) (hquiet : QuietOracle oracle) (disk : Disk)
    (hfree : disk.tree.LinkFree) (kind : String) (root : Path) (oldPath newPath : String) :
    ((∃ error, ((renameIn kind root oldPath newPath).run (entryHandler oracle) disk).1 = .error error) →
      ((renameIn kind root oldPath newPath).run (entryHandler oracle) disk).2.tree = disk.tree) ↔
    ¬ ∃ place, LeavesParents disk.tree root oldPath newPath place := by
  cases hroot : disk.tree.canonicalize root with
  | error why =>
      obtain ⟨error, hstops⟩ := renameIn_no_root hroot kind oldPath newPath
      obtain ⟨-, htree⟩ := run_of_entry_stops hquiet hstops
      refine ⟨fun _ ⟨place, hleaves⟩ => ?_, fun _ _ => htree⟩
      have hplace := hleaves.root
      rw [hroot] at hplace
      cases hplace
  | ok place =>
      have honly : ∀ place', LeavesParents disk.tree root oldPath newPath place' → place' = place := by
        intro place' hleaves
        have hplace := hleaves.root
        rw [hroot] at hplace
        exact (Except.ok.inj hplace).symm
      by_cases h : Renamable disk.tree place oldPath newPath
      · obtain ⟨made, hmade, hframe, hends⟩ := renameIn_stops hfree hroot kind h
        by_cases hinside : splitComponents oldPath <+: splitComponents newPath
        · rw [if_pos hinside] at hends
          obtain ⟨error, hstops⟩ := hends
          obtain ⟨hresult, htree⟩ := run_of_entry_stops hquiet hstops
          rw [hresult, htree]
          constructor
          · rintro hsame ⟨place', hleaves⟩
            obtain rfl := honly place' hleaves
            have hparent := hframe (place' ++ splitComponents newPath).dropLast
            rw [if_pos (List.prefix_refl _), hsame ⟨error, rfl⟩, hleaves.missing] at hparent
            cases hparent
          · intro hleaves _
            have hexists : disk.tree.node (place ++ splitComponents newPath).dropLast ≠ none := fun hnone =>
              hleaves ⟨place, hroot, h, hinside, hnone⟩
            rw [createDirs_parent_of_exists hfree hroot h.dest hexists] at hmade
            exact (Except.ok.inj hmade).symm
        · rw [if_neg hinside] at hends
          obtain ⟨hresult, -⟩ := run_of_entry_stops hquiet hends.2
          rw [hresult]
          refine ⟨fun _ ⟨place', hleaves⟩ => hinside hleaves.inside, fun _ herror => ?_⟩
          obtain ⟨error, herror⟩ := herror
          cases herror
      · obtain ⟨error, hstops⟩ := renameIn_rejects hfree hroot kind h
        obtain ⟨-, htree⟩ := run_of_entry_stops hquiet hstops
        refine ⟨fun _ ⟨place', hleaves⟩ => ?_, fun _ _ => htree⟩
        obtain rfl := honly place' hleaves
        exact h hleaves.renamable

/-- A rejected rename changes nothing, in libraries and in spaces, unless it moves an entry into itself below
a directory that does not exist yet: that directory is made, with its parents, and stays. The operating system reports
no error of its own, as it would for an absolute path above its length limit. -/
theorem rejected_rename_unchanged_iff (oracle : Nat → Choice) (hquiet : QuietOracle oracle) (disk : Disk)
    (hfree : disk.tree.LinkFree) (config : AppConfig) (id oldPath newPath : String) :
    (((∃ error, ((renameEntry config id oldPath newPath).run (entryHandler oracle) disk).1 = .error error) →
        ((renameEntry config id oldPath newPath).run (entryHandler oracle) disk).2.tree = disk.tree) ↔
      ¬ ∃ place, LeavesParents disk.tree (libraryRoot config id) oldPath newPath place) ∧
    (((∃ error, ((renameSpaceEntry config id oldPath newPath).run (entryHandler oracle) disk).1 = .error error) →
        ((renameSpaceEntry config id oldPath newPath).run (entryHandler oracle) disk).2.tree = disk.tree) ↔
      ¬ ∃ place, LeavesParents disk.tree (spaceRoot config id) oldPath newPath place) :=
  ⟨renameIn_unchanged_iff oracle hquiet disk hfree "library" _ oldPath newPath,
    renameIn_unchanged_iff oracle hquiet disk hfree "space" _ oldPath newPath⟩

/-- A library with the file `docs/a`. -/
def docsDisk : Disk where
  tree := ((((FileTree.empty.put ["libraries"] .dir).put ["libraries", "l"] .dir).put
    ["libraries", "l", "docs"] .dir).put ["libraries", "l", "docs", "a"] (.file [1]))
  tick := 0

theorem docsDisk_linkFree : docsDisk.tree.LinkFree := by
  dsimp only [docsDisk]
  apply LinkFree.put
  · apply LinkFree.put
    · apply LinkFree.put
      · apply LinkFree.put linkFree_empty
        simp
      · simp
    · simp
  · simp

theorem sampleRoot_ordinary : ∀ name ∈ libraryRoot sampleConfig "l", Ordinary name := by
  intro name hname
  simp only [libraryRoot, sampleConfig, List.nil_append, List.mem_cons, List.not_mem_nil, or_false] at hname
  rcases hname with rfl | rfl
  · exact ⟨by decide, by decide⟩
  · exact ⟨by decide, by decide⟩

/-- The move of `docs` to `docs/b/c` fails and leaves the directory `docs/b`. -/
theorem rejected_rename_leaves_parents :
    ¬ ∀ (oracle : Nat → Choice), QuietOracle oracle → ∀ disk : Disk, disk.tree.LinkFree →
      ∀ (config : AppConfig) (id oldPath newPath : String),
        (∃ error, ((renameEntry config id oldPath newPath).run (entryHandler oracle) disk).1 = .error error) →
          ((renameEntry config id oldPath newPath).run (entryHandler oracle) disk).2.tree = disk.tree := by
  intro h
  have hsame := h calmOracle calmOracle_quiet docsDisk docsDisk_linkFree sampleConfig "l" "docs" "docs/b/c"
    ⟨.internal ("Failed to rename entry: " ++ (IoError.ofKind .other).message), by decide +kernel⟩
  have hmade : ((renameEntry sampleConfig "l" "docs" "docs/b/c").run (entryHandler calmOracle)
      docsDisk).2.tree.node ["libraries", "l", "docs", "b"] = some .dir := by decide +kernel
  rw [hsame] at hmade
  revert hmade
  decide

/-- A rename onto an existing entry is rejected without a trace. -/
theorem rejected_rename_unchanged_docs :
    (((∃ error, ((renameEntry sampleConfig "l" "docs" "docs/a").run (entryHandler calmOracle) docsDisk).1 =
          .error error) →
        ((renameEntry sampleConfig "l" "docs" "docs/a").run (entryHandler calmOracle) docsDisk).2.tree =
          docsDisk.tree) ↔
      ¬ ∃ place, LeavesParents docsDisk.tree (libraryRoot sampleConfig "l") "docs" "docs/a" place) ∧
    (((∃ error, ((renameSpaceEntry sampleConfig "l" "docs" "docs/a").run (entryHandler calmOracle) docsDisk).1 =
          .error error) →
        ((renameSpaceEntry sampleConfig "l" "docs" "docs/a").run (entryHandler calmOracle) docsDisk).2.tree =
          docsDisk.tree) ↔
      ¬ ∃ place, LeavesParents docsDisk.tree (spaceRoot sampleConfig "l") "docs" "docs/a" place) :=
  rejected_rename_unchanged_iff calmOracle calmOracle_quiet docsDisk docsDisk_linkFree sampleConfig "l" "docs"
    "docs/a"

end IronDrive
