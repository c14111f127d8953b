import IronDrive.EntryMoves
import IronDrive.PagePaths

/-! The bulk routes of the pages: a loop over the listed paths that counts what succeeds and collects what does
not. Moves of any number of entries keep every content; deletions leave what no listed path names. -/

namespace IronDrive

open Lib FileTree PathSafety FsService

/-- What a bulk route reports: how many entries it changed, and an error for each of the others. -/
structure BulkReport where
  changed : Nat
  errors : List String
  deriving DecidableEq

namespace BulkReport

def success (report : BulkReport) : BulkReport := { report with changed := report.changed + 1 }

def failure (report : BulkReport) (userPath : String) (message : String) : BulkReport :=
  { report with errors := report.errors ++ [userPath ++ ": " ++ message] }

/-- The report on one entry more. -/
def record {α : Type} (report : BulkReport) (userPath : String) : Except AppError α → BulkReport
  | .ok _ => report.success
  | .error e => report.failure userPath e.display

end BulkReport

def maxBulkPaths : Nat := 500

/-- The checks of a bulk route before its loop. The library is that of the user, or why there is none. -/
def bulkRoute (library : Except AppError String) (paths : List String)
    (loop : String → EntryProgram BulkReport) : EntryProgram BulkReport :=
  match library with
  | .error _ => .done ⟨0, ["Library not found."]⟩
  | .ok libraryId =>
      if paths = [] ∨ maxBulkPaths < paths.length then .done ⟨0, ["Invalid number of paths (1–500)."]⟩
      else loop libraryId

variable (config : AppConfig)

def deleteEach (libraryId : String) : List String → BulkReport → EntryProgram BulkReport
  | [], report => .done report
  | path :: rest, report => do
      let result ← (deleteEntry config libraryId path).outcome
      deleteEach libraryId rest (report.record path result)

def bulkDelete (library : Except AppError String) (paths : List String) : EntryProgram BulkReport :=
  bulkRoute library paths fun libraryId => deleteEach config libraryId paths ⟨0, []⟩

def moveEach (libraryId targetDir : String) : List String → BulkReport → EntryProgram BulkReport
  | [], report => .done report
  | oldPath :: rest, report =>
      match moveDestination oldPath targetDir with
      | none => moveEach libraryId targetDir rest (report.failure oldPath "Invalid source path.")
      | some newPath => do
          let result ← (renameEntry config libraryId oldPath newPath).outcome
          moveEach libraryId targetDir rest (report.record oldPath result)

def bulkMove (library : Except AppError String) (targetDir : String) (paths : List String) :
    EntryProgram BulkReport :=
  bulkRoute library paths fun libraryId => moveEach config libraryId targetDir paths ⟨0, []⟩

/-- The calls that make directories and move entries. -/
inductive MoveCall
  | createDirectory (userPath : String)
  | renameEntry (oldPath newPath : String)
  | bulkMove (targetDir : String) (paths : List String)

/-- A call on a library, whatever comes of it. -/
def MoveCall.program (libraryId : String) : MoveCall → EntryProgram Unit
  | createDirectory userPath => do
      let _ ← (amongEntries (FsService.createDirectory config libraryId userPath)).outcome
      return ()
  | renameEntry oldPath newPath => do
      let _ ← (FsService.renameEntry config libraryId oldPath newPath).outcome
      return ()
  | bulkMove targetDir paths => do
      let _ ← IronDrive.bulkMove config (.ok libraryId) targetDir paths
      return ()

/-- The calls one after the other. -/
def runMoves (oracle : Nat → Choice) (libraryId : String) : List MoveCall → Disk → Disk
  | [], disk => disk
  | call :: rest, disk =>
      runMoves oracle libraryId rest ((call.program config libraryId).run (entryHandler oracle) disk).2

variable {config} {t t' : FileTree} {root base : Path}

/-- No link is new, and below a place the same contents are stored, perhaps elsewhere. -/
structure Rearranged (base : Path) (t t' : FileTree) : Prop where
  linkFree : t'.LinkFree
  contents : (t'.contents base).Perm (t.contents base)

theorem Rearranged.trans {t'' : FileTree} (h : Rearranged base t t') (h' : Rearranged base t' t'') :
    Rearranged base t t'' := ⟨h'.linkFree, h'.contents.trans h.contents⟩

/-- The root never leads outside the place. -/
def RootBelow (root base : Path) : Prop :=
  ∀ t : FileTree, t.LinkFree → ∀ place, t.canonicalize root = .ok place → base <+: place

theorem createDirAll_rearranges (base : Path) (hfree : t.LinkFree) (path : Path) :
    (fsCall (.createDirAll path)).Ensures Quietly t fun _ t' => Rearranged base t t' := by
  rintro answer t' ⟨choice, hquiet, hperform⟩
  have hfault : choice.fault = none := hquiet
  simp only [FsCall.perform, hfault] at hperform
  cases hmade : t.createDirs [] path with
  | ok made =>
      rw [hmade] at hperform
      obtain ⟨rfl, rfl⟩ := Prod.mk.inj hperform
      exact ⟨hfree.createDirs hmade, by rw [contents_createDirs _ hmade]⟩
  | error kind =>
      rw [hmade] at hperform
      obtain ⟨rfl, rfl⟩ := Prod.mk.inj hperform
      exact ⟨hfree, List.Perm.refl _⟩

theorem readsOnly_keeps {α : Type} {program : FsProgram α} (h : ReadsOnly program) (t : FileTree) :
    program.Ensures Quietly t fun _ t' => t' = t := by
  refine Program.Only.ensures (I := fun v => v = t) h ?_ rfl
  rintro op v answer v' hop rfl ⟨choice, -, hperform⟩
  have hkeep := perform_readOnly hop choice v
  rw [hperform] at hkeep
  exact hkeep

theorem createDirectoryIn_rearranges (base : Path) (hfree : t.LinkFree) (root : Path) (userPath : String) :
    (createDirectoryIn root userPath).Ensures Quietly t fun _ t' => Rearranged base t t' := by
  unfold createDirectoryIn
  split
  · exact ⟨hfree, List.Perm.refl _⟩
  · refine Program.Ensures.bind (readsOnly_keeps (safeJoin_readsOnly root userPath) t) ?_ ?_
    · rintro target t₁ rfl
      refine Program.Ensures.bind (createDirAll_rearranges base hfree target) ?_ ?_
      · intro answer t₂ hmade
        cases answer with
        | ok value => exact hmade
        | error e =>
            have hread : ReadsOnly (fsCall (.metadata target)) := fsCall_only _ trivial
            refine Program.Ensures.bind (readsOnly_keeps hread t₂) ?_ ?_
            · rintro stat t₃ rfl
              cases stat with
              | ok m =>
                  dsimp only
                  split
                  · exact hmade
                  · exact hmade
              | error e' => exact hmade
            · rintro error t₃ rfl
              exact hmade
      · exact fun error t₂ hmade => hmade
    · rintro error t₁ rfl
      exact ⟨hfree, List.Perm.refl _⟩

theorem renameIn_rearranges (hbelow : RootBelow root base) (hfree : t.LinkFree) (kind : String)
    (oldPath newPath : String) :
    (renameIn kind root oldPath newPath).Ensures EntryQuietly t fun _ t' => Rearranged base t t' := by
  refine Program.Ensures.mono (renameIn_ensures hfree kind root oldPath newPath) ?_
  rintro result t' ⟨hfree', hcontents, -⟩
  exact ⟨hfree', hcontents base fun place hplace => hbelow t hfree place hplace⟩

theorem moveEach_rearranges {libraryId : String} (hbelow : RootBelow (libraryRoot config libraryId) base)
    (targetDir : String) (paths : List String) : ∀ {t : FileTree} (report : BulkReport), t.LinkFree →
      (moveEach config libraryId targetDir paths report).Ensures EntryQuietly t fun _ t' => Rearranged base t t' := by
  induction paths with
  | nil => intro t report hfree; exact ⟨hfree, List.Perm.refl _⟩
  | cons oldPath rest ih =>
      intro t report hfree
      rw [moveEach]
      cases moveDestination oldPath targetDir with
      | none => exact ih _ hfree
      | some newPath =>
          refine Program.Ensures.outcome_bind (renameIn_rearranges hbelow hfree "library" oldPath newPath) ?_
          intro result t₁ hmoved
          refine Program.Ensures.mono (ih _ hmoved.linkFree) ?_
          exact fun _ t₂ hlater => hmoved.trans hlater

/-- One call rearranges the contents at most. -/
theorem MoveCall.rearranges {libraryId : String} (hbelow : RootBelow (libraryRoot config libraryId) base)
    (call : MoveCall) (hfree : t.LinkFree) :
    (call.program config libraryId).Ensures EntryQuietly t fun _ t' => Rearranged base t t' := by
  cases call with
  | createDirectory userPath =>
      refine Program.Ensures.outcome_bind
        (amongEntries_ensures (createDirectoryIn_rearranges base hfree (libraryRoot config libraryId) userPath)) ?_
      exact fun result t' hmade => hmade
  | renameEntry oldPath newPath =>
      refine Program.Ensures.outcome_bind (renameIn_rearranges hbelow hfree "library" oldPath newPath) ?_
      exact fun result t' hmoved => hmoved
  | bulkMove targetDir paths =>
      have hloop : (IronDrive.bulkMove config (.ok libraryId) targetDir paths).Ensures EntryQuietly t
          fun _ t' => Rearranged base t t' := by
        unfold IronDrive.bulkMove bulkRoute
        dsimp only
        split
        · exact ⟨hfree, List.Perm.refl _⟩
        · exact moveEach_rearranges hbelow targetDir paths _ hfree
      exact Program.Ensures.bind hloop (fun report t' hmoved => hmoved) fun error t' hmoved => hmoved

theorem runMoves_rearranges {libraryId : String} (hbelow : RootBelow (libraryRoot config libraryId) base)
    {oracle : Nat → Choice} (hquiet : QuietOracle oracle) (calls : List MoveCall) : ∀ {disk : Disk},
      disk.tree.LinkFree → Rearranged base disk.tree (runMoves config oracle libraryId calls disk).tree := by
  induction calls with
  | nil => intro disk hfree; exact ⟨hfree, List.Perm.refl _⟩
  | cons call rest ih =>
      intro disk hfree
      have hstep := run_of_entry_ensures hquiet (call.rearranges hbelow hfree)
      exact hstep.trans (ih hstep.linkFree)

theorem rootBelow_nil (root : Path) : RootBelow root [] := fun _ _ _ _ => List.nil_prefix

theorem rootBelow_self (hord : ∀ name ∈ root, Ordinary name) : RootBelow root root := by
  intro t hfree place hplace
  rw [canonicalize_of_straight (hfree.straight hord) hplace]

/-- Moves lose and duplicate nothing: over any run of calls that make directories and move entries, failing or
not, the disk keeps its contents, and so does the library alone. A rename that succeeds moves exactly the
subtree it names, and makes only missing directories above the new place. -/
theorem moves_keep_contents (oracle : Nat → Choice) (hquiet : QuietOracle oracle) (disk : Disk)
    (hfree : disk.tree.LinkFree) (config : AppConfig) (libraryId : String) (calls : List MoveCall) :
    let after := runMoves config oracle libraryId calls disk
    (after.tree.contents []).Perm (disk.tree.contents []) ∧
    ((∀ name ∈ libraryRoot config libraryId, Ordinary name) →
      (after.tree.contents (libraryRoot config libraryId)).Perm
        (disk.tree.contents (libraryRoot config libraryId))) ∧
    ∀ oldPath newPath value,
      ((renameEntry config libraryId oldPath newPath).run (entryHandler oracle) after).1 = .ok value →
        ∃ place, after.tree.canonicalize (libraryRoot config libraryId) = .ok place ∧
          Moved after.tree
            ((renameEntry config libraryId oldPath newPath).run (entryHandler oracle) after).2.tree
            (place ++ splitComponents oldPath) (place ++ splitComponents newPath) := by
  have hwhole : Rearranged [] disk.tree (runMoves config oracle libraryId calls disk).tree :=
    runMoves_rearranges (rootBelow_nil _) hquiet calls hfree
  refine ⟨hwhole.contents, fun hord => ?_, fun oldPath newPath value hvalue => ?_⟩
  · exact (runMoves_rearranges (rootBelow_self hord) hquiet calls hfree).contents
  · have hends := run_of_entry_ensures hquiet
      (renameIn_ensures hwhole.linkFree "library" (libraryRoot config libraryId) oldPath newPath)
    exact hends.2.2 value hvalue

/-- Moves into one directory, the second of a file that is not there any more. -/
def docsMoves : List MoveCall :=
  [.createDirectory "x", .renameEntry "docs" "x/y", .bulkMove "z" ["x/y", "docs/a"]]

theorem moves_keep_contents_docs :
    let after := runMoves sampleConfig calmOracle "l" docsMoves docsDisk
    (after.tree.contents []).Perm (docsDisk.tree.contents []) ∧
    ((∀ name ∈ libraryRoot sampleConfig "l", Ordinary name) →
      (after.tree.contents (libraryRoot sampleConfig "l")).Perm
        (docsDisk.tree.contents (libraryRoot sampleConfig "l"))) ∧
    ∀ oldPath newPath value,
      ((renameEntry sampleConfig "l" oldPath newPath).run (entryHandler calmOracle) after).1 = .ok value →
        ∃ place, after.tree.canonicalize (libraryRoot sampleConfig "l") = .ok place ∧
          Moved after.tree
            ((renameEntry sampleConfig "l" oldPath newPath).run (entryHandler calmOracle) after).2.tree
            (place ++ splitComponents oldPath) (place ++ splitComponents newPath) :=
  moves_keep_contents calmOracle calmOracle_quiet docsDisk docsDisk_linkFree sampleConfig "l" docsMoves

variable {place : Path}

theorem doomed_of_pruned {gone : List Path} {p : Path} (hexists : t.node p ≠ none)
    (hpruned : (t.prune gone).node p = none) : Doomed gone p := by
  by_contra hstays
  rw [node_prune, if_neg hstays] at hpruned
  exact hexists hpruned

/-- A doomed place more changes nothing. -/
theorem prune_concat_of_doomed {gone : List Path} {p : Path} (hp : p ≠ []) (h : Doomed gone p) :
    t.prune (gone ++ [p]) = t.prune gone := by
  refine prune_congr fun q => ?_
  rw [doomed_concat hp]
  exact ⟨fun hq => hq.elim id fun hpre => h.below hpre, Or.inl⟩

theorem namedEntry_ne_nil {userPath : String} {entry : Path} (h : namedEntry t place userPath = some entry) :
    entry ≠ [] := by
  obtain ⟨-, rfl, -⟩ := namedEntry_eq_some.mp h
  simp [splitComponents_ne_nil]

/-- One deletion, after others: it removes what its path named in the beginning. -/
theorem deleteIn_pruned (hfree : t.LinkFree) (hord : ∀ name ∈ root, Ordinary name) (gone : List Path)
    (kind userPath : String) : (deleteIn kind root userPath).Ensures EntryQuietly (t.prune gone) fun _ t' =>
      t' = t.prune (gone ++ (namedEntry t root userPath).toList) := by
  have hfree' := hfree.prune gone
  have hstays : namedEntry (t.prune gone) root userPath = none →
      t.prune gone = t.prune (gone ++ (namedEntry t root userPath).toList) := by
    intro hnone
    cases hnamed : namedEntry t root userPath with
    | none => rw [Option.toList_none, List.append_nil]
    | some entry =>
        obtain ⟨hwell, hentry, hexists⟩ := namedEntry_eq_some.mp hnamed
        have hpruned : (t.prune gone).node entry = none := by
          by_contra hne
          rw [namedEntry_eq_some.mpr ⟨hwell, hentry, hne⟩] at hnone
          cases hnone
        exact (prune_concat_of_doomed (namedEntry_ne_nil hnamed) (doomed_of_pruned hexists hpruned)).symm
  rcases canonicalize_plain (hfree'.straight hord) with ⟨-, hroot⟩ | ⟨hmissing, why, hroot⟩
  · cases hnow : namedEntry (t.prune gone) root userPath with
    | none =>
        obtain ⟨error, hstops⟩ := deleteIn_rejects hfree' hroot kind hnow
        refine Program.Ensures.mono hstops ?_
        rintro result t' ⟨-, rfl⟩
        exact hstays hnow
    | some entry =>
        obtain ⟨hwell, hentry, hexists⟩ := namedEntry_eq_some.mp hnow
        have hbefore : t.node entry ≠ none := by
          rw [node_prune] at hexists
          split at hexists
          · exact absurd rfl hexists
          · exact hexists
        rw [namedEntry_eq_some.mpr ⟨hwell, hentry, hbefore⟩]
        refine Program.Ensures.mono (deleteIn_stops hfree' hroot kind hnow) ?_
        rintro result t' ⟨-, rfl⟩
        exact removeAll_prune (namedEntry_ne_nil hnow)
  · obtain ⟨error, hstops⟩ := deleteIn_no_root hroot kind userPath
    refine Program.Ensures.mono hstops ?_
    rintro result t' ⟨-, rfl⟩
    apply hstays
    cases hnow : namedEntry (t.prune gone) root userPath with
    | none => rfl
    | some entry =>
        obtain ⟨-, rfl, hexists⟩ := namedEntry_eq_some.mp hnow
        rw [node_append_of_not_dir (by rw [hmissing]; simp) (splitComponents_ne_nil userPath)] at hexists
        exact absurd rfl hexists

theorem deleteEach_pruned {libraryId : String} (hfree : t.LinkFree)
    (hord : ∀ name ∈ libraryRoot config libraryId, Ordinary name) (paths : List String) :
    ∀ (gone : List Path) (report : BulkReport),
      (deleteEach config libraryId paths report).Ensures EntryQuietly (t.prune gone) fun _ t' =>
        t' = t.prune (gone ++ paths.filterMap (namedEntry t (libraryRoot config libraryId))) := by
  induction paths with
  | nil =>
      intro gone report
      exact (congrArg t.prune (List.append_nil gone)).symm
  | cons path rest ih =>
      intro gone report
      rw [deleteEach]
      refine Program.Ensures.outcome_bind (deleteIn_pruned hfree hord gone "library" path) ?_
      rintro result t' rfl
      refine Program.Ensures.mono (ih _ _) ?_
      rintro _ t' rfl
      congr 1
      rw [List.append_assoc]
      congr 1
      cases hnamed : namedEntry t (libraryRoot config libraryId) path with
      | none => rw [List.filterMap_cons_none hnamed, Option.toList_none, List.nil_append]
      | some entry => rw [List.filterMap_cons_some hnamed, Option.toList_some, List.singleton_append]

/-- Bulk deletion, order and repetition apart: up to 500 listed paths leave the tree less every entry at or
below one that a listed path names, so lists of the same paths leave the same tree; longer lists are rejected
and leave the tree as it is. -/
theorem bulk_delete_prunes (oracle : Nat → Choice) (hquiet : QuietOracle oracle) (disk : Disk)
    (hfree : disk.tree.LinkFree) (config : AppConfig) (libraryId : String)
    (hord : ∀ name ∈ libraryRoot config libraryId, Ordinary name) (paths : List String) :
    (paths.length ≤ maxBulkPaths →
      ((bulkDelete config (.ok libraryId) paths).run (entryHandler oracle) disk).2.tree =
        disk.tree.prune (paths.filterMap (namedEntry disk.tree (libraryRoot config libraryId))) ∧
      ∀ paths' : List String, paths'.length ≤ maxBulkPaths → (∀ path, path ∈ paths' ↔ path ∈ paths) →
        ((bulkDelete config (.ok libraryId) paths').run (entryHandler oracle) disk).2.tree =
          ((bulkDelete config (.ok libraryId) paths).run (entryHandler oracle) disk).2.tree) ∧
    (maxBulkPaths < paths.length →
      ((bulkDelete config (.ok libraryId) paths).run (entryHandler oracle) disk).2.tree = disk.tree) := by
  have hleaves : ∀ paths : List String, paths.length ≤ maxBulkPaths →
      ((bulkDelete config (.ok libraryId) paths).run (entryHandler oracle) disk).2.tree =
        disk.tree.prune (paths.filterMap (namedEntry disk.tree (libraryRoot config libraryId))) := by
    intro paths hlength
    by_cases hnil : paths = []
    · subst hnil
      exact (prune_nil disk.tree).symm
    · have hloop := deleteEach_pruned hfree hord paths [] ⟨0, []⟩
      rw [prune_nil] at hloop
      have hroute : bulkDelete config (.ok libraryId) paths = deleteEach config libraryId paths ⟨0, []⟩ := by
        unfold bulkDelete bulkRoute
        exact if_neg (by simp [hnil, hlength])
      rw [hroute]
      exact run_of_entry_ensures hquiet hloop
  refine ⟨fun hlength => ⟨hleaves paths hlength, fun paths' hlength' hsame => ?_⟩, fun hlong => ?_⟩
  · rw [hleaves paths hlength, hleaves paths' hlength']
    refine prune_congr fun p => ?_
    simp only [Doomed, List.mem_filterMap, hsame]
  · have hroute : bulkDelete config (.ok libraryId) paths =
        .done ⟨0, ["Invalid number of paths (1–500)."]⟩ := by
      unfold bulkDelete bulkRoute
      exact if_pos (Or.inr hlong)
    rw [hroute]
    rfl

/-- A directory listed 501 times stays. -/
theorem bulk_delete_long_list :
    ¬ ∀ (oracle : Nat → Choice), QuietOracle oracle → ∀ disk : Disk, disk.tree.LinkFree →
      ∀ (config : AppConfig) (libraryId : String), (∀ name ∈ libraryRoot config libraryId, Ordinary name) →
        ∀ paths : List String,
          ((bulkDelete config (.ok libraryId) paths).run (entryHandler oracle) disk).2.tree =
            disk.tree.prune (paths.filterMap (namedEntry disk.tree (libraryRoot config libraryId))) := by
  intro h
  have hpruned := h calmOracle calmOracle_quiet docsDisk docsDisk_linkFree sampleConfig "l" sampleRoot_ordinary
    (List.replicate 501 "docs")
  have hroute : bulkDelete sampleConfig (.ok "l") (List.replicate 501 "docs") =
      .done ⟨0, ["Invalid number of paths (1–500)."]⟩ := by
    unfold bulkDelete bulkRoute
    exact if_pos (Or.inr (by rw [List.length_replicate]; decide))
  have hnamed : namedEntry docsDisk.tree (libraryRoot sampleConfig "l") "docs" =
      some ["libraries", "l", "docs"] := by decide +kernel
  have hdoomed : Doomed ((List.replicate 501 "docs").filterMap
      (namedEntry docsDisk.tree (libraryRoot sampleConfig "l"))) ["libraries", "l", "docs"] :=
    ⟨_, List.mem_filterMap.mpr ⟨"docs", List.mem_replicate.mpr ⟨by decide, rfl⟩, hnamed⟩, by simp,
      List.prefix_refl _⟩
  have hnode := congrArg (fun t : FileTree => t.node ["libraries", "l", "docs"]) hpruned
  simp only [hroute, Program.run_done, node_prune, if_pos hdoomed] at hnode
  revert hnode
  decide

/-- Nested and missing paths, in one order; the theorem gives the tree for every order. -/
theorem bulk_delete_prunes_docs :
    (["docs/a", "docs", "gone"].length ≤ maxBulkPaths →
      ((bulkDelete sampleConfig (.ok "l") ["docs/a", "docs", "gone"]).run (entryHandler calmOracle)
          docsDisk).2.tree =
        docsDisk.tree.prune
          (["docs/a", "docs", "gone"].filterMap (namedEntry docsDisk.tree (libraryRoot sampleConfig "l"))) ∧
      ∀ paths' : List String, paths'.length ≤ maxBulkPaths →
        (∀ path, path ∈ paths' ↔ path ∈ ["docs/a", "docs", "gone"]) →
          ((bulkDelete sampleConfig (.ok "l") paths').run (entryHandler calmOracle) docsDisk).2.tree =
            ((bulkDelete sampleConfig (.ok "l") ["docs/a", "docs", "gone"]).run (entryHandler calmOracle)
              docsDisk).2.tree) ∧
    (maxBulkPaths < ["docs/a", "docs", "gone"].length →
      ((bulkDelete sampleConfig (.ok "l") ["docs/a", "docs", "gone"]).run (entryHandler calmOracle)
        docsDisk).2.tree = docsDisk.tree) :=
  bulk_delete_prunes calmOracle calmOracle_quiet docsDisk docsDisk_linkFree sampleConfig "l" sampleRoot_ordinary
    ["docs/a", "docs", "gone"]

end IronDrive
