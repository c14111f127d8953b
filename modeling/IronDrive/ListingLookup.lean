import Mathlib.Data.String.Basic
import IronDrive.PagePaths
import IronDrive.WalkerAgreement

/-! Listing and lookup. The path that a listing shows for an entry is the names below the root joined by `/`; the
path check splits it into the same names, so a lookup under it finds the entry that was listed. -/

namespace IronDrive

open Lib FileTree PathSafety CryptoService FsService

variable {t : FileTree} {root place target : Path} {names : List String} {facts : EntryFacts}

def Dotted (name : String) : Prop := name.toList.head? = some '.'

instance (name : String) : Decidable (Dotted name) := inferInstanceAs (Decidable (name.toList.head? = some '.'))

theorem isHidden_eq_false {name : String} : isHidden name = false ↔ ¬ Dotted name := by
  have hinternal : isInternalFile name = true → Dotted name := by
    intro h
    rw [of_decide_eq_true h]
    rfl
  unfold isHidden Dotted at *
  cases hcase : isInternalFile name with
  | true => simpa [hcase] using hinternal hcase
  | false => simp

/-- The path check accepts the name as a path of its own. -/
def AcceptedName (name : String) : Prop := parseUserPath name = .ok [name]

theorem AcceptedName.pathName {name : String} (h : AcceptedName name) : PathName name := by
  obtain ⟨hwell, hsplit⟩ := (parseUserPath_ok_iff name [name]).mp h
  have haddressed := addressed_of_wellFormed hwell
  rw [← hsplit] at haddressed
  exact haddressed.valid name (List.mem_singleton_self name)

/-- The path check accepts every name below the root that does not begin with a dot. -/
def NamesAccepted (t : FileTree) (place : Path) : Prop :=
  ∀ names, t.node (place ++ names) ≠ none → ∀ name ∈ names, ¬ Dotted name → AcceptedName name

theorem NamesAccepted.pathNames (h : NamesAccepted t place) (hnode : t.node (place ++ names) ≠ none)
    (hplain : ∀ name ∈ names, ¬ Dotted name) : ∀ name ∈ names, PathName name :=
  fun name hname => (h names hnode name hname (hplain name hname)).pathName

/-- The components of a directory path, of which the empty one is the root's. -/
def pathComponents (path : String) : List String := if path = "" then [] else splitComponents path

/-- A path within the limits whose components lead to an entry stands for it, whichever separators it has. -/
theorem target_of_components {userPath : String} (hpath : pathComponents userPath = names)
    (hfits : WithinLimits userPath) (hnames : ∀ name ∈ names, PathName name)
    (hnode : t.node (place ++ names) ≠ none) : Target t place userPath (place ++ names) := by
  unfold pathComponents at hpath
  by_cases hempty : userPath = ""
  · rw [if_pos hempty] at hpath
    exact Or.inl ⟨hempty, by rw [← hpath, List.append_nil]⟩
  · rw [if_neg hempty] at hpath
    subst hpath
    exact Or.inr ⟨accepts_of_exists (wellFormed_of_components hempty hfits hnames) hnode, rfl⟩

variable (place) in
/-- The path shown for an entry has the names below the root as its components. -/
theorem components_of_shown (hnames : ∀ name ∈ names, PathName name) :
    pathComponents (relativeDisplayPath place (place ++ names)) = names := by
  rw [relativeDisplayPath_of_names hnames]
  cases names with
  | nil => rfl
  | cons first rest =>
      have hsplit := splitComponents_intercalate (first :: rest) (by simp) fun name hname =>
        (hnames name hname).no_separator
      have hne : "/".intercalate (first :: rest) ≠ "" := by
        intro hempty
        rw [hempty] at hsplit
        have hfirst : first = "" := (List.cons.inj hsplit).1.symm
        exact (hnames first (List.mem_cons_self ..)).wellFormed.nonempty hfirst
      rw [pathComponents, if_neg hne, hsplit]

/-- Directories before files, and each by the lower case of the names. -/
def ListedBefore (facts : EntryFacts) (a b : FsEntry) : Prop :=
  (a.isDir = true ∨ b.isDir = false) ∧ (a.isDir = b.isDir → facts.toLowercase a.name ≤ facts.toLowercase b.name)

theorem entryLe_iff {a b : FsEntry} : entryLe facts a b = true ↔ ListedBefore facts a b := by
  unfold entryLe ListedBefore
  cases a.isDir <;> cases b.isDir <;> simp

theorem ListedBefore.total (a b : FsEntry) : ListedBefore facts a b ∨ ListedBefore facts b a := by
  unfold ListedBefore
  rcases le_total (facts.toLowercase a.name) (facts.toLowercase b.name) with hle | hle <;>
    cases a.isDir <;> cases b.isDir <;> simp [hle]

theorem ListedBefore.trans {a b c : FsEntry} (hab : ListedBefore facts a b) (hbc : ListedBefore facts b c) :
    ListedBefore facts a c := by
  obtain ⟨hdir, hname⟩ := hab
  obtain ⟨hdir', hname'⟩ := hbc
  have hkinds : a.isDir = c.isDir → a.isDir = b.isDir ∧ b.isDir = c.isDir := by
    intro hsame
    rw [← hsame] at hdir' ⊢
    cases ha : a.isDir <;> cases hb : b.isDir <;> simp_all
  refine ⟨?_, fun hsame => (hname (hkinds hsame).1).trans (hname' (hkinds hsame).2)⟩
  rcases hdir with hdir | hdir
  · exact Or.inl hdir
  · rw [hdir] at hdir'
    exact Or.inr (hdir'.resolve_left Bool.false_ne_true)

theorem listing_sorted (entries : List FsEntry) :
    (entries.insertionSort fun a b => entryLe facts a b).Pairwise (ListedBefore facts) := by
  have htotal : Std.Total fun a b : FsEntry => entryLe facts a b = true :=
    ⟨fun a b => by rw [entryLe_iff, entryLe_iff]; exact ListedBefore.total a b⟩
  have htrans : IsTrans FsEntry fun a b => entryLe facts a b = true :=
    ⟨fun a b c hab hbc => entryLe_iff.mpr ((entryLe_iff.mp hab).trans (entryLe_iff.mp hbc))⟩
  exact (List.pairwise_insertionSort _ entries).imp fun h => entryLe_iff.mp h

/-- The names of a listing are those that do not begin with a dot, each once. -/
theorem listing_names {entries : List FsEntry} {canonicalRoot : Path}
    (h : entries.map FsEntry.unverified = ((t.children target).filter fun name => !isHidden name).map
      (listedAs facts t canonicalRoot target)) (name : String) :
    ((entries.insertionSort fun a b => entryLe facts a b).map FsEntry.name).count name =
      if t.node (target ++ [name]) ≠ none ∧ ¬ Dotted name then 1 else 0 := by
  have hnames : entries.map FsEntry.name = (t.children target).filter fun name => !isHidden name := by
    calc entries.map FsEntry.name
        = (entries.map FsEntry.unverified).map FsEntry.name := by rw [List.map_map]; rfl
      _ = ((t.children target).filter fun name => !isHidden name).map id := by rw [h, List.map_map]; rfl
      _ = (t.children target).filter fun name => !isHidden name := List.map_id _
  have hperm := (List.perm_insertionSort (fun a b => entryLe facts a b) entries).map FsEntry.name
  have hmem : name ∈ (t.children target).filter (fun name => !isHidden name) ↔
      t.node (target ++ [name]) ≠ none ∧ ¬ Dotted name := by
    rw [List.mem_filter, mem_children, ← isHidden_eq_false, Bool.not_eq_true']
  rw [hperm.count_eq, hnames]
  split_ifs with hlisted
  · exact List.count_eq_one_of_mem ((nodup_children t target).filter _) (hmem.mpr hlisted)
  · exact List.count_eq_zero_of_not_mem fun hin => hlisted (hmem.mp hin)

/-! ### Listing and lookup -/

/-- A lookup under a path of an entry finds what a listing shows of it. -/
theorem entryInfo_listed (P : Primitives) (facts : EntryFacts) (hfree : t.LinkFree)
    (hroot : t.canonicalize root = .ok place) {name userPath : String}
    (htarget : Target t place userPath (target ++ [name])) (hnode : t.node (target ++ [name]) ≠ none)
    (dataKey : Option DataKey) (checkIntegrity : Bool) :
    (entryInfo P facts dataKey root userPath checkIntegrity).Ensures Quietly t fun result _ =>
      ∃ found, result = .ok found ∧ found.unverified = listedAs facts t place target name := by
  obtain ⟨n, hn⟩ := Option.ne_none_iff_exists'.mp hnode
  have hresolved := resolved_of_straight (htarget.straight hfree hroot) hnode
  have hstat : FsCall.stat t (target ++ [name]) = .ok (Metadata.ofNode n) := by
    simp [FsCall.stat, locate_of_resolved hresolved, hn, bind, Except.bind, pure, Except.pure]
  have hname : fileName (target ++ [name]) = name := by simp [fileName]
  refine Program.Ensures.mono (entryInfo_returns P facts (resolveTarget_plain hfree hroot htarget) hstat
    dataKey checkIntegrity) ?_
  rintro result t' ⟨-, integrity, rfl⟩
  refine ⟨_, rfl, ?_⟩
  rw [hname, listedAs, metadataAt_of_node hn]
  rfl

/-- Listing and lookup agree: on a tree without links whose names the path check accepts, a listing of a directory
within the limits has every child that does not begin with a dot once, directories first and by the lower case of
the names; and every entry listed whose path is within the limits is found again under this path, with the same
name, path, kind, sizes, type and time. The operating system reports no error of its own, as it would for an absolute
path above its length limit. -/
theorem listing_and_lookup_agree (P : Primitives) (facts : EntryFacts) (config : AppConfig)
    (unlockState : UnlockState) (libraryId : String) (oracle : Nat → Choice) (hquiet : QuietOracle oracle)
    (disk : Disk) (hfree : disk.tree.LinkFree) (place : Path)
    (hroot : disk.tree.canonicalize (libraryRoot config libraryId) = .ok place)
    (hnames : NamesAccepted disk.tree place) (names : List String) (hplain : ∀ name ∈ names, ¬ Dotted name)
    (hdir : disk.tree.node (place ++ names) = some .dir) (userPath : String)
    (hpath : pathComponents userPath = names) (hfits : WithinLimits userPath) (checkIntegrity : Bool) :
    ∃ entries, ((listDirectory P facts config unlockState libraryId userPath checkIntegrity).run (fsHandler oracle)
        disk).1 = .ok entries ∧
      (∀ name, (entries.map FsEntry.name).count name =
        if disk.tree.node (place ++ names ++ [name]) ≠ none ∧ ¬ Dotted name then 1 else 0) ∧
      entries.Pairwise (ListedBefore facts) ∧
      ∀ entry ∈ entries, WithinLimits entry.path → ∀ later : Disk, later.tree = disk.tree →
        ∀ checkIntegrity, ∃ found,
          ((getEntryInfo P facts config unlockState libraryId entry.path checkIntegrity).run (fsHandler oracle)
            later).1 = .ok found ∧ found.unverified = entry.unverified := by
  have hexists : disk.tree.node (place ++ names) ≠ none := by simp [hdir]
  have htarget := target_of_components hpath hfits (hnames.pathNames hexists hplain) hexists
  have hresolved := resolved_of_straight (htarget.straight hfree hroot) hexists
  obtain ⟨-, entries, hrun, hentries⟩ := run_of_ensures hquiet (listEntries_returns P facts
    hresolved hdir (resolveTarget_plain hfree hroot htarget) (unlockState.getLibraryKey libraryId) checkIntegrity)
  refine ⟨_, hrun, listing_names hentries, listing_sorted entries, fun entry hentry hshort later hlater check => ?_⟩
  -- An entry listed is that of a child, and its path has the names of the child.
  have hlisted := List.mem_map_of_mem (f := FsEntry.unverified) ((List.mem_insertionSort _).mp hentry)
  rw [hentries] at hlisted
  obtain ⟨name, hname, hsame⟩ := List.mem_map.mp hlisted
  obtain ⟨hchild, hshown⟩ := List.mem_filter.mp hname
  have hnode := mem_children.mp hchild
  rw [List.append_assoc] at hnode
  have hnames' : ∀ n ∈ names ++ [name], PathName n := hnames.pathNames hnode fun n hn => by
    rcases List.mem_append.mp hn with hn | hn
    · exact hplain n hn
    · rw [List.mem_singleton.mp hn, ← isHidden_eq_false]
      simpa using hshown
  have hshownPath : relativeDisplayPath place (place ++ (names ++ [name])) = entry.path := by
    rw [← List.append_assoc]
    exact congrArg FsEntry.path hsame
  have hcomponents := components_of_shown place hnames'
  rw [hshownPath] at hcomponents
  have hfound := target_of_components hcomponents hshort hnames' hnode
  rw [← List.append_assoc] at hnode hfound
  rw [← hlater] at hfree hroot hfound hnode
  obtain ⟨found, hinfo, hfoundAs⟩ := run_of_ensures hquiet (entryInfo_listed P facts hfree hroot
    hfound hnode (unlockState.getLibraryKey libraryId) check)
  refine ⟨found, hinfo, ?_⟩
  rw [hfoundAs, hlater]
  exact hsame

theorem docsDisk_names : NamesAccepted docsDisk.tree ["libraries", "l"] := by
  intro names hnode name hname _
  have hall : ∀ p ∈ docsDisk.tree.paths, ∀ name ∈ p, AcceptedName name := by
    unfold AcceptedName
    decide +kernel
  exact hall _ ((docsDisk.tree.mem_paths _).mpr hnode) name (List.mem_append_right _ hname)

theorem listing_and_lookup_agree_docs :
    ∃ entries, ((listDirectory plainPrimitives plainFacts sampleConfig sampleUnlocked "l" "docs" false).run
        (fsHandler calmOracle) docsDisk).1 = .ok entries ∧
      (entries.map FsEntry.name).count "a" = 1 ∧ entries.Pairwise (ListedBefore plainFacts) ∧
      ∀ entry ∈ entries, WithinLimits entry.path → ∃ found,
        ((getEntryInfo plainPrimitives plainFacts sampleConfig sampleUnlocked "l" entry.path false).run
          (fsHandler calmOracle) docsDisk).1 = .ok found ∧ found.unverified = entry.unverified := by
  obtain ⟨entries, hrun, hcount, hsorted, hfound⟩ := listing_and_lookup_agree plainPrimitives plainFacts sampleConfig
    sampleUnlocked "l" calmOracle calmOracle_quiet docsDisk docsDisk_linkFree ["libraries", "l"] (by decide)
    docsDisk_names ["docs"] (by decide) (by decide) "docs" (by decide +kernel) (by unfold WithinLimits; decide +kernel)
    false
  exact ⟨entries, hrun, (hcount "a").trans (if_pos (by decide)), hsorted,
    fun entry hentry hfits => hfound entry hentry hfits docsDisk rfl false⟩

/-- One name more than a path may have. -/
def tooDeepNames : List String := List.replicate 129 "x"

theorem tooDeep_tree : ∃ made : FileTree, made.LinkFree ∧ ∀ p, made.node p =
    if p <+: ["libraries", "l"] ++ tooDeepNames then some .dir else emptyLibrary.tree.node p := by
  have hordinary : ∀ name ∈ ["libraries", "l"] ++ tooDeepNames, Ordinary name := by
    intro name hname
    have hcases : name = "libraries" ∨ name = "l" ∨ name = "x" := by
      simpa [tooDeepNames, List.mem_replicate] using hname
    rcases hcases with rfl | rfl | rfl <;> simp [Ordinary]
  obtain ⟨made, hmade, hnodes⟩ := createDirs_plain _ emptyLibrary_linkFree resolved_root emptyLibrary.tree.root
    hordinary fun p _ content => emptyLibrary_no_file _ content
  exact ⟨made, emptyLibrary_linkFree.createDirs hmade, fun p => by simpa using hnodes p⟩

theorem tooDeep_names {made : FileTree} (hmade : ∀ p, made.node p =
      if p <+: ["libraries", "l"] ++ tooDeepNames then some .dir else emptyLibrary.tree.node p) :
    NamesAccepted made ["libraries", "l"] := by
  intro names hnode name hname _
  have hfront : names <+: tooDeepNames := by
    rw [hmade] at hnode
    by_contra hnot
    rw [if_neg fun hpre => hnot ((List.prefix_append_right_inj _).mp hpre)] at hnode
    cases names with
    | nil => cases hname
    | cons first rest => exact hnode (emptyLibrary_empty _ (by simp))
  obtain rfl : name = "x" := List.eq_of_mem_replicate (hfront.subset hname)
  unfold AcceptedName
  decide +kernel

theorem tooDeep_rejects {made : FileTree} (hfree : made.LinkFree)
    (hroot : made.canonicalize ["libraries", "l"] = .ok ["libraries", "l"]) {userPath : String}
    (hpath : pathComponents userPath = tooDeepNames) :
    ∃ error, (listDirectory plainPrimitives plainFacts sampleConfig sampleUnlocked "l" userPath false).Stops Quietly
      made (.error error) made := by
  have hne : userPath ≠ "" := by
    rintro rfl
    cases hpath
  rw [pathComponents, if_neg hne] at hpath
  have hnot : ¬ Accepts made ["libraries", "l"] userPath := by
    intro haccepts
    have hshallow := haccepts.wellFormed.shallow
    rw [hpath, tooDeepNames, List.length_replicate] at hshallow
    exact absurd hshallow (by decide)
  obtain ⟨error, hjoin⟩ := safeJoin_plain_rejects hfree hroot hnot
  have hanswer := canonicalize_stops made ["libraries", "l"]
  rw [hroot] at hanswer
  refine ⟨error, Program.Stops.bind_error (hanswer.bind ((attempt_stops (.ok _)).bind ?_))⟩
  simp only [hne, if_false]
  exact hjoin.bind_error

/-- The directory at the bottom cannot be listed, since its path is not accepted. -/
theorem listing_too_deep :
    ¬ ∀ (P : Primitives) (facts : EntryFacts) (config : AppConfig) (unlockState : UnlockState) (libraryId : String)
      (oracle : Nat → Choice), QuietOracle oracle → ∀ disk : Disk, disk.tree.LinkFree → ∀ place,
        disk.tree.canonicalize (libraryRoot config libraryId) = .ok place → NamesAccepted disk.tree place →
          ∀ names, (∀ name ∈ names, ¬ Dotted name) → disk.tree.node (place ++ names) = some .dir →
            ∀ userPath, pathComponents userPath = names → ∀ checkIntegrity, ∃ entries,
              ((listDirectory P facts config unlockState libraryId userPath checkIntegrity).run (fsHandler oracle)
                disk).1 = .ok entries := by
  intro h
  obtain ⟨made, hfree, hmade⟩ := tooDeep_tree
  have hroot : made.canonicalize ["libraries", "l"] = .ok ["libraries", "l"] := by
    have hdir : made.node ["libraries", "l"] = some .dir := by rw [hmade, if_pos (by simp)]
    have hstraight : made.Straight ["libraries", "l"] := hfree.straight (by simp [Ordinary])
    exact canonicalize_of_resolved (resolved_of_straight hstraight (by simp [hdir])) (by simp [hdir])
  have hdir : made.node (["libraries", "l"] ++ tooDeepNames) = some .dir := by
    rw [hmade, if_pos (List.prefix_refl _)]
  have hvalid : ∀ name ∈ tooDeepNames, PathName name := fun name hname => by
    rw [List.eq_of_mem_replicate hname]
    exact pathName_x
  have hplain : ∀ name ∈ tooDeepNames, ¬ Dotted name := fun name hname => by
    rw [List.eq_of_mem_replicate hname]
    decide
  have hpath := components_of_shown ["libraries", "l"] hvalid
  generalize relativeDisplayPath ["libraries", "l"] (["libraries", "l"] ++ tooDeepNames) = userPath at hpath
  obtain ⟨entries, hrun⟩ := h plainPrimitives plainFacts sampleConfig sampleUnlocked "l" calmOracle calmOracle_quiet
    ⟨made, 0⟩ hfree ["libraries", "l"] hroot (tooDeep_names hmade) tooDeepNames hplain hdir userPath hpath false
  obtain ⟨error, hstops⟩ := tooDeep_rejects hfree hroot hpath
  rw [(run_of_stops calmOracle_quiet hstops).1] at hrun
  cases hrun

end IronDrive
