import IronDrive.Addressable
import IronDrive.ReportedSize
import IronDrive.VisibleWalk

/-! The walkers agree: disk usage, the background scan, and a client that lists every directory it is shown go
through the same visible entries. The totals are sums of 64-bit counters; the listings go through the path check,
so they reach the directories whose paths it accepts. -/

namespace IronDrive

open Lib FileTree PathSafety CryptoService FsService

variable {t : FileTree} {root place target : Path} {name : String}

theorem saturatingAdd_min (a b : Nat) : saturatingAdd (min a u64Max) b = min (a + b) u64Max := by
  unfold saturatingAdd
  omega

/-- The usage of some entries. -/
def usageOf (t : FileTree) (entries : List Path) : UsageResult where
  diskBytes := min ((entries.filter fun p => !isDirAt t p).map (sizeAt t)).sum u64Max
  fileCount := min (entries.filter fun p => !isDirAt t p).length u64Max
  dirCount := min (entries.filter (isDirAt t)).length u64Max

theorem usageOf_perm {entries entries' : List Path} (h : entries.Perm entries') :
    usageOf t entries = usageOf t entries' := by
  have hfiles := h.filter fun p => !isDirAt t p
  rw [usageOf, usageOf, (hfiles.map (sizeAt t)).sum_eq, hfiles.length_eq, (h.filter (isDirAt t)).length_eq]

theorem usageOf_dir (seen : List Path) {p : Path} (h : t.node p = some .dir) :
    countDir (usageOf t seen) = usageOf t (seen ++ [p]) := by
  have hdir : isDirAt t p = true := by simp [isDirAt, h]
  simp [countDir, usageOf, saturatingAdd_min, hdir]

theorem usageOf_file (seen : List Path) {p : Path} {content : Bytes} (h : t.node p = some (.file content)) :
    countFile (usageOf t seen) content.length = usageOf t (seen ++ [p]) := by
  have hdir : isDirAt t p = false := by simp [isDirAt, h]
  have hsize : sizeAt t p = content.length := by simp [sizeAt, contentAt, h]
  simp [countFile, usageOf, saturatingAdd_min, hdir, hsize]

theorem usage_gathers (t : FileTree) : Gathers Quietly t (· = t) (fun usage seen => usage = usageOf t seen) fsCall
    countDir fun _ m usage => return countFile usage m.len where
  lstat path v hv := by
    subst hv
    exact Program.Ensures.mono (symlinkMetadata_stops v path) fun _ _ ⟨hresult, hv⟩ => ⟨hv, hresult⟩
  readDir path v hv := by
    subst hv
    exact Program.Ensures.mono (readDir_stops v path) fun _ _ ⟨hresult, hv⟩ => ⟨hv, hresult⟩
  dir acc seen p hacc hnode := by rw [hacc, usageOf_dir seen hnode]
  file acc seen p content path v hacc hnode hv := ⟨hv, _, rfl, by rw [hacc, ← usageOf_file seen hnode]; rfl⟩

/-- What a path asked for stands for: the root itself, or the place of an accepted path. -/
def Target (t : FileTree) (place : Path) (userPath : String) (target : Path) : Prop :=
  (userPath = "" ∧ target = place) ∨ (Accepts t place userPath ∧ target = place ++ splitComponents userPath)

theorem Target.straight {userPath : String} (h : Target t place userPath target) (hfree : t.LinkFree)
    (hroot : t.canonicalize root = .ok place) : t.Straight target := by
  rcases h with ⟨-, rfl⟩ | ⟨haccepts, rfl⟩
  · exact straight_of_resolved (canonicalize_resolved hroot).1
  · exact straight_join hfree hroot haccepts.wellFormed

theorem metadata_of_dir (hstraight : t.Straight target) (hdir : t.node target = some .dir)
    (onError : IoError → AppError) :
    (metadata target onError).Stops Quietly t (.ok (Metadata.ofNode .dir)) t := by
  rcases metadata_plain hstraight onError with ⟨n, hnode, hmeta⟩ | ⟨hnone, -⟩
  · rw [hdir] at hnode
    cases hnode
    exact hmeta
  · rw [hdir] at hnone
    cases hnone

theorem opensDir_of_straight (hstraight : t.Straight target) (hdir : t.node target = some .dir) :
    OpensDir t target target :=
  ⟨locate_of_resolved (resolved_of_straight hstraight (by simp [hdir])), hdir⟩

theorem usageIn_stops (hfree : t.LinkFree) (hroot : t.canonicalize root = .ok place) {userPath : String}
    (htarget : Target t place userPath target) (hdir : t.node target = some .dir) {fuel : Nat}
    (hfuel : (visibleDirs t target).length < fuel) :
    (usageIn fuel root userPath).Stops Quietly t (.ok (some (usageOf t (visibleBelow t target)))) t := by
  have hstraight := htarget.straight hfree hroot
  have hnone : (⟨0, 0, 0⟩ : UsageResult) = usageOf t [] := rfl
  have hwalk := walkTree_visits (usage_gathers t) hfree (opensDir_of_straight hstraight hdir) hfuel hnone rfl
  have hvisits := Program.Ensures.mono hwalk (Q := fun result t' =>
      result = .ok (some (usageOf t (visibleBelow t target))) ∧ t' = t) ?_
  · rcases htarget with ⟨hempty, rfl⟩ | ⟨haccepts, rfl⟩
    · rw [usageIn, if_pos hempty]
      exact (canonicalizeAsync_stops hroot).bind ((metadata_of_dir hstraight hdir _).bind hvisits)
    · rw [usageIn, if_neg haccepts.wellFormed.nonempty]
      exact (safeJoin_plain hfree hroot haccepts).bind ((metadata_of_dir hstraight hdir _).bind hvisits)
  · intro result t' h
    obtain ⟨ht', acc, seen, rfl, rfl, hperm⟩ := h
    exact ⟨by rw [usageOf_perm hperm], ht'⟩

/-- The scan's calls: those of the file API without faults, the insertions in any way. -/
abbrev ScanAccount : (op : scanSignature.Op) → FileTree × PUnit → scanSignature.Answer op → FileTree × PUnit → Prop :=
  Program.sumAccount Quietly fun _ _ _ _ => True

theorem scanFile_ensures (P : Primitives) (targetType targetId : String) (root : Path) (dataKey : Option DataKey)
    (path : Path) (scan : ScanResult) (v : FileTree × PUnit) :
    (IntegrityService.scanFile P targetType targetId root dataKey path scan).Ensures ScanAccount v fun result v' =>
      v'.1 = v.1 ∧ ∃ scan', result = .ok scan' ∧ scan'.filesScanned = (scan.filesScanned + 1) % 2 ^ 64 := by
  rw [IntegrityService.scanFile]
  refine Program.Ensures.bind (Program.Ensures.inl (verifyFileIntegrityAsync_returns P dataKey path v.1)) ?_ ?_
  · intro status v₁ h
    obtain ⟨⟨hkept, -⟩, -⟩ := h
    cases status with
    | ok => exact ⟨hkept, _, rfl, rfl⟩
    | fileHashMismatch =>
        intro answer v₂ h
        obtain ⟨-, hsame⟩ := h
        exact ⟨hsame.trans hkept, _, rfl, rfl⟩
    | decryptionFailed message =>
        intro answer v₂ h
        obtain ⟨-, hsame⟩ := h
        exact ⟨hsame.trans hkept, _, rfl, rfl⟩
  · intro error v₁ h
    obtain ⟨⟨-, status, hstatus⟩, -⟩ := h
    cases hstatus

/-- The number of files among some entries, as a 64-bit counter gives it. -/
def scannedOf (t : FileTree) (entries : List Path) : Nat :=
  (entries.filter fun p => !isDirAt t p).length % 2 ^ 64

theorem scan_gathers (t : FileTree) (P : Primitives) (targetType targetId : String) (root : Path)
    (dataKey : Option DataKey) :
    Gathers ScanAccount t (fun v => v.1 = t) (fun scan seen => scan.filesScanned = scannedOf t seen) scanCall id
      fun path _ scan => IntegrityService.scanFile P targetType targetId root dataKey path scan where
  lstat path v hv := by
    subst hv
    exact Program.Ensures.mono (Program.Ensures.inl (symlinkMetadata_stops v.1 path))
      fun _ _ ⟨⟨hresult, hkept⟩, _⟩ => ⟨hkept, hresult⟩
  readDir path v hv := by
    subst hv
    exact Program.Ensures.mono (Program.Ensures.inl (readDir_stops v.1 path))
      fun _ _ ⟨⟨hresult, hkept⟩, _⟩ => ⟨hkept, hresult⟩
  dir acc seen p hacc hnode := by
    have hdir : isDirAt t p = true := by simp [isDirAt, hnode]
    simpa [scannedOf, hdir] using hacc
  file acc seen p content path v hacc hnode hv := by
    refine Program.Ensures.mono (scanFile_ensures P targetType targetId root dataKey path acc v) ?_
    intro result v' h
    obtain ⟨hkept, scan', rfl, hcount⟩ := h
    have hdir : isDirAt t p = false := by simp [isDirAt, hnode]
    refine ⟨hkept.trans hv, scan', rfl, ?_⟩
    rw [hcount, hacc, scannedOf, scannedOf, List.filter_append, List.length_append, Nat.mod_add_mod]
    simp [hdir]

theorem scanDirectory_ensures (hfree : t.LinkFree) (P : Primitives) (targetType targetId : String) (root : Path)
    (dataKey : Option DataKey) {start : Path} (hstart : OpensDir t start target) {fuel : Nat}
    (hfuel : (visibleDirs t target).length < fuel) :
    (IntegrityService.scanDirectory P fuel targetType targetId root start dataKey).Ensures ScanAccount (t, ⟨⟩)
      fun result _ => ∃ scan, result = .ok (some scan) ∧
        scan.filesScanned = (visibleFiles t target).length % 2 ^ 64 := by
  have hnone : (⟨0, 0⟩ : ScanResult).filesScanned = scannedOf t [] := rfl
  refine Program.Ensures.mono (walkTree_visits (scan_gathers t P targetType targetId root dataKey) hfree hstart hfuel
    hnone rfl) ?_
  intro result v' h
  obtain ⟨-, scan, seen, rfl, hcount, hperm⟩ := h
  refine ⟨scan, rfl, ?_⟩
  rw [hcount, scannedOf, (hperm.filter fun p => !isDirAt t p).length_eq]
  rfl

/-- What a scan ensures holds of its runs, whatever becomes of the insertions. -/
theorem run_of_scan_ensures {oracle : Nat → Choice} (hquiet : QuietOracle oracle) (draws : Nat → EventDraw)
    {α : Type} {program : ScanProgram α} {disk : Disk} (log : EventLog)
    {Q : Except AppError α → FileTree × PUnit → Prop} (h : program.Ensures ScanAccount (disk.tree, ⟨⟩) Q) :
    ∃ v, Q (program.run (Program.sumHandler (fsHandler oracle) (eventHandler draws)) (disk, log)).1 v := by
  have hstep : ∀ (op : scanSignature.Op) (s : Disk × EventLog) (v : FileTree × PUnit), s.1.tree = v.1 →
      ∃ v', ScanAccount op v (Program.sumHandler (fsHandler oracle) (eventHandler draws) op s).1 v' ∧
        (Program.sumHandler (fsHandler oracle) (eventHandler draws) op s).2.1.tree = v'.1 := by
    rintro op s v hv
    cases op with
    | inl op => exact ⟨((fsHandler oracle op s.1).2.tree, v.2), ⟨hv ▸ fsHandler_performs hquiet op s.1, rfl⟩, rfl⟩
    | inr op => exact ⟨v, ⟨trivial, rfl⟩, hv⟩
  obtain ⟨v', -, hQ⟩ := Program.Ensures.run (R := fun (s : Disk × EventLog) v => s.1.tree = v.1) h hstep
    (s := (disk, log)) rfl
  exact ⟨v', hQ⟩

/-- An entry as a listing shows it: its path, whether it is a directory, and the size of a file. -/
abbrev Shown : Type := String × Bool × Option Nat

def FsEntry.shown (entry : FsEntry) : Shown := (entry.path, entry.isDir, entry.diskSize)

def shownAt (t : FileTree) (root p : Path) : Shown :=
  (relativeDisplayPath root p, isDirAt t p, if isDirAt t p then none else some (sizeAt t p))

section Listing

variable {P : Primitives} {facts : EntryFacts} (dataKey : Option DataKey) (checkIntegrity : Bool)

/-- What is listed of an entry is what there is. -/
theorem listedAs_shown (hfree : t.LinkFree) (hnode : t.node (target ++ [name]) ≠ none) :
    (listedAs facts t root target name).shown = shownAt t root (target ++ [name]) := by
  obtain ⟨n, hn⟩ := Option.ne_none_iff_exists'.mp hnode
  have hmeta := metadataAt_of_node hn
  change (_, (metadataAt t (target ++ [name])).isDir, if (metadataAt t (target ++ [name])).isDir then none
    else some (metadataAt t (target ++ [name])).len) = _
  rw [hmeta]
  cases n with
  | symlink absolute link => exact absurd hn (hfree _ _ _)
  | dir =>
      have hdir : isDirAt t (target ++ [name]) = true := by simp [isDirAt, hn]
      rw [shownAt, hdir]
      rfl
  | file content =>
      have hdir : isDirAt t (target ++ [name]) = false := by simp [isDirAt, hn]
      have hsize : sizeAt t (target ++ [name]) = content.length := by simp [sizeAt, contentAt, hn]
      rw [shownAt, hdir, hsize]
      rfl

theorem resolveTarget_plain (hfree : t.LinkFree) (hroot : t.canonicalize root = .ok place) {userPath : String}
    (htarget : Target t place userPath target) :
    (resolveTarget root userPath).Stops Quietly t (.ok (place, target)) t := by
  rcases htarget with ⟨rfl, rfl⟩ | ⟨haccepts, rfl⟩
  · have hanswer := canonicalize_stops t root
    rw [hroot] at hanswer
    exact hanswer.bind ((attempt_stops (.ok target)).bind (Program.stops_done _ _))
  · exact resolveTarget_stops haccepts.wellFormed.nonempty hroot (safeJoin_plain hfree hroot haccepts)

theorem listEntries_shows (hfree : t.LinkFree) (hroot : t.canonicalize root = .ok place) {userPath : String}
    (htarget : Target t place userPath target) (hdir : t.node target = some .dir) :
    (listEntries P facts dataKey root userPath checkIntegrity).Ensures Quietly t fun result t' => t' = t ∧
      ∃ entries, result = .ok entries ∧
        (entries.map FsEntry.shown).Perm (((t.branching isShown).children target).map (shownAt t place)) := by
  have hresolved := resolved_of_straight (htarget.straight hfree hroot) (by simp [hdir])
  have htargeted := resolveTarget_plain hfree hroot htarget
  refine Program.Ensures.mono (listEntries_returns P facts hresolved hdir htargeted dataKey checkIntegrity) ?_
  intro result t' h
  obtain ⟨rfl, entries, rfl, hentries⟩ := h
  refine ⟨rfl, _, rfl, ?_⟩
  have hshown : entries.map FsEntry.shown = ((t'.branching isShown).children target).map (shownAt t' place) := by
    calc entries.map FsEntry.shown
        = (entries.map FsEntry.unverified).map FsEntry.shown := by rw [List.map_map]; rfl
      _ = ((t'.children target).filter isShown).map fun name => shownAt t' place (target ++ [name]) := by
          rw [hentries, List.map_map]
          refine List.map_congr_left fun name hname => ?_
          exact listedAs_shown hfree (mem_children.mp (List.mem_of_mem_filter hname))
      _ = (shownChildren target (t'.children target)).map (shownAt t' place) := by
          rw [shownChildren, List.map_map]
          rfl
  rw [← hshown]
  exact (List.perm_insertionSort (fun a b => entryLe facts a b) entries).map FsEntry.shown

end Listing

/-- Each entry with what is inside it, when each directory is listed as `inside` says. -/
theorem listEach_shows {list : String → FsProgram (Option (List FsEntry))} {inside : Shown → List Shown}
    (entries : List FsEntry)
    (hdirs : ∀ entry ∈ entries, entry.isDir = true → (list entry.path).Ensures Quietly t fun result t' =>
      t' = t ∧ ∃ listed, result = .ok (some listed) ∧ (listed.map FsEntry.shown).Perm (inside entry.shown))
    (hfiles : ∀ entry ∈ entries, entry.isDir = false → inside entry.shown = []) :
    (listEach list entries).Ensures Quietly t fun result t' => t' = t ∧
      ∃ listed, result = .ok (some listed) ∧
        (listed.map FsEntry.shown).Perm ((entries.map FsEntry.shown).flatMap fun shown => shown :: inside shown) := by
  induction entries with
  | nil => exact ⟨rfl, [], rfl, List.Perm.refl _⟩
  | cons entry entries ih =>
      have hrest := ih (fun other hother => hdirs other (List.mem_cons_of_mem _ hother))
        fun other hother => hfiles other (List.mem_cons_of_mem _ hother)
      have hboth : ∀ listed, (listed.map FsEntry.shown).Perm (inside entry.shown) →
          ((listEach list entries).bind fun rest => Program.done (do
            let inside ← some listed
            let rest ← rest
            some (entry :: inside ++ rest))).Ensures Quietly t fun result t' => t' = t ∧
              ∃ listed, result = .ok (some listed) ∧ (listed.map FsEntry.shown).Perm
                (((entry :: entries).map FsEntry.shown).flatMap fun shown => shown :: inside shown) := by
        intro listed hlisted
        refine Program.Ensures.bind hrest ?_ ?_
        · intro rest t' h
          obtain ⟨rfl, found, hfound, hperm⟩ := h
          cases hfound
          refine ⟨rfl, _, rfl, ?_⟩
          rw [List.map_append, List.map_cons, List.map_cons, List.flatMap_cons, List.cons_append]
          exact (hlisted.append hperm).cons _
        · intro error t' h
          obtain ⟨-, found, hfound, -⟩ := h
          cases hfound
      rw [listEach]
      cases hdir : entry.isDir with
      | true =>
          refine Program.Ensures.bind (hdirs entry (List.mem_cons_self ..) hdir) ?_ ?_
          · intro found t' h
            obtain ⟨rfl, listed, hfound, hperm⟩ := h
            cases hfound
            exact hboth listed hperm
          · intro error t' h
            obtain ⟨-, listed, hfound, -⟩ := h
            cases hfound
      | false => exact hboth [] (by rw [hfiles entry (List.mem_cons_self ..) hdir]; exact List.Perm.nil)

/-- Every directory visible below the target has a path that the check accepts. -/
def DirsAddressed (t : FileTree) (place target : Path) : Prop :=
  ∀ names, place ++ names ∈ visibleDirs t target → Addressed names

/-- The names joined by slashes, a backslash in one of them being shown as a slash. -/
def slashed (names : List String) : String :=
  String.ofList (("/".intercalate names).toList.map fun c => if c = '\\' then '/' else c)

theorem slashed_of_plain {names : List String} (h : ∀ name ∈ names, '\\' ∉ name.toList) :
    slashed names = "/".intercalate names := by
  have hplain : ∀ c ∈ ("/".intercalate names).toList, c ≠ '\\' := by
    intro c hc
    rw [String.toList_intercalate] at hc
    rcases mem_intercalate hc with hslash | ⟨chars, hmem, hc⟩
    · rw [List.mem_singleton.mp hslash]
      decide
    · obtain ⟨name, hname, rfl⟩ := List.mem_map.mp hmem
      exact fun heq => h name hname (heq ▸ hc)
  have hsame : (("/".intercalate names).toList.map fun c => if c = '\\' then '/' else c) =
      ("/".intercalate names).toList := by
    conv_rhs => rw [← List.map_id ("/".intercalate names).toList]
    exact List.map_congr_left fun c hc => if_neg (hplain c hc)
  rw [slashed, hsame, String.ofList_toList]

theorem relativeDisplayPath_append (root : Path) (names : List String) :
    relativeDisplayPath root (root ++ names) = slashed names := by
  rw [relativeDisplayPath, if_pos (List.prefix_append _ _), List.drop_left, slashed]

theorem relativeDisplayPath_of_names {names : List String} (h : ∀ name ∈ names, PathName name) :
    relativeDisplayPath place (place ++ names) = "/".intercalate names := by
  rw [relativeDisplayPath_append, slashed_of_plain fun name hname => (h name hname).no_separator.2]

/-- A directory shown is the target of its own path. -/
theorem target_of_shown {names : List String} (h : Addressed names) (hne : names ≠ [])
    (hdir : t.node (place ++ names) = some .dir) :
    Target t place (relativeDisplayPath place (place ++ names)) (place ++ names) := by
  obtain ⟨hwell, hsplit⟩ := h.wellFormed hne
  rw [relativeDisplayPath_of_names h.valid]
  refine Or.inr ⟨accepts_of_exists hwell ?_, by rw [hsplit]⟩
  rw [hsplit, hdir]
  simp

theorem Target.below {userPath : String} (h : Target t place userPath target) : place <+: target := by
  rcases h with ⟨-, rfl⟩ | ⟨-, rfl⟩
  · exact List.prefix_refl _
  · exact List.prefix_append _ _

/-- What is shown inside of what is shown, if the directories are listed under their paths. -/
def shownInside (t : FileTree) (place : Path) (shown : Shown) : List Shown :=
  if shown.2.1 then (visibleBelow t (place ++ splitComponents shown.1)).map (shownAt t place) else []

/-- A visible entry of a directory, as it is listed and found again under its path. -/
theorem shown_child (haddressed : DirsAddressed t place target) (hbelow : place <+: target) {p : Path}
    (hp : p ∈ (t.branching isShown).children target) :
    (isDirAt t p = true → Target t place (shownAt t place p).1 p) ∧
      shownInside t place (shownAt t place p) = (visibleBelow t p).map (shownAt t place) := by
  have hmem := (Branching.mem_below_of_child hp).1
  obtain ⟨front, rfl⟩ := hbelow
  obtain ⟨hnode, names, hne, rfl, -⟩ := mem_visibleBelow.mp hmem
  rw [List.append_assoc] at hmem hp hnode ⊢
  cases hdir : isDirAt t (place ++ (front ++ names)) with
  | true =>
      have hnames : Addressed (front ++ names) := haddressed _ (List.mem_filter.mpr ⟨hmem, hdir⟩)
      have htarget := target_of_shown hnames (by simp [hne]) (by simpa [isDirAt] using hdir)
      refine ⟨fun _ => htarget, ?_⟩
      have hsplit := (hnames.wellFormed (by simp [hne])).2
      rw [shownInside, if_pos (by exact hdir)]
      show (visibleBelow t (place ++ splitComponents (relativeDisplayPath place _))).map _ = _
      rw [relativeDisplayPath_of_names hnames.valid, hsplit]
  | false =>
      have hnone : visibleBelow t (place ++ (front ++ names)) = [] := by
        rw [visibleBelow, Branching.below_eq,
          branching_children_of_not_dir (by simpa [isDirAt] using hdir), List.flatMap_nil]
      refine ⟨fun h => (by cases h), ?_⟩
      rw [shownInside, if_neg (by simp [shownAt, hdir]), hnone, List.map_nil]

/-- Listing after listing shows what is visible, if the paths of the directories are accepted. -/
theorem listRecursively_shows {list : String → FsProgram (List FsEntry)}
    (hlist : ∀ userPath target, Target t place userPath target → t.node target = some .dir →
      (list userPath).Ensures Quietly t fun result t' => t' = t ∧ ∃ entries, result = .ok entries ∧
        (entries.map FsEntry.shown).Perm (((t.branching isShown).children target).map (shownAt t place)))
    (fuel : Nat) : ∀ {userPath : String} {target : Path}, Target t place userPath target →
      t.node target = some .dir → DirsAddressed t place target → (t.branching isShown).rank target < fuel →
        (listRecursively list fuel userPath).Ensures Quietly t fun result t' => t' = t ∧
          ∃ listed, result = .ok (some listed) ∧
            (listed.map FsEntry.shown).Perm ((visibleBelow t target).map (shownAt t place)) := by
  induction fuel with
  | zero =>
      intro userPath target _ _ _ hfuel
      omega
  | succ fuel ih =>
      intro userPath target htarget hdir haddressed hfuel
      have hchild : ∀ shown ∈ ((t.branching isShown).children target).map (shownAt t place),
          (shown.2.1 = true → (listRecursively list fuel shown.1).Ensures Quietly t fun result t' => t' = t ∧
            ∃ listed, result = .ok (some listed) ∧
              (listed.map FsEntry.shown).Perm (shownInside t place shown)) := by
        intro shown hshown hisDir
        obtain ⟨p, hp, rfl⟩ := List.mem_map.mp hshown
        obtain ⟨hfound, hinside⟩ := shown_child haddressed htarget.below hp
        have hless := (t.branching isShown).rank_lt target p hp
        have haddressed' : DirsAddressed t place p := fun names hnames => by
          obtain ⟨hvisible, hnamed⟩ := List.mem_filter.mp hnames
          exact haddressed names (List.mem_filter.mpr ⟨(Branching.mem_below_of_child hp).2 _ hvisible, hnamed⟩)
        rw [hinside]
        exact ih (hfound hisDir) (by simpa [shownAt, isDirAt] using hisDir) haddressed' (by omega)
      refine Program.Ensures.bind (hlist userPath target htarget hdir) ?_ ?_
      · intro entries t' h
        obtain ⟨rfl, found, hfound, hperm⟩ := h
        cases hfound
        have hshown : ∀ entry ∈ entries, entry.shown ∈
            ((t'.branching isShown).children target).map (shownAt t' place) := fun entry hentry =>
          hperm.subset (List.mem_map_of_mem hentry)
        refine Program.Ensures.mono (listEach_shows entries
          (fun entry hentry hisDir => hchild _ (hshown entry hentry) hisDir)
          fun entry hentry hisDir => if_neg (by simp [FsEntry.shown, hisDir])) ?_
        intro result t'' h
        obtain ⟨rfl, listed, rfl, hlisted⟩ := h
        refine ⟨rfl, listed, rfl, hlisted.trans ((hperm.flatMap_right _).trans (List.Perm.of_eq ?_))⟩
        have hall : ((t''.branching isShown).children target).flatMap
              (fun p => shownAt t'' place p :: shownInside t'' place (shownAt t'' place p)) =
            ((t''.branching isShown).children target).flatMap
              fun p => (p :: visibleBelow t'' p).map (shownAt t'' place) := by
          refine List.flatMap_congr fun p hp => ?_
          rw [(shown_child haddressed htarget.below hp).2, List.map_cons]
        rw [List.flatMap_map, hall, visibleBelow, Branching.below_eq, List.map_flatMap]
        rfl
      · intro error t' h
        obtain ⟨-, entries, hfound, -⟩ := h
        cases hfound

/-! ### Agreement -/

/-- Trees with the same entries, each of which lists its directories in an order of its own. -/
def SameEntries (t t' : FileTree) : Prop := ∀ p, t'.node p = t.node p

section SameEntries

variable {t' : FileTree} (h : SameEntries t t')
include h

theorem SameEntries.linkFree (hfree : t.LinkFree) : t'.LinkFree := by
  intro p absolute target
  rw [h p]
  exact hfree p absolute target

theorem SameEntries.extends : t.Extends t' where
  dir p hdir := by rwa [h p]
  symlink p absolute target := by rw [h p]
  file p content hfile := ⟨content, by rwa [h p]⟩

theorem SameEntries.canonicalize {path : Path} (hcanon : t.canonicalize path = .ok place) :
    t'.canonicalize path = .ok place := by
  have hlocate := h.extends.locate (locate_of_canonicalize hcanon)
  have hnode : t'.node place ≠ none := by
    rw [h place]
    exact (canonicalize_resolved hcanon).2
  simp [FileTree.canonicalize, hlocate, hnode, bind, Except.bind, pure, Except.pure]

theorem SameEntries.targets {userPath : String} (htarget : Target t place userPath target) :
    Target t' place userPath target := by
  rcases htarget with hroot | ⟨⟨hwell, hpass⟩, htarget⟩
  · exact Or.inl hroot
  · refine Or.inr ⟨⟨hwell, fun front hfront hne content => ?_⟩, htarget⟩
    rw [h]
    exact hpass front hfront hne content

theorem SameEntries.isDirAt : isDirAt t' = isDirAt t := by
  funext p
  rw [IronDrive.isDirAt, IronDrive.isDirAt, h p]

theorem SameEntries.sizeAt : sizeAt t' = sizeAt t := by
  funext p
  rw [IronDrive.sizeAt, IronDrive.sizeAt, contentAt_congr (h p)]

theorem SameEntries.visibleFiles (place : Path) : (visibleFiles t' place).Perm (visibleFiles t place) := by
  rw [IronDrive.visibleFiles, IronDrive.visibleFiles, h.isDirAt]
  exact (below_perm_of_node h isShown place).filter _

theorem SameEntries.visibleDirs (place : Path) : (visibleDirs t' place).Perm (visibleDirs t place) := by
  rw [IronDrive.visibleDirs, IronDrive.visibleDirs, h.isDirAt]
  exact (below_perm_of_node h isShown place).filter _

theorem SameEntries.shownAt (place : Path) : shownAt t' place = shownAt t place := by
  funext p
  rw [IronDrive.shownAt, IronDrive.shownAt, h.isDirAt, h.sizeAt]

theorem SameEntries.rank (keep : String → Bool) (place : Path) :
    (t'.branching keep).rank place = (t.branching keep).rank place := by
  have hpaths : t'.paths.Perm t.paths :=
    (List.perm_ext_iff_of_nodup t'.nodup_paths t.nodup_paths).mpr fun p => by rw [t'.mem_paths, t.mem_paths, h p]
  show (t'.paths.map List.length).sum - _ = (t.paths.map List.length).sum - _
  rw [(hpaths.map List.length).sum_eq]

theorem SameEntries.dirsAddressed (haddressed : DirsAddressed t place target) : DirsAddressed t' place target :=
  fun names hnames => haddressed names ((h.visibleDirs target).mem_iff.mp hnames)

theorem SameEntries.usage (target : Path) : usageOf t' (visibleBelow t' target) =
    ⟨min ((IronDrive.visibleFiles t target).map (IronDrive.sizeAt t)).sum u64Max,
      min (IronDrive.visibleFiles t target).length u64Max, min (IronDrive.visibleDirs t target).length u64Max⟩ := by
  have hfiles := h.visibleFiles target
  have hsum := (hfiles.map (IronDrive.sizeAt t)).sum_eq
  rw [usageOf, h.sizeAt, ← hsum, ← hfiles.length_eq, ← (h.visibleDirs target).length_eq]
  rfl

end SameEntries

/-- The files among the entries listed are the visible files. -/
theorem listed_files {listed : List FsEntry}
    (h : (listed.map FsEntry.shown).Perm ((visibleBelow t target).map (shownAt t place))) :
    ((listed.filter fun entry => !entry.isDir).map FsEntry.shown).Perm
      ((visibleFiles t target).map (shownAt t place)) := by
  have hfiles := h.filter fun shown => !shown.2.1
  rw [List.filter_map, List.filter_map] at hfiles
  exact hfiles

/-- The walkers agree: on every tree without links, in whatever order each of them reads the directories, disk usage
ends with the numbers of visible files and directories and the sum of the file sizes, each capped at the greatest
64-bit number; a scan ends with the number of files as a 64-bit counter gives it; and, where the path check accepts
the path of every visible directory, listing after listing ends with those files and no others. -/
theorem walkers_agree (P : Primitives) (facts : EntryFacts) (config : AppConfig) (unlockState : UnlockState)
    (libraryId : String) (t : FileTree) (hfree : t.LinkFree) (place : Path)
    (hroot : t.canonicalize (libraryRoot config libraryId) = .ok place) (userPath : String) (target : Path)
    (htarget : Target t place userPath target) (hdir : t.node target = some .dir) :
    ∃ bound, ∀ fuel, bound ≤ fuel → ∀ oracle, QuietOracle oracle → ∀ disk : Disk, SameEntries t disk.tree →
      ((calculateUsage fuel config libraryId userPath).run (fsHandler oracle) disk).1 =
          .ok (some ⟨min ((visibleFiles t target).map (sizeAt t)).sum u64Max,
            min (visibleFiles t target).length u64Max, min (visibleDirs t target).length u64Max⟩) ∧
      (DirsAddressed t place target → ∀ checkIntegrity, ∃ listed,
        ((listRecursively (fun path => listDirectory P facts config unlockState libraryId path checkIntegrity) fuel
          userPath).run (fsHandler oracle) disk).1 = .ok (some listed) ∧
        ((listed.filter fun entry => !entry.isDir).map FsEntry.shown).Perm
          ((visibleFiles t target).map (shownAt t place))) ∧
      ∀ (root start : Path) (dataKey : Option DataKey) (targetType targetId : String) (draws : Nat → EventDraw)
        (log : EventLog), t.canonicalize start = .ok target → ∃ scan,
          ((IntegrityService.scanDirectory P fuel targetType targetId root start dataKey).run
            (Program.sumHandler (fsHandler oracle) (eventHandler draws)) (disk, log)).1 = .ok (some scan) ∧
          scan.filesScanned = (visibleFiles t target).length % 2 ^ 64 := by
  refine ⟨(visibleDirs t target).length + (t.branching isShown).rank target + 1,
    fun fuel hfuel oracle hquiet disk hsame => ?_⟩
  have hfree' := hsame.linkFree hfree
  have hroot' := hsame.canonicalize hroot
  have hdir' : disk.tree.node target = some .dir := by rw [hsame target, hdir]
  have hdirs : (visibleDirs disk.tree target).length < fuel := by
    rw [(hsame.visibleDirs target).length_eq]
    omega
  refine ⟨?_, fun haddressed checkIntegrity => ?_, fun root start dataKey targetType targetId draws log hstart => ?_⟩
  · have husage := usageIn_stops hfree' hroot' (hsame.targets htarget) hdir' hdirs
    rw [hsame.usage] at husage
    exact (run_of_stops hquiet husage).1
  · have hlist : ∀ path found, Target disk.tree place path found → disk.tree.node found = some .dir →
        (listDirectory P facts config unlockState libraryId path checkIntegrity).Ensures Quietly disk.tree
          fun result t' => t' = disk.tree ∧ ∃ entries, result = .ok entries ∧ (entries.map FsEntry.shown).Perm
            (((disk.tree.branching isShown).children found).map (shownAt disk.tree place)) :=
      fun path found hfound hfoundDir => listEntries_shows _ _ hfree' hroot' hfound hfoundDir
    have hlisted := listRecursively_shows hlist fuel (hsame.targets htarget) hdir' (hsame.dirsAddressed haddressed)
      (by rw [hsame.rank]; omega)
    obtain ⟨-, listed, hrun, hshown⟩ := run_of_ensures hquiet hlisted
    refine ⟨listed, hrun, ?_⟩
    have hfiles := listed_files hshown
    rw [hsame.shownAt] at hfiles
    exact hfiles.trans ((hsame.visibleFiles target).map _)
  · have hopens := opensDir_of_canonicalize (hsame.canonicalize hstart) hdir'
    obtain ⟨v, scan, hrun, hcount⟩ := run_of_scan_ensures hquiet draws log
      (scanDirectory_ensures hfree' P targetType targetId root dataKey hopens hdirs)
    exact ⟨scan, hrun, by rw [hcount, (hsame.visibleFiles target).length_eq]⟩

theorem docsDisk_addressed : DirsAddressed docsDisk.tree ["libraries", "l"] ["libraries", "l"] := by
  intro names hdir
  have hdirs : visibleDirs docsDisk.tree ["libraries", "l"] = [["libraries", "l"] ++ ["docs"]] := by decide +kernel
  rw [hdirs, List.mem_singleton, List.append_cancel_left_eq] at hdir
  obtain ⟨hwell, hsplit⟩ := (parseUserPath_ok_iff "docs" ["docs"]).mp (by decide +kernel)
  rw [hdir, hsplit]
  exact addressed_of_wellFormed hwell

/-- The library has one directory, and in it one file of one byte. -/
theorem walkers_agree_docs :
    ∃ bound, ∀ fuel, bound ≤ fuel →
      ((calculateUsage fuel sampleConfig "l" "").run (fsHandler calmOracle) docsDisk).1 = .ok (some ⟨1, 1, 1⟩) ∧
      (∃ listed, ((listRecursively (fun path => listDirectory plainPrimitives plainFacts sampleConfig sampleUnlocked
          "l" path false) fuel "").run (fsHandler calmOracle) docsDisk).1 = .ok (some listed) ∧
        (listed.filter fun entry => !entry.isDir).map FsEntry.shown = [("docs/a", false, some 1)]) ∧
      ∀ (draws : Nat → EventDraw) (log : EventLog), ∃ scan,
        ((IntegrityService.scanDirectory plainPrimitives fuel "library" "l" ["libraries", "l"] ["libraries", "l"]
          (some zeroKey)).run (Program.sumHandler (fsHandler calmOracle) (eventHandler draws)) (docsDisk, log)).1 =
            .ok (some scan) ∧ scan.filesScanned = 1 := by
  have hfiles : visibleFiles docsDisk.tree ["libraries", "l"] = [["libraries", "l", "docs", "a"]] := by decide +kernel
  have hdirs : visibleDirs docsDisk.tree ["libraries", "l"] = [["libraries", "l", "docs"]] := by decide +kernel
  have hshown :
      shownAt docsDisk.tree ["libraries", "l"] ["libraries", "l", "docs", "a"] = ("docs/a", false, some 1) := by
    decide +kernel
  obtain ⟨bound, hagree⟩ := walkers_agree plainPrimitives plainFacts sampleConfig sampleUnlocked "l" docsDisk.tree
    docsDisk_linkFree ["libraries", "l"] (by decide) "" ["libraries", "l"] (Or.inl ⟨rfl, rfl⟩) (by decide)
  refine ⟨bound, fun fuel hfuel => ?_⟩
  obtain ⟨husage, hlisting, hscan⟩ := hagree fuel hfuel calmOracle calmOracle_quiet docsDisk fun _ => rfl
  rw [hfiles, hdirs] at husage
  refine ⟨husage, ?_, fun draws log => ?_⟩
  · obtain ⟨listed, hrun, hperm⟩ := hlisting docsDisk_addressed false
    rw [hfiles, List.map_singleton, hshown] at hperm
    exact ⟨listed, hrun, List.perm_singleton.mp hperm⟩
  · obtain ⟨scan, hrun, hcount⟩ := hscan ["libraries", "l"] ["libraries", "l"] (some zeroKey) "library" "l" draws log
      (by decide)
    exact ⟨scan, hrun, by rw [hcount, hfiles]; rfl⟩

/-- A library with the file `f` in the directory `a\\b`. -/
def backslashDisk : Disk where
  tree := ((((FileTree.empty.put ["libraries"] .dir).put ["libraries", "l"] .dir).put
    ["libraries", "l", "a\\b"] .dir).put ["libraries", "l", "a\\b", "f"] (.file [1]))
  tick := 0

theorem backslashDisk_linkFree : backslashDisk.tree.LinkFree := by
  dsimp only [backslashDisk]
  apply LinkFree.put
  · apply LinkFree.put
    · apply LinkFree.put
      · apply LinkFree.put linkFree_empty
        simp
      · simp
    · simp
  · simp

theorem backslash_accepts : Accepts backslashDisk.tree ["libraries", "l"] "a/b" := by
  have hparse : parseUserPath "a/b" = .ok ["a", "b"] := by decide +kernel
  obtain ⟨hwell, hsplit⟩ := (parseUserPath_ok_iff _ _).mp hparse
  refine ⟨hwell, ?_⟩
  rw [← hsplit]
  intro front hfront hne content
  have hcases : front ∈ List.inits ["a", "b"] := (List.mem_inits _ _).mpr hfront
  simp only [List.inits, List.map_cons, List.map_nil, List.mem_cons, List.not_mem_nil, or_false] at hcases
  have hroot : backslashDisk.tree.node (["libraries", "l"] ++ []) = some .dir := by decide
  have hmissing : backslashDisk.tree.node (["libraries", "l"] ++ ["a"]) = none := by decide
  rcases hcases with rfl | rfl | rfl
  · rw [hroot]
    simp
  · rw [hmissing]
    simp
  · exact absurd rfl hne

/-- The directory is shown as `a/b`, which is no path of it. -/
theorem backslash_listing (fuel : Nat) : (listRecursively (fun path => listDirectory plainPrimitives plainFacts
    sampleConfig sampleUnlocked "l" path false) (fuel + 2) "").Ensures Quietly backslashDisk.tree fun result _ =>
      ∃ error, result = .error error := by
  have hroot : backslashDisk.tree.canonicalize (libraryRoot sampleConfig "l") = .ok ["libraries", "l"] := by decide
  have hdir : backslashDisk.tree.node ["libraries", "l"] = some .dir := by decide
  have hchildren : ((backslashDisk.tree.branching isShown).children ["libraries", "l"]).map
      (shownAt backslashDisk.tree ["libraries", "l"]) = [("a/b", true, none)] := by decide +kernel
  refine Program.Ensures.bind (listEntries_shows (P := plainPrimitives) (sampleUnlocked.getLibraryKey "l") false
    backslashDisk_linkFree hroot (Or.inl ⟨rfl, rfl⟩) hdir) ?_ ?_
  · intro found t' h
    obtain ⟨rfl, entries, hfound, hperm⟩ := h
    cases hfound
    rw [hchildren, List.perm_singleton] at hperm
    obtain ⟨entry, rfl, hshown⟩ := List.map_eq_singleton_iff.mp hperm
    obtain ⟨hpath, hisDir, -⟩ : entry.path = "a/b" ∧ entry.isDir = true ∧ entry.diskSize = none := by
      simpa [FsEntry.shown] using hshown
    have hmeta := metadata_stops backslashDisk.tree ["libraries", "l", "a", "b"] fun e : IoError =>
      if e.kind = .notFound then AppError.notFound else .internal ("Cannot read directory metadata: " ++ e.message)
    have hstat : FsCall.stat backslashDisk.tree ["libraries", "l", "a", "b"] = .error .notFound := by decide
    rw [hstat] at hmeta
    have hsplit : splitComponents "a/b" = ["a", "b"] := by decide +kernel
    have htarget : Target backslashDisk.tree ["libraries", "l"] "a/b" ["libraries", "l", "a", "b"] :=
      Or.inr ⟨backslash_accepts, by rw [hsplit]; rfl⟩
    have hinner : (listDirectory plainPrimitives plainFacts sampleConfig sampleUnlocked "l" "a/b" false).Stops
        Quietly backslashDisk.tree (.error .notFound) backslashDisk.tree :=
      (resolveTarget_plain backslashDisk_linkFree hroot htarget).bind hmeta.bind_error
    rw [listEach, hisDir, hpath]
    refine Program.Ensures.mono (hinner.bind_error.bind_error) ?_
    intro result t' h
    obtain ⟨rfl, -⟩ := h
    exact ⟨_, rfl⟩
  · intro error t' h
    obtain ⟨-, found, hfound, -⟩ := h
    cases hfound

theorem walkers_disagree_backslash :
    ¬ ∀ (P : Primitives) (facts : EntryFacts) (config : AppConfig) (unlockState : UnlockState) (libraryId : String)
      (t : FileTree), t.LinkFree → ∀ place, t.canonicalize (libraryRoot config libraryId) = .ok place →
        ∀ userPath target, Target t place userPath target → t.node target = some .dir →
          ∃ bound, ∀ fuel, bound ≤ fuel → ∀ oracle, QuietOracle oracle → ∀ disk : Disk, SameEntries t disk.tree →
            ((calculateUsage fuel config libraryId userPath).run (fsHandler oracle) disk).1 =
                .ok (some ⟨((visibleFiles t target).map (sizeAt t)).sum, (visibleFiles t target).length,
                  (visibleDirs t target).length⟩) ∧
            (∀ checkIntegrity, ∃ listed,
              ((listRecursively (fun path => listDirectory P facts config unlockState libraryId path checkIntegrity)
                fuel userPath).run (fsHandler oracle) disk).1 = .ok (some listed) ∧
              ((listed.filter fun entry => !entry.isDir).map FsEntry.shown).Perm
                ((visibleFiles t target).map (shownAt t place))) ∧
            ∀ (root start : Path) (dataKey : Option DataKey) (targetType targetId : String)
              (draws : Nat → EventDraw) (log : EventLog), t.canonicalize start = .ok target → ∃ scan,
                ((IntegrityService.scanDirectory P fuel targetType targetId root start dataKey).run
                  (Program.sumHandler (fsHandler oracle) (eventHandler draws)) (disk, log)).1 = .ok (some scan) ∧
                scan.filesScanned = (visibleFiles t target).length := by
  intro h
  obtain ⟨bound, hagree⟩ := h plainPrimitives plainFacts sampleConfig sampleUnlocked "l" backslashDisk.tree
    backslashDisk_linkFree ["libraries", "l"] (by decide) "" ["libraries", "l"] (Or.inl ⟨rfl, rfl⟩) (by decide)
  obtain ⟨-, hlists, -⟩ := hagree (bound + 2) (by omega) calmOracle calmOracle_quiet backslashDisk fun _ => rfl
  obtain ⟨listed, hrun, -⟩ := hlists false
  obtain ⟨error, herror⟩ := run_of_ensures calmOracle_quiet (backslash_listing bound)
  rw [hrun] at herror
  cases herror

end IronDrive
