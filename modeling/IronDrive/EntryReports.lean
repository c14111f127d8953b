import IronDrive.EntryInfo
import IronDrive.FsUploads

/-! What listings and entry information report of a file, in a run without faults: its name, and a size that
depends on its length on disk alone. -/

namespace IronDrive

open Lib FileTree PathSafety CryptoService FsService

variable {t : FileTree} {P : Primitives} {facts : EntryFacts}

/-! ### The description of an entry -/

/-- The size that an entry with this metadata is reported as. -/
def sizeOf (m : Metadata) : Option Nat := if m.isDir then none else some (plaintextSizeFromDisk m.len)

/-- The entry at a path, with what its integrity is found to be. -/
def entryOf (facts : EntryFacts) (canonicalRoot path : Path) (name : String) (m : Metadata)
    (integrity : Option String) : FsEntry where
  name := name
  path := relativeDisplayPath canonicalRoot path
  isDir := m.isDir
  size := sizeOf m
  diskSize := if m.isDir then none else some m.len
  mimeType := if m.isDir then none else facts.mimeFromFilename name
  modified := (facts.modified path).map formatSystemTime
  integrity := integrity

/-- What is said of an entry apart from its integrity. -/
def FsEntry.unverified (entry : FsEntry) : FsEntry := { entry with integrity := none }

theorem checkEntry_returns (dataKey : Option DataKey) (checkIntegrity isDir : Bool) (path : Path) :
    (checkEntry P dataKey checkIntegrity isDir path).Ensures Quietly t fun result t' =>
      t' = t ∧ ∃ integrity, result = .ok integrity := by
  unfold checkEntry
  split
  · refine Program.Ensures.bind (verifyFileIntegrityAsync_returns P dataKey path t) ?_ ?_
    · rintro status t' ⟨rfl, -⟩
      exact ⟨rfl, _, rfl⟩
    · rintro error t' ⟨-, status, hstatus⟩
      cases hstatus
  · exact ⟨rfl, _, rfl⟩

theorem describeEntry_returns (dataKey : Option DataKey) (checkIntegrity : Bool) (canonicalRoot path : Path)
    (name : String) (m : Metadata) :
    (describeEntry P facts dataKey checkIntegrity canonicalRoot path name m).Ensures Quietly t fun result t' =>
      t' = t ∧ ∃ integrity, result = .ok (entryOf facts canonicalRoot path name m integrity) := by
  refine Program.Ensures.bind (checkEntry_returns dataKey checkIntegrity m.isDir path) ?_ ?_
  · rintro integrity t' ⟨rfl, -⟩
    exact ⟨rfl, integrity, rfl⟩
  · rintro error t' ⟨-, integrity, hintegrity⟩
    cases hintegrity

/-- The metadata of what is at a place. -/
def metadataAt (t : FileTree) (place : Path) : Metadata := ((t.node place).map Metadata.ofNode).getD ⟨.file, 0⟩

theorem metadataAt_of_node {place : Path} {n : Node} (h : t.node place = some n) :
    metadataAt t place = Metadata.ofNode n := by
  rw [metadataAt, h]
  rfl

/-- The entry that a listing of a directory has for a name. -/
def listedAs (facts : EntryFacts) (t : FileTree) (canonicalRoot target : Path) (name : String) : FsEntry :=
  entryOf facts canonicalRoot (target ++ [name]) name (metadataAt t (target ++ [name])) none

/-- A listing has an entry for every name that is not hidden. -/
theorem listNames_returns (dataKey : Option DataKey) (checkIntegrity : Bool) (canonicalRoot target : Path)
    (names : List String)
    (hstat : ∀ name ∈ names, FsCall.lstat t (target ++ [name]) = .ok (metadataAt t (target ++ [name]))) :
    (listNames P facts dataKey checkIntegrity canonicalRoot target names).Ensures Quietly t fun result t' =>
      t' = t ∧ ∃ entries, result = .ok entries ∧ entries.map FsEntry.unverified =
        (names.filter fun name => !isHidden name).map (listedAs facts t canonicalRoot target) := by
  induction names with
  | nil => exact ⟨rfl, [], rfl, rfl⟩
  | cons name names ih =>
      have hrest := ih fun other hother => hstat other (List.mem_cons_of_mem _ hother)
      rw [listNames]
      by_cases hhidden : isHidden name = true
      · rw [if_pos hhidden, List.filter_cons_of_neg (by simp [hhidden])]
        exact hrest
      · rw [if_neg hhidden, List.filter_cons_of_pos (by simp [hhidden])]
        have hanswer := symlinkMetadata_stops t (target ++ [name])
        rw [hstat name (List.mem_cons_self ..)] at hanswer
        refine hanswer.ensures_bind ((attempt_stops (.ok (metadataAt t (target ++ [name])))).ensures_bind ?_)
        refine Program.Ensures.bind (describeEntry_returns dataKey checkIntegrity canonicalRoot (target ++ [name])
          name _) ?_ ?_
        · rintro entry t₁ ⟨rfl, integrity, hentry⟩
          cases hentry
          refine Program.Ensures.bind hrest ?_ ?_
          · rintro entries t₂ ⟨rfl, found, hfound, hentries⟩
            cases hfound
            refine ⟨rfl, _, rfl, ?_⟩
            rw [List.map_cons, List.map_cons, hentries]
            rfl
          · rintro error t₂ ⟨-, found, hfound, -⟩
            cases hfound
        · rintro error t₁ ⟨-, integrity, hintegrity⟩
          cases hintegrity

theorem lstat_of_child {place : Path} {name : String} {n : Node} (h : t.Resolved place)
    (hnode : t.node (place ++ [name]) = some n) :
    FsCall.lstat t (place ++ [name]) = .ok (Metadata.ofNode n) := by
  have hdir : t.node place = some .dir :=
    node_above (List.prefix_append place [name]) (by simp) (by rw [hnode]; simp)
  simp [FsCall.lstat, locateEntry, locate_of_resolved h, hdir, hnode, bind, Except.bind, pure, Except.pure]

/-- What the path asked for resolves to, in a run without faults. -/
theorem safeJoin_stops {oracle : Nat → Choice} (hquiet : QuietOracle oracle) {disk : Disk} {root target : Path}
    {userPath : String} (hrun : ((safeJoin root userPath).run (fsHandler oracle) disk).1 = .ok target) :
    ∃ canonicalRoot existing appended, disk.tree.canonicalize root = .ok canonicalRoot ∧
      Joined disk.tree canonicalRoot target existing appended ∧
      (safeJoin root userPath).Stops Quietly disk.tree (.ok target) disk.tree := by
  obtain ⟨canonicalRoot, existing, appended, hroot, hjoined⟩ :=
    run_of_ensures (fun _ => trivial) (safeJoin_ensures disk.tree root userPath) target hrun
  exact ⟨canonicalRoot, existing, appended, hroot, hjoined,
    safeJoin_stays hquiet hroot (Extends.refl _) (fun _ _ => rfl) hrun⟩

theorem safeJoin_nonempty {oracle : Nat → Choice} {disk : Disk} {root target : Path} {userPath : String}
    (hrun : ((safeJoin root userPath).run (fsHandler oracle) disk).1 = .ok target) : userPath ≠ "" := by
  rintro rfl
  cases hrun

theorem resolveTarget_stops {root canonicalRoot target : Path} {userPath : String} (hpath : userPath ≠ "")
    (hroot : t.canonicalize root = .ok canonicalRoot)
    (hjoin : (safeJoin root userPath).Stops Quietly t (.ok target) t) :
    (resolveTarget root userPath).Stops Quietly t (.ok (canonicalRoot, target)) t := by
  have hanswer := canonicalize_stops t root
  rw [hroot] at hanswer
  refine hanswer.bind ((attempt_stops (.ok canonicalRoot)).bind ?_)
  simp only [hpath, if_false]
  exact hjoin.bind (Program.stops_done _ _)

/-- The path leads to a file with these bytes. -/
def LeadsTo (oracle : Nat → Choice) (disk : Disk) (root : Path) (userPath : String) (content : Bytes) : Prop :=
  ∃ found place, ((safeJoin root userPath).run (fsHandler oracle) disk).1 = .ok found ∧
    disk.tree.fileAt found = .ok (place, content)

/-- The size reported of a file of these bytes. -/
def reportedSize (content : Bytes) : Nat := plaintextSizeFromDisk content.length

variable (P facts) in
theorem entryInfo_returns {root canonicalRoot target : Path} {userPath : String} {m : Metadata}
    (htarget : (resolveTarget root userPath).Stops Quietly t (.ok (canonicalRoot, target)) t)
    (hstat : FsCall.stat t target = .ok m) (dataKey : Option DataKey) (checkIntegrity : Bool) :
    (entryInfo P facts dataKey root userPath checkIntegrity).Ensures Quietly t fun result t' => t' = t ∧
      ∃ integrity, result = .ok (entryOf facts canonicalRoot target (fileName target) m integrity) := by
  refine htarget.ensures_bind ?_
  have hmeta := metadata_stops t target fun e : IoError =>
    if e.kind = .notFound then AppError.notFound else .internal ("Cannot read entry metadata: " ++ e.message)
  rw [hstat] at hmeta
  exact hmeta.ensures_bind (describeEntry_returns dataKey checkIntegrity canonicalRoot target (fileName target) m)

theorem entryInfo_reports {oracle : Nat → Choice} (hquiet : QuietOracle oracle) {disk : Disk} {root : Path}
    {userPath : String} {content : Bytes} (h : LeadsTo oracle disk root userPath content)
    (dataKey : Option DataKey) (checkIntegrity : Bool) :
    ∃ entry, ((entryInfo P facts dataKey root userPath checkIntegrity).run (fsHandler oracle) disk).1 = .ok entry ∧
      entry.size = some (reportedSize content) := by
  obtain ⟨found, place, hrun, hfile⟩ := h
  obtain ⟨canonicalRoot, existing, appended, hroot, -, hjoin⟩ := safeJoin_stops hquiet hrun
  obtain ⟨-, integrity, hinfo⟩ := run_of_ensures hquiet (entryInfo_returns P facts
    (resolveTarget_stops (safeJoin_nonempty hrun) hroot hjoin) (stat_of_fileAt hfile) dataKey checkIntegrity)
  exact ⟨_, hinfo, rfl⟩

/-- The path asked for resolves to a directory. -/
def LeadsToDir (oracle : Nat → Choice) (disk : Disk) (root : Path) (userPath : String) (dir : Path) : Prop :=
  disk.tree.node dir = some .dir ∧
    ∃ canonicalRoot, ((resolveTarget root userPath).run (fsHandler oracle) disk).1 = .ok (canonicalRoot, dir)

theorem LeadsToDir.stops {oracle : Nat → Choice} (hquiet : QuietOracle oracle) {disk : Disk} {root dir : Path}
    {userPath : String} (h : LeadsToDir oracle disk root userPath dir) :
    disk.tree.Resolved dir ∧ ∃ canonicalRoot,
      (resolveTarget root userPath).Stops Quietly disk.tree (.ok (canonicalRoot, dir)) disk.tree := by
  obtain ⟨hdir, canonicalRoot, hrun⟩ := h
  rw [resolveTarget, Program.bind_eq] at hrun
  obtain ⟨disk', htree, hcanonicalize⟩ := run_bind_of_stops hquiet (canonicalize_stops disk.tree root) _
  rw [hcanonicalize] at hrun
  cases hroot : disk.tree.canonicalize root with
  | error kind =>
      rw [hroot] at hrun
      cases hrun
  | ok place =>
      rw [hroot] at hrun
      have hanswer := canonicalize_stops disk.tree root
      rw [hroot] at hanswer
      by_cases hpath : userPath = ""
      · simp only [Except.mapError, attempt, Program.bind_eq, Program.done_bind, hpath, if_true] at hrun
        cases hrun
        refine ⟨(canonicalize_resolved hroot).1, dir, hanswer.bind ((attempt_stops (.ok dir)).bind ?_)⟩
        simp only [hpath, if_true]
        exact Program.stops_done _ _
      · simp only [Except.mapError, attempt, Program.bind_eq, Program.done_bind, hpath, if_false] at hrun
        rw [Program.run_bind] at hrun
        cases hjoin : (safeJoin root userPath).run (fsHandler oracle) disk' with
        | mk result disk'' =>
            rw [hjoin] at hrun
            cases result with
            | error e => cases hrun
            | ok target =>
                cases hrun
                obtain ⟨canonicalRoot, existing, appended, -, hjoined, hstops⟩ := safeJoin_stops hquiet
                  (congrArg Prod.fst hjoin)
                rw [htree] at hjoined hstops
                exact ⟨hjoined.resolved_of_exists (by rw [hdir]; simp), _,
                  resolveTarget_stops hpath hroot hstops⟩

theorem readDir_stops (t : FileTree) (path : Path) : (fsCall (.readDir path)).Stops Quietly t
    (.ok (((FsCall.listDir t path).map fun names => (names, none)).mapError IoError.ofKind)) t := by
  refine fsCall_stops fun choice hquiet => ?_
  have hfault : choice.fault = none := hquiet
  cases hlist : FsCall.listDir t path with
  | error kind => simp only [FsCall.perform, hlist, hfault, Except.map, Except.mapError]
  | ok names => simp only [FsCall.perform, hlist, hfault, Except.map, Except.mapError]

variable (P facts) in
/-- A listing of a directory has the entries of what is not hidden in it, sorted. -/
theorem listEntries_returns {root canonicalRoot dir : Path} {userPath : String} (hresolved : t.Resolved dir)
    (hdir : t.node dir = some .dir)
    (htarget : (resolveTarget root userPath).Stops Quietly t (.ok (canonicalRoot, dir)) t)
    (dataKey : Option DataKey) (checkIntegrity : Bool) :
    (listEntries P facts dataKey root userPath checkIntegrity).Ensures Quietly t fun result t' => t' = t ∧
      ∃ entries : List FsEntry, result = .ok (entries.insertionSort fun a b => entryLe facts a b) ∧
        entries.map FsEntry.unverified = ((t.children dir).filter fun name => !isHidden name).map
          (listedAs facts t canonicalRoot dir) := by
  have hstat : ∀ name ∈ t.children dir, FsCall.lstat t (dir ++ [name]) = .ok (metadataAt t (dir ++ [name])) := by
    intro name hname
    obtain ⟨n, hn⟩ := Option.ne_none_iff_exists'.mp (mem_children.mp hname)
    rw [metadataAt_of_node hn]
    exact lstat_of_child hresolved hn
  have hmeta := metadata_stops t dir fun e : IoError =>
    if e.kind = .notFound then AppError.notFound else .internal ("Cannot read directory metadata: " ++ e.message)
  have hlocate := locate_of_resolved hresolved
  have hdirMeta : FsCall.stat t dir = .ok (Metadata.ofNode .dir) := by
    simp [FsCall.stat, hlocate, hdir, bind, Except.bind, pure, Except.pure]
  have hlisting : FsCall.listDir t dir = .ok (t.children dir) := by
    simp [FsCall.listDir, hlocate, hdir, bind, Except.bind, pure, Except.pure]
  have hread := readDir_stops t dir
  rw [hdirMeta] at hmeta
  rw [hlisting] at hread
  refine htarget.ensures_bind (hmeta.ensures_bind (hread.ensures_bind
    ((attempt_stops (.ok (_, none))).ensures_bind ?_)))
  refine Program.Ensures.bind (listNames_returns dataKey checkIntegrity canonicalRoot dir _ hstat) ?_ ?_
  · rintro found t' ⟨rfl, entries, hfound, hentries⟩
    cases hfound
    exact ⟨rfl, _, rfl, hentries⟩
  · rintro error t' ⟨-, found, hfound, -⟩
    cases hfound

/-- Every file in a directory that is not hidden is listed, under its size. -/
theorem listEntries_reports {oracle : Nat → Choice} (hquiet : QuietOracle oracle) {disk : Disk} {root dir : Path}
    {userPath name : String} {content : Bytes} (h : LeadsToDir oracle disk root userPath dir)
    (hfile : disk.tree.node (dir ++ [name]) = some (.file content)) (hshown : isHidden name = false)
    (dataKey : Option DataKey) (checkIntegrity : Bool) :
    ∃ entries, ((listEntries P facts dataKey root userPath checkIntegrity).run (fsHandler oracle) disk).1 =
        .ok entries ∧ (∃ entry ∈ entries, entry.name = name) ∧
      ∀ entry ∈ entries, entry.name = name → entry.size = some (reportedSize content) := by
  obtain ⟨hresolved, canonicalRoot, htarget⟩ := h.stops hquiet
  obtain ⟨-, entries, hrun, hentries⟩ := run_of_ensures hquiet (listEntries_returns P facts
    hresolved h.1 htarget dataKey checkIntegrity)
  refine ⟨_, hrun, ?_, fun entry hentry hname => ?_⟩
  · have hmem : name ∈ (disk.tree.children dir).filter fun name => !isHidden name :=
      List.mem_filter.mpr ⟨mem_children.mpr (by rw [hfile]; simp), by simp [hshown]⟩
    have hlisted := List.mem_map_of_mem (f := listedAs facts disk.tree canonicalRoot dir) hmem
    rw [← hentries] at hlisted
    obtain ⟨entry, hentry, hsame⟩ := List.mem_map.mp hlisted
    exact ⟨entry, (List.mem_insertionSort _).mpr hentry, congrArg FsEntry.name hsame⟩
  · have hlisted := List.mem_map_of_mem (f := FsEntry.unverified) ((List.mem_insertionSort _).mp hentry)
    rw [hentries] at hlisted
    obtain ⟨other, -, hsame⟩ := List.mem_map.mp hlisted
    obtain rfl : other = name := (congrArg FsEntry.name hsame).trans hname
    have hsize : sizeOf (metadataAt disk.tree (dir ++ [other])) = entry.size := congrArg FsEntry.size hsame
    rw [← hsize, metadataAt_of_node hfile]
    rfl

end IronDrive
