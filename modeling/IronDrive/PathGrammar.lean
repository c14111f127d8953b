import Mathlib.Data.List.TakeWhile
import IronDrive.PathContainment

/-! The grammar of user paths. On a tree without links the walk of `safeJoin` fails only below a regular
file, so what it accepts is what its string rules accept, less the paths that lead through a file. -/

namespace IronDrive

open Lib FileTree

namespace PathSafety

/-- A name that a path may have as a component. -/
structure WellFormedName (name : String) : Prop where
  nonempty : name ≠ ""
  short : name.utf8ByteSize ≤ maxComponentBytes
  no_control : ∀ c ∈ name.toList, isControl c = false
  not_hidden : name.toList.head? ≠ some '.'
  trimmed : name.toList = trim name.toList

structure WellFormedPath (userPath : String) : Prop where
  nonempty : userPath ≠ ""
  short : userPath.utf8ByteSize ≤ maxPathBytes
  no_colon : ':' ∉ userPath.toList
  relative : ∀ c, userPath.toList.head? = some c → isSeparator c = false
  shallow : (splitComponents userPath).length ≤ maxDepth
  names : ∀ name ∈ splitComponents userPath, WellFormedName name

/-- Nothing on the way down from a directory to the last of some names is a regular file. -/
def Passable (t : FileTree) (base : Path) (names : List String) : Prop :=
  ∀ front, front <+: names → front ≠ names → ∀ content, t.node (base ++ front) ≠ some (.file content)

theorem toList_eq_nil_iff (s : String) : s.toList = [] ↔ s = "" := by simp

theorem trim_of_all_whitespace {chars : List Char} (h : chars.all isWhitespace = true) : trim chars = [] := by
  have hdrop : chars.dropWhile isWhitespace = [] := by
    rw [List.dropWhile_eq_nil_iff]
    exact List.all_eq_true.mp h
  simp [trim, hdrop]

/-- The checks for `.`, `..`, null bytes and whitespace-only names reject nothing that the others accept. -/
theorem validateComponent_ok_iff (component : String) :
    validateComponent component = .ok () ↔ WellFormedName component := by
  constructor
  · intro h
    obtain ⟨hempty, -, -, hhidden⟩ := validateComponent_ok h
    simp only [validateComponent] at h
    split at h
    · cases h
    split at h
    · cases h
    rename_i hshort
    split at h
    · cases h
    split at h
    · cases h
    rename_i hcontrol
    split at h
    · cases h
    split at h
    · cases h
    split at h
    · cases h
    split at h
    · cases h
    rename_i htrim _
    exact ⟨hempty, not_lt.mp hshort, by simpa using hcontrol, hhidden, not_not.mp htrim⟩
  · intro h
    have hchars : component.toList ≠ [] := fun hnil => h.nonempty ((toList_eq_nil_iff component).mp hnil)
    have hnull : '\x00' ∉ component.toList := fun hmem => by
      have := h.no_control _ hmem
      revert this
      decide
    have hdot : component ≠ "." := fun heq => h.not_hidden (by rw [heq]; rfl)
    have hdotdot : component ≠ ".." := fun heq => h.not_hidden (by rw [heq]; rfl)
    have hspace : ¬ component.toList.all isWhitespace = true := fun hall =>
      hchars (h.trimmed.trans (trim_of_all_whitespace hall))
    have hcontrol : ¬ component.toList.any isControl = true := by simpa using h.no_control
    simp only [validateComponent]
    rw [if_neg hchars, if_neg (not_lt.mpr h.short), if_neg hnull, if_neg hcontrol, if_neg hdot, if_neg hdotdot,
      if_neg h.not_hidden, if_neg (not_not.mpr h.trimmed), if_neg hspace]

theorem validateComponents_ok_iff (components : List String) :
    validateComponents components = .ok () ↔ ∀ name ∈ components, WellFormedName name := by
  constructor
  · intro h name hname
    exact (validateComponent_ok_iff name).mp (validateComponents_ok h name hname)
  · intro h
    induction components with
    | nil => rfl
    | cons first rest ih =>
        have hfirst := (validateComponent_ok_iff first).mpr (h first (by simp))
        simp only [validateComponents, bind, Except.bind, hfirst]
        exact ih fun name hname => h name (by simp [hname])

/-- The string rules accept the well-formed paths, and split them into their components. -/
theorem parseUserPath_ok_iff (userPath : String) (components : List String) :
    parseUserPath userPath = .ok components ↔ WellFormedPath userPath ∧ components = splitComponents userPath := by
  constructor
  · intro h
    simp only [parseUserPath] at h
    split at h
    · cases h
    rename_i hempty
    split at h
    · cases h
    rename_i hshort
    split at h
    · cases h
    rename_i habsolute
    split at h
    · cases h
    rename_i hshallow
    simp only [bind, Except.bind] at h
    split at h
    · cases h
    rename_i u hvalid
    cases h
    refine ⟨⟨fun heq => hempty ((toList_eq_nil_iff userPath).mpr heq), not_lt.mp hshort, ?_, ?_,
      not_lt.mp hshallow, (validateComponents_ok_iff _).mp hvalid⟩, rfl⟩
    · exact fun hcolon => habsolute (Or.inr (Or.inr hcolon))
    · intro c hc
      by_contra hsep
      have hcases : c = '/' ∨ c = '\\' := by simpa [isSeparator, or_iff_not_imp_left] using hsep
      rcases hcases with rfl | rfl
      · exact habsolute (Or.inl hc)
      · exact habsolute (Or.inr (Or.inl hc))
  · rintro ⟨h, rfl⟩
    have hvalid := (validateComponents_ok_iff _).mpr h.names
    have habsolute : ¬ (userPath.toList.head? = some '/' ∨ userPath.toList.head? = some '\\' ∨
        ':' ∈ userPath.toList) := by
      rintro (hc | hc | hc)
      · exact absurd (h.relative _ hc) (by decide)
      · exact absurd (h.relative _ hc) (by decide)
      · exact h.no_colon hc
    simp only [parseUserPath]
    rw [if_neg fun hnil => h.nonempty ((toList_eq_nil_iff userPath).mp hnil), if_neg (not_lt.mpr h.short),
      if_neg habsolute, if_neg (not_lt.mpr h.shallow), hvalid]
    rfl

theorem parseUserPath_error {userPath : String} (h : ¬ WellFormedPath userPath) :
    ∃ error, parseUserPath userPath = .error error := by
  cases hparse : parseUserPath userPath with
  | error error => exact ⟨error, rfl⟩
  | ok components => exact absurd ((parseUserPath_ok_iff userPath components).mp hparse).1 h

/-! ### The walk without links -/

section Walk

variable {t : FileTree} {canonicalRoot current : Path} {components : List String} {name : String}

theorem Passable.tail (h : Passable t current (name :: components)) :
    Passable t (current ++ [name]) components := by
  intro front hfront hne content
  have hcons : current ++ [name] ++ front = current ++ name :: front := by simp
  rw [hcons]
  exact h (name :: front) (by simpa using hfront) (by simpa using hne) content

theorem not_passable_of_tail (h : ¬ Passable t current (name :: components))
    (hdir : t.node current = some .dir) : ¬ Passable t (current ++ [name]) components := by
  intro htail
  refine h fun front hfront hne content => ?_
  cases front with
  | nil =>
      rw [List.append_nil, hdir]
      simp
  | cons first rest =>
      obtain ⟨rfl, hrest⟩ := List.cons_prefix_cons.mp hfront
      have hcons : current ++ first :: rest = current ++ [first] ++ rest := by simp
      rw [hcons]
      exact htail rest hrest (by simpa using hne) content

/-- Below a missing entry there is no file in the way. -/
theorem passable_of_missing (h : t.node current = none) : Passable t current components := by
  intro front _ _ content hnode
  by_cases hnil : front = []
  · rw [hnil, List.append_nil, h] at hnode
    cases hnode
  · rw [node_append_of_not_dir (by rw [h]; simp) hnil] at hnode
    cases hnode

theorem symlinkMetadata_stops (t : FileTree) (path : Path) :
    (fsCall (.symlinkMetadata path)).Stops Quietly t
      (.ok ((FsCall.lstat t path).mapError IoError.ofKind)) t :=
  fsCall_stops fun choice hquiet => by simp only [FsCall.perform, guard_of_quiet hquiet]

theorem canonicalize_stops (t : FileTree) (path : Path) :
    (fsCall (.canonicalize path)).Stops Quietly t
      (.ok ((t.canonicalize path).mapError IoError.ofKind)) t :=
  fsCall_stops fun choice hquiet => by simp only [FsCall.perform, guard_of_quiet hquiet]

theorem lstat_in_dir (hresolved : t.Resolved current) (hdir : t.node current = some .dir) (name : String) :
    FsCall.lstat t (current ++ [name]) =
      ((t.node (current ++ [name])).map fun n => .ok (Metadata.ofNode n)).getD (.error .notFound) := by
  simp only [FsCall.lstat, locateEntry_snoc hresolved hdir, bind, Except.bind]
  cases t.node (current ++ [name]) <;> rfl

theorem lstat_in_file {content : Bytes} (hresolved : t.Resolved current)
    (hfile : t.node current = some (.file content)) (name : String) :
    FsCall.lstat t (current ++ [name]) = .error .notADirectory := by
  simp [FsCall.lstat, locateEntry, locate_of_resolved hresolved, hfile, bind, Except.bind, throw, throwThe,
    MonadExceptOf.throw]

/-- One round of the walk in a directory: at a missing entry it stops, past an entry it goes on. -/
theorem walkComponents_step {result : Except AppError Path} (hfree : t.LinkFree)
    (hunder : canonicalRoot <+: current) (hresolved : t.Resolved current)
    (hdir : t.node current = some .dir) (hname : Ordinary name)
    (hmissing : t.node (current ++ [name]) = none → result = .ok (current ++ name :: components))
    (hnext : t.node (current ++ [name]) ≠ none → t.Resolved (current ++ [name]) →
      (walkComponents canonicalRoot (current ++ [name]) components).Stops Quietly t result t) :
    (walkComponents canonicalRoot current (name :: components)).Stops Quietly t result t := by
  rw [walkComponents]
  refine (symlinkMetadata_stops t _).bind ?_
  rw [lstat_in_dir hresolved hdir]
  cases hnode : t.node (current ++ [name]) with
  | none =>
      rw [hmissing hnode]
      refine ⟨?_, rfl⟩
      simp
  | some n =>
      have hplace : t.Resolved (current ++ [name]) := hresolved.snoc hdir hname (hfree _)
      have hexists : t.node (current ++ [name]) ≠ none := by simp [hnode]
      have hinside : canonicalRoot <+: current ++ [name] := hunder.trans (List.prefix_append _ _)
      refine (canonicalize_stops t _).bind ?_
      rw [canonicalize_of_resolved hplace hexists]
      simp only [Except.mapError, attempt, Program.bind_eq, Program.done_bind, hinside, not_true_eq_false, if_false]
      exact hnext hexists hplace

theorem walkComponents_stops (hfree : t.LinkFree) (components : List String) : ∀ {current : Path},
    (∀ name ∈ components, SafeName name) → canonicalRoot <+: current → t.Resolved current →
      t.node current ≠ none → Passable t current components →
        (walkComponents canonicalRoot current components).Stops Quietly t (.ok (current ++ components)) t := by
  induction components with
  | nil => intro current _ _ _ _ _; exact ⟨by simp, rfl⟩
  | cons name rest ih =>
      intro current hsafe hunder hresolved hexists hpass
      have hdir : t.node current = some .dir := hfree.dir_of_no_file hexists fun content => by
        have := hpass [] (by simp) (by simp) content
        rwa [List.append_nil] at this
      refine walkComponents_step hfree hunder hresolved hdir (hsafe name (by simp)).ordinary (fun _ => rfl)
        fun hnext hplace => ?_
      have hwalk := ih (fun n hn => hsafe n (by simp [hn])) (hunder.trans (List.prefix_append _ _)) hplace hnext
        hpass.tail
      simpa using hwalk

theorem walkComponents_rejects (hfree : t.LinkFree) (components : List String) : ∀ {current : Path},
    (∀ name ∈ components, SafeName name) → canonicalRoot <+: current → t.Resolved current →
      t.node current ≠ none → ¬ Passable t current components →
        ∃ error, (walkComponents canonicalRoot current components).Stops Quietly t (.error error) t := by
  induction components with
  | nil =>
      intro current _ _ _ _ hpass
      exact absurd (fun front hfront hne => absurd (List.prefix_nil.mp hfront) hne) hpass
  | cons name rest ih =>
      intro current hsafe hunder hresolved hexists hpass
      by_cases hfile : ∃ content, t.node current = some (.file content)
      · obtain ⟨content, hfile⟩ := hfile
        refine ⟨.validation ("Cannot read metadata for path component: " ++
          (IoError.ofKind .notADirectory).message), ?_⟩
        rw [walkComponents]
        refine (symlinkMetadata_stops t _).bind ?_
        rw [lstat_in_file hresolved hfile]
        exact ⟨rfl, rfl⟩
      · have hdir : t.node current = some .dir :=
          hfree.dir_of_no_file hexists fun content hnode => hfile ⟨content, hnode⟩
        have htail := not_passable_of_tail hpass hdir
        have hplace : t.node (current ++ [name]) ≠ none := fun hnone => htail (passable_of_missing hnone)
        have hordinary := (hsafe name (by simp)).ordinary
        obtain ⟨error, hwalk⟩ := ih (fun n hn => hsafe n (by simp [hn])) (hunder.trans (List.prefix_append _ _))
          (hresolved.snoc hdir hordinary (hfree _)) hplace htail
        exact ⟨error, walkComponents_step hfree hunder hresolved hdir hordinary (fun hnone => absurd hnone hplace)
          fun _ _ => hwalk⟩

variable {root : Path} {userPath : String}

theorem safeJoin_stops (hfree : t.LinkFree) (hroot : t.canonicalize root = .ok canonicalRoot)
    (hwell : WellFormedPath userPath) (hpass : Passable t canonicalRoot (splitComponents userPath)) :
    (safeJoin root userPath).Stops Quietly t (.ok (canonicalRoot ++ splitComponents userPath)) t := by
  have hparse := (parseUserPath_ok_iff userPath _).mpr ⟨hwell, rfl⟩
  obtain ⟨hresolved, hexists⟩ := canonicalize_resolved hroot
  rw [safeJoin, hparse]
  refine (canonicalize_stops t root).bind ?_
  rw [hroot]
  refine (walkComponents_stops hfree _ (parseUserPath_ok hparse) (List.prefix_refl _) hresolved hexists hpass).bind ?_
  rw [if_neg (not_not.mpr (List.prefix_append _ _))]
  exact ⟨rfl, rfl⟩

theorem safeJoin_rejects (hfree : t.LinkFree) (hroot : t.canonicalize root = .ok canonicalRoot)
    (h : ¬ (WellFormedPath userPath ∧ Passable t canonicalRoot (splitComponents userPath))) :
    ∃ error, (safeJoin root userPath).Stops Quietly t (.error error) t := by
  by_cases hwell : WellFormedPath userPath
  · have hparse := (parseUserPath_ok_iff userPath _).mpr ⟨hwell, rfl⟩
    obtain ⟨hresolved, hexists⟩ := canonicalize_resolved hroot
    obtain ⟨error, hwalk⟩ := walkComponents_rejects hfree _ (parseUserPath_ok hparse)
      (List.prefix_refl canonicalRoot) hresolved hexists fun hpass => h ⟨hwell, hpass⟩
    refine ⟨error, ?_⟩
    rw [safeJoin, hparse]
    refine (canonicalize_stops t root).bind ?_
    rw [hroot]
    exact hwalk.bind_error
  · obtain ⟨error, hparse⟩ := parseUserPath_error hwell
    refine ⟨error, ?_⟩
    rw [safeJoin, hparse]
    exact ⟨rfl, rfl⟩

end Walk

/-- What `safeJoin` accepts: on a tree without links it accepts exactly the well-formed paths that do not
lead through a regular file, and returns the canonical root followed by the components. -/
theorem safeJoin_accepts_iff (oracle : Nat → Choice) (hquiet : QuietOracle oracle) (disk : Disk)
    (hfree : disk.tree.LinkFree) (root canonicalRoot : Path)
    (hroot : disk.tree.canonicalize root = .ok canonicalRoot) (userPath : String) :
    ((∃ p, ((safeJoin root userPath).run (fsHandler oracle) disk).1 = .ok p) ↔
      WellFormedPath userPath ∧ Passable disk.tree canonicalRoot (splitComponents userPath)) ∧
    ∀ p, ((safeJoin root userPath).run (fsHandler oracle) disk).1 = .ok p →
      p = canonicalRoot ++ splitComponents userPath := by
  by_cases h : WellFormedPath userPath ∧ Passable disk.tree canonicalRoot (splitComponents userPath)
  · obtain ⟨hresult, -⟩ := run_of_stops hquiet (safeJoin_stops hfree hroot h.1 h.2)
    rw [hresult]
    exact ⟨⟨fun _ => h, fun _ => ⟨_, rfl⟩⟩, fun p hp => (Except.ok.inj hp).symm⟩
  · obtain ⟨error, hstops⟩ := safeJoin_rejects hfree hroot h
    obtain ⟨hresult, -⟩ := run_of_stops hquiet hstops
    rw [hresult]
    refine ⟨⟨?_, fun hgood => absurd hgood h⟩, fun p hp => by cases hp⟩
    rintro ⟨p, hp⟩
    cases hp

/-- A library with one directory and one file. -/
def plainDisk : Disk where
  tree := (((FileTree.empty.put ["lib"] .dir).put ["lib", "docs"] .dir).put ["lib", "docs", "a"] (.file [1]))
  tick := 0

theorem plainDisk_linkFree : plainDisk.tree.LinkFree := by
  dsimp only [plainDisk]
  apply LinkFree.put
  · apply LinkFree.put
    · apply LinkFree.put linkFree_empty
      simp
    · simp
  · simp

/-- Both separators split, and the file stands in the way of what lies below it. -/
theorem safeJoin_accepts_iff_plain :
    ((∃ p, ((safeJoin ["lib"] "docs\\a/b").run (fsHandler calmOracle) plainDisk).1 = .ok p) ↔
      WellFormedPath "docs\\a/b" ∧ Passable plainDisk.tree ["lib"] (splitComponents "docs\\a/b")) ∧
    ∀ p, ((safeJoin ["lib"] "docs\\a/b").run (fsHandler calmOracle) plainDisk).1 = .ok p →
      p = ["lib"] ++ splitComponents "docs\\a/b" :=
  safeJoin_accepts_iff calmOracle calmOracle_quiet plainDisk plainDisk_linkFree ["lib"] ["lib"] (by decide)
    "docs\\a/b"

end PathSafety

end IronDrive
