import Mathlib.Data.List.Basic
import Mathlib.Data.List.Infix
import Mathlib.Data.List.Nodup
import Mathlib.Tactic.Common
import IronDrive.LibBytes

/-! Directory trees with symbolic links. A tree maps absolute paths to nodes; its fields say that the
root is a directory and that whatever exists has a directory above it, so the operations below cannot
build a file inside a file. `locate` follows links the way a kernel resolves a path: `..` steps back
from where the walk really is, and a budget bounds the links followed. -/

namespace Lib

/-- An absolute path, as its names from the root down. -/
abbrev Path : Type := List String

inductive Node
  | dir
  | file (content : Bytes)
  | symlink (absolute : Bool) (target : List String)
  deriving DecidableEq

inductive IoErrorKind
  | notFound
  | alreadyExists
  | notADirectory
  | isADirectory
  | filesystemLoop
  | unexpectedEof
  | other
  deriving DecidableEq

structure FileTree where
  node : Path → Option Node
  /-- The existing paths, in the order a listing shows them. -/
  paths : List Path
  mem_paths : ∀ path, path ∈ paths ↔ node path ≠ none
  nodup_paths : paths.Nodup
  root : node [] = some .dir
  parent : ∀ path, path ≠ [] → node path ≠ none → node path.dropLast = some .dir

namespace FileTree

variable {t : FileTree} {path base : Path} {name : String}

/-- The tree with nothing but its root. -/
def empty : FileTree where
  node path := if path = [] then some .dir else none
  paths := [[]]
  mem_paths path := by by_cases h : path = [] <;> simp [h]
  nodup_paths := by simp
  root := rfl
  parent path hne h := by simp [hne] at h

theorem node_above_dir {stop : Path} (hpre : path <+: stop) (h : t.node stop = some .dir) :
    t.node path = some .dir := by
  obtain ⟨rest, rfl⟩ := hpre
  induction rest using List.reverseRecOn with
  | nil => simpa using h
  | append_singleton rest name ih =>
      apply ih
      have hparent := t.parent (path ++ (rest ++ [name])) (by simp) (by rw [h]; simp)
      rwa [← List.append_assoc, List.dropLast_concat] at hparent

/-- Everything strictly above what exists is a directory. -/
theorem node_above {stop : Path} (hpre : path <+: stop) (hne : path ≠ stop)
    (h : t.node stop ≠ none) : t.node path = some .dir := by
  obtain ⟨rest, rfl⟩ := hpre
  rcases List.eq_nil_or_concat rest with rfl | ⟨rest, name, rfl⟩
  · exact absurd (List.append_nil path).symm hne
  · have hparent := t.parent _ (by simp) h
    rw [List.concat_eq_append, ← List.append_assoc, List.dropLast_concat] at hparent
    exact node_above_dir (List.prefix_append path rest) hparent

/-- Nothing exists below what is not a directory. -/
theorem node_append_of_not_dir (h : t.node path ≠ some .dir) {rest : Path} (hrest : rest ≠ []) :
    t.node (path ++ rest) = none := by
  by_contra hne
  exact h (node_above (List.prefix_append path rest) (by simpa using hrest) hne)

/-- Where a node other than an existing directory may be placed. -/
def Admits (t : FileTree) (path : Path) : Prop :=
  path ≠ [] ∧ t.node path.dropLast = some .dir ∧ t.node path ≠ some .dir

instance (t : FileTree) (path : Path) : Decidable (t.Admits path) :=
  inferInstanceAs (Decidable (_ ∧ _ ∧ _))

theorem dropLast_ne_self (hne : path ≠ []) : path.dropLast ≠ path := by
  intro h
  have := congrArg List.length h
  rw [List.length_dropLast] at this
  have := List.length_pos_of_ne_nil hne
  omega

/-- Place a node at a path that admits one; elsewhere nothing changes. -/
def put (t : FileTree) (path : Path) (n : Node) : FileTree :=
  if h : t.Admits path then
    { node := fun p => if p = path then some n else t.node p
      paths := if t.node path = none then t.paths ++ [path] else t.paths
      mem_paths := by
        intro p
        have hmem := t.mem_paths p
        by_cases hnew : t.node path = none <;> by_cases hp : p = path
        · simp [hnew, hp]
        · simp [hnew, hp, hmem]
        · subst hp; simpa [hnew] using hmem
        · simp [hnew, hp, hmem]
      nodup_paths := by
        have hmem := t.mem_paths path
        by_cases hnew : t.node path = none
        · have hnot : path ∉ t.paths := fun hin => (hmem.mp hin) hnew
          rw [if_pos hnew]
          exact List.nodup_append.mpr ⟨t.nodup_paths, by simp, by
            intro a ha b hb hab
            rw [List.mem_singleton.mp hb] at hab
            exact hnot (hab ▸ ha)⟩
        · rw [if_neg hnew]; exact t.nodup_paths
      root := by
        rw [if_neg (Ne.symm h.1)]; exact t.root
      parent := by
        intro p hp hnode
        by_cases hpp : p = path
        · subst hpp
          rw [if_neg (dropLast_ne_self h.1)]; exact h.2.1
        · rw [if_neg hpp] at hnode
          have hparent := t.parent p hp hnode
          have hother : p.dropLast ≠ path := fun heq => h.2.2 (heq ▸ hparent)
          rw [if_neg hother]; exact hparent }
  else t

theorem node_put (h : t.Admits path) (n : Node) (p : Path) :
    (t.put path n).node p = if p = path then some n else t.node p := by
  rw [put, dif_pos h]

theorem node_put_self (h : t.Admits path) (n : Node) : (t.put path n).node path = some n := by
  rw [node_put h, if_pos rfl]

theorem node_put_of_ne {p : Path} (hne : p ≠ path) (n : Node) : (t.put path n).node p = t.node p := by
  by_cases h : t.Admits path
  · rw [node_put h, if_neg hne]
  · rw [put, dif_neg h]

/-- A directory stays a directory whatever is placed. -/
theorem node_put_of_dir {p : Path} (hdir : t.node p = some .dir) (n : Node) :
    (t.put path n).node p = some .dir := by
  by_cases h : t.Admits path
  · have hne : p ≠ path := fun heq => h.2.2 (heq ▸ hdir)
    rw [node_put_of_ne hne, hdir]
  · rw [put, dif_neg h, hdir]

/-- Remove what exists at a path and below it; the root stays. -/
def removeAll (t : FileTree) (path : Path) : FileTree :=
  if h : path = [] then t
  else
    { node := fun p => if path <+: p then none else t.node p
      paths := t.paths.filter fun p => ¬ path <+: p
      mem_paths := by
        intro p
        by_cases hp : path <+: p <;> simp [hp, t.mem_paths p]
      nodup_paths := t.nodup_paths.filter _
      root := by
        rw [if_neg (by simpa using h)]; exact t.root
      parent := by
        intro p hp hnode
        have hnot : ¬ path <+: p := fun hpre => hnode (if_pos hpre)
        rw [if_neg hnot] at hnode
        have hnot' : ¬ path <+: p.dropLast := fun hpre => hnot (hpre.trans p.dropLast_prefix)
        rw [if_neg hnot']
        exact t.parent p hp hnode }

theorem node_removeAll_of_not_below {p : Path} (h : ¬ path <+: p) :
    (t.removeAll path).node p = t.node p := by
  by_cases hpath : path = []
  · subst hpath; exact absurd (List.nil_prefix) h
  · simp [removeAll, hpath, h]

theorem node_removeAll_of_below {p : Path} (hpath : path ≠ []) (h : path <+: p) :
    (t.removeAll path).node p = none := by
  simp [removeAll, hpath, h]

/-- The names in a directory, in listing order. -/
def children (t : FileTree) (path : Path) : List String :=
  t.paths.filterMap fun p => if p ≠ [] ∧ p.dropLast = path then p.getLast? else none

theorem mem_children {place : Path} {name : String} :
    name ∈ t.children place ↔ t.node (place ++ [name]) ≠ none := by
  rw [children, List.mem_filterMap]
  constructor
  · rintro ⟨p, hp, hname⟩
    split at hname
    · next h =>
        obtain ⟨front, last, rfl⟩ := (List.eq_nil_or_concat p).resolve_left h.1
        rw [List.concat_eq_append] at h hname hp
        rw [List.dropLast_concat] at h
        rw [List.getLast?_concat] at hname
        cases hname
        rw [← h.2]
        exact (t.mem_paths _).mp hp
    · cases hname
  · intro hnode
    refine ⟨place ++ [name], (t.mem_paths _).mpr hnode, ?_⟩
    rw [if_pos ⟨by simp, by simp⟩, List.getLast?_concat]

theorem nodup_children (t : FileTree) (place : Path) : (t.children place).Nodup := by
  refine List.Nodup.filterMap (fun p q name hp hq => ?_) t.nodup_paths
  simp only [Option.mem_def, Option.ite_none_right_eq_some] at hp hq
  obtain ⟨⟨-, hp⟩, hpname⟩ := hp
  obtain ⟨⟨-, hq⟩, hqname⟩ := hq
  rw [← List.dropLast_append_getLast? name hpname, ← List.dropLast_append_getLast? name hqname, hp, hq]

/-- A new entry is listed last. -/
theorem children_put_new {place : Path} (h : t.Admits (place ++ [name])) (hnew : t.node (place ++ [name]) = none)
    (n : Node) : (t.put (place ++ [name]) n).children place = t.children place ++ [name] := by
  simp only [children, put, dif_pos h, if_pos hnew, List.filterMap_append]
  simp

/-- What takes the place of an entry is listed where that was. -/
theorem children_put_old (h : t.node path ≠ none) (n : Node) (place : Path) :
    (t.put path n).children place = t.children place := by
  by_cases hadmits : t.Admits path
  · simp only [children, put, dif_pos hadmits, if_neg h]
  · simp only [put, dif_neg hadmits]

/-- The number of links one resolution may follow. -/
def maxLinks : Nat := 40

/-- Where a walk stops: at a path, with an error, or at a link that sends it elsewhere. -/
inductive Walk
  | stop (path : Path)
  | fail (kind : IoErrorKind)
  | jump (base : Path) (names : List String)

/-- Walk down from a directory without following a link. Only the last name may be missing. -/
def walk (t : FileTree) : Path → List String → Walk
  | base, [] => .stop base
  | base, name :: rest =>
      if t.node base ≠ some .dir then .fail .notADirectory
      else if name = "." then t.walk base rest
      else if name = ".." then t.walk base.dropLast rest
      else
        match t.node (base ++ [name]) with
        | none => if rest = [] then .stop (base ++ [name]) else .fail .notFound
        | some (.symlink absolute target) => .jump (if absolute then [] else base) (target ++ rest)
        | some _ => t.walk (base ++ [name]) rest

/-- Resolve names from a directory, following at most `links` links. -/
def locateFrom (t : FileTree) (links : Nat) (base : Path) (names : List String) :
    Except IoErrorKind Path :=
  match t.walk base names with
  | .stop path => .ok path
  | .fail kind => .error kind
  | .jump base names =>
      match links with
      | 0 => .error .filesystemLoop
      | links + 1 => t.locateFrom links base names

/-- The place a path leads to, following every link. The last name of the place may be missing. -/
def locate (t : FileTree) (path : Path) : Except IoErrorKind Path := t.locateFrom maxLinks [] path

/-- The place a path leads to, when something exists there. -/
def canonicalize (t : FileTree) (path : Path) : Except IoErrorKind Path := do
  let place ← t.locate path
  if t.node place = none then throw .notFound
  return place

/-- The place of a directory entry itself: its directory is resolved, the entry is not followed. -/
def locateEntry (t : FileTree) (path : Path) : Except IoErrorKind Path :=
  match path.getLast? with
  | none => .ok []
  | some name => do
      let parent ← t.locate path.dropLast
      match t.node parent with
      | some .dir => return parent ++ [name]
      | some _ => throw .notADirectory
      | none => throw .notFound

/-- A name that a walk takes literally. -/
def Ordinary (name : String) : Prop := name ≠ "." ∧ name ≠ ".."

/-- A link-free place: directories all the way down to its last name, and no link there. -/
structure Resolved (t : FileTree) (path : Path) : Prop where
  ordinary : ∀ name ∈ path, Ordinary name
  dir : t.node path.dropLast = some .dir
  not_symlink : ∀ absolute target, t.node path ≠ some (.symlink absolute target)

theorem resolved_root : t.Resolved [] where
  ordinary := by simp
  dir := t.root
  not_symlink := by simp [t.root]

theorem Resolved.dropLast (h : t.Resolved path) : t.Resolved path.dropLast where
  ordinary name hmem := h.ordinary name (List.dropLast_subset path hmem)
  dir := node_above_dir (List.dropLast_prefix _) h.dir
  not_symlink := by simp [h.dir]

theorem Resolved.snoc (h : t.Resolved base) (hdir : t.node base = some .dir) (hname : Ordinary name)
    (hlink : ∀ absolute target, t.node (base ++ [name]) ≠ some (.symlink absolute target)) :
    t.Resolved (base ++ [name]) where
  ordinary n hn := by
    rcases List.mem_append.mp hn with hn | hn
    · exact h.ordinary n hn
    · rw [List.mem_singleton.mp hn]; exact hname
  dir := by rw [List.dropLast_concat]; exact hdir
  not_symlink := hlink

/-- The place of something that exists and is no link. -/
theorem resolved_of_node {n : Node} (hord : ∀ name ∈ path, Ordinary name) (h : t.node path = some n)
    (hn : ∀ absolute target, n ≠ .symlink absolute target) : t.Resolved path where
  ordinary := hord
  dir := by
    by_cases hp : path = []
    · subst hp; exact t.root
    · exact t.parent path hp (by simp [h])
  not_symlink absolute target hlink := hn absolute target (by simpa [h] using hlink)

/-- A walk that stops, stops at a link-free place; one that jumps, jumps from one. -/
theorem walk_resolved (names : List String) : ∀ {base : Path}, t.Resolved base →
    match t.walk base names with
    | .stop path => t.Resolved path
    | .fail _ => True
    | .jump base _ => t.Resolved base := by
  induction names with
  | nil => intro base h; exact h
  | cons name rest ih =>
      intro base h
      rw [walk]
      by_cases hdir : t.node base = some .dir
      · rw [if_neg (not_not.mpr hdir)]
        by_cases hdot : name = "."
        · rw [if_pos hdot]; exact ih h
        rw [if_neg hdot]
        by_cases hdots : name = ".."
        · rw [if_pos hdots]; exact ih h.dropLast
        rw [if_neg hdots]
        cases hnode : t.node (base ++ [name]) with
        | none =>
            by_cases hrest : rest = []
            · simp only [hrest, if_true]
              exact h.snoc hdir ⟨hdot, hdots⟩ (by simp [hnode])
            · simp [hrest]
        | some n =>
            cases n with
            | dir => exact ih (h.snoc hdir ⟨hdot, hdots⟩ (by simp [hnode]))
            | file content => exact ih (h.snoc hdir ⟨hdot, hdots⟩ (by simp [hnode]))
            | symlink absolute target =>
                cases absolute with
                | true => exact resolved_root
                | false => exact h
      · rw [if_pos hdir]; trivial

theorem locateFrom_resolved {links : Nat} {names : List String} {place : Path}
    (hbase : t.Resolved base) (h : t.locateFrom links base names = .ok place) : t.Resolved place := by
  induction links generalizing base names with
  | zero =>
      have hwalk := walk_resolved names hbase
      rw [locateFrom] at h
      split at h
      · rename_i path heq
        rw [heq] at hwalk
        cases h
        exact hwalk
      · cases h
      · cases h
  | succ links ih =>
      have hwalk := walk_resolved names hbase
      rw [locateFrom] at h
      split at h
      · rename_i path heq
        rw [heq] at hwalk
        cases h
        exact hwalk
      · cases h
      · rename_i base' names' heq
        rw [heq] at hwalk
        exact ih hwalk h

theorem locate_resolved {place : Path} (h : t.locate path = .ok place) : t.Resolved place :=
  locateFrom_resolved resolved_root h

/-- A walk along a link-free path goes straight to it. -/
theorem walk_of_resolved (names : List String) :
    ∀ {base : Path}, t.Resolved (base ++ names) → t.walk base names = .stop (base ++ names) := by
  induction names with
  | nil => intro base _; simp [walk]
  | cons name rest ih =>
      intro base h
      have hord := h.ordinary name (by simp)
      have hsplit : base ++ name :: rest = base ++ [name] ++ rest := by simp
      have hpre : base <+: (base ++ name :: rest).dropLast := by
        rw [List.dropLast_append_of_ne_nil (List.cons_ne_nil name rest)]
        exact List.prefix_append _ _
      rw [walk, if_neg (not_not.mpr (node_above_dir hpre h.dir)), if_neg hord.1, if_neg hord.2]
      have hrest : t.walk (base ++ [name]) rest = .stop (base ++ [name] ++ rest) := ih (hsplit ▸ h)
      cases hnode : t.node (base ++ [name]) with
      | none =>
          by_cases hnil : rest = []
          · simp [hnil]
          · have hdir : t.node (base ++ [name]) = some .dir := by
              apply node_above_dir _ h.dir
              rw [hsplit, List.dropLast_append_of_ne_nil hnil]
              exact List.prefix_append _ _
            simp [hnode] at hdir
      | some n =>
          cases n with
          | dir => simpa using hrest
          | file content => simpa using hrest
          | symlink absolute target =>
              exfalso
              by_cases hnil : rest = []
              · subst hnil; exact h.not_symlink _ _ hnode
              · have hdir : t.node (base ++ [name]) = some .dir := by
                  apply node_above_dir _ h.dir
                  rw [hsplit, List.dropLast_append_of_ne_nil hnil]
                  exact List.prefix_append _ _
                simp [hnode] at hdir

theorem locateFrom_of_resolved (links : Nat) (base : Path) {names : List String}
    (h : t.Resolved (base ++ names)) :
    t.locateFrom links base names = .ok (base ++ names) := by
  unfold locateFrom
  rw [walk_of_resolved names h]

/-- A link-free place is its own place. -/
theorem locate_of_resolved (h : t.Resolved path) : t.locate path = .ok path :=
  locateFrom_of_resolved maxLinks [] (by simpa using h)

theorem canonicalize_of_resolved (h : t.Resolved path) (hnode : t.node path ≠ none) :
    t.canonicalize path = .ok path := by
  simp [canonicalize, locate_of_resolved h, hnode, bind, Except.bind, pure, Except.pure]

/-- What `canonicalize` returns exists and is link-free. -/
theorem canonicalize_resolved {place : Path} (h : t.canonicalize path = .ok place) :
    t.Resolved place ∧ t.node place ≠ none := by
  cases hloc : t.locate path with
  | error kind => simp [canonicalize, hloc, bind, Except.bind] at h
  | ok found =>
      by_cases hnode : t.node found = none
      · simp [canonicalize, hloc, hnode, bind, Except.bind, throw, throwThe, MonadExceptOf.throw] at h
      · simp [canonicalize, hloc, hnode, bind, Except.bind, pure, Except.pure] at h
        subst h
        exact ⟨locate_resolved hloc, hnode⟩

/-- A walk passes through a link-free directory. -/
theorem walk_through (names rest : List String) : ∀ {base : Path}, t.Resolved (base ++ names) →
    t.node (base ++ names) = some .dir → t.walk base (names ++ rest) = t.walk (base ++ names) rest := by
  induction names with
  | nil => intro base _ _; simp
  | cons name names ih =>
      intro base h hdir
      have hord := h.ordinary name (by simp)
      have hsplit : base ++ name :: names = base ++ [name] ++ names := by simp
      have habove : t.node base = some .dir := node_above_dir (List.prefix_append _ _) hdir
      have hnext : t.node (base ++ [name]) = some .dir :=
        node_above_dir (by rw [hsplit]; exact List.prefix_append _ _) hdir
      rw [hsplit] at h hdir ⊢
      rw [List.cons_append, walk, if_neg (not_not.mpr habove), if_neg hord.1, if_neg hord.2, hnext]
      exact ih h hdir

/-- Below a link-free directory, a path whose first name is missing resolves to nothing. -/
theorem canonicalize_of_missing (h : t.Resolved base) (hdir : t.node base = some .dir)
    (hname : Ordinary name) (hnone : t.node (base ++ [name]) = none) (rest : List String) :
    t.canonicalize (base ++ name :: rest) = .error .notFound := by
  have hwalk : t.walk [] (base ++ name :: rest) = t.walk base (name :: rest) :=
    walk_through base (name :: rest) (by simpa using h) (by simpa using hdir)
  rw [walk, if_neg (not_not.mpr hdir), if_neg hname.1, if_neg hname.2, hnone] at hwalk
  by_cases hrest : rest = []
  · simp only [hrest, if_true] at hwalk ⊢
    simp [canonicalize, locate, locateFrom, hwalk, bind, Except.bind, hnone, throw, throwThe,
      MonadExceptOf.throw]
  · simp only [hrest, if_false] at hwalk
    simp [canonicalize, locate, locateFrom, hwalk, bind, Except.bind]

theorem locateEntry_snoc (h : t.Resolved base) (hdir : t.node base = some .dir) (name : String) :
    t.locateEntry (base ++ [name]) = .ok (base ++ [name]) := by
  simp [locateEntry, locate_of_resolved h, hdir, bind, Except.bind, pure, Except.pure]

theorem locateEntry_of_resolved (h : t.Resolved path) : t.locateEntry path = .ok path := by
  rcases List.eq_nil_or_concat path with rfl | ⟨parent, name, rfl⟩
  · rfl
  · rw [List.concat_eq_append] at h ⊢
    exact locateEntry_snoc (by simpa using h.dropLast) (by simpa using h.dir) name

/-- The file a path leads to and its content. -/
def fileAt (t : FileTree) (path : Path) : Except IoErrorKind (Path × Bytes) := do
  let place ← t.locate path
  match t.node place with
  | some (.file content) => return (place, content)
  | some _ => throw .isADirectory
  | none => throw .notFound

/-- Where opening a path for writing creates or truncates a file. -/
def createPlace (t : FileTree) (path : Path) : Except IoErrorKind Path := do
  let place ← t.locate path
  match t.node place with
  | some .dir => throw .isADirectory
  | _ => return place

/-- Where opening a path for exclusive creation makes a file. -/
def createNewPlace (t : FileTree) (path : Path) : Except IoErrorKind Path := do
  let place ← t.locateEntry path
  match t.node place with
  | some _ => throw .alreadyExists
  | none => return place

theorem createNewPlace_of_entry {place : Path} (h : t.locateEntry path = .ok place) :
    t.createNewPlace path = if t.node place = none then .ok place else .error .alreadyExists := by
  cases hnode : t.node place <;>
    simp [createNewPlace, h, hnode, bind, Except.bind, pure, Except.pure, throw, throwThe, MonadExceptOf.throw]

theorem createNewPlace_snoc (h : t.Resolved base) (hdir : t.node base = some .dir) (name : String) :
    t.createNewPlace (base ++ [name]) =
      if t.node (base ++ [name]) = none then .ok (base ++ [name]) else .error .alreadyExists :=
  createNewPlace_of_entry (locateEntry_snoc h hdir name)

theorem node_of_createNewPlace {place : Path} (h : t.createNewPlace path = .ok place) : t.node place = none := by
  cases hentry : t.locateEntry path with
  | error kind => simp [createNewPlace, hentry, bind, Except.bind] at h
  | ok found =>
      rw [createNewPlace_of_entry hentry] at h
      split at h
      · next hnone =>
        cases h
        exact hnone
      · cases h

/-- Create the missing directories of a path, from an existing directory down. -/
def createDirs (t : FileTree) : Path → List String → Except IoErrorKind FileTree
  | _, [] => .ok t
  | base, name :: rest =>
      match t.locateFrom maxLinks base [name] with
      | .error kind => .error kind
      | .ok place =>
          match t.node place with
          | some .dir => t.createDirs place rest
          | some _ => .error (if rest = [] then .alreadyExists else .notADirectory)
          | none =>
              -- A dangling link stands in the way of the directory it names.
              if place = base ++ [name] then (t.put place .dir).createDirs place rest
              else .error .alreadyExists

theorem fileAt_of_resolved {content : Bytes} (h : t.Resolved path)
    (hnode : t.node path = some (.file content)) : t.fileAt path = .ok (path, content) := by
  simp [fileAt, locate_of_resolved h, hnode, bind, Except.bind, pure, Except.pure]

theorem locate_of_fileAt {place : Path} {content : Bytes} (h : t.fileAt path = .ok (place, content)) :
    t.locate path = .ok place ∧ t.node place = some (.file content) := by
  cases hloc : t.locate path with
  | error kind => simp [fileAt, hloc, bind, Except.bind] at h
  | ok found =>
      cases hnode : t.node found with
      | none => simp [fileAt, hloc, hnode, bind, Except.bind, throw, throwThe, MonadExceptOf.throw] at h
      | some n =>
          cases n with
          | file content' =>
              simp only [fileAt, hloc, hnode, bind, Except.bind, pure, Except.pure, Except.ok.injEq,
                Prod.mk.injEq] at h
              rw [← h.1, ← h.2, hnode]
              exact ⟨rfl, rfl⟩
          | dir | symlink =>
              simp [fileAt, hloc, hnode, bind, Except.bind, throw, throwThe, MonadExceptOf.throw] at h

theorem admits_of_file {content : Bytes} (h : t.node path = some (.file content)) : t.Admits path := by
  have hne : path ≠ [] := by
    rintro rfl
    rw [t.root] at h
    cases h
  exact ⟨hne, t.parent path hne (by simp [h]), by simp [h]⟩

/-- Files can be created at the link-free places that `createPlace` returns. -/
theorem admits_of_createPlace {place : Path} (h : t.createPlace path = .ok place) :
    t.Admits place ∧ t.Resolved place := by
  cases hloc : t.locate path with
  | error kind => simp [createPlace, hloc, bind, Except.bind] at h
  | ok found =>
      have hres := locate_resolved hloc
      by_cases hdir : t.node found = some .dir
      · simp [createPlace, hloc, hdir, bind, Except.bind, throw, throwThe, MonadExceptOf.throw] at h
      · have hplace : found = place := by
          cases hnode : t.node found with
          | none => simpa [createPlace, hloc, hnode, bind, Except.bind, pure, Except.pure] using h
          | some n =>
              cases n with
              | dir => exact absurd hnode hdir
              | file content => simpa [createPlace, hloc, hnode, bind, Except.bind, pure, Except.pure] using h
              | symlink a target =>
                  simpa [createPlace, hloc, hnode, bind, Except.bind, pure, Except.pure] using h
        subst hplace
        exact ⟨⟨fun hnil => hdir (hnil ▸ t.root), hres.dir, hdir⟩, hres⟩

theorem locate_of_createPlace {place : Path} (h : t.createPlace path = .ok place) :
    t.locate path = .ok place := by
  cases hloc : t.locate path with
  | error kind => simp [createPlace, hloc, bind, Except.bind] at h
  | ok found =>
      rw [createPlace, hloc] at h
      simp only [bind, Except.bind] at h
      split at h
      · cases h
      · exact h

theorem createPlace_of_resolved (h : t.Resolved path) (hdir : t.node path ≠ some .dir) :
    t.createPlace path = .ok path := by
  rw [createPlace, locate_of_resolved h]
  cases hnode : t.node path with
  | none => simp [hnode, bind, Except.bind, pure, Except.pure]
  | some n =>
      cases n with
      | dir => exact absurd hnode hdir
      | file content => simp [hnode, bind, Except.bind, pure, Except.pure]
      | symlink a target => exact absurd hnode (h.not_symlink a target)

/-- A later tree in which every directory and link is still there, every file still a file, and no
link is new: paths lead where they led before. -/
structure Extends (t t' : FileTree) : Prop where
  dir : ∀ p, t.node p = some .dir → t'.node p = some .dir
  symlink : ∀ p absolute target,
    t'.node p = some (.symlink absolute target) ↔ t.node p = some (.symlink absolute target)
  file : ∀ p content, t.node p = some (.file content) → ∃ content', t'.node p = some (.file content')

theorem Extends.refl (t : FileTree) : t.Extends t where
  dir _ h := h
  symlink _ _ _ := Iff.rfl
  file _ content h := ⟨content, h⟩

theorem Extends.trans {t₁ t₂ t₃ : FileTree} (h₁ : t₁.Extends t₂) (h₂ : t₂.Extends t₃) : t₁.Extends t₃ where
  dir p h := h₂.dir p (h₁.dir p h)
  symlink p absolute target := (h₂.symlink p absolute target).trans (h₁.symlink p absolute target)
  file p content h := by
    obtain ⟨content', h'⟩ := h₁.file p content h
    exact h₂.file p content' h'

theorem Extends.walk {t' : FileTree} (h : t.Extends t') (names : List String) : ∀ base : Path,
    match t.walk base names with
    | .fail _ => True
    | stopped => t'.walk base names = stopped := by
  induction names with
  | nil => intro base; rfl
  | cons name rest ih =>
      intro base
      simp only [FileTree.walk]
      by_cases hdir : t.node base = some .dir
      · rw [if_neg (not_not.mpr hdir), if_neg (not_not.mpr (h.dir base hdir))]
        by_cases hdot : name = "."
        · simp only [hdot, if_true]; exact ih base
        simp only [hdot, if_false]
        by_cases hdots : name = ".."
        · simp only [hdots, if_true]; exact ih base.dropLast
        simp only [hdots, if_false]
        cases hnode : t.node (base ++ [name]) with
        | none =>
            by_cases hrest : rest = []
            · subst hrest
              simp only [if_true]
              cases hnode' : t'.node (base ++ [name]) with
              | none => rfl
              | some n =>
                  cases n with
                  | dir | file => simp [FileTree.walk]
                  | symlink absolute target =>
                      rw [(h.symlink _ _ _).mp hnode'] at hnode
                      cases hnode
            · simp [hrest]
        | some n =>
            cases n with
            | dir => rw [h.dir _ hnode]; exact ih _
            | file content =>
                obtain ⟨content', hnode'⟩ := h.file _ _ hnode
                rw [hnode']; exact ih _
            | symlink absolute target =>
                rw [(h.symlink _ _ _).mpr hnode]
      · rw [if_pos hdir]
        trivial

theorem Extends.locateFrom {t' : FileTree} (h : t.Extends t') {links : Nat} {names : List String}
    {place : Path} (hloc : t.locateFrom links base names = .ok place) :
    t'.locateFrom links base names = .ok place := by
  induction links generalizing base names with
  | zero =>
      have hwalk := h.walk names base
      rw [FileTree.locateFrom] at hloc ⊢
      cases hw : t.walk base names with
      | stop p => simp only [hw] at hloc hwalk; rw [hwalk]; exact hloc
      | fail kind => simp [hw] at hloc
      | jump b ns => simp [hw] at hloc
  | succ links ih =>
      have hwalk := h.walk names base
      rw [FileTree.locateFrom] at hloc ⊢
      cases hw : t.walk base names with
      | stop p => simp only [hw] at hloc hwalk; rw [hwalk]; exact hloc
      | fail kind => simp [hw] at hloc
      | jump b ns => simp only [hw] at hloc hwalk; rw [hwalk]; exact ih hloc

theorem Extends.locate {t' : FileTree} (h : t.Extends t') {place : Path} (hloc : t.locate path = .ok place) :
    t'.locate path = .ok place :=
  h.locateFrom hloc

theorem Extends.fileAt {t' : FileTree} (h : t.Extends t') {place : Path} {content content' : Bytes}
    (hfile : t.fileAt path = .ok (place, content)) (hnode : t'.node place = some (.file content')) :
    t'.fileAt path = .ok (place, content') := by
  obtain ⟨hplace, -⟩ := locate_of_fileAt hfile
  simp [FileTree.fileAt, h.locate hplace, hnode, bind, Except.bind, pure, Except.pure]

theorem Extends.resolved {t' : FileTree} (h : t.Extends t') (hpath : t.Resolved path) :
    t'.Resolved path where
  ordinary := hpath.ordinary
  dir := h.dir _ hpath.dir
  not_symlink absolute target hlink := hpath.not_symlink absolute target ((h.symlink _ _ _).mp hlink)

/-- Writing a file where there is no link, and no directory, extends the tree. -/
theorem extends_put_file (hlink : ∀ absolute target, t.node path ≠ some (.symlink absolute target))
    (content : Bytes) : t.Extends (t.put path (.file content)) := by
  by_cases hadmits : t.Admits path
  · refine ⟨fun p h => node_put_of_dir h _, fun p absolute target => ?_, fun p old h => ?_⟩
    · by_cases hp : p = path
      · subst hp
        simp [node_put_self hadmits, hlink]
      · rw [node_put_of_ne hp]
    · by_cases hp : p = path
      · subst hp
        exact ⟨content, node_put_self hadmits _⟩
      · exact ⟨old, by rw [node_put_of_ne hp, h]⟩
  · rw [put, dif_neg hadmits]
    exact Extends.refl t

theorem extends_put_dir (hnone : t.node path = none) : t.Extends (t.put path .dir) := by
  by_cases hadmits : t.Admits path
  · have hne : ∀ {p : Path} {n : Node}, t.node p = some n → p ≠ path := by
      rintro p n h rfl
      simp [hnone] at h
    refine ⟨fun p h => node_put_of_dir h _, fun p absolute target => ?_, fun p old h => ?_⟩
    · by_cases hp : p = path
      · subst hp
        simp [node_put_self hadmits, hnone]
      · rw [node_put_of_ne hp]
    · exact ⟨old, by rw [node_put_of_ne (hne h), h]⟩
  · rw [put, dif_neg hadmits]
    exact Extends.refl t

theorem extends_createDirs (names : List String) : ∀ {t t' : FileTree} {base : Path},
    t.createDirs base names = .ok t' → t.Extends t' := by
  induction names with
  | nil => intro t t' base h; cases h; exact Extends.refl t
  | cons name rest ih =>
      intro t t' base h
      rw [createDirs] at h
      split at h
      · cases h
      · rename_i place hplace
        split at h
        · exact ih h
        · cases h
        · rename_i hnone
          split at h
          · exact (extends_put_dir hnone).trans (ih h)
          · cases h

/-- A second write to the same file replaces the first. -/
theorem put_put (hadmits : t.Admits path) (first second : Bytes) :
    (t.put path (.file first)).put path (.file second) = t.put path (.file second) := by
  have hagain : (t.put path (.file first)).Admits path := by
    refine ⟨hadmits.1, ?_, by simp [node_put_self hadmits]⟩
    rw [node_put_of_ne (dropLast_ne_self hadmits.1)]
    exact hadmits.2.1
  rw [put, dif_pos hagain]
  unfold put
  simp only [dif_pos hadmits, FileTree.mk.injEq]
  constructor
  · funext p
    by_cases hp : p = path <;> simp [hp]
  · simp

/-- Making directories changes what is missing, into directories. -/
theorem node_createDirs (names : List String) : ∀ {t t' : FileTree} {base : Path},
    t.createDirs base names = .ok t' → ∀ p : Path,
      t'.node p = t.node p ∨ (t.node p = none ∧ t'.node p = some .dir) := by
  induction names with
  | nil => intro t t' base h p; cases h; exact Or.inl rfl
  | cons name rest ih =>
      intro t t' base h p
      rw [createDirs] at h
      split at h
      · cases h
      · rename_i place hplace
        split at h
        · exact ih h p
        · cases h
        · rename_i hnone
          split at h
          · rcases ih h p with hsame | ⟨hnode, hdir⟩
            · by_cases hp : p = place
              · subst hp
                by_cases hadmits : t.Admits p
                · exact Or.inr ⟨hnone, by rw [hsame, node_put_self hadmits]⟩
                · exact Or.inl (by rw [hsame, put, dif_neg hadmits])
              · exact Or.inl (by rw [hsame, node_put_of_ne hp])
            · by_cases hp : p = place
              · subst hp
                exact Or.inr ⟨hnone, hdir⟩
              · rw [node_put_of_ne hp] at hnode
                exact Or.inr ⟨hnode, hdir⟩
          · cases h

/-- Making directories keeps every existing node. -/
theorem node_of_createDirs {t' : FileTree} (names : List String) (h : t.createDirs base names = .ok t')
    {p : Path} {n : Node} (hp : t.node p = some n) : t'.node p = some n := by
  rcases node_createDirs names h p with hsame | ⟨hnone, -⟩
  · rw [hsame, hp]
  · rw [hp] at hnone
    cases hnone

theorem Resolved.of_append {rest : List String} (h : t.Resolved (base ++ rest))
    (hdir : t.node base = some .dir) : t.Resolved base where
  ordinary name hmem := h.ordinary name (List.mem_append_left _ hmem)
  dir := node_above_dir (List.dropLast_prefix _) hdir
  not_symlink := by simp [hdir]

/-- Directories that exist are passed over. -/
theorem createDirs_through (names rest : List String) : ∀ {base : Path}, t.Resolved (base ++ names) →
    t.node (base ++ names) = some .dir →
      t.createDirs base (names ++ rest) = t.createDirs (base ++ names) rest := by
  induction names with
  | nil => intro base _ _; simp
  | cons name names ih =>
      intro base h hdir
      have hsplit : base ++ name :: names = base ++ [name] ++ names := by simp
      have hnext : t.node (base ++ [name]) = some .dir :=
        node_above_dir (by rw [hsplit]; exact List.prefix_append _ _) hdir
      rw [hsplit] at h hdir ⊢
      rw [List.cons_append, createDirs, locateFrom_of_resolved maxLinks base (h.of_append hnext)]
      simp only [hnext]
      exact ih h hdir

theorem createDirs_of_dir (h : t.Resolved path) (hdir : t.node path = some .dir) :
    t.createDirs [] path = .ok t := by
  have hthrough : t.createDirs [] (path ++ []) = t.createDirs ([] ++ path) [] :=
    createDirs_through path [] (by simpa using h) (by simpa using hdir)
  simpa [createDirs] using hthrough

/-- The making of a directory that is there changes nothing, however far it gets. -/
theorem createDirs_take_of_dir (h : t.Resolved path) (hdir : t.node path = some .dir)
    (n : Nat) : t.createDirs [] (path.take n) = .ok t := by
  have hprefix : t.node (path.take n) = some .dir := node_above_dir (List.take_prefix n path) hdir
  have hresolved : t.Resolved (path.take n ++ path.drop n) := by
    rw [List.take_append_drop]
    exact h
  exact createDirs_of_dir (hresolved.of_append hprefix) hprefix

/-- Directories that are missing below a link-free one are made, and nothing else changes. -/
theorem createDirs_of_missing (names : List String) : ∀ {t : FileTree} {base : Path}, t.Resolved base →
    t.node base = some .dir → (∀ name ∈ names, Ordinary name) →
      (∀ name rest, names = name :: rest → t.node (base ++ [name]) = none) →
        ∃ t', t.createDirs base names = .ok t' ∧ t'.node (base ++ names) = some .dir ∧
          ∀ p, t'.node p = t.node p ∨
            (t.node p = none ∧ t'.node p = some .dir ∧ base <+: p ∧ p <+: base ++ names) := by
  induction names with
  | nil => intro t base _ hdir _ _; exact ⟨t, rfl, by simpa using hdir, fun p => Or.inl rfl⟩
  | cons name rest ih =>
      intro t base hbase hdir hord hmissing
      have hnone := hmissing name rest rfl
      have hname := hord name (by simp)
      have hplace : t.Resolved (base ++ [name]) := hbase.snoc hdir hname (by simp [hnone])
      have hadmits : t.Admits (base ++ [name]) :=
        ⟨by simp, by rw [List.dropLast_concat]; exact hdir, by simp [hnone]⟩
      have hmade := node_put_self hadmits .dir
      have hext := extends_put_dir hnone
      obtain ⟨t', hok, hend, hframe⟩ := ih
        (hext.resolved hplace) hmade (fun n hn => hord n (by simp [hn])) (by
          intro next rest' _
          rw [node_put_of_ne (by simp)]
          exact node_append_of_not_dir (by simp [hnone]) (by simp))
      refine ⟨t', ?_, ?_, ?_⟩
      · rw [createDirs, locateFrom_of_resolved maxLinks base hplace]
        simp only [hnone, if_true]
        exact hok
      · simpa using hend
      · intro p
        by_cases hp : p = base ++ [name]
        · subst hp
          refine Or.inr ⟨hnone, ?_, List.prefix_append _ _, ⟨rest, by simp⟩⟩
          rcases hframe (base ++ [name]) with hsame | ⟨-, hnew, -⟩
          · rw [hsame, hmade]
          · exact hnew
        · rcases hframe p with hsame | ⟨hnode, hnew, hbelow, habove⟩
          · exact Or.inl (by rw [hsame, node_put_of_ne hp])
          · rw [node_put_of_ne hp] at hnode
            exact Or.inr ⟨hnode, hnew, (List.prefix_append _ _).trans hbelow, by simpa using habove⟩

/-- A free name in a link-free directory. -/
structure Vacant (t : FileTree) (base : Path) (name : String) : Prop where
  ordinary : Ordinary name
  resolved : t.Resolved base
  dir : t.node base = some .dir
  missing : t.node (base ++ [name]) = none

namespace Vacant

theorem place (h : t.Vacant base name) : t.Resolved (base ++ [name]) :=
  h.resolved.snoc h.dir h.ordinary (by simp [h.missing])

theorem admits (h : t.Vacant base name) : t.Admits (base ++ [name]) :=
  ⟨by simp, by rw [List.dropLast_concat]; exact h.dir, by simp [h.missing]⟩

theorem createDirs (h : t.Vacant base name) :
    t.createDirs [] (base ++ [name]) = .ok (t.put (base ++ [name]) .dir) := by
  rw [createDirs_through base [name] h.resolved h.dir, List.nil_append, FileTree.createDirs,
    locateFrom_of_resolved maxLinks base h.place]
  simp only [h.missing, if_true]
  rfl

/-- The part of the making that leaves the last name out does nothing. -/
theorem createDirs_take (h : t.Vacant base name) {n : Nat} (hn : n < (base ++ [name]).length) :
    t.createDirs [] ((base ++ [name]).take n) = .ok t := by
  have hle : n ≤ base.length := by
    rw [List.length_append, List.length_singleton] at hn
    omega
  rw [List.take_append_of_le_length hle]
  have hdir : t.node (base.take n) = some .dir := node_above_dir (List.take_prefix n base) h.dir
  refine createDirs_of_dir (resolved_of_node ?_ hdir (by simp)) hdir
  exact fun name hname => h.resolved.ordinary name (List.take_subset n base hname)

end Vacant

theorem eq_of_node_paths {t' : FileTree} (hnode : t.node = t'.node) (hpaths : t.paths = t'.paths) : t = t' := by
  obtain ⟨node, paths, _, _, _, _⟩ := t
  obtain ⟨node', paths', _, _, _, _⟩ := t'
  obtain rfl : node = node' := hnode
  obtain rfl : paths = paths' := hpaths
  rfl

/-- Removing also removes what was placed below. -/
theorem removeAll_put {p : Path} (hpath : path ≠ []) (hbelow : path <+: p) (n : Node) :
    (t.put p n).removeAll path = t.removeAll path := by
  by_cases hadmits : t.Admits p
  · apply eq_of_node_paths
    · funext q
      by_cases hq : path <+: q
      · rw [node_removeAll_of_below hpath hq, node_removeAll_of_below hpath hq]
      · have hne : q ≠ p := fun heq => hq (heq ▸ hbelow)
        rw [node_removeAll_of_not_below hq, node_removeAll_of_not_below hq, node_put_of_ne hne]
    · simp only [removeAll, dif_neg hpath, put, dif_pos hadmits]
      by_cases hnone : t.node p = none
      · simp [hnone, hbelow]
      · simp [hnone]
  · rw [put, dif_neg hadmits]

/-- There is nothing to remove where nothing exists. -/
theorem removeAll_of_none (hnone : t.node path = none) : t.removeAll path = t := by
  have hpath : path ≠ [] := by
    intro hnil
    rw [hnil, t.root] at hnone
    cases hnone
  have hbelow : ∀ p, path <+: p → t.node p = none := by
    intro p hp
    by_contra hne
    by_cases heq : path = p
    · exact hne (heq ▸ hnone)
    · rw [node_above hp heq hne] at hnone
      cases hnone
  apply eq_of_node_paths
  · funext q
    by_cases hq : path <+: q
    · rw [node_removeAll_of_below hpath hq, hbelow q hq]
    · rw [node_removeAll_of_not_below hq]
  · simp only [removeAll, dif_neg hpath]
    refine List.filter_eq_self.mpr fun q hq => ?_
    have hnot : ¬ path <+: q := fun hp => (t.mem_paths q).mp hq (hbelow q hp)
    simpa using hnot

/-- A path of literal names with no link on it, whether it exists or not. -/
structure Straight (t : FileTree) (path : Path) : Prop where
  ordinary : ∀ name ∈ path, Ordinary name
  unlinked : ∀ p, p <+: path → ∀ absolute target, t.node p ≠ some (.symlink absolute target)

theorem Straight.upward {path' : Path} (h : t.Straight path) (hpre : path' <+: path) : t.Straight path' where
  ordinary name hname := h.ordinary name (hpre.subset hname)
  unlinked p hp := h.unlinked p (hp.trans hpre)

/-- The path of a directory is one, if its names are literal. -/
theorem straight_of_dir (hord : ∀ name ∈ path, Ordinary name) (hdir : t.node path = some .dir) : t.Straight path where
  ordinary := hord
  unlinked p hp absolute target := by
    rw [node_above_dir hp hdir]
    simp

theorem straight_of_resolved (h : t.Resolved path) : t.Straight path where
  ordinary := h.ordinary
  unlinked p hp absolute target hlink := by
    by_cases heq : p = path
    · subst heq
      exact h.not_symlink absolute target hlink
    · obtain ⟨rest, rfl⟩ := hp
      rcases List.eq_nil_or_concat rest with rfl | ⟨front, name, rfl⟩
      · exact heq (List.append_nil p).symm
      · have hdir := h.dir
        rw [List.concat_eq_append, ← List.append_assoc, List.dropLast_concat] at hdir
        rw [node_above_dir (List.prefix_append p front) hdir] at hlink
        cases hlink

/-- A walk along such a path stops at its end, or fails. -/
theorem walk_of_straight (names : List String) : ∀ {base : Path}, t.Straight (base ++ names) →
    t.walk base names = .stop (base ++ names) ∨ ∃ kind, t.walk base names = .fail kind := by
  induction names with
  | nil => intro base _; simp [walk]
  | cons name rest ih =>
      intro base h
      have hsplit : base ++ name :: rest = base ++ [name] ++ rest := by simp
      have hord := h.ordinary name (by simp)
      rw [walk]
      by_cases hdir : t.node base = some .dir
      · rw [if_neg (not_not.mpr hdir), if_neg hord.1, if_neg hord.2]
        cases hnode : t.node (base ++ [name]) with
        | none =>
            by_cases hrest : rest = []
            · exact Or.inl (by simp [hrest])
            · exact Or.inr ⟨.notFound, by simp [hrest]⟩
        | some n =>
            cases n with
            | symlink absolute target =>
                exact absurd hnode (h.unlinked _ (by rw [hsplit]; exact List.prefix_append _ _) absolute target)
            | dir | file =>
                rw [hsplit]
                exact ih (by rw [← hsplit]; exact h)
      · exact Or.inr ⟨.notADirectory, by rw [if_pos hdir]⟩

theorem locateFrom_of_straight {links : Nat} {names : List String} {place : Path} (h : t.Straight (base ++ names))
    (hloc : t.locateFrom links base names = .ok place) : place = base ++ names := by
  unfold locateFrom at hloc
  rcases walk_of_straight names h with hstop | ⟨kind, hfail⟩
  · rw [hstop] at hloc
    exact (Except.ok.inj hloc).symm
  · rw [hfail] at hloc
    cases hloc

theorem locate_of_straight {place : Path} (h : t.Straight path) (hloc : t.locate path = .ok place) : place = path :=
  locateFrom_of_straight (by simpa using h) hloc

theorem locate_of_canonicalize {place : Path} (h : t.canonicalize path = .ok place) : t.locate path = .ok place := by
  cases hloc : t.locate path with
  | error kind => simp [canonicalize, hloc, bind, Except.bind] at h
  | ok found =>
      by_cases hnode : t.node found = none
      · simp [canonicalize, hloc, hnode, bind, Except.bind, throw, throwThe, MonadExceptOf.throw] at h
      · simp only [canonicalize, hloc, hnode, bind, Except.bind, pure, Except.pure, if_false] at h
        exact congrArg Except.ok (Except.ok.inj h)

theorem canonicalize_of_straight {place : Path} (h : t.Straight path) (hcanon : t.canonicalize path = .ok place) :
    place = path :=
  locate_of_straight h (locate_of_canonicalize hcanon)

theorem locateEntry_of_straight {place : Path} (h : t.Straight path) (hloc : t.locateEntry path = .ok place) :
    place = path := by
  rcases List.eq_nil_or_concat path with rfl | ⟨parent, name, rfl⟩
  · exact (Except.ok.inj hloc).symm
  · rw [List.concat_eq_append] at h hloc ⊢
    simp only [locateEntry, List.getLast?_concat, List.dropLast_concat, bind, Except.bind] at hloc
    cases hparent : t.locate parent with
    | error kind =>
        rw [hparent] at hloc
        cases hloc
    | ok found =>
        cases locate_of_straight (h.upward (List.prefix_append _ _)) hparent
        rw [hparent] at hloc
        dsimp only at hloc
        split at hloc
        · exact (Except.ok.inj hloc).symm
        · cases hloc
        · cases hloc

/-- Where nothing is, a walk goes no further. -/
theorem walk_of_missing (names : List String) : ∀ {base : Path} {rest : List String}, t.Straight (base ++ names) →
    names ≠ [] → t.node (base ++ names) = none → rest ≠ [] → ∃ kind, t.walk base (names ++ rest) = .fail kind := by
  induction names with
  | nil => intro base rest _ hne; exact absurd rfl hne
  | cons name names ih =>
      intro base rest h _ hnone hrest
      have hsplit : base ++ name :: names = base ++ [name] ++ names := by simp
      have hord := h.ordinary name (by simp)
      rw [List.cons_append, walk]
      by_cases hdir : t.node base = some .dir
      · rw [if_neg (not_not.mpr hdir), if_neg hord.1, if_neg hord.2]
        cases hnode : t.node (base ++ [name]) with
        | none => exact ⟨.notFound, by simp [hrest]⟩
        | some n =>
            have hnames : names ≠ [] := by
              rintro rfl
              rw [hnode] at hnone
              cases hnone
            cases n with
            | symlink absolute target =>
                exact absurd hnode (h.unlinked _ (by rw [hsplit]; exact List.prefix_append _ _) absolute target)
            | dir | file => exact ih (by rw [← hsplit]; exact h) hnames (by rw [← hsplit]; exact hnone) hrest
      · exact ⟨.notADirectory, by rw [if_pos hdir]⟩

/-- Below a path at which nothing is, nothing can be found. -/
theorem locate_of_missing (h : t.Straight path) (hnone : t.node path = none) {rest : List String} {place : Path}
    (hloc : t.locate (path ++ rest) = .ok place) : rest = [] := by
  have hpath : path ≠ [] := by
    rintro rfl
    rw [t.root] at hnone
    cases hnone
  by_contra hrest
  obtain ⟨kind, hfail⟩ : ∃ kind, t.walk [] (path ++ rest) = .fail kind :=
    walk_of_missing path (by simpa using h) hpath (by simpa using hnone) hrest
  unfold locate locateFrom at hloc
  rw [hfail] at hloc
  cases hloc

/-- Making the directories of such a path changes nothing but what lies on it. -/
theorem createDirs_on_straight (names : List String) : ∀ {t t' : FileTree} {base : Path},
    t.Straight (base ++ names) → t.createDirs base names = .ok t' → ∀ p, ¬ p <+: base ++ names →
      t'.node p = t.node p := by
  induction names with
  | nil => intro t t' base _ h p _; cases h; rfl
  | cons name rest ih =>
      intro t t' base hstraight h p hp
      have hsplit : base ++ name :: rest = base ++ [name] ++ rest := by simp
      rw [createDirs] at h
      cases hplace : t.locateFrom maxLinks base [name] with
      | error kind =>
          rw [hplace] at h
          cases h
      | ok place =>
          obtain rfl : place = base ++ [name] :=
            locateFrom_of_straight (hstraight.upward (by rw [hsplit]; exact List.prefix_append _ _)) hplace
          rw [hplace] at h
          dsimp only at h
          rw [hsplit] at hstraight hp
          cases hnode : t.node (base ++ [name]) with
          | some n =>
              rw [hnode] at h
              cases n with
              | dir => exact ih hstraight h p hp
              | file content => cases h
              | symlink absolute target => cases h
          | none =>
              rw [hnode] at h
              simp only [if_true] at h
              have hlater := ih (t := t.put (base ++ [name]) .dir) ?_ h p hp
              · rw [hlater, node_put_of_ne]
                rintro rfl
                exact hp (List.prefix_append _ _)
              · refine ⟨hstraight.ordinary, fun q hq absolute target hlink => ?_⟩
                exact hstraight.unlinked q hq absolute target (((extends_put_dir hnode).symlink _ _ _).mp hlink)

/-! ### Trees without links -/

/-- No symbolic link anywhere. -/
def LinkFree (t : FileTree) : Prop := ∀ p absolute target, t.node p ≠ some (.symlink absolute target)

theorem LinkFree.dir_of_no_file (hfree : t.LinkFree) (hexists : t.node path ≠ none)
    (hfile : ∀ content, t.node path ≠ some (.file content)) : t.node path = some .dir := by
  cases hnode : t.node path with
  | none => exact absurd hnode hexists
  | some n =>
      cases n with
      | dir => rfl
      | file content => exact absurd hnode (hfile content)
      | symlink absolute target => exact absurd hnode (hfree path absolute target)

theorem LinkFree.straight (hfree : t.LinkFree) (hord : ∀ name ∈ path, Ordinary name) : t.Straight path :=
  ⟨hord, fun p _ => hfree p⟩

theorem linkFree_empty : empty.LinkFree := by
  intro p absolute target h
  simp only [empty] at h
  split at h <;> cases h

theorem LinkFree.put (hfree : t.LinkFree) (path : Path) {n : Node}
    (hn : ∀ absolute target, n ≠ .symlink absolute target) :
    (t.put path n).LinkFree := by
  intro p absolute target h
  by_cases hadmits : t.Admits path
  · rw [node_put hadmits] at h
    split at h
    · exact hn absolute target (Option.some.inj h)
    · exact hfree p absolute target h
  · rw [FileTree.put, dif_neg hadmits] at h
    exact hfree p absolute target h

end FileTree

end Lib
