import IronDrive.LibBranching
import IronDrive.TreeWalkers

/-! What a walk visits. On a tree without links it goes through what is visible below its start, once, whatever
the order in which directories are listed: what has been visited and what is below the directories still pending
is together what is visible. -/

namespace IronDrive

open Lib FileTree FsService

variable {t : FileTree} {path place : Path} {name : String}

/-- A path that leads to a directory. -/
def OpensDir (t : FileTree) (path place : Path) : Prop := t.locate path = .ok place ∧ t.node place = some .dir

theorem walk_append_of_stop (names rest : List String) : ∀ {base : Path}, t.walk base names = .stop place →
    t.node place = some .dir → t.walk base (names ++ rest) = t.walk place rest := by
  induction names with
  | nil =>
      intro base h _
      cases h
      rfl
  | cons name names ih =>
      intro base h hdir
      rw [walk] at h
      rw [List.cons_append, walk]
      by_cases hbase : t.node base = some .dir
      · rw [if_neg (not_not.mpr hbase)] at h ⊢
        by_cases hdot : name = "."
        · rw [if_pos hdot] at h ⊢
          exact ih h hdir
        rw [if_neg hdot] at h ⊢
        by_cases hdots : name = ".."
        · rw [if_pos hdots] at h ⊢
          exact ih h hdir
        rw [if_neg hdots] at h ⊢
        cases hnode : t.node (base ++ [name]) with
        | none =>
            rw [hnode] at h
            dsimp only at h
            split at h
            · cases h
              rw [hnode] at hdir
              cases hdir
            · cases h
        | some n =>
            rw [hnode] at h
            cases n with
            | symlink absolute target => cases h
            | dir | file => exact ih h hdir
      · rw [if_pos hbase] at h
        cases h

theorem walk_ne_jump (hfree : t.LinkFree) (names : List String) : ∀ base base' names',
    t.walk base names ≠ .jump base' names' := by
  induction names with
  | nil =>
      intro base base' names' h
      cases h
  | cons name names ih =>
      intro base base' names' h
      rw [walk] at h
      split at h
      · cases h
      split at h
      · exact ih _ _ _ h
      split at h
      · exact ih _ _ _ h
      split at h
      · split at h <;> cases h
      · exact hfree _ _ _ (by assumption)
      · exact ih _ _ _ h

theorem walk_of_locate (hfree : t.LinkFree) (h : t.locate path = .ok place) : t.walk [] path = .stop place := by
  rw [locate, locateFrom] at h
  split at h
  · rename_i stop hwalk
    rw [hwalk, Except.ok.inj h]
  · cases h
  · rename_i hjump
    exact absurd hjump (walk_ne_jump hfree _ _ _ _)

theorem locate_of_walk (h : t.walk [] path = .stop place) : t.locate path = .ok place := by
  rw [locate, locateFrom, h]

theorem opensDir_of_canonicalize (h : t.canonicalize path = .ok place) (hdir : t.node place = some .dir) :
    OpensDir t path place := ⟨locate_of_canonicalize h, hdir⟩

theorem OpensDir.down (h : OpensDir t path place) (hfree : t.LinkFree) (hname : Ordinary name)
    (hdir : t.node (place ++ [name]) = some .dir) : OpensDir t (path ++ [name]) (place ++ [name]) := by
  refine ⟨locate_of_walk ?_, hdir⟩
  rw [walk_append_of_stop path [name] (walk_of_locate hfree h.1) h.2, walk, if_neg (not_not.mpr h.2),
    if_neg hname.1, if_neg hname.2, hdir]
  rfl

theorem OpensDir.lstat (h : OpensDir t path place) {n : Node} (hnode : t.node (place ++ [name]) = some n) :
    FsCall.lstat t (path ++ [name]) = .ok (Metadata.ofNode n) := by
  simp [FsCall.lstat, locateEntry, h.1, h.2, hnode, bind, Except.bind, pure, Except.pure]

theorem OpensDir.listDir (h : OpensDir t path place) : FsCall.listDir t path = .ok (t.children place) := by
  simp [FsCall.listDir, h.1, h.2, bind, Except.bind, pure, Except.pure]

theorem ordinary_of_shown (h : isHidden name = false) : Ordinary name := by
  constructor
  · rintro rfl
    revert h
    decide
  · rintro rfl
    revert h
    decide

/-- A name that no walker passes over. -/
def isShown (name : String) : Bool := !isHidden name

/-- What is visible below a place: the entries that are not hidden, each with what is visible below it. -/
def visibleBelow (t : FileTree) (place : Path) : List Path := (t.branching isShown).below place

/-- An entry is visible if neither it nor an ancestor below the start is hidden. -/
theorem mem_visibleBelow {p : Path} : p ∈ visibleBelow t place ↔
    t.node p ≠ none ∧ ∃ names, names ≠ [] ∧ p = place ++ names ∧ ∀ name ∈ names, isHidden name = false := by
  rw [visibleBelow, mem_below_iff]
  simp [isShown]

def isDirAt (t : FileTree) (p : Path) : Bool := t.node p = some .dir

/-- The visible files, the visible directories, and the sizes of the files. -/
def visibleFiles (t : FileTree) (place : Path) : List Path := (visibleBelow t place).filter fun p => !isDirAt t p

def visibleDirs (t : FileTree) (place : Path) : List Path := (visibleBelow t place).filter (isDirAt t)

def sizeAt (t : FileTree) (p : Path) : Nat := ((t.contentAt p).map List.length).getD 0

/-- The entries of one directory that go on the stack, last first. -/
def shownChildren (place : Path) (names : List String) : List Path :=
  (names.filter isShown).map fun name => place ++ [name]

def shownDirs (t : FileTree) (place : Path) (names : List String) : List Path :=
  ((shownChildren place names).filter (isDirAt t)).reverse

/-! ### The walk, whatever it gathers -/

section Walk

variable {S : Signature} {σ ν : Type} {H : (op : S.Op) → ν → S.Answer op → ν → Prop}

/-- What a walk over a tree relies on: its calls are answered from the tree, and what it gathers goes on standing
for the entries visited. -/
structure Gathers (H : (op : S.Op) → ν → S.Answer op → ν → Prop) (t : FileTree) (I : ν → Prop)
    (Stands : σ → List Path → Prop) (call : (op : FsCall) → Program S AppError op.Answer) (onDir : σ → σ)
    (onFile : Path → Metadata → σ → Program S AppError σ) : Prop where
  lstat : ∀ path v, I v → (call (.symlinkMetadata path)).Ensures H v fun result v' =>
    I v' ∧ result = .ok ((FsCall.lstat t path).mapError IoError.ofKind)
  readDir : ∀ path v, I v → (call (.readDir path)).Ensures H v fun result v' =>
    I v' ∧ result = .ok (((FsCall.listDir t path).map fun names => (names, none)).mapError IoError.ofKind)
  dir : ∀ acc seen p, Stands acc seen → t.node p = some .dir → Stands (onDir acc) (seen ++ [p])
  file : ∀ acc seen p content path v, Stands acc seen → t.node p = some (.file content) → I v →
    (onFile path (Metadata.ofNode (.file content)) acc).Ensures H v fun result v' =>
      I v' ∧ ∃ acc', result = .ok acc' ∧ Stands acc' (seen ++ [p])

variable {I : ν → Prop} {Stands : σ → List Path → Prop} {call : (op : FsCall) → Program S AppError op.Answer}
  {onDir : σ → σ} {onFile : Path → Metadata → σ → Program S AppError σ}

theorem walkNames_ensures (h : Gathers H t I Stands call onDir onFile) (hfree : t.LinkFree) {dir : Path}
    (hdir : OpensDir t dir place) (names : List String) (hnames : ∀ name ∈ names, name ∈ t.children place) :
    ∀ {stack places : List Path} {acc : σ} {seen : List Path} {v : ν}, List.Forall₂ (OpensDir t) stack places →
      Stands acc seen → I v →
        (walkNames call onDir onFile dir names stack acc).Ensures H v fun result v' => I v' ∧
          ∃ stack' acc', result = .ok (stack', acc') ∧
            List.Forall₂ (OpensDir t) stack' (shownDirs t place names ++ places) ∧
            Stands acc' (seen ++ shownChildren place names) := by
  induction names with
  | nil =>
      intro stack places acc seen v hstack hstands hI
      exact ⟨hI, stack, acc, rfl, hstack, by simpa [shownChildren] using hstands⟩
  | cons name names ih =>
      intro stack places acc seen v hstack hstands hI
      have hlater := @ih fun other hother => hnames other (List.mem_cons_of_mem _ hother)
      rw [walkNames]
      by_cases hhidden : isHidden name = true
      · rw [if_pos hhidden]
        have hskip : (name :: names).filter isShown = names.filter isShown :=
          List.filter_cons_of_neg (by simp [isShown, hhidden])
        simpa only [shownDirs, shownChildren, hskip] using hlater hstack hstands hI
      have hshown : isHidden name = false := by simpa using hhidden
      have hkeep : (name :: names).filter isShown = name :: names.filter isShown :=
        List.filter_cons_of_pos (by simp [isShown, hshown])
      obtain ⟨n, hnode⟩ := Option.ne_none_iff_exists'.mp (mem_children.mp (hnames name (by simp)))
      rw [if_neg hhidden]
      refine Program.Ensures.bind (h.lstat (dir ++ [name]) v hI) ?_ ?_
      · rintro answer v' ⟨hI', hanswer⟩
        rw [hdir.lstat hnode] at hanswer
        cases hanswer
        cases n with
        | symlink absolute target => exact absurd hnode (hfree _ _ _)
        | dir =>
            have hisDir : isDirAt t (place ++ [name]) = true := by simp [isDirAt, hnode]
            refine Program.Ensures.mono (hlater (.cons (hdir.down hfree (ordinary_of_shown hshown) hnode) hstack)
              (h.dir acc seen _ hstands hnode) hI') ?_
            rintro result v'' ⟨hI'', stack', acc', rfl, hstack', hstands'⟩
            refine ⟨hI'', stack', acc', rfl, ?_, ?_⟩
            · simpa only [shownDirs, shownChildren, hkeep, List.map_cons, List.filter_cons_of_pos hisDir,
                List.reverse_cons, List.append_assoc, List.singleton_append] using hstack'
            · simpa only [shownChildren, hkeep, List.map_cons, List.append_assoc, List.singleton_append]
                using hstands'
        | file content =>
            have hisDir : ¬ isDirAt t (place ++ [name]) = true := by simp [isDirAt, hnode]
            refine Program.Ensures.bind (h.file acc seen _ content (dir ++ [name]) v' hstands hnode hI') ?_ ?_
            · rintro acc₁ v₁ ⟨hI₁, found, hfound, hstands₁⟩
              cases hfound
              refine Program.Ensures.mono (hlater hstack hstands₁ hI₁) ?_
              rintro result v'' ⟨hI'', stack', acc', rfl, hstack', hstands'⟩
              refine ⟨hI'', stack', acc', rfl, ?_, ?_⟩
              · simpa only [shownDirs, shownChildren, hkeep, List.map_cons, List.filter_cons_of_neg hisDir]
                  using hstack'
              · simpa only [shownChildren, hkeep, List.map_cons, List.append_assoc, List.singleton_append]
                  using hstands'
            · rintro error v₁ ⟨-, found, hfound, -⟩
              cases hfound
      · rintro error v' ⟨-, hanswer⟩
        cases hanswer

/-- What goes on the stack has below it what the children of the directory have. -/
theorem under_shownDirs (t : FileTree) (place : Path) (places : List Path) :
    ((t.branching isShown).under (shownDirs t place (t.children place) ++ places)).Perm
      ((t.branching isShown).under ((t.branching isShown).children place ++ places)) := by
  have hleaf : ∀ p, isDirAt t p = false → (t.branching isShown).children p = [] := fun p hp =>
    branching_children_of_not_dir (by simpa [isDirAt] using hp)
  rw [Branching.under_append, Branching.under_append]
  have hdirs := Branching.under_filter hleaf (shownChildren place (t.children place))
  exact ((Branching.under_perm (List.reverse_perm _)).trans (List.Perm.of_eq hdirs)).append_right _

/-- The directories that a walk has still to read. -/
def pendingDirs (t : FileTree) (places : List Path) : Nat :=
  places.length + ((t.branching isShown).under places).countP (isDirAt t)

theorem pendingDirs_pop (t : FileTree) (place : Path) (places : List Path) :
    pendingDirs t (place :: places) = pendingDirs t (shownDirs t place (t.children place) ++ places) + 1 := by
  have hpop := (Branching.under_pop (b := t.branching isShown) place places).countP_eq (isDirAt t)
  have hstack := (under_shownDirs t place places).countP_eq (isDirAt t)
  have hlength : (shownDirs t place (t.children place)).length =
      ((t.branching isShown).children place).countP (isDirAt t) := by
    rw [shownDirs, List.length_reverse, ← List.countP_eq_length_filter]
    rfl
  rw [List.countP_append] at hpop
  rw [pendingDirs, pendingDirs, hpop, hstack, List.length_cons, List.length_append, hlength]
  omega

/-- The walk visits what is below the directories on its stack, each entry once. -/
theorem walkTree_ensures (h : Gathers H t I Stands call onDir onFile) (hfree : t.LinkFree) (fuel : Nat) :
    ∀ {stack places : List Path} {acc : σ} {seen : List Path} {v : ν}, List.Forall₂ (OpensDir t) stack places →
      pendingDirs t places ≤ fuel → Stands acc seen → I v →
        (walkTree call onDir onFile fuel stack acc).Ensures H v fun result v' => I v' ∧
          ∃ acc' seen', result = .ok (some acc') ∧ Stands acc' seen' ∧
            seen'.Perm (seen ++ (t.branching isShown).under places) := by
  induction fuel with
  | zero =>
      intro stack places acc seen v hstack hfuel hstands hI
      cases hstack with
      | nil => exact ⟨hI, acc, seen, rfl, hstands, by simp⟩
      | cons hdir hstack =>
          rw [pendingDirs_pop] at hfuel
          omega
  | succ fuel ih =>
      intro stack places acc seen v hstack hfuel hstands hI
      cases hstack with
      | nil => exact ⟨hI, acc, seen, rfl, hstands, by simp⟩
      | @cons dir place stack places hdir hstack =>
          rw [pendingDirs_pop] at hfuel
          refine Program.Ensures.bind (h.readDir dir v hI) ?_ ?_
          · rintro answer v₁ ⟨hI₁, hanswer⟩
            rw [hdir.listDir] at hanswer
            cases hanswer
            refine Program.Ensures.bind (walkNames_ensures h hfree hdir (t.children place) (fun _ hname => hname)
              hstack hstands hI₁) ?_ ?_
            · rintro ⟨stack₂, acc₂⟩ v₂ ⟨hI₂, stack', acc', hfound, hstack', hstands'⟩
              cases hfound
              refine Program.Ensures.mono (ih hstack' (by omega) hstands' hI₂) ?_
              rintro result v₃ ⟨hI₃, acc₃, seen₃, rfl, hstands₃, hperm⟩
              refine ⟨hI₃, acc₃, seen₃, rfl, hstands₃, hperm.trans ?_⟩
              have hpop := Branching.under_pop (b := t.branching isShown) place places
              rw [List.append_assoc]
              exact (((under_shownDirs t place places).append_left _).trans hpop.symm).append_left seen
            · rintro error v₂ ⟨-, stack', acc', hfound, -⟩
              cases hfound
          · rintro error v₁ ⟨-, hanswer⟩
            cases hanswer

/-- From one directory: everything visible below it. -/
theorem walkTree_visits (h : Gathers H t I Stands call onDir onFile) (hfree : t.LinkFree) {start : Path}
    (hstart : OpensDir t start place) {fuel : Nat} (hfuel : (visibleDirs t place).length < fuel) {acc : σ} {v : ν}
    (hstands : Stands acc []) (hI : I v) :
    (walkTree call onDir onFile fuel [start] acc).Ensures H v fun result v' => I v' ∧
      ∃ acc' seen, result = .ok (some acc') ∧ Stands acc' seen ∧ seen.Perm (visibleBelow t place) := by
  have hpending : pendingDirs t [place] ≤ fuel := by
    rw [pendingDirs, Branching.under_cons, Branching.under_nil, List.append_nil, List.countP_eq_length_filter,
      List.length_singleton]
    show 1 + (visibleDirs t place).length ≤ fuel
    omega
  refine Program.Ensures.mono (walkTree_ensures h hfree fuel (.cons hstart .nil) hpending hstands hI) ?_
  rintro result v' ⟨hI', acc', seen, rfl, hstands', hperm⟩
  exact ⟨hI', acc', seen, rfl, hstands', by simpa [visibleBelow] using hperm⟩

end Walk

end IronDrive
