import IronDrive.PathSafety

/-! Path containment: the walk keeps its current path resolved, existing and under the canonical root,
for every layout of links; what it appends are validated names below a directory that lacks the first. -/

namespace IronDrive

open Lib FileTree

namespace PathSafety

/-- What a validated component is free of. -/
structure SafeName (name : String) : Prop where
  nonempty : name ≠ ""
  not_dot : name ≠ "."
  not_dotdot : name ≠ ".."
  not_hidden : name.toList.head? ≠ some '.'
  no_separator : '/' ∉ name.toList ∧ '\\' ∉ name.toList

theorem SafeName.ordinary {name : String} (h : SafeName name) : Ordinary name := ⟨h.not_dot, h.not_dotdot⟩

theorem not_mem_of_mem_splitOnP {α : Type} (p : α → Bool) (xs : List α) :
    ∀ piece ∈ xs.splitOnP p, ∀ x ∈ piece, p x = false := by
  induction xs with
  | nil => simp
  | cons x xs ih =>
      rw [List.splitOnP_cons_eq_if_modifyHead]
      by_cases hx : p x = true
      · rw [if_pos hx]
        intro piece hpiece
        rcases List.mem_cons.mp hpiece with rfl | hpiece
        · simp
        · exact ih piece hpiece
      · rw [if_neg hx]
        cases hsplit : xs.splitOnP p with
        | nil => exact absurd hsplit (List.splitOnP_ne_nil p xs)
        | cons first rest =>
            rw [hsplit] at ih
            intro piece hpiece y hy
            rw [List.modifyHead_cons] at hpiece
            rcases List.mem_cons.mp hpiece with rfl | hpiece
            · rcases List.mem_cons.mp hy with rfl | hy
              · simpa using hx
              · exact ih first (by simp) y hy
            · exact ih piece (by simp [hpiece]) y hy

theorem splitComponents_no_separator (userPath : String) : ∀ name ∈ splitComponents userPath,
    '/' ∉ name.toList ∧ '\\' ∉ name.toList := by
  intro name hname
  obtain ⟨piece, hpiece, rfl⟩ := List.mem_map.mp hname
  have hfree := not_mem_of_mem_splitOnP isSeparator userPath.toList piece hpiece
  rw [String.toList_ofList]
  constructor
  · intro hmem
    have := hfree _ hmem
    simp [isSeparator] at this
  · intro hmem
    have := hfree _ hmem
    simp [isSeparator] at this

theorem validateComponent_ok {component : String} (h : validateComponent component = .ok ()) :
    component ≠ "" ∧ component ≠ "." ∧ component ≠ ".." ∧ component.toList.head? ≠ some '.' := by
  simp only [validateComponent] at h
  split at h
  · cases h
  rename_i hempty
  split at h
  · cases h
  split at h
  · cases h
  split at h
  · cases h
  split at h
  · cases h
  rename_i hdot
  split at h
  · cases h
  rename_i hdotdot
  split at h
  · cases h
  rename_i hhidden
  exact ⟨by rintro rfl; exact hempty rfl, hdot, hdotdot, hhidden⟩

theorem validateComponents_ok {components : List String} (h : validateComponents components = .ok ()) :
    ∀ component ∈ components, validateComponent component = .ok () := by
  induction components with
  | nil => intro component hmem; cases hmem
  | cons first rest ih =>
      simp only [validateComponents, bind, Except.bind] at h
      split at h
      · cases h
      · rename_i u hfirst
        intro component hmem
        rcases List.mem_cons.mp hmem with rfl | hmem
        · exact hfirst
        · exact ih h component hmem

theorem parseUserPath_ok {userPath : String} {components : List String}
    (h : parseUserPath userPath = .ok components) : ∀ name ∈ components, SafeName name := by
  simp only [parseUserPath] at h
  split at h
  · cases h
  split at h
  · cases h
  split at h
  · cases h
  split at h
  · cases h
  simp only [bind, Except.bind] at h
  split at h
  · cases h
  · rename_i u hvalid
    cases h
    intro name hname
    obtain ⟨hnonempty, hdot, hdotdot, hhidden⟩ :=
      validateComponent_ok (validateComponents_ok hvalid name hname)
    exact ⟨hnonempty, hdot, hdotdot, hhidden, splitComponents_no_separator userPath name hname⟩

/-! ### The walk -/

/-- The shape of what the walk returns: something existing and link-free under the root, followed by
safe names of which the first is missing there. -/
structure Joined (t : FileTree) (canonicalRoot p existing : Path) (appended : List String) : Prop where
  eq : p = existing ++ appended
  under : canonicalRoot <+: existing
  resolved : t.Resolved existing
  exists' : t.node existing ≠ none
  missing : ∀ name rest, appended = name :: rest →
    t.node existing = some .dir ∧ t.node (existing ++ [name]) = none
  safe : ∀ name ∈ appended, SafeName name

/-- Every call of the operating system, failing or not. -/
abbrev Anyhow : (op : FsCall) → FileTree → op.Answer → FileTree → Prop := Performs fun _ => True

theorem walkComponents_ensures {t : FileTree} {canonicalRoot : Path} (components : List String) :
    ∀ {current : Path}, (∀ name ∈ components, SafeName name) → canonicalRoot <+: current →
      t.Resolved current → t.node current ≠ none →
        (walkComponents canonicalRoot current components).Ensures Anyhow t fun result _ =>
          ∀ p, result = .ok p → ∃ existing appended, Joined t canonicalRoot p existing appended := by
  induction components with
  | nil =>
      intro current _ hunder hresolved hexists p hp
      cases hp
      exact ⟨current, [], by simp, hunder, hresolved, hexists, by simp, by simp⟩
  | cons component remaining ih =>
      intro current hsafe hunder hresolved hexists
      have hname := hsafe component (by simp)
      refine symlinkMetadata_ensures fun answer hstat => ?_
      cases answer with
      | ok m =>
          refine canonicalize_ensures fun answer' hcanon => ?_
          cases answer' with
          | ok resolved =>
              obtain ⟨hres, hnode⟩ := canonicalize_resolved (hcanon.ok resolved rfl)
              by_cases hinside : canonicalRoot <+: resolved
              · simp only [attempt, Program.bind_eq, Program.done_bind, hinside, not_true_eq_false, if_false]
                exact ih (fun name hmem => hsafe name (by simp [hmem])) hinside hres hnode
              · simp only [attempt, Program.bind_eq, Program.done_bind, hinside, not_false_eq_true, if_true]
                intro p hp
                cases hp
          | error e =>
              intro p hp
              cases hp
      | error e =>
          by_cases hkind : e.kind = .notFound
          · simp only [hkind, if_true]
            intro p hp
            cases hp
            have hmissing := lstat_eq_notFound hresolved hexists (hstat.notFound e rfl hkind)
            refine ⟨current, component :: remaining, by simp, hunder, hresolved, hexists, ?_, hsafe⟩
            intro name rest hcons
            cases hcons
            exact hmissing
          · simp only [hkind, if_false]
            intro p hp
            cases hp

/-- The specification of `safeJoin`: it leaves the tree alone, and what it returns is joined to the
canonical root. -/
theorem safeJoin_ensures (t : FileTree) (root : Path) (userPath : String) :
    (safeJoin root userPath).Ensures Anyhow t fun result _ => ∀ p, result = .ok p →
      ∃ canonicalRoot existing appended, t.canonicalize root = .ok canonicalRoot ∧
        Joined t canonicalRoot p existing appended := by
  simp only [safeJoin]
  cases hparse : parseUserPath userPath with
  | error e =>
      intro p hp
      cases hp
  | ok components =>
      refine canonicalize_ensures fun answer hcanon => ?_
      cases answer with
      | error e =>
          intro p hp
          cases hp
      | ok canonicalRoot =>
          have hroot := hcanon.ok canonicalRoot rfl
          obtain ⟨hresolved, hexists⟩ := canonicalize_resolved hroot
          simp only [attempt, Program.bind_eq, Program.done_bind]
          refine Program.Ensures.bind (walkComponents_ensures components (parseUserPath_ok hparse)
            (List.prefix_refl canonicalRoot) hresolved hexists) ?_ ?_
          · intro current t'' hjoined
            split
            · intro p hp
              cases hp
            · intro p hp
              cases hp
              obtain ⟨existing, appended, h⟩ := hjoined current rfl
              exact ⟨canonicalRoot, existing, appended, hroot, h⟩
          · intro error t'' _ p hp
            cases hp

theorem walkComponents_readsOnly (canonicalRoot : Path) (components : List String) : ∀ current : Path,
    ReadsOnly (walkComponents canonicalRoot current components) := by
  induction components with
  | nil => intro current; trivial
  | cons component remaining ih =>
      intro current
      apply (fsCall_only (.symlinkMetadata (current ++ [component])) trivial).bind
      intro answer _
      cases answer with
      | ok m =>
          apply (fsCall_attempt_only (.canonicalize (current ++ [component])) trivial _ id).bind
          intro resolved _
          split
          · trivial
          · exact ih resolved
      | error e =>
          dsimp only
          split <;> trivial

theorem safeJoin_readsOnly (root : Path) (userPath : String) : ReadsOnly (safeJoin root userPath) := by
  unfold safeJoin
  apply (Program.only_ofExcept _).bind
  intro components _
  apply (fsCall_attempt_only (.canonicalize root) trivial _ id).bind
  intro canonicalRoot _
  apply (walkComponents_readsOnly canonicalRoot components canonicalRoot).bind
  intro current _
  split <;> trivial

theorem Joined.resolves {t : FileTree} {canonicalRoot p existing : Path} {appended : List String}
    (h : Joined t canonicalRoot p existing appended) :
    t.canonicalize p = .error .notFound ∨
      ∃ place, t.canonicalize p = .ok place ∧ canonicalRoot <+: place := by
  obtain ⟨rfl, hunder, hresolved, hexists, hmissing, hsafe⟩ := h
  cases appended with
  | nil =>
      rw [List.append_nil]
      exact Or.inr ⟨existing, canonicalize_of_resolved hresolved hexists, hunder⟩
  | cons name rest =>
      obtain ⟨hdir, hnone⟩ := hmissing name rest rfl
      exact Or.inl (canonicalize_of_missing hresolved hdir (hsafe name (by simp)).ordinary hnone rest)

/-- Path containment: on every filesystem, whatever calls fail, a path that `safeJoin` returns lies
under the canonical root, resolves to nothing or to something under it, and consists of something that
exists followed by safe names. -/
theorem safeJoin_contained (oracle : Nat → Choice) (disk : Disk) (root : Path) (userPath : String)
    (p : Path) (h : ((safeJoin root userPath).run (fsHandler oracle) disk).1 = .ok p) :
    ∃ canonicalRoot, disk.tree.canonicalize root = .ok canonicalRoot ∧ canonicalRoot <+: p ∧
      (disk.tree.canonicalize p = .error .notFound ∨
        ∃ place, disk.tree.canonicalize p = .ok place ∧ canonicalRoot <+: place) ∧
      ∃ existing appended, p = existing ++ appended ∧ disk.tree.node existing ≠ none ∧
        (∀ name rest, appended = name :: rest → disk.tree.node (existing ++ [name]) = none) ∧
        ∀ name ∈ appended, SafeName name := by
  obtain ⟨canonicalRoot, existing, appended, hroot, hjoined⟩ :=
    run_of_ensures (fun _ => trivial) (safeJoin_ensures disk.tree root userPath) p h
  refine ⟨canonicalRoot, hroot, ?_, hjoined.resolves, existing, appended, hjoined.eq, hjoined.exists', ?_,
    hjoined.safe⟩
  · rw [hjoined.eq]
    exact hjoined.under.trans (List.prefix_append _ _)
  · intro name rest hcons
    exact (hjoined.missing name rest hcons).2

/-- A library with a link to one of its own directories and a link out of it. -/
def linkedDisk : Disk where
  tree := ((((FileTree.empty.put ["lib"] .dir).put ["lib", "docs"] .dir).put ["lib", "in"]
    (.symlink false ["docs"])).put ["lib", "out"] (.symlink true ["etc"]))
  tick := 0

/-- The link inside is followed; the new name is appended to the directory it leads to. -/
theorem safeJoin_contained_linked :
    ∃ canonicalRoot, linkedDisk.tree.canonicalize ["lib"] = .ok canonicalRoot ∧
      canonicalRoot <+: ["lib", "docs", "new"] ∧
      (linkedDisk.tree.canonicalize ["lib", "docs", "new"] = .error .notFound ∨
        ∃ place, linkedDisk.tree.canonicalize ["lib", "docs", "new"] = .ok place ∧
          canonicalRoot <+: place) ∧
      ∃ existing appended, ["lib", "docs", "new"] = existing ++ appended ∧
        linkedDisk.tree.node existing ≠ none ∧
        (∀ name rest, appended = name :: rest → linkedDisk.tree.node (existing ++ [name]) = none) ∧
        ∀ name ∈ appended, SafeName name :=
  safeJoin_contained calmOracle linkedDisk ["lib"] "in/new" ["lib", "docs", "new"] (by decide)

end PathSafety

end IronDrive
