import Mathlib.Data.List.Perm.Basic
import IronDrive.LibFileTree

/-! Whole subtrees: moving one to another place, removing several at once, and the inventory of the contents
of files below a place. -/

namespace Lib

namespace FileTree

variable {t : FileTree} {path base source dest : Path}

/-- A subtree may move to a place in a directory, neither of the two places being below the other. -/
structure Movable (t : FileTree) (source dest : Path) : Prop where
  not_inside : ¬ source <+: dest
  not_above : ¬ dest <+: source
  parent : t.node dest.dropLast = some .dir

instance (t : FileTree) (source dest : Path) : Decidable (t.Movable source dest) :=
  decidable_of_iff (¬ source <+: dest ∧ ¬ dest <+: source ∧ t.node dest.dropLast = some .dir)
    ⟨fun ⟨h, h', h''⟩ => ⟨h, h', h''⟩, fun h => ⟨h.not_inside, h.not_above, h.parent⟩⟩

theorem Movable.source_ne (h : t.Movable source dest) : source ≠ [] := fun heq =>
  h.not_inside (heq ▸ List.nil_prefix)

theorem Movable.dest_ne (h : t.Movable source dest) : dest ≠ [] := fun heq => h.not_above (heq ▸ List.nil_prefix)

theorem prefix_dropLast_of_ne {p : Path} (h : path <+: p) (hne : path ≠ p) : path <+: p.dropLast := by
  obtain ⟨rest, rfl⟩ := h
  have hrest : rest ≠ [] := fun hnil => hne (by rw [hnil, List.append_nil])
  rw [List.dropLast_append_of_ne_nil hrest]
  exact List.prefix_append _ _

theorem drop_dropLast_of_ne {p : Path} (h : path <+: p) (hne : path ≠ p) :
    p.dropLast.drop path.length = (p.drop path.length).dropLast := by
  obtain ⟨rest, rfl⟩ := h
  have hrest : rest ≠ [] := fun hnil => hne (by rw [hnil, List.append_nil])
  rw [List.dropLast_append_of_ne_nil hrest, List.drop_left, List.drop_left]

theorem append_drop {p : Path} (h : path <+: p) : path ++ p.drop path.length = p := by
  obtain ⟨rest, rfl⟩ := h
  rw [List.drop_left]

/-- Whatever is at or below `source` goes to `dest`, in place of what was there. -/
def move (t : FileTree) (source dest : Path) : FileTree :=
  if h : t.Movable source dest then
    { node := fun p =>
        if dest <+: p then t.node (source ++ p.drop dest.length)
        else if source <+: p then none
        else t.node p
      paths := (t.paths.filter fun p => ¬ dest <+: p ∧ ¬ source <+: p) ++
        (t.paths.filter fun p => source <+: p).map fun p => dest ++ p.drop source.length
      mem_paths := by
        intro p
        rw [List.mem_append, List.mem_map]
        by_cases hdest : dest <+: p
        · rw [if_pos hdest]
          constructor
          · rintro (hp | ⟨q, hq, rfl⟩)
            · simp [hdest] at hp
            · rw [List.drop_left]
              obtain ⟨hmem, hsource⟩ := List.mem_filter.mp hq
              rw [append_drop (by simpa using hsource)]
              exact (t.mem_paths q).mp hmem
          · intro hnode
            refine Or.inr ⟨source ++ p.drop dest.length, ?_, ?_⟩
            · exact List.mem_filter.mpr ⟨(t.mem_paths _).mpr hnode, by simp⟩
            · rw [List.drop_left, append_drop hdest]
        · have hmap : ¬ ∃ q, q ∈ t.paths.filter (fun p => source <+: p) ∧ dest ++ q.drop source.length = p := by
            rintro ⟨q, -, rfl⟩
            exact hdest (List.prefix_append _ _)
          rw [if_neg hdest, or_iff_left hmap]
          by_cases hsource : source <+: p <;> simp [hdest, hsource, t.mem_paths p]
      nodup_paths := by
        refine List.nodup_append.mpr ⟨t.nodup_paths.filter _, ?_, ?_⟩
        · refine List.Nodup.map_on (fun p hp q hq heq => ?_) (t.nodup_paths.filter _)
          have hp' : source <+: p := by simpa using (List.mem_filter.mp hp).2
          have hq' : source <+: q := by simpa using (List.mem_filter.mp hq).2
          rw [← append_drop hp', ← append_drop hq', List.append_cancel_left heq]
        · rintro p hp q hq rfl
          obtain ⟨r, -, rfl⟩ := List.mem_map.mp hq
          simp at hp
      root := by
        have hdest : ¬ dest <+: [] := fun hpre => h.dest_ne (List.prefix_nil.mp hpre)
        have hsource : ¬ source <+: [] := fun hpre => h.source_ne (List.prefix_nil.mp hpre)
        rw [if_neg hdest, if_neg hsource]
        exact t.root
      parent := by
        intro p hp hnode
        by_cases hdest : dest <+: p
        · rw [if_pos hdest] at hnode
          by_cases heq : dest = p
          · subst heq
            have hsource : ¬ source <+: dest.dropLast := fun hpre => h.not_inside (hpre.trans dest.dropLast_prefix)
            rw [if_neg fun hpre => dropLast_ne_self hp (hpre.eq_of_length_le (by simp)).symm, if_neg hsource]
            exact h.parent
          · have hbelow : p.drop dest.length ≠ [] := by
              intro hnil
              have happend := append_drop hdest
              rw [hnil, List.append_nil] at happend
              exact heq happend
            have hparent := t.parent (source ++ p.drop dest.length) (by simp [h.source_ne]) hnode
            rw [if_pos (prefix_dropLast_of_ne hdest heq), drop_dropLast_of_ne hdest heq]
            rwa [List.dropLast_append_of_ne_nil hbelow] at hparent
        · rw [if_neg hdest] at hnode
          have hsource : ¬ source <+: p := fun hpre => hnode (if_pos hpre)
          rw [if_neg hsource] at hnode
          rw [if_neg fun hpre => hdest (hpre.trans p.dropLast_prefix),
            if_neg fun hpre => hsource (hpre.trans p.dropLast_prefix)]
          exact t.parent p hp hnode }
  else t

theorem node_move (h : t.Movable source dest) (p : Path) : (t.move source dest).node p =
    if dest <+: p then t.node (source ++ p.drop dest.length)
    else if source <+: p then none
    else t.node p := by
  rw [move, dif_pos h]

/-- What was below the old place is below the new one. -/
theorem node_move_below (h : t.Movable source dest) (rest : Path) :
    (t.move source dest).node (dest ++ rest) = t.node (source ++ rest) := by
  rw [node_move h, if_pos (List.prefix_append _ _), List.drop_left]

theorem node_move_source (h : t.Movable source dest) (rest : Path) :
    (t.move source dest).node (source ++ rest) = none := by
  have hdest : ¬ dest <+: source ++ rest := by
    intro hpre
    rcases List.prefix_or_prefix_of_prefix hpre (List.prefix_append source rest) with habove | hbelow
    · exact h.not_above habove
    · exact h.not_inside hbelow
  rw [node_move h, if_neg hdest, if_pos (List.prefix_append _ _)]

theorem node_move_elsewhere (h : t.Movable source dest) {p : Path} (hsource : ¬ source <+: p) (hdest : ¬ dest <+: p) :
    (t.move source dest).node p = t.node p := by
  rw [node_move h, if_neg hdest, if_neg hsource]

theorem LinkFree.move (hfree : t.LinkFree) (source dest : Path) : (t.move source dest).LinkFree := by
  intro p absolute target hnode
  by_cases h : t.Movable source dest
  · rw [node_move h] at hnode
    split at hnode
    · exact hfree _ absolute target hnode
    · split at hnode
      · cases hnode
      · exact hfree p absolute target hnode
  · rw [FileTree.move, dif_neg h] at hnode
    exact hfree p absolute target hnode

theorem LinkFree.removeAll (hfree : t.LinkFree) (path : Path) : (t.removeAll path).LinkFree := by
  intro p absolute target hnode
  by_cases hbelow : path <+: p
  · by_cases hnil : path = []
    · rw [FileTree.removeAll, dif_pos hnil] at hnode
      exact hfree p absolute target hnode
    · rw [node_removeAll_of_below hnil hbelow] at hnode
      cases hnode
  · rw [node_removeAll_of_not_below hbelow] at hnode
    exact hfree p absolute target hnode

theorem LinkFree.createDirs {t' : FileTree} (hfree : t.LinkFree) {names : List String}
    (h : t.createDirs base names = .ok t') : t'.LinkFree := by
  intro p absolute target hnode
  rcases node_createDirs names h p with hsame | ⟨-, hdir⟩
  · rw [hsame] at hnode
    exact hfree p absolute target hnode
  · rw [hdir] at hnode
    cases hnode

/-- Rename an entry. A destination that exists is replaced, if it is of the same kind and, a directory, empty. -/
def renameTo (t : FileTree) (path path' : Path) : Except IoErrorKind FileTree := do
  let source ← t.locateEntry path
  let dest ← t.locateEntry path'
  match t.node source, t.node dest with
  | none, _ => throw .notFound
  | some _, none => if source <+: dest then throw .other else return t.move source dest
  | some n, some m =>
      if source = dest then return t
      else if source <+: dest ∨ dest <+: source then throw .other
      else
        match n, m with
        | .dir, .dir => if t.children dest = [] then return (t.removeAll dest).move source dest else throw .other
        | .dir, _ => throw .notADirectory
        | _, .dir => throw .isADirectory
        | _, _ => return (t.removeAll dest).move source dest

/-- Where unlinking a path removes an entry. -/
def unlinkPlace (t : FileTree) (path : Path) : Except IoErrorKind Path := do
  let place ← t.locateEntry path
  match t.node place with
  | some .dir => throw .isADirectory
  | some _ => return place
  | none => throw .notFound

/-- An entry goes to a free place outside itself. -/
theorem renameTo_free (hsource : t.locateEntry path = .ok source) (hdest : t.locateEntry base = .ok dest)
    (hexists : t.node source ≠ none) (hfree : t.node dest = none) :
    t.renameTo path base = if source <+: dest then .error .other else .ok (t.move source dest) := by
  cases hnode : t.node source with
  | none => exact absurd hnode hexists
  | some n =>
      simp only [renameTo, hsource, hdest, hnode, hfree, bind, Except.bind, pure, Except.pure, throw, throwThe,
        MonadExceptOf.throw]

theorem unlinkPlace_of_entry (hplace : t.locateEntry path = .ok source) (hexists : t.node source ≠ none)
    (hdir : t.node source ≠ some .dir) : t.unlinkPlace path = .ok source := by
  cases hnode : t.node source with
  | none => exact absurd hnode hexists
  | some n =>
      cases n with
      | dir => exact absurd hnode hdir
      | file | symlink => simp only [unlinkPlace, hplace, hnode, bind, Except.bind, pure, Except.pure]

/-- Without links the directories of a path are made unless a file stands on it, and nothing else is. -/
theorem createDirs_plain (names : List String) : ∀ {t : FileTree} {base : Path}, t.LinkFree → t.Resolved base →
    t.node base = some .dir → (∀ name ∈ names, Ordinary name) →
      (∀ p, p <+: names → ∀ content, t.node (base ++ p) ≠ some (.file content)) →
        ∃ made, t.createDirs base names = .ok made ∧
          ∀ p, made.node p = if base <+: p ∧ p <+: base ++ names then some .dir else t.node p := by
  induction names with
  | nil =>
      intro t base _ _ hdir _ _
      refine ⟨t, rfl, fun p => ?_⟩
      by_cases hp : base <+: p ∧ p <+: base ++ []
      · rw [if_pos hp]
        rw [List.append_nil] at hp
        rw [hp.2.eq_of_length_le hp.1.length_le, hdir]
      · rw [if_neg hp]
  | cons name rest ih =>
      intro t base hfree hbase hdir hord hfile
      have hsplit : base ++ name :: rest = base ++ [name] ++ rest := by simp
      have hplace : t.Resolved (base ++ [name]) := hbase.snoc hdir (hord name (by simp)) (hfree _)
      have hstep : ∃ next : FileTree, next.LinkFree ∧ next.Resolved (base ++ [name]) ∧
          next.node (base ++ [name]) = some .dir ∧
          t.createDirs base (name :: rest) = next.createDirs (base ++ [name]) rest ∧
          ∀ p, next.node p = if p = base ++ [name] then some .dir else t.node p := by
        cases hnode : t.node (base ++ [name]) with
        | none =>
            have hadmits : t.Admits (base ++ [name]) :=
              ⟨by simp, by rw [List.dropLast_concat]; exact hdir, by simp [hnode]⟩
            refine ⟨t.put (base ++ [name]) .dir, hfree.put _ (by simp), (extends_put_dir hnode).resolved hplace,
              node_put_self hadmits .dir, ?_, node_put hadmits .dir⟩
            rw [FileTree.createDirs, locateFrom_of_resolved maxLinks base hplace]
            simp only [hnode, if_true]
        | some n =>
            have hn : n = .dir := by
              cases n with
              | dir => rfl
              | file content => exact absurd hnode (hfile [name] (by simp) content)
              | symlink absolute target => exact absurd hnode (hfree _ absolute target)
            subst hn
            refine ⟨t, hfree, hplace, hnode, ?_, fun p => ?_⟩
            · rw [FileTree.createDirs, locateFrom_of_resolved maxLinks base hplace]
              simp only [hnode]
            · by_cases hp : p = base ++ [name]
              · rw [if_pos hp, hp, hnode]
              · rw [if_neg hp]
      obtain ⟨next, hnextFree, hnextPlace, hnextDir, hcreate, hnext⟩ := hstep
      have hnextFile : ∀ p, p <+: rest → ∀ content, next.node (base ++ [name] ++ p) ≠ some (.file content) := by
        intro p hp content
        rw [hnext]
        split
        · simp
        · have hcons : base ++ [name] ++ p = base ++ name :: p := by simp
          rw [hcons]
          exact hfile (name :: p) (by simpa using hp) content
      obtain ⟨made, hmade, hframe⟩ := ih hnextFree hnextPlace hnextDir (fun n hn => hord n (by simp [hn])) hnextFile
      refine ⟨made, by rw [hcreate, hmade], fun p => ?_⟩
      rw [hframe, hnext, hsplit]
      by_cases hp : base ++ [name] <+: p ∧ p <+: base ++ [name] ++ rest
      · rw [if_pos hp, if_pos ⟨(List.prefix_append _ _).trans hp.1, hp.2⟩]
      · rw [if_neg hp]
        by_cases hwide : base <+: p ∧ p <+: base ++ [name] ++ rest
        · have heq : base = p := by
            by_contra hne
            obtain ⟨more, rfl⟩ := hwide.1
            have hmore := hwide.2
            rw [List.append_assoc, List.prefix_append_right_inj] at hmore
            cases more with
            | nil => exact hne (List.append_nil base).symm
            | cons first more =>
                obtain ⟨rfl, -⟩ := List.cons_prefix_cons.mp hmore
                exact hp ⟨by simp, hwide.2⟩
          subst heq
          rw [if_pos hwide, if_neg (by simp), hdir]
        · rw [if_neg hwide, if_neg]
          rintro rfl
          exact hwide ⟨List.prefix_append _ _, List.prefix_append _ _⟩

/-- A place that is to go is at the path or above it. -/
def Doomed (gone : List Path) (path : Path) : Prop := ∃ place ∈ gone, place ≠ [] ∧ place <+: path

instance (gone : List Path) (path : Path) : Decidable (Doomed gone path) :=
  inferInstanceAs (Decidable (∃ place ∈ gone, _ ∧ _))

theorem Doomed.below {gone : List Path} {p : Path} (h : Doomed gone path) (hpre : path <+: p) : Doomed gone p := by
  obtain ⟨place, hplace, hne, habove⟩ := h
  exact ⟨place, hplace, hne, habove.trans hpre⟩

/-- The tree less everything at or below some places; the root stays. -/
def prune (t : FileTree) (gone : List Path) : FileTree where
  node p := if Doomed gone p then none else t.node p
  paths := t.paths.filter fun p => ¬ Doomed gone p
  mem_paths p := by
    by_cases hp : Doomed gone p <;> simp [hp, t.mem_paths p]
  nodup_paths := t.nodup_paths.filter _
  root := by
    have hroot : ¬ Doomed gone [] := by
      rintro ⟨place, -, hne, habove⟩
      exact hne (List.prefix_nil.mp habove)
    rw [if_neg hroot]
    exact t.root
  parent p hp hnode := by
    have hstays : ¬ Doomed gone p := fun hdoomed => hnode (if_pos hdoomed)
    rw [if_neg hstays] at hnode
    rw [if_neg fun hdoomed => hstays (hdoomed.below p.dropLast_prefix)]
    exact t.parent p hp hnode

theorem node_prune (t : FileTree) (gone : List Path) (p : Path) :
    (t.prune gone).node p = if Doomed gone p then none else t.node p := rfl

theorem prune_nil (t : FileTree) : t.prune [] = t := by
  have hnone : ∀ p, ¬ Doomed [] p := by
    rintro p ⟨place, hmem, -⟩
    cases hmem
  apply eq_of_node_paths
  · funext p
    rw [node_prune, if_neg (hnone p)]
  · simp [prune, hnone]

/-- Which places go matters, not how they are listed. -/
theorem prune_congr {gone gone' : List Path} (h : ∀ p, Doomed gone p ↔ Doomed gone' p) :
    t.prune gone = t.prune gone' := by
  apply eq_of_node_paths
  · funext p
    simp only [node_prune, h]
  · simp only [prune, h]

theorem doomed_concat {gone : List Path} {place p : Path} (hplace : place ≠ []) :
    Doomed (gone ++ [place]) p ↔ Doomed gone p ∨ place <+: p := by
  constructor
  · rintro ⟨q, hq, hne, habove⟩
    rcases List.mem_append.mp hq with hq | hq
    · exact Or.inl ⟨q, hq, hne, habove⟩
    · rw [List.mem_singleton.mp hq] at habove
      exact Or.inr habove
  · rintro (⟨q, hq, hne, habove⟩ | habove)
    · exact ⟨q, List.mem_append_left _ hq, hne, habove⟩
    · exact ⟨place, by simp, hplace, habove⟩

theorem removeAll_prune {gone : List Path} {place : Path} (hplace : place ≠ []) :
    (t.prune gone).removeAll place = t.prune (gone ++ [place]) := by
  apply eq_of_node_paths
  · funext p
    rw [node_prune]
    by_cases hbelow : place <+: p
    · rw [node_removeAll_of_below hplace hbelow, if_pos ((doomed_concat hplace).mpr (Or.inr hbelow))]
    · rw [node_removeAll_of_not_below hbelow, node_prune]
      simp only [doomed_concat hplace, hbelow, or_false]
  · simp only [removeAll, dif_neg hplace, prune, List.filter_filter, doomed_concat hplace, not_or,
      Bool.decide_and, Bool.and_comm]

theorem LinkFree.prune (hfree : t.LinkFree) (gone : List Path) : (t.prune gone).LinkFree := by
  intro p absolute target hnode
  rw [node_prune] at hnode
  split at hnode
  · cases hnode
  · exact hfree p absolute target hnode

/-! ### The inventory of contents -/

def contentAt (t : FileTree) (path : Path) : Option Bytes :=
  match t.node path with
  | some (.file content) => some content
  | _ => none

/-- The contents of the files below a place. -/
def contents (t : FileTree) (base : Path) : List Bytes :=
  t.paths.filterMap fun p => if base <+: p then t.contentAt p else none

theorem contentAt_congr {t' : FileTree} {p p' : Path} (h : t.node p = t'.node p') :
    t.contentAt p = t'.contentAt p' := by
  rw [contentAt, contentAt, h]

theorem contents_put_dir (hnone : t.node path = none) (base : Path) :
    (t.put path .dir).contents base = t.contents base := by
  by_cases hadmits : t.Admits path
  · have hpaths : (t.put path .dir).paths = t.paths ++ [path] := by
      simp only [put, dif_pos hadmits, if_pos hnone]
    have hlast : (t.put path .dir).contentAt path = none := by
      rw [contentAt, node_put_self hadmits]
    have hsingle : [path].filterMap
        (fun p => if base <+: p then (t.put path .dir).contentAt p else none) = [] := by
      simp [hlast]
    rw [contents, hpaths, List.filterMap_append, hsingle, List.append_nil, contents]
    refine List.filterMap_congr fun p hp => ?_
    have hne : p ≠ path := fun heq => (t.mem_paths p).mp hp (heq ▸ hnone)
    rw [contentAt_congr (node_put_of_ne hne .dir)]
  · rw [put, dif_neg hadmits]

/-- Making directories stores and loses no content. -/
theorem contents_createDirs (names : List String) : ∀ {t t' : FileTree} {base : Path},
    t.createDirs base names = .ok t' → ∀ place, t'.contents place = t.contents place := by
  induction names with
  | nil => intro t t' base h place; cases h; rfl
  | cons name rest ih =>
      intro t t' base h place
      rw [createDirs] at h
      split at h
      · cases h
      · split at h
        · exact ih h place
        · cases h
        · rename_i hnone
          split at h
          · rw [ih h place, contents_put_dir hnone]
          · cases h

/-- Moving a subtree to a free place rearranges the contents. -/
theorem contents_move (h : t.Movable source dest) (hnone : t.node dest = none) (hsource : base <+: source)
    (hdest : base <+: dest) : ((t.move source dest).contents base).Perm (t.contents base) := by
  have hbelow : ∀ p, dest <+: p → t.node p = none := by
    rintro p ⟨rest, rfl⟩
    by_cases hrest : rest = []
    · rw [hrest, List.append_nil, hnone]
    · exact node_append_of_not_dir (by rw [hnone]; simp) hrest
  have hstay : t.paths.filter (fun p => ¬ dest <+: p ∧ ¬ source <+: p) = t.paths.filter fun p => ¬ source <+: p := by
    refine List.filter_congr fun p hp => ?_
    have hnot : ¬ dest <+: p := fun hpre => (t.mem_paths p).mp hp (hbelow p hpre)
    simp [hnot]
  have hpaths : (t.move source dest).paths = (t.paths.filter fun p => ¬ source <+: p) ++
      (t.paths.filter fun p => source <+: p).map fun p => dest ++ p.drop source.length := by
    rw [move, dif_pos h, ← hstay]
  have hkept : (t.paths.filter fun p => ¬ source <+: p).filterMap
        (fun p => if base <+: p then (t.move source dest).contentAt p else none) =
      (t.paths.filter fun p => ¬ source <+: p).filterMap fun p => if base <+: p then t.contentAt p else none := by
    refine List.filterMap_congr fun p hp => ?_
    obtain ⟨hmem, hnot⟩ := List.mem_filter.mp hp
    have hfree : ¬ dest <+: p := fun hpre => (t.mem_paths p).mp hmem (hbelow p hpre)
    rw [contentAt_congr (node_move_elsewhere h (by simpa using hnot) hfree)]
  have hcarried : (t.paths.filter fun p => source <+: p).filterMap
        ((fun p => if base <+: p then (t.move source dest).contentAt p else none) ∘
          fun p => dest ++ p.drop source.length) =
      (t.paths.filter fun p => source <+: p).filterMap fun p => if base <+: p then t.contentAt p else none := by
    refine List.filterMap_congr fun p hp => ?_
    have hpre : source <+: p := by simpa using (List.mem_filter.mp hp).2
    have hnode := node_move_below h (p.drop source.length)
    rw [append_drop hpre] at hnode
    rw [Function.comp_apply, if_pos (hdest.trans (List.prefix_append _ _)), if_pos (hsource.trans hpre),
      contentAt_congr hnode]
  rw [contents, hpaths, List.filterMap_append, List.filterMap_map, hkept, hcarried, ← List.filterMap_append]
  refine List.Perm.filterMap _ ?_
  refine (List.perm_append_comm).trans ?_
  simpa using List.filter_append_perm (fun p => decide (source <+: p)) t.paths

end FileTree

end Lib
