import IronDrive.EntryMoves
import IronDrive.DiskSteps

/-! Stored entries and the paths that name them. The limits on names, depth and length are checked on the paths
of a call, and a move changes the paths of a whole subtree: every entry stays addressable exactly as long as
every moved subtree fits below its new path. -/

namespace IronDrive

open Lib FileTree PathSafety FsService

/-- A name that is a component of some well-formed path. -/
structure PathName (name : String) : Prop where
  wellFormed : WellFormedName name
  no_separator : '/' ∉ name.toList ∧ '\\' ∉ name.toList
  no_colon : ':' ∉ name.toList

/-- The bytes of a joined path, and one. -/
def joinedBytes (names : List String) : Nat := (names.map fun name => name.utf8ByteSize + 1).sum

theorem utf8ByteSize_intercalate (names : List String) (hne : names ≠ []) :
    ("/".intercalate names).utf8ByteSize + 1 = joinedBytes names := by
  induction names with
  | nil => exact absurd rfl hne
  | cons name rest ih =>
      cases rest with
      | nil => simp [joinedBytes]
      | cons next more =>
          have hrest := ih (by simp)
          have hslash : "/".utf8ByteSize = 1 := by decide
          rw [String.intercalate_cons_cons, String.utf8ByteSize_append, String.utf8ByteSize_append, hslash]
          simp only [joinedBytes, List.map_cons, List.sum_cons] at hrest ⊢
          omega

theorem joinedBytes_append (front back : List String) :
    joinedBytes (front ++ back) = joinedBytes front + joinedBytes back := by
  simp [joinedBytes]

theorem joinedBytes_splitOnP (chars : List Char) :
    joinedBytes ((chars.splitOnP isSeparator).map String.ofList) = (String.ofList chars).utf8ByteSize + 1 := by
  induction chars with
  | nil => simp [joinedBytes]
  | cons c rest ih =>
      rw [List.splitOnP_cons_eq_if_modifyHead, String.ofList_cons, String.utf8ByteSize_append,
        String.utf8ByteSize_singleton]
      by_cases hc : isSeparator c = true
      · have hsize : c.utf8Size = 1 := by
          have hcases : c = '/' ∨ c = '\\' := by simpa [isSeparator, or_iff_not_imp_left] using hc
          rcases hcases with rfl | rfl <;> decide
        rw [if_pos hc, hsize]
        simp only [List.map_cons, joinedBytes, List.sum_cons] at ih ⊢
        rw [ih]
        simp only [String.ofList_nil, String.utf8ByteSize_empty]
        omega
      · rw [if_neg hc]
        cases hsplit : rest.splitOnP isSeparator with
        | nil => exact absurd hsplit (List.splitOnP_ne_nil _ _)
        | cons first more =>
            rw [hsplit] at ih
            rw [List.modifyHead_cons]
            simp only [List.map_cons, joinedBytes, List.sum_cons, String.ofList_cons, String.utf8ByteSize_append,
              String.utf8ByteSize_singleton] at ih ⊢
            omega

theorem joinedBytes_splitComponents (userPath : String) :
    joinedBytes (splitComponents userPath) = userPath.utf8ByteSize + 1 := by
  have h := joinedBytes_splitOnP userPath.toList
  rwa [String.ofList_toList] at h

theorem mem_of_mem_splitOnP {α : Type} {p : α → Bool} {xs : List α} : ∀ {piece : List α}, piece ∈ xs.splitOnP p →
    ∀ {x : α}, x ∈ piece → x ∈ xs := by
  induction xs with
  | nil => simp
  | cons first rest ih =>
      intro piece hpiece x hx
      rw [List.splitOnP_cons_eq_if_modifyHead] at hpiece
      split at hpiece
      · rcases List.mem_cons.mp hpiece with rfl | hlater
        · cases hx
        · exact List.mem_cons_of_mem _ (ih hlater hx)
      · cases hsplit : rest.splitOnP p with
        | nil => exact absurd hsplit (List.splitOnP_ne_nil p rest)
        | cons head tail =>
            rw [hsplit, List.modifyHead_cons] at hpiece
            rcases List.mem_cons.mp hpiece with rfl | hlater
            · rcases List.mem_cons.mp hx with rfl | hx
              · exact List.mem_cons_self
              · exact List.mem_cons_of_mem _ (ih (by rw [hsplit]; simp) hx)
            · exact List.mem_cons_of_mem _ (ih (by rw [hsplit]; simp [hlater]) hx)

theorem mem_splitOnP_of_mem {α : Type} {p : α → Bool} {xs : List α} {x : α} (hx : x ∈ xs) (hp : p x = false) :
    ∃ piece ∈ xs.splitOnP p, x ∈ piece := by
  induction xs with
  | nil => cases hx
  | cons first rest ih =>
      rw [List.splitOnP_cons_eq_if_modifyHead]
      by_cases hfirst : p first = true
      · rw [if_pos hfirst]
        rcases List.mem_cons.mp hx with rfl | hx
        · rw [hp] at hfirst
          cases hfirst
        · obtain ⟨piece, hpiece, hmem⟩ := ih hx
          exact ⟨piece, List.mem_cons_of_mem _ hpiece, hmem⟩
      · rw [if_neg hfirst]
        cases hsplit : rest.splitOnP p with
        | nil => exact absurd hsplit (List.splitOnP_ne_nil p rest)
        | cons head tail =>
            rw [List.modifyHead_cons]
            rcases List.mem_cons.mp hx with rfl | hx
            · exact ⟨x :: head, List.mem_cons_self .., List.mem_cons_self ..⟩
            · obtain ⟨piece, hpiece, hmem⟩ := ih hx
              rw [hsplit] at hpiece
              rcases List.mem_cons.mp hpiece with rfl | hlater
              · exact ⟨first :: piece, List.mem_cons_self .., List.mem_cons_of_mem _ hmem⟩
              · exact ⟨piece, List.mem_cons_of_mem _ hlater, hmem⟩

theorem mem_intercalate {α : Type} {sep : List α} {xss : List (List α)} {x : α} (h : x ∈ sep.intercalate xss) :
    x ∈ sep ∨ ∃ xs ∈ xss, x ∈ xs := by
  induction xss with
  | nil => cases h
  | cons first rest ih =>
      cases rest with
      | nil =>
          rw [List.intercalate_singleton] at h
          exact Or.inr ⟨first, by simp, h⟩
      | cons next more =>
          rw [List.intercalate_cons_cons, List.mem_append, List.mem_append] at h
          rcases h with (h | h) | h
          · exact Or.inr ⟨first, by simp, h⟩
          · exact Or.inl h
          · rcases ih h with hsep | ⟨xs, hxs, hx⟩
            · exact Or.inl hsep
            · exact Or.inr ⟨xs, List.mem_cons_of_mem _ hxs, hx⟩

/-- Names without separators are what their joined path splits into. -/
theorem splitComponents_intercalate (names : List String) (hne : names ≠ [])
    (h : ∀ name ∈ names, '/' ∉ name.toList ∧ '\\' ∉ name.toList) :
    splitComponents ("/".intercalate names) = names := by
  have hfree : ∀ name ∈ names, ∀ c ∈ name.toList, isSeparator c = false := by
    intro name hname c hc
    simp only [isSeparator, Bool.or_eq_false_iff, decide_eq_false_iff_not]
    exact ⟨fun heq => (h name hname).1 (heq ▸ hc), fun heq => (h name hname).2 (heq ▸ hc)⟩
  rw [splitComponents, String.toList_intercalate]
  induction names with
  | nil => exact absurd rfl hne
  | cons name rest ih =>
      cases rest with
      | nil =>
          rw [List.map_singleton, List.intercalate_singleton,
            List.splitOnP_eq_singleton (hfree name (by simp))]
          simp
      | cons next more =>
          have hrest := ih (by simp) (fun n hn => h n (by simp [hn])) fun n hn => hfree n (by simp [hn])
          have hslash : "/".toList = ['/'] := rfl
          rw [List.map_cons, hslash] at hrest
          rw [List.map_cons, List.map_cons, List.intercalate_cons_cons, hslash, List.append_assoc,
            List.singleton_append, List.splitOnP_append_cons_of_forall_mem (hfree name (by simp)) '/' (by decide),
            List.map_cons, hrest, String.ofList_toList]

/-- The names below a root are components of one well-formed path. -/
structure Addressed (names : List String) : Prop where
  valid : ∀ name ∈ names, PathName name
  shallow : names.length ≤ maxDepth
  short : ("/".intercalate names).utf8ByteSize ≤ maxPathBytes

theorem addressed_of_wellFormed {userPath : String} (h : WellFormedPath userPath) :
    Addressed (splitComponents userPath) where
  valid name hname := by
    refine ⟨h.names name hname, splitComponents_no_separator userPath name hname, fun hcolon => ?_⟩
    obtain ⟨piece, hpiece, rfl⟩ := List.mem_map.mp hname
    rw [String.toList_ofList] at hcolon
    exact h.no_colon (mem_of_mem_splitOnP hpiece hcolon)
  shallow := h.shallow
  short := by
    have hjoined := utf8ByteSize_intercalate _ (splitComponents_ne_nil userPath)
    rw [joinedBytes_splitComponents] at hjoined
    have hshort := h.short
    omega

/-- The limits of the path check on a path as a whole. -/
def WithinLimits (path : String) : Prop := path.utf8ByteSize ≤ maxPathBytes ∧ (splitComponents path).length ≤ maxDepth

/-- A path within the limits is accepted if its components are, whichever separators it is written with. -/
theorem wellFormed_of_components {userPath : String} (hne : userPath ≠ "") (hfits : WithinLimits userPath)
    (hnames : ∀ name ∈ splitComponents userPath, PathName name) : WellFormedPath userPath where
  nonempty := hne
  short := hfits.1
  shallow := hfits.2
  names name hname := (hnames name hname).wellFormed
  no_colon hcolon := by
    obtain ⟨piece, hpiece, hmem⟩ := mem_splitOnP_of_mem hcolon (by decide : isSeparator ':' = false)
    refine (hnames _ (List.mem_map_of_mem hpiece)).no_colon ?_
    rwa [String.toList_ofList]
  relative c hc := by
    cases hsep : isSeparator c with
    | false => rfl
    | true =>
        obtain ⟨rest, hrest⟩ := List.head?_eq_some_iff.mp hc
        have hempty : "" ∈ splitComponents userPath := by
          rw [splitComponents, hrest, List.splitOnP_cons_eq_if_modifyHead, if_pos hsep]
          exact List.mem_cons_self ..
        exact absurd rfl (hnames "" hempty).wellFormed.nonempty

/-- Such names are accepted as a path, under which they are found again. -/
theorem Addressed.wellFormed {names : List String} (h : Addressed names) (hne : names ≠ []) :
    WellFormedPath ("/".intercalate names) ∧ splitComponents ("/".intercalate names) = names := by
  have hsplit := splitComponents_intercalate names hne fun name hname => (h.valid name hname).no_separator
  obtain ⟨first, rest, rfl⟩ := List.exists_cons_of_ne_nil hne
  have hfirst := h.valid first (by simp)
  have hchars : first.toList ≠ [] := fun hnil => hfirst.wellFormed.nonempty ((toList_eq_nil_iff first).mp hnil)
  have hhead : ("/".intercalate (first :: rest)).toList.head? = first.toList.head? := by
    rw [String.toList_intercalate, List.map_cons]
    cases rest with
    | nil => rw [List.map_nil, List.intercalate_singleton]
    | cons next more =>
        rw [List.map_cons, List.intercalate_cons_cons, List.append_assoc, List.head?_append_of_ne_nil _ hchars]
  refine ⟨⟨?_, h.short, ?_, ?_, ?_, ?_⟩, hsplit⟩
  · intro hempty
    rw [hempty, String.toList_empty] at hhead
    exact hchars (List.head?_eq_none_iff.mp hhead.symm)
  · intro hcolon
    rw [String.toList_intercalate] at hcolon
    rcases mem_intercalate hcolon with hslash | ⟨chars, hmem, hc⟩
    · revert hslash
      decide
    · obtain ⟨name, hname, rfl⟩ := List.mem_map.mp hmem
      exact (h.valid name hname).no_colon hc
  · intro c hc
    rw [hhead] at hc
    have hmem := List.mem_of_mem_head? hc
    simp only [isSeparator, Bool.or_eq_false_iff, decide_eq_false_iff_not]
    exact ⟨fun heq => hfirst.no_separator.1 (heq ▸ hmem), fun heq => hfirst.no_separator.2 (heq ▸ hmem)⟩
  · rw [hsplit]
    exact h.shallow
  · rw [hsplit]
    exact fun name hname => (h.valid name hname).wellFormed

theorem Addressed.front {front back : List String} (h : Addressed (front ++ back)) (hne : front ≠ []) :
    Addressed front where
  valid name hname := h.valid name (List.mem_append_left _ hname)
  shallow := by
    have hlength := h.shallow
    rw [List.length_append] at hlength
    omega
  short := by
    have hfront := utf8ByteSize_intercalate front hne
    have hwhole := utf8ByteSize_intercalate (front ++ back) (by simp [hne])
    have hshort := h.short
    rw [joinedBytes_append] at hwhole
    omega

/-- Every entry below the root has an accepted path. -/
def AllAddressed (t : FileTree) (root : Path) : Prop :=
  ∀ names, names ≠ [] → t.node (root ++ names) ≠ none → Addressed names

/-- A path below the root that the user may give, or one above it. -/
def OnUserPath (root path : Path) : Prop :=
  ∃ userPath, WellFormedPath userPath ∧ path <+: root ++ splitComponents userPath

/-- Calls that place entries on user paths only, and remove nothing. -/
def PlacesOnly (root : Path) : FsCall → Prop
  | .createDirAll path | .create path => OnUserPath root path
  | .createNew _ | .removeDirAll _ => False
  | _ => True

/-- Without links a literal path resolves to itself. -/
def PlainAnswer : (op : FsCall) → op.Answer → Prop
  | .canonicalize path, answer => ∀ place, answer = .ok place → (∀ name ∈ path, Ordinary name) → place = path
  | _, _ => True

variable {t t' : FileTree} {root : Path}

theorem walkComponents_plain_within (canonicalRoot : Path) (components : List String) : ∀ {current : Path},
    (∀ name ∈ current ++ components, Ordinary name) →
      (walkComponents canonicalRoot current components).Within PlainAnswer FsCall.ReadOnly fun target =>
        target = current ++ components := by
  induction components with
  | nil =>
      intro current _
      exact (List.append_nil current).symm
  | cons component remaining ih =>
      intro current hord
      have hsplit : current ++ component :: remaining = current ++ [component] ++ remaining := by simp
      rw [hsplit] at hord ⊢
      refine ⟨trivial, fun answer _ => ?_⟩
      cases answer with
      | ok m =>
          refine ⟨trivial, fun answer' hanswer' => ?_⟩
          cases answer' with
          | error e => trivial
          | ok resolved =>
              obtain rfl := hanswer' resolved rfl fun name hname => hord name (List.mem_append_left _ hname)
              show (if ¬ canonicalRoot <+: current ++ [component] then
                Program.fail (.validation (if m.isSymlink then "Path escapes the root directory via symlink."
                  else "Path escapes the root directory."))
                else walkComponents canonicalRoot (current ++ [component]) remaining).Within PlainAnswer
                  FsCall.ReadOnly _
              by_cases hinside : canonicalRoot <+: current ++ [component]
              · rw [if_neg (not_not.mpr hinside)]
                exact ih hord
              · rw [if_pos hinside]
                trivial
      | error e =>
          show (if e.kind = .notFound then Program.done (current ++ [component] ++ remaining)
            else Program.fail (.validation ("Cannot read metadata for path component: " ++ e.message)) :
              FsProgram Path).Within PlainAnswer FsCall.ReadOnly _
          split_ifs
          · rfl
          · trivial

theorem safeJoin_plain_within (hord : ∀ name ∈ root, Ordinary name) (userPath : String) :
    (safeJoin root userPath).Within PlainAnswer FsCall.ReadOnly fun target =>
      WellFormedPath userPath ∧ target = root ++ splitComponents userPath := by
  unfold safeJoin
  cases hparse : parseUserPath userPath with
  | error e => trivial
  | ok components =>
      obtain ⟨hwell, rfl⟩ := (parseUserPath_ok_iff userPath components).mp hparse
      refine ⟨trivial, fun answer hanswer => ?_⟩
      cases answer with
      | error e => trivial
      | ok place =>
          obtain rfl := hanswer place rfl hord
          have hall : ∀ name ∈ place ++ splitComponents userPath, Ordinary name := fun name hname =>
            (List.mem_append.mp hname).elim (hord name) (ordinary_of_wellFormed hwell name)
          refine (walkComponents_plain_within place _ hall).bind fun current hcurrent => ?_
          split_ifs
          · exact ⟨hwell, hcurrent⟩
          · trivial

/-- What is new below the root is on the way to the end of a user path. -/
theorem allAddressed_of_placed (hroot : AllAddressed t root) {path : Path} (hpath : OnUserPath root path)
    (hnew : ∀ p, t'.node p ≠ none → t.node p ≠ none ∨ p <+: path) : AllAddressed t' root := by
  intro names hne hnode
  rcases hnew _ hnode with hold | hpre
  · exact hroot names hne hold
  · obtain ⟨userPath, hwell, hwithin⟩ := hpath
    obtain ⟨back, hback⟩ := (List.prefix_append_right_inj root).mp (hpre.trans hwithin)
    have haddressed := addressed_of_wellFormed hwell
    rw [← hback] at haddressed
    exact haddressed.front hne

theorem straight_of_onUserPath (hfree : t.LinkFree) (hord : ∀ name ∈ root, Ordinary name) {path : Path}
    (hpath : OnUserPath root path) : t.Straight path := by
  obtain ⟨userPath, hwell, hpre⟩ := hpath
  refine hfree.straight fun name hname => ?_
  exact (List.mem_append.mp (hpre.subset hname)).elim (hord name) (ordinary_of_wellFormed hwell name)

theorem createDirs_new (hstraight : t.Straight root) (hmade : t.createDirs [] root = .ok t') (p : Path)
    (hnode : t'.node p ≠ none) : t.node p ≠ none ∨ p <+: root := by
  by_cases hpre : p <+: root
  · exact Or.inr hpre
  · have hstraight' : t.Straight ([] ++ root) := hstraight
    rw [createDirs_on_straight root hstraight' hmade p (by simpa using hpre)] at hnode
    exact Or.inl hnode

theorem put_file_new {path : Path} {content : Bytes} (p : Path) (hnode : (t.put path (.file content)).node p ≠ none) :
    t.node p ≠ none ∨ p <+: path := by
  by_cases hp : p = path
  · exact Or.inr (hp ▸ List.prefix_refl _)
  · rw [node_put_of_ne hp] at hnode
    exact Or.inl hnode

theorem plainAnswer_of_perform (hfree : t.LinkFree) {op : FsCall} {choice : Choice} {answer : op.Answer}
    (h : op.perform choice t = (answer, t')) : PlainAnswer op answer := by
  cases op with
  | canonicalize path =>
      obtain ⟨rfl, rfl⟩ := Prod.mk.inj h
      exact fun place hplace hliteral =>
        canonicalize_of_straight (hfree.straight hliteral) ((guard_accounted choice _).ok place hplace)
  | _ => trivial

/-- Calls that place entries on user paths keep every entry addressed, whatever fails. -/
theorem perform_placesOnly (hord : ∀ name ∈ root, Ordinary name) {op : FsCall} (hop : PlacesOnly root op)
    (hfree : t.LinkFree) (hall : AllAddressed t root) {choice : Choice} {answer : op.Answer}
    (h : op.perform choice t = (answer, t')) : t'.LinkFree ∧ AllAddressed t' root := by
  by_cases hread : op.ReadOnly
  · have hkeep := perform_readOnly hread choice t
    rw [h] at hkeep
    rw [show t' = t from hkeep]
    exact ⟨hfree, hall⟩
  cases op with
  | createDirAll path =>
      have hmakes : ∀ {path' made}, path' <+: path → t.createDirs [] path' = .ok made →
          made.LinkFree ∧ AllAddressed made root := by
        intro path' made hpre hmade
        have hpath' : OnUserPath root path' := by
          obtain ⟨userPath, hwell, hwithin⟩ := hop
          exact ⟨userPath, hwell, hpre.trans hwithin⟩
        exact ⟨hfree.createDirs hmade, allAddressed_of_placed hall hpath'
          (createDirs_new (straight_of_onUserPath hfree hord hpath') hmade)⟩
      simp only [FsCall.perform] at h
      cases hfault : choice.fault with
      | some message =>
          simp only [hfault] at h
          obtain ⟨-, rfl⟩ := Prod.mk.inj h
          cases hmade : t.createDirs [] (path.take choice.amount) with
          | ok made => exact hmakes (List.take_prefix _ _) hmade
          | error kind => exact ⟨hfree, hall⟩
      | none =>
          simp only [hfault] at h
          cases hmade : t.createDirs [] path with
          | ok made =>
              rw [hmade] at h
              obtain ⟨-, rfl⟩ := Prod.mk.inj h
              exact hmakes (List.prefix_refl _) hmade
          | error kind =>
              rw [hmade] at h
              obtain ⟨-, rfl⟩ := Prod.mk.inj h
              exact ⟨hfree, hall⟩
  | create path =>
      simp only [FsCall.perform] at h
      cases hplace : choice.guard (t.createPlace path) with
      | error error =>
          rw [hplace] at h
          obtain ⟨-, rfl⟩ := Prod.mk.inj h
          exact ⟨hfree, hall⟩
      | ok place =>
          rw [hplace] at h
          obtain ⟨-, rfl⟩ := Prod.mk.inj h
          have hcreate := (guard_accounted choice _).ok place hplace
          obtain rfl := locate_of_straight (straight_of_onUserPath hfree hord hop) (locate_of_createPlace hcreate)
          exact ⟨hfree.put _ (by simp), allAddressed_of_placed hall hop put_file_new⟩
  | writeAll place offset data =>
      obtain ⟨-, rfl⟩ := Prod.mk.inj h
      split
      · rename_i content hcontent
        refine ⟨hfree.put _ (by simp), fun names hne hnode => hall names hne ?_⟩
        by_cases hp : root ++ names = place
        · rw [hp, hcontent]
          simp
        · rwa [node_put_of_ne hp] at hnode
      · exact ⟨hfree, hall⟩
  | createNew path | removeDirAll path => exact absurd hop id
  | _ => exact absurd trivial hread

/-- What an upload or the making of a directory does to a tree whose entries are all addressed. -/
theorem within_placesOnly (hord : ∀ name ∈ root, Ordinary name) {α : Type} {program : FsProgram α}
    {R : α → Prop} (h : program.Within PlainAnswer (PlacesOnly root) R) (hfree : t.LinkFree)
    (hall : AllAddressed t root) :
    program.Ensures Quietly t fun _ t' => t'.LinkFree ∧ AllAddressed t' root := by
  have hkeeps := h.ensures (H := Quietly) (I := fun v => v.LinkFree ∧ AllAddressed v root) ?_ ⟨hfree, hall⟩
  · exact Program.Ensures.mono hkeeps fun _ _ hkept => hkept.1
  · rintro op v answer v' hop ⟨hv, hv'⟩ ⟨choice, -, hperform⟩
    exact ⟨plainAnswer_of_perform hv hperform, perform_placesOnly hord hop hv hv' hperform⟩

theorem lenient_placesOnly (root : Path) : Lenient (fun _ => True) (PlacesOnly root) where
  reads op hread := by
    cases op with
    | createDirAll | create | createNew | removeDirAll | writeAll => exact absurd hread id
    | _ => trivial
  writes _ _ _ _ := trivial

inductive EntryCommand
  | createDirectory (userPath : String)
  | uploadFile (nonce : FixedBytes 12) (userPath : String) (data : Bytes) (writeVerify : Bool)
  | renameEntry (oldPath newPath : String)
  | deleteEntry (userPath : String)

section Commands

variable (P : Primitives) (mimeFromFilename : String → Option String) (config : AppConfig)
  (unlockState : UnlockState) (libraryId : String)

/-- A command, whatever comes of it. -/
def EntryCommand.program : EntryCommand → EntryProgram Unit
  | createDirectory userPath => do
      let _ ← (amongEntries (FsService.createDirectory config libraryId userPath)).outcome
      return ()
  | uploadFile nonce userPath data writeVerify => do
      let _ ← (amongEntries (uploadFileOwned P mimeFromFilename config unlockState libraryId nonce userPath data
        writeVerify)).outcome
      return ()
  | renameEntry oldPath newPath => do
      let _ ← (FsService.renameEntry config libraryId oldPath newPath).outcome
      return ()
  | deleteEntry userPath => do
      let _ ← (FsService.deleteEntry config libraryId userPath).outcome
      return ()

/-- If the rename goes through, every entry below the source fits under its new path. -/
def RenameFits (t : FileTree) (root : Path) (oldPath newPath : String) : Prop :=
  Renamable t root oldPath newPath → ¬ splitComponents oldPath <+: splitComponents newPath →
    ∀ rest, rest ≠ [] → t.node (root ++ splitComponents oldPath ++ rest) ≠ none →
      (splitComponents newPath ++ rest).length ≤ maxDepth ∧
        ("/".intercalate (splitComponents newPath ++ rest)).utf8ByteSize ≤ maxPathBytes

def EntryCommand.Fits (t : FileTree) (root : Path) : EntryCommand → Prop
  | renameEntry oldPath newPath => RenameFits t root oldPath newPath
  | _ => True

end Commands

/-- A move keeps every entry addressed exactly if the moved subtree fits. -/
theorem moved_addressed_iff {oldPath newPath : String} (hall : AllAddressed t root)
    (hnew : WellFormedPath newPath)
    (hmoved : Moved t t' (root ++ splitComponents oldPath) (root ++ splitComponents newPath)) :
    AllAddressed t' root ↔ ∀ rest, rest ≠ [] → t.node (root ++ splitComponents oldPath ++ rest) ≠ none →
      (splitComponents newPath ++ rest).length ≤ maxDepth ∧
        ("/".intercalate (splitComponents newPath ++ rest)).utf8ByteSize ≤ maxPathBytes := by
  constructor
  · intro hafter rest hrest hnode
    rw [← hmoved.arrived rest, List.append_assoc] at hnode
    have haddressed := hafter (splitComponents newPath ++ rest) (by simp [hrest]) hnode
    exact ⟨haddressed.shallow, haddressed.short⟩
  · intro hfits names hne hnode
    by_cases hdest : root ++ splitComponents newPath <+: root ++ names
    · obtain ⟨rest, rfl⟩ := (List.prefix_append_right_inj root).mp hdest
      rw [← List.append_assoc, hmoved.arrived rest] at hnode
      by_cases hrest : rest = []
      · rw [hrest, List.append_nil]
        exact addressed_of_wellFormed hnew
      · obtain ⟨hshallow, hshort⟩ := hfits rest hrest hnode
        rw [List.append_assoc] at hnode
        have hold := hall (splitComponents oldPath ++ rest) (by simp [hrest]) hnode
        refine ⟨fun name hname => ?_, hshallow, hshort⟩
        rcases List.mem_append.mp hname with hname | hname
        · exact (addressed_of_wellFormed hnew).valid name hname
        · exact hold.valid name (List.mem_append_right _ hname)
    · have hsource : ¬ root ++ splitComponents oldPath <+: root ++ names := by
        rintro ⟨rest, hrest⟩
        rw [← hrest, hmoved.gone rest] at hnode
        exact hnode rfl
      rcases hmoved.elsewhere _ hsource hdest with hsame | ⟨-, -, hpre⟩
      · rw [hsame] at hnode
        exact hall names hne hnode
      · obtain ⟨back, hback⟩ := (List.prefix_append_right_inj root).mp hpre
        have haddressed := addressed_of_wellFormed hnew
        rw [← hback] at haddressed
        exact haddressed.front hne

theorem not_renamable_of_missing {oldPath newPath : String} (hmissing : t.node root = none) :
    ¬ Renamable t root oldPath newPath := fun h =>
  h.present (node_append_of_not_dir (by rw [hmissing]; simp) (splitComponents_ne_nil oldPath))

theorem renameIn_addressed_iff (hord : ∀ name ∈ root, Ordinary name) (hfree : t.LinkFree)
    (hall : AllAddressed t root) (kind oldPath newPath : String) :
    (renameIn kind root oldPath newPath).Ensures EntryQuietly t fun _ t' =>
      t'.LinkFree ∧ (AllAddressed t' root ↔ RenameFits t root oldPath newPath) := by
  have hrejected : ∀ {error}, ¬ Renamable t root oldPath newPath →
      (renameIn kind root oldPath newPath).Stops EntryQuietly t (.error error) t →
        (renameIn kind root oldPath newPath).Ensures EntryQuietly t fun _ t' =>
          t'.LinkFree ∧ (AllAddressed t' root ↔ RenameFits t root oldPath newPath) := by
    intro error hnot hstops
    refine Program.Ensures.mono hstops ?_
    rintro result t' ⟨-, rfl⟩
    exact ⟨hfree, fun _ hrenamable => absurd hrenamable hnot, fun _ => hall⟩
  rcases canonicalize_plain (hfree.straight hord) with ⟨-, hroot⟩ | ⟨hmissing, why, hroot⟩
  · by_cases h : Renamable t root oldPath newPath
    · obtain ⟨made, hmade, hframe, hends⟩ := renameIn_stops hfree hroot kind h
      by_cases hinside : splitComponents oldPath <+: splitComponents newPath
      · rw [if_pos hinside] at hends
        obtain ⟨error, hstops⟩ := hends
        refine Program.Ensures.mono hstops ?_
        rintro result t' ⟨-, rfl⟩
        refine ⟨hfree.createDirs hmade, fun _ _ hnot => absurd hinside hnot, fun _ => ?_⟩
        refine allAddressed_of_placed hall ⟨newPath, h.dest.wellFormed, List.prefix_refl _⟩ fun p hnode => ?_
        rw [hframe] at hnode
        split at hnode
        · rename_i hpre
          exact Or.inr (hpre.trans (List.dropLast_prefix _))
        · exact Or.inl hnode
      · rw [if_neg hinside] at hends
        obtain ⟨hmovable, hstops⟩ := hends
        refine Program.Ensures.mono hstops ?_
        rintro result t' ⟨-, rfl⟩
        have hmoved := moved_of_made hmovable h.present h.vacant hframe fun p hp =>
          none_or_dir_above hfree hroot h.dest hp
        refine ⟨(hfree.createDirs hmade).move _ _, ?_⟩
        rw [moved_addressed_iff hall h.dest.wellFormed hmoved]
        exact ⟨fun hfits _ _ => hfits, fun hfits => hfits h hinside⟩
    · obtain ⟨error, hstops⟩ := renameIn_rejects hfree hroot kind h
      exact hrejected h hstops
  · obtain ⟨error, hstops⟩ := renameIn_no_root hroot kind oldPath newPath
    exact hrejected (not_renamable_of_missing hmissing) hstops

theorem removeAll_addressed (hall : AllAddressed t root) (path : Path) : AllAddressed (t.removeAll path) root := by
  intro names hne hnode
  by_cases hbelow : path <+: root ++ names
  · by_cases hnil : path = []
    · rw [removeAll, dif_pos hnil] at hnode
      exact hall names hne hnode
    · rw [node_removeAll_of_below hnil hbelow] at hnode
      exact absurd rfl hnode
  · rw [node_removeAll_of_not_below hbelow] at hnode
    exact hall names hne hnode

theorem deleteIn_addressed (hord : ∀ name ∈ root, Ordinary name) (hfree : t.LinkFree)
    (hall : AllAddressed t root) (kind userPath : String) :
    (deleteIn kind root userPath).Ensures EntryQuietly t fun _ t' => t'.LinkFree ∧ AllAddressed t' root := by
  rcases canonicalize_plain (hfree.straight hord) with ⟨-, hroot⟩ | ⟨-, why, hroot⟩
  · cases hnamed : namedEntry t root userPath with
    | none =>
        obtain ⟨error, hstops⟩ := deleteIn_rejects hfree hroot kind hnamed
        refine Program.Ensures.mono hstops ?_
        rintro result t' ⟨-, rfl⟩
        exact ⟨hfree, hall⟩
    | some entry =>
        refine Program.Ensures.mono (deleteIn_stops hfree hroot kind hnamed) ?_
        rintro result t' ⟨-, rfl⟩
        exact ⟨hfree.removeAll entry, removeAll_addressed hall entry⟩
  · obtain ⟨error, hstops⟩ := deleteIn_no_root hroot kind userPath
    refine Program.Ensures.mono hstops ?_
    rintro result t' ⟨-, rfl⟩
    exact ⟨hfree, hall⟩

section Commands

variable {P : Primitives} {mimeFromFilename : String → Option String} {config : AppConfig}
  {unlockState : UnlockState} {libraryId : String}

/-- One command keeps every entry addressed exactly if what it moves fits. -/
theorem EntryCommand.addressed_iff (hord : ∀ name ∈ libraryRoot config libraryId, Ordinary name)
    (command : EntryCommand) (hfree : t.LinkFree) (hall : AllAddressed t (libraryRoot config libraryId)) :
    (command.program P mimeFromFilename config unlockState libraryId).Ensures EntryQuietly t fun _ t' =>
      t'.LinkFree ∧
        (AllAddressed t' (libraryRoot config libraryId) ↔ command.Fits t (libraryRoot config libraryId)) := by
  have hjoin : ∀ userPath, (safeJoin (libraryRoot config libraryId) userPath).Within PlainAnswer FsCall.ReadOnly
      (OnUserPath (libraryRoot config libraryId)) := fun userPath =>
    (safeJoin_plain_within hord userPath).mono (fun _ hop => hop) fun target ⟨hwell, htarget⟩ =>
      ⟨userPath, hwell, by rw [htarget]⟩
  have hparent : ∀ target, OnUserPath (libraryRoot config libraryId) target →
      PlacesOnly (libraryRoot config libraryId) (.createDirAll target.dropLast) := by
    rintro target ⟨userPath, hwell, hpre⟩
    exact ⟨userPath, hwell, (List.dropLast_prefix _).trans hpre⟩
  cases command with
  | createDirectory userPath =>
      have hwithin := createDirectoryIn_within (lenient_placesOnly _) (hjoin userPath) fun target htarget => htarget
      refine Program.Ensures.outcome_bind (amongEntries_ensures (within_placesOnly hord hwithin hfree hall)) ?_
      exact fun result t' hkept => ⟨hkept.1, fun _ => trivial, fun _ => hkept.2⟩
  | uploadFile nonce userPath data writeVerify =>
      have hwithin : (uploadFileOwned P mimeFromFilename config unlockState libraryId nonce userPath data
          writeVerify).Within PlainAnswer (PlacesOnly (libraryRoot config libraryId)) fun _ => True :=
        uploadOwned_within (lenient_placesOnly _) (requireDataKey unlockState libraryId) nonce data writeVerify
          (hjoin userPath) hparent fun target htarget => htarget
      refine Program.Ensures.outcome_bind (amongEntries_ensures (within_placesOnly hord hwithin hfree hall)) ?_
      exact fun result t' hkept => ⟨hkept.1, fun _ => trivial, fun _ => hkept.2⟩
  | renameEntry oldPath newPath =>
      refine Program.Ensures.outcome_bind (renameIn_addressed_iff hord hfree hall "library" oldPath newPath) ?_
      exact fun result t' hkept => hkept
  | deleteEntry userPath =>
      refine Program.Ensures.outcome_bind (deleteIn_addressed hord hfree hall "library" userPath) ?_
      exact fun result t' hkept => ⟨hkept.1, fun _ => trivial, fun _ => hkept.2⟩

end Commands

/-! ### Whole runs -/

section Runs

variable (P : Primitives) (mimeFromFilename : String → Option String) (config : AppConfig)
  (unlockState : UnlockState) (oracle : Nat → Choice) (libraryId : String)

/-- The disk after a command. -/
def EntryCommand.after (command : EntryCommand) (disk : Disk) : Disk :=
  ((command.program P mimeFromFilename config unlockState libraryId).run (entryHandler oracle) disk).2

/-- A property of every state that the commands reach, one after the other. -/
def EveryState (Q : Disk → Prop) : List EntryCommand → Disk → Prop
  | [], disk => Q disk
  | command :: rest, disk => Q disk ∧
      EveryState Q rest (command.after P mimeFromFilename config unlockState oracle libraryId disk)

/-- Whatever the commands move fits, each in the state it is given. -/
def EveryStepFits : List EntryCommand → Disk → Prop
  | [], _ => True
  | command :: rest, disk => command.Fits disk.tree (libraryRoot config libraryId) ∧
      EveryStepFits rest (command.after P mimeFromFilename config unlockState oracle libraryId disk)

end Runs

/-- The path of every entry below the root, its names joined, is accepted and resolves to the entry. -/
def Addressable (root : Path) (disk : Disk) : Prop :=
  ∀ names, names ≠ [] → disk.tree.node (root ++ names) ≠ none → ∀ oracle, QuietOracle oracle →
    ((safeJoin root ("/".intercalate names)).run (fsHandler oracle) disk).1 = .ok (root ++ names)

theorem addressable_iff {disk : Disk} (hord : ∀ name ∈ root, Ordinary name) (hfree : disk.tree.LinkFree) :
    Addressable root disk ↔ AllAddressed disk.tree root := by
  have hroot : ∀ names, names ≠ [] → disk.tree.node (root ++ names) ≠ none →
      disk.tree.canonicalize root = .ok root := by
    intro names hne hnode
    have hdir := node_above (List.prefix_append root names) (by simpa using hne) hnode
    have hexists : disk.tree.node root ≠ none := by simp [hdir]
    exact canonicalize_of_resolved (resolved_of_straight (hfree.straight hord) hexists) hexists
  constructor
  · intro h names hne hnode
    have hjoin := h names hne hnode calmOracle calmOracle_quiet
    obtain ⟨hiff, heq⟩ := safeJoin_accepts_iff calmOracle calmOracle_quiet disk hfree root root
      (hroot names hne hnode) ("/".intercalate names)
    rw [List.append_cancel_left (heq _ hjoin)]
    exact addressed_of_wellFormed (hiff.mp ⟨_, hjoin⟩).1
  · intro hall names hne hnode oracle hquiet
    obtain ⟨hwell, hsplit⟩ := (hall names hne hnode).wellFormed hne
    have haccepts : Accepts disk.tree root ("/".intercalate names) :=
      accepts_of_exists hwell (by rw [hsplit]; exact hnode)
    have hstops := safeJoin_plain hfree (hroot names hne hnode) haccepts
    rw [hsplit] at hstops
    exact (run_of_stops hquiet hstops).1

section Runs

variable {P : Primitives} {mimeFromFilename : String → Option String} {config : AppConfig}
  {unlockState : UnlockState} {oracle : Nat → Choice} {libraryId : String}

theorem EveryState.here {Q : Disk → Prop} {commands : List EntryCommand} {disk : Disk}
    (h : EveryState P mimeFromFilename config unlockState oracle libraryId Q commands disk) : Q disk := by
  cases commands with
  | nil => exact h
  | cons command rest => exact h.1

theorem EntryCommand.after_addressed_iff (hquiet : QuietOracle oracle)
    (hord : ∀ name ∈ libraryRoot config libraryId, Ordinary name) (command : EntryCommand) {disk : Disk}
    (hfree : disk.tree.LinkFree) (hall : AllAddressed disk.tree (libraryRoot config libraryId)) :
    (command.after P mimeFromFilename config unlockState oracle libraryId disk).tree.LinkFree ∧
      (AllAddressed (command.after P mimeFromFilename config unlockState oracle libraryId disk).tree
          (libraryRoot config libraryId) ↔
        command.Fits disk.tree (libraryRoot config libraryId)) :=
  run_of_entry_ensures hquiet (command.addressed_iff hord hfree hall)

/-- The run lemma: from a state whose entries are all addressed. -/
theorem everyState_iff (hquiet : QuietOracle oracle) (hord : ∀ name ∈ libraryRoot config libraryId, Ordinary name)
    (commands : List EntryCommand) : ∀ {disk : Disk}, disk.tree.LinkFree →
      AllAddressed disk.tree (libraryRoot config libraryId) →
        (EveryState P mimeFromFilename config unlockState oracle libraryId
            (Addressable (libraryRoot config libraryId)) commands disk ↔
          EveryStepFits P mimeFromFilename config unlockState oracle libraryId commands disk) := by
  induction commands with
  | nil =>
      intro disk hfree hall
      exact ⟨fun _ => trivial, fun _ => (addressable_iff hord hfree).mpr hall⟩
  | cons command rest ih =>
      intro disk hfree hall
      obtain ⟨hfree', hiff⟩ := command.after_addressed_iff hquiet hord hfree hall
      constructor
      · rintro ⟨-, hlater⟩
        have hall' := (addressable_iff hord hfree').mp hlater.here
        exact ⟨hiff.mp hall', (ih hfree' hall').mp hlater⟩
      · rintro ⟨hfits, hlater⟩
        exact ⟨(addressable_iff hord hfree).mpr hall, (ih hfree' (hiff.mpr hfits)).mpr hlater⟩

end Runs

/-- Stored entries stay addressable: from an empty root, through any run of the calls that make directories,
upload, rename and delete, the path of every entry is accepted and resolves to it in every state reached,
exactly as long as every moved subtree fits below its new path. The operating system reports no error of its own, as it
would for an absolute path above its length limit. -/
theorem entries_addressable_iff (P : Primitives) (mimeFromFilename : String → Option String) (config : AppConfig)
    (unlockState : UnlockState) (oracle : Nat → Choice) (hquiet : QuietOracle oracle) (libraryId : String)
    (hord : ∀ name ∈ libraryRoot config libraryId, Ordinary name) (disk : Disk) (hfree : disk.tree.LinkFree)
    (hempty : ∀ names, names ≠ [] → disk.tree.node (libraryRoot config libraryId ++ names) = none)
    (commands : List EntryCommand) :
    EveryState P mimeFromFilename config unlockState oracle libraryId
        (Addressable (libraryRoot config libraryId)) commands disk ↔
      EveryStepFits P mimeFromFilename config unlockState oracle libraryId commands disk :=
  everyState_iff hquiet hord commands hfree fun names hne hnode => absurd (hempty names hne) hnode

/-- A directory that no file stands in the way of is made with its parents. -/
theorem createDirectoryIn_stops {place : Path} {userPath : String} (hfree : t.LinkFree)
    (hroot : t.canonicalize root = .ok place) (haccepts : Accepts t place userPath)
    (hfile : ∀ content, t.node (place ++ splitComponents userPath) ≠ some (.file content)) :
    ∃ made, (createDirectoryIn root userPath).Stops Quietly t (.ok userPath) made ∧
      ∀ p, made.node p = if p <+: place ++ splitComponents userPath then some .dir else t.node p := by
  have hstraight := straight_join hfree hroot haccepts.wellFormed
  have hpass : ∀ p, p <+: place ++ splitComponents userPath → ∀ content, t.node ([] ++ p) ≠ some (.file content) := by
    intro p hp content
    rw [List.nil_append]
    by_cases heq : p = place ++ splitComponents userPath
    · rw [heq]
      exact hfile content
    · exact haccepts.parent_passable hfree hroot (prefix_dropLast_of_ne hp heq) content
  obtain ⟨made, hmade, hnodes⟩ := createDirs_plain _ hfree resolved_root t.root hstraight.ordinary hpass
  refine ⟨made, ?_, fun p => by simpa using hnodes p⟩
  have hcall : (fsCall (.createDirAll (place ++ splitComponents userPath))).Stops Quietly t (.ok (.ok ())) made :=
    fsCall_stops fun choice hquiet => by
      have hfault : choice.fault = none := hquiet
      simp only [FsCall.perform, hfault, hmade]
  rw [createDirectoryIn, if_neg haccepts.wellFormed.nonempty]
  exact (safeJoin_plain hfree hroot haccepts).bind (hcall.bind ⟨rfl, rfl⟩)

theorem createDirectory_command_stops {P : Primitives} {mimeFromFilename : String → Option String}
    {config : AppConfig} {unlockState : UnlockState} {libraryId userPath : String}
    (h : (createDirectoryIn (libraryRoot config libraryId) userPath).Stops Quietly t (.ok userPath) t') :
    ((EntryCommand.createDirectory userPath).program P mimeFromFilename config unlockState libraryId).Stops
      EntryQuietly t (.ok ()) t' :=
  (amongEntries_stops h).outcome.bind (Program.stops_done () t')

/-- An empty library. -/
def emptyLibrary : Disk where
  tree := (FileTree.empty.put ["libraries"] .dir).put ["libraries", "l"] .dir
  tick := 0

theorem emptyLibrary_node (p : Path) : emptyLibrary.tree.node p =
    if p = ["libraries", "l"] then some .dir else if p = ["libraries"] then some .dir
      else if p = [] then some .dir else none := by
  have houter : FileTree.empty.Admits ["libraries"] := by decide
  have hinner : (FileTree.empty.put ["libraries"] .dir).Admits ["libraries", "l"] := by decide
  rw [emptyLibrary, node_put hinner, node_put houter]
  rfl

theorem emptyLibrary_no_file (p : Path) (content : Bytes) : emptyLibrary.tree.node p ≠ some (.file content) := by
  rw [emptyLibrary_node]
  split
  · simp
  · split
    · simp
    · split <;> simp

theorem emptyLibrary_linkFree : emptyLibrary.tree.LinkFree := by
  intro p absolute target
  rw [emptyLibrary_node]
  split
  · simp
  · split
    · simp
    · split <;> simp

theorem emptyLibrary_empty (names : List String) (hne : names ≠ []) :
    emptyLibrary.tree.node (["libraries", "l"] ++ names) = none := by
  obtain ⟨first, rest, rfl⟩ := List.exists_cons_of_ne_nil hne
  rw [emptyLibrary_node]
  simp

theorem pathName_x : PathName "x" :=
  ⟨(validateComponent_ok_iff "x").mp (by decide), by decide, by decide⟩

/-- As deep as a path may be. -/
def deepNames : List String := List.replicate 128 "x"

theorem deepNames_addressed : Addressed deepNames where
  valid name hname := by
    rw [List.eq_of_mem_replicate hname]
    exact pathName_x
  shallow := by rw [deepNames, List.length_replicate]
  short := by
    have hjoined := utf8ByteSize_intercalate deepNames (by simp [deepNames])
    have hsize : "x".utf8ByteSize = 1 := by decide
    simp only [joinedBytes, deepNames, List.map_replicate, hsize, List.sum_replicate_nat] at hjoined
    show ("/".intercalate deepNames).utf8ByteSize ≤ 4096
    rw [deepNames]
    omega

theorem wellFormed_of_parse {userPath : String} {components : List String}
    (h : parseUserPath userPath = .ok components) : WellFormedPath userPath ∧ splitComponents userPath = components :=
  ⟨((parseUserPath_ok_iff userPath components).mp h).1, ((parseUserPath_ok_iff userPath components).mp h).2.symm⟩

theorem accepts_of_no_file {place : Path} {userPath : String} (hwell : WellFormedPath userPath)
    (hfile : ∀ p content, t.node p ≠ some (.file content)) : Accepts t place userPath :=
  ⟨hwell, fun _ _ _ content => hfile _ content⟩

/-- The top of the deep directory may move, but what is below it does not fit. -/
theorem deep_rename_unfit {made : FileTree}
    (hmade : ∀ p, made.node p = if p <+: ["libraries", "l"] ++ deepNames then some .dir else emptyLibrary.tree.node p) :
    ¬ RenameFits made ["libraries", "l"] "x" "y/x" := by
  intro hfits
  have hfile : ∀ p content, made.node p ≠ some (.file content) := by
    intro p content
    rw [hmade]
    split
    · simp
    · exact emptyLibrary_no_file p content
  obtain ⟨hold, holdNames⟩ := wellFormed_of_parse (show parseUserPath "x" = .ok ["x"] by decide)
  obtain ⟨hnew, hnewNames⟩ := wellFormed_of_parse (show parseUserPath "y/x" = .ok ["y", "x"] by decide)
  have hdeep : deepNames = "x" :: List.replicate 127 "x" := by rw [deepNames, List.replicate_succ]
  have hrenamable : Renamable made ["libraries", "l"] "x" "y/x" := by
    refine ⟨accepts_of_no_file hold hfile, accepts_of_no_file hnew hfile, ?_, ?_⟩
    · rw [holdNames, hmade, if_pos (by rw [hdeep]; simp)]
      simp
    · rw [hnewNames, hmade, if_neg (by rw [hdeep]; simp)]
      exact emptyLibrary_empty ["y", "x"] (by simp)
  have hunder := hfits hrenamable (by rw [holdNames, hnewNames]; simp) (List.replicate 127 "x")
    (by simp) (by rw [holdNames, hmade, if_pos (by rw [hdeep]; simp)]; simp)
  have hdepth : (splitComponents "y/x" ++ List.replicate 127 "x").length ≤ 128 := hunder.1
  rw [hnewNames, List.length_append, List.length_replicate] at hdepth
  simp at hdepth

/-- A directory of the full depth, and a move of its top one level down. -/
def deepCommands (userPath : String) : List EntryCommand :=
  [.createDirectory userPath, .renameEntry "x" "y/x"]

theorem deepCommands_unfit {userPath : String} (hwell : WellFormedPath userPath)
    (hsplit : splitComponents userPath = deepNames) :
    ¬ EveryStepFits plainPrimitives (fun _ => none) sampleConfig sampleUnlocked calmOracle "l"
      (deepCommands userPath) emptyLibrary := by
  rintro ⟨-, hsecond, -⟩
  have hroot : emptyLibrary.tree.canonicalize (libraryRoot sampleConfig "l") = .ok ["libraries", "l"] := by decide
  obtain ⟨made, hstops, hmade⟩ := createDirectoryIn_stops emptyLibrary_linkFree hroot
    (accepts_of_no_file hwell emptyLibrary_no_file) fun content => emptyLibrary_no_file _ content
  rw [hsplit] at hmade
  have hprogram : ((EntryCommand.createDirectory userPath).program plainPrimitives (fun _ => none) sampleConfig
      sampleUnlocked "l").Stops EntryQuietly emptyLibrary.tree (.ok ()) made :=
    createDirectory_command_stops hstops
  obtain ⟨-, htree⟩ := run_of_entry_stops calmOracle_quiet hprogram
  refine deep_rename_unfit hmade ?_
  rw [← htree]
  exact hsecond

/-- After the move the entry at the bottom is 129 names deep, which no path may be. -/
theorem entries_addressable_too_deep :
    ¬ ∀ (P : Primitives) (mimeFromFilename : String → Option String) (config : AppConfig)
      (unlockState : UnlockState) (oracle : Nat → Choice), QuietOracle oracle → ∀ libraryId : String,
        (∀ name ∈ libraryRoot config libraryId, Ordinary name) → ∀ disk : Disk, disk.tree.LinkFree →
          (∀ names, names ≠ [] → disk.tree.node (libraryRoot config libraryId ++ names) = none) →
            ∀ commands : List EntryCommand,
              EveryState P mimeFromFilename config unlockState oracle libraryId
                (Addressable (libraryRoot config libraryId)) commands disk := by
  intro h
  have hall : AllAddressed emptyLibrary.tree (libraryRoot sampleConfig "l") := fun names hne hnode =>
    absurd (emptyLibrary_empty names hne) hnode
  obtain ⟨hwell, hsplit⟩ := deepNames_addressed.wellFormed (by simp [deepNames])
  generalize "/".intercalate deepNames = userPath at hwell hsplit
  refine deepCommands_unfit hwell hsplit ?_
  have hrun := h plainPrimitives (fun _ => none) sampleConfig sampleUnlocked calmOracle calmOracle_quiet "l"
    sampleRoot_ordinary emptyLibrary emptyLibrary_linkFree emptyLibrary_empty (deepCommands userPath)
  exact (everyState_iff calmOracle_quiet sampleRoot_ordinary _ emptyLibrary_linkFree hall).mp hrun

/-- A run in which everything fits. -/
def shallowCommands : List EntryCommand :=
  [.createDirectory "x", .renameEntry "x" "y/x", .deleteEntry "y"]

theorem entries_addressable_shallow :
    EveryState plainPrimitives (fun _ => none) sampleConfig sampleUnlocked calmOracle "l"
        (Addressable (libraryRoot sampleConfig "l")) shallowCommands emptyLibrary ↔
      EveryStepFits plainPrimitives (fun _ => none) sampleConfig sampleUnlocked calmOracle "l" shallowCommands
        emptyLibrary :=
  entries_addressable_iff plainPrimitives (fun _ => none) sampleConfig sampleUnlocked calmOracle calmOracle_quiet
    "l" sampleRoot_ordinary emptyLibrary emptyLibrary_linkFree emptyLibrary_empty shallowCommands

end IronDrive
