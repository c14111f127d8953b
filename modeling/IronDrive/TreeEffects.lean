import IronDrive.CreationFailures
import IronDrive.EntryEffects
import IronDrive.FileRequests

/-! What the operations on accounts, groups and spaces do to the trees of files, when neither the disk nor the database
fails: an operation opens one new tree, closes one that was there, or keeps them all. -/

namespace IronDrive

open Lib FileTree CryptoService

/-- The library or the space has its row. -/
def Db.Has (db : Db) : UserTree → Prop
  | .library id => id ∈ db.libraries.rows.map PersonalLibrary.id
  | .space id => id ∈ db.spaces.rows.map Space.id

instance (db : Db) (tree : UserTree) : Decidable (db.Has tree) := by
  cases tree <;> unfold Db.Has <;> infer_instance

/-- The trees, what is on the disk and the keys in memory are as they were. -/
structure TreesKept (v v' : FileTree × Records) : Prop where
  files : v'.1 = v.1
  has : ∀ tree, v'.2.db.Has tree ↔ v.2.db.Has tree
  keys : ∀ tree : UserTree, tree.key v'.2.unlockState = tree.key v.2.unlockState

/-- A new tree: it has a row, an empty directory and a key. -/
structure TreeOpened (config : AppConfig) (id : String) (v v' : FileTree × Records) (tree : UserTree) : Prop where
  id : tree.id = id
  fresh : ¬ v.2.db.Has tree
  files : ∃ content, v'.1 = furnish v.1 (tree.root config) content
  has : ∀ other, v'.2.db.Has other ↔ other = tree ∨ v.2.db.Has other
  keys : ∀ other : UserTree, other ≠ tree → other.key v'.2.unlockState = other.key v.2.unlockState

/-- A tree that is gone, with all that it held. -/
structure TreeClosed (config : AppConfig) (v v' : FileTree × Records) (tree : UserTree) : Prop where
  files : v'.1 = v.1.removeAll (tree.root config)
  has : ∀ other, v'.2.db.Has other ↔ other ≠ tree ∧ v.2.db.Has other
  keys : ∀ other : UserTree, other ≠ tree → other.key v'.2.unlockState = other.key v.2.unlockState

inductive TreeEffect (config : AppConfig) (id : String) (v v' : FileTree × Records) : Prop
  | kept (h : TreesKept v v')
  | opened (tree : UserTree) (h : TreeOpened config id v v' tree)
  | closed (tree : UserTree) (h : TreeClosed config v v' tree)

variable {F : Choice → Prop} {P : Primitives} {config : AppConfig} {masterKey : MasterKey} {drawn : Drawn}
  {v v' : FileTree × Records} {db db' : Db} {n : Nat} {actor spaceId : String}

namespace TreesKept

theorem refl (v : FileTree × Records) : TreesKept v v := ⟨rfl, fun _ => Iff.rfl, fun _ => rfl⟩

theorem of_ids (hlibraries : db'.libraries.rows.map PersonalLibrary.id = v.2.db.libraries.rows.map PersonalLibrary.id)
    (hspaces : db'.spaces.rows.map Space.id = v.2.db.spaces.rows.map Space.id) :
    TreesKept v (v.1, { v.2 with db := db' }) where
  files := rfl
  has tree := by
    cases tree with
    | library id => simp only [Db.Has, hlibraries]
    | space id => simp only [Db.Has, hspaces]
  keys _ := rfl

/-- A statement on the other tables. -/
theorem of_same (hlibraries : db'.libraries = v.2.db.libraries) (hspaces : db'.spaces = v.2.db.spaces) :
    TreesKept v (v.1, { v.2 with db := db' }) :=
  of_ids (by rw [hlibraries]) (by rw [hspaces])

theorem of_onDb {effect : Db → Db → Prop} (h : OnDb effect v v')
    (hframe : ∀ db', effect v.2.db db' → db'.libraries = v.2.db.libraries ∧ db'.spaces = v.2.db.spaces) :
    TreesKept v v' := by
  obtain ⟨db', rfl, heffect⟩ := h
  obtain ⟨hlibraries, hspaces⟩ := hframe db' heffect
  exact of_same hlibraries hspaces

end TreesKept

theorem createDirectory_stops {t : FileTree} {base : Path} {name : String} (h : t.Vacant base name) (kind id : String) :
    ∃ content, (createDirectory kind (base ++ [name]) id).Stops Quietly t (.ok ())
      (furnish t (base ++ [name]) content) := by
  set dir := base ++ [name] with hdir
  have hmade : (t.put dir .dir).node dir = some .dir := node_put_self h.admits .dir
  have hplace : (t.put dir .dir).Resolved dir := (extends_put_dir h.missing).resolved h.place
  have hnone : (t.put dir .dir).node (dir ++ [metaFilename]) = none := by
    rw [node_put_of_ne (by simp)]
    exact node_append_of_not_dir (by rw [h.missing]; simp) (by simp)
  have hmeta : (t.put dir .dir).Resolved (dir ++ [metaFilename]) :=
    hplace.snoc hmade ordinary_metaFilename (by simp [hnone])
  have hfile : (t.put dir .dir).node (dir ++ [metaFilename]) ≠ some .dir := by
    rw [hnone]
    simp
  have hadmits : (t.put dir .dir).Admits (dir ++ [metaFilename]) :=
    ⟨by simp, by rw [List.dropLast_concat]; exact hmade, hfile⟩
  let text := utf8 ("type = \"" ++ kind ++ "\"\nid = \"" ++ id ++ "\"\ncreated_by = \"irondrive\"\n")
  have hempty : ((t.put dir .dir).put (dir ++ [metaFilename]) (.file [])).node (dir ++ [metaFilename]) =
      some (.file []) := node_put_self hadmits (.file [])
  have hwrite := OpenFile.writeAll_stops ⟨dir ++ [metaFilename], 0⟩ (fun e =>
    .internal ("Failed to write meta file '" ++ displayPath (dir ++ [metaFilename]) ++ "': " ++ e.message)) hempty text
  rw [put_put hadmits] at hwrite
  refine ⟨writeAt [] 0 text, (createDirAll_stops h.createDirs).bind ?_⟩
  exact (createFile_stops (createPlace_of_resolved hmeta hfile)).bind (hwrite.bind (Program.stops_done _ _))

theorem has_insertSpace {row : Space} (h : Db.insertSpace row db = .ok (n, db')) :
    ¬ db.Has (.space row.id) ∧ ∀ other, db'.Has other ↔ other = .space row.id ∨ db.Has other := by
  obtain ⟨hid, htables⟩ := Db.insertSpace_ok h
  refine ⟨hid, fun other => ?_⟩
  cases other with
  | library id => simp [Db.Has, htables]
  | space id => simp [Db.Has, htables, Table.insert, or_comm, eq_comm]

theorem has_insertLibrary {row : PersonalLibrary} (h : Db.insertLibrary row db = .ok (n, db')) :
    ¬ db.Has (.library row.id) ∧ ∀ other, db'.Has other ↔ other = .library row.id ∨ db.Has other := by
  obtain ⟨hid, htables⟩ := Db.insertLibrary_ok h
  refine ⟨hid, fun other => ?_⟩
  cases other with
  | library id => simp [Db.Has, htables, Table.insert, or_comm, eq_comm]
  | space id => simp [Db.Has, htables]

theorem has_deleteSpace {id : String} (h : Db.deleteSpace id db = .ok (n, db')) (other : UserTree) :
    db'.Has other ↔ other ≠ .space id ∧ db.Has other := by
  have htables := Db.deleteSpace_ok h
  cases other with
  | library id => simp [Db.Has, htables]
  | space other =>
      simp only [Db.Has, htables, List.mem_map, Table.mem_deleteWhere, decide_eq_false_iff_not, ne_eq,
        UserTree.space.injEq]
      constructor
      · intro hrow
        obtain ⟨row, ⟨hrow, hne⟩, rfl⟩ := hrow
        exact ⟨hne, row, hrow, rfl⟩
      · intro hrow
        obtain ⟨hne, row, hrow, rfl⟩ := hrow
        exact ⟨row, ⟨hrow, hne⟩, rfl⟩

/-- A deletion that applies to some row. -/
theorem has_of_deleteSpace {id : String} (h : Db.deleteSpace id db = .ok (n, db')) (hcount : n ≠ 0) :
    db.Has (.space id) := by
  have hn : Db.affected db.spaces.rows (·.id = id) = n := (Prod.mk.inj (Except.ok.inj h)).1
  rw [← hn, Db.affected, Ne, List.length_eq_zero_iff] at hcount
  obtain ⟨row, hrow⟩ := List.exists_mem_of_ne_nil _ hcount
  obtain ⟨hmem, hid⟩ := List.mem_filter.mp hrow
  exact List.mem_map.mpr ⟨row, hmem, by simpa using hid⟩

theorem key_insertSpaceKey (unlockState : UnlockState) {id : String} (key : DataKey) {other : UserTree}
    (hne : other ≠ .space id) : other.key (unlockState.insertSpaceKey id key) = other.key unlockState := by
  cases other with
  | library id => rfl
  | space other => exact Function.update_of_ne (fun heq => hne (by rw [heq])) _ _

theorem key_removeSpaceKey (unlockState : UnlockState) {id : String} {other : UserTree} (hne : other ≠ .space id) :
    other.key (unlockState.removeSpaceKey id) = other.key unlockState := by
  cases other with
  | library id => rfl
  | space other => exact Function.update_of_ne (fun heq => hne (by rw [heq])) _ _

theorem key_insertLibraryKey (unlockState : UnlockState) {id : String} (key : DataKey) {other : UserTree}
    (hne : other ≠ .library id) : other.key (unlockState.insertLibraryKey id key) = other.key unlockState := by
  cases other with
  | library other => exact Function.update_of_ne (fun heq => hne (by rw [heq])) _ _
  | space id => rfl

theorem createOwned_tree (hvacant : v.1.Vacant (config.dataDir ++ ["spaces"]) drawn.id)
    {ownerType ownerId name : String} :
    (SpaceService.createOwned P config masterKey drawn ownerType ownerId name).Ensures (Serves Choice.Quiet Calm) v
      fun _ v' => TreeEffect config drawn.id v v' := by
  have hkept : TreeEffect config drawn.id v v := .kept (.refl v)
  refine Program.ensures_ofExcept_bind (fun blob _ => ?_) fun _ _ => hkept
  set space := Space.ofParams drawn ⟨name, ownerType, ownerId, "server", blob⟩ with hspace
  have hcreate : (Space.create drawn ⟨name, ownerType, ownerId, "server", blob⟩).Ensures (Serves Choice.Quiet Calm) v
      fun result v' => (∃ n db', result = .ok space ∧ Db.insertSpace space v.2.db = .ok (n, db') ∧
        v' = (v.1, { v.2 with db := db' })) ∨ (∃ error, result = .error error) ∧ v' = v := by
    apply space_create_ensures
    · intro n db' h
      exact Or.inl ⟨n, db', rfl, h, rfl⟩
    · intro n db' message hcalm
      cases hcalm
    · intro error
      exact Or.inr ⟨⟨error, rfl⟩, rfl⟩
  have hroot : FsService.spaceRoot config space.id = (config.dataDir ++ ["spaces"]) ++ [drawn.id] := by
    simp [FsService.spaceRoot, hspace, Space.ofParams]
  refine hcreate.bind (fun found v' h => ?_) fun error v' h => ?_
  · obtain ⟨n, made, hfound, hinsert, rfl⟩ | ⟨⟨error, herror⟩, -⟩ := h
    · obtain rfl : found = space := Except.ok.inj hfound
      obtain ⟨content, hdirectory⟩ := createDirectory_stops hvacant "space" space.id
      rw [← hroot] at hdirectory
      refine onFiles_outcome_bind hdirectory fun result tree h => ?_
      obtain ⟨rfl, rfl⟩ := h
      apply changeKeys_bind
      obtain ⟨hfresh, hhas⟩ := has_insertSpace hinsert
      exact .opened (.space drawn.id) ⟨rfl, hfresh, ⟨content, rfl⟩, hhas, fun other => key_insertSpaceKey _ _⟩
    · cases herror
  · obtain ⟨_, _, hresult, -⟩ | ⟨-, rfl⟩ := h
    · cases hresult
    · exact hkept

theorem createSpace_tree (hvacant : v.1.Vacant (config.dataDir ++ ["spaces"]) drawn.id) {ownerId name : String} :
    (SpaceService.createSpace P config masterKey drawn ownerId name).Ensures (Serves Choice.Quiet Calm) v
      fun _ v' => TreeEffect config drawn.id v v' :=
  Program.ensures_ofExcept_bind (fun _ _ => createOwned_tree hvacant) fun _ _ => .kept (.refl v)

theorem createGroupSpace_tree (hvacant : v.1.Vacant (config.dataDir ++ ["spaces"]) drawn.id)
    {groupId name : String} :
    (SpaceService.createGroupSpace P config masterKey drawn groupId name).Ensures (Serves Choice.Quiet Calm) v
      fun _ v' => TreeEffect config drawn.id v v' := by
  refine Program.ensures_ofExcept_bind (fun _ _ => ?_) fun _ _ => .kept (.refl v)
  exact found_bind (fun _ _ => createOwned_tree hvacant) fun _ => .kept (.refl v)

/-- The rows of spaces have their directories. -/
def Housed (config : AppConfig) (v : FileTree × Records) : Prop :=
  ∀ id, v.2.db.Has (.space id) → v.1.Resolved (FsService.spaceRoot config id) ∧
    v.1.node (FsService.spaceRoot config id) = some .dir

theorem deleteSpace_tree (hhoused : Housed config v) :
    (SpaceService.deleteSpace config actor spaceId).Ensures (Serves Choice.Quiet Calm) v
      fun _ v' => TreeEffect config drawn.id v v' := by
  refine requireAdmin_bind (fun _ => ?_) fun _ => .kept (.refl v)
  apply executeSome_bind
  · intro n db' h hcount
    apply changeKeys_bind
    obtain ⟨hresolved, hdir⟩ := hhoused spaceId (has_of_deleteSpace h hcount)
    refine onFiles_bind (removeDirAll_stops (locateEntry_of_resolved hresolved) hdir) (fun _ tree h' => ?_)
      fun _ _ h' => by cases h'.1
    obtain ⟨-, rfl⟩ := h'
    exact .closed (.space spaceId) ⟨rfl, has_deleteSpace h, fun other => key_removeSpaceKey _⟩
  · intro db' h
    rw [Db.deleteSpace_zero h]
    exact .kept (.refl v)
  · exact fun _ _ => .kept (.refl v)
  · exact fun _ _ => .kept (.refl v)

theorem updateSpace_tree {name : String} :
    (SpaceService.updateSpace actor spaceId name).Ensures (Serves F Calm) v fun _ v' => TreesKept v v' := by
  refine requireAdmin_bind (fun _ => ?_) fun _ => .refl v
  refine Program.ensures_ofExcept_bind (fun checked _ => ?_) fun _ _ => .refl v
  have hrenamed : ∀ {n db'}, Db.updateSpace spaceId checked v.2.db = .ok (n, db') →
      TreesKept v (v.1, { v.2 with db := db' }) := by
    intro n db' h
    apply TreesKept.of_ids
    · rw [Db.updateSpace_ok h]
    · rw [Db.updateSpace_ok h, Table.map_updateWhere]
      exact fun _ => rfl
  apply executeSome_bind
  · intro n db' h _
    exact readBack_ensures fun _ => hrenamed h
  · exact fun db' h => hrenamed h
  · exact fun _ _ => .refl v
  · exact fun _ _ => .refl v

theorem grant_tree {now granteeType granteeId permission : String} :
    (SpaceAccess.grant now spaceId granteeType granteeId permission).Ensures (Serves F Calm) v
      fun _ v' => TreesKept v v' := by
  apply insertOr_bind
  · intro n db' h
    obtain ⟨_, htables⟩ := Db.insertAccess_ok h
    exact readBack_ensures fun _ => .of_same (by rw [htables]) (by rw [htables])
  · exact fun _ _ => .refl v
  · exact fun _ _ => .refl v

theorem grantUserAccess_tree {now username permission : String} :
    (SpaceService.grantUserAccess now actor spaceId username permission).Ensures (Serves F Calm) v
      fun _ v' => TreesKept v v' := by
  refine requireAdmin_bind (fun _ => ?_) fun _ => .refl v
  refine Program.ensures_ofExcept_bind (fun _ _ => ?_) fun _ _ => .refl v
  exact found_bind (fun _ _ => grant_tree) fun _ => .refl v

theorem grantGroupAccess_tree {now groupId permission : String} :
    (SpaceService.grantGroupAccess now actor spaceId groupId permission).Ensures (Serves F Calm) v
      fun _ v' => TreesKept v v' := by
  refine requireAdmin_bind (fun _ => ?_) fun _ => .refl v
  refine Program.ensures_ofExcept_bind (fun _ _ => ?_) fun _ _ => .refl v
  exact found_bind (fun _ _ => grant_tree) fun _ => .refl v

theorem revokeAccess_tree {granteeType granteeId : String} :
    (SpaceService.revokeAccess actor spaceId granteeType granteeId).Ensures (Serves F Calm) v
      fun _ v' => TreesKept v v' := by
  refine requireAdmin_bind (fun _ => ?_) fun _ => .refl v
  refine executeSome_ensures (fun n db' _ h => ?_) fun _ => .refl v
  have htables := Db.deleteAccess_ok h
  exact .of_same (by rw [htables]) (by rw [htables])

theorem updateAccessPermission_tree {granteeType granteeId permission : String} :
    (SpaceService.updateAccessPermission actor spaceId granteeType granteeId permission).Ensures (Serves F Calm) v
      fun _ v' => TreesKept v v' := by
  refine requireAdmin_bind (fun _ => ?_) fun _ => .refl v
  refine Program.ensures_ofExcept_bind (fun _ _ => ?_) fun _ _ => .refl v
  have hregraded : ∀ {n db'}, Db.updatePermission spaceId granteeType granteeId permission v.2.db = .ok (n, db') →
      TreesKept v (v.1, { v.2 with db := db' }) := by
    intro n db' h
    have htables := Db.updatePermission_ok h
    exact .of_same (by rw [htables]) (by rw [htables])
  apply executeSome_bind
  · intro n db' h _
    exact readBack_ensures fun _ => hregraded h
  · exact fun db' h => hregraded h
  · exact fun _ _ => .refl v
  · exact fun _ _ => .refl v

theorem setupLibrary_tree (hvacant : v.1.Vacant (config.dataDir ++ ["libraries"]) drawn.id) :
    (LibraryService.setupLibrary P config masterKey drawn actor).Ensures (Serves Choice.Quiet Calm) v
      fun _ v' => TreeEffect config drawn.id v v' := by
  have hkept : TreeEffect config drawn.id v v := .kept (.refl v)
  refine found_bind (fun user huser => ?_) fun _ => hkept
  split
  · exact hkept
  refine query_bind ?_ fun _ _ => hkept
  split
  · exact hkept
  refine Program.ensures_ofExcept_bind (fun blob _ => ?_) fun _ _ => hkept
  set library := PersonalLibrary.serverMode drawn actor blob with hlibrary
  have hcreate : (PersonalLibrary.create library).Ensures (Serves Choice.Quiet Calm) v fun result v' =>
      (∃ n db', result = .ok library ∧ Db.insertLibrary library v.2.db = .ok (n, db') ∧
        v' = (v.1, { v.2 with db := db' })) ∨ (∃ error, result = .error error) ∧ v' = v := by
    apply library_create_ensures
    · intro n db' h
      exact Or.inl ⟨n, db', rfl, h, rfl⟩
    · intro n db' message hcalm
      cases hcalm
    · intro error
      exact Or.inr ⟨⟨error, rfl⟩, rfl⟩
  have hroot : FsService.libraryRoot config library.id = (config.dataDir ++ ["libraries"]) ++ [drawn.id] := by
    simp [FsService.libraryRoot, hlibrary, PersonalLibrary.serverMode]
  refine hcreate.bind (fun found v' h => ?_) fun error v' h => ?_
  · obtain ⟨n, made, hfound, hinsert, rfl⟩ | ⟨⟨error, herror⟩, -⟩ := h
    · obtain rfl : found = library := Except.ok.inj hfound
      obtain ⟨content, hdirectory⟩ := createDirectory_stops hvacant "library" library.id
      rw [← hroot] at hdirectory
      have huser' : made.findUserById actor = some user := by
        obtain ⟨hid, htables⟩ := Db.insertLibrary_ok hinsert
        rw [Db.findUserById, htables]
        exact huser
      refine onFiles_outcome_bind hdirectory fun result tree h => ?_
      obtain ⟨rfl, rfl⟩ := h
      apply changeKeys_bind
      refine (markSetupComplete_ensures huser').outcome_bind fun marked v' h => ?_
      obtain ⟨error, message, -, hcalm, -⟩ | ⟨m, db', rfl, hmark, rfl⟩ := h
      · cases hcalm
      obtain ⟨hfresh, hhas⟩ := has_insertLibrary hinsert
      have hsame : ∀ other, db'.Has other ↔ made.Has other := by
        intro other
        have htables := Db.markSetupComplete_ok hmark
        cases other <;> simp [Db.Has, htables]
      exact .opened (.library drawn.id) ⟨rfl, hfresh, ⟨content, rfl⟩, fun other => (hsame other).trans (hhas other),
        fun other => key_insertLibraryKey _ _⟩
    · cases herror
  · obtain ⟨_, _, hresult, -⟩ | ⟨-, rfl⟩ := h
    · cases hresult
    · exact hkept

/-! ### All operations -/

theorem kept_of_group {id : String} {condemned : Option String}
    (h : OnDb (GroupEffect Calm id actor condemned) v v') : TreesKept v v' := by
  apply TreesKept.of_onDb h
  intro db' heffect
  have hframe := heffect.frame
  exact ⟨by rw [hframe], by rw [hframe]⟩

/-- One operation opens a tree, closes one or keeps them all. -/
theorem request_tree (backend : Backend) (request : Request)
    (hspaces : v.1.Vacant (backend.config.dataDir ++ ["spaces"]) request.drawn.id)
    (hlibraries : v.1.Vacant (backend.config.dataDir ++ ["libraries"]) request.drawn.id)
    (hhoused : Housed backend.config v) :
    (request.program backend).Ensures (Serves Choice.Quiet Calm) v fun _ v' =>
      TreeEffect backend.config request.drawn.id v v' := by
  obtain ⟨actor, drawn, operation⟩ := request
  have hgroup : ∀ (condemned : Option String) {α : Type} {program : ServiceProgram α},
      program.Ensures (Serves Choice.Quiet Calm) v (fun _ v' => OnDb (GroupEffect Calm drawn.id actor condemned) v v') →
        program.Ensures (Serves Choice.Quiet Calm) v fun _ v' => TreeEffect backend.config drawn.id v v' :=
    fun _ _ _ h => h.mono fun _ _ heffect => .kept (kept_of_group heffect)
  have hkeeps : ∀ {α : Type} {program : ServiceProgram α},
      program.Ensures (Serves Choice.Quiet Calm) v (fun _ v' => TreesKept v v') →
        program.Ensures (Serves Choice.Quiet Calm) v fun _ v' => TreeEffect backend.config drawn.id v v' :=
    fun h => h.mono fun _ _ => .kept
  cases operation with
  | register salt username email password =>
      apply discard_ensures
      refine register_effect.mono fun _ v' h => .kept (.of_onDb h fun db' heffect => ?_)
      have hframe := heffect.frame
      exact ⟨by rw [hframe], by rw [hframe]⟩
  | setupLibrary => exact discard_ensures (setupLibrary_tree hlibraries)
  | createGroup name description => exact discard_ensures (hgroup none createGroup_effect)
  | updateGroup groupId name description => exact discard_ensures (hgroup none updateGroup_effect)
  | deleteGroup groupId => exact hgroup (some groupId) deleteGroup_effect
  | addMember groupId username role => exact discard_ensures (hgroup none addMember_effect)
  | removeMember groupId userId => exact hgroup none removeMember_effect
  | updateMemberRole groupId userId role => exact discard_ensures (hgroup none updateMemberRole_effect)
  | createSpace name => exact discard_ensures (createSpace_tree hspaces)
  | createGroupSpace groupId name => exact discard_ensures (createGroupSpace_tree hspaces)
  | updateSpace spaceId name => exact discard_ensures (hkeeps updateSpace_tree)
  | deleteSpace spaceId => exact deleteSpace_tree hhoused
  | grantUserAccess spaceId username permission => exact discard_ensures (hkeeps grantUserAccess_tree)
  | grantGroupAccess spaceId groupId permission => exact discard_ensures (hkeeps grantGroupAccess_tree)
  | revokeAccess spaceId granteeType granteeId => exact hkeeps revokeAccess_tree
  | updateAccessPermission spaceId granteeType granteeId permission =>
      exact discard_ensures (hkeeps updateAccessPermission_tree)

end IronDrive
