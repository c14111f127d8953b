import IronDrive.Operations
import IronDrive.SingleFault

/-! What a creation leaves behind when one of its calls fails. A library, a space and a group are each created
by a chain of calls to the database and to the disk, with compensation after some of them. Most failures leave
the rows, the directories and the keys as they were; a failing read-back after an insertion, a failing meta
file, and a failing membership of a new group's owner do not. -/

namespace IronDrive

open Lib FileTree CryptoService

variable {step : Option FailingStep}

/-- The call of this number to the store fails. -/
def StoreFails (step : Option FailingStep) (call : Nat) : Prop := ∃ message, step = some (.store call message)

/-- A call fails after the new directory was made: its making itself, or one for the meta file. -/
def DirectoryLeft (dir : Path) (step : Option FailingStep) : Prop :=
  ∃ call message amount, step = some (.disk call message amount) ∧
    (call = 0 ∧ dir.length ≤ amount ∨ call = 1 ∨ call = 2)

@[simp] theorem storeFails_none (call : Nat) : ¬ StoreFails none call := by simp [StoreFails]

@[simp] theorem storeFails_store {failing call : Nat} {message : String} :
    StoreFails (some (.store failing message)) call ↔ failing = call := by
  simp [StoreFails]

@[simp] theorem storeFails_disk {failing amount call : Nat} {message : String} :
    ¬ StoreFails (some (.disk failing message amount)) call := by
  simp [StoreFails]

@[simp] theorem directoryLeft_none (dir : Path) : ¬ DirectoryLeft dir none := by simp [DirectoryLeft]

@[simp] theorem directoryLeft_store {dir : Path} {failing : Nat} {message : String} :
    ¬ DirectoryLeft dir (some (.store failing message)) := by
  simp [DirectoryLeft]

@[simp] theorem directoryLeft_disk {dir : Path} {call amount : Nat} {message : String} :
    DirectoryLeft dir (some (.disk call message amount)) ↔
      (call = 0 ∧ dir.length ≤ amount ∨ call = 1 ∨ call = 2) := by
  simp [DirectoryLeft]

theorem not_storeFails {call : Nat} (h : ∀ message, step ≠ some (.store call message)) :
    ¬ StoreFails step call := by
  intro hfails
  obtain ⟨message, hstep⟩ := hfails
  exact h message hstep

/-- A tree with a new directory and its meta file. -/
def furnish (t : FileTree) (dir : Path) (content : Bytes) : FileTree :=
  (t.put dir .dir).put (dir ++ [metaFilename]) (.file content)

/-- Taking the directory away again undoes its making. -/
theorem removeAll_furnish {t : FileTree} {base : Path} {name : String} (h : t.Vacant base name)
    (content : Bytes) : (furnish t (base ++ [name]) content).removeAll (base ++ [name]) = t := by
  calc (furnish t (base ++ [name]) content).removeAll (base ++ [name])
      = (t.put (base ++ [name]) .dir).removeAll (base ++ [name]) :=
        removeAll_put (by simp) (List.prefix_append _ _) _
    _ = t.removeAll (base ++ [name]) := removeAll_put (by simp) List.prefix_rfl _
    _ = t := removeAll_of_none h.missing

theorem ordinary_metaFilename : Ordinary metaFilename := by
  constructor <;> decide

/-- The new directory is where it was put. -/
theorem resolved_furnish {t : FileTree} {base : Path} {name : String} (h : t.Vacant base name) (content : Bytes) :
    (furnish t (base ++ [name]) content).Resolved (base ++ [name]) ∧
      (furnish t (base ++ [name]) content).node (base ++ [name]) = some .dir := by
  have hnode : (furnish t (base ++ [name]) content).node (base ++ [name]) = some .dir :=
    node_put_of_dir (node_put_self h.admits .dir) _
  exact ⟨resolved_of_node h.place.ordinary hnode (by simp), hnode⟩

/-- How the making of a directory with its meta file ends. -/
def DirectoryMade (step : Option FailingStep) (t : FileTree) (dir : Path) :
    Except AppError Unit → FileTree × Nat → Prop
  | .ok _, v => (∃ content, v.1 = furnish t dir content) ∧ ¬ DirectoryLeft dir step
  | .error _, v => (∃ call message amount, step = some (.disk call message amount)) ∧
      (v.1 = t ↔ ¬ DirectoryLeft dir step)

theorem createDirectory_failsAt {t : FileTree} {base : Path} {kind name id : String} (h : t.Vacant base name) :
    (createDirectory kind (base ++ [name]) id).Ensures (DiskFailsAt step) (t, 0)
      (DirectoryMade step t (base ++ [name])) := by
  set dir := base ++ [name] with hdir
  have hmade : (t.put dir .dir).node dir = some .dir := node_put_self h.admits .dir
  have hplace : (t.put dir .dir).Resolved dir := (extends_put_dir h.missing).resolved h.place
  have hnone : (t.put dir .dir).node (dir ++ [metaFilename]) = none := by
    rw [node_put_of_ne (by simp)]
    exact node_append_of_not_dir (by rw [h.missing]; simp) (by simp)
  have hmeta : (t.put dir .dir).Resolved (dir ++ [metaFilename]) :=
    hplace.snoc hmade ordinary_metaFilename (by simp [hnone])
  have hfile : (t.put dir .dir).node (dir ++ [metaFilename]) ≠ some .dir := by
    rw [hnone]
    simp
  have hadmits : (t.put dir .dir).Admits (dir ++ [metaFilename]) :=
    ⟨by simp, by rw [List.dropLast_concat]; exact hmade, hfile⟩
  -- Whatever is put below the directory, the tree is not the one before.
  have hleft : ∀ t' : FileTree, t'.node dir = some .dir → t' ≠ t := by
    intro t' hnode heq
    rw [heq, h.missing] at hnode
    cases hnode
  refine createDirAll_failsAt h.createDirs (fun hfirst => ?_) fun message amount error hstep => ?_
  · refine createFile_failsAt (createPlace_of_resolved hmeta hfile) (fun hsecond => ?_)
      fun message amount error hstep => ?_
    · refine writeAll_failsAt (node_put_self hadmits (.file [])) (fun hthird => ?_)
        fun message amount error hstep => ?_
      · refine ⟨⟨_, put_put hadmits _ _⟩, fun hresidue => ?_⟩
        obtain ⟨call, message, amount, hstep, ⟨rfl, -⟩ | rfl | rfl⟩ := hresidue
        · exact hfirst message amount hstep
        · exact hsecond message amount hstep
        · exact hthird message amount hstep
      · refine ⟨⟨_, _, _, hstep⟩, ?_⟩
        rw [hstep, directoryLeft_disk]
        refine iff_of_false (hleft _ ?_) (by simp)
        exact node_put_of_dir (node_put_of_dir hmade _) _
    · refine ⟨⟨_, _, _, hstep⟩, ?_⟩
      rw [hstep, directoryLeft_disk]
      exact iff_of_false (hleft _ hmade) (by simp)
  · refine ⟨⟨_, _, _, hstep⟩, ?_⟩
    rw [hstep, directoryLeft_disk]
    by_cases hamount : dir.length ≤ amount
    · rw [List.take_of_length_le hamount, h.createDirs]
      exact iff_of_false (hleft _ hmade) (by simp [hamount])
    · rw [h.createDirs_take (Nat.lt_of_not_le hamount)]
      exact iff_of_true rfl (by simp [hamount])

/-- How a creation ends. One that fails leaves everything as it was, unless it was admissible and its failing
call is one that leaves something; and an admissible one fails only when a call does. -/
inductive Settles {α : Type} (step : Option FailingStep) (view : FileTree × Records) (admissible left : Prop) :
    Except AppError α → FileTree × Records → Prop
  | done {value : α} {after : FileTree × Records} (hleft : ¬ (admissible ∧ left)) :
      Settles step view admissible left (.ok value) after
  | failed {error : AppError} {after : FileTree × Records} (hview : after = view ↔ ¬ (admissible ∧ left))
      (hstep : admissible → step ≠ none) : Settles step view admissible left (.error error) after

section Leaves

variable {α : Type} {view after : FileTree × Records} {admissible left : Prop} {error : AppError}

/-- A request that is turned down. -/
theorem settles_rejected (hview : after = view) (hadmissible : ¬ admissible) :
    Settles (α := α) step view admissible left (.error error) after :=
  .failed (iff_of_true hview fun h => hadmissible h.1) fun h => absurd h hadmissible

/-- A failing call after which everything is as it was. -/
theorem settles_undone {failing : FailingStep} (hstep : step = some failing) (hview : after = view)
    (hleft : ¬ left) : Settles (α := α) step view admissible left (.error error) after := by
  refine .failed (iff_of_true hview fun h => hleft h.2) fun _ => ?_
  rw [hstep]
  exact Option.some_ne_none failing

/-- A failing call after which something is left. -/
theorem settles_left {failing : FailingStep} (hstep : step = some failing) (hview : after ≠ view)
    (hadmissible : admissible) (hleft : left) :
    Settles (α := α) step view admissible left (.error error) after := by
  refine .failed (iff_of_false hview (not_not.mpr ⟨hadmissible, hleft⟩)) fun _ => ?_
  rw [hstep]
  exact Option.some_ne_none failing

theorem settles_done {value : α} (hleft : ¬ left) :
    Settles step view admissible left (.ok value) after :=
  .done fun h => hleft h.2

end Leaves

/-- The creations that pass every check of theirs. -/
def Admissible (actor : String) (db : Db) : Operation → Prop
  | .createSpace name => ∃ checked, SpaceService.validateName name = .ok checked
  | .createGroupSpace groupId name =>
      (∃ checked, SpaceService.validateName name = .ok checked) ∧ ∃ group, db.findGroupById groupId = some group
  | .setupLibrary =>
      (∃ user, db.findUserById actor = some user ∧ user.setupComplete = false) ∧ db.findLibraryByUser actor = none
  | .createGroup name description =>
      (∃ checked, GroupService.validateName name = .ok checked ∧ db.findGroupByName checked = none) ∧
        (∃ checked, GroupService.validateDescription description = .ok checked) ∧
          ∃ user, db.findUserById actor = some user
  | _ => False

/-- The failing calls that leave something behind: a read-back after an insertion, a call after the directory
was made, and what adds a new group's owner. -/
def Leaves (config : AppConfig) (id : String) (step : Option FailingStep) : Operation → Prop
  | .createSpace _ => StoreFails step 1 ∨ DirectoryLeft (FsService.spaceRoot config id) step
  | .createGroupSpace _ _ => StoreFails step 2 ∨ DirectoryLeft (FsService.spaceRoot config id) step
  | .setupLibrary => StoreFails step 4 ∨ DirectoryLeft (FsService.libraryRoot config id) step
  | .createGroup _ _ => StoreFails step 2 ∨ StoreFails step 3 ∨ StoreFails step 4
  | _ => False

theorem view_ne_of_db {view after : FileTree × Records} (h : after.2.db ≠ view.2.db) : after ≠ view :=
  fun heq => h (congrArg (fun view => view.2.db) heq)

/-- A directory that is not made, after the row made for it is rolled back. -/
theorem settles_directory {α : Type} {t t' : FileTree} {records : Records} {admissible : Prop} {root : Path}
    {error : AppError} {k call amount : Nat} {message : String} (hstep : step = some (.disk call message amount))
    (hadmissible : admissible) (htree : t' = t ↔ ¬ DirectoryLeft root step) :
    Settles (α := α) step (t, records) admissible (StoreFails step k ∨ DirectoryLeft root step) (.error error)
      (t', records) := by
  have hstore : ¬ StoreFails step k := by
    rw [hstep]
    exact storeFails_disk
  refine .failed ?_ fun _ => by rw [hstep]; exact Option.some_ne_none _
  rw [Prod.mk.injEq, htree]
  simp [hstore, hadmissible]

section Spaces

variable {β : Type} {P : Primitives} {config : AppConfig} {masterKey : MasterKey} {drawn : Drawn} {t : FileTree}
  {records : Records} {s d : Nat} {ownerType ownerId name : String}

theorem space_create_failsAt {params : Space.CreateParams} {f : Space → ServiceProgram β}
    {Q : Except AppError β → Progress → Prop} (hid : drawn.id ∉ records.db.spaces.rows.map Space.id)
    (hok : ∀ made, Db.insertSpace (Space.ofParams drawn params) records.db = .ok (1, made) →
      (∀ message, step ≠ some (.store (s + 1) message)) →
        (f (Space.ofParams drawn params)).Ensures (FailsAt step)
          ⟨t, { records with db := made }, s + 2, d⟩ Q)
    (hinsert : ∀ message error, step = some (.store s message) →
      Q (.error error) ⟨t, records, s + 1, d⟩)
    (hback : ∀ message error made, made ≠ records.db → step = some (.store (s + 1) message) →
      Q (.error error) ⟨t, { records with db := made }, s + 2, d⟩) :
    ((Space.create drawn params).bind f).Ensures (FailsAt step) ⟨t, records, s, d⟩ Q := by
  obtain ⟨made, hmade⟩ := Db.insertSpace_of_fresh (Space.ofParams drawn params) hid
  simp only [Space.create, Program.bind_eq, Program.bind_assoc]
  refine execute_failsAt (fun _ => ?_) fun message hstep => hinsert message _ hstep
  rw [Db.execute_ok hmade]
  simp only [Program.bind_assoc]
  refine found_failsAt (fun found hfound hstep => ?_) (fun hnone => ?_) fun message hstep =>
    hback message _ made (Db.insertSpace_ne hmade) hstep
  · rw [Option.some.inj (hfound.symm.trans (Db.findSpaceById_insertSpace hmade))]
    exact hok made hmade hstep
  · cases hnone.symm.trans (Db.findSpaceById_insertSpace hmade)

/-- A rollback that does not fail removes the row again. -/
theorem space_rollback_failsAt {space : Space} {made : Db} {n : Nat}
    (hinsert : Db.insertSpace space records.db = .ok (n, made))
    (hstep : ∀ message, step ≠ some (.store s message)) :
    (Space.deleteById space.id).Ensures (FailsAt step) ⟨t, { records with db := made }, s, d⟩
      fun _ progress => progress.view = (t, records) := by
  refine execute_failsAt (fun _ => ?_) fun message hfails => absurd hfails (hstep message)
  cases hdelete : Db.deleteSpace space.id made with
  | error error => cases hdelete
  | ok found =>
      obtain ⟨count, db'⟩ := found
      rw [Db.execute_ok hdelete, Db.deleteSpace_insertSpace hinsert hdelete]
      by_cases hcount : count = 0
      · simp only [if_pos hcount]
        rfl
      · simp only [if_neg hcount]
        rfl

theorem createOwned_failsAt (hP : P.Lawful) (hvacant : t.Vacant (config.dataDir ++ ["spaces"]) drawn.id)
    (hid : drawn.id ∉ records.db.spaces.rows.map Space.id) {admissible : Prop} (hadmissible : admissible) :
    (SpaceService.createOwned P config masterKey drawn ownerType ownerId name).Ensures (FailsAt step)
      ⟨t, records, s, 0⟩ fun result progress => Settles step (t, records) admissible
        (StoreFails step (s + 1) ∨ DirectoryLeft (FsService.spaceRoot config drawn.id) step)
        result progress.view := by
  have hroot : FsService.spaceRoot config drawn.id = (config.dataDir ++ ["spaces"]) ++ [drawn.id] := by
    simp [FsService.spaceRoot]
  have hdirectory : (SpaceService.createSpaceDirectory (FsService.spaceRoot config drawn.id) drawn.id).Ensures
      (DiskFailsAt step) (t, 0) (DirectoryMade step t (FsService.spaceRoot config drawn.id)) := by
    rw [hroot]
    exact createDirectory_failsAt hvacant
  obtain ⟨blob, hblob⟩ := exists_aesGcmWrap hP masterKey.key drawn.nonce drawn.dataKey.key
  have hwrap : wrapDataKey P masterKey drawn.nonce drawn.dataKey = .ok blob := hblob
  simp only [SpaceService.createOwned, hwrap, Program.ofExcept_ok, Program.bind_eq, Program.done_bind]
  refine space_create_failsAt hid (fun made hinsert hback => ?_) (fun message error hstep => ?_)
    fun message error made hne hstep => ?_
  · refine onFiles_failsAt hdirectory fun result t' d' hmade => ?_
    cases result with
    | error error =>
        obtain ⟨⟨call, message, amount, hstep⟩, htree⟩ := hmade
        refine (space_rollback_failsAt hinsert ?_).outcome_bind fun _ progress hview => ?_
        · rw [hstep]
          simp
        · show Settles _ _ _ _ _ progress.view
          rw [hview]
          exact settles_directory hstep hadmissible htree
    | ok _ =>
        apply changeKeys_failsAt
        refine settles_done ?_
        rw [not_or]
        exact ⟨not_storeFails hback, hmade.2⟩
  · refine settles_undone hstep rfl ?_
    rw [hstep]
    simp
  · refine settles_left hstep (view_ne_of_db hne) hadmissible ?_
    rw [hstep]
    simp

theorem createSpace_failsAt (hP : P.Lawful) (hvacant : t.Vacant (config.dataDir ++ ["spaces"]) drawn.id)
    (hid : drawn.id ∉ records.db.spaces.rows.map Space.id) :
    (SpaceService.createSpace P config masterKey drawn ownerId name).Ensures (FailsAt step)
      ⟨t, records, 0, 0⟩ fun result progress =>
        Settles step (t, records) (Admissible ownerId records.db (.createSpace name))
          (Leaves config drawn.id step (.createSpace name)) result progress.view := by
  refine Program.ensures_ofExcept_bind (fun checked hchecked => ?_) fun error herror => ?_
  · exact createOwned_failsAt hP hvacant hid ⟨checked, hchecked⟩
  · refine settles_rejected rfl fun hadmissible => ?_
    obtain ⟨checked, hchecked⟩ := hadmissible
    cases herror.symm.trans hchecked

theorem createGroupSpace_failsAt (hP : P.Lawful) {actor groupId : String}
    (hvacant : t.Vacant (config.dataDir ++ ["spaces"]) drawn.id)
    (hid : drawn.id ∉ records.db.spaces.rows.map Space.id) :
    (SpaceService.createGroupSpace P config masterKey drawn groupId name).Ensures (FailsAt step)
      ⟨t, records, 0, 0⟩ fun result progress =>
        Settles step (t, records) (Admissible actor records.db (.createGroupSpace groupId name))
          (Leaves config drawn.id step (.createGroupSpace groupId name)) result progress.view := by
  refine Program.ensures_ofExcept_bind (fun checked hchecked => ?_) fun error herror => ?_
  · refine found_failsAt (fun group hgroup _ => ?_) (fun hnone => ?_) fun message hstep => ?_
    · exact createOwned_failsAt hP hvacant hid ⟨⟨checked, hchecked⟩, group, hgroup⟩
    · refine settles_rejected rfl fun hadmissible => ?_
      obtain ⟨-, group, hgroup⟩ := hadmissible
      cases hnone.symm.trans hgroup
    · refine settles_undone hstep rfl ?_
      rw [hstep]
      simp [Leaves]
  · refine settles_rejected rfl fun hadmissible => ?_
    obtain ⟨⟨checked, hchecked⟩, -⟩ := hadmissible
    cases herror.symm.trans hchecked

end Spaces

section Groups

variable {β : Type} {drawn : Drawn} {t : FileTree} {records : Records} {actor name : String}
  {description : Option String} {config : AppConfig} {s d : Nat} {Q : Except AppError β → Progress → Prop}

theorem group_create_failsAt {f : Group → ServiceProgram β}
    (hok : ∀ made n, Db.insertGroup ⟨drawn.id, name, description, actor, drawn.now⟩ records.db = .ok (n, made) →
      records.db.findGroupByName name = none → (∀ message, step ≠ some (.store (s + 2) message)) →
        (f ⟨drawn.id, name, description, actor, drawn.now⟩).Ensures (FailsAt step)
          ⟨t, { records with db := made }, s + 3, d⟩ Q)
    (htaken : ∀ error, records.db.findGroupByName name ≠ none → Q (.error error) ⟨t, records, s + 1, d⟩)
    (hrefused : ∀ error error', records.db.findGroupByName name = none →
      Db.insertGroup ⟨drawn.id, name, description, actor, drawn.now⟩ records.db = .error error →
        Q (.error error') ⟨t, records, s + 2, d⟩)
    (hfault : ∀ call message error, call = s ∨ call = s + 1 → step = some (.store call message) →
      ∀ s', Q (.error error) ⟨t, records, s', d⟩)
    (hback : ∀ message error made n,
      Db.insertGroup ⟨drawn.id, name, description, actor, drawn.now⟩ records.db = .ok (n, made) →
        records.db.findGroupByName name = none → step = some (.store (s + 2) message) →
          Q (.error error) ⟨t, { records with db := made }, s + 3, d⟩) :
    ((Group.create drawn name description actor).bind f).Ensures (FailsAt step) ⟨t, records, s, d⟩ Q := by
  simp only [Group.create, Program.bind_eq, Program.bind_assoc]
  refine query_failsAt (fun _ => ?_) fun message hstep => hfault s message _ (Or.inl rfl) hstep _
  by_cases hname : (records.db.findGroupByName name).isSome
  · rw [if_pos hname]
    refine htaken _ fun hnone => ?_
    rw [hnone] at hname
    cases hname
  · rw [if_neg hname]
    have hfree : records.db.findGroupByName name = none := Option.not_isSome_iff_eq_none.mp hname
    simp only [Program.bind_assoc]
    refine insertOr_failsAt (fun n made hmade _ => ?_) (fun error error' => hrefused error error' hfree)
      fun message error hstep => hfault (s + 1) message error (Or.inr rfl) hstep _
    refine found_failsAt (fun found hfound hstep => ?_) (fun hnone => ?_) fun message hstep =>
      hback message _ made n hmade hfree hstep
    · rw [Option.some.inj (hfound.symm.trans (Db.findGroupById_insertGroup hmade))]
      exact hok made n hmade hfree hstep
    · cases hnone.symm.trans (Db.findGroupById_insertGroup hmade)

theorem member_add_failsAt {now groupId userId role : String} {f : GroupMember → ServiceProgram β}
    {n : Nat} {added : Db} (hinsert : Db.insertMember ⟨groupId, userId, role, now⟩ records.db = .ok (n, added))
    (hok : (∀ message, step ≠ some (.store s message)) → (∀ message, step ≠ some (.store (s + 1) message)) →
      (f ⟨groupId, userId, role, now⟩).Ensures (FailsAt step) ⟨t, { records with db := added }, s + 2, d⟩ Q)
    (hfault : ∀ message error, step = some (.store s message) → Q (.error error) ⟨t, records, s + 1, d⟩)
    (hback : ∀ message error, step = some (.store (s + 1) message) →
      Q (.error error) ⟨t, { records with db := added }, s + 2, d⟩) :
    ((GroupMember.add now groupId userId role).bind f).Ensures (FailsAt step) ⟨t, records, s, d⟩ Q := by
  simp only [GroupMember.add, Program.bind_eq, Program.bind_assoc]
  refine insertOr_failsAt (fun m made hmade hfirst => ?_) (fun error error' hrefused => ?_) hfault
  · obtain ⟨-, rfl⟩ := Prod.mk.inj (Except.ok.inj (hmade.symm.trans hinsert))
    have hfindback := Db.findMember_insertMember hmade
    refine found_failsAt (fun found hfound hsecond => ?_) (fun hnone => ?_) fun message => hback message _
    · rw [Option.some.inj (hfound.symm.trans hfindback)]
      exact hok hfirst hsecond
    · cases hnone.symm.trans hfindback
  · cases hrefused.symm.trans hinsert

theorem createGroup_failsAt (hid : drawn.id ∉ records.db.groups.rows.map Group.id) :
    (GroupService.createGroup drawn actor name description).Ensures (FailsAt step) ⟨t, records, 0, 0⟩
      fun result progress =>
        Settles step (t, records) (Admissible actor records.db (.createGroup name description))
          (Leaves config drawn.id step (.createGroup name description)) result progress.view := by
  refine Program.ensures_ofExcept_bind (fun checked hchecked => ?_) fun error herror => ?_
  swap
  · refine settles_rejected rfl fun hadmissible => ?_
    obtain ⟨⟨checked, hchecked, -⟩, -⟩ := hadmissible
    cases herror.symm.trans hchecked
  refine Program.ensures_ofExcept_bind (fun described hdescribed => ?_) fun error herror => ?_
  swap
  · refine settles_rejected rfl fun hadmissible => ?_
    obtain ⟨-, ⟨described, hdescribed⟩, -⟩ := hadmissible
    cases herror.symm.trans hdescribed
  -- An insertion says that the request was admissible.
  have hadmissible : ∀ {made : Db} {n : Nat},
      Db.insertGroup ⟨drawn.id, checked, described, actor, drawn.now⟩ records.db = .ok (n, made) →
        records.db.findGroupByName checked = none →
          Admissible actor records.db (.createGroup name description) := by
    intro made n hmade hfree
    obtain ⟨-, -, hcreator⟩ := Db.insertGroup_ok hmade
    exact ⟨⟨checked, hchecked, hfree⟩, ⟨described, hdescribed⟩, Db.mem_users_iff_found.mp hcreator⟩
  refine group_create_failsAt (fun made n hmade hfree hback => ?_) (fun error htaken => ?_)
    (fun refusal error hfree hrefused => ?_) (fun call message error hcall hstep s' => ?_)
    fun message error made n hmade hfree hstep => ?_
  · obtain ⟨m, added, hadded⟩ := Db.insertMember_insertGroup hmade GroupService.roleOwner drawn.now
    have hleft : added ≠ records.db := by
      intro heq
      obtain ⟨hnew, hgroups, -⟩ := Db.insertGroup_ok hmade
      obtain ⟨_, hmembers, -⟩ := Db.insertMember_ok hadded
      apply Table.insert_ne hnew
      calc records.db.groups.insert _ hnew = made.groups := by rw [hgroups]
        _ = added.groups := by rw [hmembers]
        _ = records.db.groups := by rw [heq]
    refine member_add_failsAt hadded (fun hfirst hsecond => ?_) (fun message error hstep => ?_)
      fun message error hstep => ?_
    · refine settles_done ?_
      rw [Leaves, not_or, not_or]
      exact ⟨not_storeFails hback, not_storeFails hfirst, not_storeFails hsecond⟩
    · refine settles_left hstep (view_ne_of_db (Db.insertGroup_ne hmade)) (hadmissible hmade hfree) ?_
      rw [hstep]
      simp [Leaves]
    · refine settles_left hstep (view_ne_of_db hleft) (hadmissible hmade hfree) ?_
      rw [hstep]
      simp [Leaves]
  · refine settles_rejected rfl fun hadmissible => htaken ?_
    obtain ⟨⟨other, hother, hfree⟩, -⟩ := hadmissible
    rw [Except.ok.inj (hchecked.symm.trans hother)]
    exact hfree
  · refine settles_rejected rfl fun hadmissible => ?_
    obtain ⟨-, -, user, huser⟩ := hadmissible
    obtain ⟨made, hmade⟩ := Db.insertGroup_of_fresh
      ⟨drawn.id, checked, described, actor, drawn.now⟩ hid hfree huser
    cases hrefused.symm.trans hmade
  · refine settles_undone hstep rfl ?_
    rw [hstep]
    simp only [Leaves, storeFails_store]
    omega
  · refine settles_left hstep (view_ne_of_db (Db.insertGroup_ne hmade)) (hadmissible hmade hfree) ?_
    rw [hstep]
    simp [Leaves]

end Groups

section Libraries

variable {β : Type} {P : Primitives} {config : AppConfig} {masterKey : MasterKey} {drawn : Drawn} {t : FileTree}
  {records : Records} {actor : String} {s d : Nat} {Q : Except AppError β → Progress → Prop}

theorem library_create_failsAt {row : PersonalLibrary} {f : PersonalLibrary → ServiceProgram β}
    {made : Db} {n : Nat} (hnone : records.db.findLibraryByUser row.userId = none)
    (hinsert : Db.insertLibrary row records.db = .ok (n, made))
    (hok : (∀ message, step ≠ some (.store (s + 2) message)) →
      (f row).Ensures (FailsAt step) ⟨t, { records with db := made }, s + 3, d⟩ Q)
    (hfault : ∀ call message error, call = s ∨ call = s + 1 → step = some (.store call message) →
      ∀ s', Q (.error error) ⟨t, records, s', d⟩)
    (hback : ∀ message error, step = some (.store (s + 2) message) →
      Q (.error error) ⟨t, { records with db := made }, s + 3, d⟩) :
    ((PersonalLibrary.create row).bind f).Ensures (FailsAt step) ⟨t, records, s, d⟩ Q := by
  simp only [PersonalLibrary.create, Program.bind_eq, Program.bind_assoc]
  refine query_failsAt (fun _ => ?_) fun message hstep => hfault s message _ (Or.inl rfl) hstep _
  rw [hnone]
  simp only [Option.isSome_none, Bool.false_eq_true, if_false, Program.bind_assoc]
  refine insertOr_failsAt (fun m db' hdb' _ => ?_) (fun error error' hrefused => ?_)
    fun message error hstep => hfault (s + 1) message error (Or.inr rfl) hstep _
  · obtain ⟨-, rfl⟩ := Prod.mk.inj (Except.ok.inj (hdb'.symm.trans hinsert))
    have hfindback := Db.findLibraryById_insertLibrary hinsert
    refine found_failsAt (fun found hfound hstep => ?_) (fun hmissing => ?_) fun message => hback message _
    · rw [Option.some.inj (hfound.symm.trans hfindback)]
      exact hok hstep
    · cases hmissing.symm.trans hfindback
  · cases hrefused.symm.trans hinsert

/-- A rollback that does not fail removes the row again. -/
theorem library_rollback_failsAt {library : PersonalLibrary} {made : Db} {n : Nat}
    (hinsert : Db.insertLibrary library records.db = .ok (n, made))
    (hstep : ∀ message, step ≠ some (.store s message)) :
    (PersonalLibrary.deleteById library.id).Ensures (FailsAt step) ⟨t, { records with db := made }, s, d⟩
      fun _ progress => progress.view = (t, records) := by
  refine execute_failsAt (fun _ => ?_) fun message hfails => absurd hfails (hstep message)
  cases hdelete : Db.deleteLibrary library.id made with
  | error error => cases hdelete
  | ok found =>
      obtain ⟨count, db'⟩ := found
      rw [Db.execute_ok hdelete, Db.deleteLibrary_insertLibrary hinsert hdelete]
      rfl

/-- A user that is there is marked, unless the call fails. -/
theorem markSetupComplete_failsAt {user : User} {now : String} (hfound : records.db.findUserById actor = some user) :
    (User.markSetupComplete now actor).Ensures (FailsAt step) ⟨t, records, s, d⟩ fun result progress =>
      (∃ value, result = .ok value) ∨ ∃ error message, result = .error error ∧
        step = some (.store s message) ∧ progress = ⟨t, records, s + 1, d⟩ := by
  refine execute_failsAt (fun _ => ?_) fun message hstep => Or.inr ⟨_, message, rfl, hstep, rfl⟩
  obtain ⟨db', hmark, hcount⟩ := Db.markSetupComplete_of_found hfound now
  rw [Db.execute_ok hmark]
  simp only [if_neg hcount]
  exact Or.inl ⟨(), rfl⟩

/-- Removing a furnished directory, by a call that does not fail. -/
theorem removeDirAll_failsAt {base : Path} {name : String} (content : Bytes) (h : t.Vacant base name)
    (hstep : ∀ message amount, step ≠ some (.disk d message amount)) :
    (fsCall (.removeDirAll (base ++ [name]))).Ensures (DiskFailsAt step)
      (furnish t (base ++ [name]) content, d) fun result v' => (∃ answer, result = .ok answer) ∧ v'.1 = t := by
  intro answer v' hcall
  obtain ⟨tree', d'⟩ := v'
  obtain ⟨⟨choice, hchoice, hperform⟩, -⟩ := hcall
  have hquiet : choice.fault = none := hchoice.quiet hstep
  obtain ⟨hresolved, hnode⟩ := resolved_furnish h content
  have hplace : FsCall.removalPlace (furnish t (base ++ [name]) content) (base ++ [name]) =
      .ok (base ++ [name]) := by
    simp [FsCall.removalPlace, locateEntry_of_resolved hresolved, hnode, bind, Except.bind, pure, Except.pure]
  simp only [FsCall.perform, hplace, hquiet, removeAll_furnish h] at hperform
  obtain ⟨rfl, rfl⟩ := Prod.mk.inj hperform
  exact ⟨⟨_, rfl⟩, rfl⟩

/-- The undoing of a library after a call to the store has failed: its key, its directory and its row go again. -/
theorem library_undo_failsAt {row : PersonalLibrary} {made : Db} {n call : Nat} {message : String}
    (hvacant : t.Vacant (config.dataDir ++ ["libraries"]) row.id)
    (hinsert : Db.insertLibrary row records.db = .ok (n, made))
    (hkey : records.unlockState.libraries row.id = none) (content : Bytes) (hstep : step = some (.store call message))
    (hcall : call < s) (error : AppError) :
    ((changeKeys (·.removeLibraryKey row.id)).bind fun _ =>
      (onFiles (fsCall (.removeDirAll (FsService.libraryRoot config row.id)))).bind fun _ =>
        (PersonalLibrary.deleteById row.id).outcome.bind fun _ =>
          (Program.fail error : ServiceProgram PersonalLibrary)).Ensures (FailsAt step)
      ⟨furnish t (FsService.libraryRoot config row.id) content,
        ⟨made, records.unlockState.insertLibraryKey row.id drawn.dataKey⟩, s, d⟩
      fun result progress => result = .error error ∧ progress.view = (t, records) := by
  have hroot : FsService.libraryRoot config row.id = (config.dataDir ++ ["libraries"]) ++ [row.id] := by
    simp [FsService.libraryRoot]
  have hkeys : (records.unlockState.insertLibraryKey row.id drawn.dataKey).removeLibraryKey row.id =
      records.unlockState := UnlockState.removeLibraryKey_insertLibraryKey hkey
  have hdisk : ∀ message amount, step ≠ some (.disk d message amount) := by
    rw [hstep]
    simp
  have hremove := removeDirAll_failsAt content hvacant hdisk
  rw [← hroot] at hremove
  apply changeKeys_failsAt
  refine (onFiles_ensures hremove).bind ?_ ?_
  · intro answer progress hprogress
    obtain ⟨tree, d', ⟨-, htree⟩, rfl⟩ := hprogress
    obtain rfl : tree = t := htree
    show Program.Ensures (FailsAt step) _ (Progress.mk tree ⟨made, (records.unlockState.insertLibraryKey
      row.id drawn.dataKey).removeLibraryKey row.id⟩ _ d') _
    rw [hkeys]
    refine (library_rollback_failsAt hinsert ?_).outcome_bind fun _ progress hview => ⟨rfl, hview⟩
    rw [hstep]
    simp
    omega
  · intro refusal progress hprogress
    obtain ⟨_, _, ⟨⟨_, hanswer⟩, -⟩, -⟩ := hprogress
    cases hanswer

theorem setupLibrary_failsAt (hP : P.Lawful) (hvacant : t.Vacant (config.dataDir ++ ["libraries"]) drawn.id)
    (hid : drawn.id ∉ records.db.libraries.rows.map PersonalLibrary.id)
    (hkey : records.unlockState.libraries drawn.id = none) :
    (LibraryService.setupLibrary P config masterKey drawn actor).Ensures (FailsAt step) ⟨t, records, 0, 0⟩
      fun result progress => Settles step (t, records) (Admissible actor records.db .setupLibrary)
        (Leaves config drawn.id step .setupLibrary) result progress.view := by
  have hroot : FsService.libraryRoot config drawn.id = (config.dataDir ++ ["libraries"]) ++ [drawn.id] := by
    simp [FsService.libraryRoot]
  have hdirectory : (LibraryService.createLibraryDirectory (FsService.libraryRoot config drawn.id)
      drawn.id).Ensures (DiskFailsAt step) (t, 0)
        (DirectoryMade step t (FsService.libraryRoot config drawn.id)) := by
    rw [hroot]
    exact createDirectory_failsAt hvacant
  obtain ⟨blob, hblob⟩ := exists_aesGcmWrap hP masterKey.key drawn.nonce drawn.dataKey.key
  have hwrap : wrapDataKey P masterKey drawn.nonce drawn.dataKey = .ok blob := hblob
  -- The three look-ups fail without a trace.
  have hearly : ∀ call message, call < 4 → step = some (.store call message) →
      ∀ error s', Settles (α := PersonalLibrary) step (t, records) (Admissible actor records.db .setupLibrary)
        (Leaves config drawn.id step .setupLibrary) (.error error) (Progress.view ⟨t, records, s', 0⟩) := by
    intro call message hcall hstep error s'
    refine settles_undone hstep rfl ?_
    rw [hstep]
    simp only [Leaves, storeFails_store, directoryLeft_store, or_false]
    omega
  refine found_failsAt (fun user huser _ => ?_) (fun hnone => ?_) fun message hstep => ?_
  rotate_left
  · refine settles_rejected rfl fun hadmissible => ?_
    obtain ⟨⟨user, huser, -⟩, -⟩ := hadmissible
    cases hnone.symm.trans huser
  · exact hearly 0 message (by omega) hstep _ _
  by_cases hcomplete : user.setupComplete = true
  · rw [if_pos hcomplete]
    refine settles_rejected rfl fun hadmissible => ?_
    obtain ⟨⟨other, hother, hnot⟩, -⟩ := hadmissible
    rw [Option.some.inj (huser.symm.trans hother), hnot] at hcomplete
    cases hcomplete
  rw [if_neg hcomplete]
  refine query_failsAt (fun _ => ?_) fun message hstep => hearly 1 message (by omega) hstep _ _
  by_cases hlibrary : (records.db.findLibraryByUser actor).isSome
  · rw [if_pos hlibrary]
    refine settles_rejected rfl fun hadmissible => ?_
    rw [hadmissible.2] at hlibrary
    cases hlibrary
  rw [if_neg hlibrary]
  have hnone : records.db.findLibraryByUser actor = none := Option.not_isSome_iff_eq_none.mp hlibrary
  have hadmissible : Admissible actor records.db .setupLibrary :=
    ⟨⟨user, huser, Bool.not_eq_true _ ▸ hcomplete⟩, hnone⟩
  simp only [hwrap, Program.ofExcept_ok, Program.bind_eq, Program.done_bind]
  obtain ⟨made, hmade⟩ := Db.insertLibrary_of_fresh (PersonalLibrary.serverMode drawn actor blob) hid hnone huser
  refine library_create_failsAt hnone hmade (fun hback => ?_) (fun call message error hcall hstep s' => ?_)
    fun message error hstep => ?_
  rotate_left
  · exact hearly call message (by omega) hstep error s'
  · refine settles_left hstep (view_ne_of_db (Db.insertLibrary_ne hmade)) hadmissible ?_
    rw [hstep]
    simp [Leaves]
  refine onFiles_failsAt hdirectory fun result t' d' hdone => ?_
  cases result with
  | error error =>
      obtain ⟨⟨call, message, amount, hstep⟩, htree⟩ := hdone
      refine (library_rollback_failsAt hmade ?_).outcome_bind fun _ progress hview => ?_
      · rw [hstep]
        simp
      · show Settles _ _ _ _ _ progress.view
        rw [hview]
        exact settles_directory hstep hadmissible htree
  | ok _ =>
      obtain ⟨⟨content, rfl⟩, hdirectoryLeft⟩ := hdone
      apply changeKeys_failsAt
      have hstill : made.findUserById actor = some user := by
        obtain ⟨_, htables⟩ := Db.insertLibrary_ok hmade
        rw [Db.findUserById, htables]
        exact huser
      refine (markSetupComplete_failsAt hstill).outcome_bind fun marked progress hmarked => ?_
      obtain ⟨_, rfl⟩ | ⟨error, message, rfl, hstep, rfl⟩ := hmarked
      · refine settles_done ?_
        rw [Leaves, not_or]
        exact ⟨not_storeFails hback, hdirectoryLeft⟩
      · refine (library_undo_failsAt hvacant hmade hkey content hstep (by omega) error).mono ?_
        rintro result progress ⟨rfl, hview⟩
        refine settles_undone hstep hview ?_
        rw [hstep]
        simp [Leaves]

end Libraries

/-! ### All or nothing -/

/-- The directories made at startup are there, and an identifier is used nowhere. -/
structure FreshStart (config : AppConfig) (id : String) (view : FileTree × Records) : Prop where
  spaces : view.1.Vacant (config.dataDir ++ ["spaces"]) id
  libraries : view.1.Vacant (config.dataDir ++ ["libraries"]) id
  space : id ∉ view.2.db.spaces.rows.map Space.id
  library : id ∉ view.2.db.libraries.rows.map PersonalLibrary.id
  group : id ∉ view.2.db.groups.rows.map Group.id
  key : view.2.unlockState.libraries id = none

/-- The operations that create a library, a space or a group. -/
def Operation.creates : Operation → Bool
  | .setupLibrary | .createGroup .. | .createSpace .. | .createGroupSpace .. => true
  | _ => false

theorem discard_settles {α : Type} {program : ServiceProgram α} {progress : Progress} {view : FileTree × Records}
    {admissible left : Prop}
    (h : program.Ensures (FailsAt step) progress fun result progress' =>
      Settles step view admissible left result progress'.view) :
    (discard program).Ensures (FailsAt step) progress fun result progress' =>
      Settles step view admissible left result progress'.view := by
  apply h.bind
  · intro value after hsettles
    cases hsettles with
    | done hleft => exact .done hleft
  · intro error after hsettles
    cases hsettles with
    | failed hview hstep => exact .failed hview hstep

theorem creation_settles (backend : Backend) (request : Request) {t : FileTree} {records : Records}
    (hP : backend.primitives.Lawful) (hfresh : FreshStart backend.config request.drawn.id (t, records))
    (hcreates : request.operation.creates = true) :
    (request.program backend).Ensures (FailsAt step) ⟨t, records, 0, 0⟩ fun result progress =>
      Settles step (t, records) (Admissible request.actor records.db request.operation)
        (Leaves backend.config request.drawn.id step request.operation) result progress.view := by
  obtain ⟨actor, drawn, operation⟩ := request
  cases operation with
  | setupLibrary =>
      exact discard_settles (setupLibrary_failsAt hP hfresh.libraries hfresh.library hfresh.key)
  | createGroup name description => exact discard_settles (createGroup_failsAt hfresh.group)
  | createSpace name => exact discard_settles (createSpace_failsAt hP hfresh.spaces hfresh.space)
  | createGroupSpace groupId name =>
      exact discard_settles (createGroupSpace_failsAt hP hfresh.spaces hfresh.space)
  | _ => cases hcreates

/-- A creation that fails leaves the rows, the directories and the keys as they were; and if it was admissible,
the same creation succeeds afterwards under any identifier that is fresh, when no call fails. -/
def AllOrNothing (backend : Backend) (request : Request) (oracle : Nat → Choice)
    (dbOracle : Nat → Option String) (site : Site) : Prop :=
  let served := (request.program backend).run (serviceHandler oracle dbOracle) site
  ∀ error, served.1 = .error error →
    served.2.view = site.view ∧
    (Admissible request.actor site.db request.operation → ∀ drawn oracle' dbOracle',
      FreshStart backend.config drawn.id served.2.view → FailsOnly none oracle' dbOracle' served.2 →
        ((Request.program backend { request with drawn := drawn }).run
          (serviceHandler oracle' dbOracle') served.2).1 = .ok ())

/-- When at most one call of it fails, a creation is all-or-nothing exactly if it is turned down or its failing
call is not one of those that leave something behind. -/
theorem creation_all_or_nothing_iff (backend : Backend) (request : Request) (oracle : Nat → Choice)
    (dbOracle : Nat → Option String) (site : Site) (step : Option FailingStep)
    (hP : backend.primitives.Lawful) (hcreates : request.operation.creates = true)
    (hfresh : FreshStart backend.config request.drawn.id site.view)
    (hfails : FailsOnly step oracle dbOracle site) :
    AllOrNothing backend request oracle dbOracle site ↔
      ¬ (Admissible request.actor site.db request.operation ∧
        Leaves backend.config request.drawn.id step request.operation) := by
  have hsettles := hfails.run (creation_settles backend request hP hfresh hcreates)
  -- Nothing fails the second time.
  have hretry : ∀ drawn oracle' dbOracle' after, after.view = site.view →
      Admissible request.actor site.db request.operation → FreshStart backend.config drawn.id after.view →
        FailsOnly none oracle' dbOracle' after →
          ((Request.program backend { request with drawn := drawn }).run
            (serviceHandler oracle' dbOracle') after).1 = .ok () := by
    intro drawn oracle' dbOracle' after hview hadmissible hfresh' hfails'
    have hagain := hfails'.run
      (creation_settles backend { request with drawn := drawn } hP hfresh' hcreates)
    have hdb : after.2.records.db = site.db := congrArg (fun view => view.2.db) hview
    cases hresult : ((Request.program backend { request with drawn := drawn }).run
      (serviceHandler oracle' dbOracle') after).1 with
    | ok value => rfl
    | error error =>
        rw [hresult, hdb] at hagain
        cases hagain with
        | failed _ hstep => exact absurd rfl (hstep hadmissible)
  rw [AllOrNothing]
  generalize (request.program backend).run (serviceHandler oracle dbOracle) site = served at *
  obtain ⟨result, after⟩ := served
  cases result with
  | ok value =>
      cases hsettles with
      | done hleft => exact iff_of_true (fun error h => by cases h) hleft
  | error error =>
      cases hsettles with
      | failed hview _ =>
          constructor
          · intro h
            exact hview.mp (h error rfl).1
          · intro hleft _ _
            have hsame := hview.mpr hleft
            exact ⟨hsame, fun hadmissible drawn oracle' dbOracle' =>
              hretry drawn oracle' dbOracle' after hsame hadmissible⟩

/-- A disk with the directories that are made at startup. -/
def startupTree : FileTree := (FileTree.empty.put ["libraries"] .dir).put ["spaces"] .dir

/-- Alice has registered. -/
def startupSite : Site :=
  calmServe sampleBackend (firstSite ⟨startupTree, 0⟩)
    (sampleRequest "" "alice" (.register [] "alice" "alice@example.com" "password"))

/-- The database fails at one call of the next service. -/
def failingDatabase (site : Site) (call tick : Nat) : Option String :=
  storeFault (some (.store call "database is locked")) (tick - site.2.tick)

theorem failsOnly_failingDatabase (site : Site) (call : Nat) :
    FailsOnly (some (.store call "database is locked")) calmOracle (failingDatabase site call) site where
  store n := by rw [failingDatabase, Nat.add_sub_cancel_left]
  disk n := ⟨fun message amount h => by simp at h, fun _ => calmOracle_quiet _⟩

theorem freshStart_startupSite : FreshStart sampleConfig "new" startupSite.view := by
  have hvacant : ∀ area, area = "spaces" ∨ area = "libraries" → startupSite.view.1.Vacant [area] "new" := by
    intro area harea
    have hdir : startupSite.view.1.node [area] = some .dir := by
      obtain rfl | rfl := harea <;> decide +kernel
    refine ⟨by constructor <;> decide, resolved_of_node ?_ hdir (by simp), hdir, ?_⟩
    · obtain rfl | rfl := harea <;> simp [Ordinary]
    · obtain rfl | rfl := harea <;> decide +kernel
  exact ⟨hvacant "spaces" (Or.inl rfl), hvacant "libraries" (Or.inr rfl), by decide +kernel, by decide +kernel,
    by decide +kernel, by decide +kernel⟩

/-- When her setup cannot be marked as complete, everything is rolled back and Alice may set up again. -/
theorem creation_all_or_nothing_unmarked :
    (∃ error, (((sampleRequest "alice" "new" .setupLibrary).program sampleBackend).run
      (serviceHandler calmOracle (failingDatabase startupSite 6)) startupSite).1 = .error error) ∧
    AllOrNothing sampleBackend (sampleRequest "alice" "new" .setupLibrary) calmOracle
      (failingDatabase startupSite 6) startupSite := by
  refine ⟨⟨.sqlx ⟨"database is locked"⟩, by decide +kernel⟩, ?_⟩
  refine (creation_all_or_nothing_iff _ _ _ _ _ _ plainPrimitives_lawful rfl freshStart_startupSite
    (failsOnly_failingDatabase startupSite 6)).mpr ?_
  simp [Leaves, sampleRequest]

/-- When she cannot be made its owner, the new group stays, and its name is taken when Alice tries again. -/
theorem createGroup_leaves_group :
    let request := sampleRequest "alice" "new" (.createGroup "Band" none)
    let served := (request.program sampleBackend).run
      (serviceHandler calmOracle (failingDatabase startupSite 3)) startupSite
    FailsOnly (some (.store 3 "database is locked")) calmOracle (failingDatabase startupSite 3) startupSite ∧
    served.1 = .error (.sqlx ⟨"database is locked"⟩) ∧
    served.2.db.groups.rows.map Group.name = ["Band"] ∧
    (((sampleRequest "alice" "newer" (.createGroup "Band" none)).program sampleBackend).run
      (serviceHandler calmOracle fun _ => none) served.2).1 = .error (.conflict Group.nameTaken) ∧
    ¬ AllOrNothing sampleBackend request calmOracle (failingDatabase startupSite 3) startupSite := by
  intro request served
  have hfailed : served.1 = .error (.sqlx ⟨"database is locked"⟩) := by decide +kernel
  have hgroups : served.2.db.groups.rows.map Group.name = ["Band"] := by decide +kernel
  refine ⟨failsOnly_failingDatabase startupSite 3, hfailed, hgroups, by decide +kernel, fun h => ?_⟩
  have hview := (h _ hfailed).1
  have hsame : served.2.db.groups.rows.map Group.name = startupSite.db.groups.rows.map Group.name :=
    congrArg (fun view => view.2.db.groups.rows.map Group.name) hview
  rw [hgroups] at hsame
  exact absurd hsame (by decide +kernel)

end IronDrive
