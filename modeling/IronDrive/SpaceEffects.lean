import IronDrive.GroupEffects
import IronDrive.SpaceService

/-! What the operations on spaces can do to the database and to the keys in memory, whatever happens on the
disk. -/

namespace IronDrive

open Lib CryptoService SpaceService

section

variable (G : Option String → Prop) (P : Primitives) (masterKey : MasterKey) (drawn : Drawn)

/-- What the creation of a space answers and leaves behind. -/
inductive Creation (ownerType ownerId : String) (records : Records) :
    Except AppError SpaceWithMeta → Records → Prop
  | rejected (error : AppError) : Creation ownerType ownerId records (.error error) records
  /-- The database failed after the row was stored, and the row stays. -/
  | stranded {error : AppError} {message name : String} {blob : Bytes} {n : Nat} {db' : Db} :
      G (some message) →
      Db.insertSpace (Space.ofParams drawn ⟨name, ownerType, ownerId, "server", blob⟩) records.db =
        .ok (n, db') →
      Creation ownerType ownerId records (.error error) { records with db := db' }
  | created {name : String} {blob : Bytes} {n : Nat} {db' : Db} :
      wrapDataKey P masterKey drawn.nonce drawn.dataKey = .ok blob →
      Db.insertSpace (Space.ofParams drawn ⟨name, ownerType, ownerId, "server", blob⟩) records.db =
        .ok (n, db') →
      Creation ownerType ownerId records
        (.ok { space := Space.ofParams drawn ⟨name, ownerType, ownerId, "server", blob⟩, granteeCount := 0,
               userPermission := permAdmin })
        ⟨db', records.unlockState.insertSpaceKey drawn.id drawn.dataKey⟩

/-- The effects of the space service on behalf of an actor. -/
inductive SpaceEffect (actor : String) (records : Records) : Records → Prop
  | rejected : SpaceEffect actor records records
  | opened {ownerType ownerId : String} {result : Except AppError SpaceWithMeta} {records' : Records} :
      ownerType = "user" ∧ ownerId = actor ∨
        ownerType = "group" ∧ ownerId ∈ records.db.groups.rows.map Group.id →
      Creation G P masterKey drawn ownerType ownerId records result records' →
      SpaceEffect actor records records'
  | renamed {spaceId name : String} {n : Nat} {db' : Db} :
      records.db.resolveUserPermission actor spaceId = some permAdmin →
      Db.updateSpace spaceId name records.db = .ok (n, db') →
      SpaceEffect actor records { records with db := db' }
  | deleted {spaceId : String} {n : Nat} {db' : Db} :
      records.db.resolveUserPermission actor spaceId = some permAdmin →
      Db.deleteSpace spaceId records.db = .ok (n, db') →
      SpaceEffect actor records ⟨db', records.unlockState.removeSpaceKey spaceId⟩
  | granted {row : SpaceAccess} {n : Nat} {db' : Db} :
      Db.insertAccess row records.db = .ok (n, db') →
      records.db.resolveUserPermission actor row.spaceId = some permAdmin →
      validatePermission row.permission = .ok () →
      row.granteeType = "user" ∧ row.granteeId ∈ records.db.users.rows.map UserRow.id ∨
        row.granteeType = "group" ∧ row.granteeId ∈ records.db.groups.rows.map Group.id →
      SpaceEffect actor records { records with db := db' }
  | revoked {spaceId granteeType granteeId : String} {n : Nat} {db' : Db} :
      records.db.resolveUserPermission actor spaceId = some permAdmin →
      Db.deleteAccess spaceId granteeType granteeId records.db = .ok (n, db') →
      SpaceEffect actor records { records with db := db' }
  | regraded {spaceId granteeType granteeId permission : String} {n : Nat} {db' : Db} :
      records.db.resolveUserPermission actor spaceId = some permAdmin →
      validatePermission permission = .ok () →
      Db.updatePermission spaceId granteeType granteeId permission records.db = .ok (n, db') →
      SpaceEffect actor records { records with db := db' }

end

variable {F : Choice → Prop} {G : Option String → Prop} {P : Primitives} {masterKey : MasterKey} {drawn : Drawn}
  {config : AppConfig} {α β : Type} {v : FileTree × Records} {actor spaceId : String}
  {Q : Except AppError β → FileTree × Records → Prop}

theorem requireAdmin_bind {f : Unit → ServiceProgram β}
    (hok : v.2.db.resolveUserPermission actor spaceId = some permAdmin → (f ()).Ensures (Serves F G) v Q)
    (hreject : ∀ error, Q (.error error) v) :
    ((requirePermission actor spaceId permAdmin).bind f).Ensures (Serves F G) v Q := by
  rw [requirePermission, Program.bind_eq, Program.bind_assoc]
  simp only [Program.bind_eq, Program.bind_assoc]
  refine found_bind (fun perm hperm => ?_) hreject
  by_cases hlow : permissionLevel perm < permissionLevel permAdmin
  · rw [if_pos hlow]
    exact hreject _
  · rw [if_neg hlow]
    have hadmin : perm = permAdmin := by
      by_contra hne
      apply hlow
      simp only [permissionLevel, if_neg hne]
      split
      · decide
      · split <;> decide
    rw [hadmin] at hperm
    exact hok hperm

theorem space_create_ensures {params : Space.CreateParams}
    {Q : Except AppError Space → FileTree × Records → Prop}
    (hdone : ∀ n db', Db.insertSpace (Space.ofParams drawn params) v.2.db = .ok (n, db') →
      Q (.ok (Space.ofParams drawn params)) (v.1, { v.2 with db := db' }))
    (hlost : ∀ n db' message, G (some message) →
      Db.insertSpace (Space.ofParams drawn params) v.2.db = .ok (n, db') →
      Q (.error (.sqlx ⟨message⟩)) (v.1, { v.2 with db := db' }))
    (hreject : ∀ error, Q (.error error) v) : (Space.create drawn params).Ensures (Serves F G) v Q := by
  refine execute_bind ?_ fun message _ => hreject _
  cases h : Db.insertSpace (Space.ofParams drawn params) v.2.db with
  | error refusal =>
      rw [Db.execute_error h]
      exact hreject _
  | ok found =>
      obtain ⟨n, db'⟩ := found
      rw [Db.execute_ok h]
      refine query_bind ?_ fun message hG => hlost n db' message hG h
      have hback := Db.findSpaceById_insertSpace h
      apply Program.ensures_okOr
      · intro space hspace
        rw [Option.some.inj (hspace.symm.trans hback)]
        exact hdone n db' h
      · intro hnone
        cases hnone.symm.trans hback

/-- A rollback removes the row again, unless the database fails. -/
theorem space_rollback_ensures {space : Space} {made : Db} {n : Nat} {records : Records} {tree : FileTree}
    (hinsert : Db.insertSpace space records.db = .ok (n, made)) :
    (Space.deleteById space.id).Ensures (Serves F G) (tree, { records with db := made }) fun _ v' =>
      v'.2 = records ∨ ∃ message, G (some message) ∧ v'.2 = { records with db := made } := by
  have hdelete : ((Space.deleteById space.id).bind Program.done).Ensures (Serves F G)
      (tree, { records with db := made }) fun _ v' =>
        v'.2 = records ∨ ∃ message, G (some message) ∧ v'.2 = { records with db := made } := by
    apply executeSome_bind
    · intro count db' h _
      left
      rw [Db.deleteSpace_insertSpace hinsert h]
    · intro db' h
      left
      rw [Db.deleteSpace_insertSpace hinsert h]
    · intro error h
      cases h
    · intro message hG
      exact Or.inr ⟨message, hG, rfl⟩
  rwa [Program.bind_done] at hdelete

theorem createOwned_ensures {ownerType ownerId name : String} :
    (createOwned P config masterKey drawn ownerType ownerId name).Ensures (Serves F G) v fun result v' =>
      Creation G P masterKey drawn ownerType ownerId v.2 result v'.2 := by
  unfold createOwned
  refine Program.ensures_ofExcept_bind (fun blob hblob => ?_) fun error _ => .rejected error
  set space := Space.ofParams drawn ⟨name, ownerType, ownerId, "server", blob⟩ with hspace
  have hcreate : (Space.create drawn ⟨name, ownerType, ownerId, "server", blob⟩).Ensures (Serves F G) v
      fun result v' => (∃ n db', result = .ok space ∧ Db.insertSpace space v.2.db = .ok (n, db') ∧
        v' = (v.1, { v.2 with db := db' })) ∨
        ∃ error, result = .error error ∧
          Creation G P masterKey drawn ownerType ownerId v.2 (.error error) v'.2 := by
    apply space_create_ensures
    · intro n db' h
      exact Or.inl ⟨n, db', rfl, h, rfl⟩
    · intro n db' message hG h
      exact Or.inr ⟨_, rfl, .stranded hG h⟩
    · intro error
      exact Or.inr ⟨error, rfl, .rejected error⟩
  refine hcreate.bind ?_ ?_
  · intro found v' h
    obtain ⟨n, made, hfound, hinsert, rfl⟩ | ⟨_, herror, _⟩ := h
    · obtain rfl : found = space := Except.ok.inj hfound
      refine onFiles_outcome_bind (Program.ensures_true _ _) fun result tree _ => ?_
      cases result with
      | error e =>
          refine (space_rollback_ensures hinsert).outcome_bind fun _ v' h => ?_
          rw [Program.ensures_fail]
          obtain h | ⟨message, hG, h⟩ := h
          · rw [h]
            exact .rejected e
          · rw [h]
            exact .stranded hG hinsert
      | ok _ =>
          apply changeKeys_bind
          exact .created hblob hinsert
    · cases herror
  · intro error v' h
    obtain ⟨_, _, hresult, _⟩ | ⟨_, herror, hcreation⟩ := h
    · cases hresult
    · cases herror
      exact hcreation

theorem createSpace_ensures {ownerId name : String} :
    (createSpace P config masterKey drawn ownerId name).Ensures (Serves F G) v fun result v' =>
      Creation G P masterKey drawn "user" ownerId v.2 result v'.2 := by
  exact Program.ensures_ofExcept_bind (fun name _ => createOwned_ensures) fun error _ => .rejected error

/-- A space for a group that is not there is refused. -/
theorem createGroupSpace_ensures {groupId name : String} :
    (createGroupSpace P config masterKey drawn groupId name).Ensures (Serves F G) v fun result v' =>
      Creation G P masterKey drawn "group" groupId v.2 result v'.2 ∧
        (groupId ∈ v.2.db.groups.rows.map Group.id ∨ v'.2 = v.2) := by
  refine Program.ensures_ofExcept_bind (fun name _ => ?_) fun error _ => ⟨.rejected error, Or.inr rfl⟩
  refine found_bind (fun group hgroup => ?_) fun error => ⟨.rejected error, Or.inr rfl⟩
  have hmem : groupId ∈ v.2.db.groups.rows.map Group.id := by
    rw [← findGroupById_id hgroup]
    exact List.mem_map_of_mem (List.mem_of_find?_eq_some hgroup)
  exact createOwned_ensures.mono fun result v' h => ⟨h, Or.inl hmem⟩

theorem createSpace_effect {name : String} :
    (createSpace P config masterKey drawn actor name).Ensures (Serves F G) v fun _ v' =>
      SpaceEffect G P masterKey drawn actor v.2 v'.2 :=
  createSpace_ensures.mono fun _ _ h => .opened (Or.inl ⟨rfl, rfl⟩) h

theorem createGroupSpace_effect {groupId name : String} :
    (createGroupSpace P config masterKey drawn groupId name).Ensures (Serves F G) v fun _ v' =>
      SpaceEffect G P masterKey drawn actor v.2 v'.2 := by
  refine createGroupSpace_ensures.mono fun result v' h => ?_
  obtain ⟨hcreation, hgroup | hsame⟩ := h
  · exact .opened (Or.inr ⟨rfl, hgroup⟩) hcreation
  · rw [hsame]
    exact .rejected

theorem updateSpace_effect {name : String} :
    (updateSpace actor spaceId name).Ensures (Serves F G) v fun _ v' =>
      SpaceEffect G P masterKey drawn actor v.2 v'.2 := by
  refine requireAdmin_bind (fun hadmin => ?_) fun _ => .rejected
  refine Program.ensures_ofExcept_bind (fun name _ => ?_) fun _ _ => .rejected
  apply executeSome_bind
  · intro n db' h _
    exact readBack_ensures fun _ => .renamed hadmin h
  · intro db' h
    exact .renamed hadmin h
  · intro _ _
    exact .rejected
  · intro _ _
    exact .rejected

theorem deleteSpace_effect :
    (deleteSpace config actor spaceId).Ensures (Serves F G) v fun _ v' =>
      SpaceEffect G P masterKey drawn actor v.2 v'.2 := by
  refine requireAdmin_bind (fun hadmin => ?_) fun _ => .rejected
  apply executeSome_bind
  · intro n db' h _
    apply changeKeys_bind
    exact onFiles_bind (Program.ensures_true _ _) (fun _ _ _ => .deleted hadmin h) fun _ _ _ => .deleted hadmin h
  · intro db' h
    rw [Db.deleteSpace_zero h]
    exact .rejected
  · intro _ _
    exact .rejected
  · intro _ _
    exact .rejected

theorem grant_ensures {now granteeType granteeId permission : String}
    (hadmin : v.2.db.resolveUserPermission actor spaceId = some permAdmin)
    (hvalid : validatePermission permission = .ok ())
    (hgrantee : granteeType = "user" ∧ granteeId ∈ v.2.db.users.rows.map UserRow.id ∨
      granteeType = "group" ∧ granteeId ∈ v.2.db.groups.rows.map Group.id) :
    (SpaceAccess.grant now spaceId granteeType granteeId permission).Ensures (Serves F G) v fun _ v' =>
      SpaceEffect G P masterKey drawn actor v.2 v'.2 := by
  apply insertOr_bind
  · intro n db' h
    exact readBack_ensures fun _ => .granted h hadmin hvalid hgrantee
  · intro _ _
    exact .rejected
  · intro _ _
    exact .rejected

theorem grantUserAccess_effect {now targetUsername permission : String} :
    (grantUserAccess now actor spaceId targetUsername permission).Ensures (Serves F G) v fun _ v' =>
      SpaceEffect G P masterKey drawn actor v.2 v'.2 := by
  refine requireAdmin_bind (fun hadmin => ?_) fun _ => .rejected
  refine Program.ensures_ofExcept_bind (fun _ hvalid => ?_) fun _ _ => .rejected
  refine found_bind (fun target htarget => ?_) fun _ => .rejected
  obtain ⟨row, hrow, rfl⟩ := Option.map_eq_some_iff.mp htarget
  exact grant_ensures hadmin hvalid (Or.inl ⟨rfl, List.mem_map_of_mem (List.mem_of_find?_eq_some hrow)⟩)

theorem grantGroupAccess_effect {now groupId permission : String} :
    (grantGroupAccess now actor spaceId groupId permission).Ensures (Serves F G) v fun _ v' =>
      SpaceEffect G P masterKey drawn actor v.2 v'.2 := by
  refine requireAdmin_bind (fun hadmin => ?_) fun _ => .rejected
  refine Program.ensures_ofExcept_bind (fun _ hvalid => ?_) fun _ _ => .rejected
  refine found_bind (fun group hgroup => ?_) fun _ => .rejected
  have hmem : groupId ∈ v.2.db.groups.rows.map Group.id := by
    rw [← findGroupById_id hgroup]
    exact List.mem_map_of_mem (List.mem_of_find?_eq_some hgroup)
  exact grant_ensures hadmin hvalid (Or.inr ⟨rfl, hmem⟩)

theorem revokeAccess_effect {granteeType granteeId : String} :
    (revokeAccess actor spaceId granteeType granteeId).Ensures (Serves F G) v fun _ v' =>
      SpaceEffect G P masterKey drawn actor v.2 v'.2 := by
  refine requireAdmin_bind (fun hadmin => ?_) fun _ => .rejected
  exact executeSome_ensures (fun n db' _ h => .revoked hadmin h) fun _ => .rejected

theorem updateAccessPermission_effect {granteeType granteeId permission : String} :
    (updateAccessPermission actor spaceId granteeType granteeId permission).Ensures (Serves F G) v fun _ v' =>
      SpaceEffect G P masterKey drawn actor v.2 v'.2 := by
  refine requireAdmin_bind (fun hadmin => ?_) fun _ => .rejected
  refine Program.ensures_ofExcept_bind (fun _ hvalid => ?_) fun _ _ => .rejected
  apply executeSome_bind
  · intro n db' h _
    exact readBack_ensures fun _ => .regraded hadmin hvalid h
  · intro db' h
    exact .regraded hadmin hvalid h
  · intro _ _
    exact .rejected
  · intro _ _
    exact .rejected

/-! ### The frame -/

/-- An operation on spaces changes spaces and grants only. -/
theorem SpaceEffect.frame {records records' : Records} (h : SpaceEffect G P masterKey drawn actor records records') :
    records'.db.toTables =
      { records.db.toTables with spaces := records'.db.spaces, access := records'.db.access } := by
  cases h with
  | rejected => rfl
  | opened _ hcreation =>
      cases hcreation with
      | rejected error => rfl
      | stranded _ hinsert =>
          obtain ⟨_, htables⟩ := Db.insertSpace_ok hinsert
          rw [htables]
      | created _ hinsert =>
          obtain ⟨_, htables⟩ := Db.insertSpace_ok hinsert
          rw [htables]
  | renamed _ hrename => rw [Db.updateSpace_ok hrename]
  | deleted _ hdelete => rw [Db.deleteSpace_ok hdelete]
  | granted hinsert _ _ _ =>
      obtain ⟨_, htables⟩ := Db.insertAccess_ok hinsert
      rw [htables]
  | revoked _ hdelete => rw [Db.deleteAccess_ok hdelete]
  | regraded _ _ hchange => rw [Db.updatePermission_ok hchange]

end IronDrive
