import IronDrive.AuthService
import IronDrive.GroupEffects
import IronDrive.LibraryService

/-! What registering a user and setting up a library can do to the database and to the keys in memory, whatever
happens on the disk. -/

namespace IronDrive

open Lib CryptoService

section

variable (G : Option String → Prop) (P : Primitives) (masterKey : MasterKey) (drawn : Drawn)

/-- What registering a user answers and leaves behind. -/
inductive RegisterEffect (db : Db) : Db → Prop
  | rejected : RegisterEffect db db
  | registered {params : User.CreateParams} {n : Nat} {db' : Db} :
      params.role = (if db.noUsers then "admin" else "user") →
      Db.insertUser (User.ofParams drawn params) db = .ok (n, db') → RegisterEffect db db'

/-- What setting up a library answers and leaves behind. -/
inductive SetupEffect (userId : String) (records : Records) : Except AppError PersonalLibrary → Records → Prop
  | rejected (error : AppError) : SetupEffect userId records (.error error) records
  /-- The database failed to mark the user, and everything was undone. -/
  | undone {error : AppError} {message : String} :
      G (some message) →
      SetupEffect userId records (.error error) { records with
        unlockState := (records.unlockState.insertLibraryKey drawn.id drawn.dataKey).removeLibraryKey drawn.id }
  /-- The database failed after the row was stored, and the row stays. -/
  | stranded {error : AppError} {message : String} {blob : Bytes} {n : Nat} {db' : Db} {keys : UnlockState} :
      G (some message) →
      Db.insertLibrary (PersonalLibrary.serverMode drawn userId blob) records.db = .ok (n, db') →
      keys = records.unlockState ∨
        keys = (records.unlockState.insertLibraryKey drawn.id drawn.dataKey).removeLibraryKey drawn.id →
      SetupEffect userId records (.error error) ⟨db', keys⟩
  | created {blob : Bytes} {n m : Nat} {made db' : Db} :
      wrapDataKey P masterKey drawn.nonce drawn.dataKey = .ok blob →
      Db.insertLibrary (PersonalLibrary.serverMode drawn userId blob) records.db = .ok (n, made) →
      Db.markSetupComplete userId drawn.now made = .ok (m, db') →
      SetupEffect userId records (.ok (PersonalLibrary.serverMode drawn userId blob))
        ⟨db', records.unlockState.insertLibraryKey drawn.id drawn.dataKey⟩

end

variable {F : Choice → Prop} {G : Option String → Prop} {P : Primitives} {masterKey : MasterKey} {drawn : Drawn}
  {config : AppConfig} {v : FileTree × Records} {userId : String}

theorem user_create_ensures {params : User.CreateParams}
    {Q : Except AppError User → FileTree × Records → Prop}
    (hdone : ∀ n db' result, Db.insertUser (User.ofParams drawn params) v.2.db = .ok (n, db') →
      Q result (v.1, { v.2 with db := db' }))
    (hreject : ∀ error, Q (.error error) v) : (User.create drawn params).Ensures (Serves F G) v Q := by
  refine query_bind ?_ fun message _ => hreject _
  split
  · exact hreject _
  · refine query_bind ?_ fun message _ => hreject _
    split
    · exact hreject _
    · refine insertOr_bind (fun n db' h => ?_) (fun _ _ => hreject _) fun _ _ => hreject _
      exact readBack_ensures fun result => hdone n db' result h

theorem register_effect {crates : AuthCrates} {salt : Bytes} {username email password : String} :
    (AuthService.register crates config drawn salt username email password).Ensures (Serves F G) v
      fun _ v' => OnDb (RegisterEffect drawn) v v' := by
  have hrejected : OnDb (RegisterEffect drawn) v v := ⟨v.2.db, rfl, .rejected⟩
  refine Program.ensures_ofExcept_bind (fun username _ => ?_) fun _ _ => hrejected
  refine Program.ensures_ofExcept_bind (fun email _ => ?_) fun _ _ => hrejected
  refine Program.ensures_ofExcept_bind (fun _ _ => ?_) fun _ _ => hrejected
  refine Program.ensures_ofExcept_bind (fun passwordHash _ => ?_) fun _ _ => hrejected
  refine query_bind ?_ fun _ _ => hrejected
  exact user_create_ensures (fun n db' _ h => ⟨db', rfl, .registered rfl h⟩) fun _ => hrejected

theorem library_create_ensures {row : PersonalLibrary}
    {Q : Except AppError PersonalLibrary → FileTree × Records → Prop}
    (hdone : ∀ n db', Db.insertLibrary row v.2.db = .ok (n, db') → Q (.ok row) (v.1, { v.2 with db := db' }))
    (hlost : ∀ n db' message, G (some message) → Db.insertLibrary row v.2.db = .ok (n, db') →
      Q (.error (.sqlx ⟨message⟩)) (v.1, { v.2 with db := db' }))
    (hreject : ∀ error, Q (.error error) v) : (PersonalLibrary.create row).Ensures (Serves F G) v Q := by
  refine query_bind ?_ fun message _ => hreject _
  split
  · exact hreject _
  · refine insertOr_bind (fun n db' h => ?_) (fun error _ => hreject _) fun message _ => hreject _
    refine query_bind ?_ fun message hG => hlost n db' message hG h
    have hback := Db.findLibraryById_insertLibrary h
    apply Program.ensures_okOr
    · intro library hlibrary
      rw [Option.some.inj (hlibrary.symm.trans hback)]
      exact hdone n db' h
    · intro hnone
      cases hnone.symm.trans hback

/-- A rollback removes the row again, unless the database fails. -/
theorem library_rollback_ensures {library : PersonalLibrary} {db made : Db} {n : Nat} {keys : UnlockState}
    {tree : FileTree} (hinsert : Db.insertLibrary library db = .ok (n, made)) :
    (PersonalLibrary.deleteById library.id).Ensures (Serves F G) (tree, ⟨made, keys⟩) fun _ v' =>
      v'.2 = ⟨db, keys⟩ ∨ ∃ message, G (some message) ∧ v'.2 = ⟨made, keys⟩ := by
  refine execute_bind ?_ fun message hG => Or.inr ⟨message, hG, rfl⟩
  cases h : Db.deleteLibrary library.id made with
  | error refusal => cases h
  | ok found =>
      obtain ⟨m, db'⟩ := found
      rw [Db.execute_ok h, Db.deleteLibrary_insertLibrary hinsert h]
      exact Or.inl rfl

/-- What is left when the user cannot be marked: the database failed there. -/
theorem markSetupComplete_ensures {made : Db} {keys : UnlockState} {tree : FileTree} {user : User}
    (hfound : made.findUserById userId = some user) :
    (User.markSetupComplete drawn.now userId).Ensures (Serves F G) (tree, ⟨made, keys⟩) fun result v' =>
      (∃ error message, result = .error error ∧ G (some message) ∧ v' = (tree, ⟨made, keys⟩)) ∨
        ∃ m db', result = .ok () ∧ Db.markSetupComplete userId drawn.now made = .ok (m, db') ∧
          v' = (tree, ⟨db', keys⟩) := by
  have hmark : ((User.markSetupComplete drawn.now userId).bind Program.done).Ensures (Serves F G)
      (tree, ⟨made, keys⟩) fun result v' =>
        (∃ error message, result = .error error ∧ G (some message) ∧ v' = (tree, ⟨made, keys⟩)) ∨
          ∃ m db', result = .ok () ∧ Db.markSetupComplete userId drawn.now made = .ok (m, db') ∧
            v' = (tree, ⟨db', keys⟩) := by
    apply executeSome_bind
    · intro m db' h _
      exact Or.inr ⟨m, db', rfl, h, rfl⟩
    · intro db' h
      obtain ⟨_, hsome, hcount⟩ := Db.markSetupComplete_of_found hfound drawn.now
      exact absurd (Prod.mk.inj (Except.ok.inj (hsome.symm.trans h))).1 hcount
    · intro error h
      cases h
    · intro message hG
      exact Or.inl ⟨_, message, rfl, hG, rfl⟩
  rwa [Program.bind_done] at hmark

theorem setupLibrary_effect :
    (LibraryService.setupLibrary P config masterKey drawn userId).Ensures (Serves F G) v fun result v' =>
      SetupEffect G P masterKey drawn userId v.2 result v'.2 := by
  refine found_bind (fun user huser => ?_) fun error => .rejected error
  split
  · exact .rejected _
  refine query_bind ?_ fun _ _ => .rejected _
  split
  · exact .rejected _
  refine Program.ensures_ofExcept_bind (fun blob hblob => ?_) fun error _ => .rejected error
  set library := PersonalLibrary.serverMode drawn userId blob with hlibrary
  have hcreate : (PersonalLibrary.create library).Ensures (Serves F G) v fun result v' =>
      (∃ n db', result = .ok library ∧ Db.insertLibrary library v.2.db = .ok (n, db') ∧
        v' = (v.1, { v.2 with db := db' })) ∨
        ∃ error, result = .error error ∧ SetupEffect G P masterKey drawn userId v.2 (.error error) v'.2 := by
    apply library_create_ensures
    · intro n db' h
      exact Or.inl ⟨n, db', rfl, h, rfl⟩
    · intro n db' message hG h
      exact Or.inr ⟨_, rfl, .stranded hG h (Or.inl rfl)⟩
    · intro error
      exact Or.inr ⟨error, rfl, .rejected error⟩
  refine hcreate.bind ?_ ?_
  · intro found v' h
    obtain ⟨n, made, hfound, hinsert, rfl⟩ | ⟨_, herror, _⟩ := h
    · obtain rfl : found = library := Except.ok.inj hfound
      have huser' : made.findUserById userId = some user := by
        obtain ⟨hid, htables⟩ := Db.insertLibrary_ok hinsert
        rw [Db.findUserById, htables]
        exact huser
      refine onFiles_outcome_bind (Program.ensures_true _ _) fun result tree _ => ?_
      cases result with
      | error e =>
          refine (library_rollback_ensures hinsert).outcome_bind fun _ v' h => ?_
          rw [Program.ensures_fail]
          obtain h | ⟨message, hG, h⟩ := h
          · rw [h]
            exact .rejected e
          · rw [h]
            exact .stranded hG hinsert (Or.inl rfl)
      | ok _ =>
          apply changeKeys_bind
          refine (markSetupComplete_ensures huser').outcome_bind fun marked v' h => ?_
          obtain ⟨error, message, rfl, hG, rfl⟩ | ⟨m, db', rfl, hmark, rfl⟩ := h
          · apply changeKeys_bind
            refine onFiles_bind (Program.ensures_true _ _) (fun _ tree' _ => ?_) fun error' tree' _ => ?_
            · refine (library_rollback_ensures hinsert).outcome_bind fun _ v' h => ?_
              rw [Program.ensures_fail]
              obtain h | ⟨message', hG', h⟩ := h
              · rw [h]
                exact .undone hG
              · rw [h]
                exact .stranded hG' hinsert (Or.inr rfl)
            · exact .stranded hG hinsert (Or.inr rfl)
          · exact .created hblob hinsert hmark
    · cases herror
  · intro error v' h
    obtain ⟨_, _, hresult, _⟩ | ⟨_, herror, hcreation⟩ := h
    · cases hresult
    · cases herror
      exact hcreation

/-! ### The frame -/

/-- Registering changes the users only. -/
theorem RegisterEffect.frame {db db' : Db} (h : RegisterEffect drawn db db') :
    db'.toTables = { db.toTables with users := db'.users } := by
  cases h with
  | rejected => rfl
  | registered _ hinsert =>
      obtain ⟨_, htables⟩ := Db.insertUser_ok hinsert
      rw [htables]

/-- Setting up changes users and libraries only. -/
theorem SetupEffect.frame {records records' : Records} {result : Except AppError PersonalLibrary}
    (h : SetupEffect G P masterKey drawn userId records result records') :
    records'.db.toTables =
      { records.db.toTables with users := records'.db.users, libraries := records'.db.libraries } := by
  cases h with
  | rejected => rfl
  | undone => rfl
  | stranded _ hinsert _ =>
      obtain ⟨_, htables⟩ := Db.insertLibrary_ok hinsert
      rw [htables]
  | created _ hinsert hmark =>
      obtain ⟨_, hmade⟩ := Db.insertLibrary_ok hinsert
      rw [Db.markSetupComplete_ok hmark, hmade]

end IronDrive
