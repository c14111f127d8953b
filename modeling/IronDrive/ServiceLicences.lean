import IronDrive.AccessLevels

/-! What each statement of a request rests on. A request looks up what its actor may do before it changes anything, and
other requests may act in between. What it has been told is kept in a log, and the log says of each statement that
follows why it may be made. -/

namespace IronDrive

open Lib GroupService SpaceService

/-- The calls a request has made, with their answers. -/
abbrev Log : Type 1 := List (Event serviceSignature)

def asked {α : Type} (q : Db → α) (value : α) : Event serviceSignature :=
  ⟨.inr (.select q), (Except.ok value : Except SqlError α)⟩

def executed (statement : Db → Db.Outcome) (answer : Except SqlError Nat) : Event serviceSignature :=
  ⟨.inr (.execute statement), answer⟩

/-- The event is an answered query, and only databases with the property answer it so. -/
def Shows (property : Db → Prop) (event : Event serviceSignature) : Prop :=
  ∃ (α : Type) (q : Db → α) (value : α), event = asked q value ∧ ∀ db, q db = value → property db

def Learned (log : Log) (property : Db → Prop) : Prop := ∃ event ∈ log, Shows property event

/-- Some statement has been made. -/
def Executed (log : Log) : Prop := ∃ statement answer, executed statement answer ∈ log

theorem Learned.mono {log log' : Log} {property : Db → Prop} (h : Learned log property) (hlog : log <+: log') :
    Learned log' property := by
  obtain ⟨event, hmem, hshows⟩ := h
  exact ⟨event, hlog.subset hmem, hshows⟩

theorem Learned.imp {log : Log} {property property' : Db → Prop} (h : Learned log property)
    (himp : ∀ db, property db → property' db) : Learned log property' := by
  obtain ⟨event, hmem, α, q, value, heq, hshows⟩ := h
  exact ⟨event, hmem, α, q, value, heq, fun db hdb => himp db (hshows db hdb)⟩

theorem learned_asked {α : Type} {q : Db → α} {value : α} {property : Db → Prop} (log : Log)
    (h : ∀ db, q db = value → property db) : Learned (log ++ [asked q value]) property :=
  ⟨asked q value, List.mem_append_right _ (List.mem_singleton_self _), α, q, value, rfl, h⟩

theorem Executed.mono {log log' : Log} (h : Executed log) (hlog : log <+: log') : Executed log' := by
  obtain ⟨statement, answer, hmem⟩ := h
  exact ⟨statement, answer, hlog.subset hmem⟩

theorem not_executed_nil : ¬ Executed [] := by
  rintro ⟨statement, answer, hmem⟩
  cases hmem

theorem not_executed_asked {α : Type} {q : Db → α} {value : α} {log : Log} (h : ¬ Executed log) :
    ¬ Executed (log ++ [asked q value]) := by
  rintro ⟨statement, answer, hmem⟩
  rcases List.mem_append.mp hmem with hold | hnew
  · exact h ⟨statement, answer, hold⟩
  · cases List.mem_singleton.mp hnew

/-- The user is an owner or a manager of the group. -/
def Manages (userId groupId : String) (db : Db) : Prop :=
  ∃ member ∈ db.members.rows, member.groupId = groupId ∧ member.userId = userId ∧
    (member.role = roleOwner ∨ member.role = roleManager)

/-- The group is there, and its creator satisfies the condition. -/
def FoundedBy (condition : String → Prop) (groupId : String) (db : Db) : Prop :=
  ∃ group ∈ db.groups.rows, group.id = groupId ∧ condition group.createdBy

/-- The user is resolved to an administrator of the space. -/
def Administers (userId spaceId : String) (db : Db) : Prop := db.resolveUserPermission userId spaceId = some permAdmin

/-- A statement on tables that give nobody a right. -/
def LeavesRights (statement : Db → Db.Outcome) : Prop :=
  ∀ db n db', statement db = .ok (n, db') →
    db'.groups = db.groups ∧ db'.members = db.members ∧ db'.spaces = db.spaces ∧ db'.access = db.access

/-- Why a request may make a call, given what it has been told. -/
inductive Licensed (request : Request) (log : Log) : serviceSignature.Op → Prop
  | disk (op : FsCall) : Licensed request log (.inl op)
  | select {α : Type} (q : Db → α) : Licensed request log (.inr (.select q))
  | keys (change : UnlockState → UnlockState) : Licensed request log (.inr (.keys change))
  | other {statement : Db → Db.Outcome} : LeavesRights statement → Licensed request log (.inr (.execute statement))
  | found {group : Group} : group.id = request.drawn.id → group.createdBy = request.actor → ¬ Executed log →
      Licensed request log (.inr (.execute (Db.insertGroup group)))
  | own {group readBack : Group} {member : GroupMember} {n : Nat} : group.id = request.drawn.id →
      group.createdBy = request.actor → executed (Db.insertGroup group) (.ok n) ∈ log →
      Learned log (fun db => db.findGroupById request.drawn.id = some readBack) → member.groupId = readBack.id →
      member.userId = request.actor → member.role = roleOwner →
      Licensed request log (.inr (.execute (Db.insertMember member)))
  | regroup {groupId name : String} {description : Option String} : Learned log (Manages request.actor groupId) →
      Licensed request log (.inr (.execute (Db.updateGroup groupId name description)))
  | dissolve {groupId : String} : Learned log (FoundedBy (· = request.actor) groupId) →
      Licensed request log (.inr (.execute (Db.deleteGroup groupId)))
  | enrol {member : GroupMember} : Learned log (Manages request.actor member.groupId) →
      member.role = roleManager ∨ member.role = roleMember →
      Licensed request log (.inr (.execute (Db.insertMember member)))
  | expel {groupId userId : String} : Learned log (FoundedBy (· ≠ userId) groupId) →
      userId = request.actor ∨ Learned log (Manages request.actor groupId) →
      Licensed request log (.inr (.execute (Db.deleteMember groupId userId)))
  | promote {groupId userId role : String} :
      Learned log (FoundedBy (fun creator => creator = request.actor ∧ userId ≠ creator) groupId) →
      role = roleManager ∨ role = roleMember →
      Licensed request log (.inr (.execute (Db.updateRole groupId userId role)))
  | openSpace {space : Space} : space.id = request.drawn.id →
      Licensed request log (.inr (.execute (Db.insertSpace space)))
  | retract {space row : Space} {n : Nat} : row.id = request.drawn.id → executed (Db.insertSpace row) (.ok n) ∈ log →
      Learned log (fun db => db.findSpaceById request.drawn.id = some space) →
      Licensed request log (.inr (.execute (Db.deleteSpace space.id)))
  | rename {spaceId name : String} : Learned log (Administers request.actor spaceId) →
      Licensed request log (.inr (.execute (Db.updateSpace spaceId name)))
  | close {spaceId : String} : Learned log (Administers request.actor spaceId) →
      Licensed request log (.inr (.execute (Db.deleteSpace spaceId)))
  | grant {row : SpaceAccess} : Learned log (Administers request.actor row.spaceId) →
      Licensed request log (.inr (.execute (Db.insertAccess row)))
  | revoke {spaceId granteeType granteeId : String} : Learned log (Administers request.actor spaceId) →
      Licensed request log (.inr (.execute (Db.deleteAccess spaceId granteeType granteeId)))
  | regrade {spaceId granteeType granteeId permission : String} : Learned log (Administers request.actor spaceId) →
      Licensed request log (.inr (.execute (Db.updatePermission spaceId granteeType granteeId permission)))

/-- A program all of whose calls are licensed; `R` is what its value and its log are then known to be. -/
def Mediated {α : Type} (request : Request) (log : Log) (program : ServiceProgram α) (R : α → Log → Prop) : Prop :=
  program.Guarded Program.Notes (fun op log => Licensed request log op) log fun result log' =>
    ∀ value, result = .ok value → R value log'

section Rules

variable {request : Request} {log : Log} {α β : Type} {R : α → Log → Prop} {R' : β → Log → Prop}

theorem Mediated.mono {program : ServiceProgram α} {N : α → Log → Prop} (h : Mediated request log program R)
    (hR : ∀ value log', R value log' → N value log') : Mediated request log program N :=
  Program.Guarded.mono h fun _ _ hresult value hvalue => hR _ _ (hresult value hvalue)

theorem Mediated.bind {program : ServiceProgram α} {f : α → ServiceProgram β} (h : Mediated request log program R)
    (hf : ∀ value log', R value log' → Mediated request log' (f value) R') :
    Mediated request log (program.bind f) R' := by
  refine Program.Guarded.bind h (fun value log' hvalue => hf value log' (hvalue value rfl)) ?_
  intro error log' _ value heq
  cases heq

theorem mediated_fail {error : AppError} : Mediated request log (Program.fail error : ServiceProgram α) R := by
  intro value heq
  cases heq

theorem mediated_done {value : α} (h : R value log) :
    Mediated request log (Program.done value : ServiceProgram α) R := by
  intro found heq
  cases heq
  exact h

theorem query_mediated {q : Db → α} {f : α → ServiceProgram β}
    (h : ∀ value, Mediated request (log ++ [asked q value]) (f value) R') :
    Mediated request log ((query q).bind f) R' := by
  refine ⟨.select q, fun answer log' hnotes => ?_⟩
  cases hnotes
  cases answer with
  | ok value => exact h value
  | error error => exact mediated_fail

/-- A query for a row that must be there. -/
theorem found_mediated {error : AppError} {q : Db → Option α} {f : α → ServiceProgram β}
    (h : ∀ value, Mediated request (log ++ [asked q (some value)]) (f value) R') :
    Mediated request log ((query q).bind fun found => (Program.okOr error found).bind f) R' := by
  refine query_mediated fun found => ?_
  cases found with
  | some value => exact h value
  | none => exact mediated_fail

/-- A read back, at the end. -/
theorem readBack_mediated {error : AppError} {q : Db → Option α}
    (h : ∀ value, R value (log ++ [asked q (some value)])) :
    Mediated request log ((query q).bind fun found => Program.okOr error found) R := by
  refine query_mediated fun found => ?_
  cases found with
  | some value => exact mediated_done (h value)
  | none => exact mediated_fail

theorem checked_mediated {result : Except AppError α} {f : α → ServiceProgram β}
    (h : ∀ value, result = .ok value → Mediated request log (f value) R') :
    Mediated request log ((Program.ofExcept result).bind f) R' := by
  cases result with
  | ok value => exact h value rfl
  | error error => exact mediated_fail

theorem execute_mediated {statement : Db → Db.Outcome} {f : Except SqlError Nat → ServiceProgram β}
    (hlicence : Licensed request log (.inr (.execute statement)))
    (h : ∀ answer, Mediated request (log ++ [executed statement answer]) (f answer) R') :
    Mediated request log ((execute statement).bind f) R' := by
  refine ⟨hlicence, fun answer log' hnotes => ?_⟩
  cases hnotes
  exact h answer

theorem insertOr_mediated {conflict : String} {statement : Db → Db.Outcome} {R : Unit → Log → Prop}
    (hlicence : Licensed request log (.inr (.execute statement)))
    (h : ∀ n, R () (log ++ [executed statement (.ok n)])) : Mediated request log (insertOr conflict statement) R := by
  refine ⟨hlicence, fun answer log' hnotes => ?_⟩
  cases hnotes
  cases answer with
  | ok n => exact mediated_done (h n)
  | error error => exact mediated_fail

theorem executeSome_mediated {statement : Db → Db.Outcome} {R : Unit → Log → Prop}
    (hlicence : Licensed request log (.inr (.execute statement)))
    (h : ∀ n, R () (log ++ [executed statement (.ok n)])) : Mediated request log (executeSome statement) R := by
  refine ⟨hlicence, fun answer log' hnotes => ?_⟩
  cases hnotes
  cases answer with
  | ok n =>
      show Mediated request _ (if n = 0 then Program.fail .notFound else Program.done ()) R
      split
      · exact mediated_fail
      · exact mediated_done (h n)
  | error error => exact mediated_fail

theorem Mediated.outcome {program : ServiceProgram α} (h : Mediated request log program R) :
    Mediated request log program.outcome fun _ _ => True :=
  (Program.Guarded.outcome h).mono fun _ _ _ _ _ => trivial

/-- What needs no licence is fine whatever was told before. -/
theorem Mediated.of_only {program : ServiceProgram α} {P : serviceSignature.Op → Prop} {N : α → Prop}
    (h : program.Only P N) (hP : ∀ op log, P op → Licensed request log op)
    (hR : ∀ value log', N value → log <+: log' → R value log') : Mediated request log program R :=
  (h.notes hP).mono fun _ _ hresult value hvalue => hR value _ (hresult.2 value hvalue) hresult.1

end Rules

/-- A call that needs no licence. -/
def Free : serviceSignature.Op → Prop
  | .inr (.execute statement) => LeavesRights statement
  | _ => True

theorem licensed_of_free {request : Request} (op : serviceSignature.Op) (log : Log) (h : Free op) :
    Licensed request log op := by
  cases op with
  | inl op => exact .disk op
  | inr op =>
      cases op with
      | select q => exact .select q
      | keys change => exact .keys change
      | execute statement => exact .other h

theorem query_free {α : Type} (q : Db → α) : (query q).Only Free fun _ => True :=
  ⟨trivial, fun _ => Program.only_ofExcept _⟩

theorem changeKeys_free (change : UnlockState → UnlockState) : (changeKeys change).Only Free fun _ => True :=
  ⟨trivial, fun _ => trivial⟩

theorem onFiles_free {α : Type} (program : FsProgram α) : (onFiles program).Only Free fun _ => True := by
  induction program with
  | done value => trivial
  | fail error => trivial
  | call op next ih => exact ⟨trivial, ih⟩

theorem execute_free {statement : Db → Db.Outcome} (h : LeavesRights statement) :
    (execute statement).Only Free fun _ => True := ⟨h, fun _ => trivial⟩

theorem insertOr_free {conflict : String} {statement : Db → Db.Outcome} (h : LeavesRights statement) :
    (insertOr conflict statement).Only Free fun _ => True := by
  refine ⟨h, fun answer => ?_⟩
  cases answer <;> trivial

theorem user_create_free (drawn : Drawn) (params : User.CreateParams) :
    (User.create drawn params).Only Free fun _ => True := by
  refine Program.Only.bind (query_free _) fun found _ => ?_
  split
  · trivial
  refine Program.Only.bind (query_free _) fun found _ => ?_
  split
  · trivial
  refine Program.Only.bind (insertOr_free fun db n db' h => ?_) fun _ _ => ?_
  · obtain ⟨_, htables⟩ := Db.insertUser_ok h
    simp only [htables, and_self]
  · exact Program.Only.bind (query_free _) fun _ _ => Program.only_okOr _ _

theorem register_free (crates : AuthCrates) (config : AppConfig) (drawn : Drawn) (salt : Bytes)
    (username email password : String) :
    (AuthService.register crates config drawn salt username email password).Only Free fun _ => True := by
  refine (Program.only_ofExcept _).bind fun _ _ => (Program.only_ofExcept _).bind fun _ _ =>
    (Program.only_ofExcept _).bind fun _ _ => (Program.only_ofExcept _).bind fun _ _ => ?_
  exact Program.Only.bind (query_free _) fun _ _ => user_create_free _ _

theorem library_create_free (row : PersonalLibrary) : (PersonalLibrary.create row).Only Free fun _ => True := by
  refine Program.Only.bind (query_free _) fun found _ => ?_
  split
  · trivial
  refine Program.Only.bind (insertOr_free fun db n db' h => ?_) fun _ _ => ?_
  · obtain ⟨_, htables⟩ := Db.insertLibrary_ok h
    simp only [htables, and_self]
  · exact Program.Only.bind (query_free _) fun _ _ => Program.only_okOr _ _

theorem library_deleteById_free (id : String) : (PersonalLibrary.deleteById id).Only Free fun _ => True := by
  refine Program.Only.bind (execute_free fun db n db' h => ?_) fun answer _ => ?_
  · simp only [Db.deleteLibrary_ok h, and_self]
  · cases answer <;> trivial

theorem markSetupComplete_free (now userId : String) : (User.markSetupComplete now userId).Only Free fun _ => True := by
  refine Program.Only.bind (execute_free fun db n db' h => ?_) fun answer _ => ?_
  · simp only [Db.markSetupComplete_ok h, and_self]
  · cases answer with
    | ok count =>
        dsimp only
        split <;> trivial
    | error error => trivial

theorem setupLibrary_free (P : Primitives) (config : AppConfig) (masterKey : MasterKey) (drawn : Drawn)
    (userId : String) :
    (LibraryService.setupLibrary P config masterKey drawn userId).Only Free fun _ => True := by
  unfold LibraryService.setupLibrary
  simp only [Program.bind_eq]
  refine (query_free _).bind fun found _ => (Program.only_okOr _ _).bind fun user _ => ?_
  split
  · trivial
  refine (query_free _).bind fun existing _ => ?_
  split
  · trivial
  refine (Program.only_ofExcept _).bind fun blob _ => (library_create_free _).bind fun library _ =>
    (onFiles_free _).outcome.bind fun made _ => ?_
  cases made with
  | error error => exact (library_deleteById_free _).outcome.bind fun _ _ => trivial
  | ok _ =>
      refine (changeKeys_free _).bind fun _ _ => (markSetupComplete_free _ _).outcome.bind fun marked _ => ?_
      cases marked with
      | error error =>
          exact (changeKeys_free _).bind fun _ _ => (onFiles_free _).bind fun _ _ =>
            (library_deleteById_free _).outcome.bind fun _ _ => trivial
      | ok _ => trivial

section Services

variable {request : Request} {log : Log} {groupId userId spaceId : String}

theorem requireManagerOrOwner_mediated :
    Mediated request log (requireManagerOrOwner groupId userId) fun _ log' =>
      log <+: log' ∧ Learned log' (Manages userId groupId) := by
  refine found_mediated fun member => ?_
  split
  · exact mediated_fail
  case isFalse hrole =>
    refine mediated_done ⟨List.prefix_append _ _, learned_asked log fun db hfound => ?_⟩
    obtain ⟨hgroup, huser⟩ := findMember_key hfound
    refine ⟨member, List.mem_of_find?_eq_some hfound, hgroup, huser, ?_⟩
    by_contra hnone
    rw [not_or] at hnone
    exact hrole hnone

theorem permAdmin_of_level {permission : String} (h : ¬ permissionLevel permission < permissionLevel permAdmin) :
    permission = permAdmin := by
  by_contra hne
  apply h
  simp only [permissionLevel, if_neg hne]
  split
  · decide
  · split <;> decide

theorem requirePermission_mediated :
    Mediated request log (requirePermission userId spaceId permAdmin) fun _ log' =>
      log <+: log' ∧ Learned log' (Administers userId spaceId) := by
  refine found_mediated fun permission => ?_
  split
  · exact mediated_fail
  case isFalse hlevel =>
    refine mediated_done ⟨List.prefix_append _ _, learned_asked log fun db hfound => ?_⟩
    rw [Administers, hfound, permAdmin_of_level hlevel]

/-- A group that was found, with its creator. -/
theorem learned_founder {group : Group} {condition : String → Prop} (h : condition group.createdBy) :
    Learned (log ++ [asked (·.findGroupById groupId) (some group)]) (FoundedBy condition groupId) :=
  learned_asked log fun _ hfound =>
    ⟨group, List.mem_of_find?_eq_some hfound, by simpa using List.find?_some hfound, h⟩

theorem updateGroup_mediated {name : String} {description : Option String} :
    Mediated request log (updateGroup request.actor groupId name description) fun _ _ => True := by
  refine requireManagerOrOwner_mediated.bind fun _ log' hactor => ?_
  obtain ⟨-, hmanages⟩ := hactor
  refine checked_mediated fun name _ => checked_mediated fun description _ => ?_
  unfold Group.update
  simp only [Program.bind_eq]
  refine query_mediated fun holder => ?_
  split
  · exact mediated_fail
  refine execute_mediated (.regroup (hmanages.mono (List.prefix_append _ _))) fun answer => ?_
  cases answer with
  | error error => exact mediated_fail
  | ok count =>
      dsimp only
      split
      · exact mediated_fail
      · exact readBack_mediated fun _ => trivial

theorem deleteGroup_mediated :
    Mediated request log (deleteGroup request.actor groupId) fun _ _ => True := by
  unfold deleteGroup
  simp only [Program.bind_eq]
  refine found_mediated fun group => ?_
  split
  · exact mediated_fail
  case isFalse hcreator =>
    exact executeSome_mediated (.dissolve (learned_founder (not_not.mp hcreator))) fun _ => trivial

/-- A role that may be given is not the owner's. -/
theorem given_role {role : String} (hvalid : validateRole role = .ok ()) (howner : role ≠ roleOwner) :
    role = roleManager ∨ role = roleMember := by
  unfold validateRole at hvalid
  split at hvalid
  case isTrue h => exact h.resolve_left howner
  · cases hvalid

theorem groupMember_add_mediated {now role : String} {R : GroupMember → Log → Prop}
    (hlicence : Licensed request log (.inr (.execute (Db.insertMember ⟨groupId, userId, role, now⟩))))
    (hR : ∀ member log', log <+: log' → Learned log' (fun db => db.findMember groupId userId = some member) →
      R member log') :
    Mediated request log (GroupMember.add now groupId userId role) R := by
  unfold GroupMember.add
  simp only [Program.bind_eq]
  refine (insertOr_mediated (R := fun _ log' => log <+: log') hlicence fun _ => List.prefix_append _ _).bind
    fun _ log' hlog => ?_
  exact readBack_mediated fun member =>
    hR member _ (hlog.trans (List.prefix_append _ _)) (learned_asked log' fun _ h => h)

/-- What is known when a group has been created: it has been there, and has had a member. -/
def Peopled (request : Request) (log : Log) : Prop :=
  ∃ readBack : Group, Learned log (fun db => db.findGroupById request.drawn.id = some readBack) ∧
    Learned log fun db => ∃ member ∈ db.members.rows, member.groupId = readBack.id

theorem createGroup_mediated {name : String} {description : Option String} (hlog : ¬ Executed log) :
    Mediated request log (createGroup request.drawn request.actor name description) fun _ log' =>
      Peopled request log' := by
  unfold createGroup Group.create
  simp only [Program.bind_eq]
  refine checked_mediated fun name _ => checked_mediated fun description _ => ?_
  refine Mediated.bind (R := fun readBack log' => (∃ group n, group.id = request.drawn.id ∧
      group.createdBy = request.actor ∧ executed (Db.insertGroup group) (.ok n) ∈ log') ∧
      Learned log' fun db => db.findGroupById request.drawn.id = some readBack) ?_ fun readBack log' hmade => ?_
  · refine query_mediated fun found => ?_
    split
    · exact mediated_fail
    refine (insertOr_mediated (R := fun _ log' => ∃ group n, group.id = request.drawn.id ∧
      group.createdBy = request.actor ∧ executed (Db.insertGroup group) (.ok n) ∈ log')
      (.found rfl rfl (not_executed_asked hlog)) fun n =>
        ⟨_, n, rfl, rfl, List.mem_append_right _ (List.mem_singleton_self _)⟩).bind fun _ log' hmade => ?_
    refine readBack_mediated fun readBack => ?_
    obtain ⟨group, n, hid, hcreator, hmem⟩ := hmade
    exact ⟨⟨group, n, hid, hcreator, List.mem_append_left _ hmem⟩, learned_asked log' fun _ h => h⟩
  · obtain ⟨⟨group, n, hid, hcreator, hmem⟩, hread⟩ := hmade
    refine (groupMember_add_mediated (.own hid hcreator hmem hread rfl rfl rfl) fun member log'' hlog hfound =>
      (⟨readBack, hread.mono hlog, ?_⟩ : Peopled request log'')).bind fun _ _ hjoined => mediated_done hjoined
    exact hfound.imp fun db h => ⟨member, List.mem_of_find?_eq_some h, (findMember_key h).1⟩

theorem addMember_mediated {now username role : String} :
    Mediated request log (addMember now request.actor groupId username role) fun _ _ => True := by
  unfold addMember
  simp only [Program.bind_eq]
  refine requireManagerOrOwner_mediated.bind fun _ log' hactor => ?_
  obtain ⟨-, hmanages⟩ := hactor
  refine checked_mediated fun _ hvalid => ?_
  split
  · exact mediated_fail
  case isFalse howner =>
    refine found_mediated fun target => ?_
    exact groupMember_add_mediated
      (.enrol (hmanages.mono (List.prefix_append _ _)) (given_role hvalid howner)) fun _ _ _ _ => trivial

theorem requireMember_mediated :
    Mediated request log (requireMember groupId userId) fun _ log' => log <+: log' := by
  refine query_mediated fun isMember => ?_
  split
  · exact mediated_fail
  · exact mediated_done (List.prefix_append _ _)

theorem removeMember_mediated :
    Mediated request log (removeMember request.actor groupId userId) fun _ _ => True := by
  unfold removeMember
  simp only [Program.bind_eq]
  refine found_mediated fun group => ?_
  split
  · exact mediated_fail
  case isFalse hcreator =>
    have hfounder : Learned (log ++ [asked (·.findGroupById groupId) (some group)]) (FoundedBy (· ≠ userId) groupId) :=
      learned_founder fun heq => hcreator heq.symm
    split
    · refine requireManagerOrOwner_mediated.bind fun _ log' hactor => ?_
      exact executeSome_mediated (.expel (hfounder.mono hactor.1) (Or.inr hactor.2)) fun _ => trivial
    case isFalse hself =>
      refine requireMember_mediated.bind fun _ log' hlog => ?_
      exact executeSome_mediated (.expel (hfounder.mono hlog) (Or.inl (not_not.mp hself).symm)) fun _ => trivial

theorem updateMemberRole_mediated {role : String} :
    Mediated request log (updateMemberRole request.actor groupId userId role) fun _ _ => True := by
  unfold updateMemberRole GroupMember.updateRole
  simp only [Program.bind_eq]
  refine found_mediated fun group => ?_
  split
  · exact mediated_fail
  case isFalse hactor =>
    split
    · exact mediated_fail
    case isFalse htarget =>
      refine checked_mediated fun _ hvalid => ?_
      split
      · exact mediated_fail
      case isFalse howner =>
        refine requireMember_mediated.bind fun _ log' hlog => ?_
        refine (executeSome_mediated (R := fun _ _ => True)
          (.promote ((learned_founder ⟨not_not.mp hactor, htarget⟩).mono hlog) (given_role hvalid howner))
            fun _ => trivial).bind fun _ log'' _ => ?_
        exact readBack_mediated fun _ => trivial

variable {P : Primitives} {config : AppConfig} {masterKey : MasterKey} {name ownerType ownerId : String}

theorem createOwned_mediated :
    Mediated request log (createOwned P config masterKey request.drawn ownerType ownerId name) fun _ _ => True := by
  unfold createOwned Space.create
  simp only [Program.bind_eq]
  refine checked_mediated fun blob _ => ?_
  refine Mediated.bind (R := fun readBack log' => (∃ row n, row.id = request.drawn.id ∧
      executed (Db.insertSpace row) (.ok n) ∈ log') ∧
      Learned log' fun db => db.findSpaceById request.drawn.id = some readBack) ?_ fun readBack log' hmade => ?_
  · refine execute_mediated (.openSpace rfl) fun answer => ?_
    cases answer with
    | error error => exact mediated_fail
    | ok n =>
        refine readBack_mediated fun readBack =>
          ⟨⟨Space.ofParams request.drawn ⟨name, ownerType, ownerId, "server", blob⟩, n, rfl, ?_⟩,
            learned_asked _ fun _ h => h⟩
        exact List.mem_append_left _ (List.mem_append_right _ (List.mem_singleton_self _))
  · obtain ⟨⟨row, n, hid, hmem⟩, hread⟩ := hmade
    refine (Mediated.of_only (R := fun _ log'' => log' <+: log'') (onFiles_free _).outcome licensed_of_free
      fun _ _ _ h => h).bind fun result log'' hlog => ?_
    cases result with
    | error error =>
        refine Mediated.bind (R := fun _ _ => True) ?_ fun _ _ _ => mediated_fail
        exact (executeSome_mediated (R := fun _ _ => True) (.retract hid (hlog.subset hmem) (hread.mono hlog))
          fun _ => trivial).outcome
    | ok _ => exact (Mediated.of_only (R := fun _ _ => True) (changeKeys_free _) licensed_of_free
        fun _ _ _ _ => trivial).bind fun _ _ _ => mediated_done trivial

theorem createSpace_mediated :
    Mediated request log (createSpace P config masterKey request.drawn ownerId name) fun _ _ => True :=
  checked_mediated fun _ _ => createOwned_mediated

theorem createGroupSpace_mediated :
    Mediated request log (createGroupSpace P config masterKey request.drawn groupId name) fun _ _ => True := by
  unfold createGroupSpace
  simp only [Program.bind_eq]
  exact checked_mediated fun _ _ => found_mediated fun _ => createOwned_mediated

theorem updateSpace_mediated :
    Mediated request log (updateSpace request.actor spaceId name) fun _ _ => True := by
  unfold updateSpace Space.update
  simp only [Program.bind_eq]
  refine requirePermission_mediated.bind fun _ log' hactor => checked_mediated fun name _ => ?_
  refine (executeSome_mediated (R := fun _ _ => True) (.rename hactor.2) fun _ => trivial).bind fun _ log'' _ => ?_
  exact readBack_mediated fun _ => trivial

theorem deleteSpace_mediated :
    Mediated request log (deleteSpace config request.actor spaceId) fun _ _ => True := by
  unfold deleteSpace Space.deleteById
  simp only [Program.bind_eq]
  refine requirePermission_mediated.bind fun _ log' hactor => ?_
  refine (executeSome_mediated (R := fun _ _ => True) (.close hactor.2) fun _ => trivial).bind fun _ log'' _ => ?_
  refine Mediated.of_only (N := fun _ => True) ?_ licensed_of_free fun _ _ _ _ => trivial
  exact (changeKeys_free _).bind fun _ _ => (onFiles_free _).bind fun _ _ => trivial

variable {now username permission granteeType granteeId : String}

theorem spaceAccess_grant_mediated
    (hadmin : Learned log (Administers request.actor spaceId)) :
    Mediated request log (SpaceAccess.grant now spaceId granteeType granteeId permission) fun _ _ => True := by
  have hlicence : Licensed request log
      (.inr (.execute (Db.insertAccess ⟨spaceId, granteeType, granteeId, permission, now⟩))) := .grant hadmin
  unfold SpaceAccess.grant
  simp only [Program.bind_eq]
  refine (insertOr_mediated (R := fun _ _ => True) hlicence fun _ => trivial).bind fun _ _ _ => ?_
  exact readBack_mediated fun _ => trivial

theorem grantUserAccess_mediated :
    Mediated request log (grantUserAccess now request.actor spaceId username permission) fun _ _ => True := by
  unfold grantUserAccess
  simp only [Program.bind_eq]
  refine requirePermission_mediated.bind fun _ log' hactor => checked_mediated fun _ _ => ?_
  refine found_mediated fun target => ?_
  exact spaceAccess_grant_mediated (hactor.2.mono (List.prefix_append _ _))

theorem grantGroupAccess_mediated :
    Mediated request log (grantGroupAccess now request.actor spaceId groupId permission) fun _ _ => True := by
  unfold grantGroupAccess
  simp only [Program.bind_eq]
  refine requirePermission_mediated.bind fun _ log' hactor => checked_mediated fun _ _ => found_mediated fun group => ?_
  exact spaceAccess_grant_mediated (hactor.2.mono (List.prefix_append _ _))

theorem revokeAccess_mediated :
    Mediated request log (revokeAccess request.actor spaceId granteeType granteeId) fun _ _ => True :=
  requirePermission_mediated.bind fun _ _ hactor => executeSome_mediated (.revoke hactor.2) fun _ => trivial

theorem updateAccessPermission_mediated :
    Mediated request log (updateAccessPermission request.actor spaceId granteeType granteeId permission)
      fun _ _ => True := by
  unfold updateAccessPermission SpaceAccess.updatePermission
  simp only [Program.bind_eq]
  refine requirePermission_mediated.bind fun _ log' hactor => checked_mediated fun _ _ => ?_
  refine (executeSome_mediated (R := fun _ _ => True) (.regrade hactor.2) fun _ => trivial).bind fun _ _ _ => ?_
  exact readBack_mediated fun _ => trivial

end Services

/-! ### Requests -/

theorem discard_mediated {request : Request} {log : Log} {α : Type} {program : ServiceProgram α} {R : Log → Prop}
    (h : Mediated request log program fun _ log' => R log') :
    Mediated request log (discard program) fun _ log' => R log' :=
  h.bind fun _ _ hR => mediated_done hR

/-- Every call of a request is licensed by what it has been told, and a group it has created has had a member. -/
theorem request_mediated (backend : Backend) (request : Request) :
    Mediated request [] (request.program backend) fun _ log =>
      (∃ name description, request.operation = .createGroup name description) → Peopled request log := by
  obtain ⟨actor, drawn, operation⟩ := request
  have hplain : ∀ {α : Type} {program : ServiceProgram α},
      Mediated ⟨actor, drawn, operation⟩ [] program (fun _ _ => True) →
      (∀ name description, operation ≠ .createGroup name description) →
        Mediated ⟨actor, drawn, operation⟩ [] program fun _ log =>
          (∃ name description, operation = .createGroup name description) → Peopled ⟨actor, drawn, operation⟩ log := by
    intro α program h hop
    refine h.mono fun _ _ _ hcreate => ?_
    obtain ⟨name, description, heq⟩ := hcreate
    exact absurd heq (hop name description)
  have hfree : ∀ {α : Type} {program : ServiceProgram α}, (program.Only Free fun _ => True) →
      Mediated ⟨actor, drawn, operation⟩ [] program fun _ _ => True :=
    fun h => Mediated.of_only h licensed_of_free fun _ _ _ _ => trivial
  cases operation with
  | createGroup name description =>
      exact discard_mediated ((createGroup_mediated not_executed_nil).mono fun _ _ hjoined _ => hjoined)
  | register salt username email password =>
      exact discard_mediated (hplain (hfree (register_free _ _ _ _ _ _ _)) (by simp))
  | setupLibrary => exact discard_mediated (hplain (hfree (setupLibrary_free _ _ _ _ _)) (by simp))
  | updateGroup groupId name description => exact discard_mediated (hplain updateGroup_mediated (by simp))
  | deleteGroup groupId => exact hplain deleteGroup_mediated (by simp)
  | addMember groupId username role => exact discard_mediated (hplain addMember_mediated (by simp))
  | removeMember groupId userId => exact hplain removeMember_mediated (by simp)
  | updateMemberRole groupId userId role => exact discard_mediated (hplain updateMemberRole_mediated (by simp))
  | createSpace name => exact discard_mediated (hplain createSpace_mediated (by simp))
  | createGroupSpace groupId name => exact discard_mediated (hplain createGroupSpace_mediated (by simp))
  | updateSpace spaceId name => exact discard_mediated (hplain updateSpace_mediated (by simp))
  | deleteSpace spaceId => exact hplain deleteSpace_mediated (by simp)
  | grantUserAccess spaceId username permission => exact discard_mediated (hplain grantUserAccess_mediated (by simp))
  | grantGroupAccess spaceId groupId permission => exact discard_mediated (hplain grantGroupAccess_mediated (by simp))
  | revokeAccess spaceId granteeType granteeId => exact hplain revokeAccess_mediated (by simp)
  | updateAccessPermission spaceId granteeType granteeId permission =>
      exact discard_mediated (hplain updateAccessPermission_mediated (by simp))

end IronDrive
