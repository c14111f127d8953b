import IronDrive.Operations

/-! Registrations that run at the same time. Whether there are users yet is asked before the new user is inserted,
and the insertion does not ask again: two registrations may both find nobody there. -/

namespace IronDrive

open Lib

/-- The arguments of a registration, with what it draws. -/
structure RegisterCall where
  drawn : Drawn
  salt : Bytes
  username : String
  email : String
  password : String

def RegisterCall.program (crates : AuthCrates) (config : AppConfig) (call : RegisterCall) : ServiceProgram User :=
  AuthService.register crates config call.drawn call.salt call.username call.email call.password

def admins (db : Db) : List UserRow := db.users.rows.filter (·.user.role = "admin")

variable {ι : Type} {oracle : Nat → Choice} {dbOracle : Nat → Option String}

/-- A call that adds at most so many administrators. -/
def AddsAdmins (limit : Nat) : serviceSignature.Op → Prop
  | .inr (.execute statement) => ∀ db n db', statement db = .ok (n, db') →
      (admins db').length ≤ (admins db).length + limit
  | _ => True

theorem admins_after (oracle : Nat → Choice) (dbOracle : Nat → Option String) {limit : Nat}
    {op : serviceSignature.Op} (hop : AddsAdmins limit op) (site : Site) :
    (admins (serviceHandler oracle dbOracle op site).2.db).length ≤ (admins site.db).length + limit := by
  cases op with
  | inl op => exact Nat.le_add_right _ _
  | inr op =>
      simp only [serviceHandler, Program.sumHandler, storeHandler, Site.db]
      cases op with
      | select q => exact Nat.le_add_right _ _
      | keys change => exact Nat.le_add_right _ _
      | execute statement =>
          cases hfault : dbOracle site.2.tick with
          | some message => exact Nat.le_add_right _ _
          | none =>
              simp only [StoreCall.perform]
              cases hstatement : statement site.2.records.db with
              | error error =>
                  rw [Db.execute_error hstatement]
                  exact Nat.le_add_right _ _
              | ok found =>
                  obtain ⟨count, db'⟩ := found
                  rw [Db.execute_ok hstatement]
                  exact hop _ _ _ hstatement

theorem admins_insertUser {row : UserRow} {db db' : Db} {n : Nat} (h : Db.insertUser row db = .ok (n, db')) :
    admins db' = admins db ++ [row].filter (·.user.role = "admin") := by
  obtain ⟨hid, htables⟩ := Db.insertUser_ok h
  rw [admins, htables]
  exact List.filter_append db.users.rows [row]

theorem insertUser_adds (row : UserRow) : AddsAdmins 1 (.inr (.execute (Db.insertUser row))) := by
  intro db n db' h
  rw [admins_insertUser h, List.length_append]
  exact Nat.add_le_add_left (List.length_filter_le _ [row]) _

theorem insertUser_adds_none {row : UserRow} (hrole : row.user.role ≠ "admin") :
    AddsAdmins 0 (.inr (.execute (Db.insertUser row))) := by
  intro db n db' h
  have hnone : [row].filter (·.user.role = "admin") = [] := by simp [hrole]
  rw [admins_insertUser h, hnone, List.append_nil, Nat.add_zero]

theorem query_adds {α : Type} (q : Db → α) : (query q).Only (AddsAdmins 0) fun _ => True :=
  ⟨trivial, fun _ => Program.only_ofExcept _⟩

theorem insertOr_rest {conflict : String} (answer : Except SqlError Nat) :
    (match answer with
      | .ok _ => (return () : ServiceProgram Unit)
      | .error e => Program.fail (if isUniqueViolation e then .conflict conflict else .sqlx e)).Only
        (AddsAdmins 0) fun _ => True := by
  cases answer <;> trivial

/-- Creating a user makes one insertion, between look-ups. -/
theorem user_create_once (drawn : Drawn) (params : User.CreateParams) :
    (User.create drawn params).Once (AddsAdmins 0) (AddsAdmins 1) := by
  refine Program.Only.once_bind (query_adds _) fun found _ => ?_
  split
  · trivial
  refine Program.Only.once_bind (query_adds _) fun found _ => ?_
  split
  · trivial
  refine Program.Once.bind_only (Or.inr ⟨insertUser_adds _, insertOr_rest⟩) fun _ => ?_
  exact Program.Only.bind (query_adds _) fun _ _ => Program.only_okOr _ _

theorem user_create_only (drawn : Drawn) {params : User.CreateParams} (hrole : params.role ≠ "admin") :
    (User.create drawn params).Only (AddsAdmins 0) fun _ => True := by
  refine Program.Only.bind (query_adds _) fun found _ => ?_
  split
  · trivial
  refine Program.Only.bind (query_adds _) fun found _ => ?_
  split
  · trivial
  refine Program.Only.bind (R := fun _ => True) ⟨insertUser_adds_none hrole, insertOr_rest⟩ fun _ _ => ?_
  exact Program.Only.bind (query_adds _) fun _ _ => Program.only_okOr _ _

/-- A registration that is about to ask whether there are users; only the answer that there are none lets it
add an administrator. -/
def Unchecked (t : ServiceProgram User) : Prop :=
  ∃ next : Except SqlError Bool → ServiceProgram User, t = .call (.inr (.select Db.noUsers)) next ∧
    (next (.ok true)).Once (AddsAdmins 0) (AddsAdmins 1) ∧
    ∀ answer, answer ≠ .ok true → (next answer).Only (AddsAdmins 0) fun _ => True

theorem register_stage (crates : AuthCrates) (config : AppConfig) (call : RegisterCall) :
    (call.program crates config).Only (AddsAdmins 0) (fun _ => True) ∨ Unchecked (call.program crates config) := by
  rw [RegisterCall.program, AuthService.register]
  cases AuthService.normalizeUsername call.username with
  | error error => exact Or.inl trivial
  | ok username =>
  cases AuthService.normalizeEmail call.email with
  | error error => exact Or.inl trivial
  | ok email =>
  cases AuthService.validatePassword call.password with
  | error error => exact Or.inl trivial
  | ok _ =>
  cases crates.hashPassword call.salt call.password with
  | error error => exact Or.inl trivial
  | ok passwordHash =>
  refine Or.inr ⟨_, rfl, user_create_once _ _, fun answer hanswer => ?_⟩
  match answer with
  | .error error => trivial
  | .ok true => exact absurd rfl hanswer
  | .ok false => exact user_create_only _ (show "user" ≠ "admin" by decide)

/-! ### Any number of registrations -/

section Race

variable {programs : ι → ServiceProgram User} {past : List (ι × Event serviceSignature)} {site : Site}
  {j : ι}

/-- A registration has been told that there are no users. -/
def SawNoUsers (past : List (ι × Event serviceSignature)) (i : ι) : Prop :=
  (i, (⟨.inr (.select Db.noUsers), Except.ok true⟩ : Event serviceSignature)) ∈ past

/-- Where one asks and there are no users, all others that were told so have stopped. -/
def Alone (past : List (ι × Event serviceSignature)) (programs : ι → ServiceProgram User) (db : Db) (j : ι) :
    Prop :=
  ∀ next, programs j = .call (.inr (.select Db.noUsers)) next → db.noUsers = true →
    ∀ i, i ≠ j → SawNoUsers past i → Pool.Stopped (programs i)

/-- How far a registration is: it adds no administrator, has not asked yet, or is the one that may still add
the first. -/
def Staged (candidate : Option ι) (past : List (ι × Event serviceSignature)) (db : Db) (i : ι)
    (t : ServiceProgram User) : Prop :=
  (t.Only (AddsAdmins 0) fun _ => True) ∨ Unchecked t ∨
    (candidate = some i ∧ t.Once (AddsAdmins 0) (AddsAdmins 1) ∧ SawNoUsers past i ∧ (admins db).length = 0)

/-- What the interleaved registrations keep. -/
def Supervised (past : List (ι × Event serviceSignature)) (programs : ι → ServiceProgram User) (db : Db) : Prop :=
  (admins db).length ≤ 1 ∧ ∃ candidate : Option ι, ∀ i, Staged candidate past db i (programs i)

theorem Staged.later {candidate : Option ι} {db db' : Db} {i : ι} {t : ServiceProgram User}
    (h : Staged candidate past db i t) (hle : (admins db').length ≤ (admins db).length)
    (recent : List (ι × Event serviceSignature)) : Staged candidate (past ++ recent) db' i t := by
  obtain hplain | hunchecked | ⟨hcandidate, honce, hsaw, hzero⟩ := h
  · exact Or.inl hplain
  · exact Or.inr (Or.inl hunchecked)
  · exact Or.inr (Or.inr ⟨hcandidate, honce, List.mem_append_left _ hsaw, by omega⟩)

theorem admins_of_noUsers {db : Db} (h : db.noUsers = true) : (admins db).length = 0 := by
  have hrows : db.users.rows = [] := List.isEmpty_iff.mp h
  rw [admins, hrows]
  rfl

/-- The answer is true of the database. -/
theorem noUsers_of_answer
    (h : (serviceHandler oracle dbOracle (.inr (.select Db.noUsers)) site).1 = Except.ok true) :
    site.db.noUsers = true := by
  simp only [serviceHandler, Program.sumHandler, storeHandler, StoreCall.perform] at h
  split at h
  · cases h
  · exact Except.ok.inj h

theorem only_of_stopped {P : serviceSignature.Op → Prop} {t : ServiceProgram User} (h : Pool.Stopped t) :
    t.Only P fun _ => True := by
  cases t with
  | done value => trivial
  | fail error => trivial
  | call op next => exact absurd rfl (h op next)

/-- One turn, given how the registration whose turn it is goes on and how the others stand. -/
theorem supervised_update [DecidableEq ι] (candidate : Option ι) {t : ServiceProgram User} {db : Db}
    (hone : (admins db).length ≤ 1) (hself : Staged candidate past db j t)
    (hothers : ∀ i, i ≠ j → Staged candidate past db i (programs i)) :
    Supervised past (Function.update programs j t) db := by
  refine ⟨hone, candidate, fun i => ?_⟩
  by_cases hij : i = j
  · subst hij
    rw [Function.update_self]
    exact hself
  · rw [Function.update_of_ne hij]
    exact hothers i hij

/-- The step: a call of one registration. -/
theorem supervised_call [DecidableEq ι] (oracle : Nat → Choice) (dbOracle : Nat → Option String)
    {op : serviceSignature.Op} {next : serviceSignature.Answer op → ServiceProgram User}
    (h : Supervised past programs site.db) (halone : Alone past programs site.db j)
    (hj : programs j = .call op next) :
    Supervised (past ++ [(j, ⟨op, (serviceHandler oracle dbOracle op site).1⟩)])
      (Function.update programs j (next (serviceHandler oracle dbOracle op site).1))
      (serviceHandler oracle dbOracle op site).2.db := by
  obtain ⟨hone, candidate, hall⟩ := h
  have hstage := hall j
  rw [hj] at hstage
  obtain hplain | hunchecked | ⟨rfl, honce, hsaw, hzero⟩ := hstage
  · have hle := admins_after oracle dbOracle hplain.1 site
    exact supervised_update candidate (by omega) (Or.inl (hplain.2 _)) fun i _ => (hall i).later (by omega) _
  · obtain ⟨next', heq, hyes, hno⟩ := hunchecked
    cases heq
    have hle : (admins (serviceHandler oracle dbOracle (.inr (.select Db.noUsers)) site).2.db).length ≤
        (admins site.db).length := le_rfl
    by_cases hanswer : (serviceHandler oracle dbOracle (.inr (.select Db.noUsers)) site).1 = Except.ok true
    · -- There are no users, so whoever was a candidate has stopped.
      have hempty := noUsers_of_answer hanswer
      have hzero := admins_of_noUsers hempty
      rw [hanswer]
      refine supervised_update (some j) (by omega) ?_ fun i hij => ?_
      · exact Or.inr (Or.inr ⟨rfl, hyes, List.mem_append_right _ (List.mem_singleton.mpr rfl), by omega⟩)
      · obtain hplain | hunchecked | ⟨-, -, hsaw, -⟩ := hall i
        · exact Or.inl hplain
        · exact Or.inr (Or.inl hunchecked)
        · exact Or.inl (only_of_stopped (halone _ hj hempty i hij hsaw))
    · exact supervised_update candidate (by omega) (Or.inl (hno _ hanswer)) fun i _ => (hall i).later hle _
  · obtain ⟨hop, hnext⟩ | ⟨hop, hnext⟩ := honce
    · have hle := admins_after oracle dbOracle hop site
      refine supervised_update (some j) (by omega) ?_ fun i _ => (hall i).later (by omega) _
      exact Or.inr (Or.inr ⟨rfl, hnext _, List.mem_append_left _ hsaw, by omega⟩)
    · -- The candidate inserts; nobody else is one.
      have hle := admins_after oracle dbOracle hop site
      refine supervised_update none (by omega) (Or.inl (hnext _)) fun i hij => ?_
      obtain hplain | hunchecked | ⟨hcandidate, -⟩ := hall i
      · exact Or.inl hplain
      · exact Or.inr (Or.inl hunchecked)
      · exact absurd (Option.some.inj hcandidate).symm hij

/-- Whenever a registration asks and there are no users, all others that were told so have stopped. -/
def NeverRivalled [DecidableEq ι] (oracle : Nat → Choice) (dbOracle : Nat → Option String)
    (programs : ι → ServiceProgram User) (site : Site) (schedule : List ι) : Prop :=
  ∀ before j after, schedule = before ++ j :: after →
    Alone (Pool.trace (serviceHandler oracle dbOracle) before programs site)
      (Pool.run (serviceHandler oracle dbOracle) before programs site).1
      (Pool.run (serviceHandler oracle dbOracle) before programs site).2.db j

/-- The run: what one turn keeps, a schedule keeps. -/
theorem supervised_run [DecidableEq ι] (schedule : List ι)
    (hstart : ∀ i, ((programs i).Only (AddsAdmins 0) fun _ => True) ∨ Unchecked (programs i))
    (hempty : site.db.noUsers = true) (hnever : NeverRivalled oracle dbOracle programs site schedule) :
    Supervised (Pool.trace (serviceHandler oracle dbOracle) schedule programs site)
      (Pool.run (serviceHandler oracle dbOracle) schedule programs site).1
      (Pool.run (serviceHandler oracle dbOracle) schedule programs site).2.db := by
  induction schedule using List.reverseRecOn with
  | nil =>
      have hzero := admins_of_noUsers hempty
      refine ⟨by simp only [Pool.run]; omega, none, fun i => ?_⟩
      obtain hplain | hunchecked := hstart i
      · exact Or.inl hplain
      · exact Or.inr (Or.inl hunchecked)
  | append_singleton before j ih =>
      have hbefore := ih fun first k after hsplit => hnever first k (after ++ [j]) (by rw [hsplit]; simp)
      have halone := hnever before j [] rfl
      rw [Pool.run_snoc, Pool.trace_append]
      cases hj : (Pool.run (serviceHandler oracle dbOracle) before programs site).1 j with
      | call op next =>
          have hstep := supervised_call oracle dbOracle hbefore halone hj
          simp only [Pool.trace, hj]
          exact hstep
      | done value =>
          simp only [Pool.trace, hj, List.append_nil, Pool.turn]
          rw [← hj, Function.update_eq_self]
          exact hbefore
      | fail error =>
          simp only [Pool.trace, hj, List.append_nil, Pool.turn]
          rw [← hj, Function.update_eq_self]
          exact hbefore

end Race

/-- Registrations that start where there are no users and never rival each other make at most one administrator,
however their steps interleave and whatever fails. -/
theorem register_admin_unique [DecidableEq ι] (crates : AuthCrates) (config : AppConfig) (calls : ι → RegisterCall)
    (oracle : Nat → Choice) (dbOracle : Nat → Option String) (site : Site) (schedule : List ι)
    (hempty : site.db.noUsers = true)
    (hnever : NeverRivalled oracle dbOracle (fun i => (calls i).program crates config) site schedule) :
    (admins (Pool.run (serviceHandler oracle dbOracle) schedule
      (fun i => (calls i).program crates config) site).2.db).length ≤ 1 :=
  (supervised_run schedule (fun i => register_stage crates config (calls i)) hempty hnever).1

def sampleCalls (first : Bool) : RegisterCall where
  drawn := sampleDrawn (if first then "alice" else "bob")
  salt := []
  username := if first then "alice" else "bob"
  email := if first then "alice@example.com" else "bob@example.com"
  password := "password"

def samplePrograms (first : Bool) : ServiceProgram User := (sampleCalls first).program sampleAuthCrates sampleConfig

/-- Each registration makes five calls; Bob starts when Alice is through. -/
def oneAfterTheOther : List Bool := List.replicate 5 true ++ List.replicate 5 false

/-- Bob asks whether there are users before Alice is inserted. -/
def bothAtOnce : List Bool := true :: false :: (List.replicate 4 true ++ List.replicate 4 false)

theorem register_admin_unique_in_turn :
    let after := Pool.run (serviceHandler calmOracle fun _ => none) oneAfterTheOther samplePrograms emptySite
    (Pool.succeeded (after.1 true) = true ∧ Pool.succeeded (after.1 false) = true) ∧
      (admins after.2.db).length ≤ 1 := by
  have hquiet : ∀ n < 10,
      (Pool.run (serviceHandler calmOracle fun _ => none) (oneAfterTheOther.take n) samplePrograms
        emptySite).2.db.noUsers = false ∨
      ∀ i ∈ (Pool.trace (serviceHandler calmOracle fun _ => none) (oneAfterTheOther.take n) samplePrograms
        emptySite).map Prod.fst, some i = oneAfterTheOther[n]? := by
    decide +kernel
  refine ⟨by decide +kernel, register_admin_unique sampleAuthCrates sampleConfig sampleCalls calmOracle
    (fun _ => none) emptySite oneAfterTheOther rfl ?_⟩
  intro before j after hsplit next hnext hempty i hij hsaw
  have htake : oneAfterTheOther.take before.length = before := by
    rw [hsplit, List.take_left]
  have hget : oneAfterTheOther[before.length]? = some j := by
    rw [hsplit, List.getElem?_append_right (Nat.le_refl _), Nat.sub_self]
    rfl
  have hlength : before.length < 10 := by
    have h := congrArg List.length hsplit
    rw [List.length_append, List.length_cons] at h
    have hten : oneAfterTheOther.length = 10 := rfl
    omega
  have hcase := hquiet before.length hlength
  rw [htake, hget] at hcase
  obtain hsome | honly := hcase
  · cases hsome.symm.trans hempty
  · exact absurd (Option.some.inj (honly i (List.mem_map_of_mem hsaw))) hij

/-- Both are told that there are no users, and both become administrators. -/
theorem register_two_admins :
    let after := Pool.run (serviceHandler calmOracle fun _ => none) bothAtOnce samplePrograms emptySite
    emptySite.db.noUsers = true ∧ (admins after.2.db).map UserRow.username = ["alice", "bob"] ∧
      ¬ (admins after.2.db).length ≤ 1 := by
  decide +kernel

end IronDrive
