import Mathlib.Data.Set.Function
import IronDrive.DatabaseSteps
import IronDrive.Operations

/-! Login sessions. Four operations create and delete the rows of sessions, each deletion for a reason of its
own. The history of a run says which tokens still stand: those that a login issued and their user has not logged
out since. The rows are the standing tokens, except that some which have expired are already gone. -/

namespace IronDrive

open Lib

inductive SessionOp
  | login (config : AppConfig) (drawn : Drawn) (token username password : String)
  | logout (userId token : String)
  | validate (token : String)
  | deleteExpired

inductive SessionAnswer
  | loggedIn (result : AuthService.LoginResult)
  | loggedOut
  | found (session : Option SessionRow)
  | removed (count : Nat)

variable (crates : AuthCrates) (P : Primitives)

/-- A caller presents the raw token; the services see its hash. -/
def SessionOp.program (now : Int) : SessionOp → ServiceProgram SessionAnswer
  | .login config drawn token username password =>
      (AuthService.login crates config P drawn now token username password).bind fun result => .done (.loggedIn result)
  | .logout userId token => (AuthService.logout userId (AuthService.hashToken P token)).bind fun _ => .done .loggedOut
  | .validate token =>
      (SessionRow.validate crates now (AuthService.hashToken P token)).bind fun session => .done (.found session)
  | .deleteExpired => (SessionRow.deleteExpired crates now).bind fun count => .done (.removed count)

/-- An operation, when it was made and what it answered. -/
structure SessionEvent where
  now : Int
  op : SessionOp
  answer : Except AppError SessionAnswer

/-- One step: an operation under any failures of the disk and the database. -/
def Attend (site : Site) (event : SessionEvent) (site' : Site) : Prop :=
  ∃ oracle dbOracle,
    (event.op.program crates P event.now).run (serviceHandler oracle dbOracle) site = (event.answer, site')

/-- A token, whose it is, and the second it expires at. -/
structure Grant where
  token : String
  userId : String
  expires : Int

/-- A login that succeeded. -/
def SessionEvent.Issues (event : SessionEvent) (grant : Grant) : Prop :=
  ∃ config drawn username password result,
    event.op = .login config drawn grant.token username password ∧ event.answer = .ok (.loggedIn result) ∧
    grant.userId = result.user.id ∧
    grant.expires = (event.now + 3600 * nanos * ChunkService.toI64 config.sessionExpiryHours) / nanos

/-- A logout of the token by its own user that succeeded. -/
def SessionEvent.Ends (event : SessionEvent) (grant : Grant) : Prop :=
  event.op = .logout grant.userId grant.token ∧ ∃ answer, event.answer = .ok answer

/-- The token was issued by a login, and its user has not logged it out since. -/
def Standing (events : List SessionEvent) (grant : Grant) : Prop :=
  ∃ before event after, events = before ++ event :: after ∧ event.Issues grant ∧
    ∀ later ∈ after, ¬ later.Ends grant

/-- The event logs this token in or out. -/
def SessionEvent.Concerns (event : SessionEvent) (token : String) : Prop :=
  match event.op with
  | .login _ _ other _ _ | .logout _ other => other = token
  | .validate _ | .deleteExpired => False

/-- The event's token and the expiry date it writes are among the given ones. -/
def SessionEvent.Within (tokens : Set String) (moments : Set Int) (event : SessionEvent) : Prop :=
  match event.op with
  | .login config _ token _ _ => token ∈ tokens ∧
      (event.now + 3600 * nanos * ChunkService.toI64 config.sessionExpiryHours) / nanos ∈ moments
  | .logout _ token => token ∈ tokens
  | .validate _ | .deleteExpired => True

/-- Dates to the second are read back as they were written, and no text of an earlier date comes after theirs. It
holds of the years with four digits. -/
structure AuthCrates.Dated (moments : Set Int) : Prop where
  parse_format : ∀ second ∈ moments, crates.parseTimestamp (crates.formatTimestamp second) = some second
  format_le : ∀ second ∈ moments, ∀ now : Int,
    crates.formatTimestamp second ≤ crates.formatTimestamp now → second ≤ now

variable {crates : AuthCrates} {P : Primitives} {tokens : Set String} {moments : Set Int} {event : SessionEvent}
  {events : List SessionEvent} {grant : Grant} {db db' : Db} {now : Int}

theorem standing_snoc :
    Standing (events ++ [event]) grant ↔ event.Issues grant ∨ Standing events grant ∧ ¬ event.Ends grant := by
  constructor
  · intro h
    obtain ⟨before, issuing, after, hsplit, hissues, hlater⟩ := h
    rcases List.eq_nil_or_concat after with rfl | ⟨earlier, last, rfl⟩
    · obtain ⟨-, hlast⟩ := List.append_inj' hsplit rfl
      exact Or.inl ((List.singleton_inj.mp hlast) ▸ hissues)
    · rw [List.concat_eq_append, ← List.cons_append, ← List.append_assoc] at hsplit
      obtain ⟨hevents, hlast⟩ := List.append_inj' hsplit rfl
      refine Or.inr ⟨⟨before, issuing, earlier, hevents, hissues, fun e he => hlater e (by simp [he])⟩, ?_⟩
      rw [List.singleton_inj.mp hlast]
      exact hlater last (by simp)
  · intro h
    rcases h with hissues | ⟨⟨before, issuing, after, rfl, hissues, hlater⟩, hnot⟩
    · exact ⟨events, event, [], rfl, hissues, fun e he => absurd he List.not_mem_nil⟩
    · refine ⟨before, issuing, after ++ [event], by simp, hissues, fun e he => ?_⟩
      rcases List.mem_append.mp he with hold | hnew
      · exact hlater e hold
      · exact (List.mem_singleton.mp hnew) ▸ hnot

/-- What stands was issued by some event. -/
theorem Standing.issued (h : Standing events grant) : ∃ event ∈ events, event.Issues grant := by
  obtain ⟨before, issuing, after, rfl, hissues, -⟩ := h
  exact ⟨issuing, by simp, hissues⟩

theorem SessionEvent.Issues.within (h : event.Issues grant) (hwithin : event.Within tokens moments) :
    grant.token ∈ tokens ∧ grant.expires ∈ moments := by
  obtain ⟨config, drawn, username, password, result, hop, -, -, hexpires⟩ := h
  rw [SessionEvent.Within, hop] at hwithin
  rw [hexpires]
  exact hwithin

/-- The row a grant is stored as. -/
def SessionRow.Records (crates : AuthCrates) (P : Primitives) (row : SessionRow) (grant : Grant) : Prop :=
  row.userId = grant.userId ∧ row.tokenHash = AuthService.hashToken P grant.token ∧
    row.expiresAt = crates.formatTimestamp grant.expires

/-- Why a row is cleaned up: it has expired, by its date or by the text of it. -/
def SessionRow.Lapsed (crates : AuthCrates) (now : Int) (row : SessionRow) : Prop :=
  row.isExpired crates now = true ∨ row.expiresAt ≤ crates.formatTimestamp (now / nanos)

/-- How an operation moves the rows, and what it did to the grants. -/
inductive SessionEffect (crates : AuthCrates) (P : Primitives) (event : SessionEvent) (db : Db) : Db → Prop
  | kept : (∀ grant, ¬ event.Issues grant) → (∀ grant, ¬ event.Ends grant) → SessionEffect crates P event db db
  | loggedIn {row : SessionRow} {n : Nat} {db' : Db} :
      (∀ grant, event.Issues grant → row.Records crates P grant) → (∃ grant, event.Issues grant) →
      (∀ grant, ¬ event.Ends grant) → Db.insertSession row db = .ok (n, db') →
      SessionEffect crates P event db db'
  | loggedOut {userId token : String} {n : Nat} {db' : Db} :
      event.op = .logout userId token → (∃ answer, event.answer = .ok answer) →
      Db.deleteSessions (fun row => row.userId = userId && row.tokenHash = AuthService.hashToken P token) db =
        .ok (n, db') →
      SessionEffect crates P event db db'
  | lapsed {p : SessionRow → Bool} {n : Nat} {db' : Db} :
      (∀ grant, ¬ event.Issues grant) → (∀ grant, ¬ event.Ends grant) →
      (∀ row ∈ db.sessions.rows, p row = true → row.Lapsed crates event.now) →
      Db.deleteSessions p db = .ok (n, db') → SessionEffect crates P event db db'

/-- A cleanup deletes some of the rows that have expired. -/
def Cleaned (crates : AuthCrates) (now : Int) (db db' : Db) : Prop :=
  db' = db ∨ ∃ p n, (∀ row ∈ db.sessions.rows, p row = true → row.Lapsed crates now) ∧
    Db.deleteSessions p db = .ok (n, db')

def SessionOp.Cleans : SessionOp → Prop
  | .login .. | .logout .. => False
  | .validate _ | .deleteExpired => True

theorem Cleaned.effect {op : SessionOp} {answer : Except AppError SessionAnswer} (h : Cleaned crates now db db')
    (hop : op.Cleans) : SessionEffect crates P ⟨now, op, answer⟩ db db' := by
  have hissues : ∀ grant, ¬ SessionEvent.Issues ⟨now, op, answer⟩ grant := by
    intro grant hissues
    obtain ⟨_, _, _, _, _, rfl, -⟩ := hissues
    exact hop
  have hends : ∀ grant, ¬ SessionEvent.Ends ⟨now, op, answer⟩ grant := by
    intro grant hends
    obtain ⟨rfl, -⟩ := hends
    exact hop
  rcases h with rfl | ⟨p, n, hlapsed, hdelete⟩
  · exact .kept hissues hends
  · exact .lapsed hissues hends hlapsed hdelete

section Effects

variable {F : Choice → Prop} {G : Option String → Prop} {v : FileTree × Records}

/-- A deletion that goes through, or fails and changes nothing. -/
theorem deleteRows_ensures {p : SessionRow → Bool} {Q : Except AppError Nat → FileTree × Records → Prop}
    (hdone : ∀ n db', Db.deleteSessions p v.2.db = .ok (n, db') → Q (.ok n) (v.1, { v.2 with db := db' }))
    (hfault : ∀ error, Q (.error error) v) : (SessionRow.delete p).Ensures (Serves F G) v Q := by
  refine execute_bind ?_ fun message _ => hfault _
  cases h : Db.deleteSessions p v.2.db with
  | error refusal => cases h
  | ok found =>
      obtain ⟨n, db'⟩ := found
      rw [Db.execute_ok h]
      exact hdone n db' h

theorem login_ensures {config : AppConfig} {drawn : Drawn} {token username password : String} :
    (AuthService.login crates config P drawn now token username password).Ensures (Serves F G) v
      fun result v' => match result with
        | .ok result => ∃ row n, row.userId = result.user.id ∧ row.tokenHash = AuthService.hashToken P token ∧
            row.expiresAt = crates.formatTimestamp
              ((now + 3600 * nanos * ChunkService.toI64 config.sessionExpiryHours) / nanos) ∧
            Db.insertSession row v.2.db = .ok (n, v'.2.db)
        | .error _ => v'.2.db = v.2.db := by
  refine Program.ensures_ofExcept_bind (fun name _ => ?_) fun _ _ => rfl
  refine found_bind (fun found _ => ?_) fun _ => rfl
  obtain ⟨userId, storedHash⟩ := found
  refine Program.ensures_ofExcept_bind (fun isValid _ => ?_) fun _ _ => rfl
  dsimp only
  split
  · rfl
  refine found_bind (fun user _ => ?_) fun _ => rfl
  split
  · rfl
  refine Program.Ensures.bind (P := fun result v' => match result with
    | .ok row => row.userId = user.id ∧ row.tokenHash = AuthService.hashToken P token ∧
        row.expiresAt = crates.formatTimestamp
          ((now + 3600 * nanos * ChunkService.toI64 config.sessionExpiryHours) / nanos) ∧
        ∃ n, Db.insertSession row v.2.db = .ok (n, v'.2.db)
    | .error _ => v'.2.db = v.2.db) ?_ ?_ fun _ _ h => h
  · refine execute_bind ?_ fun _ _ => rfl
    cases h : Db.insertSession _ v.2.db with
    | error refusal =>
        rw [Db.execute_error h]
        rfl
    | ok found =>
        obtain ⟨n, db'⟩ := found
        rw [Db.execute_ok h]
        exact ⟨rfl, rfl, rfl, n, h⟩
  · intro row v' h
    obtain ⟨huser, hhash, hexpires, n, hinsert⟩ := h
    exact ⟨row, n, huser, hhash, hexpires, hinsert⟩

theorem logout_ensures {userId tokenHash : String} :
    (AuthService.logout userId tokenHash).Ensures (Serves F G) v fun result v' => match result with
      | .ok _ => ∃ n, Db.deleteSessions (fun row => row.userId = userId && row.tokenHash = tokenHash) v.2.db =
          .ok (n, v'.2.db)
      | .error _ => v'.2.db = v.2.db := by
  have hdelete : (SessionRow.deleteByUserAndToken userId tokenHash).Ensures (Serves F G) v fun result v' =>
      match result with
      | .ok _ => ∃ n, Db.deleteSessions (fun row => row.userId = userId && row.tokenHash = tokenHash) v.2.db =
          .ok (n, v'.2.db)
      | .error _ => v'.2.db = v.2.db := by
    refine Program.Ensures.bind (P := fun result (v' : FileTree × Records) => match result with
      | .ok n => Db.deleteSessions (fun row => row.userId = userId && row.tokenHash = tokenHash) v.2.db =
          .ok (n, v'.2.db)
      | .error _ => v'.2.db = v.2.db) ?_ (fun n _ h => ⟨n, h⟩) fun _ _ h => h
    exact deleteRows_ensures (fun n db' h => h) fun _ => rfl
  exact hdelete.bind (fun _ _ h => h) fun _ _ h => h

/-- The rows a call of `validate` deletes have expired. -/
theorem validate_ensures {tokenHash : String} :
    (SessionRow.validate crates now tokenHash).Ensures (Serves F G) v fun _ v' =>
      Cleaned crates now v.2.db v'.2.db := by
  refine query_bind ?_ fun _ _ => Or.inl rfl
  cases hfind : v.2.db.findSessionByTokenHash tokenHash with
  | none => exact Or.inl rfl
  | some session =>
      dsimp only
      by_cases hexpired : session.isExpired crates now = true
      · rw [if_pos hexpired]
        have hdelete : (SessionRow.delete (·.id = session.id)).Ensures (Serves F G) v fun _ v' =>
            v'.2.db = v.2.db ∨ ∃ n, Db.deleteSessions (·.id = session.id) v.2.db = .ok (n, v'.2.db) :=
          deleteRows_ensures (fun n _ h => Or.inr ⟨n, h⟩) fun _ => Or.inl rfl
        refine hdelete.outcome_bind fun _ v' h => h.imp id fun hgone => ?_
        obtain ⟨n, hgone⟩ := hgone
        refine ⟨_, n, fun row hrow hid => Or.inl ?_, hgone⟩
        have hfound : session ∈ v.2.db.sessions.rows := List.mem_of_find?_eq_some hfind
        rw [List.inj_on_of_nodup_map v.2.db.sessions.nodup hrow hfound (of_decide_eq_true hid)]
        exact hexpired
      · rw [if_neg hexpired]
        exact Or.inl rfl

theorem deleteExpired_ensures :
    (SessionRow.deleteExpired crates now).Ensures (Serves F G) v fun _ v' => Cleaned crates now v.2.db v'.2.db :=
  deleteRows_ensures (fun n _ h => Or.inr ⟨_, n, fun _ _ hrow => Or.inr (of_decide_eq_true hrow), h⟩)
    fun _ => Or.inl rfl

theorem sessionOp_effect (op : SessionOp) :
    (op.program crates P now).Ensures (Serves F G) v fun result v' =>
      SessionEffect crates P ⟨now, op, result⟩ v.2.db v'.2.db := by
  cases op with
  | login config drawn token username password =>
      refine login_ensures.bind (fun result v' h => ?_) fun error v' h => ?_
      · obtain ⟨row, n, huser, hhash, hexpires, hinsert⟩ := h
        refine .loggedIn ?_ ⟨⟨token, result.user.id, _⟩, config, drawn, username, password, result, rfl,
          rfl, rfl, rfl⟩ ?_ hinsert
        · intro grant hissues
          obtain ⟨_, _, _, _, found, hop, hanswer, hgrantUser, hgrantExpires⟩ := hissues
          cases hop
          cases hanswer
          exact ⟨huser.trans hgrantUser.symm, hhash, hexpires.trans (congrArg _ hgrantExpires.symm)⟩
        · intro grant hends
          cases hends.1
      · rw [show v'.2.db = v.2.db from h]
        refine .kept (fun grant hissues => ?_) fun grant hends => by cases hends.1
        obtain ⟨_, _, _, _, _, -, hanswer, -, -⟩ := hissues
        cases hanswer
  | logout userId token =>
      refine logout_ensures.bind (fun _ v' h => ?_) fun error v' h => ?_
      · obtain ⟨n, hdelete⟩ := h
        exact .loggedOut rfl ⟨_, rfl⟩ hdelete
      · rw [show v'.2.db = v.2.db from h]
        refine .kept (fun grant hissues => ?_) fun grant hends => ?_
        · obtain ⟨_, _, _, _, _, hop, -⟩ := hissues
          cases hop
        · obtain ⟨-, answer, hanswer⟩ := hends
          cases hanswer
  | validate token =>
      exact validate_ensures.bind (fun _ _ h => h.effect trivial) fun _ _ h => h.effect trivial
  | deleteExpired =>
      exact deleteExpired_ensures.bind (fun _ _ h => h.effect trivial) fun _ _ h => h.effect trivial

end Effects

theorem Attend.effect {site site' : Site} (h : Attend crates P site event site') :
    SessionEffect crates P event site.db site'.db := by
  obtain ⟨oracle, dbOracle, hrun⟩ := h
  have heffect : SessionEffect crates P ⟨event.now, event.op,
      ((event.op.program crates P event.now).run (serviceHandler oracle dbOracle) site).1⟩ site.db
      ((event.op.program crates P event.now).run (serviceHandler oracle dbOracle) site).2.db :=
    service_run (F := fun _ => True) (G := fun _ => True) (fun _ => trivial) (fun _ => trivial)
      (sessionOp_effect event.op)
  rw [hrun] at heffect
  exact heffect

theorem SessionRow.Records.isExpired {row : SessionRow} (hrecords : row.Records crates P grant)
    (hdates : crates.Dated moments) (hmoment : grant.expires ∈ moments) :
    row.isExpired crates now = decide (grant.expires * nanos ≤ now) := by
  rw [SessionRow.isExpired, hrecords.2.2, hdates.parse_format _ hmoment]

/-- A row that a cleanup deletes has expired. -/
theorem SessionRow.Lapsed.expired {row : SessionRow} (h : row.Lapsed crates now) (hdates : crates.Dated moments)
    (hrecords : row.Records crates P grant) (hmoment : grant.expires ∈ moments) : grant.expires * nanos ≤ now := by
  rcases h with hdate | htext
  · rw [hrecords.isExpired hdates hmoment] at hdate
    exact of_decide_eq_true hdate
  · rw [hrecords.2.2] at htext
    have hle := hdates.format_le _ hmoment _ htext
    exact (Int.mul_le_mul_of_nonneg_right hle (by decide)).trans (Int.ediv_mul_le now (by decide))

/-- Every row stands, and what stands has a row unless it had expired when some operation was made. -/
structure Ledger (crates : AuthCrates) (P : Primitives) (events : List SessionEvent) (db : Db) : Prop where
  sound : ∀ row ∈ db.sessions.rows, ∃ grant, Standing events grant ∧ row.Records crates P grant
  complete : ∀ grant, Standing events grant → (∃ row ∈ db.sessions.rows, row.Records crates P grant) ∨
    ∃ event ∈ events, grant.expires * nanos ≤ event.now

theorem Ledger.step (hdates : crates.Dated moments) (hinj : Set.InjOn (AuthService.hashToken P) tokens)
    (hwithin : ∀ e ∈ events, e.Within tokens moments) (hevent : event.Within tokens moments)
    (h : Ledger crates P events db) (heffect : SessionEffect crates P event db db') :
    Ledger crates P (events ++ [event]) db' := by
  have hlate : ∀ grant : Grant, (∃ e ∈ events, grant.expires * nanos ≤ e.now) →
      ∃ e ∈ events ++ [event], grant.expires * nanos ≤ e.now := by
    intro grant hexpired
    obtain ⟨e, he, hle⟩ := hexpired
    exact ⟨e, List.mem_append_left _ he, hle⟩
  cases heffect with
  | kept hissues hends =>
      constructor
      · intro row hrow
        obtain ⟨grant, hstands, hrecords⟩ := h.sound row hrow
        exact ⟨grant, standing_snoc.mpr (Or.inr ⟨hstands, hends grant⟩), hrecords⟩
      · intro grant hstands
        rcases standing_snoc.mp hstands with hnew | ⟨hold, -⟩
        · exact absurd hnew (hissues grant)
        · exact (h.complete grant hold).imp id (hlate grant)
  | loggedIn hrow hissued hends hinsert =>
      obtain ⟨hid, htables, -⟩ := Db.insertSession_ok hinsert
      constructor
      · simp only [htables]
        refine Table.forall_mem_insert hid (fun row hrow => ?_) ?_
        · obtain ⟨grant, hstands, hrecords⟩ := h.sound row hrow
          exact ⟨grant, standing_snoc.mpr (Or.inr ⟨hstands, hends grant⟩), hrecords⟩
        · obtain ⟨grant, hissues⟩ := hissued
          exact ⟨grant, standing_snoc.mpr (Or.inl hissues), hrow grant hissues⟩
      · simp only [htables]
        intro grant hstands
        rcases standing_snoc.mp hstands with hnew | ⟨hold, -⟩
        · exact Or.inl ⟨_, Table.mem_insert.mpr (Or.inr rfl), hrow grant hnew⟩
        · refine (h.complete grant hold).imp (fun hfound => ?_) (hlate grant)
          obtain ⟨row, hin, hrecords⟩ := hfound
          exact ⟨row, Table.mem_insert.mpr (Or.inl hin), hrecords⟩
  | loggedOut hop hanswer hdelete =>
      have htables := Db.deleteSessions_ok hdelete
      rw [SessionEvent.Within, hop] at hevent
      constructor
      · simp only [htables]
        intro row hrow
        obtain ⟨hin, hkept⟩ := Table.mem_deleteWhere.mp hrow
        obtain ⟨grant, hstands, hrecords⟩ := h.sound row hin
        refine ⟨grant, standing_snoc.mpr (Or.inr ⟨hstands, fun hends => ?_⟩), hrecords⟩
        -- A grant that this logout ends has its row deleted.
        obtain ⟨hsame, -⟩ := hends
        cases hop.symm.trans hsame
        simp [hrecords.1, hrecords.2.1] at hkept
      · simp only [htables]
        intro grant hstands
        rcases standing_snoc.mp hstands with hnew | ⟨hold, hnot⟩
        · obtain ⟨_, _, _, _, _, hlogin, -⟩ := hnew
          cases hop.symm.trans hlogin
        · refine (h.complete grant hold).imp (fun hfound => ?_) (hlate grant)
          obtain ⟨row, hin, hrecords⟩ := hfound
          refine ⟨row, Table.mem_deleteWhere.mpr ⟨hin, ?_⟩, hrecords⟩
          rw [Bool.eq_false_iff]
          intro hgone
          simp only [Bool.and_eq_true, decide_eq_true_eq, hrecords.1, hrecords.2.1] at hgone
          obtain ⟨issuing, hmem, hissues⟩ := hold.issued
          have htoken := hinj (hissues.within (hwithin issuing hmem)).1 hevent hgone.2
          exact hnot ⟨by rw [hop, hgone.1, htoken], hanswer⟩
  | @lapsed p _ _ hissues hends hlapsed hdelete =>
      have htables := Db.deleteSessions_ok hdelete
      constructor
      · simp only [htables]
        intro row hrow
        obtain ⟨grant, hstands, hrecords⟩ := h.sound row (Table.mem_deleteWhere.mp hrow).1
        exact ⟨grant, standing_snoc.mpr (Or.inr ⟨hstands, hends grant⟩), hrecords⟩
      · simp only [htables]
        intro grant hstands
        rcases standing_snoc.mp hstands with hnew | ⟨hold, -⟩
        · exact absurd hnew (hissues grant)
        · rcases h.complete grant hold with ⟨row, hin, hrecords⟩ | hexpired
          · cases hp : p row with
            | false => exact Or.inl ⟨row, Table.mem_deleteWhere.mpr ⟨hin, hp⟩, hrecords⟩
            | true =>
                obtain ⟨issuing, hmem, hissued⟩ := hold.issued
                exact Or.inr ⟨event, by simp, (hlapsed row hin hp).expired hdates hrecords
                  (hissued.within (hwithin issuing hmem)).2⟩
          · exact Or.inr (hlate grant hexpired)

/-- The run. -/
theorem Ledger.run {site site' : Site} (hdates : crates.Dated moments)
    (hinj : Set.InjOn (AuthService.hashToken P) tokens) (hnone : site.db.sessions.rows = [])
    (hrun : Run (Attend crates P) site events site') (hwithin : ∀ e ∈ events, e.Within tokens moments) :
    Ledger crates P events site'.db := by
  induction hrun with
  | nil =>
      refine ⟨fun row hrow => ?_, fun grant hstands => ?_⟩
      · rw [hnone] at hrow
        cases hrow
      · obtain ⟨event, hmem, -⟩ := hstands.issued
        cases hmem
  | snoc _ hlast ih =>
      have hold := fun e he => hwithin e (List.mem_append_left _ he)
      exact (ih hold).step hdates hinj hold (hwithin _ (by simp)) hlast.effect

/-! ### What `validate` answers -/

/-- The unexpired session under a token hash. -/
def SessionRow.current (crates : AuthCrates) (now : Int) (tokenHash : String) (db : Db) : Option SessionRow :=
  (db.findSessionByTokenHash tokenHash).filter fun session => !session.isExpired crates now

theorem current_eq_some {tokenHash : String} {row : SessionRow} :
    SessionRow.current crates now tokenHash db = some row ↔
      row ∈ db.sessions.rows ∧ row.tokenHash = tokenHash ∧ row.isExpired crates now = false := by
  rw [SessionRow.current, Option.filter_eq_some_iff, Bool.not_eq_true', Db.findSessionByTokenHash]
  constructor
  · intro h
    obtain ⟨hfind, hdate⟩ := h
    exact ⟨List.mem_of_find?_eq_some hfind, by simpa using List.find?_some hfind, hdate⟩
  · intro h
    obtain ⟨hrow, hhash, hdate⟩ := h
    refine ⟨?_, hdate⟩
    cases hfind : db.sessions.rows.find? (·.tokenHash = tokenHash) with
    | none => exact absurd (List.find?_eq_none.mp hfind row hrow) (by simp [hhash])
    | some found =>
        have hfound : found.tokenHash = tokenHash := by simpa using List.find?_some hfind
        rw [List.inj_on_of_nodup_map db.tokenHashes (List.mem_of_find?_eq_some hfind) hrow
          (hfound.trans hhash.symm)]

/-- It answers the current session, unless the database fails. -/
theorem validate_answers {F : Choice → Prop} {G : Option String → Prop} {v : FileTree × Records}
    {tokenHash : String} : (SessionRow.validate crates now tokenHash).Ensures (Serves F G) v fun result _ =>
      result = .ok (SessionRow.current crates now tokenHash v.2.db) ∨
        ∃ message, G (some message) ∧ result = .error (.sqlx ⟨message⟩) := by
  refine query_bind ?_ fun message hG => Or.inr ⟨message, hG, rfl⟩
  rw [SessionRow.current]
  cases v.2.db.findSessionByTokenHash tokenHash with
  | none => exact Or.inl rfl
  | some session =>
      dsimp only
      by_cases hexpired : session.isExpired crates now = true
      · rw [if_pos hexpired, Option.filter_some, hexpired]
        exact Program.Ensures.outcome_bind (P := fun _ _ => True)
          (deleteRows_ensures (fun _ _ _ => trivial) fun _ => trivial) fun _ _ _ => Or.inl rfl
      · rw [if_neg hexpired, Option.filter_some, Bool.eq_false_iff.mpr hexpired]
        exact Or.inl rfl

/-- An operation that neither logs the token in nor out leaves the current session as it is. -/
theorem SessionEffect.current_eq {token : String} (hdates : crates.Dated moments)
    (hinj : Set.InjOn (AuthService.hashToken P) tokens) (htoken : token ∈ tokens)
    (hwithin : ∀ e ∈ events, e.Within tokens moments) (hevent : event.Within tokens moments)
    (hother : ¬ event.Concerns token) (hclock : event.now ≤ now) (h : Ledger crates P events db)
    (heffect : SessionEffect crates P event db db') :
    SessionRow.current crates now (AuthService.hashToken P token) db' =
      SessionRow.current crates now (AuthService.hashToken P token) db := by
  ext row
  rw [current_eq_some, current_eq_some]
  cases heffect with
  | kept hissues hends => exact Iff.rfl
  | loggedIn hrow hissued hends hinsert =>
      obtain ⟨hid, htables, -⟩ := Db.insertSession_ok hinsert
      obtain ⟨grant, hissues⟩ := hissued
      simp only [htables, Table.mem_insert]
      refine and_congr_left fun hfacts => or_iff_left fun hnew => hother ?_
      have hgrant := hinj (hissues.within hevent).1 htoken
        ((hrow grant hissues).2.1.symm.trans ((congrArg SessionRow.tokenHash hnew).symm.trans hfacts.1))
      obtain ⟨_, _, _, _, _, hop, -⟩ := hissues
      rw [SessionEvent.Concerns, hop]
      exact hgrant
  | @loggedOut userId other _ _ hop hanswer hdelete =>
      have htables := Db.deleteSessions_ok hdelete
      rw [SessionEvent.Within, hop] at hevent
      simp only [htables, Table.mem_deleteWhere]
      refine and_congr_left fun hfacts => and_iff_left ?_
      rw [Bool.eq_false_iff]
      intro hgone
      simp only [Bool.and_eq_true, decide_eq_true_eq] at hgone
      apply hother
      rw [SessionEvent.Concerns, hop]
      exact hinj hevent htoken (hgone.2.symm.trans hfacts.1)
  | @lapsed p _ _ hissues hends hlapsed hdelete =>
      have htables := Db.deleteSessions_ok hdelete
      simp only [htables, Table.mem_deleteWhere]
      refine ⟨fun hrow => ⟨hrow.1.1, hrow.2⟩, fun hrow => ⟨⟨hrow.1, ?_⟩, hrow.2⟩⟩
      rw [Bool.eq_false_iff]
      intro hgone
      -- A row that was cleaned up had expired, and no longer counted.
      obtain ⟨grant, hstands, hrecords⟩ := h.sound row hrow.1
      obtain ⟨issuing, hmem, hissued⟩ := hstands.issued
      have hmoment := (hissued.within (hwithin issuing hmem)).2
      have hexpired := (hlapsed row hrow.1 hgone).expired hdates hrecords hmoment
      have hdate := hrow.2.2
      rw [hrecords.isExpired hdates hmoment, decide_eq_false_iff_not] at hdate
      omega

/-- The current session under a token is that of its grant, if it stands and has not expired. -/
theorem Ledger.current_iff {token : String} (hdates : crates.Dated moments)
    (hinj : Set.InjOn (AuthService.hashToken P) tokens) (htoken : token ∈ tokens)
    (hwithin : ∀ e ∈ events, e.Within tokens moments) (hclock : ∀ e ∈ events, e.now ≤ now)
    (h : Ledger crates P events db) :
    (∀ row, SessionRow.current crates now (AuthService.hashToken P token) db = some row →
      ∃ grant, Standing events grant ∧ grant.token = token ∧ now < grant.expires * nanos ∧
        grant.userId = row.userId) ∧
    ((∃ grant, Standing events grant ∧ grant.token = token ∧ now < grant.expires * nanos) →
      ∃ row, SessionRow.current crates now (AuthService.hashToken P token) db = some row) := by
  have hmoments : ∀ grant, Standing events grant → grant.token ∈ tokens ∧ grant.expires ∈ moments := by
    intro grant hstands
    obtain ⟨issuing, hmem, hissued⟩ := hstands.issued
    exact hissued.within (hwithin issuing hmem)
  constructor
  · intro row hcurrent
    obtain ⟨hrow, hhash, hdate⟩ := current_eq_some.mp hcurrent
    obtain ⟨grant, hstands, hrecords⟩ := h.sound row hrow
    rw [hrecords.isExpired hdates (hmoments grant hstands).2, decide_eq_false_iff_not, not_le] at hdate
    exact ⟨grant, hstands, hinj (hmoments grant hstands).1 htoken (hrecords.2.1.symm.trans hhash), hdate,
      hrecords.1.symm⟩
  · intro hlive
    obtain ⟨grant, hstands, rfl, hfuture⟩ := hlive
    rcases h.complete grant hstands with ⟨row, hrow, hrecords⟩ | ⟨event, hmem, hexpired⟩
    · refine ⟨row, current_eq_some.mpr ⟨hrow, hrecords.2.1, ?_⟩⟩
      rw [hrecords.isExpired hdates (hmoments grant hstands).2, decide_eq_false_iff_not, not_le]
      exact hfuture
    · have := hclock event hmem
      omega

/-- Login sessions. After any run of the four operations, under any failures, a token has a session exactly when a
login issued it, its own user has not logged it out since and it expires in the future; the session is that
user's. An operation on another token changes no answer. -/
theorem login_session_valid_iff (crates : AuthCrates) (P : Primitives) (tokens : Set String) (moments : Set Int)
    (hdates : crates.Dated moments) (hinj : Set.InjOn (AuthService.hashToken P) tokens) (site site' : Site)
    (hnone : site.db.sessions.rows = []) (events : List SessionEvent)
    (hrun : Run (Attend crates P) site events site') (hwithin : ∀ event ∈ events, event.Within tokens moments)
    (token : String) (htoken : token ∈ tokens) (now : Int) (hclock : ∀ event ∈ events, event.now ≤ now)
    (oracle : Nat → Choice) :
    (∀ dbOracle result, ((SessionRow.validate crates now (AuthService.hashToken P token)).run
        (serviceHandler oracle dbOracle) site').1 = result →
      (∀ error, result = .error error → ∃ tick message, dbOracle tick = some message) ∧
      (∀ found, result = .ok found → (found.isSome ↔
        ∃ grant, Standing events grant ∧ grant.token = token ∧ now < grant.expires * nanos)) ∧
      (∀ session, result = .ok (some session) →
        ∃ grant, Standing events grant ∧ grant.token = token ∧ now < grant.expires * nanos ∧
          grant.userId = session.userId)) ∧
    ∀ event site'', Attend crates P site' event site'' → event.Within tokens moments → ¬ event.Concerns token →
      event.now ≤ now →
        ((SessionRow.validate crates now (AuthService.hashToken P token)).run
          (serviceHandler oracle fun _ => none) site'').1 =
        ((SessionRow.validate crates now (AuthService.hashToken P token)).run
          (serviceHandler oracle fun _ => none) site').1 := by
  have hledger := Ledger.run hdates hinj hnone hrun hwithin
  have hanswer : ∀ (dbOracle : Nat → Option String) (site : Site),
      ((SessionRow.validate crates now (AuthService.hashToken P token)).run (serviceHandler oracle dbOracle) site).1 =
        .ok (SessionRow.current crates now (AuthService.hashToken P token) site.db) ∨
      ∃ message, (∃ tick, dbOracle tick = some message) ∧
        ((SessionRow.validate crates now (AuthService.hashToken P token)).run
          (serviceHandler oracle dbOracle) site).1 = .error (.sqlx ⟨message⟩) := fun dbOracle site =>
    service_run (F := fun _ => True) (G := fun fault => ∃ tick, dbOracle tick = fault) (fun _ => trivial)
      (fun tick => ⟨tick, rfl⟩) validate_answers
  have hcalm : ∀ site : Site, ((SessionRow.validate crates now (AuthService.hashToken P token)).run
      (serviceHandler oracle fun _ => none) site).1 =
        .ok (SessionRow.current crates now (AuthService.hashToken P token) site.db) := by
    intro site
    rcases hanswer (fun _ => none) site with hok | ⟨message, ⟨tick, htick⟩, -⟩
    · exact hok
    · cases htick
  constructor
  · intro dbOracle result hresult
    obtain ⟨hsound, hcomplete⟩ := hledger.current_iff hdates hinj htoken hwithin hclock
    rcases hanswer dbOracle site' with hok | ⟨message, ⟨tick, htick⟩, herror⟩
    · rw [hresult] at hok
      subst hok
      refine ⟨nofun, fun found hfound => ?_, fun session hfound => ?_⟩
      · rw [← Except.ok.inj hfound, Option.isSome_iff_exists]
        refine ⟨fun hsome => ?_, hcomplete⟩
        obtain ⟨row, hrow⟩ := hsome
        obtain ⟨grant, hstands, htoken', hfuture, -⟩ := hsound row hrow
        exact ⟨grant, hstands, htoken', hfuture⟩
      · exact hsound session (Except.ok.inj hfound)
    · rw [hresult] at herror
      subst herror
      exact ⟨fun _ _ => ⟨tick, message, htick⟩, nofun, nofun⟩
  · intro event site'' hattend hevent hother hearlier
    rw [hcalm, hcalm, hattend.effect.current_eq hdates hinj htoken hwithin hevent hother hearlier hledger]

/-- A day of January 2025. -/
def january (day : Int) : Int := (sampleEve + day) * 86400

/-- Alice has registered. -/
def aliceSite : Site :=
  calmServe sampleBackend emptySite (sampleRequest "" "alice" (.register [] "alice" "alice@example.com" "password"))

/-- Alice logs in on the first of January, for a day. -/
def aliceLogin (id token : String) : SessionOp := .login sampleConfig (sampleDrawn id) token "alice" "password"

/-- Make an operation without any failure. -/
def calmAttend (now : Int) (op : SessionOp) (site : Site) : SessionEvent × Site :=
  let outcome := (op.program sampleAuthCrates plainPrimitives now).run (serviceHandler calmOracle fun _ => none) site
  (⟨now, op, outcome.1⟩, outcome.2)

theorem attend_calm (now : Int) (op : SessionOp) (site : Site) :
    Attend sampleAuthCrates plainPrimitives site (calmAttend now op site).1 (calmAttend now op site).2 :=
  ⟨calmOracle, fun _ => none, rfl⟩

theorem sampleAuthCrates_dated : sampleAuthCrates.Dated {january 2} := by
  constructor
  · intro second hsecond
    rw [Set.mem_singleton_iff.mp hsecond]
    decide +kernel
  · intro second hsecond now htext
    rw [Set.mem_singleton_iff.mp hsecond] at htext ⊢
    by_contra hlate
    -- Before the second day the text names the first, or none.
    have hday : (now / 86400 - sampleEve).toNat = 0 ∨ (now / 86400 - sampleEve).toNat = 1 := by
      simp only [january, sampleEve] at hlate ⊢
      omega
    revert htext
    simp only [sampleAuthCrates]
    rcases hday with hday | hday <;> rw [hday] <;> decide +kernel

def aliceFirst : SessionEvent × Site := calmAttend (january 1 * nanos) (aliceLogin "s" "t") aliceSite

def aliceSecond : SessionEvent × Site := calmAttend (january 1 * nanos) (aliceLogin "s'" "tt") aliceFirst.2

/-- The first of two sessions, a second before it expires. -/
theorem login_session_valid_iff_alice :
    let result := ((SessionRow.validate sampleAuthCrates (january 2 * nanos - 1)
      (AuthService.hashToken plainPrimitives "t")).run (serviceHandler calmOracle fun _ => none) aliceSecond.2).1
    (∃ session, result = .ok (some session) ∧ session.userId = "alice") ∧
      ∃ grant, Standing [aliceFirst.1, aliceSecond.1] grant ∧ grant.token = "t" ∧
        january 2 * nanos - 1 < grant.expires * nanos ∧ grant.userId = "alice" := by
  have hinj : Set.InjOn (AuthService.hashToken plainPrimitives) {"t", "tt"} := by
    intro left hleft right hright
    rcases hleft with rfl | rfl <;> rcases hright with rfl | rfl <;> decide +kernel
  have hvalid := (login_session_valid_iff sampleAuthCrates plainPrimitives {"t", "tt"} {january 2}
    sampleAuthCrates_dated hinj aliceSite aliceSecond.2 (by decide +kernel) [aliceFirst.1, aliceSecond.1]
    (Run.snoc (Run.snoc Run.nil (attend_calm _ _ _)) (attend_calm _ _ _))
    (by
      intro event hevent
      rcases List.mem_pair.mp hevent with rfl | rfl
      · exact ⟨by decide, by decide +kernel⟩
      · exact ⟨by decide, by decide +kernel⟩)
    "t" (by decide) (january 2 * nanos - 1)
    (by
      intro event hevent
      rcases List.mem_pair.mp hevent with rfl | rfl <;> decide +kernel)
    calmOracle).1 (fun _ => none) _ rfl
  have hfound : ((SessionRow.validate sampleAuthCrates (january 2 * nanos - 1)
      (AuthService.hashToken plainPrimitives "t")).run (serviceHandler calmOracle fun _ => none) aliceSecond.2).1 =
        .ok (some ⟨"s", "alice", AuthService.hashToken plainPrimitives "t", "2025-01-02 00:00:00",
          "2025-01-01 00:00:00"⟩) := by
    decide +kernel
  exact ⟨⟨_, hfound, rfl⟩, hvalid.2.2 _ hfound⟩

end IronDrive
