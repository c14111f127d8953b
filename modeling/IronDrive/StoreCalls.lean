import IronDrive.Database
import IronDrive.DiskCalls
import IronDrive.UnlockState

/-! The services that keep their records in the database and their keys in memory, beside directories on the
disk. A query reads the database, a statement changes it, and either may fail for a reason of its own; what is
done to the keys in memory cannot fail. For each call there is one rule for the programs that go on from it. -/

namespace IronDrive

open Lib

inductive StoreCall : Type 1
  | select {α : Type} (query : Db → α)
  | execute (statement : Db → Db.Outcome)
  | keys (change : UnlockState → UnlockState)

/-- The database and the keys in memory. -/
structure Records where
  db : Db
  unlockState : UnlockState

namespace StoreCall

def Answer : StoreCall → Type
  | @select α _ => Except SqlError α
  | execute _ => Except SqlError Nat
  | keys _ => Unit

/-- Carry out one call; a failing one changes nothing. -/
def perform (fault : Option String) : (op : StoreCall) → Records → op.Answer × Records
  | select query, records =>
      (match fault with
        | some message => .error ⟨message⟩
        | none => .ok (query records.db), records)
  | execute statement, records =>
      match fault with
      | some message => (.error ⟨message⟩, records)
      | none => ((records.db.execute statement).1, { records with db := (records.db.execute statement).2 })
  | keys change, records => ((), { records with unlockState := change records.unlockState })

end StoreCall

abbrev storeSignature : Signature := ⟨StoreCall, StoreCall.Answer⟩

/-- The records, and the number of calls made so far. -/
structure Store where
  records : Records
  tick : Nat

/-- The handler of calls; the oracle makes some of them fail. -/
def storeHandler (oracle : Nat → Option String) : Handler storeSignature Store := fun op store =>
  ((StoreCall.perform (oracle store.tick) op store.records).1,
    ⟨(StoreCall.perform (oracle store.tick) op store.records).2, store.tick + 1⟩)

/-- The disk and the store under one roof. -/
abbrev serviceSignature : Signature := fsSignature.sum storeSignature

abbrev ServiceProgram (α : Type) : Type 1 := Program serviceSignature AppError α

abbrev Site : Type := Disk × Store

def Site.records (site : Site) : Records := site.2.records

def Site.db (site : Site) : Db := site.2.records.db

/-- A server at its first start: no rows, no keys, and some disk. -/
def firstSite (disk : Disk) : Site := (disk, ⟨⟨Db.empty, UnlockState.new⟩, 0⟩)

def serviceHandler (oracle : Nat → Choice) (dbOracle : Nat → Option String) :
    Handler serviceSignature Site :=
  Program.sumHandler (fsHandler oracle) (storeHandler dbOracle)

/-- A query with the `?` after it. -/
def query {α : Type} (q : Db → α) : ServiceProgram α := do
  let answer ← Program.inr (Program.ask (S := storeSignature) (.select q))
  Program.ofExcept (answer.mapError AppError.sqlx)

/-- A statement, as it answers. -/
def execute (statement : Db → Db.Outcome) : ServiceProgram (Except SqlError Nat) :=
  Program.inr (Program.ask (S := storeSignature) (.execute statement))

def changeKeys (change : UnlockState → UnlockState) : ServiceProgram Unit :=
  Program.inr (Program.ask (S := storeSignature) (.keys change))

/-- A filesystem program as part of a service. -/
def onFiles {α : Type} (program : FsProgram α) : ServiceProgram α := program.inl

def isUniqueViolation (e : SqlError) : Bool :=
  "unique constraint".toList <:+: e.message.toList.map Char.toLower

/-- An insertion whose breach of a unique column is a conflict the user can resolve. -/
def insertOr (conflict : String) (statement : Db → Db.Outcome) : ServiceProgram Unit := do
  match ← execute statement with
  | .ok _ => return ()
  | .error e => Program.fail (if isUniqueViolation e then .conflict conflict else .sqlx e)

/-- A statement that must apply to some row. -/
def executeSome (statement : Db → Db.Outcome) : ServiceProgram Unit := do
  match ← execute statement with
  | .ok count => if count = 0 then Program.fail .notFound else return ()
  | .error e => Program.fail (.sqlx e)

/-- What a service draws from outside: an identifier, a data key, a nonce and the time. -/
structure Drawn where
  id : String
  dataKey : DataKey
  nonce : FixedBytes 12
  now : String

/-- How a call may change the records when the reasons it may fail for are in `G`. -/
def Answered (G : Option String → Prop) (op : StoreCall) (records : Records) (answer : op.Answer)
    (records' : Records) : Prop :=
  ∃ fault, G fault ∧ op.perform fault records = (answer, records')

/-- The account of a service's calls, with the disk's choices in `F`. -/
abbrev Serves (F : Choice → Prop) (G : Option String → Prop) : (op : serviceSignature.Op) →
    FileTree × Records → serviceSignature.Answer op → FileTree × Records → Prop :=
  Program.sumAccount (Performs F) (Answered G)

/-- No call to the database fails for a reason of its own. -/
def Calm (fault : Option String) : Prop := fault = none

theorem calm_none : Calm none := rfl

variable {F : Choice → Prop} {G : Option String → Prop} {α β : Type} {v : FileTree × Records}
  {Q : Except AppError β → FileTree × Records → Prop}

theorem query_bind {q : Db → α} {f : α → ServiceProgram β} (hok : (f (q v.2.db)).Ensures (Serves F G) v Q)
    (hfault : ∀ message, G (some message) → Q (.error (.sqlx ⟨message⟩)) v) :
    ((query q).bind f).Ensures (Serves F G) v Q := by
  intro answer v' h
  obtain ⟨⟨fault, hG, hperform⟩, htree⟩ := h
  obtain ⟨tree', records'⟩ := v'
  obtain ⟨tree, records⟩ := v
  obtain rfl : tree' = tree := htree
  cases fault with
  | none =>
      cases hperform
      exact hok
  | some message =>
      cases hperform
      exact hfault message hG

/-- A query for a row that must be there. -/
theorem found_bind {q : Db → Option α} {error : AppError} {f : α → ServiceProgram β}
    (hsome : ∀ value, q v.2.db = some value → (f value).Ensures (Serves F G) v Q)
    (hreject : ∀ error, Q (.error error) v) :
    ((query q).bind fun found => (Program.okOr error found).bind f).Ensures (Serves F G) v Q := by
  apply query_bind
  · apply Program.ensures_okOr_bind hsome
    intro _
    exact hreject _
  · intro message _
    exact hreject _

theorem execute_bind {statement : Db → Db.Outcome} {f : Except SqlError Nat → ServiceProgram β}
    (hdone : (f (v.2.db.execute statement).1).Ensures (Serves F G)
      (v.1, { v.2 with db := (v.2.db.execute statement).2 }) Q)
    (hfault : ∀ message, G (some message) → (f (.error ⟨message⟩)).Ensures (Serves F G) v Q) :
    ((execute statement).bind f).Ensures (Serves F G) v Q := by
  intro answer v' h
  obtain ⟨⟨fault, hG, hperform⟩, htree⟩ := h
  obtain ⟨tree', records'⟩ := v'
  obtain ⟨tree, records⟩ := v
  obtain rfl : tree' = tree := htree
  cases fault with
  | none =>
      cases hperform
      exact hdone
  | some message =>
      cases hperform
      exact hfault message hG

theorem changeKeys_bind {change : UnlockState → UnlockState} {f : Unit → ServiceProgram β}
    (h : (f ()).Ensures (Serves F G) (v.1, { v.2 with unlockState := change v.2.unlockState }) Q) :
    ((changeKeys change).bind f).Ensures (Serves F G) v Q := by
  intro answer v' hstep
  obtain ⟨⟨fault, hG, hperform⟩, htree⟩ := hstep
  obtain ⟨tree', records'⟩ := v'
  obtain ⟨tree, records⟩ := v
  obtain rfl : tree' = tree := htree
  cases hperform
  exact h

/-- What goes on from an insertion goes on from its statement. -/
theorem insertOr_bind_eq (conflict : String) (statement : Db → Db.Outcome) (f : Unit → ServiceProgram β) :
    (insertOr conflict statement).bind f = (execute statement).bind fun answer =>
      match answer with
      | .ok _ => f ()
      | .error e => Program.fail (if isUniqueViolation e then .conflict conflict else .sqlx e) := by
  rw [insertOr, Program.bind_eq, Program.bind_assoc]
  congr 1
  funext answer
  cases answer <;> rfl

theorem executeSome_bind_eq (statement : Db → Db.Outcome) (f : Unit → ServiceProgram β) :
    (executeSome statement).bind f = (execute statement).bind fun answer =>
      match answer with
      | .ok count => if count = 0 then Program.fail .notFound else f ()
      | .error e => Program.fail (.sqlx e) := by
  rw [executeSome, Program.bind_eq, Program.bind_assoc]
  congr 1
  funext answer
  cases answer with
  | ok count =>
      by_cases hcount : count = 0
      · simp only [if_pos hcount]
        rfl
      · simp only [if_neg hcount]
        rfl
  | error e => rfl

/-- An insertion that is a conflict, is refused, or adds what the statement says. -/
theorem insertOr_bind {conflict : String} {statement : Db → Db.Outcome} {f : Unit → ServiceProgram β}
    (hok : ∀ count db', statement v.2.db = .ok (count, db') →
      (f ()).Ensures (Serves F G) (v.1, { v.2 with db := db' }) Q)
    (hrefused : ∀ error, statement v.2.db = .error error →
      Q (.error (if isUniqueViolation error then .conflict conflict else .sqlx error)) v)
    (hfault : ∀ message, G (some message) →
      Q (.error (if isUniqueViolation ⟨message⟩ then .conflict conflict else .sqlx ⟨message⟩)) v) :
    ((insertOr conflict statement).bind f).Ensures (Serves F G) v Q := by
  rw [insertOr_bind_eq]
  apply execute_bind
  · cases hstatement : statement v.2.db with
    | ok found =>
        obtain ⟨count, db'⟩ := found
        rw [Db.execute_ok hstatement]
        exact hok count db' hstatement
    | error error =>
        rw [Db.execute_error hstatement]
        exact hrefused error hstatement
  · intro message hG
    exact hfault message hG

/-- A statement that must apply to some row: it applies to none, is refused, or does what it says. -/
theorem executeSome_bind {statement : Db → Db.Outcome} {f : Unit → ServiceProgram β}
    (hok : ∀ count db', statement v.2.db = .ok (count, db') → count ≠ 0 →
      (f ()).Ensures (Serves F G) (v.1, { v.2 with db := db' }) Q)
    (hnone : ∀ db', statement v.2.db = .ok (0, db') → Q (.error .notFound) (v.1, { v.2 with db := db' }))
    (hrefused : ∀ error, statement v.2.db = .error error → Q (.error (.sqlx error)) v)
    (hfault : ∀ message, G (some message) → Q (.error (.sqlx ⟨message⟩)) v) :
    ((executeSome statement).bind f).Ensures (Serves F G) v Q := by
  rw [executeSome_bind_eq]
  apply execute_bind
  · cases hstatement : statement v.2.db with
    | ok found =>
        obtain ⟨count, db'⟩ := found
        rw [Db.execute_ok hstatement]
        by_cases hcount : count = 0
        · subst hcount
          exact hnone db' hstatement
        · simp only [if_neg hcount]
          exact hok count db' hstatement hcount
    | error error =>
        rw [Db.execute_error hstatement]
        exact hrefused error hstatement
  · intro message hG
    exact hfault message hG

/-- A part that runs on the disk: the records stay as they are. -/
theorem onFiles_bind {program : FsProgram α} {f : α → ServiceProgram β}
    {R : Except AppError α → FileTree → Prop} (hR : program.Ensures (Performs F) v.1 R)
    (hok : ∀ value tree, R (.ok value) tree → (f value).Ensures (Serves F G) (tree, v.2) Q)
    (herror : ∀ error tree, R (.error error) tree → Q (.error error) (tree, v.2)) :
    ((onFiles program).bind f).Ensures (Serves F G) v Q := by
  have hlift : (onFiles program).Ensures (Serves F G) v fun result v' => R result v'.1 ∧ v'.2 = v.2 :=
    Program.Ensures.inl hR
  apply hlift.bind
  · rintro value ⟨tree, records⟩ ⟨hvalue, rfl⟩
    exact hok value tree hvalue
  · rintro error ⟨tree, records⟩ ⟨hvalue, rfl⟩
    exact herror error tree hvalue

/-- The outcome of a part that runs on the disk. -/
theorem onFiles_outcome_bind {program : FsProgram α} {f : Except AppError α → ServiceProgram β}
    {R : Except AppError α → FileTree → Prop} (hR : program.Ensures (Performs F) v.1 R)
    (hf : ∀ result tree, R result tree → (f result).Ensures (Serves F G) (tree, v.2) Q) :
    ((onFiles program).outcome.bind f).Ensures (Serves F G) v Q := by
  have hlift : (onFiles program).Ensures (Serves F G) v fun result v' => R result v'.1 ∧ v'.2 = v.2 :=
    Program.Ensures.inl hR
  apply hlift.outcome_bind
  rintro result ⟨tree, records⟩ ⟨hresult, rfl⟩
  exact hf result tree hresult

/-! ### Transfer to the handler -/

/-- What the services see of a site. -/
def Site.view (site : Site) : FileTree × Records := (site.1.tree, site.2.records)

theorem serviceHandler_serves {oracle : Nat → Choice} {dbOracle : Nat → Option String}
    (hF : ∀ tick, F (oracle tick)) (hG : ∀ tick, G (dbOracle tick)) (op : serviceSignature.Op) (site : Site) :
    Serves F G op site.view (serviceHandler oracle dbOracle op site).1
      (serviceHandler oracle dbOracle op site).2.view := by
  cases op with
  | inl op => exact ⟨fsHandler_performs hF op site.1, rfl⟩
  | inr op => exact ⟨⟨dbOracle site.2.tick, hG site.2.tick, rfl⟩, rfl⟩

/-- What a service ensures under an account holds of its run under every pair of oracles in it. -/
theorem service_run {oracle : Nat → Choice} {dbOracle : Nat → Option String} (hF : ∀ tick, F (oracle tick))
    (hG : ∀ tick, G (dbOracle tick)) {program : ServiceProgram β} {site : Site}
    (h : program.Ensures (Serves F G) site.view Q) :
    Q (program.run (serviceHandler oracle dbOracle) site).1
      (program.run (serviceHandler oracle dbOracle) site).2.view := by
  obtain ⟨v', hview, hQ⟩ := Program.Ensures.run (R := fun (site : Site) v => site.view = v) h
    (by intro op site v hv; subst hv; exact ⟨_, serviceHandler_serves hF hG op site, rfl⟩) rfl
  rw [hview]
  exact hQ

def emptySite : Site := firstSite ⟨.empty, 0⟩

end IronDrive
