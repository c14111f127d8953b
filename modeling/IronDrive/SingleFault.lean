import IronDrive.StoreCalls

/-! Services of which at most one call fails. The failing call is told apart by how many calls to the store, or
to the disk, the service made before it; the account of the calls keeps these counts beside what the service
sees. There is one rule for each call, with a case for the call that fails. -/

namespace IronDrive

open Lib

/-- The call of a service that fails, by the number of such calls before it. Of a failing call to the disk
`amount` bounds the part that is carried out. -/
inductive FailingStep
  | store (call : Nat) (message : String)
  | disk (call : Nat) (message : String) (amount : Nat)
  deriving DecidableEq

/-- Why a call to the store fails. -/
def storeFault (step : Option FailingStep) (call : Nat) : Option String :=
  match step with
  | some (.store failing message) => if failing = call then some message else none
  | _ => none

/-- What the operating system may choose for a call to the disk. -/
structure MayChoose (step : Option FailingStep) (call : Nat) (choice : Choice) : Prop where
  fails : ∀ message amount, step = some (.disk call message amount) → choice = ⟨some message, amount⟩
  quiet : (∀ message amount, step ≠ some (.disk call message amount)) → choice.Quiet

theorem storeFault_eq_some {step : Option FailingStep} {call : Nat} {message : String} :
    storeFault step call = some message ↔ step = some (.store call message) := by
  constructor
  · intro h
    match step, h with
    | some (.store failing found), h =>
        by_cases hcall : failing = call
        · rw [storeFault, if_pos hcall, Option.some.injEq] at h
          rw [hcall, h]
        · rw [storeFault, if_neg hcall] at h
          cases h
  · intro h
    rw [h]
    exact if_pos rfl

theorem storeFault_eq_none {step : Option FailingStep} {call : Nat} :
    storeFault step call = none ↔ ∀ message, step ≠ some (.store call message) := by
  rw [Option.eq_none_iff_forall_ne_some]
  exact forall_congr' fun message => not_congr storeFault_eq_some

/-- What a service sees, and how many calls it has made. -/
structure Progress where
  tree : FileTree
  records : Records
  storeCalls : Nat
  diskCalls : Nat

def Progress.view (progress : Progress) : FileTree × Records := (progress.tree, progress.records)

variable {step : Option FailingStep}

/-- What a disk call may do to a tree and to the number of calls. -/
def DiskFailsAt (step : Option FailingStep) (op : FsCall) (v : FileTree × Nat) (answer : op.Answer)
    (v' : FileTree × Nat) : Prop :=
  Performs (MayChoose step v.2) op v.1 answer v'.1 ∧ v'.2 = v.2 + 1

/-- What a call may do. -/
def FailsAt (step : Option FailingStep) : (op : serviceSignature.Op) → Progress →
    serviceSignature.Answer op → Progress → Prop
  | .inl op, v, answer, v' =>
      DiskFailsAt step op (v.tree, v.diskCalls) answer (v'.tree, v'.diskCalls) ∧
        v'.records = v.records ∧ v'.storeCalls = v.storeCalls
  | .inr op, v, answer, v' =>
      op.perform (storeFault step v.storeCalls) v.records = (answer, v'.records) ∧
        v'.tree = v.tree ∧ v'.storeCalls = v.storeCalls + 1 ∧ v'.diskCalls = v.diskCalls

section Rules

variable {α β : Type} {tree : FileTree} {records : Records} {s d : Nat}
  {Q : Except AppError β → Progress → Prop}

/-- The rule for a call to the store. -/
theorem storeCall_failsAt {op : StoreCall} {f : op.Answer → ServiceProgram β}
    (h : ∀ answer records', op.perform (storeFault step s) records = (answer, records') →
      (f answer).Ensures (FailsAt step) ⟨tree, records', s + 1, d⟩ Q) :
    ((Program.inr (Program.ask (S := storeSignature) op) : ServiceProgram _).bind f).Ensures (FailsAt step)
      ⟨tree, records, s, d⟩ Q := by
  intro answer v' hstep
  obtain ⟨tree', records', s', d'⟩ := v'
  obtain ⟨hperform, htree, hs, hd⟩ := hstep
  obtain rfl : tree' = tree := htree
  obtain rfl : s' = s + 1 := hs
  obtain rfl : d' = d := hd
  exact h answer records' hperform

theorem query_failsAt {q : Db → α} {f : α → ServiceProgram β}
    (hok : (∀ message, step ≠ some (.store s message)) →
      (f (q records.db)).Ensures (FailsAt step) ⟨tree, records, s + 1, d⟩ Q)
    (hfault : ∀ message, step = some (.store s message) →
      Q (.error (.sqlx ⟨message⟩)) ⟨tree, records, s + 1, d⟩) :
    ((query q).bind f).Ensures (FailsAt step) ⟨tree, records, s, d⟩ Q := by
  have hassoc : (query q).bind f =
      (Program.inr (Program.ask (S := storeSignature) (.select q)) : ServiceProgram _).bind fun answer =>
        (Program.ofExcept (answer.mapError AppError.sqlx)).bind f := by
    rw [query, Program.bind_eq, Program.bind_assoc]
  rw [hassoc]
  refine storeCall_failsAt fun answer records' hperform => ?_
  cases hfailing : storeFault step s with
  | none =>
      rw [hfailing] at hperform
      cases hperform
      exact hok fun message => storeFault_eq_none.mp hfailing message
  | some message =>
      rw [hfailing] at hperform
      cases hperform
      exact hfault message (storeFault_eq_some.mp hfailing)

theorem execute_failsAt {statement : Db → Db.Outcome} {f : Except SqlError Nat → ServiceProgram β}
    (hdone : (∀ message, step ≠ some (.store s message)) →
      (f (records.db.execute statement).1).Ensures (FailsAt step)
        ⟨tree, { records with db := (records.db.execute statement).2 }, s + 1, d⟩ Q)
    (hfault : ∀ message, step = some (.store s message) →
      (f (.error ⟨message⟩)).Ensures (FailsAt step) ⟨tree, records, s + 1, d⟩ Q) :
    ((execute statement).bind f).Ensures (FailsAt step) ⟨tree, records, s, d⟩ Q := by
  refine storeCall_failsAt fun answer records' hperform => ?_
  cases hfailing : storeFault step s with
  | none =>
      rw [hfailing] at hperform
      cases hperform
      exact hdone fun message => storeFault_eq_none.mp hfailing message
  | some message =>
      rw [hfailing] at hperform
      cases hperform
      exact hfault message (storeFault_eq_some.mp hfailing)

theorem changeKeys_failsAt {change : UnlockState → UnlockState} {f : Unit → ServiceProgram β}
    (h : (f ()).Ensures (FailsAt step)
      ⟨tree, { records with unlockState := change records.unlockState }, s + 1, d⟩ Q) :
    ((changeKeys change).bind f).Ensures (FailsAt step) ⟨tree, records, s, d⟩ Q := by
  refine storeCall_failsAt fun answer records' hperform => ?_
  cases hperform
  exact h

theorem found_failsAt {q : Db → Option α} {error : AppError} {f : α → ServiceProgram β}
    (hsome : ∀ value, q records.db = some value → (∀ message, step ≠ some (.store s message)) →
      (f value).Ensures (FailsAt step) ⟨tree, records, s + 1, d⟩ Q)
    (hnone : q records.db = none → Q (.error error) ⟨tree, records, s + 1, d⟩)
    (hfault : ∀ message, step = some (.store s message) →
      Q (.error (.sqlx ⟨message⟩)) ⟨tree, records, s + 1, d⟩) :
    ((query q).bind fun found => (Program.okOr error found).bind f).Ensures (FailsAt step)
      ⟨tree, records, s, d⟩ Q := by
  refine query_failsAt (fun hstep => ?_) hfault
  exact Program.ensures_okOr_bind (fun value hvalue => hsome value hvalue hstep) hnone

theorem insertOr_failsAt {conflict : String} {statement : Db → Db.Outcome} {f : Unit → ServiceProgram β}
    (hok : ∀ count db', statement records.db = .ok (count, db') →
      (∀ message, step ≠ some (.store s message)) →
        (f ()).Ensures (FailsAt step) ⟨tree, { records with db := db' }, s + 1, d⟩ Q)
    (hrefused : ∀ error error', statement records.db = .error error →
      Q (.error error') ⟨tree, records, s + 1, d⟩)
    (hfault : ∀ message error, step = some (.store s message) →
      Q (.error error) ⟨tree, records, s + 1, d⟩) :
    ((insertOr conflict statement).bind f).Ensures (FailsAt step) ⟨tree, records, s, d⟩ Q := by
  rw [insertOr_bind_eq]
  apply execute_failsAt
  · intro hstep
    cases hstatement : statement records.db with
    | ok found =>
        obtain ⟨count, db'⟩ := found
        rw [Db.execute_ok hstatement]
        exact hok count db' hstatement hstep
    | error error =>
        rw [Db.execute_error hstatement]
        exact hrefused error _ hstatement
  · intro message hstep
    exact hfault message _ hstep

/-- A part that runs on the disk leaves the records alone. -/
theorem onFiles_ensures {program : FsProgram α} {R : Except AppError α → FileTree × Nat → Prop}
    (h : program.Ensures (DiskFailsAt step) (tree, d) R) :
    (onFiles program).Ensures (FailsAt step) ⟨tree, records, s, d⟩ fun result progress =>
      ∃ tree' d', R result (tree', d') ∧ progress = ⟨tree', records, s, d'⟩ := by
  have hlift := Program.Ensures.inl_of (M := FailsAt step)
    (L := fun (x : Progress) v => v = (x.tree, x.diskCalls) ∧ x.records = records ∧ x.storeCalls = s) h
    (by
      intro op x v answer x' hx hstep
      obtain ⟨rfl, hrecords, hs⟩ := hx
      obtain ⟨hdisk, hrecords', hs'⟩ := hstep
      exact ⟨_, hdisk, rfl, hrecords'.trans hrecords, hs'.trans hs⟩)
    (x := ⟨tree, records, s, d⟩) ⟨rfl, rfl, rfl⟩
  apply hlift.mono
  intro result x hx
  obtain ⟨tree', records', s', d'⟩ := x
  obtain ⟨v, ⟨rfl, hrecords, hs⟩, hR⟩ := hx
  obtain rfl : records' = records := hrecords
  obtain rfl : s' = s := hs
  exact ⟨tree', d', hR, rfl⟩

/-- A part that runs on the disk, by its outcome. -/
theorem onFiles_failsAt {program : FsProgram α} {f : Except AppError α → ServiceProgram β}
    {R : Except AppError α → FileTree × Nat → Prop} (h : program.Ensures (DiskFailsAt step) (tree, d) R)
    (hf : ∀ result tree' d', R result (tree', d') →
      (f result).Ensures (FailsAt step) ⟨tree', records, s, d'⟩ Q) :
    ((onFiles program).outcome.bind f).Ensures (FailsAt step) ⟨tree, records, s, d⟩ Q := by
  apply (onFiles_ensures h).outcome_bind
  intro result progress hprogress
  obtain ⟨tree', d', hR, rfl⟩ := hprogress
  exact hf result tree' d' hR

end Rules

section DiskRules

variable {β : Type} {tree : FileTree} {d : Nat} {R : Except AppError β → FileTree × Nat → Prop}

/-- The rule for a call to the disk: it is quiet, or it is the one that fails. -/
theorem fsCall_failsAt {o : FsCall} {f : o.Answer → FsProgram β}
    (hquiet : (∀ message amount, step ≠ some (.disk d message amount)) → ∀ choice : Choice, choice.Quiet →
      (f (o.perform choice tree).1).Ensures (DiskFailsAt step) ((o.perform choice tree).2, d + 1) R)
    (hfault : ∀ message amount, step = some (.disk d message amount) →
      (f (o.perform ⟨some message, amount⟩ tree).1).Ensures (DiskFailsAt step)
        ((o.perform ⟨some message, amount⟩ tree).2, d + 1) R) :
    ((fsCall o).bind f).Ensures (DiskFailsAt step) (tree, d) R := by
  intro answer v' hstep
  obtain ⟨tree', d'⟩ := v'
  obtain ⟨⟨choice, hchoice, hperform⟩, hd⟩ := hstep
  obtain rfl : d' = d + 1 := hd
  have h : (f (o.perform choice tree).1).Ensures (DiskFailsAt step) ((o.perform choice tree).2, d + 1) R := by
    by_cases hfailing : ∃ message amount, step = some (.disk d message amount)
    · obtain ⟨message, amount, hstep⟩ := hfailing
      rw [hchoice.fails message amount hstep]
      exact hfault message amount hstep
    · have hnot : ∀ message amount, step ≠ some (.disk d message amount) :=
        fun message amount hstep => hfailing ⟨message, amount, hstep⟩
      exact hquiet hnot choice (hchoice.quiet hnot)
  rw [hperform] at h
  exact h

theorem createDirAll_failsAt {path : Path} {onError : IoError → AppError} {f : Unit → FsProgram β}
    {made : FileTree} (hmade : tree.createDirs [] path = .ok made)
    (hok : (∀ message amount, step ≠ some (.disk d message amount)) →
      (f ()).Ensures (DiskFailsAt step) (made, d + 1) R)
    (hfault : ∀ message amount error, step = some (.disk d message amount) →
      R (.error error) (((tree.createDirs [] (path.take amount)).toOption).getD tree, d + 1)) :
    ((createDirAll path onError).bind f).Ensures (DiskFailsAt step) (tree, d) R := by
  refine fsCall_failsAt (o := .createDirAll path) (f := fun answer => (attempt onError answer).bind f) ?_ ?_
  · intro hstep choice hquiet
    have hchoice : choice.fault = none := hquiet
    simp only [FsCall.perform, hchoice, hmade]
    exact hok hstep
  · intro message amount hstep
    exact hfault message amount _ hstep

theorem createFile_failsAt {path place : Path} {onError : IoError → AppError} {f : OpenFile → FsProgram β}
    (hplace : tree.createPlace path = .ok place)
    (hok : (∀ message amount, step ≠ some (.disk d message amount)) →
      (f ⟨place, 0⟩).Ensures (DiskFailsAt step) (tree.put place (.file []), d + 1) R)
    (hfault : ∀ message amount error, step = some (.disk d message amount) → R (.error error) (tree, d + 1)) :
    ((createFile path onError).bind f).Ensures (DiskFailsAt step) (tree, d) R := by
  refine fsCall_failsAt (o := .create path)
    (f := fun answer => ((attempt onError answer).bind fun place => .done ⟨place, 0⟩).bind f) ?_ ?_
  · intro hstep choice hquiet
    simp only [FsCall.perform, guard_of_quiet hquiet, hplace, Except.mapError]
    exact hok hstep
  · intro message amount hstep
    exact hfault message amount _ hstep

theorem writeAll_failsAt {file : OpenFile} {data content : Bytes} {onError : IoError → AppError}
    {f : OpenFile → FsProgram β} (hnode : tree.node file.place = some (.file content))
    (hok : (∀ message amount, step ≠ some (.disk d message amount)) →
      (f { file with cursor := file.cursor + data.length }).Ensures (DiskFailsAt step)
        (tree.put file.place (.file (writeAt content file.cursor data)), d + 1) R)
    (hfault : ∀ message amount error, step = some (.disk d message amount) →
      R (.error error) (tree.put file.place (.file (writeAt content file.cursor (data.take amount))), d + 1)) :
    ((file.writeAll data onError).bind f).Ensures (DiskFailsAt step) (tree, d) R := by
  refine fsCall_failsAt (o := .writeAll file.place file.cursor data) (f := fun answer =>
    ((attempt onError answer).bind fun _ => .done { file with cursor := file.cursor + data.length }).bind f) ?_ ?_
  · intro hstep choice hquiet
    have hchoice : choice.fault = none := hquiet
    simp only [FsCall.perform, guard_of_quiet hquiet, hnode, hchoice, if_true]
    exact hok hstep
  · intro message amount hstep
    have h := hfault message amount (onError ⟨.other, message⟩) hstep
    simp only [FsCall.perform, hnode]
    exact h

end DiskRules

/-! ### Transfer to the handler -/

/-- The oracles make at most one call fail, counted from where the site is. -/
structure FailsOnly (step : Option FailingStep) (oracle : Nat → Choice) (dbOracle : Nat → Option String)
    (site : Site) : Prop where
  store : ∀ call, dbOracle (site.2.tick + call) = storeFault step call
  disk : ∀ call, MayChoose step call (oracle (site.1.tick + call))

/-- The progress of a service that started at a site. -/
structure InProgress (site other : Site) (progress : Progress) : Prop where
  view : progress.view = other.view
  storeCalls : other.2.tick = site.2.tick + progress.storeCalls
  diskCalls : other.1.tick = site.1.tick + progress.diskCalls

/-- What a service ensures when at most one call fails holds of its run. -/
theorem FailsOnly.run {α : Type} {oracle : Nat → Choice} {dbOracle : Nat → Option String} {site : Site}
    {program : ServiceProgram α} {Q : Except AppError α → FileTree × Records → Prop}
    (h : FailsOnly step oracle dbOracle site)
    (hensures : program.Ensures (FailsAt step) ⟨site.1.tree, site.2.records, 0, 0⟩ fun result progress =>
      Q result progress.view) :
    Q (program.run (serviceHandler oracle dbOracle) site).1
      (program.run (serviceHandler oracle dbOracle) site).2.view := by
  have hcalls : ∀ (op : serviceSignature.Op) (other : Site) (progress : Progress),
      InProgress site other progress → ∃ progress', FailsAt step op progress
        (serviceHandler oracle dbOracle op other).1 progress' ∧
          InProgress site (serviceHandler oracle dbOracle op other).2 progress' := by
    intro op other progress hprogress
    obtain ⟨tree, records, s, d⟩ := progress
    obtain ⟨hview, hs, hd⟩ := hprogress
    obtain ⟨rfl, rfl⟩ := Prod.mk.inj hview
    cases op with
    | inl op =>
        refine ⟨⟨_, other.2.records, s, d + 1⟩,
          ⟨⟨⟨oracle other.1.tick, ?_, rfl⟩, rfl⟩, rfl, rfl⟩, rfl, hs, ?_⟩
        · rw [hd]
          exact h.disk d
        · show other.1.tick + 1 = site.1.tick + (d + 1)
          rw [hd, Nat.add_assoc]
    | inr op =>
        refine ⟨⟨other.1.tree, _, s + 1, d⟩, ⟨?_, rfl, rfl, rfl⟩, rfl, ?_, hd⟩
        · show op.perform (storeFault step s) other.2.records = _
          rw [← h.store s, ← hs]
          rfl
        · show other.2.tick + 1 = site.2.tick + (s + 1)
          rw [hs, Nat.add_assoc]
  obtain ⟨progress, hprogress, hQ⟩ := Program.Ensures.run hensures hcalls (s := site) ⟨rfl, rfl, rfl⟩
  rw [← hprogress.view]
  exact hQ

end IronDrive
