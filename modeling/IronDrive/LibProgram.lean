import Mathlib.Data.List.Basic
import Mathlib.Data.List.Induction
import Mathlib.Logic.Function.Basic
import Mathlib.Tactic.Common

/-! Programs as trees of calls to their environment. A program either stops with a value or an error, or
issues one call and continues with the answer. A handler executes the calls against a state; a pool
interleaves several programs over one state, one call at a time. Properties of a program are proved once
against a nondeterministic account of the calls (`Ensures`) and then transferred to every handler the
account covers, run alone or inside a pool. -/

namespace Lib

universe u v w

/-- An answer that was computed. -/
theorem exists_ok {E α : Type v} {p : α → Prop} [DecidablePred p] {result : Except E α}
    (h : (match result with | .ok value => decide (p value) | .error _ => false) = true) :
    ∃ value, result = .ok value ∧ p value := by
  cases result with
  | ok value => exact ⟨value, rfl, of_decide_eq_true h⟩
  | error error => cases h

/-- The calls a program may issue and the type of the answer to each. -/
structure Signature where
  Op : Type u
  Answer : Op → Type

/-- A program over a signature that returns an `α` or fails with an `E`. -/
inductive Program (S : Signature.{u}) (E α : Type) : Type u
  | done (value : α)
  | fail (error : E)
  | call (op : S.Op) (next : S.Answer op → Program S E α)

/-- A handler answers each call and changes the state. -/
abbrev Handler (S : Signature.{u}) (σ : Type v) : Type (max u v) :=
  (op : S.Op) → σ → S.Answer op × σ

/-- A call together with its answer. -/
abbrev Event (S : Signature.{u}) : Type u := (op : S.Op) × S.Answer op

namespace Program

variable {S : Signature.{u}} {E α β γ : Type} {σ : Type v} {ν : Type w}

def bind : Program S E α → (α → Program S E β) → Program S E β
  | done value, f => f value
  | fail error, _ => fail error
  | call op next, f => call op fun answer => (next answer).bind f

instance : Monad (Program S E) where
  pure := done
  bind := bind

/-- Issue one call and return its answer. -/
def ask (op : S.Op) : Program S E (S.Answer op) := call op done

/-- Continue with the value of a pure fallible computation. -/
def ofExcept : Except E α → Program S E α
  | .ok value => done value
  | .error error => fail error

/-- Continue with `some`'s value, or fail with the given error. -/
def okOr (error : E) : Option α → Program S E α
  | some value => done value
  | none => fail error

/-- The outcome of a program as a value: what the caller of a fallible function matches on. -/
def outcome : Program S E α → Program S E (Except E α)
  | done value => done (.ok value)
  | fail error => done (.error error)
  | call op next => call op fun answer => (next answer).outcome

@[simp] theorem pure_eq (value : α) : (pure value : Program S E α) = done value := rfl

@[simp] theorem bind_eq (t : Program S E α) (f : α → Program S E β) : t >>= f = t.bind f := rfl

@[simp] theorem done_bind (value : α) (f : α → Program S E β) :
    (done value : Program S E α).bind f = f value := rfl

@[simp] theorem fail_bind (error : E) (f : α → Program S E β) :
    (fail error : Program S E α).bind f = fail error := rfl

@[simp] theorem call_bind (op : S.Op) (next : S.Answer op → Program S E α) (f : α → Program S E β) :
    (call op next).bind f = call op fun answer => (next answer).bind f := rfl

@[simp] theorem ofExcept_ok (value : α) : (ofExcept (.ok value) : Program S E α) = done value := rfl

@[simp] theorem ofExcept_error (error : E) :
    (ofExcept (.error error) : Program S E α) = fail error := rfl

@[simp] theorem okOr_some (error : E) (value : α) :
    (okOr error (some value) : Program S E α) = done value := rfl

@[simp] theorem okOr_none (error : E) : (okOr error none : Program S E α) = fail error := rfl

theorem bind_assoc (t : Program S E α) (f : α → Program S E β) (g : β → Program S E γ) :
    (t.bind f).bind g = t.bind fun value => (f value).bind g := by
  induction t with
  | done value => rfl
  | fail error => rfl
  | call op next ih =>
      simp only [call_bind]
      congr 1
      funext answer
      exact ih answer

theorem bind_done (t : Program S E α) : t.bind done = t := by
  induction t with
  | done value => rfl
  | fail error => rfl
  | call op next ih =>
      rw [call_bind]
      congr 1
      funext answer
      exact ih answer

/-- Execute a program to its end. -/
def run (h : Handler S σ) : Program S E α → σ → Except E α × σ
  | done value, s => (.ok value, s)
  | fail error, s => (.error error, s)
  | call op next, s => (next (h op s).1).run h (h op s).2

@[simp] theorem run_done (h : Handler S σ) (value : α) (s : σ) :
    (done value : Program S E α).run h s = (.ok value, s) := rfl

@[simp] theorem run_fail (h : Handler S σ) (error : E) (s : σ) :
    (fail error : Program S E α).run h s = (.error error, s) := rfl

@[simp] theorem run_call (h : Handler S σ) (op : S.Op) (next : S.Answer op → Program S E α) (s : σ) :
    (call op next).run h s = (next (h op s).1).run h (h op s).2 := rfl

@[simp] theorem run_ask (h : Handler S σ) (op : S.Op) (s : σ) :
    (ask op : Program S E _).run h s = (.ok (h op s).1, (h op s).2) := rfl

theorem run_bind (h : Handler S σ) (t : Program S E α) (f : α → Program S E β) (s : σ) :
    (t.bind f).run h s =
      match t.run h s with
      | (.ok value, s') => (f value).run h s'
      | (.error error, s') => (.error error, s') := by
  induction t generalizing s with
  | done value => rfl
  | fail error => rfl
  | call op next ih => exact ih _ _

theorem run_bind_ok {h : Handler S σ} {t : Program S E α} {f : α → Program S E β} {s s' : σ} {value : α}
    (ht : t.run h s = (.ok value, s')) : (t.bind f).run h s = (f value).run h s' := by
  rw [run_bind, ht]

/-- A sequence that succeeds has a first part that does. -/
theorem ok_of_run_bind {h : Handler S σ} {t : Program S E α} {f : α → Program S E β} {s : σ} {value : β}
    (hrun : ((t.bind f).run h s).1 = .ok value) : ∃ first, (t.run h s).1 = .ok first := by
  rw [run_bind] at hrun
  split at hrun
  · next first _ heq => exact ⟨first, by rw [heq]⟩
  · cases hrun

/-- The calls a run makes, with their answers, in order. -/
def trace (h : Handler S σ) : Program S E α → σ → List (Event S)
  | done _, _ => []
  | fail _, _ => []
  | call op next, s => ⟨op, (h op s).1⟩ :: (next (h op s).1).trace h (h op s).2

/-- The state after the first calls of a program, when it is stopped there. -/
def runFor (h : Handler S σ) : Nat → Program S E α → σ → σ
  | n + 1, call op next, s => runFor h n (next (h op s).1) (h op s).2
  | _, _, s => s

theorem exists_runFor (h : Handler S σ) (t : Program S E α) (s : σ) : ∃ n, t.runFor h n s = (t.run h s).2 := by
  induction t generalizing s with
  | done value => exact ⟨0, rfl⟩
  | fail error => exact ⟨0, rfl⟩
  | call op next ih =>
      obtain ⟨n, hn⟩ := ih (h op s).1 (h op s).2
      exact ⟨n + 1, hn⟩

/-- A program whose errors are those of another, renamed. -/
def mapError {F : Type} (f : E → F) : Program S E α → Program S F α
  | done value => done value
  | fail error => fail (f error)
  | call op next => call op fun answer => (next answer).mapError f

@[simp] theorem mapError_done {F : Type} (f : E → F) (value : α) :
    (done value : Program S E α).mapError f = done value := rfl

@[simp] theorem mapError_fail {F : Type} (f : E → F) (error : E) :
    (fail error : Program S E α).mapError f = fail (f error) := rfl

theorem mapError_ofExcept {F : Type} (f : E → F) (result : Except E α) :
    (ofExcept result : Program S E α).mapError f = ofExcept (result.mapError f) := by
  cases result with
  | ok value => rfl
  | error error => rfl

theorem mapError_bind {F : Type} (f : E → F) (t : Program S E α) (g : α → Program S E β) :
    (t.bind g).mapError f = (t.mapError f).bind fun value => (g value).mapError f := by
  induction t with
  | done value => rfl
  | fail error => rfl
  | call op next ih =>
      show call op _ = call op _
      congr 1
      funext answer
      exact ih answer

theorem run_mapError {F : Type} (f : E → F) (h : Handler S σ) (t : Program S E α) (s : σ) :
    (t.mapError f).run h s = ((t.run h s).1.mapError f, (t.run h s).2) := by
  induction t generalizing s with
  | done value => rfl
  | fail error => rfl
  | call op next ih => exact ih _ _

/-- `t.Ensures H v Q`: however the calls of `t` are answered, as far as the relation `H` on views
allows, `t` stops with a result and a view in `Q`. -/
def Ensures (H : (op : S.Op) → ν → S.Answer op → ν → Prop) :
    Program S E α → ν → (Except E α → ν → Prop) → Prop
  | done value, v, Q => Q (.ok value) v
  | fail error, v, Q => Q (.error error) v
  | call op next, v, Q => ∀ answer v', H op v answer v' → (next answer).Ensures H v' Q

variable {H : (op : S.Op) → ν → S.Answer op → ν → Prop}

@[simp] theorem ensures_done (value : α) (v : ν) (Q : Except E α → ν → Prop) :
    (done value : Program S E α).Ensures H v Q ↔ Q (.ok value) v := Iff.rfl

@[simp] theorem ensures_fail (error : E) (v : ν) (Q : Except E α → ν → Prop) :
    (fail error : Program S E α).Ensures H v Q ↔ Q (.error error) v := Iff.rfl

theorem ensures_call (op : S.Op) (next : S.Answer op → Program S E α) (v : ν)
    (Q : Except E α → ν → Prop) :
    (call op next).Ensures H v Q ↔ ∀ answer v', H op v answer v' → (next answer).Ensures H v' Q :=
  Iff.rfl

theorem Ensures.mono {t : Program S E α} {v : ν} {P Q : Except E α → ν → Prop}
    (ht : t.Ensures H v P) (hPQ : ∀ result v', P result v' → Q result v') : t.Ensures H v Q := by
  induction t generalizing v with
  | done value => exact hPQ _ _ ht
  | fail error => exact hPQ _ _ ht
  | call op next ih => exact fun answer v' hstep => ih answer (ht answer v' hstep)

/-- The rule for sequencing: the rest of the program is judged from wherever its first part may stop. -/
theorem Ensures.bind {t : Program S E α} {f : α → Program S E β} {v : ν} {P : Except E α → ν → Prop}
    {Q : Except E β → ν → Prop} (ht : t.Ensures H v P)
    (hok : ∀ value v', P (.ok value) v' → (f value).Ensures H v' Q)
    (herror : ∀ error v', P (.error error) v' → Q (.error error) v') :
    (t.bind f).Ensures H v Q := by
  induction t generalizing v with
  | done value => exact hok _ _ ht
  | fail error => exact herror _ _ ht
  | call op next ih => exact fun answer v' hstep => ih answer (ht answer v' hstep)

/-- A program stops, whatever its calls answer. -/
theorem ensures_true (t : Program S E α) (v : ν) : t.Ensures H v fun _ _ => True := by
  induction t generalizing v with
  | done value => trivial
  | fail error => trivial
  | call op next ih => exact fun answer v' _ => ih answer v'

/-- The rule for going on with a value that may be missing. -/
theorem ensures_okOr_bind {error : E} {option : Option α} {f : α → Program S E β} {v : ν}
    {Q : Except E β → ν → Prop} (hsome : ∀ value, option = some value → (f value).Ensures H v Q)
    (hnone : option = none → Q (.error error) v) : ((okOr error option).bind f).Ensures H v Q := by
  cases option with
  | some value => exact hsome value rfl
  | none => exact hnone rfl

theorem ensures_okOr {error : E} {option : Option α} {v : ν} {Q : Except E α → ν → Prop}
    (hsome : ∀ value, option = some value → Q (.ok value) v) (hnone : option = none → Q (.error error) v) :
    (okOr error option : Program S E α).Ensures H v Q := by
  cases option with
  | some value => exact hsome value rfl
  | none => exact hnone rfl

/-- The rule for going on with the value of a check. -/
theorem ensures_ofExcept_bind {result : Except E α} {f : α → Program S E β} {v : ν}
    {Q : Except E β → ν → Prop} (hok : ∀ value, result = .ok value → (f value).Ensures H v Q)
    (herror : ∀ error, result = .error error → Q (.error error) v) :
    ((ofExcept result).bind f).Ensures H v Q := by
  cases result with
  | ok value => exact hok value rfl
  | error error => exact herror error rfl

/-- The rule for going on from the outcome of a part. -/
theorem Ensures.outcome_bind {t : Program S E α} {f : Except E α → Program S E β} {v : ν}
    {P : Except E α → ν → Prop} {Q : Except E β → ν → Prop} (ht : t.Ensures H v P)
    (hf : ∀ result v', P result v' → (f result).Ensures H v' Q) : (t.outcome.bind f).Ensures H v Q := by
  induction t generalizing v with
  | done value => exact hf _ _ ht
  | fail error => exact hf _ _ ht
  | call op next ih => exact fun answer v' hstep => ih answer (ht answer v' hstep)

/-- A handler whose every call `H` accounts for runs the program to a result in `Q`. -/
theorem Ensures.run {t : Program S E α} {v : ν} {Q : Except E α → ν → Prop} {h : Handler S σ}
    {R : σ → ν → Prop} (ht : t.Ensures H v Q)
    (hstep : ∀ op s v, R s v → ∃ v', H op v (h op s).1 v' ∧ R (h op s).2 v')
    {s : σ} (hs : R s v) : ∃ v', R (t.run h s).2 v' ∧ Q (t.run h s).1 v' := by
  induction t generalizing v s with
  | done value => exact ⟨v, hs, ht⟩
  | fail error => exact ⟨v, hs, ht⟩
  | call op next ih =>
      obtain ⟨v', hH, hR⟩ := hstep op s v hs
      exact ih _ (ht _ v' hH) hR

/-- However its calls are answered, `t` stops with this result at this view. -/
def Stops (H : (op : S.Op) → ν → S.Answer op → ν → Prop) (t : Program S E α) (v : ν) (result : Except E α)
    (v' : ν) : Prop :=
  t.Ensures H v fun r w => r = result ∧ w = v'

theorem stops_done (value : α) (v : ν) : (done value : Program S E α).Stops H v (.ok value) v := ⟨rfl, rfl⟩

theorem stops_fail (error : E) (v : ν) : (fail error : Program S E α).Stops H v (.error error) v := ⟨rfl, rfl⟩

theorem stops_ofExcept (result : Except E α) (v : ν) :
    (ofExcept result : Program S E α).Stops H v result v := by
  cases result with
  | ok value => exact stops_done value v
  | error error => exact stops_fail error v

theorem Stops.ensures_bind {t : Program S E α} {f : α → Program S E β} {v v' : ν} {value : α}
    {Q : Except E β → ν → Prop} (ht : t.Stops H v (.ok value) v') (hf : (f value).Ensures H v' Q) :
    (t.bind f).Ensures H v Q := by
  refine Ensures.bind ht ?_ ?_
  · rintro found w ⟨hfound, rfl⟩
    cases hfound
    exact hf
  · rintro error w ⟨herror, -⟩
    cases herror

theorem Stops.bind {t : Program S E α} {f : α → Program S E β} {v v' w : ν} {value : α} {result : Except E β}
    (ht : t.Stops H v (.ok value) v') (hf : (f value).Stops H v' result w) :
    (t.bind f).Stops H v result w :=
  ht.ensures_bind hf

theorem Stops.bind_error {t : Program S E α} {f : α → Program S E β} {v v' : ν} {error : E}
    (ht : t.Stops H v (.error error) v') : (t.bind f).Stops H v (.error error) v' := by
  refine Ensures.bind ht ?_ ?_
  · rintro value w ⟨hvalue, -⟩
    cases hvalue
  · rintro found w ⟨hfound, rfl⟩
    cases hfound
    exact ⟨rfl, rfl⟩

theorem Stops.outcome {t : Program S E α} {v v' : ν} {result : Except E α} (ht : t.Stops H v result v') :
    t.outcome.Stops H v (.ok result) v' := by
  induction t generalizing v with
  | done value => obtain ⟨rfl, rfl⟩ := ht; exact ⟨rfl, rfl⟩
  | fail error => obtain ⟨rfl, rfl⟩ := ht; exact ⟨rfl, rfl⟩
  | call op next ih => exact fun answer w hH => ih answer (ht answer w hH)

/-- The account `H` of the calls, with a log of the calls and their answers beside the view. -/
def Logged (H : (op : S.Op) → ν → S.Answer op → ν → Prop) (op : S.Op) (v : ν × List (Event S))
    (answer : S.Answer op) (v' : ν × List (Event S)) : Prop :=
  H op v.1 answer v'.1 ∧ v'.2 = v.2 ++ [⟨op, answer⟩]

/-- What a program ensures of its log holds of its trace. -/
theorem Ensures.run_logged {t : Program S E α} {v : ν} {Q : Except E α → ν × List (Event S) → Prop}
    {h : Handler S σ} {R : σ → ν → Prop} {log : List (Event S)} (ht : t.Ensures (Logged H) (v, log) Q)
    (hstep : ∀ op s v, R s v → ∃ v', H op v (h op s).1 v' ∧ R (h op s).2 v')
    {s : σ} (hs : R s v) : ∃ v', R (t.run h s).2 v' ∧ Q (t.run h s).1 (v', log ++ t.trace h s) := by
  induction t generalizing v s log with
  | done value => exact ⟨v, hs, by simpa [trace] using ht⟩
  | fail error => exact ⟨v, hs, by simpa [trace] using ht⟩
  | call op next ih =>
      obtain ⟨v', hH, hR⟩ := hstep op s v hs
      obtain ⟨v'', hR', hQ⟩ := ih _ (ht _ (v', log ++ [⟨op, (h op s).1⟩]) ⟨hH, rfl⟩) hR
      exact ⟨v'', hR', by simpa [trace] using hQ⟩

/-- Every call the program may issue satisfies `P`, and every value it may return satisfies `R`. -/
def Only (P : S.Op → Prop) (R : α → Prop) : Program S E α → Prop
  | done value => R value
  | fail _ => True
  | call op next => P op ∧ ∀ answer, (next answer).Only P R

variable {P : S.Op → Prop} {R : α → Prop}

theorem only_ask {op : S.Op} (h : P op) : (ask op : Program S E _).Only P fun _ => True :=
  ⟨h, fun _ => trivial⟩

theorem only_ofExcept (result : Except E α) : (ofExcept result : Program S E α).Only P fun _ => True := by
  cases result <;> trivial

theorem only_okOr (error : E) (value : Option α) :
    (okOr error value : Program S E α).Only P fun _ => True := by
  cases value <;> trivial

/-- The rule for sequencing: the rest may rely on what the first part returns. -/
theorem Only.bind {t : Program S E α} {f : α → Program S E β} {N : β → Prop} (ht : t.Only P R)
    (hf : ∀ value, R value → (f value).Only P N) : (t.bind f).Only P N := by
  induction t with
  | done value => exact hf value ht
  | fail error => trivial
  | call op next ih => exact ⟨ht.1, fun answer => ih answer (ht.2 answer)⟩

theorem Only.mono {P' : S.Op → Prop} {R' : α → Prop} {t : Program S E α} (ht : t.Only P R)
    (hP : ∀ op, P op → P' op) (hR : ∀ value, R value → R' value) : t.Only P' R' := by
  induction t with
  | done value => exact hR value ht
  | fail error => trivial
  | call op next ih => exact ⟨hP _ ht.1, fun answer => ih answer (ht.2 answer)⟩

theorem Only.outcome {t : Program S E α} (ht : t.Only P R) : t.outcome.Only P fun _ => True := by
  induction t with
  | done value => trivial
  | fail error => trivial
  | call op next ih => exact ⟨ht.1, fun answer => ih answer (ht.2 answer)⟩

/-- Calls in `P` until one in `N`, and after that one calls in `P` only. -/
def Once (P N : S.Op → Prop) : Program S E α → Prop
  | done _ => True
  | fail _ => True
  | call op next => (P op ∧ ∀ answer, (next answer).Once P N) ∨
      (N op ∧ ∀ answer, (next answer).Only P fun _ => True)

theorem Only.once {N : S.Op → Prop} {t : Program S E α} (ht : t.Only P fun _ => True) : t.Once P N := by
  induction t with
  | done value => trivial
  | fail error => trivial
  | call op next ih => exact Or.inl ⟨ht.1, fun answer => ih answer (ht.2 answer)⟩

/-- The rule for sequencing: the one call is made by the rest. -/
theorem Only.once_bind {N : S.Op → Prop} {t : Program S E α} {f : α → Program S E β} (ht : t.Only P R)
    (hf : ∀ value, R value → (f value).Once P N) : (t.bind f).Once P N := by
  induction t with
  | done value => exact hf value ht
  | fail error => trivial
  | call op next ih => exact Or.inl ⟨ht.1, fun answer => ih answer (ht.2 answer)⟩

/-- The rule for sequencing: the one call is made by the first part. -/
theorem Once.bind_only {N : S.Op → Prop} {t : Program S E α} {f : α → Program S E β} (ht : t.Once P N)
    (hf : ∀ value, (f value).Only P fun _ => True) : (t.bind f).Once P N := by
  induction t with
  | done value => exact (hf value).once
  | fail error => trivial
  | call op next ih =>
      obtain ⟨hop, hnext⟩ | ⟨hop, hnext⟩ := ht
      · exact Or.inl ⟨hop, fun answer => ih answer (hnext answer)⟩
      · exact Or.inr ⟨hop, fun answer => (hnext answer).bind fun value _ => hf value⟩

/-- A program keeps every invariant that the calls it may issue keep. -/
theorem Only.ensures {t : Program S E α} {I : ν → Prop} (ht : t.Only P R)
    (hstep : ∀ op v answer v', P op → I v → H op v answer v' → I v') {v : ν} (hv : I v) :
    t.Ensures H v fun _ v' => I v' := by
  induction t generalizing v with
  | done value => exact hv
  | fail error => exact hv
  | call op next ih => exact fun answer v' hH => ih answer (ht.2 answer) (hstep op v answer v' ht.1 hv hH)

/-- However its calls are answered, a program returns only what it may return. -/
theorem Only.returns {t : Program S E α} (ht : t.Only P R) (v : ν) :
    t.Ensures H v fun result _ => ∀ value, result = .ok value → R value := by
  induction t generalizing v with
  | done value => intro found h; cases h; exact ht
  | fail error => intro found h; cases h
  | call op next ih => exact fun answer v' _ => ih answer (ht.2 answer) v'

/-- The log of a program grows by calls it may issue. -/
theorem Only.ensures_logged {t : Program S E α} (ht : t.Only P R) (v : ν) (log : List (Event S)) :
    t.Ensures (Logged H) (v, log) fun _ v' => ∃ more, v'.2 = log ++ more ∧ ∀ event ∈ more, P event.1 := by
  induction t generalizing v log with
  | done value => exact ⟨[], by simp, by simp⟩
  | fail error => exact ⟨[], by simp, by simp⟩
  | call op next ih =>
      rintro answer ⟨v', -⟩ ⟨-, rfl⟩
      refine Ensures.mono (ih answer (ht.2 answer) v' _) ?_
      rintro result w ⟨more, hmore, hP⟩
      refine ⟨⟨op, answer⟩ :: more, by rw [hmore]; simp, fun event hevent => ?_⟩
      rcases List.mem_cons.mp hevent with rfl | hlater
      · exact ht.1
      · exact hP event hlater

theorem Only.of_run {t : Program S E α} {h : Handler S σ} {s : σ} {value : α} (ht : t.Only P R)
    (hrun : (t.run h s).1 = .ok value) : R value := by
  induction t generalizing s with
  | done found =>
      cases hrun
      exact ht
  | fail error => cases hrun
  | call op next ih => exact ih _ (ht.2 _) hrun

/-- As long as its calls are answered as `A` allows, a program issues calls in `P` and returns values in `R`. -/
def Within (A : (op : S.Op) → S.Answer op → Prop) (P : S.Op → Prop) (R : α → Prop) : Program S E α → Prop
  | done value => R value
  | fail _ => True
  | call op next => P op ∧ ∀ answer, A op answer → (next answer).Within A P R

section Within

variable {A : (op : S.Op) → S.Answer op → Prop}

theorem Only.within {t : Program S E α} (ht : t.Only P R) : t.Within A P R := by
  induction t with
  | done value => exact ht
  | fail error => trivial
  | call op next ih => exact ⟨ht.1, fun answer _ => ih answer (ht.2 answer)⟩

theorem Within.bind {t : Program S E α} {f : α → Program S E β} {N : β → Prop} (ht : t.Within A P R)
    (hf : ∀ value, R value → (f value).Within A P N) : (t.bind f).Within A P N := by
  induction t with
  | done value => exact hf value ht
  | fail error => trivial
  | call op next ih => exact ⟨ht.1, fun answer hA => ih answer (ht.2 answer hA)⟩

theorem Within.mono {P' : S.Op → Prop} {R' : α → Prop} {t : Program S E α} (ht : t.Within A P R)
    (hP : ∀ op, P op → P' op) (hR : ∀ value, R value → R' value) : t.Within A P' R' := by
  induction t with
  | done value => exact hR value ht
  | fail error => trivial
  | call op next ih => exact ⟨hP _ ht.1, fun answer hA => ih answer (ht.2 answer hA)⟩

theorem Within.outcome {t : Program S E α} (ht : t.Within A P R) : t.outcome.Within A P fun _ => True := by
  induction t with
  | done value => trivial
  | fail error => trivial
  | call op next ih => exact ⟨ht.1, fun answer hA => ih answer (ht.2 answer hA)⟩

/-- Fewer answers are to be expected. -/
theorem Within.answers {B : (op : S.Op) → S.Answer op → Prop} {t : Program S E α} (ht : t.Within A P R)
    (h : ∀ op answer, B op answer → A op answer) : t.Within B P R := by
  induction t with
  | done value => exact ht
  | fail error => trivial
  | call op next ih => exact ⟨ht.1, fun answer hanswer => ih answer (ht.2 answer (h op answer hanswer))⟩

/-- A program keeps what its calls keep as long as they are answered as `A` allows, and returns what it may. -/
theorem Within.ensures {t : Program S E α} {I : ν → Prop} (ht : t.Within A P R)
    (hstep : ∀ op v answer v', P op → I v → H op v answer v' → A op answer ∧ I v') {v : ν} (hv : I v) :
    t.Ensures H v fun result v' => I v' ∧ ∀ value, result = .ok value → R value := by
  induction t generalizing v with
  | done value =>
      refine ⟨hv, fun found hfound => ?_⟩
      cases hfound
      exact ht
  | fail error => exact ⟨hv, nofun⟩
  | call op next ih =>
      intro answer v' hH
      obtain ⟨hanswer, hv'⟩ := hstep op v answer v' ht.1 hv hH
      exact ih answer (ht.2 answer hanswer) hv'

end Within

/-- However its calls are answered, as far as `H` allows, a program issues each call where `P` holds of its view, and
stops with a result and a view in `Q`. -/
def Guarded (H : (op : S.Op) → ν → S.Answer op → ν → Prop) (P : S.Op → ν → Prop) :
    Program S E α → ν → (Except E α → ν → Prop) → Prop
  | done value, v, Q => Q (.ok value) v
  | fail error, v, Q => Q (.error error) v
  | call op next, v, Q => P op v ∧ ∀ answer v', H op v answer v' → (next answer).Guarded H P v' Q

section Guarded

variable {G : S.Op → ν → Prop}

theorem Guarded.mono {t : Program S E α} {v : ν} {Q Q' : Except E α → ν → Prop} (ht : t.Guarded H G v Q)
    (hQ : ∀ result v', Q result v' → Q' result v') : t.Guarded H G v Q' := by
  induction t generalizing v with
  | done value => exact hQ _ _ ht
  | fail error => exact hQ _ _ ht
  | call op next ih => exact ⟨ht.1, fun answer v' hH => ih answer (ht.2 answer v' hH)⟩

theorem Guarded.bind {t : Program S E α} {f : α → Program S E β} {v : ν} {Q : Except E α → ν → Prop}
    {Q' : Except E β → ν → Prop} (ht : t.Guarded H G v Q)
    (hok : ∀ value v', Q (.ok value) v' → (f value).Guarded H G v' Q')
    (herror : ∀ error v', Q (.error error) v' → Q' (.error error) v') : (t.bind f).Guarded H G v Q' := by
  induction t generalizing v with
  | done value => exact hok _ _ ht
  | fail error => exact herror _ _ ht
  | call op next ih => exact ⟨ht.1, fun answer v' hH => ih answer (ht.2 answer v' hH)⟩

/-- The rule for going on with the value of a check. -/
theorem guarded_ofExcept_bind {result : Except E α} {f : α → Program S E β} {v : ν} {Q : Except E β → ν → Prop}
    (hok : ∀ value, result = .ok value → (f value).Guarded H G v Q)
    (herror : ∀ error, result = .error error → Q (.error error) v) : ((ofExcept result).bind f).Guarded H G v Q := by
  cases result with
  | ok value => exact hok value rfl
  | error error => exact herror error rfl

/-- A program whose calls leave its view as it is. -/
theorem Within.guarded {A : (op : S.Op) → S.Answer op → Prop} {t : Program S E α} {v : ν} (ht : t.Within A P R)
    (hH : ∀ op answer v', P op → H op v answer v' → A op answer ∧ v' = v) (hG : ∀ op, P op → G op v) :
    t.Guarded H G v fun result v' => v' = v ∧ ∀ value, result = .ok value → R value := by
  induction t with
  | done value =>
      refine ⟨rfl, fun found hfound => ?_⟩
      cases hfound
      exact ht
  | fail error => exact ⟨rfl, nofun⟩
  | call op next ih =>
      refine ⟨hG op ht.1, fun answer v' hstep => ?_⟩
      obtain ⟨hanswer, rfl⟩ := hH op answer v' ht.1 hstep
      exact ih answer (ht.2 answer hanswer)

/-- A program that ensures something under one account is guarded under another that its calls refine. -/
theorem Ensures.guarded {ω : Type} {K : (op : S.Op) → ω → S.Answer op → ω → Prop}
    {A : (op : S.Op) → S.Answer op → Prop} {N : S.Op → ω → Prop} {L : ω → ν → Prop} {Q : Except E α → ν → Prop}
    {t : Program S E α} {v : ν} {w : ω} (hens : t.Ensures H v Q) (hwithin : t.Within A P R)
    (hstep : ∀ op w v answer w', L w v → P op → K op w answer w' → A op answer ∧ ∃ v', H op v answer v' ∧ L w' v')
    (hguard : ∀ op w v, L w v → P op → N op w) (hv : L w v) :
    t.Guarded K N w fun result w' => ∃ v', L w' v' ∧ Q result v' ∧ ∀ value, result = .ok value → R value := by
  induction t generalizing v w with
  | done value =>
      refine ⟨v, hv, hens, fun found hfound => ?_⟩
      cases hfound
      exact hwithin
  | fail error => exact ⟨v, hv, hens, nofun⟩
  | call op next ih =>
      refine ⟨hguard op w v hv hwithin.1, fun answer w' hK => ?_⟩
      obtain ⟨hanswer, v', hH, hv'⟩ := hstep op w v answer w' hv hwithin.1 hK
      exact ih answer (hens answer v' hH) (hwithin.2 answer hanswer) hv'

/-- The account that only writes each call and its answer at the end of a log. -/
def Notes (op : S.Op) (log : List (Event S)) (answer : S.Answer op) (log' : List (Event S)) : Prop :=
  log' = log ++ [⟨op, answer⟩]

/-- A program that may issue its calls whatever was answered before. -/
theorem Only.notes {N : S.Op → List (Event S) → Prop} {t : Program S E α} {log : List (Event S)} (ht : t.Only P R)
    (hguard : ∀ op log, P op → N op log) :
    t.Guarded Notes N log fun result log' => log <+: log' ∧ ∀ value, result = .ok value → R value := by
  induction t generalizing log with
  | done value =>
      refine ⟨List.prefix_refl _, fun found hfound => ?_⟩
      cases hfound
      exact ht
  | fail error => exact ⟨List.prefix_refl _, nofun⟩
  | call op next ih =>
      refine ⟨hguard op log ht.1, fun answer log' hnotes => ?_⟩
      cases hnotes
      exact (ih answer (ht.2 answer)).mono fun result log' h => ⟨(List.prefix_append _ _).trans h.1, h.2⟩

end Guarded

/-- The rule for turning an error into a value. -/
theorem Ensures.outcome {t : Program S E α} {v : ν} {Q : Except E α → ν → Prop} (ht : t.Ensures H v Q) :
    t.outcome.Ensures H v fun result v' => ∃ inner, result = .ok inner ∧ Q inner v' := by
  induction t generalizing v with
  | done value => exact ⟨_, rfl, ht⟩
  | fail error => exact ⟨_, rfl, ht⟩
  | call op next ih => exact fun answer v' hH => ih answer (ht answer v' hH)

theorem Guarded.outcome {G : S.Op → ν → Prop} {t : Program S E α} {v : ν} {Q : Except E α → ν → Prop}
    (ht : t.Guarded H G v Q) : t.outcome.Guarded H G v fun result v' => ∃ inner, result = .ok inner ∧ Q inner v' := by
  induction t generalizing v with
  | done value => exact ⟨_, rfl, ht⟩
  | fail error => exact ⟨_, rfl, ht⟩
  | call op next ih => exact ⟨ht.1, fun answer v' hH => ih answer (ht.2 answer v' hH)⟩

theorem Ensures.and {t : Program S E α} {v : ν} {Q Q' : Except E α → ν → Prop} (ht : t.Ensures H v Q)
    (ht' : t.Ensures H v Q') : t.Ensures H v fun result v' => Q result v' ∧ Q' result v' := by
  induction t generalizing v with
  | done value => exact ⟨ht, ht'⟩
  | fail error => exact ⟨ht, ht'⟩
  | call op next ih => exact fun answer v' hH => ih answer (ht answer v' hH) (ht' answer v' hH)

end Program

namespace Pool

variable {S : Signature.{u}} {E α ι : Type} {σ : Type v} {ν : Type w} [DecidableEq ι]

/-- One scheduled turn of a program: its next call, if it has one. -/
def turn (h : Handler S σ) : Program S E α → σ → Program S E α × σ
  | .call op next, s => (next (h op s).1, (h op s).2)
  | t, s => (t, s)

/-- Whether a program has stopped with a value. -/
def succeeded : Program S E α → Bool
  | .done _ => true
  | _ => false

/-- Interleave the programs of a pool: each entry of the schedule lets one program make its next call. -/
def run (h : Handler S σ) : List ι → (ι → Program S E α) → σ → (ι → Program S E α) × σ
  | [], programs, s => (programs, s)
  | i :: schedule, programs, s =>
      run h schedule (Function.update programs i (turn h (programs i) s).1) (turn h (programs i) s).2

/-- The calls made along a schedule, each with the program that made it. -/
def trace (h : Handler S σ) : List ι → (ι → Program S E α) → σ → List (ι × Event S)
  | [], _, _ => []
  | i :: schedule, programs, s =>
      match programs i with
      | .call op next =>
          (i, ⟨op, (h op s).1⟩) ::
            trace h schedule (Function.update programs i (next (h op s).1)) (h op s).2
      | _ => trace h schedule programs s

/-- A program that makes no further call. -/
def Stopped (t : Program S E α) : Prop := ∀ op next, t ≠ .call op next

theorem stopped_of_succeeded {t : Program S E α} (h : succeeded t = true) : Stopped t := by
  rintro op next rfl
  cases h

variable {H : (op : S.Op) → ν → S.Answer op → ν → Prop} {h : Handler S σ}

theorem run_append (left right : List ι) (programs : ι → Program S E α) (s : σ) :
    run h (left ++ right) programs s = run h right (run h left programs s).1 (run h left programs s).2 := by
  induction left generalizing programs s with
  | nil => rfl
  | cons i left ih => exact ih _ _

theorem run_snoc (schedule : List ι) (i : ι) (programs : ι → Program S E α) (s : σ) :
    run h (schedule ++ [i]) programs s =
      (Function.update (run h schedule programs s).1 i
        (turn h ((run h schedule programs s).1 i) (run h schedule programs s).2).1,
        (turn h ((run h schedule programs s).1 i) (run h schedule programs s).2).2) :=
  run_append schedule [i] programs s

/-- A turn of a program that has stopped changes nothing. -/
theorem update_turn_of_stopped {programs : ι → Program S E α} {i : ι} {s : σ}
    (hstop : ∀ op next, programs i ≠ .call op next) :
    Function.update programs i (turn h (programs i) s).1 = programs ∧ (turn h (programs i) s).2 = s := by
  have hturn : turn h (programs i) s = (programs i, s) := by
    cases hi : programs i with
    | done value => rfl
    | fail error => rfl
    | call op next => exact absurd hi (hstop op next)
  rw [hturn]
  exact ⟨Function.update_eq_self i programs, rfl⟩

theorem trace_append (left right : List ι) (programs : ι → Program S E α) (s : σ) :
    trace h (left ++ right) programs s =
      trace h left programs s ++ trace h right (run h left programs s).1 (run h left programs s).2 := by
  induction left generalizing programs s with
  | nil => rfl
  | cons i left ih =>
      cases hi : programs i with
      | call op next => simp only [List.cons_append, trace, run, turn, hi, ih]
      | done value =>
          have hstop := update_turn_of_stopped (h := h) (s := s) (show ∀ op next, programs i ≠ .call op next by
            simp [hi])
          simp only [List.cons_append, trace, run, hi] at hstop ⊢
          rw [hstop.1, hstop.2]
          exact ih programs s
      | fail error =>
          have hstop := update_turn_of_stopped (h := h) (s := s) (show ∀ op next, programs i ≠ .call op next by
            simp [hi])
          simp only [List.cons_append, trace, run, hi] at hstop ⊢
          rw [hstop.1, hstop.2]
          exact ih programs s

/-- The calls made along a schedule are calls the programs may issue. -/
theorem trace_only {P : S.Op → Prop} (schedule : List ι) :
    ∀ (programs : ι → Program S E α) (s : σ), (∀ i, (programs i).Only P fun _ => True) →
      ∀ event ∈ trace h schedule programs s, P event.2.1 := by
  induction schedule with
  | nil => intro programs s _ event hmem; cases hmem
  | cons j schedule ih =>
      intro programs s honly event hmem
      cases hj : programs j with
      | call op next =>
          have hcall := honly j
          rw [hj] at hcall
          simp only [trace, hj, List.mem_cons] at hmem
          rcases hmem with rfl | hmem
          · exact hcall.1
          · refine ih _ _ (fun i => ?_) event hmem
            by_cases hij : i = j
            · subst hij
              rw [Function.update_self]
              exact hcall.2 _
            · rw [Function.update_of_ne hij]
              exact honly i
      | done value =>
          simp only [trace, hj] at hmem
          exact ih programs s honly event hmem
      | fail error =>
          simp only [trace, hj] at hmem
          exact ih programs s honly event hmem

/-- The rule of invariants: what every call that the programs may issue keeps, a run keeps. -/
theorem invariant {P : S.Op → Prop} {I : σ → Prop} (hkeep : ∀ op s, P op → I s → I (h op s).2)
    (schedule : List ι) (programs : ι → Program S E α) (s : σ)
    (honly : ∀ i, (programs i).Only P fun _ => True) (hs : I s) :
    (∀ i, ((run h schedule programs s).1 i).Only P fun _ => True) ∧ I (run h schedule programs s).2 := by
  induction schedule generalizing programs s with
  | nil => exact ⟨honly, hs⟩
  | cons j schedule ih =>
      have hturn : (turn h (programs j) s).1.Only P (fun _ => True) ∧ I (turn h (programs j) s).2 := by
        have hj := honly j
        cases hcall : programs j with
        | done value => exact ⟨trivial, hs⟩
        | fail error => exact ⟨trivial, hs⟩
        | call op next =>
            rw [hcall] at hj
            exact ⟨hj.2 _, hkeep op s hj.1 hs⟩
      refine ih _ _ (fun i => ?_) hturn.2
      by_cases hij : i = j
      · subst hij
        rw [Function.update_self]
        exact hturn.1
      · rw [Function.update_of_ne hij]
        exact honly i

/-- The call a program makes in its turn, if it makes one. -/
def called (h : Handler S σ) (i : ι) : Program S E α → σ → List (ι × Event S)
  | .call op _, s => [(i, ⟨op, (h op s).1⟩)]
  | .done _, _ | .fail _, _ => []

/-- The condition on the caller, the state, the calls made before and the call holds of a program's next call, if it has
one. -/
def Next (C : ι → σ → List (ι × Event S) → S.Op → Prop) (i : ι) (s : σ) (past : List (ι × Event S)) :
    Program S E α → Prop
  | .call op _ => C i s past op
  | _ => True

/-- Every call along the schedule is made where the condition holds. -/
def AlongPast (h : Handler S σ) (C : ι → σ → List (ι × Event S) → S.Op → Prop) :
    List ι → (ι → Program S E α) → σ → List (ι × Event S) → Prop
  | [], _, _, _ => True
  | i :: schedule, programs, s, past =>
      Next C i s past (programs i) ∧
        AlongPast h C schedule (Function.update programs i (turn h (programs i) s).1) (turn h (programs i) s).2
          (past ++ called h i (programs i) s)

/-- Every call along the schedule is made where the condition on the caller, the state and the call holds. -/
def Along (h : Handler S σ) (C : ι → σ → S.Op → Prop) (schedule : List ι) (programs : ι → Program S E α) (s : σ) :
    Prop :=
  AlongPast h (fun i s _ op => C i s op) schedule programs s []

instance decidableNext {C : ι → σ → List (ι × Event S) → S.Op → Prop} [∀ i s past op, Decidable (C i s past op)] (i : ι)
    (s : σ) (past : List (ι × Event S)) : (t : Program S E α) → Decidable (Next C i s past t)
  | .call op _ => inferInstanceAs (Decidable (C i s past op))
  | .done _ => inferInstanceAs (Decidable True)
  | .fail _ => inferInstanceAs (Decidable True)

instance decidableAlongPast {C : ι → σ → List (ι × Event S) → S.Op → Prop}
    [∀ i s past op, Decidable (C i s past op)] : (schedule : List ι) → (programs : ι → Program S E α) → (s : σ) →
      (past : List (ι × Event S)) → Decidable (AlongPast h C schedule programs s past)
  | [], _, _, _ => inferInstanceAs (Decidable True)
  | i :: schedule, programs, s, past =>
      @instDecidableAnd _ _ (decidableNext i s past (programs i))
        (decidableAlongPast schedule (Function.update programs i (turn h (programs i) s).1) (turn h (programs i) s).2
          (past ++ called h i (programs i) s))

instance decidableAlong {C : ι → σ → S.Op → Prop} [∀ i s op, Decidable (C i s op)] (schedule : List ι)
    (programs : ι → Program S E α) (s : σ) : Decidable (Along h C schedule programs s) :=
  inferInstanceAs (Decidable (AlongPast h (fun i s _ op => C i s op) schedule programs s []))

theorem alongPast_true (schedule : List ι) (programs : ι → Program S E α) (s : σ) (past : List (ι × Event S)) :
    AlongPast h (fun _ _ _ _ => True) schedule programs s past := by
  induction schedule generalizing programs s past with
  | nil => trivial
  | cons i schedule ih =>
      refine ⟨?_, ih _ _ _⟩
      cases programs i <;> trivial

/-- The rule of invariants that speak of the calls made so far. While the invariant holds calls are answered as the
programs rely on, and each call that a program may issue keeps it, where the condition on the steps holds. -/
theorem invariant_along {A : (op : S.Op) → S.Answer op → Prop} {P : ι → S.Op → Prop}
    {C : ι → σ → List (ι × Event S) → S.Op → Prop} {I : σ → List (ι × Event S) → Prop}
    (hanswer : ∀ i op s past, P i op → I s past → A op (h op s).1)
    (hkeep : ∀ i op s past, P i op → C i s past op → I s past → I (h op s).2 (past ++ [(i, ⟨op, (h op s).1⟩)]))
    (schedule : List ι) (programs : ι → Program S E α) (s : σ) (past : List (ι × Event S))
    (halong : AlongPast h C schedule programs s past) (hwithin : ∀ i, (programs i).Within A (P i) fun _ => True)
    (hs : I s past) : I (run h schedule programs s).2 (past ++ trace h schedule programs s) := by
  induction schedule generalizing programs s past with
  | nil => simpa only [run, trace, List.append_nil] using hs
  | cons j schedule ih =>
      obtain ⟨hnext, hrest⟩ := halong
      cases hj : programs j with
      | call op next =>
          have hcall := hwithin j
          rw [hj] at hcall hnext hrest
          have hlater := ih (Function.update programs j (next (h op s).1)) (h op s).2 _ hrest (fun i => ?_)
            (hkeep j op s past hcall.1 hnext hs)
          · simpa only [run, turn, called, trace, hj, List.append_assoc, List.singleton_append] using hlater
          · by_cases hij : i = j
            · subst hij
              rw [Function.update_self]
              exact hcall.2 _ (hanswer i op s past hcall.1 hs)
            · rw [Function.update_of_ne hij]
              exact hwithin i
      | done value =>
          have hstop : ∀ op next, programs j ≠ .call op next := by simp [hj]
          rw [(update_turn_of_stopped hstop).1, (update_turn_of_stopped hstop).2, hj, called, List.append_nil] at hrest
          simp only [trace, hj]
          rw [run, (update_turn_of_stopped hstop).1, (update_turn_of_stopped hstop).2]
          exact ih programs s past hrest hwithin hs
      | fail error =>
          have hstop : ∀ op next, programs j ≠ .call op next := by simp [hj]
          rw [(update_turn_of_stopped hstop).1, (update_turn_of_stopped hstop).2, hj, called, List.append_nil] at hrest
          simp only [trace, hj]
          rw [run, (update_turn_of_stopped hstop).1, (update_turn_of_stopped hstop).2]
          exact ih programs s past hrest hwithin hs

/-- What every call that the programs may issue keeps, whatever it is answered, a run keeps. -/
theorem invariant_past {P : ι → S.Op → Prop} {I : σ → List (ι × Event S) → Prop}
    (hkeep : ∀ i op s past, P i op → I s past → I (h op s).2 (past ++ [(i, ⟨op, (h op s).1⟩)]))
    (schedule : List ι) (programs : ι → Program S E α) (s : σ) (past : List (ι × Event S))
    (honly : ∀ i, (programs i).Only (P i) fun _ => True) (hs : I s past) :
    I (run h schedule programs s).2 (past ++ trace h schedule programs s) :=
  invariant_along (A := fun _ _ => True) (C := fun _ _ _ _ => True) (fun _ _ _ _ _ _ => trivial)
    (fun i op s past hop _ => hkeep i op s past hop) schedule programs s past (alongPast_true schedule programs s past)
    (fun i => (honly i).within) hs

/-- The rule of invariants that speak of the programs' views. Each call is accounted for in the view of the program
that makes it, and keeps what is known of the state, the calls made so far and all views. -/
theorem guarded {P : ι → S.Op → ν → Prop} {C : ι → σ → List (ι × Event S) → S.Op → Prop}
    {I : σ → List (ι × Event S) → (ι → ν) → Prop} {Q : ι → Except E α → ν → Prop}
    (hstep : ∀ i op s past views, P i op (views i) → C i s past op → I s past views →
      ∃ v', H op (views i) (h op s).1 v' ∧
        I (h op s).2 (past ++ [(i, ⟨op, (h op s).1⟩)]) (Function.update views i v'))
    (schedule : List ι) (programs : ι → Program S E α) (s : σ) (past : List (ι × Event S)) (views : ι → ν)
    (halong : AlongPast h C schedule programs s past)
    (hguarded : ∀ i, (programs i).Guarded H (P i) (views i) (Q i)) (hs : I s past views) :
    ∃ views', I (run h schedule programs s).2 (past ++ trace h schedule programs s) views' ∧
      ∀ i, ((run h schedule programs s).1 i).Guarded H (P i) (views' i) (Q i) := by
  induction schedule generalizing programs s past views with
  | nil => exact ⟨views, by simpa only [run, trace, List.append_nil] using hs, hguarded⟩
  | cons j schedule ih =>
      obtain ⟨hnext, hrest⟩ := halong
      cases hj : programs j with
      | call op next =>
          have hcall := hguarded j
          rw [hj] at hcall hnext hrest
          obtain ⟨v', hH, hI⟩ := hstep j op s past views hcall.1 hnext hs
          have hlater := ih (Function.update programs j (next (h op s).1)) (h op s).2 _ (Function.update views j v')
            hrest (fun i => ?_) hI
          · simpa only [run, turn, called, trace, hj, List.append_assoc, List.singleton_append] using hlater
          · by_cases hij : i = j
            · subst hij
              rw [Function.update_self, Function.update_self]
              exact hcall.2 _ _ hH
            · rw [Function.update_of_ne hij, Function.update_of_ne hij]
              exact hguarded i
      | done value =>
          have hstop : ∀ op next, programs j ≠ .call op next := by simp [hj]
          rw [(update_turn_of_stopped hstop).1, (update_turn_of_stopped hstop).2, hj, called, List.append_nil] at hrest
          simp only [trace, hj]
          rw [run, (update_turn_of_stopped hstop).1, (update_turn_of_stopped hstop).2]
          exact ih programs s past views hrest hguarded hs
      | fail error =>
          have hstop : ∀ op next, programs j ≠ .call op next := by simp [hj]
          rw [(update_turn_of_stopped hstop).1, (update_turn_of_stopped hstop).2, hj, called, List.append_nil] at hrest
          simp only [trace, hj]
          rw [run, (update_turn_of_stopped hstop).1, (update_turn_of_stopped hstop).2]
          exact ih programs s past views hrest hguarded hs

/-- The rule of invariants that speak of the schedule, and so of all states it has led through. -/
theorem guarded_schedule {P : ι → S.Op → ν → Prop} {I : List ι → (ι → ν) → Prop} {Q : ι → Except E α → ν → Prop}
    {programs : ι → Program S E α} {s : σ} {views : ι → ν}
    (hguarded : ∀ i, (programs i).Guarded H (P i) (views i) (Q i)) (hstart : I [] views)
    (hcall : ∀ before j op next views, (run h before programs s).1 j = .call op next → P j op (views j) →
      I before views → ∃ v', H op (views j) (h op (run h before programs s).2).1 v' ∧
        I (before ++ [j]) (Function.update views j v'))
    (hidle : ∀ before j views, Stopped ((run h before programs s).1 j) → I before views → I (before ++ [j]) views)
    (schedule : List ι) :
    ∃ views', I schedule views' ∧ ∀ i, ((run h schedule programs s).1 i).Guarded H (P i) (views' i) (Q i) := by
  induction schedule using List.reverseRecOn with
  | nil => exact ⟨views, hstart, hguarded⟩
  | append_singleton before j ih =>
      obtain ⟨views', hI, hlater⟩ := ih
      rw [run_snoc]
      have hj := hlater j
      cases hcase : (run h before programs s).1 j with
      | call op next =>
          rw [hcase] at hj
          obtain ⟨v', hH, hI'⟩ := hcall before j op next views' hcase hj.1 hI
          refine ⟨Function.update views' j v', hI', fun i => ?_⟩
          simp only [turn]
          by_cases hij : i = j
          · subst hij
            rw [Function.update_self, Function.update_self]
            exact hj.2 _ _ hH
          · rw [Function.update_of_ne hij, Function.update_of_ne hij]
            exact hlater i
      | done value =>
          have hstop : Stopped ((run h before programs s).1 j) := by simp [hcase, Stopped]
          refine ⟨views', hidle before j views' hstop hI, ?_⟩
          rw [← hcase, (update_turn_of_stopped hstop).1]
          exact hlater
      | fail error =>
          have hstop : Stopped ((run h before programs s).1 j) := by simp [hcase, Stopped]
          refine ⟨views', hidle before j views' hstop hI, ?_⟩
          rw [← hcase, (update_turn_of_stopped hstop).1]
          exact hlater

/-- Inside a pool a program keeps what it ensures, as long as the calls made along the schedule are
fine: its own move its view as `H` accounts for, those of the others leave the view alone. The relation
between the state and the view may speak of the calls made so far. -/
theorem ensures_run {R : σ → List (ι × Event S) → ν → Prop} {i : ι} {Q : Except E α → ν → Prop}
    {F : ι → Event S → Prop}
    (hown : ∀ op s past v, F i ⟨op, (h op s).1⟩ → R s past v →
      ∃ v', H op v (h op s).1 v' ∧ R (h op s).2 (past ++ [(i, ⟨op, (h op s).1⟩)]) v')
    (hother : ∀ j op s past v, j ≠ i → F j ⟨op, (h op s).1⟩ → R s past v →
      R (h op s).2 (past ++ [(j, ⟨op, (h op s).1⟩)]) v)
    (schedule : List ι) (programs : ι → Program S E α) (s : σ) (past : List (ι × Event S)) (v : ν)
    (hfine : ∀ event ∈ trace h schedule programs s, F event.1 event.2)
    (ht : (programs i).Ensures H v Q) (hs : R s past v) :
    ∃ v', ((run h schedule programs s).1 i).Ensures H v' Q ∧
      R (run h schedule programs s).2 (past ++ trace h schedule programs s) v' := by
  induction schedule generalizing programs s past v with
  | nil => exact ⟨v, ht, by rw [trace, List.append_nil]; exact hs⟩
  | cons j schedule ih =>
      cases hj : programs j with
      | call op next =>
          simp only [trace, hj, List.mem_cons] at hfine
          have hstep := hfine _ (Or.inl rfl)
          by_cases hij : j = i
          · subst hij
            rw [hj, Program.ensures_call] at ht
            obtain ⟨v', hH, hR⟩ := hown op s past v hstep hs
            have := ih (Function.update programs j (next (h op s).1)) (h op s).2 _ v'
              (fun event hmem => hfine event (Or.inr hmem))
              (by rw [Function.update_self]; exact ht _ _ hH) hR
            simpa only [run, turn, trace, hj, List.append_assoc, List.singleton_append] using this
          · have := ih (Function.update programs j (next (h op s).1)) (h op s).2 _ v
              (fun event hmem => hfine event (Or.inr hmem))
              (by rw [Function.update_of_ne (Ne.symm hij)]; exact ht)
              (hother j op s past v hij hstep hs)
            simpa only [run, turn, trace, hj, List.append_assoc, List.singleton_append] using this
      | done value =>
          have hstop : ∀ op next, programs j ≠ .call op next := by simp [hj]
          simp only [trace, hj] at hfine ⊢
          rw [run, (update_turn_of_stopped hstop).1, (update_turn_of_stopped hstop).2]
          exact ih programs s past v hfine ht hs
      | fail error =>
          have hstop : ∀ op next, programs j ≠ .call op next := by simp [hj]
          simp only [trace, hj] at hfine ⊢
          rw [run, (update_turn_of_stopped hstop).1, (update_turn_of_stopped hstop).2]
          exact ih programs s past v hfine ht hs

end Pool

namespace Program

variable {S : Signature.{u}} {E α β : Type} {σ : Type v}

/-- Each call is answered as the handler answers it. -/
def Exactly (h : Handler S σ) (op : S.Op) (s : σ) (answer : S.Answer op) (s' : σ) : Prop :=
  answer = (h op s).1 ∧ s' = (h op s).2

variable {h : Handler S σ}

theorem ensures_exactly_ask {op : S.Op} {f : S.Answer op → Program S E β} {s : σ} {Q : Except E β → σ → Prop}
    (hf : (f (h op s).1).Ensures (Exactly h) (h op s).2 Q) : ((ask op).bind f).Ensures (Exactly h) s Q := by
  rintro answer s' ⟨rfl, rfl⟩
  exact hf

/-- What a program ensures of a handler holds of its run. -/
theorem Ensures.run_exactly {t : Program S E α} {s : σ} {Q : Except E α → σ → Prop}
    (ht : t.Ensures (Exactly h) s Q) : Q (t.run h s).1 (t.run h s).2 := by
  induction t generalizing s with
  | done value => exact ht
  | fail error => exact ht
  | call op next ih => exact ih _ (ht _ _ ⟨rfl, rfl⟩)

end Program

namespace Signature

/-- The calls of both signatures. -/
def sum (S : Signature.{u}) (T : Signature.{v}) : Signature.{max u v} where
  Op := S.Op ⊕ T.Op
  Answer
    | .inl op => S.Answer op
    | .inr op => T.Answer op

end Signature

namespace Program

variable {S : Signature.{u}} {T : Signature.{w}} {E α : Type} {σ τ : Type v}

/-- A program of the left signature as a program of both. -/
def inl : Program S E α → Program (S.sum T) E α
  | done value => done value
  | fail error => fail error
  | call op next => call (S := S.sum T) (.inl op) fun answer => (next answer).inl

/-- A program of the right signature as a program of both. -/
def inr : Program T E α → Program (S.sum T) E α
  | done value => done value
  | fail error => fail error
  | call op next => call (S := S.sum T) (.inr op) fun answer => (next answer).inr

/-- Handlers of two signatures, each on its own component of the state. -/
def sumHandler (h : Handler S σ) (k : Handler T τ) : Handler (S.sum T) (σ × τ)
  | .inl op, s => ((h op s.1).1, ((h op s.1).2, s.2))
  | .inr op, s => ((k op s.2).1, (s.1, (k op s.2).2))

/-- The calls of the left signature as `H` accounts for them on the left view, those of the right one
as `K` does on the right view. -/
def sumAccount {ν ω : Type v} (H : (op : S.Op) → ν → S.Answer op → ν → Prop)
    (K : (op : T.Op) → ω → T.Answer op → ω → Prop) :
    (op : (S.sum T).Op) → ν × ω → (S.sum T).Answer op → ν × ω → Prop
  | .inl op, v, answer, v' => H op v.1 answer v'.1 ∧ v'.2 = v.2
  | .inr op, v, answer, v' => K op v.2 answer v'.2 ∧ v'.1 = v.1

section SumAccount

variable {ν ω : Type v} {H : (op : S.Op) → ν → S.Answer op → ν → Prop}
  {K : (op : T.Op) → ω → T.Answer op → ω → Prop}

/-- What a program ensures on its own it ensures beside another signature, for every account of the
sum that its own account simulates. -/
theorem Ensures.inl_of {μ : Type v} {M : (op : (S.sum T).Op) → μ → (S.sum T).Answer op → μ → Prop}
    {L : μ → ν → Prop} {t : Program S E α} {Q : Except E α → ν → Prop} {v : ν} (ht : t.Ensures H v Q)
    (hstep : ∀ op x v answer x', L x v → M (.inl op) x answer x' → ∃ v', H op v answer v' ∧ L x' v')
    {x : μ} (hx : L x v) :
    (t.inl : Program (S.sum T) E α).Ensures M x fun result x' => ∃ v', L x' v' ∧ Q result v' := by
  induction t generalizing v x with
  | done value => exact ⟨v, hx, ht⟩
  | fail error => exact ⟨v, hx, ht⟩
  | call op next ih =>
      intro answer x' hM
      obtain ⟨v', hH, hL⟩ := hstep op x v answer x' hx hM
      exact ih answer (ht answer v' hH) hL

theorem Ensures.inl {t : Program S E α} {Q : Except E α → ν → Prop} {v : ν} {w : ω}
    (ht : t.Ensures H v Q) :
    (t.inl : Program (S.sum T) E α).Ensures (sumAccount H K) (v, w) fun result v' =>
      Q result v'.1 ∧ v'.2 = w := by
  refine Ensures.mono (ht.inl_of (L := fun (x : ν × ω) v => x.1 = v ∧ x.2 = w) ?_ ⟨rfl, rfl⟩) ?_
  · rintro op x v answer x' ⟨rfl, rfl⟩ ⟨hH, hw⟩
    exact ⟨x'.1, hH, rfl, hw⟩
  · rintro result x ⟨v', ⟨rfl, hw⟩, hQ⟩
    exact ⟨hQ, hw⟩

theorem Ensures.inr {t : Program T E α} {Q : Except E α → ω → Prop} {v : ν} {w : ω}
    (ht : t.Ensures K w Q) :
    (t.inr : Program (S.sum T) E α).Ensures (sumAccount H K) (v, w) fun result v' =>
      Q result v'.2 ∧ v'.1 = v := by
  induction t generalizing w with
  | done value => exact ⟨ht, rfl⟩
  | fail error => exact ⟨ht, rfl⟩
  | call op next ih =>
      rintro answer ⟨v', w'⟩ ⟨hK, hv⟩
      cases hv
      exact ih answer (ht answer w' hK)

theorem Stops.inl {t : Program S E α} {v v' : ν} {w : ω} {result : Except E α}
    (ht : t.Stops H v result v') :
    (t.inl : Program (S.sum T) E α).Stops (sumAccount H K) (v, w) result (v', w) := by
  refine Ensures.mono (Ensures.inl ht) ?_
  rintro r ⟨u, x⟩ ⟨⟨rfl, rfl⟩, rfl⟩
  exact ⟨rfl, rfl⟩

theorem Stops.inr {t : Program T E α} {v : ν} {w w' : ω} {result : Except E α}
    (ht : t.Stops K w result w') :
    (t.inr : Program (S.sum T) E α).Stops (sumAccount H K) (v, w) result (v, w') := by
  refine Ensures.mono (Ensures.inr ht) ?_
  rintro r ⟨u, x⟩ ⟨⟨rfl, rfl⟩, rfl⟩
  exact ⟨rfl, rfl⟩

end SumAccount

/-- The events of the left side, in order. -/
def leftEvents : List (Event (S.sum T)) → List (Event S)
  | [] => []
  | ⟨.inl op, answer⟩ :: rest => ⟨op, answer⟩ :: leftEvents rest
  | ⟨.inr _, _⟩ :: rest => leftEvents rest

theorem leftEvents_append (first second : List (Event (S.sum T))) :
    leftEvents (first ++ second) = leftEvents first ++ leftEvents second := by
  induction first with
  | nil => rfl
  | cons event rest ih =>
      obtain ⟨op, answer⟩ := event
      cases op with
      | inl op => simp only [List.cons_append, leftEvents, ih]
      | inr op => simp only [List.cons_append, leftEvents, ih]

/-- The calls of either side that satisfy its predicate. -/
def sumOps (P : S.Op → Prop) (P' : T.Op → Prop) : (S.sum T).Op → Prop
  | .inl op => P op
  | .inr op => P' op

/-- Beside another signature a program ensures of a handler what it ensures alone. -/
theorem Ensures.inl_exactly {h : Handler S σ} {k : Handler T τ} {t : Program S E α} {s : σ} {r : τ}
    {Q : Except E α → σ → Prop} (ht : t.Ensures (Exactly h) s Q) :
    (t.inl : Program (S.sum T) E α).Ensures (Exactly (sumHandler h k)) (s, r) fun result x =>
      Q result x.1 ∧ x.2 = r := by
  refine Ensures.mono (ht.inl_of (L := fun (x : σ × τ) s => x.1 = s ∧ x.2 = r) ?_ ⟨rfl, rfl⟩) ?_
  · rintro op x s answer x' ⟨rfl, rfl⟩ ⟨rfl, rfl⟩
    exact ⟨_, ⟨rfl, rfl⟩, rfl, rfl⟩
  · rintro result x ⟨s', ⟨rfl, hr⟩, hQ⟩
    exact ⟨hQ, hr⟩

theorem Guarded.inl {ν : Type v} {H : (op : S.Op) → ν → S.Answer op → ν → Prop} {G : S.Op → ν → Prop}
    {K : (op : (S.sum T).Op) → ν → (S.sum T).Answer op → ν → Prop} {N : (S.sum T).Op → ν → Prop}
    {t : Program S E α} {v : ν} {Q : Except E α → ν → Prop} (ht : t.Guarded H G v Q)
    (hK : ∀ op v answer v', K (.inl op) v answer v' → H op v answer v') (hN : ∀ op v, G op v → N (.inl op) v) :
    (t.inl : Program (S.sum T) E α).Guarded K N v Q := by
  induction t generalizing v with
  | done value => exact ht
  | fail error => exact ht
  | call op next ih => exact ⟨hN op v ht.1, fun answer v' hstep => ih answer (ht.2 answer v' (hK _ _ _ _ hstep))⟩

/-- The answers of either side that satisfy its predicate. -/
def sumAnswers (A : (op : S.Op) → S.Answer op → Prop) (B : (op : T.Op) → T.Answer op → Prop) :
    (op : (S.sum T).Op) → (S.sum T).Answer op → Prop
  | .inl op, answer => A op answer
  | .inr op, answer => B op answer

theorem Within.inl {A : (op : S.Op) → S.Answer op → Prop} {B : (op : T.Op) → T.Answer op → Prop} {P : S.Op → Prop}
    {N : T.Op → Prop} {R : α → Prop} {t : Program S E α} (ht : t.Within A P R) :
    (t.inl : Program (S.sum T) E α).Within (sumAnswers A B) (sumOps P N) R := by
  induction t with
  | done value => exact ht
  | fail error => trivial
  | call op next ih => exact ⟨ht.1, fun answer hanswer => ih answer (ht.2 answer hanswer)⟩

theorem Only.inl {P : S.Op → Prop} {N : T.Op → Prop} {R : α → Prop} {t : Program S E α}
    (ht : t.Only P R) : (t.inl : Program (S.sum T) E α).Only (sumOps P N) R := by
  induction t with
  | done value => exact ht
  | fail error => trivial
  | call op next ih => exact ⟨ht.1, fun answer => ih answer (ht.2 answer)⟩

end Program

/-! ### Calls under another signature -/

/-- Each call of one signature as a call of another, and the answer to it. -/
structure Signature.Hom (S : Signature.{u}) (T : Signature.{v}) where
  op : S.Op → T.Op
  answer : (o : S.Op) → T.Answer (op o) → S.Answer o

namespace Program

variable {S : Signature.{u}} {T : Signature.{v}} {E α : Type} (f : S.Hom T)

/-- A program of one signature as a program of another. -/
def via : Program S E α → Program T E α
  | done value => done value
  | fail error => fail error
  | call op next => call (f.op op) fun answer => (next (f.answer op answer)).via

theorem Within.via {A : (op : S.Op) → S.Answer op → Prop} {B : (op : T.Op) → T.Answer op → Prop} {P : S.Op → Prop}
    {N : T.Op → Prop} {R : α → Prop} {t : Program S E α} (ht : t.Within A P R)
    (hB : ∀ op answer, B (f.op op) answer → A op (f.answer op answer)) (hN : ∀ op, P op → N (f.op op)) :
    (t.via f).Within B N R := by
  induction t with
  | done value => exact ht
  | fail error => trivial
  | call op next ih => exact ⟨hN op ht.1, fun answer hanswer => ih _ (ht.2 _ (hB op answer hanswer))⟩

end Program

end Lib
