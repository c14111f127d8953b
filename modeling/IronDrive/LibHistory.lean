import IronDrive.LibProgram

/-! What programs that are interleaved know of the past: each has a log of its own calls, and each entry of the log is
what the handler answered at one of its turns. -/

namespace Lib

universe u v

namespace Program

variable {S : Signature.{u}} {E α : Type} {P : S.Op → Prop} {R : α → Prop} {I : List (Event S) → Prop}
  {N : S.Op → List (Event S) → Prop}

theorem only_true (t : Program S E α) : t.Only (fun _ => True) fun _ => True := by
  induction t with
  | done value => trivial
  | fail error => trivial
  | call op next ih => exact ⟨trivial, ih⟩

/-- A program whose calls keep a property of the log, and may be issued as long as the log has it. -/
theorem Only.keeps {t : Program S E α} {log : List (Event S)} (ht : t.Only P R) (hlog : I log)
    (hguard : ∀ op log, P op → I log → N op log)
    (hcall : ∀ op answer log, P op → I log → I (log ++ [⟨op, answer⟩])) :
    t.Guarded Notes N log fun _ log' => I log' := by
  induction t generalizing log with
  | done value => exact hlog
  | fail error => exact hlog
  | call op next ih =>
      refine ⟨hguard op log ht.1 hlog, fun answer log' hnotes => ?_⟩
      cases hnotes
      exact ih answer (ht.2 answer) (hcall op answer log ht.1 hlog)

end Program

namespace Pool

variable {S : Signature.{u}} {E α ι : Type} {σ : Type v} [DecidableEq ι] {h : Handler S σ}
  {programs : ι → Program S E α} {s : σ} {schedule before : List ι} {i j : ι}

/-- Each event of the log is what a turn of this program has seen. -/
def Recalls (h : Handler S σ) (programs : ι → Program S E α) (s : σ) (schedule : List ι) (i : ι)
    (log : List (Event S)) : Prop :=
  ∀ event ∈ log, ∃ earlier later, schedule = earlier ++ i :: later ∧
    event.2 = (h event.1 (run h earlier programs s).2).1 ∧
    (run h (earlier ++ [i]) programs s).2 = (h event.1 (run h earlier programs s).2).2

theorem Recalls.snoc {log : List (Event S)} (hlog : Recalls h programs s schedule i log) (j : ι) :
    Recalls h programs s (schedule ++ [j]) i log := by
  intro event hmem
  obtain ⟨earlier, later, rfl, hevent⟩ := hlog event hmem
  exact ⟨earlier, later ++ [j], by simp, hevent⟩

theorem run_call {op : S.Op} {next : S.Answer op → Program S E α}
    (hcall : (run h before programs s).1 j = .call op next) :
    (run h (before ++ [j]) programs s).2 = (h op (run h before programs s).2).2 := by
  rw [run_snoc, hcall]
  rfl

theorem run_stopped (hstop : Stopped ((run h before programs s).1 j)) :
    run h (before ++ [j]) programs s = run h before programs s := by
  rw [run_snoc, (update_turn_of_stopped hstop).1, (update_turn_of_stopped hstop).2]

/-- A turn is noted by the program whose turn it is. -/
theorem recalls_call {op : S.Op} {next : S.Answer op → Program S E α} {logs : ι → List (Event S)}
    (hcall : (run h before programs s).1 j = .call op next) (hlogs : ∀ i, Recalls h programs s before i (logs i))
    (i : ι) :
    Recalls h programs s (before ++ [j]) i
      (Function.update logs j (logs j ++ [⟨op, (h op (run h before programs s).2).1⟩]) i) := by
  by_cases hij : i = j
  · subst hij
    rw [Function.update_self]
    intro event hmem
    rcases List.mem_append.mp hmem with hold | hnew
    · exact (hlogs i).snoc i event hold
    · rw [List.mem_singleton.mp hnew]
      exact ⟨before, [], rfl, rfl, run_call hcall⟩
  · rw [Function.update_of_ne hij]
    exact (hlogs i).snoc j

/-- The rule of invariants that speak of the schedule and of what each program remembers of it. -/
theorem recalled {P : ι → S.Op → List (Event S) → Prop} {I : List ι → (ι → List (Event S)) → Prop}
    {Q : ι → Except E α → List (Event S) → Prop}
    (hguarded : ∀ i, (programs i).Guarded Program.Notes (P i) [] (Q i)) (hstart : I [] fun _ => [])
    (hcall : ∀ before j op next logs, (run h before programs s).1 j = .call op next → P j op (logs j) →
      (∀ i, Recalls h programs s before i (logs i)) → I before logs →
        I (before ++ [j]) (Function.update logs j (logs j ++ [⟨op, (h op (run h before programs s).2).1⟩])))
    (hidle : ∀ before j logs, Stopped ((run h before programs s).1 j) → I before logs → I (before ++ [j]) logs)
    (schedule : List ι) :
    ∃ logs, ((∀ i, Recalls h programs s schedule i (logs i)) ∧ I schedule logs) ∧
      ∀ i, ((run h schedule programs s).1 i).Guarded Program.Notes (P i) (logs i) (Q i) := by
  refine guarded_schedule (I := fun schedule logs => (∀ i, Recalls h programs s schedule i (logs i)) ∧ I schedule logs)
    hguarded ⟨fun i event hmem => absurd hmem List.not_mem_nil, hstart⟩ ?_ ?_ schedule
  · intro before j op next logs hcase hP hinvariant
    exact ⟨_, rfl, recalls_call hcase hinvariant.1, hcall before j op next logs hcase hP hinvariant.1 hinvariant.2⟩
  · intro before j logs hstop hinvariant
    exact ⟨fun i => (hinvariant.1 i).snoc j, hidle before j logs hstop hinvariant.2⟩

end Pool

end Lib
