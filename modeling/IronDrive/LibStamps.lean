import Mathlib.Data.String.Basic
import Mathlib.Tactic.Common

/-! Texts made of decimal numbers. Numbers of a fixed width, with leading zeros, sort as texts like they sort as
numbers, and so do texts that are made of such numbers and separators. -/

namespace Lib

theorem append_lt_append {α : Type} [LinearOrder α] {front front' : List α} (h : front.length = front'.length)
    (back back' : List α) : front ++ back < front' ++ back' ↔ front < front' ∨ front = front' ∧ back < back' := by
  induction front generalizing front' with
  | nil =>
      obtain rfl : front' = [] := List.length_eq_zero_iff.mp h.symm
      simp
  | cons first front ih =>
      cases front' with
      | nil => cases h
      | cons first' front' =>
          rw [List.cons_append, List.cons_append, List.cons_lt_cons_iff, List.cons_lt_cons_iff,
            ih (Nat.succ.inj h), List.cons.injEq]
          tauto

/-- The last `width` decimal digits of a number, with leading zeros. -/
def digits : Nat → Nat → List Char
  | 0, _ => []
  | width + 1, n => digits width (n / 10) ++ [Nat.digitChar (n % 10)]

@[simp] theorem digits_length (width n : Nat) : (digits width n).length = width := by
  induction width generalizing n with
  | zero => rfl
  | succ width ih => rw [digits, List.length_append, ih, List.length_singleton]

theorem digitChar_lt : ∀ a < 10, ∀ b < 10, Nat.digitChar a < Nat.digitChar b ↔ a < b := by decide

theorem digitChar_inj : ∀ a < 10, ∀ b < 10, Nat.digitChar a = Nat.digitChar b → a = b := by decide

theorem digits_inj {width a b : Nat} (ha : a < 10 ^ width) (hb : b < 10 ^ width)
    (h : digits width a = digits width b) : a = b := by
  induction width generalizing a b with
  | zero =>
      rw [Nat.pow_zero] at ha hb
      omega
  | succ width ih =>
      rw [Nat.pow_succ] at ha hb
      obtain ⟨hfront, hlast⟩ := List.append_inj' h rfl
      have htens : a / 10 = b / 10 := ih (by omega) (by omega) hfront
      have hones : a % 10 = b % 10 :=
        digitChar_inj _ (by omega) _ (by omega) (List.cons.inj hlast).1
      omega

theorem digits_lt_digits {width a b : Nat} (ha : a < 10 ^ width) (hb : b < 10 ^ width) :
    digits width a < digits width b ↔ a < b := by
  induction width generalizing a b with
  | zero =>
      rw [Nat.pow_zero] at ha hb
      simp only [digits, List.not_lt_nil, false_iff]
      omega
  | succ width ih =>
      rw [Nat.pow_succ] at ha hb
      have hfront : digits width (a / 10) < digits width (b / 10) ↔ a / 10 < b / 10 := ih (by omega) (by omega)
      have hlast : Nat.digitChar (a % 10) < Nat.digitChar (b % 10) ↔ a % 10 < b % 10 :=
        digitChar_lt _ (by omega) _ (by omega)
      have hsame : digits width (a / 10) = digits width (b / 10) ↔ a / 10 = b / 10 :=
        ⟨digits_inj (by omega) (by omega), fun heq => heq ▸ rfl⟩
      rw [digits, digits, append_lt_append (by simp), hfront, hsame, List.cons_lt_cons_iff, hlast]
      simp only [List.not_lt_nil, and_false, or_false]
      omega

theorem digits_zero (width : Nat) : digits width 0 = List.replicate width '0' := by
  induction width with
  | zero => rfl
  | succ width ih => rw [digits, Nat.zero_div, ih, List.replicate_succ']; rfl

/-- The digits in front of the last few are those of a quotient. -/
theorem digits_add (width last n : Nat) : digits (width + last) n = digits width (n / 10 ^ last) ++ digits last n := by
  induction last generalizing n with
  | zero => rw [Nat.pow_zero, Nat.div_one, digits, Nat.add_zero, List.append_nil]
  | succ last ih =>
      rw [← Nat.add_assoc, digits, ih, Nat.div_div_eq_div_mul, ← Nat.pow_succ', List.append_assoc]
      rfl

theorem le_of_mem_digits {width n : Nat} {c : Char} (h : c ∈ digits width n) : '0' ≤ c := by
  induction width generalizing n with
  | zero => cases h
  | succ width ih =>
      rcases List.mem_append.mp h with hfront | hlast
      · exact ih hfront
      · have hdigit : ∀ a < 10, '0' ≤ Nat.digitChar a := by decide
        rw [List.mem_singleton.mp hlast]
        exact hdigit _ (Nat.mod_lt _ (by decide))

/-- A character before the digits sorts before them. -/
theorem cons_lt_digits {c : Char} (hc : c < '0') {width : Nat} (hpos : 0 < width) (n : Nat) (rest rest' : List Char) :
    c :: rest < digits width n ++ rest' := by
  cases hdigits : digits width n with
  | nil =>
      have hlength := digits_length width n
      rw [hdigits, List.length_nil] at hlength
      omega
  | cons first last =>
      have hfirst : first ∈ digits width n := hdigits ▸ List.mem_cons_self
      rw [List.cons_append, List.cons_lt_cons_iff]
      exact Or.inl (hc.trans_le (le_of_mem_digits hfirst))

/-- The digits of a number, filled up with zeros. -/
theorem replicate_append_toDigits {width n : Nat} (h : n < 10 ^ width) (hpos : 0 < width) :
    List.replicate (width - (Nat.toDigits 10 n).length) '0' ++ Nat.toDigits 10 n = digits width n := by
  induction width generalizing n with
  | zero => cases hpos
  | succ width ih =>
      rw [Nat.pow_succ] at h
      by_cases hsmall : n < 10
      · rw [Nat.toDigits_of_lt_base hsmall, digits, Nat.div_eq_of_lt hsmall, Nat.mod_eq_of_lt hsmall, digits_zero]
        rfl
      · have hwidth : 0 < width := by
          rcases Nat.eq_zero_or_pos width with rfl | hwidth
          · rw [Nat.pow_zero] at h
            omega
          · exact hwidth
        have hfront := ih (show n / 10 < 10 ^ width by omega) hwidth
        rw [Nat.toDigits_of_base_le (by decide) (not_lt.mp hsmall), digits, ← hfront, List.length_append,
          List.length_singleton, Nat.add_sub_add_right, List.append_assoc]

/-! ### Stamps -/

/-- A layout: the width of each number, and the text that follows it. -/
abbrev Layout : Type := List (Nat × List Char)

def stamp : Layout → List Nat → List Char
  | (width, after) :: layout, n :: numbers => digits width n ++ (after ++ stamp layout numbers)
  | _, _ => []

/-- Every number has its place in the layout, and fits. -/
def Fits (layout : Layout) (numbers : List Nat) : Prop :=
  List.Forall₂ (fun field n => n < 10 ^ field.1) layout numbers

/-- Stamps of one layout sort like their numbers, first one first. -/
theorem stamp_lt_stamp {layout : Layout} {numbers numbers' : List Nat} (h : Fits layout numbers)
    (h' : Fits layout numbers') : stamp layout numbers < stamp layout numbers' ↔ numbers < numbers' := by
  induction layout generalizing numbers numbers' with
  | nil =>
      cases h
      cases h'
      simp [stamp]
  | cons field layout ih =>
      obtain ⟨width, after⟩ := field
      cases h with
      | @cons _ n _ rest hn hrest =>
          cases h' with
          | @cons _ n' _ rest' hn' hrest' =>
              have hsame : digits width n = digits width n' ↔ n = n' :=
                ⟨digits_inj hn hn', fun heq => heq ▸ rfl⟩
              have hafter : after ++ stamp layout rest < after ++ stamp layout rest' ↔ rest < rest' := by
                rw [append_lt_append rfl, ih hrest hrest']
                simp
              rw [stamp, stamp, append_lt_append (by simp), digits_lt_digits hn hn', hsame, hafter,
                List.cons_lt_cons_iff]

end Lib
