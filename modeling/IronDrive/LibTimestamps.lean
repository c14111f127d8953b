import IronDrive.LibCalendar
import IronDrive.LibStamps

/-! Dates and times written as texts, to the second. The years from 0 to 9999 have four digits, and the others a sign
and as many as they need. Texts sort like the times unless a sign or the number of digits comes in between. -/

namespace Lib

/-- The year of a time in seconds since the epoch. -/
def yearAt (s : Int) : Int := (Date.ofDay (s / 86400)).year

/-- Month, day, hour, minute and second. -/
def fieldsAt (s : Int) : List Nat :=
  [(Date.ofDay (s / 86400)).month, (Date.ofDay (s / 86400)).day, (s % 86400).toNat / 3600,
    (s % 86400).toNat % 3600 / 60, (s % 86400).toNat % 60]

/-- Within a day: by hour, then by minute, then by second. -/
theorem clock_lt_iff (a b : Nat) :
    [a / 3600, a % 3600 / 60, a % 60] < [b / 3600, b % 3600 / 60, b % 60] ↔ a < b := by
  simp only [List.cons_lt_cons_iff, List.not_lt_nil, and_false, or_false]
  omega

theorem Date.fields_lt_iff (a b : Date) (clock clock' : List Nat) :
    a.year < b.year ∨ a.year = b.year ∧ a.month :: a.day :: clock < b.month :: b.day :: clock' ↔
      a < b ∨ a = b ∧ clock < clock' := by
  simp only [List.cons_lt_cons_iff, Date.lt_iff, Date.ext_iff]
  tauto

/-- Times are in the order of their fields. -/
theorem fields_lt_iff {s s' : Int} :
    yearAt s < yearAt s' ∨ yearAt s = yearAt s' ∧ fieldsAt s < fieldsAt s' ↔ s < s' := by
  have hclock := clock_lt_iff (s % 86400).toNat (s' % 86400).toNat
  calc yearAt s < yearAt s' ∨ yearAt s = yearAt s' ∧ fieldsAt s < fieldsAt s'
      ↔ Date.ofDay (s / 86400) < Date.ofDay (s' / 86400) ∨ Date.ofDay (s / 86400) = Date.ofDay (s' / 86400) ∧
          (s % 86400).toNat < (s' % 86400).toNat := by
        rw [← hclock]
        exact Date.fields_lt_iff _ _ _ _
    _ ↔ s / 86400 < s' / 86400 ∨ s / 86400 = s' / 86400 ∧ (s % 86400).toNat < (s' % 86400).toNat := by
        rw [Date.ofDay_lt_ofDay, Date.ofDay_injective.eq_iff]
    _ ↔ s < s' := by omega

theorem yearAt_mono {s s' : Int} (h : s ≤ s') : yearAt s ≤ yearAt s' := by
  rcases h.lt_or_eq with hlt | rfl
  · rcases fields_lt_iff.mpr hlt with hyear | hyear
    · exact hyear.le
    · exact hyear.1.le
  · exact le_rfl

theorem fieldsAt_fits (s : Int) (first second third fourth fifth : List Char) :
    Fits [(2, first), (2, second), (2, third), (2, fourth), (2, fifth)] (fieldsAt s) := by
  have hmonth := (Date.ofDay (s / 86400)).month_mem
  have hday := (Date.ofDay (s / 86400)).day_mem
  have hlength := Date.monthLength_le (Date.ofDay (s / 86400)).year (Date.ofDay (s / 86400)).month
  refine .cons ?_ (.cons ?_ (.cons ?_ (.cons ?_ (.cons ?_ .nil))))
  all_goals
    dsimp only
    omega

/-- The digits a year outside 0 to 9999 is written with. -/
def yearWidth (y : Int) : Nat := max 4 (Nat.toDigits 10 y.natAbs).length

def yearText (y : Int) : List Char :=
  if 0 ≤ y ∧ y ≤ 9999 then digits 4 y.natAbs
  else (if 0 ≤ y then '+' else '-') :: digits (yearWidth y) y.natAbs

theorem lt_pow_yearWidth (y : Int) : y.natAbs < 10 ^ yearWidth y :=
  (Nat.length_toDigits_le_iff (by decide) (by unfold yearWidth; omega)).mp (Nat.le_max_right _ _)

theorem yearWidth_pos (y : Int) : 0 < yearWidth y := by
  unfold yearWidth
  omega

theorem yearWidth_mono {y z : Int} (h : y.natAbs ≤ z.natAbs) : yearWidth y ≤ yearWidth z := by
  apply max_le
  · exact Nat.le_max_left _ _
  · exact (Nat.length_toDigits_le_iff (by decide) (yearWidth_pos z)).mpr (h.trans_lt (lt_pow_yearWidth z))

/-- A year and a later one whose texts sort like them. Years with a `+` come before those with a `-`, and these before
those with neither; with a sign, the first digits count, and not how many there are. -/
def TextsInOrder (early late : Int) : Prop :=
  0 ≤ late ∧ late ≤ 9999 ∨
  9999 < early ∧ early.natAbs * 10 ^ (yearWidth late - yearWidth early) ≤ late.natAbs ∨
  late < 0 ∧ early.natAbs < late.natAbs * 10 ^ (yearWidth early - yearWidth late)

instance (early late : Int) : Decidable (TextsInOrder early late) :=
  inferInstanceAs (Decidable (_ ∨ _ ∨ _))

/-- The shorter number comes first if it is not above the first digits of the longer one: a dash follows it. -/
theorem digits_dash_lt {width width' a b : Nat} (hwidth : width ≤ width') (ha : a < 10 ^ width) (hb : b < 10 ^ width')
    (hlt : a < b) (h : a * 10 ^ (width' - width) ≤ b) (rest rest' : List Char) :
    digits width a ++ '-' :: rest < digits width' b ++ '-' :: rest' := by
  obtain ⟨last, rfl⟩ := Nat.exists_eq_add_of_le hwidth
  rw [Nat.add_sub_cancel_left] at h
  have hquotient : b / 10 ^ last < 10 ^ width := by
    rw [Nat.div_lt_iff_lt_mul (by positivity), ← Nat.pow_add]
    exact hb
  rw [digits_add, List.append_assoc, append_lt_append (by simp), digits_lt_digits ha hquotient]
  rcases ((Nat.le_div_iff_mul_le (by positivity)).mpr h).lt_or_eq with hfirst | heq
  · exact Or.inl hfirst
  · refine Or.inr ⟨congrArg _ heq, cons_lt_digits (by decide) ?_ b rest _⟩
    rcases Nat.eq_zero_or_pos last with rfl | hpos
    · rw [Nat.pow_zero, Nat.div_one] at heq
      omega
    · exact hpos

theorem digits_lt_dash {width width' a b : Nat} (hwidth : width ≤ width') (ha : a < 10 ^ width) (hb : b < 10 ^ width')
    (h : b < a * 10 ^ (width' - width)) (rest rest' : List Char) :
    digits width' b ++ rest' < digits width a ++ rest := by
  obtain ⟨last, rfl⟩ := Nat.exists_eq_add_of_le hwidth
  rw [Nat.add_sub_cancel_left] at h
  have hquotient : b / 10 ^ last < 10 ^ width := by
    rw [Nat.div_lt_iff_lt_mul (by positivity), ← Nat.pow_add]
    exact hb
  rw [digits_add, List.append_assoc, append_lt_append (by simp), digits_lt_digits hquotient ha]
  exact Or.inl ((Nat.div_lt_iff_lt_mul (by positivity)).mpr h)

theorem yearText_of_short {y : Int} (h : 0 ≤ y ∧ y ≤ 9999) : yearText y = digits 4 y.natAbs := if_pos h

theorem yearText_of_long {y : Int} (h : 9999 < y) : yearText y = '+' :: digits (yearWidth y) y.natAbs := by
  rw [yearText, if_neg (by omega), if_pos (by omega)]

theorem yearText_of_neg {y : Int} (h : y < 0) : yearText y = '-' :: digits (yearWidth y) y.natAbs := by
  rw [yearText, if_neg (by omega), if_neg (by omega)]

theorem cons_lt_cons_of_lt {c c' : Char} (h : c < c') (rest rest' : List Char) : c :: rest < c' :: rest' :=
  List.cons_lt_cons_iff.mpr (Or.inl h)

theorem cons_lt_cons_same {c : Char} {rest rest' : List Char} (h : rest < rest') : c :: rest < c :: rest' :=
  List.cons_lt_cons_iff.mpr (Or.inr ⟨rfl, h⟩)

theorem yearText_lt {y z : Int} (hlt : y < z) (h : TextsInOrder y z) (rest rest' : List Char) :
    yearText y ++ '-' :: rest < yearText z ++ '-' :: rest' := by
  rcases h with hshort | ⟨hlong, hfirst⟩ | ⟨hneg, hfirst⟩
  · rw [yearText_of_short hshort]
    by_cases hpos : 0 ≤ y
    · rw [yearText_of_short ⟨hpos, by omega⟩]
      exact digits_dash_lt le_rfl (by omega) (by omega) (by omega) (by omega) rest rest'
    · rw [yearText_of_neg (not_le.mp hpos)]
      exact cons_lt_digits (by decide) (by decide) _ _ _
  · rw [yearText_of_long hlong, yearText_of_long (hlong.trans hlt)]
    apply cons_lt_cons_same
    exact digits_dash_lt (yearWidth_mono (by omega)) (lt_pow_yearWidth y) (lt_pow_yearWidth z) (by omega) hfirst
      rest rest'
  · rw [yearText_of_neg hneg, yearText_of_neg (hlt.trans hneg)]
    apply cons_lt_cons_same
    exact digits_lt_dash (yearWidth_mono (by omega)) (lt_pow_yearWidth z) (lt_pow_yearWidth y) hfirst _ _

theorem yearText_gt {y z : Int} (hlt : y < z) (h : ¬ TextsInOrder y z) (rest rest' : List Char) :
    yearText z ++ '-' :: rest' < yearText y ++ '-' :: rest := by
  obtain ⟨hshort, hlong, hneg⟩ : _ ∧ _ ∧ _ := by simpa only [TextsInOrder, not_or] using h
  by_cases hz : z < 0
  · rw [yearText_of_neg hz, yearText_of_neg (hlt.trans hz)]
    apply cons_lt_cons_same
    exact digits_dash_lt (yearWidth_mono (by omega)) (lt_pow_yearWidth z) (lt_pow_yearWidth y) (by omega)
      (not_lt.mp fun hfirst => hneg ⟨hz, hfirst⟩) rest' rest
  rw [yearText_of_long (show 9999 < z by omega)]
  rcases lt_trichotomy y 0 with hy | hy | hy
  · rw [yearText_of_neg hy]
    exact cons_lt_cons_of_lt (by decide) _ _
  · rw [yearText_of_short (by omega)]
    exact cons_lt_digits (by decide) (by decide) _ _ _
  by_cases hfour : y ≤ 9999
  · rw [yearText_of_short ⟨hy.le, hfour⟩]
    exact cons_lt_digits (by decide) (by decide) _ _ _
  rw [yearText_of_long (not_le.mp hfour)]
  apply cons_lt_cons_same
  exact digits_lt_dash (yearWidth_mono (by omega)) (lt_pow_yearWidth y) (lt_pow_yearWidth z)
    (not_le.mp fun hfirst => hlong ⟨not_le.mp hfour, hfirst⟩) _ _

/-! ### Moments as texts -/

/-- A moment, as in `2025-01-02 03:04:05`. -/
def dateTimeText (s : Int) : String :=
  String.ofList (yearText (yearAt s) ++ '-' ::
    stamp [(2, ['-']), (2, [' ']), (2, [':']), (2, [':']), (2, [])] (fieldsAt s))

/-- Two years of which the earlier one has the lesser text. -/
def YearsInOrder (y z : Int) : Prop := y = z ∨ TextsInOrder (min y z) (max y z)

instance (y z : Int) : Decidable (YearsInOrder y z) := inferInstanceAs (Decidable (_ ∨ _))

example : YearsInOrder 2025 9999 ∧ ¬ YearsInOrder 2025 13433 ∧ ¬ YearsInOrder 13433 100000 := by decide

theorem yearsInOrder_comm {y z : Int} : YearsInOrder y z ↔ YearsInOrder z y := by
  rw [YearsInOrder, YearsInOrder, eq_comm, min_comm, max_comm]

theorem yearsInOrder_of_lt {y z : Int} (h : y < z) : YearsInOrder y z ↔ TextsInOrder y z := by
  rw [YearsInOrder, min_eq_left h.le, max_eq_right h.le, or_iff_right h.ne]

theorem dateTimeText_lt {s s' : Int} (hlt : s < s') (h : YearsInOrder (yearAt s) (yearAt s')) :
    dateTimeText s < dateTimeText s' := by
  rw [String.lt_iff_toList_lt, dateTimeText, dateTimeText, String.toList_ofList, String.toList_ofList]
  rcases fields_lt_iff.mpr hlt with hyear | ⟨hyear, hrest⟩
  · exact yearText_lt hyear ((yearsInOrder_of_lt hyear).mp h) _ _
  · rw [hyear, append_lt_append rfl]
    exact Or.inr ⟨rfl, cons_lt_cons_same ((stamp_lt_stamp (fieldsAt_fits s _ _ _ _ _)
      (fieldsAt_fits s' _ _ _ _ _)).mpr hrest)⟩

theorem dateTimeText_gt {s s' : Int} (hlt : s < s') (h : ¬ YearsInOrder (yearAt s) (yearAt s')) :
    dateTimeText s' < dateTimeText s := by
  rw [String.lt_iff_toList_lt, dateTimeText, dateTimeText, String.toList_ofList, String.toList_ofList]
  have hyear : yearAt s < yearAt s' := (yearAt_mono hlt.le).lt_of_ne fun heq => h (Or.inl heq)
  exact yearText_gt hyear (fun horder => h ((yearsInOrder_of_lt hyear).mpr horder)) _ _

/-- Texts are in the order of the moments, if the years are. -/
theorem dateTimeText_lt_iff {s s' : Int} (h : YearsInOrder (yearAt s) (yearAt s')) :
    dateTimeText s < dateTimeText s' ↔ s < s' := by
  refine ⟨fun htext => ?_, fun hlt => dateTimeText_lt hlt h⟩
  by_contra hnot
  rcases (not_lt.mp hnot).lt_or_eq with hgt | rfl
  · exact lt_asymm htext (dateTimeText_lt hgt (yearsInOrder_comm.mp h))
  · exact lt_irrefl _ htext

/-- Otherwise they are in the reverse order. -/
theorem dateTimeText_lt_iff_of_not {s s' : Int} (h : ¬ YearsInOrder (yearAt s) (yearAt s')) :
    dateTimeText s < dateTimeText s' ↔ s' < s := by
  have hback : ¬ YearsInOrder (yearAt s') (yearAt s) := fun horder => h (yearsInOrder_comm.mp horder)
  refine ⟨fun htext => ?_, fun hgt => dateTimeText_gt hgt hback⟩
  by_contra hnot
  rcases (not_lt.mp hnot).lt_or_eq with hlt | rfl
  · exact lt_asymm htext (dateTimeText_gt hlt h)
  · exact lt_irrefl _ htext

theorem dateTimeText_injective : Function.Injective dateTimeText := by
  intro s s' htext
  by_contra hne
  by_cases h : YearsInOrder (yearAt s) (yearAt s')
  · rcases lt_or_gt_of_ne hne with hlt | hgt
    · exact (dateTimeText_lt hlt h).ne htext
    · exact (dateTimeText_lt hgt (yearsInOrder_comm.mp h)).ne htext.symm
  · rcases lt_or_gt_of_ne hne with hlt | hgt
    · exact (dateTimeText_gt hlt h).ne htext.symm
    · exact (dateTimeText_gt hgt fun hback => h (yearsInOrder_comm.mp hback)).ne htext

/-- To compare the texts is to compare the moments, exactly if the years are in order. -/
theorem dateTimeText_le_agrees_iff {s s' : Int} :
    (dateTimeText s ≤ dateTimeText s' ↔ s ≤ s') ↔ YearsInOrder (yearAt s) (yearAt s') := by
  by_cases h : YearsInOrder (yearAt s) (yearAt s')
  · refine iff_of_true ?_ h
    rw [← not_lt, dateTimeText_lt_iff (yearsInOrder_comm.mp h), not_lt]
  · refine iff_of_false (fun hagree => h (Or.inl ?_)) h
    rw [← not_lt, dateTimeText_lt_iff_of_not fun hback => h (yearsInOrder_comm.mp hback), not_lt] at hagree
    have hsame : s = s' := by omega
    rw [hsame]

/-- A moment to come does not have the lesser text, if its year is the same or in order. -/
theorem dateTimeText_not_early_iff {s now : Int} :
    ¬ (dateTimeText s < dateTimeText now ∧ now < s) ↔
      yearAt s ≤ yearAt now ∨ YearsInOrder (yearAt s) (yearAt now) := by
  by_cases h : YearsInOrder (yearAt s) (yearAt now)
  · refine iff_of_true (fun hearly => ?_) (Or.inr h)
    have hpast := (dateTimeText_lt_iff h).mp hearly.1
    omega
  · rw [dateTimeText_lt_iff_of_not h, and_self, not_lt, or_iff_left h]
    refine ⟨yearAt_mono, fun hyear => ?_⟩
    by_contra hfuture
    exact h (Or.inl (hyear.antisymm (yearAt_mono (not_le.mp hfuture).le)))

end Lib
