import Mathlib.Algebra.Order.Group.Int
import Mathlib.Data.Int.SuccPred
import Mathlib.Data.Prod.Lex
import Mathlib.Order.SuccPred.Archimedean
import Mathlib.Tactic.IntervalCases

/-! The Gregorian calendar, extended to all years. Years that begin in March have their leap day last, so the days
before a year and the days before a month are given by truncating divisions. -/

namespace Lib

def isLeapYear (y : Int) : Bool := y % 4 = 0 ∧ (y % 100 ≠ 0 ∨ y % 400 = 0)

def monthLength (y : Int) (m : Nat) : Nat :=
  if m = 2 then if isLeapYear y then 29 else 28
  else if m = 4 ∨ m = 6 ∨ m = 9 ∨ m = 11 then 30
  else 31

@[ext] structure Date where
  year : Int
  month : Nat
  day : Nat
  month_mem : 1 ≤ month ∧ month ≤ 12
  day_mem : 1 ≤ day ∧ day ≤ monthLength year month

namespace Date

def key (date : Date) : Int ×ₗ Nat ×ₗ Nat := toLex (date.year, toLex (date.month, date.day))

theorem key_injective : Function.Injective key := by
  intro a b h
  obtain ⟨hyear, hrest⟩ := Prod.mk.inj (toLex_inj.mp h)
  obtain ⟨hmonth, hday⟩ := Prod.mk.inj (toLex_inj.mp hrest)
  ext
  · exact hyear
  · exact hmonth
  · exact hday

instance : LinearOrder Date := LinearOrder.lift' key key_injective

theorem lt_iff {a b : Date} : a < b ↔
    a.year < b.year ∨ a.year = b.year ∧ (a.month < b.month ∨ a.month = b.month ∧ a.day < b.day) := by
  change key a < key b ↔ _
  rw [key, key, Prod.Lex.toLex_lt_toLex, Prod.Lex.toLex_lt_toLex]

theorem monthLength_pos (y : Int) (m : Nat) : 1 ≤ monthLength y m := by
  unfold monthLength
  split_ifs <;> decide

theorem monthLength_le (y : Int) (m : Nat) : monthLength y m ≤ 31 := by
  unfold monthLength
  split_ifs <;> decide

/-- The next day: in the same month, on the first of the next one, or on the first of January. -/
def next (date : Date) : Date :=
  if h : date.day < monthLength date.year date.month then
    { date with day := date.day + 1, day_mem := ⟨by omega, h⟩ }
  else if h : date.month < 12 then
    ⟨date.year, date.month + 1, 1, ⟨by omega, h⟩, le_rfl, monthLength_pos _ _⟩
  else ⟨date.year + 1, 1, 1, by omega, le_rfl, monthLength_pos _ _⟩

theorem lt_next (date : Date) : date < date.next := by
  rw [lt_iff]
  unfold next
  split_ifs with hday hmonth
  · exact Or.inr ⟨rfl, Or.inr ⟨rfl, Nat.lt_succ_self _⟩⟩
  · exact Or.inr ⟨rfl, Or.inl (Nat.lt_succ_self _)⟩
  · exact Or.inl (lt_add_one _)

theorem eq_next_of_day {a b : Date} (hyear : b.year = a.year) (hmonth : b.month = a.month)
    (hday : b.day = a.day + 1) : b = a.next := by
  have hlength := b.day_mem.2
  rw [hyear, hmonth, hday] at hlength
  rw [next, dif_pos (show a.day < monthLength a.year a.month from hlength)]
  ext
  · exact hyear
  · exact hmonth
  · exact hday

theorem eq_next_of_month {a b : Date} (hlast : monthLength a.year a.month ≤ a.day) (hyear : b.year = a.year)
    (hmonth : b.month = a.month + 1) (hday : b.day = 1) : b = a.next := by
  have hbound := b.month_mem.2
  rw [next, dif_neg (by omega), dif_pos (by omega)]
  ext
  · exact hyear
  · exact hmonth
  · exact hday

theorem eq_next_of_year {a b : Date} (hlast : monthLength a.year a.month ≤ a.day) (hdecember : a.month = 12)
    (hyear : b.year = a.year + 1) (hmonth : b.month = 1) (hday : b.day = 1) : b = a.next := by
  rw [next, dif_neg (by omega), dif_neg (by omega)]
  ext
  · exact hyear
  · exact hmonth
  · exact hday

end Date

/-- The days before the March of a year, from the March of the year 0 on. -/
def daysToMarch (y : Int) : Int := 365 * y + y / 4 - y / 100 + y / 400

/-- The year that begins in the March of `y` ends with the February of the next year. -/
def marchYearLength (y : Int) : Nat := if isLeapYear (y + 1) then 366 else 365

theorem daysToMarch_succ (y : Int) : daysToMarch (y + 1) = daysToMarch y + marchYearLength y := by
  unfold daysToMarch marchYearLength isLeapYear
  by_cases hleap : (y + 1) % 4 = 0 ∧ ((y + 1) % 100 ≠ 0 ∨ (y + 1) % 400 = 0)
  · rw [decide_eq_true hleap, if_pos rfl]
    omega
  · rw [decide_eq_false hleap, if_neg Bool.false_ne_true]
    omega

theorem daysToMarch_mono {y y' : Int} (h : y ≤ y') : daysToMarch y ≤ daysToMarch y' := by
  unfold daysToMarch
  omega

/-- A day belongs to one year. -/
theorem march_unique {y y' z : Int} (h : daysToMarch y ≤ z ∧ z < daysToMarch (y + 1))
    (h' : daysToMarch y' ≤ z ∧ z < daysToMarch (y' + 1)) : y = y' := by
  rcases lt_trichotomy y y' with hlt | heq | hgt
  · have := daysToMarch_mono (show y + 1 ≤ y' by omega)
    omega
  · exact heq
  · have := daysToMarch_mono (show y' + 1 ≤ y by omega)
    omega

/-- The year of an era of 400 years that a day of it belongs to. -/
def yearOfEra (doe : Int) : Int := (doe - doe / 1460 + doe / 36524 - doe / 146096) / 365

/-- The year of a day that is counted from the first of March of the year 0. -/
def marchYear (z : Int) : Int := yearOfEra (z % 146097) + 400 * (z / 146097)

/-- A day of an era by century, group of four years, year and day; the last of each may be the longer one. -/
theorem era_digits (doe : Int) (hpos : 0 ≤ doe) (hlt : doe < 146097) :
    ∃ century group year day, doe = 36524 * century + 1461 * group + 365 * year + day ∧ (0 ≤ century ∧ century ≤ 3) ∧
      (0 ≤ group ∧ group ≤ 24) ∧ (0 ≤ year ∧ year ≤ 3) ∧ 0 ≤ day ∧
      (day ≤ 364 ∨ day = 365 ∧ year = 3 ∧ (group ≤ 23 ∨ century = 3)) := by
  obtain ⟨century, hcentury⟩ : ∃ century, century = min (doe / 36524) 3 := ⟨_, rfl⟩
  obtain ⟨group, hgroup⟩ : ∃ group, group = (doe - 36524 * century) / 1461 := ⟨_, rfl⟩
  obtain ⟨year, hyear⟩ : ∃ year, year = min ((doe - 36524 * century - 1461 * group) / 365) 3 := ⟨_, rfl⟩
  exact ⟨century, group, year, doe - 36524 * century - 1461 * group - 365 * year, by omega, by omega, by omega,
    by omega, by omega, by omega⟩

theorem daysToMarch_digits {century group year : Int} (hcentury : 0 ≤ century ∧ century ≤ 3)
    (hgroup : 0 ≤ group ∧ group ≤ 24) (hyear : 0 ≤ year ∧ year ≤ 3) :
    daysToMarch (100 * century + 4 * group + year) = 36524 * century + 1461 * group + 365 * year := by
  have hfours : (100 * century + 4 * group + year) / 4 = 25 * century + group := by omega
  have hhundreds : (100 * century + 4 * group + year) / 100 = century := by omega
  have heras : (100 * century + 4 * group + year) / 400 = 0 := by omega
  rw [daysToMarch, hfours, hhundreds, heras]
  omega

/-- The truncating divisions find the year: the leap days before a day are counted one by one but for the last day
of the era. -/
theorem yearOfEra_digits {century group year day : Int} (hcentury : 0 ≤ century ∧ century ≤ 3)
    (hgroup : 0 ≤ group ∧ group ≤ 24) (hyear : 0 ≤ year ∧ year ≤ 3) (hday : 0 ≤ day)
    (hlong : day ≤ 364 ∨ day = 365 ∧ year = 3 ∧ (group ≤ 23 ∨ century = 3)) :
    yearOfEra (36524 * century + 1461 * group + 365 * year + day) = 100 * century + 4 * group + year := by
  by_cases hlast : 36524 * century + 1461 * group + 365 * year + day = 146096
  · have hnine : 100 * century + 4 * group + year = 399 := by omega
    rw [hlast, hnine]
    rfl
  · obtain ⟨doe, hdoe⟩ : ∃ doe, doe = 36524 * century + 1461 * group + 365 * year + day := ⟨_, rfl⟩
    have hhundreds : doe / 36524 = century := by omega
    have heras : doe / 146096 = 0 := by omega
    rw [← hdoe, yearOfEra, hhundreds, heras]
    by_cases hcarry : 1460 ≤ 24 * century + group + 365 * year + day
    · have hfours : doe / 1460 = 25 * century + group + 1 := by omega
      rw [hfours]
      omega
    · have hfours : doe / 1460 = 25 * century + group := by omega
      rw [hfours]
      omega

theorem yearOfEra_spec (doe : Int) (hpos : 0 ≤ doe) (hlt : doe < 146097) : (0 ≤ yearOfEra doe ∧ yearOfEra doe < 400) ∧
    daysToMarch (yearOfEra doe) ≤ doe ∧ doe < daysToMarch (yearOfEra doe + 1) := by
  obtain ⟨century, group, year, day, rfl, hcentury, hgroup, hyear, hday, hlong⟩ := era_digits doe hpos hlt
  rw [yearOfEra_digits hcentury hgroup hyear hday hlong, daysToMarch_succ, daysToMarch_digits hcentury hgroup hyear]
  refine ⟨by omega, by omega, ?_⟩
  unfold marchYearLength isLeapYear
  rcases hlong with hshort | ⟨rfl, rfl, hwhere⟩
  · split <;> omega
  · rw [decide_eq_true (by omega), if_pos rfl]
    omega

theorem daysToMarch_era (y era : Int) : daysToMarch (y + 400 * era) = daysToMarch y + 146097 * era := by
  unfold daysToMarch
  omega

theorem marchYear_spec (z : Int) : daysToMarch (marchYear z) ≤ z ∧ z < daysToMarch (marchYear z + 1) := by
  obtain ⟨-, hlow, hhigh⟩ := yearOfEra_spec (z % 146097) (by omega) (by omega)
  have hnext : marchYear z + 1 = yearOfEra (z % 146097) + 1 + 400 * (z / 146097) := by
    unfold marchYear
    omega
  rw [hnext, marchYear, daysToMarch_era, daysToMarch_era]
  omega

/-! ### Dates by day -/

/-- The days before a month of a year that begins in March; March is month 0. -/
def daysToMonth (mp : Nat) : Nat := (153 * mp + 2) / 5

/-- The month that a day of such a year is in. -/
def monthOfYear (doy : Nat) : Nat := (5 * doy + 2) / 153

theorem monthOfYear_spec (doy : Nat) :
    daysToMonth (monthOfYear doy) ≤ doy ∧ doy < daysToMonth (monthOfYear doy + 1) := by
  unfold daysToMonth monthOfYear
  omega

/-- The calendar year and month of a month that is counted from the March of a year. -/
def civilYear (y : Int) (mp : Nat) : Int := if mp ≤ 9 then y else y + 1

def civilMonth (mp : Nat) : Nat := if mp ≤ 9 then mp + 3 else mp - 9

theorem daysToMonth_succ (y : Int) {mp : Nat} (h : mp ≤ 10) :
    daysToMonth (mp + 1) = daysToMonth mp + monthLength (civilYear y mp) (civilMonth mp) := by
  interval_cases mp <;> rfl

/-- February is the last month, and has what is left of the year. -/
theorem marchYearLength_eq (y : Int) :
    marchYearLength y = daysToMonth 11 + monthLength (civilYear y 11) (civilMonth 11) := by
  change (if isLeapYear (y + 1) then 366 else 365) = 337 + if isLeapYear (y + 1) then 29 else 28
  cases isLeapYear (y + 1) <;> rfl

theorem monthOfYear_le {y : Int} {doy : Nat} (h : doy < marchYearLength y) : monthOfYear doy ≤ 11 := by
  have hbound : doy < 366 := by
    unfold marchYearLength at h
    split at h <;> omega
  unfold monthOfYear
  omega

/-- Where a day is in its month. -/
theorem month_of_day {y : Int} {doy : Nat} (h : doy < marchYearLength y) :
    daysToMonth (monthOfYear doy) ≤ doy ∧ doy < daysToMonth (monthOfYear doy) +
      monthLength (civilYear y (monthOfYear doy)) (civilMonth (monthOfYear doy)) := by
  have hspec := monthOfYear_spec doy
  refine ⟨hspec.1, ?_⟩
  by_cases hmonth : monthOfYear doy ≤ 10
  · rw [← daysToMonth_succ y hmonth]
    exact hspec.2
  · have hfebruary : monthOfYear doy = 11 := by
      have := monthOfYear_le h
      omega
    rw [hfebruary, ← marchYearLength_eq]
    exact h

namespace Date

/-- The date that lies a number of days after the first of March of a year. -/
def ofMarch (y : Int) (doy : Nat) (h : doy < marchYearLength y) : Date where
  year := civilYear y (monthOfYear doy)
  month := civilMonth (monthOfYear doy)
  day := doy - daysToMonth (monthOfYear doy) + 1
  month_mem := by
    have := monthOfYear_le h
    unfold civilMonth
    split <;> omega
  day_mem := by
    have := month_of_day h
    omega

theorem ofMarch_congr {y y' : Int} {doy doy' : Nat} (hy : y = y') (hdoy : doy = doy') (h : doy < marchYearLength y)
    (h' : doy' < marchYearLength y') : ofMarch y doy h = ofMarch y' doy' h' := by
  subst hy hdoy
  rfl

/-- Within a year the next date is that of the next day. -/
theorem ofMarch_succ {y : Int} {doy : Nat} (h : doy + 1 < marchYearLength y) :
    ofMarch y (doy + 1) h = (ofMarch y doy (by omega)).next := by
  obtain ⟨hlow, hhigh⟩ := month_of_day (show doy < marchYearLength y by omega)
  have hmonth := monthOfYear_le h
  obtain ⟨hlow', hhigh'⟩ := monthOfYear_spec (doy + 1)
  by_cases hsame : monthOfYear (doy + 1) = monthOfYear doy
  · apply eq_next_of_day
    · exact congrArg (civilYear y) hsame
    · exact congrArg civilMonth hsame
    · change doy + 1 - daysToMonth (monthOfYear (doy + 1)) + 1 = doy - daysToMonth (monthOfYear doy) + 1 + 1
      rw [hsame]
      omega
  -- The next day is the first of the next month.
  have hsucc : monthOfYear (doy + 1) = monthOfYear doy + 1 := by
    unfold monthOfYear at hsame ⊢
    omega
  have hfirst : doy + 1 = daysToMonth (monthOfYear doy + 1) := by
    have hspec := (monthOfYear_spec doy).2
    rw [hsucc] at hlow'
    omega
  have hlast : monthLength (ofMarch y doy (by omega)).year (ofMarch y doy (by omega)).month ≤
      (ofMarch y doy (by omega)).day := by
    change monthLength (civilYear y (monthOfYear doy)) (civilMonth (monthOfYear doy)) ≤
      doy - daysToMonth (monthOfYear doy) + 1
    rw [daysToMonth_succ y (by omega)] at hfirst
    omega
  have hday : (ofMarch y (doy + 1) h).day = 1 := by
    change doy + 1 - daysToMonth (monthOfYear (doy + 1)) + 1 = 1
    rw [hsucc]
    omega
  by_cases hdecember : monthOfYear doy = 9
  · apply eq_next_of_year hlast
    · change civilMonth (monthOfYear doy) = 12
      rw [hdecember]
      rfl
    · change civilYear y (monthOfYear (doy + 1)) = civilYear y (monthOfYear doy) + 1
      rw [hsucc, hdecember]
      rfl
    · change civilMonth (monthOfYear (doy + 1)) = 1
      rw [hsucc, hdecember]
      rfl
    · exact hday
  · apply eq_next_of_month hlast
    · change civilYear y (monthOfYear (doy + 1)) = civilYear y (monthOfYear doy)
      unfold civilYear
      split_ifs <;> omega
    · change civilMonth (monthOfYear (doy + 1)) = civilMonth (monthOfYear doy) + 1
      unfold civilMonth
      split_ifs <;> omega
    · exact hday

/-- After the last day of February comes the first of March. -/
theorem ofMarch_last {y : Int} {doy : Nat} (h : doy + 1 = marchYearLength y) (hfirst : 0 < marchYearLength (y + 1)) :
    ofMarch (y + 1) 0 hfirst = (ofMarch y doy (by omega)).next := by
  have hfebruary : monthOfYear doy = 11 := by
    unfold marchYearLength at h
    unfold monthOfYear
    split at h <;> omega
  apply eq_next_of_month
  · change monthLength (civilYear y (monthOfYear doy)) (civilMonth (monthOfYear doy)) ≤
      doy - daysToMonth (monthOfYear doy) + 1
    rw [hfebruary]
    have := marchYearLength_eq y
    omega
  · change civilYear (y + 1) 0 = civilYear y (monthOfYear doy)
    rw [hfebruary]
    rfl
  · change civilMonth 0 = civilMonth (monthOfYear doy) + 1
    rw [hfebruary]
    rfl
  · rfl

theorem day_lt_marchYearLength (z : Int) :
    (z - daysToMarch (marchYear z)).toNat < marchYearLength (marchYear z) := by
  obtain ⟨hlow, hhigh⟩ := marchYear_spec z
  rw [daysToMarch_succ] at hhigh
  omega

/-- The date of a day that is counted from the first of January 1970. -/
def ofDay (n : Int) : Date :=
  ofMarch (marchYear (n + 719468)) (n + 719468 - daysToMarch (marchYear (n + 719468))).toNat
    (day_lt_marchYearLength (n + 719468))

theorem ofDay_eq {n y : Int} {doy : Nat} (h : doy < marchYearLength y) (hday : n + 719468 = daysToMarch y + doy) :
    ofDay n = ofMarch y doy h := by
  have hyear : marchYear (n + 719468) = y := by
    apply march_unique (marchYear_spec _)
    rw [daysToMarch_succ]
    omega
  apply ofMarch_congr hyear
  rw [hyear]
  omega

/-- Every day is followed by the next one. -/
theorem ofDay_succ (n : Int) : ofDay (n + 1) = (ofDay n).next := by
  obtain ⟨hlow, hhigh⟩ := marchYear_spec (n + 719468)
  have hlt := day_lt_marchYearLength (n + 719468)
  by_cases hinside : (n + 719468 - daysToMarch (marchYear (n + 719468))).toNat + 1 <
      marchYearLength (marchYear (n + 719468))
  · rw [ofDay_eq hinside (by omega)]
    exact ofMarch_succ hinside
  · have hfirst : 0 < marchYearLength (marchYear (n + 719468) + 1) := by
      unfold marchYearLength
      split <;> decide
    rw [ofDay_eq hfirst (by rw [daysToMarch_succ]; omega)]
    exact ofMarch_last (by omega) hfirst

theorem ofDay_zero : ofDay 0 = ⟨1970, 1, 1, by decide, by decide⟩ := by decide

theorem ofDay_lt_ofDay {m n : Int} : ofDay m < ofDay n ↔ m < n := by
  have hmono : StrictMono ofDay := by
    apply strictMono_int_of_lt_succ
    intro n
    rw [ofDay_succ]
    exact lt_next _
  exact hmono.lt_iff_lt

theorem ofDay_injective : Function.Injective ofDay := by
  intro m n hsame
  by_contra hne
  rcases lt_or_gt_of_ne hne with hlt | hgt
  · exact (ofDay_lt_ofDay.mpr hlt).ne hsame
  · exact (ofDay_lt_ofDay.mpr hgt).ne' hsame

end Date

end Lib
