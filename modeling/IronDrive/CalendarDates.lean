import IronDrive.EntryInfo
import IronDrive.LibTimestamps

/-! The dates of listings. The days since the epoch become a date by truncating divisions on machine integers, and
the text of a time sorts like the time up to the year 9999. -/

namespace IronDrive

open Lib Lib.Date

namespace FsService

/-- The date after a date, both as year, month and day. -/
def nextYmd : Nat × Nat × Nat → Nat × Nat × Nat
  | (year, month, day) =>
      if day < monthLength year month then (year, month, day + 1)
      else if month < 12 then (year, month + 1, 1)
      else (year + 1, 1, 1)

/-- By year, then by month, then by day. -/
def YmdLt (a b : Nat × Nat × Nat) : Prop :=
  a.1 < b.1 ∨ a.1 = b.1 ∧ (a.2.1 < b.2.1 ∨ a.2.1 = b.2.1 ∧ a.2.2 < b.2.2)

theorem toI64_natCast {n : Nat} (h : n < 2 ^ 63) : ChunkService.toI64 n = n := by
  unfold ChunkService.toI64
  rw [Int.bmod_eq_of_le] <;> omega

/-- The divisions and the casts give the date of the calendar. -/
theorem daysToYmd_eq {n : Nat} (h : n < 2 ^ 62) :
    daysToYmd n = ((Date.ofDay n).year.toNat, (Date.ofDay n).month, (Date.ofDay n).day) := by
  obtain ⟨z, hz⟩ : ∃ z, z = n + 719468 := ⟨_, rfl⟩
  have hstart : ChunkService.toI64 n + 719468 = z := by
    rw [toI64_natCast (by omega)]
    omega
  have hera : (if 0 ≤ (z : Int) then (z : Int) else z - 146096).tdiv 146097 = (z / 146097 : Nat) := by
    rw [if_pos (by omega), Int.tdiv_eq_ediv_of_nonneg (by omega)]
    omega
  have hdoe : ChunkService.toU64 ((z : Int) - (z / 146097 : Nat) * 146097) = z % 146097 := by
    unfold ChunkService.toU64
    omega
  obtain ⟨doe, hremainder⟩ : ∃ doe, doe = z % 146097 := ⟨_, rfl⟩
  obtain ⟨yoe, hquotient⟩ : ∃ yoe, yoe = (doe - doe / 1460 + doe / 36524 - doe / 146096) / 365 := ⟨_, rfl⟩
  have hyear : yearOfEra doe = yoe := by
    unfold yearOfEra
    omega
  obtain ⟨hyoe, hlow, hhigh⟩ := yearOfEra_spec doe (by omega) (by omega)
  rw [hyear] at hyoe hlow hhigh
  have hmarch : marchYear z = yoe + 400 * ((z : Int) / 146097) := by
    rw [marchYear, ← hyear, show (z : Int) % 146097 = doe by omega]
  have hbefore : daysToMarch yoe = (365 * yoe + yoe / 4 - yoe / 100 : Nat) := by
    unfold daysToMarch
    omega
  obtain ⟨doy, hrest⟩ : ∃ doy, doy = doe - (365 * yoe + yoe / 4 - yoe / 100) := ⟨_, rfl⟩
  have hdoy : ((z : Int) - daysToMarch (marchYear z)).toNat = doy := by
    rw [hmarch, daysToMarch_era, hbefore]
    omega
  have hlt := day_lt_marchYearLength z
  rw [hdoy] at hlt
  have hmonth := monthOfYear_le hlt
  rw [Date.ofDay_eq hlt (by rw [← hdoy, Int.toNat_of_nonneg (sub_nonneg.mpr (marchYear_spec z).1)]; omega)]
  have hrange : 0 ≤ marchYear z ∧ marchYear z < 2 ^ 62 := by
    rw [hmarch]
    omega
  have hcast : ChunkService.toI64 yoe + (z / 146097 : Nat) * 400 = marchYear z := by
    rw [toI64_natCast (by omega)]
    omega
  unfold daysToYmd
  dsimp only
  rw [hstart, hera, hdoe, ← hremainder, ← hquotient, ← hrest, hcast]
  change (_, _, _) = ((civilYear (marchYear z) (monthOfYear doy)).toNat, civilMonth (monthOfYear doy),
    doy - daysToMonth (monthOfYear doy) + 1)
  have hfit : ∀ y : Int, 0 ≤ y → y ≤ 2 ^ 62 → ChunkService.toU64 (max y 0) = y.toNat := by
    intro y hpos hlt
    unfold ChunkService.toU64
    omega
  unfold civilYear civilMonth
  by_cases hspring : monthOfYear doy ≤ 9
  · have hmp : (5 * doy + 2) / 153 < 10 := Nat.lt_succ_of_le hspring
    have hlate : ¬ (5 * doy + 2) / 153 + 3 ≤ 2 := by omega
    rw [if_pos hmp, if_pos hspring, if_pos hspring, if_neg hlate, hfit _ hrange.1 hrange.2.le]
    rfl
  · have hmp : ¬ (5 * doy + 2) / 153 < 10 := fun hlt => hspring (Nat.le_of_lt_succ hlt)
    have hearly : (5 * doy + 2) / 153 - 9 ≤ 2 := by
      change monthOfYear doy - 9 ≤ 2
      omega
    rw [if_neg hmp, if_neg hspring, if_neg hspring, if_pos hearly,
      hfit _ (add_nonneg hrange.1 zero_le_one) (Int.add_one_le_of_lt hrange.2)]
    rfl

theorem year_of_ofDay (n : Nat) : 1970 ≤ (Date.ofDay n).year := by
  by_contra hearly
  have hless : Date.ofDay n < Date.ofDay 0 := by
    rw [ofDay_zero]
    exact Date.lt_iff.mpr (Or.inl (not_le.mp hearly))
  rw [ofDay_lt_ofDay] at hless
  omega

theorem daysToYmd_succ {n : Nat} (h : n + 1 < 2 ^ 62) : daysToYmd (n + 1) = nextYmd (daysToYmd n) := by
  have hyear := year_of_ofDay n
  have hcast : ((Date.ofDay n).year.toNat : Int) = (Date.ofDay n).year := Int.toNat_of_nonneg (by omega)
  rw [daysToYmd_eq h, daysToYmd_eq (by omega), Nat.cast_add, Nat.cast_one, ofDay_succ, nextYmd, hcast, Date.next]
  split_ifs
  · rfl
  · rfl
  · rw [Int.toNat_add (by omega) zero_le_one]
    rfl

theorem daysToYmd_lt_iff {m n : Nat} (hm : m < 2 ^ 62) (hn : n < 2 ^ 62) :
    YmdLt (daysToYmd m) (daysToYmd n) ↔ m < n := by
  have hyear := year_of_ofDay m
  have hyear' := year_of_ofDay n
  calc YmdLt (daysToYmd m) (daysToYmd n)
      ↔ Date.ofDay m < Date.ofDay n := by
        rw [daysToYmd_eq hm, daysToYmd_eq hn, Date.lt_iff, YmdLt]
        dsimp only
        omega
    _ ↔ (m : Int) < n := ofDay_lt_ofDay
    _ ↔ m < n := Nat.cast_lt

theorem daysToYmd_inj {m n : Nat} (hm : m < 2 ^ 62) (hn : n < 2 ^ 62) (h : daysToYmd m = daysToYmd n) : m = n := by
  have hlt := daysToYmd_lt_iff hm hn
  have hgt := daysToYmd_lt_iff hn hm
  rw [h] at hlt hgt
  have hirrefl : ¬ YmdLt (daysToYmd n) (daysToYmd n) := by
    unfold YmdLt
    omega
  exact Nat.le_antisymm (not_lt.mp fun hless => hirrefl (hgt.mpr hless))
    (not_lt.mp fun hless => hirrefl (hlt.mpr hless))

/-! ### Times as texts -/

/-- Year, month, day, hour, minute and second of a time in seconds since the epoch. -/
def timeFields (secs : Nat) : List Nat :=
  let (year, month, day) := daysToYmd (secs / 86400)
  [year, month, day, secs % 86400 / 3600, secs % 86400 % 3600 / 60, secs % 86400 % 60]

def timeLayout : Layout := [(4, ['-']), (2, ['-']), (2, ['T']), (2, [':']), (2, [':']), (2, ['Z'])]

theorem toList_padded {width n : Nat} (h : n < 10 ^ width) (hpos : 0 < width) :
    (padded width n).toList = digits width n := by
  rw [padded, String.toList_ofList]
  exact replicate_append_toDigits h hpos

theorem yearAt_natCast_nonneg (secs : Nat) : 0 ≤ yearAt secs := by
  have hepoch : yearAt 0 = 1970 := by decide
  have hmono := yearAt_mono (show (0 : Int) ≤ secs by omega)
  omega

/-- The divisions of a time of day are those of its seconds. -/
theorem timeFields_eq {secs : Nat} (h : secs / 86400 < 2 ^ 62) :
    timeFields secs = (yearAt secs).toNat :: fieldsAt secs := by
  have hday : (secs : Int) / 86400 = (secs / 86400 : Nat) := by omega
  have hclock : ((secs : Int) % 86400).toNat = secs % 86400 := by omega
  unfold timeFields
  rw [daysToYmd_eq h, yearAt, fieldsAt, hday, hclock]

theorem timeFields_fit {secs : Nat} (h : secs / 86400 < 2 ^ 62) (hyear : (daysToYmd (secs / 86400)).1 < 10000) :
    Fits timeLayout (timeFields secs) := by
  rw [timeFields_eq h]
  refine .cons ?_ (fieldsAt_fits secs ['-'] ['T'] [':'] [':'] ['Z'])
  have hfirst := congrArg List.head? (timeFields_eq h)
  rw [List.head?_cons] at hfirst
  exact Option.some.inj hfirst ▸ hyear

theorem formatSystemTime_toList {t : SystemTime} (h : Fits timeLayout (timeFields t.sinceEpoch)) :
    (formatSystemTime t).toList = stamp timeLayout (timeFields t.sinceEpoch) := by
  unfold timeFields timeLayout at h
  obtain ⟨hyear, hmonth, hday, hhour, hminute, hsecond, -⟩ : _ ∧ _ ∧ _ ∧ _ ∧ _ ∧ _ ∧ _ := by
    simpa only [Fits, List.forall₂_cons] using h
  unfold formatSystemTime timeFields timeLayout
  simp only [String.toList_append, toList_padded hyear (by decide), toList_padded hmonth (by decide),
    toList_padded hday (by decide), toList_padded hhour (by decide), toList_padded hminute (by decide),
    toList_padded hsecond (by decide), List.append_assoc, stamp]
  rfl

theorem timeFields_lt_iff {secs secs' : Nat} (h : secs / 86400 < 2 ^ 62) (h' : secs' / 86400 < 2 ^ 62) :
    timeFields secs < timeFields secs' ↔ secs < secs' := by
  have hpos := yearAt_natCast_nonneg secs
  have hpos' := yearAt_natCast_nonneg secs'
  have hless : (yearAt secs).toNat < (yearAt secs').toNat ↔ yearAt secs < yearAt secs' := by omega
  have hsame : (yearAt secs).toNat = (yearAt secs').toNat ↔ yearAt secs = yearAt secs' := by omega
  calc timeFields secs < timeFields secs'
      ↔ yearAt secs < yearAt secs' ∨ yearAt secs = yearAt secs' ∧ fieldsAt secs < fieldsAt secs' := by
        rw [timeFields_eq h, timeFields_eq h', List.cons_lt_cons_iff, hless, hsame]
    _ ↔ (secs : Int) < secs' := fields_lt_iff
    _ ↔ secs < secs' := Nat.cast_lt

/-- One point in time is not after another. -/
instance : LE SystemTime where
  le t t' := t.secs < t'.secs ∨ t.secs = t'.secs ∧ t.nanos ≤ t'.nanos

/-- The date of a time has a year of at most four digits. -/
def BeforeYear10000 (t : SystemTime) : Prop := (daysToYmd (t.sinceEpoch / 86400)).1 < 10000

theorem days_of_time (t : SystemTime) : t.sinceEpoch / 86400 < 2 ^ 62 := by
  have hbound := t.secs_i64.2
  unfold SystemTime.sinceEpoch
  omega

theorem formatSystemTime_lt_iff {t t' : SystemTime} (h : BeforeYear10000 t) (h' : BeforeYear10000 t') :
    formatSystemTime t < formatSystemTime t' ↔ t.sinceEpoch < t'.sinceEpoch := by
  have hfit := timeFields_fit (days_of_time t) h
  have hfit' := timeFields_fit (days_of_time t') h'
  rw [String.lt_iff_toList_lt, formatSystemTime_toList hfit, formatSystemTime_toList hfit',
    stamp_lt_stamp hfit hfit', timeFields_lt_iff (days_of_time t) (days_of_time t')]

theorem sinceEpoch_mono {t t' : SystemTime} (h : t ≤ t') : t.sinceEpoch ≤ t'.sinceEpoch := by
  have hsecs : t.secs < t'.secs ∨ t.secs = t'.secs ∧ t.nanos ≤ t'.nanos := h
  unfold SystemTime.sinceEpoch
  omega

open ChunkService in
/-- The calendar conversion is exact: it starts at 1970-01-01, and for every day that 64 bits of seconds reach, the
next day has the next date. So the dates are in the order of the days, and up to the year 9999 the texts are in the
order of the seconds since the epoch. -/
theorem calendar_exact :
    daysToYmd 0 = (1970, 1, 1) ∧
    (∀ n ≤ u64Max / 86400, daysToYmd (n + 1) = nextYmd (daysToYmd n)) ∧
    (∀ m ≤ u64Max / 86400, ∀ n ≤ u64Max / 86400, (daysToYmd m = daysToYmd n → m = n) ∧
      (m < n → YmdLt (daysToYmd m) (daysToYmd n))) ∧
    ∀ t t' : SystemTime, BeforeYear10000 t → BeforeYear10000 t' →
      (formatSystemTime t < formatSystemTime t' ↔ t.sinceEpoch < t'.sinceEpoch) ∧
        (t ≤ t' → formatSystemTime t ≤ formatSystemTime t') := by
  have hreach : ∀ n ≤ u64Max / 86400, n + 1 < 2 ^ 62 := by
    intro n hn
    simp only [u64Max] at hn
    omega
  refine ⟨by decide, fun n hn => daysToYmd_succ (hreach n hn), fun m hm n hn => ⟨fun heq => ?_, fun hlt => ?_⟩,
    fun t t' h h' => ⟨formatSystemTime_lt_iff h h', fun hle => ?_⟩⟩
  · apply daysToYmd_inj _ _ heq
    · exact Nat.lt_of_succ_lt (hreach m hm)
    · exact Nat.lt_of_succ_lt (hreach n hn)
  · apply (daysToYmd_lt_iff _ _).mpr hlt
    · exact Nat.lt_of_succ_lt (hreach m hm)
    · exact Nat.lt_of_succ_lt (hreach n hn)
  · apply not_lt.mp
    rw [formatSystemTime_lt_iff h' h]
    exact not_lt.mpr (sinceEpoch_mono hle)

/-- The second before and the first of the last day of February 2000. -/
def leapEve : SystemTime := ⟨951782399, 999999999, by decide, by decide⟩

def leapDay : SystemTime := ⟨951782400, 0, by decide, by decide⟩

theorem calendar_exact_leapDay :
    daysToYmd 11016 = nextYmd (daysToYmd 11015) ∧ formatSystemTime leapEve < formatSystemTime leapDay :=
  ⟨calendar_exact.2.1 11015 (by decide),
    (calendar_exact.2.2.2 leapEve leapDay (by unfold BeforeYear10000; decide)
      (by unfold BeforeYear10000; decide)).1.mpr (by decide)⟩

example : daysToYmd 11016 = (2000, 2, 29) := by decide

end FsService

end IronDrive
