/-
  Parley.Proofs.Time.Calendar
  ────────────────────────────────
  **EVERY DATE HAS ITS NUMBER, AND EVERY NUMBER ITS DATE.**

  A number of days falls into an era of 400 years, a year of the era and a day
  of the year (`IsDayOf`), where years begin in March.  The year is found
  by a quotient that corrects for leap days (`IsDayOf.yearOfEra`), and the
  month by another (`ofYearDay`).  So the two counts are inverse to each other:

      toDays_ofDays    every number of days is that of the date it gives
      ofDays_toDays    every date of the calendar is that of its number
      valid_ofDays     every number of days gives a date of the calendar
-/
import Parley.Time.Calendar
import Mathlib.Tactic.IntervalCases

namespace Parley.Calendar

/-! ## §1. The years of an era. -/

/-- The day of an era on which a year of it begins. -/
def yearStart (y : Int) : Int :=
  365 * y + y / 4 - y / 100

/-- The number of days of a year that begins in March.  Its leap day is at its end. -/
def yearLength (y : Int) : Int :=
  if isLeapYear (y + 1) then 366 else 365

theorem isLeapYear_iff (y : Int) :
    isLeapYear y = true ↔ y % 4 = 0 ∧ (y % 100 ≠ 0 ∨ y % 400 = 0) := by
  simp [isLeapYear]

/-- A day of an era is a day of a year. -/
structure IsDayOf (n y d : Int) : Prop where
  year : 0 ≤ y ∧ y ≤ 399
  day : 0 ≤ d ∧ d < yearLength y
  eq : n = yearStart y + d

theorem IsDayOf.day_le {n y d : Int} (h : IsDayOf n y d) : d ≤ 365 := by
  have hday := h.day.2
  unfold yearLength at hday
  split at hday <;> omega

/-- Centuries, groups of four years, years and days: the last day of a leap year is one only of the
last year of a group, and of the last group only in the last century. -/
theorem IsDayOf.parts {n y d : Int} (h : IsDayOf n y d) :
    ∃ c q v : Int, y = 100 * c + 4 * q + v ∧ (0 ≤ c ∧ c ≤ 3) ∧ (0 ≤ q ∧ q ≤ 24)
      ∧ (0 ≤ v ∧ v ≤ 3) ∧ (d = 365 → v = 3 ∧ (q ≠ 24 ∨ c = 3))
      ∧ n = 36524 * c + 1461 * q + 365 * v + d := by
  obtain ⟨hyear, hday, heq⟩ := h
  refine ⟨y / 100, y % 100 / 4, y % 4, by omega, by omega, by omega, by omega, fun hlast => ?_, ?_⟩
  · have hleap : isLeapYear (y + 1) = true := by
      by_contra hnot
      rw [yearLength, if_neg hnot] at hday
      omega
    rw [isLeapYear_iff] at hleap
    omega
  · rw [heq, yearStart]
    omega

theorem exists_isDayOf {n : Int} (h0 : 0 ≤ n) (h1 : n < eraDays) : ∃ y d, IsDayOf n y d := by
  have hn : n < 146097 := h1
  -- The last day of the era would begin a fifth century, and likewise for the groups and years.
  obtain ⟨c, hc⟩ : ∃ c, c = min (n / 36524) 3 := ⟨_, rfl⟩
  obtain ⟨q, hq⟩ : ∃ q, q = min ((n - 36524 * c) / 1461) 24 := ⟨_, rfl⟩
  obtain ⟨v, hv⟩ : ∃ v, v = min ((n - 36524 * c - 1461 * q) / 365) 3 := ⟨_, rfl⟩
  have hcentury : 0 ≤ n - 36524 * c ∧ n - 36524 * c ≤ 36524 := by omega
  have hgroup : 0 ≤ n - 36524 * c - 1461 * q ∧ n - 36524 * c - 1461 * q ≤ 1460 := by omega
  have hyears : 0 ≤ c ∧ c ≤ 3 ∧ 0 ≤ q ∧ q ≤ 24 ∧ 0 ≤ v ∧ v ≤ 3 := by omega
  refine ⟨100 * c + 4 * q + v, n - 36524 * c - 1461 * q - 365 * v, by omega, ⟨by omega, ?_⟩, ?_⟩
  · unfold yearLength
    split
    · omega
    · rename_i hleap
      rw [isLeapYear_iff] at hleap
      omega
  · have hfours : (100 * c + 4 * q + v) / 4 = 25 * c + q := by omega
    have hhundreds : (100 * c + 4 * q + v) / 100 = c := by omega
    rw [yearStart, hfours, hhundreds]
    omega

/-- The centuries that have gone by, the last day of the era not counted as one. -/
theorem century_eq {c q v d n : Int} (hc : 0 ≤ c ∧ c ≤ 3) (hq : 0 ≤ q ∧ q ≤ 24)
    (hv : 0 ≤ v ∧ v ≤ 3) (hd : 0 ≤ d ∧ d ≤ 365) (hlast : d = 365 → v = 3 ∧ (q ≠ 24 ∨ c = 3))
    (hn : n = 36524 * c + 1461 * q + 365 * v + d) : n / 36524 - n / 146096 = c := by
  by_cases hend : n = 146096
  · have hc3 : c = 3 := by omega
    rw [hend, hc3]
    rfl
  · have hin : 1461 * q + 365 * v + d < 36524 := by omega
    have hcentury : n / 36524 = c := by omega
    have hera : n / 146096 = 0 := by omega
    omega

/-- Without the leap days, the years are of one length. -/
theorem leapless_bounds {c q v d n : Int} (hc : 0 ≤ c ∧ c ≤ 3) (hq : 0 ≤ q ∧ q ≤ 24)
    (hv : 0 ≤ v ∧ v ≤ 3) (hd : 0 ≤ d ∧ d ≤ 365) (hlast : d = 365 → v = 3)
    (hn : n = 36524 * c + 1461 * q + 365 * v + d) :
    365 * (100 * c + 4 * q + v) ≤ n - n / 1460 + c
      ∧ n - n / 1460 + c < 365 * (100 * c + 4 * q + v) + 365 := by
  have hgroups : n / 1460 = 25 * c + q ∨ n / 1460 = 25 * c + q + 1 := by omega
  rcases hgroups with hgroups | hgroups <;> omega

/-- The year of the era is found from the day. -/
theorem IsDayOf.yearOfEra {n y d : Int} (h : IsDayOf n y d) :
    (n - n / 1460 + n / 36524 - n / 146096) / 365 = y := by
  obtain ⟨c, q, v, hy, hc, hq, hv, hlast, hn⟩ := h.parts
  have hd := And.intro h.day.1 h.day_le
  have hcentury := century_eq hc hq hv hd hlast hn
  obtain ⟨hlow, hhigh⟩ := leapless_bounds hc hq hv hd (fun hd => (hlast hd).1) hn
  rw [← hy] at hlow hhigh
  omega

/-! ## §2. The months of a year. -/

/-- The date of a day of a year of an era. -/
def ofYearDay (era y d : Int) : Date :=
  let monthFromMarch := (5 * d + 2) / 153
  let day := d - (153 * monthFromMarch + 2) / 5 + 1
  let month := if monthFromMarch < 10 then monthFromMarch + 3 else monthFromMarch - 9
  ⟨y + era * 400 + (if month ≤ 2 then 1 else 0), month.toNat, day.toNat⟩

variable {era y d n : Int}

theorem ofDays_of_isDayOf (h : IsDayOf n y d) :
    Date.ofDays (era * eraDays + n - epochOffset) = ofYearDay era y d := by
  have hn : 0 ≤ n ∧ n < 146097 := by
    obtain ⟨c, q, v, hy, hc, hq, hv, hlast, hn⟩ := h.parts
    have hd := And.intro h.day.1 h.day_le
    omega
  have hera : (era * eraDays + n - epochOffset + epochOffset) / eraDays = era := by
    unfold eraDays
    omega
  have hday : (era * eraDays + n - epochOffset + epochOffset) % eraDays = n := by
    unfold eraDays
    omega
  have hyear := h.yearOfEra
  have hrest : n - (365 * y + y / 4 - y / 100) = d := by
    rw [h.eq, yearStart]
    omega
  unfold Date.ofDays ofYearDay
  simp only [hera, hday, hyear, hrest]

/-- The month of a day is one of the twelve, and the day is one of the month's. -/
theorem monthFromMarch_bounds (hd : 0 ≤ d ∧ d ≤ 365) :
    0 ≤ (5 * d + 2) / 153 ∧ (5 * d + 2) / 153 ≤ 11
      ∧ 0 ≤ d - (153 * ((5 * d + 2) / 153) + 2) / 5 := by
  omega

/-- The number of a date is made of its era, year and day. -/
theorem toDays_ofYearDay (hy : 0 ≤ y ∧ y ≤ 399) (hd : 0 ≤ d ∧ d ≤ 365) :
    (ofYearDay era y d).toDays = era * eraDays + (yearStart y + d) - epochOffset := by
  obtain ⟨hm0, hm11, hday⟩ := monthFromMarch_bounds hd
  unfold ofYearDay Date.toDays yearStart
  generalize (5 * d + 2) / 153 = m at hm0 hm11 hday
  by_cases hm : m < 10
  · have hlate : ¬ (m + 3).toNat ≤ 2 := by omega
    have hlate' : ¬ m + 3 ≤ 2 := by omega
    simp only [if_pos hm, if_neg hlate, if_neg hlate', eraDays, epochOffset]
    omega
  · have hearly : (m - 9).toNat ≤ 2 := by omega
    have hearly' : m - 9 ≤ 2 := by omega
    simp only [if_neg hm, if_pos hearly, if_pos hearly', eraDays, epochOffset]
    omega

/-- Leap years come back in every era. -/
theorem isLeapYear_era (y era : Int) : isLeapYear (y + era * 400) = isLeapYear y := by
  rw [Bool.eq_iff_iff, isLeapYear_iff, isLeapYear_iff]
  omega

/-- The calendar has the date of every day of a year. -/
theorem valid_ofYearDay (hd : 0 ≤ d ∧ d < yearLength y) : (ofYearDay era y d).valid = true := by
  have hlong : d ≤ 365 ∧ (isLeapYear (y + 1) = false → d ≤ 364) := by
    unfold yearLength at hd
    split at hd
    · rename_i hleap
      exact ⟨by omega, fun hnot => absurd hleap (Bool.eq_false_iff.mp hnot)⟩
    · exact ⟨by omega, fun _ => by omega⟩
  obtain ⟨hm0, hm11, hday⟩ := monthFromMarch_bounds ⟨hd.1, hlong.1⟩
  have hm : 153 * ((5 * d + 2) / 153) ≤ 5 * d + 2 ∧ 5 * d + 2 < 153 * ((5 * d + 2) / 153) + 153 := by
    omega
  unfold ofYearDay Date.valid
  generalize (5 * d + 2) / 153 = m at hm0 hm11 hday hm
  -- Eleven months are of one length in every year; February ends the year.
  interval_cases m
  case «11» =>
    have hyear : y + era * 400 + 1 = y + 1 + era * 400 := by omega
    simp [monthLength, hyear, isLeapYear_era]
    cases hleap : isLeapYear (y + 1) <;> simp [hleap] at hlong ⊢ <;> omega
  all_goals
    simp [monthLength]
    omega

/-- The day of the year, from the month counted from March and the day of the month. -/
theorem ofYearDay_of_month {m k : Int} (hm : 0 ≤ m ∧ m ≤ 11)
    (hk : 1 ≤ k ∧ (153 * m + 2) / 5 + k - 1 < (153 * (m + 1) + 2) / 5) (era y : Int) :
    ofYearDay era y ((153 * m + 2) / 5 + k - 1)
      = ⟨y + era * 400 + (if m < 10 then 0 else 1), (if m < 10 then m + 3 else m - 9).toNat,
          k.toNat⟩ := by
  have hmonth : (5 * ((153 * m + 2) / 5 + k - 1) + 2) / 153 = m := by omega
  have hday : (153 * m + 2) / 5 + k - 1 - (153 * m + 2) / 5 + 1 = k := by omega
  unfold ofYearDay
  simp only [hmonth, hday]
  by_cases hlate : m < 10
  · have hmarch : ¬ m + 3 ≤ 2 := by omega
    simp only [if_pos hlate, if_neg hmarch]
  · have hmarch : m - 9 ≤ 2 := by omega
    simp only [if_neg hlate, if_pos hmarch]

/-- No month is longer than the days up to the next, and February is as long as the year lets it. -/
theorem monthLength_bounds {year m : Int} (hm : 0 ≤ m ∧ m ≤ 11)
    (hyear : year = y + era * 400 + (if m < 10 then 0 else 1)) {k : Int}
    (hk : k ≤ monthLength year (if m < 10 then m + 3 else m - 9).toNat) :
    (153 * m + 2) / 5 + k - 1 < (153 * (m + 1) + 2) / 5
      ∧ (153 * m + 2) / 5 + k - 1 < yearLength y := by
  have hlength : 365 ≤ yearLength y := by
    unfold yearLength
    split <;> decide
  obtain ⟨hm0, hm11⟩ := hm
  interval_cases m
  case «11» =>
    have hleap : isLeapYear year = isLeapYear (y + 1) := by
      rw [hyear, if_neg (by decide), ← isLeapYear_era (y + 1) era]
      congr 1
      omega
    have hfebruary : (k ≤ 28) ∨ (k ≤ 29 ∧ yearLength y = 366) := by
      have hlast : k ≤ ((if isLeapYear year then 29 else 28 : Nat) : Int) := hk
      rw [hleap] at hlast
      unfold yearLength
      split at hlast
      · rename_i hyes
        exact .inr ⟨hlast, if_pos hyes⟩
      · exact .inl hlast
    omega
  all_goals
    simp [monthLength] at hk
    omega

/-- Every date is that of a day of a year of an era. -/
theorem exists_ofYearDay {date : Date} (h : date.valid = true) :
    ∃ era n y d, IsDayOf n y d ∧ date = ofYearDay era y d := by
  obtain ⟨year, month, day⟩ := date
  simp only [Date.valid, Bool.and_eq_true, decide_eq_true_eq] at h
  obtain ⟨⟨⟨hmonth1, hmonth12⟩, hday1⟩, hday⟩ := h
  -- The month counted from March, and the year that it belongs to.
  obtain ⟨m, hm⟩ : ∃ m : Int, m = if month ≤ 2 then (month : Int) + 9 else month - 3 := ⟨_, rfl⟩
  obtain ⟨march, hmarch⟩ : ∃ march : Int, march = if month ≤ 2 then year - 1 else year := ⟨_, rfl⟩
  have hm11 : 0 ≤ m ∧ m ≤ 11 := by
    rw [hm]
    split <;> omega
  have hmonth : (if m < 10 then m + 3 else m - 9).toNat = month := by
    rw [hm]
    split <;> split <;> omega
  have hyear : year = march % 400 + march / 400 * 400 + (if m < 10 then 0 else 1) := by
    rw [hm, hmarch]
    split <;> split <;> omega
  have hlength : (day : Int) ≤ monthLength year (if m < 10 then m + 3 else m - 9).toNat := by
    rw [hmonth]
    exact_mod_cast hday
  obtain ⟨hin, hinYear⟩ := monthLength_bounds hm11 hyear hlength
  have hdate := ofYearDay_of_month hm11 ⟨by omega, hin⟩ (march / 400) (march % 400)
  refine ⟨march / 400, _, march % 400, _, ⟨by omega, ⟨by omega, hinYear⟩, rfl⟩, ?_⟩
  rw [hdate, ← hyear, hmonth, Int.toNat_natCast]

/-! ## §3. Dates and numbers. -/

theorem exists_era (n : Int) : ∃ era m y d, n = era * eraDays + m - epochOffset ∧ IsDayOf m y d := by
  have hpos : (0 : Int) < eraDays := by decide
  obtain ⟨y, d, h⟩ := exists_isDayOf (Int.emod_nonneg (n + epochOffset) hpos.ne')
    (Int.emod_lt_of_pos (n + epochOffset) hpos)
  refine ⟨(n + epochOffset) / eraDays, (n + epochOffset) % eraDays, y, d, ?_, h⟩
  have hsplit := Int.mul_ediv_add_emod (n + epochOffset) eraDays
  rw [Int.mul_comm] at hsplit
  omega

/-- The date of a number of days has that number. -/
theorem toDays_ofDays (n : Int) : (Date.ofDays n).toDays = n := by
  obtain ⟨era, m, y, d, rfl, h⟩ := exists_era n
  rw [ofDays_of_isDayOf h, toDays_ofYearDay h.year ⟨h.day.1, h.day_le⟩, h.eq]

/-- The calendar has the date of every number of days. -/
theorem valid_ofDays (n : Int) : (Date.ofDays n).valid = true := by
  obtain ⟨era, m, y, d, rfl, h⟩ := exists_era n
  rw [ofDays_of_isDayOf h]
  exact valid_ofYearDay h.day

/-- A date of the calendar is the date of its number. -/
theorem ofDays_toDays {date : Date} (h : date.valid = true) : Date.ofDays date.toDays = date := by
  obtain ⟨era, n, y, d, hday, rfl⟩ := exists_ofYearDay h
  rw [toDays_ofYearDay hday.year ⟨hday.day.1, hday.day_le⟩, ← hday.eq]
  exact ofDays_of_isDayOf hday

end Parley.Calendar
