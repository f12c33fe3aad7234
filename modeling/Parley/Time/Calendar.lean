/-
  Parley.Time.Calendar
  ────────────────────────────────
  **THE CALENDAR.**

  Dates of the Gregorian calendar, extended to all years, and their number of
  days since 1970-01-01.  The count runs in eras of 400 years that begin on the
  first of March, so that the leap day is the last of its year.
-/

namespace Parley.Calendar

/-! ## §1. Dates. -/

/-- A date.  The year zero is the year before the year one. -/
structure Date where
  year : Int
  month : Nat
  day : Nat
deriving DecidableEq, Repr

/-- Whether a year has a leap day. -/
def isLeapYear (y : Int) : Bool :=
  y % 4 == 0 && (y % 100 != 0 || y % 400 == 0)

/-- The number of days of a month. -/
def monthLength (y : Int) (m : Nat) : Nat :=
  match m with
  | 2 => if isLeapYear y then 29 else 28
  | 4 | 6 | 9 | 11 => 30
  | _ => 31

/-- Whether the calendar has the date. -/
def Date.valid (d : Date) : Bool :=
  1 ≤ d.month && d.month ≤ 12 && 1 ≤ d.day && d.day ≤ monthLength d.year d.month

/-! ## §2. Counting days. -/

/-- Days in an era of 400 years. -/
def eraDays : Int := 146097

/-- Days from the first of March of the year zero to 1970-01-01. -/
def epochOffset : Int := 719468

/-- The number of a date, counted from 1970-01-01. -/
def Date.toDays (d : Date) : Int :=
  let y := if d.month ≤ 2 then d.year - 1 else d.year
  let era := y / 400
  let yearOfEra := y % 400
  let monthFromMarch : Int := if d.month ≤ 2 then d.month + 9 else d.month - 3
  let dayOfYear := (153 * monthFromMarch + 2) / 5 + d.day - 1
  era * eraDays + (365 * yearOfEra + yearOfEra / 4 - yearOfEra / 100 + dayOfYear) - epochOffset

/-- The date with a given number. -/
def Date.ofDays (n : Int) : Date :=
  let z := n + epochOffset
  let era := z / eraDays
  let dayOfEra := z % eraDays
  let yearOfEra := (dayOfEra - dayOfEra / 1460 + dayOfEra / 36524 - dayOfEra / 146096) / 365
  let dayOfYear := dayOfEra - (365 * yearOfEra + yearOfEra / 4 - yearOfEra / 100)
  let monthFromMarch := (5 * dayOfYear + 2) / 153
  let day := dayOfYear - (153 * monthFromMarch + 2) / 5 + 1
  let month := if monthFromMarch < 10 then monthFromMarch + 3 else monthFromMarch - 9
  let year := yearOfEra + era * 400 + (if month ≤ 2 then 1 else 0)
  ⟨year, month.toNat, day.toNat⟩

/-- Leap days, ends of years and of eras. -/
example : (Date.mk 1970 1 1).toDays = 0 ∧ Date.ofDays (-1) = ⟨1969, 12, 31⟩
    ∧ Date.ofDays (Date.toDays ⟨2000, 2, 29⟩) = ⟨2000, 2, 29⟩
    ∧ Date.ofDays (Date.toDays ⟨0, 1, 1⟩) = ⟨0, 1, 1⟩
    ∧ Date.ofDays (Date.toDays ⟨9999, 12, 31⟩) = ⟨9999, 12, 31⟩ := by decide

end Parley.Calendar
