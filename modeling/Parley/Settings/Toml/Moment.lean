/-
  Parley.Settings.Toml.Moment
  ────────────────────────────────
  **DATES AND TIMES IN TOML.**

  A value may be a date, a time of day, or both with an offset or without one:

      1979-05-27 07:32:00.50-07:00

  What is read is written in one form: a `T` between date and time, no zeros at
  the end of a fraction, and a plus sign before an offset of zero.
-/
import Parley.Time.Timestamp

namespace Parley.Toml

open Parley.Calendar
open Parley.Text

/-! ## §1. Moments. -/

/-- A time of day.  Any minute may have a sixtieth second. -/
structure TimeOfDay where
  hour : Nat
  minute : Nat
  second : Nat
  nanos : Nat
deriving DecidableEq, Repr

/-- An offset from universal time. -/
inductive Offset where
  | universal
  | minutes (count : Int)
deriving DecidableEq, Repr

/-- A date, a time of day, or both. -/
inductive Moment where
  | date (date : Date)
  | time (time : TimeOfDay)
  | dateTime (date : Date) (time : TimeOfDay) (offset : Option Offset)
deriving DecidableEq, Repr

/-! ## §2. Writing. -/

/-- The characters of a date. -/
def writeDate (d : Date) : List Char :=
  padded 4 d.year.toNat ++ '-' :: padded 2 d.month ++ '-' :: padded 2 d.day

/-- The characters of a time, with the fewest digits of a fraction that are exact. -/
def TimeOfDay.write (t : TimeOfDay) : List Char :=
  let fraction := ((padded 9 t.nanos).reverse.dropWhile (· = '0')).reverse
  padded 2 t.hour ++ ':' :: padded 2 t.minute ++ ':' :: padded 2 t.second ++
    if fraction = [] then [] else '.' :: fraction

/-- The characters of an offset. -/
def Offset.write : Offset → List Char
  | universal => ['Z']
  | minutes n =>
    (if n < 0 then '-' else '+') :: padded 2 (n.natAbs / 60) ++ ':' :: padded 2 (n.natAbs % 60)

/-- The text of a moment. -/
def Moment.render : Moment → String
  | date d => String.ofList (writeDate d)
  | time t => String.ofList t.write
  | dateTime d t offset =>
    String.ofList (writeDate d ++ 'T' :: t.write ++ ((offset.map Offset.write).getD []))

/-! ## §3. Reading. -/

/-- A number of two digits. -/
def readTwoDigits : List Char → Option (Nat × List Char)
  | a :: b :: r => if a.isDigit ∧ b.isDigit then some (digitsValue [a, b], r) else none
  | _ => none

/-- The rest after a character. -/
def readMark (mark : Char) : List Char → Option (List Char)
  | c :: r => if c = mark then some r else none
  | [] => none

/-- A date that the calendar has, with a year of four digits. -/
def readDate (cs : List Char) : Option (Date × List Char) := do
  let year := cs.take 4
  let (month, r) ← readTwoDigits (← readMark '-' (cs.drop 4))
  let (day, r) ← readTwoDigits (← readMark '-' r)
  let d : Date := ⟨digitsValue year, month, day⟩
  if year.length = 4 ∧ year.all Char.isDigit ∧ d.valid then some (d, r) else none

/-- A time of day. -/
def readTime (cs : List Char) : Option (TimeOfDay × List Char) := do
  let (hour, r) ← readTwoDigits cs
  let (minute, r) ← readTwoDigits (← readMark ':' r)
  let (second, r) ← readTwoDigits (← readMark ':' r)
  let (nanos, r) ← Timestamp.readFraction r
  if hour ≤ 23 ∧ minute ≤ 59 ∧ second ≤ 60 then some (⟨hour, minute, second, nanos⟩, r) else none

/-- An offset: `Z` in either case, or a sign, hours and minutes. -/
def readOffset : List Char → Option (Offset × List Char)
  | [] => none
  | c :: r =>
    if c = 'Z' ∨ c = 'z' then some (.universal, r)
    else if c = '+' ∨ c = '-' then do
      let (hours, r) ← readTwoDigits r
      let (minutes, r) ← readTwoDigits (← readMark ':' r)
      let n : Int := hours * 60 + minutes
      if hours ≤ 23 ∧ minutes ≤ 59 then some (.minutes (if c = '-' then -n else n), r) else none
    else none

/-- The time after a date: `T` in either case or a space, the time, and an offset if there is
one. -/
def readDateEnd : List Char → Option (TimeOfDay × Option Offset × List Char)
  | [] => none
  | c :: r =>
    if c = 'T' ∨ c = 't' ∨ c = ' ' then
      match readTime r with
      | none => none
      | some (t, r) =>
        match readOffset r with
        | some (offset, r) => some (t, some offset, r)
        | none => some (t, none, r)
    else none

/-- A moment at the front of a text. -/
def readMoment (cs : List Char) : Option (Moment × List Char) :=
  match readDate cs with
  | some (d, r) =>
    match readDateEnd r with
    | some (t, offset, r) => some (.dateTime d t offset, r)
    | none => some (.date d, r)
  | none => (readTime cs).map fun p => (.time p.1, p.2)

/-- The moment that a whole text writes. -/
def Moment.parse? (s : String) : Option Moment :=
  match readMoment s.toList with
  | some (m, []) => some m
  | _ => none

/-- Forms that differ, and dates and times that do not exist. -/
example : (Moment.parse? "1979-05-27 07:32:00.50-00:00").map Moment.render
      = some "1979-05-27T07:32:00.5+00:00"
    ∧ (Moment.parse? "1979-05-27t07:32:60z").map Moment.render = some "1979-05-27T07:32:60Z"
    ∧ (Moment.parse? "07:32:00.1234567891").map Moment.render = some "07:32:00.123456789"
    ∧ Moment.parse? "2100-02-29" = none ∧ Moment.parse? "24:00:00" = none
    ∧ Moment.parse? "1979-05-27T07:32:00+24:00" = none
    ∧ Moment.parse? "1979-05-27T07:32:00-00:60" = none
    ∧ Moment.parse? "1979-05-27T07:32:00." = none := by decide +kernel

end Parley.Toml
