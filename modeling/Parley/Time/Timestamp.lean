/-
  Parley.Time.Timestamp
  ────────────────────────────────
  **WRITTEN TIMES.**

  An instant is written in universal time, with the fewest of 0, 3, 6 or 9
  fraction digits that are exact:

      2023-11-14T22:13:20.500Z

  Reading is more liberal: blanks between the parts, short numbers, a lower
  case or blank separator, a fraction of any length (digits beyond the ninth
  are dropped) and any offset below a day.
-/
import Parley.Time.Instant
import Parley.Time.Calendar
import Parley.Text.Blank
import Parley.Text.Digits

namespace Parley.Timestamp

open Parley.Calendar
open Parley.Text

/-! ## §1. Writing. -/

/-- A year: four digits, outside the years 0 to 9999 with a sign. -/
def writeYear (y : Int) : List Char :=
  if 0 ≤ y ∧ y ≤ 9999 then padded 4 y.toNat
  else (if y < 0 then '-' else '+') :: padded 4 y.natAbs

/-- The fraction of a second, in nanoseconds. -/
def writeFraction (nanos : Nat) : List Char :=
  if nanos = 0 then []
  else if nanos % 1000000 = 0 then '.' :: padded 3 (nanos / 1000000)
  else if nanos % 1000 = 0 then '.' :: padded 6 (nanos / 1000)
  else '.' :: padded 9 nanos

/-- The characters of a written instant. -/
def write (t : Instant) : List Char :=
  let nanos := if t.leap then t.nanos - Instant.perSecond else t.nanos
  let second := nanos / Instant.perSecond
  let fraction := (nanos % Instant.perSecond).toNat
  let date := Date.ofDays (second / 86400)
  let ofDay := (second % 86400).toNat
  writeYear date.year ++ '-' :: padded 2 date.month ++ '-' :: padded 2 date.day ++
    'T' :: padded 2 (ofDay / 3600) ++ ':' :: padded 2 (ofDay / 60 % 60) ++
    ':' :: padded 2 (ofDay % 60 + if t.leap then 1 else 0) ++ writeFraction fraction ++ ['Z']

/-- The text of an instant. -/
def render (t : Instant) : String :=
  String.ofList (write t)

/-! ## §2. Reading. -/

/-- A number of one digit up to a greatest width, after blanks. -/
def readNumber (width : Nat) (cs : List Char) : Option (Nat × List Char) :=
  let cs := dropBlanks cs
  let ds := (cs.take width).takeWhile Char.isDigit
  if ds = [] then none else some (digitsValue ds, cs.drop ds.length)

/-- A year, after blanks: up to four digits, or a sign and any number of digits. -/
def readYear (cs : List Char) : Option (Int × List Char) :=
  match dropBlanks cs with
  | sign :: r =>
    if sign = '-' ∨ sign = '+' then
      let ds := r.takeWhile Char.isDigit
      if ds = [] then none
      else
        let n : Int := digitsValue ds
        some (if sign = '-' then -n else n, r.drop ds.length)
    else (readNumber 4 (sign :: r)).map fun p => (Int.ofNat p.1, p.2)
  | [] => none

/-- The rest after a character, with blanks before it. -/
def skipMark (mark : Char) (cs : List Char) : Option (List Char) :=
  match dropBlanks cs with
  | c :: r => if c = mark then some r else none
  | [] => none

/-- The nanoseconds of a fraction, zero if there is none. -/
def readFraction : List Char → Option (Nat × List Char)
  | '.' :: cs =>
    let ds := cs.takeWhile Char.isDigit
    if ds = [] then none
    else
      let kept := ds.take 9
      some (digitsValue kept * Nat.pow 10 (9 - kept.length), cs.drop ds.length)
  | cs => some (0, cs)

/-- Whether a sign of an offset is a minus: a hyphen or the minus sign proper. -/
def offsetSign? (c : Char) : Option Bool :=
  if c = '+' then some false else if c = '-' ∨ c = '\u2212' then some true else none

/-- An offset from universal time in seconds. -/
def readOffset (cs : List Char) : Option (Int × List Char) :=
  match dropBlanks cs with
  | [] => none
  | c :: r =>
    if c = 'Z' ∨ c = 'z' then some (0, r)
    else if (c :: r.take 2).map Char.toLower = ['u', 't', 'c'] then some (0, r.drop 2)
    else
      match offsetSign? c, r with
      | some negative, h :: i :: r =>
        match r.dropWhile fun c => c = ':' || isBlank c with
        | m :: n :: rest =>
          if h.isDigit ∧ i.isDigit ∧ '0' ≤ m ∧ m ≤ '5' ∧ n.isDigit then
            let seconds : Int := digitsValue [h, i] * 3600 + digitsValue [m, n] * 60
            some (if negative then -seconds else seconds, rest)
          else none
        | _ => none
      | _, _ => none

/-- The first year that has dates. -/
def leastYear : Int := -262143

/-- The last year that has dates. -/
def greatestYear : Int := 262142

/-- The instant of a date and a time of day at an offset.  The sixtieth second is a leap second. -/
def assemble (date : Date) (hour minute second nanos : Nat) (offset : Int) : Option Instant :=
  if date.valid ∧ leastYear ≤ date.year ∧ date.year ≤ greatestYear ∧ hour ≤ 23 ∧ minute ≤ 59
      ∧ second ≤ 60 ∧ offset.natAbs < 86400 then
    let leap := second = 60
    let ofDay : Int := hour * 3600 + minute * 60 + second
    let nanos := (date.toDays * 86400 + ofDay - offset) * Instant.perSecond + nanos
    -- A leap second belongs to the day that it ends.
    let written := nanos / Instant.perSecond - if leap then 1 else 0
    let year := (Date.ofDays (written / 86400)).year
    if leastYear ≤ year ∧ year ≤ greatestYear then some ⟨nanos, leap⟩ else none
  else none

/-- The instant that characters write. -/
def read? (cs : List Char) : Option Instant := do
  let (year, cs) ← readYear cs
  let (month, cs) ← readNumber 2 (← skipMark '-' cs)
  let (day, cs) ← readNumber 2 (← skipMark '-' cs)
  let cs ← match cs with
    | c :: r => if c = 'T' ∨ c = 't' ∨ c = ' ' then some r else none
    | [] => none
  let (hour, cs) ← readNumber 2 cs
  let (minute, cs) ← readNumber 2 (← skipMark ':' cs)
  let (second, cs) ← readNumber 2 (← skipMark ':' cs)
  let (nanos, cs) ← readFraction cs
  let (offset, cs) ← readOffset cs
  if dropBlanks cs = [] then assemble ⟨year, month, day⟩ hour minute second nanos offset else none

/-- The instant that a text writes. -/
def parse? (s : String) : Option Instant :=
  read? s.toList

/-- Offsets are converted, fractions shortened, leap seconds kept. -/
example : (parse? "2023-11-14T22:13:20+02:00").map render = some "2023-11-14T20:13:20Z"
    ∧ (parse? "2023-11-14t22:13:20.1000000009z").map render = some "2023-11-14T22:13:20.100Z"
    ∧ (parse? " 2016-12-31 23:59:60.5 utc ").map render = some "2016-12-31T23:59:60.500Z"
    ∧ (parse? "+12345-1-2T3:4:5-00:00").map render = some "+12345-01-02T03:04:05Z"
    ∧ parse? "2023-02-29T00:00:00Z" = none ∧ parse? "2023-11-14T24:00:00Z" = none
    ∧ parse? "2023-11-14T22:13:20" = none ∧ parse? "2023-11-14" = none := by decide +kernel

end Parley.Timestamp
