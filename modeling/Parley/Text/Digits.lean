/-
  Parley.Text.Digits
  ────────────────────────────────
  **DIGITS.**

  Numbers as digits: reading the digits at the front of a text, their value, and
  digits padded with zeros to a width.
-/

namespace Parley.Text

/-! ## §1. Reading. -/

/-- The leading decimal digits, and the rest. -/
def spanDigits (cs : List Char) : List Char × List Char :=
  cs.span Char.isDigit

/-- The number that decimal digits write. -/
def digitsValue (ds : List Char) : Nat :=
  ds.foldl (fun n c => 10 * n + (c.toNat - '0'.toNat)) 0

/-- The value of a hexadecimal digit, in either case. -/
def hexValue? (c : Char) : Option Nat :=
  if c.isDigit then some (c.toNat - '0'.toNat)
  else if 'a' ≤ c ∧ c ≤ 'f' then some (c.toNat - 'a'.toNat + 10)
  else if 'A' ≤ c ∧ c ≤ 'F' then some (c.toNat - 'A'.toNat + 10)
  else none

/-! ## §2. Writing. -/

/-- Decimal digits with leading zeros up to a width. -/
def padded (width n : Nat) : List Char :=
  let ds := Nat.toDigits 10 n
  List.replicate (width - ds.length) '0' ++ ds

/-- Zeros in front do not change the number that digits write. -/
theorem ofDigitChars_padded (width n : Nat) : Nat.ofDigitChars 10 (padded width n) 0 = n := by
  unfold padded
  rw [Nat.ofDigitChars_append, Nat.ofDigitChars_replicate_zero, Nat.mul_zero,
    Nat.ofDigitChars_ten_toDigits]

/-- A hexadecimal digit. -/
def hexDigit (n : Nat) : Char :=
  if n < 10 then Char.ofNat (n + '0'.toNat) else Char.ofNat (n - 10 + 'a'.toNat)

/-- What is padded reads back, and a wider number is not cut. -/
example : padded 4 7 = ['0', '0', '0', '7'] ∧ padded 2 123 = ['1', '2', '3']
    ∧ digitsValue (padded 4 7) = 7 ∧ spanDigits ['4', '2', 'x'] = (['4', '2'], ['x'])
    ∧ (List.range 16).all (fun n => hexValue? (hexDigit n) = some n) = true := by decide +kernel

end Parley.Text
