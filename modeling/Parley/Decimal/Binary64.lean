/-
  Parley.Decimal.Binary64
  ────────────────────────────────
  **THE NUMBERS OF A 64-BIT BINARY FORMAT, EXACTLY.**

  A finite number is  ± significand · 2 ^ exponent  with at most 53 bits of
  significand.  Numbers are made by rounding an exact quotient to the nearest
  such number (`ofRatio`, an exact tie goes to the even significand), and they
  are compared exactly, as integers over a common power of two.  No machine
  arithmetic is involved, so every operation can be evaluated by the kernel.
-/

namespace Parley.Decimal

/-! ## §1. The numbers. -/

/-- A number of the format.  Finite numbers are kept in one form each: the significand has 53
bits, or the exponent is the least one, −1074. -/
inductive Binary64 where
  | finite (negative : Bool) (significand : Nat) (exponent : Int)
  | infinite (negative : Bool)
  | nan
deriving DecidableEq, Repr

namespace Binary64

/-- The exponent of the least positive number. -/
def leastExponent : Int := -1074

/-- The greatest exponent a finite number can have. -/
def greatestExponent : Int := 971

/-- The quotient rounded to the nearest integer, an exact tie to the even one. -/
def roundQuotient (num den : Nat) : Nat :=
  let q := num / den
  let r := num % den
  if 2 * r < den then q else if den < 2 * r then q + 1 else if q % 2 = 0 then q else q + 1

/-- `num / den · 2 ^ (-e)` as a quotient of natural numbers. -/
def scaleDown (num den : Nat) (e : Int) : Nat × Nat :=
  (num * Nat.pow 2 (-e).toNat, den * Nat.pow 2 e.toNat)

/-- The exponent at which `num / den` has a significand of 53 bits, or the least exponent if that
one would be smaller. -/
def exponentFor (num den : Nat) : Int :=
  let guess : Int := (num.log2 : Int) - (den.log2 : Int) - 53
  let (n, d) := scaleDown num den guess
  max leastExponent (if n / d < Nat.pow 2 53 then guess else guess + 1)

/-- The number nearest to `± num / den`.  Beyond the greatest finite number it is infinite. -/
def ofRatio (negative : Bool) (num den : Nat) : Binary64 :=
  if num = 0 then .finite negative 0 leastExponent
  else
    let e := exponentFor num den
    let (n, d) := scaleDown num den e
    let m := roundQuotient n d
    let (m, e) := if m = Nat.pow 2 53 then (Nat.pow 2 52, e + 1) else (m, e)
    if greatestExponent < e then .infinite negative else .finite negative m e

/-- The number nearest to an integer. -/
def ofInt (n : Int) : Binary64 :=
  ofRatio (n < 0) n.natAbs 1

/-- The number nearest to `± digits · 10 ^ scale`.  Scales far outside the range are settled
without writing the power out. -/
def ofDecimal (negative : Bool) (digits : Nat) (scale : Int) : Binary64 :=
  let width : Int := (Nat.toDigits 10 digits).length
  if digits = 0 then .finite negative 0 leastExponent
  else if 400 < width + scale then .infinite negative
  else if width + scale < -400 then .finite negative 0 leastExponent
  else ofRatio negative (digits * Nat.pow 10 scale.toNat) (Nat.pow 10 (-scale).toNat)

/-- The number nearest to `± num / den · 2 ^ e`. -/
def ofScaled (negative : Bool) (num den : Nat) (e : Int) : Binary64 :=
  ofRatio negative (num * Nat.pow 2 e.toNat) (den * Nat.pow 2 (-e).toNat)

/-- The number nearest to a power of ten. -/
def powerOfTen (k : Nat) : Binary64 :=
  ofRatio false (Nat.pow 10 k) 1

/-! ## §2. Products and quotients. -/

/-- The product of two numbers, rounded to the nearest one. -/
def mul : Binary64 → Binary64 → Binary64
  | .nan, _ | _, .nan => .nan
  | .infinite s, .infinite t => .infinite (s != t)
  | .infinite s, .finite t n _ => if n = 0 then .nan else .infinite (s != t)
  | .finite s m _, .infinite t => if m = 0 then .nan else .infinite (s != t)
  | .finite s m e, .finite t n f => ofScaled (s != t) (m * n) 1 (e + f)

/-- The quotient of two numbers, rounded to the nearest one. -/
def div : Binary64 → Binary64 → Binary64
  | .nan, _ | _, .nan => .nan
  | .infinite _, .infinite _ => .nan
  | .infinite s, .finite t _ _ => .infinite (s != t)
  | .finite s _ _, .infinite t => .finite (s != t) 0 leastExponent
  | .finite s m e, .finite t n f =>
    if n = 0 then if m = 0 then .nan else .infinite (s != t)
    else ofScaled (s != t) m n (e - f)

/-- The number with the other sign. -/
def neg : Binary64 → Binary64
  | .finite s m e => .finite (!s) m e
  | .infinite s => .infinite (!s)
  | .nan => .nan

/-! ## §3. Order and integers. -/

/-- The value of a finite number as an integer multiple of `2 ^ leastExponent`. -/
def units : Bool → Nat → Int → Int
  | negative, m, e =>
    let n : Int := (m * Nat.pow 2 (e - leastExponent).toNat : Nat)
    if negative then -n else n

/-- The order of two numbers.  There is none with `nan`; the two zeros are equal. -/
def compare? : Binary64 → Binary64 → Option Ordering
  | .nan, _ => none
  | _, .nan => none
  | .infinite s, .infinite t => some (compare t s)
  | .infinite s, .finite .. => some (if s then .lt else .gt)
  | .finite .., .infinite t => some (if t then .gt else .lt)
  | .finite s m e, .finite t n f => some (compare (units s m e) (units t n f))

/-- The nearest integer, a half away from zero; `none` unless the number is finite. -/
def roundToInt? : Binary64 → Option Int
  | .finite negative m e =>
    let n : Nat := if 0 ≤ e then m * Nat.pow 2 e.toNat
      else (m + Nat.pow 2 ((-e).toNat - 1)) / Nat.pow 2 (-e).toNat
    some (if negative then -(n : Int) else n)
  | _ => none

/-- One is one, a tenth is the familiar neighbour of a tenth, and ties go to even. -/
example : ofInt 1 = .finite false (2 ^ 52) (-52) ∧ ofInt (2 ^ 53 + 1) = ofInt (2 ^ 53)
    ∧ ofInt (2 ^ 53 + 3) = ofInt (2 ^ 53 + 4)
    ∧ ofDecimal false 1 (-1) = .finite false 7205759403792794 (-56)
    ∧ ofDecimal true 5 (-324) = .finite true 1 (-1074)
    ∧ ofDecimal false 18 308 = .infinite false
    ∧ mul (ofDecimal false 1 (-1)) (ofInt 3) = .finite false 5404319552844596 (-54)
    ∧ div (ofInt 1) (ofInt 10) = ofDecimal false 1 (-1) := by decide +kernel

end Binary64

end Parley.Decimal
