/-
  Parley.Settings.Toml.Scalar
  ────────────────────────────────
  **NUMBERS AND TRUTH VALUES IN TOML.**

  Single underscores may stand between digits.  Whole numbers have 64 bits; a
  number with a point or an exponent is the nearest binary one, and only
  negative ones may be too great for that.
-/
import Parley.Json.Basic
import Parley.Decimal.Word
import Parley.Text.Digits

namespace Parley.Toml

open Parley.Decimal
open Parley.Text

/-! ## §1. Digits. -/

/-- Digits with single underscores between them, without the underscores. -/
def plainDigits? (isDigit : Char → Bool) (cs : List Char) : Option (List Char) :=
  match go true cs with
  | some [] => none
  | r => r
where
  go (afterMark : Bool) : List Char → Option (List Char)
    | [] => if afterMark then none else some []
    | '_' :: r => if afterMark then none else go true r
    | c :: r => if isDigit c then (go false r).map (c :: ·) else none

/-! ## §2. Whole numbers. -/

/-- A whole number of 64 bits. -/
def wholeWithin? (n : Int) : Option Json :=
  if -(Word.signed64 : Int) - 1 ≤ n ∧ n ≤ Word.signed64 then some (.int n) else none

/-- A digit of a base. -/
def isBasedDigit (base : Nat) (c : Char) : Bool :=
  match hexValue? c with
  | some d => decide (d < base)
  | none => false

/-- A whole number in another base, after its mark. -/
def basedInt? (base : Nat) (cs : List Char) : Option Json := do
  let ds ← plainDigits? (isBasedDigit base) cs
  wholeWithin? (ds.foldl (fun n c => base * n + (hexValue? c).getD 0) 0)

/-- Decimal digits of a number: no zero in front of others. -/
def wholeDigits? (cs : List Char) : Option (List Char) := do
  let ds ← plainDigits? Char.isDigit cs
  match ds with
  | '0' :: _ :: _ => none
  | ds => some ds

/-! ## §3. Numbers. -/

/-- A number written with a point or an exponent; one that is too great has to be negative. -/
def fraction? (negative : Bool) (significand : Nat) (exponent : Int) : Option Json :=
  match Binary64.ofDecimal negative significand exponent with
  | .infinite false => none
  | x => some (.float x)

/-- A number without its sign. -/
def magnitude? (negative : Bool) (cs : List Char) : Option Json :=
  if cs = ['i', 'n', 'f'] then some (.float (.infinite negative))
  else if cs = ['n', 'a', 'n'] then some (.float .nan)
  else
    let whole := cs.takeWhile fun c => c.isDigit || c = '_'
    let rest := cs.drop whole.length
    match wholeDigits? whole with
    | none => none
    | some ds =>
      if rest = [] then
        let n : Int := digitsValue ds
        wholeWithin? (if negative then -n else n)
      else
        let fraction := match rest with
          | '.' :: r => r.takeWhile fun c => c.isDigit || c = '_'
          | _ => []
        let rest := match rest with
          | '.' :: r => r.drop fraction.length
          | r => r
        let pointed := cs.drop whole.length ≠ rest
        match (if pointed then plainDigits? Char.isDigit fraction else some []) with
        | none => none
        | some fs =>
          match rest with
          | [] => fraction? negative (digitsValue (ds ++ fs)) (-fs.length)
          | e :: r =>
            if e = 'e' ∨ e = 'E' then
              let (down, r) := match r with
                | '-' :: r => (true, r)
                | '+' :: r => (false, r)
                | r => (false, r)
              match plainDigits? Char.isDigit r with
              | none => none
              | some es =>
                let n : Int := digitsValue es
                fraction? negative (digitsValue (ds ++ fs)) ((if down then -n else n) - fs.length)
            else none

/-! ## §4. Words. -/

/-- A word that stands for a value: a truth value or a number. -/
def word? (cs : List Char) : Option Json :=
  match cs with
  | ['t', 'r', 'u', 'e'] => some (.bool true)
  | ['f', 'a', 'l', 's', 'e'] => some (.bool false)
  | '0' :: 'x' :: r => basedInt? 16 r
  | '0' :: 'o' :: r => basedInt? 8 r
  | '0' :: 'b' :: r => basedInt? 2 r
  | '+' :: r => magnitude? false r
  | '-' :: r => magnitude? true r
  | cs => magnitude? false cs

/-- Bases, underscores, and numbers that are too great. -/
example : word? "1_000".toList = some (.int 1000) ∧ word? "0xfF".toList = some (.int 255)
    ∧ word? "-0".toList = some (.int 0) ∧ word? "1__0".toList = none ∧ word? "01".toList = none
    ∧ word? "1e400".toList = none ∧ word? "-1e400".toList = some (.float (.infinite true))
    ∧ word? "2.5".toList = some (.float (.ofDecimal false 25 (-1))) := by decide +kernel

end Parley.Toml
