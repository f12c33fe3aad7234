/-
  Parley.Decimal.Shortest
  ────────────────────────────────
  **THE SHORTEST DECIMAL THAT READS BACK.**

  A finite number stands for the interval of reals that round to it.  Its text
  is written with the fewest digits that lie in the interval, and with the
  closest of those (`select`).  How the digits are laid out is a record of the
  format's decisions (`NumberFormat`), so that one selection serves every format:

      select 0.1  =  1 · 10 ^ (-1)
-/
import Parley.Decimal.Binary64

namespace Parley.Decimal

/-! ## §1. The digits. -/

/-- The decimal `digits · 10 ^ scale`. -/
structure Scientific where
  digits : Nat
  scale : Int
deriving DecidableEq, Repr

/-- The order of `a · 10 ^ i` and `n · 2 ^ j`. -/
def compareScaled (a : Nat) (i : Int) (n : Nat) (j : Int) : Ordering :=
  compare (a * Nat.pow 10 i.toNat * Nat.pow 2 (-j).toNat)
    (n * Nat.pow 2 j.toNat * Nat.pow 10 (-i).toNat)

/-- Whether the neighbour below `m · 2 ^ e` is nearer than the one above: `m` is the least
significand of its exponent. -/
def narrowBelow (m : Nat) (e : Int) : Bool :=
  m = Nat.pow 2 52 && Binary64.leastExponent < e

/-- Whether a decimal lies among the reals that round to `m · 2 ^ e`.  The ends of the interval
belong to it when the significand is even. -/
def readsBack (m : Nat) (e : Int) (d : Scientific) : Bool :=
  let least := if narrowBelow m e then 4 * m - 1 else 4 * m - 2
  let low := compareScaled d.digits d.scale least (e - 2)
  let high := compareScaled d.digits d.scale (4 * m + 2) (e - 2)
  let even := m % 2 == 0
  (low == .gt || (even && low == .eq)) && (high == .lt || (even && high == .eq))

/-- The least `k` with `m · 2 ^ e < 10 ^ k`, near an estimate from the binary logarithm. -/
def magnitude (m : Nat) (e : Int) : Int :=
  let estimate : Int := ((m.log2 : Int) + e) * 30103 / 100000
  let fits (k : Int) : Bool := compareScaled 1 k m e == .gt
  if fits (estimate - 1) then estimate - 1
  else if fits estimate then estimate
  else if fits (estimate + 1) then estimate + 1
  else estimate + 2

/-- The closest decimal on the grid `10 ^ scale` that reads back, if one does.  The candidates are
the grid's two neighbours of the number; an exact tie goes to the even digit, or up. -/
def onGrid? (tieUp : Bool) (m : Nat) (e : Int) (scale : Int) : Option Scientific :=
  let low := m * Nat.pow 2 e.toNat * Nat.pow 10 (-scale).toNat
    / (Nat.pow 10 scale.toNat * Nat.pow 2 (-e).toNat)
  let below : Scientific := ⟨low, scale⟩
  let above : Scientific := ⟨low + 1, scale⟩
  match readsBack m e below, readsBack m e above with
  | true, true =>
    match compareScaled (2 * low + 1) scale (2 * m) e with
    | .gt => some below
    | .lt => some above
    | .eq => some (if tieUp || low % 2 = 1 then above else below)
  | true, false => some below
  | false, true => some above
  | false, false => none

/-- The digits without trailing zeros; the steps are bounded by the number of digits. -/
def stripZeros : Nat → Scientific → Scientific
  | 0, d => d
  | steps + 1, d =>
    if d.digits ≠ 0 ∧ d.digits % 10 = 0 then stripZeros steps ⟨d.digits / 10, d.scale + 1⟩ else d

/-- The shortest decimal that reads back to `m · 2 ^ e`, the closest of its length.  Seventeen
digits suffice; were none found, the exact value is given. -/
def select (tieUp : Bool) (m : Nat) (e : Int) : Scientific :=
  let k := magnitude m e
  match (List.range 17).findSome? fun n => onGrid? tieUp m e (k - (n + 1 : Nat)) with
  | some d => stripZeros 20 d
  | none => ⟨m * Nat.pow 2 e.toNat * Nat.pow 5 (-e).toNat, min e 0⟩

/-! ## §2. Layout. -/

/-- The decisions of a number format. -/
structure NumberFormat where
  /-- The least decimal exponent of the leading digit that is written positionally. -/
  plainFrom : Int
  /-- The greatest such exponent. -/
  plainTo : Int
  /-- Whether a whole number is followed by a point and a zero. -/
  pointZero : Bool
  /-- Whether an exponent that is not negative has a plus sign. -/
  plusExponent : Bool
  /-- Whether an exact tie between two decimals of the least length goes up. -/
  tieUp : Bool
deriving Repr

namespace NumberFormat

/-- The text of the digits of a selected decimal. -/
def layout (f : NumberFormat) (d : Scientific) : String :=
  let ds := Nat.toDigits 10 d.digits
  let lead : Int := ds.length + d.scale - 1
  if f.plainFrom ≤ lead ∧ lead ≤ f.plainTo then
    if 0 ≤ d.scale then
      String.ofList (ds ++ List.replicate d.scale.toNat '0') ++ (if f.pointZero then ".0" else "")
    else if 0 ≤ lead then
      String.ofList (ds.take (lead.toNat + 1) ++ '.' :: ds.drop (lead.toNat + 1))
    else
      String.ofList ('0' :: '.' :: List.replicate (-lead - 1).toNat '0' ++ ds)
  else
    let mantissa := match ds with
      | c :: r@(_ :: _) => c :: '.' :: r
      | _ => ds
    let plus := if f.plusExponent ∧ 0 ≤ lead then "+" else ""
    String.ofList mantissa ++ "e" ++ plus ++ toString lead

/-- The text of a number. -/
def render (f : NumberFormat) : Binary64 → String
  | .nan => "NaN"
  | .infinite negative => if negative then "-inf" else "inf"
  | .finite negative m e =>
    let sign := if negative then "-" else ""
    if m = 0 then sign ++ (if f.pointZero then "0.0" else "0")
    else sign ++ f.layout (select f.tieUp m e)

end NumberFormat

/-- A number in a data text: positional from 10 ^ (-5) to 10 ^ 15, always with a point or a
signed exponent. -/
def dataFormat : NumberFormat := ⟨-5, 15, true, true, false⟩

/-- A number as plain text: always positional, a whole number without a point. -/
def plainFormat : NumberFormat := ⟨-400, 400, false, false, true⟩

/-- The familiar texts, on both sides of each switch. -/
example : dataFormat.render (.ofDecimal false 1 (-1)) = "0.1"
    ∧ dataFormat.render (.ofDecimal true 5 (-1)) = "-0.5"
    ∧ dataFormat.render (.ofDecimal false 850 0) = "850.0"
    ∧ dataFormat.render (.ofDecimal false 1 16) = "1e+16"
    ∧ dataFormat.render (.ofDecimal false 15 14) = "1500000000000000.0"
    ∧ dataFormat.render (.ofDecimal false 1 (-5)) = "0.00001"
    ∧ dataFormat.render (.ofDecimal false 15 (-7)) = "1.5e-6"
    ∧ dataFormat.render (.ofDecimal true 0 0) = "-0.0"
    ∧ dataFormat.render (.ofDecimal false 5 (-324)) = "5e-324"
    ∧ dataFormat.render (.ofDecimal false 17976931348623157 292) = "1.7976931348623157e+308"
    ∧ dataFormat.render (.ofDecimal false 1 23) = "1e+23"
    ∧ plainFormat.render (.ofDecimal false 1 20) = "100000000000000000000"
    ∧ plainFormat.render (.ofDecimal false 25 (-1)) = "2.5" := by decide +kernel

end Parley.Decimal
