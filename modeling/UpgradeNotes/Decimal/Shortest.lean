/-!
# Shortest decimals

The shortest decimal that reads back as a given binary fraction. A positive
value `m * 2 ^ q` stands for an interval of reals: those that are nearer to it
than to its neighbours, with the ends if `m` is even. For one digit, two digits
and so on the two decimals around the value are tried, and the first number of
digits with a decimal in the interval wins. All comparisons are exact.
-/

namespace UpgradeNotes

/-- A positive decimal `digits * 10 ^ exponent`. -/
structure Decimal where
  digits : Nat
  exponent : Int
deriving DecidableEq, Repr

namespace Decimal

/-- The reals that round to a value, as fractions over one denominator. -/
structure Interval where
  /-- The value itself. -/
  value : Nat
  /-- The lower end. -/
  low : Nat
  /-- The upper end. -/
  high : Nat
  /-- The common denominator. -/
  den : Nat
  /-- Whether the ends belong to the interval. -/
  closed : Bool

/-- The interval of `m * 2 ^ q`, where `narrow` says that the gap below is half
as wide as the gap above. -/
def Interval.ofBinary (m : Nat) (q : Int) (narrow : Bool) : Interval :=
  let shift := q - 2
  let up := Nat.pow 2 shift.toNat
  { value := 4 * m * up
    low := (if narrow then 4 * m - 1 else 4 * m - 2) * up
    high := (4 * m + 2) * up
    den := Nat.pow 2 (-shift).toNat
    closed := m % 2 == 0 }

/-- Whether the decimal lies in the interval. -/
def Interval.holds (i : Interval) (d : Decimal) : Bool :=
  let up := Nat.pow 10 d.exponent.toNat
  let down := Nat.pow 10 (-d.exponent).toNat
  let x := d.digits * up * i.den
  if i.closed then decide (i.low * down ≤ x) && decide (x ≤ i.high * down)
  else decide (i.low * down < x) && decide (x < i.high * down)

/-- The least `k`, counted from `k`, with `den ≤ num * 10 ^ k`. -/
def scaleUp (num den : Nat) : Nat → Nat → Nat
  | 0, k => k
  | fuel + 1, k => if den ≤ num * Nat.pow 10 k then k else scaleUp num den fuel (k + 1)

/-- The exponent of the first decimal digit of `num / den`. -/
def leadExponent (num den : Nat) : Int :=
  if den ≤ num then (Nat.toDigits 10 (num / den)).length - 1
  else -(scaleUp num den 400 1 : Int)

/-- The decimal of `n` digits in the interval that is nearest to its value. -/
def Interval.nearest? (i : Interval) (lead : Int) (n : Nat) : Option Decimal :=
  let exponent := lead - n + 1
  let up := Nat.pow 10 exponent.toNat
  let down := Nat.pow 10 (-exponent).toNat
  let below := i.value * down / (up * i.den)
  let lower : Decimal := ⟨below, exponent⟩
  let upper : Decimal := ⟨below + 1, exponent⟩
  let toLower := i.value * down - below * up * i.den
  let toUpper := (below + 1) * up * i.den - i.value * down
  match i.holds lower, i.holds upper with
  | true, true =>
    if toLower < toUpper || (toLower == toUpper && below % 2 == 0) then some lower else some upper
  | true, false => some lower
  | false, true => some upper
  | false, false => none

/-- Tries `n` digits and more. -/
def Interval.search (i : Interval) (lead : Int) : Nat → Nat → Option Decimal
  | 0, _ => none
  | fuel + 1, n =>
    match i.nearest? lead n with
    | some d => some d
    | none => i.search lead fuel (n + 1)

/-- Drops the zeros at the end of the digits. -/
def dropZeros : Nat → Decimal → Decimal
  | 0, d => d
  | fuel + 1, d =>
    if d.digits % 10 == 0 && d.digits != 0 then
      dropZeros fuel ⟨d.digits / 10, d.exponent + 1⟩
    else d

/-- The shortest decimal that reads back as `m * 2 ^ q`. -/
def shortest (m : Nat) (q : Int) (narrow : Bool) : Decimal :=
  let i := Interval.ofBinary m q narrow
  let d := (i.search (leadExponent i.value i.den) 17 1).getD ⟨m, 0⟩
  d.dropZeros 20

/-- The number of fractions that binary64 has for each exponent. -/
def fractionSize : Nat :=
  Nat.pow 2 52

/-- The shortest decimal of a positive finite number in binary64. -/
def ofFloat (x : Float) : Decimal :=
  let bits : Nat := x.toBits.toNat
  let fraction := bits % fractionSize
  let exponent := bits / fractionSize % 2048
  if exponent == 0 then shortest fraction (-1074) false
  else shortest (fractionSize + fraction) ((exponent : Int) - 1075) (fraction == 0 && exponent > 1)

end Decimal

end UpgradeNotes
