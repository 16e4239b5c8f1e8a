/-!
# Reading decimals

The binary64 number nearest to a written decimal, and whole numbers written in
a base.
-/

namespace UpgradeNotes.Decimal

/-- The value of a digit in bases up to sixteen. -/
def digitValue? (c : Char) : Option Nat :=
  if '0' ≤ c && c ≤ '9' then some (c.toNat - '0'.toNat)
  else if 'a' ≤ c && c ≤ 'f' then some (c.toNat - 'a'.toNat + 10)
  else if 'A' ≤ c && c ≤ 'F' then some (c.toNat - 'A'.toNat + 10)
  else none

/-- The number that some digits write in a base, read on from `acc`. -/
def natFrom? (base acc : Nat) : List Char → Option Nat
  | [] => some acc
  | c :: cs =>
    match digitValue? c with
    | some d => if d < base then natFrom? base (acc * base + d) cs else none
    | none => none

/-- The number that some digits write in a base. There has to be a digit. -/
def nat? (base : Nat) (cs : List Char) : Option Nat :=
  if cs.isEmpty then none else natFrom? base 0 cs

/-- The number nearest to `digits * 10 ^ exponent`. Magnitudes far outside the
range of binary64 are settled without computing the power. -/
def nearestFloat (digits : Nat) (exponent : Int) : Float :=
  let places : Int := (Nat.toDigits 10 digits).length
  if digits = 0 || places + exponent < -400 then 0.0
  else if 400 < places + exponent then 1.0 / 0.0
  else Float.ofScientific digits (exponent < 0) exponent.natAbs

/-- An exponent behind its mark, with an optional sign. -/
def exponent? (cs : List Char) : Option Int :=
  match cs with
  | '-' :: ds => (nat? 10 ds).map fun n => -(n : Int)
  | '+' :: ds => (nat? 10 ds).map fun n => (n : Int)
  | ds => (nat? 10 ds).map fun n => (n : Int)

/-- The number written by digits with an optional point and exponent. A digit
has to stand on one side of the point at least. -/
def unsignedFloat? (cs : List Char) : Option Float :=
  let (mantissa, tail) := cs.span fun c => c != 'e' && c != 'E'
  let (whole, rest) := mantissa.span (· != '.')
  let fraction := rest.drop 1
  match nat? 10 (whole ++ fraction) with
  | none => none
  | some digits =>
    let exponent := match tail with
      | [] => some 0
      | _ :: ds => exponent? ds
    exponent.map fun e => nearestFloat digits (e - fraction.length)

/-- The number that a text writes, with an optional sign. -/
def float? : List Char → Option Float
  | '-' :: cs => (unsignedFloat? cs).map fun x => -x
  | '+' :: cs => unsignedFloat? cs
  | cs => unsignedFloat? cs

end UpgradeNotes.Decimal
