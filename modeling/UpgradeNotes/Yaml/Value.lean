import UpgradeNotes.Decimal.Shortest

/-!
# YAML values

The data of a YAML document, with numbers as exact integers or binary64
numbers, and the text that stands for a scalar.
-/

namespace UpgradeNotes.Yaml

/-- A number. -/
inductive Number where
  | int (n : Int)
  | float (x : Float)

/-- A value of a document. -/
inductive Value where
  | null
  | bool (b : Bool)
  | number (n : Number)
  | string (s : String)
  | sequence (items : List Value)
  | mapping (entries : List (Value × Value))
  /-- A value under a local tag. -/
  | tagged (tag : String) (value : Value)

instance : Inhabited Value := ⟨.null⟩

namespace Number

/-- Writes `digits * 10 ^ exponent`: positional up to sixteen places before the
point and five zeros behind it, with an exponent beyond. A whole number keeps
one zero behind the point. -/
def renderDecimal (d : Decimal) : String :=
  let ds := Nat.toDigits 10 d.digits
  let point : Int := d.exponent + ds.length
  if 0 ≤ d.exponent && point ≤ 16 then
    String.ofList (ds ++ List.replicate d.exponent.toNat '0') ++ ".0"
  else if 0 < point && point ≤ 16 then
    String.ofList (ds.take point.toNat) ++ "." ++ String.ofList (ds.drop point.toNat)
  else if -5 < point && point ≤ 0 then
    "0." ++ String.ofList (List.replicate (-point).toNat '0' ++ ds)
  else
    let tail := if ds.length ≤ 1 then "" else "." ++ String.ofList (ds.drop 1)
    String.ofList (ds.take 1) ++ tail ++ "e" ++ toString (point - 1)

/-- The text of a number. -/
def render : Number → String
  | int n => toString n
  | float x =>
    if x.isNaN then ".nan"
    else
      let sign := if x.toBits.toNat ≥ Nat.pow 2 63 then "-" else ""
      let size := x.abs
      if x.isInf then sign ++ ".inf"
      else if size.toBits == 0 then sign ++ "0.0"
      else sign ++ renderDecimal (Decimal.ofFloat size)

/-- Whether two numbers are the same key: a whole number is no fraction, and
what is no number is the same as itself. -/
def same : Number → Number → Bool
  | int a, int b => a == b
  | float x, float y => x == y || (x.isNaN && y.isNaN)
  | _, _ => false

/-- The number as a 64-bit signed integer, if it is one. -/
def toInt64? : Number → Option Int
  | int n => if Int64.minValue.toInt ≤ n && n ≤ Int64.maxValue.toInt then some n else none
  | float _ => none

end Number

namespace Value

/-- The text of a scalar, none for anything else. -/
def scalarText? : Value → Option String
  | string s => some s
  | number n => some n.render
  | bool true => some "true"
  | bool false => some "false"
  | _ => none

/-- The value under a text key of some entries. -/
def lookup? (key : String) : List (Value × Value) → Option Value
  | [] => none
  | (string k, v) :: rest => if k = key then some v else lookup? key rest
  | _ :: rest => lookup? key rest

/-- The value under the first of some keys that is there. -/
def lookupFirst? (entries : List (Value × Value)) : List String → Option Value
  | [] => none
  | key :: keys =>
    match lookup? key entries with
    | some v => some v
    | none => lookupFirst? entries keys

mutual

/-- Whether two values are the same key. The order of a mapping does not
matter. -/
def same : Value → Value → Bool
  | null, null => true
  | bool a, bool b => a == b
  | number a, number b => a.same b
  | string a, string b => a == b
  | sequence as, sequence bs => sameItems as bs
  | mapping as, mapping bs => as.length == bs.length && sameEntries as bs
  | tagged s a, tagged t b => s == t && same a b
  | _, _ => false

/-- Whether two lists hold the same values in order. -/
def sameItems : List Value → List Value → Bool
  | [], [] => true
  | a :: as, b :: bs => same a b && sameItems as bs
  | _, _ => false

/-- Whether each of the first entries is among the second. -/
def sameEntries : List (Value × Value) → List (Value × Value) → Bool
  | [], _ => true
  | (k, v) :: rest, bs => bs.any (fun (k', v') => same k k' && same v v') && sameEntries rest bs

end

end Value

end UpgradeNotes.Yaml
