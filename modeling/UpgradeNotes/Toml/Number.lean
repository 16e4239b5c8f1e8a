import UpgradeNotes.Toml.Text
import UpgradeNotes.Toml.Value

/-!
# Numbers and dates of TOML
-/

namespace UpgradeNotes.Toml

/-- Digits of a kind with single underscores between them, not empty. -/
def digits? (digit : Char → Bool) : List Char → Option (List Char × List Char)
  | [] => none
  | c :: cs => if digit c then some (further c cs) else none
where
  /-- The digits from `c` on. -/
  further (c : Char) : List Char → List Char × List Char
    | '_' :: d :: cs =>
      if digit d then
        let (ds, rest) := further d cs
        (c :: ds, rest)
      else ([c], '_' :: d :: cs)
    | d :: cs =>
      if digit d then
        let (ds, rest) := further d cs
        (c :: ds, rest)
      else ([c], d :: cs)
    | [] => ([c], [])

/-- A whole number in a base, behind its mark. -/
def based? (base : Nat) (cs : List Char) : Option (Value × List Char) := do
  let (ds, rest) ← digits? (fun c => (Decimal.digitValue? c).any (· < base)) cs
  let n ← Decimal.nat? base ds
  if (n : Int) ≤ Int64.maxValue.toInt then some (.integer n, rest) else none

/-- The digits of a decimal number. A zero in front stands alone. -/
def decimalDigits? (cs : List Char) : Option (List Char × List Char) :=
  match cs with
  | '0' :: rest => some (['0'], rest)
  | _ => digits? Char.isDigit cs

/-- The exponent of a number, if there is one. -/
def exponent? (cs : List Char) : Option (Option Int × List Char) :=
  match cs with
  | e :: rest =>
    if e == 'e' || e == 'E' then
      let (negative, rest) := match rest with
        | '-' :: more => (true, more)
        | '+' :: more => (false, more)
        | _ => (false, rest)
      match digits? Char.isDigit rest with
      | none => none
      | some (ds, rest) =>
        (Decimal.nat? 10 ds).map fun n => (some (if negative then -(n : Int) else n), rest)
    else some (none, cs)
  | [] => some (none, [])

/-- A decimal number without its sign. Positive fractions beyond the range of
binary64 and whole numbers beyond 64 bits are refused. -/
def decimal? (negative : Bool) (cs : List Char) : Option (Value × List Char) := do
  let (whole, rest) ← decimalDigits? cs
  let (fraction, rest) ← match rest with
    | '.' :: more => (digits? Char.isDigit more).map fun (ds, rest) => (ds, rest)
    | _ => some ([], rest)
  let (exponent, rest) ← exponent? rest
  let n ← Decimal.nat? 10 (whole ++ fraction)
  if fraction.isEmpty && exponent.isNone then
    let value : Int := if negative then -(n : Int) else n
    if Int64.minValue.toInt ≤ value && value ≤ Int64.maxValue.toInt then
      some (.integer value, rest)
    else none
  else
    let size := Decimal.nearestFloat n (exponent.getD 0 - fraction.length)
    if negative || size.isFinite then some (.float (if negative then -size else size), rest) else none

/-- A number behind its sign. -/
def unsigned? (negative : Bool) (cs : List Char) : Option (Value × List Char) :=
  match cs with
  | 'i' :: 'n' :: 'f' :: rest =>
    let inf : Float := 1.0 / 0.0
    some (.float (if negative then -inf else inf), rest)
  | 'n' :: 'a' :: 'n' :: rest => some (.float (0.0 / 0.0), rest)
  | _ => decimal? negative cs

/-- A number. -/
def number? (cs : List Char) : Option (Value × List Char) :=
  match cs with
  | '+' :: rest => unsigned? false rest
  | '-' :: rest => unsigned? true rest
  | '0' :: 'x' :: rest => based? 16 rest
  | '0' :: 'o' :: rest => based? 8 rest
  | '0' :: 'b' :: rest => based? 2 rest
  | _ => unsigned? false cs

/-! ## Dates -/

/-- A number of exactly `n` digits within bounds. -/
def fixed? (n least most : Nat) (cs : List Char) : Option (Nat × List Char) := do
  let ds := cs.take n
  if ds.length = n && ds.all Char.isDigit then
    let value ← Decimal.nat? 10 ds
    if least ≤ value && value ≤ most then some (value, cs.drop n) else none
  else none

/-- What is behind a character that has to be there. -/
def after? (c : Char) : List Char → Option (List Char)
  | d :: cs => if c == d then some cs else none
  | [] => none

/-- The number of days of a month. -/
def daysOf (year month : Nat) : Nat :=
  if month = 2 then
    if year % 4 = 0 && (year % 100 ≠ 0 || year % 400 = 0) then 29 else 28
  else if [4, 6, 9, 11].contains month then 30
  else 31

/-- The characters in front of the rest of a list. -/
def before (cs rest : List Char) : List Char :=
  cs.take (cs.length - rest.length)

/-- A day of the calendar, as written. -/
def day? (cs : List Char) : Option (List Char × List Char) := do
  let (year, rest) ← fixed? 4 0 9999 cs
  let rest ← after? '-' rest
  let (month, rest) ← fixed? 2 1 12 rest
  let rest ← after? '-' rest
  let (_, rest) ← fixed? 2 1 (daysOf year month) rest
  return (before cs rest, rest)

/-- The fraction of a second in normal form: at most nine digits, and no zeros at
the end. -/
def fractionText (digits : List Char) : List Char :=
  match ((digits.take 9).reverse.dropWhile (· == '0')).reverse with
  | [] => []
  | ds => '.' :: ds

/-- A time of day in normal form. -/
def time? (cs : List Char) : Option (List Char × List Char) := do
  let (_, rest) ← fixed? 2 0 23 cs
  let rest ← after? ':' rest
  let (_, rest) ← fixed? 2 0 59 rest
  let rest ← after? ':' rest
  let (_, rest) ← fixed? 2 0 60 rest
  let clock := before cs rest
  match rest with
  | '.' :: more =>
    let (ds, behind) := more.span Char.isDigit
    if ds.isEmpty then return (clock, rest) else return (clock ++ fractionText ds, behind)
  | _ => return (clock, rest)

/-- An offset from universal time in normal form, if there is one. -/
def offset? (cs : List Char) : Option (List Char × List Char) :=
  match cs with
  | 'Z' :: rest => some (['Z'], rest)
  | 'z' :: rest => some (['Z'], rest)
  | sign :: digits =>
    if sign == '+' || sign == '-' then do
      let (hours, rest) ← fixed? 2 0 23 digits
      let rest ← after? ':' rest
      let (minutes, rest) ← fixed? 2 0 59 rest
      let sign := if hours = 0 && minutes = 0 then '+' else sign
      return (sign :: before digits rest, rest)
    else some ([], cs)
  | [] => some ([], [])

/-- Whether a day or a time seems to start here. -/
def startsDate (cs : List Char) : Bool :=
  (((cs.take 4).all Char.isDigit && cs[4]? == some '-')) ||
    ((cs.take 2).all Char.isDigit && cs[2]? == some ':')

/-- A day and a time with an optional offset, given the day and what is behind the
mark between them. -/
def moment? (day cs : List Char) : Option (List Char × List Char) := do
  let (time, rest) ← time? cs
  let (offset, rest) ← offset? rest
  return (day ++ 'T' :: time ++ offset, rest)

/-- The text of a date: a day, a time, or both. -/
def dateText? (cs : List Char) : Option (List Char × List Char) :=
  if cs[2]? == some ':' then time? cs
  else do
    let (day, rest) ← day? cs
    match rest with
    | mark :: more =>
      if mark == 'T' || mark == 't' || (mark == ' ' && more.head?.any Char.isDigit) then
        moment? day more
      else return (day, rest)
    | [] => return (day, [])

/-- A date. -/
def date? (cs : List Char) : Option (Value × List Char) :=
  (dateText? cs).map fun (text, rest) => (.date (String.ofList text), rest)

end UpgradeNotes.Toml
