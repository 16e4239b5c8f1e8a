import UpgradeNotes.Decimal.Reading
import UpgradeNotes.Yaml.Token
import UpgradeNotes.Yaml.Value

/-!
# Plain scalars as values

A scalar without quotes and tag is null, a truth value or a number if it is
written as one, and a text otherwise. Digits behind a leading zero are a text.
-/

namespace UpgradeNotes.Yaml

/-- What reading a scalar as a number gives. -/
inductive Reading where
  | number (n : Number)
  /-- A whole number beyond 64 bits, which no value can hold. -/
  | tooLarge
  | none

/-- Whether the text writes null. -/
def isNullText (s : String) : Bool :=
  s == "null" || s == "Null" || s == "NULL" || s == "~"

/-- The truth value that the text writes. -/
def bool? (s : String) : Option Bool :=
  if s == "true" || s == "True" || s == "TRUE" then some true
  else if s == "false" || s == "False" || s == "FALSE" then some false
  else none

/-- Whether the text is digits behind a leading zero, with an optional sign. -/
def isPaddedDigits (cs : List Char) : Bool :=
  let cs := match cs with
    | '-' :: rest => rest
    | '+' :: rest => rest
    | _ => cs
  match cs with
  | '0' :: d :: rest => (d :: rest).all Char.isDigit
  | _ => false

/-- A whole number in a base that a letter behind a zero names. -/
def based? (cs : List Char) : Option Nat :=
  match cs with
  | '0' :: 'x' :: ds => Decimal.nat? 16 ds
  | '0' :: 'o' :: ds => Decimal.nat? 8 ds
  | '0' :: 'b' :: ds => Decimal.nat? 2 ds
  | _ => none

/-- A whole number without its sign. -/
def magnitude? (cs : List Char) : Option Nat :=
  match based? cs with
  | some n => some n
  | none => if isPaddedDigits cs then none else Decimal.nat? 10 cs

/-- Reads a whole number. Magnitudes that even 128 bits do not hold are no whole
numbers. -/
def readInt (cs : List Char) : Reading :=
  match cs with
  | '-' :: ds =>
    match magnitude? ds with
    | some n =>
      if n ≤ Nat.pow 2 63 then .number (.int (-(n : Int)))
      else if n ≤ Nat.pow 2 127 then .tooLarge else .none
    | none => .none
  | _ =>
    let ds := match cs with
      | '+' :: rest => rest
      | _ => cs
    match magnitude? ds with
    | some n =>
      if n < Nat.pow 2 64 then .number (.int n)
      else if n < Nat.pow 2 128 then .tooLarge else .none
    | none => .none

/-- Reads a fraction, an infinity or what is no number. -/
def readFloat? (s : String) : Option Float :=
  let inf : Float := 1.0 / 0.0
  if [".inf", ".Inf", ".INF", "+.inf", "+.Inf", "+.INF"].contains s then some inf
  else if ["-.inf", "-.Inf", "-.INF"].contains s then some (-inf)
  else if [".nan", ".NaN", ".NAN"].contains s then some (0.0 / 0.0)
  else match Decimal.float? s.toList with
    | some x => if x.isFinite then some x else none
    | none => none

/-- The value of a plain scalar, none if it is a whole number that is too
large. -/
def Value.ofPlain? (s : String) : Option Value :=
  if s.isEmpty || isNullText s then some .null
  else match bool? s with
    | some b => some (.bool b)
    | none =>
      match readInt s.toList with
      | .number n => some (.number n)
      | .tooLarge => none
      | .none =>
        if isPaddedDigits s.toList then some (.string s)
        else match readFloat? s with
          | some x => some (.number (.float x))
          | none => some (.string s)

/-- The lead of the tags that the format itself defines. -/
def standardLead : String := "tag:yaml.org,2002:"

/-- The value of a scalar without a tag. -/
def Value.untagged? (plain : Bool) (text : String) : Option Value :=
  if plain then ofPlain? text else some (.string text)

/-- The value of a scalar under an optional tag. The tags for truth values,
numbers and null force a reading, and every other global tag makes a text. A
local tag stays with the value, if it can be read. -/
def Value.ofScalar? (tag : Option TagText) (plain : Bool) (text : String) : Option Value :=
  match tag with
  | none => untagged? plain text
  | some tag =>
    if tag.text == standardLead ++ "bool" then (bool? text).map .bool
    else if tag.text == standardLead ++ "int" then
      match readInt text.toList with
      | .number n => some (.number n)
      | _ => none
    else if tag.text == standardLead ++ "float" then
      (readFloat? text).map fun x => .number (.float x)
    else if tag.text == standardLead ++ "null" then
      if isNullText text then some .null else none
    else if tag.isLocal then
      match tag.localName? with
      | some name => (untagged? plain text).map (.tagged name)
      | none => untagged? plain text
    else some (.string text)

/-- The value of a collection under an optional tag. Only a local tag stays. -/
def Value.underTag (tag : Option TagText) (v : Value) : Value :=
  match tag.bind TagText.localName? with
  | some name => .tagged name v
  | none => v

end UpgradeNotes.Yaml
