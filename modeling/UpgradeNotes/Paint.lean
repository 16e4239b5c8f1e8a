import UpgradeNotes.Text.Lines

/-!
# Colours of a terminal

Text in the escape codes that a terminal shows as a style. Where the text itself
ends a style, the style is set again behind it.
-/

namespace UpgradeNotes.Paint

/-- A style of text. -/
inductive Style where
  | bold
  | dimmed
  | boldUnderline
  | red
  | green
  | yellow
  | cyan
deriving DecidableEq

/-- The numbers that select a style. -/
def Style.codes : Style → String
  | bold => "1"
  | dimmed => "2"
  | boldUnderline => "1;4"
  | red => "31"
  | green => "32"
  | yellow => "33"
  | cyan => "36"

/-- The code that ends all styles. -/
def reset : String := "\x1b[0m"

/-- Sets a style again behind each end of styles in a text, with fuel for each
character. -/
def resume (start : List Char) : Nat → List Char → List Char
  | 0, cs => cs
  | fuel + 1, cs =>
    match Text.splitFirst? reset.toList cs with
    | none => cs
    | some (before, after) => before ++ reset.toList ++ start ++ resume start fuel after

/-- A text in a style, or as it is where colours are off. -/
def paint (colors : Bool) (style : Style) (text : String) : String :=
  if colors then
    let start := "\x1b[" ++ style.codes ++ "m"
    start ++ String.ofList (resume start.toList text.length text.toList) ++ reset
  else text

/-- Whether a variable of the environment is set to something other than zero,
if it is set. -/
def isOn (setting : Option String) : Option Bool :=
  setting.map (· != "0")

/-- Whether colours are wanted: if they are forced, else unless they are refused,
on a terminal that is not told otherwise. -/
def wanted (terminal : Bool) (allowed forced refused : Option String) : Bool :=
  if isOn forced = some true then true
  else if refused.isSome then false
  else terminal && (isOn allowed).getD true

/-- A text with blanks behind it up to a width. -/
def padded (width : Nat) (text : String) : String :=
  text ++ String.ofList (List.replicate (width - text.length) ' ')

end UpgradeNotes.Paint
