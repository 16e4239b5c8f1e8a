/-!
# Patterns for paths

A question mark stands for one character and a star for any number of them, a
slash included. Two stars as a whole segment stand for any number of segments.
Brackets hold characters and ranges, after an exclamation mark those that are
left out.
-/

namespace UpgradeNotes.Glob

/-- A character or a range of them. -/
inductive Range where
  | one (c : Char)
  | between (first last : Char)
deriving DecidableEq

/-- Whether the range holds a character. -/
def Range.holds (r : Range) (c : Char) : Bool :=
  match r with
  | one d => c == d
  | between first last => first ≤ c && c ≤ last

/-- A part of a pattern. -/
inductive Part where
  | char (c : Char)
  | anyChar
  | anyText
  /-- Any number of whole segments. -/
  | anySegments
  | within (ranges : List Range)
  | outside (ranges : List Range)
deriving DecidableEq

/-- The ranges between two brackets. -/
def ranges : List Char → List Range
  | [] => []
  | a :: '-' :: b :: rest => .between a b :: ranges rest
  | a :: rest => .one a :: ranges rest

/-- The characters in brackets, behind the opening one. The first character never
closes them. -/
def bracket? : List Char → Option (Part × List Char)
  | '!' :: c :: rest => (closed? rest).map fun (cs, rest) => (.outside (ranges (c :: cs)), rest)
  | '!' :: [] => none
  | c :: rest => (closed? rest).map fun (cs, rest) => (.within (ranges (c :: cs)), rest)
  | [] => none
where
  /-- The characters up to a closing bracket, and what is behind it. -/
  closed? (cs : List Char) : Option (List Char × List Char) :=
    match cs.span (· != ']') with
    | (inside, _ :: rest) => some (inside, rest)
    | (_, []) => none

/-- What two stars stand for, in front of `rest`. They have to fill a segment. -/
def recursive? (before : Option Char) (rest : List Char) : Option (List Char) :=
  if before == none || before == some '/' then
    match rest with
    | [] => some []
    | '/' :: more => some more
    | _ => none
  else none

/-- The parts of a pattern, read on behind the character `before`, with fuel for
each of its characters. -/
def partsFrom : Nat → Option Char → List Char → Option (List Part)
  | 0, _, _ => some []
  | _, _, [] => some []
  | fuel + 1, before, c :: cs =>
    match c with
    | '?' => (partsFrom fuel (some c) cs).map (.anyChar :: ·)
    | '*' =>
      let stars := (c :: cs).takeWhile (· == '*')
      let rest := (c :: cs).dropWhile (· == '*')
      match stars.length with
      | 1 => (partsFrom fuel (some c) rest).map (.anyText :: ·)
      | 2 =>
        match recursive? before rest with
        | some more => (partsFrom fuel (some '/') more).map (.anySegments :: ·)
        | none => none
      | _ => none
    | '[' =>
      match bracket? cs with
      | some (part, rest) => (partsFrom fuel (some ']') rest).map (part :: ·)
      | none => none
    | _ => (partsFrom fuel (some c) cs).map (.char c :: ·)

/-- The parts of a pattern, none if it is malformed. -/
def parse? (pattern : String) : Option (List Part) :=
  partsFrom pattern.length none pattern.toList

/-- All ends of a list, itself and the empty one included. -/
def ends : List Char → List (List Char)
  | [] => [[]]
  | c :: cs => (c :: cs) :: ends cs

/-- The ends of a list where a segment starts, itself and the empty one
included. -/
def segmentEnds (cs : List Char) : List (List Char) :=
  cs :: further cs
where
  /-- The ends behind a slash, and the empty one. -/
  further : List Char → List (List Char)
    | [] => [[]]
    | c :: cs => if c == '/' then cs :: further cs else further cs

/-- Whether the parts of a pattern make up a text. -/
def fits : List Part → List Char → Bool
  | [], cs => cs.isEmpty
  | .anyText :: parts, cs => (ends cs).any (fits parts)
  | .anySegments :: parts, cs => (segmentEnds cs).any (fits parts)
  | _ :: _, [] => false
  | .char d :: parts, c :: cs => c == d && fits parts cs
  | .anyChar :: parts, _ :: cs => fits parts cs
  | .within rs :: parts, c :: cs => rs.any (·.holds c) && fits parts cs
  | .outside rs :: parts, c :: cs => !rs.any (·.holds c) && fits parts cs

end UpgradeNotes.Glob
