import UpgradeNotes.Text.Bytes
import UpgradeNotes.Text.Case
import UpgradeNotes.Text.Lines

/-!
# Class names

A class is named by its short name (`BuildTask`), by a partly qualified name
(`Dev\BuildTask`) or fully qualified, with or without a leading separator.
`ClassName.fits` says when a class met in code fits a name from a catalog: the
segments of the configured name are the last segments of the actual one. The names
are compared as they stand, cut at byte offsets and not into segments.
-/

namespace UpgradeNotes.ClassName

open UpgradeNotes

/-- Drops the separators in front of a fully qualified name. -/
def dropRoot (name : List Char) : List Char :=
  name.dropWhile (· == '\\')

/-- The name without the separators in front. -/
def unrooted (name : String) : String :=
  String.ofList (dropRoot name.toList)

/-- The key under which a class is known: unrooted and in lower case. -/
def key (name : String) : String :=
  Text.fold (unrooted name)

/-- The last segment of a name. -/
def lastSegment (name : String) : String :=
  String.ofList ((Text.splitChars '\\' name.toList).getLast?.getD [])

/-- The name without its namespace. -/
def short (name : String) : String :=
  lastSegment (unrooted name)

/-- Whether `actual` ends in `configured` after a separator, up to letter case. Letter
case does not change how many bytes a name takes, so the end that is compared is the part
of `actual` that is as long in bytes. None if `actual` is cut inside a character. -/
def endsInSegments? (actual configured : List Char) : Option Bool :=
  if Text.byteLen actual ≤ Text.byteLen configured then some false
  else
    let split := Text.byteLen actual - Text.byteLen configured
    if Text.isBoundary split actual then do
      let (front, tail) ← Text.cut? split actual
      return Text.sameFoldChars tail configured && front.getLast? == some '\\'
    else some false

/-- Whether the class `actual` fits the name `configured`: both are equal up to
letter case, or `actual` ends in a separator followed by `configured`. Nothing
fits the empty name. None if the comparison breaks down. -/
def fits? (actual configured : String) : Option Bool :=
  let a := dropRoot actual.toList
  let c := dropRoot configured.toList
  if c.isEmpty then some false
  else if Text.sameFoldChars a c then some true
  else endsInSegments? a c

/-- Whether the class `actual` fits the name `configured`. The comparison never breaks
down. -/
def fits (actual configured : String) : Bool :=
  (fits? actual configured).getD false

/-- Whether the name has more than one segment. -/
def isQualified (name : String) : Bool :=
  name.toList.contains '\\'

end UpgradeNotes.ClassName
