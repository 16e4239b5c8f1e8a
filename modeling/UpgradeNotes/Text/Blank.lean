/-!
# Blanks and trimming

Text is trimmed of every character with the Unicode white-space property, not
of the ASCII blanks alone. The table is small enough to stand here whole.
-/

namespace UpgradeNotes.Text

/-- A character with the Unicode `White_Space` property. -/
def isBlank (c : Char) : Bool :=
  let n := c.toNat
  (9 ≤ n && n ≤ 13) || n == 0x20 || n == 0x85 || n == 0xA0 || n == 0x1680 ||
    (0x2000 ≤ n && n ≤ 0x200A) || n == 0x2028 || n == 0x2029 || n == 0x202F ||
    n == 0x205F || n == 0x3000

/-- The blanks that separate a comment from its node: space, tab, line feed,
form feed and carriage return. -/
def isAsciiBlank (c : Char) : Bool :=
  c == ' ' || c == '\t' || c == '\n' || c == '\x0c' || c == '\r'

/-- Drops the blanks at the start of a character list. -/
def dropBlanks (cs : List Char) : List Char :=
  cs.dropWhile isBlank

/-- Drops the blanks at the end of a character list. -/
def dropBlanksEnd (cs : List Char) : List Char :=
  (cs.reverse.dropWhile isBlank).reverse

/-- The text without the blanks at its end. -/
def trimEnd (s : String) : String :=
  String.ofList (dropBlanksEnd s.toList)

/-- The text without the blanks at either end. -/
def trim (s : String) : String :=
  String.ofList (dropBlanksEnd (dropBlanks s.toList))

/-- The text without any copies of `c` at its start. -/
def dropLeading (c : Char) (s : String) : String :=
  String.ofList (s.toList.dropWhile (· == c))

/-- The text without any copies of `c` at its end. -/
def dropTrailing (c : Char) (s : String) : String :=
  String.ofList (s.toList.reverse.dropWhile (· == c)).reverse

/-- Splits a character list at blanks, keeping the words between them. The
accumulator holds the word being read, last character first. -/
def wordsFrom (word : List Char) : List Char → List (List Char)
  | [] => if word.isEmpty then [] else [word.reverse]
  | c :: cs =>
    if isBlank c then
      if word.isEmpty then wordsFrom [] cs else word.reverse :: wordsFrom [] cs
    else wordsFrom (c :: word) cs

/-- The words of a text, none of them empty. -/
def words (s : String) : List String :=
  (wordsFrom [] s.toList).map String.ofList

/-- The end-trimmed list is a front part of the list. -/
theorem dropBlanksEnd_isPrefix (cs : List Char) : dropBlanksEnd cs <+: cs := by
  have h : cs.reverse.dropWhile isBlank <:+ cs.reverse := List.dropWhile_suffix _
  have := List.reverse_prefix.mpr h
  simpa [dropBlanksEnd] using this

end UpgradeNotes.Text
