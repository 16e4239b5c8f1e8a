/-!
# Lines and columns

The line and the column of a byte offset, both counted from one. Columns count
characters.
-/

namespace UpgradeNotes.Text

/-- A line and a column. -/
structure Position where
  line : Nat
  column : Nat
deriving DecidableEq, Repr

namespace Position

/-- The position behind a character. -/
def next (p : Position) (c : Char) : Position :=
  if c = '\n' then ⟨p.line + 1, 1⟩ else ⟨p.line, p.column + 1⟩

/-- The position `offset` bytes on from `p`. -/
def advance (p : Position) : Nat → List Char → Position
  | _, [] => p
  | 0, _ => p
  | offset@(_ + 1), c :: cs => advance (p.next c) (offset - c.utf8Size) cs

/-- The position of a byte offset in a text. -/
def ofOffset (cs : List Char) (offset : Nat) : Position :=
  advance ⟨1, 1⟩ offset cs

end Position

end UpgradeNotes.Text
