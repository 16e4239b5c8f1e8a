import UpgradeNotes.Text.Blank

/-!
# Splitting and searching

Lines, separated parts and occurrences, each by recursion on the characters.
-/

namespace UpgradeNotes.Text

/-- The parts of a character list between the copies of `sep`. There is always
at least one part. -/
def splitChars (sep : Char) : List Char → List (List Char)
  | [] => [[]]
  | c :: cs =>
    if c = sep then [] :: splitChars sep cs
    else match splitChars sep cs with
      | [] => [[c]]
      | part :: parts => (c :: part) :: parts

theorem splitChars_ne_nil (sep : Char) (cs : List Char) : splitChars sep cs ≠ [] := by
  cases cs with
  | nil => simp [splitChars]
  | cons c cs =>
    simp only [splitChars]
    split
    · simp
    · split <;> simp

/-- The parts of a text between the copies of `sep`. -/
def split (sep : Char) (s : String) : List String :=
  (splitChars sep s.toList).map String.ofList

/-- The lines of a character list, each with its line feed. The accumulator
holds the line being read, last character first. -/
def linesWithEnds (line : List Char) : List Char → List (List Char)
  | [] => if line.isEmpty then [] else [line.reverse]
  | c :: cs =>
    if c = '\n' then (c :: line).reverse :: linesWithEnds [] cs
    else linesWithEnds (c :: line) cs

/-- Drops the terminator of a line: a line feed, and a carriage return in front
of it. A carriage return with no line feed behind it stays. -/
def dropLineEnd (line : List Char) : List Char :=
  if line.getLast? = some '\n' then
    let body := line.dropLast
    if body.getLast? = some '\r' then body.dropLast else body
  else line

/-- The lines of a character list without their terminators. A line feed at the
very end starts no further line. -/
def lineChars (cs : List Char) : List (List Char) :=
  (linesWithEnds [] cs).map dropLineEnd

/-- The lines of a text. -/
def lines (s : String) : List String :=
  (lineChars s.toList).map String.ofList

/-- The rest of `cs` after the characters of `lead`, if it starts with them. -/
def stripLead? : List Char → List Char → Option (List Char)
  | [], cs => some cs
  | _ :: _, [] => none
  | l :: ls, c :: cs => if l = c then stripLead? ls cs else none

/-- Stripping succeeds exactly on lists that start with the lead. -/
theorem stripLead?_eq_some {lead cs rest : List Char} :
    stripLead? lead cs = some rest ↔ cs = lead ++ rest := by
  induction lead generalizing cs with
  | nil => simp [stripLead?, eq_comm]
  | cons l ls ih =>
    cases cs with
    | nil => simp [stripLead?]
    | cons c cs =>
      by_cases h : l = c <;> simp [stripLead?, h, ih, eq_comm]

/-- The front of `cs` before a final `tail`, if it ends so. -/
def stripTail? (tail cs : List Char) : Option (List Char) :=
  (stripLead? tail.reverse cs.reverse).map List.reverse

/-- Splits `cs` at the first occurrence of a non-empty `pattern`. -/
def splitFirst? (pattern : List Char) : List Char → Option (List Char × List Char)
  | [] => if pattern.isEmpty then some ([], []) else none
  | c :: cs =>
    match stripLead? pattern (c :: cs) with
    | some rest => some ([], rest)
    | none => (splitFirst? pattern cs).map fun (a, b) => (c :: a, b)

/-- Whether `pattern` occurs in `cs`. -/
def occurs (pattern cs : List Char) : Bool :=
  (splitFirst? pattern cs).isSome

/-- Whether `part` occurs in `s`. -/
def contains (s part : String) : Bool :=
  occurs part.toList s.toList

/-- A split at a pattern gives the pattern back between its two parts. -/
theorem eq_append_of_splitFirst? {p cs a b : List Char} (h : splitFirst? p cs = some (a, b)) :
    cs = a ++ p ++ b := by
  induction cs generalizing a b with
  | nil =>
    simp only [splitFirst?] at h
    split at h
    · rename_i hp
      simp_all
    · simp at h
  | cons c cs ih =>
    simp only [splitFirst?] at h
    split at h
    · rename_i rest hr
      simp only [Option.some.injEq, Prod.mk.injEq] at h
      obtain ⟨rfl, rfl⟩ := h
      simpa using stripLead?_eq_some.1 hr
    · obtain ⟨⟨u, v⟩, hu, he⟩ := Option.map_eq_some_iff.1 h
      simp only [Prod.mk.injEq] at he
      obtain ⟨rfl, rfl⟩ := he
      rw [ih hu]
      simp

/-- Whether the text starts with `lead`. -/
def startsWith (s lead : String) : Bool :=
  (stripLead? lead.toList s.toList).isSome

end UpgradeNotes.Text
