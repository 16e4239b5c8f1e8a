import UpgradeNotes.Text.Bytes

/-!
# Edits

An edit replaces the bytes between two offsets of a source. Edits are given
against the source as it is; they are checked against each other from the last
to the first and then carried out in that order, so that earlier offsets stay
valid.
-/

namespace UpgradeNotes

/-- A replacement of part of a source. -/
structure Edit where
  /-- The byte offset where the replaced part starts. -/
  start : Nat
  /-- The byte offset where it ends. -/
  stop : Nat
  /-- The text that takes its place. -/
  text : String
  /-- The lines that the edit adds. -/
  message : String := ""
deriving DecidableEq

namespace Edit

/-- An edit that inserts text at an offset. -/
def insertion (offset : Nat) (text : String) (message : String := "") : Edit :=
  ⟨offset, offset, text, message⟩

/-- Whether the edit replaces nothing. -/
def isInsertion (e : Edit) : Bool :=
  e.start == e.stop

/-- What can be wrong with some edits. -/
inductive Error where
  /-- Two edits replace the same bytes. -/
  | overlapping (offset : Nat)
  /-- An edit leaves the source, or ends before it starts. -/
  | outOfBounds (start stop size : Nat)
  /-- An edit cuts through a character. -/
  | insideCharacter
deriving DecidableEq

/-- The text that reports an error. -/
def Error.message : Error → String
  | overlapping offset => "Overlapping edits detected at offset " ++ toString offset
  | outOfBounds start stop size =>
    "Edit span " ++ toString start ++ ".." ++ toString stop ++
      " out of bounds for source length " ++ toString size
  | insideCharacter => "Edit cuts through a character"

/-- Puts an edit into a list ordered by falling start. Among equal starts the
one that was given later comes first. -/
def insertLast (e : Edit) : List Edit → List Edit
  | [] => [e]
  | x :: xs => if x.start ≤ e.start then e :: x :: xs else x :: insertLast e xs

/-- The edits from the last one to the first one. -/
def fromLast (edits : List Edit) : List Edit :=
  edits.foldl (fun sorted e => insertLast e sorted) []

/-- The first fault of edits in order from the last one, where `limit` is the
start of the edit before. -/
def fault? (size : Nat) (limit : Option Nat) : List Edit → Option Error
  | [] => none
  | e :: rest =>
    if size < e.stop || e.stop < e.start then some (.outOfBounds e.start e.stop size)
    else if limit.any (· < e.stop) then some (.overlapping e.start)
    else fault? size (some e.start) rest

/-- Replaces the part of the source that one edit names. -/
def replace? (source : List Char) (e : Edit) : Option (List Char) := do
  let (front, rest) ← Text.cut? e.start source
  let (_, back) ← Text.cut? (e.stop - e.start) rest
  return front ++ e.text.toList ++ back

/-- Carries out edits one after the other. -/
def replaceAll? (source : List Char) : List Edit → Option (List Char)
  | [] => some source
  | e :: rest => do replaceAll? (← replace? source e) rest

/-- The source with all edits carried out. -/
def applyAll (source : String) (edits : List Edit) : Except Error String :=
  let sorted := fromLast edits
  match fault? (Text.size source) none sorted with
  | some fault => .error fault
  | none =>
    match replaceAll? source.toList sorted with
    | some result => .ok (String.ofList result)
    | none => .error .insideCharacter

end Edit

end UpgradeNotes
