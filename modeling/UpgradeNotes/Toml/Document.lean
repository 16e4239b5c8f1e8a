import UpgradeNotes.Toml.Number

/-!
# Documents

A document is a table written line by line. A header opens a table that may be
opened once only; a table that a longer header or a dotted key has created
may still be opened, the latter only by the keys beside it. Values in
braces or brackets are closed: nothing can be added to them.
-/

namespace UpgradeNotes.Toml

/-- How a table came about. -/
inductive Origin where
  /-- By its own header. -/
  | header
  /-- As a part of a longer header. -/
  | implied
  /-- As a part of a dotted key. -/
  | dotted
deriving DecidableEq

/-- A part of a document that is being read. -/
inductive Node where
  | value (v : Value)
  | table (origin : Origin) (entries : List (String × Node))
  /-- The tables of a repeated header, last one first. -/
  | tables (last : List (String × Node)) (before : List (List (String × Node)))

/-- The entries of a table that is being read. -/
abbrev Entries := List (String × Node)

namespace Node

/-- Puts an entry in the place of the one of its key, or at the end. -/
def put (key : String) (node : Node) : Entries → Entries
  | [] => [(key, node)]
  | (k, n) :: rest => if k = key then (key, node) :: rest else (k, n) :: put key node rest

/-- Changes the table at the end of a path of header parts, which are created
as needed. -/
def atPath (path : List String) (change : Entries → Option Entries) (entries : Entries) :
    Option Entries :=
  match path with
  | [] => change entries
  | key :: path =>
    match entries.lookup key with
    | none => (atPath path change []).map fun inner => put key (.table .implied inner) entries
    | some (.table origin inner) =>
      (atPath path change inner).map fun inner => put key (.table origin inner) entries
    | some (.tables last before) =>
      (atPath path change last).map fun last => put key (.tables last before) entries
    | some (.value _) => none

/-- Opens a table by its header. -/
def openTable (key : String) (entries : Entries) : Option Entries :=
  match entries.lookup key with
  | none => some (put key (.table .header []) entries)
  | some (.table .implied inner) => some (put key (.table .header inner) entries)
  | some _ => none

/-- Opens one more table by a repeated header. -/
def openNext (key : String) (entries : Entries) : Option Entries :=
  match entries.lookup key with
  | none => some (put key (.tables [] []) entries)
  | some (.tables last before) => some (put key (.tables [] (last :: before)) entries)
  | some _ => none

/-- Adds an entry under a dotted key. All but the last part lead through tables
that have no header of their own, or through the last table of a repeated
header. The table that gets the entry is one that dotted keys have created. -/
def addEntry (key : List String) (v : Value) (entries : Entries) : Option Entries :=
  match key with
  | [] => none
  | [last] =>
    match entries.lookup last with
    | none => some (put last (.value v) entries)
    | some _ => none
  | part :: rest =>
    match entries.lookup part with
    | none => (addEntry rest v []).map fun inner => put part (.table .dotted inner) entries
    | some (.table origin inner) =>
      if origin = .dotted || (origin = .implied && 2 ≤ rest.length) then
        (addEntry rest v inner).map fun inner => put part (.table origin inner) entries
      else none
    | some (.tables last before) =>
      if 2 ≤ rest.length then
        (addEntry rest v last).map fun last => put part (.tables last before) entries
      else none
    | some (.value _) => none

mutual

/-- The value of a node. -/
def toValue : Node → Value
  | value v => v
  | table _ entries => .table (toEntries entries)
  | tables last before => .array ((toTables before).reverse ++ [.table (toEntries last)])

/-- The values of some entries. -/
def toEntries : List (String × Node) → List (String × Value)
  | [] => []
  | (k, n) :: rest => (k, toValue n) :: toEntries rest

/-- The values of some tables. -/
def toTables : List (List (String × Node)) → List Value
  | [] => []
  | t :: rest => .table (toEntries t) :: toTables rest

end

end Node

/-! ## Values -/

/-- The value that a letter starts: a truth value or a number that is none. -/
def word? (cs : List Char) : Option (Value × List Char) :=
  match cs with
  | 't' :: 'r' :: 'u' :: 'e' :: rest => some (.boolean true, rest)
  | 'f' :: 'a' :: 'l' :: 's' :: 'e' :: rest => some (.boolean false, rest)
  | 'i' :: _ => number? cs
  | 'n' :: _ => number? cs
  | _ => none

/-- The most arrays and inline tables inside each other. -/
def maxDepth : Nat := 79

mutual

/-- A value. -/
def value? (depth : Nat) : Nat → List Char → Option (Value × List Char)
  | 0, _ => none
  | fuel + 1, cs =>
    match cs with
    | '"' :: _ => (string? cs).map fun (s, rest) => (.string s, rest)
    | '\x27' :: _ => (string? cs).map fun (s, rest) => (.string s, rest)
    | '[' :: rest =>
      if depth = 0 then none
      else (items? (depth - 1) fuel rest).map fun (items, rest) => (.array items, rest)
    | '\x7b' :: rest =>
      if depth = 0 then none
      else
        match skipBlanks rest with
        | '\x7d' :: rest => some (.table [], rest)
        | rest =>
          (pairs? (depth - 1) fuel [] rest).map fun (entries, rest) =>
            (.table (Node.toEntries entries), rest)
    | c :: _ =>
      if c == '+' || c == '-' || c.isDigit then
        if startsDate cs then date? cs else number? cs
      else word? cs
    | [] => none

/-- The items of an array, behind the bracket or a comma. -/
def items? (depth : Nat) : Nat → List Char → Option (List Value × List Char)
  | 0, _ => none
  | fuel + 1, cs =>
    match skipLines cs.length cs with
    | ']' :: rest => some ([], rest)
    | cs =>
      match value? depth fuel cs with
      | none => none
      | some (v, rest) =>
        match skipLines rest.length rest with
        | ',' :: rest => (items? depth fuel rest).map fun (vs, rest) => (v :: vs, rest)
        | ']' :: rest => some ([v], rest)
        | _ => none

/-- The entries of an inline table, behind the brace or a comma. -/
def pairs? (depth : Nat) : Nat → Entries → List Char → Option (Entries × List Char)
  | 0, _, _ => none
  | fuel + 1, entries, cs =>
    match key? cs with
    | some (key, '=' :: rest) =>
      match value? depth fuel (skipBlanks rest) with
      | none => none
      | some (v, rest) =>
        match Node.addEntry key v entries with
        | none => none
        | some entries =>
          match skipBlanks rest with
          | ',' :: rest => pairs? depth fuel entries rest
          | '\x7d' :: rest => some (entries, rest)
          | _ => none
    | _ => none

end

/-! ## Lines -/

/-- What has been read of a document. -/
structure Draft where
  entries : Entries := []
  /-- The path of the header above. -/
  path : List String := []

/-- A header of a table, behind its brackets. -/
def Draft.openTable? (d : Draft) (key : List String) (repeated : Bool) : Option Draft :=
  match key.getLast? with
  | none => none
  | some last =>
    let change := if repeated then Node.openNext last else Node.openTable last
    (Node.atPath key.dropLast change d.entries).map fun entries => { entries, path := key }

/-- An entry of the table above. -/
def Draft.add? (d : Draft) (key : List String) (v : Value) : Option Draft :=
  (Node.atPath d.path (Node.addEntry key v) d.entries).map fun entries => { d with entries }

/-- Reads the lines of a document, with fuel for each. -/
def lines? : Nat → Draft → List Char → Option Draft
  | 0, _, _ => none
  | fuel + 1, d, cs =>
    match skipLines cs.length cs with
    | [] => some d
    | '[' :: '[' :: rest =>
      match key? rest with
      | some (key, ']' :: ']' :: rest) =>
        match d.openTable? key true, endOfLine? rest with
        | some d, some rest => lines? fuel d rest
        | _, _ => none
      | _ => none
    | '[' :: rest =>
      match key? rest with
      | some (key, ']' :: rest) =>
        match d.openTable? key false, endOfLine? rest with
        | some d, some rest => lines? fuel d rest
        | _, _ => none
      | _ => none
    | cs =>
      match key? cs with
      | some (key, '=' :: rest) =>
        let rest := skipBlanks rest
        match value? maxDepth (2 * rest.length + 2) rest with
        | some (v, rest) =>
          match d.add? key v, endOfLine? rest with
          | some d, some rest => lines? fuel d rest
          | _, _ => none
        | none => none
      | _ => none

/-- The table that a document writes. -/
def parse? (source : String) : Option Value :=
  let cs := match source.toList with
    | '\ufeff' :: rest => rest
    | cs => cs
  (lines? (cs.length + 1) {} cs).map fun d => .table (Node.toEntries d.entries)

end UpgradeNotes.Toml
