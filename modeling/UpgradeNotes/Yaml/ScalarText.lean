import UpgradeNotes.Decimal.Reading
import UpgradeNotes.Yaml.Cursor

/-!
# The text of scalars

Plain, quoted and block scalars, each read from the place where its text starts
to the place behind it. Lines of a plain, quoted or folded scalar are joined:
one break becomes a space, and of several breaks the first is dropped.
-/

namespace UpgradeNotes.Yaml

/-! ## Gaps -/

/-- The blanks and breaks between two runs of a scalar. -/
structure Gap where
  /-- The blanks of a gap within a line. -/
  blanks : List Char := []
  /-- Whether the gap goes over the end of a line. -/
  broken : Bool := false
  /-- The break that ends the first line, none if it is escaped. -/
  first : List Char := []
  /-- The breaks behind it. -/
  further : List Char := []

namespace Gap

/-- What a gap contributes to the text. -/
def fold (g : Gap) : List Char :=
  if g.broken then
    if g.first.head? = some '\n' then
      if g.further.isEmpty then [' '] else g.further
    else g.first ++ g.further
  else g.blanks

/-- Reads a gap on from `g`. A tab in front of column `indent` of a further line
is refused. -/
def read (indent : Nat) : Nat → Cursor → Gap → Option (Gap × Cursor)
  | 0, c, g => some (g, c)
  | fuel + 1, c, g =>
    match c.head? with
    | some b =>
      if isSpaceOrTab b then
        if g.broken then
          if b == '\t' && decide (c.column < indent) then none
          else read indent fuel (c.advance 1) g
        else read indent fuel (c.advance 1) { g with blanks := g.blanks ++ [b] }
      else if isBreak b then
        let (ended, c) := c.takeBreak
        if g.broken then read indent fuel c { g with further := g.further ++ ended }
        else read indent fuel c { g with broken := true, first := ended }
      else some (g, c)
    | none => some (g, c)

end Gap

/-! ## Plain scalars -/

/-- Whether the character opens, closes or divides a flow collection. -/
def isFlowMark (c : Char) : Bool :=
  c == ',' || c == '[' || c == ']' || c == '\x7b' || c == '\x7d'

/-- The characters of a plain scalar up to the next gap or its end. In a flow
collection a colon right in front of a mark is refused. -/
def plainRun (inFlow : Bool) : List Char → Option (List Char × List Char)
  | [] => some ([], [])
  | c :: cs =>
    if isGapChar c then some ([], c :: cs)
    else if c == ':' && endsWord cs.head? then some ([], c :: cs)
    else if inFlow && c == ':' && cs.head?.any (fun d => d == '?' || isFlowMark d) then none
    else if inFlow && isFlowMark c then some ([], c :: cs)
    else (plainRun inFlow cs).map fun (run, rest) => (c :: run, rest)

/-- Reads a plain scalar on behind `text` and the gap after it. The answer says
also whether the scalar was left over the end of a line. -/
def plainFrom (inFlow : Bool) (indent : Nat) :
    Nat → Cursor → List Char → Gap → Option (List Char × Bool × Cursor)
  | 0, _, _, _ => none
  | fuel + 1, c, text, gap =>
    if c.atDocumentMark || c.head? == some '#' then some (text, gap.broken, c)
    else
      match plainRun inFlow c.rest with
      | none => none
      | some (run, rest) =>
        let c := c.moveTo rest
        let text := if run.isEmpty then text else text ++ gap.fold ++ run
        let gap := if run.isEmpty then gap else {}
        if c.head?.any isGapChar then
          match Gap.read indent c.rest.length c gap with
          | none => none
          | some (gap, c) =>
            if !inFlow && decide (c.column < indent) then some (text, gap.broken, c)
            else plainFrom inFlow indent fuel c text gap
        else some (text, gap.broken, c)

/-! ## Quoted scalars -/

/-- The character that `n` hexadecimal digits name, and what is behind them. -/
def codePoint? (n : Nat) (cs : List Char) : Option (Char × List Char) :=
  let digits := cs.take n
  if digits.length < n then none
  else match Decimal.nat? 16 digits with
    | some value =>
      if h : value.isValidChar then some (Char.ofNatAux value h, cs.drop n) else none
    | none => none

/-- The character that an escape names, read behind the backslash. -/
def escape? : List Char → Option (Char × List Char)
  | [] => none
  | c :: cs =>
    match c with
    | '0' => some ('\x00', cs)
    | 'a' => some ('\x07', cs)
    | 'b' => some ('\x08', cs)
    | 't' => some ('\t', cs)
    | '\t' => some ('\t', cs)
    | 'n' => some ('\n', cs)
    | 'v' => some ('\x0b', cs)
    | 'f' => some ('\x0c', cs)
    | 'r' => some ('\r', cs)
    | 'e' => some ('\x1b', cs)
    | ' ' => some (' ', cs)
    | '"' => some ('"', cs)
    | '/' => some ('/', cs)
    | '\\' => some ('\\', cs)
    | 'N' => some ('\u0085', cs)
    | '_' => some ('\u00a0', cs)
    | 'L' => some ('\u2028', cs)
    | 'P' => some ('\u2029', cs)
    | 'x' => codePoint? 2 cs
    | 'u' => codePoint? 4 cs
    | 'U' => codePoint? 8 cs
    | _ => none

/-- A run within a quoted scalar: its text, whether an escaped line break ends
it, and what is left. -/
structure QuotedRun where
  text : List Char
  escapedBreak : Bool
  rest : List Char

/-- A character in front of a run. -/
def QuotedRun.cons (c : Char) (r : QuotedRun) : QuotedRun :=
  { r with text := c :: r.text }

/-- A run between single quotes. Two quotes stand for one. -/
def singleRun : List Char → QuotedRun
  | [] => ⟨[], false, []⟩
  | '\x27' :: '\x27' :: cs => (singleRun cs).cons '\x27'
  | c :: cs =>
    if isGapChar c || c == '\x27' then ⟨[], false, c :: cs⟩ else (singleRun cs).cons c

/-- A run between double quotes, with its escapes. -/
def doubleRun : Nat → List Char → Option QuotedRun
  | 0, cs => some ⟨[], false, cs⟩
  | _, [] => some ⟨[], false, []⟩
  | fuel + 1, '\\' :: cs =>
    if cs.head?.any isBreak then some ⟨[], true, cs⟩
    else match escape? cs with
      | some (c, rest) => (doubleRun fuel rest).map (·.cons c)
      | none => none
  | fuel + 1, c :: cs =>
    if isGapChar c || c == '"' then some ⟨[], false, c :: cs⟩
    else (doubleRun fuel cs).map (·.cons c)

/-- Reads a quoted scalar on behind `text`, up to the closing quote. A mark
between documents inside is refused, and so is an end without a quote. -/
def quotedFrom (quote : Char) : Nat → Cursor → List Char → Option (List Char × Cursor)
  | 0, _, _ => none
  | fuel + 1, c, text =>
    if c.atDocumentMark || c.rest.isEmpty then none
    else
      let run? := if quote == '"' then doubleRun c.rest.length c.rest else some (singleRun c.rest)
      match run? with
      | none => none
      | some run =>
        let c := c.moveTo run.rest
        let c := if run.escapedBreak then c.takeBreak.2 else c
        let text := text ++ run.text
        if c.head? == some quote then some (text, c.advance 1)
        else
          match Gap.read 0 c.rest.length c { broken := run.escapedBreak } with
          | none => none
          | some (gap, c) => quotedFrom quote fuel c (text ++ gap.fold)

/-! ## Block scalars -/

/-- What happens to the breaks at the end of a block scalar. -/
inductive Chomp where
  /-- No break is kept. -/
  | strip
  /-- One break is kept. -/
  | clip
  /-- All breaks are kept. -/
  | keep
deriving DecidableEq

/-- The sign of a chomping mark. -/
def chompMark? : Option Char → Option Chomp
  | some '+' => some .keep
  | some '-' => some .strip
  | _ => none

/-- The head of a block scalar behind its indicator: the chomping and the given
indentation in either order, zero if none is given. -/
def blockHead? (cs : List Char) : Option (Chomp × Nat × List Char) :=
  let digit (cs : List Char) : Option (Nat × List Char) :=
    match cs with
    | d :: rest =>
      if d == '0' then none
      else if d.isDigit then some (d.toNat - '0'.toNat, rest)
      else some (0, cs)
    | [] => some (0, [])
  match chompMark? cs.head? with
  | some chomp => (digit (cs.drop 1)).map fun (n, rest) => (chomp, n, rest)
  | none =>
    match digit cs with
    | none => none
    | some (0, rest) => some (.clip, 0, rest)
    | some (n, rest) =>
      match chompMark? rest.head? with
      | some chomp => some (chomp, n, rest.drop 1)
      | none => some (.clip, n, rest)

/-- Passes blanks and a comment up to the end of the line, and the break. -/
def restOfLine? (c : Cursor) : Option Cursor :=
  let c := c.skipWhile isSpaceOrTab
  let c := if c.head? == some '#' then c.skipWhile (fun x => !isBreak x) else c
  match c.head? with
  | none => some c
  | some b => if isBreak b then some c.takeBreak.2 else none

/-- Passes empty lines in front of a line of a block scalar and the indentation
of that line. With `indent = 0` the indentation is taken from the widest of
these lines, but is at least `least`. A tab within the indentation is refused. -/
def blockBreaks (least indent : Nat) :
    Nat → Cursor → List Char → Nat → Option (List Char × Nat × Cursor)
  | 0, _, _, _ => none
  | fuel + 1, c, breaks, widest =>
    let limit := if indent = 0 then c.rest.length else indent - c.column
    let spaces := ((c.rest.take limit).takeWhile (· == ' ')).length
    let c := c.advance spaces
    let widest := max widest c.column
    if (indent = 0 || decide (c.column < indent)) && c.head? == some '\t' then none
    else if c.head?.any isBreak then
      let (ended, c) := c.takeBreak
      blockBreaks least indent fuel c (breaks ++ ended) widest
    else
      some (breaks, if indent = 0 then max widest least else indent, c)

/-- The lines of a block scalar read so far. -/
structure BlockText where
  text : List Char := []
  /-- The break behind the last line. -/
  lastBreak : List Char := []
  /-- The breaks of the empty lines behind it. -/
  breaks : List Char := []
  /-- Whether the last line starts with a blank. -/
  indented : Bool := false

/-- Adds a line. A folded break between two lines that start with no blank
becomes a space, or nothing if empty lines follow it. -/
def BlockText.addLine (b : BlockText) (literal : Bool) (line ended : List Char) : BlockText :=
  let indented := line.head?.any isSpaceOrTab
  let joint :=
    if !literal && b.lastBreak.head? == some '\n' && !b.indented && !indented then
      if b.breaks.isEmpty then [' '] else []
    else b.lastBreak
  { text := b.text ++ joint ++ b.breaks ++ line, lastBreak := ended, breaks := [], indented }

/-- Reads the lines of a block scalar. -/
def blockLines (literal : Bool) (indent : Nat) :
    Nat → Cursor → BlockText → Option (BlockText × Cursor)
  | 0, _, _ => none
  | fuel + 1, c, b =>
    if c.column == indent && !c.rest.isEmpty then
      let (line, c) := c.takeWhile (fun x => !isBreak x)
      let (ended, c) := c.takeBreak
      let b := b.addLine literal line ended
      match blockBreaks indent indent (c.rest.length + 1) c [] 0 with
      | none => none
      | some (breaks, _, c) => blockLines literal indent fuel c { b with breaks }
    else some (b, c)

/-- Reads a block scalar behind its indicator. `outer` is the indentation of
the block around it. -/
def blockScalar? (literal : Bool) (outer : Int) (c : Cursor) : Option (List Char × Cursor) := do
  let (chomp, given, rest) ← blockHead? c.rest
  let c ← restOfLine? (c.moveTo rest)
  let indent := if given = 0 then 0 else (max outer 0).toNat + given
  let least := max (outer + 1).toNat 1
  let (breaks, indent, c) ← blockBreaks least indent (c.rest.length + 1) c [] 0
  let (b, c) ← blockLines literal indent (c.rest.length + 1) c { breaks }
  let lastBreak := if chomp = .strip then [] else b.lastBreak
  let breaks := if chomp = .keep then b.breaks else []
  return (b.text ++ lastBreak ++ breaks, c)

end UpgradeNotes.Yaml
