import UpgradeNotes.Yaml.ScalarText
import UpgradeNotes.Yaml.Token

/-!
# Reading tokens

A mapping key needs no mark in front of it, so whether a scalar or a collection
was a key shows only at the colon behind it. Every place where a key may start
is therefore kept, one for each open flow collection and one for the block, and
the marks of the key are inserted in front of its tokens when the colon comes.
A key has to stay on one line and within 1024 characters.

A column to the right of the current indentation opens a block; every block
whose column lies to the right of the next token is closed.
-/

namespace UpgradeNotes.Yaml

/-- A place where a key may have started. -/
structure KeyStart where
  /-- Whether it has to be a key, since it stands at the indentation of a block. -/
  required : Bool
  /-- The number of tokens in front of it. -/
  position : Nat
  line : Nat
  column : Nat
  index : Nat

/-- The state between two tokens. -/
structure Scanner where
  cursor : Cursor
  tokens : Array Token := #[]
  /-- The column of the innermost block, -1 outside of all. -/
  indent : Int := -1
  /-- The columns of the blocks around it. -/
  outer : List Int := []
  /-- Whether a key may start here. -/
  keyAllowed : Bool := true
  /-- The key start of the block, then of each open flow collection, innermost
  first. -/
  keys : List (Option KeyStart) := [none]

/-- A step that may fail. -/
abbrev Scan := StateT Scanner Option

namespace Scanner

/-- Whether a flow collection is open. -/
def inFlow (s : Scanner) : Bool :=
  decide (1 < s.keys.length)

/-- Adds a token at the end. -/
def push (s : Scanner) (t : Token) : Scanner :=
  { s with tokens := s.tokens.push t }

/-- Inserts a token behind the first `n`. -/
def insert (s : Scanner) (n : Nat) (t : Token) : Scanner :=
  { s with tokens := s.tokens.insertIdxIfInBounds n t }

/-- Opens a block at a column, if that lies to the right of the indentation. Its
start goes behind the first `n` tokens. -/
def openBlock (s : Scanner) (column n : Nat) (start : Token) : Scanner :=
  if !s.inFlow && decide (s.indent < column) then
    { s.insert n start with indent := column, outer := s.indent :: s.outer }
  else s

/-- Closes the blocks to the right of a column. -/
def closeBlocks (s : Scanner) (column : Int) : Scanner :=
  if s.inFlow then s else go s.outer s
where
  /-- Closes blocks as long as there are any around the innermost. -/
  go : List Int → Scanner → Scanner
    | [], s => s
    | around :: more, s =>
      if column < s.indent then
        go more { s.push .blockEnd with indent := around, outer := more }
      else s

/-- Forgets the innermost key start. A required one cannot be forgotten. -/
def dropKey? (s : Scanner) : Option Scanner :=
  match s.keys with
  | some k :: more => if k.required then none else some { s with keys := none :: more }
  | _ => some s

/-- Keeps this place as a key start, if a key may start here. -/
def saveKey? (s : Scanner) : Option Scanner :=
  if s.keyAllowed then
    let here : KeyStart :=
      { required := !s.inFlow && decide (s.indent = s.cursor.column)
        position := s.tokens.size
        line := s.cursor.line
        column := s.cursor.column
        index := s.cursor.index }
    s.dropKey?.map fun s => { s with keys := some here :: s.keys.drop 1 }
  else some s

/-- Whether a key that starts there may still end here. -/
def reaches (s : Scanner) (k : KeyStart) : Bool :=
  k.line == s.cursor.line && decide (s.cursor.index ≤ k.index + 1024)

/-- Forgets the key starts that are out of reach. -/
def dropStale? (s : Scanner) : Option Scanner :=
  let fresh (k : Option KeyStart) : Option (Option KeyStart) :=
    match k with
    | some k => if s.reaches k then some (some k) else if k.required then none else some none
    | none => some none
  (s.keys.mapM fresh).map fun keys => { s with keys }

/-- Passes blanks, comments and line breaks. A tab counts as a blank only where
no block key may start. -/
def skipGaps : Nat → Scanner → Scanner
  | 0, s => s
  | fuel + 1, s =>
    let c := s.cursor
    let c := if c.column == 0 && c.head? == some '\ufeff' then c.advance 1 else c
    let c := c.skipWhile fun x => x == ' ' || (x == '\t' && (s.inFlow || !s.keyAllowed))
    let c := if c.head? == some '#' then c.skipWhile (fun x => !isBreak x) else c
    if c.head?.any isBreak then
      skipGaps fuel { s with cursor := c.takeBreak.2, keyAllowed := s.keyAllowed || !s.inFlow }
    else { s with cursor := c }

end Scanner

/-! ## Directives, anchors and tags -/

/-- A word, possibly empty. -/
def takeWord : Scan (List Char) := do
  let s ← get
  let (word, cursor) := s.cursor.takeWhile isWordChar
  set { s with cursor }
  return word

/-- Passes `n` characters. -/
def pass (n : Nat) : Scan Unit :=
  modify fun s => { s with cursor := s.cursor.advance n }

/-- Passes the blanks of a line. -/
def passBlanks : Scan Unit :=
  modify fun s => { s with cursor := s.cursor.skipWhile isSpaceOrTab }

/-- The next character. -/
def look : Scan (Option Char) := do
  return (← get).cursor.head?

/-- A version number of at most nine digits. -/
def versionNumber : Scan Nat := do
  let s ← get
  let (digits, cursor) := s.cursor.takeWhile Char.isDigit
  set { s with cursor }
  if 9 < digits.length then failure
  Decimal.nat? 10 digits

/-- Whether the character may stand in a tag. The marks of flow collections may
only where the tag stands between angle brackets. -/
def isTagChar (verbatim : Bool) (c : Char) : Bool :=
  isWordChar c || ";/?:@&=+$.!~*\x27()%".toList.contains c ||
    (verbatim && (c == ',' || c == '[' || c == ']'))

/-- The byte that a percent escape writes. -/
def percentByte? : List Char → Option (Nat × List Char)
  | '%' :: a :: b :: cs => (Decimal.nat? 16 [a, b]).map (·, cs)
  | _ => none

/-- The number of bytes that follow the first byte of a character, and the bits
of the character in it. -/
def leadByte? (b : Nat) : Option (Nat × Nat) :=
  if b < 0x80 then some (0, b)
  else if 0xC0 ≤ b && b < 0xE0 then some (1, b - 0xC0)
  else if 0xE0 ≤ b && b < 0xF0 then some (2, b - 0xE0)
  else if 0xF0 ≤ b && b < 0xF8 then some (3, b - 0xF0)
  else none

/-- The bits of a character with those of `n` more escapes behind it. -/
def moreBits? : Nat → Nat → List Char → Option (Nat × List Char)
  | 0, bits, cs => some (bits, cs)
  | n + 1, bits, cs =>
    match percentByte? cs with
    | some (b, cs) =>
      if 0x80 ≤ b && b < 0xC0 then moreBits? n (bits * 64 + (b - 0x80)) cs else none
    | none => none

/-- The character of so many bits behind the first byte, none if they are not the
shortest way to write it or do not write any. -/
def charOfBits? (more bits : Nat) : Option Char :=
  let least := if more = 0 then 0 else if more = 1 then 0x80 else if more = 2 then 0x800 else 0x10000
  if least ≤ bits && decide bits.isValidChar then some (Char.ofNat bits) else none

/-- The character that the escapes at the start write, none inside if their bits
are those of no character. -/
def percentChar? (cs : List Char) : Option (Option Char × List Char) := do
  let (first, cs) ← percentByte? cs
  let (more, bits) ← leadByte? first
  let (bits, cs) ← moreBits? more bits cs
  return (charOfBits? more bits, cs)

/-- The text of a tag with its escapes decoded. The escapes have to write whole
characters, as far as their first bits tell. -/
def decodeTag? : Nat → List Char → Option (List (Option Char))
  | 0, _ => some []
  | _, [] => some []
  | fuel + 1, c :: cs =>
    if c == '%' then
      match percentChar? (c :: cs) with
      | none => none
      | some (decoded, rest) => (decodeTag? fuel rest).map (decoded :: ·)
    else (decodeTag? fuel cs).map (some c :: ·)

/-- The text of decoded characters, which ends in front of a zero. -/
def TagText.ofDecoded (cs : List (Option Char)) : TagText :=
  let cs := cs.takeWhile (· ≠ some '\x00')
  ⟨String.ofList (cs.map fun c => c.getD '\ufffd'), cs.all Option.isSome⟩

/-- The text of a tag as written here, behind what is already known of it. -/
def tagText (verbatim : Bool) (known : List Char) : Scan TagText := do
  let s ← get
  let (written, cursor) := s.cursor.takeWhile (isTagChar verbatim)
  set { s with cursor }
  let text ← decodeTag? written.length written
  return .ofDecoded (known.map some ++ text)

/-- The text of a tag as written here, where there has to be something. -/
def requiredTagText (verbatim : Bool) : Scan TagText := do
  if !(← look).any (isTagChar verbatim) then failure
  tagText verbatim []

/-- A handle: an exclamation mark, and a word with another one behind it. The
second mark may be missing. -/
def handleText : Scan (List Char) := do
  if (← look) ≠ some '!' then failure
  pass 1
  let word ← takeWord
  if (← look) = some '!' then
    pass 1
    return '!' :: word ++ ['!']
  else return '!' :: word

/-- The rest of a line behind a directive. -/
def endDirective : Scan Unit := do
  let s ← get
  let cursor ← restOfLine? s.cursor
  set { s with cursor }

/-- A directive, behind its percent sign. -/
def directive : Scan Token := do
  let name ← takeWord
  if name.isEmpty || !endsWord (← look) then failure
  match String.ofList name with
  | "YAML" =>
    passBlanks
    let major ← versionNumber
    if (← look) ≠ some '.' then failure
    pass 1
    let minor ← versionNumber
    endDirective
    return .version major minor
  | "TAG" =>
    passBlanks
    let handle ← handleText
    if handle ≠ ['!'] && (handle.length < 2 || handle.getLast? ≠ some '!') then failure
    if !(← look).any isSpaceOrTab then failure
    passBlanks
    let text ← requiredTagText true
    if !endsWord (← look) then failure
    endDirective
    return .handle (String.ofList handle) text
  | _ => failure

/-- The name of an anchor or a reference, behind its sign. -/
def anchorName : Scan String := do
  let name ← takeWord
  let next ← look
  if name.isEmpty || !(endsWord next || next.any ("?:,]\x7d%@\x60".toList.contains ·)) then failure
  return String.ofList name

/-- A tag. It ends at a gap, in a flow collection also at a comma. -/
def tagToken : Scan Token := do
  let s ← get
  let token ← match s.cursor.rest with
    | '!' :: '<' :: _ => do
      pass 2
      let suffix ← requiredTagText true
      if (← look) ≠ some '>' then failure
      pass 1
      pure (Token.tag "" suffix)
    | _ => do
      let handle ← handleText
      if 2 ≤ handle.length && handle.getLast? == some '!' then
        pure (Token.tag (String.ofList handle) (← requiredTagText false))
      else
        let suffix ← tagText false (handle.drop 1)
        pure (if suffix.text.isEmpty then Token.tag "" ⟨"!", true⟩ else Token.tag "!" suffix)
  let next ← look
  if endsWord next || (s.inFlow && next == some ',') then return token else failure

/-! ## Tokens -/

/-- Forgets the innermost key start, or fails. -/
def forgetKey : Scan Unit := do
  set (← (← get).dropKey?)

/-- Keeps a key start here, or fails. -/
def keepKey : Scan Unit := do
  set (← (← get).saveKey?)

/-- Says whether a key may start next. -/
def allowKey (b : Bool) : Scan Unit :=
  modify fun s => { s with keyAllowed := b }

/-- Adds a token behind the others. -/
def emit (t : Token) : Scan Unit :=
  modify fun s => s.push t

/-- Opens a block in this column, if it lies to the right of the indentation. -/
def openHere (start : Token) : Scan Unit :=
  modify fun s => s.openBlock s.cursor.column s.tokens.size start

/-- Ends all blocks, in front of a directive or a mark between documents. -/
def endBlocks : Scan Unit := do
  modify fun s => s.closeBlocks (-1)
  forgetKey
  allowKey false

/-- Opens a flow collection. -/
def openFlow (t : Token) : Scan Unit := do
  keepKey
  modify fun s => { s with keys := none :: s.keys, keyAllowed := true }
  pass 1
  emit t

/-- Closes a flow collection. -/
def closeFlow (t : Token) : Scan Unit := do
  forgetKey
  modify fun s => { s with keys := if s.inFlow then s.keys.drop 1 else s.keys, keyAllowed := false }
  pass 1
  emit t

/-- An entry of a block sequence or the mark of an explicit key. In a block it
may stand only where a key may. -/
def blockMark (start token : Token) (allowed : Bool) : Scan Unit := do
  let s ← get
  if !s.inFlow then
    if !s.keyAllowed then failure
    openHere start
  forgetKey
  allowKey allowed
  pass 1
  emit token

/-- The colon between a key and its value. -/
def valueMark : Scan Unit := do
  let s ← get
  match s.keys with
  | some k :: more =>
    modify fun s =>
      { (s.insert k.position .key).openBlock k.column k.position .blockMappingStart with
        keys := none :: more, keyAllowed := false }
  | _ =>
    if !s.inFlow then
      if !s.keyAllowed then failure
      openHere .blockMappingStart
    allowKey !s.inFlow
  pass 1
  emit .value

/-- A quoted scalar. -/
def quotedScalar (quote : Char) : Scan Unit := do
  keepKey
  allowKey false
  pass 1
  let s ← get
  let (text, cursor) ← quotedFrom quote (s.cursor.rest.length + 1) s.cursor []
  set { s with cursor }
  emit (.scalar (String.ofList text) false)

/-- A block scalar. -/
def blockScalar (literal : Bool) : Scan Unit := do
  forgetKey
  allowKey true
  pass 1
  let s ← get
  let (text, cursor) ← blockScalar? literal s.indent s.cursor
  set { s with cursor }
  emit (.scalar (String.ofList text) false)

/-- A plain scalar. -/
def plainScalar : Scan Unit := do
  keepKey
  allowKey false
  let s ← get
  let (text, broken, cursor) ←
    plainFrom s.inFlow (s.indent + 1).toNat (s.cursor.rest.length + 1) s.cursor [] {}
  set { s with cursor, keyAllowed := s.keyAllowed || broken }
  emit (.scalar (String.ofList text) true)

/-- Whether a plain scalar may start with `c` in front of `next`. -/
def startsPlain (inFlow : Bool) (c : Char) (next : Option Char) : Bool :=
  (!isGapChar c && !"-?:,[]\x7b\x7d#&*!|>\x27\"%@\x60".toList.contains c) ||
    (c == '-' && !next.any isSpaceOrTab) ||
    (!inFlow && (c == '?' || c == ':') && !endsWord next)

/-- Reads the next token, which starts with `c`. -/
def nextToken (c : Char) : Scan Unit := do
  let s ← get
  let next := s.cursor.rest[1]?
  if s.cursor.column == 0 && c == '%' then
    endBlocks
    pass 1
    emit (← directive)
  else if s.cursor.atDocumentMark then
    endBlocks
    pass 3
    emit (if c == '-' then .documentStart else .documentEnd)
  else if c == '[' then openFlow .flowSequenceStart
  else if c == '\x7b' then openFlow .flowMappingStart
  else if c == ']' then closeFlow .flowSequenceEnd
  else if c == '\x7d' then closeFlow .flowMappingEnd
  else if c == ',' then
    forgetKey
    allowKey true
    pass 1
    emit .flowEntry
  else if c == '-' && endsWord next then blockMark .blockSequenceStart .blockEntry true
  else if c == '?' && (s.inFlow || endsWord next) then blockMark .blockMappingStart .key !s.inFlow
  else if c == ':' && (s.inFlow || endsWord next) then valueMark
  else if c == '*' || c == '&' then
    keepKey
    allowKey false
    pass 1
    let name ← anchorName
    emit (if c == '*' then .reference name else .anchor name)
  else if c == '!' then
    keepKey
    allowKey false
    emit (← tagToken)
  else if (c == '|' || c == '>') && !s.inFlow then blockScalar (c == '|')
  else if c == '\x27' || c == '"' then quotedScalar c
  else if startsPlain s.inFlow c next then plainScalar
  else failure

/-- Reads tokens up to the end. Every token takes a character, so the number of
characters is enough fuel. -/
def tokensFrom : Nat → Scan Unit
  | 0 => failure
  | fuel + 1 => do
    modify fun s => s.skipGaps (s.cursor.rest.length + 1)
    set (← (← get).dropStale?)
    modify fun s => s.closeBlocks s.cursor.column
    match ← look with
    | some c =>
      nextToken c
      tokensFrom fuel
    | none => endBlocks

/-- The tokens of a document, none if it has characters or marks that are not
allowed. -/
def tokens? (source : String) : Option (List Token) :=
  let cs := source.toList
  if cs.all isAllowed then
    ((tokensFrom (cs.length + 1)).run { cursor := { rest := cs } }).map fun (_, s) =>
      s.tokens.toList
  else none

end UpgradeNotes.Yaml
