import UpgradeNotes.Text.Lines

/-!
# Tokens of a document

The marks and scalars of a document. The blocks that indentation forms have
their starts and ends among the tokens.
-/

namespace UpgradeNotes.Yaml

/-- The text of a tag, or of the lead that a handle stands for. Escapes can write
bytes that are no character; these stand in the text as U+FFFD. -/
structure TagText where
  text : String
  /-- Whether all of it are characters. -/
  readable : Bool := true
deriving DecidableEq, Repr

namespace TagText

/-- One text behind another. -/
def append (a b : TagText) : TagText :=
  ⟨a.text ++ b.text, a.readable && b.readable⟩

/-- Whether the tag is one of the document, not of everyone. -/
def isLocal (t : TagText) : Bool :=
  Text.startsWith t.text "!"

/-- The name of a local tag, none if it cannot be read. The mark in front is not
part of it, unless it is all there is. -/
def localName? (t : TagText) : Option String :=
  if t.isLocal && t.readable then
    let unmarked (cs : List Char) : List Char :=
      match cs with
      | '!' :: c :: rest => c :: rest
      | _ => cs
    some (String.ofList (unmarked (unmarked t.text.toList)))
  else none

end TagText

/-- A mark or a scalar. The end of the document is the end of the tokens. -/
inductive Token where
  | version (major minor : Nat)
  /-- A handle and the text that it stands for. -/
  | handle (name : String) (text : TagText)
  | documentStart
  | documentEnd
  | blockSequenceStart
  | blockMappingStart
  | blockEnd
  | flowSequenceStart
  | flowSequenceEnd
  | flowMappingStart
  | flowMappingEnd
  | blockEntry
  | flowEntry
  | key
  | value
  /-- A name for the node behind it. -/
  | anchor (name : String)
  /-- The node of a name. -/
  | reference (name : String)
  | tag (handle : String) (suffix : TagText)
  | scalar (text : String) (plain : Bool)
deriving DecidableEq, Repr

end UpgradeNotes.Yaml
