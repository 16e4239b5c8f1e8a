import UpgradeNotes.Yaml.Lexer
import UpgradeNotes.Yaml.Plain

/-!
# Nodes

The tree of a document as it is written: scalars are texts with their tags, and
a reference stands for itself.

A reference is kept as a number. A name gets the number of names that were there
when it was given, and a name that is given again gets a new number without
adding to the names. So two names can come to have one number, and then the
number stands for the later of the nodes, in all references.
-/

namespace UpgradeNotes.Yaml

/-- A node of a document. -/
inductive Node where
  | scalar (tag : Option TagText) (plain : Bool) (text : String)
  | sequence (tag : Option TagText) (items : List Node)
  | mapping (tag : Option TagText) (entries : List (Node × Node))
  /-- A reference to the node with this number. -/
  | reference (number : Nat)

/-- What is left of the tokens and what is known of the nodes. -/
structure Reader where
  tokens : List Token
  /-- The handles of tags, latest first. -/
  handles : List (String × TagText) := [("!", ⟨"!", true⟩), ("!!", ⟨standardLead, true⟩)]
  /-- The number that each name has now. -/
  names : List (String × Nat) := []
  /-- The number of each node that was given a name, latest first. A node is known
  by the count of those in front of it. -/
  owners : List (Nat × Nat) := []
  /-- The nodes that were given a name. -/
  nodes : List (Nat × Node) := []
  /-- The size of the document: scalars and references count once, collections
  twice. -/
  size : Nat := 0

/-- The node that a number stands for in the end. -/
def Reader.owner? (r : Reader) (number : Nat) : Option Node := do
  r.nodes.lookup (← r.owners.lookup number)

/-- A step that may fail. -/
abbrev Read := StateT Reader Option

namespace Read

/-- The next token. -/
def peek : Read (Option Token) := do
  return (← get).tokens.head?

/-- Passes a token. -/
def drop : Read Unit :=
  modify fun r => { r with tokens := r.tokens.tail }

/-- Passes a token if it is the one given. -/
def accept (t : Token) : Read Bool := do
  if (← peek) = some t then
    drop
    return true
  else return false

/-- Passes a token that has to be there. -/
def expect (t : Token) : Read Unit := do
  if !(← accept t) then failure

/-- Counts towards the size of the document. -/
def grow (n : Nat) : Read Unit :=
  modify fun r => { r with size := r.size + n }

/-- Whether one of some tokens is next. -/
def sees (ts : List Token) : Read Bool := do
  match ← peek with
  | some t => return ts.contains t
  | none => return false

/-- Gives a name to the node that comes next, and returns the place of the node
among those with a name. -/
def bindName (name : String) : Read Nat := do
  let r ← get
  let number := r.names.length
  let names := if r.names.any (·.1 == name) then
      r.names.map fun (n, k) => if n == name then (n, number) else (n, k)
    else (name, number) :: r.names
  let place := r.owners.length
  set { r with names, owners := (number, place) :: r.owners }
  return place

/-- What stands in front of a node. -/
structure Properties where
  /-- The place of the node among those with a name. -/
  place : Option Nat := none
  tag : Option TagText := none

/-- The full text of a tag. -/
def fullTag (handle : String) (suffix : TagText) : Read TagText := do
  if handle.isEmpty then return suffix
  else
    let lead ← (← get).handles.lookup handle
    return lead.append suffix

/-- Reads a name and a tag in either order. -/
def properties : Read Properties := do
  match ← peek with
  | some (.anchor name) =>
    drop
    match ← peek with
    | some (.tag handle suffix) =>
      drop
      let tag ← fullTag handle suffix
      return { place := some (← bindName name), tag := some tag }
    | _ => return { place := some (← bindName name) }
  | some (.tag handle suffix) =>
    drop
    match ← peek with
    | some (.anchor name) =>
      drop
      let tag ← fullTag handle suffix
      return { place := some (← bindName name), tag := some tag }
    | _ => return { tag := some (← fullTag handle suffix) }
  | _ => return {}

/-- A scalar. -/
def scalar (tag : Option TagText) (plain : Bool) (text : String) : Read Node := do
  grow 1
  return .scalar tag plain text

/-- An empty node. -/
def empty : Read Node :=
  scalar none true ""

/-- A sequence of nodes. -/
def sequence (tag : Option TagText) (items : List Node) : Read Node := do
  grow 2
  return .sequence tag items

/-- A mapping of nodes. -/
def mapping (tag : Option TagText) (entries : List (Node × Node)) : Read Node := do
  grow 2
  return .mapping tag entries

/-- A reference to a name that has been given. -/
def reference (name : String) : Read Node := do
  grow 1
  return .reference (← (← get).names.lookup name)

/-- Keeps a node under its place. -/
def keep (place : Option Nat) (node : Node) : Read Node := do
  match place with
  | some n => modify fun r => { r with nodes := (n, node) :: r.nodes }
  | none => pure ()
  return node

mutual

/-- Reads a node. Blocks may start only where `block` says so, and entries
without a block of their own only where `bare` does. -/
def node (block bare : Bool) : Nat → Read Node
  | 0 => failure
  | fuel + 1 => do
    match ← peek with
    | some (.reference name) =>
      drop
      reference name
    | _ =>
      let p ← properties
      let content ← match ← peek with
        | some .blockEntry =>
          if bare then do sequence p.tag (← bareEntries fuel)
          else scalarBefore p
        | some (.scalar text plain) => do
          drop
          scalar p.tag plain text
        | some .flowSequenceStart => do
          drop
          sequence p.tag (← flowItems true fuel)
        | some .flowMappingStart => do
          drop
          mapping p.tag (← flowEntries true fuel)
        | some .blockSequenceStart =>
          if block then do
            drop
            sequence p.tag (← blockItems fuel)
          else scalarBefore p
        | some .blockMappingStart =>
          if block then do
            drop
            mapping p.tag (← blockEntries fuel)
          else scalarBefore p
        | _ => scalarBefore p
      keep p.place content
where
  /-- The empty scalar behind a name or a tag. With neither there is no node. -/
  scalarBefore (p : Properties) : Read Node := do
    if p.place.isNone && p.tag.isNone then failure
    scalar p.tag true ""

/-- Reads a node in a block, empty in front of certain marks. -/
def nodeUnless (ends : List Token) (block bare : Bool) : Nat → Read Node
  | 0 => failure
  | fuel + 1 => do
    if ← sees ends then empty else node block bare fuel

/-- The items of a block sequence, with its end. -/
def blockItems : Nat → Read (List Node)
  | 0 => failure
  | fuel + 1 => do
    if ← accept .blockEntry then
      let item ← nodeUnless [.blockEntry, .blockEnd] true false fuel
      return item :: (← blockItems fuel)
    else
      expect .blockEnd
      return []

/-- The items of a sequence that stands at the column of its mapping. -/
def bareEntries : Nat → Read (List Node)
  | 0 => failure
  | fuel + 1 => do
    if ← accept .blockEntry then
      let item ← nodeUnless [.blockEntry, .key, .value, .blockEnd] true false fuel
      return item :: (← bareEntries fuel)
    else return []

/-- The entries of a block mapping, with its end. -/
def blockEntries : Nat → Read (List (Node × Node))
  | 0 => failure
  | fuel + 1 => do
    if ← accept .key then
      let k ← nodeUnless [.key, .value, .blockEnd] true true fuel
      let v ← if ← accept .value then nodeUnless [.key, .value, .blockEnd] true true fuel else empty
      return (k, v) :: (← blockEntries fuel)
    else
      expect .blockEnd
      return []

/-- The items of a flow sequence, with its end. A pair is a mapping of one
entry. -/
def flowItems (first : Bool) : Nat → Read (List Node)
  | 0 => failure
  | fuel + 1 => do
    if ← accept .flowSequenceEnd then return []
    if !first then expect .flowEntry
    if ← accept .flowSequenceEnd then return []
    let item ← if ← accept .key then do
        let k ← if ← sees [.value, .flowEntry, .flowSequenceEnd] then do
            drop
            empty
          else node false false fuel
        let v ← if ← accept .value then nodeUnless [.flowEntry, .flowSequenceEnd] false false fuel
          else empty
        mapping none [(k, v)]
      else node false false fuel
    return item :: (← flowItems false fuel)

/-- The entries of a flow mapping, with its end. A node without a colon is a key
with no value. -/
def flowEntries (first : Bool) : Nat → Read (List (Node × Node))
  | 0 => failure
  | fuel + 1 => do
    if ← accept .flowMappingEnd then return []
    if !first then expect .flowEntry
    if ← accept .flowMappingEnd then return []
    let entry ← if ← accept .key then do
        let k ← nodeUnless [.value, .flowEntry, .flowMappingEnd] false false fuel
        let v ← if ← accept .value then nodeUnless [.flowEntry, .flowMappingEnd] false false fuel
          else empty
        pure (k, v)
      else do
        let k ← node false false fuel
        pure (k, ← empty)
    return entry :: (← flowEntries false fuel)

end

/-- The directives in front of a document. A version or a handle may be given
once only, and the version has to be 1.1 or 1.2. -/
def directives (version : Bool) (seen : List String) : Nat → Read Unit
  | 0 => failure
  | fuel + 1 => do
    match ← peek with
    | some (.version major minor) =>
      if version || major ≠ 1 || (minor ≠ 1 && minor ≠ 2) then failure
      drop
      directives true seen fuel
    | some (.handle name text) =>
      if seen.contains name then failure
      drop
      modify fun r => { r with handles := (name, text) :: r.handles }
      directives version (name :: seen) fuel
    | _ => return ()

/-- Passes the marks that end a document. -/
def documentEnds : Nat → Read Unit
  | 0 => return ()
  | fuel + 1 => do
    if ← accept .documentEnd then documentEnds fuel

/-- The only document. -/
def document (fuel : Nat) : Read Node := do
  let root ← match ← peek with
    | none => empty
    | some (.version ..) => marked fuel
    | some (.handle ..) => marked fuel
    | some .documentStart => marked fuel
    | some _ => node true false fuel
  documentEnds fuel
  if (← peek).isSome then failure
  return root
where
  /-- A document behind its directives and its start. -/
  marked (fuel : Nat) : Read Node := do
    directives false [] fuel
    expect .documentStart
    match ← peek with
    | none => empty
    | some (.version ..) => empty
    | some (.handle ..) => empty
    | some .documentStart => empty
    | some .documentEnd => empty
    | some _ => node true false fuel

end Read

end UpgradeNotes.Yaml
