import UpgradeNotes.Yaml.Node

/-!
# Documents

The value of a text that holds one document at most. No document at all is
null. A mapping with the same key twice is refused, and so are more than 128
collections inside each other, which every node that contains itself comes to,
and references that unfold to more than a hundred times the document.
-/

namespace UpgradeNotes.Yaml

/-- A step that counts the references followed and may fail. -/
abbrev Compose := StateT Nat Option

namespace Compose

/-- The node itself, or the one that it refers to. -/
def follow (r : Reader) : Node → Compose Node
  | .reference number => do
    modify (· + 1)
    if 100 * r.size < (← get) then failure
    r.owner? number
  | node => return node

/-- Whether no key stands twice. -/
def keysDiffer : List Value → Bool
  | [] => true
  | k :: ks => !ks.any k.same && keysDiffer ks

/-- The value of a node with at most `depth` collections inside each other. -/
def value (r : Reader) : (depth : Nat) → Node → Compose Value
  | depth, node => do
    match ← follow r node, depth with
    | .scalar tag plain text, _ => Value.ofScalar? tag plain text
    | .sequence tag items, d + 1 =>
      return Value.underTag tag (.sequence (← items.mapM (value r d)))
    | .mapping tag entries, d + 1 =>
      let entries ← entries.mapM fun (k, v) => do return (← value r d k, ← value r d v)
      if keysDiffer (entries.map (·.1)) then return Value.underTag tag (.mapping entries)
      else failure
    | _, _ => failure

end Compose

/-- The value of a text. -/
def parse? (source : String) : Option Value := do
  let tokens ← tokens? source
  let (root, reader) ← (Read.document (4 * tokens.length + 16)).run { tokens }
  let (value, _) ← (Compose.value reader 128 root).run 0
  return value

end UpgradeNotes.Yaml
