import UpgradeNotes.ClassIndex
import UpgradeNotes.Names

/-!
# Inference

A small inference of receiver types: `$this`, typed parameters and properties,
`new`, factories that return an instance of the called class, and variables
bound to any of these. Everything else is unresolved.
-/

namespace UpgradeNotes

/-- The class-like declaration that encloses a point. -/
structure ClassContext where
  name : String
  parent : Option String := none

/-- The types of the variables of one function body, named without `$`. -/
structure TypeScope where
  types : Table ReceiverType := {}

namespace TypeScope

/-- The scope without variables. -/
def empty : TypeScope := {}

/-- Binds a variable, named with or without `$`. -/
def bind (s : TypeScope) (name : String) (type : ReceiverType) : TypeScope :=
  ⟨s.types.insert (Text.dropLeading '$' name) type⟩

/-- The type of a variable, named with or without `$`. -/
def get? (s : TypeScope) (name : String) : Option ReceiverType :=
  s.types.get? (Text.dropLeading '$' name)

end TypeScope

/-- The type that a word stands for, in lower case. -/
def ReceiverType.ofWord? (word : String) : Option ReceiverType :=
  match word with
  | "object" => some .anyObject
  | "mixed" => some .unresolved
  | "never" => some .never
  | _ =>
    if ["int", "integer", "float", "double", "string", "bool", "boolean", "true", "false", "null",
        "void", "array", "iterable", "callable", "resource"].contains word then
      some (.scalar word)
    else none

/-- An instance of the class, or unresolved without one. -/
def ReceiverType.ofClass : Option String → ReceiverType
  | some name => .object name
  | none => .unresolved

/-- Everything that types depend on at a point of a file. -/
structure Surroundings where
  index : ClassIndex
  names : NameContext
  enclosing : Option ClassContext := none
  scope : Option TypeScope := none

namespace Surroundings

open Php

/-- The class that a written name refers to. -/
def classReference (around : Surroundings) (written : String) : Option String :=
  match Text.fold written with
  | "self" | "static" => around.enclosing.map (·.name)
  | "parent" => around.enclosing.bind (·.parent)
  | _ => some (around.names.resolve written)

/-- The type that a hint declares. -/
def hintType (around : Surroundings) : Hint → ReceiverType
  | .named written =>
    match ReceiverType.ofWord? (Text.fold written) with
    | some t => t
    | none => .ofClass (around.classReference written)
  | .keyword written =>
    let word := Text.fold written
    if ["self", "static", "parent"].contains word then .ofClass (around.classReference word)
    else (ReceiverType.ofWord? word).getD .unresolved
  | .nullable inner => .unionOf [around.hintType inner, .scalar "null"]
  | .union left right => .unionOf [around.hintType left, around.hintType right]
  | .parenthesized inner => around.hintType inner
  | .intersection .. => .unresolved

/-- The class in front of `::` or behind `new`, none if it is computed. -/
def namedClass (around : Surroundings) : Expr → Option String
  | .name _ written | .classKeyword _ written => around.classReference written
  | _ => none

/-- The methods that return an instance of the class they are called on. -/
def factories : List String :=
  ["create", "singleton"]

/-- The name that stands for an anonymous class without a parent. -/
def anonymousName : String :=
  "class@anonymous"

/-- The inferred type of an expression. -/
def typeOf (around : Surroundings) : Expr → ReceiverType
  | .var _ name =>
    if Text.dropLeading '$' name = "this" then .ofClass (around.enclosing.map (·.name))
    else (around.scope.bind (·.get? name)).getD .unresolved
  | .parenthesized _ inner => around.typeOf inner
  | .assignment _ _ value => around.typeOf value
  | .clone _ operand => around.typeOf operand
  | .instantiation _ owner _ => .ofClass (around.namedClass owner)
  | .anonymousClass _ _ ⟨_, _, _, parents, _, _⟩ =>
    match parents with
    | parent :: _ => .object (around.names.resolve parent)
    | [] => .object anonymousName
  | .staticCall owner (.name method) _ =>
    if factories.any (Text.sameFold method) then .ofClass (around.namedClass owner) else .unresolved
  | .property false object (.name name) =>
    match (around.typeOf object).classNames.filterMap (around.index.propertyType · name) with
    | [] => .unresolved
    | found => .unionOf found
  | .conditional condition consequent alternative =>
    let first := match consequent with
      | some e => around.typeOf e
      | none => around.typeOf condition
    let second := around.typeOf alternative
    if first.isUnknown || second.isUnknown then .unresolved else .unionOf [first, second]
  | .literal _ kind =>
    .scalar <| match kind with
      | .string => "string"
      | .integer => "int"
      | .float => "float"
      | .boolean => "bool"
      | .null => "null"
  | .array _ .short _ => .scalar "array"
  | _ => .unresolved

/-- The type that one alternative of a docblock type stands for. A type in angle
brackets counts for nothing, and a list of anything is an array. -/
def docMember (around : Surroundings) (part : List Char) : ReceiverType :=
  let part := Text.dropBlanksEnd (Text.dropBlanks part)
  match ReceiverType.ofWord? (Text.fold (String.ofList part)) with
  | some t => t
  | none =>
    let base := part.takeWhile (· != '<')
    match Text.stripTail? ['[', ']'] base with
    | some _ => .scalar "array"
    | none => .ofClass (around.classReference (String.ofList base))

/-- The type written in a docblock, such as `?Foo` or `Foo|null`. -/
def docType (around : Surroundings) (written : String) : ReceiverType :=
  match Text.stripLead? ['?'] written.toList with
  | some rest => .unionOf ((Text.splitChars '|' rest).map around.docMember ++ [.scalar "null"])
  | none => .unionOf ((Text.splitChars '|' written.toList).map around.docMember)

end Surroundings

/-- Drops copies of `tail` from the end, in at most `fuel` steps. -/
def dropTails (tail : List Char) : Nat → List Char → List Char
  | 0, cs => cs
  | fuel + 1, cs =>
    match Text.stripTail? tail cs with
    | some rest => dropTails tail fuel rest
    | none => cs

/-- The type and variable of a `@var` tag in a line of a docblock. The variable
comes without `$`. -/
def varTag? (line : List Char) : Option (String × String) := do
  let (_, rest) ← Text.splitFirst? "@var".toList line
  -- a second tag on the line ends the first one
  let rest := match Text.splitFirst? "@var".toList rest with
    | some (first, _) => first
    | none => rest
  match Text.wordsFrom [] rest with
  | type :: var :: _ =>
    let name ← Text.stripLead? ['$'] var
    some (String.ofList type, String.ofList (dropTails ['*', '/'] name.length name))
  | _ => none

/-- The types that `@var` tags of a docblock give to variables. -/
def varTags (docblock : String) : List (String × String) :=
  (Text.lineChars docblock.toList).filterMap varTag?

end UpgradeNotes
