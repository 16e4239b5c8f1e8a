import UpgradeNotes.Inference
import UpgradeNotes.Php.Walk

/-!
# Collecting classes

The classes that a file declares, for the class index. The walk stays out of
methods and expressions, so classes declared there are not collected.
-/

namespace UpgradeNotes

open Php

namespace Collect

/-- Adds a property if its type names a class. -/
def addProperty (info : ClassInfo) (name : String) (type : ReceiverType) : ClassInfo :=
  if type.classNames.isEmpty then info
  else { info with properties := info.properties.insert (Text.dropLeading '$' name) type }

/-- Adds what a member says about the properties and traits of its class. -/
def addMember (around : Surroundings) (info : ClassInfo) : Member → ClassInfo
  | .method m =>
    if Text.sameFold m.name "__construct" then
      m.parameters.foldl (fun info p =>
        match p.promoted, p.hint with
        | true, some hint => addProperty info p.name (around.hintType hint)
        | _, _ => info) info
    else info
  | .traitUse names => { info with traits := info.traits ++ names.map around.names.resolve }
  | .properties _ (some hint) items =>
    let type := around.hintType hint
    items.foldl (fun info item => addProperty info item.name type) info
  | _ => info

/-- What a declaration says about its class. -/
def info (names : NameContext) (c : ClassLike) : ClassInfo :=
  let resolved := c.parents.map names.resolve
  let interfaces := c.interfaces.map names.resolve
  let head : ClassInfo :=
    match c.kind with
    | .ordinary =>
      { name := names.declare c.name, parent := resolved.head?, interfaces }
    | .interface => { name := names.declare c.name, interfaces := resolved }
    | .trait => { name := names.declare c.name }
    | .enumeration => { name := names.declare c.name, interfaces }
  let around : Surroundings :=
    { index := .empty, names, enclosing := some ⟨head.name, head.parent⟩ }
  c.members.foldl (addMember around) head

/-- The state of the walk. -/
structure State where
  names : NameContext := {}
  classes : List ClassInfo := []

/-- The hooks of the walk. -/
def visitor : Visitor State where
  enterStmt
    | .namespaceBlock _ name _ _, s => (true, { s with names := .enter name })
    | .importNames _ group items, s => (false, { s with names := s.names.addUses group items })
    | .classLike _ c, s => (true, { s with classes := s.classes ++ [info s.names c] })
    | _, s => (true, s)
  leaveStmt
    | .namespaceBlock _ _ true _, s => { s with names := .enter none }
    | _, s => s
  enterMethod _ s := (false, s)
  enterExpr _ s := (false, s)

end Collect

/-- The classes that a program declares, in order. -/
def collectClasses (p : Program) : List ClassInfo :=
  (Collect.visitor.program p {}).classes

end UpgradeNotes
