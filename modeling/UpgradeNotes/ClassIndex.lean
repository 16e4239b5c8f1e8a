import UpgradeNotes.Hierarchy
import UpgradeNotes.ReceiverType
import UpgradeNotes.Table

/-!
# The class index

All classes known to a run, with their parents, interfaces, traits and typed
properties. The walks over the index take the classes not visited yet as an
argument that shrinks with every visit, so each of them ends on any index, also
on one with cycles.
-/

namespace UpgradeNotes

/-- What is known of a declared class, interface, trait or enum. -/
structure ClassInfo where
  /-- The fully qualified name. -/
  name : String
  /-- The parent class. -/
  parent : Option String := none
  /-- The interfaces implemented, or extended by an interface. -/
  interfaces : List String := []
  /-- The traits used. -/
  traits : List String := []
  /-- The declared class types of properties, named without `$`. -/
  properties : Table ReceiverType := {}

/-- The name without its namespace. -/
def ClassInfo.shortName (c : ClassInfo) : String :=
  ClassName.lastSegment c.name

/-- The parent and the interfaces, as written. -/
def ClassInfo.links (c : ClassInfo) : List String :=
  c.parent.toList ++ c.interfaces

/-- The classes known to a run. -/
structure ClassIndex where
  /-- The classes by key. -/
  classes : Table ClassInfo := {}

namespace ClassIndex

/-- The index without classes. -/
def empty : ClassIndex := {}

/-- Adds a class; a later declaration of a name replaces the earlier one. -/
def register (ix : ClassIndex) (c : ClassInfo) : ClassIndex :=
  ⟨ix.classes.insert (ClassName.key c.name) c⟩

/-- Adds classes in order. -/
def extend (ix : ClassIndex) (cs : List ClassInfo) : ClassIndex :=
  cs.foldl register ix

/-- The class of a name, in any letter case and with or without root. -/
def get? (ix : ClassIndex) (name : String) : Option ClassInfo :=
  ix.classes.get? (ClassName.key name)

/-- The number of classes. -/
def size (ix : ClassIndex) : Nat :=
  ix.classes.size

/-- Whether the class is known. -/
def hasClass (ix : ClassIndex) (name : String) : Bool :=
  (ix.get? name).isSome

/-- The declared spelling of a known class. -/
def declaredName (ix : ClassIndex) (name : String) : Option String :=
  (ix.get? name).map (·.name)

/-! ## Taking a class out of the classes not visited yet -/

/-- Takes the class with this key out of a list of entries. -/
def take? (key : String) : List (String × ClassInfo) → Option (ClassInfo × List (String × ClassInfo))
  | [] => none
  | (k, c) :: rest =>
    if k = key then some (c, rest)
    else (take? key rest).map fun (found, others) => (found, (k, c) :: others)

theorem length_of_take? {key : String} {entries others : List (String × ClassInfo)}
    {c : ClassInfo} (h : take? key entries = some (c, others)) :
    entries.length = others.length + 1 := by
  induction entries generalizing others with
  | nil => simp [take?] at h
  | cons entry rest ih =>
    obtain ⟨k, c'⟩ := entry
    simp only [take?] at h
    split at h
    · simp_all
    · obtain ⟨⟨f, o⟩, ho, he⟩ := Option.map_eq_some_iff.1 h
      simp only [Prod.mk.injEq] at he
      obtain ⟨rfl, rfl⟩ := he
      simp [ih ho]

/-! ## Walks -/

/-- Follows parents from `parent`, where `unvisited` are the classes that the
walk has not met. A known class that was met before ends the walk. -/
def chain (ix : ClassIndex) (unvisited : List (String × ClassInfo)) :
    Option String → List String
  | none => []
  | some parent =>
    match h : take? (ClassName.key parent) unvisited with
    | some (c, others) =>
      have : others.length < unvisited.length := by simp [length_of_take? h]
      c.name :: chain ix others c.parent
    | none => if ix.hasClass parent then [] else [parent]
termination_by unvisited.length

/-- The chain of parents, nearest first, up to an unknown class or the first
class met before. -/
def ancestors (ix : ClassIndex) (name : String) : List String :=
  match take? (ClassName.key name) ix.classes.entries with
  | some (c, others) => chain ix others c.parent
  | none => []

/-- Looks for `target` among the parents and interfaces of the classes on the
stack and of all classes these lead to. -/
def reaches (target : String) (unvisited : List (String × ClassInfo)) : List String → Bool
  | [] => false
  | key :: stack =>
    match h : take? key unvisited with
    | some (c, others) =>
      have : others.length < unvisited.length := by simp [length_of_take? h]
      let next := c.links.map ClassName.key
      next.contains target || reaches target others (next.reverse ++ stack)
    | none => reaches target unvisited stack
termination_by stack => (unvisited.length, stack.length)

/-- Whether `name` extends or implements `other`, directly or not. -/
def isSubclass (ix : ClassIndex) (name other : String) : Bool :=
  reaches (ClassName.key other) ix.classes.entries [ClassName.key name]

/-- Looks for a property in the classes on the stack, then in their parents, and
in their traits last. -/
def findProperty (property : String) (unvisited : List (String × ClassInfo)) :
    List String → Option ReceiverType
  | [] => none
  | key :: stack =>
    match h : take? key unvisited with
    | some (c, others) =>
      have : others.length < unvisited.length := by simp [length_of_take? h]
      match c.properties.get? property with
      | some t => some t
      | none =>
        let next := (c.traits ++ c.parent.toList).map ClassName.key
        findProperty property others (next.reverse ++ stack)
    | none => findProperty property unvisited stack
termination_by stack => (unvisited.length, stack.length)

/-- The declared class type of a property, searching parents and traits. -/
def propertyType (ix : ClassIndex) (name property : String) : Option ReceiverType :=
  findProperty property ix.classes.entries [ClassName.key name]

/-- The index as a hierarchy to match against. -/
def hierarchy (ix : ClassIndex) : Hierarchy where
  hasClass := ix.hasClass
  declaredName := ix.declaredName
  parents := ix.ancestors
  isSubclass := ix.isSubclass

end ClassIndex

end UpgradeNotes
