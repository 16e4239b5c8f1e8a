import UpgradeNotes.ReceiverType

/-!
# Sites

A site is a place in a program that a change may concern: a call, a method
declaration or a class declaration.
-/

namespace UpgradeNotes

/-- The kinds of site, in the order in which rules list them. -/
inductive SiteKind where
  | methodCall
  | nullsafeCall
  | staticCall
  | methodDeclaration
  | classDeclaration
deriving DecidableEq, Repr

/-- How the class of a site is known. -/
inductive ReceiverKind where
  /-- Through the type of an object. -/
  | instanceOf
  /-- Through a class name in front of `::`. -/
  | static
  /-- Through the declaration that encloses the site. -/
  | declaration
deriving DecidableEq, Repr

/-- A place that a change may concern. -/
inductive Site where
  /-- `$object->method()`, or `$object?->method()` if nullsafe. -/
  | methodCall (nullsafe : Bool) (method : String) (receiver : ReceiverType)
  /-- `Class::method()`, without a name if the class is computed. -/
  | staticCall (method : String) (className : Option String)
  /-- A method in the body of the class. -/
  | methodDeclaration (method : String) (className : String)
  /-- A class, with the traits it uses. -/
  | classDeclaration (className : String) (traits : List String)

namespace Site

/-- The kind of the site. -/
def kind : Site → SiteKind
  | methodCall false _ _ => .methodCall
  | methodCall true _ _ => .nullsafeCall
  | staticCall .. => .staticCall
  | methodDeclaration .. => .methodDeclaration
  | classDeclaration .. => .classDeclaration

/-- The method named at the site, empty for a class declaration. -/
def method : Site → String
  | methodCall _ m _ => m
  | staticCall m _ => m
  | methodDeclaration m _ => m
  | classDeclaration .. => ""

/-- How the class of the site is known. -/
def receiverKind : Site → ReceiverKind
  | methodCall .. => .instanceOf
  | staticCall .. => .static
  | methodDeclaration .. | classDeclaration .. => .declaration

/-- Whether there is a type or class to compare. -/
def receiverKnown : Site → Bool
  | methodCall _ _ t => !t.isUnknown
  | staticCall _ c => c.isSome
  | methodDeclaration .. | classDeclaration .. => true

/-- The classes that the receiver may be of. -/
def candidates : Site → List String
  | methodCall _ _ t => t.classNames
  | staticCall _ c => c.toList
  | methodDeclaration _ c | classDeclaration c _ => [c]

end Site

end UpgradeNotes
