import UpgradeNotes.Text.Case

/-!
# Changes

A change is one documented incompatibility between two versions of a
framework: a class, usually one of its methods, and a note for the developer.
-/

namespace UpgradeNotes

/-- One documented incompatibility. -/
structure Change where
  /-- The class or trait concerned, short or qualified. -/
  className : String
  /-- The method concerned, empty if the class as a whole is. -/
  method : String
  /-- What the developer should know. -/
  note : String
  /-- The parameter concerned, if any. -/
  parameter : Option String := none
  /-- What held before the change, if stated. -/
  before : Option String := none
  /-- What holds after the change, if stated. -/
  after : Option String := none
  /-- Whether calls on receivers of unknown type are concerned too. -/
  onUnknown : Bool := false
deriving DecidableEq

namespace Change

/-- Whether the change concerns a whole class or trait. -/
def isTypeLevel (c : Change) : Bool :=
  c.method.isEmpty

/-- Whether the change concerns a method of this name. -/
def concerns (c : Change) (method : String) : Bool :=
  !c.isTypeLevel && Text.sameFold c.method method

end Change

end UpgradeNotes
