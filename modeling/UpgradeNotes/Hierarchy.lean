import UpgradeNotes.ClassName

/-!
# Hierarchies

What matching asks about the classes of a program, and the comparison built on
it: `Hierarchy.isSameOrSubclass` first compares names, and consults the
hierarchy only if they differ.
-/

namespace UpgradeNotes

/-- The questions about classes that matching asks. -/
structure Hierarchy where
  /-- Whether the class is known. -/
  hasClass : String → Bool
  /-- The declared spelling of a known class. -/
  declaredName : String → Option String
  /-- The parents of a class, nearest first. -/
  parents : String → List String
  /-- Whether the first class extends or implements the second one, directly or
  not. -/
  isSubclass : String → String → Bool

namespace Hierarchy

/-- The hierarchy that knows no class. -/
def unknown : Hierarchy where
  hasClass _ := false
  declaredName _ := none
  parents _ := []
  isSubclass _ _ := false

/-- Whether `actual` is the configured class or one of its subclasses. A
qualified name is looked for among all superclasses, a short name only in the
chain of parents. -/
def isSameOrSubclass (h : Hierarchy) (actual configured : String) : Bool :=
  let actual := ClassName.unrooted actual
  let configured := ClassName.unrooted configured
  if ClassName.fits actual configured then true
  else if !h.hasClass actual then false
  else if ClassName.isQualified configured then
    (h.declaredName actual).any (Text.sameFold · configured) || h.isSubclass actual configured
  else
    ((h.declaredName actual).getD actual :: h.parents actual).any fun name =>
      !name.isEmpty && ClassName.fits name configured

end Hierarchy

end UpgradeNotes
