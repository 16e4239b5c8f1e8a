import UpgradeNotes.Change
import UpgradeNotes.Hierarchy
import UpgradeNotes.Site

/-!
# Matching

The decision whether a change applies at a site.
-/

namespace UpgradeNotes

/-- Whether the change applies at the site. A class declaration is matched by
changes of whole classes, through the class or a trait it uses; any other site
by changes of its method. A receiver of unknown type is matched only by changes
that allow it, a computed class by none. -/
def Change.appliesAt (h : Hierarchy) (c : Change) : Site → Bool
  | .classDeclaration name traits =>
    c.isTypeLevel &&
      (h.isSameOrSubclass name c.className || traits.any (ClassName.fits · c.className))
  | site =>
    c.concerns site.method &&
      if site.receiverKnown then site.candidates.any (h.isSameOrSubclass · c.className)
      else site.receiverKind != .static && c.onUnknown

/-- The changes that apply at the site, in the given order. -/
def Site.applicable (h : Hierarchy) (site : Site) (changes : List Change) : List Change :=
  changes.filter (·.appliesAt h site)

end UpgradeNotes
