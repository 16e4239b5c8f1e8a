import UpgradeNotes.Catalog
import UpgradeNotes.Docblock
import UpgradeNotes.Matching
import UpgradeNotes.Table

/-!
# Rules

A rule owns the changes of one catalog and says how they are announced and where
a method declaration is annotated. Its changes are indexed by the method they
concern; the index is a function of the changes, which the type records.
-/

namespace UpgradeNotes

/-- Where a method declaration is annotated. -/
inductive Placement where
  /-- In the docblock of the method. -/
  | docBlock
  /-- At the first statement of its body, or in the docblock if there is none. -/
  | firstStatement
deriving DecidableEq, Repr

/-- The positions of changes in a list, by what they concern. -/
structure ChangeIndex where
  /-- The positions by method name in lower case, in order. -/
  byMethod : Table (List Nat) := {}
  /-- The positions of changes of whole classes, in order. -/
  typeLevel : List Nat := []

namespace ChangeIndex

/-- Adds the change at position `i`. -/
def add (ix : ChangeIndex) (i : Nat) (c : Change) : ChangeIndex :=
  if c.isTypeLevel then { ix with typeLevel := ix.typeLevel ++ [i] }
  else
    let key := Text.fold c.method
    let positions := (ix.byMethod.get? key).getD []
    { ix with byMethod := ix.byMethod.insert key (positions ++ [i]) }

/-- Adds changes whose first one is at position `i`. -/
def addFrom (ix : ChangeIndex) (i : Nat) : List Change → ChangeIndex
  | [] => ix
  | c :: rest => (ix.add i c).addFrom (i + 1) rest

/-- The index of a list of changes. -/
def ofChanges (changes : List Change) : ChangeIndex :=
  ChangeIndex.addFrom {} 0 changes

/-- The positions that may apply at a site. -/
def positions (ix : ChangeIndex) (site : Site) : List Nat :=
  if site.kind = .classDeclaration then ix.typeLevel
  else (ix.byMethod.get? (Text.fold site.method)).getD []

end ChangeIndex

/-- A rule. -/
structure Rule where
  name : String
  description : String := ""
  style : TodoStyle := .upgradeTask
  placement : Placement := .docBlock
  /-- The changes that the rule announces. -/
  changes : List Change := []
  /-- The index of the changes. -/
  index : ChangeIndex := ChangeIndex.ofChanges changes
  index_eq : index = ChangeIndex.ofChanges changes := by rfl

namespace Rule

/-- The rule with other changes. -/
def withChanges (r : Rule) (changes : List Change) : Rule :=
  { r with changes, index := ChangeIndex.ofChanges changes, index_eq := rfl }

/-- The rule with the changes that raw entries describe. -/
def configure (r : Rule) (entries : List Yaml.Value) : Rule :=
  r.withChanges (Change.ofEntries entries)

/-- The kinds of site that the rule asks for. -/
def siteKinds (r : Rule) : List SiteKind :=
  [.methodCall, .nullsafeCall, .staticCall, .methodDeclaration] ++
    if r.index.typeLevel.isEmpty then [] else [.classDeclaration]

/-- Whether some change can apply at sites of the kind. -/
def wants (r : Rule) : SiteKind → Bool
  | .classDeclaration => !r.index.typeLevel.isEmpty
  | _ => !r.index.byMethod.entries.isEmpty

/-- Whether some change concerns a method of this name. -/
def hasMethod (r : Rule) (method : String) : Bool :=
  r.index.byMethod.contains (Text.fold method)

/-- The changes that may apply at a site. -/
def candidates (r : Rule) (site : Site) : List Change :=
  (r.index.positions site).filterMap (r.changes[·]?)

/-- Appends a line unless it is there already. -/
def addLine (lines : List String) (line : String) : List String :=
  if lines.contains line then lines else lines ++ [line]

/-- The lines that announce the changes at a site, each once, in catalog order. -/
def announcements (r : Rule) (h : Hierarchy) (site : Site) : List String :=
  ((site.applicable h (r.candidates site)).map (·.todoLine r.style)).foldl addLine []

/-- Writes the announcements at a site to a target. The lines that were new come
back with the target. -/
def annotate (r : Rule) (h : Hierarchy) (site : Site) (target : Docblock.Target) :
    Docblock.Target × List String :=
  target.writeAll (r.announcements h site)

end Rule

end UpgradeNotes
