import UpgradeNotes.Text.Lines

/-!
# Paths

A path is kept as it is written. Its segments are the parts between slashes, of
which an empty one and a single dot say nothing, a dot in front of a relative
path apart. Paths are the same, and are ordered, by their steps.
-/

namespace UpgradeNotes.Path

/-- A step of a path, in the order in which steps sort. -/
inductive Step where
  | root
  | here
  | up
  | name (s : String)
deriving DecidableEq

/-- Whether the path starts at the root. -/
def isAbsolute (p : String) : Bool :=
  p.toList.head? == some '/'

/-- The step that a segment stands for, where `first` says that nothing is in
front of it. -/
def step? (first : Bool) (segment : String) : Option Step :=
  if segment.isEmpty then none
  else if segment == "." then (if first then some .here else none)
  else if segment == ".." then some .up
  else some (.name segment)

/-- The steps of some segments. -/
def stepsOf (first : Bool) : List String → List Step
  | [] => []
  | s :: rest => (step? first s).toList ++ stepsOf false rest

/-- The steps of a path. -/
def steps (p : String) : List Step :=
  if isAbsolute p then .root :: stepsOf false (Text.split '/' p)
  else stepsOf true (Text.split '/' p)

/-- The place of a kind of step in the order. -/
def Step.rank : Step → Nat
  | root => 0
  | here => 1
  | up => 2
  | name _ => 3

/-- The order of two steps. -/
def Step.compare : Step → Step → Ordering
  | name s, name t => Ord.compare s t
  | s, t => Ord.compare s.rank t.rank

/-- The order of two lists of steps. -/
def compareSteps : List Step → List Step → Ordering
  | [], [] => .eq
  | [], _ :: _ => .lt
  | _ :: _, [] => .gt
  | s :: ss, t :: ts => (s.compare t).then (compareSteps ss ts)

/-- The order of two paths. -/
def compare (p q : String) : Ordering :=
  compareSteps (steps p) (steps q)

/-- Sorts paths, and keeps the first spelling of each. -/
def sortUnique (ps : List String) : List String :=
  dedupe (ps.mergeSort fun p q => (compare p q).isLE)
where
  /-- Drops a path behind the same one. -/
  dedupe : List String → List String
    | [] => []
    | p :: rest => p :: skip p rest
  /-- Drops the paths in front that are the same as `p`. -/
  skip (p : String) : List String → List String
    | [] => []
    | q :: rest => if (compare p q).isEq then skip p rest else q :: skip q rest

/-- A path below a directory. An absolute path stands for itself. -/
def join (dir p : String) : String :=
  if isAbsolute p then p
  else if dir.isEmpty || dir.toList.getLast? == some '/' then dir ++ p
  else dir ++ "/" ++ p

/-- Segments, last one first, without those at the end that say nothing. -/
def dropSilent : List String → List String
  | [] => []
  | [s] => if (step? true s).isSome then [s] else []
  | s :: rest => if (step? false s).isSome then s :: rest else dropSilent rest

/-- The path one step up, none at the root and for the empty path. -/
def parent? (p : String) : Option String :=
  match dropSilent (Text.split '/' p).reverse with
  | [] => none
  | _ :: rest =>
    match dropSilent rest with
    | [] => some (if isAbsolute p then "/" else "")
    | kept => some (String.intercalate "/" kept.reverse)

/-- The last step of a path, if it is a name. -/
def fileName? (p : String) : Option String :=
  match (steps p).getLast? with
  | some (.name s) => some s
  | _ => none

/-- The name of a file in front of its last dot, and what is behind it. A dot at
the start of the name does not count. -/
def splitExtension (name : String) : String × Option String :=
  let behind := name.toList.reverse.takeWhile (· != '.')
  let front := (name.toList.reverse.dropWhile (· != '.')).drop 1
  if front.isEmpty then (name, none)
  else (String.ofList front.reverse, some (String.ofList behind.reverse))

/-- What is behind the last dot of the file's name. -/
def extension? (p : String) : Option String :=
  (fileName? p).bind fun name => (splitExtension name).2

/-- The name of the file in front of its last dot. -/
def stem? (p : String) : Option String :=
  (fileName? p).map fun name => (splitExtension name).1

end UpgradeNotes.Path
