import UpgradeNotes.Files.Basic

/-!
# Files in memory

A tree of files as a value. A path is followed step by step from the root or
the working directory, and every step but the last has to lead to a directory.
-/

namespace UpgradeNotes

/-- What stands in a tree. -/
inductive TreeItem where
  | directory
  | file (content : ByteArray)

/-- Files and directories by the names that lead to them. A directory above
another item need not be listed. -/
structure FileTree where
  workingDirectory : List String := []
  items : List (List String × TreeItem) := []

namespace FileTree

/-- What stands at the end of some names. -/
def kindAt (t : FileTree) (names : List String) : Option FileKind :=
  match t.items.find? (·.1 == names) with
  | some (_, .file _) => some .file
  | some (_, .directory) => some .directory
  | none =>
    if names.isEmpty || t.items.any (fun (other, _) => names.isPrefixOf other) then
      some .directory
    else none

/-- Follows steps on from some names, which have to lead to a directory as long
as steps are left. -/
def follow (t : FileTree) (names : List String) : List Path.Step → Except FileFault (List String)
  | [] => .ok names
  | s :: rest =>
    match t.kindAt names with
    | none => .error .missing
    | some .file => .error .notDirectory
    | some .directory =>
      match s with
      | .root => t.follow [] rest
      | .here => t.follow names rest
      | .up => t.follow names.dropLast rest
      | .name n => t.follow (names ++ [n]) rest

/-- Whether a path can only mean a directory. -/
def wantsDirectory (p : String) : Bool :=
  match p.toList.reverse with
  | '/' :: _ => true
  | '.' :: '/' :: _ => true
  | _ => false

/-- The names that a path leads to, and what stands there. -/
def locate (t : FileTree) (p : String) : Except FileFault (List String × FileKind) :=
  if p.isEmpty then .error .missing
  else
    match t.follow t.workingDirectory (Path.steps p) with
    | .error fault => .error fault
    | .ok names =>
      match t.kindAt names with
      | none => .error .missing
      | some .file => if wantsDirectory p then .error .notDirectory else .ok (names, .file)
      | some .directory => .ok (names, .directory)

/-- What stands at a path. -/
def kind (t : FileTree) (p : String) : Option FileKind :=
  match t.locate p with
  | .ok (_, k) => some k
  | .error _ => none

/-- The text of a file. -/
def read (t : FileTree) (p : String) : Except FileFault String :=
  match t.locate p with
  | .error fault => .error fault
  | .ok (_, .directory) => .error .isDirectory
  | .ok (names, .file) =>
    match t.items.lookup names with
    | some (.file content) =>
      match String.fromUTF8? content with
      | some text => .ok text
      | none => .error .notText
    | _ => .error .missing

/-- The names in a directory. -/
def list (t : FileTree) (p : String) : Except FileFault (List String) :=
  match t.locate p with
  | .error fault => .error fault
  | .ok (_, .file) => .error .notDirectory
  | .ok (names, .directory) =>
    .ok (t.items.filterMap fun (other, _) =>
      if names.isPrefixOf other then other[names.length]? else none).eraseDups

/-- Puts text into a file that is already there. -/
def write (t : FileTree) (p : String) (text : String) : Except FileFault FileTree :=
  match t.locate p with
  | .error fault => .error fault
  | .ok (_, .directory) => .error .isDirectory
  | .ok (names, .file) =>
    .ok { t with items := t.items.map fun (other, item) =>
            if other == names then (other, .file text.toUTF8) else (other, item) }

/-- Access to the files of a tree. -/
def access : FileAccess (StateM FileTree) where
  workingDirectory := do return "/" ++ String.intercalate "/" (← get).workingDirectory
  kind p := do return (← get).kind p
  read p := do return (← get).read p
  list p := do return (← get).list p
  write p text := do
    match (← get).write p text with
    | .ok t =>
      set t
      return .ok ()
    | .error fault => return .error fault

end FileTree

end UpgradeNotes
