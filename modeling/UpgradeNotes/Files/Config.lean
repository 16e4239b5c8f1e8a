import UpgradeNotes.Config
import UpgradeNotes.Files.Basic

/-!
# Settings in files

Settings are looked for in a directory and in those above it, and the nearest
ones count. Paths in them start at the directory of their file.
-/

namespace UpgradeNotes.Config

/-- Why settings cannot be loaded. -/
inductive LoadError where
  | unreadable (path : String) (fault : FileFault)
  | malformed (path : String)
deriving DecidableEq

/-- The text that reports the error. -/
def LoadError.message : LoadError → String
  | unreadable path _ => "Failed to read " ++ path
  | malformed path => "Failed to parse " ++ path

/-- The text that reports the error with its cause. -/
def LoadError.chain : LoadError → String
  | e@(unreadable _ fault) => e.message ++ ": " ++ fault.message
  | e => e.message

variable {m : Type → Type} [Monad m]

/-- Loads the settings of a file. -/
def load (fs : FileAccess m) (path : String) : m (Except LoadError Config) := do
  match ← fs.read path with
  | .error fault => return .error (.unreadable path fault)
  | .ok source =>
    match parse? source with
    | none => return .error (.malformed path)
    | some c =>
      match Path.parent? path with
      | some dir => return .ok (c.resolve dir)
      | none => return .ok c

/-- A directory and those above it, nearest first. -/
def directories : Nat → String → List String
  | 0, _ => []
  | fuel + 1, dir =>
    match Path.parent? dir with
    | some above => dir :: directories fuel above
    | none => [dir]

/-- Loads the nearest settings among some directories, with the path of their
file. -/
def loadNearest (fs : FileAccess m) : List String → m (Except LoadError (Option (Config × String)))
  | [] => return .ok none
  | dir :: rest => do
    let path := Path.join dir fileName
    if (← fs.kind path).isSome then
      match ← load fs path with
      | .ok c => return .ok (some (c, path))
      | .error e => return .error e
    else loadNearest fs rest

/-- Loads the settings that count in a directory. -/
def loadFrom (fs : FileAccess m) (dir : String) :
    m (Except LoadError (Option (Config × String))) :=
  loadNearest fs (directories (dir.length + 1) dir)

end UpgradeNotes.Config
