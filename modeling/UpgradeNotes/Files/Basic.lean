import UpgradeNotes.Path

/-!
# Files

What the program asks of the place where files are kept, in any monad: the
outer layer answers from the machine, and proofs and tests from memory.
-/

namespace UpgradeNotes

/-- Why a file or a directory cannot be read or written. -/
inductive FileFault where
  | missing
  | notDirectory
  | isDirectory
  /-- The bytes are no UTF-8 text. -/
  | notText
  /-- A directory was asked for and is not there. -/
  | noDirectory
  | other (text : String)
deriving DecidableEq

/-- The text that reports a fault. -/
def FileFault.message : FileFault → String
  | missing => "No such file or directory (os error 2)"
  | notDirectory => "Not a directory (os error 20)"
  | isDirectory => "Is a directory (os error 21)"
  | notText => "stream did not contain valid UTF-8"
  | noDirectory => "directory not found"
  | other text => text

/-- What stands at a path. -/
inductive FileKind where
  | file
  | directory
deriving DecidableEq

/-- Access to files. -/
structure FileAccess (m : Type → Type) where
  /-- The working directory. -/
  workingDirectory : m String
  /-- What stands at a path, if anything. -/
  kind : String → m (Option FileKind)
  /-- The text of a file. -/
  read : String → m (Except FileFault String)
  /-- The names in a directory. -/
  list : String → m (Except FileFault (List String))
  /-- Writes the text of a file. -/
  write : String → String → m (Except FileFault Unit)

/-- Something met on a walk through a directory. -/
inductive Found where
  | file (path : String)
  | directory (path : String)
  | unreadable (path : String) (fault : FileFault)
deriving DecidableEq

/-- The path of something met. -/
def Found.path : Found → String
  | file p => p
  | directory p => p
  | unreadable p _ => p

namespace FileAccess

variable {m : Type → Type} [Monad m]

/-- More directories than can be nested inside each other: no path is longer
than this many characters. -/
def maxDepth : Nat := 4096

/-- A directory and all that is below it. -/
def walk (fs : FileAccess m) : Nat → String → m (List Found)
  | 0, _ => return []
  | fuel + 1, dir => do
    match ← fs.list dir with
    | .error fault => return [.directory dir, .unreadable dir fault]
    | .ok names =>
      let below ← names.mapM fun name => do
        let path := Path.join dir name
        match ← fs.kind path with
        | some .directory => fs.walk fuel path
        | _ => return [.file path]
      return .directory dir :: below.flatten

end FileAccess

end UpgradeNotes
