import UpgradeNotes.Catalog
import UpgradeNotes.Files.Basic
import UpgradeNotes.Yaml.Document

/-!
# Catalogs in files

A catalog file is a YAML document. A directory of catalogs is read with all
that is below it, and files in it that are no catalogs are left out.
-/

namespace UpgradeNotes.Catalog

/-- Why a catalog cannot be loaded. -/
inductive LoadError where
  | unreadable (path : String) (fault : FileFault)
  /-- The text is no YAML document. -/
  | malformed
  | shape (shape : Shape)
deriving DecidableEq

/-- The text that reports the error. -/
def LoadError.message : LoadError → String
  | unreadable path fault => "failed to read catalog " ++ path ++ ": " ++ fault.message
  | malformed => "invalid catalog YAML"
  | shape s => s.message

/-- The text that reports the error with its causes. A fault of a file is told
as part of the message and once more as its cause. -/
def LoadError.chain : LoadError → String
  | e@(unreadable _ fault) => e.message ++ ": " ++ fault.message
  | e => e.message

/-- The catalog that a text holds. -/
def parse (fallback source : String) : Except LoadError Catalog :=
  match Yaml.parse? source with
  | none => .error .malformed
  | some v =>
    match ofValue fallback v with
    | .ok c => .ok c
    | .error s => .error (.shape s)

variable {m : Type → Type} [Monad m]

/-- Loads the catalog of a file, which is named after the file if it has no name
of its own. -/
def load (fs : FileAccess m) (path : String) : m (Except LoadError Catalog) := do
  match ← fs.read path with
  | .error fault => return .error (.unreadable path fault)
  | .ok source => return parse ((Path.stem? path).getD "catalog") source

/-- Whether something met in a directory may be a catalog. -/
def isCandidate : Found → Bool
  | .file path => Path.extension? path == some "yaml" || Path.extension? path == some "yml"
  | _ => false

/-- The first fault among the things met. -/
def firstFault? : List Found → Option LoadError
  | [] => none
  | .unreadable path fault :: _ => some (.unreadable path fault)
  | _ :: rest => firstFault? rest

/-- Loads the catalogs of a directory, sorted by name. -/
def loadAll (fs : FileAccess m) (dir : String) : m (Except LoadError (List Catalog)) := do
  match ← fs.kind dir with
  | some .directory =>
    let found ← fs.walk FileAccess.maxDepth dir
    match firstFault? found with
    | some e => return .error e
    | none =>
      let loaded ← (found.filter isCandidate).mapM fun f => load fs f.path
      let catalogs := loaded.filterMap fun
        | .ok c => some c
        | .error _ => none
      return .ok (catalogs.mergeSort fun a b => decide (a.name ≤ b.name))
  | _ => return .error (.unreadable dir .noDirectory)

end UpgradeNotes.Catalog
