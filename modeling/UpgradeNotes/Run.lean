import UpgradeNotes.Collect
import UpgradeNotes.Files.Catalog
import UpgradeNotes.Files.Config
import UpgradeNotes.Options
import UpgradeNotes.Php.Parse
import UpgradeNotes.Registry
import UpgradeNotes.Report

/-!
# A run of the program

All files are read first for the classes that they declare, the given ones and
those of the directories to scan. Then each given file is checked against all
that is known, and only then are annotations shown or written, file by file in
the order of their paths.
-/

namespace UpgradeNotes

/-- The name of the program. -/
def programName : String := "ssu-rector"

/-- The version of the program. -/
def programVersion : String := "0.1.0"

/-- What a run leaves behind: the text that it shows, the lines that go beside
it, and its exit code. -/
structure RunResult where
  shown : String := ""
  asides : List String := []
  exitCode : Nat := 0
deriving DecidableEq

namespace Options

/-- Whether annotations are written. -/
def mode (o : Options) : Mode :=
  if o.check || o.dryRun || !o.fix then .check else .fix

end Options

namespace Run

open Paint (paint)

variable {m : Type → Type} [Monad m]

/-- The end of a run that cannot go on. -/
def failure (colors : Bool) (reason : String) (shown : String := "") (asides : List String := []) :
    RunResult :=
  { shown, asides := asides ++ [paint colors .red "Error" ++ ": " ++ reason], exitCode := 1 }

/-- The list of all rules. -/
def ruleList (colors : Bool) (g : Registry) : String :=
  paint colors .bold "Available rules:" ++ "\n" ++
    String.join (g.rules.map fun r =>
      let optIn := if Registry.isOptIn r.name then " (opt-in)" else ""
      "  " ++ paint colors .green r.name ++ " - " ++ r.description ++
        paint colors .dimmed optIn ++ "\n")

/-! ## Settings and catalogs -/

/-- The settings that count for a run. -/
def settings (fs : FileAccess m) (o : Options) : m (Except String Config) := do
  if o.noConfig then return .ok {}
  else match o.config with
    | some path => return (← Config.load fs path).mapError (·.chain)
    | none =>
      match ← Config.loadFrom fs (← fs.workingDirectory) with
      | .error e => return .error e.chain
      | .ok (some (c, _)) => return .ok c
      | .ok none => return .ok {}

/-- The format of the output: the one asked for, the one of the settings, or
text. -/
def outputFormat (o : Options) (c : Config) : Except String OutputFormat :=
  if o.json then .ok .json
  else
    let name := (o.format.or c.format).getD "text"
    match OutputFormat.ofName? name with
    | some f => .ok f
    | none =>
      .error ("Invalid output format '" ++ name ++ "'. Valid options: text, json, diff")

/-- Gives the changes of a catalog to the rule of a name, if there is one. -/
def replaceCatalog (g : Registry) (name : String) (c : Catalog) : Registry :=
  (g.setChanges? name c.changes).getD g

/-- Loads the catalogs of single rules one after the other. -/
def ruleCatalogs (fs : FileAccess m) (g : Registry) :
    List (String × String) → m (Except String Registry)
  | [] => return .ok g
  | (rule, path) :: rest => do
    match ← Catalog.load fs path with
    | .error e => return .error ("Failed to load catalog for rule '" ++ rule ++ "': " ++ e.chain)
    | .ok c => ruleCatalogs fs (replaceCatalog g rule c) rest

/-- The rules with the catalogs of a directory and those of the settings in
place of their own. -/
def rules (fs : FileAccess m) (o : Options) (c : Config) : m (Except String Registry) := do
  match o.catalogDir with
  | none => ruleCatalogs fs .builtin c.catalogs
  | some dir =>
    match ← Catalog.loadAll fs dir with
    | .error e => return .error ("Failed to load catalogs from " ++ dir ++ ": " ++ e.chain)
    | .ok loaded =>
      let g := loaded.foldl (fun g c => replaceCatalog g c.name c) .builtin
      ruleCatalogs fs g c.catalogs

/-! ## Files -/

/-- Whether a path is one of a PHP file. -/
def isPhp (path : String) : Bool :=
  Path.extension? path == some "php"

/-- The files of a path: the file itself, or the PHP files below a directory that
are not left out. None if nothing is there. -/
def filesOf (fs : FileAccess m) (c : Config) (path : String) : m (Option (List String)) := do
  match ← fs.kind path with
  | some .file => return some [path]
  | some .directory =>
    let found ← fs.walk FileAccess.maxDepth path
    let paths := found.filterMap fun
      | .file p => some p
      | .directory p => some p
      | .unreadable .. => none
    return some (paths.filter fun p => isPhp p && !c.excludes p)
  | none => return none

/-- The files of some paths in order, and the paths where nothing is. -/
def collectFiles (fs : FileAccess m) (c : Config) (paths : List String) :
    m (List String × List String) := do
  let found ← paths.mapM fun p => do return (p, ← filesOf fs c p)
  let files := found.flatMap fun (_, fs) => fs.getD []
  let missing := found.filterMap fun (p, fs) => if fs.isNone then some p else none
  return (Path.sortUnique files, missing)

/-- The classes that some files declare, none if parsing one of them breaks down.
Files that cannot be read declare no classes. -/
def indexFiles (fs : FileAccess m) (ix : ClassIndex) : List String → m (Option ClassIndex)
  | [] => return some ix
  | path :: rest => do
    match ← fs.read path with
    | .ok source =>
      match Php.parse? source with
      | some program => indexFiles fs (ix.extend (collectClasses program)) rest
      | none => return none
    | .error _ => indexFiles fs ix rest

/-- The notes of a check, each at its place in the source. -/
def notesOf (source : String) (r : CheckResult) : List Note :=
  r.annotations.map fun a => ⟨a.rule, Text.Position.ofOffset source.toList a.offset, a.text⟩

/-- What comes out of a source. One on which parsing breaks down does not come
this far, because it is indexed before. -/
def outcomeOf (g : Registry) (enabled : List String) (ix : ClassIndex) (path source : String) :
    Outcome :=
  match Php.parse? source with
  | none => .malformed
  | some program =>
    if !program.complete then .malformed
    else
      let r := g.check program source enabled ix
      if r.isEmpty then .unchanged
      else
        match Edit.applyAll source r.edits with
        | .error e => .failed ("Failed to apply edits to " ++ path ++ ": " ++ e.message)
        | .ok after =>
          if r.annotations.isEmpty then .unchanged else .changed (notesOf source r) source after

/-- What comes out of a file. -/
def checkFile (fs : FileAccess m) (g : Registry) (enabled : List String) (ix : ClassIndex)
    (path : String) : m Outcome := do
  match ← fs.read path with
  | .error fault => return .failed ("Failed to read file: " ++ path ++ ": " ++ fault.message)
  | .ok source => return outcomeOf g enabled ix path source

/-! ## Results -/

/-- Writes what has changed, if it is to be written. -/
def writeOutcome (fs : FileAccess m) (mode : Mode) (path : String) (o : Outcome) :
    m (Except FileFault Unit) :=
  match mode, o with
  | .fix, .changed _ _ after => fs.write path after
  | _, _ => return .ok ()

/-- Reports on files one after the other. A file that cannot be written ends
the run. -/
def reportAll (fs : FileAccess m) (r : Report) :
    List (String × Outcome) → m (Except (String × Report) Report)
  | [] => return .ok r
  | (path, o) :: rest => do
    match ← writeOutcome fs r.layout.mode path o with
    | .error fault =>
      return .error ("Failed to write file: " ++ path ++ ": " ++ fault.message, r)
    | .ok () => reportAll fs (r.add path o) rest

/-- The head of a detailed report. -/
def head (l : Layout) (enabled : List String) : String :=
  if l.verbose && l.format = .text then
    paint l.colors .bold "Mode" ++ ": " ++ l.mode.name ++ "\n" ++
      paint l.colors .bold "Rules" ++ ": " ++ String.intercalate ", " enabled ++ "\n\n"
  else ""

/-- The exit code of a run that breaks down. -/
def breakdownCode : Nat := 101

/-- Checks the files of a run and reports on them. Without an index there is
nothing to report. -/
def processFiles (fs : FileAccess m) (o : Options) (c : Config) (g : Registry)
    (enabled : List String) (layout : Layout) : m RunResult := do
  let (files, missing) ← collectFiles fs c o.paths
  let (scanned, _) ← collectFiles fs {} (c.scan ++ o.scan)
  match ← indexFiles fs .empty (Path.sortUnique (files ++ scanned)) with
  | none => return { shown := head layout enabled, exitCode := breakdownCode }
  | some index =>
    let outcomes ← files.mapM fun path => do return (path, ← checkFile fs g enabled index path)
    let start : Report := { layout, shown := head layout enabled }
    let start := missing.foldl (fun r p => r.warn ("Path does not exist: " ++ p)) start
    match ← reportAll fs start outcomes with
    | .error (reason, r) => return failure layout.colors reason r.shown r.warnings
    | .ok r =>
      let done := r.finish programVersion
      return { shown := done.shown, asides := done.warnings
               exitCode := done.summary.exitCode layout.mode }

/-- The first of some names that no rule has. -/
def unknownRule? (g : Registry) (names : List String) : Option String :=
  names.find? fun name => !g.names.contains name

/-- Runs the program with options. -/
def withOptions (fs : FileAccess m) (colors : Bool) (o : Options) : m RunResult := do
  if o.listRules then return { shown := ruleList colors .builtin }
  else
    match ← settings fs o with
    | .error reason => return failure colors reason
    | .ok c =>
      match outputFormat o c with
      | .error reason => return failure colors reason
      | .ok format =>
        match ← rules fs o c with
        | .error reason => return failure colors reason
        | .ok g =>
          match unknownRule? g o.rules with
          | some name =>
            return failure colors
              ("Unknown rule '" ++ name ++ "'. Use --list-rules to see available rules.")
          | none =>
            let enabled := c.effectiveRules g.defaultNames o.rules
            if enabled.isEmpty then return failure colors "No rules enabled"
            else processFiles fs o c g enabled { format, mode := o.mode, verbose := o.verbose, colors }

/-- The text that explains the command line. -/
def helpText : String :=
  "Annotate Silverstripe code with upgrade TODOs\n\n" ++
  "Usage: " ++ programName ++ " [OPTIONS] [PATHS]...\n\n" ++
  "Options:\n" ++
  "      --check              Report annotations without writing them (default mode)\n" ++
  "      --fix                Write annotations to files\n" ++
  "  -v, --verbose            Show verbose output\n" ++
  "  -r, --rule <RULE>        Rules to run (can be repeated)\n" ++
  "      --format <FORMAT>    Output format: text, json, diff\n" ++
  "      --json               Shorthand for --format json\n" ++
  "      --config <PATH>      Path to config file\n" ++
  "      --no-config          Ignore config files\n" ++
  "      --scan <DIR>         Directories whose classes are indexed but not annotated\n" ++
  "      --catalog-dir <DIR>  Directory of YAML catalogs replacing the embedded ones\n" ++
  "      --list-rules         List available rules and exit\n" ++
  "  -h, --help               Print help\n" ++
  "  -V, --version            Print version\n"

end Run

/-- Runs the program with the arguments of a command line. A command line that
makes no sense is an error of its own. -/
def run {m : Type → Type} [Monad m] (fs : FileAccess m) (colors : Bool) (args : List String) :
    m (Except Options.UsageError RunResult) := do
  match Options.parse args with
  | .error e => return .error e
  | .ok .help => return .ok { shown := Run.helpText }
  | .ok .version => return .ok { shown := programName ++ " " ++ programVersion ++ "\n" }
  | .ok (.run o) => return .ok (← Run.withOptions fs colors o)

end UpgradeNotes
