import UpgradeNotes.Text.Lines

/-!
# Options of the command line

Long options stand behind two dashes, with a value behind an equals sign or in
the next argument. Short options stand behind one dash, several in a row, and
a value fills the rest of the row or the next argument. Two dashes alone end the
options; everything else is a path. A switch or a single value may be given once.
-/

namespace UpgradeNotes

/-- What the command line asks for. -/
structure Options where
  paths : List String := []
  check : Bool := false
  fix : Bool := false
  dryRun : Bool := false
  verbose : Bool := false
  rules : List String := []
  format : Option String := none
  json : Bool := false
  config : Option String := none
  noConfig : Bool := false
  scan : List String := []
  catalogDir : Option String := none
  listRules : Bool := false
deriving DecidableEq

namespace Options

/-- An option without a value. -/
inductive Switch where
  | check
  | fix
  | dryRun
  | verbose
  | json
  | noConfig
  | listRules
  | help
  | version
deriving DecidableEq

/-- An option with a value. -/
inductive Setting where
  | rule
  | format
  | config
  | scan
  | catalogDir
deriving DecidableEq

/-- What a command line can ask for. -/
inductive Request where
  | run (options : Options)
  | help
  | version
deriving DecidableEq

/-- What can be wrong with a command line. -/
inductive UsageError where
  | unknownOption (name : String)
  | missingValue (name : String)
  | unexpectedValue (name : String)
  | emptyValue
  | repeated
  | conflict (first second : String)
  | missingPaths
deriving DecidableEq

/-- The text that reports the error. -/
def UsageError.message : UsageError → String
  | unknownOption name => "unexpected argument '" ++ name ++ "' found"
  | missingValue name => "a value is required for '" ++ name ++ "' but none was supplied"
  | unexpectedValue name => "unexpected value for '" ++ name ++ "' found; no more were expected"
  | emptyValue => "a value is required but none was supplied"
  | repeated => "an argument cannot be used multiple times"
  | conflict first second =>
    "the argument '" ++ first ++ "' cannot be used with '" ++ second ++ "'"
  | missingPaths => "the following required arguments were not provided: <PATHS>..."

/-- A switch or a setting. -/
inductive Kind where
  | switch (s : Switch)
  | setting (s : Setting)

/-- The option of a long name. -/
def ofLong? (name : String) : Option Kind :=
  match name with
  | "check" => some (.switch .check)
  | "fix" => some (.switch .fix)
  | "dry-run" => some (.switch .dryRun)
  | "verbose" => some (.switch .verbose)
  | "rule" => some (.setting .rule)
  | "format" => some (.setting .format)
  | "json" => some (.switch .json)
  | "config" => some (.setting .config)
  | "no-config" => some (.switch .noConfig)
  | "scan" => some (.setting .scan)
  | "catalog-dir" => some (.setting .catalogDir)
  | "list-rules" => some (.switch .listRules)
  | "help" => some (.switch .help)
  | "version" => some (.switch .version)
  | _ => none

/-- The option of a letter. -/
def ofShort? (c : Char) : Option Kind :=
  match c with
  | 'n' => some (.switch .dryRun)
  | 'v' => some (.switch .verbose)
  | 'r' => some (.setting .rule)
  | 'h' => some (.switch .help)
  | 'V' => some (.switch .version)
  | _ => none

/-- How far an argument has been understood. -/
inductive Progress where
  | done (o : Options)
  /-- The next argument is the value of a setting. -/
  | awaiting (o : Options) (s : Setting)
  | answered (r : Request)

/-- Turns a switch on, which may be done once. -/
def turnOn (o : Options) : Switch → Except UsageError Progress
  | .help => .ok (.answered .help)
  | .version => .ok (.answered .version)
  | .check => once o.check { o with check := true }
  | .fix => once o.fix { o with fix := true }
  | .dryRun => once o.dryRun { o with dryRun := true }
  | .verbose => once o.verbose { o with verbose := true }
  | .json => once o.json { o with json := true }
  | .noConfig => once o.noConfig { o with noConfig := true }
  | .listRules => once o.listRules { o with listRules := true }
where
  /-- The new options, unless the switch was on. -/
  once (on : Bool) (o : Options) : Except UsageError Progress :=
    if on then .error .repeated else .ok (.done o)

/-- Gives a setting its value. A path cannot be empty. -/
def give (o : Options) (s : Setting) (value : String) : Except UsageError Options :=
  match s with
  | .rule => .ok { o with rules := o.rules ++ [value] }
  | .format => if o.format.isSome then .error .repeated else .ok { o with format := some value }
  | .config =>
    if o.config.isSome then .error .repeated
    else if value.isEmpty then .error .emptyValue
    else .ok { o with config := some value }
  | .scan =>
    if value.isEmpty then .error .emptyValue else .ok { o with scan := o.scan ++ [value] }
  | .catalogDir =>
    if o.catalogDir.isSome then .error .repeated
    else if value.isEmpty then .error .emptyValue
    else .ok { o with catalogDir := some value }

/-- Adds a path, which cannot be empty. -/
def addPath (o : Options) (path : String) : Except UsageError Options :=
  if path.isEmpty then .error .emptyValue else .ok { o with paths := o.paths ++ [path] }

/-- A long option, behind its dashes. -/
def long (o : Options) (written : List Char) : Except UsageError Progress :=
  let (name, tail) := written.span (· != '=')
  let name := String.ofList name
  match ofLong? name, tail with
  | none, _ => .error (.unknownOption ("--" ++ name))
  | some (.switch s), [] => o.turnOn s
  | some (.switch _), _ :: _ => .error (.unexpectedValue ("--" ++ name))
  | some (.setting s), [] => .ok (.awaiting o s)
  | some (.setting s), _ :: value => (o.give s (String.ofList value)).map .done

/-- A row of short options. -/
def short (o : Options) : List Char → Except UsageError Progress
  | [] => .ok (.done o)
  | c :: cs =>
    match ofShort? c with
    | none => .error (.unknownOption ("-" ++ c.toString))
    | some (.switch s) =>
      match o.turnOn s with
      | .ok (.done o) => short o cs
      | other => other
    | some (.setting s) =>
      match cs with
      | [] => .ok (.awaiting o s)
      | '=' :: value => (o.give s (String.ofList value)).map .done
      | value => (o.give s (String.ofList value)).map .done

/-- Whether an argument is written like an option. -/
def looksLikeOption (arg : String) : Bool :=
  match arg.toList with
  | '-' :: _ :: _ => true
  | _ => false

/-- Checks what only all options together show. -/
def conclude (o : Options) : Except UsageError Request :=
  if o.check && o.fix then .error (.conflict "--check" "--fix")
  else if o.dryRun && o.fix then .error (.conflict "--dry-run" "--fix")
  else if o.json && o.format.isSome then .error (.conflict "--json" "--format <FORMAT>")
  else if o.paths.isEmpty && !o.listRules then .error .missingPaths
  else .ok (.run o)

/-- Reads the paths behind the end of the options. -/
def pathsFrom (o : Options) : List String → Except UsageError Request
  | [] => o.conclude
  | path :: rest =>
    match o.addPath path with
    | .ok o => pathsFrom o rest
    | .error e => .error e

/-- Reads arguments on from some options. -/
def parseFrom (o : Options) : List String → Except UsageError Request
  | [] => o.conclude
  | arg :: rest =>
    let progress : Except UsageError Progress := match arg.toList with
      | '-' :: '-' :: name => if name.isEmpty then .ok (.done o) else o.long name
      | '-' :: c :: cs => o.short (c :: cs)
      | _ => (o.addPath arg).map .done
    if arg == "--" then pathsFrom o rest
    else
      match progress with
      | .error e => .error e
      | .ok (.answered r) => .ok r
      | .ok (.done o) => parseFrom o rest
      | .ok (.awaiting o s) =>
        match rest with
        | [] => .error (.missingValue arg)
        | value :: rest =>
          if looksLikeOption value then .error (.missingValue arg)
          else
            match o.give s value with
            | .ok o => parseFrom o rest
            | .error e => .error e

/-- Reads the arguments of a command line. -/
def parse (args : List String) : Except UsageError Request :=
  parseFrom {} args

end Options

end UpgradeNotes
