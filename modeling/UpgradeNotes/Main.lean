import UpgradeNotes.Run

/-!
# The command line

Answers the questions of a run from the machine, shows its result and ends with
its exit code.
-/

namespace UpgradeNotes

/-- A fault of the machine when a path is read or written. -/
def FileFault.ofSystem : IO.Error → FileFault
  | .noFileOrDirectory .. => .missing
  | e => .other (toString e)

/-- Access to the files of the machine. -/
def machineFiles : FileAccess IO where
  workingDirectory := do return (← IO.currentDir).toString
  kind p := do
    let path := (← IO.currentDir) / p
    if ← path.isDir then return some .directory
    else if ← path.pathExists then return some .file
    else return none
  read p := do
    let path := (← IO.currentDir) / p
    if ← path.isDir then return .error .isDirectory
    try
      match String.fromUTF8? (← IO.FS.readBinFile path) with
      | some text => return .ok text
      | none => return .error .notText
    catch e => return .error (.ofSystem e)
  list p := do
    let path := (← IO.currentDir) / p
    try return .ok ((← path.readDir).toList.map (·.fileName))
    catch e => return .error (.ofSystem e)
  write p text := do
    let path := (← IO.currentDir) / p
    try
      IO.FS.writeFile path text
      return .ok ()
    catch e => return .error (.ofSystem e)

end UpgradeNotes

open UpgradeNotes in
/-- Runs the program with the arguments of the command line. -/
def main (args : List String) : IO UInt32 := do
  let terminal ← (← IO.getStdout).isTty
  let colors := Paint.wanted terminal (← IO.getEnv "CLICOLOR") (← IO.getEnv "CLICOLOR_FORCE")
    (← IO.getEnv "NO_COLOR")
  match ← run machineFiles colors args with
  | .error e =>
    IO.eprintln ("error: " ++ e.message ++ "\n\n" ++
      "Usage: " ++ programName ++ " [OPTIONS] [PATHS]...\n\nFor more information, try '--help'.")
    return 2
  | .ok result =>
    IO.print result.shown
    for line in result.asides do
      IO.eprintln line
    return result.exitCode.toUInt32
