import CoSimBridge.Cli.Execute
/-!
The `fmubridge` command line: runs the program on the process arguments and the real file
system, prints what it printed, writes its log lines to standard error and exits with its
status.
-/

open CoSimBridge

/-- Reads a file, telling a file that cannot be opened from one that cannot be read. -/
def readFile (path : String) : IO (Except Cli.FileFailure String) := do
  try
    return .ok (← IO.FS.readFile path)
  catch e =>
    match e with
    | .noFileOrDirectory .. => return .error (.opening ("open " ++ path ++ ": no such file or directory"))
    | .inappropriateType .. => return .error (.reading ("read " ++ path ++ ": is a directory"))
    | .permissionDenied .. => return .error (.opening ("open " ++ path ++ ": permission denied"))
    | _ => return .error (.opening ("open " ++ path ++ ": " ++ toString e))

/-- Runs the command line. -/
def main (args : List String) : IO UInt32 := do
  let outcome ← Cli.execute readFile args
  IO.print outcome.stdout
  IO.eprint outcome.stderr
  for line in outcome.log do
    IO.eprintln line.render
  return outcome.exit.toUInt32
