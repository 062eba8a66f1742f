import SynthDom.CommandLine.Run

/-!
# The program

Reads the files that the arguments name, runs the command line on them, and writes what it reports:
the output to standard output, remarks and errors to standard error.
-/

open SynthDom.CommandLine

/-- What the file system gives for a name. -/
def readFromDisk (file : String) : IO (Except FileError String) := do
  try
    return .ok (← IO.FS.readFile file)
  catch
    | .noFileOrDirectory .. => return .error .notFound
    | .inappropriateType _ 21 _ => return .error .folder
    | .inappropriateType .. => return .error .notFolder
    | .invalidArgument .. => return .error .nameTooLong
    | e => return .error (.other (toString e))

def main (arguments : List String) : IO UInt32 := do
  let contents ← (filesOf arguments).mapM fun file => return (file, ← readFromDisk file)
  let outcome := run (fun file => (contents.lookup file).getD (.error .notFound)) arguments
  match outcome with
  | .done report =>
    if let some notice := report.notice then IO.eprintln notice
    IO.print report.output
  | .failed e => IO.eprintln ("\nError: " ++ e.message ++ "\n")
  | .misused e => IO.eprintln ("error: " ++ e.message)
  return outcome.code.toUInt32
