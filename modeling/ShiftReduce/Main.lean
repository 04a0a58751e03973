import ShiftReduce.CommandLine.Basic

/-!
# The program

Reads the file that the command line names and prints the report of its table.
-/

namespace ShiftReduce.CommandLine

/-- Reads the text of a file. -/
def readText (path : String) : IO (Except ReadFailure String) := do
  try
    return .ok (← IO.FS.readFile path)
  catch e =>
    match e with
    | .noFileOrDirectory .. => return .error .missing
    | .inappropriateType .. => return .error .directory
    | .userError _ => return .error .notText
    | e => return .error (.other (toString e))

/-- Writes what the program leaves behind. -/
def emit (outcome : Outcome) : IO UInt32 := do
  IO.print outcome.stdout
  IO.eprint outcome.stderr
  return outcome.exit.toUInt32

end ShiftReduce.CommandLine

open ShiftReduce CommandLine

/-- Runs the program on its arguments. -/
def main (args : List String) : IO UInt32 := do
  match plan "shiftreduce" args with
  | .finish outcome => emit outcome
  | .compile method path => emit (compile method path (← readText path))
