import ExprCalculus.CommandLine.Basic

/-!
# The program

Writes what a run of the command line reports and ends with its exit code.
-/

open ExprCalculus CommandLine

/-- Runs the program. -/
def main (args : List String) : IO UInt32 := do
  let report := run args
  IO.print report.out
  IO.eprint report.err
  match report.ending with
  | .exit code => return code.toUInt32
  | .escaped e =>
    IO.eprintln (e.label ++ ": " ++ e.message)
    return 1
