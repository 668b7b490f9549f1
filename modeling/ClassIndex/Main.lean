import ClassIndex.Program.CommandLine

/-!
# The program
-/

open ClassIndex in
/-- Writes what the command line asks for. -/
def main (arguments : List String) : IO UInt32 := do
  let answer := CommandLine.answer arguments
  IO.eprint answer.stderr
  IO.print answer.stdout
  return answer.exitCode.toUInt32
