import Transcode.CommandLine

/-!
# The program

Runs the command line on the files of the machine.
-/

namespace Transcode.Main

/-- The text of a file, if it can be read. -/
def readFile (path : String) : IO (Option String) := do
  try return some (← IO.FS.readFile path)
  catch _ => return none

/-- Writes a file, and tells whether that worked. -/
def writeFile (path text : String) : IO Bool := do
  try
    IO.FS.writeFile path text
    return true
  catch _ => return false

end Transcode.Main

/-- Runs the program. -/
def main (arguments : List String) : IO UInt32 := do
  let report ← Transcode.CommandLine.run Transcode.Main.readFile Transcode.Main.writeFile arguments
  (← IO.getStdout).putStr report.printed
  match report.problem with
  | some problem => (← IO.getStderr).putStrLn ("Error: " ++ problem)
  | none => pure ()
  return report.exitCode.toUInt32
