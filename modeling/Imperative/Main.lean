import Imperative.CommandLine

/-!
# The command

Reads the arguments and the file, and prints what the request leaves behind.
-/

/-- The bytes of a file, if there is a file of that name that can be read. -/
def Imperative.CommandLine.readContents (path : String) : IO (Option ByteArray) := do
  try
    return some (← IO.FS.readBinFile path)
  catch _ =>
    return none

open Imperative.CommandLine in
/-- The command. -/
def main (arguments : List String) : IO UInt32 := do
  let report ← match request arguments with
    | .error interruption => pure interruption.report
    | .ok r => do
      let contents ← readContents r.file
      pure (r.perform stepBudget contents)
  (← IO.getStderr).putStr report.remarks
  (← IO.getStdout).putStr report.output
  return report.exitCode.toUInt32
