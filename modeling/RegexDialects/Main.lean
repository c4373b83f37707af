import RegexDialects.CommandLine

/-!
# The program

Fetches the input, if the pattern is not among the arguments, and prints the outcome.
-/

set_option autoImplicit false

namespace RegexDialects

/-- Reads bytes as long as there are any. -/
partial def readAll (stream : IO.FS.Stream) (found : ByteArray) : IO ByteArray := do
  let chunk ← stream.read 65536
  if chunk.isEmpty then return found
  readAll stream (found ++ chunk)

end RegexDialects

open RegexDialects in
/-- Runs the program on its arguments. -/
def main (args : List String) : IO UInt32 := do
  let input ← if args.length = 2 then readAll (← IO.getStdin) .empty else pure .empty
  let outcome := CommandLine.run args input.toList
  (← IO.getStdout).putStr outcome.stdout
  (← IO.getStderr).putStr outcome.stderr
  return outcome.exitCode
