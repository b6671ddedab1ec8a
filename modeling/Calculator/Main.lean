import Calculator.CommandLine

/-!
# The program

Hands the arguments and the standard input to `Calculator.CommandLine` and prints what
the run leaves behind. The standard input is left alone unless the run looks at it.
-/
namespace Calculator

/-- All bytes of a stream. -/
partial def readAll (stream : IO.FS.Stream) (taken : ByteArray) : IO ByteArray := do
  let bytes ← stream.read 65536
  if bytes.isEmpty then return taken
  readAll stream (taken ++ bytes)

end Calculator

open Calculator in
def main (arguments : List String) : IO UInt32 := do
  let request := Request.ofArguments arguments
  let input ← if request.readsInput then readAll (← IO.getStdin) .empty else pure .empty
  let run := request.run input.toList
  (← IO.getStdout).putStr run.output
  (← IO.getStderr).putStr run.errors
  return run.exitStatus
