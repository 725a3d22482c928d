import SelectorPath.CommandLine.Run

/-!
The command.
-/

namespace SelectorPath.CommandLine

/-- Reads standard input to its end. -/
partial def readAll (stream : IO.FS.Stream) (bytes : ByteArray) : IO ByteArray := do
  let chunk ← stream.read 65536
  if chunk.isEmpty then return bytes else readAll stream (bytes ++ chunk)

/-- Whether a request is answered from standard input. -/
def needsInput : Request → Bool
  | .run _ [] => true
  | _ => false

end SelectorPath.CommandLine

open SelectorPath.CommandLine

def main (arguments : List String) : IO UInt32 := do
  match request? arguments with
  | none =>
    (← IO.getStderr).putStrLn "usage: cssxpath [OPTIONS] [SELECTOR]..."
    return 2
  | some request =>
    let input ← if needsInput request then readAll (← IO.getStdin) .empty else pure .empty
    let outcome := request.outcome input
    (← IO.getStdout).putStr outcome.stdout
    (← IO.getStderr).putStr outcome.stderr
    return outcome.exitCode.toUInt32
