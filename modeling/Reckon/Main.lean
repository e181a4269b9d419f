/- Reckon.Main — the programs on standard input and output

The calculator reads the first line of standard input.  The daemon, chosen by
the first argument `daemon`, serves one connection over standard input and
output.  There are no sockets here, so no other server is ever in reach.
-/
import Reckon.CommandLine

namespace Reckon.Main
set_option autoImplicit false

/-- Reads up to and including the first line feed, or to the end. -/
partial def readLine (input : IO.FS.Stream) (found : ByteArray) : IO ByteArray := do
  let byte ← input.read 1
  if byte.isEmpty || byte.toList == [10] then return found ++ byte
  readLine input (found ++ byte)

/-- Reads to the end. -/
partial def readToEnd (input : IO.FS.Stream) (found : ByteArray) : IO ByteArray := do
  let bytes ← input.read 4096
  if bytes.isEmpty then return found
  readToEnd input (found ++ bytes)

/-- Prints what a program prints and answers with its exit code. -/
def perform (outcome : CommandLine.Outcome) : IO UInt32 := do
  let output ← IO.getStdout
  let errors ← IO.getStderr
  match outcome with
  | .exited code printed complaints =>
      output.putStr printed
      errors.putStr complaints
      return UInt32.ofNat code
  | .listening _ =>
      let received ← readToEnd (← IO.getStdin) .empty
      output.write ⟨(Session.serve received.toList).toArray⟩
      output.flush
      return 0
  | .misused =>
      errors.putStr "usage: [daemon] [-l] [-r] [-a ADDRESS] [-V]\n"
      return 2

/-- Runs the program that the arguments choose. -/
def run (arguments : List String) : IO UInt32 := do
  match arguments with
  | "daemon" :: arguments =>
      perform (CommandLine.run .daemon arguments .unreachable [])
  | arguments =>
    match CommandLine.readArguments .calculator .default arguments with
    | some (.run _) =>
        let line ← readLine (← IO.getStdin) .empty
        perform (CommandLine.run .calculator arguments .unreachable line.toList)
    | _ => perform (CommandLine.run .calculator arguments .unreachable [])

end Reckon.Main

def main (arguments : List String) : IO UInt32 := Reckon.Main.run arguments
