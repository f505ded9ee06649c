import PipeShell.CommandLine

/-!
The command line. The interpreter runs on a machine of its own, whose first process reads the
standard input.
-/

set_option autoImplicit false
set_option relaxedAutoImplicit false

namespace PipeShell.Main

/-- How much is read at once. -/
def readSize : USize := 65536

/-- All bytes of a stream. -/
partial def readAll (stream : IO.FS.Stream) (read : ByteArray) : IO ByteArray := do
  let block ← stream.read readSize
  if block.isEmpty then pure read else readAll stream (read ++ block)

/-- The machine that the interpreter runs on. -/
def setup (input : Bytes) : Setup where
  home := Bytes.ofString "/home/guest"
  surroundings := Userland.entries
  input := input

/-- Writes bytes to a stream. -/
def put (stream : IO.FS.Stream) (data : Bytes) : IO Unit := do
  stream.write ⟨data.toArray⟩
  stream.flush

end PipeShell.Main

/-- Runs the interpreter with the arguments of the command line. -/
def main (arguments : List String) : IO UInt32 := do
  let input ← PipeShell.Main.readAll (← IO.getStdin) .empty
  let (code?, machine) :=
    PipeShell.CommandLine.run (PipeShell.Main.setup input.toList) "00:00:00" arguments
  PipeShell.Main.put (← IO.getStdout) (machine.dataOf PipeShell.Setup.outputNode)
  PipeShell.Main.put (← IO.getStderr) (machine.dataOf PipeShell.Setup.complaintsNode)
  pure ((code?.getD 1).toUInt32)
