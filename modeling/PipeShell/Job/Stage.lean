import PipeShell.Job.Fault
import PipeShell.System.Program

/-!
What the process of a stage does before the program of the stage runs in it: it connects its input,
then its output, then looks whether there is a program at all, and runs it. The first of these that
fails ends the process.
-/

set_option autoImplicit false
set_option relaxedAutoImplicit false

namespace PipeShell

/-- Both ends of a pipe, as descriptors of one process. -/
structure Link where
  readEnd : Fd
  writeEnd : Fd
  deriving DecidableEq, Repr

namespace Link

/-- Closes both ends. -/
def release (link : Link) : Program Unit := do
  Program.act (.close link.readEnd)
  Program.act (.close link.writeEnd)

/-- Closes both ends if there is a pipe. -/
def releaseAny : Option Link → Program Unit
  | none => pure ()
  | some link => link.release

end Link

namespace Stage

/-- A part of the preparation of a stage. -/
abbrev Step := Program (Except StageFault Unit)

/-- Makes a standard descriptor lead to where another one leads, and closes what is not needed
afterwards. -/
def redirect (source target : Fd) (cleanUp : Program Unit) : Step := do
  let reply ← Program.ask (.duplicate source target)
  -- Whether or not that worked: only the copy is still open when the program of the stage runs.
  cleanUp
  pure (reply.mapError .notRedirected)

/-- Opens a file as a standard descriptor. -/
def attachFile (file : String) (access : Access) (target : Fd) : Step :=
  if '\x00' ∈ file.toList then pure (.error (.zeroByteIn file))
  else do
    match ← Program.ask (.openFile (Bytes.ofString file) access) with
    | .error reason => pure (.error (.notOpened file reason))
    | .ok fd => redirect fd target (Program.act (.close fd))

/-- Connects the input: to the pipe from the stage before, else to the input file, else it stays as
it is. -/
def connectInput (stage : Stage) : Option Link → Step
  | some link => redirect link.readEnd Fd.input link.release
  | none =>
    match stage.inputFile with
    | some file => attachFile file .read Fd.input
    | none => pure (.ok ())

/-- Connects the output: to the pipe to the stage behind, else to the output file, else it stays as
it is. -/
def connectOutput (stage : Stage) : Option Link → Step
  | some link => redirect link.writeEnd Fd.output link.release
  | none =>
    match stage.outputFile with
    | some file => attachFile file (.replace 0o644) Fd.output
    | none => pure (.ok ())

/-- Runs the program of the stage. Nothing follows if that works. -/
def runProgram (stage : Stage) : Program StageFault :=
  match stage.arguments with
  | [] => pure .emptyCommand
  | name :: _ => do
    let reason ← Program.ask (.exec (stage.arguments.map Bytes.ofString))
    pure (.ofExec name reason)

/-- Everything that may fail in a stage, up to its first failure. A pipe that will not be used is
let go of at once. -/
def firstFault (stage : Stage) (previous next : Option Link) : Program StageFault := do
  match ← stage.connectInput previous with
  | .error fault => do
    -- The pipe before is gone by now, since connecting to it lets go of it in any case.
    Link.releaseAny next
    pure fault
  | .ok () =>
    match ← stage.connectOutput next with
    | .error fault => pure fault
    | .ok () => stage.runProgram

/-- The process of a stage. It never comes back to the interpreter. -/
def process {α : Type} (stage : Stage) (previous next : Option Link) : Program α := do
  let fault ← stage.firstFault previous next
  Program.put Fd.complaints (Bytes.ofString ("minish: " ++ fault.message ++ "\n"))
  Program.exit fault.code

end Stage

end PipeShell
