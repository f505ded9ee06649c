import PipeShell.Job.Background
import PipeShell.Job.Start
import PipeShell.Job.Wait

/-!
Carrying out what a line asks for.
-/

set_option autoImplicit false
set_option relaxedAutoImplicit false

namespace PipeShell

namespace Directory

/-- What is said about a directory that cannot be entered. -/
def complaint : Errno → String
  | .noEntry => "no such file or directory"
  | .notDirectory => "not a directory"
  | .accessDenied => "permission denied"
  | _ => "unknown error"

/-- Enters a directory. No name with a zero byte is valid. -/
def enter (target : String) : Program (Except Errno Unit) :=
  if '\x00' ∈ target.toList then pure (.error .invalid)
  else Program.ask (.change (.enter (Bytes.ofString target)))

/-- Changes the working directory. The status is the number of what went wrong. -/
def change (target : String) : Program Int := do
  Program.note (.changing target)
  match ← enter target with
  | .ok () => pure 0
  | .error reason =>
    Program.put Fd.complaints
      (Bytes.ofString ("cd: " ++ complaint reason ++ ": " ++ target ++ "\n"))
    pure reason.number

end Directory

/-- What is left of an action: its status, unless the interpreter cannot go on, and the processes
that are in the background now. -/
structure Outcome where
  status : Except Fatal Int
  background : Background

namespace Pipeline

/-- Runs a pipeline. In the foreground its end is awaited, in the background it is only kept in
mind. -/
def run (pipeline : Pipeline) (background : Background) : Program Outcome :=
  if pipeline.stages.isEmpty then pure ⟨.ok 0, background⟩
  else do
    match ← start pipeline.stages with
    | .error fatal => pure ⟨.error fatal, background⟩
    | .ok pids =>
      if pipeline.background then do
        Program.note (.detached pids)
        pure ⟨.ok 0, background.add pids⟩
      else do
        let status ← Job.wait pids
        pure ⟨.ok status, background⟩

end Pipeline

namespace Action

/-- Carries out an action. Leaving ends the process. -/
def execute (action : Action) (background : Background) : Program Outcome := do
  Program.note (.executing action)
  match action with
  | .nothing => pure ⟨.ok 0, background⟩
  | .exit => Program.exit 0
  | .changeDirectory target => do
    let status ← Directory.change target
    pure ⟨.ok status, background⟩
  | .run pipeline => pipeline.run background

end Action

end PipeShell
