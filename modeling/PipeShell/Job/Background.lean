import PipeShell.System.Program

/-!
The processes in the background. Nobody waits for them; from time to time the ones that have ended
are collected.
-/

set_option autoImplicit false
set_option relaxedAutoImplicit false

namespace PipeShell

/-- The processes in the background that have not been collected yet, in the order in which they
were started. -/
structure Background where
  pids : List Pid := []
  deriving DecidableEq, Repr

namespace Background

/-- Takes over the processes of a job. -/
def add (b : Background) (pids : List Pid) : Background := ⟨b.pids ++ pids⟩

def size (b : Background) : Nat := b.pids.length

/-- Asks about one process without waiting, and says whether to keep it in mind. -/
def stillRuns (pid : Pid) : Program Bool := do
  match ← Program.ask (.poll pid) with
  -- An interrupted question is not asked again here; the process is asked about the next time.
  | .ok .stillAlive | .error .interrupted => pure true
  | .ok status =>
    Program.note (.reaped pid status)
    pure false
  | .error reason =>
    Program.note (.reapFailed pid reason)
    pure false

/-- Asks about one process after the other. -/
def keepRunning : List Pid → Program (List Pid)
  | [] => pure []
  | pid :: rest => do
    let keep ← stillRuns pid
    let others ← keepRunning rest
    pure (if keep then pid :: others else others)

/-- Collects the processes that have ended. -/
def reap (b : Background) : Program Background := do
  let pids ← keepRunning b.pids
  pure ⟨pids⟩

end Background

end PipeShell
