import PipeShell.System.Program

/-!
Waiting for the processes of a pipeline in the foreground.
-/

set_option autoImplicit false
set_option relaxedAutoImplicit false

namespace PipeShell.Job

/-- The status of a child about which waiting has found out something other than its end. -/
def unknownStatus : Int := 1

/-- Waits for one child and gives its status. -/
def await (pid : Pid) : Program Int := do
  match ← Program.ask (.waitFor pid) with
  | .ok status =>
    Program.note (.finished pid status)
    pure (status.code?.getD unknownStatus)
  | .error reason =>
    Program.note (.waitFailed pid reason)
    pure unknownStatus

/-- Waits for one child after the other and gives their statuses in that order. -/
def awaitEach : List Pid → Program (List Int)
  | [] => pure []
  | pid :: rest => do
    let status ← await pid
    let others ← awaitEach rest
    pure (status :: others)

/-- Waits for all processes of a job, which are given in the order of its stages, the last one
first. The status of the job is the one of its last stage; a job without processes has the status
0. -/
def wait (pids : List Pid) : Program Int := do
  let statuses ← awaitEach pids.reverse
  -- The last stage was waited for first, so its status stands in front.
  pure (statuses.headD 0)

end PipeShell.Job
