import PipeShell.System.Errno
import PipeShell.System.Signal

/-!
What waiting for a child reports, and the status that a shell makes of it.
-/

set_option autoImplicit false
set_option relaxedAutoImplicit false

namespace PipeShell

/-- A number of a process. -/
abbrev Pid := Nat

/-- What waiting for a child reports. -/
inductive WaitStatus
  | exited (pid : Pid) (code : Int)
  | signaled (pid : Pid) (signal : Signal) (dumped : Bool)
  | stopped (pid : Pid) (signal : Signal)
  | continued (pid : Pid)
  | stillAlive
  deriving DecidableEq, Repr

namespace WaitStatus

/-- The status of a child that has ended: its exit code, or 128 and the number of the signal that
ended it. -/
def code? : WaitStatus → Option Int
  | exited _ code => some code
  | signaled _ signal _ => some (128 + signal.number)
  | _ => none

end WaitStatus

/-- How a process came to its end. -/
inductive Ending
  | exited (code : UInt8)
  | killed (number : Nat)
  deriving DecidableEq, Repr

/-- What waiting makes of an ending. The child is gone either way, but a signal without a name
cannot be reported. -/
def Ending.report (pid : Pid) : Ending → Except Errno WaitStatus
  | .exited code => .ok (.exited pid code.toNat)
  | .killed number =>
    match Signal.ofNumber? number with
    | some signal => .ok (.signaled pid signal false)
    | none => .error .invalid

/-- Makes a call again as long as it is interrupted. The answers that successive calls would get are
given; the result has the first other answer and the number of calls made, if there is one. -/
def retry {α : Type} : List (Except Errno α) → Option (Except Errno α × Nat)
  | [] => none
  | .error .interrupted :: rest => (retry rest).map fun (answer, calls) => (answer, calls + 1)
  | answer :: _ => some (answer, 1)

end PipeShell
