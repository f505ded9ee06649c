import PipeShell.Execute

/-!
What the process of an interpreter hands over after a piece of its work.
-/

set_option autoImplicit false
set_option relaxedAutoImplicit false

namespace PipeShell

/-- The result of a piece of work. -/
inductive Report
  | nothing
  | outcome (o : Outcome)
  | background (b : Background)
  | input (data : Except Errno Bytes)
  | status (n : Int)
  /-- A child, with the descriptor that lets it go on if it is held. -/
  | child (pid : Pid) (gate? : Option Fd)

namespace Report

/-- Looks after the background, and hands over what is left of it. -/
def ofReap (background : Background) : Program Report := do return .background (← background.reap)

/-- Carries out an action, and hands over its outcome. -/
def ofAction (action : Action) (background : Background) : Program Report := do
  return .outcome (← action.execute background)

end Report

end PipeShell
