/-!
What a line of the command language asks for.
-/

set_option autoImplicit false
set_option relaxedAutoImplicit false

namespace PipeShell

/-- One stage of a pipeline. The first argument names the program. -/
structure Stage where
  arguments : List String
  inputFile : Option String := none
  outputFile : Option String := none
  deriving DecidableEq, Repr, Inhabited

/-- Stages that run side by side, each one reading what the one before it writes. -/
structure Pipeline where
  stages : List Stage
  background : Bool := false
  deriving DecidableEq, Repr, Inhabited

/-- What a line asks for. -/
inductive Action
  | nothing
  | exit
  | changeDirectory (target : String)
  | run (pipeline : Pipeline)
  deriving DecidableEq, Repr, Inhabited

end PipeShell
