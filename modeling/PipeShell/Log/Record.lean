import PipeShell.Line.Action
import PipeShell.Log.Verbosity
import PipeShell.System.WaitStatus
import PipeShell.Text.Quoted

/-!
The records that the interpreter leaves in its log, with their level, the part of the program that
they come from, and their wording.
-/

set_option autoImplicit false
set_option relaxedAutoImplicit false

namespace PipeShell

open PipeShell.Text (quote bracket)

/-- Named fields in braces behind the name of what they describe. -/
private def fields (name : String) (items : List String) : String :=
  name ++ " \x7b " ++ ", ".intercalate items ++ " \x7d"

/-- A file name that may be missing. -/
private def optional : Option String → String
  | none => "None"
  | some file => "Some(" ++ quote file ++ ")"

/-- How a stage is described. -/
def Stage.describe (s : Stage) : String :=
  fields "Command" ["arguments: " ++ bracket (s.arguments.map quote),
    "input_file: " ++ optional s.inputFile, "output_file: " ++ optional s.outputFile]

def Pipeline.describe (p : Pipeline) : String :=
  fields "RunCommands" ["stages: " ++ bracket (p.stages.map Stage.describe),
    "run_in_background: " ++ toString p.background]

def Action.describe : Action → String
  | .nothing => "Nop"
  | .exit => "Exit"
  | .changeDirectory target =>
    "ChangeDirectory(" ++ fields "ChangeDirectory" ["target_directory: " ++ quote target] ++ ")"
  | .run pipeline => "RunCommands(" ++ pipeline.describe ++ ")"

def describePid (pid : Pid) : String := "Pid(" ++ toString pid ++ ")"

def WaitStatus.describe : WaitStatus → String
  | .exited pid code => "Exited(" ++ describePid pid ++ ", " ++ toString code ++ ")"
  | .signaled pid signal dumped =>
    "Signaled(" ++ describePid pid ++ ", " ++ signal.name ++ ", " ++ toString dumped ++ ")"
  | .stopped pid signal => "Stopped(" ++ describePid pid ++ ", " ++ signal.name ++ ")"
  | .continued pid => "Continued(" ++ describePid pid ++ ")"
  | .stillAlive => "StillAlive"

namespace Log

/-- Something that the interpreter notes. -/
inductive Record
  | executing (action : Action)
  | started (stage : Nat) (pid : Pid) (arguments : List String)
  | detached (pids : List Pid)
  | finished (pid : Pid) (status : WaitStatus)
  | waitFailed (pid : Pid) (reason : Errno)
  | reaped (pid : Pid) (status : WaitStatus)
  | reapFailed (pid : Pid) (reason : Errno)
  | changing (target : String)
  | lineStatus (status : Int)
  | unreadableInput (reason : Errno)
  | cannotContinue (message : String)
  deriving DecidableEq, Repr

namespace Record

/-- How much a record matters. -/
def level : Record → Level
  | waitFailed .. | reapFailed .. => .warn
  | unreadableInput _ | cannotContinue _ => .error
  | _ => .debug

/-- The part of the program that a record comes from. -/
def origin : Record → String
  | executing _ | started .. | detached _ => "minish::eval"
  | finished .. | waitFailed .. | reaped .. | reapFailed .. => "minish::job"
  | changing _ => "minish::builtin"
  | lineStatus _ | unreadableInput _ | cannotContinue _ => "minish"

/-- The wording of a record. -/
def text : Record → String
  | executing action => "execute " ++ action.describe
  | started stage pid arguments =>
    "stage " ++ toString stage ++ " pid " ++ toString pid ++ ": " ++ bracket (arguments.map quote)
  | detached pids => "detached " ++ bracket (pids.map describePid)
  | finished pid status => "pid " ++ toString pid ++ " finished: " ++ status.describe
  | waitFailed pid reason => "waitpid " ++ toString pid ++ " failed: " ++ reason.report
  | reaped pid status => "background pid " ++ toString pid ++ " finished: " ++ status.describe
  | reapFailed pid reason =>
    "reaping background pid " ++ toString pid ++ " failed: " ++ reason.report
  | changing target => "cd " ++ target
  | lineStatus status => "status " ++ toString status
  | unreadableInput reason => "cannot read input: " ++ reason.numbered
  | cannotContinue message => message

/-- A record with its level and its origin. -/
def full (r : Record) : String := r.level.name ++ " " ++ r.origin ++ ": " ++ r.text

/-- A record as a line on a terminal, after the time. The details of a record that matters little
are the thread and the origin. -/
def terminalLine (time : String) (r : Record) : String :=
  let details := if r.level.rank < Level.debug.rank then "" else "(1) " ++ r.origin ++ ": "
  time ++ " [" ++ r.level.name ++ "] " ++ details ++ r.text ++ "\n"

end Record

end Log

end PipeShell
