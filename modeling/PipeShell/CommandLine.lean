import PipeShell.Session.Console
import PipeShell.Userland.Installed

/-!
The interpreter as a command: its arguments decide whether there is a session, and how much of it is
logged.
-/

set_option autoImplicit false
set_option relaxedAutoImplicit false

namespace PipeShell.CommandLine

/-- What stands behind the explanation of a wrong argument. -/
def hint : String := "\nRun minish --help for more information.\n"

/-- A console on a fresh machine. -/
def console (setup : Setup) : Console :=
  { machine := setup.machine (.done .nothing) Userland.start }

/-- Runs the command with its arguments on a fresh machine. Times in the log are replaced by a given
text. -/
def run (setup : Setup) (time : String) (arguments : List String) : Option UInt8 × Machine Report :=
  match Settings.read arguments with
  | .error .helpWanted =>
    let c := (console setup).perform_
      (Program.put Fd.output (Bytes.ofString (Settings.help ++ "\n")))
    (some 0, c.machine)
  | .error refusal =>
    let c := (console setup).perform_
      (Program.put Fd.complaints (Bytes.ofString (refusal.message ++ hint)))
    (some 1, c.machine)
  | .ok settings =>
    let (code?, c) :=
      (console { setup with logger := .terminal settings.verbosity time }).session settings
    (code?, c.machine)

end PipeShell.CommandLine
