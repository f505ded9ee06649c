import PipeShell.System.Errno

/-!
What can go wrong with a pipeline. Some failures leave the interpreter unable to go on; all others
end a single stage, with a status of their own.
-/

set_option autoImplicit false
set_option relaxedAutoImplicit false

namespace PipeShell

/-- Why a pipeline could not be started completely. -/
inductive Fatal
  | noPipe (reason : Errno)
  | noProcess (reason : Errno)
  /-- An argument has a zero byte in it, at this position. -/
  | zeroByte (position : Nat)
  deriving DecidableEq, Repr

def Fatal.message : Fatal → String
  | noPipe reason => "cannot create pipe: " ++ reason.report
  | noProcess reason => "cannot fork: " ++ reason.report
  | zeroByte position =>
    "argument contains a nul byte: nul byte found in provided data at position: " ++
      toString position

/-- Why a stage ends before its program runs. -/
inductive StageFault
  | emptyCommand
  | notOpened (file : String) (reason : Errno)
  /-- The name of a file has a zero byte in it. -/
  | zeroByteIn (file : String)
  | notRedirected (reason : Errno)
  | notFound (name : String)
  | notRun (name : String) (reason : Errno)
  deriving DecidableEq, Repr

namespace StageFault

def message : StageFault → String
  | emptyCommand => "empty command"
  | notOpened file reason => file ++ ": " ++ reason.numbered
  | zeroByteIn file => file ++ ": file name contained an unexpected NUL byte"
  | notRedirected reason => "cannot redirect: " ++ reason.report
  | notFound name => "command not found: " ++ name
  | notRun name reason => name ++ ": " ++ reason.report

/-- The exit code of a stage that failed. -/
def code : StageFault → UInt8
  | notFound _ => 127
  | notRun .. => 126
  | _ => 1

/-- The failure that a refused program stands for. -/
def ofExec (name : String) : Errno → StageFault
  | .noEntry => notFound name
  | reason => notRun name reason

end StageFault

end PipeShell
