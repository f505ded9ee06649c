import PipeShell.Log.Verbosity

/-!
The settings that a command line makes. Arguments are read from left to right and the first one that
does not fit ends the reading.
-/

set_option autoImplicit false
set_option relaxedAutoImplicit false

namespace PipeShell

/-- How the interpreter runs. -/
structure Settings where
  /-- Runs one line without a prompt and ends with its status. -/
  singleShot : Bool := false
  verbosity : Log.Verbosity := .upTo .warn
  deriving DecidableEq, Repr

namespace Settings

/-- A prompt is shown unless a single line is run. -/
def showPrompt (s : Settings) : Bool := !s.singleShot

/-- Why a command line gives no settings. -/
inductive Refusal
  | helpWanted
  | trailing
  | unrecognized (argument : String)
  | valueMissing
  | valueRepeated (value : String)
  | valueUnknown (value : String)
  deriving DecidableEq, Repr

/-- The explanation of all options. -/
def help : String :=
  String.join ([
    "Usage: minish [-t] [--log-level <log-level>]",
    "",
    "A minimal line-oriented shell: exit, cd, and pipelines with redirection.",
    "",
    "Options:",
    "  -t, --single-shot run one line from standard input without a prompt and exit",
    "                    with its status",
    "  --log-level       log verbosity on standard error: off, error, warn, info,",
    "                    debug or trace",
    "  --help, help      display usage information"].map (· ++ "\n"))

/-- What is wrong with the value of an option. -/
private def badValue (value reason : String) : String :=
  "Error parsing option '--log-level' with value '" ++ value ++ "': " ++ reason ++ "\n"

/-- What is said instead of running. -/
def Refusal.message : Refusal → String
  | helpWanted => help
  | trailing => "Trailing arguments are not allowed after `help`."
  | unrecognized argument => "Unrecognized argument: " ++ argument ++ "\n"
  | valueMissing => "No value provided for option '--log-level'.\n"
  | valueRepeated value => badValue value "duplicate values provided"
  | valueUnknown value =>
    badValue value "attempted to convert a string that doesn't match an existing log level"

/-- What the arguments read so far have set. -/
structure Progress where
  helpSeen : Bool := false
  optionsEnded : Bool := false
  singleShot : Bool := false
  verbosity? : Option Log.Verbosity := none
  deriving DecidableEq, Repr

/-- Reads the remaining arguments. -/
def readFrom (p : Progress) : List String → Except Refusal Progress
  | [] => .ok p
  | argument :: rest =>
    -- There are no operands, so nothing may stand behind a double dash.
    if p.optionsEnded then .error (.unrecognized argument)
    else if argument = "--help" || argument = "help" then readFrom { p with helpSeen := true } rest
    else if argument = "--" then readFrom { p with optionsEnded := true } rest
    else if p.helpSeen && argument.startsWith "-" then .error .trailing
    else if argument = "-t" || argument = "--single-shot" then
      readFrom { p with singleShot := true } rest
    else if argument = "--log-level" then
      match rest with
      | [] => .error .valueMissing
      | value :: rest =>
        if p.verbosity?.isSome then .error (.valueRepeated value)
        else match Log.Verbosity.ofName? value with
          | none => .error (.valueUnknown value)
          | some verbosity => readFrom { p with verbosity? := some verbosity } rest
    else .error (.unrecognized argument)

/-- Reads a command line. -/
def read (arguments : List String) : Except Refusal Settings := do
  let p ← readFrom {} arguments
  if p.helpSeen then .error .helpWanted
  else .ok { singleShot := p.singleShot, verbosity := p.verbosity?.getD (.upTo .warn) }

end Settings

end PipeShell
