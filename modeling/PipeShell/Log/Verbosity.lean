/-!
Levels of log records, and how many of them a log keeps.
-/

set_option autoImplicit false
set_option relaxedAutoImplicit false

namespace PipeShell.Log

/-- How much a record matters. -/
inductive Level
  | error
  | warn
  | info
  | debug
  | trace
  deriving DecidableEq, Repr

namespace Level

def name : Level → String
  | error => "ERROR"
  | warn => "WARN"
  | info => "INFO"
  | debug => "DEBUG"
  | trace => "TRACE"

/-- Levels count upward from the one that matters most. -/
def rank : Level → Nat
  | error => 1
  | warn => 2
  | info => 3
  | debug => 4
  | trace => 5

end Level

/-- The least important level that a log keeps. -/
inductive Verbosity
  | off
  | upTo (level : Level)
  deriving DecidableEq, Repr

namespace Verbosity

/-- All settings, the quietest first. -/
def all : List Verbosity :=
  [off, upTo .error, upTo .warn, upTo .info, upTo .debug, upTo .trace]

def name : Verbosity → String
  | off => "OFF"
  | upTo level => level.name

/-- The setting with a given name; capitals and small ASCII letters are the same here. -/
def ofName? (s : String) : Option Verbosity :=
  all.find? fun v => v.name.toList = s.toList.map Char.toUpper

/-- Whether a log keeps records of a level. -/
def keeps : Verbosity → Level → Bool
  | off, _ => false
  | upTo most, level => level.rank ≤ most.rank

end Verbosity

end PipeShell.Log
