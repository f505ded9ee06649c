import PipeShell.Userland.Script.Command
import PipeShell.Userland.Tool

/-!
The values of words in a shell script. Parameters are replaced by their values, and what is not
quoted is split at blanks.
-/

set_option autoImplicit false
set_option relaxedAutoImplicit false

namespace PipeShell.Script

/-- What a running script knows. -/
structure State where
  /-- The name under which it runs. -/
  name : List Char
  arguments : List (List Char) := []
  values : List (List Char × List Char) := []
  /-- The names whose values are handed over to other programs. -/
  handedOver : List (List Char) := []
  status : UInt8 := 0
  pid : Pid
  /-- The path of the working directory by which it was entered; empty if that is not known. -/
  directory : List Char := []
  /-- The processes that were started in the background, the last first. -/
  children : List Pid := []
  /-- The descriptors under which others are kept for a while. -/
  saved : List Fd := []
  deriving Repr

namespace State

def assign (s : State) (name value : List Char) : State :=
  { s with values := (name, value) :: s.values.filter (·.1 ≠ name) }

def handOver (s : State) (name : List Char) : State :=
  { s with handedOver := s.handedOver.filter (· ≠ name) ++ [name] }

def forget (s : State) (name : List Char) : State :=
  { s with values := s.values.filter (·.1 ≠ name), handedOver := s.handedOver.filter (· ≠ name) }

/-- The names and values for other programs. -/
def environment (s : State) : List (Bytes × Bytes) :=
  s.handedOver.filterMap fun name =>
    (s.values.lookup name).map fun value => (Tool.ofChars name, Tool.ofChars value)

/-- The variables of a script from its beginning on. -/
def defaults : List (List Char × List Char) :=
  [("IFS".toList, " \t\n".toList), ("OPTIND".toList, ['1']),
    ("PS1".toList, "$ ".toList), ("PS2".toList, "> ".toList), ("PS4".toList, "+ ".toList),
    ("PATH".toList, "/usr/local/sbin:/usr/local/bin:/usr/sbin:/usr/bin:/sbin:/bin".toList)]

/-- Takes over the names and values that were handed over to the script itself. -/
def withEnvironment (s : State) (environment : List (Bytes × Bytes)) : State :=
  environment.foldl (fun s (name, value) => (s.assign (Tool.chars name) (Tool.chars value)).handOver
    (Tool.chars name)) { s with values := defaults }

def valueOf (s : State) (name : List Char) : List Char :=
  match name with
  | ['#'] => (toString s.arguments.length).toList
  | ['?'] => (toString s.status).toList
  | ['$'] => (toString s.pid).toList
  | ['!'] => (s.children.head?.map fun pid => (toString pid).toList).getD []
  | ['0'] => s.name
  | _ =>
    if name ≠ [] && name.all Char.isDigit then
      let k := name.foldl (fun n d => 10 * n + (d.toNat - 48)) 0
      s.arguments.getD (k - 1) []
    else (s.values.lookup name).getD []

end State

/-- Fields that words have come to: finished ones, the last first, and one that is still open. -/
structure Fields where
  finished : List (List Char) := []
  open? : Option (List Char) := none

namespace Fields

def add (f : Fields) (text : List Char) : Fields :=
  { f with open? := some (f.open?.getD [] ++ text) }

def close (f : Fields) : Fields :=
  match f.open? with
  | none => f
  | some field => { finished := field :: f.finished }

/-- Adds a value, split at blanks. -/
def addSplit (f : Fields) (value : List Char) : Fields :=
  value.foldl (fun f c => if c ∈ [' ', '\t', '\n'] then f.close else f.add [c]) f

/-- Adds values as fields of their own; the first goes on with the open field, and the last stays
open. -/
def addEach (f : Fields) (put : Fields → List Char → Fields) : List (List Char) → Fields
  | [] => f
  | [value] => put f value
  | value :: rest => addEach (put f value).close put rest

def addPart (s : State) (f : Fields) : WordPart → Fields
  | .text characters _ => f.add characters
  | .parameter ['@'] true => f.addEach add s.arguments
  | .parameter ['*'] true => f.add ([' '].intercalate s.arguments)
  | .parameter ['@'] false | .parameter ['*'] false => f.addEach addSplit s.arguments
  | .result value true => f.add value
  | .result value false => f.addSplit value
  | .output .. => f
  | .parameter name true => f.add (s.valueOf name)
  | .parameter name false => f.addSplit (s.valueOf name)

end Fields

/-- Whether a word is nothing but all arguments in quotes. -/
def isAllArguments (w : Word) : Bool :=
  w.any (· = .parameter ['@'] true) && w.all fun
    | .text [] true => true
    | .parameter ['@'] true => true
    | _ => false

namespace State

def fieldsOf (s : State) (w : Word) : List (List Char) :=
  if isAllArguments w then s.arguments
  else (w.foldl (Fields.addPart s) {}).close.finished.reverse

def fieldsOfAll (s : State) (words : List Word) : List (List Char) := words.flatMap s.fieldsOf

/-- The value of a word that is not split. -/
def textOf (s : State) (w : Word) : List Char :=
  w.flatMap fun
    | .text characters _ => characters
    | .result value _ => value
    | .output .. => []
    | .parameter ['@'] _ | .parameter ['*'] _ => [' '].intercalate s.arguments
    | .parameter name _ => s.valueOf name

end State

end PipeShell.Script
