/-!
The commands of shell scripts.
-/

set_option autoImplicit false
set_option relaxedAutoImplicit false

namespace PipeShell.Script

/-- A part of a word: characters, the value of a parameter, the output of commands, or what has come
of that. What is quoted is not split. -/
inductive WordPart
  | text (characters : List Char) (quoted : Bool)
  | parameter (name : List Char) (quoted : Bool)
  | output (script : List Char) (quoted : Bool)
  | result (value : List Char) (quoted : Bool)
  deriving DecidableEq, Repr

abbrev Word := List WordPart

/-- Where a descriptor leads for the time of a command. -/
inductive Target
  | input (file : Word)
  | replace (file : Word)
  | append (file : Word)
  /-- To where another descriptor leads. -/
  | same (descriptor : Word)
  deriving DecidableEq, Repr

def Target.word : Target → Word
  | input file | replace file | append file => file
  | same descriptor => descriptor

def Target.withWord (w : Word) : Target → Target
  | input _ => input w
  | replace _ => replace w
  | append _ => append w
  | same _ => same w

structure Redirection where
  descriptor : Nat
  target : Target
  deriving DecidableEq, Repr

/-- A command of one line: values for variables, words of which the first names what to run, and
redirections. -/
structure Simple where
  line : Nat
  assignments : List (List Char × Word) := []
  words : List Word := []
  redirections : List Redirection := []
  deriving DecidableEq, Repr

inductive Command
  | nothing
  | simple (s : Simple)
  | sequence (first second : Command)
  /-- The second only if the first succeeds. -/
  | both (first second : Command)
  /-- The second only if the first fails. -/
  | either (first second : Command)
  /-- The same for each of several values of a variable; without words, for each argument. -/
  | forEach (name : List Char) (words? : Option (List Word)) (body : Command)
  /-- The second if the first succeeds, and else the third. -/
  | choice (condition consequence alternative : Command)
  /-- The second again and again, as long as the first succeeds, or as long as it fails. -/
  | loop (untilSuccess : Bool) (condition body : Command)
  /-- Both at once, the output of the first being the input of the second. -/
  | piped (first second : Command)
  /-- Fails if it succeeds, and the other way round. -/
  | negated (body : Command)
  /-- A command with redirections, in a process of its own or not. -/
  | group (line : Nat) (apart : Bool) (body : Command) (redirections : List Redirection)
  /-- A command that nobody waits for. -/
  | background (body : Command)
  deriving DecidableEq, Repr

end PipeShell.Script
