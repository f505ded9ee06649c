import PipeShell.Line.Builder
import PipeShell.Line.Reader
import PipeShell.Proofs.Text.Boundaries

/-!
The reader of the command language on bytes. A place in a line is an index here, which can be
anywhere, and a loop turns for as long as it does: a scan breaks off where there is nothing to be
cut out, and where a loop turns more often than it may. All places at which a scan stands, all texts
that it cuts out and all turns of its loops are noted. What is read is told to one builder, which is
emptied before each form.
-/

set_option autoImplicit false
set_option relaxedAutoImplicit false

namespace PipeShell.Line

inductive Entry
  /-- The scan stands at an index; the other number is the largest index that was reached in the
  line so far. -/
  | stands (index furthest : Nat)
  /-- The text between two indices is cut out of the line. -/
  | cuts (start stop : Nat)
  /-- A turn of a loop has led from one index to another one. What only ends the loop is no turn. -/
  | turns (start stop : Nat)
  deriving DecidableEq, Repr

structure Stand where
  /-- The index of the next byte. -/
  index : Nat := 0
  /-- The largest index that was reached in the line, also by forms that did not fit. -/
  furthest : Nat := 0
  /-- What the form at hand has asked for so far. -/
  builder : Builder := {}
  /-- What was noted on the way, the latest first. -/
  history : List Entry := []
  deriving DecidableEq, Repr

inductive Fault
  /-- There is no text between the indices: one of them is out of the line or inside of a character,
  or they are not in order. -/
  | cut (start stop : Nat)
  /-- Bytes are to be counted that end before they begin. -/
  | count (start stop : Nat)
  /-- A loop has turned as often as it may, and has not ended. -/
  | endless
  deriving DecidableEq, Repr

structure Source where
  line : String
  /-- How often a loop may turn. -/
  patience : Nat

/-- A scan: what was read and where it stands then, or the fault with which it breaks off. -/
abbrev Scan (α : Type) := ReaderT Source (StateT Stand (Except Fault)) α

/-- What comes of a turn of a loop. -/
inductive Turn (α : Type)
  /-- Something was read, and the loop goes on. -/
  | next
  /-- What must be read is not there, and the loop ends. -/
  | fail (a : α)
  /-- There is nothing to be done, and the loop ends. -/
  | last (a : α)

namespace Scan

variable {α : Type}

def line : Scan String := return (← readThe Source).line

def index : Scan Nat := return (← get).index

def note (entry : Entry) : Scan Unit := modify fun s => { s with history := entry :: s.history }

def tell (call : Builder → Builder) : Scan Unit :=
  modify fun s => { s with builder := call s.builder }

def stand (index furthest : Nat) : Scan Unit := do
  modify fun s => { s with index, furthest }
  note (.stands index furthest)

def advance (n : Nat) : Scan Unit := do
  let s ← get
  stand (s.index + n) (max s.furthest (s.index + n))

def goBack (index : Nat) : Scan Unit := do stand index (← get).furthest

/-- Starts over. What a form before has told is forgotten, but what was reached stays reached. -/
def rewind : Scan Unit := do
  goBack 0
  tell fun _ => {}

def peek : Scan (Option Char) := return ((Bytes.ofString (← line))[(← index)]?).map Utf8.character

def cut (start stop : Nat) : Scan String := do
  note (.cuts start stop)
  match Utf8.textBetween? (← line) start stop with
  | some text => return text
  | none => throw (.cut start stop)

def rest : Scan String := do cut (← index) (Bytes.ofString (← line)).length

/-- Turns up to the last one, which is to be among the next `n`. -/
def turnWithin (turn : Scan (Turn α)) : Nat → Scan α
  | 0 => throw .endless
  | n + 1 => do
    let start ← index
    match ← turn with
    | .next =>
      note (.turns start (← index))
      turnWithin turn n
    | .fail a =>
      note (.turns start (← index))
      return a
    | .last a => return a

def loop (turn : Scan (Turn α)) : Scan α := do turnWithin turn (← readThe Source).patience

def move (p : Char → Bool) : Scan (Turn Unit) := do
  match ← peek with
  | none => return .last ()
  | some c =>
    if p c then
      advance 1
      return .next
    else return .last ()

def moveWhile (p : Char → Bool) : Scan Nat := do
  let start ← index
  loop (move p)
  let stop ← index
  if start ≤ stop then return stop - start else throw (.count start stop)

def skipBlanks : Scan Nat := moveWhile isBlank

def eat (mark : Char) : Scan Bool := do
  if (← peek) = some mark then
    advance 1
    return true
  else return false

def keyword (word : List Char) : Scan Bool := do
  let ahead := (Bytes.ofString (← rest)).map Utf8.character
  if word.isPrefixOf ahead && !((ahead.drop word.length).head?.any isIdentifier) then
    advance word.length
    return true
  else return false

def part : Scan (Option String) := do
  let start ← index
  if (← moveWhile isPart) = 0 then return none
  else return some (← cut start (← index))

def atEnd : Scan Bool := return (← rest) ∈ ["", "\n", "\r\n"]

def argument : Scan (Turn Unit) := do
  let start ← index
  if (← skipBlanks) = 0 then return .last ()
  else
    match ← part with
    | some text =>
      tell (·.argument text)
      return .next
    | none =>
      goBack start
      return .last ()

def command : Scan Bool := do
  match ← part with
  | none => return false
  | some text =>
    tell (·.argument text)
    loop argument
    return true

def redirection (mark : Char) (file : Builder → String → Builder) : Scan Bool := do
  if ← eat mark then
    let _ ← skipBlanks
    match ← part with
    | none => return false
    | some text =>
      tell (file · text)
      return true
  else return true

def furtherCommand : Scan (Turn Bool) := do
  if ← eat '|' then
    tell (·.bar)
    let _ ← skipBlanks
    if ← command then
      let _ ← skipBlanks
      return .next
    else return .fail false
  else return .last true

def mark : Scan Unit := do
  if ← eat '&' then tell (·.background)
  else return ()

def exit : Scan Bool := do
  let _ ← skipBlanks
  if ← keyword "exit".toList then
    tell (·.exit)
    let _ ← skipBlanks
    return true
  else return false

def directory : Scan Bool := do
  let _ ← skipBlanks
  if ← keyword "cd".toList then
    tell (·.changeDirectory)
    if (← skipBlanks) = 0 then return false
    else
      match ← part with
      | none => return false
      | some target =>
        tell (·.directory target)
        let _ ← skipBlanks
        return true
  else return false

def pipeline : Scan Bool := do
  let _ ← skipBlanks
  if ← command then
    let _ ← skipBlanks
    if ← redirection '<' Builder.inputFile then
      let _ ← skipBlanks
      if ← loop furtherCommand then
        if ← redirection '>' Builder.outputFile then
          let _ ← skipBlanks
          mark
          let _ ← skipBlanks
          return true
        else return false
      else return false
    else return false
  else return false

def blank : Scan Bool := do
  let _ ← skipBlanks
  return true

def forms : List (Scan Bool) := [exit, directory, pipeline, blank]

def firstForm : List (Scan Bool) → Scan (Except Unreadable Action)
  | [] => return .error ⟨(← get).furthest + 1⟩
  | form :: others => do
    rewind
    if ← form then
      if ← atEnd then return .ok (← get).builder.finish
      else firstForm others
    else firstForm others

end Scan

/-- Scans a line from its start. No loop may turn more often than `patience` says. -/
def scan (line : String) (patience : Nat) : Except Fault (Except Unreadable Action × Stand) :=
  Scan.firstForm Scan.forms ⟨line, patience⟩ {}

end PipeShell.Line
