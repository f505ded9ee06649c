import PipeShell.Line.Action
import PipeShell.Line.Token

/-!
The reader of the command language. Four forms are tried in turn, each from the start of the line:
`exit`, `cd DIRECTORY`, a pipeline, and a line without anything. The first form that covers the
whole line wins. A cursor remembers the furthest place that any of them reached, where a line that
has no form is refused.
-/

set_option autoImplicit false
set_option relaxedAutoImplicit false

namespace PipeShell.Line

/-- A place in a line. -/
structure Cursor where
  /-- The characters that are still to be read. -/
  rest : List Char
  /-- How many characters have been read. -/
  offset : Nat := 0
  /-- The largest offset that was reached in the line, also by forms that did not fit. -/
  furthest : Nat := 0
  deriving DecidableEq, Repr

namespace Cursor

/-- Moves over `n` characters. -/
def advance (n : Nat) (c : Cursor) : Cursor :=
  ⟨c.rest.drop n, c.offset + n, max c.furthest (c.offset + n)⟩

/-- Moves over the characters in front that satisfy `p`. -/
def takeWhile (p : Char → Bool) (c : Cursor) : List Char × Cursor :=
  let run := c.rest.takeWhile p
  (run, c.advance run.length)

def skipBlanks (c : Cursor) : Cursor := (c.takeWhile isBlank).2

/-- Reads a part: one or more part characters. -/
def part (c : Cursor) : Option String × Cursor :=
  match c.takeWhile isPart with
  | ([], c) => (none, c)
  | (run, c) => (some (String.ofList run), c)

def eat (mark : Char) (c : Cursor) : Option Cursor :=
  match c.rest with
  | d :: _ => if d = mark then some (c.advance 1) else none
  | [] => none

/-- Reads a keyword, which must not go on as an identifier. -/
def keyword (word : List Char) (c : Cursor) : Option Cursor :=
  if word.isPrefixOf c.rest && !((c.rest.drop word.length).head?.any isIdentifier) then
    some (c.advance word.length)
  else none

/-- A line may end with a newline, which a carriage return may precede. -/
def atEnd (c : Cursor) : Bool := c.rest = [] || c.rest = ['\n'] || c.rest = ['\r', '\n']

/-- Goes back to an earlier place but remembers how far this one had come. -/
def backTo (earlier c : Cursor) : Cursor := { earlier with furthest := c.furthest }

theorem length_rest_part {c d : Cursor} {text : String} (h : c.part = (some text, d)) :
    d.rest.length < c.rest.length := by
  unfold part takeWhile at h
  have hle : (c.rest.takeWhile isPart).length ≤ c.rest.length :=
    (List.takeWhile_prefix isPart).length_le
  cases hrun : c.rest.takeWhile isPart with
  | nil => simp [hrun] at h
  | cons a run =>
    simp only [hrun, Prod.mk.injEq, Option.some.injEq] at h
    obtain ⟨-, rfl⟩ := h
    simp only [advance, List.length_drop, List.length_cons]
    simp only [hrun, List.length_cons] at hle
    omega

theorem length_rest_skipBlanks (c : Cursor) : c.skipBlanks.rest.length ≤ c.rest.length := by
  simp [skipBlanks, takeWhile, advance]

theorem length_rest_eat {c d : Cursor} {mark : Char} (h : c.eat mark = some d) :
    d.rest.length < c.rest.length := by
  unfold eat at h
  split at h
  · rename_i heq
    split at h
    · simp only [Option.some.injEq] at h
      subst h
      simp [advance, heq]
    · simp at h
  · simp at h

/-- The further arguments of a command. Blanks that no argument follows are given back. -/
def moreParts (c : Cursor) : List String × Cursor :=
  match c.takeWhile isBlank with
  -- A part ends where no part character follows, so without a blank there is no further one.
  | ([], _) => ([], c)
  | (_ :: _, _) =>
    match h : c.skipBlanks.part with
    | (none, d) => ([], c.backTo d)
    | (some text, d) =>
      have : d.rest.length < c.rest.length :=
        Nat.lt_of_lt_of_le (length_rest_part h) (length_rest_skipBlanks c)
      ((text :: (moreParts d).1), (moreParts d).2)
termination_by c.rest.length

/-- A command: one or more parts with blanks between them. -/
def command (c : Cursor) : Option (List String) × Cursor :=
  match c.part with
  | (none, d) => (none, d)
  | (some text, d) => (some (text :: (moreParts d).1), (moreParts d).2)

/-- A redirection: a mark, blanks, and the part that names the file. Without the mark there is
none. -/
def redirection (mark : Char) (c : Cursor) : Option (Option String) × Cursor :=
  match c.eat mark with
  | none => (some none, c)
  | some d =>
    match d.skipBlanks.part with
    | (none, e) => (none, e)
    | (some text, e) => (some (some text), e)

theorem length_rest_moreParts (c : Cursor) : (moreParts c).2.rest.length ≤ c.rest.length := by
  fun_induction moreParts c with
  | case1 => simp
  | case2 => simp [backTo]
  | case3 _ _ _ _ _ _ _ _ ih => simp only at ih ⊢; omega

theorem length_rest_command {c d : Cursor} {words : List String} (h : c.command = (some words, d)) :
    d.rest.length < c.rest.length := by
  unfold command at h
  split at h
  · simp at h
  · rename_i text e he
    simp only [Prod.mk.injEq, Option.some.injEq] at h
    obtain ⟨-, rfl⟩ := h
    exact Nat.lt_of_le_of_lt (length_rest_moreParts e) (length_rest_part he)

/-- The commands behind the first one, each after a bar. -/
def moreCommands (c : Cursor) : Option (List (List String)) × Cursor :=
  match hbar : c.eat '|' with
  | none => (some [], c)
  | some d =>
    match h : d.skipBlanks.command with
    | (none, e) => (none, e)
    | (some words, e) =>
      have : e.skipBlanks.rest.length < c.rest.length := by
        have h1 := length_rest_command h
        have h2 := length_rest_skipBlanks d
        have h3 := length_rest_skipBlanks e
        have h4 := length_rest_eat hbar
        omega
      ((moreCommands e.skipBlanks).1.map (words :: ·), (moreCommands e.skipBlanks).2)
termination_by c.rest.length

end Cursor

open Cursor

/-- A form of a line: what it asks for, if the form fits, and the place that was reached. -/
abbrev Form := Cursor → Option Action × Cursor

/-- The line `exit`. -/
def exitForm : Form := fun c =>
  match c.skipBlanks.keyword "exit".toList with
  | none => (none, c.skipBlanks)
  | some d => (some .exit, d.skipBlanks)

/-- The line `cd DIRECTORY`. -/
def directoryForm : Form := fun c =>
  match c.skipBlanks.keyword "cd".toList with
  | none => (none, c.skipBlanks)
  | some d =>
    match d.takeWhile isBlank with
    | ([], e) => (none, e)
    | (_ :: _, e) =>
      match e.part with
      | (none, e) => (none, e)
      | (some text, e) => (some (.changeDirectory text), e.skipBlanks)

/-- The stages of a pipeline: the input file goes to the first command, the output file to the
last. -/
def assemble (first : List String) (rest : List (List String)) (input output : Option String) :
    List Stage :=
  match rest with
  | [] => [{ arguments := first, inputFile := input, outputFile := output }]
  | second :: others =>
    { arguments := first, inputFile := input } :: assemble second others none output

/-- A pipeline: commands with bars between them, an input file before the first bar, an output file
behind the last command, and a final `&` for the background. -/
def pipelineForm : Form := fun c =>
  match c.skipBlanks.command with
  | (none, c) => (none, c)
  | (some first, c) =>
    match c.skipBlanks.redirection '<' with
    | (none, c) => (none, c)
    | (some input, c) =>
      match c.skipBlanks.moreCommands with
      | (none, c) => (none, c)
      | (some others, c) =>
        -- The commands end behind the blanks that follow them, so none are skipped here.
        match c.redirection '>' with
        | (none, c) => (none, c)
        | (some output, c) =>
          let stages := assemble first others input output
          match c.skipBlanks.eat '&' with
          | none => (some (.run ⟨stages, false⟩), c.skipBlanks)
          | some c => (some (.run ⟨stages, true⟩), c.skipBlanks)

/-- A line without anything. -/
def blankForm : Form := fun c => (some .nothing, c.skipBlanks)

/-- The forms of a line, in the order in which they are tried. -/
def forms : List Form := [exitForm, directoryForm, pipelineForm, blankForm]

/-- The line has no form. The column counts from one and points behind the furthest place
reached. -/
structure Unreadable where
  column : Nat
  deriving DecidableEq, Repr

/-- What is said about a line without a form. -/
def Unreadable.message (e : Unreadable) : String :=
  "syntax error at column " ++ toString e.column ++ ": command not found"

/-- Tries the forms in turn. -/
def firstForm (line : List Char) : List Form → Nat → Except Unreadable Action
  | [], furthest => .error ⟨furthest + 1⟩
  | form :: others, furthest =>
    match form { rest := line, furthest := furthest } with
    -- The next form starts over, but what this one reached still counts.
    | (none, c) => firstForm line others c.furthest
    | (some action, c) => if c.atEnd then .ok action else firstForm line others c.furthest

/-- Reads a line. -/
def read (line : String) : Except Unreadable Action := firstForm line.toList forms 0

end PipeShell.Line
