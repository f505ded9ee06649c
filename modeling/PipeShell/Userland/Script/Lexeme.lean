import PipeShell.Userland.Script.Command

/-!
The lexemes of shell scripts: words with their quotes and parameters, operators, and the ends of
lines.
-/

set_option autoImplicit false
set_option relaxedAutoImplicit false

namespace PipeShell.Script

inductive Operator
  | semicolon
  | both
  | either
  | background
  | pipe
  | input
  | replace
  | append
  | sameInput
  | sameOutput
  | opening
  | closing
  deriving DecidableEq, Repr

def Operator.text : Operator → String
  | semicolon => ";"
  | both => "&&"
  | either => "||"
  | background => "&"
  | pipe => "|"
  | input | replace | append | sameInput | sameOutput => "redirection"
  | opening => "("
  | closing => ")"

inductive Lexeme
  | word (w : Word)
  /-- An operator, with the number directly in front of it. -/
  | operator (number? : Option Nat) (o : Operator)
  | newline
  /-- A word whose quotes have no end. -/
  | broken
  deriving DecidableEq, Repr

namespace Lexeme

/-- Characters of names. -/
def isNameChar (c : Char) : Bool := c.isAlphanum || c = '_'

/-- Characters that stand for a parameter by themselves. -/
def isSpecialParameter (c : Char) : Bool := c.isDigit || c ∈ ['#', '@', '*', '?', '$', '!', '-']

/-- The parameter behind a dollar sign, and what follows it. -/
def parameter? : List Char → Option (List Char × List Char)
  | '\x7b' :: rest =>
    let name := rest.takeWhile (· ≠ '\x7d')
    if name ≠ [] ∧ name.length < rest.length then some (name, rest.drop (name.length + 1)) else none
  | c :: rest =>
    if isSpecialParameter c then some ([c], rest)
    else if isNameChar c then
      let name := (c :: rest).takeWhile isNameChar
      some (name, (c :: rest).drop name.length)
    else none
  | [] => none

/-- How far the commands in brackets reach, and what follows them. The numbers are at least the
length of the text and how many brackets are open. -/
def commands? : Nat → Nat → List Char → Option (List Char × List Char)
  | 0, _, _ => none
  | _ + 1, _, [] => none
  | fuel + 1, opened, c :: rest =>
    let go (opened : Nat) (passed rest : List Char) : Option (List Char × List Char) :=
      (commands? fuel opened rest).map fun (inside, rest) => (passed ++ inside, rest)
    let goBehind (delimiter : Char) : Option (List Char × List Char) :=
      let inside := rest.takeWhile (· ≠ delimiter)
      if inside.length < rest.length then
        go opened (c :: inside ++ [delimiter]) (rest.drop (inside.length + 1))
      else none
    match c, opened with
    | ')', 0 => some ([], rest)
    | ')', opened + 1 => go opened [c] rest
    | '(', opened => go (opened + 1) [c] rest
    | '\'', _ => goBehind '\''
    | '"', _ => goBehind '"'
    | '\\', opened => go opened (c :: rest.take 1) (rest.drop 1)
    | _, opened => go opened [c] rest

/-- How far the commands in backquotes reach, and what follows them. -/
def backquoted? : List Char → Option (List Char × List Char)
  | [] => none
  | '\x60' :: rest => some ([], rest)
  | '\\' :: c :: rest =>
    (backquoted? rest).map fun (inside, rest) =>
      (if c ∈ ['\x60', '\\', '$'] then c :: inside else '\\' :: c :: inside, rest)
  | c :: rest => (backquoted? rest).map fun (inside, rest) => (c :: inside, rest)

/-- The commands that begin here whose output is meant, and what follows them. -/
def output? : List Char → Option (List Char × List Char)
  | '$' :: '(' :: rest => commands? (rest.length + 1) 0 rest
  | '\x60' :: rest => backquoted? rest
  | _ => none

/-- Characters that end a word. -/
def endsWord (c : Char) : Bool := c ∈ [' ', '\t', '\n', ';', '&', '|', '<', '>', '(', ')']

/-- A part of a word inside of double quotes, with what follows behind them. The first argument is
at least the length of the text. -/
def readQuoted : Nat → List Char → Option (Word × List Char)
  | 0, _ => none
  | _ + 1, [] => none
  | _ + 1, '"' :: rest => some ([.text [] true], rest)
  | fuel + 1, '\\' :: c :: rest => do
    let (parts, rest) ← readQuoted fuel rest
    some ((if c = '\n' then parts
      else if c ∈ ['$', '\x60', '"', '\\'] then .text [c] true :: parts
      else .text ['\\', c] true :: parts), rest)
  | fuel + 1, '$' :: rest =>
    match output? ('$' :: rest), parameter? rest with
    | some (script, rest), _ => do
      let (parts, rest) ← readQuoted fuel rest
      some (.output script true :: parts, rest)
    | none, some (name, rest) => do
      let (parts, rest) ← readQuoted fuel rest
      some (.parameter name true :: parts, rest)
    | none, none => do
      let (parts, rest) ← readQuoted fuel rest
      some (.text ['$'] true :: parts, rest)
  | fuel + 1, '\x60' :: rest => do
    let (script, rest) ← output? ('\x60' :: rest)
    let (parts, rest) ← readQuoted fuel rest
    some (.output script true :: parts, rest)
  | fuel + 1, c :: rest => do
    let (parts, rest) ← readQuoted fuel rest
    some (.text [c] true :: parts, rest)

/-- A word, with what follows it. The first argument is at least the length of the text. -/
def readWord : Nat → List Char → Option (Word × List Char)
  | 0, _ => none
  | _ + 1, [] => some ([], [])
  | fuel + 1, '\'' :: rest =>
    let inside := rest.takeWhile (· ≠ '\'')
    if inside.length < rest.length then do
      let (parts, rest) ← readWord fuel (rest.drop (inside.length + 1))
      some (.text inside true :: parts, rest)
    else none
  | fuel + 1, '"' :: rest => do
    let (quoted, rest) ← readQuoted fuel rest
    let (parts, rest) ← readWord fuel rest
    some (quoted ++ parts, rest)
  | fuel + 1, '\\' :: c :: rest => do
    let (parts, rest) ← readWord fuel rest
    some (if c = '\n' then parts else .text [c] true :: parts, rest)
  | fuel + 1, '$' :: rest =>
    match output? ('$' :: rest), parameter? rest with
    | some (script, rest), _ => do
      let (parts, rest) ← readWord fuel rest
      some (.output script false :: parts, rest)
    | none, some (name, rest) => do
      let (parts, rest) ← readWord fuel rest
      some (.parameter name false :: parts, rest)
    | none, none => do
      let (parts, rest) ← readWord fuel rest
      some (.text ['$'] false :: parts, rest)
  | fuel + 1, '\x60' :: rest => do
    let (script, rest) ← output? ('\x60' :: rest)
    let (parts, rest) ← readWord fuel rest
    some (.output script false :: parts, rest)
  | fuel + 1, c :: rest =>
    if endsWord c then some ([], c :: rest)
    else do
      let (parts, rest) ← readWord fuel rest
      some (.text [c] false :: parts, rest)

def operator? : List Char → Option (Operator × List Char)
  | '&' :: '&' :: rest => some (.both, rest)
  | '|' :: '|' :: rest => some (.either, rest)
  | '>' :: '>' :: rest => some (.append, rest)
  | '>' :: '&' :: rest => some (.sameOutput, rest)
  | '<' :: '&' :: rest => some (.sameInput, rest)
  | ';' :: rest => some (.semicolon, rest)
  | '&' :: rest => some (.background, rest)
  | '|' :: rest => some (.pipe, rest)
  | '<' :: rest => some (.input, rest)
  | '>' :: rest => some (.replace, rest)
  | '(' :: rest => some (.opening, rest)
  | ')' :: rest => some (.closing, rest)
  | _ => none

/-- The number directly in front of a redirection, with what follows it. -/
def number? (text : List Char) : Option (Nat × List Char) :=
  let digits := text.takeWhile Char.isDigit
  let rest := text.drop digits.length
  match digits, rest with
  | _ :: _, c :: _ =>
    if c = '<' ∨ c = '>' then some (digits.foldl (fun n d => 10 * n + (d.toNat - 48)) 0, rest)
    else none
  | _, _ => none

/-- All lexemes of a script with the numbers of their lines, up to one that is broken. The first
argument is more than the length of the text. -/
def readAll : Nat → Nat → List Char → List (Lexeme × Nat)
  | 0, _, _ => []
  | _ + 1, _, [] => []
  | fuel + 1, line, c :: rest =>
    if c = ' ' ∨ c = '\t' then readAll fuel line rest
    else if c = '\n' then (.newline, line) :: readAll fuel (line + 1) rest
    else if c = '#' then readAll fuel line (rest.dropWhile (· ≠ '\n'))
    else if c = '\\' ∧ rest.head? = some '\n' then readAll fuel (line + 1) rest.tail
    else
      let (number?, text) := match number? (c :: rest) with
        | some (n, rest) => (some n, rest)
        | none => (none, c :: rest)
      match operator? text with
      | some (o, rest) => (.operator number? o, line) :: readAll fuel line rest
      | none =>
        match readWord fuel (c :: rest) with
        | some (w, after) =>
          let passed := (c :: rest).take ((c :: rest).length - after.length)
          (.word w, line) :: readAll fuel (line + passed.count '\n') after
        | none => [(.broken, line + (c :: rest).count '\n')]

def ofScript (text : List Char) : List (Lexeme × Nat) := readAll (text.length + 2) 1 text

end Lexeme

end PipeShell.Script
