import PipeShell.Userland.Script.Lexeme

/-!
Reading shell scripts.
-/

set_option autoImplicit false
set_option relaxedAutoImplicit false

namespace PipeShell.Script

/-- Lexemes with the numbers of their lines. -/
abbrev Lexemes := List (Lexeme × Nat)

/-- A word that is no more than unquoted characters. -/
def plain? (w : Word) : Option (List Char) :=
  w.foldr (fun part rest => match part, rest with
    | .text characters false, some rest => some (characters ++ rest)
    | _, _ => none) (some [])

/-- Whether a lexeme is a given word of the language. -/
def isKeyword (keyword : String) : Lexeme → Bool
  | .word w => plain? w = some keyword.toList
  | _ => false

/-- Passes over the ends of lines, and semicolons on demand. -/
def skipEnds (semicolons : Bool) (l : Lexemes) : Lexemes :=
  l.dropWhile fun (lexeme, _) => lexeme = .newline ||
    (semicolons && lexeme = .operator none .semicolon)

/-- A word as an assignment to a variable. -/
def assignment? (w : Word) : Option (List Char × Word) :=
  let rec go (name : List Char) : Word → Option (List Char × Word)
    | .text ['='] false :: rest => if name = [] then none else some (name, rest)
    | .text [c] false :: rest =>
      if Lexeme.isNameChar c && !(name = [] && c.isDigit) then go (name ++ [c]) rest else none
    | _ => none
  go [] w

def redirection? (number? : Option Nat) (o : Operator) (w : Word) : Option Redirection :=
  match o with
  | .input => some ⟨number?.getD 0, .input w⟩
  | .replace => some ⟨number?.getD 1, .replace w⟩
  | .append => some ⟨number?.getD 1, .append w⟩
  | .sameInput => some ⟨number?.getD 0, .same w⟩
  | .sameOutput => some ⟨number?.getD 1, .same w⟩
  | _ => none

/-- Words that end a sequence of commands. -/
def closers : List String := ["done", "do", "then", "else", "elif", "fi", "\x7d"]

def isCloser (lexeme : Lexeme) : Bool :=
  closers.any (isKeyword · lexeme) || lexeme = .operator none .closing

/-- Where a script breaks the rules of the language: what does not fit there, and the word that
should stand there, if it can only be one. -/
structure Misfit where
  left : Lexemes
  expected? : Option String := none

/-- Words of the language. -/
def keywords : List String :=
  "if" :: "for" :: "while" :: "until" :: "case" :: "esac" :: "\x7b" :: "!" :: closers

def nameOf : Lexemes → String
  | [] => "end of file"
  | (.newline, _) :: _ => "newline"
  | (.operator _ o, _) :: _ => if o.text = "redirection" then o.text else "\"" ++ o.text ++ "\""
  | (lexeme, _) :: _ =>
    match keywords.find? (isKeyword · lexeme) with
    | some keyword => "\"" ++ keyword ++ "\""
    | none => "word"

def Misfit.message (m : Misfit) : String :=
  match m.left with
  | (.broken, _) :: _ => "Unterminated quoted string"
  | left => nameOf left ++ " unexpected" ++
    (match m.expected? with
      | some expected => " (expecting \"" ++ expected ++ "\")"
      | none => "")

/-- The line of a misfit, given the one where the script ends. The end of a line counts to the next
one. -/
def Misfit.line (m : Misfit) (last : Nat) : Nat :=
  match m.left with
  | (.newline, line) :: _ => line + 1
  | (_, line) :: _ => line
  | [] => last

/-- What follows a word of the language that has to stand here. -/
def expectKeyword (keyword : String) (l : Lexemes) : Except Misfit Lexemes :=
  match l with
  | (lexeme, _) :: rest => if isKeyword keyword lexeme then .ok rest else .error ⟨l, some keyword⟩
  | [] => .error ⟨l, some keyword⟩

/-- Reads a simple command on from what there is of it. -/
def readSimple (s : Simple) : Lexemes → Except Misfit (Simple × Lexemes)
  | (.word w, _) :: rest =>
    match assignment? w with
    | some a =>
      if s.words = [] then readSimple { s with assignments := s.assignments ++ [a] } rest
      else readSimple { s with words := s.words ++ [w] } rest
    | none => readSimple { s with words := s.words ++ [w] } rest
  | (.operator number? o, line) :: (.word w, wordLine) :: rest =>
    match redirection? number? o w with
    | some r => readSimple { s with redirections := s.redirections ++ [r] } rest
    | none => .ok (s, (.operator number? o, line) :: (.word w, wordLine) :: rest)
  | (.operator number? o, line) :: rest =>
    if (redirection? number? o []).isSome then .error ⟨rest, none⟩
    else .ok (s, (.operator number? o, line) :: rest)
  | (.broken, line) :: rest => .error ⟨(.broken, line) :: rest, none⟩
  | rest => .ok (s, rest)

def readWords : Lexemes → List Word × Lexemes
  | (.word w, _) :: rest =>
    let (words, rest) := readWords rest
    (w :: words, rest)
  | rest => ([], rest)

def readRedirections : Lexemes → List Redirection × Lexemes
  | (.operator number? o, line) :: (.word w, wordLine) :: rest =>
    match redirection? number? o w with
    | some r =>
      let (others, rest) := readRedirections rest
      (r :: others, rest)
    | none => ([], (.operator number? o, line) :: (.word w, wordLine) :: rest)
  | rest => ([], rest)

/-- A command with the redirections that follow it, in a process of its own or not. -/
def withRedirections (line : Nat) (apart : Bool) (body : Command) (rest : Lexemes) :
    Command × Lexemes :=
  match readRedirections rest with
  | ([], rest) => (if apart then .group line true body [] else body, rest)
  | (redirections, rest) => (.group line apart body redirections, rest)

mutual

/-- Reads a command that is not made up of others side by side. -/
def readOne : Nat → Lexemes → Except Misfit (Command × Lexemes)
  | 0, l => .error ⟨l, none⟩
  | _ + 1, [] => .error ⟨[], none⟩
  | fuel + 1, (lexeme, line) :: rest =>
    if isCloser lexeme then .error ⟨(lexeme, line) :: rest, none⟩
    else if isKeyword "for" lexeme then do
      let (loop, rest) ← readFor fuel rest
      .ok (withRedirections line false loop rest)
    else if isKeyword "if" lexeme then do
      let (choice, rest) ← readChoice fuel rest
      .ok (withRedirections line false choice rest)
    else if isKeyword "while" lexeme || isKeyword "until" lexeme then do
      let (condition, rest) ← readSequence fuel rest
      let (body, rest) ← readBody fuel rest
      .ok (withRedirections line false (.loop (isKeyword "until" lexeme) condition body) rest)
    else if isKeyword "\x7b" lexeme then do
      let (body, rest) ← readSequence fuel rest
      let rest ← expectKeyword "\x7d" rest
      .ok (withRedirections line false body rest)
    else if lexeme = .operator none .opening then do
      let (body, rest) ← readSequence fuel rest
      match rest with
      | (.operator none .closing, _) :: rest => .ok (withRedirections line true body rest)
      | rest => .error ⟨rest, some ")"⟩
    else do
      let (s, after) ← readSimple { line := line } ((lexeme, line) :: rest)
      if s = { line := line } then .error ⟨(lexeme, line) :: rest, none⟩ else .ok (.simple s, after)

/-- Reads what follows the word that begins a loop over values. -/
def readFor : Nat → Lexemes → Except Misfit (Command × Lexemes)
  | fuel + 1, (.word w, wordLine) :: rest => do
    let name ← match plain? w with
      | some name => .ok name
      | none => .error ⟨(.word w, wordLine) :: rest, none⟩
    match skipEnds false rest with
    | (lexeme, line) :: rest =>
      let (words?, rest) := if isKeyword "in" lexeme then
          let (words, rest) := readWords rest
          (some words, rest)
        else (none, (lexeme, line) :: rest)
      let (body, rest) ← readBody fuel rest
      .ok (.forEach name words? body, rest)
    | [] => .error ⟨[], some "do"⟩
  | _, l => .error ⟨l, none⟩

def readChoice : Nat → Lexemes → Except Misfit (Command × Lexemes)
  | 0, l => .error ⟨l, none⟩
  | fuel + 1, rest => do
    let (condition, rest) ← readSequence fuel rest
    let rest ← expectKeyword "then" rest
    let (consequence, rest) ← readSequence fuel rest
    match rest with
    | (lexeme, line) :: rest =>
      if isKeyword "elif" lexeme then do
        let (alternative, rest) ← readChoice fuel rest
        .ok (.choice condition consequence alternative, rest)
      else if isKeyword "else" lexeme then do
        let (alternative, rest) ← readSequence fuel rest
        let rest ← expectKeyword "fi" rest
        .ok (.choice condition consequence alternative, rest)
      else if isKeyword "fi" lexeme then .ok (.choice condition consequence .nothing, rest)
      else .error ⟨(lexeme, line) :: rest, some "fi"⟩
    | [] => .error ⟨[], some "fi"⟩

def readBody : Nat → Lexemes → Except Misfit (Command × Lexemes)
  | 0, l => .error ⟨l, none⟩
  | fuel + 1, rest => do
    let rest ← expectKeyword "do" (skipEnds true rest)
    let (body, rest) ← readSequence fuel rest
    let rest ← expectKeyword "done" rest
    .ok (body, rest)

/-- Reads commands with pipes between them, behind an exclamation mark if they are to fail. -/
def readPiped : Nat → Lexemes → Except Misfit (Command × Lexemes)
  | 0, l => .error ⟨l, none⟩
  | _ + 1, [] => .error ⟨[], none⟩
  | fuel + 1, (lexeme, line) :: rest =>
    if isKeyword "!" lexeme then do
      let (body, rest) ← readPiped fuel rest
      .ok (.negated body, rest)
    else do
      let (first, rest) ← readOne fuel ((lexeme, line) :: rest)
      match rest with
      | (.operator none .pipe, _) :: rest => do
        let (second, rest) ← readPiped fuel (skipEnds false rest)
        .ok (.piped first second, rest)
      | rest => .ok (first, rest)

/-- Reads commands that depend on one another. -/
def readChain : Nat → Lexemes → Except Misfit (Command × Lexemes)
  | 0, l => .error ⟨l, none⟩
  | fuel + 1, l => do
    let (first, rest) ← readPiped fuel l
    readChainFrom fuel first rest

/-- Reads what depends on a command. -/
def readChainFrom : Nat → Command → Lexemes → Except Misfit (Command × Lexemes)
  | 0, _, l => .error ⟨l, none⟩
  | fuel + 1, first, (.operator none .both, _) :: rest => do
    let (second, rest) ← readPiped fuel (skipEnds false rest)
    readChainFrom fuel (.both first second) rest
  | fuel + 1, first, (.operator none .either, _) :: rest => do
    let (second, rest) ← readPiped fuel (skipEnds false rest)
    readChainFrom fuel (.either first second) rest
  | _ + 1, first, rest => .ok (first, rest)

/-- Reads commands up to the end or to what closes a command around them. -/
def readSequence : Nat → Lexemes → Except Misfit (Command × Lexemes)
  | 0, l => .error ⟨l, none⟩
  | fuel + 1, l =>
    match skipEnds true l with
    | [] => .ok (.nothing, [])
    | (lexeme, line) :: rest =>
      if isCloser lexeme then .ok (.nothing, (lexeme, line) :: rest)
      else do
        let (first, rest) ← readChain fuel ((lexeme, line) :: rest)
        match rest with
        | (.newline, _) :: rest | (.operator none .semicolon, _) :: rest =>
          let (others, rest) ← readSequence fuel rest
          .ok (.sequence first others, rest)
        | (.operator none .background, _) :: rest =>
          let (others, rest) ← readSequence fuel rest
          .ok (.sequence (.background first) others, rest)
        | [] => .ok (first, [])
        | (lexeme, line) :: rest =>
          if isCloser lexeme then .ok (first, (lexeme, line) :: rest)
          else .error ⟨(lexeme, line) :: rest, none⟩

end

/-- Reads the commands of one line, which goes on where a command is not complete. -/
def readRow : Nat → Lexemes → Except Misfit (Command × Lexemes)
  | 0, l => .error ⟨l, none⟩
  | fuel + 1, l => do
    let (first, rest) ← readChain fuel l
    let (first, rest, more) := match rest with
      | (.operator none .semicolon, _) :: rest => (first, rest, true)
      | (.operator none .background, _) :: rest => (.background first, rest, true)
      | rest => (first, rest, false)
    match rest, more with
    | [], _ => .ok (first, [])
    | (.newline, _) :: rest, _ => .ok (first, rest)
    | rest, true => do
      let (others, rest) ← readRow fuel rest
      .ok (.sequence first others, rest)
    | rest, false => .error ⟨rest, none⟩

/-- How much the depth of a script is at most. -/
def depthBound (l : Lexemes) : Nat := 6 * l.length + 6

end PipeShell.Script
