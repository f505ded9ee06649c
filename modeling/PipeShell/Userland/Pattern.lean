import PipeShell.Userland.Tool

/-!
Patterns for parts of lines: single characters, any character, sets of characters, repetition, and
both ends of a line. A pattern matches at the first place where it can, and there as much as it can.
-/

set_option autoImplicit false
set_option relaxedAutoImplicit false

namespace PipeShell.Tool

inductive Atom
  | one (c : Char)
  | any
  | set (negated : Bool) (ranges : List (Char × Char))
  deriving DecidableEq, Repr

structure Piece where
  atom : Atom
  least : Nat := 1
  /-- Whether it may stand more often than once. -/
  many : Bool := false
  /-- Whether it may be missing or stand once. -/
  optional : Bool := false
  deriving DecidableEq, Repr

structure Pattern where
  atStart : Bool := false
  pieces : List Piece
  atEnd : Bool := false
  deriving DecidableEq, Repr

/-- The same letter as a capital and as a small letter. -/
def sameLetter (ignoreCase : Bool) (a b : Char) : Bool :=
  a = b || (ignoreCase && a.toLower = b.toLower)

def Atom.matchesOne (ignoreCase : Bool) (c : Char) : Atom → Bool
  | one d => sameLetter ignoreCase c d
  | any => true
  | set negated ranges =>
    let found (c : Char) : Bool := ranges.any fun r => r.1 ≤ c && c ≤ r.2
    (found c || (ignoreCase && (found c.toLower || found c.toUpper))) != negated

namespace Pattern

/-- The ranges of a set up to the bracket that closes it. The first argument is at least the length
of the text. -/
def readRanges : Nat → List Char → Option (List (Char × Char) × List Char)
  | 0, _ => none
  | _ + 1, [] => none
  | _ + 1, ']' :: rest => some ([], rest)
  | fuel + 1, '[' :: ':' :: rest => do
    let name := rest.takeWhile (· ≠ ':')
    match rest.drop name.length with
    | ':' :: ']' :: rest =>
      let (others, rest) ← readRanges fuel rest
      some (ofClass (String.ofList name) ++ others, rest)
    | _ => none
  | fuel + 1, low :: '-' :: high :: rest => do
    if high = ']' then some ([(low, low), ('-', '-')], rest)
    else
      let (others, rest) ← readRanges fuel rest
      some ((low, high) :: others, rest)
  | fuel + 1, c :: rest => do
    let (others, rest) ← readRanges fuel rest
    some ((c, c) :: others, rest)
where
  ofClass : String → List (Char × Char)
    | "lower" => [('a', 'z')]
    | "upper" => [('A', 'Z')]
    | "alpha" => [('a', 'z'), ('A', 'Z')]
    | "digit" => [('0', '9')]
    | "alnum" => [('a', 'z'), ('A', 'Z'), ('0', '9')]
    | "space" => [(' ', ' '), ('\t', '\r')]
    | "blank" => [(' ', ' '), ('\t', '\t')]
    | _ => []

/-- Reads an atom; a bracket directly behind the opening one belongs to the set. -/
def readAtom (text : List Char) : Option (Atom × List Char) :=
  let ranges (negated : Bool) (text : List Char) : Option (Atom × List Char) :=
    match text with
    | ']' :: rest =>
      (readRanges (rest.length + 1) rest).map fun (r, rest) =>
        (.set negated ((']', ']') :: r), rest)
    | text => (readRanges (text.length + 1) text).map fun (r, rest) => (.set negated r, rest)
  match text with
  | [] => none
  | '.' :: rest => some (.any, rest)
  | '[' :: '^' :: rest => ranges true rest
  | '[' :: rest => ranges false rest
  | '\\' :: 'n' :: rest => some (.one '\n', rest)
  | '\\' :: 't' :: rest => some (.one '\t', rest)
  | '\\' :: c :: rest => some (.one c, rest)
  | c :: rest => some (.one c, rest)

/-- Reads the pieces of a pattern. In an extended pattern a plus sign and a question mark stand for
repetition, otherwise they do so behind a backslash. The first argument is at least the length of
the text. -/
def readPieces (extended : Bool) : Nat → List Char → Option (List Piece × Bool)
  | 0, _ => none
  | _ + 1, [] => some ([], false)
  | _ + 1, ['$'] => some ([], true)
  | fuel + 1, text => do
    let (atom, rest) ← readAtom text
    let (piece, rest) := match extended, rest with
      | _, '*' :: rest => (({ atom := atom, least := 0, many := true } : Piece), rest)
      | true, '+' :: rest | false, '\\' :: '+' :: rest => ({ atom := atom, many := true }, rest)
      | true, '?' :: rest
        | false, '\\' :: '?' :: rest => ({ atom := atom, least := 0, optional := true }, rest)
      | _, rest => ({ atom := atom }, rest)
    let (pieces, atEnd) ← readPieces extended fuel rest
    some (piece :: pieces, atEnd)

/-- Reads a pattern. A star at its beginning is an ordinary character. -/
def read? (extended : Bool) (text : List Char) : Option Pattern := do
  let (atStart, text) := match text with
    | '^' :: rest => (true, rest)
    | text => (false, text)
  match text with
  | '*' :: rest =>
    let (pieces, atEnd) ← readPieces extended (rest.length + 1) rest
    some ⟨atStart, { atom := .one '*' } :: pieces, atEnd⟩
  | _ =>
    let (pieces, atEnd) ← readPieces extended (text.length + 1) text
    some ⟨atStart, pieces, atEnd⟩

def literal (text : List Char) : Pattern := { pieces := text.map fun c => { atom := .one c } }

/-- The lengths of all matches of pieces at the beginning of a text. -/
def matchLengths (ignoreCase atEnd : Bool) : List Piece → List Char → List Nat
  | [], text => if atEnd ∧ text ≠ [] then [] else [0]
  | piece :: rest, text =>
    let run := (text.takeWhile (piece.atom.matchesOne ignoreCase ·)).length
    let most := if piece.many then run else min run 1
    ((List.range (most + 1)).filter (piece.least ≤ ·)).flatMap fun taken =>
      (matchLengths ignoreCase atEnd rest (text.drop taken)).map (taken + ·)

def isWordCharacter (c : Char) : Bool := c.isAlphanum || c = '_'

/-- Whether a match is a whole word, given what stands in front of it and from its beginning on. -/
def isWord (before? : Option Char) (text : List Char) (length : Nat) : Bool :=
  !before?.any isWordCharacter && !(text.drop length).head?.any isWordCharacter

structure Demand where
  ignoreCase : Bool := false
  words : Bool := false
  deriving DecidableEq, Repr

/-- The length of the longest match at a place, given what stands in front of it. -/
def matchHere (d : Demand) (p : Pattern) (atLineStart : Bool) (before? : Option Char)
    (text : List Char) : Option Nat :=
  if p.atStart && !atLineStart then none
  else
    let lengths := matchLengths d.ignoreCase p.atEnd p.pieces text
    (if d.words then lengths.filter (isWord before? text) else lengths).max?

/-- The first match from a place on: how much is passed over, and how long it is. -/
def findFrom (d : Demand) (p : Pattern) (atLineStart : Bool) (before? : Option Char) :
    List Char → Option (Nat × Nat)
  | [] => (p.matchHere d atLineStart before? []).map ((0, ·))
  | c :: rest =>
    match p.matchHere d atLineStart before? (c :: rest) with
    | some n => some (0, n)
    | none =>
      if p.atStart then none
      else (findFrom d p false (some c) rest).map fun (passed, n) => (passed + 1, n)

def find (p : Pattern) (line : List Char) (d : Demand := {}) : Option (Nat × Nat) :=
  findFrom d p true none line

end Pattern

end PipeShell.Tool
