import PipeShell.Userland.Tool

/-!
Backslashes in texts that are printed.
-/

set_option autoImplicit false
set_option relaxedAutoImplicit false

namespace PipeShell.Tool

/-- The character that a letter behind a backslash stands for. -/
def escaped? : Char → Option Char
  | '\\' => some '\\'
  | 'a' => some '\x07'
  | 'b' => some '\x08'
  | 'f' => some '\x0c'
  | 'n' => some '\n'
  | 'r' => some '\r'
  | 't' => some '\t'
  | 'v' => some '\x0b'
  | _ => none

def isOctal (c : Char) : Bool := '0' ≤ c && c ≤ '7'

/-- The character with an octal number. -/
def ofOctal (digits : List Char) : Char :=
  Char.ofNat (digits.foldl (fun n c => 8 * n + (c.toNat - 48)) 0 % 256)

/-- A text with its escapes carried out, and whether it came to its end: a `c` behind a backslash
cuts it off. -/
def unescape : List Char → List Char × Bool
  | '\\' :: 'c' :: _ => ([], false)
  | '\\' :: '0' :: rest =>
    let digits := (rest.take 3).takeWhile isOctal
    let (text, whole) := unescape (rest.drop digits.length)
    (ofOctal digits :: text, whole)
  | '\\' :: c :: rest =>
    let (text, whole) := unescape rest
    match escaped? c with
    | some e => (e :: text, whole)
    | none => ('\\' :: c :: text, whole)
  | c :: rest =>
    let (text, whole) := unescape rest
    (c :: text, whole)
  | [] => ([], true)
termination_by text => text.length
decreasing_by all_goals (simp; try omega)

end PipeShell.Tool
