/-!
The characters of the command language and the tokens they form.
-/

set_option autoImplicit false
set_option relaxedAutoImplicit false

namespace PipeShell.Line

/-- Blanks separate tokens. -/
def isBlank (c : Char) : Bool := c = ' ' || c = '\t'

/-- ASCII letters and digits. -/
def isAlphanumeric (c : Char) : Bool :=
  ('a' ≤ c && c ≤ 'z') || ('A' ≤ c && c ≤ 'Z') || ('0' ≤ c && c ≤ '9')

/-- The characters of program names, arguments and file names. -/
def isPart (c : Char) : Bool := isAlphanumeric c || c = '_' || c = '-' || c = '/' || c = '.'

/-- The characters that would prolong a keyword. -/
def isIdentifier (c : Char) : Bool := isAlphanumeric c || c = '_'

/-- A token: a run of part characters, or any other single character that is not a blank. -/
inductive Token
  | word (text : List Char)
  | mark (c : Char)
  deriving DecidableEq, Repr

/-- Puts a part character in front of the tokens behind it. A word that follows directly is
prolonged. -/
def Token.prolong (c : Char) (touching : Bool) : List Token → List Token
  | .word text :: rest =>
    if touching then .word (c :: text) :: rest else .word [c] :: .word text :: rest
  | tokens => .word [c] :: tokens

/-- The tokens of a line: maximal runs of part characters and single other characters, without
blanks. -/
def tokens : List Char → List Token
  | [] => []
  | c :: rest =>
    if isBlank c then tokens rest
    else if isPart c then
      Token.prolong c (match rest with | d :: _ => isPart d | [] => false) (tokens rest)
    else .mark c :: tokens rest

end PipeShell.Line
