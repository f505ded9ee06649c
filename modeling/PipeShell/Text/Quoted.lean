import PipeShell.Text.Visible

/-!
Texts in quotes. A quoted text shows visible characters as they are; quotes, backslashes and the
commonest controls have a short form with a backslash, and every other character stands as its
number.
-/

set_option autoImplicit false
set_option relaxedAutoImplicit false

namespace PipeShell.Text

def hexadecimal (n : Nat) : String := String.ofList (Nat.toDigits 16 n)

/-- A character inside quotes. -/
def quoteChar (c : Char) : String :=
  if c = Char.ofNat 0 then "\\0"
  else if c = '\t' then "\\t"
  else if c = '\r' then "\\r"
  else if c = '\n' then "\\n"
  else if c = '"' then "\\\""
  else if c = '\\' then "\\\\"
  else if isVisible c then String.singleton c
  else "\\u\x7b" ++ hexadecimal c.toNat ++ "\x7d"

/-- A text in quotes. -/
def quote (s : String) : String := "\"" ++ String.join (s.toList.map quoteChar) ++ "\""

/-- A list in brackets. -/
def bracket (items : List String) : String := "[" ++ ", ".intercalate items ++ "]"

end PipeShell.Text
