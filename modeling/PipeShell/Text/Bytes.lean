/-!
Byte strings. File contents, file names and everything that passes through a pipe are lists of
bytes; texts enter them through their UTF-8 form.
-/

set_option autoImplicit false
set_option relaxedAutoImplicit false

namespace PipeShell

/-- A string of bytes. -/
abbrev Bytes := List UInt8

namespace Bytes

/-- The UTF-8 form of a text. -/
def ofString (s : String) : Bytes := s.toList.flatMap String.utf8EncodeChar

def ofNat (n : Nat) : Bytes := ofString (toString n)

/-- The byte that ends a line. -/
def newline : UInt8 := 10

/-- The byte that separates the parts of a path. -/
def slash : UInt8 := 47

/-- Puts a byte in front of the pieces of what follows it. The separator begins a new piece. -/
def addToPieces (separator b : UInt8) (pieces : List Bytes) : List Bytes :=
  if b = separator then [] :: pieces
  else match pieces with
    | [] => [[b]]
    | piece :: pieces => (b :: piece) :: pieces

/-- Cuts a byte string at every occurrence of a byte; there is one piece more than there are
cuts. -/
def splitAt (separator : UInt8) (s : Bytes) : List Bytes := s.foldr (addToPieces separator) [[]]

/-- The first line with its newline, and what follows it; without a newline all of it is the
line. -/
def firstLine : Bytes → Bytes × Bytes
  | [] => ([], [])
  | b :: rest =>
    if b = newline then ([b], rest)
    else ((b :: (firstLine rest).1), (firstLine rest).2)

/-- A byte string comes before another one if it is a proper beginning of it or has the smaller byte
where they first differ. -/
def before : Bytes → Bytes → Bool
  | [], [] => false
  | [], _ :: _ => true
  | _ :: _, [] => false
  | a :: as, b :: bs => if a < b then true else if b < a then false else before as bs

/-- The order of byte strings that sorting uses: not the other way round. -/
def notAfter (a b : Bytes) : Bool := !before b a

theorem firstLine_append (s : Bytes) : (firstLine s).1 ++ (firstLine s).2 = s := by
  induction s with
  | nil => rfl
  | cons b rest ih =>
    unfold firstLine
    split
    · simp
    · simp [ih]

end Bytes

end PipeShell
