import PipeShell.Userland.Tool

/-!
Counting lines, words and bytes, and measuring the longest line.
-/

set_option autoImplicit false
set_option relaxedAutoImplicit false

namespace PipeShell.Tool

structure Tally where
  lines : Nat := 0
  words : Nat := 0
  bytes : Nat := 0
  /-- How many columns the longest line takes. -/
  longest : Nat := 0
  deriving DecidableEq, Repr

namespace Tally

def isSpace (b : UInt8) : Bool := b = 32 || (9 ≤ b && b ≤ 13)

/-- Bytes that make up words. Others neither begin a word nor end one. -/
def isWordByte (b : UInt8) : Bool := 33 ≤ b && b ≤ 126

def wordCount (data : Bytes) : Nat :=
  (data.foldl (fun (n, inside) b =>
    if isSpace b then (n, false) else if inside || !isWordByte b then (n, inside)
    else (n + 1, true))
    ((0 : Nat), false)).1

/-- The column behind a byte. Tabs lead to multiples of eight, and what cannot be seen takes no
place. -/
def columnBehind (column : Nat) (b : UInt8) : Nat :=
  if b = 9 then column / 8 * 8 + 8
  else if b = 10 || b = 12 || b = 13 then 0
  else if b = 32 || isWordByte b then column + 1
  else column

def longestLine (data : Bytes) : Nat :=
  (data.foldl (fun (longest, column) b =>
    let column := columnBehind column b
    (max longest column, column)) ((0 : Nat), (0 : Nat))).1

def ofData (data : Bytes) : Tally :=
  { lines := data.count Bytes.newline, words := wordCount data, bytes := data.length,
    longest := longestLine data }

def add (a b : Tally) : Tally :=
  ⟨a.lines + b.lines, a.words + b.words, a.bytes + b.bytes, max a.longest b.longest⟩

end Tally

/-- The counts of one source, and what kept it from being read to its end. -/
def tallySource (operand : Bytes) : Program (Except Errno (Tally × Option Errno)) :=
  withSource operand (pure <| .error ·) fun fd => do
    let t ← Program.slurp fd
    match t.halt with
    | .cannotRead reason => pure (.ok ({}, some reason))
    | _ => pure (.ok (Tally.ofData t.seen, none))

/-- How wide the columns are: as wide as the size of all files needs, but wide where the size of
something is not known; a single number stands alone. -/
def columnWidth (single : Bool) : List Bytes → Program Nat
  | operands => do
    if single then pure 1
    else
      let (total, unknown) ← sizes operands
      let digits := (toString total).length
      pure (if unknown then max 7 digits else digits)
where
  /-- The size of all files together, and whether there is something else than files. -/
  sizes : List Bytes → Program (Nat × Bool)
    | [] => pure (0, false)
    | operand :: rest => do
      let info? ← withSource operand (fun _ => pure none) fun fd => Program.ask (.inspect fd)
      let (total, unknown) ← sizes rest
      match info? with
      | some info =>
        pure (if info.kind = .file then (total + info.size, unknown) else (total, true))
      | none => pure (total, unknown)

/-- Counts its operands. -/
def tally : Tool :=
  let usage : Usage :=
    { plain := "lwcmL"
      words := [("bytes", 'c'), ("chars", 'm'), ("lines", 'l'), ("words", 'w'),
        ("max-line-length", 'L')] }
  withArguments usage fun name a => do
    let all := !(['l', 'w', 'c', 'm', 'L'].any a.has)
    let wanted := [all || a.has 'l', all || a.has 'w', a.has 'm', all || a.has 'c', a.has 'L']
    let single := a.operands.length ≤ 1 && (wanted.filter id).length = 1
    let width ← columnWidth single (sources a.operands)
    let column (n : Nat) : Bytes :=
      let digits := Bytes.ofNat n
      List.replicate (width - digits.length) 32 ++ digits
    let row (t : Tally) (label : Bytes) : Bytes :=
      let numbers := [t.lines, t.words, t.bytes, t.bytes, t.longest]
      let cells := ((wanted.zip numbers).filter (·.1)).map fun cell => column cell.2
      [32].intercalate cells ++ (if label = [] then [] else 32 :: label) ++ [Bytes.newline]
    let rec each : List Bytes → Program (Tally × Bytes × UInt8)
      | [] => pure ({}, [], 0)
      | operand :: rest => do
        let label := if a.operands = [] then [] else operand
        let shown := if a.operands = [] then Bytes.ofString "'standard input'"
          else quotedIfNeeded operand
        let (t, text, code) ← match ← tallySource operand with
          | .ok (t, none) => pure (t, row t label, (0 : UInt8))
          | .ok (t, some reason) => do
            complainAbout name shown reason
            pure (t, row t label, 1)
          | .error reason => do
            complainAbout name shown reason
            pure (({} : Tally), [], 1)
        let (others, otherText, otherCode) ← each rest
        pure (t.add others, text ++ otherText, max code otherCode)
    let (total, text, code) ← each (sources a.operands)
    emitAll name (text ++ if 1 < a.operands.length then row total (Bytes.ofString "total") else [])
      code { complaints := fun _ _ _ => ["write error"] }

end PipeShell.Tool
