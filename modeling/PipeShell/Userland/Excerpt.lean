import PipeShell.Userland.Tool

/-!
Programs that pass on a part of what they read: its beginning or its end.
-/

set_option autoImplicit false
set_option relaxedAutoImplicit false

namespace PipeShell.Tool

inductive Extent
  | lines
  | bytes
  deriving DecidableEq, Repr

/-- A number with the sign in front of it, if there is one. -/
structure SignedCount where
  sign? : Option Char
  count : Nat
  deriving DecidableEq, Repr

/-- The number of units that the letters behind a number stand for. -/
def multiplier? (letters : List Char) : Option Nat :=
  let power? (c : Char) : Option Nat :=
    if c = 'k' then some 1 else if c = 'm' then some 2
    else (['K', 'M', 'G', 'T', 'P', 'E'].idxOf? c).map (· + 1)
  match letters with
  | [] => some 1
  | ['b'] => some 512
  | [c] | [c, 'i', 'B'] => (power? c).map (Nat.pow 1024)
  | [c, 'B'] => (power? c).map (Nat.pow 1000)
  | _ => none

inductive CountFault
  | unreadable
  | tooLarge
  deriving DecidableEq, Repr

def countLimit : Nat := Nat.pow 2 64

def SignedCount.read (text : Bytes) : Except CountFault SignedCount :=
  let (sign?, rest) := match chars text with
    | '-' :: rest => (some '-', rest)
    | '+' :: rest => (some '+', rest)
    | rest => (none, rest)
  let digits := rest.takeWhile Char.isDigit
  match number? (ofChars digits), multiplier? (rest.drop digits.length) with
  | some n, some factor =>
    if countLimit ≤ n * factor then .error .tooLarge else .ok ⟨sign?, n * factor⟩
  | _, _ => .error .unreadable

/-- The name of a source in messages and headings. -/
def sourceName (operand : Bytes) : Bytes :=
  if operand = dash then Bytes.ofString "standard input" else operand

/-- The length of the first lines of some data, with their newlines, added to what was passed
before. -/
def lengthOfLinesFrom (passed : Nat) : Nat → Bytes → Nat
  | 0, _ => passed
  | _, [] => passed
  | n + 1, b :: rest => lengthOfLinesFrom (passed + 1) (if b = Bytes.newline then n else n + 1) rest

def lengthOfLines (n : Nat) (data : Bytes) : Nat := lengthOfLinesFrom 0 n data

def newlineCount (data : Bytes) : Nat := data.count Bytes.newline

/-- How many lines there are, an unfinished one at the end included. -/
def lineCount (data : Bytes) : Nat :=
  newlineCount data + (if data ≠ [] ∧ data.getLast? ≠ some Bytes.newline then 1 else 0)

def lengthWithoutLines (n : Nat) (data : Bytes) : Nat := lengthOfLines (lineCount data - n) data

def extentOf (a : Arguments) : Extent × Bytes :=
  match a.options.reverse.find? fun o => o.1 = 'n' || o.1 = 'c' with
  | some ('c', value) => (.bytes, value)
  | some (_, value) => (.lines, value)
  | none => (.lines, Bytes.ofString "10")

def badCount (name : Bytes) (extent : Extent) (value : Bytes) (fault : CountFault) :
    Program UInt8 := do
  let unit := match extent with
    | .lines => "lines"
    | .bytes => "bytes"
  let digits := if value.head? ∈ [some 43, some 45] then value.tail else value
  complain name (Bytes.ofString ("invalid number of " ++ unit ++ ": ") ++ quoted digits ++
    Bytes.ofString (match fault with
      | .unreadable => ""
      | .tooLarge => ": Value too large for defined data type"))
  pure 1

def excerptUsage : Usage :=
  { plain := "qvz", valued := "nc"
    words := [("bytes", 'c'), ("lines", 'n'), ("quiet", 'q'), ("silent", 'q'), ("verbose", 'v')] }

def excerptFault : Writing := { complaints := Writing.named "error writing" }

def unreadable (name operand : Bytes) (reason : Errno) : Program UInt8 := do
  complainAbout name (Bytes.ofString "error reading " ++ quoted (sourceName operand)) reason
  pure 1

/-- The line above a source that is one of several. -/
def headingOf (isFirst : Bool) (operand : Bytes) : Bytes :=
  (if isFirst then [] else [Bytes.newline]) ++ Bytes.ofString "==> " ++ sourceName operand ++
    Bytes.ofString " <==\n"

/-- Opens one source after the other, writes the headings, and goes on with what is to be done for
each. -/
def excerptEach (name : Bytes) (headings : Bool) (body : Bytes → Fd → Program UInt8) :
    Bool → List Bytes → Program UInt8
  | _, [] => pure 0
  | isFirst, operand :: rest => do
    let failed (reason : Errno) : Program (Bool × UInt8) := do
      complainAbout name
        (Bytes.ofString "cannot open " ++ quoted operand ++ Bytes.ofString " for reading") reason
      pure (false, 1)
    let (opened, code) ← withSource operand failed fun fd => do
      emit name (if headings then headingOf isFirst operand else []) excerptFault
      let code ← body operand fd
      pure (true, code)
    let others ← excerptEach name headings body (isFirst && !opened) rest
    pure (max code others)

def excerpt (name : Bytes) (a : Arguments) (body : Bytes → Fd → Program UInt8) : Program UInt8 :=
  let wish? := a.last? ['q', 'v']
  let headings : Bool := wish? = some 'v' || (1 < a.operands.length && wish? ≠ some 'q')
  excerptEach name headings body true (sources a.operands)

/-! ### The beginning -/

/-- How much of the data read so far the beginning needs, if that is settled. -/
def beginningNeeded (extent : Extent) (count : Nat) (seen : Bytes) : Option Nat :=
  match extent with
  | .bytes => if count ≤ seen.length then some count else none
  | .lines => if count ≤ newlineCount seen then some (lengthOfLines count seen) else none

def excerptBlock : Nat := 8192

/-- Copies the beginning of a source. A file is left where the beginning ends. -/
def copyBeginning (name : Bytes) (extent : Extent) (count : Nat) (operand : Bytes)
    (fd : Fd) : Program UInt8 :=
  let yield (seen : Bytes) (_ : Bool) : Yield :=
    let needed? := beginningNeeded extent count seen
    { output := seen.take (needed?.getD seen.length), needed? := needed? }
  let finish (t : Transferred) : Program UInt8 := do
    giveBack fd { t with needed := (beginningNeeded extent count t.seen).getD t.seen.length }
    pure 0
  filterSource name yield (unreadable name operand) finish excerptFault fd
    (if extent = .bytes then min count excerptBlock else excerptBlock)

/-- How much of the data read so far belongs to everything but the end. -/
def lengthWithoutEnd (extent : Extent) (count : Nat) (seen : Bytes) (ended : Bool) : Nat :=
  match extent with
  | .bytes => seen.length - count
  | .lines =>
    if ended then lengthWithoutLines count seen else lengthOfLines (newlineCount seen - count) seen

/-- Copies everything but the end of a source. A file is left where the copy ends; a large one that
has too few lines is left behind its first block. -/
def copyWithoutEnd (name : Bytes) (extent : Extent) (count : Nat) (operand : Bytes)
    (fd : Fd) : Program UInt8 :=
  let yield (seen : Bytes) (ended : Bool) : Yield :=
    { output := seen.take (lengthWithoutEnd extent count seen ended) }
  let finish (t : Transferred) : Program UInt8 := do
    let copied := lengthWithoutEnd extent count t.seen true
    let info? ← Program.ask (.inspect fd)
    let large : Bool := match info? with
      | some info => outputBlock < info.size
      | none => false
    let left := if large && extent = .lines &&
      copied = 0 then min t.seen.length excerptBlock else copied
    giveBack fd { t with needed := left }
    pure 0
  filterSource name yield (unreadable name operand) finish excerptFault fd excerptBlock

/-- A first argument that is a number behind a dash, as options; letters behind it say what it
counts. -/
def withOldBeginning (arguments : List Bytes) : Except Char (List Bytes) :=
  match arguments with
  | (45 :: d :: rest) :: others =>
    let text := chars (d :: rest)
    let digits := text.takeWhile Char.isDigit
    if digits = [] then .ok arguments
    else
      let letters := text.drop digits.length
      match letters.find? (· ∉ ['b', 'c', 'k', 'l', 'm', 'q', 'v', 'z']) with
      | some c => .error c
      | none =>
        let unit := letters.filter (· ∈ ['b', 'k', 'm'])
        let extent : Char := if unit ≠ [] ∨ 'c' ∈ letters then 'c' else 'n'
        let flags := letters.filter (· ∈ ['q', 'v', 'z'])
        .ok (ofChars ['-', extent] :: ofChars (digits ++ unit.take 1) ::
          flags.map (fun c => ofChars ['-', c]) ++ others)
  | _ => .ok arguments

/-- Copies the beginnings of its operands. -/
def beginning : Tool := fun name arguments =>
  match withOldBeginning arguments with
  | .error c => misused name (Bytes.ofString "invalid trailing option -- " ++ ofChars [c]) 1
  | .ok arguments =>
    withArguments excerptUsage (fun name a =>
      let (extent, value) := extentOf a
      match SignedCount.read value with
      | .error fault => badCount name extent value fault
      | .ok n =>
        let body := if n.sign? = some '-' then copyWithoutEnd name extent n.count
          else copyBeginning name extent n.count
        excerpt name a body) name arguments

/-! ### The end -/

def endStart (extent : Extent) (count : Nat) (data : Bytes) : Nat :=
  match extent with
  | .bytes => data.length - count
  | .lines => lengthWithoutLines count data

def copyEnd (name : Bytes) (extent : Extent) (count : Nat) (operand : Bytes) (fd : Fd) :
    Program UInt8 := do
  let t ← Program.slurp fd
  match t.halt with
  | .cannotRead reason => unreadable name operand reason
  | _ => emitAll name (t.seen.drop (endStart extent count t.seen)) 0 excerptFault

/-- How much of some data stands in front of a line or a byte with a number, which count from
one. -/
def lengthBefore (extent : Extent) (number : Nat) (data : Bytes) : Nat :=
  match extent with
  | .bytes => number - 1
  | .lines => lengthOfLines (number - 1) data

def copyFrom (name : Bytes) (extent : Extent) (number : Nat) (operand : Bytes)
    (fd : Fd) : Program UInt8 :=
  let yield (seen : Bytes) (_ : Bool) : Yield :=
    { output := seen.drop (lengthBefore extent number seen) }
  filterInput name yield (unreadable name operand) excerptFault fd

/-- A first argument that is a number behind a sign, as options; a letter behind it says what it
counts. -/
def withOldEnd (arguments : List Bytes) : List Bytes :=
  match arguments with
  | (sign :: rest) :: others =>
    let text := chars rest
    let digits := text.takeWhile Char.isDigit
    let signed := if sign = 43 then '+' :: digits else digits
    let fits : Bool := others.length ≤ 1 && digits ≠ [] && (sign = 43 || sign = 45)
    match fits, text.drop digits.length with
    | true, [] | true, ['l'] => ofChars ['-', 'n'] :: ofChars signed :: others
    | true, ['c'] => ofChars ['-', 'c'] :: ofChars signed :: others
    | true, ['b'] => ofChars ['-', 'c'] :: ofChars (signed ++ ['b']) :: others
    | _, _ => arguments
  | _ => arguments

/-- Copies the ends of its operands. Nothing is read if nothing will be written. -/
def ending : Tool := fun name arguments =>
  withArguments excerptUsage (fun name a =>
    let (extent, value) := extentOf a
    match SignedCount.read value with
    | .error fault => badCount name extent value fault
    | .ok n =>
      if n.sign? = some '+' then excerpt name a (copyFrom name extent n.count)
      else if n.count = 0 then pure 0
      else excerpt name a (copyEnd name extent n.count))
    name (withOldEnd arguments)

end PipeShell.Tool
