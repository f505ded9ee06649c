import PipeShell.Userland.Escape

/-!
Programs that read nothing: fixed codes, echoed words, counted numbers, endless repetition, the
working directory, and waiting.
-/

set_option autoImplicit false
set_option relaxedAutoImplicit false

namespace PipeShell.Tool

def endWith (code : UInt8) : Tool := fun _ _ => pure code

def joined (words : List Bytes) : Bytes := [32].intercalate words

def isEchoOption (word : Bytes) : Bool :=
  match chars word with
  | '-' :: c :: rest => (c :: rest).all (· ∈ ['n', 'e', 'E'])
  | _ => false

/-- Writes its arguments. -/
def echo : Tool := fun name arguments =>
  let options := (arguments.takeWhile isEchoOption).flatMap chars
  let text := joined (arguments.dropWhile isEchoOption)
  let newline := if 'n' ∈ options then [] else [Bytes.newline]
  match options.reverse.find? (· ∈ ['e', 'E']) with
  | some 'e' =>
    let (text, whole) := unescape (chars text)
    emitAll name (ofChars text ++ if whole then newline else []) 0
  | _ => emitAll name (text ++ newline) 0

/-- Writes the working directory. -/
def printDirectory : Tool :=
  withArguments { plain := "LP", words := [("logical", 'L'), ("physical", 'P')] } fun name a => do
    if a.operands ≠ [] then
      complain name (Bytes.ofString "ignoring non-option arguments")
    match ← Program.ask .workingDirectory with
    | .ok path => emitAll name (path ++ [Bytes.newline]) 0
    | .error _ => do
      complain name (Bytes.ofString "couldn't find directory entry in '..' with matching i-node")
      pure 1

/-- How much is written at once by a program that writes without end. -/
def floodBlock : Nat := 8192

/-- The words behind the options of a program that has none. -/
def withoutOptions (arguments : List Bytes) : Except OptionFault (List Bytes) :=
  match arguments with
  | [45, 45] :: words => .ok words
  | first :: rest =>
    match chars first with
    | '-' :: _ :: _ => (({} : Usage).read [first]).map fun _ => first :: rest
    | _ => .ok (first :: rest)
  | [] => .ok []

/-- Writes the same line again and again. -/
def repeatForever : Tool := fun name arguments =>
  match withoutOptions arguments with
  | .error fault => misused name fault.message 1
  | .ok words =>
    let line := (if words = [] then [121] else joined words) ++ [Bytes.newline]
    let copies := floodBlock / line.length + 1
    .flood Fd.output (List.replicate copies line).flatten fun reason => do
      complainAbout name (Bytes.ofString "standard output") reason
      pure 1

/-! ### Numbers -/

/-- A number with some digits behind its point. -/
structure Numeral where
  /-- The number without its point. -/
  mantissa : Int
  /-- How many of its digits stand behind the point. -/
  places : Nat := 0
  deriving DecidableEq, Repr

namespace Numeral

/-- The number without its sign, from its digits. -/
def ofDigits? (text : Bytes) : Option Numeral :=
  match Bytes.splitAt 46 text with
  | [whole] => (number? whole).map fun n => { mantissa := n }
  | [whole, fraction] =>
    (number? (whole ++ fraction)).map fun n => { mantissa := n, places := fraction.length }
  | _ => none

def read? (text : Bytes) : Option Numeral :=
  match text with
  | 45 :: digits => (ofDigits? digits).map fun n => { n with mantissa := -n.mantissa }
  | 43 :: digits => ofDigits? digits
  | digits => ofDigits? digits

/-- The number without its point, if it had so many digits behind it. -/
def scaled (n : Numeral) (places : Nat) : Int := n.mantissa * Nat.pow 10 (places - n.places)

/-- A number that was scaled, with some of its digits behind a point, and zeros in front up to a
width. -/
def print (value : Int) (scale places width : Nat) : Bytes :=
  let size := value.natAbs / Nat.pow 10 (scale - places)
  let digits := Bytes.ofNat size
  let digits := List.replicate (places + 1 - digits.length) 48 ++ digits
  let text := if places = 0 then digits
    else digits.take (digits.length - places) ++ 46 :: digits.drop (digits.length - places)
  let sign : Bytes := if value < 0 then [45] else []
  sign ++ List.replicate (width - sign.length - text.length) 48 ++ text

end Numeral

/-- What is to be counted: numbers that were scaled. -/
structure Counting where
  first : Int
  step : Int
  last : Int
  scale : Nat
  places : Nat
  width : Nat := 0
  separator : Bytes := [Bytes.newline]

namespace Counting

def size (c : Counting) : Nat :=
  let span := if 0 < c.step then c.last - c.first else c.first - c.last
  if c.step = 0 || span < 0 then 0 else (span / c.step.natAbs).toNat + 1

/-- Some numbers, each with what stands between it and the next one. -/
def piece (c : Counting) (start count : Nat) : Bytes :=
  (List.range' start count).flatMap fun (k : Nat) =>
    Numeral.print (c.first + (k : Int) * c.step) c.scale c.places c.width ++
      if k + 1 = c.size then [Bytes.newline] else c.separator

def pieceSize : Nat := 500

/-- Writes what was held back and the remaining numbers. -/
def write (c : Counting) (name : Bytes) (held : Bytes) (passed : Nat) : Program UInt8 :=
  if c.size ≤ passed then emitAll name held 0
  else do
    let text := held ++ c.piece passed (min pieceSize (c.size - passed))
    let ready := Writing.released {} text
    emit name ready
    write c name (text.drop ready.length) (passed + pieceSize)
termination_by c.size - passed
decreasing_by
  simp only [pieceSize]
  omega

end Counting

/-- The options at the beginning of some arguments, and the rest. A number may begin with a dash. -/
def frontOptions : List Bytes → List Bytes × List Bytes
  | [] => ([], [])
  | argument :: rest =>
    match chars argument with
    | ['-', '-'] => ([], rest)
    | '-' :: c :: _ =>
      if c.isDigit || c = '.' then ([], argument :: rest)
      else if argument = Bytes.ofString "-s" || argument = Bytes.ofString "--separator" then
        match rest with
        | value :: rest =>
          let (options, operands) := frontOptions rest
          (argument :: value :: options, operands)
        | [] => ([argument], [])
      else
        let (options, operands) := frontOptions rest
        (argument :: options, operands)
    | _ => ([], argument :: rest)

/-- How wide the numbers are that are given by a text, if so many digits stand behind their
points. -/
def widthOf (text : Bytes) (n : Numeral) (places : Nat) : Nat :=
  let length := if text.head? = some 43 then text.length - 1 else text.length
  let point := if n.places = 0 ∧ places ≠ 0 then 1 else 0
  length + point + places - n.places - (if n.places ≠ 0 ∧ places = 0 then 1 else 0)

/-- Counts from one number to another one. -/
def count : Tool := fun name arguments =>
  let usage : Usage :=
    { plain := "w", valued := "s", words := [("equal-width", 'w'), ("separator", 's')] }
  let (options, operands) := frontOptions arguments
  match usage.read options, operands with
  | .error fault, _ => misused name fault.message 1
  | .ok _, [] => misused name (Bytes.ofString "missing operand") 1
  | .ok _, _ :: _ :: _ :: extra :: _ =>
    misused name (Bytes.ofString "extra operand " ++ quoted extra) 1
  | .ok a, operands =>
    match operands.find? fun text => (Numeral.read? text).isNone with
    | some wrong =>
      misused name (Bytes.ofString "invalid floating point argument: " ++ quoted wrong) 1
    | none =>
      let one : Numeral := { mantissa := 1 }
      let numerals := operands.filterMap Numeral.read?
      let first := if numerals.length = 1 then one else numerals.headD one
      let last := numerals.getLastD one
      let step := if numerals.length = 3 then numerals.getD 1 one else one
      if step.mantissa = 0 then
        misused name (Bytes.ofString "invalid Zero increment value: " ++
          quoted (operands.getD 1 [])) 1
      else
        let scale := max first.places (max step.places last.places)
        let places := max first.places step.places
        let firstText := if numerals.length = 1 then [49] else operands.headD []
        let c : Counting :=
          { first := first.scaled scale, step := step.scaled scale, last := last.scaled scale
            scale := scale, places := places
            width := if a.has 'w' then
                max (widthOf firstText first places) (widthOf (operands.getLastD []) last places)
              else 0
            separator := (a.value? 's').getD [Bytes.newline] }
        c.write name [] 0

/-! ### Waiting -/

/-- How long a text says to wait, in microseconds. -/
def duration? (text : Bytes) : Option Nat :=
  let unit? : Option (Nat × Bytes) := match text.getLast? with
    | some 115 => some (1, text.dropLast)
    | some 109 => some (60, text.dropLast)
    | some 104 => some (3600, text.dropLast)
    | some 100 => some (86400, text.dropLast)
    | some _ => some (1, text)
    | none => none
  unit?.bind fun (seconds, digits) =>
    (Numeral.ofDigits? digits).map fun n => n.mantissa.toNat * seconds *
      1000000 / Nat.pow 10 n.places

def wait : Tool := withArguments {} fun name a => do
  match a.operands with
  | [] => misused name (Bytes.ofString "missing operand") 1
  | operands =>
    match operands.filter fun text => (duration? text).isNone with
    | [] => do
      Program.act (.sleep ((operands.filterMap duration?).foldl (· + ·) 0))
      pure 0
    | wrong => do
      complainEach name
        (wrong.map fun text => "invalid time interval " ++ String.ofList (chars (quoted text)))
      pointToHelp name
      pure 1

end PipeShell.Tool
