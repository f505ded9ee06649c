import PipeShell.Userland.Tool

/-!
Putting lines into another order. Lines are compared by keys, which are parts of them, one key after
the other; what the keys leave open is decided by the lines as they are.
-/

set_option autoImplicit false
set_option relaxedAutoImplicit false

namespace PipeShell.Tool

/-- A number with its sign and the digits behind the point. -/
structure Decimal where
  negative : Bool
  whole : Nat
  fraction : List Char
  deriving DecidableEq, Repr

namespace Decimal

/-- The number that a text begins with. A text that begins with none counts as zero. -/
def ofText (text : Bytes) : Decimal :=
  let text := (chars text).dropWhile fun c => c = ' ' || c = '\t'
  let (negative, text) := match text with
    | '-' :: rest => (true, rest)
    | rest => (false, rest)
  let digits := text.takeWhile Char.isDigit
  let fraction := match text.drop digits.length with
    | '.' :: rest => rest.takeWhile Char.isDigit
    | _ => []
  { negative := negative
    whole := (number? (ofChars digits)).getD 0
    fraction := (fraction.reverse.dropWhile (· = '0')).reverse }

/-- Compares two numbers without their signs. -/
def compareSize (a b : Decimal) : Ordering :=
  (compare a.whole b.whole).then
    (if a.fraction < b.fraction then .lt else if b.fraction < a.fraction then .gt else .eq)

def isZero (a : Decimal) : Bool := a.whole = 0 && a.fraction = []

def order (a b : Decimal) : Ordering :=
  match a.negative && !a.isZero, b.negative && !b.isZero with
  | false, false => a.compareSize b
  | true, true => b.compareSize a
  | true, false => .lt
  | false, true => .gt

end Decimal

structure SortMode where
  numeric : Bool := false
  reverse : Bool := false
  /-- Whether small letters count as large ones. -/
  folded : Bool := false
  /-- Whether only letters, digits and blanks count. -/
  dictionary : Bool := false
  /-- Whether only what can be printed counts. -/
  printable : Bool := false
  /-- Whether blanks do not count where a part begins. -/
  trimmedStart : Bool := false
  /-- Whether blanks do not count where the last field of a part begins. -/
  trimmedEnd : Bool := false
  deriving DecidableEq, Repr

namespace SortMode

def counts (mode : SortMode) (b : UInt8) : Bool :=
  let c := Char.ofNat b.toNat
  (!mode.dictionary || (b < 128 && c.isAlphanum) || b = 32 || b = 9) &&
  (!mode.printable || isPrintable c)

def large (b : UInt8) : UInt8 := if 97 ≤ b && b ≤ 122 then b - 32 else b

def essence (mode : SortMode) (text : Bytes) : Bytes :=
  let text := if mode.dictionary || mode.printable then text.filter mode.counts else text
  if mode.folded then text.map large else text

/-- Sets what a letter stands for. -/
def withLetter? (mode : SortMode) (atEnd : Bool) (c : Char) : Option SortMode :=
  match c with
  | 'n' => some { mode with numeric := true }
  | 'r' => some { mode with reverse := true }
  | 'f' => some { mode with folded := true }
  | 'd' => some { mode with dictionary := true }
  | 'i' => some { mode with printable := true }
  | 'b' =>
    some (if atEnd then { mode with trimmedEnd := true } else { mode with trimmedStart := true })
  | _ => none

end SortMode

/-- A part of a line, from a character of a field on, up to a character of a field. -/
structure SortKey where
  startField : Nat := 0
  startChar : Nat := 0
  /-- The field in which the key ends and how many of its characters belong to it; zero means
  all. -/
  bound? : Option (Nat × Nat) := none
  mode : SortMode := {}
  deriving DecidableEq, Repr

namespace SortKey

def isBlank (b : UInt8) : Bool := b = 32 || b = 9 || b = 10

/-- What follows a number of fields. A separator belongs to the field in front of it; without one,
blanks belong to the field behind them. -/
def skipFields (separator? : Option UInt8) : Nat → Bytes → Bytes
  | 0, text => text
  | n + 1, text =>
    match separator? with
    | some separator => skipFields separator? n (text.dropWhile (· ≠ separator)).tail
    | none => skipFields separator? n ((text.dropWhile isBlank).dropWhile (!isBlank ·))

def start (k : SortKey) (separator? : Option UInt8) (line : Bytes) : Bytes :=
  let text := skipFields separator? k.startField line
  (if k.mode.trimmedStart then text.dropWhile isBlank else text).drop k.startChar

/-- How long the text behind the end of the key is. -/
def restLength (k : SortKey) (separator? : Option UInt8) (line : Bytes) : Nat :=
  match k.bound? with
  | none => 0
  | some (field, 0) =>
    let text := skipFields separator? field line
    match separator? with
    | some separator => (text.dropWhile (· ≠ separator)).length
    | none => (skipFields none 1 text).length
  | some (field, count) =>
    let text := skipFields separator? field line
    ((if k.mode.trimmedEnd then text.dropWhile isBlank else text).drop count).length

def ofLine (k : SortKey) (separator? : Option UInt8) (line : Bytes) : Bytes :=
  let text := k.start separator? line
  text.take (text.length - k.restLength separator? line)

/-- Reads a number that begins a text, and gives what follows it. -/
def readNumber (text : List Char) : Option (Nat × List Char) :=
  let digits := text.takeWhile Char.isDigit
  (number? (ofChars digits)).map fun n => (n, text.drop digits.length)

def readLetters (mode : SortMode) (atEnd : Bool) : List Char → SortMode × List Char
  | [] => (mode, [])
  | c :: rest =>
    match mode.withLetter? atEnd c with
    | some mode => readLetters mode atEnd rest
    | none => (mode, c :: rest)

def readPlace (where' : String) (text whole : List Char) :
    Except String (Nat × Option Nat × List Char) := do
  let of (part : List Char) : String := String.ofList (chars (quoted (ofChars part)))
  match readNumber text with
  | none =>
    .error ("invalid number at field " ++ where' ++ ": invalid count at start of " ++ of text)
  | some (0, _) => .error ("field number is zero: invalid field specification " ++ of whole)
  | some (field, '.' :: rest) =>
    match readNumber rest with
    | none => .error ("invalid number after '.': invalid count at start of " ++ of rest)
    | some (n, rest) => .ok (field, some n, rest)
  | some (field, rest) => .ok (field, none, rest)

def read (text : Bytes) : Except String SortKey := do
  let whole := chars text
  let stray : String := "stray character in field spec: invalid field specification " ++
    String.ofList (chars (quoted text))
  let (field, char?, rest) ← readPlace "start" whole whole
  if char? = some 0 then
    .error ("character offset is zero: invalid field specification " ++
      String.ofList (chars (quoted text)))
  else
    let (mode, rest) := readLetters {} false rest
    let k : SortKey := { startField := field - 1, startChar := (char?.getD 1) - 1, mode := mode }
    match rest with
    | [] => .ok k
    | ',' :: rest => do
      let (field, char?, rest) ← readPlace "start" rest whole
      let (mode, rest) := readLetters mode true rest
      if rest ≠ [] then .error stray
      else .ok { k with bound? := some (field - 1, char?.getD 0), mode := mode }
    | _ => .error stray

end SortKey

structure SortOrder where
  keys : List SortKey
  separator? : Option UInt8 := none
  /-- Whether lines that are otherwise equal, or have no keys, come in the opposite order. -/
  reverse : Bool := false
  unique : Bool := false
  stable : Bool := false

inductive KeyValue
  | number (n : Decimal)
  | text (t : Bytes)
  deriving DecidableEq, Repr

structure SortLine where
  line : Bytes
  values : List (KeyValue × Bool)

def compareBytes (a b : Bytes) : Ordering := if Bytes.before a b then .lt
  else if Bytes.before b a then .gt else .eq

def KeyValue.order : KeyValue → KeyValue → Ordering
  | number a, number b => a.order b
  | text a, text b => compareBytes a b
  | number _, text _ => .lt
  | text _, number _ => .gt

def turned (reverse : Bool) (o : Ordering) : Ordering := if reverse then o.swap else o

namespace SortOrder

def prepare (o : SortOrder) (line : Bytes) : SortLine :=
  { line := line
    values := o.keys.map fun k =>
      let text := k.ofLine o.separator? line
      (if k.mode.numeric then .number (Decimal.ofText text) else .text (k.mode.essence text),
        k.mode.reverse) }

def compareKeys : List (KeyValue × Bool) → List (KeyValue × Bool) → Ordering
  | (a, reverse) :: as, (b, _) :: bs => (turned reverse (a.order b)).then (compareKeys as bs)
  | _, _ => .eq

/-- Compares two lines. Among lines with equal keys all bytes decide, unless only one of them is
kept or they stay in their order. -/
def order (o : SortOrder) (a b : SortLine) : Ordering :=
  let byKeys := compareKeys a.values b.values
  if o.keys ≠ [] && (o.unique || o.stable) then byKeys
  else byKeys.then (turned o.reverse (compareBytes a.line b.line))

def allows (o : SortOrder) (a b : SortLine) : Bool := o.order a b ≠ .gt

/-- Keeps the first of each run of equal lines. -/
def keepDistinct (o : SortOrder) (sorted : List SortLine) : List SortLine :=
  (sorted.foldl (fun kept l => match kept with
    | last :: _ => if o.order last l = .eq then kept else l :: kept
    | [] => [l]) []).reverse

/-- The lines of several sources in order. Sources that are in order already need only be merged. -/
def sort (o : SortOrder) (merges : Bool) (sources : List (List Bytes)) : List Bytes :=
  let prepared := sources.map (·.map o.prepare)
  let sorted := if merges then prepared.foldl (fun a b => a.merge b o.allows) []
    else prepared.flatten.mergeSort o.allows
  (if o.unique then o.keepDistinct sorted else sorted).map (·.line)

/-- The first line, with its number, that is not allowed behind the one in front of it. -/
def firstDisorder? (o : SortOrder) (input : List Bytes) : Option (Nat × Bytes) :=
  let lines := input.map o.prepare
  ((lines.zip lines.tail).zipIdx 2).findSome? fun ((a, b), n) =>
    if o.order a b = .gt || (o.unique && o.order a b = .eq) then some (n, b.line) else none

def ofArguments (a : Arguments) : Except String SortOrder := do
  let mode := a.options.foldl (fun (mode : SortMode) o => (mode.withLetter? false o.1).getD mode) {}
  let separator? ← match a.value? 't' with
    | none => .ok none
    | some [] => .error "empty tab"
    | some [b] => .ok (some b)
    | some text =>
      if text = [92, 48] then .ok (some 0)
      else .error ("multi-character tab " ++ String.ofList (chars (quoted text)))
  let keys ← (a.values 'k').mapM SortKey.read
  let inherited := { mode with trimmedEnd := mode.trimmedStart }
  let keys := keys.map fun k => if k.mode = {} then { k with mode := inherited } else k
  let whole : List SortKey := if { mode with reverse := false } = {} then []
    else [{ mode := inherited }]
  .ok { keys := if keys = [] then whole else keys, separator? := separator?, reverse := mode.reverse
        unique := a.has 'u', stable := a.has 's' }

end SortOrder

def checkReadable (operand : Bytes) : Program (Except Errno Unit) := do
  if operand = dash then pure (.ok ())
  else match ← Program.ask (.examine operand true) with
    | .error reason => pure (.error reason)
    | .ok info =>
      if info.kind = .fifo then pure (.ok ())
      else withSource operand (pure <| .error ·) fun _ => pure (.ok ())

def sortFault : Writing :=
  { complaints := fun output _ reason =>
      [(if output.length ≤ outputBlock then "fflush failed" else "write failed") ++
        ": 'standard output': " ++ reason.text, "write error"]
    code := 2 }

def sortFailure (name : Bytes) (message : Bytes) : Program UInt8 := do
  complain name message
  pure 2

/-- Writes the lines of its operands in order, or checks whether they are. -/
def sort : Tool :=
  let usage : Usage :=
    { plain := "nrfdibusmcCz", valued := "kto", code := 2
      words := [("ignore-leading-blanks", 'b'), ("dictionary-order", 'd'), ("ignore-case", 'f'),
        ("ignore-nonprinting", 'i'),
        ("key", 'k'), ("merge", 'm'), ("numeric-sort", 'n'), ("output", 'o'),
        ("reverse", 'r'), ("stable", 's'), ("field-separator", 't'), ("unique", 'u')] }
  withArguments usage fun name a => do
    match SortOrder.ofArguments a with
    | .error message => sortFailure name (Bytes.ofString message)
    | .ok order =>
      if a.has 'c' || a.has 'C' then
        match a.operands with
        | _ :: extra :: _ =>
          sortFailure name (Bytes.ofString "extra operand " ++ quoted extra ++
            Bytes.ofString " not allowed with -c")
        | operands => check name order (a.has 'C') (operands.headD dash)
      else
        match ← firstUnreadable (sources a.operands) with
        | some (operand, reason) =>
          sortFailure name
            (because (Bytes.ofString "cannot read: " ++ quotedIfNeeded operand) reason)
        | none => run name order a
where
  firstUnreadable : List Bytes → Program (Option (Bytes × Errno))
    | [] => pure none
    | operand :: rest => do
      match ← checkReadable operand with
      | .error reason => pure (some (operand, reason))
      | .ok () => firstUnreadable rest
  /-- The lines of all operands. The first one that cannot be read ends the program. -/
  readAll (name : Bytes) : List Bytes → Program (List (List Bytes))
    | [] => pure []
    | operand :: rest => do
      match ← readSource operand with
      | .ok data =>
        let others ← readAll name rest
        pure (lines data :: others)
      | .error reason => do
        let what := match reason with
          | .isDirectory => "read failed: "
          | _ => "cannot read: "
        complainAbout name (Bytes.ofString what ++ quotedIfNeeded operand) reason
        Program.exit 2
  check (name : Bytes) (order : SortOrder) (quiet : Bool) (operand : Bytes) : Program UInt8 := do
    match order.firstDisorder? (← readAll name [operand]).flatten with
    | none => pure 0
    | some (n, line) =>
      if quiet then pure 1
      else do
        complain name (operand ++ [58] ++ Bytes.ofNat n ++ Bytes.ofString ": disorder: " ++ line)
        pure 1
  openResult (name path : Bytes) (access : Access) : Program Fd := do
    match ← Program.ask (.openFile path access) with
    | .ok fd => pure fd
    | .error reason => do
      complainAbout name (Bytes.ofString "open failed: " ++ quotedIfNeeded path) reason
      Program.exit 2
  /-- Sorts the operands. A file for the result is opened at once, but emptied only when everything
  was read. -/
  run (name : Bytes) (order : SortOrder) (a : Arguments) : Program UInt8 := do
    match a.value? 'o' with
    | none =>
      let sources ← readAll name (sources a.operands)
      emitAll name (unlines (order.sort (a.has 'm') sources)) 0 sortFault
    | some path => do
      let fd ← openResult name path (.append 0o666)
      Program.act (.close fd)
      let sources ← readAll name (sources a.operands)
      let fd ← openResult name path (.replace 0o666)
      Program.put fd (unlines (order.sort (a.has 'm') sources))
      pure 0

/-! ### The opposite order -/

/-- The pieces of some data that end with a newline each, perhaps except for the last one. -/
def records (data : Bytes) : List Bytes :=
  data.foldr (fun b found =>
    if b = Bytes.newline then [b] :: found
    else match found with
      | [] => [[b]]
      | piece :: rest => (b :: piece) :: rest) []

/-- All bytes of an operand. A file is read from its beginning, wherever it stands. -/
def readWhole (operand : Bytes) : Program (Except Errno Bytes) :=
  withSource operand (pure <| .error ·) fun fd => do
    match ← Program.ask (.inspect fd) with
    | some info => if info.kind = .file then Program.act (.seek fd 0) else pure ()
    | none => pure ()
    let t ← Program.slurp fd
    match t.halt with
    | .cannotRead reason => pure (.error reason)
    | _ => pure (.ok t.seen)

/-- How writing in the opposite order ends when it cannot write. The reason is known only if some
output was held back. -/
def backwardsFault : Writing :=
  { complaints := fun output _ reason =>
      let held := output.length % 8192
      [if 0 < held && held < outputBlock then "write error: " ++ reason.text else "write error"] }

/-- Writes the lines of each operand in the opposite order. A directory has no end from which to
begin. -/
def backwards : Tool := withArguments {} fun name a => each name (sources a.operands)
where
  shown (operand : Bytes) : Bytes :=
    if operand = dash then Bytes.ofString "'standard input'" else quotedIfNeeded operand
  each (name : Bytes) : List Bytes → Program UInt8
    | [] => pure 0
    | operand :: rest => do
      let code ← match ← readWhole operand with
        | .ok data => emitAll name (records data).reverse.flatten 0 backwardsFault
        | .error .isDirectory => do
          complainAbout name (shown operand ++ Bytes.ofString ": read error") .invalid
          pure 1
        | .error reason => do
          complainAbout name (Bytes.ofString "failed to open " ++ quoted operand ++
            Bytes.ofString " for reading") reason
          pure 1
      let others ← each name rest
      pure (max code others)

end PipeShell.Tool
