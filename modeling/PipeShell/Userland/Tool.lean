import PipeShell.System.Program

/-!
What the ordinary programs of the system have in common: their options, how they complain, how they
quote names, and how they read their operands.
-/

set_option autoImplicit false
set_option relaxedAutoImplicit false

namespace PipeShell

/-- A program that the system comes with: what it does under a name with its arguments. Its result
is its exit code. -/
abbrev Tool := Bytes → List Bytes → Program UInt8

namespace Tool

/-- The bytes of a text as characters, one for each byte. -/
def chars (data : Bytes) : List Char := data.map fun b => Char.ofNat b.toNat

def ofChars (text : List Char) : Bytes := text.map fun c => UInt8.ofNat c.toNat

def isPrintable (c : Char) : Bool := ' ' ≤ c && c ≤ '~'

def octal (c : Char) : List Char :=
  let digit (n : Nat) : Char := Char.ofNat (48 + n % 8)
  [digit (c.toNat / 64), digit (c.toNat / 8), digit c.toNat]

/-- How a control character is written behind a backslash. -/
def escape (c : Char) : List Char :=
  match c.toNat with
  | 7 => ['a'] | 8 => ['b'] | 9 => ['t'] | 10 => ['n'] | 11 => ['v'] | 12 => ['f'] | 13 => ['r']
  | _ => octal c

/-- The inside of a name in apostrophes. Stretches with characters that cannot be printed are
escaped; the second argument says whether such a stretch is open. -/
def quoteFrom : List Char → Bool → List Char
  | [], _ => []
  | c :: rest, escaping =>
    if isPrintable c then
      (if escaping then ['\'', '\''] else []) ++
        (if c = '\'' then ['\'', '\\', '\'', '\''] else [c]) ++ quoteFrom rest false
    else (if escaping then [] else ['\'', '$', '\'']) ++ '\\' :: escape c ++ quoteFrom rest true

/-- A name in quotes, as it can be given to a shell. -/
def quoted (name : Bytes) : Bytes :=
  let text := chars name
  let plain := text.all fun c => isPrintable c && c ∉ ['"', '$', '\x60', '\\', '!']
  if '\'' ∈ text ∧ plain then ofChars ('"' :: text ++ ['"'])
  else ofChars ('\'' :: quoteFrom text false ++ ['\''])

def isSpecial (c : Char) : Bool :=
  !isPrintable c || c ∈ [' ', '!', '"', '$', '&', '\'', '(', ')', '*', ':', ';', '<', '=', '>', '?',
    '[', '\\', '^', '\x60', '|']

/-- A name as it is, or in quotes if a shell would take it for something else. -/
def quotedIfNeeded (name : Bytes) : Bytes :=
  match chars name with
  | [] => quoted name
  | c :: rest => if c ∈ ['#', '~'] ∨ (c :: rest).any isSpecial then quoted name else name

def complain (name message : Bytes) : Program Unit :=
  Program.put Fd.complaints (name ++ Bytes.ofString ": " ++ message ++ [Bytes.newline])

/-- What went wrong, and why. -/
def because (what : Bytes) (reason : Errno) : Bytes := what ++ Bytes.ofString (": " ++ reason.text)

def complainAbout (name : Bytes) (what : Bytes) (reason : Errno) : Program Unit :=
  complain name (because what reason)

/-! ### Output -/

/-- Most programs hold their output back until there is this much of it. -/
def outputBlock : Nat := 4096

/-- How a program writes its output, and how it ends if that fails. -/
structure Writing where
  /-- Output is held back until there is this much of it, or no more will follow, and written block
  by block. Without a number it is written at once. -/
  block? : Option Nat := some outputBlock
  /-- What is said about output of which only some bytes were written. -/
  complaints : Bytes → Nat → Errno → List String :=
    fun _ _ reason => ["write error: " ++ reason.text]
  code : UInt8 := 1
  /-- Whether the input is read to its end all the same. -/
  patient : Bool := false

/-- The part of some output that is not held back. -/
def Writing.released (w : Writing) (output : Bytes) : Bytes :=
  match w.block? with
  | some block => output.take (output.length / block * block)
  | none => output

/-- A message that names the output, unless what could not be written was held back to the end. -/
def Writing.named (what : String) (output : Bytes) (written : Nat) (reason : Errno) : List String :=
  [(if output.length < written + outputBlock then "write error: " else what ++
    " 'standard output': ") ++ reason.text]

def complainEach (name : Bytes) : List String → Program Unit
  | [] => pure ()
  | message :: rest => do
    complain name (Bytes.ofString message)
    complainEach name rest

/-- Ends a program that could write only some bytes of its output. -/
def Writing.report {β : Type} (w : Writing) (name output : Bytes) (written : Nat) (reason : Errno) :
    Program β := do
  complainEach name (w.complaints output written reason)
  Program.exit w.code

/-- Writes output and goes on, or ends if the output cannot be written. -/
def emit (name : Bytes) (data : Bytes) (w : Writing := {}) : Program Unit :=
  if data = [] then pure ()
  else
    .transfer { block? := w.block?, yield := fun _ _ => { output := data, needed? := some 0 } }
    fun t =>
    match t.halt with
    | .cannotWrite reason => w.report name data t.written reason
    | _ => pure ()

def emitAll (name : Bytes) (data : Bytes) (code : UInt8) (w : Writing := {}) : Program UInt8 := do
  emit name data w
  pure code

/-! ### Options -/

structure Usage where
  /-- The letters of options without values. -/
  plain : String := ""
  /-- The letters of options that need a value. -/
  valued : String := ""
  /-- Words that may stand for letters. -/
  words : List (String × Char) := []
  /-- The code after a wrong use. -/
  code : UInt8 := 1

structure Arguments where
  /-- The options in their order, with their values. -/
  options : List (Char × Bytes) := []
  operands : List Bytes := []

namespace Arguments

def has (a : Arguments) (c : Char) : Bool := a.options.any (·.1 = c)

/-- The value of an option. The last one counts. -/
def value? (a : Arguments) (c : Char) : Option Bytes :=
  (a.options.reverse.find? (·.1 = c)).map (·.2)

def values (a : Arguments) (c : Char) : List Bytes := (a.options.filter (·.1 = c)).map (·.2)

def last? (a : Arguments) (choices : List Char) : Option Char :=
  (a.options.reverse.find? (·.1 ∈ choices)).map (·.1)

def addOptions (a : Arguments) (options : List (Char × Bytes)) : Arguments :=
  { a with options := options ++ a.options }

end Arguments

/-- What is wrong with an option. -/
inductive OptionFault
  | unknown (c : Char)
  | unknownWord (word : Bytes)
  /-- A word that is the beginning of several ones. -/
  | ambiguous (word : Bytes) (possibilities : List String)
  | valueMissing (c : Char)
  | valueMissingBehind (word : String)
  | valueUnwanted (word : String)
  deriving DecidableEq, Repr

def OptionFault.message : OptionFault → Bytes
  | unknown c => Bytes.ofString "invalid option -- '" ++ ofChars [c] ++ Bytes.ofString "'"
  | unknownWord word => Bytes.ofString "unrecognized option '" ++ word ++ Bytes.ofString "'"
  | ambiguous word possibilities =>
    Bytes.ofString "option '" ++ word ++ Bytes.ofString ("' is ambiguous; possibilities:" ++
      String.join (possibilities.map fun p => " '--" ++ p ++ "'"))
  | valueMissing c =>
    Bytes.ofString "option requires an argument -- '" ++ ofChars [c] ++ Bytes.ofString "'"
  | valueMissingBehind word => Bytes.ofString ("option '--" ++ word ++ "' requires an argument")
  | valueUnwanted word => Bytes.ofString ("option '--" ++ word ++ "' doesn't allow an argument")

namespace Usage

/-- The options in one argument, and whether the last of them takes the next argument as its
value. -/
def readCluster (u : Usage) : List Char → Except OptionFault (List (Char × Bytes) × Option Char)
  | [] => .ok ([], none)
  | c :: rest =>
    if c ∈ u.valued.toList then
      if rest = [] then .ok ([], some c) else .ok ([(c, ofChars rest)], none)
    else if c ∈ u.plain.toList then
      (u.readCluster rest).map fun (options, open?) => ((c, []) :: options, open?)
    else .error (.unknown c)

/-- The word that is meant, and the letter that it stands for: a beginning is enough if no other
word has it. -/
def findWord (u : Usage) (argument : Bytes) (text : List Char) :
    Except OptionFault (String × Char) :=
  match u.words.filter fun entry => text.isPrefixOf entry.1.toList with
  | [] => .error (.unknownWord argument)
  | [entry] => .ok entry
  | several =>
    match several.find? fun entry => entry.1.toList = text with
    | some entry => .ok entry
    | none => .error (.ambiguous argument (several.map (·.1)))

/-- The option in a word, with the value that may stand behind an equals sign in it, and whether it
still needs a value. -/
def readWord (u : Usage) (argument : Bytes) (text : List Char) :
    Except OptionFault ((Char × Bytes) × Option String) := do
  let (word, c) ← u.findWord argument (text.takeWhile (· ≠ '='))
  match text.dropWhile (· ≠ '=') with
  | _ :: value =>
    if c ∈ u.valued.toList then .ok ((c, ofChars value), none) else .error (.valueUnwanted word)
  | [] => .ok ((c, []), if c ∈ u.valued.toList then some word else none)

/-- Reads arguments. Options may stand anywhere before a double dash. -/
def read (u : Usage) : List Bytes → Except OptionFault Arguments
  | [] => .ok {}
  | argument :: rest =>
    match chars argument with
    | ['-', '-'] => .ok { operands := rest }
    | '-' :: '-' :: text => do
      match ← u.readWord argument text, rest with
      | (option, none), rest => return (← u.read rest).addOptions [option]
      | (option, some _), value :: rest => return (← u.read rest).addOptions [(option.1, value)]
      | (_, some word), [] => .error (.valueMissingBehind word)
    | '-' :: c :: cluster => do
      match ← u.readCluster (c :: cluster), rest with
      | (options, none), rest => return (← u.read rest).addOptions options
      | (options, some c), value :: rest =>
        return (← u.read rest).addOptions (options ++ [(c, value)])
      | (_, some c), [] => .error (.valueMissing c)
    | _ => do
      let a ← u.read rest
      .ok { a with operands := argument :: a.operands }

end Usage

def pointToHelp (name : Bytes) : Program Unit :=
  Program.put Fd.complaints
    (Bytes.ofString "Try '" ++ name ++ Bytes.ofString " --help' for more information.\n")

def misused (name : Bytes) (message : Bytes) (code : UInt8) : Program UInt8 := do
  complain name message
  pointToHelp name
  pure code

/-- A program that goes on with its options and operands. A wrong option ends it. -/
def withArguments (u : Usage) (body : Bytes → Arguments → Program UInt8) : Tool :=
  fun name arguments =>
  match u.read arguments with
  | .ok a => body name a
  | .error fault => misused name fault.message u.code

def number? (text : Bytes) : Option Nat :=
  match chars text with
  | [] => none
  | digits =>
    if digits.all Char.isDigit then some (digits.foldl (fun n c => 10 * n + (c.toNat - 48)) 0)
    else none

/-! ### Sources -/

/-- The operand that stands for the input of the process. -/
def dash : Bytes := [45]

/-- The operands to read: without any, the input of the process. -/
def sources (operands : List Bytes) : List Bytes := if operands = [] then [dash] else operands

/-- Opens an operand, goes on with its descriptor, and closes it. -/
def withSource {β : Type} (operand : Bytes) (failed : Errno → Program β)
    (body : Fd → Program β) : Program β :=
  if operand = dash then body Fd.input
  else do
    match ← Program.ask (.openFile operand .read) with
    | .error reason => failed reason
    | .ok fd =>
      let result ← body fd
      Program.act (.close fd)
      pure result

def readSource (operand : Bytes) : Program (Except Errno Bytes) :=
  withSource operand (pure <| .error ·) fun fd => do
    let t ← Program.slurp fd
    match t.halt with
    | .cannotRead reason => pure (.error reason)
    | _ => pure (.ok t.seen)

/-- The bytes of all operands that can be read, and whether that were all; what is said about the
others depends on the program. -/
def readSources (failed : Bytes → Errno → Program Unit) : List Bytes → Program (Bytes × Bool)
  | [] => pure ([], true)
  | operand :: rest => do
    match ← readSource operand with
    | .ok data =>
      let (others, fine) ← readSources failed rest
      pure (data ++ others, fine)
    | .error reason =>
      failed operand reason
      let (others, _) ← readSources failed rest
      pure (others, false)

/-- Passes a source on while it is read, through a function of all that was read so far, and goes on
with what is known after that. A source that cannot be read is left to `failed`. -/
def filterSource {β : Type} (name : Bytes) (yield : Bytes → Bool → Yield)
    (failed : Errno → Program β) (next : Transferred → Program β) (w : Writing := {})
    (fd : Fd := Fd.input) (chunk : Nat := 131072) :
    Program β :=
  let hold (seen : Bytes) (ended : Bool) : Yield :=
    let y := yield seen ended
    if ended || y.needed?.isSome then y else { y with output := w.released y.output }
  .transfer { source := fd, chunk := chunk, block? := w.block?, yield := hold } fun t =>
    match t.halt with
    | .complete => next t
    | .cannotRead reason => failed reason
    | .cannotWrite reason => do
      if w.patient then
        let _ ← Program.slurp fd
        pure ()
      w.report name (yield t.seen true).output t.written reason

def filterInput (name : Bytes) (yield : Bytes → Bool → Yield) (failed : Errno → Program UInt8)
    (w : Writing := {}) (fd : Fd := Fd.input) : Program UInt8 :=
  filterSource name yield failed (fun _ => pure 0) w fd

/-- Puts a file back to where it would stand if nothing more than needed had been read from it. A
pipe stays as it is. -/
def giveBack (fd : Fd) (t : Transferred) : Program Unit := do
  match ← Program.ask (.inspect fd) with
  | some info =>
    if info.kind = .file ∧ t.needed < t.seen.length then
      Program.act (.seek fd (info.offset - (t.seen.length - t.needed)))
    else pure ()
  | none => pure ()

/-! ### Lines -/

/-- The lines of some data, each without its newline. A newline at the very end begins no further
line. -/
def lines (data : Bytes) : List Bytes :=
  match Bytes.splitAt Bytes.newline data with
  | pieces => if pieces.getLast? = some [] then pieces.dropLast else pieces

def unlines (l : List Bytes) : Bytes := l.flatMap (· ++ [Bytes.newline])

/-- The data up to its last newline. -/
def completeLines (data : Bytes) : Bytes :=
  (data.reverse.dropWhile (· ≠ Bytes.newline)).reverse

/-- The yield of a program that treats its input as a whole, as far as its lines are complete. -/
def lineYield (f : Bytes → Bytes) (seen : Bytes) (ended : Bool) : Yield :=
  { output := f (if ended then seen else completeLines seen) }

end Tool

end PipeShell
