import PipeShell.Userland.Escape
import PipeShell.Userland.Produce
import PipeShell.Userland.Script.Expansion
import PipeShell.Userland.Script.Reader

/-!
Running shell scripts. A few commands are carried out by the shell itself; for all others it starts
a process and waits for it.
-/

set_option autoImplicit false
set_option relaxedAutoImplicit false

namespace PipeShell.Script

open PipeShell.Tool (chars ofChars unescape)

def complain (s : State) (line : Nat) (message : List Char) : Program Unit :=
  Program.put Fd.complaints
    (ofChars (s.name ++ (": " ++ toString line ++ ": ").toList ++ message ++ ['\n']))

/-! ### Redirections -/

/-- What the shell says when a file cannot be opened. -/
def openComplaint (writing : Bool) (file : List Char) (reason : Errno) : List Char :=
  let why := match reason, writing with
    | .noEntry, false | .notDirectory, false => "No such file"
    | .noEntry, true | .notDirectory, true => "Directory nonexistent"
    | reason, _ => reason.text
  ("cannot " ++ (if writing then "create " else "open ")).toList ++ file ++ (": " ++ why).toList

def openAt (descriptor : Fd) (file : List Char) (access : Access) :
    Program (Except (List Char) Unit) := do
  match ← Program.ask (.openFile (ofChars file) access) with
  | .error reason => pure (.error (openComplaint (access ≠ .read) file reason))
  | .ok fd =>
    if fd = descriptor then pure (.ok ())
    else
      let _ ← Program.ask (.duplicate fd descriptor)
      Program.act (.close fd)
      pure (.ok ())

def redirect (s : State) (r : Redirection) : Program (Except (List Char) Unit) :=
  match r.target with
  | .input file => openAt r.descriptor (s.textOf file) .read
  | .replace file => openAt r.descriptor (s.textOf file) (.replace 0o666)
  | .append file => openAt r.descriptor (s.textOf file) (.append 0o666)
  | .same descriptor =>
    match s.textOf descriptor with
    | ['-'] => do
      Program.act (.close r.descriptor)
      pure (.ok ())
    | digits =>
      match Tool.number? (ofChars digits) with
      | none => pure (.error "Bad fd number".toList)
      | some source => do
        match ← Program.ask (.duplicate source r.descriptor) with
        | .ok () => pure (.ok ())
        | .error reason => pure (.error (digits ++ (": " ++ reason.text).toList))

/-- Carries out redirections up to the first one that fails. -/
def redirectAll (s : State) : List Redirection → Program (Except (List Char) Unit)
  | [] => pure (.ok ())
  | r :: rest => do
    match ← redirect s r with
    | .error message => pure (.error message)
    | .ok () => redirectAll s rest

/-- The first descriptor under which others are kept. -/
def firstSaved : Fd := 10

/-- Keeps descriptors that are about to be redirected, and says under which ones. -/
def keep (s : State) : List Fd → Program (State × List (Fd × Fd))
  | [] => pure (s, [])
  | fd :: rest => do
    let place := firstSaved + s.saved.length
    let _ ← Program.ask (.duplicate fd place)
    let (s, others) ← keep { s with saved := place :: s.saved } rest
    pure (s, (fd, place) :: others)

def restore : List (Fd × Fd) → Program Unit
  | [] => pure ()
  | (fd, place) :: rest => do
    match ← Program.ask (.duplicate place fd) with
    | .ok () => Program.act (.close place)
    | .error _ => Program.act (.close fd)
    restore rest

def closeAll : List Fd → Program Unit
  | [] => pure ()
  | fd :: rest => do
    Program.act (.close fd)
    closeAll rest

def redirected (s : State) (line : Nat) (redirections : List Redirection)
    (body : State → Program State) : Program State := do
  if redirections = [] then body s
  else
    let (inside, kept) ← keep s (redirections.map (·.descriptor)).eraseDups
    match ← redirectAll s redirections with
    | .error message => do
      restore kept
      complain s line message
      pure { s with status := 2 }
    | .ok () => do
      let after ← body inside
      restore kept
      pure { after with saved := s.saved }

/-! ### What the shell does itself -/

/-- Reads one line, without reading anything behind it. -/
def readLine : Program Transferred :=
  let yield (seen : Bytes) (_ : Bool) : Yield :=
    { output := [],
      needed? := if seen.getLast? = some Bytes.newline then some seen.length else none }
  .transfer { chunk := 1, yield := yield } pure

/-- A line that was read as the values of variables; the last variable has all that is left. -/
def assignLine (s : State) : List (List Char) → List Char → State
  | [], _ => s
  | [name], line =>
    let isBlank (c : Char) : Bool := c = ' ' || c = '\t'
    s.assign name (((line.dropWhile isBlank).reverse.dropWhile isBlank).reverse)
  | name :: rest, line =>
    let isBlank (c : Char) : Bool := c = ' ' || c = '\t'
    let line := line.dropWhile isBlank
    let word := line.takeWhile (!isBlank ·)
    assignLine (s.assign name word) rest (line.drop word.length)

/-- The line without its newline and with its escapes taken away. -/
def cookLine (raw : Bool) : List Char → List Char
  | [] => []
  | ['\n'] => []
  | '\\' :: c :: rest => if raw then '\\' :: cookLine raw (c :: rest) else c :: cookLine raw rest
  | c :: rest => c :: cookLine raw rest

/-- The number of a signal that is given by its name or number. -/
def signalNumber? (text : List Char) : Option Nat :=
  match Tool.number? (ofChars text) with
  | some n => some n
  | none =>
    let name := String.ofList text
    if name.startsWith "SIG" then Signal.numberOf? (name.drop 3).toString else Signal.numberOf? name

def sendSignals (s : State) (line number : Nat) : List (List Char) → Program UInt8
  | [] => pure 0
  | target :: rest => do
    let code ← match Tool.number? (ofChars target) with
      | none => do
        complain s line ("kill: Illegal number: ".toList ++ target)
        pure 2
      | some pid => do
        match ← Program.ask (.signal pid number) with
        | .ok () => pure 0
        | .error reason => do
          complain s line ("kill: " ++ reason.text ++ "\n").toList
          pure 1
    let others ← sendSignals s line number rest
    pure (max code others)

/-- The commands that the shell knows itself. -/
inductive Builtin
  | nothing
  | fail
  | echo
  | exit
  | exec
  | read
  | kill
  | printDirectory
  | changeDirectory
  | handOver
  | forget
  | shift
  | test
  | wait
  | printf
  | withhold
  deriving DecidableEq, Repr

/-- The command of the shell with a given name. -/
def Builtin.ofName? (name : List Char) : Option Builtin :=
  match String.ofList name with
  | ":" | "true" => some nothing
  | "false" => some fail
  | "echo" => some echo
  | "exit" => some exit
  | "exec" => some exec
  | "read" => some read
  | "kill" => some kill
  | "pwd" => some printDirectory
  | "cd" => some changeDirectory
  | "export" => some handOver
  | "unset" => some forget
  | "shift" => some shift
  | "test" | "[" => some test
  | "wait" => some wait
  | "printf" => some printf
  | "umask" => some withhold
  | _ => none

/-- Whether the values that are set for a command stay. -/
def Builtin.keepsValues : Builtin → Bool
  | exit | exec | handOver | forget | shift => true
  | _ => false

def write (s : State) (line : Nat) (name : String) (text : List Char) : Program UInt8 := do
  match ← Program.ask (.write Fd.output (ofChars text)) with
  | .ok () => pure 0
  | .error _ => do
    complain s line (name ++ ": " ++ name ++ ": I/O error").toList
    pure 1

/-! ### Other programs -/

def candidates (s : State) (name : List Char) : List Bytes :=
  if '/' ∈ name then [ofChars name]
  else (Bytes.splitAt 58 (ofChars (s.valueOf "PATH".toList))).map fun directory =>
    if directory = [] then ofChars name else directory ++ Bytes.slash :: ofChars name

/-- Whether a path that was tried in vain is worth a word. -/
def isTelling (reason : Errno) : Bool := reason ≠ .noEntry && reason ≠ .notDirectory

/-- Leaves out the paths in front of the first one that names a file. If there is none, says why. -/
def findFile : Errno → List Bytes → Program (Except Errno (List Bytes))
  | last, [] => pure (.error last)
  | last, path :: rest => do
    match ← Program.ask (.examine path true) with
    | .ok info =>
      if info.kind = .file && info.searchable then pure (.ok (path :: rest))
      else findFile .accessDenied rest
    | .error reason => findFile (if isTelling reason then reason else last) rest

/-- Tries to run one file after the other in place of the shell, and says why that failed. -/
def tryEach (arguments : List Bytes) : Errno → List Bytes → Program Errno
  | last, [] => pure last
  | last, path :: rest => do
    let reason ← Program.ask (.execFile path arguments)
    tryEach arguments (if isTelling reason then reason else last) rest

/-- What the shell says about a program that cannot be run. -/
def programComplaint (words : List (List Char)) (reason : Errno) : List Char :=
  words.headD [] ++ (": " ++ if isTelling reason then reason.text else "not found").toList

/-- Runs another program in place of the shell, or ends. -/
def become {α : Type} (s : State) (line : Nat) (label : List Char) (words : List (List Char))
    (paths : List Bytes) : Program α := do
  Program.act (.provide s.environment)
  let reason ← tryEach (words.map ofChars) .noEntry paths
  complain s line (label ++ programComplaint words reason)
  Program.exit (if isTelling reason && reason ≠ .tooManyLinks &&
    reason ≠ .nameTooLong then 126 else 127)

/-- The status that the shell has after a process. Some signals are worth a word. -/
def statusOf : Ending → Program UInt8
  | .exited code => pure code
  | .killed number => do
    let text := match Signal.ofNumber? number with
      | some signal =>
        if signal = .interrupt ∨ signal = .pipe then "" else signal.description ++ "\n"
      | none => "Real-time signal " ++ toString (number - 34) ++ "\n"
    if text = "" then pure () else Program.put Fd.complaints (Bytes.ofString text)
    pure (UInt8.ofNat (128 + number))

/-- Waits for processes. The last one decides the status. -/
def awaitAll (status : UInt8) : List Pid → Program UInt8
  | [] => pure status
  | pid :: rest => do
    let status ← match ← Program.ask (.awaitEnd pid) with
      | .ok ending => statusOf ending
      | .error _ => pure 127
    awaitAll status rest

/-- Does something in a process of its own, and goes on with its number. -/
def inProcess (s : State) (line : Nat) (body : Program State) : Program Pid :=
  let child : Program Pid := do
    closeAll s.saved
    let s ← body
    Program.exit s.status
  .fork child fun
    | .error _ => do
      complain s line "Cannot fork".toList
      Program.exit 2
    | .ok pid => pure pid

def runProgram (s : State) (line : Nat) (words : List (List Char)) : Program State := do
  match ← findFile .noEntry (candidates s (words.headD [])), decide ('/' ∈ words.headD []) with
  | .error reason, false => do
    complain s line (programComplaint words reason)
    pure { s with status := 127 }
  | found, _ => do
    let paths := match found with
      | .ok paths => paths
      | .error _ => candidates s (words.headD [])
    let pid ← inProcess s line (become s line [] words paths)
    let status ← awaitAll 0 [pid]
    pure { s with status := status }

/-! ### The working directory -/

/-- The path of a directory that is entered from another one. A name and the name of what is above
it cancel out. -/
def pathFrom (current path : List Char) : List Char :=
  let parts (text : List Char) : List (List Char) :=
    (Bytes.splitAt Bytes.slash (ofChars text)).map chars
  let start := if path.head? = some '/' then [] else parts current
  let names := (start ++ parts path).foldl (fun (names : List (List Char)) name =>
    if name = [] || name = ['.'] then names
    else if name = ['.', '.'] then names.drop 1
    else name :: names) []
  if names = [] then ['/'] else names.reverse.flatMap ('/' :: ·)

/-- The path of the working directory as the system knows it. -/
def physicalDirectory : Program (List Char) := do
  match ← Program.ask .workingDirectory with
  | .ok path => pure (chars path)
  | .error reason => do
    Program.put Fd.complaints (Bytes.ofString ("sh: 0: getcwd() failed: " ++ reason.text ++ "\n"))
    pure []

/-- Takes note of the working directory. -/
def noteDirectory (s : State) (path : List Char) : State :=
  ({ s with directory := path }.assign "PWD".toList path).handOver "PWD".toList

def enter (s : State) (line : Nat) (target : List Char) : Program State := do
  let path := if s.directory = [] then target else pathFrom s.directory target
  match ← Program.ask (.change (.enter (ofChars path))) with
  | .ok () => do
    let now ← if s.directory = [] then physicalDirectory else pure path
    let s := (s.assign "OLDPWD".toList s.directory).handOver "OLDPWD".toList
    pure { noteDirectory s now with status := 0 }
  | .error _ => do
    complain s line ("cd: can't cd to ".toList ++ target)
    pure { s with status := 2 }

/-- The path of the working directory that was handed over, if it is right. -/
def directoryHandedOver? (s : State) : Program (Option (List Char)) := do
  match s.valueOf "PWD".toList with
  | '/' :: rest => do
    match ← Program.ask (.examine (ofChars ('/' :: rest)) true),
      ← Program.ask (.examine FileTree.here true) with
    | .ok there, .ok here => pure (if there.node = here.node then some ('/' :: rest) else none)
    | _, _ => pure none
  | _ => pure none

/-! ### Conditions -/

def testFile (condition : Char) (path : List Char) : Program Bool := do
  let follow : Bool := condition ≠ 'L' && condition ≠ 'h'
  match ← Program.ask (.examine (ofChars path) follow) with
  | .error _ => pure false
  | .ok info =>
    pure (match condition with
      | 'e' => true
      | 'f' => info.kind = .file
      | 'd' => info.kind = .directory
      | 'p' => info.kind = .fifo
      | 'L' | 'h' => info.kind = .link
      | 'w' => info.writable
      | 'x' => info.searchable
      | _ => false)

def integer? (text : List Char) : Option Int :=
  match text with
  | '-' :: digits => (Tool.number? (ofChars digits)).map fun n => -(n : Int)
  | digits => (Tool.number? (ofChars digits)).map Int.ofNat

def testNumbers (relation : List Char) (a b : Int) : Option Bool :=
  match String.ofList relation with
  | "-eq" => some (a = b)
  | "-ne" => some (a ≠ b)
  | "-lt" => some (a < b)
  | "-le" => some (a ≤ b)
  | "-gt" => some (b < a)
  | "-ge" => some (b ≤ a)
  | _ => none

/-- Whether a condition holds, if it is one. -/
def testAll : List (List Char) → Program (Option Bool)
  | [] => pure (some false)
  | [text] => pure (some (text ≠ []))
  | ['!'] :: rest => do
    return (← testAll rest).map (!·)
  | [['-', 'n'], text] => pure (some (text ≠ []))
  | [['-', 'z'], text] => pure (some (text = []))
  | [['-', condition], path] => do
    return some (← testFile condition path)
  | [a, ['='], b] => pure (some (a = b))
  | [a, ['!', '='], b] => pure (some (a ≠ b))
  | [a, relation, b] =>
    pure (match integer? a, integer? b with
      | some a, some b => testNumbers relation a b
      | _, _ => none)
  | _ => pure none

/-! ### Formats -/

/-- What a format makes of arguments, the arguments that are left, and whether it came to its
end. -/
def formatOnce : List Char → List (List Char) → List Char × List (List Char) × Bool
  | [], arguments => ([], arguments, true)
  | '%' :: '%' :: rest, arguments =>
    let (text, arguments, whole) := formatOnce rest arguments
    ('%' :: text, arguments, whole)
  | '%' :: c :: rest, arguments =>
    let argument := arguments.headD []
    let put := match c with
      | 's' => argument
      | 'c' => argument.take 1
      | 'b' => (unescape argument).1
      | _ => (toString ((integer? argument).getD 0)).toList
    let (text, arguments, whole) := formatOnce rest arguments.tail
    (put ++ text, arguments, whole)
  | '\\' :: c :: rest, arguments =>
    let (put, whole) := unescape ['\\', c]
    if whole then
      let (text, arguments, whole) := formatOnce rest arguments
      (put ++ text, arguments, whole)
    else ([], arguments, false)
  | c :: rest, arguments =>
    let (text, arguments, whole) := formatOnce rest arguments
    (c :: text, arguments, whole)

/-- What a format makes of arguments. It is used again as long as it takes some of them and some are
left; the first number bounds how often. -/
def formatAll (format : List Char) : Nat → List (List Char) → List Char
  | 0, _ => []
  | fuel + 1, arguments =>
    let (text, left, whole) := formatOnce format arguments
    if left = [] || left.length = arguments.length || !whole then text
    else text ++ formatAll format fuel left

def octalNumber? (text : List Char) : Option Nat :=
  if text ≠ [] && text.all Tool.isOctal then some (text.foldl (fun n c => 8 * n + (c.toNat - 48)) 0)
  else none

/-! ### Commands -/

def handOverAll (s : State) (arguments : List (List Char)) : State :=
  arguments.foldl (fun s argument =>
    let name := argument.takeWhile (· ≠ '=')
    let s := if '=' ∈ argument then s.assign name (argument.drop (name.length + 1)) else s
    s.handOver name) s

/-- Carries out a command of the shell. -/
def Builtin.run (b : Builtin) (s : State) (line : Nat) (arguments : List (List Char)) :
    Program State := do
  match b with
  | nothing => pure { s with status := 0 }
  | fail => pure { s with status := 1 }
  | echo =>
    let (quiet, words) := match arguments with
      | ['-', 'n'] :: rest => (true, rest)
      | words => (false, words)
    let (text, whole) := unescape ([' '].intercalate words)
    let status ← write s line "echo" (text ++ if quiet || !whole then [] else ['\n'])
    pure { s with status := status }
  | exit =>
    match arguments with
    | [] => Program.exit s.status
    | number :: _ =>
      match Tool.number? (ofChars number) with
      | some n => Program.exit (UInt8.ofNat n)
      | none => do
        complain s line ("exit: Illegal number: ".toList ++ number)
        Program.exit 2
  | exec =>
    match arguments with
    | [] => pure { s with status := 0 }
    | words => become s line "exec: ".toList words (candidates s (words.headD []))
  | read => do
    let raw : Bool := arguments.head? = some ['-', 'r']
    let names := if raw then arguments.tail else arguments
    let t ← readLine
    let complete : Bool := t.seen.getLast? = some Bytes.newline
    let s := assignLine s names (cookLine raw (chars t.seen))
    pure { s with status := if complete then 0 else 1 }
  | kill =>
    match arguments with
    | ['-', 's'] :: signal :: targets => send signal targets
    | ('-' :: signal) :: targets => send signal targets
    | targets => send "TERM".toList targets
  | printDirectory => do
    let path ← if arguments.head? = some ['-', 'P'] then physicalDirectory else pure s.directory
    let status ← write s line "pwd" (path ++ ['\n'])
    pure { s with status := status }
  | changeDirectory => do
    match arguments with
    | ['-'] :: _ => do
      let s ← enter s line (s.valueOf "OLDPWD".toList)
      if s.status = 0 then
        let status ← write s line "cd" (s.directory ++ ['\n'])
        pure { s with status := status }
      else pure s
    | [] =>
      let home := s.valueOf "HOME".toList
      enter s line (if home = [] then ['.'] else home)
    | target :: _ => enter s line (if target = [] then ['.'] else target)
  | handOver => pure { handOverAll s arguments with status := 0 }
  | forget => pure { arguments.foldl State.forget s with status := 0 }
  | shift =>
    let count := ((arguments.head?.map ofChars).bind Tool.number?).getD 1
    if s.arguments.length < count then do
      complain s line "shift: can't shift that many".toList
      Program.exit 2
    else pure { s with arguments := s.arguments.drop count, status := 0 }
  | test => do
    let arguments := if arguments.getLast? = some [']'] then arguments.dropLast else arguments
    match ← testAll arguments with
    | some holds => pure { s with status := if holds then 0 else 1 }
    | none => do
      complain s line "test: unexpected operator".toList
      pure { s with status := 2 }
  | printf =>
    let text := formatAll (arguments.headD []) (arguments.length + 1) arguments.tail
    let status ← write s line "printf" text
    pure { s with status := status }
  | withhold => do
    match arguments with
    | [] => do
      let mask ← Program.ask (.withhold 0)
      Program.act (.withhold mask)
      let status ← write s line "umask" ('0' :: Tool.octal (Char.ofNat mask) ++ ['\n'])
      pure { s with status := status }
    | mode :: _ =>
      match octalNumber? mode with
      | some mask => do
        Program.act (.withhold mask)
        pure { s with status := 0 }
      | none => do
        complain s line ("umask: Illegal number: ".toList ++ mode)
        pure { s with status := 2 }
  | wait => do
    let status ← awaitAll 0 s.children.reverse
    pure { s with status := if arguments = [] then 0 else status, children := [] }
where
  send (signal : List Char) (targets : List (List Char)) : Program State :=
    match signalNumber? signal with
    | none => do
      complain s line ("kill: Illegal option -".toList ++ signal.take 1)
      pure { s with status := 2 }
    | some number => do
      let status ← sendSignals s line number targets
      pure { s with status := status }

/-- Takes back the values that were set for a single command. -/
def takeBack (before : State) (names : List (List Char)) (after : State) : State :=
  names.foldl (fun s name =>
    match before.values.lookup name with
    | some value => s.assign name value
    | none => s.forget name) { after with handedOver := before.handedOver }

/-- Makes a descriptor lead to where another one leads, which is closed. -/
def moveTo (target : Fd) : Option Fd → Program Unit
  | none => pure ()
  | some fd => do
    let _ ← Program.ask (.duplicate fd target)
    Program.act (.close fd)

/-- The output of a script, without the newlines at its end, and the status that it ends with. -/
def outputOf (inner : State → List Char → Program State) (s : State) (script : List Char) :
    Program (List Char × UInt8) := do
  match ← Program.ask .pipe with
  | .error reason => do
    complain s 0 ("Pipe call failed: " ++ reason.text).toList
    Program.exit 2
  | .ok (source, target) => do
    let pid ← inProcess s 0 do
      Program.act (.close source)
      moveTo Fd.output (some target)
      inner { s with saved := [] } script
    Program.act (.close target)
    let t ← Program.slurp source
    Program.act (.close source)
    let status ← awaitAll 0 [pid]
    pure (chars ((t.seen.reverse.dropWhile (· = Bytes.newline)).reverse), status)

/-- A word in which outputs stand in place of the scripts that give them. The state has the status
of the last one. -/
def resolve (inner : State → List Char → Program State) (s : State) : Word → Program (Word × State)
  | [] => pure ([], s)
  | .output script quoted :: rest => do
    let (value, status) ← outputOf inner s script
    let (parts, s) ← resolve inner { s with status := status } rest
    pure (.result value quoted :: parts, s)
  | part :: rest => do
    let (parts, s) ← resolve inner s rest
    pure (part :: parts, s)

def resolveAll (inner : State → List Char → Program State) (s : State) :
    List Word → Program (List Word × State)
  | [] => pure ([], s)
  | w :: rest => do
    let (w, s) ← resolve inner s w
    let (words, s) ← resolveAll inner s rest
    pure (w :: words, s)

def resolveRedirections (inner : State → List Char → Program State) (s : State) :
    List Redirection → Program (List Redirection)
  | [] => pure []
  | r :: rest => do
    let (w, s) ← resolve inner s r.target.word
    let others ← resolveRedirections inner s rest
    pure ({ r with target := r.target.withWord w } :: others)

/-- Runs a simple command. The redirections of a command end with it, except where the shell hands
over to another program. -/
def runSimple (inner : State → List Char → Program State) (s : State) (raw : Simple) :
    Program State := do
  let before := s
  let (resolved, s) ← resolveAll inner { s with status := 0 } raw.words
  let (values, s) ← resolveAll inner s (raw.assignments.map (·.2))
  let c : Simple :=
    { raw with words := resolved, assignments := (raw.assignments.map (·.1)).zip values }
  let redirections ← resolveRedirections inner s raw.redirections
  let last := s.status
  let s := { s with status := before.status }
  let words := s.fieldsOfAll c.words
  let assigned := c.assignments.foldl (fun s (name, w) => s.assign name (s.textOf w)) s
  let names := c.assignments.map (·.1)
  match words with
  | [] =>
    redirected s c.line redirections fun inside =>
      pure { assigned with status := last, saved := inside.saved }
  | name :: arguments =>
    match Builtin.ofName? name with
    | none => redirected s c.line redirections fun inside => do
      let handed := names.foldl State.handOver { assigned with saved := inside.saved }
      let after ← runProgram handed c.line words
      pure { s with status := after.status }
    | some .exec => do
      match ← redirectAll s redirections with
      | .error message => do
        complain s c.line message
        Program.exit 2
      | .ok () => Builtin.exec.run (names.foldl State.handOver assigned) c.line arguments
    | some b => redirected s c.line redirections fun inside => do
      let after ← b.run { assigned with saved := inside.saved } c.line arguments
      pure (if b.keepsValues || names = [] then after else takeBack s names after)

/-- More rounds than any loop makes. -/
def roundBound : Nat := Nat.pow 2 62

/-- Repeats a command as long as another one succeeds, or as long as it fails. -/
def repeatWhile (untilSuccess : Bool) (condition body : State → Program State) :
    Nat → UInt8 → State → Program State
  | 0, status, s => pure { s with status := status }
  | rounds + 1, status, s => do
    let s ← condition s
    if decide (s.status = 0) = untilSuccess then pure { s with status := status }
    else
      let s ← body s
      repeatWhile untilSuccess condition body rounds s.status s

mutual

def Command.run (inner : State → List Char → Program State) : Command → State → Program State
  | .nothing, s => pure s
  | .simple c, s => runSimple inner s c
  | .sequence first second, s => do
    let s ← first.run inner s
    second.run inner s
  | .both first second, s => do
    let s ← first.run inner s
    if s.status = 0 then second.run inner s else pure s
  | .either first second, s => do
    let s ← first.run inner s
    if s.status = 0 then pure s else second.run inner s
  | .forEach name words? body, s => do
    let values ← match words? with
      | some words => do
        let (words, _) ← resolveAll inner s words
        pure (s.fieldsOfAll words)
      | none => pure s.arguments
    values.foldlM (fun s value => body.run inner (s.assign name value)) { s with status := 0 }
  | .choice condition consequence alternative, s => do
    let s ← condition.run inner s
    if s.status = 0 then consequence.run inner s else alternative.run inner { s with status := 0 }
  | .loop untilSuccess condition body, s =>
    repeatWhile untilSuccess (fun s => condition.run inner s)
      (fun s => body.run inner s) roundBound 0 s
  | .negated body, s => do
    let s ← body.run inner s
    pure { s with status := if s.status = 0 then 1 else 0 }
  | .group line apart body raw, s => do
    let redirections ← resolveRedirections inner s raw
    redirected s line redirections fun inside =>
      if apart then do
        let pid ← inProcess inside line (body.run inner { inside with saved := [] })
        let status ← awaitAll 0 [pid]
        pure { inside with status := status }
      else body.run inner inside
  | .background body, s => do
    let pid ← inProcess s 0 do
      let _ ← openAt Fd.input "/dev/null".toList .read
      body.run inner { s with saved := [] }
    pure { s with status := 0, children := pid :: s.children }
  | .piped first second, s => do
    let pids ← startPiped inner first second none s
    let status ← awaitAll 0 pids
    pure { s with status := status }
termination_by c _ => 2 * sizeOf c

/-- Starts the commands of a pipeline: a first one, which reads from a given descriptor, and those
behind it. -/
def startPiped (inner : State → List Char → Program State) (first second : Command)
    (input? : Option Fd) (s : State) : Program (List Pid) := do
  match ← Program.ask .pipe with
  | .error reason => do
    complain s 0 ("Pipe call failed: " ++ reason.text).toList
    Program.exit 2
  | .ok (source, target) => do
    let pid ← inProcess s 0 do
      moveTo Fd.input input?
      moveTo Fd.output (some target)
      Program.act (.close source)
      first.run inner { s with saved := [] }
    closeAll (target :: input?.toList)
    match second with
    | .piped next others => do
      let pids ← startPiped inner next others (some source) s
      pure (pid :: pids)
    | last => do
      let lastPid ← inProcess s 0 do
        moveTo Fd.input (some source)
        last.run inner { s with saved := [] }
      Program.act (.close source)
      pure [pid, lastPid]
termination_by 2 * (sizeOf first + sizeOf second) + 1

end

/-- Runs lexemes line by line, with a way to run single commands. The first two numbers bound how
deep the commands of a line are and how many lines there are, the third one is that of the last
line. -/
def runRows (run : Command → State → Program State) (depth : Nat) :
    Nat → Nat → State → Lexemes → Program State
  | 0, _, s, _ => pure s
  | rows + 1, last, s, l =>
    match skipEnds false l with
    | [] => pure s
    | l => do
      match readRow depth l with
      | .error m => do
        complain s (m.line last) ("Syntax error: " ++ m.message).toList
        Program.exit 2
      | .ok (command, rest) => do
        let s ← run command s
        runRows run depth rows last s rest

/-- Runs the text of a script. The number is how deep scripts may stand in words of one another. -/
def runInside : Nat → State → List Char → Program State
  | 0, s, _ => pure s
  | depth + 1, s, text =>
    let lexemes := Lexeme.ofScript text
    runRows (Command.run (runInside depth)) (depthBound lexemes) (lexemes.length + 1)
      (text.count '\n' + 1) s lexemes

/-- Runs the text of a script, and has its last status. -/
def runText (s : State) (text : Bytes) : Program UInt8 := do
  let s ← runInside (text.length + 1) s (chars text)
  pure s.status

/-- The state in which a script begins, apart from its own name and arguments. -/
def begin : Program State := do
  let pid ← Program.ask .self
  let environment ← Program.ask .environment
  let s := ({ name := "sh".toList, pid := pid } : State).withEnvironment environment
  match ← directoryHandedOver? s with
  | some path => pure (noteDirectory s path)
  | none => do
    let path ← physicalDirectory
    pure (noteDirectory s path)

/-- The shell: it runs the script in a file, or one that is given as an argument, or its input. -/
def shell : Tool := fun name arguments => do
  let s ← begin
  match arguments with
  | [45, 99] :: text :: rest =>
    runText { s with name := chars (rest.headD name), arguments := rest.tail.map chars } text
  | file :: rest => do
    match ← Tool.readSource file with
    | .error reason => do
      complain { s with name := chars name } 0 (openComplaint false (chars file) reason)
      pure 2
    | .ok text => runText { s with name := chars file, arguments := rest.map chars } text
  | [] => do
    let t ← Program.slurp Fd.input
    runText { s with name := chars name } t.seen

end PipeShell.Script
