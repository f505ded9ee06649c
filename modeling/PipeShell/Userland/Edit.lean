import PipeShell.Userland.Pattern

/-!
Editing lines with a script. Each command may say which lines it is for; a line is written at the
end of the script unless it was deleted or lines are only written on demand.
-/

set_option autoImplicit false
set_option relaxedAutoImplicit false

namespace PipeShell.Tool

inductive Address
  | number (n : Nat)
  | last
  | like (p : Pattern)
  deriving DecidableEq, Repr

structure Scope where
  first? : Option Address := none
  last? : Option Address := none
  negated : Bool := false
  deriving DecidableEq, Repr

inductive ReplacementPart
  | text (c : Char)
  | matched
  deriving DecidableEq, Repr

structure Substitution where
  pattern : Pattern
  replacement : List ReplacementPart
  /-- Whether all matches are replaced from the wanted one on. -/
  every : Bool
  /-- Which match is wanted. -/
  nth : Nat
  ignoreCase : Bool
  deriving DecidableEq, Repr

/-- What stands in place of a match. -/
def Substitution.textFor (s : Substitution) (found : List Char) : List Char :=
  s.replacement.flatMap fun
    | .text c => [c]
    | .matched => found

structure SubstitutionPlace where
  number : Nat := 1
  atLineStart : Bool := true
  /-- Whether a match has just ended here, so that an empty one does not count. -/
  behindMatch : Bool := false
  before? : Option Char := none

/-- Replaces matches from some place in a line on, and says whether there were any. The first
argument is more than the length of the text. -/
def Substitution.applyFrom (s : Substitution) :
    Nat → SubstitutionPlace → List Char → List Char × Bool
  | 0, _, text => (text, false)
  | fuel + 1, place, text =>
    match s.pattern.findFrom
      { ignoreCase := s.ignoreCase } place.atLineStart place.before? text with
    | none => (text, false)
    | some (passed, length) =>
      let before := text.take passed
      let found := (text.drop passed).take length
      let rest := text.drop (passed + length)
      if length = 0 ∧ passed = 0 ∧ place.behindMatch then
        match rest with
        | [] => ([], false)
        | c :: rest =>
          let next : SubstitutionPlace :=
            { place with atLineStart := false, behindMatch := false, before? := some c }
          let (tail, changed) := s.applyFrom fuel next rest
          (c :: tail, changed)
      else
        let changes := place.number = s.nth || (s.every && s.nth ≤ place.number)
        let put := if changes then s.textFor found else found
        if !s.every && s.nth ≤ place.number then (before ++ put ++ rest, changes)
        else
          let next : SubstitutionPlace :=
            { number := place.number + 1, atLineStart := false, behindMatch := length ≠ 0
              before? := (text.take (passed + length)).getLast? }
          match rest with
          | [] => (before ++ put, changes)
          | c :: others =>
            if length = 0 then
              let (tail, changed) := s.applyFrom fuel next others
              (before ++ put ++ c :: tail, changes || changed)
            else
              let (tail, changed) := s.applyFrom fuel next (c :: others)
              (before ++ put ++ tail, changes || changed)

/-- Replaces matches in a line, and says whether there were any. -/
def Substitution.apply (s : Substitution) (text : List Char) : List Char × Bool :=
  s.applyFrom (2 * text.length + 2) {} text

/-! ### Scripts -/

/-- What a command does with the line, with the text that is kept beside it, and with the lines that
follow. -/
inductive EditAction
  | print
  | printFirst
  | delete
  | deleteFirst
  | number
  | reveal
  | quit (silent : Bool) (code : UInt8)
  /-- Replaces matches; a line that was changed may be written at once. -/
  | substitute (s : Substitution) (showIt : Bool)
  | exchange (source target : List Char)
  | next
  | appendNext
  /-- Takes the line over into the text that is kept, or adds it there. -/
  | keep (add : Bool)
  /-- Takes the line from the text that is kept, or adds that to it. -/
  | fetch (add : Bool)
  | swap
  | clear
  /-- Writes a text at once. -/
  | insert (text : List Char)
  /-- Writes a text behind the line. -/
  | append (text : List Char)
  /-- Writes a text in place of the lines. -/
  | replace (text : List Char)
  deriving DecidableEq, Repr

structure EditCommand where
  scope : Scope
  action : EditAction
  deriving DecidableEq, Repr

inductive EditFault
  | unknownCommand (c : Char)
  | missingCommand
  | extraCharacters
  | unterminated (command : Char)
  | unterminatedAddress
  | unexpectedComma
  | zeroAddress
  | secondAddress
  | severalNegations
  | unknownFlag
  | severalFlags (flag : Char)
  | severalNumbers
  | zeroNumber
  | differentLengths
  | missingText
  | noPattern
  deriving DecidableEq, Repr

def EditFault.message : EditFault → String
  | unknownCommand c => "unknown command: `" ++ String.singleton c ++ "'"
  | missingCommand => "missing command"
  | extraCharacters => "extra characters after command"
  | unterminated command => "unterminated `" ++ String.singleton command ++ "' command"
  | unterminatedAddress => "unterminated address regex"
  | unexpectedComma => "unexpected `,'"
  | zeroAddress => "invalid usage of line address 0"
  | secondAddress => "command only uses one address"
  | severalNegations => "multiple `!'s"
  | unknownFlag => "unknown option to `s'"
  | severalFlags flag => "multiple `" ++ String.singleton flag ++ "' options to `s' command"
  | severalNumbers => "multiple number options to `s' command"
  | zeroNumber => "number option to `s' command may not be zero"
  | differentLengths => "strings for `y' command are different lengths"
  | missingText => "expected \\ after `a', `c' or `i'"
  | noPattern => "no previous regular expression"

structure EditStop where
  fault : EditFault
  /-- How much of the script was not looked at, if the place matters. -/
  left? : Option Nat
  deriving DecidableEq, Repr

namespace EditScript

def stop {β : Type} (fault : EditFault) (rest : List Char) : Except EditStop β :=
  .error ⟨fault, some rest.length⟩

/-- A text up to a delimiter, and what follows that. A delimiter behind a backslash belongs to the
text, without the backslash. -/
def upTo (delimiter : Char) : List Char → Option (List Char × List Char)
  | [] => none
  | '\\' :: c :: rest => do
    let (text, rest) ← upTo delimiter rest
    some (if c = delimiter then c :: text else '\\' :: c :: text, rest)
  | c :: rest =>
    if c = delimiter then some ([], rest)
    else do
      let (text, rest) ← upTo delimiter rest
      some (c :: text, rest)

def readUpTo (fault : EditFault) (delimiter : Char) (text : List Char) :
    Except EditStop (List Char × List Char) :=
  match upTo delimiter text with
  | some found => .ok found
  | none => stop fault []

def patternOf (extended : Bool) (fault : EditFault) (text rest : List Char) :
    Except EditStop Pattern :=
  if text = [] then .error ⟨.noPattern, none⟩
  else match Pattern.read? extended text with
    | some p => .ok p
    | none => stop fault rest

def replacementOf : List Char → List ReplacementPart
  | [] => []
  | '&' :: rest => .matched :: replacementOf rest
  | '\\' :: 'n' :: rest => .text '\n' :: replacementOf rest
  | '\\' :: 't' :: rest => .text '\t' :: replacementOf rest
  | '\\' :: c :: rest => .text c :: replacementOf rest
  | c :: rest => .text c :: replacementOf rest

def readAddress (extended : Bool) (text : List Char) :
    Except EditStop (Option Address × List Char) :=
  match text with
  | '$' :: rest => .ok (some .last, rest)
  | '/' :: rest => do
    let (pattern, rest) ← readUpTo .unterminatedAddress '/' rest
    let p ← patternOf extended .unterminatedAddress pattern rest
    .ok (some (.like p), rest)
  | text =>
    let digits := text.takeWhile Char.isDigit
    .ok ((number? (ofChars digits)).map .number, text.drop digits.length)

def skipBlanks (text : List Char) : List Char := text.dropWhile fun c => c = ' ' || c = '\t'

/-- Passes over the mark that means all other lines. -/
def readNegation (scope : Scope) (text : List Char) : Except EditStop (Scope × List Char) :=
  match skipBlanks text with
  | '!' :: rest =>
    match skipBlanks rest with
    | '!' :: rest => stop .severalNegations rest
    | rest => .ok ({ scope with negated := true }, rest)
  | rest => .ok (scope, rest)

def readScope (extended : Bool) (text : List Char) : Except EditStop (Scope × List Char) := do
  let (first?, rest) ← readAddress extended text
  match first?, skipBlanks rest with
  | some _, ',' :: rest => do
    let (last?, rest) ← readAddress extended (skipBlanks rest)
    if last?.isNone then stop .unexpectedComma rest.tail
    else
      let startsAtZero : Bool := first? = some (.number 0)
      let fits : Bool := match last? with
        | some (.like _) => true
        | _ => !startsAtZero
      if fits then readNegation ⟨first?, last?, false⟩ rest
      else stop .zeroAddress (skipBlanks rest).tail
  | _, rest =>
    if first? = some (.number 0) then stop .zeroAddress (skipBlanks rest).tail
    else readNegation ⟨first?, none, false⟩ rest

structure Flags where
  every : Bool := false
  showIt : Bool := false
  ignoreCase : Bool := false
  nth? : Option Nat := none

/-- Reads the flags of a substitution. The first argument is more than the length of the text. -/
def readFlags : Nat → Flags → List Char → Except EditStop (Flags × List Char)
  | 0, flags, text => .ok (flags, text)
  | fuel + 1, flags, text =>
    match text with
    | 'g' :: rest =>
      if flags.every then stop (.severalFlags 'g') rest
      else readFlags fuel { flags with every := true } rest
    | 'p' :: rest =>
      if flags.showIt then stop (.severalFlags 'p') rest
      else readFlags fuel { flags with showIt := true } rest
    | 'i' :: rest | 'I' :: rest => readFlags fuel { flags with ignoreCase := true } rest
    | c :: others =>
      if c.isDigit then
        let digits := text.takeWhile Char.isDigit
        let rest := text.drop digits.length
        match number? (ofChars digits) with
        | some (n + 1) =>
          if flags.nth?.isSome then stop .severalNumbers rest
          else readFlags fuel { flags with nth? := some (n + 1) } rest
        | _ => stop .zeroNumber rest
      else if c ∈ [';', '\n', ' ', '\t', '#', '\x7d'] then .ok (flags, text)
      else stop .unknownFlag others
    | [] => .ok (flags, [])

/-- The text of a command up to the end of its line. A backslash makes an ordinary character of what
follows it. -/
def readText : List Char → List Char × List Char
  | [] => (['\n'], [])
  | '\\' :: c :: rest =>
    let (text, rest) := readText rest
    (c :: text, rest)
  | '\n' :: rest => (['\n'], rest)
  | c :: rest =>
    let (text, rest) := readText rest
    (c :: text, rest)

/-- Reads the text of a command that writes one, perhaps on a line of its own behind a backslash. -/
def readTextBehind (text : List Char) : Except EditStop (List Char × List Char) :=
  match skipBlanks text with
  | [] => stop .missingText []
  | '\\' :: rest =>
    match skipBlanks rest with
    | '\n' :: rest => .ok (readText rest)
    | rest => .ok (readText rest)
  | rest => .ok (readText rest)

def readAction (extended : Bool) (text : List Char) : Except EditStop (EditAction × List Char) :=
  let quit (silent : Bool) (rest : List Char) : Except EditStop (EditAction × List Char) :=
    let digits := (skipBlanks rest).takeWhile Char.isDigit
    .ok (.quit silent (UInt8.ofNat ((number? (ofChars digits)).getD 0)),
      (skipBlanks rest).drop digits.length)
  match text with
  | [] => stop .missingCommand []
  | 'p' :: rest => .ok (.print, rest)
  | 'P' :: rest => .ok (.printFirst, rest)
  | 'd' :: rest => .ok (.delete, rest)
  | 'D' :: rest => .ok (.deleteFirst, rest)
  | '=' :: rest => .ok (.number, rest)
  | 'l' :: rest => .ok (.reveal, rest)
  | 'q' :: rest => quit false rest
  | 'Q' :: rest => quit true rest
  | 'n' :: rest => .ok (.next, rest)
  | 'N' :: rest => .ok (.appendNext, rest)
  | 'h' :: rest => .ok (.keep false, rest)
  | 'H' :: rest => .ok (.keep true, rest)
  | 'g' :: rest => .ok (.fetch false, rest)
  | 'G' :: rest => .ok (.fetch true, rest)
  | 'x' :: rest => .ok (.swap, rest)
  | 'z' :: rest => .ok (.clear, rest)
  | 'i' :: rest => (readTextBehind rest).map fun (text, rest) => (.insert text, rest)
  | 'a' :: rest => (readTextBehind rest).map fun (text, rest) => (.append text, rest)
  | 'c' :: rest => (readTextBehind rest).map fun (text, rest) => (.replace text, rest)
  | 's' :: delimiter :: rest => do
    let (pattern, rest) ← readUpTo (.unterminated 's') delimiter rest
    let (replacement, rest) ← readUpTo (.unterminated 's') delimiter rest
    let (flags, rest) ← readFlags (rest.length + 1) {} rest
    let p ← patternOf extended (.unterminated 's') pattern []
    let s : Substitution :=
      { pattern := p, replacement := replacementOf replacement, every := flags.every,
        nth := flags.nth?.getD 1
        ignoreCase := flags.ignoreCase }
    .ok (.substitute s flags.showIt, rest)
  | 'y' :: delimiter :: rest => do
    let (source, rest) ← readUpTo (.unterminated 'y') delimiter rest
    let (target, rest) ← readUpTo (.unterminated 'y') delimiter rest
    if source.length = target.length then .ok (.exchange source target, rest)
    else stop .differentLengths rest
  | 's' :: [] => stop (.unterminated 's') []
  | 'y' :: [] => stop (.unterminated 'y') []
  | c :: rest => stop (.unknownCommand c) rest

/-- Whether a command has a text, which goes on to the end of the line. -/
def endsWithLine : EditAction → Bool
  | .insert _ | .append _ | .replace _ => true
  | _ => false

/-- Reads the commands of a script. The first argument is more than the length of the text. -/
def readCommands (extended : Bool) : Nat → List Char → Except EditStop (List EditCommand)
  | 0, _ => .ok []
  | fuel + 1, text =>
    match text.dropWhile fun c => c ∈ [' ', '\t', '\n', ';'] with
    | [] => .ok []
    | '#' :: rest => readCommands extended fuel (rest.dropWhile (· ≠ '\n'))
    | text => do
      let (scope, text) ← readScope extended text
      if isForOneAt text && scope.last?.isSome then stop .secondAddress text.tail
      else
        let (action, rest) ← readAction extended text
        let rest := if endsWithLine action then '\n' :: rest else skipBlanks rest
        match rest with
        | [] => .ok [⟨scope, action⟩]
        | c :: rest =>
          if c = ';' ∨ c = '\n' then
            let others ← readCommands extended fuel rest
            .ok (⟨scope, action⟩ :: others)
          else stop .extraCharacters rest
where
  isForOneAt : List Char → Bool
    | c :: _ => c = 'q' || c = 'Q'
    | [] => false

def read (extended : Bool) (script : Bytes) : Except EditStop (List EditCommand) :=
  readCommands extended (script.length + 1) (chars script)

/-- What is said about a script with a given number, among those that are given. -/
def complaint (number : Nat) (script : Bytes) (s : EditStop) : Bytes :=
  let place := match s.left? with
    | some left => script.length - left
    | none => 0
  Bytes.ofString
    ("-e expression #" ++ toString number ++ ", char " ++ toString place ++ ": " ++ s.fault.message)

/-- Reads several scripts, which are numbered from one. -/
def readEach (extended : Bool) (scripts : List Bytes) : Except Bytes (List EditCommand) :=
  (scripts.zipIdx 1).foldlM (fun commands (script, number) =>
    match read extended script with
    | .ok others => .ok (commands ++ others)
    | .error s => .error (complaint number script s)) []

end EditScript

/-! ### Lines -/

structure EditLine where
  text : List Char := []
  /-- Whether a newline stands behind it. -/
  ended : Bool := true
  number : Nat := 0
  isLast : Bool := false

def Address.means (l : EditLine) : Address → Bool
  | .number n => l.number = n
  | .last => l.isLast
  | .like p => (p.find l.text).isSome

/-- Whether a scope means a line, and whether it goes on behind it; the flag says whether it has
begun before. -/
def Scope.means (s : Scope) (l : EditLine) (open' : Bool) : Bool × Bool :=
  let (inside, goesOn) := match s.first?, s.last? with
    | none, _ => (true, false)
    | some first, none => (first.means l, false)
    | some first, some bound =>
      let endsHere := match bound with
        | .number n => n ≤ l.number
        | other => other.means l
      if open' then
        match bound with
        | .number n => if n < l.number then (first.means l, false) else (true, !endsHere)
        | _ => (true, !endsHere)
      else if first.means l then
        (true, match bound with
          | .number n => l.number < n
          | _ => !l.isLast)
      else (false, false)
  (inside != s.negated, goesOn)

/-- Whether a scope has begun before the first line. -/
def Scope.beginsOpen (s : Scope) : Bool := s.first? = some (.number 0)

/-- A text that is written, and whether a newline follows even if nothing else does. -/
structure EditOutput where
  text : List Char
  ended : Bool := true

def EditLine.output (l : EditLine) : EditOutput := { text := l.text, ended := l.ended }

inductive EditFlow
  | goOn
  /-- The line is done and will not be written. -/
  | done
  /-- The commands begin again with what is left of the line. -/
  | again
  /-- The script has quit; the flag says whether the line may be written. -/
  | quit (shown : Bool) (code : UInt8)
  /-- No line follows. -/
  | ranOut
  /-- It is not known yet which line comes next. -/
  | starved
  deriving DecidableEq, Repr

structure EditState where
  line : EditLine := {}
  kept : List Char := []
  /-- The lines that follow, each with whether a newline stands behind it. -/
  input : List (Bytes × Bool)
  /-- Whether no further lines can follow those. -/
  complete : Bool
  silent : Bool
  /-- What was written, the last first. -/
  written : List EditOutput := []
  /-- What is written behind the line, the last first. -/
  pending : List EditOutput := []
  flow : EditFlow := .goOn
  /-- Which scopes go on, for the commands that were passed, the last first. -/
  scopes : List Bool := []

namespace EditState

def write (s : EditState) (output : EditOutput) : EditState :=
  { s with written := output :: s.written }

/-- Writes the line, unless lines are only written on demand. -/
def writeLine (s : EditState) : EditState := if s.silent then s else s.write s.line.output

def flush (s : EditState) : EditState := { s with written := s.pending ++ s.written, pending := [] }

def takeLine? (s : EditState) : Option (EditLine × List (Bytes × Bool)) :=
  match s.input with
  | [] => none
  | (text, ended) :: rest =>
    if rest = [] && !s.complete then none
    else some (⟨chars text, ended, s.line.number + 1, decide (rest = [])⟩, rest)

/-- Goes on with the next line; without one, everything ends. -/
def withNext (s : EditState) (use : EditLine → EditState → EditState) : EditState :=
  match s.takeLine? with
  | some (line, rest) => use line { s with input := rest }
  | none => { s with flow := if s.complete then .ranOut else .starved }

end EditState

def revealed (c : Char) : List Char :=
  if c = '\\' then ['\\', '\\']
  else if isPrintable c then [c]
  else '\\' :: escape c

def revealedWidth : Nat := 69

/-- A text with all characters revealed, in lines that are not too long. The number is how much of
the line is used already. -/
def revealFrom : Nat → List Char → List Char
  | _, [] => ['$']
  | used, c :: rest =>
    let unit := revealed c
    if revealedWidth < used + unit.length then '\\' :: '\n' :: unit ++ revealFrom unit.length rest
    else unit ++ revealFrom (used + unit.length) rest

def firstOf (text : List Char) : List Char := text.takeWhile (· ≠ '\n')

def textOutput (text : List Char) : EditOutput := { text := text.dropLast }

/-- Carries out a command; the flag says whether its scope goes on. -/
def EditAction.apply (s : EditState) (goesOn : Bool) : EditAction → EditState
  | .print => s.write s.line.output
  | .printFirst => s.write { text := firstOf s.line.text }
  | .delete => { s with flow := .done }
  | .deleteFirst =>
    if '\n' ∈ s.line.text then
      { s with
        line := { s.line with text := (s.line.text.dropWhile (· ≠ '\n')).tail }
        flow := .again }
    else { s with flow := .done }
  | .number => s.write { text := (toString s.line.number).toList }
  | .reveal => s.write { text := revealFrom 0 s.line.text }
  | .quit silent code => { s with flow := .quit (!silent) code }
  | .substitute substitution showIt =>
    let (text, changed) := substitution.apply s.line.text
    let s := { s with line := { s.line with text := text } }
    if changed && showIt then s.write s.line.output else s
  | .exchange source target =>
    let change (c : Char) : Char := ((source.idxOf? c).bind (target[·]?)).getD c
    { s with line := { s.line with text := s.line.text.map change } }
  | .next => s.withNext fun line s => { s.writeLine.flush with line := line }
  | .appendNext => s.withNext fun line s =>
    { s.flush with line := { line with text := s.line.text ++ '\n' :: line.text } }
  | .keep add => { s with kept := if add then s.kept ++ '\n' :: s.line.text else s.line.text }
  | .fetch add =>
    { s with line := { s.line with text := if add then s.line.text ++ '\n' :: s.kept else s.kept } }
  | .swap => { s with line := { s.line with text := s.kept }, kept := s.line.text }
  | .clear => { s with line := { s.line with text := [] } }
  | .insert text => s.write (textOutput text)
  | .append text => { s with pending := textOutput text :: s.pending }
  | .replace text =>
    { (if goesOn then s else s.write (textOutput text)) with flow := .done }

/-- Carries out the commands for a line. Each comes with the flag whether its scope has begun. -/
def editLine (s : EditState) : List (EditCommand × Bool) → EditState
  | [] => s
  | (command, open') :: rest =>
    if s.flow ≠ .goOn then editLine { s with scopes := open' :: s.scopes } rest
    else
      let (means, goesOn) := command.scope.means s.line open'
      let s := { s with scopes := goesOn :: s.scopes }
      editLine (if means then command.action.apply s goesOn else s) rest

/-- The result of editing: what is written, and how many lines were needed and with what code it
ends if the script has quit. -/
structure Edited where
  written : List EditOutput
  quit? : Option (Nat × UInt8) := none

/-- Edits one line after the other. The number bounds how often the commands begin. -/
def editLines (commands : List EditCommand) : Nat → EditState → Edited
  | 0, s => ⟨s.written.reverse, none⟩
  | fuel + 1, s =>
    match if s.flow = .again then some (s.line, s.input) else s.takeLine? with
    | none => ⟨s.written.reverse, none⟩
    | some (line, rest) =>
      let begun := { s with line := line, input := rest, flow := .goOn, scopes := [] }
      let after := editLine begun (commands.zip s.scopes)
      let after := { after with scopes := after.scopes.reverse }
      match after.flow with
      | .starved => ⟨s.written.reverse, none⟩
      | .ranOut => ⟨after.writeLine.flush.written.reverse, none⟩
      | .quit shown code =>
        let final := (if shown then after.writeLine else after).flush
        ⟨final.written.reverse.map ({ · with ended := true }), some (after.line.number, code)⟩
      | .done | .again => editLines commands fuel after.flush
      | .goOn => editLines commands fuel after.writeLine.flush

def linesWithEnds (data : Bytes) : List (Bytes × Bool) :=
  let pieces := lines data
  let whole : Bool := data.getLast? = some Bytes.newline
  let count := pieces.length
  (pieces.zipIdx 1).map fun (line, n) => (line, whole || n ≠ count)

/-- Outputs one behind the other. Only the last of them may lack its newline. -/
def joinOutputs (outputs : List EditOutput) : Bytes :=
  let text := outputs.flatMap fun output => ofChars output.text ++ [Bytes.newline]
  match outputs.getLast? with
  | some output => if output.ended then text else text.dropLast
  | none => text

def beginningBound : Nat := 1000

structure Editing where
  commands : List EditCommand
  silent : Bool

namespace Editing

/-- What editing makes of lines; the flag says whether there are no more. -/
def run (e : Editing) (input : List (Bytes × Bool)) (complete : Bool) : Edited :=
  let s : EditState :=
    { input := input, complete := complete, silent := e.silent,
      scopes := e.commands.map (·.scope.beginsOpen) }
  editLines e.commands ((input.length + 1) * beginningBound) s

def runData (e : Editing) (data : Bytes) (ended : Bool) : Edited :=
  e.run (linesWithEnds (if ended then data else completeLines data)) ended

def yield (e : Editing) (data : Bytes) (ended : Bool) : Yield :=
  let edited := e.runData data ended
  { output := joinOutputs edited.written
    needed? := edited.quit?.map fun (n, _) => lengthOfFirst n data }
where
  lengthOfFirst : Nat → Bytes → Nat
    | 0, _ => 0
    | _, [] => 0
    | n + 1, data => ((Bytes.firstLine data).1.length) + lengthOfFirst n (Bytes.firstLine data).2

def code (edited : Edited) : UInt8 :=
  match edited.quit? with
  | some (_, code) => code
  | none => 0

end Editing

/-- What is said when the output cannot be written: if some of it was, how much was on its way. -/
def editComplaint (output : Bytes) (written : Nat) (reason : Errno) : List String :=
  if output.length ≤ written + outputBlock then ["couldn't flush stdout: " ++ reason.text]
  else
    let place := (written / outputBlock + 1) * outputBlock
    let behind := output.drop place
    let before := ((output.take place).reverse.takeWhile (· ≠ Bytes.newline)).length
    let size := if behind.head? = some Bytes.newline then 1
      else before + (behind.takeWhile (· ≠ Bytes.newline)).length
    ["couldn't write " ++ toString size ++ (if size = 1 then " item" else " items") ++
      " to stdout: " ++ reason.text]

def editFault : Writing := { complaints := editComplaint, code := 4 }

/-- The lines of all operands that can be read, up to where the script quits, and the code. A
directory ends the reading. -/
def readLines (e : Editing) (name : Bytes) (input : List (Bytes × Bool)) :
    List Bytes → Program (List (Bytes × Bool) × UInt8)
  | [] => pure (input, 0)
  | operand :: rest => do
    match ← readSource operand with
    | .ok data =>
      let input := input ++ linesWithEnds data
      if (e.run input false).quit?.isSome then pure (input, 0) else readLines e name input rest
    | .error .isDirectory =>
      complainAbout name (Bytes.ofString "read error on " ++ operand) .isDirectory
      pure (input, 4)
    | .error reason =>
      complainAbout name (Bytes.ofString "can't read " ++ operand) reason
      let (input, code) ← readLines e name input rest
      pure (input, max 2 code)

/-- Edits files and puts the result in their places. -/
def editInPlace (e : Editing) (name : Bytes) : List Bytes → Program UInt8
  | [] => pure 0
  | operand :: rest => do
    let code ← match ← readSource operand with
      | .ok data => do
        match ← Program.ask (.openFile operand (.replace 0o666)) with
        | .ok fd => do
          Program.put fd (joinOutputs (e.runData data true).written)
          Program.act (.close fd)
          pure 0
        | .error reason => do
          complainAbout name (Bytes.ofString "couldn't open file " ++ operand) reason
          pure 4
      | .error .isDirectory => do
        complain name (Bytes.ofString "couldn't edit " ++ operand ++
          Bytes.ofString ": not a regular file")
        pure 4
      | .error reason => do
        complainAbout name (Bytes.ofString "can't read " ++ operand) reason
        pure 4
    let others ← editInPlace e name rest
    pure (max code others)

def editUsage : Usage :=
  { plain := "nErsui", valued := "e"
    words := [("quiet", 'n'), ("silent", 'n'), ("expression", 'e'), ("regexp-extended", 'E'),
      ("separate", 's'), ("unbuffered", 'u'), ("in-place", 'i')] }

/-- Edits its operands. -/
def edit : Tool := withArguments editUsage fun name a =>
  let (scripts, operands) := match a.values 'e', a.operands with
    | [], script :: rest => ([script], rest)
    | given, operands => (given, operands)
  if scripts = [] then do
    Program.put Fd.complaints (Bytes.ofString "Usage: " ++ name ++
      Bytes.ofString " [OPTION]... \x7bscript-only-if-no-other-script\x7d [input-file]...\n")
    pure 1
  else match EditScript.readEach (a.has 'E' || a.has 'r') scripts with
    | .error message => do
      complain name message
      pure 1
    | .ok commands =>
      let e : Editing := { commands := commands, silent := a.has 'n' }
      match a.has 'i', operands with
      | true, [] => do
        complain name (Bytes.ofString "no input files")
        pure 4
      | true, operands => editInPlace e name operands
      | false, [] =>
        let failed (reason : Errno) : Program UInt8 := do
          complainAbout name (Bytes.ofString "read error on stdin") reason
          pure 4
        filterSource name e.yield failed (fun t => do
          giveBack Fd.input t
          pure (Editing.code (e.runData t.seen true))) editFault
      | false, operands => do
        let (input, code) ← readLines e name [] operands
        let edited := e.run input true
        emit name (joinOutputs edited.written) editFault
        pure (match edited.quit? with
          | some (_, code) => code
          | none => code)

end PipeShell.Tool
