import PipeShell.Userland.Pattern

/-!
Searching lines for patterns.
-/

set_option autoImplicit false
set_option relaxedAutoImplicit false

namespace PipeShell.Tool

structure Search where
  patterns : List Pattern
  demand : Pattern.Demand := {}
  inverted : Bool := false
  wholeLine : Bool := false
  onlyCount : Bool := false
  /-- Whether the names are shown of the sources with lines that are wanted. -/
  onlyNames : Bool := false
  /-- Whether the names are shown of the other sources. -/
  otherNames : Bool := false
  /-- Whether the matches are shown without what is around them. -/
  onlyMatches : Bool := false
  quiet : Bool := false
  numbers : Bool := false
  offsets : Bool := false
  limit? : Option Nat := none
  /-- How many lines in front of a wanted one and behind it are shown, if groups of lines are told
  apart. -/
  context? : Option (Nat × Nat) := none
  /-- Whether sources with zero bytes are shown like all others. -/
  asText : Bool := false
  /-- Whether sources have their names in front of what is shown of them. -/
  labels : Bool := false
  silent : Bool := false

structure SearchLine where
  text : Bytes
  number : Nat
  offset : Nat

structure SearchState where
  /-- The number and the offset of the next line. -/
  next : Nat × Nat := (1, 0)
  found : Nat := 0
  /-- How much stands before the end of the last wanted line. -/
  needed : Nat := 0
  /-- The last lines that were not shown, the last first. -/
  held : List SearchLine := []
  /-- How many lines are still shown behind a wanted one. -/
  following : Nat := 0
  /-- Whether lines were left out since some were shown, here or in an earlier source. -/
  apart : Bool := false
  /-- What is shown, the last first. -/
  shown : List Bytes := []

namespace Search

def wants (s : Search) (line : Bytes) : Bool :=
  let text := chars line
  let found := s.patterns.any fun p =>
    let p := if s.wholeLine then { p with atStart := true, atEnd := true } else p
    (p.find text s.demand).isSome
  found != s.inverted

/-- The first match in a text of any pattern; of several ones, the longest. -/
def findFirst (s : Search) (atLineStart : Bool) (before? : Option Char) (text : List Char) :
    Option (Nat × Nat) :=
  (s.patterns.filterMap fun p => p.findFrom s.demand atLineStart before? text).foldl
    (fun best found =>
    match best with
    | none => some found
    | some old =>
      if found.1 < old.1 || (found.1 = old.1 && old.2 < found.2) then some found else some old) none

/-- The matches in a text that are not empty, with their offsets. The first argument is more than
the length of the text. -/
def matchesFrom (s : Search) : Nat → Nat → Bool → Option Char → List Char → List (Nat × List Char)
  | 0, _, _, _, _ => []
  | fuel + 1, offset, atLineStart, before?, text =>
    match s.findFirst atLineStart before? text with
    | none => []
    | some (passed, length) =>
      let found := (text.drop passed).take length
      let step := passed + max 1 length
      let others := if text.length < step then []
        else matchesFrom s fuel (offset + step) false ((text.take step).getLast?) (text.drop step)
      if length = 0 then others else (offset + passed, found) :: others

/-- What stands in front of a line that is shown, with a mark that tells wanted lines from
others. -/
def heading (s : Search) (name : Bytes) (mark : UInt8) (number offset : Nat) : Bytes :=
  (if s.labels then name ++ [mark] else []) ++ (if s.numbers then Bytes.ofNat number ++ [mark]
    else []) ++ (if s.offsets then Bytes.ofNat offset ++ [mark] else [])

def showWanted (s : Search) (name : Bytes) (line : SearchLine) : Bytes :=
  if s.onlyMatches then
    if s.inverted then []
    else
      let text := chars line.text
      (s.matchesFrom (text.length + 1) line.offset true none text).flatMap fun (offset, found) =>
        s.heading name 58 line.number offset ++ ofChars found ++ [Bytes.newline]
  else s.heading name 58 line.number line.offset ++ line.text ++ [Bytes.newline]

def showOther (s : Search) (name : Bytes) (line : SearchLine) : Bytes :=
  if s.onlyMatches then []
  else s.heading name 45 line.number line.offset ++ line.text ++ [Bytes.newline]

def separator : Bytes := [45, 45, Bytes.newline]

def isSatisfied (s : Search) (state : SearchState) : Bool := s.limit?.any (· ≤ state.found)

def step (s : Search) (name : Bytes) (state : SearchState) (text : Bytes) : SearchState :=
  let line : SearchLine := ⟨text, state.next.1, state.next.2⟩
  let behind := state.next.2 + text.length + 1
  let state := { state with next := (state.next.1 + 1, behind) }
  if !s.isSatisfied state && s.wants text then
    let state := { state with found := state.found + 1, needed := behind }
    match s.context? with
    | none => { state with shown := s.showWanted name line :: state.shown }
    | some (_, after) =>
      let group := (if state.apart then separator else []) ++ state.held.reverse.flatMap
        (s.showOther name) ++ s.showWanted name line
      { state with shown := group :: state.shown, held := [], following := after, apart := false }
  else
    match s.context?, state.following with
    | none, _ => state
    | some _, n + 1 => { state with shown := s.showOther name line :: state.shown, following := n }
    | some (before, _), 0 =>
      let held := (line :: state.held).take before
      { state with
        held := held
        apart := state.apart || (state.found ≠ 0 && state.held.length = before) }

def look (s : Search) (name : Bytes) (apart : Bool) (data : Bytes) : SearchState :=
  (lines data).foldl (s.step name) { apart := apart }

/-- Whether the first wanted line settles everything. -/
def stopsEarly (s : Search) : Bool := s.quiet || s.onlyNames || s.otherNames

def showsLines (s : Search) : Bool := !s.stopsEarly && !s.onlyCount

def isHidden (s : Search) (data : Bytes) : Bool := !s.asText && (0 : UInt8) ∈ data

def yield (s : Search) (name : Bytes) (apart : Bool) (seen : Bytes) (ended : Bool) : Yield :=
  let data := if ended then seen else completeLines seen
  let state := s.look name apart data
  let hidden := s.showsLines && s.isHidden seen
  let settled : Bool := (s.stopsEarly && state.found ≠ 0) ||
    (s.isSatisfied state && state.following = 0)
  { output := if s.showsLines && !hidden then state.shown.reverse.flatten else []
    needed? := if settled then some (if s.stopsEarly then seen.length else state.needed) else none }

/-- Reads a pattern from an argument; it may consist of several lines. -/
def patternsOf (fixed extended : Bool) (argument : Bytes) : Option (List Pattern) :=
  (Bytes.splitAt Bytes.newline argument).mapM fun text =>
    if fixed then some (Pattern.literal (chars text)) else Pattern.read? extended (chars text)

def fault : Writing := { code := 2 }

/-- Whether the output goes to the file that is being searched, so that it would be searched as
well. -/
def wouldFindItself (s : Search) (fd : Fd) : Program Bool :=
  if s.stopsEarly || s.onlyCount || s.limit? = some 1 then pure false
  else do
    match ← Program.ask (.inspect fd), ← Program.ask (.inspect Fd.output) with
    | some source, some target => pure (source.kind = .file && source.node? = target.node?)
    | _, _ => pure false

structure Outcome where
  found : Bool := false
  troubled : Bool := false
  apart : Bool := false

def summary (s : Search) (name : Bytes) (found : Nat) : Bytes :=
  if s.quiet then []
  else if s.onlyNames then if found = 0 then [] else name ++ [Bytes.newline]
  else if s.otherNames then if found = 0 then name ++ [Bytes.newline] else []
  else if s.onlyCount then
    (if s.labels then name ++ [58] else []) ++ Bytes.ofNat found ++ [Bytes.newline]
  else []

def complainUnlessSilent (s : Search) (name shownName : Bytes) (reason : Errno) : Program Unit :=
  if s.silent then pure () else complainAbout name shownName reason

/-- Searches an open source. A quiet search ends with the first wanted line. -/
def searchOpen (s : Search) (name shownName : Bytes) (apart : Bool) (fd : Fd) :
    Program Outcome := do
  if ← s.wouldFindItself fd then
    complain name (shownName ++ Bytes.ofString ": input file is also the output")
    pure { troubled := true, apart := apart }
  else
    let failed (reason : Errno) : Program Outcome := do
      s.complainUnlessSilent name shownName reason
      emit name (s.summary shownName 0) fault
      pure { troubled := true, apart := apart }
    filterSource name (s.yield shownName apart) failed (fun t => finish t) fault fd
where
  finish (t : Transferred) : Program Outcome := do
    let state := s.look shownName apart t.seen
    let found : Bool := state.found ≠ 0
    if s.quiet && found then Program.exit 0
    else
      giveBack fd t
      emit name (s.summary shownName state.found) fault
      if s.showsLines && found && s.isHidden t.seen then
        complain name (shownName ++ Bytes.ofString ": binary file matches")
      pure { found := found, apart := apart || (s.context?.isSome && found) }

def searchEach (s : Search) (name : Bytes) : Outcome → List Bytes → Program Outcome
  | outcome, [] => pure outcome
  | outcome, operand :: rest => do
    let shownName := if operand = dash then Bytes.ofString "(standard input)" else operand
    let failed (reason : Errno) : Program Outcome := do
      s.complainUnlessSilent name shownName reason
      pure { troubled := true, apart := outcome.apart }
    let next ← withSource operand failed (s.searchOpen name shownName outcome.apart)
    searchEach s name ⟨outcome.found || next.found, outcome.troubled ||
      next.troubled, next.apart⟩ rest

def run (s : Search) (name : Bytes) (operands : List Bytes) : Program UInt8 := do
  if s.limit? = some 0 then pure 1
  else
    let outcome ← s.searchEach name {} operands
    pure (if outcome.troubled then 2 else if outcome.found then 0 else 1)

def usage : Usage :=
  { plain := "EFGvxicnlLqhHsowbayU", valued := "emABC", code := 2
    words := [("extended-regexp", 'E'), ("fixed-strings", 'F'), ("basic-regexp", 'G'),
      ("invert-match", 'v'), ("line-regexp", 'x'), ("ignore-case", 'i'), ("count", 'c'),
      ("line-number", 'n'), ("files-with-matches", 'l'), ("files-without-match", 'L'),
      ("quiet", 'q'), ("silent", 'q'), ("no-filename", 'h'), ("with-filename", 'H'),
      ("no-messages", 's'), ("only-matching", 'o'), ("word-regexp", 'w'), ("byte-offset", 'b'),
      ("text", 'a'), ("regexp", 'e'), ("max-count", 'm'), ("after-context", 'A'),
      ("before-context", 'B'), ("context", 'C')] }

/-- How a search is explained to those who used it in a wrong way. -/
def explain (name : Bytes) : Program UInt8 := do
  Program.put Fd.complaints
    (Bytes.ofString "Usage: " ++ name ++ Bytes.ofString " [OPTION]... PATTERNS [FILE]...\n")
  pointToHelp name
  pure 2

def contextOf (a : Arguments) : Except Bytes (Option (Nat × Nat)) := do
  let read (c : Char) : Except Bytes (Option Nat) :=
    match a.value? c with
    | none => .ok none
    | some text =>
      match number? text with
      | some n => .ok (some n)
      | none => .error (text ++ Bytes.ofString ": invalid context length argument")
  let around? ← read 'C'
  let before? := (← read 'B').or around?
  let after? := (← read 'A').or around?
  .ok (if before?.isSome || after?.isSome then some (before?.getD 0, after?.getD 0) else none)

def limitOf (a : Arguments) : Except Bytes (Option Nat) :=
  match a.value? 'm' with
  | none => .ok none
  | some text =>
    match number? text, text with
    | some n, _ => .ok (some n)
    | none, 45 :: digits =>
      if (number? digits).isSome then .ok none else .error (Bytes.ofString "invalid max count")
    | none, _ => .error (Bytes.ofString "invalid max count")

def ofArguments (a : Arguments) (patterns : List Bytes) (labels : Bool) : Except Bytes Search := do
  let context? ← contextOf a
  let limit? ← limitOf a
  match patterns.mapM (patternsOf (a.has 'F') (a.has 'E')) with
  | none => .error (Bytes.ofString "Unmatched [, [^, [:, [., or [=")
  | some read =>
    .ok { patterns := read.flatten
          demand := { ignoreCase := a.has 'i' || a.has 'y', words := a.has 'w' }
          inverted := a.has 'v', wholeLine := a.has 'x', onlyCount := a.has 'c'
          onlyNames := a.last? ['l', 'L'] = some 'l', otherNames := a.last? ['l', 'L'] = some 'L'
          onlyMatches := a.has 'o', quiet := a.has 'q', numbers := a.has 'n'
          offsets := a.has 'b', limit? := limit?
          context? := context?, asText := a.has 'a', labels := labels, silent := a.has 's' }

end Search

/-- Searches lines. The patterns are the values of an option or else the first operand. -/
def search : Tool := fun name arguments =>
  match Search.usage.read arguments with
  | .error fault => do
    complain name fault.message
    Search.explain name
  | .ok a =>
    let (patterns, operands) := match a.values 'e', a.operands with
      | [], pattern :: rest => ([pattern], rest)
      | given, operands => (given, operands)
    if patterns = [] then Search.explain name
    else
      let wish? := a.last? ['h', 'H']
      let labels : Bool := wish? = some 'H' || (1 < operands.length && wish? ≠ some 'h')
      match Search.ofArguments a patterns labels with
      | .error message => do
        complain name message
        pure 2
      | .ok s => s.run name (sources operands)

end PipeShell.Tool
