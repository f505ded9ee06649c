import PipeShell.Userland.Tool

/-!
Merging equal lines that stand in a row.
-/

set_option autoImplicit false
set_option relaxedAutoImplicit false

namespace PipeShell.Tool

/-- Lines that count as equal and stand in a row. -/
abbrev Run := List Bytes

structure Repeats where
  /-- Whether lines that stand alone are left out. -/
  repeatedOnly : Bool := false
  /-- Whether lines that are repeated are left out. -/
  uniqueOnly : Bool := false
  /-- Whether all repeated lines are kept. -/
  all : Bool := false
  counted : Bool := false
  ignoreCase : Bool := false
  /-- How many fields and then how many bytes do not count. -/
  skippedFields : Nat := 0
  skippedBytes : Nat := 0
  /-- How many bytes count. -/
  width? : Option Nat := none

namespace Repeats

/-- What follows a number of fields. Each has blanks in front of it. -/
def skipFields : Nat → Bytes → Bytes
  | 0, text => text
  | n + 1, text =>
    let isBlank (b : UInt8) : Bool := b = 32 || b = 9
    skipFields n ((text.dropWhile isBlank).dropWhile (!isBlank ·))

def essence (r : Repeats) (line : Bytes) : Bytes :=
  let text := (skipFields r.skippedFields line).drop r.skippedBytes
  let text := match r.width? with
    | some width => text.take width
    | none => text
  if r.ignoreCase then text.map fun b => if 97 ≤ b && b ≤ 122 then b - 32 else b else text

def runs (r : Repeats) (input : List Bytes) : List Run :=
  (input.map fun line => (line, r.essence line)).foldr
    (fun (line, key) (found : List (Run × Bytes)) =>
    match found with
    | (run, next) :: rest =>
      if key = next then (line :: run, key) :: rest else ([line], key) :: found
    | [] => [([line], key)]) [] |>.map (·.1)

def countColumn (n : Nat) : Bytes :=
  let digits := Bytes.ofNat n
  List.replicate (7 - digits.length) 32 ++ digits ++ [32]

def shown (r : Repeats) (run : Run) : Bytes :=
  let wanted := (!r.repeatedOnly || 1 < run.length) && (!r.uniqueOnly || run.length = 1)
  if !wanted then []
  else if r.all then unlines run
  else (if r.counted then countColumn run.length else []) ++ unlines (run.take 1)

/-- What is shown of the data read so far. The last run may go on. -/
def yield (r : Repeats) (seen : Bytes) (ended : Bool) : Yield :=
  let runs := r.runs (lines (if ended then seen else completeLines seen))
  { output := (if ended then runs else runs.dropLast).flatMap r.shown }

/-- A number that an option gives, or what is wrong with it. -/
def numberOf (a : Arguments) (c : Char) (what : String) : Except Bytes (Option Nat) :=
  match a.value? c with
  | none => .ok none
  | some text =>
    match number? text with
    | some n => .ok (some n)
    | none => .error (text ++ Bytes.ofString (": invalid number of " ++ what))

def ofArguments (a : Arguments) : Except Bytes Repeats := do
  let fields? ← numberOf a 'f' "fields to skip"
  let bytes? ← numberOf a 's' "bytes to skip"
  let width? ← numberOf a 'w' "bytes to compare"
  .ok { repeatedOnly := a.has 'd' || a.has 'D', uniqueOnly := a.has 'u', all := a.has 'D'
        counted := a.has 'c', ignoreCase := a.has 'i', skippedFields := fields?.getD 0
        skippedBytes := bytes?.getD 0, width? := width? }

end Repeats

/-- Merges equal lines that stand in a row. -/
def merge : Tool :=
  let usage : Usage :=
    { plain := "cdDuiz", valued := "fsw"
      words := [("count", 'c'), ("repeated", 'd'), ("all-repeated", 'D'), ("skip-fields", 'f'),
        ("ignore-case", 'i'), ("skip-chars", 's'), ("unique", 'u'), ("check-chars", 'w')] }
  withArguments usage fun name a =>
    match Repeats.ofArguments a with
    | .error message => do
      complain name message
      pure 1
    | .ok r =>
      if r.all && r.counted then
        misused name
          (Bytes.ofString "printing all duplicated lines and repeat counts is meaningless") 1
      else match a.operands with
      | [] => run r name dash none
      | [source] => run r name source none
      | [source, target] => run r name source (if target = dash then none else some target)
      | _ :: _ :: extra :: _ => misused name (Bytes.ofString "extra operand " ++ quoted extra) 1
where
  /-- Reads a source and writes to a target, which is opened before anything is read. -/
  run (r : Repeats) (name source : Bytes) (target? : Option Bytes) : Program UInt8 := do
    let failed (reason : Errno) : Program UInt8 := do
      complainAbout name (quotedIfNeeded source) reason
      pure 1
    let unreadable (reason : Errno) : Program UInt8 := do
      complainAbout name (Bytes.ofString "error reading " ++ quoted source) reason
      pure 1
    withSource source failed fun fd => do
      match target? with
      | none => filterInput name r.yield unreadable { patient := true } fd
      | some target =>
        match ← Program.ask (.openFile target (.replace 0o666)) with
        | .error reason =>
          complainAbout name (quotedIfNeeded target) reason
          pure 1
        | .ok out =>
          .transfer { source := fd, target := out, yield := r.yield } fun t =>
            match t.halt with
            | .cannotRead reason => unreadable reason
            | _ => pure 0

end PipeShell.Tool
