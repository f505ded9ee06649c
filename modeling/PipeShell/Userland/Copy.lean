import PipeShell.Userland.Tool

/-!
Programs that pass on what they read: to one place, with its characters made visible on demand, or
to several places.
-/

set_option autoImplicit false
set_option relaxedAutoImplicit false

namespace PipeShell.Tool

/-- Whether an open file is the one that the output goes to, and copying it would never end. -/
def feedsItself (fd : Fd) : Program Bool := do
  match ← Program.ask (.inspect fd), ← Program.ask (.inspect Fd.output) with
  | some source, some target =>
    pure (source.kind = .file && source.node? = target.node? &&
      decide (source.offset < target.offset))
  | _, _ => pure false

/-! ### To one place -/

/-- What is added to a copy. -/
structure CopyStyle where
  numbers : Bool := false
  /-- Whether empty lines have no numbers. -/
  nonblank : Bool := false
  /-- A dollar sign behind each line. -/
  ends : Bool := false
  /-- Marks instead of tabs. -/
  tabs : Bool := false
  /-- Marks instead of all other characters that cannot be seen. -/
  marks : Bool := false
  /-- Whether several empty lines become one. -/
  squeeze : Bool := false
  deriving DecidableEq, Repr

structure CopyState where
  /-- The number of the last line that has one. -/
  number : Nat := 0
  insideLine : Bool := false
  /-- How many empty lines were passed in a row. -/
  blanks : Nat := 0
  /-- What was copied, the last byte first. -/
  copied : Bytes := []

namespace CopyStyle

def isPlain (style : CopyStyle) : Bool := style = {}

/-- A control character as a mark. -/
def caret (b : UInt8) : Bytes := [94, b ^^^ 64]

def shown (style : CopyStyle) (b : UInt8) : Bytes :=
  if b = 9 then if style.tabs then caret b else [b]
  else if !style.marks then [b]
  else if 128 ≤ b then
    let low := b - 128
    [77, 45] ++ if low < 32 || low = 127 then caret low else [low]
  else if b < 32 || b = 127 then caret b
  else [b]

def addNumber (s : CopyState) : CopyState :=
  let number := s.number + 1
  let digits := Bytes.ofNat number
  { s with
    number := number
    copied := 9 :: digits.reverse ++ List.replicate (6 - digits.length) 32 ++ s.copied }

def step (style : CopyStyle) (s : CopyState) (b : UInt8) : CopyState :=
  if b = Bytes.newline then
    let ending : Bytes := if style.ends then [Bytes.newline, 36] else [Bytes.newline]
    if s.insideLine then { s with insideLine := false, blanks := 0, copied := ending ++ s.copied }
    else
      let s := { s with blanks := s.blanks + 1 }
      if style.squeeze && 2 ≤ s.blanks then s
      else
        let s := if style.numbers && !style.nonblank then addNumber s else s
        { s with copied := ending ++ s.copied }
  else
    let s := if style.numbers && !s.insideLine then addNumber s else s
    { s with insideLine := true, blanks := 0, copied := (style.shown b).reverse ++ s.copied }

def apply (style : CopyStyle) (s : CopyState) (data : Bytes) : CopyState :=
  data.foldl style.step { s with copied := [] }

end CopyStyle

/-- How copies are written: nothing is held back. -/
def atOnce : Writing := { block? := none }

def copyEach (style : CopyStyle) (name : Bytes) (s : CopyState) : List Bytes → Program UInt8
  | [] => pure 0
  | operand :: rest => do
    let failed (reason : Errno) : Program (CopyState × UInt8) := do
      complainAbout name (quotedIfNeeded operand) reason
      pure (s, 1)
    let (s, code) ← withSource operand failed fun fd => do
      if ← feedsItself fd then
        complain name (quotedIfNeeded operand ++ Bytes.ofString ": input file is output file")
        pure (s, 1)
      else if style.isPlain then
        filterSource name (fun seen _ => { output := seen }) failed (fun _ => pure (s, 0)) atOnce fd
      else
        let yield (seen : Bytes) (_ : Bool) : Yield :=
          { output := (style.apply s seen).copied.reverse }
        filterSource name yield failed (fun t => pure (style.apply s t.seen, 0)) atOnce fd
    let others ← copyEach style name s rest
    pure (max code others)

/-- Copies its operands to the output. -/
def copy : Tool :=
  let usage : Usage :=
    { plain := "AbeEnstTuv"
      words := [("show-all", 'A'), ("number-nonblank", 'b'), ("show-ends", 'E'), ("number", 'n'),
        ("squeeze-blank", 's'), ("show-tabs", 'T'), ("show-nonprinting", 'v')] }
  withArguments usage fun name a =>
    let style : CopyStyle :=
      { numbers := a.has 'n' || a.has 'b', nonblank := a.has 'b'
        ends := a.has 'A' || a.has 'e' || a.has 'E', tabs := a.has 'A' || a.has 't' || a.has 'T'
        marks := a.has 'A' || a.has 'e' || a.has 't' || a.has 'v', squeeze := a.has 's' }
    copyEach style name {} (sources a.operands)

/-! ### To several places -/

structure CopyTarget where
  label : Bytes
  fd : Fd

/-- Opens files to be written, and says so if that fails. -/
def openTargets (name : Bytes) (access : Access) : List Bytes → Program (List CopyTarget × Bool)
  | [] => pure ([], true)
  | operand :: rest => do
    match ← Program.ask (.openFile operand access) with
    | .ok fd =>
      let (others, fine) ← openTargets name access rest
      pure (⟨quotedIfNeeded operand, fd⟩ :: others, fine)
    | .error reason =>
      complainAbout name (quotedIfNeeded operand) reason
      let (others, _) ← openTargets name access rest
      pure (others, false)

/-- Writes the same to several targets, and gives those that are left. One that nobody reads is
given up without a word. -/
def putEach (name data : Bytes) : List CopyTarget → Program (List CopyTarget × Bool)
  | [] => pure ([], true)
  | target :: rest => do
    match ← Program.ask (.write target.fd data) with
    | .ok () =>
      let (left, fine) ← putEach name data rest
      pure (target :: left, fine)
    | .error .brokenPipe => putEach name data rest
    | .error reason =>
      complainAbout name target.label reason
      let (left, _) ← putEach name data rest
      pure (left, false)

/-- More blocks than anybody reads. -/
def blockBound : Nat := Nat.pow 2 62

def copyBlock : Nat := 8192

/-- Copies the input block by block, as long as there is a target left. -/
def copyBlocks (name : Bytes) : Nat → Bool → List CopyTarget → Program UInt8
  | 0, _, _ => pure 1
  | _, fine, [] => pure (if fine then 0 else 1)
  | blocks + 1, fine, targets => do
    let t ← Program.readSome Fd.input copyBlock
    match t.halt with
    | .cannotRead reason =>
      complainAbout name (Bytes.ofString "read error") reason
      pure 1
    | _ =>
      if t.seen = [] then pure (if fine then 0 else 1)
      else
        let (left, allFine) ← putEach name t.seen targets
        copyBlocks name blocks (fine && allFine) left

/-- Copies its input to the output and to files. -/
def copyToAll : Tool :=
  withArguments { plain := "aip", words := [("append", 'a'), ("ignore-interrupts", 'i')] }
    fun name a => do
    let access : Access := if a.has 'a' then .append 0o666 else .replace 0o666
    let (targets, fine) ← openTargets name access a.operands
    copyBlocks name blockBound fine (⟨Bytes.ofString "'standard output'", Fd.output⟩ :: targets)

end PipeShell.Tool
