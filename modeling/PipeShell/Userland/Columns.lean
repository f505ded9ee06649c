import PipeShell.Userland.Tool

/-!
Cutting columns out of lines: bytes by their places, or fields between separators.
-/

set_option autoImplicit false
set_option relaxedAutoImplicit false

namespace PipeShell.Tool

/-- A range of columns, which count from 1. -/
structure ColumnRange where
  first : Nat
  last? : Option Nat
  deriving DecidableEq, Repr

inductive ColumnFault
  | zero
  | decreasing
  | endless
  | malformed
  | notNumber (text : Bytes)
  deriving DecidableEq, Repr

/-- What is said about a wrong range of fields or of other columns. -/
def ColumnFault.message (fields : Bool) : ColumnFault → Bytes
  | zero =>
    Bytes.ofString (if fields then "fields are numbered from 1"
      else "byte/character positions are numbered from 1")
  | decreasing => Bytes.ofString "invalid decreasing range"
  | endless => Bytes.ofString "invalid range with no endpoint: -"
  | malformed =>
    Bytes.ofString (if fields then "invalid field range" else "invalid byte or character range")
  | notNumber text =>
    Bytes.ofString
      (if fields then "invalid field value " else "invalid byte/character position ") ++ quoted text

namespace ColumnRange

def holds (r : ColumnRange) (k : Nat) : Bool :=
  r.first ≤ k && match r.last? with
    | none => true
    | some last => k ≤ last

def readColumn (text : Bytes) : Except ColumnFault Nat :=
  match number? text with
  | none => .error (.notNumber text)
  | some 0 => .error .zero
  | some n => .ok n

def read (text : Bytes) : Except ColumnFault ColumnRange := do
  match Bytes.splitAt 45 text with
  | [[]] => .error .zero
  | [one] =>
    let n ← readColumn one
    .ok ⟨n, some n⟩
  | [[], []] => .error .endless
  | [[], last] => return ⟨1, some (← readColumn last)⟩
  | [first, []] => return ⟨← readColumn first, none⟩
  | [first, last] =>
    let first ← readColumn first
    let last ← readColumn last
    if last < first then .error .decreasing else .ok ⟨first, some last⟩
  | _ => .error .malformed

/-- Reads several ranges, with commas or blanks between them. -/
def readAll (text : Bytes) : Except ColumnFault (List ColumnRange) :=
  (Bytes.splitAt 44 (text.map fun b => if b = 32 || b = 9 then 44 else b)).mapM read

end ColumnRange

/-- Which columns are wanted, and how they are shown. -/
structure ColumnWish where
  ranges : List ColumnRange
  /-- Whether the other columns are wanted. -/
  negated : Bool := false
  /-- What separates fields; without it columns are bytes. -/
  separator? : Option UInt8 := none
  /-- Whether lines without a separator are left out. -/
  required : Bool := false
  /-- What stands between the wanted columns. -/
  joint? : Option Bytes := none

namespace ColumnWish

def wants (w : ColumnWish) (k : Nat) : Bool := w.ranges.any (·.holds k) != w.negated

/-- The wanted ones of some columns, with their numbers. -/
def pick {β : Type} (w : ColumnWish) (items : List β) : List (β × Nat) :=
  (items.zipIdx 1).filter fun item => w.wants item.2

/-- Whether a new range begins with a column, so that it stands apart from the one in front of
it. -/
def begins (w : ColumnWish) (k : Nat) : Bool :=
  !w.wants (k - 1) || w.ranges.any (·.first = k)

/-- Wanted bytes, with the joint in front of each range but the first. -/
def joinBytes (w : ColumnWish) (joint : Bytes) : List (UInt8 × Nat) → Bytes
  | [] => []
  | (b, _) :: rest => b :: rest.flatMap fun (b, k) => if w.begins k then joint ++ [b] else [b]

/-- What is shown of a line, if anything. -/
def cutLine (w : ColumnWish) (line : Bytes) : Option Bytes :=
  match w.separator? with
  | none =>
    some (match w.joint? with
      | none => (w.pick line).map (·.1)
      | some joint => w.joinBytes joint (w.pick line))
  | some separator =>
    if separator ∈ line then
      some ((w.joint?.getD [separator]).intercalate
        ((w.pick (Bytes.splitAt separator line)).map (·.1)))
    else if w.required then none else some line

def cut (w : ColumnWish) (data : Bytes) : Bytes := unlines ((lines data).filterMap w.cutLine)

def ofArguments (a : Arguments) : Except Bytes ColumnWish :=
  match a.options.filter fun o => o.1 = 'b' || o.1 = 'c' || o.1 = 'f' with
  | [] => .error (Bytes.ofString "you must specify a list of bytes, characters, or fields")
  | _ :: _ :: _ => .error (Bytes.ofString "only one list may be specified")
  | [(kind, value)] =>
    let fields : Bool := kind = 'f'
    let separator := (a.value? 'd').getD [9]
    if (a.value? 'd').isSome && 1 < separator.length then
      .error (Bytes.ofString "the delimiter must be a single character")
    else if (a.value? 'd').isSome && !fields then
      .error (Bytes.ofString "an input delimiter may be specified only when operating on fields")
    else if a.has 's' && !fields then
      .error (Bytes.ofString
        "suppressing non-delimited lines makes sense\n\tonly when operating on fields")
    else match ColumnRange.readAll value with
      | .error fault => .error (fault.message fields)
      | .ok ranges =>
        .ok { ranges := ranges, negated := a.has 'κ'
              separator? := if fields then some (separator.headD 0) else none
              required := a.has 's', joint? := a.value? 'ω' }

end ColumnWish

/-- Copies columns of lines. -/
def columns : Tool :=
  let usage : Usage :=
    { plain := "snκ", valued := "bcfdω"
      words := [("bytes", 'b'), ("characters", 'c'), ("fields", 'f'), ("delimiter", 'd'),
        ("only-delimited", 's'), ("output-delimiter", 'ω'), ("complement", 'κ')] }
  withArguments usage fun name a =>
    match ColumnWish.ofArguments a with
    | .error message => misused name message 1
    | .ok w => each w name (sources a.operands)
where
  each (w : ColumnWish) (name : Bytes) : List Bytes → Program UInt8
    | [] => pure 0
    | operand :: rest => do
      let failed (reason : Errno) : Program UInt8 := do
        complainAbout name (quotedIfNeeded operand) reason
        pure 1
      let code ← withSource operand failed fun fd =>
        filterInput name (lineYield w.cut) failed { patient := true } fd
      let others ← each w name rest
      pure (max code others)

end PipeShell.Tool
