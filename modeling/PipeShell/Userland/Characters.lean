import PipeShell.Userland.Escape

/-!
Exchanging, removing and squeezing single characters. Which ones, is said by sets: single
characters, ranges and named classes.
-/

set_option autoImplicit false
set_option relaxedAutoImplicit false

namespace PipeShell.Tool

/-- Characters in some order; some may stand there more than once. -/
abbrev CharacterSet := List Char

namespace CharacterSet

def all : CharacterSet := (List.range 256).map Char.ofNat

def ofClass? (name : List Char) : Option CharacterSet :=
  match String.ofList name with
  | "lower" => some (all.filter Char.isLower)
  | "upper" => some (all.filter Char.isUpper)
  | "alpha" => some (all.filter Char.isAlpha)
  | "digit" => some (all.filter Char.isDigit)
  | "alnum" => some (all.filter Char.isAlphanum)
  | "space" => some ['\t', '\n', '\x0b', '\x0c', '\r', ' ']
  | "blank" => some ['\t', ' ']
  | "print" => some (all.filter isPrintable)
  | "graph" => some (all.filter fun c => isPrintable c && c ≠ ' ')
  | "punct" => some (all.filter fun c => isPrintable c && c ≠ ' ' && !c.isAlphanum)
  | "cntrl" => some (all.filter fun c => c.toNat < 32 || c.toNat = 127)
  | "xdigit" => some (all.filter fun c => c.isDigit || c ∈ "ABCDEFabcdef".toList)
  | _ => none

/-- One character of a set, which may be escaped, and what follows it. -/
def character? : List Char → Option (Char × List Char)
  | [] => none
  | '\\' :: c :: rest =>
    if isOctal c then
      let digits := (c :: rest).take 3 |>.takeWhile isOctal
      some (ofOctal digits, (c :: rest).drop digits.length)
    else some ((escaped? c).getD c, rest)
  | c :: rest => some (c, rest)

/-- Reads a set, or says what is wrong with it. The first argument is more than the length of the
text. -/
def readFrom : Nat → List Char → Except Bytes CharacterSet
  | 0, _ => .ok []
  | _ + 1, [] => .ok []
  | fuel + 1, '[' :: ':' :: rest =>
    let name := rest.takeWhile (· ≠ ':')
    match rest.drop name.length with
    | ':' :: ']' :: rest =>
      match ofClass? name with
      | none => .error (Bytes.ofString "invalid character class " ++ quoted (ofChars name))
      | some set => (readFrom fuel rest).map (set ++ ·)
    | _ => (readFrom fuel (':' :: rest)).map ('[' :: ·)
  | fuel + 1, text =>
    match character? text with
    | none => .ok []
    | some (low, '-' :: rest) =>
      match character? rest with
      | none => .ok [low, '-']
      | some (high, behind) =>
        if high.toNat < low.toNat then
          .error (Bytes.ofString "range-endpoints of '" ++ ofChars [low, '-', high] ++
            Bytes.ofString "' are in reverse collating sequence order")
        else
          (readFrom fuel behind).map ((List.range (high.toNat + 1 - low.toNat)).map
            (fun k => Char.ofNat (low.toNat + k)) ++ ·)
    | some (c, rest) => (readFrom fuel rest).map (c :: ·)

def read (text : Bytes) : Except Bytes CharacterSet := readFrom (text.length + 1) (chars text)

def complement (set : CharacterSet) : CharacterSet := all.filter (· ∉ set)

end CharacterSet

/-- Keeps one of each run of equal characters from a set. -/
def squeeze (set : CharacterSet) (text : List Char) : List Char :=
  (text.foldl (fun kept c => if kept.head? = some c && c ∈ set then kept else c :: kept) []).reverse

/-- What becomes of a character when one set is exchanged for another one. A set that is too short
is continued with its last character. -/
def exchange (source target : CharacterSet) (c : Char) : Char :=
  match source.reverse.idxOf? c with
  | none => c
  | some back =>
    let k := source.length - 1 - back
    (target[k]?).getD ((target.getLast?).getD c)

def charMap (f : Char → Char) : List Char → List Char :=
  let table := (CharacterSet.all.map f).toArray
  fun text => text.map fun c => table.getD c.toNat c

/-- What is done to a text by the options and the two sets. Without an option, the second set takes
the place of the first. -/
def replacement (a : Arguments) (first : CharacterSet) (second? : Option CharacterSet) :
    Except Bytes (List Char → List Char) :=
  match a.has 'd', a.has 's', second? with
  | true, true, some second => .ok fun text => squeeze second (text.filter (· ∉ first))
  | true, _, _ => .ok (·.filter (· ∉ first))
  | false, true, none => .ok (squeeze first)
  | false, squeezes, second? =>
    let second := second?.getD []
    if second = [] && first ≠ [] && !a.has 't' then
      .error (Bytes.ofString "when not truncating set1, string2 must be non-empty")
    else
      let replaced :=
        charMap (exchange (if a.has 't' then first.take second.length else first) second)
      .ok fun text => if squeezes then squeeze second (replaced text) else replaced text

/-- What is wrong with the number of sets, in lines. -/
def wrongSets (a : Arguments) : Option (List Bytes) :=
  match a.has 'd', a.has 's', a.operands with
  | _, _, [] => some [Bytes.ofString "missing operand"]
  | false, false, [set] =>
    some [Bytes.ofString "missing operand after " ++ quoted set,
      Bytes.ofString "Two strings must be given when translating."]
  | true, true, [set] =>
    some [Bytes.ofString "missing operand after " ++ quoted set,
      Bytes.ofString "Two strings must be given when both deleting and squeezing repeats."]
  | true, false, [_, extra] =>
    some [Bytes.ofString "extra operand " ++ quoted extra,
      Bytes.ofString "Only one string may be given when deleting without squeezing repeats."]
  | true, false, _ :: extra :: _
    | _, _, _ :: _ :: extra :: _ => some [Bytes.ofString "extra operand " ++ quoted extra]
  | _, _, _ => none

/-- Exchanges, removes or squeezes characters of its input. -/
def replaceCharacters : Tool :=
  let usage : Usage :=
    { plain := "cCdst"
      words := [("complement", 'c'), ("delete", 'd'), ("squeeze-repeats", 's'),
        ("truncate-set1", 't')] }
  withArguments usage fun name a => do
    match wrongSets a, a.operands.mapM CharacterSet.read with
    | some [], _ => pure 1
    | some (first :: explanations), _ => do
      complain name first
      Program.put Fd.complaints (unlines explanations)
      pointToHelp name
      pure 1
    | none, .error message => do
      complain name message
      pure 1
    | none, .ok sets =>
      let first := sets.headD []
      let first := if a.has 'c' || a.has 'C' then first.complement else first
      match replacement a first sets[1]? with
      | .error message => do
        complain name message
        pure 1
      | .ok f =>
        filterInput name (fun seen _ => { output := ofChars (f (chars seen)) }) fun reason => do
          complainAbout name (Bytes.ofString "read error") reason
          pure 1

end PipeShell.Tool
