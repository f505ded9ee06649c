import PipeShell.Text.Bytes

/-!
Reading UTF-8. A byte string is read character by character; where it is not well formed, the
longest beginning of a character that stands there counts as one mistake. The lossy reading writes
the replacement character for each mistake, the strict one refuses.
-/

set_option autoImplicit false
set_option relaxedAutoImplicit false

namespace PipeShell.Utf8

/-- What a leading byte announces: how many bytes follow it, and the range of the first of them. -/
structure Lead where
  follow : Nat
  low : UInt8
  high : UInt8
  bits : Nat

/-- The leading bytes of characters outside ASCII. Shorter second ranges keep out overlong forms,
surrogates and what lies above the last character. -/
def lead? (b : UInt8) : Option Lead :=
  if b < 0xC2 then none
  else if b ≤ 0xDF then some ⟨1, 0x80, 0xBF, b.toNat - 0xC0⟩
  else if b = 0xE0 then some ⟨2, 0xA0, 0xBF, 0⟩
  else if b = 0xED then some ⟨2, 0x80, 0x9F, 13⟩
  else if b ≤ 0xEF then some ⟨2, 0x80, 0xBF, b.toNat - 0xE0⟩
  else if b = 0xF0 then some ⟨3, 0x90, 0xBF, 0⟩
  else if b ≤ 0xF3 then some ⟨3, 0x80, 0xBF, b.toNat - 0xF0⟩
  else if b = 0xF4 then some ⟨3, 0x80, 0x8F, 4⟩
  else none

/-- The bytes that continue a character: at most `n`, the first between `low` and `high`. -/
def continuation (n : Nat) (low high : UInt8) : Bytes → Bytes
  | [] => []
  | b :: rest =>
    match n with
    | 0 => []
    | n + 1 => if low ≤ b && b ≤ high then b :: continuation n 0x80 0xBF rest else []

/-- The character with the given leading bits and continuation bytes. -/
def scalar (bits : Nat) (follow : Bytes) : Char :=
  Char.ofNat (follow.foldl (fun value b => value * 64 + (b.toNat - 0x80)) bits)

/-- One item of a byte string: a character or a mistake, with the number of bytes behind the first
that belong to it. -/
structure Item where
  char? : Option Char
  follow : Nat

/-- The item that begins with the given byte. -/
def item (b : UInt8) (rest : Bytes) : Item :=
  if b < 0x80 then ⟨some (Char.ofNat b.toNat), 0⟩
  else match lead? b with
    | none => ⟨none, 0⟩
    | some l =>
      let follow := continuation l.follow l.low l.high rest
      -- What was read in vain belongs to the mistake; the byte that did not fit begins the next
      -- item.
      if follow.length = l.follow then ⟨some (scalar l.bits follow), follow.length⟩
      else ⟨none, follow.length⟩

/-- All items of a byte string, a mistake being `none`. -/
def items : Bytes → List (Option Char)
  | [] => []
  | b :: rest => (item b rest).char? :: items (rest.drop (item b rest).follow)
termination_by s => s.length

/-- The replacement character, which stands for a mistake. -/
def replacement : Char := Char.ofNat 0xFFFD

/-- The lossy reading. -/
def decodeLossy (s : Bytes) : List Char := (items s).map (·.getD replacement)

/-- The strict reading. -/
def decode? (s : Bytes) : Option String := ((items s).mapM id).map String.ofList

end PipeShell.Utf8
