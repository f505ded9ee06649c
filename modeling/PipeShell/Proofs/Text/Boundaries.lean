import PipeShell.Proofs.Text.Decoding

/-!
Texts at the level of bytes. An index behind a beginning of a text is a boundary of characters, and
between two such indices there is a text. A byte that is taken for the character with its number
shows whether a character of ASCII is there.
-/

set_option autoImplicit false
set_option relaxedAutoImplicit false

namespace PipeShell.Utf8

open Bytes (Ascii)

/-! ### Indices -/

/-- The text between two indices. There is none if an index is not the boundary of a character, or
if they are not in order. -/
def textBetween? (line : String) (start stop : Nat) : Option String :=
  if h : String.Pos.Raw.IsValid line ⟨start⟩ ∧ String.Pos.Raw.IsValid line ⟨stop⟩ then
    (line.slice? (line.pos ⟨start⟩ h.1) (line.pos ⟨stop⟩ h.2)).map String.Slice.copy
  else none

theorem length_ofString (line : String) : (Bytes.ofString line).length = line.utf8ByteSize := by
  rw [← String.size_toByteArray, ← String.utf8Encode_toList]
  exact List.size_toByteArray.symm

theorem rawEndPos_ofList (text : List Char) :
    (String.ofList text).rawEndPos = ⟨(Bytes.ofString (String.ofList text)).length⟩ := by
  rw [length_ofString]
  rfl

section

variable {line : String} {before text after : List Char}

theorem isValid_of_split (h : line.toList = before ++ after) :
    String.Pos.Raw.IsValid line ⟨(Bytes.ofString (String.ofList before)).length⟩ := by
  refine String.Pos.Raw.isValid_iff_exists_append.mpr
    ⟨String.ofList before, String.ofList after, ?_, ?_⟩
  · rw [← String.ofList_append, ← h, String.ofList_toList]
  · rw [rawEndPos_ofList]

theorem textBetween?_of_split (h : line.toList = before ++ text ++ after) :
    textBetween? line (Bytes.ofString (String.ofList before)).length
      (Bytes.ofString (String.ofList (before ++ text))).length = some (String.ofList text) := by
  have hstart := isValid_of_split (h.trans (List.append_assoc before text after))
  have hstop := isValid_of_split h
  have hline : line = String.ofList before ++ (String.ofList text ++ String.ofList after) := by
    rw [← String.ofList_append, ← String.ofList_append, ← List.append_assoc, ← h,
      String.ofList_toList]
  obtain ⟨hle, hcopy⟩ := String.copy_slice_eq_iff_splits.mpr
    ⟨String.ofList before, String.ofList after,
      String.Pos.Splits.mk (p := line.pos _ hstart) hline (rawEndPos_ofList before).symm,
      String.Pos.Splits.mk (p := line.pos _ hstop) (by rw [hline, String.append_assoc])
        (by rw [← String.ofList_append]; exact (rawEndPos_ofList _).symm)⟩
  rw [textBetween?, dif_pos ⟨hstart, hstop⟩, String.slice?, dif_pos hle, Option.map_some, hcopy]

end

/-! ### Bytes taken for characters -/

/-- The characters with the numbers of the bytes of a text. -/
def byteCharacters (text : List Char) : List Char :=
  (Bytes.ofString (String.ofList text)).map character

def AsciiOnly (p : Char → Bool) : Prop := ∀ c, p c = true → Ascii c

theorem character_of_ascii {c : Char} (h : Ascii c) : character (UInt8.ofNat c.toNat) = c := by
  have hlt : c.toNat < 128 := h
  unfold character
  rw [UInt8.toNat_ofNat', Nat.mod_eq_of_lt (by omega), Char.ofNat_toNat]

theorem not_ascii_character {b : UInt8} (h : 128 ≤ b) : ¬Ascii (character b) := by
  have hge : 128 ≤ b.toNat := UInt8.le_iff_toNat_le.mp h
  have hlt : b.toNat < 256 := b.toNat_lt
  have hnat : (character b).toNat = b.toNat := toNat_ofNat (.inl (by omega))
  unfold Ascii
  omega

theorem byteCharacters_of_ascii {c : Char} (h : Ascii c) (text : List Char) :
    byteCharacters (c :: text) = c :: byteCharacters text := by
  unfold byteCharacters
  rw [Bytes.ofString_ofList, Bytes.ofString_ofList, List.flatMap_cons, Bytes.encode_of_ascii h,
    List.singleton_append, List.map_cons, character_of_ascii h]

theorem byteCharacters_of_not_ascii {c : Char} (h : ¬Ascii c) (text : List Char) :
    ∃ d more, byteCharacters (c :: text) = d :: more ∧ ¬Ascii d := by
  obtain ⟨b, more, heq, hb⟩ := Bytes.head_of_not_ascii h
  unfold byteCharacters
  rw [Bytes.ofString_ofList, List.flatMap_cons, heq]
  exact ⟨character b, _, rfl, not_ascii_character hb⟩

theorem head_byteCharacters (text : List Char) : (byteCharacters text).head? = text.head? ∨
    (∀ d ∈ (byteCharacters text).head?, ¬Ascii d) ∧ ∀ c ∈ text.head?, ¬Ascii c := by
  cases text with
  | nil => exact .inl rfl
  | cons c text =>
    by_cases hc : Ascii c
    · rw [byteCharacters_of_ascii hc]
      exact .inl rfl
    · obtain ⟨d, more, heq, hd⟩ := byteCharacters_of_not_ascii hc text
      rw [heq]
      exact .inr ⟨fun a ha => Option.some.inj ha ▸ hd, fun a ha => Option.some.inj ha ▸ hc⟩

theorem any_head_byteCharacters {p : Char → Bool} (hp : AsciiOnly p) (text : List Char) :
    (byteCharacters text).head?.any p = text.head?.any p := by
  have hfalse {o : Option Char} (ho : ∀ c ∈ o, ¬Ascii c) : o.any p = false := by
    cases o with
    | none => rfl
    | some c => exact Bool.eq_false_iff.mpr fun hc => ho c rfl (hp c hc)
  rcases head_byteCharacters text with h | ⟨hbyte, hchar⟩
  · rw [h]
  · rw [hfalse hbyte, hfalse hchar]

theorem head_byteCharacters_iff {mark : Char} (hmark : Ascii mark) (text : List Char) :
    (byteCharacters text).head? = some mark ↔ text.head? = some mark := by
  rcases head_byteCharacters text with h | ⟨hbyte, hchar⟩
  · rw [h]
  · exact iff_of_false (fun h => hbyte mark h hmark) fun h => hchar mark h hmark

theorem keyword_byteCharacters {p : Char → Bool} (hp : AsciiOnly p) {word : List Char}
    (hword : ∀ c ∈ word, Ascii c) (text : List Char) :
    (word.isPrefixOf (byteCharacters text) &&
      !(((byteCharacters text).drop word.length).head?.any p)) =
      (word.isPrefixOf text && !((text.drop word.length).head?.any p)) := by
  induction word generalizing text with
  | nil => simp [any_head_byteCharacters hp]
  | cons w word ih =>
    have hw : Ascii w := hword w List.mem_cons_self
    cases text with
    | nil => rfl
    | cons c text =>
      by_cases hc : Ascii c
      · rw [byteCharacters_of_ascii hc]
        have htail := ih (fun d hd => hword d (List.mem_cons_of_mem w hd)) text
        simp only [List.isPrefixOf_cons_cons, List.length_cons, List.drop_succ_cons,
          Bool.and_assoc, htail]
      · obtain ⟨d, more, heq, hd⟩ := byteCharacters_of_not_ascii hc text
        have hwc : (w == c) = false := beq_false_of_ne fun he => hc (he ▸ hw)
        have hwd : (w == d) = false := beq_false_of_ne fun he => hd (he ▸ hw)
        simp only [heq, List.isPrefixOf_cons_cons, hwc, hwd, Bool.false_and]

end PipeShell.Utf8
