import PipeShell.Text.Bytes

/-!
The characters of ASCII as bytes. Their UTF-8 forms are single bytes below 128, and no other form
begins with such a byte, so that bytes that begin as an ASCII text does come from the characters of
that text.
-/

set_option autoImplicit false
set_option relaxedAutoImplicit false

namespace PipeShell.Bytes

def Ascii (c : Char) : Prop := c.toNat < 128

instance (c : Char) : Decidable (Ascii c) := inferInstanceAs (Decidable (_ < _))

theorem encode_of_ascii {c : Char} (h : Ascii c) :
    String.utf8EncodeChar c = [UInt8.ofNat c.toNat] :=
  if_pos (Nat.le_of_lt_succ h)

private theorem toNat_ofNat {n : Nat} (h : n < 256) : (UInt8.ofNat n).toNat = n := by
  rw [UInt8.toNat_ofNat', Nat.mod_eq_of_lt h]

private theorem le_ofNat {n : Nat} (hlow : 128 ≤ n) (hhigh : n < 256) : 128 ≤ UInt8.ofNat n := by
  rw [UInt8.le_iff_toNat_le, toNat_ofNat hhigh]
  exact hlow

theorem head_of_not_ascii {c : Char} (h : ¬Ascii c) :
    ∃ b rest, String.utf8EncodeChar c = b :: rest ∧ 128 ≤ b := by
  have hgt : ¬c.val.toNat ≤ 127 := fun hle => h (Nat.lt_succ_of_le hle)
  unfold String.utf8EncodeChar
  simp only [if_neg hgt]
  split
  · exact ⟨_, _, rfl, le_ofNat (by omega) (by omega)⟩
  · split
    · exact ⟨_, _, rfl, le_ofNat (by omega) (by omega)⟩
    · exact ⟨_, _, rfl, le_ofNat (by omega) (by omega)⟩

theorem ofNat_lt_of_ascii {c : Char} (h : Ascii c) : UInt8.ofNat c.toNat < 128 := by
  have hlt : c.toNat < 128 := h
  rw [UInt8.lt_iff_toNat_lt, toNat_ofNat (by omega)]
  exact hlt

theorem eq_of_ascii {c d : Char} (hc : Ascii c) (hd : Ascii d)
    (h : UInt8.ofNat c.toNat = UInt8.ofNat d.toNat) : c = d := by
  have hlt : c.toNat < 128 := hc
  have hlt' : d.toNat < 128 := hd
  have hnat := congrArg UInt8.toNat h
  rw [toNat_ofNat (by omega), toNat_ofNat (by omega)] at hnat
  exact Char.toNat_inj.mp hnat

theorem ofString_ofList (text : List Char) :
    ofString (String.ofList text) = text.flatMap String.utf8EncodeChar := by
  simp [ofString]

theorem ofString_eq_append (line : String) (n : Nat) :
    ofString line = ofString (String.ofList (line.toList.take n)) ++
      ofString (String.ofList (line.toList.drop n)) := by
  rw [ofString_ofList, ofString_ofList, ← List.flatMap_append, List.take_append_drop]
  rfl

theorem length_le_ofString (line : String) : line.toList.length ≤ (ofString line).length := by
  unfold ofString
  induction line.toList with
  | nil => exact Nat.le_refl 0
  | cons c text ih =>
    have hpos := c.utf8Size_pos
    rw [List.flatMap_cons, List.length_append, String.length_utf8EncodeChar, List.length_cons]
    omega

section

variable {text : List Char} (h : ∀ c ∈ text, Ascii c)

include h

theorem ofString_of_ascii :
    ofString (String.ofList text) = text.map fun c => UInt8.ofNat c.toNat := by
  rw [ofString_ofList]
  induction text with
  | nil => rfl
  | cons c text ih =>
    rw [List.flatMap_cons, encode_of_ascii (h c (by simp)),
      ih fun d hd => h d (List.mem_cons_of_mem c hd)]
    rfl

theorem length_ofString_of_ascii : (ofString (String.ofList text)).length = text.length := by
  rw [ofString_of_ascii h, List.length_map]

theorem lt_of_mem_ofString_of_ascii : ∀ b ∈ ofString (String.ofList text), b < 128 := by
  rw [ofString_of_ascii h]
  intro b hb
  obtain ⟨c, hc, rfl⟩ := List.mem_map.mp hb
  exact ofNat_lt_of_ascii (h c hc)

theorem take_of_prefix_ascii {line : List Char} {n : Nat}
    (hn : n ≤ (ofString (String.ofList line)).length)
    (hpre : (ofString (String.ofList line)).take n <+: ofString (String.ofList text)) :
    n ≤ line.length ∧ line.take n <+: text := by
  rw [ofString_ofList] at hn hpre
  rw [ofString_of_ascii h] at hpre
  induction n generalizing line text with
  | zero => exact ⟨Nat.zero_le _, by simp⟩
  | succ n ih =>
    cases line with
    | nil => simp at hn
    | cons c line =>
      have hascii : Ascii c := by
        refine Decidable.byContradiction fun hno => ?_
        obtain ⟨b, rest, heq, hb⟩ := head_of_not_ascii hno
        rw [List.flatMap_cons, heq, List.cons_append, List.take_succ_cons] at hpre
        obtain ⟨d, hd, rfl⟩ := List.mem_map.mp (hpre.subset List.mem_cons_self)
        exact absurd (ofNat_lt_of_ascii (h d hd)) (UInt8.not_lt.mpr hb)
      rw [List.flatMap_cons, encode_of_ascii hascii, List.singleton_append] at hn hpre
      rw [List.take_succ_cons] at hpre
      cases text with
      | nil => exact absurd (List.eq_nil_of_prefix_nil hpre) (by simp)
      | cons d text =>
        rw [List.map_cons, List.cons_prefix_cons] at hpre
        obtain rfl := eq_of_ascii hascii (h d (by simp)) hpre.1
        obtain ⟨hle, hrest⟩ := ih (fun x hx => h x (List.mem_cons_of_mem _ hx))
          (Nat.le_of_succ_le_succ (by simpa using hn)) hpre.2
        exact ⟨by simpa using hle,
          by rw [List.take_succ_cons, List.cons_prefix_cons]; exact ⟨rfl, hrest⟩⟩

end

theorem take_ofString_of_ascii {line : String} {n : Nat} (hn : n ≤ line.toList.length)
    (h : ∀ c ∈ line.toList.take n, Ascii c) :
    n ≤ (ofString line).length ∧
    ofString (String.ofList (line.toList.take n)) = (ofString line).take n := by
  have hlength := length_ofString_of_ascii h
  rw [List.length_take, Nat.min_eq_left hn] at hlength
  have hsplit := ofString_eq_append line n
  constructor
  · rw [hsplit, List.length_append]
    omega
  · rw [hsplit, List.take_left' hlength]

end PipeShell.Bytes
