import Mathlib.Data.List.TakeWhile
import PipeShell.Proofs.Text.Ascii
import PipeShell.Text.Utf8

/-!
The lossy reading of bytes. Bytes of ASCII stand for themselves, and a character outside ASCII is
read only where its own UTF-8 form stands, so that nothing but ASCII is ever read as ASCII. Texts
are read as what they are.
-/

set_option autoImplicit false
set_option relaxedAutoImplicit false

namespace PipeShell.Utf8

open Bytes (Ascii)

def character (b : UInt8) : Char := Char.ofNat b.toNat

theorem toNat_ofNat {n : Nat} (h : n.isValidChar) : (Char.ofNat n).val.toNat = n := by
  unfold Char.ofNat
  rw [dif_pos h]
  rfl

theorem ascii_character {b : UInt8} (h : b < 0x80) : Ascii (character b) := by
  have hlt : b.toNat < 128 := UInt8.lt_iff_toNat_lt.mp h
  show (Char.ofNat b.toNat).val.toNat < 128
  rwa [toNat_ofNat (.inl (by omega))]

theorem ofNat_character {b : UInt8} (h : b < 0x80) : UInt8.ofNat (character b).toNat = b := by
  have hlt : b.toNat < 128 := UInt8.lt_iff_toNat_lt.mp h
  have hnat : (character b).toNat = b.toNat := toNat_ofNat (.inl (by omega))
  rw [hnat, UInt8.ofNat_toNat]

theorem ofString_characters {s : Bytes} (h : ∀ b ∈ s, b < 0x80) :
    Bytes.ofString (String.ofList (s.map character)) = s := by
  have hascii : ∀ c ∈ s.map character, Ascii c := by
    intro c hc
    obtain ⟨b, hb, rfl⟩ := List.mem_map.mp hc
    exact ascii_character (h b hb)
  rw [Bytes.ofString_of_ascii hascii, List.map_map]
  have hsame : ∀ b ∈ s, ((fun c => UInt8.ofNat c.toNat) ∘ character) b = id b :=
    fun b hb => ofNat_character (h b hb)
  rw [List.map_congr_left hsame, List.map_id]

/-! ### Leading bytes -/

/-- What a leading byte announces: a row of bytes whose number depends on its range. Some leading
bytes narrow the range of the first of these. -/
inductive Announces (b : UInt8) : Lead → Prop
  | one : 0xC2 ≤ b.toNat → b.toNat ≤ 0xDF → Announces b ⟨1, 0x80, 0xBF, b.toNat - 0xC0⟩
  | two : 0xE0 ≤ b.toNat → b.toNat ≤ 0xEF → Announces b ⟨2, if b.toNat = 0xE0 then 0xA0 else 0x80,
      if b.toNat = 0xED then 0x9F else 0xBF, b.toNat - 0xE0⟩
  | three : 0xF0 ≤ b.toNat → b.toNat ≤ 0xF4 → Announces b ⟨3, if b.toNat = 0xF0 then 0x90 else 0x80,
      if b.toNat = 0xF4 then 0x8F else 0xBF, b.toNat - 0xF0⟩

theorem announces_of_lead? {b : UInt8} {l : Lead} (h : lead? b = some l) : Announces b l := by
  revert h
  fun_cases lead? b with
  | case1 => exact fun h => nomatch h
  | case2 hlow hone =>
    rintro ⟨⟩
    exact .one (Nat.le_of_not_lt hlow) hone
  | case3 _ _ heq =>
    subst heq
    rintro ⟨⟩
    exact .two (by decide) (by decide)
  | case4 _ _ _ heq =>
    subst heq
    rintro ⟨⟩
    exact .two (by decide) (by decide)
  | case5 _ hone hfirst hlast htwo =>
    rintro ⟨⟩
    have hno : b.toNat ≠ 0xE0 ∧ b.toNat ≠ 0xED :=
      ⟨fun heq => hfirst (UInt8.toNat_inj.mp heq), fun heq => hlast (UInt8.toNat_inj.mp heq)⟩
    have hannounces := Announces.two (Nat.lt_of_not_le hone) htwo
    rwa [if_neg hno.1, if_neg hno.2] at hannounces
  | case6 _ _ _ _ _ heq =>
    subst heq
    rintro ⟨⟩
    exact .three (by decide) (by decide)
  | case7 _ _ _ _ htwo hfirst hthree =>
    rintro ⟨⟩
    have hrange : b.toNat ≤ 0xF3 := hthree
    have hno : b.toNat ≠ 0xF0 ∧ b.toNat ≠ 0xF4 :=
      ⟨fun heq => hfirst (UInt8.toNat_inj.mp heq), by omega⟩
    have hannounces := Announces.three (Nat.lt_of_not_le htwo) (by omega)
    rwa [if_neg hno.1, if_neg hno.2] at hannounces
  | case8 _ _ _ _ _ _ _ heq =>
    subst heq
    rintro ⟨⟩
    exact .three (by decide) (by decide)
  | case9 => exact fun h => nomatch h

theorem lead?_of_announces {b : UInt8} {l : Lead} (h : Announces b l) : lead? b = some l := by
  unfold lead?
  simp only [UInt8.lt_iff_toNat_lt, UInt8.le_iff_toNat_le, ← UInt8.toNat_inj (a := b),
    UInt8.reduceToNat]
  cases h with
  | one => grind
  | two => grind
  | three => grind

/-! ### Continuations -/

theorem continuation_cons {n : Nat} {low high c : UInt8} (hlow : low ≤ c)
    (hhigh : c ≤ high) (rest : Bytes) :
    continuation (n + 1) low high (c :: rest) = c :: continuation n 0x80 0xBF rest := by
  have hin : (low ≤ c && c ≤ high) = true := by simp [hlow, hhigh]
  rw [continuation, if_pos hin]

theorem exists_of_continuation {n : Nat} {low high : UInt8} {rest : Bytes}
    (h : (continuation (n + 1) low high rest).length = n + 1) :
    ∃ c more, rest = c :: more ∧ low ≤ c ∧ c ≤ high ∧
      continuation (n + 1) low high rest = c :: continuation n 0x80 0xBF more ∧
      (continuation n 0x80 0xBF more).length = n := by
  cases rest with
  | nil => cases h
  | cons c more =>
    by_cases hin : (low ≤ c && c ≤ high) = true
    · obtain ⟨hlow, hhigh⟩ : low ≤ c ∧ c ≤ high := by simpa using hin
      rw [continuation_cons hlow hhigh] at h ⊢
      exact ⟨c, more, rfl, hlow, hhigh, rfl, Nat.succ.inj h⟩
    · rw [continuation, if_neg hin] at h
      cases h

theorem continuation_zero (low high : UInt8) (rest : Bytes) :
    continuation 0 low high rest = [] := by
  cases rest <;> rfl

/-! ### Characters and their forms -/

theorem encode_ofNat {n : Nat} (h : n.isValidChar) : String.utf8EncodeChar (Char.ofNat n) =
    if n ≤ 127 then [UInt8.ofNat n]
    else if n ≤ 2047 then [UInt8.ofNat (n / 64 % 32 + 192), UInt8.ofNat (n % 64 + 128)]
    else if n ≤ 65535 then
      [UInt8.ofNat (n / 4096 % 16 + 224), UInt8.ofNat (n / 64 % 64 + 128),
        UInt8.ofNat (n % 64 + 128)]
    else [UInt8.ofNat (n / 262144 % 8 + 240), UInt8.ofNat (n / 4096 % 64 + 128),
      UInt8.ofNat (n / 64 % 64 + 128), UInt8.ofNat (n % 64 + 128)] := by
  unfold String.utf8EncodeChar
  rw [toNat_ofNat h]

theorem ofNat_eq {b : UInt8} {n : Nat} (h : n = b.toNat) : UInt8.ofNat n = b := by
  rw [h, UInt8.ofNat_toNat]

theorem encode_scalar {b : UInt8} {l : Lead} (hl : Announces b l) {rest : Bytes}
    (hfull : (continuation l.follow l.low l.high rest).length = l.follow) :
    String.utf8EncodeChar (scalar l.bits (continuation l.follow l.low l.high rest)) =
      b :: rest.take l.follow := by
  cases hl with
  | one hlow hhigh =>
    obtain ⟨c, more, rfl, hc, hc', hrow, -⟩ := exists_of_continuation hfull
    simp only [UInt8.le_iff_toNat_le, UInt8.reduceToNat] at hc hc'
    rw [hrow, continuation_zero]
    simp only [scalar, List.foldl_cons, List.foldl_nil]
    rw [encode_ofNat (.inl (by omega)), if_neg (by omega), if_pos (by omega),
      ofNat_eq (b := b) (by omega), ofNat_eq (b := c) (by omega)]
    rfl
  | two hlow hhigh =>
    obtain ⟨c, more, rfl, hc, hc', hrow, hfull'⟩ := exists_of_continuation hfull
    obtain ⟨d, more, rfl, hd, hd', hrow', -⟩ := exists_of_continuation hfull'
    simp only [UInt8.le_iff_toNat_le, apply_ite UInt8.toNat, UInt8.reduceToNat] at hc hc' hd hd'
    rw [hrow, hrow', continuation_zero]
    simp only [scalar, List.foldl_cons, List.foldl_nil]
    -- narrowed ranges leave out short forms and surrogates
    obtain ⟨n, hn⟩ :
        ∃ n, n = ((b.toNat - 0xE0) * 64 + (c.toNat - 0x80)) * 64 + (d.toNat - 0x80) := ⟨_, rfl⟩
    obtain ⟨hvalid, hlong, hrange, hrange'⟩ : n.isValidChar ∧ 2047 < n ∧ 0x80 ≤ c.toNat ∧
        c.toNat ≤ 0xBF := by
      unfold Nat.isValidChar
      split at hc <;> split at hc' <;> omega
    rw [← hn, encode_ofNat hvalid, if_neg (by omega), if_neg (by omega), if_pos (by omega),
      ofNat_eq (b := b) (by omega), ofNat_eq (b := c) (by omega), ofNat_eq (b := d) (by omega)]
    rfl
  | three hlow hhigh =>
    obtain ⟨c, more, rfl, hc, hc', hrow, hfull'⟩ := exists_of_continuation hfull
    obtain ⟨d, more, rfl, hd, hd', hrow', hfull''⟩ := exists_of_continuation hfull'
    obtain ⟨e, more, rfl, he, he', hrow'', -⟩ := exists_of_continuation hfull''
    simp only [UInt8.le_iff_toNat_le, apply_ite UInt8.toNat, UInt8.reduceToNat]
      at hc hc' hd hd' he he'
    rw [hrow, hrow', hrow'', continuation_zero]
    simp only [scalar, List.foldl_cons, List.foldl_nil]
    obtain ⟨n, hn⟩ : ∃ n, n = (((b.toNat - 0xF0) * 64 + (c.toNat - 0x80)) * 64 + (d.toNat - 0x80)) *
        64 + (e.toNat - 0x80) := ⟨_, rfl⟩
    obtain ⟨hvalid, hlong, hrange, hrange'⟩ : n.isValidChar ∧ 65535 < n ∧ 0x80 ≤ c.toNat ∧
        c.toNat ≤ 0xBF := by
      unfold Nat.isValidChar
      split at hc <;> split at hc' <;> omega
    rw [← hn, encode_ofNat hvalid,
      if_neg (by omega), if_neg (by omega), if_neg (by omega), ofNat_eq (b := b) (by omega),
      ofNat_eq (b := c) (by omega), ofNat_eq (b := d) (by omega), ofNat_eq (b := e) (by omega)]
    rfl

/-! ### Items -/

theorem item_of_ascii {b : UInt8} (h : b < 0x80) (rest : Bytes) :
    item b rest = ⟨some (character b), 0⟩ := if_pos h

theorem item_of_announces {b : UInt8} {l : Lead} (h : Announces b l) {rest : Bytes}
    (hfull : (continuation l.follow l.low l.high rest).length = l.follow) :
    item b rest = ⟨some (scalar l.bits (continuation l.follow l.low l.high rest)), l.follow⟩ := by
  have hleading : ¬b < 0x80 := by
    have hrange : 0xC2 ≤ b.toNat := by cases h <;> omega
    have hbyte : (0x80 : UInt8).toNat = 128 := rfl
    rw [UInt8.lt_iff_toNat_lt]
    omega
  unfold item
  rw [if_neg hleading, lead?_of_announces h]
  dsimp only
  rw [if_pos hfull, hfull]

theorem not_ascii_of_item {b : UInt8} {rest : Bytes} {c : Char} (h : 0x80 ≤ b)
    (hitem : (item b rest).char? = some c) : ¬Ascii c := by
  intro hascii
  unfold item at hitem
  rw [if_neg (UInt8.not_lt.mpr h)] at hitem
  split at hitem
  · cases hitem
  · next l hl =>
    dsimp only at hitem
    split at hitem
    · next hfull =>
      have hform := encode_scalar (announces_of_lead? hl) hfull
      rw [Option.some.inj hitem, Bytes.encode_of_ascii hascii] at hform
      have hbyte := Bytes.ofNat_lt_of_ascii hascii
      rw [(List.cons.inj hform).1] at hbyte
      exact UInt8.not_lt.mpr h hbyte
    · cases hitem

/-! ### The lossy reading -/

theorem decodeLossy_cons (b : UInt8) (rest : Bytes) : decodeLossy (b :: rest) =
    (item b rest).char?.getD replacement :: decodeLossy (rest.drop (item b rest).follow) := by
  rw [decodeLossy, items, List.map_cons]
  rfl

theorem decodeLossy_nil : decodeLossy [] = [] := by
  rw [decodeLossy, items]
  rfl

theorem decodeLossy_append {s : Bytes} (h : ∀ b ∈ s, b < 0x80) (rest : Bytes) :
    decodeLossy (s ++ rest) = s.map character ++ decodeLossy rest := by
  induction s with
  | nil => rfl
  | cons b s ih =>
    rw [List.cons_append, decodeLossy_cons, item_of_ascii (h b List.mem_cons_self)]
    exact congrArg (character b :: ·) (ih fun c hc => h c (List.mem_cons_of_mem b hc))

theorem decodeLossy_of_not_ascii {b : UInt8} (h : 0x80 ≤ b) (rest : Bytes) :
    ∃ c text, decodeLossy (b :: rest) = c :: text ∧ ¬Ascii c := by
  refine ⟨_, _, decodeLossy_cons b rest, ?_⟩
  cases hitem : (item b rest).char? with
  | none =>
    rw [Option.getD_none]
    decide
  | some c => exact not_ascii_of_item h hitem

def asciiFront (s : Bytes) : Bytes := s.takeWhile (· < 0x80)

theorem lt_of_mem_asciiFront {s : Bytes} : ∀ b ∈ asciiFront s, b < 0x80 := by
  intro b hb
  have hlt : decide (b < 0x80) = true := List.mem_takeWhile_imp (p := fun x => decide (x < 0x80)) hb
  exact of_decide_eq_true hlt

/-- What is read begins with the characters of these bytes, and what follows on them does not begin
with ASCII. -/
theorem decodeLossy_eq (s : Bytes) : ∃ text, decodeLossy s = (asciiFront s).map character ++ text ∧
    (text = [] → asciiFront s = s) ∧ ∀ c ∈ text.head?, ¬Ascii c := by
  have hsplit : s = asciiFront s ++ s.dropWhile (· < 0x80) := List.takeWhile_append_dropWhile.symm
  refine ⟨decodeLossy (s.dropWhile (· < 0x80)), ?_, ?_⟩
  · rw [← decodeLossy_append lt_of_mem_asciiFront, ← hsplit]
  · cases hrest : s.dropWhile (· < 0x80) with
    | nil =>
      rw [hrest, List.append_nil] at hsplit
      rw [decodeLossy_nil]
      exact ⟨fun _ => hsplit.symm, fun c hc => (nomatch hc)⟩
    | cons b rest =>
      have hbyte : 0x80 ≤ b := by
        have hfirst := List.head?_dropWhile_not (fun x : UInt8 => decide (x < 0x80)) s
        rw [hrest] at hfirst
        simpa using hfirst
      obtain ⟨c, text, htext, hascii⟩ := decodeLossy_of_not_ascii hbyte rest
      rw [htext]
      refine ⟨fun hnil => (nomatch hnil), fun d hd => ?_⟩
      obtain rfl := Option.some.inj hd
      exact hascii

/-! ### Texts -/

theorem exists_byte {n : Nat} (h : n < 256) : ∃ b : UInt8, UInt8.ofNat n = b ∧ b.toNat = n :=
  ⟨_, rfl, by rw [UInt8.toNat_ofNat', Nat.mod_eq_of_lt h]⟩

theorem exists_tail (n : Nat) :
    ∃ b : UInt8, UInt8.ofNat (n % 64 + 128) = b ∧ b.toNat = n % 64 + 128 ∧ 0x80 ≤ b ∧ b ≤ 0xBF := by
  obtain ⟨b, hb, hbn⟩ := exists_byte (n := n % 64 + 128) (by omega)
  refine ⟨b, hb, hbn, UInt8.le_iff_toNat_le.mpr ?_, UInt8.le_iff_toNat_le.mpr ?_⟩
  · rw [hbn]
    exact Nat.le_add_left 128 _
  · rw [hbn]
    exact Nat.add_le_add_right (Nat.le_of_lt_succ (Nat.mod_lt n (by decide))) 128

theorem le_ite {p : Prop} [Decidable p] {b low low' : UInt8} (h : p → low ≤ b) (h' : low' ≤ b) :
    (if p then low else low') ≤ b := by
  split
  · next hp => exact h hp
  · exact h'

theorem ite_le {p : Prop} [Decidable p] {b high high' : UInt8} (h : p → b ≤ high) (h' : b ≤ high') :
    b ≤ if p then high else high' := by
  split
  · next hp => exact h hp
  · exact h'

section

variable {n : Nat} (rest : Bytes)

theorem item_two (hlow : 127 < n) (hhigh : n ≤ 2047) :
    item (UInt8.ofNat (n / 64 % 32 + 192)) (UInt8.ofNat (n % 64 + 128) :: rest) =
      ⟨some (Char.ofNat n), 1⟩ := by
  obtain ⟨b, hb, hbn⟩ := exists_byte (n := n / 64 % 32 + 192) (by omega)
  obtain ⟨c, hc, hcn, htail, htail'⟩ := exists_tail n
  have hrow : continuation 1 0x80 0xBF (c :: rest) = [c] := by
    rw [continuation_cons htail htail', continuation_zero]
  have hvalue : (b.toNat - 0xC0) * 64 + (c.toNat - 0x80) = n := by omega
  have hitem := item_of_announces (Announces.one (b := b) (by omega) (by omega))
    (congrArg List.length hrow)
  rw [hrow, scalar, List.foldl_cons, List.foldl_nil, hvalue] at hitem
  rw [hb, hc]
  exact hitem

theorem item_three (hvalid : n.isValidChar) (hlow : 2047 < n) (hhigh : n ≤ 65535) :
    item (UInt8.ofNat (n / 4096 % 16 + 224))
      (UInt8.ofNat (n / 64 % 64 + 128) :: UInt8.ofNat (n % 64 + 128) :: rest) =
      ⟨some (Char.ofNat n), 2⟩ := by
  unfold Nat.isValidChar at hvalid
  obtain ⟨b, hb, hbn⟩ := exists_byte (n := n / 4096 % 16 + 224) (by omega)
  obtain ⟨c, hc, hcn, htail, htail'⟩ := exists_tail (n / 64)
  obtain ⟨d, hd, hdn, hlast, hlast'⟩ := exists_tail n
  -- short forms would come before the narrowed range, surrogates behind it
  have hfirst : b.toNat = 0xE0 → 0xA0 ≤ c :=
    fun heq => UInt8.le_iff_toNat_le.mpr (show 160 ≤ c.toNat by omega)
  have hfirst' : b.toNat = 0xED → c ≤ 0x9F :=
    fun heq => UInt8.le_iff_toNat_le.mpr (show c.toNat ≤ 159 by omega)
  have hrow : continuation 2 (if b.toNat = 0xE0 then 0xA0 else 0x80)
      (if b.toNat = 0xED then 0x9F else 0xBF) (c :: d :: rest) = [c, d] := by
    rw [continuation_cons (le_ite hfirst htail) (ite_le hfirst' htail'),
      continuation_cons hlast hlast', continuation_zero]
  have hvalue : ((b.toNat - 0xE0) * 64 + (c.toNat - 0x80)) * 64 + (d.toNat - 0x80) = n := by omega
  have hitem := item_of_announces (.two (by omega) (by omega)) (congrArg List.length hrow)
  rw [hrow, scalar, List.foldl_cons, List.foldl_cons, List.foldl_nil, hvalue] at hitem
  rw [hb, hc, hd]
  exact hitem

theorem item_four (hvalid : n.isValidChar) (hlow : 65535 < n) :
    item (UInt8.ofNat (n / 262144 % 8 + 240))
      (UInt8.ofNat (n / 4096 % 64 + 128) :: UInt8.ofNat (n / 64 % 64 + 128) ::
      UInt8.ofNat (n % 64 + 128) :: rest) = ⟨some (Char.ofNat n), 3⟩ := by
  unfold Nat.isValidChar at hvalid
  obtain ⟨b, hb, hbn⟩ := exists_byte (n := n / 262144 % 8 + 240) (by omega)
  obtain ⟨c, hc, hcn, htail, htail'⟩ := exists_tail (n / 4096)
  obtain ⟨d, hd, hdn, hmiddle, hmiddle'⟩ := exists_tail (n / 64)
  obtain ⟨e, he, hen, hlast, hlast'⟩ := exists_tail n
  -- short forms would come before the narrowed range, what is no character any more behind it
  have hfirst : b.toNat = 0xF0 → 0x90 ≤ c :=
    fun heq => UInt8.le_iff_toNat_le.mpr (show 144 ≤ c.toNat by omega)
  have hfirst' : b.toNat = 0xF4 → c ≤ 0x8F :=
    fun heq => UInt8.le_iff_toNat_le.mpr (show c.toNat ≤ 143 by omega)
  have hrow : continuation 3 (if b.toNat = 0xF0 then 0x90 else 0x80)
      (if b.toNat = 0xF4 then 0x8F else 0xBF) (c :: d :: e :: rest) = [c, d, e] := by
    rw [continuation_cons (le_ite hfirst htail) (ite_le hfirst' htail'),
      continuation_cons hmiddle hmiddle', continuation_cons hlast hlast', continuation_zero]
  have hvalue : (((b.toNat - 0xF0) * 64 + (c.toNat - 0x80)) * 64 + (d.toNat - 0x80)) * 64 +
      (e.toNat - 0x80) = n := by
    omega
  have hitem := item_of_announces (.three (by omega) (by omega)) (congrArg List.length hrow)
  rw [hrow, scalar, List.foldl_cons, List.foldl_cons, List.foldl_cons, List.foldl_nil, hvalue]
    at hitem
  rw [hb, hc, hd, he]
  exact hitem

end

theorem item_of_encode (c : Char) (rest : Bytes) :
    ∃ b follow, String.utf8EncodeChar c = b :: follow ∧
      item b (follow ++ rest) = ⟨some c, follow.length⟩ := by
  obtain ⟨n, hvalid, rfl⟩ : ∃ n : Nat, n.isValidChar ∧ Char.ofNat n = c :=
    ⟨c.toNat, c.valid, c.ofNat_toNat⟩
  rw [encode_ofNat hvalid]
  by_cases hascii : n ≤ 127
  · obtain ⟨b, hb, hbn⟩ := exists_byte (n := n) (by omega)
    have hbyte : b < 0x80 := UInt8.lt_iff_toNat_lt.mpr (hbn ▸ Nat.lt_succ_of_le hascii)
    have hitem := item_of_ascii hbyte rest
    rw [character, hbn] at hitem
    rw [if_pos hascii, hb]
    exact ⟨b, [], rfl, hitem⟩
  · rw [if_neg hascii]
    by_cases htwo : n ≤ 2047
    · rw [if_pos htwo]
      exact ⟨_, [_], rfl, item_two rest (Nat.lt_of_not_le hascii) htwo⟩
    · rw [if_neg htwo]
      by_cases hthree : n ≤ 65535
      · rw [if_pos hthree]
        exact ⟨_, [_, _], rfl, item_three rest hvalid (Nat.lt_of_not_le htwo) hthree⟩
      · rw [if_neg hthree]
        exact ⟨_, [_, _, _], rfl, item_four rest hvalid (Nat.lt_of_not_le hthree)⟩

theorem decodeLossy_ofString (s : String) : decodeLossy (Bytes.ofString s) = s.toList := by
  unfold Bytes.ofString
  induction s.toList with
  | nil => exact decodeLossy_nil
  | cons c text ih =>
    obtain ⟨b, follow, hform, hitem⟩ := item_of_encode c (text.flatMap String.utf8EncodeChar)
    rw [List.flatMap_cons, hform, List.cons_append, decodeLossy_cons, hitem, List.drop_left, ih]
    rfl

end PipeShell.Utf8
