import PipeShell.Proofs.Line.Layout
import PipeShell.Proofs.Session.Faithful
import PipeShell.Proofs.Text.Decoding

/-!
Lines as bytes. What is read in a line is read in its lossy decoding, but no byte outside ASCII is
ever got over: a line that asks for something is ASCII as it stands, and the column at which a line
is refused counts its bytes.
-/

set_option autoImplicit false
set_option relaxedAutoImplicit false

namespace PipeShell

open Line (Token)

/-- The words of an action: names of programs, arguments, files and directories. -/
def Action.words : Action → List String
  | nothing => []
  | exit => []
  | changeDirectory target => [target]
  | run p => p.stages.flatMap Stage.words

theorem Stage.mem_spelling {stage : Stage} {word : String} (h : word ∈ stage.words) :
    .word word.toList ∈ stage.spelling := by
  have hfile {mark : Char} {file : Option String} (hmem : word ∈ file.toList) :
      Token.word word.toList ∈ spellRedirection mark file := by
    cases file with
    | none => exact absurd hmem List.not_mem_nil
    | some file =>
      obtain rfl := List.mem_singleton.mp hmem
      exact List.mem_cons_of_mem _ List.mem_cons_self
  rcases List.mem_append.mp h with hmem | houtput
  · rcases List.mem_append.mp hmem with hargument | hinput
    · exact List.mem_append_left _ (List.mem_append_left _ (List.mem_map_of_mem hargument))
    · exact List.mem_append_left _ (List.mem_append_right _ (hfile hinput))
  · exact List.mem_append_right _ (hfile houtput)

theorem mem_spellStages {run : List Stage} {stage : Stage} {token : Token} (h : stage ∈ run)
    (ht : token ∈ stage.spelling) : token ∈ spellStages run := by
  induction run with
  | nil => exact absurd h List.not_mem_nil
  | cons first rest ih =>
    cases rest with
    | nil =>
      rw [List.mem_singleton.mp h] at ht
      exact ht
    | cons second rest =>
      rw [spellStages]
      · rcases List.mem_cons.mp h with rfl | h
        · exact List.mem_append_left _ ht
        · exact List.mem_append_right _ (List.mem_cons_of_mem _ (ih h))
      · simp

theorem Action.mem_spelling {action : Action} {word : String} (h : word ∈ action.words) :
    .word word.toList ∈ action.spelling := by
  cases action with
  | nothing => exact absurd h List.not_mem_nil
  | exit => exact absurd h List.not_mem_nil
  | changeDirectory target =>
    obtain rfl := List.mem_singleton.mp h
    exact List.mem_cons_of_mem _ List.mem_cons_self
  | run p =>
    obtain ⟨stage, hstage, hword⟩ := List.mem_flatMap.mp h
    exact List.mem_append_left _ (mem_spellStages hstage (Stage.mem_spelling hword))

namespace Line

open Grammar

theorem infix_of_mem_tokens {text word : List Char} (h : .word word ∈ tokens text) :
    word <:+: text := by
  rcases tokens_cases text with hb | ⟨gap, w, rest, heq, hg, hw, hs⟩ | ⟨gap, c,
    rest, heq, hg, hb, hp⟩
  · rw [tokens_of_blanks hb] at h
    exact absurd h List.not_mem_nil
  · have hshort : rest.length < text.length := by
      have := List.length_pos_iff.mpr hw.1
      simp only [heq, List.length_append]
      omega
    have hrest : rest <:+ text := ⟨gap ++ w, by rw [heq, List.append_assoc]⟩
    rw [heq, tokens_blanks hg, tokens_part hw hs] at h
    rcases List.mem_cons.mp h with hword | hmem
    · rw [Token.word.inj hword]
      exact ⟨gap, rest, by rw [heq, List.append_assoc]⟩
    · exact (infix_of_mem_tokens hmem).trans hrest.isInfix
  · have hshort : rest.length < text.length := by
      simp only [heq, List.length_append, List.length_cons]
      omega
    have hrest : rest <:+ text :=
      ⟨gap ++ [c], by rw [heq, List.append_assoc, List.singleton_append]⟩
    rw [heq, tokens_blanks hg, tokens_mark hb hp] at h
    rcases List.mem_cons.mp h with hword | hmem
    · cases hword
    · exact (infix_of_mem_tokens hmem).trans hrest.isInfix
termination_by text.length

theorem ascii_of_terminator {ending : List Char} (h : Terminator ending) :
    ∀ c ∈ ending, Bytes.Ascii c := by
  have hreturn : Bytes.Ascii '\r' := by decide
  have hfeed : Bytes.Ascii '\n' := by decide
  rcases h with rfl | rfl | rfl <;> simp [hreturn, hfeed]

theorem ascii_of_read {line : String} {action : Action} (h : read line = .ok action) :
    (∀ c ∈ line.toList, Bytes.Ascii c) ∧ ∀ word ∈ action.words, word.toList <:+: line.toList := by
  obtain ⟨body, ending, hline, hending, hfirst⟩ := (read_eq_ok_iff_assigns line action).mp h
  rw [hline]
  constructor
  · intro c hc
    rcases List.mem_append.mp hc with hc | hc
    · exact ascii_of_opens (opens_of_firstOf hfirst) c hc
    · exact ascii_of_terminator hending c hc
  · intro word hword
    have htoken := Action.mem_spelling hword
    rw [← tokens_of_firstOf alternatives_spelled hfirst] at htoken
    exact (infix_of_mem_tokens htoken).trans (List.prefix_append body ending).isInfix

theorem openings_append {text more : List Char} (h : ∀ c ∈ more.head?, ¬Bytes.Ascii c) :
    openings (text ++ more) = openings text := by
  ext n
  constructor
  · rintro ⟨hn, hopens⟩
    have hle : n ≤ text.length := by
      by_contra hlate
      cases more with
      | nil =>
        rw [List.append_nil] at hn
        exact hlate hn
      | cons c more =>
        obtain ⟨m, rfl⟩ := Nat.exists_eq_add_of_lt (Nat.lt_of_not_le hlate)
        refine h c rfl (ascii_of_opens hopens c ?_)
        rw [Nat.add_assoc, List.take_length_add_append]
        exact List.mem_append_right _ List.mem_cons_self
    rw [List.take_append_of_le_length hle] at hopens
    exact ⟨hle, hopens⟩
  · rintro ⟨hn, hopens⟩
    refine ⟨?_, ?_⟩
    · rw [List.length_append]
      exact Nat.le_trans hn (Nat.le_add_right _ _)
    · rwa [List.take_append_of_le_length hn]

end Line

namespace Session

open Line Utf8

theorem openings_decodeLossy (line : Bytes) :
    openings (decodeLossy line) = openings ((asciiFront line).map character) := by
  obtain ⟨text, heq, -, hhead⟩ := decodeLossy_eq line
  rw [heq, openings_append hhead]

theorem exists_column (line : Bytes) :
    ∃ k ≤ (asciiFront line).length, ∀ line' refusal, asciiFront line' = asciiFront line →
      reading line' = .error refusal → refusal.column = k + 1 := by
  obtain ⟨k, hk⟩ := exists_isGreatest_openings ((asciiFront line).map character)
  refine ⟨k, ?_, fun line' refusal hfront hread => ?_⟩
  · rw [← List.length_map (f := character)]
    exact hk.1.1
  · refine column_of_read hread ?_
    rw [String.toList_ofList, openings_decodeLossy, hfront]
    exact hk

theorem take_decodeLossy (line : Bytes) {k : Nat} (hk : k ≤ (asciiFront line).length) :
    (Bytes.ofString (String.ofList (decodeLossy line))).take k = line.take k := by
  obtain ⟨text, heq, -, -⟩ := decodeLossy_eq line
  have hfront := ofString_characters (s := asciiFront line) lt_of_mem_asciiFront
  have hline : line.take k = (asciiFront line).take k := by
    have hsplit : line = asciiFront line ++ line.dropWhile (· < 0x80) :=
      List.takeWhile_append_dropWhile.symm
    calc line.take k = (asciiFront line ++ line.dropWhile (· < 0x80)).take k := by rw [← hsplit]
      _ = (asciiFront line).take k := List.take_append_of_le_length hk
  rw [Bytes.ofString_ofList] at hfront ⊢
  rw [heq, List.flatMap_append, hfront, List.take_append_of_le_length hk, hline]

theorem ofString_of_reading {line : Bytes} {action : Action} (h : reading line = .ok action) :
    (∀ b ∈ line, b < 0x80) ∧ Bytes.ofString (String.ofList (decodeLossy line)) = line ∧
      ∀ word ∈ action.words, Bytes.ofString word <:+: line := by
  obtain ⟨hascii, hwords⟩ := ascii_of_read h
  rw [String.toList_ofList] at hascii hwords
  obtain ⟨text, heq, hall, hhead⟩ := decodeLossy_eq line
  cases text with
  | cons c text => exact absurd (hascii c (by simp [heq])) (hhead c rfl)
  | nil =>
    have hfront := hall rfl
    have hlt : ∀ b ∈ line, b < 0x80 := by
      rw [← hfront]
      exact lt_of_mem_asciiFront
    have hsame : Bytes.ofString (String.ofList (decodeLossy line)) = line := by
      rw [heq, List.append_nil, hfront]
      exact ofString_characters hlt
    refine ⟨hlt, hsame, fun word hword => ?_⟩
    obtain ⟨before, after, hpieces⟩ := hwords word hword
    rw [← hsame, ← hpieces, Bytes.ofString_ofList, List.flatMap_append, List.flatMap_append]
    exact List.infix_append _ _ _

theorem length_asciiFront_le (line : Bytes) :
    (asciiFront line).length ≤ line.findIdx (0x80 ≤ ·) := by
  have hnot : (fun b : UInt8 => !decide (b < 0x80)) = fun b => decide (0x80 ≤ b) := by
    funext b
    simp [← UInt8.not_lt]
  unfold asciiFront
  rw [List.takeWhile_eq_take_findIdx_not, hnot]
  exact List.length_take_le _ _

theorem asciiFront_congr {typed typed' : Bytes} {n : Nat} {b : UInt8} (hget : typed[n]? = some b)
    (hb : 0x80 ≤ b) (h : typed'.take (n + 1) = typed.take (n + 1)) :
    asciiFront typed' = asciiFront typed := by
  have hmem : b ∈ typed.take (n + 1) := by
    apply List.mem_of_getElem? (i := n)
    rw [List.getElem?_take_of_lt (Nat.lt_succ_self n), hget]
  have hshort : ∀ s : Bytes, b ∈ s.take (n + 1) → asciiFront s = asciiFront (s.take (n + 1)) := by
    intro s hs
    have hstop : ¬(asciiFront (s.take (n + 1))).length = (s.take (n + 1)).length := by
      intro hlength
      have hall := (List.takeWhile_prefix (l := s.take (n + 1)) (· < 0x80)).eq_of_length hlength
      rw [← hall] at hs
      exact UInt8.not_lt.mpr hb (lt_of_mem_asciiFront b hs)
    calc asciiFront s = asciiFront (s.take (n + 1) ++ s.drop (n + 1)) := by
           rw [List.take_append_drop]
      _ = asciiFront (s.take (n + 1)) := by
        unfold asciiFront at hstop ⊢
        rw [List.takeWhile_append, if_neg hstop]
  rw [hshort typed' (h ▸ hmem), h, ← hshort typed hmem]

theorem error_of_not_ascii {typed : Bytes} {n : Nat} {b : UInt8} (hget : typed[n]? = some b)
    (hb : 0x80 ≤ b) : ∃ refusal, reading typed = .error refusal := by
  cases hread : reading typed with
  | error refusal => exact ⟨refusal, rfl⟩
  | ok action =>
    have hlt := (ofString_of_reading hread).1 b (List.mem_of_getElem? hget)
    exact absurd hlt (UInt8.not_lt.mpr hb)

/-- Decoding never changes what a line means. What asks for something is ASCII, is its own decoding
and holds the words of its action as they were typed. What is refused is refused at the latest at
its first byte outside ASCII, up to which its bytes are those of its decoding, and what follows that
byte has no part in it. -/
theorem reads_bytes (typed : Bytes) :
    (∀ action, reading typed = .ok action → (∀ b ∈ typed, b < 0x80) ∧
      Bytes.ofString (String.ofList (decodeLossy typed)) = typed ∧
      ∀ word ∈ action.words, Bytes.ofString word <:+: typed) ∧
    (∀ refusal, reading typed = .error refusal → 1 ≤ refusal.column ∧
      refusal.column - 1 ≤ typed.findIdx (0x80 ≤ ·) ∧
      (Bytes.ofString (String.ofList (decodeLossy typed))).take (refusal.column - 1) =
        typed.take (refusal.column - 1)) ∧
    (∀ typed' n b, typed[n]? = some b → 0x80 ≤ b → typed'.take (n + 1) = typed.take (n + 1) →
      ∃ refusal, reading typed = .error refusal ∧ reading typed' = .error refusal) := by
  obtain ⟨k, hk, hcolumn⟩ := exists_column typed
  refine ⟨fun action h => ofString_of_reading h, fun refusal h => ?_,
    fun typed' n b hget hb heq => ?_⟩
  · rw [hcolumn typed refusal rfl h]
    exact ⟨Nat.le_add_left 1 k, Nat.le_trans hk (length_asciiFront_le typed),
      take_decodeLossy typed hk⟩
  · have hget' : typed'[n]? = some b := by
      rw [← List.getElem?_take_of_lt (Nat.lt_succ_self n), heq,
        List.getElem?_take_of_lt (Nat.lt_succ_self n), hget]
    obtain ⟨⟨column⟩, hread⟩ := error_of_not_ascii hget hb
    obtain ⟨⟨column'⟩, hread'⟩ := error_of_not_ascii hget' hb
    have hat : column = k + 1 := hcolumn typed _ rfl hread
    have hsame : column' = column := by
      rw [hat]
      exact hcolumn typed' _ (asciiFront_congr hget hb heq) hread'
    exact ⟨⟨column⟩, hread, hsame ▸ hread'⟩

/-- The words of a line as they stand in it, and an accented letter cut off behind its first byte:
the column is the place of that byte, whatever comes then. -/
theorem reads_bytes_of_words : ∃ action refusal,
    reading (Bytes.ofString "cat < notes") = .ok action ∧
    (∀ word ∈ action.words, Bytes.ofString word <:+: Bytes.ofString "cat < notes") ∧
    reading (Bytes.ofString "echo é") = .error refusal ∧
    reading (Bytes.ofString "echo " ++ [0xC3] ++ Bytes.ofString "|") = .error refusal ∧
    refusal.column - 1 ≤ (Bytes.ofString "echo é").findIdx (0x80 ≤ ·) ∧ refusal.column = 6 := by
  have hread : reading (Bytes.ofString "cat < notes") =
      .ok (.run { stages := [⟨["cat"], "notes", none⟩] }) := by
    decide +kernel
  obtain ⟨-, -, hwords⟩ := (reads_bytes (Bytes.ofString "cat < notes")).1 _ hread
  have hsixth : reading (Bytes.ofString "echo é") = .error ⟨6⟩ := by decide +kernel
  obtain ⟨-, hcolumn, hlater⟩ := reads_bytes (Bytes.ofString "echo é")
  obtain ⟨refusal, hrefused, hrefused'⟩ :=
    hlater (Bytes.ofString "echo " ++ [0xC3] ++ Bytes.ofString "|") 5 0xC3
      (by decide +kernel) (by decide) (by decide +kernel)
  obtain rfl : refusal = ⟨6⟩ := Except.error.inj (hrefused.symm.trans hsixth)
  exact ⟨_, _, hread, hwords, hrefused, hrefused', (hcolumn _ hrefused).2.1, rfl⟩

end Session

end PipeShell
