import Mathlib.Order.Bounds.Basic
import PipeShell.Proofs.Line.Sight
import PipeShell.Proofs.Line.Spelling
import PipeShell.Proofs.Text.Ascii

/-!
Where a line is refused. The column points behind the longest beginning of the line with which some
readable line begins as well: all forms together never reach beyond it, and the reader of pipelines
always reaches it.
-/

set_option autoImplicit false
set_option relaxedAutoImplicit false

namespace PipeShell.Line

open Grammar Cursor

/-! ### Beginnings of pipelines -/

def Opens (text : List Char) : Prop := ∃ more action, PipelineLine (text ++ more) action

theorem Opens.beginning {text more : List Char} (h : Opens more)
    (hpre : text <+: more) : Opens text := by
  obtain ⟨rest, action, hline⟩ := h
  obtain ⟨between, rfl⟩ := hpre
  exact ⟨between ++ rest, action, by rwa [← List.append_assoc]⟩

theorem opens_of_line {text body : List Char} {action : Action} (more : List Char)
    (h : PipelineLine body action) (hbody : body = text ++ more) : Opens text :=
  ⟨more, action, hbody ▸ h⟩

theorem opens_of_words {text : List Char} {words : List String} (hne : words ≠ [])
    (h : tokens text = spellWords words) : Opens text := by
  have hformed : Pipeline.WellFormed ⟨[{ arguments := words }], false⟩ :=
    (wellFormed_iff_assembled _).mpr ⟨words, [], none, none, hne, by simp, rfl⟩
  have hspelled : tokens text = (Action.run ⟨[{ arguments := words }], false⟩).spelling := by
    rw [h]
    simp [Action.spelling, Pipeline.spelling, spellStages, Stage.spelling,
      spellRedirection, spellBackground]
  exact opens_of_line [] ((pipelineLine_spelled _ _).mpr ⟨⟨_, rfl, hformed⟩, hspelled⟩)
    (List.append_nil text).symm

private theorem part_a : Part ['a'] := by decide

theorem opens_of_blanks {gap : List Char} (h : Blanks gap) : Opens gap := by
  have hword := tokens_part part_a stops_nil
  rw [List.append_nil] at hword
  have hwords : tokens (gap ++ ['a']) = spellWords ["a"] := by rw [tokens_blanks h, hword]; rfl
  exact (opens_of_words (by simp) hwords).beginning (List.prefix_append gap ['a'])

theorem opens_of_firstOf {body : List Char} {action : Action}
    (h : FirstOf alternatives body action) : Opens body := by
  rcases h with h | ⟨-, h | ⟨-, h | ⟨-, h | ⟨-, h⟩⟩⟩⟩
  · obtain ⟨rfl, htokens⟩ := (exitLine_spelled _ _).mp h
    exact opens_of_words (List.cons_ne_nil "exit" []) htokens
  · obtain ⟨⟨target, rfl⟩, htokens⟩ := (directoryLine_spelled _ _).mp h
    exact opens_of_words (List.cons_ne_nil "cd" [target]) htokens
  · exact opens_of_line [] h (List.append_nil body).symm
  · obtain ⟨hb⟩ := h
    exact opens_of_blanks hb
  · exact h.elim

theorem firstOf_of_pipelineLine {body : List Char} {action : Action}
    (h : PipelineLine body action) : ∃ a, FirstOf alternatives body a := by
  by_cases hexit : ∃ a, ExitLine body a
  · obtain ⟨a, ha⟩ := hexit
    exact ⟨a, .inl ha⟩
  · by_cases hcd : ∃ a, DirectoryLine body a
    · obtain ⟨a, ha⟩ := hcd
      exact ⟨a, .inr ⟨not_exists.mp hexit, .inl ha⟩⟩
    · exact ⟨action, .inr ⟨not_exists.mp hexit, .inr ⟨not_exists.mp hcd, .inl h⟩⟩⟩

/-! ### What the readers move over -/

private theorem blanks_nil : Blanks [] := by simp [Blanks]

private theorem rest_of_part_fails {c d : Cursor} (h : c.part = (none, d)) : d.rest = c.rest := by
  rw [(Reader.part_fails h).2]
  rfl

theorem command_fails {c d : Cursor} (h : c.command = (none, d)) : d.rest = c.rest := by
  unfold Cursor.command at h
  split at h
  · next hpart =>
    obtain ⟨-, rfl⟩ := Prod.mk.inj h
    exact rest_of_part_fails hpart
  · cases h

theorem redirection_fails {c d : Cursor} {mark : Char} (h : c.redirection mark = (none, d)) :
    ∃ gap, Blanks gap ∧ c.rest = mark :: (gap ++ d.rest) := by
  unfold Cursor.redirection at h
  split at h
  · cases h
  · next e he =>
    split at h
    · next hpart =>
      obtain ⟨-, rfl⟩ := Prod.mk.inj h
      obtain ⟨gap, hgap, hrest⟩ := skipBlanks_sound e
      exact ⟨gap, hgap, by rw [eat_sound he, hrest, rest_of_part_fails hpart]⟩
    · cases h

theorem moreCommands_fails (c : Cursor) : ∀ {d : Cursor}, c.moreCommands = (none, d) →
    ∃ text others, FurtherCommands (text ++ ['a']) others ∧ c.rest = text ++ d.rest := by
  fun_induction moreCommands c with
  | case1 => intro d h; cases h
  | case2 c e hbar d hcommand =>
    intro f h
    obtain ⟨-, rfl⟩ := Prod.mk.inj h
    obtain ⟨before, hbefore, hskip⟩ := skipBlanks_sound e
    refine ⟨'|' :: before, [["a"]], ?_, by rw [eat_sound hbar, hskip, command_fails hcommand]; rfl⟩
    have hlast := FurtherCommands.bar hbefore (Command.mk part_a .none) blanks_nil .none
    simpa using hlast
  | case3 c e hbar words d hcommand _ ih =>
    intro f h
    obtain ⟨hnone, rfl⟩ := Prod.mk.inj h
    obtain ⟨text, others, htext, htail⟩ := ih (d := (moreCommands d.skipBlanks).2)
      (by rw [← Option.map_eq_none_iff.mp hnone])
    obtain ⟨before, hbefore, hskip⟩ := skipBlanks_sound e
    obtain ⟨command, hc, hrest⟩ := command_sound hcommand
    obtain ⟨after, hafter, hend⟩ := skipBlanks_sound d
    refine ⟨'|' :: (before ++ command ++ after ++ text), words :: others, ?_, ?_⟩
    · have hmore := FurtherCommands.bar hbefore hc hafter htext
      simpa using hmore
    · rw [eat_sound hbar, hskip, hrest, hend, htail]
      simp

/-- What the reader of pipelines moves over is the beginning of a pipeline, also where it fails. -/
theorem pipelineForm_opens (c : Cursor) :
    ∃ text, c.rest = text ++ (pipelineForm c).2.rest ∧ Opens text := by
  rcases hform : pipelineForm c with ⟨_ | action, d⟩
  · have h := hform
    unfold pipelineForm at h
    obtain ⟨b₀, hb₀, e₀⟩ := skipBlanks_sound c
    split at h
    · next hcommand =>
      obtain ⟨-, rfl⟩ := Prod.mk.inj h
      exact ⟨b₀, by rw [e₀, command_fails hcommand], opens_of_blanks hb₀⟩
    · next first c₁ h₁ =>
      obtain ⟨command, hcommand, e₁⟩ := command_sound h₁
      obtain ⟨b₁, hb₁, e₂⟩ := skipBlanks_sound c₁
      split at h
      · next hinput =>
        obtain ⟨-, rfl⟩ := Prod.mk.inj h
        obtain ⟨gap, hgap, hrest⟩ := redirection_fails hinput
        have hline := PipelineLine.mk hb₀ hcommand hb₁
          (.present hgap part_a) blanks_nil .none .absent blanks_nil .absent blanks_nil
        refine ⟨b₀ ++ command ++ b₁ ++ '<' :: gap, by rw [e₀, e₁, e₂, hrest]; simp,
          opens_of_line ['a'] hline ?_⟩
        simp
      · next input c₂ h₂ =>
        obtain ⟨source, hsource, e₃⟩ := redirection_sound h₂
        obtain ⟨b₂, hb₂, e₄⟩ := skipBlanks_sound c₂
        split at h
        · next hmore =>
          obtain ⟨-, rfl⟩ := Prod.mk.inj h
          obtain ⟨text, others, hfurther, hrest⟩ := moreCommands_fails _ hmore
          have hline := PipelineLine.mk hb₀ hcommand hb₁ hsource hb₂ hfurther .absent blanks_nil
            .absent blanks_nil
          refine ⟨b₀ ++ command ++ b₁ ++ source ++ b₂ ++ text,
            by rw [e₀, e₁, e₂, e₃, e₄, hrest]; simp, opens_of_line ['a'] hline ?_⟩
          simp
        · next others c₃ h₃ =>
          obtain ⟨further, hfurther, e₅⟩ := moreCommands_sound _ h₃
          split at h
          · next houtput =>
            obtain ⟨-, rfl⟩ := Prod.mk.inj h
            obtain ⟨gap, hgap, hrest⟩ := redirection_fails houtput
            have hline := PipelineLine.mk hb₀ hcommand hb₁ hsource hb₂ hfurther
              (.present hgap part_a) blanks_nil .absent blanks_nil
            refine ⟨b₀ ++ command ++ b₁ ++ source ++ b₂ ++ further ++ '>' :: gap,
              by rw [e₀, e₁, e₂, e₃, e₄, e₅, hrest]; simp, opens_of_line ['a'] hline ?_⟩
            simp
          · split at h <;> cases h
  · obtain ⟨body, hbody, hrest⟩ := pipelineForm_fits.sound hform
    exact ⟨body, hrest, opens_of_line [] hbody (List.append_nil body).symm⟩

theorem pipelineForm_exhausts {c : Cursor} {text : List Char} (hpre : text <+: c.rest)
    (h : Opens text) : text.length + (pipelineForm c).2.rest.length ≤ c.rest.length := by
  obtain ⟨moved, hmoved, -⟩ := pipelineForm_opens c
  rcases hrest : (pipelineForm c).2.rest with _ | ⟨x, more⟩
  · simpa using hpre.length_le
  · by_contra hlong
    rw [hrest] at hmoved
    have hnext : moved ++ [x] <+: text := by
      refine List.prefix_of_prefix_length_le ⟨more, by rw [hmoved]; simp⟩ hpre ?_
      have := congrArg List.length hmoved
      simp only [List.length_append, List.length_cons, List.length_nil] at this hlong ⊢
      omega
    obtain ⟨rest, action, hline⟩ := h.beginning hnext
    rw [List.append_assoc] at hline
    -- on that pipeline it stops at the end, although it cannot tell it from this line so far
    let c' : Cursor := { rest := moved ++ ([x] ++ rest) }
    obtain ⟨d, hd, hend⟩ :=
      pipelineForm_fits.complete hline (.inl rfl) (List.append_nil c'.rest).symm
    obtain ⟨-, hnear⟩ :=
      (Reader.steady_pipelineForm c).near hmoved hrest (show c'.rest = moved ++ x :: rest from rfl)
    rw [hd, hend] at hnear
    cases hnear

def Within (form : Form) : Prop :=
  ∀ c, Moves c (form c).2 ∧ ∃ text, c.rest = text ++ (form c).2.rest ∧ Opens text

theorem blankForm_within : Within blankForm := by
  intro c
  obtain ⟨gap, hgap, hrest⟩ := skipBlanks_sound c
  exact ⟨moves_takeWhile isBlank c, gap, hrest, opens_of_blanks hgap⟩

theorem pipelineForm_within : Within pipelineForm := fun c =>
  ⟨(Reader.steady_pipelineForm c).moves, pipelineForm_opens c⟩

theorem exitForm_within : Within exitForm := by
  intro c
  unfold exitForm
  obtain ⟨before, hb, hbefore⟩ := skipBlanks_sound c
  split
  · exact ⟨moves_takeWhile isBlank c, before, hbefore, opens_of_blanks hb⟩
  · next d hd =>
    refine ⟨((moves_takeWhile isBlank c).trans (moves_keyword hd)).trans
      (moves_takeWhile isBlank d), ?_⟩
    obtain ⟨after, ha, hafter⟩ := skipBlanks_sound d
    refine ⟨before ++ "exit".toList ++ after, by rw [hbefore, keyword_sound hd, hafter]; simp, ?_⟩
    obtain ⟨-, htokens⟩ := (exitLine_spelled _ _).mp (ExitLine.mk hb ha)
    exact opens_of_words (List.cons_ne_nil "exit" []) htokens

theorem directoryForm_within : Within directoryForm := by
  intro c
  unfold directoryForm
  obtain ⟨before, hb, hbefore⟩ := skipBlanks_sound c
  have hcd {gap : List Char} (hgap : Blanks gap) : Opens (before ++ (['c', 'd'] ++ gap)) := by
    have hstop := Blanks.stops_isPart hgap stops_nil
    rw [List.append_nil] at hstop
    have hwords : tokens (before ++ (['c', 'd'] ++ gap)) = spellWords ["cd"] := by
      rw [tokens_blanks hb, tokens_part (by decide) hstop, tokens_of_blanks hgap]
      rfl
    exact opens_of_words (by simp) hwords
  split
  · exact ⟨moves_takeWhile isBlank c, before, hbefore, opens_of_blanks hb⟩
  · next d hd =>
    have hmoves := (moves_takeWhile isBlank c).trans (moves_keyword hd)
    have hkeyword : c.rest = before ++ (['c', 'd'] ++ d.rest) := by
      rw [hbefore, keyword_sound hd]; rfl
    have hgap := blanks_takeWhile d.rest
    have hsplit : d.rest = d.rest.takeWhile isBlank ++ (d.takeWhile isBlank).2.rest := by simp
    have hmoves' := hmoves.trans (moves_takeWhile isBlank d)
    split
    · next e he =>
      obtain rfl : (d.takeWhile isBlank).2 = e := congrArg Prod.snd he
      exact ⟨hmoves', _, by rw [hkeyword, hsplit]; simp, hcd hgap⟩
    · next b gap e he =>
      obtain rfl : (d.takeWhile isBlank).2 = e := congrArg Prod.snd he
      have hmoves'' := hmoves'.trans (Reader.steady_part (d.takeWhile isBlank).2).moves
      split
      · next f hf =>
        rw [hf] at hmoves''
        exact ⟨hmoves'', _, by rw [hkeyword, hsplit, rest_of_part_fails hf]; simp, hcd hgap⟩
      · next text f hf =>
        rw [hf] at hmoves''
        refine ⟨hmoves''.trans (moves_takeWhile isBlank f), ?_⟩
        obtain ⟨word, hw, rfl, hword⟩ := part_sound hf
        obtain ⟨after, ha, hafter⟩ := skipBlanks_sound f
        have hne : d.rest.takeWhile isBlank ≠ [] := by
          rw [show d.rest.takeWhile isBlank = b :: gap from congrArg Prod.fst he]
          simp
        obtain ⟨-, htokens⟩ := (directoryLine_spelled _ _).mp (DirectoryLine.mk hb hgap hne hw ha)
        refine ⟨_, ?_, opens_of_words (List.cons_ne_nil "cd" [String.ofList word]) htokens⟩
        calc c.rest = before ++ (['c', 'd'] ++
              (d.rest.takeWhile isBlank ++ (d.takeWhile isBlank).2.rest)) := by
              rw [hkeyword, ← hsplit]
          _ = _ := by
              rw [hword, hafter]
              simp

/-! ### Characters of a line -/

def openings (text : List Char) : Set Nat := {n | n ≤ text.length ∧ Opens (text.take n)}

theorem pipelineForm_reaches (c : Cursor) : ∃ moved, c.rest = moved ++ (pipelineForm c).2.rest ∧
    IsGreatest (openings c.rest) moved.length := by
  obtain ⟨moved, hmoved, hopens⟩ := pipelineForm_opens c
  have hlength := congrArg List.length hmoved
  rw [List.length_append] at hlength
  refine ⟨moved, hmoved, ⟨by omega, ?_⟩, ?_⟩
  · rwa [hmoved, List.take_left]
  · rintro n ⟨hn, hopens'⟩
    have hreach := pipelineForm_exhausts (List.take_prefix n c.rest) hopens'
    rw [List.length_take, Nat.min_eq_left hn] at hreach
    omega

section

variable {line : List Char} {n : Nat} (hn : IsGreatest (openings line) n)

include hn

theorem furthest_of_within {form : Form} (h : Within form) (furthest : Nat) :
    ∃ m ≤ n, (form { rest := line, furthest := furthest }).2.furthest = max furthest m := by
  obtain ⟨⟨⟨text, htext, hoffset⟩, hfurthest⟩, moved, hmoved, hopens⟩ :=
    h { rest := line, furthest := furthest }
  obtain rfl : text = moved := List.append_cancel_right (htext.symm.trans hmoved)
  have hline : line = text ++ (form { rest := line, furthest := furthest }).2.rest := htext
  refine ⟨text.length, hn.2 ⟨?_, ?_⟩, ?_⟩
  · rw [hline, List.length_append]
    omega
  · rwa [hline, List.take_left]
  · rw [hfurthest (Nat.zero_le _), hoffset, Nat.zero_add]

theorem furthest_pipelineForm (furthest : Nat) :
    (pipelineForm { rest := line, furthest := furthest }).2.furthest = max furthest n := by
  obtain ⟨⟨text, htext, hoffset⟩, hfurthest⟩ :=
    (Reader.steady_pipelineForm { rest := line, furthest := furthest }).moves
  obtain ⟨moved, hmoved, hgreatest⟩ := pipelineForm_reaches { rest := line, furthest := furthest }
  obtain rfl : text = moved := List.append_cancel_right (htext.symm.trans hmoved)
  rw [hfurthest (Nat.zero_le _), hoffset, Nat.zero_add, hn.unique hgreatest]

theorem column_firstForm {readers : List Form} (h : ∀ form ∈ readers, Within form) :
    ∀ {furthest : Nat} {refusal : Unreadable}, furthest ≤ n →
      (furthest = n ∨ pipelineForm ∈ readers) →
      firstForm line readers furthest = .error refusal → refusal.column = n + 1 := by
  induction readers with
  | nil =>
    rintro furthest refusal - (rfl | hmem) hread
    · rw [← Except.error.inj hread]
    · exact absurd hmem List.not_mem_nil
  | cons form readers ih =>
    intro furthest refusal hle hreach hread
    obtain ⟨m, hm, hfurthest⟩ := furthest_of_within hn (h form (by simp)) furthest
    have hothers : firstForm line readers (form { rest := line, furthest := furthest }).2.furthest =
        .error refusal := by
      rw [firstForm] at hread
      split at hread
      · next heq => rwa [heq]
      · next heq =>
        split at hread
        · cases hread
        · rwa [heq]
    refine ih (fun form hform => h form (List.mem_cons_of_mem _ hform)) ?_ ?_ hothers
    · omega
    · rcases hreach with rfl | hmem
      · exact .inl (by omega)
      · rcases List.mem_cons.mp hmem with rfl | hmem
        · rw [furthest_pipelineForm hn]
          exact .inl (by omega)
        · exact .inr hmem

end

theorem forms_within : ∀ form ∈ forms, Within form := by
  simp only [forms, List.mem_cons, List.not_mem_nil, or_false, forall_eq_or_imp, forall_eq]
  exact ⟨exitForm_within, directoryForm_within, pipelineForm_within, blankForm_within⟩

theorem column_of_read {line : String} {refusal : Unreadable} (h : read line = .error refusal)
    {n : Nat} (hn : IsGreatest (openings line.toList) n) : refusal.column = n + 1 :=
  column_firstForm hn forms_within (Nat.zero_le n) (.inr (by simp [forms])) h

theorem exists_isGreatest_openings (text : List Char) : ∃ n, IsGreatest (openings text) n := by
  obtain ⟨moved, -, hmoved⟩ := pipelineForm_reaches { rest := text }
  exact ⟨_, hmoved⟩

/-! ### Bytes of a line -/

theorem ascii_of_partCharacter {c : Char} (h : PartCharacter c) : Bytes.Ascii c := by
  rcases h with h | h
  · have hranges : isAlphanumeric c = true := isAlphanumeric_iff.mpr h
    simp only [isAlphanumeric, Bool.or_eq_true, Bool.and_eq_true, decide_eq_true_eq, Char.le_def,
      UInt32.le_iff_toNat_le] at hranges
    have hz : 'z'.val.toNat = 122 := rfl
    have hZ : 'Z'.val.toNat = 90 := rfl
    have h9 : '9'.val.toNat = 57 := rfl
    show c.val.toNat < 128
    omega
  · simp only [List.mem_cons, List.not_mem_nil, or_false] at h
    rcases h with rfl | rfl | rfl | rfl <;> decide

theorem ascii_of_opens {text : List Char} (h : Opens text) : ∀ c ∈ text, Bytes.Ascii c := by
  obtain ⟨more, action, hline⟩ := h
  obtain ⟨-, htokens⟩ := (pipelineLine_spelled _ _).mp hline
  intro c hc
  rcases mem_of_tokens (List.mem_append_left more hc) with hb | ⟨word, hword, hmem⟩ | hmark
  · rcases isBlank_iff.mp hb with rfl | rfl <;> decide
  · exact ascii_of_partCharacter ((part_of_mem_tokens hword).2 c hmem)
  · have := mark_of_mem_spelling (htokens ▸ hmark)
    simp only [List.mem_cons, List.not_mem_nil, or_false] at this
    rcases this with rfl | rfl | rfl | rfl <;> decide

def Plain (text : List Char) : Prop := '\r' ∉ text ∧ '\n' ∉ text

theorem read_eq_ok_iff_firstOf {line : String} (h : Plain line.toList) (action : Action) :
    read line = .ok action ↔ FirstOf alternatives line.toList action := by
  rw [read_eq_ok_iff_assigns]
  constructor
  · rintro ⟨body, ending, hline, ht, hfirst⟩
    rcases ht with rfl | rfl | rfl
    · rwa [hline, List.append_nil]
    · exact absurd (by simp [hline]) h.2
    · exact absurd (by simp [hline]) h.2
  · exact fun hfirst => ⟨line.toList, [], by simp, .inl rfl, hfirst⟩

/-- Some readable line without a terminator begins with the bytes. -/
def Viable (text : Bytes) : Prop :=
  ∃ line action, read line = .ok action ∧ Plain line.toList ∧ text <+: Bytes.ofString line

theorem Viable.beginning {text more : Bytes} (h : Viable more)
    (hpre : text <+: more) : Viable text := by
  obtain ⟨line, action, hread, hplain, hmore⟩ := h
  exact ⟨line, action, hread, hplain, hpre.trans hmore⟩

/-- The lengths of the beginnings of a line, in bytes, with which some readable line begins as
well. -/
def viableLengths (line : String) : Set Nat :=
  {n | n ≤ (Bytes.ofString line).length ∧ Viable ((Bytes.ofString line).take n)}

theorem take_ofString {line : String} {n : Nat} (hn : n ∈ openings line.toList) :
    n ≤ (Bytes.ofString line).length ∧
      Bytes.ofString (String.ofList (line.toList.take n)) = (Bytes.ofString line).take n :=
  Bytes.take_ofString_of_ascii hn.1 (ascii_of_opens hn.2)

theorem viableLengths_eq (line : String) : viableLengths line = openings line.toList := by
  ext n
  constructor
  · rintro ⟨hn, line', action, hread, hplain, hpre⟩
    have hopens := opens_of_firstOf ((read_eq_ok_iff_firstOf hplain action).mp hread)
    rw [← String.ofList_toList (s := line)] at hn hpre
    rw [← String.ofList_toList (s := line')] at hpre
    obtain ⟨hle, hchars⟩ := Bytes.take_of_prefix_ascii (ascii_of_opens hopens) hn hpre
    exact ⟨hle, hopens.beginning hchars⟩
  · intro hn
    obtain ⟨hle, htake⟩ := take_ofString hn
    obtain ⟨-, more, action, hline⟩ := hn
    obtain ⟨a, hfirst⟩ := firstOf_of_pipelineLine hline
    have hplain : Plain (String.ofList (line.toList.take n ++ more)).toList := by
      rw [String.toList_ofList]
      exact ⟨fun hc => (pipelineForm_fits.plain hline _ hc).2 rfl,
        fun hc => (pipelineForm_fits.plain hline _ hc).1 rfl⟩
    refine ⟨hle, _, a,
      (read_eq_ok_iff_firstOf hplain a).mpr (by rwa [String.toList_ofList]), hplain, ?_⟩
    rw [← htake, Bytes.ofString_ofList, Bytes.ofString_ofList, List.flatMap_append]
    exact List.prefix_append _ _

/-- The column of a refused line points behind its longest viable beginning. It counts bytes and
characters alike, since all that is before it is ASCII, and lines that agree so far and in one byte
more are refused at the same column. -/
theorem column_exact (line : String) (refusal : Unreadable) (h : read line = .error refusal) :
    ∃ k, refusal.column = k + 1 ∧ IsGreatest (viableLengths line) k ∧
      1 ≤ refusal.column ∧ refusal.column ≤ (Bytes.ofString line).length + 1 ∧
      (∀ b ∈ (Bytes.ofString line).take k, b < 128) ∧
      Bytes.ofString (String.ofList (line.toList.take k)) = (Bytes.ofString line).take k ∧
      ∀ line' refusal', read line' = .error refusal' → k < (Bytes.ofString line).length →
        (Bytes.ofString line').take (k + 1) = (Bytes.ofString line).take (k + 1) →
        refusal'.column = refusal.column := by
  obtain ⟨k, hk⟩ := exists_isGreatest_openings line.toList
  have hcolumn := column_of_read h hk
  obtain ⟨hle, htake⟩ := take_ofString hk.1
  have hk' : IsGreatest (viableLengths line) k := by rwa [viableLengths_eq]
  refine ⟨k, hcolumn, hk', by omega, by omega, ?_, htake, ?_⟩
  · rw [← htake]
    exact Bytes.lt_of_mem_ofString_of_ascii (ascii_of_opens hk.1.2)
  · intro line' refusal' h' hlt hsame
    obtain ⟨n, hn⟩ := exists_isGreatest_openings line'.toList
    have hn' : IsGreatest (viableLengths line') n := by rwa [viableLengths_eq]
    have hlong : k + 1 ≤ (Bytes.ofString line').length := by
      have := congrArg List.length hsame
      simp only [List.length_take] at this
      omega
    have hshort : (Bytes.ofString line').take k = (Bytes.ofString line).take k := by
      have := congrArg (List.take k) hsame
      rwa [List.take_take, List.take_take, Nat.min_eq_left (Nat.le_succ k)] at this
    have hup : k ≤ n := hn'.2 ⟨by omega, by rw [hshort]; exact hk'.1.2⟩
    have hdown : n ≤ k := by
      by_contra hlate
      have hpre : (Bytes.ofString line').take (k + 1) <+: (Bytes.ofString line').take n :=
        List.take_prefix_take_left (by omega)
      have hviable : Viable ((Bytes.ofString line).take (k + 1)) := by
        rw [← hsame]
        exact hn'.1.2.beginning hpre
      exact absurd (hk'.2 ⟨hlt, hviable⟩) (by omega)
    rw [column_of_read h' hn, hcolumn, Nat.le_antisymm hup hdown]

/-- An input file behind a bar is out of place, and so is any other character there that no pipeline
goes on with. -/
theorem column_of_late_input :
    read "a | b < in" = .error ⟨7⟩ ∧
      ∃ k, (⟨7⟩ : Unreadable).column = k + 1 ∧ IsGreatest (viableLengths "a | b < in") k ∧
      ∀ line' refusal', read line' = .error refusal' → k < (Bytes.ofString "a | b < in").length →
        (Bytes.ofString line').take (k + 1) = (Bytes.ofString "a | b < in").take (k + 1) →
        refusal'.column = 7 := by
  have hread : read "a | b < in" = .error ⟨7⟩ := by decide +kernel
  obtain ⟨k, hcolumn, hgreatest, -, -, -, -, hsame⟩ := column_exact _ _ hread
  exact ⟨hread, k, hcolumn, hgreatest, hsame⟩

end PipeShell.Line
