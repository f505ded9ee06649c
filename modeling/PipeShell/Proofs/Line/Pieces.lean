import PipeShell.Line.Reader
import PipeShell.Proofs.Line.Grammar
import Mathlib.Data.List.TakeWhile

/-!
The pieces of the reader against the symbols of the grammar. Each piece takes what the symbol
derives (soundness), and takes all of it when what follows cannot prolong it (completeness).
-/

set_option autoImplicit false
set_option relaxedAutoImplicit false

namespace PipeShell.Line

open Grammar

/-! ### Characters -/

theorem isBlank_iff {c : Char} : isBlank c = true ↔ c = ' ' ∨ c = '\t' := by
  simp [isBlank]

theorem isAlphanumeric_iff {c : Char} : isAlphanumeric c = true ↔ c.isAlphanum = true := by
  have hranges : c.isAlphanum = ((decide ('A'.val ≤ c.val ∧ c.val ≤ 'Z'.val) ||
      decide ('a'.val ≤ c.val) && decide (c.val ≤ 'z'.val)) ||
      decide ('0'.val ≤ c.val) && decide (c.val ≤ '9'.val)) := rfl
  rw [hranges]
  simp only [isAlphanumeric, Bool.or_eq_true, Bool.and_eq_true, decide_eq_true_eq, Char.le_def]
  exact or_congr_left or_comm

theorem isPart_iff {c : Char} : isPart c = true ↔ PartCharacter c := by
  simp [isPart, PartCharacter, isAlphanumeric_iff, or_assoc]

theorem isPart_of_isBlank {c : Char} (h : isBlank c = true) : isPart c = false := by
  rcases isBlank_iff.mp h with rfl | rfl <;> rfl

theorem isBlank_of_isPart {c : Char} (h : isPart c = true) : isBlank c = false := by
  by_contra hb
  simp [isPart_of_isBlank (by simpa using hb)] at h

theorem isIdentifier_of_isPart {c : Char} (h : isPart c = false) : isIdentifier c = false := by
  simp only [isPart, Bool.or_eq_false_iff] at h
  simp only [isIdentifier, Bool.or_eq_false_iff]
  exact ⟨h.1.1.1.1, h.1.1.1.2⟩

theorem Blanks.forall_isBlank {gap : List Char} (h : Blanks gap) : ∀ c ∈ gap, isBlank c = true :=
  fun c hc => isBlank_iff.mpr (h c hc)

theorem Part.forall_isPart {word : List Char} (h : Part word) : ∀ c ∈ word, isPart c = true :=
  fun c hc => isPart_iff.mpr (h.2 c hc)

/-- No character in front of the text satisfies the predicate: the text does not prolong a run of
such characters. -/
def Stops (p : Char → Bool) (text : List Char) : Prop := ∀ c ∈ text.head?, p c = false

theorem Stops.cons {p : Char → Bool} {c : Char} (h : p c = false) (text : List Char) :
    Stops p (c :: text) := by
  intro d hd
  obtain rfl : c = d := by simpa using hd
  exact h

theorem Stops.dropWhile_eq {p : Char → Bool} {text : List Char} (h : Stops p text) :
    text.dropWhile p = text := by
  cases text with
  | nil => rfl
  | cons c text => rw [List.dropWhile_cons_of_neg (by simpa using h c rfl)]

theorem Stops.takeWhile_eq {p : Char → Bool} {text : List Char} (h : Stops p text) :
    text.takeWhile p = [] := by
  cases text with
  | nil => rfl
  | cons c text => rw [List.takeWhile_cons_of_neg (by simpa using h c rfl)]

theorem stops_dropWhile (p : Char → Bool) (text : List Char) : Stops p (text.dropWhile p) := by
  intro c hc
  have h := List.head?_dropWhile_not p text
  rw [Option.mem_def.mp hc] at h
  exact h

theorem Blanks.stops_isPart {gap text : List Char} (h : Blanks gap) (ht : Stops isPart text) :
    Stops isPart (gap ++ text) := by
  cases gap with
  | nil => exact ht
  | cons c gap => exact Stops.cons (isPart_of_isBlank (Blanks.forall_isBlank h c (by simp))) _

theorem Part.stops_isBlank {word : List Char} (h : Part word) (text : List Char) :
    Stops isBlank (word ++ text) := by
  obtain ⟨c, tail, rfl⟩ := List.exists_cons_of_ne_nil h.1
  exact Stops.cons (isBlank_of_isPart (Part.forall_isPart h c (by simp))) _

theorem Blanks.dropWhile_append {gap : List Char} (h : Blanks gap) (text : List Char) :
    (gap ++ text).dropWhile isBlank = text.dropWhile isBlank :=
  List.dropWhile_append_of_pos (Blanks.forall_isBlank h)

theorem blanks_takeWhile (text : List Char) : Blanks (text.takeWhile isBlank) :=
  fun _ hc => isBlank_iff.mp (List.mem_takeWhile_imp hc)

def Solid (text : List Char) : Prop := Stops isBlank text ∧ Stops isPart text

theorem Solid.cons {c : Char} (hb : isBlank c = false) (hp : isPart c = false) (text : List Char) :
    Solid (c :: text) :=
  ⟨Stops.cons hb text, Stops.cons hp text⟩

theorem Terminator.solid {ending : List Char} (h : Terminator ending) : Solid ending := by
  rcases h with rfl | rfl | rfl
  · exact ⟨by simp [Stops], by simp [Stops]⟩
  · exact Solid.cons rfl rfl _
  · exact Solid.cons rfl rfl _

/-! ### Pieces of the reader -/

namespace Cursor

@[simp] theorem rest_advance (n : Nat) (c : Cursor) : (c.advance n).rest = c.rest.drop n := rfl

@[simp] theorem rest_takeWhile (p : Char → Bool) (c : Cursor) :
    (c.takeWhile p).2.rest = c.rest.dropWhile p := by
  have h : c.rest = c.rest.takeWhile p ++ c.rest.dropWhile p := List.takeWhile_append_dropWhile.symm
  calc c.rest.drop (c.rest.takeWhile p).length
      = (c.rest.takeWhile p ++ c.rest.dropWhile p).drop (c.rest.takeWhile p).length := by rw [← h]
    _ = c.rest.dropWhile p := List.drop_left

@[simp] theorem fst_takeWhile (p : Char → Bool) (c : Cursor) :
    (c.takeWhile p).1 = c.rest.takeWhile p := rfl

@[simp] theorem rest_skipBlanks (c : Cursor) : c.skipBlanks.rest = c.rest.dropWhile isBlank :=
  rest_takeWhile isBlank c

theorem skipBlanks_sound (c : Cursor) : ∃ gap, Blanks gap ∧ c.rest = gap ++ c.skipBlanks.rest :=
  ⟨c.rest.takeWhile isBlank, blanks_takeWhile c.rest, by simp⟩

theorem part_sound {c d : Cursor} {text : String} (h : c.part = (some text, d)) :
    ∃ word, Part word ∧ text = String.ofList word ∧ c.rest = word ++ d.rest := by
  have hrest := rest_takeWhile isPart c
  have hrun := fst_takeWhile isPart c
  unfold part at h
  rcases hc : c.takeWhile isPart with ⟨_ | ⟨a, run⟩, e⟩
  · simp [hc] at h
  · simp only [hc] at h hrest hrun
    simp only [Prod.mk.injEq, Option.some.injEq] at h
    obtain ⟨rfl, rfl⟩ := h
    refine ⟨a :: run, ⟨by simp, ?_⟩, rfl, ?_⟩
    · intro x hx
      rw [hrun] at hx
      exact isPart_iff.mp (List.mem_takeWhile_imp hx)
    · rw [hrun, hrest, List.takeWhile_append_dropWhile]

theorem part_complete {c : Cursor} {word rest : List Char} (hc : c.rest = word ++ rest)
    (hw : Part word) (hs : Stops isPart rest) :
    ∃ d, c.part = (some (String.ofList word), d) ∧ d.rest = rest := by
  have hrun : (c.takeWhile isPart).1 = word := by
    rw [fst_takeWhile, hc, List.takeWhile_append_of_pos (Part.forall_isPart hw),
      hs.takeWhile_eq, List.append_nil]
  have hrest : (c.takeWhile isPart).2.rest = rest := by
    rw [rest_takeWhile, hc, List.dropWhile_append_of_pos (Part.forall_isPart hw), hs.dropWhile_eq]
  obtain ⟨a, run, rfl⟩ := List.exists_cons_of_ne_nil hw.1
  refine ⟨(c.takeWhile isPart).2, ?_, hrest⟩
  unfold part
  rcases he : c.takeWhile isPart with ⟨head, e⟩
  simp only [he] at hrun
  subst hrun
  rfl

theorem part_none {c : Cursor} (hs : Stops isPart c.rest) :
    ∃ d, c.part = (none, d) ∧ d.rest = c.rest := by
  have hrun : (c.takeWhile isPart).1 = [] := by rw [fst_takeWhile, hs.takeWhile_eq]
  refine ⟨(c.takeWhile isPart).2, ?_, by rw [rest_takeWhile, hs.dropWhile_eq]⟩
  unfold part
  rcases he : c.takeWhile isPart with ⟨head, e⟩
  simp only [he] at hrun
  subst hrun
  rfl

theorem eat_sound {c d : Cursor} {mark : Char} (h : c.eat mark = some d) :
    c.rest = mark :: d.rest := by
  unfold eat at h
  rcases hc : c.rest with _ | ⟨a, rest⟩
  · simp [hc] at h
  · simp only [hc] at h
    split at h
    · next hm =>
      obtain rfl := Option.some.inj h
      simp [hc, hm]
    · simp at h

theorem eat_complete {c : Cursor} {mark : Char} {rest : List Char} (hc : c.rest = mark :: rest) :
    ∃ d, c.eat mark = some d ∧ d.rest = rest :=
  ⟨c.advance 1, by simp [eat, hc], by simp [hc]⟩

theorem eat_none {c : Cursor} {mark : Char} (h : c.rest.head? ≠ some mark) : c.eat mark = none := by
  unfold eat
  cases hc : c.rest with
  | nil => rfl
  | cons a rest =>
    rw [hc] at h
    simp only [List.head?_cons, ne_eq, Option.some.injEq] at h
    simp [h]

theorem keyword_sound {c d : Cursor} {word : List Char} (h : c.keyword word = some d) :
    c.rest = word ++ d.rest := by
  unfold keyword at h
  split at h
  · next hk =>
    obtain rfl := Option.some.inj h
    obtain ⟨rest, hrest⟩ := List.isPrefixOf_iff_prefix.mp (Bool.and_eq_true_iff.mp hk).1
    simp [← hrest]
  · simp at h

theorem keyword_complete {c : Cursor} {word rest : List Char} (hc : c.rest = word ++ rest)
    (hs : Stops isIdentifier rest) : ∃ d, c.keyword word = some d ∧ d.rest = rest := by
  refine ⟨c.advance word.length, ?_, by simp [hc]⟩
  have hstart : word.isPrefixOf c.rest = true :=
    List.isPrefixOf_iff_prefix.mpr ⟨rest, hc.symm⟩
  have hnext : (c.rest.drop word.length).head?.any isIdentifier = false := by
    rw [hc, List.drop_left]
    cases hh : rest.head? with
    | none => rfl
    | some a => exact hs a hh
  unfold keyword
  rw [hstart, hnext]
  rfl

def Ends (text : List Char) : Prop := Stops isPart (text.dropWhile isBlank)

theorem Ends.stops {text : List Char} (h : Ends text) : Stops isPart text := by
  have hsplit : text = text.takeWhile isBlank ++ text.dropWhile isBlank :=
    List.takeWhile_append_dropWhile.symm
  rw [hsplit]
  exact Blanks.stops_isPart (blanks_takeWhile text) h

theorem Ends.blanks_append {gap text : List Char} (hg : Blanks gap) (h : Ends text) :
    Ends (gap ++ text) := by
  unfold Ends
  rwa [Blanks.dropWhile_append hg]

theorem Arguments.stops {text tail : List Char} {words : List String} (h : Arguments text words)
    (ht : Stops isPart tail) : Stops isPart (text ++ tail) := by
  cases h with
  | none => exact ht
  | more hg hne hw ha =>
    obtain ⟨b, gap, rfl⟩ := List.exists_cons_of_ne_nil hne
    exact Stops.cons (isPart_of_isBlank (Blanks.forall_isBlank hg b (by simp))) _

theorem moreParts_sound (c : Cursor) :
    ∃ text, Arguments text (moreParts c).1 ∧ c.rest = text ++ (moreParts c).2.rest := by
  fun_induction moreParts c with
  | case1 => exact ⟨[], .none, rfl⟩
  | case2 => exact ⟨[], .none, rfl⟩
  | case3 c b gap e hgap text d hpart _ ih =>
    obtain ⟨tail, htail, hrest⟩ := ih
    obtain ⟨word, hword, rfl, hd⟩ := part_sound hpart
    have hrun : b :: gap = c.rest.takeWhile isBlank := by rw [← fst_takeWhile, hgap]
    refine ⟨b :: gap ++ word ++ tail, .more ?_ (by simp) hword htail, ?_⟩
    · rw [hrun]
      exact blanks_takeWhile c.rest
    · calc c.rest = c.rest.takeWhile isBlank ++ c.skipBlanks.rest := by simp
        _ = b :: gap ++ word ++ tail ++ (moreParts d).2.rest := by rw [← hrun, hd, hrest]; simp

theorem moreParts_complete {text : List Char} {words : List String} (h : Arguments text words) :
    ∀ {c : Cursor} {tail : List Char}, c.rest = text ++ tail → Ends tail →
      (moreParts c).1 = words ∧ (moreParts c).2.rest = tail := by
  induction h with
  | none =>
    intro c tail hc ht
    rw [List.nil_append] at hc
    have hstop : Stops isPart c.skipBlanks.rest := by rw [rest_skipBlanks, hc]; exact ht
    obtain ⟨d, hd, -⟩ := part_none hstop
    rw [moreParts]
    split
    · exact ⟨rfl, hc⟩
    · split
      · exact ⟨rfl, hc⟩
      · next heq => simp [hd] at heq
  | @more gap word text words hg hne hw ha ih =>
    intro c tail hc ht
    rw [List.append_assoc, List.append_assoc] at hc
    have hrun : (c.takeWhile isBlank).1 = gap := by
      rw [fst_takeWhile, hc, List.takeWhile_append_of_pos (Blanks.forall_isBlank hg),
        (Part.stops_isBlank hw _).takeWhile_eq, List.append_nil]
    have hskip : c.skipBlanks.rest = word ++ (text ++ tail) := by
      rw [rest_skipBlanks, hc, Blanks.dropWhile_append hg, (Part.stops_isBlank hw _).dropWhile_eq]
    obtain ⟨d, hd, hrest⟩ := part_complete hskip hw (Arguments.stops ha ht.stops)
    obtain ⟨hwords, htail⟩ := ih hrest ht
    rw [moreParts]
    split
    · next heq => exact absurd (by rw [← hrun, heq]) hne
    · split
      · next heq => simp [hd] at heq
      · next heq =>
        obtain ⟨htext, rfl⟩ := Prod.mk.inj (hd.symm.trans heq)
        obtain rfl := Option.some.inj htext
        exact ⟨by rw [hwords], htail⟩

theorem command_sound {c d : Cursor} {words : List String} (h : c.command = (some words, d)) :
    ∃ text, Command text words ∧ c.rest = text ++ d.rest := by
  unfold command at h
  split at h
  · simp at h
  · next heq =>
    obtain ⟨hwords, rfl⟩ := Prod.mk.inj h
    obtain rfl := Option.some.inj hwords
    obtain ⟨word, hword, rfl, hrest⟩ := part_sound heq
    obtain ⟨text, htext, htail⟩ := moreParts_sound _
    exact ⟨word ++ text, .mk hword htext, by rw [hrest, htail, List.append_assoc]⟩

theorem command_complete {c : Cursor} {text tail : List Char} {words : List String}
    (h : Command text words) (hc : c.rest = text ++ tail) (ht : Ends tail) :
    ∃ d, c.command = (some words, d) ∧ d.rest = tail := by
  cases h with
  | @mk word text words hw ha =>
    rw [List.append_assoc] at hc
    obtain ⟨d, hd, hrest⟩ := part_complete hc hw (Arguments.stops ha ht.stops)
    obtain ⟨hwords, htail⟩ := moreParts_complete ha hrest ht
    exact ⟨(moreParts d).2, by rw [command, hd]; simp [hwords], htail⟩

theorem redirection_sound {c d : Cursor} {mark : Char} {file : Option String}
    (h : c.redirection mark = (some file, d)) :
    ∃ text, Redirection mark text file ∧ c.rest = text ++ d.rest := by
  unfold redirection at h
  split at h
  · obtain ⟨hfile, rfl⟩ := Prod.mk.inj h
    obtain rfl := Option.some.inj hfile
    exact ⟨[], .absent, rfl⟩
  · next e he =>
    split at h
    · simp at h
    · next heq =>
      obtain ⟨hfile, rfl⟩ := Prod.mk.inj h
      obtain rfl := Option.some.inj hfile
      obtain ⟨gap, hg, hgap⟩ := skipBlanks_sound e
      obtain ⟨word, hword, rfl, hrest⟩ := part_sound heq
      exact ⟨mark :: (gap ++ word), .present hg hword, by rw [eat_sound he, hgap, hrest]; simp⟩

theorem redirection_complete {c : Cursor} {mark : Char} {text tail : List Char}
    {file : Option String} (h : Redirection mark text file) (hm : isBlank mark = false)
    (hc : c.rest = (text ++ tail).dropWhile isBlank) (ht : Ends tail)
    (hn : (tail.dropWhile isBlank).head? ≠ some mark) :
    ∃ d, c.redirection mark = (some file, d) ∧ d.skipBlanks.rest = tail.dropWhile isBlank := by
  cases h with
  | absent =>
    rw [List.nil_append] at hc
    refine ⟨c, by rw [redirection, eat_none (by rwa [hc])], ?_⟩
    rw [rest_skipBlanks, hc, (stops_dropWhile isBlank tail).dropWhile_eq]
  | @present gap word hg hw =>
    rw [List.cons_append, (Stops.cons hm _).dropWhile_eq, List.append_assoc] at hc
    obtain ⟨d, hd, hrest⟩ := eat_complete hc
    have hskip : d.skipBlanks.rest = word ++ tail := by
      rw [rest_skipBlanks, hrest, Blanks.dropWhile_append hg,
        (Part.stops_isBlank hw _).dropWhile_eq]
    obtain ⟨e, he, htail⟩ := part_complete hskip hw ht.stops
    exact ⟨e, by rw [redirection, hd]; simp [he], by rw [rest_skipBlanks, htail]⟩

theorem moreCommands_sound (c : Cursor) :
    ∀ {others : List (List String)} {d : Cursor}, c.moreCommands = (some others, d) →
      ∃ text, FurtherCommands text others ∧ c.rest = text ++ d.rest := by
  fun_induction moreCommands c with
  | case1 c _ =>
    intro others d h
    obtain ⟨hothers, rfl⟩ := Prod.mk.inj h
    obtain rfl := Option.some.inj hothers
    exact ⟨[], .none, rfl⟩
  | case2 => intro others d h; simp at h
  | case3 c e hbar words d hcommand _ ih =>
    intro others f h
    obtain ⟨hothers, rfl⟩ := Prod.mk.inj h
    obtain ⟨more, hmore, rfl⟩ := Option.map_eq_some_iff.mp hothers
    obtain ⟨text, htext, htail⟩ := ih (d := (moreCommands d.skipBlanks).2) (by rw [← hmore])
    obtain ⟨before, hbefore, hskip⟩ := skipBlanks_sound e
    obtain ⟨command, hc, hrest⟩ := command_sound hcommand
    obtain ⟨after, hafter, hend⟩ := skipBlanks_sound d
    refine ⟨'|' :: (before ++ command ++ after ++ text), .bar hbefore hc hafter htext, ?_⟩
    rw [eat_sound hbar, hskip, hrest, hend, htail]
    simp

theorem FurtherCommands.ends {text tail : List Char} {others : List (List String)}
    (h : FurtherCommands text others) (ht : Ends tail) : Ends (text ++ tail) := by
  cases h with
  | none => exact ht
  | bar =>
    unfold Ends
    rw [List.cons_append, (Stops.cons rfl _).dropWhile_eq]
    exact Stops.cons rfl _

theorem moreCommands_complete {text : List Char} {others : List (List String)}
    (h : FurtherCommands text others) :
    ∀ {c : Cursor} {tail : List Char}, c.rest = (text ++ tail).dropWhile isBlank → Ends tail →
      (tail.dropWhile isBlank).head? ≠ some '|' →
      ∃ d, c.moreCommands = (some others, d) ∧ d.rest = tail.dropWhile isBlank := by
  induction h with
  | none =>
    intro c tail hc _ hn
    rw [List.nil_append] at hc
    have hnone : c.eat '|' = none := eat_none (by rwa [hc])
    refine ⟨c, ?_, hc⟩
    rw [moreCommands]
    split
    · rfl
    · next heq => simp [hnone] at heq
  | @bar before command after text words others hb hcommand ha hf ih =>
    intro c tail hc ht hn
    rw [List.cons_append, (Stops.cons rfl _).dropWhile_eq] at hc
    obtain ⟨d, hd, hrest⟩ := eat_complete hc
    have hfirst : Stops isBlank (command ++ (after ++ (text ++ tail))) := by
      cases hcommand with
      | mk hw _ => rw [List.append_assoc]; exact Part.stops_isBlank hw _
    have hskip : d.skipBlanks.rest = command ++ (after ++ (text ++ tail)) := by
      simp only [List.append_assoc] at hrest
      rw [rest_skipBlanks, hrest, Blanks.dropWhile_append hb, hfirst.dropWhile_eq]
    obtain ⟨e, he, htail⟩ :=
      command_complete hcommand hskip (Ends.blanks_append ha (FurtherCommands.ends hf ht))
    have hnext : e.skipBlanks.rest = (text ++ tail).dropWhile isBlank := by
      rw [rest_skipBlanks, htail, Blanks.dropWhile_append ha]
    obtain ⟨f, hmore, hlast⟩ := ih hnext ht hn
    refine ⟨f, ?_, hlast⟩
    rw [moreCommands]
    split
    · next heq => simp [hd] at heq
    · next heq =>
      obtain rfl := Option.some.inj (hd.symm.trans heq)
      split
      · next heq => simp [he] at heq
      · next heq =>
        obtain ⟨hwords, rfl⟩ := Prod.mk.inj (he.symm.trans heq)
        obtain rfl := Option.some.inj hwords
        rw [hmore]
        rfl

end Cursor

end PipeShell.Line
