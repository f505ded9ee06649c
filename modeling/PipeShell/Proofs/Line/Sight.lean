import PipeShell.Proofs.Line.Pieces

/-!
How far a reader sees. The pieces of the reader move forward only, and what one of them does depends
on nothing but the characters that it moves over and the one before which it stops. The reader of
pipelines is put together from such pieces, one after the other.
-/

set_option autoImplicit false
set_option relaxedAutoImplicit false

namespace PipeShell.Line

open Cursor

variable {β γ : Type}

namespace Cursor

/-- The second place is reached from the first one, and nothing behind it was reached on the way. -/
def Moves (c d : Cursor) : Prop :=
  (∃ text, c.rest = text ++ d.rest ∧ d.offset = c.offset + text.length) ∧
    (c.offset ≤ c.furthest → d.furthest = max c.furthest d.offset)

theorem Moves.refl (c : Cursor) : Moves c c := ⟨⟨[], rfl, rfl⟩, fun h => (Nat.max_eq_left h).symm⟩

theorem Moves.trans {c d e : Cursor} (h : Moves c d) (h' : Moves d e) : Moves c e := by
  obtain ⟨⟨text, hrest, hoffset⟩, hfurthest⟩ := h
  obtain ⟨⟨more, hrest', hoffset'⟩, hfurthest'⟩ := h'
  refine ⟨⟨text ++ more, by rw [hrest, hrest', List.append_assoc], ?_⟩, fun hc => ?_⟩
  · rw [hoffset', hoffset, List.length_append]
    omega
  · have hd := hfurthest hc
    rw [hfurthest' (by omega), hd]
    omega

theorem moves_takeWhile (p : Char → Bool) (c : Cursor) : Moves c (c.takeWhile p).2 := by
  refine ⟨⟨c.rest.takeWhile p, by simp, rfl⟩, fun _ => rfl⟩

theorem moves_advance {c : Cursor} {text rest : List Char} (h : c.rest = text ++ rest) :
    Moves c (c.advance text.length) :=
  ⟨⟨text, by simp [h], rfl⟩, fun _ => rfl⟩

theorem moves_eat {c d : Cursor} {mark : Char} (h : c.eat mark = some d) : Moves c d := by
  have hrest := eat_sound h
  obtain rfl : c.advance 1 = d := by simpa [eat, hrest] using h
  have hsplit : c.rest = [mark] ++ (c.advance 1).rest := hrest
  exact moves_advance hsplit

theorem moves_keyword {c d : Cursor} {word : List Char}
    (h : c.keyword word = some d) : Moves c d := by
  have hrest := keyword_sound h
  unfold keyword at h
  split at h
  · obtain rfl := Option.some.inj h
    exact moves_advance hrest
  · cases h

theorem takeWhile_near {p : Char → Bool} {c c' : Cursor} {text : List Char}
    {x : Char} {more more' : List Char} (h : c.rest = text ++ x :: more)
    (hstop : (c.takeWhile p).2.rest = x :: more) (h' : c'.rest = text ++ x :: more') :
    (c'.takeWhile p).1 = (c.takeWhile p).1 ∧ (c'.takeWhile p).2.rest = x :: more' := by
  rw [rest_takeWhile] at hstop
  have hx : Stops p (x :: more') :=
    Stops.cons (stops_dropWhile p c.rest x (by rw [hstop]; rfl)) more'
  have hrun : c.rest.takeWhile p = text := by
    have hsplit : c.rest.takeWhile p ++ c.rest.dropWhile p = c.rest :=
      List.takeWhile_append_dropWhile
    rw [hstop, h] at hsplit
    rw [h]
    exact List.append_cancel_right hsplit
  have hall : ∀ d ∈ text, p d = true := fun d hd => List.mem_takeWhile_imp (hrun ▸ hd)
  refine ⟨?_, ?_⟩
  · rw [fst_takeWhile, fst_takeWhile, hrun, h', List.takeWhile_append_of_pos hall,
      hx.takeWhile_eq, List.append_nil]
  · rw [rest_takeWhile, h', List.dropWhile_append_of_pos hall, hx.dropWhile_eq]

end Cursor

/-- A reader of a piece of a line: what it has read, if it does not fail, and the place that was
reached. -/
abbrev Reader (β : Type) := Cursor → Option β × Cursor

namespace Reader

def give (b : β) : Reader β := fun c => (some b, c)

def andThen (R : Reader β) (S : β → Reader γ) : Reader γ := fun c =>
  match R c with
  | (none, d) => (none, d)
  | (some b, d) => S b d

def ifMark (mark : Char) (present absent : Reader β) : Reader β := fun c =>
  match c.eat mark with
  | none => absent c
  | some d => present d

def blanks : Reader Unit := fun c => (some (), c.skipBlanks)

def arguments : Reader (List String) := fun c => (some (moreParts c).1, (moreParts c).2.skipBlanks)

def spacedCommand : Reader (List String) :=
  andThen Cursor.part fun text => andThen arguments fun more => give (text :: more)

def ending (stages : List Stage) : Form :=
  ifMark '&' (andThen blanks fun _ => give (.run ⟨stages, true⟩)) (give (.run ⟨stages, false⟩))

section

variable {R : Reader β} {S : β → Reader γ} {c d : Cursor}

theorem andThen_of_none (h : R c = (none, d)) :
    R.andThen S c = (none, d) := by simp only [andThen, h]

theorem andThen_of_some {b : β} (h : R c = (some b, d)) :
    R.andThen S c = S b d := by simp only [andThen, h]

theorem ifMark_of_none {mark : Char} {present absent : Reader β} (h : c.eat mark = none) :
    ifMark mark present absent c = absent c := by simp only [ifMark, h]

theorem ifMark_of_some {mark : Char} {present absent : Reader β} (h : c.eat mark = some d) :
    ifMark mark present absent c = present d := by simp only [ifMark, h]

end

/-- At some place, a reader moves forward, and it would do the same at any other place with the same
characters in front, up to the one before which it stops. -/
structure Steady (R : Reader β) (c : Cursor) : Prop where
  moves : Moves c (R c).2
  near : ∀ {c' : Cursor} {text : List Char} {x : Char} {more more' : List Char},
    c.rest = text ++ x :: more → (R c).2.rest = x :: more → c'.rest = text ++ x :: more' →
    (R c').1 = (R c).1 ∧ (R c').2.rest = x :: more'

theorem steady_give (b : β) (c : Cursor) : Steady (give b) c where
  moves := .refl c
  near := by
    intro c' text x more more' h hstop h'
    have hstop' : c.rest = x :: more := hstop
    have hnil : text = [] := by
      rw [hstop'] at h
      exact (List.append_left_eq_self.mp h.symm)
    exact ⟨rfl, by rw [give, h', hnil, List.nil_append]⟩

theorem steady_blanks (c : Cursor) : Steady blanks c where
  moves := moves_takeWhile isBlank c
  near := fun h hstop h' => ⟨rfl, (takeWhile_near h hstop h').2⟩

private theorem part_eq (c : Cursor) :
    c.part = (if (c.takeWhile isPart).1 = [] then none
      else some (String.ofList (c.takeWhile isPart).1),
      (c.takeWhile isPart).2) := by
  unfold Cursor.part
  rcases c.takeWhile isPart with ⟨_ | ⟨a, run⟩, d⟩ <;> rfl

theorem steady_part (c : Cursor) : Steady Cursor.part c where
  moves := by
    rw [part_eq]
    exact moves_takeWhile isPart c
  near := by
    intro c' text x more more' h hstop h'
    rw [part_eq] at hstop
    obtain ⟨hrun, hrest⟩ := takeWhile_near h hstop h'
    rw [part_eq, part_eq, hrun]
    exact ⟨rfl, hrest⟩

private theorem split_near {c d : Cursor} {text last : List Char} {x : Char} {more : List Char}
    (hc : c.rest = text ++ x :: more) (hlast : last <:+ d.rest) (hstop : last = x :: more)
    (hd : ∃ first, c.rest = first ++ d.rest) :
    ∃ first second, text = first ++ second ∧ c.rest = first ++ d.rest ∧
      d.rest = second ++ x :: more := by
  obtain ⟨first, hfirst⟩ := hd
  obtain ⟨second, hsecond⟩ := hlast
  refine ⟨first, second, ?_, hfirst, by rw [← hsecond, hstop]⟩
  rw [hfirst, ← hsecond, hstop, ← List.append_assoc] at hc
  exact (List.append_cancel_right hc).symm

theorem Steady.andThen {R : Reader β} {S : β → Reader γ} {c : Cursor} (hR : Steady R c)
    (hS : ∀ b d, R c = (some b, d) → Steady (S b) d) : Steady (R.andThen S) c := by
  rcases hc : R c with ⟨_ | b, d⟩
  · refine ⟨?_, fun {c'} text x more more' h hstop h' => ?_⟩
    · rw [andThen_of_none hc]
      simpa only [hc] using hR.moves
    · rw [andThen_of_none hc] at hstop ⊢
      obtain ⟨hnone, hrest⟩ := hR.near h (by rw [hc]; exact hstop) h'
      rcases hc' : R c' with ⟨_ | b', d'⟩
      · rw [andThen_of_none hc']
        rw [hc'] at hrest
        exact ⟨rfl, hrest⟩
      · rw [hc, hc'] at hnone
        cases hnone
  · have hsteady := hS b d hc
    have hmoves : Moves c d := by simpa only [hc] using hR.moves
    refine ⟨?_, fun {c'} text x more more' h hstop h' => ?_⟩
    · rw [andThen_of_some hc]
      exact hmoves.trans hsteady.moves
    · rw [andThen_of_some hc] at hstop ⊢
      obtain ⟨⟨between, hbetween, -⟩, -⟩ := hsteady.moves
      obtain ⟨⟨whole, hwhole, -⟩, -⟩ := hmoves
      obtain ⟨first, second, rfl, hfirst, hsecond⟩ :=
        split_near h ⟨between, hbetween.symm⟩ hstop ⟨whole, hwhole⟩
      -- the first reader stops at the next character of the text, or at the one behind it
      obtain ⟨y, rest, hy⟩ : ∃ y rest, second ++ [x] = y :: rest :=
        List.exists_cons_of_ne_nil (by simp)
      have hjoin (tail : List Char) : second ++ x :: tail = y :: (rest ++ tail) := by
        rw [← List.cons_append, ← hy]
        simp
      have hplace : c.rest = first ++ y :: (rest ++ more) := by rw [hfirst, hsecond, hjoin]
      have hreached : (R c).2.rest = y :: (rest ++ more) := by rw [hc, hsecond, hjoin]
      have hplace' : c'.rest = first ++ y :: (rest ++ more') := by rw [h', List.append_assoc, hjoin]
      obtain ⟨hvalue, hrest⟩ := hR.near hplace hreached hplace'
      rcases hc' : R c' with ⟨_ | b', d'⟩
      · rw [hc, hc'] at hvalue
        cases hvalue
      · rw [hc, hc'] at hvalue
        obtain rfl := Option.some.inj hvalue
        rw [hc'] at hrest
        rw [andThen_of_some hc']
        exact hsteady.near hsecond hstop (by rw [hrest, hjoin])

theorem Steady.ifMark {mark : Char} {present absent : Reader β} {c : Cursor}
    (habsent : Steady absent c) (hpresent : ∀ d, c.eat mark = some d → Steady present d) :
    Steady (ifMark mark present absent) c := by
  cases hc : c.eat mark with
  | none =>
    refine ⟨by rw [ifMark_of_none hc]; exact habsent.moves,
      fun {c'} text x more more' h hstop h' => ?_⟩
    rw [ifMark_of_none hc] at hstop ⊢
    have hhead : c'.rest.head? = c.rest.head? := by
      rw [h, h']
      cases text <;> rfl
    have hnone : c'.eat mark = none := by
      apply eat_none
      rw [hhead]
      intro heq
      obtain ⟨rest, hrest⟩ := List.head?_eq_some_iff.mp heq
      obtain ⟨d, hd, -⟩ := eat_complete hrest
      rw [hc] at hd
      cases hd
    rw [ifMark_of_none hnone]
    exact habsent.near h hstop h'
  | some d =>
    have hsteady := hpresent d hc
    refine ⟨by rw [ifMark_of_some hc]; exact (moves_eat hc).trans hsteady.moves, ?_⟩
    intro c' text x more more' h hstop h'
    rw [ifMark_of_some hc] at hstop ⊢
    have hmark : c.rest = [mark] ++ d.rest := eat_sound hc
    obtain ⟨⟨between, hbetween, -⟩, -⟩ := hsteady.moves
    obtain ⟨first, second, rfl, hfirst, hsecond⟩ :=
      split_near h ⟨between, hbetween.symm⟩ hstop ⟨[mark], hmark⟩
    obtain rfl : first = [mark] := List.append_cancel_right (hfirst.symm.trans hmark)
    have hplace : c'.rest = mark :: (second ++ x :: more') := by
      rw [h']
      rfl
    obtain ⟨d', hd', hrest⟩ := eat_complete hplace
    rw [ifMark_of_some hd']
    exact hsteady.near hsecond hstop hrest

theorem part_fails {c d : Cursor} (h : c.part = (none, d)) :
    Stops isPart c.rest ∧ d = c.advance 0 := by
  rw [part_eq] at h
  obtain ⟨hnone, rfl⟩ := Prod.mk.inj h
  have hrun : c.rest.takeWhile isPart = [] := by
    by_contra hne
    rw [fst_takeWhile, if_neg hne] at hnone
    cases hnone
  constructor
  · have hrest : c.rest = c.rest.takeWhile isPart ++ c.rest.dropWhile isPart :=
      List.takeWhile_append_dropWhile.symm
    rw [hrest, hrun]
    exact stops_dropWhile isPart c.rest
  · show c.advance (c.rest.takeWhile isPart).length = c.advance 0
    rw [hrun]
    rfl

private theorem skipBlanks_backTo (c : Cursor) :
    (c.backTo (c.skipBlanks.advance 0)).skipBlanks = c.skipBlanks := by
  have hfurthest (f o : Nat) : max (max (max f o) (o + 0)) o = max f o := by omega
  exact congrArg (Cursor.mk _ _)
    (hfurthest c.furthest (c.offset + (c.rest.takeWhile isBlank).length))

private def oneMore : Reader (List String) :=
  blanks.andThen fun _ => andThen Cursor.part fun text => andThen arguments fun more =>
    give (text :: more)

private theorem arguments_of_apart {c : Cursor} (h : c.rest.takeWhile isBlank = []) :
    arguments c = (some [], c.skipBlanks) := by
  unfold arguments
  rw [moreParts]
  split
  · rfl
  · next heq =>
    have hrun := congrArg Prod.fst heq
    rw [fst_takeWhile, h] at hrun
    cases hrun

private theorem arguments_of_end {c : Cursor} (h : Stops isPart c.skipBlanks.rest) :
    arguments c = (some [], c.skipBlanks) := by
  obtain ⟨d, hd, -⟩ := part_none h
  unfold arguments
  rw [moreParts]
  split
  · rfl
  · split
    · next heq =>
      rw [(part_fails heq).2, skipBlanks_backTo]
    · next heq =>
      rw [hd] at heq
      cases heq

private theorem arguments_of_part {c d : Cursor} {text : String}
    (hne : c.rest.takeWhile isBlank ≠ []) (h : c.skipBlanks.part = (some text, d)) :
    arguments c = oneMore c := by
  have hmore : oneMore c = (some (text :: (moreParts d).1), (moreParts d).2.skipBlanks) := by
    unfold oneMore blanks andThen
    simp only [h]
    rfl
  rw [hmore]
  unfold arguments
  rw [moreParts]
  split
  · next heq => exact absurd (congrArg Prod.fst heq) hne
  · split
    · next heq =>
      rw [h] at heq
      cases heq
    · next heq =>
      obtain ⟨htext, rfl⟩ := Prod.mk.inj (h.symm.trans heq)
      obtain rfl := Option.some.inj htext
      rfl

private theorem steady_of_blanks {c : Cursor} (heq : arguments c = (some [], c.skipBlanks))
    (hsame : ∀ {c' : Cursor}, c'.rest.takeWhile isBlank = c.rest.takeWhile isBlank →
      c'.skipBlanks.rest.head? = c.skipBlanks.rest.head? →
      arguments c' = (some [], c'.skipBlanks)) :
    Steady arguments c := by
  refine ⟨by rw [heq]; exact moves_takeWhile isBlank c, fun {c'} text x more more' h hstop h' => ?_⟩
  rw [heq] at hstop ⊢
  obtain ⟨hrun, hrest⟩ := takeWhile_near h hstop h'
  have hhead : c'.skipBlanks.rest.head? = c.skipBlanks.rest.head? := by
    rw [skipBlanks, hrest, hstop]
    rfl
  rw [hsame hrun hhead]
  exact ⟨rfl, hrest⟩

theorem steady_arguments (c : Cursor) : Steady arguments c := by
  induction c using moreParts.induct with
  | case1 c d hrun =>
    have hnone : c.rest.takeWhile isBlank = [] := congrArg Prod.fst hrun
    exact steady_of_blanks (arguments_of_apart hnone) fun hsame _ =>
      arguments_of_apart (hsame.trans hnone)
  | case2 c b gap d hrun e hpart =>
    have hstop := (part_fails hpart).1
    refine steady_of_blanks (arguments_of_end hstop) fun _ hhead =>
      arguments_of_end fun a ha => hstop a ?_
    rwa [← hhead]
  | case3 c b gap d hrun text e hpart _ ih =>
    have hsome : c.rest.takeWhile isBlank = b :: gap := congrArg Prod.fst hrun
    have hne : c.rest.takeWhile isBlank ≠ [] := by simp [hsome]
    have hmore : Steady oneMore c := by
      refine (steady_blanks c).andThen fun _ d hd => (steady_part d).andThen fun text' f hf => ?_
      obtain rfl : c.skipBlanks = d := (Prod.mk.inj hd).2
      obtain rfl : e = f := (Prod.mk.inj (hpart.symm.trans hf)).2
      exact ih.andThen fun _ g _ => steady_give _ g
    have heq := arguments_of_part hne hpart
    refine ⟨by rw [heq]; exact hmore.moves, fun {c'} text' x more more' h hstop h' => ?_⟩
    rw [heq] at hstop ⊢
    obtain ⟨hvalue, hrest⟩ := hmore.near h hstop h'
    have hne' : c'.rest.takeWhile isBlank ≠ [] := by
      have hhead : c'.rest.head? = some b := by
        have hsplit : c.rest.takeWhile isBlank ++ c.rest.dropWhile isBlank = c.rest :=
          List.takeWhile_append_dropWhile
        have hb : c.rest.head? = some b := by
          rw [← hsplit, hsome]
          rfl
        rw [← hb, h, h']
        cases text' <;> rfl
      obtain ⟨tail, htail⟩ := List.head?_eq_some_iff.mp hhead
      have hblank : isBlank b = true := List.mem_takeWhile_imp (hsome ▸ List.mem_cons_self)
      rw [htail, List.takeWhile_cons_of_pos hblank]
      simp
    have heq' : arguments c' = oneMore c' := by
      rcases hpart' : c'.skipBlanks.part with ⟨_ | text', d'⟩
      · -- one more argument was read at the other place, and so it is here
        have hfails : (oneMore c').1 = none := congrArg Prod.fst (andThen_of_none hpart')
        rw [hfails, ← heq] at hvalue
        cases hvalue
      · exact arguments_of_part hne' hpart'
    rw [heq']
    exact ⟨hvalue, hrest⟩

theorem steady_spacedCommand (c : Cursor) : Steady spacedCommand c :=
  (steady_part c).andThen fun _ d _ => (steady_arguments d).andThen fun _ e _ => steady_give _ e

/-! ### The pieces of the reader of pipelines -/

theorem redirection_eq (mark : Char) :
    redirection mark = ifMark mark
      (andThen blanks fun _ => andThen Cursor.part fun file => give (some file))
      (give none) := by
  funext c
  unfold redirection
  split
  · next hmark => rw [ifMark_of_none hmark, give]
  · next d hmark =>
    rw [ifMark_of_some hmark]
    show _ = andThen Cursor.part _ d.skipBlanks
    split
    · next hpart => rw [andThen_of_none hpart]
    · next hpart => rw [andThen_of_some hpart, give]

theorem steady_redirection (mark : Char) (c : Cursor) : Steady (redirection mark) c := by
  rw [redirection_eq]
  refine (steady_give _ c).ifMark fun d _ => (steady_blanks d).andThen fun _ e _ => ?_
  exact (steady_part e).andThen fun _ f _ => steady_give _ f

theorem spacedCommand_of_none {c d : Cursor} (h : c.command = (none, d)) :
    spacedCommand c = (none, d) := by
  unfold Cursor.command at h
  split at h
  · next hpart =>
    obtain ⟨-, rfl⟩ := Prod.mk.inj h
    exact andThen_of_none hpart
  · cases h

theorem spacedCommand_of_some {c d : Cursor} {words : List String}
    (h : c.command = (some words, d)) : spacedCommand c = (some words, d.skipBlanks) := by
  unfold Cursor.command at h
  split at h
  · cases h
  · next hpart =>
    obtain ⟨hwords, rfl⟩ := Prod.mk.inj h
    obtain rfl := Option.some.inj hwords
    rw [spacedCommand, andThen_of_some hpart]
    rfl

theorem moreCommands_eq (c : Cursor) :
    moreCommands c = ifMark '|' (andThen blanks fun _ => andThen spacedCommand fun words =>
      andThen moreCommands fun others => give (words :: others)) (give []) c := by
  rw [moreCommands]
  split
  · next hbar => rw [ifMark_of_none hbar, give]
  · next d hbar =>
    rw [ifMark_of_some hbar]
    show _ = andThen spacedCommand _ d.skipBlanks
    split
    · next hcommand => rw [andThen_of_none (spacedCommand_of_none hcommand)]
    · next words e hcommand =>
      rw [andThen_of_some (spacedCommand_of_some hcommand)]
      rcases hmore : e.skipBlanks.moreCommands with ⟨_ | others, f⟩
      · rw [andThen_of_none hmore]
        rfl
      · rw [andThen_of_some hmore]
        rfl

theorem steady_moreCommands (c : Cursor) : Steady moreCommands c := by
  rw [funext moreCommands_eq]
  refine (steady_give _ c).ifMark fun d hd => (steady_blanks d).andThen fun _ e he => ?_
  refine (steady_spacedCommand e).andThen fun words f hf => ?_
  have hshort : f.rest.length < c.rest.length := by
    have hbar := length_rest_eat hd
    have hgap := length_rest_skipBlanks d
    obtain rfl : d.skipBlanks = e := (Prod.mk.inj he).2
    obtain ⟨⟨text, htext, -⟩, -⟩ := (steady_spacedCommand d.skipBlanks).moves
    have hlength := congrArg List.length htext
    rw [hf, List.length_append] at hlength
    dsimp only at hlength
    omega
  exact (steady_moreCommands f).andThen fun _ g _ => steady_give _ g
termination_by c.rest.length

theorem pipelineForm_eq :
    pipelineForm = andThen blanks fun _ => andThen spacedCommand fun first =>
      andThen (redirection '<') fun input => andThen blanks fun _ =>
        andThen moreCommands fun others =>
      andThen (redirection '>') fun output => andThen blanks fun _ =>
        ending (assemble first others input output) := by
  funext c
  unfold pipelineForm
  show _ = andThen spacedCommand _ c.skipBlanks
  split
  · next hcommand => rw [andThen_of_none (spacedCommand_of_none hcommand)]
  · next first c₁ hcommand =>
    rw [andThen_of_some (spacedCommand_of_some hcommand)]
    split
    · next hinput => rw [andThen_of_none hinput]
    · next input c₂ hinput =>
      rw [andThen_of_some hinput]
      show _ = andThen moreCommands _ c₂.skipBlanks
      split
      · next hmore => rw [andThen_of_none hmore]
      · next others c₃ hmore =>
        rw [andThen_of_some hmore]
        split
        · next houtput => rw [andThen_of_none houtput]
        · next output c₄ houtput =>
          rw [andThen_of_some houtput]
          show _ = ending _ c₄.skipBlanks
          unfold ending
          dsimp only
          split
          · next hmark => rw [ifMark_of_none hmark, give]
          · next hmark =>
            rw [ifMark_of_some hmark]
            rfl

theorem steady_ending (run : List Stage) (c : Cursor) : Steady (ending run) c :=
  (steady_give _ c).ifMark fun d _ => (steady_blanks d).andThen fun _ e _ => steady_give _ e

/-- The reader of pipelines moves forward only, and sees no further than to the character before
which it stops. -/
theorem steady_pipelineForm (c : Cursor) : Steady pipelineForm c := by
  rw [pipelineForm_eq]
  refine (steady_blanks c).andThen fun _ c _ => (steady_spacedCommand c).andThen fun _ c _ => ?_
  refine (steady_redirection '<' c).andThen fun _ c _ => (steady_blanks c).andThen fun _ c _ => ?_
  refine (steady_moreCommands c).andThen fun _ c _ =>
    (steady_redirection '>' c).andThen fun _ c _ => ?_
  exact (steady_blanks c).andThen fun _ c _ => steady_ending _ c

end Reader

end PipeShell.Line
