import PipeShell.Proofs.Line.Pieces
import Mathlib.Data.List.Forall2

/-!
The forms of lines and whole lines. The main statement says that a line is read as an action exactly
if the grammar assigns the action to it.
-/

set_option autoImplicit false
set_option relaxedAutoImplicit false

namespace PipeShell.Line

open Grammar Cursor

/-! ### Forms -/

/-- A reader of a form takes what the grammar derives. What is left of a line that it derives is the
terminator. -/
structure Fits (form : Form) (derives : Alternative) : Prop where
  sound : ∀ {c d : Cursor} {action : Action}, form c = (some action, d) →
    ∃ body, derives body action ∧ c.rest = body ++ d.rest
  complete : ∀ {c : Cursor} {body ending : List Char} {action : Action}, derives body action →
    Terminator ending → c.rest = body ++ ending → ∃ d, form c = (some action, d) ∧ d.rest = ending
  plain : ∀ {body : List Char} {action : Action}, derives body action →
    ∀ c ∈ body, c ≠ '\n' ∧ c ≠ '\r'

private theorem blanks_plain {gap : List Char} (h : Blanks gap) :
    ∀ c ∈ gap, c ≠ '\n' ∧ c ≠ '\r' := by
  intro c hc
  rcases h c hc with rfl | rfl <;> decide

private theorem part_plain {word : List Char} (h : Part word) :
    ∀ c ∈ word, c ≠ '\n' ∧ c ≠ '\r' := by
  intro c hc
  have hpart := Part.forall_isPart h c hc
  constructor
  · rintro rfl
    simp [isPart, isAlphanumeric] at hpart
  · rintro rfl
    simp [isPart, isAlphanumeric] at hpart

private theorem plain_append {text more : List Char} (ht : ∀ c ∈ text, c ≠ '\n' ∧ c ≠ '\r')
    (hm : ∀ c ∈ more, c ≠ '\n' ∧ c ≠ '\r') : ∀ c ∈ text ++ more, c ≠ '\n' ∧ c ≠ '\r' := by
  intro c hc
  rcases List.mem_append.mp hc with h | h
  · exact ht c h
  · exact hm c h

private theorem plain_cons {mark : Char} {text : List Char} (hm : mark ≠ '\n' ∧ mark ≠ '\r')
    (ht : ∀ c ∈ text, c ≠ '\n' ∧ c ≠ '\r') : ∀ c ∈ mark :: text, c ≠ '\n' ∧ c ≠ '\r' := by
  intro c hc
  rcases List.mem_cons.mp hc with rfl | hc
  · exact hm
  · exact ht c hc

private theorem command_plain {text : List Char} {words : List String} (h : Command text words) :
    ∀ c ∈ text, c ≠ '\n' ∧ c ≠ '\r' := by
  obtain ⟨hw, ha⟩ := h
  refine plain_append (part_plain hw) ?_
  induction ha with
  | none => simp
  | more hg _ hp _ ih => exact plain_append (plain_append (blanks_plain hg) (part_plain hp)) ih

private theorem redirection_plain {mark : Char} {text : List Char} {file : Option String}
    (h : Redirection mark text file) (hm : mark ≠ '\n' ∧ mark ≠ '\r') :
    ∀ c ∈ text, c ≠ '\n' ∧ c ≠ '\r' := by
  cases h with
  | absent => simp
  | present hg hw => exact plain_cons hm (plain_append (blanks_plain hg) (part_plain hw))

private theorem furtherCommands_plain {text : List Char} {others : List (List String)}
    (h : FurtherCommands text others) : ∀ c ∈ text, c ≠ '\n' ∧ c ≠ '\r' := by
  induction h with
  | none => simp
  | bar hb hc ha _ ih =>
    exact plain_cons (by decide) (plain_append
      (plain_append (plain_append (blanks_plain hb) (command_plain hc)) (blanks_plain ha)) ih)

private theorem ampersand_plain {text : List Char} {background : Bool}
    (h : Ampersand text background) : ∀ c ∈ text, c ≠ '\n' ∧ c ≠ '\r' := by
  cases h with
  | absent => simp
  | present => exact plain_cons (by decide) (by simp)

private theorem stops_isIdentifier {text : List Char} (h : Stops isPart text) :
    Stops isIdentifier text :=
  fun c hc => isIdentifier_of_isPart (h c hc)

private theorem blanks_terminator {gap ending : List Char} (hg : Blanks gap)
    (ht : Terminator ending) : (gap ++ ending).dropWhile isBlank = ending := by
  rw [Blanks.dropWhile_append hg, (Terminator.solid ht).1.dropWhile_eq]

private theorem stops_exit (text : List Char) : Stops isBlank (['e', 'x', 'i', 't'] ++ text) :=
  Stops.cons rfl _

private theorem stops_cd (text : List Char) : Stops isBlank (['c', 'd'] ++ text) :=
  Stops.cons rfl _

theorem exitForm_fits : Fits exitForm ExitLine where
  sound := by
    intro c d action h
    unfold exitForm at h
    split at h
    · simp at h
    · next e he =>
      obtain ⟨haction, rfl⟩ := Prod.mk.inj h
      obtain rfl := Option.some.inj haction
      obtain ⟨before, hb, hbefore⟩ := skipBlanks_sound c
      obtain ⟨after, ha, hafter⟩ := skipBlanks_sound e
      refine ⟨before ++ ['e', 'x', 'i', 't'] ++ after, .mk hb ha, ?_⟩
      rw [hbefore, keyword_sound he, hafter]
      simp
  complete := by
    rintro c _ ending _ ⟨hb, ha⟩ ht hc
    rename_i before after
    have hskip : c.skipBlanks.rest = ['e', 'x', 'i', 't'] ++ (after ++ ending) := by
      rw [rest_skipBlanks, hc, List.append_assoc, List.append_assoc, Blanks.dropWhile_append hb,
        (stops_exit _).dropWhile_eq]
    obtain ⟨d, hd, hrest⟩ := keyword_complete hskip
      (stops_isIdentifier (Blanks.stops_isPart ha (Terminator.solid ht).2))
    refine ⟨d.skipBlanks, ?_, by rw [rest_skipBlanks, hrest, blanks_terminator ha ht]⟩
    unfold exitForm
    rw [show "exit".toList = ['e', 'x', 'i', 't'] from rfl, hd]
  plain := by
    rintro _ _ ⟨hb, ha⟩
    exact plain_append (plain_append (blanks_plain hb) (by simp)) (blanks_plain ha)

theorem directoryForm_fits : Fits directoryForm DirectoryLine where
  sound := by
    intro c d action h
    unfold directoryForm at h
    split at h
    · simp at h
    · next e he =>
      split at h
      · simp at h
      · next b gap f hf =>
        split at h
        · simp at h
        · next text g hg =>
          obtain ⟨haction, rfl⟩ := Prod.mk.inj h
          obtain rfl := Option.some.inj haction
          have hrun : b :: gap = e.rest.takeWhile isBlank := by rw [← fst_takeWhile, hf]
          have hgap : e.rest = b :: gap ++ f.rest := by
            have hrest := rest_takeWhile isBlank e
            rw [hf] at hrest
            rw [hrun, hrest, List.takeWhile_append_dropWhile]
          obtain ⟨before, hb, hbefore⟩ := skipBlanks_sound c
          obtain ⟨word, hw, rfl, hword⟩ := part_sound hg
          obtain ⟨after, ha, hafter⟩ := skipBlanks_sound g
          refine ⟨before ++ ['c', 'd'] ++ (b :: gap) ++ word ++ after,
            .mk hb ?_ (by simp) hw ha, ?_⟩
          · rw [hrun]
            exact blanks_takeWhile e.rest
          · rw [hbefore, keyword_sound he, hgap, hword, hafter]
            simp
  complete := by
    rintro c _ ending _ ⟨hb, hg, hne, hw, ha⟩ ht hc
    rename_i before gap word after
    have hskip : c.skipBlanks.rest = ['c', 'd'] ++ (gap ++ (word ++ (after ++ ending))) := by
      simp only [List.append_assoc] at hc
      rw [rest_skipBlanks, hc, Blanks.dropWhile_append hb, (stops_cd _).dropWhile_eq]
    have hgap : Stops isPart (gap ++ (word ++ (after ++ ending))) := by
      obtain ⟨b, gap, rfl⟩ := List.exists_cons_of_ne_nil hne
      exact Stops.cons (isPart_of_isBlank (Blanks.forall_isBlank hg b (by simp))) _
    obtain ⟨d, hd, hrest⟩ := keyword_complete hskip (stops_isIdentifier hgap)
    have hrun : (d.takeWhile isBlank).1 = gap := by
      rw [fst_takeWhile, hrest, List.takeWhile_append_of_pos (Blanks.forall_isBlank hg),
        (Part.stops_isBlank hw _).takeWhile_eq, List.append_nil]
    have hword : (d.takeWhile isBlank).2.rest = word ++ (after ++ ending) := by
      rw [rest_takeWhile, hrest, Blanks.dropWhile_append hg, (Part.stops_isBlank hw _).dropWhile_eq]
    obtain ⟨e, he, hafter⟩ :=
      part_complete hword hw (Blanks.stops_isPart ha (Terminator.solid ht).2)
    refine ⟨e.skipBlanks, ?_, by rw [rest_skipBlanks, hafter, blanks_terminator ha ht]⟩
    unfold directoryForm
    rw [show "cd".toList = ['c', 'd'] from rfl, hd]
    obtain ⟨b, gap, rfl⟩ := List.exists_cons_of_ne_nil hne
    rcases hsplit : d.takeWhile isBlank with ⟨head, f⟩
    rw [hsplit] at hrun he
    simp only at hrun he
    simp [hsplit, hrun, he]
  plain := by
    rintro _ _ ⟨hb, hg, _, hw, ha⟩
    exact plain_append (plain_append (plain_append (plain_append (blanks_plain hb) (by simp))
      (blanks_plain hg)) (part_plain hw)) (blanks_plain ha)

theorem blankForm_fits : Fits blankForm BlankLine where
  sound := by
    intro c d action h
    obtain ⟨haction, rfl⟩ := Prod.mk.inj h
    obtain rfl := Option.some.inj haction
    obtain ⟨gap, hg, hrest⟩ := skipBlanks_sound c
    exact ⟨gap, .mk hg, hrest⟩
  complete := by
    rintro c _ ending _ ⟨hb⟩ ht hc
    exact ⟨c.skipBlanks, rfl, by rw [rest_skipBlanks, hc, blanks_terminator hb ht]⟩
  plain := by
    rintro _ _ ⟨hb⟩
    exact blanks_plain hb

theorem assemble_eq_stages (first : List String) (others : List (List String))
    (input output : Option String) :
    assemble first others input output = stages (first :: others) input output := by
  induction others generalizing first input with
  | nil => simp [assemble, stages]
  | cons second others ih =>
    rw [assemble, ih, stages, stages, List.mapIdx_cons]
    simp [eq_comm]

/-- What comes behind a piece of a pipeline and the blanks after it is one of the marks, or the end
of the line. -/
private def Follows (marks : List Char) (text : List Char) : Prop :=
  ∀ c ∈ (text.dropWhile isBlank).head?, c ∈ marks ++ ['\n', '\r']

private theorem Follows.terminator {ending : List Char} (h : Terminator ending) :
    Follows [] ending := by
  intro c hc
  rw [(Terminator.solid h).1.dropWhile_eq] at hc
  rcases h with rfl | rfl | rfl <;> simp_all [eq_comm]

private theorem Follows.blanks_append {marks gap text : List Char} (hg : Blanks gap)
    (h : Follows marks text) : Follows marks (gap ++ text) := by
  unfold Follows
  rwa [Blanks.dropWhile_append hg]

private theorem Follows.mark {marks : List Char} {m : Char} (hm : m ∈ marks)
    (hb : isBlank m = false) (text : List Char) : Follows marks (m :: text) := by
  intro c hc
  rw [(Stops.cons hb text).dropWhile_eq] at hc
  obtain rfl : m = c := by simpa using hc
  exact List.mem_append_left _ hm

private theorem Follows.mono {marks more text : List Char} (h : Follows marks text)
    (hsub : marks ⊆ more) : Follows more text := by
  intro c hc
  rcases List.mem_append.mp (h c hc) with hm | he
  · exact List.mem_append_left _ (hsub hm)
  · exact List.mem_append_right _ he

private theorem Follows.ends {marks text : List Char} (h : Follows marks text)
    (hm : ((marks ++ ['\n', '\r']).any isPart) = false) : Ends text :=
  fun c hc => by simpa using List.any_eq_false.mp hm c (h c hc)

private theorem Follows.head_ne {marks text : List Char} {m : Char} (h : Follows marks text)
    (hm : m ∉ marks ++ ['\n', '\r']) : (text.dropWhile isBlank).head? ≠ some m :=
  fun hc => hm (h m hc)

private theorem ampersand_complete {c : Cursor}
    {b₃ b₄ ampersand ending : List Char} {background : Bool}
    (h₃ : Blanks b₃) (ha : Ampersand ampersand background) (h₄ : Blanks b₄) (ht : Terminator ending)
    (hc : c.skipBlanks.rest = (b₃ ++ (ampersand ++ (b₄ ++ ending))).dropWhile isBlank)
    (run : List Stage) :
    ∃ d, (match c.skipBlanks.eat '&' with
        | none => (some (Action.run ⟨run, false⟩), c.skipBlanks)
        | some c =>
          (some (Action.run ⟨run, true⟩), c.skipBlanks)) =
            (some (Action.run ⟨run, background⟩), d) ∧
      d.rest = ending := by
  rw [Blanks.dropWhile_append h₃] at hc
  cases ha with
  | absent =>
    rw [List.nil_append, blanks_terminator h₄ ht] at hc
    have hnone : c.skipBlanks.eat '&' = none := eat_none (by
      rw [hc]
      rcases ht with rfl | rfl | rfl <;> simp)
    exact ⟨c.skipBlanks, by rw [hnone], hc⟩
  | present =>
    rw [List.singleton_append, (Stops.cons rfl _).dropWhile_eq] at hc
    obtain ⟨d, hd, hrest⟩ := eat_complete hc
    exact ⟨d.skipBlanks, by rw [hd], by rw [rest_skipBlanks, hrest, blanks_terminator h₄ ht]⟩

private theorem ampersand_sound {c d : Cursor} {run : List Stage} {action : Action}
    (h : (match c.skipBlanks.eat '&' with
        | none => (some (Action.run ⟨run, false⟩), c.skipBlanks)
        | some c => (some (Action.run ⟨run, true⟩), c.skipBlanks)) = (some action, d)) :
    ∃ b₃ ampersand b₄ background, Blanks b₃ ∧ Ampersand ampersand background ∧ Blanks b₄ ∧
      action = .run ⟨run, background⟩ ∧ c.rest = b₃ ++ (ampersand ++ (b₄ ++ d.rest)) := by
  obtain ⟨b₃, h₃, e₃⟩ := skipBlanks_sound c
  split at h
  · obtain ⟨haction, rfl⟩ := Prod.mk.inj h
    exact ⟨b₃, [], [], false, h₃, .absent, by simp [Blanks], (Option.some.inj haction).symm, e₃⟩
  · next c₅ h₅ =>
    obtain ⟨haction, rfl⟩ := Prod.mk.inj h
    obtain ⟨b₄, h₄, e₄⟩ := skipBlanks_sound c₅
    refine ⟨b₃, ['&'], b₄, true, h₃, .present, h₄, (Option.some.inj haction).symm, ?_⟩
    rw [e₃, eat_sound h₅, e₄]
    rfl

private theorem pipelineForm_sound {c d : Cursor} {action : Action}
    (h : pipelineForm c = (some action, d)) :
    ∃ text, PipelineLine text action ∧ c.rest = text ++ d.rest := by
  unfold pipelineForm at h
  split at h
  · simp at h
  · next first c₁ h₁ =>
    split at h
    · simp at h
    · next input c₂ h₂ =>
      split at h
      · simp at h
      · next others c₃ h₃ =>
        split at h
        · simp at h
        · next output c₄ h₄ =>
          obtain ⟨b₀, hb₀, e₀⟩ := skipBlanks_sound c
          obtain ⟨command, hcommand, e₁⟩ := command_sound h₁
          obtain ⟨b₁, hb₁, e₂⟩ := skipBlanks_sound c₁
          obtain ⟨source, hsource, e₃⟩ := redirection_sound h₂
          obtain ⟨b₂, hb₂, e₄⟩ := skipBlanks_sound c₂
          obtain ⟨further, hfurther, e₅⟩ := moreCommands_sound _ h₃
          obtain ⟨target, htarget, e₆⟩ := redirection_sound h₄
          simp only [assemble_eq_stages] at h
          obtain ⟨b₃, ampersand, b₄, background, hb₃, hamp, hb₄, rfl, e₇⟩ := ampersand_sound h
          refine ⟨_, .mk hb₀ hcommand hb₁ hsource hb₂ hfurther htarget hb₃ hamp hb₄, ?_⟩
          rw [e₀, e₁, e₂, e₃, e₄, e₅, e₆, e₇]
          simp

private theorem Follows.ampersand {text rest : List Char} {background : Bool}
    (ha : Ampersand text background) (h : Follows [] rest) : Follows ['&'] (text ++ rest) := by
  cases ha with
  | absent => exact h.mono (by simp)
  | present => exact .mark (by simp) rfl _

private theorem Follows.redirection {marks text rest : List Char} {mark : Char}
    {file : Option String} (hr : Redirection mark text file) (hmark : isBlank mark = false)
    (h : Follows marks rest) :
    Follows (mark :: marks) (text ++ rest) := by
  cases hr with
  | absent => exact h.mono (by simp)
  | present => exact .mark List.mem_cons_self hmark _

private theorem Follows.furtherCommands {marks text rest : List Char} {others : List (List String)}
    (hf : FurtherCommands text others) (h : Follows marks rest) :
    Follows ('|' :: marks) (text ++ rest) := by
  cases hf with
  | none => exact h.mono (by simp)
  | bar => exact .mark List.mem_cons_self rfl _

private theorem pipelineForm_complete {c : Cursor} {text ending : List Char} {action : Action}
    (h : PipelineLine text action) (ht : Terminator ending) (hc : c.rest = text ++ ending) :
    ∃ d, pipelineForm c = (some action, d) ∧ d.rest = ending := by
  obtain ⟨h₀, hcommand, h₁, hsource, h₂, hfurther, htarget, h₃, hamp, h₄⟩ := h
  rename_i b₀ b₁ b₂ b₃ b₄ command source further target ampersand first others
    input output background
  simp only [List.append_assoc] at hc
  -- what follows each piece, from the end of the line to its start
  have f₄ : Follows ['&'] (b₃ ++ (ampersand ++ (b₄ ++ ending))) :=
    .blanks_append h₃ (.ampersand hamp (.blanks_append h₄ (.terminator ht)))
  have f₃ := f₄.redirection htarget rfl
  have f₂ := (f₃.furtherCommands hfurther).blanks_append h₂
  have f₁ := (f₂.redirection hsource rfl).blanks_append h₁
  have hskip : c.skipBlanks.rest = command ++ (b₁ ++ (source ++ (b₂ ++ (further ++ (target ++
      (b₃ ++ (ampersand ++ (b₄ ++ ending)))))))) := by
    rw [rest_skipBlanks, hc, Blanks.dropWhile_append h₀]
    cases hcommand with
    | mk hw _ => rw [List.append_assoc, (Part.stops_isBlank hw _).dropWhile_eq]
  obtain ⟨c₁, e₁, r₁⟩ := command_complete hcommand hskip (f₁.ends (by decide))
  obtain ⟨c₂, e₂, r₂⟩ := redirection_complete (c := c₁.skipBlanks) hsource rfl
    (by rw [rest_skipBlanks, r₁, Blanks.dropWhile_append h₁]) (f₂.ends (by decide))
    (f₂.head_ne (by decide))
  obtain ⟨c₃, e₃, r₃⟩ := moreCommands_complete (c := c₂.skipBlanks) hfurther
    (by rw [r₂, Blanks.dropWhile_append h₂]) (f₃.ends (by decide)) (f₃.head_ne (by decide))
  obtain ⟨c₄, e₄, r₄⟩ :=
    redirection_complete htarget rfl r₃ (f₄.ends (by decide)) (f₄.head_ne (by decide))
  obtain ⟨d, hd, hrest⟩ :=
    ampersand_complete h₃ hamp h₄ ht r₄ (stages (first :: others) input output)
  refine ⟨d, ?_, hrest⟩
  unfold pipelineForm
  rw [e₁]
  simp only [e₂, e₃, e₄, assemble_eq_stages]
  exact hd

theorem pipelineForm_fits : Fits pipelineForm PipelineLine where
  sound := pipelineForm_sound
  complete := pipelineForm_complete
  plain := by
    rintro _ _ ⟨h₀, hcommand, h₁, hsource, h₂, hfurther, htarget, h₃, hamp, h₄⟩
    refine plain_append (plain_append (plain_append (plain_append (plain_append
      (plain_append (plain_append (plain_append (plain_append ?_ ?_) ?_) ?_) ?_) ?_) ?_) ?_) ?_) ?_
    · exact blanks_plain h₀
    · exact command_plain hcommand
    · exact blanks_plain h₁
    · exact redirection_plain hsource (by decide)
    · exact blanks_plain h₂
    · exact furtherCommands_plain hfurther
    · exact redirection_plain htarget (by decide)
    · exact blanks_plain h₃
    · exact ampersand_plain hamp
    · exact blanks_plain h₄

/-! ### Lines -/

theorem atEnd_iff (c : Cursor) : c.atEnd = true ↔ Terminator c.rest := by
  simp [atEnd, Terminator, or_assoc]

theorem terminator_unique {body body' ending ending' : List Char}
    (hb : ∀ c ∈ body, c ≠ '\n' ∧ c ≠ '\r')
    (hb' : ∀ c ∈ body', c ≠ '\n' ∧ c ≠ '\r') (ht : Terminator ending) (ht' : Terminator ending')
    (h : body ++ ending = body' ++ ending') : body = body' := by
  have cut : ∀ {text more : List Char}, (∀ c ∈ text, c ≠ '\n' ∧ c ≠ '\r') → Terminator more →
      (text ++ more).takeWhile (fun c => c ≠ '\n' && c ≠ '\r') = text := by
    intro text more htext hmore
    rw [List.takeWhile_append_of_pos (by simpa using htext)]
    rcases hmore with rfl | rfl | rfl <;> simp
  rw [← cut hb ht, h, cut hb' ht']

theorem firstOf_plain {readers : List Form}
    {derives : List Alternative} (h : List.Forall₂ Fits readers derives)
    {body : List Char} {action : Action} (hfirst : FirstOf derives body action) :
    ∀ c ∈ body, c ≠ '\n' ∧ c ≠ '\r' := by
  induction h with
  | nil => exact hfirst.elim
  | cons hfit _ ih =>
    rcases hfirst with hbody | ⟨-, hothers⟩
    · exact hfit.plain hbody
    · exact ih hothers

theorem firstForm_eq_ok_iff {readers : List Form} {derives : List Alternative}
    (h : List.Forall₂ Fits readers derives) (line : List Char) (furthest : Nat) (action : Action) :
    firstForm line readers furthest = .ok action ↔
      ∃ body ending, line = body ++ ending ∧ Terminator ending ∧ FirstOf derives body action := by
  induction h generalizing furthest with
  | nil => simp [firstForm, FirstOf]
  | @cons form derive readers derives hfit hothers ih =>
    rw [firstForm]
    rcases hform : form { rest := line, furthest := furthest } with ⟨_ | result, d⟩
    · -- The form does not fit: the grammar derives nothing by it either.
      have hno : ∀ body ending, line = body ++ ending → Terminator ending →
          ∀ a, ¬derive body a := by
        intro body ending hline ht a ha
        obtain ⟨e, he, -⟩ := hfit.complete ha ht (c := { rest := line, furthest := furthest }) hline
        simp [hform] at he
      simp only
      rw [ih]
      constructor
      · rintro ⟨body, ending, hline, ht, hfirst⟩
        exact ⟨body, ending, hline, ht, .inr ⟨hno body ending hline ht, hfirst⟩⟩
      · rintro ⟨body, ending, hline, ht, ha | ⟨-, hfirst⟩⟩
        · exact absurd ha (hno body ending hline ht action)
        · exact ⟨body, ending, hline, ht, hfirst⟩
    · have hsole : ∀ body ending, line = body ++ ending → Terminator ending → ∀ a, derive body a →
          a = result ∧ d.rest = ending := by
        intro body ending hline ht a ha
        obtain ⟨e, he, hrest⟩ :=
          hfit.complete ha ht (c := { rest := line, furthest := furthest }) hline
        obtain ⟨hresult, rfl⟩ := Prod.mk.inj (hform.symm.trans he)
        exact ⟨(Option.some.inj hresult).symm, hrest⟩
      simp only
      by_cases hend : d.atEnd = true
      · -- The form covers the whole line, and any derivation is one of the same text.
        obtain ⟨body, hbody, hline⟩ := hfit.sound hform
        have ht : Terminator d.rest := (atEnd_iff d).mp hend
        rw [if_pos hend]
        constructor
        · intro hok
          obtain rfl := Except.ok.inj hok
          exact ⟨body, d.rest, hline, ht, .inl hbody⟩
        · rintro ⟨body', ending, hline', ht', hfirst⟩
          obtain rfl : body = body' :=
            terminator_unique (hfit.plain hbody) (firstOf_plain (.cons hfit hothers) hfirst) ht ht'
              (hline.symm.trans hline')
          rcases hfirst with ha | ⟨hno, -⟩
          · rw [(hsole body ending hline' ht' action ha).1]
          · exact absurd hbody (hno result)
      · -- The form leaves something of the line: it derives no text up to a terminator.
        have hno : ∀ body ending, line = body ++ ending → Terminator ending →
            ∀ a, ¬derive body a := by
          intro body ending hline ht a ha
          apply hend
          rw [atEnd_iff, (hsole body ending hline ht a ha).2]
          exact ht
        rw [if_neg hend, ih]
        constructor
        · rintro ⟨body, ending, hline, ht, hfirst⟩
          exact ⟨body, ending, hline, ht, .inr ⟨hno body ending hline ht, hfirst⟩⟩
        · rintro ⟨body, ending, hline, ht, ha | ⟨-, hfirst⟩⟩
          · exact absurd ha (hno body ending hline ht action)
          · exact ⟨body, ending, hline, ht, hfirst⟩

theorem forms_fit : List.Forall₂ Fits forms alternatives :=
  .cons exitForm_fits
    (.cons directoryForm_fits (.cons pipelineForm_fits (.cons blankForm_fits .nil)))

theorem read_eq_ok_iff_assigns (line : String) (action : Action) :
    read line = .ok action ↔ Assigns line action :=
  firstForm_eq_ok_iff forms_fit line.toList 0 action

/-- No form assigns two actions to one text, although it may derive the text in several ways. -/
theorem Fits.unambiguous {form : Form} {derives : Alternative} (h : Fits form derives)
    {body : List Char} {a b : Action} (ha : derives body a) (hb : derives body b) : a = b := by
  obtain ⟨d, hd, -⟩ := h.complete ha (.inl rfl) (c := { rest := body }) (List.append_nil body).symm
  obtain ⟨e, he, -⟩ := h.complete hb (.inl rfl) (c := { rest := body }) (List.append_nil body).symm
  exact Option.some.inj (Prod.mk.inj (hd.symm.trans he)).1

theorem alternatives_unambiguous {derives : Alternative} (h : derives ∈ alternatives)
    {body : List Char} {a b : Action} (ha : derives body a) (hb : derives body b) : a = b := by
  simp only [alternatives, List.mem_cons, List.not_mem_nil, or_false] at h
  rcases h with rfl | rfl | rfl | rfl
  · exact exitForm_fits.unambiguous ha hb
  · exact directoryForm_fits.unambiguous ha hb
  · exact pipelineForm_fits.unambiguous ha hb
  · exact blankForm_fits.unambiguous ha hb

/-- A line is read as an action exactly if the grammar assigns the action to it, and it is refused
exactly if the grammar assigns nothing to it. Although blanks may be shared out between optional
parts in several ways, no form of the grammar is ambiguous. -/
theorem read_exact :
    (∀ line action, read line = .ok action ↔ Assigns line action) ∧
    (∀ line, (∃ refusal, read line = .error refusal) ↔ ∀ action, ¬Assigns line action) ∧
    (∀ derives ∈ alternatives, ∀ body a b, derives body a → derives body b → a = b) := by
  refine ⟨read_eq_ok_iff_assigns, ?_, ?_⟩
  · intro line
    constructor
    · rintro ⟨refusal, hread⟩ action hassigns
      rw [← read_eq_ok_iff_assigns, hread] at hassigns
      simp at hassigns
    · intro hno
      cases hread : read line with
      | error refusal => exact ⟨refusal, rfl⟩
      | ok action => exact absurd ((read_eq_ok_iff_assigns line action).mp hread) (hno action)
  · intro derives hmem body a b ha hb
    exact alternatives_unambiguous hmem ha hb

private theorem no_exitLine : ∀ a, ¬ExitLine "exit |\tcd>f&".toList a := by
  intro a h
  obtain ⟨d, hd, hrest⟩ := exitForm_fits.complete h (.inl rfl)
    (c := { rest := "exit |\tcd>f&".toList }) (List.append_nil _).symm
  have hread : (exitForm { rest := "exit |\tcd>f&".toList }).2.rest = "|\tcd>f&".toList := by decide
  rw [hd, hrest] at hread
  exact absurd hread (by decide)

private theorem no_directoryLine : ∀ a, ¬DirectoryLine "exit |\tcd>f&".toList a := by
  intro a h
  obtain ⟨d, hd, -⟩ := directoryForm_fits.complete h (.inl rfl)
    (c := { rest := "exit |\tcd>f&".toList }) (List.append_nil _).symm
  have hread : (directoryForm { rest := "exit |\tcd>f&".toList }).1 = none := by decide
  rw [hd] at hread
  exact absurd hread (by simp)

/-- The words of the other two forms are ordinary programs inside a pipeline. -/
private theorem keywords_in_pipeline : PipelineLine "exit |\tcd>f&".toList
    (.run ⟨[⟨["exit"], none, none⟩, ⟨["cd"], none, some "f"⟩], true⟩) := by
  have hnil : Blanks [] := by decide
  have hexit : Command ['e', 'x', 'i', 't'] ["exit"] :=
    @Command.mk ['e', 'x', 'i', 't'] [] [] (by decide) .none
  have hcd : Command ['c', 'd'] ["cd"] := @Command.mk ['c', 'd'] [] [] (by decide) .none
  have hsecond : FurtherCommands ['|', '\t', 'c', 'd'] [["cd"]] :=
    @FurtherCommands.bar ['\t'] ['c', 'd'] [] [] _ _ (by decide) hcd hnil .none
  have htarget : Redirection '>' ['>', 'f'] (some "f") :=
    @Redirection.present '>' [] ['f'] hnil (by decide)
  exact PipelineLine.mk hnil hexit
    (show Blanks [' '] by decide) .absent hnil hsecond htarget hnil .present hnil

theorem read_keywords_in_pipeline :
    read "exit |\tcd>f&\r\n" =
      .ok (.run ⟨[⟨["exit"], none, none⟩, ⟨["cd"], none, some "f"⟩], true⟩) ∧
      ∀ a, PipelineLine "exit |\tcd>f&".toList a →
        a = .run ⟨[⟨["exit"], none, none⟩, ⟨["cd"], none, some "f"⟩], true⟩ :=
  ⟨(read_exact.1 _ _).mpr ⟨"exit |\tcd>f&".toList, ['\r', '\n'], rfl, .inr (.inr rfl),
      .inr ⟨no_exitLine, .inr ⟨no_directoryLine, .inl keywords_in_pipeline⟩⟩⟩,
    fun a ha => read_exact.2.2 PipelineLine (by simp [alternatives]) _ a _ ha keywords_in_pipeline⟩

end PipeShell.Line
