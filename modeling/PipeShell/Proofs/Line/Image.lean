import PipeShell.Proofs.Line.Layout

/-!
The image of the reader: which actions some line asks for. The spelling of an action can always be
laid out as a line if its words are parts, so an action without a line is one whose spelling belongs
to a form that is tried earlier. There are two kinds of them, both pipelines of one stage.
-/

set_option autoImplicit false
set_option relaxedAutoImplicit false

namespace PipeShell

open Grammar
open Line (Token)

/-- What every pipeline is that could be written down: it is well-formed, and all its words are
parts. -/
structure Pipeline.Spellable (p : Pipeline) : Prop where
  formed : p.WellFormed
  parts : ∀ stage ∈ p.stages, ∀ word ∈ stage.words, Part word.toList

/-- The pipelines whose spelling is taken for something else. -/
inductive Pipeline.Shadowed : Pipeline → Prop
  | exit : Shadowed ⟨[⟨["exit"], none, none⟩], false⟩
  | changeDirectory (target : String) : Shadowed ⟨[⟨["cd", target], none, none⟩], false⟩

/-- What an action is that some line asks for. -/
def Action.Expressible : Action → Prop
  | nothing => True
  | exit => True
  | changeDirectory target => Part target.toList
  | run p => p.Spellable ∧ ¬p.Shadowed

theorem Pipeline.Shadowed.wellFormed {p : Pipeline} (h : p.Shadowed) : p.WellFormed := by
  have hsingle (arguments : List String) (hne : arguments ≠ []) :
      WellFormed ⟨[⟨arguments, none, none⟩], false⟩ := by
    refine (Line.wellFormed_iff_assembled _).mpr ⟨arguments, [], none, none, hne, ?_, rfl⟩
    intro words hwords
    exact absurd hwords List.not_mem_nil
  cases h with
  | exit => exact hsingle _ (by simp)
  | changeDirectory target => exact hsingle _ (by simp)

namespace Line

/-! ### Laying out tokens -/

def Token.text : Token → List Char
  | word text => text
  | mark c => [c]

def Token.Proper : Token → Prop
  | word text => Part text
  | mark c => isBlank c = false ∧ isPart c = false

/-- A line with certain tokens: there is a blank before each of them. -/
def layOut (ts : List Token) : List Char := ts.flatMap fun t => ' ' :: t.text

theorem layOut_cons (t : Token) (ts : List Token) :
    layOut (t :: ts) = ' ' :: (t.text ++ layOut ts) := by
  simp [layOut]

theorem stops_layOut (ts : List Token) : Stops isPart (layOut ts) := by
  cases ts with
  | nil => exact stops_nil
  | cons t ts =>
    rw [layOut_cons]
    exact Stops.cons rfl _

theorem tokens_layOut {ts : List Token} (h : ∀ t ∈ ts, t.Proper) : tokens (layOut ts) = ts := by
  have hblank : Blanks [' '] := by decide
  induction ts with
  | nil => rfl
  | cons t ts ih =>
    have hrest := ih fun t ht => h t (List.mem_cons_of_mem _ ht)
    have hproper := h t List.mem_cons_self
    have hgap : tokens (layOut (t :: ts)) = tokens (t.text ++ layOut ts) := by
      rw [layOut_cons]
      exact tokens_blanks hblank _
    cases t with
    | word text =>
      have hword : tokens (text ++ layOut ts) = .word text :: tokens (layOut ts) :=
        tokens_part hproper (stops_layOut ts)
      exact hgap.trans (hword.trans (by rw [hrest]))
    | mark c =>
      have hmark : tokens (c :: layOut ts) = .mark c :: tokens (layOut ts) :=
        tokens_mark hproper.1 hproper.2 _
      exact hgap.trans (hmark.trans (by rw [hrest]))

/-! ### Spellings -/

private theorem word_of_mem_spelling {stage : Stage} {text : List Char}
    (h : .word text ∈ stage.spelling) : ∃ word ∈ stage.words, text = word.toList := by
  have hfile {mark : Char} {file : Option String} (hmem : .word text ∈ spellRedirection mark file) :
      ∃ word ∈ file.toList, text = word.toList := by
    cases file with
    | none => exact absurd hmem List.not_mem_nil
    | some file => exact ⟨file, by simp, by simpa [spellRedirection] using hmem⟩
  rcases List.mem_append.mp h with hmem | houtput
  · rcases List.mem_append.mp hmem with hwords | hinput
    · obtain ⟨word, hword, heq⟩ := List.mem_map.mp hwords
      refine ⟨word, ?_, (Token.word.inj heq).symm⟩
      exact List.mem_append_left _ (List.mem_append_left _ hword)
    · obtain ⟨word, hword, rfl⟩ := hfile hinput
      exact ⟨word, List.mem_append_left _ (List.mem_append_right _ hword), rfl⟩
  · obtain ⟨word, hword, rfl⟩ := hfile houtput
    exact ⟨word, List.mem_append_right _ hword, rfl⟩

theorem word_of_mem_spellStages {run : List Stage} {text : List Char}
    (h : .word text ∈ spellStages run) :
    ∃ stage ∈ run, ∃ word ∈ stage.words, text = word.toList := by
  induction run with
  | nil => exact absurd h List.not_mem_nil
  | cons first rest ih =>
    cases rest with
    | nil => exact ⟨first, List.mem_cons_self, word_of_mem_spelling h⟩
    | cons second rest =>
      rw [spellStages] at h
      · rcases List.mem_append.mp h with hfirst | hrest
        · exact ⟨first, List.mem_cons_self, word_of_mem_spelling hfirst⟩
        · rcases List.mem_cons.mp hrest with hbar | hrest
          · cases hbar
          · obtain ⟨stage, hstage, hword⟩ := ih hrest
            exact ⟨stage, List.mem_cons_of_mem _ hstage, hword⟩
      · simp

theorem parts_of_expressible {action : Action} (h : action.Expressible) {text : List Char}
    (hmem : .word text ∈ action.spelling) : Part text := by
  cases action with
  | nothing => exact absurd hmem List.not_mem_nil
  | exit =>
    obtain rfl : text = ['e', 'x', 'i', 't'] := by simpa [Action.spelling] using hmem
    decide
  | changeDirectory target =>
    have hcases : text = ['c', 'd'] ∨ text = target.toList := by simpa [Action.spelling] using hmem
    rcases hcases with rfl | rfl
    · decide
    · exact h
  | run p =>
    rcases List.mem_append.mp hmem with hstages | hbackground
    · obtain ⟨stage, hstage, word, hword, rfl⟩ := word_of_mem_spellStages hstages
      exact h.1.parts stage hstage word hword
    · unfold spellBackground at hbackground
      split at hbackground
      · simp at hbackground
      · exact absurd hbackground List.not_mem_nil

theorem tokens_layOut_spelling {action : Action} (h : action.Expressible) :
    tokens (layOut action.spelling) = action.spelling := by
  refine tokens_layOut fun t ht => ?_
  cases t with
  | word text => exact parts_of_expressible h ht
  | mark c =>
    have hmark := mark_of_mem_spelling ht
    simp only [List.mem_cons, List.not_mem_nil, or_false] at hmark
    rcases hmark with rfl | rfl | rfl | rfl <;> exact ⟨rfl, rfl⟩

theorem spelling_ne_nil {p : Pipeline} (h : p.WellFormed) : p.spelling ≠ [] := by
  obtain ⟨first, others, input, output, hfirst, -, hstages⟩ := (wellFormed_iff_assembled p).mp h
  obtain ⟨word, words, rfl⟩ := List.exists_cons_of_ne_nil hfirst
  rw [Pipeline.spelling, hstages, spellStages_assemble]
  simp [spellWords]

/-! ### Both directions -/

theorem eq_of_spelling {p q : Pipeline} (hp : p.WellFormed) (hq : q.WellFormed) {text : List Char}
    (htp : tokens text = p.spelling) (htq : tokens text = q.spelling) : p = q := by
  have hline := (pipelineLine_spelled text (.run p)).mpr ⟨⟨p, rfl, hp⟩, htp⟩
  have hline' := (pipelineLine_spelled text (.run q)).mpr ⟨⟨q, rfl, hq⟩, htq⟩
  exact Action.run.inj (pipelineForm_fits.unambiguous hline hline')

theorem firstOf_of_spelling {action : Action} (h : action.Expressible) {text : List Char}
    (htext : tokens text = action.spelling) : FirstOf alternatives text action := by
  have hexit (a : Action) (ha : ExitLine text a) : tokens text = Action.exit.spelling := by
    obtain ⟨rfl, htokens⟩ := (exitLine_spelled text a).mp ha
    exact htokens
  have hcd (a : Action) (ha : DirectoryLine text a) :
      ∃ target, tokens text = (Action.changeDirectory target).spelling := by
    obtain ⟨⟨target, rfl⟩, htokens⟩ := (directoryLine_spelled text a).mp ha
    exact ⟨target, htokens⟩
  -- a form that is tried earlier fits only if it has the same spelling
  cases action with
  | exit => exact .inl ((exitLine_spelled text .exit).mpr ⟨rfl, htext⟩)
  | changeDirectory target =>
    refine .inr ⟨fun a ha => ?_, .inl ((directoryLine_spelled text _).mpr ⟨⟨target, rfl⟩, htext⟩)⟩
    have hsame := htext.symm.trans (hexit a ha)
    simp [Action.spelling] at hsame
  | run p =>
    obtain ⟨hp, hshadow⟩ := h
    refine .inr ⟨fun a ha => ?_, .inr ⟨fun a ha => ?_, .inl ?_⟩⟩
    · have hq : tokens text = Pipeline.spelling ⟨[⟨["exit"], none, none⟩], false⟩ := hexit a ha
      apply hshadow
      rw [eq_of_spelling hp.formed Pipeline.Shadowed.exit.wellFormed htext hq]
      exact .exit
    · obtain ⟨target, htarget⟩ := hcd a ha
      have hq : tokens text = Pipeline.spelling ⟨[⟨["cd", target], none, none⟩], false⟩ := htarget
      apply hshadow
      rw [eq_of_spelling hp.formed (Pipeline.Shadowed.changeDirectory target).wellFormed htext hq]
      exact .changeDirectory target
    · exact (pipelineLine_spelled text _).mpr ⟨⟨p, rfl, hp.formed⟩, htext⟩
  | nothing =>
    have hempty : tokens text = [] := htext
    refine .inr ⟨fun a ha => ?_, .inr ⟨fun a ha => ?_, .inr ⟨fun a ha => ?_, .inl ?_⟩⟩⟩
    · have hsame := hempty.symm.trans (hexit a ha)
      simp [Action.spelling] at hsame
    · obtain ⟨target, htarget⟩ := hcd a ha
      have hsame := hempty.symm.trans htarget
      simp [Action.spelling] at hsame
    · obtain ⟨⟨p, rfl, hp⟩, htokens⟩ := (pipelineLine_spelled text a).mp ha
      exact spelling_ne_nil hp (htokens.symm.trans hempty)
    · exact (blankLine_spelled text .nothing).mpr ⟨rfl, htext⟩

theorem read_layOut {action : Action} (h : action.Expressible) :
    read (String.ofList (layOut action.spelling)) = .ok action := by
  apply (read_eq_ok_iff_assigns _ _).mpr
  refine ⟨layOut action.spelling, [], by simp, .inl rfl, ?_⟩
  exact firstOf_of_spelling h (tokens_layOut_spelling h)

theorem not_shadowed_of_firstOf {body : List Char} {p : Pipeline}
    (h : FirstOf alternatives body (.run p)) : ¬p.Shadowed := by
  have htokens := ((pipelineLine_spelled _ _).mp (run_of_firstOf h)).2
  intro hshadow
  cases hshadow with
  | exit =>
    have hexit : ExitLine body .exit := (exitLine_spelled body .exit).mpr ⟨rfl, htokens⟩
    rcases h with hderives | ⟨hno, -⟩
    · cases ((exitLine_spelled _ _).mp hderives).1
    · exact hno .exit hexit
  | changeDirectory target =>
    have hcd : DirectoryLine body (.changeDirectory target) :=
      (directoryLine_spelled body _).mpr ⟨⟨target, rfl⟩, htokens⟩
    rcases h with hderives | ⟨-, hderives | ⟨hno, -⟩⟩
    · cases ((exitLine_spelled _ _).mp hderives).1
    · obtain ⟨⟨other, hother⟩, -⟩ := (directoryLine_spelled _ _).mp hderives
      cases hother
    · exact hno _ hcd

theorem expressible_of_read {line : String} {action : Action} (h : read line = .ok action) :
    action.Expressible := by
  obtain ⟨body, ending, -, -, hfirst⟩ := (read_eq_ok_iff_assigns line action).mp h
  cases action with
  | nothing => trivial
  | exit => trivial
  | changeDirectory target =>
    have htokens : tokens body = (Action.changeDirectory target).spelling :=
      tokens_of_firstOf alternatives_spelled hfirst
    have hmem : .word target.toList ∈ tokens body := by
      rw [htokens]
      simp [Action.spelling]
    exact part_of_mem_tokens hmem
  | run p =>
    obtain ⟨hformed, hparts⟩ := run_of_read h
    exact ⟨⟨hformed, hparts⟩, not_shadowed_of_firstOf hfirst⟩

/-- An action has a line exactly if it is expressible. Of the pipelines that could be written down,
exactly the ones are left without a line that stand in the shadow of `exit` and of `cd`. -/
theorem read_image :
    (∀ action, (∃ line, read line = .ok action) ↔ action.Expressible) ∧
    ∀ p : Pipeline, p.Spellable ∧ (¬∃ line, read line = .ok (.run p)) ↔
      p.Spellable ∧ p.Shadowed := by
  have himage (action : Action) : (∃ line, read line = .ok action) ↔ action.Expressible := by
    constructor
    · rintro ⟨line, hread⟩
      exact expressible_of_read hread
    · intro h
      exact ⟨_, read_layOut h⟩
  refine ⟨himage, fun p => ?_⟩
  rw [himage, Action.Expressible]
  constructor
  · rintro ⟨hp, hno⟩
    exact ⟨hp, Classical.byContradiction fun h => hno ⟨hp, h⟩⟩
  · rintro ⟨hp, hshadow⟩
    exact ⟨hp, fun h => h.2 hshadow⟩

/-- A redirection takes the stage out of the shadow. -/
example : read "cd d < f" = .ok (.run ⟨[⟨["cd", "d"], some "f", none⟩], false⟩) := by decide +kernel

end Line

end PipeShell
