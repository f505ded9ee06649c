import PipeShell.Proofs.Line.Column

/-!
The layout of a line. Blanks and terminators only separate the tokens of a line: how it is read
depends on its tokens alone, and two lines that ask for the same have the same tokens.
-/

set_option autoImplicit false
set_option relaxedAutoImplicit false

namespace PipeShell.Line

open Grammar

theorem Spelled.congr {derives : Alternative} {shape : Action → Prop} (h : Spelled derives shape)
    {text text' : List Char} (htokens : tokens text = tokens text') (action : Action) :
    derives text action ↔ derives text' action := by
  rw [h, h, htokens]

theorem alternatives_spelled : ∀ derives ∈ alternatives, ∃ shape, Spelled derives shape := by
  simp only [alternatives, List.mem_cons, List.not_mem_nil, or_false, forall_eq_or_imp, forall_eq]
  exact ⟨⟨_, exitLine_spelled⟩, ⟨_, directoryLine_spelled⟩, ⟨_, pipelineLine_spelled⟩,
    ⟨_, blankLine_spelled⟩⟩

section

variable {forms : List Alternative} (h : ∀ derives ∈ forms, ∃ shape, Spelled derives shape)

include h

theorem firstOf_congr {text text' : List Char} (htokens : tokens text = tokens text')
    (action : Action) : FirstOf forms text action ↔ FirstOf forms text' action := by
  induction forms with
  | nil => rfl
  | cons derives others ih =>
    obtain ⟨shape, hshape⟩ := h derives (by simp)
    have hsame := hshape.congr htokens
    have hothers := ih fun derives hmem => h derives (List.mem_cons_of_mem _ hmem)
    unfold FirstOf
    rw [hsame, hothers]
    simp only [hsame]

theorem tokens_of_firstOf {text : List Char} {action : Action}
    (hfirst : FirstOf forms text action) : tokens text = action.spelling := by
  induction forms with
  | nil => exact hfirst.elim
  | cons derives others ih =>
    rcases hfirst with hderives | ⟨-, hothers⟩
    · obtain ⟨shape, hshape⟩ := h derives (by simp)
      exact ((hshape text action).mp hderives).2
    · exact ih (fun derives hmem => h derives (List.mem_cons_of_mem _ hmem)) hothers

end

theorem directory_of_read {line target : String} (h : read line = .ok (.changeDirectory target)) :
    Part target.toList := by
  obtain ⟨body, ending, -, -, hfirst⟩ := (read_eq_ok_iff_assigns line _).mp h
  have hmem : .word target.toList ∈ tokens body := by
    rw [tokens_of_firstOf alternatives_spelled hfirst]
    exact List.mem_cons_of_mem _ List.mem_cons_self
  exact part_of_mem_tokens hmem

/-! ### Terminators -/

theorem plain_of_opens {text : List Char} (h : Opens text) : Plain text := by
  obtain ⟨more, action, hline⟩ := h
  have hplain := pipelineForm_fits.plain hline
  exact ⟨fun hc => (hplain _ (List.mem_append_left more hc)).2 rfl,
    fun hc => (hplain _ (List.mem_append_left more hc)).1 rfl⟩

theorem openings_append_terminator (text : List Char) {ending : List Char}
    (ht : Terminator ending) : openings (text ++ ending) = openings text := by
  have hwithin {n : Nat} (hn : n ≤ text.length) : (text ++ ending).take n = text.take n :=
    List.take_append_of_le_length hn
  ext n
  constructor
  · rintro ⟨hlength, hopens⟩
    rcases Nat.lt_or_ge text.length n with hlong | hn
    · exfalso
      obtain ⟨c, rest, rfl, hc⟩ : ∃ c rest, ending = c :: rest ∧ (c = '\n' ∨ c = '\r') := by
        rcases ht with rfl | rfl | rfl
        · rw [List.append_nil] at hlength
          omega
        · exact ⟨_, _, rfl, .inl rfl⟩
        · exact ⟨_, _, rfl, .inr rfl⟩
      have hmem : c ∈ (text ++ c :: rest).take n :=
        List.mem_of_getElem? (i := text.length) (by simp [hlong])
      obtain ⟨hr, hnl⟩ := plain_of_opens hopens
      rcases hc with rfl | rfl
      · exact hnl hmem
      · exact hr hmem
    · exact ⟨hn, by rwa [← hwithin hn]⟩
  · rintro ⟨hn, hopens⟩
    refine ⟨?_, by rwa [hwithin hn]⟩
    rw [List.length_append]
    omega

theorem read_append_terminator {line : String} (h : Plain line.toList) {ending : List Char}
    (ht : Terminator ending) : read (line ++ String.ofList ending) = read line := by
  have hchars : (line ++ String.ofList ending).toList = line.toList ++ ending := by simp
  have hok (action : Action) : read (line ++ String.ofList ending) = .ok action ↔
      read line = .ok action := by
    rw [read_eq_ok_iff_firstOf h, read_eq_ok_iff_assigns]
    constructor
    · rintro ⟨body, ending', hbody, ht', hfirst⟩
      have hplain : ∀ c ∈ line.toList, c ≠ '\n' ∧ c ≠ '\r' :=
        fun c hc => ⟨fun heq => h.2 (heq ▸ hc), fun heq => h.1 (heq ▸ hc)⟩
      have hsame := terminator_unique hplain (firstOf_plain forms_fit hfirst) ht ht'
        (hchars.symm.trans hbody)
      rwa [hsame]
    · exact fun hfirst => ⟨line.toList, ending, hchars, ht, hfirst⟩
  cases hline : read line with
  | ok action => exact (hok action).mpr hline
  | error refusal =>
    cases hended : read (line ++ String.ofList ending) with
    | ok action =>
      rw [(hok action).mp hended] at hline
      cases hline
    | error refusal' =>
      obtain ⟨n, hn⟩ := exists_isGreatest_openings line.toList
      have hn' : IsGreatest (openings (line ++ String.ofList ending).toList) n := by
        rwa [hchars, openings_append_terminator _ ht]
      obtain ⟨column⟩ := refusal
      obtain ⟨column'⟩ := refusal'
      have hcolumn : column = n + 1 := column_of_read hline hn
      have hcolumn' : column' = n + 1 := column_of_read hended hn'
      rw [hcolumn, hcolumn']

/-- Lines with the same tokens are read as the same action or are both refused, lines that are read
as the same action have the same tokens, and a terminator changes nothing at all. -/
theorem layout_exact :
    (∀ line line' : String, Plain line.toList →
      Plain line'.toList → tokens line.toList = tokens line'.toList →
      (∃ action, read line = .ok action ∧ read line' = .ok action) ∨
        ∃ refusal refusal', read line = .error refusal ∧ read line' = .error refusal') ∧
    (∀ (line line' : String) (action : Action), Plain line.toList → Plain line'.toList →
      read line = .ok action → read line' = .ok action → tokens line.toList = tokens line'.toList) ∧
    (∀ line : String, Plain line.toList → read (line ++ "\n") = read line ∧
      read (line ++ "\r\n") = read line) := by
  refine ⟨fun line line' h h' htokens => ?_, fun line line' action h h' hread hread' => ?_,
    fun line h => ⟨?_, ?_⟩⟩
  · have hsame (action : Action) : read line = .ok action ↔ read line' = .ok action := by
      rw [read_eq_ok_iff_firstOf h, read_eq_ok_iff_firstOf h',
        firstOf_congr alternatives_spelled htokens]
    cases hread : read line with
    | ok action => exact .inl ⟨action, rfl, (hsame action).mp hread⟩
    | error refusal =>
      cases hread' : read line' with
      | ok action =>
        rw [(hsame action).mpr hread'] at hread
        cases hread
      | error refusal' => exact .inr ⟨refusal, refusal', rfl, rfl⟩
  · rw [tokens_of_firstOf alternatives_spelled ((read_eq_ok_iff_firstOf h action).mp hread),
      tokens_of_firstOf alternatives_spelled ((read_eq_ok_iff_firstOf h' action).mp hread')]
  · exact read_append_terminator h (.inr (.inl rfl))
  · exact read_append_terminator h (.inr (.inr rfl))

theorem layout_of_two_stages :
    read " cat x \t|wc >\tout& \r\n" =
      .ok (.run ⟨[⟨["cat", "x"], none, none⟩, ⟨["wc"], none, some "out"⟩], true⟩) ∧
      tokens "cat x|wc>out&".toList = tokens " cat x \t|wc >\tout& ".toList := by
  have hread : read "cat x|wc>out&" =
      .ok (.run ⟨[⟨["cat", "x"], none, none⟩, ⟨["wc"], none, some "out"⟩], true⟩) := by
    decide +kernel
  have hplain : Plain "cat x|wc>out&".toList := ⟨by decide, by decide⟩
  have hplain' : Plain " cat x \t|wc >\tout& ".toList := ⟨by decide, by decide⟩
  have htokens : tokens "cat x|wc>out&".toList = tokens " cat x \t|wc >\tout& ".toList := by decide
  have hread' : read " cat x \t|wc >\tout& " = read "cat x|wc>out&" := by
    rcases layout_exact.1 _ _ hplain hplain' htokens with ⟨action, h,
      h'⟩ | ⟨refusal, refusal', h, h'⟩
    · rw [h, h']
    · rw [h] at hread
      cases hread
  refine ⟨?_, layout_exact.2.1 _ _ _ hplain hplain' hread (hread'.trans hread)⟩
  calc read " cat x \t|wc >\tout& \r\n" = read (" cat x \t|wc >\tout& " ++ "\r\n") := rfl
    _ = read " cat x \t|wc >\tout& " := (layout_exact.2.2 _ hplain').2
    _ = _ := hread'.trans hread

end PipeShell.Line
