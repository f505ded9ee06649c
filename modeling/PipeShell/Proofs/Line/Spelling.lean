import PipeShell.Line.Token
import PipeShell.Proofs.Line.Exactness

/-!
Lines as sequences of tokens. Every form of a line is a condition on the tokens of the line alone,
and an action tells which tokens these are: it has a spelling. Blanks decide nothing but where one
word ends and the next one begins.
-/

set_option autoImplicit false
set_option relaxedAutoImplicit false

namespace PipeShell

open Line (Token)

def spellWords (words : List String) : List Token := words.map fun word => .word word.toList

def spellRedirection (mark : Char) : Option String → List Token
  | none => []
  | some file => [.mark mark, .word file.toList]

def Stage.spelling (s : Stage) : List Token :=
  spellWords s.arguments ++ spellRedirection '<' s.inputFile ++ spellRedirection '>' s.outputFile

def Stage.words (s : Stage) : List String :=
  s.arguments ++ s.inputFile.toList ++ s.outputFile.toList

def spellStages : List Stage → List Token
  | [] => []
  | [stage] => stage.spelling
  | stage :: rest => stage.spelling ++ .mark '|' :: spellStages rest

def spellBackground (background : Bool) : List Token := if background then [.mark '&'] else []

def Pipeline.spelling (p : Pipeline) : List Token :=
  spellStages p.stages ++ spellBackground p.background

def Action.spelling : Action → List Token
  | nothing => []
  | exit => [.word ['e', 'x', 'i', 't']]
  | changeDirectory target => [.word ['c', 'd'], .word target.toList]
  | run pipeline => pipeline.spelling

/-- What every pipeline is that a line asks for: there are stages, each stage names a program, only
the first one has an input file and only the last one an output file. -/
structure Pipeline.WellFormed (p : Pipeline) : Prop where
  nonempty : p.stages ≠ []
  named : ∀ stage ∈ p.stages, stage.arguments ≠ []
  input : ∀ i stage, p.stages[i]? = some stage → stage.inputFile ≠ none → i = 0
  output : ∀ i stage, p.stages[i]? = some stage → stage.outputFile ≠ none → i + 1 = p.stages.length

namespace Line

open Grammar

/-! ### Tokens -/

private theorem tokens_cons (c : Char) (rest : List Char) :
    tokens (c :: rest) = if isBlank c then tokens rest
      else if isPart c then Token.prolong c (rest.head?.any isPart) (tokens rest)
      else .mark c :: tokens rest := by
  cases rest <;> rfl

theorem tokens_blanks {gap : List Char} (h : Blanks gap) (text : List Char) :
    tokens (gap ++ text) = tokens text := by
  induction gap with
  | nil => rfl
  | cons c gap ih =>
    have hc := Blanks.forall_isBlank h c (by simp)
    rw [List.cons_append, tokens_cons, if_pos hc]
    exact ih fun d hd => h d (List.mem_cons_of_mem c hd)

theorem tokens_of_blanks {text : List Char} (h : Blanks text) : tokens text = [] := by
  have hnil := tokens_blanks h []
  rwa [List.append_nil] at hnil

theorem tokens_mark {c : Char} (hb : isBlank c = false) (hp : isPart c = false) (text : List Char) :
    tokens (c :: text) = .mark c :: tokens text := by
  simp [tokens_cons, hb, hp]

private theorem prolong_apart (c : Char) (more : List Token) :
    Token.prolong c false more = .word [c] :: more := by
  unfold Token.prolong
  split <;> simp

theorem tokens_part {word rest : List Char} (hw : Part word) (hs : Stops isPart rest) :
    tokens (word ++ rest) = .word word :: tokens rest := by
  obtain ⟨hne, hall⟩ := hw
  induction word with
  | nil => exact absurd rfl hne
  | cons c word ih =>
    have hc : isPart c = true := isPart_iff.mpr (hall c (by simp))
    rw [List.cons_append, tokens_cons, if_neg (by simp [isBlank_of_isPart hc]), if_pos hc]
    cases word with
    | nil =>
      have htouch : rest.head?.any isPart = false := by
        cases rest with
        | nil => rfl
        | cons d rest => exact hs d rfl
      rw [List.nil_append, htouch, prolong_apart]
    | cons d word =>
      have hd : isPart d = true := isPart_iff.mpr (hall d (by simp))
      rw [ih (by simp) fun x hx => hall x (List.mem_cons_of_mem c hx)]
      simp [hd, Token.prolong]

theorem stops_nil : Stops isPart [] := by simp [Stops]

theorem tokens_cases (text : List Char) :
    Blanks text ∨
    (∃ gap word rest, text = gap ++ (word ++ rest) ∧ Blanks gap ∧ Part word ∧ Stops isPart rest) ∨
    (∃ gap c rest, text = gap ++ c :: rest ∧ Blanks gap ∧ isBlank c = false ∧
      isPart c = false) := by
  have hgap := blanks_takeWhile text
  have hsplit : text = text.takeWhile isBlank ++ text.dropWhile isBlank :=
    List.takeWhile_append_dropWhile.symm
  have hsolid := stops_dropWhile isBlank text
  cases hrest : text.dropWhile isBlank with
  | nil =>
    rw [hrest, List.append_nil] at hsplit
    exact .inl (hsplit ▸ hgap)
  | cons c rest =>
    rw [hrest] at hsplit hsolid
    have hb : isBlank c = false := hsolid c rfl
    cases hp : isPart c with
    | false => exact .inr (.inr ⟨_, c, rest, hsplit, hgap, hb, hp⟩)
    | true =>
      refine .inr (.inl ⟨_, (c :: rest).takeWhile isPart, (c :: rest).dropWhile isPart, ?_, hgap,
        ⟨?_, ?_⟩, stops_dropWhile isPart _⟩)
      · rwa [List.takeWhile_append_dropWhile]
      · rw [List.takeWhile_cons_of_pos hp]
        simp
      · exact fun x hx => isPart_iff.mp (List.mem_takeWhile_imp hx)

theorem blanks_of_tokens {text : List Char} (h : tokens text = []) : Blanks text := by
  rcases tokens_cases text with hb | ⟨gap, word, rest, rfl, hg, hw, hs⟩ | ⟨gap, c,
    rest, rfl, hg, hb, hp⟩
  · exact hb
  · rw [tokens_blanks hg, tokens_part hw hs] at h
    simp at h
  · rw [tokens_blanks hg, tokens_mark hb hp] at h
    simp at h

theorem word_of_tokens {text word : List Char} {more : List Token}
    (h : tokens text = .word word :: more) :
    ∃ gap rest, text = gap ++ (word ++ rest) ∧ Blanks gap ∧ Part word ∧ Stops isPart rest ∧
      tokens rest = more := by
  rcases tokens_cases text with hb | ⟨gap, w, rest, rfl, hg, hw, hs⟩ | ⟨gap, c,
    rest, rfl, hg, hb, hp⟩
  · rw [tokens_of_blanks hb] at h
    simp at h
  · rw [tokens_blanks hg, tokens_part hw hs] at h
    obtain ⟨hword, rfl⟩ := List.cons.inj h
    obtain rfl := Token.word.inj hword
    exact ⟨gap, rest, rfl, hg, hw, hs, rfl⟩
  · rw [tokens_blanks hg, tokens_mark hb hp] at h
    simp at h

theorem mark_of_tokens {text : List Char} {c : Char} {more : List Token}
    (h : tokens text = .mark c :: more) :
    ∃ gap rest, text = gap ++ c :: rest ∧ Blanks gap ∧ tokens rest = more := by
  rcases tokens_cases text with hb | ⟨gap, w, rest, rfl, hg, hw, hs⟩ | ⟨gap, d,
    rest, rfl, hg, hb, hp⟩
  · rw [tokens_of_blanks hb] at h
    simp at h
  · rw [tokens_blanks hg, tokens_part hw hs] at h
    simp at h
  · rw [tokens_blanks hg, tokens_mark hb hp] at h
    obtain ⟨hmark, rfl⟩ := List.cons.inj h
    obtain rfl := Token.mark.inj hmark
    exact ⟨gap, rest, rfl, hg, rfl⟩

theorem part_of_mem_tokens {text word : List Char} (h : .word word ∈ tokens text) : Part word := by
  rcases tokens_cases text with hb | ⟨gap, w, rest, heq, hg, hw, hs⟩ | ⟨gap, c,
    rest, heq, hg, hb, hp⟩
  · rw [tokens_of_blanks hb] at h
    exact absurd h List.not_mem_nil
  · rw [heq, tokens_blanks hg, tokens_part hw hs] at h
    rcases List.mem_cons.mp h with hword | hmem
    · rw [Token.word.inj hword]
      exact hw
    · have : rest.length < text.length := by
        have := List.length_pos_iff.mpr hw.1
        simp only [heq, List.length_append]
        omega
      exact part_of_mem_tokens hmem
  · rw [heq, tokens_blanks hg, tokens_mark hb hp] at h
    rcases List.mem_cons.mp h with hword | hmem
    · simp at hword
    · have : rest.length < text.length := by
        simp only [heq, List.length_append, List.length_cons]
        omega
      exact part_of_mem_tokens hmem
termination_by text.length

theorem mem_of_tokens {text : List Char} {c : Char} (h : c ∈ text) :
    isBlank c = true ∨ (∃ word, .word word ∈ tokens text ∧ c ∈ word) ∨ .mark c ∈ tokens text := by
  rcases tokens_cases text with hb | ⟨gap, w, rest, heq, hg, hw, hs⟩ | ⟨gap, d,
    rest, heq, hg, hb, hp⟩
  · exact .inl (Blanks.forall_isBlank hb c h)
  · have hshort : rest.length < text.length := by
      have := List.length_pos_iff.mpr hw.1
      simp only [heq, List.length_append]
      omega
    have htokens : tokens text = .word w :: tokens rest := by
      rw [heq, tokens_blanks hg, tokens_part hw hs]
    rw [heq] at h
    rcases List.mem_append.mp h with hgap | hrest
    · exact .inl (Blanks.forall_isBlank hg c hgap)
    · rcases List.mem_append.mp hrest with hword | hrest
      · exact .inr (.inl ⟨w, by simp [htokens], hword⟩)
      · rw [htokens]
        refine (mem_of_tokens hrest).imp_right (Or.imp ?_ (List.mem_cons_of_mem _))
        exact fun ⟨word, hmem, hc⟩ => ⟨word, List.mem_cons_of_mem _ hmem, hc⟩
  · have hshort : rest.length < text.length := by
      simp only [heq, List.length_append, List.length_cons]
      omega
    have htokens : tokens text = .mark d :: tokens rest := by
      rw [heq, tokens_blanks hg, tokens_mark hb hp]
    rw [heq] at h
    rcases List.mem_append.mp h with hgap | hrest
    · exact .inl (Blanks.forall_isBlank hg c hgap)
    · rcases List.mem_cons.mp hrest with rfl | hrest
      · exact .inr (.inr (by simp [htokens]))
      · rw [htokens]
        refine (mem_of_tokens hrest).imp_right (Or.imp ?_ (List.mem_cons_of_mem _))
        exact fun ⟨word, hmem, hc⟩ => ⟨word, List.mem_cons_of_mem _ hmem, hc⟩
termination_by text.length

private theorem mark_of_mem_spellRedirection {mark c : Char} {file : Option String}
    (h : .mark c ∈ spellRedirection mark file) : c = mark := by
  cases file with
  | none => exact absurd h List.not_mem_nil
  | some file => simpa [spellRedirection] using h

private theorem mark_of_mem_spellStages {run : List Stage} {c : Char}
    (h : .mark c ∈ spellStages run) : c ∈ ['<', '|', '>'] := by
  have hstage (stage : Stage) (hmem : .mark c ∈ stage.spelling) : c ∈ ['<', '|', '>'] := by
    rcases List.mem_append.mp hmem with hmem | houtput
    · rcases List.mem_append.mp hmem with hwords | hinput
      · simp [spellWords] at hwords
      · rw [mark_of_mem_spellRedirection hinput]
        simp
    · rw [mark_of_mem_spellRedirection houtput]
      simp
  induction run with
  | nil => exact absurd h List.not_mem_nil
  | cons stage rest ih =>
    cases rest with
    | nil => exact hstage stage h
    | cons second rest =>
      rw [spellStages] at h
      · rcases List.mem_append.mp h with hmem | hmem
        · exact hstage stage hmem
        · rcases List.mem_cons.mp hmem with hbar | hmem
          · rw [Token.mark.inj hbar]
            simp
          · exact ih hmem
      · simp

theorem mark_of_mem_spelling {action : Action} {c : Char} (h : .mark c ∈ action.spelling) :
    c ∈ ['<', '|', '>', '&'] := by
  cases action with
  | nothing => exact absurd h List.not_mem_nil
  | exit => simp [Action.spelling] at h
  | changeDirectory target => simp [Action.spelling] at h
  | run pipeline =>
    rcases List.mem_append.mp h with hmem | hmem
    · have := mark_of_mem_spellStages hmem
      simp only [List.mem_cons, List.not_mem_nil, or_false] at this ⊢
      tauto
    · unfold spellBackground at hmem
      split at hmem
      · rw [Token.mark.inj (List.mem_singleton.mp hmem)]
        simp
      · exact absurd hmem List.not_mem_nil

/-! ### Symbols of the grammar -/

theorem Arguments.tokens {text tail : List Char} {words : List String} (h : Arguments text words)
    (hs : Stops isPart tail) :
    Line.tokens (text ++ tail) = spellWords words ++ Line.tokens tail := by
  induction h with
  | none => rfl
  | @more gap word text words hg hne hw ha ih =>
    rw [List.append_assoc, List.append_assoc, tokens_blanks hg,
      tokens_part hw (Cursor.Arguments.stops ha hs), ih]
    simp [spellWords]

theorem Command.tokens {text tail : List Char} {words : List String} (h : Command text words)
    (hs : Stops isPart tail) :
    Line.tokens (text ++ tail) = spellWords words ++ Line.tokens tail := by
  obtain ⟨hw, ha⟩ := h
  rw [List.append_assoc, tokens_part hw (Cursor.Arguments.stops ha hs), Arguments.tokens ha hs]
  simp [spellWords]

theorem Redirection.tokens {mark : Char} {text tail : List Char} {file : Option String}
    (h : Redirection mark text file) (hb : isBlank mark = false) (hp : isPart mark = false)
    (hs : Stops isPart tail) :
    Line.tokens (text ++ tail) = spellRedirection mark file ++ Line.tokens tail := by
  cases h with
  | absent => rfl
  | present hg hw =>
    rw [List.cons_append, tokens_mark hb hp, List.append_assoc, tokens_blanks hg, tokens_part hw hs]
    simp [spellRedirection]

def spellFurther (others : List (List String)) : List Token :=
  others.flatMap fun words => .mark '|' :: spellWords words

theorem FurtherCommands.stops {text tail : List Char} {others : List (List String)}
    (h : FurtherCommands text others) (hs : Stops isPart tail) : Stops isPart (text ++ tail) := by
  cases h with
  | none => exact hs
  | bar => exact Stops.cons rfl _

theorem FurtherCommands.tokens {text tail : List Char} {others : List (List String)}
    (h : FurtherCommands text others) (hs : Stops isPart tail) :
    Line.tokens (text ++ tail) = spellFurther others ++ Line.tokens tail := by
  induction h with
  | none => rfl
  | @bar before command after text words others hb hc ha hf ih =>
    have hstop := Blanks.stops_isPart ha (FurtherCommands.stops hf hs)
    calc Line.tokens ('|' :: (before ++ command ++ after ++ text) ++ tail)
        = .mark '|' :: Line.tokens (before ++ (command ++ (after ++ (text ++ tail)))) := by
          rw [List.cons_append, tokens_mark rfl rfl]
          simp
      _ = .mark '|' :: (spellWords words ++ (spellFurther others ++ Line.tokens tail)) := by
          rw [tokens_blanks hb, Command.tokens hc hstop, tokens_blanks ha, ih]
      _ = spellFurther (words :: others) ++ Line.tokens tail := by simp [spellFurther]

theorem Ampersand.tokens {text tail : List Char} {background : Bool}
    (h : Ampersand text background) :
    Line.tokens (text ++ tail) = spellBackground background ++ Line.tokens tail := by
  cases h with
  | absent => rfl
  | present => exact tokens_mark rfl rfl tail

theorem arguments_of_tokens {words : List String} {more : List Token} :
    ∀ {text : List Char}, Stops isPart text → tokens text = spellWords words ++ more →
      ∃ arguments rest, text = arguments ++ rest ∧ Arguments arguments words ∧ Stops isPart rest ∧
        tokens rest = more := by
  induction words with
  | nil => exact fun {text} hs h => ⟨[], text, rfl, .none, hs, h⟩
  | cons word words ih =>
    intro text hs h
    obtain ⟨gap, rest, rfl, hg, hw, hs', hrest⟩ := word_of_tokens h
    obtain ⟨arguments, rest, rfl, ha, hs'', hmore⟩ := ih hs' hrest
    have hne : gap ≠ [] := by
      -- without blanks before it, the word would prolong what is before it
      rintro rfl
      obtain ⟨c, tail, heq⟩ := List.exists_cons_of_ne_nil hw.1
      have hc := hs c (by simp [heq])
      rw [isPart_iff.mpr (hw.2 c (by simp [heq]))] at hc
      cases hc
    refine ⟨gap ++ word.toList ++ arguments, rest, by simp, ?_, hs'', hmore⟩
    have hmore' := Arguments.more hg hne hw ha
    rwa [String.ofList_toList] at hmore'

theorem command_of_tokens {words : List String} {more : List Token} {text : List Char}
    (hne : words ≠ []) (h : tokens text = spellWords words ++ more) :
    ∃ gap command rest, text = gap ++ (command ++ rest) ∧ Blanks gap ∧ Command command words ∧
      Stops isPart rest ∧ tokens rest = more := by
  obtain ⟨word, words, rfl⟩ := List.exists_cons_of_ne_nil hne
  obtain ⟨gap, rest, rfl, hg, hw, hs, hrest⟩ := word_of_tokens h
  obtain ⟨arguments, rest, rfl, ha, hs', hmore⟩ := arguments_of_tokens hs hrest
  refine ⟨gap, word.toList ++ arguments, rest, by simp, hg, ?_, hs', hmore⟩
  have hcommand := Command.mk hw ha
  rwa [String.ofList_toList] at hcommand

theorem redirection_of_tokens {mark : Char} {file : Option String} {more : List Token}
    {text : List Char} (h : tokens text = spellRedirection mark file ++ more) :
    ∃ gap target rest, text = gap ++ (target ++ rest) ∧ Blanks gap ∧ Redirection mark target file ∧
      tokens rest = more := by
  cases file with
  | none => exact ⟨[], [], text, rfl, by simp [Blanks], .absent, h⟩
  | some file =>
    obtain ⟨gap, rest, rfl, hg, hrest⟩ := mark_of_tokens h
    obtain ⟨gap', rest, rfl, hg', hw, -, hmore⟩ := word_of_tokens hrest
    refine ⟨gap, mark :: (gap' ++ file.toList), rest, by simp, hg, ?_, hmore⟩
    have hpresent : Redirection mark (mark :: (gap' ++ file.toList))
        (some (String.ofList file.toList)) :=
      .present hg' hw
    rwa [String.ofList_toList] at hpresent

theorem further_of_tokens {others : List (List String)} {more : List Token}
    (hne : ∀ words ∈ others, words ≠ []) :
    ∀ {text : List Char}, tokens text = spellFurther others ++ more →
      ∃ gap further rest, text = gap ++ (further ++ rest) ∧
        Blanks gap ∧ FurtherCommands further others ∧
        Stops isBlank rest ∧ tokens rest = more := by
  induction others with
  | nil =>
    intro text h
    have hsplit : text = text.takeWhile isBlank ++ text.dropWhile isBlank :=
      List.takeWhile_append_dropWhile.symm
    refine ⟨_, [], _, hsplit, blanks_takeWhile text, .none, stops_dropWhile isBlank text, ?_⟩
    rw [hsplit, tokens_blanks (blanks_takeWhile text)] at h
    exact h
  | cons words others ih =>
    intro text h
    have h' : tokens text = .mark '|' :: (spellWords words ++ (spellFurther others ++ more)) := by
      simpa [spellFurther] using h
    obtain ⟨gap, rest, rfl, hg, hrest⟩ := mark_of_tokens h'
    obtain ⟨before, command, rest, rfl, hb, hc, -, hrest⟩ :=
      command_of_tokens (hne words (by simp)) hrest
    obtain ⟨after, further, rest, rfl, ha, hf, hs, hmore⟩ :=
      ih (fun words hw => hne words (List.mem_cons_of_mem _ hw)) hrest
    exact ⟨gap, '|' :: (before ++ command ++ after ++ further), rest, by simp, hg,
      .bar hb hc ha hf, hs, hmore⟩

/-! ### Forms -/

theorem spellStages_assemble (first : List String) (others : List (List String))
    (input output : Option String) :
    spellStages (assemble first others input output) =
      spellWords first ++ (spellRedirection '<' input ++
        (spellFurther others ++ spellRedirection '>' output)) := by
  induction others generalizing first input with
  | nil => simp [assemble, spellStages, Stage.spelling, spellFurther]
  | cons second others ih =>
    have hrest : ∃ stage rest, assemble second others none output = stage :: rest := by
      cases others <;> exact ⟨_, _, rfl⟩
    obtain ⟨stage, rest, hrest⟩ := hrest
    rw [assemble, hrest, spellStages, ← hrest, ih]
    · simp [Stage.spelling, spellRedirection, spellFurther]
    · simp

theorem wellFormed_iff_assembled (p : Pipeline) : p.WellFormed ↔
    ∃ first others input output, first ≠ [] ∧ (∀ words ∈ others, words ≠ []) ∧
      p.stages = assemble first others input output := by
  constructor
  · rintro ⟨hne, hnamed, hinput, houtput⟩
    obtain ⟨stage, rest, hstages⟩ := List.exists_cons_of_ne_nil hne
    refine ⟨stage.arguments, rest.map (·.arguments), stage.inputFile,
      p.stages.getLast?.bind (·.outputFile), hnamed stage (by simp [hstages]), ?_, ?_⟩
    · intro words hwords
      obtain ⟨other, hmem, rfl⟩ := List.mem_map.mp hwords
      exact hnamed other (by simp [hstages, hmem])
    · rw [assemble_eq_stages, ← List.map_cons, ← hstages]
      refine List.ext_getElem? fun i => ?_
      rw [stages, List.getElem?_mapIdx, List.getElem?_map, Option.map_map]
      cases hi : p.stages[i]? with
      | none => rfl
      | some other =>
        obtain ⟨arguments, input, output⟩ := other
        have hin : input = if i = 0 then stage.inputFile else none := by
          split
          · next h =>
            subst h
            rw [hstages] at hi
            rw [Option.some.inj (by simpa using hi : some stage = some _)]
          · next h => exact not_not.mp fun hne => h (hinput i _ hi hne)
        have hout : output = if i + 1 = (p.stages.map (·.arguments)).length then
            p.stages.getLast?.bind (·.outputFile) else none := by
          rw [List.length_map]
          split
          · next h =>
            have hlast : p.stages.getLast? = p.stages[i]? := by
              rw [List.getLast?_eq_getElem?, ← h, Nat.add_sub_cancel]
            rw [hlast, hi]
            rfl
          · next h => exact not_not.mp fun hne => h (houtput i _ hi hne)
        simp only [Option.map_some, Function.comp_apply, Option.some.injEq,
          Stage.mk.injEq, true_and]
        exact ⟨hin, hout⟩
  · rintro ⟨first, others, input, output, hfirst, hothers, hstages⟩
    rw [assemble_eq_stages] at hstages
    have hget (i : Nat) (stage : Stage) (h : p.stages[i]? = some stage) :
        ∃ words, (first :: others)[i]? = some words ∧ stage.arguments = words ∧
          stage.inputFile = (if i = 0 then input else none) ∧
          stage.outputFile = if i + 1 = (first :: others).length then output else none := by
      rw [hstages, stages, List.getElem?_mapIdx, Option.map_eq_some_iff] at h
      obtain ⟨words, hwords, rfl⟩ := h
      exact ⟨words, hwords, rfl, rfl, rfl⟩
    have hlength : p.stages.length = (first :: others).length := by simp [hstages, stages]
    refine ⟨fun hnil => ?_, fun stage hmem => ?_, fun i stage hi hne => ?_,
      fun i stage hi hne => ?_⟩
    · simp [hnil] at hlength
    · obtain ⟨i, hi⟩ := List.getElem?_of_mem hmem
      obtain ⟨words, hwords, harguments, -⟩ := hget i stage hi
      rw [harguments]
      rcases List.mem_cons.mp (List.mem_of_getElem? hwords) with rfl | hmem
      · exact hfirst
      · exact hothers words hmem
    · obtain ⟨-, -, -, hin, -⟩ := hget i stage hi
      by_contra h
      exact hne (by rw [hin, if_neg h])
    · obtain ⟨-, -, -, -, hout⟩ := hget i stage hi
      by_contra h
      exact hne (by rw [hout, if_neg (by rwa [← hlength])])

/-- A form derives from a text exactly the actions of some shape that have the tokens of the text as
their spelling. -/
def Spelled (derives : Alternative) (shape : Action → Prop) : Prop :=
  ∀ text action, derives text action ↔ shape action ∧ tokens text = action.spelling

theorem exitLine_spelled : Spelled ExitLine (· = .exit) := by
  intro text action
  constructor
  · rintro ⟨hb, ha⟩
    refine ⟨rfl, ?_⟩
    rw [List.append_assoc, tokens_blanks hb, tokens_part (by decide), tokens_of_blanks ha]
    · rfl
    · simpa using Blanks.stops_isPart ha stops_nil
  · rintro ⟨rfl, htokens⟩
    obtain ⟨before, after, rfl, hb, -, -, hafter⟩ := word_of_tokens htokens
    have hline := ExitLine.mk hb (blanks_of_tokens hafter)
    rwa [List.append_assoc] at hline

theorem directoryLine_spelled :
    Spelled DirectoryLine fun action => ∃ target, action = .changeDirectory target := by
  intro text action
  constructor
  · rintro ⟨hb, hg, hne, hw, ha⟩
    rename_i before gap word after
    refine ⟨⟨_, rfl⟩, ?_⟩
    have hstop : Stops isPart after := by simpa using Blanks.stops_isPart ha stops_nil
    have hgap : Stops isPart (gap ++ (word ++ after)) := by
      obtain ⟨b, gap, rfl⟩ := List.exists_cons_of_ne_nil hne
      exact Stops.cons (isPart_of_isBlank (Blanks.forall_isBlank hg b (by simp))) _
    simp only [List.append_assoc]
    rw [tokens_blanks hb, tokens_part (by decide) hgap, tokens_blanks hg, tokens_part hw hstop,
      tokens_of_blanks ha]
    simp [Action.spelling]
  · rintro ⟨⟨target, rfl⟩, htokens⟩
    obtain ⟨before, rest, rfl, hb, -, hs, hrest⟩ := word_of_tokens htokens
    have hwords : tokens rest = spellWords [target] ++ [] := hrest
    obtain ⟨arguments, after, rfl, harguments, -, hafter⟩ := arguments_of_tokens hs hwords
    cases harguments with
    | more hg hne hw hnone =>
      cases hnone
      have hline := DirectoryLine.mk hb hg hne hw (blanks_of_tokens hafter)
      simpa using hline

theorem blankLine_spelled : Spelled BlankLine (· = .nothing) := by
  intro text action
  constructor
  · rintro ⟨hb⟩
    exact ⟨rfl, tokens_of_blanks hb⟩
  · rintro ⟨rfl, htokens⟩
    exact .mk (blanks_of_tokens htokens)

theorem PipelineLine.spelled {text : List Char} {action : Action} (h : PipelineLine text action) :
    (∃ pipeline : Pipeline, action = .run pipeline ∧ pipeline.WellFormed) ∧
      tokens text = action.spelling := by
  obtain ⟨h₀, hcommand, h₁, hsource, h₂, hfurther, htarget, h₃, hamp, h₄⟩ := h
  rename_i b₀ b₁ b₂ b₃ b₄ command source further target ampersand first others
    input output background
  refine ⟨⟨_, rfl, ?_⟩, ?_⟩
  · refine (wellFormed_iff_assembled _).mpr ⟨first, others, input, output, ?_, ?_,
      (assemble_eq_stages ..).symm⟩
    · cases hcommand
      simp
    · clear htarget hamp
      induction hfurther with
      | none => simp
      | bar _ hc _ _ ih =>
        intro words hwords
        rcases List.mem_cons.mp hwords with rfl | hmem
        · cases hc
          simp
        · exact ih words hmem
  · -- What follows each symbol does not prolong a word, from the end of the line to its start.
    have s₅ : Stops isPart b₄ := by simpa using Blanks.stops_isPart h₄ stops_nil
    have s₄ : Stops isPart (b₃ ++ (ampersand ++ b₄)) := by
      refine Blanks.stops_isPart h₃ ?_
      cases hamp with
      | absent => exact s₅
      | present => exact Stops.cons rfl _
    have s₃ : Stops isPart (target ++ (b₃ ++ (ampersand ++ b₄))) := by
      cases htarget with
      | absent => exact s₄
      | present => exact Stops.cons rfl _
    have s₂ : Stops isPart (b₂ ++ (further ++ (target ++ (b₃ ++ (ampersand ++ b₄))))) :=
      Blanks.stops_isPart h₂ (FurtherCommands.stops hfurther s₃)
    have s₁ : Stops isPart
        (b₁ ++ (source ++ (b₂ ++ (further ++ (target ++ (b₃ ++ (ampersand ++ b₄))))))) := by
      refine Blanks.stops_isPart h₁ ?_
      cases hsource with
      | absent => exact s₂
      | present => exact Stops.cons rfl _
    simp only [List.append_assoc]
    rw [tokens_blanks h₀, Command.tokens hcommand s₁, tokens_blanks h₁,
      Redirection.tokens hsource rfl rfl s₂, tokens_blanks h₂, FurtherCommands.tokens hfurther s₃,
      Redirection.tokens htarget rfl rfl s₄, tokens_blanks h₃, Ampersand.tokens hamp,
      tokens_of_blanks h₄, Action.spelling, Pipeline.spelling, ← assemble_eq_stages,
      spellStages_assemble]
    simp

theorem pipelineLine_of_tokens {text : List Char} {pipeline : Pipeline}
    (hformed : pipeline.WellFormed) (htokens : tokens text = (Action.run pipeline).spelling) :
    PipelineLine text (.run pipeline) := by
  obtain ⟨run, background⟩ := pipeline
  obtain ⟨first, others, input, output, hfirst, hothers, hstages⟩ :=
    (wellFormed_iff_assembled _).mp hformed
  obtain rfl : run = assemble first others input output := hstages
  have hspelled : tokens text = spellWords first ++ (spellRedirection '<' input ++
      (spellFurther others ++ (spellRedirection '>' output ++ spellBackground background))) := by
    rw [htokens, Action.spelling, Pipeline.spelling, spellStages_assemble]
    simp
  obtain ⟨b₀, command, rest, rfl, h₀, hcommand, -, hrest⟩ := command_of_tokens hfirst hspelled
  obtain ⟨b₁, source, rest, rfl, h₁, hsource, hrest⟩ := redirection_of_tokens hrest
  obtain ⟨b₂, further, rest, rfl, h₂, hfurther, hsolid, hrest⟩ := further_of_tokens hothers hrest
  obtain ⟨gap, target, rest, rfl, hgap, htarget, hlast⟩ := redirection_of_tokens hrest
  obtain rfl : gap = [] := by
    cases gap with
    | nil => rfl
    | cons b gap =>
      have hb := hsolid b rfl
      rw [Blanks.forall_isBlank hgap b (by simp)] at hb
      cases hb
  rw [assemble_eq_stages]
  cases background with
  | false =>
    have hnil : Blanks [] := by simp [Blanks]
    have hline := PipelineLine.mk h₀ hcommand h₁ hsource h₂ hfurther htarget
      (blanks_of_tokens hlast) .absent hnil
    simpa using hline
  | true =>
    obtain ⟨b₃, b₄, rfl, h₃, h₄⟩ := mark_of_tokens hlast
    have hline := PipelineLine.mk h₀ hcommand h₁ hsource h₂ hfurther htarget h₃ .present
      (blanks_of_tokens h₄)
    simpa using hline

theorem pipelineLine_spelled :
    Spelled PipelineLine fun action => ∃ pipeline : Pipeline, action = .run pipeline ∧
      pipeline.WellFormed := by
  refine fun text action => ⟨PipelineLine.spelled, ?_⟩
  rintro ⟨⟨pipeline, rfl, hformed⟩, htokens⟩
  exact pipelineLine_of_tokens hformed htokens

/-! ### Lines that ask for a pipeline -/

theorem word_mem_spellStages {run : List Stage} {stage : Stage} {word : String}
    (hstage : stage ∈ run) (hword : word ∈ stage.words) : .word word.toList ∈ spellStages run := by
  have hmem : .word word.toList ∈ stage.spelling := by
    have hfile {mark : Char} {file : Option String} (h : word ∈ file.toList) :
        .word word.toList ∈ spellRedirection mark file := by
      rw [Option.mem_toList.mp h]
      simp [spellRedirection]
    rcases List.mem_append.mp hword with hword | houtput
    · rcases List.mem_append.mp hword with hargument | hinput
      · exact List.mem_append_left _
          (List.mem_append_left _ (List.mem_map.mpr ⟨word, hargument, rfl⟩))
      · exact List.mem_append_left _ (List.mem_append_right _ (hfile hinput))
    · exact List.mem_append_right _ (hfile houtput)
  induction run with
  | nil => exact absurd hstage List.not_mem_nil
  | cons first rest ih =>
    cases rest with
    | nil =>
      obtain rfl := List.mem_singleton.mp hstage
      exact hmem
    | cons second rest =>
      rw [spellStages]
      · rcases List.mem_cons.mp hstage with rfl | hstage
        · exact List.mem_append_left _ hmem
        · exact List.mem_append_right _ (List.mem_cons_of_mem _ (ih hstage))
      · simp

theorem run_of_firstOf {body : List Char} {p : Pipeline} (h : FirstOf alternatives body (.run p)) :
    PipelineLine body (.run p) := by
  rcases h with h | ⟨-, h | ⟨-, h | ⟨-, h | ⟨-, h⟩⟩⟩⟩
  · cases ((exitLine_spelled _ _).mp h).1
  · obtain ⟨⟨target, htarget⟩, -⟩ := (directoryLine_spelled _ _).mp h
    cases htarget
  · exact h
  · cases ((blankLine_spelled _ _).mp h).1
  · exact h.elim

theorem run_of_read {line : String} {p : Pipeline} (h : read line = .ok (.run p)) :
    p.WellFormed ∧ ∀ stage ∈ p.stages, ∀ word ∈ stage.words, Part word.toList := by
  obtain ⟨body, ending, -, -, hfirst⟩ := (read_eq_ok_iff_assigns line _).mp h
  obtain ⟨⟨pipeline, haction, hformed⟩, htokens⟩ :=
    (pipelineLine_spelled _ _).mp (run_of_firstOf hfirst)
  obtain rfl := Action.run.inj haction
  refine ⟨hformed, fun stage hstage word hword => ?_⟩
  have hmem : .word word.toList ∈ tokens body := by
    rw [htokens]
    exact List.mem_append_left _ (word_mem_spellStages hstage hword)
  exact part_of_mem_tokens hmem

end Line

end PipeShell
