import Mathlib.Data.List.Infix
import PipeShell.Proofs.Session.Faithful
import PipeShell.Proofs.Text.Decoding

/-!
What a session writes by itself. On a watched host its acts are recorded in the order in which they
happen: prompts stand among the lines that are asked for and the actions that are carried out, and
nothing is left unwritten in between.
-/

set_option autoImplicit false
set_option relaxedAutoImplicit false

namespace PipeShell

open Program

variable {σ : Type}

/-- An act of a session: it writes to its output, asks for a line or has an action carried out. -/
inductive Act
  | wrote (data : Bytes)
  | asked
  | performed (action : Action)
  deriving DecidableEq

def Act.output (acts : List Act) : Bytes := acts.flatMap fun
  | wrote data => data
  | asked => []
  | performed _ => []

/-- A host with a record of the acts of the session. -/
def Host.watched (h : Host σ) : Host (σ × List Act) where
  reap s := (h.reap s.1, s.2)
  directory s := h.directory s.1
  write data s := (h.write data s.1, s.2 ++ [.wrote data])
  complain data s := (h.complain data s.1, s.2)
  note record s := (h.note record s.1, s.2)
  readLine s := ((h.readLine s.1).1, ((h.readLine s.1).2, s.2 ++ [.asked]))
  perform action s :=
    ((h.perform action s.1).1, ((h.perform action s.1).2, s.2 ++ [.performed action]))

/-- A host collects children as the interpreter does, and its working directory changes only when it
is entered. -/
def Host.Collects (h : Host σ) (background : σ → Background) : Prop :=
  ∀ s, ∃ past, Course (background s).reap past (some (background (h.reap s))) ∧
    (h.directory (h.reap s) ≠ h.directory s → Enters past)

theorem Host.Collects.directory_reap {h : Host σ} {background : σ → Background}
    (hh : h.Collects background) (s : σ) : h.directory (h.reap s) = h.directory s := by
  obtain ⟨past, hcourse, henters⟩ := hh s
  refine Classical.byContradiction fun hne => ?_
  exact not_enters hcourse (background s).reap_rests (henters hne)

namespace Session

def State.watched (past : List Act) (s : State σ) : State (σ × List Act) :=
  { host := (s.host, past), pending := s.pending }

def carried (line : Bytes) : List Act :=
  match reading line with
  | .error _ => []
  | .ok action => [.performed action]

def shown (settings : Settings) (data : Bytes) : List Act :=
  if settings.showPrompt then [.wrote data] else []

def roundActs (h : Host σ) (settings : Settings) (s : State σ) : List Act :=
  shown settings (prompt (h.directory (h.reap s.host))) ++ .asked ::
    match (h.readLine (prepare h settings s).host).1 with
    | .error _ => []
    | .ok [] => shown settings [Bytes.newline]
    | .ok line => carried line

/-- What some lines leave: the code of the session, if one of them has ended it, and its state. -/
def behind (h : Host σ) (settings : Settings) (s : State σ) (lines : List Bytes) :
    Option UInt8 × State σ :=
  lines.foldl (step h settings) (none, s)

variable {h : Host σ} {settings : Settings}

/-! ### Nothing is left unwritten -/

theorem flush_pending (s : State σ) : (flush h s).pending = [] := by
  unfold flush
  split
  · next hs => exact hs
  · rfl

theorem flush_of_pending {s : State σ} (hs : s.pending = []) : flush h s = s := if_pos hs

theorem prepare_pending (settings : Settings) {s : State σ} (hs : s.pending = []) :
    (prepare h settings s).pending = [] := by
  unfold prepare
  split
  · exact flush_pending _
  · exact hs

theorem runLine_pending (line : Bytes) {s : State σ} (hs : s.pending = []) :
    (runLine h line s).2.pending = [] := by
  unfold runLine
  split
  · exact hs
  · next action _ =>
    dsimp only
    rw [flush_of_pending hs]
    generalize h.perform action s.host = performed
    rcases performed with ⟨_ | _ | _, host⟩ <;> exact hs

theorem step_pending (settings : Settings) (line : Bytes) {s : State σ} (hs : s.pending = []) :
    (step h settings (none, s) line).2.pending = [] := by
  have hrun := runLine_pending (h := h) line (prepare_pending (h := h) settings hs)
  rw [step_none]
  generalize runLine h line (prepare h settings s) = performed at hrun ⊢
  rcases performed with ⟨_ | _ | _, s'⟩ <;> exact hrun

theorem behind_cons {s s' : State σ} {line : Bytes}
    (hstep : step h settings (none, s) line = (none, s'))
    (lines : List Bytes) : behind h settings s (line :: lines) = behind h settings s' lines := by
  unfold behind
  rw [List.foldl_cons, hstep]

theorem behind_cons_over {s s' : State σ} {line : Bytes} {code : UInt8}
    (hstep : step h settings (none, s) line = (some code, s')) (lines : List Bytes) :
    behind h settings s (line :: lines) = (some code, s') := by
  unfold behind
  rw [List.foldl_cons, hstep, foldl_over]

theorem behind_pending (settings : Settings) (lines : List Bytes) {s : State σ}
    (hs : s.pending = []) : (behind h settings s lines).2.pending = [] := by
  induction lines generalizing s with
  | nil => exact hs
  | cons line lines ih =>
    have hpending := step_pending (h := h) settings line hs
    rcases hstep : step h settings (none, s) line with ⟨_ | code, s'⟩
    · rw [hstep] at hpending
      rw [behind_cons hstep]
      exact ih hpending
    · rw [hstep] at hpending
      rw [behind_cons_over hstep]
      exact hpending

theorem round_pending (settings : Settings) {s : State σ} (hs : s.pending = []) :
    (round h settings s).2.pending = [] := by
  have hprepared := prepare_pending (h := h) settings hs
  rw [round_eq]
  generalize prepare h settings s = t at hprepared ⊢
  rcases h.readLine t.host with ⟨reason | _ | ⟨b, line⟩, host⟩
  · exact hprepared
  · dsimp only
    split
    · exact flush_pending _
    · exact hprepared
  · have hrun := runLine_pending (h := h) (b :: line) (s := { t with host := host }) hprepared
    dsimp only
    generalize runLine h (b :: line) { t with host := host } = performed at hrun ⊢
    rcases performed with ⟨_ | _ | _, s'⟩ <;> exact hrun

/-! ### Acts -/

theorem prompt_some (path : Bytes) : prompt (some path) = Bytes.ofString "\x1b[32m" ++
    Bytes.ofString (String.ofList (Utf8.decodeLossy path)) ++ Bytes.ofString "\x1b[39m$ " := by
  have hsign : Bytes.ofString "\x1b[39m$ " =
      ordinaryColor ++ Bytes.ofString "$ " := by decide +kernel
  unfold prompt shownDirectory directoryColor
  rw [hsign, ← List.append_assoc]

theorem prompt_ne_nil (directory? : Option Bytes) : prompt directory? ≠ [] := by
  have hsign : Bytes.ofString "$ " ≠ [] := by decide
  exact fun hnil => hsign (List.append_eq_nil_iff.mp hnil).2

theorem flush_print_watched {data : Bytes} (hdata : data ≠ []) {s : State σ} (hs : s.pending = [])
    (past : List Act) : flush h.watched (print data (s.watched past)) =
      (flush h (print data s)).watched (past ++ [.wrote data]) := by
  have hprinted : s.pending ++ data ≠ [] := by
    rw [hs]
    exact hdata
  have hflush : flush h (print data s) =
      { host := h.write (s.pending ++ data) s.host, pending := [] } := if_neg hprinted
  have hflush' : flush h.watched (print data (s.watched past)) =
      { host := (h.write (s.pending ++ data) s.host, past ++ [.wrote (s.pending ++ data)]),
        pending := [] } :=
    if_neg hprinted
  rw [hflush, hflush', hs]
  rfl

theorem prepare_watched {s : State σ} (hs : s.pending = []) (past : List Act) :
    prepare h.watched settings (s.watched past) =
      (prepare h settings s).watched
      (past ++ shown settings (prompt (h.directory (h.reap s.host)))) := by
  unfold prepare shown
  split
  · exact flush_print_watched (s := onHost h.reap s) (prompt_ne_nil _) hs past
  · rw [List.append_nil]
    rfl

theorem runLine_watched (line : Bytes) {s : State σ} (hs : s.pending = []) (past : List Act) :
    runLine h.watched line (s.watched past) =
      ((runLine h line s).1, (runLine h line s).2.watched (past ++ carried line)) := by
  unfold runLine carried reading
  cases Line.read (String.ofList (Utf8.decodeLossy line)) with
  | error refusal =>
    rw [List.append_nil]
    rfl
  | ok action =>
    have hperform : h.watched.perform action (s.watched past).host = ((h.perform action s.host).1,
        ((h.perform action s.host).2, past ++ [.performed action])) := rfl
    have hflush : flush h.watched (s.watched past) = s.watched past := flush_of_pending hs
    dsimp only
    rw [hflush, flush_of_pending hs, hperform]
    generalize h.perform action s.host = performed
    rcases performed with ⟨_ | _ | _, host⟩ <;> rfl

theorem round_watched {s : State σ} (hs : s.pending = []) (past : List Act) :
    round h.watched settings (s.watched past) =
      ((round h settings s).1,
        (round h settings s).2.watched (past ++ roundActs h settings s)) := by
  have hprepared := prepare_pending (h := h) settings hs
  -- what comes before the line is the same in all cases
  unfold roundActs
  rw [round_eq, round_eq, prepare_watched hs, ← List.append_assoc]
  generalize past ++ shown settings (prompt (h.directory (h.reap s.host))) = past'
  generalize prepare h settings s = t at hprepared ⊢
  have hread : h.watched.readLine (t.watched past').host =
      ((h.readLine t.host).1, ((h.readLine t.host).2, past' ++ [.asked])) := rfl
  rw [hread]
  rcases h.readLine t.host with ⟨reason | _ | ⟨b, line⟩, host⟩
  · rfl
  · have hended := flush_print_watched (h := h) (s := { t with host := host })
      (List.cons_ne_nil Bytes.newline []) hprepared (past' ++ [.asked])
    rw [← List.append_cons] at hended
    unfold shown
    dsimp only
    split
    · exact congrArg (Prod.mk _) hended
    · rfl
  · have hrun := runLine_watched (h := h) (b :: line) (s := { t with host := host }) hprepared
      (past' ++ [.asked])
    unfold State.watched at hrun ⊢
    dsimp only at hrun ⊢
    rw [hrun, ← List.append_cons]
    generalize runLine h (b :: line) { t with host := host } = performed
    rcases performed with ⟨_ | _ | _, s'⟩ <;> rfl

theorem not_mem_roundActs (hshot : settings.singleShot = true) (s : State σ) (data : Bytes) :
    .wrote data ∉ roundActs h settings s := by
  have hshown (data : Bytes) : shown settings data = [] :=
    if_neg (by simp [Settings.showPrompt, hshot])
  unfold roundActs carried
  rw [hshown, hshown]
  intro hmem
  rcases List.mem_cons.mp hmem with heq | hmem
  · cases heq
  · split at hmem
    · cases hmem
    · cases hmem
    · split at hmem
      · cases hmem
      · cases List.mem_singleton.mp hmem

theorem run_silent (hshot : settings.singleShot = true) {data : Bytes} :
    ∀ (rounds : Nat) {s : State σ} {past : List Act},
      s.pending = [] → .wrote data ∈ (run h.watched settings rounds (s.watched past)).2.host.2 →
      .wrote data ∈ past := by
  intro rounds
  induction rounds with
  | zero => exact fun _ hmem => hmem
  | succ rounds ih =>
    intro s past hs hmem
    have hround := round_pending (h := h) settings hs
    rw [run, round_watched hs] at hmem
    have hpast : .wrote data ∈ past ++ roundActs h settings s := by
      rcases hpair : round h settings s with ⟨code | _, s'⟩
      · rw [hpair] at hmem
        exact hmem
      · rw [hpair] at hmem hround
        exact ih hround hmem
    rcases List.mem_append.mp hpast with hmem | hmem
    · exact hmem
    · exact absurd hmem (not_mem_roundActs hshot s data)

/-! ### Prompts -/

def promptBehind (h : Host σ) (settings : Settings) (s : State σ) (lines : List Bytes) : Bytes :=
  prompt (h.directory (behind h settings s lines).2.host)

/-- The turns of some lines: each one is asked for behind the prompt that the lines before it lead
to, and carried out. -/
def turns (shows : List Bytes → Bytes) (lines : List Bytes) : List Act :=
  (List.zipWith (fun before line => .wrote (shows before) :: .asked ::
    carried line) lines.inits lines).flatten

theorem turns_cons (shows : List Bytes → Bytes) (line : Bytes) (lines : List Bytes) :
    turns shows (line :: lines) = .wrote (shows []) :: .asked ::
      (carried line ++ turns (fun before => shows (line :: before)) lines) := by
  unfold turns
  rw [List.inits_cons, List.zipWith_cons_cons, List.zipWith_map_left]
  rfl

theorem output_append (acts more : List Act) :
    Act.output (acts ++ more) = Act.output acts ++ Act.output more :=
  List.flatMap_append

theorem output_turn (data : Bytes) (acts : List Act) :
    Act.output (.wrote data :: .asked :: acts) = data ++ Act.output acts := by
  unfold Act.output
  rw [List.flatMap_cons, List.flatMap_cons, List.nil_append]

theorem output_carried (line : Bytes) : Act.output (carried line) = [] := by
  unfold carried
  split <;> rfl

theorem output_turns (shows : List Bytes → Bytes) (lines : List Bytes) :
    Act.output (turns shows lines) ++ shows lines = lines.inits.flatMap shows := by
  induction lines generalizing shows with
  | nil => simp [turns, Act.output]
  | cons line lines ih =>
    have hfirst : Act.output (turns shows (line :: lines)) =
        shows [] ++ Act.output (turns (fun before => shows (line :: before)) lines) := by
      rw [turns_cons, output_turn, output_append, output_carried, List.nil_append]
    rw [hfirst, List.append_assoc, ih, List.inits_cons, List.flatMap_cons, List.flatMap_map]

theorem promptBehind_cons {s s' : State σ} {line : Bytes}
    (hstep : step h settings (none, s) line = (none, s')) (lines : List Bytes) :
    promptBehind h settings s (line :: lines) = promptBehind h settings s' lines := by
  unfold promptBehind
  rw [behind_cons hstep]

theorem turns_step {s s' : State σ} {line : Bytes}
    (hstep : step h settings (none, s) line = (none, s')) (lines : List Bytes) :
    turns (promptBehind h settings s) (line :: lines) =
      .wrote (promptBehind h settings s []) :: .asked ::
      (carried line ++ turns (promptBehind h settings s') lines) := by
  rw [turns_cons, funext (promptBehind_cons hstep)]

theorem exists_action_of_over {line : Bytes} {s : State σ} {code : UInt8}
    (hover : (step h settings (none, s) line).1 = some code) : ∃ action, reading line = .ok action ∧
      codeAfter (h.perform action (ready h settings s).host).1 = some code := by
  cases hread : reading line with
  | error refusal =>
    rw [step_of_error hread] at hover
    cases hover
  | ok action =>
    rw [step_of_ok hread] at hover
    exact ⟨action, rfl, hover⟩

theorem roundActs_fed {background : σ → Background} (hh : h.Collects background)
    (hshot : settings.singleShot = false) (s : State σ) (input : Bytes) :
    roundActs h.fed settings (s.fed input) =
      .wrote (promptBehind h settings s []) :: .asked ::
        if input = [] then [.wrote [Bytes.newline]] else carried (Bytes.firstLine input).1 := by
  have hshown (data : Bytes) : shown settings data = [.wrote data] :=
    if_pos (by simp [Settings.showPrompt, hshot])
  have hread : (h.fed.readLine (prepare h.fed settings (s.fed input)).host).1 =
      .ok (Bytes.firstLine input).1 := by
    rw [prepare_fed]
    rfl
  have hdirectory : h.fed.directory (h.fed.reap (s.fed input).host) = h.directory s.host :=
    hh.directory_reap s.host
  unfold roundActs
  rw [hread, hdirectory, hshown, hshown]
  by_cases hinput : input = []
  · subst hinput
    rfl
  · obtain ⟨b, line, hline⟩ := List.exists_cons_of_ne_nil (Bytes.firstLine_ne_nil hinput)
    rw [if_neg hinput, hline]
    rfl

theorem run_behind {background : σ → Background} (hh : h.Collects background)
    (hshot : settings.singleShot = false) {before : List Bytes} :
    ∀ {after : List Bytes} {input : Bytes} {s s' : State σ} (past : List Act), s.pending = [] →
      Bytes.lines input = before ++ after → behind h settings s before = (none, s') →
      ∃ rest, Bytes.lines rest = after ∧ ∀ rounds,
        run h.fed.watched settings (before.length + rounds) ((s.fed input).watched past) =
          run h.fed.watched settings rounds
          ((s'.fed rest).watched (past ++ turns (promptBehind h settings s) before)) := by
  induction before with
  | nil =>
    intro after input s s' past _ hlines hbehind
    obtain rfl : s = s' := congrArg Prod.snd hbehind
    refine ⟨input, hlines, fun rounds => ?_⟩
    have hnone : turns (promptBehind h settings s) [] = [] := rfl
    rw [hnone, List.append_nil, List.length_nil, Nat.zero_add]
  | cons line before ih =>
    intro after input s s' past hs hlines hbehind
    have hinput : input ≠ [] := by
      rintro rfl
      cases hlines
    rw [Bytes.lines_eq_firstLine hinput] at hlines
    obtain ⟨hline, hlines⟩ := List.cons.inj hlines
    have hround := round_fed hshot hinput (h := h) s
    rw [hline] at hround
    rcases hstep : step h settings (none, s) line with ⟨_ | code, t⟩
    · have ht := step_pending (h := h) settings line hs
      rw [hstep] at ht hround
      rw [behind_cons hstep] at hbehind
      obtain ⟨rest, hrest, hrun⟩ :=
        ih (past ++ roundActs h.fed settings (s.fed input)) ht hlines hbehind
      refine ⟨rest, hrest, fun rounds => ?_⟩
      have hturns : past ++
          roundActs h.fed settings (s.fed input) ++ turns (promptBehind h settings t) before =
          past ++ turns (promptBehind h settings s) (line :: before) := by
        rw [turns_step hstep, roundActs_fed hh hshot, if_neg hinput, hline, List.append_assoc]
        rfl
      rw [← hturns, ← hrun rounds, List.length_cons, Nat.succ_add, run,
        round_watched (s := s.fed input) hs, hround]
    -- no line before the last one has ended the session
    · rw [behind_cons_over hstep] at hbehind
      cases hbehind

section

variable {background : σ → Background} (hh : h.Collects background) (hshot : settings.singleShot =
  false) {input : Bytes} {s : State σ} (hs : s.pending = []) {rounds : Nat}

include hh hshot hs

theorem run_through (hnone : (behind h settings s (Bytes.lines input)).1 = none)
    (hrounds : (Bytes.lines input).length < rounds) : ∃ final : State (σ × Bytes),
      run h.fed.watched settings rounds ((s.fed input).watched []) =
        (some 0, final.watched (turns (promptBehind h settings s) (Bytes.lines input) ++
          [.wrote (promptBehind h settings s (Bytes.lines input)),
            .asked, .wrote [Bytes.newline]])) ∧
      final.pending = [] := by
  obtain ⟨more, rfl⟩ := Nat.exists_eq_add_of_lt hrounds
  have hall : Bytes.lines input = Bytes.lines input ++ [] := (List.append_nil _).symm
  obtain ⟨rest, hrest, hrun⟩ := run_behind hh hshot [] hs hall (Prod.ext hnone rfl)
  obtain rfl : rest = [] := by rw [← Bytes.flatten_lines rest, hrest, List.flatten_nil]
  have hpending : (State.fed [] (behind h settings s (Bytes.lines input)).2).pending = [] :=
    behind_pending settings _ hs
  have hfinal := round_pending (h := h.fed) settings hpending
  rw [round_fed_nil] at hfinal
  rw [Nat.add_assoc, hrun, run, round_watched hpending, round_fed_nil,
    roundActs_fed hh hshot, if_pos rfl]
  exact ⟨_, rfl, hfinal⟩

theorem run_ended {before after : List Bytes} {line : Bytes} {action : Action} {code : UInt8}
    (hlines : Bytes.lines input = before ++ line :: after)
    (hnone : (behind h settings s before).1 = none) (hread : reading line = .ok action)
    (hcode : codeAfter (h.perform action (ready h settings (behind h settings s before).2).host).1 =
      some code) (hrounds : before.length < rounds) : ∃ final : State (σ × Bytes),
      run h.fed.watched settings rounds ((s.fed input).watched []) =
        (some code, final.watched (turns (promptBehind h settings s) before ++
          [.wrote (promptBehind h settings s before), .asked, .performed action])) ∧
      final.pending = [] := by
  obtain ⟨more, rfl⟩ := Nat.exists_eq_add_of_lt hrounds
  obtain ⟨rest, hrest, hrun⟩ := run_behind hh hshot [] hs hlines (Prod.ext hnone rfl)
  have hne : rest ≠ [] := by
    rintro rfl
    cases hrest
  rw [Bytes.lines_eq_firstLine hne] at hrest
  have hline : (Bytes.firstLine rest).1 = line := (List.cons.inj hrest).1
  have hcarried : carried line = [.performed action] := by
    unfold carried
    rw [hread]
  have hpending : (State.fed rest (behind h settings s before).2).pending = [] :=
    behind_pending settings _ hs
  have hfinal := round_pending (h := h.fed) settings hpending
  have hround := round_fed hshot hne (h := h) (behind h settings s before).2
  rw [hline, step_of_ok hread, hcode] at hround
  rw [hround] at hfinal
  rw [Nat.add_assoc, hrun, run, round_watched hpending, hround, roundActs_fed hh hshot,
    if_neg hne, hline, hcarried]
  exact ⟨_, rfl, hfinal⟩

end

theorem through_or_ended (h : Host σ) (settings : Settings) (lines : List Bytes) (s : State σ) :
    (behind h settings s lines).1 = none ∨
      ∃ before line after action code, lines = before ++ line :: after ∧
      (behind h settings s before).1 = none ∧ reading line = .ok action ∧
      codeAfter (h.perform action (ready h settings (behind h settings s before).2).host).1 =
        some code := by
  induction lines generalizing s with
  | nil => exact .inl rfl
  | cons line lines ih =>
    rcases hstep : step h settings (none, s) line with ⟨_ | code, s'⟩
    · rcases ih s' with hnone | ⟨before, last, after, action, code, hlines, hnone, hread, hcode⟩
      · exact .inl (behind_cons hstep lines ▸ hnone)
      · refine .inr ⟨line :: before, last, after, action, code,
          congrArg (line :: ·) hlines, ?_, hread, ?_⟩
        · rw [behind_cons hstep]
          exact hnone
        · rw [behind_cons hstep]
          exact hcode
    · obtain ⟨action, hread, hcode⟩ := exists_action_of_over (congrArg Prod.fst hstep)
      exact .inr ⟨[], line, lines, action, code, rfl, rfl, hread, hcode⟩

/-- What a session on a host writes by itself for some input, in between its other acts. -/
structure WritesPrompts (h : Host σ) (settings : Settings) (host : σ) (input : Bytes) : Prop where
  /-- A session of a single line writes nothing. -/
  silent : settings.singleShot = true → ∀ (rounds : Nat) (data : Bytes), .wrote data ∉ (run
    h.fed.watched settings rounds (State.watched [] (State.fed input { host := host }))).2.host.2
  /-- Other sessions get through their lines, or one of the lines leaves or fails fatally. -/
  either : (behind h settings { host := host } (Bytes.lines input)).1 = none ∨
    ∃ before line after action code, Bytes.lines input = before ++ line :: after ∧
      (behind h settings { host := host } before).1 = none ∧ reading line = .ok action ∧
      codeAfter (h.perform action
        (ready h settings (behind h settings { host := host } before).2).host).1 = some code
  /-- For each line there is a prompt before it is asked for, and for the end of the input there is
  one more, and a newline. -/
  through : settings.singleShot = false →
    (behind h settings { host := host } (Bytes.lines input)).1 = none →
    ∀ rounds, (Bytes.lines input).length < rounds → ∃ (final : State (σ × Bytes)) (acts : List Act),
      run h.fed.watched settings rounds (State.watched [] (State.fed input { host := host })) =
        (some 0, final.watched acts) ∧ final.pending = [] ∧
      acts = turns (promptBehind h settings { host := host }) (Bytes.lines input) ++
        [.wrote (promptBehind h settings { host := host } (Bytes.lines input)),
          .asked, .wrote [Bytes.newline]] ∧
      Act.output acts =
        (Bytes.lines input).inits.flatMap
        (promptBehind h settings { host := host }) ++ [Bytes.newline]
  /-- After the line that ends a session, nothing is written. -/
  ended : settings.singleShot = false →
    ∀ before line after action code, Bytes.lines input = before ++ line :: after →
    (behind h settings { host := host } before).1 = none → reading line = .ok action →
    codeAfter (h.perform action
      (ready h settings (behind h settings { host := host } before).2).host).1 = some code →
    ∀ rounds, before.length < rounds → ∃ (final : State (σ × Bytes)) (acts : List Act),
      run h.fed.watched settings rounds (State.watched [] (State.fed input { host := host })) =
        (some code, final.watched acts) ∧ final.pending = [] ∧
      acts = turns (promptBehind h settings { host := host }) before ++
        [.wrote (promptBehind h settings { host := host } before), .asked, .performed action] ∧
      Act.output acts = before.inits.flatMap (promptBehind h settings { host := host })
  /-- A prompt is the working directory that the lines before it leave, in colour, and a sign. -/
  shows : ∀ before : List Bytes, promptBehind h settings { host := host } before =
    match h.directory (behind h settings { host := host } before).2.host with
    | some path => Bytes.ofString "\x1b[32m" ++
        Bytes.ofString (String.ofList (Utf8.decodeLossy path)) ++ Bytes.ofString "\x1b[39m$ "
    | none => Bytes.ofString "$ "
  /-- A directory whose path is a text is shown as it is. -/
  named : ∀ (before : List Bytes) (name : String),
    h.directory (behind h settings { host := host } before).2.host = some (Bytes.ofString name) →
    promptBehind h settings { host := host } before =
      Bytes.ofString "\x1b[32m" ++ Bytes.ofString name ++ Bytes.ofString "\x1b[39m$ "
  /-- Nothing is left to be written when a line is asked for, and nothing is written from then on
  until its action is carried out. -/
  settled : ∀ before : List Bytes,
    (prepare h settings (behind h settings { host := host } before).2).pending = [] ∧
    ready h settings (behind h settings { host := host } before).2 =
      prepare h settings (behind h settings { host := host } before).2

/-- A session with prompts writes the prompts of its lines, and a newline at the end of the
input. -/
theorem writes_prompts {background : σ → Background} (hh : h.Collects background)
    (settings : Settings) (host : σ) (input : Bytes) : WritesPrompts h settings host input where
  silent hshot rounds data hmem := absurd (run_silent hshot rounds rfl hmem) List.not_mem_nil
  either := through_or_ended h settings (Bytes.lines input) { host := host }
  through hshot hnone rounds hrounds := by
    obtain ⟨final, hrun, hfinal⟩ := run_through hh hshot rfl hnone hrounds
    refine ⟨final, _, hrun, hfinal, rfl, ?_⟩
    rw [output_append, output_turn, ← output_turns, List.append_assoc]
    rfl
  ended hshot before line after action code hlines hnone hread hcode rounds hrounds := by
    obtain ⟨final, hrun, hfinal⟩ := run_ended hh hshot rfl hlines hnone hread hcode hrounds
    refine ⟨final, _, hrun, hfinal, rfl, ?_⟩
    rw [output_append, output_turn, ← output_turns]
    exact congrArg (_ ++ ·) (List.append_nil _)
  shows before := by
    unfold promptBehind
    cases h.directory (behind h settings { host := host } before).2.host with
    | none => rfl
    | some path => exact prompt_some path
  named before name hname := by
    unfold promptBehind
    rw [hname, prompt_some, Utf8.decodeLossy_ofString, String.ofList_toList]
  settled before := by
    have hpending := prepare_pending (h := h) settings
      (behind_pending (h := h) settings before (s := { host := host }) rfl)
    exact ⟨hpending, flush_of_pending hpending⟩

/-- A host on which one can only go about. Its working directory may be unknown. -/
private def outdoors : Host (Option Bytes) where
  reap s := s
  directory s := s
  write _ s := s
  complain _ s := s
  note _ s := s
  readLine s := (.ok [], s)
  perform
    | .changeDirectory target, _ => (.status 0, some (Bytes.ofString target))
    | .exit, s => (.left 0, s)
    | _, s => (.status 0, s)

private theorem outdoors_collects : outdoors.Collects fun _ => {} :=
  fun _ => ⟨[], .done _, fun hchanged => absurd rfl hchanged⟩

/-- An unreadable line is followed by a prompt all the same, a line that leaves by nothing. -/
theorem writes_prompts_outdoors :
    (∃ final : State (Option Bytes × Bytes), run outdoors.fed.watched {} 3
        (State.watched [] (State.fed (Bytes.ofString "cd sub\n?") { host := none })) = (some 0,
          final.watched
      [.wrote [36, 32], .asked, .performed (.changeDirectory "sub"),
        .wrote [27, 91, 51, 50, 109, 115, 117, 98, 27, 91, 51, 57, 109, 36, 32], .asked, .wrote [27,
          91, 51, 50, 109, 115, 117, 98, 27, 91, 51, 57, 109, 36, 32], .asked, .wrote [10]])) ∧
    (∃ final : State (Option Bytes × Bytes), run outdoors.fed.watched {} 2
        (State.watched [] (State.fed (Bytes.ofString "cd sub\nexit\ncd") { host := none })) =
      (some 0, final.watched
      [.wrote [36, 32], .asked, .performed (.changeDirectory "sub"),
        .wrote [27, 91, 51, 50, 109, 115, 117, 98, 27, 91, 51, 57, 109, 36, 32], .asked,
        .performed .exit])) ∧
    ∀ data, .wrote data ∉ (run outdoors.fed.watched { singleShot := true } 1
      (State.watched [] (State.fed (Bytes.ofString "cd sub") { host := none }))).2.host.2 := by
  refine ⟨?_, ?_, (writes_prompts outdoors_collects { singleShot := true } none
    (Bytes.ofString "cd sub")).silent rfl 1⟩
  · obtain ⟨final, acts, hrun, -, hacts, -⟩ := (writes_prompts outdoors_collects {} none
      (Bytes.ofString "cd sub\n?")).through rfl (by decide +kernel) 3 (by decide +kernel)
    rw [hacts] at hrun
    exact ⟨final, hrun.trans
      (congrArg (fun acts => (some 0, State.watched acts final)) (by decide +kernel))⟩
  · obtain ⟨final, acts, hrun, -, hacts, -⟩ := (writes_prompts outdoors_collects {} none
      (Bytes.ofString "cd sub\nexit\ncd")).ended rfl
      [Bytes.ofString "cd sub\n"] (Bytes.ofString "exit\n")
      [Bytes.ofString "cd"] .exit 0 (by decide +kernel) (by decide +kernel) (by decide +kernel)
      (by decide +kernel) 2 (by decide +kernel)
    rw [hacts] at hrun
    exact ⟨final, hrun.trans
      (congrArg (fun acts => (some 0, State.watched acts final)) (by decide +kernel))⟩

end Session

end PipeShell
