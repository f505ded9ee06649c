import PipeShell.Proofs.Text.Lines
import PipeShell.Session

/-!
A session as a fold. What happens in a session is what happens for its lines one after the other, up
to the first of them that ends it; the rounds of the session add nothing to that.
-/

set_option autoImplicit false
set_option relaxedAutoImplicit false

namespace PipeShell

variable {σ : Type}

/-- A host that is fed with some input, of which only the session takes anything. -/
def Host.fed (h : Host σ) : Host (σ × Bytes) where
  reap s := (h.reap s.1, s.2)
  directory s := h.directory s.1
  write data s := (h.write data s.1, s.2)
  complain data s := (h.complain data s.1, s.2)
  note record s := (h.note record s.1, s.2)
  readLine s := (.ok (Bytes.firstLine s.2).1, (s.1, (Bytes.firstLine s.2).2))
  perform action s := ((h.perform action s.1).1, ((h.perform action s.1).2, s.2))

namespace Session

variable (h : Host σ) (settings : Settings)

def State.fed (input : Bytes) (s : State σ) : State (σ × Bytes) :=
  { host := (s.host, input), pending := s.pending }

def prepare (s : State σ) : State σ :=
  if settings.showPrompt then showPrompt h (onHost h.reap s) else onHost h.reap s

/-- What a line that was carried out leaves: the code of the session, if it is over, and its
state. -/
def afterLine : Performed × State σ → Option UInt8 × State σ
  | (.left code, s) => (some code, s)
  | (.fatal _, s) => (some 1, s)
  | (.status n, s) => (none, onHost (h.note (.lineStatus n)) s)

/-- One line more, unless the session is over. -/
def step : Option UInt8 × State σ → Bytes → Option UInt8 × State σ
  | (some code, s), _ => (some code, s)
  | (none, s), line => afterLine h (runLine h line (prepare h settings s))

def conclude : Option UInt8 × State σ → UInt8 × State σ
  | (some code, s) => (code, s)
  | (none, s) =>
    (0, if settings.showPrompt then flush h (print [Bytes.newline] (prepare h settings s))
      else prepare h settings s)

variable {h settings}

theorem step_none (s : State σ) (line : Bytes) :
    step h settings (none, s) line = afterLine h (runLine h line (prepare h settings s)) := rfl

theorem flush_fed (input : Bytes) (s : State σ) :
    flush h.fed (s.fed input) = (flush h s).fed input := by
  unfold flush
  show (if s.pending = [] then _ else _) = _
  split <;> rfl

theorem showPrompt_fed (input : Bytes) (s : State σ) :
    showPrompt h.fed (s.fed input) = (showPrompt h s).fed input :=
  flush_fed input (print (prompt (h.directory s.host)) s)

theorem prepare_fed (input : Bytes) (s : State σ) :
    prepare h.fed settings (s.fed input) = (prepare h settings s).fed input := by
  unfold prepare
  split
  · exact showPrompt_fed input (onHost h.reap s)
  · rfl

theorem runLine_fed (line input : Bytes) (s : State σ) :
    runLine h.fed line (s.fed input) = ((runLine h line s).1, (runLine h line s).2.fed input) := by
  unfold runLine
  split
  · rfl
  · next action haction =>
    have hperform : h.fed.perform action ((flush h s).fed input).host =
        ((h.perform action (flush h s).host).1, ((h.perform action (flush h s).host).2, input)) :=
      rfl
    dsimp only
    rw [flush_fed, hperform]
    generalize h.perform action (flush h s).host = performed
    rcases performed with ⟨_ | _ | _, host⟩ <;> rfl

theorem round_eq (s : State σ) : round h settings s =
    match h.readLine (prepare h settings s).host with
    | (.error reason, host) =>
      (.over 1, { prepare h settings s with host := h.note (.unreadableInput reason) host })
    | (.ok [], host) =>
      (.over 0, if settings.showPrompt then flush h
        (print [Bytes.newline] { prepare h settings s with host := host })
        else { prepare h settings s with host := host })
    | (.ok line, host) =>
      match runLine h line { prepare h settings s with host := host } with
      | (.left code, s) => (.over code, s)
      | (.fatal _, s) => (.over 1, s)
      | (.status n, s) =>
        (if settings.singleShot then .over (codeOf n) else .more,
          onHost (h.note (.lineStatus n)) s) := rfl

theorem round_fed_nil (s : State σ) :
    round h.fed settings (s.fed []) =
      (.over (conclude h settings (none, s)).1, (conclude h settings (none, s)).2.fed []) := by
  have hread : h.fed.readLine ((prepare h settings s).fed []).host =
      (.ok [], ((prepare h settings s).host, [])) := rfl
  rw [round_eq, prepare_fed, hread]
  unfold conclude
  dsimp only
  split
  · exact congrArg (Prod.mk _) (flush_fed [] (print [Bytes.newline] (prepare h settings s)))
  · rfl

def roundAfter (settings : Settings) : Performed → Round
  | .status n => if settings.singleShot then .over (codeOf n) else .more
  | .left code => .over code
  | .fatal _ => .over 1

theorem round_fed_line {input : Bytes} (hinput : input ≠ []) (s : State σ) :
    round h.fed settings (s.fed input) =
      (roundAfter settings (runLine h (Bytes.firstLine input).1 (prepare h settings s)).1,
        (step h settings (none, s) (Bytes.firstLine input).1).2.fed (Bytes.firstLine input).2) := by
  obtain ⟨b, line, hline⟩ := List.exists_cons_of_ne_nil (Bytes.firstLine_ne_nil hinput)
  have hread : h.fed.readLine ((prepare h settings s).fed input).host =
      (.ok (b :: line), ((prepare h settings s).host, (Bytes.firstLine input).2)) := by
    rw [← hline]
    rfl
  have hrun := runLine_fed (h := h) (b :: line) (Bytes.firstLine input).2 (prepare h settings s)
  unfold State.fed at hrun
  rw [round_eq, prepare_fed, hread, hline]
  dsimp only [State.fed]
  rw [hrun]
  rw [step_none]
  generalize runLine h (b :: line) (prepare h settings s) = performed
  rcases performed with ⟨n | code | f, s'⟩ <;> rfl

theorem round_fed (hshot : settings.singleShot = false) {input : Bytes}
    (hinput : input ≠ []) (s : State σ) :
    round h.fed settings (s.fed input) =
      (match (step h settings (none, s) (Bytes.firstLine input).1).1 with
        | some code => .over code
        | none => .more,
      (step h settings (none, s) (Bytes.firstLine input).1).2.fed (Bytes.firstLine input).2) := by
  rw [round_fed_line hinput, step_none]
  refine congrArg (Prod.mk · _) ?_
  generalize runLine h (Bytes.firstLine input).1 (prepare h settings s) = performed
  rcases performed with ⟨n | code | f, s'⟩
  · exact if_neg (by simp [hshot])
  · rfl
  · rfl

/-- With enough rounds, a session comes to what its lines come to. -/
theorem run_fed (hshot : settings.singleShot = false) :
    ∀ {rounds : Nat} {input : Bytes} {s : State σ}, (Bytes.lines input).length < rounds →
      ∃ rest, run h.fed settings rounds (s.fed input) =
        (some (conclude h settings ((Bytes.lines input).foldl (step h settings) (none, s))).1,
          (conclude h settings ((Bytes.lines input).foldl (step h settings) (none,
            s))).2.fed rest) := by
  intro rounds
  induction rounds with
  | zero => intro input s hrounds; exact absurd hrounds (Nat.not_lt_zero _)
  | succ rounds ih =>
    intro input s hrounds
    by_cases hinput : input = []
    · subst hinput
      refine ⟨[], ?_⟩
      rw [run, round_fed_nil]
      rfl
    · rw [Bytes.lines_eq_firstLine hinput, List.length_cons] at hrounds
      rw [Bytes.lines_eq_firstLine hinput, List.foldl_cons, run, round_fed hshot hinput]
      rcases hstep : step h settings (none, s) (Bytes.firstLine input).1 with ⟨_ | code, s'⟩
      · exact ih (Nat.lt_of_succ_lt_succ hrounds)
      · have hover (lines : List Bytes) : lines.foldl (step h settings) (some code, s') =
            (some code, s') := by
          induction lines with
          | nil => rfl
          | cons line lines ih => exact ih
        refine ⟨(Bytes.firstLine input).2, ?_⟩
        rw [hover]
        rfl

end Session

end PipeShell
