import PipeShell.Proofs.System.Calls
import PipeShell.System.Machine.Schedule

/-!
The turns that processes take are one of the runs of a machine. The first process of a machine is
there as long as anybody is: it has no parent that could take it away.
-/

set_option autoImplicit false
set_option relaxedAutoImplicit false

namespace PipeShell.Machine

variable {α : Type} {m m' m₀ : Machine α} {es es' : List Event}

theorem Run.trans (h : Run m₀ es m) (h' : Run m es' m') : Run m₀ (es ++ es') m' := by
  induction h' with
  | start => rwa [List.append_nil]
  | move _ mv hmove ih =>
    rw [← List.append_assoc]
    exact .move ih mv hmove

theorem Run.one {mv : Move} (h : m.move mv = some m') : Run m (m.events mv) m' := .move .start mv h

/-! ### Turns -/

theorem turns_run (m : Machine α) (pids : List Pid) : ∃ es, m.Run es (m.turns pids).1 := by
  induction pids generalizing m with
  | nil => exact ⟨[], .start⟩
  | cons pid rest ih =>
    rw [turns]
    cases hstep : m.step pid with
    | none => exact ih m
    | some m' =>
      obtain ⟨es, hrest⟩ := ih m'
      exact ⟨_, (Run.one (show m.move (.turn pid) = some m' from hstep)).trans hrest⟩

theorem round_run (m : Machine α) : ∃ es, m.Run es m.round.1 := by
  unfold round
  obtain ⟨es₁, hfirst⟩ := m.turns_run (m.pidsOf (!·.loaded))
  generalize m.turns (m.pidsOf (!·.loaded)) = first at hfirst
  rcases first with ⟨m₁, _ | _⟩
  · obtain ⟨es₂, hsecond⟩ := m₁.turns_run (m₁.pidsOf fun p => p.loaded && !p.awaitsMore)
    dsimp only
    generalize m₁.turns (m₁.pidsOf fun p => p.loaded && !p.awaitsMore) = second at hsecond
    rcases second with ⟨m₂, _ | _⟩
    · dsimp only
      split
      · next m₃ hfound =>
        obtain ⟨pid, -, hstep⟩ := List.exists_of_findSome?_eq_some hfound
        exact ⟨_, (hfirst.trans hsecond).trans
          (Run.one (show m₂.move (.turn pid) = some m₃ from hstep))⟩
      · cases htick : m₂.tick with
        | none => exact ⟨_, hfirst.trans hsecond⟩
        | some m₃ =>
          exact ⟨_, (hfirst.trans hsecond).trans
            (Run.one (show m₂.move .tick = some m₃ from htick))⟩
    · exact ⟨_, hfirst.trans hsecond⟩
  · exact ⟨_, hfirst⟩

theorem runUntil_run (stop : Machine α → Bool) (rounds : Nat) (m : Machine α) :
    ∃ es, m.Run es (runUntil stop rounds m) := by
  induction rounds generalizing m with
  | zero => exact ⟨[], .start⟩
  | succ rounds ih =>
    rw [runUntil]
    split
    · exact ⟨[], .start⟩
    · obtain ⟨es, hround⟩ := m.round_run
      generalize m.round = next at hround
      rcases next with ⟨m', _ | _⟩
      · exact ⟨es, hround⟩
      · obtain ⟨es', hrest⟩ := ih m'
        exact ⟨_, hround.trans hrest⟩

theorem runUntil_of_stop {stop : Machine α → Bool} (h : stop m = true) (rounds : Nat) :
    runUntil stop rounds m = m := by
  cases rounds with
  | zero => rfl
  | succ rounds => rw [runUntil, if_pos h]

theorem perform_run (m : Machine α) (pid : Pid) (program : Program α) :
    ∃ es, (m.proceed pid program).Run es (m.perform pid program).2 := runUntil_run _ _ _

theorem result?_eq_some_iff {pid : Pid} {a : α} :
    m.result? pid = some a ↔ ∃ p, m.processes.get? pid = some p ∧ p.program = .done a := by
  unfold result?
  constructor
  · intro h
    split at h
    · next result hp =>
      cases h
      exact ⟨_, hp, rfl⟩
    · cases h
  · rintro ⟨p, hp, hprogram⟩
    obtain ⟨⟩ := p
    cases hprogram
    rw [hp]

/-! ### The first process -/

/-- A machine is as it comes about, and a process on it was started by nobody. -/
structure Rooted (m : Machine α) (pid : Pid) : Prop where
  sound : m.Sound
  nobody : m.processes.get? 0 = none
  present : ∃ p, m.processes.get? pid = some p ∧ p.parent = 0

private theorem Effect.root {q r : Pid} {l : List Pid} (h : Effect q m l m') {p : Process α}
    (hp : m.processes.get? r = some p) (hparent : p.parent = 0) (hr : r < m.nextPid) (hl : r ∉ l) :
    ∃ p', m'.processes.get? r = some p' ∧ p'.parent = 0 := by
  have hset {m : Machine α} {s : Pid} {p p' p'' : Process α} (hs : m.processes.get? s = some p')
      (hp : m.processes.get? r = some p) (hparent : p.parent = 0) (hkept : p''.parent = p'.parent) :
      ∃ p', (m.processes.set s p'').get? r = some p' ∧ p'.parent = 0 := by
    by_cases hrs : r = s
    · subst hrs
      cases hp.symm.trans hs
      exact ⟨p'', Table.get?_set_same _ _ _, hkept.trans hparent⟩
    · exact ⟨p, (Table.get?_set_of_ne _ _ hrs).trans hp, hparent⟩
  induction h generalizing p with
  | refl => exact ⟨p, hp, hparent⟩
  | trans first second ih ih' =>
    obtain ⟨hfirst, hsecond⟩ := not_or.mp (fun hmem => hl (List.mem_append.mpr hmem))
    obtain ⟨p₁, hp₁, hparent₁⟩ := ih hp hparent hr hfirst
    exact ih' hp₁ hparent₁ (Nat.lt_of_lt_of_le hr first.nextPid_le) hsecond
  | storage h => exact ⟨p, h.processes ▸ hp, hparent⟩
  | own h changed => exact hset h hp hparent changed.parent
  | @finish m s p' e h live who =>
    have horphan : (p.orphan s).parent = 0 := by
      unfold Process.orphan
      split
      · rfl
      · exact hparent
    rw [get?_finish]
    split
    · next hrs =>
      subst hrs
      rw [hp]
      exact ⟨_, rfl, horphan⟩
    · rw [hp]
      exact ⟨_, rfl, horphan⟩
  | stop h => exact hset h hp hparent rfl
  | collect h parent ended =>
    exact ⟨p, (Table.get?_erase_of_ne _ fun heq => hl (List.mem_singleton.mpr heq)).trans hp,
      hparent⟩
  | fork child h => exact ⟨p, (Table.get?_set_of_ne _ _ (Nat.ne_of_lt hr)).trans hp, hparent⟩

namespace Rooted

variable {pid : Pid}

theorem proceed (h : m.Rooted pid) (program : Program α) : (m.proceed pid program).Rooted pid := by
  obtain ⟨p, hp, hparent⟩ := h.present
  have hne : 0 ≠ pid := fun heq => absurd (h.nobody.symm.trans (heq ▸ hp)) (by simp)
  refine ⟨(proceed_effect (q := pid) program).sound h.sound, ?_, ?_⟩
  · rw [proceed_eq hp, get?_update_of_ne _ _ hne]
    exact h.nobody
  · rw [proceed_eq hp]
    exact ⟨_, get?_update_same _ _ _, hparent⟩

theorem move (h : m.Rooted pid) {mv : Move} (hmove : m.move mv = some m') : m'.Rooted pid := by
  obtain ⟨p, hp, hparent⟩ := h.present
  obtain ⟨q, l, heffect, hl⟩ : ∃ q l, Effect q m l m' ∧ pid ∉ l := by
    cases mv with
    | turn q =>
      obtain ⟨p', hp', -, -⟩ := step_live hmove
      refine ⟨q, _, step_effect hp' hmove, fun hmem => ?_⟩
      obtain ⟨child, hchild, hq, -⟩ := mem_takenBy hmem
      cases hp.symm.trans hchild
      obtain rfl : q = 0 := hq.symm.trans hparent
      exact absurd (h.nobody.symm.trans hp') (by simp)
    | tick => exact ⟨0, [], tick_effect 0 hmove, List.not_mem_nil⟩
    | interrupt q => exact ⟨q, [], interrupt_effect hmove, List.not_mem_nil⟩
  have hpid := h.sound.numbered pid p hp
  exact ⟨move_sound hmove h.sound, move_absent hmove h.sound (hparent ▸ hpid.2) h.nobody,
    heffect.root hp hparent hpid.1 hl⟩

theorem run (h : m₀.Rooted pid) (hrun : m₀.Run es m) : m.Rooted pid := by
  induction hrun with
  | start => exact h
  | move _ mv hmove ih => exact ih.move hmove

theorem perform (h : m.Rooted pid) (program : Program α) :
    (m.perform pid program).2.Rooted pid := by
  obtain ⟨es, hrun⟩ := m.perform_run pid program
  exact (h.proceed program).run hrun

end Rooted

end PipeShell.Machine
