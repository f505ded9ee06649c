import Mathlib.Algebra.Order.BigOperators.Group.Finset
import PipeShell.Proofs.Job.Filters
import PipeShell.Proofs.Job.InterpreterTurns
import PipeShell.Proofs.System.Spared

/-!
Performances as a whole: what holds throughout one holds at its beginning, every step leaves fewer
steps to be made, and somebody can make a step as long as the interpreter is not at its end.
-/

set_option autoImplicit false
set_option relaxedAutoImplicit false

namespace PipeShell.Scene

def remaining (s : Scene) (ph : Nat → Phase) (left : Nat) : Nat :=
  left + ∑ k ∈ Finset.range s.stages.length, s.rank k (ph k)

def span (s : Scene) : Nat := s.remaining (fun _ => .pending) (Pipeline.attention s.stages.length)

section

variable {s : Scene} {ph : Nat → Phase} {left : Nat} {collected : List Pid} {es : List Event}
  {m m' : Machine Report} {k : Nat} {q : Pid}

theorem Begins.staged (hb : s.Begins) :
    s.Staged (fun _ => .pending) (Pipeline.attention s.stages.length) [] [] s.machine := by
  have hconduct : s.process.program.Honours (Pipeline.conduct s.stages.length (s.code s.last))
      s.Concludes ⟨[], [], Pipeline.attention s.stages.length⟩ := by
    rw [hb.program]
    let pipeline : Pipeline := { stages := s.stages }
    have hexecute : (Action.execute (.run pipeline) s.background).Honours
        (Pipeline.conduct pipeline.stages.length (s.code s.last)) _ _ :=
      Pipeline.execute_conduct hb.stages rfl hb.strings
    exact .bind (hexecute.mono fun o g h => ⟨congrArg Report.outcome h.1, h.2⟩)
  have hknown (fd : Fd) (handle : Handle) (hfd : s.base fd = some handle) :
      s.machine.Knows handle :=
    hb.sound.known s.pid s.process hb.present handle (Table.mem_values_iff.mpr ⟨fd, hfd⟩)
  refine ⟨hb.underway .start, ⟨⟨s.process, hb.present, ⟨hb.lives, hb.calm, rfl, rfl⟩, hconduct⟩, ?_,
    fun _ _ => rfl, fun r p _ _ hp => ⟨p, hp, rfl⟩, fun r p _ hp => ⟨List.not_mem_nil, p, hp, rfl⟩,
    fun c hc => absurd hc List.not_mem_nil⟩, ⟨⟨hb.unbounded, hb.data, ?_⟩, ?_, ?_⟩⟩
  · exact fun k q hq => absurd hq (by simp [Event.startedBy, Event.deedsOf])
  · intro h hh
    obtain ⟨hsource, hsink⟩ := hb.complaints h hh
    refine ⟨hsource, hsink, fun n hn => ?_⟩
    subst hn
    exact hknown Fd.complaints _ hh
  · refine fun k => ⟨fun _ _ h hinlet => ?_, fun _ _ _ hreading => absurd hreading (by simp)⟩
    cases k with
    | zero =>
      rcases hinlet with ⟨stage, hstage, hnone, hh⟩ | ⟨o, ho, -⟩
      · have hinput := hb.input stage hstage
        rw [hnone] at hinput
        obtain ⟨n, hn, hoffers⟩ := hinput
        cases hn.symm.trans hh
        exact ⟨hoffers, n, rfl⟩
      · exact absurd ho (by simp [openedBy, Event.startedBy, Event.deedsOf])
    | succ j =>
      obtain ⟨n, hn, -⟩ := hinlet
      exact absurd hn (by simp [Event.pipedBy, Event.deedsOf])
  · refine ⟨fun _ h houtlet => ?_, by simp, by simp [Phase.Late]⟩
    rcases houtlet with ⟨stage, hstage, hnone, hh⟩ | ⟨o, ho, -⟩
    · have houtput := hb.output stage hstage
      rw [hnone] at houtput
      obtain ⟨y, hy, hreceives⟩ := houtput
      cases hy.symm.trans hh
      exact hreceives
    · exact absurd ho (by simp [openedBy, Event.startedBy, Event.deedsOf])

theorem remaining_update {φ : Phase} (hk : k < s.stages.length)
    (hφ : s.rank k φ < s.rank k (ph k)) :
    s.remaining (Function.update ph k φ) left < s.remaining ph left := by
  refine Nat.add_lt_add_left
    (Finset.sum_lt_sum (fun i _ => ?_) ⟨k, Finset.mem_range.mpr hk, ?_⟩) left
  · by_cases hi : i = k
    · subst hi
      rw [Function.update_self]
      exact Nat.le_of_lt hφ
    · rw [Function.update_of_ne hi]
  · rw [Function.update_self]
    exact hφ

/-- Every step of a performance keeps what holds throughout it, and there is less left to do
afterwards. -/
theorem Staged.turn (hb : s.Begins) (h : s.Staged ph left collected es m)
    (hrun : s.machine.Run es m) (hq : q = s.pid ∨ q ∈ Event.startedBy s.pid es)
    (hmeets : ∀ k p, (Event.startedBy s.pid es)[k]? = some q → m.processes.get? q = some p →
      p.ending? = none → p.loaded = false → s.Meets k q p m) (hstep : m.step q = some m') :
    ∃ ph' left' collected', s.Staged ph' left' collected' (es ++ m.events (.turn q)) m' ∧
      s.remaining ph' left' < s.remaining ph left := by
  have hway := hb.underway (hrun.move (.turn q) hstep)
  rcases hq with rfl | hmem
  · obtain ⟨ph', left', collected', rfl, hranks, hstaged⟩ := h.interpreter_turn hb hway hstep
    refine ⟨ph', left', collected', hstaged, ?_⟩
    simp only [remaining, hranks]
    omega
  · obtain ⟨k, hq⟩ := List.mem_iff_getElem?.mp hmem
    have hlt := (List.getElem?_eq_some_iff.mp hq).1
    obtain ⟨φ, hstaged, hless⟩ := h.kid_turn hb hq hway (fun p => hmeets k p hq) hstep
    exact ⟨_, left, collected, hstaged,
      remaining_update (Nat.lt_of_lt_of_le hlt h.way.counted.2.1) hless⟩

/-- What holds throughout a performance, in which the steps made and the steps left are no more than
there are at the beginning. -/
theorem Performance.staged (hb : s.Begins) (hc : s.Consistent) {n : Nat}
    (h : s.Performance n es m) :
    ∃ ph left collected, s.Staged ph left collected es m ∧ n + s.remaining ph left ≤ s.span := by
  induction h with
  | start => exact ⟨_, _, _, hb.staged, Nat.le_of_eq (Nat.zero_add _)⟩
  | @turn n es m m' performance q hq step ih =>
    obtain ⟨ph, left, collected, hstaged, hbound⟩ := ih
    obtain ⟨ph', left', collected', hstaged', hless⟩ := hstaged.turn hb performance.run hq
      (fun k p hk hp hlive hloaded => hc n es m performance k q p hk hp hlive hloaded) step
    exact ⟨ph', left', collected', hstaged', by omega⟩

theorem Staged.wiring_goes_on (hb : s.Begins) (h : s.Staged ph left collected es m)
    (hq : (Event.startedBy s.pid es)[k]? = some q)
    (hmeets : ∀ p, m.processes.get? q = some p → p.ending? = none → p.loaded = false →
      s.Meets k q p m) {n : Nat} (hphase : ph k = .wiring n) : ∃ m', m.step q = some m' := by
  obtain ⟨p, stage, hp, hfit, hparent, hloaded, hstage, hconduct, hcontract⟩ := h.wiring hq hphase
  have hlive : p.isLive = true := Machine.isLive_iff.mpr hfit.lives
  have hmeets := hmeets p hp hfit.lives.1 hloaded
  cases hprogram : p.program with
  | done a => simp [hprogram, Program.Honours] at hconduct
  | fork child next => simp [hprogram, Program.Honours, Stage.conduct] at hconduct
  | transfer t next => simp [hprogram, Program.Honours] at hconduct
  | flood fd block next => simp [hprogram, Program.Honours] at hconduct
  | call c next =>
    rw [hprogram] at hconduct
    obtain ⟨⟨-, hmay⟩, -⟩ := hconduct
    cases c with
    | close fd => exact ⟨_, Machine.step_close hp hlive hprogram⟩
    | duplicate source target =>
      rcases Machine.step_duplicate hp hlive hprogram with ⟨y, -, -, heq⟩ | ⟨-, heq⟩
      · exact ⟨_, heq⟩
      · exact ⟨_, heq⟩
    | openFile path access =>
      have hopens := hmeets.opens path access next hprogram
      split at hopens
      · obtain ⟨hfree, tree, hopensAt⟩ := hopens
        obtain ⟨fd, hfd⟩ := Option.ne_none_iff_exists'.mp hfree
        exact ⟨_, (Machine.step_openFile_opensAt hp hlive hprogram hfit.calm.1 hfd hopensAt).1⟩
      · obtain ⟨e, hrefused⟩ := hopens
        exact ⟨_, (Machine.step_openFile_refused hp hlive hprogram hrefused).1⟩
    | write fd data =>
      obtain ⟨r, m₁, reply, -, -, heq⟩ := Machine.step_write_whole hp hlive hprogram
        h.flow.steady.unbounded hfit.calm.2 (hfit.ignored ▸ hb.ignores)
      exact ⟨_, heq⟩
    | exit code => exact ⟨_, Machine.step_exit hp hlive hprogram⟩
    | exec arguments =>
      rcases Machine.step_exec hp hlive hprogram with ⟨e, heq⟩ | ⟨program, heq⟩
      · exact ⟨_, heq⟩
      · exact ⟨_, heq⟩
    | _ => exact hmay.elim

theorem At.cases {pipes : List Nat} {φ : Phase} {p? : Option (Process Report)}
    (h : s.At pipes collected k q φ p?) :
    (∃ n p, φ = .wiring n ∧ p? = some p) ∨
      (φ ≠ .ended ∧ ∃ inlet outlet p, p? = some p ∧
        s.Plugged pipes k inlet outlet p ∧ p.program.Plain) ∨
      (φ = .ended ∧ ∀ p, p? = some p → p.ending? ≠ none ∧ p.descriptors = {}) := by
  cases φ with
  | pending => exact h.elim
  | wiring n =>
    obtain ⟨p, -, rfl, -⟩ := h
    exact .inl ⟨n, p, rfl, rfl⟩
  | reading inlet outlet seen =>
    obtain ⟨p, rfl, hplugged, hprogram⟩ := h
    exact .inr (.inl ⟨by simp, inlet, outlet, p, rfl, hplugged, by rw [hprogram]; trivial⟩)
  | writing inlet outlet =>
    obtain ⟨p, rfl, hplugged, hprogram⟩ := h
    exact .inr (.inl ⟨by simp, inlet, outlet, p, rfl, hplugged, by rw [hprogram]; trivial⟩)
  | leaving inlet outlet =>
    obtain ⟨p, rfl, hplugged, hprogram⟩ := h
    exact .inr (.inl ⟨by simp, inlet, outlet, p, rfl, hplugged, by rw [hprogram]; trivial⟩)
  | ended =>
    refine .inr (.inr ⟨rfl, fun p hp => ?_⟩)
    rcases h with ⟨-, rfl⟩ | ⟨p', rfl, -, hend, hnothing⟩
    · cases hp
    · cases hp
      exact ⟨by simp [hend], hnothing⟩

theorem Staged.no_writer (hb : s.Begins) (h : s.Staged ph left collected es m)
    (hwiring : ∀ i n, ph i ≠ .wiring n) {p : Process Report} (hp : m.processes.get? s.pid = some p)
    (hbase : p.descriptors.get? = s.base) {n : Nat} (hn : (Event.pipedBy s.pid es)[k]? = some n)
    (hk : ph k = .ended) :
    m.hasWriter n = false := by
  have hnew := (h.way.fresh n (List.mem_of_getElem? hn)).1
  have hunknown (r : Pid) (p' : Process Report) (hp' : s.machine.processes.get? r = some p')
      (fd : Fd) : p'.descriptors.get? fd ≠ some (.writeEnd n) :=
    fun hfd => hnew (hb.sound.known r p' hp' (.writeEnd n) (Table.mem_values_iff.mpr ⟨fd, hfd⟩))
  have hforeign (fd : Fd) : s.base fd ≠ some (.writeEnd n) := hunknown s.pid s.process hb.present fd
  -- a stage whose program runs can write to no pipe between the stages but the one behind it
  have hplug {i : Nat} {inlet outlet : Handle} {p' : Process Report}
      (hplugged : s.Plugged (Event.pipedBy s.pid es) i inlet outlet p')
      (hi : ph i ≠ .ended) (fd : Fd) :
      p'.descriptors.get? fd ≠ some (.writeEnd n) := by
    intro hfd
    by_cases hinput : fd = Fd.input
    · subst hinput
      exact hplugged.reads n (Option.some.inj (hplugged.input.symm.trans hfd))
    · by_cases houtput : fd = Fd.output
      · subst houtput
        have hbehind := (hplugged.writes n
          (Option.some.inj (hplugged.output.symm.trans hfd))).resolve_right fun hdrain =>
          h.drain_apart hb hdrain hn
        have heq : i = k :=
          (List.getElem?_inj (List.getElem?_eq_some_iff.mp hbehind).1 h.way.distinct).mp
            (hbehind.trans hn.symm)
        exact hi (heq ▸ hk)
      · exact hforeign fd ((hplugged.others fd hinput houtput).symm.trans hfd)
  by_contra hwriter
  obtain ⟨r, p', fd, hp', hfd⟩ := Machine.hasWriter_iff.mp (Bool.eq_true_of_not_eq_false hwriter)
  by_cases hr : r = s.pid
  · subst hr
    cases hp.symm.trans hp'
    exact hforeign fd (hbase ▸ hfd)
  · by_cases hkid : r ∈ Event.startedBy s.pid es
    · obtain ⟨i, hi⟩ := List.mem_iff_getElem?.mp hkid
      rcases (h.people.children i r hi).cases with ⟨left', -, hphase, -⟩ |
        ⟨hrunning, inlet, outlet, p₁, hp₁, hplugged, -⟩ | ⟨-, hover⟩
      · exact hwiring i left' hphase
      · cases hp₁.symm.trans hp'
        exact hplug hplugged hrunning fd hfd
      · rw [(hover p' hp').2] at hfd
        exact absurd hfd (by simp)
    · obtain ⟨p₁, hp₁, hdescriptors⟩ := h.people.others r p' hr hkid hp'
      exact hunknown r p₁ hp₁ fd (hdescriptors ▸ hfd)

/-- The first stage that is not over can make a step, or else a stage that is being connected can,
when all of them were started and the interpreter has none but its old descriptors. -/
theorem Staged.kids_go_on (hb : s.Begins) (h : s.Staged ph left collected es m)
    (hmeets : ∀ k q p, (Event.startedBy s.pid es)[k]? = some q →
      m.processes.get? q = some p → p.ending? = none → p.loaded = false → s.Meets k q p m)
    (hall : (Event.startedBy s.pid es).length = s.stages.length) {p : Process Report}
    (hp : m.processes.get? s.pid = some p) (hbase : p.descriptors.get? = s.base)
    (hrest : ∃ k < s.stages.length, ph k ≠ .ended) :
    ∃ q ∈ Event.startedBy s.pid es, ∃ m', m.step q = some m' := by
  by_cases hwiring : ∃ i n, ph i = .wiring n
  · obtain ⟨i, n, hi⟩ := hwiring
    obtain ⟨q, hq⟩ := h.started (k := i) (by simp [hi])
    exact ⟨q, List.mem_of_getElem? hq, h.wiring_goes_on hb hq (fun p => hmeets i q p hq) hi⟩
  · classical
    obtain ⟨hlt, hk⟩ := Nat.find_spec hrest
    have hbefore := fun j (hj : j < Nat.find hrest) => Nat.find_min hrest hj
    generalize Nat.find hrest = k at hlt hk hbefore
    have hq := List.getElem?_eq_getElem (hall ▸ hlt : k < (Event.startedBy s.pid es).length)
    generalize (Event.startedBy s.pid es)[k] = q at hq
    refine ⟨q, List.mem_of_getElem? hq, ?_⟩
    have hat := h.people.children k q hq
    cases hphase : ph k with
    | pending =>
      rw [hphase] at hat
      exact hat.elim
    | wiring n => exact absurd ⟨k, n, hphase⟩ hwiring
    | ended => exact absurd hphase hk
    | reading inlet outlet seen =>
      rw [hphase] at hat
      obtain ⟨p', hp', hplugged, hprogram⟩ := hat
      have hlive : p'.isLive = true := Machine.isLive_iff.mpr hplugged.fit.lives
      obtain ⟨rest, hsupplies, -⟩ := (h.flow.supplied k).reading inlet outlet seen hphase
      rcases Machine.step_slurping hp' hlive hprogram hplugged.input hsupplies.1 with ⟨-, ⟨n, rfl,
        hwriter⟩, -⟩ | ⟨-, -, _, _, _, -, -, -, -, heq⟩ | ⟨_, _, _, _, -, -, -, -, -, -, heq⟩
      · -- the pipe before the stage, which the stage before it has written to
        exfalso
        cases k with
        | zero =>
          obtain ⟨-, number, he⟩ := hsupplies
          exact absurd he (by simp)
        | succ j =>
          obtain ⟨-, n', hn, he⟩ := hsupplies
          cases he
          have hended : ph j = .ended := by
            by_contra hj
            exact hbefore j (Nat.lt_succ_self j) ⟨Nat.lt_of_succ_lt hlt, hj⟩
          have hfalse := h.no_writer hb (fun i n hi => hwiring ⟨i, n, hi⟩) hp hbase hn hended
          exact absurd (hfalse.symm.trans hwriter) (by simp)
      · exact ⟨_, heq⟩
      · exact ⟨_, heq⟩
    | writing inlet outlet =>
      rw [hphase] at hat
      obtain ⟨p', hp', hplugged, hprogram⟩ := hat
      have hfit := hplugged.fit
      obtain ⟨_, _, _, -, -, heq⟩ :=
        Machine.step_write_whole hp' (Machine.isLive_iff.mpr hfit.lives) hprogram
          h.flow.steady.unbounded hfit.calm.2 (hfit.ignored ▸ hb.ignores)
      exact ⟨_, heq⟩
    | leaving inlet outlet =>
      rw [hphase] at hat
      obtain ⟨p', hp', hplugged, hprogram⟩ := hat
      exact ⟨_, Machine.step_exit hp' (Machine.isLive_iff.mpr hplugged.fit.lives) hprogram⟩

theorem Staged.goes_on (hb : s.Begins) (h : s.Staged ph left collected es m)
    (hmeets : ∀ k q p, (Event.startedBy s.pid es)[k]? = some q →
      m.processes.get? q = some p → p.ending? = none → p.loaded = false → s.Meets k q p m)
    {p : Process Report} (hp : m.processes.get? s.pid = some p) (hrest : ∀ r, p.program ≠ .done r) :
    ∃ q, (q = s.pid ∨ q ∈ Event.startedBy s.pid es) ∧ ∃ m', m.step q = some m' := by
  obtain ⟨p₁, hp₁, hfit, hcontract, hconduct⟩ := h.interprets
  cases hp.symm.trans hp₁
  have hlive : p.isLive = true := Machine.isLive_iff.mpr hfit.lives
  cases hprogram : p.program with
  | done r => exact absurd hprogram (hrest r)
  | transfer t next => simp [hprogram, Program.Honours] at hconduct
  | flood fd block next => simp [hprogram, Program.Honours] at hconduct
  | fork child next => exact ⟨s.pid, .inl rfl, _, Machine.step_fork hp hlive hprogram⟩
  | call c next =>
    rw [hprogram] at hconduct hcontract
    obtain ⟨⟨-, hmay⟩, -⟩ := hconduct
    cases c with
    | note record =>
      obtain ⟨x, hx⟩ := Option.ne_none_iff_exists'.mp (hb.standard Fd.complaints (Nat.le_refl _))
      obtain ⟨_, -, -, heq⟩ := Machine.step_note_whole hp hlive hprogram h.flow.steady.unbounded
        hfit.calm.2 (hfit.complaints.trans hx)
      exact ⟨s.pid, .inl rfl, _, heq⟩
    | close fd => exact ⟨s.pid, .inl rfl, _, Machine.step_close hp hlive hprogram⟩
    | pipe =>
      rcases Machine.step_pipe hp hlive hprogram with ⟨_, _, -, -, -, -, heq⟩ | ⟨-, heq⟩
      · exact ⟨s.pid, .inl rfl, _, heq⟩
      · exact ⟨s.pid, .inl rfl, _, heq⟩
    | waitFor child =>
      obtain ⟨hall, hmem, hnew⟩ := hmay
      have hall : (Event.startedBy s.pid es).length = s.stages.length := hall
      obtain ⟨k, hchild⟩ := List.mem_iff_getElem?.mp hmem
      have hchild : (Event.startedBy s.pid es)[k]? = some child := hchild
      rcases Machine.step_waitFor hp hlive hprogram with ⟨_, _, _, -, -, -, heq⟩ | ⟨c, hc, -,
        hliving, -⟩ | ⟨-, -, heq⟩
      · exact ⟨s.pid, .inl rfl, _, heq⟩
      · -- the child that is waited for is not over
        have hrest : ph k ≠ .ended := by
          rcases (h.people.children k child hchild).cases with ⟨_, _, hphase,
            -⟩ | ⟨hrunning, -⟩ | ⟨-, hover⟩
          · simp [hphase]
          · exact hrunning
          · exact absurd hliving (hover c hc).1
        have hlt : k < s.stages.length := hall ▸ (List.getElem?_eq_some_iff.mp hchild).1
        obtain ⟨q, hq, m', hstep⟩ := h.kids_go_on hb hmeets hall hp hcontract.1.1 ⟨k, hlt, hrest⟩
        exact ⟨q, .inr hq, m', hstep⟩
      · exact ⟨s.pid, .inl rfl, _, heq⟩
    | _ => exact hmay.elim

end

end PipeShell.Scene
