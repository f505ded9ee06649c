import PipeShell.Proofs.Job.Staging

/-!
Every step of a stage's process keeps what holds throughout a performance, and brings the stage
nearer to its end.
-/

set_option autoImplicit false
set_option relaxedAutoImplicit false

namespace PipeShell.Scene

open Machine (Touches)
open Pipeline (pipeBefore)

def openedBy (s : Scene) (es : List Event) (k : Nat) : List Opening :=
  ((Event.startedBy s.pid es)[k]?.map fun q => Event.preparations q es).getD []

def Assembles (s : Scene) (r : Report) (g : Pipeline.Assembly) : Prop :=
  ∀ o, r = .outcome o → g.wires = s.base ∧ ∀ status, o.status = .ok status →
    Pipeline.Complete s.base s.stages g

structure Staged (s : Scene) (ph : Nat → Phase) (left : Nat) (collected : List Pid)
    (es : List Event) (m : Machine Report) : Prop where
  way : Pipeline.Underway s.base s.stages s.Assembles s.machine s.pid es m
  people : s.Peopled ph left collected (Event.pipedBy s.pid es) (Event.startedBy s.pid es) m
  flow : s.Flowing ph (Event.pipedBy s.pid es) (s.openedBy es) m

def rank (s : Scene) (k : Nat) : Phase → Nat
  | .pending => Stage.effort + (s.feed k).length + 3
  | .wiring left => left + (s.feed k).length + 3
  | .reading _ _ seen => (s.feed k).length - seen.length + 3
  | .writing .. => 2
  | .leaving .. => 1
  | .ended => 0

section

variable {s : Scene} {ph : Nat → Phase} {left : Nat} {collected : List Pid} {es : List Event}
  {m m' : Machine Report} {k : Nat} {q : Pid}

theorem Begins.underway (hb : s.Begins) (hrun : s.machine.Run es m) :
    Pipeline.Underway s.base s.stages s.Assembles s.machine s.pid es m := by
  have hhonours : s.process.program.Honours (Pipeline.contract s.base s.stages) s.Assembles
      ⟨s.base, [], []⟩ := by
    rw [hb.program]
    refine .bind ((Pipeline.execute_honours { stages := s.stages } s.background).mono fun o g h =>
      ?_)
    rintro _ ⟨⟩
    exact h
  exact Pipeline.Underway.run hb.sound hb.present hb.calm.1 hhonours
    (hb.standard Fd.input (Nat.zero_le _)) (hb.standard Fd.output (Nat.le_succ 1)) hrun

theorem fate_of_stage {stage : Stage} (hstage : s.stages[k]? = some stage) :
    s.fate k = stage.fate (s.outlook k) (decide (k ≠ 0)) (decide (k + 1 ≠ s.stages.length)) := by
  simp [fate, hstage]

theorem Staged.wiring (h : s.Staged ph left collected es m)
    (hq : (Event.startedBy s.pid es)[k]? = some q) {n : Nat} (hphase : ph k = .wiring n) :
    ∃ p stage, m.processes.get? q = some p ∧ s.Fit p ∧ p.parent = s.pid ∧ p.loaded = false ∧
      s.stages[k]? = some stage ∧ p.program.Honours
        (stage.conduct (s.outlook k) (decide (k ≠ 0)) (decide (k + 1 ≠ s.stages.length)))
        (fun _ _ => False) n ∧
      p.program.Honours
        (stage.contract s.base (pipeBefore (Event.pipedBy s.pid es) k) (Event.pipedBy s.pid es)[k]?)
        (fun _ _ => False) ⟨p.descriptors.get?, s.openedBy es k⟩ := by
  have hat := h.people.children k q hq
  rw [hphase] at hat
  obtain ⟨p, stage, hp, hfit, hparent, hloaded, hstage, hconduct⟩ := hat
  obtain ⟨stage', hstage', hstation, -⟩ := h.way.stations k q hq
  cases hstage.symm.trans hstage'
  obtain ⟨⟨wires, hholds, hcontract⟩, -⟩ := hstation p hp hfit.lives.1 hloaded
  have hwires : p.descriptors.get? = wires := by
    unfold Stage.Holds at hholds
    rw [hfit.calm.1] at hholds
    exact hholds
  have hopened : s.openedBy es k = Event.preparations q es := by simp [openedBy, hq]
  refine ⟨p, stage, hp, hfit, hparent, hloaded, hstage, hconduct, ?_⟩
  rw [hwires, hopened]
  exact hcontract

theorem Staged.interpreter_keeps (h : s.Staged ph left collected es m) {n : Nat}
    (hn : (Event.pipedBy s.pid es)[k]? = some n) (hk : (Event.startedBy s.pid es).length ≤ k + 1) :
    m.hasReader n = true ∧ m.hasWriter n = true := by
  obtain ⟨p, hp, hfit, hconduct⟩ := h.people.interpreter
  obtain ⟨-, hcontract⟩ := h.way.interpreter p hp hfit.lives.1
  have hlt : k + 1 < s.stages.length := by
    have hcounted := h.way.counted.1
    have := (List.getElem?_eq_some_iff.mp hn).1
    omega
  have hdone (r : Report) (g : Pipeline.Assembly) (a : Pipeline.Attendance) (hr : s.Assembles r g)
      (hr' : s.Concludes r a) : g.children.length = s.stages.length := ((hr _ hr'.1).2 _ rfl).2.1
  obtain ⟨⟨fd, hread⟩, fd', hwrite⟩ :=
    Pipeline.keeps_ends hdone hcontract hconduct (Table.bounded _) hn hk hlt
  exact ⟨Machine.hasReader_iff.mpr ⟨_, p, fd, hp, hread⟩,
    Machine.hasWriter_iff.mpr ⟨_, p, fd', hp, hwrite⟩⟩

theorem Staged.stage_keeps (h : s.Staged ph left collected es m)
    (hq : (Event.startedBy s.pid es)[k]? = some q)
    {n : Nat} (hphase : ph k = .wiring n) (hfate : s.fate k = none) :
    (∀ n, pipeBefore (Event.pipedBy s.pid es) k = some n → m.hasReader n = true) ∧
      ∀ n, (Event.pipedBy s.pid es)[k]? = some n → m.hasWriter n = true := by
  obtain ⟨p, stage, hp, -, -, -, hstage, hconduct, hcontract⟩ := h.wiring hq hphase
  rw [fate_of_stage hstage] at hfate
  obtain ⟨hread, hwrite⟩ := Stage.keeps_ends hfate hcontract hconduct (Table.bounded _)
  constructor
  · intro n hn
    obtain ⟨fd, hfd⟩ := hread n hn
    exact Machine.hasReader_iff.mpr ⟨_, p, fd, hp, hfd⟩
  · intro n hn
    obtain ⟨fd, hfd⟩ := hwrite n hn
    exact Machine.hasWriter_iff.mpr ⟨_, p, fd, hp, hfd⟩

theorem Staged.started (h : s.Staged ph left collected es m) (hphase : ph k ≠ .pending) :
    ∃ q, (Event.startedBy s.pid es)[k]? = some q := by
  have hlt : k < (Event.startedBy s.pid es).length := by
    by_contra hge
    exact hphase (h.people.pending k (Nat.not_lt.mp hge))
  exact ⟨_, List.getElem?_eq_getElem hlt⟩

theorem Staged.length_of_pending (h : s.Staged ph left collected es m) (hphase : ph k = .pending) :
    (Event.startedBy s.pid es).length ≤ k := by
  by_contra hlt
  have hat := h.people.children k _ (List.getElem?_eq_getElem (Nat.not_le.mp hlt))
  rw [hphase] at hat
  exact hat

theorem Staged.has_reader (h : s.Staged ph left collected es m) {n : Nat}
    (hn : (Event.pipedBy s.pid es)[k]? = some n) (hfate : s.fate (k + 1) = none)
    (hphase : (ph (k + 1)).Early ∨ ∃ inlet outlet seen, ph (k + 1) = .reading inlet outlet seen) :
    m.hasReader n = true := by
  cases hnext : ph (k + 1) with
  | pending => exact (h.interpreter_keeps hn (h.length_of_pending hnext)).1
  | wiring left' =>
    obtain ⟨q, hq⟩ := h.started (k := k + 1) (by simp [hnext])
    exact (h.stage_keeps hq hnext hfate).1 n hn
  | reading inlet outlet seen =>
    obtain ⟨q, hq⟩ := h.started (k := k + 1) (by simp [hnext])
    have hat := h.people.children _ q hq
    rw [hnext] at hat
    obtain ⟨p, hp, hplugged, -⟩ := hat
    exact Machine.hasReader_iff.mpr ⟨q, p, Fd.input, hp, hplugged.before n hn ▸ hplugged.input⟩
  | writing inlet outlet => simp [hnext, Phase.Early] at hphase
  | leaving inlet outlet => simp [hnext, Phase.Early] at hphase
  | ended => simp [hnext, Phase.Early] at hphase

/-- When nobody can write to a pipe any more, the stage before it has written everything. -/
theorem Staged.emitted_of_no_writer (h : s.Staged ph left collected es m) {n : Nat}
    (hn : (Event.pipedBy s.pid es)[k]? = some n) (hwriter : m.hasWriter n = false) :
    s.emitted k (ph k) = s.feed (k + 1) := by
  -- a stage that cannot run its program writes nothing at all
  have hnone (hphase : ¬ (ph k).Late) (hfate : s.fate k ≠ none) :
      s.emitted k (ph k) = s.feed (k + 1) := by
    obtain ⟨code, hcode⟩ := Option.ne_none_iff_exists'.mp hfate
    have hfeed : s.feed (k + 1) = [] := by simp [feed, effect, hcode]
    rw [hfeed]
    cases hk : ph k with
    | leaving inlet outlet => simp [hk, Phase.Late] at hphase
    | ended => simp [hk, Phase.Late] at hphase
    | _ => rfl
  have hlacks {q : Pid} {p : Process Report} {fd : Fd} (hp : m.processes.get? q = some p)
      (hfd : p.descriptors.get? fd = some (.writeEnd n)) : False := by
    have htrue := Machine.hasWriter_iff.mpr ⟨q, p, fd, hp, hfd⟩
    rw [hwriter] at htrue
    cases htrue
  cases hk : ph k with
  | pending =>
    have htrue := (h.interpreter_keeps hn (Nat.le_succ_of_le (h.length_of_pending hk))).2
    rw [hwriter] at htrue
    cases htrue
  | wiring left' =>
    obtain ⟨q, hq⟩ := h.started (k := k) (by simp [hk])
    by_cases hfate : s.fate k = none
    · have htrue := (h.stage_keeps hq hk hfate).2 n hn
      rw [hwriter] at htrue
      cases htrue
    · exact hk ▸ hnone (by simp [hk, Phase.Late]) hfate
  | reading inlet outlet seen =>
    obtain ⟨q, hq⟩ := h.started (k := k) (by simp [hk])
    have hat := h.people.children k q hq
    rw [hk] at hat
    obtain ⟨p, hp, hplugged, -⟩ := hat
    exact (hlacks hp (hplugged.behind n hn ▸ hplugged.output)).elim
  | writing inlet outlet =>
    obtain ⟨q, hq⟩ := h.started (k := k) (by simp [hk])
    have hat := h.people.children k q hq
    rw [hk] at hat
    obtain ⟨p, hp, hplugged, -⟩ := hat
    exact (hlacks hp (hplugged.behind n hn ▸ hplugged.output)).elim
  | leaving inlet outlet => rfl
  | ended => rfl

theorem Staged.complaints (hb : s.Begins) (h : s.Staged ph left collected es m) :
    ∃ x, s.base Fd.complaints = some x ∧ m.Avoids x s.source ∧ s.Clear m x ∧
      ∀ j n : Nat, (Event.pipedBy s.pid es)[j]? = some n → x ≠ .readEnd n ∧ x ≠ .writeEnd n := by
  obtain ⟨x, hx⟩ := Option.ne_none_iff_exists'.mp (hb.standard Fd.complaints (Nat.le_refl _))
  obtain ⟨hsource, hsink, -⟩ := h.flow.steady.complaints x hx
  refine ⟨x, hx, hsource, hsink, fun j n hn => ?_⟩
  have hknown : s.machine.Knows x :=
    hb.sound.known s.pid s.process hb.present x (Table.mem_values_iff.mpr ⟨Fd.complaints, hx⟩)
  have hnew := (h.way.fresh n (List.mem_of_getElem? hn)).1
  constructor <;> rintro rfl <;> exact hnew hknown

theorem only_update {p' : Process Report} : Only q m (m.update q p') :=
  fun _ hr => .inl (Machine.get?_update_of_ne m p' hr)

theorem only_of_processes {m₁ : Machine Report} {p' : Process Report}
    (h : m₁.processes = m.processes) : Only q m (m₁.update q p') := by
  intro r hr
  rw [Machine.get?_update_of_ne m₁ p' hr, h]
  exact .inl rfl

theorem only_finish {e : Ending} : Only q m (m.finish q e) := by
  intro r hr
  rw [Machine.get?_finish, if_neg hr]
  exact .inr rfl

theorem Staged.child_ne (h : s.Staged ph left collected es m)
    (hq : (Event.startedBy s.pid es)[k]? = some q) : q ≠ s.pid := by
  rintro rfl
  exact (List.nodup_cons.mp h.way.numbered.1).1 (List.mem_of_getElem? hq)

theorem Staged.kid (h : s.Staged ph left collected es m)
    (hq : (Event.startedBy s.pid es)[k]? = some q)
    (hway : Pipeline.Underway s.base s.stages s.Assembles s.machine s.pid
      (es ++ m.events (.turn q)) m') {p : Process Report} (hp : m.processes.get? q = some p)
    (hdeeds : m.deeds q p p.program = []) (honly : Only q m m')
    {φ : Phase} (hat : s.At (Event.pipedBy s.pid es) collected k q φ (m'.processes.get? q))
    (hflow : s.Flowing (Function.update ph k φ) (Event.pipedBy s.pid es) (s.openedBy es) m') :
    s.Staged (Function.update ph k φ) left collected (es ++ m.events (.turn q)) m' := by
  have hevents : m.events (.turn q) = [] := by rw [Machine.events_turn hp, hdeeds, List.map_nil]
  rw [hevents, List.append_nil] at hway ⊢
  exact ⟨hway, h.people.kid h.way.numbered.1 hq hp honly hat, hflow⟩

theorem update_wiring {n n' : Nat} (hphase : ph k = .wiring n) (j : Nat) :
    Function.update ph k (.wiring n') j = ph j ∨ (Function.update ph k (.wiring n') j).Early ∧
    (ph j).Early := by
  by_cases hj : j = k
  · subst hj
    simp [hphase, Phase.Early]
  · exact .inl (Function.update_of_ne hj _ _)

theorem Staged.stays_wiring (hb : s.Begins) (h : s.Staged ph left collected es m)
    (hq : (Event.startedBy s.pid es)[k]? = some q)
    (hway : Pipeline.Underway s.base s.stages s.Assembles s.machine s.pid
      (es ++ m.events (.turn q)) m') {p : Process Report} (hp : m.processes.get? q = some p)
    (hdeeds : m.deeds q p p.program = []) (honly : Only q m m')
    {x : Handle} (hx : p.descriptors.get? Fd.complaints = some x) (hfit : s.Fit p)
    (ht : Touches x m m') {n n' : Nat} (hphase : ph k = .wiring n)
    (hat : s.At (Event.pipedBy s.pid es) collected k q (.wiring n') (m'.processes.get? q)) :
    s.Staged (Function.update ph k (.wiring n')) left collected (es ++ m.events (.turn q)) m' := by
  obtain ⟨y, hy, hsource, hsink, hpipes⟩ := h.complaints hb
  cases (hx.symm.trans hfit.complaints).trans hy
  exact h.kid hq hway hp hdeeds honly hat
    (h.flow.transfer ht hpipes hsource hsink (update_wiring hphase))

theorem Staged.ends (hb : s.Begins) (h : s.Staged ph left collected es m)
    (hq : (Event.startedBy s.pid es)[k]? = some q)
    (hway : Pipeline.Underway
      s.base s.stages s.Assembles s.machine s.pid (es ++ m.events (.turn q)) m')
    {p : Process Report} (hp : m.processes.get? q = some p) (hdeeds : m.deeds q p p.program = [])
    (hparent : p.parent = s.pid) (hemitted : s.emitted k .ended = s.emitted k (ph k))
    (hdelivered : k = s.last → s.fate s.last = none ∨ (∃ h, s.Outlet (s.openedBy es) h) →
      s.Gathers m (s.already ++ s.feed (s.last + 1))) (hm' : m' = m.finish q (.exited (s.code k))) :
    s.Staged (Function.update ph k .ended) left collected (es ++ m.events (.turn q)) m' := by
  obtain ⟨x, -, hsource, hsink, hpipes⟩ := h.complaints hb
  have hne := h.child_ne hq
  have ht : Touches x m m' := by
    subst hm'
    exact .of_eq rfl rfl rfl rfl
  have hover : s.At (Event.pipedBy s.pid es) collected k q .ended (m'.processes.get? q) := by
    refine .inr ⟨_, by rw [hm', Machine.get?_finish, if_pos rfl, hp, Option.map_some], ?_, rfl, rfl⟩
    show (p.orphan q).parent = s.pid
    rw [Process.orphan_parent (hparent ▸ hne.symm)]
    exact hparent
  refine h.kid hq hway hp hdeeds (hm' ▸ only_finish) hover (h.flow.kid ht hemitted (fun j n _ hn =>
    hpipes j n hn) (.inr hsource) (ht.content hsource) (.inr hsink) (supplied_of_not ?_ ?_) ?_)
  · simp [Phase.Early]
  · simp
  · rintro rfl
    exact ⟨by simp [Phase.Early], by simp, fun _ hdone => (hdelivered rfl hdone).touches ht hsink⟩

theorem Staged.ends_wiring (hb : s.Begins) (h : s.Staged ph left collected es m)
    (hq : (Event.startedBy s.pid es)[k]? = some q)
    (hway : Pipeline.Underway s.base s.stages s.Assembles s.machine s.pid
      (es ++ m.events (.turn q)) m') {p : Process Report} (hp : m.processes.get? q = some p)
    (hdeeds : m.deeds q p p.program = []) {n : Nat} (hphase : ph k = .wiring n) {code : UInt8}
    (hfate : s.fate k = some code) (hm' : m' = m.finish q (.exited code)) :
    s.Staged (Function.update ph k .ended) left collected (es ++ m.events (.turn q)) m' := by
  have hat := h.people.children k q hq
  rw [hphase] at hat
  obtain ⟨p₁, stage, hp₁, -, hparent, -⟩ := hat
  cases hp.symm.trans hp₁
  have hfeed : s.feed (k + 1) = [] := by simp [feed, effect, hfate]
  have hcode : s.code k = code := by simp [Scene.code, effect, hfate]
  refine h.ends hb hq hway hp hdeeds hparent ?_ ?_ (hcode ▸ hm')
  · simp [hphase, emitted, hfeed]
  · rintro rfl (hnone | ⟨y, hy⟩)
    · exact absurd (hnone.symm.trans hfate) (by simp)
    · have hearly : (ph s.last).Early := by simp [hphase, Phase.Early]
      rw [hfeed, List.append_nil]
      exact (h.flow.delivers.early hearly y hy).gathers

theorem Staged.pipe_behind (h : s.Staged ph left collected es m)
    (hq : (Event.startedBy s.pid es)[k]? = some q) (hk : k ≠ s.last) :
    ∃ n, (Event.pipedBy s.pid es)[k]? = some n := by
  have hlt := (List.getElem?_eq_some_iff.mp hq).1
  have hcounted := h.way.counted
  have hlast : s.last = s.stages.length - 1 := rfl
  have hpiped : k < (Event.pipedBy s.pid es).length := by omega
  exact ⟨_, List.getElem?_eq_getElem hpiped⟩

theorem Staged.lt_last (h : s.Staged ph left collected es m) {n : Nat}
    (hn : (Event.pipedBy s.pid es)[k]? = some n) : k < s.last := by
  have hlt := (List.getElem?_eq_some_iff.mp hn).1
  have hcounted := h.way.counted
  have hlast : s.last = s.stages.length - 1 := rfl
  omega

theorem Staged.inlet (hb : s.Begins) (h : s.Staged ph left collected es m)
    (hq : (Event.startedBy s.pid es)[k]? = some q) {stage : Stage}
    (hstage : s.stages[k]? = some stage) {wires : Wires}
    (hattached : Stage.Attached s.base Fd.input ((pipeBefore (Event.pipedBy s.pid es) k).map
      .readEnd) stage.inputRequest? ⟨wires, s.openedBy es k⟩) :
    ∃ y, wires Fd.input = some y ∧ s.Inlet (Event.pipedBy s.pid es) (s.openedBy es) k y ∧
      ∀ n, pipeBefore (Event.pipedBy s.pid es) k = some n → y = .readEnd n := by
  cases k with
  | zero =>
    cases hfile : stage.inputFile with
    | none =>
      simp only [Stage.inputRequest?, hfile, pipeBefore] at hattached
      obtain ⟨y, hy⟩ := Option.ne_none_iff_exists'.mp (hb.standard Fd.input (Nat.zero_le _))
      have hhead : s.stages.head? = some stage := by rw [List.head?_eq_getElem?, hstage]
      exact ⟨y, Eq.trans hattached hy, .inl ⟨stage, hhead, hfile, hy⟩,
        fun n hn => absurd hn (by simp [pipeBefore])⟩
    | some file =>
      simp only [Stage.inputRequest?, hfile, pipeBefore] at hattached
      obtain ⟨y, hmem, hy⟩ := hattached
      exact ⟨y, hy, .inr ⟨_, hmem, rfl, rfl⟩, fun n hn => absurd hn (by simp [pipeBefore])⟩
  | succ j =>
    have hlt := (List.getElem?_eq_some_iff.mp hq).1
    have hcounted := h.way.counted
    have hpiped : j < (Event.pipedBy s.pid es).length := by omega
    have hn : (Event.pipedBy s.pid es)[j]? = some _ := List.getElem?_eq_getElem hpiped
    have hbefore : pipeBefore (Event.pipedBy s.pid es) (j + 1) = some _ := hn
    rw [hbefore] at hattached
    refine ⟨_, hattached, ⟨_, hn, rfl⟩, fun n hn' => ?_⟩
    cases hbefore.symm.trans hn'
    rfl

theorem Staged.outlet (hb : s.Begins) (h : s.Staged ph left collected es m)
    (hq : (Event.startedBy s.pid es)[k]? = some q) {stage : Stage}
    (hstage : s.stages[k]? = some stage) {wires : Wires}
    (hattached : Stage.Attached s.base Fd.output ((Event.pipedBy s.pid es)[k]?.map .writeEnd)
      stage.outputRequest? ⟨wires, s.openedBy es k⟩) :
    ∃ y, wires Fd.output = some y ∧ (k = s.last → s.Outlet (s.openedBy es) y) ∧
      ∀ n, (Event.pipedBy s.pid es)[k]? = some n → y = .writeEnd n := by
  cases hpipe : (Event.pipedBy s.pid es)[k]? with
  | some n =>
    rw [hpipe] at hattached
    refine ⟨_, hattached, fun hk => absurd hk (Nat.ne_of_lt (h.lt_last hpipe)), fun n' hn' => ?_⟩
    cases hn'
    rfl
  | none =>
    have hk : k = s.last := by
      by_contra hk
      obtain ⟨n, hn⟩ := h.pipe_behind hq hk
      exact absurd (hpipe.symm.trans hn) (by simp)
    rw [hpipe] at hattached
    subst hk
    cases hfile : stage.outputFile with
    | none =>
      simp only [Stage.outputRequest?, hfile] at hattached
      obtain ⟨y, hy⟩ := Option.ne_none_iff_exists'.mp (hb.standard Fd.output (Nat.le_succ 1))
      have hlast : s.stages.getLast? = some stage := by rw [List.getLast?_eq_getElem?]; exact hstage
      exact ⟨y, Eq.trans hattached hy, fun _ => .inl ⟨stage, hlast, hfile, hy⟩,
        fun n hn => absurd hn (by simp)⟩
    | some file =>
      simp only [Stage.outputRequest?, hfile] at hattached
      obtain ⟨y, hmem, hy⟩ := hattached
      exact ⟨y, hy, fun _ => .inr ⟨_, hmem, ⟨_, rfl⟩, rfl⟩, fun n hn => absurd hn (by simp)⟩

theorem Staged.exec_turn (hb : s.Begins) (h : s.Staged ph left collected es m)
    (hq : (Event.startedBy s.pid es)[k]? = some q)
    (hway : Pipeline.Underway s.base s.stages s.Assembles s.machine s.pid
      (es ++ m.events (.turn q)) m') {p : Process Report} (hp : m.processes.get? q = some p)
    {n : Nat} (hphase : ph k = .wiring n) {arguments : List Bytes}
    {next : Errno → Program Report} (hprogram : p.program = .call (.exec arguments) next)
    {stage : Stage} (hstage : s.stages[k]? = some stage) (hfate : s.fate k = none)
    (hwired : Stage.Wired s.base stage (pipeBefore (Event.pipedBy s.pid es) k)
      (Event.pipedBy s.pid es)[k]? ⟨p.descriptors.get?, s.openedBy es k⟩)
    (hm' : m' = m.update q { p with program := .filter (s.tool k), loaded := true }) :
    ∃ inlet outlet, s.Staged (Function.update ph k (.reading inlet outlet [])) left collected
      (es ++ m.events (.turn q)) m' := by
  have hat := h.people.children k q hq
  rw [hphase] at hat
  obtain ⟨p₁, stage', hp₁, hfit, hparent, -⟩ := hat
  cases hp.symm.trans hp₁
  obtain ⟨inlet, hinput, hinlet, hbefore⟩ := h.inlet hb hq hstage hwired.input
  obtain ⟨outlet, houtput, houtlet, hbehind⟩ := h.outlet hb hq hstage hwired.output
  have hearly : (ph k).Early := by simp [hphase, Phase.Early]
  have hsupplies := (h.flow.supplied k).early hfate hearly inlet hinlet
  have hreads : ∀ n, inlet ≠ .writeEnd n := by
    rintro n rfl
    exact hsupplies.1
  have hwrites (n : Nat) (he : outlet = .writeEnd n) :
      (Event.pipedBy s.pid es)[k]? = some n ∨ s.drain? = some n := by
    by_cases hk : k = s.last
    · subst hk he
      exact .inr (h.flow.delivers.early hearly _ (houtlet rfl)).drain
    · obtain ⟨n', hn'⟩ := h.pipe_behind hq hk
      cases (hbehind n' hn').symm.trans he
      exact .inl hn'
  have hdeeds : m.deeds q p p.program = [] := by rw [hprogram]; rfl
  have hplugged : s.Plugged (Event.pipedBy s.pid es) k inlet outlet
      { p with program := .filter (s.tool k), loaded := true } :=
    ⟨⟨hfit.lives, hfit.calm, hfit.standing, hfit.complaints⟩, hparent, rfl, hfate, hinput, houtput,
      hwired.others, hreads, hbefore, hbehind, hwrites⟩
  obtain ⟨x, -, hsource, hsink, hpipes⟩ := h.complaints hb
  have ht : Touches x m m' := hm' ▸ (Touches.refl x m).update q _
  have hemitted : s.emitted k (.reading inlet outlet []) = s.emitted k (ph k) := by
    simp [hphase, emitted]
  refine ⟨inlet, outlet, h.kid hq hway hp hdeeds (hm' ▸ only_update) ?_ (h.flow.kid ht hemitted
    (fun j n _ hn => hpipes j n hn) (.inr hsource) (ht.content hsource) (.inr hsink) ⟨?_, ?_⟩ ?_)⟩
  · rw [hm', Machine.get?_update_same]
    exact ⟨_, rfl, hplugged, rfl⟩
  · simp [Phase.Early]
  · intro inlet' outlet' seen hreading
    rw [Function.update_self] at hreading
    cases hreading
    refine ⟨_, hsupplies.touches ht (fun j n _ hn => hpipes j n hn) fun _ => hsource, ?_⟩
    rw [arrived_update hemitted]
    rfl
  · rintro rfl
    refine ⟨by simp [Phase.Early], fun inlet' outlet' seen hrunning => ?_, by simp [Phase.Late]⟩
    rw [Function.update_self] at hrunning
    have houtlet' : outlet' = outlet := by
      rcases hrunning with hrunning | hrunning
      · cases hrunning
        rfl
      · cases hrunning
    rw [houtlet']
    exact (h.flow.delivers.early hearly outlet (houtlet rfl)).touches ht hsink

theorem Staged.place_unique (h : s.Staged ph left collected es m) {j : Nat}
    (hj : (Event.startedBy s.pid es)[j]? = some q)
    (hk : (Event.startedBy s.pid es)[k]? = some q) : j = k :=
  (List.getElem?_inj (List.getElem?_eq_some_iff.mp hj).1 (List.nodup_cons.mp h.way.numbered.1).2).mp
    (hj.trans hk.symm)

theorem Staged.openedBy_append (h : s.Staged ph left collected es m)
    (hq : (Event.startedBy s.pid es)[k]? = some q) (o : Opening) :
    s.openedBy (es ++ [⟨q, false, .opened o.path o.access o.handle⟩]) =
      Function.update (s.openedBy es) k (s.openedBy es k ++ [o]) := by
  have hstarted : Event.startedBy s.pid [⟨q, false, .opened o.path o.access o.handle⟩] = [] := by
    simp [Event.startedBy, Event.deedsOf, h.child_ne hq]
  funext j
  unfold openedBy
  rw [Event.startedBy_append, hstarted, List.append_nil]
  by_cases hj : j = k
  · subst hj
    rw [Function.update_self, hq]
    simp
  · rw [Function.update_of_ne hj]
    cases hr : (Event.startedBy s.pid es)[j]? with
    | none => rfl
    | some r =>
      have hrq : r ≠ q := by
        rintro rfl
        exact hj (h.place_unique hr hq)
      have hnone : Event.preparations r [⟨q, false, .opened o.path o.access o.handle⟩] = [] := by
        simp [Event.preparations, Ne.symm hrq]
      simp [hnone]

theorem Steady.withFile (h : s.Steady m) {p : Process Report} {tree : FileTree} {fd : Fd}
    {file : OpenFile} (hdata : (tree.node s.source).content = (m.tree.node s.source).content) :
    s.Steady (m.withFile q p tree fd file) := by
  refine ⟨h.unbounded, hdata.trans h.data, fun x hx => ?_⟩
  obtain ⟨hsource, hsink, hknown⟩ := h.complaints x hx
  have havoids {node : NodeId} (ha : m.Avoids x node) :
      (m.withFile q p tree fd file).Avoids x node := by
    intro n file' hn hfile'
    obtain ⟨file₁, hfile₁⟩ := Option.isSome_iff_exists.mp (hknown n hn)
    cases hfile'.symm.trans (Machine.get?_withFile hfile₁)
    exact ha n _ hn hfile₁
  have hclear : s.Clear (m.withFile q p tree fd file) x := by
    unfold Clear at hsink ⊢
    cases hdrain : s.drain? with
    | none =>
      simp only [hdrain] at hsink
      exact havoids hsink
    | some n =>
      simp only [hdrain] at hsink
      exact hsink
  refine ⟨havoids hsource, hclear, fun n hn => ?_⟩
  obtain ⟨file₁, hfile₁⟩ := Option.isSome_iff_exists.mp (hknown n hn)
  rw [Machine.get?_withFile hfile₁]
  rfl

theorem Supplies.withFile {pipes : List Nat} {y : Handle} {rest : Bytes}
    (h : s.Supplies pipes m k y rest) {p : Process Report} {tree : FileTree} {fd : Fd}
    {file : OpenFile} (hdata : (tree.node s.source).content = (m.tree.node s.source).content) :
    s.Supplies pipes (m.withFile q p tree fd file) k y rest := ⟨h.1.withFile hdata, h.2⟩

theorem Receiving.withFile {y : Handle} (h : s.Receiving m y) {p : Process Report} {fd : Fd}
    {file : OpenFile} : s.Receiving (m.withFile q p m.tree fd file) y := by
  unfold Receiving at h ⊢
  cases hdrain : s.drain? with
  | none =>
    simp only [hdrain] at h ⊢
    obtain ⟨_, _, n, _, _, _, _, hget, hcontent, _⟩ := id h
    exact h.withFile hget hcontent
  | some n =>
    simp only [hdrain] at h ⊢
    exact h

theorem Flowing.open_input {pipes : List Nat} {opened : Nat → List Opening}
    (h : s.Flowing ph pipes opened m) {n n' : Nat} (hphase : ph 0 = .wiring n)
    (hskipped : s.skipped = 0) {path : Bytes} {p : Process Report} {fd : Fd} :
    s.Flowing (Function.update ph 0 (.wiring n')) pipes
      (Function.update opened 0 (opened 0 ++ [⟨path, .read, .file m.openFiles.next⟩]))
      (m.withFile q p m.tree fd (Machine.openedAs s.source .read)) := by
  have hemitted : s.emitted 0 (.wiring n') = s.emitted 0 (ph 0) := by simp [hphase, emitted]
  refine ⟨h.steady.withFile rfl, fun j => ?_, h.delivers.transfer (update_wiring hphase _) ?_
    (fun _ hy => hy.withFile) fun _ hdata => hdata⟩
  · cases j with
    | zero =>
      refine ⟨fun hfate _ y hy => ?_, fun inlet outlet seen hj => absurd hj (by simp)⟩
      have hold (hy : s.Inlet pipes opened 0 y) :=
        (h.supplied 0).early hfate (by simp [hphase, Phase.Early]) y hy
      rcases hy with hbase | ⟨o, ho, hread, rfl⟩
      · exact (hold (.inl hbase)).withFile rfl
      · rw [Function.update_self, List.mem_append, List.mem_singleton] at ho
        rcases ho with ho | rfl
        · exact (hold (.inr ⟨o, ho, hread, rfl⟩)).withFile rfl
        · refine ⟨⟨_, s.data, Table.get?_set_same _ _ _, rfl, rfl, h.steady.data, ?_⟩, _, rfl⟩
          show s.data.drop 0 = s.data.drop s.skipped
          rw [hskipped]
    | succ j =>
      exact (h.supplied (j + 1)).transfer (update_wiring hphase _) (arrived_update hemitted _)
        (fun _ hy => hy) fun y rest hy => hy.withFile rfl
  · -- what is opened for reading is nothing to write to
    rintro y (hbase | ⟨o, ho, hmode, rfl⟩)
    · exact .inl hbase
    · refine .inr ⟨o, ?_, hmode, rfl⟩
      by_cases hlast : s.last = 0
      · rw [hlast, Function.update_self, List.mem_append, List.mem_singleton] at ho
        rcases ho with ho | rfl
        · exact hlast ▸ ho
        · simp at hmode
      · rwa [Function.update_of_ne hlast] at ho

theorem Flowing.open_output {pipes : List Nat} {opened : Nat → List Opening}
    (h : s.Flowing ph pipes opened m) {n n' : Nat} (hphase : ph s.last = .wiring n)
    {stage : Stage} (hstage : s.stages.getLast? = some stage)
    (hfile : stage.outputFile ≠ none) (halready : s.already = []) (hdrain : s.drain? = none)
    {path : Bytes} {mode : Nat} {p : Process Report} {fd : Fd} {tree : FileTree}
    (hdata : (tree.node s.source).content = (m.tree.node s.source).content) {node : Node}
    (hnode : tree.nodes.get? s.sink = some node) (hempty : node.content = .file []) :
    s.Flowing (Function.update ph s.last (.wiring n')) pipes
      (Function.update opened s.last
        (opened s.last ++ [⟨path, .replace mode, .file m.openFiles.next⟩]))
      (m.withFile q p tree fd (Machine.openedAs s.sink (.replace mode))) := by
  have hemitted : s.emitted s.last (.wiring n') = s.emitted s.last (ph s.last) := by
    simp [hphase, emitted]
  refine ⟨h.steady.withFile hdata,
    fun j => (h.supplied j).transfer (update_wiring hphase _) (arrived_update hemitted _)
      (fun y hy => ?_) fun y rest hy => hy.withFile hdata, fun _ y hy => ?_, ?_, ?_⟩
  · -- what is opened for writing is nothing to read from
    cases j with
    | succ j => exact hy
    | zero =>
      rcases hy with hbase | ⟨o, ho, hread, rfl⟩
      · exact .inl hbase
      · refine .inr ⟨o, ?_, hread, rfl⟩
        by_cases hlast : 0 = s.last
        · rw [← hlast, Function.update_self, List.mem_append, List.mem_singleton] at ho
          rcases ho with ho | rfl
          · exact ho
          · simp at hread
        · rwa [Function.update_of_ne hlast] at ho
  · have hearly : (ph s.last).Early := by simp [hphase, Phase.Early]
    rcases hy with ⟨stage', hstage', hnone, -⟩ | ⟨o, ho, hmode, rfl⟩
    · cases hstage.symm.trans hstage'
      exact absurd hnone hfile
    · rw [Function.update_self, List.mem_append, List.mem_singleton] at ho
      simp only [Receiving, hdrain, halready]
      rcases ho with ho | rfl
      · have hreceives := h.delivers.early hearly o.handle (.inr ⟨o, ho, hmode, rfl⟩)
        simp only [Receiving, hdrain, halready] at hreceives
        exact hreceives.withFile hnode hempty
      · exact ⟨_, _, node, rfl, Table.get?_set_same _ _ _, rfl, rfl, hnode, hempty, .inr rfl⟩
  · simp
  · simp [Phase.Late]

theorem Staged.kid_opens (h : s.Staged ph left collected es m)
    (hq : (Event.startedBy s.pid es)[k]? = some q)
    (hway : Pipeline.Underway s.base s.stages s.Assembles s.machine s.pid
      (es ++ m.events (.turn q)) m') {p : Process Report}
    (hp : m.processes.get? q = some p) (hloaded : p.loaded = false) {o : Opening}
    (hdeeds : m.deeds q p p.program = [.opened o.path o.access o.handle]) (honly : Only q m m')
    {φ : Phase} (hat : s.At (Event.pipedBy s.pid es) collected k q φ (m'.processes.get? q))
    (hflow : s.Flowing (Function.update ph k φ) (Event.pipedBy s.pid es)
      (Function.update (s.openedBy es) k (s.openedBy es k ++ [o])) m') :
    s.Staged (Function.update ph k φ) left collected (es ++ m.events (.turn q)) m' := by
  have hevents : m.events (.turn q) = [⟨q, false, .opened o.path o.access o.handle⟩] := by
    rw [Machine.events_turn hp, hdeeds, hloaded, List.map_cons, List.map_nil]
  have hne := h.child_ne hq
  have hpiped : Event.pipedBy s.pid (es ++ m.events (.turn q)) = Event.pipedBy s.pid es := by
    simp [hevents, Event.pipedBy, Event.deedsOf, hne]
  have hstarted : Event.startedBy s.pid (es ++ m.events (.turn q)) = Event.startedBy s.pid es := by
    simp [hevents, Event.startedBy, Event.deedsOf, hne]
  refine ⟨hway, ?_, ?_⟩
  · rw [hpiped, hstarted]
    exact h.people.kid h.way.numbered.1 hq hp honly hat
  · rw [hpiped, hevents, h.openedBy_append hq o]
    exact hflow

theorem Staged.may_open (h : s.Staged ph left collected es m)
    (hq : (Event.startedBy s.pid es)[k]? = some q)
    {stage : Stage} (hstage : s.stages[k]? = some stage) {path : Bytes} {access : Access}
    (hmay : stage.MayOpen (pipeBefore (Event.pipedBy s.pid es) k)
      (Event.pipedBy s.pid es)[k]? path access) :
    (k = 0 ∧ access = .read ∧
      s.stages.head? = some stage ∧ stage.inputRequest? = some (path, .read)) ∨
      k = s.last ∧ access = .replace 0o644 ∧ s.stages.getLast? = some stage ∧
        stage.outputRequest? = some (path, .replace 0o644) := by
  rcases hmay with ⟨hbefore, hrequest⟩ | ⟨hbehind, hrequest⟩
  · obtain ⟨file, -, hpair⟩ := Option.map_eq_some_iff.mp hrequest
    obtain ⟨-, rfl⟩ := Prod.mk.inj hpair
    cases k with
    | zero => exact .inl ⟨rfl, rfl, by rw [List.head?_eq_getElem?, hstage], hrequest⟩
    | succ j =>
      exfalso
      have hlt := (List.getElem?_eq_some_iff.mp hq).1
      have hcounted := h.way.counted
      have hnone := List.getElem?_eq_none_iff.mp hbefore
      omega
  · obtain ⟨file, -, hpair⟩ := Option.map_eq_some_iff.mp hrequest
    obtain ⟨-, rfl⟩ := Prod.mk.inj hpair
    have hk : k = s.last := by
      by_contra hk
      obtain ⟨n, hn⟩ := h.pipe_behind hq hk
      exact absurd (hbehind.symm.trans hn) (by simp)
    subst hk
    refine .inr ⟨rfl, rfl, ?_, hrequest⟩
    rw [List.getLast?_eq_getElem?]
    exact hstage

/-- The file that a stage opens is the input of the first one or the output of the last one. -/
theorem Staged.flows_open (hb : s.Begins) (h : s.Staged ph left collected es m)
    (hq : (Event.startedBy s.pid es)[k]? = some q) {stage : Stage}
    (hstage : s.stages[k]? = some stage) {n n' : Nat} (hphase : ph k = .wiring n) {path : Bytes}
    {access : Access} (hmay : stage.MayOpen (pipeBefore (Event.pipedBy s.pid es) k)
      (Event.pipedBy s.pid es)[k]? path access) {p p' : Process Report} {tree : FileTree} {fd : Fd}
    (hopens : m.OpensAt p path (if access = .read then s.source else s.sink) access tree) :
    s.Flowing (Function.update ph k (.wiring n')) (Event.pipedBy s.pid es)
      (Function.update (s.openedBy es) k
        (s.openedBy es k ++ [⟨path, access, .file m.openFiles.next⟩]))
      (m.withFile q p' tree fd
        (Machine.openedAs (if access = .read then s.source else s.sink) access)) := by
  rcases h.may_open hq hstage hmay with ⟨rfl, rfl, hfirst, hrequest⟩ | ⟨rfl,
    rfl, hlast, hrequest⟩
  · obtain ⟨file, hfile, -⟩ := Option.map_eq_some_iff.mp hrequest
    have hskipped : s.skipped = 0 := by
      have hinput := hb.input stage hfirst
      rw [hfile] at hinput
      exact hinput
    obtain ⟨-, rfl, -⟩ := hopens
    exact h.flow.open_input hphase hskipped
  · obtain ⟨file, hfile, -⟩ := Option.map_eq_some_iff.mp hrequest
    obtain ⟨halready, hdrain⟩ : s.already = [] ∧ s.drain? = none := by
      have houtput := hb.output stage hlast
      rw [hfile] at houtput
      exact houtput
    obtain ⟨hopen, node, hnode, hempty⟩ := hopens
    have hsame := Machine.get?_openForWriting hopen hb.apart h.flow.steady.data
    exact h.flow.open_output hphase hlast (by simp [hfile]) halready hdrain
      (by rw [FileTree.node, FileTree.node, hsame]) hnode hempty

theorem Staged.open_turn (hb : s.Begins) (h : s.Staged ph left collected es m)
    (hq : (Event.startedBy s.pid es)[k]? = some q)
    (hway : Pipeline.Underway s.base s.stages s.Assembles s.machine s.pid
      (es ++ m.events (.turn q)) m') {p : Process Report} (hp : m.processes.get? q = some p)
    (hmeets : s.Meets k q p m) {n : Nat} (hphase : ph k = .wiring n)
    {path : Bytes} {access : Access} {next : Except Errno Fd → Program Report}
    (hprogram : p.program = .call (.openFile path access) next) (hstep : m.step q = some m') :
    ∃ n', n = n' + 1 ∧
      s.Staged (Function.update ph k (.wiring n')) left collected
        (es ++ m.events (.turn q)) m' := by
  obtain ⟨p₁, stage, hp₁, hfit, hparent, hloaded, hstage, hconduct, hcontract⟩ := h.wiring hq hphase
  cases hp.symm.trans hp₁
  have hlive : p.isLive = true := Machine.isLive_iff.mpr hfit.lives
  have hopens := hmeets.opens path access next hprogram
  have hat :=
    fun (p' : Process Report) (n' : Nat) (hp' : m'.processes.get? q = some p') (hfit' : s.Fit p')
      (hparent' : p'.parent = s.pid) (hloaded' : p'.loaded = false)
      (hgo : p'.program.Honours
        (stage.conduct (s.outlook k) (decide (k ≠ 0)) (decide (k + 1 ≠ s.stages.length)))
        (fun _ _ => False) n') =>
    show s.At (Event.pipedBy s.pid es) collected k q (.wiring n') (m'.processes.get? q) from
      ⟨p', stage, hp', hfit', hparent', hloaded', hstage, hgo⟩
  rw [hprogram] at hconduct hcontract
  obtain ⟨⟨hpositive, -⟩, hgo⟩ := hconduct
  obtain ⟨n', rfl⟩ : ∃ n', n = n' + 1 := ⟨n - 1, by omega⟩
  refine ⟨n', rfl, ?_⟩
  obtain ⟨x, hx, -, -, -⟩ := h.complaints hb
  have hcomplaints : p.descriptors.get? Fd.complaints = some x := hfit.complaints.trans hx
  by_cases hcan : (s.outlook k).opens path access = true
  · rw [if_pos hcan] at hopens
    obtain ⟨hfree, tree, hopensAt⟩ := hopens
    obtain ⟨fd, hfd⟩ := Option.ne_none_iff_exists'.mp hfree
    obtain ⟨heq, hdeeds⟩ := Machine.step_openFile_opensAt hp hlive hprogram hfit.calm.1 hfd hopensAt
    cases heq.symm.trans hstep
    have hfd' : fd ≠ Fd.complaints := by
      rintro rfl
      exact absurd ((Table.lowest?_eq_some hfd).2.symm.trans hcomplaints) (by simp)
    have hat' := hat _ n' (Machine.get?_update_same _ _ _)
      ⟨hfit.lives, hfit.calm, hfit.standing,
        (Table.get?_set_of_ne _ _ (Ne.symm hfd')).trans hfit.complaints⟩ hparent hloaded
      (hgo (.ok fd) n' ⟨rfl, hcan, hfd'⟩)
    exact h.kid_opens (o := ⟨path, access, .file m.openFiles.next⟩) hq hway hp hloaded hdeeds
      (only_of_processes rfl) hat' (h.flows_open hb hq hstage hphase hcontract.1.1 hopensAt)
  · rw [if_neg hcan] at hopens
    obtain ⟨e, hrefused⟩ := hopens
    obtain ⟨heq, hdeeds⟩ := Machine.step_openFile_refused hp hlive hprogram hrefused
    cases heq.symm.trans hstep
    refine h.stays_wiring hb hq hway hp hdeeds only_update hcomplaints hfit
      ((Touches.refl x m).update q _) hphase ?_
    exact hat _ n' (Machine.get?_update_same _ _ _)
      ⟨hfit.lives, hfit.calm, hfit.standing, hfit.complaints⟩ hparent hloaded
      (hgo (.error e) n' ⟨rfl, by simpa [Outlook.Allows] using hcan⟩)

private def Remains (s : Scene) (k : Nat) (stage : Stage) (x : Handle) (q : Pid)
    (p : Process Report) (m : Machine Report) (left : Nat) : Prop :=
  ∃ p' m₁, m.deeds q p p.program = [] ∧ Touches x m m₁ ∧ m₁.processes = m.processes ∧
    m.step q = some (m₁.update q p') ∧ s.Fit p' ∧ p'.parent = p.parent ∧ p'.loaded = p.loaded ∧
    p'.program.Honours
      (stage.conduct (s.outlook k) (decide (k ≠ 0)) (decide (k + 1 ≠ s.stages.length)))
      (fun _ _ => False) left

section

variable {p : Process Report} {stage : Stage} {x : Handle} {n : Nat}

private theorem close_remains (hp : m.processes.get? q = some p) (hfit : s.Fit p) {fd : Fd}
    {next : Unit → Program Report} (hprogram : p.program = .call (.close fd) next)
    (hconduct : p.program.Honours (stage.conduct (s.outlook k)
      (decide (k ≠ 0)) (decide (k + 1 ≠ s.stages.length))) (fun _ _ => False) (n + 1)) :
    Remains s k stage x q p m n := by
  have hlive : p.isLive = true := Machine.isLive_iff.mpr hfit.lives
  rw [hprogram] at hconduct
  obtain ⟨⟨-, hmay⟩, hgo⟩ := hconduct
  have hfd : fd ≠ Fd.complaints := hmay
  refine ⟨_, m, by rw [hprogram]; rfl, .refl x m, rfl, Machine.step_close hp hlive hprogram,
    ⟨hfit.lives, hfit.calm, hfit.standing, ?_⟩, rfl, rfl, hgo () n ⟨rfl, trivial⟩⟩
  exact (Table.get?_erase_of_ne _ (Ne.symm hfd)).trans hfit.complaints

private theorem duplicate_remains (hb : s.Begins) (hp : m.processes.get? q = some p)
    (hfit : s.Fit p) {source target : Fd} {next : Except Errno Unit → Program Report}
    (hprogram : p.program = .call (.duplicate source target) next)
    (hsource : p.descriptors.get? source ≠ none)
    (hconduct : p.program.Honours (stage.conduct (s.outlook k)
      (decide (k ≠ 0)) (decide (k + 1 ≠ s.stages.length))) (fun _ _ => False) (n + 1)) :
    Remains s k stage x q p m n := by
  have hlive : p.isLive = true := Machine.isLive_iff.mpr hfit.lives
  rw [hprogram] at hconduct
  obtain ⟨⟨-, hmay⟩, hgo⟩ := hconduct
  have htarget : target = Fd.input ∨ target = Fd.output := hmay
  have hne : Fd.complaints ≠ target := by
    rcases htarget with rfl | rfl <;> decide
  have hlimit : ¬ p.limit ≤ target := by
    have hbelow : Fd.output < p.limit := hfit.limit ▸ hb.limit
    have hle : target ≤ Fd.output := by
      rcases htarget with rfl | rfl <;> decide
    exact Nat.not_le.mpr (Nat.lt_of_le_of_lt hle hbelow)
  rcases Machine.step_duplicate hp hlive hprogram with ⟨y, -, -, heq⟩ | ⟨hnone | hle, -⟩
  · refine ⟨_, m, by rw [hprogram]; rfl, .refl x m, rfl, heq,
      ⟨hfit.lives, hfit.calm, hfit.standing, ?_⟩, rfl, rfl, hgo (.ok ()) n ⟨rfl, rfl⟩⟩
    exact (Table.get?_set_of_ne _ _ hne).trans hfit.complaints
  · exact absurd hnone hsource
  · exact absurd hle hlimit

private theorem write_remains (hb : s.Begins) (hsteady : s.Steady m)
    (hp : m.processes.get? q = some p) (hfit : s.Fit p)
    (hx : p.descriptors.get? Fd.complaints = some x) {fd : Fd} {data : Bytes}
    {next : Except Errno Unit → Program Report} (hprogram : p.program = .call (.write fd data) next)
    (hconduct : p.program.Honours (stage.conduct (s.outlook k)
      (decide (k ≠ 0)) (decide (k + 1 ≠ s.stages.length))) (fun _ _ => False) (n + 1)) :
    Remains s k stage x q p m n := by
  have hlive : p.isLive = true := Machine.isLive_iff.mpr hfit.lives
  rw [hprogram] at hconduct
  obtain ⟨⟨-, hmay⟩, hgo⟩ := hconduct
  obtain rfl : fd = Fd.complaints := hmay
  obtain ⟨r, m₁, reply, hwrite, hprocesses, heq⟩ := Machine.step_write_whole hp hlive hprogram
    hsteady.unbounded hfit.calm.2 (hfit.ignored ▸ hb.ignores)
  have ht : Touches x m m₁ := by
    have hkeeps := Machine.writeTo_touches (m := m) hx data
    rw [hwrite] at hkeeps
    exact hkeeps
  exact ⟨_, m₁, by rw [hprogram]; rfl, ht, hprocesses, heq, ⟨hfit.lives, ⟨hfit.calm.1, rfl⟩,
    hfit.standing, hfit.complaints⟩, rfl, rfl, hgo reply n ⟨rfl, trivial⟩⟩

private theorem exec_remains (hp : m.processes.get? q = some p)
    (hfit : s.Fit p) {arguments : List Bytes} {next : Errno → Program Report}
    (hprogram : p.program = .call (.exec arguments) next) {e : Errno}
    (hrefusal : (s.outlook k).refusal? arguments = some e)
    (hsearch : Image.search (m.loader p) p.searchPath arguments = .error e)
    (hconduct : p.program.Honours (stage.conduct (s.outlook k)
      (decide (k ≠ 0)) (decide (k + 1 ≠ s.stages.length))) (fun _ _ => False) (n + 1)) :
    Remains s k stage x q p m n := by
  have hlive : p.isLive = true := Machine.isLive_iff.mpr hfit.lives
  rw [hprogram] at hconduct
  exact ⟨_, m, by rw [hprogram]; rfl, .refl x m,
    rfl, Machine.step_exec_refused hp hlive hprogram hsearch, ⟨hfit.lives, hfit.calm, hfit.standing,
      hfit.complaints⟩, rfl, rfl, hconduct.2 e n ⟨rfl, hrefusal⟩⟩

end

theorem fate_of_found {stage : Stage} (hstage : s.stages[k]? = some stage)
    (hconnects :
      stage.connects (s.outlook k) (decide (k ≠ 0)) (decide (k + 1 ≠ s.stages.length)) = true)
    (hrefusal : (s.outlook k).refusal? (stage.arguments.map Bytes.ofString) = none)
    {searchPath : Bytes} {loader : Image.Loader} {image : Image}
    (hsearch : Image.search loader searchPath (stage.arguments.map Bytes.ofString) = .ok image) :
    s.fate k = none := by
  rw [fate_of_stage hstage, Stage.fate, if_pos hconnects, hrefusal]
  split
  · rename_i hnone
    rw [hnone] at hsearch
    cases hsearch
  · rfl

theorem Staged.found_turn (hb : s.Begins) (h : s.Staged ph left collected es m)
    (hq : (Event.startedBy s.pid es)[k]? = some q)
    (hway : Pipeline.Underway s.base s.stages s.Assembles s.machine s.pid
      (es ++ m.events (.turn q)) m') {p : Process Report} (hp : m.processes.get? q = some p)
    (hlive : p.isLive = true) {n : Nat} (hphase : ph k = .wiring (n + 1)) {arguments : List Bytes}
    {next : Errno → Program Report} (hprogram : p.program = .call (.exec arguments) next)
    {stage : Stage} (hstage : s.stages[k]? = some stage) (hfate : s.fate k = none)
    (hwired : Stage.Wired s.base stage (pipeBefore (Event.pipedBy s.pid es) k)
      (Event.pipedBy s.pid es)[k]? ⟨p.descriptors.get?, s.openedBy es k⟩)
    (hfree : p.descriptors.lowest? p.limit ≠ none) {image : Image}
    (hsearch : Image.search (m.loader p) p.searchPath arguments = .ok image)
    (himage : m.installed image.program image.arguments = Program.filter (s.tool k))
    (hstep : m.step q = some m') :
    ∃ φ, s.Staged (Function.update ph k φ) left collected (es ++ m.events (.turn q)) m' ∧
      s.rank k φ < s.rank k (ph k) := by
  have heq := Machine.step_exec_found hp hlive hprogram hsearch hfree
  rw [himage] at heq
  obtain ⟨inlet, outlet, hstaged⟩ := h.exec_turn hb hq hway hp hphase hprogram hstage hfate
    hwired (Option.some.inj (hstep.symm.trans heq))
  refine ⟨.reading inlet outlet [], hstaged, ?_⟩
  rw [hphase]
  simp only [rank, List.length_nil]
  omega

/-- A stage that is being connected makes one call less, runs its program, or ends because it
cannot. -/
theorem Staged.wiring_turn (hb : s.Begins) (h : s.Staged ph left collected es m)
    (hq : (Event.startedBy s.pid es)[k]? = some q)
    (hway : Pipeline.Underway s.base s.stages s.Assembles s.machine s.pid
      (es ++ m.events (.turn q)) m') {p : Process Report} (hp : m.processes.get? q = some p)
    (hmeets : s.Meets k q p m) {n : Nat} (hphase : ph k = .wiring n) (hstep : m.step q = some m') :
    ∃ φ, s.Staged (Function.update ph k φ) left collected (es ++ m.events (.turn q)) m' ∧
      s.rank k φ < s.rank k (ph k) := by
  obtain ⟨p₁, stage, hp₁, hfit, hparent, hloaded, hstage, hconduct, hcontract⟩ := h.wiring hq hphase
  cases hp.symm.trans hp₁
  have hlive : p.isLive = true := Machine.isLive_iff.mpr hfit.lives
  obtain ⟨x, hx, -, -, -⟩ := h.complaints hb
  have hcomplaints : p.descriptors.get? Fd.complaints = some x := hfit.complaints.trans hx
  cases hprogram : p.program with
  | done a => simp [hprogram, Program.Honours] at hconduct
  | fork child next => simp [hprogram, Program.Honours, Stage.conduct] at hconduct
  | transfer t next => simp [hprogram, Program.Honours] at hconduct
  | flood fd block next => simp [hprogram, Program.Honours] at hconduct
  | call c next =>
    have hcall := hconduct
    rw [hprogram] at hcall hcontract
    obtain ⟨⟨hpositive, hmay⟩, -⟩ := hcall
    obtain ⟨n', rfl⟩ : ∃ n', n = n' + 1 := ⟨n - 1, by omega⟩
    have hless : s.rank k (.wiring n') < s.rank k (ph k) := by
      rw [hphase]
      simp only [rank]
      omega
    have hremains (hrest : Remains s k stage x q p m n') :
        ∃ φ, s.Staged (Function.update ph k φ) left collected (es ++ m.events (.turn q)) m' ∧
          s.rank k φ < s.rank k (ph k) := by
      obtain ⟨p', m₁, hdeeds, ht, hprocesses, heq, hfit', hparent', hloaded', hhonours⟩ := hrest
      cases heq.symm.trans hstep
      exact ⟨.wiring n',
        h.stays_wiring hb hq hway hp hdeeds (only_of_processes hprocesses) hcomplaints hfit
        (ht.update q _) hphase ⟨p', stage, Machine.get?_update_same _ _ _, hfit',
          hparent'.trans hparent, hloaded'.trans hloaded, hstage, hhonours⟩, hless⟩
    cases c with
    | close fd => exact hremains (close_remains hp hfit hprogram hconduct)
    | duplicate source target =>
      exact hremains (duplicate_remains hb hp hfit hprogram hcontract.1 hconduct)
    | write fd data =>
      exact hremains (write_remains hb h.flow.steady hp hfit hcomplaints hprogram hconduct)
    | openFile path access =>
      obtain ⟨n'', heq, hstaged⟩ := h.open_turn hb hq hway hp hmeets hphase hprogram hstep
      cases heq
      exact ⟨.wiring n', hstaged, hless⟩
    | exit code =>
      have hdeeds : m.deeds q p p.program = [] := by rw [hprogram]; rfl
      have hfate : s.fate k = some code := (fate_of_stage hstage).trans hmay
      have heq := Machine.step_exit hp hlive hprogram
      refine ⟨.ended, h.ends_wiring hb hq hway hp hdeeds hphase hfate
        (Option.some.inj (hstep.symm.trans heq)), ?_⟩
      rw [hphase]
      simp [rank]
    | exec arguments =>
      have hruns := hmeets.runs arguments next hprogram
      cases hrefusal : (s.outlook k).refusal? arguments with
      | some e =>
        rw [hrefusal] at hruns
        exact hremains (exec_remains hp hfit hprogram hrefusal hruns hconduct)
      | none =>
        rw [hrefusal] at hruns
        obtain ⟨hfree, image, hsearch, himage⟩ := hruns
        obtain ⟨⟨rfl, hwired⟩, -⟩ := hcontract
        exact h.found_turn hb hq hway hp hlive hphase hprogram hstage
          (fate_of_found hstage hmay hrefusal hsearch) hwired hfree hsearch himage hstep
    | _ => exact hmay.elim

end

end PipeShell.Scene
