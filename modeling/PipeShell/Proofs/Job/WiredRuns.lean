import Mathlib.Data.List.Nodup
import PipeShell.Proofs.Job.Connections

/-!
The wiring of a pipeline in every run of a machine. What is invariant is said in `Underway`; the
main theorem is `wiring_exact`.
-/

set_option autoImplicit false
set_option relaxedAutoImplicit false

namespace PipeShell

variable {α : Type}

namespace Stage

/-- Whether a process, as long as it lives and has loaded no program, is the one of a stage between
two pipes. -/
def Station (base : Wires) (stage : Stage) (before behind : Option Nat) (pipes : List Nat)
    (m : Machine α) (es : List Event) (q : Pid) : Prop :=
  ∀ p, m.processes.get? q = some p → p.ending? = none → p.loaded = false →
    Prepares base stage before behind (Foreign m pipes) p (Event.preparations q es)

section

variable {base : Wires} {stage : Stage} {before behind : Option Nat} {m m' : Machine α} {q : Pid}
  {mv : Move} {pipes : List Nat} {es : List Event}

theorem preparations_of_ne (hq : mv.actor? ≠ some q) : Event.preparations q (m.events mv) = [] := by
  have hnone : (m.events mv).filter (fun e => e.pid = q ∧ e.loaded = false) = [] := by
    rw [List.filter_eq_nil_iff]
    intro e he hc
    have hpid := Machine.pid_of_mem_events he
    simp only [decide_eq_true_eq] at hc
    exact hq (hc.1 ▸ hpid)
  rw [Event.preparations, hnone]
  rfl

private theorem Prepares.not_interrupted {foreign : Handle → Prop} {p : Process α}
    {opened : List Opening} (h : Prepares base stage before behind foreign p opened)
    (hp : m.processes.get? q = some p) :
    m.interrupt q = none := by
  obtain ⟨⟨wires, -, hhonours⟩, -⟩ := h
  unfold Machine.interrupt
  rw [hp]
  dsimp only
  split
  · rfl
  · split
    · rename_i c next hprogram
      rw [hprogram] at hhonours
      have hmay : (contract base stage before behind).may _ c := hhonours.1
      cases c with
      | waitFor pid => exact hmay.elim
      | poll pid => exact hmay.elim
      | _ => rfl
    · rfl

private theorem before_move (hs : m.Sound) (hq : q < m.nextPid) (hmove : m.move mv = some m')
    {p' : Process α} (hp' : m'.processes.get? q = some p') (hlive : p'.ending? = none)
    (hloaded : p'.loaded = false) :
    ∃ p, m.processes.get? q = some p ∧ p.ending? = none ∧ p.loaded = false := by
  cases hp : m.processes.get? q with
  | none => exact absurd ((Machine.move_absent hmove hs hq hp).symm.trans hp') (by simp)
  | some p =>
    refine ⟨p, rfl, ?_, ?_⟩
    · cases he : p.ending? with
      | none => rfl
      | some e =>
        rcases Machine.move_ended hmove hs hp he with hnone | ⟨p₁, hp₁, hend⟩
        · exact absurd (hnone.symm.trans hp') (by simp)
        · cases hp'.symm.trans hp₁
          exact absurd (hlive.symm.trans hend) (by simp)
    · cases hl : p.loaded with
      | false => rfl
      | true =>
        rcases Machine.move_loaded hmove hs hp hl with hnone | ⟨p₁, hp₁, hload⟩
        · exact absurd (hnone.symm.trans hp') (by simp)
        · cases hp'.symm.trans hp₁
          exact absurd (hloaded.symm.trans hload) (by simp)

theorem Station.own_move (hs : m.Sound) (hq : q < m.nextPid)
    (hpipes : ∀ n ∈ pipes, m.Knows (.readEnd n) ∧ ∀ id, m.fifos.get? id ≠ some n)
    (h : Station base stage before behind pipes m es q) (hmove : m.move mv = some m')
    (hactor : mv.actor? = some q) :
    Station base stage before behind pipes m' (es ++ m.events mv) q ∧
      ∀ e ∈ m.events mv, e.loaded = false → ∃ path access handle,
        e.deed = .opened path access handle ∧ stage.MayOpen before behind path access := by
  cases mv with
  | turn r =>
    obtain rfl : r = q := Option.some.inj hactor
    obtain ⟨p, hp, hlive, hstopped⟩ := Machine.step_live hmove
    have hstep (hloaded : p.loaded = false) :=
      (h p hp hlive hloaded).step hp (Machine.isLive_iff.mpr ⟨hlive, hstopped⟩) hloaded hpipes hmove
    constructor
    · intro p' hp' hlive' hloaded'
      obtain ⟨p₁, hp₁, -, hloaded⟩ := before_move hs hq hmove hp' hlive' hloaded'
      cases hp.symm.trans hp₁
      obtain ⟨⟨p₁, hp₁, hrest⟩, -⟩ := hstep hloaded
      cases hp'.symm.trans hp₁
      rw [Event.preparations_append]
      rcases hrest with hend | hload | hprepares
      · simp [hlive'] at hend
      · simp [hloaded'] at hload
      · exact hprepares
    · intro e he hloaded'
      refine (hstep ?_).2 e he
      rw [Machine.events_turn hp] at he
      obtain ⟨deed, -, rfl⟩ := List.mem_map.mp he
      exact hloaded'
  | tick => cases hactor
  | interrupt r =>
    obtain rfl : r = q := Option.some.inj hactor
    obtain ⟨p, hp, hlive, hevent⟩ := Machine.interrupt_live hmove
    have hunloaded (hloaded : p.loaded = false) : False := by
      have hnone := (h p hp hlive hloaded).not_interrupted hp
      exact absurd (hnone.symm.trans hmove) (by simp)
    constructor
    · intro p' hp' hlive' hloaded'
      obtain ⟨p₁, hp₁, -, hloaded⟩ := before_move hs hq hmove hp' hlive' hloaded'
      cases hp.symm.trans hp₁
      exact (hunloaded hloaded).elim
    · intro e he hloaded'
      rw [hevent, List.mem_singleton] at he
      rw [he] at hloaded'
      exact (hunloaded hloaded').elim

theorem Station.others_move (hs : m.Sound) (hq : q < m.nextPid)
    (h : Station base stage before behind pipes m es q) (hmove : m.move mv = some m')
    (hactor : mv.actor? ≠ some q) :
    Station base stage before behind pipes m' (es ++ m.events mv) q := by
  intro p' hp' hlive' hloaded'
  obtain ⟨p, hp, hlive, hloaded⟩ := before_move hs hq hmove hp' hlive' hloaded'
  rw [Event.preparations_append, preparations_of_ne hactor, List.append_nil]
  rcases Machine.move_others hmove hs hactor hp with hnone | ⟨p₁, hp₁, hend | hsame⟩
  · exact absurd (hnone.symm.trans hp') (by simp)
  · cases hp'.symm.trans hp₁
    exact absurd hlive' hend.ended
  · cases hp'.symm.trans hp₁
    exact ((h p hp hlive hloaded).same hsame).mono fun handle hf => hf.mono fun _ hk =>
      Machine.move_knows hmove hk

theorem Station.extend {n : Nat} (hn : ¬ m.Knows (.readEnd n))
    (h : Station base stage before behind pipes m es q) :
    Station base stage before behind (pipes ++ [n]) m es q := by
  intro p hp hlive hloaded
  refine (h p hp hlive hloaded).mono fun handle hf => ⟨hf.1, fun k hk => ?_⟩
  rcases List.mem_append.mp hk with hk | hk
  · exact hf.2 k hk
  · rw [List.mem_singleton] at hk
    subst hk
    constructor <;> rintro rfl <;> exact hn hf.1

end

end Stage

namespace Pipeline

open Stage

/-- What holds whenever a pipeline is under way: the interpreter keeps to its contract, the pipes
are new and the children distinct, there are as many of both as there should be, and the children
are at their stations. -/
structure Underway (base : Wires) (stages : List Stage) (Q : α → Assembly → Prop) (m₀ : Machine α)
    (pid : Pid) (es : List Event) (m : Machine α) : Prop where
  sound : m.Sound
  kept : ∀ handle, m₀.Knows handle → m.Knows handle
  interpreter : ∀ p, m.processes.get? pid = some p → p.ending? = none →
    Interprets base stages Q p (Event.pipedBy pid es) (Event.startedBy pid es)
  unopened : ∀ deed ∈ Event.deedsOf pid es, ∀ path access handle, deed ≠ .opened path access handle
  fresh : ∀ n ∈ Event.pipedBy pid es,
    ¬ m₀.Knows (.readEnd n) ∧ m.Knows (.readEnd n) ∧ ∀ id, m.fifos.get? id ≠ some n
  distinct : (Event.pipedBy pid es).Nodup
  counted : (Event.pipedBy pid es).length ≤ stages.length - 1 ∧
    (Event.startedBy pid es).length ≤ stages.length ∧
    min (Event.startedBy pid es).length (stages.length - 1) ≤ (Event.pipedBy pid es).length
  numbered : (pid :: Event.startedBy pid es).Nodup ∧
    (∀ c ∈ pid :: Event.startedBy pid es, c < m.nextPid) ∧ ∀ e ∈ es, e.pid < m.nextPid
  stations : ∀ i q, (Event.startedBy pid es)[i]? = some q → ∃ stage, stages[i]? = some stage ∧
    Station base stage (pipeBefore (Event.pipedBy pid es) i) (Event.pipedBy pid es)[i]?
      (Event.pipedBy pid es) m es q ∧
    ∀ e ∈ es, e.pid = q → e.loaded = false →
      ∃ path access handle, e.deed = .opened path access handle ∧
      stage.MayOpen (pipeBefore (Event.pipedBy pid es) i) (Event.pipedBy pid es)[i]? path access

section

variable {base : Wires} {stages : List Stage} {Q : α → Assembly → Prop} {m₀ m m' : Machine α}
  {pid : Pid} {es : List Event} {mv : Move}

private theorem Underway.known (h : Underway base stages Q m₀ pid es m) :
    ∀ n ∈ Event.pipedBy pid es, m.Knows (.readEnd n) ∧ ∀ id, m.fifos.get? id ≠ some n :=
  fun n hn => (h.fresh n hn).2

private theorem Underway.fresh_move (h : Underway base stages Q m₀ pid es m)
    (hmove : m.move mv = some m') :
    ∀ n ∈ Event.pipedBy pid es,
      ¬ m₀.Knows (.readEnd n) ∧ m'.Knows (.readEnd n) ∧ ∀ id, m'.fifos.get? id ≠ some n := by
  intro n hn
  obtain ⟨hnew, hknown, hanonymous⟩ := h.fresh n hn
  exact ⟨hnew, Machine.move_knows hmove hknown, Machine.move_anonymous hmove hknown hanonymous⟩

private theorem Underway.numbered_move (h : Underway base stages Q m₀ pid es m)
    (hmove : m.move mv = some m') : (∀ c ∈ pid :: Event.startedBy pid es, c < m'.nextPid) ∧
    ∀ e ∈ es ++ m.events mv, e.pid < m'.nextPid := by
  have hle := Machine.move_nextPid_le hmove
  refine ⟨fun c hc => Nat.lt_of_lt_of_le (h.numbered.2.1 c hc) hle, fun e he => ?_⟩
  rcases List.mem_append.mp he with he | he
  · exact Nat.lt_of_lt_of_le (h.numbered.2.2 e he) hle
  · obtain ⟨p, hp⟩ := Machine.present_of_mem_events he
    exact Nat.lt_of_lt_of_le (h.sound.numbered e.pid p hp).1 hle

private theorem Underway.stations_move (h : Underway base stages Q m₀ pid es m)
    (hmove : m.move mv = some m') {i : Nat} {q : Pid} (hq : (Event.startedBy pid es)[i]? = some q) :
    ∃ stage, stages[i]? = some stage ∧
      Station base stage (pipeBefore (Event.pipedBy pid es) i)
        (Event.pipedBy pid es)[i]? (Event.pipedBy pid es) m'
        (es ++ m.events mv) q ∧
      ∀ e ∈ es ++ m.events mv, e.pid = q → e.loaded = false → ∃ path access handle,
        e.deed = .opened path access handle ∧ stage.MayOpen (pipeBefore (Event.pipedBy pid es) i)
          (Event.pipedBy pid es)[i]? path access := by
  obtain ⟨stage, hstage, hstation, hdeeds⟩ := h.stations i q hq
  have hlt : q < m.nextPid := h.numbered.2.1 q (List.mem_cons_of_mem _ (List.mem_of_getElem? hq))
  refine ⟨stage, hstage, ?_⟩
  by_cases hactor : mv.actor? = some q
  · obtain ⟨hstation', hdeeds'⟩ := hstation.own_move h.sound hlt h.known hmove hactor
    refine ⟨hstation', fun e he hpid hloaded => ?_⟩
    rcases List.mem_append.mp he with he | he
    · exact hdeeds e he hpid hloaded
    · exact hdeeds' e he hloaded
  · refine ⟨hstation.others_move h.sound hlt hmove hactor, fun e he hpid hloaded => ?_⟩
    rcases List.mem_append.mp he with he | he
    · exact hdeeds e he hpid hloaded
    · exact absurd (hpid ▸ Machine.pid_of_mem_events he) hactor

private theorem Underway.unopened_move (h : Underway base stages Q m₀ pid es m)
    (hmove : m.move mv = some m') :
    ∀ deed ∈ Event.deedsOf pid (es ++ m.events mv), ∀ path access handle,
      deed ≠ .opened path access handle := by
  intro deed hdeed
  rw [Event.deedsOf_append] at hdeed
  rcases List.mem_append.mp hdeed with hdeed | hdeed
  · exact h.unopened deed hdeed
  · by_cases hactor : mv.actor? = some pid
    · cases mv with
      | turn r =>
        obtain rfl : r = pid := Option.some.inj hactor
        obtain ⟨p, hp, hlive, -⟩ := Machine.step_live hmove
        rw [Machine.deedsOf_events_turn hp] at hdeed
        exact (h.interpreter p hp hlive).unopened hdeed
      | tick => cases hactor
      | interrupt r =>
        obtain rfl : r = pid := Option.some.inj hactor
        obtain ⟨p, -, -, hevent⟩ := Machine.interrupt_live hmove
        simp only [hevent, Event.deedsOf, List.filter_cons_of_pos, decide_true, List.filter_nil,
          List.map_cons, List.map_nil, List.mem_singleton] at hdeed
        simp [hdeed]
    · rw [Machine.deedsOf_events_of_ne hactor] at hdeed
      exact absurd hdeed List.not_mem_nil

private theorem Underway.quiet (h : Underway base stages Q m₀ pid es m)
    (hmove : m.move mv = some m') (hpiped : Event.pipedBy pid (m.events mv) = [])
    (hstarted : Event.startedBy pid (m.events mv) = [])
    (hinterpreter : ∀ p, m'.processes.get? pid = some p → p.ending? = none →
      Interprets base stages Q p (Event.pipedBy pid es) (Event.startedBy pid es)) :
    Underway base stages Q m₀ pid (es ++ m.events mv) m' := by
  have hpipes : Event.pipedBy pid (es ++ m.events mv) = Event.pipedBy pid es := by simp [hpiped]
  have hchildren :
      Event.startedBy pid (es ++ m.events mv) = Event.startedBy pid es := by simp [hstarted]
  obtain ⟨hnumbers, hactors⟩ := h.numbered_move hmove
  constructor
  · exact Machine.move_sound hmove h.sound
  · exact fun handle hk => Machine.move_knows hmove (h.kept handle hk)
  · rw [hpipes, hchildren]
    exact hinterpreter
  · exact h.unopened_move hmove
  · rw [hpipes]
    exact h.fresh_move hmove
  · rw [hpipes]
    exact h.distinct
  · rw [hpipes, hchildren]
    exact h.counted
  · rw [hchildren]
    exact ⟨h.numbered.1, hnumbers, hactors⟩
  · rw [hpipes, hchildren]
    exact fun i q hq => h.stations_move hmove hq

private theorem Underway.others_move (h : Underway base stages Q m₀ pid es m)
    (hmove : m.move mv = some m') (hactor : mv.actor? ≠ some pid) :
    Underway base stages Q m₀ pid (es ++ m.events mv) m' := by
  have hdeeds := Machine.deedsOf_events_of_ne (m := m) hactor
  refine h.quiet hmove (by simp [Event.pipedBy, hdeeds]) (by simp [Event.startedBy, hdeeds])
    fun p' hp' hlive' => ?_
  cases hp : m.processes.get? pid with
  | none =>
    have hnone := Machine.move_absent hmove h.sound (h.numbered.2.1 pid List.mem_cons_self) hp
    exact absurd (hnone.symm.trans hp') (by simp)
  | some p =>
    rcases Machine.move_others hmove h.sound hactor hp with hnone | ⟨p₁, hp₁, hend | hsame⟩
    · exact absurd (hnone.symm.trans hp') (by simp)
    · cases hp'.symm.trans hp₁
      exact absurd hlive' hend.ended
    · cases hp'.symm.trans hp₁
      obtain ⟨parent, stopped, rfl⟩ := hsame
      obtain ⟨hcalm, hhonours⟩ := h.interpreter p hp hlive'
      exact ⟨hcalm, hhonours⟩

private theorem Underway.interrupted (h : Underway base stages Q m₀ pid es m)
    (hmove : m.move (.interrupt pid) = some m') :
    Underway base stages Q m₀ pid (es ++ m.events (.interrupt pid)) m' := by
  have hdeeds : Event.deedsOf pid (m.events (.interrupt pid)) = [.interrupted] := by
    obtain ⟨p, -, -, hevent⟩ := Machine.interrupt_live hmove
    simp [hevent, Event.deedsOf]
  refine h.quiet hmove (by simp [Event.pipedBy, hdeeds]) (by simp [Event.startedBy, hdeeds])
    fun p' hp' hlive' => ?_
  obtain ⟨p, hp, hlive, ⟨child, next, -, rfl⟩ | ⟨child, next, hprogram, -⟩⟩ :=
    Machine.interrupt_cases hmove
  · rw [Machine.get?_update_same] at hp'
    cases hp'
    exact h.interpreter _ hp hlive'
  · have hhonours := (h.interpreter p hp (Machine.isLive_iff.mp hlive).1).honours
    rw [hprogram] at hhonours
    exact hhonours.1.elim

private theorem station_started {stage : Stage} {previous next : Option Link}
    {p : Process α} {q : Pid} {pipes : List Nat} {children : List Pid}
    (hinput : base Fd.input ≠ none) (houtput : base Fd.output ≠ none) (hcalm : p.rendezvous? = none)
    (hnext : IsNext base stages ⟨p.descriptors.get?, pipes, children⟩ stage previous next)
    (hchild : m'.processes.get? q = some { p with
      parent := pid, program := stage.process previous next, loaded := false, fed := false })
    (hnew : Event.preparations q es = []) : Station base stage
      (pipeBefore pipes children.length) pipes[children.length]? pipes m' es q := by
  obtain ⟨before, behind, rfl, rfl, hbefore, hbehind, hwires, -, hpipe, hpipe', -⟩ := hnext
  intro p' hp' _ _
  cases hp'.symm.trans hchild
  rw [hnew, ← hpipe, ← hpipe']
  refine ⟨⟨p.descriptors.get?, by simp only [Holds, hcalm], ?_⟩,
    fun o ho => absurd ho List.not_mem_nil⟩
  have hwires : p.descriptors.get? = _ := hwires
  rw [hwires]
  exact process_honours hinput houtput hbefore hbehind

private theorem pipeBefore_append {pipes : List Nat} {i n : Nat} (hi : i < pipes.length) :
    pipeBefore (pipes ++ [n]) i = pipeBefore pipes i ∧ (pipes ++ [n])[i]? = pipes[i]? := by
  refine ⟨?_, List.getElem?_append_left hi⟩
  cases i with
  | zero => rfl
  | succ i => exact List.getElem?_append_left (Nat.lt_of_succ_lt hi)

private theorem Underway.station_piped (h : Underway base stages Q m₀ pid es m)
    (hmove : m.move (.turn pid) = some m') {i : Nat} {q : Pid}
    (hq : (Event.startedBy pid es)[i]? = some q) {stage : Stage} {before behind : Option Nat}
    (hstation : Station base stage before behind (Event.pipedBy pid es) m es q) :
    Station base stage before behind (Event.pipedBy pid es ++ [m.pipes.next]) m'
      (es ++ m.events (.turn pid)) q := by
  have hmem := List.mem_of_getElem? hq
  have hne : (Move.turn pid).actor? ≠ some q := by
    rintro ⟨⟩
    exact (List.nodup_cons.mp h.numbered.1).1 hmem
  have hlt : q < m.nextPid := h.numbered.2.1 q (List.mem_cons_of_mem _ hmem)
  exact (hstation.extend (by simp [Machine.Knows])).others_move h.sound hlt hmove hne

private theorem Underway.piped (h : Underway base stages Q m₀ pid es m)
    (hmove : m.move (.turn pid) = some m')
    (hpiped : Event.pipedBy pid (m.events (.turn pid)) = [m.pipes.next])
    (hstarted : Event.startedBy pid (m.events (.turn pid)) = [])
    (hinterpreter : ∀ p, m'.processes.get? pid = some p → p.ending? = none →
      Interprets base stages Q p (Event.pipedBy pid es ++ [m.pipes.next]) (Event.startedBy pid es))
    (hroom : (Event.pipedBy pid es).length + 1 < stages.length)
    (hknown : m'.Knows (.readEnd m.pipes.next)) (hfifos : m'.fifos = m.fifos) :
    Underway base stages Q m₀ pid (es ++ m.events (.turn pid)) m' := by
  have hpipes : Event.pipedBy pid (es ++ m.events (.turn pid)) = Event.pipedBy pid es ++
      [m.pipes.next] := by
    simp [hpiped]
  have hchildren : Event.startedBy pid (es ++ m.events (.turn pid)) =
      Event.startedBy pid es := by simp [hstarted]
  have hunknown : ¬ m.Knows (.readEnd m.pipes.next) := by simp [Machine.Knows]
  have hcounted := h.counted
  obtain ⟨hnumbers, hactors⟩ := h.numbered_move hmove
  constructor
  · exact Machine.move_sound hmove h.sound
  · exact fun handle hk => Machine.move_knows hmove (h.kept handle hk)
  · rw [hpipes, hchildren]
    exact hinterpreter
  · exact h.unopened_move hmove
  · rw [hpipes]
    intro n hn
    rcases List.mem_append.mp hn with hn | hn
    · exact h.fresh_move hmove n hn
    · obtain rfl := List.mem_singleton.mp hn
      refine ⟨fun hk => hunknown (h.kept _ hk), hknown, fun id hid => ?_⟩
      rw [hfifos] at hid
      exact hunknown (h.sound.fifos id _ hid)
  · rw [hpipes]
    exact h.distinct.append (List.nodup_singleton _)
      (List.disjoint_singleton.mpr fun hmem => hunknown (h.fresh _ hmem).2.1)
  · rw [hpipes, hchildren]
    simp only [List.length_append, List.length_singleton]
    omega
  · rw [hchildren]
    exact ⟨h.numbered.1, hnumbers, hactors⟩
  · rw [hpipes, hchildren]
    intro i q hq
    have hi : i < (Event.pipedBy pid es).length := by
      have := (List.getElem?_eq_some_iff.mp hq).1
      omega
    obtain ⟨hbefore, hbehind⟩ := pipeBefore_append (n := m.pipes.next) hi
    rw [hbefore, hbehind]
    obtain ⟨stage, hstage, -, hdeeds⟩ := h.stations_move hmove hq
    obtain ⟨stage', hstage', hstation, -⟩ := h.stations i q hq
    cases hstage.symm.trans hstage'
    exact ⟨stage, hstage, h.station_piped hmove hq hstation, hdeeds⟩

theorem Underway.unheard_move (h : Underway base stages Q m₀ pid es m) :
    ∀ e ∈ es ++ m.events mv, e.pid ≠ m.nextPid := by
  intro e he hpid
  rcases List.mem_append.mp he with he | he
  · exact absurd (hpid ▸ h.numbered.2.2 e he) (Nat.lt_irrefl _)
  · obtain ⟨p, hp⟩ := Machine.present_of_mem_events he
    exact absurd (hpid ▸ (h.sound.numbered _ _ hp).1) (Nat.lt_irrefl _)

theorem preparations_unheard {q : Pid} (h : ∀ e ∈ es, e.pid ≠ q) :
    Event.preparations q es = [] := by
  rw [Event.preparations, List.filter_eq_nil_iff.mpr, List.filterMap_nil]
  intro e he hc
  simp only [decide_eq_true_eq] at hc
  exact h e he hc.1

private theorem Underway.started (hinput : base Fd.input ≠ none) (houtput : base Fd.output ≠ none)
    (h : Underway base stages Q m₀ pid es m) (hmove : m.move (.turn pid) = some m')
    (hpiped : Event.pipedBy pid (m.events (.turn pid)) = [])
    (hstarted : Event.startedBy pid (m.events (.turn pid)) = [m.nextPid])
    (hinterpreter : ∀ p, m'.processes.get? pid = some p → p.ending? = none →
      Interprets base stages Q p (Event.pipedBy pid es) (Event.startedBy pid es ++ [m.nextPid]))
    {stage : Stage} {previous next : Option Link} {p : Process α} (hcalm : p.rendezvous? = none)
    (hnext : IsNext base stages ⟨p.descriptors.get?, Event.pipedBy pid es, Event.startedBy pid es⟩
      stage previous next) (hchild : m'.processes.get? m.nextPid = some { p with
      parent := pid, program := stage.process previous next, loaded := false, fed := false }) :
    Underway base stages Q m₀ pid (es ++ m.events (.turn pid)) m' := by
  have hpipes : Event.pipedBy pid (es ++ m.events (.turn pid)) =
      Event.pipedBy pid es := by simp [hpiped]
  have hchildren : Event.startedBy pid (es ++ m.events (.turn pid)) =
      Event.startedBy pid es ++ [m.nextPid] := by
    simp [hstarted]
  obtain ⟨hstage, hlength⟩ : stages[(Event.startedBy pid es).length]? = some stage ∧
      (Event.pipedBy pid es).length = min ((Event.startedBy pid es).length + 1)
        (stages.length - 1) := by
    obtain ⟨_, _, -, -, -, -, -, hstage, -, -, hlength⟩ := hnext
    exact ⟨hstage, hlength⟩
  have hcount := (List.getElem?_eq_some_iff.mp hstage).1
  have hnew : m.nextPid ∉ pid :: Event.startedBy pid es :=
    fun hm => absurd (h.numbered.2.1 _ hm) (Nat.lt_irrefl _)
  obtain ⟨hnumbers, hactors⟩ := h.numbered_move hmove
  constructor
  · exact Machine.move_sound hmove h.sound
  · exact fun handle hk => Machine.move_knows hmove (h.kept handle hk)
  · rw [hpipes, hchildren]
    exact hinterpreter
  · exact h.unopened_move hmove
  · rw [hpipes]
    exact h.fresh_move hmove
  · rw [hpipes]
    exact h.distinct
  · rw [hpipes, hchildren]
    simp only [List.length_append, List.length_singleton]
    omega
  · rw [hchildren, ← List.cons_append]
    refine ⟨h.numbered.1.append (List.nodup_singleton _) (List.disjoint_singleton.mpr hnew),
      fun c hc => ?_, hactors⟩
    rcases List.mem_append.mp hc with hc | hc
    · exact hnumbers c hc
    · obtain rfl := List.mem_singleton.mp hc
      exact ((Machine.move_sound hmove h.sound).numbered _ _ hchild).1
  · rw [hpipes, hchildren]
    intro i q hq
    rcases getElem?_concat_cases hq with hq | ⟨rfl, rfl⟩
    · exact h.stations_move hmove hq
    · have hunheard : ∀ e ∈ es ++ m.events (.turn pid), e.pid ≠ m.nextPid := h.unheard_move
      exact ⟨stage, hstage, station_started hinput houtput hcalm hnext hchild
        (preparations_unheard hunheard), fun e he hpid => absurd hpid (hunheard e he)⟩

private theorem Underway.turn (hinput : base Fd.input ≠ none) (houtput : base Fd.output ≠ none)
    (h : Underway base stages Q m₀ pid es m) (hmove : m.move (.turn pid) = some m') :
    Underway base stages Q m₀ pid (es ++ m.events (.turn pid)) m' := by
  obtain ⟨p, hp, hlive, hstopped⟩ := Machine.step_live hmove
  have hinterprets := h.interpreter p hp hlive
  obtain ⟨pipes', children', ⟨p₁, hp₁, hinterprets'⟩, hpiped, hstarted, hadvance⟩ :=
    hinterprets.step h.sound hp (Machine.isLive_iff.mpr ⟨hlive, hstopped⟩) hmove
  have hinterpreter : ∀ p', m'.processes.get? pid = some p' → p'.ending? = none →
      Interprets base stages Q p' pipes' children' := by
    intro p' hp' _
    cases hp'.symm.trans hp₁
    exact hinterprets'
  cases hadvance with
  | quiet => exact h.quiet hmove (by simpa using hpiped) (by simpa using hstarted) hinterpreter
  | piped hroom hknown hfifos =>
    exact h.piped hmove (by simpa [eq_comm] using hpiped)
      (by simpa using hstarted) hinterpreter hroom hknown hfifos
  | started hnext hchild =>
    exact h.started hinput houtput hmove (by simpa using hpiped)
      (by simpa [eq_comm] using hstarted) hinterpreter hinterprets.calm hnext hchild

private theorem Underway.move (hinput : base Fd.input ≠ none) (houtput : base Fd.output ≠ none)
    (h : Underway base stages Q m₀ pid es m) (hmove : m.move mv = some m') :
    Underway base stages Q m₀ pid (es ++ m.events mv) m' := by
  by_cases hactor : mv.actor? = some pid
  · cases mv with
    | turn r =>
      obtain rfl : r = pid := Option.some.inj hactor
      exact h.turn hinput houtput hmove
    | tick => cases hactor
    | interrupt r =>
      obtain rfl : r = pid := Option.some.inj hactor
      exact h.interrupted hmove
  · exact h.others_move hmove hactor

/-- A pipeline that is begun is under way in every run. -/
theorem Underway.run {p₀ : Process α} (hs : m₀.Sound) (hp : m₀.processes.get? pid = some p₀)
    (hcalm : p₀.rendezvous? = none)
    (hhonours : p₀.program.Honours (contract p₀.descriptors.get? stages) Q
      ⟨p₀.descriptors.get?, [], []⟩)
    (hinput : p₀.descriptors.get? Fd.input ≠ none) (houtput : p₀.descriptors.get? Fd.output ≠ none)
    (hrun : m₀.Run es m) : Underway p₀.descriptors.get? stages Q m₀ pid es m := by
  induction hrun with
  | start =>
    refine ⟨hs, fun _ hk => hk, fun p hp' _ => ?_, by simp [Event.deedsOf],
      by simp [Event.pipedBy, Event.deedsOf], by simp [Event.pipedBy, Event.deedsOf],
      by simp [Event.pipedBy, Event.startedBy, Event.deedsOf],
      ⟨by simp [Event.startedBy, Event.deedsOf], ?_, by simp⟩,
      by simp [Event.startedBy, Event.deedsOf]⟩
    · cases hp.symm.trans hp'
      exact ⟨hcalm, hhonours⟩
    · simpa [Event.startedBy, Event.deedsOf] using (hs.numbered pid p₀ hp).1
  | move _ mv hmove ih => exact ih.move hinput houtput hmove

end

end Pipeline

end PipeShell
