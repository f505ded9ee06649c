import PipeShell.Proofs.Job.Assembly
import PipeShell.Proofs.System.Calls
import PipeShell.Report

/-!
Pipelines that are started on a machine, among any other processes and in any order of steps. The
interpreter and the stages of a pipeline keep to their contracts as long as they live, so that a
stage has exactly the descriptors that are meant for it when its program is about to run.
-/

set_option autoImplicit false
set_option relaxedAutoImplicit false

namespace PipeShell

variable {α : Type}

def Event.preparations (pid : Pid) (es : List Event) : List Opening :=
  (es.filter fun e => e.pid = pid ∧ e.loaded = false).filterMap fun e =>
    match e.deed with
    | .opened path access handle => some ⟨path, access, handle⟩
    | _ => none

@[simp] theorem Event.preparations_append (pid : Pid) (es es' : List Event) :
    preparations pid (es ++ es') = preparations pid es ++ preparations pid es' := by
  simp [preparations]

@[simp] theorem Event.preparations_nil (pid : Pid) : preparations pid [] = [] := rfl

@[simp] theorem Event.preparations_opened (pid : Pid) (path : Bytes)
    (access : Access) (handle : Handle) :
    preparations pid [⟨pid, false, .opened path access handle⟩] = [⟨path, access, handle⟩] := by
  simp [preparations]

namespace Pipeline

section

variable {base : Wires} {stages : List Stage} {Q : α → Assembly → Prop} {m m' : Machine α}
  {pid : Pid} {p : Process α} {pipes : List Nat} {children : List Pid}

private theorem may_cases {g : Assembly} {c : Call} (h : (contract base stages).may g c) :
    (∃ r, c = .note r) ∨ (∃ fd, c = .close fd) ∨ (∃ child, c = .waitFor child) ∨
      c = .pipe ∧ g.pipes.length + 1 < stages.length := by
  cases c with
  | pipe => exact .inr (.inr (.inr ⟨rfl, h.1⟩))
  | _ => simp_all [contract]

/-- What the process of the interpreter is for the pipes and the children of a pipeline: it keeps to
its contract. -/
structure Interprets (base : Wires) (stages : List Stage) (Q : α → Assembly → Prop) (p : Process α)
    (pipes : List Nat) (children : List Pid) : Prop where
  calm : p.rendezvous? = none
  honours : p.program.Honours (contract base stages) Q ⟨p.descriptors.get?, pipes, children⟩

/-- What a step of the interpreter can be: it makes the next pipe, or starts the next stage, or does
neither. -/
inductive Advance (base : Wires) (stages : List Stage) (m m' : Machine α) (pid : Pid)
    (p : Process α) (pipes : List Nat) (children : List Pid) : List Nat → List Pid → Prop
  | quiet : Advance base stages m m' pid p pipes children pipes children
  | piped (room : pipes.length + 1 < stages.length) (known : m'.Knows (.readEnd m.pipes.next))
      (fifos : m'.fifos = m.fifos) :
      Advance base stages m m' pid p pipes children (pipes ++ [m.pipes.next]) children
  | started {stage : Stage} {previous next : Option Link}
      (isNext : IsNext base stages ⟨p.descriptors.get?, pipes, children⟩ stage previous next)
      (child : m'.processes.get? m.nextPid = some { p with
        parent := pid, program := stage.process previous next, loaded := false, fed := false }) :
      Advance base stages m m' pid p pipes children pipes (children ++ [m.nextPid])

private theorem call_step (hp : m.processes.get? pid = some p) (hlive : p.isLive = true)
    (h : Interprets base stages Q p pipes children) {c : Call} {next : c.Reply → Program α}
    (hprogram : p.program = .call c next) (hstep : m.step pid = some m') :
    ∃ pipes' children', (∃ p', m'.processes.get? pid = some p' ∧
      Interprets base stages Q p' pipes' children') ∧
      pipes' = pipes ++ Event.pipedBy pid (m.events (.turn pid)) ∧
      children' = children ++ Event.startedBy pid (m.events (.turn pid)) ∧
      Advance base stages m m' pid p pipes children pipes' children' := by
  have hdeeds := Machine.deedsOf_events_turn hp
  rw [hprogram] at hdeeds
  obtain ⟨hcalm, hmay, hnext⟩ : p.rendezvous? = none ∧ (contract base stages).may _ c ∧ _ :=
    ⟨h.calm, by simpa only [hprogram, Program.Honours] using h.honours⟩
  -- a call that neither makes a pipe nor starts a child leaves no such deed behind
  have hquiet (p' : Process α) (hp' : m'.processes.get? pid = some p')
      (hinterprets : Interprets base stages Q p' pipes children)
      (hpiped : Event.pipedBy pid (m.events (.turn pid)) = [])
      (hstarted : Event.startedBy pid (m.events (.turn pid)) = []) :
      ∃ pipes' children', (∃ p', m'.processes.get? pid = some p' ∧
        Interprets base stages Q p' pipes' children') ∧
        pipes' = pipes ++ Event.pipedBy pid (m.events (.turn pid)) ∧
        children' = children ++ Event.startedBy pid (m.events (.turn pid)) ∧
        Advance base stages m m' pid p pipes children pipes' children' :=
    ⟨pipes, children, ⟨p', hp', hinterprets⟩, by simp [hpiped], by simp [hstarted], .quiet⟩
  rcases may_cases hmay with ⟨r, rfl⟩ | ⟨fd, rfl⟩ | ⟨child, rfl⟩ | ⟨rfl, hroom⟩
  · have hpiped : Event.pipedBy pid (m.events (.turn pid)) = [] := by
      simp [Event.pipedBy, hdeeds, Machine.deeds]
    have hstarted : Event.startedBy pid (m.events (.turn pid)) = [] := by
      simp [Event.startedBy, hdeeds, Machine.deeds]
    obtain ⟨m₁, count, -, rfl | rfl⟩ := Machine.step_note hp hlive hprogram hstep
    · exact hquiet _ (Machine.get?_update_same _ _ _) ⟨hcalm, h.honours⟩ hpiped hstarted
    · exact hquiet _ (Machine.get?_update_same _ _ _) ⟨hcalm, hnext () _ rfl⟩ hpiped hstarted
  · rw [Machine.step_close hp hlive hprogram] at hstep
    cases hstep
    refine hquiet _ (Machine.get?_update_same _ _ _) ⟨hcalm, hnext () _ ?_⟩ ?_ ?_
    · rw [Table.get?_erase_eq_update]
      rfl
    all_goals simp [Event.pipedBy, Event.startedBy, hdeeds, Machine.deeds]
  · rcases Machine.step_waitFor hp hlive hprogram with ⟨c, e, -, -, -, hfound, heq⟩ | ⟨c, -, -, -,
      heq⟩ | ⟨-, hfound, heq⟩
    · rw [heq] at hstep
      cases hstep
      refine hquiet _ (Machine.get?_update_same _ _ _) ⟨hcalm, hnext _ _ rfl⟩ ?_ ?_ <;>
        simp [Event.pipedBy, Event.startedBy, hdeeds, Machine.deeds, hfound]
    · rw [heq] at hstep
      cases hstep
    · rw [heq] at hstep
      cases hstep
      refine hquiet _ (Machine.get?_update_same _ _ _) ⟨hcalm, hnext _ _ rfl⟩ ?_ ?_ <;>
        simp [Event.pipedBy, Event.startedBy, hdeeds, Machine.deeds, hfound]
  · rcases Machine.step_pipe hp hlive hprogram with ⟨readFd, writeFd, hread, hwrite, hne, hmade,
      heq⟩ | ⟨hmade, heq⟩
    · rw [heq] at hstep
      cases hstep
      refine ⟨pipes ++ [m.pipes.next], children, ⟨_, Machine.get?_update_same _ _ _, hcalm,
        hnext (.ok (readFd, writeFd)) _ ?_⟩, ?_, ?_, .piped hroom ?_ rfl⟩
      · refine ⟨hread, hwrite, hne, m.pipes.next, ?_⟩
        rw [Table.get?_set_eq_update, Table.get?_set_eq_update]
        rfl
      · simp [Event.pipedBy, hdeeds, Machine.deeds, hmade]
      · simp [Event.startedBy, hdeeds, Machine.deeds, hmade]
      · simp [Machine.Knows, Machine.withPipe, Machine.update]
    · rw [heq] at hstep
      cases hstep
      refine hquiet _ (Machine.get?_update_same _ _ _)
        ⟨hcalm, hnext (.error .tooManyOpen) _ rfl⟩ ?_ ?_ <;>
        simp [Event.pipedBy, Event.startedBy, hdeeds, Machine.deeds, hmade]

theorem Interprets.unopened (h : Interprets base stages Q p pipes children) {deed : Deed}
    (hdeed : deed ∈ m.deeds pid p p.program) (path : Bytes) (access : Access) (handle : Handle) :
    deed ≠ .opened path access handle := by
  rintro rfl
  unfold Machine.deeds at hdeed
  split at hdeed
  · simp at hdeed
  · split at hdeed <;> simp at hdeed
  · rename_i path access next hprogram
    have hhonours := h.honours
    rw [hprogram] at hhonours
    exact hhonours.1
  · split at hdeed <;> simp at hdeed
  · split at hdeed <;> simp at hdeed
  · split at hdeed <;> simp at hdeed
  · exact absurd hdeed List.not_mem_nil

/-- The interpreter keeps to its contract with every step. -/
theorem Interprets.step (hs : m.Sound) (hp : m.processes.get? pid = some p)
    (hlive : p.isLive = true) (h : Interprets base stages Q p pipes children)
    (hstep : m.step pid = some m') :
    ∃ pipes' children', (∃ p', m'.processes.get? pid = some p' ∧
      Interprets base stages Q p' pipes' children') ∧
      pipes' = pipes ++ Event.pipedBy pid (m.events (.turn pid)) ∧
      children' = children ++ Event.startedBy pid (m.events (.turn pid)) ∧
      Advance base stages m m' pid p pipes children pipes' children' := by
  cases hprogram : p.program with
  | done a =>
    simp [Machine.step, hp, hlive, hprogram] at hstep
  | call c next => exact call_step hp hlive h hprogram hstep
  | fork child next =>
    have hdeeds := Machine.deedsOf_events_turn hp
    rw [hprogram] at hdeeds
    obtain ⟨⟨stage, previous, link, rfl, hnext⟩, hhonours⟩ := by
      simpa only [hprogram, Program.Honours] using h.honours
    have hne : pid ≠ m.nextPid := Nat.ne_of_lt (hs.numbered pid p hp).1
    have hkept : (m.fork pid p (stage.process previous link)).2.processes.get? pid = some p :=
      (Table.get?_set_of_ne _ _ hne).trans hp
    rw [Machine.step_fork hp hlive hprogram, Machine.proceed_eq hkept] at hstep
    cases hstep
    refine ⟨pipes, children ++ [m.nextPid],
      ⟨_, Machine.get?_update_same _ _ _, h.calm, hhonours _ _ rfl⟩, ?_, ?_, .started hnext ?_⟩
    · simp [Event.pipedBy, hdeeds, Machine.deeds]
    · simp [Event.startedBy, hdeeds, Machine.deeds]
    · rw [Machine.get?_update_of_ne _ _ hne.symm]
      exact Table.get?_set_same _ _ _
  | transfer t next => exact absurd h.honours (by simp [hprogram, Program.Honours])
  | flood fd block next => exact absurd h.honours (by simp [hprogram, Program.Honours])

end

end Pipeline

namespace Stage

def Foreign (m : Machine α) (pipes : List Nat) (handle : Handle) : Prop :=
  m.Knows handle ∧ ∀ n ∈ pipes, handle ≠ .readEnd n ∧ handle ≠ .writeEnd n

/-- Whether the descriptors of a process lead as said, save the one of a fifo that it is just
opening. -/
def Holds (foreign : Handle → Prop) (p : Process α) (wires : Wires) : Prop :=
  match p.rendezvous? with
  | none => p.descriptors.get? = wires
  | some r =>
    (∃ path access next, p.program = .call (.openFile path access) next) ∧ wires r.fd = none ∧
      ∃ handle, foreign handle ∧ p.descriptors.get? = Function.update wires r.fd (some handle)

/-- What the process of a stage is before its program runs: it keeps to its contract, and the files
that it has opened are not pipes of the pipeline. -/
structure Prepares (base : Wires) (stage : Stage) (before behind : Option Nat)
    (foreign : Handle → Prop) (p : Process α) (opened : List Opening) : Prop where
  honours : ∃ wires, Holds foreign p wires ∧
    p.program.Honours (contract base stage before behind) (fun _ _ => False) ⟨wires, opened⟩
  opened : ∀ o ∈ opened, foreign o.handle

section

variable {base : Wires} {stage : Stage} {before behind : Option Nat} {m m' : Machine α} {q : Pid}
  {p : Process α} {pipes : List Nat} {opened : List Opening}

theorem Foreign.mono {handle : Handle} (h : Foreign m pipes handle)
    (hknows : ∀ handle, m.Knows handle → m'.Knows handle) : Foreign m' pipes handle :=
  ⟨hknows _ h.1, h.2⟩

theorem Holds.mono {foreign foreign' : Handle → Prop} {wires : Wires} (h : Holds foreign p wires)
    (hforeign : ∀ handle, foreign handle → foreign' handle) : Holds foreign' p wires := by
  unfold Holds at h ⊢
  split at h
  · exact h
  · obtain ⟨hcall, hfree, handle, hhandle, heq⟩ := h
    exact ⟨hcall, hfree, handle, hforeign handle hhandle, heq⟩

theorem Prepares.mono {foreign foreign' : Handle → Prop}
    (h : Prepares base stage before behind foreign p opened)
    (hforeign : ∀ handle, foreign handle → foreign' handle) :
    Prepares base stage before behind foreign' p opened := by
  obtain ⟨⟨wires, hholds, hhonours⟩, hopened⟩ := h
  exact ⟨⟨wires, hholds.mono hforeign, hhonours⟩, fun o ho => hforeign _ (hopened o ho)⟩

theorem Prepares.same {foreign : Handle → Prop} {p' : Process α}
    (h : Prepares base stage before behind foreign p opened)
    (hsame : p.Same p') : Prepares base stage before behind foreign p' opened := by
  obtain ⟨parent, stopped, rfl⟩ := hsame
  exact ⟨h.honours, h.opened⟩

private theorem foreign_of_hasPath {m₁ : Machine α} {handle : Handle} (hs : Machine.Stores m m₁)
    (hpipes : ∀ n ∈ pipes, m.Knows (.readEnd n) ∧ ∀ id, m.fifos.get? id ≠ some n)
    (h : m₁.HasPath handle) :
    Foreign m₁ pipes handle := by
  have hanonymous : ∀ n ∈ pipes, ∀ id, m₁.fifos.get? id ≠ some n := fun n hn =>
    (Machine.Effect.storage (q := 0) hs).anonymous (hpipes n hn).1 (hpipes n hn).2
  cases handle with
  | file number => exact ⟨h, fun n _ => ⟨by simp, by simp⟩⟩
  | readEnd number =>
    obtain ⟨hknown, id, hid⟩ := h
    refine ⟨hknown, fun n hn => ⟨?_, by simp⟩⟩
    rintro ⟨⟩
    exact hanonymous _ hn id hid
  | writeEnd number =>
    obtain ⟨hknown, id, hid⟩ := h
    refine ⟨hknown, fun n hn => ⟨by simp, ?_⟩⟩
    rintro ⟨⟩
    exact hanonymous _ hn id hid

private theorem opened_step (hp : m.processes.get? q = some p) (hloaded : p.loaded = false)
    (hopened : ∀ o ∈ opened, Foreign m' pipes o.handle) {path : Bytes} {access : Access}
    {handle : Handle} (hhandle : Foreign m' pipes handle) {p' : Process α}
    (hp' : m'.processes.get? q = some p') (hnone : p'.rendezvous? = none)
    (hhonours : p'.program.Honours (contract base stage before behind) (fun _ _ => False)
      ⟨p'.descriptors.get?, opened ++ [⟨path, access, handle⟩]⟩)
    (hdeeds : m.deeds q p p.program = [.opened path access handle]) :
    (∃ p', m'.processes.get? q = some p' ∧ Prepares base stage before behind (Foreign m' pipes) p'
      (opened ++ Event.preparations q (m.events (.turn q)))) ∧
    ∀ e ∈ m.events (.turn q), ∃ handle, e.deed = .opened path access handle := by
  rw [Machine.events_turn hp, hloaded, hdeeds]
  refine ⟨⟨p', hp', ⟨p'.descriptors.get?, by simp only [Holds, hnone], ?_⟩, ?_⟩, by simp⟩
  · rwa [List.map_cons, List.map_nil, Event.preparations_opened]
  · intro o ho
    rw [List.map_cons, List.map_nil, Event.preparations_opened, List.mem_append,
      List.mem_singleton] at ho
    rcases ho with ho | rfl
    · exact hopened o ho
    · exact hhandle

private theorem openFile_step (hp : m.processes.get? q = some p) (hlive : p.isLive = true)
    (hloaded : p.loaded = false)
    (hpipes : ∀ n ∈ pipes, m.Knows (.readEnd n) ∧ ∀ id, m.fifos.get? id ≠ some n) {wires : Wires}
    (hholds : Holds (Foreign m pipes) p wires) (hopened : ∀ o ∈ opened, Foreign m' pipes o.handle)
    {path : Bytes} {access : Access} {next : Except Errno Fd → Program α}
    (hprogram : p.program = .call (.openFile path access) next)
    (hhonours : p.program.Honours (contract base stage before behind) (fun _ _ => False) ⟨wires,
      opened⟩) (hstep : m.step q = some m') :
    (∃ p', m'.processes.get? q = some p' ∧ Prepares base stage before behind (Foreign m' pipes) p'
      (opened ++ Event.preparations q (m.events (.turn q)))) ∧
    ∀ e ∈ m.events (.turn q), ∃ handle, e.deed = .opened path access handle := by
  have hknows (handle : Handle) (hk : m.Knows handle) : m'.Knows handle :=
    Machine.move_knows (show m.move (.turn q) = some m' from hstep) hk
  have hevents := Machine.events_turn hp
  rw [hloaded] at hevents
  have hnext : ∀ reply g',
      (contract base stage before behind).gives ⟨wires, opened⟩ (.openFile path access) reply g' →
      (next reply).Honours (contract base stage before behind) (fun _ _ => False) g' := by
    rw [hprogram] at hhonours
    exact hhonours.2
  unfold Holds at hholds
  rcases Machine.step_openFile hp hlive hprogram hstep with ⟨r, hr, rfl, hdeeds⟩ | ⟨hnone,
    m₁, hstores, hrest⟩
  · rw [hr] at hholds
    obtain ⟨-, hfree, handle, hhandle, hdescriptors⟩ := hholds
    have hget : p.descriptors.get? r.fd = some handle := by rw [hdescriptors, Function.update_self]
    refine opened_step hp hloaded hopened (hhandle.mono hknows) (Machine.get?_update_same _ _ _) rfl
      (hnext _ _ ⟨handle, hfree, by rw [hdescriptors]⟩) ?_
    rw [hdeeds, hget]
    rfl
  · rw [hnone] at hholds
    dsimp only at hholds
    rcases hrest with ⟨e, rfl, hdeeds⟩ | ⟨fd, handle, seen, hfree, hpath, rfl, hdeeds⟩ |
      ⟨fd, handle, hfree, hpath, rfl, hdeeds⟩
    · rw [hdeeds] at hevents
      rw [hevents]
      refine ⟨⟨_, Machine.get?_update_same _ _ _, ⟨wires, ?_, ?_⟩, ?_⟩, by simp⟩
      · simp only [Holds, hnone]
        exact hholds
      · simpa using hnext (.error e) _ rfl
      · simpa using hopened
    · have hforeign : Foreign m₁ pipes handle := foreign_of_hasPath hstores hpipes hpath
      rw [hdeeds] at hevents
      rw [hevents]
      refine ⟨⟨_, Machine.get?_update_same _ _ _, ⟨wires, ?_, ?_⟩, ?_⟩, by simp⟩
      · refine ⟨⟨path, access, next, hprogram⟩, by rw [← hholds]; exact hfree, handle, ?_, ?_⟩
        · exact hforeign.mono fun h hk => by cases h <;> exact hk
        · rw [Table.get?_set_eq_update, hholds]
      · simpa using hhonours
      · simpa using hopened
    · have hforeign : Foreign m₁ pipes handle := foreign_of_hasPath hstores hpipes hpath
      refine opened_step hp hloaded hopened (hforeign.mono fun h hk => by cases h <;> exact hk)
        (Machine.get?_update_same _ _ _) hnone (hnext _ _ ⟨handle, ?_, ?_⟩) hdeeds
      · rw [← hholds]
        exact hfree
      · rw [Table.get?_set_eq_update, hholds]

/-- What a step leaves of the process of a stage that has opened nothing by it. -/
private def Proceeds (base : Wires) (stage : Stage) (before behind : Option Nat) (m : Machine α)
    (q : Pid) (opened : List Opening) : Prop :=
  ∃ p, m.processes.get? q = some p ∧ (p.ending?.isSome ∨ p.loaded = true ∨ p.rendezvous? = none ∧
    p.program.Honours (contract base stage before behind) (fun _ _ => False) ⟨p.descriptors.get?,
      opened⟩)

private theorem duplicate_proceeds (hp : m.processes.get? q = some p) (hlive : p.isLive = true)
    (hnone : p.rendezvous? = none) {source target : Fd} {next : Except Errno Unit → Program α}
    (hprogram : p.program = .call (.duplicate source target) next)
    (hhonours : p.program.Honours
      (contract base stage before behind) (fun _ _ => False) ⟨p.descriptors.get?, opened⟩)
    (hstep : m.step q = some m') : Proceeds base stage before behind m' q opened := by
  rw [hprogram] at hhonours
  rcases Machine.step_duplicate hp hlive hprogram with ⟨handle, hsource, -, heq⟩ | ⟨-, heq⟩
  · rw [heq] at hstep
    cases hstep
    refine ⟨_, Machine.get?_update_same _ _ _,
      .inr (.inr ⟨hnone, hhonours.2 (.ok ()) _ ⟨handle, hsource, ?_⟩⟩)⟩
    rw [Table.get?_set_eq_update]
  · rw [heq] at hstep
    cases hstep
    exact ⟨_, Machine.get?_update_same _ _ _,
      .inr (.inr ⟨hnone, hhonours.2 (.error .badDescriptor) _ rfl⟩)⟩

private theorem write_proceeds (hp : m.processes.get? q = some p) (hlive : p.isLive = true)
    (hnone : p.rendezvous? = none) {fd : Fd} {data : Bytes} {next : Except Errno Unit → Program α}
    (hprogram : p.program = .call (.write fd data) next)
    (hhonours : p.program.Honours
      (contract base stage before behind) (fun _ _ => False) ⟨p.descriptors.get?, opened⟩)
    (hstep : m.step q = some m') : Proceeds base stage before behind m' q opened := by
  obtain ⟨m₁, hstores, ⟨count, rfl⟩ | ⟨count, reply, rfl⟩ | rfl⟩ :=
    Machine.step_write hp hlive hprogram hstep
  · exact ⟨_, Machine.get?_update_same _ _ _, .inr (.inr ⟨hnone, hhonours⟩)⟩
  · rw [hprogram] at hhonours
    exact ⟨_, Machine.get?_update_same _ _ _, .inr (.inr ⟨hnone, hhonours.2 reply _ rfl⟩)⟩
  · have hfinish := Machine.get?_finish m₁ q q (.killed Signal.pipe.number)
    rw [if_pos rfl, hstores.processes, hp] at hfinish
    exact ⟨_, hfinish, .inl rfl⟩

private theorem exec_proceeds (hp : m.processes.get? q = some p) (hlive : p.isLive = true)
    (hnone : p.rendezvous? = none) {arguments : List Bytes} {next : Errno → Program α}
    (hprogram : p.program = .call (.exec arguments) next)
    (hhonours : p.program.Honours
      (contract base stage before behind) (fun _ _ => False) ⟨p.descriptors.get?, opened⟩)
    (hstep : m.step q = some m') : Proceeds base stage before behind m' q opened := by
  rw [hprogram] at hhonours
  rcases Machine.step_exec hp hlive hprogram with ⟨e, heq⟩ | ⟨program, heq⟩
  · rw [heq] at hstep
    cases hstep
    exact ⟨_, Machine.get?_update_same _ _ _, .inr (.inr ⟨hnone, hhonours.2 e _ rfl⟩)⟩
  · rw [heq] at hstep
    cases hstep
    exact ⟨_, Machine.get?_update_same _ _ _, .inr (.inl rfl)⟩

private theorem call_proceeds (hp : m.processes.get? q = some p) (hlive : p.isLive = true)
    (hnone : p.rendezvous? = none) {c : Call} {next : c.Reply → Program α}
    (hprogram : p.program = .call c next) (hopens : ∀ path access, c ≠ .openFile path access)
    (hhonours : p.program.Honours (contract base stage before behind) (fun _ _ => False)
      ⟨p.descriptors.get?, opened⟩) (hstep : m.step q = some m') :
    Proceeds base stage before behind m' q opened ∧ m.deeds q p p.program = [] := by
  have hcall := hhonours
  rw [hprogram] at hcall
  obtain ⟨hmay, hnext⟩ := hcall
  cases c with
  | close fd =>
    rw [Machine.step_close hp hlive hprogram] at hstep
    cases hstep
    refine ⟨⟨_, Machine.get?_update_same _ _ _, .inr (.inr ⟨hnone, hnext () _ ?_⟩)⟩,
      by rw [hprogram]; rfl⟩
    rw [Table.get?_erase_eq_update]
    rfl
  | duplicate source target =>
    exact ⟨duplicate_proceeds hp hlive hnone hprogram hhonours hstep, by rw [hprogram]; rfl⟩
  | write fd data =>
    exact ⟨write_proceeds hp hlive hnone hprogram hhonours hstep, by rw [hprogram]; rfl⟩
  | exit code =>
    rw [Machine.step_exit hp hlive hprogram] at hstep
    cases hstep
    have hfinish := Machine.get?_finish m q q (.exited code)
    rw [if_pos rfl, hp] at hfinish
    exact ⟨⟨_, hfinish, .inl rfl⟩, by rw [hprogram]; rfl⟩
  | exec arguments =>
    exact ⟨exec_proceeds hp hlive hnone hprogram hhonours hstep, by rw [hprogram]; rfl⟩
  | openFile path access => exact absurd rfl (hopens path access)
  | _ => exact hmay.elim

private theorem Holds.calm {foreign : Handle → Prop} {wires : Wires} (h : Holds foreign p wires)
    {c : Call} {next : c.Reply → Program α} (hprogram : p.program = .call c next)
    (hopens : ∀ path access, c ≠ .openFile path access) :
    p.rendezvous? = none ∧ p.descriptors.get? = wires := by
  unfold Holds at h
  split at h
  · next hnone => exact ⟨hnone, h⟩
  · obtain ⟨⟨path, access, next', heq⟩, -⟩ := h
    rw [hprogram] at heq
    cases heq
    exact absurd rfl (hopens path access)

private theorem Proceeds.prepares (h : Proceeds base stage before behind m' q opened)
    (hopened : ∀ o ∈ opened, Foreign m' pipes o.handle) : ∃ p', m'.processes.get? q = some p' ∧
      (p'.ending?.isSome ∨ p'.loaded = true ∨
        Prepares base stage before behind (Foreign m' pipes) p' opened) := by
  obtain ⟨p', hp', hend | hload | ⟨hnone, hhonours⟩⟩ := h
  · exact ⟨p', hp', .inl hend⟩
  · exact ⟨p', hp', .inr (.inl hload)⟩
  · exact ⟨p', hp',
      .inr (.inr ⟨⟨p'.descriptors.get?, by simp only [Holds, hnone], hhonours⟩, hopened⟩)⟩

/-- The process of a stage keeps to its contract with every step, until it ends or a program was
loaded. -/
theorem Prepares.step (hp : m.processes.get? q = some p) (hlive : p.isLive = true)
    (hloaded : p.loaded = false)
    (hpipes : ∀ n ∈ pipes, m.Knows (.readEnd n) ∧ ∀ id, m.fifos.get? id ≠ some n)
    (h : Prepares base stage before behind (Foreign m pipes) p opened)
    (hstep : m.step q = some m') :
    (∃ p', m'.processes.get? q = some p' ∧ (p'.ending?.isSome ∨ p'.loaded = true ∨
      Prepares base stage before behind (Foreign m' pipes) p'
        (opened ++ Event.preparations q (m.events (.turn q))))) ∧
    ∀ e ∈ m.events (.turn q), ∃ path access handle, e.deed = .opened path access handle ∧
      stage.MayOpen before behind path access := by
  obtain ⟨⟨wires, hholds, hhonours⟩, hopened⟩ := h
  have hforeign : ∀ o ∈ opened, Foreign m' pipes o.handle := fun o ho =>
    (hopened o ho).mono fun _ hk =>
      Machine.move_knows (show m.move (.turn q) = some m' from hstep) hk
  have hcontract := hhonours
  cases hprogram : p.program with
  | done a => simp [hprogram, Program.Honours] at hcontract
  | fork child next => simp [hprogram, Program.Honours, contract] at hcontract
  | transfer t next => simp [hprogram, Program.Honours] at hcontract
  | flood fd block next => simp [hprogram, Program.Honours] at hcontract
  | call c next =>
    rw [hprogram] at hcontract
    by_cases hopens : ∃ path access, c = .openFile path access
    · obtain ⟨path, access, rfl⟩ := hopens
      obtain ⟨⟨p', hp', hprepares⟩, hdeeds⟩ :=
        openFile_step hp hlive hloaded hpipes hholds hforeign hprogram hhonours hstep
      refine ⟨⟨p', hp', .inr (.inr hprepares)⟩, fun e he => ?_⟩
      obtain ⟨handle, heq⟩ := hdeeds e he
      exact ⟨path, access, handle, heq, hcontract.1.1⟩
    · -- only the opening of a path leaves a deed behind
      have hother : ∀ path access, c ≠ .openFile path access :=
        fun path access heq => hopens ⟨path, access, heq⟩
      obtain ⟨hnone, rfl⟩ := hholds.calm hprogram hother
      obtain ⟨hproceeds, hdeeds⟩ := call_proceeds hp hlive hnone hprogram hother hhonours hstep
      have hevents := Machine.events_turn hp
      rw [hdeeds, List.map_nil] at hevents
      rw [hevents, Event.preparations_nil, List.append_nil]
      exact ⟨hproceeds.prepares hforeign, fun e he => absurd he List.not_mem_nil⟩

end

end Stage

end PipeShell
