import PipeShell.Proofs.Job.Descriptors
import PipeShell.Proofs.Session.Frame
import PipeShell.Proofs.System.Schedule

/-!
The interpreter as a process of a machine. Whatever the other processes do meanwhile, it goes
through a course of its program, with the answers that the machine gives; it changes its directory
only by entering another one, and leaves only by a call, unless somebody kills it.
-/

set_option autoImplicit false
set_option relaxedAutoImplicit false

namespace PipeShell

open Program

variable {α : Type}

def Call.Interactive : Call → Prop
  | .pipe | .close _ | .waitFor _ | .poll _ | .write .. | .change (.enter _)
    | .exit _ | .note _ => True
  | _ => False

theorem Pipeline.Manages.interactive {c : Call} (h : Manages c) : c.Interactive := by
  cases c with
  | note | close | waitFor | pipe => trivial
  | _ => exact h.elim

namespace Directory

theorem enter_interactive (target : String) :
    (enter target).Confined Call.Interactive False fun _ => True := by
  unfold enter
  split
  · trivial
  · exact confined_ask trivial fun _ => trivial

theorem change_interactive (target : String) :
    (change target).Confined Call.Interactive False fun _ => True := by
  refine .bind (confined_act trivial (.bind ((enter_interactive target).imp fun r _ => ?_)))
  cases r with
  | ok => trivial
  | error => exact .bind (confined_act trivial trivial)

end Directory

theorem Action.execute_interactive (action : Action) (background : Background) :
    (action.execute background).Confined Call.Interactive True fun _ => True := by
  cases action with
  | nothing =>
    exact (nothing_manages background).mono (fun _ => Pipeline.Manages.interactive) False.elim
      fun _ _ => trivial
  | exit => exact .bind (confined_act trivial ⟨trivial, fun e => e.elim⟩)
  | changeDirectory target =>
    refine .bind (confined_act trivial (.bind ?_))
    exact (Directory.change_interactive target).mono (fun _ => id) False.elim fun _ _ => trivial
  | run p =>
    exact (p.execute_manages background).mono (fun _ => Pipeline.Manages.interactive) id
      fun _ _ => trivial

theorem Background.reap_stays (b : Background) :
    b.reap.Confined (fun c => c.Interactive ∧ c.Stays) True fun _ => True := by
  have hasks (pid : Pid) :
      (stillRuns pid).Confined (fun c => c.Interactive ∧ c.Stays) True fun _ => True := by
    refine .bind (confined_ask ⟨trivial, fun _ => by simp⟩ fun reply => ?_)
    split
    · trivial
    · trivial
    · exact .bind (confined_act ⟨trivial, fun _ => by simp⟩ trivial)
    · exact .bind (confined_act ⟨trivial, fun _ => by simp⟩ trivial)
  have hkeep (pids : List Pid) :
      (keepRunning pids).Confined (fun c => c.Interactive ∧ c.Stays) True fun _ => True := by
    induction pids with
    | nil => trivial
    | cons pid rest ih =>
      exact .bind ((hasks pid).imp fun keep _ => .bind (ih.imp fun kept _ => trivial))
  exact .bind ((hkeep b.pids).imp fun _ _ => trivial)

def ReportsBytes (past : List (Exchange α)) : Prop :=
  ∀ child pid code, .called (.waitFor child) (some (.ok (.exited pid code))) ∈ past →
    0 ≤ code ∧ code ≤ 255

theorem ReportsBytes.snoc {past : List (Exchange α)} {e : Exchange α} (h : ReportsBytes past)
    (he : ∀ child pid code, e = .called (.waitFor child) (some (.ok (.exited pid code))) →
      0 ≤ code ∧ code ≤ 255) :
    ReportsBytes (past ++ [e]) := by
  intro child pid code hmem
  rcases List.mem_append.mp hmem with hmem | hmem
  · exact h child pid code hmem
  · exact he child pid code (List.mem_singleton.mp hmem).symm

theorem Ending.report_byte {child pid : Pid} {code : Int} {e : Ending}
    (h : e.report child = .ok (.exited pid code)) : 0 ≤ code ∧ code ≤ 255 := by
  cases e with
  | exited byte =>
    cases h
    have := byte.toNat_lt
    omega
  | killed number =>
    simp only [report] at h
    split at h <;> cases h

namespace Machine

/-- What has become of a process that carries out a program, told from what it has exchanged with
the system. -/
structure Follows (x : Program α) (home : NodeId) (p : Process α)
    (past : List (Exchange α)) : Prop where
  enters : p.directory ≠ home → Enters past
  bytes : ReportsBytes past
  goes : (∀ code, p.ending? ≠ some (.exited code)) →
    p.program.Confined Call.Interactive True (fun _ => True) ∧ x.Leaves past p.program
  left : ∀ code, p.ending? = some (.exited code) →
    Course x past none ∧ .called (.exit code) none ∈ past ∧ ∀ a, p.program ≠ .done a

namespace Follows

variable {x : Program α} {home : NodeId} {p p' : Process α} {past : List (Exchange α)}
  {m m' : Machine α} {pid : Pid}

theorem start {x : Program α} (hx : x.Confined Call.Interactive True fun _ => True)
    (hprogram : p.program = x) (hlive : p.ending? = none) : Follows x p.directory p [] where
  enters h := absurd rfl h
  bytes _ _ _ hmem := absurd hmem List.not_mem_nil
  goes _ := ⟨hprogram ▸ hx, fun _ _ hcourse => hprogram ▸ hcourse⟩
  left code h := absurd (hlive.symm.trans h) (by simp)

theorem lives (h : Follows x home p past) (hlive : p.ending? = none) :
    p.program.Confined Call.Interactive True (fun _ => True) ∧ x.Leaves past p.program :=
  h.goes fun _ hleft => absurd (hlive.symm.trans hleft) (by simp)

theorem course (h : Follows x home p past) : Course x past none := by
  by_cases hleft : ∃ code, p.ending? = some (.exited code)
  · obtain ⟨code, hleft⟩ := hleft
    exact (h.left code hleft).1
  · have := (h.goes (not_exists.mp hleft)).2 [] none (.started _)
    rwa [List.append_nil] at this

theorem course_done (h : Follows x home p past) {a : α} (hdone : p.program = .done a) :
    Course x past (some a) := by
  have hstays (code : UInt8) (hleft : p.ending? = some (.exited code)) : False :=
    (h.left code hleft).2.2 a hdone
  have := (h.goes hstays).2 [] (some a) (hdone ▸ .done a)
  rwa [List.append_nil] at this

theorem same (h : Follows x home p past) (hprogram : p'.program = p.program)
    (hdirectory : p'.directory = p.directory) (hending : p'.ending? = p.ending?) :
    Follows x home p' past := by
  refine ⟨hdirectory ▸ h.enters, h.bytes, ?_, ?_⟩
  · rw [hprogram, hending]
    exact h.goes
  · rw [hprogram, hending]
    exact h.left

theorem struck (h : Follows x home p past) (hstays : ∀ code, p.ending? ≠ some (.exited code))
    (hstruck : p.Struck p') : Follows x home p' past := by
  obtain ⟨hdirectory, hprogram, number, hkilled⟩ := hstruck
  refine ⟨hdirectory ▸ h.enters, h.bytes, fun _ => hprogram ▸ h.goes hstays, fun code hleft => ?_⟩
  exact absurd (hleft.symm.trans hkilled) (by simp)

private theorem exchange (h : Follows x home p past) (hlive : p'.ending? = none) {e : Exchange α}
    (hconfined : p'.program.Confined Call.Interactive True fun _ => True)
    (hleaves : x.Leaves (past ++ [e]) p'.program)
    (henters : p'.directory ≠ p.directory → Enters [e])
    (hbytes : ∀ child pid code, e = .called (.waitFor child) (some (.ok (.exited pid code))) →
      0 ≤ code ∧ code ≤ 255) :
    Follows x home p' (past ++ [e]) where
  enters hne := by
    by_cases hmoved : p'.directory = p.directory
    · obtain ⟨path, hmem⟩ := h.enters (hmoved ▸ hne)
      exact ⟨path, List.mem_append_left _ hmem⟩
    · obtain ⟨path, hmem⟩ := henters hmoved
      exact ⟨path, List.mem_append_right _ hmem⟩
  bytes := h.bytes.snoc hbytes
  goes _ := ⟨hconfined, hleaves⟩
  left code hleft := absurd (hlive.symm.trans hleft) (by simp)

theorem answered {c : Call} {next : c.Reply → Program α} (h : Follows x home p past)
    (hprogram : p.program = .call c next) (hlive : p.ending? = none) (reply : c.Reply)
    (hgone : p'.program = resume c next reply) (hlive' : p'.ending? = none)
    (henters : p'.directory ≠ p.directory → Enters [(.called c (some reply) : Exchange α)])
    (hbytes : ∀ child pid code, (.called c (some reply) : Exchange α) =
      .called (.waitFor child) (some (.ok (.exited pid code))) → 0 ≤ code ∧ code ≤ 255) :
    Follows x home p' (past ++ [.called c (some reply)]) := by
  obtain ⟨hconfined, hleaves⟩ := h.lives hlive
  rw [hprogram] at hconfined hleaves
  refine h.exchange hlive' ?_ (hgone ▸ hleaves.answered reply) henters hbytes
  rw [hgone, resume]
  split
  · exact hconfined
  · exact hconfined.2 reply

section Calls

variable (h : Follows x home p past) (hp : m.processes.get? pid = some p) (hlive : p.isLive = true)

include h hp hlive

private theorem write_call {fd : Fd} {data : Bytes} {next : Except Errno Unit → Program α}
    (hprogram : p.program = .call (.write fd data) next) (hstep : m.step pid = some m') :
    ∃ p' past', m'.processes.get? pid = some p' ∧ Follows x home p' past' := by
  have hending := (isLive_iff.mp hlive).1
  obtain ⟨m₁, hstores, ⟨count, rfl⟩ | ⟨count, reply, rfl⟩ | rfl⟩ :=
    step_write hp hlive hprogram hstep
  · exact ⟨_, past, get?_update_same _ _ _, h.same rfl rfl rfl⟩
  · exact ⟨_, _, get?_update_same _ _ _, h.answered hprogram hending reply rfl hending
      (fun hne => absurd rfl hne) fun _ _ _ heq => by cases heq⟩
  · have hkilled := get?_finish m₁ pid pid (.killed Signal.pipe.number)
    rw [if_pos rfl, hstores.processes, hp] at hkilled
    obtain ⟨hdirectory, hprogram'⟩ := p.orphan_keeps pid
    refine ⟨_, past, hkilled, h.struck (fun code hleft => ?_) ⟨hdirectory, hprogram', _, rfl⟩⟩
    exact absurd (hending.symm.trans hleft) (by simp)

private theorem exit_call {code : UInt8} {next : (Call.exit code).Reply → Program α}
    (hprogram : p.program = .call (.exit code) next) (hstep : m.step pid = some m') :
    ∃ p' past', m'.processes.get? pid = some p' ∧ Follows x home p' past' := by
  have hleaves := (h.lives (isLive_iff.mp hlive).1).2
  rw [hprogram] at hleaves
  cases (step_exit hp hlive hprogram).symm.trans hstep
  have hended := get?_finish m pid pid (.exited code)
  rw [if_pos rfl, hp] at hended
  obtain ⟨hdirectory, hprogram'⟩ := p.orphan_keeps pid
  refine ⟨_, past ++ [.called (.exit code) none], hended, fun hne => ?_, ?_, fun hstays => ?_,
    fun code' hcode => ?_⟩
  · obtain ⟨path, hmem⟩ := h.enters (hdirectory ▸ hne)
    exact ⟨path, List.mem_append_left _ hmem⟩
  · exact h.bytes.snoc fun _ _ _ heq => by cases heq
  · exact absurd rfl (hstays code)
  · cases hcode
    refine ⟨hleaves _ _ (.awaiting _ _), List.mem_append_right _ List.mem_cons_self,
      fun a hdone => ?_⟩
    cases (hprogram'.trans hprogram).symm.trans hdone

private theorem call {c : Call} {next : c.Reply → Program α}
    (hprogram : p.program = .call c next) (hstep : m.step pid = some m') :
    ∃ p' past', m'.processes.get? pid = some p' ∧ Follows x home p' past' := by
  have hending := (isLive_iff.mp hlive).1
  have hconfined := (h.lives hending).1
  rw [hprogram] at hconfined
  -- an answer that leaves the process where it is and tells no code
  have hgoes (reply : c.Reply) (p' : Process α) (hp' : m'.processes.get? pid = some p')
      (hgone : p'.program = resume c next reply) (hdirectory : p'.directory = p.directory)
      (hending' : p'.ending? = none)
      (hbytes : ∀ child pid code, (.called c (some reply) : Exchange α) =
        .called (.waitFor child) (some (.ok (.exited pid code))) → 0 ≤ code ∧ code ≤ 255) :
      ∃ p' past', m'.processes.get? pid = some p' ∧ Follows x home p' past' :=
    ⟨p', _, hp', h.answered hprogram hending reply hgone hending'
      (fun hne => absurd hdirectory hne) hbytes⟩
  cases c with
  | note r =>
    obtain ⟨m₁, count, -, rfl | rfl⟩ := step_note hp hlive hprogram hstep
    · exact ⟨_, past, get?_update_same _ _ _, h.same rfl rfl rfl⟩
    · exact hgoes () _ (get?_update_same _ _ _) rfl rfl hending fun _ _ _ heq => by cases heq
  | write fd data => exact h.write_call hp hlive hprogram hstep
  | pipe =>
    rcases step_pipe hp hlive hprogram with ⟨readFd, writeFd, -, -, -, -, heq⟩ | ⟨-, heq⟩
    · cases heq.symm.trans hstep
      exact hgoes (.ok (readFd, writeFd)) _ (get?_update_same _ _ _) rfl rfl hending
        fun _ _ _ heq => by cases heq
    · cases heq.symm.trans hstep
      exact hgoes (.error .tooManyOpen) _ (get?_update_same _ _ _) rfl rfl hending
        fun _ _ _ heq => by cases heq
  | close fd =>
    cases (step_close hp hlive hprogram).symm.trans hstep
    exact hgoes () _ (get?_update_same _ _ _) rfl rfl hending fun _ _ _ heq => by cases heq
  | waitFor child =>
    rcases step_waitFor hp hlive hprogram with ⟨c, e, -, -, -, -, heq⟩ | ⟨c, -, -, -,
      heq⟩ | ⟨-, -, heq⟩
    · cases heq.symm.trans hstep
      refine hgoes (e.report child) _ (get?_update_same _ _ _) ?_ rfl hending fun _ _ _ heq => ?_
      · exact (resume_of_ne (report_not_interrupted child e)).symm
      · obtain ⟨hcall, hreply⟩ := Exchange.called.inj heq
        cases hcall
        exact Ending.report_byte (Option.some.inj (eq_of_heq hreply))
    · cases heq.symm.trans hstep
    · cases heq.symm.trans hstep
      exact hgoes (.error .noChild) _ (get?_update_same _ _ _) rfl rfl hending
        fun _ _ _ heq => by cases heq
  | poll child =>
    rcases step_poll hp hlive hprogram with ⟨c, e, -, -, -, heq⟩ | ⟨reply, -, heq⟩
    · cases heq.symm.trans hstep
      exact hgoes (e.report child) _ (get?_update_same _ _ _) rfl rfl hending
        fun _ _ _ heq => by cases heq
    · cases heq.symm.trans hstep
      exact hgoes reply _ (get?_update_same _ _ _) rfl rfl hending fun _ _ _ heq => by cases heq
  | change c =>
    cases c with
    | enter path =>
      rcases step_enter hp hlive hprogram with ⟨id, heq⟩ | ⟨e, heq⟩
      · cases heq.symm.trans hstep
        exact ⟨_, _, get?_update_same _ _ _, h.answered hprogram hending (.ok ()) rfl hending
          (fun _ => ⟨path, List.mem_cons_self⟩) fun _ _ _ heq => by cases heq⟩
      · cases heq.symm.trans hstep
        exact hgoes (.error e) _ (get?_update_same _ _ _) rfl rfl hending
          fun _ _ _ heq => by cases heq
    | _ => exact hconfined.1.elim
  | exit code => exact h.exit_call hp hlive hprogram hstep
  | _ => exact hconfined.1.elim

end Calls

theorem turn (h : Follows x home p past) (hs : m.Sound) (hp : m.processes.get? pid = some p)
    (hstep : m.step pid = some m') :
    ∃ p' past', m'.processes.get? pid = some p' ∧ Follows x home p' past' := by
  obtain ⟨p₁, hp₁, hending, hstopped⟩ := step_live hstep
  cases hp.symm.trans hp₁
  have hlive := isLive_iff.mpr ⟨hending, hstopped⟩
  obtain ⟨hconfined, hleaves⟩ := h.lives hending
  cases hprogram : p.program with
  | done a => simp [step, hp, hlive, hprogram] at hstep
  | call c next => exact h.call hp hlive hprogram hstep
  | fork child next =>
    rw [hprogram] at hconfined hleaves
    have hne : pid ≠ m.nextPid := Nat.ne_of_lt (hs.numbered pid p hp).1
    have hkept : (m.fork pid p child).2.processes.get? pid = some p :=
      (Table.get?_set_of_ne _ _ hne).trans hp
    rw [step_fork hp hlive hprogram, proceed_eq hkept] at hstep
    cases hstep
    refine ⟨_, past ++ [.forked child (.ok m.nextPid)], get?_update_same _ _ _, ?_⟩
    refine h.exchange ?_ (hconfined.2 _) (hleaves.forked (.ok m.nextPid))
      (fun hne => absurd rfl hne) ?_
    · exact hending
    · intro _ _ _ heq
      cases heq
  | transfer t next =>
    rw [hprogram] at hconfined
    exact hconfined.elim
  | flood fd block next =>
    rw [hprogram] at hconfined
    exact hconfined.elim

theorem interrupted (h : Follows x home p past) (hp : m.processes.get? pid = some p)
    (hmove : m.interrupt pid = some m') :
    ∃ p' past', m'.processes.get? pid = some p' ∧ Follows x home p' past' := by
  obtain ⟨p₁, hp₁, hlive, ⟨child, next, hprogram, rfl⟩ | ⟨child, next, hprogram, rfl⟩⟩ :=
    interrupt_cases hmove
  · cases hp.symm.trans hp₁
    exact ⟨p, past, get?_update_same _ _ _, h⟩
  · cases hp.symm.trans hp₁
    have hending := (isLive_iff.mp hlive).1
    exact ⟨_, _, get?_update_same _ _ _, h.answered hprogram hending
      (.error .interrupted) rfl hending (fun hne => absurd rfl hne) fun _ _ _ heq => by cases heq⟩

end Follows

/-- In every run of a machine its first process goes through a course of what it carries out. -/
theorem Rooted.follows {m₀ m : Machine α} {pid : Pid} {p₀ p : Process α} {es : List Event}
    (h : m₀.Rooted pid) (hp₀ : m₀.processes.get? pid = some p₀) (hlive : p₀.ending? = none)
    (hx : p₀.program.Confined Call.Interactive True fun _ => True) (hrun : m₀.Run es m)
    (hp : m.processes.get? pid = some p) : ∃ past, Follows p₀.program p₀.directory p past := by
  induction hrun generalizing p with
  | start =>
    cases hp₀.symm.trans hp
    exact ⟨[], .start hx rfl hlive⟩
  | @move es m₁ m₂ hrun mv hmove ih =>
    have hrooted := h.run hrun
    obtain ⟨p₁, hp₁, -⟩ := hrooted.present
    obtain ⟨past, hfollows⟩ := ih hp₁
    by_cases hactor : mv.actor? = some pid
    · obtain ⟨p₂, past₂, hp₂, hfollows₂⟩ : ∃ p₂ past₂, m₂.processes.get? pid = some p₂ ∧
          Follows p₀.program p₀.directory p₂ past₂ := by
        cases mv with
        | turn q =>
          obtain rfl : q = pid := Option.some.inj hactor
          exact hfollows.turn hrooted.sound hp₁ hmove
        | tick => cases hactor
        | interrupt q =>
          obtain rfl : q = pid := Option.some.inj hactor
          exact hfollows.interrupted hp₁ hmove
      cases hp.symm.trans hp₂
      exact ⟨past₂, hfollows₂⟩
    · rcases move_others hmove hrooted.sound hactor hp₁ with hnone | ⟨p₂, hp₂,
        hstruck | ⟨parent, stopped, rfl⟩⟩
      · exact absurd (hnone.symm.trans hp) (by simp)
      · cases hp.symm.trans hp₂
        refine ⟨past, hfollows.struck (fun code hleft => ?_) hstruck⟩
        -- nobody is killed who has left
        obtain ⟨-, -, number, hkilled⟩ := hstruck
        rcases move_ended hmove hrooted.sound hp₁ hleft with hnone | ⟨p₃, hp₃, hending⟩
        · exact absurd (hnone.symm.trans hp) (by simp)
        · cases hp.symm.trans hp₃
          cases hkilled.symm.trans hending
      · cases hp.symm.trans hp₂
        exact ⟨past, hfollows.same rfl rfl rfl⟩

end Machine

end PipeShell
