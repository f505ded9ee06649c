import PipeShell.Proofs.Job.Management
import PipeShell.Proofs.Session.Fold

/-!
What a line can change. Hosts are only asked to carry out actions as the interpreter does, whatever
the system answers to its calls; from that it follows which lines change the working directory,
which ones add to the background, and which ones end the session.
-/

set_option autoImplicit false
set_option relaxedAutoImplicit false

namespace PipeShell

open Program

variable {α σ δ : Type}

/-! ### What actions do -/

def Enters (past : List (Exchange α)) : Prop :=
  ∃ path, .called (.change (.enter path)) (some (.ok ())) ∈ past

namespace Action

variable {background : Background} {past : List (Exchange Outcome)} {result : Option Outcome}

theorem nothing_manages (background : Background) :
    (nothing.execute background).Confined Pipeline.Manages False fun o =>
      o.background = background :=
  .bind ((Pipeline.note_manages _).imp fun _ _ => rfl)

theorem exit_leaves (background : Background) : (exit.execute background).Confined
    (fun c => ∀ code, c = .exit code → code = 0) False fun _ => False := by
  refine .bind (confined_act (by simp) ?_)
  exact ⟨fun code hcode => (Call.exit.inj hcode).symm, fun e => e.elim⟩

end Action

def Call.Stays (c : Call) : Prop := ∀ code, c ≠ .exit code

def Call.Rests (c : Call) : Prop := ∀ path, c ≠ .change (.enter path)

theorem Pipeline.Manages.stays {c : Call} (h : Pipeline.Manages c) : c.Stays := by
  rintro code rfl
  exact h

theorem Pipeline.Manages.rests {c : Call} (h : Pipeline.Manages c) : c.Rests := by
  rintro path rfl
  exact h

theorem not_enters {x : Program α} {past : List (Exchange α)} {result : Option α} {forks : Prop}
    {Q : α → Prop} (h : Course x past result) (hx : x.Confined Call.Rests forks Q) :
    ¬Enters past := by
  rintro ⟨path, hmem⟩
  exact (h.of_confined hx).1 _ _ hmem path rfl

namespace Directory

theorem enter_stays (target : String) : (enter target).Confined Call.Stays False fun _ => True := by
  unfold enter
  split
  · trivial
  · exact confined_ask (fun _ => by simp) fun _ => trivial

theorem change_stays (target : String) :
    (change target).Confined Call.Stays False fun _ => True := by
  refine .bind (confined_act (fun _ => by simp) (.bind ((enter_stays target).imp fun r _ => ?_)))
  cases r with
  | ok => trivial
  | error reason => exact .bind (confined_act (fun _ => by simp) trivial)

def conclude (target : String) : Except Errno Unit → Program Int
  | .ok () => pure 0
  | .error reason => do
    Program.put Fd.complaints
      (Bytes.ofString ("cd: " ++ complaint reason ++ ": " ++ target ++ "\n"))
    pure reason.number

theorem change_eq (target : String) : change target = (do
    Program.note (.changing target)
    let reply ← enter target
    conclude target reply) := rfl

theorem conclude_rests (target : String) (reply : Except Errno Unit) :
    (conclude target reply).Confined Call.Rests False fun _ => True := by
  cases reply with
  | ok => trivial
  | error reason => exact .bind (confined_act (fun _ => by simp) trivial)

theorem change_enters {target : String} {past : List (Exchange Int)} {result : Option Int}
    (h : Course (change target) past result) (henters : Enters past) :
    .called (.change (.enter (Bytes.ofString target))) (some (.ok ())) ∈ past ∧
    ∀ n ∈ result, n = 0 := by
  obtain ⟨path, hmem⟩ := henters
  rw [change_eq] at h
  obtain ⟨_, rest, rfl, hrest, hmem⟩ := h.behind_call (by simp) hmem (by simp)
  have hafter : Course (enter target >>= conclude target) rest result := hrest
  unfold enter at hafter
  by_cases hzero : '\x00' ∈ target.toList
  · rw [if_pos hzero] at hafter
    exact absurd ⟨path, hmem⟩ (not_enters hafter (conclude_rests target (.error .invalid)))
  · rw [if_neg hzero] at hafter
    rcases Course.of_call hafter with ⟨rfl, -⟩ | ⟨rfl, -⟩ | ⟨reply, tail, rfl, htail⟩
    · exact absurd hmem List.not_mem_nil
    · cases List.mem_singleton.mp hmem
    · rw [resume_of_not_wait (by simp)] at htail
      cases reply with
      | ok =>
        refine ⟨List.mem_cons_of_mem _ List.mem_cons_self, fun n hn => ?_⟩
        obtain ⟨-, rfl | rfl⟩ := Course.of_done htail
        · cases hn
        · exact (Option.some.inj hn).symm
      | error reason =>
        rcases List.mem_cons.mp hmem with heq | hmem
        · cases heq
        · exact absurd ⟨path, hmem⟩ (not_enters htail (conclude_rests target (.error reason)))

end Directory

namespace Action

variable {action : Action} {background : Background} {past : List (Exchange Outcome)}
  {result : Option Outcome}

theorem changeDirectory_stays (target : String) (background : Background) :
    ((changeDirectory target).execute background).Confined Call.Stays False fun o =>
      o.background = background :=
  .bind (confined_act (fun _ => by simp)
    (.bind ((Directory.change_stays target).imp fun _ _ => rfl)))

theorem execute_stays (h : action ≠ exit) (background : Background) :
    (action.execute background).Confined Call.Stays True fun _ => True := by
  cases action with
  | nothing =>
    exact (nothing_manages background).mono (fun _ => Pipeline.Manages.stays) False.elim
      fun _ _ => trivial
  | exit => exact absurd rfl h
  | changeDirectory target =>
    exact (changeDirectory_stays target background).mono (fun _ => id) False.elim fun _ _ => trivial
  | run p =>
    exact (p.execute_manages background).mono (fun _ => Pipeline.Manages.stays) id
      fun _ _ => trivial

theorem exit_of_left (h : Course (action.execute background) past result) {code : UInt8}
    (hleft : .called (.exit code) none ∈ past) : action = exit ∧ code = 0 := by
  by_cases haction : action = exit
  · subst haction
    exact ⟨rfl, (h.of_confined (exit_leaves background)).1 _ _ hleft code rfl⟩
  · exact absurd rfl ((h.of_confined (execute_stays haction background)).1 _ _ hleft code)

theorem changeDirectory_of_enters (h : Course (action.execute background) past result)
    (henters : Enters past) :
    ∃ target, action = changeDirectory target ∧
      .called (.change (.enter (Bytes.ofString target))) (some (.ok ())) ∈ past ∧
      ∀ o ∈ result, o = ⟨.ok 0, background⟩ := by
  cases action with
  | nothing =>
    have hx := (nothing_manages background).mono (fun _ => Pipeline.Manages.rests) id fun _ => id
    exact absurd henters (not_enters h hx)
  | run p =>
    have hx := (p.execute_manages background).mono (fun _ => Pipeline.Manages.rests) id fun _ => id
    exact absurd henters (not_enters h hx)
  | exit =>
    have hx : (exit.execute background).Confined Call.Rests False fun _ => True :=
      .bind (confined_act (fun _ => by simp) ⟨fun _ => by simp, fun e => e.elim⟩)
    exact absurd henters (not_enters h hx)
  | changeDirectory target =>
    obtain ⟨path, hmem⟩ := henters
    obtain ⟨_, rest, rfl, hrest, hmem⟩ := h.behind_call (by simp) hmem (by simp)
    have hbind : Course (Directory.change target >>= fun status => pure ⟨.ok status, background⟩)
        rest result := hrest
    refine ⟨target, rfl, ?_⟩
    rcases hbind.of_bind with ⟨before, rfl, hchange, rfl⟩ | ⟨before, after, n, rfl, hchange, hdone⟩
    · obtain ⟨hcalled, -⟩ := Directory.change_enters hchange ⟨path, called_mem_andThen.mp hmem⟩
      exact ⟨List.mem_cons_of_mem _ (called_mem_andThen.mpr hcalled), by simp⟩
    · obtain ⟨rfl, hresult⟩ := hdone.of_done
      rw [List.append_nil] at hmem ⊢
      obtain ⟨hcalled, hzero⟩ := Directory.change_enters hchange ⟨path, called_mem_andThen.mp hmem⟩
      refine ⟨List.mem_cons_of_mem _ (called_mem_andThen.mpr hcalled), fun o ho => ?_⟩
      rcases hresult with rfl | rfl
      · cases ho
      · rw [← Option.some.inj ho, hzero n rfl]

theorem background_of_outcome {o : Outcome} (h : Course (action.execute background) past (some o)) :
    o.background = background ∨
      ∃ p pids, action = run p ∧ p.background = true ∧
        o.background.pids = background.pids ++ pids := by
  cases action with
  | nothing => exact .inl ((h.of_confined (nothing_manages background)).2.2 o rfl)
  | exit => exact ((h.of_confined (exit_leaves background)).2.2 o rfl).elim
  | changeDirectory target =>
    exact .inl ((h.of_confined (changeDirectory_stays target background)).2.2 o rfl)
  | run p =>
    refine ((h.of_confined (p.execute_manages background)).2.2 o rfl).imp_right ?_
    exact fun ⟨hbackground, pids, hadd⟩ => ⟨p, pids, rfl, hbackground, hadd⟩

end Action

namespace Background

theorem reap_rests (b : Background) :
    b.reap.Confined Call.Rests False fun kept => kept.pids.Sublist b.pids := by
  have hkeep (pids : List Pid) : (keepRunning pids).Confined Call.Rests False fun kept =>
      kept.Sublist pids := by
    induction pids with
    | nil => exact List.Sublist.refl []
    | cons pid rest ih =>
      have hasks : (stillRuns pid).Confined Call.Rests False fun _ => True := by
        refine .bind (confined_ask (fun _ => by simp) fun reply => ?_)
        split
        · trivial
        · trivial
        · exact .bind (confined_act (fun _ => by simp) trivial)
        · exact .bind (confined_act (fun _ => by simp) trivial)
      refine .bind (hasks.imp fun keep _ => .bind (ih.imp fun kept hkept => ?_))
      cases keep with
      | true => exact hkept.cons_cons pid
      | false => exact hkept.cons pid
  exact .bind ((hkeep b.pids).imp fun _ h => h)

end Background

end PipeShell
