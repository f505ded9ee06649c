import PipeShell.Proofs.Job.Heeding
import PipeShell.Proofs.Job.Reports
import PipeShell.Proofs.Session.Frame

/-!
The status of an action. It fits into a byte, and it is 0 only for an action that has succeeded: no
failure on the way to it is taken for a success.
-/

set_option autoImplicit false
set_option relaxedAutoImplicit false

namespace PipeShell

open Program

theorem RareReason.number_bounds : ∀ r ∈ RareReason.all, 0 < r.number ∧ r.number ≤ 255 := by
  decide

theorem Errno.number_bounds (reason : Errno) : 0 < reason.number ∧ reason.number ≤ 255 := by
  cases reason with
  | rare reason => exact RareReason.number_bounds reason.val reason.property
  | _ => decide

/-! ### Changes of the directory -/

namespace Directory

theorem course_conclude {target : String} {reply : Except Errno Unit} {past : List (Exchange Int)}
    {n : Int} (h : Course (conclude target reply) past (some n)) :
    0 ≤ n ∧ n ≤ 255 ∧ (n = 0 ↔ reply = .ok ()) := by
  cases reply with
  | ok =>
    obtain ⟨-, rfl⟩ := course_done_iff.mp h
    exact ⟨by decide, by decide, by simp⟩
  | error reason =>
    obtain ⟨_, rest, rfl, hrest⟩ := (course_call_iff (by simp)).mp h
    obtain ⟨-, rfl⟩ := course_done_iff.mp hrest
    have hnumber := reason.number_bounds
    refine ⟨by omega, by omega, ?_⟩
    constructor
    · intro hzero
      omega
    · intro hok
      cases hok

theorem course_change {target : String} {past : List (Exchange Int)} {n : Int}
    (h : Course (change target) past (some n)) : 0 ≤ n ∧ n ≤ 255 ∧
      (n = 0 ↔ .called (.change (.enter (Bytes.ofString target))) (some (.ok ())) ∈ past) := by
  have hentered : Enters past → n = 0 := fun henters => (change_enters h henters).2 n rfl
  rw [change_eq] at h
  obtain ⟨_, rest, rfl, hrest⟩ := (course_call_iff (by simp)).mp h
  have hafter : Course (enter target >>= conclude target) rest (some n) := hrest
  unfold enter at hafter
  -- a name with a zero byte is refused without asking the system
  by_cases hzero : '\x00' ∈ target.toList
  · rw [if_pos hzero] at hafter
    have hinvalid : Course (conclude target (.error .invalid)) rest (some n) := hafter
    obtain ⟨hleast, hmost, hstatus⟩ := course_conclude hinvalid
    refine ⟨hleast, hmost, fun hn => ?_, fun hmem => hentered ⟨_, hmem⟩⟩
    cases hstatus.mp hn
  · rw [if_neg hzero] at hafter
    obtain ⟨reply, tail, rfl, htail⟩ := (course_call_iff (by simp)).mp hafter
    obtain ⟨hleast, hmost, hstatus⟩ := course_conclude htail
    refine ⟨hleast, hmost, fun hn => ?_, fun hmem => hentered ⟨_, hmem⟩⟩
    obtain rfl := hstatus.mp hn
    simp

theorem change_asks {target : String} (hzero : '\x00' ∉ target.toList) {past : List (Exchange Int)}
    {n : Int} (h : Course (change target) past (some n)) :
    ∃ reply, .called (.change (.enter (Bytes.ofString target))) (some reply) ∈ past := by
  rw [change_eq] at h
  obtain ⟨_, rest, rfl, hrest⟩ := (course_call_iff (by simp)).mp h
  have hafter : Course (enter target >>= conclude target) rest (some n) := hrest
  unfold enter at hafter
  rw [if_neg hzero] at hafter
  obtain ⟨reply, tail, rfl, -⟩ := (course_call_iff (by simp)).mp hafter
  exact ⟨reply, List.mem_cons_of_mem _ List.mem_cons_self⟩

end Directory

/-! ### Actions -/

namespace Action

/-- An action has succeeded: the directory was entered, all stages were started, and if the end of
the pipeline was awaited, its last stage was reported to have exited with 0. -/
def Succeeds (past : List (Exchange Outcome)) : Action → Prop
  | nothing => True
  | exit => True
  | changeDirectory target =>
    .called (.change (.enter (Bytes.ofString target))) (some (.ok ())) ∈ past
  | run p =>
    (children past).length = p.stages.length ∧
      (p.background = true ∨ ∃ last child pid, (children past).getLast? = some (last, child) ∧
        (reports past).lookup last = some (.ok (.exited pid 0)))

/-- The system was asked for what the action is about: for the change of the directory, and, once
all stages of a pipeline in the foreground are started, for the end of each child until it was told,
the last one first. -/
def Asks (past : List (Exchange Outcome)) : Action → Prop
  | nothing => True
  | exit => True
  | changeDirectory target =>
    ∃ reply, .called (.change (.enter (Bytes.ofString target))) (some reply) ∈ past
  | run p => p.background = false → (children past).length = p.stages.length →
      (reports past).map Prod.fst = ((children past).map Prod.fst).reverse ∧
        ∀ r ∈ reports past, .called (.waitFor r.1) (some r.2) ∈ past

def BytesReported (past : List (Exchange Outcome)) : Prop :=
  ∀ child pid code, .called (.waitFor child) (some (.ok (.exited pid code))) ∈ past →
    0 ≤ code ∧ code ≤ 255

variable {background : Background} {past : List (Exchange Outcome)} {outcome : Outcome}

theorem not_succeeds_of_fatal {p : Pipeline} {fatal : Fatal}
    (h : Course ((run p).execute background) past (some outcome))
    (hstatus : outcome.status = .error fatal) :
    ¬(run p).Succeeds past := by
  obtain ⟨launched, result, after, rfl, hlaunch, hafter⟩ := Pipeline.course_execute_iff.mp h
  have hattends := p.follow_attends background result
  rintro ⟨hlength, -⟩
  rw [Pipeline.children_execute _ (hafter.childless hattends)] at hlength
  cases result with
  | error reason => exact absurd hlength (Nat.ne_of_lt (hlaunch.children_eq.2 reason rfl))
  | ok pids =>
    obtain ⟨n, hn⟩ := (hafter.of_confined hattends).2.2 outcome rfl ⟨pids, rfl⟩
    cases hstatus.symm.trans hn

theorem run_status {p : Pipeline} (hstages : p.stages ≠ [])
    (h : Course ((run p).execute background) past (some outcome)) (hbytes : BytesReported past)
    {n : Int} (hstatus : outcome.status = .ok n) :
    0 ≤ n ∧ n ≤ 255 ∧ (n = 0 ↔ (run p).Succeeds past) := by
  obtain ⟨launched, result, after, rfl, hlaunch, hafter⟩ := Pipeline.course_execute_iff.mp h
  cases result with
  | error fatal =>
    obtain ⟨-, rfl⟩ := course_done_iff.mp hafter
    cases hstatus
  | ok pids =>
    obtain ⟨hpids, hcount⟩ := hlaunch.children_eq.1 pids rfl
    have hlength : (children launched).length = p.stages.length := by
      rw [← hcount, ← hpids, List.length_map]
    have hfollow : p.follow background (.ok pids) = p.attend background pids :=
      if_neg (by simpa using hstages)
    rw [hfollow] at hafter
    have hattends := Pipeline.attend_attends p background pids
    unfold Succeeds
    rw [Pipeline.children_execute _ (hafter.childless hattends), hlaunch.reports_execute, hlength]
    cases hbackground : p.background with
    | true =>
      -- nothing is awaited, and the status is 0 whatever becomes of the stages
      unfold Pipeline.attend at hafter
      rw [hbackground] at hafter
      obtain ⟨_, rest, rfl, hrest⟩ := (course_call_iff (by simp)).mp hafter
      obtain ⟨-, rfl⟩ := course_done_iff.mp hrest
      cases hstatus
      exact ⟨by decide, by decide, iff_of_true rfl ⟨rfl, .inl hbackground⟩⟩
    | false =>
      have hstarted : children launched ≠ [] := by
        rw [← List.length_pos_iff, hlength]
        exact List.length_pos_iff.mpr hstages
      rw [← hpids] at hafter
      obtain ⟨last, child, report, hlast, hlookup, hcalled, rfl⟩ :=
        Pipeline.course_attend_last hbackground hstarted hafter
      cases hstatus
      obtain ⟨hleast, hmost⟩ :=
        Job.statusOf_bounds fun pid code (hreport : report = .ok (.exited pid code)) =>
        hbytes last pid code (List.mem_cons_of_mem _ (List.mem_append_right _ (hreport ▸ hcalled)))
      refine ⟨hleast, hmost, Job.statusOf_eq_zero_iff.trans ?_⟩
      constructor
      · rintro ⟨pid, rfl⟩
        exact ⟨rfl, .inr ⟨last, child, pid, hlast, hlookup⟩⟩
      · rintro ⟨-, hbackground' | ⟨last', child', pid, hlast', hlookup'⟩⟩
        · cases hbackground.symm.trans hbackground'
        · cases hlast.symm.trans hlast'
          exact ⟨pid, Option.some.inj (hlookup.symm.trans hlookup')⟩

theorem run_asks {p : Pipeline} (hstages : p.stages ≠ [])
    (h : Course ((run p).execute background) past (some outcome)) : (run p).Asks past := by
  obtain ⟨launched, result, after, rfl, hlaunch, hafter⟩ := Pipeline.course_execute_iff.mp h
  intro hforeground hlength
  refine ⟨?_, fun r hr => called_of_mem_reports hr⟩
  rw [Pipeline.children_execute _ (hafter.childless (p.follow_attends background result))]
    at hlength ⊢
  cases result with
  | error fatal => exact absurd hlength (Nat.ne_of_lt (hlaunch.children_eq.2 fatal rfl))
  | ok pids =>
    have hfollow : p.follow background (.ok pids) = p.attend background pids :=
      if_neg (by simpa using hstages)
    rw [hfollow] at hafter
    rw [hlaunch.reports_execute, (hlaunch.children_eq.1 pids rfl).1]
    exact (Pipeline.course_attend hforeground hafter).1

theorem execute_asks {action : Action} (hstages : ∀ p, action = run p → p.stages ≠ [])
    (hzero : ∀ target, action = changeDirectory target → '\x00' ∉ target.toList)
    (h : Course (action.execute background) past (some outcome)) : action.Asks past := by
  cases action with
  | nothing => trivial
  | exit => trivial
  | changeDirectory target =>
    obtain ⟨_, rest, rfl, hrest⟩ := (course_call_iff (by simp)).mp h
    have hchange : Course (Directory.change target >>= fun status => .done ⟨.ok status, background⟩)
        rest (some outcome) := hrest
    obtain ⟨before, after, n, rfl, hbefore, -⟩ := course_bind_iff.mp hchange
    obtain ⟨reply, hmem⟩ := Directory.change_asks (hzero target rfl) hbefore
    exact ⟨reply, List.mem_cons_of_mem _ (List.mem_append_left _ (called_mem_andThen.mpr hmem))⟩
  | run p => exact run_asks (hstages p rfl) h

theorem execute_status {action : Action} (hstages : ∀ p, action = run p → p.stages ≠ [])
    (h : Course (action.execute background) past (some outcome)) (hbytes : BytesReported past) :
    (∀ n, outcome.status = .ok n → 0 ≤ n ∧ n ≤ 255 ∧ (n = 0 ↔ action.Succeeds past)) ∧
      ∀ fatal, outcome.status = .error fatal → ¬action.Succeeds past := by
  cases action with
  | nothing =>
    obtain ⟨_, rest, rfl, hrest⟩ := (course_call_iff (by simp)).mp h
    obtain ⟨-, rfl⟩ := course_done_iff.mp hrest
    refine ⟨fun n hn => ?_, fun fatal hfatal => by cases hfatal⟩
    cases hn
    exact ⟨by decide, by decide, iff_of_true rfl trivial⟩
  | exit => exact ((h.of_confined (exit_leaves background)).2.2 outcome rfl).elim
  | changeDirectory target =>
    obtain ⟨_, rest, rfl, hrest⟩ := (course_call_iff (by simp)).mp h
    have hchange : Course (Directory.change target >>= fun status => .done ⟨.ok status, background⟩)
        rest (some outcome) := hrest
    obtain ⟨before, after, n, rfl, hbefore, hafter⟩ := course_bind_iff.mp hchange
    obtain ⟨rfl, rfl⟩ := course_done_iff.mp hafter
    obtain ⟨hleast, hmost, hstatus⟩ := Directory.course_change hbefore
    refine ⟨fun m hm => ?_, fun fatal hfatal => by cases hfatal⟩
    cases hm
    refine ⟨hleast, hmost, hstatus.trans ?_⟩
    rw [List.append_nil]
    simp [Succeeds, called_mem_andThen]
  | run p =>
    exact ⟨fun n hn => run_status (hstages p rfl) h hbytes hn,
      fun fatal hfatal => not_succeeds_of_fatal h hfatal⟩

end Action

/-! ### Stages that fail -/

namespace Stage

variable {α : Type}

def Complains (c : Call) : Prop := ∀ code, c = .exit code → code ≠ 0

theorem complains_of_prepares {c : Call} (h : c.Prepares) : Complains c := by
  rintro code rfl
  obtain hconnects | ⟨arguments, hexec⟩ := h
  · exact hconnects.elim
  · cases hexec

theorem process_complains (stage : Stage) (previous next : Option Link) :
    (stage.process previous next : Program α).Confined Complains False fun _ => False := by
  refine .bind ((stage.firstFault_prepares previous next).mono (fun _ => complains_of_prepares) id
    fun fault _ => ?_)
  refine .bind (confined_act (fun _ => by simp) ⟨fun code hexit => ?_, fun e => e.elim⟩)
  obtain rfl := Call.exit.inj hexit
  cases fault <;> simp [StageFault.code]

end Stage

end PipeShell
