import Mathlib.Data.List.Nodup
import PipeShell.Proofs.Job.Reports
import PipeShell.Proofs.System.Calls

/-!
Waiting for the processes of a pipeline in the foreground. However often it is interrupted and
whatever is found out about each of them, they are waited for one after the other, the last one
first, and what comes of it depends on the last one only. On a machine the children may end in any
order meanwhile.
-/

set_option autoImplicit false
set_option relaxedAutoImplicit false

namespace PipeShell

open Program

variable {α β : Type}

def Exchange.replyOf? (pid : Pid) : Exchange α → Option (Except Errno WaitStatus)
  | .called (.waitFor child) (some reply) => if child = pid then some reply else none
  | _ => none

def replies (pid : Pid) (past : List (Exchange α)) : List (Except Errno WaitStatus) :=
  past.filterMap (Exchange.replyOf? pid)

@[simp] theorem replies_waitFor (pid : Pid) (reply : Except Errno WaitStatus)
    (past : List (Exchange α)) :
    replies pid (.called (.waitFor pid) (some reply) :: past) = reply :: replies pid past :=
  List.filterMap_cons_some (if_pos rfl)

theorem replies_append (pid : Pid) (past more : List (Exchange α)) :
    replies pid (past ++ more) = replies pid past ++ replies pid more := List.filterMap_append

namespace Job

/-- What is exchanged with the system about a child until there is a report about it, after so many
interruptions. -/
def hearing (pid : Pid) (report : Except Errno WaitStatus) : Nat → List (Exchange α)
  | 0 => [.called (.waitFor pid) (some report), .called (.note (recordOf pid report)) (some ())]
  | n + 1 => .called (.waitFor pid) (some (.error .interrupted)) :: hearing pid report n

def heard (report : Except Errno WaitStatus) (n : Nat) : List (Except Errno WaitStatus) :=
  List.replicate n (.error .interrupted) ++ [report]

def waiting (pid : Pid) (report : Except Errno WaitStatus) (n : Nat) : List Call :=
  List.replicate (n + 1) (.waitFor pid) ++ [.note (recordOf pid report)]

section

variable (pid : Pid) (report : Except Errno WaitStatus) (n : Nat)

theorem calls_hearing :
    calls (hearing pid report n : List (Exchange α)) = waiting pid report n := by
  induction n with
  | zero => rfl
  | succ n ih => exact congrArg (.waitFor pid :: ·) ih

theorem replies_hearing :
    replies pid (hearing pid report n : List (Exchange α)) = heard report n := by
  induction n with
  | zero => exact replies_waitFor pid report _
  | succ n ih => exact (replies_waitFor pid _ _).trans (congrArg (.error .interrupted :: ·) ih)

theorem replies_hearing_of_ne {other : Pid} (h : pid ≠ other) :
    replies other (hearing pid report n : List (Exchange α)) = [] := by
  have hfirst (reply : Except Errno WaitStatus) :
      (Exchange.called (.waitFor pid) (some reply) : Exchange α).replyOf? other = none := if_neg h
  induction n with
  | zero =>
    rw [hearing, replies, List.filterMap_cons_none (hfirst report)]
    rfl
  | succ n ih =>
    rw [hearing, replies, List.filterMap_cons_none (hfirst _)]
    exact ih

end

theorem report?_settled {pid : Pid} {report : Except Errno WaitStatus}
    (h : report ≠ .error .interrupted) :
    (Exchange.called (.waitFor pid) (some report) : Exchange α).report? = some (pid, report) ∧
      (Call.waitFor pid).isInterrupted report = false := by
  cases report with
  | ok status => exact ⟨rfl, rfl⟩
  | error reason =>
    cases reason with
    | interrupted => exact absurd rfl h
    | _ => exact ⟨rfl, rfl⟩

theorem reports_hearing (pid : Pid) {report : Except Errno WaitStatus}
    (h : report ≠ .error .interrupted) (n : Nat) :
    reports (hearing pid report n : List (Exchange α)) = [(pid, report)] := by
  induction n with
  | zero =>
    rw [hearing, reports, List.filterMap_cons_some (report?_settled h).1]
    rfl
  | succ n ih => exact ih

theorem course_await_heard {pid : Pid} {report : Except Errno WaitStatus}
    (hsettled : report ≠ .error .interrupted) {f : Int → Program β} {n : Nat}
    {past : List (Exchange β)} {result : Option β} (h : Course (await pid >>= f) past result)
    (htold : replies pid past <+: heard report n ∨ heard report n <+: replies pid past) :
    calls past <+: waiting pid report n ∧ result = none ∨
      ∃ after, past = hearing pid report n ++ after ∧
        Course (f (statusOf report)) after result := by
  rw [await_bind] at h
  induction n generalizing past with
  | zero =>
    rcases h.of_call with ⟨rfl, rfl⟩ | ⟨rfl, rfl⟩ | ⟨reply, rest, rfl, hrest⟩
    · exact .inl ⟨List.nil_prefix, rfl⟩
    · exact .inl ⟨List.prefix_append _ _, rfl⟩
    · obtain rfl : reply = report := by
        rw [replies_waitFor] at htold
        rcases htold with hprefix | hprefix
        · exact (List.cons_prefix_cons.mp hprefix).1
        · exact (List.cons_prefix_cons.mp hprefix).1.symm
      rw [resume, (report?_settled (α := β) hsettled).2] at hrest
      rcases hrest.of_call with ⟨rfl, rfl⟩ | ⟨rfl, rfl⟩ | ⟨_, after, rfl, hafter⟩
      · exact .inl ⟨List.prefix_append _ _, rfl⟩
      · exact .inl ⟨List.prefix_refl _, rfl⟩
      · exact .inr ⟨after, rfl, hafter⟩
  | succ n ih =>
    rcases h.of_call with ⟨rfl, rfl⟩ | ⟨rfl, rfl⟩ | ⟨reply, rest, rfl, hrest⟩
    · exact .inl ⟨List.nil_prefix, rfl⟩
    · exact .inl ⟨List.cons_prefix_cons.mpr ⟨rfl, List.nil_prefix⟩, rfl⟩
    · -- the same call is made again, with one interruption less to come
      obtain ⟨rfl, hmore⟩ : reply = .error .interrupted ∧
          (replies pid rest <+: heard report n ∨ heard report n <+: replies pid rest) := by
        rw [replies_waitFor] at htold
        rcases htold with hprefix | hprefix
        · obtain ⟨hreply, hrest⟩ := List.cons_prefix_cons.mp hprefix
          exact ⟨hreply, .inl hrest⟩
        · obtain ⟨hreply, hrest⟩ := List.cons_prefix_cons.mp hprefix
          exact ⟨hreply.symm, .inr hrest⟩
      rcases ih hrest hmore with ⟨hcalls, hresult⟩ | ⟨after, rfl, hafter⟩
      · exact .inl ⟨List.cons_prefix_cons.mpr ⟨rfl, hcalls⟩, hresult⟩
      · exact .inr ⟨after, rfl, hafter⟩

theorem course_hearing {pid : Pid} {report : Except Errno WaitStatus}
    (hsettled : report ≠ .error .interrupted)
    {f : Int → Program β} (n : Nat) {after : List (Exchange β)} {result : Option β}
    (h : Course (f (statusOf report)) after result) :
    Course (await pid >>= f) (hearing pid report n ++ after) result := by
  rw [await_bind]
  induction n with
  | zero =>
    refine .answered (c := .waitFor pid) report ?_
    rw [resume, (report?_settled (α := β) hsettled).2]
    exact .answered (c := .note (recordOf pid report)) () h
  | succ n ih => exact .answered (c := .waitFor pid) (.error .interrupted) ih

/-! ### The calls of one wait -/

theorem retry_interrupted (n : Nat) :
    retry (List.replicate n (.error .interrupted : Except Errno WaitStatus)) = none := by
  induction n with
  | zero => rfl
  | succ n ih =>
    show (retry (List.replicate n _)).map _ = none
    rw [ih]
    rfl

theorem retry_heard {report : Except Errno WaitStatus} (h : report ≠ .error .interrupted)
    (n : Nat) : retry (heard report n) = some (report, n + 1) := by
  induction n with
  | zero =>
    cases report with
    | ok status => rfl
    | error reason =>
      cases reason with
      | interrupted => exact absurd rfl h
      | _ => rfl
  | succ n ih =>
    show (retry (heard report n)).map (fun r => (r.1, r.2 + 1)) = _
    rw [ih]
    rfl

theorem exists_hearing {pid : Pid} {past : List (Exchange Int)} {status : Int}
    (h : Course (await pid) past (some status)) :
    ∃ report n, report ≠ .error .interrupted ∧ past = hearing pid report n ∧
      status = statusOf report := by
  rw [← bind_done (await pid), await_bind] at h
  induction past with
  | nil =>
    rcases h.of_call with ⟨-, hnone⟩ | ⟨hawaiting, -⟩ | ⟨reply, rest, hanswered, -⟩
    · cases hnone
    · cases hawaiting
    · cases hanswered
  | cons exchange past ih =>
    rcases h.of_call with ⟨hstarted, -⟩ | ⟨-, hnone⟩ | ⟨reply, rest, heq, hrest⟩
    · cases hstarted
    · cases hnone
    · obtain ⟨rfl, rfl⟩ := List.cons.inj heq
      by_cases hreply : reply = .error .interrupted
      · subst hreply
        obtain ⟨report, n, hsettled, rfl, hstatus⟩ := ih hrest
        exact ⟨report, n + 1, hsettled, rfl, hstatus⟩
      · rw [resume, (report?_settled (α := Int) hreply).2] at hrest
        rcases hrest.of_call with ⟨-, hnone⟩ | ⟨-, hnone⟩ | ⟨_, after, rfl, hafter⟩
        · cases hnone
        · cases hnone
        · obtain ⟨rfl, hresult⟩ := hafter.of_done
          exact ⟨reply, 0, hreply, rfl, Option.some.inj (hresult.resolve_left (by simp))⟩

/-- Waiting for a child asks again and again like any call that can be interrupted: the answers are
those of one retry, it makes as many calls, and the status is that of the answer which the retry
hands over. -/
theorem course_await_iff {pid : Pid} {past : List (Exchange Int)} {status : Int} :
    Course (await pid) past (some status) ↔
      ∃ report n, retry (replies pid past) = some (report, n + 1) ∧ past = hearing pid report n ∧
        status = statusOf report := by
  constructor
  · intro h
    obtain ⟨report, n, hsettled, rfl, hstatus⟩ := exists_hearing h
    exact ⟨report, n, by rw [replies_hearing, retry_heard hsettled], rfl, hstatus⟩
  · rintro ⟨report, n, hretry, rfl, rfl⟩
    have hsettled : report ≠ .error .interrupted := by
      rintro rfl
      rw [replies_hearing, heard, ← List.replicate_succ', retry_interrupted] at hretry
      cases hretry
    have hcourse : Course (await pid >>= fun a => .done a) (hearing pid report n ++ [])
        (some (statusOf report)) :=
      course_hearing hsettled n (.done _)
    rwa [bind_done, List.append_nil] at hcourse

/-! ### The statuses of a job -/

/-- The status of a job whose children are reported on in this way: that of the last one. -/
def statusAfter (report : Pid → Except Errno WaitStatus) (pids : List Pid) : Int :=
  match pids.getLast? with
  | none => 0
  | some last =>
    match report last with
    | .ok (.exited _ code) => code
    | .ok (.signaled _ signal _) => 128 + signal.number
    | _ => 1

theorem headD_statuses (report : Pid → Except Errno WaitStatus) (pids : List Pid) :
    (pids.reverse.map fun pid => statusOf (report pid)).headD 0 = statusAfter report pids := by
  rw [List.headD_eq_head?_getD, List.head?_map, List.head?_reverse, statusAfter]
  cases pids.getLast? with
  | none => rfl
  | some last =>
    cases hreport : report last with
    | error reason => simp [hreport, statusOf, unknownStatus]
    | ok status => cases status <;> simp [hreport, statusOf, unknownStatus, WaitStatus.code?]

theorem statusAfter_congr {report report' : Pid → Except Errno WaitStatus} {pids : List Pid}
    (h : ∀ last ∈ pids.getLast?, report last = report' last) :
    statusAfter report pids = statusAfter report' pids := by
  unfold statusAfter
  cases hlast : pids.getLast? with
  | none => rfl
  | some last =>
    dsimp only
    rw [h last hlast]

end Job

/-- How waiting for each child turns out: after so many interruptions something is found out. -/
structure Tidings where
  interruptions : Pid → Nat
  report : Pid → Except Errno WaitStatus
  settled : ∀ pid, report pid ≠ .error .interrupted

namespace Tidings

/-- Whether the answers about a child are the expected ones. What would come behind the report is
left open. -/
def Tells (t : Tidings) (pid : Pid) (past : List (Exchange α)) : Prop :=
  replies pid past <+: Job.heard (t.report pid) (t.interruptions pid) ∨
    Job.heard (t.report pid) (t.interruptions pid) <+: replies pid past

def waiting (t : Tidings) (pid : Pid) : List Call :=
  Job.waiting pid (t.report pid) (t.interruptions pid)

def hearing (t : Tidings) (pid : Pid) : List (Exchange α) :=
  Job.hearing pid (t.report pid) (t.interruptions pid)

variable {t : Tidings}

theorem calls_flatMap_hearing (pids : List Pid) :
    calls (pids.flatMap t.hearing : List (Exchange α)) = pids.flatMap t.waiting := by
  induction pids with
  | nil => rfl
  | cons pid rest ih =>
    rw [List.flatMap_cons, List.flatMap_cons, calls_append, ih, hearing, Job.calls_hearing]
    rfl

theorem reports_flatMap_hearing (pids : List Pid) :
    reports (pids.flatMap t.hearing : List (Exchange α)) = pids.map fun pid =>
      (pid, t.report pid) := by
  induction pids with
  | nil => rfl
  | cons pid rest ih =>
    rw [List.flatMap_cons, reports_append, ih, hearing, Job.reports_hearing pid (t.settled pid)]
    rfl

theorem replies_flatMap_hearing {pid : Pid} {pids : List Pid} (h : pid ∉ pids) :
    replies pid (pids.flatMap t.hearing : List (Exchange α)) = [] := by
  induction pids with
  | nil => rfl
  | cons other rest ih =>
    obtain ⟨hne, hrest⟩ := List.ne_and_not_mem_of_not_mem_cons h
    rw [List.flatMap_cons, replies_append, ih hrest, hearing,
      Job.replies_hearing_of_ne _ _ _ hne.symm]
    rfl

theorem tells_flatMap_hearing {pid : Pid} {pids : List Pid} (hdistinct : pids.Nodup)
    (h : pid ∈ pids) : t.Tells pid (pids.flatMap t.hearing : List (Exchange α)) := by
  induction pids with
  | nil => cases h
  | cons other rest ih =>
    obtain ⟨hother, hrest⟩ := List.nodup_cons.mp hdistinct
    rw [Tells, List.flatMap_cons, replies_append]
    by_cases hpid : pid = other
    · subst hpid
      rw [replies_flatMap_hearing hother, List.append_nil, hearing, Job.replies_hearing]
      exact .inl (List.prefix_refl _)
    · rw [hearing, Job.replies_hearing_of_ne _ _ _ (Ne.symm hpid)]
      exact ih hrest ((List.mem_cons.mp h).resolve_left hpid)

theorem course_awaitEach_heard {pids : List Pid} (hdistinct : pids.Nodup) {result : Option β} :
    ∀ {f : List Int → Program β} {past : List (Exchange β)},
      Course (Job.awaitEach pids >>= f) past result →
      (∀ pid ∈ pids, t.Tells pid past) → calls past <+: pids.flatMap t.waiting ∧ result = none ∨
        ∃ after, past = pids.flatMap t.hearing ++ after ∧
          Course (f (pids.map fun pid => Job.statusOf (t.report pid))) after result := by
  induction pids with
  | nil => exact fun h _ => .inr ⟨_, rfl, h⟩
  | cons pid rest ih =>
    intro f past h htells
    obtain ⟨hpid, hrest⟩ := List.nodup_cons.mp hdistinct
    rw [Job.awaitEach_cons_bind] at h
    rcases Job.course_await_heard (t.settled pid) h (htells pid List.mem_cons_self) with ⟨hcalls,
      hresult⟩ | ⟨more, rfl, hmore⟩
    · exact .inl ⟨hcalls.trans (List.prefix_append _ _), hresult⟩
    · have htells' : ∀ other ∈ rest, t.Tells other more := by
        intro other hother
        have htold := htells other (List.mem_cons_of_mem _ hother)
        have hne : pid ≠ other := fun heq => hpid (heq ▸ hother)
        rwa [Tells, replies_append, Job.replies_hearing_of_ne _ _ _ hne] at htold
      rcases ih hrest hmore htells' with ⟨hcalls, hresult⟩ | ⟨after, rfl, hafter⟩
      · refine .inl ⟨?_, hresult⟩
        rw [calls_append, Job.calls_hearing]
        exact (List.prefix_append_right_inj _).mpr hcalls
      · exact .inr ⟨after, (List.append_assoc ..).symm, hafter⟩

theorem course_hearing {pids : List Pid} {after : List (Exchange β)} {result : Option β} :
    ∀ {f : List Int → Program β},
    Course (f (pids.map fun pid => Job.statusOf (t.report pid))) after result →
      Course (Job.awaitEach pids >>= f) (pids.flatMap t.hearing ++ after) result := by
  induction pids with
  | nil => exact fun h => h
  | cons pid rest ih =>
    intro f h
    rw [Job.awaitEach_cons_bind, List.flatMap_cons, List.append_assoc]
    exact Job.course_hearing (t.settled pid) _ (ih h)

theorem exists_course_wait (t : Tidings) {pids : List Pid} (hdistinct : pids.Nodup) :
    ∃ past, Course (Job.wait pids) past (some (Job.statusAfter t.report pids)) ∧
      ∀ pid ∈ pids, t.Tells pid past := by
  have hcourse : Course (Job.awaitEach pids.reverse >>= fun statuses => .done (statuses.headD 0))
      (pids.reverse.flatMap t.hearing ++ []) (some (Job.statusAfter t.report pids)) := by
    apply course_hearing
    rw [Job.headD_statuses]
    exact .done _
  refine ⟨_, hcourse, fun pid hpid => ?_⟩
  rw [List.append_nil]
  exact tells_flatMap_hearing (List.nodup_reverse.mpr hdistinct) (List.mem_reverse.mpr hpid)

theorem course_wait {pids : List Pid} (hdistinct : pids.Nodup)
    {past : List (Exchange Int)} {result : Option Int}
    (h : Course (Job.wait pids) past result) (htells : ∀ pid ∈ pids, t.Tells pid past) :
    calls past <+: pids.reverse.flatMap t.waiting ∧
      ∀ status, result = some status → status = Job.statusAfter t.report pids ∧
        calls past = pids.reverse.flatMap t.waiting ∧ reports past = pids.reverse.map fun pid =>
          (pid, t.report pid) := by
  have hwait : Job.wait pids = Job.awaitEach pids.reverse >>= fun statuses =>
      .done (statuses.headD 0) := rfl
  rw [hwait] at h
  rcases course_awaitEach_heard (List.nodup_reverse.mpr hdistinct) h (fun pid hpid =>
    htells pid (List.mem_reverse.mp hpid)) with ⟨hcalls, rfl⟩ | ⟨after, rfl, hafter⟩
  · exact ⟨hcalls, fun status hstatus => by cases hstatus⟩
  · obtain ⟨rfl, hresult⟩ := hafter.of_done
    rw [List.append_nil, calls_flatMap_hearing, reports_flatMap_hearing]
    refine ⟨List.prefix_refl _, fun status hstatus => ⟨?_, rfl, rfl⟩⟩
    rcases hresult with hnone | hsome
    · rw [hnone] at hstatus
      cases hstatus
    · rw [hsome] at hstatus
      cases hstatus
      exact Job.headD_statuses t.report pids

end Tidings

/-! ### On a machine -/

/-- The children that a process has collected, with how they had ended. -/
def Event.foundBy (pid : Pid) (es : List Event) : List (Pid × Ending) :=
  (deedsOf pid es).filterMap fun
    | .collected child ending => some (child, ending)
    | _ => none

theorem Event.foundBy_append (pid : Pid) (es es' : List Event) :
    foundBy pid (es ++ es') = foundBy pid es ++ foundBy pid es' := by
  simp [foundBy]

namespace Job

def remaining (statuses : List Int) (left : List Pid) : Program Int :=
  awaitEach left >>= fun others => .done ((statuses ++ others).headD 0)

theorem remaining_cons (statuses : List Int) (pid : Pid) (left : List Pid) :
    remaining statuses (pid :: left) =
      .call (.waitFor pid) fun reply => .call (.note (recordOf pid reply)) fun _ =>
      remaining (statuses ++ [statusOf reply]) left := by
  rw [remaining, awaitEach_cons_bind, await_bind]
  simp only [remaining, List.append_assoc, List.singleton_append]

inductive Stance (statuses : List Int) (left : List Pid) : Program Int → Prop
  | waits : Stance statuses left (remaining statuses left)
  | notes (record : Log.Record) : Stance statuses left
      (.call (.note record) fun _ => remaining statuses left)

/-- How far a process on a machine has come with waiting for its children. Those that are left are
still there. -/
structure Tended (pid : Pid) (pids : List Pid) (es : List Event) (m : Machine Int) (p : Process Int)
    (left : List Pid) : Prop where
  order : pids.reverse = (Event.foundBy pid es).map Prod.fst ++ left
  stance : Stance ((Event.foundBy pid es).map fun f => statusOf (f.2.report f.1)) left p.program
  there : ∀ child ∈ left, ∃ q, m.processes.get? child = some q ∧ q.parent = pid

variable {pid : Pid} {pids left : List Pid} {es : List Event} {m m' : Machine Int}
  {p p' : Process Int} {mv : Move}

theorem there_update {child : Pid} {q : Process Int} (hp : m.processes.get? pid = some p)
    (hq : m.processes.get? child = some q)
    (hkept : m'.processes.get? child = m.processes.get? child) (hparent : p'.parent = p.parent) :
    ∃ q', (m'.update pid p').processes.get? child = some q' ∧ q'.parent = q.parent := by
  by_cases hchild : child = pid
  · subst hchild
    cases hp.symm.trans hq
    exact ⟨_, Machine.get?_update_same _ _ _, hparent⟩
  · exact ⟨q, (Machine.get?_update_of_ne _ _ hchild).trans (hkept.trans hq), rfl⟩

theorem foundBy_of_deeds {found : List (Pid × Ending)} (hp : m.processes.get? pid = some p)
    (hdeeds : m.deeds pid p p.program = found.map fun f => .collected f.1 f.2) :
    Event.foundBy pid (es ++ m.events (.turn pid)) = Event.foundBy pid es ++ found := by
  rw [Event.foundBy_append, Event.foundBy, Event.foundBy, Machine.deedsOf_events_turn hp, hdeeds,
    List.filterMap_map]
  exact congrArg _ List.filterMap_some

theorem Tended.turn (h : Tended pid pids es m p left) (hdistinct : pids.Nodup)
    (hp : m.processes.get? pid = some p) (hmove : m.move (.turn pid) = some m') :
    ∃ p' left', m'.processes.get? pid = some p' ∧
      Tended pid pids (es ++ m.events (.turn pid)) m' p' left' := by
  obtain ⟨p₁, hp₁, hending, hstopped⟩ := Machine.step_live hmove
  cases hp.symm.trans hp₁
  have hlive := Machine.isLive_iff.mpr ⟨hending, hstopped⟩
  have hstep : m.step pid = some m' := hmove
  obtain ⟨horder, hstance, hthere⟩ := h
  have hleft : left.Nodup := by
    have hreverse := List.nodup_reverse.mpr hdistinct
    rw [horder] at hreverse
    exact (List.nodup_append.mp hreverse).2.1
  generalize hprogram : p.program = program at hstance
  cases hstance with
  | waits =>
    cases left with
    | nil =>
      rw [Machine.step, hp] at hstep
      simp [hlive, hprogram, remaining, awaitEach] at hstep
    | cons child rest =>
      obtain ⟨q, hq, hparent⟩ := hthere child List.mem_cons_self
      rw [remaining_cons] at hprogram
      rcases Machine.step_waitFor hp hlive hprogram with ⟨c, ending, -, -, -, hfound, heq⟩ | ⟨c, -,
        -, -, heq⟩ | ⟨hnobody, -, -⟩
      · rw [heq] at hstep
        cases hstep
        have hdeeds : m.deeds pid p p.program = [(child, ending)].map fun f =>
            .collected f.1 f.2 := by
          simp [hprogram, Machine.deeds, hfound]
        refine ⟨_, rest, Machine.get?_update_same _ _ _, ?_, ?_, fun other hother => ?_⟩
        · rw [foundBy_of_deeds hp hdeeds, horder]
          simp
        · rw [foundBy_of_deeds hp hdeeds, List.map_append]
          exact .notes _
        · obtain ⟨q', hq', rfl⟩ := hthere other (List.mem_cons_of_mem _ hother)
          have hne : other ≠ child := fun heq => (List.nodup_cons.mp hleft).1 (heq ▸ hother)
          exact there_update hp hq' (Table.get?_erase_of_ne _ hne) rfl
      · rw [heq] at hstep
        cases hstep
      · exact absurd hparent (hnobody q hq)
  | notes record =>
    have hdeeds : m.deeds pid p p.program = ([] : List (Pid × Ending)).map fun f =>
        .collected f.1 f.2 := by
      simp [hprogram, Machine.deeds]
    have hfound : Event.foundBy pid (es ++ m.events (.turn pid)) = Event.foundBy pid es ++ [] :=
      foundBy_of_deeds hp hdeeds
    rw [List.append_nil] at hfound
    obtain ⟨m₁, count, hstores, hm'⟩ := Machine.step_note hp hlive hprogram hstep
    have hthere' {p' : Process Int} (hparent : p'.parent = p.parent) (child : Pid)
        (hchild : child ∈ left) :
        ∃ q, (m₁.update pid p').processes.get? child = some q ∧ q.parent = pid := by
      obtain ⟨q, hq, rfl⟩ := hthere child hchild
      exact there_update hp hq (congrArg (Table.get? · child) hstores.processes) hparent
    rcases hm' with rfl | rfl
    · -- the record is not yet written to its end
      refine ⟨_, left, Machine.get?_update_same _ _ _, hfound ▸ horder, ?_, hthere' rfl⟩
      rw [hfound]
      exact hprogram ▸ .notes record
    · exact ⟨_, left, Machine.get?_update_same _ _ _, hfound ▸ horder, hfound ▸ .waits, hthere' rfl⟩

theorem Tended.interrupt (h : Tended pid pids es m p left) (hp : m.processes.get? pid = some p)
    (hmove : m.move (.interrupt pid) = some m') : ∃ p', m'.processes.get? pid = some p' ∧
      Tended pid pids (es ++ m.events (.interrupt pid)) m' p' left := by
  have hfound : Event.foundBy pid (es ++ m.events (.interrupt pid)) = Event.foundBy pid es := by
    obtain ⟨_, -, -, hevent⟩ := Machine.interrupt_live hmove
    simp [Event.foundBy, Event.deedsOf, hevent]
  obtain ⟨p₁, hp₁, -, ⟨child, next, hprogram, rfl⟩ | ⟨child, next, hprogram, -⟩⟩ :=
    Machine.interrupt_cases hmove
  · cases hp.symm.trans hp₁
    refine ⟨p, Machine.get?_update_same _ _ _, hfound ▸ h.order, hfound ▸ h.stance,
      fun child hchild => ?_⟩
    obtain ⟨q, hq, rfl⟩ := h.there child hchild
    exact there_update hp hq rfl rfl
  · -- there is no look at a child without waiting
    cases hp.symm.trans hp₁
    generalize hstatuses : ((Event.foundBy pid es).map fun f => statusOf (f.2.report f.1)) =
      statuses
    obtain hstance := hstatuses ▸ h.stance
    generalize p.program = program at hstance hprogram
    cases hstance with
    | notes => cases hprogram
    | waits =>
      cases left with
      | nil => cases hprogram
      | cons =>
        rw [remaining_cons] at hprogram
        cases hprogram

theorem Tended.others (h : Tended pid pids es m p left)
    (hs : m.Sound) (hactor : mv.actor? ≠ some pid)
    (hsame : p.Same p') (hmove : m.move mv = some m') (hp' : m'.processes.get? pid = some p')
    (hending : p'.ending? = none) : Tended pid pids (es ++ m.events mv) m' p' left := by
  have hfound : Event.foundBy pid (es ++ m.events mv) = Event.foundBy pid es := by
    rw [Event.foundBy_append, Event.foundBy, Event.foundBy, Machine.deedsOf_events_of_ne hactor]
    exact List.append_nil _
  obtain ⟨parent, stopped, rfl⟩ := hsame
  refine ⟨hfound ▸ h.order, hfound ▸ h.stance, fun child hchild => ?_⟩
  obtain ⟨q, hq, rfl⟩ := h.there child hchild
  exact Machine.move_custody hmove hs hq hactor ⟨_, hp', hending⟩

theorem tended_of_run {m₀ : Machine Int} {p₀ : Process Int}
    (hs : m₀.Sound) (hp₀ : m₀.processes.get? pid = some p₀)
    (hprogram : p₀.program = wait pids) (hdistinct : pids.Nodup)
    (hchildren : ∀ child ∈ pids, ∃ q, m₀.processes.get? child = some q ∧ q.parent = pid)
    (hrun : m₀.Run es m) (hp : m.processes.get? pid = some p) (hending : p.ending? = none) :
    ∃ left, Tended pid pids es m p left := by
  refine hrun.of_living (I := fun es m p => ∃ left, Tended pid pids es m p left) hs hp₀
    ?_ ?_ ?_ hp hending
  · refine ⟨pids.reverse, rfl, ?_, fun child hchild => hchildren child (List.mem_reverse.mp hchild)⟩
    rw [hprogram]
    exact .waits
  · rintro es m m' p mv - hp ⟨left, htended⟩ hactor hmove
    cases mv with
    | turn r =>
      obtain rfl : r = pid := Option.some.inj hactor
      obtain ⟨p', left', hp', htended'⟩ := htended.turn hdistinct hp hmove
      exact ⟨p', hp', left', htended'⟩
    | tick => cases hactor
    | interrupt r =>
      obtain rfl : r = pid := Option.some.inj hactor
      obtain ⟨p', hp', htended'⟩ := htended.interrupt hp hmove
      exact ⟨p', hp', left, htended'⟩
  · rintro es m m' p p' mv hsound - ⟨left, htended⟩ hactor hmove hp' hending hsame
    exact ⟨left, htended.others hsound hactor hsame hmove hp' hending⟩

theorem exists_endings {found : List (Pid × Ending)} (h : (found.map Prod.fst).Nodup) :
    ∃ endings : Pid → Ending, found = (found.map Prod.fst).map fun child =>
      (child, endings child) := by
  induction found with
  | nil => exact ⟨fun _ => .exited 0, rfl⟩
  | cons first rest ih =>
    obtain ⟨hfirst, hrest⟩ := List.nodup_cons.mp h
    obtain ⟨endings, hendings⟩ := ih hrest
    refine ⟨Function.update endings first.1 first.2, ?_⟩
    have hsame : ((rest.map Prod.fst).map fun child =>
        (child, Function.update endings first.1 first.2 child)) =
        (rest.map Prod.fst).map fun child => (child, endings child) := by
      refine List.map_congr_left fun child hchild => ?_
      have hne : child ≠ first.1 := fun heq => hfirst (heq ▸ hchild)
      rw [Function.update_of_ne hne]
    rw [List.map_cons, List.map_cons, hsame, ← hendings, Function.update_self]

/-- When the process has waited for all its children, it has collected them in this order, whenever
each of them ended. -/
theorem wait_of_run {m₀ : Machine Int} {p₀ : Process Int} {status : Int} (hs : m₀.Sound)
    (hp₀ : m₀.processes.get? pid = some p₀)
    (hprogram : p₀.program = wait pids) (hdistinct : pids.Nodup)
    (hchildren : ∀ child ∈ pids, ∃ q, m₀.processes.get? child = some q ∧ q.parent = pid)
    (hrun : m₀.Run es m) (hp : m.processes.get? pid = some p) (hending : p.ending? = none)
    (hdone : p.program = .done status) :
    ∃ endings : Pid → Ending,
      Event.foundBy pid es = pids.reverse.map (fun child => (child, endings child)) ∧
      status = statusAfter (fun child => (endings child).report child) pids := by
  obtain ⟨left, horder, hstance, -⟩ :=
    tended_of_run hs hp₀ hprogram hdistinct hchildren hrun hp hending
  have hfound : ((Event.foundBy pid es).map Prod.fst).Nodup := by
    have hreverse := List.nodup_reverse.mpr hdistinct
    rw [horder] at hreverse
    exact (List.nodup_append.mp hreverse).1
  obtain ⟨endings, hendings⟩ := exists_endings hfound
  generalize hstatuses : ((Event.foundBy pid es).map fun f => statusOf (f.2.report f.1)) =
    statuses at hstance
  rw [hdone] at hstance
  generalize hprogram' : (Program.done status : Program Int) = program at hstance
  cases hstance with
  | notes => cases hprogram'
  | waits =>
    cases left with
    | cons child rest =>
      rw [remaining_cons] at hprogram'
      cases hprogram'
    | nil =>
      rw [List.append_nil] at horder
      rw [← horder] at hendings
      refine ⟨endings, hendings, ?_⟩
      obtain rfl : status = (statuses ++ []).headD 0 := by
        cases hprogram'
        rfl
      rw [List.append_nil, ← hstatuses, hendings, List.map_map, ← headD_statuses]
      rfl

end Job

/-! ### Whole jobs -/

/-- Children that are all different are waited for in the reverse order, each until there is a
report about it and no longer, whatever the reports are; the status is that of the last one, and
nothing else depends on the reports. In every run of a machine all children are collected in this
order, whichever of them ends first. -/
theorem waits_in_reverse (pids : List Pid) (hdistinct : pids.Nodup) :
    (∀ t : Tidings,
      (∃ past, Course (Job.wait pids) past (some (Job.statusAfter t.report pids)) ∧
        ∀ pid ∈ pids, t.Tells pid past) ∧
      ∀ past result, Course (Job.wait pids) past result → (∀ pid ∈ pids, t.Tells pid past) →
        calls past <+: pids.reverse.flatMap t.waiting ∧
        ∀ status, result = some status → status = Job.statusAfter t.report pids ∧
          calls past = pids.reverse.flatMap t.waiting ∧
          reports past = pids.reverse.map fun pid => (pid, t.report pid)) ∧
    (∀ t t' : Tidings, (∀ last ∈ pids.getLast?, t.report last = t'.report last) →
      ∀ past past' status status', Course (Job.wait pids) past (some status) →
        (∀ pid ∈ pids, t.Tells pid past) →
        Course (Job.wait pids) past' (some status') → (∀ pid ∈ pids, t'.Tells pid past') →
        status = status' ∧ (reports past).map Prod.fst = (reports past').map Prod.fst) ∧
    ∀ (m₀ : Machine Int) (pid : Pid) (p₀ : Process Int), m₀.Sound →
      m₀.processes.get? pid = some p₀ → p₀.program = Job.wait pids →
      (∀ child ∈ pids, ∃ q, m₀.processes.get? child = some q ∧ q.parent = pid) →
      ∀ es m p status, m₀.Run es m →
        m.processes.get? pid = some p → p.ending? = none → p.program = .done status →
        ∃ endings : Pid → Ending,
          Event.foundBy pid es = pids.reverse.map (fun child => (child, endings child)) ∧
          status = Job.statusAfter (fun child => (endings child).report child) pids := by
  refine ⟨fun t => ⟨t.exists_course_wait hdistinct, fun past result hcourse htells => ?_⟩, ?_, ?_⟩
  · exact Tidings.course_wait hdistinct hcourse htells
  · intro t t' hlast past past' status status' hcourse htells hcourse' htells'
    obtain ⟨-, hresult⟩ := Tidings.course_wait hdistinct hcourse htells
    obtain ⟨-, hresult'⟩ := Tidings.course_wait hdistinct hcourse' htells'
    obtain ⟨rfl, -, hreports⟩ := hresult status rfl
    obtain ⟨rfl, -, hreports'⟩ := hresult' status' rfl
    refine ⟨Job.statusAfter_congr hlast, ?_⟩
    rw [hreports, hreports', List.map_map, List.map_map]
    rfl
  · intro m₀ pid p₀ hs hp₀ hprogram hchildren es m p status hrun hp hending hdone
    exact Job.wait_of_run hs hp₀ hprogram hdistinct hchildren hrun hp hending hdone

private def twiceInterrupted : Tidings where
  interruptions pid := if pid = 7 then 2 else 0
  report pid := if pid = 7 then .ok (.exited 7 5) else .error .noChild
  settled pid := by split <;> simp

/-- Waiting for the last child is interrupted twice; about the first one nothing is found out. -/
theorem waits_for_two_children : ∃ past, Course (Job.wait [3, 7]) past (some 5) ∧
    calls past = [.waitFor 7, .waitFor 7, .waitFor 7, .note (.finished 7 (.exited 7 5)), .waitFor 3,
      .note (.waitFailed 3 .noChild)] := by
  obtain ⟨⟨past, hcourse, htells⟩, hall⟩ := (waits_in_reverse [3, 7] (by decide)).1 twiceInterrupted
  obtain ⟨-, hcalls, -⟩ := (hall past _ hcourse htells).2 _ rfl
  exact ⟨past, hcourse, hcalls⟩

end PipeShell
