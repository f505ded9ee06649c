import PipeShell.Proofs.Job.Launch

/-!
What waiting for the processes of a pipeline comes to. Each of them is waited for until there is a
report about it, the last one first; the status of the pipeline is made of that first report.
-/

set_option autoImplicit false
set_option relaxedAutoImplicit false

namespace PipeShell

open Program

variable {α β : Type}

/-- What is found out in an exchange about a child that is waited for. An interruption is no
report. -/
def Exchange.report? : Exchange α → Option (Pid × Except Errno WaitStatus)
  | .called (.waitFor _) (some (.error .interrupted)) => none
  | .called (.waitFor pid) (some report) => some (pid, report)
  | _ => none

def reports (past : List (Exchange α)) : List (Pid × Except Errno WaitStatus) :=
  past.filterMap Exchange.report?

theorem reports_append (past more : List (Exchange α)) :
    reports (past ++ more) = reports past ++ reports more :=
  List.filterMap_append

theorem reports_eq_nil {past : List (Exchange α)}
    (h : ∀ pid reply?, .called (.waitFor pid) reply? ∉ past) : reports past = [] := by
  refine List.filterMap_eq_nil_iff.mpr fun exchange hmem => ?_
  cases exchange with
  | called c reply? =>
    cases c with
    | waitFor pid => exact absurd hmem (h pid reply?)
    | _ => rfl
  | forked | transferred | flooded => rfl

theorem called_of_mem_reports {past : List (Exchange α)} {pid : Pid}
    {report : Except Errno WaitStatus} (h : (pid, report) ∈ reports past) :
    .called (.waitFor pid) (some report) ∈ past := by
  obtain ⟨exchange, hmem, heq⟩ := List.mem_filterMap.mp h
  unfold Exchange.report? at heq
  split at heq
  · cases heq
  · cases heq
    exact hmem
  · cases heq

namespace Job

def statusOf : Except Errno WaitStatus → Int
  | .ok status => status.code?.getD unknownStatus
  | .error _ => unknownStatus

theorem statusOf_eq_zero_iff {report : Except Errno WaitStatus} :
    statusOf report = 0 ↔ ∃ pid, report = .ok (.exited pid 0) := by
  constructor
  · intro h
    cases report with
    | error reason => cases h
    | ok status =>
      cases status with
      | exited pid code =>
        obtain rfl : code = 0 := h
        exact ⟨pid, rfl⟩
      | signaled pid signal dumped =>
        have hsum : (128 : Int) + signal.number = 0 := h
        omega
      | stopped | continued | stillAlive => cases h
  · rintro ⟨pid, rfl⟩
    rfl

theorem statusOf_bounds {report : Except Errno WaitStatus}
    (hcode : ∀ pid code, report = .ok (.exited pid code) → 0 ≤ code ∧ code ≤ 255) :
    0 ≤ statusOf report ∧ statusOf report ≤ 255 := by
  have hunknown : 0 ≤ unknownStatus ∧ unknownStatus ≤ 255 := by decide
  cases report with
  | error reason => exact hunknown
  | ok status =>
    cases status with
    | exited pid code => exact hcode pid code rfl
    | signaled pid signal dumped =>
      have hnamed := signal.named
      show 0 ≤ (128 : Int) + signal.number ∧ (128 : Int) + signal.number ≤ 255
      omega
    | stopped | continued | stillAlive => exact hunknown

def recordOf (pid : Pid) : Except Errno WaitStatus → Log.Record
  | .ok status => .finished pid status
  | .error reason => .waitFailed pid reason

theorem await_bind (pid : Pid) (f : Int → Program β) : (await pid >>= f) = .call (.waitFor pid)
    fun reply => .call (.note (recordOf pid reply)) fun _ => f (statusOf reply) := by
  refine congrArg (Program.call (.waitFor pid)) (funext fun reply => ?_)
  cases reply <;> rfl

theorem awaitEach_cons_bind (pid : Pid) (rest : List Pid) (f : List Int → Program β) :
    (awaitEach (pid :: rest) >>= f) =
      (await pid >>= fun status => awaitEach rest >>= fun others => f (status :: others)) :=
  (bind_assoc _ _ f).trans (congrArg (await pid >>= ·) (funext fun _ => bind_assoc _ _ f))

theorem course_await {pid : Pid} {f : Int → Program β} {past : List (Exchange β)} {b : β}
    (h : Course (await pid >>= f) past (some b)) : ∃ waiting report after, past = waiting ++ after ∧
      reports waiting = [(pid, report)] ∧ Course (f (statusOf report)) after (some b) := by
  rw [await_bind] at h
  -- every interruption leads back to the same call
  induction past with
  | nil => cases h
  | cons exchange past ih =>
    rcases h.of_call with ⟨hnil, -⟩ | ⟨-, hnone⟩ | ⟨reply, rest, heq, hrest⟩
    · cases hnil
    · cases hnone
    obtain ⟨rfl, rfl⟩ := List.cons.inj heq
    by_cases hinterrupted : reply = .error .interrupted
    · subst hinterrupted
      obtain ⟨waiting, report, after, rfl, hreports, hafter⟩ := ih hrest
      exact ⟨_ :: waiting, report, after, rfl, hreports, hafter⟩
    · obtain ⟨hsettled, hreport⟩ : (Call.waitFor pid).isInterrupted reply = false ∧
          (Exchange.called (.waitFor pid) (some reply) : Exchange β).report? =
            some (pid, reply) := by
        cases reply with
        | ok status => exact ⟨rfl, rfl⟩
        | error reason =>
          cases reason with
          | interrupted => exact absurd rfl hinterrupted
          | _ => exact ⟨rfl, rfl⟩
      rw [resume, hsettled] at hrest
      obtain ⟨_, after, rfl, hafter⟩ := (course_call_iff (by simp)).mp hrest
      refine ⟨[.called (.waitFor pid) (some reply), .called (.note (recordOf pid reply)) (some ())],
        reply, after, rfl, ?_, hafter⟩
      rw [reports, List.filterMap_cons_some hreport]
      rfl

theorem course_awaitEach {pids : List Pid} {b : β} :
    ∀ {f : List Int → Program β} {past : List (Exchange β)},
    Course (awaitEach pids >>= f) past (some b) → ∃ waiting after, past = waiting ++ after ∧
      (reports waiting).map Prod.fst = pids ∧
      Course (f ((reports waiting).map fun r => statusOf r.2)) after (some b) := by
  induction pids with
  | nil =>
    intro f past h
    exact ⟨[], past, rfl, rfl, h⟩
  | cons pid rest ih =>
    intro f past h
    rw [awaitEach_cons_bind] at h
    obtain ⟨first, report, more, rfl, hfirst, hmore⟩ := course_await h
    obtain ⟨others, after, rfl, hothers, hafter⟩ := ih hmore
    refine ⟨first ++ others, after, (List.append_assoc ..).symm, ?_, ?_⟩
    · rw [reports_append, hfirst, List.map_append, hothers]
      rfl
    · rw [reports_append, hfirst]
      exact hafter

end Job

namespace Pipeline

theorem Launch.reports_execute {number : Nat} {previous : Option Link}
    {rest : List Stage} {launched : List (Exchange α)} {result : Except Fatal (List Pid)}
    (h : Launch number previous rest launched result) (record : Log.Record)
    (after : List (Exchange α)) :
    reports (.called (.note record) (some ()) :: (launched ++ after)) = reports after := by
  show reports (launched ++ after) = _
  rw [reports_append, reports_eq_nil fun pid reply? hmem => h.launches hmem, List.nil_append]

theorem course_attend {p : Pipeline} {background : Background} {pids : List Pid}
    {past : List (Exchange Outcome)} {outcome : Outcome} (hforeground : p.background = false)
    (h : Course (p.attend background pids) past (some outcome)) :
    (reports past).map Prod.fst = pids.reverse ∧
      outcome = ⟨.ok (((reports past).map fun r => Job.statusOf r.2).headD 0), background⟩ := by
  have hattend : p.attend background pids = (Job.awaitEach pids.reverse >>= fun statuses =>
      .done ⟨.ok (statuses.headD 0), background⟩) := by
    unfold attend
    rw [hforeground]
    exact bind_assoc _ _ _
  rw [hattend] at h
  obtain ⟨waiting, after, rfl, hpids, hafter⟩ := Job.course_awaitEach h
  obtain ⟨rfl, rfl⟩ := course_done_iff.mp hafter
  rw [List.append_nil]
  exact ⟨hpids, rfl⟩

/-- The status of a pipeline in the foreground is made of what is reported about its last child. -/
theorem course_attend_last {p : Pipeline} {background : Background}
    {started : List (Pid × Program α)} {past : List (Exchange Outcome)}
    {outcome : Outcome} (hforeground : p.background = false) (hstarted : started ≠ [])
    (h : Course (p.attend background (started.map Prod.fst)) past (some outcome)) :
    ∃ last child report, started.getLast? = some (last, child) ∧
      (reports past).lookup last = some report ∧ .called (.waitFor last) (some report) ∈ past ∧
      outcome = ⟨.ok (Job.statusOf report), background⟩ := by
  obtain ⟨hpids, rfl⟩ := course_attend hforeground h
  obtain ⟨front, ⟨last, child⟩, hlast⟩ := (List.eq_nil_or_concat started).resolve_left hstarted
  rw [List.concat_eq_append] at hlast
  -- the last child is the first that is waited for
  rw [hlast, List.map_append, List.reverse_append] at hpids
  obtain ⟨⟨pid, report⟩, others, hfirst, rfl, -⟩ := List.map_eq_cons_iff.mp hpids
  have hmem : (pid, report) ∈ reports past := hfirst ▸ List.mem_cons_self
  refine ⟨pid, child, report, ?_, ?_, called_of_mem_reports hmem, ?_⟩
  · rw [hlast, List.getLast?_concat]
  · rw [hfirst, List.lookup_cons_self]
  · rw [hfirst]
    rfl

end Pipeline

end PipeShell
