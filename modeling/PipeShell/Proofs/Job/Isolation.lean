import PipeShell.Proofs.Job.Lockstep
import PipeShell.Proofs.Job.Preparation
import PipeShell.Proofs.Job.WiringExact

/-!
What the stages of a pipeline have to do with each other. Whatever one of them is, and whatever
becomes of it, the interpreter does the same for the pipeline; the other stages are started with the
same pipes, take the same measures and are connected in the same way; and the status is the same,
unless it is the one of that stage.
-/

set_option autoImplicit false
set_option relaxedAutoImplicit false

namespace PipeShell

open Program

variable {α : Type}

def told (past : List (Exchange α)) (j : Nat) : Option (Except Errno (Option Int)) :=
  ((children past).map Prod.fst)[j]?.bind fun pid => ((reports past).lookup pid).map
    (Except.map WaitStatus.code?)

namespace Job

/-- The status of a job whose last child this is reported about. A job without children has the
status 0. -/
def statusTold : Option (Except Errno (Option Int)) → Int
  | some (.ok code?) => code?.getD unknownStatus
  | some (.error _) => unknownStatus
  | none => 0

theorem statusTold_report (report : Except Errno WaitStatus) :
    statusTold (some (report.map WaitStatus.code?)) = statusOf report := by
  cases report <;> rfl

end Job

namespace Pipeline

open Descriptors

/-! ### Single runs -/

/-- What becomes of a pipeline and of the children that are started for it. -/
structure Settled (p : Pipeline) (background : Background) (past : List (Exchange Outcome))
    (outcome : Outcome) : Prop where
  stopped : ∀ fatal, outcome.status = .error fatal →
    (children past).length < p.stages.length ∧ outcome.background = background
  complete : ∀ n, outcome.status = .ok n → (children past).length = p.stages.length
  /-- In the foreground all children are waited for, and the status is made of what is told about
  the last of them. -/
  awaited : ∀ n, outcome.status = .ok n → p.background = false →
    (reports past).map Prod.fst = ((children past).map Prod.fst).reverse ∧
      outcome.background = background ∧
      n = Job.statusTold (told past (p.stages.length - 1))
  detached : ∀ n, outcome.status = .ok n → p.background = true →
    n = 0 ∧ outcome.background.pids = background.pids ++ (children past).map Prod.fst

theorem Attends.unhandled {x : Program α} {past : List (Exchange α)} {result : Option α}
    {Q : α → Prop} (h : Course x past result) (hx : x.Confined Attends False Q) :
    handlings past = [] := by
  obtain ⟨hcalls, hforks, -⟩ := h.of_confined hx
  refine List.filterMap_eq_nil_iff.mpr fun exchange hmem => ?_
  cases exchange with
  | called c reply? =>
    have hattends := hcalls c reply? hmem
    cases c with
    | pipe | close => exact hattends.elim
    | _ => rfl
  | forked child reply => exact (hforks child reply hmem).elim
  | transferred | flooded => rfl

theorem execute_parts {p : Pipeline} {background : Background}
    {number : Nat} {previous : Option Link} {stages : List Stage}
    {launched after : List (Exchange Outcome)} {result : Except Fatal (List Pid)}
    {outcome : Outcome} (hlaunch : Launch number previous stages launched result)
    (hafter : Course (p.follow background result) after (some outcome)) (record : Log.Record) :
    handlings (.called (.note record) (some ()) :: (launched ++ after)) = handlings launched ∧
      children (.called (.note record) (some ()) :: (launched ++ after)) = children launched ∧
      reports (.called (.note record) (some ()) :: (launched ++ after)) = reports after := by
  have hattends := p.follow_attends background result
  refine ⟨?_, children_execute _ (hafter.childless hattends), hlaunch.reports_execute record after⟩
  show handlings (launched ++ after) = _
  rw [handlings_append, Attends.unhandled hafter hattends, List.append_nil]

theorem follow_detached {p : Pipeline} {background : Background}
    {pids : List Pid} {after : List (Exchange Outcome)} {outcome : Outcome}
    (hlength : pids.length = p.stages.length) (hbackground : p.background = true)
    (h : Course (p.follow background (.ok pids)) after (some outcome)) :
    outcome = ⟨.ok 0, ⟨background.pids ++ pids⟩⟩ := by
  by_cases hstages : p.stages = []
  · obtain rfl : pids = [] := List.length_eq_zero_iff.mp (by rw [hlength, hstages]; rfl)
    have hfollow : p.follow background (.ok []) = pure ⟨.ok 0, background⟩ :=
      if_pos (by simpa using hstages)
    rw [hfollow] at h
    obtain ⟨-, rfl⟩ := course_done_iff.mp h
    rw [List.append_nil]
  · have hfollow : p.follow background (.ok pids) = p.attend background pids :=
      if_neg (by simpa using hstages)
    rw [hfollow, attend, hbackground] at h
    obtain ⟨_, rest, rfl, hrest⟩ := (course_call_iff (by simp)).mp h
    exact (course_done_iff.mp hrest).2

theorem follow_awaited {p : Pipeline} {background : Background}
    {started : List (Pid × Program Outcome)} {after : List (Exchange Outcome)} {outcome : Outcome}
    (hlength : started.length = p.stages.length) (hforeground : p.background = false)
    (h : Course (p.follow background (.ok (started.map Prod.fst))) after (some outcome)) :
    (reports after).map Prod.fst = (started.map Prod.fst).reverse ∧
      outcome.background = background ∧ outcome.status =
        .ok (Job.statusTold ((started.map Prod.fst)[p.stages.length - 1]?.bind fun pid =>
        ((reports after).lookup pid).map (Except.map WaitStatus.code?))) := by
  by_cases hstages : p.stages = []
  · obtain rfl : started = [] := List.length_eq_zero_iff.mp (by rw [hlength, hstages]; rfl)
    have hfollow : p.follow background (.ok []) = pure ⟨.ok 0, background⟩ :=
      if_pos (by simpa using hstages)
    rw [List.map_nil, hfollow] at h
    obtain ⟨rfl, rfl⟩ := course_done_iff.mp h
    exact ⟨rfl, rfl, rfl⟩
  · have hfollow : p.follow background (.ok (started.map Prod.fst)) =
        p.attend background (started.map Prod.fst) :=
      if_neg (by simpa using hstages)
    rw [hfollow] at h
    have hstarted : started ≠ [] :=
      fun hnil => hstages (List.length_eq_zero_iff.mp (by rw [← hlength, hnil]; rfl))
    obtain ⟨hpids, -⟩ := course_attend hforeground h
    obtain ⟨last, child, report, hlast, hlookup, -, rfl⟩ :=
      course_attend_last hforeground hstarted h
    refine ⟨hpids, rfl, ?_⟩
    rw [List.getElem?_map, ← hlength, ← List.getLast?_eq_getElem?, hlast, Option.map_some,
      Option.bind_some, hlookup, Option.map_some, Job.statusTold_report]

theorem execute_settled {p : Pipeline} {background : Background} {past : List (Exchange Outcome)}
    {outcome : Outcome} (h : Course ((Action.run p).execute background) past (some outcome)) :
    Settled p background past outcome := by
  obtain ⟨launched, result, after, rfl, hlaunch, hafter⟩ := course_execute_iff.mp h
  obtain ⟨-, hchildren, hreports⟩ := execute_parts hlaunch hafter (.executing (.run p))
  cases result with
  | error fatal =>
    obtain ⟨-, rfl⟩ := course_done_iff.mp hafter
    have hfew := hlaunch.children_eq.2 fatal rfl
    exact ⟨fun _ _ => ⟨hchildren ▸ hfew, rfl⟩, fun n hn => (by cases hn), fun n hn => (by cases hn),
      fun n hn => (by cases hn)⟩
  | ok pids =>
    obtain ⟨rfl, hcount⟩ := hlaunch.children_eq.1 pids rfl
    have hlength : (children launched).length = p.stages.length := by rw [← hcount, List.length_map]
    obtain ⟨status, hstatus⟩ :=
      (hafter.of_confined (p.follow_attends background _)).2.2 outcome rfl ⟨_, rfl⟩
    constructor
    case stopped =>
      intro fatal hfatal
      cases hstatus.symm.trans hfatal
    case complete => exact fun _ _ => hchildren ▸ hlength
    case awaited =>
      intro n hn hforeground
      obtain ⟨hpids, hbackground, htold⟩ := follow_awaited hlength hforeground hafter
      rw [told, hchildren, hreports]
      exact ⟨hpids, hbackground, Except.ok.inj (hn.symm.trans htold)⟩
    case detached =>
      intro n hn hdetached
      obtain rfl := follow_detached hcount hdetached hafter
      rw [hchildren]
      exact ⟨(Except.ok.inj hn).symm, rfl⟩

/-! ### Two runs -/

/-- Pipelines that are the same but for one stage. -/
structure ButFor (k : Nat) (p p' : Pipeline) : Prop where
  background : p.background = p'.background
  length : p.stages.length = p'.stages.length
  others : ∀ j, j ≠ k → p.stages[j]? = p'.stages[j]?

/-- What two runs have in common in which pipelines are carried out that are the same but for one
stage. -/
structure Isolated (k : Nat) (p p' : Pipeline) (background : Background)
    (past past' : List (Exchange Outcome)) (outcome outcome' : Outcome) : Prop where
  /-- The same pipes are made, as many processes are started, and the same descriptors are closed,
  in the same order. -/
  handled : handlings past = handlings past'
  count : (children past).length = (children past').length
  settled : Settled p background past outcome ∧ Settled p' background past' outcome'
  /-- The processes of the other stages are the same. As long as their own calls are answered alike,
  they get along the same calls. -/
  siblings : ∀ j, j ≠ k → ∀ pid pid' child child', (children past)[j]? = some (pid, child) →
    (children past')[j]? = some (pid', child') → ∃ stage previous next, p.stages[j]? = some stage ∧
      p'.stages[j]? = some stage ∧
      child = stage.process previous next ∧ child' = stage.process previous next ∧
      ∀ v : Stage.Verdicts, ∃ cs, Stage.Prepared Outcome v stage previous next cs
  refused : ∀ fatal, outcome.status = .error fatal ↔ outcome'.status = .error fatal
  /-- The status is the same if the same is told about the other stages, unless it is that of the
  stage itself. -/
  status : p.background = true ∨ k + 1 ≠ p.stages.length →
    (∀ j, j ≠ k → told past j = told past' j) → outcome.status = outcome'.status

section

variable {p p' : Pipeline} {k : Nat} {background : Background}
  {past past' : List (Exchange Outcome)} {outcome outcome' : Outcome}

theorem follow_refused {result : Except Fatal (List Pid)} {after : List (Exchange Outcome)}
    (h : Course (p.follow background result) after (some outcome)) (fatal : Fatal) :
    outcome.status = .error fatal ↔ result = .error fatal := by
  cases result with
  | error reason =>
    obtain ⟨-, rfl⟩ := course_done_iff.mp h
    simp
  | ok pids =>
    obtain ⟨n, hn⟩ :=
      (h.of_confined (p.follow_attends background (.ok pids))).2.2 outcome rfl ⟨pids, rfl⟩
    simp [hn]

theorem status_of_told (hbut : ButFor k p p') (h : Settled p background past outcome)
    (h' : Settled p' background past' outcome')
    (hcount : (children past).length = (children past').length)
    (hrefused : ∀ fatal, outcome.status = .error fatal ↔ outcome'.status = .error fatal)
    (hplace : p.background = true ∨ k + 1 ≠ p.stages.length)
    (htold : ∀ j, j ≠ k → told past j = told past' j) :
    outcome.status = outcome'.status := by
  cases hstatus : outcome.status with
  | error fatal => exact ((hrefused fatal).mp hstatus).symm
  | ok n =>
    cases hstatus' : outcome'.status with
    | error fatal => cases hstatus.symm.trans ((hrefused fatal).mpr hstatus')
    | ok n' =>
      cases hbackground : p.background with
      | true =>
        obtain ⟨rfl, -⟩ := h.detached n hstatus hbackground
        obtain ⟨rfl, -⟩ := h'.detached n' hstatus' (hbut.background ▸ hbackground)
        rfl
      | false =>
        obtain ⟨-, -, rfl⟩ := h.awaited n hstatus hbackground
        obtain ⟨-, -, rfl⟩ := h'.awaited n' hstatus' (hbut.background ▸ hbackground)
        rw [← hbut.length]
        refine congrArg (fun t => Except.ok (Job.statusTold t)) ?_
        by_cases hlast : p.stages.length - 1 = k
        · -- then there are no stages at all
          have hnone : (children past).length = 0 := by
            have hplace := hplace.resolve_left (by simp [hbackground])
            rw [h.complete _ hstatus]
            omega
          have hnone' : (children past').length = 0 := hcount.symm.trans hnone
          rw [told, told, List.length_eq_zero_iff.mp hnone, List.length_eq_zero_iff.mp hnone']
          rfl
        · exact htold _ hlast

theorem execute_isolated (hbut : ButFor k p p')
    (hstrings : ∀ stage ∈ p.stages, stage.zeroByte? = none)
    (hstrings' : ∀ stage ∈ p'.stages, stage.zeroByte? = none)
    (h : Course ((Action.run p).execute background) past (some outcome))
    (h' : Course ((Action.run p').execute background) past' (some outcome'))
    (halike : Alike past past') :
    Isolated k p p' background past past' outcome outcome' := by
  have hsettled := execute_settled h
  have hsettled' := execute_settled h'
  obtain ⟨launched, result, after, rfl, hlaunch, hafter⟩ := course_execute_iff.mp h
  obtain ⟨launched', result', after', rfl, hlaunch', hafter'⟩ := course_execute_iff.mp h'
  obtain ⟨hhandled, hchildren, -⟩ := execute_parts hlaunch hafter (.executing (.run p))
  obtain ⟨hhandled', hchildren', -⟩ := execute_parts hlaunch' hafter' (.executing (.run p'))
  have habreast := hlaunch.abreast hlaunch' hbut.length hstrings hstrings' (halike.tail rfl).before
  have hcount := habreast.count
  rw [← hchildren, ← hchildren'] at hcount
  have hrefused (fatal : Fatal) : outcome.status = .error fatal ↔
      outcome'.status = .error fatal := by
    rw [follow_refused hafter, follow_refused hafter']
    exact habreast.refused fatal
  constructor
  case handled => rw [hhandled, hhandled', habreast.handled]
  case count => exact hcount
  case settled => exact ⟨hsettled, hsettled'⟩
  case siblings =>
    intro j hj pid pid' child child' hchild hchild'
    rw [hchildren] at hchild
    rw [hchildren'] at hchild'
    obtain ⟨stage, stage', previous, next, hstage, hstage', rfl, rfl⟩ :=
      habreast.linked hchild hchild'
    obtain rfl : stage = stage' := by
      rw [hbut.others j hj] at hstage
      exact Option.some.inj (hstage.symm.trans hstage')
    rw [hbut.others j hj]
    exact ⟨stage, previous, next, hstage', hstage', rfl, rfl,
      fun v => Stage.exists_prepared Outcome v stage previous next⟩
  case refused => exact hrefused
  case status => exact status_of_told hbut hsettled hsettled' hcount hrefused

/-- However one of the pipelines is carried out, the other one can be carried out alike, and the
same is told about its stages. -/
theorem exists_alike (hbut : ButFor k p p') (hstrings : ∀ stage ∈ p.stages, stage.zeroByte? = none)
    (hstrings' : ∀ stage ∈ p'.stages, stage.zeroByte? = none)
    (h : Course ((Action.run p).execute background) past (some outcome)) : ∃ past' outcome',
      Course ((Action.run p').execute background) past' (some outcome') ∧ Alike past past' ∧
      (children past).map Prod.fst = (children past').map Prod.fst ∧
      ∀ j, told past j = told past' j := by
  obtain ⟨launched, result, after, rfl, hlaunch, hafter⟩ := course_execute_iff.mp h
  obtain ⟨launched', hlaunch', hhandled, hpids⟩ :=
    hlaunch.exists_counterpart hbut.length hstrings hstrings'
  -- what follows on the start is the same for both
  have hfollow : p.follow background result = p'.follow background result := by
    cases result with
    | error fatal => rfl
    | ok pids => simp only [follow, attend, isEmpty_congr hbut.length, hbut.background]
  have hafter' : Course (p'.follow background result) after (some outcome) := hfollow ▸ hafter
  obtain ⟨hhandles, hchildren, hreports⟩ := execute_parts hlaunch hafter (.executing (.run p))
  obtain ⟨hhandles', hchildren', hreports'⟩ := execute_parts hlaunch' hafter' (.executing (.run p'))
  refine ⟨_, outcome, course_execute_iff.mpr ⟨launched', result, after, rfl, hlaunch', hafter'⟩,
    .of_handlings ?_, ?_, fun j => ?_⟩
  · rw [hhandles, hhandles', hhandled]
  · rw [hchildren, hchildren', hpids]
  · rw [told, told, hchildren, hchildren', hreports, hreports', hpids]

end

/-! ### On machines -/

structure Carries (m : Machine Report) (pid : Pid) (p₀ : Process Report) (p : Pipeline)
    (background : Background) : Prop where
  sound : m.Sound
  there : m.processes.get? pid = some p₀
  calm : p₀.rendezvous? = none
  program : p₀.program = do return .outcome (← Action.execute (.run p) background)
  input : p₀.descriptors.get? Fd.input ≠ none
  output : p₀.descriptors.get? Fd.output ≠ none

structure Ready (m : Machine Report) (pid : Pid) (q : Process Report)
    (arguments : List Bytes) : Prop where
  there : m.processes.get? pid = some q
  living : q.ending? = none
  unloaded : q.loaded = false
  program : ∃ next, q.program = .call (.exec arguments) next

/-- Pipes that were made for the same place in two runs. -/
def SamePlace (pipes pipes' : List Nat) (n n' : Nat) : Prop :=
  ∃ j : Nat, pipes[j]? = some n ∧ pipes'[j]? = some n'

/-- Where descriptors lead in two runs that have pipes and opened files of their own: to the same
place as before, to the same end of pipes for the same place, or to the file that was asked for in
the same way. -/
inductive Corresponds (before? : Option Handle) (pipes pipes' : List Nat)
    (opened opened' : List Opening) : Option Handle → Option Handle → Prop
  | kept : Corresponds before? pipes pipes' opened opened' before? before?
  | readEnd {n n' : Nat} : SamePlace pipes pipes' n n' →
      Corresponds before? pipes pipes' opened opened' (some (.readEnd n)) (some (.readEnd n'))
  | writeEnd {n n' : Nat} : SamePlace pipes pipes' n n' →
      Corresponds before? pipes pipes' opened opened' (some (.writeEnd n)) (some (.writeEnd n'))
  | file {path : Bytes} {access : Access} {handle handle' : Handle} :
      ⟨path, access, handle⟩ ∈ opened → ⟨path, access, handle'⟩ ∈ opened' →
      Corresponds before? pipes pipes' opened opened' (some handle) (some handle')

theorem attached_corresponds {base : Wires} {fd : Fd}
    {pipes pipes' : List Nat} {before before' : Option Nat}
    {pipeEnd : Nat → Handle} {request? : Option (Bytes × Access)} {g g' : Stage.Plumbing}
    (hends : ∀ n n', SamePlace pipes pipes' n n' →
      Corresponds (base fd) pipes pipes' g.opened g'.opened (some (pipeEnd n)) (some (pipeEnd n')))
    (hpipes : Option.Rel (SamePlace pipes pipes') before before')
    (h : Stage.Attached base fd (before.map pipeEnd) request? g)
    (h' : Stage.Attached base fd (before'.map pipeEnd) request? g') :
    Corresponds (base fd) pipes pipes' g.opened g'.opened (g.wires fd) (g'.wires fd) := by
  unfold Stage.Attached at h h'
  cases hpipes with
  | some hplace =>
    rw [show g.wires fd = _ from h, show g'.wires fd = _ from h']
    exact hends _ _ hplace
  | none =>
    cases request? with
    | none =>
      rw [show g.wires fd = _ from h, show g'.wires fd = _ from h']
      exact .kept
    | some request =>
      obtain ⟨handle, hmem, hwires⟩ := h
      obtain ⟨handle', hmem', hwires'⟩ := h'
      rw [hwires, hwires']
      exact .file hmem hmem'

theorem wired_corresponds {base : Wires} {stage : Stage} {pipes pipes' : List Nat}
    {before before' behind behind' : Option Nat} {g g' : Stage.Plumbing}
    (h : Stage.Wired base stage before behind g) (h' : Stage.Wired base stage before' behind' g')
    (hbefore : Option.Rel (SamePlace pipes pipes') before before')
    (hbehind : Option.Rel (SamePlace pipes pipes') behind behind') (fd : Fd) :
    Corresponds (base fd) pipes pipes' g.opened g'.opened (g.wires fd) (g'.wires fd) := by
  by_cases hin : fd = Fd.input
  · subst hin
    exact attached_corresponds (fun _ _ => .readEnd) hbefore h.input h'.input
  · by_cases hout : fd = Fd.output
    · subst hout
      exact attached_corresponds (fun _ _ => .writeEnd) hbehind h.output h'.output
    · rw [h.others fd hin hout, h'.others fd hin hout]
      exact .kept

theorem ExactlyWired.pipe_iff {base : Wires} {stages : List Stage} {pid : Pid}
    {es : List Event} {m : Machine Report} (h : ExactlyWired base stages pid es m) {i j : Nat}
    (hi : i < (Event.startedBy pid es).length) (hj : j ≤ i) :
    j < (Event.pipedBy pid es).length ↔ j + 1 < stages.length := by
  obtain ⟨hstarted, hpiped, hboth⟩ := h.counted
  omega

theorem rel_getElem? {pipes pipes' : List Nat} {j : Nat}
    (h : j < pipes.length ↔ j < pipes'.length) :
    Option.Rel (SamePlace pipes pipes') pipes[j]? pipes'[j]? := by
  by_cases hj : j < pipes.length
  · have hn := List.getElem?_eq_getElem hj
    have hn' := List.getElem?_eq_getElem (h.mp hj)
    rw [hn, hn']
    exact .some ⟨j, hn, hn'⟩
  · rw [List.getElem?_eq_none (Nat.le_of_not_lt hj),
      List.getElem?_eq_none (Nat.le_of_not_lt (mt h.mpr hj))]
    exact .none

section

variable {p p' : Pipeline} {k : Nat} {background : Background} {m₀ m₀' m m' : Machine Report}
  {pid pid' : Pid} {p₀ p₀' : Process Report} {es es' : List Event}

theorem ready_corresponds (hbut : ButFor k p p') (h : Carries m₀ pid p₀ p background)
    (h' : Carries m₀' pid' p₀' p' background) (hwires : p₀.descriptors.get? = p₀'.descriptors.get?)
    (hrun : m₀.Run es m) (hrun' : m₀'.Run es' m') {j : Nat} (hj : j ≠ k) {c c' : Pid}
    (hc : (Event.startedBy pid es)[j]? = some c) (hc' : (Event.startedBy pid' es')[j]? = some c')
    {q q' : Process Report} {arguments arguments' : List Bytes} (hready : Ready m c q arguments)
    (hready' : Ready m' c' q' arguments') : arguments = arguments' ∧
      ∀ fd, Corresponds (p₀.descriptors.get? fd) (Event.pipedBy pid es) (Event.pipedBy pid' es')
        (Event.preparations c es) (Event.preparations c' es') (q.descriptors.get? fd)
        (q'.descriptors.get? fd) := by
  have hexact := wiring_exact h.sound h.there h.calm h.program h.input h.output hrun
  have hexact' := wiring_exact h'.sound h'.there h'.calm h'.program h'.input h'.output hrun'
  obtain ⟨next, hprogram⟩ := hready.program
  obtain ⟨next', hprogram'⟩ := hready'.program
  obtain ⟨stage, hstage, rfl, hwired, -⟩ :=
    hexact.wired j c q arguments next hc hready.there hready.living hready.unloaded hprogram
  obtain ⟨stage', hstage', rfl, hwired', -⟩ :=
    hexact'.wired j c' q' arguments' next' hc' hready'.there hready'.living
      hready'.unloaded hprogram'
  rw [hbut.others j hj] at hstage
  obtain rfl : stage = stage' := Option.some.inj (hstage.symm.trans hstage')
  -- the pipes before the stage and behind it are there in both runs or in neither
  have hplaces (i : Nat) (hi : i ≤ j) :
      Option.Rel (SamePlace (Event.pipedBy pid es) (Event.pipedBy pid' es'))
        (Event.pipedBy pid es)[i]? (Event.pipedBy pid' es')[i]? := by
    apply rel_getElem?
    rw [hexact.pipe_iff (List.getElem?_eq_some_iff.mp hc).1 hi,
      hexact'.pipe_iff (List.getElem?_eq_some_iff.mp hc').1 hi, hbut.length]
  have hbefore : Option.Rel (SamePlace (Event.pipedBy pid es) (Event.pipedBy pid' es'))
      (pipeBefore (Event.pipedBy pid es) j) (pipeBefore (Event.pipedBy pid' es') j) := by
    cases j with
    | zero => exact .none
    | succ i => exact hplaces i (Nat.le_succ i)
  rw [← hwires] at hwired'
  exact ⟨rfl, wired_corresponds hwired hwired' hbefore (hplaces j (Nat.le_refl j))⟩

theorem Carries.accounts (h : Carries m₀ pid p₀ p background) (hrun : m₀.Run es m)
    {q : Process Report} {outcome : Outcome} (hq : m.processes.get? pid = some q)
    (hending : q.ending? = none) (hdone : q.program = .done (.outcome outcome)) :
    ∃ past d, Course ((Action.run p).execute background) past (some outcome) ∧
      Rationed p₀.limit { wires := p₀.descriptors.get? }
        (past.map (Exchange.andThen fun o => .done (Report.outcome o))) d ∧
      (children past).map Prod.fst = Event.startedBy pid es := by
  have hconfined : p₀.program.Confined Manages True fun _ => True := by
    rw [h.program]
    exact .bind ((execute_manages p background).imp fun _ _ => trivial)
  obtain ⟨-, past, d, haccounts⟩ := accounts_of_run h.sound h.there hconfined hrun hq hending
  have hcourse := haccounts.leaves [] (some (.outcome outcome)) (hdone ▸ .done _)
  rw [List.append_nil, h.program] at hcourse
  obtain ⟨before, after, outcome', rfl, hbefore, hafter⟩ := course_bind_iff.mp hcourse
  obtain ⟨rfl, heq⟩ := course_done_iff.mp hafter
  obtain rfl : outcome = outcome' := Report.outcome.inj heq
  have hstarted := haccounts.started
  have hrationed := haccounts.rationed
  rw [List.append_nil] at hstarted hrationed
  refine ⟨before, d, hbefore, hrationed, ?_⟩
  rw [← hstarted, children_andThen, List.map_map]
  rfl

end

/-- What two runs of machines have in common on which pipelines are carried out that are the same
but for one stage. -/
structure IsolatedRuns (k : Nat) (p p' : Pipeline) (background : Background) (base : Wires)
    (pid pid' : Pid) (es es' : List Event) (m m' : Machine Report) : Prop where
  /-- The other stages have the same arguments and the same descriptors when their programs are
  about to run. -/
  ready : ∀ j, j ≠ k → ∀ c c' q q' arguments arguments', (Event.startedBy pid es)[j]? = some c →
    (Event.startedBy pid' es')[j]? = some c' → Ready m c q arguments →
    Ready m' c' q' arguments' → arguments = arguments' ∧
    ∀ fd, Corresponds (base fd)
      (Event.pipedBy pid es) (Event.pipedBy pid' es') (Event.preparations c es)
      (Event.preparations c' es') (q.descriptors.get? fd) (q'.descriptors.get? fd)
  /-- When both pipelines are done, the interpreters have done the same for them. -/
  done : ∀ q q' outcome outcome', m.processes.get? pid = some q → q.ending? = none →
    q.program = .done (.outcome outcome) → m'.processes.get? pid' = some q' → q'.ending? = none →
    q'.program = .done (.outcome outcome') →
      ∃ past past', Course ((Action.run p).execute background) past (some outcome) ∧
      Course ((Action.run p').execute background) past' (some outcome') ∧
      (children past).map Prod.fst = Event.startedBy pid es ∧
      (children past').map Prod.fst = Event.startedBy pid' es' ∧
      Isolated k p p' background past past' outcome outcome'

/-- Two pipelines that are the same but for one stage, without zero bytes in their arguments, are
carried out in the same way, as long as pipes and processes behave alike: the interpreter does the
same for both, all children are waited for or kept in mind, the other stages are the same processes,
and the status is the same unless it is that of the stage. Each of them can be carried out like the
other. On machines pipes and processes behave alike by themselves, whatever else goes on there, and
the other stages are connected in the same way. -/
theorem isolates_stage {p p' : Pipeline} {k : Nat} (hbut : ButFor k p p')
    (hstrings : ∀ stage ∈ p.stages, stage.zeroByte? = none)
    (hstrings' : ∀ stage ∈ p'.stages, stage.zeroByte? = none) (background : Background) :
    (∀ past past' outcome outcome', Course ((Action.run p).execute background) past (some outcome) →
      Course ((Action.run p').execute background) past' (some outcome') → Alike past past' →
      Isolated k p p' background past past' outcome outcome') ∧
    (∀ past outcome, Course ((Action.run p).execute background) past (some outcome) →
      ∃ past' outcome', Course ((Action.run p').execute background) past' (some outcome') ∧
        Alike past past' ∧ (children past).map Prod.fst = (children past').map Prod.fst ∧
        ∀ j, told past j = told past' j) ∧
    ∀ (m₀ m₀' : Machine Report) (pid pid' : Pid) (p₀ p₀' : Process Report),
      Carries m₀ pid p₀ p background → Carries m₀' pid' p₀' p' background →
      p₀.descriptors.get? = p₀'.descriptors.get? → p₀.limit = p₀'.limit →
      ∀ es es' m m', m₀.Run es m → m₀'.Run es' m' →
        IsolatedRuns k p p' background p₀.descriptors.get? pid pid' es es' m m' := by
  refine ⟨fun past past' outcome outcome' => execute_isolated hbut hstrings hstrings',
    fun past outcome => exists_alike hbut hstrings hstrings', ?_⟩
  intro m₀ m₀' pid pid' p₀ p₀' h h' hwires hlimit es es' m m' hrun hrun'
  constructor
  case ready =>
    intro j hj c c' q q' arguments arguments' hc hc' hready hready'
    exact ready_corresponds hbut h h' hwires hrun hrun' hj hc hc' hready hready'
  case done =>
    intro q q' outcome outcome' hq hending hdone hq' hending' hdone'
    obtain ⟨past, d, hcourse, hrationed, hstarted⟩ := h.accounts hrun hq hending hdone
    obtain ⟨past', d', hcourse', hrationed', hstarted'⟩ := h'.accounts hrun' hq' hending' hdone'
    rw [← hwires, ← hlimit] at hrationed'
    have halike := (alike_of_rationed hrationed hrationed').of_andThen
    exact ⟨past, past', hcourse, hcourse', hstarted, hstarted',
      execute_isolated hbut hstrings hstrings' hcourse hcourse' halike⟩

private def counting (background : Bool) : Pipeline :=
  ⟨[⟨["cat"], none, none⟩, ⟨["sort"], none, none⟩, ⟨["wc"], none, none⟩], background⟩

private def gapped (background : Bool) : Pipeline :=
  ⟨[⟨["cat"], none, none⟩, ⟨[], some "none", none⟩, ⟨["wc"], none, none⟩], background⟩

private theorem butFor_gapped (background : Bool) :
    ButFor 1 (counting background) (gapped background) := by
  refine ⟨rfl, rfl, fun j hj => ?_⟩
  match j with
  | 0 => rfl
  | 1 => exact absurd rfl hj
  | j + 2 => rfl

private theorem counting_course {background : Bool} {before : Background} {outcome : Outcome}
    {after : List (Exchange Outcome)}
    (h : Course ((counting background).attend before [7, 8, 9]) after (some outcome)) :
    ∃ past, Course ((Action.run (counting background)).execute before) past (some outcome) ∧
      (children past).map Prod.fst = 7 :: 8 :: 9 :: (children after).map Prod.fst := by
  constructor
  constructor
  · apply Course.answered (c := .note _) ()
    apply Course.answered (c := .pipe) (.ok (3, 4))
    apply Course.forked (.ok 7)
    apply Course.answered (c := .note _) ()
    apply Course.answered (c := .pipe) (.ok (5, 6))
    apply Course.forked (.ok 8)
    apply Course.answered (c := .note _) ()
    apply Course.answered (c := .close 3) ()
    apply Course.answered (c := .close 4) ()
    apply Course.forked (.ok 9)
    apply Course.answered (c := .note _) ()
    apply Course.answered (c := .close 5) ()
    apply Course.answered (c := .close 6) ()
    exact h
  · rfl

/-- The stage in the middle cannot run at all. In the foreground the last one is waited for with the
same status; in the background all three are kept in mind behind the process that is there
already. -/
theorem isolates_gap :
    (∃ past past' outcome',
      Course ((Action.run (counting false)).execute {}) past (some ⟨.ok 5, {}⟩) ∧
      Course ((Action.run (gapped false)).execute {}) past' (some outcome') ∧
      handlings past = handlings past' ∧
      (reports past').map Prod.fst = ((children past').map Prod.fst).reverse ∧
      (children past').length = 3 ∧ outcome'.status = .ok 5) ∧
    ∃ past past' outcome',
      Course ((Action.run (counting true)).execute ⟨[4]⟩) past (some ⟨.ok 0, ⟨[4, 7, 8, 9]⟩⟩) ∧
      Course ((Action.run (gapped true)).execute ⟨[4]⟩) past' (some outcome') ∧
      handlings past = handlings past' ∧ outcome'.status = .ok 0 ∧
      outcome'.background.pids = [4, 7, 8, 9] := by
  constructor
  · obtain ⟨after, hwait⟩ : ∃ after,
        Course ((counting false).attend {} [7, 8, 9]) after (some ⟨.ok 5, {}⟩) := by
      constructor
      apply Course.answered (c := .waitFor 9) (.ok (.exited 9 5))
      apply Course.answered (c := .note _) ()
      apply Course.answered (c := .waitFor 8) (.ok (.exited 8 0))
      apply Course.answered (c := .note _) ()
      apply Course.answered (c := .waitFor 7) (.ok (.exited 7 0))
      apply Course.answered (c := .note _) ()
      exact .done _
    obtain ⟨past, hcourse, -⟩ := counting_course hwait
    obtain ⟨hisolated, hcounterpart, -⟩ :=
      isolates_stage (butFor_gapped false) (by decide +kernel) (by decide +kernel) {}
    obtain ⟨past', outcome', hcourse', halike, -, htold⟩ := hcounterpart past _ hcourse
    have h := hisolated past past' _ outcome' hcourse hcourse' halike
    have hstatus := h.status (.inr (by decide)) fun j _ => htold j
    obtain ⟨hpids, -, -⟩ := h.settled.2.awaited 5 hstatus.symm rfl
    exact ⟨past, past', outcome', hcourse, hcourse', h.handled, hpids,
      h.settled.2.complete 5 hstatus.symm, hstatus.symm⟩
  · have hkeep : Course ((counting true).attend ⟨[4]⟩ [7, 8, 9])
        [.called (.note (.detached [7, 8, 9])) (some ())] (some ⟨.ok 0, ⟨[4, 7, 8, 9]⟩⟩) :=
      .answered (c := .note _) () (.done _)
    obtain ⟨past, hcourse, hpids⟩ := counting_course hkeep
    obtain ⟨hisolated, hcounterpart, -⟩ :=
      isolates_stage (butFor_gapped true) (by decide +kernel) (by decide +kernel) ⟨[4]⟩
    obtain ⟨past', outcome', hcourse', halike, hsame, htold⟩ := hcounterpart past _ hcourse
    have h := hisolated past past' _ outcome' hcourse hcourse' halike
    have hstatus := h.status (.inl rfl) fun j _ => htold j
    obtain ⟨-, hbackground⟩ := h.settled.2.detached 0 hstatus.symm rfl
    rw [← hsame, hpids] at hbackground
    exact ⟨past, past', outcome', hcourse, hcourse', h.handled, hstatus.symm, hbackground⟩

end Pipeline

end PipeShell
