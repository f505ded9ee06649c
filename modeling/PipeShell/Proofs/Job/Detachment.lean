import PipeShell.Proofs.Job.Custody
import PipeShell.Proofs.Job.FirstFailure
import PipeShell.Proofs.Job.Isolation
import PipeShell.Proofs.Job.Waiting

/-!
The same stages in the background and in the foreground. They are started by the same exchanges with
the system and fail to start for the same reason. What differs is what follows: in the background
nobody is waited for and the processes are kept in mind, in the foreground all of them are waited
for and nothing is kept in mind.
-/

set_option autoImplicit false
set_option relaxedAutoImplicit false

namespace PipeShell

open Program

variable {α β : Type}

/-- A call or a start of a process with the answer to it, without the number that the process gets.
Waiting and notes are left out. -/
def Exchange.spawning? : Exchange α → Option (Exchange α)
  | .called (.note _) _ => none
  | .called (.waitFor _) _ => none
  | .called c reply? => some (.called c reply?)
  | .forked child reply => some (.forked child (reply.map fun _ => (0 : Pid)))
  | .transferred .. => none
  | .flooded .. => none

def spawnings (past : List (Exchange α)) : List (Exchange α) := past.filterMap Exchange.spawning?

theorem spawnings_append (past more : List (Exchange α)) :
    spawnings (past ++ more) = spawnings past ++ spawnings more :=
  List.filterMap_append

namespace Pipeline

/-! ### The start -/

/-- What two starts of the same stages have in common that are answered alike. -/
structure SameStart (launched launched' : List (Exchange α))
    (result result' : Except Fatal (List Pid)) : Prop where
  spawned : spawnings launched = spawnings launched'
  numbered : (children launched).map Prod.fst = (children launched').map Prod.fst →
    launched = launched'

theorem SameStart.refl (launched : List (Exchange α)) (result : Except Fatal (List Pid)) :
    SameStart launched launched result result := ⟨rfl, fun _ => rfl⟩

theorem Together.sameStart {number : Nat} {previous : Option Link} {rest rest' : List Stage}
    {launched launched' : List (Exchange α)} {result result' : Except Fatal (List Pid)}
    (h : Together number previous rest rest' launched launched' result result')
    (hrest : rest = rest') :
    SameStart launched launched' result result' := by
  induction h with
  | complete | zeroByte | noPipe => exact .refl _ _
  | noProcess =>
    obtain ⟨rfl, -⟩ := List.cons.inj hrest
    exact .refl _ _
  | @started number previous stage stage' pid pid' rest rest' making past past' next result
      result' hmaking _ ih =>
    obtain ⟨rfl, rfl⟩ := List.cons.inj hrest
    have hsame := ih rfl
    constructor
    case spawned =>
      rw [spawnings_append, spawnings_append]
      refine congrArg (spawnings making ++ .forked (stage.process previous next) (.ok 0) :: ·) ?_
      show spawnings (Link.closing previous ++ past) = spawnings (Link.closing previous ++ past')
      rw [spawnings_append, spawnings_append, hsame.spawned]
    case numbered =>
      rw [hmaking.children_started, hmaking.children_started]
      intro hnumbers
      obtain ⟨rfl, hothers⟩ := List.cons.inj hnumbers
      rw [hsame.numbered hothers]

/-! ### What follows on it -/

theorem Launch.unattended {number : Nat} {previous : Option Link}
    {rest : List Stage} {launched : List (Exchange α)}
    {result : Except Fatal (List Pid)} (h : Launch number previous rest launched result) {c : Call}
    (hmem : c ∈ calls launched) : c.child? = none := by
  obtain ⟨exchange, hexchange, hcall⟩ := List.mem_filterMap.mp hmem
  cases exchange with
  | called c' reply? =>
    obtain rfl := Option.some.inj hcall
    have hlaunches := h.launches hexchange
    cases c' with
    | pipe | close | note => rfl
    | _ => exact hlaunches.elim
  | forked | transferred | flooded => cases hcall

theorem Attends.unspawned {x : Program α} {past : List (Exchange α)} {result : Option α}
    {Q : α → Prop} (h : Course x past result) (hx : x.Confined Attends False Q) :
    spawnings past = [] := by
  obtain ⟨hcalls, hforks, -⟩ := h.of_confined hx
  refine List.filterMap_eq_nil_iff.mpr fun exchange hmem => ?_
  cases exchange with
  | called c reply? =>
    have hattends := hcalls c reply? hmem
    cases c with
    | waitFor | note => rfl
    | _ => exact hattends.elim
  | forked child reply => exact (hforks child reply hmem).elim
  | transferred | flooded => rfl

variable {stages : List Stage} {background : Background} {past past' : List (Exchange Outcome)}
  {outcome outcome' : Outcome}

theorem follow_unattended {result : Except Fatal (List Pid)} {after : List (Exchange Outcome)}
    (h : Course (follow ⟨stages, true⟩ background result) after (some outcome)) {c : Call}
    (hmem : c ∈ calls after) :
    c.child? = none := by
  have hconfined : (follow ⟨stages, true⟩ background result).Confined
      (fun c => c.child? = none) False fun _ => True := by
    cases result with
    | error fatal => trivial
    | ok pids =>
      unfold follow
      dsimp only
      split
      · trivial
      · exact .bind (confined_act rfl trivial)
  obtain ⟨exchange, hexchange, hcall⟩ := List.mem_filterMap.mp hmem
  cases exchange with
  | called c' reply? =>
    obtain rfl := Option.some.inj hcall
    exact (h.of_confined hconfined).1 c' reply? hexchange
  | forked | transferred | flooded => cases hcall

theorem detached_unattended {result : Option Outcome}
    (h : Course ((Action.run ⟨stages, true⟩).execute background) past result) {c : Call}
    (hmem : c ∈ calls past) :
    c.child? = none := by
  obtain ⟨past', outcome, hcourse, hprefix, -⟩ :=
    h.completed (execute_manages _ background) fun _ => id
  obtain ⟨launched, result, after, rfl, hlaunch, hafter⟩ := course_execute_iff.mp hcourse
  have hmem' : c ∈ .note (.executing (.run ⟨stages, true⟩)) :: (calls launched ++ calls after) := by
    rw [← calls_append]
    exact hprefix.subset hmem
  rcases List.mem_cons.mp hmem' with rfl | hmem'
  · rfl
  · rcases List.mem_append.mp hmem' with hmem' | hmem'
    · exact hlaunch.unattended hmem'
    · exact follow_unattended hafter hmem'

/-- What the same stages come to in the background and in the foreground. -/
structure Parted (stages : List Stage) (background : Background)
    (past past' : List (Exchange Outcome)) (outcome outcome' : Outcome) : Prop where
  /-- The same exchanges in the same order: pipes, processes with all that they do, and closed
  descriptors. -/
  spawned : spawnings past = spawnings past'
  /-- If the processes get the same numbers, there is no difference at all up to the end of the
  start. -/
  numbered : (children past).map Prod.fst = (children past').map Prod.fst → ∃ launched after after',
    past = .called (.note (.executing (.run ⟨stages, true⟩))) (some ()) :: (launched ++ after) ∧
    past' = .called (.note (.executing (.run ⟨stages, false⟩))) (some ()) :: (launched ++ after') ∧
    spawnings after = [] ∧ spawnings after' = []
  /-- The children are the processes of the stages in their order, the same ones for both. -/
  inOrder : ∀ (j : Nat) (pid : Pid) (child : Program Outcome),
    (children past)[j]? = some (pid, child) →
    ∃ (pid' : Pid) (stage : Stage) (previous next : Option Link),
      (children past')[j]? = some (pid', child) ∧
      stages[j]? = some stage ∧ child = stage.process previous next
  stopped : ∀ fatal, outcome.status = .error fatal ∨ outcome'.status = .error fatal →
    outcome = ⟨.error fatal, background⟩ ∧ outcome' = ⟨.error fatal, background⟩
  detached : ∀ n, outcome.status = .ok n → (children past).length = stages.length ∧
    outcome = ⟨.ok 0, ⟨background.pids ++ (children past).map Prod.fst⟩⟩
  awaited : ∀ n, outcome'.status = .ok n →
    (children past').length = stages.length ∧ outcome'.background = background ∧
    (reports past').map Prod.fst = ((children past').map Prod.fst).reverse ∧
    n = Job.statusTold (told past' (stages.length - 1))
  nothing : stages = [] → spawnings past = [] ∧ outcome = ⟨.ok 0, background⟩ ∧
    outcome' = ⟨.ok 0, background⟩

theorem Abreast.same_child {α : Type} {stages : List Stage} {launched launched' : List (Exchange α)}
    {result result' : Except Fatal (List Pid)}
    (h : Abreast stages stages launched launched' result result') {j : Nat} {pid : Pid}
    {child : Program α} (hchild : (children launched)[j]? = some (pid, child)) :
    ∃ pid' stage previous next, (children launched')[j]? = some (pid', child) ∧
      stages[j]? = some stage ∧ child = stage.process previous next := by
  have hj : j < (children launched').length := by
    rw [← h.count]
    exact (List.getElem?_eq_some_iff.mp hchild).1
  obtain ⟨⟨pid', child'⟩, hchild'⟩ : ∃ entry, (children launched')[j]? = some entry :=
    ⟨_, List.getElem?_eq_getElem hj⟩
  obtain ⟨stage, stage', previous, next, hstage, hstage', rfl, rfl⟩ := h.linked hchild hchild'
  obtain rfl : stage = stage' := Option.some.inj (hstage.symm.trans hstage')
  exact ⟨pid', stage, previous, next, hchild', hstage, rfl⟩

theorem execute_parted
    (h : Course ((Action.run ⟨stages, true⟩).execute background) past (some outcome))
    (h' : Course ((Action.run ⟨stages, false⟩).execute background) past' (some outcome'))
    (halike : Alike past past') :
    Parted stages background past past' outcome outcome' := by
  have hsettled := execute_settled h
  have hsettled' := execute_settled h'
  obtain ⟨launched, result, after, rfl, hlaunch, hafter⟩ := course_execute_iff.mp h
  obtain ⟨launched', result', after', rfl, hlaunch', hafter'⟩ := course_execute_iff.mp h'
  obtain ⟨-, hchildren, -⟩ := execute_parts hlaunch hafter (.executing (.run ⟨stages, true⟩))
  obtain ⟨-, hchildren', -⟩ := execute_parts hlaunch' hafter' (.executing (.run ⟨stages, false⟩))
  have htogether := hlaunch.together hlaunch' rfl (halike.tail rfl).before
  have habreast := htogether.abreast
  have hsame := htogether.sameStart rfl
  have hquiet := Attends.unspawned hafter (follow_attends ..)
  have hquiet' := Attends.unspawned hafter' (follow_attends ..)
  have hrefused (fatal : Fatal) : outcome.status = .error fatal ↔
      outcome'.status = .error fatal := by
    rw [follow_refused hafter, follow_refused hafter']
    exact habreast.refused fatal
  constructor
  case spawned =>
    show spawnings (launched ++ after) = spawnings (launched' ++ after')
    rw [spawnings_append, spawnings_append, hsame.spawned, hquiet, hquiet']
  case numbered =>
    rw [hchildren, hchildren']
    intro hnumbers
    obtain rfl := hsame.numbered hnumbers
    exact ⟨launched, after, after', rfl, rfl, hquiet, hquiet'⟩
  case inOrder =>
    rw [hchildren, hchildren']
    exact fun _ _ _ hchild => habreast.same_child hchild
  case stopped =>
    intro fatal hfatal
    obtain ⟨hstatus, hstatus'⟩ : outcome.status = .error fatal ∧
        outcome'.status = .error fatal := by
      rcases hfatal with hfatal | hfatal
      · exact ⟨hfatal, (hrefused fatal).mp hfatal⟩
      · exact ⟨(hrefused fatal).mpr hfatal, hfatal⟩
    obtain ⟨-, hbackground⟩ := hsettled.stopped fatal hstatus
    obtain ⟨-, hbackground'⟩ := hsettled'.stopped fatal hstatus'
    cases outcome
    cases outcome'
    subst hstatus hstatus' hbackground hbackground'
    exact ⟨rfl, rfl⟩
  case detached =>
    intro n hn
    obtain ⟨rfl, hbackground⟩ := hsettled.detached n hn rfl
    refine ⟨hsettled.complete _ hn, ?_⟩
    obtain ⟨status, ⟨pids⟩⟩ := outcome
    obtain rfl : status = .ok 0 := hn
    exact congrArg (fun pids => (⟨.ok 0, ⟨pids⟩⟩ : Outcome)) hbackground
  case awaited =>
    intro n hn
    obtain ⟨hpids, hbackground, hstatus⟩ := hsettled'.awaited n hn rfl
    exact ⟨hsettled'.complete n hn, hbackground, hpids, hstatus⟩
  case nothing =>
    rintro rfl
    cases hlaunch
    cases hlaunch'
    obtain ⟨rfl, rfl⟩ := course_done_iff.mp hafter
    obtain ⟨rfl, rfl⟩ := course_done_iff.mp hafter'
    exact ⟨rfl, rfl, rfl⟩

theorem exists_same_start (p p' : Pipeline) (hstages : p.stages = p'.stages)
    (h : Course ((Action.run p).execute background) past (some outcome))
    {R : List (Pid × Except Errno WaitStatus) → Prop}
    (hfollow : ∀ result, ∃ after outcome',
      Course (p'.follow background result) after (some outcome') ∧ R (reports after)) :
    ∃ past' outcome', Course ((Action.run p').execute background) past' (some outcome') ∧
      Alike past past' ∧
      (children past).map Prod.fst = (children past').map Prod.fst ∧ R (reports past') := by
  obtain ⟨launched, result, after, rfl, hlaunch, hafter⟩ := course_execute_iff.mp h
  obtain ⟨after', outcome', hafter', hreports⟩ := hfollow result
  rw [hstages] at hlaunch
  obtain ⟨hhandled, hchildren, -⟩ := execute_parts hlaunch hafter (.executing (.run p))
  obtain ⟨hhandled', hchildren', hreports'⟩ := execute_parts hlaunch hafter' (.executing (.run p'))
  refine ⟨_, outcome', course_execute_iff.mpr ⟨launched, result, after', rfl, hlaunch, hafter'⟩,
    .of_handlings ?_, ?_, ?_⟩
  · rw [hhandled, hhandled']
  · rw [hchildren, hchildren']
  · rwa [hreports']

theorem exists_follow_heard (stages : List Stage) (background : Background) (t : Tidings)
    (result : Except Fatal (List Pid)) :
    ∃ after outcome, Course (follow ⟨stages, false⟩ background result) after (some outcome) ∧
      ∀ pid report, (pid, report) ∈ reports after → report = t.report pid := by
  cases result with
  | error fatal => exact ⟨[], _, .done _, fun pid report hmem => absurd hmem List.not_mem_nil⟩
  | ok pids =>
    unfold follow
    dsimp only
    split
    · exact ⟨[], _, .done _, fun pid report hmem => absurd hmem List.not_mem_nil⟩
    · have hattend : attend ⟨stages, false⟩ background pids =
          (Job.awaitEach pids.reverse >>= fun statuses =>
          .done ⟨.ok (statuses.headD 0), background⟩) := bind_assoc _ _ _
      rw [hattend]
      refine ⟨_, _, t.course_hearing (.done _), fun pid report hmem => ?_⟩
      rw [List.append_nil, Tidings.reports_flatMap_hearing] at hmem
      obtain ⟨_, -, heq⟩ := List.mem_map.mp hmem
      cases heq
      rfl

end Pipeline

/-! ### Under the system's own account of the children -/

theorem Custody.Steps.exists_past {x y : Program α} {k k' : Custody} (h : Steps x k y k') :
    ∃ past, x.Leaves past y ∧
      k'.ledger.started.map (·.pid) = k.ledger.started.map (·.pid) ++
        (children past).map Prod.fst := by
  induction h with
  | start =>
    refine ⟨[], fun more result hmore => hmore, ?_⟩
    rw [children_nil, List.map_nil, List.append_nil]
  | @step y z k' k'' _ hstep ih =>
    obtain ⟨past, hleaves, hstarted⟩ := ih
    have hcalled {c : Call} {next : c.Reply → Program α} (reply : c.Reply) (hy : y = .call c next)
        (hz : z = resume c next reply) (hsame : k''.ledger.started = k'.ledger.started) :
        ∃ past, x.Leaves past z ∧
          k''.ledger.started.map (·.pid) = k.ledger.started.map (·.pid) ++
            (children past).map Prod.fst := by
      subst hy hz
      refine ⟨past ++ [.called c (some reply)], hleaves.answered reply, ?_⟩
      rw [hsame, hstarted, children_append]
      simp [children]
    cases hstep with
    | answered hc reply =>
      refine hcalled reply rfl (resume_of_not_wait (fun pid heq => ?_) _ reply).symm rfl
      rw [heq] at hc
      cases hc
    | @started _ child next pid =>
      refine ⟨past ++ [.forked child (.ok pid)], hleaves.forked (.ok pid), ?_⟩
      rw [children_append, List.map_append, ← List.append_assoc, ← hstarted]
      exact List.map_append
    | @awaited _ next c e hc he =>
      refine hcalled (c := .waitFor c.pid) (e.report c.pid) rfl ?_ rfl
      rw [resume, Machine.report_not_interrupted]
      rfl
    | awaitedStranger => exact hcalled (c := .waitFor _) (.error .noChild) rfl rfl rfl
    | waitInterrupted => exact hcalled _ rfl rfl rfl
    | @foundOver _ next c e hc he => exact hcalled (c := .poll c.pid) (e.report c.pid) rfl rfl rfl
    | foundAlive => exact hcalled (c := .poll _) (.ok .stillAlive) rfl rfl rfl
    | foundStranger => exact hcalled (c := .poll _) (.error .noChild) rfl rfl rfl
    | lookInterrupted => exact hcalled (c := .poll _) (.error .interrupted) rfl rfl rfl
    | ended e => exact ⟨past, hleaves, hstarted⟩

namespace Pipeline

/-- A pipeline that the interpreter gets over has started one child for each stage. It has collected
none of them in the background, and all of them, the last one first, in the foreground. -/
theorem steps_collect {p : Pipeline} {background background' : Background}
    {k k' : Custody} {n : Int} (hs : k.Sound)
    (h : Custody.Steps ((Action.run p).execute background) k (.done ⟨.ok n, background'⟩) k') :
    ∃ new : List Child, new.length = p.stages.length ∧ k'.ledger.started = k.ledger.started ++ new ∧
      if p.background then
        background'.pids = background.pids ++ new.map (·.pid) ∧
        k'.ledger.collected = k.ledger.collected
      else background' = background ∧ k'.ledger.collected = k.ledger.collected ++ new.reverse := by
  have hkeeps : Custody.Keeps (· ∉ k.ledger.started) (fun _ => False)
      (Ledger.Settled (.run p) background k.ledger) k ((Action.run p).execute background) k := by
    refine ⟨hs, ?_, fun c hc => hc.elim, fun c hc => .inl hc⟩
    exact Ledger.execute_honours (.run p) background hs.ledger fun _ hc => hc
  obtain ⟨new, hstarted, hrest⟩ := (hkeeps.steps h).honours n rfl
  refine ⟨new, ?_, hstarted, hrest⟩
  obtain ⟨past, hleaves, hpids⟩ := h.exists_past
  have hcourse := hleaves [] _ (.done _)
  rw [List.append_nil] at hcourse
  rw [hstarted, List.map_append, List.append_cancel_left_eq] at hpids
  rw [← (execute_settled hcourse).complete n rfl, ← List.length_map (f := (·.pid)),
    hpids, List.length_map]

/-- The same stages are started in the same way in the background and in the foreground, and fail to
start alike, as long as the system answers alike. Behind the start, nobody is waited for in the
background, at no time, and all processes are kept in mind behind those that were there before; in
the foreground all of them are waited for, nothing is kept in mind, and the status is that of the
last stage. Each of the two can go like the other one, whatever is found out about the children. So
it is by the system's own account of the children as well, and on machines, where the system answers
alike by itself. -/
theorem parts_behind_start (stages : List Stage) (background : Background) :
    (∀ past past' outcome outcome',
      Course ((Action.run ⟨stages, true⟩).execute background) past (some outcome) →
      Course ((Action.run ⟨stages, false⟩).execute background) past' (some outcome') →
      Alike past past' → Parted stages background past past' outcome outcome') ∧
    (∀ past outcome, Course ((Action.run ⟨stages, true⟩).execute background) past (some outcome) →
      ∀ t : Tidings, ∃ past' outcome',
        Course ((Action.run ⟨stages, false⟩).execute background) past' (some outcome') ∧
        Alike past past' ∧ (children past).map Prod.fst = (children past').map Prod.fst ∧
        ∀ pid report, (pid, report) ∈ reports past' → report = t.report pid) ∧
    (∀ past' outcome',
      Course ((Action.run ⟨stages, false⟩).execute background) past' (some outcome') →
      ∃ past outcome, Course ((Action.run ⟨stages, true⟩).execute background) past (some outcome) ∧
        Alike past' past ∧ (children past').map Prod.fst = (children past).map Prod.fst) ∧
    (∀ past result, Course ((Action.run ⟨stages, true⟩).execute background) past result →
      ∀ c ∈ calls past, c.child? = none) ∧
    (∀ (detached : Bool) (k k' : Custody) (n : Int) (background' : Background), k.Sound →
      Custody.Steps ((Action.run ⟨stages, detached⟩).execute background) k
        (.done ⟨.ok n, background'⟩) k' →
      ∃ new : List Child, new.length = stages.length ∧ k'.ledger.started = k.ledger.started ++ new ∧
        if detached then
          background'.pids = background.pids ++ new.map (·.pid) ∧
          k'.ledger.collected = k.ledger.collected
        else background' = background ∧ k'.ledger.collected = k.ledger.collected ++ new.reverse) ∧
    ∀ (m₀ m₀' m m' : Machine Report)
      (pid pid' : Pid) (p₀ p₀' q q' : Process Report) (es es' : List Event)
      (outcome outcome' : Outcome), Carries m₀ pid p₀ ⟨stages, true⟩ background →
      Carries m₀' pid' p₀' ⟨stages, false⟩ background → p₀.descriptors.get? = p₀'.descriptors.get? →
      p₀.limit = p₀'.limit → m₀.Run es m → m₀'.Run es' m' →
      m.processes.get? pid = some q → q.ending? = none → q.program = .done (.outcome outcome) →
      m'.processes.get? pid' = some q' →
      q'.ending? = none → q'.program = .done (.outcome outcome') →
      ∃ past past', (children past).map Prod.fst = Event.startedBy pid es ∧
        (children past').map Prod.fst = Event.startedBy pid' es' ∧
        Parted stages background past past' outcome outcome' := by
  refine ⟨fun past past' outcome outcome' => execute_parted, ?_, ?_, fun past result h c =>
    detached_unattended h, fun detached k k' n background' => steps_collect, ?_⟩
  · intro past outcome h t
    exact exists_same_start ⟨stages, true⟩ ⟨stages, false⟩ rfl h
      (R := fun found => ∀ pid report, (pid, report) ∈ found → report = t.report pid)
      (exists_follow_heard stages background t)
  · intro past' outcome' h
    have hfollow (result : Except Fatal (List Pid)) : ∃ after outcome,
        Course (follow ⟨stages, true⟩ background result) after (some outcome) ∧ True := by
      obtain ⟨after, outcome, hafter⟩ :=
        (follow_attends ⟨stages, true⟩ background result).exists_course fun _ => id
      exact ⟨after, outcome, hafter, trivial⟩
    obtain ⟨past, outcome, hcourse, halike, hpids, -⟩ :=
      exists_same_start ⟨stages, false⟩ ⟨stages, true⟩ rfl h (R := fun _ => True) hfollow
    exact ⟨past, outcome, hcourse, halike, hpids⟩
  · intro m₀ m₀' m m' pid pid' p₀ p₀' q q' es es' outcome outcome' h h' hwires hlimit hrun hrun' hq
      hending hdone hq' hending' hdone'
    obtain ⟨past, d, hcourse, hrationed, hstarted⟩ := h.accounts hrun hq hending hdone
    obtain ⟨past', d', hcourse', hrationed', hstarted'⟩ := h'.accounts hrun' hq' hending' hdone'
    rw [← hwires, ← hlimit] at hrationed'
    have halike := (alike_of_rationed hrationed hrationed').of_andThen
    exact ⟨past, past', hstarted, hstarted', execute_parted hcourse hcourse' halike⟩

private def listing : List Stage := [⟨["ls"], none, none⟩, ⟨["wc"], none, none⟩]

private def lastWithThree : Tidings where
  interruptions pid := if pid = 8 then 2 else 0
  report pid := .ok (.exited pid (if pid = 8 then 3 else 0))
  settled pid h := by cases h

/-- Two stages with the processes 7 and 8, while 5 is in the background already. -/
theorem parts_behind_two_stages : ∃ past past',
    Course ((Action.run ⟨listing, true⟩).execute ⟨[5]⟩) past (some ⟨.ok 0, ⟨[5, 7, 8]⟩⟩) ∧
    Course ((Action.run ⟨listing, false⟩).execute ⟨[5]⟩) past' (some ⟨.ok 3, ⟨[5]⟩⟩) ∧
    spawnings past = spawnings past' ∧ (reports past').map Prod.fst = [8, 7] := by
  obtain ⟨past, hcourse, hpids⟩ : ∃ past,
      Course ((Action.run ⟨listing, true⟩).execute ⟨[5]⟩) past (some ⟨.ok 0, ⟨[5, 7, 8]⟩⟩) ∧
      (children past).map Prod.fst = [7, 8] := by
    constructor
    constructor
    · apply Course.answered (c := .note _) ()
      apply Course.answered (c := .pipe) (.ok (3, 4))
      apply Course.forked (.ok 7)
      apply Course.answered (c := .note _) ()
      apply Course.forked (.ok 8)
      apply Course.answered (c := .note _) ()
      apply Course.answered (c := .close 3) ()
      apply Course.answered (c := .close 4) ()
      apply Course.answered (c := .note _) ()
      exact .done _
    · rfl
  obtain ⟨hparted, hcounterpart, -⟩ := parts_behind_start listing ⟨[5]⟩
  obtain ⟨past', ⟨status, background⟩, hcourse', halike, hpids', hreport⟩ :=
    hcounterpart past _ hcourse lastWithThree
  have h := hparted past past' _ _ hcourse hcourse' halike
  cases status with
  | error fatal =>
    obtain ⟨heq, -⟩ := h.stopped fatal (.inr rfl)
    cases heq
  | ok n =>
    obtain ⟨-, rfl, hwaited, rfl⟩ := h.awaited n rfl
    rw [← hpids', hpids] at hwaited
    obtain ⟨⟨pid, report⟩, others, hreports, rfl, -⟩ := List.map_eq_cons_iff.mp hwaited
    have htold : told past' (listing.length - 1) = some (report.map WaitStatus.code?) := by
      rw [told, ← hpids', hpids, hreports]
      rfl
    rw [htold, hreport 8 report (hreports ▸ List.mem_cons_self)] at hcourse'
    exact ⟨past, past', hcourse, hcourse', h.spawned, hwaited⟩

end Pipeline

end PipeShell
