import PipeShell.Proofs.Job.Management

/-!
How a pipeline is started. A start that has come to its end went through a launch: stage by stage a
check, a pipe and a process, up to the first of these that fails. Everything that is said of starts
is said of launches, by induction on the stages that are left.
-/

set_option autoImplicit false
set_option relaxedAutoImplicit false

namespace PipeShell

open Program

variable {α β : Type}

namespace Link

def closing : Option Link → List (Exchange α)
  | none => []
  | some link => [.called (.close link.readEnd) (some ()), .called (.close link.writeEnd) (some ())]

theorem course_releaseAny_iff {link? : Option Link} {x : Program α}
    {past : List (Exchange α)} {a : α} :
    Course (releaseAny link? >>= fun _ => x) past (some a) ↔
      ∃ rest, past = closing link? ++ rest ∧ Course x rest (some a) := by
  cases link? with
  | none => exact ⟨fun h => ⟨past, rfl, h⟩, fun ⟨_, heq, h⟩ => heq ▸ h⟩
  | some link =>
    have hcalls : (releaseAny (some link) >>= fun _ => x) =
        .call (.close link.readEnd) fun _ => .call (.close link.writeEnd) fun _ => x := rfl
    rw [hcalls, course_call_iff (by simp)]
    constructor
    · rintro ⟨_, tail, rfl, htail⟩
      obtain ⟨_, rest, rfl, hrest⟩ := (course_call_iff (by simp)).mp htail
      exact ⟨rest, rfl, hrest⟩
    · rintro ⟨rest, rfl, h⟩
      exact ⟨(), _, rfl, (course_call_iff (by simp)).mpr ⟨(), rest, rfl, h⟩⟩

end Link

namespace Pipeline

/-- The pipe behind a stage is made, unless the stage is the last one. -/
inductive Making : Bool → List (Exchange α) → Option Link → Prop
  | atEnd : Making true [] none
  | made (link : Link) :
      Making false [.called .pipe (some (.ok (link.readEnd, link.writeEnd)))] (some link)

theorem course_makeLink_iff {last : Bool} {f : Except Errno (Option Link) → Program α}
    {past : List (Exchange α)} {a : α} : Course (makeLink last >>= f) past (some a) ↔
      (∃ making next rest, Making last making next ∧
        past = making ++ rest ∧ Course (f (.ok next)) rest (some a)) ∨
        ∃ reason rest, last = false ∧ past = .called .pipe (some (.error reason)) :: rest ∧
          Course (f (.error reason)) rest (some a) := by
  cases last with
  | true =>
    constructor
    · intro h
      exact .inl ⟨[], none, past, .atEnd, rfl, h⟩
    · rintro (⟨making, next, rest, ⟨⟩, rfl, h⟩ | ⟨-, -, hfalse, -⟩)
      · exact h
      · cases hfalse
  | false =>
    have hcall : (makeLink false >>= f) = .call .pipe fun reply =>
        f (reply.map fun ends => some ⟨ends.1, ends.2⟩) := rfl
    rw [hcall, course_call_iff (by simp)]
    constructor
    · rintro ⟨reply, rest, rfl, h⟩
      cases reply with
      | error reason => exact .inr ⟨reason, rest, rfl, rfl, h⟩
      | ok ends => exact .inl ⟨_, _, rest, .made ⟨ends.1, ends.2⟩, rfl, h⟩
    · rintro (⟨making, next, rest, hmaking, rfl, h⟩ | ⟨reason, rest, -, rfl, h⟩)
      · cases hmaking with
        | made link => exact ⟨.ok (link.readEnd, link.writeEnd), rest, rfl, h⟩
      · exact ⟨.error reason, rest, rfl, h⟩

/-- What is exchanged with the system while the remaining stages are started, and what comes of it.
The first of the stages has a number and a pipe before it, if there is one. -/
inductive Launch :
    Nat → Option Link → List Stage → List (Exchange α) → Except Fatal (List Pid) → Prop
  | complete (number : Nat) (previous : Option Link) : Launch number previous [] [] (.ok [])
  | zeroByte (number : Nat) (previous : Option Link) {stage : Stage}
      {rest : List Stage} {position : Nat} :
      stage.zeroByte? = some position →
      Launch number previous (stage :: rest) (Link.closing previous) (.error (.zeroByte position))
  | noPipe (number : Nat) (previous : Option Link) {stage : Stage}
      {rest : List Stage} (reason : Errno) :
      stage.zeroByte? = none → rest.isEmpty = false → Launch number previous (stage :: rest)
        (.called .pipe (some (.error reason)) :: Link.closing previous)
        (.error (.noPipe reason))
  | noProcess (number : Nat) (previous : Option Link) {stage : Stage} {rest : List Stage}
      (reason : Errno) {making : List (Exchange α)} {next : Option Link} :
      stage.zeroByte? = none → Making rest.isEmpty making next →
      Launch number previous (stage :: rest)
        (making ++ .forked (stage.process previous next) (.error reason) ::
          (Link.closing next ++ Link.closing previous))
        (.error (.noProcess reason))
  | started (number : Nat) (previous : Option Link) {stage : Stage} {rest : List Stage} (pid : Pid)
      {making past : List (Exchange α)} {next : Option Link} {result : Except Fatal (List Pid)} :
      stage.zeroByte? = none → Making rest.isEmpty making next →
      Launch (number + 1) next rest past result → Launch number previous (stage :: rest)
        (making ++ .forked (stage.process previous next) (.ok pid) ::
          .called (.note (.started number pid stage.arguments)) (some ()) ::
          (Link.closing previous ++ past))
        (result.map (pid :: ·))

theorem startFrom_bind_cons (number : Nat) (previous : Option Link) (stage : Stage)
    (rest : List Stage) (f : Except Fatal (List Pid) → Program α) :
    (startFrom number previous (stage :: rest) >>= f) =
      match stage.zeroByte? with
      | some position => Link.releaseAny previous >>= fun _ => f (.error (.zeroByte position))
      | none => makeLink rest.isEmpty >>= fun
        | .error reason => Link.releaseAny previous >>= fun _ => f (.error (.noPipe reason))
        | .ok next => .fork (stage.process previous next) fun
          | .error reason =>
            Link.releaseAny next >>= fun _ => Link.releaseAny previous >>= fun _ =>
              f (.error (.noProcess reason))
          | .ok pid => .call (.note (.started number pid stage.arguments)) fun _ =>
            Link.releaseAny previous >>= fun _ =>
              startFrom (number + 1) next rest >>= fun others => f (others.map (pid :: ·)) := by
  rw [startFrom]
  cases stage.zeroByte? with
  | some position => exact bind_assoc _ _ f
  | none =>
    refine (bind_assoc _ _ f).trans (congrArg (makeLink rest.isEmpty >>= ·) (funext fun r => ?_))
    cases r with
    | error reason => exact bind_assoc _ _ f
    | ok next =>
      rw [fork_bind, stage.process_bind]
      refine congrArg (Program.fork (stage.process previous next)) (funext fun reply => ?_)
      cases reply with
      | error reason =>
        refine (bind_assoc _ _ f).trans (congrArg (Link.releaseAny next >>= ·) (funext fun _ => ?_))
        exact bind_assoc _ _ f
      | ok pid =>
        refine congrArg (Program.call (.note (.started number pid stage.arguments)))
          (funext fun _ => ?_)
        show ((Link.releaseAny previous >>= fun _ =>
          startFrom (number + 1) next rest >>= fun others =>
            .done (others.map (pid :: ·))) >>= f) = _
        refine (bind_assoc _ _ f).trans
          (congrArg (Link.releaseAny previous >>= ·) (funext fun _ => ?_))
        exact bind_assoc _ _ f

theorem launch_of_course {rest : List Stage} {b : α} : ∀ {number : Nat} {previous : Option Link}
    {f : Except Fatal (List Pid) → Program α} {past : List (Exchange α)},
    Course (startFrom number previous rest >>= f) past (some b) → ∃ launched result after,
      past = launched ++ after ∧ Launch number previous rest launched result ∧
    Course (f result) after (some b) := by
  induction rest with
  | nil =>
    intro number previous f past h
    exact ⟨[], .ok [], past, rfl, .complete number previous, h⟩
  | cons stage rest ih =>
    intro number previous f past h
    rw [startFrom_bind_cons] at h
    cases hzero : stage.zeroByte? with
    | some position =>
      rw [hzero] at h
      obtain ⟨after, rfl, hafter⟩ := Link.course_releaseAny_iff.mp h
      exact ⟨_, _, after, rfl, .zeroByte number previous hzero, hafter⟩
    | none =>
      rw [hzero] at h
      rcases course_makeLink_iff.mp h with ⟨making, next, made, hmaking, rfl, hmade⟩ | ⟨reason,
        left, hmore, rfl, hleft⟩
      · obtain ⟨reply, later, rfl, hlater⟩ := course_fork_iff.mp hmade
        cases reply with
        | error reason =>
          obtain ⟨left, rfl, hleft⟩ := Link.course_releaseAny_iff.mp hlater
          obtain ⟨after, rfl, hafter⟩ := Link.course_releaseAny_iff.mp hleft
          exact ⟨_, _, after, by simp, .noProcess number previous reason hzero hmaking, hafter⟩
        | ok pid =>
          obtain ⟨_, noted, rfl, hnoted⟩ := (course_call_iff (by simp)).mp hlater
          obtain ⟨left, rfl, hleft⟩ := Link.course_releaseAny_iff.mp hnoted
          obtain ⟨launched, result, after, rfl, hlaunch, hafter⟩ := ih hleft
          exact ⟨_, _, after, by simp, .started number previous pid hzero hmaking hlaunch, hafter⟩
      · obtain ⟨after, rfl, hafter⟩ := Link.course_releaseAny_iff.mp hleft
        exact ⟨_, _, after, rfl, .noPipe number previous reason hzero hmore, hafter⟩

theorem Launch.course {number : Nat} {previous : Option Link}
    {rest : List Stage} {launched : List (Exchange α)}
    {result : Except Fatal (List Pid)} (h : Launch number previous rest launched result) :
    ∀ {f : Except Fatal (List Pid) → Program α} {after : List (Exchange α)} {b : α},
      Course (f result) after (some b) →
      Course (startFrom number previous rest >>= f) (launched ++ after) (some b) := by
  induction h with
  | complete number previous =>
    intro f after b hafter
    exact hafter
  | zeroByte number previous hzero =>
    intro f after b hafter
    rw [startFrom_bind_cons, hzero]
    exact Link.course_releaseAny_iff.mpr ⟨after, rfl, hafter⟩
  | noPipe number previous reason hzero hmore =>
    intro f after b hafter
    rw [startFrom_bind_cons, hzero]
    refine course_makeLink_iff.mpr (.inr ⟨reason, _, hmore, rfl, ?_⟩)
    exact Link.course_releaseAny_iff.mpr ⟨after, rfl, hafter⟩
  | noProcess number previous reason hzero hmaking =>
    intro f after b hafter
    rw [startFrom_bind_cons, hzero, List.append_assoc]
    refine course_makeLink_iff.mpr (.inl ⟨_, _, _, hmaking, rfl, ?_⟩)
    refine course_fork_iff.mpr ⟨.error reason, _, rfl, ?_⟩
    refine Link.course_releaseAny_iff.mpr ⟨_, List.append_assoc .., ?_⟩
    exact Link.course_releaseAny_iff.mpr ⟨after, rfl, hafter⟩
  | started number previous pid hzero hmaking _ ih =>
    intro f after b hafter
    rw [startFrom_bind_cons, hzero, List.append_assoc]
    refine course_makeLink_iff.mpr (.inl ⟨_, _, _, hmaking, rfl, ?_⟩)
    refine course_fork_iff.mpr ⟨.ok pid, _, rfl, ?_⟩
    refine (course_call_iff (by simp)).mpr ⟨(), _, rfl, ?_⟩
    exact Link.course_releaseAny_iff.mpr ⟨_, List.append_assoc .., ih hafter⟩

theorem course_startFrom_iff {number : Nat} {previous : Option Link} {rest : List Stage}
    {past : List (Exchange (Except Fatal (List Pid)))} {result : Except Fatal (List Pid)} :
    Course (startFrom number previous rest) past (some result) ↔
    Launch number previous rest past result := by
  rw [← bind_done (startFrom number previous rest)]
  constructor
  · intro h
    obtain ⟨launched, result', after, rfl, hlaunch, hafter⟩ := launch_of_course h
    obtain ⟨rfl, rfl⟩ := course_done_iff.mp hafter
    rwa [List.append_nil]
  · intro h
    rw [← List.append_nil past]
    exact h.course (.done result)

/-- A contract is honoured by the start if it permits all launches. -/
theorem honours_of_launches {γ : Type} {K : Contract γ} {Q : Except Fatal (List Pid) → γ → Prop}
    {g : γ} {number : Nat} {previous : Option Link} {rest : List Stage}
    (h : ∀ (launched : List (Exchange (Except Fatal (List Pid)))) result,
      Launch number previous rest launched result → K.Permits (Q result) launched g) :
    (startFrom number previous rest).Honours K Q g :=
  honours_of_courses (startFrom_launches number previous rest) (fun _ => id) (fun _ => id)
    fun past result hcourse => h past result (course_startFrom_iff.mp hcourse)

theorem launches_of_mem_closing {link? : Option Link} {c : Call} {reply? : Option c.Reply}
    (h : (.called c reply? : Exchange α) ∈ Link.closing link?) : Launches c := by
  cases link? with
  | none => exact absurd h List.not_mem_nil
  | some link =>
    rcases List.mem_cons.mp h with heq | h
    · cases heq
      trivial
    · cases List.mem_singleton.mp h
      trivial

theorem Making.launches {last : Bool} {making : List (Exchange α)} {next : Option Link}
    (h : Making last making next) {c : Call} {reply? : Option c.Reply}
    (hmem : .called c reply? ∈ making) : Launches c := by
  cases h with
  | atEnd => exact absurd hmem List.not_mem_nil
  | made link =>
    cases List.mem_singleton.mp hmem
    trivial

theorem Launch.launches {number : Nat} {previous : Option Link}
    {rest : List Stage} {launched : List (Exchange α)}
    {result : Except Fatal (List Pid)} (h : Launch number previous rest launched result) :
    ∀ {c : Call} {reply? : Option c.Reply}, .called c reply? ∈ launched → Launches c := by
  induction h with
  | complete =>
    intro c reply? hmem
    exact absurd hmem List.not_mem_nil
  | zeroByte =>
    intro c reply? hmem
    exact launches_of_mem_closing hmem
  | noPipe =>
    intro c reply? hmem
    rcases List.mem_cons.mp hmem with heq | hmem
    · cases heq
      trivial
    · exact launches_of_mem_closing hmem
  | noProcess _ _ _ _ hmaking =>
    intro c reply? hmem
    rcases List.mem_append.mp hmem with hmem | hmem
    · exact hmaking.launches hmem
    · rcases List.mem_cons.mp hmem with heq | hmem
      · cases heq
      · exact (List.mem_append.mp hmem).elim launches_of_mem_closing launches_of_mem_closing
  | started _ _ _ _ hmaking _ ih =>
    intro c reply? hmem
    rcases List.mem_append.mp hmem with hmem | hmem
    · exact hmaking.launches hmem
    · rcases List.mem_cons.mp hmem with heq | hmem
      · cases heq
      · rcases List.mem_cons.mp hmem with heq | hmem
        · cases heq
          trivial
        · exact (List.mem_append.mp hmem).elim launches_of_mem_closing ih

theorem children_closing (link? : Option Link) :
    children (Link.closing link? : List (Exchange α)) = [] := by
  cases link? <;> rfl

theorem Making.childless {last : Bool} {making : List (Exchange α)} {next : Option Link}
    (h : Making last making next) : children making = [] := by
  cases h <;> rfl

theorem Making.children_started {last : Bool} {making : List (Exchange α)} {next : Option Link}
    (h : Making last making next) (child : Program α) (pid : Pid) (record : Log.Record)
    (previous : Option Link) (past : List (Exchange α)) :
    children (making ++ .forked child (.ok pid) :: .called (.note record) (some ()) ::
      (Link.closing previous ++ past)) = (pid, child) :: children past := by
  rw [children_append, h.childless]
  refine congrArg ((pid, child) :: ·) ?_
  show children (Link.closing previous ++ past) = _
  rw [children_append, children_closing]
  rfl

theorem Making.children_refused {last : Bool} {making : List (Exchange α)} {next : Option Link}
    (h : Making last making next) (child : Program α) (reason : Errno) (previous : Option Link) :
    children (making ++ .forked child (.error reason) ::
      (Link.closing next ++ Link.closing previous)) = [] := by
  rw [children_append, h.childless]
  show children (Link.closing next ++ Link.closing previous) = []
  rw [children_append, children_closing, children_closing]
  rfl

theorem Launch.children_eq {number : Nat} {previous : Option Link}
    {rest : List Stage} {launched : List (Exchange α)}
    {result : Except Fatal (List Pid)} (h : Launch number previous rest launched result) :
    (∀ pids, result = .ok pids →
      (children launched).map Prod.fst = pids ∧ pids.length = rest.length) ∧
      ∀ fatal, result = .error fatal → (children launched).length < rest.length := by
  -- a start that fails with its first stage
  have hfailed {fatal : Fatal} {past : List (Exchange α)} {stage : Stage} {rest : List Stage}
      (hchildren : children past = []) :
      (∀ pids, (.error fatal : Except Fatal (List Pid)) = .ok pids →
        (children past).map Prod.fst = pids ∧ pids.length = (stage :: rest).length) ∧
      ∀ fatal', (.error fatal : Except Fatal (List Pid)) = .error fatal' →
        (children past).length < (stage :: rest).length := by
    refine ⟨fun pids hpids => (by cases hpids), fun _ _ => ?_⟩
    rw [hchildren]
    exact Nat.succ_pos _
  induction h with
  | complete number previous =>
    refine ⟨fun pids hpids => ?_, fun fatal hfatal => (by cases hfatal)⟩
    cases hpids
    exact ⟨rfl, rfl⟩
  | zeroByte number previous hzero => exact hfailed (children_closing previous)
  | noPipe number previous reason hzero hmore => exact hfailed (children_closing previous)
  | noProcess number previous reason hzero hmaking =>
    exact hfailed (hmaking.children_refused _ reason previous)
  | @started number previous stage rest pid making past next result hzero hmaking _ ih =>
    rw [hmaking.children_started]
    constructor
    · intro pids hpids
      cases result with
      | error fatal => cases hpids
      | ok others =>
        cases hpids
        obtain ⟨hmap, hlength⟩ := ih.1 others rfl
        exact ⟨congrArg (pid :: ·) hmap, congrArg Nat.succ hlength⟩
    · intro fatal hfatal
      cases result with
      | ok others => cases hfatal
      | error reason => exact Nat.succ_lt_succ (ih.2 reason rfl)

theorem children_execute {launched after : List (Exchange α)} (record : Log.Record)
    (hafter : children after = []) :
    children (.called (.note record) (some ()) :: (launched ++ after)) = children launched := by
  show children (launched ++ after) = _
  rw [children_append, hafter, List.append_nil]

/-! ### Whole pipelines -/

def follow (p : Pipeline) (background : Background) : Except Fatal (List Pid) → Program Outcome
  | .error fatal => pure ⟨.error fatal, background⟩
  | .ok pids => if p.stages.isEmpty then pure ⟨.ok 0, background⟩ else p.attend background pids

theorem run_eq_follow (p : Pipeline) (background : Background) :
    p.run background = start p.stages >>= p.follow background := by
  by_cases hstages : p.stages = []
  · obtain ⟨stages, background'⟩ := p
    obtain rfl : stages = [] := hstages
    rfl
  · rw [run_eq hstages]
    refine congrArg (start p.stages >>= ·) (funext fun r => ?_)
    cases r with
    | error fatal => rfl
    | ok pids => exact (if_neg (by simpa using hstages)).symm

theorem follow_attends (p : Pipeline) (background : Background) (result : Except Fatal (List Pid)) :
    (p.follow background result).Confined Attends False fun o =>
      (∃ pids, result = .ok pids) → ∃ n, o.status = .ok n := by
  cases result with
  | error fatal =>
    rintro ⟨pids, hpids⟩
    cases hpids
  | ok pids =>
    unfold follow
    dsimp only
    split
    · exact fun _ => ⟨0, rfl⟩
    · exact (attend_attends p background pids).imp fun o ho _ => ho.1

theorem course_start_iff {stages : List Stage} {past : List (Exchange (Except Fatal (List Pid)))}
    {result : Except Fatal (List Pid)} :
    Course (start stages) past (some result) ↔ Launch 0 none stages past result :=
  course_startFrom_iff

theorem course_execute_iff {p : Pipeline} {background : Background} {past : List (Exchange Outcome)}
    {outcome : Outcome} : Course ((Action.run p).execute background) past (some outcome) ↔
      ∃ launched result after,
        past = .called (.note (.executing (.run p))) (some ()) :: (launched ++ after) ∧
        Launch 0 none p.stages launched result ∧
        Course (p.follow background result) after (some outcome) := by
  have hexecute : (Action.run p).execute background =
      .call (.note (.executing (.run p))) fun _ => start p.stages >>= p.follow background :=
    congrArg (Program.call (.note (.executing (.run p))))
      (funext fun _ => p.run_eq_follow background)
  rw [hexecute, course_call_iff (by simp)]
  constructor
  · rintro ⟨_, past, rfl, h⟩
    obtain ⟨launched, result, after, rfl, hlaunch, hafter⟩ := launch_of_course h
    exact ⟨launched, result, after, rfl, hlaunch, hafter⟩
  · rintro ⟨launched, result, after, rfl, hlaunch, hafter⟩
    exact ⟨(), _, rfl, hlaunch.course hafter⟩

end Pipeline

end PipeShell
