import PipeShell.Proofs.Session.Frame

/-!
Sessions line by line. On a host that carries out actions as the interpreter does, a session is a
fold over its lines, and each line has a precise frame: what it can change is told by what it asks
for.
-/

set_option autoImplicit false
set_option relaxedAutoImplicit false

namespace PipeShell

open Program

variable {σ δ : Type}

/-- What the surroundings are told after a course of an action, and the background that it
leaves. -/
def Tells (past : List (Exchange Outcome)) (result : Option Outcome)
    (before after : Background) : Performed → Prop
  | .status n => result = some ⟨.ok n, after⟩
  | .fatal f => result = some ⟨.error f, after⟩
  | .left code => .called (.exit code) none ∈ past ∧ after = before

/-- A host carries out actions as the interpreter does, with some answers to its calls. Two things
are watched in its states: the working directory, which changes only when it is entered, and the
background. -/
structure Host.Faithful (h : Host σ) (cwd : σ → δ) (background : σ → Background) : Prop where
  performs : ∀ action s, ∃ past result, Course (action.execute (background s)) past result ∧
    Tells past result (background s) (background (h.perform action s).2) (h.perform action s).1 ∧
    (cwd (h.perform action s).2 ≠ cwd s → Enters past)
  reaps : ∀ s, ∃ past, Course (background s).reap past (some (background (h.reap s))) ∧
    (cwd (h.reap s) ≠ cwd s → Enters past)
  writes : ∀ data s, cwd (h.write data s) = cwd s ∧ background (h.write data s) = background s
  complains : ∀ data s, cwd (h.complain data s) = cwd s ∧
    background (h.complain data s) = background s
  notes : ∀ record s, cwd (h.note record s) = cwd s ∧ background (h.note record s) = background s

namespace Session

def reading (line : Bytes) : Except Line.Unreadable Action :=
  Line.read (String.ofList (Utf8.decodeLossy line))

def ready (h : Host σ) (settings : Settings) (s : State σ) : State σ :=
  flush h (prepare h settings s)

/-- What sessions come to on a host, line by line. -/
structure FoldsLines (h : Host σ) (settings : Settings) (cwd : σ → δ)
    (background : σ → Background) : Prop where
  /-- The input is cut behind each newline. -/
  cut : ∀ input : Bytes, (Bytes.lines input).flatten = input ∧
    (∀ line ∈ Bytes.lines input, line ≠ [] ∧ Bytes.newline ∉ line.dropLast) ∧
    ∀ line ∈ (Bytes.lines input).dropLast, line.getLast? = some Bytes.newline
  /-- The lines are carried out in order, and the end of the input ends the session with the code
  0. -/
  fold : ∀ (input : Bytes) (s : State σ) (rounds : Nat), (Bytes.lines input).length < rounds →
    ∃ rest, run h.fed settings rounds (s.fed input) =
      (some (conclude h settings ((Bytes.lines input).foldl (step h settings) (none, s))).1,
        (conclude h settings ((Bytes.lines input).foldl (step h settings) (none, s))).2.fed rest)
  /-- A line that leaves ends the session with the code 0, and one that fails fatally with the code
  1. -/
  ends : ∀ (s : State σ) (line : Bytes), (step h settings (none, s) line).1 =
    match reading line with
    | .error _ => none
    | .ok .exit => some 0
    | .ok action =>
      match (h.perform action (ready h settings s).host).1 with
      | .fatal _ => some 1
      | _ => none
  /-- Later lines have no effect. -/
  later : ∀ (code : UInt8) (s : State σ) (lines : List Bytes),
    lines.foldl (step h settings) (some code, s) = (some code, s)
  /-- Behind whole lines that do not end it, the session goes on as one that begins in the state
  they have left. -/
  resumes : ∀ (first more : Bytes) (s s' : State σ),
    (first = [] ∨ first.getLast? = some Bytes.newline) →
    (Bytes.lines first).foldl (step h settings) (none, s) = (none, s') →
    ∀ rounds rounds', (Bytes.lines (first ++ more)).length < rounds →
      (Bytes.lines more).length < rounds' →
      ∃ code final rest rest',
        run h.fed settings rounds (s.fed (first ++ more)) = (some code, State.fed rest final) ∧
        run h.fed settings rounds' (s'.fed more) = (some code, final.fed rest')
  /-- The working directory changes only with a line that changes it, if that succeeds. -/
  directory : ∀ (s : State σ) (line : Bytes),
    cwd (step h settings (none, s) line).2.host ≠ cwd s.host →
    ∃ target past, reading line = .ok (.changeDirectory target) ∧
      (h.perform (.changeDirectory target) (ready h settings s).host).1 = .status 0 ∧
      Course ((Action.changeDirectory target).execute (background (ready h settings s).host)) past
        (some ⟨.ok 0, background (ready h settings s).host⟩) ∧
      .called (.change (.enter (Bytes.ofString target))) (some (.ok ())) ∈ past
  /-- Processes are added to the background only by a line that runs a pipeline there. -/
  jobs : ∀ (s : State σ) (line : Bytes), ∃ kept added, kept.Sublist (background s.host).pids ∧
    (background (step h settings (none, s) line).2.host).pids = kept ++ added ∧
    (added ≠ [] → ∃ p, reading line = .ok (.run p) ∧ p.background = true)
  /-- A line that cannot be read changes neither. It is complained about once, and the session goes
  on with its status. -/
  refused : ∀ (s : State σ) (line : Bytes) (refusal : Line.Unreadable),
    reading line = .error refusal →
    step h settings (none, s) line = (none, onHost (fun host => h.note (.lineStatus 127)
      (h.complain (Bytes.ofString
        ("minish: " ++ ("syntax error at column " ++ toString refusal.column ++
        ": command not found") ++ "\n")) host)) (prepare h settings s)) ∧
    cwd (step h settings (none, s) line).2.host = cwd s.host ∧
    background (step h settings (none, s) line).2.host = background (h.reap s.host)

section

variable {h : Host σ} {settings : Settings} {cwd : σ → δ} {background : σ → Background}

theorem step_of_error {line : Bytes} {refusal : Line.Unreadable}
    (hread : reading line = .error refusal) (s : State σ) :
    step h settings (none, s) line =
      (none, onHost (fun host => h.note (.lineStatus unreadableStatus)
      (h.complain (complaint refusal.message) host)) (prepare h settings s)) := by
  unfold reading at hread
  rw [step_none, runLine, hread]
  rfl

def codeAfter : Performed → Option UInt8
  | .status _ => none
  | .left code => some code
  | .fatal _ => some 1

theorem step_of_ok {line : Bytes} {action : Action} (hread : reading line = .ok action)
    (s : State σ) : (step h settings (none, s) line).1 =
      codeAfter (h.perform action (ready h settings s).host).1 := by
  unfold reading at hread
  unfold ready
  rw [step_none, runLine, hread]
  dsimp only
  generalize h.perform action (flush h (prepare h settings s)).host = performed
  rcases performed with ⟨_ | _ | _, host⟩ <;> rfl

theorem foldl_over (code : UInt8) (s : State σ) (lines : List Bytes) :
    lines.foldl (step h settings) (some code, s) = (some code, s) := by
  induction lines with
  | nil => rfl
  | cons line lines ih => exact ih

variable (hh : h.Faithful cwd background)

include hh

theorem flush_frame (s : State σ) :
    cwd (flush h s).host = cwd s.host ∧ background (flush h s).host = background s.host := by
  unfold flush
  split
  · exact ⟨rfl, rfl⟩
  · exact hh.writes s.pending s.host

theorem reap_frame (s : σ) :
    cwd (h.reap s) = cwd s ∧ (background (h.reap s)).pids.Sublist (background s).pids := by
  obtain ⟨past, hcourse, henters⟩ := hh.reaps s
  have hrests := (background s).reap_rests
  refine ⟨Classical.byContradiction fun hne => ?_, (hcourse.of_confined hrests).2.2 _ rfl⟩
  exact not_enters hcourse hrests (henters hne)

theorem prepare_frame (settings : Settings) (s : State σ) :
    cwd (prepare h settings s).host = cwd s.host ∧
      background (prepare h settings s).host = background (h.reap s.host) := by
  have hreap := (reap_frame hh s.host).1
  unfold prepare
  split
  · obtain ⟨hcwd, hbackground⟩ :=
      flush_frame hh (print (prompt (h.directory (h.reap s.host))) (onHost h.reap s))
    exact ⟨hcwd.trans hreap, hbackground⟩
  · exact ⟨hreap, rfl⟩

theorem ready_frame (settings : Settings) (s : State σ) :
    cwd (ready h settings s).host = cwd s.host ∧
    background (ready h settings s).host = background (h.reap s.host) := by
  obtain ⟨hcwd, hbackground⟩ := flush_frame hh (prepare h settings s)
  obtain ⟨hcwd', hbackground'⟩ := prepare_frame hh settings s
  exact ⟨hcwd.trans hcwd', hbackground.trans hbackground'⟩

theorem step_frame {line : Bytes} {action : Action}
    (hread : reading line = .ok action) (s : State σ) :
    cwd (step h settings (none, s) line).2.host =
      cwd (h.perform action (ready h settings s).host).2 ∧
      background (step h settings (none, s) line).2.host =
        background (h.perform action (ready h settings s).host).2 := by
  unfold reading at hread
  unfold ready
  rw [step_none, runLine, hread]
  dsimp only
  generalize h.perform action (flush h (prepare h settings s)).host = performed
  rcases performed with ⟨n | code | f, host⟩
  · exact hh.notes _ host
  · exact ⟨rfl, rfl⟩
  · obtain ⟨hcwd, hbackground⟩ := hh.notes (.cannotContinue f.message) host
    obtain ⟨hcwd', hbackground'⟩ :=
      hh.complains (complaint f.message) (h.note (.cannotContinue f.message) host)
    exact ⟨hcwd'.trans hcwd, hbackground'.trans hbackground⟩

theorem perform_left {action : Action} {s : σ} {code : UInt8}
    (hleft : (h.perform action s).1 = .left code) : action = .exit ∧ code = 0 := by
  obtain ⟨past, result, hcourse, htells, -⟩ := hh.performs action s
  rw [hleft] at htells
  exact Action.exit_of_left hcourse htells.1

theorem perform_exit (s : σ) : (h.perform .exit s).1 = .left 0 := by
  obtain ⟨past, result, hcourse, htells, -⟩ := hh.performs .exit s
  have hnone (o : Outcome) (ho : result = some o) : False :=
    (hcourse.of_confined (Action.exit_leaves _)).2.2 o ho
  cases hperformed : (h.perform .exit s).1 with
  | status n =>
    rw [hperformed] at htells
    exact (hnone _ htells).elim
  | fatal f =>
    rw [hperformed] at htells
    exact (hnone _ htells).elim
  | left code => rw [(perform_left hh hperformed).2]

theorem step_code (s : State σ) (line : Bytes) : (step h settings (none, s) line).1 =
    match reading line with
    | .error _ => none
    | .ok .exit => some 0
    | .ok action =>
      match (h.perform action (ready h settings s).host).1 with
      | .fatal _ => some 1
      | _ => none := by
  cases hread : reading line with
  | error refusal => rw [step_of_error hread]
  | ok action =>
    rw [step_of_ok hread]
    by_cases hexit : action = .exit
    · subst hexit
      rw [perform_exit hh]
      rfl
    · have hstays (code : UInt8) : (h.perform action (ready h settings s).host).1 ≠ .left code :=
        fun hleft => hexit (perform_left hh hleft).1
      have hother : (match (.ok action : Except Line.Unreadable Action) with
          | .error _ => none
          | .ok .exit => some 0
          | .ok action =>
            match (h.perform action (ready h settings s).host).1 with
            | .fatal _ => some 1
            | _ => none) =
          (match (h.perform action (ready h settings s).host).1 with
            | .fatal _ => some 1
            | _ => none : Option UInt8) := by
        cases action with
        | exit => exact absurd rfl hexit
        | _ => rfl
      rw [hother]
      cases hperformed : (h.perform action (ready h settings s).host).1 with
      | left code => exact absurd hperformed (hstays code)
      | status n => rfl
      | fatal f => rfl

theorem step_directory (s : State σ) (line : Bytes)
    (hchanged : cwd (step h settings (none, s) line).2.host ≠ cwd s.host) :
    ∃ target past, reading line = .ok (.changeDirectory target) ∧
      (h.perform (.changeDirectory target) (ready h settings s).host).1 = .status 0 ∧
      Course ((Action.changeDirectory target).execute (background (ready h settings s).host)) past
        (some ⟨.ok 0, background (ready h settings s).host⟩) ∧
      .called (.change (.enter (Bytes.ofString target))) (some (.ok ())) ∈ past := by
  cases hread : reading line with
  | error refusal =>
    rw [step_of_error hread] at hchanged
    refine absurd ?_ hchanged
    exact ((hh.notes _ _).1.trans (hh.complains _ _).1).trans (prepare_frame hh settings s).1
  | ok action =>
    rw [(step_frame hh hread s).1, ← (ready_frame hh settings s).1] at hchanged
    obtain ⟨past, result, hcourse, htells, henters⟩ := hh.performs action (ready h settings s).host
    obtain ⟨target, rfl, hcalled, hresult⟩ :=
      Action.changeDirectory_of_enters hcourse (henters hchanged)
    have hstatus : (h.perform (.changeDirectory target) (ready h settings s).host).1 = .status 0 ∧
        result = some ⟨.ok 0, background (ready h settings s).host⟩ := by
      cases hperformed : (h.perform (.changeDirectory target) (ready h settings s).host).1 with
      | status n =>
        rw [hperformed] at htells
        have htells : result = some ⟨.ok n, _⟩ := htells
        have heq := hresult _ htells
        rw [heq] at htells
        obtain ⟨hn, -⟩ := Outcome.mk.inj heq
        exact ⟨by rw [Except.ok.inj hn], htells⟩
      | fatal f =>
        rw [hperformed] at htells
        cases hresult _ htells
      | left code => cases (perform_left hh hperformed).1
    exact ⟨target, past, rfl, hstatus.1, hstatus.2 ▸ hcourse, hcalled⟩

theorem step_jobs (s : State σ) (line : Bytes) :
    ∃ kept added, kept.Sublist (background s.host).pids ∧
    (background (step h settings (none, s) line).2.host).pids = kept ++ added ∧
    (added ≠ [] → ∃ p, reading line = .ok (.run p) ∧ p.background = true) := by
  have hsub := (reap_frame hh s.host).2
  cases hread : reading line with
  | error refusal =>
    refine ⟨_, [], hsub, ?_, by simp⟩
    rw [step_of_error hread, List.append_nil]
    have hsame : background (h.note (.lineStatus unreadableStatus) (h.complain
        (complaint refusal.message) (prepare h settings s).host)) = background (h.reap s.host) :=
      ((hh.notes _ _).2.trans (hh.complains _ _).2).trans (prepare_frame hh settings s).2
    exact congrArg Background.pids hsame
  | ok action =>
    have hready := (ready_frame hh settings s).2
    rw [(step_frame hh hread s).2]
    obtain ⟨past, result, hcourse, htells, -⟩ := hh.performs action (ready h settings s).host
    -- what an outcome says about the background
    have houtcome (o : Outcome) (ho : result = some o)
        (hafter : background (h.perform action (ready h settings s).host).2 = o.background) :
        ∃ kept added, kept.Sublist (background s.host).pids ∧
          (background (h.perform action (ready h settings s).host).2).pids = kept ++ added ∧
          (added ≠ [] → ∃ p, Except.ok action = (.ok (.run p) : Except Line.Unreadable Action) ∧
            p.background = true) := by
      subst ho
      rw [hafter]
      rcases Action.background_of_outcome hcourse with hsame | ⟨p, pids, rfl, hbackground, hadd⟩
      · exact ⟨_, [], hsub, by rw [hsame, hready, List.append_nil], by simp⟩
      · exact ⟨_, pids, hsub, by rw [hadd, hready], fun _ => ⟨p, rfl, hbackground⟩⟩
    cases hperformed : (h.perform action (ready h settings s).host).1 with
    | status n =>
      rw [hperformed] at htells
      exact houtcome _ htells rfl
    | fatal f =>
      rw [hperformed] at htells
      exact houtcome _ htells rfl
    | left code =>
      rw [hperformed] at htells
      refine ⟨_, [], hsub, ?_, by simp⟩
      rw [htells.2, hready, List.append_nil]

/-- Sessions on faithful hosts are folds over their lines. -/
theorem folds_lines (hshot : settings.singleShot = false) :
    FoldsLines h settings cwd background where
  cut input := ⟨Bytes.flatten_lines input, fun _ => Bytes.mem_lines,
    fun _ => Bytes.getLast?_of_mem_dropLast_lines⟩
  fold _ _ _ hrounds := run_fed hshot hrounds
  ends := step_code hh
  later := foldl_over
  resumes := by
    intro first more s s' hfirst hlines rounds rounds' hrounds hrounds'
    obtain ⟨rest, hrun⟩ := run_fed (h := h) (s := s) hshot hrounds
    obtain ⟨rest', hrun'⟩ := run_fed (h := h) (s := s') hshot hrounds'
    rw [Bytes.lines_append hfirst, List.foldl_append, hlines] at hrun
    exact ⟨_, _, rest, rest', hrun, hrun'⟩
  directory := step_directory hh
  jobs := step_jobs hh
  refused := by
    intro s line refusal hread
    refine ⟨step_of_error hread s, ?_, ?_⟩
    · rw [step_of_error hread]
      exact ((hh.notes _ _).1.trans (hh.complains _ _).1).trans (prepare_frame hh settings s).1
    · rw [step_of_error hread]
      exact ((hh.notes _ _).2.trans (hh.complains _ _).2).trans (prepare_frame hh settings s).2

end

private structure Desk where
  directory : Bytes
  background : Background := {}
  complaints : List Bytes := []

/-- A host on which processes can be started, but no pipes can be made. -/
private def pipeless : Host Desk where
  reap s := s
  directory s := some s.directory
  write _ s := s
  complain data s := { s with complaints := s.complaints ++ [data] }
  note _ s := s
  readLine s := (.ok [], s)
  perform
    | .nothing, s => (.status 0, s)
    | .exit, s => (.left 0, s)
    | .changeDirectory target, s =>
      if '\x00' ∈ target.toList then (.status Errno.invalid.number, s)
      else (.status 0, { s with directory := Bytes.ofString target })
    | .run ⟨[], _⟩, s => (.status 0, s)
    | .run ⟨stage :: rest, background⟩, s =>
      match stage.zeroByte?, rest, background with
      | some position, _, _ => (.fatal (.zeroByte position), s)
      | none, _ :: _, _ => (.fatal (.noPipe .tooManyOpen), s)
      | none, [], true => (.status 0, { s with background := ⟨s.background.pids ++ [7]⟩ })
      | none, [], false => (.status 0, s)

private theorem keepRunning_all (pids : List Pid) :
    ∃ past, Course (Background.keepRunning pids) past (some pids) := by
  induction pids with
  | nil => exact ⟨[], .done []⟩
  | cons pid rest ih =>
    obtain ⟨past, hpast⟩ := ih
    have hrest : Course (Background.keepRunning rest >>= fun others => .done (pid :: others)) _
        (some (pid :: rest)) :=
      hpast.bind (.done _)
    exact ⟨_, .answered (c := .poll pid) (.ok .stillAlive) hrest⟩

private theorem change_course (target : String) : ∃ past,
    Course (Directory.change target) past
      (some (if '\x00' ∈ target.toList then Errno.invalid.number else 0)) ∧
      ('\x00' ∉ target.toList → Enters past) := by
  suffices h : ∃ past, Course (Directory.enter target >>= Directory.conclude target) past
      (some (if '\x00' ∈ target.toList then Errno.invalid.number else 0)) ∧
      ('\x00' ∉ target.toList → Enters past) by
    obtain ⟨past, hpast, henters⟩ := h
    refine ⟨_, .answered (c := .note _) () hpast, fun hzero => ?_⟩
    exact (henters hzero).imp fun path hmem => List.mem_cons_of_mem _ hmem
  unfold Directory.enter
  by_cases hzero : '\x00' ∈ target.toList
  · rw [if_pos hzero, if_pos hzero]
    exact ⟨_, .answered (c := .write _ _) (.ok ()) (.done _), fun h => absurd hzero h⟩
  · rw [if_neg hzero, if_neg hzero]
    exact ⟨_, .answered (c := .change (.enter _)) (.ok ()) (.done _),
      fun _ => ⟨_, List.mem_cons_self⟩⟩

private theorem run_course (stage : Stage) (rest : List Stage) (background : Bool)
    (before : Background) :
    ∃ past, Course (Pipeline.run ⟨stage :: rest, background⟩ before) past
      (some (match stage.zeroByte?, rest, background with
        | some position, _, _ => ⟨.error (.zeroByte position), before⟩
        | none, _ :: _, _ => ⟨.error (.noPipe .tooManyOpen), before⟩
        | none, [], true => ⟨.ok 0, ⟨before.pids ++ [7]⟩⟩
        | none, [], false => ⟨.ok 0, before⟩)) := by
  rw [Pipeline.run_eq (by simp)]
  unfold Pipeline.start Pipeline.startFrom
  cases hzero : stage.zeroByte? with
  | some position => exact ⟨_, .done _⟩
  | none =>
    cases rest with
    | cons second others => exact ⟨_, .answered (c := .pipe) (.error .tooManyOpen) (.done _)⟩
    | nil =>
      cases background with
      | true =>
        exact ⟨_, .forked (.ok 7)
          (.answered (c := .note _) () (.answered (c := .note _) () (.done _)))⟩
      | false =>
        exact ⟨_, .forked (.ok 7) (.answered (c := .note _) () (.answered (c := .waitFor 7)
          (.ok (.exited 7 0)) (.answered (c := .note _) () (.done _))))⟩

private theorem pipeless_faithful : pipeless.Faithful Desk.directory Desk.background where
  performs := by
    intro action s
    cases action with
    | nothing =>
      refine ⟨_, _, .answered (c := .note _) () (.done _), rfl, fun h => absurd rfl h⟩
    | exit =>
      refine ⟨_, _, .answered (c := .note _) () (.awaiting (.exit 0) _), ⟨?_, rfl⟩,
        fun h => absurd rfl h⟩
      simp
    | changeDirectory target =>
      obtain ⟨past, hpast, henters⟩ := change_course target
      have hcourse : Course ((Action.changeDirectory target).execute s.background) _ _ :=
        .answered (c := .note _) () (hpast.bind (.done _))
      refine ⟨_, _, hcourse, ?_⟩
      by_cases hzero : '\x00' ∈ target.toList
      · have hperform : pipeless.perform (.changeDirectory target) s =
            (.status Errno.invalid.number, s) := if_pos hzero
        rw [hperform, if_pos hzero]
        exact ⟨rfl, fun h => absurd rfl h⟩
      · have hperform : pipeless.perform (.changeDirectory target) s =
            (.status 0, { s with directory := Bytes.ofString target }) := if_neg hzero
        rw [hperform, if_neg hzero]
        obtain ⟨path, hmem⟩ := henters hzero
        refine ⟨rfl, fun _ => ⟨path, List.mem_cons_of_mem _ ?_⟩⟩
        rw [List.append_nil]
        exact called_mem_andThen.mpr hmem
    | run p =>
      obtain ⟨_ | ⟨stage, rest⟩, background⟩ := p
      · exact ⟨_, _, .answered (c := .note _) () (.done _), rfl, fun h => absurd rfl h⟩
      · obtain ⟨past, hpast⟩ := run_course stage rest background s.background
        refine ⟨_, _, .answered (c := .note _) () hpast, ?_⟩
        show Tells _ _ _ (pipeless.perform (.run ⟨stage :: rest, background⟩) s).2.background _ ∧ _
        unfold pipeless
        dsimp only
        cases stage.zeroByte? with
        | some position => exact ⟨rfl, fun h => absurd rfl h⟩
        | none =>
          cases rest with
          | cons second others => exact ⟨rfl, fun h => absurd rfl h⟩
          | nil => cases background <;> exact ⟨rfl, fun h => absurd rfl h⟩
  reaps := by
    intro s
    obtain ⟨past, hpast⟩ := keepRunning_all s.background.pids
    exact ⟨_, hpast.bind (.done _), fun h => absurd rfl h⟩
  writes _ _ := ⟨rfl, rfl⟩
  complains _ _ := ⟨rfl, rfl⟩
  notes _ _ := ⟨rfl, rfl⟩

/-- The fourth line needs a pipe and ends the session; the last one has no effect. -/
theorem folds_five_lines :
    ∃ rest final, run pipeless.fed {} 6
      (State.fed (Bytes.ofString "cd sub\n?\nsleep &\na|b\nexit") { host := { directory := [] } }) =
      (some 1, State.fed rest final) ∧
    final.host.directory = Bytes.ofString "sub" ∧ final.host.background.pids = [7] ∧
    final.host.complaints = [Bytes.ofString "minish: syntax error at column 1: command not found\n",
      Bytes.ofString "minish: cannot create pipe: EMFILE: Too many open files\n"] := by
  have hfolds : FoldsLines pipeless {} Desk.directory Desk.background :=
    folds_lines pipeless_faithful rfl
  obtain ⟨rest, hrun⟩ := hfolds.fold (Bytes.ofString "cd sub\n?\nsleep &\na|b\nexit")
    { host := { directory := [] } } 6 (by decide +kernel)
  have hcode :
      (conclude pipeless {} ((Bytes.lines (Bytes.ofString "cd sub\n?\nsleep &\na|b\nexit")).foldl
        (step pipeless {}) (none, { host := { directory := [] } }))).1 = 1 := by decide +kernel
  rw [hcode] at hrun
  exact ⟨rest, _, hrun, by decide +kernel, by decide +kernel, by decide +kernel⟩

end Session

end PipeShell
