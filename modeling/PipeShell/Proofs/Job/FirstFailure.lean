import PipeShell.Proofs.Job.Children
import PipeShell.Proofs.Job.Launch

/-!
Where the start of a pipeline stops. For each stage its arguments are made ready, the pipe behind it
is made and its process is started; the first of these attempts that fails is the last one, and
nothing but its reason comes of the pipeline.
-/

set_option autoImplicit false
set_option relaxedAutoImplicit false

namespace PipeShell

open Program

variable {α : Type}

/-! ### Zero bytes -/

theorem Bytes.idxOf?_eq_some_iff {s : Bytes} {b : UInt8} {position : Nat} :
    s.idxOf? b = some position ↔
    ∃ front back, s = front ++ b :: back ∧ b ∉ front ∧ front.length = position := by
  induction s generalizing position with
  | nil => simp
  | cons c s ih =>
    by_cases hc : c = b
    · subst hc
      have hfirst : (c :: s).idxOf? c = some 0 := by simp [List.idxOf?_cons]
      rw [hfirst]
      constructor
      · rintro ⟨⟩
        exact ⟨[], s, rfl, List.not_mem_nil, rfl⟩
      · rintro ⟨_ | ⟨d, front⟩, back, heq, hnot, rfl⟩
        · rfl
        · cases heq
          exact absurd List.mem_cons_self hnot
    · have hlater : (c :: s).idxOf? b = (s.idxOf? b).map (· + 1) := by simp [List.idxOf?_cons, hc]
      rw [hlater, Option.map_eq_some_iff]
      constructor
      · rintro ⟨k, hk, rfl⟩
        obtain ⟨front, back, rfl, hnot, rfl⟩ := ih.mp hk
        refine ⟨c :: front, back, rfl, ?_, rfl⟩
        rw [List.mem_cons]
        exact fun h => h.elim (fun heq => hc heq.symm) hnot
      · rintro ⟨_ | ⟨d, front⟩, back, heq, hnot, rfl⟩
        · cases heq
          exact absurd rfl hc
        · cases heq
          exact ⟨front.length,
            ih.mpr ⟨front, back, rfl, fun h => hnot (List.mem_cons_of_mem _ h), rfl⟩, rfl⟩

namespace Stage

/-- The first argument that has zero bytes has the first one at a position. -/
def ZeroAt (stage : Stage) (position : Nat) : Prop :=
  ∃ earlier argument later front back, stage.arguments = earlier ++ argument :: later ∧
    (∀ a ∈ earlier, (0 : UInt8) ∉ Bytes.ofString a) ∧ Bytes.ofString argument = front ++ 0 :: back ∧
    (0 : UInt8) ∉ front ∧ front.length = position

theorem zeroByte?_eq_some_iff {stage : Stage} {position : Nat} :
    stage.zeroByte? = some position ↔ stage.ZeroAt position := by
  unfold zeroByte?
  rw [List.findSome?_eq_some_iff]
  constructor
  · rintro ⟨earlier, argument, later, harguments, hposition, hearlier⟩
    obtain ⟨front, back, heq, hnot, hlength⟩ := Bytes.idxOf?_eq_some_iff.mp hposition
    exact ⟨earlier, argument, later, front, back, harguments,
      fun a ha => List.idxOf?_eq_none_iff.mp (hearlier a ha), heq, hnot, hlength⟩
  · rintro ⟨earlier, argument, later, front, back, harguments, hearlier, heq, hnot, hlength⟩
    exact ⟨earlier, argument, later, harguments, Bytes.idxOf?_eq_some_iff.mpr ⟨front, back, heq,
      hnot, hlength⟩, fun a ha => List.idxOf?_eq_none_iff.mpr (hearlier a ha)⟩

theorem exists_zeroAt_iff {stage : Stage} : (∃ position, stage.ZeroAt position) ↔
    ∃ argument ∈ stage.arguments, (0 : UInt8) ∈ Bytes.ofString argument := by
  have hnone : stage.zeroByte? = none ↔
      ∀ argument ∈ stage.arguments, (0 : UInt8) ∉ Bytes.ofString argument := by
    rw [zeroByte?, List.findSome?_eq_none_iff]
    exact forall₂_congr fun argument _ => List.idxOf?_eq_none_iff
  constructor
  · rintro ⟨position, hzero⟩
    refine Classical.byContradiction fun hall => ?_
    have := hnone.mpr fun argument hmem hbyte => hall ⟨argument, hmem, hbyte⟩
    rw [zeroByte?_eq_some_iff.mpr hzero] at this
    cases this
  · rintro ⟨argument, hmem, hbyte⟩
    cases hzero : stage.zeroByte? with
    | none => exact absurd hbyte (hnone.mp hzero argument hmem)
    | some position => exact ⟨position, zeroByte?_eq_some_iff.mp hzero⟩

end Stage

/-! ### Attempts -/

inductive Attempt
  /-- The arguments are made ready for the system. -/
  | arguments (stage : Nat)
  /-- The pipe behind the stage is made. -/
  | pipe (stage : Nat)
  | process (stage : Nat)
  deriving DecidableEq, Repr

/-- What comes of the calls for pipes and for processes, stage by stage. -/
structure Outcomes where
  pipes : Nat → Except Errno (Fd × Fd)
  processes : Nat → Except Errno Pid

inductive Answer
  | pipe (reply : Except Errno (Fd × Fd))
  | process (reply : Except Errno Pid)

namespace Attempt

def stage : Attempt → Nat
  | arguments i => i
  | pipe i => i
  | process i => i

def ofStage (count i : Nat) : List Attempt :=
  .arguments i :: if i + 1 < count then [.pipe i, .process i] else [.process i]

def all (count : Nat) : List Attempt := (List.range count).flatMap (ofStage count)

inductive Fails (stages : List Stage) (o : Outcomes) : Attempt → Fatal → Prop
  | arguments {i position : Nat} {stage : Stage} : stages[i]? = some stage → stage.ZeroAt position →
      Fails stages o (.arguments i) (.zeroByte position)
  | pipe {i : Nat} {reason : Errno} :
      o.pipes i = .error reason → Fails stages o (.pipe i) (.noPipe reason)
  | process {i : Nat} {reason : Errno} : o.processes i = .error reason →
      Fails stages o (.process i) (.noProcess reason)

/-- Of a row of attempts these are made: all of them, or those up to the first one that fails. -/
inductive Tried (stages : List Stage) (o : Outcomes) :
    List Attempt → List Attempt → Option (Attempt × Fatal) → Prop
  | all {attempts : List Attempt} :
      (∀ a ∈ attempts, ∀ f, ¬Fails stages o a f) → Tried stages o attempts attempts none
  | upTo {before after : List Attempt} {attempt : Attempt} {fatal : Fatal} :
      (∀ a ∈ before, ∀ f, ¬Fails stages o a f) → Fails stages o attempt fatal →
      Tried stages o (before ++ attempt :: after) (before ++ [attempt]) (some (attempt, fatal))

theorem Tried.behind {stages : List Stage} {o : Outcomes} {before attempts tried : List Attempt}
    {failure : Option (Attempt × Fatal)} (h : Tried stages o attempts tried failure)
    (hbefore : ∀ a ∈ before, ∀ f, ¬Fails stages o a f) :
    Tried stages o (before ++ attempts) (before ++ tried) failure := by
  cases h with
  | all hall => exact .all fun a ha => (List.mem_append.mp ha).elim (hbefore a) (hall a)
  | upTo hnone hfails =>
    rw [← List.append_assoc, ← List.append_assoc]
    exact .upTo (fun a ha => (List.mem_append.mp ha).elim (hbefore a) (hnone a)) hfails

theorem Fails.unique {stages : List Stage} {o : Outcomes} {attempt : Attempt} {fatal fatal' : Fatal}
    (h : Fails stages o attempt fatal) (h' : Fails stages o attempt fatal') : fatal = fatal' := by
  cases h with
  | arguments hstage hzero =>
    cases h' with
    | arguments hstage' hzero' =>
      cases hstage.symm.trans hstage'
      cases (Stage.zeroByte?_eq_some_iff.mpr hzero).symm.trans
        (Stage.zeroByte?_eq_some_iff.mpr hzero')
      rfl
  | pipe hpipe =>
    cases h' with
    | pipe hpipe' =>
      cases hpipe.symm.trans hpipe'
      rfl
  | process hprocess =>
    cases h' with
    | process hprocess' =>
      cases hprocess.symm.trans hprocess'
      rfl

theorem Tried.unique {stages : List Stage} {o : Outcomes} {before after made : List Attempt}
    {attempt : Attempt} {fatal : Fatal} {failure : Option (Attempt × Fatal)}
    (h : Tried stages o (before ++ attempt :: after) made failure)
    (hbefore : ∀ a ∈ before, ∀ f, ¬Fails stages o a f) (hfails : Fails stages o attempt fatal) :
    made = before ++ [attempt] ∧ failure = some (attempt, fatal) := by
  generalize hall : before ++ attempt :: after = attempts at h
  cases h with
  | all hnone =>
    subst hall
    exact absurd hfails (hnone attempt (by simp) fatal)
  | @upTo before' after' attempt' fatal' hbefore' hfails' =>
    rcases List.append_eq_append_iff.mp hall with ⟨more, rfl, heq⟩ | ⟨more, rfl, heq⟩
    · cases more with
      | nil =>
        obtain ⟨rfl, -⟩ := List.cons.inj heq
        exact ⟨by rw [List.append_nil], by rw [hfails.unique hfails']⟩
      | cons a more =>
        obtain ⟨rfl, -⟩ := List.cons.inj heq
        exact absurd hfails (hbefore' attempt (by simp) fatal)
    · cases more with
      | nil =>
        obtain ⟨rfl, -⟩ := List.cons.inj heq
        exact ⟨by rw [List.append_nil], by rw [hfails.unique hfails']⟩
      | cons a more =>
        obtain ⟨rfl, -⟩ := List.cons.inj heq
        exact absurd hfails' (hbefore attempt' (by simp) fatal')

end Attempt

def Exchange.answer? : Exchange α → Option Answer
  | .called .pipe (some reply) => some (.pipe reply)
  | .forked _ reply => some (.process reply)
  | _ => none

def answers (past : List (Exchange α)) : List Answer := past.filterMap Exchange.answer?

theorem answers_append (past more : List (Exchange α)) :
    answers (past ++ more) = answers past ++ answers more :=
  List.filterMap_append

theorem answers_closing (link? : Option Link) :
    answers (Link.closing link? : List (Exchange α)) = [] := by
  cases link? <;> rfl

namespace Outcomes

def answer? (o : Outcomes) : Attempt → Option Answer
  | .arguments _ => none
  | .pipe i => some (.pipe (o.pipes i))
  | .process i => some (.process (o.processes i))

/-- The answers are what comes of the calls, from the given pipe and the given process on. -/
def Give (o : Outcomes) : Nat → Nat → List Answer → Prop
  | _, _, [] => True
  | i, j, .pipe reply :: rest => reply = o.pipes i ∧ o.Give (i + 1) j rest
  | i, j, .process reply :: rest => reply = o.processes j ∧ o.Give i (j + 1) rest

theorem course_of_confined (o : Outcomes) {x : Program α}
    {forks : Prop} {Q : α → Prop} {may : Call → Prop}
    (hx : x.Confined may forks Q) (hstays : ∀ code, ¬may (.exit code)) (i j : Nat) :
    ∃ past a, Course x past (some a) ∧ o.Give i j (answers past) := by
  induction x generalizing i j with
  | done a => exact ⟨[], a, .done a, trivial⟩
  | call c next ih =>
    by_cases hpipe : c = .pipe
    · subst hpipe
      obtain ⟨past, a, hcourse, hgive⟩ := ih (o.pipes i) (hx.2 _) (i + 1) j
      exact ⟨_, a, .answered (c := .pipe) (o.pipes i) hcourse, rfl, hgive⟩
    · -- any answer will do that ends the call
      have hexit (code : UInt8) : c ≠ .exit code := fun heq => hstays code (heq ▸ hx.1)
      obtain ⟨reply, hsettled⟩ := Call.exists_settled hexit
      obtain ⟨past, a, hcourse, hgive⟩ := ih reply (hx.2 reply) i j
      refine ⟨.called c (some reply) :: past, a, .answered reply (by rwa [resume, hsettled]), ?_⟩
      have hother : (Exchange.called c (some reply) : Exchange α).answer? = none := by
        cases c with
        | pipe => exact absurd rfl hpipe
        | _ => rfl
      rwa [answers, List.filterMap_cons_none hother]
  | fork child next _ ih =>
    obtain ⟨past, a, hcourse, hgive⟩ := ih (o.processes j) (hx.2 _) i (j + 1)
    exact ⟨_, a, .forked (o.processes j) hcourse, rfl, hgive⟩
  | transfer => exact hx.elim
  | flood => exact hx.elim

end Outcomes

/-! ### The start of a pipeline -/

namespace Attempt

def remaining (number : Nat) (rest : List Stage) : List Attempt :=
  (List.range' number rest.length).flatMap (ofStage (number + rest.length))

theorem remaining_zero (stages : List Stage) : remaining 0 stages = all stages.length := by
  rw [remaining, all, Nat.zero_add, List.range_eq_range']

theorem remaining_cons (number : Nat) (stage : Stage) (rest : List Stage) :
    remaining number (stage :: rest) =
      ofStage (number + (stage :: rest).length) number ++ remaining (number + 1) rest := by
  unfold remaining
  rw [List.length_cons, List.range'_succ, List.flatMap_cons,
    Nat.add_right_comm number 1, ← Nat.add_assoc]

def before (last : Bool) (number : Nat) : List Attempt :=
  .arguments number :: if last then [] else [.pipe number]

theorem ofStage_eq (number : Nat) (stage : Stage) (rest : List Stage) :
    ofStage (number + (stage :: rest).length) number = before rest.isEmpty number ++
      [.process number] := by
  cases rest with
  | nil => simp [ofStage, before]
  | cons next rest => simp [ofStage, before]

end Attempt

namespace Pipeline

open Attempt

variable {stages : List Stage} {o : Outcomes}

theorem not_fails_arguments {number : Nat} {stage : Stage} (hstage : stages[number]? = some stage)
    (hzero : stage.zeroByte? = none) (fatal : Fatal) :
    ¬Fails stages o (.arguments number) fatal := by
  intro hfails
  cases hfails with
  | arguments hstage' hat =>
    cases hstage.symm.trans hstage'
    rw [Stage.zeroByte?_eq_some_iff.mpr hat] at hzero
    cases hzero

theorem Making.succeeds {last : Bool} {making : List (Exchange α)}
    {next : Option Link} (h : Making last making next) {number : Nat} {stage : Stage}
    (hstage : stages[number]? = some stage) (hzero : stage.zeroByte? = none)
    {more : List Answer} (hgive : o.Give number number (answers making ++ more)) :
    (∀ a ∈ before last number, ∀ f, ¬Fails stages o a f) ∧
      answers making = (before last number).filterMap o.answer? ∧
      o.Give (if last then number else number + 1) number more := by
  cases h with
  | atEnd =>
    refine ⟨fun a ha => ?_, rfl, hgive⟩
    obtain rfl := List.mem_singleton.mp ha
    exact not_fails_arguments hstage hzero
  | made link =>
    obtain ⟨hpipe, hgive⟩ := hgive
    refine ⟨fun a ha f => ?_, ?_, hgive⟩
    · rcases List.mem_cons.mp ha with rfl | ha
      · exact not_fails_arguments hstage hzero f
      · obtain rfl := List.mem_singleton.mp ha
        intro hfails
        cases hfails with
        | pipe hrefused => cases hpipe.trans hrefused
    · show [Answer.pipe (.ok (link.readEnd, link.writeEnd))] = [Answer.pipe (o.pipes number)]
      rw [hpipe]

/-- The children that were started are the processes of stages in their order, with the numbers that
were given. -/
def InOrder (stages : List Stage) (o : Outcomes) (number : Nat)
    (started : List (Pid × Program α)) : Prop :=
  ∀ k pid child, started[k]? = some (pid, child) → o.processes (number + k) = .ok pid ∧
    ∃ stage previous next, stages[number + k]? = some stage ∧ child = stage.process previous next

theorem InOrder.nil (number : Nat) : InOrder stages o number ([] : List (Pid × Program α)) := by
  intro k pid child hk
  simp at hk

theorem InOrder.cons {number : Nat} {started : List (Pid × Program α)} {stage : Stage} {pid : Pid}
    (hstage : stages[number]? = some stage) (hpid : o.processes number = .ok pid)
    (previous next : Option Link) (h : InOrder stages o (number + 1) started) :
    InOrder stages o number ((pid, stage.process previous next) :: started) := by
  intro k pid' child hk
  cases k with
  | zero =>
    obtain ⟨rfl, rfl⟩ := Prod.mk.inj (Option.some.inj hk)
    exact ⟨hpid, stage, previous, next, hstage, rfl⟩
  | succ k =>
    have hlater := h k pid' child hk
    rwa [Nat.add_assoc, Nat.add_comm 1 k] at hlater

/-- How far the start of the remaining stages gets: what was tried, and what has failed in the
end. -/
structure Reached (stages : List Stage) (o : Outcomes) (number : Nat) (rest : List Stage)
    (launched : List (Exchange α)) (result : Except Fatal (List Pid)) (made : List Attempt)
    (failure : Option (Attempt × Fatal)) : Prop where
  tried : Tried stages o (remaining number rest) made failure
  answered : answers launched = made.filterMap o.answer?
  started : InOrder stages o number (children launched)
  complete : failure = none → (∃ pids, result = .ok pids) ∧ (children launched).length = rest.length
  stopped : ∀ attempt fatal, failure = some (attempt, fatal) →
    result = .error fatal ∧ attempt.stage = number + (children launched).length

theorem Reached.of_failure {number : Nat} {stage : Stage}
    {rest : List Stage} {launched : List (Exchange α)}
    {fatal : Fatal} (before : List Attempt) (attempt : Attempt) (after : List Attempt)
    (hsplit : ofStage (number + (stage :: rest).length) number = before ++ attempt :: after)
    (hbefore : ∀ a ∈ before, ∀ f, ¬Fails stages o a f) (hfails : Fails stages o attempt fatal)
    (hstage : attempt.stage = number) (hchildren : children launched = [])
    (hanswers : answers launched = (before ++ [attempt]).filterMap o.answer?) :
    Reached stages o number (stage :: rest) launched (.error fatal) (before ++ [attempt])
      (some (attempt, fatal)) where
  tried := by
    rw [remaining_cons, hsplit, List.append_assoc]
    exact .upTo hbefore hfails
  answered := hanswers
  started := hchildren ▸ .nil number
  complete hnone := by cases hnone
  stopped attempt' fatal' heq := by
    cases heq
    rw [hchildren]
    exact ⟨rfl, hstage⟩

theorem Reached.behind {number : Nat} {previous next : Option Link} {stage : Stage}
    {rest : List Stage} {pid : Pid} {making past : List (Exchange α)}
    {result : Except Fatal (List Pid)} {made : List Attempt} {failure : Option (Attempt × Fatal)}
    (h : Reached stages o (number + 1) rest past result made failure)
    (hstage : stages[number]? = some stage) (hmaking : Making rest.isEmpty making next)
    (hbefore : ∀ a ∈ before rest.isEmpty number, ∀ f, ¬Fails stages o a f)
    (hmade : answers making = (before rest.isEmpty number).filterMap o.answer?)
    (hpid : o.processes number = .ok pid) :
    Reached stages o number (stage :: rest)
      (making ++ .forked (stage.process previous next) (.ok pid) ::
        .called (.note (.started number pid stage.arguments)) (some ()) ::
        (Link.closing previous ++ past))
      (result.map (pid :: ·))
      (before rest.isEmpty number ++ [.process number] ++ made) failure := by
  have hsucceeds :
      ∀ a ∈ before rest.isEmpty number ++ [.process number], ∀ f, ¬Fails stages o a f := by
    intro a ha f
    rcases List.mem_append.mp ha with ha | ha
    · exact hbefore a ha f
    · obtain rfl := List.mem_singleton.mp ha
      intro hfails
      cases hfails with
      | process hrefused => cases hpid.symm.trans hrefused
  constructor
  case tried =>
    rw [remaining_cons, ofStage_eq]
    exact h.tried.behind hsucceeds
  case answered =>
    have htail : answers (Link.closing previous ++ past) = made.filterMap o.answer? := by
      rw [answers_append, answers_closing]
      exact h.answered
    rw [answers_append, hmade, List.filterMap_append, List.filterMap_append,
      List.append_assoc, ← htail]
    refine congrArg (List.filterMap o.answer? (before rest.isEmpty number) ++ ·) ?_
    show _ = Answer.process (o.processes number) :: answers (Link.closing previous ++ past)
    rw [hpid]
    rfl
  case started =>
    rw [hmaking.children_started]
    exact h.started.cons hstage hpid previous next
  case complete =>
    intro hnone
    obtain ⟨⟨pids, rfl⟩, hlength⟩ := h.complete hnone
    rw [hmaking.children_started]
    exact ⟨⟨pid :: pids, rfl⟩, congrArg Nat.succ hlength⟩
  case stopped =>
    intro attempt fatal hfailure
    obtain ⟨rfl, hplace⟩ := h.stopped attempt fatal hfailure
    rw [hmaking.children_started, List.length_cons, hplace]
    exact ⟨rfl, by omega⟩

theorem answers_refused {making : List (Exchange α)} {child : Program α} {reason : Errno}
    (previous next : Option Link) :
    answers (making ++ .forked child (.error reason) ::
      (Link.closing next ++ Link.closing previous)) =
    answers making ++ [.process (.error reason)] := by
  rw [answers_append]
  refine congrArg (answers making ++ .process (.error reason) :: ·) ?_
  show answers (Link.closing next ++ Link.closing previous) = []
  rw [answers_append, answers_closing, answers_closing]
  rfl

theorem answers_started {making past : List (Exchange α)} {child : Program α} {pid : Pid}
    {r : Log.Record} (previous : Option Link) :
    answers (making ++ .forked child (.ok pid) :: .called (.note r) (some ()) ::
      (Link.closing previous ++ past)) =
    answers making ++ .process (.ok pid) :: answers past := by
  rw [answers_append]
  refine congrArg (answers making ++ .process (.ok pid) :: ·) ?_
  show answers (Link.closing previous ++ past) = _
  rw [answers_append, answers_closing]
  rfl

theorem Launch.reached {number : Nat} {previous : Option Link}
    {rest : List Stage} {launched : List (Exchange α)}
    {result : Except Fatal (List Pid)} (h : Launch number previous rest launched result) :
    stages.drop number = rest → o.Give number number (answers launched) →
      ∃ made failure, Reached stages o number rest launched result made failure := by
  have hhead {number : Nat} {stage : Stage} {rest : List Stage}
      (hrest : stages.drop number = stage :: rest) : stages[number]? = some stage := by
    rw [← List.head?_drop, hrest]
    rfl
  induction h with
  | complete number =>
    intro hrest hgive
    have hnothing : Tried stages o [] [] none := .all fun a ha => absurd ha List.not_mem_nil
    exact ⟨[], none, hnothing, rfl, .nil number, fun _ => ⟨⟨[], rfl⟩, rfl⟩, by simp⟩
  | @zeroByte number previous stage rest position hzero =>
    intro hrest hgive
    refine ⟨_, _, .of_failure [] (.arguments number) _ rfl (by simp) ?_ rfl
      (children_closing previous) (answers_closing previous)⟩
    exact .arguments (hhead hrest) (Stage.zeroByte?_eq_some_iff.mp hzero)
  | @noPipe number previous stage rest reason hzero hmore =>
    intro hrest hgive
    obtain ⟨hpipe, -⟩ : _ ∧ _ := hgive
    have hanswers : answers (.called .pipe (some (.error reason)) :: Link.closing previous : List
        (Exchange α)) = [.pipe (.error reason)] := congrArg (_ :: ·) (answers_closing previous)
    refine ⟨_, _, .of_failure [.arguments number] (.pipe number) [.process number] ?_ ?_
      (.pipe hpipe.symm) rfl (children_closing previous) ?_⟩
    · rw [ofStage_eq, hmore]
      rfl
    · intro a ha
      obtain rfl := List.mem_singleton.mp ha
      exact not_fails_arguments (hhead hrest) hzero
    · rw [hanswers, hpipe]
      rfl
  | @noProcess number previous stage rest reason making next hzero hmaking =>
    intro hrest hgive
    rw [answers_refused] at hgive
    obtain ⟨hbefore, hmade, hprocess, -⟩ := hmaking.succeeds (hhead hrest) hzero hgive
    refine ⟨_, _, .of_failure _ _ _ (ofStage_eq number stage rest) hbefore
      (.process hprocess.symm) rfl ?_ ?_⟩
    · exact hmaking.children_refused _ reason previous
    · rw [answers_refused, hmade, List.filterMap_append, hprocess]
      rfl
  | @started number previous stage rest pid making past next result hzero hmaking hlater ih =>
    intro hrest hgive
    rw [answers_started] at hgive
    obtain ⟨hbefore, hmade, hprocess, hgive⟩ := hmaking.succeeds (hhead hrest) hzero hgive
    -- no pipe is made for the last stage, but then nothing is left to be given either
    have hgive : o.Give (number + 1) (number + 1) (answers past) := by
      cases rest with
      | cons => exact hgive
      | nil =>
        cases hlater
        trivial
    obtain ⟨made, failure, hreached⟩ := ih (by rw [← List.tail_drop, hrest]; rfl) hgive
    exact ⟨_, failure, hreached.behind (hhead hrest) hmaking hbefore hmade hprocess.symm⟩

/-- What is left of a pipeline: the attempts that were made, and the first of them that has failed,
if one has. -/
structure Stops (p : Pipeline) (background : Background) (o : Outcomes)
    (past : List (Exchange Outcome)) (outcome : Outcome) (made : List Attempt)
    (failure : Option (Attempt × Fatal)) : Prop where
  tried : Tried p.stages o (Attempt.all p.stages.length) made failure
  /-- No other answer was asked for. -/
  answered : answers past = made.filterMap o.answer?
  started : InOrder p.stages o 0 (children past)
  complete : failure = none → (∃ n, outcome.status = .ok n) ∧
    (children past).length = p.stages.length
  /-- The stages before the one that fails are started, nobody waits for them, and the background is
  as it was. -/
  stopped : ∀ attempt fatal, failure = some (attempt, fatal) →
    outcome = ⟨.error fatal, background⟩ ∧
    (children past).length = attempt.stage ∧ ∀ c reply?, .called c reply? ∈ past → c.child? = none

theorem Attends.unanswered {x : Program α} {past : List (Exchange α)} {result : Option α}
    {Q : α → Prop} (h : Course x past result) (hx : x.Confined Attends False Q) :
    answers past = [] := by
  refine List.filterMap_eq_nil_iff.mpr fun exchange hmem => ?_
  obtain ⟨hcalls, hforks, -⟩ := h.of_confined hx
  cases exchange with
  | called c reply? =>
    have hattends := hcalls c reply? hmem
    cases c with
    | pipe => exact hattends.elim
    | _ => rfl
  | forked child reply => exact (hforks child reply hmem).elim
  | transferred => rfl
  | flooded => rfl

theorem execute_stops {p : Pipeline} {background : Background}
    {o : Outcomes} {past : List (Exchange Outcome)}
    {outcome : Outcome} (h : Course ((Action.run p).execute background) past (some outcome))
    (hgive : o.Give 0 0 (answers past)) :
    ∃ made failure, Stops p background o past outcome made failure := by
  obtain ⟨launched, result, after, rfl, hlaunch, hafter⟩ := course_execute_iff.mp h
  -- behind the start no pipe is made and no process is started
  have hattends := p.follow_attends background result
  have hquiet : answers after = [] ∧ children after = [] :=
    ⟨Attends.unanswered hafter hattends, hafter.childless hattends⟩
  have hanswers : answers (.called (.note (.executing (.run p))) (some ()) :: (launched ++ after)) =
      answers launched := by
    show answers (launched ++ after) = _
    rw [answers_append, hquiet.1, List.append_nil]
  have hchildren :
      children (.called (.note (.executing (.run p))) (some ()) :: (launched ++ after)) =
        children launched := children_execute _ hquiet.2
  rw [hanswers] at hgive
  have hall : p.stages.drop 0 = p.stages := rfl
  obtain ⟨made, failure, hreached⟩ := hlaunch.reached hall hgive
  refine ⟨made, failure, ?_⟩
  constructor
  case tried =>
    rw [← remaining_zero]
    exact hreached.tried
  case answered => rw [hanswers, hreached.answered]
  case started =>
    rw [hchildren]
    exact hreached.started
  case complete =>
    intro hnone
    obtain ⟨hok, hlength⟩ := hreached.complete hnone
    exact ⟨(hafter.of_confined hattends).2.2 outcome rfl hok, hchildren ▸ hlength⟩
  case stopped =>
    intro attempt fatal hfailure
    obtain ⟨rfl, hplace⟩ := hreached.stopped attempt fatal hfailure
    obtain ⟨rfl, rfl⟩ := course_done_iff.mp hafter
    refine ⟨rfl, by rw [hchildren, hplace, Nat.zero_add], fun c reply? hmem => ?_⟩
    rcases List.mem_cons.mp hmem with heq | hmem
    · cases heq
      rfl
    · rw [List.append_nil] at hmem
      have hlaunches := hlaunch.launches hmem
      cases c with
      | pipe | close | note => rfl
      | _ => exact hlaunches.elim

theorem exists_fails_arguments_iff {stages : List Stage} {o : Outcomes} {i : Nat} :
    (∃ fatal, Fails stages o (.arguments i) fatal) ↔
      ∃ stage, stages[i]? = some stage ∧ ∃ argument ∈ stage.arguments,
        (0 : UInt8) ∈ Bytes.ofString argument := by
  constructor
  · rintro ⟨fatal, hfails⟩
    cases hfails with
    | arguments hstage hzero => exact ⟨_, hstage, Stage.exists_zeroAt_iff.mp ⟨_, hzero⟩⟩
  · rintro ⟨stage, hstage, hargument⟩
    obtain ⟨position, hzero⟩ := Stage.exists_zeroAt_iff.mpr hargument
    exact ⟨_, .arguments hstage hzero⟩

/-- However the calls for pipes and processes turn out, a pipeline comes to its end, and whenever it
does, the first attempt that fails has been the last one. Arguments fail for a zero byte and for
nothing else. -/
theorem stops_at_first_failure (p : Pipeline) (background : Background) (o : Outcomes) :
    (∃ past outcome, Course ((Action.run p).execute background) past (some outcome) ∧
      o.Give 0 0 (answers past)) ∧
    (∀ past outcome, Course ((Action.run p).execute background) past (some outcome) →
      o.Give 0 0 (answers past) →
      ∃ made failure, Stops p background o past outcome made failure) ∧
    ∀ i, (∃ fatal, Fails p.stages o (.arguments i) fatal) ↔ ∃ stage, p.stages[i]? = some stage ∧
      ∃ argument ∈ stage.arguments, (0 : UInt8) ∈ Bytes.ofString argument :=
  ⟨o.course_of_confined (execute_manages p background) (fun _ => id) 0 0,
    fun _ _ h hgive => execute_stops h hgive, fun _ => exists_fails_arguments_iff⟩

private def threeStages : Pipeline :=
  ⟨[⟨["a"], none, none⟩, ⟨["b"], none, none⟩, ⟨["c", "\x00"], none, none⟩], true⟩

private def refusedSecond : Outcomes :=
  ⟨fun i => .ok (3 + 2 * i, 4 + 2 * i), fun i => if i = 1 then .error .tryAgain else .ok (7 + i)⟩

theorem stops_at_second_process : ∃ past outcome,
    Course ((Action.run threeStages).execute ⟨[5]⟩) past (some outcome) ∧
    refusedSecond.Give 0 0 (answers past) ∧
    outcome = ⟨.error (.noProcess .tryAgain), ⟨[5]⟩⟩ ∧ (children past).length = 1 ∧
    ∀ c reply?, .called c reply? ∈ past → c.child? = none := by
  obtain ⟨past, outcome, hcourse, hgive⟩ :
      ∃ past outcome, Course ((Action.run threeStages).execute ⟨[5]⟩) past (some outcome) ∧
        refusedSecond.Give 0 0 (answers past) := by
    constructor
    constructor
    constructor
    · apply Course.answered (c := .note _) ()
      apply Course.answered (c := .pipe) (.ok (3, 4))
      apply Course.forked (.ok 7)
      apply Course.answered (c := .note _) ()
      apply Course.answered (c := .pipe) (.ok (5, 6))
      apply Course.forked (.error .tryAgain)
      apply Course.answered (c := .close 5) ()
      apply Course.answered (c := .close 6) ()
      apply Course.answered (c := .close 3) ()
      apply Course.answered (c := .close 4) ()
      exact .done _
    · exact ⟨rfl, rfl, rfl, rfl, trivial⟩
  obtain ⟨made, failure, hstops⟩ :=
    (stops_at_first_failure threeStages ⟨[5]⟩ refusedSecond).2.1 past outcome hcourse hgive
  have hsecond : Fails threeStages.stages refusedSecond (.process 1) (.noProcess .tryAgain) :=
    .process rfl
  have hbefore : ∀ a ∈ [Attempt.arguments 0, .pipe 0, .process 0, .arguments 1, .pipe 1], ∀ f,
      ¬Fails threeStages.stages refusedSecond a f := by
    intro a ha f hfails
    simp only [List.mem_cons, List.not_mem_nil, or_false] at ha
    rcases ha with rfl | rfl | rfl | rfl | rfl
    · have hstage : threeStages.stages[0]? = some ⟨["a"], none, none⟩ := rfl
      exact not_fails_arguments hstage (by decide +kernel) f hfails
    · cases hfails with
      | pipe hrefused => cases hrefused
    · cases hfails with
      | process hrefused => cases hrefused
    · have hstage : threeStages.stages[1]? = some ⟨["b"], none, none⟩ := rfl
      exact not_fails_arguments hstage (by decide +kernel) f hfails
    · cases hfails with
      | pipe hrefused => cases hrefused
  have htried : Tried threeStages.stages refusedSecond
      ([.arguments 0, .pipe 0, .process 0, .arguments 1, .pipe 1] ++
        .process 1 :: [.arguments 2, .process 2])
      made failure := hstops.tried
  obtain ⟨-, hfailure⟩ := htried.unique hbefore hsecond
  obtain ⟨houtcome, hlength, hwait⟩ := hstops.stopped _ _ hfailure
  exact ⟨past, outcome, hcourse, hgive, houtcome, hlength, hwait⟩

end Pipeline

end PipeShell
