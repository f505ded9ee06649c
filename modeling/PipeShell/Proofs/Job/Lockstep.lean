import PipeShell.Proofs.Job.Allowance
import PipeShell.Proofs.Job.Reports

/-!
Two pipelines that are started side by side. As long as the system answers alike to what the
interpreter asks for, the same pipes are made and closed and as many processes are started, whatever
the stages of the pipelines are; only their number matters. A system that refuses a pipe for want of
descriptors only does answer alike.
-/

set_option autoImplicit false
set_option relaxedAutoImplicit false

namespace PipeShell

open Program

variable {α β : Type}

/-- What the interpreter does about pipes and processes. The number of a process is left out, and so
is what it does. -/
inductive Handling
  | pipe (reply : Except Errno (Fd × Fd))
  | process (refusal? : Option Errno)
  | close (fd : Fd)
  deriving DecidableEq

namespace Handling

def ofProcess : Except Errno Pid → Handling
  | .ok _ => process none
  | .error reason => process (some reason)

def SameReply : Handling → Handling → Prop
  | pipe reply, pipe reply' => reply = reply'
  | process refusal?, process refusal?' => refusal? = refusal?'
  | _, _ => True

theorem SameReply.symm {a a' : Handling} (h : a.SameReply a') : a'.SameReply a := by
  cases a <;> cases a' <;> first | exact Eq.symm h | trivial

theorem SameReply.refl (a : Handling) : a.SameReply a := by
  cases a <;> first | exact rfl | trivial

end Handling

def Exchange.handling? : Exchange α → Option Handling
  | .called .pipe (some reply) => some (.pipe reply)
  | .called (.close fd) (some _) => some (.close fd)
  | .forked _ reply => some (.ofProcess reply)
  | _ => none

def handlings (past : List (Exchange α)) : List Handling := past.filterMap Exchange.handling?

theorem handlings_append (past more : List (Exchange α)) :
    handlings (past ++ more) = handlings past ++ handlings more :=
  List.filterMap_append

theorem Exchange.handling?_andThen (f : α → Program β) (e : Exchange α) :
    (e.andThen f).handling? = e.handling? := by
  cases e with
  | called c reply? =>
    rw [andThen_called]
    cases c with
    | pipe | close => cases reply? <;> rfl
    | _ => rfl
  | forked | transferred | flooded => rfl

theorem handlings_andThen (f : α → Program β) (past : List (Exchange α)) :
    handlings (past.map (Exchange.andThen f)) = handlings past := by
  rw [handlings, List.filterMap_map]
  exact congrArg (past.filterMap ·) (funext (Exchange.handling?_andThen f))

theorem exists_exchange {past : List (Exchange α)} {front rest : List Handling} {a : Handling}
    (h : handlings past = front ++ a :: rest) :
    ∃ earlier e later, past = earlier ++ e :: later ∧ handlings earlier = front ∧
      e.handling? = some a := by
  obtain ⟨before, behind, rfl, hbefore, hbehind⟩ := List.filterMap_eq_append_iff.mp h
  obtain ⟨idle, e, later, rfl, hidle, he, -⟩ := List.filterMap_eq_cons_iff.mp hbehind
  refine ⟨before ++ idle, e, later, (List.append_assoc ..).symm, ?_, he⟩
  have hnone : handlings idle = [] := List.filterMap_eq_nil_iff.mpr hidle
  rw [handlings_append, hnone, List.append_nil]
  exact hbefore

/-- In both courses the system answers alike: wherever the same was handled before, a request for a
pipe or a process gets the same answer in both of them. A process may have another number. -/
def Alike (past past' : List (Exchange α)) : Prop :=
  ∀ front a rest a' rest', handlings past = front ++ a :: rest →
    handlings past' = front ++ a' :: rest' → a.SameReply a'

namespace Alike

variable {past past' front front' : List (Exchange α)}

theorem symm (h : Alike past past') : Alike past' past :=
  fun front a rest a' rest' hpast' hpast => (h front a' rest' a rest hpast hpast').symm

theorem of_handlings (h : handlings past = handlings past') : Alike past past' := by
  intro front a rest a' rest' hpast hpast'
  rw [hpast, hpast', List.append_cancel_left_eq] at h
  obtain ⟨rfl, -⟩ := List.cons.inj h
  exact .refl a

theorem behind (h : Alike (front ++ past) (front' ++ past'))
    (hfront : handlings front = handlings front') : Alike past past' := by
  intro earlier a rest a' rest' hpast hpast'
  refine h (handlings front ++ earlier) a rest a' rest' ?_ ?_
  · rw [handlings_append, hpast, List.append_assoc]
  · rw [handlings_append, hpast', List.append_assoc, hfront]

theorem tail {e e' : Exchange α} (h : Alike (e :: past) (e' :: past'))
    (he : handlings [e] = handlings [e']) : Alike past past' := by
  rw [← List.singleton_append, ← List.singleton_append (x := e')] at h
  exact h.behind he

theorem before {more more' : List (Exchange α)} (h : Alike (past ++ more) (past' ++ more')) :
    Alike past past' := by
  intro earlier a rest a' rest' hpast hpast'
  refine h earlier a (rest ++ handlings more) a' (rest' ++ handlings more') ?_ ?_
  · rw [handlings_append, hpast, List.append_assoc, List.cons_append]
  · rw [handlings_append, hpast', List.append_assoc, List.cons_append]

theorem pipe {reply reply' : Except Errno (Fd × Fd)}
    (h : Alike (.called .pipe (some reply) :: past) (.called .pipe (some reply') :: past')) :
    reply = reply' :=
  h [] (.pipe reply) (handlings past) (.pipe reply') (handlings past') rfl rfl

theorem process {child child' : Program α} {reply reply' : Except Errno Pid}
    (h : Alike (.forked child reply :: past) (.forked child' reply' :: past')) :
    (Handling.ofProcess reply).SameReply (.ofProcess reply') :=
  h [] (.ofProcess reply) (handlings past) (.ofProcess reply') (handlings past') rfl rfl

theorem of_andThen {f : α → Program β}
    (h : Alike (past.map (Exchange.andThen f)) (past'.map (Exchange.andThen f))) :
    Alike past past' := by
  unfold Alike at h ⊢
  rwa [handlings_andThen, handlings_andThen] at h

theorem behind_started {making : List (Exchange α)} {child child' : Program α}
    {pid pid' : Pid} {r r' : Log.Record} {previous : Option Link}
    (h : Alike
      (making ++ .forked child (.ok pid) :: .called (.note r) (some ()) ::
        (Link.closing previous ++ past))
      (making ++ .forked child' (.ok pid') :: .called (.note r') (some ()) ::
        (Link.closing previous ++ past'))) : Alike past past' := by
  rw [← List.cons_append, ← List.cons_append, ← List.append_assoc, ← List.cons_append,
    ← List.cons_append, ← List.append_assoc] at h
  refine h.behind ?_
  rw [handlings_append, handlings_append]
  rfl

end Alike

namespace Pipeline

open Descriptors

/-! ### Two starts -/

theorem handlings_closing_append (link? : Option Link) (past past' : List (Exchange α))
    (h : handlings past = handlings past') :
    handlings (Link.closing link? ++ past) = handlings (Link.closing link? ++ past') := by
  rw [handlings_append, handlings_append, h]

theorem Making.alike {last : Bool} {making making' past past' : List (Exchange α)}
    {next next' : Option Link} (h : Making last making next) (h' : Making last making' next')
    (halike : Alike (making ++ past) (making' ++ past')) :
    making = making' ∧ next = next' := by
  cases h with
  | atEnd =>
    cases h'
    exact ⟨rfl, rfl⟩
  | made link =>
    cases h' with
    | made link' =>
      have hends := Except.ok.inj halike.pipe
      obtain ⟨hread, hwrite⟩ := Prod.mk.inj hends
      obtain rfl : link = link' := by
        cases link
        cases link'
        cases hread
        cases hwrite
        rfl
      exact ⟨rfl, rfl⟩

theorem Making.not_alike {making past past' : List (Exchange α)}
    {next : Option Link} {reason : Errno} (h : Making false making next)
    (halike : Alike (making ++ past) (.called .pipe (some (.error reason)) :: past')) :
    False := by
  cases h with
  | made link => cases halike.pipe

/-- What two starts have in common that are answered alike: all that the interpreter does, and the
pipes that the children get at each place. -/
structure Abreast (rest rest' : List Stage) (launched launched' : List (Exchange α))
    (result result' : Except Fatal (List Pid)) : Prop where
  handled : handlings launched = handlings launched'
  count : (children launched).length = (children launched').length
  linked : ∀ {j : Nat} {pid pid' : Pid} {child child' : Program α},
    (children launched)[j]? = some (pid, child) → (children launched')[j]? = some (pid', child') →
    ∃ stage stage' previous next, rest[j]? = some stage ∧ rest'[j]? = some stage' ∧
      child = stage.process previous next ∧ child' = stage'.process previous next
  refused : ∀ fatal, result = .error fatal ↔ result' = .error fatal

theorem Abreast.of_failure {rest rest' : List Stage} {launched launched' : List (Exchange α)}
    {fatal : Fatal} (hhandled : handlings launched = handlings launched')
    (hchildren : children launched = []) (hchildren' : children launched' = []) :
    Abreast rest rest' launched launched' (.error fatal) (.error fatal) where
  handled := hhandled
  count := by rw [hchildren, hchildren']
  linked := by
    intro j pid pid' child child' hj
    rw [hchildren] at hj
    cases hj
  refused fatal' := Iff.rfl

theorem Abreast.started {rest rest' : List Stage} {past past' making : List (Exchange α)}
    {result result' : Except Fatal (List Pid)} (h : Abreast rest rest' past past' result result')
    {last : Bool} {previous next : Option Link} (hmaking : Making last making next) (number : Nat)
    (stage stage' : Stage) (pid pid' : Pid) :
    Abreast (stage :: rest) (stage' :: rest')
      (making ++ .forked (stage.process previous next) (.ok pid) ::
        .called (.note (.started number pid stage.arguments)) (some ()) ::
        (Link.closing previous ++ past))
      (making ++ .forked (stage'.process previous next) (.ok pid') ::
        .called (.note (.started number pid' stage'.arguments)) (some ()) ::
        (Link.closing previous ++ past'))
      (result.map (pid :: ·)) (result'.map (pid' :: ·)) := by
  constructor
  case handled =>
    rw [handlings_append, handlings_append]
    refine congrArg (handlings making ++ .process none :: ·) ?_
    exact handlings_closing_append previous past past' h.handled
  case count =>
    rw [hmaking.children_started, hmaking.children_started]
    exact congrArg Nat.succ h.count
  case linked =>
    rw [hmaking.children_started, hmaking.children_started]
    intro j pid₁ pid₁' child child' hj hj'
    cases j with
    | zero =>
      obtain ⟨rfl, rfl⟩ := Prod.mk.inj (Option.some.inj hj)
      obtain ⟨rfl, rfl⟩ := Prod.mk.inj (Option.some.inj hj')
      exact ⟨stage, stage', previous, next, rfl, rfl, rfl, rfl⟩
    | succ j => exact h.linked hj hj'
  case refused =>
    intro fatal
    have hmap (r : Except Fatal (List Pid)) (pid : Pid) : r.map (pid :: ·) = .error fatal ↔
        r = .error fatal := by
      cases r <;> simp [Except.map]
    rw [hmap, hmap]
    exact h.refused fatal

theorem isEmpty_congr {rest rest' : List Stage} (h : rest.length = rest'.length) :
    rest.isEmpty = rest'.isEmpty := by
  rw [Bool.eq_iff_iff, List.isEmpty_iff_length_eq_zero, List.isEmpty_iff_length_eq_zero, h]

/-- Two starts side by side: what is made for one of them is made for the other one, and they come
to the same end. -/
inductive Together :
    Nat → Option Link → List Stage → List Stage → List (Exchange α) → List (Exchange α) →
    Except Fatal (List Pid) → Except Fatal (List Pid) → Prop
  | complete (number : Nat) (previous : Option Link) :
      Together number previous [] [] [] [] (.ok []) (.ok [])
  | zeroByte (number : Nat) (previous : Option Link) (stage stage' : Stage)
      (rest rest' : List Stage) (position : Nat) :
      Together number previous (stage :: rest)
        (stage' :: rest') (Link.closing previous) (Link.closing previous)
        (.error (.zeroByte position)) (.error (.zeroByte position))
  | noPipe (number : Nat) (previous : Option Link) (stage stage' : Stage)
      (rest rest' : List Stage) (reason : Errno) :
      Together number previous (stage :: rest) (stage' :: rest')
        (.called .pipe (some (.error reason)) :: Link.closing previous)
        (.called .pipe (some (.error reason)) :: Link.closing previous)
        (.error (.noPipe reason)) (.error (.noPipe reason))
  | noProcess (number : Nat) (previous : Option Link) (stage stage' : Stage)
      (rest rest' : List Stage) (reason : Errno) {making : List (Exchange α)} {next : Option Link} :
      Making rest.isEmpty making next → Together number previous (stage :: rest) (stage' :: rest')
        (making ++ .forked (stage.process previous next) (.error reason) ::
          (Link.closing next ++ Link.closing previous))
        (making ++ .forked (stage'.process previous next) (.error reason) ::
          (Link.closing next ++ Link.closing previous))
        (.error (.noProcess reason)) (.error (.noProcess reason))
  | started (number : Nat) (previous : Option Link) (stage stage' : Stage) (pid pid' : Pid)
      {rest rest' : List Stage} {making past past' : List (Exchange α)} {next : Option Link}
      {result result' : Except Fatal (List Pid)} :
      Making rest.isEmpty making next →
      Together (number + 1) next rest rest' past past' result result' →
      Together number previous (stage :: rest) (stage' :: rest')
        (making ++ .forked (stage.process previous next) (.ok pid) ::
          .called (.note (.started number pid stage.arguments)) (some ()) ::
          (Link.closing previous ++ past))
        (making ++ .forked (stage'.process previous next) (.ok pid') ::
          .called (.note (.started number pid' stage'.arguments)) (some ()) ::
          (Link.closing previous ++ past'))
        (result.map (pid :: ·)) (result'.map (pid' :: ·))

section SameZeroBytes

variable {stage stage' : Stage} {rest rest' : List Stage}
  (hzeros : (stage :: rest).map Stage.zeroByte? = (stage' :: rest').map Stage.zeroByte?)

include hzeros

theorem isEmpty_of_zeroBytes : rest'.isEmpty = rest.isEmpty := by
  have hlength := congrArg List.length hzeros
  rw [List.length_map, List.length_map] at hlength
  exact (isEmpty_congr (Nat.succ.inj hlength)).symm

theorem not_zeroByte_first {position : Nat} (h : stage.zeroByte? = some position)
    (h' : stage'.zeroByte? = none) : False := by
  cases h.symm.trans ((List.cons.inj hzeros).1.trans h')

theorem not_zeroByte_second {position : Nat} (h : stage.zeroByte? = none)
    (h' : stage'.zeroByte? = some position) : False := by
  cases h.symm.trans ((List.cons.inj hzeros).1.trans h')

theorem Making.not_refused {making past past' : List (Exchange α)} {next : Option Link}
    {reason : Errno} (hmaking : Making rest'.isEmpty making next) (hmore : rest.isEmpty = false)
    (halike : Alike (making ++ past) (.called .pipe (some (.error reason)) :: past')) : False := by
  rw [isEmpty_of_zeroBytes hzeros, hmore] at hmaking
  exact hmaking.not_alike halike

end SameZeroBytes

/-- Starts that are answered alike go on side by side, if their stages have zero bytes in the same
places. -/
theorem Launch.together {number : Nat} {previous : Option Link}
    {rest : List Stage} {launched : List (Exchange α)}
    {result : Except Fatal (List Pid)} (h : Launch number previous rest launched result) :
    ∀ {rest' : List Stage} {launched' : List (Exchange α)} {result' : Except Fatal (List Pid)},
      Launch number previous rest' launched' result' →
      rest.map Stage.zeroByte? = rest'.map Stage.zeroByte? → Alike launched launched' →
      Together number previous rest rest' launched launched' result result' := by
  induction h with
  | complete number previous =>
    intro rest' launched' result' h' hzeros _
    obtain rfl := List.map_eq_nil_iff.mp hzeros.symm
    cases h'
    exact .complete number previous
  | zeroByte number previous hzero =>
    intro rest' launched' result' h' hzeros _
    cases h' with
    | complete => exact absurd hzeros (List.cons_ne_nil _ _)
    | zeroByte _ _ hzero' =>
      rw [← (List.cons.inj hzeros).1, hzero] at hzero'
      cases hzero'
      exact .zeroByte ..
    | noPipe _ _ _ hnone => exact (not_zeroByte_first hzeros hzero hnone).elim
    | noProcess _ _ _ hnone => exact (not_zeroByte_first hzeros hzero hnone).elim
    | started _ _ _ hnone => exact (not_zeroByte_first hzeros hzero hnone).elim
  | noPipe number previous reason hnone hmore =>
    intro rest' launched' result' h' hzeros halike
    cases h' with
    | complete => exact absurd hzeros (List.cons_ne_nil _ _)
    | zeroByte _ _ hzero => exact (not_zeroByte_second hzeros hnone hzero).elim
    | noPipe =>
      cases halike.pipe
      exact .noPipe ..
    -- the other one has got a pipe in the same place
    | noProcess _ _ _ _ hmaking' => exact (hmaking'.not_refused hzeros hmore halike.symm).elim
    | started _ _ _ _ hmaking' => exact (hmaking'.not_refused hzeros hmore halike.symm).elim
  | noProcess number previous reason hnone hmaking =>
    intro rest' launched' result' h' hzeros halike
    cases h' with
    | complete => exact absurd hzeros (List.cons_ne_nil _ _)
    | zeroByte _ _ hzero => exact (not_zeroByte_second hzeros hnone hzero).elim
    | noPipe _ _ _ _ hmore => exact (hmaking.not_refused hzeros.symm hmore halike).elim
    | noProcess _ _ _ _ hmaking' =>
      rw [isEmpty_of_zeroBytes hzeros] at hmaking'
      obtain ⟨rfl, rfl⟩ := hmaking.alike hmaking' halike
      cases (halike.behind rfl).process
      exact .noProcess _ _ _ _ _ _ _ hmaking
    | started _ _ _ _ hmaking' =>
      rw [isEmpty_of_zeroBytes hzeros] at hmaking'
      obtain ⟨rfl, rfl⟩ := hmaking.alike hmaking' halike
      cases (halike.behind rfl).process
  | started number previous pid hnone hmaking _ ih =>
    -- the other one has got the same pipe and a process as well, and what is left is answered alike
    intro rest' launched' result' h' hzeros halike
    cases h' with
    | complete => exact absurd hzeros (List.cons_ne_nil _ _)
    | zeroByte _ _ hzero => exact (not_zeroByte_second hzeros hnone hzero).elim
    | noPipe _ _ _ _ hmore => exact (hmaking.not_refused hzeros.symm hmore halike).elim
    | noProcess _ _ _ _ hmaking' =>
      rw [isEmpty_of_zeroBytes hzeros] at hmaking'
      obtain ⟨rfl, rfl⟩ := hmaking.alike hmaking' halike
      cases (halike.behind rfl).process
    | started _ _ pid' _ hmaking' hlaunch' =>
      rw [isEmpty_of_zeroBytes hzeros] at hmaking'
      obtain ⟨rfl, rfl⟩ := hmaking.alike hmaking' halike
      exact .started _ _ _ _ pid pid' hmaking
        (ih hlaunch' (List.cons.inj hzeros).2 halike.behind_started)

theorem Together.abreast {number : Nat} {previous : Option Link} {rest rest' : List Stage}
    {launched launched' : List (Exchange α)} {result result' : Except Fatal (List Pid)}
    (h : Together number previous rest rest' launched launched' result result') :
    Abreast rest rest' launched launched' result result' := by
  induction h with
  | complete => exact ⟨rfl, rfl, fun hj => (by cases hj), fun fatal => Iff.rfl⟩
  | zeroByte number previous =>
    exact .of_failure rfl (children_closing previous) (children_closing previous)
  | noPipe number previous =>
    exact .of_failure rfl (children_closing previous) (children_closing previous)
  | noProcess number previous stage stage' rest rest' reason hmaking =>
    refine .of_failure ?_ (hmaking.children_refused _ reason previous)
      (hmaking.children_refused _ reason previous)
    rw [handlings_append, handlings_append]
    rfl
  | started number previous stage stage' pid pid' hmaking _ ih =>
    exact ih.started hmaking number stage stage' pid pid'

theorem Launch.abreast {number : Nat} {previous : Option Link} {rest rest' : List Stage}
    {launched launched' : List (Exchange α)} {result result' : Except Fatal (List Pid)}
    (h : Launch number previous rest launched result)
    (h' : Launch number previous rest' launched' result')
    (hlength : rest.length = rest'.length) (hstrings : ∀ stage ∈ rest, stage.zeroByte? = none)
    (hstrings' : ∀ stage ∈ rest', stage.zeroByte? = none) (halike : Alike launched launched') :
    Abreast rest rest' launched launched' result result' := by
  refine (h.together h' ?_ halike).abreast
  rw [List.map_eq_replicate_iff.mpr hstrings, List.map_eq_replicate_iff.mpr hstrings', hlength]

theorem Launch.exists_counterpart {number : Nat} {previous : Option Link}
    {rest : List Stage} {launched : List (Exchange α)}
    {result : Except Fatal (List Pid)} (h : Launch number previous rest launched result) :
    ∀ {rest' : List Stage}, rest.length = rest'.length → (∀ stage ∈ rest, stage.zeroByte? = none) →
      (∀ stage ∈ rest', stage.zeroByte? = none) → ∃ launched' : List (Exchange α),
        Launch number previous rest' launched' result ∧ handlings launched = handlings launched' ∧
        (children launched).map Prod.fst = (children launched').map Prod.fst := by
  induction h with
  | complete number previous =>
    intro rest' hlength _ _
    obtain rfl := List.length_eq_zero_iff.mp hlength.symm
    exact ⟨[], .complete number previous, rfl, rfl⟩
  | zeroByte number previous hzero =>
    intro rest' _ hstrings _
    cases hzero.symm.trans (hstrings _ List.mem_cons_self)
  | @noPipe number previous stage rest reason _ hmore =>
    intro rest' hlength _ hstrings'
    obtain ⟨stage', rest', rfl⟩ := List.exists_cons_of_length_eq_add_one hlength.symm
    rw [isEmpty_congr (Nat.succ.inj hlength)] at hmore
    exact ⟨_, .noPipe number previous reason (hstrings' _ List.mem_cons_self) hmore, rfl, rfl⟩
  | @noProcess number previous stage rest reason making next _ hmaking =>
    intro rest' hlength _ hstrings'
    obtain ⟨stage', rest', rfl⟩ := List.exists_cons_of_length_eq_add_one hlength.symm
    rw [isEmpty_congr (Nat.succ.inj hlength)] at hmaking
    refine ⟨_, .noProcess number previous reason (hstrings' _ List.mem_cons_self) hmaking, ?_, ?_⟩
    · rw [handlings_append, handlings_append]
      rfl
    · rw [hmaking.children_refused, hmaking.children_refused]
  | @started number previous stage rest pid making past next result _ hmaking _ ih =>
    intro rest' hlength hstrings hstrings'
    obtain ⟨stage', rest', rfl⟩ := List.exists_cons_of_length_eq_add_one hlength.symm
    rw [isEmpty_congr (Nat.succ.inj hlength)] at hmaking
    obtain ⟨past', hlaunch', hhandled, hpids⟩ := ih (Nat.succ.inj hlength)
      (fun stage hstage => hstrings stage (List.mem_cons_of_mem _ hstage))
      (fun stage hstage => hstrings' stage (List.mem_cons_of_mem _ hstage))
    refine ⟨_, .started number previous pid (hstrings' _ List.mem_cons_self) hmaking hlaunch', ?_,
      ?_⟩
    · rw [handlings_append, handlings_append]
      refine congrArg (handlings making ++ .process none :: ·) ?_
      exact handlings_closing_append previous past past' hhandled
    · rw [hmaking.children_started, hmaking.children_started]
      exact congrArg (pid :: ·) hpids

/-! ### A system that grants what it can -/

def unusedAfter (unused : Fd → Prop) : Handling → Fd → Prop
  | .pipe (.ok (readEnd, writeEnd)), fd => unused fd ∧ fd ≠ readEnd ∧ fd ≠ writeEnd
  | .close closed, fd => unused fd ∨ fd = closed
  | _, fd => unused fd

theorem unused_step {d d' : Descriptors} {e : Exchange α} (h : Step d e d') :
    (fun fd => d'.wires fd = none) = (handlings [e]).foldl unusedAfter fun fd =>
      d.wires fd = none := by
  cases h with
  | made j _ _ =>
    funext fd
    have hhandled : handlings
        [(.called .pipe (some (.ok (j.link.readEnd, j.link.writeEnd))) : Exchange α)] =
        [.pipe (.ok (j.link.readEnd, j.link.writeEnd))] := rfl
    rw [hhandled]
    simp only [List.foldl_cons, List.foldl_nil, unusedAfter, Joint.plug, Function.update_apply]
    grind
  | closed fd =>
    funext other
    have hhandled : handlings [(.called (.close fd) (some ()) : Exchange α)] = [.close fd] := rfl
    rw [hhandled]
    simp only [List.foldl_cons, List.foldl_nil, unusedAfter, Function.update_apply]
    grind
  | kept hkeeps =>
    cases e with
    | forked child reply => cases reply <;> rfl
    | transferred | flooded => rfl
    | called c reply? =>
      cases c with
      | close => exact hkeeps.elim
      | pipe =>
        cases reply? with
        | none => rfl
        | some reply =>
          cases reply with
          | ok ends => exact hkeeps.elim
          | error reason => rfl
      | _ => rfl

theorem unused_run {d d' : Descriptors} {past : List (Exchange α)} (h : Run d past d') :
    (fun fd => d'.wires fd = none) = (handlings past).foldl unusedAfter fun fd =>
      d.wires fd = none := by
  induction h with
  | start => rfl
  | @step d d' d'' e past hstep _ ih =>
    have hcons : handlings (e :: past) = handlings [e] ++ handlings past :=
      handlings_append [e] past
    rw [hcons, List.foldl_append, ← unused_step hstep, ih]

theorem pipeReply_congr {w w' : Wires} (h : (fun fd => w fd = none) = fun fd => w' fd = none)
    (limit : Nat) : w.pipeReply limit = w'.pipeReply limit := by
  have hunused : w.unused limit = w'.unused limit :=
    List.filter_congr fun fd _ => decide_eq_decide.mpr (Iff.of_eq (congrFun h fd))
  rw [Wires.pipeReply, Wires.pipeReply, hunused]

def IsGranted (limit : Nat) (w : Wires) : Handling → Prop
  | .pipe reply => reply = w.pipeReply limit
  | .process refusal? => refusal? = none
  | .close _ => True

theorem isGranted_of_handling {limit : Nat} {w : Wires} {e : Exchange α} {a : Handling}
    (h : e.Granted limit w) (he : e.handling? = some a) : IsGranted limit w a := by
  unfold Exchange.handling? at he
  split at he
  · cases he
    exact h
  · cases he
    trivial
  · rename_i child reply
    cases he
    cases reply with
    | ok pid => exact rfl
    | error reason => exact h.elim
  · cases he

theorem IsGranted.sameReply {limit : Nat} {w w' : Wires} {a a' : Handling} (h : IsGranted limit w a)
    (h' : IsGranted limit w' a') (hreply : w.pipeReply limit = w'.pipeReply limit) :
    a.SameReply a' := by
  cases a with
  | close => trivial
  | pipe reply =>
    cases a' with
    | pipe reply' => exact Eq.trans h (hreply.trans (Eq.symm h'))
    | process | close => trivial
  | process refusal? =>
    cases a' with
    | process refusal?' => exact Eq.trans h (Eq.symm h')
    | pipe | close => trivial

/-- A system that grants what it can answers alike to processes that begin with the same
descriptors. -/
theorem alike_of_rationed {limit : Nat} {d₀ d d' : Descriptors} {past past' : List (Exchange α)}
    (h : Rationed limit d₀ past d) (h' : Rationed limit d₀ past' d') : Alike past past' := by
  intro front a rest a' rest' hpast hpast'
  obtain ⟨earlier, e, later, rfl, hearlier, he⟩ := exists_exchange hpast
  obtain ⟨earlier', e', later', rfl, hearlier', he'⟩ := exists_exchange hpast'
  obtain ⟨d₁, hrun, hlater⟩ := rationed_append_iff.mp h
  obtain ⟨d₁', hrun', hlater'⟩ := rationed_append_iff.mp h'
  -- the same descriptors are in use by now, whatever they lead to
  have hunused : (fun fd => d₁.wires fd = none) = fun fd => d₁'.wires fd = none := by
    rw [unused_run hrun.run, unused_run hrun'.run, hearlier, hearlier']
  cases hlater with
  | step _ hgranted _ =>
    cases hlater' with
    | step _ hgranted' _ =>
      exact (isGranted_of_handling hgranted he).sameReply (isGranted_of_handling hgranted' he')
        (pipeReply_congr hunused limit)

end Pipeline

end PipeShell
