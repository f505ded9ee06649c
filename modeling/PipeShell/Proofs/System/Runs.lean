import PipeShell.Proofs.System.Frames

/-!
Runs of a machine: any sequence of moves, in which a process makes its next step, or time passes, or
a process that waits for a child is interrupted. A run leaves a trace of what was done by whom.
-/

set_option autoImplicit false
set_option relaxedAutoImplicit false

namespace PipeShell

variable {α : Type}

def Call.interruption? : (c : Call) → Option c.Reply
  | .waitFor _ => some (.error .interrupted)
  | .poll _ => some (.error .interrupted)
  | _ => none

inductive Move
  /-- A process makes its next step. -/
  | turn (pid : Pid)
  /-- Time passes until somebody wakes up. -/
  | tick
  /-- The call that a process makes is interrupted. -/
  | interrupt (pid : Pid)
  deriving DecidableEq, Repr

def Move.actor? : Move → Option Pid
  | turn pid | interrupt pid => some pid
  | tick => none

inductive Deed
  | started (child : Pid)
  | piped (pipe : Nat)
  | opened (path : Bytes) (access : Access) (handle : Handle)
  | collected (child : Pid) (ending : Ending)
  | interrupted
  deriving DecidableEq, Repr

structure Event where
  pid : Pid
  /-- Whether it had loaded a program by then. -/
  loaded : Bool
  deed : Deed
  deriving DecidableEq, Repr

namespace Event

def deedsOf (pid : Pid) (es : List Event) : List Deed := (es.filter (·.pid = pid)).map (·.deed)

def startedBy (pid : Pid) (es : List Event) : List Pid :=
  (deedsOf pid es).filterMap fun
    | .started child => some child
    | _ => none

def pipedBy (pid : Pid) (es : List Event) : List Nat :=
  (deedsOf pid es).filterMap fun
    | .piped pipe => some pipe
    | _ => none

def collectedBy (pid : Pid) (es : List Event) : List Pid :=
  (deedsOf pid es).filterMap fun
    | .collected child _ => some child
    | _ => none

section

variable (pid : Pid) (es es' : List Event)

@[simp] theorem deedsOf_append : deedsOf pid (es ++ es') = deedsOf pid es ++ deedsOf pid es' := by
  simp [deedsOf]

@[simp] theorem startedBy_append :
    startedBy pid (es ++ es') = startedBy pid es ++ startedBy pid es' := by
  simp [startedBy]

@[simp] theorem pipedBy_append : pipedBy pid (es ++ es') = pipedBy pid es ++ pipedBy pid es' := by
  simp [pipedBy]

@[simp] theorem collectedBy_append :
    collectedBy pid (es ++ es') = collectedBy pid es ++ collectedBy pid es' := by
  simp [collectedBy]

end

end Event

namespace Machine

def interrupt (m : Machine α) (pid : Pid) : Option (Machine α) :=
  match m.processes.get? pid with
  | none => none
  | some p =>
    if !p.isLive then none
    else match p.program with
      | .call c next => c.interruption?.map fun reply => m.proceed pid (Program.resume c next reply)
      | _ => none

def move (m : Machine α) : Move → Option (Machine α)
  | .turn pid => m.step pid
  | .tick => m.tick
  | .interrupt pid => m.interrupt pid

def deeds (m : Machine α) (pid : Pid) (p : Process α) : Program α → List Deed
  | .fork .. => [.started m.nextPid]
  | .call .pipe _ =>
    match (m.makePipe pid p).1 with
    | .ok _ => [.piped m.pipes.next]
    | .error _ => []
  | .call (.openFile path access) _ =>
    match m.openPath pid p path access with
    | .answer (.ok fd) m =>
      ((m.processes.get? pid).bind (·.descriptors.get? fd)).toList.map (.opened path access)
    | _ => []
  | .call (.waitFor child) _ | .call (.awaitEnd child) _ | .call (.poll child) _ =>
    match (m.collect pid child).1 with
    | .ok (some ending) => [.collected child ending]
    | _ => []
  | _ => []

def events (m : Machine α) : Move → List Event
  | .turn pid =>
    match m.processes.get? pid with
    | some p => (m.deeds pid p p.program).map fun deed => ⟨pid, p.loaded, deed⟩
    | none => []
  | .tick => []
  | .interrupt pid =>
    match m.processes.get? pid with
    | some p => [⟨pid, p.loaded, .interrupted⟩]
    | none => []

/-- A run from a machine, with its trace, to another machine. -/
inductive Run (m₀ : Machine α) : List Event → Machine α → Prop
  | start : Run m₀ [] m₀
  | move {es : List Event} {m m' : Machine α} (run : Run m₀ es m) (mv : Move)
      (h : m.move mv = some m') : Run m₀ (es ++ m.events mv) m'

theorem interrupt_effect {m m' : Machine α} {q : Pid} (h : m.interrupt q = some m') :
    Effect q m [] m' := by
  unfold interrupt at h
  split at h
  · cases h
  · split at h
    · cases h
    · split at h
      · rw [Option.map_eq_some_iff] at h
        obtain ⟨_, -, rfl⟩ := h
        exact proceed_effect _
      · cases h

theorem tick_effect {m m' : Machine α} (q : Pid) (h : m.tick = some m') : Effect q m [] m' := by
  unfold tick at h
  rw [Option.map_eq_some_iff] at h
  obtain ⟨_, -, rfl⟩ := h
  exact .storage ⟨rfl, rfl, rfl, rfl, fun _ h => h, fun _ _ h => .inl h⟩

theorem mem_takenBy {m : Machine α} {q c : Pid} {program : Program α}
    (h : c ∈ m.takenBy q program) :
    ∃ p, m.processes.get? c = some p ∧ p.parent = q ∧ p.ending?.isSome := by
  have hfound {child : Pid} (hc : c ∈ m.found q child) :
      ∃ p, m.processes.get? c = some p ∧ p.parent = q ∧ p.ending?.isSome := by
    unfold found at hc
    rcases collect_cases m q child with ⟨p, e, hp, hparent, hend, heq⟩ | ⟨p, -, -,
      -, heq⟩ | ⟨-, heq⟩
    · rw [heq] at hc
      rw [List.mem_singleton.mp hc]
      exact ⟨p, hp, hparent, by simp [hend]⟩
    · rw [heq] at hc
      exact absurd hc List.not_mem_nil
    · rw [heq] at hc
      exact absurd hc List.not_mem_nil
  unfold takenBy taken at h
  split at h
  · split at h
    · exact hfound h
    · exact hfound h
    · exact hfound h
    · exact absurd h List.not_mem_nil
  · exact absurd h List.not_mem_nil

theorem move_effect {m m' : Machine α} {mv : Move} {r : Pid} (h : m.move mv = some m')
    (hr : mv.actor? ≠ some r) :
    ∃ q l, q ≠ r ∧ Effect q m l m' ∧ ∀ c ∈ l, ∃ p, m.processes.get? c = some p ∧ p.parent = q := by
  cases mv with
  | turn q =>
    obtain ⟨p, hp, -, -⟩ := step_live h
    refine ⟨q, _, fun he => hr (by simp [Move.actor?, he]), step_effect hp h, fun c hc => ?_⟩
    obtain ⟨p', hp', hparent, -⟩ := mem_takenBy hc
    exact ⟨p', hp', hparent⟩
  | tick =>
    exact ⟨r + 1, [], Nat.succ_ne_self r, tick_effect _ h, fun c hc => absurd hc List.not_mem_nil⟩
  | interrupt q =>
    refine ⟨q, [], fun he => hr (by simp [Move.actor?, he]), interrupt_effect h, fun c hc => ?_⟩
    exact absurd hc List.not_mem_nil

section

variable {m m' : Machine α} {mv : Move}

private theorem move_effect_any (h : m.move mv = some m') : ∃ q l, Effect q m l m' := by
  cases mv with
  | turn q =>
    obtain ⟨p, hp, -, -⟩ := step_live h
    exact ⟨q, _, step_effect hp h⟩
  | tick => exact ⟨0, _, tick_effect 0 h⟩
  | interrupt q => exact ⟨q, _, interrupt_effect h⟩

theorem move_sound (h : m.move mv = some m') (hs : m.Sound) : m'.Sound := by
  obtain ⟨q, l, heffect⟩ := move_effect_any h
  exact heffect.sound hs

theorem move_nextPid_le (h : m.move mv = some m') : m.nextPid ≤ m'.nextPid := by
  obtain ⟨q, l, heffect⟩ := move_effect_any h
  exact heffect.nextPid_le

theorem move_knows (h : m.move mv = some m') {handle : Handle} (hk : m.Knows handle) :
    m'.Knows handle := by
  obtain ⟨q, l, heffect⟩ := move_effect_any h
  exact heffect.knows hk

theorem move_anonymous (h : m.move mv = some m') {number : Nat} (hk : m.Knows (.readEnd number))
    (hn : ∀ id, m.fifos.get? id ≠ some number) : ∀ id, m'.fifos.get? id ≠ some number := by
  obtain ⟨q, l, heffect⟩ := move_effect_any h
  exact heffect.anonymous hk hn

theorem move_absent (h : m.move mv = some m') (hs : m.Sound) {r : Pid} (hr : r < m.nextPid)
    (hn : m.processes.get? r = none) : m'.processes.get? r = none := by
  obtain ⟨q, l, heffect⟩ := move_effect_any h
  exact (heffect.frame hs).absent r hr hn

theorem move_ended (h : m.move mv = some m') (hs : m.Sound) {r : Pid} {p : Process α} {e : Ending}
    (hp : m.processes.get? r = some p) (he : p.ending? = some e) :
    m'.processes.get? r = none ∨ ∃ p', m'.processes.get? r = some p' ∧ p'.ending? = some e := by
  obtain ⟨q, l, heffect⟩ := move_effect_any h
  exact (heffect.frame hs).ended r p e hp he

theorem move_loaded (h : m.move mv = some m') (hs : m.Sound) {r : Pid} {p : Process α}
    (hp : m.processes.get? r = some p) (hl : p.loaded = true) :
    m'.processes.get? r = none ∨ ∃ p', m'.processes.get? r = some p' ∧ p'.loaded = true := by
  obtain ⟨q, l, heffect⟩ := move_effect_any h
  exact (heffect.frame hs).loaded r p hp hl

theorem move_others (h : m.move mv = some m') (hs : m.Sound) {r : Pid} {p : Process α}
    (hr : mv.actor? ≠ some r) (hp : m.processes.get? r = some p) :
    m'.processes.get? r = none ∨ ∃ p', m'.processes.get? r = some p' ∧
      (p.Struck p' ∨ p.Same p') := by
  obtain ⟨q, l, hq, heffect, -⟩ := move_effect h hr
  exact (heffect.frame hs).others r p hq.symm hp

theorem move_custody (h : m.move mv = some m') (hs : m.Sound) {r : Pid} {p : Process α}
    (hp : m.processes.get? r = some p) (hr : mv.actor? ≠ some p.parent)
    (halive : m'.Alive p.parent) :
    ∃ p', m'.processes.get? r = some p' ∧ p'.parent = p.parent := by
  obtain ⟨q, l, hq, heffect, hl⟩ := move_effect h hr
  refine (heffect.frame hs).custody r p hp (fun hm => ?_) halive
  obtain ⟨p', hp', hparent⟩ := hl r hm
  cases hp.symm.trans hp'
  exact hq hparent.symm

theorem pid_of_mem_events {e : Event} (h : e ∈ m.events mv) : mv.actor? = some e.pid := by
  cases mv with
  | turn q =>
    simp only [events] at h
    split at h
    · obtain ⟨_, -, rfl⟩ := List.mem_map.mp h
      rfl
    · exact absurd h List.not_mem_nil
  | tick => exact absurd h List.not_mem_nil
  | interrupt q =>
    simp only [events] at h
    split at h
    · rw [List.mem_singleton.mp h]
      rfl
    · exact absurd h List.not_mem_nil

theorem present_of_mem_events {e : Event} (h : e ∈ m.events mv) :
    ∃ p, m.processes.get? e.pid = some p := by
  cases mv with
  | turn q =>
    simp only [events] at h
    split at h
    · obtain ⟨_, -, rfl⟩ := List.mem_map.mp h
      exact ⟨_, ‹_›⟩
    · exact absurd h List.not_mem_nil
  | tick => exact absurd h List.not_mem_nil
  | interrupt q =>
    simp only [events] at h
    split at h
    · rw [List.mem_singleton.mp h]
      exact ⟨_, ‹_›⟩
    · exact absurd h List.not_mem_nil

theorem interrupt_live {q : Pid} (h : m.interrupt q = some m') :
    ∃ p, m.processes.get? q = some p ∧ p.ending? = none ∧
      m.events (.interrupt q) = [⟨q, p.loaded, .interrupted⟩] := by
  unfold interrupt at h
  split at h
  · cases h
  · rename_i p hp
    split at h
    · cases h
    · rename_i hlive
      exact ⟨p, hp, (isLive_iff.mp (by simpa using hlive)).1, by simp only [events, hp]⟩

theorem deedsOf_events_of_ne {r : Pid} (hr : mv.actor? ≠ some r) :
    Event.deedsOf r (m.events mv) = [] := by
  simp only [Event.deedsOf, List.map_eq_nil_iff, List.filter_eq_nil_iff, decide_eq_true_eq]
  rintro e he rfl
  exact hr (pid_of_mem_events he)

theorem deedsOf_events_turn {q : Pid} {p : Process α} (hp : m.processes.get? q = some p) :
    Event.deedsOf q (m.events (.turn q)) = m.deeds q p p.program := by
  simp [Event.deedsOf, events, hp, List.filter_map, Function.comp_def]

theorem events_turn {q : Pid} {p : Process α} (hp : m.processes.get? q = some p) :
    m.events (.turn q) = (m.deeds q p p.program).map fun deed => ⟨q, p.loaded, deed⟩ := by
  simp only [events, hp]

end

namespace Run

variable {m₀ m : Machine α} {es : List Event}

theorem sound (h : Run m₀ es m) (hs : m₀.Sound) : m.Sound := by
  induction h with
  | start => exact hs
  | move _ mv h ih => exact move_sound h ih

theorem nextPid_le (h : Run m₀ es m) : m₀.nextPid ≤ m.nextPid := by
  induction h with
  | start => exact Nat.le_refl _
  | move _ mv h ih => exact Nat.le_trans ih (move_nextPid_le h)

theorem knows (h : Run m₀ es m) {handle : Handle} (hk : m₀.Knows handle) : m.Knows handle := by
  induction h with
  | start => exact hk
  | move _ mv h ih => exact move_knows h ih

/-- What holds of a process in the beginning holds of it as long as it lives, if its own moves and
those of others keep it. -/
theorem of_living {pid : Pid} {I : List Event → Machine α → Process α → Prop} {p₀ p : Process α}
    (hs : m₀.Sound) (hp₀ : m₀.processes.get? pid = some p₀) (hstart : I [] m₀ p₀)
    (hown : ∀ {es m m' p mv}, m.Sound →
      m.processes.get? pid = some p → I es m p → mv.actor? = some pid →
      m.move mv = some m' → ∃ p', m'.processes.get? pid = some p' ∧ I (es ++ m.events mv) m' p')
    (hothers : ∀ {es m m' p p' mv}, m.Sound →
      m.processes.get? pid = some p → I es m p → mv.actor? ≠ some pid →
      m.move mv = some m' → m'.processes.get? pid = some p' → p'.ending? = none → p.Same p' →
      I (es ++ m.events mv) m' p') (h : Run m₀ es m) (hp : m.processes.get? pid = some p)
    (hending : p.ending? = none) : I es m p := by
  induction h generalizing p with
  | start =>
    cases hp₀.symm.trans hp
    exact hstart
  | @move es m₁ m₂ hrun mv hmove ih =>
    have hsound := hrun.sound hs
    cases hp₁ : m₁.processes.get? pid with
    | none =>
      have hlt := Nat.lt_of_lt_of_le (hs.numbered pid p₀ hp₀).1 hrun.nextPid_le
      exact absurd ((move_absent hmove hsound hlt hp₁).symm.trans hp) (by simp)
    | some p₁ =>
      have hbefore : p₁.ending? = none := by
        cases hending₁ : p₁.ending? with
        | none => rfl
        | some ending =>
          rcases move_ended hmove hsound hp₁ hending₁ with hnone | ⟨p₂, hp₂, hending₂⟩
          · exact absurd (hnone.symm.trans hp) (by simp)
          · cases hp.symm.trans hp₂
            exact absurd (hending.symm.trans hending₂) (by simp)
      by_cases hactor : mv.actor? = some pid
      · obtain ⟨p₂, hp₂, hinv⟩ := hown hsound hp₁ (ih hp₁ hbefore) hactor hmove
        cases hp.symm.trans hp₂
        exact hinv
      · rcases move_others hmove hsound hactor hp₁ with hnone | ⟨p₂, hp₂, hend | hsame⟩
        · exact absurd (hnone.symm.trans hp) (by simp)
        · cases hp.symm.trans hp₂
          exact absurd hending hend.ended
        · cases hp.symm.trans hp₂
          exact hothers hsound hp₁ (ih hp₁ hbefore) hactor hmove hp hending hsame

end Run

end Machine

end PipeShell
