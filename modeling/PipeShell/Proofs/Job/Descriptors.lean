import PipeShell.Proofs.Job.Management
import PipeShell.Proofs.Job.Wiring
import PipeShell.Proofs.System.Calls

/-!
The descriptors of the interpreter, told from what it exchanges with the system: where they lead,
which pipes were made for it, and what it has closed. On a machine they are what is told of them.
-/

set_option autoImplicit false
set_option relaxedAutoImplicit false

namespace PipeShell

open Program

variable {α : Type}

/-- The descriptors of a process, with the pipes that it has made and what it has closed. -/
structure Descriptors where
  wires : Wires
  /-- The numbers by which the system tells pipes apart. -/
  made : List Nat := []
  /-- Where descriptors led when they were closed. Nothing stands for one that was not open. -/
  closed : List (Option Handle) := []

/-- An exchange that leaves the descriptors of the process as they are. -/
def Exchange.Keeps : Exchange α → Prop
  | .called .pipe (some (.ok _)) => False
  | .called (.close _) _ => False
  | .called (.duplicate ..) _ => False
  | .called (.openFile ..) _ => False
  | _ => True

namespace Descriptors

/-- What becomes of the descriptors in an exchange. The ends of a new pipe get descriptors that were
not in use. -/
inductive Step : Descriptors → Exchange α → Descriptors → Prop
  | made {d : Descriptors} (j : Joint) : Joint.Fits d.wires (some j) → j.pipe ∉ d.made →
      Step d (.called .pipe (some (.ok (j.link.readEnd, j.link.writeEnd))))
        { d with wires := Joint.plug d.wires (some j), made := d.made ++ [j.pipe] }
  | closed {d : Descriptors} (fd : Fd) :
      Step d (.called (.close fd) (some ()))
        { d with wires := Function.update d.wires fd none, closed := d.closed ++ [d.wires fd] }
  | kept {d : Descriptors} {e : Exchange α} : e.Keeps → Step d e d

inductive Run : Descriptors → List (Exchange α) → Descriptors → Prop
  | start (d : Descriptors) : Run d [] d
  | step {d d' d'' : Descriptors} {e : Exchange α} {past : List (Exchange α)} :
      Step d e d' → Run d' past d'' → Run d (e :: past) d''

variable {d d' : Descriptors} {past more : List (Exchange α)}

theorem run_append_iff : Run d (past ++ more) d' ↔ ∃ d'', Run d past d'' ∧ Run d'' more d' := by
  induction past generalizing d with
  | nil =>
    constructor
    · exact fun h => ⟨d, .start d, h⟩
    · rintro ⟨d'', hstart, h⟩
      cases hstart
      exact h
  | cons e past ih =>
    constructor
    · intro h
      cases h with
      | step hstep h =>
        obtain ⟨d'', hpast, hmore⟩ := ih.mp h
        exact ⟨d'', .step hstep hpast, hmore⟩
    · rintro ⟨d'', hpast, hmore⟩
      cases hpast with
      | step hstep hpast => exact .step hstep (ih.mpr ⟨d'', hpast, hmore⟩)

theorem Run.made_nodup (h : Run d past d') (hd : d.made.Nodup) : d'.made.Nodup := by
  induction h with
  | start => exact hd
  | step hstep _ ih =>
    apply ih
    cases hstep with
    | made j _ hnew =>
      refine List.nodup_append.mpr ⟨hd, by simp, fun a ha b hb heq => ?_⟩
      rw [List.mem_singleton.mp hb] at heq
      exact hnew (heq ▸ ha)
    | closed => exact hd
    | kept => exact hd

theorem Run.of_keeps (h : Run d past d') (hpast : ∀ e ∈ past, e.Keeps) : d' = d := by
  induction h with
  | start => rfl
  | step hstep _ ih =>
    have hkeeps := hpast _ List.mem_cons_self
    rw [ih fun e he => hpast e (List.mem_cons_of_mem _ he)]
    cases hstep with
    | made => exact hkeeps.elim
    | closed => exact hkeeps.elim
    | kept => rfl

end Descriptors

/-! ### A limit for descriptors -/

namespace Wires

def unused (w : Wires) (limit : Nat) : List Fd := (List.range limit).filter fun fd => w fd = none

/-- The answer to a request for a pipe: its ends get the two lowest descriptors that are not in
use. -/
def pipeReply (w : Wires) (limit : Nat) : Except Errno (Fd × Fd) :=
  match w.unused limit with
  | readEnd :: writeEnd :: _ => .ok (readEnd, writeEnd)
  | _ => .error .tooManyOpen

variable {w : Wires} {limit : Nat} {fd : Fd}

theorem mem_unused_iff : fd ∈ w.unused limit ↔ fd < limit ∧ w fd = none := by
  simp [unused]

theorem unused_nodup (w : Wires) (limit : Nat) : (w.unused limit).Nodup := List.nodup_range.filter _

theorem unused_update (w : Wires) (limit : Nat) (fd : Fd) (handle : Handle) :
    unused (Function.update w fd (some handle)) limit = (w.unused limit).erase fd := by
  rw [(unused_nodup w limit).erase_eq_filter, unused, unused, List.filter_filter]
  refine List.filter_congr fun n _ => ?_
  by_cases h : n = fd <;> simp [h]

theorem unused_get? (t : Table Handle) (limit : Nat) : unused t.get? limit = t.unused limit := by
  refine List.filter_congr fun n _ => ?_
  rw [decide_eq_decide, Table.notMem_keys_iff]

end Wires

theorem Machine.makePipe_reply (m : Machine α) (pid : Pid) (p : Process α) :
    (m.makePipe pid p).1 = Wires.pipeReply p.descriptors.get? p.limit := by
  unfold makePipe Wires.pipeReply
  simp only [Process.allocate, Table.lowest?_eq_head?, ← Wires.unused_get?]
  cases h : Wires.unused p.descriptors.get? p.limit with
  | nil => rfl
  | cons readEnd rest =>
    simp only [List.head?_cons, Table.get?_set_eq_update, Wires.unused_update, h,
      List.erase_cons_head]
    cases rest <;> rfl

/-- The answers of a system that refuses a pipe only if there is no descriptor left for it, and
never refuses to start a process. -/
def Exchange.Granted (limit : Nat) (w : Wires) : Exchange α → Prop
  | .called .pipe (some reply) => reply = w.pipeReply limit
  | .forked _ (.error _) => False
  | _ => True

namespace Descriptors

/-- What becomes of the descriptors on a system that has only a limited number of them. -/
inductive Rationed (limit : Nat) : Descriptors → List (Exchange α) → Descriptors → Prop
  | start (d : Descriptors) : Rationed limit d [] d
  | step {d d' d'' : Descriptors} {e : Exchange α} {past : List (Exchange α)} :
      Step d e d' → e.Granted limit d.wires → Rationed limit d' past d'' →
      Rationed limit d (e :: past) d''

variable {limit : Nat} {d d' : Descriptors} {past more : List (Exchange α)}

theorem Rationed.run (h : Rationed limit d past d') : Run d past d' := by
  induction h with
  | start d => exact .start d
  | step hstep _ _ ih => exact .step hstep ih

theorem rationed_append_iff : Rationed limit d (past ++ more) d' ↔
    ∃ d'', Rationed limit d past d'' ∧ Rationed limit d'' more d' := by
  induction past generalizing d with
  | nil =>
    constructor
    · exact fun h => ⟨d, .start d, h⟩
    · rintro ⟨d'', hstart, h⟩
      cases hstart
      exact h
  | cons e past ih =>
    constructor
    · intro h
      cases h with
      | step hstep hgranted h =>
        obtain ⟨d'', hpast, hmore⟩ := ih.mp h
        exact ⟨d'', .step hstep hgranted hpast, hmore⟩
    · rintro ⟨d'', hpast, hmore⟩
      cases hpast with
      | step hstep hgranted hpast => exact .step hstep hgranted (ih.mpr ⟨d'', hpast, hmore⟩)

end Descriptors

/-! ### On a machine -/

def Program.Leaves (x : Program α) (past : List (Exchange α)) (rest : Program α) : Prop :=
  ∀ more result, Course rest more result → Course x (past ++ more) result

theorem Program.Leaves.answered {x : Program α} {past : List (Exchange α)} {c : Call}
    {next : c.Reply → Program α} (h : x.Leaves past (.call c next)) (reply : c.Reply) :
    x.Leaves (past ++ [.called c (some reply)]) (resume c next reply) := by
  intro more result hmore
  rw [List.append_assoc]
  exact h _ _ (.answered reply hmore)

theorem Program.Leaves.forked {x : Program α} {past : List (Exchange α)} {child : Program α}
    {next : Except Errno Pid → Program α} (h : x.Leaves past (.fork child next))
    (reply : Except Errno Pid) :
    x.Leaves (past ++ [.forked child reply]) (next reply) := by
  intro more result hmore
  rw [List.append_assoc]
  exact h _ _ (.forked reply hmore)

namespace Pipeline

/-- What a process on a machine has exchanged with the system, and what it has left to do. The trace
has the pipes that it has made and the children that it has started. -/
structure Accounts (x : Program α) (wires : Wires) (limit : Nat) (pid : Pid) (es : List Event)
    (m : Machine α) (p : Process α) (past : List (Exchange α)) (d : Descriptors) : Prop where
  leaves : x.Leaves past p.program
  limited : p.limit = limit
  rationed : Descriptors.Rationed limit { wires := wires } past d
  wires : d.wires = p.descriptors.get?
  made : d.made = Event.pipedBy pid es
  known : ∀ n ∈ d.made, m.Knows (.readEnd n)
  started : (children past).map Prod.fst = Event.startedBy pid es

variable {x : Program α} {wires : Wires} {limit : Nat} {pid : Pid} {es es' : List Event}
  {m m' : Machine α} {p p' : Process α} {past : List (Exchange α)} {d : Descriptors} {forks : Prop}
  {Q : α → Prop} {mv : Move}

theorem Accounts.run (h : Accounts x wires limit pid es m p past d) :
    Descriptors.Run { wires := wires } past d :=
  h.rationed.run

theorem Accounts.exchange (h : Accounts x wires limit pid es m p past d) {e : Exchange α}
    {d' : Descriptors} (hstep : Descriptors.Step d e d') (hgranted : e.Granted limit d.wires)
    (hlimit : p'.limit = p.limit) (hleaves : x.Leaves (past ++ [e]) p'.program)
    (hwires : d'.wires = p'.descriptors.get?) (hmade : d'.made = d.made ++ Event.pipedBy pid es')
    (hknown : ∀ n ∈ d'.made, m'.Knows (.readEnd n))
    (hstarted : (children [e]).map Prod.fst = Event.startedBy pid es') :
    Accounts x wires limit pid (es ++ es') m' p' (past ++ [e]) d' where
  leaves := hleaves
  limited := hlimit.trans h.limited
  rationed := Descriptors.rationed_append_iff.mpr ⟨d, h.rationed, .step hstep hgranted (.start d')⟩
  wires := hwires
  made := by rw [hmade, h.made, Event.pipedBy_append]
  known := hknown
  started := by rw [children_append, List.map_append, h.started, hstarted, Event.startedBy_append]

theorem Accounts.keeps (h : Accounts x wires limit pid es m p past d) {e : Exchange α}
    (hleaves : x.Leaves (past ++ [e]) p'.program)
    (hkeeps : e.Keeps) (hgranted : e.Granted limit d.wires)
    (hlimit : p'.limit = p.limit) (hwires : p'.descriptors = p.descriptors)
    (hknown : ∀ n, m.Knows (.readEnd n) → m'.Knows (.readEnd n))
    (hmade : Event.pipedBy pid es' = [])
    (hstarted : (children [e]).map Prod.fst = Event.startedBy pid es') :
    Accounts x wires limit pid (es ++ es') m' p' (past ++ [e]) d := by
  refine h.exchange (.kept hkeeps) hgranted hlimit hleaves ?_ ?_
    (fun n hn => hknown n (h.known n hn)) hstarted
  · rw [h.wires, hwires]
  · rw [hmade, List.append_nil]

theorem Accounts.rests (h : Accounts x wires limit pid es m p past d)
    (hprogram : p'.program = p.program)
    (hlimit : p'.limit = p.limit) (hwires : p'.descriptors = p.descriptors)
    (hknown : ∀ n, m.Knows (.readEnd n) → m'.Knows (.readEnd n))
    (hmade : Event.pipedBy pid es' = []) (hstarted : Event.startedBy pid es' = []) :
    Accounts x wires limit pid (es ++ es') m' p' past d where
  leaves := hprogram ▸ h.leaves
  limited := hlimit.trans h.limited
  rationed := h.rationed
  wires := hwires ▸ h.wires
  made := by rw [h.made, Event.pipedBy_append, hmade, List.append_nil]
  known n hn := hknown n (h.known n hn)
  started := by rw [h.started, Event.startedBy_append, hstarted, List.append_nil]

private theorem pipe_accounts (h : Accounts x wires limit pid es m p past d)
    (hp : m.processes.get? pid = some p) (hlive : p.isLive = true)
    {next : Call.pipe.Reply → Program α} (hprogram : p.program = .call .pipe next)
    (hnext : ∀ reply, (next reply).Confined Manages forks Q) (hstep : m.step pid = some m') :
    ∃ p' past' d', m'.processes.get? pid = some p' ∧ p'.program.Confined Manages forks Q ∧
      Accounts x wires limit pid (es ++ m.events (.turn pid)) m' p' past' d' := by
  have hdeeds := Machine.deedsOf_events_turn hp
  rw [hprogram] at hdeeds
  have hleaves : x.Leaves past (.call .pipe next) := hprogram ▸ h.leaves
  have hmove : m.move (.turn pid) = some m' := hstep
  have hknows (n : Nat) (hn : m.Knows (.readEnd n)) : m'.Knows (.readEnd n) :=
    Machine.move_knows hmove hn
  have hgranted {reply : Except Errno (Fd × Fd)} (hreply : (m.makePipe pid p).1 = reply) :
      (Exchange.called .pipe (some reply) : Exchange α).Granted limit d.wires := by
    have hrefusal := m.makePipe_reply pid p
    rw [hreply, h.limited, ← h.wires] at hrefusal
    exact hrefusal
  rcases Machine.step_pipe hp hlive hprogram with ⟨readFd, writeFd, hread, hwrite, hne, hmade,
    heq⟩ | ⟨hmade, heq⟩
  · rw [heq] at hstep
    cases hstep
    have hnew : m.pipes.next ∉ d.made := fun hmem => by simpa [Machine.Knows] using h.known _ hmem
    have hfits : Joint.Fits d.wires (some ⟨⟨readFd, writeFd⟩, m.pipes.next⟩) := by
      rw [h.wires]
      exact ⟨hread, hwrite, hne⟩
    refine ⟨_, _, _, Machine.get?_update_same _ _ _, hnext _,
      h.exchange (.made ⟨⟨readFd, writeFd⟩, m.pipes.next⟩ hfits hnew) (hgranted hmade) rfl
        (hleaves.answered (.ok (readFd, writeFd))) ?_ ?_ ?_ ?_⟩
    · rw [Table.get?_set_eq_update, Table.get?_set_eq_update, h.wires]
      rfl
    · simp [Event.pipedBy, hdeeds, Machine.deeds, hmade]
    · intro n hn
      rcases List.mem_append.mp hn with hn | hn
      · exact hknows n (h.known n hn)
      · rw [List.mem_singleton.mp hn]
        simp [Machine.Knows, Machine.withPipe, Machine.update]
    · simp [Event.startedBy, hdeeds, Machine.deeds, hmade, children]
  · rw [heq] at hstep
    cases hstep
    refine ⟨_, _, d, Machine.get?_update_same _ _ _, hnext _, h.keeps
      (hleaves.answered (.error .tooManyOpen)) trivial (hgranted hmade) rfl rfl hknows ?_ ?_⟩
    · simp [Event.pipedBy, hdeeds, Machine.deeds, hmade]
    · simp [Event.startedBy, hdeeds, Machine.deeds, hmade, children]

private theorem call_accounts (h : Accounts x wires limit pid es m p past d)
    (hp : m.processes.get? pid = some p) (hlive : p.isLive = true) {c : Call}
    {next : c.Reply → Program α} (hprogram : p.program = .call c next)
    (hx : p.program.Confined Manages forks Q) (hstep : m.step pid = some m') :
    ∃ p' past' d', m'.processes.get? pid = some p' ∧ p'.program.Confined Manages forks Q ∧
      Accounts x wires limit pid (es ++ m.events (.turn pid)) m' p' past' d' := by
  have hdeeds := Machine.deedsOf_events_turn hp
  rw [hprogram] at hdeeds hx
  have hleaves : x.Leaves past (.call c next) := hprogram ▸ h.leaves
  obtain ⟨hmanages, hnext⟩ : Manages c ∧ _ := hx
  have hmove : m.move (.turn pid) = some m' := hstep
  have hknows (n : Nat) (hn : m.Knows (.readEnd n)) : m'.Knows (.readEnd n) :=
    Machine.move_knows hmove hn
  cases c with
  | note r =>
    have hpiped : Event.pipedBy pid (m.events (.turn pid)) = [] := by
      simp [Event.pipedBy, hdeeds, Machine.deeds]
    have hstarted : Event.startedBy pid (m.events (.turn pid)) = [] := by
      simp [Event.startedBy, hdeeds, Machine.deeds]
    obtain ⟨m₁, count, -, rfl | rfl⟩ := Machine.step_note hp hlive hprogram hstep
    · refine ⟨_, past, d, Machine.get?_update_same _ _ _, ?_,
        h.rests rfl rfl rfl hknows hpiped hstarted⟩
      exact hprogram ▸ ⟨hmanages, hnext⟩
    · exact ⟨_, _, d, Machine.get?_update_same _ _ _, hnext (),
        h.keeps (hleaves.answered ()) trivial trivial rfl rfl hknows hpiped hstarted.symm⟩
  | close fd =>
    rw [Machine.step_close hp hlive hprogram] at hstep
    cases hstep
    refine ⟨_, _, _, Machine.get?_update_same _ _ _, hnext (), h.exchange (.closed fd) trivial rfl
      (hleaves.answered ()) ?_ ?_ (fun n hn => hknows n (h.known n hn)) ?_⟩
    · rw [Table.get?_erase_eq_update, ← h.wires]
    · simp [Event.pipedBy, hdeeds, Machine.deeds]
    · simp [Event.startedBy, hdeeds, Machine.deeds, children]
  | waitFor child =>
    rcases Machine.step_waitFor hp hlive hprogram with ⟨c, ending, -, -, -, hfound, heq⟩ | ⟨c, -, -,
      -, heq⟩ | ⟨-, hfound, heq⟩
    · rw [heq] at hstep
      cases hstep
      have hresume := hleaves.answered (ending.report child)
      rw [Machine.resume_of_ne (Machine.report_not_interrupted child ending)] at hresume
      refine ⟨_, _, d, Machine.get?_update_same _ _ _, hnext _,
        h.keeps hresume trivial trivial rfl rfl hknows ?_ ?_⟩
      · simp [Event.pipedBy, hdeeds, Machine.deeds, hfound]
      · simp [Event.startedBy, hdeeds, Machine.deeds, hfound, children]
    · rw [heq] at hstep
      cases hstep
    · rw [heq] at hstep
      cases hstep
      refine ⟨_, _, d, Machine.get?_update_same _ _ _, hnext _,
        h.keeps (hleaves.answered (.error .noChild)) trivial trivial rfl rfl hknows ?_ ?_⟩
      · simp [Event.pipedBy, hdeeds, Machine.deeds, hfound]
      · simp [Event.startedBy, hdeeds, Machine.deeds, hfound, children]
  | pipe => exact pipe_accounts h hp hlive hprogram hnext hstep
  | _ => exact hmanages.elim

private theorem turn_accounts (h : Accounts x wires limit pid es m p past d) (hs : m.Sound)
    (hp : m.processes.get? pid = some p) (hx : p.program.Confined Manages forks Q)
    (hmove : m.move (.turn pid) = some m') :
    ∃ p' past' d', m'.processes.get? pid = some p' ∧ p'.program.Confined Manages forks Q ∧
      Accounts x wires limit pid (es ++ m.events (.turn pid)) m' p' past' d' := by
  obtain ⟨p₁, hp₁, hending, hstopped⟩ := Machine.step_live hmove
  cases hp.symm.trans hp₁
  have hlive := Machine.isLive_iff.mpr ⟨hending, hstopped⟩
  have hstep : m.step pid = some m' := hmove
  cases hprogram : p.program with
  | done a => simp [Machine.step, hp, hlive, hprogram] at hstep
  | call c next => exact call_accounts h hp hlive hprogram hx hstep
  | fork child next =>
    have hdeeds := Machine.deedsOf_events_turn hp
    rw [hprogram] at hdeeds hx
    have hleaves : x.Leaves past (.fork child next) := hprogram ▸ h.leaves
    have hne : pid ≠ m.nextPid := Nat.ne_of_lt (hs.numbered pid p hp).1
    have hkept : (m.fork pid p child).2.processes.get? pid = some p :=
      (Table.get?_set_of_ne _ _ hne).trans hp
    rw [Machine.step_fork hp hlive hprogram, Machine.proceed_eq hkept] at hstep
    cases hstep
    refine ⟨_, _, d, Machine.get?_update_same _ _ _, hx.2 _, h.keeps (hleaves.forked
      (.ok m.nextPid)) trivial trivial rfl rfl (fun n => Machine.move_knows hmove) ?_ ?_⟩
    · simp [Event.pipedBy, hdeeds, Machine.deeds]
    · simp [Event.startedBy, hdeeds, Machine.deeds, children]
  | transfer t next =>
    rw [hprogram] at hx
    exact hx.elim
  | flood fd block next =>
    rw [hprogram] at hx
    exact hx.elim

private theorem interrupt_accounts (h : Accounts x wires limit pid es m p past d)
    (hp : m.processes.get? pid = some p)
    (hx : p.program.Confined Manages forks Q) (hmove : m.move (.interrupt pid) = some m') :
    ∃ p' past' d', m'.processes.get? pid = some p' ∧ p'.program.Confined Manages forks Q ∧
      Accounts x wires limit pid (es ++ m.events (.interrupt pid)) m' p' past' d' := by
  have hdeeds : Event.deedsOf pid (m.events (.interrupt pid)) = [.interrupted] := by
    obtain ⟨_, -, -, hevent⟩ := Machine.interrupt_live hmove
    simp [hevent, Event.deedsOf]
  obtain ⟨p₁, hp₁, -, ⟨child, next, hprogram, rfl⟩ | ⟨child, next, hprogram, -⟩⟩ :=
    Machine.interrupt_cases hmove
  · cases hp.symm.trans hp₁
    -- the process waits again
    have hleaves : x.Leaves past (.call (.waitFor child) next) := hprogram ▸ h.leaves
    have hagain : x.Leaves
        (past ++ [.called (.waitFor child) (some (.error .interrupted))]) p.program := by
      rw [hprogram]
      exact hleaves.answered (.error .interrupted)
    refine ⟨p, _, d, Machine.get?_update_same _ _ _, hx,
      h.keeps hagain trivial trivial rfl rfl (fun n => Machine.move_knows hmove) ?_ ?_⟩
    · simp [Event.pipedBy, hdeeds]
    · simp [Event.startedBy, hdeeds, children]
  · cases hp.symm.trans hp₁
    rw [hprogram] at hx
    exact hx.1.elim

private theorem others_accounts (h : Accounts x wires limit pid es m p past d)
    (hmove : m.move mv = some m') (hactor : mv.actor? ≠ some pid) (hsame : p.Same p') :
    Accounts x wires limit pid (es ++ m.events mv) m' p' past d := by
  obtain ⟨parent, stopped, rfl⟩ := hsame
  have hdeeds := Machine.deedsOf_events_of_ne (m := m) hactor
  refine h.rests rfl rfl rfl (fun n => Machine.move_knows hmove) ?_ ?_
  · simp [Event.pipedBy, hdeeds]
  · simp [Event.startedBy, hdeeds]

/-- In every run of a machine there is such an account of a process that works for pipelines, as
long as it lives. -/
theorem accounts_of_run {m₀ : Machine α} {p₀ : Process α} (hs : m₀.Sound)
    (hp₀ : m₀.processes.get? pid = some p₀) (hx : p₀.program.Confined Manages forks Q)
    (hrun : m₀.Run es m) (hp : m.processes.get? pid = some p) (hending : p.ending? = none) :
    p.program.Confined Manages forks Q ∧
      ∃ past d, Accounts p₀.program p₀.descriptors.get? p₀.limit pid es m p past d := by
  refine hrun.of_living (I := fun es m p => p.program.Confined Manages forks Q ∧ ∃ past d,
    Accounts p₀.program p₀.descriptors.get? p₀.limit pid es m p past d) hs hp₀ ?_ ?_ ?_ hp hending
  · refine ⟨hx, [], { wires := p₀.descriptors.get? }, fun _ _ => id, rfl, .start _,
      rfl, ?_, by simp, ?_⟩
    · simp [Event.pipedBy, Event.deedsOf]
    · simp [Event.startedBy, Event.deedsOf]
  · rintro es m m' p mv hsound hp ⟨hconfined, past, d, haccounts⟩ hactor hmove
    obtain ⟨p', past', d', hp', hconfined', haccounts'⟩ :
        ∃ p' past' d', m'.processes.get? pid = some p' ∧
        p'.program.Confined Manages forks Q ∧ Accounts p₀.program p₀.descriptors.get? p₀.limit pid
          (es ++ m.events mv) m' p' past' d' := by
      cases mv with
      | turn r =>
        obtain rfl : r = pid := Option.some.inj hactor
        exact turn_accounts haccounts hsound hp hconfined hmove
      | tick => cases hactor
      | interrupt r =>
        obtain rfl : r = pid := Option.some.inj hactor
        exact interrupt_accounts haccounts hp hconfined hmove
    exact ⟨p', hp', hconfined', _, d', haccounts'⟩
  · rintro es m m' p p' mv - - ⟨hconfined, past, d, haccounts⟩ hactor hmove - - hsame
    refine ⟨?_, past, d, others_accounts haccounts hmove hactor hsame⟩
    obtain ⟨parent, stopped, rfl⟩ := hsame
    exact hconfined

end Pipeline

end PipeShell
