import PipeShell.Proofs.Session.Faithful
import PipeShell.Proofs.Session.Interpreter
import PipeShell.Proofs.Session.Output
import PipeShell.Proofs.Session.SingleShot
import PipeShell.Proofs.System.Solo
import PipeShell.Session.Console

/-!
Sessions on a machine. Nothing says that a piece of work comes to its end there; as long as each one
does, the machine is a host as the sessions need it, and what is known of their lines holds of the
lines on the machine.
-/

set_option autoImplicit false
set_option relaxedAutoImplicit false

namespace PipeShell

open Program

namespace Console

def place (c : Console) : Option NodeId := (c.machine.processes.get? Setup.pid).map (·.directory)

def Rooted (c : Console) : Prop := c.machine.Rooted Setup.pid

def Lives (c : Console) : Prop :=
  ∃ p, c.machine.processes.get? Setup.pid = some p ∧ p.ending? = none

instance (c : Console) : Decidable c.Lives :=
  decidable_of_iff ((c.machine.processes.get? Setup.pid).any (·.ending?.isNone) = true)
    (by simp [Lives, Option.any_eq_true])

/-- A piece of work comes to its end in the turns that it is given. -/
def Completes (c : Console) (work : Program Report) : Prop := (c.perform work).1.isSome

instance (c : Console) (work : Program Report) : Decidable (c.Completes work) :=
  inferInstanceAs (Decidable (_ = true))

variable {c : Console} {work : Program Report}

/-! ### Pieces of work -/

theorem Rooted.perform (h : c.Rooted) (work : Program Report) : (c.perform work).2.Rooted :=
  Machine.Rooted.perform h work

theorem Rooted.exists_place (h : c.Rooted) :
    ∃ p, c.machine.processes.get? Setup.pid = some p ∧ c.place = some p.directory := by
  obtain ⟨p, hp, -⟩ := h.present
  exact ⟨p, hp, by rw [place, hp]; rfl⟩

theorem code?_eq_some {p : Process Report} (hp : c.machine.processes.get? Setup.pid = some p)
    {code : UInt8} (h : c.code? = some code) : p.ending? = some (.exited code) := by
  unfold code? at h
  rw [hp] at h
  split at h
  · next heq =>
    cases heq
    cases h
    rfl
  · cases h

/-- A piece of work goes through a course of its program. If it comes to its end, so does the
course. -/
theorem perform_course (hc : c.Rooted) (hwork : work.Confined Call.Interactive True fun _ => True) :
    ∃ past result, Course work past result ∧ (∀ r, (c.perform work).1 = some r → result = some r) ∧
      ((c.perform work).2.place ≠ c.place → Enters past) ∧ ReportsBytes past ∧
      (c.Lives → ∀ code, (c.perform work).2.code? = some code →
        .called (.exit code) none ∈ past) := by
  obtain ⟨p, hp, hplace⟩ := hc.exists_place
  obtain ⟨p', hp', hplace'⟩ := (hc.perform work).exists_place
  have hproceed : (c.machine.proceed Setup.pid work).processes.get? Setup.pid =
      some { p with program := work } := by
    rw [Machine.proceed_eq hp, Machine.get?_update_same]
  have hresult {r : Report} (h : (c.perform work).1 = some r) : p'.program = .done r := by
    obtain ⟨q, hq, hdone⟩ := Machine.result?_eq_some_iff.mp h
    cases hp'.symm.trans hq
    exact hdone
  rw [hplace, hplace']
  by_cases hlive : p.ending? = none
  · obtain ⟨es, hrun⟩ := c.machine.perform_run Setup.pid work
    obtain ⟨past, hfollows⟩ :=
      (Machine.Rooted.proceed hc work).follows hproceed hlive hwork hrun hp'
    have henters : some p'.directory ≠ some p.directory → Enters past :=
      fun hne => hfollows.enters fun heq => hne (congrArg some heq)
    have hleft (_ : c.Lives) (code : UInt8) (hcode : (c.perform work).2.code? = some code) :
        .called (.exit code) none ∈ past := (hfollows.left code (code?_eq_some hp' hcode)).2.1
    cases hperformed : (c.perform work).1 with
    | none => exact ⟨past, none, hfollows.course, by simp, henters, hfollows.bytes, hleft⟩
    | some r =>
      exact ⟨past, some r, hfollows.course_done (hresult hperformed), fun _ => id, henters,
        hfollows.bytes, hleft⟩
  · -- nothing is done by a process that is at its end
    have hover : (c.machine.proceed Setup.pid work).isOver Setup.pid = true := by
      unfold Machine.isOver
      rw [hproceed]
      simp [Option.isSome_iff_ne_none.mpr hlive]
    have hmachine : (c.perform work).2.machine = c.machine.proceed Setup.pid work :=
      Machine.runUntil_of_stop hover _
    rw [hmachine, hproceed] at hp'
    cases hp'
    have hdead (hlives : c.Lives) : False := by
      obtain ⟨q, hq, hending⟩ := hlives
      cases hp.symm.trans hq
      exact hlive hending
    refine ⟨[], (c.perform work).1, ?_, fun _ => id, fun hne => absurd rfl hne,
      fun _ _ _ hmem => ?_, fun hlives => (hdead hlives).elim⟩
    · cases hperformed : (c.perform work).1 with
      | none => exact .started work
      | some r =>
        obtain rfl : work = .done r := hresult hperformed
        exact .done r
    · exact absurd hmem List.not_mem_nil

theorem perform_place (hc : c.Rooted) (hwork : work.Confined Call.Interactive True fun _ => True)
    (hrests : work.Confined Call.Rests True fun _ => True) :
    (c.perform work).2.place = c.place := by
  obtain ⟨past, result, hcourse, -, henters, -⟩ := perform_course hc hwork
  exact Classical.byContradiction fun hne => not_enters hcourse hrests (henters hne)

theorem perform_put (hc : c.Rooted) (fd : Fd) (data : Bytes) :
    (c.perform_ (Program.put fd data)).place = c.place :=
  perform_place hc (.bind (confined_act trivial trivial))
    (.bind (confined_act (fun _ => by simp) trivial))

theorem perform_note (hc : c.Rooted) (r : Log.Record) :
    (c.perform_ (Program.note r)).place = c.place :=
  perform_place hc (.bind (confined_act trivial trivial))
    (.bind (confined_act (fun _ => by simp) trivial))

private theorem course_of_report {β : Type} {x : Program β}
    {f : β → Report} {past : List (Exchange Report)}
    {result : Option Report} (h : Course (x >>= fun a => Program.done (f a)) past result) :
    ∃ past' result', Course x past' result' ∧
      past = past'.map (Exchange.andThen fun a => Program.done (f a)) ∧
      ∀ r, result = some r → ∃ a, result' = some a ∧ r = f a := by
  rcases h.of_bind with ⟨before, hpast, hcourse, hresult⟩ | ⟨before, after, a,
    hpast, hcourse, hdone⟩
  · exact ⟨before, none, hcourse, hpast, fun r hr => by cases hresult.symm.trans hr⟩
  · obtain ⟨rfl, hresult⟩ := hdone.of_done
    refine ⟨before, some a, hcourse, by rw [hpast, List.append_nil], fun r hr => ⟨a, rfl, ?_⟩⟩
    rcases hresult with hnone | hsome
    · cases hnone.symm.trans hr
    · exact Option.some.inj (hr.symm.trans hsome)

private theorem enters_of_report {β : Type} {f : β → Program Report} {past : List (Exchange β)}
    (h : Enters (past.map (Exchange.andThen f))) : Enters past := by
  obtain ⟨path, hmem⟩ := h
  exact ⟨path, called_mem_andThen.mp hmem⟩

theorem ofReap_interactive (background : Background) :
    (Report.ofReap background).Confined Call.Interactive True fun _ => True :=
  .bind (background.reap_stays.mono (fun _ => And.left) id fun _ _ => trivial)

theorem ofAction_interactive (action : Action) (background : Background) :
    (Report.ofAction action background).Confined Call.Interactive True fun _ => True :=
  .bind ((action.execute_interactive background).imp fun _ _ => trivial)

/-! ### Looking after the background -/

/-- The background is looked after to the end, and nobody gives the working directory another name
meanwhile. -/
structure Reaps (c : Console) : Prop where
  completes : c.Completes (Report.ofReap c.background)
  directory : c.reap.machine.directoryOf Setup.pid = c.machine.directoryOf Setup.pid

theorem reap_course (hc : c.Rooted) (h : c.Reaps) :
    ∃ past, Course c.background.reap past (some c.reap.background) ∧
      (c.reap.place ≠ c.place → Enters past) := by
  obtain ⟨past, result, hcourse, hresult, henters, -⟩ :=
    perform_course hc (ofReap_interactive c.background)
  obtain ⟨r, hr⟩ := Option.isSome_iff_exists.mp h.completes
  obtain ⟨past', result', hcourse', rfl, hreport⟩ := course_of_report hcourse
  obtain ⟨b, rfl, rfl⟩ := hreport r (hresult r hr)
  have hreap : c.reap = { (c.perform (Report.ofReap c.background)).2 with background := b } := by
    unfold reap
    generalize c.perform (Report.ofReap c.background) = performed at hr
    obtain ⟨report?, c'⟩ := performed
    cases hr
    rfl
  rw [hreap]
  exact ⟨past', hcourse', fun hne => enters_of_report (henters hne)⟩

/-! ### Carrying out actions -/

/-- An action is carried out to the end. An interpreter that is to leave only has to be there. -/
def CarriesOut (c : Console) : Action → Prop
  | .exit => c.Lives
  | action => c.Completes (Report.ofAction action c.background)

/-- A host that performs an action in some state in this way, with such a result, does what the
interpreter does. -/
structure Performs (action : Action) (c : Console) (out : Performed × Console)
    (past : List (Exchange Outcome)) : Prop where
  course : ∃ result, Course (action.execute c.background) past result ∧
    Tells past result c.background out.2.background out.1
  enters : out.2.place ≠ c.place → Enters past
  bytes : Action.BytesReported past

private theorem exit_course (background : Background) : Course (Action.exit.execute background)
    [.called (.note (.executing .exit)) (some ()), .called (.exit 0) none] none :=
  .answered (c := .note _) () (.awaiting (.exit 0) _)

private theorem exit_bytes : Action.BytesReported
    [.called (.note (.executing .exit)) (some ()), .called (.exit 0) none] := by
  intro child pid code hmem
  simp at hmem

theorem execute_exit (hc : c.Rooted) (hlives : c.Lives) : Performs .exit c (execute .exit c)
    [.called (.note (.executing .exit)) (some ()), .called (.exit 0) none] := by
  obtain ⟨past, result, hcourse, hresult, henters, -, hleft⟩ :=
    perform_course hc (ofAction_interactive .exit c.background)
  obtain ⟨past', result', hcourse', rfl, hreport⟩ := course_of_report hcourse
  have hnone : (c.perform (Report.ofAction .exit c.background)).1 = none := by
    refine Option.eq_none_iff_forall_ne_some.mpr fun r hr => ?_
    obtain ⟨o, rfl, -⟩ := hreport r (hresult r hr)
    exact (hcourse'.of_confined (Action.exit_leaves c.background)).2.2 o rfl
  have hplace : (c.perform (Report.ofAction .exit c.background)).2.place = c.place := by
    refine Classical.byContradiction fun hne => ?_
    obtain ⟨target, hexit, -⟩ :=
      Action.changeDirectory_of_enters hcourse' (enters_of_report (henters hne))
    cases hexit
  have hcode : (c.perform (Report.ofAction .exit c.background)).2.code?.getD 0 = 0 := by
    cases hcode : (c.perform (Report.ofAction .exit c.background)).2.code? with
    | none => rfl
    | some code =>
      exact (Action.exit_of_left hcourse' (called_mem_andThen.mp (hleft hlives code hcode))).2
  have hexecute : execute .exit c =
      (.left 0, (c.perform (Report.ofAction .exit c.background)).2) := by
    unfold execute
    generalize c.perform (Report.ofAction .exit c.background) = performed at hnone hcode
    obtain ⟨report?, c'⟩ := performed
    cases hnone
    exact congrArg (fun code => (Performed.left code, c')) hcode
  rw [hexecute]
  exact ⟨⟨none, exit_course _, by simp, rfl⟩, fun hne => absurd hplace hne, exit_bytes⟩

theorem execute_course (hc : c.Rooted) {action : Action}
    (hcompletes : c.Completes (Report.ofAction action c.background)) :
    ∃ past, Performs action c (execute action c) past := by
  obtain ⟨past, result, hcourse, hresult, henters, hbytes, -⟩ :=
    perform_course hc (ofAction_interactive action c.background)
  obtain ⟨r, hr⟩ := Option.isSome_iff_exists.mp hcompletes
  obtain ⟨past', result', hcourse', rfl, hreport⟩ := course_of_report hcourse
  obtain ⟨o, rfl, rfl⟩ := hreport r (hresult r hr)
  refine ⟨past', ⟨_, hcourse', ?_⟩, fun hne => enters_of_report (henters ?_),
    fun child pid code hmem => ?_⟩
  · unfold execute
    generalize c.perform (Report.ofAction action c.background) = performed at hr
    obtain ⟨report?, c'⟩ := performed
    cases hr
    obtain ⟨status | status, background⟩ := o <;> rfl
  · unfold execute at hne
    generalize c.perform (Report.ofAction action c.background) = performed at hr hne ⊢
    obtain ⟨report?, c'⟩ := performed
    cases hr
    obtain ⟨status | status, background⟩ := o <;> exact hne
  · exact hbytes child pid code (called_mem_andThen.mpr hmem)

/-- A machine that does not bring an action to its end can be taken for one that refuses
everything. -/
theorem exists_performs (action : Action) (c : Console) : ∃ out past, Performs action c out past ∧
    (c.Rooted → c.CarriesOut action → out = execute action c) := by
  by_cases hgood : c.Rooted ∧ c.CarriesOut action
  · obtain ⟨past, hperforms⟩ : ∃ past, Performs action c (execute action c) past := by
      cases action with
      | exit => exact ⟨_, execute_exit hgood.1 hgood.2⟩
      | _ => exact execute_course hgood.1 hgood.2
    exact ⟨_, past, hperforms, fun _ _ => rfl⟩
  · have hother {out : Performed × Console} (hc : c.Rooted) (hcarries : c.CarriesOut action) :
        out = execute action c :=
      absurd ⟨hc, hcarries⟩ hgood
    by_cases hexit : action = .exit
    · subst hexit
      exact ⟨(.left 0, c), _, ⟨⟨none, exit_course _, by simp, rfl⟩, fun hne => absurd rfl hne,
        exit_bytes⟩, hother⟩
    · obtain ⟨past, o, hcourse, hrefused⟩ :=
        (Action.execute_stays hexit c.background).exists_refused fun code h => h code rfl
      have hbytes : Action.BytesReported past := by
        intro child pid code hmem
        cases hrefused _ _ hmem
      obtain ⟨fatal | n, background⟩ := o
      · exact ⟨(.fatal fatal, { c with background := background }), past,
          ⟨⟨_, hcourse, rfl⟩, fun hne => absurd rfl hne, hbytes⟩, hother⟩
      · exact ⟨(.status n, { c with background := background }), past,
          ⟨⟨_, hcourse, rfl⟩, fun hne => absurd rfl hne, hbytes⟩, hother⟩

theorem exists_reaps (c : Console) : ∃ (c' : Console) (past : List (Exchange Background)),
    Course c.background.reap past (some c'.background) ∧ (c'.place ≠ c.place → Enters past) ∧
    (c'.machine.directoryOf Setup.pid ≠ c.machine.directoryOf Setup.pid → Enters past) ∧
    (c.Rooted → c.Reaps → c' = c.reap) := by
  by_cases hgood : c.Rooted ∧ c.Reaps
  · obtain ⟨past, hcourse, henters⟩ := reap_course hgood.1 hgood.2
    exact ⟨c.reap, past, hcourse, henters, fun hne => absurd hgood.2.directory hne, fun _ _ => rfl⟩
  · obtain ⟨past, kept, hcourse⟩ := c.background.reap_stays.exists_course fun code h => h.2 code rfl
    exact ⟨{ c with background := kept }, past, hcourse, fun hne => absurd rfl hne,
      fun hne => absurd rfl hne, fun hc hreaps => absurd ⟨hc, hreaps⟩ hgood⟩

/-! ### Sessions -/

/-- A host that does what the machine does, as long as that brings the works of the interpreter to
their ends. -/
structure Mimics (g : Host Console) : Prop where
  directory : g.directory = host.directory
  writes : ∀ data c, c.Rooted → g.write data c = host.write data c
  complains : ∀ data c, c.Rooted → g.complain data c = host.complain data c
  notes : ∀ record c, c.Rooted → g.note record c = host.note record c
  reaps : ∀ c, c.Rooted → c.Reaps → g.reap c = host.reap c
  performs : ∀ action c, c.Rooted → c.CarriesOut action → g.perform action c = host.perform action c

open Classical in
/-- There is such a host that carries out all actions as the interpreter does. -/
theorem exists_mimic :
    ∃ (g : Host Console) (record : Action → Console → List (Exchange Outcome)), Mimics g ∧
      g.Faithful place (·.background) ∧ g.Records (·.background) record ∧
      g.Collects (·.background) := by
  choose perform record hperforms hagrees using exists_performs
  choose reap past hcourse hplace hdirectory hreaps using exists_reaps
  let quietly (f : Console → Console) (c : Console) : Console := if c.Rooted then f c else c
  have hquiet (f : Console → Console) (hf : ∀ c, c.Rooted → (f c).place = c.place)
      (hb : ∀ c, (f c).background = c.background) (c : Console) :
      (quietly f c).place = c.place ∧ (quietly f c).background = c.background := by
    by_cases hc : c.Rooted
    · rw [show quietly f c = f c from if_pos hc]
      exact ⟨hf c hc, hb c⟩
    · rw [show quietly f c = c from if_neg hc]
      exact ⟨rfl, rfl⟩
  refine ⟨{ host with
    reap := reap
    write := fun data => quietly (host.write data)
    complain := fun data => quietly (host.complain data)
    note := fun r => quietly (host.note r)
    perform := perform }, record, ?_, ?_, ?_, ?_⟩
  · exact ⟨rfl, fun _ _ hc => if_pos hc, fun _ _ hc => if_pos hc,
      fun _ _ hc => if_pos hc, hreaps, hagrees⟩
  · refine ⟨fun action c => ?_, fun c => ⟨past c, hcourse c, hplace c⟩, fun data => ?_,
      fun data => ?_, fun r => ?_⟩
    · obtain ⟨result, hcourse, htells⟩ := (hperforms action c).course
      exact ⟨_, result, hcourse, htells, (hperforms action c).enters⟩
    · exact hquiet _ (fun c hc => perform_put hc Fd.output data) fun _ => rfl
    · exact hquiet _ (fun c hc => perform_put hc Fd.complaints data) fun _ => rfl
    · exact hquiet _ (fun c hc => perform_note hc r) fun _ => rfl
  · exact ⟨fun action c => (hperforms action c).course, fun action c => (hperforms action c).bytes⟩
  · exact fun c => ⟨past c, hcourse c, hdirectory c⟩

theorem Rooted.reap (h : c.Rooted) : c.reap.Rooted := by
  have hperform := h.perform (Report.ofReap c.background)
  unfold Console.reap
  generalize c.perform (Report.ofReap c.background) = performed at hperform ⊢
  split <;> exact hperform

theorem Rooted.execute (h : c.Rooted) (action : Action) : (Console.execute action c).2.Rooted := by
  have hperform := h.perform (Report.ofAction action c.background)
  unfold Console.execute
  generalize c.perform (Report.ofAction action c.background) = performed at hperform ⊢
  split
  · dsimp only
    split <;> exact hperform
  · exact hperform

open Session

variable {g : Host Console} {settings : Settings} {s : State Console} {line : Bytes}

theorem Rooted.flush (h : s.host.Rooted) : (Session.flush host s).host.Rooted := by
  unfold Session.flush
  split
  · exact h
  · exact h.perform _

theorem Rooted.prepare (h : s.host.Rooted) (settings : Settings) :
    (Session.prepare host settings s).host.Rooted := by
  unfold Session.prepare
  split
  · exact Rooted.flush (s := Session.print _ (onHost host.reap s)) h.reap
  · exact h.reap

theorem Rooted.step (h : s.host.Rooted) (settings : Settings) (line : Bytes) :
    (Session.step host settings (none, s) line).2.host.Rooted := by
  rw [step_none, runLine]
  split
  · exact ((h.prepare settings).perform _).perform _
  · next action _ =>
    have hexecute : (host.perform action
        (Session.flush host (Session.prepare host settings s)).host).2.Rooted :=
      (h.prepare settings).flush.execute action
    dsimp only
    generalize host.perform action (Session.flush host (Session.prepare host settings s)).host =
      performed at hexecute ⊢
    rcases performed with ⟨_ | _ | _, c⟩
    · exact Rooted.perform hexecute _
    · exact hexecute
    · exact Rooted.perform (Rooted.perform hexecute _) _

/-- The works for a line come to their ends. -/
structure Undisturbed (settings : Settings) (s : State Console) (line : Bytes) : Prop where
  reaps : s.host.Reaps
  carriesOut : ∀ action, reading line = .ok action → (ready host settings s).host.CarriesOut action

namespace Mimics

theorem flush_eq (hg : Mimics g) (hs : s.host.Rooted) : flush g s = flush host s := by
  unfold flush
  rw [hg.writes _ _ hs]

theorem prepare_eq (hg : Mimics g) (hs : s.host.Rooted) (hreaps : s.host.Reaps)
    (settings : Settings) : prepare g settings s = prepare host settings s := by
  have hreap : onHost g.reap s = onHost host.reap s := by
    unfold onHost
    rw [hg.reaps _ hs hreaps]
  unfold prepare showPrompt
  rw [hreap, hg.directory, flush_eq hg (s := print _ (onHost host.reap s)) hs.reap]

theorem step_eq (hg : Mimics g) (hs : s.host.Rooted) (h : Undisturbed settings s line) :
    step g settings (none, s) line = step host settings (none, s) line := by
  have hprepared := hs.prepare settings
  have hperform (action : Action) (hread : reading line = .ok action) :
      g.perform action (flush host (prepare host settings s)).host =
        host.perform action (flush host (prepare host settings s)).host :=
    hg.performs action _ hprepared.flush (h.carriesOut action hread)
  rw [step_none, step_none, prepare_eq hg hs h.reaps, runLine, runLine]
  split
  · unfold onHost afterLine
    dsimp only
    rw [hg.complains _ _ hprepared]
    exact congrArg (fun host => (none, { prepare Console.host settings s with host := host }))
      (hg.notes _ _ (hprepared.perform _))
  · next action hread =>
    have hexecute : (host.perform action (flush host (prepare host settings s)).host).2.Rooted :=
      hprepared.flush.execute action
    dsimp only
    rw [flush_eq hg hprepared, hperform action hread]
    generalize host.perform action (flush host (prepare host settings s)).host =
      performed at hexecute ⊢
    rcases performed with ⟨_ | _ | f, c⟩
    · unfold afterLine onHost
      dsimp only
      rw [hg.notes _ _ hexecute]
    · rfl
    · have hnoted : (host.note (.cannotContinue f.message) c).Rooted := Rooted.perform hexecute _
      dsimp only at hexecute ⊢
      rw [hg.notes _ _ hexecute, hg.complains _ _ hnoted]
      rfl

end Mimics

/-- The works for all lines come to their ends, up to a line that ends the session. -/
def AllUndisturbed (settings : Settings) (s : State Console) : List Bytes → Prop
  | [] => True
  | line :: rest => Undisturbed settings s line ∧ ((step host settings (none, s) line).1 = none →
      AllUndisturbed settings (step host settings (none, s) line).2 rest)

theorem Mimics.foldl_eq (hg : Mimics g) (hs : s.host.Rooted) {lines : List Bytes}
    (h : AllUndisturbed settings s lines) :
    lines.foldl (step g settings) (none, s) = lines.foldl (step host settings) (none, s) := by
  induction lines generalizing s with
  | nil => rfl
  | cons line rest ih =>
    obtain ⟨hline, hrest⟩ := h
    have hstep := hs.step settings line
    rw [List.foldl_cons, List.foldl_cons, hg.step_eq hs hline]
    generalize step host settings (none, s) line = after at hstep hrest ⊢
    rcases after with ⟨_ | code, s'⟩
    · exact ih hstep (hrest rfl)
    · rw [foldl_over, foldl_over]

/-- Sessions on a machine are as they are on every host, for all lines whose works come to their
ends. -/
theorem sessions (settings : Settings) :
    ∃ (g : Host Console) (record : Action → Console → List (Exchange Outcome)),
    (settings.singleShot = false → FoldsLines g settings place (·.background)) ∧
    (settings.singleShot = true → EndsWithStatus g settings record) ∧
    (∀ c input, WritesPrompts g settings c input) ∧
    ∀ (s : State Console) (lines : List Bytes), s.host.Rooted → AllUndisturbed settings s lines →
      lines.foldl (step g settings) (none, s) = lines.foldl (step host settings) (none, s) := by
  obtain ⟨g, record, hmimics, hfaithful, hrecords, hcollects⟩ := exists_mimic
  exact ⟨g, record, folds_lines hfaithful, ends_with_status hrecords,
    writes_prompts hcollects settings, fun _ _ hs h => hmimics.foldl_eq hs h⟩

private def fresh : Console :=
  { machine := Machine.solo (.done .nothing) fun _ _ => .done .nothing }

private theorem fresh_rooted : fresh.Rooted where
  sound := Machine.solo_sound _ _
  nobody := rfl
  present := ⟨_, Machine.get?_solo _ _, rfl⟩

private theorem undisturbed_of_reading {action : Action} (hread : reading line = .ok action)
    (hreaps : s.host.Reaps) (hcarries : (ready host settings s).host.CarriesOut action) :
    Undisturbed settings s line := by
  refine ⟨hreaps, fun action' hread' => ?_⟩
  cases hread.symm.trans hread'
  exact hcarries

example : fresh.Rooted ∧
    AllUndisturbed {} { host := fresh } [Bytes.ofString "\n", Bytes.ofString "exit\n"] := by
  refine ⟨fresh_rooted, ?_, fun _ => ⟨?_, fun hnone => ?_⟩⟩
  · refine undisturbed_of_reading (show reading _ = .ok .nothing by decide +kernel)
      ⟨by decide +kernel, rfl⟩ ?_
    show Completes _ _
    decide +kernel
  · refine undisturbed_of_reading (show reading _ = .ok .exit by decide +kernel)
      ⟨by decide +kernel, by decide +kernel⟩ ?_
    show Lives _
    decide +kernel
  · trivial

end Console

end PipeShell
