import Mathlib.Data.List.Nodup
import PipeShell.Proofs.Job.WiredRuns
import PipeShell.Proofs.System.Solo

/-!
The wiring of a pipeline, as one statement about every run in which the pipeline is carried out,
whatever else goes on on the machine and in whatever order.
-/

set_option autoImplicit false
set_option relaxedAutoImplicit false

namespace PipeShell

namespace Stage

variable {base : Wires} {stage : Stage} {before behind : Option Nat} {g : Plumbing} {n : Nat}

private theorem Attached.pipe_iff {fd : Fd}
    {pipeEnd? : Option Handle} {request? : Option (Bytes × Access)}
    {handle : Handle} (h : Attached base fd pipeEnd? request? g) (hbase : base fd ≠ some handle)
    (hopened : ∀ o ∈ g.opened, o.handle ≠ handle) :
    g.wires fd = some handle ↔ pipeEnd? = some handle := by
  unfold Attached at h
  cases pipeEnd? with
  | some handle' => rw [h]
  | none =>
    refine ⟨fun heq => ?_, fun heq => absurd heq (by simp)⟩
    cases request? with
    | none => exact absurd (h.symm.trans heq) hbase
    | some request =>
      obtain ⟨handle', hmem, heq'⟩ := h
      cases heq'.symm.trans heq
      exact absurd rfl (hopened _ hmem)

theorem Wired.holds_iff {handle : Handle} (h : Wired base stage before behind g)
    (hbase : ∀ fd, base fd ≠ some handle) (hopened : ∀ o ∈ g.opened, o.handle ≠ handle) :
    (∃ fd, g.wires fd = some handle) ↔ before.map .readEnd = some handle ∨
    behind.map .writeEnd = some handle := by
  have hin := h.input.pipe_iff (hbase _) hopened
  have hout := h.output.pipe_iff (hbase _) hopened
  constructor
  · rintro ⟨fd, hfd⟩
    by_cases h0 : fd = Fd.input
    · exact .inl (hin.mp (h0 ▸ hfd))
    · by_cases h1 : fd = Fd.output
      · exact .inr (hout.mp (h1 ▸ hfd))
      · exact absurd ((h.others fd h0 h1).symm.trans hfd) (hbase fd)
  · rintro (hbefore | hbehind)
    · exact ⟨Fd.input, hin.mpr hbefore⟩
    · exact ⟨Fd.output, hout.mpr hbehind⟩

theorem Wired.reads_iff (h : Wired base stage before behind g)
    (hbase : ∀ fd, base fd ≠ some (.readEnd n)) (hopened : ∀ o ∈ g.opened, o.handle ≠ .readEnd n) :
    (∃ fd, g.wires fd = some (.readEnd n)) ↔ before = some n := by
  simpa using h.holds_iff hbase hopened

theorem Wired.writes_iff (h : Wired base stage before behind g)
    (hbase : ∀ fd, base fd ≠ some (.writeEnd n))
    (hopened : ∀ o ∈ g.opened, o.handle ≠ .writeEnd n) :
    (∃ fd, g.wires fd = some (.writeEnd n)) ↔ behind = some n := by
  simpa using h.holds_iff hbase hopened

end Stage

namespace Pipeline

private theorem pipeBefore_eq_some_iff {pipes : List Nat} (hpipes : pipes.Nodup) {i j n : Nat}
    (hn : pipes[j]? = some n) : pipeBefore pipes i = some n ↔ i = j + 1 := by
  cases i with
  | zero => simp [pipeBefore]
  | succ i =>
    simp only [pipeBefore, Nat.add_right_cancel_iff]
    constructor
    · intro hi
      obtain ⟨hj, rfl⟩ := List.getElem?_eq_some_iff.mp hn
      obtain ⟨hi, heq⟩ := List.getElem?_eq_some_iff.mp hi
      exact (List.Nodup.getElem_inj_iff hpipes).mp heq
    · rintro rfl
      exact hn

/-- The wiring of a pipeline, told from what a trace has of the interpreter's pipes and children,
and from the descriptors that it had before. -/
structure ExactlyWired (base : Wires) (stages : List Stage) (pid : Pid) (es : List Event)
    (m : Machine Report) : Prop where
  /-- No more stages are started than there are, and no more pipes are made than there are
  neighbours; each stage but the last has its pipe when it is started. -/
  counted : (Event.startedBy pid es).length ≤ stages.length ∧
    (Event.pipedBy pid es).length ≤ stages.length - 1 ∧
    min (Event.startedBy pid es).length (stages.length - 1) ≤ (Event.pipedBy pid es).length
  /-- The pipes are different ones, and nothing that the interpreter had before. -/
  distinct : (Event.pipedBy pid es).Nodup ∧
    ∀ n ∈ Event.pipedBy pid es, ∀ fd, base fd ≠ some (.readEnd n) ∧ base fd ≠ some (.writeEnd n)
  /-- A stage that is about to run its program has exactly the descriptors that are meant for it. -/
  wired : ∀ i q p arguments next, (Event.startedBy pid es)[i]? = some q →
    m.processes.get? q = some p →
    p.ending? = none → p.loaded = false → p.program = .call (.exec arguments) next →
    ∃ stage, stages[i]? = some stage ∧ arguments = stage.arguments.map Bytes.ofString ∧
      Stage.Wired base stage (pipeBefore (Event.pipedBy pid es) i) (Event.pipedBy pid es)[i]?
        ⟨p.descriptors.get?, Event.preparations q es⟩ ∧
      ∀ j n, (Event.pipedBy pid es)[j]? = some n →
        ((∃ fd, p.descriptors.get? fd = some (.readEnd n)) ↔ i = j + 1) ∧
        ((∃ fd, p.descriptors.get? fd = some (.writeEnd n)) ↔ i = j)
  /-- Before their programs run, the stages do nothing but open files: the first one its input and
  the last one its output. -/
  opened : ∀ i q e, (Event.startedBy pid es)[i]? = some q → e ∈ es → e.pid = q → e.loaded = false →
    ∃ stage path access handle, stages[i]? = some stage ∧ e.deed = .opened path access handle ∧
      (i = 0 ∧ stage.inputRequest? = some (path, access) ∨
        i + 1 = stages.length ∧ stage.outputRequest? = some (path, access))
  /-- The interpreter opens none. -/
  unopened : ∀ deed ∈ Event.deedsOf pid es, ∀ path access handle, deed ≠ .opened path access handle
  /-- In the end the interpreter has its old descriptors, and all stages were started unless it
  cannot go on. -/
  complete : ∀ p o, m.processes.get? pid = some p → p.ending? = none →
    p.program = .done (.outcome o) → p.descriptors.get? = base ∧ ∀ status, o.status = .ok status →
      (Event.startedBy pid es).length = stages.length ∧
    (Event.pipedBy pid es).length = stages.length - 1

/-- Whatever other processes there are and in whatever order all of them go on: the stages of a
pipeline that is carried out are connected as they should be, and have nothing of the pipeline but
that. -/
theorem wiring_exact {m₀ m : Machine Report} {pid : Pid} {p₀ : Process Report} {pipeline : Pipeline}
    {background : Background} {es : List Event} (hs : m₀.Sound)
    (hp : m₀.processes.get? pid = some p₀) (hcalm : p₀.rendezvous? = none)
    (hprogram : p₀.program = do return .outcome (← Action.execute (.run pipeline) background))
    (hinput : p₀.descriptors.get? Fd.input ≠ none) (houtput : p₀.descriptors.get? Fd.output ≠ none)
    (hrun : m₀.Run es m) : ExactlyWired p₀.descriptors.get? pipeline.stages pid es m := by
  have hhonours : p₀.program.Honours (contract p₀.descriptors.get? pipeline.stages)
      (fun r g => ∀ o, r = .outcome o → g.wires = p₀.descriptors.get? ∧
        ∀ status, o.status = .ok status → Complete p₀.descriptors.get? pipeline.stages g)
      ⟨p₀.descriptors.get?, [], []⟩ := by
    rw [hprogram]
    refine .bind ((execute_honours pipeline background).mono fun o g h => ?_)
    rintro _ ⟨⟩
    exact h
  have hway := Underway.run hs hp hcalm hhonours hinput houtput hrun
  have hnew : ∀ n ∈ Event.pipedBy pid es, ∀ fd,
      p₀.descriptors.get? fd ≠ some (.readEnd n) ∧ p₀.descriptors.get? fd ≠ some (.writeEnd n) := by
    intro n hn fd
    have hfresh := (hway.fresh n hn).1
    have hknown (handle : Handle) (hfd : p₀.descriptors.get? fd = some handle) : m₀.Knows handle :=
      hs.known pid p₀ hp handle (Table.mem_values_iff.mpr ⟨fd, hfd⟩)
    exact ⟨fun hfd => hfresh (hknown _ hfd), fun hfd => hfresh (hknown (.writeEnd n) hfd)⟩
  refine ⟨⟨hway.counted.2.1, hway.counted.1, hway.counted.2.2⟩, ⟨hway.distinct, hnew⟩, ?_, ?_,
    hway.unopened, ?_⟩
  · intro i q p arguments next hq hp' hlive hloaded hexec
    obtain ⟨stage, hstage, hstation, -⟩ := hway.stations i q hq
    obtain ⟨⟨wires, hholds, hhonours'⟩, hforeign⟩ := hstation p hp' hlive hloaded
    rw [hexec] at hhonours'
    obtain ⟨⟨hargs, hwired⟩, -⟩ := hhonours'
    have hwires : p.descriptors.get? = wires := by
      unfold Stage.Holds at hholds
      split at hholds
      · exact hholds
      · obtain ⟨⟨path, access, next', hopen⟩, -⟩ := hholds
        exact absurd (hexec.symm.trans hopen) (by simp)
    rw [hwires]
    refine ⟨stage, hstage, hargs, hwired, fun j n hn => ?_⟩
    have hmem := List.mem_of_getElem? hn
    constructor
    · rw [← pipeBefore_eq_some_iff hway.distinct hn]
      exact hwired.reads_iff (fun fd => (hnew n hmem fd).1) fun o ho => ((hforeign o ho).2 n hmem).1
    · have hsame : (Event.pipedBy pid es)[i]? = some n ↔ i = j := by
        have := pipeBefore_eq_some_iff (i := i + 1) hway.distinct hn
        simpa [pipeBefore] using this
      rw [← hsame]
      exact hwired.writes_iff (fun fd => (hnew n hmem fd).2) fun o ho =>
        ((hforeign o ho).2 n hmem).2
  · intro i q e hq he hpid hloaded
    obtain ⟨stage, hstage, -, hdeeds⟩ := hway.stations i q hq
    obtain ⟨path, access, handle, hdeed, hmay⟩ := hdeeds e he hpid hloaded
    refine ⟨stage, path, access, handle, hstage, hdeed, ?_⟩
    have hi := (List.getElem?_eq_some_iff.mp hq).1
    have hcounted := hway.counted
    rcases hmay with ⟨hnone, hrequest⟩ | ⟨hnone, hrequest⟩
    · refine .inl ⟨?_, hrequest⟩
      -- every stage but the first one has a pipe before it
      cases i with
      | zero => rfl
      | succ i =>
        have := List.getElem?_eq_none_iff.mp hnone
        omega
    · refine .inr ⟨?_, hrequest⟩
      have := List.getElem?_eq_none_iff.mp hnone
      omega
  · intro p o hp' hlive hdone
    have hinterprets := (hway.interpreter p hp' hlive).honours
    rw [hdone] at hinterprets
    obtain ⟨hbase, hcomplete⟩ := hinterprets o rfl
    exact ⟨hbase, fun status hok => (hcomplete status hok).2⟩

private def twoStages : Pipeline := { stages := [{ arguments := ["ls"] }, { arguments := ["wc"] }] }

private def work : Program Report := do return .outcome (← Action.execute (.run twoStages) {})

private def moves : List Move :=
  [.turn 1, .turn 1, .turn 1, .turn 2, .turn 1, .turn 2, .turn 1, .turn 3,
    .turn 3, .turn 2, .turn 3]

/-- In a run that has brought both stages of a pipeline to the point where their programs are about
to run. -/
theorem wiring_of_two_stages : ∃ (es : List Event) (m : Machine Report) (p : Process Report)
    (next : Errno → Program Report),
    (Machine.solo work fun _ _ => Program.exit 0).Run es m ∧ Event.startedBy 1 es = [2, 3] ∧
      Event.pipedBy 1 es = [0] ∧ m.processes.get? 3 = some p ∧
      p.program = .call (.exec [Bytes.ofString "wc"]) next ∧
      p.descriptors.get? Fd.input = some (.readEnd 0) ∧
      ExactlyWired Setup.descriptors.get? twoStages.stages 1 es m := by
  have hfollow : (Machine.solo work fun _ _ => Program.exit 0).follow moves =
      some (((Machine.solo work fun _ _ => Program.exit 0).follow moves).get rfl) := rfl
  have hrun := Machine.run_of_follow .start hfollow
  have hinput : Setup.descriptors.get? Fd.input ≠ none := by decide
  have houtput : Setup.descriptors.get? Fd.output ≠ none := by decide
  exact ⟨_, _, _, _, hrun, rfl, rfl, rfl, rfl, rfl,
    wiring_exact (Machine.solo_sound work _) (Machine.get?_solo work _) rfl rfl hinput houtput hrun⟩

end Pipeline

end PipeShell
