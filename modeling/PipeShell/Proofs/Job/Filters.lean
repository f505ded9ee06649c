import PipeShell.Proofs.Job.Turns

/-!
The steps of a stage whose program runs: it reads what the stage before it has written, and nothing
but that, until nobody can write any more; then it writes what it makes of it, and ends. With every
step there is less left to do for the stage.
-/

set_option autoImplicit false
set_option relaxedAutoImplicit false

namespace PipeShell.Scene

open Machine (Touches)

section

variable {s : Scene} {ph : Nat → Phase} {left : Nat} {collected : List Pid} {es : List Event}
  {m m₁ m' : Machine Report} {k : Nat} {q : Pid} {inlet outlet : Handle}

theorem Staged.inlet_pipes (h : s.Staged ph left collected es m) {rest : Bytes}
    (hsupplies : s.Supplies (Event.pipedBy s.pid es) m k inlet rest) (j n : Nat) (hj : j + 1 ≠ k)
    (hn : (Event.pipedBy s.pid es)[j]? = some n) : inlet ≠ .readEnd n ∧ inlet ≠ .writeEnd n := by
  obtain ⟨-, hwhere⟩ := hsupplies
  cases k with
  | zero =>
    obtain ⟨number, rfl⟩ := hwhere
    simp
  | succ i =>
    obtain ⟨n', hn', rfl⟩ := hwhere
    refine ⟨?_, by simp⟩
    rintro ⟨⟩
    have heq : j = i :=
      (List.getElem?_inj (List.getElem?_eq_some_iff.mp hn).1 h.way.distinct).mp (hn.trans hn'.symm)
    exact hj (congrArg (· + 1) heq)

theorem Staged.drain_apart (hb : s.Begins) (h : s.Staged ph left collected es m) {n j : Nat}
    (hdrain : s.drain? = some n) : (Event.pipedBy s.pid es)[j]? ≠ some n := by
  intro hn
  obtain ⟨r, p, fd, -, hp, hfd⟩ := hb.reader n hdrain
  exact (h.way.fresh n (List.mem_of_getElem? hn)).1
    (hb.sound.known r p hp (.readEnd n) (Table.mem_values_iff.mpr ⟨fd, hfd⟩))

theorem Staged.drain_reader (hb : s.Begins) (h : s.Staged ph left collected es m) {n : Nat}
    (hdrain : s.drain? = some n) : m.hasReader n = true := by
  obtain ⟨r, p, fd, hr, hp, hfd⟩ := hb.reader n hdrain
  obtain ⟨-, p', hp', hdescriptors⟩ := h.people.bystanders r p hr hp
  exact Machine.hasReader_iff.mpr ⟨r, p', fd, hp', hdescriptors ▸ hfd⟩

theorem Staged.clear_of_piped (hb : s.Begins) (h : s.Staged ph left collected es m) {n j : Nat}
    (hn : (Event.pipedBy s.pid es)[j]? = some n) :
    s.Clear m (.readEnd n) ∧ s.Clear m (.writeEnd n) := by
  unfold Clear
  cases hdrain : s.drain? with
  | none => exact ⟨fun number file he => (by cases he), fun number file he => (by cases he)⟩
  | some n' =>
    have hne : n ≠ n' := fun he => h.drain_apart hb hdrain (he ▸ hn)
    simp [hne]

theorem Staged.inlet_clear (hb : s.Begins) (h : s.Staged ph left collected es m) {rest : Bytes}
    (hsupplies : s.Supplies (Event.pipedBy s.pid es) m k inlet rest) : s.Clear m inlet := by
  obtain ⟨hoffers, hwhere⟩ := hsupplies
  cases k with
  | succ j =>
    obtain ⟨n, hn, rfl⟩ := hwhere
    exact (h.clear_of_piped hb hn).1
  | zero =>
    obtain ⟨number, rfl⟩ := hwhere
    unfold Clear
    cases hdrain : s.drain? with
    | some n => simp
    | none =>
      rintro n file ⟨⟩ hfile hsink
      obtain ⟨file', data, hfile', -, hnode, -⟩ := hoffers
      cases hfile.symm.trans hfile'
      exact hb.apart (hnode.symm.trans hsink)

theorem Supplies.avoids_source {pipes : List Nat} {rest : Bytes}
    (hsupplies : s.Supplies pipes m k inlet rest) : k = 0 ∨ m.Avoids inlet s.source := by
  obtain ⟨-, hwhere⟩ := hsupplies
  cases k with
  | zero => exact .inl rfl
  | succ i =>
    obtain ⟨n, -, rfl⟩ := hwhere
    exact .inr fun number file he => absurd he (by simp)

theorem Plugged.same {pipes : List Nat} {p p' : Process Report}
    (h : s.Plugged pipes k inlet outlet p) (hfit : s.Fit p') (hparent : p'.parent = p.parent)
    (hloaded : p'.loaded = p.loaded) (hdescriptors : p'.descriptors = p.descriptors) :
    s.Plugged pipes k inlet outlet p' :=
  ⟨hfit, hparent.trans h.parent, hloaded.trans h.loaded, h.runs, hdescriptors ▸ h.input,
    hdescriptors ▸ h.output, hdescriptors ▸ h.others, h.reads, h.before, h.behind, h.writes⟩

theorem Staged.reads (hb : s.Begins) (h : s.Staged ph left collected es m)
    (hq : (Event.startedBy s.pid es)[k]? = some q)
    (hway : Pipeline.Underway s.base s.stages s.Assembles s.machine s.pid
      (es ++ m.events (.turn q)) m') {p p' : Process Report}
    (hp : m.processes.get? q = some p) (hdeeds : m.deeds q p p.program = []) {seen : Bytes}
    (hphase : ph k = .reading inlet outlet seen) {rest : Bytes}
    (hsupplies : s.Supplies (Event.pipedBy s.pid es) m k inlet rest) (ht : Touches inlet m m₁)
    (htree : m₁.tree = m.tree) (hprocesses : m₁.processes = m.processes) (hm' : m' = m₁.update q p')
    {φ : Phase} (hφ : (∃ seen', φ = .reading inlet outlet seen') ∨ φ = .writing inlet outlet)
    (hat : s.At (Event.pipedBy s.pid es) collected k q φ (some p'))
    (hsupplied : s.Supplied
      (Function.update ph k φ) (Event.pipedBy s.pid es) (s.openedBy es) m' k) :
    s.Staged (Function.update ph k φ) left collected (es ++ m.events (.turn q)) m' := by
  have hemitted : s.emitted k φ = s.emitted k (ph k) := by
    rcases hφ with ⟨seen', rfl⟩ | rfl <;> simp [hphase, emitted]
  have ht' : Touches inlet m m' := hm' ▸ ht.update q p'
  have hdata : (m'.tree.node s.source).content = (m.tree.node s.source).content := by
    rw [hm']
    exact congrArg (fun tree => (tree.node s.source).content) htree
  have hsink := h.inlet_clear hb hsupplies
  refine h.kid hq hway hp hdeeds (hm' ▸ only_of_processes hprocesses) ?_ (h.flow.kid ht' hemitted
    (h.inlet_pipes hsupplies) hsupplies.avoids_source hdata (.inr hsink) hsupplied ?_)
  · rw [hm', Machine.get?_update_same]
    exact hat
  · rintro rfl
    refine ⟨?_, fun inlet' outlet' seen' hrunning => ?_, ?_⟩
    · rcases hφ with ⟨seen', rfl⟩ | rfl <;> simp [Phase.Early]
    · rw [Function.update_self] at hrunning
      have houtlet : outlet' = outlet := by
        rcases hφ with ⟨seen'', rfl⟩ | rfl <;> rcases hrunning with hrunning | hrunning <;>
          cases hrunning <;> rfl
      rw [houtlet]
      exact (h.flow.delivers.running inlet outlet seen (.inl hphase)).touches ht' hsink
    · rcases hφ with ⟨seen', rfl⟩ | rfl <;> simp [Phase.Late]

theorem Staged.seen_all (h : s.Staged ph left collected es m)
    (hsupplies : s.Supplies (Event.pipedBy s.pid es) m k inlet [])
    (hwriter : ∀ n, inlet = .readEnd n → m.hasWriter n = false) : s.arrived ph k = s.feed k := by
  obtain ⟨-, hwhere⟩ := hsupplies
  cases k with
  | zero => rfl
  | succ j =>
    obtain ⟨n, hn, hinlet⟩ := hwhere
    exact h.emitted_of_no_writer hn (hwriter n hinlet)

theorem length_arrived_le (s : Scene) (ph : Nat → Phase) (k : Nat) :
    (s.arrived ph k).length ≤ (s.feed k).length := by
  cases k with
  | zero => exact Nat.le_refl _
  | succ j =>
    simp only [arrived]
    cases hj : ph j with
    | leaving inlet outlet => exact Nat.le_refl _
    | ended => exact Nat.le_refl _
    | _ => exact Nat.zero_le _

theorem Staged.reading_turn (hb : s.Begins) (h : s.Staged ph left collected es m)
    (hq : (Event.startedBy s.pid es)[k]? = some q)
    (hway : Pipeline.Underway s.base s.stages s.Assembles s.machine s.pid (es ++ m.events (.turn q))
      m') {seen : Bytes} (hphase : ph k = .reading inlet outlet seen) (hstep : m.step q = some m') :
    ∃ φ, s.Staged (Function.update ph k φ) left collected (es ++ m.events (.turn q)) m' ∧
      s.rank k φ < s.rank k (ph k) := by
  have hat := h.people.children k q hq
  rw [hphase] at hat
  obtain ⟨p, hp, hplugged, hprogram⟩ := hat
  have hlive : p.isLive = true := Machine.isLive_iff.mpr hplugged.fit.lives
  have hdeeds : m.deeds q p p.program = [] := by rw [hprogram]; rfl
  obtain ⟨rest, hsupplies, hrest⟩ := (h.flow.supplied k).reading inlet outlet seen hphase
  have hbound := length_arrived_le s ph k
  rw [← hrest, List.length_append] at hbound
  have hfit := hplugged.fit
  rcases Machine.step_slurping hp hlive hprogram hplugged.input hsupplies.1 with ⟨-, -, hblocked⟩ |
    ⟨rfl, hwriter, m₁, fed, t, ht, htree, hprocesses, hseen, heq⟩ |
    ⟨m₁, fed, more, rest', rfl, hmore, ht, htree, hprocesses, hoffers, heq⟩
  · exact absurd (hblocked.symm.trans hstep) (by simp)
  · -- the end of the input
    have hall : seen = s.feed k := by
      rw [← h.seen_all hsupplies hwriter, ← hrest, List.append_nil]
    refine ⟨.writing inlet outlet, h.reads hb hq hway hp hdeeds hphase hsupplies ht htree hprocesses
      (Option.some.inj (hstep.symm.trans heq)) (.inr rfl)
      ⟨_, rfl, hplugged.same ⟨hfit.lives,
        hfit.calm, hfit.standing, hfit.complaints⟩ rfl rfl rfl, ?_⟩
      (supplied_of_not ?_ ?_), ?_⟩
    · show (Program.put Fd.output (s.tool k t.seen).1 >>= fun _ =>
          Program.exit (s.tool k t.seen).2) = _
      rw [hseen, hall]
    · simp [Phase.Early]
    · simp
    · rw [hphase]
      simp only [rank]
      omega
  · have hsupplies' : s.Supplies (Event.pipedBy s.pid es) m₁ k inlet rest' := ⟨hoffers, hsupplies.2⟩
    have hemitted : s.emitted k (.reading inlet outlet (seen ++ more)) = s.emitted k (ph k) := by
      simp [hphase, emitted]
    refine ⟨.reading inlet outlet (seen ++ more),
      h.reads hb hq hway hp hdeeds hphase hsupplies ht htree hprocesses
      (Option.some.inj (hstep.symm.trans heq)) (.inl ⟨_, rfl⟩)
      ⟨_, rfl, hplugged.same ⟨hfit.lives,
        hfit.calm, hfit.standing, hfit.complaints⟩ rfl rfl rfl, rfl⟩
      ⟨?_, ?_⟩, ?_⟩
    · simp [Phase.Early]
    · intro inlet' outlet' seen' hreading
      rw [Function.update_self] at hreading
      cases hreading
      rw [arrived_update hemitted, ← hrest]
      cases heq.symm.trans hstep
      exact ⟨rest', hsupplies', List.append_assoc _ _ _⟩
    · have hpositive := List.length_pos_iff.mpr hmore
      simp only [List.length_append] at hbound
      rw [hphase]
      simp only [rank, List.length_append]
      omega

theorem feed_succ (hfate : s.fate k = none) :
    s.feed (k + 1) = (s.tool k (s.feed k)).1 := by simp [feed, effect, hfate]

theorem Staged.supplies_next (h : s.Staged ph left collected es m)
    (hphase : ph k = .writing inlet outlet) {p : Process Report}
    (hplugged : s.Plugged (Event.pipedBy s.pid es) k inlet outlet p) {r : Except Errno Nat}
    (hwrite : m.writeTo p Fd.output (s.tool k (s.feed k)).1 = .answer r m₁) :
    s.Supplied (Function.update ph k (.leaving inlet outlet)) (Event.pipedBy s.pid es)
      (s.openedBy es) m₁ (k + 1) := by
  have harrived : s.arrived ph (k + 1) = [] := by simp [arrived, hphase, emitted]
  have harrived' : s.arrived (Function.update ph k (.leaving inlet outlet)) (k + 1) =
      (s.tool k (s.feed k)).1 := by
    simp only [arrived, Function.update_self, emitted]
    exact feed_succ hplugged.runs
  have hnext : Function.update ph k (.leaving inlet outlet) (k + 1) = ph (k + 1) :=
    Function.update_of_ne (Nat.succ_ne_self k) _ _
  -- what is in the pipe now, if somebody is going to read it
  have hpiped {y : Handle} (hfate : s.fate (k + 1) = none)
      (hreads : (ph (k + 1)).Early ∨ ∃ inlet outlet seen, ph (k + 1) = .reading inlet outlet seen)
      (hsupplies : s.Supplies (Event.pipedBy s.pid es) m (k + 1) y []) :
      s.Supplies (Event.pipedBy s.pid es) m₁ (k + 1) y (s.tool k (s.feed k)).1 := by
    obtain ⟨hoffers, n, hn, rfl⟩ := hsupplies
    obtain ⟨pipe, hpipe, hempty⟩ := hoffers
    have houtput : p.descriptors.get? Fd.output = some (.writeEnd n) :=
      hplugged.output.trans (congrArg some (hplugged.behind n hn))
    obtain ⟨pipe', hpipe', hcontent⟩ := Machine.writeTo_pipe houtput h.flow.steady.unbounded hpipe
      (h.has_reader hn hfate hreads) hwrite
    rw [hempty, List.nil_append] at hcontent
    exact ⟨⟨pipe', hpipe', hcontent⟩, n, hn, rfl⟩
  have hsupplied := h.flow.supplied (k + 1)
  constructor
  · intro hfate hearly y hy
    rw [hnext] at hearly
    rw [harrived']
    have hsupplies := hsupplied.early hfate hearly y hy
    rw [harrived] at hsupplies
    exact hpiped hfate (.inl hearly) hsupplies
  · intro inlet' outlet' seen hreading
    rw [hnext] at hreading
    rw [harrived']
    obtain ⟨q', hq'⟩ := h.started (k := k + 1) (by simp [hreading])
    have hat := h.people.children _ q' hq'
    rw [hreading] at hat
    obtain ⟨p', -, hplugged', -⟩ := hat
    obtain ⟨rest, hsupplies, hrest⟩ := hsupplied.reading inlet' outlet' seen hreading
    rw [harrived, List.append_eq_nil_iff] at hrest
    obtain ⟨rfl, rfl⟩ := hrest
    exact ⟨_, hpiped hplugged'.runs (.inr ⟨_, _, _, hreading⟩) hsupplies, List.nil_append _⟩

theorem Staged.receiving_apart (hb : s.Begins) (h : s.Staged ph left collected es m)
    (hreceiving : s.Receiving m outlet) : m.Avoids outlet s.source ∧
      ∀ i n : Nat, (Event.pipedBy s.pid es)[i]? = some n →
        outlet ≠ .readEnd n ∧ outlet ≠ .writeEnd n := by
  unfold Receiving at hreceiving
  cases hdrain : s.drain? with
  | none =>
    simp only [hdrain] at hreceiving
    obtain ⟨number, file, _, rfl, hfile, -, hsink, -⟩ := hreceiving
    refine ⟨?_, by simp⟩
    rintro _ file' ⟨⟩ hfile' hsource
    cases hfile.symm.trans hfile'
    exact hb.apart (hsource.symm.trans hsink)
  | some n =>
    simp only [hdrain] at hreceiving
    obtain ⟨rfl, -⟩ := hreceiving
    refine ⟨fun number file he => (by cases he), fun i n' hn' => ⟨by simp, ?_⟩⟩
    rintro ⟨⟩
    exact h.drain_apart hb hdrain hn'

theorem Staged.outlet_avoids (hb : s.Begins) (h : s.Staged ph left collected es m)
    (hq : (Event.startedBy s.pid es)[k]? = some q) (hphase : ph k = .writing inlet outlet)
    {p : Process Report} (hplugged : s.Plugged (Event.pipedBy s.pid es) k inlet outlet p) :
    m.Avoids outlet s.source ∧ (k = s.last ∨ s.Clear m outlet) := by
  by_cases hk : k = s.last
  · subst hk
    exact ⟨(h.receiving_apart hb (h.flow.delivers.running inlet outlet [] (.inr hphase))).1,
      .inl rfl⟩
  · obtain ⟨n, hn⟩ := h.pipe_behind hq hk
    obtain rfl := hplugged.behind n hn
    exact ⟨fun number file he => (by cases he), .inr (h.clear_of_piped hb hn).2⟩

theorem Staged.gathers_written (hb : s.Begins) (h : s.Staged ph left collected es m)
    {p : Process Report} (houtput : p.descriptors.get? Fd.output = some outlet)
    (hreceiving : s.Receiving m outlet) {data : Bytes}
    {r : Except Errno Nat} (hwrite : m.writeTo p Fd.output data = .answer r m₁) :
    s.Gathers m₁ (s.already ++ data) := by
  unfold Receiving at hreceiving
  unfold Gathers
  cases hdrain : s.drain? with
  | none =>
    simp only [hdrain] at hreceiving ⊢
    exact Machine.writeTo_receives houtput hreceiving hwrite
  | some n =>
    simp only [hdrain] at hreceiving ⊢
    obtain ⟨rfl, pipe, hpipe, hcontent⟩ := hreceiving
    rw [← hcontent]
    exact Machine.writeTo_pipe houtput h.flow.steady.unbounded hpipe
      (h.drain_reader hb hdrain) hwrite

theorem Staged.writing_turn (hb : s.Begins) (h : s.Staged ph left collected es m)
    (hq : (Event.startedBy s.pid es)[k]? = some q)
    (hway : Pipeline.Underway s.base s.stages s.Assembles s.machine s.pid (es ++
      m.events (.turn q)) m') (hphase : ph k = .writing inlet outlet) (hstep : m.step q = some m') :
    ∃ φ, s.Staged (Function.update ph k φ) left collected (es ++ m.events (.turn q)) m' ∧
      s.rank k φ < s.rank k (ph k) := by
  have hat := h.people.children k q hq
  rw [hphase] at hat
  obtain ⟨p, hp, hplugged, hprogram⟩ := hat
  have hfit := hplugged.fit
  have hlive : p.isLive = true := Machine.isLive_iff.mpr hfit.lives
  have hdeeds : m.deeds q p p.program = [] := by rw [hprogram]; rfl
  obtain ⟨r, m₁, reply, hwrite, hprocesses, heq⟩ := Machine.step_write_whole hp hlive hprogram
    h.flow.steady.unbounded hfit.calm.2 (hfit.ignored ▸ hb.ignores)
  have hm' := Option.some.inj (hstep.symm.trans heq)
  have ht : Touches outlet m m₁ := by
    have hkeeps := Machine.writeTo_touches (m := m) hplugged.output (s.tool k (s.feed k)).1
    rw [hwrite] at hkeeps
    exact hkeeps
  have ht' : Touches outlet m m' := hm' ▸ ht.update q _
  obtain ⟨hsource, hsink⟩ := h.outlet_avoids hb hq hphase hplugged
  -- only the stage behind this one comes to know of it
  have harrived (j : Nat) (hj : j ≠ k + 1) :
      s.arrived (Function.update ph k (.leaving inlet outlet)) j = s.arrived ph j := by
    cases j with
    | zero => rfl
    | succ i =>
      have hi : i ≠ k := fun he => hj (congrArg (· + 1) he)
      simp only [arrived, Function.update_of_ne hi]
  have hpipes (i n : Nat) (hi : i ≠ k) (hn : (Event.pipedBy s.pid es)[i]? = some n) :
      outlet ≠ .readEnd n ∧ outlet ≠ .writeEnd n := by
    by_cases hk : k = s.last
    · subst hk
      exact (h.receiving_apart hb (h.flow.delivers.running inlet outlet [] (.inr hphase))).2 i n hn
    · obtain ⟨n', hn'⟩ := h.pipe_behind hq hk
      obtain rfl := hplugged.behind n' hn'
      refine ⟨by simp, ?_⟩
      rintro ⟨⟩
      exact hi ((List.getElem?_inj (List.getElem?_eq_some_iff.mp hn).1 h.way.distinct).mp
        (hn.trans hn'.symm))
  refine ⟨.leaving inlet outlet, h.kid hq hway hp hdeeds (hm' ▸ only_of_processes hprocesses) ?_
    ⟨?_, fun j => ?_, ?_⟩, ?_⟩
  · rw [hm', Machine.get?_update_same]
    exact ⟨_, rfl, hplugged.same ⟨hfit.lives, ⟨hfit.calm.1, rfl⟩, hfit.standing,
      hfit.complaints⟩ rfl rfl rfl, rfl⟩
  · exact h.flow.steady.touches ht' (ht'.content hsource)
  · by_cases hj : j = k
    · subst hj
      exact supplied_of_not (by simp [Phase.Early]) (by simp)
    · by_cases hj' : j = k + 1
      · subst hj'
        obtain ⟨hearly, hreading⟩ := h.supplies_next hphase hplugged hwrite
        rw [hm']
        exact ⟨hearly, hreading⟩
      · refine (h.flow.supplied j).transfer (.inl (Function.update_of_ne hj _ _)) (harrived j hj')
          (fun _ hy => hy) fun y rest hy => hy.touches ht' ?_ fun _ => hsource
        rintro i n rfl hn
        exact hpipes i n (fun he => hj' (congrArg (· + 1) he)) hn
  · by_cases hk : k = s.last
    · subst hk
      refine ⟨by simp [Phase.Early], by simp, fun _ _ => ?_⟩
      have hreceiving := h.flow.delivers.running inlet outlet [] (.inr hphase)
      have hgathers := h.gathers_written hb hplugged.output hreceiving hwrite
      rw [hm', feed_succ hplugged.runs]
      exact hgathers
    · have hclear := hsink.resolve_left hk
      exact h.flow.delivers.transfer (.inl (Function.update_of_ne (Ne.symm hk) _ _)) (fun _ hy =>
        hy) (fun _ hy => hy.touches ht' hclear) (fun _ hdata => hdata.touches ht' hclear)
  · rw [hphase]
    simp [rank]

theorem Staged.leaving_turn (hb : s.Begins) (h : s.Staged ph left collected es m)
    (hq : (Event.startedBy s.pid es)[k]? = some q)
    (hway : Pipeline.Underway s.base s.stages s.Assembles s.machine s.pid (es ++
      m.events (.turn q)) m') (hphase : ph k = .leaving inlet outlet) (hstep : m.step q = some m') :
    ∃ φ, s.Staged (Function.update ph k φ) left collected (es ++ m.events (.turn q)) m' ∧
      s.rank k φ < s.rank k (ph k) := by
  have hat := h.people.children k q hq
  rw [hphase] at hat
  obtain ⟨p, hp, hplugged, hprogram⟩ := hat
  have hlive : p.isLive = true := Machine.isLive_iff.mpr hplugged.fit.lives
  have hdeeds : m.deeds q p p.program = [] := by rw [hprogram]; rfl
  have hcode : s.code k = (s.tool k (s.feed k)).2 := by simp [Scene.code, effect, hplugged.runs]
  have heq := Machine.step_exit hp hlive hprogram
  refine ⟨.ended, h.ends hb hq hway hp hdeeds hplugged.parent ?_ ?_ ?_, ?_⟩
  · simp [hphase, emitted]
  · rintro rfl hdone
    exact h.flow.delivers.late (by simp [hphase, Phase.Late]) hdone
  · rw [hcode]
    exact Option.some.inj (hstep.symm.trans heq)
  · rw [hphase]
    simp [rank]

/-- Every step of a stage's process brings the stage nearer to its end. -/
theorem Staged.kid_turn (hb : s.Begins) (h : s.Staged ph left collected es m)
    (hq : (Event.startedBy s.pid es)[k]? = some q)
    (hway : Pipeline.Underway
      s.base s.stages s.Assembles s.machine s.pid (es ++ m.events (.turn q)) m')
    (hmeets : ∀ p, m.processes.get? q = some p → p.ending? = none → p.loaded = false →
      s.Meets k q p m) (hstep : m.step q = some m') :
    ∃ φ, s.Staged (Function.update ph k φ) left collected (es ++ m.events (.turn q)) m' ∧
      s.rank k φ < s.rank k (ph k) := by
  have hat := h.people.children k q hq
  obtain ⟨p, hp, hlive, -⟩ := Machine.step_live (show m.move (.turn q) = some m' from hstep)
  cases hphase : ph k with
  | pending =>
    rw [hphase] at hat
    exact hat.elim
  | wiring n =>
    rw [← hphase]
    obtain ⟨p₁, -, hp₁, -, -, hloaded, -⟩ := h.wiring hq hphase
    cases hp.symm.trans hp₁
    exact h.wiring_turn hb hq hway hp (hmeets p hp hlive hloaded) hphase hstep
  | reading inlet outlet seen =>
    rw [← hphase]
    exact h.reading_turn hb hq hway hphase hstep
  | writing inlet outlet =>
    rw [← hphase]
    exact h.writing_turn hb hq hway hphase hstep
  | leaving inlet outlet =>
    rw [← hphase]
    exact h.leaving_turn hb hq hway hphase hstep
  | ended =>
    rw [hphase] at hat
    rcases hat with ⟨-, hnone⟩ | ⟨p₁, hp₁, -, hend, -⟩
    · exact absurd (hnone.symm.trans hp) (by simp)
    · cases hp.symm.trans hp₁
      exact absurd (hlive.symm.trans hend) (by simp)

end

end PipeShell.Scene
