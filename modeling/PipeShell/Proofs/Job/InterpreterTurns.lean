import PipeShell.Proofs.Job.Turns

/-!
Every step of the interpreter keeps what holds throughout a performance. It makes a pipe that nobody
has written to, starts a stage that has made no step yet, collects a stage that is over, or does
nothing that a stage could notice.
-/

set_option autoImplicit false
set_option relaxedAutoImplicit false

namespace PipeShell.Scene

open Machine (Touches)
open Pipeline (pipeBefore Apart)

section

variable {s : Scene} {ph : Nat → Phase} {left : Nat} {collected : List Pid} {es : List Event}
  {m m' : Machine Report} {k : Nat} {q : Pid} {φ : Phase} {pipes : List Nat}

theorem Staged.interprets (h : s.Staged ph left collected es m) :
    ∃ p, m.processes.get? s.pid = some p ∧ s.Fit p ∧
      p.program.Honours (Pipeline.contract s.base s.stages) s.Assembles
        ⟨p.descriptors.get?, Event.pipedBy s.pid es, Event.startedBy s.pid es⟩ ∧
      p.program.Honours (Pipeline.conduct s.stages.length (s.code s.last)) s.Concludes
        ⟨Event.startedBy s.pid es, collected, left⟩ := by
  obtain ⟨p, hp, hfit, hconduct⟩ := h.people.interpreter
  exact ⟨p, hp, hfit, (h.way.interpreter p hp hfit.lives.1).honours, hconduct⟩

theorem Plugged.extend {pipes' : List Nat} {inlet outlet : Handle} {p : Process Report}
    (h : s.Plugged pipes k inlet outlet p) (hbefore : pipeBefore pipes' k = pipeBefore pipes k)
    (hbehind : pipes'[k]? = pipes[k]?) : s.Plugged pipes' k inlet outlet p :=
  ⟨h.fit, h.parent, h.loaded, h.runs, h.input, h.output, h.others, h.reads, hbefore ▸ h.before,
    hbehind ▸ h.behind, hbehind ▸ h.writes⟩

theorem At.extend {pipes' : List Nat} {collected' : List Pid} {p? : Option (Process Report)}
    (h : s.At pipes collected k q φ p?) (hbefore : pipeBefore pipes' k = pipeBefore pipes k)
    (hbehind : pipes'[k]? = pipes[k]?) (hcollected : ∀ c ∈ collected, c ∈ collected') :
    s.At pipes' collected' k q φ p? := by
  cases φ with
  | pending => exact h
  | wiring n => exact h
  | reading inlet outlet seen =>
    obtain ⟨p, hp, hplugged, hprogram⟩ := h
    exact ⟨p, hp, hplugged.extend hbefore hbehind, hprogram⟩
  | writing inlet outlet =>
    obtain ⟨p, hp, hplugged, hprogram⟩ := h
    exact ⟨p, hp, hplugged.extend hbefore hbehind, hprogram⟩
  | leaving inlet outlet =>
    obtain ⟨p, hp, hplugged, hprogram⟩ := h
    exact ⟨p, hp, hplugged.extend hbefore hbehind, hprogram⟩
  | ended =>
    rcases h with ⟨hq, hnone⟩ | hend
    · exact .inl ⟨hcollected q hq, hnone⟩
    · exact .inr hend

theorem Staged.openedBy_own (h : s.Staged ph left collected es m) {started : List Pid}
    (hstarted : Event.startedBy s.pid (m.events (.turn s.pid)) = started)
    (hnew : ∀ q ∈ started, Event.preparations q (es ++ m.events (.turn s.pid)) = []) :
    s.openedBy (es ++ m.events (.turn s.pid)) = s.openedBy es := by
  funext j
  unfold openedBy
  rw [Event.startedBy_append, hstarted]
  by_cases hj : j < (Event.startedBy s.pid es).length
  · rw [List.getElem?_append_left hj, List.getElem?_eq_getElem hj]
    have hne : (Move.turn s.pid).actor? ≠ some (Event.startedBy s.pid es)[j] := by
      intro he
      exact h.child_ne (List.getElem?_eq_getElem hj) (Option.some.inj he).symm
    rw [Option.map_some, Option.map_some, Event.preparations_append,
      Stage.preparations_of_ne hne, List.append_nil]
  · rw [List.getElem?_append_right (Nat.not_lt.mp hj), List.getElem?_eq_none (Nat.not_lt.mp hj)]
    cases hq : started[j - (Event.startedBy s.pid es).length]? with
    | none => rfl
    | some q => exact hnew q (List.mem_of_getElem? hq)

theorem Staged.still_gone (h : s.Staged ph left collected es m)
    (hsame : ∀ r, r ≠ s.pid → m'.processes.get? r = m.processes.get? r) :
    ∀ c ∈ collected, c ∈ Event.startedBy s.pid es ∧ m'.processes.get? c = none := by
  intro c hc
  obtain ⟨hkid, hnone⟩ := h.people.gone c hc
  have hne : c ≠ s.pid := fun he => (List.nodup_cons.mp h.way.numbered.1).1 (he ▸ hkid)
  exact ⟨hkid, (hsame c hne).trans hnone⟩

theorem Staged.quiet (h : s.Staged ph left collected es m)
    (hway : Pipeline.Underway s.base s.stages s.Assembles s.machine s.pid (es ++
      m.events (.turn s.pid)) m') (hpiped : Event.pipedBy s.pid (m.events (.turn s.pid)) = [])
    (hstarted : Event.startedBy s.pid (m.events (.turn s.pid)) = [])
    {left' : Nat} {collected' : List Pid}
    (hinterpreter : ∃ p, m'.processes.get? s.pid = some p ∧ s.Fit p ∧
      p.program.Honours (Pipeline.conduct s.stages.length (s.code s.last)) s.Concludes
        ⟨Event.startedBy s.pid es, collected', left'⟩)
    (hchildren : ∀ k q, (Event.startedBy s.pid es)[k]? = some q →
      s.At (Event.pipedBy s.pid es) collected' k q (ph k) (m'.processes.get? q))
    (hothers : ∀ r, r ≠ s.pid →
      r ∉ Event.startedBy s.pid es → m'.processes.get? r = m.processes.get? r)
    (hgone : ∀ c ∈ collected', c ∈ Event.startedBy s.pid es ∧ m'.processes.get? c = none)
    (hflow : s.Flowing ph (Event.pipedBy s.pid es) (s.openedBy es) m') :
    s.Staged ph left' collected' (es ++ m.events (.turn s.pid)) m' := by
  have hpipes : Event.pipedBy s.pid (es ++ m.events (.turn s.pid)) =
      Event.pipedBy s.pid es := by simp [hpiped]
  have hkids : Event.startedBy s.pid (es ++ m.events (.turn s.pid)) =
      Event.startedBy s.pid es := by simp [hstarted]
  refine ⟨hway, ?_, ?_⟩
  · rw [hpipes, hkids]
    refine ⟨hinterpreter, hchildren, h.people.pending, fun r p hr hout hp => ?_,
      fun r p hr hp => ?_, hgone⟩
    · exact h.people.others r p hr hout (hothers r hr hout ▸ hp)
    · obtain ⟨hout, p', hp', hdescriptors⟩ := h.people.bystanders r p hr hp
      exact ⟨hout, p', (hothers r hr hout).trans hp', hdescriptors⟩
  · rw [hpipes, h.openedBy_own hstarted (by simp)]
    exact hflow

theorem Staged.alone (h : s.Staged ph left collected es m)
    (hway : Pipeline.Underway s.base s.stages s.Assembles s.machine s.pid
      (es ++ m.events (.turn s.pid)) m') {p : Process Report}
    (hp : m.processes.get? s.pid = some p) (hdeeds : m.deeds s.pid p p.program = [])
    {m₁ : Machine Report} {p' : Process Report} (hm' : m' = m₁.update s.pid p')
    (hprocesses : m₁.processes = m.processes) (hfit : s.Fit p') {left' : Nat}
    (hconduct : p'.program.Honours (Pipeline.conduct s.stages.length (s.code s.last)) s.Concludes
      ⟨Event.startedBy s.pid es, collected, left'⟩)
    (hflow : s.Flowing ph (Event.pipedBy s.pid es) (s.openedBy es) m') :
    s.Staged ph left' collected (es ++ m.events (.turn s.pid)) m' := by
  have hevents : m.events (.turn s.pid) = [] := by rw [Machine.events_turn hp, hdeeds, List.map_nil]
  have hsame (r : Pid) (hr : r ≠ s.pid) : m'.processes.get? r = m.processes.get? r := by
    rw [hm', Machine.get?_update_of_ne m₁ p' hr, hprocesses]
  refine h.quiet hway (by rw [hevents]; rfl) (by rw [hevents]; rfl) ⟨p', ?_, hfit, hconduct⟩
    (fun j r hr => ?_) (fun r hr _ => hsame r hr) (h.still_gone hsame) hflow
  · rw [hm', Machine.get?_update_same]
  · rw [hsame r (h.child_ne hr)]
    exact h.people.children j r hr

theorem Begins.room_left (hb : s.Begins) {before : Option Joint} {w : Wires}
    (hw : w = Joint.plug s.base before) :
    ∃ a b, a ≠ b ∧ (a < s.process.limit ∧ w a = none) ∧ (b < s.process.limit ∧ w b = none) := by
  obtain ⟨free, hnodup, hlength, hfree⟩ := hb.room
  subst hw
  -- two of the four free descriptors are not those of the pipe
  obtain ⟨rest, hrest, hlong, hleft⟩ : ∃ rest : List Fd, rest.Nodup ∧ 2 ≤ rest.length ∧
      ∀ fd ∈ rest, fd < s.process.limit ∧ Joint.plug s.base before fd = none := by
    cases before with
    | none => exact ⟨free, hnodup, by omega, hfree⟩
    | some j =>
      refine ⟨(free.erase j.link.readEnd).erase j.link.writeEnd, (hnodup.erase _).erase _,
        ?_, fun fd hfd => ?_⟩
      · rw [List.length_erase, List.length_erase]
        split <;> split <;> omega
      · obtain ⟨hwrite, hfd⟩ := ((hnodup.erase _).mem_erase_iff).mp hfd
        obtain ⟨hread, hfd⟩ := (hnodup.mem_erase_iff).mp hfd
        obtain ⟨hlimit, hnone⟩ := hfree fd hfd
        refine ⟨hlimit, ?_⟩
        rw [Joint.plug, Function.update_of_ne hwrite, Function.update_of_ne hread, hnone]
  have h0 : 0 < rest.length := by omega
  have h1 : 1 < rest.length := by omega
  refine ⟨rest[0], rest[1], fun he => ?_, hleft _ (List.getElem_mem h0),
    hleft _ (List.getElem_mem h1)⟩
  exact absurd ((hrest.getElem_inj_iff).mp he) (by simp)

theorem Supplies.withPipe {y : Handle} {rest : Bytes} (h : s.Supplies pipes m k y rest)
    {p : Process Report} {readFd writeFd : Fd} :
    s.Supplies (pipes ++ [m.pipes.next]) (m.withPipe q p readFd writeFd) k y rest := by
  obtain ⟨hoffers, hwhere⟩ := h
  constructor
  · cases y with
    | writeEnd n => exact hoffers
    | file n => exact hoffers
    | readEnd n =>
      obtain ⟨pipe, hpipe, hcontent⟩ := hoffers
      exact ⟨pipe, Machine.get?_withPipe hpipe, hcontent⟩
  · cases k with
    | zero => exact hwhere
    | succ j =>
      obtain ⟨n, hn, hy⟩ := hwhere
      exact ⟨n, (List.getElem?_append_left (List.getElem?_eq_some_iff.mp hn).1).trans hn, hy⟩

theorem Gathers.withPipe {data : Bytes} (h : s.Gathers m data) {p : Process Report}
    {readFd writeFd : Fd} : s.Gathers (m.withPipe q p readFd writeFd) data := by
  unfold Gathers at h ⊢
  cases hdrain : s.drain? with
  | none =>
    simp only [hdrain] at h ⊢
    exact h
  | some n =>
    simp only [hdrain] at h ⊢
    obtain ⟨pipe, hpipe, hcontent⟩ := h
    exact ⟨pipe, Machine.get?_withPipe hpipe, hcontent⟩

theorem Receiving.withPipe {y : Handle} (h : s.Receiving m y) {p : Process Report}
    {readFd writeFd : Fd} : s.Receiving (m.withPipe q p readFd writeFd) y := by
  unfold Receiving at h ⊢
  cases hdrain : s.drain? with
  | none =>
    simp only [hdrain] at h ⊢
    exact h
  | some n =>
    simp only [hdrain] at h ⊢
    obtain ⟨hy, pipe, hpipe, hcontent⟩ := h
    exact ⟨hy, pipe, Machine.get?_withPipe hpipe, hcontent⟩

theorem Flowing.withPipe {opened : Nat → List Opening} (h : s.Flowing ph pipes opened m)
    (hpending : ∀ j, pipes.length ≤ j → ph j = .pending) {p : Process Report}
    {readFd writeFd : Fd} :
    s.Flowing ph (pipes ++ [m.pipes.next]) opened (m.withPipe q p readFd writeFd) := by
  obtain ⟨⟨hunbounded, hdata, hcomplaints⟩, hsupplied, ⟨hearly, hrunning, hlate⟩⟩ := h
  refine ⟨⟨hunbounded, hdata, hcomplaints⟩, fun j => ⟨fun hfate hj y hy => ?_,
    fun inlet outlet seen hreading => ?_⟩, ⟨fun hlast y hy => (hearly hlast y hy).withPipe,
      fun inlet outlet seen hlast => (hrunning inlet outlet seen hlast).withPipe,
      fun hlast hdone => (hlate hlast hdone).withPipe⟩⟩
  · cases j with
    | zero => exact ((hsupplied 0).early hfate hj y hy).withPipe
    | succ i =>
      obtain ⟨n, hn, rfl⟩ := hy
      rcases Pipeline.getElem?_concat_cases hn with hn' | ⟨rfl, rfl⟩
      · exact ((hsupplied (i + 1)).early hfate hj _ ⟨n, hn', rfl⟩).withPipe
      · have harrived : s.arrived ph (pipes.length + 1) = [] := by
          simp only [arrived, hpending _ (Nat.le_refl _), emitted]
        rw [harrived]
        exact ⟨⟨{}, Table.get?_set_same _ _ _, rfl⟩, _, hn, rfl⟩
  · obtain ⟨rest, hsupplies, hrest⟩ := (hsupplied j).reading inlet outlet seen hreading
    exact ⟨rest, hsupplies.withPipe, hrest⟩

theorem Staged.pipe_turn (hb : s.Begins) (h : s.Staged ph left collected es m)
    (hway : Pipeline.Underway
      s.base s.stages s.Assembles s.machine s.pid (es ++ m.events (.turn s.pid)) m')
    {p : Process Report} (hp : m.processes.get? s.pid = some p) (hfit : s.Fit p)
    (hcontract : p.program.Honours (Pipeline.contract s.base s.stages) s.Assembles
      ⟨p.descriptors.get?, Event.pipedBy s.pid es, Event.startedBy s.pid es⟩)
    (hconduct : p.program.Honours (Pipeline.conduct s.stages.length (s.code s.last)) s.Concludes
      ⟨Event.startedBy s.pid es, collected, left⟩) {next : Except Errno (Fd × Fd) → Program Report}
    (hprogram : p.program = .call .pipe next) (hstep : m.step s.pid = some m') :
    ∃ left', left = left' + 1 ∧ s.Staged ph left' collected (es ++ m.events (.turn s.pid)) m' := by
  have hlive : p.isLive = true := Machine.isLive_iff.mpr hfit.lives
  have hevents := Machine.events_turn hp
  rw [hprogram] at hcontract hconduct hevents
  obtain ⟨⟨hmore, before, -, hwires⟩, -⟩ := hcontract
  obtain ⟨⟨hpositive, -⟩, hgo⟩ := hconduct
  have hwires : p.descriptors.get? = Joint.plug s.base before := hwires
  obtain ⟨a, b, hne, ⟨ha, hfree⟩, hlimit, hfree'⟩ := hb.room_left hwires
  have hcount : left = (left - 1) + 1 := by
    have hpositive : 0 < left := hpositive
    omega
  refine ⟨left - 1, hcount, ?_⟩
  rcases Machine.step_pipe hp hlive hprogram with ⟨readFd, writeFd, hread, hwrite, -,
    hmade, heq⟩ | ⟨hmade, -⟩
  · cases heq.symm.trans hstep
    obtain ⟨x, hx, -⟩ := h.complaints hb
    have hcomplaints : p.descriptors.get? Fd.complaints = some x := hfit.complaints.trans hx
    have hapart : Apart (some ⟨readFd, writeFd⟩) := by
      rintro link ⟨⟩
      constructor <;> rintro rfl
      · exact absurd (hread.symm.trans hcomplaints) (by simp)
      · exact absurd (hwrite.symm.trans hcomplaints) (by simp)
    have hdeeds : m.deeds s.pid p (.call .pipe next) = [.piped m.pipes.next] := by
      simp only [Machine.deeds, hmade]
    rw [hdeeds] at hevents
    have hpiped : Event.pipedBy s.pid (m.events (.turn s.pid)) = [m.pipes.next] := by
      simp [hevents, Event.pipedBy, Event.deedsOf]
    have hstarted : Event.startedBy s.pid (m.events (.turn s.pid)) = [] := by
      simp [hevents, Event.startedBy, Event.deedsOf]
    have hcounted := h.way.counted.2.2
    have hlength : (Event.pipedBy s.pid es).length + 1 < s.stages.length := hmore
    have hkids : (Event.startedBy s.pid es).length ≤ (Event.pipedBy s.pid es).length := by omega
    have hsame (r : Pid) (hr : r ≠ s.pid) :
        (m.withPipe s.pid { p with
          program := next (.ok (readFd, writeFd)) } readFd writeFd).processes.get? r =
          m.processes.get? r := Table.get?_set_of_ne _ _ hr
    refine ⟨hway, ?_, ?_⟩
    · rw [Event.pipedBy_append, Event.startedBy_append, hpiped, hstarted, List.append_nil]
      refine ⟨⟨_, Machine.get?_update_same _ _ _, ?_, ?_⟩, fun j r hr => ?_, h.people.pending,
        fun r p' hr hout hp' => ?_, fun r p₀ hr hp₀ => ?_, h.still_gone hsame⟩
      · refine ⟨hfit.lives, hfit.calm, hfit.standing, ?_⟩
        obtain ⟨hread', hwrite'⟩ := hapart _ rfl
        rw [← hfit.complaints]
        exact (Table.get?_set_of_ne _ _ (Ne.symm hwrite')).trans
          (Table.get?_set_of_ne _ _ (Ne.symm hread'))
      · exact hgo (.ok (readFd, writeFd)) ⟨Event.startedBy s.pid es, collected, left - 1⟩
          ⟨hcount, rfl, hapart, rfl⟩
      · have hj : j < (Event.pipedBy s.pid es).length :=
          Nat.lt_of_lt_of_le (List.getElem?_eq_some_iff.mp hr).1 hkids
        rw [hsame r (h.child_ne hr)]
        refine (h.people.children j r hr).extend ?_ (List.getElem?_append_left hj) fun _ hc => hc
        cases j with
        | zero => rfl
        | succ i => exact List.getElem?_append_left (Nat.lt_of_succ_lt hj)
      · exact h.people.others r p' hr hout (hsame r hr ▸ hp')
      · obtain ⟨hout, p', hp', hdescriptors⟩ := h.people.bystanders r p₀ hr hp₀
        exact ⟨hout, p', (hsame r hr).trans hp', hdescriptors⟩
    · rw [Event.pipedBy_append, hpiped, h.openedBy_own hstarted (by simp)]
      exact h.flow.withPipe fun j hj => h.people.pending j (Nat.le_trans hkids hj)
  · exact absurd hmade
      (Machine.makePipe_ok hne (hfit.limit ▸ ha) (hfit.limit ▸ hlimit) hfree hfree')

theorem At.present (h : s.At pipes collected k q φ (m.processes.get? q)) (hq : q ∉ collected) :
    ∃ p, m.processes.get? q = some p ∧ p.parent = s.pid ∧
      (p.ending? = none ∨ φ = .ended ∧ p.ending? = some (.exited (s.code k))) := by
  cases φ with
  | pending => exact h.elim
  | wiring n =>
    obtain ⟨p, _, hp, hfit, hparent, -⟩ := h
    exact ⟨p, hp, hparent, .inl hfit.lives.1⟩
  | reading inlet outlet seen =>
    obtain ⟨p, hp, hplugged, -⟩ := h
    exact ⟨p, hp, hplugged.parent, .inl hplugged.fit.lives.1⟩
  | writing inlet outlet =>
    obtain ⟨p, hp, hplugged, -⟩ := h
    exact ⟨p, hp, hplugged.parent, .inl hplugged.fit.lives.1⟩
  | leaving inlet outlet =>
    obtain ⟨p, hp, hplugged, -⟩ := h
    exact ⟨p, hp, hplugged.parent, .inl hplugged.fit.lives.1⟩
  | ended =>
    rcases h with ⟨hmem, -⟩ | ⟨p, hp, hparent, hend, -⟩
    · exact absurd hmem hq
    · exact ⟨p, hp, hparent, .inr ⟨rfl, hend⟩⟩

private theorem Staged.last_of_getLast? (h : s.Staged ph left collected es m)
    (hall : (Event.startedBy s.pid es).length = s.stages.length)
    (hk : (Event.startedBy s.pid es)[k]? = some q)
    (hlast : (Event.startedBy s.pid es).getLast? = some q) : k = s.last := by
  rw [List.getLast?_eq_getElem?, hall] at hlast
  exact h.place_unique hk hlast

private theorem Staged.collects (h : s.Staged ph left collected es m)
    (hway : Pipeline.Underway s.base s.stages s.Assembles s.machine s.pid
      (es ++ m.events (.turn s.pid)) m') (hq : (Event.startedBy s.pid es)[k]? = some q)
    (hover : ph k = .ended) {p : Process Report} {e : Ending} {loaded : Bool} {left' : Nat}
    (hevents : m.events (.turn s.pid) = [⟨s.pid, loaded, .collected q e⟩]) (hfit : s.Fit p)
    (hm' : m' = m.withoutChild s.pid p q)
    (hflow : s.Flowing ph (Event.pipedBy s.pid es) (s.openedBy es) m')
    (hconduct : p.program.Honours (Pipeline.conduct s.stages.length (s.code s.last)) s.Concludes
      ⟨Event.startedBy s.pid es, collected ++ [q], left'⟩) :
    s.Staged ph left' (collected ++ [q]) (es ++ m.events (.turn s.pid)) m' := by
  have hmem := List.mem_of_getElem? hq
  have hgone : m'.processes.get? q = none := hm' ▸ Machine.get?_withoutChild_same (h.child_ne hq)
  have hsame (r : Pid) (hr : r ≠ s.pid) (hr' : r ≠ q) : m'.processes.get? r = m.processes.get? r :=
    hm' ▸ Machine.get?_withoutChild_of_ne hr hr'
  refine h.quiet hway ?_ ?_ ⟨p, hm' ▸ Machine.get?_update_same _ _ _, hfit, hconduct⟩ (fun j r hr =>
    ?_) (fun r hr hout => hsame r hr fun he => hout (he ▸ hmem)) (fun c hc => ?_) hflow
  · simp [hevents, Event.pipedBy, Event.deedsOf]
  · simp [hevents, Event.startedBy, Event.deedsOf]
  · by_cases hr' : r = q
    · subst hr'
      rw [h.place_unique hr hq, hover]
      exact .inl ⟨List.mem_append_right _ List.mem_cons_self, hgone⟩
    · rw [hsame r (h.child_ne hr) hr']
      exact (h.people.children j r hr).extend rfl rfl fun _ hc => List.mem_append_left _ hc
  · by_cases hc' : c = q
    · exact ⟨hc' ▸ hmem, hc' ▸ hgone⟩
    · have hold := (List.mem_append.mp hc).resolve_right fun he => hc' (List.mem_singleton.mp he)
      obtain ⟨hkid, hnone⟩ := h.people.gone c hold
      have hout := (List.nodup_cons.mp h.way.numbered.1).1
      exact ⟨hkid, (hsame c (fun he => hout (he ▸ hkid)) hc').trans hnone⟩

theorem Staged.wait_turn (hb : s.Begins) (h : s.Staged ph left collected es m)
    (hway : Pipeline.Underway
      s.base s.stages s.Assembles s.machine s.pid (es ++ m.events (.turn s.pid)) m')
    {p : Process Report} (hp : m.processes.get? s.pid = some p) (hfit : s.Fit p)
    (hconduct : p.program.Honours (Pipeline.conduct s.stages.length (s.code s.last)) s.Concludes
      ⟨Event.startedBy s.pid es, collected, left⟩)
    {child : Pid} {next : Except Errno WaitStatus → Program Report}
    (hprogram : p.program = .call (.waitFor child) next) (hstep : m.step s.pid = some m') :
    ∃ left' collected', left = left' + 1 ∧
      s.Staged ph left' collected' (es ++ m.events (.turn s.pid)) m' := by
  have hlive : p.isLive = true := Machine.isLive_iff.mpr hfit.lives
  have hevents := Machine.events_turn hp
  rw [hprogram] at hconduct hevents
  obtain ⟨⟨hpositive, hall, hmem, hnew⟩, hgo⟩ := hconduct
  have hcount : left = (left - 1) + 1 := by
    have hpositive : 0 < left := hpositive
    omega
  have hmem : child ∈ Event.startedBy s.pid es := hmem
  obtain ⟨k, hlt, hk⟩ := List.mem_iff_getElem.mp hmem
  have hchild : (Event.startedBy s.pid es)[k]? = some child := by
    rw [List.getElem?_eq_getElem hlt, hk]
  obtain ⟨c, hc, hparent, hending⟩ := (h.people.children k child hchild).present hnew
  refine ⟨left - 1, collected ++ [child], hcount, ?_⟩
  rcases Machine.step_waitFor hp hlive hprogram with ⟨c', e, hc', -, hend, hfound, heq⟩ | ⟨-, -, -,
    -, heq⟩ | ⟨hnone, -, -⟩
  · obtain ⟨x, -, hsource, hsink, hpipes⟩ := h.complaints hb
    have hm' := Option.some.inj (hstep.symm.trans heq)
    have ht : Touches x m m' := by
      rw [hm']
      exact .of_eq rfl rfl rfl rfl
    cases hc.symm.trans hc'
    obtain ⟨hover, hcode⟩ : ph k = .ended ∧ e = .exited (s.code k) := by
      rcases hending with hnone | ⟨hover, hcode⟩
      · exact absurd (hnone.symm.trans hend) (by simp)
      · exact ⟨hover, Option.some.inj (hend.symm.trans hcode)⟩
    have hdeeds : m.deeds s.pid p (.call (.waitFor child) next) = [.collected child e] := by
      simp only [Machine.deeds, hfound]
    rw [hdeeds] at hevents
    have hlast (hgetLast : (Event.startedBy s.pid es).getLast? = some child) :
        e = .exited (s.code s.last) := by
      rw [hcode, h.last_of_getLast? hall hchild hgetLast]
    have hfit' : s.Fit { p with program := next (e.report child) } :=
      ⟨hfit.lives, hfit.calm, hfit.standing, hfit.complaints⟩
    exact h.collects hway hchild hover hevents hfit' hm'
      (h.flow.transfer ht hpipes hsource hsink fun _ => .inl rfl)
      (hgo _ ⟨Event.startedBy s.pid es, collected ++ [child], left - 1⟩ ⟨hcount, rfl,
        rfl, e, rfl, hlast⟩)
  · exact absurd (heq.symm.trans hstep) (by simp)
  · exact absurd hparent (hnone c hc)

theorem apart_of_fits {w : Wires} {joint? : Option Joint} (hfit : Joint.Fits w joint?)
    (hopen : w Fd.complaints ≠ none) : Apart (joint?.map (·.link)) := by
  rintro link hlink
  obtain ⟨j, rfl, rfl⟩ := Option.map_eq_some_iff.mp hlink
  obtain ⟨hread, hwrite, -⟩ := hfit
  exact ⟨fun he => hopen (he ▸ hread), fun he => hopen (he ▸ hwrite)⟩

theorem Begins.starts (hb : s.Begins) {wires : Wires}
    {kids : List Pid} {stage : Stage} {previous next : Option Link}
    (hnext : Pipeline.IsNext s.base s.stages ⟨wires, pipes, kids⟩ stage previous next) :
    s.stages[kids.length]? = some stage ∧ Apart previous ∧ Apart next ∧
      (stage.process previous next : Program Report).Honours
        (stage.conduct (s.outlook kids.length)
          (decide (kids.length ≠ 0)) (decide (kids.length + 1 ≠ s.stages.length)))
        (fun _ _ => False) Stage.effort := by
  obtain ⟨before, behind, rfl, rfl, hfit, hfit', -, hstage, hbefore, hbehind, hlength⟩ := hnext
  dsimp only at hstage hbefore hbehind hlength
  have hopen := hb.standard Fd.complaints (Nat.le_refl _)
  have hapart := apart_of_fits hfit hopen
  have hapart' := apart_of_fits hfit' (by rwa [Joint.plug_of_open hfit hopen])
  have hlt := (List.getElem?_eq_some_iff.mp hstage).1
  have hfirst : (before.map (·.link)).isSome = decide (kids.length ≠ 0) := by
    have hsome : (before.map (·.pipe)).isSome = decide (kids.length ≠ 0) := by
      rw [hbefore]
      cases hkids : kids.length with
      | zero => rfl
      | succ i =>
        rw [hkids] at hlength hlt
        have hi : i < pipes.length := by omega
        simp [pipeBefore, hi]
    rw [Option.isSome_map] at hsome ⊢
    exact hsome
  have hlast : (behind.map (·.link)).isSome = decide (kids.length + 1 ≠ s.stages.length) := by
    have hsome : (behind.map (·.pipe)).isSome = decide (kids.length + 1 ≠ s.stages.length) := by
      rw [hbehind]
      by_cases hk : kids.length + 1 = s.stages.length
      · have hi : ¬ kids.length < pipes.length := by omega
        simp [hk, hi]
      · have hi : kids.length < pipes.length := by omega
        simp [hk, hi]
    rw [Option.isSome_map] at hsome ⊢
    exact hsome
  refine ⟨hstage, hapart, hapart', ?_⟩
  rw [← hfirst, ← hlast]
  exact Stage.process_conduct hapart hapart'

private theorem Peopled.start {kids : List Pid} {left' : Nat}
    (h : s.Peopled ph left collected pipes kids m)
    (hnew : q ∉ s.pid :: kids) (hunused : m.processes.get? q = none) (hout : s.pid ∉ kids)
    (hsame : ∀ r, r ≠ s.pid → r ≠ q → m'.processes.get? r = m.processes.get? r)
    (hinterpreter : ∃ p, m'.processes.get? s.pid = some p ∧ s.Fit p ∧
      p.program.Honours (Pipeline.conduct s.stages.length (s.code s.last)) s.Concludes ⟨kids ++ [q],
        collected, left'⟩) (hat : s.At pipes collected kids.length q φ (m'.processes.get? q)) :
    s.Peopled (Function.update ph kids.length φ) left' collected pipes (kids ++ [q]) m' := by
  have hkid {r : Pid} (hr : r ∈ kids) : m'.processes.get? r = m.processes.get? r :=
    hsame r (fun he => hout (he ▸ hr)) fun he => hnew (List.mem_cons_of_mem _ (he ▸ hr))
  refine ⟨hinterpreter, fun j r hr => ?_, fun j hj => ?_, fun r p' hr hr' hp' => ?_,
    fun r p₀ hr hp₀ => ?_, fun c hc => ?_⟩
  · rcases Pipeline.getElem?_concat_cases hr with hr | ⟨rfl, rfl⟩
    · rw [Function.update_of_ne (Nat.ne_of_lt (List.getElem?_eq_some_iff.mp hr).1),
        hkid (List.mem_of_getElem? hr)]
      exact h.children j r hr
    · rw [Function.update_self]
      exact hat
  · rw [List.length_append, List.length_singleton] at hj
    rw [Function.update_of_ne (by omega)]
    exact h.pending j (by omega)
  · have hne : r ≠ q := fun he => hr' (List.mem_append_right _ (he ▸ List.mem_cons_self))
    exact h.others r p' hr (fun hmem => hr' (List.mem_append_left _ hmem)) (hsame r hr hne ▸ hp')
  · obtain ⟨hkids, p', hp', hdescriptors⟩ := h.bystanders r p₀ hr hp₀
    have hne : r ≠ q := by
      rintro rfl
      exact absurd (hunused.symm.trans hp') (by simp)
    refine ⟨fun hmem => ?_, p', (hsame r hr hne).trans hp', hdescriptors⟩
    exact (List.mem_append.mp hmem).elim hkids fun he => hne (List.mem_singleton.mp he)
  · obtain ⟨hmem, hnone⟩ := h.gone c hc
    exact ⟨List.mem_append_left _ hmem, (hkid hmem).trans hnone⟩

theorem Staged.fork_turn (hb : s.Begins) (h : s.Staged ph left collected es m)
    (hway : Pipeline.Underway
      s.base s.stages s.Assembles s.machine s.pid (es ++ m.events (.turn s.pid)) m')
    {p : Process Report} (hp : m.processes.get? s.pid = some p) (hfit : s.Fit p)
    (hcontract : p.program.Honours (Pipeline.contract s.base s.stages) s.Assembles
      ⟨p.descriptors.get?, Event.pipedBy s.pid es, Event.startedBy s.pid es⟩)
    (hconduct : p.program.Honours (Pipeline.conduct s.stages.length (s.code s.last)) s.Concludes
      ⟨Event.startedBy s.pid es, collected, left⟩) {child : Program Report}
    {next : Except Errno Pid → Program Report} (hprogram : p.program = .fork child next)
    (hstep : m.step s.pid = some m') :
    ∃ left', left = left' + 1 ∧
      s.Staged (Function.update ph
        (Event.startedBy s.pid es).length (.wiring Stage.effort)) left' collected
        (es ++ m.events (.turn s.pid)) m' := by
  have hlive : p.isLive = true := Machine.isLive_iff.mpr hfit.lives
  have hevents := Machine.events_turn hp
  rw [hprogram] at hcontract hconduct hevents
  obtain ⟨⟨stage, previous, link, rfl, hnext⟩, -⟩ := hcontract
  obtain ⟨⟨-, -, -, -, hpositive, -⟩, hgo⟩ := hconduct
  have hcount : left = (left - 1) + 1 := by
    have hpositive : 0 < left := hpositive
    omega
  refine ⟨left - 1, hcount, ?_⟩
  obtain ⟨hstage, -, -, hstarts⟩ := hb.starts hnext
  have hdeeds : m.deeds s.pid p (.fork (stage.process previous link) next) =
      [.started m.nextPid] := rfl
  rw [hdeeds] at hevents
  have hpiped : Event.pipedBy s.pid (m.events (.turn s.pid)) = [] := by
    simp [hevents, Event.pipedBy, Event.deedsOf]
  have hstarted : Event.startedBy s.pid (m.events (.turn s.pid)) = [m.nextPid] := by
    simp [hevents, Event.startedBy, Event.deedsOf]
  have hnew : m.nextPid ∉ s.pid :: Event.startedBy s.pid es :=
    fun hmem => absurd (h.way.numbered.2.1 _ hmem) (Nat.lt_irrefl _)
  have hne : s.pid ≠ m.nextPid := fun he => hnew (he ▸ List.mem_cons_self)
  have hunused : m.processes.get? m.nextPid = none :=
    Option.eq_none_iff_forall_ne_some.mpr fun p' hp' =>
    absurd (h.way.sound.numbered m.nextPid p' hp').1 (Nat.lt_irrefl _)
  have hkept : (m.fork s.pid p (stage.process previous link)).2.processes.get? s.pid = some p :=
    (Table.get?_set_of_ne _ _ hne).trans hp
  rw [Machine.step_fork hp hlive hprogram, Machine.proceed_eq hkept] at hstep
  obtain ⟨x, -, hsource, hsink, hpipes⟩ := h.complaints hb
  have ht : Touches x m m' := by
    rw [← Option.some.inj hstep]
    exact .of_eq rfl rfl rfl rfl
  obtain rfl := Option.some.inj hstep
  refine ⟨hway, ?_, ?_⟩
  · rw [Event.pipedBy_append, Event.startedBy_append, hpiped, hstarted, List.append_nil]
    refine h.people.start hnew hunused (List.nodup_cons.mp h.way.numbered.1).1
      (fun r hr hr' => ?_) ⟨_, Machine.get?_update_same _ _ _,
        ⟨hfit.lives, hfit.calm, hfit.standing, hfit.complaints⟩, hgo m.nextPid _
        ⟨hcount, rfl, rfl, fun hmem => hnew (List.mem_cons_of_mem _ hmem)⟩⟩ ?_
    · rw [Machine.get?_update_of_ne _ _ hr]
      exact Table.get?_set_of_ne _ _ hr'
    · rw [Machine.get?_update_of_ne _ _ (Ne.symm hne)]
      exact ⟨_, stage, Table.get?_set_same _ _ _,
        ⟨hfit.lives, hfit.calm, hfit.standing, hfit.complaints⟩, rfl, rfl, hstage, hstarts⟩
  · have hunheard : Event.preparations m.nextPid (es ++ m.events (.turn s.pid)) = [] :=
      Pipeline.preparations_unheard h.way.unheard_move
    rw [Event.pipedBy_append, hpiped, List.append_nil,
      h.openedBy_own hstarted fun q hq => List.mem_singleton.mp hq ▸ hunheard]
    have hpending := h.people.pending _ (Nat.le_refl (Event.startedBy s.pid es).length)
    refine h.flow.transfer ht hpipes hsource hsink fun j => ?_
    by_cases hj : j = (Event.startedBy s.pid es).length
    · subst hj
      exact .inr ⟨by simp [Phase.Early], by simp [hpending, Phase.Early]⟩
    · exact .inl (Function.update_of_ne hj _ _)

/-- Every step of the interpreter is one of the few that it makes at most, and takes nothing back of
what the stages have done. -/
theorem Staged.interpreter_turn (hb : s.Begins) (h : s.Staged ph left collected es m)
    (hway : Pipeline.Underway s.base s.stages s.Assembles s.machine s.pid
      (es ++ m.events (.turn s.pid)) m') (hstep : m.step s.pid = some m') :
    ∃ ph' left' collected', left = left' + 1 ∧ (∀ k, s.rank k (ph' k) = s.rank k (ph k)) ∧
      s.Staged ph' left' collected' (es ++ m.events (.turn s.pid)) m' := by
  obtain ⟨p, hp, hfit, hcontract, hconduct⟩ := h.interprets
  have hlive : p.isLive = true := Machine.isLive_iff.mpr hfit.lives
  obtain ⟨x, hx, hsource, hsink, hpipes⟩ := h.complaints hb
  cases hprogram : p.program with
  | done r => simp [Machine.step, hp, hlive, hprogram] at hstep
  | transfer t next => simp [hprogram, Program.Honours] at hconduct
  | flood fd block next => simp [hprogram, Program.Honours] at hconduct
  | fork child next =>
    obtain ⟨left', hcount, hstaged⟩ := h.fork_turn hb hway hp hfit hcontract hconduct hprogram hstep
    refine ⟨_, left', collected, hcount, fun k => ?_, hstaged⟩
    by_cases hk : k = (Event.startedBy s.pid es).length
    · subst hk
      rw [Function.update_self, h.people.pending _ (Nat.le_refl _)]
      rfl
    · rw [Function.update_of_ne hk]
  | call c next =>
    have hmay := hconduct
    rw [hprogram] at hmay
    obtain ⟨⟨hpositive, hmay⟩, hgo⟩ := hmay
    have hcount : left = (left - 1) + 1 := by
      have hpositive : 0 < left := hpositive
      omega
    cases c with
    | note record =>
      have hdeeds : m.deeds s.pid p p.program = [] := by rw [hprogram]; rfl
      obtain ⟨m₁, ht, hprocesses, heq⟩ :=
        Machine.step_note_whole hp (Machine.isLive_iff.mpr hfit.lives) hprogram
          h.flow.steady.unbounded hfit.calm.2 (hfit.complaints.trans hx)
      cases heq.symm.trans hstep
      exact ⟨ph, left - 1, collected, hcount, fun _ => rfl, h.alone hway hp hdeeds rfl hprocesses
        ⟨hfit.lives, ⟨hfit.calm.1, rfl⟩, hfit.standing, hfit.complaints⟩
        (hgo () ⟨Event.startedBy s.pid es, collected, left - 1⟩ ⟨hcount, rfl, rfl⟩)
        (h.flow.transfer (ht.update _ _) hpipes hsource hsink fun _ => .inl rfl)⟩
    | close fd =>
      have hdeeds : m.deeds s.pid p p.program = [] := by rw [hprogram]; rfl
      have hfd : fd ≠ Fd.complaints := hmay
      have heq := Machine.step_close hp hlive hprogram
      cases heq.symm.trans hstep
      exact ⟨ph, left - 1, collected, hcount, fun _ => rfl, h.alone hway hp hdeeds rfl rfl
        ⟨hfit.lives, hfit.calm,
          hfit.standing, (Table.get?_erase_of_ne _ hfd.symm).trans hfit.complaints⟩
        (hgo () ⟨Event.startedBy s.pid es, collected, left - 1⟩ ⟨hcount, rfl, rfl⟩)
        (h.flow.transfer ((Touches.refl x m).update _ _) hpipes hsource hsink fun _ => .inl rfl)⟩
    | pipe =>
      obtain ⟨left', hcount', hstaged⟩ :=
        h.pipe_turn hb hway hp hfit hcontract hconduct hprogram hstep
      exact ⟨ph, left', collected, hcount', fun _ => rfl, hstaged⟩
    | waitFor child =>
      obtain ⟨left', collected', hcount', hstaged⟩ :=
        h.wait_turn hb hway hp hfit hconduct hprogram hstep
      exact ⟨ph, left', collected', hcount', fun _ => rfl, hstaged⟩
    | _ => exact hmay.elim

end

end PipeShell.Scene
