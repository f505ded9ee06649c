import PipeShell.Proofs.Job.Performing
import PipeShell.Proofs.System.Spared

/-!
What the stages of a pipeline find on the machine does not depend on the order of the steps: their
programs, the file for the input and the one for the output are found in every performance as they
would have been found at its beginning, as long as nobody can write to the nodes that lead to them.
-/

set_option autoImplicit false
set_option relaxedAutoImplicit false

namespace PipeShell

theorem Machine.openPath_refused {α : Type} {m : Machine α} {q : Pid} {p : Process α} {path : Bytes}
    {access : Access} (hcalm : p.rendezvous? = none) (h : match access with
      | .read => ∃ e, m.tree.openForReading (m.actor p) path = .error e
      | .replace mode => ∃ e, m.tree.openForWriting (m.actor p) path mode true = .error e
      | .append _ => False) : ∃ e, m.openPath q p path access = .answer (.error e) m := by
  simp only [openPath, hcalm]
  split
  · exact ⟨_, rfl⟩
  · split
    · exact ⟨_, rfl⟩
    · split
      · exact ⟨_, rfl⟩
      · cases access with
        | read =>
          obtain ⟨e, he⟩ := h
          exact ⟨e, by simp only [he, Except.map]⟩
        | replace mode =>
          obtain ⟨e, he⟩ := h
          exact ⟨e, by simp only [he]⟩
        | append mode => exact h.elim

namespace Scene

open Machine (Resembles Spares)

def Like (s : Scene) (kept : NodeId → Prop) (t : FileTree) : Prop :=
  t.root = s.machine.tree.root ∧ ∀ id, kept id → t.nodes.get? id = s.machine.tree.nodes.get? id

def actor (s : Scene) : FileTree.Actor := s.machine.actor s.process

/-- What is where when a scene begins. Nobody can write to the `early` nodes, and the `lasting` ones
among them stay what they are even when the file for the output has been opened. The lasting nodes
are enough to find the programs and the file for the input, and the early ones to find the file for
the output. -/
structure Surroundings (s : Scene) (lasting early : NodeId → Prop) : Prop where
  early_of_lasting : ∀ id, lasting id → early id
  unwritable : s.machine.Unwritable early
  sink : ¬ lasting s.sink
  programs : ∀ k stage (l : Image.Loader), s.stages[k]? = some stage → s.Like lasting l.tree →
    l.user = s.process.user → l.directory = s.process.directory → (∀ id ∈ l.busy, ¬ lasting id) →
    match (s.outlook k).refusal? (stage.arguments.map Bytes.ofString) with
    | some e => Image.search l s.process.searchPath (stage.arguments.map Bytes.ofString) = .error e
    | none =>
      ∃ image, Image.search l s.process.searchPath (stage.arguments.map Bytes.ofString) =
        .ok image ∧ s.machine.installed image.program image.arguments = Program.filter (s.tool k)
  input : ∀ stage path, s.stages.head? = some stage → stage.inputRequest? = some (path, .read) →
    ∀ t, s.Like lasting t →
      if (s.outlook 0).opens path .read then t.openForReading s.actor path = .ok s.source
      else ∃ e, t.openForReading s.actor path = .error e
  output : ∀ stage path, s.stages.getLast? = some stage → stage.outputRequest? = some (path,
    .replace 0o644) → ∀ t, s.Like early t → t.nodes.next = s.machine.tree.nodes.next →
      if (s.outlook s.last).opens path (.replace 0o644) then
        ∃ t' node, t.openForWriting s.actor path 0o644 true = .ok (t', s.sink) ∧ s.Like lasting t' ∧
          t'.nodes.get? s.sink = some node ∧ node.content = .file []
      else ∃ e, t.openForWriting s.actor path 0o644 true = .error e

/-- How the machine stands to the beginning of a scene: the lasting nodes are what they were, and so
are the early ones until the last stage has opened its file. -/
structure Surrounded (s : Scene) (lasting early : NodeId → Prop) (es : List Event)
    (m : Machine Report) : Prop where
  lasting : Resembles lasting s.machine m
  early : (∀ o ∈ s.openedBy es s.last, o.access ≠ .replace 0o644) → Spares early s.machine m

section

variable {s : Scene} {lasting early : NodeId → Prop} {ph : Nat → Phase}
  {left : Nat} {collected : List Pid}
  {es : List Event} {m m' : Machine Report} {k : Nat} {q : Pid} {p : Process Report}

theorem Surrounded.like (h : s.Surrounded lasting early es m) : s.Like lasting m.tree :=
  ⟨h.lasting.root, h.lasting.nodes⟩

theorem Fit.actor (h : s.Fit p) : m.actor p = s.actor :=
  congrArg (fun t : Standing => (⟨t.user, t.directory, t.mask⟩ : FileTree.Actor)) h.standing

theorem Fit.searchPath (h : s.Fit p) : p.searchPath = s.process.searchPath := by
  have henvironment : p.environment = s.process.environment :=
    congrArg Standing.environment h.standing
  simp only [Process.searchPath, Process.environmentValue?, henvironment]

theorem Fit.has_free (h : s.Fit p) (hb : s.Begins)
    (hroom : ∃ link : Link, ∀ fd, fd ≠ Fd.input → fd ≠ Fd.output → fd ≠ link.readEnd →
      fd ≠ link.writeEnd → p.descriptors.get? fd = s.base fd) :
    p.descriptors.lowest? p.limit ≠ none := by
  obtain ⟨link, hsame⟩ := hroom
  obtain ⟨fd, -, -, ⟨hlimit, hplug⟩, -⟩ := @Begins.room_left s hb (some ⟨link, 0⟩) _ rfl
  have hwrite : fd ≠ link.writeEnd := by
    rintro rfl
    simp [Joint.plug] at hplug
  have hread : fd ≠ link.readEnd := by
    rintro rfl
    simp [Joint.plug, Function.update_of_ne hwrite] at hplug
  have hnone : s.base fd = none := by
    rwa [Joint.plug, Function.update_of_ne hwrite, Function.update_of_ne hread] at hplug
  have hinput : fd ≠ Fd.input := fun he => hb.standard Fd.input (Nat.zero_le _) (he ▸ hnone)
  have houtput : fd ≠ Fd.output := fun he => hb.standard Fd.output (Nat.le_succ 1) (he ▸ hnone)
  have hfree : p.descriptors.get? fd = none := (hsame fd hinput houtput hread hwrite).trans hnone
  exact Option.isSome_iff_ne_none.mp (Table.lowest?_isSome (h.limit ▸ hlimit) hfree)

theorem Staged.opens (hb : s.Begins) (hs : s.Surroundings lasting early)
    (h : s.Staged ph left collected es m) (hsurrounded : s.Surrounded lasting early es m)
    (hq : (Event.startedBy s.pid es)[k]? = some q) {n : Nat}
    (hphase : ph k = .wiring n) (hp : m.processes.get? q = some p) {path : Bytes} {access : Access}
    {next : Except Errno Fd → Program Report}
    (hprogram : p.program = .call (.openFile path access) next) :
    if (s.outlook k).opens path access then
      p.descriptors.lowest? p.limit ≠ none ∧
      ∃ tree, m.OpensAt p path (if access = .read then s.source else s.sink) access tree ∧
        s.Like lasting tree
    else ∃ e, m.openPath q p path access = .answer (.error e) m := by
  obtain ⟨p₁, stage, hp₁, hfit, -, -, hstage, -, hcontract⟩ := h.wiring hq hphase
  cases hp.symm.trans hp₁
  rw [hprogram] at hcontract
  obtain ⟨⟨hmay, hready⟩, -⟩ := hcontract
  have hfree := hfit.has_free hb hready.room
  have hactor : m.actor p = s.actor := hfit.actor
  rcases h.may_open hq hstage hmay with ⟨rfl, rfl, hfirst, hrequest⟩ | ⟨rfl, rfl, hlast, hrequest⟩
  · have hinput := hs.input stage path hfirst hrequest m.tree hsurrounded.like
    rw [← hactor] at hinput
    split
    · rw [if_pos ‹_›] at hinput
      exact ⟨hfree, m.tree, ⟨hinput, rfl, s.data, h.flow.steady.data⟩, hsurrounded.like⟩
    · rw [if_neg ‹_›] at hinput
      exact Machine.openPath_refused hfit.calm.1 hinput
  · have hspares := hsurrounded.early hready.first
    have houtput :=
      hs.output stage path hlast hrequest m.tree ⟨hspares.root, hspares.nodes⟩ hspares.next
    rw [← hactor] at houtput
    split
    · rw [if_pos ‹_›] at houtput
      obtain ⟨tree, node, hopen, hlike, hnode, hempty⟩ := houtput
      exact ⟨hfree, tree, ⟨hopen, node, hnode, hempty⟩, hlike⟩
    · rw [if_neg ‹_›] at houtput
      exact Machine.openPath_refused hfit.calm.1 houtput

theorem Staged.wiring_of_unloaded (h : s.Staged ph left collected es m)
    (hq : (Event.startedBy s.pid es)[k]? = some q)
    (hp : m.processes.get? q = some p) (hlive : p.ending? = none) (hloaded : p.loaded = false) :
    ∃ n, ph k = .wiring n := by
  rcases (h.people.children k q hq).cases with ⟨n, -, hphase, -⟩ | ⟨-, _, _, p₁, hp₁,
    hplugged, -⟩ | ⟨-, hover⟩
  · exact ⟨n, hphase⟩
  · cases hp.symm.trans hp₁
    exact absurd (hloaded.symm.trans hplugged.loaded) (by simp)
  · exact absurd hlive (hover p hp).1

theorem Staged.meets (hb : s.Begins) (hs : s.Surroundings lasting early)
    (h : s.Staged ph left collected es m) (hsurrounded : s.Surrounded lasting early es m)
    (hq : (Event.startedBy s.pid es)[k]? = some q) (hp : m.processes.get? q = some p)
    (hlive : p.ending? = none) (hloaded : p.loaded = false) : s.Meets k q p m := by
  obtain ⟨n, hphase⟩ := h.wiring_of_unloaded hq hp hlive hloaded
  constructor
  · intro path access next hprogram
    have hopens := h.opens hb hs hsurrounded hq hphase hp hprogram
    split
    · rw [if_pos ‹_›] at hopens
      obtain ⟨hfree, tree, hopensAt, -⟩ := hopens
      exact ⟨hfree, tree, hopensAt⟩
    · rw [if_neg ‹_›] at hopens
      exact hopens
  · intro arguments next hprogram
    obtain ⟨p₁, stage, hp₁, hfit, -, -, hstage, -, hcontract⟩ := h.wiring hq hphase
    cases hp.symm.trans hp₁
    rw [hprogram] at hcontract
    obtain ⟨⟨rfl, hwired⟩, -⟩ := hcontract
    have hfound := hs.programs k stage (m.loader p) hstage hsurrounded.like
      (congrArg Standing.user hfit.standing) (congrArg Standing.directory hfit.standing)
      fun id hbusy => Machine.not_busy hsurrounded.lasting.unwritable hbusy
    rw [← hfit.searchPath] at hfound
    cases hrefusal : (s.outlook k).refusal? (stage.arguments.map Bytes.ofString) with
    | some e =>
      rw [hrefusal] at hfound
      exact hfound
    | none =>
      rw [hrefusal] at hfound
      rw [hsurrounded.lasting.installed]
      exact ⟨hfit.has_free hb ⟨⟨0, 0⟩,
        fun fd hinput houtput _ _ => hwired.others fd hinput houtput⟩, hfound⟩

theorem Staged.plain (h : s.Staged ph left collected es m)
    (hq : q = s.pid ∨ q ∈ Event.startedBy s.pid es)
    (hp : m.processes.get? q = some p) (hstep : m.step q = some m') :
    p.program.Plain ∨ ∃ k n path access next, (Event.startedBy s.pid es)[k]? = some q ∧
      ph k = .wiring n ∧ p.program = .call (.openFile path access) next := by
  obtain ⟨p₁, hp₁, hending, hstopped⟩ := Machine.step_live hstep
  cases hp.symm.trans hp₁
  have hlive : p.isLive = true := Machine.isLive_iff.mpr ⟨hending, hstopped⟩
  rcases hq with rfl | hmem
  · obtain ⟨p₁, hp₁, -, -, hconduct⟩ := h.interprets
    cases hp.symm.trans hp₁
    refine .inl ?_
    cases hprogram : p.program with
    | done r => simp [Machine.step, hp, hlive, hprogram] at hstep
    | fork child next => trivial
    | transfer t next => trivial
    | flood fd block next => simp [hprogram, Program.Honours] at hconduct
    | call c next =>
      rw [hprogram] at hconduct
      obtain ⟨⟨-, hmay⟩, -⟩ := hconduct
      cases c with
      | note _ | pipe | close _ | waitFor _ => trivial
      | _ => exact hmay.elim
  · obtain ⟨k, hq⟩ := List.mem_iff_getElem?.mp hmem
    rcases (h.people.children k q hq).cases with ⟨n, -, hphase, -⟩ | ⟨-, _, _, p₁, hp₁, -,
      hplain⟩ | ⟨-, hover⟩
    · obtain ⟨p₁, _, hp₁, -, -, -, -, hconduct, -⟩ := h.wiring hq hphase
      cases hp.symm.trans hp₁
      cases hprogram : p.program with
      | done r => simp [hprogram, Program.Honours] at hconduct
      | fork child next => exact .inl trivial
      | transfer t next => simp [hprogram, Program.Honours] at hconduct
      | flood fd block next => simp [hprogram, Program.Honours] at hconduct
      | call c next =>
        rw [hprogram] at hconduct
        obtain ⟨⟨-, hmay⟩, -⟩ := hconduct
        cases c with
        | close _ | duplicate _ _ | exec _ | write _ _ | exit _ => exact .inl trivial
        | openFile path access => exact .inr ⟨k, n, path, access, next, hq, hphase, rfl⟩
        | _ => exact hmay.elim
    · cases hp.symm.trans hp₁
      exact .inl hplain
    · exact absurd hending (hover p hp).1

theorem openedBy_mono {es' : List Event} {o : Opening} (ho : o ∈ s.openedBy es k) :
    o ∈ s.openedBy (es ++ es') k := by
  unfold openedBy at ho ⊢
  cases hq : (Event.startedBy s.pid es)[k]? with
  | none => simp [hq] at ho
  | some q =>
    have hlt := (List.getElem?_eq_some_iff.mp hq).1
    rw [hq] at ho
    rw [Event.startedBy_append, List.getElem?_append_left hlt, hq]
    simpa using .inl ho

theorem Surrounded.of_spares {es' : List Event} (h : s.Surrounded lasting early es m)
    (hlasting : Spares lasting m m') (hearly : m.Unwritable early → Spares early m m') :
    s.Surrounded lasting early (es ++ es') m' where
  lasting := h.lasting.trans hlasting.toResembles
  early hnone := by
    have hold := h.early fun o ho => hnone o (openedBy_mono ho)
    exact hold.trans (hearly hold.unwritable)

/-- Every step of a performance leaves the surroundings as they are, save that the file for the
output is opened once. -/
theorem Surrounded.turn (hb : s.Begins) (hs : s.Surroundings lasting early)
    (hsurrounded : s.Surrounded lasting early es m) (h : s.Staged ph left collected es m)
    (hq : q = s.pid ∨ q ∈ Event.startedBy s.pid es) (hstep : m.step q = some m') :
    s.Surrounded lasting early (es ++ m.events (.turn q)) m' := by
  obtain ⟨p, hp, hlive⟩ := Machine.step_live hstep
  rcases h.plain hq hp hstep with hplain | ⟨k, n, path, access, next, hk, hphase, hprogram⟩
  · exact hsurrounded.of_spares (Machine.step_spares hsurrounded.lasting.unwritable hp hplain hstep)
      fun hunwritable => Machine.step_spares hunwritable hp hplain hstep
  obtain ⟨p₁, stage, hp₁, hfit, -, hloaded, hstage, -, hcontract⟩ := h.wiring hk hphase
  cases hp.symm.trans hp₁
  have hlive := Machine.isLive_iff.mpr hlive
  rw [hprogram] at hcontract
  have hopens := h.opens hb hs hsurrounded hk hphase hp hprogram
  split at hopens
  · obtain ⟨hfree, tree, hopensAt, hlike⟩ := hopens
    obtain ⟨fd, hfd⟩ := Option.ne_none_iff_exists'.mp hfree
    obtain ⟨heq, hdeeds⟩ := Machine.step_openFile_opensAt hp hlive hprogram hfit.calm.1 hfd hopensAt
    cases heq.symm.trans hstep
    rcases h.may_open hk hstage hcontract.1.1 with ⟨-, rfl, -⟩ | ⟨rfl, rfl, -⟩
    · obtain ⟨-, rfl, -⟩ := hopensAt
      have hspares {kept : NodeId → Prop} (hunwritable : m.Unwritable kept) :
          Spares kept m (m.withFile q { p with program := next (.ok fd) } m.tree fd
            (Machine.openedAs s.source .read)) :=
        ⟨Machine.resembles_withFile hunwritable rfl (fun _ _ => rfl)
          (by simp [Machine.openedAs]) fd, rfl⟩
      exact hsurrounded.of_spares (hspares hsurrounded.lasting.unwritable) hspares
    · constructor
      · refine hsurrounded.lasting.trans
          (Machine.resembles_withFile hsurrounded.lasting.unwritable ?_ ?_ ?_ fd)
        · exact hlike.1.trans hsurrounded.lasting.root.symm
        · exact fun id hid => (hlike.2 id hid).trans (hsurrounded.lasting.nodes id hid).symm
        · exact fun _ => hs.sink
      · intro hnone
        -- the file for the output has been opened just now
        have hevents : m.events (.turn q) =
            [⟨q, false, .opened path (.replace 0o644) (.file m.openFiles.next)⟩] := by
          rw [Machine.events_turn hp, hdeeds, hloaded, List.map_cons, List.map_nil]
        rw [hevents, h.openedBy_append hk ⟨path, .replace 0o644, .file m.openFiles.next⟩,
          Function.update_self] at hnone
        exact absurd rfl (hnone _ (List.mem_append_right _ (List.mem_singleton.mpr rfl)))
  · obtain ⟨e, hrefused⟩ := hopens
    cases (Machine.step_openFile_refused hp hlive hprogram hrefused).1.symm.trans hstep
    exact hsurrounded.of_spares (.of_eq hsurrounded.lasting.unwritable rfl rfl rfl)
      fun hunwritable =>
      .of_eq hunwritable rfl rfl rfl

/-- The stages meet the same in every performance if it is there in the beginning. -/
theorem Begins.consistent (hb : s.Begins) (hs : s.Surroundings lasting early) : s.Consistent := by
  have hinvariant (n : Nat) (es : List Event) (m : Machine Report) (h : s.Performance n es m) :
      (∃ ph left collected, s.Staged ph left collected es m) ∧ s.Surrounded lasting early es m := by
    induction h with
    | start =>
      refine ⟨⟨_, _, _, hb.staged⟩,
        ⟨(Spares.refl fun n file hfile hwritable hlasting => ?_).toResembles, fun _ => ?_⟩⟩
      · exact hs.unwritable n file hfile hwritable (hs.early_of_lasting _ hlasting)
      · exact .refl hs.unwritable
    | @turn n es m m' performance q hq step ih =>
      obtain ⟨⟨ph, left, collected, hstaged⟩, hsurrounded⟩ := ih
      obtain ⟨ph', left', collected', hstaged', -⟩ := hstaged.turn hb performance.run hq
        (fun k p hk hp hlive hloaded => hstaged.meets hb hs hsurrounded hk hp hlive hloaded) step
      exact ⟨⟨ph', left', collected', hstaged'⟩, hsurrounded.turn hb hs hstaged hq step⟩
  intro n es m h k q p hq hp hlive hloaded
  obtain ⟨⟨ph, left, collected, hstaged⟩, hsurrounded⟩ := hinvariant n es m h
  exact hstaged.meets hb hs hsurrounded hq hp hlive hloaded

end

end Scene

end PipeShell
