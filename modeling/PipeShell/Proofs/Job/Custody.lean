import Mathlib.Data.List.Nodup
import PipeShell.Proofs.Job.Ledger

/-!
No child is lost, is collected twice, or is collected by the wrong party, however many actions are
carried out, however often the background is looked through, whenever the children end, and whatever
is interrupted. The main theorem is `Life.accounted`.
-/

set_option autoImplicit false
set_option relaxedAutoImplicit false

namespace PipeShell

variable {α : Type}

namespace Custody

/-- A program that honours the contract of the ledger, at some point on its way: it has collected no
children but those that it may ask for. -/
structure Keeps (mine ended : Child → Prop) (Q : α → Ledger → Prop) (k₀ : Custody) (x : Program α)
    (k : Custody) : Prop where
  sound : k.Sound
  honours : x.Honours (Ledger.contract mine ended) Q k.ledger
  ended : ∀ c, ended c → k.Over c
  collected : ∀ c ∈ k.ledger.collected, c ∈ k₀.ledger.collected ∨ mine c

section

variable {mine ended : Child → Prop} {Q : α → Ledger → Prop} {k₀ k k' : Custody} {x y : Program α}

private theorem gives_answered {g : Ledger} {c : Call} (hc : c.child? = none) (reply : c.Reply) :
    (Ledger.contract mine ended).gives g c reply g := by
  cases c with
  | waitFor | awaitEnd | poll => cases hc
  | _ => exact rfl

private theorem mine_of_may {g : Ledger} (hs : g.Sound) {c : Child} (hc : g.Owes c)
    (hmay : ∃ d, g.Owes d ∧ mine d ∧ d.pid = c.pid) : mine c := by
  obtain ⟨d, hd, hmine, hpid⟩ := hmay
  exact hs.apart d c hd hc hpid ▸ hmine

private theorem collected_collect {c : Child} (hmine : mine c)
    (h : ∀ d ∈ k.ledger.collected, d ∈ k₀.ledger.collected ∨ mine d) :
    ∀ d ∈ (k.ledger.collect c).collected, d ∈ k₀.ledger.collected ∨ mine d := by
  intro d hd
  rcases List.mem_append.mp hd with hm | hm
  · exact h d hm
  · exact .inr (List.mem_singleton.mp hm ▸ hmine)

theorem Keeps.step (h : Keeps mine ended Q k₀ x k) (hstep : Step x k y k') :
    Keeps mine ended Q k₀ y k' := by
  have hsound := hstep.sound h.sound
  have hover := fun c hc => hstep.stays_over (h.ended c hc)
  obtain ⟨hs, hhonours, hovers, hcollected⟩ := h
  cases hstep with
  | answered hc reply =>
    exact ⟨hsound, hhonours.2 reply _ (gives_answered hc reply), hover, hcollected⟩
  | started pid hpid => exact ⟨hsound, hhonours.2 pid _ rfl, hover, hcollected⟩
  | @awaited _ _ c e hc he =>
    refine ⟨hsound, hhonours.2 _ _ fun d hd hpid => ⟨e, rfl, ?_⟩, hover, ?_⟩
    · rw [hs.ledger.apart d c hd hc hpid]
    · exact collected_collect (mine_of_may hs.ledger hc hhonours.1) hcollected
  | awaitedStranger hpid =>
    obtain ⟨⟨c, hc, -, rfl⟩, -⟩ := hhonours
    exact absurd rfl (hpid c hc)
  | waitInterrupted => exact ⟨hsound, hhonours, hover, hcollected⟩
  | @foundOver _ _ c e hc he =>
    refine ⟨hsound, hhonours.2 _ _ fun d hd hpid => .inr (.inr ⟨e, rfl, ?_⟩), hover, ?_⟩
    · rw [hs.ledger.apart d c hd hc hpid]
    · exact collected_collect (mine_of_may hs.ledger hc hhonours.1) hcollected
  | @foundAlive _ _ c hc he =>
    refine ⟨hsound, hhonours.2 _ _ fun d hd hpid => .inl ⟨rfl, fun hd' => ?_, rfl⟩,
      hover, hcollected⟩
    have hsome := hovers d hd'
    rw [hs.ledger.apart d c hd hc hpid, Over, he] at hsome
    cases hsome
  | foundStranger hpid =>
    obtain ⟨⟨c, hc, -, rfl⟩, -⟩ := hhonours
    exact absurd rfl (hpid c hc)
  | lookInterrupted =>
    exact ⟨hsound, hhonours.2 _ _ fun _ _ _ => .inr (.inl ⟨rfl, rfl⟩), hover, hcollected⟩
  | ended e => exact ⟨hsound, hhonours, hover, hcollected⟩

theorem Keeps.steps (h : Keeps mine ended Q k₀ x k) (hsteps : Steps x k y k') :
    Keeps mine ended Q k₀ y k' := by
  induction hsteps with
  | start => exact h
  | step _ hstep ih => exact ih.step hstep

end

end Custody

open Custody

def Ledger.since (g g' : Ledger) : List Child := g'.started.drop g.started.length

/-- A life of the interpreter: actions are carried out and the background is looked through in any
order, and children may end in between as well. The children of pipelines in the foreground are told
apart from those of pipelines in the background. -/
inductive Life : List Child → List Child → Custody → Background → Prop
  | begins : Life [] [] {} {}
  | ends {attended detached : List Child} {k : Custody}
      {b : Background} (life : Life attended detached k b)
      {c : Child} (e : Ending) (hc : k.ledger.Owes c) (he : k.endings.get? c.birth = none) :
      Life attended detached (k.finish c e) b
  | performs {attended detached : List Child} {k k' : Custody} {b b' : Background}
      (life : Life attended detached k b) (action : Action) (status : Int)
      (steps : Steps (action.execute b) k (.done ⟨.ok status, b'⟩) k') :
      Life (if Ledger.Detaches action then attended else attended ++ k.ledger.since k'.ledger)
        (if Ledger.Detaches action then detached ++ k.ledger.since k'.ledger else detached) k' b'
  | reaps {attended detached : List Child} {k k' : Custody} {b b' : Background}
      (life : Life attended detached k b) (steps : Steps b.reap k (.done b') k') :
      Life attended detached k' b'

/-- The children in the background that have not been collected, in the order in which they were
started. -/
def Ledger.outstanding (g : Ledger) (detached : List Child) : List Child :=
  detached.filter (· ∉ g.collected)

/-- What can be said of the children of the interpreter whenever it is between two pieces of
work. -/
structure Accounted (attended detached : List Child) (k : Custody) (b : Background) : Prop where
  /-- Every child is one of a pipeline in the foreground or one of a pipeline in the background. -/
  parted : k.ledger.started.Perm (attended ++ detached)
  ordered : attended.Sublist k.ledger.started ∧ detached.Sublist k.ledger.started
  /-- Those in the foreground were collected once, and nobody more than once. -/
  once : (∀ c ∈ attended, k.ledger.collected.count c = 1) ∧ k.ledger.collected.Nodup
  /-- Kept in mind are exactly those in the background that were not collected. -/
  background : b.pids = (k.ledger.outstanding detached).map (·.pid) ∧ b.pids.Nodup
  /-- At no time does an action collect a child that it has not started itself. -/
  actions : ∀ action y k', Steps (Action.execute action b) k y k' →
    ∀ c ∈ k'.ledger.collected, c ∈ k.ledger.collected ∨ c ∉ k.ledger.started
  /-- At no time does looking through the background collect a child that is not in it or has not
  ended. -/
  looks : ∀ y k', Steps b.reap k y k' →
    ∀ c ∈ k'.ledger.collected, c ∈ k.ledger.collected ∨ c ∈ detached ∧ k'.Over c
  /-- Afterwards exactly those are gone that were collected, and unless a look was interrupted these
  are all that had ended before. -/
  reaped : ∀ b' k', Steps b.reap k (.done b') k' →
    b'.pids = (k'.ledger.outstanding detached).map (·.pid) ∧
    (k'.ledger.missed = k.ledger.missed →
      ∀ c ∈ k.ledger.outstanding detached, k.Over c → c ∈ k'.ledger.collected ∧ c.pid ∉ b'.pids)

private structure Settled (attended detached : List Child) (k : Custody)
    (b : Background) : Prop where
  sound : k.Sound
  parted : k.ledger.started.Perm (attended ++ detached)
  ordered : attended.Sublist k.ledger.started ∧ detached.Sublist k.ledger.started
  attended : ∀ c ∈ attended, c ∈ k.ledger.collected
  background : b.pids = (k.ledger.outstanding detached).map (·.pid)

section

variable {attended detached : List Child} {k k' : Custody} {b b' : Background}

private theorem Settled.owes (h : Settled attended detached k b) {c : Child}
    (hc : c ∈ k.ledger.outstanding detached) : k.ledger.Owes c ∧ c ∈ detached := by
  obtain ⟨hdetached, hnew⟩ := List.mem_filter.mp hc
  exact ⟨⟨h.ordered.2.subset hdetached, by simpa using hnew⟩, hdetached⟩

private theorem Settled.nodup (h : Settled attended detached k b) :
    (k.ledger.outstanding detached).Nodup :=
  (h.sound.ledger.distinct.sublist h.ordered.2).filter _

private theorem Settled.keeps_action (h : Settled attended detached k b) (action : Action) :
    Keeps (· ∉ k.ledger.started) (fun _ => False) (Ledger.Settled action b k.ledger) k
      (action.execute b) k where
  sound := h.sound
  honours := Ledger.execute_honours action b h.sound.ledger fun _ hc => hc
  ended _ hc := hc.elim
  collected _ hc := .inl hc

private theorem Settled.keeps_reap (h : Settled attended detached k b) :
    Keeps (· ∈ detached) k.Over
      (fun b' => Ledger.Reaped k.Over (k.ledger.outstanding detached) k.ledger b'.pids) k b.reap
      k where
  sound := h.sound
  honours := by
    unfold Background.reap
    rw [h.background]
    refine .bind ((Ledger.keepRunning_honours _ _ (fun c hc => h.owes hc) h.nodup).mono
      fun kept g hkept => ?_)
    exact hkept
  ended _ hc := hc
  collected _ hc := .inl hc

private theorem since_eq {g g' : Ledger} {children : List Child}
    (h : g'.started = g.started ++ children) : g.since g' = children := by
  simp [Ledger.since, h]

private theorem outstanding_collect {g : Ledger} {others : List Child}
    (h : ∀ c ∈ detached, c ∉ others) :
    detached.filter (· ∉ g.collected ++ others) = g.outstanding detached := by
  refine List.filter_congr fun c hc => ?_
  simp [h c hc]

private theorem Settled.performs (h : Settled attended detached k b) {action : Action}
    {status : Int} (hsteps : Steps (action.execute b) k (.done ⟨.ok status, b'⟩) k') :
    Settled (if Ledger.Detaches action then attended else attended ++ k.ledger.since k'.ledger)
      (if Ledger.Detaches action then detached ++ k.ledger.since k'.ledger
        else detached) k' b' := by
  obtain ⟨hsound, hdone, -, -⟩ := (h.keeps_action action).steps hsteps
  obtain ⟨children, hstarted, hrest⟩ := hdone status rfl
  have hnew : ∀ c ∈ children, c ∉ k.ledger.started := by
    have hdistinct := hsound.ledger.distinct
    rw [hstarted] at hdistinct
    exact fun c hc hm => (List.nodup_append.mp hdistinct).2.2 c hm c hc rfl
  rw [since_eq hstarted]
  by_cases hdetaches : Ledger.Detaches action = true
  · obtain ⟨hpids, hcollected⟩ := (if_pos hdetaches).mp hrest
    rw [if_pos hdetaches, if_pos hdetaches]
    refine ⟨hsound, ?_, ⟨?_, ?_⟩, ?_, ?_⟩
    · rw [hstarted, ← List.append_assoc]
      exact h.parted.append_right children
    · rw [hstarted]
      exact h.ordered.1.trans (List.sublist_append_left _ _)
    · rw [hstarted]
      exact h.ordered.2.append (List.Sublist.refl _)
    · rw [hcollected]
      exact h.attended
    · have hkept : children.filter (· ∉ k'.ledger.collected) = children := by
        refine List.filter_eq_self.mpr fun c hc => ?_
        have hout : c ∉ k.ledger.collected := fun hm => hnew c hc (h.sound.ledger.known c hm)
        simp [hcollected, hout]
      have hsame : detached.filter (· ∉ k'.ledger.collected) = k.ledger.outstanding detached := by
        rw [hcollected, Ledger.outstanding]
      rw [Ledger.outstanding, List.filter_append, hkept, hsame, List.map_append, ← h.background]
      exact hpids
  · obtain ⟨hpids, hcollected⟩ := (if_neg hdetaches).mp hrest
    rw [if_neg hdetaches, if_neg hdetaches]
    have hothers : ∀ c ∈ detached, c ∉ children.reverse := fun c hc hm =>
      hnew c (List.mem_reverse.mp hm) (h.ordered.2.subset hc)
    refine ⟨hsound, ?_, ⟨?_, ?_⟩, fun c hc => ?_, ?_⟩
    · rw [hstarted]
      refine (h.parted.append_right children).trans ?_
      rw [List.append_assoc, List.append_assoc]
      exact List.perm_append_comm.append_left attended
    · rw [hstarted]
      exact h.ordered.1.append (List.Sublist.refl _)
    · rw [hstarted]
      exact h.ordered.2.trans (List.sublist_append_left _ _)
    · rw [hcollected]
      rcases List.mem_append.mp hc with hc | hc
      · exact List.mem_append_left _ (h.attended c hc)
      · exact List.mem_append_right _ (List.mem_reverse.mpr hc)
    · rw [Ledger.outstanding, hcollected, outstanding_collect hothers, ← h.background]
      exact congrArg Background.pids hpids

private theorem Settled.reaps (h : Settled attended detached k b)
    (hsteps : Steps b.reap k (.done b') k') : Settled attended detached k' b' := by
  obtain ⟨hsound, ⟨gone, hsub, hkept, hstarted, hcollected, -, -⟩, -, -⟩ :=
    h.keeps_reap.steps hsteps
  refine ⟨hsound, hstarted ▸ h.parted, hstarted ▸ h.ordered, fun c hc => ?_, ?_⟩
  · rw [hcollected]
    exact List.mem_append_left _ (h.attended c hc)
  · rw [hkept, Ledger.outstanding, Ledger.outstanding, List.filter_filter, hcollected]
    congr 1
    refine List.filter_congr fun c hc => ?_
    simp [and_comm]

private theorem Life.settled (h : Life attended detached k b) : Settled attended detached k b := by
  induction h with
  | begins =>
    refine ⟨⟨Ledger.sound_empty, fun c hc => absurd hc List.not_mem_nil⟩, .refl _,
      ⟨.slnil, .slnil⟩, ?_, rfl⟩
    exact fun c hc => absurd hc List.not_mem_nil
  | ends _ e hc he ih =>
    exact ⟨(Step.ended (x := Program.done ()) e hc he).sound ih.sound, ih.parted, ih.ordered,
      ih.attended, ih.background⟩
  | performs _ action status steps ih => exact ih.performs steps
  | reaps _ steps ih => exact ih.reaps steps

/-- A life of the interpreter leaves its children accounted for. -/
theorem Life.accounted (h : Life attended detached k b) : Accounted attended detached k b := by
  have hs := h.settled
  have hapart := hs.sound.ledger.apart
  refine ⟨hs.parted, hs.ordered, ⟨fun c hc => ?_, hs.sound.ledger.once⟩,
    ⟨hs.background, ?_⟩, ?_, ?_, ?_⟩
  · exact List.count_eq_one_of_mem hs.sound.ledger.once (hs.attended c hc)
  · rw [hs.background]
    exact hs.nodup.map_on fun c hc d hd => hapart c d (hs.owes hc).1 (hs.owes hd).1
  · exact fun action y k' hsteps => ((hs.keeps_action action).steps hsteps).collected
  · intro y k' hsteps c hc
    have hkeeps := hs.keeps_reap.steps hsteps
    refine (hkeeps.collected c hc).imp_right fun hm => ⟨hm, ?_⟩
    exact hkeeps.sound.ended c hc
  · intro b' k' hsteps
    have hs' := hs.reaps hsteps
    refine ⟨hs'.background, fun hmissed c hc hover => ?_⟩
    obtain ⟨-, ⟨gone, -, -, -, hcollected, -, hgone⟩, -, -⟩ := hs.keeps_reap.steps hsteps
    have hmem : c ∈ k'.ledger.collected := by
      rw [hcollected]
      exact List.mem_append_right _ (hgone hmissed c hc hover)
    refine ⟨hmem, fun hpid => ?_⟩
    -- nobody who is left has the number of the one who is gone, since both were there before
    rw [hs'.background] at hpid
    obtain ⟨d, hd, heq⟩ := List.mem_map.mp hpid
    have hnew := (hs'.owes hd).1.2
    have howes : k.ledger.Owes d := by
      refine ⟨hs.ordered.2.subset (hs'.owes hd).2, fun hm => hnew ?_⟩
      rw [hcollected]
      exact List.mem_append_left _ hm
    exact hnew (hapart d c howes (hs.owes hc).1 heq ▸ hmem)

end

/-! ### A pipeline in the background, one in the foreground, and two looks -/

private def behind : Pipeline :=
  { stages := [{ arguments := ["sleep"] }, { arguments := ["cat"] }], background := true }

private def ahead : Pipeline := { stages := [{ arguments := ["ls"] }] }

private def sleeper : Child := ⟨7, 0⟩

private def reader : Child := ⟨8, 1⟩

private def lister : Child := ⟨9, 2⟩

private theorem nobody {g : Ledger} {pid : Pid} (h : ∀ c ∈ g.started, c.pid ≠ pid) :
    ∀ c, g.Owes c → c.pid ≠ pid :=
  fun c hc => h c hc.1

private theorem life_behind :
    Life [] [sleeper, reader] ⟨{ started := [sleeper, reader] }, {}⟩ ⟨[7, 8]⟩ := by
  have hpipe := (Steps.step (.start (x := Action.execute (.run behind) {}) (k := {}))
    (.answered rfl ())).step (.answered (c := .pipe) rfl (.ok (3, 4)))
  have hfirst := (hpipe.step (.started 7 (nobody (by simp)))).step (.answered rfl ())
  have hsecond :=
    (hfirst.step (.started 8 (nobody (by simp [Ledger.start])))).step (.answered rfl ())
  have hdone := ((hsecond.step (.answered rfl ())).step (.answered rfl ())).step (.answered rfl ())
  exact Life.begins.performs (.run behind) 0 hdone

private theorem life_ahead : Life [lister] [sleeper, reader]
    ⟨{ started := [sleeper, reader, lister], collected := [lister] },
      .set {} 2 (.exited 0)⟩ ⟨[7, 8]⟩ := by
  have hnote := Steps.step (.start (x := Action.execute (.run ahead) ⟨[7, 8]⟩)
    (k := ⟨{ started := [sleeper, reader] }, {}⟩)) (.answered rfl ())
  have hwait := ((hnote.step (.started 9 (nobody (by simp [sleeper, reader])))).step
    (.answered rfl ())).step .waitInterrupted
  have howes : Ledger.Owes { started := [sleeper, reader, lister] } lister := ⟨by decide, by decide⟩
  have hended := hwait.step (.ended (c := lister) (.exited 0) howes rfl)
  have hdone := (hended.step (.awaited (c := lister) (e := .exited 0) howes
    (Table.get?_set_same {} 2 _))).step (.answered rfl ())
  exact life_behind.performs (.run ahead) 0 hdone

/-- The second child in the background has ended, but the look at it is interrupted the first
time. -/
private theorem life_looks : Life [lister] [sleeper, reader]
    ⟨{ started := [sleeper, reader, lister], collected := [lister, reader], missed := 1 },
      .set (.set {} 2 (.exited 0)) 1 (.exited 3)⟩ ⟨[7]⟩ := by
  have howes : Ledger.Owes { started := [sleeper, reader, lister], collected := [lister] } reader :=
    ⟨by decide, by decide⟩
  have hlives : Ledger.Owes
      { started := [sleeper, reader, lister], collected := [lister] } sleeper :=
    ⟨by decide, by decide⟩
  have hended := life_ahead.ends (.exited 3) howes (by decide)
  have hfirst := Steps.step (.start (x := Background.reap ⟨[7, 8]⟩)
    (k := ⟨{ started := [sleeper, reader, lister], collected := [lister] },
      .set (.set {} 2 (.exited 0)) 1 (.exited 3)⟩)) (.foundAlive (c := sleeper) hlives (by decide))
  have hmissed := hended.reaps (hfirst.step .lookInterrupted)
  have hsecond := Steps.step (.start (x := Background.reap ⟨[7, 8]⟩)
    (k := ⟨{ started := [sleeper, reader, lister], collected := [lister], missed := 1 },
      .set (.set {} 2 (.exited 0)) 1 (.exited 3)⟩)) (.foundAlive (c := sleeper) hlives (by decide))
  have hfound := (hsecond.step (.foundOver (c := reader) howes (Table.get?_set_same _ 1 _))).step
    (.answered rfl ())
  exact hmissed.reaps hfound

/-- One child is still running in the background, where another one was collected by the second
look, and the child in the foreground was collected by the action that has started it. -/
theorem accounted_of_two_looks : ∃ k : Custody,
    k.ledger.started = [⟨7, 0⟩, ⟨8, 1⟩, ⟨9, 2⟩] ∧ k.ledger.collected = [⟨9, 2⟩, ⟨8, 1⟩] ∧
    k.ledger.missed = 1 ∧ Accounted [⟨9, 2⟩] [⟨7, 0⟩, ⟨8, 1⟩] k ⟨[7]⟩ :=
  ⟨_, rfl, rfl, rfl, life_looks.accounted⟩

end PipeShell
