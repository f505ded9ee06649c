import Mathlib.Data.Set.Card
import PipeShell.Proofs.Job.Restoration

/-!
How many descriptors the start of a pipeline takes. Only the pipe before a stage and the pipe behind
it are there at a time, so that four descriptors are enough for any number of stages. With fewer of
them the first pipe cannot be made, or the second one, and then no stage has been started, or only
the first.
-/

set_option autoImplicit false
set_option relaxedAutoImplicit false

namespace PipeShell

open Program

variable {α : Type}

namespace Wires

variable {w : Wires} {limit : Nat}

theorem pipeReply_eq_ok {readEnd writeEnd : Fd} (h : w.pipeReply limit = .ok (readEnd, writeEnd)) :
    readEnd ∈ w.unused limit ∧ writeEnd ∈ w.unused limit ∧ readEnd ≠ writeEnd ∧
    2 ≤ (w.unused limit).length := by
  have hnodup := w.unused_nodup limit
  unfold pipeReply at h
  split at h
  · rename_i first second rest hunused
    cases h
    rw [hunused] at hnodup ⊢
    have hne : readEnd ≠ writeEnd :=
      fun heq => (List.nodup_cons.mp hnodup).1 (heq ▸ List.mem_cons_self)
    exact ⟨by simp, by simp, hne, by simp⟩
  · cases h

theorem pipeReply_eq_error {reason : Errno} (h : w.pipeReply limit = .error reason) :
    reason = .tooManyOpen ∧ (w.unused limit).length < 2 := by
  unfold pipeReply at h
  split at h
  · cases h
  · rename_i hfew
    cases h
    refine ⟨rfl, Nat.lt_of_not_le fun hroom => ?_⟩
    match hunused : w.unused limit with
    | [] => simp [hunused] at hroom
    | [_] => simp [hunused] at hroom
    | readEnd :: writeEnd :: rest => exact hfew readEnd writeEnd rest hunused

end Wires

namespace Joint

def fds : Option Joint → List Fd
  | none => []
  | some j => [j.link.readEnd, j.link.writeEnd]

variable {w : Wires} {j j' : Option Joint} {limit : Nat}

theorem length_number_le (j : Option Joint) : (number j).length ≤ 1 := by
  cases j <;> simp [number]

theorem length_fds (j : Option Joint) : (fds j).length = 2 * (number j).length := by
  cases j <;> rfl

theorem Fits.unused (h : Fits w j) {fd : Fd} (hfd : fd ∈ fds j) : w fd = none := by
  cases j with
  | none => cases hfd
  | some j =>
    rcases List.mem_pair.mp hfd with rfl | rfl
    · exact h.1
    · exact h.2.1

theorem plug_of_notMem {fd : Fd} (hfd : fd ∉ fds j) : plug w j fd = w fd := by
  cases j with
  | none => rfl
  | some j =>
    obtain ⟨hread, hwrite⟩ : fd ≠ j.link.readEnd ∧ fd ≠ j.link.writeEnd := by simpa [fds] using hfd
    rw [plug, Function.update_of_ne hwrite, Function.update_of_ne hread]

theorem plug_mem_ends {fd : Fd} (h : Fits w j) (hfd : fd ∈ fds j) :
    ∃ pipe ∈ number j, plug w j fd ∈ ends pipe := by
  cases j with
  | none => cases hfd
  | some j =>
    refine ⟨j.pipe, List.mem_singleton_self _, ?_⟩
    rcases List.mem_pair.mp hfd with rfl | rfl
    · rw [plug_readEnd h]
      exact List.mem_cons_self
    · rw [plug_writeEnd]
      exact List.mem_cons_of_mem _ List.mem_cons_self

theorem unused_plug (h : Fits w j) (hbelow : ∀ fd ∈ fds j, fd < limit) :
    (Wires.unused (plug w j) limit).length + 2 * (number j).length = (w.unused limit).length := by
  cases j with
  | none => rfl
  | some j =>
    obtain ⟨hread, hwrite, hne⟩ := h
    have hreadMem := Wires.mem_unused_iff.mpr ⟨hbelow j.link.readEnd (by simp [fds]), hread⟩
    have hwriteMem : j.link.writeEnd ∈ (w.unused limit).erase j.link.readEnd :=
      (List.mem_erase_of_ne hne.symm).mpr
        (Wires.mem_unused_iff.mpr ⟨hbelow j.link.writeEnd (by simp [fds]), hwrite⟩)
    have hfirst := List.length_erase_add_one hreadMem
    have hsecond := List.length_erase_add_one hwriteMem
    show (Wires.unused (Function.update _ _ _) limit).length + 2 * 1 = _
    rw [Wires.unused_update, Wires.unused_update]
    omega

end Joint

namespace Pipeline

open Descriptors

variable {limit : Nat}
  {d d' : Descriptors} {base : Wires} {before behind : Option Joint} {number : Nat} {stage : Stage}
  {rest : List Stage} {making past : List (Exchange α)} {next : Option Link}

/-! ### Where a start comes to an end for want of descriptors -/

theorem rationed_making {last : Bool} (h : Rationed limit d making d')
    (hmaking : Making last making next) :
    ∃ behind : Option Joint, next = behind.map (·.link) ∧ (last = true ↔ behind = none) ∧
      Joint.Fits d.wires behind ∧ (∀ fd ∈ Joint.fds behind, fd < limit) ∧
      2 * (Joint.number behind).length ≤ (d.wires.unused limit).length ∧ d' = { d with
        wires := Joint.plug d.wires behind, made := d.made ++ Joint.number behind } := by
  obtain ⟨behind, hnext, hlast, hfits, hd'⟩ := run_making h.run hmaking
  refine ⟨behind, hnext, hlast, hfits, ?_⟩
  cases hmaking with
  | atEnd =>
    obtain rfl := hlast.mp rfl
    exact ⟨fun fd hfd => absurd hfd List.not_mem_nil, Nat.zero_le _, hd'⟩
  | made link =>
    cases h with
    | step _ hgranted _ =>
      obtain ⟨hread, hwrite, -, hroom⟩ := Wires.pipeReply_eq_ok hgranted.symm
      obtain ⟨j, rfl, rfl⟩ := Option.map_eq_some_iff.mp hnext.symm
      refine ⟨fun fd hfd => ?_, hroom, hd'⟩
      rcases List.mem_pair.mp hfd with rfl | rfl
      · exact (Wires.mem_unused_iff.mp hread).1
      · exact (Wires.mem_unused_iff.mp hwrite).1

theorem Poised.rationed_started {child : Program α} {reply : Except Errno Pid} {record : Log.Record}
    (h : Poised base before number (stage :: rest) d) (hmaking : Making rest.isEmpty making next)
    (hrun : Rationed limit d (making ++ .forked child reply :: .called (.note record) (some ()) ::
      (Link.closing (before.map (·.link)) ++ past)) d') :
    ∃ behind : Option Joint, next = behind.map (·.link) ∧
      (rest.isEmpty = true ↔ behind = none) ∧ (∀ fd ∈ Joint.fds behind, fd < limit) ∧
      2 * (Joint.number behind).length ≤ (d.wires.unused limit).length ∧
      ∃ d'', Poised base behind (number + 1) rest d'' ∧ Rationed limit d'' past d' := by
  obtain ⟨d₁, hmade, hrun⟩ := rationed_append_iff.mp hrun
  obtain ⟨behind, hnext, hend, hfits, hbelow, hroom, rfl⟩ := rationed_making hmade hmaking
  refine ⟨behind, hnext, hend, hbelow, hroom, ?_⟩
  cases hrun with
  | step hfork _ hrun =>
    cases hrun with
    | step hnote _ hrun =>
      cases hfork with
      | kept =>
        cases hnote with
        | kept =>
          obtain ⟨d₂, hclosing, hrun⟩ := rationed_append_iff.mp hrun
          have hfits' := hfits
          rw [h.wires] at hfits'
          have hplug : Joint.plug d.wires behind = Joint.plug (Joint.plug base behind) before := by
            rw [h.wires]
            exact Joint.plug_comm h.fits hfits'
          obtain rfl := run_closing hclosing.run (Joint.Fits.swap h.fits hfits').2 hplug
          exact ⟨_, h.advance hend hfits, hrun⟩

/-- How the start of so many stages goes if there is some room for descriptors. The first pipe takes
two of them for good; from then on one pipe is closed for each one that is made. -/
structure Spent (first : Prop) (count room started : Nat)
    (result : Except Fatal (List Pid)) : Prop where
  none_started : 2 ≤ count → room < 2 → result = .error (.noPipe .tooManyOpen) ∧ started = 0
  one_started : first → 3 ≤ count → 2 ≤ room → room < 4 →
    result = .error (.noPipe .tooManyOpen) ∧ started = 1
  all_started : (2 ≤ count → 2 ≤ room) → (first → 3 ≤ count → 4 ≤ room) → ∃ pids, result = .ok pids

theorem Launch.spent {launched : List (Exchange α)} {previous : Option Link}
    {result : Except Fatal (List Pid)} (h : Launch number previous rest launched result) :
    ∀ {base : Wires} {before : Option Joint} {d d' : Descriptors},
      previous = before.map (·.link) →
      Poised base before number rest d → (∀ fd ∈ Joint.fds before, fd < limit) →
      Rationed limit d launched d' → (∀ stage ∈ rest, stage.zeroByte? = none) →
      Spent (before = none) rest.length (d.wires.unused limit).length
        (children launched).length result := by
  induction h with
  | complete number previous =>
    intro base before d d' _ _ _ _ _
    exact ⟨fun h => by simp at h, fun _ h => by simp at h, fun _ _ => ⟨[], rfl⟩⟩
  | zeroByte number previous hzero =>
    intro base before d d' _ _ _ _ hstrings
    rw [hstrings _ List.mem_cons_self] at hzero
    cases hzero
  | @noPipe number previous stage rest reason _ hmore =>
    intro base before d d' _ _ _ hrun _
    cases hrun with
    | step _ hgranted _ =>
      obtain ⟨rfl, hroom⟩ := Wires.pipeReply_eq_error hgranted.symm
      have hrest : 0 < rest.length := List.length_pos_iff.mpr (List.isEmpty_eq_false_iff.mp hmore)
      refine ⟨fun _ _ => ⟨rfl, ?_⟩, fun _ _ _ => by omega, fun hall => ?_⟩
      · exact congrArg List.length (children_closing previous)
      · have htwo := hall (by rw [List.length_cons]; omega)
        omega
  | noProcess number previous reason _ hmaking =>
    intro base before d d' _ _ _ hrun _
    obtain ⟨d₁, -, hrun⟩ := rationed_append_iff.mp hrun
    cases hrun with
    | step _ hgranted _ => exact hgranted.elim
  | @started number previous stage rest pid making past next result _ hmaking hlaunch ih =>
    rintro base before d d' rfl hpoised hbelow hrun hstrings
    obtain ⟨behind, hnext, hend, hbelow', hroom, d'', hpoised', hrun⟩ :=
      hpoised.rationed_started hmaking hrun
    have hspent := ih hnext hpoised' hbelow' hrun fun stage hstage =>
      hstrings stage (List.mem_cons_of_mem _ hstage)
    -- how much room there is now, and how much there will be at the next stage
    have hnow := Joint.unused_plug hpoised.fits hbelow
    have hlater := Joint.unused_plug hpoised'.fits hbelow'
    rw [← hpoised.wires] at hnow
    rw [← hpoised'.wires] at hlater
    rw [hmaking.children_started, List.length_cons, List.length_cons]
    cases behind with
    | none =>
      obtain rfl := List.isEmpty_iff.mp (hend.mpr rfl)
      obtain ⟨pids, rfl⟩ := hspent.all_started (fun h => by simp at h) (fun _ h => by simp at h)
      exact ⟨fun h => by simp at h, fun _ h => by simp at h, fun _ _ => ⟨pid :: pids, rfl⟩⟩
    | some j =>
      replace hroom : 2 ≤ (d.wires.unused limit).length := hroom
      replace hlater : (d''.wires.unused limit).length + 2 = (base.unused limit).length := hlater
      constructor
      case none_started => exact fun _ _ => by omega
      case one_started =>
        rintro rfl hcount _ hfew
        replace hnow : (d.wires.unused limit).length = (base.unused limit).length := hnow
        obtain ⟨rfl, hnone⟩ := hspent.none_started (by omega) (by omega)
        exact ⟨rfl, congrArg Nat.succ hnone⟩
      case all_started =>
        intro _ hall
        obtain ⟨pids, rfl⟩ : ∃ pids, result = .ok pids := by
          refine hspent.all_started (fun hcount => ?_) (by simp)
          cases before with
          | none =>
            have hfour := hall rfl (by omega)
            replace hnow : (d.wires.unused limit).length = (base.unused limit).length := hnow
            omega
          | some j =>
            replace hnow : (d.wires.unused limit).length + 2 = (base.unused limit).length := hnow
            omega
        exact ⟨pid :: pids, rfl⟩

/-! ### What is held at a time -/

/-- What a process holds besides what it had before it started so many stages: ends of pipes that it
has made, and at any number of stages no more than four of them. -/
structure Held (count : Nat) (wires : Wires) (d : Descriptors) : Prop where
  few : {fd | d.wires fd ≠ wires fd}.encard ≤ ((min (2 * (count - 1)) 4 : Nat) : ℕ∞)
  ends : ∀ fd, d.wires fd ≠ wires fd → ∃ pipe ∈ d.made, d.wires fd ∈ Joint.ends pipe

theorem held_of_eq {count : Nat} {wires : Wires} (h : d.wires = wires) : Held count wires d where
  few := by simp [h]
  ends fd hfd := absurd (congrFun h fd) hfd

def Discards (fds : List Fd) (e : Exchange α) : Prop :=
  e.Keeps ∨ ∃ fd ∈ fds, e = .called (.close fd) (some ())

theorem discards_closing {j : Option Joint} {fds : List Fd} (h : ∀ fd ∈ Joint.fds j, fd ∈ fds) :
    ∀ e ∈ (Link.closing (j.map (·.link)) : List (Exchange α)), Discards fds e := by
  intro e he
  cases j with
  | none => cases he
  | some j =>
    rcases List.mem_pair.mp he with rfl | rfl
    · exact .inr ⟨_, h _ (by simp [Joint.fds]), rfl⟩
    · exact .inr ⟨_, h _ (by simp [Joint.fds]), rfl⟩

theorem run_discards {fds : List Fd} {top : Wires} (hrun : Run d past d')
    (hpast : ∀ e ∈ past, Discards fds e) (hnew : ∀ fd ∈ fds, base fd = none)
    (hd : ∀ fd, d.wires fd = base fd ∨ fd ∈ fds ∧ d.wires fd = top fd) :
    d'.made = d.made ∧ ∀ fd, d'.wires fd = base fd ∨ fd ∈ fds ∧ d'.wires fd = top fd := by
  induction hrun with
  | start => exact ⟨rfl, hd⟩
  | @step d _ _ _ _ hstep _ ih =>
    have hfirst := hpast _ List.mem_cons_self
    have hrest := fun e he => hpast e (List.mem_cons_of_mem _ he)
    cases hstep with
    | made =>
      rcases hfirst with hkeeps | ⟨fd, -, heq⟩
      · exact hkeeps.elim
      · cases heq
    | kept => exact ih hrest hd
    | closed fd =>
      obtain ⟨closing, hclosing, heq⟩ := hfirst.resolve_left id
      obtain rfl : fd = closing := by cases heq; rfl
      refine ih hrest fun other => ?_
      by_cases hother : other = fd
      · subst hother
        exact .inl ((Function.update_self ..).trans (hnew other hclosing).symm)
      · dsimp only
        rw [Function.update_of_ne hother]
        exact hd other

theorem held_of_discards {count : Nat} (hfits : Joint.Fits base before)
    (hfits' : Joint.Fits (Joint.plug base before) behind)
    (hwires : d.wires = Joint.plug (Joint.plug base before) behind)
    (hmade : ∀ pipe ∈ Joint.number before ++ Joint.number behind, pipe ∈ d.made)
    (hcount : (Joint.number before ++ Joint.number behind).length ≤ count - 1)
    (hrun : Run d past d') (hpast : ∀ e ∈ past, Discards (Joint.fds before ++ Joint.fds behind) e) :
    Held count base d' := by
  have hnew : ∀ fd ∈ Joint.fds before ++ Joint.fds behind, base fd = none := by
    intro fd hfd
    exact (List.mem_append.mp hfd).elim hfits.unused (Joint.Fits.swap hfits hfits').1.unused
  have hd (fd : Fd) : d.wires fd = base fd ∨ fd ∈ Joint.fds before ++ Joint.fds behind ∧
      d.wires fd = d.wires fd := by
    by_cases hfd : fd ∈ Joint.fds before ++ Joint.fds behind
    · exact .inr ⟨hfd, rfl⟩
    · obtain ⟨hbefore, hbehind⟩ :
          fd ∉ Joint.fds before ∧ fd ∉ Joint.fds behind := by simpa using hfd
      rw [hwires, Joint.plug_of_notMem hbehind, Joint.plug_of_notMem hbefore]
      exact .inl rfl
  obtain ⟨hmade', hd'⟩ := run_discards hrun hpast hnew hd
  have hchanged (fd : Fd) (hfd : d'.wires fd ≠ base fd) :
      fd ∈ Joint.fds before ++ Joint.fds behind ∧ d'.wires fd = d.wires fd :=
    (hd' fd).resolve_left hfd
  constructor
  case few =>
    have hsubset : {fd | d'.wires fd ≠ base fd} ⊆
        ((Joint.fds before ++ Joint.fds behind).toFinset : Set Fd) := by
      intro fd hfd
      exact List.mem_toFinset.mpr (hchanged fd hfd).1
    refine (Set.encard_le_encard hsubset).trans ?_
    rw [Set.encard_coe_eq_coe_finsetCard]
    have hcard := List.toFinset_card_le (Joint.fds before ++ Joint.fds behind)
    have hbefore := Joint.length_number_le before
    have hbehind := Joint.length_number_le behind
    rw [List.length_append, Joint.length_fds, Joint.length_fds] at hcard
    rw [List.length_append] at hcount
    exact_mod_cast
      (by omega : (Joint.fds before ++ Joint.fds behind).toFinset.card ≤ min (2 * (count - 1)) 4)
  case ends =>
    intro fd hfd
    obtain ⟨hmem, hsame⟩ := hchanged fd hfd
    have hleads : ∃ pipe ∈ Joint.number before ++ Joint.number behind,
        d.wires fd ∈ Joint.ends pipe := by
      rcases List.mem_append.mp hmem with hmem | hmem
      · obtain ⟨pipe, hpipe, hends⟩ := Joint.plug_mem_ends (Joint.Fits.swap hfits hfits').2 hmem
        rw [← Joint.plug_comm hfits hfits', ← hwires] at hends
        exact ⟨pipe, List.mem_append_left _ hpipe, hends⟩
      · obtain ⟨pipe, hpipe, hends⟩ := Joint.plug_mem_ends hfits' hmem
        rw [← hwires] at hends
        exact ⟨pipe, List.mem_append_right _ hpipe, hends⟩
    obtain ⟨pipe, hpipe, hends⟩ := hleads
    exact ⟨pipe, hmade' ▸ hmade pipe hpipe, hsame ▸ hends⟩

theorem Poised.before_made (h : Poised base before number (stage :: rest) d) :
    (∀ pipe ∈ Joint.number before, pipe ∈ d.made) ∧ (Joint.number before).length ≤ number := by
  obtain ⟨hlength, hlast⟩ := h.made (List.cons_ne_nil _ _)
  cases before with
  | none => exact ⟨fun pipe hpipe => absurd hpipe List.not_mem_nil, Nat.zero_le _⟩
  | some j =>
    have hmem : j.pipe ∈ d.made := List.mem_of_getLast? hlast
    refine ⟨fun pipe hpipe => List.mem_singleton.mp hpipe ▸ hmem, ?_⟩
    rw [← hlength]
    exact List.length_pos_of_mem hmem

theorem Poised.held_alone (h : Poised base before number (stage :: rest) d) (hrun : Run d past d')
    (hpast : ∀ e ∈ past, Discards (Joint.fds before) e) :
    Held (number + (stage :: rest).length) base d' := by
  obtain ⟨hmade, hnumber⟩ := h.before_made
  have hfits : Joint.Fits (Joint.plug base before) none := trivial
  refine held_of_discards h.fits hfits h.wires ?_ ?_ hrun ?_
  · simpa [Joint.number] using hmade
  · simp only [Joint.number, Option.map_none, Option.toList_none, List.append_nil,
      List.length_cons] at hnumber ⊢
    omega
  · simpa [Joint.fds] using hpast

theorem Poised.held {earlier later tail : List (Exchange α)}
    (h : Poised base before number (stage :: rest) d) (hmaking : Making rest.isEmpty making next)
    (htail : ∀ behind : Option Joint, next = behind.map (·.link) →
      ∀ e ∈ tail, Discards (Joint.fds before ++ Joint.fds behind) e)
    (heq : making ++ tail = earlier ++ later) (hrun : Run d earlier d') :
    Held (number + (stage :: rest).length) base d' := by
  obtain ⟨hmade, hnumber⟩ := h.before_made
  generalize hend : rest.isEmpty = last at hmaking
  cases hmaking with
  | atEnd =>
    replace heq : tail = earlier ++ later := heq
    refine h.held_alone hrun fun e he => ?_
    simpa [Joint.fds] using htail none rfl e (heq ▸ List.mem_append_left _ he)
  | made link =>
    cases earlier with
    | nil => exact h.held_alone hrun fun e he => absurd he List.not_mem_nil
    | cons e earlier =>
      obtain ⟨rfl, htaken⟩ := List.cons.inj heq
      obtain ⟨d₁, hpipe, hrun⟩ :
          ∃ d₁, Run d [.called .pipe (some (.ok (link.readEnd, link.writeEnd)))] d₁ ∧
            Run d₁ earlier d' := by
        cases hrun with
        | step hstep hrun => exact ⟨_, .step hstep (.start _), hrun⟩
      obtain ⟨behind, hnext, -, hfits, rfl⟩ := run_making hpipe (.made link)
      have hrest := List.length_pos_iff.mpr (List.isEmpty_eq_false_iff.mp hend)
      refine held_of_discards h.fits (h.wires ▸ hfits) ?_ ?_ ?_ hrun fun e he => ?_
      · rw [h.wires]
      · intro pipe hpipe
        exact List.mem_append.mpr ((List.mem_append.mp hpipe).imp_left (hmade pipe))
      · have hbehind := Joint.length_number_le behind
        rw [List.length_append, List.length_cons]
        omega
      · exact htail behind hnext e
          (by rw [show tail = earlier ++ later from htaken]; exact List.mem_append_left _ he)

theorem Launch.held {launched : List (Exchange α)} {previous : Option Link}
    {result : Except Fatal (List Pid)} (h : Launch number previous rest launched result) :
    ∀ {base : Wires} {before : Option Joint} {d d' : Descriptors}
      {earlier later : List (Exchange α)}, previous = before.map (·.link) →
      Poised base before number rest d →
      launched = earlier ++ later → Run d earlier d' → Held (number + rest.length) base d' := by
  induction h with
  | complete number previous =>
    intro base before d d' earlier later _ hpoised heq hrun
    obtain rfl := hpoised.last rfl
    obtain ⟨rfl, rfl⟩ := List.append_eq_nil_iff.mp heq.symm
    cases hrun
    exact held_of_eq hpoised.wires
  | zeroByte number previous hzero =>
    rintro base before d d' earlier later rfl hpoised heq hrun
    refine hpoised.held_alone hrun fun e he => ?_
    exact discards_closing (fun _ => id) e (heq ▸ List.mem_append_left _ he)
  | noPipe number previous reason hzero hmore =>
    rintro base before d d' earlier later rfl hpoised heq hrun
    refine hpoised.held_alone hrun fun e he => ?_
    rcases List.mem_cons.mp (heq ▸ List.mem_append_left later he) with rfl | he
    · exact .inl trivial
    · exact discards_closing (fun _ => id) e he
  | noProcess number previous reason hzero hmaking =>
    rintro base before d d' earlier later rfl hpoised heq hrun
    refine hpoised.held hmaking (fun behind hnext e he => ?_) heq hrun
    rcases List.mem_cons.mp he with rfl | he
    · exact .inl trivial
    · rw [hnext] at he
      rcases List.mem_append.mp he with he | he
      · exact discards_closing (fun fd => List.mem_append_right _) e he
      · exact discards_closing (fun fd => List.mem_append_left _) e he
  | @started number previous stage rest pid making past next result hzero hmaking hlaunch ih =>
    rintro base before d d' earlier later rfl hpoised heq hrun
    rw [← List.cons_append, ← List.cons_append, ← List.append_assoc] at heq
    rcases List.append_eq_append_iff.mp heq with ⟨others, rfl, rfl⟩ | ⟨left, hleft, -⟩
    · -- the moment lies behind the turn of the stage
      rw [List.append_assoc, List.cons_append, List.cons_append] at hrun
      obtain ⟨behind, hnext, d₁, hpoised', -, -, hrun⟩ := hpoised.run_started hmaking hrun
      have hheld := ih hnext hpoised' rfl hrun
      rwa [Nat.add_assoc, Nat.add_comm 1] at hheld
    · refine hpoised.held hmaking (fun behind hnext e he => ?_) hleft hrun
      rcases List.mem_cons.mp he with rfl | he
      · exact .inl trivial
      · rcases List.mem_cons.mp he with rfl | he
        · exact .inl trivial
        · exact discards_closing (fun fd => List.mem_append_left _) e he

/-! ### Whole pipelines -/

theorem Launch.held_whole {stages : List Stage} {launched earlier later : List (Exchange α)}
    {result : Except Fatal (List Pid)} {wires : Wires} (h : Launch 0 none stages launched result)
    (heq : launched = earlier ++ later) (hrun : Run { wires := wires } earlier d) :
    Held stages.length wires d := by
  have hprevious : none = (none : Option Joint).map (·.link) := rfl
  have hheld := h.held hprevious (poised_start wires stages) heq hrun
  rwa [Nat.zero_add] at hheld

/-- How the start of so many stages goes if there is some room for descriptors: whether a pipe is
refused, and how many stages are started. -/
structure Allowance {β : Type} (count room started : Nat) (result : Except Fatal β) : Prop where
  refused_iff : (∃ reason, result = .error (.noPipe reason)) ↔ 2 ≤ count ∧ room < 2 ∨
    3 ≤ count ∧ room < 4
  none_started : 2 ≤ count → room < 2 → started = 0
  one_started : 3 ≤ count → 2 ≤ room → room < 4 → started = 1
  all_started : ¬(2 ≤ count ∧ room < 2 ∨ 3 ≤ count ∧ room < 4) →
    started = count ∧ ∃ b, result = .ok b

theorem Launch.allowance {stages : List Stage} {launched : List (Exchange α)}
    {result : Except Fatal (List Pid)} {wires : Wires} (h : Launch 0 none stages launched result)
    (hrun : Rationed limit { wires := wires } launched d')
    (hstrings : ∀ stage ∈ stages, stage.zeroByte? = none) :
    Allowance stages.length (wires.unused limit).length (children launched).length result := by
  have hspent : Spent ((none : Option Joint) = none) stages.length (wires.unused limit).length
      (children launched).length
      result := h.spent rfl (poised_start wires stages)
        (fun fd hfd => absurd hfd List.not_mem_nil) hrun hstrings
  obtain ⟨hnone, hone, hall⟩ := hspent
  have hcomplete : ¬(2 ≤ stages.length ∧ (wires.unused limit).length < 2 ∨
      3 ≤ stages.length ∧ (wires.unused limit).length < 4) → ∃ pids, result = .ok pids :=
    fun hroom => hall (fun _ => by omega) fun _ _ => by omega
  constructor
  case refused_iff =>
    constructor
    · rintro ⟨reason, hresult⟩
      by_contra hroom
      obtain ⟨pids, hpids⟩ := hcomplete hroom
      rw [hresult] at hpids
      cases hpids
    · intro hroom
      by_cases hfew : (wires.unused limit).length < 2
      · exact ⟨_, (hnone (by omega) hfew).1⟩
      · exact ⟨_, (hone rfl (by omega) (by omega) (by omega)).1⟩
  case none_started => exact fun hcount hfew => (hnone hcount hfew).2
  case one_started => exact fun hcount htwo hfew => (hone rfl hcount htwo hfew).2
  case all_started =>
    intro hroom
    obtain ⟨pids, hpids⟩ := hcomplete hroom
    obtain ⟨hmap, hlength⟩ := h.children_eq.1 pids hpids
    refine ⟨?_, pids, hpids⟩
    rw [← hlength, ← hmap, List.length_map]

theorem Allowance.of_follow {p : Pipeline} {background : Background} {count room started : Nat}
    {result : Except Fatal (List Pid)} {after : List (Exchange Outcome)} {outcome : Outcome}
    (h : Allowance count room started result)
    (hafter : Course (p.follow background result) after (some outcome)) :
    Allowance count room started outcome.status := by
  cases result with
  | error fatal =>
    obtain ⟨-, rfl⟩ := course_done_iff.mp hafter
    refine ⟨⟨fun ⟨reason, hreason⟩ => h.refused_iff.mp ⟨reason, ?_⟩, fun hroom => ?_⟩,
      h.none_started, h.one_started, fun hroom => ?_⟩
    · cases hreason
      rfl
    · obtain ⟨reason, hreason⟩ := h.refused_iff.mpr hroom
      cases hreason
      exact ⟨reason, rfl⟩
    · obtain ⟨-, pids, hpids⟩ := h.all_started hroom
      cases hpids
  | ok pids =>
    obtain ⟨n, hstatus⟩ :=
      (hafter.of_confined (p.follow_attends background (.ok pids))).2.2 outcome rfl ⟨pids, rfl⟩
    refine ⟨⟨fun ⟨reason, hreason⟩ => ?_, fun hroom => ?_⟩, h.none_started, h.one_started,
      fun hroom => ⟨(h.all_started hroom).1, n, hstatus⟩⟩
    · rw [hstatus] at hreason
      cases hreason
    · obtain ⟨reason, hreason⟩ := h.refused_iff.mpr hroom
      cases hreason

theorem execute_held {p : Pipeline} {background : Background}
    {earlier later : List (Exchange Outcome)} {outcome : Outcome} {wires : Wires}
    (h : Course ((Action.run p).execute background) (earlier ++ later) (some outcome))
    (hrun : Run { wires := wires } earlier d) : Held p.stages.length wires d := by
  obtain ⟨launched, result, after, heq, hlaunch, hafter⟩ := course_execute_iff.mp h
  cases earlier with
  | nil =>
    cases hrun
    exact held_of_eq rfl
  | cons e earlier =>
    obtain ⟨rfl, hparts⟩ := List.cons.inj heq
    cases hrun with
    | step hnote hrun =>
      cases hnote with
      | kept =>
        rcases List.append_eq_append_iff.mp hparts with ⟨rest, hlaunched, -⟩ | ⟨rest, rfl, hrest⟩
        · exact hlaunch.held_whole hlaunched hrun
        · -- the start is over, and the descriptors are as they were
          obtain ⟨d₁, hlaunched, hrun⟩ := run_append_iff.mp hrun
          obtain rfl := hrun.of_keeps fun e he =>
            follow_keeps hafter e (hrest ▸ List.mem_append_left _ he)
          exact held_of_eq (hlaunch.restores rfl (poised_start wires p.stages) hlaunched).1

theorem exists_rationed {x : Program α} {forks : Prop}
    {Q : α → Prop} (hx : x.Confined Manages forks Q) (limit : Nat)
    (d : Descriptors) : ∃ past a d', Course x past (some a) ∧ Rationed limit d past d' := by
  induction x generalizing d with
  | done a => exact ⟨[], a, d, .done a, .start d⟩
  | call c next ih =>
    obtain ⟨hmanages, hnext⟩ : Manages c ∧ _ := hx
    cases c with
    | note record =>
      obtain ⟨past, a, d', hcourse, hrun⟩ := ih () (hnext ()) d
      exact ⟨_ :: past, a, d', .answered (c := .note record) () hcourse,
        .step (.kept trivial) trivial hrun⟩
    | close fd =>
      obtain ⟨past, a, d', hcourse, hrun⟩ := ih () (hnext ()) _
      exact ⟨_ :: past, a, d', .answered (c := .close fd) () hcourse,
        .step (.closed fd) trivial hrun⟩
    | waitFor pid =>
      obtain ⟨past, a, d', hcourse, hrun⟩ := ih (.error .noChild) (hnext _) d
      exact ⟨_ :: past, a, d', .answered (c := .waitFor pid) (.error .noChild) hcourse,
        .step (.kept trivial) trivial hrun⟩
    | pipe =>
      cases hreply : d.wires.pipeReply limit with
      | error reason =>
        obtain ⟨past, a, d', hcourse, hrun⟩ := ih (.error reason) (hnext _) d
        exact ⟨_ :: past, a, d', .answered (c := .pipe) (.error reason) hcourse,
          .step (.kept trivial) hreply.symm hrun⟩
      | ok ends =>
        obtain ⟨hread, hwrite, hne, -⟩ := Wires.pipeReply_eq_ok hreply
        obtain ⟨pipe, hpipe⟩ := Infinite.exists_notMem_finset d.made.toFinset
        have hfits : Joint.Fits d.wires (some ⟨⟨ends.1, ends.2⟩, pipe⟩) :=
          ⟨(Wires.mem_unused_iff.mp hread).2, (Wires.mem_unused_iff.mp hwrite).2, hne⟩
        obtain ⟨past, a, d', hcourse, hrun⟩ := ih (.ok ends) (hnext _) _
        exact ⟨_ :: past, a, d', .answered (c := .pipe) (.ok ends) hcourse,
          .step (.made _ hfits fun hmem => hpipe (List.mem_toFinset.mpr hmem)) hreply.symm hrun⟩
    | _ => exact hmanages.elim
  | fork child next _ ih =>
    obtain ⟨past, a, d', hcourse, hrun⟩ := ih (.ok 0) (hx.2 _) d
    exact ⟨_ :: past, a, d', .forked (.ok 0) hcourse, .step (.kept trivial) trivial hrun⟩
  | transfer => exact hx.elim
  | flood => exact hx.elim

theorem allowance_of_run {p : Pipeline} (hstrings : ∀ stage ∈ p.stages, stage.zeroByte? = none)
    {background : Background} {m₀ m : Machine Outcome} {pid : Pid} {before after : Process Outcome}
    {es : List Event} (hs : m₀.Sound) (hbefore : m₀.processes.get? pid = some before)
    (hprogram : before.program = (Action.run p).execute background) (hrun : m₀.Run es m)
    (hafter : m.processes.get? pid = some after) (hending : after.ending? = none) :
    Held p.stages.length before.descriptors.get?
      { wires := after.descriptors.get?, made := Event.pipedBy pid es } ∧
      ∀ outcome, after.program = .done outcome → Allowance p.stages.length
        (before.descriptors.unused before.limit).length
        (Event.startedBy pid es).length outcome.status := by
  have hmanages := execute_manages p background
  rw [← hprogram] at hmanages
  obtain ⟨hconfined, past, d, haccounts⟩ := accounts_of_run hs hbefore hmanages hrun hafter hending
  constructor
  · -- what is still to be done can be done, so that this is a moment of a whole course
    obtain ⟨more, outcome, d', hmore, -⟩ := exists_rationed hconfined before.limit d
    have hcourse := haccounts.leaves more (some outcome) hmore
    rw [hprogram] at hcourse
    obtain ⟨hfew, hends⟩ := execute_held hcourse haccounts.run
    rw [haccounts.wires] at hfew hends
    rw [haccounts.made] at hends
    exact ⟨hfew, hends⟩
  · intro outcome hdone
    have hcourse : Course ((Action.run p).execute background) past (some outcome) := by
      rw [← hprogram, ← List.append_nil past]
      exact haccounts.leaves [] (some outcome) (hdone ▸ .done outcome)
    have hstarted := congrArg List.length haccounts.started
    obtain ⟨launched, result, later, rfl, hlaunch, hlater⟩ := course_execute_iff.mp hcourse
    have hchildless := hlater.childless (p.follow_attends background result)
    rw [children_execute _ hchildless, List.length_map] at hstarted
    cases haccounts.rationed with
    | step hnote _ hration =>
      cases hnote with
      | kept =>
        obtain ⟨d₁, hration, -⟩ := rationed_append_iff.mp hration
        have hallowance := (hlaunch.allowance hration hstrings).of_follow hlater
        rwa [hstarted, Wires.unused_get?] at hallowance

/-- A pipeline of any length is started if there are four descriptors that are not in use, and if
there are fewer of them it fails with its first pipe or its second; meanwhile no more than four are
taken. That is so on any system that refuses a pipe only if there is no room for it, and in every
run of a machine. -/
theorem four_descriptors_suffice (p : Pipeline)
    (hstrings : ∀ stage ∈ p.stages, stage.zeroByte? = none) :
    (∀ (wires : Wires) (limit : Nat),
      (∃ past result d, Course (start p.stages) past (some result) ∧
        Rationed limit { wires := wires } past d) ∧
      ∀ past result d, Course (start p.stages) past (some result) →
        Rationed limit { wires := wires } past d →
        Allowance p.stages.length (wires.unused limit).length (children past).length result ∧
        ∀ earlier later d', past = earlier ++ later → Rationed limit { wires := wires } earlier d' →
          Held p.stages.length wires d') ∧
    ∀ (m₀ : Machine Outcome)
      (pid : Pid) (before : Process Outcome) (background : Background), m₀.Sound →
      m₀.processes.get? pid = some before → before.program = (Action.run p).execute background →
      ∀ es m after, m₀.Run es m → m.processes.get? pid = some after → after.ending? = none →
        Held p.stages.length before.descriptors.get?
          { wires := after.descriptors.get?, made := Event.pipedBy pid es } ∧
        ∀ outcome, after.program = .done outcome → Allowance p.stages.length
          (before.descriptors.unused before.limit).length
          (Event.startedBy pid es).length outcome.status := by
  constructor
  · intro wires limit
    refine ⟨exists_rationed (startFrom_manages 0 none p.stages) limit _,
      fun past result d hcourse hrun => ?_⟩
    have hlaunch := course_start_iff.mp hcourse
    refine ⟨hlaunch.allowance hrun hstrings, fun earlier later d' heq hearlier => ?_⟩
    exact hlaunch.held_whole heq hearlier.run
  · intro m₀ pid before background hs hbefore hprogram es m after hrun hafter hending
    exact allowance_of_run hstrings hs hbefore hprogram hrun hafter hending

private def endlessHead : Pipeline :=
  ⟨[⟨["yes"], none, none⟩, ⟨["cat"], none, none⟩, ⟨["head"], none, none⟩], false⟩

private def threeStreams : Wires := fun fd => if fd < 3 then some (.file fd) else none

/-- With three descriptors to spare the second pipe is refused when one stage is started. With four
all are. -/
theorem second_pipe_of_three_stages :
    (∃ past reason d, Course (start endlessHead.stages) past (some (.error (.noPipe reason))) ∧
      Rationed 6 { wires := threeStreams } past d ∧ (children past).length = 1) ∧
    ∃ past pids d, Course (start endlessHead.stages) past (some (.ok pids)) ∧
      Rationed 7 { wires := threeStreams } past d ∧ (children past).length = 3 := by
  have hbudget := (four_descriptors_suffice endlessHead (by decide)).1 threeStreams
  constructor
  · obtain ⟨⟨past, result, d, hcourse, hrun⟩, hall⟩ := hbudget 6
    have hallowance := (hall past result d hcourse hrun).1
    have hone := hallowance.one_started (by decide) (by decide) (by decide)
    obtain ⟨reason, rfl⟩ := hallowance.refused_iff.mpr (.inr (by decide))
    exact ⟨past, reason, d, hcourse, hrun, hone⟩
  · obtain ⟨⟨past, result, d, hcourse, hrun⟩, hall⟩ := hbudget 7
    obtain ⟨hthree, pids, rfl⟩ := (hall past result d hcourse hrun).1.all_started (by decide)
    exact ⟨past, pids, d, hcourse, hrun, hthree⟩

end Pipeline

end PipeShell
