import PipeShell.Proofs.Job.Descriptors
import PipeShell.Proofs.Job.Launch

/-!
The descriptors of the interpreter. While it starts a pipeline it opens nothing but both ends of
pipes and closes nothing else, and whichever way the start goes, every end is closed once; in the
end each descriptor leads where it led before.
-/

set_option autoImplicit false
set_option relaxedAutoImplicit false

namespace PipeShell

open Program

variable {α : Type}

namespace Joint

def ends (pipe : Nat) : List (Option Handle) := [some (.readEnd pipe), some (.writeEnd pipe)]

def number (joint : Option Joint) : List Nat := (joint.map (·.pipe)).toList

end Joint

namespace Pipeline

open Descriptors

variable {d d' : Descriptors}

theorem run_closing {base : Wires} {joint : Option Joint}
    (h : Run d (Link.closing (joint.map (·.link)) : List (Exchange α)) d')
    (hfits : Joint.Fits base joint) (hwires : d.wires = Joint.plug base joint) :
    d' =
      { d with wires := base, closed := d.closed ++ (Joint.number joint).flatMap Joint.ends } := by
  obtain ⟨wires, made, closed⟩ := d
  obtain rfl : wires = Joint.plug base joint := hwires
  cases joint with
  | none =>
    cases h
    simp [Joint.number, Joint.plug]
  | some j =>
    obtain ⟨hread, hwrite, hne⟩ := hfits
    cases h with
    | step hfirst h =>
      cases h with
      | step hsecond h =>
        cases h
        cases hfirst with
        | kept hkeeps => exact hkeeps.elim
        | closed =>
          cases hsecond with
          | kept hkeeps => exact hkeeps.elim
          | closed =>
            have hback : Function.update (Function.update
                (Joint.plug base (some j)) j.link.readEnd none) j.link.writeEnd none = base := by
              funext fd
              simp only [Joint.plug, Function.update_apply]
              grind
            have hread : Joint.plug base (some j) j.link.readEnd = some (.readEnd j.pipe) :=
              Joint.plug_readEnd ⟨hread, hwrite, hne⟩
            have hwrite : Function.update (Joint.plug base (some j)) j.link.readEnd none
                j.link.writeEnd = some (.writeEnd j.pipe) := by
              rw [Function.update_of_ne hne.symm]
              exact Joint.plug_writeEnd base j
            simp only [hback, hread, hwrite, List.append_assoc]
            rfl

theorem run_making {last : Bool} {making : List (Exchange α)} {next : Option Link}
    (h : Run d making d') (hmaking : Making last making next) :
    ∃ behind : Option Joint, next = behind.map (·.link) ∧
      (last = true ↔ behind = none) ∧ Joint.Fits d.wires behind ∧ d' = { d with
        wires := Joint.plug d.wires behind, made := d.made ++ Joint.number behind } := by
  cases hmaking with
  | atEnd =>
    cases h
    refine ⟨none, rfl, by simp, trivial, ?_⟩
    simp [Joint.number, Joint.plug]
  | made link =>
    cases h with
    | step hstep h =>
      cases h
      generalize hreply : (Except.ok (link.readEnd, link.writeEnd) : Except Errno (Fd × Fd)) =
        reply at hstep
      cases hstep with
      | made j hfits hnew =>
        obtain ⟨hread, hwrite⟩ := Prod.mk.inj (Except.ok.inj hreply)
        obtain ⟨readEnd, writeEnd⟩ := link
        obtain rfl : readEnd = _ := hread
        obtain rfl : writeEnd = _ := hwrite
        exact ⟨some j, rfl, by simp, hfits, rfl⟩
      | kept hkeeps =>
        subst hreply
        exact hkeeps.elim

/-- The descriptors when it is the turn of a stage, with the pipe before it still plugged in. -/
structure Poised (base : Wires) (before : Option Joint) (number : Nat) (rest : List Stage)
    (d : Descriptors) : Prop where
  fits : Joint.Fits base before
  wires : d.wires = Joint.plug base before
  /-- Behind the last stage there is no pipe. -/
  last : rest = [] → before = none
  /-- One pipe was made for each stage so far, and the one before this stage is the last of them. -/
  made : rest ≠ [] → d.made.length = number ∧ d.made.getLast? = before.map (·.pipe)
  /-- All others are closed. -/
  settled : ∀ (j pipe : Nat), d.made[j]? = some pipe → j + 1 < number → Joint.ends pipe ⊆ d.closed

theorem Poised.advance {base : Wires} {before behind : Option Joint} {number : Nat}
    {stage : Stage} {rest : List Stage} (h : Poised base before number (stage :: rest) d)
    (hend : rest.isEmpty = true ↔ behind = none) (hfits : Joint.Fits d.wires behind) :
    Poised base behind (number + 1) rest
      ⟨Joint.plug base behind, d.made ++ Joint.number behind,
        d.closed ++ (Joint.number before).flatMap Joint.ends⟩ := by
  obtain ⟨hlength, hlast⟩ := h.made (List.cons_ne_nil _ _)
  rw [h.wires] at hfits
  constructor
  case fits => exact (Joint.Fits.swap h.fits hfits).1
  case wires => rfl
  case last => exact fun hrest => hend.mp (by rw [hrest]; rfl)
  case made =>
    intro hrest
    cases behind with
    | none => exact absurd (List.isEmpty_iff.mp (hend.mpr rfl)) hrest
    | some j => simp [Joint.number, hlength]
  case settled =>
    intro j pipe hj hnumber
    rw [List.getElem?_append_left (by omega)] at hj
    by_cases hearlier : j + 1 < number
    · exact fun e he => List.mem_append_left _ (h.settled j pipe hj hearlier he)
    · -- this is the pipe before the stage
      have hpipe : before.map (·.pipe) = some pipe := by
        rw [← hlast, List.getLast?_eq_getElem?, hlength, ← hj]
        congr 1
        omega
      obtain ⟨joint, rfl, rfl⟩ := Option.map_eq_some_iff.mp hpipe
      exact fun e he => List.mem_append_right _ (by simpa [Joint.number] using he)

theorem Poised.run_started {base : Wires} {before : Option Joint} {number : Nat}
    {stage : Stage} {rest : List Stage} {making past : List (Exchange α)}
    {next : Option Link} {child : Program α} {reply : Except Errno Pid} {record : Log.Record}
    (h : Poised base before number (stage :: rest) d) (hmaking : Making rest.isEmpty making next)
    (hrun : Run d (making ++ .forked child reply :: .called (.note record) (some ()) ::
      (Link.closing (before.map (·.link)) ++ past)) d') :
    ∃ behind : Option Joint, next = behind.map (·.link) ∧
      ∃ d'', Poised base behind (number + 1) rest d'' ∧ d''.made = d.made ++ Joint.number behind ∧
        d''.closed = d.closed ++ (Joint.number before).flatMap Joint.ends ∧ Run d'' past d' := by
  obtain ⟨d₁, hmade, hrun⟩ := run_append_iff.mp hrun
  obtain ⟨behind, hnext, hend, hfits, rfl⟩ := run_making hmade hmaking
  cases hrun with
  | step hfork hrun =>
    cases hrun with
    | step hnote hrun =>
      cases hfork with
      | kept =>
        cases hnote with
        | kept =>
          obtain ⟨d₂, hclosing, hrun⟩ := run_append_iff.mp hrun
          have hfits' := hfits
          rw [h.wires] at hfits'
          have hplug : Joint.plug d.wires behind = Joint.plug (Joint.plug base behind) before := by
            rw [h.wires]
            exact Joint.plug_comm h.fits hfits'
          obtain rfl := run_closing hclosing (Joint.Fits.swap h.fits hfits').2 hplug
          exact ⟨behind, hnext, _, h.advance hend hfits, rfl, rfl, hrun⟩

theorem Launch.restores {number : Nat} {previous : Option Link}
    {rest : List Stage} {launched : List (Exchange α)}
    {result : Except Fatal (List Pid)} (h : Launch number previous rest launched result) :
    ∀ {base : Wires} {before : Option Joint} {d d' : Descriptors}, previous = before.map (·.link) →
      Poised base before number rest d → Run d launched d' →
        d'.wires = base ∧ ∃ more, d'.made = d.made ++ more ∧
        d'.closed.Perm (d.closed ++ (Joint.number before ++ more).flatMap Joint.ends) := by
  -- the pipe before a stage is closed in its turn, so that it counts among those that are still to
  -- be closed
  induction h with
  | complete number previous =>
    rintro base before d d' - hpoised hrun
    obtain rfl := hpoised.last rfl
    cases hrun
    exact ⟨hpoised.wires, [], by simp, by simp [Joint.number]⟩
  | zeroByte number previous hzero =>
    rintro base before d d' rfl hpoised hrun
    obtain rfl := run_closing hrun hpoised.fits hpoised.wires
    exact ⟨rfl, [], by simp, by simp⟩
  | noPipe number previous reason hzero hmore =>
    rintro base before d d' rfl hpoised hrun
    cases hrun with
    | step hpipe hrun =>
      cases hpipe with
      | kept =>
        obtain rfl := run_closing hrun hpoised.fits hpoised.wires
        exact ⟨rfl, [], by simp, by simp⟩
  | noProcess number previous reason hzero hmaking =>
    rintro base before d d' rfl hpoised hrun
    obtain ⟨d₁, hmade, hrun⟩ := run_append_iff.mp hrun
    obtain ⟨behind, rfl, hend, hfits, rfl⟩ := run_making hmade hmaking
    cases hrun with
    | step hfork hrun =>
      cases hfork with
      | kept =>
        obtain ⟨d₂, hbehind, hbefore⟩ := run_append_iff.mp hrun
        obtain rfl := run_closing hbehind hfits rfl
        obtain rfl := run_closing hbefore hpoised.fits hpoised.wires
        refine ⟨rfl, Joint.number behind, rfl, ?_⟩
        rw [List.flatMap_append]
        exact (List.Perm.of_eq (List.append_assoc ..)).trans (List.perm_append_comm.append_left _)
  | started number previous pid hzero hmaking _ ih =>
    rintro base before d d' rfl hpoised hrun
    obtain ⟨behind, hnext, d₁, hpoised', hmade, hclosed, hrun⟩ := hpoised.run_started hmaking hrun
    obtain ⟨hwires, more, hmore, hperm⟩ := ih hnext hpoised' hrun
    refine ⟨hwires, Joint.number behind ++ more, by rw [hmore, hmade, List.append_assoc], ?_⟩
    rw [hclosed, List.append_assoc, ← List.flatMap_append] at hperm
    exact hperm

/-! ### Before a stage is started -/

def Unforked (past : List (Exchange α)) : Prop := ∀ e ∈ past, ∀ child reply, e ≠ .forked child reply

theorem unforked_closing (link? : Option Link) :
    Unforked (Link.closing link? : List (Exchange α)) := by
  cases link? <;> simp [Unforked, Link.closing]

theorem Making.unforked {last : Bool} {making : List (Exchange α)} {next : Option Link}
    (h : Making last making next) : Unforked making := by
  cases h <;> simp [Unforked]

variable {past more earlier later : List (Exchange α)} {child : Program α}
  {reply : Except Errno Pid}

theorem Unforked.behind (hpast : Unforked past)
    (h : past ++ more = earlier ++ .forked child reply :: later) :
    ∃ rest, earlier = past ++ rest ∧ more = rest ++ .forked child reply :: later := by
  rcases List.append_eq_append_iff.mp h with hsplit | ⟨_ | ⟨e, rest⟩, rfl, heq⟩
  · exact hsplit
  · exact ⟨[], by simp, heq.symm⟩
  · obtain ⟨rfl, -⟩ := List.cons.inj heq
    exact absurd rfl (hpast _ (by simp) child reply)

theorem Unforked.before (hmore : Unforked more)
    (h : past ++ more = earlier ++ .forked child reply :: later) :
    ∃ rest, past = earlier ++ .forked child reply :: rest := by
  rcases List.append_eq_append_iff.mp h with ⟨rest, rfl, rfl⟩ | ⟨_ | ⟨e, rest⟩, rfl, heq⟩
  · exact absurd rfl (hmore _ (by simp) child reply)
  · obtain rfl := heq
    exact absurd rfl (hmore _ (by simp) child reply)
  · obtain ⟨rfl, -⟩ := List.cons.inj heq
    exact ⟨rest, rfl⟩

/-- The descriptors at the moment when a stage is started: the pipes before and behind the stages so
far are made, and all but the one before this stage and the one behind it are closed. -/
structure Timely (count number : Nat) (d : Descriptors) : Prop where
  made : d.made.length = min (number + 1) (count - 1)
  closed : ∀ (j pipe : Nat), d.made[j]? = some pipe → j + 2 ≤ number → Joint.ends pipe ⊆ d.closed

theorem Poised.timely {base : Wires} {before : Option Joint} {number : Nat}
    {stage : Stage} {rest : List Stage} {making : List (Exchange α)}
    {next : Option Link} (h : Poised base before number (stage :: rest) d)
    (hmaking : Making rest.isEmpty making next) (hrun : Run d making d') :
    Timely (number + (stage :: rest).length) (number + (children making).length) d' := by
  obtain ⟨behind, rfl, hend, hfits, rfl⟩ := run_making hrun hmaking
  have hlength := (h.made (List.cons_ne_nil _ _)).1
  rw [hmaking.childless]
  constructor
  case made =>
    cases behind with
    | none =>
      obtain rfl := List.isEmpty_iff.mp (hend.mpr rfl)
      simp [Joint.number, hlength]
    | some j =>
      have hrest : rest ≠ [] := fun hnil => by cases hend.mp (by rw [hnil]; rfl)
      have hpositive := List.length_pos_iff.mpr hrest
      simp only [Joint.number, List.length_append, hlength, Option.map_some, Option.toList_some,
        List.length_cons, List.length_nil]
      omega
  case closed =>
    intro j pipe hj hnumber
    rw [List.length_nil] at hnumber
    rw [List.getElem?_append_left (by omega)] at hj
    exact h.settled j pipe hj (by omega)

/-- Whenever a stage is started, the pipe that feeds the stage before it has been closed. -/
theorem Launch.timely {number : Nat} {previous : Option Link}
    {rest : List Stage} {launched : List (Exchange α)}
    {result : Except Fatal (List Pid)} (h : Launch number previous rest launched result) :
    ∀ {base : Wires} {before : Option Joint}
      {d d' : Descriptors} {earlier later : List (Exchange α)} {child : Program α}
      {reply : Except Errno Pid}, previous = before.map (·.link) →
      Poised base before number rest d →
      launched = earlier ++ .forked child reply :: later → Run d earlier d' →
      Timely (number + rest.length) (number + (children earlier).length) d' := by
  -- the child is that of the first stage, or it is started while the stages behind it are
  induction h with
  | complete number previous =>
    intro base before d d' earlier later child reply _ _ heq
    simp at heq
  | zeroByte number previous hzero =>
    intro base before d d' earlier later child reply _ _ heq
    exact absurd rfl (unforked_closing previous _ (heq ▸ by simp) child reply)
  | noPipe number previous reason hzero hmore =>
    intro base before d d' earlier later child reply _ _ heq
    have hunforked : Unforked
        (.called .pipe (some (.error reason)) :: Link.closing previous : List (Exchange α)) := by
      rintro e he child reply rfl
      exact unforked_closing previous _ (by simpa using he) child reply rfl
    exact absurd rfl (hunforked _ (heq ▸ by simp) child reply)
  | @noProcess number previous stage rest reason making next hzero hmaking =>
    rintro base before d d' earlier later child reply rfl hpoised heq hrun
    obtain ⟨first, rfl, hfirst⟩ := hmaking.unforked.behind heq
    cases first with
    | nil =>
      rw [List.append_nil] at hrun ⊢
      exact hpoised.timely hmaking hrun
    | cons e first =>
      obtain ⟨-, hrest⟩ := List.cons.inj hfirst
      have hunforked : Unforked
          (Link.closing next ++ Link.closing (before.map (·.link)) : List (Exchange α)) := by
        intro e he
        exact (List.mem_append.mp he).elim (unforked_closing _ e) (unforked_closing _ e)
      exact absurd rfl (hunforked _ (hrest ▸ by simp) child reply)
  | @started number previous stage rest pid making past next result hzero hmaking _ ih =>
    rintro base before d d' earlier later child reply rfl hpoised heq hrun
    obtain ⟨first, rfl, hfirst⟩ := hmaking.unforked.behind heq
    cases first with
    | nil =>
      rw [List.append_nil] at hrun ⊢
      exact hpoised.timely hmaking hrun
    | cons e first =>
      obtain ⟨rfl, hrest⟩ := List.cons.inj hfirst
      have hunforked : Unforked (.called (.note (.started number pid stage.arguments)) (some ()) ::
          Link.closing (before.map (·.link)) : List (Exchange α)) := by
        rintro e he child reply rfl
        exact unforked_closing _ _ (by simpa using he) child reply rfl
      obtain ⟨second, rfl, hsecond⟩ := hunforked.behind hrest
      have hchildren := hmaking.children_started (stage.process (before.map (·.link)) next) pid
        (.started number pid stage.arguments) (before.map (·.link)) second
      obtain ⟨behind, hnext, d₁, hpoised', -, -, hrun⟩ := hpoised.run_started hmaking hrun
      have htimely := ih hnext hpoised' hsecond hrun
      have hcount : number + 1 + rest.length = number + (stage :: rest).length := by
        rw [List.length_cons]
        omega
      have hforks : number + 1 + (children second).length =
          number + ((children second).length + 1) := by omega
      rw [hcount, hforks] at htimely
      rwa [← List.length_cons, ← hchildren] at htimely

/-! ### Whole pipelines -/

/-- What the interpreter does with its descriptors for so many stages, if they lead somewhere in the
beginning. -/
structure Restored (count : Nat) (wires : Wires) (past : List (Exchange α)) : Prop where
  /-- It makes pipes and closes descriptors, but has no other calls that concern them. -/
  managed : ∀ c reply?, .called c reply? ∈ past → Manages c
  same : ∀ d, Run { wires := wires } past d → d.wires = wires
  /-- Both ends of each pipe are closed once, and nothing else is. -/
  once : ∀ d, Run { wires := wires } past d →
    d.made.Nodup ∧ d.closed.Perm (d.made.flatMap Joint.ends)
  timely : ∀ earlier child reply later d, past = earlier ++ .forked child reply :: later →
    Run { wires := wires } earlier d → Timely count (children earlier).length d

theorem poised_start (wires : Wires) (stages : List Stage) :
    Poised wires none 0 stages { wires := wires } where
  fits := trivial
  wires := rfl
  last _ := rfl
  made _ := ⟨rfl, rfl⟩
  settled j pipe hj := by simp at hj

theorem Launch.restored {stages : List Stage} {launched : List (Exchange α)}
    {result : Except Fatal (List Pid)} (h : Launch 0 none stages launched result) (wires : Wires) :
    Restored stages.length wires launched where
  managed _ _ hmem := (h.launches hmem).manages
  same d hrun := (h.restores rfl (poised_start wires stages) hrun).1
  once d hrun := by
    obtain ⟨-, more, hmade, hperm⟩ := h.restores rfl (poised_start wires stages) hrun
    refine ⟨hrun.made_nodup List.nodup_nil, ?_⟩
    rw [hmade]
    exact hperm
  timely earlier child reply later d heq hrun := by
    have htimely := h.timely rfl (poised_start wires stages) heq hrun
    rwa [Nat.zero_add, Nat.zero_add] at htimely

theorem Attends.keeps {c : Call} (h : Attends c) (reply? : Option c.Reply) :
    (.called c reply? : Exchange α).Keeps := by
  cases c with
  | waitFor | note => trivial
  | _ => exact h.elim

theorem follow_keeps {p : Pipeline} {background : Background} {result : Except Fatal (List Pid)}
    {after : List (Exchange Outcome)} {outcome : Option Outcome}
    (h : Course (p.follow background result) after outcome) :
    ∀ e ∈ after, e.Keeps := by
  intro e he
  cases e with
  | called c reply? =>
    exact ((h.of_confined (p.follow_attends background result)).1 c reply? he).keeps reply?
  | forked | transferred | flooded => trivial

theorem Restored.around {count : Nat} {wires : Wires}
    {launched after : List (Exchange α)} {record : Log.Record}
    (h : Restored count wires launched) (hcalls : ∀ c reply?, .called c reply? ∈ after → Attends c)
    (hkeeps : ∀ e ∈ after, e.Keeps) (hunforked : Unforked after) :
    Restored count wires (.called (.note record) (some ()) :: (launched ++ after)) := by
  have hrun {d : Descriptors}
      (h : Run { wires := wires } (.called (.note record) (some ()) :: (launched ++ after)) d) :
      Run { wires := wires } launched d := by
    cases h with
    | step hnote h =>
      cases hnote with
      | kept =>
        obtain ⟨d', hlaunched, hafter⟩ := run_append_iff.mp h
        rwa [hafter.of_keeps hkeeps]
  constructor
  case managed =>
    intro c reply? hmem
    rcases List.mem_cons.mp hmem with heq | hmem
    · cases heq
      trivial
    · exact (List.mem_append.mp hmem).elim (h.managed c reply?) fun hmem =>
        (hcalls c reply? hmem).manages
  case same => exact fun d hd => h.same d (hrun hd)
  case once => exact fun d hd => h.once d (hrun hd)
  case timely =>
    intro earlier child reply later d heq hearlier
    have hnote : Unforked [(.called (.note record) (some ()) : Exchange α)] := by simp [Unforked]
    obtain ⟨first, rfl, hfirst⟩ := hnote.behind heq
    obtain ⟨rest, hrest⟩ := hunforked.before hfirst
    cases hearlier with
    | step hstep hearlier =>
      cases hstep with
      | kept => exact h.timely first child reply rest d hrest hearlier

theorem execute_restored {p : Pipeline} {background : Background}
    {past : List (Exchange Outcome)} {outcome : Outcome}
    (h : Course ((Action.run p).execute background) past (some outcome)) (wires : Wires) :
    Restored p.stages.length wires past := by
  obtain ⟨launched, result, after, rfl, hlaunch, hafter⟩ := course_execute_iff.mp h
  obtain ⟨hcalls, hforks, -⟩ := hafter.of_confined (p.follow_attends background result)
  refine (hlaunch.restored wires).around hcalls (follow_keeps hafter) fun e he child reply heq => ?_
  subst heq
  exact hforks child reply he

theorem restored_of_run {p : Pipeline} {background : Background} {m₀ m : Machine Outcome}
    {pid : Pid} {before after : Process Outcome} {es : List Event} {outcome : Outcome}
    (hs : m₀.Sound) (hbefore : m₀.processes.get? pid = some before)
    (hprogram : before.program = (Action.run p).execute background) (hrun : m₀.Run es m)
    (hafter : m.processes.get? pid = some after) (hending : after.ending? = none)
    (hdone : after.program = .done outcome) : after.descriptors.get? = before.descriptors.get? ∧
      ∃ past closed, Run { wires := before.descriptors.get? } past
          ⟨after.descriptors.get?, Event.pipedBy pid es, closed⟩ ∧
        (Event.pipedBy pid es).Nodup ∧ closed.Perm ((Event.pipedBy pid es).flatMap Joint.ends) ∧
        Course ((Action.run p).execute background) past (some outcome) := by
  have hmanages := execute_manages p background
  rw [← hprogram] at hmanages
  obtain ⟨-, past, ⟨wires, made, closed⟩, haccounts⟩ :=
    accounts_of_run hs hbefore hmanages hrun hafter hending
  obtain rfl : wires = after.descriptors.get? := haccounts.wires
  obtain rfl : made = Event.pipedBy pid es := haccounts.made
  have hcourse : Course ((Action.run p).execute background) past (some outcome) := by
    rw [← hprogram, ← List.append_nil past]
    exact haccounts.leaves [] (some outcome) (hdone ▸ .done outcome)
  have hrestored := execute_restored hcourse before.descriptors.get?
  obtain ⟨hdistinct, honce⟩ := hrestored.once _ haccounts.run
  exact ⟨hrestored.same _ haccounts.run, past, closed, haccounts.run, hdistinct, honce, hcourse⟩

/-- Whichever way the start of a pipeline goes, the descriptors of the interpreter are as they were:
when the start is over, and when all is done for the pipeline. On a machine this is so whatever else
goes on there. -/
theorem restores_descriptors (p : Pipeline) (wires : Wires) :
    (∀ past result, Course (start p.stages) past (some result) →
      Restored p.stages.length wires past) ∧
    (∀ background past outcome, Course ((Action.run p).execute background) past (some outcome) →
      Restored p.stages.length wires past) ∧
    ∀ (background : Background)
      (m₀ m : Machine Outcome) (pid : Pid) (before after : Process Outcome)
      (es : List Event) (outcome : Outcome), m₀.Sound → m₀.processes.get? pid = some before →
      before.program = (Action.run p).execute background → m₀.Run es m →
      m.processes.get? pid = some after → after.ending? = none → after.program = .done outcome →
      after.descriptors.get? = before.descriptors.get? ∧
        ∃ past closed, Run { wires := before.descriptors.get? } past
            ⟨after.descriptors.get?, Event.pipedBy pid es, closed⟩ ∧
          (Event.pipedBy pid es).Nodup ∧ closed.Perm ((Event.pipedBy pid es).flatMap Joint.ends) ∧
          Course ((Action.run p).execute background) past (some outcome) := by
  refine ⟨fun past result h => (course_start_iff.mp h).restored wires,
    fun background past outcome h => execute_restored h wires, ?_⟩
  intro background m₀ m pid before after es outcome hs hbefore hprogram hrun hafter hending hdone
  exact restored_of_run hs hbefore hprogram hrun hafter hending hdone

private def threeNames : Pipeline :=
  ⟨[⟨["a"], none, none⟩, ⟨["b"], none, none⟩, ⟨["c"], none, none⟩], true⟩

private def standardWires : Wires := fun fd => if fd ≤ 2 then some (.file fd) else none

/-- The second process is refused when two pipes are there. All four ends are closed. -/
theorem restores_after_refusal : ∃ past d,
    Course (start threeNames.stages) past (some (.error (.noProcess .tryAgain))) ∧
    Run { wires := standardWires } past d ∧ d.made = [10, 11] ∧ d.wires = standardWires ∧
    d.closed.Perm (Joint.ends 10 ++ Joint.ends 11) := by
  obtain ⟨past, d, hcourse, hrun, hmade⟩ : ∃ past d,
      Course (start threeNames.stages) past (some (.error (.noProcess .tryAgain))) ∧
      Run { wires := standardWires } past d ∧ d.made = [10, 11] := by
    constructor
    constructor
    refine ⟨?course, ?run, ?made⟩
    case course =>
      apply Course.answered (c := .pipe) (.ok (3, 4))
      apply Course.forked (.ok 7)
      apply Course.answered (c := .note _) ()
      apply Course.answered (c := .pipe) (.ok (5, 6))
      apply Course.forked (.error .tryAgain)
      apply Course.answered (c := .close 5) ()
      apply Course.answered (c := .close 6) ()
      apply Course.answered (c := .close 3) ()
      apply Course.answered (c := .close 4) ()
      exact .done _
    case run =>
      apply Run.step (.made ⟨⟨3, 4⟩, 10⟩ ⟨rfl, rfl, by decide⟩ (by simp))
      apply Run.step (.kept (by trivial))
      apply Run.step (.kept (by trivial))
      apply Run.step (.made ⟨⟨5, 6⟩, 11⟩ ⟨rfl, rfl, by decide⟩ (by simp))
      apply Run.step (.kept (by trivial))
      apply Run.step (.closed 5)
      apply Run.step (.closed 6)
      apply Run.step (.closed 3)
      apply Run.step (.closed 4)
      exact .start _
    case made => rfl
  have hrestored := (restores_descriptors threeNames standardWires).1 past _ hcourse
  obtain ⟨-, hclosed⟩ := hrestored.once d hrun
  rw [hmade] at hclosed
  exact ⟨past, d, hcourse, hrun, hmade, hrestored.same d hrun, hclosed⟩

end Pipeline

end PipeShell
