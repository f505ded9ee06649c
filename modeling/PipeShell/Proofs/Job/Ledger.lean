import PipeShell.Proofs.Job.Children
import PipeShell.Proofs.Job.Launch

/-!
How the interpreter keeps account of its children. It waits for the children of a pipeline in the
foreground, all of them and each of them once, and for no others; a child in the background it only
looks at, and forgets it when it was collected.
-/

set_option autoImplicit false
set_option relaxedAutoImplicit false

namespace PipeShell.Ledger

open Pipeline (Launch Making)

/-- What the interpreter may do about its children, and what comes of it: it asks only for certain
ones that are still to be collected. Some children are known to have ended from the beginning. -/
def contract (mine ended : Child → Prop) : Contract Ledger where
  may g
    | .note _ | .close _ | .pipe | .change _ | .write .. | .exit _ => True
    | .waitFor pid | .poll pid => ∃ c, g.Owes c ∧ mine c ∧ c.pid = pid
    | _ => False
  gives g
    | .waitFor pid, reply, g' =>
      ∀ c, g.Owes c → c.pid = pid → ∃ e : Ending, reply = e.report pid ∧ g' = g.collect c
    | .poll pid, reply, g' =>
      ∀ c, g.Owes c → c.pid = pid →
        (reply = .ok .stillAlive ∧ ¬ ended c ∧ g' = g) ∨
        (reply = .error .interrupted ∧ g' = g.miss) ∨
        ∃ e : Ending, reply = e.report pid ∧ g' = g.collect c
    | _, _, g' => g' = g
  mayStart _ _ _ _ := True
  starts g pid g' := g' = g.start pid

section

variable {mine ended : Child → Prop} {g : Ledger}

variable {β : Type} {R : Ledger → Prop} {past : List (Exchange β)}

private theorem permits_closing (link? : Option Link) (h : (contract mine ended).Permits R past g) :
    (contract mine ended).Permits R (Link.closing link? ++ past) g := by
  cases link? with
  | none => exact h
  | some link =>
    refine ⟨trivial, fun _ _ g₁ hread => ⟨trivial, fun _ _ g₂ hwrite => ?_⟩⟩
    have heq : g₂ = g := Eq.trans hwrite hread
    exact heq ▸ h

private theorem permits_making {last : Bool} {making : List (Exchange β)} {next : Option Link}
    (hmaking : Making last making next) (h : (contract mine ended).Permits R past g) :
    (contract mine ended).Permits R (making ++ past) g := by
  cases hmaking with
  | atEnd => exact h
  | made link =>
    refine ⟨trivial, fun _ _ g₁ hpipe => ?_⟩
    have heq : g₁ = g := hpipe
    exact heq ▸ h

private def Starts (g : Ledger) (result : Except Fatal (List Pid)) (g' : Ledger) : Prop :=
  ∀ pids, result = .ok pids → ∃ children : List Child, pids = children.map (·.pid) ∧ g' = { g with
    started := g.started ++ children } ∧ children.Nodup ∧ ∀ c ∈ children, g.started.length ≤ c.birth

private theorem starts_cons {pid : Pid} {result : Except Fatal (List Pid)} {g' : Ledger}
    (h : Starts (g.start pid) result g') : Starts g (result.map (pid :: ·)) g' := by
  intro pids hpids
  cases result with
  | error fatal => exact absurd hpids (by simp [Except.map])
  | ok others =>
    cases hpids
    obtain ⟨children, rfl, rfl, hnodup, hnew⟩ := h others rfl
    have hlater : ∀ c ∈ children, g.started.length < c.birth := by
      intro c hc
      have := hnew c hc
      simp only [start, List.length_append, List.length_singleton] at this
      exact this
    refine ⟨⟨pid, g.started.length⟩ :: children, rfl, by simp [start], ?_, fun c hc => ?_⟩
    · exact List.nodup_cons.mpr ⟨fun hm => Nat.lt_irrefl _ (hlater _ hm), hnodup⟩
    · rcases List.mem_cons.mp hc with rfl | hc
      · exact Nat.le_refl _
      · exact Nat.le_of_lt (hlater c hc)

private theorem permits_launch {number : Nat} {previous : Option Link} {rest : List Stage}
    {launched : List (Exchange β)} {result : Except Fatal (List Pid)}
    (h : Launch number previous rest launched result) (g : Ledger) :
    (contract mine ended).Permits (Starts g result) launched g := by
  have hfailed (fatal : Fatal) (link? : Option Link) (g : Ledger) : (contract mine ended).Permits
      (Starts g (.error fatal)) (Link.closing link? : List (Exchange β)) g := by
    rw [← List.append_nil (Link.closing link?)]
    exact permits_closing link? fun pids hpids => by cases hpids
  induction h generalizing g with
  | complete =>
    rintro pids ⟨⟩
    exact ⟨[], rfl, by simp, List.nodup_nil, fun c hc => absurd hc List.not_mem_nil⟩
  | zeroByte number previous hzero => exact hfailed _ previous g
  | noPipe number previous reason hzero hmore =>
    refine ⟨trivial, fun _ _ g₁ hpipe => ?_⟩
    have heq : g₁ = g := hpipe
    exact heq ▸ hfailed _ previous g
  | noProcess number previous reason hzero hmaking =>
    exact permits_making hmaking ⟨⟨_, _, _, rfl, trivial⟩, fun pid hpid => by cases hpid⟩
  | started number previous pid hzero hmaking _ ih =>
    refine permits_making hmaking ⟨⟨_, _, _, rfl, trivial⟩, fun pid' hpid g₁ hstart => ?_⟩
    cases hpid
    refine ⟨trivial, fun _ _ g₂ hnote => permits_closing previous ?_⟩
    have heq : g₂ = g.start pid := Eq.trans hnote hstart
    exact heq ▸ (ih (g.start pid)).mono fun g₃ => starts_cons

private theorem Owes.collect {c d : Child} (h : g.Owes d) (hne : d ≠ c) : (g.collect c).Owes d := by
  refine ⟨h.1, fun hm => ?_⟩
  rcases List.mem_append.mp hm with hm | hm
  · exact h.2 hm
  · exact hne (List.mem_singleton.mp hm)

theorem awaitEach_honours (children : List Child) (g : Ledger)
    (howes : ∀ c ∈ children, g.Owes c ∧ mine c) (hnodup : children.Nodup) :
    (Job.awaitEach (children.map (·.pid))).Honours (contract mine ended)
      (fun _ g' => g' = { g with collected := g.collected ++ children }) g := by
  induction children generalizing g with
  | nil => simp [Job.awaitEach, Program.Honours]
  | cons c rest ih =>
    obtain ⟨hout, hrest⟩ := List.nodup_cons.mp hnodup
    obtain ⟨howed, hmine⟩ := howes c List.mem_cons_self
    refine .bind (.bind (Program.honours_ask ⟨c, howed, hmine, rfl⟩ fun reply g₁ hwait => ?_))
    obtain ⟨e, -, rfl⟩ := hwait c howed rfl
    have hafter (status : Int) :
        (do let others ← Job.awaitEach (rest.map (·.pid))
            pure (status :: others) : Program (List Int)).Honours
          (contract mine ended) (fun _ g' => g' = { g with collected := g.collected ++ c :: rest })
          (g.collect c) := by
      refine .bind ((ih (g.collect c) (fun d hd => ?_) hrest).mono fun others g' h => ?_)
      · obtain ⟨howed', hmine'⟩ := howes d (List.mem_cons_of_mem _ hd)
        exact ⟨howed'.collect fun he => hout (he ▸ hd), hmine'⟩
      · show g' = _
        rw [h]
        simp [Ledger.collect]
    cases reply with
    | ok status =>
      refine .bind (Program.honours_act trivial fun _ g₂ hnote => ?_)
      have hnote : g₂ = _ := hnote
      exact hnote ▸ hafter _
    | error reason =>
      refine .bind (Program.honours_act trivial fun _ g₂ hnote => ?_)
      have hnote : g₂ = _ := hnote
      exact hnote ▸ hafter _

def Looked (ended : Child → Prop) (c : Child) (g : Ledger) (keep : Bool) (g' : Ledger) : Prop :=
  (keep = true ∧ g' = g ∧ ¬ ended c) ∨ (keep = true ∧ g' = g.miss) ∨
  (keep = false ∧ g' = g.collect c)

private theorem stillRuns_honours {c : Child} (howes : g.Owes c) (hmine : mine c) :
    (Background.stillRuns c.pid).Honours (contract mine ended) (Looked ended c g) g := by
  refine .bind (Program.honours_ask ⟨c, howes, hmine, rfl⟩ fun reply g₁ hlook => ?_)
  rcases hlook c howes rfl with ⟨rfl, hover, rfl⟩ | ⟨rfl, rfl⟩ | ⟨e, rfl, rfl⟩
  · exact .inl ⟨rfl, rfl, hover⟩
  · exact .inr (.inl ⟨rfl, rfl⟩)
  · have hgone (record : Log.Record) : (Program.note record >>= fun _ => pure false).Honours
        (contract mine ended) (Looked ended c g) (g.collect c) :=
      .bind (Program.honours_act trivial fun _ g₂ hnote => .inr (.inr ⟨rfl, hnote⟩))
    cases e with
    | exited code => exact hgone _
    | killed number =>
      cases hsignal : Signal.ofNumber? number with
      | none =>
        simp only [Ending.report, hsignal]
        exact hgone _
      | some signal =>
        simp only [Ending.report, hsignal]
        exact hgone _

/-- What a look at all children in the background leaves: those that were collected are gone, and
the others are kept in their order; unless a look was interrupted, all that had ended are gone. -/
def Reaped (ended : Child → Prop) (children : List Child) (g : Ledger) (kept : List Pid)
    (g' : Ledger) : Prop :=
  ∃ gone : List Child, gone.Sublist children ∧ kept = (children.filter (· ∉ gone)).map (·.pid) ∧
    g'.started = g.started ∧ g'.collected = g.collected ++ gone ∧ g.missed ≤ g'.missed ∧
    (g'.missed = g.missed → ∀ c ∈ children, ended c → c ∈ gone)

private theorem Reaped.cons {c : Child} {rest : List Child}
    {g₁ g₂ : Ledger} {keep : Bool} {kept : List Pid}
    (hout : c ∉ rest) (hlook : Looked ended c g keep g₁) (hrest : Reaped ended rest g₁ kept g₂) :
    Reaped ended (c :: rest) g (if keep then c.pid :: kept else kept) g₂ := by
  obtain ⟨gone, hsub, rfl, hstarted, hcollected, hmissed, hover⟩ := hrest
  have hc : c ∉ gone := fun hm => hout (hsub.subset hm)
  rcases hlook with ⟨rfl, rfl, hlives⟩ | ⟨rfl, rfl⟩ | ⟨rfl, rfl⟩
  · refine ⟨gone, hsub.cons _, by simp [hc], hstarted, hcollected, hmissed, fun h d hd hd' => ?_⟩
    rcases List.mem_cons.mp hd with rfl | hd
    · exact absurd hd' hlives
    · exact hover h d hd hd'
  · refine ⟨gone, hsub.cons _, by simp [hc], hstarted, hcollected,
      Nat.le_of_succ_le hmissed, fun h => ?_⟩
    exact absurd (h ▸ hmissed) (Nat.not_succ_le_self _)
  · have hfilter : rest.filter (· ∉ gone) = rest.filter (· ∉ c :: gone) := by
      refine List.filter_congr fun d hd => ?_
      have hne : d ≠ c := fun he => hout (he ▸ hd)
      simp [hne]
    refine ⟨c :: gone, hsub.cons_cons _, ?_, hstarted, ?_, hmissed, fun h d hd hd' => ?_⟩
    · rw [List.filter_cons_of_neg (by simp), ← hfilter]
      rfl
    · rw [hcollected]
      simp [collect]
    · rcases List.mem_cons.mp hd with rfl | hd
      · exact List.mem_cons_self
      · exact List.mem_cons_of_mem _ (hover h d hd hd')

theorem keepRunning_honours (children : List Child) (g : Ledger)
    (howes : ∀ c ∈ children, g.Owes c ∧ mine c) (hnodup : children.Nodup) :
    (Background.keepRunning (children.map (·.pid))).Honours (contract mine ended)
      (Reaped ended children g) g := by
  induction children generalizing g with
  | nil =>
    exact ⟨[], .slnil, rfl, rfl, (List.append_nil _).symm, Nat.le_refl _,
      fun _ c hc => absurd hc List.not_mem_nil⟩
  | cons c rest ih =>
    obtain ⟨hout, hrest⟩ := List.nodup_cons.mp hnodup
    obtain ⟨howed, hmine⟩ := howes c List.mem_cons_self
    refine .bind ((stillRuns_honours howed hmine).mono fun keep g₁ hlook => ?_)
    have howes' : ∀ d ∈ rest, g₁.Owes d ∧ mine d := by
      intro d hd
      obtain ⟨howed', hmine'⟩ := howes d (List.mem_cons_of_mem _ hd)
      refine ⟨?_, hmine'⟩
      rcases hlook with ⟨-, rfl, -⟩ | ⟨-, rfl⟩ | ⟨-, rfl⟩
      · exact howed'
      · exact howed'
      · exact howed'.collect fun he => hout (he ▸ hd)
    exact .bind ((ih g₁ howes' hrest).mono fun others g₂ hothers => hothers.cons hout hlook)

def Detaches : Action → Bool
  | .run pipeline => pipeline.background
  | _ => false

/-- Unless the interpreter cannot go on, an action has collected all the children that it has
started, the last one first, or has put all of them behind the ones in the background. -/
def Settled (action : Action) (b : Background) (g : Ledger) (o : Outcome) (g' : Ledger) : Prop :=
  ∀ status, o.status = .ok status → ∃ children : List Child, g'.started = g.started ++ children ∧
    if Detaches action then
      o.background.pids = b.pids ++ children.map (·.pid) ∧ g'.collected = g.collected
    else o.background = b ∧ g'.collected = g.collected ++ children.reverse

private theorem settled_refl {action : Action} {b : Background} {status : Int}
    : Settled action b g ⟨.ok status, b⟩ g := by
  intro _ _
  refine ⟨[], (List.append_nil _).symm, ?_⟩
  split
  · exact ⟨(List.append_nil _).symm, rfl⟩
  · exact ⟨rfl, (List.append_nil _).symm⟩

/-- An action asks for none but the children that it has started itself. -/
theorem execute_honours (action : Action) (b : Background) (hs : g.Sound)
    (hmine : ∀ c, c ∉ g.started → mine c) :
    (action.execute b).Honours (contract mine ended) (Settled action b g) g := by
  refine .bind (Program.honours_act trivial fun _ g' hnote => ?_)
  have hnote : g' = g := hnote
  subst hnote
  cases action with
  | nothing => exact settled_refl
  | exit => exact Program.honours_exit trivial
  | changeDirectory target =>
    refine .bind (.bind (Program.honours_act trivial fun _ g₁ hnote => ?_))
    have hnote : g₁ = _ := hnote
    subst hnote
    have henter : (Directory.enter target).Honours (contract mine ended)
        (fun _ g₂ => g₂ = g₁) g₁ := by
      unfold Directory.enter
      split
      · exact rfl
      · exact Program.honours_ask trivial fun reply g h => h
    refine .bind (henter.mono fun reply g₂ hg => ?_)
    subst hg
    cases reply with
    | ok => exact settled_refl
    | error reason =>
      refine .bind (Program.honours_act trivial fun _ g₃ hput => ?_)
      have hput : g₃ = _ := hput
      subst hput
      exact settled_refl
  | run pipeline =>
    show (pipeline.run b).Honours _ _ _
    unfold Pipeline.run
    split
    · exact settled_refl
    · have hstart : (Pipeline.start pipeline.stages).Honours (contract mine ended) (Starts g') g' :=
        Pipeline.honours_of_launches fun launched result h => permits_launch h g'
      refine .bind (hstart.mono fun r g₁ h => ?_)
      cases r with
      | error fatal => exact fun status hok => absurd hok (by simp)
      | ok pids =>
        obtain ⟨children, rfl, rfl, hnodup, hnew⟩ := h pids rfl
        have hfresh : ∀ c ∈ children, c ∉ g'.started := fun c hc hm =>
          Nat.not_lt.mpr (hnew c hc) (hs.born c hm)
        dsimp only
        split
        · rename_i hbackground
          refine .bind (Program.honours_act trivial fun _ g₂ hnote => ?_)
          have hnote : g₂ = _ := hnote
          subst hnote
          intro _ _
          refine ⟨children, rfl, ?_⟩
          rw [if_pos (show Detaches (.run pipeline) = true from hbackground)]
          exact ⟨rfl, rfl⟩
        · rename_i hforeground
          unfold Job.wait
          rw [← List.map_reverse]
          refine .bind (.bind ((awaitEach_honours children.reverse _ (fun c hc => ?_) ?_).mono
            fun _ g₂ hg => ?_))
          · rw [List.mem_reverse] at hc
            exact ⟨⟨List.mem_append_right _ hc, fun hm => hfresh c hc (hs.known c hm)⟩,
              hmine c (hfresh c hc)⟩
          · exact List.pairwise_reverse.mpr (hnodup.imp Ne.symm)
          · subst hg
            intro _ _
            refine ⟨children, rfl, ?_⟩
            rw [if_neg (show ¬ Detaches (.run pipeline) = true from hforeground)]
            exact ⟨rfl, rfl⟩

end

end PipeShell.Ledger
