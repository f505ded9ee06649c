import PipeShell.Proofs.Job.Launch
import PipeShell.Proofs.Job.Wiring

/-!
How the interpreter assembles a pipeline. At the start of every stage it holds, besides the
descriptors that it had before, both ends of the pipe before that stage and nothing else; when the
pipeline has been started, or could not be started completely, it holds what it had before.
-/

set_option autoImplicit false
set_option relaxedAutoImplicit false

namespace PipeShell

namespace Pipeline

/-- What the interpreter has done about a pipeline: where its descriptors lead, the pipes it has
made and the children it has started, both in their order. -/
structure Assembly where
  wires : Wires
  pipes : List Nat := []
  children : List Pid := []

def pipeBefore (pipes : List Nat) : Nat → Option Nat
  | 0 => none
  | i + 1 => pipes[i]?

theorem getElem?_concat_cases {α : Type} {l : List α} {a b : α} {i : Nat}
    (h : (l ++ [a])[i]? = some b) : l[i]? = some b ∨ i = l.length ∧ b = a := by
  rw [List.getElem?_append] at h
  split at h
  · exact .inl h
  · obtain ⟨hi, ha⟩ := List.getElem?_eq_some_iff.mp h
    simp only [List.length_singleton] at hi
    simp only [List.getElem_singleton] at ha
    exact .inr ⟨by omega, ha.symm⟩

/-- Whether a child is the next stage, and starts with the pipes before and behind it besides what
the interpreter had before. -/
def IsNext (base : Wires) (stages : List Stage) (g : Assembly) (stage : Stage)
    (previous next : Option Link) : Prop :=
  ∃ before behind : Option Joint,
    previous = before.map (·.link) ∧ next = behind.map (·.link) ∧
    Joint.Fits base before ∧ Joint.Fits (Joint.plug base before) behind ∧
    g.wires = Joint.plug (Joint.plug base before) behind ∧
    stages[g.children.length]? = some stage ∧
    before.map (·.pipe) = pipeBefore g.pipes g.children.length ∧
    behind.map (·.pipe) = g.pipes[g.children.length]? ∧
    g.pipes.length = min (g.children.length + 1) (stages.length - 1)

def Complete (base : Wires) (stages : List Stage) (g : Assembly) : Prop :=
  g.wires = base ∧ g.children.length = stages.length ∧ g.pipes.length = stages.length - 1

/-- What the interpreter may do to start a pipeline and to wait for it, and what comes of it. -/
def contract (base : Wires) (stages : List Stage) : Contract Assembly where
  may g
    | .note _ | .close _ => True
    | .waitFor _ => Complete base stages g
    | .pipe =>
      g.pipes.length + 1 < stages.length ∧ ∃ before, Joint.Fits base before ∧
        g.wires = Joint.plug base before
    | _ => False
  gives g
    | .close fd, _, g' => g' = { g with wires := Function.update g.wires fd none }
    | .pipe, .ok (readFd, writeFd), g' =>
      g.wires readFd = none ∧ g.wires writeFd = none ∧ readFd ≠ writeFd ∧ ∃ pipe, g' = { g with
        wires := Joint.plug g.wires (some ⟨⟨readFd, writeFd⟩, pipe⟩), pipes := g.pipes ++ [pipe] }
    | _, _, g' => g' = g
  mayStart := IsNext base stages
  starts g pid g' := g' = { g with children := g.children ++ [pid] }

section

variable {base : Wires} {stages : List Stage}

/-- Where the interpreter is when it is the turn of the remaining stages: it has the pipe before the
first of them, and as many pipes and children as there should be. -/
structure Arrived (base : Wires) (stages rest : List Stage) (number : Nat) (before : Option Joint)
    (g : Assembly) : Prop where
  remaining : stages.drop number = rest
  started : g.children.length = number
  le : number ≤ stages.length
  fits : Joint.Fits base before
  wires : g.wires = Joint.plug base before
  pipe : before.map (·.pipe) = pipeBefore g.pipes number
  pipes : g.pipes.length = min number (stages.length - 1)

section

variable {number : Nat} {before behind : Option Joint} {stage : Stage}
  {rest : List Stage} {g : Assembly}

theorem Arrived.complete (h : Arrived base stages [] number before g) :
    g.wires = base ∧ Complete base stages g := by
  have hpipes := h.pipes
  have hnumber := h.started
  have hend : number = stages.length := by
    have hlength := congrArg List.length h.remaining
    have hle := h.le
    simp only [List.length_drop, List.length_nil] at hlength
    omega
  have hnone : before = none := by
    cases number with
    | zero => exact Option.map_eq_none_iff.mp h.pipe
    | succ i =>
      refine Option.map_eq_none_iff.mp (h.pipe.trans (List.getElem?_eq_none ?_))
      omega
  have hwires := h.wires
  subst hnone
  exact ⟨hwires, hwires, by omega, by omega⟩

theorem Arrived.length (h : Arrived base stages (stage :: rest) number before g) :
    stages.length = number + (rest.length + 1) := by
  have hlength := congrArg List.length h.remaining
  have hle := h.le
  simp only [List.length_drop, List.length_cons] at hlength
  omega

theorem Arrived.room (h : Arrived base stages (stage :: rest) number before g)
    (hmore : rest.isEmpty = false) : g.pipes.length + 1 < stages.length := by
  have hlength := h.length
  have hpipes := h.pipes
  have hpositive := List.length_pos_iff.mpr (List.isEmpty_eq_false_iff.mp hmore)
  omega

theorem Arrived.made (h : Arrived base stages (stage :: rest) number before g)
    (hbehind : behind = none ↔ rest.isEmpty = true) :
    behind.map (·.pipe) = (g.pipes ++ (behind.map (·.pipe)).toList)[number]? ∧
      (g.pipes ++ (behind.map (·.pipe)).toList).length = min (number + 1) (stages.length - 1) := by
  have hlength := h.length
  have hpipes := h.pipes
  cases behind with
  | none =>
    obtain rfl := List.isEmpty_iff.mp (hbehind.mp rfl)
    simp only [List.length_nil] at hlength
    simp only [Option.map_none, Option.toList_none, List.append_nil]
    exact ⟨(List.getElem?_eq_none (by omega)).symm, by omega⟩
  | some j =>
    have hmore : rest ≠ [] := fun hnil => by simp [hnil] at hbehind
    have hpositive := List.length_pos_iff.mpr hmore
    have heq : g.pipes.length = number := by omega
    simp only [Option.map_some, Option.toList_some, List.length_append, List.length_singleton]
    exact ⟨by simp [← heq], by omega⟩

theorem Arrived.isNext (h : Arrived base stages (stage :: rest) number before g)
    (hbehind : behind = none ↔ rest.isEmpty = true) (hfits : Joint.Fits g.wires behind) :
    IsNext base stages ⟨Joint.plug g.wires behind,
      g.pipes ++ (behind.map (·.pipe)).toList, g.children⟩ stage
      (before.map (·.link)) (behind.map (·.link)) := by
  obtain ⟨hpipe, hcount⟩ := h.made hbehind
  have hstage : stages[number]? = some stage := by
    have hhead := congrArg (·[0]?) h.remaining
    simpa using hhead
  have hbefore : before.map (·.pipe) =
      pipeBefore (g.pipes ++ (behind.map (·.pipe)).toList) number := by
    have hlength := h.length
    have hpipes := h.pipes
    rw [h.pipe]
    cases number with
    | zero => rfl
    | succ i => exact (List.getElem?_append_left (by omega)).symm
  have hnumber := h.started
  rw [h.wires] at hfits ⊢
  subst hnumber
  exact ⟨before, behind, rfl, rfl, h.fits, hfits, rfl, hstage, hbefore, hpipe, hcount⟩

theorem Arrived.next (h : Arrived base stages (stage :: rest) number before g)
    (hbehind : behind = none ↔ rest.isEmpty = true) (hfits : Joint.Fits base behind) (pid : Pid) :
    Arrived base stages rest (number + 1) behind
      ⟨Joint.plug base behind, g.pipes ++ (behind.map (·.pipe)).toList, g.children ++ [pid]⟩ := by
  obtain ⟨hpipe, hcount⟩ := h.made hbehind
  have hlength := h.length
  exact ⟨by rw [← List.drop_drop, h.remaining]; rfl, by simp [h.started], by omega, hfits,
    rfl, hpipe, hcount⟩

end

section

variable {β : Type} {R : Assembly → Prop} {past : List (Exchange β)} {g : Assembly}

private theorem permits_closing {before : Option Joint} {w : Wires} (hfit : Joint.Fits w before)
    (hwires : g.wires = Joint.plug w before)
    (h : (contract base stages).Permits R past { g with wires := w }) :
    (contract base stages).Permits R (Link.closing (before.map (·.link)) ++ past) g := by
  obtain ⟨wires, pipes, children⟩ := g
  cases hwires
  cases before with
  | none => exact h
  | some j =>
    refine ⟨trivial, fun _ _ g₁ hread => ⟨trivial, fun _ _ g₂ hwrite => ?_⟩⟩
    have hread : g₁ = _ := hread
    have hwrite : g₂ = _ := hwrite
    have hback : g₂.wires = w := by
      rw [hwrite, hread]
      funext fd
      simp only [Joint.Fits, Function.update_apply] at hfit ⊢
      grind
    have heq : g₂ = ⟨w, pipes, children⟩ := by
      rw [← hback, hwrite, hread]
    exact heq ▸ h

private theorem permits_making {last : Bool} {making : List (Exchange β)} {next : Option Link}
    (hmaking : Making last making next) (hmay : last = false → g.pipes.length + 1 < stages.length)
    (hwires : ∃ before, Joint.Fits base before ∧ g.wires = Joint.plug base before)
    (h : ∀ behind : Option Joint, next = behind.map (·.link) → (behind = none ↔ last = true) →
      Joint.Fits g.wires behind → (contract base stages).Permits R past { g with
        wires := Joint.plug g.wires behind, pipes := g.pipes ++ (behind.map (·.pipe)).toList }) :
    (contract base stages).Permits R (making ++ past) g := by
  cases hmaking with
  | atEnd => simpa [Joint.plug] using h none rfl (by simp) trivial
  | made link =>
    refine ⟨⟨hmay rfl, hwires⟩, fun reply hreply g₁ hmade => ?_⟩
    cases hreply
    obtain ⟨hread, hwrite, hne, pipe, rfl⟩ := hmade
    exact h (some ⟨link, pipe⟩) rfl (by simp) ⟨hread, hwrite, hne⟩

theorem permits_launch {number : Nat} {previous : Option Link} {rest : List Stage}
    {launched : List (Exchange β)} {result : Except Fatal (List Pid)}
    (h : Launch number previous rest launched result) (before : Option Joint)
    (g : Assembly) (hprevious : previous = before.map (·.link))
    (harrived : Arrived base stages rest number before g) :
    (contract base stages).Permits
      (fun g' => g'.wires = base ∧ ∀ pids, result = .ok pids →
        Complete base stages g') launched g := by
  have hfailed (fatal : Fatal) {before : Option Joint}
      {g : Assembly} (hfits : Joint.Fits base before)
      (hwires : g.wires = Joint.plug base before) : (contract base stages).Permits
        (fun g' => g'.wires = base ∧ ∀ pids : List Pid, Except.error fatal = .ok pids →
          Complete base stages g')
        (Link.closing (before.map (·.link)) : List (Exchange β)) g := by
    rw [← List.append_nil (Link.closing _)]
    exact permits_closing hfits hwires ⟨rfl, fun pids hpids => by cases hpids⟩
  induction h generalizing before g with
  | complete =>
    obtain ⟨hwires, hcomplete⟩ := harrived.complete
    exact ⟨hwires, fun _ _ => hcomplete⟩
  | zeroByte number previous hzero =>
    subst hprevious
    exact hfailed _ harrived.fits harrived.wires
  | noPipe number previous reason hzero hmore =>
    subst hprevious
    refine ⟨⟨harrived.room hmore, before, harrived.fits, harrived.wires⟩,
      fun reply hreply g₁ hmade => ?_⟩
    cases hreply
    obtain rfl : g₁ = g := hmade
    exact hfailed _ harrived.fits harrived.wires
  | noProcess number previous reason hzero hmaking =>
    subst hprevious
    refine permits_making hmaking harrived.room ⟨before, harrived.fits, harrived.wires⟩
      fun behind hnext hbehind hfits => ?_
    exact ⟨⟨_, _, _, rfl, hnext ▸ harrived.isNext hbehind hfits⟩, fun pid hpid => by cases hpid⟩
  | @started number previous stage rest pid making past next result hzero hmaking _ ih =>
    subst hprevious
    refine permits_making hmaking harrived.room ⟨before, harrived.fits, harrived.wires⟩
      fun behind hnext hbehind hfits => ?_
    refine ⟨⟨_, _, _, rfl, hnext ▸ harrived.isNext hbehind hfits⟩, fun pid' hpid g₁ hstart => ?_⟩
    cases hpid
    have hstart : g₁ = _ := hstart
    subst hstart
    refine ⟨trivial, fun _ _ g₂ hnote => ?_⟩
    have hnote : g₂ = _ := hnote
    subst hnote
    have hboth := hfits
    rw [harrived.wires] at hboth ⊢
    obtain ⟨hbehind', hfits'⟩ := harrived.fits.swap hboth
    refine permits_closing hfits' (Joint.plug_comm harrived.fits hboth) ?_
    refine (ih behind _ hnext (harrived.next hbehind hbehind' pid)).mono fun g₃ hdone =>
      ⟨hdone.1, fun pids hok => ?_⟩
    cases result with
    | error fatal => exact absurd hok (by simp [Except.map])
    | ok others => exact hdone.2 others rfl

end

private theorem awaitEach_honours (pids : List Pid) (g : Assembly)
    (hcomplete : Complete base stages g) :
    (Job.awaitEach pids).Honours (contract base stages) (fun _ g' => g' = g) g := by
  induction pids with
  | nil => exact rfl
  | cons pid rest ih =>
    refine .bind (.bind (Program.honours_ask hcomplete fun reply g₁ hwait => ?_))
    have hwait : g₁ = g := by
      have hwait : (contract base stages).gives g (.waitFor pid) reply g₁ := hwait
      exact hwait
    subst hwait
    have hrest : (Job.awaitEach rest).Honours (contract base stages) (fun _ g' => g' = g₁) g₁ := ih
    have hafter (status : Int) (g₂ : Assembly) (h : g₂ = g₁) :
        (do let others ← Job.awaitEach rest; pure (status :: others) : Program (List Int)).Honours
          (contract base stages) (fun _ g' => g' = g₁) g₂ := by
      subst h
      exact .bind (hrest.mono fun others g₃ h => h)
    cases reply with
    | ok status => exact .bind (Program.honours_act trivial fun _ g₂ hnote => hafter _ g₂ hnote)
    | error reason => exact .bind (Program.honours_act trivial fun _ g₂ hnote => hafter _ g₂ hnote)

/-- Whatever comes of carrying out a pipeline, the interpreter has its old descriptors again in the
end; and unless it cannot go on, all stages were started, with a pipe between any two neighbours. -/
theorem execute_honours (pipeline : Pipeline) (background : Background) :
    (Action.execute (.run pipeline) background).Honours (contract base pipeline.stages)
      (fun o g => g.wires = base ∧ ∀ status, o.status = .ok status →
        Complete base pipeline.stages g) ⟨base, [], []⟩ := by
  refine .bind (Program.honours_act trivial fun _ g hnote => ?_)
  have hnote : g = _ := hnote
  subst hnote
  show (run pipeline background).Honours _ _ _
  unfold run
  split
  · rename_i hempty
    have hempty : pipeline.stages = [] := List.isEmpty_iff.mp hempty
    exact ⟨rfl, fun _ _ => ⟨rfl, by simp [hempty], by simp [hempty]⟩⟩
  · have hstart : (start pipeline.stages).Honours (contract base pipeline.stages) (fun r g =>
        g.wires = base ∧ ∀ pids, r = .ok pids → Complete base pipeline.stages g) ⟨base, [], []⟩ :=
      honours_of_launches fun launched result h => permits_launch h none _ rfl
        ⟨rfl, rfl, Nat.zero_le _, trivial, rfl, rfl, by simp⟩
    refine .bind (hstart.mono fun r g h => ?_)
    cases r with
    | error fatal => exact ⟨h.1, fun _ hok => absurd hok (by simp)⟩
    | ok pids =>
      have hcomplete := h.2 pids rfl
      dsimp only
      split
      · refine .bind (Program.honours_act trivial fun _ g' hnote => ?_)
        have hnote : g' = g := hnote
        exact ⟨hnote ▸ h.1, fun _ _ => hnote ▸ hcomplete⟩
      · refine .bind (.bind ((awaitEach_honours pids.reverse g hcomplete).mono fun _ g' hg => ?_))
        exact ⟨hg ▸ h.1, fun _ _ => hg ▸ hcomplete⟩

end

end Pipeline

end PipeShell
