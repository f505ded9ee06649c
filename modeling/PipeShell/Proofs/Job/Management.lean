import PipeShell.Execute
import PipeShell.Proofs.System.Courses

/-!
The calls that the interpreter makes for a pipeline, whatever the answers to them are, and what is
left of its background in the end.
-/

set_option autoImplicit false
set_option relaxedAutoImplicit false

namespace PipeShell

open Program

namespace Link

variable {may : Call → Prop}

theorem release_confined (hclose : ∀ fd, may (.close fd)) (link : Link) :
    link.release.Confined may False fun _ => True :=
  .bind (confined_act (hclose _) (confined_act (hclose _) trivial))

theorem releaseAny_confined (hclose : ∀ fd, may (.close fd)) (link? : Option Link) :
    (releaseAny link?).Confined may False fun _ => True := by
  cases link? with
  | none => trivial
  | some link => exact link.release_confined hclose

end Link

namespace Pipeline

def Launches : Call → Prop
  | .pipe => True
  | .close _ => True
  | .note _ => True
  | _ => False

def Attends : Call → Prop
  | .waitFor _ => True
  | .note _ => True
  | _ => False

def Manages : Call → Prop
  | .pipe => True
  | .close _ => True
  | .waitFor _ => True
  | .note _ => True
  | _ => False

theorem Launches.manages {c : Call} (h : Launches c) : Manages c := by
  cases c with
  | pipe | close | note => trivial
  | _ => exact h.elim

theorem Attends.manages {c : Call} (h : Attends c) : Manages c := by
  cases c with
  | waitFor | note => trivial
  | _ => exact h.elim

theorem note_launches (record : Log.Record) : (note record).Confined Launches False fun _ => True :=
  confined_act trivial trivial

theorem note_manages (record : Log.Record) : (note record).Confined Manages False fun _ => True :=
  confined_act trivial trivial

theorem releaseAny_launches (link? : Option Link) :
    (Link.releaseAny link?).Confined Launches False fun _ => True :=
  Link.releaseAny_confined (fun _ => trivial) link?

theorem makeLink_launches (last : Bool) :
    (makeLink last).Confined Launches False fun _ => True := by
  unfold makeLink
  split
  · trivial
  · exact .bind (confined_ask trivial fun _ => trivial)

theorem startFrom_launches (number : Nat) (previous : Option Link) (rest : List Stage) :
    (startFrom number previous rest).Confined Launches True fun _ => True := by
  have hforks : False → True := False.elim
  induction rest generalizing number previous with
  | nil => trivial
  | cons stage rest ih =>
    have hrelease (link? : Option Link) {r : Except Fatal (List Pid)} : (do
        Link.releaseAny link?
        pure r : Program (Except Fatal (List Pid))).Confined Launches True fun _ => True :=
      .bind ((releaseAny_launches link?).mono (fun _ => id) hforks fun _ _ => trivial)
    unfold startFrom
    split
    · exact hrelease previous
    · refine .bind ((makeLink_launches rest.isEmpty).mono (fun _ => id) hforks fun r _ => ?_)
      cases r with
      | error reason => exact hrelease previous
      | ok next =>
        refine ⟨trivial, fun reply => ?_⟩
        cases reply with
        | error reason =>
          exact .bind ((releaseAny_launches next).mono (fun _ => id) hforks fun _ _ =>
            hrelease previous)
        | ok pid =>
          refine .bind ((note_launches _).mono (fun _ => id) hforks fun _ _ => ?_)
          refine .bind ((releaseAny_launches previous).mono (fun _ => id) hforks fun _ _ => ?_)
          exact .bind ((ih (number + 1) next).imp fun _ _ => trivial)

theorem startFrom_manages (number : Nat) (previous : Option Link) (rest : List Stage) :
    (startFrom number previous rest).Confined Manages True fun _ => True :=
  (startFrom_launches number previous rest).mono (fun _ => Launches.manages) id fun _ => id

theorem awaitEach_attends (pids : List Pid) :
    (Job.awaitEach pids).Confined Attends False fun _ => True := by
  induction pids with
  | nil => trivial
  | cons pid rest ih =>
    have hrest (record : Log.Record) (status : Int) : (do
        Program.note record
        let others ← Job.awaitEach rest
        pure (status :: others) : Program (List Int)).Confined Attends False fun _ => True :=
      .bind (confined_act trivial (.bind (ih.imp fun _ _ => trivial)))
    refine .bind (.bind (confined_ask trivial fun reply => ?_))
    cases reply with
    | ok status => exact hrest _ _
    | error reason => exact hrest _ _

def attend (p : Pipeline) (background : Background) (pids : List Pid) : Program Outcome :=
  if p.background then do
    Program.note (.detached pids)
    pure ⟨.ok 0, background.add pids⟩
  else do
    let status ← Job.wait pids
    pure ⟨.ok status, background⟩

theorem run_eq {p : Pipeline} (h : p.stages ≠ []) (background : Background) : p.run background = (do
    match ← start p.stages with
    | .error fatal => pure ⟨.error fatal, background⟩
    | .ok pids => p.attend background pids) := if_neg (by simpa using h)

theorem attend_attends (p : Pipeline) (background : Background) (pids : List Pid) :
    (p.attend background pids).Confined Attends False fun o => (∃ n, o.status = .ok n) ∧
      (o.background = background ∨ p.background = true ∧
        o.background.pids = background.pids ++ pids) := by
  unfold attend
  split
  · next hbackground => exact .bind (confined_act trivial ⟨⟨0, rfl⟩, .inr ⟨hbackground, rfl⟩⟩)
  · exact .bind (.bind
      ((awaitEach_attends pids.reverse).imp fun statuses _ => ⟨⟨statuses.headD 0, rfl⟩, .inl rfl⟩))

theorem run_manages (p : Pipeline) (background : Background) :
    (p.run background).Confined Manages True fun o => o.background = background ∨
      p.background = true ∧ ∃ pids, o.background.pids = background.pids ++ pids := by
  by_cases hstages : p.stages = []
  · unfold run
    rw [if_pos (by simp [hstages])]
    exact .inl rfl
  · rw [run_eq hstages]
    refine .bind ((startFrom_manages 0 none p.stages).imp fun r _ => ?_)
    cases r with
    | error fatal => exact .inl rfl
    | ok pids =>
      refine (attend_attends p background pids).mono
        (fun _ => Attends.manages) False.elim fun o ho => ?_
      exact ho.2.imp_right fun ⟨hbackground, hadd⟩ => ⟨hbackground, pids, hadd⟩

theorem execute_manages (p : Pipeline) (background : Background) :
    ((Action.run p).execute background).Confined Manages True fun o => o.background = background ∨
      p.background = true ∧ ∃ pids, o.background.pids = background.pids ++ pids :=
  .bind ((note_manages _).mono (fun _ => id) False.elim fun _ _ => run_manages p background)

end Pipeline

end PipeShell
