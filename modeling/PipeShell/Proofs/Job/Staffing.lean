import PipeShell.Proofs.Job.Launch

/-!
Which children are started for a pipeline: the processes of its stages, in their order.
-/

set_option autoImplicit false
set_option relaxedAutoImplicit false

namespace PipeShell.Pipeline

open Program

/-- The children that were started are the processes of stages in their order. The first of all
reads from the given pipe, and there is no pipe behind the last one. -/
def Staffed {β : Type} (previous : Option Link) (rest : List Stage)
    (started : List (Pid × Program β)) : Prop :=
  ∀ k pid child, started[k]? = some (pid, child) →
    ∃ stage before behind, rest[k]? = some stage ∧ child = stage.process before behind ∧
      (k = 0 → before = previous) ∧ (k + 1 = rest.length → behind = none)

theorem Staffed.nil {β : Type} (previous : Option Link) (rest : List Stage) :
    Staffed previous rest ([] : List (Pid × Program β)) := by
  intro k pid child hk
  simp at hk

theorem Staffed.cons {β : Type} {previous behind : Option Link} {stage : Stage} {rest : List Stage}
    {pid : Pid} {started : List (Pid × Program β)} (hlast : rest = [] → behind = none)
    (h : Staffed behind rest started) :
    Staffed previous (stage :: rest) ((pid, stage.process previous behind) :: started) := by
  intro k pid' child hk
  cases k with
  | zero =>
    obtain ⟨rfl, rfl⟩ := Prod.mk.inj (Option.some.inj hk)
    refine ⟨stage, previous, behind, rfl, rfl, fun _ => rfl, fun hlength => hlast ?_⟩
    exact List.length_eq_zero_iff.mp (Nat.succ.inj hlength).symm
  | succ k =>
    obtain ⟨stage', before, behind', hstage, hchild, -, hend⟩ := h k pid' child hk
    exact ⟨stage', before, behind', hstage, hchild, fun hzero => absurd hzero (Nat.succ_ne_zero k),
      fun hlength => hend (Nat.succ.inj hlength)⟩

theorem Staffed.andThen {β δ : Type} {previous : Option Link} {rest : List Stage}
    {started : List (Pid × Program β)} (h : Staffed previous rest started) (f : β → Program δ) :
    Staffed previous rest (started.map fun (pid, child) => (pid, child >>= f)) := by
  intro k pid child hk
  rw [List.getElem?_map, Option.map_eq_some_iff] at hk
  obtain ⟨⟨pid', child'⟩, hstarted, heq⟩ := hk
  obtain ⟨rfl, rfl⟩ := Prod.mk.inj heq
  obtain ⟨stage, before, behind, hstage, rfl, hfirst, hlast⟩ := h k pid' child' hstarted
  exact ⟨stage, before, behind, hstage, stage.process_bind before behind f, hfirst, hlast⟩

theorem Staffed.of_prefix {β : Type} {previous : Option Link} {rest : List Stage}
    {started more : List (Pid × Program β)} (h : Staffed previous rest more)
    (hearlier : started <+: more) : Staffed previous rest started := by
  obtain ⟨later, rfl⟩ := hearlier
  intro k pid child hk
  exact h k pid child ((List.getElem?_append_left (List.getElem?_eq_some_iff.mp hk).1).trans hk)

theorem Launch.staffed {β : Type} {number : Nat} {previous : Option Link} {rest : List Stage}
    {launched : List (Exchange β)} {result : Except Fatal (List Pid)}
    (h : Launch number previous rest launched result) :
    Staffed previous rest (children launched) := by
  induction h with
  | complete number previous => exact .nil _ _
  | zeroByte number previous hzero => exact children_closing previous ▸ .nil _ _
  | noPipe number previous reason hzero hmore =>
    have hnone : children
        (.called .pipe (some (.error reason)) :: Link.closing previous : List (Exchange β)) = [] :=
      children_closing previous
    exact hnone ▸ .nil _ _
  | noProcess number previous reason hzero hmaking =>
    exact hmaking.children_refused _ reason previous ▸ .nil _ _
  | @started number previous stage rest pid making past next result hzero hmaking _ ih =>
    rw [hmaking.children_started]
    refine .cons (fun hnil => ?_) ih
    subst hnil
    cases hmaking
    rfl

theorem Launch.no_zeroByte {β : Type} {number : Nat} {previous : Option Link} {rest : List Stage}
    {launched : List (Exchange β)} {result : Except Fatal (List Pid)}
    (h : Launch number previous rest launched result)
    (hstrings : ∀ stage ∈ rest, stage.zeroByte? = none)
    (position : Nat) : result ≠ .error (.zeroByte position) := by
  induction h with
  | complete => simp
  | zeroByte number previous hzero => simp [hstrings _ List.mem_cons_self] at hzero
  | noPipe => simp
  | noProcess => simp
  | @started number previous stage rest pid making past next result hzero hmaking _ ih =>
    have hothers := ih fun stage hmem => hstrings stage (List.mem_cons_of_mem _ hmem)
    cases result with
    | ok pids => simp [Except.map]
    | error fatal => simpa [Except.map] using hothers

theorem execute_staffed {p : Pipeline} (hstrings : ∀ stage ∈ p.stages, stage.zeroByte? = none)
    {background : Background} {past : List (Exchange Outcome)}
    {result : Option Outcome} (h : Course ((Action.run p).execute background) past result) :
    (∀ outcome ∈ result, ∀ position, outcome.status ≠ .error (.zeroByte position)) ∧
      Staffed none p.stages (children past) := by
  obtain ⟨past', outcome, hcourse, -, hchildren, hresult⟩ :=
    h.completed (execute_manages p background) fun _ => id
  obtain ⟨launched, started, after, rfl, hlaunch, hafter⟩ := course_execute_iff.mp hcourse
  have hattends := follow_attends p background started
  rw [children_execute _ (hafter.childless hattends)] at hchildren
  refine ⟨fun outcome' houtcome position hstatus => ?_, hlaunch.staffed.of_prefix hchildren⟩
  obtain rfl := hresult outcome' houtcome
  cases started with
  | error fatal =>
    obtain ⟨-, rfl⟩ := course_done_iff.mp hafter
    cases hstatus
    exact hlaunch.no_zeroByte hstrings position rfl
  | ok pids =>
    obtain ⟨status, hok⟩ := (hafter.of_confined hattends).2.2 _ rfl ⟨pids, rfl⟩
    cases hok.symm.trans hstatus

end PipeShell.Pipeline
