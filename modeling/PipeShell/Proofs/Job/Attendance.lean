import Mathlib.Data.List.Nodup
import PipeShell.Proofs.Job.Launch

/-!
How the interpreter attends to a pipeline in the foreground, if pipes can always be made: it starts
all stages, waits for each of them once, and takes over the code of the last one.
-/

set_option autoImplicit false
set_option relaxedAutoImplicit false

namespace PipeShell.Pipeline

/-- The children that the interpreter has started and those that it has waited for, and how many
calls it makes at most before it is done. -/
structure Attendance where
  children : List Pid := []
  collected : List Pid := []
  left : Nat

def Apart (link? : Option Link) : Prop :=
  ∀ link ∈ link?, link.readEnd ≠ Fd.complaints ∧ link.writeEnd ≠ Fd.complaints

/-- What the interpreter may do for a pipeline of so many stages, the last of which ends with some
code. -/
def conduct (count : Nat) (code : UInt8) : Contract Attendance where
  may g c := 0 < g.left ∧
    match c with
    | .note _ | .pipe => True
    | .close fd => fd ≠ Fd.complaints
    | .waitFor child => g.children.length = count ∧ child ∈ g.children ∧ child ∉ g.collected
    | _ => False
  gives g c reply g' := g.left = g'.left + 1 ∧ g'.children = g.children ∧
    match c, reply with
    | .pipe, .ok (readFd, writeFd) =>
      Apart (some ⟨readFd, writeFd⟩) ∧ g'.collected = g.collected
    | .pipe, .error _ => False
    | .waitFor child, reply => g'.collected = g.collected ++ [child] ∧
      ∃ e : Ending, reply = e.report child ∧ (g.children.getLast? = some child → e = .exited code)
    | _, _ => g'.collected = g.collected
  mayStart g _ previous next := 0 < g.left ∧ Apart previous ∧ Apart next
  starts g pid g' :=
    g.left = g'.left + 1 ∧ g'.children = g.children ++ [pid] ∧
    g'.collected = g.collected ∧ pid ∉ g.children

section

variable {count : Nat} {code : UInt8}

private def Idle (g : Attendance) (cost : Nat) (g' : Attendance) : Prop :=
  g.left ≤ g'.left + cost ∧ g'.children = g.children ∧ g'.collected = g.collected

private theorem Idle.trans {g g' g'' : Attendance} {cost cost' : Nat} (h : Idle g cost g')
    (h' : Idle g' cost' g'') : Idle g (cost + cost') g'' := by
  obtain ⟨hleft, hchildren, hcollected⟩ := h
  obtain ⟨hleft', hchildren', hcollected'⟩ := h'
  exact ⟨by omega, hchildren'.trans hchildren, hcollected'.trans hcollected⟩

private theorem note_conduct {record : Log.Record} {g : Attendance} (hleft : 1 ≤ g.left) :
    (Program.note record).Honours (conduct count code) (fun _ g' => Idle g 1 g') g := by
  refine Program.honours_act ⟨hleft, trivial⟩ fun _ g' hnote => ?_
  obtain ⟨hcount, hchildren, hcollected⟩ := hnote
  exact ⟨Nat.le_of_eq hcount, hchildren, hcollected⟩

section

variable {β : Type} {R : Attendance → Prop} {past : List (Exchange β)} {g : Attendance}

private theorem conducts_close {fd : Fd} (hfd : fd ≠ Fd.complaints) (hleft : 1 ≤ g.left)
    (h : ∀ g', Idle g 1 g' → (conduct count code).Permits R past g') :
    (conduct count code).Permits R (.called (.close fd) (some ()) :: past) g :=
  ⟨⟨hleft, hfd⟩, fun _ _ g' ⟨hcount, hchildren, hcollected⟩ => h g' ⟨Nat.le_of_eq hcount,
    hchildren, hcollected⟩⟩

private theorem conducts_closing {link? : Option Link} (hapart : Apart link?) (hleft : 2 ≤ g.left)
    (h : ∀ g', Idle g 2 g' → (conduct count code).Permits R past g') :
    (conduct count code).Permits R (Link.closing link? ++ past) g := by
  cases link? with
  | none => exact h g ⟨Nat.le_add_right _ _, rfl, rfl⟩
  | some link =>
    obtain ⟨hread, hwrite⟩ := hapart link rfl
    refine conducts_close hread (by omega) fun g₁ hidle => ?_
    have hleft₁ : 1 ≤ g₁.left := by
      have := hidle.1
      omega
    exact conducts_close hwrite hleft₁ fun g₂ hidle' => h g₂ (hidle.trans hidle')

private theorem conducts_making {last : Bool} {making : List (Exchange β)} {next : Option Link}
    (hmaking : Making last making next) (hleft : 1 ≤ g.left)
    (h : ∀ g', Idle g 1 g' → Apart next → (conduct count code).Permits R past g') :
    (conduct count code).Permits R (making ++ past) g := by
  cases hmaking with
  | atEnd => exact h g ⟨Nat.le_add_right _ _, rfl, rfl⟩ fun _ hlink => absurd hlink (by simp)
  | made link =>
    refine ⟨⟨hleft, trivial⟩, fun reply hreply g' ⟨hcount, hchildren, hmade⟩ => ?_⟩
    cases hreply
    exact h g' ⟨Nat.le_of_eq hcount, hchildren, hmade.2⟩ hmade.1

private def Starts (rest : List Stage) (least : Nat) (g : Attendance)
    (result : Except Fatal (List Pid)) (g' : Attendance) : Prop :=
  ∃ pids, result = .ok pids ∧ pids.length = rest.length ∧ g'.children = g.children ++ pids ∧
    g'.children.Nodup ∧ g'.collected = g.collected ∧ least ≤ g'.left

private theorem conducts_launch {number : Nat} {previous : Option Link} {rest : List Stage}
    {launched : List (Exchange β)} {result : Except Fatal (List Pid)}
    (h : Launch number previous rest launched result)
    (hstrings : ∀ stage ∈ rest, stage.zeroByte? = none)
    (hprevious : Apart previous) (g : Attendance) (hnodup : g.children.Nodup) (least : Nat)
    (hleft : least + 5 * rest.length ≤ g.left) :
    (conduct count code).Permits (Starts rest least g result) launched g := by
  induction h generalizing g with
  | complete => exact ⟨[], rfl, rfl, (List.append_nil _).symm, hnodup, rfl, by simpa using hleft⟩
  | zeroByte number previous hzero => simp [hstrings _ List.mem_cons_self] at hzero
  | noPipe number previous reason hzero hmore =>
    simp only [List.length_cons] at hleft
    refine ⟨⟨by omega, trivial⟩, fun reply hreply g' ⟨_, _, hmade⟩ => ?_⟩
    cases hreply
    exact hmade.elim
  | noProcess number previous reason hzero hmaking =>
    simp only [List.length_cons] at hleft
    refine conducts_making hmaking (by omega) fun g₁ hidle hnext =>
      ⟨⟨_, _, _, rfl, ?_, hprevious, hnext⟩, ?_⟩
    · have := hidle.1
      omega
    · exact fun pid hpid => by cases hpid
  | @started number previous stage rest pid making past next result hzero hmaking _ ih =>
    simp only [List.length_cons] at hleft
    refine conducts_making hmaking (by omega) fun g₁ ⟨hleft₁, hchildren₁, hcollected₁⟩ hnext => ?_
    refine ⟨⟨_, _, _, rfl, by omega, hprevious, hnext⟩, fun pid' hpid g₂ hstart => ?_⟩
    cases hpid
    obtain ⟨hleft₂, hchildren₂, hcollected₂, hnew⟩ := hstart
    refine ⟨⟨by omega, trivial⟩, fun _ _ g₃ ⟨hleft₃, hchildren₃, hcollected₃⟩ => ?_⟩
    refine conducts_closing hprevious (by omega) fun g₄ ⟨hleft₄, hchildren₄, hcollected₄⟩ => ?_
    have hchildren : g₄.children = g.children ++ [pid] := by
      rw [hchildren₄, hchildren₃, hchildren₂, hchildren₁]
    have hcollected : g₄.collected = g.collected := by
      rw [hcollected₄, hcollected₃, hcollected₂, hcollected₁]
    have hnodup₄ : g₄.children.Nodup := by
      rw [hchildren]
      exact hnodup.append (List.nodup_singleton _) (List.disjoint_singleton.mpr (hchildren₁ ▸ hnew))
    refine (ih (fun stage hmem => hstrings stage (List.mem_cons_of_mem _ hmem)) hnext g₄ hnodup₄
      (by omega)).mono ?_
    rintro g₅ ⟨others, rfl, hlength, hchildren₅, hnodup₅, hcollected₅, hleft₅⟩
    refine ⟨pid :: others, rfl, by simp [hlength], ?_, hnodup₅,
      hcollected₅.trans hcollected, hleft₅⟩
    rw [hchildren₅, hchildren, List.append_assoc]
    rfl

end

theorem awaitEach_conduct (pids : List Pid) (g : Attendance) (hcount : g.children.length = count)
    (howes : ∀ c ∈ pids, c ∈ g.children ∧ c ∉ g.collected) (hnodup : pids.Nodup)
    (hleft : 2 * pids.length ≤ g.left) :
    (Job.awaitEach pids).Honours (conduct count code)
      (fun statuses g' => g'.children = g.children ∧ g'.collected = g.collected ++ pids ∧
        ∀ c, pids.head? = some c → g.children.getLast? = some c →
        statuses.head? = some (code.toNat : Int)) g := by
  induction pids generalizing g with
  | nil => exact ⟨rfl, (List.append_nil _).symm, fun c hc => absurd hc (by simp)⟩
  | cons pid rest ih =>
    obtain ⟨hout, hrest⟩ := List.nodup_cons.mp hnodup
    obtain ⟨hmem, hnew⟩ := howes pid List.mem_cons_self
    simp only [List.length_cons] at hleft
    have hpositive : 0 < g.left := by omega
    refine .bind (.bind (Program.honours_ask ⟨hpositive, hcount, hmem,
      hnew⟩ fun reply g₁ hwait => ?_))
    obtain ⟨hleft₁, hchildren₁, hcollected₁, e, hreply, hlast⟩ := hwait
    have howes₁ : ∀ c ∈ rest, c ∈ g₁.children ∧ c ∉ g₁.collected := by
      intro c hc
      obtain ⟨hmem', hnew'⟩ := howes c (List.mem_cons_of_mem _ hc)
      refine ⟨hchildren₁ ▸ hmem', fun hm => ?_⟩
      rw [hcollected₁] at hm
      rcases List.mem_append.mp hm with hm | hm
      · exact hnew' hm
      · exact hout (List.mem_singleton.mp hm ▸ hc)
    have hpositive₁ : 1 ≤ g₁.left := by omega
    have hafter (record : Log.Record) (status : Int)
        (hstatus : g.children.getLast? = some pid → status = (code.toNat : Int)) :
        (Program.note record >>= fun _ => do
          let others ← Job.awaitEach rest
          pure (status :: others) : Program (List Int)).Honours (conduct count code)
          (fun statuses g' => g'.children = g.children ∧ g'.collected = g.collected ++ pid :: rest ∧
            ∀ c, (pid :: rest).head? = some c → g.children.getLast? = some c →
              statuses.head? = some (code.toNat : Int)) g₁ := by
      refine .bind ((note_conduct hpositive₁).mono fun _ g₂ hnote => ?_)
      obtain ⟨hleft₂, hchildren₂, hcollected₂⟩ := hnote
      have hothers := ih g₂ (by rw [hchildren₂, hchildren₁, hcount])
        (fun c hc => by rw [hchildren₂, hcollected₂]; exact howes₁ c hc) hrest (by omega)
      refine .bind (hothers.mono fun others g₃ hrest₃ => ?_)
      obtain ⟨hchildren₃, hcollected₃, -⟩ := hrest₃
      refine ⟨by rw [hchildren₃, hchildren₂, hchildren₁], ?_, fun c hc hc' => ?_⟩
      · rw [hcollected₃, hcollected₂, hcollected₁, List.append_assoc]
        rfl
      · cases hc
        exact congrArg some (hstatus hc')
    cases reply with
    | ok status =>
      refine hafter _ _ fun hgetLast => ?_
      rw [hlast hgetLast] at hreply
      cases hreply
      rfl
    | error reason =>
      refine hafter _ _ fun hgetLast => ?_
      rw [hlast hgetLast] at hreply
      cases hreply

def attention (count : Nat) : Nat := 1 + 7 * count

theorem execute_conduct {pipeline : Pipeline} {background : Background}
    (hstages : pipeline.stages ≠ []) (hforeground : pipeline.background = false)
    (hstrings : ∀ stage ∈ pipeline.stages, stage.zeroByte? = none) :
    (Action.execute (.run pipeline) background).Honours (conduct pipeline.stages.length code)
      (fun o g => o = ⟨.ok (code.toNat : Int), background⟩ ∧ ∀ c ∈ g.children, c ∈ g.collected)
      { left := attention pipeline.stages.length } := by
  have hpositive : 1 ≤ attention pipeline.stages.length := Nat.le_add_right _ _
  refine .bind ((note_conduct hpositive).mono fun _ g₁ hnote => ?_)
  obtain ⟨hleft₁, hchildren₁, hcollected₁⟩ := hnote
  dsimp only at hleft₁ hchildren₁ hcollected₁
  show (run pipeline background).Honours _ _ _
  unfold run
  rw [if_neg (by simpa using hstages)]
  have hstart : (start pipeline.stages).Honours (conduct pipeline.stages.length code)
      (Starts pipeline.stages (2 * pipeline.stages.length) g₁) g₁ :=
    honours_of_launches fun launched result h => conducts_launch h hstrings (fun _ h =>
      absurd h (by simp)) g₁ (by simp [hchildren₁]) _ (by simp only [attention] at hleft₁; omega)
  refine .bind (hstart.mono fun r g₂ hstarted => ?_)
  obtain ⟨pids, rfl, hlength, hchildren, hnodup, hcollected, hleft⟩ := hstarted
  rw [hchildren₁, List.nil_append] at hchildren
  rw [hchildren] at hnodup
  simp only [hforeground, Bool.false_eq_true, if_false]
  have howes : ∀ c ∈ pids.reverse, c ∈ g₂.children ∧ c ∉ g₂.collected := by
    intro c hc
    rw [hchildren, hcollected, hcollected₁]
    exact ⟨List.mem_reverse.mp hc, List.not_mem_nil⟩
  have hwait : (Job.awaitEach pids.reverse).Honours (conduct pipeline.stages.length code) _ g₂ :=
    awaitEach_conduct pids.reverse g₂ (by rw [hchildren, hlength]) howes
      (List.pairwise_reverse.mpr (hnodup.imp Ne.symm)) (by rw [List.length_reverse]; omega)
  refine .bind (.bind (hwait.mono fun statuses g₃ hwaited => ?_))
  obtain ⟨hchildren₃, hcollected₃, hstatuses⟩ := hwaited
  have hnonempty : pids ≠ [] := by
    rintro rfl
    exact hstages (List.length_eq_zero_iff.mp hlength.symm)
  obtain ⟨c, hc⟩ := Option.isSome_iff_exists.mp (List.getLast?_isSome.mpr hnonempty)
  have hhead : statuses.head? = some (code.toNat : Int) :=
    hstatuses c (by rw [List.head?_reverse, hc]) (by rw [hchildren, hc])
  constructor
  · show (⟨.ok (statuses.headD 0), background⟩ : Outcome) = _
    rw [List.headD_eq_head?_getD, hhead]
    rfl
  · intro c hc
    rw [hchildren₃, hchildren] at hc
    rw [hcollected₃]
    exact List.mem_append_right _ (List.mem_reverse.mpr hc)

end

end PipeShell.Pipeline
