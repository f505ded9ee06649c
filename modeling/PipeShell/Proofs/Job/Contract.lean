import PipeShell.Job.Start

/-!
Contracts between a process and the system: which calls the process may make and what it may take
from the answers, depending on a state that stands for its history. A program that honours a
contract does so whatever the answers are, as long as the system gives only those that the contract
has; programs are shown to honour a contract part by part.
-/

set_option autoImplicit false
set_option relaxedAutoImplicit false

namespace PipeShell

variable {α β γ : Type}

/-- A contract over states of some type. The children of a process are stages of pipelines. -/
structure Contract (γ : Type) where
  may : γ → Call → Prop
  /-- What state an answer to a call can leave. -/
  gives : γ → (c : Call) → c.Reply → γ → Prop
  mayStart : γ → Stage → Option Link → Option Link → Prop
  /-- What state the start of a child can leave. -/
  starts : γ → Pid → γ → Prop

namespace Program

theorem bind_assoc {δ : Type} (x : Program α) (f : α → Program β) (g : β → Program δ) :
    (x >>= f) >>= g = x >>= fun a => f a >>= g := by
  induction x with
  | done a => rfl
  | call c next ih =>
    simp only [call_bind]
    exact congrArg (call c) (funext ih)
  | fork child next ihchild ih =>
    simp only [fork_bind]
    rw [ihchild]
    exact congrArg (fork (child >>= fun a => f a >>= g)) (funext ih)
  | transfer t next ih => exact congrArg (transfer t) (funext ih)
  | flood fd block next ih => exact congrArg (flood fd block) (funext ih)

theorem bind_done (x : Program α) : (x >>= fun a => .done a) = x := by
  induction x with
  | done a => rfl
  | call c next ih => exact congrArg (call c) (funext ih)
  | fork child next ihchild ih =>
    rw [fork_bind, ihchild]
    exact congrArg (fork child) (funext ih)
  | transfer t next ih => exact congrArg (transfer t) (funext ih)
  | flood fd block next ih => exact congrArg (flood fd block) (funext ih)

theorem exit_bind (code : UInt8) (f : α → Program β) : (exit code >>= f) = exit code :=
  congrArg (call (.exit code)) (funext fun e => e.elim)

/-- Whether a program honours a contract from some state on, with a result that some predicate holds
of. -/
def Honours (K : Contract γ) (Q : α → γ → Prop) : Program α → γ → Prop
  | .done a, g => Q a g
  | .call c next, g => K.may g c ∧ ∀ reply g', K.gives g c reply g' → Honours K Q (next reply) g'
  | .fork child next, g =>
    (∃ (stage : Stage) (previous link : Option Link),
      child = stage.process previous link ∧ K.mayStart g stage previous link) ∧
    ∀ pid g', K.starts g pid g' → Honours K Q (next (.ok pid)) g'
  | .transfer _ _, _ => False
  | .flood .., _ => False

end Program

theorem Stage.process_bind (stage : Stage) (previous next : Option Link) (f : α → Program β) :
    (stage.process previous next >>= f) = stage.process previous next := by
  simp only [process, Program.bind_assoc, Program.exit_bind]

namespace Program

variable {K : Contract γ} {Q R : α → γ → Prop}

theorem Honours.mono {x : Program α} {g : γ} (h : x.Honours K Q g) (hqr : ∀ a g, Q a g → R a g) :
    x.Honours K R g := by
  induction x generalizing g with
  | done a => exact hqr a g h
  | call c next ih => exact ⟨h.1, fun reply g' hg => ih reply (h.2 reply g' hg)⟩
  | fork child next _ ih => exact ⟨h.1, fun pid g' hg => ih (.ok pid) (h.2 pid g' hg)⟩
  | transfer => exact h
  | flood => exact h

/-- One program behind another one, which hands over its result together with the state it has
left. -/
theorem Honours.bind {x : Program α} {f : α → Program β} {S : β → γ → Prop} {g : γ}
    (h : x.Honours K (fun a g => (f a).Honours K S g) g) : (x >>= f).Honours K S g := by
  induction x generalizing g with
  | done a => exact h
  | call c next ih => exact ⟨h.1, fun reply g' hg => ih reply (h.2 reply g' hg)⟩
  | fork child next _ ih =>
    obtain ⟨⟨stage, previous, link, rfl, hstart⟩, hnext⟩ := h
    refine ⟨⟨stage, previous, link, stage.process_bind previous link f, hstart⟩,
      fun pid g' hg => ?_⟩
    exact ih (.ok pid) (hnext pid g' hg)
  | transfer => exact h.elim
  | flood => exact h.elim

theorem honours_ask {c : Call} {Q : c.Reply → γ → Prop} {g : γ} (hmay : K.may g c)
    (hgives : ∀ reply g', K.gives g c reply g' → Q reply g') :
    (ask c).Honours K Q g := ⟨hmay, hgives⟩

theorem honours_act {c : Call} {Q : Unit → γ → Prop} {g : γ} (hmay : K.may g c)
    (hgives : ∀ reply g', K.gives g c reply g' → Q () g') : (act c).Honours K Q g := ⟨hmay, hgives⟩

theorem honours_exit {code : UInt8} {g : γ} (hmay : K.may g (.exit code)) :
    (exit code : Program α).Honours K Q g := ⟨hmay, fun e => e.elim⟩

end Program

end PipeShell
