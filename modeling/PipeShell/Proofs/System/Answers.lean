import PipeShell.Proofs.System.Courses

/-!
Programs whose calls are determined by the answers that they get. It is said once which answers a
call can have; then the calls that a program makes under these answers are a single list, and its
courses are the ways to get along that list.
-/

set_option autoImplicit false
set_option relaxedAutoImplicit false

namespace PipeShell

variable {α β : Type}

abbrev Answers := (c : Call) → c.Reply → Prop

def Answers.Accord (gives : Answers) (past : List (Exchange α)) : Prop :=
  ∀ c reply, .called c (some reply) ∈ past → gives c reply

namespace Program

/-- Under some answers a program makes these calls and comes to this result. If it comes to none,
the last of the calls has no answer. -/
def Performs (gives : Answers) (result : Option α) : Program α → List Call → Prop
  | .done a, cs => cs = [] ∧ result = some a
  | .call c next, cs => (∀ pid, c ≠ .waitFor pid) ∧ ∃ rest, cs = c :: rest ∧
    ((rest = [] ∧ result = none ∧ ∀ reply, ¬ gives c reply) ∨
      (∃ reply, gives c reply) ∧ ∀ reply, gives c reply → Performs gives result (next reply) rest)
  | .fork .., _ => False
  | .transfer .., _ => False
  | .flood .., _ => False

variable {gives : Answers} {x : Program α} {a : α} {result : Option α} {cs : List Call}

theorem performs_call {c : Call} {next : c.Reply → Program α}
    {reply : c.Reply} (hwait : ∀ pid, c ≠ .waitFor pid)
    (hreply : gives c reply) (h : ∀ reply, gives c reply → (next reply).Performs gives result cs) :
    (call c next).Performs gives result (c :: cs) := ⟨hwait, cs, rfl, .inr ⟨⟨reply, hreply⟩, h⟩⟩

theorem performs_last {c : Call} {next : c.Reply → Program α} (hwait : ∀ pid, c ≠ .waitFor pid)
    (h : ∀ reply, ¬ gives c reply) : (call c next).Performs gives none [c] :=
  ⟨hwait, [], rfl, .inl ⟨rfl, rfl, h⟩⟩

theorem Performs.bind {f : α → Program β} {r : Option β} {cs' : List Call}
    (h : x.Performs gives (some a) cs) (hafter : (f a).Performs gives r cs') :
    (x >>= f).Performs gives r (cs ++ cs') := by
  induction x generalizing cs with
  | done b =>
    obtain ⟨rfl, hresult⟩ := h
    cases hresult
    exact hafter
  | call c next ih =>
    obtain ⟨hwait, rest, rfl, ⟨-, hnone, -⟩ | ⟨⟨reply, hreply⟩, hnext⟩⟩ := h
    · cases hnone
    · exact performs_call hwait hreply fun reply' hreply' => ih reply' (hnext reply' hreply')
  | fork => exact h.elim
  | transfer => exact h.elim
  | flood => exact h.elim

theorem Performs.bind_none {f : α → Program β} (h : x.Performs gives none cs) :
    (x >>= f).Performs gives none cs := by
  induction x generalizing cs with
  | done b =>
    obtain ⟨-, hnone⟩ := h
    cases hnone
  | call c next ih =>
    obtain ⟨hwait, rest, rfl, ⟨rfl, -, hnever⟩ | ⟨⟨reply, hreply⟩, hnext⟩⟩ := h
    · exact performs_last hwait hnever
    · exact performs_call hwait hreply fun reply' hreply' => ih reply' (hnext reply' hreply')
  | fork => exact h.elim
  | transfer => exact h.elim
  | flood => exact h.elim

theorem Performs.of_course {past : List (Exchange α)} {r : Option α}
    (h : x.Performs gives result cs) (hcourse : Course x past r) (haccord : gives.Accord past) :
    calls past <+: cs ∧ ∀ b, r = some b → result = some b ∧ calls past = cs := by
  induction hcourse generalizing cs with
  | started => exact ⟨List.nil_prefix, fun b hb => by cases hb⟩
  | done a =>
    obtain ⟨rfl, rfl⟩ := h
    exact ⟨List.nil_prefix, fun b hb => ⟨hb, rfl⟩⟩
  | awaiting c next =>
    obtain ⟨-, rest, rfl, -⟩ := h
    exact ⟨List.prefix_append [c] rest, fun b hb => by cases hb⟩
  | @answered c next reply past r hcourse ih =>
    have hreply : gives c reply := haccord c reply List.mem_cons_self
    obtain ⟨hwait, rest, rfl, ⟨-, -, hnever⟩ | ⟨-, hnext⟩⟩ := h
    · exact absurd hreply (hnever reply)
    · have hresumed : (resume c next reply).Performs gives result rest := by
        rw [resume_of_not_wait hwait]
        exact hnext reply hreply
      obtain ⟨hfront, hend⟩ :=
        ih hresumed fun c' reply' hmem => haccord c' reply' (List.mem_cons_of_mem _ hmem)
      refine ⟨List.cons_prefix_cons.mpr ⟨rfl, hfront⟩, fun b hb => ?_⟩
      obtain ⟨hresult, hcalls⟩ := hend b hb
      exact ⟨hresult, congrArg (c :: ·) hcalls⟩
  | forked => exact h.elim
  | transferring => exact h.elim
  | transferred => exact h.elim
  | flooding => exact h.elim
  | flooded => exact h.elim

theorem Performs.exists_course (h : x.Performs gives result cs) :
    ∃ past, Course x past result ∧ gives.Accord past ∧ calls past = cs := by
  induction x generalizing cs with
  | done a =>
    obtain ⟨rfl, rfl⟩ := h
    exact ⟨[], .done a, fun c reply hmem => absurd hmem List.not_mem_nil, rfl⟩
  | call c next ih =>
    obtain ⟨hwait, rest, rfl, ⟨rfl, rfl, -⟩ | ⟨⟨reply, hreply⟩, hnext⟩⟩ := h
    · refine ⟨[.called c none], .awaiting c next, fun c' reply hmem => ?_, rfl⟩
      cases List.mem_singleton.mp hmem
    · obtain ⟨past, hcourse, haccord, rfl⟩ := ih reply (hnext reply hreply)
      rw [← resume_of_not_wait hwait next reply] at hcourse
      refine ⟨_ :: past, .answered reply hcourse, fun c' reply' hmem => ?_, rfl⟩
      rcases List.mem_cons.mp hmem with heq | hmem
      · cases heq
        exact hreply
      · exact haccord c' reply' hmem
  | fork => exact h.elim
  | transfer => exact h.elim
  | flood => exact h.elim

theorem Course.answered_before {past earlier later : List (Exchange α)} {e : Exchange α} {c : Call}
    (h : Course x past result) (heq : past = earlier ++ e :: later) : .called c none ∉ earlier := by
  -- behind an exchange with an answer there is the course of what follows
  have hbehind {first : Exchange α} {rest : List (Exchange α)} {earlier : List (Exchange α)}
      (hanswered : first ≠ .called c none)
      (ih : ∀ {earlier : List (Exchange α)},
        rest = earlier ++ e :: later → .called c none ∉ earlier)
      (heq : first :: rest = earlier ++ e :: later) : .called c none ∉ earlier := by
    cases earlier with
    | nil => exact List.not_mem_nil
    | cons e' earlier =>
      obtain ⟨rfl, hrest⟩ := List.cons.inj heq
      exact List.not_mem_cons_of_ne_of_not_mem hanswered.symm (ih hrest)
  induction h generalizing earlier with
  | started | done => exact absurd heq (by simp)
  | awaiting | transferring | flooding =>
    cases earlier with
    | nil => exact List.not_mem_nil
    | cons e' earlier => exact absurd heq (by simp)
  | answered _ _ ih => exact hbehind (fun hnone => by cases hnone) ih heq
  | forked _ _ ih => exact hbehind (by simp) ih heq
  | transferred _ _ ih => exact hbehind (by simp) ih heq
  | flooded _ _ ih => exact hbehind (by simp) ih heq

end Program

end PipeShell
