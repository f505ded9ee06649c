import PipeShell.System.Program
import PipeShell.Proofs.System.Tables

/-!
The children of a process as the system keeps them. A number may be given to more than one child,
but never to two that have not been collected; a child may end at any time, and until then nobody is
told that it has; every wait and every look may be interrupted, any number of times.
-/

set_option autoImplicit false
set_option relaxedAutoImplicit false

namespace PipeShell

variable {α : Type}

structure Child where
  pid : Pid
  birth : Nat
  deriving DecidableEq, Repr

/-- The children that were started and those that were collected, both in the order in which that
was done. -/
structure Ledger where
  started : List Child := []
  collected : List Child := []
  /-- How many looks at a child were interrupted. -/
  missed : Nat := 0

namespace Ledger

def Owes (g : Ledger) (c : Child) : Prop := c ∈ g.started ∧ c ∉ g.collected

def start (g : Ledger) (pid : Pid) : Ledger :=
  { g with started := g.started ++ [⟨pid, g.started.length⟩] }

def collect (g : Ledger) (c : Child) : Ledger := { g with collected := g.collected ++ [c] }

def miss (g : Ledger) : Ledger := { g with missed := g.missed + 1 }

/-- A ledger as it comes about: no child is in it twice, and the ones that are still to be collected
have numbers of their own. -/
structure Sound (g : Ledger) : Prop where
  born : ∀ c ∈ g.started, c.birth < g.started.length
  distinct : g.started.Nodup
  known : ∀ c ∈ g.collected, c ∈ g.started
  once : g.collected.Nodup
  apart : ∀ c d, g.Owes c → g.Owes d → c.pid = d.pid → c = d

theorem sound_empty : Sound {} where
  born _ hc := absurd hc List.not_mem_nil
  distinct := List.nodup_nil
  known _ hc := absurd hc List.not_mem_nil
  once := List.nodup_nil
  apart _ _ hc := absurd hc.1 List.not_mem_nil

theorem Sound.start {g : Ledger} (h : g.Sound) {pid : Pid} (hpid : ∀ c, g.Owes c → c.pid ≠ pid) :
    (g.start pid).Sound := by
  have hold {c : Child} (hc : (g.start pid).Owes c) : g.Owes c ∨ c.pid = pid := by
    rcases List.mem_append.mp hc.1 with hm | hm
    · exact .inl ⟨hm, hc.2⟩
    · exact .inr (by rw [List.mem_singleton.mp hm])
  have hlength : (g.start pid).started.length = g.started.length + 1 := by simp [Ledger.start]
  have hnew {c : Child} (hc : (g.start pid).Owes c) (hp : c.pid = pid) :
      c = ⟨pid, g.started.length⟩ := by
    rcases List.mem_append.mp hc.1 with hm | hm
    · exact absurd hp (hpid c ⟨hm, hc.2⟩)
    · exact List.mem_singleton.mp hm
  constructor
  · intro c hc
    rw [hlength]
    rcases List.mem_append.mp hc with hm | hm
    · exact Nat.lt_succ_of_lt (h.born c hm)
    · rw [List.mem_singleton.mp hm]
      exact Nat.lt_succ_self _
  · refine List.nodup_append.mpr ⟨h.distinct, by simp, fun c hc d hd he => ?_⟩
    rw [List.mem_singleton.mp hd] at he
    subst he
    exact Nat.lt_irrefl _ (h.born _ hc)
  · exact fun c hc => List.mem_append_left _ (h.known c hc)
  · exact h.once
  · intro c d hc hd he
    rcases hold hc with hc' | hp
    · rcases hold hd with hd' | hp
      · exact h.apart c d hc' hd' he
      · exact absurd (he.trans hp) (hpid c hc')
    · rw [hnew hc hp, hnew hd (he.symm.trans hp)]

theorem Sound.collect {g : Ledger} (h : g.Sound) {c : Child} (hc : g.Owes c) :
    (g.collect c).Sound := by
  have hold {d : Child} (hd : (g.collect c).Owes d) : g.Owes d :=
    ⟨hd.1, fun hm => hd.2 (List.mem_append_left _ hm)⟩
  constructor
  · exact h.born
  · exact h.distinct
  · intro d hd
    rcases List.mem_append.mp hd with hm | hm
    · exact h.known d hm
    · exact List.mem_singleton.mp hm ▸ hc.1
  · refine List.nodup_append.mpr ⟨h.once, by simp, fun d hd d' hd' he => ?_⟩
    rw [List.mem_singleton.mp hd'] at he
    exact hc.2 (he ▸ hd)
  · exact fun d d' hd hd' => h.apart d d' (hold hd) (hold hd')

theorem Sound.miss {g : Ledger} (h : g.Sound) : g.miss.Sound :=
  ⟨h.born, h.distinct, h.known, h.once, h.apart⟩

end Ledger

/-- The children of a process, with the endings of those that have ended. -/
structure Custody where
  ledger : Ledger := {}
  endings : Table Ending := {}

namespace Custody

def Over (k : Custody) (c : Child) : Prop := (k.endings.get? c.birth).isSome

def finish (k : Custody) (c : Child) (e : Ending) : Custody :=
  { k with endings := k.endings.set c.birth e }

structure Sound (k : Custody) : Prop where
  ledger : k.ledger.Sound
  ended : ∀ c ∈ k.ledger.collected, k.Over c

end Custody

def Call.child? : Call → Option Pid
  | waitFor pid | awaitEnd pid | poll pid => some pid
  | _ => none

/-- What can happen while a process carries out a program. The answers of calls that do not ask for
a child may be any. -/
inductive Custody.Step : Program α → Custody → Program α → Custody → Prop
  | answered {k : Custody} {c : Call} {next : c.Reply → Program α} (hc : c.child? = none)
      (reply : c.Reply) : Step (.call c next) k (next reply) k
  | started {k : Custody} {child : Program α} {next : Except Errno Pid → Program α} (pid : Pid)
      (hpid : ∀ c, k.ledger.Owes c → c.pid ≠ pid) :
      Step (.fork child next) k (next (.ok pid)) { k with ledger := k.ledger.start pid }
  | awaited {k : Custody} {next : Except Errno WaitStatus → Program α} {c : Child} {e : Ending}
      (hc : k.ledger.Owes c) (he : k.endings.get? c.birth = some e) :
      Step (.call (.waitFor c.pid) next) k (next (e.report c.pid))
        { k with ledger := k.ledger.collect c }
  | awaitedStranger {k : Custody} {next : Except Errno WaitStatus → Program α} {pid : Pid}
      (hpid : ∀ c, k.ledger.Owes c → c.pid ≠ pid) :
      Step (.call (.waitFor pid) next) k (next (.error .noChild)) k
  | waitInterrupted {k : Custody} {next : Except Errno WaitStatus → Program α} {pid : Pid} :
      Step (.call (.waitFor pid) next) k
        (Program.resume (.waitFor pid) next (.error .interrupted)) k
  | foundOver {k : Custody} {next : Except Errno WaitStatus → Program α} {c : Child} {e : Ending}
      (hc : k.ledger.Owes c) (he : k.endings.get? c.birth = some e) :
      Step (.call (.poll c.pid) next) k (next (e.report c.pid))
        { k with ledger := k.ledger.collect c }
  | foundAlive {k : Custody} {next : Except Errno WaitStatus → Program α} {c : Child}
      (hc : k.ledger.Owes c) (he : k.endings.get? c.birth = none) :
      Step (.call (.poll c.pid) next) k (next (.ok .stillAlive)) k
  | foundStranger {k : Custody} {next : Except Errno WaitStatus → Program α} {pid : Pid}
      (hpid : ∀ c, k.ledger.Owes c → c.pid ≠ pid) :
      Step (.call (.poll pid) next) k (next (.error .noChild)) k
  | lookInterrupted {k : Custody} {next : Except Errno WaitStatus → Program α} {pid : Pid} :
      Step (.call (.poll pid) next) k (next (.error .interrupted))
        { k with ledger := k.ledger.miss }
  | ended {k : Custody} {x : Program α} {c : Child} (e : Ending) (hc : k.ledger.Owes c)
      (he : k.endings.get? c.birth = none) : Step x k x (k.finish c e)

inductive Custody.Steps (x : Program α) (k : Custody) : Program α → Custody → Prop
  | start : Steps x k x k
  | step {y z : Program α} {k' k'' : Custody} (steps : Steps x k y k')
      (h : Step y k' z k'') : Steps x k z k''

namespace Custody

variable {x y : Program α} {k k' : Custody}

theorem Over.collect {c d : Child} (h : k.Over c) :
    Over { k with ledger := k.ledger.collect d } c := h

theorem Over.finish {c d : Child} {e : Ending} (h : k.Over c) : (k.finish d e).Over c := by
  unfold Over Custody.finish at *
  rw [Table.get?_set]
  split
  · rfl
  · exact h

theorem Step.stays_over (h : Step x k y k') {c : Child} (hc : k.Over c) : k'.Over c := by
  cases h with
  | ended e => exact hc.finish
  | _ => exact hc

theorem Step.sound (h : Step x k y k') (hs : k.Sound) : k'.Sound := by
  have hcollect {c : Child} {e : Ending} (hc : k.ledger.Owes c)
      (he : k.endings.get? c.birth = some e) : Sound { k with ledger := k.ledger.collect c } := by
    refine ⟨hs.ledger.collect hc, fun d hd => ?_⟩
    rcases List.mem_append.mp hd with hm | hm
    · exact hs.ended d hm
    · rw [List.mem_singleton.mp hm]
      simp [Over, he]
  cases h with
  | started pid hpid => exact ⟨hs.ledger.start hpid, hs.ended⟩
  | awaited hc he => exact hcollect hc he
  | foundOver hc he => exact hcollect hc he
  | lookInterrupted => exact ⟨hs.ledger.miss, hs.ended⟩
  | ended e => exact ⟨hs.ledger, fun d hd => (hs.ended d hd).finish⟩
  | _ => exact hs

end Custody

end PipeShell
