import Mathlib.Data.Fintype.EquivFin
import PipeShell.Proofs.Job.Assembly
import PipeShell.Proofs.Job.Attendance
import PipeShell.Proofs.Job.Conduct
import PipeShell.Proofs.System.Tables

/-!
Who still needs an end of a pipe still has it. The end with which a stage or a child is to be
provided can come from nowhere else than from the descriptors that there are, so that it cannot have
been closed before.
-/

set_option autoImplicit false
set_option relaxedAutoImplicit false

namespace PipeShell

variable {α : Type}

def Wires.Bounded (w : Wires) : Prop := ∃ bound, ∀ fd, bound ≤ fd → w fd = none

def Wires.Has (w : Wires) (handle : Handle) : Prop := ∃ fd, w fd = some handle

theorem Wires.Bounded.update {w : Wires} (h : w.Bounded) (fd : Fd) (value : Option Handle) :
    Wires.Bounded (Function.update w fd value) := by
  obtain ⟨bound, hbound⟩ := h
  refine ⟨max bound (fd + 1), fun x hx => ?_⟩
  have hle : bound ≤ x := Nat.le_trans (Nat.le_max_left _ _) hx
  have hlt : fd < x :=
    Nat.lt_of_lt_of_le (Nat.lt_succ_self fd) (Nat.le_trans (Nat.le_max_right _ _) hx)
  rw [Function.update_of_ne (Nat.ne_of_gt hlt)]
  exact hbound x hle

theorem Wires.Has.of_update {w : Wires} {fd : Fd} {value : Option Handle} {handle : Handle}
    (h : Wires.Has (Function.update w fd value) handle) : value = some handle ∨ w.Has handle := by
  obtain ⟨x, hx⟩ := h
  by_cases he : x = fd
  · subst he
    rw [Function.update_self] at hx
    exact .inl hx
  · rw [Function.update_of_ne he] at hx
    exact .inr ⟨x, hx⟩

theorem Table.bounded (t : Table Handle) : Wires.Bounded t.get? := by
  refine ⟨t.next, fun fd hfd => ?_⟩
  cases h : t.get? fd with
  | none => rfl
  | some handle => exact absurd (Table.lt_next (t := t) (by simp [h])) (Nat.not_lt.mpr hfd)

theorem Wires.Bounded.free {w : Wires} (h : w.Bounded) :
    ∃ fd, Fd.complaints < fd ∧ w fd = none ∧ w (fd + 1) = none := by
  obtain ⟨bound, hbound⟩ := h
  have hlt : 2 < bound + 3 := Nat.lt_of_lt_of_le (Nat.lt_succ_self 2) (Nat.le_add_left _ _)
  exact ⟨bound + 3, hlt, hbound _ (Nat.le_add_right _ 3), hbound _ (Nat.le_add_right _ 4)⟩

namespace Stage

variable {base : Wires} {stage : Stage} {before behind : Option Nat} {o : Outlook}
  {first last : Bool}

/-- A stage that is going to run its program has the ends of the pipes that its program will use. -/
theorem keeps_ends {x : Program α} {g : Plumbing} {n : Nat} (hfate : stage.fate o first last = none)
    (hcontract : x.Honours (contract base stage before behind) (fun _ _ => False) g)
    (hconduct : x.Honours (conduct o stage first last) (fun _ _ => False) n)
    (hbounded : g.wires.Bounded) :
    (∀ k, before = some k → g.wires.Has (.readEnd k)) ∧ ∀ k, behind = some k →
      g.wires.Has (.writeEnd k) := by
  -- what holds after a call holds before it, unless the call can provide an end
  have hback {w w' : Wires}
      (hw : ∀ handle : Handle, (∀ k, handle ≠ .file k) → w'.Has handle → w.Has handle)
      (h : (∀ k, before = some k → w'.Has (.readEnd k)) ∧ ∀ k, behind = some k →
        w'.Has (.writeEnd k)) :
      (∀ k, before = some k → w.Has (.readEnd k)) ∧ ∀ k, behind = some k → w.Has (.writeEnd k) :=
    ⟨fun k hk => hw _ (by simp) (h.1 k hk), fun k hk => hw _ (by simp) (h.2 k hk)⟩
  induction x generalizing g n with
  | done a => exact hcontract.elim
  | fork child next => exact absurd hcontract.1 (by simp [contract])
  | transfer t next => exact hcontract.elim
  | flood fd block next => exact hcontract.elim
  | call c next ih =>
    obtain ⟨hmay, hnext⟩ := hcontract
    obtain ⟨⟨hpositive, hmay'⟩, hnext'⟩ := hconduct
    have hcount : n = (n - 1) + 1 := by omega
    cases c with
    | close fd =>
      have hrest := ih () (hnext () _ rfl) (hnext' () (n - 1) ⟨hcount, trivial⟩)
        (hbounded.update fd none)
      refine hback (fun handle _ hhas => ?_) hrest
      exact hhas.of_update.resolve_left (by simp)
    | write fd data =>
      exact ih (.ok ()) (hnext (.ok ()) _ rfl) (hnext' (.ok ()) (n - 1) ⟨hcount, trivial⟩) hbounded
    | exit code => exact absurd (hfate.symm.trans hmay') (by simp)
    | duplicate source target =>
      obtain ⟨handle, hhandle⟩ := Option.ne_none_iff_exists'.mp hmay
      have hrest := ih (.ok ()) (hnext (.ok ()) _ ⟨handle, hhandle, rfl⟩)
        (hnext' (.ok ()) (n - 1) ⟨hcount, rfl⟩) (hbounded.update target _)
      refine hback (fun handle' _ hhas => ?_) hrest
      rcases hhas.of_update with heq | hhas
      · exact ⟨source, hhandle.trans heq⟩
      · exact hhas
    | openFile path access =>
      cases hopens : o.opens path access with
      | false =>
        exact ih (.error .noEntry) (hnext (.error .noEntry) _ rfl)
          (hnext' (.error .noEntry) (n - 1) ⟨hcount, hopens⟩) hbounded
      | true =>
        obtain ⟨fd, hfd, hfree, -⟩ := hbounded.free
        have hrest := ih (.ok fd) (hnext (.ok fd) _ ⟨.file 0, hfree, rfl⟩)
          (hnext' (.ok fd) (n - 1) ⟨hcount, hopens, Nat.ne_of_gt hfd⟩) (hbounded.update fd _)
        refine hback (fun handle hfile hhas => ?_) hrest
        exact hhas.of_update.resolve_left fun heq => hfile 0 (Option.some.inj heq).symm
    | exec arguments =>
      obtain ⟨-, hinput, houtput, -⟩ := hmay
      constructor
      · rintro k rfl
        exact ⟨Fd.input, hinput⟩
      · rintro k rfl
        exact ⟨Fd.output, houtput⟩
    | _ => exact absurd hmay (by simp [contract])

end Stage

namespace Pipeline

variable {base : Wires} {stages : List Stage} {count : Nat} {code : UInt8} {Q : α → Assembly → Prop}
  {R : α → Attendance → Prop}

theorem Joint.has_of_plug {w : Wires} {j : Joint} {handle : Handle}
    (hread : handle ≠ .readEnd j.pipe) (hwrite : handle ≠ .writeEnd j.pipe)
    (h : (Joint.plug w (some j)).Has handle) : w.Has handle := by
  rcases h.of_update with heq | h
  · exact absurd (Option.some.inj heq).symm hwrite
  · exact h.of_update.resolve_left fun heq => hread (Option.some.inj heq).symm

/-- The interpreter has both ends of a pipe until the stage behind it is started. -/
theorem keeps_ends {x : Program α} {g : Assembly} {a : Attendance} {k n : Nat}
    (hdone : ∀ r g a, Q r g → R r a → g.children.length = stages.length)
    (hcontract : x.Honours (contract base stages) Q g)
    (hconduct : x.Honours (conduct count code) R a)
    (hbounded : g.wires.Bounded) (hn : g.pipes[k]? = some n) (hk : g.children.length ≤ k + 1)
    (hlt : k + 1 < stages.length) : g.wires.Has (.readEnd n) ∧ g.wires.Has (.writeEnd n) := by
  induction x generalizing g a with
  | done r =>
    have := hdone r g a hcontract hconduct
    omega
  | transfer t next => exact hcontract.elim
  | flood fd block next => exact hcontract.elim
  | fork child next _ ih =>
    obtain ⟨⟨stage, previous, link, -, hnext⟩, hgo⟩ := hcontract
    obtain ⟨⟨-, -, -, -, hpositive, -⟩, hgo'⟩ := hconduct
    by_cases hlast : g.children.length = k + 1
    · -- the stage behind the pipe is the one that is started now
      obtain ⟨before, behind, -, -, hfit, hfit', hwires, -, hbefore, -⟩ := hnext
      rw [hlast] at hbefore
      cases before with
      | none => exact absurd (hbefore.trans hn) (by simp)
      | some j =>
        have hpipe : j.pipe = n := Option.some.inj (hbefore.trans hn)
        have hread := Joint.plug_readEnd hfit
        have hwrite := Joint.plug_writeEnd base j
        rw [hpipe] at hread hwrite
        rw [hwires]
        exact ⟨⟨_, (Joint.plug_of_open hfit' (by simp [hread])).trans hread⟩,
          ⟨_, (Joint.plug_of_open hfit' (by simp [hwrite])).trans hwrite⟩⟩
    · obtain ⟨pid, hpid⟩ := Infinite.exists_notMem_finset a.children.toFinset
      have hpid : pid ∉ a.children := by simpa using hpid
      have hcount : a.left = (a.left - 1) + 1 := by omega
      have hk' : (g.children ++ [pid]).length ≤ k + 1 := by
        rw [List.length_append, List.length_singleton]
        omega
      have hrest := hgo pid { g with children := g.children ++ [pid] } rfl
      have hends := ih (.ok pid) hrest (hgo' pid ⟨a.children ++ [pid], a.collected,
        a.left - 1⟩ ⟨hcount, rfl, rfl, hpid⟩) hbounded hn hk'
      exact hends
  | call c next ih =>
    obtain ⟨hmay, hgo⟩ := hcontract
    obtain ⟨⟨hpositive, hmay'⟩, hgo'⟩ := hconduct
    have hcount : a.left = (a.left - 1) + 1 := by omega
    cases c with
    | note record =>
      exact ih () (hgo () _ rfl)
        (hgo' () ⟨a.children, a.collected, a.left - 1⟩ ⟨hcount, rfl, rfl⟩) hbounded hn hk
    | close fd =>
      obtain ⟨hread, hwrite⟩ := ih () (hgo () _ rfl) (hgo' () ⟨a.children, a.collected,
        a.left - 1⟩ ⟨hcount, rfl, rfl⟩) (hbounded.update fd none) hn hk
      exact ⟨hread.of_update.resolve_left (by simp), hwrite.of_update.resolve_left (by simp)⟩
    | waitFor child =>
      have hall := hmay.2.1
      omega
    | pipe =>
      obtain ⟨fd, hfd, hfree, hfree'⟩ := hbounded.free
      have hne : fd ≠ fd + 1 := Nat.ne_of_lt (Nat.lt_succ_self fd)
      have hapart : Apart (some ⟨fd, fd + 1⟩) := by
        rintro link ⟨⟩
        exact ⟨Nat.ne_of_gt hfd, Nat.ne_of_gt (Nat.lt_succ_of_lt hfd)⟩
      have hn' : (g.pipes ++ [n + 1])[k]? = some n := by
        rw [List.getElem?_append_left (List.getElem?_eq_some_iff.mp hn).1, hn]
      obtain ⟨hread, hwrite⟩ :=
        ih (.ok (fd, fd + 1)) (hgo (.ok (fd, fd + 1)) _ ⟨hfree, hfree', hne, n + 1, rfl⟩)
          (hgo' (.ok (fd, fd + 1)) ⟨a.children, a.collected, a.left - 1⟩ ⟨hcount, rfl, hapart, rfl⟩)
          ((hbounded.update _ _).update _ _) hn' hk
      exact ⟨Joint.has_of_plug (by simp) (by simp) hread,
        Joint.has_of_plug (by simp) (by simp) hwrite⟩
    | _ => exact absurd hmay (by simp [contract])

end Pipeline

end PipeShell
