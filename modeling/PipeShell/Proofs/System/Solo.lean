import PipeShell.Proofs.System.Runs
import PipeShell.System.Machine.Setup

/-!
Machines with a single process on them to begin with, and runs that are given by their moves.
-/

set_option autoImplicit false
set_option relaxedAutoImplicit false

namespace PipeShell.Machine

variable {α : Type}

def soloist (program : Program α) : Process α where
  parent := 0
  program := program
  descriptors := Setup.descriptors
  directory := FileTree.bare.root
  ignored := [Signal.pipe.number]

def solo (program : Program α) (installed : Bytes → List Bytes → Program α) : Machine α where
  tree := Setup.streams 0 []
  openFiles := Setup.openFiles Setup.inputNode
  processes := ({} : Table (Process α)).set Setup.pid (soloist program)
  nextPid := Setup.pid + 1
  installed := installed

theorem get?_solo (program : Program α) (installed : Bytes → List Bytes → Program α) :
    (solo program installed).processes.get? Setup.pid = some (soloist program) := rfl

theorem solo_sound (program : Program α) (installed : Bytes → List Bytes → Program α) :
    (solo program installed).Sound where
  numbered := by
    intro pid p h
    have h : (({} : Table (Process α)).set Setup.pid _).get? pid = some p := h
    rw [Table.get?_set] at h
    split at h
    · rename_i he
      cases h
      subst he
      exact ⟨Nat.lt_succ_self _, Nat.succ_pos _⟩
    · cases h
  known := by
    intro pid p h handle hm
    have h : (({} : Table (Process α)).set Setup.pid _).get? pid = some p := h
    rw [Table.get?_set] at h
    split at h
    · cases h
      have hm : handle ∈ [Handle.file 0, .file 1, .file 2] := hm
      simp only [List.mem_cons, List.not_mem_nil, or_false] at hm
      rcases hm with rfl | rfl | rfl <;> rfl
    · cases h
  fifos := by
    intro id number h
    cases h

def follow (m : Machine α) : List Move → Option (List Event × Machine α)
  | [] => some ([], m)
  | mv :: rest => (m.move mv).bind fun m' => (m'.follow rest).map fun r => (m.events mv ++ r.1, r.2)

theorem run_of_follow {m₀ m m' : Machine α} {es es' : List Event} (hrun : m₀.Run es m)
    {moves : List Move} (h : m.follow moves = some (es', m')) : m₀.Run (es ++ es') m' := by
  induction moves generalizing m es es' with
  | nil =>
    cases h
    rw [List.append_nil]
    exact hrun
  | cons mv rest ih =>
    simp only [follow, Option.bind_eq_some_iff, Option.map_eq_some_iff] at h
    obtain ⟨m₁, hmove, ⟨es₁, m₂⟩, hrest, heq⟩ := h
    cases heq
    rw [← List.append_assoc]
    exact ih (hrun.move mv hmove) hrest

end PipeShell.Machine
