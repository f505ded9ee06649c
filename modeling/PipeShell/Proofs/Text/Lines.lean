import PipeShell.Text.Bytes

/-!
The lines of a byte string: it is cut behind each newline, and the last line may lack its newline.
-/

set_option autoImplicit false
set_option relaxedAutoImplicit false

namespace PipeShell.Bytes

/-- Puts a byte in front of the lines of what follows it. A newline is a line of its own there. -/
def addToLines (b : UInt8) (lines : List Bytes) : List Bytes :=
  if b = newline then [b] :: lines
  else match lines with
    | [] => [[b]]
    | line :: lines => (b :: line) :: lines

def lines (s : Bytes) : List Bytes := s.foldr addToLines []

@[simp] theorem lines_nil : lines [] = [] := rfl

theorem lines_cons (b : UInt8) (s : Bytes) : lines (b :: s) = addToLines b (lines s) := rfl

theorem addToLines_newline (lines : List Bytes) :
    addToLines newline lines = [newline] :: lines := if_pos rfl

theorem addToLines_nil (b : UInt8) : addToLines b [] = [[b]] := by
  unfold addToLines
  split <;> rfl

theorem addToLines_cons {b : UInt8} (h : b ≠ newline) (line : Bytes) (lines : List Bytes) :
    addToLines b (line :: lines) = (b :: line) :: lines := if_neg h

theorem lines_eq_firstLine {s : Bytes} (h : s ≠ []) :
    lines s = (firstLine s).1 :: lines (firstLine s).2 := by
  induction s with
  | nil => exact absurd rfl h
  | cons b rest ih =>
    rw [lines_cons, firstLine]
    by_cases hb : b = newline
    · subst hb
      rw [if_pos rfl, addToLines_newline]
    · rw [if_neg hb]
      by_cases hrest : rest = []
      · subst hrest
        exact addToLines_nil b
      · rw [ih hrest, addToLines_cons hb]

theorem firstLine_ne_nil {s : Bytes} (h : s ≠ []) : (firstLine s).1 ≠ [] := by
  obtain ⟨b, rest, rfl⟩ := List.exists_cons_of_ne_nil h
  unfold firstLine
  split <;> simp

theorem flatten_lines (s : Bytes) : (lines s).flatten = s := by
  induction s with
  | nil => rfl
  | cons b rest ih =>
    rw [lines_cons]
    unfold addToLines
    split
    · simp [ih]
    · split
      · next heq =>
        rw [heq] at ih
        rw [← ih]
        rfl
      · next heq =>
        rw [heq] at ih
        rw [← ih]
        rfl

/-- No line is empty, a newline stands at the end of a line only, and only the last line may lack
it. -/
theorem mem_lines {s line : Bytes} (h : line ∈ lines s) : line ≠ [] ∧ newline ∉ line.dropLast := by
  induction s generalizing line with
  | nil => exact absurd h List.not_mem_nil
  | cons b rest ih =>
    rw [lines_cons] at h
    unfold addToLines at h
    split at h
    · rcases List.mem_cons.mp h with rfl | h
      · simp
      · exact ih h
    · next hb =>
      split at h
      · rw [List.mem_singleton.mp h]
        simp
      · next first others heq =>
        rcases List.mem_cons.mp h with rfl | h
        · obtain ⟨hne, hnewline⟩ := ih (show first ∈ lines rest by simp [heq])
          rw [List.dropLast_cons_of_ne_nil hne]
          exact ⟨by simp, fun hmem => (List.mem_cons.mp hmem).elim (fun he => hb he.symm) hnewline⟩
        · exact ih (by simp [heq, h])

theorem getLast?_of_mem_dropLast_lines {s line : Bytes} (h : line ∈ (lines s).dropLast) :
    line.getLast? = some newline := by
  induction s generalizing line with
  | nil => exact absurd h List.not_mem_nil
  | cons b rest ih =>
    have hfirst (lines : List Bytes) (hmem : line ∈ ([newline] :: lines).dropLast) :
        line = [newline] ∨ line ∈ lines.dropLast := by
      cases lines with
      | nil => exact absurd hmem List.not_mem_nil
      | cons second others => exact List.mem_cons.mp hmem
    rw [lines_cons] at h
    unfold addToLines at h
    split at h
    · next hb =>
      subst hb
      rcases hfirst _ h with rfl | h
      · rfl
      · exact ih h
    · split at h
      · exact absurd h List.not_mem_nil
      · next first others heq =>
        cases others with
        | nil => exact absurd h List.not_mem_nil
        | cons second others =>
          rcases List.mem_cons.mp h with rfl | h
          · have hlast := ih (show first ∈ (lines rest).dropLast by simp [heq])
            have hne : first ≠ [] := by
              rintro rfl
              cases hlast
            rw [List.getLast?_cons_of_ne_nil hne]
            exact hlast
          · exact ih (by rw [heq]; exact List.mem_cons_of_mem _ h)

theorem lines_append {s : Bytes} (h : s = [] ∨ s.getLast? = some newline) (more : Bytes) :
    lines (s ++ more) = lines s ++ lines more := by
  induction s with
  | nil => rfl
  | cons b rest ih =>
    have hlast : (b :: rest).getLast? = some newline := h.resolve_left (by simp)
    rw [List.cons_append, lines_cons, lines_cons]
    by_cases hrest : rest = []
    · subst hrest
      obtain rfl : b = newline := by simpa using hlast
      rw [List.nil_append, addToLines_newline, addToLines_newline]
      rfl
    · rw [List.getLast?_cons_of_ne_nil hrest] at hlast
      rw [ih (.inr hlast), lines_eq_firstLine hrest]
      by_cases hb : b = newline
      · subst hb
        simp only [addToLines_newline, List.cons_append]
      · simp only [List.cons_append, addToLines_cons hb]

end PipeShell.Bytes
