/-!
Finite tables with numbers as keys. The main statements say what a look-up finds after an entry has
been set or erased.
-/

set_option autoImplicit false
set_option relaxedAutoImplicit false

namespace PipeShell

/-- Entries under numbers, in the order in which the numbers were first used. -/
structure Table (α : Type) where
  entries : List (Nat × α) := []
  /-- No number has two entries. -/
  distinct : (entries.map (·.1)).Nodup := by exact List.nodup_nil
  deriving Repr

namespace Table

variable {α β : Type}

def get? (t : Table α) (key : Nat) : Option α := t.entries.lookup key

/-- Replaces the first entry under a number, or adds one behind all others. -/
def put (key : Nat) (value : α) : List (Nat × α) → List (Nat × α)
  | [] => [(key, value)]
  | (k, v) :: rest => if key = k then (key, value) :: rest else (k, v) :: put key value rest

private theorem mem_put_keys {key k : Nat} {value : α} {l : List (Nat × α)} :
    k ∈ (put key value l).map (·.1) ↔ k = key ∨ k ∈ l.map (·.1) := by
  induction l with
  | nil => simp [put]
  | cons e rest ih =>
    obtain ⟨k', v⟩ := e
    by_cases h : key = k'
    · simp [put, h]
    · simp only [put, if_neg h, List.map_cons, List.mem_cons, ih]
      constructor
      · rintro (h | h | h)
        · exact .inr (.inl h)
        · exact .inl h
        · exact .inr (.inr h)
      · rintro (h | h | h)
        · exact .inr (.inl h)
        · exact .inl h
        · exact .inr (.inr h)

private theorem nodup_put {key : Nat} {value : α} {l : List (Nat × α)} (h : (l.map (·.1)).Nodup) :
    ((put key value l).map (·.1)).Nodup := by
  induction l with
  | nil => simp [put]
  | cons e rest ih =>
    obtain ⟨k, v⟩ := e
    obtain ⟨hk, hrest⟩ := List.nodup_cons.mp h
    by_cases he : key = k
    · simpa [put, he] using h
    · simp only [put, if_neg he, List.map_cons, List.nodup_cons]
      refine ⟨fun hm => ?_, ih hrest⟩
      rcases mem_put_keys.mp hm with hm | hm
      · exact he hm.symm
      · exact hk hm

/-- Makes a value the entry under a number. -/
def set (t : Table α) (key : Nat) (value : α) : Table α :=
  ⟨put key value t.entries, nodup_put t.distinct⟩

/-- Takes the entry under a number away. -/
def erase (t : Table α) (key : Nat) : Table α :=
  ⟨t.entries.filter (·.1 ≠ key), t.distinct.sublist (List.filter_sublist.map _)⟩

def map (f : α → β) (t : Table α) : Table β :=
  ⟨t.entries.map fun e => (e.1, f e.2), by simpa [List.map_map, Function.comp_def] using t.distinct⟩

/-- Changes the entry under a number, if there is one. -/
def modify (t : Table α) (key : Nat) (f : α → α) : Table α :=
  match t.get? key with
  | none => t
  | some value => t.set key (f value)

def keys (t : Table α) : List Nat := t.entries.map (·.1)

def values (t : Table α) : List α := t.entries.map (·.2)

/-- A number above all that are in use. -/
def next (t : Table α) : Nat := t.keys.foldl (fun bound key => max bound (key + 1)) 0

/-- The numbers below a limit that are not in use, in ascending order. -/
def unused (t : Table α) (limit : Nat) : List Nat := (List.range limit).filter fun n => n ∉ t.keys

/-- The lowest number below a limit that is not in use. No more than the numbers up to the size of
the table have to be tried. -/
def lowest? (t : Table α) (limit : Nat) : Option Nat :=
  (t.unused (min limit (t.entries.length + 1))).head?

private theorem lookup_put (key : Nat) (value : α) (other : Nat) (l : List (Nat × α)) :
    (put key value l).lookup other = if other = key then some value else l.lookup other := by
  induction l with
  | nil =>
    unfold put
    by_cases h : other = key
    · simp [h]
    · simp [List.lookup_cons, h, beq_eq_false_iff_ne.mpr h]
  | cons e rest ih =>
    obtain ⟨k, v⟩ := e
    unfold put
    by_cases hk : key = k
    · subst hk
      by_cases h : other = key
      · simp [h]
      · simp [List.lookup_cons, h, beq_eq_false_iff_ne.mpr h]
    · rw [if_neg hk]
      by_cases ho : other = k
      · subst ho
        simp [Ne.symm hk]
      · simp [List.lookup_cons, beq_eq_false_iff_ne.mpr ho, ih]

@[simp] theorem get?_set_same (t : Table α) (key : Nat) (value : α) :
    (t.set key value).get? key = some value := by
  simp [get?, set, lookup_put]

theorem get?_set_of_ne (t : Table α) {key other : Nat} (value : α) (h : other ≠ key) :
    (t.set key value).get? other = t.get? other := by
  simp [get?, set, lookup_put, h]

private theorem lookup_filter (key other : Nat) (l : List (Nat × α)) :
    (l.filter (·.1 ≠ key)).lookup other = if other = key then none else l.lookup other := by
  induction l with
  | nil => simp
  | cons e rest ih =>
    obtain ⟨k, v⟩ := e
    by_cases hk : k = key
    · subst hk
      rw [List.filter_cons_of_neg (by simp), ih]
      by_cases ho : other = k
      · simp [ho]
      · simp [List.lookup_cons, ho, beq_eq_false_iff_ne.mpr ho]
    · rw [List.filter_cons_of_pos (by simpa using hk)]
      by_cases ho : other = k
      · subst ho
        simp [hk]
      · rw [List.lookup_cons, List.lookup_cons, beq_eq_false_iff_ne.mpr ho]
        exact ih

@[simp] theorem get?_erase_same (t : Table α) (key : Nat) : (t.erase key).get? key = none := by
  unfold get? erase
  rw [lookup_filter]
  simp

theorem get?_erase_of_ne (t : Table α) {key other : Nat} (h : other ≠ key) :
    (t.erase key).get? other = t.get? other := by
  unfold get? erase
  rw [lookup_filter]
  simp [h]

end Table

end PipeShell
