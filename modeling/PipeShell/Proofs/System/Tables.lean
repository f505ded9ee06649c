import Mathlib.Logic.Function.Basic
import PipeShell.System.Table

/-!
What a look-up finds in a table, for every way of changing one, and what is known of the numbers
that are taken for new entries: they are not in use, and one is found as long as there is any.
-/

set_option autoImplicit false
set_option relaxedAutoImplicit false

namespace PipeShell.Table

variable {α β : Type}

@[simp] theorem get?_empty (key : Nat) : ({} : Table α).get? key = none := rfl

theorem get?_set (t : Table α) (key other : Nat) (value : α) :
    (t.set key value).get? other = if other = key then some value else t.get? other := by
  by_cases h : other = key
  · subst h
    simp
  · rw [if_neg h, get?_set_of_ne t value h]

theorem get?_erase (t : Table α) (key other : Nat) :
    (t.erase key).get? other = if other = key then none else t.get? other := by
  by_cases h : other = key
  · subst h
    simp
  · rw [if_neg h, get?_erase_of_ne t h]

theorem get?_set_eq_update (t : Table α) (key : Nat) (value : α) :
    (t.set key value).get? = Function.update t.get? key (some value) := by
  funext other
  rw [get?_set, Function.update_apply]

theorem get?_erase_eq_update (t : Table α) (key : Nat) :
    (t.erase key).get? = Function.update t.get? key none := by
  funext other
  rw [get?_erase, Function.update_apply]

private theorem put_put (key : Nat) (value value' : α) (l : List (Nat × α)) :
    put key value' (put key value l) = put key value' l := by
  induction l with
  | nil => simp [put]
  | cons e rest ih =>
    obtain ⟨k, v⟩ := e
    by_cases h : key = k
    · simp [put, h]
    · simp [put, h, ih]

@[simp] theorem set_set (t : Table α) (key : Nat) (value value' : α) :
    (t.set key value).set key value' = t.set key value' := by
  simp only [set, put_put]

private theorem put_self {key : Nat} {value : α} {l : List (Nat × α)}
    (h : l.lookup key = some value) : put key value l = l := by
  induction l with
  | nil => cases h
  | cons entry rest ih =>
    obtain ⟨k, v⟩ := entry
    by_cases hk : key = k
    · subst hk
      obtain rfl : v = value := by simpa using h
      simp [put]
    · rw [List.lookup_cons, beq_eq_false_iff_ne.mpr hk] at h
      rw [put, if_neg hk, ih h]

theorem set_self {t : Table α} {key : Nat} {value : α} (h : t.get? key = some value) :
    t.set key value = t := by
  simp only [set, put_self h]

private theorem lookup_map (f : α → β) (key : Nat) (l : List (Nat × α)) :
    (l.map fun e => (e.1, f e.2)).lookup key = (l.lookup key).map f := by
  induction l with
  | nil => rfl
  | cons e rest ih =>
    rw [List.map_cons, List.lookup_cons, List.lookup_cons]
    by_cases h : key = e.1
    · simp [h]
    · simp [beq_eq_false_iff_ne.mpr h, ih]

theorem get?_map (f : α → β) (t : Table α) (key : Nat) : (t.map f).get? key = (t.get? key).map f :=
  lookup_map f key t.entries

theorem modify_of_get? {t : Table α} {key : Nat} {value : α} (h : t.get? key = some value)
    (f : α → α) : t.modify key f = t.set key (f value) := by
  simp only [modify, h]

theorem modify_of_none {t : Table α} {key : Nat} (h : t.get? key = none) (f : α → α) :
    t.modify key f = t := by
  simp only [modify, h]

theorem get?_modify (t : Table α) (key other : Nat) (f : α → α) :
    (t.modify key f).get? other = if other = key then (t.get? key).map f else t.get? other := by
  cases h : t.get? key with
  | none =>
    rw [modify_of_none h]
    by_cases he : other = key
    · subst he
      simp [h]
    · rw [if_neg he]
  | some value => rw [modify_of_get? h, get?_set, Option.map_some]

theorem get?_modify_of_ne (t : Table α) {key other : Nat} (f : α → α) (h : other ≠ key) :
    (t.modify key f).get? other = t.get? other := by
  rw [get?_modify, if_neg h]

private theorem keys_put {key : Nat} {value : α} {l : List (Nat × α)} (h : key ∈ l.map (·.1)) :
    (put key value l).map (·.1) = l.map (·.1) := by
  induction l with
  | nil => cases h
  | cons e rest ih =>
    obtain ⟨k, v⟩ := e
    by_cases he : key = k
    · simp [put, he]
    · have hrest : key ∈ rest.map (·.1) := (List.mem_cons.mp h).resolve_left he
      simp [put, he, ih hrest]

private theorem lookup_eq_some_iff {key : Nat} {value : α} {l : List (Nat × α)}
    (h : (l.map (·.1)).Nodup) : l.lookup key = some value ↔ (key, value) ∈ l := by
  induction l with
  | nil => simp
  | cons e rest ih =>
    obtain ⟨k, v⟩ := e
    obtain ⟨hk, hrest⟩ := List.nodup_cons.mp h
    rw [List.lookup_cons]
    by_cases he : key = k
    · subst he
      have hout : (key, value) ∉ rest := fun hm => hk (List.mem_map.mpr ⟨_, hm, rfl⟩)
      simp [hout, eq_comm]
    · simp [beq_eq_false_iff_ne.mpr he, he, ih hrest]

theorem mem_entries_iff {t : Table α} {key : Nat} {value : α} :
    (key, value) ∈ t.entries ↔ t.get? key = some value :=
  (lookup_eq_some_iff t.distinct).symm

theorem mem_keys_iff {t : Table α} {key : Nat} : key ∈ t.keys ↔ (t.get? key).isSome := by
  rw [keys, List.mem_map, Option.isSome_iff_exists]
  constructor
  · rintro ⟨e, he, rfl⟩
    exact ⟨e.2, mem_entries_iff.mp he⟩
  · rintro ⟨value, h⟩
    exact ⟨(key, value), mem_entries_iff.mpr h, rfl⟩

theorem notMem_keys_iff {t : Table α} {key : Nat} : key ∉ t.keys ↔ t.get? key = none := by
  rw [mem_keys_iff, Option.not_isSome_iff_eq_none]

theorem mem_values_iff {t : Table α} {value : α} :
    value ∈ t.values ↔ ∃ key, t.get? key = some value := by
  rw [values, List.mem_map]
  constructor
  · rintro ⟨e, he, rfl⟩
    exact ⟨e.1, mem_entries_iff.mp he⟩
  · rintro ⟨key, h⟩
    exact ⟨(key, value), mem_entries_iff.mpr h, rfl⟩

private theorem le_foldl_next (l : List Nat) (bound : Nat) :
    bound ≤ l.foldl (fun bound key => max bound (key + 1)) bound ∧
      ∀ key ∈ l, key < l.foldl (fun bound key => max bound (key + 1)) bound := by
  induction l generalizing bound with
  | nil => simp
  | cons k rest ih =>
    obtain ⟨hle, hlt⟩ := ih (max bound (k + 1))
    rw [List.foldl_cons]
    refine ⟨by omega, ?_⟩
    intro key hkey
    rcases List.mem_cons.mp hkey with rfl | hkey
    · omega
    · exact hlt key hkey

theorem lt_next {t : Table α} {key : Nat} (h : (t.get? key).isSome) : key < t.next :=
  (le_foldl_next t.keys 0).2 key (mem_keys_iff.mpr h)

@[simp] theorem next_modify (t : Table α) (key : Nat) (f : α → α) :
    (t.modify key f).next = t.next := by
  cases h : t.get? key with
  | none => rw [modify_of_none h]
  | some value =>
    have hkeys : (t.modify key f).keys = t.keys := by
      rw [modify_of_get? h]
      exact keys_put (mem_keys_iff.mpr (by simp [h]))
    rw [next, hkeys, next]

@[simp] theorem get?_next (t : Table α) : t.get? t.next = none := by
  by_contra h
  exact absurd (lt_next (Option.isSome_iff_ne_none.mpr h)) (Nat.lt_irrefl _)

theorem mem_unused_iff {t : Table α} {limit n : Nat} :
    n ∈ t.unused limit ↔ n < limit ∧ t.get? n = none := by
  simp [unused, notMem_keys_iff]

theorem lowest?_eq_some {t : Table α} {limit n : Nat} (h : t.lowest? limit = some n) :
    n < limit ∧ t.get? n = none := by
  obtain ⟨hn, hfree⟩ := mem_unused_iff.mp (List.mem_of_mem_head? h)
  exact ⟨by omega, hfree⟩

theorem lowest?_isSome {t : Table α} {limit n : Nat} (hn : n < limit) (hfree : t.get? n = none) :
    (t.lowest? limit).isSome := by
  rw [lowest?, List.isSome_head?]
  refine List.length_pos_iff.mp (List.length_pos_iff_exists_mem.mpr ?_)
  by_cases hsmall : n < t.entries.length + 1
  · exact ⟨n, mem_unused_iff.mpr ⟨by omega, hfree⟩⟩
  · -- all numbers up to the size cannot be in use
    by_contra hnone
    have hall : List.range (t.entries.length + 1) ⊆ t.keys := by
      intro k hk
      have hlt : k < t.entries.length + 1 := List.mem_range.mp hk
      by_contra hout
      exact hnone ⟨k, mem_unused_iff.mpr ⟨by omega, notMem_keys_iff.mp hout⟩⟩
    have hlength := List.nodup_range.length_le_of_subset hall
    simp only [List.length_range, keys, List.length_map] at hlength
    omega

theorem lowest?_eq_head? (t : Table α) (limit : Nat) :
    t.lowest? limit = (t.unused limit).head? := by
  cases h : t.lowest? limit with
  | none =>
    have hnone : t.unused limit = [] := by
      refine List.eq_nil_iff_forall_not_mem.mpr fun n hn => ?_
      obtain ⟨hlt, hfree⟩ := mem_unused_iff.mp hn
      have hsome := lowest?_isSome hlt hfree
      rw [h] at hsome
      cases hsome
    rw [hnone]
    rfl
  | some n =>
    have htried : t.unused (min limit (t.entries.length + 1)) <+: t.unused limit := by
      refine List.IsPrefix.filter _ ?_
      rw [Nat.min_comm, ← List.take_range]
      exact List.take_prefix _ _
    obtain ⟨rest, hrest⟩ := htried
    rw [← hrest, List.head?_append]
    rw [lowest?] at h
    rw [h]
    rfl

end PipeShell.Table
