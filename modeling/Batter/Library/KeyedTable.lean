import Mathlib

/-!
# Tables with a primary key

A table with one row for each key is a finite map.  Writing a list of rows inserts
the new keys and replaces the others; deleting a list of keys drops their rows.

When keys are divided into classes, `classSize` is the number of rows of a class.
Writing adds the keys of the class that had no row (`classSize_write`), and
deleting removes those that had one (`classSize_delete`).
-/

namespace Batter.KeyedTable

open List

variable {K V C : Type} [DecidableEq K] [DecidableEq C]

/-- The table after some rows were written. -/
def write : Finmap (fun _ : K => V) → List (K × V) → Finmap (fun _ : K => V)
  | table, [] => table
  | table, (key, row) :: rest => write (table.insert key row) rest

/-- The table after the rows of some keys were deleted. -/
def delete : Finmap (fun _ : K => V) → List K → Finmap (fun _ : K => V)
  | table, [] => table
  | table, key :: rest => delete (table.erase key) rest

section

omit [DecidableEq C]

theorem keys_insert (table : Finmap (fun _ : K => V)) (key : K) (row : V) :
    (table.insert key row).keys = insert key table.keys := by
  ext key'
  rw [Finmap.mem_keys, Finmap.mem_insert, Finset.mem_insert, Finmap.mem_keys]

variable {table : Finmap (fun _ : K => V)} {key : K} {deleted : List K}

theorem lookup_write_of_notMem {written : List (K × V)}
    (h : key ∉ written.map Prod.fst) : (write table written).lookup key = table.lookup key := by
  induction written generalizing table with
  | nil => rfl
  | cons entry rest ih =>
    rw [map_cons, mem_cons, not_or] at h
    rw [write, ih h.2, Finmap.lookup_insert_of_ne _ h.1]

theorem write_append (before after : List (K × V)) :
    write table (before ++ after) = write (write table before) after := by
  induction before generalizing table with
  | nil => rfl
  | cons entry rest ih => exact ih

/-- Of rows with different keys each one is found. -/
theorem lookup_write_of_mem {written : List (K × V)} {row : V}
    (hkeys : (written.map Prod.fst).Nodup) (h : (key, row) ∈ written) :
    (write table written).lookup key = some row := by
  obtain ⟨before, after, rfl⟩ := append_of_mem h
  rw [map_append, map_cons] at hkeys
  rw [write_append, write, lookup_write_of_notMem, Finmap.lookup_insert]
  exact (nodup_cons.mp (nodup_append.mp hkeys).2.1).1

theorem lookup_delete_of_notMem (h : key ∉ deleted) :
    (delete table deleted).lookup key = table.lookup key := by
  induction deleted generalizing table with
  | nil => rfl
  | cons head rest ih =>
    rw [mem_cons, not_or] at h
    rw [delete, ih h.2, Finmap.lookup_erase_ne h.1]

theorem notMem_delete (h : key ∉ table) : key ∉ delete table deleted := by
  induction deleted generalizing table with
  | nil => exact h
  | cons head rest ih =>
    refine ih ?_
    rw [Finmap.mem_erase]
    exact fun hmem => h hmem.2

theorem lookup_delete_of_mem (h : key ∈ deleted) : (delete table deleted).lookup key = none := by
  induction deleted generalizing table with
  | nil => exact absurd h not_mem_nil
  | cons head rest ih =>
    rcases mem_cons.mp h with rfl | h
    · rw [delete, Finmap.lookup_eq_none]
      exact notMem_delete Finmap.notMem_erase_self
    · exact ih h

end

/-- The number of rows whose key is of a class. -/
def classSize (classOf : K → C) (table : Finmap (fun _ : K => V)) (c : C) : Nat :=
  (table.keys.filter fun key => classOf key = c).card

variable (classOf : K → C) {table : Finmap (fun _ : K => V)}

theorem classSize_insert (table : Finmap (fun _ : K => V)) (key : K) (row : V) (c : C) :
    classSize classOf (table.insert key row) c =
      classSize classOf table c + if key ∉ table ∧ classOf key = c then 1 else 0 := by
  unfold classSize
  rw [keys_insert, Finset.filter_insert]
  by_cases hc : classOf key = c
  · by_cases hmem : key ∈ table
    · rw [if_pos hc, if_neg (fun h => h.1 hmem), Finset.insert_eq_of_mem]
      · rfl
      · exact Finset.mem_filter.mpr ⟨Finmap.mem_keys.mpr hmem, hc⟩
    · rw [if_pos hc, if_pos ⟨hmem, hc⟩, Finset.card_insert_of_notMem]
      exact fun h => hmem (Finmap.mem_keys.mp (Finset.mem_filter.mp h).1)
  · simp [hc]

theorem classSize_erase {key : K} (hmem : key ∈ table) (c : C) :
    classSize classOf (table.erase key) c + (if classOf key = c then 1 else 0) =
      classSize classOf table c := by
  unfold classSize
  rw [Finmap.keys_erase, Finset.filter_erase]
  by_cases hc : classOf key = c
  · rw [if_pos hc, Finset.card_erase_add_one]
    exact Finset.mem_filter.mpr ⟨Finmap.mem_keys.mpr hmem, hc⟩
  · have hnot : key ∉ table.keys.filter fun key => classOf key = c :=
      fun h => hc (Finset.mem_filter.mp h).2
    rw [if_neg hc, Finset.erase_eq_of_notMem hnot]
    rfl

/-- Writing adds the new keys to their classes. -/
theorem classSize_write {written : List (K × V)} (hkeys : (written.map Prod.fst).Nodup) (c : C) :
    classSize classOf (write table written) c = classSize classOf table c +
      (written.map Prod.fst).countP fun key => key ∉ table ∧ classOf key = c := by
  induction written generalizing table with
  | nil => rfl
  | cons entry rest ih =>
    rw [map_cons, nodup_cons] at hkeys
    have hrest : (rest.map Prod.fst).countP
          (fun key => key ∉ table.insert entry.1 entry.2 ∧ classOf key = c) =
        (rest.map Prod.fst).countP fun key => key ∉ table ∧ classOf key = c := by
      refine countP_congr fun key hkey => ?_
      have hne : key ≠ entry.1 := fun heq => hkeys.1 (heq ▸ hkey)
      simp [Finmap.mem_insert, hne]
    rw [write, ih hkeys.2, classSize_insert, hrest, map_cons, countP_cons]
    simp only [decide_eq_true_eq]
    omega

/-- Deleting removes the keys from their classes. -/
theorem classSize_delete {deleted : List K} (hkeys : deleted.Nodup)
    (hmem : ∀ key ∈ deleted, key ∈ table) (c : C) :
    classSize classOf (delete table deleted) c +
      deleted.countP (fun key => classOf key = c) = classSize classOf table c := by
  induction deleted generalizing table with
  | nil => rfl
  | cons key rest ih =>
    rw [nodup_cons] at hkeys
    rw [forall_mem_cons] at hmem
    have hrest : ∀ other ∈ rest, other ∈ table.erase key := by
      intro other hother
      rw [Finmap.mem_erase]
      exact ⟨fun heq => hkeys.1 (heq ▸ hother), hmem.2 other hother⟩
    rw [delete, ← classSize_erase classOf hmem.1 c, ← ih hkeys.2 hrest, countP_cons]
    simp only [decide_eq_true_eq]
    omega

end Batter.KeyedTable
