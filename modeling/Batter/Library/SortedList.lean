import Mathlib

/-!
# Sorted lists of distinct keys

Sorting a vector by a key and dropping neighbours with equal keys is how the
verified programs turn the targets of a request into a lock order.  The result
is strictly increasing and has the same keys (`pairwise_sortDedup`,
`mem_map_sortDedup`), and the partition point of a key that occurs is its only
position (`getElem?_partitionPoint`).
-/

namespace Batter.SortedList

open List

variable {α ι : Type} [LinearOrder ι]

variable (key : α → ι) (l : List α)

/-- `sort_unstable_by_key` followed by `dedup_by_key`. -/
def sortDedup : List α :=
  (l.insertionSort fun a b => key a ≤ key b).destutter fun a b => key a ≠ key b

/-- `partition_point` of a slice sorted by key. -/
def partitionPoint (x : ι) : Nat :=
  (l.takeWhile fun a => key a < x).length

theorem pairwise_sort :
    (l.insertionSort fun a b => key a ≤ key b).Pairwise fun a b => key a ≤ key b := by
  have : Std.Total fun a b : α => key a ≤ key b := ⟨fun a b => le_total (key a) (key b)⟩
  have : IsTrans α fun a b => key a ≤ key b := ⟨fun _ _ _ => le_trans⟩
  exact pairwise_insertionSort _ l

/-- The result of sorting and deduplicating is strictly increasing. -/
theorem pairwise_sortDedup : (sortDedup key l).Pairwise fun a b => key a < key b := by
  have hsub : List.Sublist (sortDedup key l) _ := destutter_sublist _ _
  have hle := (pairwise_sort key l).sublist hsub
  have hne : (sortDedup key l).IsChain fun a b => key a ≠ key b := isChain_destutter _ _
  have : IsTrans α fun a b => key a < key b := ⟨fun _ _ _ => lt_trans⟩
  rw [← isChain_iff_pairwise, isChain_iff_getElem]
  intro i hi
  exact lt_of_le_of_ne (isChain_iff_getElem.mp hle.isChain i hi)
    (isChain_iff_getElem.mp hne i hi)

theorem mem_map_destutter {β : Type} [DecidableEq β] (key : α → β) (a : α) (l : List α) (x : β) :
    x ∈ (List.destutter' (fun a b => key a ≠ key b) a l).map key ↔ x = key a ∨ x ∈ l.map key := by
  induction l generalizing a with
  | nil =>
    simp
  | cons b rest ih =>
    by_cases hab : key a ≠ key b
    · rw [destutter'_cons, if_pos hab, map_cons, mem_cons, ih, map_cons, mem_cons]
    · rw [destutter'_cons, if_neg hab, ih, map_cons, mem_cons, ← not_not.mp hab, or_self_left]

/-- Sorting and deduplicating keeps the keys. -/
theorem mem_map_sortDedup (x : ι) : x ∈ (sortDedup key l).map key ↔ x ∈ l.map key := by
  have hsorted : x ∈ (l.insertionSort fun a b => key a ≤ key b).map key ↔ x ∈ l.map key := by
    simp only [mem_map, mem_insertionSort]
  rw [← hsorted, sortDedup]
  cases l.insertionSort fun a b => key a ≤ key b with
  | nil => simp
  | cons a rest => rw [destutter_cons', mem_map_destutter, map_cons, mem_cons]

theorem mem_sortDedup_id {l : List ι} {x : ι} : x ∈ sortDedup id l ↔ x ∈ l := by
  simpa using mem_map_sortDedup id l x

/-- The elements before the partition point of a key of the list are the
smaller ones. -/
theorem getElem?_partitionPoint {key : α → ι} {l : List α}
    (hsorted : l.Pairwise fun a b => key a < key b) {x : ι} (hx : x ∈ l.map key) :
    (l[partitionPoint key l x]?).map key = some x := by
  induction l with
  | nil =>
    simp at hx
  | cons a rest ih =>
    obtain ⟨hhead, htail⟩ := pairwise_cons.mp hsorted
    simp only [map_cons, mem_cons] at hx
    rcases hx with rfl | hx
    · simp [partitionPoint]
    · obtain ⟨b, hb, rfl⟩ := mem_map.mp hx
      have hlt := hhead b hb
      simpa [partitionPoint, hlt] using ih htail hx

/-- Writing to the position of a key of a strictly increasing list changes the
element with that key. -/
theorem set_eq_map {key : α → ι} {l : List α} (hsorted : l.Pairwise fun a b => key a < key b)
    {pos : Nat} {a : α} (ha : l[pos]? = some a) (f : α → α) :
    l.set pos (f a) = l.map fun b => if key b = key a then f b else b := by
  induction l generalizing pos with
  | nil =>
    simp at ha
  | cons b rest ih =>
    obtain ⟨hhead, htail⟩ := pairwise_cons.mp hsorted
    cases pos with
    | zero =>
      obtain rfl : b = a := by simpa using ha
      have hrest : rest.map (fun c => if key c = key b then f c else c) = rest := by
        conv_rhs => rw [← map_id' rest]
        exact map_congr_left fun c hc => if_neg (hhead c hc).ne'
      simp [hrest]
    | succ pos =>
      have ha' : rest[pos]? = some a := by simpa using ha
      have hne : key b ≠ key a := (hhead a (mem_of_getElem? ha')).ne
      simp [hne, ih htail ha']

end Batter.SortedList
