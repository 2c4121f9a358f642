import Mathlib

/-!
# The least element found so far

A search that keeps the least element it has seen returns the least element of a set,
or nothing when the set is empty.  `LeastOf` says so of an optional value.  Looking
through more elements adds them to the set, and a search that repeats from the
successor of its last answer lists the whole set in ascending order.
-/

namespace Batter

open List

section Order

variable {α : Type} [LinearOrder α]

/-- The value is the least element of the set, or nothing if the set is empty. -/
def LeastOf (S : Set α) : Option α → Prop
  | none => S = ∅
  | some a => IsLeast S a

/-- The lesser of what was found and one more element. -/
def lowered (lowest : Option α) (a : α) : Option α :=
  some (lowest.elim a (min · a))

variable {lowest : Option α}

theorem LeastOf.insert {S : Set α} (h : LeastOf S lowest) (a : α) :
    LeastOf (S ∪ {a}) (lowered lowest a) := by
  cases lowest with
  | none =>
    obtain rfl : S = ∅ := h
    rw [Set.empty_union]
    exact isLeast_singleton
  | some b =>
    exact .union h isLeast_singleton

/-- More elements do not matter when the new ones lie above an old one. -/
theorem LeastOf.union_of_le {S T : Set α} {a : α} (h : LeastOf (S ∪ {a}) lowest) (ha : a ∈ T)
    (hle : ∀ b ∈ T, a ≤ b) : LeastOf (S ∪ T) lowest := by
  cases lowest with
  | none =>
    have hmem : a ∈ S ∪ {a} := .inr rfl
    rw [show S ∪ {a} = ∅ from h] at hmem
    exact hmem.elim
  | some least =>
    refine ⟨?_, ?_⟩
    · rcases h.1 with hleast | rfl
      · exact .inl hleast
      · exact .inr ha
    · rintro b (hb | hb)
      · exact h.2 (.inl hb)
      · exact (h.2 (.inr rfl)).trans (hle b hb)

/-- A loop that adds a set of elements in each step. -/
theorem LeastOf.foldl {β : Type} {T : β → Set α} {f : Option α → β → Option α} {l : List β}
    (hstep : ∀ b ∈ l, ∀ S lowest, LeastOf S lowest → LeastOf (S ∪ T b) (f lowest b)) {S : Set α}
    (h : LeastOf S lowest) : LeastOf (S ∪ {a | ∃ b ∈ l, a ∈ T b}) (l.foldl f lowest) := by
  induction l generalizing S lowest with
  | nil =>
    simpa using h
  | cons b l ih =>
    rw [forall_mem_cons] at hstep
    have hrest := ih hstep.2 (hstep.1 S lowest h)
    have hsame : S ∪ {a | ∃ c ∈ b :: l, a ∈ T c} = S ∪ T b ∪ {a | ∃ c ∈ l, a ∈ T c} := by
      ext a
      simp only [Set.mem_union, Set.mem_ofPred_eq, mem_cons, exists_eq_or_imp]
      tauto
    rw [foldl_cons, hsame]
    exact hrest

end Order

/-- Asks for the next element until there is none. -/
def enumerate (next : ℕ → Option ℕ) : ℕ → ℕ → List ℕ
  | 0, _ => []
  | fuel + 1, start =>
    match next start with
    | none => []
    | some a => a :: enumerate next fuel (a + 1)

/-- A search for the least element from a start on lists the elements in ascending order. -/
theorem enumerate_eq {next : ℕ → Option ℕ} {p : ℕ → Bool} {n : ℕ}
    (hnext : ∀ start, LeastOf {a | start ≤ a ∧ a < n ∧ p a = true} (next start)) {fuel start : ℕ}
    (hfuel : n ≤ start + fuel) :
    enumerate next fuel start = (List.range n).filter fun a => decide (start ≤ a) && p a := by
  induction fuel generalizing start with
  | zero =>
    rw [enumerate, eq_comm, filter_eq_nil_iff]
    intro a ha
    rw [mem_range] at ha
    simp only [Bool.and_eq_true, decide_eq_true_eq, not_and]
    omega
  | succ fuel ih =>
    have hleast := hnext start
    rw [enumerate]
    cases hfound : next start with
    | none =>
      rw [hfound] at hleast
      dsimp only
      rw [eq_comm, filter_eq_nil_iff]
      intro a ha hp
      rw [mem_range] at ha
      simp only [Bool.and_eq_true, decide_eq_true_eq] at hp
      have hmem : a ∈ {a | start ≤ a ∧ a < n ∧ p a = true} := ⟨hp.1, ha, hp.2⟩
      rw [show {a | start ≤ a ∧ a < n ∧ p a = true} = ∅ from hleast] at hmem
      exact hmem
    | some least =>
      rw [hfound] at hleast
      obtain ⟨⟨hstart, hlt, hp⟩, hlower⟩ := hleast
      dsimp only
      rw [ih (by omega)]
      have hsorted : ((List.range n).filter fun a => decide (start ≤ a) && p a).Pairwise (· < ·) :=
        pairwise_lt_range.filter _
      have hsorted' : (least :: (List.range n).filter fun a =>
          decide (least + 1 ≤ a) && p a).Pairwise (· < ·) := by
        refine pairwise_cons.mpr ⟨fun a ha => ?_, pairwise_lt_range.filter _⟩
        simp only [mem_filter, Bool.and_eq_true, decide_eq_true_eq] at ha
        omega
      refine hsorted'.eq_of_mem_iff hsorted fun a => ?_
      simp only [mem_cons, mem_filter, mem_range, Bool.and_eq_true, decide_eq_true_eq]
      constructor
      · rintro (rfl | ⟨han, hle, hpa⟩)
        · exact ⟨hlt, hstart, hp⟩
        · exact ⟨han, by omega, hpa⟩
      · rintro ⟨han, hle, hpa⟩
        have hbound : least ≤ a := hlower ⟨hle, han, hpa⟩
        rcases hbound.eq_or_lt with heq | hlt'
        · exact .inl heq.symm
        · exact .inr ⟨han, hlt', hpa⟩

end Batter
