import Mathlib

/-!
# Counters of open and failed prerequisites

A node waits for the sources of its incoming edges.  Each source is open or has
ended, well or badly; a strict edge is unsatisfied when its source ended badly.
`pendingCount` counts the incoming edges with an open source, `unsatisfiedCount`
the unsatisfied ones.

When one node ends, both counters of every other node change by the number of
edges between them, which is at most one when parallel edges are excluded.
-/

namespace Batter

open List

/-- At most one element of a list without repetitions satisfies a predicate that determines it. -/
theorem countP_le_one {E : Type} {p : E → Bool} {l : List E} (hnodup : l.Nodup)
    (huniq : ∀ a ∈ l, ∀ b ∈ l, p a → p b → a = b) : l.countP p ≤ 1 := by
  rw [countP_eq_length_filter]
  rcases hl : l.filter p with _ | ⟨a, _ | ⟨b, rest⟩⟩
  · simp
  · simp
  · exfalso
    have hfilter := hnodup.filter p
    have ha : a ∈ l.filter p := by simp [hl]
    have hb : b ∈ l.filter p := by simp [hl]
    rw [mem_filter] at ha hb
    have heq := huniq a ha.1 b hb.1 ha.2 hb.2
    rw [hl, heq] at hfilter
    simp at hfilter

/-- In a list of lists, elements that only one of them has are counted there. -/
theorem countP_flatMap_of_unique {A E : Type} {l : List A} {f : A → List E} {p : E → Bool} {a : A}
    (hnodup : l.Nodup) (ha : a ∈ l) (hother : ∀ b ∈ l, b ≠ a → ∀ e ∈ f b, p e = false) :
    (l.flatMap f).countP p = (f a).countP p := by
  have hzero : ∀ b ∈ l, b ≠ a → (f b).countP p = 0 := by
    intro b hb hne
    refine countP_eq_zero.mpr fun e he => ?_
    simp [hother b hb hne e he]
  induction l with
  | nil =>
    exact absurd ha not_mem_nil
  | cons b l ih =>
    rw [nodup_cons] at hnodup
    rw [forall_mem_cons] at hother hzero
    rw [flatMap_cons, countP_append]
    rcases mem_cons.mp ha with rfl | hl
    · have hrest : (l.flatMap f).countP p = 0 := by
        refine countP_eq_zero.mpr fun e he => ?_
        obtain ⟨c, hc, hec⟩ := mem_flatMap.mp he
        have hne : c ≠ a := fun heq => hnodup.1 (heq ▸ hc)
        simp [hother.2 c hc hne e hec]
      rw [hrest, Nat.add_zero]
    · have hne : b ≠ a := fun heq => hnodup.1 (heq ▸ hl)
      rw [hzero.1 hne, Nat.zero_add, ih hnodup.2 hl hother.2 hzero.2]

variable {E N : Type} [DecidableEq N] (source target : E → N) (strict : E → Bool)

section

variable (edges : List E)

/-- The incoming edges whose source is open. -/
def pendingCount (outcome : N → Option Bool) (node : N) : ℕ :=
  edges.countP fun edge => target edge = node && (outcome (source edge)).isNone

/-- The strict incoming edges whose source ended badly. -/
def unsatisfiedCount (outcome : N → Option Bool) (node : N) : ℕ :=
  edges.countP fun edge =>
    target edge = node && (strict edge && outcome (source edge) == some false)

/-- All incoming edges. -/
def totalCount (node : N) : ℕ :=
  edges.countP fun edge => target edge = node

/-- The strict edges from one node to another; they are all of them if every edge is strict. -/
def edgesBetween (u v : N) : ℕ :=
  edges.countP fun edge => target edge = v && (strict edge && source edge = u)

end

variable {source target strict} {edges : List E} {outcome outcome' : N → Option Bool} {node : N}

section

variable (h : ∀ edge ∈ edges, target edge = node → outcome (source edge) = outcome' (source edge))
include h

theorem pendingCount_congr : pendingCount source target edges outcome node =
      pendingCount source target edges outcome' node := by
  refine countP_congr fun edge hedge => ?_
  simp only [Bool.and_eq_true, decide_eq_true_eq]
  exact and_congr_right fun hnode => by rw [h edge hedge hnode]

theorem unsatisfiedCount_congr : unsatisfiedCount source target strict edges outcome node =
      unsatisfiedCount source target strict edges outcome' node := by
  refine countP_congr fun edge hedge => ?_
  simp only [Bool.and_eq_true, decide_eq_true_eq]
  exact and_congr_right fun hnode => by rw [h edge hedge hnode]

end

/-- No edge is counted twice. -/
theorem pendingCount_add_unsatisfiedCount_le : pendingCount source target edges outcome node +
        unsatisfiedCount source target strict edges outcome node ≤
      totalCount target edges node := by
  induction edges with
  | nil =>
    simp [pendingCount, unsatisfiedCount, totalCount]
  | cons edge edges ih =>
    simp only [pendingCount, unsatisfiedCount, totalCount, countP_cons] at ih ⊢
    by_cases hnode : target edge = node
    · cases hout : outcome (source edge) <;> simp [hnode] <;> (try split_ifs) <;> omega
    · simp [hnode]
      omega

/-- When an open node ends, each edge from it stops being pending. -/
theorem pendingCount_update {ended : N} (well : Bool) (hopen : outcome ended = none) :
    pendingCount source target edges outcome node =
      pendingCount source target edges (Function.update outcome ended (some well)) node +
        edgesBetween source target (fun _ => true) edges ended node := by
  induction edges with
  | nil =>
    simp [pendingCount, edgesBetween]
  | cons edge edges ih =>
    simp only [pendingCount, edgesBetween, Bool.true_and, countP_cons,
      Function.update_apply] at ih ⊢
    by_cases hsrc : source edge = ended
    · simp only [hsrc, hopen, if_true]
      by_cases hnode : target edge = node <;> simp [hnode] <;> omega
    · simp only [hsrc, if_false]
      simp
      omega

/-- When an open node ends badly, each strict edge from it becomes unsatisfied. -/
theorem unsatisfiedCount_update {ended : N} (well : Bool) (hopen : outcome ended = none) :
    unsatisfiedCount source target strict edges (Function.update outcome ended (some well)) node =
      unsatisfiedCount source target strict edges outcome node +
        if well then 0 else edgesBetween source target strict edges ended node := by
  induction edges with
  | nil =>
    simp [unsatisfiedCount, edgesBetween]
  | cons edge edges ih =>
    simp only [unsatisfiedCount, edgesBetween, countP_cons, Function.update_apply] at ih ⊢
    by_cases hsrc : source edge = ended
    · cases well
      · simp only [hsrc, hopen, if_true, Bool.false_eq_true, if_false] at ih ⊢
        by_cases hnode : target edge = node <;> cases hstrict : strict edge <;>
          simp [hnode] <;> omega
      · simp only [hsrc, hopen, if_true] at ih ⊢
        simp
        omega
    · simp only [hsrc, if_false] at ih ⊢
      simp
      omega

end Batter
