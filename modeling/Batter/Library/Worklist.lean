import Mathlib

/-!
# Worklists

A search keeps what it has seen and what is pending, and ends when nothing is pending.
`Explored` is its invariant: everything kept is derived from the root, and what follows
from something seen is kept.  At the end the search has seen what is derived, no more
and no less.  `loop` runs turns until one of them is the last, which happens when the
turns go down in a well-founded order.
-/

namespace Batter.Worklist

section Loop

variable {σ β : Type} {turn : σ → Option σ}

/-- Turns until there is none left; nothing without enough fuel. -/
def loop (turn : σ → Option σ) : ℕ → σ → Option σ
  | 0, _ => none
  | fuel + 1, s =>
    match turn s with
    | none => some s
    | some s' => loop turn fuel s'

/-- Turns that keep an invariant and go down come to an end, with any greater fuel as well. -/
theorem loop_total [Preorder β] [WellFoundedLT β] (Inv : σ → Prop) (measure : σ → β)
    (hturn : ∀ s s', Inv s → turn s = some s' → Inv s' ∧ measure s' < measure s) {s : σ}
    (hs : Inv s) :
    ∃ t, Inv t ∧ turn t = none ∧ ∃ bound, ∀ fuel, bound ≤ fuel → loop turn fuel s = some t := by
  induction hmeasure : measure s using WellFoundedLT.induction generalizing s with
  | ind _ ih =>
    subst hmeasure
    cases hnext : turn s with
    | none =>
      refine ⟨s, hs, hnext, 1, fun fuel hfuel => ?_⟩
      obtain ⟨fuel, rfl⟩ := Nat.exists_eq_add_of_le' hfuel
      simp [loop, hnext]
    | some s' =>
      obtain ⟨hs', hlt⟩ := hturn s s' hs hnext
      obtain ⟨t, ht, hlast, bound, hbound⟩ := ih _ hlt hs' rfl
      refine ⟨t, ht, hlast, bound + 1, fun fuel hfuel => ?_⟩
      obtain ⟨fuel, rfl⟩ := Nat.exists_eq_add_of_le' (Nat.le_of_add_left_le hfuel)
      simpa [loop, hnext] using hbound fuel (by omega)

end Loop

variable {α : Type} {next : α → α → Prop} {root : α} {seen pending seen' pending' : α → Prop}

/-- The invariant of a search from a root. -/
structure Explored (next : α → α → Prop) (root : α) (seen pending : α → Prop) : Prop where
  start : seen root ∨ pending root
  sound : ∀ a, seen a ∨ pending a → Relation.ReflTransGen next root a
  closed : ∀ a, seen a → ∀ b, next a b → seen b ∨ pending b

/-- A turn forgets nothing, adds what is derived, and keeps what follows from it. -/
theorem Explored.advance (h : Explored next root seen pending)
    (hkeep : ∀ a, seen a ∨ pending a → seen' a ∨ pending' a)
    (hsound : ∀ a, seen' a ∨ pending' a → Relation.ReflTransGen next root a)
    (hclosed : ∀ a, seen' a → ¬ seen a → ∀ b, next a b → seen' b ∨ pending' b) :
    Explored next root seen' pending' := by
  refine ⟨hkeep _ h.start, hsound, fun a ha b hb => ?_⟩
  by_cases hold : seen a
  · exact hkeep b (h.closed a hold b hb)
  · exact hclosed a ha hold b hb

/-- A search that ended has seen what is derived from the root. -/
theorem Explored.seen_iff (h : Explored next root seen pending) (hempty : ∀ a, ¬ pending a)
    {a : α} : seen a ↔ Relation.ReflTransGen next root a := by
  refine ⟨fun ha => h.sound a (Or.inl ha), fun ha => ?_⟩
  induction ha with
  | refl => exact h.start.resolve_right (hempty _)
  | tail _ hstep ih => exact (h.closed _ ih _ hstep).resolve_right (hempty _)

end Batter.Worklist
