import Batter.Library.Runs

/-!
# Token buckets

An ideal token bucket starts full, refills `rate` tokens per unit of time up to
`full`, and is charged explicitly.  A bucket that was never charged is `none`.

An algorithm that keeps only a theoretical arrival time knows the *debt* of the
bucket: how much of `full` is missing.  `level_charge_of_debt` says how the
debt evolves when the bucket is charged and time passes, which is all that such
an algorithm needs to stay in agreement with the bucket.

`sum_amounts_le` is what a bucket is for: the charges it covered between two of
them exceed neither a full bucket nor what was refilled in the meantime.
-/

namespace Batter.TokenBucket

open Runs List

/-- A bucket after its latest charge: what was left then, and when it was. -/
structure Bucket where
  tokens : Nat
  updatedAt : Nat
deriving DecidableEq

section Level

variable (rate full : Nat)

/-- Tokens available at a time not before the latest charge. -/
def level (now : Nat) : Option Bucket → Nat
  | none => full
  | some bucket => min full (bucket.tokens + rate * (now - bucket.updatedAt))

/-- The bucket after `amount` tokens were taken at `now`. -/
def charge (now amount : Nat) (bucket : Option Bucket) : Bucket :=
  ⟨level rate full now bucket - amount, now⟩

end Level

variable {rate full : Nat}

theorem level_le (now : Nat) (bucket : Option Bucket) : level rate full now bucket ≤ full := by
  cases bucket with
  | none => exact le_rfl
  | some bucket => exact min_le_left _ _

/-- A bucket that lacks `debt` tokens and is charged `amount` more lacks, at
every later time, what the refill since then has not yet paid back. -/
theorem level_charge_of_debt {now t debt amount : Nat} {bucket : Option Bucket}
    (hlevel : level rate full now bucket = full - debt) (hamount : debt + amount ≤ full)
    (ht : now ≤ t) :
    level rate full t (some (charge rate full now amount bucket)) =
      full - (rate * now + debt + amount - rate * t) := by
  have hmul : rate * now ≤ rate * t := Nat.mul_le_mul_left rate ht
  change min full (level rate full now bucket - amount + rate * (t - now)) = _
  rw [hlevel, Nat.mul_sub]
  omega

/-- A charge of a bucket. -/
structure Charge where
  time : Nat
  amount : Nat

/-- The bucket after some charges. -/
def after (rate full : Nat) (charges : List Charge) : Option Bucket :=
  charges.foldl (fun bucket c => some (charge rate full c.time c.amount bucket)) none

theorem after_append_singleton (charges : List Charge) (c : Charge) :
    after rate full (charges ++ [c]) =
      some (charge rate full c.time c.amount (after rate full charges)) := by
  simp [after]

/-- The charge is covered after the earlier ones and is not before any of them. -/
def Covered (rate full : Nat) (earlier : List Charge) (c : Charge) : Prop :=
  c.amount ≤ level rate full c.time (after rate full earlier) ∧
    ∀ other ∈ earlier, other.time ≤ c.time

/-- What is left in a bucket and what was taken from it since some charge never
exceed a full bucket and the refill since then. -/
theorem tokens_add_sum_le {earlier rest : List Charge} {first : Charge}
    (h : Throughout (Covered rate full) (earlier ++ first :: rest)) :
    ∃ bucket, after rate full (earlier ++ first :: rest) = some bucket ∧
      first.time ≤ bucket.updatedAt ∧
      (∀ last, (first :: rest).getLast? = some last → bucket.updatedAt = last.time) ∧
      bucket.tokens + ((first :: rest).map Charge.amount).sum ≤
        full + rate * (bucket.updatedAt - first.time) := by
  induction rest using List.reverseRecOn with
  | nil =>
    obtain ⟨-, hcovered, -⟩ := throughout_append_singleton.mp h
    refine ⟨_, after_append_singleton earlier first, le_rfl, by simp [charge], ?_⟩
    have hle : level rate full first.time (after rate full earlier) ≤ full := level_le _ _
    simp only [charge, map_singleton, sum_singleton]
    omega
  | append_singleton rest c ih =>
    rw [← cons_append, ← append_assoc] at h
    obtain ⟨hearlier, hcovered, htimes⟩ := throughout_append_singleton.mp h
    obtain ⟨bucket, hafter, hfirst, hlast, hsum⟩ := ih hearlier
    rw [hafter] at hcovered
    obtain ⟨last, hgetLast⟩ : ∃ last, (first :: rest).getLast? = some last :=
      ⟨_, getLast?_eq_some_getLast (cons_ne_nil _ _)⟩
    have htime : bucket.updatedAt ≤ c.time := by
      rw [hlast last hgetLast]
      exact htimes last (mem_append_right _ (mem_of_getLast? hgetLast))
    refine ⟨charge rate full c.time c.amount (some bucket), ?_, ?_, ?_, ?_⟩
    · rw [← cons_append, ← append_assoc, after_append_singleton, hafter]
    · exact hfirst.trans htime
    · intro last hlast
      rw [← cons_append, getLast?_concat] at hlast
      cases hlast
      rfl
    · have hrefill : level rate full c.time (some bucket) ≤
          bucket.tokens + rate * (c.time - bucket.updatedAt) := min_le_right _ _
      have hsplit : rate * (c.time - first.time) =
          rate * (c.time - bucket.updatedAt) + rate * (bucket.updatedAt - first.time) := by
        rw [← Nat.mul_add]
        congr 1
        omega
      simp only [charge, map_cons, sum_cons, map_append, sum_append, map_nil, sum_nil] at hsum ⊢
      omega

/-- The charges of a bucket between two of them. -/
theorem sum_amounts_le {earlier rest later : List Charge} {first last : Charge}
    (h : Throughout (Covered rate full) (earlier ++ (first :: rest) ++ later))
    (hlast : (first :: rest).getLast? = some last) :
    first.time ≤ last.time ∧
      ((first :: rest).map Charge.amount).sum ≤ full + rate * (last.time - first.time) := by
  have hseg : Throughout (Covered rate full) (earlier ++ first :: rest) :=
    fun before c hc => h before c (hc.trans (prefix_append _ _))
  obtain ⟨bucket, -, hfirst, hupdated, hsum⟩ := tokens_add_sum_le hseg
  rw [hupdated last hlast] at hfirst hsum
  exact ⟨hfirst, (Nat.le_add_left _ _).trans hsum⟩

end Batter.TokenBucket
