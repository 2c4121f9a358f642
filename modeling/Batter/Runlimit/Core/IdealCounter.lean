import Batter.Library.TokenBucket
import Batter.Runlimit.Core.Gcra

/-!
# Runlimit: ideal counters and the token bucket of a GCRA key

An `IdealCounter` says what a quota counter is for, without any storage: which
answers it may give at a time and how a charge changes it.

The ideal counter of a GCRA key is a token bucket.  It starts with
`burstCapacity * period` scaled tokens, refills `quota` of them per millisecond
and is charged `cost * period` for every allowed check.  A backend that keeps a
scaled arrival time and forgets it at its rounded-up expiry stays in agreement
with the bucket: `Gcra.Owes` is that agreement, `Gcra.Owes.refuses` and
`Gcra.Owes.permits` say that `Gcra.evaluate` answers as the bucket does and that
storing what it returns restores the agreement.

A key is a digest, so two policies share a bucket only when their digests
collide; the agreement is about a family of policies without collisions.
-/

namespace Batter.Runlimit

open RustStd

variable {policies : GcraPolicy → Prop} {now : Nat}

/-- One ideal counter: which allowance it offers to a check at a time, which
denial it answers otherwise, and what a charge leaves.  A call may fail without
a decision only where `mayFail` says so. -/
structure IdealCounter (P : Type) [RateLimitPolicy P] (S : Type) where
  permits : Check P → Nat → Option S → Allowance → Prop
  refuses : Check P → Nat → Option S → QuotaDenial → Prop
  charge : Check P → Nat → Option S → S
  mayFail : Check P → Nat → Option S → Prop

namespace Gcra

open TokenBucket

/-- Tokens of a policy's bucket at a time. -/
def tokens (policy : GcraPolicy) (nowMillis : Nat) (bucket : Option Bucket) : Nat :=
  level policy.quota.get (burstSpan policy) nowMillis bucket

/-- The arrival time that owes what a policy's bucket lacks at a time. -/
def representedTat (policy : GcraPolicy) (nowMillis : Nat) (bucket : Option Bucket) : Option Nat :=
  some (policy.quota.get * nowMillis + (burstSpan policy - tokens policy nowMillis bucket))

/-- The arrival time that a backend still finds at a time. -/
def storedTat (tatScaled expiresAtMillis t : Nat) : Option Nat :=
  if expiresAtMillis > t then some tatScaled else none

/-- The debt of an arrival time that was stored to owe `amount`: when it is
dropped at its rounded-up expiry, everything has been paid back. -/
theorem debt_storedTat (policy : GcraPolicy) {t : Nat} (amount : Nat) (ht : now ≤ t) :
    debt policy t (storedTat (policy.quota.get * now + amount)
        (now + amount ⌈/⌉ policy.quota.get) t) =
      policy.quota.get * now + amount - policy.quota.get * t := by
  unfold storedTat
  by_cases hstored : now + amount ⌈/⌉ policy.quota.get > t
  · rw [if_pos hstored]
    rfl
  · have hpaid : amount ⌈/⌉ policy.quota.get ≤ t - now := by omega
    rw [ceilDiv_le_iff_le_mul policy.quota.pos, Nat.mul_sub] at hpaid
    have hmul : policy.quota.get * now ≤ policy.quota.get * t := Nat.mul_le_mul_left _ ht
    rw [if_neg hstored, debt, Option.getD_none]
    omega

variable [Sha256]

/-- The token bucket of a key.  Numbers are scaled by the period: a check takes
`increment`, that is `cost * period`, and a full bucket holds `burstSpan`. -/
def tokenBucket : IdealCounter GcraPolicy Bucket where
  permits check nowMillis bucket allowance :=
    increment check ≤ tokens check.policy nowMillis bucket ∧
    allowance.capacity = check.policy.burstCapacity ∧
    allowance.available =
      (tokens check.policy nowMillis bucket - increment check) / check.policy.period.millis ∧
    allowance.replenishesAfter.IsMillis
      ((burstSpan check.policy -
        (tokens check.policy nowMillis bucket - increment check)) ⌈/⌉ check.policy.quota.get)
  refuses check nowMillis bucket denial :=
    tokens check.policy nowMillis bucket < increment check ∧
    denial.capacity = check.policy.burstCapacity ∧
    denial.retryAfter.IsMillis
      ((increment check - tokens check.policy nowMillis bucket) ⌈/⌉ check.policy.quota.get)
  charge check nowMillis bucket :=
    charge check.policy.quota.get (burstSpan check.policy) nowMillis (increment check) bucket
  mayFail check nowMillis bucket :=
    ∃ overflow, evaluate check nowMillis (representedTat check.policy nowMillis bucket) =
      .error overflow

/-- From a time on, the bucket of a key lacks the debt of the arrival time that
is found at each time, which never exceeds a full bucket. -/
def Owes (policies : GcraPolicy → Prop) (key : CounterKey) (since : Nat)
    (found : Nat → Option Nat) (bucket : Option Bucket) : Prop :=
  ∀ policy, policies policy → RateLimitPolicy.fingerprint policy = key.fingerprint →
    ∀ t, since ≤ t →
      debt policy t (found t) ≤ burstSpan policy ∧
      tokens policy t bucket = burstSpan policy - debt policy t (found t)

/-- Policies without colliding digests that share a fingerprint share their numbers. -/
theorem eq_of_fingerprint_eq {p q : GcraPolicy}
    (hcoll : CollisionFree GcraPolicy.fingerprintInput policies) (hp : policies p) (hq : policies q)
    (h : RateLimitPolicy.fingerprint p = RateLimitPolicy.fingerprint q) :
    p.quota = q.quota ∧ p.period = q.period ∧ p.burstCapacity = q.burstCapacity := by
  obtain ⟨-, -, hquota, hperiod, hburst⟩ := GcraPolicy.fingerprintInput_inj (hcoll p q hp hq h)
  exact ⟨hquota, hperiod, hburst⟩

variable {check : Check GcraPolicy}
variable {key : CounterKey} {found : Nat → Option Nat} {bucket : Option Bucket}

/-- A bucket that was never charged owes nothing. -/
theorem owes_initially (policies : GcraPolicy → Prop) (key : CounterKey) (since : Nat) :
    Owes policies key since (fun _ => none) none := by
  intro policy _ _ t _
  simp [tokens, level, debt]

theorem Owes.later {since since' : Nat} {found' : Nat → Option Nat}
    (h : Owes policies key since found bucket) (hle : since ≤ since')
    (heq : ∀ t, since' ≤ t → found' t = found t) : Owes policies key since' found' bucket := by
  intro policy hpol hkey t ht
  rw [heq t ht]
  exact h policy hpol hkey t (hle.trans ht)

/-- An overflow is that of the arrival time which the bucket represents. -/
theorem Owes.fails {overflow : ArithmeticOverflow}
    (h : Owes policies check.counterKey now found bucket) (hpol : policies check.policy)
    (heval : evaluate check now (found now) = .error overflow) :
    tokenBucket.mayFail check now bucket := by
  obtain ⟨howed, htokens⟩ := h check.policy hpol rfl now le_rfl
  refine ⟨overflow, (evaluate_congr ?_).trans heval⟩
  rw [representedTat, htokens, Nat.sub_sub_self howed]
  exact Nat.add_sub_cancel_left ..

/-- A denial is the bucket's: it lacks what the debt and the charge exceed the
full bucket by. -/
theorem Owes.refuses {denial : QuotaDenial}
    (h : Owes policies check.counterKey now found bucket) (hpol : policies check.policy)
    (heval : evaluate check now (found now) = .ok (.denied denial)) :
    tokenBucket.refuses check now bucket denial := by
  obtain ⟨howed, htokens⟩ := h check.policy hpol rfl now le_rfl
  have hle := increment_le_burstSpan check
  have hload := load_eq check now (found now)
  rcases evaluate_eq_ok heval with ⟨hover, hfits, hdenied⟩ | ⟨_, _, _, hallowed⟩
  · cases hdenied
    have hlack : increment check - tokens check.policy now bucket =
        load check now (found now) - burstSpan check.policy := by rw [load]; omega
    refine ⟨by omega, rfl, ?_⟩
    rw [hlack]
    rfl
  · cases hallowed

/-- An allowance is the bucket's, and the arrival time to store is the debt
after the charge. -/
theorem Owes.permits {pending : PendingAllowance}
    (hcoll : CollisionFree GcraPolicy.fingerprintInput policies)
    (h : Owes policies check.counterKey now found bucket) (hpol : policies check.policy)
    (heval : evaluate check now (found now) = .ok (.allowed pending)) :
    tokenBucket.permits check now bucket pending.allowance ∧
      Owes policies check.counterKey now
        (storedTat pending.tatScaled pending.expiresAtMillis)
        (some (tokenBucket.charge check now bucket)) := by
  obtain ⟨-, htokens⟩ := h check.policy hpol rfl now le_rfl
  rcases evaluate_eq_ok heval with ⟨_, _, hdenied⟩ | ⟨hle, hfits, havail, hallowed⟩
  · cases hdenied
  · cases hallowed
    have hload := load_eq check now (found now)
    refine ⟨⟨by omega, rfl, ?_, ?_⟩, ?_⟩
    · have hleft : tokens check.policy now bucket - increment check =
          burstSpan check.policy - load check now (found now) := by omega
      rw [hleft]
    · have hlack : burstSpan check.policy - (tokens check.policy now bucket -
          increment check) = load check now (found now) := by omega
      rw [hlack]
      rfl
    · intro policy hused hsame t ht
      obtain ⟨hquota, hperiod, hburst⟩ := eq_of_fingerprint_eq hcoll hused hpol hsame
      have hspan : burstSpan policy = burstSpan check.policy := by
        rw [burstSpan, burstSpan, hperiod, hburst]
      have hsameDebt : ∀ tat, debt policy t tat = debt check.policy t tat := by
        intro tat
        rw [debt, debt, hquota]
      have hlevel := level_charge_of_debt htokens hle ht
      have hdebt := debt_storedTat check.policy (load check now (found now)) ht
      have hmul : check.policy.quota.get * now ≤ check.policy.quota.get * t :=
        Nat.mul_le_mul_left _ ht
      rw [tokens, hquota, hspan, hsameDebt, hdebt]
      refine ⟨by omega, hlevel.trans ?_⟩
      rw [hload, Nat.add_assoc]

end Gcra

end Batter.Runlimit
