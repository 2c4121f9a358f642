import Batter.Runlimit.Core.Policy

/-!
# Runlimit: decisions

The outcomes of a check and of an atomic batch.  Constructors that validate
return an error; a value that exists satisfies its invariant: an allowance
never offers more than its capacity, an allowed batch is never empty, and a
denied batch names an index below its size.
-/

namespace Batter.Runlimit

open RustStd

/-- A backend-reported duration until a quota event. -/
structure Delay where
  duration : Duration
deriving DecidableEq

/-- The delay is exactly this number of milliseconds. -/
def Delay.IsMillis (delay : Delay) (millis : Nat) : Prop :=
  delay.duration.nanos = millis * 10 ^ 6

/-- The delay is exactly this number of microseconds. -/
def Delay.IsMicros (delay : Delay) (micros : Nat) : Prop :=
  delay.duration.nanos = micros * 10 ^ 3

/-- `Delay::seconds`: any fractional second is rounded up. -/
def Delay.seconds (delay : Delay) : Nat :=
  let seconds := delay.duration.nanos / 10 ^ 9
  if delay.duration.subsecNanos = 0 then seconds else saturatingAdd u64Max seconds 1

theorem Delay.IsMillis.le_seconds {delay : Delay} {millis : Nat} (h : delay.IsMillis millis)
    (hfits : millis ≤ u64Max) : millis ≤ 1000 * delay.seconds := by
  rw [Delay.IsMillis] at h
  rw [Delay.seconds, Duration.subsecNanos, h, saturatingAdd]
  split_ifs with hwhole
  · omega
  · have hbound : millis * 10 ^ 6 / 10 ^ 9 + 1 ≤ u64Max := by
      rw [u64Max] at hfits ⊢
      omega
    rw [min_eq_left hbound]
    omega

/-- An invalid decision or batch construction. -/
inductive DecisionError where
  | availableExceedsCapacity (capacity : Capacity) (available : Nat)
  | deniedIndexOutOfRange (index batchSize : Nat)
  | emptyBatch
deriving DecidableEq

/-- Validated details for quota exhaustion. -/
structure QuotaDenial where
  capacity : Capacity
  retryAfter : Delay
deriving DecidableEq

def QuotaDenial.new (capacity : Capacity) (retryAfter : Duration) : QuotaDenial :=
  ⟨capacity, ⟨retryAfter⟩⟩

/-- An enforced denial, discriminated by reason. -/
inductive Denial where
  | quotaExceeded (denial : QuotaDenial)
  | storageCapacity (retryAfter : Option Delay)
deriving DecidableEq

/-- Validated allowance metadata for an allowed check. -/
structure Allowance where
  capacity : Capacity
  available : Nat
  replenishesAfter : Delay
  available_le : available ≤ capacity.get
deriving DecidableEq

def Allowance.new (capacity : Capacity) (available : Nat) (replenishesAfter : Duration) :
    Except DecisionError Allowance :=
  if h : available > capacity.get then
    .error (.availableExceedsCapacity capacity available)
  else
    .ok ⟨capacity, available, ⟨replenishesAfter⟩, not_lt.mp h⟩

theorem Allowance.new_eq_ok {cap : Capacity} {available : Nat} {replenishesAfter : Duration}
    (h : available ≤ cap.get) :
    Allowance.new cap available replenishesAfter = .ok ⟨cap, available, ⟨replenishesAfter⟩, h⟩ := by
  simp [Allowance.new, not_lt.mpr h]

/-- A decision that permits the request. -/
inductive Admitted where
  | allowed (allowance : Allowance)
  | shadowDenied (denial : QuotaDenial)
deriving DecidableEq

/-- The outcome of evaluating one check. -/
inductive Decision where
  | admitted (outcome : Admitted)
  | denied (denial : Denial)
deriving DecidableEq

def Decision.allowed (allowance : Allowance) : Decision :=
  .admitted (.allowed allowance)

def Decision.shadowDenied (denial : QuotaDenial) : Decision :=
  .admitted (.shadowDenied denial)

/-- The quota denial of a policy: enforced, or only reported in shadow mode. -/
def Decision.quotaDenied (mode : QuotaMode) (denial : QuotaDenial) : Decision :=
  if mode = .shadow then .shadowDenied denial
  else .denied (.quotaExceeded denial)

/-- The atomic outcome of evaluating checks in caller-supplied order. -/
inductive BatchDecision where
  | allowed (allowances : List Allowance) (nonempty : allowances ≠ [])
  | denied (index batchSize : Nat) (denial : Denial) (inRange : index < batchSize)
  | shadowDenied (index batchSize : Nat) (denial : QuotaDenial) (inRange : index < batchSize)
deriving DecidableEq

namespace BatchDecision

/-- `BatchDecision::allowed`. -/
def newAllowed (allowances : List Allowance) : Except DecisionError BatchDecision :=
  if h : allowances = [] then
    .error .emptyBatch
  else
    .ok (.allowed allowances h)

/-- `BatchDecision::denied`. -/
def newDenied (index batchSize : Nat) (denial : Denial) : Except DecisionError BatchDecision :=
  if h : index < batchSize then
    .ok (.denied index batchSize denial h)
  else
    .error (.deniedIndexOutOfRange index batchSize)

/-- `BatchDecision::shadow_denied`. -/
def newShadowDenied (index batchSize : Nat) (denial : QuotaDenial) :
    Except DecisionError BatchDecision :=
  if h : index < batchSize then
    .ok (.shadowDenied index batchSize denial h)
  else
    .error (.deniedIndexOutOfRange index batchSize)

/-- The quota denial of a batch member under the batch's quota mode. -/
def newQuotaDenied (mode : QuotaMode) (index batchSize : Nat) (denial : QuotaDenial) :
    Except DecisionError BatchDecision :=
  if mode = .shadow then newShadowDenied index batchSize denial
  else newDenied index batchSize (.quotaExceeded denial)

theorem newAllowed_eq_ok {allowances : List Allowance} (h : allowances ≠ []) :
    newAllowed allowances = .ok (.allowed allowances h) := by
  simp [newAllowed, h]

variable {index batchSize : Nat} {denial : QuotaDenial}

theorem newDenied_eq_ok {denial : Denial} (h : index < batchSize) :
    newDenied index batchSize denial = .ok (.denied index batchSize denial h) := by
  simp [newDenied, h]

theorem newShadowDenied_eq_ok (h : index < batchSize) :
    newShadowDenied index batchSize denial = .ok (.shadowDenied index batchSize denial h) := by
  simp [newShadowDenied, h]

theorem newQuotaDenied_eq_ok {mode : QuotaMode} {index size : Nat} {decision : BatchDecision}
    (h : newQuotaDenied mode index size denial = .ok decision) :
    ∃ hlt : index < size,
      mode = .shadow ∧ decision = .shadowDenied index size denial hlt ∨
        mode ≠ .shadow ∧ decision = .denied index size (.quotaExceeded denial) hlt := by
  unfold newQuotaDenied newShadowDenied newDenied at h
  split_ifs at h with hmode hlt hlt
  · exact ⟨hlt, Or.inl ⟨hmode, (Except.ok.inj h).symm⟩⟩
  · exact ⟨hlt, Or.inr ⟨hmode, (Except.ok.inj h).symm⟩⟩

end BatchDecision

end Batter.Runlimit
