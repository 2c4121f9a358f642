import Batter.Runledger.Postgres.Schema

/-!
# When a failed job runs again

The function is modelled with all it returns, over times before and after the epoch: the
policy's delay in milliseconds, a handler's delay in nanoseconds and a handler's time
with its own range meet in one result.
-/

namespace Batter.Runledger.Postgres

def invalidRetryTimingError (detail : String) : Error :=
  .query .validation "job.invalid_retry_timing" "Job retry timing is invalid." detail

namespace RetryTiming

open RustStd

/-- The nanoseconds of `DateTime::<Utc>::MIN_UTC`. -/
def minNanos : ℤ := -8334601228800 * 10 ^ 9

/-- The nanoseconds of `DateTime::<Utc>::MAX_UTC`. -/
def maxNanos : ℤ := 8210266876800 * 10 ^ 9 - 1

def Representable (nanos : ℤ) : Prop :=
  minNanos ≤ nanos ∧ nanos ≤ maxNanos

instance : DecidablePred Representable := fun _ => inferInstanceAs (Decidable (_ ∧ _))

/-- A time that chrono can represent, in nanoseconds since the epoch. -/
abbrev DateTime := Subtype Representable

/-- A time of the clock of the database, in microseconds since the epoch. -/
def DateTime.ofMicros? (micros : ℕ) : Option DateTime :=
  if h : Representable (micros * 1000) then some ⟨_, h⟩ else none

/-- The time as the database stores it, from the epoch on. -/
def DateTime.micros (time : DateTime) : ℕ :=
  (time.1 / 1000).toNat

def checkedAddSigned (time : DateTime) (nanos : ℤ) : Option DateTime :=
  if h : Representable (time.1 + nanos) then some ⟨_, h⟩ else none

/-- 4713-01-01 BC. -/
def postgresMinimum : ℤ := -210863520000 * 10 ^ 9

inductive JobRetryTiming
  | after (delay : Duration)
  | at (time : DateTime)
  deriving DecidableEq

inductive ResolvedRetryTiming
  | policyOnly (policyRetryDelayMs : ℤ) (effectiveNextRunAt : DateTime)
  | policyWonOverHandlerHint (policyRetryDelayMs : ℤ)
      (requestedRetryNotBefore effectiveNextRunAt : DateTime)
  | handlerHintWon (policyRetryDelayMs : ℤ) (requestedRetryNotBefore : DateTime)

def ResolvedRetryTiming.effectiveNextRunAt : ResolvedRetryTiming → DateTime
  | policyOnly _ effective | policyWonOverHandlerHint _ _ effective => effective
  | handlerHintWon _ requested => requested

def retryDelayMilliseconds (delay : Duration) : Except Error ℤ := do
  let roundedMilliseconds : ℤ :=
    delay.asMillis + if delay.subsecNanos % 1000000 = 0 then 0 else 1
  rejectIf (i32Max < roundedMilliseconds) (invalidRetryTimingError
    s!"handler-selected retry delay must fit in a positive 32-bit millisecond value, got {delay.nanos}")
  rejectIf (roundedMilliseconds ≤ 0) (invalidRetryTimingError
    s!"handler-selected retry delay must be greater than zero, got {delay.nanos}")
  return roundedMilliseconds

def roundRetryAtToPostgresPrecision (retryAt : DateTime) : Except Error DateTime := do
  let nanosecondRemainder := retryAt.1 % 1000
  let retryAt ← require (invalidRetryTimingError
    s!"handler-selected absolute retry time cannot be rounded to PostgreSQL microsecond precision: {retryAt.1}")
    (if nanosecondRemainder = 0 then some retryAt
      else checkedAddSigned retryAt (1000 - nanosecondRemainder))
  rejectIf (retryAt.1 < postgresMinimum) (invalidRetryTimingError
    s!"handler-selected absolute retry time is outside PostgreSQL's supported range: {retryAt.1}")
  return retryAt

def requestedRetryNotBefore (completionBaseAt policyNextRunAt : DateTime) :
    Option JobRetryTiming → Except Error (Option DateTime)
  | none => pure none
  | some (.after delay) => do
    if delay.isZero then return none
    let handlerDelayMs ← retryDelayMilliseconds delay
    let requested ← require (invalidRetryTimingError
      s!"handler-selected retry delay produces an unrepresentable timestamp: base={completionBaseAt.1}, delay={delay.nanos}")
      (checkedAddSigned completionBaseAt (handlerDelayMs * 1000000))
    return some requested
  | some (.at requestedRetryAt) =>
    match roundRetryAtToPostgresPrecision requestedRetryAt with
    | .ok rounded => pure (some rounded)
    | .error error => if requestedRetryAt.1 ≤ policyNextRunAt.1 then pure none else .error error

/-- The variant that `resolve_retry_timing` reports. -/
def resolved (policyRetryDelayMs : ℤ) (policyNextRunAt : DateTime) :
    Option DateTime → ResolvedRetryTiming
  | none => .policyOnly policyRetryDelayMs policyNextRunAt
  | some requested =>
    if policyNextRunAt.1 < requested.1 then .handlerHintWon policyRetryDelayMs requested
    else .policyWonOverHandlerHint policyRetryDelayMs requested policyNextRunAt

def resolveRetryTiming (completionBaseAt : DateTime) (policyRetryDelayMs : Option ℤ)
    (handlerRetryTiming : Option JobRetryTiming) : Except Error ResolvedRetryTiming := do
  let policyRetryDelayMs ← require
    (invalidRetryTimingError "policy retry delay is required for a retryable failure")
    policyRetryDelayMs
  rejectIf (policyRetryDelayMs ≤ 0) (invalidRetryTimingError
    s!"policy retry delay must be greater than zero, got {policyRetryDelayMs}")
  let policyNextRunAt ← require (invalidRetryTimingError
    s!"policy retry delay produces an unrepresentable timestamp: base={completionBaseAt.1}, delay_ms={policyRetryDelayMs}")
    (checkedAddSigned completionBaseAt (policyRetryDelayMs * 1000000))
  return resolved policyRetryDelayMs policyNextRunAt
    (← requestedRetryNotBefore completionBaseAt policyNextRunAt handlerRetryTiming)

variable {base time policy : DateTime} {nanos : ℤ} {delay : Duration}

theorem checkedAddSigned_eq_some :
    checkedAddSigned base nanos = some time ↔ time.1 = base.1 + nanos := by
  unfold checkedAddSigned
  split_ifs with h
  · rw [Option.some.injEq, eq_comm, Subtype.ext_iff]
  · refine iff_of_false nofun fun heq => h ?_
    rw [← heq]
    exact time.2

/-- The delay of a handler in milliseconds, rounded up. -/
def ceilMillis (delay : Duration) : ℤ :=
  ((delay.nanos + 999999) / 1000000 : ℕ)

/-- The least time of whole microseconds that is not before a time. -/
def ceilMicros (nanos : ℤ) : ℤ :=
  (nanos + 999) / 1000 * 1000

theorem retryDelayMilliseconds_eq_ok (hzero : delay.isZero = false) {millis : ℤ} :
    retryDelayMilliseconds delay = .ok millis ↔
      ceilMillis delay ≤ i32Max ∧ ceilMillis delay = millis := by
  have hround : (delay.asMillis + if delay.subsecNanos % 1000000 = 0 then 0 else 1 : ℤ) =
      ceilMillis delay := by
    unfold Duration.asMillis Duration.subsecNanos ceilMillis
    split_ifs <;> omega
  have hpos : 0 < ceilMillis delay := by
    simp only [Duration.isZero, beq_eq_false_iff_ne] at hzero
    unfold ceilMillis
    omega
  simp only [retryDelayMilliseconds, hround, bind_eq_ok, exists_unit, rejectIf_eq_ok,
    decide_eq_false_iff_not, not_lt,
    not_le, pure_eq_ok, hpos, true_and]

theorem roundRetryAt_eq_ok {rounded : DateTime} :
    roundRetryAtToPostgresPrecision time = .ok rounded ↔
      rounded.1 = ceilMicros time.1 ∧ postgresMinimum ≤ rounded.1 := by
  have hround : ∀ rounded, (if time.1 % 1000 = 0 then some time else
      checkedAddSigned time (1000 - time.1 % 1000)) = some rounded ↔
      rounded.1 = ceilMicros time.1 := by
    intro rounded
    unfold ceilMicros
    split_ifs with h
    · rw [Option.some.injEq, eq_comm, Subtype.ext_iff]
      omega
    · rw [checkedAddSigned_eq_some]
      omega
  simp only [roundRetryAtToPostgresPrecision, bind_eq_ok, exists_unit, rejectIf_eq_ok,
    require_eq_ok,
    hround, pure_eq_ok, decide_eq_false_iff_not, not_lt]
  constructor
  · rintro ⟨_, heq, hmin, rfl⟩
    exact ⟨heq, hmin⟩
  · rintro ⟨heq, hmin⟩
    exact ⟨rounded, heq, hmin, rfl⟩

/-- The time that a hint asks for, rounded up to what the queue can store. -/
def hinted (base : DateTime) : Option JobRetryTiming → Option ℤ
  | none => none
  | some (.after delay) => if delay.isZero then none else some (base.1 + ceilMillis delay * 1000000)
  | some (.at time) => some (ceilMicros time.1)

/-- The time of a hint is in range. -/
def usable (nanos : ℤ) : Option JobRetryTiming → Bool
  | none => true
  | some (.after delay) => Representable nanos && ceilMillis delay ≤ i32Max
  | some (.at _) => Representable nanos && postgresMinimum ≤ nanos

/-- The time of a hint that can be used. -/
def usableHint (base : DateTime) (hint : Option JobRetryTiming) : Option ℤ :=
  (hinted base hint).filter (usable · hint)

/-- A hint that is out of range does no harm if it asks for a time that is not late. -/
def Harmless (policy : ℤ) (hint : Option JobRetryTiming) : Prop :=
  ∃ time : DateTime, hint = some (.at time) ∧ time.1 ≤ policy

variable {hint : Option JobRetryTiming} {requested : Option DateTime}

theorem requestedRetryNotBefore_eq_ok : requestedRetryNotBefore base policy hint = .ok requested ↔
      requested.map Subtype.val = usableHint base hint ∧
        (usableHint base hint = hinted base hint ∨ Harmless policy.1 hint) := by
  cases hint with
  | none => simp [requestedRetryNotBefore, usableHint, hinted, @eq_comm _ none]
  | some timing =>
    cases timing with
    | after delay =>
      have hlate : ¬ Harmless policy.1 (some (.after delay)) := by simp [Harmless]
      cases hzero : delay.isZero with
      | true => simp [requestedRetryNotBefore, usableHint, hinted, hzero, @eq_comm _ none]
      | false =>
        simp only [requestedRetryNotBefore, usableHint, hinted, hzero, Bool.false_eq_true, if_false,
          bind_eq_ok, retryDelayMilliseconds_eq_ok hzero, require_eq_ok, pure_eq_ok,
          checkedAddSigned_eq_some, hlate, or_false, Option.filter_eq_some_iff, usable,
          Bool.and_eq_true, decide_eq_true_eq, true_and]
        constructor
        · rintro ⟨_, ⟨hfits, rfl⟩, time, heq, rfl⟩
          simp [Option.filter, ← heq, time.2, hfits]
        · rintro ⟨heq, hrange, hfits⟩
          rw [Option.filter_some, if_pos (by simp [hrange, hfits])] at heq
          obtain ⟨time, rfl, htime⟩ := Option.map_eq_some_iff.mp heq
          exact ⟨_, ⟨hfits, rfl⟩, time, htime, rfl⟩
    | «at» time =>
      have hlate : Harmless policy.1 (some (.at time)) ↔ time.1 ≤ policy.1 := by
        simp [Harmless]
      simp only [requestedRetryNotBefore, usableHint, hinted, hlate, Option.filter_some, usable,
        Bool.and_eq_true, decide_eq_true_eq]
      cases hround : roundRetryAtToPostgresPrecision time with
      | ok rounded =>
        obtain ⟨heq, hmin⟩ := roundRetryAt_eq_ok.mp hround
        rw [if_pos ⟨heq ▸ rounded.2, heq ▸ hmin⟩, ← heq, pure_eq_ok]
        constructor
        · rintro rfl
          exact ⟨rfl, .inl rfl⟩
        · rintro ⟨h, -⟩
          exact (Option.map_injective Subtype.val_injective h).symm
      | error error =>
        rw [if_neg]
        · simp [ite_eq_iff, @eq_comm _ none, pure, Except.pure, and_comm]
        · rintro ⟨hrange, hmin⟩
          have hok := (@roundRetryAt_eq_ok time ⟨_, hrange⟩).mpr ⟨rfl, hmin⟩
          cases hround.symm.trans hok

/-- The time that the handler itself named. -/
def asked (base : DateTime) : Option JobRetryTiming → Option ℤ
  | none => none
  | some (.after delay) => some (base.1 + delay.nanos)
  | some (.at time) => some time.1

/-- What rounding may add to it. -/
def slack : Option JobRetryTiming → ℤ
  | some (.at _) => 1000
  | _ => 1000000

section

variable {named : ℤ} (hasked : asked base hint = some named)
include hasked

theorem asked_le_hinted (hhint : hinted base hint = some nanos) :
    named ≤ nanos ∧ nanos < named + slack hint := by
  obtain _ | delay | time := hint
  · cases hasked
  · simp only [asked, hinted, Option.some.injEq, Option.ite_none_left_eq_some, slack] at *
    unfold ceilMillis at hhint
    omega
  · simp only [asked, hinted, Option.some.injEq, slack, ceilMicros] at *
    omega

/-- Without a usable hint the handler named no time after the policy's. -/
theorem asked_le_policy (hbase : base.1 ≤ policy.1)
    (hhint : hinted base hint = none ∨ Harmless policy.1 hint) : named ≤ policy.1 := by
  obtain hnone | ⟨time, rfl, hle⟩ := hhint
  · obtain _ | delay | time := hint
    · cases hasked
    · simp only [hinted, ite_eq_left_iff, reduceCtorEq, imp_false, not_not,
        Duration.isZero, beq_iff_eq] at hnone
      simp only [asked, hnone, Option.some.injEq] at hasked
      omega
    · cases hnone
  · exact Option.some.inj hasked ▸ hle

end

theorem exists_requested (base : DateTime) (hint : Option JobRetryTiming) :
    ∃ requested : Option DateTime, requested.map Subtype.val = usableHint base hint := by
  cases huse : usableHint base hint with
  | none => exact ⟨none, rfl⟩
  | some nanos =>
    obtain ⟨hhint, huse⟩ := Option.filter_eq_some_iff.mp huse
    suffices hrange : Representable nanos from ⟨some ⟨nanos, hrange⟩, rfl⟩
    obtain _ | _ | _ := hint
    · cases hhint
    all_goals
      simp only [usable, Bool.and_eq_true, decide_eq_true_eq] at huse
      exact huse.1

/-- The time that the policy gives. -/
def policyNanos (base : DateTime) (policyMs : ℤ) : ℤ :=
  base.1 + policyMs * 1000000

theorem resolveRetryTiming_eq_ok {policyRetryDelayMs : Option ℤ} {timing : ResolvedRetryTiming} :
    resolveRetryTiming base policyRetryDelayMs hint = .ok timing ↔
      ∃ policyMs, policyRetryDelayMs = some policyMs ∧ 0 < policyMs ∧
        ∃ policy : DateTime, policy.1 = policyNanos base policyMs ∧
          ∃ requested, (requested.map Subtype.val = usableHint base hint ∧
            (usableHint base hint = hinted base hint ∨ Harmless policy.1 hint)) ∧
              resolved policyMs policy requested = timing := by
  simp only [resolveRetryTiming, bind_eq_ok, exists_unit, rejectIf_eq_ok, require_eq_ok,
    decide_eq_false_iff_not, not_le, checkedAddSigned_eq_some, requestedRetryNotBefore_eq_ok,
    policyNanos, pure_eq_ok]

/-- A failed job never runs again before the policy or its handler allows it. -/
theorem failed_jobs_are_not_retried_early (base : DateTime) (policyRetryDelayMs : Option ℤ)
    (hint : Option JobRetryTiming) :
    ((∃ timing, resolveRetryTiming base policyRetryDelayMs hint = .ok timing) ↔
      ∃ policyMs, policyRetryDelayMs = some policyMs ∧ 0 < policyMs ∧
        Representable (policyNanos base policyMs) ∧
          (usableHint base hint = hinted base hint ∨ Harmless (policyNanos base policyMs) hint)) ∧
    ∀ policyMs timing, policyRetryDelayMs = some policyMs →
      resolveRetryTiming base policyRetryDelayMs hint = .ok timing →
        timing.effectiveNextRunAt.1 =
          (usableHint base hint).elim (policyNanos base policyMs)
            (max (policyNanos base policyMs)) ∧
        policyNanos base policyMs ≤ timing.effectiveNextRunAt.1 ∧
        (∀ nanos, asked base hint = some nanos → nanos ≤ timing.effectiveNextRunAt.1 ∧
          timing.effectiveNextRunAt.1 < max (policyNanos base policyMs) nanos + slack hint) ∧
        ((∃ time, timing = .handlerHintWon policyMs time) ↔
          ∃ nanos, usableHint base hint = some nanos ∧ policyNanos base policyMs < nanos) := by
  refine ⟨?_, ?_⟩
  · simp only [resolveRetryTiming_eq_ok]
    constructor
    · rintro ⟨_, policyMs, rfl, hpos, policy, heq, _, ⟨_, hhint⟩, _⟩
      exact ⟨policyMs, rfl, hpos, heq ▸ policy.2, heq ▸ hhint⟩
    · rintro ⟨policyMs, rfl, hpos, hrange, hhint⟩
      obtain ⟨requested, hreq⟩ := exists_requested base hint
      exact ⟨_, policyMs, rfl, hpos, ⟨_, hrange⟩, rfl, requested, ⟨hreq, hhint⟩, rfl⟩
  · rintro policyMs timing rfl hok
    obtain ⟨_, hms, hpos, policy, heq, requested, ⟨hreq, hhint⟩, rfl⟩ :=
      resolveRetryTiming_eq_ok.mp hok
    obtain rfl := Option.some.inj hms
    rw [← heq]
    cases requested with
    | none =>
      rw [← hreq] at hhint ⊢
      have hbase : base.1 ≤ policy.1 := by
        rw [heq, policyNanos]
        omega
      refine ⟨rfl, le_rfl, fun nanos hnanos => ⟨?_, ?_⟩, by simp [resolved]⟩
      · exact asked_le_policy hnanos hbase (hhint.imp_left Eq.symm)
      · have hslack : 0 < slack hint := by unfold slack; split <;> decide
        exact (le_max_left _ _).trans_lt (lt_add_of_pos_right _ hslack)
    | some time =>
      rw [← hreq]
      have heff : (resolved policyMs policy (some time)).effectiveNextRunAt.1 =
          max policy.1 time.1 := by
        rw [resolved]
        split_ifs with hlt
        · exact (max_eq_right hlt.le).symm
        · exact (max_eq_left (not_lt.mp hlt)).symm
      rw [heff]
      refine ⟨rfl, le_max_left _ _, fun nanos hnanos => ?_, ?_⟩
      · have hbounds := asked_le_hinted hnanos (Option.filter_eq_some_iff.mp hreq.symm).1
        omega
      · rw [resolved]
        split_ifs with hlt <;> simp [hlt]

end RetryTiming

end Batter.Runledger.Postgres
