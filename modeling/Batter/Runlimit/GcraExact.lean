import Batter.Runlimit.Memory.StoreSteps
import Batter.Runlimit.Postgres.GcraLimiter

/-!
# Runlimit: GCRA arithmetic is total and its delays are exact

An arrival time that an evaluation of a policy returned is never further ahead of a
later time than the burst span.  From such a state every number of an evaluation fits:
`exists_evaluate` asks for the two sums below `u128::MAX` and for the delay of a denial
below `u64::MAX`.

Delays are rounded up and exact.  Against the same arrival time a denied check is
denied at every time before its delay has passed and allowed at every later one.
-/

namespace Batter.Runlimit

open RustStd

variable {now : Nat} {denial : QuotaDenial}

/-- A delay of whole milliseconds is exact: what it delays is refused before it has
passed and granted from then on, so also after its whole seconds. -/
structure Delay.Exact (delay : Delay) (millis : Nat) (refused granted : Nat → Prop) : Prop where
  isMillis : delay.IsMillis millis
  before : ∀ later < millis, refused later
  after : ∀ later, millis ≤ later → granted later
  afterSeconds : granted (1000 * delay.seconds)

theorem Delay.Exact.of_fromMillis {millis : Nat} {refused granted : Nat → Prop}
    (hfits : millis ≤ u64Max) (hbefore : ∀ later < millis, refused later)
    (hafter : ∀ later, millis ≤ later → granted later) :
    Delay.Exact ⟨.fromMillis millis hfits⟩ millis refused granted :=
  ⟨rfl, hbefore, hafter, hafter _ (Delay.IsMillis.le_seconds rfl hfits)⟩

namespace Gcra

theorem burstSpan_le (policy : GcraPolicy) : burstSpan policy ≤ maxLimit * maxWindowMillis :=
  calc burstSpan policy ≤ policy.quota.get * maxWindowMillis :=
        (ceilDiv_le_iff_le_mul policy.quota.pos).mp policy.refill_le
    _ ≤ maxLimit * maxWindowMillis := Nat.mul_le_mul_right _ policy.quota.le_maxLimit

theorem debt_add (policy : GcraPolicy) (now later : Nat) (tat : Option Nat) :
    debt policy (now + later) tat = debt policy now tat - policy.quota.get * later := by
  rw [debt, debt, Nat.mul_add, Nat.sub_sub]

variable [Sha256] {check : Check GcraPolicy} {tat : Option Nat} {pending : PendingAllowance}

/-- An evaluation whose numbers fit returns. -/
theorem exists_evaluate (h : Fits check now tat)
    (hretry : (load check now tat - burstSpan check.policy) ⌈/⌉ check.policy.quota.get ≤ u64Max) :
    ∃ e, evaluate check now tat = .ok e := by
  obtain ⟨-, heval⟩ | ⟨-, hfits, havail, heval⟩ := evaluate_cases h
  · exact ⟨_, heval.trans (bind_eq_ok.mpr ⟨_, duration_eq_ok.mpr ⟨hretry, rfl⟩, rfl⟩)⟩
  · exact ⟨_, heval⟩

/-- What an allowed evaluation returns. -/
theorem allowed_of_evaluate (h : evaluate check now tat = .ok (.allowed pending)) :
    load check now tat ≤ burstSpan check.policy ∧
    pending.tatScaled = check.policy.quota.get * now + load check now tat ∧
    pending.expiresAtMillis = now + load check now tat ⌈/⌉ check.policy.quota.get ∧
    ∃ hfits, pending.allowance.replenishesAfter =
      ⟨.fromMillis (load check now tat ⌈/⌉ check.policy.quota.get) hfits⟩ := by
  obtain ⟨-, hfits, he⟩ | ⟨hle, hfits, havail, he⟩ := evaluate_eq_ok h
  · cases he
  · cases he
    exact ⟨hle, rfl, rfl, hfits, rfl⟩

/-- Within the range of the clock, a debt within the burst span keeps every number in range. -/
theorem exists_evaluate_of_debt_le (hnow : now ≤ u64Max)
    (hdebt : debt check.policy now tat ≤ burstSpan check.policy) :
    (load check now tat - burstSpan check.policy) ⌈/⌉ check.policy.quota.get ≤ maxWindowMillis ∧
      ∃ e, evaluate check now tat = .ok e := by
  have hscaled := Nat.mul_le_mul check.policy.quota.le_maxLimit hnow
  have hspan := burstSpan_le check.policy
  have hinc := increment_le_burstSpan check
  have hbound : maxLimit * u64Max + 2 * (maxLimit * maxWindowMillis) ≤ u128Max := by decide
  have hload : load check now tat ≤ 2 * burstSpan check.policy := by rw [load]; omega
  have hretry := ceilDiv_le_maxWindow
    (by omega : load check now tat - burstSpan check.policy ≤ burstSpan check.policy)
  exact ⟨hretry, exists_evaluate ⟨by omega, by omega⟩ (hretry.trans maxWindowMillis_le_u64Max)⟩

/-- A policy's arrival times at a time: those that its allowed evaluations returned
until then. -/
def Produced (policy : GcraPolicy) (now : Nat) (tat : Option Nat) : Prop :=
  ∀ scaled ∈ tat, ∃ (check : Check GcraPolicy) (earlier : Nat) (before : Option Nat)
    (pending : PendingAllowance), check.policy = policy ∧ earlier ≤ now ∧
      evaluate check earlier before = .ok (.allowed pending) ∧ pending.tatScaled = scaled

theorem Produced.debt_le {policy : GcraPolicy} (h : Produced policy now tat) :
    debt policy now tat ≤ burstSpan policy := by
  cases tat with
  | none => simp [debt]
  | some tat =>
    obtain ⟨check, earlier, before, pending, rfl, hearlier, hallowed, rfl⟩ := h tat rfl
    obtain ⟨hle, htat, -⟩ := allowed_of_evaluate hallowed
    have hscaled := Nat.mul_le_mul_left check.policy.quota.get hearlier
    rw [debt, Option.getD_some]
    omega

/-- An allowance offers at most the burst capacity, and every delay is at most the
longest window. -/
def Evaluation.IsBounded (policy : GcraPolicy) : Evaluation → Prop
  | .denied denial => ∃ millis ≤ maxWindowMillis, denial.retryAfter.IsMillis millis
  | .allowed pending => pending.allowance.available ≤ policy.burstCapacity.get ∧
    ∃ millis ≤ maxWindowMillis, pending.allowance.replenishesAfter.IsMillis millis

/-- On an arrival time that the policy produced, and on none, an evaluation never
overflows and stays within the policy's bounds.  What it lets the limiter store passes
the limiter's own check of a stored row and fits its `BIGINT` column. -/
theorem arithmetic_never_fails (check : Check GcraPolicy) (now : Nat) (tat : Option Nat) :
    (now ≤ u64Max → Produced check.policy now tat →
      ∃ e, evaluate check now tat = .ok e ∧ e.IsBounded check.policy) ∧
    ∀ pending, evaluate check now tat = .ok (.allowed pending) →
      pending.tatScaled ⌈/⌉ check.policy.quota.get = pending.expiresAtMillis ∧
      (∀ next : Check GcraPolicy, next.policy = check.policy →
        Postgres.Gcra.readRow next (some ⟨pending.tatScaled, pending.expiresAtMillis⟩) =
          .ok (some (pending.tatScaled, pending.expiresAtMillis))) ∧
      (now ≤ i64Max - maxWindowMillis → pending.expiresAtMillis ≤ i64Max) := by
  constructor
  · intro hnow hproduced
    obtain ⟨hretry, e, he⟩ := exists_evaluate_of_debt_le hnow hproduced.debt_le
    refine ⟨e, he, ?_⟩
    obtain ⟨-, hfits, rfl⟩ | ⟨hle, hfits, havail, rfl⟩ := evaluate_eq_ok he
    · exact ⟨_, hretry, rfl⟩
    · exact ⟨havail, _, ceilDiv_le_maxWindow hle, rfl⟩
  · intro pending hallowed
    have hfits := (fits_of_evaluate hallowed).candidate
    obtain ⟨hle, htat, hexp, -⟩ := allowed_of_evaluate hallowed
    have hrounded := ceilDiv_le_maxWindow hle
    have hsame : pending.tatScaled ⌈/⌉ check.policy.quota.get = pending.expiresAtMillis := by
      have hq := check.policy.quota.pos
      rw [htat, hexp, Nat.ceilDiv_eq_add_pred_div, Nat.ceilDiv_eq_add_pred_div, Nat.add_assoc,
        Nat.add_sub_assoc (by omega), Nat.mul_add_div hq]
    refine ⟨hsame, ?_, ?_⟩
    · intro next hnext
      rw [← htat] at hfits
      simp [Postgres.Gcra.readRow, hnext, hsame, not_lt.mpr hfits]
    · intro hnow
      have hi64 : maxWindowMillis ≤ i64Max := by decide
      omega

/-- The burst span is exceeded until the rounded-up delay has passed. -/
theorem exceeds_later_iff (check : Check GcraPolicy) (now later : Nat) (tat : Option Nat) :
    burstSpan check.policy < load check (now + later) tat ↔
      later < (load check now tat - burstSpan check.policy) ⌈/⌉ check.policy.quota.get := by
  have hinc := increment_le_burstSpan check
  rw [← not_iff_not, not_lt, not_lt, ceilDiv_le_iff_le_mul check.policy.quota.pos, load, load,
    debt_add]
  omega

/-- A check is allowed at a time, at least unless its evaluation overflows, which it
does not within the range of the clock. -/
structure AllowedAt (check : Check GcraPolicy) (tat : Option Nat) (now : Nat) : Prop where
  never_denied : ∀ denial, evaluate check now tat ≠ .ok (.denied denial)
  allowed : now ≤ u64Max → ∃ pending, evaluate check now tat = .ok (.allowed pending)

theorem allowedAt_of_le (h : load check now tat ≤ burstSpan check.policy) :
    AllowedAt check tat now where
  never_denied := by
    intro denial hdenied
    obtain ⟨hover, -⟩ | ⟨-, hfits, havail, he⟩ := evaluate_eq_ok hdenied
    · exact absurd h (not_le.mpr hover)
    · cases he
  allowed := by
    intro hnow
    obtain ⟨-, e, he⟩ := exists_evaluate_of_debt_le hnow (le_of_add_le_left h)
    obtain ⟨hover, -⟩ | ⟨-, hfits, havail, rfl⟩ := evaluate_eq_ok he
    · exact absurd h (not_le.mpr hover)
    · exact ⟨_, he⟩

/-- The delay of a denied check, against the arrival time it was denied on. -/
def RetryExact (check : Check GcraPolicy) (now : Nat) (tat : Option Nat) (delay : Delay) : Prop :=
  ∃ millis, delay.Exact millis
    (fun later => ∃ denial, evaluate check (now + later) tat = .ok (.denied denial))
    (fun later => AllowedAt check tat (now + later))

theorem retryExact_of_denied (h : evaluate check now tat = .ok (.denied denial)) :
    RetryExact check now tat denial.retryAfter := by
  obtain ⟨hcand, hceiling⟩ := fits_of_evaluate h
  obtain ⟨-, hretry, he⟩ | ⟨-, hfits, havail, he⟩ := evaluate_eq_ok h
  · cases he
    refine ⟨_, .of_fromMillis hretry ?_ ?_⟩
    · intro later hlater
      have hover := (exceeds_later_iff check now later tat).mpr hlater
      have hinc := increment_le_burstSpan check
      have hload : check.policy.quota.get * later + load check (now + later) tat =
          load check now tat := by
        rw [load, debt_add] at hover ⊢
        rw [load]
        omega
      have hq := check.policy.quota.pos
      rw [ceilDiv_le_iff_le_mul hq] at hretry
      obtain ⟨e, he⟩ := exists_evaluate ⟨by rw [Nat.mul_add]; omega, by rw [Nat.mul_add]; omega⟩
        ((ceilDiv_le_iff_le_mul hq).mpr
          (by omega : load check (now + later) tat - burstSpan check.policy ≤ _))
      obtain ⟨-, hfits, rfl⟩ | ⟨hle, -⟩ := evaluate_eq_ok he
      · exact ⟨_, he⟩
      · exact absurd hle (not_le.mpr hover)
    · intro later hlater
      exact allowedAt_of_le (not_lt.mp (mt (exceeds_later_iff check now later tat).mp
        (not_lt.mpr hlater)))
  · cases he

/-- The delay of an allowance, for a full burst against the arrival time it left. -/
def ReplenishExact (check : Check GcraPolicy) (now : Nat) (pending : PendingAllowance) : Prop :=
  ∀ full : Check GcraPolicy, full.policy = check.policy →
    full.cost = check.policy.burstCapacity.get →
      ∃ millis, pending.allowance.replenishesAfter.Exact millis
        (fun later => ∀ next,
          evaluate full (now + later) (some pending.tatScaled) ≠ .ok (.allowed next))
        (fun later => AllowedAt full (some pending.tatScaled) (now + later))

theorem replenishExact_of_allowed (h : evaluate check now tat = .ok (.allowed pending)) :
    ReplenishExact check now pending := by
  intro full hpol hcost
  obtain ⟨hle, htat, -, hfits, hreplenish⟩ := allowed_of_evaluate h
  have hinc : increment full = burstSpan full.policy := by
    rw [increment, burstSpan, hcost, hpol]
  have hdebt : debt full.policy now (some pending.tatScaled) = load check now tat := by
    rw [hpol, debt, Option.getD_some, htat, Nat.add_sub_cancel_left]
  have hlater : ∀ later, burstSpan full.policy <
      load full (now + later) (some pending.tatScaled) ↔
        later < load check now tat ⌈/⌉ check.policy.quota.get := by
    intro later
    rw [exceeds_later_iff, load, hdebt, hinc, Nat.add_sub_cancel, hpol]
  rw [hreplenish]
  refine ⟨_, .of_fromMillis hfits ?_ ?_⟩
  · intro later hearly next hallowed
    exact absurd (allowed_of_evaluate hallowed).1 (not_le.mpr ((hlater later).mpr hearly))
  · intro later hlate
    exact allowedAt_of_le (not_lt.mp (mt (hlater later).mp (not_lt.mpr hlate)))

end Gcra

namespace MemoryStore

/-- The delay of a denied check is exact and what is left of its window. -/
def RetryExact (shard : Shard Entry) (check : PreparedCheck) (now : Nat) (delay : Delay) : Prop :=
  ∃ active, shard.activeEntry check.counterKey now = some active ∧
    delay.Exact (active.2 - now)
      (fun later => ∃ denial, quotaDenial shard check (now + later) = .ok (some denial))
      (fun later => quotaDenial shard check (now + later) = .ok none)

theorem retryExact_of_quotaDenial {shard : Shard Entry} {check : PreparedCheck}
    (h : quotaDenial shard check now = .ok (some denial)) :
    RetryExact shard check now denial.retryAfter := by
  unfold quotaDenial at h
  cases hact : shard.activeEntry check.counterKey now with
  | none => simp [hact] at h
  | some active =>
    obtain ⟨entry, expiresAt⟩ := active
    have hlook := (Shard.activeEntry_eq_some.mp hact).1
    by_cases hcost : check.cost > remainingQuota check.limit entry.used
    · simp only [hact, if_pos hcost] at h
      obtain ⟨retryAfter, hretry, h⟩ := bind_eq_ok.mp h
      unfold durationFromMillis Shard.durationFromMillis at hretry
      split_ifs at hretry with hfits
      cases hretry
      cases h
      refine ⟨_, hact, .of_fromMillis hfits ?_ ?_⟩
      · intro later hlater
        have hopen : expiresAt > now + later := by omega
        have hfits' : expiresAt - (now + later) ≤ u64Max := by omega
        simp [quotaDenial, Shard.activeEntry, hlook, hopen, hcost,
          durationFromMillis_eq_ok hfits', bind, Except.bind, pure, Except.pure]
      · intro later hlater
        have hclosed : ¬ expiresAt > now + later := by omega
        simp [quotaDenial, Shard.activeEntry, hlook, hclosed]
    · simp [hact, hcost] at h

end MemoryStore

/-- Retry delays are sufficient and minimal: a denied check is denied again until its
delay has passed, and a replenished bucket takes a full burst no sooner than it says. -/
theorem retry_delays_are_exact [Sha256] (now : Nat) :
    (∀ (check : Check GcraPolicy) tat denial, Gcra.evaluate check now tat = .ok (.denied denial) →
      Gcra.RetryExact check now tat denial.retryAfter) ∧
    (∀ (check : Check GcraPolicy) tat pending,
      Gcra.evaluate check now tat = .ok (.allowed pending) →
        Gcra.ReplenishExact check now pending) ∧
    ∀ shard check denial, MemoryStore.quotaDenial shard check now = .ok (some denial) →
      MemoryStore.RetryExact shard check now denial.retryAfter :=
  ⟨fun _ _ _ h => Gcra.retryExact_of_denied h, fun _ _ _ h => Gcra.replenishExact_of_allowed h,
    fun _ _ _ h => MemoryStore.retryExact_of_quotaDenial h⟩

end Batter.Runlimit
