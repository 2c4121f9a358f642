import Batter.Runlimit.Core.Check

/-!
# Runlimit: exact GCRA transition arithmetic

`evaluate` is the storage-independent transition of the generic cell rate
algorithm.  It works on `u128` numbers scaled by the policy's quota and fails
with `ArithmeticOverflow` when one of them is not representable.

`evaluate_eq_ok` is its specification.  The state enters only through the
*debt*, the scaled distance of the stored arrival time from now: the check is
allowed exactly when the debt and its own increment fit the burst span.
-/

namespace Batter.Runlimit
namespace Gcra

open RustStd

/-- Exact arithmetic could not represent the supplied state or clock. -/
structure ArithmeticOverflow where
deriving DecidableEq

/-- An evaluated but not yet persisted GCRA transition. -/
structure PendingAllowance where
  tatScaled : Nat
  expiresAtMillis : Nat
  allowance : Allowance
deriving DecidableEq

/-- The provisional result of one pure GCRA evaluation. -/
inductive Evaluation where
  | allowed (pending : PendingAllowance)
  | denied (denial : QuotaDenial)
deriving DecidableEq

/-- `ok_or(ArithmeticOverflow)`. -/
def orOverflow {α : Type} : Option α → Except ArithmeticOverflow α
  | some a => .ok a
  | none => .error ⟨⟩

/-- `duration`: whole milliseconds as a `Duration`. -/
def duration (millis : Nat) : Except ArithmeticOverflow Duration :=
  if h : millis ≤ u64Max then .ok (.fromMillis millis h) else .error ⟨⟩

theorem orOverflow_eq_ok {α : Type} {o : Option α} {a : α} : orOverflow o = .ok a ↔ o = some a := by
  cases o <;> simp [orOverflow]

theorem duration_eq_ok {millis : Nat} {d : Duration} :
    duration millis = .ok d ↔ ∃ h, d = .fromMillis millis h := by
  unfold duration
  split_ifs with h
  · simp [h, eq_comm]
  · simp [h]

variable (policy : GcraPolicy)

/-- The burst span: the tokens of a full bucket, scaled by the period. -/
def burstSpan : Nat :=
  policy.burstCapacity.get * policy.period.millis

/-- Scaled distance of a stored arrival time from now. -/
def debt (nowMillis : Nat) (tatScaled : Option Nat) : Nat :=
  tatScaled.getD 0 - policy.quota.get * nowMillis

/-- The arrival time that counts is the debt ahead of now. -/
theorem activeTat_eq (now : Nat) (tatScaled : Option Nat) :
    max (tatScaled.getD (now * policy.quota.get)) (now * policy.quota.get) =
      policy.quota.get * now + debt policy now tatScaled := by
  rw [debt, Nat.mul_comm]
  cases tatScaled with
  | none => simp
  | some tat => simp only [Option.getD_some]; omega

/-- Any amount within the burst span refills within the longest window. -/
theorem ceilDiv_le_maxWindow {policy : GcraPolicy} {amount : Nat} (h : amount ≤ burstSpan policy) :
    amount ⌈/⌉ policy.quota.get ≤ maxWindowMillis := by
  have hq := policy.quota.pos
  rw [ceilDiv_le_iff_le_mul hq]
  exact le_trans h ((ceilDiv_le_iff_le_mul hq).mp policy.refill_le)

variable [Sha256]

section

variable (check : Check GcraPolicy)

/-- `evaluate`: one validated check against the previously persisted arrival
time, or none for a missing or expired counter. -/
def evaluate (nowMillis : Nat) (tatScaled : Option Nat) : Except ArithmeticOverflow Evaluation := do
  let quota := check.policy.quota.get
  let period := check.policy.period.millis
  let capacity := check.policy.burstCapacity
  let scaledNow ← orOverflow (checkedMul u128Max nowMillis quota)
  let activeTat := max (tatScaled.getD scaledNow) scaledNow
  let increment ← orOverflow (checkedMul u128Max check.cost period)
  let candidate ← orOverflow (checkedAdd u128Max activeTat increment)
  let burstSpan ← orOverflow (checkedMul u128Max capacity.get period)
  let ceiling ← orOverflow (checkedAdd u128Max scaledNow burstSpan)
  if candidate > ceiling then
    let retry := (candidate - ceiling) ⌈/⌉ quota
    let retryAfter ← duration retry
    return .denied (QuotaDenial.new capacity retryAfter)
  else
    let available ← orOverflow (tryFrom u64Max ((ceiling - candidate) / period))
    let replenish := (candidate - scaledNow) ⌈/⌉ quota
    let expiresAtMillis ← orOverflow (checkedAdd u128Max nowMillis replenish)
    let replenishesAfter ← duration replenish
    match Allowance.new capacity available replenishesAfter with
    | .error _ => throw ⟨⟩
    | .ok allowance => return .allowed ⟨candidate, expiresAtMillis, allowance⟩

/-- The scaled cost of a check. -/
def increment : Nat :=
  check.cost * check.policy.period.millis

theorem increment_pos : 0 < increment check :=
  Nat.mul_pos check.cost_pos check.policy.period.pos

theorem increment_le_burstSpan : increment check ≤ burstSpan check.policy :=
  Nat.mul_le_mul_right _ check.cost_le

end

section Specification

variable {check : Check GcraPolicy} {now : Nat} {tat : Option Nat}

/-- The debt is all that counts of an arrival time. -/
theorem evaluate_congr {tat' : Option Nat}
    (h : debt check.policy now tat = debt check.policy now tat') :
    evaluate check now tat = evaluate check now tat' := by
  unfold evaluate
  dsimp only
  cases hscaled : checkedMul u128Max now check.policy.quota.get with
  | none => rfl
  | some scaledNow =>
    obtain ⟨-, rfl⟩ := checkedMul_eq_some.mp hscaled
    have hactive : max (tat.getD (now * check.policy.quota.get)) (now * check.policy.quota.get) =
        max (tat'.getD (now * check.policy.quota.get)) (now * check.policy.quota.get) := by
      rw [activeTat_eq, activeTat_eq, h]
    dsimp only [orOverflow, bind, Except.bind]
    rw [hactive]

/-- The debt that a check would leave. -/
def load (check : Check GcraPolicy) (now : Nat) (tat : Option Nat) : Nat :=
  debt check.policy now tat + increment check

theorem load_eq (check : Check GcraPolicy) (now : Nat) (tat : Option Nat) :
    load check now tat = debt check.policy now tat + increment check :=
  rfl

/-- The sums of an evaluation fit into `u128`. -/
structure Fits (check : Check GcraPolicy) (now : Nat) (tat : Option Nat) : Prop where
  candidate : check.policy.quota.get * now + load check now tat ≤ u128Max
  ceiling : check.policy.quota.get * now + burstSpan check.policy ≤ u128Max

theorem fits_of_evaluate {e : Evaluation} (h : evaluate check now tat = .ok e) :
    Fits check now tat := by
  unfold evaluate at h
  obtain ⟨scaledNow, hscaled, h⟩ := bind_eq_ok.mp h
  obtain ⟨inc, hinc, h⟩ := bind_eq_ok.mp h
  obtain ⟨cand, hcand, h⟩ := bind_eq_ok.mp h
  obtain ⟨span, hspan, h⟩ := bind_eq_ok.mp h
  obtain ⟨ceiling, hceiling, -⟩ := bind_eq_ok.mp h
  rw [orOverflow_eq_ok, checkedMul_eq_some] at hscaled hinc hspan
  rw [orOverflow_eq_ok, checkedAdd_eq_some] at hcand hceiling
  rw [hscaled.2, activeTat_eq, hinc.2, Nat.add_assoc] at hcand
  rw [hscaled.2, hspan.2, Nat.mul_comm now] at hceiling
  exact ⟨hcand.1, hceiling.1⟩

/-- What an evaluation comes to whose sums fit; only the delay of a denial may still be too
long. -/
theorem evaluate_cases (h : Fits check now tat) :
    (burstSpan check.policy < load check now tat ∧ evaluate check now tat = (do
      let retryAfter ← duration
        ((load check now tat - burstSpan check.policy) ⌈/⌉ check.policy.quota.get)
      return .denied (QuotaDenial.new check.policy.burstCapacity retryAfter))) ∨
    (load check now tat ≤ burstSpan check.policy ∧ ∃ hfits havail, evaluate check now tat =
      .ok (.allowed ⟨check.policy.quota.get * now + load check now tat,
        now + load check now tat ⌈/⌉ check.policy.quota.get,
        ⟨check.policy.burstCapacity,
          (burstSpan check.policy - load check now tat) / check.policy.period.millis,
          ⟨Duration.fromMillis (load check now tat ⌈/⌉ check.policy.quota.get) hfits⟩,
          havail⟩⟩)) := by
  obtain ⟨hcand, hceiling⟩ := h
  have hq := check.policy.quota.pos
  have hincrement := increment_le_burstSpan check
  have hnow : checkedMul u128Max now check.policy.quota.get =
      some (check.policy.quota.get * now) :=
    checkedMul_eq_some.mpr ⟨by rw [Nat.mul_comm]; omega, Nat.mul_comm _ _⟩
  have hinc : checkedMul u128Max check.cost check.policy.period.millis = some (increment check) :=
    checkedMul_eq_some.mpr ⟨by rw [← increment]; omega, rfl⟩
  have hspan : checkedMul u128Max check.policy.burstCapacity.get check.policy.period.millis =
      some (burstSpan check.policy) :=
    checkedMul_eq_some.mpr ⟨by rw [← burstSpan]; omega, rfl⟩
  have htat := activeTat_eq check.policy now tat
  rw [Nat.mul_comm now] at htat
  have hsum : checkedAdd u128Max (check.policy.quota.get * now + debt check.policy now tat)
      (increment check) = some (check.policy.quota.get * now + load check now tat) :=
    checkedAdd_eq_some.mpr ⟨by rw [Nat.add_assoc]; exact hcand, (Nat.add_assoc _ _ _).symm⟩
  simp only [evaluate, hnow, hinc, hspan, orOverflow, bind, Except.bind, htat, hsum,
    checkedAdd_eq_some.mpr ⟨hceiling, rfl⟩]
  split_ifs with hover
  · rw [Nat.add_sub_add_left]
    exact .inl ⟨by omega, rfl⟩
  · have hle : load check now tat ≤ burstSpan check.policy := by omega
    have havail : (burstSpan check.policy - load check now tat) / check.policy.period.millis ≤
        check.policy.burstCapacity.get :=
      Nat.div_le_of_le_mul (by rw [Nat.mul_comm, ← burstSpan]; exact Nat.sub_le _ _)
    have hfits := havail.trans (check.policy.burstCapacity.le_maxLimit.trans
      (by decide : maxLimit ≤ u64Max))
    have hreplenish := (ceilDiv_le_maxWindow hle).trans maxWindowMillis_le_u64Max
    have hrounded : load check now tat ⌈/⌉ check.policy.quota.get ≤ load check now tat :=
      (ceilDiv_le_iff_le_mul hq).mpr (Nat.le_mul_of_pos_left _ hq)
    have hscaled := Nat.le_mul_of_pos_left now hq
    have hexp : now + load check now tat ⌈/⌉ check.policy.quota.get ≤ u128Max := by omega
    rw [Nat.add_sub_add_left, Nat.add_sub_cancel_left, tryFrom_eq_some.mpr ⟨hfits, rfl⟩,
      checkedAdd_eq_some.mpr ⟨hexp, rfl⟩, duration, dif_pos hreplenish]
    simp only [Allowance.new_eq_ok havail]
    exact .inr ⟨hle, hreplenish, havail, rfl⟩

/-- Specification of `evaluate`. -/
theorem evaluate_eq_ok {e : Evaluation} (h : evaluate check now tat = .ok e) :
    (burstSpan check.policy < load check now tat ∧
      ∃ hfits, e = .denied (.new check.policy.burstCapacity (.fromMillis
        ((load check now tat - burstSpan check.policy) ⌈/⌉ check.policy.quota.get) hfits))) ∨
    (load check now tat ≤ burstSpan check.policy ∧ ∃ hfits havail, e =
      .allowed ⟨check.policy.quota.get * now + load check now tat,
        now + load check now tat ⌈/⌉ check.policy.quota.get,
        ⟨check.policy.burstCapacity,
          (burstSpan check.policy - load check now tat) / check.policy.period.millis,
          ⟨.fromMillis (load check now tat ⌈/⌉ check.policy.quota.get) hfits⟩,
          havail⟩⟩) := by
  obtain ⟨hover, heval⟩ | ⟨hle, hfits, havail, heval⟩ := evaluate_cases (fits_of_evaluate h)
  · rw [heval] at h
    obtain ⟨retryAfter, hretry, h⟩ := bind_eq_ok.mp h
    obtain ⟨hfits, rfl⟩ := duration_eq_ok.mp hretry
    exact .inl ⟨hover, hfits, (Except.ok.inj h).symm⟩
  · rw [heval] at h
    exact .inr ⟨hle, hfits, havail, (Except.ok.inj h).symm⟩

end Specification

end Gcra

/-- One login per second for each subject, without a burst. -/
def pacedLoginPolicy : GcraPolicy where
  id := loginPolicy.id
  scope := loginPolicy.scope
  quota := loginPolicy.limit
  period := ⟨1000, loginPolicy.window.pos, loginPolicy.window.le_maxWindow⟩
  burstCapacity := loginPolicy.limit
  quotaMode := .enforce
  refill_le := by norm_num [Nat.ceilDiv_eq_add_pred_div, maxWindowMillis, loginPolicy]

/-- The digest of `pacedLoginPolicy`. -/
@[reducible] def pacedLoginSha256 : Sha256 :=
  .ofTable [(pacedLoginPolicy.fingerprintInput,
    0x713dfb72e8fd89fd58f03c124531c5cfa2a0b513ab002bee87f1eaaca8aa7d88)]

end Batter.Runlimit
