import Batter.Runlimit.Core.Decision

/-!
# Runlimit: checks and atomic batches

A check is one proposed quota charge against a policy and an opaque subject.
Its cost is at least one and at most the policy's capacity.

`validateBatch` is the structural validation of an atomic batch.
`validateBatch_eq_ok_iff` says what it accepts: a nonempty batch within the
bound, of one quota mode, whose counter keys are pairwise different.
-/

namespace Batter.Runlimit

open RustStd Bytes List

/-- The complete logical identity of one stored rate-limit counter. -/
structure CounterKey where
  fingerprint : Bytes32
  subject : Bytes32
deriving DecidableEq

namespace CounterKey

@[ext] theorem ext
    {a b : CounterKey}
    (hf : a.fingerprint = b.fingerprint)
    (hs : a.subject = b.subject) :
    a = b := by
  cases a
  cases b
  simp_all

/-- The pair of components, in the order of the derived comparison. -/
def toLexPair (key : CounterKey) : Nat ×ₗ Nat :=
  toLex (key.fingerprint.toNat, key.subject.toNat)

theorem toLexPair_injective : Function.Injective toLexPair := by
  intro a b h
  simp only [toLexPair, EmbeddingLike.apply_eq_iff_eq, Prod.mk.injEq] at h
  exact ext (BitVec.eq_of_toNat_eq h.1) (BitVec.eq_of_toNat_eq h.2)

instance : LinearOrder CounterKey :=
  .lift' toLexPair toLexPair_injective

end CounterKey

/-- One proposed quota charge, of a cost that `with_cost` admits. -/
structure Check (P : Type) [RateLimitPolicy P] where
  policy : P
  subject : Bytes32
  cost : Nat
  cost_pos : 0 < cost
  cost_le : cost ≤ (RateLimitPolicy.capacity policy).get

section Check

variable {P : Type} [RateLimitPolicy P]

/-- `Check::new`: a check of cost one. -/
def Check.new (policy : P) (subject : Bytes32) : Check P :=
  ⟨policy, subject, 1, Nat.one_pos, (RateLimitPolicy.capacity policy).pos⟩

def Check.counterKey (check : Check P) : CounterKey :=
  ⟨RateLimitPolicy.fingerprint check.policy, check.subject⟩

/-- The quota mode of a check's policy. -/
def Check.quotaMode (check : Check P) : QuotaMode :=
  RateLimitPolicy.quotaMode check.policy

/-- Among checks of distinct keys a key selects one. -/
theorem filter_counterKey_eq_singleton {checks : List (Check P)} {target : Check P}
    (hkeys : (checks.map Check.counterKey).Nodup) (h : target ∈ checks) :
    checks.filter (fun check => check.counterKey = target.counterKey) = [target] := by
  induction checks with
  | nil => simp at h
  | cons head rest ih =>
    rw [map_cons, nodup_cons] at hkeys
    rcases mem_cons.mp h with rfl | h
    · rw [filter_cons_of_pos (by simp), filter_eq_nil_iff.mpr]
      intro check hcheck
      simpa using fun heq => hkeys.1 (mem_map.mpr ⟨check, hcheck, heq⟩)
    · have hne : head.counterKey ≠ target.counterKey :=
        fun heq => hkeys.1 (mem_map.mpr ⟨target, h, heq.symm⟩)
      rw [filter_cons_of_neg (by simpa using hne), ih hkeys.2 h]

end Check

/-- A backend-independent invalid atomic batch. -/
inductive BatchError where
  | emptyBatch
  | duplicateKey (firstIndex duplicateIndex : Nat)
  | batchTooLarge (actual maximum : Nat)
  | mixedQuotaModes (first : QuotaMode) (index : Nat) (actual : QuotaMode)
deriving DecidableEq

section Batch

variable {P : Type} [RateLimitPolicy P]

/-- The loop of `validate_batch`: `firstIndices` maps the keys seen so far to
their first position. -/
def validateMembers (firstMode : QuotaMode) :
    Finmap (fun _ : CounterKey => Nat) → Nat → List (Check P) → Except BatchError Unit
  | _, _, [] => .ok ()
  | firstIndices, index, check :: rest =>
    if check.quotaMode ≠ firstMode then
      .error (.mixedQuotaModes firstMode index check.quotaMode)
    else
      match firstIndices.lookup check.counterKey with
      | some firstIndex => .error (.duplicateKey firstIndex index)
      | none =>
        validateMembers firstMode (firstIndices.insert check.counterKey index)
          (index + 1) rest

def validateBatch (checks : List (Check P)) (maximum : Nat) : Except BatchError Unit :=
  match checks with
  | [] => .error .emptyBatch
  | first :: _ =>
    if checks.length > maximum then
      .error (.batchTooLarge checks.length maximum)
    else
      validateMembers first.quotaMode ∅ 0 checks

variable {checks : List (Check P)}

theorem validateMembers_eq_ok_iff
    {firstMode : QuotaMode} {firstIndices : Finmap (fun _ : CounterKey => Nat)} {index : Nat} :
    validateMembers firstMode firstIndices index checks = .ok () ↔
      (∀ check ∈ checks, check.quotaMode = firstMode) ∧
      (checks.map Check.counterKey).Nodup ∧
      ∀ check ∈ checks, check.counterKey ∉ firstIndices := by
  induction checks generalizing firstIndices index with
  | nil =>
    simp [validateMembers]
  | cons check rest ih =>
    unfold validateMembers
    by_cases hmode : check.quotaMode = firstMode
    · rw [if_neg (not_not.mpr hmode)]
      cases hlook : firstIndices.lookup check.counterKey with
      | some firstIndex =>
        have hmem : check.counterKey ∈ firstIndices := Finmap.mem_of_lookup_eq_some hlook
        simp [hmem]
      | none =>
        have hnew : check.counterKey ∉ firstIndices := Finmap.lookup_eq_none.mp hlook
        simp only [ih, forall_mem_cons, map_cons, nodup_cons,
          Finmap.mem_insert, not_or, hmode, hnew, true_and, not_false_eq_true,
          mem_map, not_exists, not_and]
        constructor
        · rintro ⟨hmodes, hnodup, hfresh⟩
          exact ⟨hmodes, ⟨fun c hc => (hfresh c hc).1, hnodup⟩,
            fun c hc => (hfresh c hc).2⟩
        · rintro ⟨hmodes, ⟨hne, hnodup⟩, hfresh⟩
          exact ⟨hmodes, hnodup, fun c hc => ⟨hne c hc, hfresh c hc⟩⟩
    · simp [hmode]

/-- What `validate_batch` accepts. -/
theorem validateBatch_eq_ok_iff {maximum : Nat} : validateBatch checks maximum = .ok () ↔
      checks ≠ [] ∧ checks.length ≤ maximum ∧
      (∀ c ∈ checks, ∀ d ∈ checks, c.quotaMode = d.quotaMode) ∧
      (checks.map Check.counterKey).Nodup := by
  cases checks with
  | nil =>
    simp [validateBatch]
  | cons first rest =>
    simp only [validateBatch]
    by_cases hlen : (first :: rest).length > maximum
    · rw [if_pos hlen]
      constructor
      · intro h
        cases h
      · rintro ⟨-, hle, -⟩
        omega
    · rw [if_neg hlen, validateMembers_eq_ok_iff]
      constructor
      · rintro ⟨hmodes, hnodup, -⟩
        refine ⟨cons_ne_nil _ _, not_lt.mp hlen, ?_, hnodup⟩
        intro c hc d hd
        rw [hmodes c hc, hmodes d hd]
      · rintro ⟨-, -, hmodes, hnodup⟩
        exact ⟨fun c hc => hmodes c hc first mem_cons_self, hnodup,
          fun c _ => Finmap.notMem_empty⟩

end Batch

end Batter.Runlimit
