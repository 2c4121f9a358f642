import Batter.Runlimit.Memory.Ideal

/-!
# Runlimit memory store: the GCRA store as token buckets

The GCRA store keeps one scaled arrival time per key and forgets it once it has
passed.  `gcra_store_refines_token_buckets` says that it cannot be told from
ideal token buckets, one for each counter key, except by storage denials and
arithmetic overflow.
-/

namespace Batter.Runlimit

open RustStd Runs

namespace GcraStore

variable [Sha256]

theorem judge_eq_some {check : Check GcraPolicy} {now : Nat} {active : Option (Entry × Nat)}
    {verdict : Verdict Entry} (h : gcraMeter.judge check now active = some verdict) :
    ∃ eval, Gcra.evaluate check now (activeTat active) = .ok eval ∧ verdict = verdictOf eval := by
  obtain ⟨eval, hevaluation, heq⟩ := Option.map_eq_some_iff.mp h
  exact ⟨eval, toOption_eq_some.mp hevaluation, heq.symm⟩

/-- Active arrival times represent token buckets. -/
def representsTokenBucket (policies : GcraPolicy → Prop)
    (hcoll : CollisionFree GcraPolicy.fingerprintInput policies) :
    Represents gcraMeter Gcra.tokenBucket policies where
  agrees key since active := Gcra.Owes policies key since fun t => activeTat (active t)
  initially key := Gcra.owes_initially policies key 0
  later := fun hle heq h => h.later hle fun t ht => congrArg activeTat (heq t ht)
  fails := by
    intro check nowMillis active bucket hpol h hjudge
    obtain ⟨overflow, heval⟩ := judge_eq_none.mp hjudge
    exact h.fails hpol heval
  denies := by
    intro check nowMillis active bucket denial hpol h _ hjudge
    obtain ⟨evaluation, heval, hverdict⟩ := judge_eq_some hjudge
    cases evaluation with
    | allowed pending => cases hverdict
    | denied denial' =>
      cases hverdict
      exact h.refuses hpol heval
  allows := by
    intro check nowMillis active bucket grant hpol h _ hjudge
    obtain ⟨evaluation, heval, hverdict⟩ := judge_eq_some hjudge
    cases evaluation with
    | denied denial => cases hverdict
    | allowed pending =>
      cases hverdict
      obtain ⟨hpermits, howes⟩ := h.permits hcoll hpol heval
      exact ⟨hpermits, howes.later le_rfl fun _ _ => apply_ite activeTat _ _ _⟩

end GcraStore

/-- Every run of the GCRA store is a run of ideal token buckets, one for each
counter key: an allowed check found at least `cost * period` scaled tokens and
reports what is left and when the bucket is full again, a quota denial found
fewer and reports when they will be there. -/
theorem gcra_store_refines_token_buckets [Sha256] (config : MemoryStoreConfig)
    (calls : List (Call GcraPolicy))
    (hcollision : CollisionFree GcraPolicy.fingerprintInput (UsedIn calls)) :
    ∃ events store,
      execute (GcraStore.limiter config).perform (GcraStore.build config) calls =
        .ok (events, store) ∧
      ∃ buckets, Run (IdealStep Gcra.tokenBucket config) IdealState.initial
        events buckets :=
  (GcraStore.limiter config).refines (GcraStore.representsTokenBucket (UsedIn calls) hcollision)

/-- Two logins of one subject, the second with a clock that went backwards. -/
def pacedLogins : letI : Sha256 := pacedLoginSha256; List (Call GcraPolicy) :=
  letI : Sha256 := pacedLoginSha256
  [.check (.new pacedLoginPolicy 7) (.fromMillis 1500 (by decide)),
    .checkAll [Check.new pacedLoginPolicy 7] (.fromMillis 1200 (by decide))]

/-- The refinement applies to the two logins. -/
theorem gcra_store_refines_token_buckets_logins : letI : Sha256 := pacedLoginSha256
    ∃ events store,
      execute (GcraStore.limiter singleKeyConfig).perform (GcraStore.build singleKeyConfig)
        pacedLogins = .ok (events, store) ∧
      ∃ buckets, Run (IdealStep Gcra.tokenBucket singleKeyConfig) IdealState.initial
        events buckets := by
  let _ : Sha256 := pacedLoginSha256
  refine gcra_store_refines_token_buckets singleKeyConfig pacedLogins fun p q hp hq _ => ?_
  have hused : ∀ policy, UsedIn pacedLogins policy → policy = pacedLoginPolicy := by
    rintro policy ⟨call, hcall, target, htgt, rfl⟩
    simp only [pacedLogins, List.mem_cons, List.not_mem_nil, or_false] at hcall
    rcases hcall with rfl | rfl <;>
      · obtain rfl := List.mem_singleton.mp htgt
        rfl
  rw [hused p hp, hused q hq]

end Batter.Runlimit
