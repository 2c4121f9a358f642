import Batter.Runlimit.Core.IdealCounter
import Batter.Runlimit.Memory.Representation

/-!
# Runlimit memory store: ideal counters

An ideal store keeps one counter for every key, forever, and knows nothing of
shards, capacities, pruning or batches.  `IdealStep` is the machine made of one
`IdealCounter` per key.  It charges exactly the checks that were allowed, and
time never runs backwards for a key.

`MemoryLimiter.refines` is the refinement rule: a memory store whose meter
represents an ideal counter, in the sense of `Represents`, takes only steps of
the ideal machine, whatever its configuration and whatever the calls.
-/

namespace Batter.Runlimit

open RustStd Runs List

/-- The counter of a key, nothing before its first charge, and the latest time
at which the key was used. -/
structure KeyState (S : Type) where
  clock : Nat
  counter : Option S

/-- The state of the ideal store. -/
abbrev IdealState (S : Type) := CounterKey → KeyState S

/-- No key has been used. -/
def IdealState.initial {S : Type} : IdealState S := fun _ => ⟨0, none⟩

/-- A call with its effective time and its result. -/
inductive Event (P : Type) [RateLimitPolicy P] (CheckError BatchError : Type) where
  | check (target : Check P) (nowMillis : Nat) (result : Except CheckError Decision)
  | checkAll (checks : List (Check P)) (nowMillis : Nat)
      (result : Except BatchError BatchDecision)

section Ideal

variable {P S : Type} [RateLimitPolicy P] {CheckError BatchError : Type}

/-- Time passes for the keys of some checks. -/
def IdealState.observe (state : IdealState S) (nowMillis : Nat) (checks : List (Check P)) :
    IdealState S :=
  fun key =>
    if key ∈ checks.map Check.counterKey then { state key with clock := nowMillis }
    else state key

/-- The checks are charged one after the other. -/
def IdealState.charge (ideal : IdealCounter P S) (nowMillis : Nat) :
    List (Check P) → IdealState S → IdealState S
  | [], state => state
  | target :: rest, state =>
    .charge ideal nowMillis rest
      (Function.update state target.counterKey
        ⟨nowMillis, some (ideal.charge target nowMillis (state target.counterKey).counter)⟩)

/-- The time of a call is not before the clocks of its keys. -/
def IdealState.Ready (state : IdealState S) (nowMillis : Nat) (checks : List (Check P)) : Prop :=
  ∀ target ∈ checks, (state target.counterKey).clock ≤ nowMillis

/-- The steps of the ideal store.  Storage denials and failures are no business
of the counters and change none of them. -/
inductive IdealStep (ideal : IdealCounter P S) (config : MemoryStoreConfig) :
    IdealState S → Event P CheckError BatchError → IdealState S → Prop
  | allowed (state : IdealState S) (target : Check P) (nowMillis : Nat) (allowance : Allowance)
      (hready : state.Ready nowMillis [target])
      (hpermits : ideal.permits target nowMillis (state target.counterKey).counter allowance) :
      IdealStep ideal config state (.check target nowMillis (.ok (Decision.allowed allowance)))
        (IdealState.charge ideal nowMillis [target] state)
  | quotaDenied (state : IdealState S) (target : Check P) (nowMillis : Nat) (denial : QuotaDenial)
      (hready : state.Ready nowMillis [target])
      (hrefuses : ideal.refuses target nowMillis (state target.counterKey).counter denial) :
      IdealStep ideal config state
        (.check target nowMillis (.ok (Decision.quotaDenied target.quotaMode denial)))
        (state.observe nowMillis [target])
  | storageCapacity (state : IdealState S) (target : Check P) (nowMillis : Nat)
      (retryAfter : Option Delay)
      (hready : state.Ready nowMillis [target]) :
      IdealStep ideal config state
        (.check target nowMillis (.ok (.denied (.storageCapacity retryAfter))))
        (state.observe nowMillis [target])
  | failed (state : IdealState S) (target : Check P) (nowMillis : Nat) (error : CheckError)
      (hfail : ideal.mayFail target nowMillis (state target.counterKey).counter) :
      IdealStep ideal config state (.check target nowMillis (.error error)) state
  | batchAllowed (state : IdealState S) (checks : List (Check P)) (nowMillis : Nat)
      (allowances : List Allowance) (hne : allowances ≠ [])
      (hready : state.Ready nowMillis checks)
      (hkeys : (checks.map Check.counterKey).Nodup)
      (hpermits : List.Forall₂ (fun target allowance =>
        ideal.permits target nowMillis (state target.counterKey).counter allowance)
        checks allowances) :
      IdealStep ideal config state (.checkAll checks nowMillis (.ok (.allowed allowances hne)))
        (IdealState.charge ideal nowMillis checks state)
  | batchQuotaDenied (state : IdealState S) (before : List (Check P)) (target : Check P)
      (after : List (Check P)) (nowMillis : Nat) (denial : QuotaDenial) (decision : BatchDecision)
      (hready : state.Ready nowMillis (before ++ target :: after))
      (hbefore : ∀ member ∈ before, ∃ allowance,
        ideal.permits member nowMillis (state member.counterKey).counter allowance)
      (hrefuses : ideal.refuses target nowMillis (state target.counterKey).counter denial)
      (hdec : BatchDecision.newQuotaDenied target.quotaMode before.length
        (before ++ target :: after).length denial = .ok decision) :
      IdealStep ideal config state
        (.checkAll (before ++ target :: after) nowMillis (.ok decision))
        (state.observe nowMillis (before ++ target :: after))
  | batchStorageCapacity (state : IdealState S) (checks : List (Check P)) (nowMillis : Nat)
      (index : Nat) (retryAfter : Option Delay) (hlt : index < checks.length)
      (hready : state.Ready nowMillis checks) :
      IdealStep ideal config state
        (.checkAll checks nowMillis
          (.ok (.denied index checks.length (.storageCapacity retryAfter) hlt)))
        (state.observe nowMillis checks)
  | batchFailed (state : IdealState S) (checks : List (Check P)) (nowMillis : Nat)
      (error : BatchError)
      (hfail : validateBatch checks config.maxBatchSize ≠ .ok () ∨
        (∃ index : Fin config.shardCount,
          config.shardCapacity index < (touchedBy config checks).count index) ∨
        ∃ target ∈ checks, ideal.mayFail target nowMillis (state target.counterKey).counter) :
      IdealStep ideal config state (.checkAll checks nowMillis (.error error)) state

/-- The time of an event. -/
def Event.nowMillis : Event P CheckError BatchError → Nat
  | .check _ nowMillis _ => nowMillis
  | .checkAll _ nowMillis _ => nowMillis

/-- The checks that an event let through. -/
def Event.charged : Event P CheckError BatchError → List (Check P)
  | .check target _ (.ok (.admitted (.allowed _))) => [target]
  | .checkAll checks _ (.ok (.allowed _ _)) => checks
  | _ => []

/-! ### Charges of distinct keys -/

variable {ideal : IdealCounter P S} {now : Nat} {target : Check P} {checks : List (Check P)}

theorem IdealState.charge_of_not_mem {key : CounterKey}
    (checks : List (Check P)) (state : IdealState S) (h : key ∉ checks.map Check.counterKey) :
    IdealState.charge ideal now checks state key = state key := by
  induction checks generalizing state with
  | nil => rfl
  | cons target rest ih =>
    rw [map_cons, mem_cons, not_or] at h
    rw [IdealState.charge, ih _ h.2, Function.update_of_ne h.1]

theorem IdealState.charge_of_mem {checks : List (Check P)} (state : IdealState S)
    (hkeys : (checks.map Check.counterKey).Nodup) (h : target ∈ checks) :
    IdealState.charge ideal now checks state target.counterKey =
      ⟨now, some (ideal.charge target now (state target.counterKey).counter)⟩ := by
  induction checks generalizing state with
  | nil => simp at h
  | cons head rest ih =>
    rw [map_cons, nodup_cons] at hkeys
    rw [IdealState.charge]
    rcases mem_cons.mp h with rfl | h
    · rw [IdealState.charge_of_not_mem _ _ hkeys.1, Function.update_self]
    · have hne : target.counterKey ≠ head.counterKey :=
        fun heq => hkeys.1 (heq ▸ mem_map_of_mem h)
      rw [ih _ hkeys.2 h, Function.update_of_ne hne]

theorem IdealState.observe_counter
    (state : IdealState S) (now : Nat) (checks : List (Check P)) (key : CounterKey) :
    (state.observe now checks key).counter = (state key).counter := by
  unfold IdealState.observe
  split_ifs <;> rfl

theorem IdealState.Ready.clock_le_observe {state : IdealState S} (h : state.Ready now checks)
    (key : CounterKey) : (state key).clock ≤ (state.observe now checks key).clock := by
  unfold IdealState.observe
  split_ifs with hin
  · obtain ⟨target, htgt, rfl⟩ := mem_map.mp hin
    exact h target htgt
  · exact le_rfl

/-- What a step does to a key: nothing but time passing, or one permitted charge. -/
theorem IdealStep.key_cases {config : MemoryStoreConfig} {state state' : IdealState S}
    {event : Event P CheckError BatchError} (h : IdealStep ideal config state event state')
    (key : CounterKey) :
    (key ∉ event.charged.map Check.counterKey ∧
      (state' key).counter = (state key).counter ∧ (state key).clock ≤ (state' key).clock) ∨
    ∃ target ∈ event.charged, target.counterKey = key ∧
      (event.charged.map Check.counterKey).Nodup ∧
      (state key).clock ≤ event.nowMillis ∧
      (∃ allowance, ideal.permits target event.nowMillis (state key).counter allowance) ∧
      state' key =
        ⟨event.nowMillis, some (ideal.charge target event.nowMillis (state key).counter)⟩ := by
  have hobserve : ∀ {now : Nat} {checks : List (Check P)}, state.Ready now checks →
      (state.observe now checks key).counter = (state key).counter ∧
        (state key).clock ≤ (state.observe now checks key).clock :=
    fun hready => ⟨state.observe_counter _ _ key, hready.clock_le_observe key⟩
  cases h with
  | allowed target now allowance hready hpermits =>
    by_cases hkey : key = target.counterKey
    · subst hkey
      exact .inr ⟨target, mem_singleton_self _, rfl, nodup_singleton _,
        hready target (mem_singleton_self _), ⟨allowance, hpermits⟩,
        IdealState.charge_of_mem state (nodup_singleton _) (mem_singleton_self _)⟩
    · have hout : key ∉ [target].map Check.counterKey := by simpa using hkey
      rw [IdealState.charge_of_not_mem [target] state hout]
      exact .inl ⟨hout, rfl, le_rfl⟩
  | quotaDenied target now denial hready _ =>
    refine .inl ⟨?_, hobserve hready⟩
    unfold Decision.quotaDenied
    split_ifs <;> simp [Event.charged, Decision.shadowDenied]
  | storageCapacity target now retryAfter hready =>
    exact .inl ⟨by simp [Event.charged], hobserve hready⟩
  | failed target now error _ =>
    exact .inl ⟨by simp [Event.charged], rfl, le_rfl⟩
  | batchAllowed checks now allowances hne hready hkeys hpermits =>
    by_cases hin : key ∈ checks.map Check.counterKey
    · obtain ⟨target, htgt, rfl⟩ := mem_map.mp hin
      have hmembers : ∀ member ∈ checks, ∃ allowance,
          ideal.permits member now (state member.counterKey).counter allowance :=
        ((forall₂_and_left checks allowances).mp
          (hpermits.imp fun _ allowance hpermit => ⟨⟨allowance, hpermit⟩, hpermit⟩)).1
      exact .inr ⟨target, htgt, rfl, hkeys, hready target htgt,
        hmembers target htgt, IdealState.charge_of_mem state hkeys htgt⟩
    · rw [IdealState.charge_of_not_mem checks state hin]
      exact .inl ⟨hin, rfl, le_rfl⟩
  | batchQuotaDenied before target after now denial decision hready _ _ hdec =>
    refine .inl ⟨?_, hobserve hready⟩
    obtain ⟨hlt, ⟨-, rfl⟩ | ⟨-, rfl⟩⟩ := BatchDecision.newQuotaDenied_eq_ok hdec <;>
      simp [Event.charged]
  | batchStorageCapacity checks now index retryAfter hlt hready =>
    exact .inl ⟨by simp [Event.charged], hobserve hready⟩
  | batchFailed checks now error _ =>
    exact .inl ⟨by simp [Event.charged], rfl, le_rfl⟩

/-- Each member of a granted batch is charged what it was granted. -/
theorem charges_batchCharges {E : Type} {grants : List (Grant E)} {Q : Check P → Grant E → Prop}
    (h : List.Forall₂ Q checks grants) (hkeys : (checks.map Check.counterKey).Nodup)
    (hin : target ∈ checks) :
    ∃ grant, Q target grant ∧
      charges (batchCharges checks grants) target.counterKey = some grant.entry := by
  induction h with
  | nil => simp at hin
  | @cons head grant checks grants hhead hrest ih =>
    rw [map_cons, nodup_cons] at hkeys
    simp only [batchCharges, map_cons, zip_cons_cons, charges]
    rcases mem_cons.mp hin with rfl | hin
    · refine ⟨grant, hhead, ?_⟩
      have hnone : charges (batchCharges checks grants) target.counterKey = none := by
        rw [charges_eq_none, batchCharges, map_fst_zip (by simp [hrest.length_eq])]
        exact hkeys.1
      rw [batchCharges] at hnone
      simp [hnone]
    · obtain ⟨grant', hgrant', hcharge⟩ := ih hkeys.2 hin
      rw [batchCharges] at hcharge
      exact ⟨grant', hgrant', by simp [hcharge]⟩

end Ideal

/-- How the active entries of a key represent its ideal counter.  `agrees key
since active counter` relates the entry that is active at each time from `since`
on to the counter; the laws say that it holds initially, that it only looks at
times from `since` on, and that the meter's judgements are the counter's. -/
structure Represents {P E S : Type} [RateLimitPolicy P] (meter : Meter P E)
    (ideal : IdealCounter P S) (policies : P → Prop) where
  agrees : CounterKey → Nat → (Nat → Option (E × Nat)) → Option S → Prop
  initially : ∀ key, agrees key 0 (fun _ => none) none
  later : ∀ {key since since' active active' counter}, since ≤ since' →
    (∀ t, since' ≤ t → active' t = active t) →
      agrees key since active counter → agrees key since' active' counter
  fails : ∀ {target nowMillis active counter}, policies target.policy →
    agrees target.counterKey nowMillis active counter →
      meter.judge target nowMillis (active nowMillis) = none →
        ideal.mayFail target nowMillis counter
  denies : ∀ {target nowMillis active counter denial}, policies target.policy →
    agrees target.counterKey nowMillis active counter → Current nowMillis (active nowMillis) →
      meter.judge target nowMillis (active nowMillis) = some (.deny denial) →
        ideal.refuses target nowMillis counter denial
  allows : ∀ {target nowMillis active counter grant}, policies target.policy →
    agrees target.counterKey nowMillis active counter → Current nowMillis (active nowMillis) →
      meter.judge target nowMillis (active nowMillis) = some (.allow grant) →
        ideal.permits target nowMillis counter grant.allowance ∧
          agrees target.counterKey nowMillis
            (fun t => if grant.expiresAtMillis > t then some (grant.value, grant.expiresAtMillis)
              else none)
            (some (ideal.charge target nowMillis counter))

/-- A call of a store. -/
inductive Call (P : Type) [RateLimitPolicy P] where
  | check (target : Check P) (reading : Duration)
  | checkAll (checks : List (Check P)) (reading : Duration)

def Call.checks {P : Type} [RateLimitPolicy P] : Call P → List (Check P)
  | .check target _ => [target]
  | .checkAll checks _ => checks

/-- A policy occurs in some calls. -/
def UsedIn {P : Type} [RateLimitPolicy P] (calls : List (Call P)) (policy : P) : Prop :=
  ∃ call ∈ calls, ∃ target ∈ call.checks, target.policy = policy

section Refinement

variable {config : MemoryStoreConfig} {P E S : Type} [RateLimitPolicy P]

/-- Performs a call and records its effective time and its result. -/
def MemoryLimiter.perform (limiter : MemoryLimiter config P E) (store : BoundedShards config E) :
    Call P → Except Panic
      (Event P limiter.CheckError limiter.BatchError × BoundedShards config E)
  | .check target reading => do
    let reply ← limiter.check store target reading
    pure (.check target (checkNow store target reading) reply.1, reply.2)
  | .checkAll checks reading => do
    let reply ← limiter.checkAll store checks reading
    pure (.checkAll checks (batchNow store checks reading) reply.1, reply.2)

variable {meter : Meter P E} {ideal : IdealCounter P S} {policies : P → Prop}

/-- A key's counter is represented from the latest time of its shard on. -/
def AgreesAt (rep : Represents meter ideal policies) (values : Values config E)
    (key : CounterKey) (keyState : KeyState S) : Prop :=
  keyState.clock ≤ (values (shardIndex config key)).latestObservedMillis ∧
    rep.agrees key (values (shardIndex config key)).latestObservedMillis
      (activeAt values key) keyState.counter

/-- The store represents the ideal state. -/
structure Mirrors (rep : Represents meter ideal policies) (store : BoundedShards config E)
    (state : IdealState S) : Prop where
  invariant : Invariant store.values
  healthy : ∀ index, (store index).poisoned = false
  agrees : ∀ key, AgreesAt rep store.values key (state key)

variable {rep : Represents meter ideal policies}

theorem mirrors_new : Mirrors rep (.new config E) .initial :=
  ⟨invariant_new, fun _ => rfl, fun key => ⟨le_rfl, rep.initially key⟩⟩

section Step

variable {store : BoundedShards config E} {state : IdealState S} {values' : Values config E}
variable {now : Nat} {checks : List (Check P)}
variable {charge : CounterKey → Option (StoredEntry E)}
variable {key : CounterKey} {target : Check P}

/-- The counter of a key that is not charged. -/
theorem Mirrors.agreesAt_of_not_charged (h : Mirrors rep store state)
    (hlatest : ∀ index ∈ touchedBy config checks, (store.values index).latestObservedMillis ≤ now)
    (heff : Effect now (touchedBy config checks) charge store.values values')
    (hcharge : charge key = none) : AgreesAt rep values' key (state key) := by
  obtain ⟨hclock, hagrees⟩ := h.agrees key
  by_cases hin : shardIndex config key ∈ touchedBy config checks
  · have hle := hlatest _ hin
    rw [AgreesAt, heff.latest_eq _ hin]
    refine ⟨hclock.trans hle, rep.later hle (fun t ht => ?_) hagrees⟩
    rw [heff.activeAt_eq key ht, hcharge]
  · unfold AgreesAt activeAt
    rw [heff.untouched _ hin]
    exact ⟨hclock, hagrees⟩

/-- The clock of a key that was used. -/
theorem AgreesAt.observe {keyState : KeyState S} (h : AgreesAt rep values' key keyState)
    (heff : Effect now (touchedBy config checks) charge store.values values')
    (hin : key ∈ checks.map Check.counterKey) :
    AgreesAt rep values' key { keyState with clock := now } := by
  obtain ⟨target, htgt, rfl⟩ := mem_map.mp hin
  refine ⟨(heff.latest_eq _ ?_).ge, h.2⟩
  exact mem_map.mpr ⟨target, htgt, rfl⟩

section

variable (h : Mirrors rep store state)
include h

/-- A call that charges nothing. -/
theorem Mirrors.observe
    (hlatest : ∀ index ∈ touchedBy config checks, (store.values index).latestObservedMillis ≤ now)
    (heff : Effect now (touchedBy config checks) (charges []) store.values values')
    (hinv : Invariant values') :
    Mirrors rep (store.withValues values') (state.observe now checks) := by
  refine ⟨hinv, h.healthy, fun key => ?_⟩
  have hkey : AgreesAt rep values' key (state key) := h.agreesAt_of_not_charged hlatest heff rfl
  unfold IdealState.observe
  split_ifs with hin
  · exact hkey.observe heff hin
  · exact hkey

/-- A call that charges all its members. -/
theorem Mirrors.charged {grants : List (Grant E)}
    (hpolicies : ∀ target ∈ checks, policies target.policy)
    (hlatest : ∀ index ∈ touchedBy config checks, (store.values index).latestObservedMillis ≤ now)
    (hkeys : (checks.map Check.counterKey).Nodup)
    (hjudged : List.Forall₂ (fun target grant =>
      meter.judge target now (activeAt store.values target.counterKey now) =
        some (.allow grant)) checks grants)
    (heff : Effect now (touchedBy config checks) (charges (batchCharges checks grants))
      store.values values')
    (hinv : Invariant values') :
    Mirrors rep (store.withValues values') (IdealState.charge ideal now checks state) := by
  refine ⟨hinv, h.healthy, fun key => ?_⟩
  by_cases hin : key ∈ checks.map Check.counterKey
  · obtain ⟨target, htgt, rfl⟩ := mem_map.mp hin
    obtain ⟨grant, hgrant, hcharge⟩ := charges_batchCharges hjudged hkeys htgt
    have htouched : shardIndex config target.counterKey ∈ touchedBy config checks :=
      mem_map.mpr ⟨target, htgt, rfl⟩
    have hle := hlatest _ htouched
    have hagrees := rep.later hle (fun _ _ => rfl) (h.agrees target.counterKey).2
    have hallows := rep.allows (hpolicies target htgt) hagrees (h.invariant.current hle) hgrant
    rw [IdealState.charge_of_mem state hkeys htgt]
    refine ⟨(heff.latest_eq _ htouched).ge, ?_⟩
    rw [show (store.withValues values').values = values' from rfl, heff.latest_eq _ htouched]
    refine rep.later le_rfl (fun t ht => ?_) hallows.2
    rw [heff.activeAt_eq _ ht, hcharge]
    rfl
  · rw [IdealState.charge_of_not_mem checks state hin]
    refine h.agreesAt_of_not_charged hlatest heff (charges_eq_none.mpr ?_)
    rw [batchCharges, map_fst_zip (by simp [hjudged.length_eq])]
    exact hin

theorem Mirrors.ready
    (hlatest : ∀ index ∈ touchedBy config checks, (store.values index).latestObservedMillis ≤ now) :
    state.Ready now checks :=
  fun target htgt => (h.agrees target.counterKey).1.trans
    (hlatest _ (mem_map.mpr ⟨target, htgt, rfl⟩))

variable (hpol : policies target.policy)
  (hlatest : (store.values (shardIndex config target.counterKey)).latestObservedMillis ≤ now)
include hpol hlatest

/-- A judgement that lets a member through is the permission of its counter. -/
theorem Mirrors.permits {grant : Grant E}
    (hjudge : meter.judge target now (activeAt store.values target.counterKey now) =
      some (.allow grant)) :
    ideal.permits target now (state target.counterKey).counter grant.allowance :=
  (rep.allows hpol (rep.later hlatest (fun _ _ => rfl) (h.agrees target.counterKey).2)
    (h.invariant.current hlatest) hjudge).1

/-- A member without a judgement is one whose counter may fail. -/
theorem Mirrors.mayFail
    (hjudge : meter.judge target now (activeAt store.values target.counterKey now) = none) :
    ideal.mayFail target now (state target.counterKey).counter :=
  rep.fails hpol (rep.later hlatest (fun _ _ => rfl) (h.agrees target.counterKey).2) hjudge

/-- A judgement that denies a member is the refusal of its counter. -/
theorem Mirrors.refuses {denial : QuotaDenial}
    (hjudge : meter.judge target now (activeAt store.values target.counterKey now) =
      some (.deny denial)) :
    ideal.refuses target now (state target.counterKey).counter denial :=
  rep.denies hpol (rep.later hlatest (fun _ _ => rfl) (h.agrees target.counterKey).2)
    (h.invariant.current hlatest) hjudge

end

end Step

section Calls

variable {store : BoundedShards config E} {state : IdealState S}
variable {limiter : MemoryLimiter config P E} {rep : Represents limiter.meter ideal policies}

/-- A single check is a step of the ideal store. -/
theorem Mirrors.perform_check {target : Check P} (reading : Duration) (h : Mirrors rep store state)
    (hpol : policies target.policy) :
    ∃ event store', limiter.perform store (.check target reading) = .ok (event, store') ∧
      ∃ state', IdealStep ideal config state event state' ∧ Mirrors rep store' state' := by
  obtain ⟨result, store', hcall, hspec⟩ := limiter.check_call h.invariant target reading
  refine ⟨_, store', bind_eq_ok.mpr ⟨_, hcall, rfl⟩, ?_⟩
  generalize houtcome : result.toOption = outcome at hspec
  have hinv := hspec.invariant h.invariant
  have hlatest : ∀ index ∈ touchedBy config [target],
      (store.values index).latestObservedMillis ≤ checkNow store target reading :=
    fun _ => latest_le_clampedNow
  have hready := h.ready hlatest
  have hown := hlatest _ mem_cons_self
  cases hspec with
  | poisoned hpois =>
    rw [h.healthy] at hpois
    cases hpois
  | overflow _ hover =>
    obtain ⟨error, rfl⟩ := toOption_eq_none.mp houtcome
    exact ⟨state, IdealStep.failed state target _ error (h.mayFail hpol hown hover), h⟩
  | settled decision values' _ hstep =>
    obtain rfl := toOption_eq_some.mp houtcome
    cases hstep with
    | allowed grant _ hsettle heff =>
      have hjudge := (settleMember_eq_granted.mp hsettle).1
      exact ⟨_, IdealStep.allowed state target _ _ hready (h.permits hpol hown hjudge),
        h.charged (forall_mem_singleton.mpr hpol) hlatest (nodup_singleton _)
          (List.Forall₂.cons hjudge List.Forall₂.nil) heff hinv⟩
    | quotaDenied denial _ hsettle heff =>
      have hjudge := settleMember_eq_quotaDenied.mp hsettle
      exact ⟨_, IdealStep.quotaDenied state target _ _ hready (h.refuses hpol hown hjudge),
        h.observe hlatest heff hinv⟩
    | noRoom retryAfter _ hsettle heff =>
      exact ⟨_, IdealStep.storageCapacity state target _ _ hready, h.observe hlatest heff hinv⟩

/-- A batch is a step of the ideal store. -/
theorem Mirrors.perform_checkAll {checks : List (Check P)} (reading : Duration)
    (h : Mirrors rep store state) (hpolicies : ∀ target ∈ checks, policies target.policy) :
    ∃ event store', limiter.perform store (.checkAll checks reading) = .ok (event, store') ∧
      ∃ state', IdealStep ideal config state event state' ∧ Mirrors rep store' state' := by
  obtain ⟨result, store', hcall, hspec⟩ := limiter.checkAll_call h.invariant checks reading
  refine ⟨_, store', bind_eq_ok.mpr ⟨_, hcall, rfl⟩, ?_⟩
  generalize houtcome : result.toOption = outcome at hspec
  have hinv := hspec.invariant h.invariant
  have hlatest : ∀ index ∈ touchedBy config checks,
      (store.values index).latestObservedMillis ≤ batchNow store checks reading :=
    fun _ => latest_le_clampedNow
  have hready := h.ready hlatest
  have hown : ∀ target ∈ checks,
      (store.values (shardIndex config target.counterKey)).latestObservedMillis ≤
        batchNow store checks reading :=
    fun target htgt => hlatest _ (mem_map.mpr ⟨target, htgt, rfl⟩)
  cases hspec with
  | rejected hrejected =>
    obtain ⟨error, rfl⟩ := toOption_eq_none.mp houtcome
    refine ⟨state, IdealStep.batchFailed state checks _ error ?_, h⟩
    by_contra hnone
    push Not at hnone
    exact hrejected ⟨hnone.1, hnone.2.1, fun index _ => h.healthy index⟩
  | overflow _ hover =>
    obtain ⟨error, rfl⟩ := toOption_eq_none.mp houtcome
    obtain ⟨target, htgt, hnone⟩ := hover
    exact ⟨state, IdealStep.batchFailed state checks _ error
      (.inr (.inr ⟨target, htgt, h.mayFail (hpolicies target htgt) (hown target htgt) hnone⟩)), h⟩
  | settled decision values' hready' _ hstep =>
    obtain rfl := toOption_eq_some.mp houtcome
    have hkeys := (validateBatch_eq_ok_iff.mp hready'.valid).2.2.2
    cases hstep with
    | allowed grants _ hsettle hne heff =>
      have hjudged := judge_of_settleBatch_granted hsettle
      refine ⟨_, IdealStep.batchAllowed state checks _ _ hne hready hkeys ?_,
        h.charged hpolicies hlatest hkeys hjudged heff hinv⟩
      rw [forall₂_map_right_iff]
      refine ((forall₂_and_left checks grants).mpr ⟨fun _ hin => hin, hjudged⟩).imp ?_
      exact fun target grant hboth =>
        h.permits (hpolicies target hboth.1) (hown target hboth.1) hboth.2
    | quotaDenied index denial mode decision _ hsettle hmode hdec heff =>
      obtain ⟨before, target, after, rfl, hidx, hbefore, hjudge⟩ :=
        judge_of_settleBatch_quotaDenied hsettle
      rw [length_nil, Nat.zero_add] at hidx
      have htgt : target ∈ before ++ target :: after := by simp
      have hmember : ∀ member ∈ before, member ∈ before ++ target :: after :=
        fun member hin => mem_append_left _ hin
      rw [hidx, ← hmode target htgt] at hdec
      refine ⟨_, IdealStep.batchQuotaDenied state before target after _ denial decision hready
        ?_ (h.refuses (hpolicies target htgt) (hown target htgt) hjudge) hdec,
        h.observe hlatest heff hinv⟩
      intro member hin
      obtain ⟨grant, hgrant⟩ := hbefore member hin
      exact ⟨_, h.permits (hpolicies member (hmember member hin))
        (hown member (hmember member hin)) hgrant⟩
    | noRoom index retryAfter _ hsettle hlt heff =>
      exact ⟨_, IdealStep.batchStorageCapacity state checks _ index retryAfter hlt hready,
        h.observe hlatest heff hinv⟩

end Calls

/-- The refinement rule: every run of calls on a new store returns, and its
events are a run of the ideal store. -/
theorem MemoryLimiter.refines (limiter : MemoryLimiter config P E) {calls : List (Call P)}
    (rep : Represents limiter.meter ideal (UsedIn calls)) :
    ∃ events store,
      execute limiter.perform (BoundedShards.new config E) calls = .ok (events, store) ∧
      ∃ state, Run (IdealStep ideal config) IdealState.initial events state := by
  have hmatch : ∀ store state call, Mirrors rep store state →
      (∀ target ∈ call.checks, UsedIn calls target.policy) →
      ∃ event store', limiter.perform store call = .ok (event, store') ∧
        ∃ state', IdealStep ideal config state event state' ∧ Mirrors rep store' state' := by
    intro store state call h hpolicies
    cases call with
    | check target reading =>
      exact h.perform_check reading (hpolicies target mem_cons_self)
    | checkAll checks reading => exact h.perform_checkAll reading hpolicies
  obtain ⟨events, store, hexecute, state, hrun, -⟩ := execute_simulation hmatch
    (fun call hcall target htgt => ⟨call, hcall, target, htgt, rfl⟩) mirrors_new
  exact ⟨events, store, hexecute, state, hrun⟩

end Refinement

end Batter.Runlimit
