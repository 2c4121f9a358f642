import Batter.Runlimit.Memory.Limiter

/-!
# Runlimit memory store: representation and consumption

Two facts about every store that operations can reach.

* `memory_stores_keep_representation`: no operation panics, the expiry index and
  the entries agree, every bound holds, and a call never removes an entry that
  is still active at its time.
* `memory_stores_consume_nothing_unless_allowed`: a call that returns an error
  changes nothing at all; a call that returns a denial records the time in the
  shards it touched and may drop entries that had already expired.
-/

namespace Batter.Runlimit

open RustStd Runs

variable {config : MemoryStoreConfig} {P E : Type} {values' : Values config E}

section Effects

variable [RateLimitPolicy P]
variable {store store' : BoundedShards config E} {meter : Meter P E} {reading : Duration}

/-- The time of a single check. -/
def checkNow (store : BoundedShards config E) (target : Check P) (reading : Duration) : Nat :=
  clampedNow store.values [shardIndex config target.counterKey] reading.asMillis

/-- The time of a batch. -/
def batchNow (store : BoundedShards config E) (checks : List (Check P)) (reading : Duration) :
    Nat :=
  clampedNow store.values (touchedBy config checks) reading.asMillis

/-- The shards lost nothing but entries that had expired, and the touched ones
recorded the time. -/
structure OnlyCleans (nowMillis : Nat) (touched : List (Fin config.shardCount))
    (store store' : BoundedShards config E) : Prop where
  active_eq : ∀ key later, nowMillis ≤ later →
    activeAt store'.values key later = activeAt store.values key later
  poisoned_eq : ∀ index, (store' index).poisoned = (store index).poisoned
  untouched : ∀ index, index ∉ touched → store' index = store index
  latest_eq : ∀ index ∈ touched,
    (store.values index).latestObservedMillis ≤ nowMillis ∧
      (store'.values index).latestObservedMillis = nowMillis
  capacity_eq : ∀ index, (store'.values index).capacity = (store.values index).capacity
  lookup_eq : ∀ index key,
    (store'.values index).entries.lookup key = (store.values index).entries.lookup key ∨
      (store'.values index).entries.lookup key = none ∧
        ∃ entry, (store.values index).entries.lookup key = some entry ∧
          entry.expiresAtMillis ≤ nowMillis
  expirations_subset : ∀ index,
    (store'.values index).expirations ⊆ (store.values index).expirations

variable {now : Nat} {touched : List (Fin config.shardCount)}
variable {values : Values config E} {decision : Decision} {target : Check P}
variable {checks : List (Check P)}

theorem Effect.onlyCleans (h : Effect now touched (charges []) store.values values')
    (hinv : Invariant store.values)
    (hlatest : ∀ index ∈ touched, (store.values index).latestObservedMillis ≤ now) :
    OnlyCleans now touched store (store.withValues values') := by
  refine ⟨?_, fun _ => rfl, ?_, ?_, h.capacity_eq, ?_, ?_⟩
  · intro key later hle
    exact h.activeAt_of_no_charge key hle
  · intro index hout
    have hsame := h.untouched index hout
    simp only [BoundedShards.withValues, hsame]
    rfl
  · exact fun index hin => ⟨hlatest index hin, h.latest_eq index hin⟩
  · exact fun index key => h.kept index key (Or.inl rfl)
  · intro index expiry hmem
    obtain ⟨entry, hentry, hx⟩ := ((h.consistent index).mem_expirations expiry).mp hmem
    rcases h.kept index expiry.key (Or.inl rfl) with heq | ⟨hnone, -⟩
    · exact ((hinv.consistent index).mem_expirations expiry).mpr ⟨entry, heq ▸ hentry, hx⟩
    · rw [hentry] at hnone
      cases hnone

/-- An entry that is active at the time of a call is still stored after it, and
is the same unless its key was charged. -/
theorem Effect.keeps_active {charge : CounterKey → Option (StoredEntry E)}
    (h : Effect now touched charge values values')
    {index : Fin config.shardCount} {key : CounterKey} {entry : StoredEntry E}
    (hlook : (values index).entries.lookup key = some entry) (hact : now < entry.expiresAtMillis) :
    ∃ entry', (values' index).entries.lookup key = some entry' ∧
      (charge key = none → entry' = entry) := by
  by_cases hc : charge key = none ∨ index ≠ shardIndex config key
  · rcases h.kept index key hc with heq | ⟨-, entry', hentry', hexp⟩
    · exact ⟨entry, heq.trans hlook, fun _ => rfl⟩
    · rw [hlook] at hentry'
      cases hentry'
      omega
  · push Not at hc
    obtain ⟨hsome, rfl⟩ := hc
    obtain ⟨charged, hcharged⟩ := Option.ne_none_iff_exists'.mp hsome
    exact ⟨charged, (h.charged key charged hcharged).2, fun hnone => absurd hnone hsome⟩

theorem CheckStep.effect (h : CheckStep meter values now target decision values') :
    ∃ charge, Effect now [shardIndex config target.counterKey] charge values values' ∧
      ∀ key, key ≠ target.counterKey → charge key = none := by
  cases h with
  | allowed grant _ _ heff =>
    refine ⟨_, heff, fun key hkey => ?_⟩
    simp [charges, hkey]
  | quotaDenied _ _ _ heff => exact ⟨_, heff, fun _ _ => rfl⟩
  | noRoom _ _ _ heff => exact ⟨_, heff, fun _ _ => rfl⟩

theorem BatchStep.effect {decision : BatchDecision}
    (h : BatchStep meter values now checks decision values') :
    ∃ charge, Effect now (touchedBy config checks) charge values values' ∧
      ∀ key, key ∉ checks.map Check.counterKey → charge key = none := by
  cases h with
  | allowed grants _ hsettle _ heff =>
    refine ⟨_, heff, fun key hkey => charges_eq_none.mpr fun hmem => hkey ?_⟩
    rw [batchCharges, List.map_fst_zip
      (by simp [(judge_of_settleBatch_granted hsettle).length_eq])] at hmem
    exact hmem
  | quotaDenied _ _ _ _ _ _ _ _ heff => exact ⟨_, heff, fun _ _ => rfl⟩
  | noRoom _ _ _ _ _ heff => exact ⟨_, heff, fun _ _ => rfl⟩

/-- A single check that is not allowed charges nothing. -/
theorem CheckStep.effect_of_not_allowed (h : CheckStep meter values now target decision values')
    (hdenied : ∀ allowance, decision ≠ Decision.allowed allowance) :
    Effect now [shardIndex config target.counterKey] (charges []) values values' := by
  cases h with
  | allowed grant _ _ _ => exact absurd rfl (hdenied grant.allowance)
  | quotaDenied _ _ _ heff => exact heff
  | noRoom _ _ _ heff => exact heff

/-- A batch that is not allowed charges nothing. -/
theorem BatchStep.effect_of_not_allowed {decision : BatchDecision}
    (h : BatchStep meter values now checks decision values')
    (hdenied : ∀ allowances hne, decision ≠ .allowed allowances hne) :
    Effect now (touchedBy config checks) (charges []) values values' := by
  cases h with
  | allowed grants _ _ hne _ => exact absurd rfl (hdenied _ hne)
  | quotaDenied _ _ _ _ _ _ _ _ heff => exact heff
  | noRoom _ _ _ _ _ heff => exact heff

end Effects

section Claims

variable [RateLimitPolicy P]

/-- Every reachable store is well represented and no call evicts. -/
structure KeepsRepresentation (limiter : MemoryLimiter config P E) : Prop where
  no_panic : ∀ operations, ∃ answers store,
    execute limiter.step (.new config E) operations = .ok (answers, store)
  invariant : ∀ store, limiter.Reachable store → Invariant store.values
  bounded : ∀ store, limiter.Reachable store →
    ∑ index, (store.values index).used ≤ config.maxKeys
  check_keeps : ∀ store, limiter.Reachable store → ∀ target reading result store',
    limiter.check store target reading = .ok (result, store') →
      ∀ index key entry, (store.values index).entries.lookup key = some entry →
        checkNow store target reading < entry.expiresAtMillis →
          ∃ entry', (store'.values index).entries.lookup key = some entry' ∧
            (key ≠ target.counterKey → entry' = entry)
  checkAll_keeps : ∀ store, limiter.Reachable store → ∀ checks reading result store',
    limiter.checkAll store checks reading = .ok (result, store') →
      ∀ index key entry, (store.values index).entries.lookup key = some entry →
        batchNow store checks reading < entry.expiresAtMillis →
          ∃ entry', (store'.values index).entries.lookup key = some entry' ∧
            (key ∉ checks.map Check.counterKey → entry' = entry)

theorem MemoryLimiter.keepsRepresentation (limiter : MemoryLimiter config P E) :
    KeepsRepresentation limiter := by
  refine ⟨?_, fun _ h => h.invariant, fun _ h => h.invariant.sum_used_le, ?_, ?_⟩
  · intro operations
    obtain ⟨answers, store, hexecute, -⟩ := Runs.execute_invariant
      (fun store : BoundedShards config E => Invariant store.values)
      limiter.step_invariant operations invariant_new
    exact ⟨answers, store, hexecute⟩
  · intro store hreach target reading result store' hcall index key entry hlook hact
    obtain ⟨_, _, hcall', hspec⟩ := limiter.check_call hreach.invariant target reading
    rw [hcall] at hcall'
    cases hcall'
    generalize result.toOption = outcome at hspec
    cases hspec with
    | poisoned _ => exact ⟨entry, hlook, fun _ => rfl⟩
    | overflow _ _ => exact ⟨entry, hlook, fun _ => rfl⟩
    | settled decision values' _ hstep =>
      obtain ⟨charge, heff, hnone⟩ := hstep.effect
      obtain ⟨entry', hentry', hsame⟩ := heff.keeps_active hlook hact
      exact ⟨entry', hentry', fun hkey => hsame (hnone key hkey)⟩
  · intro store hreach checks reading result store' hcall index key entry hlook hact
    obtain ⟨_, _, hcall', hspec⟩ := limiter.checkAll_call hreach.invariant checks reading
    rw [hcall] at hcall'
    cases hcall'
    generalize result.toOption = outcome at hspec
    cases hspec with
    | rejected _ => exact ⟨entry, hlook, fun _ => rfl⟩
    | overflow _ _ => exact ⟨entry, hlook, fun _ => rfl⟩
    | settled decision values' _ _ hstep =>
      obtain ⟨charge, heff, hnone⟩ := hstep.effect
      obtain ⟨entry', hentry', hsame⟩ := heff.keeps_active hlook hact
      exact ⟨entry', hentry', fun hkey => hsame (hnone key hkey)⟩

/-- The representation invariant of both memory stores. -/
theorem memory_stores_keep_representation [Sha256] (config : MemoryStoreConfig) :
    KeepsRepresentation (MemoryStore.limiter config) ∧
      KeepsRepresentation (GcraStore.limiter config) :=
  ⟨MemoryLimiter.keepsRepresentation _, MemoryLimiter.keepsRepresentation _⟩

/-- A call that is not allowed consumes nothing. -/
structure ConsumesNothingUnlessAllowed (limiter : MemoryLimiter config P E) : Prop where
  check_error : ∀ store, limiter.Reachable store → ∀ target reading error store',
    limiter.check store target reading = .ok (.error error, store') → store' = store
  check_denied : ∀ store, limiter.Reachable store → ∀ target reading decision store',
    limiter.check store target reading = .ok (.ok decision, store') →
      (∀ allowance, decision ≠ Decision.allowed allowance) →
        OnlyCleans (checkNow store target reading) [shardIndex config target.counterKey]
          store store'
  checkAll_error : ∀ store, limiter.Reachable store → ∀ checks reading error store',
    limiter.checkAll store checks reading = .ok (.error error, store') → store' = store
  checkAll_overflow : ∀ store, limiter.Reachable store → ∀ checks reading,
    BatchReady store checks →
      (∃ target ∈ checks, limiter.meter.judge target (batchNow store checks reading)
        (activeAt store.values target.counterKey (batchNow store checks reading)) = none) →
        ∃ error, limiter.checkAll store checks reading = .ok (.error error, store)
  checkAll_denied : ∀ store, limiter.Reachable store → ∀ checks reading decision store',
    limiter.checkAll store checks reading = .ok (.ok decision, store') →
      (∀ allowances hne, decision ≠ .allowed allowances hne) →
        OnlyCleans (batchNow store checks reading) (touchedBy config checks) store store'

theorem MemoryLimiter.consumesNothingUnlessAllowed (limiter : MemoryLimiter config P E) :
    ConsumesNothingUnlessAllowed limiter := by
  refine ⟨?_, ?_, ?_, ?_, ?_⟩
  · intro store hreach target reading error store' hcall
    obtain ⟨_, _, hcall', hspec⟩ := limiter.check_call hreach.invariant target reading
    rw [hcall] at hcall'
    cases hcall'
    cases hspec <;> rfl
  · intro store hreach target reading decision store' hcall hdenied
    obtain ⟨_, _, hcall', hspec⟩ := limiter.check_call hreach.invariant target reading
    rw [hcall] at hcall'
    cases hcall'
    cases hspec with
    | settled _ values' _ hstep =>
      exact (hstep.effect_of_not_allowed hdenied).onlyCleans hreach.invariant
        fun _ => latest_le_clampedNow
  · intro store hreach checks reading error store' hcall
    obtain ⟨_, _, hcall', hspec⟩ := limiter.checkAll_call hreach.invariant checks reading
    rw [hcall] at hcall'
    cases hcall'
    cases hspec <;> rfl
  · intro store hreach checks reading hready hover
    obtain ⟨result, store', hcall, hspec⟩ := limiter.checkAll_call hreach.invariant checks reading
    rw [hcall]
    generalize houtcome : result.toOption = outcome at hspec
    cases hspec with
    | rejected hrejected => exact absurd hready hrejected
    | overflow _ _ =>
      obtain ⟨error, rfl⟩ := toOption_eq_none.mp houtcome
      exact ⟨error, rfl⟩
    | settled _ _ _ hjudged _ =>
      obtain ⟨target, hin, hnone⟩ := hover
      exact absurd hnone (hjudged target hin)
  · intro store hreach checks reading decision store' hcall hdenied
    obtain ⟨_, _, hcall', hspec⟩ := limiter.checkAll_call hreach.invariant checks reading
    rw [hcall] at hcall'
    cases hcall'
    cases hspec with
    | settled _ values' _ _ hstep =>
      exact (hstep.effect_of_not_allowed hdenied).onlyCleans hreach.invariant
        fun _ => latest_le_clampedNow

/-- In both memory stores a call that is not allowed consumes nothing. -/
theorem memory_stores_consume_nothing_unless_allowed [Sha256] (config : MemoryStoreConfig) :
    ConsumesNothingUnlessAllowed (MemoryStore.limiter config) ∧
      ConsumesNothingUnlessAllowed (GcraStore.limiter config) :=
  ⟨MemoryLimiter.consumesNothingUnlessAllowed _, MemoryLimiter.consumesNothingUnlessAllowed _⟩

end Claims

end Batter.Runlimit
