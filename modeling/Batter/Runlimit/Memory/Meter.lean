import Batter.Runlimit.Memory.Topology

/-!
# Runlimit memory store: what a call does

The two memory stores differ in how they judge one key and agree in everything
else.  A `Meter` is the judgement: from a check, a time and the active entry of
its key it computes a quota denial or a grant.

Over a meter this module says what a call on the shards means, without pruning,
positions or pending-insertion counts: `settleMember` decides one member of a
batch from the active entries alone, `settleBatch` a whole batch, `CheckStep`
and `BatchStep` say which decision is returned and what the shards look like
afterwards.  The models of the two stores are shown to take exactly these steps;
everything else about the stores is derived from the steps.
-/

namespace Batter.Runlimit

open RustStd List Function

variable {key : CounterKey} {now later : Nat}

/-- What a meter stores and reports when it lets a check through. -/
structure Grant (E : Type) where
  value : E
  expiresAtMillis : Nat
  allowance : Allowance

/-- The entry that a grant writes. -/
def Grant.entry {E : Type} (grant : Grant E) : StoredEntry E :=
  ⟨grant.value, grant.expiresAtMillis⟩

/-- The judgement of a meter. -/
inductive Verdict (E : Type) where
  | deny (denial : QuotaDenial)
  | allow (grant : Grant E)

/-- An active entry expires after now and within the longest window. -/
def Current {E : Type} (nowMillis : Nat) (active : Option (E × Nat)) : Prop :=
  ∀ a, active = some a → nowMillis < a.2 ∧ a.2 ≤ nowMillis + maxWindowMillis

/-- How a limiter judges one check from the active entry of its key; nothing
when its arithmetic overflows.  What it grants is active and expires within the
longest window. -/
structure Meter (P : Type) [RateLimitPolicy P] (E : Type) where
  judge : Check P → Nat → Option (E × Nat) → Option (Verdict E)
  current : ∀ {check nowMillis active grant}, Current nowMillis active →
    judge check nowMillis active = some (.allow grant) →
      nowMillis < grant.expiresAtMillis ∧ grant.expiresAtMillis ≤ nowMillis + maxWindowMillis

/-- What happens to one member of a batch. -/
inductive Settlement (E : Type) where
  | granted (grant : Grant E)
  | quotaDenied (denial : QuotaDenial)
  | noRoom

/-- What happens to a batch: all members are granted, or the first that is not. -/
inductive BatchSettlement (E : Type) where
  | granted (grants : List (Grant E))
  | quotaDenied (index : Nat) (denial : QuotaDenial)
  | noRoom (index : Nat)

/-- A granted member in front of the settlement of the remaining ones. -/
def BatchSettlement.cons {E : Type} (grant : Grant E) : BatchSettlement E → BatchSettlement E
  | .granted grants => .granted (grant :: grants)
  | .quotaDenied index denial => .quotaDenied index denial
  | .noRoom index => .noRoom index

variable {config : MemoryStoreConfig} {E P : Type} [RateLimitPolicy P]

/-- The data of all shards of a store. -/
abbrev Values (config : MemoryStoreConfig) (E : Type) := Fin config.shardCount → Shard E

section

variable (values : Values config E)

/-- The active entry of a key, in the shard that its hash names. -/
def activeAt (key : CounterKey) (nowMillis : Nat) : Option (E × Nat) :=
  (values (shardIndex config key)).activeEntry key nowMillis

/-- The number of keys that will need a new entry in a shard. -/
def waiting (nowMillis : Nat) (keys : List CounterKey) (index : Fin config.shardCount) : Nat :=
  keys.countP fun key =>
    decide (shardIndex config key = index) && (activeAt values key nowMillis).isNone

/-- There is room for a key once the earlier keys have taken theirs. -/
def HasRoom (nowMillis : Nat) (earlier : List CounterKey) (key : CounterKey) : Prop :=
  (activeAt values key nowMillis).isSome ∨
    ((values (shardIndex config key)).activeKeys nowMillis).card +
        waiting values nowMillis earlier (shardIndex config key) <
      (values (shardIndex config key)).capacity

instance (nowMillis : Nat) (earlier : List CounterKey)
    (key : CounterKey) : Decidable (HasRoom values nowMillis earlier key) :=
  inferInstanceAs (Decidable (_ ∨ _))

/-- The fate of one check when the earlier keys of its batch will be charged. -/
def settleMember (meter : Meter P E) (values : Values config E) (nowMillis : Nat)
    (earlier : List CounterKey) (check : Check P) : Option (Settlement E) :=
  (meter.judge check nowMillis (activeAt values check.counterKey nowMillis)).map fun
    | .deny denial => .quotaDenied denial
    | .allow grant =>
      if HasRoom values nowMillis earlier check.counterKey then .granted grant else .noRoom

/-- The fate of the members of a batch, given the earlier ones. -/
def settleBatch (meter : Meter P E) (values : Values config E) (nowMillis : Nat) :
    List CounterKey → List (Check P) → Option (BatchSettlement E)
  | _, [] => some (.granted [])
  | earlier, check :: rest =>
    match settleMember meter values nowMillis earlier check with
    | none => none
    | some (.quotaDenied denial) => some (.quotaDenied earlier.length denial)
    | some .noRoom => some (.noRoom earlier.length)
    | some (.granted grant) =>
      (settleBatch meter values nowMillis (earlier ++ [check.counterKey]) rest).map
        (.cons grant)

/-- The time of a call: its clock reading, but not before anything that a
touched shard has observed. -/
def clampedNow (touched : List (Fin config.shardCount)) (reading : Nat) : Nat :=
  (touched.map fun index => (values index).latestObservedMillis).foldl max reading

end

/-- The entries written by a list of charges, later ones last. -/
def charges : List (CounterKey × StoredEntry E) → CounterKey → Option (StoredEntry E)
  | [], _ => none
  | (key', entry) :: rest, key =>
    (charges rest key).or (if key = key' then some entry else none)

/-- What a call does to the shards: the touched ones record the time and may
lose expired entries, the charged keys receive their new entry, and nothing else
changes. -/
structure Effect (nowMillis : Nat) (touched : List (Fin config.shardCount))
    (charge : CounterKey → Option (StoredEntry E)) (values values' : Values config E) :
    Prop where
  untouched : ∀ index, index ∉ touched → values' index = values index
  latest_eq : ∀ index ∈ touched, (values' index).latestObservedMillis = nowMillis
  capacity_eq : ∀ index, (values' index).capacity = (values index).capacity
  consistent : ∀ index, (values' index).Consistent
  charged : ∀ key entry, charge key = some entry →
    shardIndex config key ∈ touched ∧
      (values' (shardIndex config key)).entries.lookup key = some entry
  kept : ∀ index key, (charge key = none ∨ index ≠ shardIndex config key) →
    (values' index).entries.lookup key = (values index).entries.lookup key ∨
      (values' index).entries.lookup key = none ∧
        ∃ entry, (values index).entries.lookup key = some entry ∧
          entry.expiresAtMillis ≤ nowMillis

/-- The decision of one check and the shards after it. -/
inductive CheckStep (meter : Meter P E) (values : Values config E) (nowMillis : Nat)
    (check : Check P) : Decision → Values config E → Prop
  | allowed (grant : Grant E) (values' : Values config E)
      (hsettle : settleMember meter values nowMillis [] check = some (.granted grant))
      (heff : Effect nowMillis [shardIndex config check.counterKey]
        (charges [(check.counterKey, grant.entry)]) values values') :
      CheckStep meter values nowMillis check (.allowed grant.allowance) values'
  | quotaDenied (denial : QuotaDenial) (values' : Values config E)
      (hsettle : settleMember meter values nowMillis [] check = some (.quotaDenied denial))
      (heff : Effect nowMillis [shardIndex config check.counterKey] (charges []) values values') :
      CheckStep meter values nowMillis check (.quotaDenied check.quotaMode denial) values'
  | noRoom (retryAfter : Option Delay) (values' : Values config E)
      (hsettle : settleMember meter values nowMillis [] check = some .noRoom)
      (heff : Effect nowMillis [shardIndex config check.counterKey] (charges []) values values') :
      CheckStep meter values nowMillis check (.denied (.storageCapacity retryAfter)) values'

/-- The charges of a granted batch. -/
def batchCharges (checks : List (Check P)) (grants : List (Grant E)) :
    List (CounterKey × StoredEntry E) :=
  (checks.map Check.counterKey).zip (grants.map Grant.entry)

/-- The shards of the members of a batch. -/
def touchedBy (config : MemoryStoreConfig) (checks : List (Check P)) :
    List (Fin config.shardCount) :=
  checks.map fun check => shardIndex config check.counterKey

/-- The decision of a batch and the shards after it. -/
inductive BatchStep (meter : Meter P E) (values : Values config E) (nowMillis : Nat)
    (checks : List (Check P)) : BatchDecision → Values config E → Prop
  | allowed (grants : List (Grant E)) (values' : Values config E)
      (hsettle : settleBatch meter values nowMillis [] checks = some (.granted grants))
      (hne : grants.map Grant.allowance ≠ [])
      (heff : Effect nowMillis (touchedBy config checks)
        (charges (batchCharges checks grants)) values values') :
      BatchStep meter values nowMillis checks (.allowed (grants.map Grant.allowance) hne) values'
  | quotaDenied (index : Nat) (denial : QuotaDenial) (mode : QuotaMode)
      (decision : BatchDecision) (values' : Values config E)
      (hsettle : settleBatch meter values nowMillis [] checks = some (.quotaDenied index denial))
      (hmode : ∀ check ∈ checks, check.quotaMode = mode)
      (hdec : BatchDecision.newQuotaDenied mode index checks.length denial = .ok decision)
      (heff : Effect nowMillis (touchedBy config checks) (charges []) values values') :
      BatchStep meter values nowMillis checks decision values'
  | noRoom (index : Nat) (retryAfter : Option Delay) (values' : Values config E)
      (hsettle : settleBatch meter values nowMillis [] checks = some (.noRoom index))
      (hlt : index < checks.length)
      (heff : Effect nowMillis (touchedBy config checks) (charges []) values values') :
      BatchStep meter values nowMillis checks
        (.denied index checks.length (.storageCapacity retryAfter) hlt) values'

/-- A call of `check`: the decision unless it fails, and the store it leaves. -/
inductive CheckCall (meter : Meter P E) (store : BoundedShards config E) (check : Check P)
    (reading : Duration) : Option Decision → BoundedShards config E → Prop
  | poisoned
      (hpois : (store (shardIndex config check.counterKey)).poisoned = true) :
      CheckCall meter store check reading none store
  | overflow
      (hhealthy : (store (shardIndex config check.counterKey)).poisoned = false)
      (hover : meter.judge check
        (clampedNow store.values [shardIndex config check.counterKey] reading.asMillis)
        (activeAt store.values check.counterKey
          (clampedNow store.values [shardIndex config check.counterKey] reading.asMillis)) = none) :
      CheckCall meter store check reading none store
  | settled (decision : Decision) (values' : Values config E)
      (hhealthy : (store (shardIndex config check.counterKey)).poisoned = false)
      (hstep : CheckStep meter store.values
        (clampedNow store.values [shardIndex config check.counterKey] reading.asMillis)
        check decision values') :
      CheckCall meter store check reading (some decision) (store.withValues values')

/-- A batch that passes every check made before its shards are read. -/
structure BatchReady (store : BoundedShards config E) (checks : List (Check P)) : Prop where
  valid : validateBatch checks config.maxBatchSize = .ok ()
  fits : ∀ index, (touchedBy config checks).count index ≤ config.shardCapacity index
  healthy : ∀ index ∈ touchedBy config checks, (store index).poisoned = false

/-- A call of `check_all`: the decision unless it fails, and the store it leaves. -/
inductive BatchCall (meter : Meter P E) (store : BoundedShards config E) (checks : List (Check P))
    (reading : Duration) : Option BatchDecision → BoundedShards config E → Prop
  | rejected
      (hrejected : ¬BatchReady store checks) :
      BatchCall meter store checks reading none store
  | overflow
      (hready : BatchReady store checks)
      (hover : ∃ check ∈ checks, meter.judge check
        (clampedNow store.values (touchedBy config checks) reading.asMillis)
        (activeAt store.values check.counterKey
          (clampedNow store.values (touchedBy config checks) reading.asMillis)) = none) :
      BatchCall meter store checks reading none store
  | settled (decision : BatchDecision) (values' : Values config E)
      (hready : BatchReady store checks)
      (hjudged : ∀ check ∈ checks, meter.judge check
        (clampedNow store.values (touchedBy config checks) reading.asMillis)
        (activeAt store.values check.counterKey
          (clampedNow store.values (touchedBy config checks) reading.asMillis)) ≠ none)
      (hstep : BatchStep meter store.values
        (clampedNow store.values (touchedBy config checks) reading.asMillis)
        checks decision values') :
      BatchCall meter store checks reading (some decision) (store.withValues values')

/-! ### The invariant of a store -/

/-- The representation invariant of the shards of a store. -/
structure Invariant (values : Values config E) : Prop where
  consistent : ∀ index, (values index).Consistent
  capacity_eq : ∀ index, (values index).capacity = config.shardCapacity index
  routed : ∀ index key entry, (values index).entries.lookup key = some entry →
    shardIndex config key = index
  expires_le : ∀ index key entry, (values index).entries.lookup key = some entry →
    entry.expiresAtMillis ≤ (values index).latestObservedMillis + maxWindowMillis
  latest_le : ∀ index, (values index).latestObservedMillis ≤ Duration.maxMillis

variable {values : Values config E} {l : List (CounterKey × StoredEntry E)}

theorem invariant_of_empty (hentries : ∀ index, (values index).entries = ∅)
    (hexpirations : ∀ index, (values index).expirations = ∅)
    (hcap : ∀ index, (values index).capacity = config.shardCapacity index)
    (hlatest : ∀ index, (values index).latestObservedMillis ≤ Duration.maxMillis) :
    Invariant values := by
  refine ⟨fun index => ⟨?_, ?_⟩, hcap, ?_, ?_, hlatest⟩
  · simp [hentries, hexpirations]
  · simp [Shard.used, hentries]
  · simp [hentries]
  · simp [hentries]

theorem invariant_new : Invariant (BoundedShards.new config E).values :=
  invariant_of_empty (fun _ => rfl) (fun _ => rfl) (fun _ => rfl) fun _ => Nat.zero_le _

/-- The invariant is about each shard on its own. -/
theorem Invariant.mix {values values₁ values₂ : Values config E} (h₁ : Invariant values₁)
    (h₂ : Invariant values₂)
    (h : ∀ index, values index = values₁ index ∨ values index = values₂ index) :
    Invariant values := by
  have hshard : ∀ index, (values index).Consistent ∧
      (values index).capacity = config.shardCapacity index ∧
      (∀ key entry, (values index).entries.lookup key = some entry →
        shardIndex config key = index) ∧
      (∀ key entry, (values index).entries.lookup key = some entry →
        entry.expiresAtMillis ≤ (values index).latestObservedMillis + maxWindowMillis) ∧
      (values index).latestObservedMillis ≤ Duration.maxMillis := by
    intro index
    rcases h index with heq | heq <;> rw [heq]
    · exact ⟨h₁.consistent index, h₁.capacity_eq index, h₁.routed index, h₁.expires_le index,
        h₁.latest_le index⟩
    · exact ⟨h₂.consistent index, h₂.capacity_eq index, h₂.routed index, h₂.expires_le index,
        h₂.latest_le index⟩
  exact ⟨fun index => (hshard index).1, fun index => (hshard index).2.1,
    fun index => (hshard index).2.2.1, fun index => (hshard index).2.2.2.1,
    fun index => (hshard index).2.2.2.2⟩

/-- The stored entries never exceed the global capacity. -/
theorem Invariant.sum_used_le (h : Invariant values) :
    ∑ index, (values index).used ≤ config.maxKeys := by
  rw [← config.sum_shardCapacity]
  refine Finset.sum_le_sum fun index _ => ?_
  rw [← h.capacity_eq index]
  exact (h.consistent index).used_le

/-- A stored entry that has not expired does so within the longest window. -/
theorem Invariant.current (h : Invariant values)
    (hlatest : (values (shardIndex config key)).latestObservedMillis ≤ now) :
    Current now (activeAt values key now) := by
  intro active hact
  obtain ⟨hlook, hlt⟩ := Shard.activeEntry_eq_some.mp hact
  refine ⟨hlt, (h.expires_le _ _ _ hlook).trans ?_⟩
  exact Nat.add_le_add_right hlatest _

theorem charges_eq_some {entry : StoredEntry E} (h : charges l key = some entry) :
    (key, entry) ∈ l := by
  induction l with
  | nil =>
    simp [charges] at h
  | cons head rest ih =>
    obtain ⟨key', entry'⟩ := head
    rw [charges, Option.or_eq_some_iff] at h
    rcases h with hrest | ⟨-, hhead⟩
    · exact mem_cons_of_mem _ (ih hrest)
    · split_ifs at hhead with heq
      cases hhead
      exact heq ▸ mem_cons_self

theorem charges_eq_none : charges l key = none ↔ key ∉ l.map Prod.fst := by
  induction l with
  | nil =>
    simp [charges]
  | cons head rest ih =>
    obtain ⟨key', entry'⟩ := head
    simp only [charges, Option.or_eq_none_iff, ih, map_cons, mem_cons, not_or]
    constructor
    · rintro ⟨hrest, hhead⟩
      refine ⟨?_, hrest⟩
      intro heq
      simp [heq] at hhead
    · rintro ⟨hne, hrest⟩
      exact ⟨hrest, if_neg hne⟩

section Effect

variable {values values' : Values config E}
variable {touched : List (Fin config.shardCount)}
variable {charge : CounterKey → Option (StoredEntry E)}

/-- The active entries after a call, at its time and later. -/
theorem Effect.activeAt_eq (h : Effect now touched charge values values') (key : CounterKey)
    (hle : now ≤ later) :
    activeAt values' key later =
      match charge key with
      | some entry =>
        if entry.expiresAtMillis > later then some (entry.value, entry.expiresAtMillis)
        else none
      | none => activeAt values key later := by
  cases hcharge : charge key with
  | some entry =>
    simp only [activeAt, Shard.activeEntry, (h.charged key entry hcharge).2]
  | none =>
    unfold activeAt Shard.activeEntry
    rcases h.kept (shardIndex config key) key (.inl hcharge) with heq | ⟨hnone, entry, hentry, hx⟩
    · rw [heq]
    · simp [hnone, hentry, hx.trans hle]

/-- A call that charges nothing leaves every active entry as it was. -/
theorem Effect.activeAt_of_no_charge (h : Effect now touched (charges []) values values')
    (key : CounterKey) (hle : now ≤ later) :
    activeAt values' key later = activeAt values key later :=
  h.activeAt_eq key hle

/-- A call keeps the invariant if its charges expire within the longest window. -/
theorem Effect.invariant (h : Effect now touched charge values values')
    (hinv : Invariant values) (hnow : now ≤ Duration.maxMillis)
    (hlatest : ∀ index ∈ touched, (values index).latestObservedMillis ≤ now)
    (hcharge : ∀ key entry, charge key = some entry →
      entry.expiresAtMillis ≤ now + maxWindowMillis) :
    Invariant values' := by
  have hsrc : ∀ index key entry, (values' index).entries.lookup key = some entry →
      (charge key = some entry ∧ index = shardIndex config key) ∨
        (values index).entries.lookup key = some entry := by
    intro index key entry hlook
    by_cases hc : charge key = none ∨ index ≠ shardIndex config key
    · rcases h.kept index key hc with heq | ⟨hnone, -⟩
      · exact .inr (heq ▸ hlook)
      · rw [hlook] at hnone
        cases hnone
    · push Not at hc
      obtain ⟨hsome, rfl⟩ := hc
      obtain ⟨entry', hentry'⟩ := Option.ne_none_iff_exists'.mp hsome
      have hcharged := (h.charged key entry' hentry').2
      rw [hlook] at hcharged
      cases hcharged
      exact .inl ⟨hentry', rfl⟩
  have hmono : ∀ index,
      (values index).latestObservedMillis ≤ (values' index).latestObservedMillis := by
    intro index
    by_cases hin : index ∈ touched
    · rw [h.latest_eq index hin]
      exact hlatest index hin
    · rw [h.untouched index hin]
  refine ⟨h.consistent, fun index => (h.capacity_eq index).trans (hinv.capacity_eq index),
    ?_, ?_, ?_⟩
  · intro index key entry hlook
    rcases hsrc index key entry hlook with ⟨-, rfl⟩ | hold
    · rfl
    · exact hinv.routed index key entry hold
  · intro index key entry hlook
    rcases hsrc index key entry hlook with ⟨hc, rfl⟩ | hold
    · rw [h.latest_eq _ (h.charged key entry hc).1]
      exact hcharge key entry hc
    · exact (hinv.expires_le index key entry hold).trans (Nat.add_le_add_right (hmono index) _)
  · intro index
    by_cases hin : index ∈ touched
    · rw [h.latest_eq index hin]
      exact hnow
    · rw [h.untouched index hin]
      exact hinv.latest_le index

variable {touched' : List (Fin config.shardCount)}

/-- Only the set of touched shards matters. -/
theorem Effect.congr (h : Effect now touched charge values values')
    (hmem : ∀ index, index ∈ touched ↔ index ∈ touched') :
    Effect now touched' charge values values' :=
  ⟨fun index hout => h.untouched index (mt (hmem index).mp hout),
    fun index hin => h.latest_eq index ((hmem index).mpr hin),
    h.capacity_eq, h.consistent,
    fun key entry hcharge => ⟨(hmem _).mp (h.charged key entry hcharge).1,
      (h.charged key entry hcharge).2⟩,
    h.kept⟩

theorem charges_append_singleton
    (l : List (CounterKey × StoredEntry E)) (key key' : CounterKey) (entry : StoredEntry E) :
    charges (l ++ [(key', entry)]) key = if key = key' then some entry else charges l key := by
  induction l with
  | nil =>
    simp [charges]
  | cons head rest ih =>
    simp only [cons_append, charges, ih]
    split_ifs <;> simp

/-- A charge under the locks of a call. -/
theorem Effect.addCharge {l : List (CounterKey × StoredEntry E)}
    (h : Effect now touched (charges l) values values') (hin : shardIndex config key ∈ touched)
    (hroom : key ∈ (values' (shardIndex config key)).entries ∨
      (values' (shardIndex config key)).used < (values' (shardIndex config key)).capacity)
    (entry : StoredEntry E) :
    Effect now touched (charges (l ++ [(key, entry)])) values
      (Function.update values' (shardIndex config key)
        ((values' (shardIndex config key)).replace key entry.value entry.expiresAtMillis).1) := by
  set index := shardIndex config key with hidx
  refine ⟨?_, ?_, ?_, ?_, ?_, ?_⟩
  · intro other hother
    have hne : other ≠ index := fun heq => hother (by rw [heq]; exact hin)
    rw [update_of_ne hne]
    exact h.untouched other hother
  · intro other hother
    rcases eq_or_ne other index with rfl | hne
    · rw [update_self]
      exact h.latest_eq index hother
    · rw [update_of_ne hne]
      exact h.latest_eq other hother
  · intro other
    rcases eq_or_ne other index with rfl | hne
    · rw [update_self]
      exact h.capacity_eq index
    · rw [update_of_ne hne]
      exact h.capacity_eq other
  · intro other
    rcases eq_or_ne other index with rfl | hne
    · rw [update_self]
      exact (h.consistent index).replace hroom _ _
    · rw [update_of_ne hne]
      exact h.consistent other
  · intro key' entry' hcharge
    rw [charges_append_singleton] at hcharge
    split_ifs at hcharge with hkey
    · cases hcharge
      subst hkey
      rw [← hidx, update_self, Shard.lookup_replace]
      exact ⟨hin, if_pos rfl⟩
    · obtain ⟨htouched, hlook⟩ := h.charged key' entry' hcharge
      refine ⟨htouched, ?_⟩
      rcases eq_or_ne (shardIndex config key') index with heq | hne
      · rw [heq, update_self, Shard.lookup_replace, if_neg hkey, ← heq]
        exact hlook
      · rw [update_of_ne hne]
        exact hlook
  · intro other key' hcharge
    rw [charges_append_singleton] at hcharge
    have hold : charges l key' = none ∨ other ≠ shardIndex config key' := by
      refine hcharge.imp_left fun hnone => ?_
      split_ifs at hnone
      exact hnone
    rcases eq_or_ne other index with rfl | hne
    · have hkey : key' ≠ key := by
        rintro rfl
        simp [← hidx] at hcharge
      rw [update_self, Shard.lookup_replace, if_neg hkey]
      exact h.kept index key' hold
    · rw [update_of_ne hne]
      exact h.kept other key' hold

/-- The time is recorded and expired entries are removed in one shard. -/
theorem effect_prune (hcons : ∀ index, (values index).Consistent)
    (now maximum : Nat) (index : Fin config.shardCount) :
    Effect now [index] (charges []) values
      (Function.update values index
        (((values index).recordObservedMillis now).pruneExpired now maximum).1) := by
  have hspec := ((hcons index).recordObservedMillis now).pruneExpired_spec
    now maximum
  refine ⟨?_, ?_, ?_, ?_, ?_, ?_⟩
  · intro other hother
    exact update_of_ne (by simpa using hother) _ _
  · intro other hother
    obtain rfl : other = index := by simpa using hother
    rw [update_self, hspec.pruned.latest_eq]
    rfl
  · intro other
    rcases eq_or_ne other index with rfl | hne
    · rw [update_self, hspec.pruned.capacity_eq]
      rfl
    · rw [update_of_ne hne]
  · intro other
    rcases eq_or_ne other index with rfl | hne
    · rw [update_self]
      exact hspec.consistent
    · rw [update_of_ne hne]
      exact hcons other
  · intro key entry hcharge
    simp [charges] at hcharge
  · intro other key _
    rcases eq_or_ne other index with rfl | hne
    · rw [update_self]
      exact hspec.pruned.lookup_eq key
    · rw [update_of_ne hne]
      exact .inl rfl

/-- Two cleanups of one call. -/
theorem Effect.trans {values'' : Values config E}
    (h : Effect now touched (charges []) values values')
    (h' : Effect now touched' (charges []) values' values'') :
    Effect now (touched ++ touched') (charges []) values values'' := by
  refine ⟨?_, ?_, fun index => (h'.capacity_eq index).trans (h.capacity_eq index),
    h'.consistent, ?_, ?_⟩
  · intro index hidx
    rw [mem_append, not_or] at hidx
    rw [h'.untouched index hidx.2, h.untouched index hidx.1]
  · intro index hidx
    by_cases hin : index ∈ touched'
    · exact h'.latest_eq index hin
    · rw [h'.untouched index hin]
      exact h.latest_eq index ((mem_append.mp hidx).resolve_right hin)
  · intro key entry hcharge
    simp [charges] at hcharge
  · intro index key _
    have hfirst := h.kept index key (.inl rfl)
    rcases h'.kept index key (.inl rfl) with heq | ⟨hnone, hexp⟩
    · rwa [heq]
    · refine .inr ⟨hnone, ?_⟩
      rcases hfirst with heq | ⟨-, hexp'⟩
      · rwa [heq] at hexp
      · exact hexp'

/-- The cleanup loop touches the locked shards and charges nothing. -/
theorem effect_cleanupLocked (hcons : ∀ index, (values index).Consistent)
    (now : Nat) (locked : List (Fin config.shardCount × Nat)) :
    Effect now (locked.map Prod.fst) (charges []) values
      (cleanupLocked config now locked values).1 := by
  induction locked generalizing values with
  | nil =>
    exact ⟨fun _ _ => rfl, by simp, fun _ => rfl, hcons, by simp [charges],
      fun _ _ _ => .inl rfl⟩
  | cons head rest ih =>
    obtain ⟨index, checkCount⟩ := head
    have hhead := effect_prune hcons now
      (saturatingMul usizeMax config.maxExpiredRemovalsPerCheck checkCount) index
    exact hhead.trans (ih hhead.consistent)

/-- What the cleanup loop leaves in each locked shard. -/
theorem cleanupLocked_apply {locked : List (Fin config.shardCount × Nat)}
    (hnodup : (locked.map Prod.fst).Nodup) {index : Fin config.shardCount} {checkCount : Nat}
    (hin : (index, checkCount) ∈ locked) (values : Values config E) (now : Nat) :
    (cleanupLocked config now locked values).1 index =
      (((values index).recordObservedMillis now).pruneExpired now
        (saturatingMul usizeMax config.maxExpiredRemovalsPerCheck checkCount)).1 := by
  have hskip : ∀ (locked : List (Fin config.shardCount × Nat)) (values : Values config E),
      index ∉ locked.map Prod.fst →
        (cleanupLocked config now locked values).1 index = values index := by
    intro locked
    induction locked with
    | nil => exact fun _ _ => rfl
    | cons head rest ih =>
      intro values hout
      simp only [map_cons, mem_cons, not_or] at hout
      simp only [cleanupLocked]
      rw [ih _ hout.2, update_of_ne hout.1]
  induction locked generalizing values with
  | nil =>
    simp at hin
  | cons head rest ih =>
    obtain ⟨hout, hrest⟩ := nodup_cons.mp hnodup
    simp only [cleanupLocked]
    rcases mem_cons.mp hin with heq | hin'
    · subst heq
      rw [hskip rest _ hout, update_self]
    · have hne : index ≠ head.1 := by
        rintro rfl
        exact hout (mem_map.mpr ⟨_, hin', rfl⟩)
      rw [ih hrest hin', update_of_ne hne]

end Effect

/-! ### The time of a call -/

section Clamp

variable {values : Values config E} {touched : List (Fin config.shardCount)} {reading : Nat}

theorem foldl_max_le_iff {l : List Nat} {a b : Nat} :
    l.foldl max a ≤ b ↔ a ≤ b ∧ ∀ x ∈ l, x ≤ b := by
  induction l generalizing a with
  | nil => simp
  | cons x rest ih =>
    rw [foldl_cons, ih, max_le_iff, forall_mem_cons, and_assoc]

theorem clampedNow_le_iff {bound : Nat} : clampedNow values touched reading ≤ bound ↔
      reading ≤ bound ∧ ∀ index ∈ touched, (values index).latestObservedMillis ≤ bound := by
  unfold clampedNow
  rw [foldl_max_le_iff, forall_mem_map]

theorem reading_le_clampedNow : reading ≤ clampedNow values touched reading :=
  (clampedNow_le_iff.mp le_rfl).1

theorem latest_le_clampedNow {index : Fin config.shardCount} (h : index ∈ touched) :
    (values index).latestObservedMillis ≤ clampedNow values touched reading :=
  (clampedNow_le_iff.mp le_rfl).2 index h

/-- The order and the repetitions of the touched shards do not matter. -/
theorem clampedNow_congr {touched' : List (Fin config.shardCount)}
    (h : ∀ index, index ∈ touched ↔ index ∈ touched') :
    clampedNow values touched reading = clampedNow values touched' reading := by
  apply le_antisymm
  · exact clampedNow_le_iff.mpr
      ⟨reading_le_clampedNow, fun _ hin => latest_le_clampedNow ((h _).mp hin)⟩
  · exact clampedNow_le_iff.mpr
      ⟨reading_le_clampedNow, fun _ hin => latest_le_clampedNow ((h _).mpr hin)⟩

/-- A reading that no touched shard has passed is not clamped. -/
theorem clampedNow_eq_reading
    (h : ∀ index ∈ touched, (values index).latestObservedMillis ≤ reading) :
    clampedNow values touched reading = reading :=
  le_antisymm (clampedNow_le_iff.mpr ⟨le_rfl, h⟩) reading_le_clampedNow

theorem Invariant.clampedNow_le (h : Invariant values) (d : Duration) :
    clampedNow values touched d.asMillis ≤ Duration.maxMillis :=
  clampedNow_le_iff.mpr ⟨d.asMillis_le, fun index _ => h.latest_le index⟩

end Clamp

end Batter.Runlimit
