import Batter.Runlimit.Memory.Representation

/-!
# Runlimit memory store: a batch is its members one by one

A batch decides all members on the entries and the room it finds before it
charges anything; single checks at the same time see what the earlier ones have
charged.  `After` relates the two views: after some granted members the active
entries are the old ones with the grants on top, and a shard holds as many
active entries as before plus the granted members that were new to it.  From it
follows that the next member is settled alike (`After.settleMember_eq`), and by
induction that the batch and the sequence agree (`batch_agrees_with_sequence`).
-/

namespace Batter.Runlimit

open RustStd Runs List

variable {key : CounterKey} {reading : Duration} {config : MemoryStoreConfig} {now : Nat}
variable {P E ε : Type} {charged : List (CounterKey × StoredEntry E)}
variable {results : List (Except ε Decision)}

section After

variable [RateLimitPolicy P]
variable {values current : Values config E}

/-- Active entries are counted in the shard of their key. -/
theorem Invariant.mem_activeKeys (hinv : Invariant values) {index : Fin config.shardCount} :
    key ∈ (values index).activeKeys now ↔
      shardIndex config key = index ∧ (activeAt values key now).isSome := by
  rw [Shard.mem_activeKeys]
  constructor
  · intro hsome
    obtain ⟨active, hact⟩ := Option.isSome_iff_exists.mp hsome
    have hidx := hinv.routed index key _ (Shard.activeEntry_eq_some.mp hact).1
    subst hidx
    exact ⟨rfl, hsome⟩
  · rintro ⟨rfl, hsome⟩
    exact hsome

/-- The shards after the members with these charges were granted one by one. -/
structure After (values : Values config E) (nowMillis : Nat)
    (charged : List (CounterKey × StoredEntry E)) (current : Values config E) : Prop where
  invariant : Invariant current
  capacity_eq : ∀ index, (current index).capacity = (values index).capacity
  active_eq : ∀ key later, nowMillis ≤ later →
    activeAt current key later =
      match charges charged key with
      | some entry =>
        if entry.expiresAtMillis > later then some (entry.value, entry.expiresAtMillis)
        else none
      | none => activeAt values key later
  card_eq : ∀ index, ((current index).activeKeys nowMillis).card =
    ((values index).activeKeys nowMillis).card +
      waiting values nowMillis (charged.map Prod.fst) index

theorem After.start (hinv : Invariant values) : After values now [] values :=
  ⟨hinv, fun _ => rfl, fun _ _ _ => rfl, fun _ => rfl⟩

section

variable (h : After values now charged current)
include h

theorem After.activeAt_fresh (hkey : key ∉ charged.map Prod.fst) :
    activeAt current key now = activeAt values key now := by
  rw [h.active_eq key now le_rfl, charges_eq_none.mpr hkey]

/-- The room of the next member. -/
theorem After.hasRoom_iff (hkey : key ∉ charged.map Prod.fst) :
    HasRoom current now [] key ↔ HasRoom values now (charged.map Prod.fst) key := by
  unfold HasRoom
  rw [h.activeAt_fresh hkey, h.card_eq, h.capacity_eq]
  rfl

/-- The next member is settled as in the batch. -/
theorem After.settleMember_eq {meter : Meter P E} {target : Check P}
    (hkey : target.counterKey ∉ charged.map Prod.fst) :
    settleMember meter current now [] target =
      settleMember meter values now (charged.map Prod.fst) target := by
  unfold settleMember
  rw [h.activeAt_fresh hkey]
  refine congrArg (fun f => Option.map f _) ?_
  funext verdict
  cases verdict with
  | deny denial => rfl
  | allow grant => simp only [h.hasRoom_iff hkey]

end

theorem waiting_append
    (values : Values config E) (now : Nat) (keys : List CounterKey) (key : CounterKey)
    (index : Fin config.shardCount) :
    waiting values now (keys ++ [key]) index =
      waiting values now keys index +
        if shardIndex config key = index ∧ activeAt values key now = none then 1 else 0 := by
  simp [waiting, countP_append, countP_singleton]

/-- Granting the next member. -/
theorem After.step {entry : StoredEntry E} {next : Values config E}
    (h : After values now charged current) (hkey : key ∉ charged.map Prod.fst)
    (hact : now < entry.expiresAtMillis)
    (heff : Effect now [shardIndex config key] (charges [(key, entry)]) current next)
    (hinv : Invariant next) : After values now (charged ++ [(key, entry)]) next := by
  have hnext : ∀ other later, now ≤ later → activeAt next other later =
      if other = key then
        if entry.expiresAtMillis > later then some (entry.value, entry.expiresAtMillis) else none
      else activeAt current other later := by
    intro other later hle
    rw [heff.activeAt_eq other hle]
    by_cases hother : other = key <;> simp [charges, hother]
  refine ⟨hinv, fun index => (heff.capacity_eq index).trans (h.capacity_eq index), ?_, ?_⟩
  · intro other later hle
    rw [hnext other later hle, charges_append_singleton]
    split_ifs with hother hexp
    · simp [hexp]
    · simp [hexp]
    · exact h.active_eq other later hle
  · intro index
    rw [map_append, map_singleton, waiting_append, ← Nat.add_assoc, ← h.card_eq,
      ← h.activeAt_fresh hkey]
    have hmem : ∀ other, other ∈ (next index).activeKeys now ↔
        (shardIndex config key = index ∧ other = key) ∨ other ∈ (current index).activeKeys now := by
      intro other
      rw [hinv.mem_activeKeys, h.invariant.mem_activeKeys, hnext other now le_rfl]
      by_cases hother : other = key
      · subst hother
        simp [hact]
        exact fun hidx _ => hidx
      · simp [hother]
    by_cases hidx : shardIndex config key = index
    · have hins : (next index).activeKeys now =
          insert key ((current index).activeKeys now) := by
        ext other
        rw [hmem, Finset.mem_insert]
        simp [hidx]
      rw [hins]
      by_cases hold : activeAt current key now = none
      · rw [if_pos ⟨hidx, hold⟩, Finset.card_insert_of_notMem]
        rw [h.invariant.mem_activeKeys]
        simp [hold]
      · rw [if_neg (fun hboth => hold hboth.2), Nat.add_zero, Finset.insert_eq_of_mem]
        rw [h.invariant.mem_activeKeys]
        exact ⟨hidx, Option.isSome_iff_ne_none.mpr hold⟩
    · have hsame : (next index).activeKeys now =
          (current index).activeKeys now := by
        ext other
        rw [hmem]
        simp [hidx]
      rw [hsame, if_neg (fun hboth => hidx hboth.1), Nat.add_zero]

end After

section Sequence

variable [RateLimitPolicy P]

/-- Calls `check` on the members one by one, all with the same clock reading. -/
def MemoryLimiter.checkEach (limiter : MemoryLimiter config P E) (reading : Duration)
    (store : BoundedShards config E) (checks : List (Check P)) :
    Except Panic (List (Except limiter.CheckError Decision) × BoundedShards config E) :=
  execute (fun store target => limiter.check store target reading) store checks

variable {store : BoundedShards config E} {mode : QuotaMode} {settlement : BatchSettlement E}
variable {checks : List (Check P)}

variable (limiter : MemoryLimiter config P E)

/-- Single checks always return. -/
theorem MemoryLimiter.checkEach_ok (reading : Duration)
    (hinv : Invariant store.values) (checks : List (Check P)) :
    ∃ results store', limiter.checkEach reading store checks = .ok (results, store') := by
  have hcheck : ∀ (store : BoundedShards config E) (target : Check P), Invariant store.values →
      ∃ result store', (fun store target => limiter.check store target reading) store target =
        .ok (result, store') ∧ Invariant store'.values := by
    intro store target hinv
    obtain ⟨result, store', hcall, hspec⟩ := limiter.check_call hinv target reading
    exact ⟨result, store', hcall, hspec.invariant hinv⟩
  obtain ⟨results, store', hexecute, -⟩ := Runs.execute_invariant
    (fun store : BoundedShards config E => Invariant store.values) hcheck checks hinv
  exact ⟨results, store', hexecute⟩

/-- What single checks return when a batch with earlier members settles so. -/
def MatchesSettlement {ε : Type} (mode : QuotaMode) (offset : Nat)
    (settlement : BatchSettlement E) (results : List (Except ε Decision)) : Prop :=
  match settlement with
  | .granted grants => results = grants.map fun grant => .ok (.allowed grant.allowance)
  | .quotaDenied index denial =>
    ∃ (allowances : List Allowance) (later : List (Except ε Decision)),
      index = offset + allowances.length ∧
      results = allowances.map (fun allowance => .ok (.allowed allowance)) ++
        .ok (.quotaDenied mode denial) :: later
  | .noRoom index =>
    ∃ (allowances : List Allowance) (retryAfter : Option Delay)
      (later : List (Except ε Decision)),
      index = offset + allowances.length ∧
      results = allowances.map (fun allowance => .ok (.allowed allowance)) ++
        .ok (.denied (.storageCapacity retryAfter)) :: later

/-- One more granted member in front. -/
theorem MatchesSettlement.cons {offset : Nat}
    (h : MatchesSettlement mode (offset + 1) settlement results) (grant : Grant E) :
    MatchesSettlement mode offset (settlement.cons grant)
      (.ok (.allowed grant.allowance) :: results) := by
  cases settlement with
  | granted grants =>
    exact congrArg (_ :: ·) h
  | quotaDenied index denial =>
    obtain ⟨allowances, later, rfl, rfl⟩ := h
    refine ⟨grant.allowance :: allowances, later, ?_, rfl⟩
    rw [length_cons]
    omega
  | noRoom index =>
    obtain ⟨allowances, retryAfter, later, rfl, rfl⟩ := h
    refine ⟨grant.allowance :: allowances, retryAfter, later, ?_, rfl⟩
    rw [length_cons]
    omega

/-- Single checks at one time settle as the members of a batch. -/
theorem MemoryLimiter.checkEach_settles
    {values : Values config E} (hafter : After values reading.asMillis charged store.values)
    (hkeys : (charged.map Prod.fst ++ checks.map Check.counterKey).Nodup)
    (hhealthy : ∀ target ∈ checks, (store (shardIndex config target.counterKey)).poisoned = false)
    (hlatest : ∀ target ∈ checks,
      (store.values (shardIndex config target.counterKey)).latestObservedMillis ≤ reading.asMillis)
    (hmode : ∀ target ∈ checks, target.quotaMode = mode)
    (hsettle : settleBatch limiter.meter values reading.asMillis (charged.map Prod.fst) checks =
      some settlement) :
    ∃ results store', limiter.checkEach reading store checks = .ok (results, store') ∧
      MatchesSettlement mode charged.length settlement results ∧
      ∀ grants, settlement = .granted grants →
        After values reading.asMillis (charged ++ batchCharges checks grants) store'.values := by
  induction checks generalizing charged store settlement with
  | nil =>
    obtain rfl : .granted [] = settlement := by simpa [settleBatch] using hsettle
    refine ⟨[], store, rfl, rfl, ?_⟩
    intro grants hgrants
    cases hgrants
    simpa [batchCharges] using hafter
  | cons target rest ih =>
    have hkey : target.counterKey ∉ charged.map Prod.fst := by
      rw [map_cons, nodup_append] at hkeys
      exact fun hold => hkeys.2.2 _ hold _ mem_cons_self rfl
    have hnow : clampedNow store.values [shardIndex config target.counterKey] reading.asMillis =
        reading.asMillis := by
      refine clampedNow_eq_reading fun index hin => ?_
      rw [mem_singleton.mp hin]
      exact hlatest target mem_cons_self
    obtain ⟨result, next, hcall, hspec⟩ := limiter.check_call hafter.invariant target reading
    generalize hout : result.toOption = outcome at hspec
    have hinvNext := hspec.invariant hafter.invariant
    rw [settleBatch] at hsettle
    cases hspec with
    | poisoned hpois =>
      rw [hhealthy target mem_cons_self] at hpois
      cases hpois
    | overflow _ hover =>
      have hnone : settleMember limiter.meter store.values reading.asMillis [] target = none :=
        settleMember_eq_none.mpr (by rw [← hnow]; exact hover)
      rw [hafter.settleMember_eq hkey] at hnone
      simp [hnone] at hsettle
    | settled decision values' hhealthyTgt hstep =>
      obtain rfl := toOption_eq_some.mp hout
      rw [hnow] at hstep
      obtain ⟨results, last, hrest⟩ := limiter.checkEach_ok reading hinvNext rest
      cases hstep with
      | quotaDenied denial _ hmember _ =>
        rw [← hafter.settleMember_eq hkey, hmember] at hsettle
        obtain rfl : .quotaDenied _ denial = settlement := by simpa using hsettle
        refine ⟨_, last, execute_cons hcall hrest, ⟨[], results, by simp, ?_⟩, ?_⟩
        · rw [hmode target mem_cons_self]
          rfl
        · intro grants hgrants
          cases hgrants
      | noRoom retryAfter _ hmember _ =>
        rw [← hafter.settleMember_eq hkey, hmember] at hsettle
        obtain rfl : .noRoom _ = settlement := by simpa using hsettle
        refine ⟨_, last, execute_cons hcall hrest, ⟨[], retryAfter, results, by simp, rfl⟩, ?_⟩
        intro grants hgrants
        cases hgrants
      | allowed grant _ hmember heff =>
        have hlatestTgt := hlatest target mem_cons_self
        have hcur := limiter.meter.current (hafter.invariant.current hlatestTgt)
          (settleMember_eq_granted.mp hmember).1
        have hafterNext : After values reading.asMillis
            (charged ++ [(target.counterKey, grant.entry)])
            (store.withValues values').values :=
          hafter.step hkey hcur.1 heff hinvNext
        have hkeysNext : ((charged ++ [(target.counterKey, grant.entry)]).map Prod.fst ++
            rest.map Check.counterKey).Nodup := by simpa using hkeys
        have hhealthyNext : ∀ member ∈ rest, (store.withValues values'
            (shardIndex config member.counterKey)).poisoned = false :=
          fun member hin => hhealthy member (mem_cons_of_mem _ hin)
        rw [← hafter.settleMember_eq hkey, hmember] at hsettle
        obtain ⟨settlementRest, hsettleRest, rfl⟩ := Option.map_eq_some_iff.mp hsettle
        have hlatestNext : ∀ member ∈ rest, ((store.withValues values').values
            (shardIndex config member.counterKey)).latestObservedMillis ≤
              reading.asMillis := by
          intro member hin
          by_cases htouched :
              shardIndex config member.counterKey ∈ [shardIndex config target.counterKey]
          · exact (heff.latest_eq _ htouched).le
          · have hsame := heff.untouched _ htouched
            rw [BoundedShards.values_withValues, hsame]
            exact hlatest member (mem_cons_of_mem _ hin)
        obtain ⟨results, last, hrun, hmatches, hgranted⟩ := ih hafterNext hkeysNext
          hhealthyNext hlatestNext (fun member hin => hmode member (mem_cons_of_mem _ hin))
          (by simpa using hsettleRest)
        rw [length_append, length_singleton] at hmatches
        refine ⟨_, last, execute_cons hcall hrun, hmatches.cons grant, ?_⟩
        intro grants hgrants
        cases settlementRest with
        | granted grantsRest =>
          cases hgrants
          simpa [batchCharges] using hgranted grantsRest rfl
        | quotaDenied index denial => cases hgrants
        | noRoom index => cases hgrants

/-- The outcome of a batch next to what single checks returned: `results` are the
single results, `values` and `values'` the shards after the batch and after the
single checks. -/
inductive AgreesWithSequence {ε : Type} (nowMillis : Nat) (values values' : Values config E) :
    BatchDecision → List (Except ε Decision) → Prop
  | allowed (allowances : List Allowance) (hne : allowances ≠ [])
      (hact : ∀ key, activeAt values key nowMillis = activeAt values' key nowMillis) :
      AgreesWithSequence nowMillis values values' (.allowed allowances hne)
        (allowances.map fun allowance => .ok (.allowed allowance))
  | quotaExceeded (allowances : List Allowance) (size : Nat) (denial : QuotaDenial)
      (later : List (Except ε Decision)) (hlt : allowances.length < size) :
      AgreesWithSequence nowMillis values values'
        (.denied allowances.length size (.quotaExceeded denial) hlt)
        (allowances.map (fun allowance => .ok (.allowed allowance)) ++
          .ok (.denied (.quotaExceeded denial)) :: later)
  | shadowDenied (allowances : List Allowance) (size : Nat) (denial : QuotaDenial)
      (later : List (Except ε Decision)) (hlt : allowances.length < size) :
      AgreesWithSequence nowMillis values values'
        (.shadowDenied allowances.length size denial hlt)
        (allowances.map (fun allowance => .ok (.allowed allowance)) ++
          .ok (.shadowDenied denial) :: later)
  | storageCapacity (allowances : List Allowance) (size : Nat)
      (retryAfter retryAfter' : Option Delay) (later : List (Except ε Decision))
      (hlt : allowances.length < size) :
      AgreesWithSequence nowMillis values values'
        (.denied allowances.length size (.storageCapacity retryAfter) hlt)
        (allowances.map (fun allowance => .ok (.allowed allowance)) ++
          .ok (.denied (.storageCapacity retryAfter')) :: later)

theorem AgreesWithSequence.allowed_iff {values values' : Values config E} {decision : BatchDecision}
    (h : AgreesWithSequence now values values' decision results) :
    (∃ allowances hne, decision = .allowed allowances hne) ↔
      ∀ result ∈ results, ∃ allowance, result = .ok (.allowed allowance) := by
  cases h with
  | allowed allowances hne _ => simp [hne]
  | quotaExceeded allowances size denial later hlt =>
    refine ⟨by simp, fun hall => ?_⟩
    simpa [Decision.allowed] using hall (.ok (.denied (.quotaExceeded denial))) (by simp)
  | shadowDenied allowances size denial later hlt =>
    refine ⟨by simp, fun hall => ?_⟩
    simpa [Decision.allowed, Decision.shadowDenied] using
      hall (.ok (.shadowDenied denial)) (by simp)
  | storageCapacity allowances size retryAfter retryAfter' later hlt =>
    refine ⟨by simp, fun hall => ?_⟩
    simpa [Decision.allowed] using hall (.ok (.denied (.storageCapacity retryAfter'))) (by simp)

/-- The batch returns, the single checks return, and they agree. -/
def MemoryLimiter.BatchMatchesSequence
    (store : BoundedShards config E) (checks : List (Check P)) (reading : Duration) : Prop :=
  ∃ decision store' results store'',
    limiter.checkAll store checks reading = .ok (.ok decision, store') ∧
    limiter.checkEach reading store checks = .ok (results, store'') ∧
    AgreesWithSequence reading.asMillis store'.values store''.values decision results ∧
    ((∃ allowances hne, decision = .allowed allowances hne) ↔
      ∀ result ∈ results, ∃ allowance, result = .ok (.allowed allowance))

theorem MemoryLimiter.batchMatchesSequence {store : BoundedShards config E}
    (hinv : Invariant store.values) (hready : BatchReady store checks)
    (hlatest : ∀ index ∈ touchedBy config checks,
      (store.values index).latestObservedMillis ≤ reading.asMillis)
    (hjudged : ∀ target ∈ checks, limiter.meter.judge target reading.asMillis
      (activeAt store.values target.counterKey reading.asMillis) ≠ none) :
    limiter.BatchMatchesSequence store checks reading := by
  suffices hagree : ∃ decision store' results store'',
      limiter.checkAll store checks reading = .ok (.ok decision, store') ∧
      limiter.checkEach reading store checks = .ok (results, store'') ∧
      AgreesWithSequence reading.asMillis store'.values store''.values decision results by
    obtain ⟨decision, store', results, store'', hall, heach, hagree⟩ := hagree
    exact ⟨decision, store', results, store'', hall, heach, hagree, hagree.allowed_iff⟩
  have hnow : clampedNow store.values (touchedBy config checks) reading.asMillis =
      reading.asMillis := clampedNow_eq_reading hlatest
  have hin : ∀ target ∈ checks, shardIndex config target.counterKey ∈ touchedBy config checks :=
    fun target htgt => mem_map.mpr ⟨target, htgt, rfl⟩
  obtain ⟨hne, -, hmodes, hkeys⟩ := validateBatch_eq_ok_iff.mp hready.valid
  obtain ⟨first, hfirst⟩ := exists_mem_of_ne_nil checks hne
  have hstart : After store.values reading.asMillis [] store.values := .start hinv
  have hseq : ∀ settlement,
      settleBatch limiter.meter store.values reading.asMillis [] checks = some settlement →
      ∃ results store', limiter.checkEach reading store checks = .ok (results, store') ∧
        MatchesSettlement first.quotaMode 0 settlement results ∧
        ∀ grants, settlement = .granted grants →
          After store.values reading.asMillis (batchCharges checks grants) store'.values :=
    fun settlement hsettle => limiter.checkEach_settles hstart hkeys
      (fun target htgt => hready.healthy _ (hin target htgt))
      (fun target htgt => hlatest _ (hin target htgt))
      (fun target htgt => hmodes target htgt first hfirst) hsettle
  obtain ⟨result, store', hcall, hspec⟩ := limiter.checkAll_call hinv checks reading
  generalize hout : result.toOption = outcome at hspec
  cases hspec with
  | rejected hrejected => exact absurd hready hrejected
  | overflow _ hover =>
    obtain ⟨target, htgt, hnone⟩ := hover
    rw [hnow] at hnone
    exact absurd hnone (hjudged target htgt)
  | settled decision values' _ _ hstep =>
    obtain rfl := toOption_eq_some.mp hout
    rw [hnow] at hstep
    cases hstep with
    | allowed grants _ hsettle hgrants heff =>
      obtain ⟨results, last, heach, hmatches, hafter⟩ := hseq _ hsettle
      refine ⟨_, _, results, last, hcall, heach, ?_⟩
      have hresults : results = (grants.map Grant.allowance).map
          fun allowance => .ok (.allowed allowance) := by
        rw [map_map]
        exact hmatches
      rw [hresults]
      refine .allowed _ hgrants fun key => ?_
      rw [(hafter grants rfl).active_eq key _ le_rfl]
      exact heff.activeAt_eq key le_rfl
    | quotaDenied index denial mode _ _ hsettle hmode hdec heff =>
      obtain ⟨results, last, heach, ⟨allowances, later, hidx, rfl⟩, -⟩ := hseq _ hsettle
      obtain rfl : first.quotaMode = mode := hmode first hfirst
      obtain rfl : index = allowances.length := by omega
      obtain ⟨hlt, ⟨hshadow, rfl⟩ | ⟨henforce, rfl⟩⟩ := BatchDecision.newQuotaDenied_eq_ok hdec
      · refine ⟨_, _, _, last, hcall, heach, ?_⟩
        rw [hshadow]
        exact .shadowDenied allowances _ denial later hlt
      · refine ⟨_, _, _, last, hcall, heach, ?_⟩
        rw [Decision.quotaDenied, if_neg henforce]
        exact .quotaExceeded allowances _ denial later hlt
    | noRoom index retryAfter _ hsettle hlt heff =>
      obtain ⟨results, last, heach, ⟨allowances, retryAfter', later, hidx, rfl⟩, -⟩ :=
        hseq _ hsettle
      obtain rfl : index = allowances.length := by omega
      exact ⟨_, _, _, last, hcall, heach,
        .storageCapacity allowances _ retryAfter retryAfter' later hlt⟩

/-- A batch in the scope of the comparison: the store was reached by operations
and has no poisoned shard, the batch passes validation and finds its shards, and
the clock has not fallen behind them. -/
structure MemoryLimiter.Comparable (limiter : MemoryLimiter config P E)
    (store : BoundedShards config E) (checks : List (Check P)) (reading : Duration) : Prop where
  reachable : limiter.Reachable store
  healthy : ∀ index, (store index).poisoned = false
  valid : validateBatch checks config.maxBatchSize = .ok ()
  located : ∃ topology, BatchTopology.new config (touchedBy config checks) = .ok (.ok topology)
  latest_le : ∀ index ∈ touchedBy config checks,
    (store.values index).latestObservedMillis ≤ reading.asMillis

theorem MemoryLimiter.Comparable.ready {limiter : MemoryLimiter config P E}
    (h : limiter.Comparable store checks reading) : BatchReady store checks := by
  refine ⟨h.valid, ?_, fun index _ => h.healthy index⟩
  obtain ⟨topo, htopology⟩ := h.located
  rcases BatchTopology.new_spec (touchedBy config checks) with ⟨_, -, -, hfits⟩ | ⟨_, -, hfull⟩
  · exact hfits
  · rw [htopology] at hfull
    cases hfull

end Sequence

/-- For both stores a batch is equivalent to its members checked one by one: it
is allowed exactly when they all are, with the same allowances and the same
active entries afterwards, and otherwise it reports the first member that was
not allowed on its own, with the same kind of denial and the same quota denial.
For the GCRA store no evaluation may overflow. -/
theorem batch_agrees_with_sequence [Sha256] (config : MemoryStoreConfig) :
    (∀ (store : MemoryStore config) checks reading,
      (MemoryStore.limiter config).Comparable store checks reading →
        (MemoryStore.limiter config).BatchMatchesSequence store checks reading) ∧
    ∀ (store : GcraStore config) checks reading,
      (GcraStore.limiter config).Comparable store checks reading →
      (∀ target ∈ checks, ∃ evaluation, Gcra.evaluate target reading.asMillis
        (GcraStore.activeTat (activeAt store.values target.counterKey reading.asMillis)) =
          .ok evaluation) →
        (GcraStore.limiter config).BatchMatchesSequence store checks reading := by
  refine ⟨fun store checks reading h => ?_, fun store checks reading h hevaluates => ?_⟩
  · exact MemoryLimiter.batchMatchesSequence _ h.reachable.invariant h.ready h.latest_le
      fun _ _ => Option.some_ne_none _
  · refine MemoryLimiter.batchMatchesSequence _ h.reachable.invariant h.ready h.latest_le ?_
    intro target htgt hnone
    obtain ⟨overflow, hover⟩ := GcraStore.judge_eq_none.mp hnone
    obtain ⟨evaluation, heval⟩ := hevaluates target htgt
    rw [hover] at heval
    cases heval

section Logins

/-- The digests of `loginPolicy` and `pacedLoginPolicy`. -/
@[reducible] def loginSha256 : Sha256 :=
  .ofTable [(loginPolicy.fingerprintInput,
      0x1eaba2bf123b4024599fb627203066553aa46e5c95994e95a358a47bb00be770),
    (pacedLoginPolicy.fingerprintInput,
      0x713dfb72e8fd89fd58f03c124531c5cfa2a0b513ab002bee87f1eaaca8aa7d88)]

/-- A store with two shards of two keys each. -/
def twoShardConfig : MemoryStoreConfig :=
  ⟨4, 2, 1, 8, by decide, by decide, Nat.one_pos, singleKeyConfig.batchSize_pos, by decide,
    singleKeyConfig.batchSize_le⟩

variable {P E : Type} [RateLimitPolicy P] (limiter : MemoryLimiter twoShardConfig P E)

/-- The store after one check. -/
def MemoryLimiter.afterCheck (target : Check P) (reading : Duration) :
    BoundedShards twoShardConfig E :=
  match limiter.check (.new _ E) target reading with
  | .ok reply => reply.2
  | .error _ => .new _ E

theorem MemoryLimiter.reachable_afterCheck (target : Check P) (reading : Duration) :
    limiter.Reachable (limiter.afterCheck target reading) := by
  obtain ⟨result, store, hcall, -⟩ := limiter.check_call invariant_new target reading
  refine ⟨[.check target reading], [.decision result], ?_⟩
  simp only [Runs.execute, MemoryLimiter.step, MemoryLimiter.afterCheck, hcall]
  rfl

/-- A check of another key, and the one that was made once more. -/
theorem MemoryLimiter.comparable_afterCheck {target other : Check P} {earlier reading : Duration}
    (hmode : target.quotaMode = other.quotaMode) (hkey : other.counterKey ≠ target.counterKey)
    (hstore : ∀ index, (limiter.afterCheck target earlier index).poisoned = false ∧
      ((limiter.afterCheck target earlier).values index).latestObservedMillis ≤
        reading.asMillis) :
    limiter.Comparable (limiter.afterCheck target earlier) [other, target] reading := by
  refine ⟨limiter.reachable_afterCheck target earlier, fun index => (hstore index).1, ?_, ?_,
    fun index _ => (hstore index).2⟩
  · refine validateBatch_eq_ok_iff.mpr ⟨List.cons_ne_nil _ _, (by decide : 2 ≤ 8), ?_, ?_⟩
    · simp [hmode]
    · simpa using hkey
  · rcases BatchTopology.new_spec (touchedBy twoShardConfig [other, target]) with
      ⟨topology, htopology, -⟩ | ⟨index, hfull, -⟩
    · exact ⟨topology, htopology⟩
    · have hcap : ∀ index : Fin 2, twoShardConfig.shardCapacity index = 2 := by decide
      have hle : (touchedBy twoShardConfig [other, target]).count index ≤ 2 :=
        List.count_le_length
      rw [hcap index] at hfull
      omega

/-- The comparison applies to two logins on stores where one of the subjects has just logged in. -/
theorem batch_agrees_with_sequence_logins : letI : Sha256 := loginSha256
    let windows := (MemoryStore.limiter twoShardConfig).afterCheck (.new loginPolicy 7)
      (.fromMillis 5 (by decide))
    let buckets := (GcraStore.limiter twoShardConfig).afterCheck (.new pacedLoginPolicy 7)
      (.fromMillis 5 (by decide))
    (activeAt windows.values (Check.new loginPolicy 7).counterKey 10 ≠ none ∧
      (MemoryStore.limiter _).BatchMatchesSequence windows
        [.new loginPolicy 8, .new loginPolicy 7] (.fromMillis 10 (by decide))) ∧
    activeAt buckets.values (Check.new pacedLoginPolicy 7).counterKey 10 ≠ none ∧
      (GcraStore.limiter _).BatchMatchesSequence buckets
        [.new pacedLoginPolicy 8, .new pacedLoginPolicy 7] (.fromMillis 10 (by decide)) := by
  let _ : Sha256 := loginSha256
  obtain ⟨hwindows, hbuckets⟩ := batch_agrees_with_sequence twoShardConfig
  refine ⟨⟨by decide +kernel, hwindows _ _ _ ?_⟩, by decide +kernel, hbuckets _ _ _ ?_ ?_⟩
  · exact MemoryLimiter.comparable_afterCheck _ rfl (by decide +kernel) (by decide +kernel)
  · exact MemoryLimiter.comparable_afterCheck _ rfl (by decide +kernel) (by decide +kernel)
  · simp only [← toOption_eq_some, ← Option.isSome_iff_exists]
    decide +kernel

end Logins

end Batter.Runlimit
