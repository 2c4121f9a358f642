import Batter.Runlimit.Memory.Meter

/-!
# Runlimit memory store: facts about settled calls

Inversion lemmas for `settleMember` and `settleBatch`, the preservation of the
store invariant by `CheckStep` and `BatchStep`, and the link between the room
that a settlement asks for and what the source computes from pruned shards and
pending-insertion counts (`hasRoom_iff_of_pruned`, `pendingCounts_append`).
-/

namespace Batter.Runlimit

open RustStd List

variable {decision : BatchDecision} {key : CounterKey} {index pos : Nat} {denial : QuotaDenial}
variable {Q : Type}

variable {config : MemoryStoreConfig} {E P : Type} [RateLimitPolicy P]
variable {meter : Meter P E} {values : Values config E} {now : Nat}
variable {earlier : List CounterKey} {check : Check P}

/-! ### Inversion -/

theorem settleMember_eq_none : settleMember meter values now earlier check = none ↔
      meter.judge check now (activeAt values check.counterKey now) = none := by
  simp [settleMember]

variable {grants : List (Grant E)} {checks : List (Check P)}
variable {values' : Values config E} {cleaned : Values config E}
variable {locked : List (Fin config.shardCount)} {topology : BatchTopology config}
variable {later : List CounterKey}

theorem settleMember_eq_quotaDenied :
    settleMember meter values now earlier check = some (.quotaDenied denial) ↔
      meter.judge check now (activeAt values check.counterKey now) = some (.deny denial) := by
  grind [settleMember, Option.map_eq_some_iff, cases Verdict]

theorem settleMember_eq_granted {grant : Grant E} :
    settleMember meter values now earlier check = some (.granted grant) ↔
      meter.judge check now (activeAt values check.counterKey now) =
        some (.allow grant) ∧ HasRoom values now earlier check.counterKey := by
  grind [settleMember, Option.map_eq_some_iff, cases Verdict]

theorem settleMember_eq_noRoom : settleMember meter values now earlier check = some .noRoom ↔
      (∃ grant, meter.judge check now (activeAt values check.counterKey now) =
        some (.allow grant)) ∧ ¬HasRoom values now earlier check.counterKey := by
  grind [settleMember, Option.map_eq_some_iff, cases Verdict]

/-- A granted batch is granted member by member. -/
theorem settleBatch_cons_eq_granted {rest : List (Check P)} :
    settleBatch meter values now earlier (check :: rest) = some (.granted grants) ↔
      ∃ grant grants', grants = grant :: grants' ∧
        settleMember meter values now earlier check = some (.granted grant) ∧
        settleBatch meter values now (earlier ++ [check.counterKey]) rest =
          some (.granted grants') := by
  rw [settleBatch]
  cases hmember : settleMember meter values now earlier check with
  | none => simp
  | some settlement =>
    cases settlement with
    | quotaDenied denial => simp
    | noRoom => simp
    | granted grant =>
      cases settleBatch meter values now (earlier ++ [check.counterKey]) rest with
      | none => simp
      | some rest' => cases rest' <;> simp [BatchSettlement.cons, eq_comm]

section

variable (h : settleBatch meter values now earlier checks = some (.granted grants))
include h

/-- The grants of a batch are the judgements of its members on the active
entries before the batch. -/
theorem judge_of_settleBatch_granted : List.Forall₂
      (fun check grant =>
        meter.judge check now (activeAt values check.counterKey now) = some (.allow grant))
      checks grants := by
  induction checks generalizing earlier grants with
  | nil =>
    obtain rfl : grants = [] := by simpa [settleBatch, eq_comm] using h
    exact .nil
  | cons check rest ih =>
    obtain ⟨grant, grants', rfl, hmember, hrest⟩ := settleBatch_cons_eq_granted.mp h
    exact .cons (settleMember_eq_granted.mp hmember).1 (ih hrest)

theorem allowances_ne_nil (hne : checks ≠ []) : grants.map Grant.allowance ≠ [] := by
  intro hnil
  have hlength := (judge_of_settleBatch_granted h).length_eq
  rw [map_eq_nil_iff.mp hnil, length_nil, length_eq_zero_iff] at hlength
  exact hne hlength

end

/-- A quota denial of a batch is the judgement of the member it names, and the
members before it would be let through. -/
theorem judge_of_settleBatch_quotaDenied
    (h : settleBatch meter values now earlier checks = some (.quotaDenied index denial)) :
    ∃ before check after, checks = before ++ check :: after ∧
      index = earlier.length + before.length ∧
      (∀ member ∈ before, ∃ grant, meter.judge member now
        (activeAt values member.counterKey now) = some (.allow grant)) ∧
      meter.judge check now (activeAt values check.counterKey now) = some (.deny denial) := by
  induction checks generalizing earlier with
  | nil =>
    simp [settleBatch] at h
  | cons check rest ih =>
    rw [settleBatch] at h
    cases hmember : settleMember meter values now earlier check with
    | none => simp [hmember] at h
    | some settlement =>
      cases settlement with
      | noRoom => simp [hmember] at h
      | quotaDenied denial' =>
        simp only [hmember, Option.some.injEq, BatchSettlement.quotaDenied.injEq] at h
        obtain ⟨rfl, rfl⟩ := h
        exact ⟨[], check, rest, rfl, rfl, by simp, settleMember_eq_quotaDenied.mp hmember⟩
      | granted grant =>
        simp only [hmember, Option.map_eq_some_iff] at h
        obtain ⟨rest', hrest, heq⟩ := h
        cases rest' with
        | granted grants => cases heq
        | noRoom index' => cases heq
        | quotaDenied index' denial' =>
          cases heq
          obtain ⟨before, member, after, rfl, rfl, hbefore, hjudge⟩ := ih hrest
          refine ⟨check :: before, member, after, rfl, ?_, ?_, hjudge⟩
          · simp only [length_append, length_cons, length_nil]
            omega
          · exact forall_mem_cons.mpr
              ⟨⟨grant, (settleMember_eq_granted.mp hmember).1⟩, hbefore⟩

/-! ### Grants are current -/

theorem granted_current (hinv : Invariant values)
    (hlatest : ∀ index ∈ touchedBy config checks, (values index).latestObservedMillis ≤ now)
    (h : List.Forall₂
      (fun check grant =>
        meter.judge check now (activeAt values check.counterKey now) = some (.allow grant))
      checks grants)
    {entry : StoredEntry E}
    (hin : (key, entry) ∈ batchCharges checks grants) :
    now < entry.expiresAtMillis ∧ entry.expiresAtMillis ≤ now + maxWindowMillis := by
  induction h with
  | nil =>
    simp [batchCharges] at hin
  | @cons check grant checks grants hjudge _ ih =>
    simp only [touchedBy, map_cons, forall_mem_cons] at hlatest
    simp only [batchCharges, map_cons, zip_cons_cons, mem_cons, Prod.mk.injEq] at hin
    rcases hin with ⟨-, rfl⟩ | hin
    · exact meter.current (hinv.current hlatest.1) hjudge
    · exact ih hlatest.2 hin

/-! ### The invariant along steps -/

theorem CheckStep.invariant {decision : Decision}
    (h : CheckStep meter values now check decision values') (hinv : Invariant values)
    (hnow : now ≤ Duration.maxMillis)
    (hlatest : (values (shardIndex config check.counterKey)).latestObservedMillis ≤ now) :
    Invariant values' := by
  have hall : ∀ index ∈ [shardIndex config check.counterKey],
      (values index).latestObservedMillis ≤ now := by simpa using hlatest
  cases h with
  | allowed grant _ hsettle heff =>
    refine heff.invariant hinv hnow hall ?_
    intro key entry hcharge
    obtain ⟨rfl, rfl⟩ : key = check.counterKey ∧ entry = grant.entry := by
      simpa using charges_eq_some hcharge
    exact (meter.current (hinv.current hlatest) (settleMember_eq_granted.mp hsettle).1).2
  | quotaDenied _ _ _ heff | noRoom _ _ _ heff =>
    exact heff.invariant hinv hnow hall (by simp [charges])

theorem BatchStep.invariant (h : BatchStep meter values now checks decision values')
    (hinv : Invariant values) (hnow : now ≤ Duration.maxMillis)
    (hlatest : ∀ index ∈ touchedBy config checks, (values index).latestObservedMillis ≤ now) :
    Invariant values' := by
  cases h with
  | allowed grants _ hsettle _ heff =>
    refine heff.invariant hinv hnow hlatest ?_
    intro key entry hcharge
    exact (granted_current hinv hlatest (judge_of_settleBatch_granted hsettle)
      (charges_eq_some hcharge)).2
  | quotaDenied _ _ _ _ _ _ _ _ heff | noRoom _ _ _ _ _ heff =>
    exact heff.invariant hinv hnow hlatest (by simp [charges])

/-! ### Room in pruned shards -/

/-- How many of the keys will need a new entry in a pruned shard. -/
def pendingCount (cleaned : Values config E) (keys : List CounterKey)
    (index : Fin config.shardCount) : Nat :=
  keys.countP fun key =>
    decide (shardIndex config key = index) && !(cleaned index).containsKey key

/-- A pruned shard has no room for a key behind the keys that wait for an entry. -/
abbrev IsFull (cleaned : Values config E) (earlier : List CounterKey) (key : CounterKey) : Prop :=
  (cleaned (shardIndex config key)).containsKey key = false ∧
    (cleaned (shardIndex config key)).capacity ≤
      (cleaned (shardIndex config key)).used + pendingCount cleaned earlier (shardIndex config key)

/-- The room that a settlement asks for is what the source computes from the
pruned shard, as long as pruning may remove one entry for every key waiting. -/
theorem hasRoom_iff_of_pruned {maximum : Nat} (hcons : (values (shardIndex config key)).Consistent)
    (hcleaned : cleaned (shardIndex config key) =
      (((values (shardIndex config key)).recordObservedMillis now).pruneExpired now maximum).1)
    (hlen : earlier.countP (fun k => decide (shardIndex config k = shardIndex config key)) <
      maximum) :
    HasRoom values now earlier key ↔ ¬ IsFull cleaned earlier key := by
  unfold IsFull
  set index := shardIndex config key with hidx
  set recorded := (values index).recordObservedMillis now with hrecorded
  have hrec : recorded.Consistent := hcons.recordObservedMillis now
  have hcap : (cleaned index).capacity = recorded.capacity := by
    rw [hcleaned]
    exact (hrec.pruneExpired_spec now maximum).pruned.capacity_eq
  have hfilter :
      (earlier.filter fun k => decide (shardIndex config k = index)).length < maximum := by
    rwa [← countP_eq_length_filter]
  have hmain := hrec.noRoom_pruneExpired_iff hfilter now key
  simp only [countP_filter] at hmain
  rw [← hcleaned] at hmain
  have hpend : (earlier.countP fun k =>
      (!(cleaned index).containsKey k) && decide (shardIndex config k = index)) =
        pendingCount cleaned earlier index :=
    countP_congr fun k _ => by rw [Bool.and_comm]
  have hwaiting : (earlier.countP fun k =>
      (recorded.activeEntry k now).isNone && decide (shardIndex config k = index)) =
        waiting values now earlier index := by
    refine countP_congr fun k _ => ?_
    simp only [Bool.and_eq_true, decide_eq_true_eq]
    constructor
    · rintro ⟨hnone, hk⟩
      refine ⟨hk, ?_⟩
      unfold activeAt
      rw [hk]
      exact hnone
    · rintro ⟨hk, hnone⟩
      refine ⟨?_, hk⟩
      unfold activeAt at hnone
      rw [hk] at hnone
      exact hnone
  rw [hpend, hwaiting] at hmain
  rw [hcap, hmain]
  unfold HasRoom activeAt
  rw [← hidx, not_and_or, not_le, ← ne_eq, Option.ne_none_iff_isSome]
  rfl

theorem pendingCount_nil (cleaned : Values config E) (index : Fin config.shardCount) :
    pendingCount cleaned [] index = 0 :=
  rfl

theorem pendingCount_append (cleaned : Values config E) (keys : List CounterKey) (key : CounterKey)
    (index : Fin config.shardCount) :
    pendingCount cleaned (keys ++ [key]) index =
      pendingCount cleaned keys index +
        if shardIndex config key = index ∧ (cleaned index).containsKey key = false then 1
        else 0 := by
  simp [pendingCount, countP_append, countP_singleton]

/-- A stored member does not change the counts of pending insertions. -/
theorem pendingCounts_stored (hstored : (cleaned (shardIndex config key)).containsKey key = true) :
    locked.map (pendingCount cleaned (earlier ++ [key])) =
      locked.map (pendingCount cleaned earlier) := by
  refine map_congr_left fun index _ => ?_
  rw [pendingCount_append, if_neg, Nat.add_zero]
  rintro ⟨rfl, hnot⟩
  rw [hstored] at hnot
  cases hnot

/-- A new member adds one pending insertion at the position of its shard. -/
theorem pendingCounts_append (hnodup : locked.Nodup)
    (hpos : locked[pos]? = some (shardIndex config key))
    (hnew : (cleaned (shardIndex config key)).containsKey key = false) :
    (locked.map (pendingCount cleaned earlier)).set pos
        (pendingCount cleaned earlier (shardIndex config key) + 1) =
      locked.map (pendingCount cleaned (earlier ++ [key])) := by
  obtain ⟨hlt, hget⟩ := List.getElem?_eq_some_iff.mp hpos
  refine List.ext_getElem (by simp) fun other hother hother' => ?_
  have hother'' : other < locked.length := by simpa using hother'
  rw [List.getElem_set, List.getElem_map, List.getElem_map, pendingCount_append]
  by_cases heq : pos = other
  · subst heq
    simp [hget, hnew]
  · have hne : shardIndex config key ≠ locked[other] := by
      rw [← hget]
      exact fun h => heq ((hnodup.getElem_inj_iff).mp h)
    rw [if_neg heq, if_neg fun h => hne h.1]
    rfl

/-- The delay of a storage denial fits the type it is converted to. -/
theorem storageCapacityDenial_eq_ok {shard : Shard E} (hcons : shard.Consistent)
    (hexp : ∀ key entry, shard.entries.lookup key = some entry →
      entry.expiresAtMillis ≤ now + maxWindowMillis) :
    ∃ retryAfter, shard.storageCapacityDenial now = .ok (.storageCapacity retryAfter) := by
  unfold Shard.storageCapacityDenial Shard.capacityRetryAfterMillis
  cases hfirst : shard.firstExpiration with
  | none => exact ⟨none, rfl⟩
  | some expiry =>
    obtain ⟨entry, hentry, hx⟩ := (hcons.mem_expirations expiry).mp
      (Shard.firstExpiration_eq_some hfirst).1
    have hle := hexp _ _ hentry
    have hfits : max (expiry.expiresAtMillis - now) 1 ≤ u64Max := by
      have hmax := maxWindowMillis_le_u64Max
      have hone : 1 ≤ u64Max := by decide
      omega
    refine ⟨some ⟨.fromMillis _ hfits⟩, ?_⟩
    simp [Shard.durationFromMillis, hfits, bind, Except.bind, pure, Except.pure]

/-- Entries that survive a cleanup still expire within the longest window. -/
theorem Effect.expires_le {touched : List (Fin config.shardCount)}
    (h : Effect now touched (charges []) values cleaned) (hinv : Invariant values)
    {index : Fin config.shardCount} (hlatest : (values index).latestObservedMillis ≤ now)
    (key : CounterKey) (entry : StoredEntry E)
    (hlook : (cleaned index).entries.lookup key = some entry) :
    entry.expiresAtMillis ≤ now + maxWindowMillis := by
  rcases h.kept index key (.inl rfl) with heq | ⟨hnone, -⟩
  · rw [hlook] at heq
    exact (hinv.expires_le index key entry heq.symm).trans (Nat.add_le_add_right hlatest _)
  · rw [hlook] at hnone
    cases hnone

/-- What a single check may rely on in its pruned shard. -/
structure CleanedShard (values : Values config E) (nowMillis : Nat) (key : CounterKey)
    (pruned : Shard E) : Prop where
  consistent : pruned.Consistent
  activeEntry_eq : pruned.activeEntry key nowMillis = activeAt values key nowMillis
  expires_le : ∀ key entry, pruned.entries.lookup key = some entry →
    entry.expiresAtMillis ≤ nowMillis + maxWindowMillis
  hasRoom_iff : HasRoom values nowMillis [] key ↔
    ¬(pruned.containsKey key = false ∧ pruned.capacity ≤ pruned.used)
  effect : Effect nowMillis [shardIndex config key] (charges []) values
    (Function.update values (shardIndex config key) pruned)
  effect_replace : HasRoom values nowMillis [] key → ∀ entry : StoredEntry E,
    Effect nowMillis [shardIndex config key] (charges [(key, entry)]) values
      (Function.update values (shardIndex config key)
        (pruned.replace key entry.value entry.expiresAtMillis).1)

theorem Invariant.cleanedShard (hinv : Invariant values)
    (hlatest : (values (shardIndex config key)).latestObservedMillis ≤ now) :
    CleanedShard values now key
      (((values (shardIndex config key)).recordObservedMillis now).pruneExpired now
        config.maxExpiredRemovalsPerCheck).1 := by
  set index := shardIndex config key with hidx
  set pruned := (((values index).recordObservedMillis now).pruneExpired now
    config.maxExpiredRemovalsPerCheck).1 with hpruned
  have heff : Effect now [index] (charges []) values
      (Function.update values index pruned) := effect_prune hinv.consistent _ _ _
  have hself : Function.update values index pruned index = pruned := Function.update_self ..
  have hroom : HasRoom values now [] key ↔
      ¬(pruned.containsKey key = false ∧ pruned.capacity ≤ pruned.used) := by
    have hone : ([] : List CounterKey).countP (fun k => decide (shardIndex config k = index)) <
        config.maxExpiredRemovalsPerCheck := config.removals_pos
    have hiff := hasRoom_iff_of_pruned (hinv.consistent _) (hself.trans hpruned) hone
    rwa [IsFull, ← hidx, hself, pendingCount_nil, Nat.add_zero] at hiff
  refine ⟨?_, ?_, ?_, hroom, heff, ?_⟩
  · rw [← hself]
    exact heff.consistent index
  · have hact := heff.activeAt_of_no_charge key (le_refl now)
    rwa [activeAt, ← hidx, hself] at hact
  · intro other entry hlook
    rw [← hself] at hlook
    exact heff.expires_le hinv hlatest other entry hlook
  · intro hfree entry
    have hplace : key ∈ pruned.entries ∨ pruned.used < pruned.capacity := by
      have hnot := hroom.mp hfree
      rw [not_and_or, not_le, Bool.not_eq_false] at hnot
      exact hnot.imp_left of_decide_eq_true
    have hin : shardIndex config key ∈ [index] := mem_singleton_self _
    have hcharge := heff.addCharge hin (by rwa [← hidx, hself]) entry
    rwa [← hidx, hself, Function.update_idem] at hcharge

/-- A verdict carried out in a pruned shard. -/
def CarriedOut (shard : Shard E) (check : Check P) (verdict : Verdict E)
    (decided : Except Panic (Decision × Shard E)) : Prop :=
  match verdict with
  | .deny denial => decided = .ok (.quotaDenied check.quotaMode denial, shard)
  | .allow grant =>
    if shard.containsKey check.counterKey = false ∧ shard.capacity ≤ shard.used then
      ∃ retryAfter, decided = .ok (.denied (.storageCapacity retryAfter), shard)
    else
      decided = .ok (.allowed grant.allowance,
        (shard.replace check.counterKey grant.value grant.expiresAtMillis).1)

/-- A grant is carried out where there is room for its key. -/
theorem carriedOut_allow
    {shard : Shard E} {grant : Grant E} {consume : Except Panic (Allowance × Shard E)}
    (hcons : shard.Consistent)
    (hexp : ∀ key entry, shard.entries.lookup key = some entry →
      entry.expiresAtMillis ≤ now + maxWindowMillis)
    (hconsume : consume = .ok (grant.allowance,
      (shard.replace check.counterKey grant.value grant.expiresAtMillis).1)) :
    CarriedOut shard check (.allow grant)
      (if !shard.containsKey check.counterKey && shard.used ≥ shard.capacity then do
        let denial ← shard.storageCapacityDenial now
        pure (.denied denial, shard)
      else do
        let consumed ← consume
        pure (.allowed consumed.1, consumed.2)) := by
  rw [CarriedOut]
  by_cases hfull : shard.containsKey check.counterKey = false ∧ shard.capacity ≤ shard.used
  · obtain ⟨retryAfter, hretry⟩ := storageCapacityDenial_eq_ok hcons hexp
    rw [if_pos hfull]
    refine ⟨retryAfter, ?_⟩
    simp [bind, Except.bind, hfull, hretry, pure, Except.pure]
  · have hroom : (!shard.containsKey check.counterKey && decide (shard.used ≥ shard.capacity)) =
        false := by
      simpa [not_and] using hfull
    rw [if_neg hfull]
    simp [bind, Except.bind, hroom, hconsume, pure, Except.pure]

/-- Carrying a verdict out in the pruned shard is a step. -/
theorem CleanedShard.checkStep
    {pruned : Shard E} {verdict : Verdict E} {decided : Except Panic (Decision × Shard E)}
    (h : CleanedShard values now check.counterKey pruned)
    (hjudge : meter.judge check now (activeAt values check.counterKey now) = some verdict)
    (hdecided : CarriedOut pruned check verdict decided) :
    ∃ decision shard, decided = .ok (decision, shard) ∧
      CheckStep meter values now check decision
        (Function.update values (shardIndex config check.counterKey) shard) := by
  cases verdict with
  | deny denial =>
    exact ⟨_, _, hdecided, .quotaDenied denial _
      (settleMember_eq_quotaDenied.mpr hjudge) h.effect⟩
  | allow grant =>
    by_cases hroom : HasRoom values now [] check.counterKey
    · rw [CarriedOut, if_neg (h.hasRoom_iff.mp hroom)] at hdecided
      exact ⟨_, _, hdecided, .allowed grant _
        (settleMember_eq_granted.mpr ⟨hjudge, hroom⟩) (h.effect_replace hroom grant.entry)⟩
    · rw [CarriedOut, if_pos (not_not.mp (mt h.hasRoom_iff.mpr hroom))] at hdecided
      obtain ⟨retryAfter, hdecided⟩ := hdecided
      exact ⟨_, _, hdecided, .noRoom retryAfter _
        (settleMember_eq_noRoom.mpr ⟨⟨grant, hjudge⟩, hroom⟩) h.effect⟩

/-! ### A batch under its locks -/

/-- The prepared checks carry their input index and the position of their shard. -/
inductive Routed {Q : Type} (prepare : Nat → Check P → Nat → Q)
    (locked : List (Fin config.shardCount)) : Nat → List (Check P) → List Q → Prop
  | nil (inputIndex : Nat) : Routed prepare locked inputIndex [] []
  | cons {inputIndex position : Nat} {check : Check P} {rest : List (Check P)}
      {prepared : List Q}
      (hpos : locked[position]? = some (shardIndex config check.counterKey))
      (hrest : Routed prepare locked (inputIndex + 1) rest prepared) :
      Routed prepare locked inputIndex (check :: rest)
        (prepare inputIndex check position :: prepared)

/-- Preparing a batch never fails and routes every member to its shard. -/
theorem prepareAll_eq_ok (prepare : Nat → Check P → Nat → Q) {topology : BatchTopology config}
    {inputIndex : Nat}
    (hroutes : ∀ (offset : Nat) (check : Check P), checks[offset]? = some check →
      ∃ pos, topology.inputPositions[inputIndex + offset]? = some pos ∧ topology.indexes[pos]? =
        some (shardIndex config check.counterKey)) :
    ∃ prepared, prepareAll prepare topology inputIndex checks = .ok prepared ∧
      Routed prepare topology.indexes inputIndex checks prepared := by
  induction checks generalizing inputIndex with
  | nil =>
    exact ⟨[], rfl, .nil inputIndex⟩
  | cons check rest ih =>
    obtain ⟨pos, hpos, hidx⟩ := hroutes 0 check rfl
    have hroutesRest : ∀ (offset : Nat) (member : Check P), rest[offset]? = some member →
        ∃ pos, topology.inputPositions[inputIndex + 1 + offset]? = some pos ∧
          topology.indexes[pos]? = some (shardIndex config member.counterKey) := by
      intro offset member hmember
      have hnext := hroutes (offset + 1) member (by simpa using hmember)
      rwa [show inputIndex + 1 + offset = inputIndex + (offset + 1) by omega]
    obtain ⟨prepared, hprepared, hrouted⟩ := ih hroutesRest
    refine ⟨_, ?_, .cons hidx hrouted⟩
    exact bind_eq_ok.mpr ⟨pos, indexVec_eq_ok hpos, bind_eq_ok.mpr ⟨prepared, hprepared, rfl⟩⟩

theorem BatchTopology.Resolves.routes (h : topology.Resolves (touchedBy config checks))
    (offset : Nat) (check : Check P) (hcheck : checks[offset]? = some check) :
    ∃ pos, topology.inputPositions[0 + offset]? = some pos ∧
      topology.indexes[pos]? = some (shardIndex config check.counterKey) := by
  have hget := congrArg (fun l => l[offset]?) h.positions_eq
  simp only [touchedBy, getElem?_map, hcheck, Option.map_some] at hget
  rw [Nat.zero_add]
  obtain ⟨pos, hpos, hidx⟩ := Option.map_eq_some_iff.mp hget
  exact ⟨pos, hpos, hidx⟩

/-- A batch is rejected with nothing changed, or its body runs under the locks
of the shards that its members are routed to. -/
theorem withLockedBatch_cases {ε α : Type} (prepare : Nat → Check P → Nat → Q)
    (fromStoreError : MemoryBatchError → ε) (store : BoundedShards config E)
    (checks : List (Check P))
    (body : BatchTopology config → List Q → List (Fin config.shardCount) →
      Except Panic (Reply ε α (BoundedShards config E))) :
    (¬BatchReady store checks ∧ ∃ error, withLockedBatch prepare fromStoreError store checks body =
          .ok (.error (fromStoreError error), store)) ∨
      BatchReady store checks ∧ ∃ (topology : BatchTopology config) (prepared : List Q),
        topology.Resolves (touchedBy config checks) ∧
        Routed prepare topology.indexes 0 checks prepared ∧
        withLockedBatch prepare fromStoreError store checks body =
          body topology prepared topology.indexes := by
  unfold withLockedBatch
  cases hvalid : validateBatch checks config.maxBatchSize with
  | error error =>
    refine .inl ⟨fun hready => ?_, _, rfl⟩
    rw [hready.valid] at hvalid
    cases hvalid
  | ok _ =>
    rcases BatchTopology.new_spec (touchedBy config checks) with
      ⟨topology, htopology, hresolves, hfits⟩ | ⟨index, hover, htopology⟩
    · obtain ⟨prepared, hprepared, hrouted⟩ := prepareAll_eq_ok prepare hresolves.routes
      unfold touchedBy at htopology
      simp only [htopology, hprepared, bind, Except.bind]
      cases hlocked : store.lockShards topology.indexes with
      | error error =>
        obtain ⟨index, hin, hpois⟩ := BoundedShards.lockShards_eq_error hlocked
        refine .inl ⟨fun hready => ?_, _, rfl⟩
        rw [hready.healthy index ((hresolves.mem_indexes index).mp hin)] at hpois
        cases hpois
      | ok locked =>
        obtain ⟨rfl, hhealthy⟩ := BoundedShards.lockShards_eq_ok_iff.mp hlocked
        exact .inr ⟨⟨hvalid, hfits,
          fun index hin => hhealthy index ((hresolves.mem_indexes index).mpr hin)⟩,
          topology, prepared, hresolves, hrouted, rfl⟩
    · unfold touchedBy at htopology
      simp only [htopology, bind, Except.bind]
      refine .inl ⟨fun hready => ?_, _, rfl⟩
      exact absurd (hready.fits index) (not_le.mpr hover)

/-- Pruning in the cleaned shards may remove one entry for every key of a batch. -/
def CleanedFor (values : Values config E) (nowMillis : Nat) (keys : List CounterKey)
    (cleaned : Values config E) : Prop :=
  ∀ key ∈ keys, ∃ maximum,
    cleaned (shardIndex config key) =
      (((values (shardIndex config key)).recordObservedMillis nowMillis).pruneExpired
        nowMillis maximum).1 ∧
    keys.countP (fun k => decide (shardIndex config k = shardIndex config key)) ≤ maximum

theorem CleanedFor.hasRoom_iff (h : CleanedFor values now (earlier ++ key :: later) cleaned)
    (hcons : (values (shardIndex config key)).Consistent) :
    HasRoom values now earlier key ↔ ¬ IsFull cleaned earlier key := by
  obtain ⟨maximum, hcleaned, hcount⟩ := h key (by simp)
  refine hasRoom_iff_of_pruned hcons hcleaned ?_
  simp only [countP_append, countP_cons, decide_true, if_true] at hcount
  omega

theorem BatchTopology.Resolves.cleanedFor (h : topology.Resolves (touchedBy config checks))
    (hlength : checks.length ≤ config.maxBatchSize) (values : Values config E) (now : Nat) :
    CleanedFor values now (checks.map Check.counterKey)
      (cleanupLocked config now (topology.indexes.zip topology.checkCounts) values).1 := by
  intro key hkey
  obtain ⟨check, hcheck, rfl⟩ := mem_map.mp hkey
  have hidx : shardIndex config check.counterKey ∈ topology.indexes :=
    (h.mem_indexes _).mpr (mem_map.mpr ⟨check, hcheck, rfl⟩)
  obtain ⟨shard, hshard, hshardIdx⟩ := mem_map.mp hidx
  have hzip : topology.indexes.zip topology.checkCounts =
      topology.shards.map fun shard => (shard.index, shard.checkCount) :=
    zip_map'
  have hfst : (topology.indexes.zip topology.checkCounts).map Prod.fst = topology.indexes := by
    rw [hzip, map_map]
    rfl
  have hin : (shardIndex config check.counterKey, shard.checkCount) ∈
      topology.indexes.zip topology.checkCounts := by
    rw [hzip]
    exact mem_map.mpr ⟨shard, hshard, by rw [hshardIdx]⟩
  refine ⟨_, cleanupLocked_apply (by rw [hfst]; exact h.nodup) hin values now, ?_⟩
  have hcount : (checks.map Check.counterKey).countP
      (fun k => decide (shardIndex config k = shardIndex config check.counterKey)) =
        shard.checkCount := by
    rw [h.checkCount_eq shard hshard, hshardIdx, touchedBy, List.count, countP_map, countP_map]
    rfl
  have hsmall : shard.checkCount ≤ usizeMax := by
    rw [← hcount]
    refine countP_le_length.trans ?_
    rw [length_map]
    exact hlength.trans config.batchSize_le
  rw [hcount]
  exact le_min (Nat.le_mul_of_pos_left _ config.removals_pos) hsmall

/-- What a batch may rely on once its shards are locked and cleaned. -/
structure LockedBatch (values : Values config E) (checks : List (Check P)) (nowMillis : Nat)
    (locked : List (Fin config.shardCount)) (cleaned : Values config E) : Prop where
  keys_nodup : (checks.map Check.counterKey).Nodup
  latest_le : ∀ check ∈ checks,
    (values (shardIndex config check.counterKey)).latestObservedMillis ≤ nowMillis
  effect : Effect nowMillis (touchedBy config checks) (charges []) values cleaned
  cleanedFor : CleanedFor values nowMillis (checks.map Check.counterKey) cleaned
  locked_nodup : locked.Nodup
  pending_zero : .replicate locked.length 0 = locked.map (pendingCount cleaned [])

theorem BatchTopology.Resolves.lockedBatch (h : topology.Resolves (touchedBy config checks))
    (hvalid : validateBatch checks config.maxBatchSize = .ok ()) (hinv : Invariant values)
    (reading : Nat) :
    LockedBatch values checks (clampedNow values (touchedBy config checks) reading)
      topology.indexes
      (cleanupLocked config (clampedNow values (touchedBy config checks) reading)
        (topology.indexes.zip topology.checkCounts) values).1 := by
  obtain ⟨-, hsize, -, hkeys⟩ := validateBatch_eq_ok_iff.mp hvalid
  have hfst : (topology.indexes.zip topology.checkCounts).map Prod.fst = topology.indexes := by
    refine map_fst_zip ?_
    simp [BatchTopology.indexes, BatchTopology.checkCounts]
  refine ⟨hkeys, ?_, ?_, h.cleanedFor hsize _ _, h.nodup, ?_⟩
  · intro check hcheck
    exact latest_le_clampedNow (mem_map.mpr ⟨check, hcheck, rfl⟩)
  · refine (effect_cleanupLocked hinv.consistent _ _).congr ?_
    rw [hfst]
    exact h.mem_indexes
  · exact (map_const' ..).symm

/-- The room test of a batch member, on the counts of the earlier members. -/
theorem reserveInsertion_eq (hroom : HasRoom values now earlier key ↔ ¬ IsFull cleaned earlier key)
    (hnodup : locked.Nodup) (hpos : locked[pos]? = some (shardIndex config key)) :
    reserveInsertion (cleaned (shardIndex config key)) key pos
        (locked.map (pendingCount cleaned earlier)) =
      .ok (if HasRoom values now earlier key then
        some (locked.map (pendingCount cleaned (earlier ++ [key]))) else none) := by
  unfold IsFull at hroom
  unfold reserveInsertion
  cases hstored : (cleaned (shardIndex config key)).containsKey key with
  | true =>
    rw [hstored] at hroom
    rw [if_pos rfl, if_pos (hroom.mpr (by simp)), pendingCounts_stored hstored]
  | false =>
    have hpend : indexVec (locked.map (pendingCount cleaned earlier)) pos =
        .ok (pendingCount cleaned earlier (shardIndex config key)) :=
      indexVec_eq_ok (by simp [hpos])
    rw [hstored] at hroom
    simp only [true_and, not_le] at hroom
    simp only [Bool.false_eq_true, if_false, hpend, bind, Except.bind]
    by_cases hfree : HasRoom values now earlier key
    · have hlt := hroom.mp hfree
      rw [if_neg (not_le.mpr hlt), if_pos hfree, pendingCounts_append hnodup hpos hstored]
      rfl
    · have hge := not_lt.mp (mt hroom.mpr hfree)
      rw [if_pos hge, if_neg hfree]
      rfl

/-- The shards while a granted batch is consumed: the charges made so far are on
top of the cleaned shards. -/
structure Consuming (nowMillis : Nat) (touched : List (Fin config.shardCount))
    (values cleaned : Values config E) (charged : List (CounterKey × StoredEntry E))
    (current : Values config E) : Prop where
  effect : Effect nowMillis touched (charges charged) values current
  used_eq : ∀ index, (current index).used =
    (cleaned index).used + pendingCount cleaned (charged.map Prod.fst) index
  lookup_eq : ∀ index key, key ∉ charged.map Prod.fst →
    (current index).entries.lookup key = (cleaned index).entries.lookup key

section Consuming

variable {touched : List (Fin config.shardCount)} {cleaned current : Values config E}
variable {charged : List (CounterKey × StoredEntry E)}

theorem Consuming.start (h : Effect now touched (charges []) values cleaned) :
    Consuming now touched values cleaned [] cleaned :=
  ⟨h, fun _ => rfl, fun _ _ _ => rfl⟩

section

variable (h : Consuming now touched values cleaned charged current)
include h

variable (hkey : key ∉ charged.map Prod.fst)
include hkey

theorem Consuming.containsKey_eq (index : Fin config.shardCount) :
    (current index).containsKey key = (cleaned index).containsKey key := by
  refine decide_eq_decide.mpr ?_
  rw [← Finmap.lookup_isSome, ← Finmap.lookup_isSome, h.lookup_eq index key hkey]

theorem Consuming.activeEntry_eq :
    (current (shardIndex config key)).activeEntry key now = activeAt values key now := by
  have hnone : charges charged key = none := charges_eq_none.mpr hkey
  have hact := h.effect.activeAt_eq key (le_refl now)
  rw [hnone] at hact
  exact hact

theorem Consuming.step (hin : shardIndex config key ∈ touched)
    (hroom : ¬ IsFull cleaned (charged.map Prod.fst) key)
    (hcap : (cleaned (shardIndex config key)).capacity = (values (shardIndex config key)).capacity)
    (entry : StoredEntry E) :
    Consuming now touched values cleaned (charged ++ [(key, entry)])
      (Function.update current (shardIndex config key)
        ((current (shardIndex config key)).replace key entry.value
          entry.expiresAtMillis).1) := by
  have hcontains := h.containsKey_eq hkey (shardIndex config key)
  refine ⟨h.effect.addCharge hin ?_ entry, ?_, ?_⟩
  · rw [h.used_eq, h.effect.capacity_eq, ← hcap]
    rw [not_and_or, not_le, ← hcontains, Bool.not_eq_false] at hroom
    exact hroom.imp_left of_decide_eq_true
  · intro index
    rw [map_append, map_singleton, pendingCount_append]
    rcases eq_or_ne index (shardIndex config key) with rfl | hne
    · rw [Function.update_self, Shard.used_replace, h.used_eq, hcontains, Nat.add_assoc]
      simp
    · rw [Function.update_of_ne hne, h.used_eq, if_neg (fun heq => hne heq.1.symm), Nat.add_zero]
  · intro index other hother
    rw [map_append, map_singleton, mem_append, not_or, mem_singleton] at hother
    rcases eq_or_ne index (shardIndex config key) with rfl | hne
    · rw [Function.update_self, Shard.lookup_replace, if_neg hother.2]
      exact h.lookup_eq _ other hother.1
    · rw [Function.update_of_ne hne]
      exact h.lookup_eq index other hother.1

end

variable {all before rest : List (Check P)}
variable {locked : List (Fin config.shardCount)}

variable (hbatch : LockedBatch values all now locked cleaned) (hall : all = before ++ check :: rest)
include hbatch hall

/-- A member that is still to be consumed has a key of its own. -/
theorem LockedBatch.key_fresh (hcharged : charged.map Prod.fst = before.map Check.counterKey) :
    check.counterKey ∉ charged.map Prod.fst := by
  have hkeys := hbatch.keys_nodup
  rw [hcharged]
  rw [hall, map_append, map_cons, nodup_append] at hkeys
  exact fun hold => hkeys.2.2 _ hold _ mem_cons_self rfl

theorem LockedBatch.hasRoom_iff (hinv : Invariant values) :
    HasRoom values now (before.map Check.counterKey) check.counterKey ↔
      ¬ IsFull cleaned (before.map Check.counterKey) check.counterKey := by
  have hclean : CleanedFor values now (before.map Check.counterKey ++
      check.counterKey :: rest.map Check.counterKey) cleaned := by
    simpa [hall] using hbatch.cleanedFor
  exact hclean.hasRoom_iff (hinv.consistent _)

/-- Consuming the next member of a granted batch. -/
theorem LockedBatch.consume (hinv : Invariant values)
    (hcharged : charged.map Prod.fst = before.map Check.counterKey)
    (hroom : HasRoom values now (before.map Check.counterKey) check.counterKey)
    (h : Consuming now (touchedBy config all) values cleaned charged current)
    (entry : StoredEntry E) :
    Consuming now (touchedBy config all) values cleaned
      (charged ++ [(check.counterKey, entry)])
      (Function.update current (shardIndex config check.counterKey)
        ((current (shardIndex config check.counterKey)).replace check.counterKey entry.value
          entry.expiresAtMillis).1) := by
  have hplace := (hbatch.hasRoom_iff hall hinv).mp hroom
  rw [← hcharged] at hplace
  exact h.step (hbatch.key_fresh hall hcharged)
    (mem_map.mpr ⟨check, by simp [hall], rfl⟩) hplace (hbatch.effect.capacity_eq _) entry

end Consuming

/-- The refusal of a batch, as its loop reports it. -/
def Refuses (mode : QuotaMode) (size : Nat) (settlement : Option (BatchSettlement E))
    (refusal : Option BatchDecision) : Prop :=
  match settlement with
  | none => False
  | some (.granted _) => refusal = none
  | some (.quotaDenied index denial) =>
    ∃ decision, BatchDecision.newQuotaDenied mode index size denial = .ok decision ∧
      refusal = some decision
  | some (.noRoom index) =>
    ∃ retryAfter, ∃ hlt : index < size,
      refusal = some (.denied index size (.storageCapacity retryAfter) hlt)

section Refuses

variable {mode : QuotaMode} {size : Nat} {rest : List (Check P)}

/-- A granted member passes the refusal of the remaining ones on. -/
theorem Refuses.cons_granted {grant : Grant E} {refusal : Option BatchDecision}
    (hsettle : settleMember meter values now earlier check = some (.granted grant))
    (h : Refuses mode size
      (settleBatch meter values now (earlier ++ [check.counterKey]) rest) refusal) :
    Refuses mode size (settleBatch meter values now earlier (check :: rest)) refusal := by
  rw [settleBatch, hsettle]
  cases hrest : settleBatch meter values now (earlier ++ [check.counterKey]) rest with
  | none =>
    rw [hrest] at h
    exact h.elim
  | some settlement =>
    rw [hrest] at h
    cases settlement <;> exact h

theorem Refuses.cons_quotaDenied
    (hsettle : settleMember meter values now earlier check = some (.quotaDenied denial))
    (hdec : BatchDecision.newQuotaDenied mode earlier.length size denial = .ok decision) :
    Refuses mode size (settleBatch meter values now earlier (check :: rest))
      (some decision) := by
  rw [settleBatch, hsettle]
  exact ⟨decision, hdec, rfl⟩

theorem Refuses.cons_noRoom (hsettle : settleMember meter values now earlier check = some .noRoom)
    (retryAfter : Option Delay) (hlt : earlier.length < size) :
    Refuses mode size (settleBatch meter values now earlier (check :: rest))
      (some (.denied earlier.length size (.storageCapacity retryAfter) hlt)) := by
  rw [settleBatch, hsettle]
  exact ⟨retryAfter, hlt, rfl⟩

/-- A refused batch is a step that leaves the cleaned shards. -/
theorem Refuses.batchStep
    (h : Refuses mode checks.length (settleBatch meter values now [] checks) (some decision))
    (hmode : ∀ check ∈ checks, check.quotaMode = mode)
    (heff : Effect now (touchedBy config checks) (charges []) values cleaned) :
    BatchStep meter values now checks decision cleaned := by
  cases hsettle : settleBatch meter values now [] checks with
  | none =>
    rw [hsettle] at h
    exact h.elim
  | some settlement =>
    rw [hsettle] at h
    cases settlement with
    | granted grants => cases h
    | quotaDenied index denial =>
      obtain ⟨_, hdec, heq⟩ := h
      cases heq
      exact BatchStep.quotaDenied index denial _ _ _ hsettle hmode hdec heff
    | noRoom index =>
      obtain ⟨retryAfter, hlt, heq⟩ := h
      cases heq
      exact BatchStep.noRoom index retryAfter _ hsettle hlt heff

/-- A batch that is not refused is granted. -/
theorem Refuses.granted {settlement : Option (BatchSettlement E)}
    (h : Refuses mode size settlement none) : ∃ grants, settlement = some (.granted grants) := by
  rcases settlement with _ | grants | _ | _
  · exact h.elim
  · exact ⟨grants, rfl⟩
  · obtain ⟨_, _, heq⟩ := h
    cases heq
  · obtain ⟨_, _, heq⟩ := h
    cases heq

/-- The denial of a batch member can be built, because its index is in range. -/
theorem newQuotaDenied_ok (hlt : index < size) (mode : QuotaMode) (denial : QuotaDenial) :
    ∃ decision, BatchDecision.newQuotaDenied mode index size denial = .ok decision := by
  unfold BatchDecision.newQuotaDenied
  split_ifs
  · exact ⟨_, BatchDecision.newShadowDenied_eq_ok hlt⟩
  · exact ⟨_, BatchDecision.newDenied_eq_ok hlt⟩

end Refuses

end Batter.Runlimit
