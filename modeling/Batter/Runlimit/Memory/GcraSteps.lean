import Batter.Runlimit.Memory.GcraStore
import Batter.Runlimit.Memory.Settle

/-!
# Runlimit memory store: the GCRA store takes steps

`GcraStore.check_call` and `GcraStore.checkAll_call` are the counterparts of the
fixed-window results for the meter that evaluates theoretical arrival times.
The source evaluates before it prunes; since pruning is invisible to active
entries, the steps are those of `Batter.Runlimit.Memory.Meter` again.
-/

namespace Batter.Runlimit.GcraStore

open RustStd List

/-- The grant of a pending allowance. -/
def grantOf (pending : Gcra.PendingAllowance) : Grant Entry :=
  ⟨⟨pending.tatScaled⟩, pending.expiresAtMillis, pending.allowance⟩

/-- The verdict of an evaluation. -/
def verdictOf : Gcra.Evaluation → Verdict Entry
  | .allowed pending => .allow (grantOf pending)
  | .denied denial => .deny denial

/-- The stored arrival time of an active entry. -/
def activeTat (active : Option (Entry × Nat)) : Option Nat :=
  active.map fun active => active.1.tatScaled

section Meter

variable [Sha256]

/-- The meter of the GCRA store. -/
def gcraMeter : Meter GcraPolicy Entry where
  judge check nowMillis active :=
    (Gcra.evaluate check nowMillis (activeTat active)).toOption.map verdictOf
  current := by
    intro check nowMillis active grant _ hjudge
    cases heval : Gcra.evaluate check nowMillis (activeTat active) with
    | error overflow => simp [heval, Except.toOption] at hjudge
    | ok evaluation =>
      simp only [heval, Except.toOption, Option.map_some, Option.some.injEq] at hjudge
      rcases Gcra.evaluate_eq_ok heval with ⟨_, _, rfl⟩ | ⟨hle, _, _, rfl⟩
      · cases hjudge
      · simp only [verdictOf, Verdict.allow.injEq] at hjudge
        subst hjudge
        have hpos := Gcra.increment_pos check
        have hload := Gcra.load_eq check nowMillis (activeTat active)
        have hceil : 0 < Gcra.load check nowMillis (activeTat active) ⌈/⌉
            check.policy.quota.get := by
          by_contra hzero
          have hle := (ceilDiv_le_iff_le_mul check.policy.quota.pos).mp (not_lt.mp hzero)
          omega
        have hwindow := Gcra.ceilDiv_le_maxWindow hle
        simp only [grantOf]
        omega

variable {shard : Shard Entry} {check : Check GcraPolicy} {now : Nat}
variable {active : Option (Entry × Nat)}

theorem judge_eq_none : gcraMeter.judge check now active = none ↔
      ∃ overflow, Gcra.evaluate check now (activeTat active) = .error overflow := by
  simp only [gcraMeter, Option.map_eq_none_iff]
  cases Gcra.evaluate check now (activeTat active) with
  | error overflow => exact ⟨fun _ => ⟨overflow, rfl⟩, fun _ => rfl⟩
  | ok eval => simp [Except.toOption]

theorem judge_of_evaluate {eval : Gcra.Evaluation}
    (h : Gcra.evaluate check now (activeTat active) = .ok eval) :
    gcraMeter.judge check now active = some (verdictOf eval) := by
  simp [gcraMeter, h, Except.toOption]

/-- The decision taken in a pruned shard. -/
theorem decideLocked_carriedOut (check : Check GcraPolicy) (eval : Gcra.Evaluation)
    (hcons : shard.Consistent)
    (hexp : ∀ key entry, shard.entries.lookup key = some entry →
      entry.expiresAtMillis ≤ now + maxWindowMillis) :
    CarriedOut shard check (verdictOf eval)
      (decideLocked shard (.new 0 check 0) now eval) := by
  cases eval with
  | denied denial => rfl
  | allowed pending => exact carriedOut_allow hcons hexp rfl

end Meter

variable [Sha256] {config : MemoryStoreConfig} {store : GcraStore config}

/-- A single check never panics and takes the step of the GCRA meter. -/
theorem check_call (hinv : Invariant store.values) (check : Check GcraPolicy) (reading : Duration) :
    ∃ result store', GcraStore.check store check reading = .ok (result, store') ∧
      CheckCall gcraMeter store check reading result.toOption store' := by
  set index := shardIndex config check.counterKey with hidx
  cases hpois : (store index).poisoned with
  | true =>
    refine ⟨.error (.poisonedShard ⟨index⟩), store, ?_, CheckCall.poisoned hpois⟩
    simp [GcraStore.check, checkInner, BoundedShards.lockShard, ← hidx, hpois, bind,
      Except.bind, pure, Except.pure, Except.map]
  | false =>
    set now := max reading.asMillis (store.values index).latestObservedMillis with hnow
    cases heval : evaluate (store.values index) (PreparedCheck.new 0 check 0) now with
    | error overflow =>
      refine ⟨.error .arithmeticOverflow, store, ?_, CheckCall.overflow hpois ?_⟩
      · simp [GcraStore.check, checkInner, BoundedShards.lockShard, ← hidx, hpois, ← hnow,
          heval, bind, Except.bind, pure, Except.pure, Except.map]
      · exact judge_eq_none.mpr ⟨overflow, heval⟩
    | ok eval =>
      have hclean : CleanedShard store.values now check.counterKey _ :=
        hinv.cleanedShard (le_max_right _ _)
      have hjudge : gcraMeter.judge check now
          (activeAt store.values check.counterKey now) = some (verdictOf eval) :=
        judge_of_evaluate heval
      obtain ⟨decision, shard, hdecided, hstep⟩ := hclean.checkStep hjudge
        (decideLocked_carriedOut check eval hclean.consistent hclean.expires_le)
      rw [← hidx] at hdecided
      refine ⟨.ok decision, store.withValues (Function.update store.values index shard), ?_,
        CheckCall.settled _ _ hpois hstep⟩
      simp [GcraStore.check, checkInner, BoundedShards.lockShard, ← hidx, hpois, ← hnow,
        heval, hdecided, bind, Except.bind, pure, Except.pure, Except.map]

variable {values cleaned : Values config Entry} {now : Nat}
variable {locked : List (Fin config.shardCount)}
variable {all before checks : List (Check GcraPolicy)} {prepared : List PreparedCheck}

/-- The evaluations of the members on their active entries. -/
def Evaluated (values : Values config Entry) (nowMillis : Nat) :
    List (Check GcraPolicy) → List Gcra.Evaluation → Prop :=
  List.Forall₂ fun check evaluation =>
    gcraMeter.judge check nowMillis (activeAt values check.counterKey nowMillis) =
      some (verdictOf evaluation)

variable {evaluations : List Gcra.Evaluation}

theorem Evaluated.judged (h : Evaluated values now checks evaluations)
    {check : Check GcraPolicy} (hin : check ∈ checks) :
    gcraMeter.judge check now (activeAt values check.counterKey now) ≠ none := by
  induction h with
  | nil => simp at hin
  | cons hjudge _ ih =>
    rcases mem_cons.mp hin with rfl | hin
    · simp [hjudge]
    · exact ih hin

/-- The evaluation loop ends with the judgements of all members, or stops at one
that overflows. -/
theorem evaluateAll_eq {inputIndex : Nat}
    (hrouted : Routed PreparedCheck.new locked inputIndex checks prepared) :
    (∃ evaluations, evaluateAll values locked now prepared = .ok (.ok evaluations) ∧
        Evaluated values now checks evaluations) ∨
      ∃ overflow, evaluateAll values locked now prepared = .ok (.error overflow) ∧
        ∃ check ∈ checks, gcraMeter.judge check now
          (activeAt values check.counterKey now) = none := by
  induction hrouted with
  | nil _ =>
    exact .inl ⟨[], rfl, List.Forall₂.nil⟩
  | @cons inputIndex pos check rest prepared hposition _ ih =>
    have hidx := indexVec_eq_ok hposition
    cases heval : evaluate (values (shardIndex config check.counterKey))
        (PreparedCheck.new inputIndex check pos) now with
    | error overflow =>
      refine .inr ⟨overflow, ?_, check, mem_cons_self, judge_eq_none.mpr ⟨overflow, heval⟩⟩
      refine bind_eq_ok.mpr ⟨_, hidx, ?_⟩
      simp only [heval]
      rfl
    | ok eval =>
      rcases ih with ⟨evaluations, hloop, hevaluated⟩ | ⟨overflow, hloop, member, hmem, hnone⟩
      · refine .inl ⟨eval :: evaluations, ?_,
          List.Forall₂.cons (judge_of_evaluate heval) hevaluated⟩
        refine bind_eq_ok.mpr ⟨_, hidx, ?_⟩
        simp only [heval]
        exact bind_eq_ok.mpr ⟨_, hloop, rfl⟩
      · refine .inr ⟨overflow, ?_, member, mem_cons_of_mem _ hmem, hnone⟩
        refine bind_eq_ok.mpr ⟨_, hidx, ?_⟩
        simp only [heval]
        exact bind_eq_ok.mpr ⟨_, hloop, rfl⟩

section

variable (hall : all = before ++ checks) (hinv : Invariant values)
  (hbatch : LockedBatch values all now locked cleaned)
include hall hinv hbatch

/-- The loop over the evaluated members finds the refusal of the settlement, or
its grants. -/
theorem firstDenial_eq {mode : QuotaMode} (hmode : ∀ check ∈ all, check.quotaMode = mode)
    (hrouted : Routed .new locked before.length checks prepared)
    (hevaluated : Evaluated values now checks evaluations) :
    ∃ result,
      firstDenial all.length cleaned locked now (prepared.zip evaluations)
          (locked.map (pendingCount cleaned (before.map Check.counterKey))) = .ok result ∧
        match result with
        | .ok allowances =>
          settleBatch gcraMeter values now (before.map Check.counterKey) checks =
            some (.granted (allowances.map grantOf))
        | .error decision =>
          Refuses mode all.length
            (settleBatch gcraMeter values now (before.map Check.counterKey) checks)
            (some decision) := by
  induction checks generalizing before prepared evaluations with
  | nil =>
    cases hrouted
    cases hevaluated
    exact ⟨.ok [], rfl, rfl⟩
  | cons check rest ih =>
    cases hrouted with
    | @cons _ pos _ _ prepared hposition hrest =>
    cases hevaluated with
    | @cons _ eval _ evaluations hjudge hevaluated =>
    have hin : check ∈ all := by simp [hall]
    have hnext : all = (before ++ [check]) ++ rest := by simp [hall]
    have hlt : before.length < all.length := by simp [hall]
    have hlen : (before.map Check.counterKey).length = before.length := length_map _
    have hidx := indexVec_eq_ok hposition
    cases eval with
    | denied denial =>
      obtain ⟨decision, hdec⟩ := newQuotaDenied_ok hlt mode denial
      refine ⟨.error decision, ?_, .cons_quotaDenied
        (settleMember_eq_quotaDenied.mpr hjudge) (hlen ▸ hdec)⟩
      refine bind_eq_ok.mpr ⟨_, hidx, bind_eq_ok.mpr ⟨decision, ?_, rfl⟩⟩
      have hsame : check.policy.quotaMode = mode := hmode check hin
      simp [PreparedCheck.new, hsame, hdec]
    | allowed pending =>
      have hreserve := reserveInsertion_eq (hbatch.hasRoom_iff hall hinv) hbatch.locked_nodup
        hposition
      by_cases hroom : HasRoom values now (before.map Check.counterKey) check.counterKey
      · rw [if_pos hroom] at hreserve
        have hsettle := settleMember_eq_granted.mpr ⟨hjudge, hroom⟩
        obtain ⟨result, hloop, hres⟩ := ih hnext (by simpa using hrest) hevaluated
        rw [map_append, map_singleton] at hloop hres
        refine ⟨result.map (pending :: ·), ?_, ?_⟩
        · refine bind_eq_ok.mpr ⟨_, hidx, bind_eq_ok.mpr ⟨_, hreserve, ?_⟩⟩
          exact bind_eq_ok.mpr ⟨_, hloop, rfl⟩
        · cases result with
          | error decision => exact .cons_granted hsettle hres
          | ok allowances =>
            exact settleBatch_cons_eq_granted.mpr ⟨_, _, rfl, hsettle, hres⟩
      · rw [if_neg hroom] at hreserve
        obtain ⟨retryAfter, hretry⟩ := storageCapacityDenial_eq_ok
          (hbatch.effect.consistent _)
          (hbatch.effect.expires_le hinv (hbatch.latest_le check hin))
        have hsettle : settleMember gcraMeter values now
            (before.map Check.counterKey) check = some .noRoom :=
          settleMember_eq_noRoom.mpr ⟨⟨_, hjudge⟩, hroom⟩
        refine ⟨.error _, ?_, .cons_noRoom hsettle retryAfter (hlen ▸ hlt)⟩
        refine bind_eq_ok.mpr ⟨_, hidx, bind_eq_ok.mpr ⟨none, hreserve, ?_⟩⟩
        refine bind_eq_ok.mpr ⟨_, hretry, ?_⟩
        simp [PreparedCheck.new, BatchDecision.newDenied_eq_ok hlt, bind, Except.bind, pure,
          Except.pure]

/-- The last loop of a granted batch writes its grants. -/
theorem consumeAll_eq {allowances : List Gcra.PendingAllowance}
    {charged : List (CounterKey × StoredEntry Entry)} {current : Values config Entry}
    (hrouted : Routed .new locked before.length checks prepared)
    (hsettle : settleBatch gcraMeter values now (before.map Check.counterKey) checks =
      some (.granted (allowances.map grantOf)))
    (hcharged : charged.map Prod.fst = before.map Check.counterKey)
    (hconsuming : Consuming now (touchedBy config all) values cleaned charged current) :
    ∃ values', consumeAll locked (prepared.zip allowances) current =
        .ok ((allowances.map grantOf).map Grant.allowance, values') ∧
      Consuming now (touchedBy config all) values cleaned
        (charged ++ batchCharges checks (allowances.map grantOf)) values' := by
  induction checks generalizing before prepared allowances charged current with
  | nil =>
    cases hrouted
    obtain rfl : allowances = [] := by simpa [settleBatch, eq_comm] using hsettle
    exact ⟨current, rfl, by simpa [batchCharges] using hconsuming⟩
  | cons check rest ih =>
    cases hrouted with
    | @cons _ pos _ _ prepared hposition hrest =>
    obtain ⟨grant, grants, hgrants, hmember, hsettle⟩ := settleBatch_cons_eq_granted.mp hsettle
    obtain ⟨pending, allowances, rfl, rfl, rfl⟩ := map_eq_cons_iff.mp hgrants
    have hnext := hbatch.consume hall hinv hcharged (settleMember_eq_granted.mp hmember).2
      hconsuming (grantOf pending).entry
    have hallNext : all = (before ++ [check]) ++ rest := by simp [hall]
    obtain ⟨values', hloop, hdone⟩ := ih hallNext (by simpa using hrest)
      (by simpa using hsettle) (by simp [hcharged]) hnext
    refine ⟨values', ?_, by simpa [batchCharges] using hdone⟩
    refine bind_eq_ok.mpr ⟨_, indexVec_eq_ok hposition, ?_⟩
    exact bind_eq_ok.mpr ⟨_, hloop, rfl⟩

end

/-- What a batch returns and leaves once its shards are locked. -/
theorem checkAllLocked_call {topo : BatchTopology config} (hinv : Invariant store.values)
    (hready : BatchReady store checks) (hresolves : topo.Resolves (touchedBy config checks))
    (hrouted : Routed .new topo.indexes 0 checks prepared) (reading : Duration) :
    ∃ result store',
      checkAllLocked store checks.length topo prepared topo.indexes reading = .ok (result, store') ∧
      BatchCall gcraMeter store checks reading (result.toOption.map Evaluation.value) store' := by
  obtain ⟨hne, -, hmodes, -⟩ := validateBatch_eq_ok_iff.mp hready.valid
  obtain ⟨first, hfirst⟩ := exists_mem_of_ne_nil checks hne
  have hmode : ∀ check ∈ checks, check.quotaMode = first.quotaMode :=
    fun check hcheck => hmodes check hcheck first hfirst
  have hbatch := hresolves.lockedBatch hready.valid hinv reading.asMillis
  have hclamp : clampedNow store.values (touchedBy config checks) reading.asMillis =
      clampedNow store.values topo.indexes reading.asMillis :=
    (clampedNow_congr hresolves.mem_indexes).symm
  rw [hclamp] at hbatch
  set now := clampedNow store.values topo.indexes reading.asMillis with hnow
  have hevalAll : (∃ evaluations, evaluateAll store.values topo.indexes now prepared =
      .ok (.ok evaluations) ∧ Evaluated store.values now checks evaluations) ∨ _ :=
    evaluateAll_eq hrouted
  rcases hevalAll with ⟨evaluations, heval, hevaluated⟩ | ⟨overflow, heval, hover⟩
  · suffices hstep : ∃ eval values',
        checkAllLocked store checks.length topo prepared topo.indexes reading =
          .ok (.ok eval, store.withValues values') ∧
        BatchStep gcraMeter store.values now checks eval.value values' by
      obtain ⟨eval, values', hcall, hstep⟩ := hstep
      rw [← hclamp] at hstep hevaluated
      exact ⟨_, _, hcall, .settled _ _ hready (fun _ hin => hevaluated.judged hin) hstep⟩
    set cleaned := cleanupLocked config now (topo.indexes.zip topo.checkCounts)
      store.values with hcleaned
    have hall : checks = [] ++ checks := rfl
    obtain ⟨result, hloop, hres⟩ := firstDenial_eq hall hinv hbatch hmode hrouted hevaluated
    rw [map_nil, ← hbatch.pending_zero] at hloop
    rw [map_nil] at hres
    cases result with
    | error decision =>
      have hcall : checkAllLocked store checks.length topo prepared topo.indexes reading =
          .ok (.ok ⟨decision, collectShardEffects cleaned.1 topo.indexes cleaned.2⟩,
            store.withValues cleaned.1) :=
        bind_eq_ok.mpr ⟨_, heval, bind_eq_ok.mpr ⟨_, hloop, rfl⟩⟩
      exact ⟨_, _, hcall, hres.batchStep hmode hbatch.effect⟩
    | ok allowances =>
      obtain ⟨values', hconsume, hconsuming⟩ := consumeAll_eq hall hinv hbatch hrouted hres rfl
        (.start hbatch.effect)
      have hgrants := allowances_ne_nil hres hne
      refine ⟨⟨.allowed _ hgrants, collectShardEffects values' topo.indexes cleaned.2⟩,
        values', ?_, .allowed _ values' hres hgrants hconsuming.effect⟩
      refine bind_eq_ok.mpr ⟨_, heval, bind_eq_ok.mpr ⟨_, hloop, ?_⟩⟩
      refine bind_eq_ok.mpr ⟨_, hconsume, bind_eq_ok.mpr ⟨_, ?_, rfl⟩⟩
      rw [BatchDecision.newAllowed_eq_ok hgrants]
      rfl
  · exact ⟨.error .arithmeticOverflow, store, bind_eq_ok.mpr ⟨_, heval, rfl⟩,
      .overflow hready (by rw [hclamp]; exact hover)⟩

/-- A batch never panics and takes the step of the GCRA meter. -/
theorem checkAll_call (hinv : Invariant store.values)
    (checks : List (Check GcraPolicy)) (reading : Duration) :
    ∃ result store', GcraStore.checkAll store checks reading = .ok (result, store') ∧
      BatchCall gcraMeter store checks reading result.toOption store' := by
  suffices hinner : ∃ result store', checkAllInner store checks reading = .ok (result, store') ∧
      BatchCall gcraMeter store checks reading (result.toOption.map Evaluation.value) store' by
    obtain ⟨result, store', hcall, hbatch⟩ := hinner
    refine ⟨result.map Evaluation.value, store', bind_eq_ok.mpr ⟨_, hcall, rfl⟩, ?_⟩
    cases result <;> exact hbatch
  rcases withLockedBatch_cases PreparedCheck.new GcraBatchError.store store checks _ with
    ⟨hrejected, error, hcall⟩ | ⟨hready, topo, prepared, hresolves, hrouted, hcall⟩
  · exact ⟨_, store, hcall, BatchCall.rejected hrejected⟩
  · obtain ⟨result, store', hrun, hbatch⟩ :=
      checkAllLocked_call hinv hready hresolves hrouted reading
    exact ⟨result, store', hcall.trans hrun, hbatch⟩

end Batter.Runlimit.GcraStore
