import Batter.Library.KeyedTable
import Batter.Runlimit.Core.IdealCounter
import Batter.Runlimit.Postgres.GcraLimiter

/-!
# Runlimit Postgres: the GCRA limiter never exceeds its rate

Admissions, denials and cleanups run one after the other, each with an arbitrary
sample of the database clock.  A denial forgets its sample and a cleanup forgets
arrival times; what keeps the rate is that every transaction that drops an
arrival time first commits an observed time that is not before its expiry.

`postgres_gcra_never_exceeds_rate` is the bound.  It is proved by comparing the
tables with ideal token buckets: `Tracks` says that each key's stored arrival
time is the debt of the bucket that was charged for the key's committed checks.
-/

namespace Batter.Runlimit.Postgres
namespace Gcra

open RustStd Runs SortedList TokenBucket List

variable {shard : CapacityShard} {key : CounterKey} {sample : Int} {locked : List CapacityShard}
variable {maximum now nowMs : Nat} {tables tables' : Tables}

/-- The arrival time that a transaction finds for a key at a time. -/
def foundIn (row : Option CounterRow) (t : Nat) : Option Nat :=
  row.bind fun row => Runlimit.Gcra.storedTat row.tatScaled row.expiresAtMs t

/-- The arrival time of a key at a time. -/
def found (tables : Tables) (key : CounterKey) (t : Nat) : Option Nat :=
  foundIn (tables.counters.lookup key) t

/-- The observed time of the shard of a key. -/
def observedAt (tables : Tables) (key : CounterKey) : Nat :=
  (tables.shards (capacityShard key)).observedAtMs

section Evaluate

variable [Sha256]
variable {check : Check GcraPolicy} {row : Option CounterRow} {index : Nat}
variable {state state' : EvaluateState}

theorem readRow_eq_ok {stored : Option (Nat × Nat)} (h : readRow check row = .ok stored)
    (now : Nat) : (stored.filter fun stored => stored.2 > now).map Prod.fst = foundIn row now := by
  cases row with
  | none =>
    cases h
    rfl
  | some row =>
    simp only [readRow] at h
    split_ifs at h
    cases h
    simp only [foundIn, Option.bind_some, Runlimit.Gcra.storedTat, Option.filter_some]
    by_cases hact : row.expiresAtMs > now <;> simp [hact]

/-- What one iteration of the evaluation does. -/
theorem evaluateMember_eq_ok (h : evaluateMember maximum now index check row state = .ok state')
    (hnone : state'.denial = none) :
    state.denial = none ∧ ∃ pending, state'.pending = state.pending ++ [pending] ∧
      Runlimit.Gcra.evaluate check now (foundIn row now) = .ok (.allowed pending) := by
  obtain ⟨stored, hstored, h⟩ := bind_eq_ok.mp h
  rw [← readRow_eq_ok hstored now]
  cases heval : Runlimit.Gcra.evaluate check now
      ((stored.filter fun stored => stored.2 > now).map Prod.fst) with
  | error overflow =>
    simp only [heval] at h
    cases h
  | ok eval =>
    simp only [heval] at h
    cases eval with
    | denied quota =>
      cases h
      simp at hnone
    | allowed pending =>
      cases stored with
      | some entry =>
        cases h
        exact ⟨hnone, pending, rfl, rfl⟩
      | none =>
        cases h
        refine ⟨?_, pending, rfl, rfl⟩
        dsimp only at hnone
        split_ifs at hnone
        · simp at hnone
        · exact hnone

/-- A loop that ends without a denial has allowed every member. -/
theorem evaluateLoop_eq_ok {input : List (Check GcraPolicy × Option CounterRow)}
    (h : evaluateLoop maximum now index input state = .ok state') (hnone : state'.denial = none) :
    state.denial = none ∧ ∃ pendings, state'.pending = state.pending ++ pendings ∧
      List.Forall₂ (fun member pending =>
        Runlimit.Gcra.evaluate member.1 now (foundIn member.2 now) = .ok (.allowed pending))
        input pendings := by
  induction input generalizing index state with
  | nil =>
    cases h
    exact ⟨hnone, [], by simp, List.Forall₂.nil⟩
  | cons member rest ih =>
    obtain ⟨check, row⟩ := member
    obtain ⟨next, hnext, hrest⟩ := bind_eq_ok.mp h
    obtain ⟨hden, pendings, hpendings, hall⟩ := ih hrest
    obtain ⟨hstart, pending, hpend, heval⟩ := evaluateMember_eq_ok hnext hden
    refine ⟨hstart, pending :: pendings, ?_, List.Forall₂.cons heval hall⟩
    rw [hpendings, hpend, append_assoc, singleton_append]

/-- An allowed batch: every member was allowed on what its key stores. -/
theorem evaluate_eq_allowed {checks : List (Check GcraPolicy)}
    {rows : Check GcraPolicy → Option CounterRow} {counts : CapacityShard → Nat}
    {allowances : List Runlimit.Gcra.PendingAllowance}
    (h : evaluate checks (checks.map rows) counts maximum now = .ok (.allowed allowances)) :
    List.Forall₂ (fun check pending =>
      Runlimit.Gcra.evaluate check now (foundIn (rows check) now) = .ok (.allowed pending))
      checks allowances := by
  unfold evaluate at h
  rw [if_neg (by simp)] at h
  obtain ⟨state, hloop, h⟩ := bind_eq_ok.mp h
  cases hden : state.denial with
  | some denial =>
    simp only [hden] at h
    cases h
  | none =>
    simp only [hden] at h
    cases h
    obtain ⟨-, pendings, hpendings, hall⟩ := evaluateLoop_eq_ok hloop hden
    rw [nil_append] at hpendings
    rw [← map_prod_left_eq_zip, forall₂_map_left_iff] at hall
    rw [hpendings]
    exact hall

end Evaluate

/-! ### What is committed -/

theorem upsertRow_eq_ok {row : CounterRow} (h : upsertRow tables key row = .ok tables') :
    tables'.counters = tables.counters.insert key row ∧
      ∀ shard, (tables'.shards shard).observedAtMs = (tables.shards shard).observedAtMs := by
  simp only [upsertRow] at h
  split_ifs at h
  · cases h
    refine ⟨rfl, fun shard => ?_⟩
    by_cases hshard : shard = capacityShard key
    · subst hshard
      simp
    · simp [hshard]
  · cases h
    exact ⟨rfl, fun _ => rfl⟩

/-- An upsert writes its rows, and the times stay. -/
theorem upsertRows_eq_ok {input : List (CounterKey × CounterRow)}
    (h : upsertRows tables input = .ok tables') :
    tables'.counters = KeyedTable.write tables.counters input ∧
      ∀ shard, (tables'.shards shard).observedAtMs = (tables.shards shard).observedAtMs := by
  induction input generalizing tables with
  | nil =>
    cases h
    exact ⟨rfl, fun _ => rfl⟩
  | cons head rest ih =>
    obtain ⟨next, hnext, hrest⟩ := bind_eq_ok.mp h
    obtain ⟨hcounters, hshards⟩ := upsertRow_eq_ok hnext
    obtain ⟨hrows, htimes⟩ := ih hrest
    rw [hcounters] at hrows
    exact ⟨hrows, fun shard => (htimes shard).trans (hshards shard)⟩

theorem observe_observedAtMs
    (tables : Tables) (shards : List CapacityShard) (nowMs : Nat) (shard : CapacityShard) :
    ((tables.observe shards nowMs).shards shard).observedAtMs =
      if shard ∈ shards then nowMs else (tables.shards shard).observedAtMs := by
  unfold Tables.observe
  dsimp only
  split_ifs <;> rfl

theorem clampedTime_le_iff {bound : Int} : clampedTime tables locked sample ≤ bound ↔
      sample ≤ bound ∧ ∀ shard ∈ locked, ((tables.shards shard).observedAtMs : Int) ≤ bound := by
  unfold clampedTime
  induction locked generalizing sample with
  | nil => simp
  | cons shard rest ih =>
    rw [map_cons, foldl_cons, ih, max_le_iff, forall_mem_cons, and_assoc]

theorem observedAtMs_le_clampedTime (tables : Tables) (sample : Int) (h : shard ∈ locked) :
    ((tables.shards shard).observedAtMs : Int) ≤ clampedTime tables locked sample :=
  (clampedTime_le_iff.mp le_rfl).2 shard h

section Committed

variable [Sha256]
variable {checks : List (Check GcraPolicy)}

theorem mem_lockedShards :
    shard ∈ lockedShards checks ↔ ∃ check ∈ checks, capacityShard check.counterKey = shard := by
  have hmem := mem_map_sortDedup id
    (checks.map fun check => capacityShard check.counterKey) shard
  simpa [lockedShards] using hmem

/-- What an allowed transaction commits: its members were allowed at a time not
before the observed times of their shards, their arrival times are stored, and
their shards observe the time. -/
structure Committed (tables : Tables) (checks : List (Check GcraPolicy)) (nowMs : Nat)
    (pendings : List Runlimit.Gcra.PendingAllowance) (tables' : Tables) : Prop where
  nodup : (checks.map Check.counterKey).Nodup
  evaluated : List.Forall₂ (fun check pending =>
    Runlimit.Gcra.evaluate check nowMs (found tables check.counterKey nowMs) =
      .ok (.allowed pending)) checks pendings
  observed_le : ∀ check ∈ checks, observedAt tables check.counterKey ≤ nowMs
  stored : ∀ check pending, (check, pending) ∈ checks.zip pendings →
    tables'.counters.lookup check.counterKey =
      some ⟨pending.tatScaled, pending.expiresAtMillis⟩
  kept : ∀ key, key ∉ checks.map Check.counterKey →
    tables'.counters.lookup key = tables.counters.lookup key
  observed_eq : ∀ shard, (tables'.shards shard).observedAtMs =
    if shard ∈ lockedShards checks then nowMs else (tables.shards shard).observedAtMs

theorem runTransaction_eq_allowed {D : Type} {config : PostgresConfig}
    {build : Admission → Except CheckError D} {decision : D}
    (h : runTransaction tables checks config sample build = .ok (.allowed decision nowMs tables')) :
    ∃ pendings, Committed tables checks nowMs pendings tables' := by
  simp only [runTransaction] at h
  split_ifs at h with hledger hnegative
  obtain ⟨pending, heval, h⟩ := bind_eq_ok.mp h
  cases pending with
  | denied admission =>
    obtain ⟨_, _, h⟩ := bind_eq_ok.mp h
    cases h
  | allowed pendings =>
    obtain ⟨expiries, hexpiries, h⟩ := bind_eq_ok.mp h
    obtain ⟨decision', _, h⟩ := bind_eq_ok.mp h
    obtain ⟨updated, hupsert, h⟩ := bind_eq_ok.mp h
    cases h
    have hevaluated := evaluate_eq_allowed heval
    have hlen := hevaluated.length_eq
    unfold databaseExpiries at hexpiries
    unfold upsert at hupsert
    split_ifs at hexpiries hupsert with hfits hnodup
    cases hexpiries
    have hinput : (checks.map Check.counterKey).zip (List.zipWith CounterRow.mk
        (pendings.map Runlimit.Gcra.PendingAllowance.tatScaled)
        (pendings.map Runlimit.Gcra.PendingAllowance.expiresAtMillis)) =
        (checks.zip pendings).map fun member =>
          (member.1.counterKey, ⟨member.2.tatScaled, member.2.expiresAtMillis⟩) := by
      rw [zipWith_map, zipWith_self, zip_map]
      rfl
    have hkeys : ((checks.zip pendings).map fun member => (member.1.counterKey,
        (⟨member.2.tatScaled, member.2.expiresAtMillis⟩ : CounterRow))).map Prod.fst =
        checks.map Check.counterKey := by
      conv_rhs => rw [← map_fst_zip hlen.le]
      rw [map_map, map_map]
      rfl
    rw [hinput] at hupsert hnodup
    obtain ⟨hcounters, htimes⟩ := upsertRows_eq_ok hupsert
    refine ⟨pendings, hkeys ▸ hnodup, hevaluated, ?_, ?_, ?_, ?_⟩
    · intro check hcheck
      have hle : (observedAt tables check.counterKey : Int) ≤
          clampedTime tables (lockedShards checks) sample :=
        observedAtMs_le_clampedTime tables sample (mem_lockedShards.mpr ⟨check, hcheck, rfl⟩)
      omega
    · intro check pending hmember
      refine (congrArg _ hcounters).trans (KeyedTable.lookup_write_of_mem hnodup ?_)
      exact mem_map.mpr ⟨(check, pending), hmember, rfl⟩
    · intro key hkey
      refine (congrArg _ hcounters).trans (KeyedTable.lookup_write_of_notMem ?_)
      rwa [hkeys]
    · intro shard
      rw [observe_observedAtMs, htimes shard]

end Committed

/-! ### What a cleanup forgets -/

/-- Observed times only grow, and a row is only dropped once its expiry has been
observed. -/
structure Forgets (tables tables' : Tables) : Prop where
  observed_le : ∀ key, observedAt tables key ≤ observedAt tables' key
  lookup_eq : ∀ key, tables'.counters.lookup key = tables.counters.lookup key ∨
    tables'.counters.lookup key = none ∧ ∃ row, tables.counters.lookup key = some row ∧
      row.expiresAtMs ≤ observedAt tables' key

theorem Forgets.found_eq {t : Nat} (h : Forgets tables tables') (ht : observedAt tables' key ≤ t) :
    found tables' key t = found tables key t := by
  unfold found
  rcases h.lookup_eq key with heq | ⟨hnone, row, hrow, hexp⟩
  · rw [heq]
  · rw [hnone, hrow]
    exact (if_neg (not_lt.mpr (hexp.trans ht))).symm

theorem deleteRow_eq_ok (h : deleteRow tables key = .ok tables') :
    tables'.counters = tables.counters.erase key ∧
      ∀ shard, (tables'.shards shard).observedAtMs = (tables.shards shard).observedAtMs := by
  simp only [deleteRow] at h
  split_ifs at h
  cases h
  refine ⟨rfl, fun shard => ?_⟩
  by_cases hshard : shard = capacityShard key
  · subst hshard
    simp
  · simp [hshard]

theorem deleteRows_eq_ok {deleted : List CounterKey} (h : deleteRows tables deleted = .ok tables') :
    tables'.counters = KeyedTable.delete tables.counters deleted ∧
      ∀ shard, (tables'.shards shard).observedAtMs = (tables.shards shard).observedAtMs := by
  induction deleted generalizing tables with
  | nil =>
    cases h
    exact ⟨rfl, fun _ => rfl⟩
  | cons key rest ih =>
    obtain ⟨next, hnext, hrest⟩ := bind_eq_ok.mp h
    obtain ⟨hcounters, hshards⟩ := deleteRow_eq_ok hnext
    obtain ⟨hrows, htimes⟩ := ih hrest
    rw [hcounters] at hrows
    exact ⟨hrows, fun shard => (htimes shard).trans (hshards shard)⟩

theorem Cleanup.forgets (h : Cleanup tables maximum locked sample tables') :
    Forgets tables tables' := by
  obtain ⟨-, deleted, hbatch, hdelete⟩ := h
  obtain ⟨hcounters, htimes⟩ := deleteRows_eq_ok hdelete
  have hobs : ∀ key, observedAt tables' key = observedAt (advanceTime tables locked sample) key :=
    fun key => htimes (capacityShard key)
  refine ⟨fun key => ?_, fun key => ?_⟩
  · rw [hobs]
    unfold observedAt advanceTime
    rw [observe_observedAtMs]
    split_ifs with hlocked
    · have hle := observedAtMs_le_clampedTime tables sample hlocked
      omega
    · exact le_rfl
  · by_cases hin : key ∈ deleted
    · obtain ⟨row, hrow, -, hexp⟩ := hbatch.expired key hin
      refine .inr ⟨?_, row, hrow, by rw [hobs]; exact hexp⟩
      rw [hcounters, KeyedTable.lookup_delete_of_mem hin]
    · refine .inl ?_
      rw [hcounters, KeyedTable.lookup_delete_of_notMem hin]
      rfl

/-! ### Runs -/

section Runs

variable [Sha256]

/-- What a committed transaction leaves on record: the checks it admitted and
their time, or nothing. -/
inductive Event where
  | admitted (checks : List (Check GcraPolicy)) (nowMs : Nat)
  | silent

/-- One transaction after the other.  A denied, failed or abandoned transaction
is rolled back. -/
inductive Step : Tables → Event → Tables → Prop
  | check (config : PostgresConfig) (target : Check GcraPolicy) (sample : Int)
      {tables tables' : Tables} {decision : Decision} {nowMs : Nat}
      (h : check tables config target sample = .ok (.allowed decision nowMs tables')) :
      Step tables (.admitted [target] nowMs) tables'
  | checkAll (config : PostgresConfig) (checks : List (Check GcraPolicy)) (sample : Int)
      {tables tables' : Tables} {decision : BatchDecision} {nowMs : Nat}
      (h : checkAll tables config checks sample = .ok (.allowed decision nowMs tables')) :
      Step tables (.admitted checks nowMs) tables'
  | cleanup (maximum : Nat) (locked : List CapacityShard) (sample : Int)
      {tables tables' : Tables}
      (h : Cleanup tables maximum locked sample tables') :
      Step tables .silent tables'
  | rolledBack (tables : Tables) :
      Step tables .silent tables

/-- What a transaction does to the tables. -/
theorem Step.cases_tables {event : Event} (h : Step tables event tables') :
    (∃ checks nowMs pendings, event = .admitted checks nowMs ∧
      Committed tables checks nowMs pendings tables') ∨
    event = .silent ∧ Forgets tables tables' := by
  cases h with
  | check config target sample h =>
    obtain ⟨pendings, hcomm⟩ := runTransaction_eq_allowed h
    exact .inl ⟨_, _, pendings, rfl, hcomm⟩
  | checkAll config checks sample h =>
    unfold Gcra.checkAll at h
    split at h
    · cases h
    · cases hrun : runTransaction tables checks config sample (batchDecision checks.length) with
      | error error =>
        rw [hrun] at h
        cases h
      | ok outcome =>
        rw [hrun] at h
        cases h
        obtain ⟨pendings, hcomm⟩ := runTransaction_eq_allowed hrun
        exact .inl ⟨_, _, pendings, rfl, hcomm⟩
  | cleanup maximum locked sample h => exact .inr ⟨rfl, h.forgets⟩
  | rolledBack => exact .inr ⟨rfl, fun _ => le_rfl, fun _ => .inl rfl⟩

/-- A committed check of a key with its recorded time. -/
structure Admitted where
  nowMs : Nat
  check : Check GcraPolicy

/-- The checks of a key that an event admitted. -/
def Event.admissions (key : CounterKey) : Event → List Admitted
  | .admitted checks nowMs =>
    (checks.filter fun check => check.counterKey = key).map fun check => ⟨nowMs, check⟩
  | .silent => []

/-- The committed checks of a key, in order. -/
def admissions (key : CounterKey) (events : List Event) : List Admitted :=
  events.flatMap (Event.admissions key)

theorem counterKey_of_mem_admissions {events : List Event} {admitted : Admitted}
    (h : admitted ∈ admissions key events) : admitted.check.counterKey = key := by
  obtain ⟨event, -, hin⟩ := mem_flatMap.mp h
  cases event with
  | silent => simp [Event.admissions] at hin
  | admitted checks nowMs =>
    obtain ⟨check, hcheck, rfl⟩ := mem_map.mp hin
    simpa using (mem_filter.mp hcheck).2

/-- A policy occurs among the committed checks. -/
def UsedIn (events : List Event) (policy : GcraPolicy) : Prop :=
  ∃ key, ∃ admitted ∈ admissions key events, admitted.check.policy = policy

/-- The ideal bucket after some committed checks. -/
def bucketAfter (admitted : List Admitted) : Option Bucket :=
  admitted.foldl
    (fun bucket a => some (Runlimit.Gcra.tokenBucket.charge a.check a.nowMs bucket)) none

/-- The bucket covers a check, which is not before the earlier ones. -/
def Follows (earlier : List Admitted) (a : Admitted) : Prop :=
  Runlimit.Gcra.increment a.check ≤
      Runlimit.Gcra.tokens a.check.policy a.nowMs (bucketAfter earlier) ∧
    ∀ other ∈ earlier, other.nowMs ≤ a.nowMs

/-- The stored arrival time of a key is the debt of its ideal bucket. -/
structure Tracks (policies : GcraPolicy → Prop) (events : List Event) (tables : Tables)
    (key : CounterKey) : Prop where
  owes : Runlimit.Gcra.Owes policies key (observedAt tables key) (found tables key)
    (bucketAfter (admissions key events))
  covered : Throughout Follows (admissions key events)
  time_le : ∀ a ∈ admissions key events, a.nowMs ≤ observedAt tables key

variable {policies : GcraPolicy → Prop} {events : List Event} {event : Event}

/-- A key that is not charged. -/
theorem Tracks.of_not_charged (h : Tracks policies events tables key)
    (hnone : event.admissions key = []) (hobs : observedAt tables key ≤ observedAt tables' key)
    (hfound : ∀ t, observedAt tables' key ≤ t → found tables' key t = found tables key t) :
    Tracks policies (events ++ [event]) tables' key := by
  have hsame : admissions key (events ++ [event]) = admissions key events := by
    simp [admissions, hnone]
  constructor
  · rw [hsame]
    exact h.owes.later hobs hfound
  · rw [hsame]
    exact h.covered
  · rw [hsame]
    exact fun a ha => (h.time_le a ha).trans hobs

section

variable (hcoll : CollisionFree GcraPolicy.fingerprintInput policies)
include hcoll

/-- A key that is charged. -/
theorem Tracks.of_charged {check : Check GcraPolicy} {pending : Runlimit.Gcra.PendingAllowance}
    (hpol : policies check.policy) (h : Tracks policies events tables check.counterKey)
    (hone : event.admissions check.counterKey = [⟨nowMs, check⟩])
    (hnow : observedAt tables check.counterKey ≤ nowMs)
    (heval : Runlimit.Gcra.evaluate check nowMs (found tables check.counterKey nowMs) =
      .ok (.allowed pending))
    (hobs : observedAt tables' check.counterKey = nowMs)
    (hstored : tables'.counters.lookup check.counterKey =
      some ⟨pending.tatScaled, pending.expiresAtMillis⟩) :
    Tracks policies (events ++ [event]) tables' check.counterKey := by
  have hmore : admissions check.counterKey (events ++ [event]) =
      admissions check.counterKey events ++ [⟨nowMs, check⟩] := by
    simp [admissions, hone]
  obtain ⟨hpermits, howes⟩ :=
    (h.owes.later hnow fun _ _ => rfl).permits hcoll hpol heval
  constructor
  · rw [hmore, hobs]
    have hbucket : bucketAfter (admissions check.counterKey events ++ [⟨nowMs, check⟩]) =
        some (Runlimit.Gcra.tokenBucket.charge check nowMs
          (bucketAfter (admissions check.counterKey events))) := by
      simp [bucketAfter]
    rw [hbucket]
    refine howes.later le_rfl fun t _ => ?_
    rw [found, hstored]
    rfl
  · rw [hmore, throughout_append_singleton]
    exact ⟨h.covered, hpermits.1, fun other hother => (h.time_le other hother).trans hnow⟩
  · rw [hmore, hobs]
    intro a ha
    rcases mem_append.mp ha with hold | hnew
    · exact (h.time_le a hold).trans hnow
    · rw [mem_singleton.mp hnew]

/-- Every transaction keeps the tables in step with the buckets. -/
theorem Tracks.step (h : ∀ key, Tracks policies events tables key)
    (hstep : Step tables event tables')
    (hused : ∀ policy, UsedIn (events ++ [event]) policy → policies policy) (key : CounterKey) :
    Tracks policies (events ++ [event]) tables' key := by
  rcases hstep.cases_tables with ⟨checks, nowMs, pendings, rfl, hcomm⟩ | ⟨rfl, hforgets⟩
  · by_cases hin : key ∈ checks.map Check.counterKey
    · obtain ⟨check, hcheck, rfl⟩ := mem_map.mp hin
      have hone : (Event.admitted checks nowMs).admissions check.counterKey =
          [⟨nowMs, check⟩] := by
        rw [Event.admissions, filter_counterKey_eq_singleton hcomm.nodup hcheck]
        rfl
      have hpol : policies check.policy :=
        hused _ ⟨check.counterKey, ⟨nowMs, check⟩, by simp [admissions, hone], rfl⟩
      have hlen := hcomm.evaluated.length_eq
      obtain ⟨⟨member, pending⟩, hmember, rfl⟩ : ∃ member ∈ checks.zip pendings,
          member.1 = check :=
        mem_map.mp ((map_fst_zip hlen.le).symm ▸ hcheck)
      refine (h member.counterKey).of_charged hcoll hpol hone
        (hcomm.observed_le member hcheck) (forall₂_zip hcomm.evaluated hmember) ?_
        (hcomm.stored member pending hmember)
      exact (hcomm.observed_eq _).trans (if_pos (mem_lockedShards.mpr ⟨member, hcheck, rfl⟩))
    · have hnone : (Event.admitted checks nowMs).admissions key = [] := by
        rw [Event.admissions, map_eq_nil_iff, filter_eq_nil_iff]
        intro check hcheck
        simpa using fun heq => hin (mem_map.mpr ⟨check, hcheck, heq⟩)
      have hobs : observedAt tables key ≤ observedAt tables' key := by
        rw [show observedAt tables' key = _ from hcomm.observed_eq _]
        split_ifs with hlocked
        · obtain ⟨check, hcheck, hshard⟩ := mem_lockedShards.mp hlocked
          have hle := hcomm.observed_le check hcheck
          rwa [observedAt, hshard] at hle
        · exact le_rfl
      refine (h key).of_not_charged hnone hobs fun t _ => ?_
      rw [found, found, hcomm.kept key hin]
  · exact (h key).of_not_charged rfl (hforgets.observed_le key) fun t ht => hforgets.found_eq ht

theorem tracks_of_run (hrun : Run Step .initial events tables)
    (hused : ∀ policy, UsedIn events policy → policies policy) (key : CounterKey) :
    Tracks policies events tables key := by
  have hinit : ∀ key, Tracks policies [] Tables.initial key := fun key =>
    ⟨Runlimit.Gcra.owes_initially policies key _, throughout_nil, by simp [admissions]⟩
  refine hrun.invariant_labels
    (fun events tables => (∀ policy, UsedIn events policy → policies policy) →
      ∀ key, Tracks policies events tables key) ?_ (fun _ => hinit) hused key
  intro earlier tables event tables' ih hstep hused
  refine .step hcoll (ih fun policy huse => hused policy ?_) hstep hused
  obtain ⟨key, a, ha, rfl⟩ := huse
  exact ⟨key, a, by simp [admissions] at ha ⊢; exact .inl ha, rfl⟩

end

end Runs

section Rate

variable [Sha256] {policy : GcraPolicy} {admitted : List Admitted}

/-- A committed check as a charge of its bucket. -/
def chargeOf (a : Admitted) : Charge :=
  ⟨a.nowMs, Runlimit.Gcra.increment a.check⟩

/-- The checks are charged to buckets of the policy's numbers. -/
def SameNumbers (policy : GcraPolicy) (a : Admitted) : Prop :=
  a.check.policy.quota = policy.quota ∧ a.check.policy.period = policy.period ∧
    a.check.policy.burstCapacity = policy.burstCapacity

theorem SameNumbers.burstSpan_eq {a : Admitted} (h : SameNumbers policy a) :
    Runlimit.Gcra.burstSpan a.check.policy = Runlimit.Gcra.burstSpan policy := by
  rw [Runlimit.Gcra.burstSpan, Runlimit.Gcra.burstSpan, h.2.1, h.2.2]

/-- Checks with the numbers of one policy charge one bucket. -/
theorem bucketAfter_eq (h : ∀ a ∈ admitted, SameNumbers policy a) : bucketAfter admitted =
      after policy.quota.get (Runlimit.Gcra.burstSpan policy) (admitted.map chargeOf) := by
  induction admitted using List.reverseRecOn with
  | nil => rfl
  | append_singleton earlier a ih =>
    have hlast := h a (by simp)
    have hearlier := ih fun b hb => h b (mem_append_left _ hb)
    rw [map_append, map_singleton, after_append_singleton, ← hearlier]
    have hbucket : bucketAfter (earlier ++ [a]) =
        some (Runlimit.Gcra.tokenBucket.charge a.check a.nowMs (bucketAfter earlier)) := by
      simp [bucketAfter]
    rw [hbucket, Runlimit.Gcra.tokenBucket]
    dsimp only
    rw [hlast.1, hlast.burstSpan_eq]
    rfl

theorem covered_of_follows (hfollows : Throughout Follows admitted)
    (h : ∀ a ∈ admitted, SameNumbers policy a) :
    Throughout (Covered policy.quota.get (Runlimit.Gcra.burstSpan policy))
      (admitted.map chargeOf) := by
  refine hfollows.map fun earlier a hin ⟨hcovered, htimes⟩ => ⟨?_, ?_⟩
  · have ha := h a (hin.subset (by simp))
    have hearlier := bucketAfter_eq fun b hb => h b (hin.subset (mem_append_left _ hb))
    rw [← hearlier]
    rw [Runlimit.Gcra.tokens, ha.1, ha.burstSpan_eq] at hcovered
    exact hcovered
  · intro other hother
    obtain ⟨b, hb, rfl⟩ := mem_map.mp hother
    exact htimes b hb

theorem sum_increments_eq (h : ∀ a ∈ admitted, SameNumbers policy a) :
    ((admitted.map chargeOf).map Charge.amount).sum =
      (admitted.map fun a => a.check.cost).sum * policy.period.millis := by
  induction admitted with
  | nil => simp
  | cons a rest ih =>
    have ha := h a mem_cons_self
    have hrest := ih fun b hb => h b (mem_cons_of_mem _ hb)
    simp only [map_cons, sum_cons, hrest, chargeOf, Runlimit.Gcra.increment, ha.2.1, Nat.add_mul]

end Rate

end Gcra

/-- The GCRA limiter never exceeds its rate, whatever the database clock does:
between any two committed checks of a key, the costs of the key's committed
checks exceed neither the burst capacity nor what the policy replenishes in the
recorded time between them. -/
theorem postgres_gcra_never_exceeds_rate [Sha256]
    {events : List Gcra.Event} {tables : Gcra.Tables} {key : CounterKey}
    {earlier rest later : List Gcra.Admitted} {first last : Gcra.Admitted}
    (hrun : Runs.Run Gcra.Step Gcra.Tables.initial events tables)
    (hcollision : CollisionFree GcraPolicy.fingerprintInput (Gcra.UsedIn events))
    (hsegment : Gcra.admissions key events = earlier ++ (first :: rest) ++ later)
    (hlast : (first :: rest).getLast? = some last) :
    first.nowMs ≤ last.nowMs ∧
      ((first :: rest).map fun a => a.check.cost).sum * first.check.policy.period.millis ≤
        first.check.policy.burstCapacity.get * first.check.policy.period.millis +
          (last.nowMs - first.nowMs) * first.check.policy.quota.get := by
  have htracks := Gcra.tracks_of_run hcollision hrun (fun _ h => h) key
  have hin : ∀ a ∈ Gcra.admissions key events, Gcra.UsedIn events a.check.policy :=
    fun a ha => ⟨key, a, ha, rfl⟩
  have hmember : ∀ a ∈ first :: rest, a ∈ Gcra.admissions key events := by
    intro a ha
    rw [hsegment]
    exact List.mem_append_left _ (List.mem_append_right _ ha)
  have hfirst := hmember first List.mem_cons_self
  have hsame : ∀ a ∈ Gcra.admissions key events, Gcra.SameNumbers first.check.policy a := by
    intro a ha
    refine Runlimit.Gcra.eq_of_fingerprint_eq hcollision (hin a ha) (hin first hfirst) ?_
    have hkey := (Gcra.counterKey_of_mem_admissions ha).trans
      (Gcra.counterKey_of_mem_admissions hfirst).symm
    exact congrArg CounterKey.fingerprint hkey
  have hcovered := Gcra.covered_of_follows htracks.covered hsame
  rw [hsegment, List.map_append, List.map_append, List.map_cons] at hcovered
  obtain ⟨htime, hsum⟩ := TokenBucket.sum_amounts_le hcovered
    (by rw [← List.map_cons, List.getLast?_map, hlast]; rfl)
  rw [← List.map_cons, Gcra.sum_increments_eq fun a ha => hsame a (hmember a ha)] at hsum
  rw [Nat.mul_comm (last.nowMs - first.nowMs)]
  exact ⟨htime, hsum⟩

/-- A login of one subject. -/
def pacedLogin : letI : Sha256 := pacedLoginSha256; Check GcraPolicy :=
  letI : Sha256 := pacedLoginSha256
  .new pacedLoginPolicy 7

/-- The bound applies to two logins that were committed a little more than one
period apart. -/
theorem postgres_gcra_never_exceeds_rate_logins : letI : Sha256 := pacedLoginSha256
    ∃ tables, Runs.Run Gcra.Step Gcra.Tables.initial
        [.admitted [pacedLogin] 1500, .admitted [pacedLogin] 2600] tables ∧
      1500 ≤ 2600 ∧
      ([⟨1500, pacedLogin⟩, ⟨2600, pacedLogin⟩].map
          fun a : Gcra.Admitted => a.check.cost).sum * 1000 ≤ 1 * 1000 + (2600 - 1500) * 1 := by
  let _ : Sha256 := pacedLoginSha256
  obtain ⟨tables, hrun⟩ : ∃ tables, Runs.Run Gcra.Step Gcra.Tables.initial
      [.admitted [pacedLogin] 1500, .admitted [pacedLogin] 2600] tables :=
    ⟨_, Runs.Run.cons (Gcra.Step.check PostgresConfig.new pacedLogin 1500 rfl)
      (Runs.Run.cons (Gcra.Step.check PostgresConfig.new pacedLogin 2600 rfl) (Runs.Run.nil _))⟩
  have hseg : Gcra.admissions pacedLogin.counterKey
      [.admitted [pacedLogin] 1500, .admitted [pacedLogin] 2600] =
      [] ++ (⟨1500, pacedLogin⟩ :: [⟨2600, pacedLogin⟩]) ++ [] := by
    simp [Gcra.admissions, Gcra.Event.admissions]
  refine ⟨tables, hrun, postgres_gcra_never_exceeds_rate hrun ?_ hseg rfl⟩
  have hused : ∀ policy, Gcra.UsedIn
      [.admitted [pacedLogin] 1500, .admitted [pacedLogin] 2600] policy →
      policy = pacedLoginPolicy := by
    rintro policy ⟨key, a, ha, rfl⟩
    obtain ⟨event, hevent, hin⟩ := List.mem_flatMap.mp ha
    simp only [List.mem_cons, List.not_mem_nil, or_false] at hevent
    rcases hevent with rfl | rfl <;>
      · obtain ⟨check, hcheck, rfl⟩ := List.mem_map.mp hin
        obtain rfl := List.mem_singleton.mp (List.mem_filter.mp hcheck).1
        rfl
  intro p q hp hq _
  rw [hused p hp, hused q hq]

end Batter.Runlimit.Postgres
