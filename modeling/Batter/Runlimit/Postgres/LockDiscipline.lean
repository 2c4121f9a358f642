import Batter.Runlimit.Postgres.LockProtocol

/-!
# Runlimit Postgres: what the locks of a transaction keep

A transaction knows that a row it has locked is not written by others, that a key
without a row stays without one while it holds the key's advisory lock, and that
a locked ledger row keeps its count (`Rely`).  This is enough for every statement
to be repeated at the end of the transaction with the same outcome: `Knows` says
for every phase what the transaction has found and that it still holds.

A cleanup deletes rows without any advisory lock.  That is safe because a row that
an admission has found is locked, and a row that it has not found cannot be
deleted.  An admission that is about to insert a row holds the advisory lock of
its key, so that nobody else can hold the row.
-/

namespace Batter.Runlimit.Postgres

open RustStd SortedList AnchoredWindow Locking List

variable {key : CounterKey} {victims : List CounterKey} {maximum maximumRows : Nat} {r : Resource}
variable {tables tables' : Tables} {sample : Timestamp}

/-- All ledger rows in ascending order. -/
def ledgers : List Resource :=
  (List.finRange capacityShardCount).map .ledger

theorem mem_ledgers (shard : CapacityShard) : .ledger shard ∈ ledgers :=
  mem_map_of_mem (mem_finRange shard)

theorem pairwise_ledgers : ledgers.Pairwise (· < ·) :=
  pairwise_map.mpr ((pairwise_lt_finRange _).imp Resource.ledger_lt_ledger.mpr)

theorem pairwise_sortedShards (shards : List CapacityShard) :
    ((sortDedup id shards).map Resource.ledger).Pairwise (· < ·) :=
  pairwise_map.mpr
    ((pairwise_sortDedup id shards).imp Resource.ledger_lt_ledger.mpr)

/-- The rows that a cleanup has locked. -/
structure Victims (tables : Tables) (held : Set Resource) (maximum : Nat) (sample : Timestamp)
    (victims : List CounterKey) : Prop where
  nodup : victims.Nodup
  length_le : victims.length ≤ maximum
  locked : ∀ key ∈ victims, .row key ∈ held
  expired : ∀ key ∈ victims, ∃ row, tables.rows.lookup key = some row ∧
    row.expiresAt ≤ sample.micros

theorem Victims.mono {held held' : Set Resource} (h : Victims tables held maximum sample victims)
    (hsubset : held ⊆ held') : Victims tables held' maximum sample victims :=
  ⟨h.nodup, h.length_le, fun key hkey => hsubset (h.locked key hkey), h.expired⟩

variable [Sha256]

/-- What the validation of a request ensures. -/
structure Request.Admissible (request : Request) : Prop where
  nonempty : request.checks ≠ []
  modes : ∀ c ∈ request.checks, ∀ d ∈ request.checks, c.quotaMode = d.quotaMode
  keys : (request.checks.map Check.counterKey).Nodup

variable {request : Request} {checks : List (Check FixedWindowPolicy)}

theorem Request.admissible_of_validate {config : PostgresConfig}
    (h : request.validate config = .ok ()) : request.Admissible := by
  cases request with
  | check target =>
    exact ⟨by simp [checks], by simp [checks], by simp [checks]⟩
  | checkAll checks =>
    obtain ⟨hnonempty, -, hmodes, hkeys⟩ := validateBatch_eq_ok_iff.mp h
    exact ⟨hnonempty, hmodes, hkeys⟩

/-! ### Interference -/

/-- What the others leave alone while a transaction holds some locks. -/
structure Rely (held : Set Resource) (tables tables' : Tables) : Prop where
  row : ∀ key, .row key ∈ held → tables'.rows.lookup key = tables.rows.lookup key
  absent : ∀ key, .advisory (advisoryLockId key) ∈ held → key ∉ tables.rows →
    key ∉ tables'.rows
  ledger : ∀ shard, .ledger shard ∈ held → tables'.ledger shard = tables.ledger shard

theorem Rely.refl (held : Set Resource) (tables : Tables) : Rely held tables tables :=
  ⟨fun _ _ => rfl, fun _ _ h => h, fun _ _ => rfl⟩

/-- The locks on a key with which nobody else can insert, change or delete its
row. -/
structure Guards (tables : Tables) (held : Set Resource) (key : CounterKey) : Prop where
  advisory : .advisory (advisoryLockId key) ∈ held
  row : key ∈ tables.rows → .row key ∈ held

namespace Guards

variable {held held' : Set Resource}

variable (h : Guards tables held key)
include h

theorem lookup_eq (hrely : Rely held tables tables') :
    tables'.rows.lookup key = tables.rows.lookup key := by
  by_cases hmem : key ∈ tables.rows
  · exact hrely.row key (h.row hmem)
  · rw [Finmap.lookup_eq_none.mpr hmem,
      Finmap.lookup_eq_none.mpr (hrely.absent key h.advisory hmem)]

theorem stable (hrely : Rely held tables tables') : Guards tables' held key := by
  refine ⟨h.advisory, fun hmem => h.row ?_⟩
  by_contra hnot
  exact hrely.absent key h.advisory hnot hmem

theorem mono (hsubset : held ⊆ held') : Guards tables held' key :=
  ⟨hsubset h.advisory, fun hmem => hsubset (h.row hmem)⟩

end Guards

/-- All locks that an admission needs to decide and to write. -/
structure Ready (tables : Tables) (held : Set Resource)
    (checks : List (Check FixedWindowPolicy)) : Prop where
  guards : ∀ check ∈ checks, Guards tables held check.counterKey
  shards : ∀ shard ∈ (missingKeys 0 (members tables.rows checks)).map Prod.snd,
    .ledger shard ∈ held

namespace Ready

variable {held held' : Set Resource} {checks : List (Check FixedWindowPolicy)}

theorem members_eq (h : ∀ check ∈ checks, Guards tables held check.counterKey)
    (hrely : Rely held tables tables') : members tables'.rows checks = members tables.rows checks :=
  members_congr fun check hcheck => (h check hcheck).lookup_eq hrely

theorem stable (h : Ready tables held checks) (hrely : Rely held tables tables') :
    Ready tables' held checks := by
  refine ⟨fun check hcheck => (h.guards check hcheck).stable hrely, ?_⟩
  rw [members_eq h.guards hrely]
  exact h.shards

theorem mono (h : Ready tables held checks) (hsubset : held ⊆ held') : Ready tables held' checks :=
  ⟨fun check hcheck => (h.guards check hcheck).mono hsubset,
    fun shard hshard => hsubset (h.shards shard hshard)⟩

end Ready

/-! ### What an admission has found -/

/-- The result of `first_capacity_denial` on these tables. -/
def capacityDenial (maximumRows : Nat) (tables : Tables)
    (checks : List (Check FixedWindowPolicy)) : Option Nat :=
  firstCapacityDenial maximumRows tables.ledger (fun _ => 0)
    (missingKeys 0 (members tables.rows checks))

/-- Neither capacity nor quota denies a batch at a time. -/
structure Proceeds (maximumRows : Nat) (tables : Tables)
    (checks : List (Check FixedWindowPolicy)) (now : Timestamp) : Prop where
  capacity : capacityDenial maximumRows tables checks = none
  quota : firstQuotaDenial now.micros 0 (members tables.rows checks) = none

/-- A request is denied with a reply. -/
def Denies (maximumRows : Nat) (tables : Tables) (request : Request) (now response : Timestamp)
    (reply : Reply) : Prop :=
  ∃ quota index denial,
    preflightDenial request.checks now.micros
      (firstQuotaDenial now.micros 0 (members tables.rows request.checks)) = .ok quota ∧
    firstDenial (capacityDenial maximumRows tables request.checks) quota = some (index, denial) ∧
    request.build (deniedAdmission request.checks index denial
      (authoritativeElapsed now response)) = .ok reply

/-- A request is allowed with a reply and writes some rows and counts. -/
def Updates (tables : Tables) (request : Request) (now response : Timestamp) (reply : Reply)
    (rows : List (CounterKey × Row)) (counts : List (CapacityShard × Nat)) : Prop :=
  ∃ allowances,
    upsertBatch now.micros (members tables.rows request.checks) = .ok (rows, allowances) ∧
    capacityAfterInsert tables.ledger
      ((missingKeys 0 (members tables.rows request.checks)).map Prod.snd) = .ok counts ∧
    request.build (.allowed (allowances.map
      (finishAllowance (authoritativeElapsed now response)))) = .ok reply

section Stable

variable {held : Set Resource} {request : Request} {checks : List (Check FixedWindowPolicy)}
  {now response : Timestamp} {reply : Reply} {rows : List (CounterKey × Row)}
  {counts : List (CapacityShard × Nat)}

theorem Ready.capacityDenial_eq (h : Ready tables held checks) (hrely : Rely held tables tables') :
    capacityDenial maximumRows tables' checks = capacityDenial maximumRows tables checks := by
  rw [capacityDenial, capacityDenial, Ready.members_eq h.guards hrely]
  exact firstCapacityDenial_congr fun shard hshard => hrely.ledger shard (h.shards shard hshard)

theorem Proceeds.stable (h : Proceeds maximumRows tables checks now)
    (hready : Ready tables held checks) (hrely : Rely held tables tables') :
    Proceeds maximumRows tables' checks now := by
  refine ⟨(hready.capacityDenial_eq hrely).trans h.capacity, ?_⟩
  rw [Ready.members_eq hready.guards hrely]
  exact h.quota

theorem Denies.stable (h : Denies maximumRows tables request now response reply)
    (hready : Ready tables held request.checks) (hrely : Rely held tables tables') :
    Denies maximumRows tables' request now response reply := by
  rw [Denies, Ready.members_eq hready.guards hrely, hready.capacityDenial_eq hrely]
  exact h

theorem Updates.stable (h : Updates tables request now response reply rows counts)
    (hready : Ready tables held request.checks) (hrely : Rely held tables tables') :
    Updates tables' request now response reply rows counts := by
  rw [Updates, Ready.members_eq hready.guards hrely, capacityAfterInsert,
    capacityTrigger_congr fun shard hshard => hrely.ledger shard (hready.shards shard hshard)]
  exact h

end Stable

/-! ### What a transaction knows -/

/-- What an admission knows in each phase. -/
def AdmissionKnows (maximumRows : Nat) (tables : Tables) (held : Set Resource)
    (request : Request) : AdmissionPhase → Prop
  | .lockingIds remaining =>
    Visited (advisoryLockIds request.checks) remaining fun id => .advisory id ∈ held
  | .lockingRows remaining =>
    (∀ id ∈ advisoryLockIds request.checks, .advisory id ∈ held) ∧
      Visited (rowLockKeys request.checks) remaining fun key =>
        key ∈ tables.rows → .row key ∈ held
  | .lockingShards missing remaining rowCount =>
    (∀ check ∈ request.checks, Guards tables held check.counterKey) ∧
      missing = missingKeys 0 (members tables.rows request.checks) ∧
      Visited (targetShards missing) remaining fun shard =>
        .ledger shard ∈ held ∧ rowCount shard = tables.ledger shard
  | .preflight capacity =>
    Ready tables held request.checks ∧
      capacity = capacityDenial maximumRows tables request.checks
  | .updating now =>
    Ready tables held request.checks ∧ Proceeds maximumRows tables request.checks now
  | .denied now response reply =>
    Ready tables held request.checks ∧ Denies maximumRows tables request now response reply
  | .updated now response reply rows counts =>
    Ready tables held request.checks ∧
      (∀ check ∈ request.checks, .row check.counterKey ∈ held) ∧
      Proceeds maximumRows tables request.checks now ∧
      Updates tables request now response reply rows counts

/-- What a cleanup knows in each phase. -/
def CleanupKnows (tables : Tables) (held : Set Resource) (maximum : Nat) : CleanupPhase → Prop
  | .selecting sample victims => Victims tables held maximum sample victims
  | .lockingShards sample victims remaining =>
    Victims tables held maximum sample victims ∧
      Visited (shardsOf victims) remaining fun shard => .ledger shard ∈ held
  | .deleted sample victims counts =>
    Victims tables held maximum sample victims ∧
      (∀ shard ∈ shardsOf victims, .ledger shard ∈ held) ∧
      capacityAfterDelete tables.ledger (victims.map capacityShard) = .ok counts

/-- What a transaction knows about its own reads. -/
def PhaseKnows (maximumRows : Nat) (tables : Tables) (held : Set Resource) : Tx → Prop
  | .admission request phase =>
    request.Admissible ∧ AdmissionKnows maximumRows tables held request phase
  | .cleanup maximum phase => CleanupKnows tables held maximum phase

/-- The locks for which a transaction may still wait, in their order. -/
def Tx.awaited : Tx → List Resource
  | .admission request (.lockingIds remaining) =>
    remaining.map .advisory ++ ((rowLockKeys request.checks).map .row ++ ledgers)
  | .admission _ (.lockingRows remaining) => remaining.map .row ++ ledgers
  | .admission _ (.lockingShards _ remaining _) => remaining.map .ledger
  | .cleanup _ (.selecting _ _) => ledgers
  | .cleanup _ (.lockingShards _ _ remaining) => remaining.map .ledger
  | _ => []

/-- What holds of a transaction that holds some locks. -/
structure Knows (maximumRows : Nat) (tables : Tables) (held : Set Resource) (tx : Tx) : Prop where
  phase : PhaseKnows maximumRows tables held tx
  inOrder : InOrder held tx.awaited
  rows : ∀ key, .row key ∈ held → key ∈ tables.rows ∨ .advisory (advisoryLockId key) ∈ held

/-! ### Lock orders -/

theorem mem_advisoryLockIds {check : Check FixedWindowPolicy} (h : check ∈ checks) :
    advisoryLockId check.counterKey ∈ advisoryLockIds checks := by
  rw [advisoryLockIds, mem_sortDedup_id]
  exact mem_map.mpr ⟨check, h, rfl⟩

theorem mem_rowLockKeys : key ∈ rowLockKeys checks ↔ key ∈ checks.map Check.counterKey :=
  mem_insertionSort _

theorem pairwise_rowLockKeys (h : (checks.map Check.counterKey).Nodup) :
    (rowLockKeys checks).Pairwise (· < ·) := by
  have hle : (rowLockKeys checks).Pairwise (· ≤ ·) := pairwise_sort id _
  have hne : (rowLockKeys checks).Pairwise (· ≠ ·) := (perm_insertionSort _ _).nodup_iff.mpr h
  exact (hle.and hne).imp fun h => lt_of_le_of_ne h.1 h.2

/-- The locks of an admission are requested in ascending order. -/
theorem pairwise_awaited (h : request.Admissible) :
    ((advisoryLockIds request.checks).map Resource.advisory ++
      ((rowLockKeys request.checks).map Resource.row ++ ledgers)).Pairwise (· < ·) := by
  refine pairwise_append.mpr ⟨?_, pairwise_append.mpr ⟨?_, pairwise_ledgers, ?_⟩, ?_⟩
  · exact pairwise_map.mpr
      ((pairwise_sortDedup id _).imp Resource.advisory_lt_advisory.mpr)
  · exact pairwise_map.mpr ((pairwise_rowLockKeys h.keys).imp Resource.row_lt_row.mpr)
  · intro a ha b hb
    obtain ⟨key, -, rfl⟩ := mem_map.mp ha
    obtain ⟨shard, -, rfl⟩ := mem_map.mp hb
    exact Resource.row_lt_ledger key shard
  · intro a ha b hb
    obtain ⟨id, -, rfl⟩ := mem_map.mp ha
    rcases mem_append.mp hb with hb | hb
    · obtain ⟨key, -, rfl⟩ := mem_map.mp hb
      exact Resource.advisory_lt_row id key
    · obtain ⟨shard, -, rfl⟩ := mem_map.mp hb
      exact Resource.advisory_lt_ledger id shard

/-! ### Own steps -/

section Steps

variable {held : Set Resource} {tx tx' : Tx} {granted : List Resource}

theorem Knows.start (tables : Tables) (h : Start maximumRows tx) :
    Knows maximumRows tables ∅ tx := by
  cases h with
  | admission hrows hvalid =>
    have hadm := Request.admissible_of_validate hvalid
    exact ⟨⟨hadm, .start _ _⟩, ⟨pairwise_awaited hadm, by simp⟩, by simp⟩
  | cleanup sample hpos =>
    exact ⟨⟨nodup_nil, Nat.zero_le _, by simp, by simp⟩, ⟨pairwise_ledgers, by simp⟩,
      by simp⟩

/-- What a transaction knows after a step that it waited for. -/
theorem PhaseKnows.advance (h : PhaseKnows maximumRows tables held tx)
    (hadvance : Advance maximumRows tables tx granted tx') :
    PhaseKnows maximumRows tables (held ∪ {r | r ∈ granted}) tx' := by
  have hsubset : held ⊆ held ∪ {r | r ∈ granted} := Set.subset_union_left
  have hgranted : ∀ r ∈ granted, r ∈ held ∪ {r | r ∈ granted} := fun r hr => .inr hr
  cases hadvance with
  | lockId request id rest =>
    exact ⟨h.1, (h.2.imp fun _ _ hid => hsubset hid).next
      (hgranted _ (mem_singleton_self _))⟩
  | idsLocked request =>
    exact ⟨h.1, fun id hid => hsubset (h.2.forall_mem id hid), Visited.start _ _⟩
  | lockRow request key rest hrow =>
    obtain ⟨hadm, hids, hrows⟩ := h
    exact ⟨hadm, fun id hid => hsubset (hids id hid),
      (hrows.imp fun _ _ hkey hmem => hsubset (hkey hmem)).next
        fun _ => hgranted _ (mem_singleton_self _)⟩
  | noRow request key rest hrow =>
    obtain ⟨hadm, hids, hrows⟩ := h
    exact ⟨hadm, fun id hid => hsubset (hids id hid),
      (hrows.imp fun _ _ hkey hmem => hsubset (hkey hmem)).next fun hmem => absurd hmem hrow⟩
  | rowsLocked request hmissing =>
    obtain ⟨hadm, hids, hrows⟩ := h
    refine ⟨hadm, fun check hcheck => ?_, hmissing, Visited.start _ _⟩
    have hkey := mem_rowLockKeys.mpr (mem_map_of_mem hcheck)
    exact ⟨hsubset (hids _ (mem_advisoryLockIds hcheck)),
      fun hmem => hsubset (hrows.forall_mem _ hkey hmem)⟩
  | lockShard request missing shard rest rowCount =>
    obtain ⟨hadm, hguards, hmissing, hshards⟩ := h
    refine ⟨hadm, fun check hcheck => (hguards check hcheck).mono hsubset, hmissing,
      (hshards.imp fun other _ hother => ⟨hsubset hother.1, ?_⟩).next
        ⟨hgranted _ (mem_singleton_self _), Function.update_self ..⟩⟩
    by_cases hsame : other = shard
    · rw [hsame, Function.update_self]
    · rw [Function.update_of_ne hsame, hother.2]
  | shardsLocked request missing rowCount =>
    obtain ⟨hadm, hguards, rfl, hshards⟩ := h
    have hlocked := fun shard hshard => hshards.forall_mem shard (mem_targetShards.mpr hshard)
    exact ⟨hadm, ⟨fun check hcheck => (hguards check hcheck).mono hsubset,
      fun shard hshard => hsubset (hlocked shard hshard).1⟩,
      firstCapacityDenial_congr fun shard hshard => (hlocked shard hshard).2⟩
  | deny hquota hden hreply =>
    obtain ⟨hadm, hready, rfl⟩ := h
    exact ⟨hadm, hready.mono hsubset, _, _, _, hquota, hden, hreply⟩
  | proceed hquota hden =>
    obtain ⟨hadm, hready, rfl⟩ := h
    obtain ⟨hcap, rfl⟩ := firstDenial_eq_none.mp hden
    exact ⟨hadm, hready.mono hsubset, hcap, preflightDenial_eq_ok_none hquota⟩
  | upsert hupsert htrigger hreply =>
    obtain ⟨hadm, hready, hproceeds⟩ := h
    refine ⟨hadm, hready.mono hsubset, fun check hcheck => hgranted _ ?_, hproceeds,
      _, hupsert, htrigger, hreply⟩
    exact mem_append_left _ (mem_map.mpr ⟨check, hcheck, rfl⟩)
  | victimsLocked maximum sample victims =>
    exact ⟨h.mono hsubset, Visited.start _ _⟩
  | lockVictimShard maximum sample victims shard rest =>
    exact ⟨h.1.mono hsubset, (h.2.imp fun _ _ hshard => hsubset hshard).next
      (hgranted _ (mem_singleton_self _))⟩
  | delete htrigger =>
    exact ⟨h.1.mono hsubset, fun shard hshard => hsubset (h.2.forall_mem shard hshard), htrigger⟩

/-- A transaction waits for its locks in their order. -/
theorem inOrder_advance (h : InOrder held tx.awaited)
    (hadvance : Advance maximumRows tables tx granted tx') :
    InOrder (held ∪ {r | r ∈ granted}) tx'.awaited := by
  have hnone : held ∪ {r | r ∈ ([] : List Resource)} = held := by simp
  cases hadvance with
  | lockId request id rest => exact h.granted
  | idsLocked request => exact hnone.symm ▸ h
  | lockRow request key rest hrow => exact h.granted
  | noRow request key rest hrow => exact hnone.symm ▸ h.dropped
  | rowsLocked request hmissing =>
    refine hnone.symm ▸ h.narrowed (pairwise_sortedShards _) fun r hr => ?_
    obtain ⟨shard, -, rfl⟩ := mem_map.mp hr
    exact mem_ledgers shard
  | lockShard request missing shard rest rowCount => exact h.granted
  | victimsLocked maximum sample victims =>
    refine hnone.symm ▸ h.narrowed (pairwise_sortedShards _) fun r hr => ?_
    obtain ⟨shard, -, rfl⟩ := mem_map.mp hr
    exact mem_ledgers shard
  | lockVictimShard maximum sample victims shard rest => exact h.granted
  | _ => exact InOrder.nil

/-- A step that waits takes the row of a stored key or of a key that it guards. -/
theorem Advance.rows (h : PhaseKnows maximumRows tables held tx)
    (hadvance : Advance maximumRows tables tx granted tx') (hkey : .row key ∈ granted) :
    key ∈ tables.rows ∨ .advisory (advisoryLockId key) ∈ held := by
  cases hadvance with
  | lockRow request key' rest hrow =>
    obtain rfl : key = key' := by simpa using hkey
    exact .inl hrow
  | upsert hupsert htrigger hreply =>
    obtain ⟨-, hready, -⟩ := h
    rcases mem_append.mp hkey with hkey | hkey
    · obtain ⟨check, hcheck, heq⟩ := mem_map.mp hkey
      exact .inr (Resource.row.inj heq ▸ (hready.guards check hcheck).advisory)
    · simp at hkey
  | @delete maximum sample victims counts htrigger =>
    have hvictim : key ∈ victims := by simpa [deleteLocks] using hkey
    obtain ⟨row, hrow, -⟩ := h.1.expired key hvictim
    exact .inl (Finmap.mem_of_lookup_eq_some hrow)
  | _ => simp at hkey

theorem Knows.advance (h : Knows maximumRows tables held tx)
    (hadvance : Advance maximumRows tables tx granted tx') :
    Knows maximumRows tables (held ∪ {r | r ∈ granted}) tx' := by
  refine ⟨h.phase.advance hadvance, inOrder_advance h.inOrder hadvance, ?_⟩
  rintro key (hkey | hkey)
  · exact (h.rows key hkey).imp_right .inl
  · exact (hadvance.rows h.phase hkey).imp_right .inl

theorem Knows.skip (h : Knows maximumRows tables held tx) (hskip : Skip tables tx r tx') :
    Knows maximumRows tables (held ∪ {r' | r' ∈ [r]}) tx' := by
  obtain @⟨maximum, sample, victims, key, row, hrow, hexp, hnew, hroom⟩ := hskip
  obtain ⟨hphase, horder, hrows⟩ := h
  have hkey : .row key ∈ held ∪ {r' | r' ∈ [Resource.row key]} := .inr (mem_singleton_self _)
  refine ⟨⟨nodup_cons.mpr ⟨hnew, hphase.nodup⟩, hroom, ?_, ?_⟩, ⟨horder.increasing, ?_⟩, ?_⟩
  · exact forall_mem_cons.mpr ⟨hkey, fun k hk => .inl (hphase.locked k hk)⟩
  · exact forall_mem_cons.mpr ⟨⟨row, hrow, hexp⟩, hphase.expired⟩
  · rintro a (ha | ha) b hb
    · exact horder.above a ha b hb
    · obtain ⟨shard, -, rfl⟩ := mem_map.mp hb
      rw [mem_singleton.mp ha]
      exact Resource.row_lt_ledger key shard
  · rintro k (hk | hk)
    · exact (hrows k hk).imp_right .inl
    · obtain rfl : k = key := by simpa using hk
      exact .inl (Finmap.mem_of_lookup_eq_some hrow)

/-! ### Steps of others -/

theorem Victims.stable (h : Victims tables held maximum sample victims)
    (hrely : Rely held tables tables') : Victims tables' held maximum sample victims := by
  refine ⟨h.nodup, h.length_le, h.locked, fun key hkey => ?_⟩
  rw [hrely.row key (h.locked key hkey)]
  exact h.expired key hkey

/-- What a transaction knows is not changed by others. -/
theorem PhaseKnows.stable (h : PhaseKnows maximumRows tables held tx)
    (hrely : Rely held tables tables') : PhaseKnows maximumRows tables' held tx := by
  rcases tx with ⟨request, phase⟩ | ⟨maximum, phase⟩
  · refine ⟨h.1, ?_⟩
    replace h := h.2
    cases phase with
    | lockingIds remaining => exact h
    | lockingRows remaining =>
      refine ⟨h.1, h.2.imp fun key hmem hkey hstored => hkey ?_⟩
      by_contra hnot
      obtain ⟨check, hcheck, rfl⟩ := mem_map.mp (mem_rowLockKeys.mp hmem)
      exact hrely.absent _ (h.1 _ (mem_advisoryLockIds hcheck)) hnot hstored
    | lockingShards missing remaining rowCount =>
      obtain ⟨hguards, hmissing, hshards⟩ := h
      refine ⟨fun check hcheck => (hguards check hcheck).stable hrely, ?_, ?_⟩
      · rw [Ready.members_eq hguards hrely, hmissing]
      · exact hshards.imp fun shard _ hshard =>
          ⟨hshard.1, hshard.2.trans (hrely.ledger shard hshard.1).symm⟩
    | preflight cap =>
      exact ⟨h.1.stable hrely, h.2.trans (h.1.capacityDenial_eq hrely).symm⟩
    | updating now => exact ⟨h.1.stable hrely, h.2.stable h.1 hrely⟩
    | denied now response reply => exact ⟨h.1.stable hrely, h.2.stable h.1 hrely⟩
    | updated now response reply rows counts =>
      obtain ⟨hready, hrows, hproceeds, hupdates⟩ := h
      exact ⟨hready.stable hrely, hrows, hproceeds.stable hready hrely,
        hupdates.stable hready hrely⟩
  · cases phase with
    | selecting sample victims => exact Victims.stable h hrely
    | lockingShards sample victims remaining => exact ⟨Victims.stable h.1 hrely, h.2⟩
    | deleted sample victims counts =>
      obtain ⟨hvictims, hshards, htrigger⟩ := h
      refine ⟨hvictims.stable hrely, hshards, ?_⟩
      rw [← htrigger]
      exact capacityTrigger_congr fun shard hshard =>
        hrely.ledger shard (hshards shard (mem_sortDedup_id.mpr hshard))

theorem Knows.stable (h : Knows maximumRows tables held tx) (hrely : Rely held tables tables') :
    Knows maximumRows tables' held tx := by
  refine ⟨h.phase.stable hrely, h.inOrder, fun key hkey => (h.rows key hkey).imp_left ?_⟩
  intro hmem
  rw [← Finmap.lookup_isSome] at hmem ⊢
  rwa [hrely.row key hkey]

variable {other : Set Resource}

/-- A transaction that ends changes only what its locks cover. -/
theorem Knows.keeps {event : Event} (h : Knows maximumRows tables held tx)
    (hfin : Finish tables tx event tables') (hdisj : Disjoint held other) :
    Rely other tables tables' := by
  have hapart : ∀ r ∈ held, r ∉ other := fun r hr => Set.disjoint_left.mp hdisj hr
  cases hfin with
  | denied request now response reply => exact Rely.refl other tables
  | updated request now response reply rows counts =>
    obtain ⟨-, hready, hrows, hproceeds, allowances, hupsert, htrigger, -⟩ := h.phase
    have hkeys : ∀ key ∈ rows.map Prod.fst, ∃ check ∈ request.checks,
        check.counterKey = key := by
      rw [(upsertBatch_eq_ok hproceeds.quota hupsert).1]
      simp [members]
    refine ⟨fun key hkey => ?_, fun key hkey hmem => ?_, fun shard hshard => ?_⟩
    · refine KeyedTable.lookup_write_of_notMem fun hwritten => ?_
      obtain ⟨check, hcheck, rfl⟩ := hkeys key hwritten
      exact hapart _ (hrows check hcheck) hkey
    · rw [← Finmap.lookup_eq_none] at hmem ⊢
      rw [← hmem]
      refine KeyedTable.lookup_write_of_notMem fun hwritten => ?_
      obtain ⟨check, hcheck, rfl⟩ := hkeys key hwritten
      exact hapart _ (hready.guards check hcheck).advisory hkey
    · refine (writeLedger_capacityTrigger htrigger (fun _ => rfl) shard).trans ?_
      rw [count_eq_zero_of_not_mem fun hmem => hapart _ (hready.shards shard hmem) hshard,
        Nat.add_zero]
  | deleted maximum sample victims counts =>
    obtain ⟨hvictims, hshards, htrigger⟩ := h.phase
    refine ⟨fun key hkey => ?_, fun key _ hmem => KeyedTable.notMem_delete hmem,
      fun shard hshard => ?_⟩
    · exact KeyedTable.lookup_delete_of_notMem fun hdeleted =>
        hapart _ (hvictims.locked key hdeleted) hkey
    · refine (writeLedger_capacityTrigger htrigger (fun _ => rfl) shard).trans ?_
      rw [count_eq_zero_of_not_mem fun hmem =>
        hapart _ (hshards shard (mem_sortDedup_id.mpr hmem)) hshard, Nat.sub_zero]

/-- A lock for which a transaction waits is above all that it holds. -/
theorem Knows.ordered {tx₂ : Tx} (h : Knows maximumRows tables held tx)
    (h₂ : Knows maximumRows tables other tx₂) (hdisj : Disjoint held other)
    (hadvance : Advance maximumRows tables tx granted tx') (hr : r ∈ granted) (hother : r ∈ other) :
    ∀ r' ∈ held, r' < r := by
  have hapart : r ∉ held := fun hheld => Set.disjoint_left.mp hdisj hheld hother
  have habove : r ∈ tx.awaited → ∀ r' ∈ held, r' < r :=
    fun hmem r' hr' => h.inOrder.above r' hr' r hmem
  cases hadvance with
  | upsert hupsert htrigger hreply =>
    obtain ⟨-, hready, -⟩ := h.phase
    rcases mem_append.mp hr with hr | hr
    · obtain ⟨check, hcheck, rfl⟩ := mem_map.mp hr
      have hguards := hready.guards check hcheck
      rcases h₂.rows _ hother with hmem | hadvisory
      · exact absurd (hguards.row hmem) hapart
      · exact absurd hadvisory (Set.disjoint_left.mp hdisj hguards.advisory)
    · obtain ⟨shard, hshard, rfl⟩ := mem_map.mp hr
      exact absurd (hready.shards shard (mem_targetShards.mp hshard)) hapart
  | delete htrigger =>
    obtain ⟨hvictims, hshards⟩ := h.phase
    rcases mem_append.mp hr with hr | hr
    · obtain ⟨key, hkey, rfl⟩ := mem_map.mp hr
      exact absurd (hvictims.locked key hkey) hapart
    · obtain ⟨shard, hshard, rfl⟩ := mem_map.mp hr
      exact absurd (hshards.forall_mem shard hshard) hapart
  | _ =>
    refine habove ?_
    simp_all [Tx.awaited]

end Steps

end Batter.Runlimit.Postgres
