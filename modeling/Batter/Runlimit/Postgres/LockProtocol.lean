import Batter.Library.Locking
import Batter.Runlimit.Postgres.FixedWindow

/-!
# Runlimit Postgres: the lock protocol of the fixed-window limiter

An admission takes the advisory locks of its keys in the order of their ids, then
the rows that exist in the order of their keys, then the ledger rows of the
shards in which it may insert in ascending order.  Only then does it sample the
clock, decide and write.  A cleanup samples the clock, locks expired rows that
nobody has locked, and then the ledger rows of their shards in ascending order.
Every lock is a step of its own, so that transactions interleave between any two.

Writes are not visible before their commit, which is the step that ends the
transaction; a transaction may be rolled back at any time.
-/

namespace Batter.Runlimit.Postgres

open RustStd SortedList AnchoredWindow Locking

/-- What a transaction can lock. -/
inductive Resource where
  | advisory (id : Int)
  | row (key : CounterKey)
  | ledger (shard : CapacityShard)
deriving DecidableEq

namespace Resource

/-- The position of a lock in the order of the protocol. -/
def rank : Resource → Int ⊕ₗ (CounterKey ⊕ₗ CapacityShard)
  | advisory id => toLex (.inl id)
  | row key => toLex (.inr (toLex (.inl key)))
  | ledger shard => toLex (.inr (toLex (.inr shard)))

noncomputable instance : Preorder Resource := .lift rank

@[simp] theorem advisory_lt_advisory
    {a b : Int} :
    advisory a < advisory b ↔ a < b :=
  Sum.Lex.inl_lt_inl_iff

@[simp] theorem advisory_lt_row
    (id : Int) (key : CounterKey) :
    advisory id < row key :=
  .inl_lt_inr _ _

@[simp] theorem advisory_lt_ledger
    (id : Int) (shard : CapacityShard) :
    advisory id < ledger shard :=
  .inl_lt_inr _ _

@[simp] theorem row_lt_row
    {a b : CounterKey} :
    row a < row b ↔ a < b :=
  Sum.Lex.inr_lt_inr_iff.trans Sum.Lex.inl_lt_inl_iff

@[simp] theorem row_lt_ledger
    (key : CounterKey) (shard : CapacityShard) :
    row key < ledger shard :=
  Sum.Lex.inr_lt_inr_iff.mpr (Sum.Lex.inl_lt_inr _ _)

@[simp] theorem ledger_lt_ledger
    {a b : CapacityShard} :
    ledger a < ledger b ↔ a < b :=
  Sum.Lex.inr_lt_inr_iff.trans Sum.Lex.inr_lt_inr_iff

end Resource

variable [Sha256]

/-- A call that runs an admission transaction. -/
inductive Request where
  | check (target : Check FixedWindowPolicy)
  | checkAll (checks : List (Check FixedWindowPolicy))

/-- The decision that a call returns. -/
inductive Reply where
  | decision (decision : Decision)
  | batchDecision (decision : BatchDecision)

namespace Request

/-- The checks of a request. -/
def checks : Request → List (Check FixedWindowPolicy)
  | .check target => [target]
  | .checkAll checks => checks

/-- The `build` argument of `run_checks`. -/
def build : Request → Admission → Except CheckError Reply
  | .check _, admission => (singleDecision admission).map .decision
  | .checkAll checks, admission => (batchDecision checks.length admission).map .batchDecision

/-- The validation before a connection is acquired. -/
def validate (config : PostgresConfig) : Request → Except BatchError Unit
  | .check _ => .ok ()
  | .checkAll checks => validateBatch checks config.maxBatchSize

end Request

/-- How far an admission has come. -/
inductive AdmissionPhase where
  /-- `acquire_advisory_locks`: the ids that are not locked yet. -/
  | lockingIds (remaining : List Int)
  /-- `acquire_existing_row_locks`: the keys that were not visited yet. -/
  | lockingRows (remaining : List CounterKey)
  /-- `BATCH_CAPACITY_LOCK_SQL`: the missing keys, the shards that are not locked
  yet and the counts of the others. -/
  | lockingShards (missing : List (Nat × CapacityShard)) (remaining : List CapacityShard)
      (rowCount : CapacityShard → Nat)
  /-- Before `preflight_batch`, with the result of `first_capacity_denial`. -/
  | preflight (capacity : Option Nat)
  /-- Before `upsert_batch`, with the sample of the preflight. -/
  | updating (now : Timestamp)
  /-- Before the rollback of a denial. -/
  | denied (now response : Timestamp) (reply : Reply)
  /-- Before the commit of the written rows and ledger counts. -/
  | updated (now response : Timestamp) (reply : Reply) (rows : List (CounterKey × Row))
      (counts : List (CapacityShard × Nat))

/-- How far `CLEANUP_SQL` has come. -/
inductive CleanupPhase where
  /-- `expired`: the rows that were locked so far. -/
  | selecting (sample : Timestamp) (victims : List CounterKey)
  /-- `locked_capacity`: the shards that are not locked yet. -/
  | lockingShards (sample : Timestamp) (victims : List CounterKey)
      (remaining : List CapacityShard)
  /-- Before the commit of the deletions and ledger counts. -/
  | deleted (sample : Timestamp) (victims : List CounterKey)
      (counts : List (CapacityShard × Nat))

/-- A transaction of the limiter. -/
inductive Tx where
  | admission (request : Request) (phase : AdmissionPhase)
  | cleanup (maximum : Nat) (phase : CleanupPhase)

/-- What a transaction reports at its end. -/
inductive Event where
  | decided (request : Request) (now response : Timestamp) (reply : Reply)
  | cleaned (maximum : Nat) (sample : Timestamp) (victims : List CounterKey)

/-- The transactions that `check`, `check_all` and `cleanup_expired` of limiters
with this row limit begin. -/
inductive Start (maximumRows : Nat) : Tx → Prop
  | admission {config : PostgresConfig} {request : Request}
      (hrows : config.maximumRowsPerShard = maximumRows)
      (hvalid : request.validate config = .ok ()) :
      Start maximumRows (.admission request (.lockingIds (advisoryLockIds request.checks)))
  | cleanup {maximum : Nat} (sample : Timestamp) (hpos : 0 < maximum) :
      Start maximumRows (.cleanup maximum (.selecting sample []))

/-- The locks that the writes of an admission need: its rows, and with the
trigger the ledger rows of the shards in which it inserts. -/
def upsertLocks (rows : Rows) (checks : List (Check FixedWindowPolicy)) : List Resource :=
  checks.map (fun check => .row check.counterKey) ++
    (targetShards (missingKeys 0 (members rows checks))).map .ledger

/-- The shards of some keys in the order in which they are locked. -/
def shardsOf (keys : List CounterKey) : List CapacityShard :=
  sortDedup id (keys.map capacityShard)

/-- The locks that the deletions of a cleanup need. -/
def deleteLocks (victims : List CounterKey) : List Resource :=
  victims.map .row ++ (shardsOf victims).map .ledger

/-- One step of a transaction with the locks that it waits for. -/
inductive Advance (maximumRows : Nat) (tables : Tables) : Tx → List Resource → Tx → Prop
  | lockId (request : Request) (id : Int) (rest : List Int) :
      Advance maximumRows tables (.admission request (.lockingIds (id :: rest))) [.advisory id]
        (.admission request (.lockingIds rest))
  | idsLocked (request : Request) :
      Advance maximumRows tables (.admission request (.lockingIds [])) []
        (.admission request (.lockingRows (rowLockKeys request.checks)))
  | lockRow (request : Request) (key : CounterKey) (rest : List CounterKey)
      (hrow : key ∈ tables.rows) :
      Advance maximumRows tables (.admission request (.lockingRows (key :: rest))) [.row key]
        (.admission request (.lockingRows rest))
  | noRow (request : Request) (key : CounterKey) (rest : List CounterKey)
      (hrow : key ∉ tables.rows) :
      Advance maximumRows tables (.admission request (.lockingRows (key :: rest))) []
        (.admission request (.lockingRows rest))
  | rowsLocked (request : Request) {missing : List (Nat × CapacityShard)}
      (hmissing : missing = missingKeys 0 (members tables.rows request.checks)) :
      Advance maximumRows tables (.admission request (.lockingRows [])) []
        (.admission request (.lockingShards missing (targetShards missing) fun _ => 0))
  | lockShard (request : Request) (missing : List (Nat × CapacityShard))
      (shard : CapacityShard) (rest : List CapacityShard) (rowCount : CapacityShard → Nat) :
      Advance maximumRows tables
        (.admission request (.lockingShards missing (shard :: rest) rowCount)) [.ledger shard]
        (.admission request (.lockingShards missing rest
          (Function.update rowCount shard (tables.ledger shard))))
  | shardsLocked (request : Request) (missing : List (Nat × CapacityShard))
      (rowCount : CapacityShard → Nat) :
      Advance maximumRows tables (.admission request (.lockingShards missing [] rowCount)) []
        (.admission request (.preflight
          (firstCapacityDenial maximumRows rowCount (fun _ => 0) missing)))
  | deny {request : Request} {capacity : Option Nat} {now response : Timestamp}
      {quota : Option (Nat × PendingDenial)} {index : Nat} {denial : PendingDenial}
      {reply : Reply}
      (hquota : preflightDenial request.checks now.micros
        (firstQuotaDenial now.micros 0 (members tables.rows request.checks)) = .ok quota)
      (hden : firstDenial capacity quota = some (index, denial))
      (hreply : request.build (deniedAdmission request.checks index denial
        (authoritativeElapsed now response)) = .ok reply) :
      Advance maximumRows tables (.admission request (.preflight capacity)) []
        (.admission request (.denied now response reply))
  | proceed {request : Request} {capacity : Option Nat} {now : Timestamp}
      {quota : Option (Nat × PendingDenial)}
      (hquota : preflightDenial request.checks now.micros
        (firstQuotaDenial now.micros 0 (members tables.rows request.checks)) = .ok quota)
      (hden : firstDenial capacity quota = none) :
      Advance maximumRows tables (.admission request (.preflight capacity)) []
        (.admission request (.updating now))
  | upsert {request : Request} {now response : Timestamp} {rows : List (CounterKey × Row)}
      {allowances : List Allowance} {counts : List (CapacityShard × Nat)} {reply : Reply}
      (hupsert : upsertBatch now.micros (members tables.rows request.checks) =
        .ok (rows, allowances))
      (htrigger : capacityAfterInsert tables.ledger
        ((missingKeys 0 (members tables.rows request.checks)).map Prod.snd) = .ok counts)
      (hreply : request.build (.allowed (allowances.map
        (finishAllowance (authoritativeElapsed now response)))) = .ok reply) :
      Advance maximumRows tables (.admission request (.updating now))
        (upsertLocks tables.rows request.checks)
        (.admission request (.updated now response reply rows counts))
  | victimsLocked (maximum : Nat) (sample : Timestamp) (victims : List CounterKey) :
      Advance maximumRows tables (.cleanup maximum (.selecting sample victims)) []
        (.cleanup maximum (.lockingShards sample victims (shardsOf victims)))
  | lockVictimShard (maximum : Nat) (sample : Timestamp) (victims : List CounterKey)
      (shard : CapacityShard) (rest : List CapacityShard) :
      Advance maximumRows tables (.cleanup maximum (.lockingShards sample victims (shard :: rest)))
        [.ledger shard] (.cleanup maximum (.lockingShards sample victims rest))
  | delete {maximum : Nat} {sample : Timestamp} {victims : List CounterKey}
      {counts : List (CapacityShard × Nat)}
      (htrigger : capacityAfterDelete tables.ledger (victims.map capacityShard) = .ok counts) :
      Advance maximumRows tables (.cleanup maximum (.lockingShards sample victims []))
        (deleteLocks victims) (.cleanup maximum (.deleted sample victims counts))

/-- `FOR UPDATE SKIP LOCKED`: a cleanup locks an expired row that nobody has
locked.  Which rows it finds depends on the locks of others, so any choice of at
most `maximum` rows is possible. -/
inductive Skip (tables : Tables) : Tx → Resource → Tx → Prop
  | victim {maximum : Nat} {sample : Timestamp} {victims : List CounterKey} {key : CounterKey}
      {row : Row} (hrow : tables.rows.lookup key = some row)
      (hexp : row.expiresAt ≤ sample.micros) (hnew : key ∉ victims)
      (hroom : victims.length < maximum) :
      Skip tables (.cleanup maximum (.selecting sample victims)) (.row key)
        (.cleanup maximum (.selecting sample (key :: victims)))

/-- The end of a transaction: the rollback of a denial, or a commit. -/
inductive Finish (tables : Tables) : Tx → Event → Tables → Prop
  | denied (request : Request) (now response : Timestamp) (reply : Reply) :
      Finish tables (.admission request (.denied now response reply))
        (.decided request now response reply) tables
  | updated (request : Request) (now response : Timestamp) (reply : Reply)
      (rows : List (CounterKey × Row)) (counts : List (CapacityShard × Nat)) :
      Finish tables (.admission request (.updated now response reply rows counts))
        (.decided request now response reply)
        ⟨KeyedTable.write tables.rows rows, writeLedger tables.ledger counts⟩
  | deleted (maximum : Nat) (sample : Timestamp) (victims : List CounterKey)
      (counts : List (CapacityShard × Nat)) :
      Finish tables (.cleanup maximum (.deleted sample victims counts))
        (.cleaned maximum sample victims)
        ⟨KeyedTable.delete tables.rows victims, writeLedger tables.ledger counts⟩

/-- The transactions of limiters that share a row limit. -/
def protocol (maximumRows : Nat) : Protocol Resource Tables Tx Event where
  Start := Start maximumRows
  Advance := Advance maximumRows
  Skip := Skip
  Finish := Finish

end Batter.Runlimit.Postgres
