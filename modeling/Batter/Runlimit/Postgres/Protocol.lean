import Batter.Runlimit.Core.Check

/-!
# Runlimit Postgres: the shared protocol

What the two PostgreSQL limiters have in common: the 256 stable capacity shards
and their hard row ceiling, the admission limits of a configuration, and the
shaping of a transaction's outcome into a decision before it is committed or
rolled back.

Times, phases and messages of the driver are not modelled: a transaction that
does not reach its commit is rolled back, whatever the reason.
-/

namespace Batter.Runlimit.Postgres

open RustStd

def capacityShardCount : Nat := 256

def hardMaxRowsPerShard : Nat := 65536

/-- The index of a capacity shard. -/
abbrev CapacityShard := Fin capacityShardCount

/-- `capacity_shard`: the exclusive or of the leading bytes of both components. -/
def capacityShard (key : CounterKey) : CapacityShard :=
  ⟨((Bytes32.byte key.fingerprint 0) ^^^ (Bytes32.byte key.subject 0)).toNat, UInt8.toNat_lt _⟩

/-- Admission limits of a limiter; its deadlines are not modelled. -/
structure PostgresConfig where
  maximumRowsPerShard : Nat
  maxBatchSize : Nat
  rows_pos : 0 < maximumRowsPerShard
  rows_le : maximumRowsPerShard ≤ hardMaxRowsPerShard
  batchSize_pos : 0 < maxBatchSize

namespace PostgresConfig

def new : PostgresConfig :=
  ⟨4096, 32, by decide, by decide, by decide⟩

end PostgresConfig

/-- Failure of a quota check.  A failed statement is a `definitelyNotConsumed`;
lost commit confirmations concern what the client learns, not the tables. -/
inductive CheckError where
  | definitelyNotConsumed
  | storageInvariant (detail : String)
deriving DecidableEq

/-- Failure of an atomic batch. -/
inductive BatchCheckError where
  | invalidBatch (error : BatchError)
  | check (error : CheckError)
deriving DecidableEq

/-- The finalized outcome of one transaction. -/
inductive Admission where
  | allowed (allowances : List Allowance)
  | denied (index : Nat) (denial : Denial)
  | shadowDenied (index : Nat) (denial : QuotaDenial)

def singleDecision : Admission → Except CheckError Decision
  | .allowed [allowance] => .ok (.allowed allowance)
  | .allowed _ =>
    .error (.storageInvariant "single check returned a different number of allowances")
  | .denied 0 denial => .ok (.denied denial)
  | .shadowDenied 0 denial => .ok (.shadowDenied denial)
  | .denied _ _ | .shadowDenied _ _ =>
    .error (.storageInvariant "single check denied an input other than its only check")

/-- The error of `batch_decision` for an outcome that does not fit its batch. -/
def mismatchedBatch {α : Type} : Except DecisionError α → Except CheckError α
  | .ok a => .ok a
  | .error _ => .error (.storageInvariant "batch decision did not match the submitted batch")

def batchDecision (batchSize : Nat) : Admission → Except CheckError BatchDecision
  | .allowed allowances =>
    if allowances.length ≠ batchSize then
      .error (.storageInvariant
        "allowed batch returned a different number of allowances than submitted checks")
    else
      mismatchedBatch (BatchDecision.newAllowed allowances)
  | .denied index denial => mismatchedBatch (BatchDecision.newDenied index batchSize denial)
  | .shadowDenied index denial =>
    mismatchedBatch (BatchDecision.newShadowDenied index batchSize denial)

end Batter.Runlimit.Postgres
