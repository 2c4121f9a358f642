import Batter.Runledger.Postgres.Schema

/-!
# Changes of one job

`JobChange` lists the statements that update a row of `job_queue`.  Each comes
with a statement on the attempts of the job and with a row in the log of job
events, and the triggers of `job_queue` keep the execution-resource claims in
step.  `QueueTables.change` makes one such change.
-/

namespace Batter.Runledger

/-- The stored name of a failure kind. -/
def JobFailureKind.asDbValue : JobFailureKind → String
  | .retryable => "RETRYABLE"
  | .terminal => "TERMINAL"
  | .timeout => "TIMEOUT"
  | .leaseExpired => "LEASE_EXPIRED"
  | .panicked => "PANICKED"

namespace Postgres

/-- Why an attempt failed. -/
structure FailureDetails where
  kind : JobFailureKind
  code : String
  message : String
  deriving DecidableEq

/-- A partial update of the progress of a job. -/
structure ProgressMutation where
  stage : Option JobStage
  progressDone : Option ℤ
  progressTotal : Option ℤ
  checkpoint : Option Json
  deriving DecidableEq

/-- The final progress and the output of a job that succeeded. -/
structure SuccessProgressUpdate where
  progressDone : Option ℤ
  progressTotal : Option ℤ
  checkpoint : Option Json
  output : Option Json
  deriving DecidableEq

/-- How a job enters its next run. -/
structure AdvanceJobToNextRun where
  preserveMissingResumeState : Bool
  progressDone : Option ℤ
  progressTotal : Option ℤ
  checkpoint : Option Json
  nextRunAt : Option ℕ
  statusReason : Option String
  deriving DecidableEq

/-- The changes that a row of `job_queue` goes through. -/
inductive JobChange
  | lease (workerId : String) (claimOrigin : AttemptClaimOrigin) (leaseExpiresAt : ℕ)
  | heartbeat (workerId : String) (leaseExpiresAt : ℕ)
  | deferLease (leaseExpiresAt : ℕ)
  | progress (mutation : ProgressMutation)
  | succeed (update : SuccessProgressUpdate)
  | retry (failure : FailureDetails) (nextRunAt : ℕ)
  | deadLetter (failure : FailureDetails)
  | continuation (update : AdvanceJobToNextRun)
  | requeue (reason : String) (update : AdvanceJobToNextRun)
  | releaseUnstarted (reason : String) (nextRunAt : ℕ)
  | cancel (reason : Option String)
  deriving DecidableEq

/-- `ADVANCE_JOB_TO_NEXT_RUN_SQL`. -/
def JobRow.advance (now : ℕ) (update : AdvanceJobToNextRun) (job : JobRow) : JobRow :=
  { job with
    status := .pending
    stage := .queued
    progressDone :=
      if update.preserveMissingResumeState then update.progressDone.or job.progressDone
      else update.progressDone
    progressTotal :=
      if update.preserveMissingResumeState then update.progressTotal.or job.progressTotal
      else update.progressTotal
    checkpoint :=
      if update.preserveMissingResumeState then update.checkpoint.or job.checkpoint
      else update.checkpoint
    output := none
    runNumber := job.runNumber + 1
    attempt := 0
    leaseExpiresAt := none
    workerId := none
    nextRunAt := update.nextRunAt.getD now
    statusReason := some (update.statusReason.getD "REQUEUED")
    lastErrorCode := none
    lastErrorMessage := none }

/-- The row of a job after a change. -/
def JobChange.apply (change : JobChange) (now : ℕ) (job : JobRow) : JobRow :=
  match change with
  | .lease workerId _ leaseExpiresAt =>
    { job with
      status := .leased
      attempt := job.attempt + 1
      workerId := some workerId
      leaseExpiresAt := some leaseExpiresAt }
  | .heartbeat _ leaseExpiresAt | .deferLease leaseExpiresAt =>
    { job with leaseExpiresAt := some leaseExpiresAt }
  | .progress mutation =>
    { job with
      stage := mutation.stage.getD job.stage
      progressDone := mutation.progressDone.or job.progressDone
      progressTotal := mutation.progressTotal.or job.progressTotal
      checkpoint := mutation.checkpoint.or job.checkpoint }
  | .succeed update =>
    { job with
      status := .succeeded
      leaseExpiresAt := none
      workerId := none
      stage := .completed
      progressDone := update.progressDone.or job.progressDone
      progressTotal := update.progressTotal.or job.progressTotal
      checkpoint := update.checkpoint.or job.checkpoint
      output := update.output
      statusReason := none
      lastErrorCode := none
      lastErrorMessage := none }
  | .retry failure nextRunAt =>
    { job with
      status := .pending
      leaseExpiresAt := none
      workerId := none
      nextRunAt
      output := none
      statusReason := some failure.kind.asDbValue
      lastErrorCode := some failure.code
      lastErrorMessage := some failure.message }
  | .deadLetter failure =>
    { job with
      status := .deadLettered
      leaseExpiresAt := none
      workerId := none
      output := none
      statusReason := some failure.kind.asDbValue
      lastErrorCode := some failure.code
      lastErrorMessage := some failure.message }
  | .continuation update | .requeue _ update => job.advance now update
  | .releaseUnstarted _ nextRunAt =>
    { job with
      status := .pending
      attempt := job.attempt - 1
      leaseExpiresAt := none
      workerId := none
      nextRunAt
      statusReason := none
      lastErrorCode := none
      lastErrorMessage := none
      output := none }
  | .cancel reason =>
    -- The lease is kept: it says how long the canceled handler may still run.
    { job with
      status := .canceled
      workerId := none
      output := none
      statusReason := some (reason.getD "CANCELED") }

/-- The columns of a job that no change touches. -/
def JobRow.fixed (job : JobRow) :
    ℕ × String × Option ℕ × Json × ℤ × ℤ × ℤ × Option String × Option Json × Option String :=
  (job.id, job.jobType, job.organizationId, job.payload, job.priority, job.maxAttempts,
    job.timeoutSeconds, job.idempotencyKey, job.enqueueRequest, job.executionResourceKey)

section

variable (change : JobChange) (now : ℕ) (job : JobRow)

theorem JobChange.apply_fixed : (change.apply now job).fixed = job.fixed := by
  cases change <;> rfl

theorem JobChange.apply_id : (change.apply now job).id = job.id := by
  cases change <;> rfl

theorem JobChange.apply_executionResourceKey :
    (change.apply now job).executionResourceKey = job.executionResourceKey := by
  cases change <;> rfl

end

section Attempts

/-- The key of the current attempt of a job. -/
def JobRow.attemptKey (job : JobRow) : ℕ × ℤ × ℤ :=
  (job.id, job.runNumber, job.attempt)

variable (now : ℕ)

/-- Closes an attempt. -/
def AttemptRow.finish (outcome : Option JobFailureKind) (row : AttemptRow) : AttemptRow :=
  { row with finishedAt := some now, outcome }

theorem AttemptRow.finish_key (outcome : Option JobFailureKind) (row : AttemptRow) :
    (row.finish now outcome).key = row.key :=
  rfl

section

variable (row : AttemptRow)

/-- Closes an attempt that is still open. -/
def AttemptRow.closeCanceled : AttemptRow :=
  { row with finishedAt := some (row.finishedAt.getD now) }

theorem AttemptRow.closeCanceled_key : (row.closeCanceled now).key = row.key :=
  rfl

/-- Records that the execution of an attempt has started. -/
def AttemptRow.markStarted : AttemptRow :=
  { row with executionStartedPersistedAt := some (row.executionStartedPersistedAt.getD now) }

theorem AttemptRow.markStarted_key : (row.markStarted now).key = row.key :=
  rfl

/-- An attempt that a worker claimed ahead and whose execution has not started. -/
def AttemptRow.isUnstarted : Bool :=
  row.claimOrigin = .workerPrestart && row.executionStartedPersistedAt.isNone

end

/-- The attempts after a change of their job. -/
def JobChange.attempts (change : JobChange) (now : ℕ) (job : JobRow)
    (attempts : Table AttemptRow.key) : Except Error (Table AttemptRow.key) :=
  match change with
  | .lease workerId claimOrigin _ =>
    require (.statement "claim jobs attempt insert"
        (.constraint "uq_job_attempts_job_run_attempt"))
      (attempts.insert?
        { jobId := job.id, runNumber := job.runNumber, attempt := job.attempt + 1
          workerId, claimOrigin, executionStartedPersistedAt := none
          finishedAt := none, outcome := none })
  | .progress mutation =>
    .ok (if mutation.stage = some .running then
      attempts.modify job.attemptKey (.markStarted now) (AttemptRow.markStarted_key now)
    else attempts)
  | .succeed _ | .continuation _ =>
    .ok (attempts.modify job.attemptKey (.finish now none) (AttemptRow.finish_key now none))
  | .retry failure _ | .deadLetter failure =>
    .ok (attempts.modify job.attemptKey (.finish now (some failure.kind))
      (AttemptRow.finish_key now (some failure.kind)))
  | .releaseUnstarted _ _ =>
    .ok (attempts.delete fun row => decide (row.key = job.attemptKey) && row.isUnstarted)
  | .cancel _ =>
    .ok (attempts.modify job.attemptKey (.closeCanceled now) (AttemptRow.closeCanceled_key now))
  | .heartbeat _ _ | .deferLease _ | .requeue _ _ => .ok attempts

end Attempts

/-- The attempt that an event names, if one was made. -/
def JobRow.eventAttempt (job : JobRow) : Option ℤ :=
  if 0 < job.attempt then some job.attempt else none

/-- The events that go with a change. -/
def JobChange.events (change : JobChange) (job : JobRow) : List JobEventRow :=
  let event := fun (attempt : Option ℤ) (event : JobEvent) =>
    (⟨job.id, job.runNumber, attempt, event⟩ : JobEventRow)
  match change with
  | .lease workerId _ _ => [event (some (job.attempt + 1)) (.leased workerId)]
  | .heartbeat workerId _ => [event (some job.attempt) (.heartbeat workerId)]
  | .deferLease _ => []
  | .progress mutation =>
    (mutation.stage.map fun stage => event (some job.attempt) (.stageChanged stage)).toList ++
      if mutation.progressDone.isSome || mutation.progressTotal.isSome then
        [event (some job.attempt) (.progress mutation.progressDone mutation.progressTotal)]
      else []
  | .succeed _ => [event (some job.attempt) .succeeded]
  | .retry failure _ =>
    [event (some job.attempt) (.failed failure.kind), event (some job.attempt) .retryScheduled]
  | .deadLetter failure =>
    [event (some job.attempt) (.failed failure.kind),
      event (some job.attempt) (.deadLettered failure.kind)]
  | .continuation _ => [event (some job.attempt) (.requeued .handlerContinuation)]
  | .requeue reason _ => [event job.eventAttempt (.requeued (.compareAndRequeue reason))]
  | .releaseUnstarted reason _ => [event (some job.attempt) (.requeued (.basic reason))]
  | .cancel _ => [event job.eventAttempt .canceled]

section Triggers

/-- The claim that goes with a lease of a job. -/
def ResourceClaimRow.belongsTo (claim : ResourceClaimRow) (job : JobRow) : Bool :=
  claim.jobId = job.id && claim.runNumber = job.runNumber && claim.attempt = job.attempt &&
    some claim.workerId = job.workerId

def enforceJobExecutionResourceClaimOnLease (context : String)
    (claims : Table ResourceClaimRow.resourceKey) (old new : JobRow) : Except Error Unit :=
  if old.status ≠ new.status ∧ new.status = .leased then
    match new.executionResourceKey with
    | none => .ok ()
    | some key =>
      rejectIf (!(claims.get? key).any (·.belongsTo new))
        (.statement context
          (.constraint "chk_job_queue_execution_resource_claim_required"))
  else .ok ()

variable (expiry : Option ℕ) (claim : ResourceClaimRow)

/-- The claim of a canceled lease is released when the lease would have ended. -/
def ResourceClaimRow.releaseAt : ResourceClaimRow :=
  { claim with releaseAfter := expiry }

theorem ResourceClaimRow.releaseAt_key : (claim.releaseAt expiry).resourceKey = claim.resourceKey :=
  rfl

/-- The claim follows the lease of its job. -/
def ResourceClaimRow.extendTo : ResourceClaimRow :=
  { claim with leaseExpiresAt := expiry.getD claim.leaseExpiresAt }

theorem ResourceClaimRow.extendTo_key : (claim.extendTo expiry).resourceKey = claim.resourceKey :=
  rfl

def releaseJobExecutionResourceClaim (now : ℕ) (old new : JobRow)
    (claims : Table ResourceClaimRow.resourceKey) : Table ResourceClaimRow.resourceKey :=
  if old.status = .leased ∧ old.executionResourceKey.isSome then
    if new.status ≠ .leased ∨ new.runNumber ≠ old.runNumber ∨ new.attempt ≠ old.attempt ∨
        new.workerId ≠ old.workerId then
      if new.status = .canceled ∧ old.leaseExpiresAt.any (now < ·) then
        claims.update (·.belongsTo old) (.releaseAt old.leaseExpiresAt)
          (ResourceClaimRow.releaseAt_key old.leaseExpiresAt)
      else
        claims.delete (·.belongsTo old)
    else if new.leaseExpiresAt ≠ old.leaseExpiresAt then
      claims.update (·.belongsTo new) (.extendTo new.leaseExpiresAt)
        (ResourceClaimRow.extendTo_key new.leaseExpiresAt)
    else
      claims
  else
    claims

/-- The checks of `job_queue` that an update can violate. -/
def JobRow.checkConstraints (context : String) (job : JobRow) : Except Error Unit := do
  rejectIf (i32Max < job.runNumber) (.statement context (.outOfRange "run_number"))
  rejectIf (i32Max < job.attempt) (.statement context (.outOfRange "attempt"))
  rejectIf (job.attempt < 0)
    (.statement context (.constraint "chk_job_queue_attempt_nonnegative"))
  rejectIf (job.workerId.any fun workerId => workerId.toList.all (· = ' '))
    (.statement context (.constraint "chk_job_queue_worker_id_not_blank"))

end Triggers

/-- One change of a job, with its triggers, its attempts and its events. -/
def QueueTables.change (queue : QueueTables) (now : ℕ) (context : String) (job : JobRow)
    (change : JobChange) : Except Error QueueTables := do
  let job' := change.apply now job
  job'.checkConstraints context
  enforceJobExecutionResourceClaimOnLease context queue.resourceClaims job job'
  let attempts ← change.attempts now job queue.attempts
  return {
    jobs := queue.jobs.modify job.id (change.apply now) (change.apply_id now)
    attempts
    resourceClaims := releaseJobExecutionResourceClaim now job job' queue.resourceClaims
    events := queue.events ++ change.events job }

end Postgres
end Batter.Runledger
