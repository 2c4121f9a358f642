import Batter.Runledger.Postgres.JobChange
import Batter.Runledger.Postgres.RetryTiming
import Batter.Runledger.Postgres.StepTransitions

/-!
# Life of a job

The transactions on jobs: claim, heartbeat, progress, success, failure,
continuation, release of a claim that was not started, recovery of expired
leases, cancellation and requeue, and the sweep of execution-resource claims.
Each one selects a row, checks it, changes it and tells the step of the job.
-/

namespace Batter.Runledger

/-- Why reported progress is rejected. -/
inductive JobProgressValidationError
  | negativeDone (actual : ℤ)
  | negativeTotal (actual : ℤ)
  | doneExceedsTotal (done total : ℤ)
  deriving DecidableEq

def validateJobProgress (progressDone progressTotal : Option ℤ) :
    Except JobProgressValidationError Unit := do
  rejectSome .negativeDone (progressDone.filter (· < 0))
  rejectSome .negativeTotal (progressTotal.filter (· < 0))
  match progressDone, progressTotal with
  | some done, some total => rejectIf (total < done) (.doneExceedsTotal done total)
  | _, _ => return ()

namespace Postgres

section Errors

/-- The lease is not held, or it has expired. -/
def leaseOwnerMismatchError : Error :=
  .query .forbidden "job.lease_owner_mismatch" "Job lease is not currently held by this worker."
    "job lease owner mismatch, missing lease, or expired lease"

/-- The error of `validate_positive_lease_duration`. -/
def invalidLeaseDurationError (leaseDurationSeconds : ℤ) : Error :=
  .query .validation "job.invalid_lease_duration" "Job lease duration must be positive."
    s!"lease_duration_seconds must be greater than zero, got {leaseDurationSeconds}"

/-- The error of `validate_positive_retry_delay`. -/
def invalidRetryDelayError (retryDelayMs : ℤ) : Error :=
  .query .validation "job.invalid_retry_delay" "Job retry delay must be positive."
    s!"retry_delay_ms must be greater than zero, got {retryDelayMs}"

def invalidContinuationDelayError (detail : String) : Error :=
  .query .validation "job.invalid_continuation_delay" "Job continuation delay is too large." detail

def unstartedClaimReleaseNotApplicableError : Error :=
  .query .validation "job.unstarted_claim_release_not_applicable"
    "Job claim cannot be released as unstarted." "job claim is not eligible for unstarted release"

def jobNotFoundError : Error :=
  .query .validation "job.not_found" "Job was not found." "job lookup failed"

def invalidJobStateError : Error :=
  .query .validation "job.invalid_state_transition"
    "Job cannot transition from its current state." "job state transition precondition failed"

def workflowRequeueNotSupportedError : Error :=
  .query .validation "job.workflow_requeue_not_supported"
    "Workflow-managed jobs cannot be requeued directly."
    "workflow managed job requeue is not supported"

/-- The text of a rejected progress value. -/
def JobProgressValidationError.text (atLeastZero : String) : JobProgressValidationError → String
  | .negativeDone actual => s!"progress_done must be {atLeastZero}, got {actual}"
  | .negativeTotal actual => s!"progress_total must be {atLeastZero}, got {actual}"
  | .doneExceedsTotal done total =>
    s!"progress_done must not exceed progress_total, got progress_done={done}, progress_total={total}"

variable (progressDone progressTotal : Option ℤ)

def validateCompletionProgress : Except Error Unit :=
  (validateJobProgress progressDone progressTotal).mapError fun error =>
    .query .validation "job.invalid_completion_progress" "Job completion progress is invalid."
      (JobProgressValidationError.text "greater than or equal to zero" error)

/-- Progress of a running job is checked by the same rule, with an error of its own. -/
def validateOrdinaryProgress : Except Error Unit :=
  (validateJobProgress progressDone progressTotal).mapError fun error =>
    .query .validation "job.invalid_progress" "Job progress is invalid."
      (JobProgressValidationError.text "non-negative" error)

end Errors

section Leases

/-- What a claim gives to its holder. -/
structure JobLeaseIdentity where
  jobId : ℕ
  runNumber : ℤ
  attempt : ℤ
  workerId : String
  deriving DecidableEq

/-- The lease of a job is the one that the identity names. -/
def JobRow.isLeasedTo (identity : JobLeaseIdentity) (job : JobRow) : Bool :=
  job.runNumber = identity.runNumber && job.attempt = identity.attempt &&
    job.workerId = some identity.workerId && job.status = .leased

/-- The lease has not expired. -/
def JobRow.isLive (now : ℕ) (job : JobRow) : Bool :=
  job.leaseExpiresAt.any (now < ·)

variable (db : Database) (identity : JobLeaseIdentity)

/-- The row of a live lease. -/
def lockLiveJobLease : Except Error JobRow :=
  require leaseOwnerMismatchError
    ((db.queue.jobs.get? identity.jobId).filter fun job =>
      job.isLeasedTo identity && job.isLive db.clock)

/-- A duration in seconds on the clock of the database. -/
def seconds (n : ℤ) : ℕ :=
  n.toNat * 1000000

/-- A duration in milliseconds on the clock of the database. -/
def milliseconds (n : ℤ) : ℕ :=
  n.toNat * 1000

def heartbeatJobForLease (leaseDurationSeconds : ℤ) : Except Error Database := do
  rejectIf (leaseDurationSeconds ≤ 0) (invalidLeaseDurationError leaseDurationSeconds)
  let job ← lockLiveJobLease db identity
  let queue ← db.queue.change db.clock "heartbeat job" job
    (.heartbeat identity.workerId (db.clock + seconds leaseDurationSeconds))
  return db.withQueue queue

def persistProgressMutationForLease (progress : ProgressMutation) : Except Error Database := do
  let job ← lockLiveJobLease db identity
  validateOrdinaryProgress (progress.progressDone.or job.progressDone)
    (progress.progressTotal.or job.progressTotal)
  let queue ← db.queue.change db.clock "update job progress" job (.progress progress)
  return db.withQueue queue

variable (progressDone progressTotal : Option ℤ)

def markJobRunningForLease (checkpoint : Option Json) : Except Error Database :=
  persistProgressMutationForLease db identity
    ⟨some .running, progressDone, progressTotal, checkpoint⟩

/-- `update_job_progress_for_lease`, which still lets the caller choose the stage. -/
def updateJobProgressForLease (progress : ProgressMutation) : Except Error Database :=
  persistProgressMutationForLease db identity progress

end Leases

section Completion

variable [UuidSource]

variable (db : Database) (identity : JobLeaseIdentity)

/-- `complete_job_success_with_outcome_for_lease`. -/
def completeJobSuccessForLease (progress : SuccessProgressUpdate) : Except Error Database := do
  validateCompletionProgress progress.progressDone progress.progressTotal
  let job ← lockLiveJobLease db identity
  let progressDone := progress.progressDone.or job.progressDone
  let progressTotal := progress.progressTotal.or job.progressTotal
  validateCompletionProgress progressDone progressTotal
  let queue ← db.queue.change db.clock "complete job success" job
    (.succeed ⟨progressDone, progressTotal, progress.checkpoint, progress.output⟩)
  processWorkflowStepTerminalByJobId (db.withQueue queue) identity.jobId .succeeded
    ⟨some "SUCCEEDED", none, none⟩ progress.output

/-- The largest representable time, `DateTime::<Utc>::MAX_UTC`, in microseconds. -/
def maxUtc : ℕ := 8210266876799999999

/-- A handler asks to run again after a delay in nanoseconds. -/
structure JobContinuationUpdate where
  delay : ℕ
  progressDone : Option ℤ
  progressTotal : Option ℤ
  checkpoint : Option Json
  deriving DecidableEq

/-- `continuation_delay_microseconds`: rounds up, and must fit into 64 bits. -/
def continuationDelayMicroseconds (delay : ℕ) : Except Error ℕ := do
  let rounded := (delay + 999) / 1000
  rejectIf (2 ^ 63 ≤ rounded) (invalidContinuationDelayError
    s!"continuation delay must fit in signed 64-bit microseconds, got {delay}")
  return rounded

def continuationNextRunAt (baseAt delayUs : ℕ) : Except Error ℕ := do
  rejectIf (maxUtc < baseAt + delayUs) (invalidContinuationDelayError
    s!"continuation from {baseAt} with {delayUs} microseconds exceeds {maxUtc}")
  return baseAt + delayUs

omit [UuidSource] in
/-- `complete_job_continuation_with_outcome_for_lease`. -/
def completeJobContinuationForLease
    (continuation : JobContinuationUpdate) : Except Error Database := do
  let delayUs ← continuationDelayMicroseconds continuation.delay
  validateCompletionProgress continuation.progressDone continuation.progressTotal
  let job ← lockLiveJobLease db identity
  let db ← markWorkflowStepEnqueuedForHandlerContinuation db identity.jobId
  let progressDone := continuation.progressDone.or job.progressDone
  let progressTotal := continuation.progressTotal.or job.progressTotal
  validateCompletionProgress progressDone progressTotal
  let nextRunAt ← continuationNextRunAt db.clock delayUs
  let queue ← db.queue.change db.clock "complete job continuation" job
    (.continuation
      { preserveMissingResumeState := true, progressDone, progressTotal
        checkpoint := continuation.checkpoint, nextRunAt := some nextRunAt
        statusReason := some handlerContinuationReason })
  return db.withQueue queue

/-- What a handler reports about a failure. -/
structure JobFailureUpdate where
  failure : FailureDetails
  retryTiming : Option RetryTiming.JobRetryTiming
  policyRetryDelayMs : Option ℤ
  deriving DecidableEq

/-- The texts that a failure leaves on the step. -/
def FailureDetails.stepReason (failure : FailureDetails) : StepReason :=
  ⟨some failure.kind.asDbValue, some failure.code, some failure.message⟩

/-- Ends a job whose attempts are used up or whose failure is final. -/
def applyTerminalFailure (context : String) (job : JobRow)
    (failure : FailureDetails) : Except Error Database := do
  let queue ← db.queue.change db.clock context job (.deadLetter failure)
  processWorkflowStepTerminalByJobId (db.withQueue queue) job.id .failed failure.stepReason none

omit [UuidSource] in
/-- Schedules another attempt. -/
def applyRetry (context : String) (job : JobRow) (failure : FailureDetails)
    (nextRunAt : ℕ) : Except Error Database := do
  let queue ← db.queue.change db.clock context job (.retry failure nextRunAt)
  return markWorkflowStepEnqueuedForRetry (db.withQueue queue) job.id failure.stepReason

/-- `complete_job_failure_with_outcome_for_lease`. -/
def completeJobFailureForLease (update : JobFailureUpdate) : Except Error Database := do
  let job ← lockLiveJobLease db identity
  let completionBaseAt ← require
    (.statement "complete job failure lookup" (.outOfRange "completion_base_at"))
    (RetryTiming.DateTime.ofMicros? db.clock)
  if !update.failure.kind.isRetryable || job.maxAttempts ≤ identity.attempt then
    applyTerminalFailure db "mark dead letter" job update.failure
  else do
    let timing ← RetryTiming.resolveRetryTiming completionBaseAt update.policyRetryDelayMs
      update.retryTiming
    applyRetry db "mark retryable failure" job update.failure timing.effectiveNextRunAt.micros

end Completion

/-- The attempt of a lease was claimed ahead and its execution has not started. -/
def QueueTables.isUnstarted (queue : QueueTables) (job : JobRow) : Bool :=
  (queue.attempts.get? job.attemptKey).any AttemptRow.isUnstarted

/-- Puts a claim back that was not started, and gives its attempt back. -/
def releaseUnstarted (db : Database) (job : JobRow) (reason : String) (retryDelayMs : ℤ) :
    Except Error Database := do
  let queue ← db.queue.change db.clock "release unstarted job claim" job
    (.releaseUnstarted reason (db.clock + milliseconds retryDelayMs))
  return markWorkflowStepEnqueuedForClaimRelease (db.withQueue queue) job.id

def classifyUnstartedReleaseNotApplicable (db : Database) (identity : JobLeaseIdentity) : Error :=
  if ((db.queue.jobs.get? identity.jobId).filter
      (·.runNumber = identity.runNumber)).any fun job =>
        job.status = .leased && job.workerId ≠ some identity.workerId then
    leaseOwnerMismatchError
  else
    unstartedClaimReleaseNotApplicableError

/-- `release_unstarted_job_claim`: the lease need not be live. -/
def releaseUnstartedJobClaim (db : Database) (identity : JobLeaseIdentity) (reason : String)
    (retryDelayMs : ℤ) : Except Error Database := do
  let job ← require (classifyUnstartedReleaseNotApplicable db identity)
    ((db.queue.jobs.get? identity.jobId).filter fun job =>
      job.isLeasedTo identity && db.queue.isUnstarted job)
  releaseUnstarted db job reason retryDelayMs

/-- A request for work. -/
structure ClaimRequest where
  workerId : String
  leaseDurationSeconds : ℤ
  allowedJobTypes : Option (List String)
  claimOrigin : AttemptClaimOrigin
  deriving DecidableEq

/-- A pending job that is due and of a type the request takes. -/
def JobRow.isCandidate (now : ℕ) (request : ClaimRequest) (job : JobRow) : Bool :=
  job.status = .pending && decide (job.nextRunAt ≤ now) &&
    request.allowedJobTypes.all (job.jobType ∈ ·)

/-- The claim on the resource of a job, unless the resource or the job has one. -/
def acquireResource (db : Database) (request : ClaimRequest) (job : JobRow) :
    Except Error (Option QueueTables) :=
  match job.executionResourceKey with
  | none => .ok (some db.queue)
  | some resourceKey =>
    if (db.queue.resourceClaims.get? resourceKey).isSome then
      .ok none
    else do
      rejectIf (isBlank request.workerId) (.statement "claim jobs candidate list"
        (.constraint "chk_job_execution_resource_claims_worker_id"))
      if (db.queue.resourceClaims.select fun claim => claim.jobId = job.id).isEmpty then
        return (db.queue.resourceClaims.insert?
          { resourceKey, jobId := job.id, runNumber := job.runNumber
            attempt := job.attempt + 1, workerId := request.workerId
            leaseExpiresAt := db.clock + seconds request.leaseDurationSeconds
            releaseAfter := none }).map fun resourceClaims => { db.queue with resourceClaims }
      else
        return none

/-- Claims one candidate; one that is not eligible any more is skipped. -/
def claimJob (request : ClaimRequest) (db : Database) (jobId : ℕ) : Except Error Database :=
  match (db.queue.jobs.get? jobId).filter (·.isCandidate db.clock request) with
  | none => .ok db
  | some job => do
    match ← acquireResource db request job with
    | none => return db
    | some queue =>
      let queue ← queue.change db.clock "claim jobs update" job
        (.lease request.workerId request.claimOrigin
          (db.clock + seconds request.leaseDurationSeconds))
      return markWorkflowStepRunningForClaim (db.withQueue queue) job.id

/-- `claim_jobs_inner`.  Which of the candidates are taken, and in which order, depends on
the limit and on the rows that others have locked, so it is left to the caller. -/
def claimJobs (db : Database) (request : ClaimRequest) (candidates : List ℕ) :
    Except Error Database := do
  rejectIf (request.leaseDurationSeconds ≤ 0)
    (invalidLeaseDurationError request.leaseDurationSeconds)
  candidates.foldlM (claimJob request) db

section Reaper

variable [UuidSource]

/-- The failure of an attempt whose lease expired. -/
def leaseExpiredFailure : FailureDetails :=
  ⟨.leaseExpired, "job.lease_expired", "Job lease expired before completion."⟩

variable (db : Database)

def reapExpiredLeaseRow (job : JobRow) (defaultRetryDelayMs : ℤ) : Except Error Database :=
  if db.queue.isUnstarted job then
    releaseUnstarted db job "LEASE_EXPIRED_BEFORE_RUNNING_PERSISTED" 0
  else if job.maxAttempts ≤ job.attempt then
    applyTerminalFailure db "reap mark dead lettered" job leaseExpiredFailure
  else
    applyRetry db "reap mark retryable" job leaseExpiredFailure
      (db.clock + milliseconds defaultRetryDelayMs)

/-- The lease of a job has expired. -/
def JobRow.isExpired (now : ℕ) (job : JobRow) : Bool :=
  job.status = .leased && job.leaseExpiresAt.any (· < now)

omit [UuidSource] in
/-- Moves the lease of a row that could not be recovered. -/
def deferFailedRow (job : JobRow) (defaultRetryDelayMs : ℤ) : Except Error Database := do
  let queue ← db.queue.change db.clock "reap defer failed row" job
    (.deferLease (db.clock + milliseconds defaultRetryDelayMs))
  return db.withQueue queue

/-- `reap_expired_lease_row_with_savepoint_tx`: a row that fails is rolled back and deferred;
`fails` stands for an error of the database that the model does not compute. -/
def reapExpiredLeaseRowWithSavepoint (defaultRetryDelayMs : ℤ) (db : Database)
    (row : ℕ × Bool) : Except Error Database :=
  match (db.queue.jobs.get? row.1).filter (·.isExpired db.clock) with
  | none => .ok db
  | some job =>
    if row.2 then
      deferFailedRow db job defaultRetryDelayMs
    else
      match reapExpiredLeaseRow db job defaultRetryDelayMs with
      | .ok db => .ok db
      | .error _ => deferFailedRow db job defaultRetryDelayMs

/-- `reap_expired_lease_batch`, for the rows that the batch could lock. -/
def reapExpiredLeases (defaultRetryDelayMs : ℤ) (rows : List (ℕ × Bool)) :
    Except Error Database := do
  rejectIf (defaultRetryDelayMs ≤ 0) (invalidRetryDelayError defaultRetryDelayMs)
  rows.foldlM (reapExpiredLeaseRowWithSavepoint defaultRetryDelayMs) db

omit [UuidSource] in
/-- `release_expired_execution_resource_claims_tx`, for the claims within its limit. -/
def releaseExpiredExecutionResourceClaims (selected : List String) : Database :=
  let expired := fun claim : ResourceClaimRow => decide (claim.resourceKey ∈ selected) &&
    match claim.releaseAfter with
    | some releaseAfter => decide (releaseAfter ≤ db.clock)
    | none => decide (claim.leaseExpiresAt ≤ db.clock) &&
        !((db.queue.jobs.get? claim.jobId).any fun job =>
          claim.belongsTo job && decide (job.status = .leased))
  db.withQueue { db.queue with resourceClaims := db.queue.resourceClaims.delete expired }

end Reaper

/-- Which jobs a caller may cancel. -/
inductive JobCancellationScope
  | global
  | organization (organizationId : ℕ)
  | admin
  deriving DecidableEq

/-- `cancellation_scope_predicate`. -/
def JobCancellationScope.covers (job : JobRow) : JobCancellationScope → Bool
  | .global => job.organizationId = none
  | .organization organizationId => job.organizationId = some organizationId
  | .admin => true

/-- `cancel_job_with_scope_tx`; nothing is returned if no such job is pending or leased. -/
def cancelJobWithScopeTx [UuidSource] (db : Database) (scope : JobCancellationScope) (jobId : ℕ)
    (reason : Option String) : Except Error (Option Database) :=
  match (db.queue.jobs.get? jobId).filter fun job =>
      scope.covers job && (job.status = .pending || job.status = .leased) with
  | none => .ok none
  | some job => do
    let queue ← db.queue.change db.clock "cancel job" job (.cancel reason)
    let db ← processWorkflowStepTerminalByJobId (db.withQueue queue) jobId .canceled
      ⟨some (reason.getD "CANCELED"), none, none⟩ none
    return some db

def cancelJobWithScope [UuidSource] (db : Database) (scope : JobCancellationScope) (jobId : ℕ)
    (reason : Option String) : Except Error Database := do
  match ← cancelJobWithScopeTx db scope jobId reason with
  | some db => return db
  | none =>
    throw (if (db.queue.jobs.get? jobId).any (scope.covers ·) then invalidJobStateError
      else jobNotFoundError)

/-- A request to put a job that ended back into the queue. -/
structure CompareAndRequeueJob where
  organizationId : Option ℕ
  jobId : ℕ
  expectedStatus : JobStatus
  requeueable : expectedStatus = .canceled ∨ expectedStatus = .deadLettered
  expectedRunNumber : ℤ
  preservesProgressAndCheckpoint : Bool
  reason : String
  deriving DecidableEq

/-- The outcome of a request to requeue. -/
inductive CompareAndRequeueJobOutcome
  | requeued
  | expectationMismatch
  | cancellationNotQuiesced
  | notFound
  deriving DecidableEq

def compareAndRequeueJob (db : Database) (request : CompareAndRequeueJob) :
    Except Error (CompareAndRequeueJobOutcome × Database) :=
  match (db.queue.jobs.get? request.jobId).filter
      (·.organizationId = request.organizationId) with
  | none => .ok (.notFound, db)
  | some job =>
    if job.status ≠ request.expectedStatus ∨ job.runNumber ≠ request.expectedRunNumber then
      .ok (.expectationMismatch, db)
    else if (db.workflow.stepOfJob job.id).isSome then
      .error workflowRequeueNotSupportedError
    else if job.isLiveCanceledLease db.clock then
      .ok (.cancellationNotQuiesced, db)
    else do
      let queue ← db.queue.change db.clock "compare and requeue job" job
        (.requeue request.reason
          { preserveMissingResumeState := request.preservesProgressAndCheckpoint
            progressDone := none, progressTotal := none, checkpoint := none
            nextRunAt := none, statusReason := some request.reason })
      return (.requeued, db.withQueue queue)

end Postgres
end Batter.Runledger
