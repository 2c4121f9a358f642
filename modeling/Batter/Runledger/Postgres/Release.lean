import Batter.Runledger.Postgres.Schema

/-!
# Release of workflow steps

A blocked step without open dependencies is released: a job step gets a row in
the queue, an external step starts to wait.  A run that is not running or waiting
releases nothing.
-/

namespace Batter.Runledger.Postgres

/-- The queue settings of a step that is released as a job. -/
structure JobReleaseSpec where
  jobType : String
  priority : ℤ
  maxAttempts : ℤ
  timeoutSeconds : ℤ
  stage : JobStage
  executionResourceKey : Option String

/-- The settings of a stored step, all of which must be there. -/
def JobReleaseSpec.fromNullableFields (candidate : StepRow) : Except Error JobReleaseSpec := do
  let jobType ← require
    (workflowInternalStateError "job workflow step release is missing job_type") candidate.jobType
  let priority ← require
    (workflowInternalStateError "job workflow step release is missing priority") candidate.priority
  let maxAttempts ← require
    (workflowInternalStateError "job workflow step release is missing max_attempts")
    candidate.maxAttempts
  let timeoutSeconds ← require
    (workflowInternalStateError "job workflow step release is missing timeout_seconds")
    candidate.timeoutSeconds
  let stage ← require
    (workflowInternalStateError "job workflow step release is missing stage") candidate.stage
  return { jobType, priority, maxAttempts, timeoutSeconds, stage,
           executionResourceKey := candidate.executionResourceKey }

/-- A new row of the queue: pending, first run, no attempt made. -/
def JobReleaseSpec.row (spec : JobReleaseSpec) (id : ℕ) (organizationId : Option ℕ)
    (payload : Json) (now : ℕ) : JobRow where
  id := id
  jobType := spec.jobType
  organizationId := organizationId
  payload := payload
  status := .pending
  priority := spec.priority
  runNumber := 1
  attempt := 0
  maxAttempts := spec.maxAttempts
  timeoutSeconds := spec.timeoutSeconds
  nextRunAt := now
  leaseExpiresAt := none
  workerId := none
  stage := spec.stage
  progressDone := none
  progressTotal := none
  checkpoint := none
  output := none
  idempotencyKey := none
  enqueueRequest := none
  executionResourceKey := spec.executionResourceKey
  statusReason := none
  lastErrorCode := none
  lastErrorMessage := none

/-- The rows that may be released. -/
def StepRow.isReleasable (row : StepRow) : Bool :=
  row.status = .blocked && row.jobId.isNone && row.dependencyCountPending = 0 &&
    row.dependencyCountUnsatisfied = 0

def StepRow.release (now : ℕ) (status : WorkflowStepStatus) (jobId : Option ℕ) (row : StepRow) :
    StepRow :=
  { row with
    status, jobId
    releasedAt := some (row.releasedAt.getD now)
    statusReason := none, lastErrorCode := none, lastErrorMessage := none }

theorem StepRow.release_id
    (now : ℕ) (status : WorkflowStepStatus) (jobId : Option ℕ) (row : StepRow) :
    (row.release now status jobId).id = row.id :=
  rfl

/-- Marks one step as released; exactly one row must meet the preconditions. -/
def markReleased (db : Database) (stepId : ℕ) (status : WorkflowStepStatus) (jobId : Option ℕ) :
    Except Error Database := do
  let condition := fun row : StepRow => row.id = stepId && row.isReleasable
  rejectIf ((db.workflow.steps.select condition).length ≠ 1)
    (workflowInternalStateError "workflow step release preconditions were not met")
  return db.withSteps
    (db.workflow.steps.update condition (.release db.clock status jobId)
      (StepRow.release_id db.clock status jobId))

/-- The steps after the release of one of them. -/
def ReleasedStep (db db' : Database) (row : StepRow) : Prop :=
  ∃ status jobId, (status = .enqueued ∨ status = .waitingForExternal) ∧
    db'.workflow.steps = db.workflow.steps.modify row.id (.release db.clock status jobId)
      (StepRow.release_id db.clock status jobId)

variable [UuidSource]

variable (db : Database) (candidate : StepRow)

/-- Releases a step as a job of the queue. -/
def releaseJobStep (job : JobReleaseSpec) : Except Error Database := do
  let jobId := db.nextId
  let db ← db.insertJob "enqueue released workflow step job"
    (job.row jobId candidate.organizationId candidate.payload db.clock)
  markReleased db candidate.id .enqueued (some jobId)

/-- Releases a step that is completed from outside. -/
def releaseExternalStep : Except Error Database :=
  markReleased db candidate.id .waitingForExternal none

/-- Whether the run may release steps. -/
def workflowRunAllowsStepRelease (workflowRunId : ℕ) : Except Error Bool := do
  let run ← require (.statement "check workflow run allows step release" .rowNotFound)
    (db.workflow.runs.get? workflowRunId)
  return run.status = .running || run.status = .waitingForExternal

/-- Releases a step that became ready. -/
def releaseCandidateStep : Except Error Database := do
  if ← workflowRunAllowsStepRelease db candidate.workflowRunId then
    match candidate.executionKind with
    | .job => releaseJobStep db candidate (← JobReleaseSpec.fromNullableFields candidate)
    | .external => releaseExternalStep db candidate
  else
    return db

/-- Releases the steps of a new run that wait for nothing. -/
def enqueueRootSteps (workflowRunId : ℕ) : Except Error Database :=
  (db.workflow.steps.select fun row => row.workflowRunId = workflowRunId &&
    row.status = .blocked && row.dependencyCountPending = 0).foldlM releaseCandidateStep db

end Batter.Runledger.Postgres
