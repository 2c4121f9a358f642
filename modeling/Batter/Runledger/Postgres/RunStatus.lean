import Batter.Runledger.Postgres.Schema

/-!
# Status of a workflow run

The status of a run is recomputed from its steps after each of them ends.  A run
that ends gives up its claim on its active key; while a canceled job of the run
still has a lease that has not expired, the claim is only marked for release.
-/

namespace Batter.Runledger.Postgres

/-- The steps of a run. -/
def WorkflowTables.stepsOf (tables : WorkflowTables) (workflowRunId : ℕ) : List StepRow :=
  tables.steps.select fun row => row.workflowRunId = workflowRunId

/-- A canceled job whose lease has not expired yet. -/
def JobRow.isLiveCanceledLease (now : ℕ) (job : JobRow) : Bool :=
  job.status = .canceled && job.leaseExpiresAt.any fun expiry => now < expiry

/-- Whether a job of the run was canceled under a lease that has not expired yet. -/
def hasLiveCanceledLease (db : Database) (workflowRunId : ℕ) : Bool :=
  (db.workflow.stepsOf workflowRunId).any fun step =>
    (step.jobId.bind db.queue.jobs.get?).any (JobRow.isLiveCanceledLease db.clock)

/-- A claim that is released as soon as nothing of its run is active any more. -/
def ActiveClaimRow.markReleasePending (claim : ActiveClaimRow) : ActiveClaimRow :=
  { claim with releasePending := true }

theorem ActiveClaimRow.markReleasePending_key (claim : ActiveClaimRow) :
    claim.markReleasePending.key = claim.key :=
  rfl

/-- Gives up the active claim of a run, or marks it for release while a lease is live. -/
def releaseOrDeferWorkflowActiveClaim (db : Database) (workflowRunId : ℕ) : Database :=
  let owned := fun claim : ActiveClaimRow => decide (claim.workflowRunId = workflowRunId)
  if hasLiveCanceledLease db workflowRunId then
    { db with workflow := { db.workflow with
        activeClaims := db.workflow.activeClaims.update owned .markReleasePending
          ActiveClaimRow.markReleasePending_key } }
  else
    { db with workflow := { db.workflow with
        activeClaims := db.workflow.activeClaims.delete owned } }

/-- The row of a run with another status and result. -/
def RunRow.withStatus (status : WorkflowRunStatus) (result : Option Json) (run : RunRow) : RunRow :=
  { run with status, result }

theorem RunRow.withStatus_id (status : WorkflowRunStatus) (result : Option Json) (run : RunRow) :
    (run.withStatus status result).id = run.id :=
  rfl

/-- `UPDATE workflow_runs SET status, result`, with the trigger on terminal statuses. -/
def setRunStatus (tables : WorkflowTables) (run : RunRow) (status : WorkflowRunStatus)
    (result : Option Json) : WorkflowTables :=
  { tables with
    runs := tables.runs.modify run.id (.withStatus status result)
      (RunRow.withStatus_id status result)
    activeClaims :=
      if run.status ≠ status ∧ status.isTerminal then
        tables.activeClaims.update (fun claim => claim.workflowRunId = run.id)
          .markReleasePending ActiveClaimRow.markReleasePending_key
      else
        tables.activeClaims }

/-- The status that the steps of a run give it. -/
def nextRunStatus (steps : List StepRow) : WorkflowRunStatus :=
  if steps.any fun row => row.status = .blocked || row.status = .enqueued ||
      row.status = .running then
    .running
  else if steps.any fun row => row.status = .waitingForExternal then
    .waitingForExternal
  else if steps.any fun row => row.status = .failed || row.status = .canceled then
    .completedWithErrors
  else
    .succeeded

/-- The output of the step that the run names as its result. -/
def resultOutput (run : RunRow) (steps : List StepRow) : Option Json :=
  (steps.find? fun row => some row.stepKey = run.resultStepKey && row.status = .succeeded).bind
    StepRow.output

/-- The result that goes with a recomputed status. -/
def recomputedResult (run : RunRow) (steps : List StepRow) : WorkflowRunStatus → Option Json
  | .succeeded => resultOutput run steps
  | .completedWithErrors | .canceled => none
  | .running | .waitingForExternal => run.result

/-- Recomputes the status of a run from its steps. -/
def recomputeWorkflowRunStatus (db : Database) (workflowRunId : ℕ) : Database :=
  match db.workflow.runs.get? workflowRunId with
  | none => db
  | some run =>
    let steps := db.workflow.stepsOf workflowRunId
    let nextStatus := nextRunStatus steps
    if run.status = nextStatus ∧ nextStatus.isTerminal then
      db
    else if run.status = .canceled then
      db
    else
      let db := { db with
        workflow := setRunStatus db.workflow run nextStatus
          (recomputedResult run steps nextStatus) }
      if nextStatus.isTerminal ∧ run.status.isTerminal = false then
        releaseOrDeferWorkflowActiveClaim db workflowRunId
      else
        db

end Batter.Runledger.Postgres
