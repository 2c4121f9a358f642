import Batter.Runledger.Postgres.Terminal

/-!
# Transitions of a step

What happens to the step of a job when the job is claimed, put back, retried,
continued or ended, and the completion of a step from outside.  A job without a
step is left to the queue alone.
-/

namespace Batter.Runledger

/-- The stored name of a step status. -/
def WorkflowStepStatus.asDbValue : WorkflowStepStatus → String
  | .blocked => "BLOCKED"
  | .enqueued => "ENQUEUED"
  | .running => "RUNNING"
  | .waitingForExternal => "WAITING_FOR_EXTERNAL"
  | .succeeded => "SUCCEEDED"
  | .failed => "FAILED"
  | .canceled => "CANCELED"

/-- The stored name of an execution kind. -/
def WorkflowStepExecutionKind.asDbValue : WorkflowStepExecutionKind → String
  | .job => "JOB"
  | .external => "EXTERNAL"

namespace Postgres

/-- Why a step is enqueued after a handler asked for another run. -/
def handlerContinuationReason : String := "HANDLER_CONTINUATION"

/-- The texts that go with a status of a step. -/
structure StepReason where
  statusReason : Option String
  lastErrorCode : Option String
  lastErrorMessage : Option String
  deriving DecidableEq

section ClaimTransitions

/-- The row of a step whose job is claimed. -/
def StepRow.markRunning (row : StepRow) : StepRow :=
  { row with status := .running, output := none }

theorem StepRow.markRunning_id (row : StepRow) : row.markRunning.id = row.id :=
  rfl

/-- The row of a step whose job is back in the queue. -/
def StepRow.enqueueAgain (reason : StepReason) (row : StepRow) : StepRow :=
  { row with
    status := .enqueued
    statusReason := reason.statusReason
    lastErrorCode := reason.lastErrorCode
    lastErrorMessage := reason.lastErrorMessage
    output := none }

theorem StepRow.enqueueAgain_id (reason : StepReason) (row : StepRow) :
    (row.enqueueAgain reason).id = row.id :=
  rfl

variable (db : Database) (jobId : ℕ)

def markWorkflowStepRunningForClaim : Database :=
  db.withSteps (db.workflow.steps.update
    (fun row => decide (row.jobId = some jobId) &&
      (decide (row.status = .enqueued) || decide (row.status = .running)))
    .markRunning StepRow.markRunning_id)

/-- The step of a job goes back to the queue if it is running. -/
def enqueueRunningStep (reason : StepReason) : Database :=
  db.withSteps (db.workflow.steps.update
    (fun row => decide (row.jobId = some jobId) && decide (row.status = .running))
    (.enqueueAgain reason) (StepRow.enqueueAgain_id reason))

def markWorkflowStepEnqueuedForClaimRelease : Database :=
  enqueueRunningStep db jobId ⟨none, none, none⟩

def markWorkflowStepEnqueuedForRetry (reason : StepReason) : Database :=
  enqueueRunningStep db jobId reason

/-- A handler asked for another run of a step that does not allow it. -/
def workflowHandlerContinuationNotEnabledError : Error :=
  .query .validation "job.workflow_handler_continuation_not_enabled"
    "Workflow step handler continuation is not enabled."
    "workflow-managed job continuation requires allow_handler_continuation"

def WorkflowTables.stepOfJob (tables : WorkflowTables) (jobId : ℕ) : Option StepRow :=
  (tables.steps.select fun row => row.jobId = some jobId).head?

def markWorkflowStepEnqueuedForHandlerContinuation : Except Error Database :=
  match db.workflow.stepOfJob jobId with
  | none => .ok db
  | some row => do
    let rowId := row.id
    let storedJobId := row.jobId.elim "None" fun id => s!"Some({id})"
    let executionKind := row.executionKind.asDbValue
    let status := row.status.asDbValue
    rejectIf (row.jobId ≠ some jobId || row.executionKind ≠ .job || row.status ≠ .running)
      (workflowInternalStateError
        s!"workflow handler continuation linkage/status mismatch: job_id={jobId}, workflow_step_id={rowId}, stored_job_id={storedJobId}, execution_kind={executionKind}, status={status}")
    rejectIf (!row.allowHandlerContinuation) workflowHandlerContinuationNotEnabledError
    return db.withSteps (db.workflow.steps.modify row.id
      (.enqueueAgain ⟨some handlerContinuationReason, none, none⟩)
      (StepRow.enqueueAgain_id ⟨some handlerContinuationReason, none, none⟩))

end ClaimTransitions

section TerminalTransitions

/-- The row of a step that ended; only a successful step has an output. -/
def StepRow.finish (status : WorkflowStepStatus) (reason : StepReason) (output : Option Json)
    (row : StepRow) : StepRow :=
  { row with
    status
    statusReason := reason.statusReason
    lastErrorCode := reason.lastErrorCode
    lastErrorMessage := reason.lastErrorMessage
    output := if status = .succeeded then output else none }

theorem StepRow.finish_id
    (status : WorkflowStepStatus) (reason : StepReason) (output : Option Json) (row : StepRow) :
    (row.finish status reason output).id = row.id :=
  rfl

variable [UuidSource]

/-- Ends one step and resolves everything that follows from it. -/
def finishStep (db : Database) (step : StepRow) (status : WorkflowStepStatus)
    (reason : StepReason) (output : Option Json) : Except Error Database := do
  let db := db.withSteps (db.workflow.steps.modify step.id (.finish status reason output)
    (StepRow.finish_id status reason output))
  let db ← resolveTerminalStepQueue db step.workflowRunId step.id status
  return recomputeWorkflowRunStatus db step.workflowRunId

def processWorkflowStepTerminalByJobId (db : Database) (jobId : ℕ)
    (terminalStatus : WorkflowStepStatus) (reason : StepReason) (output : Option Json) :
    Except Error Database := do
  rejectIf (!terminalStatus.isTerminal)
    (workflowInternalStateError "workflow step terminal transition requires terminal status")
  match db.workflow.stepOfJob jobId with
  | none => return db
  | some step =>
    if step.status.isTerminal then
      return db
    finishStep db step terminalStatus reason output

end TerminalTransitions

/-- How a step was completed from outside. -/
inductive ExternalWorkflowStepTerminalOutcome
  | succeeded (output : Option Json)
  | failed
  | canceled
  deriving DecidableEq

namespace ExternalWorkflowStepTerminalOutcome

/-- The status of a step that was completed so. -/
def status : ExternalWorkflowStepTerminalOutcome → WorkflowStepStatus
  | .succeeded _ => .succeeded
  | .failed => .failed
  | .canceled => .canceled

/-- The output of a step that was completed so. -/
def output : ExternalWorkflowStepTerminalOutcome → Option Json
  | .succeeded output => output
  | .failed | .canceled => none

end ExternalWorkflowStepTerminalOutcome

/-- A request to complete a step from outside. -/
structure CompleteExternalWorkflowStepInput where
  workflowRunId : ℕ
  organizationId : Option ℕ
  stepKey : String
  outcome : ExternalWorkflowStepTerminalOutcome
  reason : StepReason
  deriving DecidableEq

/-- No step of that key in a visible run. -/
def workflowExternalStepNotFoundError : Error :=
  .query .validation "workflow.external_step_not_found" "External workflow step was not found."
    "external workflow step lookup failed"

variable (stepKey : String)

/-- The step runs as a job. -/
def workflowExternalStepNotExternalError : Error :=
  .query .validation "workflow.external_step_not_external"
    "Workflow step is not an external gate." s!"workflow step '{stepKey}' is not an EXTERNAL step"

/-- The step does not wait. -/
def workflowExternalStepNotWaitingError (status : WorkflowStepStatus) : Error :=
  let status := status.asDbValue
  .query .validation "workflow.external_step_not_waiting"
    "External workflow step is not waiting for completion."
    s!"workflow step '{stepKey}' is not waiting for external completion; current status={status}"

/-- The step ended with another status. -/
def workflowExternalCompletionConflictError
    (currentStatus requestedStatus : WorkflowStepStatus) : Error :=
  let current := currentStatus.asDbValue
  let requested := requestedStatus.asDbValue
  .query .validation "workflow.external_step_conflicting_completion_retry"
    "External workflow step was already completed with a different result."
    s!"workflow step '{stepKey}' was already completed as {current} and cannot be retried as {requested}"

/-- The step ended with another output. -/
def workflowExternalCompletionOutputConflictError : Error :=
  .query .conflict "workflow.external_step_conflicting_output_retry"
    "External workflow step was already completed with a different output."
    s!"workflow step '{stepKey}' was already completed with different output"

/-- The step ended with other texts. -/
def workflowExternalCompletionMetadataConflictError : Error :=
  .query .conflict "workflow.external_step_conflicting_completion_retry"
    "External workflow step was already completed with a different result."
    s!"workflow step '{stepKey}' was already completed with different completion metadata"

/-- Whether a caller of this organization sees the run; no organization sees every run. -/
def RunRow.isVisibleTo (organizationId : Option ℕ) (run : RunRow) : Bool :=
  organizationId.isNone || run.organizationId = organizationId

/-- The step that a request names. -/
def lockExternalWorkflowStepForCompletion (db : Database)
    (input : CompleteExternalWorkflowStepInput) : Except Error StepRow :=
  require workflowExternalStepNotFoundError
    (if (db.workflow.runs.get? input.workflowRunId).any (·.isVisibleTo input.organizationId) then
      (db.workflow.steps.select fun row =>
        decide (row.workflowRunId = input.workflowRunId) &&
          decide (row.stepKey = input.stepKey)).head?
    else none)

def externalCompletionMetadataMatches (step : StepRow)
    (input : CompleteExternalWorkflowStepInput) : Bool :=
  step.statusReason = input.reason.statusReason &&
    step.lastErrorCode = input.reason.lastErrorCode &&
    step.lastErrorMessage = input.reason.lastErrorMessage

def completeExternalWorkflowStep [UuidSource] (db : Database)
    (input : CompleteExternalWorkflowStepInput) : Except Error Database := do
  let step ← lockExternalWorkflowStepForCompletion db input
  rejectIf (step.executionKind ≠ .external) (workflowExternalStepNotExternalError step.stepKey)
  if step.status.isTerminal then
    rejectIf (step.status ≠ input.outcome.status)
      (workflowExternalCompletionConflictError step.stepKey step.status input.outcome.status)
    rejectIf (step.status = .succeeded && step.output ≠ input.outcome.output)
      (workflowExternalCompletionOutputConflictError step.stepKey)
    rejectIf (!externalCompletionMetadataMatches step input)
      (workflowExternalCompletionMetadataConflictError step.stepKey)
    return db
  rejectIf (step.status ≠ .waitingForExternal)
    (workflowExternalStepNotWaitingError step.stepKey step.status)
  finishStep db step input.outcome.status input.reason input.outcome.output

end Postgres
end Batter.Runledger
