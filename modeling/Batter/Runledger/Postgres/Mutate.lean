import Batter.Runledger.Postgres.Enqueue
import Batter.Runledger.Postgres.Lifecycle

/-!
# Mutation of a workflow run

Steps may be appended to a run while an external step of it, the append window,
waits; the request is recorded under a mutation key, and a repeated request finds
it.  A run is canceled with everything in it: the run is marked first, so that
nothing is released any more, and then its open steps are swept in the order of
their identifiers until none is left.
-/

namespace Batter.Runledger

/-- The stored name of a run status. -/
def WorkflowRunStatus.asDbValue : WorkflowRunStatus → String
  | .running => "RUNNING"
  | .waitingForExternal => "WAITING_FOR_EXTERNAL"
  | .succeeded => "SUCCEEDED"
  | .completedWithErrors => "COMPLETED_WITH_ERRORS"
  | .canceled => "CANCELED"

namespace Postgres

def workflowRunNotFoundError : Error :=
  .query .validation "workflow.run_not_found" "Workflow run was not found."
    "workflow run lookup failed"

def workflowAppendBlankMutationKeyError : Error :=
  .query .validation "workflow.append_mutation_key_blank"
    "Workflow append mutation key must be non-empty."
    "workflow append mutation key must be non-empty"

def workflowAppendTerminalRunError (status : WorkflowRunStatus) : Error :=
  let status := status.asDbValue
  .query .validation "workflow.append_terminal_run"
    "Workflow steps cannot be appended to a terminal workflow run."
    s!"workflow append rejected because run is terminal: status={status}"

def workflowAppendConflictingRetryError (mutationKey : String) : Error :=
  .query .conflict "workflow.append_conflicting_retry"
    "Workflow append retry conflicts with the existing mutation."
    s!"workflow append mutation '{mutationKey}' does not match the already-recorded request"

def workflowAppendWindowMissingError (stepKey : String) : Error :=
  .query .validation "workflow.append_window_missing" "Workflow append window was not found."
    s!"workflow append window step '{stepKey}' was not found"

def workflowAppendWindowNotExternalError (stepKey : String) : Error :=
  .query .validation "workflow.append_window_not_external"
    "Workflow append window must be an external gate."
    s!"workflow append window step '{stepKey}' is not an EXTERNAL step"

def workflowAppendWindowNotOpenError (stepKey : String) (status : WorkflowStepStatus) : Error :=
  let status := status.asDbValue
  .query .validation "workflow.append_window_not_open"
    "Workflow append window is no longer open."
    s!"workflow append window step '{stepKey}' is not waiting for external completion; current status={status}"

def lockWorkflowRunForUpdate (db : Database) (workflowRunId : ℕ) (organizationId : Option ℕ) :
    Except Error RunRow :=
  require workflowRunNotFoundError
    ((db.workflow.runs.get? workflowRunId).filter (·.isVisibleTo organizationId))

/-- `lock_workflow_steps_for_update_tx`: the steps of a visible run by identifier. -/
def lockWorkflowStepsForUpdate (db : Database) (workflowRunId : ℕ) : List StepRow :=
  orderedBy StepRow.id (db.workflow.stepsOf workflowRunId)

section Append

/-- A request to append steps. -/
structure AppendWorkflowStepsInput where
  workflowRunId : ℕ
  organizationId : Option ℕ
  mutationKey : String
  appendWindowStepKey : String
  steps : List WorkflowStepEnqueue
  deriving DecidableEq

/-- Whether the steps were appended now or before. -/
inductive AppendWorkflowStepsOutcome
  | appended
  | alreadyApplied
  deriving DecidableEq

/-- The answers to `SELECT $1::jsonb = $2::jsonb`. -/
structure JsonbEquality where
  equal : Json → Json → Bool
  equivalence : Equivalence fun left right => equal left right = true

def storedAppendStepFieldsMatch (left right : CanonicalWorkflowStep) : Bool :=
  left.stepKey = right.stepKey && left.executionKind = right.executionKind &&
  left.jobType = right.jobType && left.organizationId = right.organizationId &&
  left.priority = right.priority && left.maxAttempts = right.maxAttempts &&
  left.timeoutSeconds = right.timeoutSeconds && left.stage = right.stage &&
  left.allowHandlerContinuation = right.allowHandlerContinuation &&
  left.executionResourceKey = right.executionResourceKey &&
  left.dependencies = right.dependencies

namespace JsonbEquality

variable (jsonb : JsonbEquality)

def storedAppendStepsMatch (left right : List CanonicalWorkflowStep) : Bool :=
  left.length = right.length && (left.zip right).all fun (left, right) =>
    storedAppendStepFieldsMatch left right &&
      (left.payload = right.payload || jsonb.equal left.payload right.payload)

def storedAppendRequestMatches (existingRequest : Json) (workflowOrganizationId : Option ℕ)
    (requested : CanonicalAppendRequest) : Except Error Bool := do
  let existing ← deserializeStoredAppendRequest existingRequest workflowOrganizationId
  return (existing.appendWindowStepKey.isNone ||
      existing.appendWindowStepKey = requested.appendWindowStepKey) &&
    jsonb.storedAppendStepsMatch existing.steps requested.steps

/-- The equality of the model's own values. -/
def ofValues : JsonbEquality where
  equal left right := left = right
  equivalence := by simpa using eq_equivalence

end JsonbEquality

/-- The kind of an append mutation. -/
def appendSteps : String := "APPEND_STEPS"

def loadExistingMutationRequest (db : Database) (workflowRunId : ℕ) (mutationKey : String) :
    Option Json :=
  ((db.workflow.mutations.get? (workflowRunId, mutationKey)).filter
    (·.mutationKind = appendSteps)).map MutationRow.request

section

variable (lockedSteps : List StepRow)

def ensureAppendWindowIsOpen (appendWindowStepKey : String) : Except Error Unit := do
  let appendWindow ← require (workflowAppendWindowMissingError appendWindowStepKey)
    (lockedSteps.find? fun step => step.stepKey = appendWindowStepKey)
  rejectIf (appendWindow.executionKind ≠ .external)
    (workflowAppendWindowNotExternalError appendWindow.stepKey)
  rejectIf (appendWindow.status ≠ .waitingForExternal)
    (workflowAppendWindowNotOpenError appendWindow.stepKey appendWindow.status)

/-- The counters of a new step after one more dependency. -/
def countDependency (newStepKeys : List String) (stepKey : String)
    (counters : ℤ × ℤ) (dependency : WorkflowStepDependencySpec) : Except Error (ℤ × ℤ) :=
  let prerequisiteStepKey := dependency.prerequisiteStepKey
  match lockedSteps.find? fun step => step.stepKey = prerequisiteStepKey with
  | some existing =>
    if existing.status.isTerminal = false then
      .ok (counters.1 + 1, counters.2)
    else if dependency.effectiveReleaseMode = .onSuccess ∧ existing.status ≠ .succeeded then
      .ok (counters.1, counters.2 + 1)
    else
      .ok counters
  | none => do
    rejectIf (prerequisiteStepKey ∉ newStepKeys) (workflowInternalStateError
      s!"append dependency '{prerequisiteStepKey}' for step '{stepKey}' was not present in the existing or new step key set")
    return (counters.1 + 1, counters.2)

def initialDependencyCounters (newStepKeys : List String)
    (step : WorkflowStepEnqueue) : Except Error (ℤ × ℤ) := do
  let _ ← dependencyCountTotal step
  step.dependencies.foldlM (countDependency lockedSteps newStepKeys step.stepKey) (0, 0)

end

/-- The row of an appended step whose requirements had already failed. -/
def StepRow.cancelBornUnsatisfied (row : StepRow) : StepRow :=
  { row with
    status := .canceled
    statusReason := some dependencyUnsatisfied
    lastErrorCode := some dependencyUnsatisfied
    lastErrorMessage := some "Step dependency requirements were not satisfied." }

theorem StepRow.cancelBornUnsatisfied_id (row : StepRow) : row.cancelBornUnsatisfied.id = row.id :=
  rfl

variable [UuidSource]

variable (db : Database)

def insertAppendedStepRecords (run : RunRow) (lockedSteps : List StepRow)
    (steps : List WorkflowStepEnqueue) : Except Error Database := do
  fetchJobDefinitionDefaults db steps
  steps.foldlM
    (fun db step => do
      let counters ← initialDependencyCounters lockedSteps
        (steps.map WorkflowStepEnqueue.stepKey) step
      insertWorkflowStep db run.id run.organizationId step counters.1 counters.2) db

/-- The database with other rows in `workflow_run_mutations`. -/
def Database.withMutations (mutations : Table MutationRow.key) : Database :=
  { db with workflow := { db.workflow with mutations } }

variable (workflowRunId : ℕ)

omit [UuidSource] in
def insertWorkflowMutationRow (mutationKey : String)
    (request : CanonicalAppendRequest) : Except Error Database := do
  let mutations ← require (.statement "insert workflow append mutation row"
      (.constraint "uq_workflow_run_mutations_run_mutation_key"))
    (db.workflow.mutations.insert? ⟨workflowRunId, mutationKey, appendSteps, request.toJson⟩)
  return db.withMutations mutations

/-- `resolve_immediately_ready_appended_step_candidate_tx`. -/
def resolveAppendedStep (db : Database) (row : StepRow) : Except Error Database :=
  let condition := fun step : StepRow =>
    step.id = row.id && step.workflowRunId = workflowRunId && step.status = .blocked
  if row.dependencyCountUnsatisfied = 0 then
    releaseCandidateStep db row
  else if (db.workflow.steps.select condition).isEmpty then
    .ok db
  else
    resolveTerminalStepQueue
      (db.withSteps (db.workflow.steps.update condition .cancelBornUnsatisfied
        StepRow.cancelBornUnsatisfied_id))
      workflowRunId row.id .canceled

omit [UuidSource] in
/-- The appended steps that wait for nothing, in the order of the request. -/
def readyAppendedSteps (steps : List WorkflowStepEnqueue) : List StepRow :=
  steps.flatMap fun step => (db.workflow.stepsWithKey workflowRunId step.stepKey).filter
    (·.dependencyCountPending = 0)

def resolveAppendedSteps (steps : List WorkflowStepEnqueue) : Except Error Database := do
  let db ← (readyAppendedSteps db workflowRunId steps).foldlM
    (resolveAppendedStep workflowRunId) db
  return recomputeWorkflowRunStatus db workflowRunId

/-- Appends the steps of a request that passed all checks. -/
def applyAppend (run : RunRow) (lockedSteps : List StepRow)
    (input : AppendWorkflowStepsInput) : Except Error Database := do
  let db ← insertAppendedStepRecords db run lockedSteps input.steps
  let db ← insertWorkflowStepDependencies .append run.id input.steps db
  let db ← insertWorkflowMutationRow db run.id input.mutationKey
    (canonicalAppendRequest input.appendWindowStepKey run.organizationId input.steps)
  resolveAppendedSteps db run.id input.steps

def appendWorkflowSteps (input : AppendWorkflowStepsInput) :
    Except Error (AppendWorkflowStepsOutcome × Database) := do
  rejectIf (isBlank input.mutationKey) workflowAppendBlankMutationKeyError
  let run ← lockWorkflowRunForUpdate db input.workflowRunId input.organizationId
  let lockedSteps := lockWorkflowStepsForUpdate db run.id
  match loadExistingMutationRequest db run.id input.mutationKey with
  | some existingRequest =>
    let same ← JsonbEquality.ofValues.storedAppendRequestMatches existingRequest run.organizationId
      (canonicalAppendRequest input.appendWindowStepKey run.organizationId input.steps)
    rejectIf (!same) (workflowAppendConflictingRetryError input.mutationKey)
    return (.alreadyApplied, db)
  | none =>
    ensureAppendWindowIsOpen lockedSteps input.appendWindowStepKey
    rejectIf run.status.isTerminal (workflowAppendTerminalRunError run.status)
    (validateWorkflowStepAppend (lockedSteps.map StepRow.stepKey) input.steps).mapError
      .invalidDag
    let db ← applyAppend db run lockedSteps input
    return (.appended, db)

end Append

section Cancel

/-- The texts of a cancellation. -/
structure CancellationMetadata where
  reason : Option String
  lastErrorCode : Option String
  lastErrorMessage : Option String
  deriving DecidableEq

/-- The texts that a cancellation leaves on a step. -/
def CancellationMetadata.stepReason (metadata : CancellationMetadata) : StepReason :=
  ⟨metadata.reason, metadata.lastErrorCode, metadata.lastErrorMessage⟩

/-- The organization of a step as the scope of a cancellation. -/
def StepRow.cancellationScope (row : StepRow) : JobCancellationScope :=
  match row.organizationId with
  | some organizationId => .organization organizationId
  | none => .global

variable [UuidSource]

def cancelBlockedWorkflowStep (metadata : CancellationMetadata) (db : Database)
    (workflowRunId stepId : ℕ) : Except Error (Bool × Database) :=
  let condition := fun row : StepRow =>
    row.id = stepId && row.workflowRunId = workflowRunId && row.status = .blocked
  if (db.workflow.steps.select condition).isEmpty then
    .ok (false, db)
  else do
    let db ← resolveTerminalStepQueue
      (db.withSteps (db.workflow.steps.update condition
        (.finish .canceled metadata.stepReason none)
        (StepRow.finish_id .canceled metadata.stepReason none)))
      workflowRunId stepId .canceled
    return (true, db)

/-- `cancel_nonterminal_workflow_step_tx`, for a step as it was when it was loaded. -/
def cancelNonterminalWorkflowStep (run : RunRow) (metadata : CancellationMetadata)
    (state : Bool × Database) (step : StepRow) : Except Error (Bool × Database) :=
  match step.status with
  | .enqueued | .running => do
    let stepKey := step.stepKey
    let jobId ← require (workflowInternalStateError
      s!"workflow step '{stepKey}' is job-backed but missing job_id during workflow cancel")
      step.jobId
    let canceled ← cancelJobWithScopeTx state.2 step.cancellationScope jobId metadata.reason
    let db ← require (workflowInternalStateError
      s!"workflow-managed job {jobId} could not be canceled during workflow run cancel") canceled
    return (true, db)
  | .waitingForExternal => do
    let db ← completeExternalWorkflowStep state.2
      ⟨run.id, run.organizationId, step.stepKey, .canceled, metadata.stepReason⟩
    return (true, db)
  | .blocked => do
    let (progressed, db) ← cancelBlockedWorkflowStep metadata state.2 run.id step.id
    return (state.1 || progressed, db)
  | .succeeded | .failed | .canceled => .ok state

omit [UuidSource] in
def loadNonterminalWorkflowSteps (db : Database) (workflowRunId : ℕ) : List StepRow :=
  (lockWorkflowStepsForUpdate db workflowRunId).filter fun step => !step.status.isTerminal

/-- `sweep_tx`: one round for each unit of fuel, until no step is open. -/
def sweep (run : RunRow) (metadata : CancellationMetadata) :
    ℕ → Bool → Database → List StepRow → Except Error Database
  | 0, _, _, _ => throw .unfinished
  | fuel + 1, stalledOnce, db, pendingSteps => do
    let (progressed, db) ← pendingSteps.foldlM (cancelNonterminalWorkflowStep run metadata)
      (false, db)
    let pendingSteps := loadNonterminalWorkflowSteps db run.id
    if pendingSteps.isEmpty then
      return db
    else if progressed then
      sweep run metadata fuel false db pendingSteps
    else if stalledOnce then
      let runId := run.id
      let pendingStepIds := ", ".intercalate (pendingSteps.map fun step => toString step.id)
      throw (workflowInternalStateError
        s!"workflow cancel found nonterminal steps on run {runId} but made no progress; pending step ids: {pendingStepIds}")
    else
      sweep run metadata fuel true db pendingSteps

/-- `cancel_workflow_run_tx`.  A round without progress is repeated once, and every other
round ends a step, so the loop makes at most this many rounds. -/
def cancelWorkflowRun (db : Database) (workflowRunId : ℕ) (organizationId : Option ℕ)
    (metadata : CancellationMetadata) : Except Error Database := do
  let run ← lockWorkflowRunForUpdate db workflowRunId organizationId
  if run.status.isTerminal then
    return db
  let lockedSteps := lockWorkflowStepsForUpdate db run.id
  let db := { db with workflow := setRunStatus db.workflow run .canceled none }
  let db ← sweep run metadata (2 * lockedSteps.length + 2) false db lockedSteps
  let db := recomputeWorkflowRunStatus db run.id
  return releaseOrDeferWorkflowActiveClaim db run.id

end Cancel

end Postgres
end Batter.Runledger
