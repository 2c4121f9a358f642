import Batter.Runledger.Postgres.Snapshot

/-!
# Enqueue of a workflow run

A payload that passes validation becomes a run with its steps and dependencies,
and the steps without dependencies are released.  A repeated request with the
same idempotency key finds the run it created, and a request under an active key
finds the run that holds the key.
-/

namespace Batter.Runledger.Postgres

def workflowDefinitionNotAvailableError (jobType : String) : Error :=
  .query .validation "workflow.definition_not_found_or_disabled"
    "Workflow step job type is not available."
    s!"workflow step job definition missing or disabled: {jobType}"

def workflowActiveKeyRequiredError : Error :=
  .query .validation "workflow.active_key_required"
    "Active workflow enqueue requires an active key."
    "enqueue_or_get_active_workflow payload did not include active_key"

def workflowActiveKeyApiRequiredError : Error :=
  .query .validation "workflow.active_key_api_required"
    "Use the active workflow enqueue API for payloads with an active key."
    "enqueue_workflow_run cannot discard the explicit active-collision outcome"

def workflowEnqueueConflictingRetryError (field : String) : Error :=
  .query .conflict "workflow.enqueue_conflicting_retry"
    "Workflow enqueue retry conflicts with the existing idempotency key."
    s!"workflow enqueue idempotency key conflicts with existing workflow run field '{field}'"

def workflowDependencyCountOverflowError (stepKey : String) (dependencyCount : ℕ) : Error :=
  .query .validation "workflow.invalid_dag_dependency_count_overflow"
    "Workflow dependency count is too large."
    s!"workflow DAG validation failed: {dependencyCount} dependencies for step '{stepKey}' exceed i32 range: out of range integral type conversion attempted"

section Steps

def dependencyCountTotal (step : WorkflowStepEnqueue) : Except Error ℤ := do
  rejectIf (i32Max < step.dependencies.length)
    (workflowDependencyCountOverflowError step.stepKey step.dependencies.length)
  return step.dependencies.length

/-- The definition of a job type, if it is enabled. -/
def Database.enabledDefinition (db : Database) (jobType : String) : Option DefinitionRow :=
  (db.definitions.get? jobType).filter DefinitionRow.isEnabled

/-- `fetch_job_definition_defaults_tx`: every job step needs an enabled definition. -/
def fetchJobDefinitionDefaults (db : Database) (steps : List WorkflowStepEnqueue) :
    Except Error Unit :=
  rejectSome workflowDefinitionNotAvailableError
    ((steps.filterMap WorkflowStepEnqueue.jobType).find? fun jobType =>
      (db.enabledDefinition jobType).isNone)

/-- `workflow_step_defaults`, for job steps. -/
def workflowStepDefaults (db : Database) (step : WorkflowStepEnqueue) :
    Except Error (Option DefinitionRow) :=
  match step.jobType with
  | some jobType => do
    let defaults ← require (workflowDefinitionNotAvailableError jobType)
      (db.enabledDefinition jobType)
    return some defaults
  | none => return none

/-- A new row of `workflow_steps`: blocked, with settings of its own or of its definition. -/
def StepRow.new (id workflowRunId : ℕ) (organizationId : Option ℕ) (step : WorkflowStepEnqueue)
    (defaults : Option DefinitionRow) (total pending unsatisfied : ℤ) : StepRow where
  id := id
  workflowRunId := workflowRunId
  stepKey := step.stepKey
  executionKind := step.executionKind
  jobType := step.jobType
  organizationId := organizationId
  payload := step.payload
  priority := defaults.map fun row => step.priority.getD row.defaultPriority
  maxAttempts := defaults.map fun row => step.maxAttempts.getD row.maxAttempts
  timeoutSeconds := defaults.map fun row => step.timeoutSeconds.getD row.defaultTimeoutSeconds
  stage := workflowStepEffectiveStage step
  allowHandlerContinuation := step.allowsHandlerContinuation
  executionResourceKey := step.executionResourceKey
  status := .blocked
  jobId := none
  releasedAt := none
  dependencyCountTotal := total
  dependencyCountPending := pending
  dependencyCountUnsatisfied := unsatisfied
  statusReason := none
  lastErrorCode := none
  lastErrorMessage := none
  output := none

/-- Values of an `integer` column. -/
def isI32 (value : ℤ) : Bool :=
  -2 ^ 31 ≤ value && value ≤ i32Max

/-- The checks of `workflow_steps` that depend on the inserted values. -/
def StepRow.checkConstraints (row : StepRow) : Except Error Unit := do
  let violates := fun name => .statement "insert workflow steps" (.constraint name)
  let exceeds := fun column => .statement "insert workflow steps" (.outOfRange column)
  rejectIf (row.priority.any (!isI32 ·)) (exceeds "priority")
  rejectIf (row.maxAttempts.any (!isI32 ·)) (exceeds "max_attempts")
  rejectIf (row.timeoutSeconds.any (!isI32 ·)) (exceeds "timeout_seconds")
  rejectIf (row.maxAttempts.any (· ≤ 0)) (violates "chk_workflow_steps_max_attempts_positive")
  rejectIf (row.timeoutSeconds.any (· ≤ 0)) (violates "chk_workflow_steps_timeout_positive")
  rejectIf (row.executionResourceKey.any fun key => isBlank key || 512 < key.utf8ByteSize)
    (violates "chk_workflow_steps_execution_resource_key")

/-- The database after one identifier was drawn for a new row of `workflow_steps`. -/
def Database.withNewStep (db : Database) (steps : Table StepRow.id) : Database :=
  { db with workflow := { db.workflow with steps }, generated := db.generated + 1 }

/-- The steps with one key in a run; there is at most one. -/
def WorkflowTables.stepsWithKey (tables : WorkflowTables) (workflowRunId : ℕ)
    (stepKey : String) : List StepRow :=
  tables.steps.select fun row => row.workflowRunId = workflowRunId && row.stepKey = stepKey

variable [UuidSource]

/-- Inserts one step of a request. -/
def insertWorkflowStep (db : Database) (workflowRunId : ℕ) (workflowOrganizationId : Option ℕ)
    (step : WorkflowStepEnqueue) (pending unsatisfied : ℤ) : Except Error Database := do
  let defaults ← workflowStepDefaults db step
  let total ← dependencyCountTotal step
  let row := StepRow.new db.nextId workflowRunId
    (workflowStepEffectiveOrganizationId workflowOrganizationId step) step defaults total pending
    unsatisfied
  row.checkConstraints
  rejectIf (!(db.workflow.stepsWithKey workflowRunId step.stepKey).isEmpty)
    (.statement "insert workflow steps" (.constraint "uq_workflow_steps_run_step_key"))
  let steps ← require (.statement "insert workflow steps" (.constraint "workflow_steps_pkey"))
    (db.workflow.steps.insert? row)
  return db.withNewStep steps

/-- `insert_workflow_steps_tx`: all dependencies of a new run are open. -/
def insertWorkflowSteps (db : Database) (payload : WorkflowRunEnqueue) (workflowRunId : ℕ) :
    Except Error Database :=
  payload.steps.foldlM
    (fun db step => insertWorkflowStep db workflowRunId payload.organizationId step
      step.dependencies.length 0) db

end Steps

section Dependencies

/-- Which request writes dependencies. -/
inductive WorkflowStepDependencyWriteContext
  | initialEnqueue
  | append
  deriving DecidableEq

namespace WorkflowStepDependencyWriteContext

def missingDependentStepIdError : WorkflowStepDependencyWriteContext → String
  | .initialEnqueue => "missing dependent workflow step id"
  | .append => "missing dependent appended workflow step id"

def missingPrerequisiteStepIdError : WorkflowStepDependencyWriteContext → String
  | .initialEnqueue => "missing prerequisite workflow step id"
  | .append => "missing appended workflow prerequisite step id"

end WorkflowStepDependencyWriteContext

def stepIdForKey (db : Database) (workflowRunId : ℕ) (stepKey missingError : String) :
    Except Error ℕ := do
  let row ← require (workflowInternalStateError missingError)
    (db.workflow.stepsWithKey workflowRunId stepKey).head?
  return row.id

/-- The database with other rows in `workflow_step_dependencies`. -/
def Database.withDependencies (db : Database) (dependencies : Table DependencyRow.key) : Database :=
  { db with workflow := { db.workflow with dependencies } }

variable (context : WorkflowStepDependencyWriteContext)

def insertWorkflowStepDependency (workflowRunId dependentStepId : ℕ) (db : Database)
    (dependency : WorkflowStepDependencySpec) : Except Error Database := do
  let violates := fun name =>
    Error.statement "insert workflow step dependencies" (.constraint name)
  let prerequisiteStepId ← stepIdForKey db workflowRunId dependency.prerequisiteStepKey
    context.missingPrerequisiteStepIdError
  rejectIf (prerequisiteStepId = dependentStepId)
    (violates "chk_workflow_step_dependencies_no_self_reference")
  let dependencies ← require (violates "pk_workflow_step_dependencies")
    (db.workflow.dependencies.insert?
      ⟨workflowRunId, prerequisiteStepId, dependentStepId, dependency.effectiveReleaseMode⟩)
  return db.withDependencies dependencies

def insertDependenciesOfStep (workflowRunId : ℕ)
    (db : Database) (step : WorkflowStepEnqueue) : Except Error Database := do
  let dependentStepId ← stepIdForKey db workflowRunId step.stepKey
    context.missingDependentStepIdError
  step.dependencies.foldlM (insertWorkflowStepDependency context workflowRunId dependentStepId) db

def insertWorkflowStepDependencies
    (workflowRunId : ℕ) (steps : List WorkflowStepEnqueue) (db : Database) :
    Except Error Database :=
  steps.foldlM (insertDependenciesOfStep context workflowRunId) db

end Dependencies

section Runs

def workflowActiveClaimScope : Option ℕ → String
  | none => "global"
  | some organizationId => s!"organization:{organizationId}"

/-- The outcome of an enqueue, with the run it names. -/
inductive EnqueueActiveWorkflowOutcome
  | inserted (workflowRunId : ℕ)
  | existingIdempotent (workflowRunId : ℕ)
  | existingActive (workflowRunId : ℕ)
  deriving DecidableEq

/-- The run that an idempotency key of this payload created. -/
def tryLoadExistingIdempotentWorkflowRun (db : Database) (payload : WorkflowRunEnqueue)
    (idempotencyKey : String) : Option RunRow :=
  (db.workflow.runs.select fun run => run.workflowType = payload.workflowType &&
    run.organizationId = payload.organizationId &&
    run.idempotencyKey = some idempotencyKey).head?

def validateExistingIdempotentWorkflowRun (existing : RunRow) (enqueueRequest : Json) :
    Except Error Unit :=
  rejectIf (existing.enqueueRequest ≠ enqueueRequest)
    (workflowEnqueueConflictingRetryError "request")

/-- The run that a claim on the active key names. -/
def loadExistingActiveWorkflowRun (db : Database) (organizationId : Option ℕ)
    (activeKey : String) : Option ℕ :=
  (db.workflow.activeClaims.get? (workflowActiveClaimScope organizationId, activeKey)).map
    ActiveClaimRow.workflowRunId

variable [UuidSource]

/-- A new row of `workflow_runs`. -/
def RunRow.new (id : ℕ) (payload : WorkflowRunEnqueue) (enqueueRequest : Json) : RunRow where
  id := id
  workflowType := payload.workflowType
  organizationId := payload.organizationId
  status := .running
  idempotencyKey := payload.idempotencyKey
  metadata := payload.metadata
  enqueueRequest := enqueueRequest
  resultStepKey := payload.resultStepKey
  result := none

variable (db : Database)

/-- The database after one identifier was drawn for a new row of `workflow_runs`. -/
def Database.withNewRun (runs : Table RunRow.id) : Database :=
  { db with workflow := { db.workflow with runs }, generated := db.generated + 1 }

variable (payload : WorkflowRunEnqueue)

/-- Inserts the row of a run that no idempotency key has created before. -/
def insertWorkflowRun (enqueueRequest : Json) : Except Error Database := do
  let runs ← require (.statement "enqueue workflow run" (.constraint "workflow_runs_pkey"))
    (db.workflow.runs.insert? (.new db.nextId payload enqueueRequest))
  return db.withNewRun runs

/-- The database with other rows in `workflow_active_claims`. -/
def Database.withActiveClaims (activeClaims : Table ActiveClaimRow.key) : Database :=
  { db with workflow := { db.workflow with activeClaims } }

omit [UuidSource] in
def insertWorkflowActiveClaim (organizationId : Option ℕ) (activeKey : String)
    (workflowRunId : ℕ) : Except Error Database := do
  let violates := fun name => Error.statement "insert workflow active claim" (.constraint name)
  rejectIf (isBlank activeKey || 512 < activeKey.utf8ByteSize)
    (violates "chk_workflow_active_claims_key_not_blank")
  rejectIf (!(db.workflow.activeClaims.select fun claim =>
    claim.workflowRunId = workflowRunId).isEmpty) (violates "uq_workflow_active_claims_run")
  let activeClaims ← require (violates "pk_workflow_active_claims")
    (db.workflow.activeClaims.insert?
      ⟨workflowActiveClaimScope organizationId, activeKey, workflowRunId, false⟩)
  return db.withActiveClaims activeClaims

/-- Claims the active key of a new run, if its payload has one. -/
def claimActiveKey (workflowRunId : ℕ) : Except Error Database :=
  match payload.activeKey with
  | none => .ok db
  | some activeKey => insertWorkflowActiveClaim db payload.organizationId activeKey workflowRunId

/-- Inserts the run, its claim on the active key, its steps and their dependencies. -/
def insertWorkflow : Except Error Database := do
  let workflowRunId := db.nextId
  let db ← insertWorkflowRun db payload (canonicalWorkflowEnqueueRequest payload)
  let db ← claimActiveKey db payload workflowRunId
  fetchJobDefinitionDefaults db payload.steps
  let db ← insertWorkflowSteps db payload workflowRunId
  insertWorkflowStepDependencies .initialEnqueue workflowRunId payload.steps db

/-- Inserts a workflow and releases the steps that wait for nothing. -/
def startWorkflow : Except Error (EnqueueActiveWorkflowOutcome × Database) := do
  let workflowRunId := db.nextId
  let db ← insertWorkflow db payload
  let db ← enqueueRootSteps db workflowRunId
  return (.inserted workflowRunId, recomputeWorkflowRunStatus db workflowRunId)

/-- Finds the run that the request has already created or that holds its active key. -/
def findExistingWorkflowRun : Except Error (Option EnqueueActiveWorkflowOutcome) :=
  match payload.idempotencyKey.bind (tryLoadExistingIdempotentWorkflowRun db payload) with
  | some existing => do
    validateExistingIdempotentWorkflowRun existing (canonicalWorkflowEnqueueRequest payload)
    return some (.existingIdempotent existing.id)
  | none =>
    return (payload.activeKey.bind
      (loadExistingActiveWorkflowRun db payload.organizationId)).map .existingActive

def enqueueWorkflowRunClassified : Except Error (EnqueueActiveWorkflowOutcome × Database) := do
  (validateWorkflowRunEnqueue payload).mapError .invalidDag
  match ← findExistingWorkflowRun db payload with
  | some existing => return (existing, db)
  | none => startWorkflow db payload

def enqueueWorkflowRun : Except Error (EnqueueActiveWorkflowOutcome × Database) := do
  rejectIf payload.activeKey.isSome workflowActiveKeyApiRequiredError
  enqueueWorkflowRunClassified db payload

def enqueueOrGetActiveWorkflow : Except Error (EnqueueActiveWorkflowOutcome × Database) := do
  rejectIf payload.activeKey.isNone workflowActiveKeyRequiredError
  enqueueWorkflowRunClassified db payload

end Runs

/-- `release_quiesced_workflow_active_claims_tx`, for the claims within its limit. -/
def releaseQuiescedWorkflowActiveClaims (db : Database) (selected : List (String × String)) :
    Database :=
  db.withActiveClaims (db.workflow.activeClaims.delete fun claim =>
    decide (claim.key ∈ selected) && claim.releasePending &&
      !hasLiveCanceledLease db claim.workflowRunId)

end Batter.Runledger.Postgres
