import Batter.Runledger.Core.Builders
import Batter.Runledger.Postgres.Mutate

/-!
# Recovery of a workflow run

A terminal run is repeated as a new run.  The blueprint of the new run is read
from the canonical requests of the source: the one that created it and those of
its appends.  Each step is paired with its row in the source, checked against it,
and takes its payload and its resolved settings from there.  The graph then goes
through the same builder as any other request.

The source keeps a lineage row for each recovery, and a repeated request finds it.
-/

namespace Batter.Runledger.Postgres

/-- How a recovery repeats its source. -/
inductive WorkflowRecoveryMode
  | fullReplay
  deriving DecidableEq

/-- The stored name of a mode. -/
def WorkflowRecoveryMode.asDbValue : WorkflowRecoveryMode → String
  | .fullReplay => "FULL_REPLAY"

/-- A request to recover a run. -/
structure WorkflowRecoveryRequest where
  sourceRunId : ℕ
  organizationId : Option ℕ
  sourceStepId : Option ℕ
  requestKey : String
  mode : WorkflowRecoveryMode
  reason : String
  deriving DecidableEq

/-- Whether the recovery is new. -/
inductive WorkflowRecoveryDisposition
  | inserted
  | existing
  deriving DecidableEq

/-- The run that repeats the source. -/
structure WorkflowRecoveryOutcome where
  runId : ℕ
  disposition : WorkflowRecoveryDisposition
  deriving DecidableEq

def recoveryValidationError (code clientMessage : String) : Error :=
  .query .validation code clientMessage clientMessage

def recoverySourceNotFoundError (sourceRunId : ℕ) : Error :=
  .query .validation "workflow.recovery_source_not_found"
    "Workflow recovery source was not found."
    s!"workflow recovery source {sourceRunId} was not found in the requested scope"

def recoverySourceStepNotFoundError (sourceStepId : ℕ) : Error :=
  .query .validation "workflow.recovery_source_step_not_found"
    "Workflow recovery source step was not found."
    s!"workflow recovery source step {sourceStepId} does not belong to the source run"

def recoverySourceNotTerminalError (sourceRunId : ℕ) (status : WorkflowRunStatus) : Error :=
  let status := status.asDbValue
  .query .conflict "workflow.recovery_source_not_terminal"
    "Only a terminal workflow run can be recovered."
    s!"workflow recovery source {sourceRunId} has nonterminal status {status}"

def unsafeRecoverySnapshotError (detail : String) : Error :=
  .query .conflict "workflow.recovery_snapshot_unsafe"
    "Workflow run cannot be reconstructed safely." detail

def recoveryRequestConflictError : Error :=
  .query .conflict "workflow.recovery_request_conflict"
    "Workflow recovery request conflicts with an existing request key."
    "workflow recovery request reused a request key with different fields"

def recoveryActiveConstraintError (activeRunId : ℕ) : Error :=
  .query .conflict "workflow.recovery_active_constraint"
    "Workflow recovery is blocked by an active workflow."
    s!"workflow recovery active key is owned by run {activeRunId}"

/-- A step of the canonical requests with the row it became. -/
structure RecoveryStep where
  canonical : CanonicalWorkflowStep
  sourceState : StepRow

/-- What a recovery repeats. -/
structure RecoveryBlueprint where
  workflowType : String
  organizationId : Option ℕ
  metadata : Json
  activeKey : Option String
  resultStepKey : Option String
  steps : List RecoveryStep

section

variable (stepsByKey : List CanonicalWorkflowStep)

def insertRecoveryStep (step : CanonicalWorkflowStep) :
    Except Error (List CanonicalWorkflowStep) := do
  let stepKey := step.stepKey
  rejectIf (stepsByKey.any fun other => other.stepKey = stepKey)
    (unsafeRecoverySnapshotError s!"duplicate reconstructed step key {stepKey}")
  return stepsByKey ++ [step]

/-- Adds the steps of one append. -/
def insertRecoveryAppend (mutation : MutationRow) : Except Error (List CanonicalWorkflowStep) := do
  let mutationKind := mutation.mutationKind
  rejectIf (mutationKind ≠ appendSteps)
    (unsafeRecoverySnapshotError s!"unsupported workflow mutation kind {mutationKind}")
  let append ← require (unsafeRecoverySnapshotError "invalid append snapshot")
    (deserializeRecoveryAppendSnapshot mutation.request)
  append.steps.foldlM insertRecoveryStep stepsByKey

/-- The state of one more step of the source. -/
def insertSourceStepState (stateByKey : List StepRow) (row : StepRow) :
    Except Error (List StepRow) := do
  let stepKey := row.stepKey
  rejectIf (stateByKey.any fun other => other.stepKey = stepKey)
    (unsafeRecoverySnapshotError s!"source workflow contains duplicate step key {stepKey}")
  return stateByKey ++ [row]

def loadRecoverySourceStepState (db : Database) (sourceRunId : ℕ) : Except Error (List StepRow) :=
  (db.workflow.stepsOf sourceRunId).foldlM insertSourceStepState []

/-- The row of a canonical step. -/
def pairRecoveryStep (sourceStepStateByKey : List StepRow) (canonical : CanonicalWorkflowStep) :
    Except Error RecoveryStep := do
  let stepKey := canonical.stepKey
  let sourceState ← require
    (unsafeRecoverySnapshotError s!"reconstructed step {stepKey} is missing from the source run")
    (sourceStepStateByKey.find? fun row => row.stepKey = stepKey)
  return { canonical, sourceState }

/-- `pair_recovery_steps`: the steps in the order of their keys. -/
def pairRecoverySteps (sourceStepStateByKey : List StepRow) : Except Error (List RecoveryStep) := do
  let reconstructed := stepsByKey.length
  let stored := sourceStepStateByKey.length
  rejectIf (stored ≠ reconstructed) (unsafeRecoverySnapshotError
    s!"reconstructed {reconstructed} workflow steps but source run stores {stored}")
  (orderedBy CanonicalWorkflowStep.stepKey stepsByKey).mapM (pairRecoveryStep sourceStepStateByKey)

end

/-- `RecoveryBlueprint::load_tx`. -/
def loadRecoveryBlueprint (db : Database) (source : RunRow) : Except Error RecoveryBlueprint := do
  let snapshot ← require (unsafeRecoverySnapshotError "invalid enqueue snapshot")
    (deserializeRecoveryEnqueueSnapshot source.enqueueRequest)
  let stepsByKey ← snapshot.steps.foldlM insertRecoveryStep []
  let stepsByKey ← (db.workflow.mutations.select fun mutation =>
    mutation.workflowRunId = source.id).foldlM insertRecoveryAppend stepsByKey
  let sourceStepStateByKey ← loadRecoverySourceStepState db source.id
  let steps ← pairRecoverySteps stepsByKey sourceStepStateByKey
  return { workflowType := source.workflowType, organizationId := source.organizationId,
           metadata := snapshot.metadata, activeKey := snapshot.activeKey,
           resultStepKey := snapshot.resultStepKey, steps }

/-- What a validated step needs to be built. -/
inductive ValidatedRecoveryStepKind
  | job (jobType : String) (priority maxAttempts timeoutSeconds : ℤ)
  | external
  deriving DecidableEq

/-- A step that agrees with its row. -/
structure ValidatedRecoveryStep where
  stepKey : String
  payload : Json
  organizationId : Option ℕ
  stage : Option JobStage
  allowHandlerContinuation : Bool
  executionResourceKey : Option String
  dependencies : List WorkflowStepDependencySpec
  kind : ValidatedRecoveryStepKind
  deriving DecidableEq

section

variable (step : CanonicalWorkflowStep)

def resolvedSourceStepSetting (field : String)
    (requestedValue sourceValue : Option ℤ) : Except Error ℤ := do
  let stepKey := step.stepKey
  let sourceValue ← require
    (unsafeRecoverySnapshotError s!"source job step {stepKey} is missing resolved {field}")
    sourceValue
  rejectIf (requestedValue.any (· ≠ sourceValue)) (unsafeRecoverySnapshotError
    s!"reconstructed step {stepKey} {field} does not match the source run")
  return sourceValue

def validateRecoveryStepKind (sourceState : StepRow)
    (executionKind : WorkflowStepExecutionKind) : Except Error ValidatedRecoveryStepKind :=
  let stepKey := step.stepKey
  match executionKind with
  | .job => do
    let priority ← resolvedSourceStepSetting step "priority" step.priority sourceState.priority
    let maxAttempts ← resolvedSourceStepSetting step "max_attempts" step.maxAttempts
      sourceState.maxAttempts
    let timeoutSeconds ← resolvedSourceStepSetting step "timeout_seconds" step.timeoutSeconds
      sourceState.timeoutSeconds
    let jobType ← require
      (unsafeRecoverySnapshotError s!"job type missing for step {stepKey}") step.jobType
    return .job jobType priority maxAttempts timeoutSeconds
  | .external => do
    rejectIf (step.priority.isSome || step.maxAttempts.isSome || step.timeoutSeconds.isSome ||
        sourceState.priority.isSome || sourceState.maxAttempts.isSome ||
        sourceState.timeoutSeconds.isSome)
      (unsafeRecoverySnapshotError s!"external step {stepKey} contains job queue settings")
    return .external

/-- The stage of a canonical step. -/
def validateRecoveryStage : Except Error (Option JobStage) :=
  let stepKey := step.stepKey
  match step.stage with
  | none => .ok none
  | some rawStage => do
    let stage ← require (unsafeRecoverySnapshotError s!"unknown stage for step {stepKey}")
      (JobStage.fromDbValue rawStage)
    return some stage

end

/-- The release mode of a canonical dependency. -/
def validateRecoveryDependency (stepKey : String) (dependency : CanonicalWorkflowDependency) :
    Except Error WorkflowStepDependencySpec := do
  let releaseMode ← require
    (unsafeRecoverySnapshotError s!"unknown release mode for step {stepKey}")
    (WorkflowDependencyReleaseMode.fromDbValue dependency.releaseMode)
  return ⟨dependency.prerequisiteStepKey, some releaseMode⟩

def validateRecoveryStep (recoveryStep : RecoveryStep) : Except Error ValidatedRecoveryStep := do
  let step := recoveryStep.canonical
  let sourceState := recoveryStep.sourceState
  let stepKey := step.stepKey
  let executionKind ← require
    (unsafeRecoverySnapshotError s!"unknown execution kind for step {stepKey}")
    (WorkflowStepExecutionKind.fromDbValue step.executionKind)
  rejectIf (sourceState.executionKind ≠ executionKind) (unsafeRecoverySnapshotError
    s!"reconstructed step {stepKey} execution kind does not match the source run")
  rejectIf (sourceState.allowHandlerContinuation != step.allowHandlerContinuation)
    (unsafeRecoverySnapshotError
      s!"reconstructed step {stepKey} handler continuation setting does not match the source run")
  rejectIf (sourceState.executionResourceKey ≠ step.executionResourceKey)
    (unsafeRecoverySnapshotError
      s!"reconstructed step {stepKey} execution resource does not match the source run")
  let kind ← validateRecoveryStepKind step sourceState executionKind
  let stage ← validateRecoveryStage step
  let dependencies ← step.dependencies.mapM (validateRecoveryDependency stepKey)
  return { stepKey, payload := sourceState.payload, organizationId := step.organizationId, stage,
           allowHandlerContinuation := step.allowHandlerContinuation,
           executionResourceKey := step.executionResourceKey, dependencies, kind }

/-- The builder of a recovered step, before its optional fields are set. -/
def ValidatedRecoveryStep.baseBuilder (step : ValidatedRecoveryStep) : WorkflowStepEnqueueBuilder :=
  match step.kind with
  | .job jobType priority maxAttempts timeoutSeconds =>
    { WorkflowStepEnqueueBuilder.new step.stepKey jobType step.payload with
      priority := some priority
      maxAttempts := some maxAttempts
      timeoutSeconds := some timeoutSeconds }
  | .external => .newExternal step.stepKey step.payload

def buildRecoveryStepEnqueue (step : ValidatedRecoveryStep) : Except Error WorkflowStepEnqueue :=
  let builder := step.baseBuilder
  let builder := { builder with
    organizationId := step.organizationId.or builder.organizationId
    stage := step.stage.or builder.stage
    allowHandlerContinuation := step.allowHandlerContinuation || builder.allowHandlerContinuation
    executionResourceKey := step.executionResourceKey.or builder.executionResourceKey
    dependencies := builder.dependencies ++ step.dependencies }
  builder.tryBuild.mapError fun error => unsafeRecoverySnapshotError error.display

/-- The step that repeats a step of the source. -/
def recoverStep (recoveryStep : RecoveryStep) : Except Error WorkflowStepEnqueue := do
  let validatedStep ← validateRecoveryStep recoveryStep
  buildRecoveryStepEnqueue validatedStep

def RecoveryBlueprint.buildEnqueue (blueprint : RecoveryBlueprint) :
    Except Error WorkflowRunEnqueue := do
  let steps ← blueprint.steps.mapM recoverStep
  let workflow : WorkflowRunEnqueue := {
    workflowType := blueprint.workflowType
    organizationId := blueprint.organizationId
    metadata := blueprint.metadata
    idempotencyKey := none
    activeKey := blueprint.activeKey
    resultStepKey := blueprint.resultStepKey
    steps := steps }
  workflow.tryBuild.mapError fun error => unsafeRecoverySnapshotError error.display

/-- The payload that repeats a run. -/
def rebuildWorkflow (db : Database) (source : RunRow) : Except Error WorkflowRunEnqueue := do
  let blueprint ← loadRecoveryBlueprint db source
  blueprint.buildEnqueue

section Recover

def validateRecoveryRequest (request : WorkflowRecoveryRequest) : Except Error Unit := do
  rejectIf (isBlank request.requestKey || 512 < request.requestKey.utf8ByteSize)
    (recoveryValidationError "workflow.invalid_recovery_request_key"
      "Workflow recovery request key must be non-blank and at most 512 bytes.")
  rejectIf (isBlank request.reason)
    (recoveryValidationError "workflow.invalid_recovery_reason"
      "Workflow recovery reason must be non-blank.")

def lockRecoverySource (db : Database) (request : WorkflowRecoveryRequest) : Except Error RunRow :=
  require (recoverySourceNotFoundError request.sourceRunId)
    ((db.workflow.runs.get? request.sourceRunId).filter
      fun run => run.organizationId = request.organizationId)

def validateExistingRecovery (request : WorkflowRecoveryRequest) (existing : RecoveryRow) :
    Except Error Unit :=
  rejectIf (existing.sourceStepId ≠ request.sourceStepId ||
    existing.mode ≠ request.mode.asDbValue || existing.reason ≠ request.reason)
    recoveryRequestConflictError

/-- `ensure_source_step_belongs_to_run_tx`, for a request that names a step. -/
def ensureSourceStepBelongsToRun (db : Database) (request : WorkflowRecoveryRequest) :
    Except Error Unit :=
  request.sourceStepId.forM fun sourceStepId =>
    rejectIf (!(db.workflow.stepsOf request.sourceRunId).any fun row => row.id = sourceStepId)
      (recoverySourceStepNotFoundError sourceStepId)

/-- The database with other rows in `workflow_recoveries`. -/
def Database.withRecoveries (db : Database) (recoveries : Table RecoveryRow.key) : Database :=
  { db with workflow := { db.workflow with recoveries } }

def insertRecoveryLineage (db : Database) (recoveryRunId : ℕ) (request : WorkflowRecoveryRequest) :
    Except Error Database := do
  let violates := fun name => Error.statement "insert workflow recovery lineage" (.constraint name)
  rejectIf (recoveryRunId = request.sourceRunId) (violates "chk_workflow_recoveries_distinct_runs")
  rejectIf (!(db.workflow.recoveries.select fun row => row.recoveryRunId = recoveryRunId).isEmpty)
    (violates "workflow_recoveries_pkey")
  let recoveries ← require (violates "uq_workflow_recoveries_source_request")
    (db.workflow.recoveries.insert? ⟨recoveryRunId, request.sourceRunId, request.sourceStepId,
      request.requestKey, request.mode.asDbValue, request.reason⟩)
  return db.withRecoveries recoveries

variable [UuidSource]

def RecoveryBlueprint.enqueue (blueprint : RecoveryBlueprint) (db : Database) :
    Except Error (ℕ × Database) := do
  let enqueue ← blueprint.buildEnqueue
  if blueprint.activeKey.isSome then
    match ← enqueueOrGetActiveWorkflow db enqueue with
    | (.inserted runId, db) => return (runId, db)
    | (.existingActive runId, _) => throw (recoveryActiveConstraintError runId)
    | (.existingIdempotent _, _) => throw (unsafeRecoverySnapshotError
        "recovery enqueue unexpectedly matched an idempotency key")
  else
    match ← enqueueWorkflowRun db enqueue with
    | (.inserted runId, db) => return (runId, db)
    | (.existingActive runId, db) => return (runId, db)
    | (.existingIdempotent runId, db) => return (runId, db)

/-- Repeats a terminal source as a new run. -/
def startRecovery (db : Database) (source : RunRow) (request : WorkflowRecoveryRequest) :
    Except Error (WorkflowRecoveryOutcome × Database) := do
  rejectIf (!source.status.isTerminal)
    (recoverySourceNotTerminalError request.sourceRunId source.status)
  ensureSourceStepBelongsToRun db request
  let blueprint ← loadRecoveryBlueprint db source
  let (runId, db) ← blueprint.enqueue db
  let db ← insertRecoveryLineage db runId request
  return (⟨runId, .inserted⟩, db)

def recoverWorkflowRun (db : Database) (request : WorkflowRecoveryRequest) :
    Except Error (WorkflowRecoveryOutcome × Database) := do
  validateRecoveryRequest request
  let source ← lockRecoverySource db request
  match db.workflow.recoveries.get? (request.sourceRunId, request.requestKey) with
  | some existing =>
    validateExistingRecovery request existing
    return (⟨existing.recoveryRunId, .existing⟩, db)
  | none => startRecovery db source request

end Recover

end Batter.Runledger.Postgres
