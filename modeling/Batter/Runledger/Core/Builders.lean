import Batter.Runledger.Core.DagValidation

/-!
# Builders of workflow payloads

A builder collects the fields of a step or of a run and validates them when it is
asked for the payload.  Valid fields come out as they went in.
-/

namespace Batter.Runledger

open RustStd

/-- Why a builder does not give a payload. -/
inductive WorkflowBuildError
  | blankWorkflowType
  | emptySteps
  | blankStepKey (stepIndex : Option ℕ)
  | blankStepJobType (stepKey : String)
  | blankIdempotencyKey
  | blankActiveKey
  | activeKeyTooLong
  | blankResultStepKey
  | unknownResultStepKey (stepKey : String)
  | nonPositiveStepMaxAttempts (stepKey : String) (maxAttempts : ℤ)
  | nonPositiveStepTimeoutSeconds (stepKey : String) (timeoutSeconds : ℤ)
  | invalidStepExecutionResourceKey (stepKey : String)
  | externalStepJobTypeNotAllowed (stepKey : String)
  | externalStepQueueSettingsNotAllowed (stepKey : String)
  | blankDependencyStepKey (stepKey : String)
  | duplicateStepKey (stepKey : String)
  | missingDependency (stepKey prerequisiteStepKey : String)
  | duplicateDependency (stepKey prerequisiteStepKey : String)
  | selfDependency (stepKey : String)
  | cycleDetected
  deriving DecidableEq

namespace WorkflowBuildError

/-- The error of a workflow graph. -/
def fromDagValidationError : WorkflowDagValidationError → WorkflowBuildError
  | .emptySteps => .emptySteps
  | .blankWorkflowType => .blankWorkflowType
  | .blankStepKey stepIndex => .blankStepKey (some stepIndex)
  | .blankStepJobType stepKey => .blankStepJobType stepKey
  | .blankIdempotencyKey => .blankIdempotencyKey
  | .blankActiveKey => .blankActiveKey
  | .activeKeyTooLong => .activeKeyTooLong
  | .blankResultStepKey => .blankResultStepKey
  | .unknownResultStepKey stepKey => .unknownResultStepKey stepKey
  | .nonPositiveStepMaxAttempts stepKey maxAttempts =>
    .nonPositiveStepMaxAttempts stepKey maxAttempts
  | .nonPositiveStepTimeoutSeconds stepKey timeoutSeconds =>
    .nonPositiveStepTimeoutSeconds stepKey timeoutSeconds
  | .invalidStepExecutionResourceKey stepKey => .invalidStepExecutionResourceKey stepKey
  | .externalStepJobTypeNotAllowed stepKey => .externalStepJobTypeNotAllowed stepKey
  | .externalStepQueueSettingsNotAllowed stepKey => .externalStepQueueSettingsNotAllowed stepKey
  | .blankDependencyStepKey stepKey => .blankDependencyStepKey stepKey
  | .duplicateStepKey stepKey => .duplicateStepKey stepKey
  | .missingDependency stepKey prerequisiteStepKey =>
    .missingDependency stepKey prerequisiteStepKey
  | .selfDependency stepKey => .selfDependency stepKey
  | .duplicateDependency stepKey prerequisiteStepKey =>
    .duplicateDependency stepKey prerequisiteStepKey
  | .cycleDetected => .cycleDetected

/-- The error of a single step; only the key of a step without a place has another name. -/
def fromStepValidationError : WorkflowStepValidationError → WorkflowBuildError
  | .blankStepKey => .blankStepKey none
  | error => fromDagValidationError (.fromStepValidationError 0 error)

/-- The text of the error. -/
def display : WorkflowBuildError → String
  | blankWorkflowType => "workflow_type must be non-empty"
  | emptySteps => "workflow must include at least one step"
  | blankStepKey (some stepIndex) => s!"step key at index {stepIndex} must be non-empty"
  | blankStepKey none => "step key must be non-empty"
  | blankStepJobType stepKey => s!"job_type for step '{stepKey}' must be non-empty"
  | blankIdempotencyKey => "idempotency_key must be non-empty"
  | blankActiveKey => "active_key must be non-empty"
  | activeKeyTooLong => "active_key must be at most 512 bytes"
  | blankResultStepKey => "result_step_key must be non-empty"
  | unknownResultStepKey stepKey => s!"result step '{stepKey}' must exist in the workflow"
  | nonPositiveStepMaxAttempts stepKey maxAttempts =>
    s!"max_attempts for step '{stepKey}' must be positive; got {maxAttempts}"
  | nonPositiveStepTimeoutSeconds stepKey timeoutSeconds =>
    s!"timeout_seconds for step '{stepKey}' must be positive; got {timeoutSeconds}"
  | invalidStepExecutionResourceKey stepKey =>
    s!"execution_resource_key for step '{stepKey}' must be non-blank and at most 512 bytes"
  | externalStepJobTypeNotAllowed stepKey =>
    s!"external step '{stepKey}' cannot define a job_type"
  | externalStepQueueSettingsNotAllowed stepKey =>
    s!"external step '{stepKey}' cannot define queue settings"
  | blankDependencyStepKey stepKey =>
    s!"dependency prerequisite step key for step '{stepKey}' must be non-empty"
  | duplicateStepKey stepKey => s!"duplicate step key '{stepKey}'"
  | missingDependency stepKey prerequisiteStepKey =>
    s!"step '{stepKey}' references missing prerequisite step '{prerequisiteStepKey}'"
  | duplicateDependency stepKey prerequisiteStepKey =>
    s!"step '{stepKey}' has duplicate dependency on '{prerequisiteStepKey}'"
  | selfDependency stepKey => s!"step '{stepKey}' cannot depend on itself"
  | cycleDetected => "workflow contains at least one dependency cycle"

end WorkflowBuildError

/-- The fields of a step that is being built. -/
structure WorkflowStepEnqueueBuilder where
  stepKey : String
  executionKind : WorkflowStepExecutionKind
  jobType : Option String
  organizationId : Option ℕ
  payload : Json
  priority : Option ℤ
  maxAttempts : Option ℤ
  timeoutSeconds : Option ℤ
  stage : Option JobStage
  allowHandlerContinuation : Bool
  executionResourceKey : Option String
  dependencies : List WorkflowStepDependencySpec
  deriving DecidableEq

namespace WorkflowStepEnqueueBuilder

/-- A step that is executed as a queued job. -/
def new (stepKey jobType : String) (payload : Json) : WorkflowStepEnqueueBuilder where
  stepKey := stepKey
  executionKind := .job
  jobType := some jobType
  organizationId := none
  payload := payload
  priority := none
  maxAttempts := none
  timeoutSeconds := none
  stage := some .queued
  allowHandlerContinuation := false
  executionResourceKey := none
  dependencies := []

/-- A step that is completed from outside. -/
def newExternal (stepKey : String) (payload : Json) : WorkflowStepEnqueueBuilder where
  stepKey := stepKey
  executionKind := .external
  jobType := none
  organizationId := none
  payload := payload
  priority := none
  maxAttempts := none
  timeoutSeconds := none
  stage := none
  allowHandlerContinuation := false
  executionResourceKey := none
  dependencies := []

variable (builder : WorkflowStepEnqueueBuilder)

/-- The fields that are checked one by one. -/
def shape : WorkflowStepShapeValidationInput where
  stepKey := builder.stepKey
  executionKind := builder.executionKind
  jobType := builder.jobType
  priority := builder.priority
  maxAttempts := builder.maxAttempts
  timeoutSeconds := builder.timeoutSeconds
  stage := builder.stage
  allowHandlerContinuation := builder.allowHandlerContinuation
  executionResourceKey := builder.executionResourceKey

/-- `validate_step_enqueue_input`. -/
def validate : Except WorkflowStepValidationError Unit := do
  validateStepShape builder.shape
  validateStepDependencies builder.stepKey builder.dependencies

/-- The execution of the built step. -/
def execution : Except WorkflowBuildError WorkflowStepExecution :=
  match builder.executionKind with
  | .job => do
    let jobType ← require (.blankStepJobType builder.stepKey) builder.jobType
    return .job ⟨jobType, builder.priority, builder.maxAttempts, builder.timeoutSeconds,
      builder.stage, builder.allowHandlerContinuation, builder.executionResourceKey⟩
  | .external => return .external

/-- Validates the fields and gives the step. -/
def tryBuild : Except WorkflowBuildError WorkflowStepEnqueue := do
  builder.validate.mapError .fromStepValidationError
  let execution ← builder.execution
  return { stepKey := builder.stepKey, execution, organizationId := builder.organizationId,
           payload := builder.payload, dependencies := builder.dependencies }

/-- A builder with valid fields gives a step with these fields. -/
theorem tryBuild_eq_ok {builder : WorkflowStepEnqueueBuilder} {execution : WorkflowStepExecution}
    (hshape : ValidShape builder.shape)
    (hpres : ValidPrerequisites builder.stepKey (prerequisiteKeys builder.dependencies))
    (hexec : builder.execution = .ok execution) :
    builder.tryBuild = .ok
      { stepKey := builder.stepKey, execution, organizationId := builder.organizationId,
        payload := builder.payload, dependencies := builder.dependencies } := by
  have hvalid : builder.validate = .ok () := by
    simp only [validate, bind_eq_ok, exists_unit, validateStepShape_eq_ok_iff,
      validateStepDependencies_eq_ok_iff]
    exact ⟨hshape, hpres⟩
  simp only [tryBuild, bind_eq_ok, exists_unit, mapError_eq_ok, pure_eq_ok]
  exact ⟨hvalid, execution, hexec, rfl⟩

end WorkflowStepEnqueueBuilder

/-- `WorkflowRunEnqueueBuilder::try_build`, for a run with all its fields set. -/
def WorkflowRunEnqueue.tryBuild (workflow : WorkflowRunEnqueue) :
    Except WorkflowBuildError WorkflowRunEnqueue := do
  (validateWorkflowRunEnqueue workflow).mapError .fromDagValidationError
  return workflow

/-- Accepted payloads are built. -/
theorem WorkflowRunEnqueue.tryBuild_eq_ok {workflow : WorkflowRunEnqueue}
    (h : AcceptedRun workflow) : workflow.tryBuild = .ok workflow := by
  simp only [tryBuild, bind_eq_ok, exists_unit, mapError_eq_ok,
    validateWorkflowRunEnqueue_eq_ok_iff, pure_eq_ok, and_true]
  exact h

end Batter.Runledger
