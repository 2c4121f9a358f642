import Batter.Library.Fallible
import Batter.Library.Json
import Batter.Runledger.Core.Status

/-!
# Workflow enqueue payloads

A workflow is enqueued as a list of steps.  A step is a queued job with optional
settings or an external gate, and it names the steps it waits for.

`validateStepShape` checks the fields of one step, `validateStepDependencies` the
prerequisites it names.  Both are characterised: `validateStepShape_eq_ok_iff`
and `validateStepDependencies_eq_ok_iff` say which steps pass.  The builder's
`tryBuild` accepts exactly those and returns the step it was given.
-/

namespace Batter.Runledger

open RustStd List

/-- Characters with the Unicode property `White_Space`. -/
def isWhitespace (c : Char) : Bool :=
  (0x09 ≤ c.val && c.val ≤ 0x0D) || c.val == 0x20 || c.val == 0x85 || c.val == 0xA0 ||
    c.val == 0x1680 || (0x2000 ≤ c.val && c.val ≤ 0x200A) || c.val == 0x2028 ||
    c.val == 0x2029 || c.val == 0x202F || c.val == 0x205F || c.val == 0x3000

/-- `value.trim().is_empty()`. -/
def isBlank (value : String) : Bool :=
  value.toList.all isWhitespace

/-- A prerequisite of a step. -/
structure WorkflowStepDependencySpec where
  prerequisiteStepKey : String
  releaseMode : Option WorkflowDependencyReleaseMode
  deriving DecidableEq

/-- The release mode, `onTerminal` when none is given. -/
def WorkflowStepDependencySpec.effectiveReleaseMode (dependency : WorkflowStepDependencySpec) :
    WorkflowDependencyReleaseMode :=
  dependency.releaseMode.getD .onTerminal

/-- Settings of a step that is executed as a queued job. -/
structure WorkflowJobStepExecution where
  jobType : String
  priority : Option ℤ
  maxAttempts : Option ℤ
  timeoutSeconds : Option ℤ
  stage : Option JobStage
  allowHandlerContinuation : Bool
  executionResourceKey : Option String
  deriving DecidableEq

/-- How a step is executed. -/
inductive WorkflowStepExecution
  | job (execution : WorkflowJobStepExecution)
  | external
  deriving DecidableEq

/-- One step of a workflow payload. -/
structure WorkflowStepEnqueue where
  stepKey : String
  execution : WorkflowStepExecution
  organizationId : Option ℕ
  payload : Json
  dependencies : List WorkflowStepDependencySpec
  deriving DecidableEq

/-- A workflow payload. -/
structure WorkflowRunEnqueue where
  workflowType : String
  organizationId : Option ℕ
  metadata : Json
  idempotencyKey : Option String
  activeKey : Option String
  resultStepKey : Option String
  steps : List WorkflowStepEnqueue
  deriving DecidableEq

namespace WorkflowStepEnqueue

def executionKind (step : WorkflowStepEnqueue) : WorkflowStepExecutionKind :=
  match step.execution with
  | .job _ => .job
  | .external => .external

/-- A setting of the job, absent for an external step. -/
def jobSetting {α : Type} (step : WorkflowStepEnqueue)
    (setting : WorkflowJobStepExecution → Option α) : Option α :=
  match step.execution with
  | .job execution => setting execution
  | .external => none

def jobType (step : WorkflowStepEnqueue) : Option String :=
  step.jobSetting fun execution => some execution.jobType

/-- The priority override. -/
def priority (step : WorkflowStepEnqueue) : Option ℤ :=
  step.jobSetting WorkflowJobStepExecution.priority

/-- The override of the number of attempts. -/
def maxAttempts (step : WorkflowStepEnqueue) : Option ℤ :=
  step.jobSetting WorkflowJobStepExecution.maxAttempts

/-- The timeout override. -/
def timeoutSeconds (step : WorkflowStepEnqueue) : Option ℤ :=
  step.jobSetting WorkflowJobStepExecution.timeoutSeconds

/-- The first stage of the job. -/
def stage (step : WorkflowStepEnqueue) : Option JobStage :=
  step.jobSetting WorkflowJobStepExecution.stage

/-- Whether the handler may continue in another run of the job. -/
def allowsHandlerContinuation (step : WorkflowStepEnqueue) : Bool :=
  match step.execution with
  | .job execution => execution.allowHandlerContinuation
  | .external => false

/-- The resource owned while the job is leased. -/
def executionResourceKey (step : WorkflowStepEnqueue) : Option String :=
  step.jobSetting WorkflowJobStepExecution.executionResourceKey

end WorkflowStepEnqueue

/-- What is wrong with a single step. -/
inductive WorkflowStepValidationError
  | blankStepKey
  | blankStepJobType (stepKey : String)
  | nonPositiveStepMaxAttempts (stepKey : String) (maxAttempts : ℤ)
  | nonPositiveStepTimeoutSeconds (stepKey : String) (timeoutSeconds : ℤ)
  | invalidStepExecutionResourceKey (stepKey : String)
  | externalStepJobTypeNotAllowed (stepKey : String)
  | externalStepQueueSettingsNotAllowed (stepKey : String)
  | blankDependencyStepKey (stepKey : String)
  | duplicateDependency (stepKey prerequisiteStepKey : String)
  | selfDependency (stepKey : String)
  deriving DecidableEq

/-- The fields of a step that are checked one by one. -/
structure WorkflowStepShapeValidationInput where
  stepKey : String
  executionKind : WorkflowStepExecutionKind
  jobType : Option String
  priority : Option ℤ
  maxAttempts : Option ℤ
  timeoutSeconds : Option ℤ
  stage : Option JobStage
  allowHandlerContinuation : Bool
  executionResourceKey : Option String

/-- The checked fields of a step of a payload. -/
def WorkflowStepEnqueue.shape (step : WorkflowStepEnqueue) : WorkflowStepShapeValidationInput where
  stepKey := step.stepKey
  executionKind := step.executionKind
  jobType := step.jobType
  priority := step.priority
  maxAttempts := step.maxAttempts
  timeoutSeconds := step.timeoutSeconds
  stage := step.stage
  allowHandlerContinuation := step.allowsHandlerContinuation
  executionResourceKey := step.executionResourceKey

variable (step : WorkflowStepShapeValidationInput)

/-- Checks the fields of one step. -/
def validateStepShape : Except WorkflowStepValidationError Unit := do
  rejectIf (isBlank step.stepKey) .blankStepKey
  match step.executionKind with
  | .job =>
    let jobType ← require (.blankStepJobType step.stepKey) step.jobType
    rejectIf (isBlank jobType) (.blankStepJobType step.stepKey)
    step.maxAttempts.forM fun maxAttempts =>
      rejectIf (maxAttempts ≤ 0) (.nonPositiveStepMaxAttempts step.stepKey maxAttempts)
    step.timeoutSeconds.forM fun timeoutSeconds =>
      rejectIf (timeoutSeconds ≤ 0) (.nonPositiveStepTimeoutSeconds step.stepKey timeoutSeconds)
    step.executionResourceKey.forM fun resourceKey =>
      rejectIf (isBlank resourceKey || 512 < resourceKey.utf8ByteSize)
        (.invalidStepExecutionResourceKey step.stepKey)
  | .external =>
    rejectIf step.jobType.isSome (.externalStepJobTypeNotAllowed step.stepKey)
    rejectIf (step.priority.isSome || step.maxAttempts.isSome || step.timeoutSeconds.isSome ||
        step.stage.isSome || step.allowHandlerContinuation ||
        step.executionResourceKey.isSome)
      (.externalStepQueueSettingsNotAllowed step.stepKey)

/-- Checks one prerequisite against those already seen, and adds it to them. -/
def validateStepDependencyShape (stepKey prerequisiteStepKey : String) (seen : List String) :
    Except WorkflowStepValidationError (List String) := do
  rejectIf (isBlank prerequisiteStepKey) (.blankDependencyStepKey stepKey)
  rejectIf (prerequisiteStepKey = stepKey) (.selfDependency stepKey)
  rejectIf (prerequisiteStepKey ∈ seen) (.duplicateDependency stepKey prerequisiteStepKey)
  return seen ++ [prerequisiteStepKey]

/-- Checks the prerequisites of a step. -/
def validateStepDependencies (stepKey : String)
    (dependencies : List WorkflowStepDependencySpec) : Except WorkflowStepValidationError Unit := do
  let _ ← dependencies.foldlM
    (fun seen dependency =>
      validateStepDependencyShape stepKey dependency.prerequisiteStepKey seen) []

/-- Checks a step on its own. -/
def validateStepEnqueue (step : WorkflowStepEnqueue) : Except WorkflowStepValidationError Unit := do
  validateStepShape step.shape
  validateStepDependencies step.stepKey step.dependencies

/-- A resource key that is not blank and has at most 512 bytes. -/
def ValidResourceKey (resourceKey : String) : Prop :=
  isBlank resourceKey = false ∧ resourceKey.utf8ByteSize ≤ 512

/-- The fields that pass the shape check. -/
structure ValidShape (step : WorkflowStepShapeValidationInput) : Prop where
  stepKey : isBlank step.stepKey = false
  job : step.executionKind = .job →
    (∃ jobType, step.jobType = some jobType ∧ isBlank jobType = false) ∧
      (∀ maxAttempts, step.maxAttempts = some maxAttempts → 0 < maxAttempts) ∧
      (∀ timeoutSeconds, step.timeoutSeconds = some timeoutSeconds → 0 < timeoutSeconds) ∧
      ∀ resourceKey, step.executionResourceKey = some resourceKey → ValidResourceKey resourceKey
  external : step.executionKind = .external →
    step.jobType = none ∧ step.priority = none ∧ step.maxAttempts = none ∧
      step.timeoutSeconds = none ∧ step.stage = none ∧
      step.allowHandlerContinuation = false ∧ step.executionResourceKey = none

theorem forM_eq_ok {ε α : Type} {value : Option α} {f : α → Except ε Unit} :
    value.forM f = .ok () ↔ ∀ a, value = some a → f a = .ok () := by
  cases value <;> simp [Option.forM]

/-- The shape check passes exactly the valid shapes. -/
theorem validateStepShape_eq_ok_iff : validateStepShape step = .ok () ↔ ValidShape step := by
  cases hkind : step.executionKind with
  | job =>
    simp only [validateStepShape, hkind, bind_eq_ok, exists_unit, rejectIf_eq_ok, require_eq_ok,
      exists_and_left, forM_eq_ok, decide_eq_false_iff_not, not_le, Bool.or_eq_false_iff, not_lt]
    constructor
    · rintro ⟨hkey, jobType, htype, hblank, hatts, htimeout, hres⟩
      exact ⟨hkey, fun _ => ⟨⟨jobType, htype, hblank⟩, hatts, htimeout, hres⟩,
        fun h => by rw [hkind] at h; cases h⟩
    · intro h
      obtain ⟨⟨jobType, htype, hblank⟩, hatts, htimeout, hres⟩ := h.job hkind
      exact ⟨h.stepKey, jobType, htype, hblank, hatts, htimeout, hres⟩
  | external =>
    simp only [validateStepShape, hkind, bind_eq_ok, exists_unit, rejectIf_eq_ok,
      Bool.or_eq_false_iff, Option.isSome_eq_false_iff, Option.isNone_iff_eq_none]
    constructor
    · rintro ⟨hkey, htype, ⟨⟨⟨⟨hprio, hatts⟩, htimeout⟩, hstage⟩, hcontinue⟩, hres⟩
      exact ⟨hkey, fun h => (by rw [hkind] at h; cases h),
        fun _ => ⟨htype, hprio, hatts, htimeout, hstage, hcontinue, hres⟩⟩
    · intro h
      obtain ⟨htype, hprio, hatts, htimeout, hstage, hcontinue, hres⟩ := h.external hkind
      exact ⟨h.stepKey, htype, ⟨⟨⟨⟨hprio, hatts⟩, htimeout⟩, hstage⟩, hcontinue⟩, hres⟩

/-- The keys that a list of dependencies names. -/
def prerequisiteKeys (dependencies : List WorkflowStepDependencySpec) : List String :=
  dependencies.map WorkflowStepDependencySpec.prerequisiteStepKey

/-- Prerequisites that are not blank, not the step itself, and not repeated. -/
structure ValidPrerequisites (stepKey : String) (keys : List String) : Prop where
  notBlank : ∀ key ∈ keys, isBlank key = false
  notSelf : stepKey ∉ keys
  nodup : keys.Nodup

variable {stepKey key : String} {seen seen' : List String}
variable {dependencies : List WorkflowStepDependencySpec}

theorem validPrerequisites_iff {keys : List String} : ValidPrerequisites stepKey keys ↔
    (∀ key ∈ keys, isBlank key = false ∧ key ≠ stepKey) ∧ keys.Nodup := by
  constructor
  · intro h
    exact ⟨fun key hkey => ⟨h.notBlank key hkey, fun heq => h.notSelf (heq ▸ hkey)⟩, h.nodup⟩
  · rintro ⟨h, hnodup⟩
    exact ⟨fun key hkey => (h key hkey).1, fun hself => (h _ hself).2 rfl, hnodup⟩

theorem validateStepDependencyShape_eq_ok :
    validateStepDependencyShape stepKey key seen = .ok seen' ↔
      isBlank key = false ∧ key ≠ stepKey ∧ key ∉ seen ∧ seen ++ [key] = seen' := by
  simp only [validateStepDependencyShape, bind_eq_ok, exists_unit, rejectIf_eq_ok,
    decide_eq_false_iff_not, pure_eq_ok, ne_eq]

/-- The prerequisites that pass the check. -/
theorem validateStepDependencies_eq_ok_iff :
    validateStepDependencies stepKey dependencies = .ok () ↔
      ValidPrerequisites stepKey (prerequisiteKeys dependencies) := by
  have hshape := fun seen (dep : WorkflowStepDependencySpec) seen' =>
    (@validateStepDependencyShape_eq_ok stepKey dep.prerequisiteStepKey seen seen').trans
      and_assoc.symm
  rw [validPrerequisites_iff, prerequisiteKeys, forall_mem_map]
  simp only [validateStepDependencies, bind_eq_ok, foldlM_distinct_keys _ hshape]
  exact ⟨fun ⟨_, ⟨h, hnodup, _⟩, _⟩ => ⟨h, hnodup⟩, fun ⟨h, hnodup⟩ => ⟨_, ⟨h, hnodup, rfl⟩, rfl⟩⟩

theorem validateStepEnqueue_eq_ok_iff {step : WorkflowStepEnqueue} :
    validateStepEnqueue step = .ok () ↔
      ValidShape step.shape ∧
        ValidPrerequisites step.stepKey (prerequisiteKeys step.dependencies) := by
  simp only [validateStepEnqueue, bind_eq_ok, exists_unit, validateStepShape_eq_ok_iff,
    validateStepDependencies_eq_ok_iff]

end Batter.Runledger
