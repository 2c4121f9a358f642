import Mathlib

/-!
# Statuses of jobs, workflow runs and workflow steps

The closed vocabularies of the queue and of the workflow tables.  A job that
leaves `pending` and `leased` is settled; a run or a step in a terminal status
never leaves it.
-/

namespace Batter.Runledger

/-- Where a job handler is in its work. -/
inductive JobStage
  | queued
  | scheduled
  | running
  | completed
  deriving DecidableEq

/-- Queue status of a job. -/
inductive JobStatus
  | pending
  | leased
  | succeeded
  | deadLettered
  | canceled
  deriving DecidableEq

/-- Why a job attempt failed. -/
inductive JobFailureKind
  | retryable
  | terminal
  | timeout
  | leaseExpired
  | panicked
  deriving DecidableEq

/-- Whether a failure of this kind may be tried again. -/
def JobFailureKind.isRetryable : JobFailureKind → Bool
  | .retryable | .timeout | .leaseExpired => true
  | .terminal | .panicked => false

/-- Status of a workflow run. -/
inductive WorkflowRunStatus
  | running
  | waitingForExternal
  | succeeded
  | completedWithErrors
  | canceled
  deriving DecidableEq

/-- Whether the run has ended. -/
def WorkflowRunStatus.isTerminal : WorkflowRunStatus → Bool
  | .succeeded | .completedWithErrors | .canceled => true
  | .running | .waitingForExternal => false

/-- Status of a workflow step. -/
inductive WorkflowStepStatus
  | blocked
  | enqueued
  | running
  | waitingForExternal
  | succeeded
  | failed
  | canceled
  deriving DecidableEq

/-- Whether the step has ended. -/
def WorkflowStepStatus.isTerminal : WorkflowStepStatus → Bool
  | .succeeded | .failed | .canceled => true
  | .blocked | .enqueued | .running | .waitingForExternal => false

/-- Whether a step is executed as a queued job or completed from outside. -/
inductive WorkflowStepExecutionKind
  | job
  | external
  deriving DecidableEq

/-- When a dependency lets its dependent go. -/
inductive WorkflowDependencyReleaseMode
  | onTerminal
  | onSuccess
  deriving DecidableEq

end Batter.Runledger
