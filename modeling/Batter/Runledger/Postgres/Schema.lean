import Batter.Library.Table
import Batter.Runledger.Core.DagValidation

/-!
# Tables of the durable queue

The rows of the queue and of the workflow tables with the columns that decide
anything; audit timestamps and notifications are left out.  Identifiers are
numbers drawn from an injective supply, in no particular order.  Times are
readings of the database clock in microseconds, and one transaction reads it
once.

`QueueTables` holds jobs, their attempts, the execution-resource claims and the
log of job events, `WorkflowTables` everything about workflow runs.
-/

namespace Batter.Runledger.Postgres

/-- The category of a classified query error. -/
inductive QueryErrorCategory
  | conflict
  | validation
  | forbidden
  | internal
  deriving DecidableEq

/-- Why a statement failed. -/
inductive SqlxError
  | rowNotFound
  | constraint (name : String)
  | outOfRange (column : String)
  deriving DecidableEq

/-- Why a transaction was rolled back; `unfinished` stands for a loop that does not end. -/
inductive Error
  | query (category : QueryErrorCategory) (code clientMessage message : String)
  | invalidDag (error : WorkflowDagValidationError)
  | statement (context : String) (cause : SqlxError)
  | unfinished
  deriving DecidableEq

def workflowInternalStateError (message : String) : Error :=
  .query .internal "workflow.internal_state" "Workflow state is invalid." message

/-- The largest value of an `integer` column. -/
def i32Max : ℤ := 2 ^ 31 - 1

/-- Who created the claim of an attempt. -/
inductive AttemptClaimOrigin
  | direct
  | workerPrestart
  deriving DecidableEq

/-- A row of `job_definitions`. -/
structure DefinitionRow where
  jobType : String
  maxAttempts : ℤ
  defaultTimeoutSeconds : ℤ
  defaultPriority : ℤ
  isEnabled : Bool
  deriving DecidableEq

/-- A row of `job_queue`. -/
structure JobRow where
  id : ℕ
  jobType : String
  organizationId : Option ℕ
  payload : Json
  status : JobStatus
  priority : ℤ
  runNumber : ℤ
  attempt : ℤ
  maxAttempts : ℤ
  timeoutSeconds : ℤ
  nextRunAt : ℕ
  leaseExpiresAt : Option ℕ
  workerId : Option String
  stage : JobStage
  progressDone : Option ℤ
  progressTotal : Option ℤ
  checkpoint : Option Json
  output : Option Json
  idempotencyKey : Option String
  enqueueRequest : Option Json
  executionResourceKey : Option String
  statusReason : Option String
  lastErrorCode : Option String
  lastErrorMessage : Option String
  deriving DecidableEq

/-- A row of the queue as it is inserted. -/
structure JobRow.IsNew (job : JobRow) : Prop where
  status : job.status = .pending
  runNumber : job.runNumber = 1
  attempt : job.attempt = 0
  leaseExpiresAt : job.leaseExpiresAt = none
  workerId : job.workerId = none
  maxAttempts : 0 < job.maxAttempts

/-- A row of `job_attempts`. -/
structure AttemptRow where
  jobId : ℕ
  runNumber : ℤ
  attempt : ℤ
  workerId : String
  claimOrigin : AttemptClaimOrigin
  executionStartedPersistedAt : Option ℕ
  finishedAt : Option ℕ
  outcome : Option JobFailureKind
  deriving DecidableEq

/-- The columns of `uq_job_attempts_job_run_attempt`. -/
def AttemptRow.key (row : AttemptRow) : ℕ × ℤ × ℤ :=
  (row.jobId, row.runNumber, row.attempt)

/-- A row of `job_execution_resource_claims`. -/
structure ResourceClaimRow where
  resourceKey : String
  jobId : ℕ
  runNumber : ℤ
  attempt : ℤ
  workerId : String
  leaseExpiresAt : ℕ
  releaseAfter : Option ℕ
  deriving DecidableEq

/-- Why a job went back to the queue. -/
inductive RequeueKind
  | basic (reason : String)
  | compareAndRequeue (reason : String)
  | handlerContinuation
  deriving DecidableEq

/-- The type of a job event, with what its payload says about the attempt. -/
inductive JobEvent
  | enqueued
  | leased (workerId : String)
  | heartbeat (workerId : String)
  | stageChanged (stage : JobStage)
  | progress (done total : Option ℤ)
  | retryScheduled
  | succeeded
  | failed (kind : JobFailureKind)
  | deadLettered (kind : JobFailureKind)
  | canceled
  | requeued (kind : RequeueKind)
  deriving DecidableEq

/-- A row of `job_events`. -/
structure JobEventRow where
  jobId : ℕ
  runNumber : ℤ
  attempt : Option ℤ
  event : JobEvent
  deriving DecidableEq

/-- A row of `workflow_runs`. -/
structure RunRow where
  id : ℕ
  workflowType : String
  organizationId : Option ℕ
  status : WorkflowRunStatus
  idempotencyKey : Option String
  metadata : Json
  enqueueRequest : Json
  resultStepKey : Option String
  result : Option Json
  deriving DecidableEq

/-- A row of `workflow_steps`. -/
structure StepRow where
  id : ℕ
  workflowRunId : ℕ
  stepKey : String
  executionKind : WorkflowStepExecutionKind
  jobType : Option String
  organizationId : Option ℕ
  payload : Json
  priority : Option ℤ
  maxAttempts : Option ℤ
  timeoutSeconds : Option ℤ
  stage : Option JobStage
  allowHandlerContinuation : Bool
  executionResourceKey : Option String
  status : WorkflowStepStatus
  jobId : Option ℕ
  releasedAt : Option ℕ
  dependencyCountTotal : ℤ
  dependencyCountPending : ℤ
  dependencyCountUnsatisfied : ℤ
  statusReason : Option String
  lastErrorCode : Option String
  lastErrorMessage : Option String
  output : Option Json
  deriving DecidableEq

/-- A row of `workflow_step_dependencies`. -/
structure DependencyRow where
  workflowRunId : ℕ
  prerequisiteStepId : ℕ
  dependentStepId : ℕ
  releaseMode : WorkflowDependencyReleaseMode
  deriving DecidableEq

/-- The columns of `pk_workflow_step_dependencies`. -/
def DependencyRow.key (row : DependencyRow) : ℕ × ℕ × ℕ :=
  (row.workflowRunId, row.prerequisiteStepId, row.dependentStepId)

/-- A row of `workflow_run_mutations`. -/
structure MutationRow where
  workflowRunId : ℕ
  mutationKey : String
  mutationKind : String
  request : Json
  deriving DecidableEq

/-- The columns of `uq_workflow_run_mutations_run_mutation_key`. -/
def MutationRow.key (row : MutationRow) : ℕ × String :=
  (row.workflowRunId, row.mutationKey)

/-- A row of `workflow_active_claims`. -/
structure ActiveClaimRow where
  scope : String
  activeKey : String
  workflowRunId : ℕ
  releasePending : Bool
  deriving DecidableEq

/-- The columns of `pk_workflow_active_claims`. -/
def ActiveClaimRow.key (row : ActiveClaimRow) : String × String :=
  (row.scope, row.activeKey)

/-- A row of `workflow_recoveries`. -/
structure RecoveryRow where
  recoveryRunId : ℕ
  sourceRunId : ℕ
  sourceStepId : Option ℕ
  requestKey : String
  mode : String
  reason : String
  deriving DecidableEq

/-- The columns of `uq_workflow_recoveries_source_request`. -/
def RecoveryRow.key (row : RecoveryRow) : ℕ × String :=
  (row.sourceRunId, row.requestKey)

/-- The tables of the queue. -/
structure QueueTables where
  jobs : Table JobRow.id
  attempts : Table AttemptRow.key
  resourceClaims : Table ResourceClaimRow.resourceKey
  events : List JobEventRow

/-- One new row in the queue, with its event. -/
def QueueTables.InsertStep (queue queue' : QueueTables) : Prop :=
  ∃ job jobs, job.IsNew ∧ queue.jobs.insert? job = some jobs ∧
    queue' = { queue with
      jobs, events := queue.events ++ [⟨job.id, job.runNumber, none, .enqueued⟩] }

/-- The tables of the workflows. -/
structure WorkflowTables where
  runs : Table RunRow.id
  steps : Table StepRow.id
  dependencies : Table DependencyRow.key
  mutations : Table MutationRow.key
  activeClaims : Table ActiveClaimRow.key
  recoveries : Table RecoveryRow.key

/-- The database: its tables, the number of identifiers drawn, and its clock. -/
structure Database where
  queue : QueueTables
  workflow : WorkflowTables
  definitions : Table DefinitionRow.jobType
  generated : ℕ
  clock : ℕ

namespace Database

/-- The database before the first transaction. -/
def initial : Database where
  queue := ⟨.empty, .empty, .empty, []⟩
  workflow := ⟨.empty, .empty, .empty, .empty, .empty, .empty⟩
  definitions := .empty
  generated := 0
  clock := 0

/-- The database with other rows in `workflow_steps`. -/
def withSteps (db : Database) (steps : Table StepRow.id) : Database :=
  { db with workflow := { db.workflow with steps } }

/-- The database with other tables of the queue. -/
def withQueue (db : Database) (queue : QueueTables) : Database :=
  { db with queue }

/-- The database after one identifier was drawn for a new row of `job_queue`. -/
def withNewJob (db : Database) (jobs : Table JobRow.id) (row : JobRow) : Database :=
  { db with
    queue := { db.queue with
      jobs
      events := db.queue.events ++ [⟨row.id, row.runNumber, none, .enqueued⟩] }
    generated := db.generated + 1 }

/-- `INSERT INTO job_queue` with its event and the checks that depend on the caller. -/
def insertJob (context : String) (db : Database) (row : JobRow) : Except Error Database := do
  rejectIf (row.maxAttempts ≤ 0)
    (.statement context (.constraint "chk_job_queue_max_attempts_positive"))
  rejectIf (row.timeoutSeconds ≤ 0)
    (.statement context (.constraint "chk_job_queue_timeout_positive"))
  rejectIf (row.executionResourceKey.any fun key => isBlank key || 512 < key.utf8ByteSize)
    (.statement context (.constraint "chk_job_queue_execution_resource_key"))
  let jobs ← require (.statement context (.constraint "job_queue_pkey"))
    (db.queue.jobs.insert? row)
  return db.withNewJob jobs row

end Database

/-- The supply of identifiers: no two are the same. -/
class UuidSource where
  uuidv7 : ℕ → ℕ
  injective : Function.Injective uuidv7

section Supply

variable [UuidSource]

/-- The next identifier of the supply. -/
def Database.nextId (db : Database) : ℕ :=
  UuidSource.uuidv7 db.generated

/-- Identifiers that have been drawn. -/
def Database.Drawn (db : Database) (id : ℕ) : Prop :=
  ∃ n < db.generated, UuidSource.uuidv7 n = id

theorem Database.not_drawn_nextId (db : Database) : ¬ db.Drawn db.nextId := by
  rintro ⟨n, hn, heq⟩
  have := UuidSource.injective heq
  omega

theorem Database.Drawn.mono {db db' : Database} {id : ℕ} (h : db.Drawn id)
    (hle : db.generated ≤ db'.generated) : db'.Drawn id := by
  obtain ⟨n, hn, heq⟩ := h
  exact ⟨n, by omega, heq⟩

end Supply

end Batter.Runledger.Postgres
