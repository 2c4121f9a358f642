import Batter.Runledger.Postgres.Release
import Batter.Runledger.Postgres.RunStatus

/-!
# Terminal steps and their dependents

When a step ends, the counters of its direct dependents are updated.  A dependent
without open dependencies is released if all its requirements were met and
canceled otherwise; a canceled dependent is itself an ended step, so it joins the
queue that drives the loop.
-/

namespace Batter.Runledger.Postgres

/-- Why a step could not run. -/
def dependencyUnsatisfied : String := "workflow.dependency_unsatisfied"

/-- A direct dependent of an ended step, and whether its requirement failed. -/
structure DirectDependentUpdate where
  stepId : ℕ
  dependencyUnsatisfied : Bool
  deriving DecidableEq

/-- The dependents of an ended step, in the order of their identifiers. -/
def loadDirectDependentUpdates (db : Database) (workflowRunId prerequisiteStepId : ℕ)
    (prerequisiteTerminalStatus : WorkflowStepStatus) :
    Except Error (List DirectDependentUpdate) :=
  (orderedBy DependencyRow.dependentStepId (db.workflow.dependencies.select fun edge =>
    edge.prerequisiteStepId = prerequisiteStepId)).mapM fun edge => do
      let edgeRunId := edge.workflowRunId
      rejectIf (edgeRunId ≠ workflowRunId) (workflowInternalStateError
        s!"workflow dependency edge from prerequisite step {prerequisiteStepId} belongs to run {edgeRunId}, expected {workflowRunId}")
      return ⟨edge.dependentStepId,
        edge.releaseMode = .onSuccess && prerequisiteTerminalStatus ≠ .succeeded⟩

/-- The counters of a dependent after one of its prerequisites ended. -/
def StepRow.countDependency (updates : List DirectDependentUpdate) (row : StepRow) : StepRow :=
  { row with
    dependencyCountPending := row.dependencyCountPending - 1
    dependencyCountUnsatisfied := row.dependencyCountUnsatisfied +
      if ⟨row.id, true⟩ ∈ updates then 1 else 0 }

theorem StepRow.countDependency_id (updates : List DirectDependentUpdate) (row : StepRow) :
    (row.countDependency updates).id = row.id :=
  rfl

/-- `chk_workflow_steps_dependency_counts_nonnegative`. -/
def StepRow.validCounts (row : StepRow) : Bool :=
  0 ≤ row.dependencyCountTotal && 0 ≤ row.dependencyCountPending &&
    0 ≤ row.dependencyCountUnsatisfied &&
    row.dependencyCountPending ≤ row.dependencyCountTotal &&
    row.dependencyCountUnsatisfied ≤ row.dependencyCountTotal

/-- Updates the counters of the direct dependents and returns their rows by identifier. -/
def lockAndUpdateDirectDependents (db : Database) (workflowRunId prerequisiteStepId : ℕ)
    (updates : List DirectDependentUpdate) : Except Error (List StepRow × Database) := do
  let dependentStepIds := updates.map DirectDependentUpdate.stepId
  let condition := fun row : StepRow =>
    row.id ∈ dependentStepIds && row.workflowRunId = workflowRunId
  let lockedDependentStepIds := (db.workflow.steps.select condition).map StepRow.id
  rejectSome (fun dependentStepId : ℕ => workflowInternalStateError
      s!"workflow dependency edge from prerequisite step {prerequisiteStepId} references dependent step {dependentStepId} outside expected run {workflowRunId}")
    (dependentStepIds.find? (· ∉ lockedDependentStepIds))
  let steps := db.workflow.steps.update condition (.countDependency updates)
    (StepRow.countDependency_id updates)
  let rows := orderedBy StepRow.id (steps.select condition)
  rejectIf (!rows.all StepRow.validCounts)
    (.statement "batch update workflow step dependency counters"
      (.constraint "chk_workflow_steps_dependency_counts_nonnegative"))
  rejectIf (rows.map StepRow.id ≠ dependentStepIds) (workflowInternalStateError
    s!"workflow dependency batch from prerequisite step {prerequisiteStepId} updated an unexpected dependent set in run {workflowRunId}")
  return (rows, db.withSteps steps)

/-- The row of a step that cannot run because a requirement failed. -/
def StepRow.cancelUnsatisfied (row : StepRow) : StepRow :=
  { row with
    status := .canceled
    statusReason := some dependencyUnsatisfied
    lastErrorCode := some dependencyUnsatisfied
    lastErrorMessage := some "Step dependency requirements were not satisfied."
    output := none }

theorem StepRow.cancelUnsatisfied_id (row : StepRow) : row.cancelUnsatisfied.id = row.id :=
  rfl

variable [UuidSource]

/-- Releases or cancels a dependent that waits for nothing any more. -/
def enqueueReadyOrCanceledDependent (workflowRunId : ℕ)
    (state : Database × List (ℕ × WorkflowStepStatus)) (row : StepRow) :
    Except Error (Database × List (ℕ × WorkflowStepStatus)) :=
  let condition := fun step : StepRow =>
    step.id = row.id && step.workflowRunId = workflowRunId && step.status = .blocked
  if row.dependencyCountPending ≠ 0 ∨ row.status ≠ .blocked then
    .ok state
  else if row.dependencyCountUnsatisfied = 0 then do
    let db ← releaseCandidateStep state.1 row
    return (db, state.2)
  else if (state.1.workflow.steps.select condition).isEmpty then
    .ok state
  else
    .ok (state.1.withSteps
        (state.1.workflow.steps.update condition .cancelUnsatisfied StepRow.cancelUnsatisfied_id),
      state.2 ++ [(row.id, .canceled)])

/-- Lets one ended step act on its direct dependents. -/
def applyTerminalPrerequisite (db : Database) (workflowRunId prerequisiteStepId : ℕ)
    (prerequisiteTerminalStatus : WorkflowStepStatus)
    (terminalQueue : List (ℕ × WorkflowStepStatus)) :
    Except Error (Database × List (ℕ × WorkflowStepStatus)) := do
  let directDependentUpdates ← loadDirectDependentUpdates db workflowRunId prerequisiteStepId
    prerequisiteTerminalStatus
  if directDependentUpdates.isEmpty then
    return (db, terminalQueue)
  let (rows, db) ← lockAndUpdateDirectDependents db workflowRunId prerequisiteStepId
    directDependentUpdates
  rows.foldlM (enqueueReadyOrCanceledDependent workflowRunId) (db, terminalQueue)

/-- Works off the queue of ended steps; each one uses one unit of fuel. -/
def drainTerminalQueue (workflowRunId : ℕ) :
    ℕ → Database → List (ℕ × WorkflowStepStatus) → Except Error Database
  | _, db, [] => return db
  | 0, _, _ :: _ => throw .unfinished
  | fuel + 1, db, (prerequisiteStepId, status) :: terminalQueue => do
    let (db, terminalQueue) ← applyTerminalPrerequisite db workflowRunId prerequisiteStepId
      status terminalQueue
    drainTerminalQueue workflowRunId fuel db terminalQueue

/-- Resolves everything that follows from one ended step; no step ends twice. -/
def resolveTerminalStepQueue (db : Database) (workflowRunId initialStepId : ℕ)
    (initialTerminalStatus : WorkflowStepStatus) : Except Error Database :=
  drainTerminalQueue workflowRunId (db.workflow.steps.rows.length + 1) db
    [(initialStepId, initialTerminalStatus)]

end Batter.Runledger.Postgres
