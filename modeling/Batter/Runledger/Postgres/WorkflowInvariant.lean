import Batter.Library.DependencyCounters
import Batter.Runledger.Postgres.Terminal

/-!
# The invariant of the workflow tables

The stored graph has no cycle and stays within runs, the dependency counters of
every step count its edges, the status of a step agrees with its counters, and
the status of a step agrees with the status of its job.

While ended steps are worked off, the invariant is stated relative to the steps
that are still `queued`, whose end has not been counted by their dependents, and
to the steps that are `awaited`, which the loop is about to release or cancel.
Between transactions both lists are empty.
-/

namespace Batter.Runledger.Postgres

open Table

/-- The columns of a step that are fixed when it is inserted; the others are cleared. -/
def StepRow.declared (row : StepRow) : StepRow :=
  { row with
    status := .blocked, jobId := none, releasedAt := none
    dependencyCountPending := 0, dependencyCountUnsatisfied := 0
    statusReason := none, lastErrorCode := none, lastErrorMessage := none, output := none }

/-- A dependency that needs its prerequisite to succeed. -/
def DependencyRow.isStrict (row : DependencyRow) : Bool :=
  row.releaseMode = .onSuccess

/-- How a step ended, as far as its dependents have counted it. -/
def stepOutcome (steps : Table StepRow.id) (queued : List ℕ) (id : ℕ) : Option Bool :=
  if id ∈ queued then none
  else (steps.get? id).bind fun row =>
    if row.status.isTerminal then some (decide (row.status = .succeeded)) else none

/-- The counters of a step count its dependencies. -/
structure StepRow.Counted (dependencies : List DependencyRow) (outcome : ℕ → Option Bool)
    (row : StepRow) : Prop where
  pending : row.dependencyCountPending =
    pendingCount DependencyRow.prerequisiteStepId DependencyRow.dependentStepId dependencies
      outcome row.id
  unsatisfied : row.dependencyCountUnsatisfied =
    unsatisfiedCount DependencyRow.prerequisiteStepId DependencyRow.dependentStepId
      DependencyRow.isStrict dependencies outcome row.id
  total : row.dependencyCountTotal =
    totalCount DependencyRow.dependentStepId dependencies row.id

/-- A job step has all the settings that its release needs. -/
def StepRow.Shaped (row : StepRow) : Prop :=
  row.executionKind = .job → ∃ spec, JobReleaseSpec.fromNullableFields row = .ok spec ∧
    0 < spec.maxAttempts ∧ 0 < spec.timeoutSeconds ∧
    ∀ key, spec.executionResourceKey = some key → ValidResourceKey key

/-- The status of a step agrees with its counters and with its release. -/
structure StepRow.Placed (canceled awaited : Prop) (row : StepRow) : Prop where
  released : row.releasedAt.isSome → row.status ≠ .blocked ∧
    row.dependencyCountPending = 0 ∧ row.dependencyCountUnsatisfied = 0 ∧
    (row.executionKind = .job → row.jobId.isSome)
  unreleased : row.releasedAt = none →
    (row.status = .blocked ∨ row.status = .canceled) ∧ row.jobId = none
  external : row.executionKind = .external →
    row.jobId = none ∧ row.status ≠ .enqueued ∧ row.status ≠ .running
  job : row.executionKind = .job → row.status ≠ .waitingForExternal
  waits : ¬ canceled → row.status = .blocked → 0 < row.dependencyCountPending ∨ awaited
  refused : ¬ canceled → row.releasedAt = none → row.status = .canceled →
    row.dependencyCountPending = 0 ∧ 0 < row.dependencyCountUnsatisfied ∧
      row.statusReason = some dependencyUnsatisfied

/-- A blocked step has not been released and has no job. -/
theorem StepRow.Placed.of_blocked {canceled awaited : Prop} {row : StepRow}
    (h : row.Placed canceled awaited) (hblk : row.status = .blocked) :
    row.releasedAt = none ∧ row.jobId = none := by
  have hunreleased : row.releasedAt = none := by
    rw [← Option.not_isSome_iff_eq_none]
    exact fun hsome => (h.released hsome).1 hblk
  exact ⟨hunreleased, (h.unreleased hunreleased).2⟩

/-- Statuses that a step and its job have at the same time. -/
inductive Paired : WorkflowStepStatus → JobStatus → Prop
  | enqueued : Paired .enqueued .pending
  | running : Paired .running .leased
  | succeeded : Paired .succeeded .succeeded
  | failed : Paired .failed .deadLettered
  | canceled : Paired .canceled .canceled

/-- The run has been canceled. -/
def WorkflowTables.IsCanceled (tables : WorkflowTables) (workflowRunId : ℕ) : Prop :=
  ∃ run ∈ tables.runs, run.id = workflowRunId ∧ run.status = .canceled

/-- Steps belong to runs, keys are unique in a run, edges stay in a run and form no cycle. -/
structure Graph (tables : WorkflowTables) : Prop where
  run : ∀ step ∈ tables.steps, ∃ run ∈ tables.runs, run.id = step.workflowRunId
  key : ∀ step ∈ tables.steps, ∀ step' ∈ tables.steps,
    step.workflowRunId = step'.workflowRunId → step.stepKey = step'.stepKey → step = step'
  prerequisite : ∀ edge ∈ tables.dependencies, ∃ step ∈ tables.steps,
    step.id = edge.prerequisiteStepId ∧ step.workflowRunId = edge.workflowRunId
  dependent : ∀ edge ∈ tables.dependencies, ∃ step ∈ tables.steps,
    step.id = edge.dependentStepId ∧ step.workflowRunId = edge.workflowRunId
  ranked : ∃ rank : ℕ → ℕ, ∀ edge ∈ tables.dependencies,
    rank edge.prerequisiteStepId < rank edge.dependentStepId

/-- A run that ended by itself has no open step. -/
def OpenRun (tables : WorkflowTables) (step : StepRow) : Prop :=
  step.status.isTerminal = false → ∀ run ∈ tables.runs, run.id = step.workflowRunId →
    run.status ≠ .succeeded ∧ run.status ≠ .completedWithErrors

/-- Steps and their jobs. -/
structure Linked (steps : Table StepRow.id) (jobs : Table JobRow.id) : Prop where
  paired : ∀ step ∈ steps, ∀ jobId, step.jobId = some jobId →
    ∃ job ∈ jobs, job.id = jobId ∧ job.organizationId = step.organizationId ∧
      Paired step.status job.status
  unshared : ∀ step ∈ steps, ∀ step' ∈ steps, ∀ jobId,
    step.jobId = some jobId → step'.jobId = some jobId → step = step'

/-- All identifiers in use come from the supply. -/
structure AllDrawn [UuidSource] (db : Database) : Prop where
  job : ∀ job ∈ db.queue.jobs, db.Drawn job.id
  step : ∀ step ∈ db.workflow.steps, db.Drawn step.id
  run : ∀ run ∈ db.workflow.runs, db.Drawn run.id

/-- The invariant relative to queued and awaited steps. -/
structure Flow [UuidSource] (queued awaited : List ℕ) (db : Database) : Prop where
  graph : Graph db.workflow
  counted : ∀ step ∈ db.workflow.steps,
    step.Counted db.workflow.dependencies.rows (stepOutcome db.workflow.steps queued)
  shaped : ∀ step ∈ db.workflow.steps, step.Shaped
  placed : ∀ step ∈ db.workflow.steps,
    step.Placed (db.workflow.IsCanceled step.workflowRunId) (step.id ∈ awaited)
  openRun : ∀ step ∈ db.workflow.steps, OpenRun db.workflow step
  linked : Linked db.workflow.steps db.queue.jobs
  drawn : AllDrawn db

section Declared

variable {row row' : StepRow}

section

variable (h : row'.declared = row.declared)
include h

theorem StepRow.id_of_declared : row'.id = row.id :=
  (congrArg StepRow.id h : row'.declared.id = row.declared.id)

theorem StepRow.run_of_declared : row'.workflowRunId = row.workflowRunId :=
  (congrArg StepRow.workflowRunId h : row'.declared.workflowRunId = row.declared.workflowRunId)

theorem StepRow.key_of_declared : row'.stepKey = row.stepKey :=
  (congrArg StepRow.stepKey h : row'.declared.stepKey = row.declared.stepKey)

theorem StepRow.organization_of_declared : row'.organizationId = row.organizationId :=
  (congrArg StepRow.organizationId h : row'.declared.organizationId = row.declared.organizationId)

theorem StepRow.kind_of_declared : row'.executionKind = row.executionKind :=
  (congrArg StepRow.executionKind h : row'.declared.executionKind = row.declared.executionKind)

theorem StepRow.total_of_declared : row'.dependencyCountTotal = row.dependencyCountTotal :=
  (congrArg StepRow.dependencyCountTotal h :
    row'.declared.dependencyCountTotal = row.declared.dependencyCountTotal)

end

theorem StepRow.Shaped.of_declared (h : row.Shaped) (heq : row'.declared = row.declared) :
    row'.Shaped := by
  have hspec : JobReleaseSpec.fromNullableFields row' = JobReleaseSpec.fromNullableFields row :=
    (congrArg JobReleaseSpec.fromNullableFields heq :
      JobReleaseSpec.fromNullableFields row'.declared =
        JobReleaseSpec.fromNullableFields row.declared)
  intro hkind
  rw [hspec]
  exact h (StepRow.kind_of_declared heq ▸ hkind)

end Declared

section Graph

variable {tables tables' : WorkflowTables}

/-- Rows that keep their declared columns keep the graph. -/
theorem Graph.congr (h : Graph tables)
    (hruns : ∀ run ∈ tables.runs, ∃ run' ∈ tables'.runs, run'.id = run.id)
    (hsteps : Table.Related (fun row row' => row'.declared = row.declared)
      tables.steps tables'.steps)
    (hdeps : tables'.dependencies = tables.dependencies) :
    Graph tables' where
  run := by
    intro step' hstep'
    obtain ⟨step, hstep, heq⟩ := hsteps.2 step' hstep'
    obtain ⟨run, hrun, hid⟩ := h.run step hstep
    obtain ⟨run', hrun', hid'⟩ := hruns run hrun
    exact ⟨run', hrun', by rw [hid', hid, StepRow.run_of_declared heq]⟩
  key := by
    intro a' ha' b' hb' hrun hkey
    obtain ⟨a, ha, heqa⟩ := hsteps.2 a' ha'
    obtain ⟨b, hb, heqb⟩ := hsteps.2 b' hb'
    have hab : a = b := by
      refine h.key a ha b hb ?_ ?_
      · rw [← StepRow.run_of_declared heqa, ← StepRow.run_of_declared heqb, hrun]
      · rw [← StepRow.key_of_declared heqa, ← StepRow.key_of_declared heqb, hkey]
    refine eq_of_key_eq ha' hb' ?_
    rw [StepRow.id_of_declared heqa, StepRow.id_of_declared heqb, hab]
  prerequisite := by
    intro edge hedge
    rw [hdeps] at hedge
    obtain ⟨step, hstep, hid, hrun⟩ := h.prerequisite edge hedge
    obtain ⟨step', hstep', heq⟩ := hsteps.1 step hstep
    exact ⟨step', hstep', by rw [StepRow.id_of_declared heq, hid],
      by rw [StepRow.run_of_declared heq, hrun]⟩
  dependent := by
    intro edge hedge
    rw [hdeps] at hedge
    obtain ⟨step, hstep, hid, hrun⟩ := h.dependent edge hedge
    obtain ⟨step', hstep', heq⟩ := hsteps.1 step hstep
    exact ⟨step', hstep', by rw [StepRow.id_of_declared heq, hid],
      by rw [StepRow.run_of_declared heq, hrun]⟩
  ranked := by
    rw [hdeps]
    exact h.ranked

/-- There is at most one edge between two steps. -/
theorem Graph.edge_unique (h : Graph tables) {edge edge' : DependencyRow}
    (hedge : edge ∈ tables.dependencies) (hedge' : edge' ∈ tables.dependencies)
    (hpre : edge.prerequisiteStepId = edge'.prerequisiteStepId)
    (hdept : edge.dependentStepId = edge'.dependentStepId) : edge = edge' := by
  obtain ⟨step, hstep, hid, hrun⟩ := h.prerequisite edge hedge
  obtain ⟨step', hstep', hid', hrun'⟩ := h.prerequisite edge' hedge'
  have hsame : step = step' := by
    refine eq_of_key_eq hstep hstep' ?_
    rw [hid, hid', hpre]
  refine eq_of_key_eq hedge hedge' ?_
  rw [DependencyRow.key, DependencyRow.key, hpre, hdept, ← hrun, ← hrun', hsame]

/-- What at most one row satisfies is counted as none or one. -/
theorem countP_eq_ite {α : Type} {rows : List α} {p : α → Bool} {q : α → Prop}
    [Decidable (∃ row ∈ rows, q row)] (hnodup : rows.Nodup)
    (huniq : ∀ a ∈ rows, ∀ b ∈ rows, q a → q b → a = b) (hp : ∀ row, p row = true ↔ q row) :
    rows.countP p = if ∃ row ∈ rows, q row then 1 else 0 := by
  have hle : rows.countP p ≤ 1 := countP_le_one hnodup fun a ha b hb hpa hpb =>
    huniq a ha b hb ((hp a).mp hpa) ((hp b).mp hpb)
  split_ifs with hexists
  · obtain ⟨row, hrow, hq⟩ := hexists
    have hpos : 0 < rows.countP p := List.countP_pos_iff.mpr ⟨row, hrow, (hp row).mpr hq⟩
    omega
  · exact List.countP_eq_zero.mpr fun row hrow h => hexists ⟨row, hrow, (hp row).mp h⟩

/-- The edges between two steps are counted as none or one. -/
theorem Graph.edgesBetween_eq (h : Graph tables) (strict : DependencyRow → Bool) (u v : ℕ) :
    edgesBetween DependencyRow.prerequisiteStepId DependencyRow.dependentStepId strict
        tables.dependencies.rows u v =
      if ∃ edge ∈ tables.dependencies, edge.prerequisiteStepId = u ∧ edge.dependentStepId = v ∧
        strict edge = true
      then 1 else 0 := by
  refine countP_eq_ite tables.dependencies.nodup_rows ?_ ?_
  · intro a ha b hb hqa hqb
    exact h.edge_unique ha hb (hqa.1.trans hqb.1.symm) (hqa.2.1.trans hqb.2.1.symm)
  · intro edge
    simp only [Bool.and_eq_true, decide_eq_true_eq]
    tauto

end Graph

section Outcome

variable {steps : Table StepRow.id} {row : StepRow} {f : StepRow → StepRow}
variable {queued queued' : List ℕ} (hkey : ∀ row, (f row).id = row.id)

/-- A step that stays open is open for its dependents. -/
theorem stepOutcome_modify_open (hrow : row ∈ steps) (hopen : row.status.isTerminal = false)
    (hopen' : (f row).status.isTerminal = false) (id : ℕ) :
    stepOutcome (steps.modify row.id f hkey) queued id = stepOutcome steps queued id := by
  unfold stepOutcome
  rw [get?_modify]
  by_cases hid : id = row.id
  · subst hid
    simp [get?_of_mem hrow, hopen, hopen']
  · simp [hid]

/-- A step that ends is open for its dependents as long as it is queued. -/
theorem stepOutcome_modify_queue (hrow : row ∈ steps) (hopen : row.status.isTerminal = false)
    (hqueued : ∀ id, id ∈ queued' ↔ id = row.id ∨ id ∈ queued) (id : ℕ) :
    stepOutcome (steps.modify row.id f hkey) queued' id = stepOutcome steps queued id := by
  unfold stepOutcome
  rw [get?_modify]
  by_cases hid : id = row.id
  · subst hid
    simp [hqueued, get?_of_mem hrow, hopen]
  · simp [hqueued, hid]

end Outcome

section ModifyStep

variable [UuidSource] {db db' : Database} {row : StepRow} {f : StepRow → StepRow}
variable {hkey : ∀ row, (f row).id = row.id} {queued queued' awaited awaited' : List ℕ}

/-- The invariant after an update of one step, together with the jobs. -/
theorem Flow.modifyStep (h : Flow queued awaited db) (hrow : row ∈ db.workflow.steps)
    (hsteps : db'.workflow.steps = db.workflow.steps.modify row.id f hkey)
    (hruns : db'.workflow.runs = db.workflow.runs)
    (hdeps : db'.workflow.dependencies = db.workflow.dependencies)
    (hdecl : (f row).declared = row.declared)
    (hpend : (f row).dependencyCountPending = row.dependencyCountPending)
    (hunsat : (f row).dependencyCountUnsatisfied = row.dependencyCountUnsatisfied)
    (hout : ∀ id, stepOutcome db'.workflow.steps queued' id =
      stepOutcome db.workflow.steps queued id)
    (hplaced : (f row).Placed (db.workflow.IsCanceled row.workflowRunId) (row.id ∈ awaited'))
    (hawaited : ∀ id ∈ awaited, id ≠ row.id → id ∈ awaited')
    (hopen : OpenRun db.workflow (f row))
    (hjobs : ∀ job ∈ db.queue.jobs, row.jobId ≠ some job.id →
      ∃ job' ∈ db'.queue.jobs, job'.id = job.id ∧ job'.organizationId = job.organizationId ∧
        job'.status = job.status)
    (hpaired : ∀ jobId, (f row).jobId = some jobId →
      ∃ job ∈ db'.queue.jobs, job.id = jobId ∧ job.organizationId = row.organizationId ∧
        Paired (f row).status job.status)
    (hunshared : ∀ step ∈ db.workflow.steps, step.id ≠ row.id → ∀ jobId,
      step.jobId = some jobId → (f row).jobId ≠ some jobId)
    (hdrawn : ∀ job ∈ db'.queue.jobs, db'.Drawn job.id)
    (hgen : db.generated ≤ db'.generated) :
    Flow queued' awaited' db' := by
  have hcases : ∀ step' ∈ db'.workflow.steps,
      (step' ∈ db.workflow.steps ∧ step'.id ≠ row.id) ∨ step' = f row := by
    intro step' hstep'
    rw [hsteps] at hstep'
    rcases mem_modify.mp hstep' with hold | ⟨before, hbefore, hid, rfl⟩
    · exact Or.inl hold
    · exact Or.inr (by rw [eq_of_key_eq hbefore hrow hid])
  have hcanc : ∀ id, db'.workflow.IsCanceled id ↔ db.workflow.IsCanceled id := by
    intro id
    rw [WorkflowTables.IsCanceled, WorkflowTables.IsCanceled, hruns]
  have hcounted : ∀ step : StepRow,
      step.Counted db.workflow.dependencies.rows (stepOutcome db.workflow.steps queued) →
      step.Counted db'.workflow.dependencies.rows (stepOutcome db'.workflow.steps queued') := by
    intro step hstep
    rw [hdeps, funext hout]
    exact hstep
  have hid : (f row).id = row.id := hkey row
  refine ⟨h.graph.congr ?_ ?_ hdeps, ?_, ?_, ?_, ?_, ⟨?_, ?_⟩, ⟨hdrawn, ?_, ?_⟩⟩
  · intro run hrun
    exact ⟨run, hruns ▸ hrun, rfl⟩
  · rw [hsteps]
    exact related_modify hkey hrow (fun _ _ => rfl) hdecl
  · intro step' hstep'
    rcases hcases step' hstep' with ⟨hold, _⟩ | rfl
    · exact hcounted step' (h.counted step' hold)
    · have hbefore := h.counted row hrow
      refine hcounted _ ⟨?_, ?_, ?_⟩
      · rw [hpend, hid]
        exact hbefore.pending
      · rw [hunsat, hid]
        exact hbefore.unsatisfied
      · rw [StepRow.total_of_declared hdecl, hid]
        exact hbefore.total
  · intro step' hstep'
    rcases hcases step' hstep' with ⟨hold, _⟩ | rfl
    · exact h.shaped step' hold
    · exact (h.shaped row hrow).of_declared hdecl
  · intro step' hstep'
    rw [hcanc]
    rcases hcases step' hstep' with ⟨hold, hne⟩ | rfl
    · have hbefore := h.placed step' hold
      exact ⟨hbefore.released, hbefore.unreleased, hbefore.external, hbefore.job,
        fun hrun hblk => (hbefore.waits hrun hblk).imp_right (hawaited _ · hne),
        hbefore.refused⟩
    · rw [StepRow.run_of_declared hdecl, hid]
      exact hplaced
  · intro step' hstep'
    rw [OpenRun, hruns]
    rcases hcases step' hstep' with ⟨hold, _⟩ | rfl
    · exact h.openRun step' hold
    · exact hopen
  · intro step' hstep' jobId hjob
    rcases hcases step' hstep' with ⟨hold, hne⟩ | rfl
    · obtain ⟨job, hjob', hjobId, horg, hpair⟩ :=
        h.linked.paired step' hold jobId hjob
      have hother : row.jobId ≠ some job.id := by
        intro hshared
        rw [hjobId] at hshared
        exact hne (congrArg StepRow.id (h.linked.unshared step' hold row hrow jobId hjob hshared))
      obtain ⟨job', hmem, hid', horg', hstat⟩ := hjobs job hjob' hother
      exact ⟨job', hmem, by rw [hid', hjobId], by rw [horg', horg],
        hstat ▸ hpair⟩
    · rw [StepRow.organization_of_declared hdecl]
      exact hpaired jobId hjob
  · intro a' ha' b' hb' jobId hja hjb
    rcases hcases a' ha' with ⟨ha, hnea⟩ | rfl
    · rcases hcases b' hb' with ⟨hb, _⟩ | rfl
      · exact h.linked.unshared a' ha b' hb jobId hja hjb
      · exact absurd hjb (hunshared a' ha hnea jobId hja)
    · rcases hcases b' hb' with ⟨hb, hneb⟩ | rfl
      · exact absurd hja (hunshared b' hb hneb jobId hjb)
      · rfl
  · intro step' hstep'
    rcases hcases step' hstep' with ⟨hold, _⟩ | rfl
    · exact (h.drawn.step step' hold).mono hgen
    · rw [hid]
      exact (h.drawn.step row hrow).mono hgen
  · intro run hrun
    exact (h.drawn.run run (hruns ▸ hrun)).mono hgen

end ModifyStep

end Batter.Runledger.Postgres
