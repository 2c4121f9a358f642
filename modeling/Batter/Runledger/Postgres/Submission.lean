import Batter.Runledger.Postgres.System

/-!
# What was submitted to a run

A run is made by one payload and by the appends that were accepted later.
`submissions` collects them along a history.  `Provenance` says that the tables
hold exactly what was submitted: the rows of the steps with their columns, the
edges with their release modes, and the canonical requests.
-/

namespace Batter.Runledger.Postgres

open List

variable {db mid db' : Database}

section Submitted

/-- The edge of a dependency of a step. -/
structure IsEdge (tables : WorkflowTables) (workflowRunId : ℕ) (step : WorkflowStepEnqueue)
    (dependency : WorkflowStepDependencySpec) (edge : DependencyRow) : Prop where
  run : edge.workflowRunId = workflowRunId
  mode : edge.releaseMode = dependency.effectiveReleaseMode
  prerequisite : ∃ row ∈ tables.steps, row.id = edge.prerequisiteStepId ∧
    row.workflowRunId = workflowRunId ∧ row.stepKey = dependency.prerequisiteStepKey
  dependent : ∃ row ∈ tables.steps, row.id = edge.dependentStepId ∧
    row.workflowRunId = workflowRunId ∧ row.stepKey = step.stepKey

/-- The steps and edges of a run are those of a list of submitted steps. -/
structure Submitted (tables : WorkflowTables) (workflowRunId : ℕ) (organizationId : Option ℕ)
    (steps : List WorkflowStepEnqueue) : Prop where
  nodup : (steps.map WorkflowStepEnqueue.stepKey).Nodup
  valid : ∀ step ∈ steps, ValidShape step.shape ∧
    ValidPrerequisites step.stepKey (prerequisiteKeys step.dependencies)
  row : ∀ step ∈ steps, ∃ row ∈ tables.steps, row.workflowRunId = workflowRunId ∧
    ∃ defaults, row.IsFor organizationId step defaults
  onlyRow : ∀ row ∈ tables.steps, row.workflowRunId = workflowRunId →
    ∃ step ∈ steps, step.stepKey = row.stepKey
  edge : ∀ step ∈ steps, ∀ dependency ∈ step.dependencies, ∃ edge ∈ tables.dependencies,
    IsEdge tables workflowRunId step dependency edge
  onlyEdge : ∀ edge ∈ tables.dependencies, edge.workflowRunId = workflowRunId →
    ∃ step ∈ steps, ∃ dependency ∈ step.dependencies,
      IsEdge tables workflowRunId step dependency edge

variable {tables tables' : WorkflowTables} {workflowRunId otherRunId : ℕ}
variable {org otherOrganizationId : Option ℕ}
variable {steps requested : List WorkflowStepEnqueue} {step : WorkflowStepEnqueue}
variable {dependency : WorkflowStepDependencySpec} {edge : DependencyRow}

theorem IsEdge.mono (h : IsEdge tables workflowRunId step dependency edge)
    (hrows : ∀ row ∈ tables.steps, ∃ row' ∈ tables'.steps, row'.declared = row.declared) :
    IsEdge tables' workflowRunId step dependency edge := by
  refine { h with prerequisite := ?_, dependent := ?_ }
  on_goal 1 => obtain ⟨row, hrow, hid, hrun, hkey⟩ := h.prerequisite
  on_goal 2 => obtain ⟨row, hrow, hid, hrun, hkey⟩ := h.dependent
  all_goals
    obtain ⟨row', hrow', hsame⟩ := hrows row hrow
    exact ⟨row', hrow', (StepRow.id_of_declared hsame).trans hid,
      (StepRow.run_of_declared hsame).trans hrun, (StepRow.key_of_declared hsame).trans hkey⟩

/-- The submitted steps stay as long as rows keep their declared columns. -/
theorem Submitted.congr (h : Submitted tables workflowRunId org steps)
    (hrows : Table.Related (fun row row' : StepRow => row'.declared = row.declared)
      tables.steps tables'.steps)
    (hedges : tables'.dependencies = tables.dependencies) :
    Submitted tables' workflowRunId org steps := by
  refine { h with row := ?_, onlyRow := ?_, edge := ?_, onlyEdge := ?_ }
  · intro step hstep
    obtain ⟨row, hrow, hrun, defaults, hfor⟩ := h.row step hstep
    obtain ⟨row', hrow', hsame⟩ := hrows.1 row hrow
    exact ⟨row', hrow', (StepRow.run_of_declared hsame).trans hrun, defaults,
      hfor.of_declared hsame⟩
  · intro row' hrow' hrun
    obtain ⟨row, hrow, hsame⟩ := hrows.2 row' hrow'
    obtain ⟨step, hstep, hkey⟩ := h.onlyRow row hrow
      ((StepRow.run_of_declared hsame).symm.trans hrun)
    exact ⟨step, hstep, hkey.trans (StepRow.key_of_declared hsame).symm⟩
  · intro step hstep dependency hdep
    obtain ⟨edge, hedge, hfor⟩ := h.edge step hstep dependency hdep
    exact ⟨edge, hedges ▸ hedge, hfor.mono hrows.1⟩
  · intro edge hedge hrun
    obtain ⟨step, hstep, dependency, hdep, hfor⟩ := h.onlyEdge edge (hedges ▸ hedge) hrun
    exact ⟨step, hstep, dependency, hdep, hfor.mono hrows.1⟩

/-- A prerequisite of a submitted step is itself submitted. -/
theorem Submitted.known (h : Submitted tables workflowRunId org steps)
    (hstep : step ∈ steps) (hdep : dependency ∈ step.dependencies) :
    ∃ pre ∈ steps, pre.stepKey = dependency.prerequisiteStepKey := by
  obtain ⟨edge, _, hfor⟩ := h.edge step hstep dependency hdep
  obtain ⟨row, hrow, _, hrun, hkey⟩ := hfor.prerequisite
  obtain ⟨pre, hpre, hsame⟩ := h.onlyRow row hrow hrun
  exact ⟨pre, hpre, hsame.trans hkey⟩

variable [UuidSource]
variable {count : WorkflowStepEnqueue → Except Error (ℤ × ℤ)}

section

variable (h : WritesSteps workflowRunId org count requested db mid)
include h

theorem WritesSteps.isEdge (hstep : step ∈ requested) (hdep : dependency ∈ step.dependencies) :
    IsEdge mid.workflow workflowRunId step dependency
      (edgeOf mid.workflow workflowRunId step.stepKey dependency) := by
  obtain ⟨source, hsrc, hrun, hkey⟩ := h.known step hstep dependency hdep
  obtain ⟨row, hrow, hnew⟩ := h.each step hstep
  refine ⟨rfl, rfl, ⟨source, hsrc, ?_, hrun, hkey⟩,
    ⟨row, hrow, (h.idOfKey_new hrow hnew).symm, hnew.run, hnew.stepKey⟩⟩
  change source.id = mid.workflow.idOfKey workflowRunId dependency.prerequisiteStepKey
  rw [← hkey]
  exact (idOfKey_eq h.key hsrc hrun).symm

theorem WritesSteps.mem_dependencies :
    edge ∈ mid.workflow.dependencies ↔ edge ∈ db.workflow.dependencies ∨
      ∃ step ∈ requested, ∃ dependency ∈ step.dependencies,
        edge = edgeOf mid.workflow workflowRunId step.stepKey dependency := by
  rw [← Table.mem_rows, ← Table.mem_rows, h.dependencies, mem_append, mem_flatMap]
  simp only [edgesOf, mem_map, eq_comm]

theorem WritesSteps.submitted (hold : Submitted db.workflow workflowRunId org steps)
    (hnodup : (requested.map WorkflowStepEnqueue.stepKey).Nodup)
    (hvalid : ∀ step ∈ requested, ValidShape step.shape ∧
      ValidPrerequisites step.stepKey (prerequisiteKeys step.dependencies))
    (hfresh : ∀ step ∈ requested, step.stepKey ∉ steps.map WorkflowStepEnqueue.stepKey) :
    Submitted mid.workflow workflowRunId org (steps ++ requested) where
  nodup := by
    rw [map_append, nodup_append]
    refine ⟨hold.nodup, hnodup, ?_⟩
    intro key hkey key' hkey' hsame
    obtain ⟨step, hstep, rfl⟩ := mem_map.mp hkey'
    exact hfresh step hstep (hsame ▸ hkey)
  valid := by
    intro step hstep
    rcases mem_append.mp hstep with hstep | hstep
    · exact hold.valid step hstep
    · exact hvalid step hstep
  row := by
    intro step hstep
    rcases mem_append.mp hstep with hstep | hstep
    · obtain ⟨row, hrow, hfor⟩ := hold.row step hstep
      exact ⟨row, h.old row hrow, hfor⟩
    · obtain ⟨row, hrow, ⟨_, _, hnew⟩, _⟩ := h.each step hstep
      exact ⟨row, hrow, hnew.run, hnew.isFor⟩
  onlyRow := by
    intro row hrow hrun
    rcases h.only row hrow with hmem | ⟨step, hstep, hnew⟩
    · obtain ⟨step, hstep, hkey⟩ := hold.onlyRow row hmem hrun
      exact ⟨step, mem_append_left _ hstep, hkey⟩
    · exact ⟨step, mem_append_right _ hstep, hnew.stepKey.symm⟩
  edge := by
    intro step hstep dependency hdep
    rcases mem_append.mp hstep with hstep | hstep
    · obtain ⟨edge, hedge, hfor⟩ := hold.edge step hstep dependency hdep
      exact ⟨edge, h.mem_dependencies.mpr (Or.inl hedge),
        hfor.mono fun row hrow => ⟨row, h.old row hrow, rfl⟩⟩
    · exact ⟨_, h.mem_dependencies.mpr (Or.inr ⟨step, hstep, dependency, hdep, rfl⟩),
        h.isEdge hstep hdep⟩
  onlyEdge := by
    intro edge hedge hrun
    rcases h.mem_dependencies.mp hedge with hmem | ⟨step, hstep, dependency, hdep, rfl⟩
    · obtain ⟨step, hstep, dependency, hdep, hfor⟩ := hold.onlyEdge edge hmem hrun
      exact ⟨step, mem_append_left _ hstep, dependency, hdep,
        hfor.mono fun row hrow => ⟨row, h.old row hrow, rfl⟩⟩
    · exact ⟨step, mem_append_right _ hstep, dependency, hdep, h.isEdge hstep hdep⟩

/-- Steps that are written for one run leave the other runs as they were. -/
theorem WritesSteps.submitted_other
    (hold : Submitted db.workflow otherRunId otherOrganizationId steps)
    (hne : otherRunId ≠ workflowRunId) :
    Submitted mid.workflow otherRunId otherOrganizationId steps where
  nodup := hold.nodup
  valid := hold.valid
  row := by
    intro step hstep
    obtain ⟨row, hrow, hfor⟩ := hold.row step hstep
    exact ⟨row, h.old row hrow, hfor⟩
  onlyRow := by
    intro row hrow hrun
    rcases h.only row hrow with hmem | ⟨_, _, hnew⟩
    · exact hold.onlyRow row hmem hrun
    · exact absurd (hrun.symm.trans hnew.run) hne
  edge := by
    intro step hstep dependency hdep
    obtain ⟨edge, hedge, hfor⟩ := hold.edge step hstep dependency hdep
    exact ⟨edge, h.mem_dependencies.mpr (Or.inl hedge),
      hfor.mono fun row hrow => ⟨row, h.old row hrow, rfl⟩⟩
  onlyEdge := by
    intro edge hedge hrun
    rcases h.mem_dependencies.mp hedge with hmem | ⟨_, _, _, _, rfl⟩
    · obtain ⟨step, hstep, dependency, hdep, hfor⟩ := hold.onlyEdge edge hmem hrun
      exact ⟨step, hstep, dependency, hdep,
        hfor.mono fun row hrow => ⟨row, h.old row hrow, rfl⟩⟩
    · exact absurd hrun.symm hne

end

end Submitted

section Provenance

/-- The payload that created a run and the appends to it. -/
structure Submission where
  payload : WorkflowRunEnqueue
  appends : List AppendWorkflowStepsInput

/-- All submitted steps of a run. -/
def Submission.steps (submission : Submission) : List WorkflowStepEnqueue :=
  submission.payload.steps ++ submission.appends.flatMap AppendWorkflowStepsInput.steps

/-- The submission with one more append. -/
def Submission.append (submission : Submission) (input : AppendWorkflowStepsInput) : Submission :=
  ⟨submission.payload, submission.appends ++ [input]⟩

/-- The row that records an append. -/
def MutationRow.ofAppend (run : RunRow) (input : AppendWorkflowStepsInput) : MutationRow :=
  ⟨run.id, input.mutationKey, appendSteps,
    (canonicalAppendRequest input.appendWindowStepKey run.organizationId input.steps).toJson⟩

/-- The appends that a run records. -/
def WorkflowTables.mutationsOf (tables : WorkflowTables) (workflowRunId : ℕ) : List MutationRow :=
  tables.mutations.select fun mutation => mutation.workflowRunId = workflowRunId

/-- A run, its steps and its requests are those of a submission. -/
structure Provenance (tables : WorkflowTables) (run : RunRow) (submission : Submission) : Prop where
  accepted : AcceptedRun submission.payload
  declared : run.declared = RunRow.new run.id submission.payload
    (canonicalWorkflowEnqueueRequest submission.payload)
  mutations : tables.mutationsOf run.id = submission.appends.map (MutationRow.ofAppend run)
  submitted : Submitted tables run.id run.organizationId submission.steps

variable {run run' : RunRow} {submission : Submission}

theorem RunRow.organization_of_declared (h : run'.declared = run.declared) :
    run'.organizationId = run.organizationId :=
  (congrArg RunRow.organizationId h : run'.declared.organizationId = run.declared.organizationId)

/-- A run keeps its provenance while the database evolves. -/
theorem Provenance.evolve (h : Provenance mid.workflow run submission)
    (hevolves : Evolves none mid db') (hdecl : run'.declared = run.declared) :
    Provenance db'.workflow run' submission := by
  have hid := RunRow.id_of_declared hdecl
  have horg := RunRow.organization_of_declared hdecl
  refine ⟨h.accepted, ?_, ?_, ?_⟩
  · rw [hdecl, hid]
    exact h.declared
  · have hofAppend : MutationRow.ofAppend run' = MutationRow.ofAppend run := by
      funext input
      rw [MutationRow.ofAppend, MutationRow.ofAppend, hid, horg]
    rw [hofAppend, ← h.mutations, WorkflowTables.mutationsOf, WorkflowTables.mutationsOf,
      hevolves.mutations, hid]
  · rw [hid, horg]
    refine h.submitted.congr (hevolves.steps.imp fun _ _ hstep => hstep.declared) ?_
    exact hevolves.dependencies

variable [UuidSource]
variable {begun : Database} {payload : WorkflowRunEnqueue} {input : AppendWorkflowStepsInput}

/-- A new run has the provenance of its payload. -/
theorem StartsWorkflow.provenance_new (h : StartsWorkflow payload db begun mid) (hsound : Sound db)
    (haccepted : AcceptedRun payload)
    (hmuts : ∀ mutation ∈ db.workflow.mutations, db.Drawn mutation.workflowRunId) :
    Provenance mid.workflow
      (RunRow.new db.nextId payload (canonicalWorkflowEnqueueRequest payload)) ⟨payload, []⟩ := by
  have hsteps := h.run.no_steps hsound.flow
  have hempty : Submitted begun.workflow db.nextId payload.organizationId [] := by
    refine ⟨nodup_nil, fun _ hstep => absurd hstep not_mem_nil,
      fun _ hstep => absurd hstep not_mem_nil, ?_,
      fun _ hstep => absurd hstep not_mem_nil, ?_⟩
    · exact fun row hrow hrun => absurd hrun (hsteps row hrow)
    · intro edge hedge hrun
      obtain ⟨row, hrow, _, hrowRun⟩ := (h.run.flow hsound.flow).graph.dependent edge hedge
      exact absurd (hrowRun.trans hrun) (hsteps row hrow)
  refine ⟨haccepted, rfl, ?_, ?_⟩
  · rw [WorkflowTables.mutationsOf, h.mutations]
    refine filter_eq_nil_iff.mpr fun mutation hmut hrun => ?_
    have hid : mutation.workflowRunId = db.nextId := of_decide_eq_true hrun
    exact db.not_drawn_nextId (hid ▸ hmuts mutation hmut)
  · rw [Submission.steps, flatMap_nil, append_nil]
    exact h.steps.submitted hempty haccepted.steps.nodup
      (fun step hstep =>
        ⟨haccepted.steps.shape step hstep, haccepted.steps.prerequisites step hstep⟩)
      (fun _ _ => not_mem_nil)

/-- The other runs keep their provenance when a run is started. -/
theorem StartsWorkflow.provenance_old (h : StartsWorkflow payload db begun mid)
    (hold : Provenance db.workflow run submission) (hne : run.id ≠ db.nextId) :
    Provenance mid.workflow run submission := by
  refine ⟨hold.accepted, hold.declared, ?_, ?_⟩
  · rw [WorkflowTables.mutationsOf, h.mutations]
    exact hold.mutations
  · refine h.steps.submitted_other ?_ hne
    obtain ⟨runs, claims, rfl⟩ := h.run.frame
    exact hold.submitted.congr
      ⟨fun row hrow => ⟨row, hrow, rfl⟩, fun row hrow => ⟨row, hrow, rfl⟩⟩ rfl

/-- The run of an append has one more append in its provenance. -/
theorem AppendsSteps.provenance (h : AppendsSteps run input db mid)
    (hold : Provenance db.workflow run submission) :
    Provenance mid.workflow run (submission.append input) := by
  refine ⟨hold.accepted, hold.declared, ?_, ?_⟩
  · have hmuts := hold.mutations
    simp only [WorkflowTables.mutationsOf, Table.select] at hmuts ⊢
    rw [h.mutations, filter_append, hmuts]
    simp [Submission.append, MutationRow.ofAppend]
  · have hsteps : (submission.append input).steps = submission.steps ++ input.steps := by
      simp [Submission.append, Submission.steps]
    rw [hsteps]
    refine h.steps.submitted hold.submitted h.accepted.nodup
      (fun step hstep => ⟨h.accepted.shape step hstep, h.accepted.prerequisites step hstep⟩) ?_
    intro step hstep hkey
    obtain ⟨other, hother, hsame⟩ := mem_map.mp hkey
    obtain ⟨row, hrow, hrun, _, hfor⟩ := hold.submitted.row other hother
    refine h.accepted.fresh step hstep (mem_map.mpr ⟨row, ?_, hfor.stepKey.trans hsame⟩)
    exact mem_lockWorkflowStepsForUpdate.mpr ⟨hrow, hrun⟩

/-- The other runs keep their provenance when steps are appended. -/
theorem AppendsSteps.provenance_other {other : RunRow} (h : AppendsSteps run input db mid)
    (hold : Provenance db.workflow other submission) (hne : other.id ≠ run.id) :
    Provenance mid.workflow other submission := by
  refine ⟨hold.accepted, hold.declared, ?_, h.steps.submitted_other hold.submitted hne⟩
  have hmuts := hold.mutations
  simp only [WorkflowTables.mutationsOf, Table.select] at hmuts ⊢
  rw [h.mutations, filter_append, hmuts]
  simp [hne.symm]

end Provenance

section Records

variable [UuidSource]

/-- Every run and its submission. -/
abbrev Submissions := ℕ → Option Submission

/-- The submissions after an addition. -/
def Addition.record (submissions : Submissions) : Addition → Submissions
  | .nothing => submissions
  | .run workflowRunId payload => Function.update submissions workflowRunId (some ⟨payload, []⟩)
  | .steps input => Function.update submissions input.workflowRunId
      ((submissions input.workflowRunId).map (·.append input))

/-- The database and the submissions after a transaction. -/
def recordCommit (state : Database × Submissions) (transaction : Transaction) :
    Database × Submissions :=
  (commit state.1 transaction, (transaction.added state.1).record state.2)

/-- What was submitted to each run of a history. -/
def submissions (transactions : List Transaction) : Submissions :=
  (transactions.foldl recordCommit (.initial, fun _ => none)).2

/-- Every run of the database has its submission. -/
structure Recorded (db : Database) (submissions : Submissions) : Prop where
  run : ∀ run ∈ db.workflow.runs,
    ∃ submission, submissions run.id = some submission ∧ Provenance db.workflow run submission
  mutation : ∀ mutation ∈ db.workflow.mutations, db.Drawn mutation.workflowRunId

variable {submissions : Submissions} {addition : Addition}

theorem Recorded.adds (h : Recorded db submissions) (hsound : Sound db)
    (hadds : Adds db mid addition) : Recorded mid (addition.record submissions) := by
  cases addition with
  | nothing =>
    rw [show mid = db from hadds]
    exact h
  | run workflowRunId payload =>
    obtain ⟨rfl, haccepted, begun, hstarts⟩ := hadds
    refine ⟨fun run hrun => ?_, fun mutation hmut => ?_⟩
    · rw [hstarts.steps.runs] at hrun
      rcases (hstarts.run.runs run).mp hrun with hold | rfl
      · obtain ⟨submission, hsub, hprov⟩ := h.run run hold
        have hne : run.id ≠ db.nextId :=
          fun hid => db.not_drawn_nextId (hid ▸ hsound.flow.drawn.run run hold)
        refine ⟨submission, ?_, hstarts.provenance_old hprov hne⟩
        exact (Function.update_of_ne hne _ _).trans hsub
      · exact ⟨_, Function.update_self _ _ _, hstarts.provenance_new hsound haccepted h.mutation⟩
    · rw [hstarts.mutations] at hmut
      exact (h.mutation mutation hmut).mono (hstarts.extends hsound.flow).generated
  | steps input =>
    obtain ⟨run, happends⟩ := hadds
    refine ⟨fun other hother => ?_, fun mutation hmut => ?_⟩
    · rw [happends.steps.runs] at hother
      obtain ⟨submission, hsub, hprov⟩ := h.run other hother
      by_cases hid : other.id = run.id
      · obtain rfl : other = run :=
          db.workflow.runs.eq_of_key_eq hother happends.locked hid
        refine ⟨submission.append input, ?_, happends.provenance hprov⟩
        rw [Addition.record, ← happends.id, Function.update_self, hsub]
        rfl
      · refine ⟨submission, ?_, happends.provenance_other hprov hid⟩
        rw [Addition.record, ← happends.id, Function.update_of_ne hid]
        exact hsub
    · have hgen := happends.extends.generated
      rw [← Table.mem_rows, happends.mutations, mem_append, mem_singleton] at hmut
      rcases hmut with hold | rfl
      · exact (h.mutation mutation hold).mono hgen
      · exact (hsound.flow.drawn.run run happends.locked).mono hgen

theorem Recorded.evolve (h : Recorded mid submissions) (hevolves : Evolves none mid db') :
    Recorded db' submissions where
  run := by
    intro run' hrun'
    obtain ⟨run, hrun, hrel⟩ := hevolves.runs.2 run' hrun'
    obtain ⟨submission, hsub, hprov⟩ := h.run run hrun
    refine ⟨submission, ?_, hprov.evolve hevolves hrel.declared⟩
    rw [RunRow.id_of_declared hrel.declared]
    exact hsub
  mutation := by
    intro mutation hmut
    rw [hevolves.mutations] at hmut
    exact (h.mutation mutation hmut).mono hevolves.generated

/-- A transaction keeps the records. -/
theorem Recorded.commit (h : Recorded db submissions) (hsound : Sound db) (tx : Transaction) :
    Recorded (commit db tx) ((tx.added db).record submissions) := by
  obtain ⟨mid, hadds, hkeeps⟩ := commit_does hsound tx fun h : False => h.elim
  have hafter : Recorded (db.after tx.elapsed) submissions := ⟨h.run, h.mutation⟩
  exact (hafter.adds (hsound.after _) hadds).evolve hkeeps.evolves

/-- The recording keeps the database beside the submissions. -/
theorem foldl_recordCommit_fst (state : Database × Submissions) (txs : List Transaction) :
    (txs.foldl recordCommit state).1 = txs.foldl Postgres.commit state.1 := by
  induction txs generalizing state with
  | nil => rfl
  | cons tx rest ih => exact ih (recordCommit state tx)

theorem Recorded.commits {state : Database × Submissions} (h : Recorded state.1 state.2)
    (hsound : Sound state.1) (txs : List Transaction) :
    Recorded (txs.foldl recordCommit state).1
      (txs.foldl recordCommit state).2 := by
  induction txs generalizing state with
  | nil => exact h
  | cons tx rest ih =>
    have hnext : Recorded (recordCommit state tx).1
        (recordCommit state tx).2 := h.commit hsound tx
    exact ih hnext (hsound.commit tx)

/-- Every run of every history has what was submitted to it. -/
theorem recorded_history (txs : List Transaction) :
    Recorded (history txs) (Postgres.submissions txs) := by
  have hinit : Recorded Database.initial fun _ => none := by
    constructor <;> intro row hrow <;> cases hrow
  have h := @Recorded.commits _ (Database.initial, fun _ => none) hinit sound_initial txs
  rw [foldl_recordCommit_fst] at h
  exact h

end Records

end Batter.Runledger.Postgres
