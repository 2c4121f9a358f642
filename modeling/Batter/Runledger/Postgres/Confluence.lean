import Batter.Runledger.Postgres.WorkflowHistories

/-!
# The outcome of a workflow does not depend on its schedule

`IsOutcome` are the equations for the final statuses: a step ends as its execution
says if all its `ON_SUCCESS` prerequisites succeeded, and is canceled otherwise.
The edges of a workflow form no cycle, so the equations have at most one solution.
The statuses of a run whose released steps have all ended are a solution, whatever
happened in between and whether the steps were enqueued or appended.
-/

namespace Batter.Runledger.Postgres

variable {steps : List WorkflowStepEnqueue} {out : String → WorkflowStepStatus}

section Equations

/-- Final statuses of steps, by key: `out` is how each step ends once it is executed. -/
def IsOutcome (steps : List WorkflowStepEnqueue) (out status : String → WorkflowStepStatus) :
    Prop :=
  ∀ step ∈ steps,
    ((∀ dependency ∈ step.dependencies, dependency.effectiveReleaseMode = .onSuccess →
        status dependency.prerequisiteStepKey = .succeeded) →
      status step.stepKey = out step.stepKey) ∧
    ((∃ dependency ∈ step.dependencies, dependency.effectiveReleaseMode = .onSuccess ∧
        status dependency.prerequisiteStepKey ≠ .succeeded) →
      status step.stepKey = .canceled)

variable {status status' : String → WorkflowStepStatus}

/-- The equations have at most one solution if prerequisites come first in some order. -/
theorem IsOutcome.unique (h : IsOutcome steps out status) (h' : IsOutcome steps out status')
    (rank : String → ℕ)
    (hknown : ∀ step ∈ steps, ∀ dep ∈ step.dependencies,
      ∃ pre ∈ steps, pre.stepKey = dep.prerequisiteStepKey)
    (hrank : ∀ step ∈ steps, ∀ dep ∈ step.dependencies,
      rank dep.prerequisiteStepKey < rank step.stepKey) :
    ∀ step ∈ steps, status step.stepKey = status' step.stepKey := by
  intro step hstep
  induction hn : rank step.stepKey using Nat.strong_induction_on generalizing step with
  | _ n ih =>
    have hsame : ∀ dep ∈ step.dependencies,
        status dep.prerequisiteStepKey = status' dep.prerequisiteStepKey := by
      intro dep hdep
      obtain ⟨pre, hpre, hkey⟩ := hknown step hstep dep hdep
      rw [← hkey]
      refine ih _ ?_ pre hpre rfl
      rw [hkey, ← hn]
      exact hrank step hstep dep hdep
    by_cases hall : ∀ dep ∈ step.dependencies,
        dep.effectiveReleaseMode = .onSuccess →
        status dep.prerequisiteStepKey = .succeeded
    · rw [(h step hstep).1 hall, (h' step hstep).1]
      intro dep hdep hmode
      rw [← hsame dep hdep]
      exact hall dep hdep hmode
    · push Not at hall
      obtain ⟨dep, hdep, hmode, hfailed⟩ := hall
      rw [(h step hstep).2 ⟨dep, hdep, hmode, hfailed⟩, (h' step hstep).2]
      refine ⟨dep, hdep, hmode, ?_⟩
      rw [← hsame dep hdep]
      exact hfailed

theorem IsOutcome.congr {steps' : List WorkflowStepEnqueue} (h : IsOutcome steps out status)
    (hsame : ∀ step, step ∈ steps' ↔ step ∈ steps) : IsOutcome steps' out status :=
  fun step hstep => h step ((hsame step).mp hstep)

end Equations

section Statuses

/-- The status of the step of a run with a key. -/
def WorkflowTables.statusOf (tables : WorkflowTables) (workflowRunId : ℕ) (key : String) :
    WorkflowStepStatus :=
  ((tables.stepsOf workflowRunId).find? fun row => row.stepKey = key).elim .blocked StepRow.status

variable {tables : WorkflowTables} {runId : ℕ} {org : Option ℕ}
variable {row : StepRow}

theorem statusOf_eq (hkeys : KeysUnique tables.steps) (hrow : row ∈ tables.steps)
    (hrun : row.workflowRunId = runId) : tables.statusOf runId row.stepKey = row.status := by
  rw [WorkflowTables.statusOf]
  cases hfind : (tables.stepsOf runId).find? fun other => other.stepKey = row.stepKey with
  | none =>
    have hnone := List.find?_eq_none.mp hfind row (mem_stepsOf.mpr ⟨hrow, hrun⟩)
    simp at hnone
  | some other =>
    have hkey : other.stepKey = row.stepKey := by
      simpa using List.find?_some hfind
    obtain ⟨hother, hotherRun⟩ := mem_stepsOf.mp (List.mem_of_find?_eq_some hfind)
    rw [hkeys other hother row hrow (hotherRun.trans hrun.symm) hkey]
    rfl

/-- The rank of the row of a step is a rank of its key. -/
theorem Submitted.exists_rank (h : Submitted tables runId org steps) (hgraph : Graph tables) :
    ∃ rank : String → ℕ, ∀ step ∈ steps, ∀ dep ∈ step.dependencies,
      rank dep.prerequisiteStepKey < rank step.stepKey := by
  obtain ⟨rank, hrank⟩ := hgraph.ranked
  refine ⟨fun key => rank (tables.idOfKey runId key), fun step hstep dep hmem => ?_⟩
  obtain ⟨edge, hedge, hfor⟩ := h.edge step hstep dep hmem
  obtain ⟨pre, hpre, hid, hrun, hkey⟩ := hfor.prerequisite
  obtain ⟨dependent, hdept, hid', hrun', hkey'⟩ := hfor.dependent
  have hlow := idOfKey_eq hgraph.key hpre hrun
  have hhigh := idOfKey_eq hgraph.key hdept hrun'
  rw [hkey] at hlow
  rw [hkey'] at hhigh
  simp only [hlow, hhigh, hid, hid']
  exact hrank edge hedge

/-- The edges of a row are the dependencies of its step. -/
theorem Submitted.edge_of_row {step : WorkflowStepEnqueue} {edge : DependencyRow}
    (h : Submitted tables runId org steps) (hgraph : Graph tables)
    (hstep : step ∈ steps) (hrow : row ∈ tables.steps) (hrun : row.workflowRunId = runId)
    (hkey : row.stepKey = step.stepKey) (hedge : edge ∈ tables.dependencies)
    (hid : edge.dependentStepId = row.id) :
    ∃ dep ∈ step.dependencies, IsEdge tables runId step dep edge := by
  obtain ⟨dependent, hdept, hdeptId, hedgeRun⟩ := hgraph.dependent edge hedge
  obtain rfl : dependent = row := Table.eq_of_key_eq hdept hrow (hdeptId.trans hid)
  obtain ⟨other, hother, dep, hdep, hfor⟩ := h.onlyEdge edge hedge (hedgeRun.symm.trans hrun)
  obtain ⟨dependent', hdept', hid', _, hkey'⟩ := hfor.dependent
  obtain rfl : dependent' = dependent := Table.eq_of_key_eq hdept' hrow (hid'.trans hid)
  obtain rfl : other = step := List.inj_on_of_nodup_map h.nodup hother hstep (hkey'.symm.trans hkey)
  exact ⟨dep, hdep, hfor⟩

variable [UuidSource] {db : Database}

/-- If every released step of a run has ended as `out` says, all its steps have ended. -/
theorem all_ended (hflow : Flow [] [] db) (hnot : ¬ db.workflow.IsCanceled runId)
    (hout : ∀ key, (out key).isTerminal = true)
    (hrel : ∀ step ∈ db.workflow.stepsOf runId, step.releasedAt.isSome →
      step.status = out step.stepKey) :
    ∀ step ∈ db.workflow.stepsOf runId, step.status.isTerminal = true := by
  intro step hstep
  by_contra hopen
  obtain ⟨hmem, hrun⟩ := mem_stepsOf.mp hstep
  have hact := exists_active_step hflow hmem (by simpa using hopen) (hrun ▸ hnot)
  rw [hrun] at hact
  obtain ⟨active, hact, hstat⟩ := hact
  have hplaced := hflow.placed active (mem_stepsOf.mp hact).1
  have hsome : active.releasedAt.isSome = true := by
    rw [Option.isSome_iff_ne_none]
    intro hnone
    rcases (hplaced.unreleased hnone).1 with hother | hother <;> simp [hother] at hstat
  have hended := hout active.stepKey
  rw [← hrel active hact hsome] at hended
  rcases hstat with hstat | hstat | hstat <;> rw [hstat] at hended <;> cases hended

/-- The statuses of a run whose released steps have ended solve the equations. -/
theorem Submitted.isOutcome (h : Submitted db.workflow runId org steps)
    (hflow : Flow [] [] db) (hnot : ¬ db.workflow.IsCanceled runId)
    (hout : ∀ key, (out key).isTerminal = true)
    (hrel : ∀ step ∈ db.workflow.stepsOf runId, step.releasedAt.isSome →
      step.status = out step.stepKey) :
    IsOutcome steps out (db.workflow.statusOf runId) := by
  have hended := all_ended hflow hnot hout hrel
  have hgraph := hflow.graph
  intro step hstep
  obtain ⟨row, hrow, hrun, _, hfor⟩ := h.row step hstep
  have hkey := hfor.stepKey
  have hmem : row ∈ db.workflow.stepsOf runId := mem_stepsOf.mpr ⟨hrow, hrun⟩
  have hplaced := hflow.placed row hrow
  obtain ⟨_, hunsat⟩ := (hflow.counted row hrow).edges hgraph
  rw [← hkey, statusOf_eq hgraph.key hrow hrun]
  cases hrelease : row.releasedAt with
  | some time =>
    have hsome : row.releasedAt.isSome = true := by rw [hrelease]; rfl
    obtain ⟨_, _, hzero, _⟩ := hplaced.released hsome
    refine ⟨fun _ => hrel row hmem hsome, ?_⟩
    rintro ⟨dep, hdep, hmode, hfailed⟩
    obtain ⟨edge, hedge, hisEdge⟩ := h.edge step hstep dep hdep
    obtain ⟨pre, hpre, hid, hpreRun, hpreKey⟩ := hisEdge.prerequisite
    obtain ⟨dependent, hdept, hid', hrun', hkey'⟩ := hisEdge.dependent
    obtain rfl : dependent = row := hgraph.key dependent hdept row hrow
      (hrun'.trans hrun.symm) (hkey'.trans hkey.symm)
    rw [← hpreKey, statusOf_eq hgraph.key hpre hpreRun] at hfailed
    have hterm := hended pre (mem_stepsOf.mpr ⟨hpre, hpreRun⟩)
    have hbad : pre.status = .failed ∨ pre.status = .canceled := by
      cases hstat : pre.status <;>
        simp [hstat, WorkflowStepStatus.isTerminal] at hterm hfailed ⊢
    rw [hunsat, Int.natCast_eq_zero, WorkflowTables.unsatisfiedEdges, List.countP_eq_zero] at hzero
    refine absurd ?_ (hzero edge hedge)
    simp only [Bool.and_eq_true, decide_eq_true_eq, WorkflowTables.stepHas, ← hid,
      Table.get?_of_mem hpre, Option.any_some, Bool.or_eq_true]
    exact ⟨hid'.symm, hisEdge.mode.trans hmode, hbad⟩
  | none =>
    have hcanc : row.status = .canceled := by
      refine (hplaced.unreleased hrelease).1.resolve_left fun hblk => ?_
      have hterm := hended row hmem
      rw [hblk] at hterm
      cases hterm
    refine ⟨fun hall => ?_, fun _ => hcanc⟩
    obtain ⟨_, hpositive, _⟩ := hplaced.refused (hrun ▸ hnot) hrelease hcanc
    rw [hunsat, Int.natCast_pos, WorkflowTables.unsatisfiedEdges, List.countP_pos_iff] at hpositive
    obtain ⟨edge, hedge, hcond⟩ := hpositive
    simp only [Bool.and_eq_true, decide_eq_true_eq] at hcond
    obtain ⟨dep, hdep, hisEdge⟩ := h.edge_of_row hgraph hstep hrow hrun hkey hedge hcond.1
    obtain ⟨pre, hpre, hid, hpreRun, hpreKey⟩ := hisEdge.prerequisite
    have hsucc := hall dep hdep (hisEdge.mode.symm.trans hcond.2.1)
    rw [← hpreKey, statusOf_eq hgraph.key hpre hpreRun] at hsucc
    have hbad := hcond.2.2
    simp [WorkflowTables.stepHas, ← hid, Table.get?_of_mem hpre, hsucc] at hbad

end Statuses

/-- A run that was not canceled, every released step of which has ended as `out` says. -/
structure EndsAs [UuidSource] (transactions : List Transaction) (run : RunRow)
    (out : String → WorkflowStepStatus) : Prop where
  row : run ∈ (history transactions).workflow.runs
  notCanceled : run.status ≠ .canceled
  released : ∀ step ∈ (history transactions).workflow.stepsOf run.id, step.releasedAt.isSome →
    step.status = out step.stepKey

theorem EndsAs.isOutcome [UuidSource] {txs : List Transaction} {run : RunRow} {sub : Submission}
    (h : EndsAs txs run out) (hout : ∀ key, (out key).isTerminal = true)
    (hprov : Provenance (history txs).workflow run sub) :
    IsOutcome sub.steps out ((history txs).workflow.statusOf run.id) := by
  refine hprov.submitted.isOutcome (sound_history txs).flow ?_ hout h.released
  rintro ⟨other, hother, hid, hcanc⟩
  rw [Table.eq_of_key_eq hother h.row hid] at hcanc
  exact h.notCanceled hcanc

/-- The outcome of a workflow does not depend on scheduling: if every step that is released
ends as `out` says, the final statuses of a run are the one solution of the equations of the
steps that were submitted to it, so every other run with the same steps ends in the same way,
in whatever order its steps were executed and whether they were enqueued or appended. -/
theorem outcome_does_not_depend_on_schedule
    [UuidSource] (transactions : List Transaction) {run : RunRow}
    (out : String → WorkflowStepStatus) (hout : ∀ key, (out key).isTerminal = true)
    (h : EndsAs transactions run out) :
    ∃ submission, submissions transactions run.id = some submission ∧
      IsOutcome submission.steps out ((history transactions).workflow.statusOf run.id) ∧
      (∀ status, IsOutcome submission.steps out status →
        ∀ row ∈ (history transactions).workflow.stepsOf run.id, row.status = status row.stepKey) ∧
      ∀ transactions' run' submission', EndsAs transactions' run' out →
        submissions transactions' run'.id = some submission' →
        (∀ step, step ∈ submission'.steps ↔ step ∈ submission.steps) →
        ∀ row ∈ (history transactions).workflow.stepsOf run.id,
          ∀ row' ∈ (history transactions').workflow.stepsOf run'.id,
            row'.stepKey = row.stepKey → row'.status = row.status := by
  have hgraph := (sound_history transactions).flow.graph
  obtain ⟨submission, hsub, hprov⟩ := (recorded_history transactions).run run h.row
  have hsubmitted := hprov.submitted
  have houtcome := h.isOutcome hout hprov
  obtain ⟨rank, hrank⟩ := hsubmitted.exists_rank hgraph
  have huniq : ∀ status, IsOutcome submission.steps out status →
      ∀ row ∈ (history transactions).workflow.stepsOf run.id, row.status = status row.stepKey := by
    intro status hstat row hrow
    obtain ⟨hmem, hrun⟩ := mem_stepsOf.mp hrow
    obtain ⟨step, hstep, hkey⟩ := hsubmitted.onlyRow row hmem hrun
    rw [← statusOf_eq hgraph.key hmem hrun, ← hkey]
    exact houtcome.unique hstat rank
      (fun _ hstep _ hdep => hsubmitted.known hstep hdep) hrank step hstep
  refine ⟨submission, hsub, houtcome, huniq, ?_⟩
  intro transactions' run' submission' h' hsub' hsame row hrow row' hrow' hkey
  obtain ⟨found, hfound, hprov'⟩ := (recorded_history transactions').run run' h'.row
  obtain rfl : found = submission' := Option.some.inj (hfound.symm.trans hsub')
  obtain ⟨hmem', hrun'⟩ := mem_stepsOf.mp hrow'
  have hout' : IsOutcome submission.steps out
      ((history transactions').workflow.statusOf run'.id) :=
    (h'.isOutcome hout hprov').congr fun step => (hsame step).symm
  rw [huniq _ hout' row hrow, ← hkey,
    statusOf_eq (sound_history transactions').flow.graph.key hmem' hrun']

/-- The run of the sample, of which the first step fails. -/
def sampleFailure : List Transaction :=
  sampleRun ++ [⟨1, .completeExternalStep
    ⟨0, none, "extract", .failed, ⟨some "UPSTREAM_DOWN", none, none⟩⟩⟩]

/-- The second step is canceled, since the first one failed. -/
theorem failed_prerequisite_cancels : letI := countingUuids
    ∃ run, EndsAs sampleFailure run (fun _ => .failed) ∧
      ∀ row ∈ (history sampleFailure).workflow.stepsOf run.id,
        row.status = if row.stepKey = "load" then .canceled else .failed := by
  have hruns : (@history countingUuids sampleFailure).workflow.runs.rows.map
      (fun run => (run.id, run.status)) = [(0, .completedWithErrors)] := by
    decide +kernel
  have hsteps : (@history countingUuids sampleFailure).workflow.steps.rows.map
      (fun step => (step.releasedAt.isSome, step.status)) =
        [(true, .failed), (false, .canceled)] := by
    decide +kernel
  have hsubmitted : (@submissions countingUuids sampleFailure 0).map Submission.steps =
      some sampleWorkflow.steps := by
    decide +kernel
  obtain ⟨run, hrun, hcols⟩ := List.mem_map.mp (hruns ▸ List.mem_singleton_self _)
  obtain ⟨hid, hstat⟩ := Prod.mk.inj hcols
  have hends : @EndsAs countingUuids sampleFailure run (fun _ => .failed) := by
    refine @EndsAs.mk countingUuids _ _ _ (Table.mem_rows.mp hrun) (by simp [hstat]) ?_
    intro step hstep hrel
    have hmem : (step.releasedAt.isSome, step.status) ∈
        [(true, WorkflowStepStatus.failed), (false, .canceled)] :=
      hsteps ▸ List.mem_map.mpr ⟨step, Table.mem_rows.mpr (mem_stepsOf.mp hstep).1, rfl⟩
    rw [hrel] at hmem
    simpa using hmem
  refine ⟨run, hends, ?_⟩
  obtain ⟨submission, hsub, _, huniq, _⟩ :=
    @outcome_does_not_depend_on_schedule countingUuids _ _ _ (fun _ => rfl) hends
  rw [← hid, hsub] at hsubmitted
  refine huniq (fun key => if key = "load" then .canceled else .failed) ?_
  rw [Option.some.inj hsubmitted]
  intro step hstep
  rcases List.mem_cons.mp hstep with rfl | hstep
  · simp
  · rw [List.mem_singleton.mp hstep]
    simp [WorkflowStepDependencySpec.effectiveReleaseMode]

end Batter.Runledger.Postgres
