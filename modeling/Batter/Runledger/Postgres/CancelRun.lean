import Batter.Runledger.Postgres.JobFlow

/-!
# Cancellation of a run is complete

The run is marked as canceled first, so nothing is released while its steps are
swept.  Each visit ends the step that it names, unless the end of another step has
ended it already; `Sweeping` says where the sweep stands after some visits.  One
round visits every step that was open, so the sweep ends after it:
`cancelWorkflowRun_spec`.
-/

namespace Batter.Runledger.Postgres

open RustStd List Table

variable {metadata : CancellationMetadata} {visited : List ℕ} {strict : Prop} {run : RunRow}
variable {runId : ℕ}

section Swept

/-- What a sweep does to a step: an open step is canceled, either when it is visited or, if it
is blocked, on behalf of another step. -/
structure StepRow.Swept (visited : List ℕ) (before after : StepRow) : Prop where
  declared : after.declared = before.declared
  jobId : after.jobId = before.jobId
  releasedAt : after.releasedAt = before.releasedAt
  status : after.status = before.status ∨ (after.status = .canceled ∧
    before.status.isTerminal = false ∧ (before.status = .blocked ∨ before.id ∈ visited))

variable {visited' : List ℕ} {a b c : StepRow}

theorem StepRow.Swept.refl (row : StepRow) : row.Swept visited row :=
  ⟨rfl, rfl, rfl, .inl rfl⟩

section

variable (h : a.Swept visited b)
include h

theorem StepRow.Swept.mono (hsub : visited ⊆ visited') : a.Swept visited' b := by
  refine { h with status := h.status.imp_right ?_ }
  rintro ⟨hcanc, hopen, hwhich⟩
  exact ⟨hcanc, hopen, hwhich.imp_right fun hid => hsub hid⟩

theorem StepRow.Swept.trans (h' : b.Swept visited c) : a.Swept visited c := by
  refine ⟨h'.declared.trans h.declared, h'.jobId.trans h.jobId, h'.releasedAt.trans h.releasedAt,
    ?_⟩
  rcases h.status with hstat | ⟨hcanc, hopen, hwhich⟩
  · rw [← hstat, ← StepRow.id_of_declared h.declared]
    exact h'.status
  · rcases h'.status with hstat' | ⟨_, hopen', _⟩
    · exact .inr ⟨hstat'.trans hcanc, hopen, hwhich⟩
    · rw [hcanc] at hopen'
      cases hopen'

/-- A step that is still open has not been touched. -/
theorem StepRow.Swept.of_open (hopen : b.status.isTerminal = false) : b.status = a.status := by
  rcases h.status with hstat | ⟨hcanc, _⟩
  · exact hstat
  · rw [hcanc] at hopen
    cases hopen

/-- A step that is not blocked waits for its visit. -/
theorem StepRow.Swept.of_unvisited (hblk : a.status ≠ .blocked) (hvisited : a.id ∉ visited) :
    b.status = a.status := by
  rcases h.status with hstat | ⟨_, _, hwhich⟩
  · exact hstat
  · rcases hwhich with hwhich | hwhich
    · exact absurd hwhich hblk
    · exact absurd hwhich hvisited

end

/-- Working off ended steps of a run that releases nothing. -/
theorem StepRow.Advance.swept {allowed : Prop} (h : StepRow.Advance runId allowed a b)
    (hallowed : ¬ allowed) : a.Swept visited b := by
  cases h with
  | kept declared _ status jobId releasedAt _ _ =>
    exact ⟨declared, jobId, releasedAt, .inl status⟩
  | refused declared _ blocked status jobId releasedAt _ =>
    exact ⟨declared, jobId, releasedAt, .inr ⟨status, by rw [blocked]; rfl, .inl blocked⟩⟩
  | released _ _ _ allowed _ _ _ => exact absurd allowed hallowed

end Swept

section Sweeping

/-- The state of a sweep over the run, which began in `mid`. -/
structure Sweeping [UuidSource] (strict : Prop) (workflowRunId : ℕ) (mid : Database)
    (visited : List ℕ) (db : Database) : Prop where
  flow : Flow [] [] db
  settled : Settled (some workflowRunId) db
  evolves : Evolves (some workflowRunId) mid db
  runs : db.workflow.runs = mid.workflow.runs
  canceled : mid.workflow.IsCanceled workflowRunId
  steps : Table.Related (StepRow.Swept visited) mid.workflow.steps db.workflow.steps
  jobs : ∀ job ∈ db.queue.jobs, ∃ before ∈ mid.queue.jobs, before.id = job.id
  queue : QueueSteps strict mid.clock mid.queue db.queue

variable [UuidSource] {mid db db' : Database}
variable {row : StepRow} {f : StepRow → StepRow} {queue' : QueueTables}

theorem Sweeping.isCanceled (h : Sweeping strict runId mid visited db) :
    db.workflow.IsCanceled runId := by
  rw [WorkflowTables.IsCanceled, h.runs]
  exact h.canceled

/-- A canceled run releases nothing. -/
theorem Sweeping.not_releasable (h : Sweeping strict runId mid visited db) :
    ¬ db.workflow.IsReleasable runId := by
  rintro ⟨run, hrun, hid, hstat⟩
  obtain ⟨run', hrun', hid', hcanc⟩ := h.isCanceled
  rw [eq_of_key_eq hrun hrun' (hid.trans hid'.symm), hcanc] at hstat
  rcases hstat with hstat | hstat <;> cases hstat

/-- A visit of one step: it has ended afterwards. -/
structure Visits (strict : Prop) (workflowRunId : ℕ) (mid : Database) (visited : List ℕ)
    (stepId : ℕ) (db db' : Database) : Prop where
  sweeping : Sweeping strict workflowRunId mid (stepId :: visited) db'
  steps : Table.Related (StepRow.Swept [stepId]) db.workflow.steps db'.workflow.steps
  ended : ∀ step ∈ db'.workflow.steps, step.id = stepId → step.status.isTerminal = true

section

variable (h : Sweeping strict runId mid visited db)
include h

/-- The end of one step of the run. -/
theorem Sweeping.resolve (hkey : ∀ row, (f row).id = row.id)
    (hrun : row.workflowRunId = runId) (hends : EndsStep db row (f row) queue')
    (hcanc : (f row).status = .canceled) (hqueue : QueueSteps strict db.clock db.queue queue') :
    ∃ db', resolveTerminalStepQueue (db.withStep row f hkey queue') runId row.id
        .canceled = .ok db' ∧ Visits strict runId mid visited row.id db db' := by
  subst hrun
  obtain ⟨db', hok, hflow, hsettled, hevolves, hadvances, _⟩ := hends.resolve hkey h.flow
    (fun _ hid _ => hid) h.settled (fun _ hid => (Option.some.inj hid).symm) h.settled.lags
    (h.settled.queue.steps hqueue)
  rw [hcanc] at hok
  have hreleasable : ¬ (db.withStep row f hkey queue').workflow.IsReleasable row.workflowRunId :=
    h.not_releasable
  have hfirst : Table.Related (StepRow.Swept [row.id]) db.workflow.steps
      (db.withStep row f hkey queue').workflow.steps :=
    related_modify hkey hends.mem (fun step _ => .refl step)
      ⟨hends.declared, hends.jobId, hends.releasedAt,
        .inr ⟨hcanc, hends.opened, .inr mem_cons_self⟩⟩
  have hrest : Table.Related (StepRow.Swept [row.id])
      (db.withStep row f hkey queue').workflow.steps db'.workflow.steps :=
    hadvances.steps.imp fun _ _ hadvance => hadvance.swept hreleasable
  have hsteps : Table.Related (StepRow.Swept [row.id]) db.workflow.steps db'.workflow.steps :=
    hfirst.trans (fun _ _ _ hab hbc => hab.trans hbc) hrest
  refine ⟨db', hok, ⟨hflow, hsettled, h.evolves.trans hevolves, ?_, h.canceled, ?_, ?_, ?_⟩,
    hsteps, ?_⟩
  · exact hadvances.runs.trans h.runs
  · exact (h.steps.imp fun _ _ hswept => hswept.mono (subset_cons_self _ _)).trans
      (fun _ _ _ hab hbc => hab.trans hbc)
      (hsteps.imp fun _ _ hswept => hswept.mono (by simp))
  · intro job hjob
    rcases hadvances.newJobs job hjob with hold | ⟨hbad, _⟩
    · obtain ⟨before, hbefore, hid⟩ := hends.oldJobs job hold
      obtain ⟨first, hfirst, hid'⟩ := h.jobs before hbefore
      exact ⟨first, hfirst, hid'.trans hid⟩
    · exact absurd hbad hreleasable
  · refine h.queue.trans ?_
    rw [← h.evolves.clock]
    exact hqueue.trans (queueSteps_of_inserts hadvances.inserts)
  · intro step hstep hid
    obtain ⟨before, hbefore, hswept⟩ := hrest.2 step hstep
    rcases (mem_withStep hends.mem).mp hbefore with ⟨_, hne⟩ | rfl
    · exact absurd ((StepRow.id_of_declared hswept.declared).symm.trans hid) hne
    · rcases hswept.status with hstat | ⟨_, hopen, _⟩
      · rw [hstat]
        exact hends.ended
      · exact absurd (hopen.symm.trans hends.ended) nofun

/-- The run is canceled already, so its status is not recomputed. -/
theorem Sweeping.recompute : recomputeWorkflowRunStatus db runId = db := by
  obtain ⟨run, hrun, rfl, hstat⟩ := h.isCanceled
  exact recompute_of_canceled hrun hstat

theorem Sweeping.finish (reason : StepReason) (output : Option Json)
    (hrun : row.workflowRunId = runId)
    (hends : EndsStep db row (row.finish .canceled reason output) queue')
    (hqueue : QueueSteps strict db.clock db.queue queue') :
    ∃ db', finishStep (db.withQueue queue') row .canceled reason output = .ok db' ∧
      Visits strict runId mid visited row.id db db' := by
  obtain ⟨db', hok, hvisits⟩ := h.resolve
    (StepRow.finish_id .canceled reason output) hrun hends rfl hqueue
  refine ⟨db', ?_, hvisits⟩
  subst hrun
  refine bind_eq_ok.mpr ⟨db', hok, ?_⟩
  rw [hvisits.sweeping.recompute]
  rfl

end

end Sweeping

section Visit

variable {mid db : Database}
variable {row : StepRow}

/-- An open job can be canceled. -/
theorem QueueInvariant.cancel_eq_ok {now : ℕ} {queue : QueueTables} {job : JobRow}
    (h : QueueInvariant now queue) (hjob : job ∈ queue.jobs)
    (ctx : String) (reason : Option String) :
    ∃ queue', queue.change now ctx job (.cancel reason) = .ok queue' := by
  obtain ⟨hrun, hatt⟩ := h.ranged job hjob
  have hnonneg : 0 ≤ job.attempt := by
    have := (h.ledger job hjob).nonneg
    rw [JobRow.settledAttempts] at this
    split_ifs at this <;> omega
  refine ⟨_, bind_eq_ok.mpr ⟨(), ?_, bind_eq_ok.mpr ⟨(), if_neg nofun, rfl⟩⟩⟩
  simp only [JobRow.checkConstraints, bind_eq_ok, exists_unit, rejectIf_eq_ok,
    decide_eq_false_iff_not, not_lt]
  exact ⟨hrun, hatt, hnonneg, rfl⟩

/-- The step of a job is the only one with that job. -/
theorem stepOfJob_of_mem {job : ℕ} (hlinked : Linked db.workflow.steps db.queue.jobs)
    (hrow : row ∈ db.workflow.steps) (hjobId : row.jobId = some job) :
    db.workflow.stepOfJob job = some row := by
  rw [WorkflowTables.stepOfJob, select_eq_singleton hrow (by simpa using hjobId)]
  · rfl
  · intro step hstep hcond
    exact hlinked.unshared step hstep row hrow job (by simpa using hcond) hjobId

variable [UuidSource]

/-- The visit of a step that has a job. -/
theorem Sweeping.visitJob {jobId : ℕ} (h : Sweeping strict runId mid visited db)
    (hrow : row ∈ db.workflow.steps) (hrun : row.workflowRunId = runId)
    (hstat : row.status = .enqueued ∨ row.status = .running) (hjobId : row.jobId = some jobId)
    (reason : Option String) :
    ∃ db', cancelJobWithScopeTx db row.cancellationScope jobId reason = .ok (some db') ∧
      Visits strict runId mid visited row.id db db' := by
  obtain ⟨job, hjob, rfl, horg, hpaired⟩ := h.flow.linked.paired row hrow jobId hjobId
  have hopen : job.status = .pending ∨ job.status = .leased := by
    rcases hstat with hstat | hstat <;> rw [hstat] at hpaired <;>
      cases hjobStat : job.status <;> rw [hjobStat] at hpaired <;>
      first | exact .inl rfl | exact .inr rfl | cases hpaired
  obtain ⟨queue', hchange⟩ := h.settled.queue.cancel_eq_ok hjob "cancel job" reason
  have hchanges : ChangesJob strict db job _ queue' := .of_change hchange hjob rfl hopen
  have hends := hchanges.ends h.flow hrow hjobId hopen rfl .canceled
    ⟨some (reason.getD "CANCELED"), none, none⟩ none
  obtain ⟨db', hok, hvisits⟩ := h.finish _ none hrun hends hchanges.queue
  have hcovers : row.cancellationScope.covers job = true := by
    unfold StepRow.cancellationScope
    split <;> rename_i heq <;> simp [JobCancellationScope.covers, horg, heq]
  have hget : (db.queue.jobs.get? job.id).filter (fun job => row.cancellationScope.covers job &&
      (decide (job.status = .pending) || decide (job.status = .leased))) = some job :=
    getFilter_eq_some.mpr ⟨hjob, rfl, by simp [hcovers, hopen]⟩
  have hstep : db.workflow.stepOfJob job.id = some row := stepOfJob_of_mem h.flow.linked hrow hjobId
  refine ⟨db', ?_, hvisits⟩
  simp only [cancelJobWithScopeTx, hget, bind_eq_ok, pure_eq_ok]
  refine ⟨queue', hchange, db', ?_, rfl⟩
  rw [processWorkflowStepTerminalByJobId_eq rfl]
  simp only [Database.withQueue, hstep, hends.opened]
  exact hok

/-- The visit of a step that waits for the outside. -/
theorem Sweeping.visitExternal (h : Sweeping strict run.id mid visited db)
    (metadata : CancellationMetadata)
    (hvisible : ∀ row ∈ mid.workflow.runs, row.id = run.id →
      row.organizationId = run.organizationId)
    (hrow : row ∈ db.workflow.steps) (hrun : row.workflowRunId = run.id)
    (hwaiting : row.status = .waitingForExternal) :
    ∃ db', completeExternalWorkflowStep db
        ⟨run.id, run.organizationId, row.stepKey, .canceled, metadata.stepReason⟩ = .ok db' ∧
      Visits strict run.id mid visited row.id db db' := by
  have hkind : row.executionKind = .external := by
    cases hkind : row.executionKind with
    | external => rfl
    | job => exact absurd hwaiting ((h.flow.placed row hrow).job hkind)
  have hends : EndsStep db row (row.finish .canceled metadata.stepReason none) db.queue :=
    h.flow.endsExternal hrow hwaiting rfl _ none
  obtain ⟨db', hok, hvisits⟩ := h.finish metadata.stepReason none hrun hends .refl
  refine ⟨db', ?_, hvisits⟩
  obtain ⟨current, hcur, hid, _⟩ := h.isCanceled
  have hsame : current.organizationId = run.organizationId := hvisible current (h.runs ▸ hcur) hid
  have hget : db.workflow.runs.get? run.id = some current := get?_eq_some.mpr ⟨hcur, hid⟩
  have hselect : db.workflow.steps.select (fun step => decide (step.workflowRunId = run.id) &&
      decide (step.stepKey = row.stepKey)) = [row] := by
    refine select_eq_singleton hrow (by simp [hrun]) fun step hstep hcond => ?_
    simp only [Bool.and_eq_true, decide_eq_true_eq] at hcond
    exact h.flow.graph.key step hstep row hrow (hcond.1.trans hrun.symm) hcond.2
  have hlock : lockExternalWorkflowStepForCompletion db
      ⟨run.id, run.organizationId, row.stepKey, .canceled, metadata.stepReason⟩ = .ok row := by
    rw [lockExternalWorkflowStepForCompletion, require_eq_ok, hget, if_pos]
    · rw [hselect]
      rfl
    · simp [RunRow.isVisibleTo, hsame]
  refine bind_eq_ok.mpr ⟨row, hlock, ?_⟩
  simp only [bind_eq_ok, exists_unit, rejectIf_eq_ok, hkind, hends.opened]
  refine ⟨by simp, ?_⟩
  rw [if_neg (by simp)]
  simp only [bind_eq_ok, exists_unit, rejectIf_eq_ok, hwaiting]
  exact ⟨by simp, hok⟩

/-- The visit of a step that is blocked. -/
theorem Sweeping.visitBlocked (h : Sweeping strict runId mid visited db)
    (metadata : CancellationMetadata) (hrow : row ∈ db.workflow.steps)
    (hrun : row.workflowRunId = runId) (hblk : row.status = .blocked) :
    ∃ db', cancelBlockedWorkflowStep metadata db runId row.id = .ok (true, db') ∧
      Visits strict runId mid visited row.id db db' := by
  have hjobId := ((h.flow.placed row hrow).of_blocked hblk).2
  have hends : EndsStep db row (row.finish .canceled metadata.stepReason none) db.queue :=
    ⟨hrow, by rw [hblk]; rfl, rfl, rfl, rfl, rfl, rfl, rfl, fun _ => rfl,
      fun hnot => absurd (hrun ▸ h.isCanceled) hnot, fun _ hjob _ => hjob,
      fun _ hid => absurd (hjobId.symm.trans hid) nofun, fun job hjob => ⟨job, hjob, rfl⟩⟩
  obtain ⟨db', hok, hvisits⟩ := h.resolve
    (StepRow.finish_id .canceled metadata.stepReason none) hrun hends rfl .refl
  refine ⟨db', ?_, hvisits⟩
  obtain ⟨hselect, hupdate⟩ :=
    blocked_update hrow hrun hblk (StepRow.finish_id .canceled metadata.stepReason none)
  simp only [cancelBlockedWorkflowStep, hselect]
  rw [if_neg (by simp), hupdate]
  exact bind_eq_ok.mpr ⟨db', hok, rfl⟩

end Visit

section Sweep

variable [UuidSource] {mid db : Database}
variable {row : StepRow}

/-- A visit that finds its step ended. -/
theorem Sweeping.skip {stepId : ℕ} (h : Sweeping strict runId mid visited db)
    (hended : ∀ step ∈ db.workflow.steps, step.id = stepId → step.status.isTerminal = true) :
    Visits strict runId mid visited stepId db db :=
  ⟨{ h with steps := h.steps.imp fun _ _ hswept => hswept.mono (subset_cons_self _ _) },
    .refl .refl _, hended⟩

/-- A step that is enqueued or running has a job. -/
theorem Flow.job_of_open (h : Flow [] [] db) (hrow : row ∈ db.workflow.steps)
    (hstat : row.status = .enqueued ∨ row.status = .running) : ∃ jobId, row.jobId = some jobId := by
  have hplaced := h.placed row hrow
  have hkind : row.executionKind = .job := by
    cases hkind : row.executionKind with
    | job => rfl
    | external =>
      obtain ⟨_, henqueued, hrunning⟩ := hplaced.external hkind
      exact absurd hstat (not_or.mpr ⟨henqueued, hrunning⟩)
  have hrel : row.releasedAt.isSome := by
    rw [Option.isSome_iff_ne_none]
    intro hnone
    rcases hstat with hstat | hstat <;>
      simpa [hstat] using (hplaced.unreleased hnone).1
  exact Option.isSome_iff_exists.mp ((hplaced.released hrel).2.2.2 hkind)

/-- Every visit succeeds and leaves its step ended. -/
theorem Sweeping.visit (h : Sweeping strict run.id mid visited db)
    (hvisible : ∀ row ∈ mid.workflow.runs, row.id = run.id →
      row.organizationId = run.organizationId)
    (hrow : row ∈ mid.workflow.steps)
    (hrun : row.workflowRunId = run.id)
    (hvisited : row.id ∉ visited)
    (progressed : Bool) :
    ∃ state, cancelNonterminalWorkflowStep run metadata (progressed, db) row = .ok state ∧
      Visits strict run.id mid visited row.id db state.2 := by
  obtain ⟨current, hcur, hswept⟩ := h.steps.1 row hrow
  have hid : current.id = row.id := StepRow.id_of_declared hswept.declared
  have hcurRun : current.workflowRunId = run.id :=
    (StepRow.run_of_declared hswept.declared).trans hrun
  have honly : ∀ step ∈ db.workflow.steps, step.id = row.id → step = current :=
    fun step hstep hstepId => eq_of_key_eq hstep hcur (hstepId.trans hid.symm)
  have hended : row.status.isTerminal = true →
      Visits strict run.id mid visited row.id db db := by
    intro hterm
    refine h.skip fun step hstep hstepId => ?_
    rw [honly step hstep hstepId]
    rcases hswept.status with hstat | ⟨_, hopen, _⟩
    · rw [hstat]
      exact hterm
    · exact absurd (hopen.symm.trans hterm) nofun
  have hjob : row.status = .enqueued ∨ row.status = .running →
      ∃ state, cancelNonterminalWorkflowStep run metadata (progressed, db) row = .ok state ∧
        Visits strict run.id mid visited row.id db state.2 := by
    intro hstat
    have hsame := hswept.of_unvisited
      (by rcases hstat with hstat | hstat <;> simp [hstat]) hvisited
    obtain ⟨jobId, hjobId⟩ := h.flow.job_of_open hcur (hsame ▸ hstat)
    obtain ⟨db', hok, hvisits⟩ := h.visitJob hcur hcurRun (hsame ▸ hstat) hjobId
      metadata.reason
    have hscope : current.cancellationScope = row.cancellationScope := by
      rw [StepRow.cancellationScope, StepRow.cancellationScope,
        StepRow.organization_of_declared hswept.declared]
    rw [hscope] at hok
    rw [hswept.jobId] at hjobId
    refine ⟨(true, db'), ?_, hid ▸ hvisits⟩
    rcases hstat with hstat | hstat <;>
      simp only [cancelNonterminalWorkflowStep, hstat, hjobId, bind_eq_ok, require_eq_ok,
        pure_eq_ok] <;>
      exact ⟨jobId, rfl, some db', hok, db', rfl, rfl⟩
  cases hstat : row.status with
  | succeeded | failed | canceled =>
    refine ⟨(progressed, db), ?_, hended (by rw [hstat]; rfl)⟩
    simp only [cancelNonterminalWorkflowStep, hstat]
  | enqueued | running => exact hjob (by simp [hstat])
  | waitingForExternal =>
    have hsame := hswept.of_unvisited (by simp [hstat]) hvisited
    obtain ⟨db', hok, hvisits⟩ := h.visitExternal metadata hvisible hcur hcurRun
      (hsame.trans hstat)
    refine ⟨(true, db'), ?_, hid ▸ hvisits⟩
    rw [StepRow.key_of_declared hswept.declared] at hok
    simp only [cancelNonterminalWorkflowStep, hstat]
    exact bind_eq_ok.mpr ⟨db', hok, rfl⟩
  | blocked =>
    rcases hswept.status with hsame | ⟨hcanc, _, _⟩
    · obtain ⟨db', hok, hvisits⟩ := h.visitBlocked metadata hcur hcurRun
        (hsame.trans hstat)
      refine ⟨(progressed || true, db'), ?_, hid ▸ hvisits⟩
      rw [hid] at hok
      simp only [cancelNonterminalWorkflowStep, hstat]
      exact bind_eq_ok.mpr ⟨(true, db'), hok, rfl⟩
    · have hterm : ∀ step ∈ db.workflow.steps, step.id = row.id →
          step.status.isTerminal = true := by
        intro step hstep hstepId
        rw [honly step hstep hstepId, hcanc]
        rfl
      have hselect : (db.workflow.steps.select fun step => decide (step.id = row.id) &&
          decide (step.workflowRunId = run.id) && decide (step.status = .blocked)).isEmpty =
          true := by
        rw [List.isEmpty_iff, List.eq_nil_iff_forall_not_mem]
        intro step hstep
        obtain ⟨hmem, hcond⟩ := mem_select.mp hstep
        simp only [Bool.and_eq_true, decide_eq_true_eq] at hcond
        have := hterm step hmem hcond.1.1
        rw [hcond.2] at this
        cases this
      refine ⟨(progressed || false, db), ?_, h.skip hterm⟩
      simp only [cancelNonterminalWorkflowStep, hstat]
      refine bind_eq_ok.mpr ⟨(false, db), ?_, rfl⟩
      simp only [cancelBlockedWorkflowStep, hselect, if_true]

/-- What a round has still to do. -/
structure Sweeping.Remaining (strict : Prop) (workflowRunId : ℕ) (mid : Database)
    (rest : List StepRow) (db : Database) : Prop where
  sweeping : ∃ visited, Sweeping strict workflowRunId mid visited db ∧
    ∀ row ∈ rest, row.id ∉ visited
  loaded : ∀ row ∈ rest, row ∈ mid.workflow.steps ∧ row.workflowRunId = workflowRunId
  distinct : (rest.map StepRow.id).Nodup
  open_mem : ∀ step ∈ db.workflow.steps, step.workflowRunId = workflowRunId →
    step.status.isTerminal = false → step.id ∈ rest.map StepRow.id

variable {rest : List StepRow}

theorem Sweeping.Remaining.visit {progressed : Bool}
    (h : Sweeping.Remaining strict run.id mid (row :: rest) db)
    (hvisible : ∀ row ∈ mid.workflow.runs, row.id = run.id →
      row.organizationId = run.organizationId) :
    ∃ state, cancelNonterminalWorkflowStep run metadata (progressed, db) row = .ok state ∧
      Sweeping.Remaining strict run.id mid rest state.2 := by
  obtain ⟨visited, hsweeping, hfresh⟩ := h.sweeping
  obtain ⟨hrow, hrun⟩ := h.loaded row mem_cons_self
  obtain ⟨hnot, hdist⟩ := nodup_cons.mp h.distinct
  obtain ⟨state, hok, hvisits⟩ := hsweeping.visit hvisible hrow hrun
    (hfresh row mem_cons_self) progressed
  refine ⟨state, hok, ⟨row.id :: visited, hvisits.sweeping, ?_⟩, ?_, hdist, ?_⟩
  · intro other hother hmem
    rcases mem_cons.mp hmem with heq | hmem
    · exact hnot (heq ▸ mem_map_of_mem hother)
    · exact hfresh other (mem_cons_of_mem row hother) hmem
  · exact fun other hother => h.loaded other (mem_cons_of_mem row hother)
  · intro step hstep hstepRun hopen
    obtain ⟨before, hbefore, hswept⟩ := hvisits.steps.2 step hstep
    have hid := StepRow.id_of_declared hswept.declared
    have hopenBefore : before.status.isTerminal = false := hswept.of_open hopen ▸ hopen
    have hmem := h.open_mem before hbefore
      ((StepRow.run_of_declared hswept.declared).symm.trans hstepRun) hopenBefore
    rw [← hid, map_cons, mem_cons] at hmem
    refine hmem.resolve_left fun hsame => ?_
    exact absurd (hopen.symm.trans (hvisits.ended step hstep hsame)) nofun

/-- One round ends every step of the run. -/
theorem Sweeping.Remaining.sweep (h : Sweeping.Remaining strict run.id mid rest db)
    (metadata : CancellationMetadata) (fuel : ℕ) (stalledOnce : Bool)
    (hvisible : ∀ row ∈ mid.workflow.runs, row.id = run.id →
      row.organizationId = run.organizationId) :
    ∃ db', sweep run metadata (fuel + 1) stalledOnce db rest = .ok db' ∧
      Sweeping.Remaining strict run.id mid [] db' := by
  obtain ⟨state, hok, hend⟩ := foldlM_total
    (f := cancelNonterminalWorkflowStep run metadata)
    (P := fun rest state => Sweeping.Remaining strict run.id mid rest state.2)
    (fun _ _ state hst => hst.visit hvisible) (b := (false, db)) h
  refine ⟨state.2, ?_, hend⟩
  have hempty : (loadNonterminalWorkflowSteps state.2 run.id).isEmpty = true := by
    rw [List.isEmpty_iff, loadNonterminalWorkflowSteps, List.filter_eq_nil_iff]
    intro step hstep hopen
    rw [lockWorkflowStepsForUpdate, mem_orderedBy, mem_stepsOf] at hstep
    have hmem := hend.open_mem step hstep.1 hstep.2 (by simpa using hopen)
    cases hmem
  rw [Postgres.sweep]
  refine bind_eq_ok.mpr ⟨state, hok, ?_⟩
  simp only [hempty, if_true]
  rfl

end Sweep

section Cancel

variable [UuidSource] {db : Database}

/-- The database in which a run has just been marked as canceled. -/
def Database.markCanceled (db : Database) (run : RunRow) : Database :=
  { db with workflow := setRunStatus db.workflow run .canceled none }

/-- The sweep begins with the run marked and nothing visited. -/
theorem Sound.markCanceled (hsound : Sound db) (strict : Prop) (hrun : run ∈ db.workflow.runs)
    (hopen : run.status.isTerminal = false) :
    Sweeping strict run.id (db.markCanceled run) [] (db.markCanceled run) ∧
      Evolves none db (db.markCanceled run) := by
  have hrepl : RunReplaced db (db.markCanceled run).workflow.runs run
      (run.withStatus .canceled none) := fun row => mem_runs_after_update hrun
  have hevolves : run.Evolves (run.withStatus .canceled none) :=
    ⟨rfl, fun hended => absurd (hopen.symm.trans hended) nofun⟩
  have hflow : Flow [] [] (db.markCanceled run) :=
    hsound.flow.replaceRun hrun hrepl rfl (fun _ => rfl) fun _ _ _ => ⟨nofun, nofun⟩
  have hsettled : Settled (some run.id) (db.markCanceled run) :=
    hsound.settled.replaceRun hsound.flow.graph nofun (fun _ hid => (Option.some.inj hid).symm)
      hrun hrepl rfl (setRunStatus_claims db run .canceled none) nofun
      (fun _ => ⟨rfl, .inr rfl⟩) (fun _ => ⟨.inl (.inl hopen), fun hquiet => hquiet.2⟩)
      (fun _ => rfl)
  refine ⟨⟨hflow, hsettled, .refl _ _, rfl, ?_, ?_, fun job hjob => ⟨job, hjob, rfl⟩,
    .refl⟩, ?_⟩
  · exact ⟨run.withStatus .canceled none, (hrepl _).mpr (.inr rfl), rfl, rfl⟩
  · exact .refl .refl _
  · exact { Evolves.refl none db with
      runs := hrepl.related hrun .refl hevolves }

/-- The claim of a canceled run is given up, or kept while a canceled lease is live. -/
theorem Sweeping.release {mid : Database} (h : Sweeping strict runId mid visited db)
    (hended : ∀ step ∈ db.workflow.stepsOf runId, step.status.isTerminal = true) :
    Sound (releaseOrDeferWorkflowActiveClaim db runId) ∧
      Evolves none db (releaseOrDeferWorkflowActiveClaim db runId) := by
  obtain ⟨run, hrun, rfl, hcanc⟩ := h.isCanceled
  have hterm : run.status.isTerminal = true := by
    rw [hcanc]
    rfl
  have hclaims := releaseOrDefer_claims db run.id hterm
  rw [releaseOrDefer_frame] at hclaims ⊢
  have hrepl : RunReplaced db db.workflow.runs run run := by
    intro row
    refine ⟨fun hrow => ?_, ?_⟩
    · by_cases hsame : row.id = run.id
      · exact .inr (eq_of_key_eq hrow hrun hsame)
      · exact .inl ⟨hrow, hsame⟩
    · rintro (⟨hrow, _⟩ | rfl)
      · exact hrow
      · exact hrun
  have hexact : run.Exact db.workflow := by
    refine ⟨fun hne => absurd hcanc hne, fun _ => hended, ?_⟩
    rw [(h.settled.lagging run hrun rfl).1, hcanc]
    rfl
  refine ⟨⟨?_, ?_⟩, { Evolves.refl none db with }⟩
  · exact h.flow.replaceRun hrun hrepl rfl id fun _ _ _ => by simp [hcanc]
  · refine h.settled.replaceRun h.flow.graph (fun _ heq => (Option.some.inj heq).symm) nofun hrun
      hrepl rfl hclaims (fun _ => hexact) (fun hne => absurd rfl hne) ?_ fun _ => hterm
    intro hlive
    refine ⟨.inr rfl, ?_⟩
    rintro ⟨_, hquiet⟩
    rcases hlive.resolve_right (fun hne => hne rfl) with hopen | hlease
    · exact absurd (hopen.symm.trans hterm) nofun
    · exact absurd (hquiet.symm.trans hlease) nofun

/-- The run is canceled with everything in it, and nothing was released for it. -/
structure RunCanceled (run : RunRow) (db db' : Database) : Prop where
  marked : run.withStatus .canceled none ∈ db'.workflow.runs
  steps : Table.Related
    (fun before after : StepRow => after.declared = before.declared ∧
      after.jobId = before.jobId ∧ after.releasedAt = before.releasedAt ∧
      (before.workflowRunId = run.id → after.status =
        if before.status.isTerminal then before.status else .canceled))
    db.workflow.steps db'.workflow.steps
  jobs : ∀ job ∈ db'.queue.jobs, ∃ before ∈ db.queue.jobs, before.id = job.id

/-- A run that has not ended is canceled completely and without an error. -/
theorem cancelWorkflowRun_spec (hsound : Sound db) (hrun : run ∈ db.workflow.runs)
    (hopen : run.status.isTerminal = false) (org : Option ℕ) (metadata : CancellationMetadata)
    (hvisible : run.isVisibleTo org = true) :
    ∃ db', cancelWorkflowRun db run.id org metadata = .ok db' ∧
      Keeps strict db db' ∧ RunCanceled run db db' := by
  obtain ⟨hsweeping, hmarked⟩ := hsound.markCanceled strict hrun hopen
  have hstart : Sweeping.Remaining strict run.id (db.markCanceled run)
      (lockWorkflowStepsForUpdate db run.id) (db.markCanceled run) := by
    refine ⟨⟨[], hsweeping, fun _ _ => not_mem_nil⟩, ?_, ?_, ?_⟩
    · intro row hrow
      rw [lockWorkflowStepsForUpdate, mem_orderedBy] at hrow
      exact mem_stepsOf.mp hrow
    · exact ((orderedBy_perm StepRow.id _).map StepRow.id).nodup_iff.mpr
        ((filter_sublist.map StepRow.id).nodup db.workflow.steps.nodup)
    · intro step hstep hid _
      refine mem_map_of_mem ?_
      rw [lockWorkflowStepsForUpdate, mem_orderedBy]
      exact mem_stepsOf.mpr ⟨hstep, hid⟩
  have hsame : ∀ row ∈ (db.markCanceled run).workflow.runs, row.id = run.id →
      row.organizationId = run.organizationId := by
    intro row hrow hid
    rcases (mem_runs_after_update hrun).mp hrow with ⟨_, hne⟩ | rfl
    · exact absurd hid hne
    · rfl
  obtain ⟨db1, hok, hdone⟩ := hstart.sweep metadata
    (2 * (lockWorkflowStepsForUpdate db run.id).length + 1) false hsame
  obtain ⟨visited, hend, _⟩ := hdone.sweeping
  have hended : ∀ step ∈ db1.workflow.stepsOf run.id, step.status.isTerminal = true := by
    intro step hstep
    obtain ⟨hmem, hid⟩ := mem_stepsOf.mp hstep
    by_contra hne
    have := hdone.open_mem step hmem hid (by simpa using hne)
    cases this
  obtain ⟨hsound', hrel⟩ := hend.release hended
  have hframe := releaseOrDefer_frame db1 run.id
  refine ⟨releaseOrDeferWorkflowActiveClaim db1 run.id, ?_, ⟨hsound', ?_, ?_⟩, ⟨?_, ?_, ?_⟩⟩
  · have hlock : lockWorkflowRunForUpdate db run.id org = .ok run := by
      rw [lockWorkflowRunForUpdate, require_eq_ok, get?_of_mem hrun, Option.filter_some,
        if_pos hvisible]
    refine bind_eq_ok.mpr ⟨run, hlock, ?_⟩
    simp only [hopen]
    refine bind_eq_ok.mpr ⟨db1, hok, ?_⟩
    rw [hend.recompute]
    rfl
  · refine ((hmarked.loosen _).trans (hend.evolves.trans (hrel.loosen _))).tighten ?_
    intro row hrow hid
    rw [eq_of_key_eq hrow hrun hid]
    exact hopen
  · rw [hframe]
    exact hend.queue
  · rw [hframe]
    change _ ∈ db1.workflow.runs
    rw [hend.runs]
    exact (mem_runs_after_update hrun).mpr (.inr rfl)
  · rw [hframe]
    have hstat : ∀ before ∈ db.workflow.steps, ∀ after ∈ db1.workflow.steps,
        before.Swept visited after → before.workflowRunId = run.id →
        after.status = if before.status.isTerminal then before.status else .canceled := by
      intro before _ after hafter hswept hid
      have hterm := hended after (mem_stepsOf.mpr ⟨hafter,
        (StepRow.run_of_declared hswept.declared).trans hid⟩)
      rcases hswept.status with hstat | ⟨hcanc, hbefore, _⟩
      · rw [if_pos (hstat ▸ hterm)]
        exact hstat
      · rw [hbefore]
        exact hcanc
    constructor
    · intro before hbefore
      obtain ⟨after, hafter, hswept⟩ := hend.steps.1 before hbefore
      exact ⟨after, hafter, hswept.declared, hswept.jobId, hswept.releasedAt,
        hstat before hbefore after hafter hswept⟩
    · intro after hafter
      obtain ⟨before, hbefore, hswept⟩ := hend.steps.2 after hafter
      exact ⟨before, hbefore, hswept.declared, hswept.jobId, hswept.releasedAt,
        hstat before hbefore after hafter hswept⟩
  · rw [hframe]
    exact hend.jobs

theorem cancelWorkflowRun_keeps {db' : Database} {org : Option ℕ} (hsound : Sound db)
    (hok : cancelWorkflowRun db runId org metadata = .ok db') : Keeps strict db db' := by
  obtain ⟨run, hlock, hrest⟩ := bind_eq_ok.mp hok
  rw [lockWorkflowRunForUpdate, require_eq_ok, Option.filter_eq_some_iff, get?_eq_some]
    at hlock
  obtain ⟨⟨hrun, rfl⟩, hvisible⟩ := hlock
  cases hopen : run.status.isTerminal with
  | true =>
    simp only [hopen, if_true] at hrest
    obtain rfl := pure_eq_ok.mp hrest
    exact .refl hsound
  | false =>
    obtain ⟨after, hafter, hkeeps, _⟩ :=
      cancelWorkflowRun_spec hsound hrun hopen org metadata hvisible
    rw [hok] at hafter
    obtain rfl := Except.ok.inj hafter
    exact hkeeps

end Cancel

end Batter.Runledger.Postgres
