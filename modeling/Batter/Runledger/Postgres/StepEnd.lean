import Batter.Runledger.Postgres.Consistency

/-!
# The end of a step

A step ends together with its job, the ended step acts on its dependents, and the
status of its run is recomputed.  `EndsStep` says what the end of a step is, for
whatever reason it ends; `EndsStep.resolve` is what follows from it, and
`finishStep_spec` adds the recomputation.
-/

namespace Batter.Runledger.Postgres

open RustStd Table

variable {strict : Prop} {queue' : QueueTables} {step row : StepRow} {runId : ℕ}

section Cascade

variable {db db' : Database}

theorem queueSteps_of_inserts {now : ℕ} {queue : QueueTables}
    (h : Relation.ReflTransGen QueueTables.InsertStep queue queue') :
    QueueSteps strict now queue queue' :=
  .mono (fun _ _ hins => .insert hins) _ _ h

theorem StepRow.Advance.evolves {allowed : Prop} {before after : StepRow}
    (h : StepRow.Advance runId allowed before after) : before.Evolves after := by
  cases h with
  | kept declared _ status jobId _ _ output =>
    exact ⟨declared, fun _ => ⟨status, output, jobId⟩⟩
  | refused declared _ blocked _ _ _ _ => exact .of_open declared (by rw [blocked]; rfl)
  | released declared _ blocked _ _ _ _ => exact .of_open declared (by rw [blocked]; rfl)

variable [UuidSource]

variable (h : Advances runId db db')
include h

/-- Working off ended steps leaves the steps of other runs as they are. -/
theorem Advances.mem_steps_iff (hrun : step.workflowRunId ≠ runId) :
    step ∈ db'.workflow.steps ↔ step ∈ db.workflow.steps := by
  have hsame : ∀ before after : StepRow, StepRow.Advance runId
      (db.workflow.IsReleasable runId) before after →
      before.workflowRunId ≠ runId → after = before := by
    intro before after hadvance hforeign
    cases hadvance with
    | kept _ foreign _ _ _ _ _ => exact foreign hforeign
    | refused _ run _ _ _ _ _ => exact absurd run hforeign
    | released _ run _ _ _ _ _ => exact absurd run hforeign
  constructor
  · intro hstep
    obtain ⟨before, hbefore, hadvance⟩ := h.steps.2 step hstep
    have hforeign : before.workflowRunId ≠ runId := by
      rw [← StepRow.run_of_declared hadvance.declared]
      exact hrun
    rw [hsame before step hadvance hforeign]
    exact hbefore
  · intro hstep
    obtain ⟨after, hafter, hadvance⟩ := h.steps.1 step hstep
    rw [← hsame step after hadvance hrun]
    exact hafter

theorem Advances.evolves : Evolves (some runId) db db' where
  clock := h.clock
  generated := h.generated
  dependencies := h.dependencies
  mutations := h.mutations
  runs := by
    rw [h.runs]
    exact .refl .refl _
  steps := h.steps.imp fun _ _ => StepRow.Advance.evolves
  frozen := by
    intro run _ _ hloose step hstep hid
    refine (h.mem_steps_iff ?_).mpr hstep
    rw [hid]
    exact fun hsame => hloose (congrArg some hsame)
  endedJobs := fun _ _ _ job hjob _ => h.oldJobs job hjob

theorem Advances.settled (hsettled : Settled (some runId) db) (hgraph : Graph db.workflow) :
    Settled (some runId) db' := by
  have hlags := hsettled.lags
  refine hsettled.afterSteps (fun _ hid => (Option.some.inj hid).symm)
    (fun run hrun hid => (hlags run hrun hid).1) (fun run hrun hid => (hlags run hrun hid).2)
    hgraph h.runs h.activeClaims (fun step hstep => h.mem_steps_iff hstep) ?_ h.clock ?_
  · intro _ _ _ job hjob _ hcanc
    rcases h.newJobs job hjob with hold | ⟨_, _, hnew⟩
    · exact hold
    · rw [hnew.status] at hcanc
      cases hcanc
  · have hqueue : QueueSteps True db.clock db.queue db'.queue := queueSteps_of_inserts h.inserts
    rw [h.clock]
    exact hsettled.queue.steps hqueue

end Cascade

section EndsStep

/-- The step `row` ends as `row'`, and the queue changes with it. -/
structure EndsStep (db : Database) (row row' : StepRow) (queue' : QueueTables) : Prop where
  mem : row ∈ db.workflow.steps
  opened : row.status.isTerminal = false
  ended : row'.status.isTerminal = true
  declared : row'.declared = row.declared
  pending : row'.dependencyCountPending = row.dependencyCountPending
  unsatisfied : row'.dependencyCountUnsatisfied = row.dependencyCountUnsatisfied
  releasedAt : row'.releasedAt = row.releasedAt
  jobId : row'.jobId = row.jobId
  unreleased : row.releasedAt = none → row'.status = .canceled
  refused : ¬ db.workflow.IsCanceled row.workflowRunId → row.releasedAt = none →
    row.dependencyCountPending = 0 ∧ 0 < row.dependencyCountUnsatisfied ∧
      row'.statusReason = some dependencyUnsatisfied
  otherJobs : ∀ job ∈ db.queue.jobs, row.jobId ≠ some job.id → job ∈ queue'.jobs
  ownJob : ∀ jobId, row.jobId = some jobId → ∃ job ∈ queue'.jobs, job.id = jobId ∧
    job.organizationId = row.organizationId ∧ Paired row'.status job.status
  oldJobs : ∀ job ∈ queue'.jobs, ∃ job' ∈ db.queue.jobs, job'.id = job.id

/-- The database after a step was updated together with the queue. -/
def Database.withStep (db : Database) (row : StepRow) (f : StepRow → StepRow)
    (hkey : ∀ row, (f row).id = row.id) (queue : QueueTables) : Database :=
  (db.withQueue queue).withSteps (db.workflow.steps.modify row.id f hkey)

variable {db : Database} {f : StepRow → StepRow}
variable {hkey : ∀ row, (f row).id = row.id} {loose : Option ℕ}
variable {awaited others : List ℕ}

theorem mem_withStep (hrow : row ∈ db.workflow.steps) :
    step ∈ (db.withStep row f hkey queue').workflow.steps ↔
      (step ∈ db.workflow.steps ∧ step.id ≠ row.id) ∨ step = f row := by
  change step ∈ db.workflow.steps.modify row.id f hkey ↔ _
  rw [mem_modify]
  refine or_congr_right ⟨?_, ?_⟩
  · rintro ⟨before, hbefore, hid, rfl⟩
    rw [eq_of_key_eq hbefore hrow hid]
  · rintro rfl
    exact ⟨row, hrow, rfl, rfl⟩

/-- The steps of other runs stay. -/
theorem mem_withStep_of_ne (hrow : row ∈ db.workflow.steps)
    (hrun : (f row).workflowRunId = row.workflowRunId)
    (hforeign : step.workflowRunId ≠ row.workflowRunId) :
    step ∈ (db.withStep row f hkey queue').workflow.steps ↔ step ∈ db.workflow.steps := by
  rw [mem_withStep hrow]
  constructor
  · rintro (⟨hold, _⟩ | rfl)
    · exact hold
    · exact absurd hrun hforeign
  · intro hold
    refine .inl ⟨hold, fun hid => hforeign ?_⟩
    rw [eq_of_key_eq hold hrow hid]

/-- A job that is linked to another step stays as it is. -/
theorem EndsStep.mem_jobs {job : JobRow} (h : EndsStep db row (f row) queue')
    (hlinked : Linked db.workflow.steps db.queue.jobs) (hstep : step ∈ db.workflow.steps)
    (hne : step ≠ row) (hjob : job ∈ db.queue.jobs) (hjobId : step.jobId = some job.id) :
    job ∈ queue'.jobs := by
  refine h.otherJobs job hjob fun hshared => hne ?_
  exact hlinked.unshared step hstep row h.mem job.id hjobId hshared

variable [UuidSource]

section

variable (h : EndsStep db row (f row) queue') (hflow : Flow [] awaited db)
include h hflow

theorem EndsStep.flow (hawaited : ∀ id ∈ awaited, id ≠ row.id → id ∈ others) :
    Flow [row.id] others (db.withStep row f hkey queue') := by
  have hplaced := hflow.placed row h.mem
  have hended := h.ended
  have hsteps : (db.withStep row f hkey queue').workflow.steps =
      db.workflow.steps.modify row.id f hkey := rfl
  refine hflow.modifyStep h.mem hsteps rfl rfl h.declared h.pending h.unsatisfied ?_ ?_ hawaited
    ?_ ?_ ?_ ?_ ?_ (le_refl _)
  · exact stepOutcome_modify_queue hkey h.mem h.opened fun id => by simp
  · refine ⟨?_, ?_, ?_, ?_, ?_, ?_⟩
    · intro hsome
      rw [h.releasedAt] at hsome
      obtain ⟨_, hpend, hunsat, hjob⟩ := hplaced.released hsome
      refine ⟨?_, h.pending.trans hpend, h.unsatisfied.trans hunsat, ?_⟩
      · intro hblk
        rw [hblk] at hended
        cases hended
      · rw [StepRow.kind_of_declared h.declared, h.jobId]
        exact hjob
    · intro hnone
      rw [h.releasedAt] at hnone
      exact ⟨.inr (h.unreleased hnone), h.jobId.trans (hplaced.unreleased hnone).2⟩
    · intro hkind
      rw [StepRow.kind_of_declared h.declared] at hkind
      refine ⟨h.jobId.trans (hplaced.external hkind).1, ?_, ?_⟩ <;>
        · intro hstat
          rw [hstat] at hended
          cases hended
    · intro _ hstat
      rw [hstat] at hended
      cases hended
    · intro _ hstat
      rw [hstat] at hended
      cases hended
    · intro hrun hnone _
      rw [h.pending, h.unsatisfied]
      exact h.refused hrun (h.releasedAt ▸ hnone)
  · intro hopen
    exact absurd (hopen.symm.trans hended) nofun
  · intro job hjob hother
    exact ⟨job, h.otherJobs job hjob hother, rfl, rfl, rfl⟩
  · intro jobId hjob
    exact h.ownJob jobId (h.jobId ▸ hjob)
  · intro step hstep hne jobId hjob hshared
    rw [h.jobId] at hshared
    exact hne (congrArg StepRow.id (hflow.linked.unshared step hstep row h.mem jobId hjob hshared))
  · intro job hjob
    obtain ⟨job', hjob', hid⟩ := h.oldJobs job hjob
    exact hid ▸ hflow.drawn.job job' hjob'

theorem EndsStep.settled (hsettled : Settled loose db)
    (hloose : ∀ id, loose = some id → id = row.workflowRunId)
    (hlags : Lags loose db row.workflowRunId) (hqueue : QueueInvariant db.clock queue') :
    Settled (some row.workflowRunId) (db.withStep row f hkey queue') := by
  refine hsettled.afterSteps hloose (fun run hrun hid => (hlags run hrun hid).1)
    (fun run hrun hid => (hlags run hrun hid).2) hflow.graph rfl rfl
    (fun step => mem_withStep_of_ne h.mem (StepRow.run_of_declared h.declared)) ?_ rfl hqueue
  intro step hstep hforeign job hjob hjobId _
  obtain ⟨job', hjob', hid⟩ := h.oldJobs job hjob
  have hkept : job' ∈ queue'.jobs := by
    refine h.mem_jobs hflow.linked hstep ?_ hjob' (hid ▸ hjobId)
    rintro rfl
    exact hforeign rfl
  rwa [← eq_of_key_eq hkept hjob hid]

theorem EndsStep.evolves : Evolves (some row.workflowRunId) db (db.withStep row f hkey queue') where
  __ := Evolves.refl none db
  steps := related_modify hkey h.mem (fun step _ => StepRow.Evolves.refl step)
    (.of_open h.declared h.opened)
  frozen := by
    intro run _ _ hloose step hstep hid
    refine (mem_withStep h.mem).mpr (.inl ⟨hstep, fun hsame => hloose ?_⟩)
    rw [← hid, eq_of_key_eq hstep h.mem hsame]
  endedJobs := by
    intro step hstep hended job hjob hjobId
    refine h.mem_jobs hflow.linked hstep ?_ hjob hjobId
    rintro rfl
    exact absurd (h.opened.symm.trans hended) nofun

end

variable (hkey) in

/-- What the end of a step does to the database: its dependents are resolved, and the status
of its run may lag behind. -/
theorem EndsStep.resolve (h : EndsStep db row (f row) queue') (hflow : Flow [] awaited db)
    (hawaited : ∀ id ∈ awaited, id ≠ row.id → id ∈ others) (hsettled : Settled loose db)
    (hloose : ∀ id, loose = some id → id = row.workflowRunId)
    (hlags : Lags loose db row.workflowRunId) (hqueue : QueueInvariant db.clock queue') :
    ∃ db', resolveTerminalStepQueue (db.withStep row f hkey queue') row.workflowRunId row.id
        (f row).status = .ok db' ∧
      Flow [] others db' ∧ Settled (some row.workflowRunId) db' ∧
      Evolves (some row.workflowRunId) db db' ∧
      Advances row.workflowRunId (db.withStep row f hkey queue') db' ∧
      ∀ step ∈ db.workflow.steps, step.id ≠ row.id → step.dependencyCountPending = 0 →
        step ∈ db'.workflow.steps := by
  have hflow' : Flow [(f row).id] others (db.withStep row f hkey queue') := by
    rw [hkey row]
    exact h.flow hflow hawaited
  have hsettled' : Settled (some row.workflowRunId) (db.withStep row f hkey queue') :=
    h.settled hflow hsettled hloose hlags hqueue
  obtain ⟨db', hok, hend, hadvances, hstill⟩ := resolveTerminalStepQueue_spec hflow'
    ((mem_withStep h.mem).mpr (.inr rfl)) h.ended
  rw [StepRow.run_of_declared h.declared, hkey row] at hok
  rw [StepRow.run_of_declared h.declared] at hadvances
  exact ⟨db', hok, hend, hadvances.settled hsettled' hflow'.graph,
    (h.evolves hflow).trans hadvances.evolves, hadvances, fun step hstep hne =>
      hstill step ((mem_withStep h.mem).mpr (.inl ⟨hstep, hne⟩))⟩

end EndsStep

section Keeps

/-- The database is in order between transactions. -/
structure Sound [UuidSource] (db : Database) : Prop where
  flow : Flow [] [] db
  settled : Settled none db

/-- What a transaction does that neither enqueues a run nor appends steps. -/
structure Keeps [UuidSource] (strict : Prop) (db db' : Database) : Prop where
  sound : Sound db'
  evolves : Evolves none db db'
  queue : QueueSteps strict db.clock db.queue db'.queue

variable {db db' db'' : Database}

/-- A run that had not ended may lag behind. -/
theorem Evolves.tighten (h : Evolves (some runId) db db')
    (hopen : ∀ run ∈ db.workflow.runs, run.id = runId → run.status.isTerminal = false) :
    Evolves none db db' := by
  refine { h with frozen := fun run hrun hended _ => ?_ }
  refine h.frozen run hrun hended fun hid => ?_
  exact absurd ((hopen run hrun (Option.some.inj hid)).symm.trans hended) nofun

theorem recompute_queue (db : Database) (runId : ℕ) :
    (recomputeWorkflowRunStatus db runId).queue = db.queue := by
  unfold recomputeWorkflowRunStatus
  split
  · rfl
  · dsimp only
    split_ifs
    · rfl
    · rfl
    · rw [releaseOrDefer_frame]
      rfl
    · rfl

theorem Settled.open_of_step (h : Settled none db) (hstep : step ∈ db.workflow.steps)
    (hopen : step.status.isTerminal = false) :
    ∀ run ∈ db.workflow.runs, run.id = step.workflowRunId → run.status.isTerminal = false := by
  intro run hrun hid
  exact (h.exact run hrun nofun).open_of_step (mem_stepsOf.mpr ⟨hstep, hid.symm⟩) hopen

variable [UuidSource]

theorem Keeps.refl (h : Sound db) : Keeps strict db db :=
  ⟨h, .refl none db, .refl⟩

theorem Keeps.trans (h : Keeps strict db db') (h' : Keeps strict db' db'') :
    Keeps strict db db'' := by
  refine ⟨h'.sound, h.evolves.trans h'.evolves, h.queue.trans ?_⟩
  rw [← h.evolves.clock]
  exact h'.queue

/-- The end of a step is resolved without an error. -/
theorem finishStep_spec {status : WorkflowStepStatus} {reason : StepReason} {output : Option Json}
    (h : Sound db) (hends : EndsStep db row (row.finish status reason output) queue')
    (hqueue : QueueSteps strict db.clock db.queue queue') :
    ∃ db', finishStep (db.withQueue queue') row status reason output = .ok db' ∧
      Keeps strict db db' := by
  have hopen := h.settled.open_of_step hends.mem hends.opened
  obtain ⟨db1, hok, hflow, hsettled, hevolves, hadvances, _⟩ := hends.resolve
    (StepRow.finish_id status reason output) h.flow (fun _ hid _ => hid) h.settled nofun
    (h.settled.lags_of_open hends.mem hends.opened) (h.settled.queue.steps hqueue)
  have hruns : db1.workflow.runs = db.workflow.runs := hadvances.runs
  obtain ⟨hflow', hsettled', hevolves'⟩ := hsettled.recompute hflow (by
    rw [hruns]
    intro run hrun hid hcanc
    have := hopen run hrun hid
    rw [hcanc] at this
    cases this)
  refine ⟨recomputeWorkflowRunStatus db1 row.workflowRunId, bind_eq_ok.mpr ⟨db1, hok, rfl⟩,
    ⟨hflow', hsettled'⟩, (hevolves.trans (hevolves'.loosen _)).tighten hopen, ?_⟩
  rw [recompute_queue]
  exact hqueue.trans (queueSteps_of_inserts hadvances.inserts)

end Keeps

end Batter.Runledger.Postgres
