import Batter.Runledger.Postgres.WorkflowInvariant

/-!
# What follows from an ended step

Working off the queue of ended steps keeps the invariant of the workflow tables,
never fails and ends: `resolveTerminalStepQueue_spec`.  Along the way steps only
move from blocked to released or canceled, and the queue of jobs only gets new
pending rows; `Advances` collects what stays as it was.
-/

namespace Batter.Runledger.Postgres

open RustStd List Table

variable {db db' : Database} {queued awaited others : List ℕ} {status : WorkflowStepStatus}
variable {runId id : ℕ}

section Advances

/-- Steps of the run may be released. -/
def WorkflowTables.IsReleasable (tables : WorkflowTables) (workflowRunId : ℕ) : Prop :=
  ∃ run ∈ tables.runs, run.id = workflowRunId ∧
    (run.status = .running ∨ run.status = .waitingForExternal)

/-- What happens to a step while ended steps are worked off. -/
inductive StepRow.Advance (workflowRunId : ℕ) (allowed : Prop) (before after : StepRow) : Prop
  | kept
      (declared : after.declared = before.declared)
      (foreign : before.workflowRunId ≠ workflowRunId → after = before)
      (status : after.status = before.status)
      (jobId : after.jobId = before.jobId)
      (releasedAt : after.releasedAt = before.releasedAt)
      (statusReason : after.statusReason = before.statusReason)
      (output : after.output = before.output)
  | refused
      (declared : after.declared = before.declared)
      (run : before.workflowRunId = workflowRunId)
      (blocked : before.status = .blocked)
      (status : after.status = .canceled)
      (jobId : after.jobId = before.jobId)
      (releasedAt : after.releasedAt = before.releasedAt)
      (statusReason : after.statusReason = some dependencyUnsatisfied)
  | released
      (declared : after.declared = before.declared)
      (run : before.workflowRunId = workflowRunId)
      (blocked : before.status = .blocked)
      (allowed : allowed)
      (status : after.status = .enqueued ∨ after.status = .waitingForExternal)
      (releasedAt : after.releasedAt.isSome)
      (output : after.output = before.output)

variable {allowed : Prop} {a b c : StepRow}

theorem StepRow.Advance.refl (row : StepRow) : StepRow.Advance runId allowed row row :=
  .kept rfl (fun _ => rfl) rfl rfl rfl rfl rfl

theorem StepRow.Advance.declared (h : StepRow.Advance runId allowed a b) :
    b.declared = a.declared := by
  cases h <;> assumption

theorem StepRow.Advance.trans (h : StepRow.Advance runId allowed a b)
    (h' : StepRow.Advance runId allowed b c) : StepRow.Advance runId allowed a c := by
  have hrun := StepRow.run_of_declared h.declared
  cases h with
  | kept declared foreign status jobId releasedAt statusReason output =>
    cases h' with
    | kept declared' foreign' status' jobId' releasedAt' statusReason' output' =>
      refine .kept (declared'.trans declared) ?_ (status'.trans status) (jobId'.trans jobId)
        (releasedAt'.trans releasedAt) (statusReason'.trans statusReason)
        (output'.trans output)
      intro hforeign
      rw [foreign' (hrun ▸ hforeign), foreign hforeign]
    | refused declared' run' blocked' status' jobId' releasedAt' statusReason' =>
      exact .refused (declared'.trans declared) (hrun ▸ run') (status ▸ blocked') status'
        (jobId'.trans jobId) (releasedAt'.trans releasedAt) statusReason'
    | released declared' run' blocked' allowed' status' releasedAt' output' =>
      exact .released (declared'.trans declared) (hrun ▸ run') (status ▸ blocked') allowed'
        status' releasedAt' (output'.trans output)
  | refused declared run blocked status jobId releasedAt statusReason =>
    cases h' with
    | kept declared' _ status' jobId' releasedAt' statusReason' _ =>
      exact .refused (declared'.trans declared) run blocked (status'.trans status)
        (jobId'.trans jobId) (releasedAt'.trans releasedAt)
        (statusReason'.trans statusReason)
    | refused _ _ blocked' _ _ _ _ | released _ _ blocked' _ _ _ _ =>
      rw [status] at blocked'
      cases blocked'
  | released declared run blocked hallowed status releasedAt output =>
    cases h' with
    | kept declared' _ status' _ releasedAt' _ output' =>
      exact .released (declared'.trans declared) run blocked hallowed (status' ▸ status)
        (releasedAt' ▸ releasedAt) (output'.trans output)
    | refused _ _ blocked' _ _ _ _ =>
      rcases status with status | status <;> (rw [status] at blocked'; cases blocked')
    | released _ _ blocked' _ _ _ _ =>
      rcases status with status | status <;> (rw [status] at blocked'; cases blocked')

/-- What working off ended steps of a run leaves as it was. -/
structure Advances [UuidSource] (workflowRunId : ℕ) (db db' : Database) : Prop where
  attempts : db'.queue.attempts = db.queue.attempts
  resourceClaims : db'.queue.resourceClaims = db.queue.resourceClaims
  runs : db'.workflow.runs = db.workflow.runs
  dependencies : db'.workflow.dependencies = db.workflow.dependencies
  mutations : db'.workflow.mutations = db.workflow.mutations
  activeClaims : db'.workflow.activeClaims = db.workflow.activeClaims
  recoveries : db'.workflow.recoveries = db.workflow.recoveries
  definitions : db'.definitions = db.definitions
  clock : db'.clock = db.clock
  generated : db.generated ≤ db'.generated
  steps : Table.Related (StepRow.Advance workflowRunId (db.workflow.IsReleasable workflowRunId))
    db.workflow.steps db'.workflow.steps
  oldJobs : ∀ job ∈ db.queue.jobs, job ∈ db'.queue.jobs
  newJobs : ∀ job ∈ db'.queue.jobs, job ∈ db.queue.jobs ∨
    (db.workflow.IsReleasable workflowRunId ∧ ¬ db.Drawn job.id ∧ job.IsNew)
  inserts : Relation.ReflTransGen QueueTables.InsertStep db.queue db'.queue

variable [UuidSource] {db'' : Database}

theorem Advances.refl (runId : ℕ) (db : Database) : Advances runId db db where
  attempts := rfl
  resourceClaims := rfl
  runs := rfl
  dependencies := rfl
  mutations := rfl
  activeClaims := rfl
  recoveries := rfl
  definitions := rfl
  clock := rfl
  generated := le_refl _
  steps := .refl .refl _
  oldJobs := fun _ hjob => hjob
  newJobs := fun _ hjob => .inl hjob
  inserts := .refl

theorem Advances.trans (h : Advances runId db db') (h' : Advances runId db' db'') :
    Advances runId db db'' where
  attempts := h'.attempts.trans h.attempts
  resourceClaims := h'.resourceClaims.trans h.resourceClaims
  runs := h'.runs.trans h.runs
  dependencies := h'.dependencies.trans h.dependencies
  mutations := h'.mutations.trans h.mutations
  activeClaims := h'.activeClaims.trans h.activeClaims
  recoveries := h'.recoveries.trans h.recoveries
  definitions := h'.definitions.trans h.definitions
  clock := h'.clock.trans h.clock
  generated := h.generated.trans h'.generated
  steps := by
    have hsame : db'.workflow.IsReleasable runId =
        db.workflow.IsReleasable runId := by
      rw [WorkflowTables.IsReleasable, WorkflowTables.IsReleasable, h.runs]
    exact h.steps.trans (fun _ _ _ => .trans) (hsame ▸ h'.steps)
  oldJobs := fun job hjob => h'.oldJobs job (h.oldJobs job hjob)
  newJobs := by
    intro job hjob
    rcases h'.newJobs job hjob with hjob | ⟨hreleasable, hdrawn, hnew⟩
    · exact h.newJobs job hjob
    · rw [WorkflowTables.IsReleasable, h.runs] at hreleasable
      exact .inr ⟨hreleasable, fun hold => hdrawn (hold.mono h.generated), hnew⟩
  inserts := h.inserts.trans h'.inserts

end Advances

section Release

variable [UuidSource] {row : StepRow} {awaited' : List ℕ}

/-- A row with the next identifier and positive limits is inserted. -/
theorem insertJob_eq_ok (ctx : String) (job : JobRow)
    (hdrawn : ∀ other ∈ db.queue.jobs, db.Drawn other.id) (hid : job.id = db.nextId)
    (hatts : 0 < job.maxAttempts) (htimeout : 0 < job.timeoutSeconds)
    (hres : ∀ key, job.executionResourceKey = some key → ValidResourceKey key) :
    ∃ jobs, db.queue.jobs.insert? job = some jobs ∧
      db.insertJob ctx job = .ok (db.withNewJob jobs job) := by
  have hfresh : db.queue.jobs.get? job.id = none := by
    refine get?_eq_none.mpr fun other hother heq => ?_
    have := hdrawn other hother
    rw [heq, hid] at this
    exact db.not_drawn_nextId this
  obtain ⟨jobs, hjobs⟩ := exists_insert? hfresh
  refine ⟨jobs, hjobs, ?_⟩
  have hkey : (job.executionResourceKey.any fun key =>
      isBlank key || decide (512 < key.utf8ByteSize)) = false := by
    rw [any_eq_false_iff]
    intro key hkey
    obtain ⟨hblank, hsize⟩ := hres key hkey
    simp [hblank, hsize]
  simp only [Database.insertJob, bind_eq_ok, exists_unit, rejectIf_eq_ok, require_eq_ok,
    pure_eq_ok, decide_eq_false_iff_not, not_le]
  exact ⟨hatts, htimeout, hkey, jobs, hjobs, rfl⟩

variable {jobId : Option ℕ}

omit [UuidSource] in
/-- A blocked step that waits for nothing is marked as released. -/
theorem markReleased_eq_ok (hrow : row ∈ db.workflow.steps)
    (hreleasable : row.isReleasable = true) :
    markReleased db row.id status jobId =
      .ok (db.withSteps (db.workflow.steps.modify row.id (.release db.clock status jobId)
        (StepRow.release_id db.clock status jobId))) := by
  have huniq : ∀ step ∈ db.workflow.steps,
      (decide (step.id = row.id) && step.isReleasable) = true → step.id = row.id := by
    intro step _ hcond
    simp only [Bool.and_eq_true, decide_eq_true_eq] at hcond
    exact hcond.1
  have hselect : db.workflow.steps.select
      (fun step => decide (step.id = row.id) && step.isReleasable) = [row] := by
    refine select_eq_singleton hrow (by simp [hreleasable]) fun step hstep hcond => ?_
    exact eq_of_key_eq hstep hrow (huniq step hstep hcond)
  simp only [markReleased, hselect, length_singleton, bind_eq_ok, exists_unit,
    rejectIf_eq_ok, pure_eq_ok]
  refine ⟨by simp, ?_⟩
  rw [update_eq_modify hrow (by simp [hreleasable]) huniq]

variable (h : Flow queued awaited db) (hrow : row ∈ db.workflow.steps)
include h hrow

/-- The invariant after a step was marked as released and got its job. -/
theorem Flow.markReleased (hreleasable : row.isReleasable = true)
    (hrun : db.workflow.IsReleasable row.workflowRunId)
    (hawaited : ∀ id ∈ awaited, id ≠ row.id → id ∈ awaited')
    (hjobStep : row.executionKind = .job → status = .enqueued ∧ jobId.isSome)
    (hext : row.executionKind = .external → status = .waitingForExternal ∧ jobId = none)
    (hsteps : db'.workflow.steps =
      db.workflow.steps.modify row.id (.release db.clock status jobId)
        (StepRow.release_id db.clock status jobId))
    (hruns : db'.workflow.runs = db.workflow.runs)
    (hdeps : db'.workflow.dependencies = db.workflow.dependencies)
    (hjobs : ∀ job ∈ db.queue.jobs, job ∈ db'.queue.jobs)
    (hnew : ∀ id, jobId = some id → ¬ db.Drawn id ∧ ∃ job ∈ db'.queue.jobs, job.id = id ∧
      job.organizationId = row.organizationId ∧ job.status = .pending)
    (hdrawn : ∀ job ∈ db'.queue.jobs, db'.Drawn job.id) (hgen : db.generated ≤ db'.generated) :
    Flow queued awaited' db' := by
  simp only [StepRow.isReleasable, Bool.and_eq_true, decide_eq_true_eq, Option.isNone_iff_eq_none]
    at hreleasable
  obtain ⟨⟨⟨hblk, _⟩, hpend⟩, hunsat⟩ := hreleasable
  have hopen : status = .enqueued ∨ status = .waitingForExternal := by
    cases hkind : row.executionKind with
    | job => exact .inl (hjobStep hkind).1
    | external => exact .inr (hext hkind).1
  have hstat : (row.release db.clock status jobId).status = status := rfl
  refine h.modifyStep hrow hsteps hruns hdeps rfl rfl rfl ?_ ?_ hawaited ?_ ?_ ?_ ?_
    hdrawn hgen
  · intro id
    rw [hsteps]
    refine stepOutcome_modify_open _ hrow (by rw [hblk]; rfl) ?_ id
    rw [hstat]
    rcases hopen with rfl | rfl <;> rfl
  · refine ⟨fun _ => ⟨?_, hpend, hunsat, fun hkind => (hjobStep hkind).2⟩, ?_, ?_, ?_, ?_,
      ?_⟩
    · rw [hstat]
      rcases hopen with rfl | rfl <;> simp
    · intro hnone
      cases hnone
    · intro hkind
      obtain ⟨rfl, rfl⟩ := hext hkind
      exact ⟨rfl, by rw [hstat]; simp, by rw [hstat]; simp⟩
    · intro hkind
      rw [hstat, (hjobStep hkind).1]
      simp
    · intro _ hwaits
      rw [hstat] at hwaits
      rcases hopen with rfl | rfl <;> cases hwaits
    · intro _ hnone
      cases hnone
  · intro _ run hmem hid
    obtain ⟨run', hmem', hid', hrunStat⟩ := hrun
    rw [eq_of_key_eq hmem hmem' (hid.trans hid'.symm)]
    rcases hrunStat with hrunStat | hrunStat <;> simp [hrunStat]
  · intro job hjob _
    exact ⟨job, hjobs job hjob, rfl, rfl, rfl⟩
  · intro id hid
    obtain ⟨_, job, hjob, hjobId, horg, hpendJob⟩ := hnew id hid
    refine ⟨job, hjob, hjobId, horg, ?_⟩
    rw [hstat, hpendJob]
    cases hkind : row.executionKind with
    | job =>
      rw [(hjobStep hkind).1]
      exact .enqueued
    | external =>
      rw [(hext hkind).2] at hid
      cases hid
  · intro step hstep _ id hid hshared
    obtain ⟨job, hjob, hjobId, _⟩ := h.linked.paired step hstep id hid
    exact (hnew id hshared).1 (hjobId ▸ h.drawn.job job hjob)

/-- A step that is ready is released. -/
theorem Flow.release (hblk : row.status = .blocked) (hpend : row.dependencyCountPending = 0)
    (hunsat : row.dependencyCountUnsatisfied = 0)
    (hrun : db.workflow.IsReleasable row.workflowRunId)
    (hawaited : ∀ id ∈ awaited, id ≠ row.id → id ∈ awaited') :
    ∃ db', releaseCandidateStep db row = .ok db' ∧ Flow queued awaited' db' ∧
      Advances row.workflowRunId db db' ∧ ReleasedStep db db' row := by
  have hreleasable : row.isReleasable = true := by
    simp [StepRow.isReleasable, hblk, ((h.placed row hrow).of_blocked hblk).2, hpend, hunsat]
  have hallows : workflowRunAllowsStepRelease db row.workflowRunId = .ok true := by
    obtain ⟨run, hmem, hid, hstat⟩ := hrun
    have hget : db.workflow.runs.get? row.workflowRunId = some run := get?_eq_some.mpr ⟨hmem, hid⟩
    simp only [workflowRunAllowsStepRelease, hget, bind_eq_ok, require_eq_ok, Option.some.injEq,
      exists_eq_left', pure_eq_ok]
    simpa using hstat
  have hrelated : ∀ status jobId, (status = .enqueued ∨ status = .waitingForExternal) →
      Table.Related (StepRow.Advance row.workflowRunId
        (db.workflow.IsReleasable row.workflowRunId)) db.workflow.steps
        (db.workflow.steps.modify row.id (.release db.clock status jobId)
          (StepRow.release_id db.clock status jobId)) := by
    intro status jobId hopen
    refine related_modify _ hrow (fun step _ => .refl step) ?_
    exact .released rfl rfl hblk hrun hopen rfl rfl
  cases hkind : row.executionKind with
  | external =>
    refine ⟨db.withSteps (db.workflow.steps.modify row.id
      (.release db.clock .waitingForExternal none) (StepRow.release_id _ _ _)), ?_, ?_, ?_,
      .waitingForExternal, none, .inr rfl, rfl⟩
    · simp only [releaseCandidateStep, hallows, hkind, releaseExternalStep]
      exact markReleased_eq_ok hrow hreleasable
    · refine h.markReleased hrow hreleasable hrun hawaited ?_ (fun _ => ⟨rfl, rfl⟩) rfl rfl rfl
        (fun _ hjob => hjob) ?_ h.drawn.job (le_refl _)
      · intro hjob
        rw [hkind] at hjob
        cases hjob
      · intro id hid
        cases hid
    · exact { Advances.refl row.workflowRunId db with steps := hrelated _ _ (.inr rfl) }
  | job =>
    obtain ⟨spec, hspec, hatts, htimeout, hres⟩ := h.shaped row hrow hkind
    obtain ⟨jobs, hins, hok⟩ := insertJob_eq_ok "enqueue released workflow step job"
      (spec.row db.nextId row.organizationId row.payload db.clock) h.drawn.job rfl hatts
      htimeout hres
    have hmem := mem_insert? hins
    have hnew : (spec.row db.nextId row.organizationId row.payload db.clock).IsNew :=
      ⟨rfl, rfl, rfl, rfl, rfl, hatts⟩
    have hdrawnNew : (db.withNewJob jobs
        (spec.row db.nextId row.organizationId row.payload db.clock)).Drawn db.nextId :=
      ⟨db.generated, Nat.lt_succ_self _, rfl⟩
    refine ⟨(db.withNewJob jobs
        (spec.row db.nextId row.organizationId row.payload db.clock)).withSteps
        (db.workflow.steps.modify row.id
          (.release db.clock .enqueued (some db.nextId)) (StepRow.release_id _ _ _)), ?_, ?_, ?_,
      .enqueued, some db.nextId, .inl rfl, rfl⟩
    · refine bind_eq_ok.mpr ⟨true, hallows, ?_⟩
      simp only [hkind, if_true]
      exact bind_eq_ok.mpr ⟨spec, hspec,
        bind_eq_ok.mpr ⟨_, hok, markReleased_eq_ok hrow hreleasable⟩⟩
    · refine h.markReleased hrow hreleasable hrun hawaited (fun _ => ⟨rfl, rfl⟩) ?_ rfl rfl rfl
        (fun job hjob => (hmem job).mpr (.inl hjob)) ?_ ?_ (Nat.le_succ _)
      · intro hext
        rw [hkind] at hext
        cases hext
      · intro id hid
        obtain rfl := Option.some.inj hid
        exact ⟨db.not_drawn_nextId, _, (hmem _).mpr (.inr rfl), rfl, rfl, rfl⟩
      · intro job hjob
        rcases (hmem job).mp hjob with hold | rfl
        · exact (h.drawn.job job hold).mono (Nat.le_succ _)
        · exact hdrawnNew
    · refine { Advances.refl row.workflowRunId db with
        steps := hrelated _ _ (.inl rfl), generated := Nat.le_succ _
        oldJobs := fun job hjob => (hmem job).mpr (.inl hjob), newJobs := ?_
        inserts := .single ⟨_, jobs, hnew, hins, rfl⟩ }
      intro job hjob
      rcases (hmem job).mp hjob with hold | rfl
      · exact .inl hold
      · exact .inr ⟨hrun, db.not_drawn_nextId, hnew⟩

end Release

section Count

/-- The dependents of an ended step and whether their requirement failed. -/
def dependentUpdates (tables : WorkflowTables) (ended : ℕ) (status : WorkflowStepStatus) :
    List DirectDependentUpdate :=
  (orderedBy DependencyRow.dependentStepId (tables.dependencies.select fun edge =>
    edge.prerequisiteStepId = ended)).map fun edge =>
      ⟨edge.dependentStepId, edge.releaseMode = .onSuccess && status ≠ .succeeded⟩

/-- The dependents of an ended step. -/
abbrev dependentIds (tables : WorkflowTables) (ended : ℕ) (status : WorkflowStepStatus) : List ℕ :=
  (dependentUpdates tables ended status).map DirectDependentUpdate.stepId

variable {tables : WorkflowTables} {ended : ℕ}

theorem mem_dependentIds : id ∈ dependentIds tables ended status ↔
      ∃ edge ∈ tables.dependencies,
        edge.prerequisiteStepId = ended ∧ edge.dependentStepId = id := by
  simp only [dependentIds, dependentUpdates, map_map, mem_map, mem_orderedBy,
    mem_select, decide_eq_true_eq, Function.comp_apply, and_assoc]

theorem mem_dependentUpdates_true : ⟨id, true⟩ ∈ dependentUpdates tables ended status ↔
      status ≠ .succeeded ∧ ∃ edge ∈ tables.dependencies, edge.prerequisiteStepId = ended ∧
        edge.dependentStepId = id ∧ edge.isStrict = true := by
  simp only [dependentUpdates, mem_map, mem_orderedBy, mem_select, decide_eq_true_eq,
    DirectDependentUpdate.mk.injEq, Bool.and_eq_true, DependencyRow.isStrict]
  constructor
  · rintro ⟨edge, ⟨hedge, hended⟩, hid, hstrict, hstat⟩
    exact ⟨hstat, edge, hedge, hended, hid, hstrict⟩
  · rintro ⟨hstat, edge, hedge, hended, hid, hstrict⟩
    exact ⟨edge, ⟨hedge, hended⟩, hid, hstrict, hstat⟩

theorem loadDirectDependentUpdates_eq_ok
    (hrun : ∀ edge ∈ db.workflow.dependencies, edge.prerequisiteStepId = ended →
      edge.workflowRunId = runId) :
    loadDirectDependentUpdates db runId ended status =
      .ok (dependentUpdates db.workflow ended status) := by
  refine mapM_eq_ok.mpr (forall₂_map_right_iff.mpr (forall₂_same.mpr ?_))
  intro edge hedge
  rw [mem_orderedBy, mem_select, decide_eq_true_eq] at hedge
  simp [rejectIf, hrun edge hedge.1 hedge.2, bind, Except.bind, pure, Except.pure]

variable {row : StepRow}

/-- The end of a step becomes known to its dependents. -/
theorem stepOutcome_dequeue {steps steps' : Table StepRow.id}
    (hsame : ∀ id, (steps'.get? id).map StepRow.status = (steps.get? id).map StepRow.status)
    (hrow : row ∈ steps) (hterm : row.status.isTerminal = true) (hqueued : row.id ∉ queued) :
    stepOutcome steps' queued = Function.update (stepOutcome steps (row.id :: queued)) row.id
      (some (decide (row.status = .succeeded))) := by
  have hout : ∀ id, ((steps'.get? id).bind fun step =>
      if step.status.isTerminal then some (decide (step.status = .succeeded)) else none) =
      (steps.get? id).bind fun step =>
        if step.status.isTerminal then some (decide (step.status = .succeeded)) else none := by
    intro id
    have h := hsame id
    cases hget : steps.get? id <;> cases hget' : steps'.get? id <;> simp_all
  funext id
  rw [Function.update_apply]
  unfold stepOutcome
  rw [hout id]
  by_cases hid : id = row.id
  · subst hid
    simp [hqueued, get?_of_mem hrow, hterm]
  · simp [hid]

variable {outcome : ℕ → Option Bool}

/-- The counters of the dependents of a step that ended. -/
theorem StepRow.Counted.countDependency (h : row.Counted tables.dependencies.rows outcome)
    (hgraph : Graph tables) (hopen : outcome ended = none)
    (hmem : row.id ∈ dependentIds tables ended status) :
    (row.countDependency (dependentUpdates tables ended status)).Counted tables.dependencies.rows
      (Function.update outcome ended (some (decide (status = .succeeded)))) := by
  have hpend := h.pending
  have hunsat := h.unsatisfied
  rw [pendingCount_update (decide (status = .succeeded)) hopen, hgraph.edgesBetween_eq,
    if_pos (by simpa using mem_dependentIds.mp hmem)] at hpend
  refine ⟨?_, ?_, h.total⟩
  · simp only [StepRow.countDependency]
    omega
  · simp only [StepRow.countDependency]
    rw [unsatisfiedCount_update (decide (status = .succeeded)) hopen,
      hgraph.edgesBetween_eq, hunsat]
    by_cases hstat : status = .succeeded
    · simp [mem_dependentUpdates_true, hstat]
    · simp [mem_dependentUpdates_true, hstat]

theorem StepRow.Counted.of_independent (h : row.Counted tables.dependencies.rows outcome)
    (hmem : row.id ∉ dependentIds tables ended status) (well : Bool) :
    row.Counted tables.dependencies.rows (Function.update outcome ended (some well)) := by
  have hsame : ∀ edge ∈ tables.dependencies.rows, edge.dependentStepId = row.id →
      outcome edge.prerequisiteStepId =
        Function.update outcome ended (some well) edge.prerequisiteStepId := by
    intro edge hedge hid
    rw [Function.update_of_ne]
    intro hended
    exact hmem (mem_dependentIds.mpr ⟨edge, hedge, hended, hid⟩)
  exact ⟨h.pending.trans (congrArg _ (pendingCount_congr hsame)),
    h.unsatisfied.trans (congrArg _ (unsatisfiedCount_congr hsame)), h.total⟩

/-- Exact counters pass the check of the table. -/
theorem StepRow.Counted.validCounts {deps : List DependencyRow}
    (h : row.Counted deps outcome) : row.validCounts = true := by
  have hle : pendingCount DependencyRow.prerequisiteStepId DependencyRow.dependentStepId
      deps outcome row.id +
      unsatisfiedCount DependencyRow.prerequisiteStepId DependencyRow.dependentStepId
        DependencyRow.isStrict deps outcome row.id ≤
      totalCount DependencyRow.dependentStepId deps row.id :=
    pendingCount_add_unsatisfiedCount_le
  simp only [StepRow.validCounts, Bool.and_eq_true, decide_eq_true_eq, h.pending, h.unsatisfied,
    h.total]
  omega

/-- A dependent of an open step waits for it. -/
theorem StepRow.Counted.pending_pos (h : row.Counted tables.dependencies.rows outcome)
    (hopen : outcome ended = none) (hmem : row.id ∈ dependentIds tables ended status) :
    0 < row.dependencyCountPending := by
  obtain ⟨edge, hedge, hended, hid⟩ := mem_dependentIds.mp hmem
  have hpos : 0 < pendingCount DependencyRow.prerequisiteStepId DependencyRow.dependentStepId
      tables.dependencies.rows outcome row.id :=
    countP_pos_iff.mpr ⟨edge, hedge, by simp [hid, hended, hopen]⟩
  rw [h.pending]
  omega

end Count

section CountFlow

variable {row : StepRow}
variable {tables : WorkflowTables}

/-- The steps after their counters took in the end of one of them. -/
def countedSteps (tables : WorkflowTables) (row : StepRow) : Table StepRow.id :=
  tables.steps.update
    (fun step => step.id ∈ dependentIds tables row.id row.status &&
      step.workflowRunId = row.workflowRunId)
    (.countDependency (dependentUpdates tables row.id row.status))
    (StepRow.countDependency_id _)

/-- The dependents of a step belong to its run. -/
theorem Graph.dependents_run (h : Graph tables) (hrow : row ∈ tables.steps)
    (hid : id ∈ dependentIds tables row.id status) :
    ∃ step ∈ tables.steps, step.id = id ∧ step.workflowRunId = row.workflowRunId := by
  obtain ⟨edge, hedge, hended, rfl⟩ := mem_dependentIds.mp hid
  obtain ⟨step, hstep, hstepId, hstepRun⟩ := h.dependent edge hedge
  obtain ⟨source, hsrc, hsrcId, hsrcRun⟩ := h.prerequisite edge hedge
  have hsame : source = row := eq_of_key_eq hsrc hrow (hsrcId.trans hended)
  exact ⟨step, hstep, hstepId, by rw [hstepRun, ← hsrcRun, hsame]⟩

theorem mem_countedSteps {step' : StepRow} (h : Graph tables) (hrow : row ∈ tables.steps) :
    step' ∈ countedSteps tables row ↔ ∃ step ∈ tables.steps,
      (if step.id ∈ dependentIds tables row.id row.status
        then step.countDependency (dependentUpdates tables row.id row.status) else step) =
        step' := by
  rw [countedSteps, mem_update]
  refine exists_congr fun step => and_congr_right fun hstep => ?_
  by_cases hid : step.id ∈ dependentIds tables row.id row.status
  · obtain ⟨other, hother, hotherId, hrun⟩ := h.dependents_run hrow hid
    have hsame : other = step := eq_of_key_eq hother hstep hotherId
    rw [hsame] at hrun
    simp [hid, hrun]
  · simp [hid]

/-- The rows that the counter update returns. -/
def countedRows (tables : WorkflowTables) (row : StepRow) : List StepRow :=
  orderedBy StepRow.id ((countedSteps tables row).select fun step =>
    step.id ∈ dependentIds tables row.id row.status &&
      step.workflowRunId = row.workflowRunId)

theorem mem_countedRows {step : StepRow} :
    step ∈ countedRows tables row ↔ step ∈ countedSteps tables row ∧
      step.id ∈ dependentIds tables row.id row.status ∧
      step.workflowRunId = row.workflowRunId := by
  simp only [countedRows, mem_orderedBy, mem_select, Bool.and_eq_true, decide_eq_true_eq]

theorem map_id_countedRows (h : Graph tables) (hrow : row ∈ tables.steps) :
    (countedRows tables row).map StepRow.id = dependentIds tables row.id row.status := by
  have hids : dependentIds tables row.id row.status =
      (orderedBy DependencyRow.dependentStepId (tables.dependencies.select fun edge =>
        edge.prerequisiteStepId = row.id)).map DependencyRow.dependentStepId := by
    rw [dependentIds, dependentUpdates, map_map]
    rfl
  rw [hids, countedRows]
  refine map_orderedBy_eq ?_ ?_ ?_
  · exact (filter_sublist.map StepRow.id).nodup (countedSteps tables row).nodup
  · refine .map_on ?_ (tables.dependencies.nodup_rows.filter _)
    intro edge hedge edge' hedge' hdept
    rw [mem_select, decide_eq_true_eq] at hedge hedge'
    exact h.edge_unique hedge.1 hedge'.1 (hedge.2.trans hedge'.2.symm) hdept
  · intro id
    have hmem := @mem_dependentIds row.status id tables row.id
    rw [mem_map, mem_map]
    simp only [mem_select, Bool.and_eq_true, decide_eq_true_eq, and_assoc]
    constructor
    · rintro ⟨step, _, hid, _, rfl⟩
      exact hmem.mp hid
    · intro hid
      obtain ⟨step, hstep, rfl, hrun⟩ := h.dependents_run hrow (hmem.mpr hid)
      refine ⟨_, (mem_countedSteps h hrow).mpr ⟨step, hstep, rfl⟩, ?_⟩
      split_ifs <;> exact ⟨hmem.mpr hid, hrun, rfl⟩

variable [UuidSource]

variable (h : Flow (row.id :: queued) others db) (hrow : row ∈ db.workflow.steps)
  (hterm : row.status.isTerminal = true) (hqueued : row.id ∉ queued)
include h hrow hterm hqueued

/-- The invariant after the end of a queued step was counted. -/
theorem Flow.count : Flow queued
      (dependentIds db.workflow row.id row.status ++ others)
      (db.withSteps (countedSteps db.workflow row)) := by
  have hopen : stepOutcome db.workflow.steps (row.id :: queued) row.id = none := by
    simp [stepOutcome]
  have hout : stepOutcome (countedSteps db.workflow row) queued =
      Function.update (stepOutcome db.workflow.steps (row.id :: queued)) row.id
        (some (decide (row.status = .succeeded))) := by
    refine stepOutcome_dequeue ?_ hrow hterm hqueued
    intro id
    rw [countedSteps, get?_update, Option.map_map]
    congr 1
    funext step
    simp only [Function.comp_apply]
    split_ifs <;> rfl
  have hcases : ∀ step' ∈ countedSteps db.workflow row, ∃ step ∈ db.workflow.steps,
      step'.declared = step.declared ∧ step'.status = step.status ∧ step'.jobId = step.jobId ∧
      step'.releasedAt = step.releasedAt ∧ step'.statusReason = step.statusReason ∧
      (step' = step ∨ 0 < step.dependencyCountPending ∧ step.id ∈
        dependentIds db.workflow row.id row.status) := by
    intro step' hstep'
    obtain ⟨step, hstep, rfl⟩ := (mem_countedSteps h.graph hrow).mp hstep'
    refine ⟨step, hstep, ?_⟩
    split_ifs with hid
    · exact ⟨rfl, rfl, rfl, rfl, rfl, .inr ⟨(h.counted step hstep).pending_pos hopen hid, hid⟩⟩
    · exact ⟨rfl, rfl, rfl, rfl, rfl, .inl rfl⟩
  refine ⟨h.graph.congr (fun run hrun => ⟨run, hrun, rfl⟩) ?_ rfl, ?_, ?_, ?_, ?_, ⟨?_, ?_⟩,
    ⟨h.drawn.job, ?_, h.drawn.run⟩⟩
  · exact related_update (StepRow.countDependency_id _) (fun _ _ _ => rfl) fun _ _ _ => rfl
  · intro step' hstep'
    obtain ⟨step, hstep, rfl⟩ := (mem_countedSteps h.graph hrow).mp hstep'
    change StepRow.Counted db.workflow.dependencies.rows (stepOutcome (countedSteps _ _) _) _
    rw [hout]
    split_ifs with hid
    · exact (h.counted step hstep).countDependency h.graph hopen hid
    · exact (h.counted step hstep).of_independent hid _
  · intro step' hstep'
    obtain ⟨step, hstep, hdecl, _⟩ := hcases step' hstep'
    exact (h.shaped step hstep).of_declared hdecl
  · intro step' hstep'
    obtain ⟨step, hstep, hdecl, hstat, hjobId, hrel, hreason, hcounts⟩ := hcases step' hstep'
    have hplaced := h.placed step hstep
    rw [StepRow.run_of_declared hdecl, StepRow.id_of_declared hdecl]
    rcases hcounts with rfl | ⟨hpos, hid⟩
    · refine ⟨hplaced.released, hplaced.unreleased, hplaced.external, hplaced.job, ?_,
        hplaced.refused⟩
      intro hrun hblk
      exact (hplaced.waits hrun hblk).imp_right (mem_append_right _)
    · refine ⟨?_, ?_, ?_, ?_, fun _ _ => .inr (mem_append_left _ hid), ?_⟩
      · rw [hrel]
        intro hsome
        have := (hplaced.released hsome).2.1
        omega
      · rw [hrel, hstat, hjobId]
        exact hplaced.unreleased
      · rw [StepRow.kind_of_declared hdecl, hstat, hjobId]
        exact hplaced.external
      · rw [StepRow.kind_of_declared hdecl, hstat]
        exact hplaced.job
      · rw [hrel, hstat]
        intro hrun hnone hcanc
        have := (hplaced.refused hrun hnone hcanc).1
        omega
  · intro step' hstep'
    obtain ⟨step, hstep, hdecl, hstat, _⟩ := hcases step' hstep'
    rw [OpenRun, hstat, StepRow.run_of_declared hdecl]
    exact h.openRun step hstep
  · intro step' hstep' jobId hjob
    obtain ⟨step, hstep, hdecl, hstat, hjobId, _⟩ := hcases step' hstep'
    rw [hstat, StepRow.organization_of_declared hdecl]
    exact h.linked.paired step hstep jobId (hjobId ▸ hjob)
  · intro a' ha' b' hb' jobId hja hjb
    obtain ⟨a, ha, hdecl, _, hjobId, _⟩ := hcases a' ha'
    obtain ⟨b, hb, hdecl', _, hjobId', _⟩ := hcases b' hb'
    have hsame := h.linked.unshared a ha b hb jobId (hjobId ▸ hja) (hjobId' ▸ hjb)
    refine eq_of_key_eq ha' hb' ?_
    rw [StepRow.id_of_declared hdecl, StepRow.id_of_declared hdecl', hsame]
  · intro step' hstep'
    obtain ⟨step, hstep, hdecl, _⟩ := hcases step' hstep'
    rw [StepRow.id_of_declared hdecl]
    exact h.drawn.step step hstep

/-- The counter update succeeds and returns the dependents. -/
theorem lockAndUpdateDirectDependents_eq_ok :
    lockAndUpdateDirectDependents db row.workflowRunId row.id
        (dependentUpdates db.workflow row.id row.status) =
      .ok (countedRows db.workflow row, db.withSteps (countedSteps db.workflow row)) := by
  have hcount := h.count hrow hterm hqueued
  have hlocked : (dependentIds db.workflow row.id row.status).find? (fun id => decide (id ∉
      (db.workflow.steps.select fun step => step.id ∈ dependentIds db.workflow row.id row.status &&
        step.workflowRunId = row.workflowRunId).map StepRow.id)) = none := by
    refine find?_eq_none.mpr fun id hid => ?_
    obtain ⟨step, hstep, rfl, hrun⟩ := h.graph.dependents_run hrow hid
    simp only [decide_not, Bool.not_eq_true', decide_eq_false_iff_not, not_not]
    exact mem_map_of_mem (mem_select.mpr ⟨hstep, by simp [hid, hrun]⟩)
  have hvalid : (countedRows db.workflow row).all StepRow.validCounts = true := by
    rw [all_eq_true]
    intro step hstep
    exact (hcount.counted step (mem_countedRows.mp hstep).1).validCounts
  simp only [lockAndUpdateDirectDependents, bind_eq_ok, exists_unit, rejectSome_eq_ok,
    rejectIf_eq_ok, pure_eq_ok, hlocked, true_and]
  refine ⟨?_, ?_, rfl⟩
  · rw [Bool.not_eq_false']
    exact hvalid
  · rw [decide_eq_false_iff_not, not_not]
    exact map_id_countedRows h.graph hrow

end CountFlow

section Drain

variable [UuidSource] {start : Database} {budget : ℕ}
variable {queue : List (ℕ × WorkflowStepStatus)} {rows : List StepRow} {row : StepRow}

/-- The steps that still wait. -/
def blockedCount (db : Database) : ℕ :=
  db.workflow.steps.rows.countP fun step => step.status = .blocked

/-- The state of the loop: the queue of ended steps and the dependents in hand.  Steps that
waited for nothing when the loop began are left alone; `others` of them may be ready. -/
structure Draining (workflowRunId : ℕ) (start : Database) (others : List ℕ) (budget : ℕ)
    (queue : List (ℕ × WorkflowStepStatus)) (rows : List StepRow) (db : Database) : Prop where
  flow : Flow (queue.map Prod.fst) (rows.map StepRow.id ++ others) db
  queued : ∀ entry ∈ queue, ∃ step ∈ db.workflow.steps, step.id = entry.1 ∧
    step.workflowRunId = workflowRunId ∧ step.status = entry.2 ∧ step.status.isTerminal = true
  nodup : (queue.map Prod.fst).Nodup
  inHand : ∀ row ∈ rows, row ∈ db.workflow.steps ∧ row.workflowRunId = workflowRunId
  distinct : (rows.map StepRow.id).Nodup
  bound : queue.length + blockedCount db ≤ budget
  advances : Advances workflowRunId start db
  still : ∀ step ∈ start.workflow.steps, step.dependencyCountPending = 0 →
    step ∈ db.workflow.steps
  waited : ∀ row ∈ rows, ∀ step ∈ start.workflow.steps, step.id = row.id →
    step.dependencyCountPending ≠ 0

section

variable (h : Draining runId start others budget queue (row :: rows) db)
include h

/-- A dependent that is not ready is left alone. -/
theorem Draining.skip (hready : row.status = .blocked → ¬ db.workflow.IsCanceled row.workflowRunId →
      row.dependencyCountPending ≠ 0) :
    Draining runId start others budget queue rows db := by
  have hrow := (h.inHand row mem_cons_self).1
  refine { h with flow := { h.flow with placed := ?_ }, inHand := ?_, distinct := ?_,
                  waited := ?_ }
  · intro step hstep
    have hplaced := h.flow.placed step hstep
    refine { hplaced with waits := ?_ }
    intro hrun hblk
    rcases hplaced.waits hrun hblk with hpos | hawaited
    · exact .inl hpos
    · rw [map_cons, cons_append] at hawaited
      rcases mem_cons.mp hawaited with hid | hawaited
      · obtain rfl : step = row := eq_of_key_eq hstep hrow hid
        have hcount := (h.flow.counted step hstep).pending
        have := hready hblk hrun
        exact .inl (by omega)
      · exact .inr hawaited
  · intro step hstep
    exact h.inHand step (mem_cons_of_mem row hstep)
  · exact (nodup_cons.mp h.distinct).2
  · exact fun step hstep => h.waited step (mem_cons_of_mem row hstep)

/-- Another step than the one in hand survives an update of that one. -/
theorem Draining.rest_mem {f : StepRow → StepRow} (hkey : ∀ row, (f row).id = row.id) :
    ∀ step ∈ rows, step ∈ db.workflow.steps.modify row.id f hkey ∧ step.workflowRunId = runId := by
  intro step hstep
  obtain ⟨hmem, hrun⟩ := h.inHand step (mem_cons_of_mem row hstep)
  refine ⟨mem_modify.mpr (.inl ⟨hmem, ?_⟩), hrun⟩
  intro heq
  have := (nodup_cons.mp h.distinct).1
  exact this (heq ▸ mem_map_of_mem hstep)

/-- A step that waited for nothing is not the one in hand. -/
theorem Draining.still_modify {f : StepRow → StepRow} (hkey : ∀ row, (f row).id = row.id) :
    ∀ step ∈ start.workflow.steps, step.dependencyCountPending = 0 →
      step ∈ db.workflow.steps.modify row.id f hkey := by
  intro step hstep hpend
  refine mem_modify.mpr (.inl ⟨h.still step hstep hpend, fun hid => ?_⟩)
  exact h.waited row mem_cons_self step hstep hid hpend

/-- Queued steps have ended, so the blocked step in hand is not among them. -/
theorem Draining.queued_ne (hblk : row.status = .blocked) : ∀ entry ∈ queue, entry.1 ≠ row.id := by
  intro entry hentry heq
  obtain ⟨step, hstep, hid, _, _, hterm⟩ := h.queued entry hentry
  rw [eq_of_key_eq hstep (h.inHand row mem_cons_self).1 (hid.trans heq), hblk]
    at hterm
  cases hterm

theorem Draining.queued_modify (hblk : row.status = .blocked) {f : StepRow → StepRow}
    (hkey : ∀ row, (f row).id = row.id) :
    ∀ entry ∈ queue, ∃ step ∈ db.workflow.steps.modify row.id f hkey, step.id = entry.1 ∧
      step.workflowRunId = runId ∧ step.status = entry.2 ∧
      step.status.isTerminal = true := by
  intro entry hentry
  obtain ⟨step, hstep, hid, hrest⟩ := h.queued entry hentry
  have hne := h.queued_ne hblk entry hentry
  exact ⟨step, mem_modify.mpr (.inl ⟨hstep, hid ▸ hne⟩), hid, hrest⟩

end

omit [UuidSource] in
theorem blockedCount_modify {f : StepRow → StepRow} {hkey : ∀ row, (f row).id = row.id}
    (hrow : row ∈ db.workflow.steps) (hblk : row.status = .blocked)
    (hmoved : (f row).status ≠ .blocked)
    (hsteps : db'.workflow.steps = db.workflow.steps.modify row.id f hkey) :
    blockedCount db' + 1 = blockedCount db := by
  rw [blockedCount, blockedCount, hsteps]
  exact countP_modify hrow (by simp [hblk]) (by simp [hmoved])

section

variable (h : Draining runId start others budget queue (row :: rows) db)
  (hblk : row.status = .blocked) (hpend : row.dependencyCountPending = 0)
include h hblk hpend

/-- A dependent that is ready is released. -/
theorem Draining.release (hunsat : row.dependencyCountUnsatisfied = 0)
    (hrun : db.workflow.IsReleasable row.workflowRunId) :
    ∃ db', releaseCandidateStep db row = .ok db' ∧
      Draining runId start others budget queue rows db' := by
  obtain ⟨hrow, hrowRun⟩ := h.inHand row mem_cons_self
  have hawaited : ∀ id ∈ (row :: rows).map StepRow.id ++ others, id ≠ row.id →
      id ∈ rows.map StepRow.id ++ others := by
    intro id hid hne
    exact (mem_cons.mp hid).resolve_left hne
  obtain ⟨db', hok, hflow, hadvances, status, jobId, hopen, hsteps⟩ :=
    h.flow.release hrow hblk hpend hunsat hrun hawaited
  have hmoved : (row.release db.clock status jobId).status ≠ .blocked := by
    rcases hopen with rfl | rfl <;> simp [StepRow.release]
  refine ⟨db', hok, hflow, ?_, h.nodup, ?_, (nodup_cons.mp h.distinct).2, ?_, ?_, ?_, ?_⟩
  · rw [hsteps]
    exact h.queued_modify hblk _
  · rw [hsteps]
    exact h.rest_mem _
  · have := blockedCount_modify hrow hblk hmoved hsteps
    have := h.bound
    omega
  · rw [hrowRun] at hadvances
    exact h.advances.trans hadvances
  · rw [hsteps]
    exact h.still_modify _
  · exact fun step hstep => h.waited step (mem_cons_of_mem row hstep)

/-- A dependent whose requirements failed is canceled and queued. -/
theorem Draining.refuse (hunsat : row.dependencyCountUnsatisfied ≠ 0) :
    Draining runId start others budget (queue ++ [(row.id, .canceled)]) rows
      (db.withSteps (db.workflow.steps.modify row.id .cancelUnsatisfied
        StepRow.cancelUnsatisfied_id)) := by
  obtain ⟨hrow, hrowRun⟩ := h.inHand row mem_cons_self
  have hopen : row.status.isTerminal = false := by
    rw [hblk]
    rfl
  obtain ⟨hunreleased, hjobId⟩ := (h.flow.placed row hrow).of_blocked hblk
  have hsteps : (db.withSteps (db.workflow.steps.modify row.id .cancelUnsatisfied
      StepRow.cancelUnsatisfied_id)).workflow.steps = db.workflow.steps.modify row.id
        .cancelUnsatisfied StepRow.cancelUnsatisfied_id := rfl
  refine ⟨?_, ?_, ?_, h.rest_mem StepRow.cancelUnsatisfied_id, (nodup_cons.mp h.distinct).2,
    ?_, ?_, h.still_modify StepRow.cancelUnsatisfied_id,
    fun step hstep => h.waited step (mem_cons_of_mem row hstep)⟩
  · refine h.flow.modifyStep hrow hsteps rfl rfl rfl rfl rfl ?_ ?_ ?_ ?_ ?_ ?_ ?_ h.flow.drawn.job
      (le_refl _)
    · refine stepOutcome_modify_queue StepRow.cancelUnsatisfied_id hrow hopen fun id => ?_
      simp only [map_append, map_cons, map_nil, mem_append, mem_singleton]
      exact or_comm
    · refine ⟨?_, fun _ => ⟨.inr rfl, hjobId⟩, ?_, ?_, ?_, ?_⟩
      · intro hsome
        rw [StepRow.cancelUnsatisfied, hunreleased] at hsome
        cases hsome
      · intro _
        exact ⟨hjobId, by simp [StepRow.cancelUnsatisfied], by simp [StepRow.cancelUnsatisfied]⟩
      · intro _
        simp [StepRow.cancelUnsatisfied]
      · intro _ hfalse
        cases hfalse
      · intro _ _ _
        have hcount := (h.flow.counted row hrow).unsatisfied
        exact ⟨hpend, by simp only [StepRow.cancelUnsatisfied]; omega, rfl⟩
    · intro id hid hne
      exact (mem_cons.mp hid).resolve_left hne
    · intro hfalse
      cases hfalse
    · intro job hjob _
      exact ⟨job, hjob, rfl, rfl, rfl⟩
    · intro jobId hjob
      rw [StepRow.cancelUnsatisfied, hjobId] at hjob
      cases hjob
    · intro step _ _ jobId _ hjob
      rw [StepRow.cancelUnsatisfied, hjobId] at hjob
      cases hjob
  · intro entry hentry
    rcases mem_append.mp hentry with hentry | hentry
    · exact h.queued_modify hblk StepRow.cancelUnsatisfied_id entry hentry
    · rw [mem_singleton.mp hentry]
      exact ⟨row.cancelUnsatisfied, mem_modify_self StepRow.cancelUnsatisfied_id hrow, rfl,
        hrowRun, rfl, rfl⟩
  · rw [map_append, nodup_append]
    refine ⟨h.nodup, nodup_singleton _, ?_⟩
    intro id hid other hother
    rw [map_cons, map_nil, mem_singleton] at hother
    obtain ⟨entry, hentry, rfl⟩ := mem_map.mp hid
    rw [hother]
    exact h.queued_ne hblk entry hentry
  · have := blockedCount_modify hrow hblk (by simp [StepRow.cancelUnsatisfied]) hsteps
    have := h.bound
    rw [length_append, length_singleton]
    omega
  · refine h.advances.trans { Advances.refl runId db with steps := ?_ }
    refine related_modify StepRow.cancelUnsatisfied_id hrow
      (fun step _ => StepRow.Advance.refl step) ?_
    exact .refused rfl hrowRun hblk rfl rfl rfl rfl

end

/-- A run with an open step can release steps or has been canceled. -/
theorem Flow.releasable_or_canceled (h : Flow queued awaited db) (hrow : row ∈ db.workflow.steps)
    (hopen : row.status.isTerminal = false) :
    db.workflow.IsReleasable row.workflowRunId ∨ db.workflow.IsCanceled row.workflowRunId := by
  obtain ⟨run, hrun, hid⟩ := h.graph.run row hrow
  obtain ⟨hsucc, hcompl⟩ := h.openRun row hrow hopen run hrun hid
  cases hstat : run.status with
  | running => exact .inl ⟨run, hrun, hid, .inl hstat⟩
  | waitingForExternal => exact .inl ⟨run, hrun, hid, .inr hstat⟩
  | succeeded => exact absurd hstat hsucc
  | completedWithErrors => exact absurd hstat hcompl
  | canceled => exact .inr ⟨run, hrun, hid, hstat⟩

/-- A canceled run releases nothing. -/
theorem releaseCandidateStep_canceled (hrun : db.workflow.IsCanceled row.workflowRunId) :
    releaseCandidateStep db row = .ok db := by
  obtain ⟨run, hmem, hid, hstat⟩ := hrun
  have hget : db.workflow.runs.get? row.workflowRunId = some run := get?_eq_some.mpr ⟨hmem, hid⟩
  have hallows : workflowRunAllowsStepRelease db row.workflowRunId = .ok false := by
    simp [workflowRunAllowsStepRelease, hget, require, hstat, bind, Except.bind, pure, Except.pure]
  exact bind_eq_ok.mpr ⟨false, hallows, rfl⟩

omit [UuidSource] in
/-- A statement for one blocked step of a run finds it and writes no other. -/
theorem blocked_update {steps : Table StepRow.id} {f : StepRow → StepRow} (hrow : row ∈ steps)
    (hrun : row.workflowRunId = runId) (hblk : row.status = .blocked)
    (hkey : ∀ row, (f row).id = row.id) :
    (steps.select fun step => step.id = row.id && step.workflowRunId = runId &&
        step.status = .blocked).isEmpty = false ∧
      steps.update (fun step => step.id = row.id && step.workflowRunId = runId &&
        step.status = .blocked) f hkey = steps.modify row.id f hkey := by
  have hcond : (decide (row.id = row.id) && decide (row.workflowRunId = runId) &&
      decide (row.status = .blocked)) = true := by
    simp [hrun, hblk]
  constructor
  · rw [isEmpty_eq_false_iff_exists_mem]
    exact ⟨row, mem_select.mpr ⟨hrow, hcond⟩⟩
  · refine update_eq_modify hrow hcond fun step _ hstep => ?_
    simp only [Bool.and_eq_true, decide_eq_true_eq] at hstep
    exact hstep.1.1

/-- One dependent is released, canceled or left alone. -/
theorem Draining.dependent (h : Draining runId start others budget queue (row :: rows) db) :
    ∃ state, enqueueReadyOrCanceledDependent runId (db, queue) row = .ok state ∧
      Draining runId start others budget state.2 rows state.1 := by
  obtain ⟨hrow, hrowRun⟩ := h.inHand row mem_cons_self
  by_cases hskip : row.dependencyCountPending ≠ 0 ∨ row.status ≠ .blocked
  · refine ⟨(db, queue), by simp [enqueueReadyOrCanceledDependent, hskip], h.skip ?_⟩
    intro hblk _
    exact hskip.resolve_right (not_not.mpr hblk)
  · obtain ⟨hpend, hblk⟩ := not_or.mp hskip
    rw [not_not] at hpend hblk
    have hopen : row.status.isTerminal = false := by
      rw [hblk]
      rfl
    by_cases hunsat : row.dependencyCountUnsatisfied = 0
    · have hbody : ∀ db', releaseCandidateStep db row = .ok db' →
          enqueueReadyOrCanceledDependent runId (db, queue) row = .ok (db', queue) := by
        intro db' hok
        simp only [enqueueReadyOrCanceledDependent, hskip, hunsat, if_true, if_false]
        exact bind_eq_ok.mpr ⟨db', hok, rfl⟩
      rcases h.flow.releasable_or_canceled hrow hopen with hrun | hrun
      · obtain ⟨db', hok, hnext⟩ := h.release hblk hpend hunsat hrun
        exact ⟨(db', queue), hbody db' hok, hnext⟩
      · refine ⟨(db, queue), hbody db (releaseCandidateStep_canceled hrun), h.skip ?_⟩
        intro _ hnotCanc
        exact absurd hrun hnotCanc
    · obtain ⟨hsel, hupdate⟩ := blocked_update hrow hrowRun hblk StepRow.cancelUnsatisfied_id
      refine ⟨(_, _), ?_, h.refuse hblk hpend hunsat⟩
      simp only [enqueueReadyOrCanceledDependent, hskip, hunsat, if_false, hsel, Bool.false_eq_true]
      rw [hupdate]
      rfl

/-- One ended step of the queue is worked off. -/
theorem Draining.apply {entry : ℕ × WorkflowStepStatus}
    (h : Draining runId start others (budget + 1) (entry :: queue) [] db) :
    ∃ state, applyTerminalPrerequisite db runId entry.1 entry.2 queue = .ok state ∧
      Draining runId start others budget state.2 [] state.1 := by
  obtain ⟨ended, status⟩ := entry
  obtain ⟨row, hrow, rfl, rfl, rfl, hterm⟩ := h.queued (ended, status) mem_cons_self
  have hqueued : row.id ∉ queue.map Prod.fst := (nodup_cons.mp h.nodup).1
  have hcount := h.flow.count hrow hterm hqueued
  have hload : loadDirectDependentUpdates db row.workflowRunId row.id row.status =
      .ok (dependentUpdates db.workflow row.id row.status) := by
    refine loadDirectDependentUpdates_eq_ok fun edge hedge hended => ?_
    obtain ⟨source, hsrc, hid, hrun⟩ := h.flow.graph.prerequisite edge hedge
    rw [← hrun, eq_of_key_eq hsrc hrow (hid.trans hended)]
  have hblk : blockedCount (db.withSteps (countedSteps db.workflow row)) =
      blockedCount db := by
    change List.countP _ (List.map _ _) = _
    rw [countP_map]
    refine countP_congr fun step _ => ?_
    simp only [Function.comp_apply]
    split_ifs <;> rfl
  have hbound := h.bound
  rw [length_cons] at hbound
  have hwaits : ∀ step ∈ db.workflow.steps, step.id ∈ dependentIds db.workflow row.id row.status →
      step.dependencyCountPending ≠ 0 := by
    intro step hstep hid
    exact ((h.flow.counted step hstep).pending_pos (by simp [stepOutcome]) hid).ne'
  have hadvances : Advances row.workflowRunId db (db.withSteps (countedSteps db.workflow row)) := by
    refine { Advances.refl row.workflowRunId db with steps := ?_ }
    refine related_update (StepRow.countDependency_id _)
      (fun step _ _ => StepRow.Advance.refl step) ?_
    intro step _ hcond
    refine .kept rfl ?_ rfl rfl rfl rfl rfl
    intro hforeign
    simp only [Bool.and_eq_true, decide_eq_true_eq] at hcond
    exact absurd hcond.2 hforeign
  have hdraining : Draining row.workflowRunId start others budget queue
      (countedRows db.workflow row) (db.withSteps (countedSteps db.workflow row)) := by
    refine ⟨?_, ?_, (nodup_cons.mp h.nodup).2, ?_, ?_, by omega, h.advances.trans hadvances,
      ?_, ?_⟩
    · rw [map_id_countedRows h.flow.graph hrow]
      exact hcount
    · intro entry hentry
      obtain ⟨step, hstep, hid, hrun, hstat, hended⟩ := h.queued entry (mem_cons_of_mem _ hentry)
      refine ⟨_, (mem_countedSteps h.flow.graph hrow).mpr ⟨step, hstep, rfl⟩, ?_⟩
      split_ifs <;> exact ⟨hid, hrun, hstat, hended⟩
    · intro step hstep
      obtain ⟨hmem, _, hrun⟩ := mem_countedRows.mp hstep
      exact ⟨hmem, hrun⟩
    · rw [countedRows]
      exact (((orderedBy_perm StepRow.id _).map StepRow.id).nodup_iff.mpr
        ((filter_sublist.map StepRow.id).nodup (countedSteps db.workflow row).nodup))
    · intro step hstep hpend
      refine (mem_countedSteps h.flow.graph hrow).mpr ⟨step, h.still step hstep hpend, ?_⟩
      rw [if_neg fun hid => hwaits step (h.still step hstep hpend) hid hpend]
    · intro counted hcounted step hstep hid hpend
      obtain ⟨_, hdept, _⟩ := mem_countedRows.mp hcounted
      exact hwaits step (h.still step hstep hpend) (hid ▸ hdept) hpend
  rw [applyTerminalPrerequisite]
  by_cases hempty : (dependentUpdates db.workflow row.id row.status).isEmpty = true
  · refine ⟨(db, queue), bind_eq_ok.mpr ⟨_, hload, by rw [if_pos hempty]; rfl⟩, ?_⟩
    have hnil : dependentUpdates db.workflow row.id row.status = [] := isEmpty_iff.mp hempty
    have hsame : countedSteps db.workflow row = db.workflow.steps := by
      refine Table.ext ?_
      change List.map _ _ = _
      simp [dependentIds, hnil]
    have hrows : countedRows db.workflow row = [] := by
      have := map_id_countedRows h.flow.graph hrow
      rw [dependentIds, hnil] at this
      exact map_eq_nil_iff.mp this
    rw [hrows, hsame] at hdraining
    exact hdraining
  · obtain ⟨state, hok, hend⟩ := foldlM_total
      (f := enqueueReadyOrCanceledDependent row.workflowRunId)
      (P := fun rows state => Draining row.workflowRunId start others budget state.2 rows state.1)
      (fun step rest state hst => hst.dependent)
      (b := (db.withSteps (countedSteps db.workflow row), queue)) hdraining
    refine ⟨state, bind_eq_ok.mpr ⟨_, hload, ?_⟩, hend⟩
    rw [if_neg hempty]
    exact bind_eq_ok.mpr ⟨_, lockAndUpdateDirectDependents_eq_ok h.flow hrow hterm hqueued, hok⟩

/-- The queue of ended steps runs empty. -/
theorem Draining.run {fuel : ℕ} (h : Draining runId start others fuel queue [] db) :
    ∃ db', drainTerminalQueue runId fuel db queue = .ok db' ∧ Flow [] others db' ∧
      Advances runId start db' ∧
      ∀ step ∈ start.workflow.steps, step.dependencyCountPending = 0 →
        step ∈ db'.workflow.steps := by
  induction fuel generalizing db queue with
  | zero =>
    have hnil : queue = [] := by
      have := h.bound
      exact length_eq_zero_iff.mp (by omega)
    subst hnil
    exact ⟨db, rfl, h.flow, h.advances, h.still⟩
  | succ fuel ih =>
    cases queue with
    | nil =>
      exact ⟨db, rfl, h.flow, h.advances, h.still⟩
    | cons entry queue =>
      obtain ⟨state, hok, hnext⟩ := h.apply
      obtain ⟨db', hrun, hrest⟩ := ih hnext
      exact ⟨db', bind_eq_ok.mpr ⟨state, hok, hrun⟩, hrest⟩

/-- Everything that follows from one ended step is resolved without an error, and steps that
waited for nothing stay as they are. -/
theorem resolveTerminalStepQueue_spec (h : Flow [row.id] others db) (hrow : row ∈ db.workflow.steps)
    (hterm : row.status.isTerminal = true) :
    ∃ db', resolveTerminalStepQueue db row.workflowRunId row.id row.status = .ok db' ∧
      Flow [] others db' ∧ Advances row.workflowRunId db db' ∧
      ∀ step ∈ db.workflow.steps, step.dependencyCountPending = 0 → step ∈ db'.workflow.steps := by
  refine Draining.run ⟨h, ?_, nodup_singleton _, by simp, nodup_nil, ?_,
    Advances.refl _ db, fun _ hstep _ => hstep, by simp⟩
  · intro entry hentry
    rw [mem_singleton.mp hentry]
    exact ⟨row, hrow, rfl, rfl, rfl, hterm⟩
  · have := countP_le_length (p := fun step : StepRow => decide (step.status = .blocked))
      (l := db.workflow.steps.rows)
    rw [length_singleton, blockedCount]
    omega

end Drain

end Batter.Runledger.Postgres
