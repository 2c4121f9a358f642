import Batter.Runledger.Postgres.Mutate
import Batter.Runledger.Postgres.QueueInvariant
import Batter.Runledger.Postgres.RunExact

/-!
# Consistency of the database

`Settled` says that runs have the status of their steps, that live runs hold the
claims on their active keys, and that the queue is in order.  While a transaction
changes the steps of one run, that run is `loose`: its status may lag behind.

`Evolves` says what a transaction leaves as it was when it neither enqueues a run
nor appends steps: the graph, runs and steps that ended, and the jobs of ended
steps.
-/

namespace Batter.Runledger.Postgres

open Table

variable {loose : Option ℕ} {ended quiet : Prop} {runId : ℕ}

section Evolution

/-- The columns of a run that are fixed when it is inserted; the others are cleared. -/
def RunRow.declared (run : RunRow) : RunRow :=
  { run with status := .running, result := none }

/-- What happens to a step: its declared columns stay, and so does what an ended step left. -/
structure StepRow.Evolves (step step' : StepRow) : Prop where
  declared : step'.declared = step.declared
  ended : step.status.isTerminal = true →
    step'.status = step.status ∧ step'.output = step.output ∧ step'.jobId = step.jobId

/-- What happens to a run: its declared columns stay, and a run that ended stays as it is. -/
structure RunRow.Evolves (run run' : RunRow) : Prop where
  declared : run'.declared = run.declared
  ended : run.status.isTerminal = true → run' = run

/-- What a transaction leaves as it was; the `loose` run may have ended before its steps. -/
structure Evolves (loose : Option ℕ) (db db' : Database) : Prop where
  clock : db'.clock = db.clock
  generated : db.generated ≤ db'.generated
  dependencies : db'.workflow.dependencies = db.workflow.dependencies
  mutations : db'.workflow.mutations = db.workflow.mutations
  runs : Table.Related RunRow.Evolves db.workflow.runs db'.workflow.runs
  steps : Table.Related StepRow.Evolves db.workflow.steps db'.workflow.steps
  frozen : ∀ run ∈ db.workflow.runs, run.status.isTerminal = true → some run.id ≠ loose →
    ∀ step ∈ db.workflow.steps, step.workflowRunId = run.id → step ∈ db'.workflow.steps
  endedJobs : ∀ step ∈ db.workflow.steps, step.status.isTerminal = true →
    ∀ job ∈ db.queue.jobs, step.jobId = some job.id → job ∈ db'.queue.jobs

variable {db db' db'' : Database}

theorem StepRow.Evolves.refl (step : StepRow) : step.Evolves step :=
  ⟨rfl, fun _ => ⟨rfl, rfl, rfl⟩⟩

theorem StepRow.Evolves.trans {a b c : StepRow} (h : a.Evolves b) (h' : b.Evolves c) :
    a.Evolves c := by
  refine ⟨h'.declared.trans h.declared, fun hended => ?_⟩
  obtain ⟨hstat, houtput, hjob⟩ := h.ended hended
  obtain ⟨hstat', houtput', hjob'⟩ := h'.ended (hstat ▸ hended)
  exact ⟨hstat'.trans hstat, houtput'.trans houtput, hjob'.trans hjob⟩

/-- An open step may do anything to its own columns. -/
theorem StepRow.Evolves.of_open {step step' : StepRow} (hdecl : step'.declared = step.declared)
    (hopen : step.status.isTerminal = false) : step.Evolves step' :=
  ⟨hdecl, fun hended => absurd (hopen.symm.trans hended) nofun⟩

theorem RunRow.Evolves.refl (run : RunRow) : run.Evolves run :=
  ⟨rfl, fun _ => rfl⟩

theorem RunRow.Evolves.trans {a b c : RunRow} (h : a.Evolves b) (h' : b.Evolves c) :
    a.Evolves c := by
  refine ⟨h'.declared.trans h.declared, fun hended => ?_⟩
  have hsame := h.ended hended
  rw [h'.ended (hsame ▸ hended), hsame]

theorem RunRow.id_of_declared {run run' : RunRow} (h : run'.declared = run.declared) :
    run'.id = run.id :=
  (congrArg RunRow.id h : run'.declared.id = run.declared.id)

theorem Evolves.refl (loose : Option ℕ) (db : Database) : Evolves loose db db where
  clock := rfl
  generated := le_refl _
  dependencies := rfl
  mutations := rfl
  runs := .refl .refl _
  steps := .refl .refl _
  frozen := fun _ _ _ _ _ hstep _ => hstep
  endedJobs := fun _ _ _ _ hjob _ => hjob

theorem Evolves.trans (h : Evolves loose db db') (h' : Evolves loose db' db'') :
    Evolves loose db db'' where
  clock := h'.clock.trans h.clock
  generated := h.generated.trans h'.generated
  dependencies := h'.dependencies.trans h.dependencies
  mutations := h'.mutations.trans h.mutations
  runs := h.runs.trans (fun _ _ _ => .trans) h'.runs
  steps := h.steps.trans (fun _ _ _ => .trans) h'.steps
  frozen := by
    intro run hrun hended hloose step hstep hid
    obtain ⟨run', hrun', hevolves⟩ := h.runs.1 run hrun
    obtain rfl := hevolves.ended hended
    exact h'.frozen run' hrun' hended hloose step
      (h.frozen run' hrun hended hloose step hstep hid) hid
  endedJobs := by
    intro step hstep hended job hjob hlinked
    obtain ⟨step', hstep', hevolves⟩ := h.steps.1 step hstep
    obtain ⟨hstat, _, hjobId⟩ := hevolves.ended hended
    exact h'.endedJobs step' hstep' (hstat ▸ hended) job
      (h.endedJobs step hstep hended job hjob hlinked) (hjobId ▸ hlinked)

/-- A run that lags behind before the transaction may be exact in the relation. -/
theorem Evolves.loosen (h : Evolves none db db') (loose : Option ℕ) : Evolves loose db db' :=
  { h with frozen := fun run hrun hended _ => h.frozen run hrun hended nofun }

end Evolution

section Settled

/-- The active key that a run was enqueued with. -/
def RunRow.activeKey (run : RunRow) : Option String :=
  (run.enqueueRequest.member? "active_key").bind Json.str?

/-- The claim on the active key of a run. -/
def ActiveClaimRow.IsFor (claim : ActiveClaimRow) (run : RunRow) : Prop :=
  claim.workflowRunId = run.id ∧ claim.scope = workflowActiveClaimScope run.organizationId ∧
    run.activeKey = some claim.activeKey

/-- A run is live until it has ended and no canceled lease of its jobs is running any more. -/
def RunRow.IsLive (db : Database) (run : RunRow) : Prop :=
  run.status.isTerminal = false ∨ hasLiveCanceledLease db run.id = true

/-- Runs, active claims and the queue are in order; the status of the `loose` run may lag
behind its steps. -/
structure Settled (loose : Option ℕ) (db : Database) : Prop where
  exact : ∀ run ∈ db.workflow.runs, some run.id ≠ loose → run.Exact db.workflow
  lagging : ∀ run ∈ db.workflow.runs, some run.id = loose →
    run.result = none ∧ (run.status.isTerminal = false ∨ run.status = .canceled)
  owned : ∀ run ∈ db.workflow.runs, run.activeKey.isSome →
    run.IsLive db ∨ some run.id = loose → ∃ claim ∈ db.workflow.activeClaims, claim.IsFor run
  released : ∀ claim ∈ db.workflow.activeClaims, claim.releasePending = true →
    ∀ run ∈ db.workflow.runs, run.id = claim.workflowRunId → run.status.isTerminal = true
  claimed : ∀ claim ∈ db.workflow.activeClaims, ∃ run ∈ db.workflow.runs, claim.IsFor run
  queue : QueueInvariant db.clock db.queue

variable {db db' : Database}

theorem hasLiveCanceledLease_iff : hasLiveCanceledLease db runId = true ↔
      ∃ step ∈ db.workflow.stepsOf runId, ∃ job ∈ db.queue.jobs,
        step.jobId = some job.id ∧ job.isLiveCanceledLease db.clock = true := by
  simp only [hasLiveCanceledLease, List.any_eq_true, Option.any_eq_true, Option.bind_eq_some_iff]
  constructor
  · rintro ⟨step, hstep, job, ⟨jobId, hlinked, hget⟩, hlive⟩
    obtain ⟨hjob, rfl⟩ := get?_eq_some.mp hget
    exact ⟨step, hstep, job, hjob, hlinked, hlive⟩
  · rintro ⟨step, hstep, job, hjob, hlinked, hlive⟩
    exact ⟨step, hstep, job, ⟨job.id, hlinked, get?_of_mem hjob⟩, hlive⟩

theorem isLiveCanceledLease_iff {now : ℕ} {job : JobRow} : job.isLiveCanceledLease now = true ↔
      job.status = .canceled ∧ ∃ expiry, job.leaseExpiresAt = some expiry ∧ now < expiry := by
  simp [JobRow.isLiveCanceledLease, Option.any_eq_true]

/-- The steps and jobs of one run may change; the rest of a settled database stays. -/
theorem Settled.afterSteps (h : Settled loose db) (hloose : ∀ id, loose = some id → id = runId)
    (hlagging : ∀ run ∈ db.workflow.runs, run.id = runId →
      run.result = none ∧ (run.status.isTerminal = false ∨ run.status = .canceled))
    (hlive : ∀ run ∈ db.workflow.runs, run.id = runId → run.IsLive db ∨ some run.id = loose)
    (hgraph : Graph db.workflow)
    (hruns : db'.workflow.runs = db.workflow.runs)
    (hclaims : db'.workflow.activeClaims = db.workflow.activeClaims)
    (hsteps : ∀ step : StepRow, step.workflowRunId ≠ runId →
      (step ∈ db'.workflow.steps ↔ step ∈ db.workflow.steps))
    (hjobs : ∀ step ∈ db.workflow.steps, step.workflowRunId ≠ runId →
      ∀ job ∈ db'.queue.jobs, step.jobId = some job.id → job.status = .canceled →
        job ∈ db.queue.jobs)
    (hclock : db'.clock = db.clock)
    (hqueue : QueueInvariant db'.clock db'.queue) :
    Settled (some runId) db' := by
  have hne : ∀ run : RunRow, some run.id ≠ some runId → some run.id ≠ loose := by
    intro run hrun hid
    exact hrun (congrArg some (hloose run.id hid.symm))
  have hlease : ∀ run : RunRow, some run.id ≠ some runId →
      hasLiveCanceledLease db' run.id = true → hasLiveCanceledLease db run.id = true := by
    intro run hrun hlease
    obtain ⟨step, hstep, job, hjob, hlinked, hcanc⟩ := hasLiveCanceledLease_iff.mp hlease
    obtain ⟨hmem, hid⟩ := mem_stepsOf.mp hstep
    have hother : step.workflowRunId ≠ runId := by
      rw [hid]
      exact fun hid' => hrun (congrArg some hid')
    rw [hclock] at hcanc
    have hold := (hsteps step hother).mp hmem
    exact hasLiveCanceledLease_iff.mpr ⟨step, mem_stepsOf.mpr ⟨hold, hid⟩, job,
      hjobs step hold hother job hjob hlinked (isLiveCanceledLease_iff.mp hcanc).1, hlinked,
      hcanc⟩
  refine ⟨?_, ?_, ?_, hclaims ▸ hruns ▸ h.released, hclaims ▸ hruns ▸ h.claimed, hqueue⟩
  · rw [hruns]
    intro run hrun hid
    refine (h.exact run hrun (hne run hid)).congr hgraph fun step => ?_
    rw [mem_stepsOf, mem_stepsOf]
    refine and_congr_left fun hstep => hsteps step ?_
    rw [hstep]
    exact fun hid' => hid (congrArg some hid')
  · rw [hruns]
    intro run hrun hid
    exact hlagging run hrun (Option.some.inj hid)
  · rw [hruns, hclaims]
    intro run hrun hkey hrunLive
    refine h.owned run hrun hkey ?_
    by_cases hid : some run.id = some runId
    · exact hlive run hrun (Option.some.inj hid)
    · exact .inl ((hrunLive.resolve_right hid).imp_right (hlease run hid))

/-- A run whose status may lag behind: it has not ended by itself, and it is held for live. -/
def Lags (loose : Option ℕ) (db : Database) (workflowRunId : ℕ) : Prop :=
  ∀ run ∈ db.workflow.runs, run.id = workflowRunId →
    (run.result = none ∧ (run.status.isTerminal = false ∨ run.status = .canceled)) ∧
      (run.IsLive db ∨ some run.id = loose)

theorem Settled.lags (h : Settled (some runId) db) : Lags (some runId) db runId := by
  rintro run hrun rfl
  exact ⟨h.lagging run hrun rfl, .inr rfl⟩

/-- A run with an open step may lag behind. -/
theorem Settled.lags_of_open {step : StepRow} (h : Settled none db)
    (hstep : step ∈ db.workflow.steps) (hopen : step.status.isTerminal = false) :
    Lags none db step.workflowRunId := by
  intro run hrun hid
  have hexact := h.exact run hrun nofun
  have hrunOpen := hexact.open_of_step (mem_stepsOf.mpr ⟨hstep, hid.symm⟩) hopen
  exact ⟨⟨hexact.result_eq_none hrunOpen, .inl hrunOpen⟩, .inl (.inl hrunOpen)⟩

end Settled

section Recompute

variable {db : Database} {run : RunRow}

/-- The row of a run whose status is recomputed. -/
def RunRow.recomputed (tables : WorkflowTables) (run : RunRow) : RunRow :=
  run.withStatus (nextRunStatus (tables.stepsOf run.id))
    (recomputedResult run (tables.stepsOf run.id) (nextRunStatus (tables.stepsOf run.id)))

/-- Claims of other runs stay, and so does the claim of the run unless it ended and is quiet. -/
structure ClaimsKept (db db' : Database) (workflowRunId : ℕ) (ended quiet : Prop) : Prop where
  old : ∀ claim' ∈ db'.workflow.activeClaims, ∃ claim ∈ db.workflow.activeClaims,
    claim'.workflowRunId = claim.workflowRunId ∧ claim'.key = claim.key ∧
      (claim'.releasePending = true →
        claim.releasePending = true ∨ (claim.workflowRunId = workflowRunId ∧ ended))
  kept : ∀ claim ∈ db.workflow.activeClaims,
    claim.workflowRunId ≠ workflowRunId ∨ ¬ (ended ∧ quiet) →
    ∃ claim' ∈ db'.workflow.activeClaims,
      claim'.workflowRunId = claim.workflowRunId ∧ claim'.key = claim.key

variable {run' : RunRow} {runs : Table RunRow.id}

/-- Marking the claim of an ended run keeps all claims. -/
theorem ClaimsKept.of_update {db' : Database} (hended : ended)
    (hclaims : db'.workflow.activeClaims = db.workflow.activeClaims.update
      (fun claim => decide (claim.workflowRunId = runId)) .markReleasePending
      ActiveClaimRow.markReleasePending_key) :
    ClaimsKept db db' runId ended quiet := by
  constructor
  · intro claim' hclaim'
    rw [hclaims] at hclaim'
    obtain ⟨claim, hclaim, rfl⟩ := mem_update.mp hclaim'
    refine ⟨claim, hclaim, ?_⟩
    split_ifs with hid
    · exact ⟨rfl, rfl, fun _ => .inr ⟨of_decide_eq_true hid, hended⟩⟩
    · exact ⟨rfl, rfl, .inl⟩
  · intro claim hclaim _
    refine ⟨_, hclaims ▸ mem_update_of_mem hclaim, ?_⟩
    split_ifs <;> exact ⟨rfl, rfl⟩

theorem ClaimsKept.of_eq {db' : Database}
    (hclaims : db'.workflow.activeClaims = db.workflow.activeClaims) :
    ClaimsKept db db' runId ended quiet :=
  ⟨fun claim hclaim => ⟨claim, hclaims ▸ hclaim, rfl, rfl, .inl⟩,
    fun claim hclaim _ => ⟨claim, hclaims ▸ hclaim, rfl, rfl⟩⟩

theorem releaseOrDefer_frame (db : Database) (runId : ℕ) :
    releaseOrDeferWorkflowActiveClaim db runId =
      db.withActiveClaims
        (releaseOrDeferWorkflowActiveClaim db runId).workflow.activeClaims := by
  simp only [releaseOrDeferWorkflowActiveClaim]
  split_ifs <;> rfl

/-- An ended run keeps its claim as long as a canceled lease is live. -/
theorem releaseOrDefer_claims (db : Database) (runId : ℕ) (hended : ended) :
    ClaimsKept db (releaseOrDeferWorkflowActiveClaim db runId) runId ended
      (hasLiveCanceledLease db runId = false) := by
  by_cases hlease : hasLiveCanceledLease db runId = true
  · refine .of_update hended ?_
    rw [releaseOrDeferWorkflowActiveClaim, if_pos hlease]
  · rw [releaseOrDeferWorkflowActiveClaim, if_neg hlease]
    constructor
    · intro claim' hclaim'
      exact ⟨claim', (mem_delete.mp hclaim').1, rfl, rfl, .inl⟩
    · intro claim hclaim hkeep
      refine ⟨claim, mem_delete.mpr ⟨hclaim, ?_⟩, rfl, rfl⟩
      rw [decide_eq_false_iff_not]
      intro hid
      rcases hkeep with hother | hlive
      · exact hother hid
      · exact hlive ⟨hended, by simpa using hlease⟩

theorem ClaimsKept.trans {db' db'' : Database} {quiet' : Prop}
    (h : ClaimsKept db db' runId ended quiet) (h' : ClaimsKept db' db'' runId ended quiet') :
    ClaimsKept db db'' runId ended (quiet ∨ quiet') where
  old := by
    intro claim'' hclaim''
    obtain ⟨claim', hclaim', hid', hkey', hpend'⟩ := h'.old claim'' hclaim''
    obtain ⟨claim, hclaim, hid, hkey, hpend⟩ := h.old claim' hclaim'
    refine ⟨claim, hclaim, hid'.trans hid, hkey'.trans hkey, fun hrelease => ?_⟩
    rcases hpend' hrelease with hrelease | hended
    · exact hpend hrelease
    · exact .inr (hid ▸ hended)
  kept := by
    intro claim hclaim hkeep
    obtain ⟨claim', hclaim', hid, hkey⟩ := h.kept claim hclaim
      (hkeep.imp_right fun hlive hquiet => hlive (hquiet.imp_right .inl))
    obtain ⟨claim'', hclaim'', hid', hkey'⟩ := h'.kept claim' hclaim'
      (hid ▸ hkeep.imp_right fun hlive hquiet => hlive (hquiet.imp_right .inr))
    exact ⟨claim'', hclaim'', hid'.trans hid, hkey'.trans hkey⟩

/-- A run that ends has its claim marked for release. -/
theorem setRunStatus_claims
    (db : Database) (run : RunRow) (status : WorkflowRunStatus) (result : Option Json) :
    ClaimsKept db { db with workflow := setRunStatus db.workflow run status result } run.id
      (status.isTerminal = true) False := by
  by_cases hended : run.status ≠ status ∧ status.isTerminal = true
  · exact .of_update hended.2 (if_pos hended)
  · exact .of_eq (if_neg hended)

/-- The invariant when runs change their status. -/
theorem Flow.withRuns [UuidSource] {db' : Database} {queued awaited : List ℕ}
    (h : Flow queued awaited db)
    (hruns : Table.Related (fun run run' : RunRow => run'.id = run.id)
      db.workflow.runs db'.workflow.runs)
    (hsteps : db'.workflow.steps = db.workflow.steps)
    (hdeps : db'.workflow.dependencies = db.workflow.dependencies)
    (hjobs : db'.queue.jobs = db.queue.jobs)
    (hgen : db'.generated = db.generated)
    (hcanc : ∀ id, db.workflow.IsCanceled id → db'.workflow.IsCanceled id)
    (hopen : ∀ step ∈ db.workflow.steps, OpenRun db'.workflow step) :
    Flow queued awaited db' where
  graph := by
    refine h.graph.congr hruns.1 ?_ hdeps
    rw [hsteps]
    exact ⟨fun step hstep => ⟨step, hstep, rfl⟩, fun step hstep => ⟨step, hstep, rfl⟩⟩
  counted := by
    rw [hsteps, hdeps]
    exact h.counted
  shaped := by
    rw [hsteps]
    exact h.shaped
  placed := by
    rw [hsteps]
    intro step hstep
    have hplaced := h.placed step hstep
    exact ⟨hplaced.released, hplaced.unreleased, hplaced.external, hplaced.job,
      fun hrun => hplaced.waits fun hold => hrun (hcanc _ hold),
      fun hrun => hplaced.refused fun hold => hrun (hcanc _ hold)⟩
  openRun := hsteps ▸ hopen
  linked := by
    rw [hsteps, hjobs]
    exact h.linked
  drawn := by
    refine ⟨?_, ?_, ?_⟩
    · rw [hjobs]
      exact fun job hjob => (h.drawn.job job hjob).mono hgen.ge
    · rw [hsteps]
      exact fun step hstep => (h.drawn.step step hstep).mono hgen.ge
    · intro run' hrun'
      obtain ⟨run, hrun, hid⟩ := hruns.2 run' hrun'
      rw [hid]
      exact (h.drawn.run run hrun).mono hgen.ge

/-- The database with other rows in `workflow_runs` and `workflow_active_claims`. -/
def Database.withRuns (db : Database) (runs : Table RunRow.id)
    (activeClaims : Table ActiveClaimRow.key) : Database :=
  { db with workflow := { db.workflow with runs, activeClaims } }

/-- The runs after an update of one of them. -/
theorem mem_runs_after_update {status : WorkflowRunStatus} {result : Option Json} {row : RunRow}
    (hrun : run ∈ db.workflow.runs) :
    row ∈ db.workflow.runs.modify run.id (.withStatus status result)
        (RunRow.withStatus_id status result) ↔
      (row ∈ db.workflow.runs ∧ row.id ≠ run.id) ∨ row = run.withStatus status result := by
  rw [mem_modify]
  refine or_congr_right ⟨?_, ?_⟩
  · rintro ⟨before, hbefore, hid, rfl⟩
    rw [eq_of_key_eq hbefore hrun hid]
  · rintro rfl
    exact ⟨run, hrun, rfl, rfl⟩

/-- What a recomputation does to a run that has not ended. -/
theorem recompute_of_open (hrun : run ∈ db.workflow.runs) (hopen : run.status.isTerminal = false) :
    ∃ runs claims, recomputeWorkflowRunStatus db run.id = db.withRuns runs claims ∧
      (∀ row, row ∈ runs ↔ (row ∈ db.workflow.runs ∧ row.id ≠ run.id) ∨
        row = run.recomputed db.workflow) ∧
      ClaimsKept db (db.withRuns runs claims) run.id
        ((run.recomputed db.workflow).status.isTerminal = true)
        (hasLiveCanceledLease db run.id = false) := by
  have hget : db.workflow.runs.get? run.id = some run := get?_of_mem hrun
  have hnot : ¬ (run.status = nextRunStatus (db.workflow.stepsOf run.id) ∧
      (nextRunStatus (db.workflow.stepsOf run.id)).isTerminal = true) := by
    rintro ⟨heq, hterm⟩
    rw [← heq, hopen] at hterm
    cases hterm
  have hcanc : run.status ≠ .canceled := by
    intro hcanc
    rw [hcanc] at hopen
    cases hopen
  have hmarked := setRunStatus_claims db run (nextRunStatus (db.workflow.stepsOf run.id))
    (recomputedResult run (db.workflow.stepsOf run.id) (nextRunStatus (db.workflow.stepsOf run.id)))
  simp only [recomputeWorkflowRunStatus, hget, if_neg hnot, if_neg hcanc]
  by_cases hended : (nextRunStatus (db.workflow.stepsOf run.id)).isTerminal = true
  · rw [if_pos ⟨hended, hopen⟩]
    refine ⟨_, _, releaseOrDefer_frame _ _, fun row => mem_runs_after_update hrun, ?_⟩
    have hkept := hmarked.trans (releaseOrDefer_claims _ run.id hended)
    exact ⟨hkept.old, fun claim hclaim hkeep => hkept.kept claim hclaim
      (hkeep.imp_right fun hlive hquiet => hlive (hquiet.imp_right fun h => h.resolve_left id))⟩
  · rw [if_neg fun h => hended h.1]
    exact ⟨_, _, rfl, fun row => mem_runs_after_update hrun, hmarked.old,
      fun claim hclaim _ => hmarked.kept claim hclaim (.inr fun h => hended h.1)⟩

/-- A canceled run stays canceled. -/
theorem recompute_of_canceled (hrun : run ∈ db.workflow.runs) (hcanc : run.status = .canceled) :
    recomputeWorkflowRunStatus db run.id = db := by
  have hget : db.workflow.runs.get? run.id = some run := get?_of_mem hrun
  simp only [recomputeWorkflowRunStatus, hget]
  rw [if_neg, if_pos hcanc]
  rintro ⟨heq, _⟩
  exact nextRunStatus_ne_canceled _ (heq.symm.trans hcanc)

theorem ActiveClaimRow.IsFor.congr {claim claim' : ActiveClaimRow} (h : claim.IsFor run)
    (hid : claim'.workflowRunId = claim.workflowRunId) (hkey : claim'.key = claim.key)
    (hdecl : run'.declared = run.declared) : claim'.IsFor run' := by
  obtain ⟨hrun, hscope, hact⟩ := h
  obtain ⟨hscope', hact'⟩ := Prod.mk.inj hkey
  have horg : run'.organizationId = run.organizationId :=
    (congrArg RunRow.organizationId hdecl :
      run'.declared.organizationId = run.declared.organizationId)
  have hreq : run'.activeKey = run.activeKey :=
    (congrArg RunRow.activeKey hdecl : run'.declared.activeKey = run.declared.activeKey)
  exact ⟨by rw [hid, hrun, RunRow.id_of_declared hdecl],
    by rw [hscope', hscope, horg], by rw [hreq, hact, hact']⟩

/-- The recomputed row of a run is what the steps give. -/
theorem RunRow.recomputed_exact {tables : WorkflowTables} (hres : run.result = none) :
    (run.recomputed tables).Exact tables := by
  refine ⟨fun _ => rfl, fun hcanc => absurd hcanc (nextRunStatus_ne_canceled _), ?_⟩
  change recomputedResult run (tables.stepsOf run.id) (nextRunStatus (tables.stepsOf run.id)) =
    if nextRunStatus (tables.stepsOf run.id) = .succeeded then
      resultOutput run (tables.stepsOf run.id) else none
  cases nextRunStatus (tables.stepsOf run.id) with
  | succeeded => rfl
  | completedWithErrors | canceled => rfl
  | running | waitingForExternal => exact hres

/-- The runs after one of them got another row. -/
def RunReplaced (db : Database) (runs : Table RunRow.id) (run run' : RunRow) : Prop :=
  ∀ row, row ∈ runs ↔ (row ∈ db.workflow.runs ∧ row.id ≠ run.id) ∨ row = run'

theorem RunReplaced.related {rel : RunRow → RunRow → Prop} (h : RunReplaced db runs run run')
    (hrun : run ∈ db.workflow.runs) (hrefl : ∀ row, rel row row) (hnew : rel run run') :
    Table.Related rel db.workflow.runs runs := by
  constructor
  · intro row hrow
    by_cases hid : row.id = run.id
    · rw [eq_of_key_eq hrow hrun hid]
      exact ⟨run', (h run').mpr (.inr rfl), hnew⟩
    · exact ⟨row, (h row).mpr (.inl ⟨hrow, hid⟩), hrefl row⟩
  · intro row hrow
    rcases (h row).mp hrow with ⟨hold, _⟩ | rfl
    · exact ⟨row, hold, hrefl row⟩
    · exact ⟨run, hrun, hnew⟩

/-- The invariant after the row of one run was replaced, together with its claim. -/
theorem Flow.replaceRun
    [UuidSource] {runs : Table RunRow.id} {claims : Table ActiveClaimRow.key} {run' : RunRow}
    (h : Flow [] [] db) (hrun : run ∈ db.workflow.runs) (hrepl : RunReplaced db runs run run')
    (hid : run'.id = run.id) (hcanc : run.status = .canceled → run'.status = .canceled)
    (hopen : ∀ step ∈ db.workflow.stepsOf run.id, step.status.isTerminal = false →
      run'.status ≠ .succeeded ∧ run'.status ≠ .completedWithErrors) :
    Flow [] [] (db.withRuns runs claims) := by
  refine h.withRuns (hrepl.related hrun (fun _ => rfl) hid) rfl rfl rfl rfl ?_ ?_
  · rintro id ⟨row, hrow, hrowId, hstat⟩
    by_cases hsame : row.id = run.id
    · rw [eq_of_key_eq hrow hrun hsame] at hstat
      exact ⟨run', (hrepl run').mpr (.inr rfl), hid.trans (hsame.symm.trans hrowId), hcanc hstat⟩
    · exact ⟨row, (hrepl row).mpr (.inl ⟨hrow, hsame⟩), hrowId, hstat⟩
  · intro step hstep hstepOpen row hrow hrowId
    rcases (hrepl row).mp hrow with ⟨hold, _⟩ | rfl
    · exact h.openRun step hstep hstepOpen row hold hrowId
    · exact hopen step (mem_stepsOf.mpr ⟨hstep, hrowId.symm.trans hid⟩) hstepOpen

/-- A settled database after the row of one run was replaced, together with its claim. -/
theorem Settled.replaceRun {loose' : Option ℕ} {claims : Table ActiveClaimRow.key}
    (h : Settled loose db) (hgraph : Graph db.workflow)
    (hloose : ∀ id, loose = some id → id = run.id) (hloose' : ∀ id, loose' = some id → id = run.id)
    (hrun : run ∈ db.workflow.runs) (hrepl : RunReplaced db runs run run')
    (hdecl : run'.declared = run.declared)
    (hclaims : ClaimsKept db (db.withRuns runs claims) run.id ended quiet)
    (hexact : loose' = none → run'.Exact db.workflow)
    (hlagging : loose' ≠ none →
      run'.result = none ∧ (run'.status.isTerminal = false ∨ run'.status = .canceled))
    (hlive : run'.IsLive db ∨ loose' ≠ none →
      (run.IsLive db ∨ some run.id = loose) ∧ ¬ (ended ∧ quiet))
    (hended : run.status.isTerminal = true ∨ ended → run'.status.isTerminal = true) :
    Settled loose' (db.withRuns runs claims) := by
  have hid : run'.id = run.id := RunRow.id_of_declared hdecl
  have hnone : some run'.id ≠ loose' → loose' = none := by
    intro hne
    cases hcase : loose' with
    | none => rfl
    | some id => exact absurd (by rw [hid, hcase, hloose' id hcase]) hne
  refine ⟨?_, ?_, ?_, ?_, ?_, h.queue⟩
  · intro row hrow hne
    rcases (hrepl row).mp hrow with ⟨hold, hother⟩ | rfl
    · exact (h.exact row hold fun heq => hother (hloose row.id heq.symm)).congr hgraph
        fun _ => Iff.rfl
    · exact (hexact (hnone hne)).congr hgraph fun _ => Iff.rfl
  · intro row hrow heq
    rcases (hrepl row).mp hrow with ⟨_, hother⟩ | rfl
    · exact absurd (hloose' row.id heq.symm) hother
    · exact hlagging (heq ▸ nofun)
  · intro row hrow hkey hrowLive
    rcases (hrepl row).mp hrow with ⟨hold, hother⟩ | rfl
    · obtain ⟨claim, hclaim, hfor⟩ := h.owned row hold hkey
        (hrowLive.imp_right fun heq => absurd (hloose' row.id heq.symm) hother)
      obtain ⟨claim', hclaim', hclaimId, hclaimKey⟩ := hclaims.kept claim hclaim
        (.inl (hfor.1.trans_ne hother))
      exact ⟨claim', hclaim', hfor.congr hclaimId hclaimKey rfl⟩
    · have hheld : row.IsLive db ∨ loose' ≠ none := by
        rcases hrowLive with hrowLive | heq
        · exact .inl hrowLive
        · exact .inr (heq ▸ nofun)
      obtain ⟨hbefore, hkeep⟩ := hlive hheld
      have hkeyed : run.activeKey.isSome := by
        have hsame : row.activeKey = run.activeKey :=
          (congrArg RunRow.activeKey hdecl : row.declared.activeKey = run.declared.activeKey)
        exact hsame ▸ hkey
      obtain ⟨claim, hclaim, hfor⟩ := h.owned run hrun hkeyed hbefore
      obtain ⟨claim', hclaim', hclaimId, hclaimKey⟩ := hclaims.kept claim hclaim (.inr hkeep)
      exact ⟨claim', hclaim', hfor.congr hclaimId hclaimKey hdecl⟩
  · intro claim' hclaim' hpend row hrow hrowId
    obtain ⟨claim, hclaim, hclaimId, _, hold⟩ := hclaims.old claim' hclaim'
    rcases (hrepl row).mp hrow with ⟨hrow, hother⟩ | rfl
    · rcases hold hpend with hpend | ⟨hsame, _⟩
      · exact h.released claim hclaim hpend row hrow (hrowId.trans hclaimId)
      · exact absurd (hrowId.trans (hclaimId.trans hsame)) hother
    · rcases hold hpend with hpend | ⟨_, hnow⟩
      · exact hended (.inl (h.released claim hclaim hpend run hrun
          (hid.symm.trans (hrowId.trans hclaimId))))
      · exact hended (.inr hnow)
  · intro claim' hclaim'
    obtain ⟨claim, hclaim, hclaimId, hclaimKey, _⟩ := hclaims.old claim' hclaim'
    obtain ⟨row, hrow, hfor⟩ := h.claimed claim hclaim
    have hrelated : Table.Related (fun row row' : RunRow => row'.declared = row.declared)
        db.workflow.runs runs := hrepl.related hrun (fun _ => rfl) hdecl
    obtain ⟨row', hrow', hsame⟩ := hrelated.1 row hrow
    exact ⟨row', hrow', hfor.congr hclaimId hclaimKey hsame⟩

/-- A recomputation settles a run that has not ended. -/
theorem Settled.recompute_open [UuidSource] (h : Settled (some run.id) db) (hflow : Flow [] [] db)
    (hrun : run ∈ db.workflow.runs) (hopen : run.status.isTerminal = false) :
    Flow [] [] (recomputeWorkflowRunStatus db run.id) ∧
      Settled none (recomputeWorkflowRunStatus db run.id) ∧
      Evolves none db (recomputeWorkflowRunStatus db run.id) := by
  obtain ⟨hres, _⟩ := h.lagging run hrun rfl
  obtain ⟨runs, claims, heq, hrepl, hclaims⟩ := recompute_of_open hrun hopen
  rw [heq]
  have hnew : run.Evolves (run.recomputed db.workflow) :=
    ⟨rfl, fun hended => absurd (hopen.symm.trans hended) nofun⟩
  refine ⟨?_, ?_, { Evolves.refl none db with
    runs := RunReplaced.related hrepl hrun RunRow.Evolves.refl hnew }⟩
  · refine hflow.replaceRun hrun hrepl rfl ?_ ?_
    · intro hcanc
      rw [hcanc] at hopen
      cases hopen
    · intro step hstep hstepOpen
      have hnot : (run.recomputed db.workflow).status.isTerminal ≠ true := by
        intro hterm
        rw [nextRunStatus_isTerminal_iff.mp hterm step hstep] at hstepOpen
        cases hstepOpen
      constructor <;> intro hstat <;> exact hnot (by rw [hstat]; rfl)
  · refine h.replaceRun hflow.graph (fun id hid => (Option.some.inj hid).symm) nofun hrun hrepl
      rfl hclaims (fun _ => RunRow.recomputed_exact hres) (fun hne => absurd rfl hne) ?_ ?_
    · intro hlive
      refine ⟨.inr rfl, ?_⟩
      rintro ⟨hterm, hquiet⟩
      rcases hlive.resolve_right (fun hne => hne rfl) with hlive | hlive
      · exact absurd (hlive.symm.trans hterm) nofun
      · exact absurd (hquiet.symm.trans hlive) nofun
    · rintro (hended | hended)
      · exact absurd (hopen.symm.trans hended) nofun
      · exact hended

/-- A recomputation settles the run that lags behind. -/
theorem Settled.recompute [UuidSource] (h : Settled (some runId) db) (hflow : Flow [] [] db)
    (hcanc : ∀ run ∈ db.workflow.runs, run.id = runId → run.status = .canceled →
      ∀ step ∈ db.workflow.stepsOf runId, step.status.isTerminal = true) :
    Flow [] [] (recomputeWorkflowRunStatus db runId) ∧
      Settled none (recomputeWorkflowRunStatus db runId) ∧
      Evolves none db (recomputeWorkflowRunStatus db runId) := by
  have hquiet : (∀ run ∈ db.workflow.runs, run.id = runId → run.status = .canceled) →
      recomputeWorkflowRunStatus db runId = db →
      Flow [] [] (recomputeWorkflowRunStatus db runId) ∧
        Settled none (recomputeWorkflowRunStatus db runId) ∧
        Evolves none db (recomputeWorkflowRunStatus db runId) := by
    intro hall heq
    rw [heq]
    refine ⟨hflow, { h with exact := ?_, lagging := nofun, owned := ?_ }, .refl none db⟩
    · intro run hrun _
      by_cases hid : run.id = runId
      · have hstat := hall run hrun hid
        refine ⟨fun hne => absurd hstat hne, fun _ => hid ▸ hcanc run hrun hid hstat, ?_⟩
        rw [(h.lagging run hrun (congrArg some hid)).1, hstat]
        rfl
      · exact h.exact run hrun fun hloose => hid (Option.some.inj hloose)
    · intro run hrun hkey hlive
      exact h.owned run hrun hkey (hlive.imp_right nofun)
  cases hget : db.workflow.runs.get? runId with
  | none =>
    refine hquiet ?_ ?_
    · intro run hrun hid
      exact absurd hid (get?_eq_none.mp hget run hrun)
    · rw [recomputeWorkflowRunStatus, hget]
  | some run =>
    obtain ⟨hrun, rfl⟩ := get?_eq_some.mp hget
    obtain ⟨hres, hopen | hstat⟩ := h.lagging run hrun rfl
    · exact h.recompute_open hflow hrun hopen
    · refine hquiet ?_ (recompute_of_canceled hrun hstat)
      intro run' hrun' hid
      rw [eq_of_key_eq hrun' hrun hid]
      exact hstat

end Recompute

end Batter.Runledger.Postgres
