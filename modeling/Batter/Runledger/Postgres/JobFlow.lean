import Batter.Runledger.Postgres.StepEnd

/-!
# Transactions on jobs keep the database in order

A change of a job either leaves its step alone, moves the step between enqueued
and running, or ends it.  There is one lemma for each of the three, and from them
follows what every transaction on jobs keeps.
-/

namespace Batter.Runledger.Postgres

open RustStd Table

variable {db db' : Database} {ident : JobLeaseIdentity} {job job' : JobRow} {strict : Prop}
variable {queue' : QueueTables} {context : String} {status : WorkflowStepStatus} {jobId : ℕ}

section Idle

variable [UuidSource]

/-- The jobs that steps have: their status stays, and so do the jobs of ended steps. -/
def JobsKept (db : Database) (queue' : QueueTables) : Prop :=
  ∀ step ∈ db.workflow.steps, ∀ job ∈ db.queue.jobs, step.jobId = some job.id →
    ∃ job' ∈ queue'.jobs, job'.id = job.id ∧ job'.organizationId = job.organizationId ∧
      job'.status = job.status ∧ (step.status.isTerminal = true → job' = job)

/-- The queue may change as long as the jobs of steps keep their status. -/
theorem Sound.idle (h : Sound db) (hwf : db'.workflow = db.workflow)
    (hclock : db'.clock = db.clock) (hgen : db.generated ≤ db'.generated)
    (hdrawn : ∀ job ∈ db'.queue.jobs, db'.Drawn job.id) (hkept : JobsKept db db'.queue)
    (hqueue : QueueSteps strict db.clock db.queue db'.queue) : Keeps strict db db' := by
  refine ⟨⟨?_, ?_⟩, ?_, hqueue⟩
  · refine ⟨hwf ▸ h.flow.graph, hwf ▸ h.flow.counted, hwf ▸ h.flow.shaped,
      hwf ▸ h.flow.placed, hwf ▸ h.flow.openRun, ⟨?_, ?_⟩, ⟨hdrawn, ?_, ?_⟩⟩
    · rw [hwf]
      intro step hstep jobId hjobId
      obtain ⟨job, hjob, rfl, horg, hpaired⟩ := h.flow.linked.paired step hstep jobId hjobId
      obtain ⟨job', hjob', hid, horg', hstat, _⟩ := hkept step hstep job hjob hjobId
      exact ⟨job', hjob', hid, horg'.trans horg, hstat ▸ hpaired⟩
    · rw [hwf]
      exact h.flow.linked.unshared
    · rw [hwf]
      exact fun step hstep => (h.flow.drawn.step step hstep).mono hgen
    · rw [hwf]
      exact fun run hrun => (h.flow.drawn.run run hrun).mono hgen
  · refine ⟨hwf ▸ h.settled.exact, nofun, ?_, hwf ▸ h.settled.released, hwf ▸ h.settled.claimed, ?_⟩
    · rw [hwf]
      intro run hrun hkey hlive
      refine h.settled.owned run hrun hkey (hlive.imp_left (Or.imp_right fun hlease => ?_))
      obtain ⟨step, hstep, job', hjob', hjobId, hcanc⟩ := hasLiveCanceledLease_iff.mp hlease
      rw [hwf] at hstep
      rw [hclock] at hcanc
      obtain ⟨hmem, hid⟩ := mem_stepsOf.mp hstep
      obtain ⟨job, hjob, hsame, _, hpaired⟩ := h.flow.linked.paired step hmem job'.id hjobId
      obtain ⟨after, hafter, hafterId, _, hstat, hended⟩ :=
        hkept step hmem job hjob (hsame ▸ hjobId)
      obtain rfl : after = job' := eq_of_key_eq hafter hjob' (hafterId.trans hsame)
      rw [← hstat, (isLiveCanceledLease_iff.mp hcanc).1] at hpaired
      have hterm : step.status.isTerminal = true := by
        cases hstep' : step.status <;> rw [hstep'] at hpaired <;> first | rfl | cases hpaired
      obtain rfl := hended hterm
      exact hasLiveCanceledLease_iff.mpr ⟨step, hstep, after, hjob, hjobId, hcanc⟩
    · rw [hclock]
      exact h.settled.queue.steps hqueue
  · refine ⟨hclock, hgen, by rw [hwf], by rw [hwf], ?_, ?_, ?_, ?_⟩
    · rw [hwf]
      exact .refl .refl _
    · rw [hwf]
      exact .refl .refl _
    · rw [hwf]
      exact fun _ _ _ _ _ hstep _ => hstep
    · intro step hstep hended job hjob hjobId
      obtain ⟨job', hjob', _, _, _, hsame⟩ := hkept step hstep job hjob hjobId
      rw [← hsame hended]
      exact hjob'

end Idle

section ChangesJob

/-- One job of the queue changes; what else the queue does is of no concern to the steps. -/
structure ChangesJob (strict : Prop) (db : Database) (job job' : JobRow) (queue' : QueueTables) :
    Prop where
  mem : job ∈ db.queue.jobs
  id : job'.id = job.id
  organizationId : job'.organizationId = job.organizationId
  jobs : ∀ row, row ∈ queue'.jobs ↔ (row ∈ db.queue.jobs ∧ row.id ≠ job.id) ∨ row = job'
  queue : QueueSteps strict db.clock db.queue queue'

variable {change : JobChange}

theorem JobChange.apply_organizationId (change : JobChange) (now : ℕ) (job : JobRow) :
    (change.apply now job).organizationId = job.organizationId :=
  (Prod.mk.inj (Prod.mk.inj (Prod.mk.inj (change.apply_fixed now job)).2).2).1

/-- A change that is allowed. -/
theorem ChangesJob.of_change (hok : db.queue.change db.clock context job change = .ok queue')
    (hjob : job ∈ db.queue.jobs) (hlease : change.isLease = false)
    (hallowed : change.Allowed db.queue db.clock job) :
    ChangesJob strict db job (change.apply db.clock job) queue' where
  mem := hjob
  id := change.apply_id db.clock job
  organizationId := change.apply_organizationId db.clock job
  jobs := fun _ => mem_jobs_after_change hjob (QueueTables.change_eq_ok hok).1
  queue := .single (.change context job change hjob hlease hallowed hok)

section

variable (h : ChangesJob strict db job job' queue')
include h

theorem ChangesJob.mem_new : job' ∈ queue'.jobs :=
  (h.jobs job').mpr (.inr rfl)

theorem ChangesJob.mem_other {other : JobRow} (hother : other ∈ db.queue.jobs)
    (hne : other.id ≠ job.id) : other ∈ queue'.jobs :=
  (h.jobs other).mpr (.inl ⟨hother, hne⟩)

/-- No job is new. -/
theorem ChangesJob.old {row : JobRow} (hrow : row ∈ queue'.jobs) :
    ∃ before ∈ db.queue.jobs, before.id = row.id := by
  rcases (h.jobs row).mp hrow with ⟨hold, _⟩ | rfl
  · exact ⟨row, hold, rfl⟩
  · exact ⟨job, h.mem, h.id.symm⟩

end

variable [UuidSource]

theorem ChangesJob.drawn (h : ChangesJob strict db job job' queue') (hsound : Sound db) :
    ∀ row ∈ queue'.jobs, db.Drawn row.id := by
  intro row hrow
  obtain ⟨before, hbefore, hid⟩ := h.old hrow
  exact hid ▸ hsound.flow.drawn.job before hbefore

/-- A job without a step may change in any way. -/
theorem ChangesJob.unlinked (h : ChangesJob strict db job job' queue') (hsound : Sound db)
    (hnone : ∀ step ∈ db.workflow.steps, step.jobId ≠ some job.id) :
    Keeps strict db (db.withQueue queue') := by
  refine hsound.idle rfl rfl (le_refl _) (h.drawn hsound) ?_ h.queue
  intro step hstep other hother hjobId
  have hne : other.id ≠ job.id := fun hid => hnone step hstep (hid ▸ hjobId)
  exact ⟨other, h.mem_other hother hne, rfl, rfl, rfl, fun _ => rfl⟩

/-- The step of a job, whose status goes with that of the job. -/
theorem Flow.paired {step : StepRow} (h : Flow [] [] db) (hstep : step ∈ db.workflow.steps)
    (hjob : job ∈ db.queue.jobs) (hjobId : step.jobId = some job.id) :
    job.organizationId = step.organizationId ∧ Paired step.status job.status := by
  obtain ⟨job0, hjob0, hid0, horg, hpaired⟩ := h.linked.paired step hstep job.id hjobId
  rw [eq_of_key_eq hjob0 hjob hid0] at horg hpaired
  exact ⟨horg, hpaired⟩

/-- A leased job that stays leased leaves its step alone. -/
theorem ChangesJob.stillLeased (h : ChangesJob strict db job job' queue') (hsound : Sound db)
    (hleased : job.status = .leased) (hleased' : job'.status = .leased) :
    Keeps strict db (db.withQueue queue') := by
  refine hsound.idle rfl rfl (le_refl _) (h.drawn hsound) ?_ h.queue
  intro step hstep other hother hjobId
  by_cases hid : other.id = job.id
  · obtain rfl : other = job := eq_of_key_eq hother h.mem hid
    refine ⟨job', h.mem_new, h.id, h.organizationId, hleased'.trans hleased.symm, ?_⟩
    intro hended
    have hpaired := (hsound.flow.paired hstep hother hjobId).2
    rw [hleased] at hpaired
    cases hstat : step.status <;> rw [hstat] at hpaired hended <;> cases hpaired
    cases hended
  · exact ⟨other, h.mem_other hother hid, rfl, rfl, rfl, fun _ => rfl⟩

/-- Another step has another job. -/
theorem Flow.unshared {step row : StepRow} (h : Flow [] [] db) (hstep : step ∈ db.workflow.steps)
    (hrow : row ∈ db.workflow.steps) (hjobId : row.jobId = some job.id) (hne : step.id ≠ row.id) :
    step.jobId ≠ some job.id := by
  intro hshared
  exact hne (congrArg StepRow.id (h.linked.unshared step hstep row hrow job.id hshared hjobId))

end ChangesJob

section Moves

/-- A step that is enqueued or running before and after. -/
structure StepRow.Moves (row row' : StepRow) : Prop where
  declared : row'.declared = row.declared
  pending : row'.dependencyCountPending = row.dependencyCountPending
  unsatisfied : row'.dependencyCountUnsatisfied = row.dependencyCountUnsatisfied
  releasedAt : row'.releasedAt = row.releasedAt
  jobId : row'.jobId = row.jobId
  status : row.status = .enqueued ∨ row.status = .running
  status' : row'.status = .enqueued ∨ row'.status = .running

variable {row row' : StepRow}

theorem StepRow.Moves.opened (h : row.Moves row') :
    row.status.isTerminal = false ∧ row'.status.isTerminal = false := by
  rcases h.status with hstat | hstat <;> rcases h.status' with hstat' | hstat' <;>
    simp [hstat, hstat', WorkflowStepStatus.isTerminal]

theorem StepRow.Placed.move {canceled awaited awaited' : Prop} (h : row.Placed canceled awaited)
    (hmoves : row.Moves row') : row'.Placed canceled awaited' := by
  have hrel : row.releasedAt ≠ none := by
    intro hnone
    rcases hmoves.status with hstat | hstat <;>
      simpa [hstat] using (h.unreleased hnone).1
  have hkind : row.executionKind = .job := by
    cases hkind : row.executionKind with
    | job => rfl
    | external =>
      obtain ⟨_, henqueued, hrunning⟩ := h.external hkind
      rcases hmoves.status with hstat | hstat
      · exact absurd hstat henqueued
      · exact absurd hstat hrunning
  have hkind' : row'.executionKind = .job := (StepRow.kind_of_declared hmoves.declared).trans hkind
  obtain ⟨_, hpend, hunsat, hjob⟩ := h.released (Option.isSome_iff_ne_none.mpr hrel)
  have hne : row'.status ≠ .blocked ∧ row'.status ≠ .waitingForExternal ∧
      row'.status ≠ .canceled := by
    rcases hmoves.status' with hstat | hstat <;> simp [hstat]
  refine ⟨fun _ => ⟨hne.1, hmoves.pending.trans hpend, hmoves.unsatisfied.trans hunsat,
    fun _ => hmoves.jobId ▸ hjob hkind⟩, ?_, ?_, fun _ => hne.2.1, fun _ hblk =>
    absurd hblk hne.1, fun _ _ hcanc => absurd hcanc hne.2.2⟩
  · intro hnone
    exact absurd (hmoves.releasedAt ▸ hnone) hrel
  · intro hext
    rw [hkind'] at hext
    cases hext

variable [UuidSource]
variable {row : StepRow} {f : StepRow → StepRow} {hkey : ∀ row, (f row).id = row.id}

theorem ChangesJob.move_flow (h : ChangesJob strict db job job' queue') (hsound : Sound db)
    (hrow : row ∈ db.workflow.steps) (hjobId : row.jobId = some job.id) (hmoves : row.Moves (f row))
    (hpaired : Paired (f row).status job'.status) : Flow [] [] (db.withStep row f hkey queue') := by
  have hsteps : (db.withStep row f hkey queue').workflow.steps =
      db.workflow.steps.modify row.id f hkey := rfl
  obtain ⟨hopen, hopen'⟩ := hmoves.opened
  refine hsound.flow.modifyStep hrow hsteps rfl rfl hmoves.declared hmoves.pending
    hmoves.unsatisfied ?_ ((hsound.flow.placed row hrow).move hmoves) (fun _ hid _ => hid) ?_ ?_ ?_
    ?_ (h.drawn hsound) (le_refl _)
  · exact stepOutcome_modify_open hkey hrow hopen hopen'
  · intro _ run hrun hid
    rw [StepRow.run_of_declared hmoves.declared] at hid
    exact hsound.flow.openRun row hrow hopen run hrun hid
  · intro other hother hne
    rw [hjobId] at hne
    exact ⟨other, h.mem_other hother fun hid => hne (congrArg some hid.symm), rfl, rfl, rfl⟩
  · intro id hid
    rw [hmoves.jobId, hjobId] at hid
    obtain rfl := Option.some.inj hid
    exact ⟨job', h.mem_new, h.id, h.organizationId.trans (hsound.flow.paired hrow h.mem hjobId).1,
      hpaired⟩
  · intro step hstep hne id hid hshared
    rw [hmoves.jobId, hjobId] at hshared
    obtain rfl := Option.some.inj hshared
    exact hsound.flow.unshared hstep hrow hjobId hne hid

omit [UuidSource] in
/-- A lagging run that is exact does not lag. -/
theorem Settled.tighten {runId : ℕ} (h : Settled (some runId) db)
    (hexact : ∀ run ∈ db.workflow.runs, run.id = runId → run.Exact db.workflow) :
    Settled none db := by
  refine { h with exact := fun run hrun _ => ?_, lagging := nofun, owned := ?_ }
  · by_cases hid : run.id = runId
    · exact hexact run hrun hid
    · exact h.exact run hrun fun hloose => hid (Option.some.inj hloose)
  · intro run hrun hkey hlive
    exact h.owned run hrun hkey (.inl (hlive.resolve_right nofun))

section

variable (h : ChangesJob strict db job job' queue')
include h

variable (hsound : Sound db) (hrow : row ∈ db.workflow.steps)
include hsound hrow

theorem ChangesJob.move_settled (hmoves : row.Moves (f row))
    (hpaired : Paired (f row).status job'.status) :
    Settled none (db.withStep row f hkey queue') := by
  have hopen := hmoves.opened.1
  have hlags := hsound.settled.lags_of_open hrow hopen
  have hrun := StepRow.run_of_declared hmoves.declared
  have hcanc : job'.status ≠ .canceled := by
    intro hstat
    rcases hmoves.status' with hmoved | hmoved <;> rw [hmoved, hstat] at hpaired <;>
      cases hpaired
  have hloose : Settled (some row.workflowRunId) (db.withStep row f hkey queue') := by
    refine hsound.settled.afterSteps nofun (fun run hrun hid => (hlags run hrun hid).1)
      (fun run hrun hid => (hlags run hrun hid).2) hsound.flow.graph rfl rfl
      (fun step => mem_withStep_of_ne hrow hrun) ?_ rfl (hsound.settled.queue.steps h.queue)
    intro step _ _ other hother _ hstat
    rcases (h.jobs other).mp hother with ⟨hold, _⟩ | rfl
    · exact hold
    · exact absurd hstat hcanc
  refine hloose.tighten fun run hmem hid => ?_
  exact (hsound.settled.exact run hmem nofun).of_running (mem_stepsOf.mpr ⟨hrow, hid.symm⟩)
    (.inr hmoves.status)
    (mem_stepsOf.mpr ⟨(mem_withStep hrow).mpr (.inr rfl), hrun.trans hid.symm⟩)
    (.inr hmoves.status')

theorem ChangesJob.move_evolves (hjobId : row.jobId = some job.id) (hmoves : row.Moves (f row)) :
    Evolves none db (db.withStep row f hkey queue') where
  __ := Evolves.refl none db
  steps := related_modify hkey hrow (fun step _ => StepRow.Evolves.refl step)
    (.of_open hmoves.declared hmoves.opened.1)
  frozen := by
    intro run hrun hended _ step hstep hid
    refine (mem_withStep hrow).mpr (.inl ⟨hstep, fun hsame => ?_⟩)
    rw [eq_of_key_eq hstep hrow hsame] at hid
    have hopen := hsound.settled.open_of_step hrow hmoves.opened.1 run hrun hid.symm
    exact absurd (hopen.symm.trans hended) nofun
  endedJobs := by
    intro step hstep hended other hother hlinked
    refine h.mem_other hother fun hid => ?_
    refine hsound.flow.unshared hstep hrow hjobId ?_ (hid ▸ hlinked)
    intro hsame
    rw [eq_of_key_eq hstep hrow hsame] at hended
    exact absurd (hmoves.opened.1.symm.trans hended) nofun

/-- A step moves along with its job. -/
theorem ChangesJob.move (hjobId : row.jobId = some job.id) (hmoves : row.Moves (f row))
    (hpaired : Paired (f row).status job'.status) :
    Keeps strict db (db.withStep row f hkey queue') :=
  ⟨⟨h.move_flow hsound hrow hjobId hmoves hpaired, h.move_settled hsound hrow hmoves hpaired⟩,
    h.move_evolves hsound hrow hjobId hmoves, h.queue⟩

end

end Moves

section Hooks

variable (h : ChangesJob strict db job job' queue')

theorem stepOfJob_eq_some {step : StepRow} (h : db.workflow.stepOfJob jobId = some step) :
    step ∈ db.workflow.steps ∧ step.jobId = some jobId := by
  have hmem := List.mem_of_head? h
  rwa [mem_select, decide_eq_true_eq] at hmem

theorem stepOfJob_eq_none (h : db.workflow.stepOfJob jobId = none) :
    ∀ step ∈ db.workflow.steps, step.jobId ≠ some jobId := by
  intro step hstep hjobId
  have hnil := List.head?_eq_none_iff.mp h
  have hmem : step ∈ db.workflow.steps.select fun row => row.jobId = some jobId :=
    mem_select.mpr ⟨hstep, decide_eq_true hjobId⟩
  rw [hnil] at hmem
  cases hmem

variable [UuidSource]

/-- A step whose job is not finished is enqueued or running. -/
theorem Flow.step_of_open {step : StepRow} (h : Flow [] [] db) (hstep : step ∈ db.workflow.steps)
    (hjob : job ∈ db.queue.jobs) (hjobId : step.jobId = some job.id) :
    (job.status = .pending → step.status = .enqueued) ∧
      (job.status = .leased → step.status = .running) := by
  have hpaired := (h.paired hstep hjob hjobId).2
  constructor <;> intro hstat <;> rw [hstat] at hpaired <;>
    cases hstep' : step.status <;> rw [hstep'] at hpaired <;> first | rfl | cases hpaired

section

include h

/-- An update that meets the step of the job, if there is one, and no other step. -/
theorem ChangesJob.updateStep {cond : StepRow → Bool} {f : StepRow → StepRow}
    {hkey : ∀ row, (f row).id = row.id} (hsound : Sound db)
    (hmeets : ∀ step ∈ db.workflow.steps, step.jobId = some job.id →
      cond step = true ∧ step.Moves (f step) ∧ Paired (f step).status job'.status) :
    Keeps strict db ((db.withQueue queue').withSteps (db.workflow.steps.update
      (fun row => decide (row.jobId = some job.id) && cond row) f hkey)) := by
  cases hstep : db.workflow.stepOfJob job.id with
  | none =>
    have hnone := stepOfJob_eq_none hstep
    rw [update_eq_self fun step hmem => by simp [hnone step hmem]]
    exact h.unlinked hsound hnone
  | some row =>
    obtain ⟨hrow, hjobId⟩ := stepOfJob_eq_some hstep
    obtain ⟨hcond, hmoves, hpaired⟩ := hmeets row hrow hjobId
    rw [update_eq_modify hrow (by simp [hjobId, hcond])]
    · exact h.move hsound hrow hjobId hmoves hpaired
    · intro step hmem hmet
      by_contra hne
      rw [Bool.and_eq_true, decide_eq_true_eq] at hmet
      exact hsound.flow.unshared hmem hrow hjobId hne hmet.1

/-- A job goes back to the queue, and its step with it. -/
theorem ChangesJob.enqueueRunningStep (hsound : Sound db) (hleased : job.status = .leased)
    (hpend : job'.status = .pending) (reason : StepReason) :
    Keeps strict db (enqueueRunningStep (db.withQueue queue') job.id reason) := by
  refine h.updateStep hsound fun step hstep hjobId => ?_
  have hrunning := (hsound.flow.step_of_open hstep h.mem hjobId).2 hleased
  refine ⟨decide_eq_true hrunning, ⟨rfl, rfl, rfl, rfl, rfl, .inr hrunning, .inl rfl⟩, ?_⟩
  rw [hpend]
  exact .enqueued

/-- A job is claimed, and its step runs. -/
theorem ChangesJob.markRunning (hsound : Sound db) (hpend : job.status = .pending)
    (hleased : job'.status = .leased) :
    Keeps strict db (markWorkflowStepRunningForClaim (db.withQueue queue') job.id) := by
  refine h.updateStep hsound fun step hstep hjobId => ?_
  have henqueued := (hsound.flow.step_of_open hstep h.mem hjobId).1 hpend
  refine ⟨by simp [henqueued], ⟨rfl, rfl, rfl, rfl, rfl, .inl henqueued, .inr rfl⟩, ?_⟩
  rw [hleased]
  exact .running

end

/-- A terminal status is passed on to the step of the job, unless that has ended. -/
theorem processWorkflowStepTerminalByJobId_eq {reason : StepReason} {output : Option Json}
    (hterm : status.isTerminal = true) :
    processWorkflowStepTerminalByJobId db jobId status reason output =
      match db.workflow.stepOfJob jobId with
      | none => .ok db
      | some step =>
        if step.status.isTerminal then .ok db else finishStep db step status reason output := by
  rw [processWorkflowStepTerminalByJobId, hterm]
  rfl

/-- The end of a job is the end of its step. -/
theorem ChangesJob.ends {row : StepRow} (h : ChangesJob strict db job job' queue')
    (hflow : Flow [] [] db) (hrow : row ∈ db.workflow.steps) (hjobId : row.jobId = some job.id)
    (hopen : job.status = .pending ∨ job.status = .leased) (hterm : status.isTerminal = true)
    (hpaired : Paired status job'.status) (reason : StepReason) (output : Option Json) :
    EndsStep db row (row.finish status reason output) queue' := by
  obtain ⟨horg, _⟩ := hflow.paired hrow h.mem hjobId
  have hstat : row.status = .enqueued ∨ row.status = .running :=
    hopen.imp (hflow.step_of_open hrow h.mem hjobId).1 (hflow.step_of_open hrow h.mem hjobId).2
  have hrowOpen : row.status.isTerminal = false := by
    rcases hstat with hstat | hstat <;> rw [hstat] <;> rfl
  have hrel : row.releasedAt ≠ none := by
    intro hnone
    rcases hstat with hstat | hstat <;>
      simpa [hstat] using ((hflow.placed row hrow).unreleased hnone).1
  exact ⟨hrow, hrowOpen, hterm, rfl, rfl, rfl, rfl, rfl, fun hnone => absurd hnone hrel,
    fun _ hnone => absurd hnone hrel,
    fun other hother hne => h.mem_other hother fun hid => hne (hid ▸ hjobId),
    fun id hid => ⟨job', h.mem_new, h.id.trans (Option.some.inj (hjobId.symm.trans hid)),
      h.organizationId.trans horg, hpaired⟩,
    fun other hother => h.old hother⟩

/-- A job ends, and its step with it. -/
theorem ChangesJob.finish (h : ChangesJob strict db job job' queue') (hsound : Sound db)
    (hopen : job.status = .pending ∨ job.status = .leased) (hterm : status.isTerminal = true)
    (hpaired : Paired status job'.status) (reason : StepReason) (output : Option Json) :
    ∃ db', processWorkflowStepTerminalByJobId (db.withQueue queue') job.id status reason output =
      .ok db' ∧ Keeps strict db db' := by
  cases hstep : db.workflow.stepOfJob job.id with
  | none =>
    refine ⟨db.withQueue queue', ?_, h.unlinked hsound (stepOfJob_eq_none hstep)⟩
    rw [processWorkflowStepTerminalByJobId_eq hterm]
    simp only [Database.withQueue, hstep]
  | some row =>
    obtain ⟨hrow, hjobId⟩ := stepOfJob_eq_some hstep
    have hends := h.ends hsound.flow hrow hjobId hopen hterm hpaired reason output
    obtain ⟨db', hok, hkeeps⟩ := finishStep_spec hsound hends h.queue
    refine ⟨db', ?_, hkeeps⟩
    rw [processWorkflowStepTerminalByJobId_eq hterm]
    simp only [Database.withQueue, hstep, hends.opened]
    exact hok

end Hooks

section Leases

theorem JobRow.isLeasedTo_iff : job.isLeasedTo ident = true ↔ job.runNumber = ident.runNumber ∧
      job.attempt = ident.attempt ∧ job.workerId = some ident.workerId ∧
      job.status = .leased := by
  simp only [JobRow.isLeasedTo, Bool.and_eq_true, decide_eq_true_eq, and_assoc]

/-- The row that a lookup by identifier and condition finds. -/
theorem getFilter_eq_some {cond : JobRow → Bool} :
    (db.queue.jobs.get? jobId).filter cond = some job ↔
      job ∈ db.queue.jobs ∧ job.id = jobId ∧ cond job = true := by
  rw [Option.filter_eq_some_iff, get?_eq_some, and_assoc]

theorem lockLiveJobLease_eq_ok (h : lockLiveJobLease db ident = .ok job) :
    job ∈ db.queue.jobs ∧ job.id = ident.jobId ∧ job.isLeasedTo ident = true ∧
      job.isLive db.clock = true := by
  rw [lockLiveJobLease, require_eq_ok, getFilter_eq_some, Bool.and_eq_true] at h
  exact h

theorem lockLiveJobLease_leased (h : lockLiveJobLease db ident = .ok job) :
    job ∈ db.queue.jobs ∧ job.id = ident.jobId ∧ job.attempt = ident.attempt ∧
      job.workerId = some ident.workerId ∧ job.status = .leased := by
  obtain ⟨hjob, hid, hident, _⟩ := lockLiveJobLease_eq_ok h
  obtain ⟨_, hatt, hworker, hleased⟩ := JobRow.isLeasedTo_iff.mp hident
  exact ⟨hjob, hid, hatt, hworker, hleased⟩

variable [UuidSource]

theorem heartbeatJobForLease_keeps {leaseDurationSeconds : ℤ} (hsound : Sound db)
    (hok : heartbeatJobForLease db ident leaseDurationSeconds = .ok db') : Keeps strict db db' := by
  simp only [heartbeatJobForLease, bind_eq_ok, exists_unit, rejectIf_eq_ok, pure_eq_ok] at hok
  obtain ⟨_, job, hlock, queue, hchange, rfl⟩ := hok
  obtain ⟨hjob, _, _, hworker, hleased⟩ := lockLiveJobLease_leased hlock
  exact (ChangesJob.of_change hchange hjob rfl ⟨hleased, hworker⟩).stillLeased hsound hleased
    hleased

theorem persistProgressMutationForLease_keeps {progress : ProgressMutation} (hsound : Sound db)
    (hok : persistProgressMutationForLease db ident progress = .ok db') : Keeps strict db db' := by
  simp only [persistProgressMutationForLease, bind_eq_ok, exists_unit, pure_eq_ok] at hok
  obtain ⟨job, hlock, _, queue, hchange, rfl⟩ := hok
  obtain ⟨hjob, _, _, _, hleased⟩ := lockLiveJobLease_leased hlock
  exact (ChangesJob.of_change hchange hjob rfl hleased).stillLeased hsound hleased hleased

end Leases

section Completion

variable [UuidSource]

/-- The result of a transition that ends in a known database. -/
theorem Keeps.of_exists {result : Except Error Database}
    (h : ∃ db', result = .ok db' ∧ Keeps strict db db') (hok : result = .ok db') :
    Keeps strict db db' := by
  obtain ⟨after, hafter, hkeeps⟩ := h
  rw [hok] at hafter
  rwa [Except.ok.inj hafter]

theorem completeJobSuccessForLease_keeps {progress : SuccessProgressUpdate} (hsound : Sound db)
    (hok : completeJobSuccessForLease db ident progress = .ok db') : Keeps strict db db' := by
  simp only [completeJobSuccessForLease, bind_eq_ok, exists_unit] at hok
  obtain ⟨_, job, hlock, _, queue, hchange, hfin⟩ := hok
  obtain ⟨hjob, hid, _, _, hleased⟩ := lockLiveJobLease_leased hlock
  rw [← hid] at hfin
  exact .of_exists ((ChangesJob.of_change hchange hjob rfl hleased).finish hsound (.inr hleased)
    rfl .succeeded _ _) hfin

variable {failure : FailureDetails} {retryDelayMs : ℤ}

section

variable (hsound : Sound db)
include hsound

theorem applyTerminalFailure_keeps (hjob : job ∈ db.queue.jobs)
    (hallowed : (JobChange.deadLetter failure).Allowed db.queue db.clock job)
    (hok : applyTerminalFailure db context job failure = .ok db') : Keeps strict db db' := by
  simp only [applyTerminalFailure, bind_eq_ok] at hok
  obtain ⟨queue, hchange, hfin⟩ := hok
  exact .of_exists ((ChangesJob.of_change hchange hjob rfl hallowed).finish hsound
    (.inr hallowed.1) rfl .failed _ _) hfin

theorem applyRetry_keeps {nextRunAt : ℕ} (hjob : job ∈ db.queue.jobs)
    (hallowed : (JobChange.retry failure nextRunAt).Allowed db.queue db.clock job)
    (hok : applyRetry db context job failure nextRunAt = .ok db') : Keeps strict db db' := by
  simp only [applyRetry, bind_eq_ok, pure_eq_ok] at hok
  obtain ⟨queue, hchange, rfl⟩ := hok
  exact (ChangesJob.of_change hchange hjob rfl hallowed).enqueueRunningStep hsound hallowed.1 rfl _

theorem completeJobFailureForLease_keeps {update : JobFailureUpdate}
    (hok : completeJobFailureForLease db ident update = .ok db') : Keeps strict db db' := by
  simp only [completeJobFailureForLease, bind_eq_ok] at hok
  obtain ⟨job, hlock, _, _, hok⟩ := hok
  obtain ⟨hjob, _, hatt, _, hleased⟩ := lockLiveJobLease_leased hlock
  split_ifs at hok with hfinal
  · refine applyTerminalFailure_keeps hsound hjob ⟨hleased, ?_⟩ hok
    rw [hatt]
    simpa using hfinal
  · rw [bind_eq_ok] at hok
    obtain ⟨timing, _, hretry⟩ := hok
    refine applyRetry_keeps hsound hjob ⟨hleased, ?_⟩ hretry
    rw [hatt]
    simpa using hfinal

/-- A continuation moves the step, if it allows it, and then the job. -/
theorem completeJobContinuationForLease_keeps {cont : JobContinuationUpdate}
    (hok : completeJobContinuationForLease db ident cont = .ok db') : Keeps strict db db' := by
  simp only [completeJobContinuationForLease, bind_eq_ok, exists_unit, pure_eq_ok] at hok
  obtain ⟨delayUs, _, _, job, hlock, db1, hmark, _, nextRunAt, _, queue, hchange, rfl⟩ := hok
  obtain ⟨hjob, hid, _, _, hleased⟩ := lockLiveJobLease_leased hlock
  rw [← hid, markWorkflowStepEnqueuedForHandlerContinuation] at hmark
  cases hstep : db.workflow.stepOfJob job.id with
  | none =>
    rw [hstep] at hmark
    obtain rfl := Except.ok.inj hmark
    exact (ChangesJob.of_change hchange hjob rfl hleased).unlinked hsound
      (stepOfJob_eq_none hstep)
  | some row =>
    rw [hstep] at hmark
    simp only [bind_eq_ok, exists_unit, rejectIf_eq_ok, pure_eq_ok] at hmark
    obtain ⟨_, _, rfl⟩ := hmark
    obtain ⟨hrow, hjobId⟩ := stepOfJob_eq_some hstep
    have hrunning := (hsound.flow.step_of_open hrow hjob hjobId).2 hleased
    have hchanges : ChangesJob strict db job _ queue := .of_change hchange hjob rfl hleased
    exact hchanges.move hsound hrow hjobId
      ⟨rfl, rfl, rfl, rfl, rfl, .inr hrunning, .inl rfl⟩ .enqueued

theorem releaseUnstarted_keeps {reason : String} (hjob : job ∈ db.queue.jobs)
    (hleased : job.status = .leased) (hunstarted : db.queue.isUnstarted job = true)
    (hok : releaseUnstarted db job reason retryDelayMs = .ok db') : Keeps strict db db' := by
  simp only [releaseUnstarted, bind_eq_ok, pure_eq_ok] at hok
  obtain ⟨queue, hchange, rfl⟩ := hok
  exact (ChangesJob.of_change hchange hjob rfl ⟨hleased, hunstarted⟩).enqueueRunningStep hsound
    hleased rfl _

theorem releaseUnstartedJobClaim_keeps {reason : String}
    (hok : releaseUnstartedJobClaim db ident reason retryDelayMs = .ok db') :
    Keeps strict db db' := by
  simp only [releaseUnstartedJobClaim, bind_eq_ok, require_eq_ok, getFilter_eq_some,
    Bool.and_eq_true] at hok
  obtain ⟨job, ⟨hjob, _, hident, hunstarted⟩, hrelease⟩ := hok
  obtain ⟨_, _, _, hleased⟩ := JobRow.isLeasedTo_iff.mp hident
  exact releaseUnstarted_keeps hsound hjob hleased hunstarted hrelease

end

end Completion

section Claim

/-- The worker has not claimed the next attempt of the job before. -/
def FreshClaim (queue : QueueTables) (workerId : String) (job : JobRow) : Prop :=
  ⟨job.id, job.runNumber, job.attempt + 1, workerId⟩ ∉ claims (queue.eventsOf job.id)

/-- The worker claims none of the candidates for a second time. -/
def FreshClaims (queue : QueueTables) (workerId : String) (candidates : List ℕ) : Prop :=
  ∀ job ∈ queue.jobs, job.id ∈ candidates → job.status = .pending → FreshClaim queue workerId job

/-- Jobs that are still pending have not changed, and nothing was added to their log. -/
def PendingKept (queue queue' : QueueTables) : Prop :=
  ∀ job ∈ queue'.jobs, job.status = .pending →
    job ∈ queue.jobs ∧ queue'.eventsOf job.id = queue.eventsOf job.id

variable {request : ClaimRequest} {queue : QueueTables}

theorem acquireResource_eq_ok (hok : acquireResource db request job = .ok (some queue)) :
    ∃ claims', queue = { db.queue with resourceClaims := claims' } ∧
      Acquired db.queue.resourceClaims claims' job request.workerId := by
  rw [acquireResource] at hok
  cases hkey : job.executionResourceKey with
  | none =>
    rw [hkey] at hok
    obtain rfl := Option.some.inj (Except.ok.inj hok)
    exact ⟨db.queue.resourceClaims, rfl, by rw [Acquired, hkey]⟩
  | some key =>
    simp only [hkey] at hok
    split_ifs at hok with hheld hnone
    · cases Except.ok.inj hok
    · simp only [bind_eq_ok, exists_unit, rejectIf_eq_ok, pure_eq_ok, Option.map_eq_some_iff] at hok
      obtain ⟨_, claims', hins, rfl⟩ := hok
      exact ⟨claims', rfl, by
        rw [Acquired, hkey]
        exact ⟨_, hins, rfl, rfl, rfl, rfl, rfl, rfl⟩⟩
    · simp only [bind_eq_ok, pure_eq_ok] at hok
      obtain ⟨_, _, hok⟩ := hok
      cases hok

variable [UuidSource]

/-- One candidate is claimed, or it is skipped. -/
theorem claimJob_keeps (hsound : Sound db)
    (hfresh : strict → ∀ job ∈ db.queue.jobs, job.id = jobId → job.status = .pending →
      FreshClaim db.queue request.workerId job)
    (hok : claimJob request db jobId = .ok db') :
    Keeps strict db db' ∧ PendingKept db.queue db'.queue := by
  have hskip : Keeps strict db db ∧ PendingKept db.queue db.queue :=
    ⟨.refl hsound, fun job hjob _ => ⟨hjob, rfl⟩⟩
  rw [claimJob] at hok
  cases hget : (db.queue.jobs.get? jobId).filter (·.isCandidate db.clock request) with
  | none =>
    rw [hget] at hok
    obtain rfl := Except.ok.inj hok
    exact hskip
  | some job =>
    simp only [hget, bind_eq_ok] at hok
    obtain ⟨acquired, hacquire, hok⟩ := hok
    cases acquired with
    | none =>
      obtain rfl := Except.ok.inj hok
      exact hskip
    | some queue =>
      obtain ⟨hjob, rfl, hcand⟩ := getFilter_eq_some.mp hget
      have hpend : job.status = .pending := by
        simp only [JobRow.isCandidate, Bool.and_eq_true, decide_eq_true_eq] at hcand
        exact hcand.1.1
      obtain ⟨claims', rfl, hacquired⟩ := acquireResource_eq_ok hacquire
      simp only [bind_eq_ok, pure_eq_ok] at hok
      obtain ⟨queue', hchange, rfl⟩ := hok
      obtain ⟨hjobs, _, _, hevents⟩ := QueueTables.change_eq_ok hchange
      have hchanges : ChangesJob strict db job _ queue' :=
        ⟨hjob, JobChange.apply_id _ _ job, JobChange.apply_organizationId _ _ job,
          fun _ => mem_jobs_after_change hjob hjobs,
          .single (.claim _ job _ _ _ hjob hpend
            (fun hstrict => hfresh hstrict job hjob rfl hpend) hacquired hchange)⟩
      refine ⟨hchanges.markRunning hsound hpend rfl, ?_⟩
      intro other hother hstill
      rcases (hchanges.jobs other).mp hother with ⟨hold, hne⟩ | rfl
      · refine ⟨hold, ?_⟩
        have hlog := eventsOf_append_events hevents other.id
        rw [if_neg hne] at hlog
        exact hlog
      · cases hstill

theorem claimJobs_keeps {candidates : List ℕ} (hsound : Sound db)
    (hfresh : strict → FreshClaims db.queue request.workerId candidates)
    (hok : claimJobs db request candidates = .ok db') : Keeps strict db db' := by
  simp only [claimJobs, bind_eq_ok, exists_unit, rejectIf_eq_ok] at hok
  refine (foldlM_of_ok (f := claimJob request) (P := fun rest db1 =>
    Keeps strict db db1 ∧ PendingKept db.queue db1.queue ∧ ∀ id ∈ rest, id ∈ candidates) ?_
    ⟨.refl hsound, fun job hjob _ => ⟨hjob, rfl⟩, fun _ hid => hid⟩ hok.2).1
  rintro jobId rest db1 db2 ⟨hkeeps, hpend, hrest⟩ hclaim
  obtain ⟨hkeeps', hpend'⟩ := claimJob_keeps hkeeps.sound (fun hstrict job hjob hid hstat => by
    obtain ⟨hold, hlog⟩ := hpend job hjob hstat
    rw [FreshClaim, hlog]
    exact hfresh hstrict job hold (hid ▸ hrest jobId List.mem_cons_self) hstat) hclaim
  refine ⟨hkeeps.trans hkeeps', ?_, fun id hid => hrest id (List.mem_cons_of_mem jobId hid)⟩
  intro job hjob hstat
  obtain ⟨hold, hlog⟩ := hpend' job hjob hstat
  obtain ⟨hfirst, hlog'⟩ := hpend job hold hstat
  exact ⟨hfirst, hlog.trans hlog'⟩

end Claim

section Reaper

variable [UuidSource]
variable {defaultRetryDelayMs : ℤ}

variable (hsound : Sound db)
include hsound

theorem reapExpiredLeaseRow_keeps (hjob : job ∈ db.queue.jobs) (hleased : job.status = .leased)
    (hok : reapExpiredLeaseRow db job defaultRetryDelayMs = .ok db') : Keeps strict db db' := by
  rw [reapExpiredLeaseRow] at hok
  split_ifs at hok with hunstarted hlast
  · exact releaseUnstarted_keeps hsound hjob hleased hunstarted hok
  · exact applyTerminalFailure_keeps hsound hjob ⟨hleased, .inr hlast⟩ hok
  · exact applyRetry_keeps hsound hjob ⟨hleased, rfl, not_le.mp hlast⟩ hok

theorem deferFailedRow_keeps (hjob : job ∈ db.queue.jobs) (hleased : job.status = .leased)
    (hok : deferFailedRow db job defaultRetryDelayMs = .ok db') : Keeps strict db db' := by
  simp only [deferFailedRow, bind_eq_ok, pure_eq_ok] at hok
  obtain ⟨queue, hchange, rfl⟩ := hok
  exact (ChangesJob.of_change hchange hjob rfl hleased).stillLeased hsound hleased hleased

theorem reapExpiredLeaseRowWithSavepoint_keeps {row : ℕ × Bool}
    (hok : reapExpiredLeaseRowWithSavepoint defaultRetryDelayMs db row = .ok db') :
    Keeps strict db db' := by
  rw [reapExpiredLeaseRowWithSavepoint] at hok
  cases hget : (db.queue.jobs.get? row.1).filter (·.isExpired db.clock) with
  | none =>
    rw [hget] at hok
    obtain rfl := Except.ok.inj hok
    exact .refl hsound
  | some job =>
    obtain ⟨hjob, _, hexp⟩ := getFilter_eq_some.mp hget
    have hleased : job.status = .leased := by
      simp only [JobRow.isExpired, Bool.and_eq_true, decide_eq_true_eq] at hexp
      exact hexp.1
    simp only [hget] at hok
    split_ifs at hok
    · exact deferFailedRow_keeps hsound hjob hleased hok
    · cases hreap : reapExpiredLeaseRow db job defaultRetryDelayMs with
      | ok reaped =>
        rw [hreap] at hok
        obtain rfl := Except.ok.inj hok
        exact reapExpiredLeaseRow_keeps hsound hjob hleased hreap
      | error _ =>
        rw [hreap] at hok
        exact deferFailedRow_keeps hsound hjob hleased hok

theorem reapExpiredLeases_keeps {rows : List (ℕ × Bool)}
    (hok : reapExpiredLeases db defaultRetryDelayMs rows = .ok db') : Keeps strict db db' := by
  simp only [reapExpiredLeases, bind_eq_ok, exists_unit, rejectIf_eq_ok] at hok
  refine foldlM_of_ok (P := fun _ db1 => Keeps strict db db1) ?_ (.refl hsound) hok.2
  intro row _ db1 db2 hkeeps hrow
  exact hkeeps.trans (reapExpiredLeaseRowWithSavepoint_keeps hkeeps.sound hrow)

theorem releaseExpiredExecutionResourceClaims_keeps (selected : List String) :
    Keeps strict db (releaseExpiredExecutionResourceClaims db selected) := by
  refine hsound.idle rfl rfl (le_refl _) hsound.flow.drawn.job ?_ (.single (.sweep _ ?_))
  · intro step _ job hjob _
    exact ⟨job, hjob, rfl, rfl, rfl, fun _ => rfl⟩
  · intro claim _ hexp
    simp only [Bool.and_eq_true] at hexp
    refine ⟨fun releaseAfter hrelease => ?_, fun hrelease job hjob hbelongs hleased => ?_⟩
    · simpa [hrelease] using hexp.2
    · have hget : db.queue.jobs.get? claim.jobId = some job := get?_eq_some.mpr
        ⟨hjob, (ResourceClaimRow.belongsTo_iff.mp hbelongs).1.symm⟩
      simp [hrelease, hget, hbelongs, hleased] at hexp

end Reaper

section Admin

variable [UuidSource]
variable {reason : Option String} {scope : JobCancellationScope}

theorem cancelJobWithScopeTx_keeps (hsound : Sound db)
    (hok : cancelJobWithScopeTx db scope jobId reason = .ok (some db')) : Keeps strict db db' := by
  rw [cancelJobWithScopeTx] at hok
  split at hok
  · exact absurd (Except.ok.inj hok) nofun
  · rename_i job hget
    obtain ⟨hjob, rfl, hcond⟩ := getFilter_eq_some.mp hget
    simp only [Bool.and_eq_true, Bool.or_eq_true, decide_eq_true_eq] at hcond
    simp only [bind_eq_ok, pure_eq_ok] at hok
    obtain ⟨queue, hchange, after, hfin, hafter⟩ := hok
    obtain rfl := Option.some.inj hafter
    exact .of_exists ((ChangesJob.of_change hchange hjob rfl hcond.2).finish hsound
      hcond.2 rfl .canceled _ _) hfin

theorem cancelJobWithScope_keeps (hsound : Sound db)
    (hok : cancelJobWithScope db scope jobId reason = .ok db') : Keeps strict db db' := by
  simp only [cancelJobWithScope, bind_eq_ok] at hok
  obtain ⟨outcome, htx, hok⟩ := hok
  cases outcome with
  | none => simp only [throw_eq_ok] at hok
  | some after =>
    obtain rfl := Except.ok.inj hok
    exact cancelJobWithScopeTx_keeps hsound htx

theorem compareAndRequeueJob_keeps
    {request : CompareAndRequeueJob} {outcome : CompareAndRequeueJobOutcome} (hsound : Sound db)
    (hok : compareAndRequeueJob db request = .ok (outcome, db')) : Keeps strict db db' := by
  have hsame : ∀ outcome', (.ok (outcome', db) : Except Error _) = .ok (outcome, db') →
      Keeps strict db db' := by
    intro outcome' hres
    obtain ⟨_, rfl⟩ := Prod.mk.inj (Except.ok.inj hres)
    exact Keeps.refl hsound
  rw [compareAndRequeueJob] at hok
  split at hok
  · exact hsame _ hok
  · rename_i job hget
    obtain ⟨hjob, _, _⟩ := getFilter_eq_some.mp hget
    split_ifs at hok with hexpected hstep hlive
    · exact hsame _ hok
    · exact hsame _ hok
    · simp only [bind_eq_ok, pure_eq_ok] at hok
      obtain ⟨queue, hchange, hres⟩ := hok
      obtain ⟨_, rfl⟩ := Prod.mk.inj hres
      obtain ⟨hstat, _⟩ := not_or.mp hexpected
      have hended : job.status = .canceled ∨ job.status = .deadLettered := by
        rw [not_not.mp hstat]
        exact request.requeueable
      refine (ChangesJob.of_change hchange hjob rfl ⟨hended, by simpa using hlive⟩).unlinked hsound
        (stepOfJob_eq_none ?_)
      simpa using hstep

end Admin

section External

variable [UuidSource]

/-- A step without a job that waits for the outside ends. -/
theorem Flow.endsExternal {row : StepRow} (h : Flow [] [] db) (hrow : row ∈ db.workflow.steps)
    (hwaiting : row.status = .waitingForExternal) (hterm : status.isTerminal = true)
    (reason : StepReason) (output : Option Json) :
    EndsStep db row (row.finish status reason output) db.queue := by
  have hplaced := h.placed row hrow
  have hjobId : row.jobId = none := by
    cases hkind : row.executionKind with
    | external => exact (hplaced.external hkind).1
    | job => exact absurd hwaiting (hplaced.job hkind)
  have hrel : row.releasedAt ≠ none := by
    intro hnone
    simpa [hwaiting] using (hplaced.unreleased hnone).1
  exact ⟨hrow, by rw [hwaiting]; rfl, hterm, rfl, rfl, rfl, rfl, rfl,
    fun hnone => absurd hnone hrel, fun _ hnone => absurd hnone hrel,
    fun _ hjob _ => hjob, fun _ hid => absurd (hjobId.symm.trans hid) nofun,
    fun job hjob => ⟨job, hjob, rfl⟩⟩

theorem completeExternalWorkflowStep_keeps {input : CompleteExternalWorkflowStepInput}
    (hsound : Sound db) (hok : completeExternalWorkflowStep db input = .ok db') :
    Keeps strict db db' := by
  simp only [completeExternalWorkflowStep, bind_eq_ok, exists_unit, rejectIf_eq_ok] at hok
  obtain ⟨step, hlock, _, hok⟩ := hok
  split_ifs at hok
  · simp only [bind_eq_ok, exists_unit, pure_eq_ok] at hok
    obtain ⟨_, _, _, rfl⟩ := hok
    exact .refl hsound
  · simp only [bind_eq_ok, exists_unit, rejectIf_eq_ok, decide_eq_false_iff_not, not_not] at hok
    obtain ⟨hwaiting, hfin⟩ := hok
    have hstep : step ∈ db.workflow.steps := by
      rw [lockExternalWorkflowStepForCompletion, require_eq_ok] at hlock
      split_ifs at hlock
      exact (mem_select.mp (List.mem_of_head? hlock)).1
    have hterm : input.outcome.status.isTerminal = true := by
      cases input.outcome <;> rfl
    exact .of_exists (finishStep_spec hsound
      (hsound.flow.endsExternal hstep hwaiting hterm input.reason input.outcome.output) .refl)
      hfin

end External

section ActiveClaims

variable [UuidSource]

/-- Claims of runs that are not live any more are dropped. -/
theorem releaseQuiescedWorkflowActiveClaims_keeps (hsound : Sound db)
    (selected : List (String × String)) :
    Keeps strict db (releaseQuiescedWorkflowActiveClaims db selected) := by
  have hclaims : ∀ claim, claim ∈ (releaseQuiescedWorkflowActiveClaims db
      selected).workflow.activeClaims → claim ∈ db.workflow.activeClaims :=
    fun claim hclaim => (mem_delete.mp hclaim).1
  refine ⟨⟨?_, ?_⟩, { Evolves.refl none db with }, .refl⟩
  · exact hsound.flow.withRuns (.refl (fun _ => by rfl) _) rfl rfl rfl rfl (fun _ hcanc => hcanc)
      hsound.flow.openRun
  · refine ⟨?_, nofun, ?_, ?_, ?_, hsound.settled.queue⟩
    · intro run hrun hloose
      exact (hsound.settled.exact run hrun hloose).congr hsound.flow.graph fun _ => Iff.rfl
    · intro run hrun hkey hlive
      obtain ⟨claim, hclaim, hfor⟩ := hsound.settled.owned run hrun hkey hlive
      refine ⟨claim, mem_delete.mpr ⟨hclaim, ?_⟩, hfor⟩
      rw [hfor.1, Bool.eq_false_iff]
      intro hdrop
      simp only [Bool.and_eq_true, Bool.not_eq_true'] at hdrop
      obtain ⟨⟨_, hpend⟩, hquiet⟩ := hdrop
      rcases hlive.resolve_right nofun with hopen | hlease
      · have hended := hsound.settled.released claim hclaim hpend run hrun hfor.1.symm
        exact absurd (hopen.symm.trans hended) nofun
      · exact absurd (hquiet.symm.trans hlease) nofun
    · intro claim hclaim
      exact hsound.settled.released claim (hclaims claim hclaim)
    · intro claim hclaim
      exact hsound.settled.claimed claim (hclaims claim hclaim)

end ActiveClaims

end Batter.Runledger.Postgres
