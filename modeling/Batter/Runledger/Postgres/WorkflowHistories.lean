import Batter.Runledger.Postgres.JobHistories
import Batter.Runledger.Postgres.Submission

/-!
# Workflows over whole histories

The database of a history is sound, so the counters of a step count its edges, the
status of a run is that of its steps, and steps agree with their jobs.  A run that
has ended is frozen: its row and its steps stay as they are for the rest of the
history.
-/

namespace Batter.Runledger.Postgres

open RustStd List Table

variable {db db' : Database} {txs : List Transaction} {key : String}

section Frozen

/-- A later database has the run and exactly its steps as they were. -/
structure Frozen (run : RunRow) (db db' : Database) : Prop where
  row : run ∈ db'.workflow.runs
  steps : ∀ step, step.workflowRunId = run.id →
    (step ∈ db'.workflow.steps ↔ step ∈ db.workflow.steps)

variable [UuidSource] {db'' : Database} {run : RunRow}

omit [UuidSource] in
theorem Frozen.trans (h : Frozen run db db') (h' : Frozen run db' db'') : Frozen run db db'' :=
  ⟨h'.row, fun step hid => (h'.steps step hid).trans (h.steps step hid)⟩

variable (hsound : Sound db) (hrun : run ∈ db.workflow.runs) (hended : run.status.isTerminal = true)
include hsound hrun hended

/-- A transaction leaves a run that has ended as it is. -/
theorem Frozen.commit (tx : Transaction) : Frozen run db (commit db tx) := by
  obtain ⟨mid, hadds, hkeeps⟩ := commit_does hsound tx fun h : False => h.elim
  have hextends := hadds.extends (hsound.after _)
  have hmid : run ∈ mid.workflow.runs := hextends.oldRuns run hrun
  refine ⟨?_, fun step hid => ⟨fun hstep => ?_, fun hstep => ?_⟩⟩
  · obtain ⟨run', hrun', hevolves⟩ := hkeeps.evolves.runs.1 run hmid
    rwa [← hevolves.ended hended]
  · obtain ⟨before, hbefore, hevolves⟩ := hkeeps.evolves.steps.2 step hstep
    have hbeforeRun : before.workflowRunId = run.id :=
      (StepRow.run_of_declared hevolves.declared).symm.trans hid
    have hstays := hkeeps.evolves.frozen run hmid hended nofun before hbefore hbeforeRun
    have hsame : step = before := eq_of_key_eq hstep hstays
      (StepRow.id_of_declared hevolves.declared)
    rcases hextends.newSteps before hbefore with hold | ⟨_, hopen⟩
    · exact hsame ▸ hold
    · exact absurd (hended.symm.trans (hopen run hmid hbeforeRun.symm)) nofun
  · exact hkeeps.evolves.frozen run hmid hended nofun step (hextends.oldSteps step hstep) hid

/-- A run that has ended stays as it is for the rest of the history. -/
theorem Frozen.commits (txs : List Transaction) : Frozen run db (txs.foldl Postgres.commit db) := by
  induction txs generalizing db with
  | nil => exact ⟨hrun, fun _ _ => Iff.rfl⟩
  | cons tx rest ih =>
    have hnext := Frozen.commit hsound hrun hended tx
    exact hnext.trans (ih (hsound.commit tx) hnext.row)

end Frozen

section Counters

/-- The status of a step satisfies a predicate. -/
def WorkflowTables.stepHas (tables : WorkflowTables) (id : ℕ) (p : WorkflowStepStatus → Bool) :
    Bool :=
  (tables.steps.get? id).any fun row => p row.status

/-- The edges of a step whose prerequisite has not ended. -/
def WorkflowTables.pendingEdges (tables : WorkflowTables) (id : ℕ) : ℕ :=
  tables.dependencies.rows.countP fun edge => edge.dependentStepId = id &&
    tables.stepHas edge.prerequisiteStepId fun status => !status.isTerminal

/-- The `ON_SUCCESS` edges of a step whose prerequisite failed or was canceled. -/
def WorkflowTables.unsatisfiedEdges (tables : WorkflowTables) (id : ℕ) : ℕ :=
  tables.dependencies.rows.countP fun edge => edge.dependentStepId = id &&
    (edge.releaseMode = .onSuccess && tables.stepHas edge.prerequisiteStepId
      fun status => status = .failed || status = .canceled)

variable {tables : WorkflowTables} {id : ℕ} {row : StepRow}

theorem stepOutcome_isNone (hrow : row ∈ tables.steps) (hid : row.id = id) :
    (stepOutcome tables.steps [] id).isNone =
      tables.stepHas id fun status => !status.isTerminal := by
  subst hid
  rw [stepOutcome, if_neg not_mem_nil, WorkflowTables.stepHas, get?_of_mem hrow]
  cases hstat : row.status.isTerminal <;> simp [hstat]

theorem stepOutcome_eq_false (hrow : row ∈ tables.steps) (hid : row.id = id) :
    (stepOutcome tables.steps [] id == some false) =
      tables.stepHas id fun status => status = .failed || status = .canceled := by
  subst hid
  rw [stepOutcome, if_neg not_mem_nil, WorkflowTables.stepHas, get?_of_mem hrow]
  cases hstat : row.status <;> simp [hstat, WorkflowStepStatus.isTerminal]

/-- The counters of a step are the numbers of its open and of its unsatisfied edges. -/
theorem StepRow.Counted.edges
    (h : row.Counted tables.dependencies.rows (stepOutcome tables.steps []))
    (hgraph : Graph tables) :
    row.dependencyCountPending = tables.pendingEdges row.id ∧
      row.dependencyCountUnsatisfied = tables.unsatisfiedEdges row.id := by
  constructor
  · rw [h.pending, pendingCount, WorkflowTables.pendingEdges]
    congr 1
    refine countP_congr fun edge hedge => ?_
    obtain ⟨step, hstep, hid, _⟩ := hgraph.prerequisite edge hedge
    rw [stepOutcome_isNone hstep hid]
  · rw [h.unsatisfied, unsatisfiedCount, WorkflowTables.unsatisfiedEdges]
    congr 1
    refine countP_congr fun edge hedge => ?_
    obtain ⟨step, hstep, hid, _⟩ := hgraph.prerequisite edge hedge
    rw [stepOutcome_eq_false hstep hid, DependencyRow.isStrict]

/-- The status of a step of a run that was not canceled agrees with its counters.  A refused step
was never released; its reason does not tell, since a caller may end a released step with the
same text. -/
structure StepRow.Bookkept (step : StepRow) : Prop where
  blocked : step.status = .blocked ↔ 0 < step.dependencyCountPending
  released : step.status = .enqueued ∨ step.status = .running ∨
    step.status = .waitingForExternal ∨ step.status = .succeeded ∨ step.status = .failed →
    step.dependencyCountPending = 0 ∧ step.dependencyCountUnsatisfied = 0
  refused : step.status = .canceled ∧ step.releasedAt = none ↔
    step.dependencyCountPending = 0 ∧ 0 < step.dependencyCountUnsatisfied
  reason : step.status = .canceled → step.releasedAt = none →
    step.statusReason = some dependencyUnsatisfied

theorem StepRow.Placed.bookkept {step : StepRow} (h : step.Placed False False) : step.Bookkept := by
  have hwaits : step.status = .blocked → 0 < step.dependencyCountPending :=
    fun hblk => (h.waits not_false hblk).resolve_right not_false
  cases hrel : step.releasedAt with
  | none =>
    obtain ⟨hstat, _⟩ := h.unreleased hrel
    have hrefused := h.refused not_false hrel
    refine ⟨⟨hwaits, fun hpend => ?_⟩, fun hother => ?_, ⟨?_, ?_⟩, ?_⟩
    · refine hstat.resolve_right fun hcanc => ?_
      exact absurd (hrefused hcanc).1 hpend.ne'
    · rcases hstat with hstat | hstat <;> simp [hstat] at hother
    · exact fun hcanc => ⟨(hrefused hcanc.1).1, (hrefused hcanc.1).2.1⟩
    · rintro ⟨hpend, _⟩
      refine ⟨hstat.resolve_left fun hblk => ?_, hrel⟩
      exact absurd hpend (hwaits hblk).ne'
    · exact fun hcanc _ => (hrefused hcanc).2.2
  | some time =>
    obtain ⟨hblk, hpend, hunsat, _⟩ := h.released (by rw [hrel]; rfl)
    refine ⟨⟨fun hstat => absurd hstat hblk, fun hpositive => ?_⟩,
      fun _ => ⟨hpend, hunsat⟩, ⟨?_, ?_⟩, ?_⟩
    · exact absurd hpend hpositive.ne'
    · exact fun hcanc => absurd (hrel.symm.trans hcanc.2) nofun
    · exact fun hrefused => absurd hunsat hrefused.2.ne'
    · exact fun _ hnone => absurd (hrel.symm.trans hnone) nofun

/-- The counters of every step count its edges, and in a run that was not canceled the status
of every step follows from them. -/
theorem dependency_bookkeeping_is_exact
    [UuidSource] (transactions : List Transaction) {step : StepRow}
    (hstep : step ∈ (history transactions).workflow.steps) :
    step.dependencyCountPending = (history transactions).workflow.pendingEdges step.id ∧
      step.dependencyCountUnsatisfied = (history transactions).workflow.unsatisfiedEdges step.id ∧
      ((∀ run ∈ (history transactions).workflow.runs, run.id = step.workflowRunId →
        run.status ≠ .canceled) → step.Bookkept) := by
  have hflow := (sound_history transactions).flow
  obtain ⟨hpend, hunsat⟩ := (hflow.counted step hstep).edges hflow.graph
  refine ⟨hpend, hunsat, fun hnot => ?_⟩
  have hplaced := hflow.placed step hstep
  have hcanc : (history transactions).workflow.IsCanceled step.workflowRunId = False := by
    rw [eq_iff_iff, iff_false]
    rintro ⟨run, hrun, hid, hstat⟩
    exact hnot run hrun hid hstat
  have hawaited : (step.id ∈ ([] : List ℕ)) = False := by simp
  rw [hcanc, hawaited] at hplaced
  exact hplaced.bookkept

/-- A workflow of two external steps, the second one after the first one has succeeded. -/
def sampleWorkflow : WorkflowRunEnqueue where
  workflowType := "import"
  organizationId := none
  metadata := .obj []
  idempotencyKey := none
  activeKey := some "nightly"
  resultStepKey := some "load"
  steps := [⟨"extract", .external, none, .obj [], []⟩,
    ⟨"load", .external, none, .obj [], [⟨"extract", some .onSuccess⟩]⟩]

/-- The workflow is enqueued. -/
def sampleRun : List Transaction :=
  [⟨1, .enqueueOrGetActiveWorkflow sampleWorkflow⟩]

/-- The second step waits for the first one. -/
theorem second_step_is_blocked : letI := countingUuids
    ∃ step, step ∈ (history sampleRun).workflow.steps ∧ step.status = .blocked ∧
      0 < step.dependencyCountPending := by
  have hstatuses : (@history countingUuids sampleRun).workflow.steps.rows.map StepRow.status =
      [.waitingForExternal, .blocked] := by
    decide +kernel
  have hruns : (@history countingUuids sampleRun).workflow.runs.rows.map RunRow.status =
      [.running] := by
    decide +kernel
  obtain ⟨step, hstep, hblk⟩ := List.mem_map.mp
    (hstatuses ▸ List.mem_cons_of_mem _ (List.mem_singleton_self WorkflowStepStatus.blocked))
  obtain ⟨_, _, hbookkept⟩ :=
    @dependency_bookkeeping_is_exact countingUuids _ step (Table.mem_rows.mp hstep)
  refine ⟨step, Table.mem_rows.mp hstep, hblk, ((hbookkept ?_).blocked).mp hblk⟩
  intro run hrun _ hcanc
  have hmem : run.status ∈ [WorkflowRunStatus.running] :=
    hruns ▸ List.mem_map_of_mem (Table.mem_rows.mpr hrun)
  rw [hcanc] at hmem
  exact absurd (List.mem_singleton.mp hmem) nofun

/-- The first step is ended from outside with the reason with which the second one is refused. -/
example : letI := countingUuids
    (history (sampleRun ++ [⟨1, .completeExternalStep ⟨0, none, "extract", .canceled,
      ⟨some dependencyUnsatisfied, none, none⟩⟩⟩])).workflow.steps.rows.map (fun step =>
        (step.status, step.statusReason, step.releasedAt.isSome,
          step.dependencyCountUnsatisfied)) =
      [(.canceled, some dependencyUnsatisfied, true, 0),
        (.canceled, some dependencyUnsatisfied, false, 1)] := by
  decide +kernel

end Counters

section RunStatus

/-- The status of a run says what its steps are doing. -/
structure RunRow.Truthful (steps : List StepRow) (run : RunRow) : Prop where
  running : run.status = .running ↔ ∃ step ∈ steps, step.status = .blocked ∨
    step.status = .enqueued ∨ step.status = .running
  waiting : run.status = .waitingForExternal ↔
    (∀ step ∈ steps, step.status = .waitingForExternal ∨ step.status.isTerminal = true) ∧
      ∃ step ∈ steps, step.status = .waitingForExternal
  failed : run.status = .completedWithErrors ↔
    (∀ step ∈ steps, step.status.isTerminal = true) ∧
      ∃ step ∈ steps, step.status = .failed ∨ step.status = .canceled
  succeeded : run.status = .succeeded ↔ ∀ step ∈ steps, step.status = .succeeded

variable {run : RunRow}

theorem RunRow.truthful_of_eq {steps : List StepRow} (h : run.status = nextRunStatus steps) :
    run.Truthful steps := by
  have hany : ∀ p : StepRow → Bool, steps.any p = true ↔ ∃ step ∈ steps, p step = true :=
    fun p => any_eq_true
  simp only [nextRunStatus, hany, Bool.or_eq_true, decide_eq_true_eq, or_assoc] at h
  have hkinds : ∀ step : StepRow, ¬ (step.status = .blocked ∨ step.status = .enqueued ∨
      step.status = .running) → step.status = .waitingForExternal ∨
        step.status.isTerminal = true := by
    intro step
    cases step.status <;> simp [WorkflowStepStatus.isTerminal]
  split_ifs at h with hopen hwaiting hfailed
  · obtain ⟨step, hstep, hstat⟩ := hopen
    have hother : step.status ≠ .waitingForExternal ∧ step.status.isTerminal ≠ true ∧
        step.status ≠ .succeeded := by
      rcases hstat with hstat | hstat | hstat <;>
        simp [hstat, WorkflowStepStatus.isTerminal]
    refine ⟨iff_of_true h ⟨step, hstep, hstat⟩, iff_of_false (by simp [h]) fun hall => ?_,
      iff_of_false (by simp [h]) fun hall => ?_, iff_of_false (by simp [h]) fun hall => ?_⟩
    · exact (hall.1 step hstep).elim hother.1 hother.2.1
    · exact hother.2.1 (hall.1 step hstep)
    · exact hother.2.2 (hall step hstep)
  · have hall : ∀ step ∈ steps, step.status = .waitingForExternal ∨
        step.status.isTerminal = true :=
      fun step hstep => hkinds step fun hstat => hopen ⟨step, hstep, hstat⟩
    obtain ⟨step, hstep, hstat⟩ := hwaiting
    refine ⟨iff_of_false (by simp [h]) hopen, iff_of_true h ⟨hall, step, hstep, hstat⟩,
      iff_of_false (by simp [h]) fun hended => ?_, iff_of_false (by simp [h]) fun hended => ?_⟩
    · have := hended.1 step hstep
      simp [hstat, WorkflowStepStatus.isTerminal] at this
    · have := hended step hstep
      simp [hstat] at this
  all_goals
    have hall : ∀ step ∈ steps, step.status.isTerminal = true := fun step hstep =>
      (hkinds step fun hstat => hopen ⟨step, hstep, hstat⟩).resolve_left
        fun hstat => hwaiting ⟨step, hstep, hstat⟩
  · obtain ⟨step, hstep, hstat⟩ := hfailed
    refine ⟨iff_of_false (by simp [h]) hopen, iff_of_false (by simp [h]) fun hsome =>
      hwaiting hsome.2, iff_of_true h ⟨hall, step, hstep, hstat⟩,
      iff_of_false (by simp [h]) fun hended => ?_⟩
    have := hended step hstep
    simp [this] at hstat
  · refine ⟨iff_of_false (by simp [h]) hopen, iff_of_false (by simp [h]) fun hsome =>
      hwaiting hsome.2, iff_of_false (by simp [h]) fun hsome => hfailed hsome.2,
      iff_of_true h fun step hstep => ?_⟩
    have hended := hall step hstep
    have hnot : ¬ (step.status = .failed ∨ step.status = .canceled) :=
      fun hstat => hfailed ⟨step, hstep, hstat⟩
    cases hstat : step.status <;> simp [hstat, WorkflowStepStatus.isTerminal] at hended hnot ⊢

variable [UuidSource]

/-- A step that has not ended waits for one that can go on by itself. -/
theorem exists_active_step (hflow : Flow [] [] db) {step : StepRow}
    (hstep : step ∈ db.workflow.steps) (hopen : step.status.isTerminal = false)
    (hnot : ¬ db.workflow.IsCanceled step.workflowRunId) :
    ∃ active ∈ db.workflow.stepsOf step.workflowRunId, active.status = .enqueued ∨
      active.status = .running ∨ active.status = .waitingForExternal := by
  obtain ⟨rank, hrank⟩ := hflow.graph.ranked
  induction hn : rank step.id using Nat.strong_induction_on generalizing step with
  | _ n ih =>
    have hmem : step ∈ db.workflow.stepsOf step.workflowRunId := mem_stepsOf.mpr ⟨hstep, rfl⟩
    cases hstat : step.status with
    | enqueued => exact ⟨step, hmem, .inl hstat⟩
    | running => exact ⟨step, hmem, .inr (.inl hstat)⟩
    | waitingForExternal => exact ⟨step, hmem, .inr (.inr hstat)⟩
    | blocked =>
      have hpend := ((hflow.placed step hstep).waits hnot hstat).resolve_right
        not_mem_nil
      rw [((hflow.counted step hstep).edges hflow.graph).1, Int.natCast_pos,
        WorkflowTables.pendingEdges, countP_pos_iff] at hpend
      obtain ⟨edge, hedge, hcond⟩ := hpend
      obtain ⟨pre, hpre, hid, hrun⟩ := hflow.graph.prerequisite edge hedge
      obtain ⟨dependent, hdept, hid', hrun'⟩ := hflow.graph.dependent edge hedge
      simp only [Bool.and_eq_true, decide_eq_true_eq, WorkflowTables.stepHas] at hcond
      obtain rfl : dependent = step := eq_of_key_eq hdept hstep (hid'.trans hcond.1)
      have hsame : pre.workflowRunId = dependent.workflowRunId := hrun.trans hrun'.symm
      have hpreOpen : pre.status.isTerminal = false := by
        have hget := hcond.2
        rw [← hid, get?_of_mem hpre] at hget
        simpa using hget
      have hless : rank pre.id < n := by
        rw [← hn, hid, hid']
        exact hrank edge hedge
      have hact := ih _ hless hpre hpreOpen (hsame ▸ hnot) rfl
      rwa [hsame] at hact
    | succeeded => rw [hstat] at hopen; cases hopen
    | failed => rw [hstat] at hopen; cases hopen
    | canceled => rw [hstat] at hopen; cases hopen

/-- The result step of a run is one of its steps. -/
theorem exists_result_step (hrun : run ∈ (history txs).workflow.runs)
    (hkey : run.resultStepKey = some key) :
    ∃ step ∈ (history txs).workflow.stepsOf run.id, step.stepKey = key := by
  obtain ⟨sub, _, hprov⟩ := (recorded_history txs).run run hrun
  have hpayload : sub.payload.resultStepKey = some key := by
    have hdecl : run.declared.resultStepKey = sub.payload.resultStepKey := by
      rw [hprov.declared]
      rfl
    exact hdecl.symm.trans hkey
  obtain ⟨_, hmem⟩ := hprov.accepted.resultStepKey key hpayload
  obtain ⟨step, hstep, rfl⟩ := mem_map.mp hmem
  obtain ⟨row, hrow, hid, _, hfor⟩ := hprov.submitted.row step (mem_append_left _ hstep)
  exact ⟨row, mem_stepsOf.mpr ⟨hrow, hid⟩, hfor.stepKey⟩

omit [UuidSource] in
/-- The result of a run that succeeded is the output of its result step. -/
theorem RunRow.Exact.result_of_succeeded {tables : WorkflowTables} {step : StepRow}
    (h : run.Exact tables) (hsucc : run.status = .succeeded)
    (hstep : step ∈ tables.stepsOf run.id) (hkey : run.resultStepKey = some step.stepKey)
    (huniq : ∀ other ∈ tables.stepsOf run.id, other.stepKey = step.stepKey → other = step) :
    run.result = step.output := by
  have htruthful := RunRow.truthful_of_eq (h.status (by simp [hsucc]))
  have hstat := htruthful.succeeded.mp hsucc step hstep
  rw [h.result, if_pos hsucc, resultOutput, hkey]
  cases hfind : (tables.stepsOf run.id).find? fun row =>
      some row.stepKey = some step.stepKey && row.status = .succeeded with
  | none =>
    have hnone := find?_eq_none.mp hfind step hstep
    simp [hstat] at hnone
  | some other =>
    have hcond := find?_some hfind
    simp only [Bool.and_eq_true, decide_eq_true_eq, Option.some.injEq] at hcond
    rw [huniq other (mem_of_find?_eq_some hfind) hcond.1]
    rfl

/-- A workflow run is never stuck and its status never lies: unless the run was canceled its
status is that of its steps, a run that has not ended has a step that can go on, a run that
has ended has only ended steps and stays as it is, and its result is the output of its result
step exactly when it succeeded and has one. -/
theorem run_status_never_lies (transactions : List Transaction) {run : RunRow}
    (hrun : run ∈ (history transactions).workflow.runs) :
    (run.status ≠ .canceled → run.Truthful ((history transactions).workflow.stepsOf run.id)) ∧
      (run.status.isTerminal = false →
        ∃ step ∈ (history transactions).workflow.stepsOf run.id, step.status = .enqueued ∨
          step.status = .running ∨ step.status = .waitingForExternal) ∧
      (run.status.isTerminal = true →
        ∀ step ∈ (history transactions).workflow.stepsOf run.id, step.status.isTerminal = true) ∧
      (run.status.isTerminal = true → ∀ later,
        Frozen run (history transactions) (history (transactions ++ later))) ∧
      (∀ key, run.status = .succeeded → run.resultStepKey = some key →
        ∃ step ∈ (history transactions).workflow.stepsOf run.id,
          step.stepKey = key ∧ run.result = step.output) ∧
      (¬ (run.status = .succeeded ∧ run.resultStepKey.isSome = true) → run.result = none) := by
  have hsound := sound_history transactions
  have hexact := hsound.settled.exact run hrun nofun
  refine ⟨fun hnot => RunRow.truthful_of_eq (hexact.status hnot), fun hopen => ?_, hexact.ended,
    fun hended later => ?_, fun key hsucc hkey => ?_, fun hnot => ?_⟩
  · have hnot : run.status ≠ .canceled := fun hcanc => by
      rw [hcanc] at hopen
      cases hopen
    have hnext : ¬ ∀ step ∈ (history transactions).workflow.stepsOf run.id,
        step.status.isTerminal = true := by
      rw [← nextRunStatus_isTerminal_iff, ← hexact.status hnot, hopen]
      exact nofun
    push Not at hnext
    obtain ⟨step, hmem, hstep⟩ := hnext
    obtain ⟨hstep', hid⟩ := mem_stepsOf.mp hmem
    have hact := exists_active_step hsound.flow hstep' (by simpa using hstep) ?_
    · rwa [hid] at hact
    · rintro ⟨other, hother, hotherId, hcanc⟩
      rw [Table.eq_of_key_eq hother hrun (hotherId.trans hid)] at hcanc
      exact hnot hcanc
  · rw [history_append]
    exact .commits hsound hrun hended later
  · obtain ⟨step, hstep, rfl⟩ := exists_result_step hrun hkey
    refine ⟨step, hstep, rfl, hexact.result_of_succeeded hsucc hstep hkey ?_⟩
    exact fun other hother => hsound.flow.graph.eq_of_stepKey hother hstep
  · rw [hexact.result]
    split_ifs with hsucc
    · have hnone : run.resultStepKey = none := by
        rw [← Option.not_isSome_iff_eq_none]
        exact fun hsome => hnot ⟨hsucc, hsome⟩
      have hfind : ((history transactions).workflow.stepsOf run.id).find? (fun row =>
          some row.stepKey = run.resultStepKey && row.status = .succeeded) = none := by
        simp [hnone]
      rw [resultOutput, hfind]
      rfl
    · rfl

end RunStatus

/-- A run that has been enqueued has a step that can go on. -/
theorem enqueued_run_is_not_stuck : letI := countingUuids
    ∃ run, run ∈ (history sampleRun).workflow.runs ∧ run.status = .running ∧
      ∃ step ∈ (history sampleRun).workflow.stepsOf run.id, step.status = .enqueued ∨
        step.status = .running ∨ step.status = .waitingForExternal := by
  have hruns : (@history countingUuids sampleRun).workflow.runs.rows.map RunRow.status =
      [.running] := by
    decide +kernel
  obtain ⟨run, hrun, hrunning⟩ := List.mem_map.mp (hruns ▸ List.mem_singleton_self _)
  obtain ⟨_, hact, _⟩ := @run_status_never_lies countingUuids _ run (Table.mem_rows.mp hrun)
  exact ⟨run, Table.mem_rows.mp hrun, hrunning, hact (by rw [hrunning]; rfl)⟩

/-- What the cancellation of a run leaves behind: the run is canceled, its ended steps keep
their status and all others are canceled, no step was released and no job inserted, and the
jobs of the run that were pending or leased are canceled. -/
structure CanceledCompletely (run : RunRow) (db db' : Database) : Prop where
  marked : run.withStatus .canceled none ∈ db'.workflow.runs
  steps : ∀ before ∈ db.workflow.stepsOf run.id, ∃ after ∈ db'.workflow.stepsOf run.id,
    after.id = before.id ∧ after.releasedAt = before.releasedAt ∧ after.jobId = before.jobId ∧
      after.status = if before.status.isTerminal then before.status else .canceled
  onlySteps : ∀ after ∈ db'.workflow.steps, ∃ before ∈ db.workflow.steps, before.id = after.id
  jobs : ∀ step ∈ db.workflow.stepsOf run.id, ∀ job ∈ db.queue.jobs, step.jobId = some job.id →
    job.status = .pending ∨ job.status = .leased →
    ∃ job' ∈ db'.queue.jobs, job'.id = job.id ∧ job'.status = .canceled
  onlyJobs : ∀ job' ∈ db'.queue.jobs, ∃ job ∈ db.queue.jobs, job.id = job'.id

theorem RunCanceled.completely [UuidSource] {run : RunRow} (h : RunCanceled run db db')
    (hflow : Flow [] [] db) (hflow' : Flow [] [] db') : CanceledCompletely run db db' := by
  have hsteps : ∀ before ∈ db.workflow.stepsOf run.id, ∃ after ∈ db'.workflow.stepsOf run.id,
      after.id = before.id ∧ after.releasedAt = before.releasedAt ∧
        after.jobId = before.jobId ∧
        after.status = if before.status.isTerminal then before.status else .canceled := by
    intro before hbefore
    obtain ⟨hmem, hid⟩ := mem_stepsOf.mp hbefore
    obtain ⟨after, hafter, hdecl, hjobId, hrel, hstat⟩ := h.steps.1 before hmem
    exact ⟨after, mem_stepsOf.mpr ⟨hafter, (StepRow.run_of_declared hdecl).trans hid⟩,
      StepRow.id_of_declared hdecl, hrel, hjobId, hstat hid⟩
  refine ⟨h.marked, hsteps, ?_, ?_, h.jobs⟩
  · intro after hafter
    obtain ⟨before, hbefore, hdecl, _⟩ := h.steps.2 after hafter
    exact ⟨before, hbefore, (StepRow.id_of_declared hdecl).symm⟩
  · intro step hstep job hjob hjobId hopen
    obtain ⟨after, hafter, _, _, hsame, hstat⟩ := hsteps step hstep
    have hnonterminal : step.status.isTerminal = false := by
      obtain ⟨hpend, hleased⟩ := hflow.step_of_open (mem_stepsOf.mp hstep).1 hjob hjobId
      rcases hopen with hopen | hopen
      · rw [hpend hopen]
        rfl
      · rw [hleased hopen]
        rfl
    rw [hnonterminal] at hstat
    obtain ⟨job', hjob', hid', _, hpaired⟩ := hflow'.linked.paired after (mem_stepsOf.mp hafter).1
      job.id (hsame.trans hjobId)
    rw [hstat] at hpaired
    cases hcanc : job'.status <;> rw [hcanc] at hpaired <;> cases hpaired
    exact ⟨job', hjob', hid', hcanc⟩

/-- Cancelling a workflow run is complete: in every state of a run that has not ended it
succeeds and leaves nothing of the run running, and afterwards no transaction changes the run
or any of its steps. -/
theorem cancel_workflow_run_is_complete
    [UuidSource] (transactions : List Transaction) (elapsed : ℕ) {run : RunRow}
    (hrun : run ∈ (history transactions).workflow.runs) (hopen : run.status.isTerminal = false)
    (organizationId : Option ℕ) (metadata : CancellationMetadata)
    (hvisible : run.isVisibleTo organizationId = true) :
    ∃ db', perform ((history transactions).after elapsed)
        (.cancelWorkflowRun run.id organizationId metadata) = .ok (.done, db') ∧
      history (transactions ++ [⟨elapsed, .cancelWorkflowRun run.id organizationId metadata⟩]) =
        db' ∧
      CanceledCompletely run ((history transactions).after elapsed) db' ∧
      ∀ later : List Transaction,
        Frozen (run.withStatus .canceled none) db' (later.foldl commit db') := by
  have hsound := (sound_history transactions).after elapsed
  obtain ⟨db', hok, hkeeps, hcanc⟩ : ∃ db', cancelWorkflowRun
      ((history transactions).after elapsed) run.id organizationId metadata = .ok db' ∧
      Keeps False ((history transactions).after elapsed) db' ∧
      RunCanceled run ((history transactions).after elapsed) db' :=
    cancelWorkflowRun_spec hsound hrun hopen organizationId metadata hvisible
  have hperform : perform ((history transactions).after elapsed)
      (.cancelWorkflowRun run.id organizationId metadata) = .ok (.done, db') :=
    answer_eq_ok.mpr ⟨hok, rfl⟩
  refine ⟨db', hperform, ?_, hcanc.completely hsound.flow hkeeps.sound.flow, fun later => ?_⟩
  · rw [history_append, List.foldl_cons, List.foldl_nil, commit, hperform]
  · exact .commits hkeeps.sound hcanc.marked rfl later

/-- The run of the sample can be canceled. -/
theorem enqueued_run_can_be_canceled : letI := countingUuids
    ∃ run, run ∈ (history sampleRun).workflow.runs ∧ run.status = .running ∧
      ∃ db', perform ((history sampleRun).after 1)
        (.cancelWorkflowRun run.id none ⟨none, none, none⟩) = .ok (.done, db') ∧
        CanceledCompletely run ((history sampleRun).after 1) db' := by
  have hruns : (@history countingUuids sampleRun).workflow.runs.rows.map
      (fun run => (run.status, run.organizationId)) = [(.running, none)] := by
    decide +kernel
  obtain ⟨run, hrun, hcols⟩ := List.mem_map.mp (hruns ▸ List.mem_singleton_self _)
  obtain ⟨hrunning, horg⟩ := Prod.mk.inj hcols
  obtain ⟨db', hperform, _, hcanc, _⟩ := @cancel_workflow_run_is_complete countingUuids
    sampleRun 1 run (Table.mem_rows.mp hrun) (by rw [hrunning]; rfl) none ⟨none, none, none⟩
    (by simp [RunRow.isVisibleTo, horg])
  exact ⟨run, Table.mem_rows.mp hrun, hrunning, db', hperform, hcanc⟩

section LockStep

variable {step : StepRow} {job : JobRow}

/-- A continuation does not touch the job of a step that does not allow it. -/
theorem completeJobContinuationForLease_refused
    {ident : JobLeaseIdentity} {cont : JobContinuationUpdate}
    (hok : completeJobContinuationForLease db ident cont = .ok db')
    (hlinked : Linked db.workflow.steps db.queue.jobs) (hstep : step ∈ db.workflow.steps)
    (hjob : job ∈ db.queue.jobs) (hjobId : step.jobId = some job.id)
    (hrefused : step.allowHandlerContinuation = false) : job ∈ db'.queue.jobs := by
  simp only [completeJobContinuationForLease, bind_eq_ok, exists_unit, pure_eq_ok] at hok
  obtain ⟨_, _, _, other, hlock, db1, hmark, _, _, _, queue, hchange, rfl⟩ := hok
  obtain ⟨hother, hid, _, _⟩ := lockLiveJobLease_eq_ok hlock
  have hqueue : db1.queue = db.queue := by
    rw [markWorkflowStepEnqueuedForHandlerContinuation] at hmark
    split at hmark
    · rw [Except.ok.inj hmark]
    · simp only [bind_eq_ok, exists_unit, pure_eq_ok] at hmark
      rw [← hmark.2.2]
      rfl
  rw [hqueue] at hchange
  refine (mem_jobs_after_change hother (QueueTables.change_eq_ok hchange).1).mpr
    (.inl ⟨hjob, fun hsame => ?_⟩)
  rw [markWorkflowStepEnqueuedForHandlerContinuation, ← hid, ← hsame,
    stepOfJob_of_mem hlinked hstep hjobId] at hmark
  simp only [bind_eq_ok, exists_unit, rejectIf_eq_ok, hrefused] at hmark
  cases hmark.2.1

/-- A requeue does not touch the job of a step. -/
theorem compareAndRequeueJob_refused
    {req : CompareAndRequeueJob} {outcome : CompareAndRequeueJobOutcome}
    (hok : compareAndRequeueJob db req = .ok (outcome, db'))
    (hlinked : Linked db.workflow.steps db.queue.jobs) (hstep : step ∈ db.workflow.steps)
    (hjob : job ∈ db.queue.jobs) (hjobId : step.jobId = some job.id) : job ∈ db'.queue.jobs := by
  rw [compareAndRequeueJob] at hok
  split at hok
  · rw [← (Prod.mk.inj (Except.ok.inj hok)).2]
    exact hjob
  · rename_i other hget
    obtain ⟨hother, _, _⟩ := getFilter_eq_some.mp hget
    split_ifs at hok with _ hmanaged
    · rw [← (Prod.mk.inj (Except.ok.inj hok)).2]
      exact hjob
    · rw [← (Prod.mk.inj (Except.ok.inj hok)).2]
      exact hjob
    · simp only [bind_eq_ok, pure_eq_ok] at hok
      obtain ⟨queue, hchange, hres⟩ := hok
      rw [← (Prod.mk.inj hres).2]
      refine (mem_jobs_after_change hother (QueueTables.change_eq_ok hchange).1).mpr
        (.inl ⟨hjob, fun hsame => hmanaged ?_⟩)
      rw [← hsame, stepOfJob_of_mem hlinked hstep hjobId]
      rfl

/-- Jobs and steps stay in lock-step: the status of a step goes with the status of its job, no
two steps share a job, and neither a continuation that the step does not allow nor a requeue
moves the job of a step. -/
theorem jobs_and_steps_stay_in_lock_step [UuidSource] (transactions : List Transaction) :
    (∀ step ∈ (history transactions).workflow.steps, ∀ jobId, step.jobId = some jobId →
      ∃ job ∈ (history transactions).queue.jobs, job.id = jobId ∧
        (step.status, job.status) ∈ [(WorkflowStepStatus.enqueued, JobStatus.pending),
          (.running, .leased), (.succeeded, .succeeded), (.failed, .deadLettered),
          (.canceled, .canceled)]) ∧
      (∀ step ∈ (history transactions).workflow.steps,
        ∀ step' ∈ (history transactions).workflow.steps, ∀ jobId,
          step.jobId = some jobId → step'.jobId = some jobId → step = step') ∧
      (∀ step ∈ (history transactions).workflow.steps,
        ∀ job ∈ (history transactions).queue.jobs, step.jobId = some job.id →
          step.allowHandlerContinuation = false → ∀ elapsed identity continuation,
            job ∈ (commit (history transactions)
              ⟨elapsed, .completeContinuation identity continuation⟩).queue.jobs) ∧
      (∀ step ∈ (history transactions).workflow.steps,
        ∀ job ∈ (history transactions).queue.jobs, step.jobId = some job.id →
          ∀ elapsed request,
            job ∈ (commit (history transactions) ⟨elapsed, .requeueJob request⟩).queue.jobs) := by
  have hlinked := (sound_history transactions).flow.linked
  refine ⟨?_, hlinked.unshared, ?_, ?_⟩
  · intro step hstep jobId hjobId
    obtain ⟨job, hjob, hid, _, hpaired⟩ := hlinked.paired step hstep jobId hjobId
    refine ⟨job, hjob, hid, ?_⟩
    cases hstat : step.status <;> cases hjobStat : job.status <;>
      rw [hstat, hjobStat] at hpaired <;> cases hpaired <;> simp
  · intro step hstep job hjob hjobId hrefused elapsed identity continuation
    rw [commit]
    split
    · rename_i response db' hok
      exact completeJobContinuationForLease_refused (answer_eq_ok.mp hok).1 hlinked hstep hjob
        hjobId hrefused
    · exact hjob
  · intro step hstep job hjob hjobId elapsed request
    rw [commit]
    split
    · rename_i response db' hok
      obtain ⟨_, hrequeue, _⟩ := map_eq_ok.mp hok
      exact compareAndRequeueJob_refused hrequeue hlinked hstep hjob hjobId
    · exact hjob

/-- Open work has an open run: neither a job that waits or is leased nor an unfinished attempt
belongs to a step of a run that has ended. -/
theorem open_work_has_an_open_run [UuidSource] (transactions : List Transaction) :
    let db := history transactions
    let Open (step : StepRow) := ∃ run ∈ db.workflow.runs, run.id = step.workflowRunId ∧
      run.status.isTerminal = false
    (∀ step ∈ db.workflow.steps, ∀ job ∈ db.queue.jobs, step.jobId = some job.id →
      job.status = .pending ∨ job.status = .leased → Open step) ∧
    ∀ step ∈ db.workflow.steps, ∀ row ∈ db.queue.attempts, step.jobId = some row.jobId →
      row.finishedAt = none → Open step := by
  have hsound := sound_history transactions
  intro db Open
  have hopen : ∀ step ∈ db.workflow.steps, ∀ job ∈ db.queue.jobs, step.jobId = some job.id →
      job.status = .pending ∨ job.status = .leased → Open step := by
    intro step hstep job hjob hjobId hstat
    obtain ⟨run, hrun, hid⟩ := hsound.flow.graph.run step hstep
    obtain ⟨job', hjob', hid', -, hpaired⟩ := hsound.flow.linked.paired step hstep _ hjobId
    rw [eq_of_key_eq hjob' hjob hid'] at hpaired
    refine ⟨run, hrun, hid, (hsound.settled.exact run hrun (by simp)).open_of_step
      (mem_stepsOf.mpr ⟨hstep, hid.symm⟩) ?_⟩
    generalize step.status = status at hpaired
    rcases hstat with hstat | hstat <;> rw [hstat] at hpaired <;> cases hpaired <;> rfl
  refine ⟨hopen, fun step hstep row hrow hjobId hunfinished => ?_⟩
  obtain ⟨job, hjob, hid, -⟩ := hsound.flow.linked.paired step hstep _ hjobId
  have hattempts := hsound.settled.queue.attempts job hjob
  obtain ⟨hleased, -⟩ := hattempts.unfinished row hrow hid.symm hunfinished
  exact hopen step hstep job hjob (hid ▸ hjobId) (.inr hleased)

end LockStep

section ActiveKeys

variable [UuidSource]

/-- A run is live at a time if it has not ended or if a job of one of its steps was canceled
under a lease that would end later. -/
def LiveRun (transactions : List Transaction) (time : ℕ) (run : RunRow) : Prop :=
  run ∈ (history transactions).workflow.runs ∧
    (run.status.isTerminal = false ∨
      ∃ step ∈ (history transactions).workflow.stepsOf run.id, ∃ job expiry,
        step.jobId = some job.id ∧ CanceledUnderLease transactions job expiry ∧ time < expiry)

/-- A live run with an active key has the claim on it. -/
theorem LiveRun.claim {time : ℕ} {run : RunRow} (h : LiveRun txs time run)
    (htime : (history txs).clock ≤ time) (hkey : run.activeKey = some key) :
    ∃ claim ∈ (history txs).workflow.activeClaims, claim.workflowRunId = run.id ∧
      claim.scope = workflowActiveClaimScope run.organizationId ∧ claim.activeKey = key := by
  have hlive : run.IsLive (history txs) := by
    refine h.2.imp_right ?_
    rintro ⟨step, hstep, job, expiry, hjobId, hcanc, hlater⟩
    have hnow := htime.trans_lt hlater
    obtain ⟨hjob, hstat, hexp⟩ := hcanc.stays hnow
    exact hasLiveCanceledLease_iff.mpr ⟨step, hstep, job, hjob, hjobId,
      isLiveCanceledLease_iff.mpr ⟨hstat, expiry, hexp, hnow⟩⟩
  obtain ⟨claim, hclaim, hid, hscope, hact⟩ :=
    (sound_history txs).settled.owned run h.1 (by rw [hkey]; rfl) (.inl hlive)
  exact ⟨claim, hclaim, hid, hscope, Option.some.inj (hact.symm.trans hkey)⟩

omit [UuidSource] in
/-- An active run that an enqueue finds is named by the claim on its key. -/
theorem findExistingWorkflowRun_active {db : Database} {payload : WorkflowRunEnqueue} {runId : ℕ}
    (h : findExistingWorkflowRun db payload = .ok (some (.existingActive runId))) :
    ∃ claim ∈ db.workflow.activeClaims, claim.workflowRunId = runId ∧
      claim.scope = workflowActiveClaimScope payload.organizationId ∧
      payload.activeKey = some claim.activeKey := by
  unfold findExistingWorkflowRun at h
  split at h
  · obtain ⟨_, _, h⟩ := bind_eq_ok.mp h
    cases h
  · obtain ⟨id, hbind, hid⟩ := Option.map_eq_some_iff.mp (Except.ok.inj h)
    obtain ⟨key, hkey, hload⟩ := Option.bind_eq_some_iff.mp hbind
    obtain ⟨claim, hget, hrun⟩ := Option.map_eq_some_iff.mp hload
    obtain ⟨hclaim, hclaimKey⟩ := get?_eq_some.mp hget
    obtain ⟨hscope, hact⟩ := Prod.mk.inj hclaimKey
    refine ⟨claim, hclaim, hrun.trans ?_, hscope, hkey.trans (congrArg some hact.symm)⟩
    exact EnqueueActiveWorkflowOutcome.existingActive.inj hid

/-- An active key admits one live workflow at a time: at every time two live runs with the
same organization and key are the same run, a live run with a key has the claim on it, and an
enqueue that answers with an active run answers with the run that has the claim. -/
theorem active_key_admits_one_live_workflow (transactions : List Transaction) :
    (∀ time run run' key, (history transactions).clock ≤ time →
      LiveRun transactions time run → LiveRun transactions time run' →
      run.activeKey = some key → run'.activeKey = some key →
      run.organizationId = run'.organizationId → run = run') ∧
      (∀ time run key, (history transactions).clock ≤ time → LiveRun transactions time run →
        run.activeKey = some key →
        ∃ claim ∈ (history transactions).workflow.activeClaims, claim.workflowRunId = run.id ∧
          claim.scope = workflowActiveClaimScope run.organizationId ∧ claim.activeKey = key) ∧
      (∀ elapsed payload workflowRunId db',
        perform ((history transactions).after elapsed) (.enqueueOrGetActiveWorkflow payload) =
          .ok (.enqueuedRun (.existingActive workflowRunId), db') →
        ∃ run ∈ (history transactions).workflow.runs, run.id = workflowRunId ∧
          run.activeKey = payload.activeKey ∧
          ∃ claim ∈ (history transactions).workflow.activeClaims,
            claim.workflowRunId = run.id ∧
            claim.scope = workflowActiveClaimScope payload.organizationId ∧
            payload.activeKey = some claim.activeKey) := by
  have hsound := sound_history transactions
  refine ⟨?_, ?_, ?_⟩
  · intro time run run' key htime h h' hkey hkey' horg
    obtain ⟨claim, hclaim, hid, hscope, hact⟩ := h.claim htime hkey
    obtain ⟨claim', hclaim', hid', hscope', hact'⟩ := h'.claim htime hkey'
    have hsame : claim = claim' := Table.eq_of_key_eq hclaim hclaim'
      (Prod.ext (hscope.trans ((congrArg _ horg).trans hscope'.symm)) (hact.trans hact'.symm))
    exact Table.eq_of_key_eq h.1 h'.1 (hid.symm.trans ((congrArg _ hsame).trans hid'))
  · exact fun time run key htime h hkey => h.claim htime hkey
  · intro elapsed payload workflowRunId db' hok
    obtain ⟨outcome, henqueue, hout⟩ := map_eq_ok.mp hok
    obtain rfl := Response.enqueuedRun.inj hout
    obtain ⟨_, _, hclassified⟩ := bind_eq_ok.mp henqueue
    rcases enqueueWorkflowRunClassified_spec False hclassified (hsound.after elapsed) with
      ⟨hfind, _⟩ | ⟨_, hinserted, _⟩
    · obtain ⟨claim, hclaim, hid, hscope, hact⟩ := findExistingWorkflowRun_active hfind
      obtain ⟨run, hrun, hfor⟩ := hsound.settled.claimed claim hclaim
      exact ⟨run, hrun, hfor.1.symm.trans hid, hfor.2.2.trans hact.symm, claim, hclaim, hfor.1,
        hscope, hact⟩
    · cases hinserted

end ActiveKeys

end Batter.Runledger.Postgres
