import Batter.Runledger.Postgres.Insertion

/-!
# Growth of workflows

A new run and appended steps write rows and then let the steps that wait for
nothing go: a step is released, or it is canceled when a requirement of it had
already failed.  `Readying` is the invariant of that loop.

`Extends` says what writing the rows does to the rest of the database: nothing
that is there changes, and new steps belong to runs that have not ended.  Together
with `Keeps` it describes every transaction.
-/

namespace Batter.Runledger.Postgres

open RustStd List Table

variable {db db' mid : Database} {strict : Prop} {payload : WorkflowRunEnqueue}
variable {step : WorkflowStepEnqueue} {count : WorkflowStepEnqueue → Except Error (ℤ × ℤ)}
variable {runId : ℕ} {counters : ℤ × ℤ}

section Readying

variable [UuidSource]

/-- The new steps `rest` of a run wait for nothing and are still to be let go. -/
structure Readying (workflowRunId : ℕ) (start : Database) (rest : List StepRow) (db : Database) :
    Prop where
  flow : Flow [] (rest.map StepRow.id) db
  settled : Settled (some workflowRunId) db
  evolves : Evolves (some workflowRunId) start db
  runs : db.workflow.runs = start.workflow.runs
  inserts : Relation.ReflTransGen QueueTables.InsertStep start.queue db.queue
  nodup : (rest.map StepRow.id).Nodup
  waiting : ∀ row ∈ rest, row ∈ db.workflow.steps ∧ row.workflowRunId = workflowRunId ∧
    row.status = .blocked ∧ row.dependencyCountPending = 0

variable {start : Database} {row : StepRow}
variable {rest : List StepRow}

section

variable (h : Readying runId start (row :: rest) db)
include h

theorem Readying.ne_head : ∀ other ∈ rest, other.id ≠ row.id := by
  intro other hother hid
  have hnodup := h.nodup
  rw [map_cons, nodup_cons] at hnodup
  exact hnodup.1 (hid ▸ mem_map_of_mem hother)

/-- The head of the list is let go; the others stay as they are. -/
theorem Readying.tail (hflow : Flow [] (rest.map StepRow.id) db')
    (hsettled : Settled (some runId) db') (hevolves : Evolves (some runId) db db')
    (hruns : db'.workflow.runs = db.workflow.runs)
    (hinserts : Relation.ReflTransGen QueueTables.InsertStep db.queue db'.queue)
    (hstill : ∀ other ∈ rest, other ∈ db.workflow.steps → other ∈ db'.workflow.steps) :
    Readying runId start rest db' where
  flow := hflow
  settled := hsettled
  evolves := h.evolves.trans hevolves
  runs := hruns.trans h.runs
  inserts := h.inserts.trans hinserts
  nodup := (nodup_cons.mp (map_cons ▸ h.nodup)).2
  waiting := by
    intro other hother
    obtain ⟨hmem, hrest⟩ := h.waiting other (mem_cons_of_mem row hother)
    exact ⟨hstill other hother hmem, hrest⟩

/-- A step without failed requirements is released. -/
theorem Readying.release (hrun : start.workflow.IsReleasable runId)
    (hunsat : row.dependencyCountUnsatisfied = 0) :
    ∃ db', releaseCandidateStep db row = .ok db' ∧ Readying runId start rest db' := by
  obtain ⟨hrow, hrowRun, hblk, hpend⟩ := h.waiting row mem_cons_self
  have hreleasable : db.workflow.IsReleasable row.workflowRunId := by
    rw [hrowRun, WorkflowTables.IsReleasable, h.runs]
    exact hrun
  have hawaited : ∀ id ∈ (row :: rest).map StepRow.id, id ≠ row.id → id ∈ rest.map StepRow.id := by
    intro id hid hne
    exact (mem_cons.mp hid).resolve_left hne
  obtain ⟨db', hok, hflow, hadvances, status, jobId, _, hsteps⟩ :=
    h.flow.release hrow hblk hpend hunsat hreleasable hawaited
  rw [hrowRun] at hadvances
  refine ⟨db', hok, h.tail hflow (hadvances.settled h.settled h.flow.graph) hadvances.evolves
    hadvances.runs hadvances.inserts ?_⟩
  intro other hother hmem
  rw [hsteps]
  exact mem_modify.mpr (.inl ⟨hmem, h.ne_head other hother⟩)

/-- A step with a failed requirement ends, and its dependents are resolved. -/
theorem Readying.refuse (hunsat : row.dependencyCountUnsatisfied ≠ 0) :
    ∃ db', resolveAppendedStep runId db row = .ok db' ∧ Readying runId start rest db' := by
  obtain ⟨hrow, hrowRun, hblk, hpend⟩ := h.waiting row mem_cons_self
  obtain ⟨hunreleased, hjob⟩ := (h.flow.placed row hrow).of_blocked hblk
  have hfailed : 0 < row.dependencyCountUnsatisfied := by
    have hcounted := (h.flow.counted row hrow).unsatisfied
    omega
  have hends : EndsStep db row row.cancelBornUnsatisfied db.queue :=
    { mem := hrow
      opened := by rw [hblk]; rfl
      ended := rfl
      declared := rfl
      pending := rfl
      unsatisfied := rfl
      releasedAt := rfl
      jobId := rfl
      unreleased := fun _ => rfl
      refused := fun _ _ => ⟨hpend, hfailed, rfl⟩
      otherJobs := fun _ hmem _ => hmem
      ownJob := fun _ hlinked => absurd (hjob.symm.trans hlinked) nofun
      oldJobs := fun job hmem => ⟨job, hmem, rfl⟩ }
  have hawaited : ∀ id ∈ (row :: rest).map StepRow.id, id ≠ row.id → id ∈ rest.map StepRow.id := by
    intro id hid hne
    exact (mem_cons.mp hid).resolve_left hne
  obtain ⟨db', hok, hflow, hsettled, hevolves, hadvances, hstill⟩ := hends.resolve
    StepRow.cancelBornUnsatisfied_id h.flow hawaited h.settled
    (fun id hid => by rw [hrowRun, Option.some.inj hid])
    (hrowRun ▸ h.settled.lags) h.settled.queue
  rw [hrowRun] at hok hsettled hevolves
  obtain ⟨hselect, hupdate⟩ := blocked_update hrow hrowRun hblk StepRow.cancelBornUnsatisfied_id
  refine ⟨db', ?_, h.tail hflow hsettled hevolves hadvances.runs hadvances.inserts ?_⟩
  · simp only [resolveAppendedStep]
    rw [if_neg hunsat, if_neg (by simp [hselect]), hupdate]
    exact hok
  · intro other hother hmem
    exact hstill other hmem (h.ne_head other hother)
      (h.waiting other (mem_cons_of_mem row hother)).2.2.2

theorem Readying.resolve (hrun : start.workflow.IsReleasable runId) :
    ∃ db', resolveAppendedStep runId db row = .ok db' ∧ Readying runId start rest db' := by
  by_cases hunsat : row.dependencyCountUnsatisfied = 0
  · obtain ⟨db', hok, hrest⟩ := h.release hrun hunsat
    refine ⟨db', ?_, hrest⟩
    simp only [resolveAppendedStep]
    rw [if_pos hunsat]
    exact hok
  · exact h.refuse hunsat

end

/-- When all steps have been let go, the status of the run is recomputed. -/
theorem Readying.finish (h : Readying runId start [] db)
    (hrun : start.workflow.IsReleasable runId) :
    Keeps strict start (recomputeWorkflowRunStatus db runId) := by
  obtain ⟨run, hmem, hid, hstat⟩ := hrun
  have hopen : ∀ other ∈ start.workflow.runs, other.id = runId →
      other.status.isTerminal = false := by
    intro other hother hotherId
    rw [eq_of_key_eq hother hmem (hotherId.trans hid.symm)]
    rcases hstat with hstat | hstat <;> rw [hstat] <;> rfl
  obtain ⟨hflow, hsettled, hevolves⟩ := h.settled.recompute h.flow (by
    rw [h.runs]
    intro other hother hotherId hcanc
    have := hopen other hother hotherId
    rw [hcanc] at this
    cases this)
  refine ⟨⟨hflow, hsettled⟩, (h.evolves.trans (hevolves.loosen _)).tighten hopen, ?_⟩
  rw [recompute_queue]
  exact queueSteps_of_inserts h.inserts

end Readying

section Extends

/-- New rows are written; what is there stays, and new steps belong to open runs. -/
structure Extends (db db' : Database) : Prop where
  clock : db'.clock = db.clock
  queue : db'.queue = db.queue
  generated : db.generated ≤ db'.generated
  oldRuns : ∀ run ∈ db.workflow.runs, run ∈ db'.workflow.runs
  oldSteps : ∀ step ∈ db.workflow.steps, step ∈ db'.workflow.steps
  newSteps : ∀ step ∈ db'.workflow.steps, step ∈ db.workflow.steps ∨
    (step.jobId = none ∧ ∀ run ∈ db'.workflow.runs, run.id = step.workflowRunId →
      run.status.isTerminal = false)

theorem Extends.refl (db : Database) : Extends db db :=
  ⟨rfl, rfl, le_refl _, fun _ hrun => hrun, fun _ hstep => hstep, fun _ hstep => .inl hstep⟩

variable [UuidSource] {org : Option ℕ} {requested : List WorkflowStepEnqueue}

/-- Writing the steps of an open run extends the database. -/
theorem WritesSteps.extends (h : WritesSteps runId org count requested db db')
    (hopen : ∀ run ∈ db.workflow.runs, run.id = runId → run.status.isTerminal = false) :
    Extends db db' where
  clock := h.clock
  queue := h.queue
  generated := h.generated
  oldRuns := fun run hrun => h.runs ▸ hrun
  oldSteps := h.old
  newSteps := by
    intro row hrow
    rcases h.only row hrow with hold | ⟨_, _, ⟨_, _, hnew⟩, _⟩
    · exact .inl hold
    · refine .inr ⟨hnew.jobId, fun run hrun hid => ?_⟩
      exact hopen run (h.runs ▸ hrun) (hid.trans hnew.run)

/-- The run that writes steps may lag behind them. -/
theorem WritesSteps.settled {loose : Option ℕ} (h : WritesSteps runId org count requested db db')
    (hsettled : Settled loose db) (hloose : ∀ id, loose = some id → id = runId)
    (hlags : Lags loose db runId) (hgraph : Graph db.workflow) : Settled (some runId) db' := by
  refine hsettled.afterSteps hloose (fun run hrun hid => (hlags run hrun hid).1)
    (fun run hrun hid => (hlags run hrun hid).2) hgraph h.runs h.activeClaims ?_ ?_ h.clock ?_
  · intro row hforeign
    refine ⟨fun hrow => ?_, h.old row⟩
    rcases h.only row hrow with hold | ⟨_, _, hnew⟩
    · exact hold
    · exact absurd hnew.run hforeign
  · rw [h.queue]
    exact fun _ _ _ job hjob _ _ => hjob
  · rw [h.clock, h.queue]
    exact hsettled.queue

end Extends

section NewRun

variable [UuidSource]

omit [UuidSource] in
/-- The active key of a new run is that of its payload. -/
theorem RunRow.activeKey_new (id : ℕ) (payload : WorkflowRunEnqueue) :
    (RunRow.new id payload (canonicalWorkflowEnqueueRequest payload)).activeKey =
      payload.activeKey := by
  obtain ⟨_, _, _, _, activeKey, resultStepKey, _⟩ := payload
  cases activeKey <;> cases resultStepKey <;> rfl

/-- A new run was written, with its claim on the active key of its payload. -/
structure WritesRun (payload : WorkflowRunEnqueue) (db db' : Database) : Prop where
  frame : ∃ runs activeClaims, db' = (db.withNewRun runs).withActiveClaims activeClaims
  runs : ∀ run, run ∈ db'.workflow.runs ↔ run ∈ db.workflow.runs ∨
    run = .new db.nextId payload (canonicalWorkflowEnqueueRequest payload)
  oldClaims : ∀ claim ∈ db.workflow.activeClaims, claim ∈ db'.workflow.activeClaims
  newClaims : ∀ claim ∈ db'.workflow.activeClaims, claim ∈ db.workflow.activeClaims ∨
    (claim.releasePending = false ∧ claim.IsFor
      (.new db.nextId payload (canonicalWorkflowEnqueueRequest payload)))
  claimed : payload.activeKey.isSome → ∃ claim ∈ db'.workflow.activeClaims, claim.IsFor
    (.new db.nextId payload (canonicalWorkflowEnqueueRequest payload))

theorem writesRun_of_ok
    (hrun : insertWorkflowRun db payload (canonicalWorkflowEnqueueRequest payload) = .ok mid)
    (hclaim : claimActiveKey mid payload db.nextId = .ok db') : WritesRun payload db db' := by
  simp only [insertWorkflowRun, bind_eq_ok, require_eq_ok, pure_eq_ok] at hrun
  obtain ⟨runs, hins, rfl⟩ := hrun
  have hact := RunRow.activeKey_new db.nextId payload
  unfold claimActiveKey at hclaim
  cases hkey : payload.activeKey with
  | none =>
    rw [hkey] at hclaim
    obtain rfl := Except.ok.inj hclaim
    exact ⟨⟨runs, db.workflow.activeClaims, rfl⟩, mem_insert? hins,
      fun _ hold => hold, fun _ hold => .inl hold, fun hsome => by simp [hkey] at hsome⟩
  | some activeKey =>
    simp only [hkey, insertWorkflowActiveClaim, bind_eq_ok, exists_unit, rejectIf_eq_ok,
      require_eq_ok, pure_eq_ok] at hclaim
    obtain ⟨_, _, claims, hclaims, rfl⟩ := hclaim
    have hmem := mem_insert? hclaims
    have hfor : ActiveClaimRow.IsFor ⟨workflowActiveClaimScope payload.organizationId, activeKey,
        db.nextId, false⟩
        (RunRow.new db.nextId payload (canonicalWorkflowEnqueueRequest payload)) :=
      ⟨rfl, rfl, hact.trans hkey⟩
    refine ⟨⟨runs, claims, rfl⟩, mem_insert? hins,
      fun claim hold => (hmem claim).mpr (.inl hold), ?_,
      fun _ => ⟨_, (hmem _).mpr (.inr rfl), hfor⟩⟩
    intro claim hclaim
    rcases (hmem claim).mp hclaim with hold | rfl
    · exact .inl hold
    · exact .inr ⟨rfl, hfor⟩

/-- The invariant with a new run that has no steps yet. -/
theorem WritesRun.flow (h : WritesRun payload db db') (hflow : Flow [] [] db) : Flow [] [] db' := by
  obtain ⟨⟨runs, claims, rfl⟩, hruns, _, _, _⟩ := h
  have hcanc : ∀ id, WorkflowTables.IsCanceled
      ((db.withNewRun runs).withActiveClaims claims).workflow id ↔ db.workflow.IsCanceled id := by
    intro id
    constructor
    · rintro ⟨run, hrun, hid, hstat⟩
      rcases (hruns run).mp hrun with hold | rfl
      · exact ⟨run, hold, hid, hstat⟩
      · cases hstat
    · rintro ⟨run, hrun, hid, hstat⟩
      exact ⟨run, (hruns run).mpr (.inl hrun), hid, hstat⟩
  refine ⟨?_, hflow.counted, hflow.shaped, ?_, ?_, hflow.linked, ?_, ?_, ?_⟩
  · refine hflow.graph.congr ?_ ?_ rfl
    · exact fun run hrun => ⟨run, (hruns run).mpr (.inl hrun), rfl⟩
    · exact ⟨fun step hstep => ⟨step, hstep, rfl⟩, fun step hstep => ⟨step, hstep, rfl⟩⟩
  · intro step hstep
    rw [hcanc]
    exact hflow.placed step hstep
  · intro step hstep hopen run hrun hid
    rcases (hruns run).mp hrun with hold | rfl
    · exact hflow.openRun step hstep hopen run hold hid
    · exact ⟨nofun, nofun⟩
  · exact fun job hjob => (hflow.drawn.job job hjob).mono (Nat.le_succ _)
  · exact fun step hstep => (hflow.drawn.step step hstep).mono (Nat.le_succ _)
  · intro run hrun
    rcases (hruns run).mp hrun with hold | rfl
    · exact (hflow.drawn.run run hold).mono (Nat.le_succ _)
    · exact ⟨db.generated, Nat.lt_succ_self _, rfl⟩

/-- The new run is settled up to its status. -/
theorem WritesRun.settled (h : WritesRun payload db db') (hflow : Flow [] [] db)
    (hsettled : Settled none db) : Settled (some db.nextId) db' := by
  have hold : ∀ run ∈ db.workflow.runs, run.id ≠ db.nextId := by
    intro run hrun hid
    exact db.not_drawn_nextId (hid ▸ hflow.drawn.run run hrun)
  obtain ⟨⟨runs, claims, rfl⟩, hruns, holdClaims, hnewClaims, hclaimed⟩ := h
  refine ⟨?_, ?_, ?_, ?_, ?_, hsettled.queue⟩
  · intro run hrun hne
    rcases (hruns run).mp hrun with hmem | rfl
    · exact (hsettled.exact run hmem nofun).congr hflow.graph fun _ => Iff.rfl
    · exact absurd rfl hne
  · intro run hrun heq
    rcases (hruns run).mp hrun with hmem | rfl
    · exact absurd (Option.some.inj heq) (hold run hmem)
    · exact ⟨rfl, .inl rfl⟩
  · intro run hrun hkey hlive
    rcases (hruns run).mp hrun with hmem | rfl
    · obtain ⟨claim, hclaim, hfor⟩ := hsettled.owned run hmem hkey
        (.inl (hlive.resolve_right fun heq => hold run hmem (Option.some.inj heq)))
      exact ⟨claim, holdClaims claim hclaim, hfor⟩
    · rw [RunRow.activeKey_new] at hkey
      exact hclaimed hkey
  · intro claim hclaim hpend run hrun hid
    rcases hnewClaims claim hclaim with hmem | ⟨hrelease, _⟩
    · rcases (hruns run).mp hrun with hrunOld | rfl
      · exact hsettled.released claim hmem hpend run hrunOld hid
      · obtain ⟨owner, howner, hfor⟩ := hsettled.claimed claim hmem
        exact absurd (hfor.1.symm.trans hid.symm) (hold owner howner)
    · rw [hrelease] at hpend
      cases hpend
  · intro claim hclaim
    rcases hnewClaims claim hclaim with hmem | ⟨_, hfor⟩
    · obtain ⟨run, hrun, hfor⟩ := hsettled.claimed claim hmem
      exact ⟨run, (hruns run).mpr (.inl hrun), hfor⟩
    · exact ⟨_, (hruns _).mpr (.inr rfl), hfor⟩

end NewRun

section Enqueue

/-- The counters of a step of a new run: all its dependencies are open. -/
def openCounters (step : WorkflowStepEnqueue) : Except Error (ℤ × ℤ) :=
  .ok (step.dependencies.length, 0)

variable [UuidSource]

/-- A payload was written: its run, and then its steps with their dependencies. -/
structure StartsWorkflow (payload : WorkflowRunEnqueue) (db begun mid : Database) : Prop where
  run : WritesRun payload db begun
  steps : WritesSteps db.nextId payload.organizationId openCounters payload.steps begun mid
  mutations : mid.workflow.mutations = db.workflow.mutations

variable {begun : Database}

theorem insertWorkflow_eq_ok (hflow : Flow [] [] db) (hok : insertWorkflow db payload = .ok mid) :
    ∃ begun, StartsWorkflow payload db begun mid := by
  simp only [insertWorkflow, bind_eq_ok, exists_unit] at hok
  obtain ⟨inserted, hrun, begun, hclaim, _, written, hsteps, hdeps⟩ := hok
  have hbegun := writesRun_of_ok hrun hclaim
  have hinserts : InsertsSteps db.nextId payload.organizationId openCounters payload.steps begun
      written := foldlM_insertWorkflowStep hsteps
  refine ⟨begun, hbegun, hinserts.writes (hbegun.flow hflow).graph.key hdeps, ?_⟩
  rw [hinserts.mutations hdeps]
  obtain ⟨_, _, hframe⟩ := hbegun.frame
  rw [hframe]
  rfl

/-- No step of the new run was there before. -/
theorem WritesRun.no_steps (h : WritesRun payload db begun) (hflow : Flow [] [] db) :
    ∀ row ∈ begun.workflow.steps, row.workflowRunId ≠ db.nextId := by
  obtain ⟨runs, claims, rfl⟩ := h.frame
  intro row hrow hid
  obtain ⟨run, hrun, hrunId⟩ := hflow.graph.run row hrow
  exact db.not_drawn_nextId (hid ▸ hrunId ▸ hflow.drawn.run run hrun)

section

variable (h : StartsWorkflow payload db begun mid)
include h

/-- The steps of the new run are the requested ones. -/
theorem StartsWorkflow.row_new {row : StepRow} (hflow : Flow [] [] db)
    (hrow : row ∈ mid.workflow.steps) (hrun : row.workflowRunId = db.nextId) :
    ∃ step ∈ payload.steps,
      NewRow db.nextId payload.organizationId openCounters begun mid step row := by
  rcases h.steps.only row hrow with hold | hnew
  · exact absurd hrun (h.run.no_steps hflow row hold)
  · exact hnew

/-- All dependencies of a new run are open. -/
theorem StartsWorkflow.exactCounters (hflow : Flow [] [] db) (hstep : step ∈ payload.steps)
    (hcounters : openCounters step = .ok counters) :
    ExactCounters mid.workflow db.nextId (stepOutcome begun.workflow.steps []) step counters := by
  obtain rfl := Except.ok.inj hcounters
  have hnone : ∀ dep ∈ step.dependencies, stepOutcome begun.workflow.steps []
      (mid.workflow.idOfKey db.nextId dep.prerequisiteStepKey) = none := by
    intro dep hdep
    obtain ⟨row, hrow, hrun, hkey⟩ := h.steps.known step hstep dep hdep
    obtain ⟨_, _, hnew⟩ := h.row_new hflow hrow hrun
    rw [← hkey, idOfKey_eq h.steps.key hrow hrun]
    exact hnew.outcome (h.run.flow hflow).drawn
  constructor
  · have hall := countP_eq_length.mpr fun dep hdep =>
      congrArg Option.isNone (hnone dep hdep)
    exact congrArg Nat.cast hall.symm
  · have hall : step.dependencies.countP (fun dep =>
        decide (dep.effectiveReleaseMode = .onSuccess) &&
          stepOutcome begun.workflow.steps []
            (mid.workflow.idOfKey db.nextId dep.prerequisiteStepKey) == some false) = 0 := by
      refine countP_eq_zero.mpr fun dep hdep => ?_
      simp [hnone dep hdep]
    rw [hall]
    rfl

theorem StartsWorkflow.run_mem :
    .new db.nextId payload (canonicalWorkflowEnqueueRequest payload) ∈
      begun.workflow.runs :=
  (h.run.runs _).mpr (.inr rfl)

/-- The new run lets its steps go. -/
theorem StartsWorkflow.releasable : begun.workflow.IsReleasable db.nextId :=
  ⟨_, h.run_mem, rfl, .inl rfl⟩

/-- The steps of a new run that wait for nothing are to be let go. -/
theorem StartsWorkflow.readying (hsound : Sound db) (haccepted : AcceptedSteps payload.steps) :
    Readying db.nextId mid (mid.workflow.steps.select fun row =>
      row.workflowRunId = db.nextId && row.status = .blocked && row.dependencyCountPending = 0)
      mid := by
  have hflow := h.run.flow hsound.flow
  have hsettled := h.run.settled hsound.flow hsound.settled
  refine ⟨?_, ?_, Evolves.refl _ mid, rfl, .refl, ?_, ?_⟩
  · refine hflow.writeSteps h.steps haccepted.nodup ?_
      (fun step hstep counters => h.exactCounters hsound.flow hstep) h.releasable ?_
    · obtain ⟨rank, hrank⟩ := haccepted.orderable
      refine ⟨rank, fun step hstep dep hdep _ => ?_⟩
      exact hrank _ (mem_map_of_mem hstep) _ (mem_map_of_mem hdep)
    · intro step _ row hrow hnew hpend
      obtain ⟨_, _, hmade⟩ := hnew.1
      refine mem_map_of_mem (mem_select.mpr ⟨hrow, ?_⟩)
      simp [hmade.run, hmade.status, hpend]
  · exact h.steps.settled hsettled (fun id hid => (Option.some.inj hid).symm) hsettled.lags
      hflow.graph
  · exact (filter_sublist.map StepRow.id).nodup mid.workflow.steps.nodup
  · intro row hrow
    obtain ⟨hmem, hcond⟩ := mem_select.mp hrow
    simp only [Bool.and_eq_true, decide_eq_true_eq] at hcond
    exact ⟨hmem, hcond.1.1, hcond.1.2, hcond.2⟩

theorem StartsWorkflow.extends (hflow : Flow [] [] db) : Extends db mid := by
  have hopen : ∀ run ∈ begun.workflow.runs, run.id = db.nextId → run.status.isTerminal = false := by
    intro run hrun hid
    rcases (h.run.runs run).mp hrun with hold | rfl
    · exact absurd (hid ▸ hflow.drawn.run run hold) db.not_drawn_nextId
    · rfl
  have hwritten := h.steps.extends hopen
  have hruns := h.run.runs
  obtain ⟨runs, claims, rfl⟩ := h.run.frame
  exact ⟨hwritten.clock, hwritten.queue, (Nat.le_succ _).trans hwritten.generated,
    fun run hrun => hwritten.oldRuns run ((hruns run).mpr (.inl hrun)), hwritten.oldSteps,
    hwritten.newSteps⟩

end

/-- What an accepted payload does that is not found to exist. -/
theorem startWorkflow_spec {outcome : EnqueueActiveWorkflowOutcome} (hsound : Sound db)
    (haccepted : AcceptedSteps payload.steps)
    (hok : startWorkflow db payload = .ok (outcome, db')) :
    outcome = .inserted db.nextId ∧
      ∃ begun mid, StartsWorkflow payload db begun mid ∧ Keeps strict mid db' := by
  simp only [startWorkflow, bind_eq_ok, pure_eq_ok, Prod.mk.injEq] at hok
  obtain ⟨mid, hins, released, hrelease, rfl, rfl⟩ := hok
  obtain ⟨begun, hstarts⟩ := insertWorkflow_eq_ok hsound.flow hins
  have hreleasable : mid.workflow.IsReleasable db.nextId := by
    rw [WorkflowTables.IsReleasable, hstarts.steps.runs]
    exact hstarts.releasable
  have hsatisfied : ∀ row ∈ mid.workflow.steps.select (fun row =>
      row.workflowRunId = db.nextId && row.status = .blocked && row.dependencyCountPending = 0),
      row.dependencyCountUnsatisfied = 0 := by
    intro row hrow
    obtain ⟨hmem, hcond⟩ := mem_select.mp hrow
    simp only [Bool.and_eq_true, decide_eq_true_eq] at hcond
    obtain ⟨step, _, ⟨counters, hcounters, hnew⟩, _⟩ := hstarts.row_new hsound.flow hmem hcond.1.1
    obtain rfl := Except.ok.inj hcounters
    exact hnew.unsatisfied
  obtain ⟨db2, hok, hreadying, _⟩ := foldlM_total
    (f := releaseCandidateStep)
    (P := fun rest db1 => Readying db.nextId mid rest db1 ∧
      ∀ row ∈ rest, row.dependencyCountUnsatisfied = 0)
    (fun row rest db1 ⟨hreadying, hall⟩ => by
      rw [forall_mem_cons] at hall
      obtain ⟨db2, hok, hrest⟩ := hreadying.release hreleasable hall.1
      exact ⟨db2, hok, hrest, hall.2⟩)
    ⟨hstarts.readying hsound haccepted, hsatisfied⟩
  obtain rfl := Except.ok.inj (hok.symm.trans hrelease)
  exact ⟨rfl, begun, mid, hstarts, hreadying.finish hreleasable⟩

end Enqueue

section Append

/-- How a step has ended, if it has. -/
def StepRow.ending (row : StepRow) : Option Bool :=
  if row.status.isTerminal then some (decide (row.status = .succeeded)) else none

/-- The counters of an appended step count its dependencies by how their prerequisites ended. -/
theorem foldlM_countDependency {lockedSteps : List StepRow} {newKeys : List String} {key : String}
    {outcome : WorkflowStepDependencySpec → Option Bool} {deps : List WorkflowStepDependencySpec}
    {counters' : ℤ × ℤ}
    (hout : ∀ dep ∈ deps, outcome dep =
      (lockedSteps.find? fun step => step.stepKey = dep.prerequisiteStepKey).bind StepRow.ending)
    (hok : deps.foldlM (countDependency lockedSteps newKeys key) counters = .ok counters') :
    counters'.1 = counters.1 + deps.countP (fun dep =>
        (outcome dep).isNone) ∧
      counters'.2 = counters.2 + deps.countP (fun dep =>
        decide (dep.effectiveReleaseMode = .onSuccess) &&
          outcome dep == some false) := by
  induction deps generalizing counters with
  | nil =>
    obtain rfl := Except.ok.inj hok
    simp
  | cons dep deps ih =>
    rw [foldlM_cons, bind_eq_ok] at hok
    obtain ⟨next, hnext, hrest⟩ := hok
    rw [forall_mem_cons] at hout
    obtain ⟨hfirst, hsecond⟩ := ih hout.2 hrest
    have hhead := hout.1
    simp only [countDependency] at hnext
    simp only [countP_cons, hfirst, hsecond]
    cases hfind : lockedSteps.find? fun step =>
        step.stepKey = dep.prerequisiteStepKey with
    | none =>
      simp only [hfind, bind_eq_ok, exists_unit, rejectIf_eq_ok, pure_eq_ok] at hnext
      obtain ⟨_, rfl⟩ := hnext
      rw [hfind] at hhead
      simp [hhead]
      omega
    | some existing =>
      rw [hfind, Option.bind_some, StepRow.ending] at hhead
      simp only [hfind] at hnext
      split_ifs at hnext with hopen hfailed
      · obtain rfl := Except.ok.inj hnext
        simp [hhead, hopen]
        omega
      · obtain rfl := Except.ok.inj hnext
        simp [hhead, hopen, hfailed.1, hfailed.2]
        omega
      · obtain rfl := Except.ok.inj hnext
        rw [not_and, not_not] at hfailed
        simp only [Bool.not_eq_false] at hopen
        simpa [hhead, hopen] using hfailed

variable {run : RunRow} {input : AppendWorkflowStepsInput}
variable {row : StepRow}
variable {steps : List WorkflowStepEnqueue}

theorem mem_lockWorkflowStepsForUpdate : row ∈ lockWorkflowStepsForUpdate db runId ↔
      row ∈ db.workflow.steps ∧ row.workflowRunId = runId := by
  rw [lockWorkflowStepsForUpdate, mem_orderedBy, mem_stepsOf]

theorem mem_readyAppendedSteps : row ∈ readyAppendedSteps db runId steps ↔
      ∃ step ∈ steps, (row ∈ db.workflow.steps ∧ row.workflowRunId = runId ∧
        row.stepKey = step.stepKey) ∧ row.dependencyCountPending = 0 := by
  simp [readyAppendedSteps, mem_stepsWithKey]

/-- Steps with different keys are different rows. -/
theorem nodup_readyAppendedSteps (hnodup : (steps.map WorkflowStepEnqueue.stepKey).Nodup) :
    ((readyAppendedSteps db runId steps).map StepRow.id).Nodup := by
  have hrows : (readyAppendedSteps db runId steps).Nodup := by
    rw [readyAppendedSteps, nodup_flatMap]
    refine ⟨fun step _ => (db.workflow.steps.nodup_rows.filter _).filter _, ?_⟩
    refine (pairwise_map.mp hnodup).imp fun hne row hrow hrow' => hne ?_
    obtain ⟨_, _, hkey⟩ := mem_stepsWithKey.mp (mem_filter.mp hrow).1
    obtain ⟨_, _, hkey'⟩ := mem_stepsWithKey.mp (mem_filter.mp hrow').1
    exact hkey.symm.trans hkey'
  refine hrows.map_on fun row hrow row' hrow' hid => ?_
  obtain ⟨_, _, hmem, _⟩ := mem_readyAppendedSteps.mp hrow
  obtain ⟨_, _, hmem', _⟩ := mem_readyAppendedSteps.mp hrow'
  exact eq_of_key_eq hmem.1 hmem'.1 hid

variable [UuidSource]

/-- Steps were appended to a run: their rows, their dependencies and the mutation. -/
structure AppendsSteps (run : RunRow) (input : AppendWorkflowStepsInput) (db mid : Database) :
    Prop where
  locked : run ∈ db.workflow.runs
  id : run.id = input.workflowRunId
  opened : run.status.isTerminal = false
  accepted : AcceptedAppend ((lockWorkflowStepsForUpdate db run.id).map StepRow.stepKey)
    input.steps
  steps : WritesSteps run.id run.organizationId (initialDependencyCounters
    (lockWorkflowStepsForUpdate db run.id) (input.steps.map WorkflowStepEnqueue.stepKey))
    input.steps db mid
  mutations : mid.workflow.mutations.rows = db.workflow.mutations.rows ++
    [⟨run.id, input.mutationKey, appendSteps,
      (canonicalAppendRequest input.appendWindowStepKey run.organizationId input.steps).toJson⟩]

/-- The locked row of a prerequisite says how it ended. -/
theorem WritesSteps.outcome_of_locked {dep : WorkflowStepDependencySpec}
    (h : WritesSteps run.id run.organizationId count input.steps db mid) (hdrawn : AllDrawn db)
    (hstep : step ∈ input.steps) (hdep : dep ∈ step.dependencies) :
    stepOutcome db.workflow.steps []
        (mid.workflow.idOfKey run.id dep.prerequisiteStepKey) =
      ((lockWorkflowStepsForUpdate db run.id).find? fun step =>
        step.stepKey = dep.prerequisiteStepKey).bind StepRow.ending := by
  cases hfind : (lockWorkflowStepsForUpdate db run.id).find? fun step =>
      step.stepKey = dep.prerequisiteStepKey with
  | some existing =>
    obtain ⟨hmem, hrun⟩ := mem_lockWorkflowStepsForUpdate.mp (mem_of_find?_eq_some hfind)
    have hkey : existing.stepKey = dep.prerequisiteStepKey := by
      simpa using find?_some hfind
    have hget : db.workflow.steps.get? existing.id = some existing := get?_of_mem hmem
    rw [← hkey, idOfKey_eq h.key (h.old existing hmem) hrun]
    simp [stepOutcome, hget, StepRow.ending]
  | none =>
    obtain ⟨row, hrow, hrun, hkey⟩ := h.known step hstep dep hdep
    rw [← hkey, idOfKey_eq h.key hrow hrun, Option.bind_none]
    rcases h.only row hrow with hold | ⟨_, _, hnew⟩
    · have hlocked := mem_lockWorkflowStepsForUpdate.mpr ⟨hold, hrun⟩
      exact absurd (decide_eq_true hkey) (find?_eq_none.mp hfind row hlocked)
    · exact hnew.outcome hdrawn

section

variable (h : AppendsSteps run input db mid)
include h

theorem AppendsSteps.exactCounters (hdrawn : AllDrawn db) (hstep : step ∈ input.steps)
    (hcounters : initialDependencyCounters (lockWorkflowStepsForUpdate db run.id)
      (input.steps.map WorkflowStepEnqueue.stepKey) step = .ok counters) :
    ExactCounters mid.workflow run.id (stepOutcome db.workflow.steps []) step counters := by
  obtain ⟨_, _, hfold⟩ := bind_eq_ok.mp hcounters
  obtain ⟨hpend, hunsat⟩ := foldlM_countDependency
    (fun dep hdep => h.steps.outcome_of_locked hdrawn hstep hdep) hfold
  rw [zero_add] at hpend hunsat
  exact ⟨hpend, hunsat⟩

theorem AppendsSteps.releasable : db.workflow.IsReleasable run.id := by
  refine ⟨run, h.locked, rfl, ?_⟩
  have hopen := h.opened
  cases hstat : run.status <;> rw [hstat] at hopen <;> cases hopen
  · exact .inl rfl
  · exact .inr rfl

/-- Rows with the key of an appended step are its own. -/
theorem AppendsSteps.row_new (hstep : step ∈ input.steps) (hrow : row ∈ mid.workflow.steps)
    (hrun : row.workflowRunId = run.id) (hkey : row.stepKey = step.stepKey) :
    NewRow run.id run.organizationId (initialDependencyCounters
      (lockWorkflowStepsForUpdate db run.id) (input.steps.map WorkflowStepEnqueue.stepKey))
      db mid step row := by
  obtain ⟨other, hother, hnew⟩ := h.steps.each step hstep
  have hsame : row = other := h.steps.key row hrow other hother (hrun.trans hnew.run.symm)
    (hkey.trans hnew.stepKey.symm)
  rw [hsame]
  exact hnew

/-- The appended steps that wait for nothing are to be let go. -/
theorem AppendsSteps.readying (hsound : Sound db) :
    Readying run.id mid (readyAppendedSteps mid run.id input.steps) mid := by
  refine ⟨?_, ?_, Evolves.refl _ mid, rfl, .refl, nodup_readyAppendedSteps h.accepted.nodup, ?_⟩
  · refine hsound.flow.writeSteps h.steps h.accepted.nodup ?_
      (fun step hstep counters => h.exactCounters hsound.flow.drawn hstep) h.releasable ?_
    · obtain ⟨rank, hrank⟩ := h.accepted.orderable
      refine ⟨rank, fun step hstep dep hdep hkey => ?_⟩
      refine hrank _ (mem_map_of_mem hstep) _ (mem_filter.mpr ⟨?_, decide_eq_true hkey⟩)
      exact mem_map_of_mem hdep
    · intro step hstep row hrow hnew hpend
      exact mem_map_of_mem (mem_readyAppendedSteps.mpr
        ⟨step, hstep, ⟨hrow, hnew.run, hnew.stepKey⟩, hpend⟩)
  · have hexact := hsound.settled.exact run h.locked nofun
    refine h.steps.settled hsound.settled nofun ?_ hsound.flow.graph
    intro other hother hid
    rw [eq_of_key_eq hother h.locked hid]
    exact ⟨⟨hexact.result_eq_none h.opened, .inl h.opened⟩, .inl (.inl h.opened)⟩
  · intro row hrow
    obtain ⟨step, hstep, ⟨hmem, hrun, hkey⟩, hpend⟩ := mem_readyAppendedSteps.mp hrow
    obtain ⟨⟨_, _, hmade⟩, _⟩ := h.row_new hstep hmem hrun hkey
    exact ⟨hmem, hrun, hmade.status, hpend⟩

theorem AppendsSteps.extends : Extends db mid := by
  refine h.steps.extends fun other hother hid => ?_
  rw [eq_of_key_eq hother h.locked hid]
  exact h.opened

end

/-- The rows that an append writes. -/
theorem insertAppended_eq_ok {written linked : Database} (hgraph : Graph db.workflow)
    (hsteps : insertAppendedStepRecords db run (lockWorkflowStepsForUpdate db run.id)
      input.steps = .ok written)
    (hdeps : insertWorkflowStepDependencies .append run.id input.steps written = .ok linked)
    (hmut : insertWorkflowMutationRow linked run.id input.mutationKey
      (canonicalAppendRequest input.appendWindowStepKey run.organizationId input.steps) = .ok mid) :
    WritesSteps run.id run.organizationId (initialDependencyCounters
        (lockWorkflowStepsForUpdate db run.id) (input.steps.map WorkflowStepEnqueue.stepKey))
        input.steps db mid ∧
      mid.workflow.mutations.rows = db.workflow.mutations.rows ++
        [⟨run.id, input.mutationKey, appendSteps, (canonicalAppendRequest
          input.appendWindowStepKey run.organizationId input.steps).toJson⟩] := by
  obtain ⟨_, _, hfold⟩ := bind_eq_ok.mp hsteps
  have hinserts := foldlM_insertWorkflowStep hfold
  have hwrites := hinserts.writes hgraph.key hdeps
  have hold := hinserts.mutations hdeps
  simp only [insertWorkflowMutationRow, bind_eq_ok, require_eq_ok, pure_eq_ok] at hmut
  obtain ⟨mutations, hins, rfl⟩ := hmut
  refine ⟨⟨hwrites.clock, hwrites.queue, hwrites.runs, hwrites.activeClaims, hwrites.generated,
    hwrites.old, hwrites.only, hwrites.each, hwrites.key, hwrites.dependencies, hwrites.known⟩, ?_⟩
  rw [← hold]
  exact rows_insert? hins

/-- What a request to append steps does. -/
theorem appendWorkflowSteps_spec {outcome : AppendWorkflowStepsOutcome} (hsound : Sound db)
    (hok : appendWorkflowSteps db input = .ok (outcome, db')) :
    (outcome = .alreadyApplied ∧ db' = db) ∨
      (outcome = .appended ∧
        ∃ run mid, AppendsSteps run input db mid ∧ Keeps strict mid db') := by
  simp only [appendWorkflowSteps, bind_eq_ok, exists_unit, lockWorkflowRunForUpdate,
    require_eq_ok] at hok
  obtain ⟨_, run, hget, hok⟩ := hok
  obtain ⟨hrun, hid⟩ := get?_eq_some.mp (Option.filter_eq_some_iff.mp hget).1
  cases hexist : loadExistingMutationRequest db run.id input.mutationKey with
  | some existing =>
    simp only [hexist, bind_eq_ok, pure_eq_ok, Prod.mk.injEq] at hok
    obtain ⟨_, _, _, _, rfl, rfl⟩ := hok
    exact .inl ⟨rfl, rfl⟩
  | none =>
    simp only [hexist, bind_eq_ok, exists_unit, rejectIf_eq_ok, mapError_eq_ok, pure_eq_ok,
      Prod.mk.injEq, applyAppend, resolveAppendedSteps] at hok
    obtain ⟨_, hopen, hvalid, _, ⟨written, hsteps, linked, hdeps, mid, hmut,
      resolved, hresolve, rfl⟩, rfl, rfl⟩ := hok
    obtain ⟨hwrites, hmuts⟩ := insertAppended_eq_ok hsound.flow.graph hsteps hdeps
      hmut
    have happends : AppendsSteps run input db mid := ⟨hrun, hid, hopen,
      validateWorkflowStepAppend_eq_ok_iff.mp hvalid, hwrites, hmuts⟩
    have hreleasable : mid.workflow.IsReleasable run.id := by
      rw [WorkflowTables.IsReleasable, hwrites.runs]
      exact happends.releasable
    obtain ⟨db2, hok, hreadying⟩ := foldlM_total
      (f := resolveAppendedStep run.id)
      (P := fun rest db1 => Readying run.id mid rest db1)
      (fun row rest db1 hreadying => hreadying.resolve hreleasable)
      (happends.readying hsound)
    obtain rfl := Except.ok.inj (hok.symm.trans hresolve)
    exact .inr ⟨rfl, run, mid, happends, hreadying.finish hreleasable⟩

end Append

end Batter.Runledger.Postgres
