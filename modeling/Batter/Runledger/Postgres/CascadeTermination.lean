import Batter.Library.Runs
import Batter.Runledger.Postgres.JobEnqueue

/-!
# The loop over ended steps ends

Nothing is assumed of the stored rows here: the statuses and counters of the steps
may contradict each other and the edges may form a cycle.  The loop ends all the
same, since a step joins the queue only when a conditional update took it out of the
blocked steps, and nothing puts a step back among them.

`Cascaded` relates the database the loop began with to the one it has reached, for
every list of steps taken from the queue so far.  One iteration preserves it
(`Cascaded.iterate`), hence so does every run of iterations.
-/

namespace Batter.Runledger.Postgres

open RustStd Runs List Table

variable {db db' start : Database} {dequeued queue : List (ℕ × WorkflowStepStatus)}
variable {status : WorkflowStepStatus} {runId fuel : ℕ} {initial entry : ℕ × WorkflowStepStatus}
variable {dependent' : ℕ → Prop}

/-- The steps of a run that are blocked. -/
def blockedSteps (db : Database) (workflowRunId : ℕ) : List StepRow :=
  db.workflow.steps.select fun row => row.workflowRunId = workflowRunId && row.status = .blocked

theorem mem_blockedSteps {row : StepRow} : row ∈ blockedSteps db runId ↔
      row ∈ db.workflow.steps ∧ row.workflowRunId = runId ∧ row.status = .blocked := by
  simp [blockedSteps, mem_select]

/-- An edge leads from one of the steps to the dependent. -/
def DependsOnOneOf (db : Database) (dequeued : List (ℕ × WorkflowStepStatus))
    (dependentStepId : ℕ) : Prop :=
  ∃ entry ∈ dequeued, ∃ edge ∈ db.workflow.dependencies,
    edge.prerequisiteStepId = entry.1 ∧ edge.dependentStepId = dependentStepId

/-- What the loop may do to the row of a step: nothing unless it is a direct dependent
of a step taken from the queue; its status and what is recorded with it change only
while it is blocked, and as long as the status stays only the counters of open and failed
dependencies change. -/
structure StepRow.Moved (workflowRunId : ℕ) (dependent : ℕ → Prop) (before after : StepRow) :
    Prop where
  columns : after =
    { before with
      status := after.status
      jobId := after.jobId
      releasedAt := after.releasedAt
      dependencyCountPending := after.dependencyCountPending
      dependencyCountUnsatisfied := after.dependencyCountUnsatisfied
      statusReason := after.statusReason
      lastErrorCode := after.lastErrorCode
      lastErrorMessage := after.lastErrorMessage
      output := after.output }
  still : ¬ dependent before.id → after = before
  run : after ≠ before → before.workflowRunId = workflowRunId
  blocked : after.status ≠ before.status → before.status = .blocked
  counters : after.status = before.status → after =
    { before with
      dependencyCountPending := after.dependencyCountPending
      dependencyCountUnsatisfied := after.dependencyCountUnsatisfied }

section Moved

variable {dependent : ℕ → Prop} {a b c : StepRow}

theorem StepRow.Moved.refl (row : StepRow) : row.Moved runId dependent row :=
  ⟨rfl, fun _ => rfl, fun h => absurd rfl h, fun h => absurd rfl h, fun _ => rfl⟩

variable (h : a.Moved runId dependent b)
include h

theorem StepRow.Moved.id_eq : b.id = a.id := by
  rw [h.columns]

theorem StepRow.Moved.workflowRunId_eq : b.workflowRunId = a.workflowRunId := by
  rw [h.columns]

/-- A row that was not blocked is not blocked later. -/
theorem StepRow.Moved.notBlocked (ha : a.status ≠ .blocked) : b.status ≠ .blocked := by
  by_cases hstat : b.status = a.status
  · rw [hstat]
    exact ha
  · exact absurd (h.blocked hstat) ha

theorem StepRow.Moved.mono (hmono : ∀ id, dependent id → dependent' id) :
    a.Moved runId dependent' b :=
  ⟨h.columns, fun hnot => h.still fun hdept => hnot (hmono _ hdept), h.run, h.blocked,
    h.counters⟩

theorem StepRow.Moved.trans (h' : b.Moved runId dependent c) : a.Moved runId dependent c := by
  refine ⟨?_, ?_, ?_, ?_, ?_⟩
  · conv_lhs => rw [h'.columns, h.columns]
  · intro hnot
    have hfirst := h.still hnot
    rw [h'.still (by rwa [hfirst]), hfirst]
  · intro hne
    by_cases hfirst : b = a
    · rw [← hfirst] at hne ⊢
      exact h'.run hne
    · exact h.run hfirst
  · intro hne
    by_cases hfirst : b.status = a.status
    · rw [← hfirst] at hne ⊢
      exact h'.blocked hne
    · exact h.blocked hfirst
  · intro heq
    have hfirst : b.status = a.status := by
      by_contra hne
      have hblk := h.blocked hne
      have hsecond : c.status ≠ b.status := fun h => hne (by rw [← h, heq])
      exact hne ((h'.blocked hsecond).trans hblk.symm)
    rw [h'.counters (heq.trans hfirst.symm)]
    conv_lhs => rw [h.counters hfirst]

end Moved

/-- What the loop may do to the database: the rows of steps move, jobs are added for
released steps, and nothing else of the workflow tables changes. -/
structure Moves (workflowRunId : ℕ) (dependent : ℕ → Prop) (before after : Database) : Prop where
  steps : Table.Related (StepRow.Moved workflowRunId dependent) before.workflow.steps
    after.workflow.steps
  workflow : after.workflow = { before.workflow with steps := after.workflow.steps }
  jobs : ∀ job ∈ before.queue.jobs, job ∈ after.queue.jobs

section Moves

variable {dependent : ℕ → Prop} {db'' : Database}

theorem Moves.refl (db : Database) : Moves runId dependent db db :=
  ⟨.refl .refl _, rfl, fun _ h => h⟩

section

variable (h : Moves runId dependent db db')
include h

theorem Moves.mono (hmono : ∀ id, dependent id → dependent' id) : Moves runId dependent' db db' :=
  ⟨h.steps.imp fun _ _ hmoved => hmoved.mono hmono, h.workflow, h.jobs⟩

theorem Moves.trans (h' : Moves runId dependent db' db'') : Moves runId dependent db db'' := by
  refine ⟨h.steps.trans (fun _ _ _ => .trans) h'.steps, ?_,
    fun job hjob => h'.jobs job (h.jobs job hjob)⟩
  rw [h'.workflow, h.workflow]

theorem Moves.dependencies : db'.workflow.dependencies = db.workflow.dependencies := by
  rw [h.workflow]

end

/-- A conditional update of rows that may move. -/
theorem moves_update {cond : StepRow → Bool} {f : StepRow → StepRow}
    (hkey : ∀ row, (f row).id = row.id)
    (hmoved : ∀ row ∈ db.workflow.steps, cond row = true → row.Moved runId dependent (f row)) :
    Moves runId dependent db
      (db.withSteps (db.workflow.steps.update cond f hkey)) :=
  ⟨related_update hkey (fun row _ _ => .refl row) hmoved, rfl, fun _ h => h⟩

/-- A row that leaves the blocked steps may move in every other column. -/
theorem moved_of_blocked {row row' : StepRow} (hcols : row' =
      { row with
        status := row'.status
        jobId := row'.jobId
        releasedAt := row'.releasedAt
        dependencyCountPending := row'.dependencyCountPending
        dependencyCountUnsatisfied := row'.dependencyCountUnsatisfied
        statusReason := row'.statusReason
        lastErrorCode := row'.lastErrorCode
        lastErrorMessage := row'.lastErrorMessage
        output := row'.output })
    (hdept : dependent row.id)
    (hrun : row.workflowRunId = runId)
    (hblk : row.status = .blocked)
    (hstat : row'.status ≠ .blocked) :
    row.Moved runId dependent row' := by
  refine ⟨hcols, fun hnot => absurd hdept hnot, fun _ => hrun, fun _ => hblk, ?_⟩
  intro heq
  exact absurd (heq.trans hblk) hstat

end Moves

section Release

variable [UuidSource] {dependent : ℕ → Prop}

omit [UuidSource] in
theorem moves_markReleased {row : StepRow} {jobId : Option ℕ}
    (hrun : ∀ step ∈ db.workflow.steps, step.id = row.id → step.workflowRunId = runId)
    (hdept : dependent row.id) (hstat : status ≠ .blocked)
    (h : markReleased db row.id status jobId = .ok db') : Moves runId dependent db db' := by
  simp only [markReleased, bind_eq_ok, exists_unit, pure_eq_ok] at h
  obtain ⟨-, rfl⟩ := h
  refine moves_update _ fun step hstep hcond => ?_
  simp only [StepRow.isReleasable, Bool.and_eq_true, decide_eq_true_eq] at hcond
  obtain ⟨hid, ⟨⟨hblk, -⟩, -⟩, -⟩ := hcond
  exact moved_of_blocked rfl (by rwa [hid]) (hrun step hstep hid) hblk hstat

/-- A release takes its step out of the blocked ones, or does nothing. -/
theorem moves_releaseCandidateStep {row : StepRow}
    (hrun : ∀ step ∈ db.workflow.steps, step.id = row.id → step.workflowRunId = runId)
    (hdept : dependent row.id) (h : releaseCandidateStep db row = .ok db') :
    Moves runId dependent db db' := by
  rw [releaseCandidateStep, bind_eq_ok] at h
  obtain ⟨allowed, -, h⟩ := h
  cases allowed with
  | false =>
    obtain rfl := pure_eq_ok.mp h
    exact .refl db
  | true =>
    rw [if_pos rfl] at h
    cases hkind : row.executionKind with
    | external =>
      rw [hkind] at h
      exact moves_markReleased hrun hdept (by decide) h
    | job =>
      rw [hkind] at h
      obtain ⟨job, -, h⟩ := bind_eq_ok.mp h
      rw [releaseJobStep, bind_eq_ok] at h
      obtain ⟨inserted, hins, h⟩ := h
      obtain ⟨-, jobs, hjobs, rfl⟩ := insertJob_ok hins
      have hmarked : Moves runId dependent (db.withNewJob jobs _) db' :=
        moves_markReleased (fun step hstep => hrun step hstep) hdept (by decide) h
      refine .trans (?_ : Moves _ _ db (db.withNewJob jobs _)) hmarked
      refine ⟨.refl .refl _, rfl, fun other hother => ?_⟩
      exact (mem_insert? hjobs other).mpr (.inl hother)

end Release

/-- The state of the loop after the steps `dequeued` were taken from the queue.  Beside
the first one, every step that joined the queue was blocked when the loop began, is
not blocked any more, and joined only once. -/
structure Cascaded (workflowRunId : ℕ) (start : Database) (initial : ℕ × WorkflowStepStatus)
    (dequeued queue : List (ℕ × WorkflowStepStatus)) (db : Database) : Prop where
  moves : Moves workflowRunId (DependsOnOneOf start dequeued) start db
  joined : ∃ entered, dequeued ++ queue = initial :: entered ∧ (entered.map Prod.fst).Nodup ∧
    ∀ stepId ∈ entered.map Prod.fst,
      (∃ row ∈ blockedSteps start workflowRunId, row.id = stepId) ∧
        ∃ row ∈ db.workflow.steps, row.id = stepId ∧ row.status ≠ .blocked

section Cascaded

theorem Cascaded.begin (runId : ℕ) (db : Database) (initial : ℕ × WorkflowStepStatus) :
    Cascaded runId db initial [] [initial] db :=
  ⟨.refl db, [], rfl, by simp, by simp⟩

/-- At most one entry for each step that was blocked, and the first one, pass the queue. -/
theorem Cascaded.length_le (h : Cascaded runId start initial dequeued queue db) :
    dequeued.length + queue.length ≤ 1 + (blockedSteps start runId).length := by
  obtain ⟨entered, heq, hnodup, hentered⟩ := h.joined
  have hsubset : entered.map Prod.fst ⊆ (blockedSteps start runId).map StepRow.id := by
    intro stepId hstepId
    obtain ⟨⟨row, hrow, rfl⟩, -⟩ := hentered stepId hstepId
    exact mem_map_of_mem hrow
  have hle := (hnodup.subperm hsubset).length_le
  have hlen := congrArg List.length heq
  simp only [length_append, length_cons, length_map] at hle hlen
  omega

/-- The head of the queue is taken. -/
theorem Cascaded.pop (h : Cascaded runId start initial dequeued (entry :: queue) db) :
    Cascaded runId start initial (dequeued ++ [entry]) queue db := by
  refine ⟨h.moves.mono fun stepId hdepends => ?_, by simpa using h.joined⟩
  obtain ⟨other, hother, hedge⟩ := hdepends
  exact ⟨other, mem_append_left _ hother, hedge⟩

variable (h : Cascaded runId start initial dequeued queue db)
  (hmoves : Moves runId (DependsOnOneOf start dequeued) db db')
include h hmoves

/-- Rows that were allowed to move have moved. -/
theorem Cascaded.move : Cascaded runId start initial dequeued queue db' := by
  obtain ⟨entered, heq, hnodup, hentered⟩ := h.joined
  refine ⟨h.moves.trans hmoves, entered, heq, hnodup, fun stepId hstepId => ?_⟩
  obtain ⟨hstart, row, hrow, hid, hstat⟩ := hentered stepId hstepId
  obtain ⟨row', hrow', hmoved⟩ := hmoves.steps.1 row hrow
  exact ⟨hstart, row', hrow', hmoved.id_eq.trans hid, hmoved.notBlocked hstat⟩

/-- A step that was still blocked leaves the blocked ones and joins the queue. -/
theorem Cascaded.push {before after : StepRow} (hbefore : before ∈ db.workflow.steps)
    (hrun : before.workflowRunId = runId) (hblk : before.status = .blocked)
    (hafter : after ∈ db'.workflow.steps) (hid : after.id = before.id)
    (hstat : after.status ≠ .blocked) :
    Cascaded runId start initial dequeued (queue ++ [(before.id, status)]) db' := by
  obtain ⟨entered, heq, hnodup, hentered⟩ := h.joined
  obtain ⟨hmoved, entered', heq', -, hentered'⟩ := h.move hmoves
  obtain rfl : entered = entered' := cons_inj_right _ |>.mp (heq.symm.trans heq')
  have hfresh : before.id ∉ entered.map Prod.fst := by
    intro hmem
    obtain ⟨-, row, hrow, hrowId, hrowStat⟩ := hentered _ hmem
    rw [eq_of_key_eq hrow hbefore hrowId] at hrowStat
    exact hrowStat hblk
  refine ⟨hmoved, entered ++ [(before.id, status)], ?_, ?_, ?_⟩
  · rw [← append_assoc, heq, cons_append]
  · rw [map_append, nodup_append]
    refine ⟨hnodup, by simp, ?_⟩
    rintro stepId hstepId _ hother rfl
    simp only [map_cons, map_nil, mem_singleton] at hother
    exact hfresh (hother ▸ hstepId)
  · intro stepId hstepId
    rw [map_append, mem_append] at hstepId
    rcases hstepId with hstepId | hstepId
    · exact hentered' stepId hstepId
    · simp only [map_cons, map_nil, mem_singleton] at hstepId
      subst hstepId
      obtain ⟨first, hfirst, hmovedFirst⟩ := h.moves.steps.2 before hbefore
      have hfirstBlk : first.status = .blocked := by
        by_contra hne
        exact hmovedFirst.notBlocked hne hblk
      have hfirstRun : first.workflowRunId = runId := by
        by_cases hsame : before = first
        · rw [← hsame]
          exact hrun
        · exact hmovedFirst.run hsame
      exact ⟨⟨first, mem_blockedSteps.mpr ⟨hfirst, hfirstRun, hfirstBlk⟩, hmovedFirst.id_eq.symm⟩,
        after, hafter, hid, hstat⟩

end Cascaded

/-- One iteration of the loop: the head of the queue acts on its direct dependents. -/
def Iteration [UuidSource] (workflowRunId : ℕ)
    (state : Database × List (ℕ × WorkflowStepStatus)) (entry : ℕ × WorkflowStepStatus)
    (next : Database × List (ℕ × WorkflowStepStatus)) : Prop :=
  ∃ queue, state.2 = entry :: queue ∧
    applyTerminalPrerequisite state.1 workflowRunId entry.1 entry.2 queue = .ok next

/-- How the loop ends: with the database reached when the queue is empty, or with the error
of the iteration that failed. -/
def Ends [UuidSource] (workflowRunId : ℕ) (db : Database)
    (queue : List (ℕ × WorkflowStepStatus)) (result : Except Error Database) : Prop :=
  (queue = [] ∧ result = .ok db) ∨
    ∃ entry rest error, queue = entry :: rest ∧
      applyTerminalPrerequisite db workflowRunId entry.1 entry.2 rest = .error error ∧
        result = .error error

section Iteration

variable [UuidSource] {queue' : List (ℕ × WorkflowStepStatus)}

omit [UuidSource] in
/-- The updates are those of the direct dependents. -/
theorem dependsOn_of_loadDirectDependentUpdates
    {preId : ℕ} {status : WorkflowStepStatus} {updates : List DirectDependentUpdate}
    (h : loadDirectDependentUpdates db runId preId status = .ok updates)
    {update : DirectDependentUpdate} (hupdate : update ∈ updates) :
    ∃ edge ∈ db.workflow.dependencies,
      edge.prerequisiteStepId = preId ∧ edge.dependentStepId = update.stepId := by
  obtain ⟨edge, hedge, hok⟩ := mem_of_mapM_ok h hupdate
  simp only [bind_eq_ok, exists_unit, pure_eq_ok] at hok
  obtain ⟨-, rfl⟩ := hok
  rw [mem_orderedBy, mem_select, decide_eq_true_eq] at hedge
  exact ⟨edge, hedge.1, hedge.2, rfl⟩

/-- A dependent in hand: an edge leads to it and its row belongs to the run. -/
structure InHand (workflowRunId : ℕ) (start : Database)
    (dequeued : List (ℕ × WorkflowStepStatus)) (db : Database) (row : StepRow) : Prop where
  depends : DependsOnOneOf start dequeued row.id
  stored : ∃ step ∈ db.workflow.steps, step.id = row.id ∧ step.workflowRunId = workflowRunId

omit [UuidSource] in
theorem InHand.move {row : StepRow} {dependent : ℕ → Prop} (h : InHand runId start dequeued db row)
    (hmoves : Moves runId dependent db db') : InHand runId start dequeued db' row := by
  obtain ⟨step, hstep, hid, hrun⟩ := h.stored
  obtain ⟨step', hstep', hmoved⟩ := hmoves.steps.1 step hstep
  exact ⟨h.depends, step', hstep', hmoved.id_eq.trans hid, hmoved.workflowRunId_eq.trans hrun⟩

omit [UuidSource] in
/-- The counters of the direct dependents are updated, and their rows are in hand. -/
theorem Cascaded.lockAndUpdate
    {preId : ℕ} {updates : List DirectDependentUpdate} {rows : List StepRow}
    (h : Cascaded runId start initial dequeued queue db)
    (hupdates : ∀ update ∈ updates, DependsOnOneOf start dequeued update.stepId)
    (hok : lockAndUpdateDirectDependents db runId preId updates = .ok (rows, db')) :
    Cascaded runId start initial dequeued queue db' ∧
      ∀ row ∈ rows, InHand runId start dequeued db' row := by
  simp only [lockAndUpdateDirectDependents, bind_eq_ok, exists_unit, pure_eq_ok,
    Prod.mk.injEq] at hok
  obtain ⟨-, -, -, rfl, rfl⟩ := hok
  have hdepends : ∀ id ∈ updates.map DirectDependentUpdate.stepId,
      DependsOnOneOf start dequeued id := by
    intro id hid
    obtain ⟨update, hupdate, rfl⟩ := mem_map.mp hid
    exact hupdates update hupdate
  constructor
  · refine h.move (moves_update _ fun row _ hcond => ?_)
    simp only [Bool.and_eq_true, decide_eq_true_eq] at hcond
    exact ⟨rfl, fun hnot => absurd (hdepends _ hcond.1) hnot, fun _ => hcond.2,
      fun hne => absurd rfl hne, fun _ => rfl⟩
  · intro row hrow
    rw [mem_orderedBy, mem_select] at hrow
    simp only [Bool.and_eq_true, decide_eq_true_eq] at hrow
    exact ⟨hdepends _ hrow.2.1, row, hrow.1, rfl, hrow.2.2⟩

/-- A dependent that waits for nothing any more is released, or canceled and queued. -/
theorem Cascaded.dependent {row : StepRow} {state : Database × List (ℕ × WorkflowStepStatus)}
    (h : Cascaded runId start initial dequeued queue db) (hrow : InHand runId start dequeued db row)
    (hok : enqueueReadyOrCanceledDependent runId (db, queue) row = .ok state) :
    Cascaded runId start initial dequeued state.2 state.1 ∧
      Moves runId (DependsOnOneOf start dequeued) db state.1 := by
  obtain ⟨step, hstep, hid, hrun⟩ := hrow.stored
  have hruns : ∀ other ∈ db.workflow.steps, other.id = row.id →
      other.workflowRunId = runId := by
    intro other hother hotherId
    rw [eq_of_key_eq hother hstep (hotherId.trans hid.symm)]
    exact hrun
  unfold enqueueReadyOrCanceledDependent at hok
  dsimp only at hok
  split_ifs at hok with hwaits hsatisfied hgone
  · cases hok
    exact ⟨h, .refl db⟩
  · simp only [bind_eq_ok, pure_eq_ok] at hok
    obtain ⟨released, hrelease, rfl⟩ := hok
    have hmoves := moves_releaseCandidateStep hruns hrow.depends hrelease
    exact ⟨h.move hmoves, hmoves⟩
  · cases hok
    exact ⟨h, .refl db⟩
  · cases hok
    obtain ⟨before, hbefore⟩ := exists_mem_of_ne_nil _ (isEmpty_eq_false_iff.mp
      (by simpa using hgone))
    rw [mem_select] at hbefore
    obtain ⟨hmem, hcond⟩ := hbefore
    have hparts := hcond
    simp only [Bool.and_eq_true, decide_eq_true_eq] at hparts
    obtain ⟨⟨hbeforeId, hbeforeRun⟩, hblk⟩ := hparts
    have hmoved : ∀ other ∈ db.workflow.steps, (decide (other.id = row.id) &&
        decide (other.workflowRunId = runId) && decide (other.status = .blocked)) = true →
        other.Moved runId (DependsOnOneOf start dequeued) other.cancelUnsatisfied := by
      intro other _ hother
      simp only [Bool.and_eq_true, decide_eq_true_eq] at hother
      refine moved_of_blocked rfl ?_ hother.1.2 hother.2 (by simp [StepRow.cancelUnsatisfied])
      rw [hother.1.1]
      exact hrow.depends
    have hmoves := moves_update StepRow.cancelUnsatisfied_id hmoved
    refine ⟨?_, hmoves⟩
    rw [← hbeforeId]
    rw [← hbeforeId] at hmoves hcond
    refine h.push hmoves hmem hbeforeRun hblk (?_ : before.cancelUnsatisfied ∈ _) rfl
      (by simp [StepRow.cancelUnsatisfied])
    exact @mem_update_of_pos _ _ _ _ _ _ _ StepRow.cancelUnsatisfied_id hmem hcond

/-- An iteration of the loop keeps the relation to the database it began with. -/
theorem Cascaded.iterate (h : Cascaded runId start initial dequeued queue db)
    (hstep : Iteration runId (db, queue) entry (db', queue')) :
    Cascaded runId start initial (dequeued ++ [entry]) queue' db' := by
  obtain ⟨rest, rfl, hok⟩ := hstep
  have hpopped := h.pop
  rw [applyTerminalPrerequisite, bind_eq_ok] at hok
  obtain ⟨updates, hload, hok⟩ := hok
  split_ifs at hok with hempty
  · cases pure_eq_ok.mp hok
    exact hpopped
  obtain ⟨⟨rows, counted⟩, hlock, hok⟩ := bind_eq_ok.mp hok
  have hupdates : ∀ update ∈ updates,
      DependsOnOneOf start (dequeued ++ [entry]) update.stepId := by
    intro update hupdate
    obtain ⟨edge, hedge, hends⟩ := dependsOn_of_loadDirectDependentUpdates hload hupdate
    rw [h.moves.dependencies] at hedge
    exact ⟨entry, mem_append_right _ (mem_singleton_self _), edge, hedge, hends⟩
  obtain ⟨hcounted, hinHand⟩ := hpopped.lockAndUpdate hupdates hlock
  exact (foldlM_of_ok
    (P := fun rows state => Cascaded runId start initial (dequeued ++ [entry]) state.2
      state.1 ∧ ∀ row ∈ rows, InHand runId start (dequeued ++ [entry]) state.1 row)
    (fun row rows state state' hst hrow => by
      obtain ⟨hcascaded, hmoves⟩ := hst.1.dependent (hst.2 row (mem_cons_self ..)) hrow
      exact ⟨hcascaded, fun other hother =>
        (hst.2 other (mem_cons_of_mem _ hother)).move hmoves⟩)
    ⟨hcounted, hinHand⟩ hok).1

/-- The relation holds after every run of iterations. -/
theorem cascaded_of_run (h : Run (Iteration runId) (start, [initial]) dequeued (db, queue)) :
    Cascaded runId start initial dequeued queue db := by
  have hstep : ∀ earlier (s : Database × List (ℕ × WorkflowStepStatus)) entry t,
      Cascaded runId start initial earlier s.2 s.1 → Iteration runId s entry t →
      Cascaded runId start initial (earlier ++ [entry]) t.2 t.1 :=
    fun _ _ _ _ hcascaded hiteration => hcascaded.iterate hiteration
  have hend := Run.invariant_labels
    (fun earlier s => Cascaded runId start initial earlier s.2 s.1) hstep h
    (Cascaded.begin runId start initial)
  simpa using hend

/-- With enough fuel the loop ends: its queue is empty, or an iteration failed. -/
theorem drainTerminalQueue_ends (h : Cascaded runId start initial dequeued queue db)
    (hfuel : 1 + (blockedSteps start runId).length ≤ dequeued.length + fuel) :
    ∃ more db' queue', Run (Iteration runId) (db, queue) more (db', queue') ∧
      Ends runId db' queue' (drainTerminalQueue runId fuel db queue) := by
  induction fuel generalizing dequeued queue db with
  | zero =>
    have hlen := h.length_le
    have hnil : queue = [] := length_eq_zero_iff.mp (by omega)
    subst hnil
    exact ⟨[], db, [], .nil _, .inl ⟨rfl, rfl⟩⟩
  | succ fuel ih =>
    cases queue with
    | nil => exact ⟨[], db, [], .nil _, .inl ⟨rfl, rfl⟩⟩
    | cons entry queue =>
      rw [drainTerminalQueue]
      cases hok : applyTerminalPrerequisite db runId entry.1 entry.2 queue with
      | error error =>
        exact ⟨[], db, _, .nil _, .inr ⟨entry, queue, error, rfl, hok, rfl⟩⟩
      | ok next =>
        have hiteration : Iteration runId (db, entry :: queue) entry next :=
          ⟨queue, rfl, hok⟩
        obtain ⟨more, db', queue', hrun, hends⟩ := ih (h.iterate hiteration) (by
          rw [length_append, length_singleton]
          omega)
        exact ⟨entry :: more, db', queue', .cons hiteration hrun, hends⟩

/-- Fuel beyond that changes nothing. -/
theorem drainTerminalQueue_fuel (h : Cascaded runId start initial dequeued queue db)
    (hfuel : 1 + (blockedSteps start runId).length ≤ dequeued.length + fuel) (extra : ℕ) :
    drainTerminalQueue runId (fuel + extra) db queue = drainTerminalQueue runId fuel db queue := by
  induction fuel generalizing dequeued queue db with
  | zero =>
    have hlen := h.length_le
    have hnil : queue = [] := length_eq_zero_iff.mp (by omega)
    subst hnil
    rw [drainTerminalQueue, drainTerminalQueue]
  | succ fuel ih =>
    cases queue with
    | nil => rw [drainTerminalQueue, drainTerminalQueue]
    | cons entry queue =>
      rw [Nat.add_right_comm, drainTerminalQueue, drainTerminalQueue]
      cases hok : applyTerminalPrerequisite db runId entry.1 entry.2 queue with
      | error error => rfl
      | ok next =>
        have hiteration : Iteration runId (db, entry :: queue) entry next :=
          ⟨queue, rfl, hok⟩
        exact ih (h.iterate hiteration) (by
          rw [length_append, length_singleton]
          omega)

/-- The loop over ended steps ends for every stored set of steps and edges: beside the
first one a step joins the queue at most once and only if it was blocked, so there are at
most as many iterations as blocked steps and one more; and only direct dependents of
steps taken from the queue change. -/
theorem terminal_cascade_terminates
    (db : Database) (workflowRunId initialStepId : ℕ) (initialTerminalStatus : WorkflowStepStatus) :
    (∀ dequeued db' queue', Run (Iteration workflowRunId)
        (db, [(initialStepId, initialTerminalStatus)]) dequeued (db', queue') →
      Cascaded workflowRunId db (initialStepId, initialTerminalStatus) dequeued queue' db' ∧
        dequeued.length ≤ 1 + (blockedSteps db workflowRunId).length) ∧
    (∃ dequeued db' queue', Run (Iteration workflowRunId)
        (db, [(initialStepId, initialTerminalStatus)]) dequeued (db', queue') ∧
      Ends workflowRunId db' queue'
        (resolveTerminalStepQueue db workflowRunId initialStepId initialTerminalStatus)) ∧
    ∀ fuel, 1 + (blockedSteps db workflowRunId).length ≤ fuel →
      drainTerminalQueue workflowRunId fuel db [(initialStepId, initialTerminalStatus)] =
        resolveTerminalStepQueue db workflowRunId initialStepId initialTerminalStatus := by
  have hbegin := Cascaded.begin workflowRunId db (initialStepId, initialTerminalStatus)
  have hblk : (blockedSteps db workflowRunId).length ≤ db.workflow.steps.rows.length :=
    List.length_filter_le _ _
  refine ⟨fun dequeued db' queue' hrun => ?_, ?_, fun fuel hfuel => ?_⟩
  · have hcascaded := cascaded_of_run hrun
    exact ⟨hcascaded, (Nat.le_add_right _ _).trans hcascaded.length_le⟩
  · refine drainTerminalQueue_ends hbegin ?_
    rw [List.length_nil]
    omega
  · have hleast : ∀ extra, drainTerminalQueue workflowRunId
        (1 + (blockedSteps db workflowRunId).length + extra) db
          [(initialStepId, initialTerminalStatus)] = _ :=
      drainTerminalQueue_fuel hbegin (by rw [List.length_nil]; omega)
    obtain ⟨extra, rfl⟩ := Nat.exists_eq_add_of_le hfuel
    obtain ⟨extra', hextra⟩ := Nat.exists_eq_add_of_le
      (show 1 + (blockedSteps db workflowRunId).length ≤ db.workflow.steps.rows.length + 1 by omega)
    rw [resolveTerminalStepQueue, hextra, hleast, hleast]

end Iteration

end Batter.Runledger.Postgres
