import Batter.Runledger.Postgres.Cascade
import Batter.Runledger.Postgres.StepTransitions

/-!
# The status of a run is that of its steps

`RunRow.Exact` says that the status and the result of a run are what its steps
give.  While the steps of one run change, the other runs stay exact, and
`recomputeWorkflowRunStatus` makes the run itself exact again.
-/

namespace Batter.Runledger.Postgres

open List

variable {steps steps' : List StepRow} {step : StepRow}

theorem nextRunStatus_ne_canceled (steps : List StepRow) : nextRunStatus steps ≠ .canceled := by
  unfold nextRunStatus
  split_ifs <;> simp

/-- A run is running as long as a step is blocked, enqueued or running. -/
theorem nextRunStatus_eq_running {row : StepRow} (hrow : row ∈ steps)
    (hstat : row.status = .blocked ∨ row.status = .enqueued ∨ row.status = .running) :
    nextRunStatus steps = .running := by
  unfold nextRunStatus
  rw [if_pos]
  rw [any_eq_true]
  refine ⟨row, hrow, ?_⟩
  simpa [or_assoc] using hstat

/-- A run has ended when all its steps have. -/
theorem nextRunStatus_isTerminal_iff :
    (nextRunStatus steps).isTerminal = true ↔ ∀ row ∈ steps, row.status.isTerminal = true := by
  have hopen : ∀ row : StepRow, row.status.isTerminal = false ↔
      ((row.status = .blocked ∨ row.status = .enqueued ∨ row.status = .running) ∨
        row.status = .waitingForExternal) := by
    intro row
    cases row.status <;> simp [WorkflowStepStatus.isTerminal]
  constructor
  · intro hterm row hrow
    by_contra hne
    rcases (hopen row).mp (by simpa using hne) with hstat | hstat
    · rw [nextRunStatus_eq_running hrow hstat] at hterm
      cases hterm
    · unfold nextRunStatus at hterm
      split_ifs at hterm with _ hwaiting
      · cases hterm
      · cases hterm
      all_goals exact hwaiting (any_eq_true.mpr ⟨row, hrow, by simp [hstat]⟩)
  · intro hall
    have hnone : ∀ row ∈ steps, ¬ ((row.status = .blocked ∨ row.status = .enqueued ∨
        row.status = .running) ∨ row.status = .waitingForExternal) := by
      intro row hrow hbad
      have := hall row hrow
      rw [(hopen row).mpr hbad] at this
      cases this
    unfold nextRunStatus
    rw [if_neg, if_neg]
    · split_ifs <;> rfl
    · rw [any_eq_true]
      rintro ⟨row, hrow, hwaiting⟩
      exact hnone row hrow (Or.inr (of_decide_eq_true hwaiting))
    · rw [any_eq_true]
      rintro ⟨row, hrow, hrunning⟩
      refine hnone row hrow (Or.inl ?_)
      simpa [or_assoc] using hrunning

/-- The status depends on which steps there are, not on their order. -/
theorem nextRunStatus_congr (h : ∀ row, row ∈ steps' ↔ row ∈ steps) :
    nextRunStatus steps' = nextRunStatus steps := by
  have hany : ∀ p : StepRow → Bool, steps'.any p = steps.any p := by
    intro p
    rw [Bool.eq_iff_iff, any_eq_true, any_eq_true]
    simp only [h]
  unfold nextRunStatus
  rw [hany, hany, hany]

/-- The status and the result of a run are what its steps give. -/
structure RunRow.Exact (tables : WorkflowTables) (run : RunRow) : Prop where
  status : run.status ≠ .canceled → run.status = nextRunStatus (tables.stepsOf run.id)
  canceled : run.status = .canceled → ∀ step ∈ tables.stepsOf run.id,
    step.status.isTerminal = true
  result : run.result =
    if run.status = .succeeded then resultOutput run (tables.stepsOf run.id) else none

variable {tables tables' : WorkflowTables} {run : RunRow}

theorem mem_stepsOf {runId : ℕ} :
    step ∈ tables.stepsOf runId ↔ step ∈ tables.steps ∧ step.workflowRunId = runId := by
  rw [WorkflowTables.stepsOf, Table.mem_select, decide_eq_true_eq]

/-- The steps of a run have different keys. -/
theorem Graph.eq_of_stepKey (hgraph : Graph tables) {runId : ℕ} {row row' : StepRow}
    (hrow : row ∈ tables.stepsOf runId) (hrow' : row' ∈ tables.stepsOf runId)
    (hkey : row.stepKey = row'.stepKey) : row = row' := by
  obtain ⟨hmem, hrun⟩ := mem_stepsOf.mp hrow
  obtain ⟨hmem', hrun'⟩ := mem_stepsOf.mp hrow'
  exact hgraph.key row hmem row' hmem' (hrun.trans hrun'.symm) hkey

/-- A run that has ended has only steps that have ended. -/
theorem RunRow.Exact.ended (h : run.Exact tables) (hterm : run.status.isTerminal = true) :
    ∀ step ∈ tables.stepsOf run.id, step.status.isTerminal = true := by
  by_cases hcanc : run.status = .canceled
  · exact h.canceled hcanc
  · rw [h.status hcanc] at hterm
    exact nextRunStatus_isTerminal_iff.mp hterm

/-- A run with an open step has not ended. -/
theorem RunRow.Exact.open_of_step (h : run.Exact tables) (hstep : step ∈ tables.stepsOf run.id)
    (hopen : step.status.isTerminal = false) : run.status.isTerminal = false := by
  rw [Bool.eq_false_iff]
  intro hterm
  rw [h.ended hterm step hstep] at hopen
  cases hopen

theorem RunRow.Exact.result_eq_none (h : run.Exact tables) (hopen : run.status.isTerminal = false) :
    run.result = none := by
  rw [h.result, if_neg]
  intro hsucc
  rw [hsucc] at hopen
  cases hopen

/-- A list of steps in which no two have the same key has one result. -/
theorem resultOutput_congr
    (hkey : ∀ row ∈ steps, ∀ row' ∈ steps, row.stepKey = row'.stepKey → row = row')
    (h : ∀ row, row ∈ steps' ↔ row ∈ steps) : resultOutput run steps' = resultOutput run steps := by
  have hfind : ∀ p : StepRow → Bool,
      (∀ row ∈ steps, ∀ row' ∈ steps, p row = true → p row' = true → row = row') →
      steps'.find? p = steps.find? p := by
    intro p huniq
    cases hleft : steps.find? p with
    | none =>
      rw [find?_eq_none] at hleft ⊢
      exact fun row hrow => hleft row ((h row).mp hrow)
    | some row =>
      have hrow := mem_of_find?_eq_some hleft
      have hp := find?_some hleft
      cases hright : steps'.find? p with
      | none => exact absurd hp (find?_eq_none.mp hright row ((h row).mpr hrow))
      | some row' =>
        have hrow' := (h row').mp (mem_of_find?_eq_some hright)
        rw [huniq row' hrow' row hrow (find?_some hright) hp]
  unfold resultOutput
  rw [hfind]
  intro row hrow row' hrow' hp hp'
  simp only [Bool.and_eq_true, decide_eq_true_eq] at hp hp'
  exact hkey row hrow row' hrow' (Option.some.inj (hp.1.trans hp'.1.symm))

/-- A run stays exact as long as its steps stay the same. -/
theorem RunRow.Exact.congr (h : run.Exact tables) (hgraph : Graph tables)
    (hsame : ∀ step, step ∈ tables'.stepsOf run.id ↔ step ∈ tables.stepsOf run.id) :
    run.Exact tables' := by
  refine ⟨?_, ?_, ?_⟩
  · rw [nextRunStatus_congr hsame]
    exact h.status
  · exact fun hcanc step hstep => h.canceled hcanc step ((hsame step).mp hstep)
  · rw [resultOutput_congr _ hsame]
    · exact h.result
    · exact fun row hrow row' hrow' => hgraph.eq_of_stepKey hrow hrow'

/-- A running run stays exact as long as one of its steps is not ready to end it. -/
theorem RunRow.Exact.of_running {step' : StepRow} (h : run.Exact tables)
    (hstep : step ∈ tables.stepsOf run.id)
    (hstat : step.status = .blocked ∨ step.status = .enqueued ∨ step.status = .running)
    (hstep' : step' ∈ tables'.stepsOf run.id)
    (hstat' : step'.status = .blocked ∨ step'.status = .enqueued ∨ step'.status = .running) :
    run.Exact tables' := by
  have hopen : run.status.isTerminal = false := by
    refine h.open_of_step hstep ?_
    rcases hstat with hstat | hstat | hstat <;> rw [hstat] <;> rfl
  have hcanc : run.status ≠ .canceled := by
    intro hcanc
    rw [hcanc] at hopen
    cases hopen
  have hrunning := h.status hcanc
  rw [nextRunStatus_eq_running hstep hstat] at hrunning
  refine ⟨fun _ => ?_, fun hbad => absurd hbad hcanc, ?_⟩
  · rw [nextRunStatus_eq_running hstep' hstat', hrunning]
  · rw [h.result_eq_none hopen, hrunning]
    rfl

end Batter.Runledger.Postgres
