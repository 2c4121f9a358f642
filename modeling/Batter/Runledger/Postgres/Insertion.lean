import Batter.Runledger.Postgres.StepEnd

/-!
# Insertion of steps and dependencies

The steps of a request are inserted one after another, each with the counters of
its dependencies, and then the dependencies themselves.  `WritesSteps` says what
both together leave in the tables; `Flow.writeSteps` is the invariant afterwards,
in which the new steps that wait for nothing are awaited.
-/

namespace Batter.Runledger.Postgres

open RustStd List Table

variable {requested : List WorkflowStepEnqueue} {defaults : Option DefinitionRow} {org : Option ℕ}
variable {context : WorkflowStepDependencyWriteContext} {step : WorkflowStepEnqueue}
variable {count : WorkflowStepEnqueue → Except Error (ℤ × ℤ)} {runId : ℕ}

section Rows

/-- The declared columns of a row are those of a step of a request, with the settings of some
definition of its job type. -/
structure StepRow.IsFor (organizationId : Option ℕ) (step : WorkflowStepEnqueue)
    (defaults : Option DefinitionRow) (row : StepRow) : Prop where
  defined : defaults.isSome = step.jobType.isSome
  declared : row.declared = .new row.id row.workflowRunId
    (workflowStepEffectiveOrganizationId organizationId step) step defaults
    step.dependencies.length 0 0
  constraints : row.declared.checkConstraints = .ok ()

/-- A row as it is inserted for a step of a request. -/
structure StepRow.IsNew (workflowRunId : ℕ) (organizationId : Option ℕ)
    (step : WorkflowStepEnqueue) (counters : ℤ × ℤ) (row : StepRow) : Prop where
  run : row.workflowRunId = workflowRunId
  isFor : ∃ defaults, row.IsFor organizationId step defaults
  status : row.status = .blocked
  jobId : row.jobId = none
  releasedAt : row.releasedAt = none
  pending : row.dependencyCountPending = counters.1
  unsatisfied : row.dependencyCountUnsatisfied = counters.2

variable {row row' : StepRow}

/-- What the checks of the table leave open. -/
theorem StepRow.checkConstraints_eq_ok : row.checkConstraints = .ok () ↔
      (∀ value, row.priority = some value → isI32 value = true) ∧
      (∀ value, row.maxAttempts = some value → isI32 value = true ∧ 0 < value) ∧
      (∀ value, row.timeoutSeconds = some value → isI32 value = true ∧ 0 < value) ∧
      ∀ key, row.executionResourceKey = some key → ValidResourceKey key := by
  simp only [StepRow.checkConstraints, bind_eq_ok, exists_unit, rejectIf_eq_ok, any_eq_false_iff,
    Bool.not_eq_false', decide_eq_false_iff_not, not_le, Bool.or_eq_false_iff, not_lt,
    ValidResourceKey]
  constructor
  · rintro ⟨hprio, hatts, htimeout, hatts', htimeout', hres⟩
    exact ⟨hprio, fun value hval => ⟨hatts value hval, hatts' value hval⟩,
      fun value hval => ⟨htimeout value hval, htimeout' value hval⟩, hres⟩
  · rintro ⟨hprio, hatts, htimeout, hres⟩
    exact ⟨hprio, fun value hval => (hatts value hval).1,
      fun value hval => (htimeout value hval).1,
      fun value hval => (hatts value hval).2,
      fun value hval => (htimeout value hval).2, hres⟩

section

variable (h : row.IsFor org step defaults)
include h

theorem StepRow.IsFor.of_declared (heq : row'.declared = row.declared) :
    row'.IsFor org step defaults := by
  refine ⟨h.defined, ?_, heq ▸ h.constraints⟩
  rw [StepRow.id_of_declared heq, StepRow.run_of_declared heq, heq]
  exact h.declared

theorem StepRow.IsFor.stepKey : row.stepKey = step.stepKey :=
  (congrArg StepRow.stepKey h.declared : row.declared.stepKey = _)

/-- A row for a step of a request can be released. -/
theorem StepRow.IsFor.shaped : row.Shaped := by
  obtain ⟨_, hatts, htimeout, hres⟩ := StepRow.checkConstraints_eq_ok.mp h.constraints
  have hshaped : row.declared.Shaped := by
    intro hkind
    have hdefaults := h.defined
    rw [h.declared] at hkind hatts htimeout hres ⊢
    change step.executionKind = .job at hkind
    cases hexec : step.execution with
    | external =>
      simp [WorkflowStepEnqueue.executionKind, hexec] at hkind
    | job execution =>
      have htype : step.jobType = some execution.jobType := by
        simp [WorkflowStepEnqueue.jobType, WorkflowStepEnqueue.jobSetting, hexec]
      rw [htype] at hdefaults
      obtain ⟨defn, rfl⟩ := Option.isSome_iff_exists.mp hdefaults
      refine ⟨⟨execution.jobType, step.priority.getD defn.defaultPriority,
        step.maxAttempts.getD defn.maxAttempts,
        step.timeoutSeconds.getD defn.defaultTimeoutSeconds,
        execution.stage.getD .queued, step.executionResourceKey⟩, ?_, ?_, ?_, ?_⟩
      · simp [JobReleaseSpec.fromNullableFields, StepRow.new, htype, require,
          workflowStepEffectiveStage, hexec, bind, Except.bind, pure, Except.pure]
      · exact (hatts _ rfl).2
      · exact (htimeout _ rfl).2
      · exact hres
  exact hshaped.of_declared rfl

end

end Rows

section Steps

variable {db db' : Database}

/-- No two steps of a run have the same key. -/
def KeysUnique (steps : Table StepRow.id) : Prop :=
  ∀ step ∈ steps, ∀ step' ∈ steps,
    step.workflowRunId = step'.workflowRunId → step.stepKey = step'.stepKey → step = step'

theorem mem_stepsWithKey {tables : WorkflowTables} {stepKey : String} {row : StepRow} :
    row ∈ tables.stepsWithKey runId stepKey ↔
      row ∈ tables.steps ∧ row.workflowRunId = runId ∧ row.stepKey = stepKey := by
  simp [WorkflowTables.stepsWithKey]

theorem workflowStepDefaults_eq_ok (hok : workflowStepDefaults db step = .ok defaults) :
    defaults.isSome = step.jobType.isSome := by
  unfold workflowStepDefaults at hok
  cases htype : step.jobType with
  | none =>
    rw [htype] at hok
    obtain rfl := Except.ok.inj hok
    rfl
  | some jobType =>
    simp only [htype, bind_eq_ok, require_eq_ok, pure_eq_ok] at hok
    obtain ⟨defn, _, rfl⟩ := hok
    rfl

/-- A new key leaves the keys of a run unique. -/
theorem KeysUnique.insert {steps steps' : Table StepRow.id} {row : StepRow} (h : KeysUnique steps)
    (hnew : ∀ other ∈ steps, other.workflowRunId = row.workflowRunId → other.stepKey ≠ row.stepKey)
    (hins : steps.insert? row = some steps') : KeysUnique steps' := by
  intro a ha b hb hrun hkey
  rcases (mem_insert? hins a).mp ha with ha | rfl
  · rcases (mem_insert? hins b).mp hb with hb | rfl
    · exact h a ha b hb hrun hkey
    · exact absurd hkey (hnew a ha hrun)
  · rcases (mem_insert? hins b).mp hb with hb | rfl
    · exact absurd hkey.symm (hnew b hb hrun.symm)
    · rfl

variable [UuidSource]

/-- A row that was inserted between two states, for a step with the counters that `count`
gives. -/
def NewRow (workflowRunId : ℕ) (organizationId : Option ℕ)
    (count : WorkflowStepEnqueue → Except Error (ℤ × ℤ)) (db db' : Database)
    (step : WorkflowStepEnqueue) (row : StepRow) : Prop :=
  (∃ counters, count step = .ok counters ∧ row.IsNew workflowRunId organizationId step counters) ∧
    ¬ db.Drawn row.id ∧ db'.Drawn row.id

/-- The database with other rows in `workflow_steps` and other identifiers drawn. -/
def Database.withInserted (db : Database) (steps : Table StepRow.id) (generated : ℕ) : Database :=
  { db with workflow := { db.workflow with steps }, generated }

/-- The rows of the requested steps were inserted. -/
structure InsertsSteps (workflowRunId : ℕ) (organizationId : Option ℕ)
    (count : WorkflowStepEnqueue → Except Error (ℤ × ℤ)) (requested : List WorkflowStepEnqueue)
    (db db' : Database) : Prop where
  frame : db' = db.withInserted db'.workflow.steps db'.generated
  generated : db.generated ≤ db'.generated
  old : ∀ row ∈ db.workflow.steps, row ∈ db'.workflow.steps
  only : ∀ row ∈ db'.workflow.steps, row ∈ db.workflow.steps ∨
    ∃ step ∈ requested, NewRow workflowRunId organizationId count db db' step row
  each : ∀ step ∈ requested, ∃ row ∈ db'.workflow.steps,
    NewRow workflowRunId organizationId count db db' step row
  key : KeysUnique db.workflow.steps → KeysUnique db'.workflow.steps

theorem insertWorkflowStep_eq_ok {counters : ℤ × ℤ}
    (hok : insertWorkflowStep db runId org step counters.1 counters.2 = .ok db') :
    ∃ row steps, row.IsNew runId org step counters ∧ row.id = db.nextId ∧
      (∀ other ∈ db.workflow.steps, other.workflowRunId = runId → other.stepKey ≠ row.stepKey) ∧
      db.workflow.steps.insert? row = some steps ∧ db' = db.withNewStep steps := by
  simp only [insertWorkflowStep, dependencyCountTotal, bind_eq_ok, exists_unit, rejectIf_eq_ok,
    pure_eq_ok, require_eq_ok, Bool.not_eq_false', List.isEmpty_iff] at hok
  obtain ⟨defaults, hdefaults, _, ⟨_, rfl⟩, hconstraints, hkey, steps, hins, rfl⟩ := hok
  refine ⟨_, steps, ?_, rfl, ?_, hins, rfl⟩
  · exact ⟨rfl, ⟨defaults, workflowStepDefaults_eq_ok hdefaults, rfl, hconstraints⟩, rfl, rfl, rfl,
      rfl, rfl⟩
  · intro other hother hrun hsame
    have hmem := mem_stepsWithKey.mpr ⟨hother, hrun, hsame⟩
    rw [show (StepRow.new _ _ _ step _ _ _ _).stepKey = step.stepKey from rfl, hkey] at hmem
    exact List.not_mem_nil hmem

/-- The insertion of the requested steps, one after another. -/
theorem foldlM_insertWorkflowStep (hok : requested.foldlM (fun db step => do
      let counters ← count step
      insertWorkflowStep db runId org step counters.1 counters.2) db =
        .ok db') :
    InsertsSteps runId org count requested db db' := by
  induction requested generalizing db with
  | nil =>
    obtain rfl := Except.ok.inj hok
    exact ⟨rfl, le_refl _, fun _ hrow => hrow, fun _ hrow => .inl hrow, by simp, id⟩
  | cons step requested ih =>
    rw [foldlM_cons, bind_eq_ok] at hok
    obtain ⟨mid, hstep, hrest⟩ := hok
    obtain ⟨counters, hcount, hins⟩ := bind_eq_ok.mp hstep
    obtain ⟨row, steps, hnew, hid, hkey, hsteps, rfl⟩ := insertWorkflowStep_eq_ok hins
    have hmem := mem_insert? hsteps
    have h := ih hrest
    have hfresh : ∀ id, ¬ (db.withNewStep steps).Drawn id → ¬ db.Drawn id :=
      fun id hdrawn hold => hdrawn (hold.mono (Nat.le_succ _))
    have hrow : NewRow runId org count db db' step row := by
      refine ⟨⟨counters, hcount, hnew⟩, hid ▸ db.not_drawn_nextId, ?_⟩
      have hdrawn : (db.withNewStep steps).Drawn row.id :=
        ⟨db.generated, Nat.lt_succ_self _, hid.symm⟩
      exact hdrawn.mono h.generated
    refine ⟨?_, (Nat.le_succ _).trans h.generated, ?_, ?_, ?_, ?_⟩
    · exact h.frame.trans rfl
    · exact fun other hother => h.old other ((hmem other).mpr (.inl hother))
    · intro other hother
      rcases h.only other hother with hmid | ⟨step', hstep', hmade, hdrawn, hdrawn'⟩
      · rcases (hmem other).mp hmid with hold | rfl
        · exact .inl hold
        · exact .inr ⟨step, mem_cons_self, hrow⟩
      · exact .inr ⟨step', mem_cons_of_mem _ hstep', hmade, hfresh _ hdrawn, hdrawn'⟩
    · rw [forall_mem_cons]
      refine ⟨⟨row, h.old row ((hmem row).mpr (.inr rfl)), hrow⟩, ?_⟩
      intro step' hstep'
      obtain ⟨other, hother, hmade, hdrawn, hdrawn'⟩ := h.each step' hstep'
      exact ⟨other, hother, hmade, hfresh _ hdrawn, hdrawn'⟩
    · intro huniq
      exact h.key (huniq.insert (by rw [hnew.run]; exact hkey) hsteps)

end Steps

section Dependencies

section

variable (tables : WorkflowTables) (workflowRunId : ℕ)

/-- The identifier of the step with a key in a run. -/
def WorkflowTables.idOfKey (stepKey : String) : ℕ :=
  ((tables.stepsWithKey workflowRunId stepKey).head?.map StepRow.id).getD 0

/-- The row of a dependency of a step. -/
def edgeOf (stepKey : String) (dependency : WorkflowStepDependencySpec) : DependencyRow :=
  ⟨workflowRunId, tables.idOfKey workflowRunId dependency.prerequisiteStepKey,
    tables.idOfKey workflowRunId stepKey, dependency.effectiveReleaseMode⟩

/-- The rows of the dependencies of a step. -/
def edgesOf (step : WorkflowStepEnqueue) : List DependencyRow :=
  step.dependencies.map (edgeOf tables workflowRunId step.stepKey)

/-- A step of the run has the key. -/
def WorkflowTables.HasKey (stepKey : String) : Prop :=
  ∃ row ∈ tables.steps, row.workflowRunId = workflowRunId ∧ row.stepKey = stepKey

end

variable {tables : WorkflowTables} {stepKey : String} {row : StepRow}
variable {db db' : Database}

/-- A key in use names its step. -/
theorem idOfKey_eq (huniq : KeysUnique tables.steps) (hrow : row ∈ tables.steps)
    (hrun : row.workflowRunId = runId) : tables.idOfKey runId row.stepKey = row.id := by
  have hselect : tables.stepsWithKey runId row.stepKey = [row] := by
    refine select_eq_singleton hrow (by simp [hrun]) ?_
    intro other hother hcond
    simp only [Bool.and_eq_true, decide_eq_true_eq] at hcond
    exact huniq other hother row hrow (hcond.1.trans hrun.symm) hcond.2
  rw [WorkflowTables.idOfKey, hselect]
  rfl

theorem stepIdForKey_eq_ok {missingError : String} {id : ℕ}
    (hok : stepIdForKey db runId stepKey missingError = .ok id) :
    db.workflow.HasKey runId stepKey ∧ id = db.workflow.idOfKey runId stepKey := by
  simp only [stepIdForKey, bind_eq_ok, require_eq_ok, pure_eq_ok] at hok
  obtain ⟨row, hhead, rfl⟩ := hok
  refine ⟨⟨row, mem_stepsWithKey.mp (mem_of_head? hhead)⟩, ?_⟩
  rw [WorkflowTables.idOfKey, hhead]
  rfl

theorem foldlM_insertWorkflowStepDependency {specs : List WorkflowStepDependencySpec}
    (hok : specs.foldlM (insertWorkflowStepDependency context runId
      (db.workflow.idOfKey runId stepKey)) db = .ok db') :
    ∃ deps, db' = db.withDependencies deps ∧
      deps.rows = db.workflow.dependencies.rows ++
        specs.map (edgeOf db.workflow runId stepKey) ∧
      ∀ dep ∈ specs, db.workflow.HasKey runId dep.prerequisiteStepKey := by
  induction specs generalizing db with
  | nil =>
    obtain rfl := Except.ok.inj hok
    exact ⟨db.workflow.dependencies, rfl, by simp, by simp⟩
  | cons dep specs ih =>
    rw [foldlM_cons, bind_eq_ok] at hok
    obtain ⟨mid, hfirst, hrest⟩ := hok
    simp only [insertWorkflowStepDependency, bind_eq_ok, exists_unit, rejectIf_eq_ok,
      require_eq_ok, pure_eq_ok] at hfirst
    obtain ⟨id, hid, _, deps, hins, rfl⟩ := hfirst
    obtain ⟨hknown, rfl⟩ := stepIdForKey_eq_ok hid
    obtain ⟨deps', rfl, hrows, hall⟩ := @ih (db.withDependencies deps) hrest
    refine ⟨deps', rfl, ?_, ?_⟩
    · rw [hrows, map_cons, append_cons]
      exact congrArg (· ++ _) (rows_insert? hins)
    · rw [forall_mem_cons]
      exact ⟨hknown, hall⟩

/-- The dependencies of the requested steps, one step after another. -/
theorem insertWorkflowStepDependencies_eq_ok
    (hok : insertWorkflowStepDependencies context runId requested db = .ok db') :
    ∃ deps, db' = db.withDependencies deps ∧
      deps.rows = db.workflow.dependencies.rows ++
        requested.flatMap (edgesOf db.workflow runId) ∧
      ∀ step ∈ requested, ∀ dep ∈ step.dependencies,
        db.workflow.HasKey runId dep.prerequisiteStepKey := by
  induction requested generalizing db with
  | nil =>
    obtain rfl := Except.ok.inj hok
    exact ⟨db.workflow.dependencies, rfl, by simp, by simp⟩
  | cons step requested ih =>
    rw [insertWorkflowStepDependencies, foldlM_cons, bind_eq_ok] at hok
    obtain ⟨mid, hfirst, hrest⟩ := hok
    obtain ⟨id, hid, hfold⟩ := bind_eq_ok.mp hfirst
    obtain ⟨_, rfl⟩ := stepIdForKey_eq_ok hid
    obtain ⟨deps, rfl, hrows, hknown⟩ := foldlM_insertWorkflowStepDependency hfold
    obtain ⟨deps', rfl, hrows', hall⟩ := ih hrest
    refine ⟨deps', rfl, ?_, ?_⟩
    · rw [hrows', flatMap_cons, ← append_assoc]
      exact congrArg (· ++ _) hrows
    · rw [forall_mem_cons]
      exact ⟨hknown, hall⟩

end Dependencies

section Written

variable [UuidSource]

/-- The keys of requested steps can be numbered so that prerequisites come first. -/
def Rankable (requested : List WorkflowStepEnqueue) : Prop :=
  ∃ rank : String → ℕ, ∀ step ∈ requested, ∀ dependency ∈ step.dependencies,
    dependency.prerequisiteStepKey ∈ requested.map WorkflowStepEnqueue.stepKey →
      rank dependency.prerequisiteStepKey < rank step.stepKey

/-- The rows of the requested steps and of their dependencies were inserted. -/
structure WritesSteps (workflowRunId : ℕ) (organizationId : Option ℕ)
    (count : WorkflowStepEnqueue → Except Error (ℤ × ℤ)) (requested : List WorkflowStepEnqueue)
    (db db' : Database) : Prop where
  clock : db'.clock = db.clock
  queue : db'.queue = db.queue
  runs : db'.workflow.runs = db.workflow.runs
  activeClaims : db'.workflow.activeClaims = db.workflow.activeClaims
  generated : db.generated ≤ db'.generated
  old : ∀ row ∈ db.workflow.steps, row ∈ db'.workflow.steps
  only : ∀ row ∈ db'.workflow.steps, row ∈ db.workflow.steps ∨
    ∃ step ∈ requested, NewRow workflowRunId organizationId count db db' step row
  each : ∀ step ∈ requested, ∃ row ∈ db'.workflow.steps,
    NewRow workflowRunId organizationId count db db' step row
  key : KeysUnique db'.workflow.steps
  dependencies : db'.workflow.dependencies.rows = db.workflow.dependencies.rows ++
    requested.flatMap (edgesOf db'.workflow workflowRunId)
  known : ∀ step ∈ requested, ∀ dependency ∈ step.dependencies,
    db'.workflow.HasKey workflowRunId dependency.prerequisiteStepKey

/-- The counters of a step are those of its dependencies. -/
structure ExactCounters (tables : WorkflowTables) (workflowRunId : ℕ)
    (outcome : ℕ → Option Bool) (step : WorkflowStepEnqueue) (counters : ℤ × ℤ) : Prop where
  pending : counters.1 = step.dependencies.countP fun dependency =>
    (outcome (tables.idOfKey workflowRunId dependency.prerequisiteStepKey)).isNone
  unsatisfied : counters.2 = step.dependencies.countP fun dependency =>
    decide (dependency.effectiveReleaseMode = .onSuccess) &&
      outcome (tables.idOfKey workflowRunId dependency.prerequisiteStepKey) == some false

variable {db mid db' : Database}
variable {row : StepRow} {edge : DependencyRow}

theorem InsertsSteps.writes (h : InsertsSteps runId org count requested db mid)
    (huniq : KeysUnique db.workflow.steps)
    (hok : insertWorkflowStepDependencies context runId requested mid = .ok db') :
    WritesSteps runId org count requested db db' := by
  obtain ⟨deps, rfl, hrows, hknown⟩ := insertWorkflowStepDependencies_eq_ok hok
  have hold : mid.workflow.dependencies = db.workflow.dependencies :=
    congrArg (·.workflow.dependencies) h.frame
  exact ⟨congrArg (·.clock) h.frame, congrArg (·.queue) h.frame,
    congrArg (·.workflow.runs) h.frame, congrArg (·.workflow.activeClaims) h.frame, h.generated,
    h.old, h.only, h.each, h.key huniq, hold ▸ hrows, hknown⟩

theorem InsertsSteps.mutations (h : InsertsSteps runId org count requested db mid)
    (hok : insertWorkflowStepDependencies context runId requested mid = .ok db') :
    db'.workflow.mutations = db.workflow.mutations := by
  obtain ⟨deps, rfl, _⟩ := insertWorkflowStepDependencies_eq_ok hok
  exact congrArg (·.workflow.mutations) h.frame

section

variable (h : NewRow runId org count db db' step row)
include h

theorem NewRow.stepKey : row.stepKey = step.stepKey := by
  obtain ⟨⟨_, _, hnew⟩, _⟩ := h
  obtain ⟨_, hfor⟩ := hnew.isFor
  exact hfor.stepKey

theorem NewRow.run : row.workflowRunId = runId := by
  obtain ⟨⟨_, _, hnew⟩, _⟩ := h
  exact hnew.run

theorem NewRow.id_ne {old : StepRow} (hdrawn : AllDrawn db) (hold : old ∈ db.workflow.steps) :
    old.id ≠ row.id := by
  intro hid
  exact h.2.1 (hid ▸ hdrawn.step old hold)

/-- A new row has not ended. -/
theorem NewRow.outcome (hdrawn : AllDrawn db) : stepOutcome db.workflow.steps [] row.id = none := by
  have hget : db.workflow.steps.get? row.id = none :=
    get?_eq_none.mpr fun old hold => h.id_ne hdrawn hold
  simp [stepOutcome, hget]

end

section

variable (h : WritesSteps runId org count requested db db')
include h

/-- The row of a requested step has the identifier that its key names. -/
theorem WritesSteps.idOfKey_new (hrow : row ∈ db'.workflow.steps)
    (hnew : NewRow runId org count db db' step row) :
    db'.workflow.idOfKey runId step.stepKey = row.id := by
  rw [← hnew.stepKey]
  exact idOfKey_eq h.key hrow hnew.run

/-- The ends of a new dependency. -/
theorem WritesSteps.edge_ends (hstep : step ∈ requested)
    (hedge : edge ∈ edgesOf db'.workflow runId step) :
    edge.workflowRunId = runId ∧
      (∃ row ∈ db'.workflow.steps, row.workflowRunId = runId ∧
        row.id = edge.prerequisiteStepId ∧
        ∃ dep ∈ step.dependencies, row.stepKey = dep.prerequisiteStepKey) ∧
      ∃ row ∈ db'.workflow.steps, NewRow runId org count db db' step row ∧
        row.id = edge.dependentStepId := by
  obtain ⟨dep, hdep, rfl⟩ := mem_map.mp hedge
  obtain ⟨source, hsrc, hrun, hkey⟩ := h.known step hstep dep hdep
  obtain ⟨row, hrow, hnew⟩ := h.each step hstep
  refine ⟨rfl, ⟨source, hsrc, hrun, ?_, dep, hdep, hkey⟩, row, hrow, hnew,
    (h.idOfKey_new hrow hnew).symm⟩
  change source.id = db'.workflow.idOfKey runId dep.prerequisiteStepKey
  rw [← hkey]
  exact (idOfKey_eq h.key hsrc hrun).symm

/-- New steps have not ended, so they count like steps that are not there. -/
theorem WritesSteps.outcome :
    stepOutcome db'.workflow.steps [] = stepOutcome db.workflow.steps [] := by
  funext id
  cases hget : db.workflow.steps.get? id with
  | some row =>
    obtain ⟨hrow, hid⟩ := get?_eq_some.mp hget
    simp only [stepOutcome, hget, get?_eq_some.mpr ⟨h.old row hrow, hid⟩]
  | none =>
    cases hget' : db'.workflow.steps.get? id with
    | none => simp only [stepOutcome, hget, hget']
    | some row =>
      obtain ⟨hrow, hid⟩ := get?_eq_some.mp hget'
      rcases h.only row hrow with hold | ⟨_, _, ⟨_, _, hnew⟩, _⟩
      · exact absurd hid (get?_eq_none.mp hget row hold)
      · simp [stepOutcome, hget, hget', hnew.status, WorkflowStepStatus.isTerminal]

section

variable (hdrawn : AllDrawn db) (hgraph : Graph db.workflow)
include hdrawn hgraph

/-- Numbers for the keys of the requested steps, growing along their dependencies, extend the
order of the graph. -/
theorem WritesSteps.ranked (horder : Rankable requested) :
    ∃ rank : ℕ → ℕ, ∀ edge ∈ db'.workflow.dependencies,
      rank edge.prerequisiteStepId < rank edge.dependentStepId := by
  classical
  obtain ⟨rank, hrank⟩ := hgraph.ranked
  obtain ⟨keyRank, hkeyRank⟩ := horder
  have hbound : ∀ step ∈ db.workflow.steps,
      rank step.id ≤ (db.workflow.steps.rows.map fun step => rank step.id).sum :=
    fun step hstep => le_sum_of_mem (mem_map_of_mem hstep)
  generalize (db.workflow.steps.rows.map fun step => rank step.id).sum = bound at hbound
  let rank' : ℕ → ℕ := fun id =>
    if db.Drawn id then rank id
    else bound + 1 + ((db'.workflow.steps.get? id).map fun row => keyRank row.stepKey).getD 0
  have hold : ∀ step ∈ db.workflow.steps, rank' step.id = rank step.id :=
    fun step hstep => if_pos (hdrawn.step step hstep)
  have hnew : ∀ step row, row ∈ db'.workflow.steps →
      NewRow runId org count db db' step row →
      rank' row.id = bound + 1 + keyRank step.stepKey := by
    intro step row hrow hmade
    have hget : db'.workflow.steps.get? row.id = some row := get?_of_mem hrow
    simp only [rank']
    rw [if_neg hmade.2.1, hget, Option.map_some, Option.getD_some, hmade.stepKey]
  refine ⟨rank', fun edge hedge => ?_⟩
  rw [← mem_rows, h.dependencies, mem_append] at hedge
  rcases hedge with hedge | hedge
  · obtain ⟨source, hsrc, hsrcId, _⟩ := hgraph.prerequisite edge hedge
    obtain ⟨target, htgt, htgtId, _⟩ := hgraph.dependent edge hedge
    rw [← hsrcId, ← htgtId, hold source hsrc, hold target htgt, hsrcId, htgtId]
    exact hrank edge hedge
  · obtain ⟨step, hstep, hedge⟩ := mem_flatMap.mp hedge
    obtain ⟨_, ⟨source, hsrc, _, hsrcId, dep, hdep, hkey⟩,
      target, htgt, hmade, htgtId⟩ := h.edge_ends hstep hedge
    rw [← hsrcId, ← htgtId, hnew step target htgt hmade]
    rcases h.only source hsrc with hsrcOld | ⟨step', hstep', hmade'⟩
    · have := hbound source hsrcOld
      rw [hold source hsrcOld]
      omega
    · have hlt := hkeyRank step hstep dep hdep
        (hkey ▸ hmade'.stepKey ▸ mem_map_of_mem hstep')
      rw [hnew step' source hsrc hmade', ← hmade'.stepKey, hkey]
      omega

theorem WritesSteps.graph (hrun : ∃ run ∈ db.workflow.runs, run.id = runId)
    (horder : Rankable requested) :
    Graph db'.workflow where
  run := by
    rw [h.runs]
    intro row hrow
    rcases h.only row hrow with hold | ⟨_, _, hnew⟩
    · exact hgraph.run row hold
    · exact hnew.run ▸ hrun
  key := h.key
  prerequisite := by
    intro edge hedge
    rw [← mem_rows, h.dependencies, mem_append] at hedge
    rcases hedge with hedge | hedge
    · obtain ⟨row, hrow, hends⟩ := hgraph.prerequisite edge hedge
      exact ⟨row, h.old row hrow, hends⟩
    · obtain ⟨step, hstep, hedge⟩ := mem_flatMap.mp hedge
      obtain ⟨hedgeRun, ⟨row, hrow, hrowRun, hid, _⟩, _⟩ := h.edge_ends hstep hedge
      exact ⟨row, hrow, hid, hrowRun.trans hedgeRun.symm⟩
  dependent := by
    intro edge hedge
    rw [← mem_rows, h.dependencies, mem_append] at hedge
    rcases hedge with hedge | hedge
    · obtain ⟨row, hrow, hends⟩ := hgraph.dependent edge hedge
      exact ⟨row, h.old row hrow, hends⟩
    · obtain ⟨step, hstep, hedge⟩ := mem_flatMap.mp hedge
      obtain ⟨hedgeRun, _, row, hrow, hnew, hid⟩ := h.edge_ends hstep hedge
      exact ⟨row, hrow, hid, hnew.run.trans hedgeRun.symm⟩
  ranked := h.ranked hdrawn hgraph horder

/-- Only the dependencies of a requested step lead to its row. -/
theorem WritesSteps.countP_edges {p : DependencyRow → Bool}
    (hnodup : (requested.map WorkflowStepEnqueue.stepKey).Nodup) (hstep : step ∈ requested)
    (hrow : row ∈ db'.workflow.steps) (hnew : NewRow runId org count db db' step row)
    (hp : ∀ edge, p edge = true → edge.dependentStepId = row.id) :
    db'.workflow.dependencies.rows.countP p =
      step.dependencies.countP (p ∘ edgeOf db'.workflow runId step.stepKey) := by
  have hzero : db.workflow.dependencies.rows.countP p = 0 := by
    refine countP_eq_zero.mpr fun edge hedge hedgeP => ?_
    obtain ⟨target, htgt, hid, _⟩ := hgraph.dependent edge hedge
    exact hnew.id_ne hdrawn htgt (hid.trans (hp edge hedgeP))
  rw [h.dependencies, countP_append, hzero, Nat.zero_add,
    countP_flatMap_of_unique (List.Nodup.of_map _ hnodup) hstep, edgesOf, countP_map]
  intro step' hstep' hne edge hedge
  obtain ⟨_, _, target, htgt, hmade, hid⟩ := h.edge_ends hstep' hedge
  rw [Bool.eq_false_iff]
  intro hedgeP
  have hsame : target = row := eq_of_key_eq htgt hrow (hid.trans (hp edge hedgeP))
  refine hne (inj_on_of_nodup_map hnodup hstep' hstep ?_)
  rw [← hmade.stepKey, ← hnew.stepKey, hsame]

/-- The counters of new rows count their dependencies. -/
theorem WritesSteps.counted_new (hnodup : (requested.map WorkflowStepEnqueue.stepKey).Nodup)
    (hcount : ∀ step ∈ requested, ∀ counters, count step = .ok counters →
      ExactCounters db'.workflow runId (stepOutcome db.workflow.steps []) step counters)
    (hstep : step ∈ requested) (hrow : row ∈ db'.workflow.steps)
    (hnew : NewRow runId org count db db' step row) :
    row.Counted db'.workflow.dependencies.rows (stepOutcome db'.workflow.steps []) := by
  have hid := h.idOfKey_new hrow hnew
  obtain ⟨⟨counters, hcounters, hmade⟩, _⟩ := id hnew
  obtain ⟨defaults, hfor⟩ := hmade.isFor
  have hexact := hcount step hstep counters hcounters
  rw [h.outcome]
  refine ⟨?_, ?_, ?_⟩
  · rw [hmade.pending, hexact.pending, pendingCount,
      h.countP_edges hdrawn hgraph hnodup hstep hrow hnew (by simp +contextual)]
    simp [edgeOf, hid, Function.comp_def]
  · rw [hmade.unsatisfied, hexact.unsatisfied, unsatisfiedCount,
      h.countP_edges hdrawn hgraph hnodup hstep hrow hnew (by simp +contextual)]
    simp [edgeOf, hid, Function.comp_def, DependencyRow.isStrict]
  · have htotal : row.dependencyCountTotal = step.dependencies.length :=
      (congrArg StepRow.dependencyCountTotal hfor.declared : row.declared.dependencyCountTotal = _)
    rw [htotal, totalCount,
      h.countP_edges hdrawn hgraph hnodup hstep hrow hnew (by simp)]
    simp [edgeOf, hid, Function.comp_def]

end

/-- New dependencies do not lead to old steps. -/
theorem WritesSteps.counted_old (hflow : Flow [] [] db) (hrow : row ∈ db.workflow.steps) :
    row.Counted db'.workflow.dependencies.rows (stepOutcome db'.workflow.steps []) := by
  have hzero : ∀ p : DependencyRow → Bool, (∀ edge, p edge = true → edge.dependentStepId = row.id) →
      db'.workflow.dependencies.rows.countP p = db.workflow.dependencies.rows.countP p := by
    intro p hp
    rw [h.dependencies, countP_append, Nat.add_eq_left, countP_eq_zero]
    intro edge hedge hedgeP
    obtain ⟨step, hstep, hedge⟩ := mem_flatMap.mp hedge
    obtain ⟨_, _, target, _, hmade, hid⟩ := h.edge_ends hstep hedge
    exact hmade.id_ne hflow.drawn hrow ((hp edge hedgeP).symm.trans hid.symm)
  have hcounted := hflow.counted row hrow
  rw [h.outcome]
  refine ⟨?_, ?_, ?_⟩
  · rw [hcounted.pending, pendingCount, pendingCount, hzero _ (by simp +contextual)]
  · rw [hcounted.unsatisfied, unsatisfiedCount, unsatisfiedCount, hzero _ (by simp +contextual)]
  · rw [hcounted.total, totalCount, totalCount, hzero _ (by simp)]

end

/-- The invariant after the rows of a request were inserted. -/
theorem Flow.writeSteps {awaited : List ℕ} (hflow : Flow [] [] db)
    (h : WritesSteps runId org count requested db db')
    (hnodup : (requested.map WorkflowStepEnqueue.stepKey).Nodup) (horder : Rankable requested)
    (hcount : ∀ step ∈ requested, ∀ counters, count step = .ok counters →
      ExactCounters db'.workflow runId (stepOutcome db.workflow.steps []) step counters)
    (hrun : db.workflow.IsReleasable runId)
    (hawaited : ∀ step ∈ requested, ∀ row ∈ db'.workflow.steps,
      NewRow runId org count db db' step row → row.dependencyCountPending = 0 → row.id ∈ awaited) :
    Flow [] awaited db' := by
  obtain ⟨run, hrunMem, hrunId, hrunStat⟩ := hrun
  have hpend : ∀ row ∈ db'.workflow.steps, 0 ≤ row.dependencyCountPending := by
    intro row hrow
    rcases h.only row hrow with hold | ⟨step, hstep, hnew⟩
    · rw [(h.counted_old hflow hold).pending]
      exact Int.natCast_nonneg _
    · rw [(h.counted_new hflow.drawn hflow.graph hnodup hcount hstep hrow hnew).pending]
      exact Int.natCast_nonneg _
  refine ⟨h.graph hflow.drawn hflow.graph ⟨run, hrunMem, hrunId⟩ horder, ?_, ?_, ?_, ?_, ⟨?_, ?_⟩,
    ⟨?_, ?_, ?_⟩⟩
  · intro row hrow
    rcases h.only row hrow with hold | ⟨step, hstep, hnew⟩
    · exact h.counted_old hflow hold
    · exact h.counted_new hflow.drawn hflow.graph hnodup hcount hstep hrow hnew
  · intro row hrow
    rcases h.only row hrow with hold | ⟨_, _, ⟨_, _, hnew⟩, _⟩
    · exact hflow.shaped row hold
    · obtain ⟨_, hfor⟩ := hnew.isFor
      exact hfor.shaped
  · intro row hrow
    rw [WorkflowTables.IsCanceled, h.runs]
    rcases h.only row hrow with hold | ⟨step, hstep, hmade⟩
    · have hplaced := hflow.placed row hold
      exact ⟨hplaced.released, hplaced.unreleased, hplaced.external, hplaced.job,
        fun hcanc hblk => (hplaced.waits hcanc hblk).imp_right (absurd · not_mem_nil),
        hplaced.refused⟩
    · obtain ⟨_, _, hnew⟩ := hmade.1
      have hrel : ¬ row.releasedAt.isSome := by simp [hnew.releasedAt]
      refine ⟨fun hsome => absurd hsome hrel, fun _ => ⟨.inl hnew.status, hnew.jobId⟩,
        fun _ => ⟨hnew.jobId, ?_, ?_⟩, fun _ => ?_, fun _ _ => ?_, fun _ _ hcanc => ?_⟩
      · simp [hnew.status]
      · simp [hnew.status]
      · simp [hnew.status]
      · have hge := hpend row hrow
        rcases hge.lt_or_eq with hlt | heq
        · exact .inl hlt
        · exact .inr (hawaited step hstep row hrow hmade heq.symm)
      · rw [hnew.status] at hcanc
        cases hcanc
  · intro row hrow
    rw [OpenRun, h.runs]
    rcases h.only row hrow with hold | ⟨_, _, hnew⟩
    · exact hflow.openRun row hold
    · intro _ other hother hid
      have hsame : other = run :=
        eq_of_key_eq hother hrunMem (hid.trans (hnew.run.trans hrunId.symm))
      rw [hsame]
      rcases hrunStat with hstat | hstat <;> rw [hstat] <;> simp
  · rw [h.queue]
    intro row hrow jobId hjob
    rcases h.only row hrow with hold | ⟨_, _, ⟨_, _, hnew⟩, _⟩
    · exact hflow.linked.paired row hold jobId hjob
    · rw [hnew.jobId] at hjob
      cases hjob
  · intro a ha b hb jobId hja hjb
    rcases h.only a ha with holdA | ⟨_, _, ⟨_, _, hnew⟩, _⟩
    · rcases h.only b hb with holdB | ⟨_, _, ⟨_, _, hnew⟩, _⟩
      · exact hflow.linked.unshared a holdA b holdB jobId hja hjb
      · rw [hnew.jobId] at hjb
        cases hjb
    · rw [hnew.jobId] at hja
      cases hja
  · rw [h.queue]
    exact fun job hjob => (hflow.drawn.job job hjob).mono h.generated
  · intro row hrow
    rcases h.only row hrow with hold | ⟨_, _, hnew⟩
    · exact (hflow.drawn.step row hold).mono h.generated
    · exact hnew.2.2
  · rw [h.runs]
    exact fun other hother => (hflow.drawn.run other hother).mono h.generated

end Written

end Batter.Runledger.Postgres
