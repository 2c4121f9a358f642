import Batter.Runledger.Postgres.AppendIdentity
import Batter.Runledger.Postgres.Confluence

/-!
# Recovery rebuilds the source

The canonical requests of a run and the rows of its steps are two accounts of one
submission.  Recovery reads both and never finds a difference: every snapshot is
decoded, every step finds its row, and the graph that grew by appends passes the
validation of a single request.  What it builds has the steps of the source with
their resolved settings and their edges.
-/

namespace Batter.Runledger.Postgres

open RustStd List

variable {steps : List WorkflowStepEnqueue} {defaults : Option DefinitionRow} {org : Option ℕ}
variable {run : RunRow} {row : StepRow} {step : WorkflowStepEnqueue} {tables : WorkflowTables}
variable {runId : ℕ}

section Dependencies

/-- The dependencies of a recovered step: sorted, with their effective modes. -/
def recoveredDependencies (dependencies : List WorkflowStepDependencySpec) :
    List WorkflowStepDependencySpec :=
  (sortDependencies (dependencies.map canonicalWorkflowDependency)).map fun dependency =>
    ⟨dependency.prerequisiteStepKey,
      WorkflowDependencyReleaseMode.fromDbValue dependency.releaseMode⟩

variable {stepKey : String} {dependencies : List WorkflowStepDependencySpec}

theorem recoveredDependencies_perm (dependencies : List WorkflowStepDependencySpec) :
    (recoveredDependencies dependencies).Perm (dependencies.map fun dep =>
      ⟨dep.prerequisiteStepKey, some dep.effectiveReleaseMode⟩) := by
  refine ((orderedBy_perm _ _).map _).trans (List.Perm.of_eq ?_)
  rw [map_map]
  refine map_congr_left fun dep _ => ?_
  simp [canonicalWorkflowDependency]

theorem mem_recoveredDependencies {dep : WorkflowStepDependencySpec} :
    dep ∈ recoveredDependencies dependencies ↔ ∃ source ∈ dependencies,
      ⟨source.prerequisiteStepKey, some source.effectiveReleaseMode⟩ = dep := by
  rw [(recoveredDependencies_perm dependencies).mem_iff, mem_map]

theorem prerequisiteKeys_recovered (dependencies : List WorkflowStepDependencySpec) :
    (prerequisiteKeys (recoveredDependencies dependencies)).Perm
      (prerequisiteKeys dependencies) := by
  refine ((recoveredDependencies_perm dependencies).map _).trans (.of_eq ?_)
  rw [map_map]
  rfl

/-- Valid prerequisites stay valid in another order. -/
theorem validPrerequisites_recovered
    (h : ValidPrerequisites stepKey (prerequisiteKeys dependencies)) :
    ValidPrerequisites stepKey (prerequisiteKeys (recoveredDependencies dependencies)) := by
  have hperm := prerequisiteKeys_recovered dependencies
  exact ⟨fun key hkey => h.notBlank key (hperm.mem_iff.mp hkey),
    fun hself => h.notSelf (hperm.mem_iff.mp hself), hperm.nodup_iff.mpr h.nodup⟩

theorem validateRecoveryDependencies_eq
    (stepKey : String) (dependencies : List WorkflowStepDependencySpec) :
    (sortDependencies (dependencies.map canonicalWorkflowDependency)).mapM
        (validateRecoveryDependency stepKey) =
      .ok (recoveredDependencies dependencies) := by
  refine mapM_eq_ok.mpr (forall₂_map_right_iff.mpr (forall₂_same.mpr ?_))
  intro canonical hcanon
  rw [sortDependencies, mem_orderedBy, mem_map] at hcanon
  obtain ⟨dep, _, rfl⟩ := hcanon
  simp [validateRecoveryDependency, canonicalWorkflowDependency, require, bind, Except.bind, pure,
    Except.pure]

end Dependencies

/-- The step that repeats a submitted step with the payload and the settings of its row. -/
def recoveredStep (organizationId : Option ℕ) (step : WorkflowStepEnqueue) (row : StepRow) :
    WorkflowStepEnqueue where
  stepKey := step.stepKey
  execution :=
    match step.execution with
    | .job execution => .job ⟨execution.jobType, row.priority, row.maxAttempts,
        row.timeoutSeconds, some (execution.stage.getD .queued),
        execution.allowHandlerContinuation, execution.executionResourceKey⟩
    | .external => .external
  organizationId := workflowStepEffectiveOrganizationId organizationId step
  payload := row.payload
  dependencies := recoveredDependencies step.dependencies

attribute [local simp] WorkflowStepEnqueue.shape WorkflowStepEnqueue.executionKind
  WorkflowStepEnqueue.jobType WorkflowStepEnqueue.priority WorkflowStepEnqueue.maxAttempts
  WorkflowStepEnqueue.timeoutSeconds WorkflowStepEnqueue.stage
  WorkflowStepEnqueue.allowsHandlerContinuation WorkflowStepEnqueue.executionResourceKey
  WorkflowStepEnqueue.jobSetting workflowStepEffectiveStage recoveredStep

section Step

variable {execution : WorkflowJobStepExecution}

section

variable (h : row.IsFor org step defaults)
include h

/-- The columns that come from the step alone. -/
theorem StepRow.IsFor.columns :
    row.executionKind = step.executionKind ∧ row.jobType = step.jobType ∧
      row.stage = workflowStepEffectiveStage step ∧
      row.allowHandlerContinuation = step.allowsHandlerContinuation ∧
      row.executionResourceKey = step.executionResourceKey :=
  ⟨congrArg StepRow.executionKind h.declared, congrArg StepRow.jobType h.declared,
    congrArg StepRow.stage h.declared, congrArg StepRow.allowHandlerContinuation h.declared,
    congrArg StepRow.executionResourceKey h.declared⟩

/-- The settings of a job step come from the request or from a definition. -/
theorem StepRow.IsFor.settings (hjob : step.execution = .job execution) : ∃ defn : DefinitionRow,
      row.priority = some (execution.priority.getD defn.defaultPriority) ∧
      row.maxAttempts = some (execution.maxAttempts.getD defn.maxAttempts) ∧
      row.timeoutSeconds = some (execution.timeoutSeconds.getD defn.defaultTimeoutSeconds) := by
  have hdefined := h.defined
  rw [WorkflowStepEnqueue.jobType, WorkflowStepEnqueue.jobSetting, hjob] at hdefined
  obtain ⟨defn, rfl⟩ := Option.isSome_iff_exists.mp hdefined
  have hprio : row.priority = some (step.priority.getD defn.defaultPriority) :=
    congrArg StepRow.priority h.declared
  have hatts : row.maxAttempts = some (step.maxAttempts.getD defn.maxAttempts) :=
    congrArg StepRow.maxAttempts h.declared
  have htimeout : row.timeoutSeconds =
      some (step.timeoutSeconds.getD defn.defaultTimeoutSeconds) :=
    congrArg StepRow.timeoutSeconds h.declared
  refine ⟨defn, ?_⟩
  simp [hprio, hatts, htimeout, hjob]

/-- An external step has no settings. -/
theorem StepRow.IsFor.no_settings (hext : step.execution = .external) :
    row.priority = none ∧ row.maxAttempts = none ∧ row.timeoutSeconds = none := by
  have hdefined := h.defined
  rw [WorkflowStepEnqueue.jobType, WorkflowStepEnqueue.jobSetting, hext,
    Option.isSome_none, Option.isSome_eq_false_iff, Option.isNone_iff_eq_none] at hdefined
  subst hdefined
  exact ⟨congrArg StepRow.priority h.declared, congrArg StepRow.maxAttempts h.declared,
    congrArg StepRow.timeoutSeconds h.declared⟩

end

/-- The settings that a canonical job step names. -/
theorem canonicalWorkflowStep_settings (org : Option ℕ) (hjob : step.execution = .job execution) :
    (canonicalWorkflowStep org step).priority = execution.priority ∧
      (canonicalWorkflowStep org step).maxAttempts = execution.maxAttempts ∧
      (canonicalWorkflowStep org step).timeoutSeconds = execution.timeoutSeconds ∧
      (canonicalWorkflowStep org step).jobType = some execution.jobType := by
  simp [canonicalWorkflowStep, hjob]

/-- An external step names none. -/
theorem canonicalWorkflowStep_no_settings (org : Option ℕ) (hext : step.execution = .external) :
    (canonicalWorkflowStep org step).priority = none ∧
      (canonicalWorkflowStep org step).maxAttempts = none ∧
      (canonicalWorkflowStep org step).timeoutSeconds = none := by
  simp [canonicalWorkflowStep, hext]

/-- The settings that a request names are those of the row, so they fit into a column. -/
theorem StepRow.IsFor.inRange (h : row.IsFor org step defaults) :
    (canonicalWorkflowStep org step).InRange := by
  obtain ⟨hprio, hatts, htimeout, _⟩ := StepRow.checkConstraints_eq_ok.mp h.constraints
  have hfits : ∀ {value : ℤ}, isI32 value = true → -2 ^ 31 ≤ value ∧ value ≤ i32Max := by
    intro value hval
    simpa [isI32] using hval
  cases hexec : step.execution with
  | external =>
    obtain ⟨hp, ha, ht⟩ := canonicalWorkflowStep_no_settings org hexec
    constructor <;> intro value hval
    · rw [hp] at hval
      cases hval
    · rw [ha] at hval
      cases hval
    · rw [ht] at hval
      cases hval
  | job execution =>
    obtain ⟨hp, ha, ht, _⟩ := canonicalWorkflowStep_settings org hexec
    obtain ⟨defn, hp', ha', ht'⟩ := h.settings hexec
    constructor <;> intro value hval
    · rw [← hp, hval] at hp'
      exact hfits (hprio value hp')
    · rw [← ha, hval] at ha'
      exact hfits (hatts value ha').1
    · rw [← ht, hval] at ht'
      exact hfits (htimeout value ht').1

/-- A setting that the request leaves open, or names as the row has it, is resolved. -/
theorem resolvedSourceStepSetting_eq
    (canonical : CanonicalWorkflowStep) (field : String) (requested : Option ℤ) (default : ℤ) :
    resolvedSourceStepSetting canonical field requested (some (requested.getD default)) =
      .ok (requested.getD default) := by
  cases requested <;>
    simp [resolvedSourceStepSetting, require, rejectIf, bind, Except.bind, pure, Except.pure]

/-- The kind that recovery finds for a step. -/
def recoveredKind (step : WorkflowStepEnqueue) (row : StepRow) : ValidatedRecoveryStepKind :=
  match step.execution with
  | .job execution => .job execution.jobType (row.priority.getD 0) (row.maxAttempts.getD 0)
      (row.timeoutSeconds.getD 0)
  | .external => .external

theorem validateRecoveryStepKind_eq (h : row.IsFor org step defaults) :
    validateRecoveryStepKind (canonicalWorkflowStep org step) row step.executionKind =
      .ok (recoveredKind step row) := by
  cases hexec : step.execution with
  | external =>
    obtain ⟨hp, ha, ht⟩ := canonicalWorkflowStep_no_settings org hexec
    obtain ⟨hp', ha', ht'⟩ := h.no_settings hexec
    simp only [validateRecoveryStepKind, WorkflowStepEnqueue.executionKind, recoveredKind,
      hexec, hp, ha, ht, hp', ha', ht']
    rfl
  | job execution =>
    obtain ⟨hp, ha, ht, htype⟩ := canonicalWorkflowStep_settings org hexec
    obtain ⟨defn, hp', ha', ht'⟩ := h.settings hexec
    simp only [validateRecoveryStepKind, WorkflowStepEnqueue.executionKind, recoveredKind,
      hexec, hp, ha, ht, htype, hp', ha', ht', resolvedSourceStepSetting_eq]
    rfl

theorem validateRecoveryStage_eq (org : Option ℕ) (step : WorkflowStepEnqueue) :
    validateRecoveryStage (canonicalWorkflowStep org step) =
      .ok (workflowStepEffectiveStage step) := by
  cases hstage : workflowStepEffectiveStage step <;>
    simp [validateRecoveryStage, canonicalWorkflowStep, -workflowStepEffectiveStage, hstage,
      require, bind, Except.bind, pure, Except.pure]

section

variable (h : row.IsFor org step defaults)
include h

/-- A submitted step agrees with its row. -/
theorem validateRecoveryStep_eq : validateRecoveryStep ⟨canonicalWorkflowStep org step, row⟩ =
      .ok { stepKey := step.stepKey
            payload := row.payload
            organizationId := workflowStepEffectiveOrganizationId org step
            stage := workflowStepEffectiveStage step
            allowHandlerContinuation := step.allowsHandlerContinuation
            executionResourceKey := step.executionResourceKey
            dependencies := recoveredDependencies step.dependencies
            kind := recoveredKind step row } := by
  obtain ⟨hkind, _, _, hcont, hres⟩ := h.columns
  simp only [validateRecoveryStep, bind_eq_ok, exists_unit, rejectIf_eq_ok, require_eq_ok,
    pure_eq_ok, decide_eq_false_iff_not, not_not, bne_eq_false_iff_eq]
  exact ⟨step.executionKind, WorkflowStepExecutionKind.fromDbValue_asDbValue _, hkind,
    hcont, hres, _, validateRecoveryStepKind_eq h, _, validateRecoveryStage_eq _ _,
    _, validateRecoveryDependencies_eq _ _, rfl⟩

/-- A recovered step passes the checks of a single step. -/
theorem StepRow.IsFor.validShape_recovered (hshape : ValidShape step.shape) :
    ValidShape (recoveredStep org step row).shape := by
  obtain ⟨_, hatts, htimeout, _⟩ := StepRow.checkConstraints_eq_ok.mp h.constraints
  cases hexec : step.execution with
  | external =>
    refine ⟨hshape.stepKey, fun hjob => ?_, fun _ => ?_⟩
    · simp [hexec] at hjob
    · simp [hexec]
  | job execution =>
    obtain ⟨⟨jobType, htype, hblank⟩, _, _, hkey⟩ := hshape.job (by simp [hexec])
    have htype' : jobType = execution.jobType := by
      simpa [hexec] using htype.symm
    subst htype'
    refine ⟨hshape.stepKey, fun _ => ⟨⟨execution.jobType, ?_, hblank⟩, ?_, ?_, ?_⟩,
      fun hext => ?_⟩
    · simp [hexec]
    · intro value hval
      have hstored : row.maxAttempts = some value := by simpa [hexec] using hval
      exact (hatts value hstored).2
    · intro value hval
      have hstored : row.timeoutSeconds = some value := by simpa [hexec] using hval
      exact (htimeout value hstored).2
    · intro key hval
      exact hkey key (by simpa [hexec] using hval)
    · simp [hexec] at hext

/-- Recovery repeats a submitted step with the payload and the settings of its row. -/
theorem recoverStep_eq (hshape : ValidShape step.shape)
    (hpres : ValidPrerequisites step.stepKey (prerequisiteKeys step.dependencies)) :
    recoverStep ⟨canonicalWorkflowStep org step, row⟩ = .ok (recoveredStep org step row) := by
  have hvalid := h.validShape_recovered hshape
  have hdeps := validPrerequisites_recovered hpres
  rw [recoverStep, validateRecoveryStep_eq h]
  change buildRecoveryStepEnqueue _ = _
  rw [buildRecoveryStepEnqueue, mapError_eq_ok]
  cases hexec : step.execution with
  | external =>
    have hstage : workflowStepEffectiveStage step = none := by simp [hexec]
    have hres : step.executionResourceKey = none := by simp [hexec]
    have hcont : step.allowsHandlerContinuation = false := by simp [hexec]
    simp only [recoveredStep, hexec] at hvalid ⊢
    simp only [ValidatedRecoveryStep.baseBuilder, recoveredKind, hexec, hstage, hres,
      hcont, WorkflowStepEnqueueBuilder.newExternal, Option.or_none, Bool.or_false,
      nil_append]
    exact WorkflowStepEnqueueBuilder.tryBuild_eq_ok hvalid hdeps rfl
  | job execution =>
    obtain ⟨defn, hprio, hatts, htimeout⟩ := h.settings hexec
    have hstage : workflowStepEffectiveStage step = some (execution.stage.getD .queued) := by
      simp [hexec]
    have hres : step.executionResourceKey = execution.executionResourceKey := by
      simp [hexec]
    have hcont : step.allowsHandlerContinuation = execution.allowHandlerContinuation := by
      simp [hexec]
    simp only [recoveredStep, hexec, hprio, hatts, htimeout] at hvalid ⊢
    simp only [ValidatedRecoveryStep.baseBuilder, recoveredKind, hexec, hstage, hres,
      hcont, hprio, hatts, htimeout, WorkflowStepEnqueueBuilder.new,
      Option.or_none, Bool.or_false, nil_append, Option.getD_some, Option.some_or]
    exact WorkflowStepEnqueueBuilder.tryBuild_eq_ok hvalid hdeps rfl

end

end Step

theorem canonicalWorkflowSteps_perm (org : Option ℕ) (steps : List WorkflowStepEnqueue) :
    (canonicalWorkflowSteps org steps).Perm
      (steps.map (canonicalWorkflowStep org)) :=
  orderedBy_perm _ _

theorem insertRecoveryStep_new
    {stepsByKey : List CanonicalWorkflowStep} {step : CanonicalWorkflowStep}
    (h : step.stepKey ∉ stepsByKey.map CanonicalWorkflowStep.stepKey) :
    insertRecoveryStep stepsByKey step = .ok (stepsByKey ++ [step]) := by
  simp only [insertRecoveryStep, bind_eq_ok, exists_unit, rejectIf_eq_ok, pure_eq_ok, and_true,
    any_eq_false, decide_eq_true_eq]
  intro other hother hkey
  exact h (hkey ▸ mem_map_of_mem hother)

theorem insertSourceStepState_new {stateByKey : List StepRow}
    (h : row.stepKey ∉ stateByKey.map StepRow.stepKey) :
    insertSourceStepState stateByKey row = .ok (stateByKey ++ [row]) := by
  simp only [insertSourceStepState, bind_eq_ok, exists_unit, rejectIf_eq_ok, pure_eq_ok, and_true,
    any_eq_false, decide_eq_true_eq]
  intro other hother hkey
  exact h (hkey ▸ mem_map_of_mem hother)

/-- The steps of the recorded appends are read back and collected. -/
theorem foldlM_insertRecoveryAppend {appends : List AppendWorkflowStepsInput}
    {done : List CanonicalWorkflowStep}
    (hrange : ∀ input ∈ appends, ∀ step ∈ input.steps,
      (canonicalWorkflowStep run.organizationId step).InRange)
    (hnodup : ((done ++ appends.flatMap fun input => canonicalWorkflowSteps run.organizationId
      input.steps).map CanonicalWorkflowStep.stepKey).Nodup) :
    (appends.map (MutationRow.ofAppend run)).foldlM insertRecoveryAppend done =
      .ok (done ++ appends.flatMap fun input =>
        canonicalWorkflowSteps run.organizationId input.steps) := by
  induction appends generalizing done with
  | nil =>
    rw [flatMap_nil, append_nil]
    rfl
  | cons input rest ih =>
    rw [forall_mem_cons] at hrange
    rw [flatMap_cons, ← append_assoc] at hnodup ⊢
    have hhere : ((done ++ canonicalWorkflowSteps run.organizationId input.steps).map
        CanonicalWorkflowStep.stepKey).Nodup := by
      rw [map_append] at hnodup
      exact (nodup_append.mp hnodup).1
    have hread : deserializeRecoveryAppendSnapshot (MutationRow.ofAppend run input).request =
        some (canonicalAppendRequest input.appendWindowStepKey run.organizationId
          input.steps) := by
      refine CanonicalAppendRequest.fromJson_toJson true fun canonical hcanon => ?_
      have hmem := (canonicalWorkflowSteps_perm _ _).mem_iff.mp hcanon
      obtain ⟨step, hstep, rfl⟩ := mem_map.mp hmem
      exact hrange.1 step hstep
    refine bind_eq_ok.mpr ⟨done ++ canonicalWorkflowSteps run.organizationId input.steps, ?_,
      ih hrange.2 hnodup⟩
    simp only [insertRecoveryAppend, bind_eq_ok, exists_unit, rejectIf_eq_ok, require_eq_ok, hread]
    exact ⟨by simp [MutationRow.ofAppend], _, rfl,
      foldlM_collect CanonicalWorkflowStep.stepKey (fun _ _ => insertRecoveryStep_new) hhere⟩

/-- The steps of a run have different keys. -/
theorem nodup_stepsOf (hgraph : Graph tables) (runId : ℕ) :
    ((tables.stepsOf runId).map StepRow.stepKey).Nodup := by
  refine .map_on ?_ (tables.steps.nodup_rows.filter _)
  exact fun row hrow row' hrow' => hgraph.eq_of_stepKey hrow hrow'

/-- The submitted steps of a run with their rows, in the order of their keys. -/
structure Pairs (tables : WorkflowTables) (run : RunRow) (steps : List WorkflowStepEnqueue)
    (pairs : List (WorkflowStepEnqueue × StepRow)) : Prop where
  step : pairs.map Prod.fst = orderedBy WorkflowStepEnqueue.stepKey steps
  row : pairs.map Prod.snd = orderedBy StepRow.stepKey (tables.stepsOf run.id)
  isFor : ∀ pair ∈ pairs, ∃ defaults, pair.2.IsFor run.organizationId pair.1 defaults

theorem Submitted.exists_pairs (h : Submitted tables run.id run.organizationId steps)
    (hgraph : Graph tables) : ∃ pairs, Pairs tables run steps pairs := by
  have hkeys : (orderedBy WorkflowStepEnqueue.stepKey steps).map WorkflowStepEnqueue.stepKey =
      (orderedBy StepRow.stepKey (tables.stepsOf run.id)).map StepRow.stepKey := by
    refine map_orderedBy_eq h.nodup (nodup_stepsOf hgraph run.id) fun key => ?_
    simp only [mem_map]
    constructor
    · rintro ⟨step, hstep, rfl⟩
      obtain ⟨row, hrow, hrun, _, hfor⟩ := h.row step hstep
      exact ⟨row, mem_stepsOf.mpr ⟨hrow, hrun⟩, hfor.stepKey⟩
    · rintro ⟨row, hrow, rfl⟩
      obtain ⟨hmem, hrun⟩ := mem_stepsOf.mp hrow
      exact h.onlyRow row hmem hrun
  have hlen : (orderedBy WorkflowStepEnqueue.stepKey steps).length =
      (orderedBy StepRow.stepKey (tables.stepsOf run.id)).length := by
    simpa using congrArg List.length hkeys
  have hsame : List.Forall₂ (fun step row => WorkflowStepEnqueue.stepKey step = StepRow.stepKey row)
      (orderedBy WorkflowStepEnqueue.stepKey steps)
      (orderedBy StepRow.stepKey (tables.stepsOf run.id)) := by
    rw [← forall₂_eq_eq_eq] at hkeys
    exact forall₂_map_right_iff.mp (forall₂_map_left_iff.mp hkeys)
  refine ⟨_, map_fst_zip hlen.le, map_snd_zip hlen.ge, ?_⟩
  rintro ⟨step, row⟩ hpair
  obtain ⟨hstep, hrow⟩ := of_mem_zip hpair
  obtain ⟨hmem, hrun⟩ := mem_stepsOf.mp (mem_orderedBy.mp hrow)
  obtain ⟨found, hfound, hfoundRun, defaults, hfor⟩ := h.row step (mem_orderedBy.mp hstep)
  have hkey : found.stepKey = row.stepKey := hfor.stepKey.trans (forall₂_zip hsame hpair)
  rw [hgraph.key found hfound row hmem (hfoundRun.trans hrun.symm) hkey] at hfor
  exact ⟨defaults, hfor⟩

theorem pairRecoveryStep_eq {canonical : CanonicalWorkflowStep} (hgraph : Graph tables)
    (hrow : row ∈ tables.stepsOf runId) (hkey : row.stepKey = canonical.stepKey) :
    pairRecoveryStep (tables.stepsOf runId) canonical = .ok ⟨canonical, row⟩ := by
  have hfind : (tables.stepsOf runId).find? (fun row => row.stepKey = canonical.stepKey) =
      some row := by
    cases hfound : (tables.stepsOf runId).find?
        fun row => row.stepKey = canonical.stepKey with
    | none =>
      have hnone := find?_eq_none.mp hfound row hrow
      exact absurd (decide_eq_true hkey) hnone
    | some found =>
      have hfoundKey : found.stepKey = canonical.stepKey := by
        simpa using find?_some hfound
      have hmem := mem_of_find?_eq_some hfound
      rw [hgraph.eq_of_stepKey hmem hrow (hfoundKey.trans hkey.symm)]
  simp only [pairRecoveryStep, hfind]
  rfl

section Rebuild

/-- The steps that recovery reads from the requests of a submission. -/
def Submission.readSteps (submission : Submission) (organizationId : Option ℕ) :
    List CanonicalWorkflowStep :=
  canonicalWorkflowSteps organizationId submission.payload.steps ++
    submission.appends.flatMap fun input => canonicalWorkflowSteps organizationId input.steps

theorem Submission.readSteps_perm (submission : Submission) (org : Option ℕ) :
    (submission.readSteps org).Perm
      (submission.steps.map (canonicalWorkflowStep org)) := by
  rw [Submission.steps, map_append, map_flatMap]
  exact (canonicalWorkflowSteps_perm _ _).append
    (.flatMap_left _ fun _ _ => canonicalWorkflowSteps_perm _ _)

variable {db : Database} {submission : Submission}
variable {pairs : List (WorkflowStepEnqueue × StepRow)}

theorem Pairs.mem (h : Pairs tables run steps pairs) {pair : WorkflowStepEnqueue × StepRow}
    (hpair : pair ∈ pairs) : pair.1 ∈ steps ∧ pair.2 ∈ tables.stepsOf run.id := by
  have hstep : pair.1 ∈ pairs.map Prod.fst := mem_map_of_mem hpair
  have hrow : pair.2 ∈ pairs.map Prod.snd := mem_map_of_mem hpair
  rw [h.step, mem_orderedBy] at hstep
  rw [h.row, mem_orderedBy] at hrow
  exact ⟨hstep, hrow⟩

/-- The keys of the recovered steps are the submitted ones. -/
theorem Pairs.keys (h : Pairs tables run steps pairs) :
    ((pairs.map fun pair => recoveredStep run.organizationId pair.1 pair.2).map
      WorkflowStepEnqueue.stepKey).Perm (steps.map WorkflowStepEnqueue.stepKey) := by
  have hkeys : (pairs.map fun pair => recoveredStep run.organizationId pair.1 pair.2).map
      WorkflowStepEnqueue.stepKey =
      (orderedBy WorkflowStepEnqueue.stepKey steps).map WorkflowStepEnqueue.stepKey := by
    rw [← h.step, map_map, map_map]
    rfl
  rw [hkeys]
  exact (orderedBy_perm _ _).map _

/-- The requests of a submission name each step once. -/
theorem Submission.nodup_readSteps (org : Option ℕ)
    (hnodup : (submission.steps.map WorkflowStepEnqueue.stepKey).Nodup) :
    ((submission.readSteps org).map CanonicalWorkflowStep.stepKey).Nodup := by
  refine ((submission.readSteps_perm org).map _).nodup_iff.mpr ?_
  rw [map_map]
  exact hnodup

/-- Every step of the requests finds its row. -/
theorem Pairs.pairRecoverySteps_eq (h : Pairs tables run submission.steps pairs)
    (hgraph : Graph tables) (hnodup : (submission.steps.map WorkflowStepEnqueue.stepKey).Nodup) :
    pairRecoverySteps (submission.readSteps run.organizationId) (tables.stepsOf run.id) =
      .ok (pairs.map fun pair => ⟨canonicalWorkflowStep run.organizationId pair.1, pair.2⟩) := by
  have hordered : orderedBy CanonicalWorkflowStep.stepKey
      (submission.readSteps run.organizationId) =
      pairs.map fun pair => canonicalWorkflowStep run.organizationId pair.1 := by
    have hmap : (pairs.map fun pair => canonicalWorkflowStep run.organizationId pair.1) =
        (orderedBy WorkflowStepEnqueue.stepKey submission.steps).map
          (canonicalWorkflowStep run.organizationId) := by
      rw [← h.step, map_map]
      rfl
    rw [hmap]
    refine orderedBy_eq (Submission.nodup_readSteps _ hnodup)
      (((orderedBy_perm _ _).map _).trans (submission.readSteps_perm _).symm) ?_
    rw [map_map]
    exact pairwise_orderedBy WorkflowStepEnqueue.stepKey submission.steps
  have hlen : (tables.stepsOf run.id).length =
      (submission.readSteps run.organizationId).length := by
    rw [← (orderedBy_perm CanonicalWorkflowStep.stepKey _).length_eq, hordered, length_map,
      ← (orderedBy_perm StepRow.stepKey (tables.stepsOf run.id)).length_eq, ← h.row,
      length_map]
  simp only [pairRecoverySteps, bind_eq_ok, exists_unit, rejectIf_eq_ok,
    decide_eq_false_iff_not, not_not]
  refine ⟨hlen, ?_⟩
  rw [hordered]
  refine mapM_map_eq fun pair hpair => ?_
  obtain ⟨_, hfor⟩ := h.isFor pair hpair
  exact pairRecoveryStep_eq hgraph (h.mem hpair).2 hfor.stepKey

theorem Provenance.inRange (h : Provenance tables run submission)
    (hstep : step ∈ submission.steps) :
    (canonicalWorkflowStep run.organizationId step).InRange := by
  obtain ⟨_, _, _, _, hfor⟩ := h.submitted.row step hstep
  exact hfor.inRange

/-- The request that created a run is read back. -/
theorem Provenance.deserializeRecoveryEnqueueSnapshot_eq (h : Provenance tables run submission) :
    deserializeRecoveryEnqueueSnapshot run.enqueueRequest =
      some ⟨submission.payload.metadata, submission.payload.activeKey,
        submission.payload.resultStepKey,
        canonicalWorkflowSteps run.organizationId submission.payload.steps⟩ := by
  have horg : run.organizationId = submission.payload.organizationId :=
    congrArg RunRow.organizationId h.declared
  have hreq : run.enqueueRequest = canonicalWorkflowEnqueueRequest submission.payload :=
    congrArg RunRow.enqueueRequest h.declared
  rw [hreq, horg]
  refine deserializeRecoveryEnqueueSnapshot_canonical fun canonical hcanon => ?_
  have hmem := (canonicalWorkflowSteps_perm _ _).mem_iff.mp hcanon
  obtain ⟨step, hstep, rfl⟩ := mem_map.mp hmem
  exact horg ▸ h.inRange (mem_append_left _ hstep)

/-- The requests of a run are read back, and every step finds its row. -/
theorem Provenance.loadRecoveryBlueprint_eq (h : Provenance db.workflow run submission)
    (hgraph : Graph db.workflow) (hpairs : Pairs db.workflow run submission.steps pairs) :
    loadRecoveryBlueprint db run = .ok
      { workflowType := run.workflowType
        organizationId := run.organizationId
        metadata := submission.payload.metadata
        activeKey := submission.payload.activeKey
        resultStepKey := submission.payload.resultStepKey
        steps := pairs.map fun pair =>
          ⟨canonicalWorkflowStep run.organizationId pair.1, pair.2⟩ } := by
  have hnodup := Submission.nodup_readSteps run.organizationId h.submitted.nodup
  have hfirst : (([] ++ canonicalWorkflowSteps run.organizationId submission.payload.steps).map
      CanonicalWorkflowStep.stepKey).Nodup := by
    rw [Submission.readSteps, map_append] at hnodup
    exact (nodup_append.mp hnodup).1
  simp only [loadRecoveryBlueprint, bind_eq_ok, require_eq_ok, pure_eq_ok]
  refine ⟨_, h.deserializeRecoveryEnqueueSnapshot_eq, _,
    foldlM_collect CanonicalWorkflowStep.stepKey (fun _ _ => insertRecoveryStep_new) hfirst,
    submission.readSteps run.organizationId, ?_, _,
    foldlM_collect StepRow.stepKey (fun _ _ => insertSourceStepState_new)
      (nodup_stepsOf hgraph run.id), _,
    hpairs.pairRecoverySteps_eq hgraph h.submitted.nodup, rfl⟩
  change (db.workflow.mutationsOf run.id).foldlM insertRecoveryAppend _ = _
  rw [h.mutations]
  exact foldlM_insertRecoveryAppend
    (fun input hinput step hstep => h.inRange
      (mem_append_right _ (mem_flatMap.mpr ⟨input, hinput, hstep⟩))) hnodup

/-- The recovered steps form a workflow graph, although the source grew by appends. -/
theorem Pairs.acceptedSteps (h : Pairs tables run steps pairs)
    (hsubmitted : Submitted tables run.id run.organizationId steps) (hgraph : Graph tables)
    (hnonempty : steps ≠ []) :
    AcceptedSteps (pairs.map fun pair => recoveredStep run.organizationId pair.1 pair.2) := by
  have hpre : ∀ pair ∈ pairs, ∀ key ∈ prerequisiteKeys
      (recoveredStep run.organizationId pair.1 pair.2).dependencies,
      ∃ dep ∈ pair.1.dependencies, dep.prerequisiteStepKey = key := by
    intro pair _ key hkey
    exact mem_map.mp ((prerequisiteKeys_recovered _).mem_iff.mp hkey)
  constructor
  · intro hempty
    have hkeys := h.keys.length_eq
    rw [hempty, map_nil, length_nil, length_map] at hkeys
    exact hnonempty (length_eq_zero_iff.mp hkeys.symm)
  · rw [forall_mem_map]
    intro pair hpair
    obtain ⟨_, hfor⟩ := h.isFor pair hpair
    exact hfor.validShape_recovered (hsubmitted.valid pair.1 (h.mem hpair).1).1
  · exact h.keys.nodup_iff.mpr hsubmitted.nodup
  · rw [forall_mem_map]
    intro pair hpair
    exact validPrerequisites_recovered (hsubmitted.valid pair.1 (h.mem hpair).1).2
  · rw [forall_mem_map]
    intro pair hpair key hkey
    obtain ⟨dep, hdep, rfl⟩ := hpre pair hpair key hkey
    obtain ⟨pre, hmem, hsame⟩ := hsubmitted.known (h.mem hpair).1 hdep
    exact h.keys.mem_iff.mpr (hsame ▸ mem_map_of_mem hmem)
  · obtain ⟨rank, hrank⟩ := hsubmitted.exists_rank hgraph
    refine ⟨rank, ?_⟩
    rw [map_map, forall_mem_map]
    intro pair hpair key hkey
    obtain ⟨dep, hdep, rfl⟩ := hpre pair hpair key hkey
    exact hrank pair.1 (h.mem hpair).1 dep hdep

/-- The payload that repeats a run. -/
def recoveredWorkflow (run : RunRow) (submission : Submission)
    (pairs : List (WorkflowStepEnqueue × StepRow)) : WorkflowRunEnqueue where
  workflowType := run.workflowType
  organizationId := run.organizationId
  metadata := submission.payload.metadata
  idempotencyKey := none
  activeKey := submission.payload.activeKey
  resultStepKey := submission.payload.resultStepKey
  steps := pairs.map fun pair => recoveredStep run.organizationId pair.1 pair.2

variable (h : Provenance db.workflow run submission) (hgraph : Graph db.workflow)
  (hpairs : Pairs db.workflow run submission.steps pairs)
include h hgraph hpairs

theorem Provenance.accepted_recovered : AcceptedRun (recoveredWorkflow run submission pairs) := by
  have htype : run.workflowType = submission.payload.workflowType :=
    congrArg RunRow.workflowType h.declared
  have hnonempty : submission.steps ≠ [] := append_ne_nil_of_left_ne_nil h.accepted.steps.nonempty _
  refine ⟨(congrArg isBlank htype).trans h.accepted.workflowType, nofun, h.accepted.activeKey,
    fun key hkey => ?_, hpairs.acceptedSteps h.submitted hgraph hnonempty⟩
  obtain ⟨hblank, hmem⟩ := h.accepted.resultStepKey key hkey
  obtain ⟨step, hstep, rfl⟩ := mem_map.mp hmem
  exact ⟨hblank, hpairs.keys.mem_iff.mpr (mem_map_of_mem (mem_append_left _ hstep))⟩

/-- Recovery builds the payload of a run that holds what was submitted. -/
theorem Provenance.rebuildWorkflow_eq :
    rebuildWorkflow db run = .ok (recoveredWorkflow run submission pairs) := by
  have hsteps : (pairs.map fun pair => (⟨canonicalWorkflowStep run.organizationId pair.1,
      pair.2⟩ : RecoveryStep)).mapM recoverStep =
      .ok (pairs.map fun pair => recoveredStep run.organizationId pair.1 pair.2) := by
    refine mapM_map_eq fun pair hpair => ?_
    obtain ⟨hshape, hpres⟩ := h.submitted.valid pair.1 (hpairs.mem hpair).1
    obtain ⟨_, hfor⟩ := hpairs.isFor pair hpair
    exact recoverStep_eq hfor hshape hpres
  refine bind_eq_ok.mpr ⟨_, h.loadRecoveryBlueprint_eq hgraph hpairs, ?_⟩
  refine bind_eq_ok.mpr ⟨_, hsteps, mapError_eq_ok.mpr ?_⟩
  exact WorkflowRunEnqueue.tryBuild_eq_ok (h.accepted_recovered hgraph hpairs)

end Rebuild

/-- A step of a payload repeats a step of a run, with its resolved settings and its edges. -/
structure RepeatsStep (tables : WorkflowTables) (organizationId : Option ℕ) (row : StepRow)
    (step : WorkflowStepEnqueue) : Prop where
  stepKey : step.stepKey = row.stepKey
  executionKind : step.executionKind = row.executionKind
  jobType : step.jobType = row.jobType
  organization : workflowStepEffectiveOrganizationId organizationId step = row.organizationId
  stage : workflowStepEffectiveStage step = row.stage
  continuation : step.allowsHandlerContinuation = row.allowHandlerContinuation
  resource : step.executionResourceKey = row.executionResourceKey
  priority : step.priority = row.priority
  maxAttempts : step.maxAttempts = row.maxAttempts
  timeoutSeconds : step.timeoutSeconds = row.timeoutSeconds
  payload : step.payload = row.payload
  distinct : (prerequisiteKeys step.dependencies).Nodup
  edges : ∀ key mode, (∃ dependency ∈ step.dependencies,
      dependency.prerequisiteStepKey = key ∧ dependency.effectiveReleaseMode = mode) ↔
    ∃ edge ∈ tables.dependencies, edge.dependentStepId = row.id ∧ edge.releaseMode = mode ∧
      ∃ prerequisite ∈ tables.stepsOf row.workflowRunId,
        prerequisite.id = edge.prerequisiteStepId ∧ prerequisite.stepKey = key

/-- A payload repeats a run: its steps, in the order of their keys, are the steps of the run. -/
structure RepeatsRun (tables : WorkflowTables) (run : RunRow)
    (source payload : WorkflowRunEnqueue) :
    Prop where
  workflowType : payload.workflowType = run.workflowType
  organizationId : payload.organizationId = run.organizationId
  metadata : payload.metadata = run.metadata
  activeKey : payload.activeKey = source.activeKey
  resultStepKey : payload.resultStepKey = run.resultStepKey
  idempotencyKey : payload.idempotencyKey = none
  steps : List.Forall₂ (RepeatsStep tables run.organizationId)
    (orderedBy StepRow.stepKey (tables.stepsOf run.id)) payload.steps

section

variable (h : Submitted tables runId org steps) (hgraph : Graph tables) (hstep : step ∈ steps)
  (hrow : row ∈ tables.stepsOf runId)
include h hgraph hstep hrow

/-- The edges of a recovered step are those of its row. -/
theorem Submitted.edges_recovered (hkey : row.stepKey = step.stepKey) (key : String)
    (mode : WorkflowDependencyReleaseMode) :
    (∃ dep ∈ recoveredDependencies step.dependencies,
        dep.prerequisiteStepKey = key ∧ dep.effectiveReleaseMode = mode) ↔
      ∃ edge ∈ tables.dependencies, edge.dependentStepId = row.id ∧ edge.releaseMode = mode ∧
        ∃ prerequisite ∈ tables.stepsOf row.workflowRunId,
          prerequisite.id = edge.prerequisiteStepId ∧ prerequisite.stepKey = key := by
  obtain ⟨hmem, hrun⟩ := mem_stepsOf.mp hrow
  subst hrun
  constructor
  · rintro ⟨_, hdep, rfl, rfl⟩
    obtain ⟨dep, hsrc, rfl⟩ := mem_recoveredDependencies.mp hdep
    obtain ⟨edge, hedge, hfor⟩ := h.edge step hstep dep hsrc
    obtain ⟨prerequisite, hpre, hid, hrun, hsame⟩ := hfor.prerequisite
    obtain ⟨dependent, hdept, hid', hrun', hsame'⟩ := hfor.dependent
    obtain rfl := hgraph.key dependent hdept row hmem hrun' (hsame'.trans hkey.symm)
    exact ⟨edge, hedge, hid'.symm, hfor.mode, prerequisite,
      mem_stepsOf.mpr ⟨hpre, hrun⟩, hid, hsame⟩
  · rintro ⟨edge, hedge, hid, rfl, prerequisite, hpre, hid', rfl⟩
    obtain ⟨dep, hsrc, hfor⟩ := h.edge_of_row hgraph hstep hmem rfl hkey hedge hid
    obtain ⟨found, hfound, hfoundId, _, hsame⟩ := hfor.prerequisite
    obtain rfl : found = prerequisite := Table.eq_of_key_eq hfound
      (mem_stepsOf.mp hpre).1 (hfoundId.trans hid'.symm)
    exact ⟨_, mem_recoveredDependencies.mpr ⟨dep, hsrc, rfl⟩, hsame.symm, hfor.mode.symm⟩

/-- A recovered step repeats its row. -/
theorem Submitted.repeatsStep (hfor : row.IsFor org step defaults) :
    RepeatsStep tables org row (recoveredStep org step row) := by
  obtain ⟨hkind, htype, hstage, hcont, hres⟩ := hfor.columns
  have horg : row.organizationId = step.organizationId.or org :=
    congrArg StepRow.organizationId hfor.declared
  have hdist := (validPrerequisites_recovered (h.valid step hstep).2).nodup
  have hedges := h.edges_recovered hgraph hstep hrow hfor.stepKey
  have horg' : workflowStepEffectiveOrganizationId org
      (recoveredStep org step row) = row.organizationId := by
    rw [horg, workflowStepEffectiveOrganizationId]
    cases hown : step.organizationId <;>
      simp [recoveredStep, workflowStepEffectiveOrganizationId, hown]
  cases hexec : step.execution with
  | external =>
    obtain ⟨hprio, hatts, htimeout⟩ := hfor.no_settings hexec
    refine ⟨hfor.stepKey.symm, ?_, ?_, horg', ?_, ?_, ?_, ?_, ?_, ?_, rfl, hdist, hedges⟩
    all_goals
      simp [hkind, htype, hstage, hcont, hres, hprio, hatts, htimeout, hexec]
  | job execution =>
    refine ⟨hfor.stepKey.symm, ?_, ?_, horg', ?_, ?_, ?_, ?_, ?_, ?_, rfl, hdist, hedges⟩
    all_goals simp [hkind, htype, hstage, hcont, hres, hexec]

end

/-- Recovery never fails to rebuild a run, and what it builds repeats the run. -/
theorem recovery_rebuilds_the_source
    [UuidSource] (transactions : List Transaction) (elapsed : ℕ) (run : RunRow)
    (hrun : run ∈ (history transactions).workflow.runs) :
    ∃ submission payload, submissions transactions run.id = some submission ∧
      rebuildWorkflow ((history transactions).after elapsed) run = .ok payload ∧
      RepeatsRun (history transactions).workflow run submission.payload payload := by
  obtain ⟨submission, hsub, hprov⟩ := (recorded_history transactions).run run hrun
  have hgraph := (sound_history transactions).flow.graph
  obtain ⟨pairs, hpairs⟩ := hprov.submitted.exists_pairs hgraph
  have hbuilt : rebuildWorkflow ((history transactions).after elapsed) run =
      .ok (recoveredWorkflow run submission pairs) :=
    @Provenance.rebuildWorkflow_eq run ((history transactions).after elapsed) submission pairs
      hprov hgraph hpairs
  refine ⟨submission, _, hsub, hbuilt, rfl, rfl,
    (congrArg RunRow.metadata hprov.declared).symm, rfl,
    (congrArg RunRow.resultStepKey hprov.declared).symm, rfl, ?_⟩
  rw [← hpairs.row]
  refine List.forall₂_map_left_iff.mpr (List.forall₂_map_right_iff.mpr
    (List.forall₂_same.mpr fun pair hpair => ?_))
  obtain ⟨defaults, hfor⟩ := hpairs.isFor pair hpair
  exact hprov.submitted.repeatsStep hgraph (hpairs.mem hpair).1 (hpairs.mem hpair).2 hfor

/-- The run of the sample grows by an append and ends with errors. -/
def grownRun : List Transaction :=
  ⟨0, .upsertDefinition sampleDefinition⟩ :: sampleRun ++
    [⟨1, .appendWorkflowSteps sampleAppend⟩, ⟨1, .completeExternalStep
      ⟨0, none, "extract", .failed, ⟨some "UPSTREAM_DOWN", none, none⟩⟩⟩,
    ⟨1, .completeExternalStep ⟨0, none, "archive", .succeeded none, ⟨none, none, none⟩⟩⟩]

/-- The run is rebuilt with the steps that it was enqueued with and the appended ones. -/
theorem grown_run_is_rebuilt : letI := countingUuids
    ∃ run ∈ (history grownRun).workflow.runs, run.status = .completedWithErrors ∧
      ∃ payload, rebuildWorkflow (history grownRun) run = .ok payload ∧
        payload.steps.map (fun step => (step.stepKey, step.jobType)) =
          [("archive", none), ("extract", none), ("load", none), ("notify", some "mail.send")] := by
  have hruns : (@history countingUuids grownRun).workflow.runs.rows.map
      (fun run => (run.id, run.status)) = [(0, .completedWithErrors)] := by
    decide +kernel
  have hsteps : (orderedBy StepRow.stepKey
      ((@history countingUuids grownRun).workflow.stepsOf 0)).map
        (fun row => (row.stepKey, row.jobType)) =
      [("archive", none), ("extract", none), ("load", none), ("notify", some "mail.send")] := by
    decide +kernel
  obtain ⟨run, hrun, hcols⟩ := List.mem_map.mp (hruns ▸ List.mem_singleton_self _)
  obtain ⟨hid, hstat⟩ := Prod.mk.inj hcols
  obtain ⟨submission, payload, _, hbuilt, hrepeats⟩ :=
    @recovery_rebuilds_the_source countingUuids grownRun 0 run (Table.mem_rows.mp hrun)
  refine ⟨run, Table.mem_rows.mp hrun, hstat, payload, hbuilt, ?_⟩
  have hcolumns : List.Forall₂ Eq
      ((orderedBy StepRow.stepKey
        ((@history countingUuids grownRun).workflow.stepsOf run.id)).map
          (fun row => (row.stepKey, row.jobType)))
      (payload.steps.map (fun step => (step.stepKey, step.jobType))) :=
    List.forall₂_map_left_iff.mpr (List.forall₂_map_right_iff.mpr
      (hrepeats.steps.imp fun _ _ h => Prod.ext h.stepKey.symm h.jobType.symm))
  rw [List.forall₂_eq_eq_eq, hid, hsteps] at hcolumns
  exact hcolumns.symm

end Batter.Runledger.Postgres
