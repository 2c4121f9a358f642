import Batter.Runledger.Postgres.StepTransitions

/-!
# Canonical requests

A run keeps the request that created it, and each append the steps it added, in
one normalized JSON form: steps and dependencies are sorted, organizations and
stages are the effective ones, and members that say nothing are skipped.

Recovery reads the form strictly and rejects members it does not know; the
comparison of a repeated append reads it tolerantly.  `fromJson_toJson` says that
both readers undo the writer.
-/

namespace Batter.Runledger

/-- The stored name of a stage. -/
def JobStage.asDbValue : JobStage → String
  | .queued => "queued"
  | .scheduled => "scheduled"
  | .running => "running"
  | .completed => "completed"

/-- The stage of a stored name. -/
def JobStage.fromDbValue (rawStage : String) : Option JobStage :=
  if rawStage = "queued" then some .queued
  else if rawStage = "scheduled" then some .scheduled
  else if rawStage = "running" then some .running
  else if rawStage = "completed" then some .completed
  else none

/-- The execution kind of a stored name. -/
def WorkflowStepExecutionKind.fromDbValue (rawKind : String) : Option WorkflowStepExecutionKind :=
  if rawKind = "JOB" then some .job
  else if rawKind = "EXTERNAL" then some .external
  else none

/-- The stored name of a release mode. -/
def WorkflowDependencyReleaseMode.asDbValue : WorkflowDependencyReleaseMode → String
  | .onTerminal => "ON_TERMINAL"
  | .onSuccess => "ON_SUCCESS"

/-- The release mode of a stored name. -/
def WorkflowDependencyReleaseMode.fromDbValue (rawMode : String) :
    Option WorkflowDependencyReleaseMode :=
  if rawMode = "ON_TERMINAL" then some .onTerminal
  else if rawMode = "ON_SUCCESS" then some .onSuccess
  else none

@[simp]
theorem JobStage.fromDbValue_asDbValue (stage : JobStage) :
    JobStage.fromDbValue stage.asDbValue = some stage := by
  cases stage <;> rfl

@[simp]
theorem WorkflowStepExecutionKind.fromDbValue_asDbValue (kind : WorkflowStepExecutionKind) :
    WorkflowStepExecutionKind.fromDbValue kind.asDbValue = some kind := by
  cases kind <;> rfl

@[simp]
theorem WorkflowDependencyReleaseMode.fromDbValue_asDbValue (mode : WorkflowDependencyReleaseMode) :
    WorkflowDependencyReleaseMode.fromDbValue mode.asDbValue = some mode := by
  cases mode <;> rfl

namespace Postgres

def workflowStepEffectiveOrganizationId (workflowOrganizationId : Option ℕ)
    (step : WorkflowStepEnqueue) : Option ℕ :=
  step.organizationId.or workflowOrganizationId

def workflowStepEffectiveStage (step : WorkflowStepEnqueue) : Option JobStage :=
  match step.execution with
  | .job execution => some (execution.stage.getD .queued)
  | .external => none

/-- A dependency in its canonical form. -/
structure CanonicalWorkflowDependency where
  prerequisiteStepKey : String
  releaseMode : String
  deriving DecidableEq

/-- A step in its canonical form. -/
structure CanonicalWorkflowStep where
  stepKey : String
  executionKind : String
  jobType : Option String
  organizationId : Option ℕ
  payload : Json
  priority : Option ℤ
  maxAttempts : Option ℤ
  timeoutSeconds : Option ℤ
  stage : Option String
  allowHandlerContinuation : Bool
  executionResourceKey : Option String
  dependencies : List CanonicalWorkflowDependency
  deriving DecidableEq

/-- Dependencies in the order of their keys and modes. -/
def sortDependencies (dependencies : List CanonicalWorkflowDependency) :
    List CanonicalWorkflowDependency :=
  orderedBy (fun dependency => toLex (dependency.prerequisiteStepKey, dependency.releaseMode))
    dependencies

/-- The canonical form of a dependency. -/
def canonicalWorkflowDependency (dependency : WorkflowStepDependencySpec) :
    CanonicalWorkflowDependency :=
  ⟨dependency.prerequisiteStepKey, dependency.effectiveReleaseMode.asDbValue⟩

/-- The canonical form of a step. -/
def canonicalWorkflowStep (workflowOrganizationId : Option ℕ) (step : WorkflowStepEnqueue) :
    CanonicalWorkflowStep where
  stepKey := step.stepKey
  executionKind := step.executionKind.asDbValue
  jobType := step.jobType
  organizationId := workflowStepEffectiveOrganizationId workflowOrganizationId step
  payload := step.payload
  priority := step.priority
  maxAttempts := step.maxAttempts
  timeoutSeconds := step.timeoutSeconds
  stage := (workflowStepEffectiveStage step).map JobStage.asDbValue
  allowHandlerContinuation := step.allowsHandlerContinuation
  executionResourceKey := step.executionResourceKey
  dependencies := sortDependencies (step.dependencies.map canonicalWorkflowDependency)

def canonicalWorkflowSteps (workflowOrganizationId : Option ℕ)
    (steps : List WorkflowStepEnqueue) : List CanonicalWorkflowStep :=
  orderedBy CanonicalWorkflowStep.stepKey
    (steps.map (canonicalWorkflowStep workflowOrganizationId))

/-- The canonical form of an append. -/
structure CanonicalAppendRequest where
  appendWindowStepKey : Option String
  steps : List CanonicalWorkflowStep
  deriving DecidableEq

def canonicalAppendRequest (appendWindowStepKey : String) (workflowOrganizationId : Option ℕ)
    (steps : List WorkflowStepEnqueue) : CanonicalAppendRequest :=
  ⟨some appendWindowStepKey, canonicalWorkflowSteps workflowOrganizationId steps⟩

/-- An integer of 32 bits. -/
def Json.i32? : Json → Option ℤ :=
  Json.int? (-2 ^ 31) i32Max

/-- The text of an identifier. -/
def uuidText (id : ℕ) : Json :=
  .str id.repr

/-- The identifier of a text. -/
def uuid? (json : Json) : Option ℕ :=
  json.str?.bind fun text =>
    if text.toList.all Char.isDigit then some (Nat.ofDigitChars 10 text.toList 0) else none

theorem uuid?_uuidText (id : ℕ) : uuid? (uuidText id) = some id := by
  have hdigits : (Nat.toDigits 10 id).all Char.isDigit = true :=
    List.all_eq_true.mpr fun c hc => Nat.isDigit_of_mem_toDigits (by omega) (by omega) hc
  rw [uuid?, uuidText, Json.str?, Option.bind_some, Nat.toList_repr, if_pos hdigits,
    Nat.ofDigitChars_ten_toDigits]

def CanonicalWorkflowDependency.toJson (dependency : CanonicalWorkflowDependency) : Json :=
  .obj [("release_mode", .str dependency.releaseMode),
    ("prerequisite_step_key", .str dependency.prerequisiteStepKey)]

/-- The members of a step; the resource and the continuation flag are skipped when unset. -/
def CanonicalWorkflowStep.members (step : CanonicalWorkflowStep) : List (String × Json) :=
  [("stage", .ofOption .str step.stage),
    ("payload", step.payload),
    ("job_type", .ofOption .str step.jobType),
    ("priority", .ofOption (fun value : ℤ => .num value) step.priority),
    ("step_key", .str step.stepKey),
    ("dependencies", .arr (step.dependencies.map CanonicalWorkflowDependency.toJson)),
    ("max_attempts", .ofOption (fun value : ℤ => .num value) step.maxAttempts),
    ("execution_kind", .str step.executionKind),
    ("organization_id", .ofOption uuidText step.organizationId),
    ("timeout_seconds", .ofOption (fun value : ℤ => .num value) step.timeoutSeconds)] ++
  (step.executionResourceKey.map fun key => ("execution_resource_key", .str key)).toList ++
  if step.allowHandlerContinuation then [("allow_handler_continuation", .bool true)] else []

/-- The stored form of a step. -/
def CanonicalWorkflowStep.toJson (step : CanonicalWorkflowStep) : Json :=
  .obj step.members

/-- The stored form of an append. -/
def CanonicalAppendRequest.toJson (request : CanonicalAppendRequest) : Json :=
  .obj [("steps", .arr (request.steps.map CanonicalWorkflowStep.toJson)),
    ("append_window_step_key", .ofOption .str request.appendWindowStepKey)]

def canonicalWorkflowEnqueueRequest (payload : WorkflowRunEnqueue) : Json :=
  .obj ([("steps", .arr ((canonicalWorkflowSteps payload.organizationId payload.steps).map
      CanonicalWorkflowStep.toJson)),
    ("metadata", payload.metadata)] ++
  (payload.activeKey.map fun key => ("active_key", .str key)).toList ++
  (payload.resultStepKey.map fun key => ("result_step_key", .str key)).toList)

/-- Reads a dependency. -/
def CanonicalWorkflowDependency.fromJson (strict : Bool) (json : Json) :
    Option CanonicalWorkflowDependency := do
  let members ← json.members? strict ["prerequisite_step_key", "release_mode"]
  let prerequisiteStepKey ← Json.required Json.str? "prerequisite_step_key" members
  let releaseMode ← Json.required Json.str? "release_mode" members
  return { prerequisiteStepKey, releaseMode }

/-- The members of a stored step. -/
def canonicalWorkflowStepFields : List String :=
  ["step_key", "execution_kind", "job_type", "organization_id", "payload", "priority",
    "max_attempts", "timeout_seconds", "stage", "allow_handler_continuation",
    "execution_resource_key", "dependencies"]

/-- Reads a step. -/
def CanonicalWorkflowStep.fromJson (strict : Bool) (json : Json) :
    Option CanonicalWorkflowStep := do
  let members ← json.members? strict canonicalWorkflowStepFields
  let stepKey ← Json.required Json.str? "step_key" members
  let executionKind ← Json.required Json.str? "execution_kind" members
  let jobType ← Json.optional Json.str? "job_type" members
  let organizationId ← Json.optional uuid? "organization_id" members
  let payload ← Json.required some "payload" members
  let priority ← Json.optional Json.i32? "priority" members
  let maxAttempts ← Json.optional Json.i32? "max_attempts" members
  let timeoutSeconds ← Json.optional Json.i32? "timeout_seconds" members
  let stage ← Json.optional Json.str? "stage" members
  let allowHandlerContinuation ←
    Json.defaulted Json.bool? false "allow_handler_continuation" members
  let executionResourceKey ← Json.optional Json.str? "execution_resource_key" members
  let dependencies ← Json.required
    (Json.items? (CanonicalWorkflowDependency.fromJson strict)) "dependencies" members
  return { stepKey, executionKind, jobType, organizationId, payload, priority, maxAttempts,
           timeoutSeconds, stage, allowHandlerContinuation, executionResourceKey, dependencies }

/-- Reads an append. -/
def CanonicalAppendRequest.fromJson (strict : Bool) (json : Json) :
    Option CanonicalAppendRequest := do
  let members ← json.members? strict ["append_window_step_key", "steps"]
  let appendWindowStepKey ← Json.optional Json.str? "append_window_step_key" members
  let steps ← Json.required (Json.items? (CanonicalWorkflowStep.fromJson strict)) "steps" members
  return { appendWindowStepKey, steps }

/-- The request that created a run, as recovery reads it. -/
structure RecoveryEnqueueSnapshot where
  metadata : Json
  activeKey : Option String
  resultStepKey : Option String
  steps : List CanonicalWorkflowStep
  deriving DecidableEq

def deserializeRecoveryEnqueueSnapshot (json : Json) : Option RecoveryEnqueueSnapshot := do
  let members ← json.members? true ["metadata", "active_key", "result_step_key", "steps"]
  let metadata ← Json.required some "metadata" members
  let activeKey ← Json.optional Json.str? "active_key" members
  let resultStepKey ← Json.optional Json.str? "result_step_key" members
  let steps ← Json.required (Json.items? (CanonicalWorkflowStep.fromJson true)) "steps" members
  return { metadata, activeKey, resultStepKey, steps }

def deserializeRecoveryAppendSnapshot (json : Json) : Option CanonicalAppendRequest :=
  CanonicalAppendRequest.fromJson true json

/-- Older snapshots may miss the organization of a step or the stage of a job. -/
def normalizeStoredStep (workflowOrganizationId : Option ℕ) (step : CanonicalWorkflowStep) :
    CanonicalWorkflowStep :=
  { step with
    organizationId := step.organizationId.or workflowOrganizationId
    stage := if step.executionKind = "JOB" && step.stage.isNone then
      some JobStage.queued.asDbValue else step.stage
    dependencies := sortDependencies step.dependencies }

def deserializeStoredAppendRequest (json : Json) (workflowOrganizationId : Option ℕ) :
    Except Error CanonicalAppendRequest := do
  let request ← require
    (workflowInternalStateError "failed to deserialize canonical workflow append request")
    (CanonicalAppendRequest.fromJson false json)
  return { request with
    steps := orderedBy CanonicalWorkflowStep.stepKey
      (request.steps.map (normalizeStoredStep workflowOrganizationId)) }

/-- The numbers of a step fit into 32 bits. -/
structure CanonicalWorkflowStep.InRange (step : CanonicalWorkflowStep) : Prop where
  priority : ∀ value, step.priority = some value → -2 ^ 31 ≤ value ∧ value ≤ i32Max
  maxAttempts : ∀ value, step.maxAttempts = some value → -2 ^ 31 ≤ value ∧ value ≤ i32Max
  timeoutSeconds : ∀ value, step.timeoutSeconds = some value → -2 ^ 31 ≤ value ∧ value ≤ i32Max

theorem bind_eq_of_some
    {α β : Type} {value : Option α} {a : α} {f : α → Option β} {result : Option β}
    (h : value = some a) (hf : f a = result) : (value >>= f) = result := by
  rw [h]
  exact hf

theorem CanonicalWorkflowDependency.fromJson_toJson
    (strict : Bool) (dep : CanonicalWorkflowDependency) :
    CanonicalWorkflowDependency.fromJson strict dep.toJson = some dep := by
  rw [CanonicalWorkflowDependency.fromJson, CanonicalWorkflowDependency.toJson,
    Json.members?_obj (by simp)]
  rfl

theorem i32?_num {value : ℤ} (h : -2 ^ 31 ≤ value ∧ value ≤ i32Max) :
    Json.i32? (.num value) = some value :=
  Json.int?_num h.1 h.2

/-- The names of the members of a stored step are known. -/
theorem CanonicalWorkflowStep.members_known (step : CanonicalWorkflowStep) :
    ∀ member ∈ step.members, member.1 ∈ canonicalWorkflowStepFields := by
  intro member hmember
  simp only [CanonicalWorkflowStep.members, List.mem_append, Option.mem_toList,
    Option.map_eq_some_iff] at hmember
  rcases hmember with (hmember | ⟨_, _, rfl⟩) | hmember
  · have hnames : ["stage", "payload", "job_type", "priority", "step_key", "dependencies",
        "max_attempts", "execution_kind", "organization_id", "timeout_seconds"] ⊆
        canonicalWorkflowStepFields := by decide
    exact hnames (List.mem_map_of_mem (f := Prod.fst) hmember)
  · simp [canonicalWorkflowStepFields]
  · split_ifs at hmember
    · rw [List.mem_singleton.mp hmember]
      decide
    · cases hmember

/-- The members that may be skipped. -/
theorem CanonicalWorkflowStep.lookup_members (step : CanonicalWorkflowStep) :
    step.members.lookup "execution_resource_key" = step.executionResourceKey.map .str ∧
      Json.defaulted Json.bool? false "allow_handler_continuation" step.members =
        some step.allowHandlerContinuation := by
  obtain ⟨_, _, _, _, _, _, _, _, _, allowHandlerContinuation, executionResourceKey, _⟩ := step
  cases allowHandlerContinuation <;> cases executionResourceKey <;> exact ⟨rfl, rfl⟩

/-- Both readers of a step undo the writer. -/
theorem CanonicalWorkflowStep.fromJson_toJson (strict : Bool) {step : CanonicalWorkflowStep}
    (h : step.InRange) : CanonicalWorkflowStep.fromJson strict step.toJson = some step := by
  have hdeps := Json.items?_arr (CanonicalWorkflowDependency.fromJson strict)
    fun dep (_ : dep ∈ step.dependencies) =>
      CanonicalWorkflowDependency.fromJson_toJson strict dep
  obtain ⟨hres, hcont⟩ := step.lookup_members
  refine bind_eq_of_some (Json.members?_obj step.members_known) ?_
  refine bind_eq_of_some (Json.required_of_lookup rfl rfl) ?_
  refine bind_eq_of_some (Json.required_of_lookup rfl rfl) ?_
  refine bind_eq_of_some (Json.optional_of_lookup rfl (fun _ _ => rfl) nofun) ?_
  refine bind_eq_of_some (Json.optional_of_lookup rfl (fun id _ => uuid?_uuidText id) nofun) ?_
  refine bind_eq_of_some (Json.required_of_lookup rfl rfl) ?_
  refine bind_eq_of_some
    (Json.optional_of_lookup rfl (fun value hval => i32?_num (h.priority value hval)) nofun) ?_
  refine bind_eq_of_some (Json.optional_of_lookup rfl
    (fun value hval => i32?_num (h.maxAttempts value hval)) nofun) ?_
  refine bind_eq_of_some (Json.optional_of_lookup rfl
    (fun value hval => i32?_num (h.timeoutSeconds value hval)) nofun) ?_
  refine bind_eq_of_some (Json.optional_of_lookup rfl (fun _ _ => rfl) nofun) ?_
  refine bind_eq_of_some hcont ?_
  refine bind_eq_of_some
    (Json.optional_of_skipped Json.str _ hres (fun _ _ => rfl) nofun) ?_
  exact bind_eq_of_some (Json.required_of_lookup rfl hdeps) rfl

/-- Both readers of an append undo the writer. -/
theorem CanonicalAppendRequest.fromJson_toJson (strict : Bool) {req : CanonicalAppendRequest}
    (h : ∀ step ∈ req.steps, step.InRange) :
    CanonicalAppendRequest.fromJson strict req.toJson = some req := by
  have hsteps := Json.items?_arr (CanonicalWorkflowStep.fromJson strict)
    fun step hstep => CanonicalWorkflowStep.fromJson_toJson strict (h step hstep)
  refine bind_eq_of_some (Json.members?_obj (by simp)) ?_
  refine bind_eq_of_some (Json.optional_of_lookup rfl (fun _ _ => rfl) nofun) ?_
  exact bind_eq_of_some (Json.required_of_lookup rfl hsteps) rfl

/-- Recovery reads back what a run was created with. -/
theorem deserializeRecoveryEnqueueSnapshot_canonical {payload : WorkflowRunEnqueue}
    (h : ∀ step ∈ canonicalWorkflowSteps payload.organizationId payload.steps, step.InRange) :
    deserializeRecoveryEnqueueSnapshot (canonicalWorkflowEnqueueRequest payload) =
      some ⟨payload.metadata, payload.activeKey, payload.resultStepKey,
        canonicalWorkflowSteps payload.organizationId payload.steps⟩ := by
  have hsteps := Json.items?_arr (CanonicalWorkflowStep.fromJson true)
    fun step hstep => CanonicalWorkflowStep.fromJson_toJson true (h step hstep)
  obtain ⟨workflowType, org, metadata, idempotencyKey, activeKey, resultStepKey, steps⟩ := payload
  cases activeKey <;> cases resultStepKey
  all_goals
    refine bind_eq_of_some (Json.members?_obj (by simp)) ?_
    refine bind_eq_of_some (Json.required_of_lookup rfl rfl) ?_
    refine bind_eq_of_some rfl ?_
    refine bind_eq_of_some rfl ?_
    exact bind_eq_of_some (Json.required_of_lookup rfl hsteps) rfl

end Postgres
end Batter.Runledger
