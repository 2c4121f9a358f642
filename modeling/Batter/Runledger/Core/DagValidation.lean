import Batter.Library.TopologicalOrder
import Batter.Runledger.Core.WorkflowEnqueue

/-!
# Validation of workflow graphs

A workflow is accepted when its steps have valid fields and distinct keys, name
only steps of the workflow as prerequisites, and the dependencies have no cycle.
Steps appended later may also name steps that are already there; only the new
steps are searched for a cycle.

The maps from step keys to indices are kept as the list of the keys in index
order.  `validateWorkflowRunEnqueue_eq_ok_iff` and
`validateWorkflowStepAppend_eq_ok_iff` say which payloads are accepted; the absence
of a cycle is a numbering of the keys that grows from every prerequisite to its
dependents.
-/

namespace Batter.Runledger

open RustStd List

variable {graph : IndexGraph} {stepKeys keys existingStepKeys newStepKeys : List String} {α : Type}
variable {dependentIndex i j : ℕ}

/-- Why a workflow graph is rejected. -/
inductive WorkflowDagValidationError
  | emptySteps
  | blankWorkflowType
  | blankStepKey (stepIndex : ℕ)
  | blankStepJobType (stepKey : String)
  | blankIdempotencyKey
  | blankActiveKey
  | activeKeyTooLong
  | blankResultStepKey
  | unknownResultStepKey (stepKey : String)
  | nonPositiveStepMaxAttempts (stepKey : String) (maxAttempts : ℤ)
  | nonPositiveStepTimeoutSeconds (stepKey : String) (timeoutSeconds : ℤ)
  | invalidStepExecutionResourceKey (stepKey : String)
  | externalStepJobTypeNotAllowed (stepKey : String)
  | externalStepQueueSettingsNotAllowed (stepKey : String)
  | blankDependencyStepKey (stepKey : String)
  | duplicateStepKey (stepKey : String)
  | missingDependency (stepKey prerequisiteStepKey : String)
  | selfDependency (stepKey : String)
  | duplicateDependency (stepKey prerequisiteStepKey : String)
  | cycleDetected
  deriving DecidableEq

/-- The error of a step as an error of the graph it stands in. -/
def WorkflowDagValidationError.fromStepValidationError (stepIndex : ℕ) :
    WorkflowStepValidationError → WorkflowDagValidationError
  | .blankStepKey => .blankStepKey stepIndex
  | .blankStepJobType stepKey => .blankStepJobType stepKey
  | .nonPositiveStepMaxAttempts stepKey maxAttempts =>
    .nonPositiveStepMaxAttempts stepKey maxAttempts
  | .nonPositiveStepTimeoutSeconds stepKey timeoutSeconds =>
    .nonPositiveStepTimeoutSeconds stepKey timeoutSeconds
  | .invalidStepExecutionResourceKey stepKey => .invalidStepExecutionResourceKey stepKey
  | .externalStepJobTypeNotAllowed stepKey => .externalStepJobTypeNotAllowed stepKey
  | .externalStepQueueSettingsNotAllowed stepKey => .externalStepQueueSettingsNotAllowed stepKey
  | .blankDependencyStepKey stepKey => .blankDependencyStepKey stepKey
  | .duplicateDependency stepKey prerequisiteStepKey =>
    .duplicateDependency stepKey prerequisiteStepKey
  | .selfDependency stepKey => .selfDependency stepKey

open WorkflowDagValidationError (fromStepValidationError)

/-- A step as the graph validation sees it. -/
structure WorkflowDagStepValidationInput where
  shape : WorkflowStepShapeValidationInput
  dependencies : List String

def WorkflowDagStepValidationInput.stepKey (step : WorkflowDagStepValidationInput) : String :=
  step.shape.stepKey

/-- Whether every node is reached by closing edges from nodes without open ones. -/
def isAcyclic (graph : IndexGraph) (n : ℕ) : Bool :=
  (graph.visitAll n).length == n

/-- Adds the key of a step to the keys of the steps before it. -/
def insertStepKey (stepKeys : List String) (step : WorkflowDagStepValidationInput) :
    Except WorkflowDagValidationError (List String) := do
  (validateStepShape step.shape).mapError (fromStepValidationError stepKeys.length)
  rejectIf (step.stepKey ∈ stepKeys) (.duplicateStepKey step.stepKey)
  return stepKeys ++ [step.stepKey]

/-- Adds the edge of one dependency. -/
def linkDependency (stepKeys : List String) (stepKey : String) (dependentIndex : ℕ)
    (state : List String × IndexGraph) (prerequisiteStepKey : String) :
    Except WorkflowDagValidationError (List String × IndexGraph) := do
  let seenDependencies ←
    (validateStepDependencyShape stepKey prerequisiteStepKey state.1).mapError
      (fromStepValidationError dependentIndex)
  rejectIf (prerequisiteStepKey ∉ stepKeys) (.missingDependency stepKey prerequisiteStepKey)
  return (seenDependencies, state.2.addEdge (stepKeys.idxOf prerequisiteStepKey) dependentIndex)

/-- Adds the edges of one step. -/
def linkStep (stepKeys : List String) (graph : IndexGraph)
    (step : WorkflowDagStepValidationInput × ℕ) :
    Except WorkflowDagValidationError IndexGraph := do
  let state ← step.1.dependencies.foldlM (linkDependency stepKeys step.1.stepKey step.2) ([], graph)
  return state.2

/-- Validates a workflow graph. -/
def validateWorkflowDag (workflowType : String) (steps : List WorkflowDagStepValidationInput) :
    Except WorkflowDagValidationError Unit := do
  rejectIf (isBlank workflowType) .blankWorkflowType
  rejectIf steps.isEmpty .emptySteps
  let stepKeys ← steps.foldlM insertStepKey []
  let graph ← steps.zipIdx.foldlM (linkStep stepKeys) .empty
  rejectIf (!isAcyclic graph steps.length) .cycleDetected

/-- A step of a payload as the graph validation sees it. -/
def WorkflowStepEnqueue.dagInput (step : WorkflowStepEnqueue) : WorkflowDagStepValidationInput :=
  ⟨step.shape, prerequisiteKeys step.dependencies⟩

/-- Validates a whole workflow payload. -/
def validateWorkflowRunEnqueue (payload : WorkflowRunEnqueue) :
    Except WorkflowDagValidationError Unit := do
  rejectIf (payload.idempotencyKey.any isBlank) .blankIdempotencyKey
  rejectIf (payload.activeKey.any isBlank) .blankActiveKey
  rejectIf (payload.activeKey.any fun activeKey => 512 < activeKey.utf8ByteSize) .activeKeyTooLong
  rejectIf (payload.resultStepKey.any isBlank) .blankResultStepKey
  validateWorkflowDag payload.workflowType (payload.steps.map WorkflowStepEnqueue.dagInput)
  payload.resultStepKey.forM fun resultStepKey =>
    rejectIf (!payload.steps.any fun step => step.stepKey = resultStepKey)
      (.unknownResultStepKey resultStepKey)

/-- Adds the key of an appended step to those of the steps before it. -/
def insertAppendedKey (existingStepKeys : List String) (newStepKeys : List String)
    (step : WorkflowStepEnqueue) : Except WorkflowDagValidationError (List String) := do
  (validateStepEnqueue step).mapError (fromStepValidationError newStepKeys.length)
  rejectIf (step.stepKey ∈ existingStepKeys) (.duplicateStepKey step.stepKey)
  rejectIf (step.stepKey ∈ newStepKeys) (.duplicateStepKey step.stepKey)
  return newStepKeys ++ [step.stepKey]

/-- Adds the edge of one dependency between appended steps. -/
def linkAppendedDependency (existingStepKeys newStepKeys : List String) (stepKey : String)
    (dependentIndex : ℕ) (graph : IndexGraph) (prerequisiteStepKey : String) :
    Except WorkflowDagValidationError IndexGraph :=
  if prerequisiteStepKey ∈ newStepKeys then
    .ok (graph.addEdge (newStepKeys.idxOf prerequisiteStepKey) dependentIndex)
  else if prerequisiteStepKey ∈ existingStepKeys then
    .ok graph
  else
    .error (.missingDependency stepKey prerequisiteStepKey)

/-- Adds the edges of one appended step. -/
def linkAppendedStep (existingStepKeys newStepKeys : List String) (graph : IndexGraph)
    (step : WorkflowStepEnqueue × ℕ) : Except WorkflowDagValidationError IndexGraph :=
  (prerequisiteKeys step.1.dependencies).foldlM
    (linkAppendedDependency existingStepKeys newStepKeys step.1.stepKey step.2) graph

/-- Validates steps that are appended to a workflow with the given step keys. -/
def validateWorkflowStepAppend (existingStepKeys : List String)
    (newSteps : List WorkflowStepEnqueue) : Except WorkflowDagValidationError Unit := do
  rejectIf newSteps.isEmpty .emptySteps
  let newStepKeys ← newSteps.foldlM (insertAppendedKey existingStepKeys) []
  let graph ← newSteps.zipIdx.foldlM (linkAppendedStep existingStepKeys newStepKeys)
    .empty
  rejectIf (!isAcyclic graph newSteps.length) .cycleDetected

section Graph

/-- Adds the edges from the named prerequisites to one dependent. -/
def linkKeys (stepKeys : List String) (dependentIndex : ℕ) (graph : IndexGraph)
    (keys : List String) : IndexGraph :=
  keys.foldl (fun graph key => graph.addEdge (stepKeys.idxOf key) dependentIndex) graph

/-- The graph of named prerequisites, one list for each step. -/
def linkAll (stepKeys : List String) (prerequisites : List (List String × ℕ))
    (graph : IndexGraph) : IndexGraph :=
  prerequisites.foldl (fun graph entry => linkKeys stepKeys entry.2 graph entry.1) graph

variable {prerequisites : List (List String × ℕ)}

theorem mem_linkKeys : i ∈ (linkKeys stepKeys dependentIndex graph keys).adjacency j ↔
      i ∈ graph.adjacency j ∨ (i = dependentIndex ∧ ∃ key ∈ keys, stepKeys.idxOf key = j) := by
  induction keys generalizing graph with
  | nil =>
    simp [linkKeys]
  | cons key keys ih =>
    rw [linkKeys, foldl_cons, ← linkKeys, ih, IndexGraph.mem_addEdge]
    simp only [mem_cons, exists_eq_or_imp]
    tauto

theorem counted_linkKeys (h : graph.Counted stepKeys.length)
    (hidx : dependentIndex < stepKeys.length) (hkeys : ∀ key ∈ keys, key ∈ stepKeys) :
    (linkKeys stepKeys dependentIndex graph keys).Counted stepKeys.length := by
  induction keys generalizing graph with
  | nil =>
    exact h
  | cons key keys ih =>
    rw [forall_mem_cons] at hkeys
    exact ih (h.addEdge (idxOf_lt_length_iff.mpr hkeys.1) hidx) hkeys.2

theorem mem_linkAll : i ∈ (linkAll stepKeys prerequisites graph).adjacency j ↔
      i ∈ graph.adjacency j ∨
        ∃ keys, (keys, i) ∈ prerequisites ∧ ∃ key ∈ keys, stepKeys.idxOf key = j := by
  induction prerequisites generalizing graph with
  | nil =>
    simp [linkAll]
  | cons entry prerequisites ih =>
    obtain ⟨keys, index⟩ := entry
    rw [linkAll, foldl_cons, ← linkAll, ih, mem_linkKeys]
    constructor
    · rintro ((h | ⟨rfl, key, hkey, hj⟩) | ⟨keys', hmem, hkeys'⟩)
      · exact .inl h
      · exact .inr ⟨keys, mem_cons_self, key, hkey, hj⟩
      · exact .inr ⟨keys', mem_cons_of_mem _ hmem, hkeys'⟩
    · rintro (h | ⟨keys', hmem, key, hkey, hj⟩)
      · exact .inl (.inl h)
      · rcases mem_cons.mp hmem with heq | hmem
        · obtain ⟨rfl, rfl⟩ := Prod.mk.inj heq
          exact .inl (.inr ⟨rfl, key, hkey, hj⟩)
        · exact .inr ⟨keys', hmem, key, hkey, hj⟩

theorem counted_linkAll (h : graph.Counted stepKeys.length) (hentries : ∀ entry ∈ prerequisites,
      entry.2 < stepKeys.length ∧ ∀ key ∈ entry.1, key ∈ stepKeys) :
    (linkAll stepKeys prerequisites graph).Counted stepKeys.length := by
  induction prerequisites generalizing graph with
  | nil =>
    exact h
  | cons entry prerequisites ih =>
    rw [forall_mem_cons] at hentries
    exact ih (counted_linkKeys h hentries.1.1 hentries.1.2) hentries.2

/-- Steps, each with its key and the keys it waits for, that can be ordered. -/
def Orderable (declared : List (String × List String)) : Prop :=
  ∃ rank : String → ℕ, ∀ entry ∈ declared, ∀ key ∈ entry.2, rank key < rank entry.1

/-- The search for a cycle answers whether the declared steps can be ordered. -/
theorem isAcyclic_linkAll_iff {declared : List (String × List String)}
    (hfst : declared.map Prod.fst = stepKeys) (hnodup : stepKeys.Nodup)
    (hkeys : ∀ entry ∈ declared, ∀ key ∈ entry.2, key ∈ stepKeys) :
    isAcyclic (linkAll stepKeys (declared.map Prod.snd).zipIdx .empty)
        declared.length = true ↔ Orderable declared := by
  subst hfst
  have hlen : (declared.map Prod.fst).length = declared.length := length_map ..
  have hentry : ∀ keys i, (keys, i) ∈ (declared.map Prod.snd).zipIdx ↔
      ∃ key, declared[i]? = some (key, keys) := by
    intro keys i
    rw [mem_zipIdx_iff_getElem?, getElem?_map]
    simp
  have hcounted : (linkAll (declared.map Prod.fst) (declared.map Prod.snd).zipIdx
      .empty).Counted declared.length := by
    rw [← hlen]
    refine counted_linkAll (IndexGraph.counted_empty _) ?_
    rintro ⟨keys, i⟩ hmem
    obtain ⟨key, hget⟩ := (hentry keys i).mp hmem
    obtain ⟨hlt, _⟩ := List.getElem?_eq_some_iff.mp hget
    exact ⟨by rw [hlen]; exact hlt, hkeys _ (List.mem_of_getElem? hget)⟩
  have hedge : ∀ i j, i ∈ (linkAll (declared.map Prod.fst) (declared.map Prod.snd).zipIdx
      .empty).adjacency j ↔
      ∃ entry, declared[i]? = some entry ∧
        ∃ key ∈ entry.2, (declared.map Prod.fst).idxOf key = j := by
    intro i j
    rw [mem_linkAll]
    simp only [IndexGraph.empty, not_mem_nil, false_or, hentry, Prod.exists]
    constructor
    · rintro ⟨keys, ⟨key, hget⟩, hkey⟩
      exact ⟨key, keys, hget, hkey⟩
    · rintro ⟨key, keys, hget, hkey⟩
      exact ⟨keys, ⟨key, hget⟩, hkey⟩
  have hidx : ∀ i entry, declared[i]? = some entry →
      (declared.map Prod.fst).idxOf entry.1 = i := by
    intro i entry hget
    have hget' : (declared.map Prod.fst)[i]? = some entry.1 := by
      rw [getElem?_map, hget]
      rfl
    obtain ⟨hlt, heq⟩ := List.getElem?_eq_some_iff.mp hget'
    rw [← heq]
    exact hnodup.idxOf_getElem i hlt
  rw [isAcyclic, beq_iff_eq, IndexGraph.visitAll_length_iff hcounted]
  constructor
  · rintro ⟨rank, hrank⟩
    refine ⟨fun key => rank ((declared.map Prod.fst).idxOf key), ?_⟩
    intro entry hmem key hkey
    obtain ⟨i, hget⟩ := getElem?_of_mem hmem
    have hlt : (declared.map Prod.fst).idxOf key < declared.length := by
      rw [← hlen]
      exact idxOf_lt_length_iff.mpr (hkeys entry hmem key hkey)
    have := hrank _ hlt i ((hedge i _).mpr ⟨entry, hget, key, hkey, rfl⟩)
    rw [← hidx i entry hget] at this
    exact this
  · rintro ⟨rank, hrank⟩
    refine ⟨fun i => rank ((declared.map Prod.fst).getD i ""), ?_⟩
    intro j _ i hi
    obtain ⟨entry, hget, key, hkey, rfl⟩ := (hedge i j).mp hi
    have hmem : entry ∈ declared := mem_of_getElem? hget
    have hi' : (declared.map Prod.fst).getD i "" = entry.1 := by
      rw [getD_eq_getElem?_getD, getElem?_map, hget]
      rfl
    have hj : (declared.map Prod.fst).getD ((declared.map Prod.fst).idxOf key) "" = key := by
      have hlt := idxOf_lt_length_iff.mpr (hkeys entry hmem key hkey)
      rw [getD_eq_getElem?_getD, getElem?_eq_getElem hlt, Option.getD_some]
      exact getElem_idxOf hlt
    dsimp only
    rw [hi', hj]
    exact hrank entry hmem key hkey

end Graph

section Loops

theorem foldlM_insertStepKey {steps : List WorkflowDagStepValidationInput} :
    steps.foldlM insertStepKey [] = .ok keys ↔
      (∀ step ∈ steps, ValidShape step.shape) ∧
        (steps.map WorkflowDagStepValidationInput.stepKey).Nodup ∧
        steps.map WorkflowDagStepValidationInput.stepKey = keys := by
  refine foldlM_distinct_keys _ fun keys step keys' => ?_
  simp only [insertStepKey, bind_eq_ok, exists_unit, mapError_eq_ok, validateStepShape_eq_ok_iff,
    rejectIf_eq_ok, decide_eq_false_iff_not, pure_eq_ok]

variable {stepKey : String} {graph' : IndexGraph}

theorem linkStep_eq_ok {step : WorkflowDagStepValidationInput × ℕ} :
    linkStep stepKeys graph step = .ok graph' ↔
      (ValidPrerequisites step.1.stepKey step.1.dependencies ∧
        ∀ key ∈ step.1.dependencies, key ∈ stepKeys) ∧
        linkKeys stepKeys step.2 graph step.1.dependencies = graph' := by
  have hgraph : ∀ (keys : List String) (state : List String × IndexGraph),
      (keys.foldl (fun state key => (state.1 ++ [key],
        state.2.addEdge (stepKeys.idxOf key) step.2)) state).2 =
      linkKeys stepKeys step.2 state.2 keys := by
    intro keys
    induction keys with
    | nil => exact fun _ => rfl
    | cons key keys ih => exact fun state => ih _
  have hlink : ∀ state key state',
      linkDependency stepKeys step.1.stepKey step.2 state key = .ok state' ↔
        ((isBlank key = false ∧ key ≠ step.1.stepKey) ∧ key ∈ stepKeys) ∧ key ∉ state.1 ∧
          (state.1 ++ [key], state.2.addEdge (stepKeys.idxOf key) step.2) = state' := by
    intro state key state'
    simp only [linkDependency, bind_eq_ok, exists_unit, mapError_eq_ok,
      validateStepDependencyShape_eq_ok, rejectIf_eq_ok, decide_eq_false_iff_not, not_not,
      pure_eq_ok]
    grind
  simp only [linkStep, bind_eq_ok, pure_eq_ok, validPrerequisites_iff,
    foldlM_distinct _ Prod.fst id (fun _ _ => rfl) hlink, map_id, forall_and]
  constructor
  · rintro ⟨_, ⟨⟨hvalid, hkeys⟩, _, hnodup, rfl⟩, rfl⟩
    exact ⟨⟨⟨hvalid, hnodup⟩, hkeys⟩, (hgraph _ ([], graph)).symm⟩
  · rintro ⟨⟨⟨hvalid, hnodup⟩, hkeys⟩, rfl⟩
    exact ⟨_, ⟨⟨hvalid, hkeys⟩, by simp, hnodup, rfl⟩, hgraph _ ([], graph)⟩

theorem foldlM_linkStep {steps : List (WorkflowDagStepValidationInput × ℕ)} :
    steps.foldlM (linkStep stepKeys) graph = .ok graph' ↔
      (∀ step ∈ steps, ValidPrerequisites step.1.stepKey step.1.dependencies ∧
        ∀ key ∈ step.1.dependencies, key ∈ stepKeys) ∧
        linkAll stepKeys (steps.map fun step => (step.1.dependencies, step.2)) graph = graph' := by
  rw [linkAll, foldl_map]
  refine foldlM_admits _ ?_
  exact fun _ _ _ => linkStep_eq_ok

theorem foldlM_insertAppendedKey {steps : List WorkflowStepEnqueue} :
    steps.foldlM (insertAppendedKey existingStepKeys) [] = .ok keys ↔
      (∀ step ∈ steps, (ValidShape step.shape ∧
          ValidPrerequisites step.stepKey (prerequisiteKeys step.dependencies)) ∧
          step.stepKey ∉ existingStepKeys) ∧
        (steps.map WorkflowStepEnqueue.stepKey).Nodup ∧
        steps.map WorkflowStepEnqueue.stepKey = keys := by
  refine foldlM_distinct_keys _ fun keys step keys' => ?_
  simp only [insertAppendedKey, bind_eq_ok, exists_unit, mapError_eq_ok,
    validateStepEnqueue_eq_ok_iff, rejectIf_eq_ok, decide_eq_false_iff_not, pure_eq_ok, and_assoc]

theorem foldlM_linkAppendedDependency :
    keys.foldlM (linkAppendedDependency existingStepKeys newStepKeys stepKey dependentIndex)
        graph = .ok graph' ↔
      (∀ key ∈ keys, key ∈ newStepKeys ∨ key ∈ existingStepKeys) ∧
        linkKeys newStepKeys dependentIndex graph (keys.filter (· ∈ newStepKeys)) = graph' := by
  have hlink : ∀ graph key graph', linkAppendedDependency existingStepKeys newStepKeys stepKey
      dependentIndex graph key = .ok graph' ↔ (key ∈ newStepKeys ∨ key ∈ existingStepKeys) ∧
        (if key ∈ newStepKeys then graph.addEdge (newStepKeys.idxOf key) dependentIndex
          else graph) = graph' := by
    intro graph key graph'
    unfold linkAppendedDependency
    split_ifs <;> simp [*]
  rw [foldlM_admits _ hlink, linkKeys, foldl_filter]
  simp

theorem foldlM_linkAppendedStep {steps : List (WorkflowStepEnqueue × ℕ)} :
    steps.foldlM (linkAppendedStep existingStepKeys newStepKeys) graph = .ok graph' ↔
      (∀ step ∈ steps, ∀ key ∈ prerequisiteKeys step.1.dependencies,
          key ∈ newStepKeys ∨ key ∈ existingStepKeys) ∧
        linkAll newStepKeys (steps.map fun step =>
          ((prerequisiteKeys step.1.dependencies).filter (· ∈ newStepKeys), step.2)) graph =
          graph' := by
  rw [linkAll, foldl_map]
  refine foldlM_admits _ ?_
  exact fun _ _ _ => foldlM_linkAppendedDependency

end Loops

section Accepted

/-- A property of the steps of a numbered list is one of the steps. -/
theorem forall_mem_zipIdx {l : List α} {P : α → Prop} :
    (∀ entry ∈ l.zipIdx, P entry.1) ↔ ∀ a ∈ l, P a := by
  constructor
  · intro h a ha
    obtain ⟨i, hi⟩ := getElem?_of_mem ha
    exact h (a, i) (mem_zipIdx_iff_getElem?.mpr hi)
  · rintro h ⟨a, i⟩ hmem
    exact h a (mem_of_getElem? (mem_zipIdx_iff_getElem?.mp hmem))

/-- Inputs that form a workflow graph. -/
structure AcceptedGraph (steps : List WorkflowDagStepValidationInput) : Prop where
  nonempty : steps ≠ []
  shape : ∀ step ∈ steps, ValidShape step.shape
  nodup : (steps.map WorkflowDagStepValidationInput.stepKey).Nodup
  prerequisites : ∀ step ∈ steps, ValidPrerequisites step.stepKey step.dependencies
  known : ∀ step ∈ steps, ∀ key ∈ step.dependencies,
    key ∈ steps.map WorkflowDagStepValidationInput.stepKey
  orderable : Orderable (steps.map fun step => (step.stepKey, step.dependencies))

variable {steps : List WorkflowDagStepValidationInput}

/-- The graph of steps with distinct keys that name only each other. -/
theorem isAcyclic_iff {steps : List α} {key : α → String} {deps : α → List String}
    (hnodup : (steps.map key).Nodup)
    (hknown : ∀ step ∈ steps, ∀ name ∈ deps step, name ∈ steps.map key) :
    isAcyclic (linkAll (steps.map key) (steps.zipIdx.map fun step => (deps step.1, step.2)) .empty)
        steps.length = true ↔ Orderable (steps.map fun step => (key step, deps step)) := by
  have hgraph : (steps.zipIdx.map fun step => (deps step.1, step.2)) =
      ((steps.map fun step => (key step, deps step)).map Prod.snd).zipIdx := by
    rw [map_map, zipIdx_map]
    rfl
  have hlen : steps.length = (steps.map fun step => (key step, deps step)).length := by
    rw [length_map]
  rw [hgraph, hlen]
  refine isAcyclic_linkAll_iff ?_ hnodup ?_
  · rw [map_map]
    rfl
  · rw [forall_mem_map]
    exact hknown

theorem validateWorkflowDag_eq_ok_iff {workflowType : String} :
    validateWorkflowDag workflowType steps = .ok () ↔
      isBlank workflowType = false ∧ AcceptedGraph steps := by
  have hzip := @forall_mem_zipIdx _ steps fun step =>
    ValidPrerequisites step.stepKey step.dependencies ∧
      ∀ key ∈ step.dependencies, key ∈ steps.map WorkflowDagStepValidationInput.stepKey
  simp only [validateWorkflowDag, bind_eq_ok, exists_unit, rejectIf_eq_ok, foldlM_insertStepKey,
    foldlM_linkStep, Bool.not_eq_false']
  constructor
  · rintro ⟨htype, hne, _, ⟨hshape, hnodup, rfl⟩, _, ⟨hpres, rfl⟩, horder⟩
    have hlinked := hzip.mp hpres
    have hknown := fun step hstep => (hlinked step hstep).2
    exact ⟨htype, by simpa using hne, hshape, hnodup,
      fun step hstep => (hlinked step hstep).1, hknown,
      (isAcyclic_iff hnodup hknown).mp horder⟩
  · rintro ⟨htype, h⟩
    have hlinked := hzip.mpr fun step hstep => ⟨h.prerequisites step hstep, h.known step hstep⟩
    exact ⟨htype, by simpa using h.nonempty, _, ⟨h.shape, h.nodup, rfl⟩, _,
      ⟨hlinked, rfl⟩, (isAcyclic_iff h.nodup h.known).mpr h.orderable⟩

/-- Steps that form a workflow graph. -/
structure AcceptedSteps (steps : List WorkflowStepEnqueue) : Prop where
  nonempty : steps ≠ []
  shape : ∀ step ∈ steps, ValidShape step.shape
  nodup : (steps.map WorkflowStepEnqueue.stepKey).Nodup
  prerequisites : ∀ step ∈ steps,
    ValidPrerequisites step.stepKey (prerequisiteKeys step.dependencies)
  known : ∀ step ∈ steps, ∀ key ∈ prerequisiteKeys step.dependencies,
    key ∈ steps.map WorkflowStepEnqueue.stepKey
  orderable : Orderable
    (steps.map fun step => (step.stepKey, prerequisiteKeys step.dependencies))

theorem map_stepKey_dagInput (steps : List WorkflowStepEnqueue) :
    (steps.map WorkflowStepEnqueue.dagInput).map WorkflowDagStepValidationInput.stepKey =
      steps.map WorkflowStepEnqueue.stepKey := by
  rw [map_map]
  rfl

theorem acceptedGraph_dagInput_iff {steps : List WorkflowStepEnqueue} :
    AcceptedGraph (steps.map WorkflowStepEnqueue.dagInput) ↔ AcceptedSteps steps := by
  have horderable : ((steps.map WorkflowStepEnqueue.dagInput).map fun step =>
      (step.stepKey, step.dependencies)) =
      steps.map fun step => (step.stepKey, prerequisiteKeys step.dependencies) := by
    rw [map_map]
    rfl
  constructor
  · rintro ⟨hne, hshape, hnodup, hpres, hknown, horder⟩
    rw [forall_mem_map] at hshape hpres hknown
    rw [map_stepKey_dagInput] at hnodup hknown
    rw [horderable] at horder
    exact ⟨by simpa using hne, hshape, hnodup, hpres, hknown, horder⟩
  · rintro ⟨hne, hshape, hnodup, hpres, hknown, horder⟩
    refine ⟨by simpa using hne, ?_, ?_, ?_, ?_, ?_⟩
    · rwa [forall_mem_map]
    · rwa [map_stepKey_dagInput]
    · rwa [forall_mem_map]
    · rw [forall_mem_map, map_stepKey_dagInput]
      exact hknown
    · rwa [horderable]

/-- Payloads that pass validation. -/
structure AcceptedRun (payload : WorkflowRunEnqueue) : Prop where
  workflowType : isBlank payload.workflowType = false
  idempotencyKey : ∀ key, payload.idempotencyKey = some key → isBlank key = false
  activeKey : ∀ key, payload.activeKey = some key → isBlank key = false ∧ key.utf8ByteSize ≤ 512
  resultStepKey : ∀ key, payload.resultStepKey = some key →
    isBlank key = false ∧ key ∈ payload.steps.map WorkflowStepEnqueue.stepKey
  steps : AcceptedSteps payload.steps

theorem any_eq_false_iff {value : Option α} {p : α → Bool} :
    value.any p = false ↔ ∀ a, value = some a → p a = false := by
  cases value <;> simp

/-- Validation accepts exactly these payloads. -/
theorem validateWorkflowRunEnqueue_eq_ok_iff {payload : WorkflowRunEnqueue} :
    validateWorkflowRunEnqueue payload = .ok () ↔ AcceptedRun payload := by
  have hres : ∀ key, (payload.steps.any fun step => decide (step.stepKey = key)) = true ↔
      key ∈ payload.steps.map WorkflowStepEnqueue.stepKey := by
    intro key
    simp
  simp only [validateWorkflowRunEnqueue, bind_eq_ok, exists_unit, rejectIf_eq_ok,
    any_eq_false_iff, decide_eq_false_iff_not, not_lt, validateWorkflowDag_eq_ok_iff,
    acceptedGraph_dagInput_iff, forM_eq_ok, Bool.not_eq_false', hres]
  constructor
  · rintro ⟨hidempotency, hblank, hlong, hresBlank, ⟨htype, hsteps⟩, hresKnown⟩
    exact ⟨htype, hidempotency, fun key hkey => ⟨hblank key hkey, hlong key hkey⟩,
      fun key hkey => ⟨hresBlank key hkey, hresKnown key hkey⟩, hsteps⟩
  · intro h
    exact ⟨h.idempotencyKey, fun key hkey => (h.activeKey key hkey).1,
      fun key hkey => (h.activeKey key hkey).2, fun key hkey => (h.resultStepKey key hkey).1,
      ⟨h.workflowType, h.steps⟩, fun key hkey => (h.resultStepKey key hkey).2⟩

/-- Steps that may be appended to a workflow with the given keys. -/
structure AcceptedAppend (existingStepKeys : List String) (steps : List WorkflowStepEnqueue) :
    Prop where
  nonempty : steps ≠ []
  shape : ∀ step ∈ steps, ValidShape step.shape
  nodup : (steps.map WorkflowStepEnqueue.stepKey).Nodup
  prerequisites : ∀ step ∈ steps,
    ValidPrerequisites step.stepKey (prerequisiteKeys step.dependencies)
  fresh : ∀ step ∈ steps, step.stepKey ∉ existingStepKeys
  known : ∀ step ∈ steps, ∀ key ∈ prerequisiteKeys step.dependencies,
    key ∈ steps.map WorkflowStepEnqueue.stepKey ∨ key ∈ existingStepKeys
  orderable : Orderable (steps.map fun step => (step.stepKey,
    (prerequisiteKeys step.dependencies).filter
      (· ∈ steps.map WorkflowStepEnqueue.stepKey)))

/-- Validation accepts exactly these appended steps. -/
theorem validateWorkflowStepAppend_eq_ok_iff {steps : List WorkflowStepEnqueue} :
    validateWorkflowStepAppend existingStepKeys steps = .ok () ↔
      AcceptedAppend existingStepKeys steps := by
  have hzip := @forall_mem_zipIdx _ steps fun step =>
    ∀ key ∈ prerequisiteKeys step.dependencies,
      key ∈ steps.map WorkflowStepEnqueue.stepKey ∨ key ∈ existingStepKeys
  have hinner : ∀ step ∈ steps, ∀ key ∈ (prerequisiteKeys step.dependencies).filter
      (· ∈ steps.map WorkflowStepEnqueue.stepKey), key ∈ steps.map WorkflowStepEnqueue.stepKey :=
    fun _ _ _ hkey => by simpa using (mem_filter.mp hkey).2
  simp only [validateWorkflowStepAppend, bind_eq_ok, exists_unit, rejectIf_eq_ok,
    foldlM_insertAppendedKey, foldlM_linkAppendedStep, Bool.not_eq_false']
  constructor
  · rintro ⟨hne, _, ⟨hsteps, hnodup, rfl⟩, _, ⟨hknown, rfl⟩, hacyclic⟩
    exact ⟨by simpa using hne, fun step hstep => (hsteps step hstep).1.1, hnodup,
      fun step hstep => (hsteps step hstep).1.2, fun step hstep => (hsteps step hstep).2,
      hzip.mp hknown, (isAcyclic_iff hnodup hinner).mp hacyclic⟩
  · intro h
    exact ⟨by simpa using h.nonempty, _,
      ⟨fun step hstep => ⟨⟨h.shape step hstep, h.prerequisites step hstep⟩, h.fresh step hstep⟩,
        h.nodup, rfl⟩, _, ⟨hzip.mpr h.known, rfl⟩,
      (isAcyclic_iff h.nodup hinner).mpr h.orderable⟩

end Accepted

end Batter.Runledger
