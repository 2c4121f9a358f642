import Batter.Runledger.Core.DagValidation

/-!
# Workflow graphs that grow

A workflow graph is validated as a whole when it is created, and afterwards only the
appended steps are: their prerequisites among the steps already there are taken on
trust, and only edges between the new steps are searched for a cycle.  Both ways
accept the same workflows, because no old step depends on a new one.

An order of the old steps and one of the new steps make an order of all steps in
which every old step comes before the new ones.
-/

namespace Batter.Runledger

open RustStd List

/-- A step of the list has the first key and names the second as a prerequisite. -/
def DependsOn (steps : List WorkflowDagStepValidationInput) (key prerequisite : String) : Prop :=
  ∃ step ∈ steps, step.stepKey = key ∧ prerequisite ∈ step.dependencies

section Cycle

variable {steps : List WorkflowDagStepValidationInput}

/-- Steps that name only each other can be ordered exactly when they have no cycle. -/
theorem orderable_iff_acyclic (hknown : ∀ step ∈ steps, ∀ key ∈ step.dependencies,
      key ∈ steps.map WorkflowDagStepValidationInput.stepKey) :
    Orderable (steps.map fun step => (step.stepKey, step.dependencies)) ↔
      ∀ key, ¬ Relation.TransGen (DependsOn steps) key key := by
  have hfinite : ∀ key pre, DependsOn steps key pre →
      pre ∈ (steps.map WorkflowDagStepValidationInput.stepKey).toFinset := by
    rintro key pre ⟨step, hstep, -, hpre⟩
    exact mem_toFinset.mpr (hknown step hstep pre hpre)
  rw [← exists_rank_iff hfinite, Orderable]
  refine exists_congr fun rank => ?_
  rw [forall_mem_map]
  constructor
  · rintro h key pre ⟨step, hstep, rfl, hpre⟩
    exact h step hstep pre hpre
  · intro h step hstep pre hpre
    exact h _ _ ⟨step, hstep, rfl, hpre⟩

/-- The graph whose cycles are searched has exact counters. -/
theorem counted_of_linked {stepKeys : List String} {graph : IndexGraph}
    (hkeys : steps.foldlM insertStepKey [] = .ok stepKeys)
    (hgraph : steps.zipIdx.foldlM (linkStep stepKeys) IndexGraph.empty = .ok graph) :
    graph.Counted steps.length := by
  obtain ⟨-, -, rfl⟩ := foldlM_insertStepKey.mp hkeys
  obtain ⟨hlinked, rfl⟩ := foldlM_linkStep.mp hgraph
  have hlen : steps.length = (steps.map WorkflowDagStepValidationInput.stepKey).length := by simp
  rw [hlen]
  refine counted_linkAll (IndexGraph.counted_empty _) ?_
  rw [forall_mem_map]
  intro entry hentry
  refine ⟨?_, (hlinked entry hentry).2⟩
  obtain ⟨hlt, -⟩ := List.getElem?_eq_some_iff.mp (List.mem_zipIdx_iff_getElem?.mp hentry)
  rwa [← hlen]

end Cycle

section Append

variable {existing : List WorkflowDagStepValidationInput} {appended : List WorkflowStepEnqueue}

/-- Orders of the old and of the new steps make an order of all of them. -/
theorem orderable_append (hknown : ∀ step ∈ existing, ∀ key ∈ step.dependencies,
      key ∈ existing.map WorkflowDagStepValidationInput.stepKey)
    (hfresh : ∀ step ∈ appended, step.stepKey ∉ existing.map WorkflowDagStepValidationInput.stepKey)
    (hreach : ∀ step ∈ appended, ∀ key ∈ prerequisiteKeys step.dependencies,
      key ∈ appended.map WorkflowStepEnqueue.stepKey ∨
        key ∈ existing.map WorkflowDagStepValidationInput.stepKey)
    (hold : Orderable (existing.map fun step => (step.stepKey, step.dependencies)))
    (hnew : Orderable (appended.map fun step => (step.stepKey,
      (prerequisiteKeys step.dependencies).filter
        (· ∈ appended.map WorkflowStepEnqueue.stepKey)))) :
    Orderable ((existing ++ appended.map WorkflowStepEnqueue.dagInput).map fun step =>
      (step.stepKey, step.dependencies)) := by
  obtain ⟨oldRank, hold⟩ := hold
  obtain ⟨newRank, hnew⟩ := hnew
  rw [forall_mem_map] at hold hnew
  let oldKeys := existing.map WorkflowDagStepValidationInput.stepKey
  let newKeys := appended.map WorkflowStepEnqueue.stepKey
  have hdisj : ∀ key ∈ oldKeys, key ∉ newKeys := by
    intro key hkey hmem
    obtain ⟨step, hstep, rfl⟩ := mem_map.mp hmem
    exact hfresh step hstep hkey
  have hbound : ∀ key ∈ oldKeys, oldRank key ≤ (oldKeys.map oldRank).sum := by
    intro key hkey
    exact single_le_sum (by simp) _ (mem_map_of_mem hkey)
  refine ⟨fun key => if key ∈ newKeys then (oldKeys.map oldRank).sum + 1 + newRank key
    else oldRank key, ?_⟩
  rw [forall_mem_map, forall_mem_append, forall_mem_map]
  refine ⟨fun step hstep key hkey => ?_, fun step hstep key hkey => ?_⟩
  · dsimp only
    rw [if_neg (hdisj key (hknown step hstep key hkey)), if_neg (hdisj _ (mem_map_of_mem hstep))]
    exact hold step hstep key hkey
  · dsimp only
    have hself : step.dagInput.stepKey ∈ newKeys :=
      mem_map_of_mem (f := WorkflowStepEnqueue.stepKey) hstep
    rw [if_pos hself]
    by_cases hmem : key ∈ newKeys
    · rw [if_pos hmem]
      have := hnew step hstep key (mem_filter.mpr ⟨hkey, decide_eq_true hmem⟩)
      change newRank key < newRank step.dagInput.stepKey at this
      omega
    · rw [if_neg hmem]
      have := hbound key ((hreach step hstep key hkey).resolve_left hmem)
      omega

/-- Steps appended to an accepted workflow make an accepted workflow. -/
theorem AcceptedGraph.append (h : AcceptedGraph existing)
    (happend : AcceptedAppend (existing.map WorkflowDagStepValidationInput.stepKey) appended) :
    AcceptedGraph (existing ++ appended.map WorkflowStepEnqueue.dagInput) := by
  refine ⟨?_, ?_, ?_, ?_, ?_, ?_⟩
  · simp [h.nonempty]
  · rw [forall_mem_append, forall_mem_map]
    exact ⟨h.shape, happend.shape⟩
  · rw [map_append, map_stepKey_dagInput, nodup_append]
    refine ⟨h.nodup, happend.nodup, ?_⟩
    rintro key hkey _ hother rfl
    obtain ⟨step, hstep, rfl⟩ := mem_map.mp hother
    exact happend.fresh step hstep hkey
  · rw [forall_mem_append, forall_mem_map]
    exact ⟨h.prerequisites, happend.prerequisites⟩
  · rw [forall_mem_append, forall_mem_map, map_append, map_stepKey_dagInput]
    refine ⟨fun step hstep key hkey => mem_append_left _ (h.known step hstep key hkey), ?_⟩
    intro step hstep key hkey
    exact mem_append.mpr (happend.known step hstep key hkey).symm
  · exact orderable_append h.known happend.fresh happend.known h.orderable happend.orderable

/-- The last steps of an accepted workflow could have been appended to the others. -/
theorem AcceptedGraph.acceptedAppend
    (h : AcceptedGraph (existing ++ appended.map WorkflowStepEnqueue.dagInput))
    (hne : appended ≠ []) :
    AcceptedAppend (existing.map WorkflowDagStepValidationInput.stepKey) appended := by
  have hshape := h.shape
  have hnodup := h.nodup
  have hpres := h.prerequisites
  have hknown := h.known
  rw [forall_mem_append, forall_mem_map] at hshape hpres hknown
  rw [map_append, map_stepKey_dagInput] at hnodup hknown
  rw [nodup_append] at hnodup
  refine ⟨hne, hshape.2, hnodup.2.1, hpres.2, ?_, ?_, ?_⟩
  · intro step hstep hmem
    exact hnodup.2.2 _ hmem _ (mem_map_of_mem hstep) rfl
  · intro step hstep key hkey
    exact (mem_append.mp (hknown.2 step hstep key hkey)).symm
  · obtain ⟨rank, hrank⟩ := h.orderable
    rw [forall_mem_map, forall_mem_append, forall_mem_map] at hrank
    refine ⟨rank, ?_⟩
    rw [forall_mem_map]
    intro step hstep key hkey
    exact hrank.2 step hstep key (mem_filter.mp hkey).1

end Append

/-- The search for a cycle with counters that never go below zero. -/
def isAcyclic? (graph : IndexGraph) (n : ℕ) : Option Bool :=
  (graph.visitAll? n).map fun visited => visited.length == n

/-- Validation accepts exactly the workflows without a fault and without a cycle, its
counters never underflow, and a workflow that was accepted and then extended by accepted
steps is the same as one accepted at once. -/
theorem workflow_graph_validation_is_exact_and_compositional (workflowType : String) :
    (∀ steps, validateWorkflowDag workflowType steps = .ok () ↔
      isBlank workflowType = false ∧ steps ≠ [] ∧
        (∀ step ∈ steps, validateStepShape step.shape = .ok ()) ∧
        (steps.map WorkflowDagStepValidationInput.stepKey).Nodup ∧
        (∀ step ∈ steps, step.dependencies.Nodup ∧ ∀ key ∈ step.dependencies,
          isBlank key = false ∧ key ≠ step.stepKey ∧ ∃ other ∈ steps, other.stepKey = key) ∧
        ∀ key, ¬ Relation.TransGen (DependsOn steps) key key) ∧
    (∀ (steps : List WorkflowDagStepValidationInput) stepKeys graph,
      steps.foldlM insertStepKey [] = .ok stepKeys →
      steps.zipIdx.foldlM (linkStep stepKeys) IndexGraph.empty = .ok graph →
      isAcyclic? graph steps.length = some (isAcyclic graph steps.length)) ∧
    (∀ existing appended, validateWorkflowDag workflowType existing = .ok () →
      validateWorkflowStepAppend (existing.map WorkflowDagStepValidationInput.stepKey) appended =
        .ok () →
      validateWorkflowDag workflowType (existing ++ appended.map WorkflowStepEnqueue.dagInput) =
        .ok ()) ∧
    ∀ existing appended,
      validateWorkflowDag workflowType (existing ++ appended.map WorkflowStepEnqueue.dagInput) =
        .ok () →
      (∀ step ∈ existing, ∀ key ∈ step.dependencies,
        key ∉ appended.map WorkflowStepEnqueue.stepKey) →
      appended ≠ [] →
      validateWorkflowStepAppend (existing.map WorkflowDagStepValidationInput.stepKey) appended =
        .ok () := by
  refine ⟨fun steps => ?_, fun steps stepKeys graph hkeys hgraph => ?_,
    fun existing appended hvalid happend => ?_, fun existing appended hvalid _ hne => ?_⟩
  · rw [validateWorkflowDag_eq_ok_iff]
    simp only [validateStepShape_eq_ok_iff]
    refine and_congr_right fun _ => ⟨fun h => ?_, ?_⟩
    · refine ⟨h.nonempty, h.shape, h.nodup, fun step hstep => ?_,
        (orderable_iff_acyclic h.known).mp h.orderable⟩
      have hpres := h.prerequisites step hstep
      refine ⟨hpres.nodup, fun key hkey => ⟨hpres.notBlank key hkey, ?_, ?_⟩⟩
      · rintro rfl
        exact hpres.notSelf hkey
      · exact List.mem_map.mp (h.known step hstep key hkey)
    · rintro ⟨hne, hshape, hnodup, hsteps, hacyclic⟩
      have hknown : ∀ step ∈ steps, ∀ key ∈ step.dependencies,
          key ∈ steps.map WorkflowDagStepValidationInput.stepKey :=
        fun step hstep key hkey => List.mem_map.mpr ((hsteps step hstep).2 key hkey).2.2
      refine ⟨hne, hshape, hnodup, fun step hstep => ?_, hknown,
        (orderable_iff_acyclic hknown).mpr hacyclic⟩
      exact ⟨fun key hkey => ((hsteps step hstep).2 key hkey).1,
        fun hself => ((hsteps step hstep).2 _ hself).2.1 rfl, (hsteps step hstep).1⟩
  · rw [isAcyclic?, IndexGraph.visitAll?_eq (counted_of_linked hkeys hgraph)]
    rfl
  · rw [validateWorkflowDag_eq_ok_iff] at hvalid ⊢
    exact ⟨hvalid.1, hvalid.2.append (validateWorkflowStepAppend_eq_ok_iff.mp happend)⟩
  · rw [validateWorkflowDag_eq_ok_iff] at hvalid
    exact validateWorkflowStepAppend_eq_ok_iff.mpr (hvalid.2.acceptedAppend hne)

end Batter.Runledger
