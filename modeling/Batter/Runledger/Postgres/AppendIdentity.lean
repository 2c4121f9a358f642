import Batter.Runledger.Postgres.Mutate

/-!
# A repeated append is recognized by what it asks for

A stored append is read back, normalized once more and compared with the canonical form
of the repeated request, step by step; payloads that differ as values are compared by the
database.  The normalization of a canonical form changes nothing, and sorted steps match
one by one exactly when the requests agree in some order of their steps.
-/

namespace Batter.Runledger

open List

namespace Postgres

variable {left right : List WorkflowStepEnqueue}

namespace JsonbEquality

variable (jsonb : JsonbEquality)

theorem storedAppendStepsMatch_iff {left right : List CanonicalWorkflowStep} :
    jsonb.storedAppendStepsMatch left right = true ↔
      List.Forall₂ (fun left right => storedAppendStepFieldsMatch left right = true ∧
        jsonb.equal left.payload right.payload = true) left right := by
  have hpayload : ∀ a b : Json, (a = b ∨ jsonb.equal a b = true) ↔ jsonb.equal a b = true :=
    fun a b => or_iff_right_of_imp fun h => h ▸ jsonb.equivalence.refl a
  rw [forall₂_iff_zip, storedAppendStepsMatch]
  simp [hpayload]

end JsonbEquality

section Normal

variable {org : Option ℕ} {steps : List WorkflowStepEnqueue}

/-- Dependencies have one order. -/
theorem sortDependencies_eq_iff {left right : List CanonicalWorkflowDependency} :
    sortDependencies left = sortDependencies right ↔ left.Perm right := by
  constructor
  · intro h
    have hleft : (sortDependencies left).Perm left := orderedBy_perm _ left
    rw [h] at hleft
    exact hleft.symm.trans (orderedBy_perm _ right)
  · intro h
    refine (((orderedBy_perm _ left).trans h).trans (orderedBy_perm _ right).symm).eq_of_pairwise ?_
      (pairwise_map.mp (pairwise_orderedBy _ left))
      (pairwise_map.mp (pairwise_orderedBy _ right))
    rintro ⟨key, mode⟩ ⟨key', mode'⟩ - - hle hge
    simpa using le_antisymm hle hge

theorem normalizeStoredStep_canonical (org : Option ℕ) (step : WorkflowStepEnqueue) :
    normalizeStoredStep org (canonicalWorkflowStep org step) = canonicalWorkflowStep org step := by
  have hdeps : ∀ dependencies,
      sortDependencies (sortDependencies dependencies) = sortDependencies dependencies :=
    fun dependencies => sortDependencies_eq_iff.mpr (orderedBy_perm _ dependencies)
  cases hexec : step.execution <;>
    simp [normalizeStoredStep, canonicalWorkflowStep, workflowStepEffectiveOrganizationId,
      workflowStepEffectiveStage, WorkflowStepEnqueue.executionKind, hexec, hdeps,
      WorkflowStepExecutionKind.asDbValue, Option.or_assoc]

theorem canonicalWorkflowSteps_eq (hnodup : (steps.map WorkflowStepEnqueue.stepKey).Nodup) :
    canonicalWorkflowSteps org steps =
      (orderedBy WorkflowStepEnqueue.stepKey steps).map (canonicalWorkflowStep org) := by
  refine orderedBy_eq ?_ ((orderedBy_perm _ steps).map _) ?_
  · rw [map_map]
    exact hnodup
  · rw [map_map]
    exact pairwise_orderedBy _ steps

theorem deserializeStoredAppendRequest_canonical (window : String)
    (hnodup : (steps.map WorkflowStepEnqueue.stepKey).Nodup)
    (hrange : ∀ step ∈ steps, (canonicalWorkflowStep org step).InRange) :
    deserializeStoredAppendRequest (canonicalAppendRequest window org steps).toJson org =
      .ok (canonicalAppendRequest window org steps) := by
  have hcanon : ∀ step ∈ (canonicalAppendRequest window org steps).steps, step.InRange := by
    intro step hstep
    obtain ⟨source, hsrc, rfl⟩ := mem_map.mp (mem_orderedBy.mp hstep)
    exact hrange source hsrc
  have hread := CanonicalAppendRequest.fromJson_toJson false hcanon
  have hnormal : (canonicalWorkflowSteps org steps).map (normalizeStoredStep org) =
      canonicalWorkflowSteps org steps := by
    rw [canonicalWorkflowSteps_eq hnodup, map_map]
    exact map_congr_left fun step _ => normalizeStoredStep_canonical org step
  have hsorted : orderedBy CanonicalWorkflowStep.stepKey (canonicalWorkflowSteps org steps) =
      canonicalWorkflowSteps org steps := by
    refine orderedBy_eq ?_ (.refl _) (pairwise_orderedBy _ _)
    rw [canonicalWorkflowSteps_eq hnodup, map_map]
    exact ((orderedBy_perm _ steps).map _).nodup_iff.mpr hnodup
  simp only [deserializeStoredAppendRequest, hread, require, bind, Except.bind, pure, Except.pure]
  simp only [canonicalAppendRequest, hnormal, hsorted]

end Normal

section Logical

variable (jsonb : JsonbEquality) (org : Option ℕ)

/-- What a dependency asks for. -/
def effectiveDependency (dependency : WorkflowStepDependencySpec) :
    String × WorkflowDependencyReleaseMode :=
  (dependency.prerequisiteStepKey, dependency.effectiveReleaseMode)

/-- Two steps ask for the same in a run of an organization. -/
structure SameStep (left right : WorkflowStepEnqueue) : Prop where
  stepKey : left.stepKey = right.stepKey
  executionKind : left.executionKind = right.executionKind
  jobType : left.jobType = right.jobType
  organizationId : workflowStepEffectiveOrganizationId org left =
    workflowStepEffectiveOrganizationId org right
  payload : jsonb.equal left.payload right.payload = true
  priority : left.priority = right.priority
  maxAttempts : left.maxAttempts = right.maxAttempts
  timeoutSeconds : left.timeoutSeconds = right.timeoutSeconds
  stage : workflowStepEffectiveStage left = workflowStepEffectiveStage right
  allowsHandlerContinuation : left.allowsHandlerContinuation = right.allowsHandlerContinuation
  executionResourceKey : left.executionResourceKey = right.executionResourceKey
  dependencies : (left.dependencies.map effectiveDependency).Perm
    (right.dependencies.map effectiveDependency)

/-- Two appends ask for the same, in some order of their steps. -/
def SameAppend (left right : AppendWorkflowStepsInput) : Prop :=
  left.appendWindowStepKey = right.appendWindowStepKey ∧ ∃ lefts rights,
    lefts.Perm left.steps ∧ rights.Perm right.steps ∧
      List.Forall₂ (SameStep jsonb org) lefts rights

/-- A code that can be read back is not shared. -/
theorem eq_of_decode {α : Type} {encode : α → String} {decode : String → Option α}
    (h : ∀ a, decode (encode a) = some a) : Function.Injective encode :=
  fun a b heq => Option.some_injective _ (by rw [← h a, heq, h])

variable {jsonb org}

theorem sortDependencies_canonical_iff {left right : List WorkflowStepDependencySpec} :
    sortDependencies (left.map canonicalWorkflowDependency) =
        sortDependencies (right.map canonicalWorkflowDependency) ↔
      (left.map effectiveDependency).Perm (right.map effectiveDependency) := by
  let write (pair : String × WorkflowDependencyReleaseMode) : CanonicalWorkflowDependency :=
    ⟨pair.1, pair.2.asDbValue⟩
  have hwrite : Function.Injective write := by
    rintro ⟨key, mode⟩ ⟨key', mode'⟩ h
    have hmode := eq_of_decode WorkflowDependencyReleaseMode.fromDbValue_asDbValue
      (congrArg CanonicalWorkflowDependency.releaseMode h)
    exact Prod.ext (congrArg CanonicalWorkflowDependency.prerequisiteStepKey h) hmode
  have hmap : canonicalWorkflowDependency = write ∘ effectiveDependency := rfl
  rw [sortDependencies_eq_iff, hmap, ← map_map, ← map_map, map_perm_map_iff hwrite]

/-- Canonical steps match when their steps ask for the same. -/
theorem canonical_match_iff {left right : WorkflowStepEnqueue} :
    (storedAppendStepFieldsMatch (canonicalWorkflowStep org left)
        (canonicalWorkflowStep org right) = true ∧
      jsonb.equal (canonicalWorkflowStep org left).payload
        (canonicalWorkflowStep org right).payload = true) ↔ SameStep jsonb org left right := by
  have hkind := eq_of_decode WorkflowStepExecutionKind.fromDbValue_asDbValue
  have hstage := Option.map_injective (eq_of_decode JobStage.fromDbValue_asDbValue)
  simp only [storedAppendStepFieldsMatch, Bool.and_eq_true, decide_eq_true_eq, and_assoc]
  simp only [canonicalWorkflowStep, hkind.eq_iff, hstage.eq_iff, sortDependencies_canonical_iff]
  constructor
  · rintro ⟨hkey, hkind, hjob, horg, hprio, hatts, htimeout, hstage, hcont, hres, hdeps, hpayload⟩
    exact ⟨hkey, hkind, hjob, horg, hpayload, hprio, hatts, htimeout, hstage, hcont, hres, hdeps⟩
  · intro h
    exact ⟨h.stepKey, h.executionKind, h.jobType, h.organizationId, h.priority, h.maxAttempts,
      h.timeoutSeconds, h.stage, h.allowsHandlerContinuation, h.executionResourceKey,
      h.dependencies, h.payload⟩

theorem storedAppendStepsMatch_canonical_iff (hleft : (left.map WorkflowStepEnqueue.stepKey).Nodup)
    (hright : (right.map WorkflowStepEnqueue.stepKey).Nodup) :
    jsonb.storedAppendStepsMatch (canonicalWorkflowSteps org left)
        (canonicalWorkflowSteps org right) = true ↔
      ∃ lefts rights, lefts.Perm left ∧ rights.Perm right ∧
        List.Forall₂ (SameStep jsonb org) lefts rights := by
  rw [jsonb.storedAppendStepsMatch_iff, canonicalWorkflowSteps_eq hleft,
    canonicalWorkflowSteps_eq hright, forall₂_map_left_iff, forall₂_map_right_iff]
  simp only [canonical_match_iff]
  exact forall₂_orderedBy_iff (fun _ _ h => h.stepKey) hleft hright

/-- The steps of an append in another order, each with its dependencies in another order. -/
def Reordered (left right : List WorkflowStepEnqueue) : Prop :=
  ∃ listed, listed.Perm right ∧ List.Forall₂ (fun step step' => ∃ dependencies,
    dependencies.Perm step'.dependencies ∧ step = { step' with dependencies }) left listed

theorem Reordered.canonical_eq (h : Reordered left right)
    (hnodup : (right.map WorkflowStepEnqueue.stepKey).Nodup) :
    canonicalWorkflowSteps org left = canonicalWorkflowSteps org right := by
  obtain ⟨listed, hperm, h⟩ := h
  have hmap : left.map (canonicalWorkflowStep org) = listed.map (canonicalWorkflowStep org) := by
    rw [← forall₂_eq_eq_eq, forall₂_map_left_iff, forall₂_map_right_iff]
    refine h.imp ?_
    rintro step step' ⟨deps, hdeps, rfl⟩
    exact congrArg
      (fun dependencies => { canonicalWorkflowStep org step' with dependencies })
      (sortDependencies_eq_iff.mpr (hdeps.map _))
  have hnodup' : ((right.map (canonicalWorkflowStep org)).map
      CanonicalWorkflowStep.stepKey).Nodup := by
    rw [map_map]
    exact hnodup
  refine (orderedBy_eq hnodup' ?_ (pairwise_orderedBy _ _)).symm
  exact (orderedBy_perm _ _).trans (hmap ▸ hperm.map _)

/-- A repeated append is accepted exactly when it asks for what the stored one asked for,
whatever the order of its steps and of their dependencies. -/
theorem append_comparison_is_logical (jsonb : JsonbEquality) (org : Option ℕ) :
    (∀ (stored requested : AppendWorkflowStepsInput) (keys keys' : List String),
      validateWorkflowStepAppend keys stored.steps = .ok () →
      validateWorkflowStepAppend keys' requested.steps = .ok () →
      (∀ step ∈ stored.steps, (canonicalWorkflowStep org step).InRange) →
      ∃ same, jsonb.storedAppendRequestMatches
          (canonicalAppendRequest stored.appendWindowStepKey org stored.steps).toJson org
          (canonicalAppendRequest requested.appendWindowStepKey org requested.steps) = .ok same ∧
        (same = true ↔ SameAppend jsonb org stored requested)) ∧
    (∀ append, SameAppend jsonb org append append) ∧
    (∀ left right, SameAppend jsonb org left right → SameAppend jsonb org right left) ∧
    ∀ window left right, Reordered left right →
      (right.map WorkflowStepEnqueue.stepKey).Nodup →
        canonicalAppendRequest window org left = canonicalAppendRequest window org right := by
  refine ⟨?_, ?_, ?_, ?_⟩
  · intro stored requested keys keys' hstored hrequested hrange
    have hleft := (validateWorkflowStepAppend_eq_ok_iff.mp hstored).nodup
    have hright := (validateWorkflowStepAppend_eq_ok_iff.mp hrequested).nodup
    refine ⟨_, RustStd.bind_eq_ok.mpr
      ⟨_, deserializeStoredAppendRequest_canonical _ hleft hrange, rfl⟩, ?_⟩
    simp [canonicalAppendRequest, storedAppendStepsMatch_canonical_iff hleft hright, SameAppend]
  · intro append
    refine ⟨rfl, _, _, .refl _, .refl _, List.forall₂_same.mpr fun step _ => ?_⟩
    exact ⟨rfl, rfl, rfl, rfl, jsonb.equivalence.refl _, rfl, rfl, rfl, rfl, rfl, rfl, .refl _⟩
  · rintro left right ⟨hwindow, lefts, rights, hlefts, hrights, hsteps⟩
    refine ⟨hwindow.symm, rights, lefts, hrights, hlefts, hsteps.flip.imp ?_⟩
    intro step step' h
    exact ⟨h.stepKey.symm, h.executionKind.symm, h.jobType.symm, h.organizationId.symm,
      jsonb.equivalence.symm h.payload, h.priority.symm, h.maxAttempts.symm,
      h.timeoutSeconds.symm, h.stage.symm, h.allowsHandlerContinuation.symm,
      h.executionResourceKey.symm, h.dependencies.symm⟩
  · intro window left right h hnodup
    rw [canonicalAppendRequest, canonicalAppendRequest, h.canonical_eq hnodup]

/-- A job and an external step, appended while the step extract waits. -/
def sampleAppend : AppendWorkflowStepsInput where
  workflowRunId := 0
  organizationId := none
  mutationKey := "notify"
  appendWindowStepKey := "extract"
  steps :=
    [⟨"notify", .job ⟨"mail.send", none, none, none, none, false, none⟩, none,
      .obj [("to", .str "ops")], [⟨"extract", none⟩, ⟨"load", some .onSuccess⟩]⟩,
    ⟨"archive", .external, none, .obj [], [⟨"notify", some .onTerminal⟩]⟩]

/-- The same append with its steps and their dependencies listed the other way. -/
def reorderedAppend : AppendWorkflowStepsInput :=
  { sampleAppend with steps := (sampleAppend.steps.map fun step =>
      { step with dependencies := step.dependencies.reverse }).reverse }

/-- The same append with another payload. -/
def changedAppend : AppendWorkflowStepsInput :=
  { sampleAppend with steps := sampleAppend.steps.map fun step => { step with payload := .null } }

/-- The append is recognized in another order of its steps, and not with another payload. -/
theorem reordered_append_is_recognized :
    JsonbEquality.ofValues.storedAppendRequestMatches
        (canonicalAppendRequest "extract" none sampleAppend.steps).toJson none
        (canonicalAppendRequest "extract" none reorderedAppend.steps) = .ok true ∧
      ¬ SameAppend JsonbEquality.ofValues none sampleAppend changedAppend := by
  obtain ⟨hcompare, hrefl, _, hreordered⟩ :=
    append_comparison_is_logical JsonbEquality.ofValues none
  have hrange : ∀ step ∈ sampleAppend.steps, (canonicalWorkflowStep none step).InRange := by
    simp only [sampleAppend, forall_mem_cons, not_mem_nil, IsEmpty.forall_iff, implies_true,
      and_true]
    exact ⟨⟨nofun, nofun, nofun⟩, nofun, nofun, nofun⟩
  have hvalid : validateWorkflowStepAppend ["extract", "load"] sampleAppend.steps = .ok () := by
    decide +kernel
  have hchanged : validateWorkflowStepAppend ["extract", "load"] changedAppend.steps = .ok () := by
    decide +kernel
  constructor
  · obtain ⟨same, hsame, hiff⟩ := hcompare _ _ _ _ hvalid hvalid hrange
    have horder : Reordered sampleAppend.steps reorderedAppend.steps :=
      ⟨reorderedAppend.steps.reverse, reverse_perm _, .cons ⟨_, .swap _ _ _, rfl⟩
        (.cons ⟨_, .refl _, rfl⟩ .nil)⟩
    rw [← hreordered _ _ _ horder (by decide), ← hiff.mpr (hrefl _)]
    exact hsame
  · obtain ⟨same, hsame, hiff⟩ := hcompare _ _ _ _ hvalid hchanged hrange
    have hdiffer : JsonbEquality.ofValues.storedAppendRequestMatches
        (canonicalAppendRequest "extract" none sampleAppend.steps).toJson none
        (canonicalAppendRequest "extract" none changedAppend.steps) = .ok false := by
      decide +kernel
    rw [← hiff, Except.ok.inj (hsame.symm.trans hdiffer)]
    exact Bool.false_ne_true

end Logical

end Postgres
end Batter.Runledger
