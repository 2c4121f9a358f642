import Batter.Runledger.Postgres.CancelRun
import Batter.Runledger.Postgres.Growth
import Batter.Runledger.Postgres.JobEnqueue
import Batter.Runledger.Postgres.Recovery

/-!
# Histories of the durable queue

A history is a sequence of transactions, each at its own time and atomic: one that
fails leaves the tables as they were.  `perform` runs a request, `history` a whole
sequence from the empty database.

What every transaction does is said once, by `perform_spec`: it writes what it adds
and then lets the rest of the database evolve.  The database of every history is
`Sound`.
-/

namespace Batter.Runledger.Postgres

open RustStd

variable {outcome : EnqueueActiveWorkflowOutcome} {strict : Prop} {blueprint : RecoveryBlueprint}
variable {payload : WorkflowRunEnqueue} {runId : ℕ}

section Requests

/-- The transactions on jobs and workflows. -/
inductive Request
  | upsertDefinition (row : DefinitionRow)
  | enqueueJob (payload : JobEnqueue) (executionResourceKey : Option String)
  | claimJobs (request : ClaimRequest) (candidates : List ℕ)
  | heartbeat (identity : JobLeaseIdentity) (leaseDurationSeconds : ℤ)
  | markRunning (identity : JobLeaseIdentity) (progressDone progressTotal : Option ℤ)
      (checkpoint : Option Json)
  | updateProgress (identity : JobLeaseIdentity) (progress : ProgressMutation)
  | completeSuccess (identity : JobLeaseIdentity) (progress : SuccessProgressUpdate)
  | completeFailure (identity : JobLeaseIdentity) (update : JobFailureUpdate)
  | completeContinuation (identity : JobLeaseIdentity) (continuation : JobContinuationUpdate)
  | releaseUnstarted (identity : JobLeaseIdentity) (reason : String) (retryDelayMs : ℤ)
  | reapExpiredLeases (defaultRetryDelayMs : ℤ) (rows : List (ℕ × Bool))
  | releaseExpiredResourceClaims (selected : List String)
  | cancelJob (scope : JobCancellationScope) (jobId : ℕ) (reason : Option String)
  | requeueJob (request : CompareAndRequeueJob)
  | enqueueWorkflowRun (payload : WorkflowRunEnqueue)
  | enqueueOrGetActiveWorkflow (payload : WorkflowRunEnqueue)
  | appendWorkflowSteps (input : AppendWorkflowStepsInput)
  | completeExternalStep (input : CompleteExternalWorkflowStepInput)
  | cancelWorkflowRun (workflowRunId : ℕ) (organizationId : Option ℕ)
      (metadata : CancellationMetadata)
  | recoverWorkflowRun (request : WorkflowRecoveryRequest)
  | releaseQuiescedActiveClaims (selected : List (String × String))

/-- What a transaction answers. -/
inductive Response
  | done
  | enqueuedJob (outcome : JobEnqueueOutcome)
  | requeued (outcome : CompareAndRequeueJobOutcome)
  | enqueuedRun (outcome : EnqueueActiveWorkflowOutcome)
  | appended (outcome : AppendWorkflowStepsOutcome)
  | recovered (outcome : WorkflowRecoveryOutcome)
  deriving DecidableEq

/-- A transaction without an answer of its own. -/
def answer (response : Response) (result : Except Error Database) :
    Except Error (Response × Database) :=
  result.map fun db => (response, db)

variable [UuidSource]

/-- Runs one request. -/
def perform (db : Database) : Request → Except Error (Response × Database)
  | .upsertDefinition row => answer .done (applyJobDefinitionUpsert db row)
  | .enqueueJob payload executionResourceKey =>
    (Postgres.enqueueJob db payload executionResourceKey).map (Prod.map .enqueuedJob id)
  | .claimJobs request candidates => answer .done (Postgres.claimJobs db request candidates)
  | .heartbeat identity leaseDurationSeconds =>
    answer .done (heartbeatJobForLease db identity leaseDurationSeconds)
  | .markRunning identity progressDone progressTotal checkpoint =>
    answer .done (markJobRunningForLease db identity progressDone progressTotal checkpoint)
  | .updateProgress identity progress =>
    answer .done (updateJobProgressForLease db identity progress)
  | .completeSuccess identity progress =>
    answer .done (completeJobSuccessForLease db identity progress)
  | .completeFailure identity update =>
    answer .done (completeJobFailureForLease db identity update)
  | .completeContinuation identity continuation =>
    answer .done (completeJobContinuationForLease db identity continuation)
  | .releaseUnstarted identity reason retryDelayMs =>
    answer .done (releaseUnstartedJobClaim db identity reason retryDelayMs)
  | .reapExpiredLeases defaultRetryDelayMs rows =>
    answer .done (Postgres.reapExpiredLeases db defaultRetryDelayMs rows)
  | .releaseExpiredResourceClaims selected =>
    .ok (.done, releaseExpiredExecutionResourceClaims db selected)
  | .cancelJob scope jobId reason => answer .done (cancelJobWithScope db scope jobId reason)
  | .requeueJob request => (compareAndRequeueJob db request).map (Prod.map .requeued id)
  | .enqueueWorkflowRun payload =>
    (Postgres.enqueueWorkflowRun db payload).map (Prod.map .enqueuedRun id)
  | .enqueueOrGetActiveWorkflow payload =>
    (Postgres.enqueueOrGetActiveWorkflow db payload).map (Prod.map .enqueuedRun id)
  | .appendWorkflowSteps input =>
    (Postgres.appendWorkflowSteps db input).map (Prod.map .appended id)
  | .completeExternalStep input => answer .done (completeExternalWorkflowStep db input)
  | .cancelWorkflowRun workflowRunId organizationId metadata =>
    answer .done (Postgres.cancelWorkflowRun db workflowRunId organizationId metadata)
  | .recoverWorkflowRun request =>
    (Postgres.recoverWorkflowRun db request).map (Prod.map .recovered id)
  | .releaseQuiescedActiveClaims selected =>
    .ok (.done, releaseQuiescedWorkflowActiveClaims db selected)

/-- A request and the time since the transaction before it. -/
structure Transaction where
  elapsed : ℕ
  request : Request

omit [UuidSource] in
/-- The database at a later time. -/
def Database.after (db : Database) (elapsed : ℕ) : Database :=
  { db with clock := db.clock + elapsed }

/-- The database after a transaction; one that fails changes nothing. -/
def commit (db : Database) (transaction : Transaction) : Database :=
  match perform (db.after transaction.elapsed) transaction.request with
  | .ok (_, db') => db'
  | .error _ => db.after transaction.elapsed

/-- The database after a sequence of transactions. -/
def history (transactions : List Transaction) : Database :=
  transactions.foldl commit .initial

end Requests

section Additions

variable {db mid db' : Database}
variable {response : Response}

/-- What a transaction adds to the workflows. -/
inductive Addition
  | nothing
  | run (workflowRunId : ℕ) (payload : WorkflowRunEnqueue)
  | steps (input : AppendWorkflowStepsInput)

/-- What a request has added, by its answer. -/
def addition (db : Database) : Request → Response → Addition
  | .enqueueWorkflowRun payload, .enqueuedRun (.inserted workflowRunId)
  | .enqueueOrGetActiveWorkflow payload, .enqueuedRun (.inserted workflowRunId) =>
    .run workflowRunId payload
  | .recoverWorkflowRun request, .recovered ⟨workflowRunId, .inserted⟩ =>
    match lockRecoverySource db request >>= rebuildWorkflow db with
    | .ok payload => .run workflowRunId payload
    | .error _ => .nothing
  | .appendWorkflowSteps input, .appended .appended => .steps input
  | _, _ => .nothing

theorem answer_eq_ok {response response' : Response} {result : Except Error Database} :
    answer response result = .ok (response', db') ↔ result = .ok db' ∧ response = response' := by
  cases result <;> simp [answer, Except.map, and_comm]

theorem map_eq_ok {α : Type} {f : α → Response} {result : Except Error (α × Database)} :
    result.map (Prod.map f id) = .ok (response, db') ↔
      ∃ outcome, result = .ok (outcome, db') ∧ f outcome = response := by
  cases result with
  | error error => simp [Except.map]
  | ok value =>
    obtain ⟨outcome, after⟩ := value
    simp only [Except.map, Prod.map, id, Except.ok.injEq, Prod.mk.injEq]
    constructor
    · rintro ⟨rfl, rfl⟩
      exact ⟨outcome, ⟨rfl, rfl⟩, rfl⟩
    · rintro ⟨_, ⟨rfl, rfl⟩, rfl⟩
      exact ⟨rfl, rfl⟩

/-- A run that is found was not inserted. -/
theorem findExistingWorkflowRun_ne_inserted :
    findExistingWorkflowRun db payload ≠ .ok (some (.inserted runId)) := by
  intro h
  unfold findExistingWorkflowRun at h
  split at h
  · obtain ⟨_, _, h⟩ := bind_eq_ok.mp h
    cases h
  · obtain ⟨_, _, h⟩ := Option.map_eq_some_iff.mp (Except.ok.inj h)
    cases h

/-- A rebuilt payload has the active key of its blueprint and no idempotency key. -/
theorem RecoveryBlueprint.buildEnqueue_keys (hok : blueprint.buildEnqueue = .ok payload) :
    payload.idempotencyKey = none ∧ payload.activeKey = blueprint.activeKey := by
  simp only [RecoveryBlueprint.buildEnqueue, WorkflowRunEnqueue.tryBuild, bind_eq_ok, exists_unit,
    mapError_eq_ok, pure_eq_ok] at hok
  obtain ⟨_, _, _, rfl⟩ := hok
  exact ⟨rfl, rfl⟩

variable [UuidSource]

/-- The rows of an addition were written. -/
def Adds (db mid : Database) : Addition → Prop
  | .nothing => mid = db
  | .run workflowRunId payload => workflowRunId = db.nextId ∧ AcceptedRun payload ∧
      ∃ begun, StartsWorkflow payload db begun mid
  | .steps input => ∃ run, AppendsSteps run input db mid

/-- A transaction writes what it adds, and then the rest of the database evolves. -/
def Does (strict : Prop) (db db' : Database) (addition : Addition) : Prop :=
  ∃ mid, Adds db mid addition ∧ Keeps strict mid db'

theorem Keeps.does (h : Keeps strict db db') : Does strict db db' .nothing :=
  ⟨db, rfl, h⟩

/-- What is added leaves the rest as it is. -/
theorem Adds.extends {addition : Addition} (h : Adds db mid addition) (hsound : Sound db) :
    Extends db mid := by
  cases addition with
  | nothing =>
    rw [show mid = db from h]
    exact .refl db
  | run runId payload =>
    obtain ⟨_, _, begun, hstarts⟩ := h
    exact hstarts.extends hsound.flow
  | steps input =>
    obtain ⟨run, happends⟩ := h
    exact happends.extends

/-- What a request to enqueue a run does: it finds the run or starts it. -/
theorem enqueueWorkflowRunClassified_spec (strict : Prop)
    (hok : enqueueWorkflowRunClassified db payload = .ok (outcome, db')) (hsound : Sound db) :
    (findExistingWorkflowRun db payload = .ok (some outcome) ∧ db' = db) ∨
      (findExistingWorkflowRun db payload = .ok none ∧ outcome = .inserted db.nextId ∧
        Does strict db db' (.run db.nextId payload)) := by
  simp only [enqueueWorkflowRunClassified, bind_eq_ok, exists_unit, mapError_eq_ok,
    validateWorkflowRunEnqueue_eq_ok_iff] at hok
  obtain ⟨haccepted, existing, hfind, hok⟩ := hok
  cases existing with
  | some existing =>
    obtain ⟨rfl, rfl⟩ := Prod.mk.inj (Except.ok.inj hok)
    exact Or.inl ⟨hfind, rfl⟩
  | none =>
    obtain ⟨hinserted, begun, mid, hstarts, hkeeps⟩ := startWorkflow_spec hsound haccepted.steps hok
    exact Or.inr ⟨hfind, hinserted, mid, ⟨rfl, haccepted, begun, hstarts⟩, hkeeps⟩

/-- The answer to an enqueue says what it has added. -/
theorem enqueueWorkflowRunClassified_does {added : Addition}
    (hok : enqueueWorkflowRunClassified db payload = .ok (outcome, db')) (hsound : Sound db)
    (hinserted : ∀ runId, outcome = .inserted runId → added = .run runId payload)
    (hexist : (∀ runId, outcome ≠ .inserted runId) → added = .nothing) :
    Does strict db db' added := by
  rcases enqueueWorkflowRunClassified_spec strict hok hsound with ⟨hfind, rfl⟩ | ⟨_, rfl, hdoes⟩
  · rw [hexist fun id hid => findExistingWorkflowRun_ne_inserted (hid ▸ hfind)]
    exact (Keeps.refl hsound).does
  · rw [hinserted db.nextId rfl]
    exact hdoes

/-- The lineage of recoveries is of no concern to the rest. -/
theorem Sound.withRecoveries (hsound : Sound db) (recoveries : Table RecoveryRow.key) :
    Keeps strict db (db.withRecoveries recoveries) := by
  refine ⟨⟨?_, ?_⟩, { Evolves.refl none db with }, .refl⟩
  · exact hsound.flow.withRuns (.refl (fun _ => by rfl) _) rfl rfl rfl rfl (fun _ hcanc => hcanc)
      hsound.flow.openRun
  · exact ⟨fun run hrun hloose => (hsound.settled.exact run hrun hloose).congr
        hsound.flow.graph fun _ => Iff.rfl, nofun, hsound.settled.owned, hsound.settled.released,
      hsound.settled.claimed, hsound.settled.queue⟩

/-- A recovery enqueues the payload that it has rebuilt, as a new run. -/
theorem RecoveryBlueprint.enqueue_spec (strict : Prop)
    (hok : blueprint.enqueue db = .ok (runId, db')) (hsound : Sound db) :
    ∃ payload, blueprint.buildEnqueue = .ok payload ∧ runId = db.nextId ∧
      Does strict db db' (.run runId payload) := by
  simp only [RecoveryBlueprint.enqueue, bind_eq_ok] at hok
  obtain ⟨payload, hbuild, hok⟩ := hok
  obtain ⟨hkey, hact⟩ := RecoveryBlueprint.buildEnqueue_keys hbuild
  refine ⟨payload, hbuild, ?_⟩
  split_ifs at hok with hsome
  · simp only [bind_eq_ok, enqueueOrGetActiveWorkflow, exists_unit] at hok
    obtain ⟨⟨outcome, after⟩, ⟨_, henqueue⟩, hok⟩ := hok
    cases outcome with
    | inserted id =>
      obtain ⟨rfl, rfl⟩ := Prod.mk.inj (pure_eq_ok.mp hok)
      rcases enqueueWorkflowRunClassified_spec strict henqueue hsound with
        ⟨hfind, _⟩ | ⟨_, hinserted, hdoes⟩
      · exact absurd hfind findExistingWorkflowRun_ne_inserted
      · cases hinserted
        exact ⟨rfl, hdoes⟩
    | existingIdempotent id => cases hok
    | existingActive id => cases hok
  · simp only [bind_eq_ok, enqueueWorkflowRun, exists_unit] at hok
    obtain ⟨⟨outcome, after⟩, ⟨_, henqueue⟩, hok⟩ := hok
    have hfind : findExistingWorkflowRun db payload = .ok none := by
      have hnone : blueprint.activeKey = none := by simpa using hsome
      simp [findExistingWorkflowRun, hkey, hact, hnone, pure, Except.pure]
    rcases enqueueWorkflowRunClassified_spec strict henqueue hsound with
      ⟨hfound, _⟩ | ⟨_, rfl, hdoes⟩
    · rw [hfind] at hfound
      cases hfound
    · obtain ⟨rfl, rfl⟩ := Prod.mk.inj (pure_eq_ok.mp hok)
      exact ⟨rfl, hdoes⟩

theorem recoverWorkflowRun_spec {req : WorkflowRecoveryRequest} {outcome : WorkflowRecoveryOutcome}
    (hok : recoverWorkflowRun db req = .ok (outcome, db')) (hsound : Sound db) :
    Does strict db db' (addition db (.recoverWorkflowRun req) (.recovered outcome)) := by
  simp only [recoverWorkflowRun, bind_eq_ok, exists_unit] at hok
  obtain ⟨_, source, hsrc, hok⟩ := hok
  cases hexist : db.workflow.recoveries.get? (req.sourceRunId, req.requestKey) with
  | some existing =>
    simp only [hexist, bind_eq_ok, exists_unit, pure_eq_ok] at hok
    obtain ⟨_, hres⟩ := hok
    obtain ⟨rfl, rfl⟩ := Prod.mk.inj hres
    exact (Keeps.refl hsound).does
  | none =>
    simp only [hexist, startRecovery, bind_eq_ok, exists_unit, insertRecoveryLineage,
      rejectIf_eq_ok, require_eq_ok, pure_eq_ok] at hok
    obtain ⟨_, _, blueprint, hload, ⟨runId, after⟩, henqueue, _,
      ⟨_, _, recoveries, _, rfl⟩, hres⟩ := hok
    obtain ⟨rfl, rfl⟩ := Prod.mk.inj hres
    obtain ⟨payload, hbuild, _, mid, hadds, hkeeps⟩ :=
      RecoveryBlueprint.enqueue_spec strict henqueue hsound
    have hrebuilt : (lockRecoverySource db req >>= rebuildWorkflow db) = .ok payload :=
      bind_eq_ok.mpr ⟨source, hsrc, bind_eq_ok.mpr ⟨blueprint, hload, hbuild⟩⟩
    simp only [addition, hrebuilt]
    exact ⟨mid, hadds, hkeeps.trans (hkeeps.sound.withRecoveries recoveries)⟩

/-- In a strict history the worker of a request claims no attempt twice. -/
def Request.Fresh (db : Database) : Request → Prop
  | .claimJobs request candidates => FreshClaims db.queue request.workerId candidates
  | _ => True

/-- What every transaction does. -/
theorem perform_spec {req : Request} (hok : perform db req = .ok (response, db'))
    (hsound : Sound db) (hfresh : strict → req.Fresh db) :
    Does strict db db' (addition db req response) := by
  cases req with
  | upsertDefinition row =>
    exact (applyJobDefinitionUpsert_keeps (answer_eq_ok.mp hok).1 hsound).does
  | enqueueJob payload executionResourceKey =>
    obtain ⟨_, hok, _⟩ := map_eq_ok.mp hok
    exact (enqueueJob_keeps hok hsound).does
  | claimJobs req candidates =>
    exact (claimJobs_keeps hsound hfresh (answer_eq_ok.mp hok).1).does
  | heartbeat ident leaseDurationSeconds =>
    exact (heartbeatJobForLease_keeps hsound (answer_eq_ok.mp hok).1).does
  | markRunning ident progressDone progressTotal checkpoint | updateProgress ident progress =>
    exact (persistProgressMutationForLease_keeps hsound (answer_eq_ok.mp hok).1).does
  | completeSuccess ident progress =>
    exact (completeJobSuccessForLease_keeps hsound (answer_eq_ok.mp hok).1).does
  | completeFailure ident update =>
    exact (completeJobFailureForLease_keeps hsound (answer_eq_ok.mp hok).1).does
  | completeContinuation ident cont =>
    exact (completeJobContinuationForLease_keeps hsound (answer_eq_ok.mp hok).1).does
  | releaseUnstarted ident reason retryDelayMs =>
    exact (releaseUnstartedJobClaim_keeps hsound (answer_eq_ok.mp hok).1).does
  | reapExpiredLeases retryDelay rows =>
    exact (reapExpiredLeases_keeps hsound (answer_eq_ok.mp hok).1).does
  | releaseExpiredResourceClaims selected =>
    obtain ⟨_, rfl⟩ := Prod.mk.inj (Except.ok.inj hok)
    exact (releaseExpiredExecutionResourceClaims_keeps hsound selected).does
  | cancelJob scope jobId reason =>
    exact (cancelJobWithScope_keeps hsound (answer_eq_ok.mp hok).1).does
  | requeueJob req =>
    obtain ⟨_, hok, _⟩ := map_eq_ok.mp hok
    exact (compareAndRequeueJob_keeps hsound hok).does
  | enqueueWorkflowRun payload | enqueueOrGetActiveWorkflow payload =>
    obtain ⟨outcome, henqueue, rfl⟩ := map_eq_ok.mp hok
    obtain ⟨_, _, hclassified⟩ := bind_eq_ok.mp henqueue
    refine enqueueWorkflowRunClassified_does hclassified hsound (fun id hid => by rw [hid]; rfl) ?_
    cases outcome <;> simp [addition]
  | appendWorkflowSteps input =>
    obtain ⟨outcome, happend, rfl⟩ := map_eq_ok.mp hok
    rcases appendWorkflowSteps_spec hsound happend with
      ⟨rfl, rfl⟩ | ⟨rfl, run, mid, happends, hkeeps⟩
    · exact (Keeps.refl hsound).does
    · exact ⟨mid, ⟨run, happends⟩, hkeeps⟩
  | completeExternalStep input =>
    exact (completeExternalWorkflowStep_keeps hsound (answer_eq_ok.mp hok).1).does
  | cancelWorkflowRun runId org metadata =>
    exact (cancelWorkflowRun_keeps hsound (answer_eq_ok.mp hok).1).does
  | recoverWorkflowRun req =>
    obtain ⟨outcome, hrecover, rfl⟩ := map_eq_ok.mp hok
    exact recoverWorkflowRun_spec hrecover hsound
  | releaseQuiescedActiveClaims selected =>
    obtain ⟨_, rfl⟩ := Prod.mk.inj (Except.ok.inj hok)
    exact (releaseQuiescedWorkflowActiveClaims_keeps hsound selected).does

end Additions

section Histories

variable [UuidSource] {db : Database}

/-- Waiting keeps the database in order. -/
theorem Sound.after (h : Sound db) (elapsed : ℕ) : Sound (db.after elapsed) := by
  refine ⟨⟨h.flow.graph, h.flow.counted, h.flow.shaped, h.flow.placed, h.flow.openRun,
    h.flow.linked, ⟨h.flow.drawn.job, h.flow.drawn.step, h.flow.drawn.run⟩⟩, ?_⟩
  refine { h.settled with owned := ?_, queue := h.settled.queue.later (Nat.le_add_right _ _) }
  intro run hrun hkey hlive
  refine h.settled.owned run hrun hkey (Or.inl ?_)
  refine (hlive.resolve_right nofun).imp_right fun hlease => ?_
  obtain ⟨step, hstep, job, hjob, hjobId, hcanc⟩ := hasLiveCanceledLease_iff.mp hlease
  obtain ⟨hstat, expiry, hexp, hlater⟩ := isLiveCanceledLease_iff.mp hcanc
  exact hasLiveCanceledLease_iff.mpr ⟨step, hstep, job, hjob, hjobId,
    isLiveCanceledLease_iff.mpr ⟨hstat, expiry, hexp,
      (Nat.le_add_right db.clock elapsed).trans_lt hlater⟩⟩

/-- What a transaction has added. -/
def Transaction.added (transaction : Transaction) (db : Database) : Addition :=
  match perform (db.after transaction.elapsed) transaction.request with
  | .ok (response, _) => addition (db.after transaction.elapsed) transaction.request response
  | .error _ => .nothing

/-- What a transaction does after it has waited, whether or not it fails. -/
theorem commit_does (hsound : Sound db) (tx : Transaction)
    (hfresh : strict → tx.request.Fresh (db.after tx.elapsed)) :
    Does strict (db.after tx.elapsed) (commit db tx) (tx.added db) := by
  unfold commit Transaction.added
  split
  · rename_i response db' hok
    exact perform_spec hok (hsound.after _) hfresh
  · exact (Keeps.refl (hsound.after _)).does

theorem Sound.commit (hsound : Sound db) (tx : Transaction) : Sound (commit db tx) := by
  obtain ⟨_, _, hkeeps⟩ := commit_does hsound tx fun h : False => h.elim
  exact hkeeps.sound

theorem sound_initial : Sound .initial := by
  have hgraph : Graph Database.initial.workflow := by
    refine ⟨?_, ?_, ?_, ?_, ⟨fun _ => 0, ?_⟩⟩ <;> intro row hrow <;> cases hrow
  constructor
  · refine ⟨hgraph, ?_, ?_, ?_, ?_, ⟨?_, ?_⟩, ⟨?_, ?_, ?_⟩⟩ <;> intro row hrow <;> cases hrow
  · refine ⟨?_, ?_, ?_, ?_, ?_, .initial 0⟩ <;> intro row hrow <;> cases hrow

/-- Every sequence of transactions keeps the database in order. -/
theorem Sound.commits (hsound : Sound db) (txs : List Transaction) :
    Sound (txs.foldl Postgres.commit db) := by
  induction txs generalizing db with
  | nil => exact hsound
  | cons tx rest ih => exact ih (hsound.commit tx)

theorem sound_history (txs : List Transaction) : Sound (history txs) :=
  sound_initial.commits txs

theorem history_append (earlier later : List Transaction) :
    history (earlier ++ later) = later.foldl commit (history earlier) :=
  List.foldl_append

end Histories

end Batter.Runledger.Postgres
