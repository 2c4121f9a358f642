import Batter.Runledger.Postgres.System

/-!
# Claims meet their constraints

A lease is guarded twice: a trigger wants a matching claim on the resource of the
job, and the row of the new attempt must not exist yet.  `IsClaimFault` is the
error of either guard.  No transaction on jobs ever runs into one, whether it
returns its errors or handles them behind a savepoint.
-/

namespace Batter.Runledger.Postgres

open RustStd

variable {db : Database} {job : JobRow} {ctx : String} {claims : Table ResourceClaimRow.resourceKey}

section Faults

/-- The error of the trigger on leases and of the key of `job_attempts`. -/
def IsClaimFault : Error → Prop
  | .statement _ (.constraint name) =>
    name = "chk_job_queue_execution_resource_claim_required" ∨
      name = "uq_job_attempts_job_run_attempt"
  | _ => False

theorem JobRow.checkConstraints_avoids (ctx : String) (job : JobRow) :
    Avoids IsClaimFault (job.checkConstraints ctx) := by
  simp [JobRow.checkConstraints, avoids_bind, avoids_rejectIf, IsClaimFault]

/-- The trigger lets pass what does not become leased. -/
theorem enforceJobExecutionResourceClaimOnLease_of_kept {old new : JobRow}
    (h : new.status = .leased → old.status = .leased) :
    enforceJobExecutionResourceClaimOnLease ctx claims old new = .ok () := by
  rw [enforceJobExecutionResourceClaimOnLease, if_neg]
  rintro ⟨hne, hnew⟩
  exact hne ((h hnew).trans hnew.symm)

variable {db' : Database} {queue : QueueTables} {now : ℕ} {change : JobChange}

/-- Only a claim makes a job leased. -/
theorem JobChange.Allowed.leased_before (h : change.Allowed queue now job)
    (hlease : change.isLease = false) (hleased : (change.apply now job).status = .leased) :
    job.status = .leased := by
  cases change with
  | lease workerId claimOrigin expiresAt => cases hlease
  | heartbeat workerId expiresAt => exact h.1
  | deferLease expiresAt => exact h
  | progress mutation => exact h
  | succeed progress => exact h
  | retry failure nextRunAt => exact h.1
  | deadLetter failure => exact h.1
  | continuation update => exact h
  | requeue reason update => cases hleased
  | releaseUnstarted reason nextRunAt => exact h.1
  | cancel reason => cases hleased

variable {attempts : Table AttemptRow.key} {log : List JobEventRow}

/-- A change that is no claim adds no attempt. -/
theorem JobChange.attempts_avoids (hlease : change.isLease = false) :
    Avoids IsClaimFault (change.attempts now job attempts) := by
  cases change with
  | lease workerId claimOrigin expiresAt => cases hlease
  | _ => exact avoids_ok _

theorem QueueTables.change_avoids (ctx : String) (hlease : change.isLease = false)
    (hallowed : change.Allowed queue now job) :
    Avoids IsClaimFault (queue.change now ctx job change) := by
  have htrigger : enforceJobExecutionResourceClaimOnLease ctx queue.resourceClaims job
      (change.apply now job) = .ok () :=
    enforceJobExecutionResourceClaimOnLease_of_kept (hallowed.leased_before hlease)
  rw [QueueTables.change]
  simp only [htrigger, avoids_bind, avoids_ok, avoids_pure, JobRow.checkConstraints_avoids,
    JobChange.attempts_avoids hlease, implies_true, and_true]

/-- The attempt that a claim opens has no row yet. -/
theorem JobRow.Attempts.fresh {row : AttemptRow} (h : job.Attempts attempts log)
    (hrow : row ∈ attempts) : row.key ≠ (job.id, job.runNumber, job.attempt + 1) := by
  intro hkey
  obtain ⟨hid, hrest⟩ := Prod.mk.inj hkey
  have hlater : job.position < row.position := by
    rw [JobRow.position, AttemptRow.position, (Prod.mk.inj hrest).1, (Prod.mk.inj hrest).2,
      Prod.Lex.toLex_lt_toLex]
    exact .inr ⟨rfl, Int.lt_succ job.attempt⟩
  exact absurd (h.reached row hrow hid) (not_le.mpr hlater)

/-- The attempt of a claim can be inserted. -/
theorem JobRow.Attempts.lease_avoids (h : job.Attempts attempts log)
    (now : ℕ) (workerId : String) (claimOrigin : AttemptClaimOrigin) (expiresAt : ℕ) :
    Avoids IsClaimFault
      ((JobChange.lease workerId claimOrigin expiresAt).attempts now job attempts) := by
  refine avoids_require.mpr fun hnone => ?_
  refine absurd hnone (Option.ne_none_iff_exists'.mpr (Table.exists_insert? ?_))
  exact Table.get?_eq_none.mpr fun row hrow => h.fresh hrow

/-- The claim on its resource lets the lease of a job pass the trigger. -/
theorem Acquired.enforce {claims' : Table ResourceClaimRow.resourceKey} {workerId : String}
    {claimOrigin : AttemptClaimOrigin} {expiresAt : ℕ} (h : Acquired claims claims' job workerId) :
    enforceJobExecutionResourceClaimOnLease ctx claims' job
      ((JobChange.lease workerId claimOrigin expiresAt).apply now job) = .ok () := by
  rw [enforceJobExecutionResourceClaimOnLease]
  split_ifs
  · rw [JobChange.apply_executionResourceKey]
    cases hkey : job.executionResourceKey with
    | none => rfl
    | some key =>
      rw [Acquired, hkey] at h
      obtain ⟨claim, hins, hres, hid, hrun, hatt, hworker, _⟩ := h
      have hget : claims'.get? key = some claim :=
        Table.get?_eq_some.mpr ⟨(Table.mem_insert? hins claim).mpr (.inr rfl), hres⟩
      have hbelongs : claim.belongsTo
          ((JobChange.lease workerId claimOrigin expiresAt).apply now job) = true := by
        refine ResourceClaimRow.belongsTo_iff.mpr ⟨hid, hrun, hatt, ?_⟩
        rw [hworker]
        rfl
      simp [hget, hbelongs]
  · rfl

theorem acquireResource_avoids (req : ClaimRequest) :
    Avoids IsClaimFault (acquireResource db req job) := by
  rw [acquireResource]
  split
  · exact avoids_ok _
  · have hblank : ¬ IsClaimFault (.statement "claim jobs candidate list"
        (.constraint "chk_job_execution_resource_claims_worker_id")) := by
      simp [IsClaimFault]
    split_ifs
    · exact avoids_ok _
    · exact avoids_bind.mpr ⟨avoids_rejectIf.mpr fun _ => hblank, fun _ _ => avoids_pure _⟩
    · exact avoids_bind.mpr ⟨avoids_rejectIf.mpr fun _ => hblank, fun _ _ => avoids_pure _⟩

variable [UuidSource]

theorem claimJob_avoids (hsound : Sound db) (req : ClaimRequest) (jobId : ℕ) :
    Avoids IsClaimFault (claimJob req db jobId) := by
  rw [claimJob]
  cases hget : (db.queue.jobs.get? jobId).filter (·.isCandidate db.clock req) with
  | none => exact avoids_ok db
  | some job =>
    obtain ⟨hjob, _, _⟩ := getFilter_eq_some.mp hget
    refine avoids_bind.mpr ⟨acquireResource_avoids req, fun acquired hacquire => ?_⟩
    cases acquired with
    | none => exact avoids_pure db
    | some queue =>
      obtain ⟨claims', rfl, hacquired⟩ := acquireResource_eq_ok hacquire
      have hatts := (hsound.settled.queue.attempts job hjob).lease_avoids db.clock
        req.workerId req.claimOrigin
      simp only [QueueTables.change, hacquired.enforce, hatts, avoids_bind, avoids_ok,
        avoids_pure, JobRow.checkConstraints_avoids, implies_true, and_true]

theorem claimJobs_avoids (hsound : Sound db) (req : ClaimRequest) (candidates : List ℕ) :
    Avoids IsClaimFault (claimJobs db req candidates) := by
  rw [claimJobs, avoids_bind]
  refine ⟨avoids_rejectIf.mpr fun _ => id, fun _ _ => ?_⟩
  refine avoids_foldlM (fun jobId db' hsound' => claimJob_avoids hsound' req jobId) ?_ hsound
  intro jobId db1 db2 hsound' hok
  have hkeeps : Keeps False db1 db2 := (claimJob_keeps hsound' False.elim hok).1
  exact hkeeps.sound

end Faults

section Transactions

variable {ident : JobLeaseIdentity}
variable {failure : FailureDetails}

theorem lockLiveJobLease_avoids (db : Database) (ident : JobLeaseIdentity) :
    Avoids IsClaimFault (lockLiveJobLease db ident) :=
  avoids_require.mpr fun _ => id

variable (progressDone progressTotal : Option ℤ)

theorem validateCompletionProgress_avoids :
    Avoids IsClaimFault (validateCompletionProgress progressDone progressTotal) :=
  avoids_mapError fun _ => id

theorem validateOrdinaryProgress_avoids :
    Avoids IsClaimFault (validateOrdinaryProgress progressDone progressTotal) :=
  avoids_mapError fun _ => id

theorem heartbeatJobForLease_avoids
    (db : Database) (ident : JobLeaseIdentity) (leaseDurationSeconds : ℤ) :
    Avoids IsClaimFault (heartbeatJobForLease db ident leaseDurationSeconds) := by
  rw [heartbeatJobForLease, avoids_bind]
  refine ⟨avoids_rejectIf.mpr fun _ => id, fun _ _ => ?_⟩
  refine avoids_bind.mpr ⟨lockLiveJobLease_avoids db ident, fun job hlock => ?_⟩
  obtain ⟨_, _, _, hworker, hleased⟩ := lockLiveJobLease_leased hlock
  exact avoids_bind.mpr ⟨QueueTables.change_avoids _ rfl ⟨hleased, hworker⟩,
    fun _ _ => avoids_pure _⟩

theorem persistProgressMutationForLease_avoids
    (db : Database) (ident : JobLeaseIdentity) (progress : ProgressMutation) :
    Avoids IsClaimFault (persistProgressMutationForLease db ident progress) := by
  rw [persistProgressMutationForLease, avoids_bind]
  refine ⟨lockLiveJobLease_avoids db ident, fun job hlock => ?_⟩
  obtain ⟨_, _, _, _, hleased⟩ := lockLiveJobLease_leased hlock
  refine avoids_bind.mpr ⟨validateOrdinaryProgress_avoids _ _, fun _ _ => ?_⟩
  exact avoids_bind.mpr ⟨QueueTables.change_avoids _ rfl hleased, fun _ _ => avoids_pure _⟩

theorem applyRetry_avoids {nextRunAt : ℕ}
    (hallowed : (JobChange.retry failure nextRunAt).Allowed db.queue db.clock job)
    (ctx : String) : Avoids IsClaimFault (applyRetry db ctx job failure nextRunAt) :=
  avoids_bind.mpr ⟨QueueTables.change_avoids ctx rfl hallowed, fun _ _ => avoids_pure _⟩

namespace RetryTiming

variable (base policy : DateTime) (hint : Option JobRetryTiming)

theorem not_isClaimFault (text : String) : ¬ IsClaimFault (invalidRetryTimingError text) :=
  id

theorem requestedRetryNotBefore_avoids :
    Avoids IsClaimFault (requestedRetryNotBefore base policy hint) := by
  have hround : ∀ time, Avoids IsClaimFault (roundRetryAtToPostgresPrecision time) := by
    simp only [roundRetryAtToPostgresPrecision, avoids_bind, avoids_require, avoids_rejectIf,
      avoids_pure, not_isClaimFault, not_false_eq_true, implies_true, and_self]
  obtain _ | delay | time := hint
  · exact avoids_pure _
  · rw [requestedRetryNotBefore, retryDelayMilliseconds]
    cases delay.isZero
    · simp only [avoids_bind, avoids_require, avoids_rejectIf, avoids_pure, not_isClaimFault,
        not_false_eq_true, implies_true, and_self, Bool.false_eq_true, if_false]
    · exact avoids_pure _
  · rw [requestedRetryNotBefore]
    cases hrounded : roundRetryAtToPostgresPrecision time with
    | ok rounded => exact avoids_pure _
    | error error =>
      dsimp only
      split_ifs
      · exact avoids_pure _
      · exact avoids_error.mpr (hround time error hrounded)

theorem resolveRetryTiming_avoids (policyRetryDelayMs : Option ℤ) :
    Avoids IsClaimFault (resolveRetryTiming base policyRetryDelayMs hint) := by
  simp only [resolveRetryTiming, avoids_bind, avoids_require, avoids_rejectIf, avoids_pure,
    not_isClaimFault, requestedRetryNotBefore_avoids, not_false_eq_true, implies_true, and_self]

end RetryTiming

theorem markWorkflowStepEnqueuedForHandlerContinuation_avoids (db : Database) (jobId : ℕ) :
    Avoids IsClaimFault (markWorkflowStepEnqueuedForHandlerContinuation db jobId) := by
  rw [markWorkflowStepEnqueuedForHandlerContinuation]
  split
  · exact avoids_ok db
  · refine avoids_bind.mpr ⟨avoids_rejectIf.mpr fun _ => id, fun _ _ => ?_⟩
    exact avoids_bind.mpr ⟨avoids_rejectIf.mpr fun _ => id, fun _ _ => avoids_pure _⟩

theorem completeJobContinuationForLease_avoids
    (db : Database) (ident : JobLeaseIdentity) (cont : JobContinuationUpdate) :
    Avoids IsClaimFault (completeJobContinuationForLease db ident cont) := by
  rw [completeJobContinuationForLease, avoids_bind]
  refine ⟨avoids_bind.mpr ⟨avoids_rejectIf.mpr fun _ => id, fun _ _ => avoids_pure _⟩,
    fun _ _ => ?_⟩
  refine avoids_bind.mpr ⟨validateCompletionProgress_avoids _ _, fun _ _ => ?_⟩
  refine avoids_bind.mpr ⟨lockLiveJobLease_avoids db ident, fun job hlock => ?_⟩
  obtain ⟨_, _, _, _, hleased⟩ := lockLiveJobLease_leased hlock
  refine avoids_bind.mpr
    ⟨markWorkflowStepEnqueuedForHandlerContinuation_avoids db _, fun db1 _ => ?_⟩
  refine avoids_bind.mpr ⟨validateCompletionProgress_avoids _ _, fun _ _ => ?_⟩
  refine avoids_bind.mpr ⟨avoids_bind.mpr ⟨avoids_rejectIf.mpr fun _ => id,
    fun _ _ => avoids_pure _⟩, fun _ _ => ?_⟩
  exact avoids_bind.mpr ⟨QueueTables.change_avoids _ rfl hleased, fun _ _ => avoids_pure _⟩

theorem releaseUnstarted_avoids (hleased : job.status = .leased)
    (hunstarted : db.queue.isUnstarted job = true) (reason : String) (retryDelayMs : ℤ) :
    Avoids IsClaimFault (releaseUnstarted db job reason retryDelayMs) :=
  avoids_bind.mpr
    ⟨QueueTables.change_avoids _ rfl ⟨hleased, hunstarted⟩, fun _ _ => avoids_pure _⟩

theorem releaseUnstartedJobClaim_avoids
    (db : Database) (ident : JobLeaseIdentity) (reason : String) (retryDelayMs : ℤ) :
    Avoids IsClaimFault (releaseUnstartedJobClaim db ident reason retryDelayMs) := by
  rw [releaseUnstartedJobClaim, avoids_bind]
  refine ⟨avoids_require.mpr fun _ => ?_, fun job hjob => ?_⟩
  · rw [classifyUnstartedReleaseNotApplicable]
    split_ifs <;> exact id
  · obtain ⟨_, _, hcond⟩ := getFilter_eq_some.mp (require_eq_ok.mp hjob)
    rw [Bool.and_eq_true] at hcond
    obtain ⟨_, _, _, hleased⟩ := JobRow.isLeasedTo_iff.mp hcond.1
    exact releaseUnstarted_avoids hleased hcond.2 _ _

theorem deferFailedRow_avoids (hleased : job.status = .leased) (retryDelay : ℤ) :
    Avoids IsClaimFault (deferFailedRow db job retryDelay) :=
  avoids_bind.mpr ⟨QueueTables.change_avoids _ rfl hleased, fun _ _ => avoids_pure _⟩

theorem compareAndRequeueJob_avoids (db : Database) (req : CompareAndRequeueJob) :
    Avoids IsClaimFault (compareAndRequeueJob db req) := by
  rw [compareAndRequeueJob]
  split
  · exact avoids_ok _
  · rename_i job hget
    split_ifs with hmismatch hlinked hlive
    · exact avoids_ok _
    · exact avoids_error.mpr id
    · exact avoids_ok _
    · refine avoids_bind.mpr ⟨QueueTables.change_avoids _ rfl ⟨?_, ?_⟩, fun _ _ => avoids_pure _⟩
      · have hstat : job.status = req.expectedStatus := by
          by_contra hne
          exact hmismatch (.inl hne)
        rw [hstat]
        exact req.requeueable
      · simpa using hlive

/-- The transactions that update rows of `job_queue`. -/
def Request.updatesJobs : Request → Bool
  | .claimJobs _ _ | .heartbeat _ _ | .markRunning _ _ _ _ | .updateProgress _ _
  | .completeSuccess _ _ | .completeFailure _ _ | .completeContinuation _ _
  | .releaseUnstarted _ _ _ | .reapExpiredLeases _ _ | .releaseExpiredResourceClaims _
  | .cancelJob _ _ _ | .requeueJob _ | .cancelWorkflowRun _ _ _ => true
  | _ => false

variable [UuidSource]

/-- The end of a job and of its step runs into no guard. -/
theorem finish_avoids (change : JobChange) {status : WorkflowStepStatus} (hsound : Sound db)
    (hjob : job ∈ db.queue.jobs) (hlease : change.isLease = false)
    (hallowed : change.Allowed db.queue db.clock job)
    (hopen : job.status = .pending ∨ job.status = .leased) (hterm : status.isTerminal = true)
    (hpaired : Paired status (change.apply db.clock job).status)
    (ctx : String) (reason : StepReason) (output : Option Json) :
    Avoids IsClaimFault (db.queue.change db.clock ctx job change >>= fun queue =>
      processWorkflowStepTerminalByJobId (db.withQueue queue) job.id status reason output) := by
  refine avoids_bind.mpr ⟨QueueTables.change_avoids ctx hlease hallowed, fun queue hok => ?_⟩
  have hchanges : ChangesJob False db job (change.apply db.clock job) queue :=
    .of_change hok hjob hlease hallowed
  obtain ⟨db', hfin, _⟩ := hchanges.finish hsound hopen hterm hpaired reason output
  rw [hfin]
  exact avoids_ok db'

theorem completeJobSuccessForLease_avoids (hsound : Sound db)
    (ident : JobLeaseIdentity) (progress : SuccessProgressUpdate) :
    Avoids IsClaimFault (completeJobSuccessForLease db ident progress) := by
  rw [completeJobSuccessForLease, avoids_bind]
  refine ⟨validateCompletionProgress_avoids _ _, fun _ _ => ?_⟩
  refine avoids_bind.mpr ⟨lockLiveJobLease_avoids db ident, fun job hlock => ?_⟩
  obtain ⟨hjob, hid, _, _, hleased⟩ := lockLiveJobLease_leased hlock
  refine avoids_bind.mpr ⟨validateCompletionProgress_avoids _ _, fun _ _ => ?_⟩
  rw [← hid]
  exact finish_avoids (.succeed _) hsound hjob rfl hleased (.inr hleased) rfl .succeeded _ _ _

theorem applyTerminalFailure_avoids (hsound : Sound db) (hjob : job ∈ db.queue.jobs)
    (hallowed : (JobChange.deadLetter failure).Allowed db.queue db.clock job) (ctx : String) :
    Avoids IsClaimFault (applyTerminalFailure db ctx job failure) :=
  finish_avoids (.deadLetter failure) hsound hjob rfl hallowed (.inr hallowed.1) rfl .failed
    ctx _ _

theorem completeJobFailureForLease_avoids (hsound : Sound db)
    (ident : JobLeaseIdentity) (update : JobFailureUpdate) :
    Avoids IsClaimFault (completeJobFailureForLease db ident update) := by
  rw [completeJobFailureForLease, avoids_bind]
  refine ⟨lockLiveJobLease_avoids db ident, fun job hlock => ?_⟩
  obtain ⟨hjob, _, hatt, _, hleased⟩ := lockLiveJobLease_leased hlock
  refine avoids_bind.mpr ⟨avoids_require.mpr fun _ => id, fun base _ => ?_⟩
  split_ifs with hfinal
  · refine applyTerminalFailure_avoids hsound hjob ⟨hleased, ?_⟩ _
    rw [hatt]
    simpa using hfinal
  · refine avoids_bind.mpr ⟨RetryTiming.resolveRetryTiming_avoids _ _ _, fun timing _ => ?_⟩
    refine applyRetry_avoids ⟨hleased, ?_⟩ _
    rw [hatt]
    simpa using hfinal

/-- The recovery of an expired lease runs into no guard, so its savepoint never hides one. -/
theorem reapExpiredLeaseRow_avoids (hsound : Sound db) (hjob : job ∈ db.queue.jobs)
    (hleased : job.status = .leased) (retryDelay : ℤ) :
    Avoids IsClaimFault (reapExpiredLeaseRow db job retryDelay) := by
  rw [reapExpiredLeaseRow]
  split_ifs with hunstarted hlast
  · exact releaseUnstarted_avoids hleased hunstarted _ _
  · exact applyTerminalFailure_avoids hsound hjob ⟨hleased, .inr hlast⟩ _
  · exact applyRetry_avoids ⟨hleased, rfl, not_le.mp hlast⟩ _

theorem reapExpiredLeaseRowWithSavepoint_avoids (db : Database) (retryDelay : ℤ) (row : ℕ × Bool) :
    Avoids IsClaimFault (reapExpiredLeaseRowWithSavepoint retryDelay db row) := by
  rw [reapExpiredLeaseRowWithSavepoint]
  split
  · exact avoids_ok db
  · rename_i job hget
    obtain ⟨_, _, hexp⟩ := getFilter_eq_some.mp hget
    have hleased : job.status = .leased := by
      simp only [JobRow.isExpired, Bool.and_eq_true, decide_eq_true_eq] at hexp
      exact hexp.1
    split_ifs
    · exact deferFailedRow_avoids hleased _
    · split
      · exact avoids_ok _
      · exact deferFailedRow_avoids hleased _

theorem reapExpiredLeases_avoids (db : Database) (retryDelay : ℤ) (rows : List (ℕ × Bool)) :
    Avoids IsClaimFault (reapExpiredLeases db retryDelay rows) := by
  rw [reapExpiredLeases, avoids_bind]
  refine ⟨avoids_rejectIf.mpr fun _ => id, fun _ _ => ?_⟩
  have hrow : ∀ row db1, True → Avoids IsClaimFault
      (reapExpiredLeaseRowWithSavepoint retryDelay db1 row) :=
    fun row db1 _ => reapExpiredLeaseRowWithSavepoint_avoids db1 retryDelay row
  exact avoids_foldlM hrow (fun _ _ _ _ _ => trivial) trivial

section

variable (hsound : Sound db) (scope : JobCancellationScope) (jobId : ℕ) (reason : Option String)
include hsound

theorem cancelJobWithScopeTx_avoids :
    Avoids IsClaimFault (cancelJobWithScopeTx db scope jobId reason) := by
  rw [cancelJobWithScopeTx]
  split
  · exact avoids_ok none
  · rename_i job hget
    obtain ⟨hjob, rfl, hcond⟩ := getFilter_eq_some.mp hget
    simp only [Bool.and_eq_true, Bool.or_eq_true, decide_eq_true_eq] at hcond
    have hfin := finish_avoids (.cancel reason) hsound hjob rfl hcond.2
      hcond.2 rfl .canceled "cancel job" ⟨some (reason.getD "CANCELED"), none, none⟩ none
    simp only [avoids_bind] at hfin ⊢
    exact ⟨hfin.1, fun queue hqueue =>
      ⟨hfin.2 queue hqueue, fun _ _ => avoids_pure _⟩⟩

theorem cancelJobWithScope_avoids :
    Avoids IsClaimFault (cancelJobWithScope db scope jobId reason) := by
  rw [cancelJobWithScope, avoids_bind]
  refine ⟨cancelJobWithScopeTx_avoids hsound scope jobId reason, fun outcome _ => ?_⟩
  cases outcome with
  | some db' => exact avoids_pure db'
  | none =>
    refine avoids_error.mpr ?_
    split_ifs <;> exact id

end

theorem cancelWorkflowRun_avoids (hsound : Sound db)
    (runId : ℕ) (org : Option ℕ) (metadata : CancellationMetadata) :
    Avoids IsClaimFault (cancelWorkflowRun db runId org metadata) := by
  cases hlock : lockWorkflowRunForUpdate db runId org with
  | error error =>
    rw [cancelWorkflowRun, avoids_bind, hlock]
    refine ⟨?_, nofun⟩
    rw [← hlock]
    exact avoids_require.mpr fun _ => id
  | ok run =>
    have hfound := hlock
    rw [lockWorkflowRunForUpdate, require_eq_ok, Option.filter_eq_some_iff,
      Table.get?_eq_some] at hfound
    obtain ⟨⟨hrun, rfl⟩, hvisible⟩ := hfound
    cases hopen : run.status.isTerminal with
    | true =>
      have hsame : cancelWorkflowRun db run.id org metadata = .ok db := by
        refine bind_eq_ok.mpr ⟨run, hlock, ?_⟩
        rw [if_pos hopen]
        rfl
      rw [hsame]
      exact avoids_ok db
    | false =>
      obtain ⟨db', hok, _, _⟩ : ∃ db', cancelWorkflowRun db run.id org metadata =
          .ok db' ∧ Keeps False db db' ∧ RunCanceled run db db' :=
        cancelWorkflowRun_spec hsound hrun hopen org metadata hvisible
      rw [hok]
      exact avoids_ok db'

/-- No transaction that updates jobs runs into a guard of their leases. -/
theorem perform_avoids {req : Request} (hsound : Sound db)
    (hupdates : req.updatesJobs = true) : Avoids IsClaimFault (perform db req) := by
  cases req with
  | claimJobs req candidates => exact avoids_map.mpr (claimJobs_avoids hsound req candidates)
  | heartbeat ident leaseDurationSeconds =>
    exact avoids_map.mpr (heartbeatJobForLease_avoids db ident leaseDurationSeconds)
  | markRunning ident progressDone progressTotal checkpoint =>
    exact avoids_map.mpr (persistProgressMutationForLease_avoids db ident _)
  | updateProgress ident progress =>
    exact avoids_map.mpr (persistProgressMutationForLease_avoids db ident progress)
  | completeSuccess ident progress =>
    exact avoids_map.mpr (completeJobSuccessForLease_avoids hsound ident progress)
  | completeFailure ident update =>
    exact avoids_map.mpr (completeJobFailureForLease_avoids hsound ident update)
  | completeContinuation ident cont =>
    exact avoids_map.mpr (completeJobContinuationForLease_avoids db ident cont)
  | releaseUnstarted ident reason retryDelayMs =>
    exact avoids_map.mpr (releaseUnstartedJobClaim_avoids db ident reason retryDelayMs)
  | reapExpiredLeases retryDelay rows =>
    exact avoids_map.mpr (reapExpiredLeases_avoids db retryDelay rows)
  | releaseExpiredResourceClaims selected => exact avoids_ok _
  | cancelJob scope jobId reason =>
    exact avoids_map.mpr (cancelJobWithScope_avoids hsound scope jobId reason)
  | requeueJob req => exact avoids_map.mpr (compareAndRequeueJob_avoids db req)
  | cancelWorkflowRun runId org metadata =>
    exact avoids_map.mpr (cancelWorkflowRun_avoids hsound runId org metadata)
  | _ => cases hupdates

end Transactions

end Batter.Runledger.Postgres
