import Batter.Runledger.Postgres.ClaimFaults

/-!
# Leases over whole histories

Every claim of a job is recorded in its log.  Between two states of a history the
claims of a job only grow, a job becomes leased only by a new claim, and no claim
is made again for an attempt whose execution was reported.  From these three facts
follow the fencing of old claims, the budget of attempts and the exclusive use of
execution resources.
-/

namespace Batter.Runledger.Postgres

open RustStd List

variable {db : Database} {job : JobRow} {txs : List Transaction} {strict : Prop} {ctx : String}
variable {jobId now number elapsed number' : ℕ}

section ClaimLog

/-- The claims of a job, in their order. -/
def QueueTables.claimsOf (queue : QueueTables) (jobId : ℕ) : List JobLeaseIdentity :=
  claims (queue.eventsOf jobId)

/-- The run and the attempt of a claim. -/
def JobLeaseIdentity.position (identity : JobLeaseIdentity) : ℤ ×ₗ ℤ :=
  toLex (identity.runNumber, identity.attempt)

/-- A report that the execution of an attempt has started. -/
def JobEventRow.IsStart (row : JobEventRow) : Prop :=
  row.event = .stageChanged .running

/-- What happens to the claims of a job between two states of its queue. -/
structure ClaimsGrow (jobId : ℕ) (queue queue' : QueueTables) (more : List JobLeaseIdentity) :
    Prop where
  events : ∃ added, queue'.events = queue.events ++ added
  claims : queue'.claimsOf jobId = queue.claimsOf jobId ++ more
  held : more = [] → ∀ job' ∈ queue'.jobs, job'.id = jobId → job'.status = .leased →
    ∃ job ∈ queue.jobs, job.id = jobId ∧ job.status = .leased
  later : ∀ claim ∈ more, ∀ row ∈ queue.eventsOf jobId, row.IsStart →
    row.position < claim.position

variable {queue queue' queue'' : QueueTables} {more more' : List JobLeaseIdentity}

theorem ClaimsGrow.refl (jobId : ℕ) (queue : QueueTables) : ClaimsGrow jobId queue queue [] := by
  refine ⟨⟨[], (append_nil _).symm⟩, (append_nil _).symm, ?_, ?_⟩
  · exact fun _ job hjob hid hleased => ⟨job, hjob, hid, hleased⟩
  · exact fun claim hclaim => absurd hclaim not_mem_nil

theorem ClaimsGrow.eventsOf_mono (h : ClaimsGrow jobId queue queue' more) {row : JobEventRow}
    (hrow : row ∈ queue.eventsOf jobId) : row ∈ queue'.eventsOf jobId := by
  obtain ⟨added, hadded⟩ := h.events
  rw [QueueTables.eventsOf, hadded, filter_append]
  exact mem_append_left _ hrow

theorem ClaimsGrow.trans (h : ClaimsGrow jobId queue queue' more)
    (h' : ClaimsGrow jobId queue' queue'' more') :
    ClaimsGrow jobId queue queue'' (more ++ more') := by
  obtain ⟨added, hadded⟩ := h.events
  obtain ⟨added', hadded'⟩ := h'.events
  refine ⟨⟨added ++ added', ?_⟩, ?_, ?_, ?_⟩
  · rw [hadded', hadded, append_assoc]
  · rw [h'.claims, h.claims, append_assoc]
  · intro hnone job'' hjob'' hid hleased
    obtain ⟨hmore, hmore'⟩ := append_eq_nil_iff.mp hnone
    obtain ⟨job', hjob', hid', hleased'⟩ := h'.held hmore' job'' hjob'' hid hleased
    exact h.held hmore job' hjob' hid' hleased'
  · intro claim hclaim row hrow hstart
    rcases mem_append.mp hclaim with hclaim | hclaim
    · exact h.later claim hclaim row hrow hstart
    · exact h'.later claim hclaim row (h.eventsOf_mono hrow) hstart

variable {change : JobChange}

theorem JobChange.claims_events (hlease : change.isLease = false) (job : JobRow) :
    Postgres.claims (change.events job) = [] := by
  cases change with
  | lease workerId claimOrigin expiresAt => cases hlease
  | progress mutation =>
    refine filterMap_eq_nil_iff.mpr fun row hrow => ?_
    rcases mem_progress_events hrow with ⟨_, _, rfl⟩ | rfl <;> rfl
  | _ => rfl

/-- A change that is no claim adds no claim. -/
theorem ClaimsGrow.of_change (hok : queue.change now ctx job change = .ok queue')
    (hjob : job ∈ queue.jobs) (hlease : change.isLease = false)
    (hallowed : change.Allowed queue now job) (jobId : ℕ) : ClaimsGrow jobId queue queue' [] := by
  obtain ⟨hjobs, _, _, hevents⟩ := QueueTables.change_eq_ok hok
  refine ⟨⟨_, hevents⟩, ?_, ?_, fun claim hclaim => absurd hclaim not_mem_nil⟩
  · rw [QueueTables.claimsOf, eventsOf_append_events hevents, append_nil]
    split_ifs
    · rw [claims_append, JobChange.claims_events hlease, append_nil]
      rfl
    · rfl
  · intro _ job' hjob' hid hleased
    rcases (mem_jobs_after_change hjob hjobs).mp hjob' with ⟨hold, _⟩ | rfl
    · exact ⟨job', hold, hid, hleased⟩
    · exact ⟨job, hjob, (change.apply_id now job).symm.trans hid,
        hallowed.leased_before hlease hleased⟩

/-- A claim is a new one for its job, and comes after everything that was started. -/
theorem ClaimsGrow.of_claim {claims' : Table ResourceClaimRow.resourceKey} {workerId : String}
    {claimOrigin : AttemptClaimOrigin} {expiresAt : ℕ} (hinvariant : QueueInvariant now queue)
    (hjob : job ∈ queue.jobs)
    (hok : { queue with resourceClaims :=
      claims' }.change now ctx job (.lease workerId claimOrigin expiresAt) = .ok queue')
    (jobId : ℕ) :
    ClaimsGrow jobId queue queue' (if jobId = job.id then
      [⟨job.id, job.runNumber, job.attempt + 1, workerId⟩] else []) := by
  obtain ⟨hjobs, _, _, hevents⟩ := QueueTables.change_eq_ok hok
  have hlog : queue'.eventsOf jobId = if jobId = job.id then queue.eventsOf jobId ++
      (JobChange.lease workerId claimOrigin expiresAt).events job
      else queue.eventsOf jobId := eventsOf_append_events hevents jobId
  refine ⟨⟨_, hevents⟩, ?_, ?_, ?_⟩
  · rw [QueueTables.claimsOf, hlog]
    split_ifs
    · rw [claims_append]
      rfl
    · exact (append_nil _).symm
  · intro hnone job' hjob' hid hleased
    have hne : jobId ≠ job.id := fun heq => by simp [heq] at hnone
    rcases (mem_jobs_after_change hjob hjobs).mp hjob' with ⟨hold, _⟩ | rfl
    · exact ⟨job', hold, hid, hleased⟩
    · exact absurd (hid.symm.trans (JobChange.apply_id _ now job)) hne
  · intro claim hclaim row hrow hstart
    split_ifs at hclaim with hid
    · rw [mem_singleton.mp hclaim]
      subst hid
      refine ((hinvariant.attempts job hjob).started row hrow hstart).1.trans_lt ?_
      rw [JobRow.position, JobLeaseIdentity.position, Prod.Lex.toLex_lt_toLex]
      exact .inr ⟨rfl, Int.lt_succ job.attempt⟩
    · exact absurd hclaim not_mem_nil

/-- What one step of the queue does to the claims of a job; in a strict history a new claim
is not among the older ones. -/
theorem QueueStep.claimsGrow (hstep : QueueStep strict now queue queue')
    (hinvariant : QueueInvariant now queue) (jobId : ℕ) :
    ∃ more, ClaimsGrow jobId queue queue' more ∧
      (strict → (queue.claimsOf jobId).Nodup → (queue.claimsOf jobId ++ more).Nodup) := by
  cases hstep with
  | insert hins =>
    obtain ⟨job, jobs, hnew, hjobs, rfl⟩ := hins
    refine ⟨[], ⟨⟨_, rfl⟩, ?_, ?_, ?_⟩, fun _ hnodup => by rwa [append_nil]⟩
    · rw [QueueTables.claimsOf, QueueTables.eventsOf, filter_append, claims_append]
      congr 1
      refine filterMap_eq_nil_iff.mpr fun row hrow => ?_
      rw [mem_singleton.mp (mem_of_mem_filter hrow)]
      rfl
    · intro _ job' hjob' hid hleased
      rcases (Table.mem_insert? hjobs job').mp hjob' with hold | rfl
      · exact ⟨job', hold, hid, hleased⟩
      · cases hnew.status.symm.trans hleased
    · exact fun claim hclaim => absurd hclaim not_mem_nil
  | change ctx job change hjob hlease hallowed hok =>
    exact ⟨[], .of_change hok hjob hlease hallowed jobId,
      fun _ hnodup => by rwa [append_nil]⟩
  | claim ctx job workerId claimOrigin expiresAt hjob hpend hfresh hacquired hok =>
    refine ⟨_, .of_claim hinvariant hjob hok jobId, fun hstrict hnodup => ?_⟩
    split_ifs with hid
    · subst hid
      refine nodup_append.mpr ⟨hnodup, nodup_singleton _, ?_⟩
      intro claim hclaim claim' hclaim' heq
      rw [heq, mem_singleton.mp hclaim'] at hclaim
      exact hfresh hstrict hclaim
    · rwa [append_nil]
  | sweep expired hexpired =>
    exact ⟨[], ⟨⟨[], (append_nil _).symm⟩, (append_nil _).symm,
      fun _ job hjob hid hleased => ⟨job, hjob, hid, hleased⟩,
      fun claim hclaim => absurd hclaim not_mem_nil⟩,
      fun _ hnodup => by rwa [append_nil]⟩

/-- What a transaction does to the claims of a job. -/
theorem QueueSteps.claimsGrow (hsteps : QueueSteps strict now queue queue')
    (hinvariant : QueueInvariant now queue) (jobId : ℕ) :
    ∃ more, ClaimsGrow jobId queue queue' more ∧
      (strict → (queue.claimsOf jobId).Nodup → (queue.claimsOf jobId ++ more).Nodup) := by
  induction hsteps with
  | refl => exact ⟨[], .refl jobId queue, fun _ hnodup => by rwa [append_nil]⟩
  | tail hbefore hstep ih =>
    obtain ⟨more, hgrow, hnodup⟩ := ih
    obtain ⟨more', hgrow', hnodup'⟩ := QueueStep.claimsGrow hstep (hinvariant.steps hbefore) jobId
    refine ⟨more ++ more', hgrow.trans hgrow', fun hstrict hstart => ?_⟩
    have hnext := hnodup' hstrict (hgrow.claims ▸ hnodup hstrict hstart)
    rwa [hgrow.claims, append_assoc] at hnext

end ClaimLog

section Fencing

variable {identity : JobLeaseIdentity} {request : Request}
variable {earlier later : List Transaction}

/-- The claim that a list ends with is found at its last place only. -/
theorem eq_length_of_getLast? {α : Type} {l : List α} {a : α} (hnodup : l.Nodup)
    (hlast : l.getLast? = some a) (hnumber : l[number]? = some a) : number + 1 = l.length := by
  obtain ⟨hlt, hget⟩ := List.getElem?_eq_some_iff.mp hnumber
  have hne : l ≠ [] := List.ne_nil_of_length_pos (Nat.zero_lt_of_lt hlt)
  rw [List.getLast?_eq_getLast_of_ne_nil hne, Option.some.injEq, List.getLast_eq_getElem] at hlast
  have hidx := (List.Nodup.getElem_inj_iff hnodup).mp (hget.trans hlast.symm)
  omega

/-- The start of an attempt is recorded for the lease that reports it, and adds no claim. -/
theorem markRunning_recorded {db' : Database} {progress : ProgressMutation}
    (hstage : progress.stage = some .running)
    (hok : persistProgressMutationForLease db identity progress = .ok db') :
    ClaimsGrow identity.jobId db.queue db'.queue [] ∧
      ∃ row ∈ db'.queue.eventsOf identity.jobId, row.IsStart ∧
        row.position = identity.position := by
  simp only [persistProgressMutationForLease, bind_eq_ok, exists_unit, pure_eq_ok] at hok
  obtain ⟨job, hlock, _, queue, hchange, rfl⟩ := hok
  obtain ⟨hjob, hid, hident, _⟩ := lockLiveJobLease_eq_ok hlock
  obtain ⟨hrun, hatt, _, hleased⟩ := JobRow.isLeasedTo_iff.mp hident
  refine ⟨.of_change hchange hjob rfl hleased _, ?_⟩
  obtain ⟨_, _, _, hevents⟩ := QueueTables.change_eq_ok hchange
  refine ⟨⟨job.id, job.runNumber, some job.attempt, .stageChanged .running⟩, ?_, rfl, ?_⟩
  · rw [show (db.withQueue queue).queue = queue from rfl, eventsOf_append_events hevents,
      if_pos hid.symm]
    refine mem_append_right _ ?_
    simp [JobChange.events, hstage]
  · rw [JobEventRow.position, JobLeaseIdentity.position, hrun, hatt]
    rfl

theorem jobId_of_mem_claimsOf {queue : QueueTables} (h : identity ∈ queue.claimsOf jobId) :
    identity.jobId = jobId := by
  obtain ⟨row, hrow, hclaim⟩ := mem_filterMap.mp h
  have hid : row.jobId = jobId := of_decide_eq_true (mem_filter.mp hrow).2
  rw [← hid]
  unfold JobEventRow.claim? at hclaim
  split at hclaim
  · rw [← Option.some.inj hclaim]
  · cases hclaim

instance FreshClaims.decidable (queue : QueueTables) (workerId : String) (candidates : List ℕ) :
    Decidable (FreshClaims queue workerId candidates) :=
  inferInstanceAs (Decidable (∀ job ∈ queue.jobs.rows, job.id ∈ candidates →
    job.status = .pending → ⟨job.id, job.runNumber, job.attempt + 1, workerId⟩ ∉
      claims (queue.eventsOf job.id)))

variable [UuidSource]

/-- In a fresh history no worker claims the same attempt of a job twice. -/
def FreshFrom : Database → List Transaction → Prop
  | _, [] => True
  | db, transaction :: rest =>
    transaction.request.Fresh (db.after transaction.elapsed) ∧
      FreshFrom (commit db transaction) rest

/-- What a transaction does to the queue. -/
theorem commit_queueSteps (hsound : Sound db) (tx : Transaction)
    (hfresh : strict → tx.request.Fresh (db.after tx.elapsed)) :
    QueueSteps strict (db.after tx.elapsed).clock db.queue
      (commit db tx).queue := by
  obtain ⟨mid, hadds, hkeeps⟩ := commit_does hsound tx hfresh
  have hextends := hadds.extends (hsound.after _)
  have hqueue : mid.queue = db.queue := hextends.queue
  rw [← hqueue, ← hextends.clock]
  exact hkeeps.queue

theorem Sound.queue_after (hsound : Sound db) (elapsed : ℕ) :
    QueueInvariant (db.after elapsed).clock db.queue :=
  (hsound.after elapsed).settled.queue

/-- What a sequence of transactions does to the claims of a job. -/
theorem commits_claimsGrow (hsound : Sound db) (txs : List Transaction) (jobId : ℕ) :
    ∃ more, ClaimsGrow jobId db.queue (txs.foldl commit db).queue more ∧
      (FreshFrom db txs → (db.queue.claimsOf jobId).Nodup →
        (db.queue.claimsOf jobId ++ more).Nodup) := by
  induction txs generalizing db with
  | nil => exact ⟨[], .refl jobId db.queue, fun _ hnodup => by rwa [append_nil]⟩
  | cons tx rest ih =>
    have hsteps : QueueSteps (tx.request.Fresh (db.after tx.elapsed))
        (db.after tx.elapsed).clock db.queue (commit db tx).queue :=
      commit_queueSteps hsound tx id
    obtain ⟨more, hgrow, hnodup⟩ := QueueSteps.claimsGrow hsteps (hsound.queue_after _) jobId
    obtain ⟨more', hgrow', hnodup'⟩ := ih (hsound.commit tx)
    refine ⟨more ++ more', hgrow.trans hgrow', fun hfresh hstart => ?_⟩
    have hnext := hnodup' hfresh.2 (hgrow.claims ▸ hnodup hfresh.1 hstart)
    rwa [hgrow.claims, append_assoc] at hnext

/-- In a fresh history every claim of a job is made once. -/
theorem nodup_claimsOf (hfresh : FreshFrom .initial txs) (jobId : ℕ) :
    ((history txs).queue.claimsOf jobId).Nodup := by
  obtain ⟨more, hgrow, hnodup⟩ := commits_claimsGrow sound_initial txs jobId
  rw [history, hgrow.claims]
  exact hnodup hfresh nodup_nil

/-- The identity that a request acts for. -/
def Request.identity? : Request → Option JobLeaseIdentity
  | .heartbeat identity _ | .markRunning identity _ _ _ | .updateProgress identity _
  | .completeSuccess identity _ | .completeFailure identity _
  | .completeContinuation identity _ | .releaseUnstarted identity _ _ => some identity
  | _ => none

/-- The request succeeds. -/
def Accepts (db : Database) (request : Request) : Prop :=
  ∃ response db', perform db request = .ok (response, db')

/-- The lease of the claim with this number is open: the job is leased, and no claim was made
after this one. -/
def LeaseOpen (queue : QueueTables) (jobId number : ℕ) : Prop :=
  (∃ job ∈ queue.jobs, job.id = jobId ∧ job.status = .leased) ∧
    number + 1 = (queue.claimsOf jobId).length

/-- A request is accepted only for the lease of its job. -/
theorem Accepts.leasedTo (h : Accepts db request) (hident : request.identity? = some identity) :
    ∃ job ∈ db.queue.jobs, job.id = identity.jobId ∧ job.isLeasedTo identity = true := by
  obtain ⟨resp, db', hok⟩ := h
  have hlock : ∀ job, lockLiveJobLease db identity = .ok job →
      ∃ job ∈ db.queue.jobs, job.id = identity.jobId ∧ job.isLeasedTo identity = true := by
    intro job hjob
    obtain ⟨hmem, hid, hleased, _⟩ := lockLiveJobLease_eq_ok hjob
    exact ⟨job, hmem, hid, hleased⟩
  cases request with
  | heartbeat _ _ =>
    cases hident
    have hrun := (answer_eq_ok.mp hok).1
    simp only [heartbeatJobForLease, bind_eq_ok] at hrun
    obtain ⟨_, _, job, hjob, _⟩ := hrun
    exact hlock job hjob
  | markRunning _ _ _ _ | updateProgress _ _ =>
    cases hident
    obtain ⟨job, hjob, _⟩ := bind_eq_ok.mp (answer_eq_ok.mp hok).1
    exact hlock job hjob
  | completeSuccess _ _ =>
    cases hident
    have hrun := (answer_eq_ok.mp hok).1
    simp only [completeJobSuccessForLease, bind_eq_ok] at hrun
    obtain ⟨_, _, job, hjob, _⟩ := hrun
    exact hlock job hjob
  | completeFailure _ _ =>
    cases hident
    obtain ⟨job, hjob, _⟩ := bind_eq_ok.mp (answer_eq_ok.mp hok).1
    exact hlock job hjob
  | completeContinuation _ _ =>
    cases hident
    have hrun := (answer_eq_ok.mp hok).1
    simp only [completeJobContinuationForLease, bind_eq_ok] at hrun
    obtain ⟨_, _, _, _, job, hjob, _⟩ := hrun
    exact hlock job hjob
  | releaseUnstarted _ _ _ =>
    cases hident
    obtain ⟨job, hjob, _⟩ := bind_eq_ok.mp (answer_eq_ok.mp hok).1
    obtain ⟨hmem, hid, hcond⟩ := getFilter_eq_some.mp (require_eq_ok.mp hjob)
    exact ⟨job, hmem, hid, (Bool.and_eq_true _ _ ▸ hcond).1⟩
  | _ => cases hident

/-- A request is accepted only for the last claim of its job. -/
theorem Accepts.lastClaim (hsound : Sound db) (h : Accepts db request)
    (hident : request.identity? = some identity) :
    (∃ job ∈ db.queue.jobs, job.id = identity.jobId ∧ job.status = .leased) ∧
      (db.queue.claimsOf identity.jobId).getLast? = some identity := by
  obtain ⟨job, hjob, hid, hleased⟩ := h.leasedTo hident
  obtain ⟨hrun, hatt, hworker, hstat⟩ := JobRow.isLeasedTo_iff.mp hleased
  refine ⟨⟨job, hjob, hid, hstat⟩, ?_⟩
  have hlast := (hsound.settled.queue.ledger job hjob).holder _ hworker
  rw [hid, hrun, hatt] at hlast
  exact hlast

/-- A claim that was made before is not accepted for unless its lease is still open. -/
theorem not_accepts_of_ended (hfresh : FreshFrom .initial (earlier ++ later))
    (hclaim : ((history earlier).queue.claimsOf jobId)[number]? = some identity)
    (hended : ¬ LeaseOpen (history earlier).queue jobId number)
    (hident : request.identity? = some identity) :
    ¬ Accepts ((history (earlier ++ later)).after elapsed) request := by
  obtain rfl := jobId_of_mem_claimsOf (mem_of_getElem? hclaim)
  intro haccepts
  have hsound := (sound_history (earlier ++ later)).after elapsed
  obtain ⟨⟨job, hjob, hjobId, hleased⟩, hlast⟩ := haccepts.lastClaim hsound hident
  have hnodup := nodup_claimsOf hfresh identity.jobId
  obtain ⟨more, hgrow, _⟩ := commits_claimsGrow (sound_history earlier) later identity.jobId
  rw [← history_append] at hgrow
  replace hlast : ((history (earlier ++ later)).queue.claimsOf identity.jobId).getLast? =
    some identity := hlast
  rw [hgrow.claims] at hlast hnodup
  by_cases hmore : more = []
  · rw [hmore, append_nil] at hlast hnodup
    exact hended ⟨hgrow.held hmore job hjob hjobId hleased,
      eq_length_of_getLast? hnodup hlast hclaim⟩
  · rw [getLast?_append_of_ne_nil _ hmore] at hlast
    have hnew : identity ∈ more := mem_of_getLast? hlast
    have hold : identity ∈ (history earlier).queue.claimsOf identity.jobId := mem_of_getElem? hclaim
    exact (nodup_append.mp hnodup).2.2 identity hold identity hnew rfl

/-- Two claims of a job that a database accepts requests for are the same claim. -/
theorem eq_of_accepts {identity identity' : JobLeaseIdentity} {request request' : Request}
    (hfresh : FreshFrom .initial txs)
    (hclaim : ((history txs).queue.claimsOf jobId)[number]? = some identity)
    (hclaim' : ((history txs).queue.claimsOf jobId)[number']? = some identity')
    (hident : request.identity? = some identity) (hident' : request'.identity? = some identity')
    (h : Accepts ((history txs).after elapsed) request)
    (h' : Accepts ((history txs).after elapsed) request') : number = number' := by
  have hsound := (sound_history txs).after elapsed
  have hnodup := nodup_claimsOf hfresh jobId
  have hlast := (h.lastClaim hsound hident).2
  have hlast' := (h'.lastClaim hsound hident').2
  rw [jobId_of_mem_claimsOf (mem_of_getElem? hclaim)] at hlast
  rw [jobId_of_mem_claimsOf (mem_of_getElem? hclaim')] at hlast'
  have hlen := eq_length_of_getLast? hnodup hlast hclaim
  have hlen' := eq_length_of_getLast? hnodup hlast' hclaim'
  omega

/-- After the start of an attempt was reported, the attempt is never claimed again. -/
theorem eq_of_started {elapsed' : ℕ} {identity identity' : JobLeaseIdentity}
    {progressDone progressTotal : Option ℤ} {checkpoint : Option Json} {request' : Request}
    (hfresh : FreshFrom .initial (earlier ++ ⟨elapsed,
      .markRunning identity progressDone progressTotal checkpoint⟩ :: later))
    (hclaim : ((history earlier).queue.claimsOf jobId)[number]? = some identity)
    (hclaim' : ((history (earlier ++ ⟨elapsed,
      .markRunning identity progressDone progressTotal checkpoint⟩ :: later)).queue.claimsOf
        jobId)[number']? = some identity')
    (hpos : identity'.position = identity.position)
    (h : Accepts ((history earlier).after elapsed)
      (.markRunning identity progressDone progressTotal checkpoint))
    (hident' : request'.identity? = some identity')
    (h' : Accepts ((history (earlier ++ ⟨elapsed,
      .markRunning identity progressDone progressTotal checkpoint⟩ :: later)).after elapsed')
        request') :
    number = number' := by
  have hid := jobId_of_mem_claimsOf (mem_of_getElem? hclaim)
  have hid' := jobId_of_mem_claimsOf (mem_of_getElem? hclaim')
  obtain rfl := hid
  obtain ⟨_, db', hok⟩ := id h
  have hcommit : commit (history earlier)
      ⟨elapsed, .markRunning identity progressDone progressTotal checkpoint⟩ = db' := by
    simp only [commit, hok]
  obtain ⟨hrecorded, row, hrow, hstart, hrowPos⟩ := markRunning_recorded rfl (answer_eq_ok.mp hok).1
  have hsound' : Sound db' := hcommit ▸ (sound_history earlier).commit _
  obtain ⟨more, hgrow, _⟩ := commits_claimsGrow hsound' later identity.jobId
  have hhistory : history (earlier ++ ⟨elapsed, .markRunning identity progressDone progressTotal
      checkpoint⟩ :: later) = later.foldl commit db' := by
    rw [history_append, foldl_cons, hcommit]
  have hnodup := nodup_claimsOf hfresh identity.jobId
  have hlast' := (h'.lastClaim ((sound_history _).after elapsed') hident').2
  have hlast := (h.lastClaim ((sound_history earlier).after elapsed) rfl).2
  rw [hid'] at hlast'
  rw [hhistory] at hclaim' hnodup
  replace hlast' : ((history _).queue.claimsOf identity.jobId).getLast? = some identity' := hlast'
  rw [hhistory] at hlast'
  have hmore : more = [] := by
    by_contra hmore
    rw [hgrow.claims, getLast?_append_of_ne_nil _ hmore] at hlast'
    have hlater := hgrow.later identity' (mem_of_getLast? hlast') row hrow hstart
    rw [hrowPos, hpos] at hlater
    exact absurd hlater (lt_irrefl _)
  have hsame : (later.foldl commit db').queue.claimsOf identity.jobId =
      (history earlier).queue.claimsOf identity.jobId := by
    rw [hgrow.claims, hmore, append_nil, hrecorded.claims, append_nil]
    rfl
  rw [hsame] at hclaim' hnodup hlast'
  have hlen := eq_length_of_getLast? hnodup hlast hclaim
  have hlen' := eq_length_of_getLast? hnodup hlast' hclaim'
  omega

/-- In a history in which no worker claims an attempt twice, old claims are fenced out: once
the lease of a claim has ended, nothing is accepted for it any more; at every moment requests
are accepted for at most one claim of a job; and the start of an attempt is accepted for one
claim only. -/
theorem stale_claims_are_fenced_out (transactions : List Transaction)
    (hfresh : FreshFrom .initial transactions) :
    (∀ earlier later, transactions = earlier ++ later →
      ∀ (jobId number : ℕ) identity,
        ((history earlier).queue.claimsOf jobId)[number]? = some identity →
        ¬ LeaseOpen (history earlier).queue jobId number →
        ∀ elapsed request, request.identity? = some identity →
          ¬ Accepts ((history transactions).after elapsed) request) ∧
      (∀ (jobId number number' : ℕ) identity identity',
        ((history transactions).queue.claimsOf jobId)[number]? = some identity →
        ((history transactions).queue.claimsOf jobId)[number']? = some identity' →
        ∀ elapsed request request', request.identity? = some identity →
          request'.identity? = some identity' →
          Accepts ((history transactions).after elapsed) request →
          Accepts ((history transactions).after elapsed) request' → number = number') ∧
      (∀ earlier later elapsed identity progressDone progressTotal checkpoint, transactions =
          earlier ++ ⟨elapsed, .markRunning identity progressDone progressTotal checkpoint⟩ ::
            later →
        Accepts ((history earlier).after elapsed)
          (.markRunning identity progressDone progressTotal checkpoint) →
        ∀ jobId number : ℕ, ((history earlier).queue.claimsOf jobId)[number]? = some identity →
        ∀ (number' : ℕ) identity' elapsed' progressDone' progressTotal' checkpoint',
          ((history transactions).queue.claimsOf jobId)[number']? = some identity' →
          identity'.runNumber = identity.runNumber → identity'.attempt = identity.attempt →
          Accepts ((history transactions).after elapsed')
            (.markRunning identity' progressDone' progressTotal' checkpoint') →
          number = number') := by
  refine ⟨?_, ?_, ?_⟩
  · rintro earlier later rfl jobId number identity hclaim hended elapsed request hident
    exact not_accepts_of_ended hfresh hclaim hended hident
  · intro jobId number number' identity identity' hclaim hclaim' elapsed request request'
      hident hident' h h'
    exact eq_of_accepts hfresh hclaim hclaim' hident hident' h h'
  · rintro earlier later elapsed identity progressDone progressTotal checkpoint rfl h jobId number
      hclaim number' identity' elapsed' progressDone' progressTotal' checkpoint' hclaim' hrun
      hatt h'
    refine eq_of_started hfresh hclaim hclaim' ?_ h rfl h'
    rw [JobLeaseIdentity.position, JobLeaseIdentity.position, hrun, hatt]

theorem accepts_of_isOk (h : (perform db request).isOk = true) : Accepts db request := by
  unfold Accepts
  cases hrun : perform db request with
  | ok result => exact ⟨result.1, result.2, rfl⟩
  | error error => simp [hrun, Except.isOk, Except.toBool] at h

end Fencing

/-- The identifiers 0, 1, 2 and so on. -/
@[reducible]
def countingUuids : UuidSource :=
  ⟨id, Function.injective_id⟩

/-- A job type with three attempts. -/
def sampleDefinition : DefinitionRow :=
  ⟨"mail.send", 3, 60, 0, true⟩

/-- A job of that type, with a resource of its own. -/
def sampleEnqueue : Request :=
  .enqueueJob ⟨"mail.send", none, .obj [], none, none, none, none, none, none⟩ (some "smtp")

/-- A worker claims the job ahead of its execution, for one minute. -/
def sampleClaim (workerId : String) : Request :=
  .claimJobs ⟨workerId, 60, none, .workerPrestart⟩ [0]

/-- The first worker claims the job and gives it back, and then a worker claims it again. -/
def reclaimedBy (workerId : String) : List Transaction :=
  [⟨0, .upsertDefinition sampleDefinition⟩, ⟨0, sampleEnqueue⟩, ⟨1, sampleClaim "first"⟩,
    ⟨1, .releaseUnstarted ⟨0, 1, 1, "first"⟩ "SHUTDOWN" 0⟩, ⟨1, sampleClaim workerId⟩]

/-- The first of two workers is fenced out once it has given its claim back. -/
theorem fenced_out_after_release : letI := countingUuids
    FreshFrom .initial (reclaimedBy "second") ∧
      ¬ Accepts ((history (reclaimedBy "second")).after 1)
        (.heartbeat ⟨0, 1, 1, "first"⟩ 60) := by
  let := countingUuids
  have hfresh : FreshFrom .initial (reclaimedBy "second") := by
    refine ⟨trivial, trivial, ?_, trivial, ?_, trivial⟩
    · change FreshClaims (history ((reclaimedBy "second").take 2)).queue "first" [0]
      decide +kernel
    · change FreshClaims (history ((reclaimedBy "second").take 4)).queue "second" [0]
      decide +kernel
  refine ⟨hfresh, (stale_claims_are_fenced_out _ hfresh).1 ((reclaimedBy "second").take 4)
    ((reclaimedBy "second").drop 4) (List.take_append_drop 4 _).symm 0 0 _ ?_ ?_ 1 _ rfl⟩
  · decide +kernel
  · rintro ⟨⟨job, hjob, _, hleased⟩, _⟩
    have hnone : ∀ job ∈ (history ((reclaimedBy "second").take 4)).queue.jobs.rows,
        job.status ≠ .leased := by
      decide +kernel
    exact hnone job hjob hleased

/-- A worker that claims the attempt it gave back gets the same identity again: a request on
behalf of its first claim, whose lease has ended, is accepted, and the start of the attempt
is accepted for both claims. -/
theorem stale_claim_is_accepted : letI := countingUuids
    let queue := (history (reclaimedBy "first")).queue
    ((history ((reclaimedBy "first").take 4)).queue.claimsOf 0)[0]? = some ⟨0, 1, 1, "first"⟩ ∧
      ¬ LeaseOpen (history ((reclaimedBy "first").take 4)).queue 0 0 ∧
      Accepts ((history (reclaimedBy "first")).after 1) (.heartbeat ⟨0, 1, 1, "first"⟩ 60) ∧
      (queue.claimsOf 0)[0]? = (queue.claimsOf 0)[1]? ∧
      (queue.claimsOf 0)[1]? = some ⟨0, 1, 1, "first"⟩ ∧
      Accepts ((history (reclaimedBy "first")).after 1)
        (.markRunning ⟨0, 1, 1, "first"⟩ none none none) := by
  let := countingUuids
  refine ⟨?_, ?_, accepts_of_isOk ?_, ?_, ?_, accepts_of_isOk ?_⟩
  · decide +kernel
  · rintro ⟨⟨job, hjob, _, hleased⟩, _⟩
    have hnone : ∀ job ∈ (history ((reclaimedBy "first").take 4)).queue.jobs.rows,
        job.status ≠ .leased := by
      decide +kernel
    exact hnone job hjob hleased
  · decide +kernel
  · decide +kernel
  · decide +kernel
  · decide +kernel

/-- Every attempt of a job is settled at most once, in order and within the budget of the job:
`log` are the events of the job, its settlements come in increasing order of run and attempt,
the attempt of the row counts the settled ones, the lease is the only open attempt, and a run
is dead-lettered exactly when a final failure or the last retryable one is settled. -/
theorem attempts_are_settled_once [UuidSource] (transactions : List Transaction) {job : JobRow}
    (hjob : job ∈ (history transactions).queue.jobs) :
    let queue := (history transactions).queue
    let log := queue.eventsOf job.id
    (log.filter JobEventRow.isSettlement).Pairwise
        (fun row row' => row.position < row'.position) ∧
      job.attempt ≤ job.maxAttempts ∧
      (job.status = .pending → job.attempt = settledIn log job.runNumber) ∧
      (job.status = .leased → job.attempt = settledIn log job.runNumber + 1) ∧
      (∀ row ∈ queue.attempts, row.jobId = job.id → row.finishedAt = none →
        job.status = .leased ∧ row.runNumber = job.runNumber ∧ row.attempt = job.attempt) ∧
      (job.status = .leased →
        ∃! row, row ∈ queue.attempts ∧ row.jobId = job.id ∧ row.finishedAt = none) ∧
      (∀ runNumber, DeadLetteredIn log runNumber ↔
        FinalFailureIn log runNumber ∨ (retryableFailuresIn log runNumber : ℤ) = job.maxAttempts) ∧
      (job.status = .deadLettered ↔ DeadLetteredIn log job.runNumber) ∧
      ∀ elapsed request candidates context,
        perform ((history transactions).after elapsed) (.claimJobs request candidates) ≠
          .error (.statement context (.constraint "uq_job_attempts_job_run_attempt")) := by
  have hsound := sound_history transactions
  have hledger := hsound.settled.queue.ledger job hjob
  have hatts := hsound.settled.queue.attempts job hjob
  have hopen : ∀ row ∈ (history transactions).queue.attempts, row.jobId = job.id →
      row.finishedAt = none →
      job.status = .leased ∧ row.runNumber = job.runNumber ∧ row.attempt = job.attempt := by
    intro row hrow hid hunfinished
    obtain ⟨hleased, hkey⟩ := hatts.unfinished row hrow hid hunfinished
    obtain ⟨_, hrest⟩ := Prod.mk.inj hkey
    exact ⟨hleased, (Prod.mk.inj hrest).1, (Prod.mk.inj hrest).2⟩
  refine ⟨hledger.increasing, hledger.budget, ?_, ?_, hopen, ?_, hledger.exact,
    hledger.deadLettered, ?_⟩
  · intro hpend
    have hcounted := (hledger.counted (Or.inl hpend)).1
    rw [JobRow.settledAttempts, if_neg (by simp [hpend])] at hcounted
    exact hcounted.symm
  · intro hleased
    have hcounted := (hledger.counted (Or.inr hleased)).1
    rw [JobRow.settledAttempts, if_pos hleased] at hcounted
    omega
  · intro hleased
    obtain ⟨row, hrow, hkey, hunfinished⟩ := hatts.current hleased
    refine ⟨row, ⟨hrow, (AttemptRow.key_eq_iff.mp hkey).1, hunfinished⟩, ?_⟩
    rintro other ⟨hother, hid, hopened⟩
    exact Table.eq_of_key_eq hother hrow
      ((hatts.unfinished other hother hid hopened).2.trans hkey.symm)
  · intro elapsed request candidates context herror
    refine perform_avoids (hsound.after elapsed) ?_ _ herror (Or.inr rfl)
    rfl

/-- An attempt of the sample job fails and may be tried again. -/
def sampleAttemptFailure (attempt : ℤ) (workerId : String) : Request :=
  .completeFailure ⟨0, 1, attempt, workerId⟩
    ⟨⟨.retryable, "SMTP_DOWN", "connection refused"⟩, none, some 1⟩

/-- A job with two attempts is retried after the first one and fails again. -/
def exhaustedJob : List Transaction :=
  [⟨0, .upsertDefinition { sampleDefinition with maxAttempts := 2 }⟩, ⟨0, sampleEnqueue⟩,
    ⟨1, sampleClaim "first"⟩, ⟨1, sampleAttemptFailure 1 "first"⟩,
    ⟨1000, sampleClaim "second"⟩, ⟨1, sampleAttemptFailure 2 "second"⟩]

/-- The job is dead-lettered, because its retryable failures have used up its attempts. -/
theorem exhausted_job_is_dead_lettered : letI := countingUuids
    let log := (history exhaustedJob).queue.eventsOf 0
    ∃ job ∈ (history exhaustedJob).queue.jobs, job.status = .deadLettered ∧
      (retryableFailuresIn log 1 : ℤ) = job.maxAttempts ∧ settledIn log 1 = 2 ∧
      (log.filter JobEventRow.isSettlement).Pairwise
        (fun row row' => row.position < row'.position) := by
  have hjobs : (@history countingUuids exhaustedJob).queue.jobs.rows.map (fun job =>
      (job.id, job.runNumber, job.status)) = [(0, 1, .deadLettered)] := by
    decide +kernel
  obtain ⟨job, hjob, hcols⟩ := List.mem_map.mp (hjobs ▸ List.mem_singleton_self _)
  simp only [Prod.mk.injEq] at hcols
  obtain ⟨hid, hrun, hstat⟩ := hcols
  obtain ⟨hordered, _, _, _, _, _, hexact, hdead, _⟩ :=
    @attempts_are_settled_once countingUuids exhaustedJob job (Table.mem_rows.mp hjob)
  rw [hid] at hordered hexact hdead
  rw [hrun] at hdead
  have hfinal : ¬ FinalFailureIn ((@history countingUuids exhaustedJob).queue.eventsOf 0) 1 := by
    unfold FinalFailureIn
    decide +kernel
  exact ⟨job, Table.mem_rows.mp hjob, hstat,
    ((hexact 1).mp (hdead.mp hstat)).resolve_left hfinal, by decide +kernel, hordered⟩

section Resources

variable {queue queue' : QueueTables} {expiry : ℕ}

/-- A step that cancels a job keeps the time at which its lease ends. -/
theorem QueueStep.cancel_keeps_expiry {job' : JobRow} (hstep : QueueStep strict now queue queue')
    (hjob : job ∈ queue.jobs) (hopen : job.status ≠ .canceled) (hjob' : job' ∈ queue'.jobs)
    (hid : job'.id = job.id) (hcanc : job'.status = .canceled) :
    job'.leaseExpiresAt = job.leaseExpiresAt := by
  have hsame : job' ∈ queue.jobs → job'.leaseExpiresAt = job.leaseExpiresAt :=
    fun hold => by rw [Table.eq_of_key_eq hold hjob hid]
  cases hstep with
  | insert hins =>
    obtain ⟨other, jobs, _, hjobs, rfl⟩ := hins
    rcases (Table.mem_insert? hjobs job').mp hjob' with hold | rfl
    · exact hsame hold
    · exact absurd hid.symm (Table.ne_of_insert? hjobs job hjob)
  | change ctx other change hother hlease hallowed hok =>
    rcases (mem_jobs_after_change hother (QueueTables.change_eq_ok hok).1).mp hjob' with
      ⟨hold, _⟩ | rfl
    · exact hsame hold
    · obtain rfl := Table.eq_of_key_eq hother hjob ((change.apply_id now other).symm.trans hid)
      cases change with
      | cancel reason => rfl
      | heartbeat workerId expiresAt | deferLease expiresAt | progress mutation =>
        exact absurd hcanc hopen
      | _ => cases hcanc
  | claim ctx other workerId claimOrigin expiresAt hother hpend _ _ hok =>
    rcases (mem_jobs_after_change hother (QueueTables.change_eq_ok hok).1).mp hjob' with
      ⟨hold, _⟩ | rfl
    · exact hsame hold
    · cases hcanc
  | sweep expired hexpired => exact hsame hjob'

/-- A job whose lease was canceled stays as it is until the lease would have ended. -/
theorem QueueStep.canceled_stays (hstep : QueueStep strict now queue queue')
    (hjob : job ∈ queue.jobs) (hcanc : job.status = .canceled)
    (hexp : job.leaseExpiresAt = some expiry) (hlive : now < expiry) : job ∈ queue'.jobs := by
  cases hstep with
  | insert hins =>
    obtain ⟨other, jobs, _, hjobs, rfl⟩ := hins
    exact (Table.mem_insert? hjobs job).mpr (.inl hjob)
  | change ctx other change hother hlease hallowed hok =>
    refine (mem_jobs_after_change hother (QueueTables.change_eq_ok hok).1).mpr
      (.inl ⟨hjob, fun hid => ?_⟩)
    obtain rfl := Table.eq_of_key_eq hjob hother hid
    have hopen : job.status ≠ .leased := by simp [hcanc]
    cases change with
    | lease workerId claimOrigin expiresAt => cases hlease
    | heartbeat workerId expiresAt => exact hopen hallowed.1
    | deferLease expiresAt => exact hopen hallowed
    | progress mutation => exact hopen hallowed
    | succeed progress => exact hopen hallowed
    | retry failure nextRunAt => exact hopen hallowed.1
    | deadLetter failure => exact hopen hallowed.1
    | continuation update => exact hopen hallowed
    | requeue reason update =>
      have hquiet := hallowed.2
      rw [isLiveCanceledLease_iff.mpr ⟨hcanc, expiry, hexp, hlive⟩] at hquiet
      cases hquiet
    | releaseUnstarted reason nextRunAt => exact hopen hallowed.1
    | cancel reason =>
      rcases hallowed with hpend | hleased
      · exact absurd (hcanc.symm.trans hpend) nofun
      · exact hopen hleased
  | claim ctx other workerId claimOrigin expiresAt hother hpend _ _ hok =>
    refine (mem_jobs_after_change hother (QueueTables.change_eq_ok hok).1).mpr
      (.inl ⟨hjob, fun hid => ?_⟩)
    obtain rfl := Table.eq_of_key_eq hjob hother hid
    exact absurd (hcanc.symm.trans hpend) nofun
  | sweep expired hexpired => exact hjob

theorem QueueSteps.canceled_stays (hsteps : QueueSteps strict now queue queue')
    (hjob : job ∈ queue.jobs) (hcanc : job.status = .canceled)
    (hexp : job.leaseExpiresAt = some expiry) (hlive : now < expiry) : job ∈ queue'.jobs := by
  induction hsteps with
  | refl => exact hjob
  | tail _ hstep ih => exact QueueStep.canceled_stays hstep ih hcanc hexp hlive

variable [UuidSource]

theorem commit_clock (hsound : Sound db) (tx : Transaction) :
    (commit db tx).clock = db.clock + tx.elapsed := by
  obtain ⟨mid, hadds, hkeeps⟩ := commit_does hsound tx fun h : False => h.elim
  rw [hkeeps.evolves.clock, (hadds.extends (hsound.after _)).clock]
  rfl

/-- The clock of a history never goes back. -/
theorem clock_le_commits (hsound : Sound db) (txs : List Transaction) :
    db.clock ≤ (txs.foldl commit db).clock := by
  induction txs generalizing db with
  | nil => exact le_refl _
  | cons tx rest ih =>
    refine le_trans ?_ (ih (hsound.commit tx))
    rw [commit_clock hsound]
    exact Nat.le_add_right _ _

/-- A canceled lease is kept by every sequence of transactions before its end. -/
theorem canceled_stays (hsound : Sound db) (txs : List Transaction)
    (hjob : job ∈ db.queue.jobs) (hcanc : job.status = .canceled)
    (hexp : job.leaseExpiresAt = some expiry) (hlive : (txs.foldl commit db).clock < expiry) :
    job ∈ (txs.foldl commit db).queue.jobs := by
  induction txs generalizing db with
  | nil => exact hjob
  | cons tx rest ih =>
    have hnext := hsound.commit tx
    refine ih hnext ?_ hlive
    have hnow : (db.after tx.elapsed).clock < expiry := by
      rw [show (db.after tx.elapsed).clock = (commit db tx).clock from
        (commit_clock hsound tx).symm]
      exact (clock_le_commits hnext rest).trans_lt hlive
    have hsteps : QueueSteps False (db.after tx.elapsed).clock db.queue
        (commit db tx).queue := commit_queueSteps hsound tx False.elim
    exact QueueSteps.canceled_stays hsteps hjob hcanc hexp hnow

variable (transactions : List Transaction)

/-- A job was canceled under a lease that ends at `expiry`: its row keeps the time, by
`QueueStep.cancel_keeps_expiry`. -/
def CanceledUnderLease (job : JobRow) (expiry : ℕ) : Prop :=
  ∃ earlier later, transactions = earlier ++ later ∧ job ∈ (history earlier).queue.jobs ∧
    job.status = .canceled ∧ job.leaseExpiresAt = some expiry

/-- As long as a canceled lease has not ended, its row is still there. -/
theorem CanceledUnderLease.stays (h : CanceledUnderLease txs job expiry)
    (hlive : (history txs).clock < expiry) :
    job ∈ (history txs).queue.jobs ∧ job.status = .canceled ∧ job.leaseExpiresAt = some expiry := by
  obtain ⟨earlier, later, rfl, hjob, hcanc, hexp⟩ := h
  rw [history_append] at hlive ⊢
  exact ⟨canceled_stays (sound_history earlier) later hjob hcanc hexp hlive, hcanc, hexp⟩

/-- A holder of a resource at a time: a leased job with its key, or a lease with the key that
was canceled and would end later. -/
def HoldsResource (time : ℕ) (key : String) (job : JobRow) : Prop :=
  job.executionResourceKey = some key ∧
    ((job ∈ (history transactions).queue.jobs ∧ job.status = .leased) ∨
      ∃ expiry, CanceledUnderLease transactions job expiry ∧ time < expiry)

theorem HoldsResource.claim {time : ℕ} {key : String} (h : HoldsResource txs time key job)
    (htime : (history txs).clock ≤ time) :
    job ∈ (history txs).queue.jobs ∧
      ∃ claim ∈ (history txs).queue.resourceClaims,
        claim.resourceKey = key ∧ claim.jobId = job.id := by
  have hqueue := (sound_history txs).settled.queue
  obtain ⟨hkey, ⟨hjob, hleased⟩ | ⟨expiry, hcanc, hlater⟩⟩ := h
  · obtain ⟨claim, hclaim, hres, hbelongs, _⟩ := hqueue.leased job hjob hleased key hkey
    exact ⟨hjob, claim, hclaim, hres, (ResourceClaimRow.belongsTo_iff.mp hbelongs).1⟩
  · have hlive := htime.trans_lt hlater
    obtain ⟨hjob, hstat, hexp⟩ := hcanc.stays hlive
    obtain ⟨claim, hclaim, hres, hid, _⟩ :=
      hqueue.canceled job hjob expiry hstat hexp hlive key hkey
    exact ⟨hjob, claim, hclaim, hres, hid⟩

/-- Execution resources are exclusive: a leased job with a resource has the claim on it that
carries its lease, at every time there is at most one holder, and no transaction on jobs runs
into the trigger that asks for the claim, not even behind the savepoint of the reaper. -/
theorem execution_resources_are_exclusive (transactions : List Transaction) :
    (∀ job ∈ (history transactions).queue.jobs, job.status = .leased →
      ∀ key, job.executionResourceKey = some key →
        ∃ claim ∈ (history transactions).queue.resourceClaims, claim.resourceKey = key ∧
          claim.jobId = job.id ∧ claim.runNumber = job.runNumber ∧
          claim.attempt = job.attempt ∧ some claim.workerId = job.workerId) ∧
      (∀ time key job job', (history transactions).clock ≤ time →
        HoldsResource transactions time key job → HoldsResource transactions time key job' →
        job = job') ∧
      (∀ elapsed request context, request.updatesJobs = true →
        perform ((history transactions).after elapsed) request ≠ .error (.statement context
          (.constraint "chk_job_queue_execution_resource_claim_required"))) ∧
      (∀ elapsed, ∀ job ∈ (history transactions).queue.jobs, job.status = .leased →
        ∀ defaultRetryDelayMs context,
          reapExpiredLeaseRow ((history transactions).after elapsed) job defaultRetryDelayMs ≠
            .error (.statement context
              (.constraint "chk_job_queue_execution_resource_claim_required"))) := by
  have hsound := sound_history transactions
  refine ⟨?_, ?_, ?_, ?_⟩
  · intro job hjob hleased key hkey
    obtain ⟨claim, hclaim, hres, hbelongs, _⟩ :=
      hsound.settled.queue.leased job hjob hleased key hkey
    exact ⟨claim, hclaim, hres, ResourceClaimRow.belongsTo_iff.mp hbelongs⟩
  · intro time key job job' htime h h'
    obtain ⟨hjob, claim, hclaim, hkey, hid⟩ := h.claim htime
    obtain ⟨hjob', claim', hclaim', hkey', hid'⟩ := h'.claim htime
    obtain rfl := Table.eq_of_key_eq hclaim hclaim' (hkey.trans hkey'.symm)
    exact Table.eq_of_key_eq hjob hjob' (hid.symm.trans hid')
  · intro elapsed request context hupdates herror
    exact perform_avoids (hsound.after elapsed) hupdates _ herror (Or.inl rfl)
  · intro elapsed job hjob hleased defaultRetryDelayMs context herror
    exact reapExpiredLeaseRow_avoids (hsound.after elapsed) hjob hleased defaultRetryDelayMs _
      herror (Or.inl rfl)

end Resources

end Batter.Runledger.Postgres
