import Batter.Runledger.Postgres.Lifecycle

/-!
# The log of one job

The events of a job determine how many of its attempts are settled, when it was
dead-lettered and who holds its lease.  `JobRow.Ledger` says how the row of the
job agrees with its log, and `JobRow.Ledger.afterChange` that every change keeps this
agreement.
-/

namespace Batter.Runledger.Postgres

open List

section Log

/-- Events that settle an attempt: success, continuation, a scheduled retry, a dead letter. -/
def JobEventRow.isSettlement (row : JobEventRow) : Bool :=
  match row.event with
  | .succeeded | .retryScheduled | .deadLettered _ | .requeued .handlerContinuation => true
  | _ => false

/-- The run and the attempt of an event, in the order of the attempts of a job. -/
def JobEventRow.position (row : JobEventRow) : ℤ ×ₗ ℤ :=
  toLex (row.runNumber, row.attempt.getD 0)

section

variable (log : List JobEventRow) (runNumber : ℤ)

/-- The settled attempts of a run. -/
def settledIn : ℕ :=
  log.countP fun row => row.isSettlement && decide (row.runNumber = runNumber)

/-- Failures of a kind that may be tried again. -/
def JobEventRow.isRetryableFailure (row : JobEventRow) : Bool :=
  match row.event with
  | .failed kind => kind.isRetryable
  | _ => false

/-- Failures of a kind that may not be tried again. -/
def JobEventRow.isFinalFailure (row : JobEventRow) : Bool :=
  match row.event with
  | .failed kind => !kind.isRetryable
  | _ => false

/-- Events that send a job to the dead letters. -/
def JobEventRow.isDeadLetter (row : JobEventRow) : Bool :=
  match row.event with
  | .deadLettered _ => true
  | _ => false

/-- The failures of a run that may be tried again. -/
def retryableFailuresIn : ℕ :=
  log.countP fun row => row.isRetryableFailure && decide (row.runNumber = runNumber)

/-- A failure of the run may not be tried again. -/
def FinalFailureIn : Prop :=
  ∃ row ∈ log, row.isFinalFailure = true ∧ row.runNumber = runNumber

/-- The run ended with a dead letter. -/
def DeadLetteredIn : Prop :=
  ∃ row ∈ log, row.isDeadLetter = true ∧ row.runNumber = runNumber

/-- The lease that an event records. -/
def JobEventRow.claim? (row : JobEventRow) : Option JobLeaseIdentity :=
  match row.event, row.attempt with
  | .leased workerId, some attempt => some ⟨row.jobId, row.runNumber, attempt, workerId⟩
  | _, _ => none

/-- The claims that a log records, in their order. -/
def claims : List JobLeaseIdentity :=
  log.filterMap JobEventRow.claim?

end

variable {log added : List JobEventRow} {runNumber : ℤ}

theorem settledIn_append :
    settledIn (log ++ added) runNumber = settledIn log runNumber + settledIn added runNumber :=
  countP_append

theorem retryableFailuresIn_append : retryableFailuresIn (log ++ added) runNumber =
      retryableFailuresIn log runNumber + retryableFailuresIn added runNumber :=
  countP_append

theorem finalFailureIn_append : FinalFailureIn (log ++ added) runNumber ↔
      FinalFailureIn log runNumber ∨ FinalFailureIn added runNumber := by
  simp only [FinalFailureIn, mem_append, or_and_right, exists_or]

theorem deadLetteredIn_append : DeadLetteredIn (log ++ added) runNumber ↔
      DeadLetteredIn log runNumber ∨ DeadLetteredIn added runNumber := by
  simp only [DeadLetteredIn, mem_append, or_and_right, exists_or]

theorem claims_append : claims (log ++ added) = claims log ++ claims added :=
  filterMap_append

/-- A log counts nothing in a run that it has not reached. -/
theorem counts_eq_zero (h : ∀ row ∈ log, row.runNumber < runNumber) :
    settledIn log runNumber = 0 ∧ retryableFailuresIn log runNumber = 0 ∧
      ¬ FinalFailureIn log runNumber ∧ ¬ DeadLetteredIn log runNumber := by
  have hne : ∀ row ∈ log, row.runNumber ≠ runNumber := fun row hrow => (h row hrow).ne
  refine ⟨countP_eq_zero.mpr fun row hrow => ?_, countP_eq_zero.mpr fun row hrow => ?_,
    ?_, ?_⟩
  · simp [hne row hrow]
  · simp [hne row hrow]
  · rintro ⟨row, hrow, _, heq⟩
    exact hne row hrow heq
  · rintro ⟨row, hrow, _, heq⟩
    exact hne row hrow heq

end Log

section Ledger

/-- The attempts of the current run that are settled; a leased attempt is not. -/
def JobRow.settledAttempts (job : JobRow) : ℤ :=
  if job.status = .leased then job.attempt - 1 else job.attempt

/-- The row of a job agrees with its log. -/
structure JobRow.Ledger (log : List JobEventRow) (job : JobRow) : Prop where
  limit : 0 < job.maxAttempts
  nonneg : 0 ≤ job.settledAttempts
  budget : job.attempt ≤ job.maxAttempts
  spare : job.status = .pending → job.attempt < job.maxAttempts
  reached : ∀ row ∈ log, row.runNumber ≤ job.runNumber
  increasing : (log.filter JobEventRow.isSettlement).Pairwise fun row row' =>
    row.position < row'.position
  settled : ∀ row ∈ log, row.isSettlement = true →
    row.position ≤ toLex (job.runNumber, job.settledAttempts)
  counted : job.status = .pending ∨ job.status = .leased →
    (settledIn log job.runNumber : ℤ) = job.settledAttempts ∧
      (retryableFailuresIn log job.runNumber : ℤ) = job.settledAttempts
  deadLettered : job.status = .deadLettered ↔ DeadLetteredIn log job.runNumber
  unexhausted : job.status ≠ .deadLettered →
    ¬ FinalFailureIn log job.runNumber ∧
      (retryableFailuresIn log job.runNumber : ℤ) < job.maxAttempts
  exact : ∀ runNumber, DeadLetteredIn log runNumber ↔
    FinalFailureIn log runNumber ∨ (retryableFailuresIn log runNumber : ℤ) = job.maxAttempts
  holder : ∀ workerId, job.workerId = some workerId →
    (claims log).getLast? = some ⟨job.id, job.runNumber, job.attempt, workerId⟩
  held : job.status = .leased ↔ job.workerId.isSome

/-- When a change may be made. -/
def JobChange.Allowed (queue : QueueTables) (now : ℕ) (job : JobRow) : JobChange → Prop
  | .lease _ _ _ => job.status = .pending
  | .heartbeat workerId _ => job.status = .leased ∧ job.workerId = some workerId
  | .deferLease _ | .progress _ | .succeed _ | .continuation _ => job.status = .leased
  | .retry failure _ =>
    job.status = .leased ∧ failure.kind.isRetryable = true ∧ job.attempt < job.maxAttempts
  | .deadLetter failure =>
    job.status = .leased ∧ (failure.kind.isRetryable = false ∨ job.maxAttempts ≤ job.attempt)
  | .requeue _ _ =>
    (job.status = .canceled ∨ job.status = .deadLettered) ∧ job.isLiveCanceledLease now = false
  | .releaseUnstarted _ _ => job.status = .leased ∧ queue.isUnstarted job = true
  | .cancel _ => job.status = .pending ∨ job.status = .leased

variable {log added : List JobEventRow} {job job' : JobRow}

/-- Events that report a failure. -/
def JobEventRow.isFailure (row : JobEventRow) : Bool :=
  row.isRetryableFailure || row.isFinalFailure || row.isDeadLetter

/-- Events that settle nothing leave the settlements of a log as they were. -/
theorem settlements_append_of_none (log added : List JobEventRow)
    (h : ∀ row ∈ added, row.isSettlement = false) :
    (log ++ added).filter JobEventRow.isSettlement = log.filter JobEventRow.isSettlement ∧
      ∀ runNumber, settledIn (log ++ added) runNumber = settledIn log runNumber := by
  refine ⟨?_, fun runNumber => ?_⟩
  · have hnone : added.filter JobEventRow.isSettlement = [] :=
      filter_eq_nil_iff.mpr fun row hrow => by simp [h row hrow]
    rw [filter_append, hnone, append_nil]
  · have hnone : settledIn added runNumber = 0 :=
      countP_eq_zero.mpr fun row hrow => by simp [h row hrow]
    rw [settledIn_append, hnone, Nat.add_zero]

/-- Events that report no failure of a run leave the failures of the run as they were. -/
theorem failures_append_of_none (log added : List JobEventRow) {runNumber : ℤ}
    (h : ∀ row ∈ added, row.isFailure = true → row.runNumber ≠ runNumber) :
    retryableFailuresIn (log ++ added) runNumber = retryableFailuresIn log runNumber ∧
      (FinalFailureIn (log ++ added) runNumber ↔ FinalFailureIn log runNumber) ∧
      (DeadLetteredIn (log ++ added) runNumber ↔ DeadLetteredIn log runNumber) := by
  simp only [JobEventRow.isFailure, Bool.or_eq_true] at h
  refine ⟨?_, ?_, ?_⟩
  · have hnone : retryableFailuresIn added runNumber = 0 := by
      refine countP_eq_zero.mpr fun row hrow => ?_
      simpa using fun hfailure => h row hrow (.inl (.inl hfailure))
    rw [retryableFailuresIn_append, hnone, Nat.add_zero]
  · rw [finalFailureIn_append, or_iff_left]
    rintro ⟨row, hrow, hfinal, heq⟩
    exact h row hrow (.inl (.inr hfinal)) heq
  · rw [deadLetteredIn_append, or_iff_left]
    rintro ⟨row, hrow, hdead, heq⟩
    exact h row hrow (.inr hdead) heq

/-- Events of a run that settle nothing, report no failure and record no claim. -/
structure IsQuiet (runNumber : ℤ) (added : List JobEventRow) : Prop where
  settlement : ∀ row ∈ added, row.isSettlement = false
  failure : ∀ row ∈ added, row.isFailure = false
  run : ∀ row ∈ added, row.runNumber = runNumber
  claims : claims added = []

theorem IsQuiet.singleton {row : JobEventRow} {runNumber : ℤ} (hrun : row.runNumber = runNumber)
    (hsettlement : row.isSettlement = false) (hfail : row.isFailure = false)
    (hclaim : row.claim? = none) : IsQuiet runNumber [row] :=
  ⟨by simpa, by simpa, by simpa, by simp [Postgres.claims, hclaim]⟩

theorem JobRow.Ledger.reached_append (h : job.Ledger log)
    (hadded : ∀ row ∈ added, row.runNumber = job.runNumber) :
    ∀ row ∈ log ++ added, row.runNumber ≤ job.runNumber := by
  intro row hrow
  rcases mem_append.mp hrow with hrow | hrow
  · exact h.reached row hrow
  · exact (hadded row hrow).le

/-- A ledger goes on with events of the current run that settle nothing and report no failure,
unless they record a claim of another holder. -/
theorem JobRow.Ledger.appendSilent (h : job.Ledger log)
    (hsettlement : ∀ row ∈ added, row.isSettlement = false)
    (hfailure : ∀ row ∈ added, row.isFailure = false)
    (hrun : ∀ row ∈ added, row.runNumber = job.runNumber)
    (hclaims : job.workerId = none ∨ claims added = []) : job.Ledger (log ++ added) := by
  obtain ⟨hfilter, hsettled⟩ := settlements_append_of_none log added hsettlement
  have hfails := fun runNumber => @failures_append_of_none log added runNumber
    fun row hrow h => absurd (hfailure row hrow) (by simp [h])
  refine { h with reached := h.reached_append hrun, increasing := ?_, settled := ?_,
                  counted := ?_, deadLettered := ?_, unexhausted := ?_, exact := ?_,
                  holder := ?_ }
  · rw [hfilter]
    exact h.increasing
  · intro row hrow hsettlement
    have hmem : row ∈ (log ++ added).filter JobEventRow.isSettlement :=
      mem_filter.mpr ⟨hrow, hsettlement⟩
    rw [hfilter] at hmem
    exact h.settled row (mem_of_mem_filter hmem) hsettlement
  · rw [hsettled, (hfails _).1]
    exact h.counted
  · rw [(hfails _).2.2]
    exact h.deadLettered
  · rw [(hfails _).1, (hfails _).2.1]
    exact h.unexhausted
  · intro runNumber
    rw [(hfails _).1, (hfails _).2.1, (hfails _).2.2]
    exact h.exact runNumber
  · rcases hclaims with hnone | hclaims
    · simp [hnone]
    · rw [claims_append, hclaims, append_nil]
      exact h.holder

/-- A ledger goes on with quiet events of the current run. -/
theorem JobRow.Ledger.appendQuiet (h : job.Ledger log) (hquiet : IsQuiet job.runNumber added) :
    job.Ledger (log ++ added) :=
  h.appendSilent hquiet.settlement hquiet.failure hquiet.run (.inr hquiet.claims)

/-- The ledger of a job that was just inserted. -/
theorem JobRow.IsNew.ledger (h : job.IsNew) :
    job.Ledger [⟨job.id, job.runNumber, none, .enqueued⟩] := by
  have hzero : job.settledAttempts = 0 := by
    simp [JobRow.settledAttempts, h.status, h.attempt]
  have hempty : job.Ledger [] := by
    refine ⟨h.maxAttempts, hzero.ge, by rw [h.attempt]; exact h.maxAttempts.le,
      fun _ => by rw [h.attempt]; exact h.maxAttempts, by simp, by simp, by simp,
      fun _ => by simp [hzero, settledIn, retryableFailuresIn], ?_, fun _ => ⟨?_, ?_⟩, ?_, ?_, ?_⟩
    · simp [h.status, DeadLetteredIn]
    · simp [FinalFailureIn]
    · simpa [retryableFailuresIn] using h.maxAttempts
    · intro runNumber
      simp [DeadLetteredIn, FinalFailureIn, retryableFailuresIn, h.maxAttempts.ne]
    · simp [h.workerId]
    · simp [h.status, h.workerId]
  have hquiet : IsQuiet job.runNumber [⟨job.id, job.runNumber, none, .enqueued⟩] :=
    .singleton rfl rfl rfl rfl
  exact hempty.appendQuiet hquiet

/-- A job that keeps its status, its attempt and its lease keeps its ledger. -/
theorem JobRow.Ledger.of_eq (h : job.Ledger log) (hid : job'.id = job.id)
    (hmax : job'.maxAttempts = job.maxAttempts) (hstat : job'.status = job.status)
    (hrun : job'.runNumber = job.runNumber) (hatt : job'.attempt = job.attempt)
    (hworker : job'.workerId = job.workerId) : job'.Ledger log := by
  have hsettled : job'.settledAttempts = job.settledAttempts := by
    rw [JobRow.settledAttempts, JobRow.settledAttempts, hstat, hatt]
  exact ⟨hmax ▸ h.limit, hsettled ▸ h.nonneg, hatt ▸ hmax ▸ h.budget,
    hstat ▸ hatt ▸ hmax ▸ h.spare, hrun ▸ h.reached, h.increasing,
    hsettled ▸ hrun ▸ h.settled, hstat ▸ hsettled ▸ hrun ▸ h.counted,
    hstat ▸ hrun ▸ h.deadLettered, hstat ▸ hrun ▸ hmax ▸ h.unexhausted,
    hmax ▸ h.exact, hid ▸ hrun ▸ hatt ▸ hworker ▸ h.holder, hstat ▸ hworker ▸ h.held⟩

end Ledger

section Changes

attribute [local simp] JobChange.events JobChange.apply JobRow.settledAttempts
  JobEventRow.isSettlement

variable {log added : List JobEventRow} {job : JobRow} {queue : QueueTables} {now : ℕ}

section

variable (h : job.Ledger log)
include h

theorem JobRow.Ledger.lease (hpend : job.status = .pending) (workerId : String)
    (claimOrigin : AttemptClaimOrigin) (expiresAt : ℕ) :
    ((JobChange.lease workerId claimOrigin expiresAt).apply now job).Ledger
      (log ++ (JobChange.lease workerId claimOrigin expiresAt).events job) := by
  have hopen : job.settledAttempts = job.attempt := by
    simp [hpend]
  have hleased : ((JobChange.lease workerId claimOrigin expiresAt).apply now
      job).settledAttempts = job.attempt := by
    simp
  have hlive : job.status ≠ .deadLettered := by simp [hpend]
  have hidle : job.workerId = none := by
    simpa [hpend] using h.held
  have hnext : job.Ledger (log ++ (JobChange.lease workerId claimOrigin expiresAt).events job) :=
    h.appendSilent (fun row hrow => by rw [mem_singleton.mp hrow]; rfl)
      (fun row hrow => by rw [mem_singleton.mp hrow]; rfl) (by simp)
      (.inl hidle)
  refine ⟨h.limit, hleased ▸ hopen ▸ h.nonneg, h.spare hpend, nofun, hnext.reached,
    hnext.increasing, hleased ▸ hopen ▸ hnext.settled,
    fun _ => hleased ▸ hopen ▸ hnext.counted (.inl hpend),
    iff_of_false nofun fun hin => hlive (hnext.deadLettered.mpr hin),
    fun _ => hnext.unexhausted hlive, hnext.exact, ?_, iff_of_true rfl rfl⟩
  intro workerId' hworker
  cases hworker
  rw [claims_append]
  exact getLast?_append_of_ne_nil _ (by simp [claims, JobEventRow.claim?])

/-- What a settlement adds to the settled attempts. -/
theorem JobRow.Ledger.settle (added : List JobEventRow) {settlement : JobEventRow}
    (hleased : job.status = .leased) (hadded : added.filter JobEventRow.isSettlement = [settlement])
    (hpos : settlement.position = toLex (job.runNumber, job.attempt)) :
    ((log ++ added).filter JobEventRow.isSettlement).Pairwise
        (fun row row' => row.position < row'.position) ∧
      ∀ row ∈ log ++ added, row.isSettlement = true →
        row.position ≤ toLex (job.runNumber, job.attempt) := by
  have hbefore : ∀ row ∈ log, row.isSettlement = true →
      row.position < toLex (job.runNumber, job.attempt) := by
    intro row hrow hsettlement
    refine (h.settled row hrow hsettlement).trans_lt ?_
    rw [JobRow.settledAttempts, if_pos hleased, Prod.Lex.toLex_lt_toLex]
    exact .inr ⟨rfl, by simp⟩
  constructor
  · rw [filter_append, hadded, pairwise_append]
    refine ⟨h.increasing, pairwise_singleton _ _, fun row hrow row' hrow' => ?_⟩
    rw [mem_singleton.mp hrow', hpos]
    obtain ⟨hmem, hsettlement⟩ := mem_filter.mp hrow
    exact hbefore row hmem hsettlement
  · intro row hrow hsettlement
    rcases mem_append.mp hrow with hrow | hrow
    · exact (hbefore row hrow hsettlement).le
    · have hmem : row ∈ added.filter JobEventRow.isSettlement :=
        mem_filter.mpr ⟨hrow, hsettlement⟩
      rw [hadded] at hmem
      rw [mem_singleton.mp hmem, hpos]

variable (hleased : job.status = .leased)
include hleased

theorem JobRow.Ledger.succeed (update : SuccessProgressUpdate) :
    ((JobChange.succeed update).apply now job).Ledger
      (log ++ (JobChange.succeed update).events job) := by
  have hbefore : job.settledAttempts = job.attempt - 1 := by
    simp [hleased]
  have hafter : ((JobChange.succeed update).apply now job).settledAttempts = job.attempt := by
    simp
  have hnonneg := hbefore ▸ h.nonneg
  have hlive : job.status ≠ .deadLettered := by simp [hleased]
  obtain ⟨hincr, hsettled⟩ := h.settle
    ((JobChange.succeed update).events job) hleased rfl rfl
  have hfails := fun runNumber => @failures_append_of_none log
    ((JobChange.succeed update).events job) runNumber
    fun row hrow h => by rw [mem_singleton.mp hrow] at h; cases h
  refine ⟨h.limit, by omega, h.budget, nofun, h.reached_append (by simp),
    hincr, hafter ▸ hsettled, by simp, ?_, ?_, ?_, nofun, ?_⟩
  · rw [(hfails _).2.2]
    exact iff_of_false nofun fun hin => hlive (h.deadLettered.mpr hin)
  · intro _
    rw [(hfails _).1, (hfails _).2.1]
    exact h.unexhausted hlive
  · intro runNumber
    rw [(hfails _).1, (hfails _).2.1, (hfails _).2.2]
    exact h.exact runNumber
  · exact iff_of_false nofun nofun

theorem JobRow.Ledger.retry (failure : FailureDetails) (nextRunAt : ℕ)
    (hretryable : failure.kind.isRetryable = true) (hspare : job.attempt < job.maxAttempts) :
    ((JobChange.retry failure nextRunAt).apply now job).Ledger
      (log ++ (JobChange.retry failure nextRunAt).events job) := by
  have hbefore : job.settledAttempts = job.attempt - 1 := by
    simp [hleased]
  have hafter : ((JobChange.retry failure nextRunAt).apply now job).settledAttempts =
      job.attempt := by
    simp
  have hnonneg := hbefore ▸ h.nonneg
  have hlive : job.status ≠ .deadLettered := by simp [hleased]
  obtain ⟨hsettledBefore, hretryableBefore⟩ := h.counted (.inr hleased)
  obtain ⟨hincr, hsettled⟩ := h.settle
    ((JobChange.retry failure nextRunAt).events job) hleased rfl rfl
  have hfinal : ∀ runNumber,
      ¬ FinalFailureIn ((JobChange.retry failure nextRunAt).events job) runNumber := by
    simp [FinalFailureIn, JobEventRow.isFinalFailure, hretryable]
  have hdead : ∀ runNumber,
      ¬ DeadLetteredIn ((JobChange.retry failure nextRunAt).events job) runNumber := by
    simp [DeadLetteredIn, JobEventRow.isDeadLetter]
  have hone : settledIn ((JobChange.retry failure nextRunAt).events job) job.runNumber = 1 := by
    simp [settledIn]
  have honeFailure : retryableFailuresIn ((JobChange.retry failure nextRunAt).events job)
      job.runNumber = 1 := by
    simp [retryableFailuresIn, JobEventRow.isRetryableFailure, hretryable]
  have hcounts : (settledIn (log ++ (JobChange.retry failure nextRunAt).events job)
        job.runNumber : ℤ) = job.attempt ∧
      (retryableFailuresIn (log ++ (JobChange.retry failure nextRunAt).events job)
        job.runNumber : ℤ) = job.attempt := by
    rw [settledIn_append, retryableFailuresIn_append, hone, honeFailure]
    push_cast
    omega
  refine ⟨h.limit, by omega, h.budget, fun _ => hspare,
    h.reached_append (by simp), hincr, hafter ▸ hsettled, ?_, ?_, ?_, ?_,
    nofun, iff_of_false nofun nofun⟩
  · intro _
    rw [hafter]
    exact hcounts
  · rw [deadLetteredIn_append]
    exact iff_of_false nofun (not_or.mpr ⟨fun hin => hlive (h.deadLettered.mpr hin), hdead _⟩)
  · intro _
    rw [finalFailureIn_append]
    refine ⟨not_or.mpr ⟨(h.unexhausted hlive).1, hfinal _⟩, ?_⟩
    exact hcounts.2.trans_lt hspare
  · intro runNumber
    by_cases hrun : runNumber = job.runNumber
    · subst hrun
      rw [deadLetteredIn_append, finalFailureIn_append]
      refine iff_of_false (not_or.mpr ⟨fun hin => hlive (h.deadLettered.mpr hin), hdead _⟩) ?_
      refine not_or.mpr ⟨not_or.mpr ⟨(h.unexhausted hlive).1, hfinal _⟩, ?_⟩
      exact fun heq => hspare.ne (hcounts.2.symm.trans heq)
    · obtain ⟨hsame, hsameFinal, hsameDead⟩ := @failures_append_of_none log
        ((JobChange.retry failure nextRunAt).events job) runNumber
        (by simp [Ne.symm hrun])
      rw [hsame, hsameFinal, hsameDead]
      exact h.exact runNumber

theorem JobRow.Ledger.deadLetter (failure : FailureDetails)
    (hexhausted : failure.kind.isRetryable = false ∨ job.maxAttempts ≤ job.attempt) :
    ((JobChange.deadLetter failure).apply now job).Ledger
      (log ++ (JobChange.deadLetter failure).events job) := by
  have hbefore : job.settledAttempts = job.attempt - 1 := by
    simp [hleased]
  have hafter : ((JobChange.deadLetter failure).apply now job).settledAttempts =
      job.attempt := by
    simp
  have hnonneg := hbefore ▸ h.nonneg
  have hbudget := h.budget
  obtain ⟨_, hretryableBefore⟩ := h.counted (.inr hleased)
  obtain ⟨hincr, hsettled⟩ := h.settle
    ((JobChange.deadLetter failure).events job) hleased rfl rfl
  have hdead : DeadLetteredIn (log ++ (JobChange.deadLetter failure).events job)
      job.runNumber := by
    rw [deadLetteredIn_append]
    exact .inr (by simp [DeadLetteredIn, JobEventRow.isDeadLetter])
  refine ⟨h.limit, by omega, h.budget, nofun, h.reached_append (by simp),
    hincr, hafter ▸ hsettled, by simp, iff_of_true rfl hdead,
    fun hne => absurd rfl hne, ?_, nofun, iff_of_false nofun nofun⟩
  intro runNumber
  by_cases hrun : runNumber = job.runNumber
  · subst hrun
    refine iff_of_true hdead ?_
    rw [finalFailureIn_append, retryableFailuresIn_append]
    cases hkind : failure.kind.isRetryable with
    | false =>
      refine .inl (.inr ?_)
      simp [FinalFailureIn, JobEventRow.isFinalFailure, hkind]
    | true =>
      have hlimit := hexhausted.resolve_left (by simp [hkind])
      have hone : retryableFailuresIn ((JobChange.deadLetter failure).events job)
          job.runNumber = 1 := by
        simp [retryableFailuresIn, JobEventRow.isRetryableFailure, hkind]
      refine .inr ?_
      rw [hone]
      change ((retryableFailuresIn log job.runNumber + 1 : ℕ) : ℤ) = job.maxAttempts
      push_cast
      omega
  · obtain ⟨hsame, hsameFinal, hsameDead⟩ := @failures_append_of_none log
      ((JobChange.deadLetter failure).events job) runNumber
      (by simp [Ne.symm hrun])
    rw [hsame, hsameFinal, hsameDead]
    exact h.exact runNumber

end

/-- A job that enters its next run starts from a log that has not reached the run. -/
theorem JobRow.advance_ledger (update : AdvanceJobToNextRun) (hlimit : 0 < job.maxAttempts)
    (hreached : ∀ row ∈ log, row.runNumber ≤ job.runNumber)
    (hincr : (log.filter JobEventRow.isSettlement).Pairwise fun row row' =>
      row.position < row'.position)
    (hexact : ∀ runNumber, DeadLetteredIn log runNumber ↔
      FinalFailureIn log runNumber ∨ (retryableFailuresIn log runNumber : ℤ) = job.maxAttempts) :
    (job.advance now update).Ledger log := by
  have hearlier : ∀ row ∈ log, row.runNumber < job.runNumber + 1 :=
    fun row hrow => Int.lt_add_one_of_le (hreached row hrow)
  obtain ⟨hsettled, hretryable, hfinal, hdead⟩ := counts_eq_zero hearlier
  have hzero : (job.advance now update).settledAttempts = 0 := by
    simp [JobRow.advance]
  refine ⟨hlimit, hzero.ge, hlimit.le, fun _ => hlimit, fun row hrow => (hearlier row hrow).le,
    hincr, ?_, ?_, iff_of_false nofun hdead, fun _ => ⟨hfinal, ?_⟩, hexact, nofun,
    iff_of_false nofun nofun⟩
  · intro row hrow _
    rw [JobEventRow.position, Prod.Lex.toLex_le_toLex]
    exact .inl (hearlier row hrow)
  · intro _
    rw [hzero]
    change ((settledIn log (job.runNumber + 1) : ℕ) : ℤ) = 0 ∧
      ((retryableFailuresIn log (job.runNumber + 1) : ℕ) : ℤ) = 0
    simp [hsettled, hretryable]
  · change ((retryableFailuresIn log (job.runNumber + 1) : ℕ) : ℤ) < job.maxAttempts
    simpa [hretryable] using hlimit

theorem JobRow.Ledger.continuation (h : job.Ledger log) (hleased : job.status = .leased)
    (update : AdvanceJobToNextRun) :
    ((JobChange.continuation update).apply now job).Ledger
      (log ++ (JobChange.continuation update).events job) := by
  have hfails := fun runNumber => @failures_append_of_none log
    ((JobChange.continuation update).events job) runNumber
    fun row hrow h => by rw [mem_singleton.mp hrow] at h; cases h
  refine JobRow.advance_ledger update h.limit (h.reached_append (by simp))
    (h.settle ((JobChange.continuation update).events job) hleased rfl rfl).1 ?_
  intro runNumber
  rw [(hfails _).1, (hfails _).2.1, (hfails _).2.2]
  exact h.exact runNumber

theorem JobRow.Ledger.requeue (h : job.Ledger log)
    (reason : String) (update : AdvanceJobToNextRun) :
    ((JobChange.requeue reason update).apply now job).Ledger
      (log ++ (JobChange.requeue reason update).events job) := by
  have hquiet : IsQuiet job.runNumber ((JobChange.requeue reason update).events job) :=
    .singleton rfl rfl rfl rfl
  have hnext := h.appendQuiet hquiet
  exact JobRow.advance_ledger update hnext.limit hnext.reached hnext.increasing hnext.exact

theorem JobRow.Ledger.releaseUnstarted (h : job.Ledger log) (hleased : job.status = .leased)
    (reason : String) (nextRunAt : ℕ) :
    ((JobChange.releaseUnstarted reason nextRunAt).apply now job).Ledger
      (log ++ (JobChange.releaseUnstarted reason nextRunAt).events job) := by
  have hquiet : IsQuiet job.runNumber ((JobChange.releaseUnstarted reason nextRunAt).events job) :=
    .singleton rfl rfl rfl rfl
  have hnext := h.appendQuiet hquiet
  have hlive : job.status ≠ .deadLettered := by simp [hleased]
  have hsettled : ((JobChange.releaseUnstarted reason nextRunAt).apply now job).settledAttempts =
      job.settledAttempts := by
    simp [hleased]
  have hspare : job.attempt - 1 < job.maxAttempts := by
    have := h.budget
    omega
  exact ⟨h.limit, hsettled ▸ h.nonneg, hspare.le, fun _ => hspare, hnext.reached,
    hnext.increasing, hsettled ▸ hnext.settled,
    fun _ => hsettled ▸ hnext.counted (.inr hleased),
    iff_of_false nofun fun hin => hlive (hnext.deadLettered.mpr hin),
    fun _ => hnext.unexhausted hlive, hnext.exact, nofun, iff_of_false nofun nofun⟩

theorem JobRow.Ledger.cancel (h : job.Ledger log)
    (hopen : job.status = .pending ∨ job.status = .leased) (reason : Option String) :
    ((JobChange.cancel reason).apply now job).Ledger
      (log ++ (JobChange.cancel reason).events job) := by
  have hquiet : IsQuiet job.runNumber ((JobChange.cancel reason).events job) :=
    .singleton rfl rfl rfl rfl
  have hnext := h.appendQuiet hquiet
  have hlive : job.status ≠ .deadLettered := by rcases hopen with hopen | hopen <;> simp [hopen]
  have hsettled : job.settledAttempts ≤
      ((JobChange.cancel reason).apply now job).settledAttempts := by
    rcases hopen with hopen | hopen <;>
      simp [hopen]
  refine ⟨h.limit, h.nonneg.trans hsettled, h.budget, nofun, hnext.reached, hnext.increasing,
    ?_, by simp, iff_of_false nofun fun hin => hlive (hnext.deadLettered.mpr hin),
    fun _ => hnext.unexhausted hlive, hnext.exact, nofun, iff_of_false nofun nofun⟩
  intro row hrow hsettlement
  refine (hnext.settled row hrow hsettlement).trans ?_
  rw [Prod.Lex.toLex_le_toLex]
  exact .inr ⟨rfl, hsettled⟩

/-- The events of a progress update. -/
theorem mem_progress_events {mutation : ProgressMutation} {row : JobEventRow}
    (hrow : row ∈ (JobChange.progress mutation).events job) :
    (∃ stage, mutation.stage = some stage ∧
        row = ⟨job.id, job.runNumber, some job.attempt, .stageChanged stage⟩) ∨
      row = ⟨job.id, job.runNumber, some job.attempt,
        .progress mutation.progressDone mutation.progressTotal⟩ := by
  rcases mem_append.mp hrow with hrow | hrow
  · obtain ⟨stage, hstage, heq⟩ := Option.map_eq_some_iff.mp (Option.mem_toList.mp hrow)
    exact .inl ⟨stage, hstage, heq.symm⟩
  · split_ifs at hrow
    · exact .inr (mem_singleton.mp hrow)
    · cases hrow

theorem progress_events_isQuiet (mutation : ProgressMutation) :
    IsQuiet job.runNumber ((JobChange.progress mutation).events job) := by
  have hcases : ∀ row ∈ (JobChange.progress mutation).events job,
      row.isSettlement = false ∧ row.isFailure = false ∧ row.runNumber = job.runNumber ∧
        row.claim? = none := by
    intro row hrow
    rcases mem_progress_events hrow with ⟨stage, _, rfl⟩ | rfl <;> exact ⟨rfl, rfl, rfl, rfl⟩
  exact ⟨fun row hrow => (hcases row hrow).1, fun row hrow => (hcases row hrow).2.1,
    fun row hrow => (hcases row hrow).2.2.1,
    filterMap_eq_nil_iff.mpr fun row hrow => (hcases row hrow).2.2.2⟩

/-- Every change that is allowed keeps the row of a job in agreement with its log. -/
theorem JobRow.Ledger.afterChange (h : job.Ledger log) (change : JobChange)
    (hallowed : change.Allowed queue now job) :
    (change.apply now job).Ledger (log ++ change.events job) := by
  cases change with
  | lease workerId claimOrigin expiresAt =>
    exact h.lease hallowed workerId claimOrigin expiresAt
  | heartbeat workerId expiresAt =>
    exact (h.appendQuiet (.singleton rfl rfl rfl rfl)).of_eq rfl rfl rfl rfl rfl rfl
  | deferLease expiresAt =>
    refine (h.appendQuiet ⟨?_, ?_, ?_, rfl⟩).of_eq rfl rfl rfl rfl rfl rfl <;>
      simp
  | progress mutation =>
    exact (h.appendQuiet (progress_events_isQuiet mutation)).of_eq rfl rfl rfl rfl rfl rfl
  | succeed update => exact h.succeed hallowed update
  | retry failure nextRunAt =>
    exact h.retry hallowed.1 failure nextRunAt hallowed.2.1 hallowed.2.2
  | deadLetter failure => exact h.deadLetter hallowed.1 failure hallowed.2
  | continuation update => exact h.continuation hallowed update
  | requeue reason update => exact h.requeue reason update
  | releaseUnstarted reason nextRunAt => exact h.releaseUnstarted hallowed.1 reason nextRunAt
  | cancel reason => exact h.cancel hallowed reason

end Changes

end Batter.Runledger.Postgres
