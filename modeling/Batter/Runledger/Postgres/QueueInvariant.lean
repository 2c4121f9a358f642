import Batter.Runledger.Postgres.JobLedger

/-!
# The invariant of the queue

`QueueStep` says once what the transactions do to the tables of the queue: insert
a job, change a job in an allowed way, claim a job together with its resource,
sweep resource claims.  Every step keeps the rows in agreement with the log, the
attempts in agreement with the rows, and the resource claims in agreement with
the leases.
-/

namespace Batter.Runledger.Postgres

open RustStd List Table

variable {claimOrigin : AttemptClaimOrigin} {context workerId : String} {now expiresAt : ℕ}

section Steps

/-- The log of one job. -/
def QueueTables.eventsOf (queue : QueueTables) (jobId : ℕ) : List JobEventRow :=
  queue.events.filter (·.jobId = jobId)

/-- The claim on its resource that a job gets with its next lease. -/
def Acquired (claims claims' : Table ResourceClaimRow.resourceKey) (job : JobRow)
    (workerId : String) : Prop :=
  match job.executionResourceKey with
  | none => claims' = claims
  | some key => ∃ claim, claims.insert? claim = some claims' ∧ claim.resourceKey = key ∧
      claim.jobId = job.id ∧ claim.runNumber = job.runNumber ∧
      claim.attempt = job.attempt + 1 ∧ claim.workerId = workerId ∧ claim.releaseAfter = none

/-- A claim that protects nothing any more. -/
def ResourceClaimRow.Expired (queue : QueueTables) (now : ℕ) (claim : ResourceClaimRow) : Prop :=
  (∀ releaseAfter, claim.releaseAfter = some releaseAfter → releaseAfter ≤ now) ∧
    (claim.releaseAfter = none →
      ∀ job ∈ queue.jobs, claim.belongsTo job = true → job.status ≠ .leased)

/-- A change that is not a claim. -/
def JobChange.isLease : JobChange → Bool
  | .lease _ _ _ => true
  | _ => false

/-- What a transaction can do to the queue.  In a `strict` history no worker claims the
same attempt of a job twice. -/
inductive QueueStep (strict : Prop) (now : ℕ) (queue : QueueTables) : QueueTables → Prop
  | insert {queue' : QueueTables} (hins : queue.InsertStep queue') :
      QueueStep strict now queue queue'
  | change {queue' : QueueTables} (context : String) (job : JobRow) (change : JobChange)
      (hjob : job ∈ queue.jobs) (hlease : change.isLease = false)
      (hallowed : change.Allowed queue now job)
      (hok : queue.change now context job change = .ok queue') :
      QueueStep strict now queue queue'
  | claim {queue' : QueueTables} {claims' : Table ResourceClaimRow.resourceKey}
      (context : String) (job : JobRow) (workerId : String)
      (claimOrigin : AttemptClaimOrigin) (leaseExpiresAt : ℕ)
      (hjob : job ∈ queue.jobs) (hpend : job.status = .pending)
      (hfresh : strict → ⟨job.id, job.runNumber, job.attempt + 1, workerId⟩ ∉
        claims (queue.eventsOf job.id))
      (hacquired : Acquired queue.resourceClaims claims' job workerId)
      (hok : { queue with resourceClaims := claims' }.change now context job
        (.lease workerId claimOrigin leaseExpiresAt) = .ok queue') :
      QueueStep strict now queue queue'
  | sweep (expired : ResourceClaimRow → Bool)
      (hexpired : ∀ claim ∈ queue.resourceClaims, expired claim = true →
        claim.Expired queue now) :
      QueueStep strict now queue
        { queue with resourceClaims := queue.resourceClaims.delete expired }

/-- What a transaction does to the queue. -/
abbrev QueueSteps (strict : Prop) (now : ℕ) : QueueTables → QueueTables → Prop :=
  Relation.ReflTransGen (QueueStep strict now)

variable {queue queue' : QueueTables} {job : JobRow}
variable {change : JobChange}

theorem QueueTables.change_eq_ok (h : queue.change now context job change = .ok queue') :
    queue'.jobs = queue.jobs.modify job.id (change.apply now) (change.apply_id now) ∧
      change.attempts now job queue.attempts = .ok queue'.attempts ∧
      queue'.resourceClaims = releaseJobExecutionResourceClaim now job (change.apply now job)
        queue.resourceClaims ∧
      queue'.events = queue.events ++ change.events job := by
  simp only [QueueTables.change, bind_eq_ok, exists_unit, pure_eq_ok] at h
  obtain ⟨_, _, attempts, hatts, rfl⟩ := h
  exact ⟨rfl, hatts, rfl, rfl⟩

/-- A row that passed the checks of its table is in range. -/
theorem QueueTables.ranged_of_change (h : queue.change now context job change = .ok queue') :
    (change.apply now job).runNumber ≤ i32Max ∧ (change.apply now job).attempt ≤ i32Max := by
  simp only [QueueTables.change, JobRow.checkConstraints, bind_eq_ok, exists_unit, rejectIf_eq_ok,
    decide_eq_false_iff_not, not_lt] at h
  obtain ⟨⟨hrun, hatt, _⟩, _⟩ := h
  exact ⟨hrun, hatt⟩

theorem JobChange.events_jobId {row : JobEventRow} (hrow : row ∈ change.events job) :
    row.jobId = job.id := by
  cases change with
  | progress mutation =>
    rcases mem_progress_events hrow with ⟨_, _, rfl⟩ | rfl <;> rfl
  | deferLease _ => cases hrow
  | retry failure _ | deadLetter failure =>
    simp only [JobChange.events, mem_cons, not_mem_nil, or_false] at hrow
    rcases hrow with rfl | rfl <;> rfl
  | _ =>
    rw [mem_singleton.mp hrow]

/-- A change writes to the log of its own job only. -/
theorem eventsOf_append_events (hevents : queue'.events = queue.events ++ change.events job)
    (id : ℕ) :
    queue'.eventsOf id = if id = job.id then queue.eventsOf id ++ change.events job
      else queue.eventsOf id := by
  rw [QueueTables.eventsOf, hevents, filter_append]
  split_ifs with hid
  · subst hid
    congr 1
    exact filter_eq_self.mpr fun row hrow => by simp [JobChange.events_jobId hrow]
  · have hnone : (change.events job).filter (fun row => decide (row.jobId = id)) = [] :=
      filter_eq_nil_iff.mpr fun row hrow => by
        simp [JobChange.events_jobId hrow, Ne.symm hid]
    rw [hnone, append_nil]
    rfl

end Steps

section Attempts

attribute [local simp] JobChange.events JobChange.apply AttemptRow.finish

/-- The run and the attempt of a row of `job_attempts`. -/
def AttemptRow.position (row : AttemptRow) : ℤ ×ₗ ℤ :=
  toLex (row.runNumber, row.attempt)

/-- The run and the attempt that a job has reached. -/
def JobRow.position (job : JobRow) : ℤ ×ₗ ℤ :=
  toLex (job.runNumber, job.attempt)

/-- The attempts of a job agree with its row: only the attempt of its lease is open, and an
attempt whose execution was reported is marked as started. -/
structure JobRow.Attempts (attempts : Table AttemptRow.key) (log : List JobEventRow)
    (job : JobRow) : Prop where
  reached : ∀ row ∈ attempts, row.jobId = job.id → row.position ≤ job.position
  unfinished : ∀ row ∈ attempts, row.jobId = job.id → row.finishedAt = none →
    job.status = .leased ∧ row.key = job.attemptKey
  current : job.status = .leased → ∃ row ∈ attempts, row.key = job.attemptKey ∧
    row.finishedAt = none
  started : ∀ row ∈ log, row.event = .stageChanged .running → row.position ≤ job.position ∧
    (job.status = .leased → row.position = job.position → ∀ attempt ∈ attempts,
      attempt.key = job.attemptKey → attempt.executionStartedPersistedAt.isSome)

variable {attempts attempts' : Table AttemptRow.key} {log added : List JobEventRow}
variable {job job' : JobRow} {queue : QueueTables} {change : JobChange}
variable {row : AttemptRow} {f : AttemptRow → AttemptRow}

theorem AttemptRow.key_eq_iff :
    row.key = job.attemptKey ↔ row.jobId = job.id ∧ row.position = job.position := by
  simp only [AttemptRow.key, JobRow.attemptKey, AttemptRow.position, JobRow.position,
    Prod.mk.injEq, toLex_inj]

/-- A job without a lease has no open attempt. -/
theorem JobRow.Attempts.of_closed (hstat : job'.status ≠ .leased)
    (hreached : ∀ row ∈ attempts, row.jobId = job'.id → row.position ≤ job'.position)
    (hclosed : ∀ row ∈ attempts, row.jobId = job'.id → row.finishedAt ≠ none)
    (hstarted : ∀ row ∈ log, row.event = .stageChanged .running → row.position ≤ job'.position) :
    job'.Attempts attempts log :=
  ⟨hreached, fun row hrow hid hopen => absurd hopen (hclosed row hrow hid),
    fun hleased => absurd hleased hstat,
    fun row hrow hrunning => ⟨hstarted row hrow hrunning, fun hleased => absurd hleased hstat⟩⟩

section

variable (h : job.Attempts attempts log)
include h

/-- Closing the current attempt leaves no open one. -/
theorem JobRow.Attempts.close (hkey : ∀ row, (f row).key = row.key)
    (hclosed : ∀ row, (f row).finishedAt ≠ none) :
    (∀ row ∈ attempts.modify job.attemptKey f hkey, row.jobId = job.id →
        row.position ≤ job.position) ∧
      ∀ row ∈ attempts.modify job.attemptKey f hkey, row.jobId = job.id →
        row.finishedAt ≠ none := by
  constructor
  · intro row hrow hid
    rcases mem_modify.mp hrow with ⟨hold, _⟩ | ⟨before, _, hcur, rfl⟩
    · exact h.reached row hold hid
    · exact (AttemptRow.key_eq_iff.mp ((hkey before).trans hcur)).2.le
  · intro row hrow hid hopen
    rcases mem_modify.mp hrow with ⟨hold, hne⟩ | ⟨before, _, _, rfl⟩
    · exact hne (h.unfinished row hold hid hopen).2
    · exact hclosed before hopen

theorem JobRow.Attempts.started_append (added : List JobEventRow)
    (hadded : ∀ row ∈ added, row.event ≠ .stageChanged .running) :
    ∀ row ∈ log ++ added, row.event = .stageChanged .running → row.position ≤ job.position := by
  intro row hrow hrunning
  rcases mem_append.mp hrow with hrow | hrow
  · exact (h.started row hrow hrunning).1
  · exact absurd hrunning (hadded row hrow)

/-- A settlement closes the attempt of the lease. -/
theorem JobRow.Attempts.settle {hkey : ∀ row, (f row).key = row.key}
    (hclosed : ∀ row, (f row).finishedAt ≠ none)
    (hadded : ∀ row ∈ added, row.event ≠ .stageChanged .running) (hid : job'.id = job.id)
    (hstat : job'.status ≠ .leased) (hpos : job.position ≤ job'.position) :
    job'.Attempts (attempts.modify job.attemptKey f hkey) (log ++ added) := by
  obtain ⟨hreached, hopen⟩ := h.close hkey hclosed
  refine .of_closed hstat ?_ ?_ ?_
  · intro row hrow hrowId
    exact (hreached row hrow (hrowId.trans hid)).trans hpos
  · intro row hrow hrowId
    exact hopen row hrow (hrowId.trans hid)
  · intro row hrow hrunning
    exact (h.started_append added hadded row hrow hrunning).trans hpos

/-- A change that keeps status and attempt, and does not start the execution. -/
theorem JobRow.Attempts.of_eq (hadded : ∀ row ∈ added, row.event ≠ .stageChanged .running)
    (hid : job'.id = job.id) (hstat : job'.status = job.status)
    (hrun : job'.runNumber = job.runNumber) (hatt : job'.attempt = job.attempt) :
    job'.Attempts attempts (log ++ added) := by
  have hpos : job'.position = job.position := by
    rw [JobRow.position, JobRow.position, hrun, hatt]
  have hkey : job'.attemptKey = job.attemptKey := by
    rw [JobRow.attemptKey, JobRow.attemptKey, hid, hrun, hatt]
  refine ⟨hid ▸ hpos ▸ h.reached, hid ▸ hstat ▸ hkey ▸ h.unfinished, hstat ▸ hkey ▸ h.current, ?_⟩
  intro row hrow hrunning
  rw [hpos, hstat, hkey]
  rcases mem_append.mp hrow with hrow | hrow
  · exact h.started row hrow hrunning
  · exact absurd hrunning (hadded row hrow)

/-- The claim of a pending job opens a new attempt. -/
theorem JobRow.Attempts.lease (hpend : job.status = .pending)
    (hok : (JobChange.lease workerId claimOrigin expiresAt).attempts now job attempts =
      .ok attempts') :
    ((JobChange.lease workerId claimOrigin expiresAt).apply now job).Attempts attempts'
      (log ++ (JobChange.lease workerId claimOrigin expiresAt).events job) := by
  have hmem := mem_insert? (require_eq_ok.mp hok)
  have hlater : job.position < ((JobChange.lease workerId claimOrigin expiresAt).apply now
      job).position := by
    rw [JobRow.position, JobRow.position, Prod.Lex.toLex_lt_toLex]
    exact .inr ⟨rfl, Int.lt_succ job.attempt⟩
  refine ⟨?_, ?_, fun _ => ⟨_, (hmem _).mpr (.inr rfl), rfl, rfl⟩, ?_⟩
  · intro row hrow hid
    rcases (hmem row).mp hrow with hold | rfl
    · exact (h.reached row hold hid).trans hlater.le
    · exact le_refl _
  · intro row hrow hid hopen
    rcases (hmem row).mp hrow with hold | rfl
    · have := (h.unfinished row hold hid hopen).1
      rw [hpend] at this
      cases this
    · exact ⟨rfl, rfl⟩
  · intro row hrow hrunning
    have hbefore := h.started_append
      ((JobChange.lease workerId claimOrigin expiresAt).events job)
      (by simp) row hrow hrunning
    exact ⟨hbefore.trans hlater.le, fun _ heq => absurd heq (hbefore.trans_lt hlater).ne⟩

/-- Progress may record that the execution has started. -/
theorem JobRow.Attempts.progress {mutation : ProgressMutation}
    (hok : (JobChange.progress mutation).attempts now job attempts = .ok attempts') :
    ((JobChange.progress mutation).apply now job).Attempts attempts'
      (log ++ (JobChange.progress mutation).events job) := by
  obtain rfl := (Except.ok.inj hok).symm
  by_cases hstage : mutation.stage = some .running
  · rw [if_pos hstage]
    refine ⟨?_, ?_, ?_, ?_⟩
    · intro row hrow hid
      rcases mem_modify.mp hrow with ⟨hold, _⟩ | ⟨before, hbefore, _, rfl⟩
      · exact h.reached row hold hid
      · exact h.reached before hbefore hid
    · intro row hrow hid hopen
      rcases mem_modify.mp hrow with ⟨hold, _⟩ | ⟨before, hbefore, _, rfl⟩
      · exact h.unfinished row hold hid hopen
      · exact h.unfinished before hbefore hid hopen
    · intro hleased
      obtain ⟨row, hrow, hkey, hopen⟩ := h.current hleased
      exact ⟨row.markStarted now, mem_modify.mpr (.inr ⟨row, hrow, hkey, rfl⟩), hkey, hopen⟩
    · intro row hrow hrunning
      constructor
      · rcases mem_append.mp hrow with hrow | hrow
        · exact (h.started row hrow hrunning).1
        · rcases mem_progress_events hrow with ⟨_, _, rfl⟩ | rfl <;> exact le_refl _
      · intro _ _ attempt hatt hkey
        rcases mem_modify.mp hatt with ⟨_, hne⟩ | ⟨before, _, _, rfl⟩
        · exact absurd hkey hne
        · rfl
  · rw [if_neg hstage]
    refine h.of_eq ?_ rfl rfl rfl rfl
    intro row hrow hrunning
    rcases mem_progress_events hrow with ⟨stage, hsome, rfl⟩ | rfl
    · cases hrunning
      exact hstage hsome
    · cases hrunning

/-- A claim that was not started is forgotten together with its attempt. -/
theorem JobRow.Attempts.releaseUnstarted {reason : String} {nextRunAt : ℕ}
    (hleased : job.status = .leased)
    (hunstarted : ∀ row ∈ attempts, row.key = job.attemptKey → row.isUnstarted = true)
    (hok : (JobChange.releaseUnstarted reason nextRunAt).attempts now job attempts =
      .ok attempts') :
    ((JobChange.releaseUnstarted reason nextRunAt).apply now job).Attempts attempts'
      (log ++ (JobChange.releaseUnstarted reason nextRunAt).events job) := by
  obtain rfl := (Except.ok.inj hok).symm
  have hback : ∀ pos : ℤ ×ₗ ℤ, pos < job.position → pos ≤
      ((JobChange.releaseUnstarted reason nextRunAt).apply now job).position := by
    intro pos hlt
    obtain ⟨run, attempt⟩ := pos
    rw [JobRow.position] at hlt ⊢
    rcases Prod.Lex.toLex_lt_toLex.mp hlt with hrun | ⟨hrun, hatt⟩
    · exact Prod.Lex.toLex_le_toLex.mpr (.inl hrun)
    · exact Prod.Lex.toLex_le_toLex.mpr (.inr ⟨hrun, Int.le_sub_one_of_lt hatt⟩)
  have hkept : ∀ row ∈ attempts, row.key ≠ job.attemptKey → row.jobId = job.id →
      row.position < job.position := by
    intro row hrow hne hid
    refine lt_of_le_of_ne (h.reached row hrow hid) fun heq => ?_
    exact hne (AttemptRow.key_eq_iff.mpr ⟨hid, heq⟩)
  have hrem : ∀ row ∈ attempts.delete
      (fun row => decide (row.key = job.attemptKey) && row.isUnstarted),
      row ∈ attempts ∧ row.key ≠ job.attemptKey := by
    intro row hrow
    obtain ⟨hold, hcond⟩ := mem_delete.mp hrow
    refine ⟨hold, fun hkey => ?_⟩
    simp [hkey, hunstarted row hold hkey] at hcond
  refine .of_closed (by simp) ?_ ?_ ?_
  · intro row hrow hid
    obtain ⟨hold, hne⟩ := hrem row hrow
    exact hback _ (hkept row hold hne hid)
  · intro row hrow hid hopen
    obtain ⟨hold, hne⟩ := hrem row hrow
    exact hne (h.unfinished row hold hid hopen).2
  · intro row hrow hrunning
    rcases mem_append.mp hrow with hrow | hrow
    · obtain ⟨hle, hstarted⟩ := h.started row hrow hrunning
      refine hback _ (lt_of_le_of_ne hle fun heq => ?_)
      obtain ⟨current, hcur, hkey, _⟩ := h.current hleased
      have hsome := hstarted hleased heq current hcur hkey
      have hnone := hunstarted current hcur hkey
      simp only [AttemptRow.isUnstarted, Bool.and_eq_true, Option.isNone_iff_eq_none] at hnone
      simp [hnone.2] at hsome
    · rw [mem_singleton.mp hrow] at hrunning
      cases hrunning

end

/-- Every change that is allowed keeps the attempts in agreement with the row. -/
theorem JobRow.Attempts.afterChange (h : job.Attempts queue.attempts log)
    (hallowed : change.Allowed queue now job)
    (hok : change.attempts now job queue.attempts = .ok attempts') :
    (change.apply now job).Attempts attempts' (log ++ change.events job) := by
  have hnext : ∀ update, job.position ≤ (job.advance now update).position := by
    intro update
    rw [JobRow.position, JobRow.position, Prod.Lex.toLex_le_toLex]
    exact .inl (Int.lt_succ job.runNumber)
  cases change with
  | lease workerId claimOrigin expiresAt => exact h.lease hallowed hok
  | heartbeat workerId expiresAt | deferLease expiresAt =>
    obtain rfl := Except.ok.inj hok
    exact h.of_eq (by simp) rfl rfl rfl rfl
  | progress mutation => exact h.progress hok
  | succeed update | retry failure nextRunAt | deadLetter failure =>
    obtain rfl := Except.ok.inj hok
    exact h.settle (by simp) (by simp) rfl (by simp) (le_refl _)
  | continuation update =>
    obtain rfl := Except.ok.inj hok
    exact h.settle (by simp) (by simp) rfl (by simp [JobRow.advance]) (hnext update)
  | requeue reason update =>
    obtain rfl := Except.ok.inj hok
    have hunleased : job.status ≠ .leased := by
      rcases hallowed.1 with hstat | hstat <;> simp [hstat]
    refine .of_closed (by simp [JobRow.advance]) ?_ ?_ ?_
    · exact fun row hrow hid => (h.reached row hrow hid).trans (hnext update)
    · exact fun row hrow hid hopen => hunleased (h.unfinished row hrow hid hopen).1
    · exact fun row hrow hrunning => (h.started_append
        ((JobChange.requeue reason update).events job) (by simp)
        row hrow hrunning).trans (hnext update)
  | releaseUnstarted reason nextRunAt =>
    refine h.releaseUnstarted hallowed.1 ?_ hok
    intro row hrow hkey
    have hunstarted := hallowed.2
    rw [QueueTables.isUnstarted, ← hkey, get?_of_mem hrow] at hunstarted
    exact hunstarted
  | cancel reason =>
    obtain rfl := Except.ok.inj hok
    exact h.settle (by simp [AttemptRow.closeCanceled]) (by simp) rfl
      (by simp) (le_refl _)

/-- A change touches the attempts of its own job only. -/
theorem JobChange.mem_attempts_of_ne (hok : change.attempts now job attempts = .ok attempts')
    (hne : row.jobId ≠ job.id) : row ∈ attempts' ↔ row ∈ attempts := by
  have hkey : ∀ row : AttemptRow, row.jobId ≠ job.id → row.key ≠ job.attemptKey :=
    fun row hne heq => hne (AttemptRow.key_eq_iff.mp heq).1
  have hmodify : ∀ (f : AttemptRow → AttemptRow) (hf : ∀ row, (f row).key = row.key),
      row ∈ attempts.modify job.attemptKey f hf ↔ row ∈ attempts := by
    intro f hf
    rw [mem_modify]
    constructor
    · rintro (⟨hold, _⟩ | ⟨before, _, hcur, rfl⟩)
      · exact hold
      · exact absurd ((hf before).trans hcur) (hkey _ hne)
    · exact fun hold => .inl ⟨hold, hkey row hne⟩
  cases change with
  | lease workerId claimOrigin expiresAt =>
    rw [mem_insert? (require_eq_ok.mp hok), or_iff_left]
    rintro rfl
    exact hne rfl
  | progress mutation =>
    obtain rfl := Except.ok.inj hok
    split_ifs
    · exact hmodify _ _
    · exact Iff.rfl
  | releaseUnstarted reason nextRunAt =>
    obtain rfl := Except.ok.inj hok
    rw [mem_delete]
    simp [hkey row hne]
  | heartbeat _ _ | deferLease _ | requeue _ _ =>
    obtain rfl := Except.ok.inj hok
    exact Iff.rfl
  | succeed _ | retry _ _ | deadLetter _ | continuation _ | cancel _ =>
    obtain rfl := Except.ok.inj hok
    exact hmodify _ _

/-- The attempts of a job after a change of another one. -/
theorem JobRow.Attempts.congr (h : job.Attempts attempts log)
    (hsame : ∀ row : AttemptRow, row.jobId = job.id → (row ∈ attempts' ↔ row ∈ attempts)) :
    job.Attempts attempts' log := by
  refine ⟨?_, ?_, ?_, ?_⟩
  · exact fun row hrow hid => h.reached row ((hsame row hid).mp hrow) hid
  · exact fun row hrow hid => h.unfinished row ((hsame row hid).mp hrow) hid
  · intro hleased
    obtain ⟨row, hrow, hkey, hopen⟩ := h.current hleased
    exact ⟨row, (hsame row (AttemptRow.key_eq_iff.mp hkey).1).mpr hrow, hkey, hopen⟩
  · intro row hrow hrunning
    refine ⟨(h.started row hrow hrunning).1, fun hleased heq attempt hatt hkey => ?_⟩
    exact (h.started row hrow hrunning).2 hleased heq attempt
      ((hsame attempt (AttemptRow.key_eq_iff.mp hkey).1).mp hatt) hkey

end Attempts

section Resources

variable {claims claims' : Table ResourceClaimRow.resourceKey} {claim : ResourceClaimRow}
variable {old new job : JobRow} {change : JobChange}

theorem ResourceClaimRow.belongsTo_iff :
    claim.belongsTo job = true ↔ claim.jobId = job.id ∧ claim.runNumber = job.runNumber ∧
      claim.attempt = job.attempt ∧ some claim.workerId = job.workerId := by
  simp only [ResourceClaimRow.belongsTo, Bool.and_eq_true, decide_eq_true_eq, and_assoc]

/-- The trigger touches the claim of its own job only. -/
theorem mem_releaseClaim_of_ne (hid : new.id = old.id) (hne : claim.jobId ≠ old.id)
    (hmem : claim ∈ claims) : claim ∈ releaseJobExecutionResourceClaim now old new claims := by
  have hold : claim.belongsTo old = false := by
    rw [Bool.eq_false_iff, Ne, ResourceClaimRow.belongsTo_iff]
    exact fun h => hne h.1
  have hnew : claim.belongsTo new = false := by
    rw [Bool.eq_false_iff, Ne, ResourceClaimRow.belongsTo_iff]
    exact fun h => hne (h.1.trans hid)
  unfold releaseJobExecutionResourceClaim
  split_ifs
  · exact mem_update_of_neg hmem hold
  · exact mem_delete.mpr ⟨hmem, hold⟩
  · exact mem_update_of_neg hmem hnew
  · exact hmem
  · exact hmem

/-- The claim of a lease that goes on. -/
theorem exists_releaseClaim_leased (now : ℕ) (hmem : claim ∈ claims)
    (hbelongs : claim.belongsTo old = true) (hstat : new.status = .leased) (hid : new.id = old.id)
    (hrun : new.runNumber = old.runNumber) (hatt : new.attempt = old.attempt)
    (hworker : new.workerId = old.workerId) :
    ∃ claim' ∈ releaseJobExecutionResourceClaim now old new claims,
      claim'.resourceKey = claim.resourceKey ∧ claim'.belongsTo new = true ∧
        claim'.releaseAfter = claim.releaseAfter := by
  have hnew : claim.belongsTo new = true := by
    rw [ResourceClaimRow.belongsTo_iff] at hbelongs ⊢
    rw [hid, hrun, hatt, hworker]
    exact hbelongs
  have hsame : ¬ (new.status ≠ .leased ∨ new.runNumber ≠ old.runNumber ∨
      new.attempt ≠ old.attempt ∨ new.workerId ≠ old.workerId) := by
    simp [hstat, hrun, hatt, hworker]
  unfold releaseJobExecutionResourceClaim
  rw [if_neg hsame]
  split_ifs
  · exact ⟨claim.extendTo new.leaseExpiresAt, mem_update_of_pos hmem hnew, rfl, hnew, rfl⟩
  · exact ⟨claim, hmem, rfl, hnew, rfl⟩
  · exact ⟨claim, hmem, rfl, hnew, rfl⟩

/-- The claim of a live lease that is canceled. -/
theorem exists_releaseClaim_canceled {expiry : ℕ} (hmem : claim ∈ claims)
    (hbelongs : claim.belongsTo old = true) (hleased : old.status = .leased)
    (hkeyed : old.executionResourceKey.isSome) (hcanc : new.status = .canceled)
    (hexp : old.leaseExpiresAt = some expiry) (hlive : now < expiry) :
    claim.releaseAt (some expiry) ∈ releaseJobExecutionResourceClaim now old new claims := by
  unfold releaseJobExecutionResourceClaim
  rw [if_pos ⟨hleased, hkeyed⟩, if_pos (.inl (by simp [hcanc])),
    if_pos ⟨hcanc, by simp [hexp, hlive]⟩, hexp]
  exact mem_update_of_pos hmem hbelongs

end Resources

/-- The tables of the queue agree with each other. -/
structure QueueInvariant (now : ℕ) (queue : QueueTables) : Prop where
  ledger : ∀ job ∈ queue.jobs, job.Ledger (queue.eventsOf job.id)
  attempts : ∀ job ∈ queue.jobs, job.Attempts queue.attempts (queue.eventsOf job.id)
  eventJob : ∀ row ∈ queue.events, ∃ job ∈ queue.jobs, job.id = row.jobId
  attemptJob : ∀ row ∈ queue.attempts, ∃ job ∈ queue.jobs, job.id = row.jobId
  ranged : ∀ job ∈ queue.jobs, job.runNumber ≤ i32Max ∧ job.attempt ≤ i32Max
  unleased : ∀ job ∈ queue.jobs, job.status = .pending → job.leaseExpiresAt = none
  leased : ∀ job ∈ queue.jobs, job.status = .leased →
    ∀ key, job.executionResourceKey = some key → ∃ claim ∈ queue.resourceClaims,
      claim.resourceKey = key ∧ claim.belongsTo job = true ∧ claim.releaseAfter = none
  canceled : ∀ job ∈ queue.jobs, ∀ expiry, job.status = .canceled →
    job.leaseExpiresAt = some expiry → now < expiry →
    ∀ key, job.executionResourceKey = some key → ∃ claim ∈ queue.resourceClaims,
      claim.resourceKey = key ∧ claim.jobId = job.id ∧ claim.releaseAfter = some expiry

variable {queue queue' : QueueTables} {now' : ℕ} {strict : Prop}
variable {job : JobRow} {change : JobChange}

theorem QueueInvariant.initial (now : ℕ) : QueueInvariant now Database.initial.queue := by
  constructor <;> intro row hrow <;> cases hrow

theorem QueueInvariant.later (h : QueueInvariant now queue) (hle : now ≤ now') :
    QueueInvariant now' queue :=
  { h with canceled := fun job hjob expiry hcanc hexp hlive =>
      h.canceled job hjob expiry hcanc hexp (hle.trans_lt hlive) }

theorem QueueInvariant.insert (h : QueueInvariant now queue) (hstep : queue.InsertStep queue') :
    QueueInvariant now queue' := by
  obtain ⟨job, jobs, hnew, hins, rfl⟩ := hstep
  have hmem := mem_insert? hins
  have hfresh : ∀ other ∈ queue.jobs, other.id ≠ job.id := ne_of_insert? hins
  have hlog : queue.eventsOf job.id = [] := by
    refine filter_eq_nil_iff.mpr fun row hrow hid => ?_
    obtain ⟨other, hother, heq⟩ := h.eventJob row hrow
    exact hfresh other hother (heq.trans (of_decide_eq_true hid))
  have hnone : ∀ row ∈ queue.attempts, row.jobId ≠ job.id := by
    intro row hrow hid
    obtain ⟨other, hother, heq⟩ := h.attemptJob row hrow
    exact hfresh other hother (heq.trans hid)
  have hevents : ∀ id, (queue.events ++
        [(⟨job.id, job.runNumber, none, .enqueued⟩ : JobEventRow)]).filter
      (fun row => decide (row.jobId = id)) = if id = job.id
        then [⟨job.id, job.runNumber, none, .enqueued⟩] else queue.eventsOf id := by
    intro id
    rw [filter_append]
    split_ifs with hid
    · subst hid
      change queue.eventsOf job.id ++ _ = _
      simp [hlog]
    · simp [Ne.symm hid, QueueTables.eventsOf]
  refine ⟨?_, ?_, ?_, ?_, ?_, ?_, ?_, ?_⟩
  · intro other hother
    rw [QueueTables.eventsOf, hevents]
    rcases (hmem other).mp hother with hold | rfl
    · rw [if_neg (hfresh other hold)]
      exact h.ledger other hold
    · rw [if_pos rfl]
      exact hnew.ledger
  · intro other hother
    rw [QueueTables.eventsOf, hevents]
    rcases (hmem other).mp hother with hold | rfl
    · rw [if_neg (hfresh other hold)]
      exact h.attempts other hold
    · rw [if_pos rfl]
      exact .of_closed (by simp [hnew.status]) (fun row hrow hid => absurd hid (hnone row hrow))
        (fun row hrow hid => absurd hid (hnone row hrow)) (by simp)
  · intro row hrow
    rcases mem_append.mp hrow with hrow | hrow
    · obtain ⟨other, hother, hid⟩ := h.eventJob row hrow
      exact ⟨other, (hmem other).mpr (.inl hother), hid⟩
    · rw [mem_singleton.mp hrow]
      exact ⟨job, (hmem job).mpr (.inr rfl), rfl⟩
  · intro row hrow
    obtain ⟨other, hother, hid⟩ := h.attemptJob row hrow
    exact ⟨other, (hmem other).mpr (.inl hother), hid⟩
  · intro other hother
    rcases (hmem other).mp hother with hold | rfl
    · exact h.ranged other hold
    · rw [hnew.runNumber, hnew.attempt]
      decide
  · intro other hother hpend
    rcases (hmem other).mp hother with hold | rfl
    · exact h.unleased other hold hpend
    · exact hnew.leaseExpiresAt
  · intro other hother hleased
    rcases (hmem other).mp hother with hold | rfl
    · exact h.leased other hold hleased
    · rw [hnew.status] at hleased
      cases hleased
  · intro other hother expiry hcanc
    rcases (hmem other).mp hother with hold | rfl
    · exact h.canceled other hold expiry hcanc
    · rw [hnew.status] at hcanc
      cases hcanc

/-- The rows of the queue after a change. -/
theorem mem_jobs_after_change (hjob : job ∈ queue.jobs)
    (hjobs : queue'.jobs = queue.jobs.modify job.id (change.apply now) (change.apply_id now))
    {row : JobRow} :
    row ∈ queue'.jobs ↔ (row ∈ queue.jobs ∧ row.id ≠ job.id) ∨ row = change.apply now job := by
  rw [hjobs, mem_modify]
  refine or_congr_right ⟨?_, ?_⟩
  · rintro ⟨before, hbefore, hid, rfl⟩
    rw [eq_of_key_eq hbefore hjob hid]
  · rintro rfl
    exact ⟨job, hjob, rfl, rfl⟩

/-- A change keeps the invariant if the claims keep up with the row. -/
theorem QueueInvariant.afterChange (h : QueueInvariant now queue)
    (claims : Table ResourceClaimRow.resourceKey) (hjob : job ∈ queue.jobs)
    (hallowed : change.Allowed queue now job)
    (hok : { queue with resourceClaims := claims }.change now context job change = .ok queue')
    (hclaims : ∀ claim ∈ queue.resourceClaims, claim ∈ claims)
    (hunleased : (change.apply now job).status = .pending →
      (change.apply now job).leaseExpiresAt = none)
    (hleased : (change.apply now job).status = .leased →
      ∀ key, job.executionResourceKey = some key → ∃ claim ∈ queue'.resourceClaims,
        claim.resourceKey = key ∧ claim.belongsTo (change.apply now job) = true ∧
          claim.releaseAfter = none)
    (hcanc : ∀ expiry, (change.apply now job).status = .canceled →
      (change.apply now job).leaseExpiresAt = some expiry → now < expiry →
      ∀ key, job.executionResourceKey = some key → ∃ claim ∈ queue'.resourceClaims,
        claim.resourceKey = key ∧ claim.jobId = job.id ∧ claim.releaseAfter = some expiry) :
    QueueInvariant now queue' := by
  obtain ⟨hjobs, hatts, hresources, hevents⟩ := QueueTables.change_eq_ok hok
  have hmem : ∀ {row : JobRow}, row ∈ queue'.jobs ↔
      (row ∈ queue.jobs ∧ row.id ≠ job.id) ∨ row = change.apply now job :=
    mem_jobs_after_change hjob hjobs
  have hlog : ∀ id, queue'.eventsOf id =
      if id = job.id then queue.eventsOf id ++ change.events job else queue.eventsOf id := by
    intro id
    exact eventsOf_append_events hevents id
  have hsame : ∀ row ∈ queue.jobs, ∃ row' ∈ queue'.jobs, row'.id = row.id := by
    intro row hrow
    by_cases hid : row.id = job.id
    · exact ⟨_, hmem.mpr (.inr rfl), (change.apply_id now job).trans hid.symm⟩
    · exact ⟨row, hmem.mpr (.inl ⟨hrow, hid⟩), rfl⟩
  have hother : ∀ claim ∈ queue.resourceClaims, claim.jobId ≠ job.id →
      claim ∈ queue'.resourceClaims := by
    intro claim hclaim hne
    rw [hresources]
    exact mem_releaseClaim_of_ne (change.apply_id now job) hne (hclaims claim hclaim)
  refine ⟨?_, ?_, ?_, ?_, ?_, ?_, ?_, ?_⟩
  · intro row hrow
    rw [hlog]
    rcases hmem.mp hrow with ⟨hold, hne⟩ | rfl
    · rw [if_neg hne]
      exact h.ledger row hold
    · rw [if_pos (change.apply_id now job), change.apply_id now job]
      exact (h.ledger job hjob).afterChange change hallowed
  · intro row hrow
    rw [hlog]
    rcases hmem.mp hrow with ⟨hold, hne⟩ | rfl
    · rw [if_neg hne]
      refine (h.attempts row hold).congr fun attempt hid => ?_
      exact JobChange.mem_attempts_of_ne hatts (hid.trans_ne hne)
    · rw [if_pos (change.apply_id now job), change.apply_id now job]
      exact (h.attempts job hjob).afterChange hallowed hatts
  · intro row hrow
    rw [hevents] at hrow
    rcases mem_append.mp hrow with hrow | hrow
    · obtain ⟨owner, howner, hid⟩ := h.eventJob row hrow
      obtain ⟨owner', howner', hid'⟩ := hsame owner howner
      exact ⟨owner', howner', hid'.trans hid⟩
    · exact ⟨_, hmem.mpr (.inr rfl), (change.apply_id now job).trans
        (JobChange.events_jobId hrow).symm⟩
  · intro row hrow
    by_cases hid : row.jobId = job.id
    · exact ⟨_, hmem.mpr (.inr rfl), (change.apply_id now job).trans hid.symm⟩
    · obtain ⟨owner, howner, hownerId⟩ := h.attemptJob row
        ((JobChange.mem_attempts_of_ne hatts hid).mp hrow)
      obtain ⟨owner', howner', hid'⟩ := hsame owner howner
      exact ⟨owner', howner', hid'.trans hownerId⟩
  · intro row hrow
    rcases hmem.mp hrow with ⟨hold, _⟩ | rfl
    · exact h.ranged row hold
    · exact QueueTables.ranged_of_change hok
  · intro row hrow
    rcases hmem.mp hrow with ⟨hold, _⟩ | rfl
    · exact h.unleased row hold
    · exact hunleased
  · intro row hrow hstat key hkey
    rcases hmem.mp hrow with ⟨hold, hne⟩ | rfl
    · obtain ⟨claim, hclaim, hres, hbelongs, hrelease⟩ := h.leased row hold hstat key hkey
      exact ⟨claim, hother claim hclaim
        ((ResourceClaimRow.belongsTo_iff.mp hbelongs).1.trans_ne hne), hres, hbelongs,
        hrelease⟩
    · exact hleased hstat key ((change.apply_executionResourceKey now job).symm.trans hkey)
  · intro row hrow expiry hstat hexp hlive key hkey
    rcases hmem.mp hrow with ⟨hold, hne⟩ | rfl
    · obtain ⟨claim, hclaim, hres, hid, hrelease⟩ :=
        h.canceled row hold expiry hstat hexp hlive key hkey
      exact ⟨claim, hother claim hclaim (hid.trans_ne hne), hres, hid, hrelease⟩
    · rw [change.apply_id now job]
      exact hcanc expiry hstat hexp hlive key
        ((change.apply_executionResourceKey now job).symm.trans hkey)

/-- A change other than a claim leaves a lease only where there was one. -/
theorem JobChange.apply_leased (hlease : change.isLease = false)
    (hstat : (change.apply now job).status = .leased) :
    job.status = .leased ∧ (change.apply now job).runNumber = job.runNumber ∧
      (change.apply now job).attempt = job.attempt ∧
      (change.apply now job).workerId = job.workerId := by
  cases change with
  | lease _ _ _ => cases hlease
  | heartbeat _ _ | deferLease _ | progress _ => exact ⟨hstat, rfl, rfl, rfl⟩
  | succeed _ | retry _ _ | deadLetter _ | continuation _ | requeue _ _ | releaseUnstarted _ _
  | cancel _ => cases hstat

/-- A job that a change puts back into the queue has no lease. -/
theorem JobChange.apply_pending (hallowed : change.Allowed queue now job)
    (hstat : (change.apply now job).status = .pending) :
    (change.apply now job).leaseExpiresAt = none := by
  cases change with
  | lease _ _ _ | succeed _ | deadLetter _ | cancel _ => cases hstat
  | heartbeat _ _ => exact absurd (hallowed.1.symm.trans hstat) nofun
  | deferLease _ | progress _ => exact absurd (Eq.trans (Eq.symm hallowed) hstat) nofun
  | retry _ _ | continuation _ | requeue _ _ | releaseUnstarted _ _ => rfl

/-- Only a cancellation leaves a job canceled. -/
theorem JobChange.apply_canceled (hallowed : change.Allowed queue now job)
    (hstat : (change.apply now job).status = .canceled) :
    (job.status = .pending ∨ job.status = .leased) ∧
      (change.apply now job).leaseExpiresAt = job.leaseExpiresAt := by
  cases change with
  | cancel _ => exact ⟨hallowed, rfl⟩
  | heartbeat _ _ => exact absurd (hallowed.1.symm.trans hstat) nofun
  | deferLease _ | progress _ => exact absurd (Eq.trans (Eq.symm hallowed) hstat) nofun
  | lease _ _ _ | succeed _ | retry _ _ | deadLetter _ | continuation _ | requeue _ _
  | releaseUnstarted _ _ => cases hstat

section

variable (h : QueueInvariant now queue)
include h

/-- A change other than a claim keeps the invariant. -/
theorem QueueInvariant.changeJob (hjob : job ∈ queue.jobs) (hlease : change.isLease = false)
    (hallowed : change.Allowed queue now job)
    (hok : queue.change now context job change = .ok queue') : QueueInvariant now queue' := by
  have hresources := (QueueTables.change_eq_ok hok).2.2.1
  refine h.afterChange queue.resourceClaims hjob hallowed hok (fun _ hclaim => hclaim)
    (JobChange.apply_pending hallowed) ?_ ?_
  · intro hstat key hkey
    obtain ⟨hleased, hrun, hatt, hworker⟩ := JobChange.apply_leased hlease hstat
    obtain ⟨claim, hclaim, hres, hbelongs, hrelease⟩ := h.leased job hjob hleased key hkey
    obtain ⟨claim', hclaim', hres', hbelongs', hrelease'⟩ := exists_releaseClaim_leased
      now hclaim hbelongs hstat (change.apply_id now job) hrun hatt hworker
    exact ⟨claim', hresources ▸ hclaim', hres'.trans hres, hbelongs', hrelease'.trans hrelease⟩
  · intro expiry hstat hexp hlive key hkey
    obtain ⟨hbefore, hsame⟩ := JobChange.apply_canceled hallowed hstat
    rw [hsame] at hexp
    rcases hbefore with hpend | hleased
    · rw [h.unleased job hjob hpend] at hexp
      cases hexp
    · obtain ⟨claim, hclaim, hres, hbelongs, _⟩ := h.leased job hjob hleased key hkey
      refine ⟨claim.releaseAt (some expiry), hresources ▸ ?_, hres,
        (ResourceClaimRow.belongsTo_iff.mp hbelongs).1, rfl⟩
      exact exists_releaseClaim_canceled hclaim hbelongs hleased (by simp [hkey]) hstat hexp
        hlive

/-- A claim keeps the invariant. -/
theorem QueueInvariant.claim {claims' : Table ResourceClaimRow.resourceKey}
    (hjob : job ∈ queue.jobs) (hpend : job.status = .pending)
    (hacquired : Acquired queue.resourceClaims claims' job workerId)
    (hok : { queue with resourceClaims :=
      claims' }.change now context job (.lease workerId claimOrigin expiresAt) = .ok queue') :
    QueueInvariant now queue' := by
  have hresources : queue'.resourceClaims = claims' := by
    rw [(QueueTables.change_eq_ok hok).2.2.1, releaseJobExecutionResourceClaim, if_neg]
    simp [hpend]
  have hallowed : (JobChange.lease workerId claimOrigin expiresAt).Allowed queue now job := hpend
  refine h.afterChange claims' hjob hallowed hok ?_ nofun ?_ nofun
  · intro claim hclaim
    unfold Acquired at hacquired
    split at hacquired
    · rwa [hacquired]
    · obtain ⟨_, hins, _⟩ := hacquired
      exact (mem_insert? hins claim).mpr (.inl hclaim)
  · intro _ key hkey
    rw [Acquired, hkey] at hacquired
    obtain ⟨claim, hins, hres, hid, hrun, hatt, hworker, hrelease⟩ := hacquired
    refine ⟨claim, hresources ▸ (mem_insert? hins claim).mpr (.inr rfl), hres,
      ResourceClaimRow.belongsTo_iff.mpr ⟨hid, hrun, hatt, ?_⟩, hrelease⟩
    rw [hworker]
    rfl

/-- Sweeping claims that protect nothing keeps the invariant. -/
theorem QueueInvariant.sweep {expired : ResourceClaimRow → Bool}
    (hexpired : ∀ claim ∈ queue.resourceClaims, expired claim = true → claim.Expired queue now) :
    QueueInvariant now
      { queue with resourceClaims := queue.resourceClaims.delete expired } := by
  refine { h with leased := ?_, canceled := ?_ }
  · intro job hjob hstat key hkey
    obtain ⟨claim, hclaim, hres, hbelongs, hrelease⟩ := h.leased job hjob hstat key hkey
    refine ⟨claim, mem_delete.mpr ⟨hclaim, ?_⟩, hres, hbelongs, hrelease⟩
    rw [Bool.eq_false_iff]
    exact fun hdelete => (hexpired claim hclaim hdelete).2 hrelease job hjob hbelongs hstat
  · intro job hjob expiry hstat hexp hlive key hkey
    obtain ⟨claim, hclaim, hres, hid, hrelease⟩ :=
      h.canceled job hjob expiry hstat hexp hlive key hkey
    refine ⟨claim, mem_delete.mpr ⟨hclaim, ?_⟩, hres, hid, hrelease⟩
    rw [Bool.eq_false_iff]
    exact fun hdelete => absurd ((hexpired claim hclaim hdelete).1 expiry hrelease)
      (Nat.not_le.mpr hlive)

/-- Every step keeps the invariant. -/
theorem QueueInvariant.step (hstep : QueueStep strict now queue queue') :
    QueueInvariant now queue' := by
  cases hstep with
  | insert hins => exact h.insert hins
  | change context job change hjob hlease hallowed hok => exact h.changeJob hjob hlease hallowed hok
  | claim context job workerId claimOrigin expiresAt hjob hpend _ hacquired hok =>
    exact h.claim hjob hpend hacquired hok
  | sweep expired hexpired => exact h.sweep hexpired

/-- Every transaction keeps the invariant. -/
theorem QueueInvariant.steps (hsteps : QueueSteps strict now queue queue') :
    QueueInvariant now queue' := by
  induction hsteps with
  | refl => exact h
  | tail _ hstep ih => exact ih.step hstep

end

end Batter.Runledger.Postgres
