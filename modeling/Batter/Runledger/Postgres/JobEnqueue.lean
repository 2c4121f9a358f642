import Batter.Runledger.Postgres.JobFlow

/-!
# Direct enqueue of jobs

A job is enqueued under an enabled definition, which gives the settings that the
request leaves open.  A request with an idempotency key keeps its canonical form
on the row: a repeated request finds the row, and a different request under the
same key is rejected.
-/

namespace Batter.Runledger.Postgres

open RustStd

/-- `length(trim(value)) = 0`: the database trims spaces only. -/
def isOnlySpaces (value : String) : Bool :=
  value.toList.all (· = ' ')

/-- The checks of `job_definitions`. -/
def DefinitionRow.checkConstraints (row : DefinitionRow) : Except Error Unit := do
  let violates := fun name => .statement "upsert job definition" (.constraint name)
  let exceeds := fun column => .statement "upsert job definition" (.outOfRange column)
  rejectIf (!isI32 row.maxAttempts) (exceeds "max_attempts")
  rejectIf (!isI32 row.defaultTimeoutSeconds) (exceeds "default_timeout_seconds")
  rejectIf (!isI32 row.defaultPriority) (exceeds "default_priority")
  rejectIf (isOnlySpaces row.jobType) (violates "chk_job_definitions_type_not_blank")
  rejectIf (row.maxAttempts ≤ 0) (violates "chk_job_definitions_max_attempts_positive")
  rejectIf (row.defaultTimeoutSeconds ≤ 0) (violates "chk_job_definitions_timeout_positive")

/-- `INSERT … ON CONFLICT (job_type) DO UPDATE`. -/
def upsertDefinition (definitions : Table DefinitionRow.jobType) (row : DefinitionRow) :
    Table DefinitionRow.jobType :=
  (definitions.insert? row).getD (definitions.update (fun old => old.jobType = row.jobType)
    (fun old => { row with jobType := old.jobType }) fun _ => rfl)

def applyJobDefinitionUpsert (db : Database) (row : DefinitionRow) : Except Error Database := do
  row.checkConstraints
  return { db with definitions := upsertDefinition db.definitions row }

/-- A request to enqueue a job. -/
structure JobEnqueue where
  jobType : String
  organizationId : Option ℕ
  payload : Json
  priority : Option ℤ
  maxAttempts : Option ℤ
  timeoutSeconds : Option ℤ
  nextRunAt : Option ℕ
  idempotencyKey : Option String
  stage : Option JobStage
  deriving DecidableEq

/-- A number with at least the given count of digits. -/
def padded (width value : ℕ) : String :=
  let digits := value.repr
  .ofList (.replicate (width - digits.length) '0') ++ digits

/-- Year, month and day of a day of the epoch, in the proleptic Gregorian calendar. -/
def civilFromDays (days : ℕ) : ℕ × ℕ × ℕ :=
  -- Years start in March here, so that the leap day is the last day of a year.
  let shifted := days + 719468
  let era := shifted / 146097
  let dayOfEra := shifted % 146097
  let yearOfEra := (dayOfEra - dayOfEra / 1460 + dayOfEra / 36524 - dayOfEra / 146096) / 365
  let dayOfYear := dayOfEra - (365 * yearOfEra + yearOfEra / 4 - yearOfEra / 100)
  let monthIndex := (5 * dayOfYear + 2) / 153
  let day := dayOfYear - (153 * monthIndex + 2) / 5 + 1
  let month := if monthIndex < 10 then monthIndex + 3 else monthIndex - 9
  let year := yearOfEra + era * 400 + (if month ≤ 2 then 1 else 0)
  (year, month, day)

/-- `to_rfc3339_opts(SecondsFormat::Micros, true)`. -/
def rfc3339 (micros : ℕ) : String :=
  let seconds := micros / 1000000
  let (year, month, day) := civilFromDays (seconds / 86400)
  let sign := if 9999 < year then "+" else ""
  let date := sign ++ padded 4 year ++ "-" ++ padded 2 month ++ "-" ++ padded 2 day
  let time := padded 2 (seconds / 3600 % 24) ++ ":" ++ padded 2 (seconds / 60 % 60) ++ ":" ++
    padded 2 (seconds % 60) ++ "." ++ padded 6 (micros % 1000000)
  date ++ "T" ++ time ++ "Z"

example : rfc3339 1709210096000042 = "2024-02-29T12:34:56.000042Z" := by decide +kernel

def canonicalJobEnqueueRequestV1 (payload : JobEnqueue) (stage : JobStage)
    (executionResourceKey : Option String) : Json :=
  .obj ([("stage", .str stage.asDbValue),
    ("payload", payload.payload),
    ("priority", .ofOption (fun value : ℤ => .num value) payload.priority),
    ("next_run_at", .ofOption (fun micros => .str (rfc3339 micros)) payload.nextRunAt),
    ("max_attempts", .ofOption (fun value : ℤ => .num value) payload.maxAttempts),
    ("timeout_seconds", .ofOption (fun value : ℤ => .num value) payload.timeoutSeconds)] ++
  (executionResourceKey.map fun key => ("execution_resource_key", .str key)).toList)

def jobDefinitionUnavailableError : Error :=
  .query .validation "job.definition_not_found_or_disabled" "Job type is not available."
    "enqueue job: definition missing or disabled"

def invalidExecutionResourceKeyError : Error :=
  .query .validation "job.invalid_execution_resource_key"
    "Execution resource key must be non-blank and at most 512 bytes."
    "job enqueue execution_resource_key was blank or exceeded 512 bytes"

def idempotentJobConflictError (jobType field : String) : Error :=
  .query .conflict "job.idempotency_conflict"
    "Job enqueue retry conflicts with the existing idempotency key."
    s!"job enqueue idempotency conflict for job_type={jobType}: field {field} differs"

def idempotentJobMissingExistingError (jobType : String) : Error :=
  .query .internal "job.idempotency_conflict_missing_existing"
    "Job enqueue retry could not be resolved."
    s!"job enqueue insert for job_type={jobType} conflicted but matching idempotent job was not found"

def legacyJobIdempotencySnapshotMissingError (jobType : String) (jobId : ℕ) : Error :=
  .query .conflict "job.legacy_idempotency_snapshot_missing"
    "Job enqueue retry cannot be resolved because the existing idempotency key is missing its request snapshot."
    s!"job enqueue idempotency retry for job_type={jobType} matched legacy job {jobId} without enqueue_request snapshot"

section Enqueue

/-- Whether the job is new. -/
inductive JobEnqueueDisposition
  | inserted
  | existing
  deriving DecidableEq

/-- The job of a request. -/
structure JobEnqueueOutcome where
  jobId : ℕ
  status : JobStatus
  runNumber : ℤ
  disposition : JobEnqueueDisposition
  deriving DecidableEq

def validateExecutionResourceKey (executionResourceKey : String) : Except Error Unit :=
  rejectIf (isBlank executionResourceKey || 512 < executionResourceKey.utf8ByteSize)
    invalidExecutionResourceKeyError

variable (payload : JobEnqueue)

/-- The settings of a request are integers of 32 bits. -/
def JobEnqueue.checkRange : Except Error Unit := do
  let exceeds := fun column => .statement "enqueue job" (.outOfRange column)
  rejectIf (payload.priority.any (!isI32 ·)) (exceeds "priority")
  rejectIf (payload.maxAttempts.any (!isI32 ·)) (exceeds "max_attempts")
  rejectIf (payload.timeoutSeconds.any (!isI32 ·)) (exceeds "timeout_seconds")

/-- The stage of a request, `queued` when none is given. -/
def JobEnqueue.effectiveStage : JobStage :=
  payload.stage.getD .queued

/-- The canonical form of a request with a key. -/
def JobEnqueue.enqueueRequest (executionResourceKey : Option String) : Option Json :=
  payload.idempotencyKey.map fun _ =>
    canonicalJobEnqueueRequestV1 payload payload.effectiveStage executionResourceKey

/-- A new row of `job_queue`. -/
def JobRow.ofEnqueue (id now : ℕ) (payload : JobEnqueue) (defaults : DefinitionRow)
    (executionResourceKey : Option String) : JobRow where
  id := id
  jobType := payload.jobType
  organizationId := payload.organizationId
  payload := payload.payload
  status := .pending
  priority := payload.priority.getD defaults.defaultPriority
  runNumber := 1
  attempt := 0
  maxAttempts := payload.maxAttempts.getD defaults.maxAttempts
  timeoutSeconds := payload.timeoutSeconds.getD defaults.defaultTimeoutSeconds
  nextRunAt := payload.nextRunAt.getD now
  leaseExpiresAt := none
  workerId := none
  stage := payload.effectiveStage
  progressDone := none
  progressTotal := none
  checkpoint := none
  output := none
  idempotencyKey := payload.idempotencyKey
  enqueueRequest := payload.enqueueRequest executionResourceKey
  executionResourceKey := executionResourceKey
  statusReason := none
  lastErrorCode := none
  lastErrorMessage := none

/-- The row that the unique indexes over idempotency keys hold for a request. -/
def loadExistingIdempotentJob (db : Database) (payload : JobEnqueue) (idempotencyKey : String) :
    Option JobRow :=
  (db.queue.jobs.select fun job => job.jobType = payload.jobType &&
    job.organizationId = payload.organizationId &&
    job.idempotencyKey = some idempotencyKey).head?

def validateExistingIdempotentJob (existing : JobRow) (enqueueRequest : Json) : Except Error Unit :=
  match existing.enqueueRequest with
  | some stored =>
    rejectIf (stored ≠ enqueueRequest) (idempotentJobConflictError payload.jobType "request")
  | none => throw (legacyJobIdempotencySnapshotMissingError payload.jobType existing.id)

def resolveExistingIdempotentJob (db : Database) (payload : JobEnqueue) (idempotencyKey : String)
    (executionResourceKey : Option String) : Except Error JobEnqueueOutcome :=
  match loadExistingIdempotentJob db payload idempotencyKey with
  | some existing => do
    validateExistingIdempotentJob payload existing
      (canonicalJobEnqueueRequestV1 payload payload.effectiveStage executionResourceKey)
    return ⟨existing.id, existing.status, existing.runNumber, .existing⟩
  | none => do
    rejectIf (db.enabledDefinition payload.jobType).isSome
      (idempotentJobMissingExistingError payload.jobType)
    throw jobDefinitionUnavailableError

variable [UuidSource]

/-- The insert of the request: no row without an enabled definition or if the key is taken. -/
def insertEnqueuedJob (db : Database) (payload : JobEnqueue)
    (executionResourceKey : Option String) : Except Error (Option (JobRow × Database)) :=
  match db.enabledDefinition payload.jobType with
  | none => .ok none
  | some defaults => do
    let row := .ofEnqueue db.nextId db.clock payload defaults executionResourceKey
    rejectIf (row.idempotencyKey.any isOnlySpaces)
      (.statement "enqueue job" (.constraint "chk_job_queue_idempotency_key_not_blank"))
    let inserted ← db.insertJob "enqueue job" row
    if (payload.idempotencyKey.bind (loadExistingIdempotentJob db payload)).isSome then
      return none
    return some (row, inserted)

/-- `enqueue_job_with_existing_lock_tx`. -/
def enqueueJob (db : Database) (payload : JobEnqueue) (executionResourceKey : Option String) :
    Except Error (JobEnqueueOutcome × Database) := do
  payload.checkRange
  executionResourceKey.forM validateExecutionResourceKey
  match ← insertEnqueuedJob db payload executionResourceKey with
  | some (row, inserted) => return (⟨row.id, row.status, row.runNumber, .inserted⟩, inserted)
  | none =>
    let idempotencyKey ← require jobDefinitionUnavailableError payload.idempotencyKey
    let outcome ← resolveExistingIdempotentJob db payload idempotencyKey executionResourceKey
    return (outcome, db)

end Enqueue

section Keeps

variable [UuidSource] {strict : Prop} {db db' : Database} {payload : JobEnqueue}
variable {executionResourceKey : Option String} {outcome : JobEnqueueOutcome}

omit [UuidSource] in
/-- A job that is inserted passed the checks of its table. -/
theorem insertJob_ok {ctx : String} {row : JobRow} (hok : db.insertJob ctx row = .ok db') :
    0 < row.maxAttempts ∧ ∃ jobs, db.queue.jobs.insert? row = some jobs ∧
      db' = db.withNewJob jobs row := by
  simp only [Database.insertJob, bind_eq_ok, exists_unit, rejectIf_eq_ok, require_eq_ok,
    pure_eq_ok, decide_eq_false_iff_not, not_le] at hok
  obtain ⟨hatts, _, _, jobs, hins, rfl⟩ := hok
  exact ⟨hatts, jobs, hins, rfl⟩

section

variable (hok : enqueueJob db payload executionResourceKey = .ok (outcome, db'))
include hok

/-- An enqueue adds one new row or none. -/
theorem enqueueJob_eq_ok : (outcome.disposition = .existing ∧ db' = db) ∨
      ∃ defaults jobs, outcome.disposition = .inserted ∧ outcome.jobId = db.nextId ∧
        (payload.idempotencyKey.bind (loadExistingIdempotentJob db payload)) = none ∧
        (JobRow.ofEnqueue db.nextId db.clock payload defaults executionResourceKey).IsNew ∧
        db.queue.jobs.insert?
          (.ofEnqueue db.nextId db.clock payload defaults executionResourceKey) = some jobs ∧
        db' = db.withNewJob jobs
          (.ofEnqueue db.nextId db.clock payload defaults executionResourceKey) := by
  simp only [enqueueJob, bind_eq_ok, exists_unit] at hok
  obtain ⟨_, _, inserted, hinserted, hok⟩ := hok
  cases inserted with
  | none =>
    simp only [bind_eq_ok, require_eq_ok, pure_eq_ok] at hok
    obtain ⟨key, _, existing, hexist, hout⟩ := hok
    obtain ⟨rfl, rfl⟩ := Prod.mk.inj hout
    refine Or.inl ⟨?_, rfl⟩
    unfold resolveExistingIdempotentJob at hexist
    split at hexist
    · simp only [bind_eq_ok, exists_unit, pure_eq_ok] at hexist
      obtain ⟨_, rfl⟩ := hexist
      rfl
    · simp only [bind_eq_ok, throw_eq_ok, and_false, exists_false] at hexist
  | some new =>
    obtain ⟨rfl, rfl⟩ := Prod.mk.inj (Except.ok.inj hok)
    unfold insertEnqueuedJob at hinserted
    split at hinserted
    · cases hinserted
    · rename_i defaults _
      simp only [bind_eq_ok, exists_unit, rejectIf_eq_ok] at hinserted
      obtain ⟨_, database, hins, hnew⟩ := hinserted
      split at hnew
      · cases hnew
      · rename_i hnone
        obtain rfl := Option.some.inj (Except.ok.inj hnew)
        obtain ⟨hatts, jobs, hjobs, rfl⟩ := insertJob_ok hins
        exact Or.inr ⟨defaults, jobs, rfl, rfl, by simpa using hnone,
          ⟨rfl, rfl, rfl, rfl, rfl, hatts⟩, hjobs, rfl⟩

/-- An enqueue of a job keeps the database in order. -/
theorem enqueueJob_keeps (hsound : Sound db) : Keeps strict db db' := by
  rcases enqueueJob_eq_ok hok with ⟨_, rfl⟩ | ⟨defaults, jobs, _, _, _, hnew, hins, rfl⟩
  · exact .refl hsound
  · have hmem := Table.mem_insert? hins
    refine hsound.idle rfl rfl (Nat.le_succ _) ?_ ?_
      (.single (.insert ⟨_, jobs, hnew, hins, rfl⟩))
    · intro job hjob
      rcases (hmem job).mp hjob with hold | rfl
      · exact (hsound.flow.drawn.job job hold).mono (Nat.le_succ _)
      · exact ⟨db.generated, Nat.lt_succ_self _, rfl⟩
    · intro step hstep job hjob hjobId
      exact ⟨job, (hmem job).mpr (Or.inl hjob), rfl, rfl, rfl, fun _ => rfl⟩

end

/-- Job definitions are of no concern to jobs and workflows. -/
theorem applyJobDefinitionUpsert_keeps {row : DefinitionRow}
    (hok : applyJobDefinitionUpsert db row = .ok db') (hsound : Sound db) :
    Keeps strict db db' := by
  simp only [applyJobDefinitionUpsert, bind_eq_ok, exists_unit, pure_eq_ok] at hok
  obtain ⟨_, rfl⟩ := hok
  exact hsound.idle rfl rfl (le_refl _) hsound.flow.drawn.job
    (fun _ _ job hjob _ => ⟨job, hjob, rfl, rfl, rfl, fun _ => rfl⟩) .refl

end Keeps

end Batter.Runledger.Postgres
