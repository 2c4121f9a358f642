import Batter.Library.Fallible
import Batter.Library.RustStd

/-!
# Lifecycle state

One mutex guards the readiness of a process, the progress of its startup and the
flags that decide admission; an atomic snapshot publishes readiness without the
mutex.  Each definition below is one section under the mutex.  Cancellation tokens
are cancelled after the mutex is released, in the order of `Token` lists.

Instants are natural numbers of nanoseconds.  A section takes the readings of the clock it makes
as arguments, in the order in which it makes them.
-/

namespace Batter.Lifecycle

/-- Readiness of a process. -/
inductive Readiness
  | starting
  | ready
  | draining
  | stopped
  deriving DecidableEq

/-- `readiness as u8`. -/
def Readiness.asU8 : Readiness → ℕ
  | .starting => 0
  | .ready => 1
  | .draining => 2
  | .stopped => 3

/-- The readiness of a published snapshot. -/
def Readiness.fromU8 (value : ℕ) : Readiness :=
  if value = Readiness.starting.asU8 then .starting
  else if value = Readiness.ready.asU8 then .ready
  else if value = Readiness.draining.asU8 then .draining
  else .stopped

theorem Readiness.asU8_injective : Function.Injective Readiness.asU8 := by
  intro a b h
  cases a <;> cases b <;> first | rfl | simp [asU8] at h

/-- Readiness in the order in which a process goes through it. -/
instance : LinearOrder Readiness :=
  LinearOrder.lift' Readiness.asU8 Readiness.asU8_injective

theorem Readiness.le_def {a b : Readiness} : a ≤ b ↔ a.asU8 ≤ b.asU8 :=
  Iff.rfl

@[simp]
theorem Readiness.fromU8_asU8 (readiness : Readiness) :
    Readiness.fromU8 readiness.asU8 = readiness := by
  cases readiness <;> rfl

/-- `matches!(readiness, Readiness::Draining | Readiness::Stopped)`. -/
def Readiness.isClosing : Readiness → Bool
  | .starting => false
  | .ready => false
  | .draining => true
  | .stopped => true

theorem Readiness.isClosing_iff {readiness : Readiness} :
    readiness.isClosing = true ↔ .draining ≤ readiness := by
  cases readiness <;> simp [isClosing, Readiness.le_def, asU8]

/-- First-readiness evidence, retained independently of a later drain or stop. -/
inductive ReadinessProgress
  | pending (deadline : Option ℕ)
  | ready
  | stopped
  | deadlineExceeded
  deriving DecidableEq

namespace ReadinessProgress

/-- Whether no evidence has been found yet. -/
def isPending : ReadinessProgress → Bool
  | .pending _ => true
  | _ => false

def mayBecomeReady (now : ℕ) : ReadinessProgress → Bool
  | .pending deadline => deadline.all fun instant => now < instant
  | _ => false

def stop (now : ℕ) : ReadinessProgress → ReadinessProgress
  | .pending deadline =>
    if deadline.any fun instant => instant ≤ now then .deadlineExceeded else .stopped
  | progress => progress

end ReadinessProgress

/-- The state under the mutex. -/
structure AdmissionState where
  readiness : Readiness
  progress : ReadinessProgress
  supervised : Bool
  driverStarted : Bool
  readyRequested : Bool
  pendingStartups : ℕ
  finiteActive : ℕ
  forced : Bool
  failed : Bool
  supportClosed : Bool
  stopStarted : Option ℕ
  deriving DecidableEq

/-- Whether a driver owns the process. -/
inductive Supervision
  | driven
  | standalone
  deriving DecidableEq

/-- What a periodic component is for. -/
inductive PeriodicRole
  | support
  | ordinary
  deriving DecidableEq

/-- Whether the queue of finite tasks is closed. -/
inductive QueueState
  | closed
  | open
  deriving DecidableEq

/-- Why a finite task is not admitted. -/
inductive ProcessAdmissionError
  | notRunning
  | notReady
  | closed
  | full
  deriving DecidableEq

/-- One periodic invocation decision. -/
inductive PeriodicAdmission
  | admitted (forcedAt : Option ℕ)
  | stopped
  deriving DecidableEq

namespace AdmissionState

/-- The state of `Shared::new`. -/
def new (supervision : Supervision) : AdmissionState where
  readiness := .starting
  progress := .pending none
  supervised := supervision = .driven
  driverStarted := false
  readyRequested := false
  pendingStartups := 0
  finiteActive := 0
  forced := false
  failed := false
  supportClosed := false
  stopStarted := none

def publishReady (now : ℕ) (state : AdmissionState) : AdmissionState :=
  if state.readiness = .starting && state.readyRequested &&
      (!state.supervised || state.driverStarted) && state.pendingStartups = 0 then
    if state.progress.mayBecomeReady now then
      { state with readiness := .ready, progress := .ready }
    else state
  else state

/-- `request_drain`: the clock is read when the progress stops and again for the start. -/
def requestDrain (started stopAt now : ℕ) (state : AdmissionState) : AdmissionState :=
  let started := min started now
  { state with
    progress := state.progress.stop stopAt
    stopStarted := some (state.stopStarted.elim started fun old => min old started)
    readiness := if state.readiness ≠ .stopped then .draining else state.readiness }

/-- `mark_ready`, with whether this call approved readiness. -/
def markReady (now : ℕ) (state : AdmissionState) : Bool × AdmissionState :=
  if state.readyRequested || state.readiness.isClosing then (false, state)
  else (true, { state with readyRequested := true }.publishReady now)

variable (state : AdmissionState)

def registerComponent : AdmissionState :=
  { state with pendingStartups := state.pendingStartups + 1 }

/-- `acknowledge_component_start`; `none` is the panic of an unmatched token. -/
def acknowledgeComponentStart (now : ℕ) (state : AdmissionState) : Option AdmissionState :=
  match state.pendingStartups with
  | 0 => none
  | pending + 1 => some ({ state with pendingStartups := pending }.publishReady now)

def startDriver (now : ℕ) (state : AdmissionState) : AdmissionState :=
  { state with driverStarted := true }.publishReady now

def stopDriver (now : ℕ) (state : AdmissionState) : AdmissionState :=
  { state with readiness := .stopped, progress := state.progress.stop now }

/-- The first section of `set_readiness_deadline`; `expire_readiness` follows on its own. -/
def setReadinessDeadline (deadline : ℕ) (state : AdmissionState) : AdmissionState :=
  if state.progress.isPending then { state with progress := .pending (some deadline) } else state

/-- `expire_readiness`, with whether the deadline has expired. -/
def expireReadiness (first second third : ℕ) (state : AdmissionState) : Bool × AdmissionState :=
  match state.progress with
  | .pending (some deadline) =>
    if deadline ≤ first then
      (true, { state with progress := .deadlineExceeded }.requestDrain second second third)
    else (false, state)
  | _ => (false, state)

def forceCancel (first second third : ℕ) (state : AdmissionState) : AdmissionState :=
  { state.requestDrain first second third with forced := true, supportClosed := true }

def closeSupport : AdmissionState :=
  { state with supportClosed := true }

def failTask : AdmissionState :=
  { state with failed := true }

/-- The last instant of a clock with 64-bit seconds. -/
def maxInstant : ℕ := RustStd.i64Max * 10 ^ 9 + (10 ^ 9 - 1)

/-- `started.checked_add(graceful).unwrap_or(started)`. -/
def gracefulEnd (started graceful : ℕ) : ℕ :=
  (RustStd.checkedAdd maxInstant started graceful).getD started

def admitPeriodic (role : PeriodicRole) (graceful now : ℕ) (state : AdmissionState) :
    PeriodicAdmission :=
  if state.forced || !state.driverStarted then .stopped
  else
    let draining := state.readiness.isClosing
    let refused := match role with
      | .support => state.supportClosed
      | .ordinary => draining || state.failed
    if refused then .stopped
    else if draining then .admitted (some (gracefulEnd (state.stopStarted.getD now) graceful))
    else .admitted none

/-- `Admission::check`; an ancestor is given by its flag. -/
def check (ancestor : Option Bool) (queue : QueueState) (state : AdmissionState) :
    Except ProcessAdmissionError Unit := do
  rejectIf (state.forced || state.failed || queue = .closed || ancestor.any (!·) ||
    ancestor.isNone && state.readiness.isClosing) .closed
  rejectIf (!state.driverStarted) .notRunning
  rejectIf (ancestor.isNone && state.readiness ≠ .ready) .notReady

def admitFinite : AdmissionState :=
  { state with finiteActive := state.finiteActive + 1 }

/-- `finish_finite`; `none` is an underflow of the counter. -/
def finishFinite : Option AdmissionState :=
  match state.finiteActive with
  | 0 => none
  | active + 1 => some { state with finiteActive := active }

end AdmissionState

/-- The cancellation tokens of a process. -/
inductive Token
  | drain
  | supportStop
  | cancel
  deriving DecidableEq

/-- The state under the mutex, its published snapshot and the tokens. -/
structure Shared where
  admission : AdmissionState
  publishedReadiness : ℕ
  drain : Bool
  supportStop : Bool
  cancel : Bool
  deriving DecidableEq

namespace Shared

def new (supervision : Supervision) : Shared where
  admission := .new supervision
  publishedReadiness := Readiness.starting.asU8
  drain := false
  supportStop := false
  cancel := false

variable (shared : Shared)

/-- The readiness that readers see without the mutex. -/
def readiness : Readiness :=
  .fromU8 shared.publishedReadiness

/-- `publish_readiness`, at the end of a section that leaves `state`. -/
def publish (state : AdmissionState) : Shared :=
  { shared with admission := state, publishedReadiness := state.readiness.asU8 }

/-- A section that leaves the snapshot alone. -/
def write (state : AdmissionState) : Shared :=
  { shared with admission := state }

/-- Whether a token is cancelled. -/
def isCancelled : Token → Bool
  | .drain => shared.drain
  | .supportStop => shared.supportStop
  | .cancel => shared.cancel

def cancelToken : Token → Shared
  | .drain => { shared with drain := true }
  | .supportStop => { shared with supportStop := true }
  | .cancel => { shared with cancel := true }

theorem isCancelled_cancelToken (token other : Token) :
    (shared.cancelToken token).isCancelled other = (token = other || shared.isCancelled other) := by
  cases token <;> cases other <;> simp [cancelToken, isCancelled]

end Shared

end Batter.Lifecycle
