import Batter.Lifecycle.State

/-!
# Transitions of the lifecycle state

Every section under the mutex moves the state forward: readiness only goes on, a
startup that has been decided stays decided, flags are never taken back, and the
start of the stop only becomes earlier.  `AdmissionState.Sound` is what holds
between two sections.
-/

namespace Batter.Lifecycle

open RustStd

section Forward

/-- What a section may do to the state. -/
structure AdmissionState.Forward (state state' : AdmissionState) : Prop where
  readiness : state.readiness ≤ state'.readiness
  progress : state.progress.isPending = false → state'.progress = state.progress
  supervised : state'.supervised = state.supervised
  driverStarted : state.driverStarted = true → state'.driverStarted = true
  readyRequested : state.readyRequested = true → state'.readyRequested = true
  forced : state.forced = true → state'.forced = true
  failed : state.failed = true → state'.failed = true
  supportClosed : state.supportClosed = true → state'.supportClosed = true
  stopStarted : ∀ started, state.stopStarted = some started →
    ∃ started', state'.stopStarted = some started' ∧ started' ≤ started

/-- What holds between two sections. -/
structure AdmissionState.Sound (clock : ℕ) (state : AdmissionState) : Prop where
  pending : state.progress.isPending = true ↔ state.readiness = .starting
  ready : state.readiness = .ready → state.progress = .ready
  draining : state.readiness = .draining → state.stopStarted.isSome = true
  stopping : state.stopStarted.isSome = true → .draining ≤ state.readiness
  stopStarted : ∀ started, state.stopStarted = some started → started ≤ clock
  forced : state.forced = true → state.supportClosed = true ∧ state.stopStarted.isSome = true

variable {clock now : ℕ} {state state' state'' : AdmissionState}

theorem AdmissionState.Forward.refl (state : AdmissionState) : state.Forward state :=
  ⟨le_rfl, fun _ => rfl, rfl, fun h => h, fun h => h, fun h => h, fun h => h, fun h => h,
    fun started h => ⟨started, h, le_rfl⟩⟩

theorem AdmissionState.Forward.trans (h : state.Forward state') (h' : state'.Forward state'') :
    state.Forward state'' where
  readiness := h.readiness.trans h'.readiness
  progress hdecided := by
    have hsame := h.progress hdecided
    rw [← hsame] at hdecided
    exact (h'.progress hdecided).trans hsame
  supervised := h'.supervised.trans h.supervised
  driverStarted hset := h'.driverStarted (h.driverStarted hset)
  readyRequested hset := h'.readyRequested (h.readyRequested hset)
  forced hset := h'.forced (h.forced hset)
  failed hset := h'.failed (h.failed hset)
  supportClosed hset := h'.supportClosed (h.supportClosed hset)
  stopStarted started hstarted := by
    obtain ⟨middle, hmiddle, hle⟩ := h.stopStarted started hstarted
    obtain ⟨last, hlast, hle'⟩ := h'.stopStarted middle hmiddle
    exact ⟨last, hlast, hle'.trans hle⟩

theorem AdmissionState.Sound.mono {clock' : ℕ} (h : state.Sound clock) (hle : clock ≤ clock') :
    state.Sound clock' :=
  { h with stopStarted := fun started hstarted => (h.stopStarted started hstarted).trans hle }

/-- Other flags and counters do not matter. -/
theorem AdmissionState.Sound.of_same (h : state.Sound clock)
    (hreadiness : state'.readiness = state.readiness) (hprogress : state'.progress = state.progress)
    (hstopStarted : state'.stopStarted = state.stopStarted) (hforced : state'.forced = state.forced)
    (hsupportClosed : state'.supportClosed = state.supportClosed) : state'.Sound clock := by
  constructor
  · rw [hprogress, hreadiness]
    exact h.pending
  · rw [hprogress, hreadiness]
    exact h.ready
  · rw [hstopStarted, hreadiness]
    exact h.draining
  · rw [hstopStarted, hreadiness]
    exact h.stopping
  · rw [hstopStarted]
    exact h.stopStarted
  · rw [hforced, hsupportClosed, hstopStarted]
    exact h.forced

theorem AdmissionState.sound_new (supervision : Supervision) :
    (AdmissionState.new supervision).Sound 0 where
  pending := by simp [AdmissionState.new, ReadinessProgress.isPending]
  ready := by simp [AdmissionState.new]
  draining := by simp [AdmissionState.new]
  stopping := by simp [AdmissionState.new]
  stopStarted := by simp [AdmissionState.new]
  forced := by simp [AdmissionState.new]

end Forward

section Progress

variable {now : ℕ} {progress : ReadinessProgress}

theorem ReadinessProgress.isPending_stop (now : ℕ) (progress : ReadinessProgress) :
    (progress.stop now).isPending = false := by
  cases progress with
  | pending deadline =>
    simp only [stop]
    split_ifs <;> rfl
  | _ => rfl

theorem ReadinessProgress.stop_of_decided (h : progress.isPending = false) :
    progress.stop now = progress := by
  cases progress with
  | pending deadline => cases h
  | _ => rfl

/-- A startup that may become ready is pending, and its deadline has not been reached. -/
theorem ReadinessProgress.mayBecomeReady_iff : progress.mayBecomeReady now = true ↔
      ∃ deadline, progress = .pending deadline ∧
        ∀ instant, deadline = some instant → now < instant := by
  cases progress with
  | pending deadline => cases deadline <;> simp [mayBecomeReady]
  | _ => simp [mayBecomeReady]

end Progress

attribute [local simp] Readiness.le_def Readiness.asU8

section Sections

variable {clock now started stopAt : ℕ} {state : AdmissionState}

/-- The conditions under which a process becomes ready. -/
structure AdmissionState.MayPublish (now : ℕ) (state : AdmissionState) : Prop where
  requested : state.readyRequested = true
  started : state.supervised = true → state.driverStarted = true
  acknowledged : state.pendingStartups = 0
  inTime : ∀ deadline, state.progress = .pending (some deadline) → now < deadline

section

variable (now : ℕ) (state : AdmissionState)

/-- `publish_ready` either changes nothing or enters readiness under its conditions. -/
theorem AdmissionState.publishReady_cases : state.publishReady now = state ∨
      state.readiness = .starting ∧ state.MayPublish now ∧ state.progress.isPending = true ∧
        state.publishReady now = { state with readiness := .ready, progress := .ready } := by
  rw [publishReady]
  split_ifs with hready hprogress
  · simp only [Bool.and_eq_true, decide_eq_true_eq, Bool.or_eq_true, Bool.not_eq_true'] at hready
    obtain ⟨⟨⟨hstarting, hrequested⟩, hdriver⟩, hpend⟩ := hready
    obtain ⟨deadline, hdeadline, htime⟩ := ReadinessProgress.mayBecomeReady_iff.mp hprogress
    refine Or.inr ⟨hstarting, ⟨hrequested, fun hsupervised => ?_, hpend, ?_⟩, ?_, rfl⟩
    · exact hdriver.resolve_left (by simp [hsupervised])
    · intro instant hinstant
      rw [hdeadline, ReadinessProgress.pending.injEq] at hinstant
      exact htime instant hinstant
    · rw [hdeadline]
      rfl
  · exact Or.inl rfl
  · exact Or.inl rfl

@[simp]
theorem AdmissionState.pendingStartups_publishReady :
    (state.publishReady now).pendingStartups = state.pendingStartups := by
  rcases state.publishReady_cases now with h | ⟨_, _, _, h⟩ <;> rw [h]

@[simp]
theorem AdmissionState.finiteActive_publishReady :
    (state.publishReady now).finiteActive = state.finiteActive := by
  rcases state.publishReady_cases now with h | ⟨_, _, _, h⟩ <;> rw [h]

theorem AdmissionState.forward_publishReady : state.Forward (state.publishReady now) := by
  rcases state.publishReady_cases now with h | ⟨hstarting, _, hpend, h⟩
  · rw [h]
    exact .refl state
  · rw [h]
    refine { AdmissionState.Forward.refl state with
      readiness := ?_, progress := fun hdecided => ?_ }
    · simp [hstarting]
    · rw [hpend] at hdecided
      cases hdecided

end

theorem AdmissionState.Sound.publishReady (h : state.Sound clock) (now : ℕ) :
    (state.publishReady now).Sound clock := by
  rcases state.publishReady_cases now with hsame | ⟨hstarting, _, _, hready⟩
  · rw [hsame]
    exact h
  · rw [hready]
    refine { h with pending := ?_, ready := fun _ => rfl, draining := nofun, stopping := ?_ }
    · simp [ReadinessProgress.isPending]
    · intro hset
      have hle := h.stopping hset
      rw [hstarting] at hle
      simp at hle

theorem AdmissionState.readiness_requestDrain (started stopAt now : ℕ) (state : AdmissionState) :
    .draining ≤ (state.requestDrain started stopAt now).readiness := by
  by_cases hstopped : state.readiness = .stopped <;>
    simp [requestDrain, hstopped]

theorem AdmissionState.forward_requestDrain (started stopAt now : ℕ) (state : AdmissionState) :
    state.Forward (state.requestDrain started stopAt now) where
  readiness := by
    by_cases hstopped : state.readiness = .stopped
    · simp [requestDrain, hstopped]
    · cases hreadiness : state.readiness <;>
        simp_all [requestDrain, Readiness.le_def, Readiness.asU8]
  progress hdecided := ReadinessProgress.stop_of_decided hdecided
  supervised := rfl
  driverStarted hset := hset
  readyRequested hset := hset
  forced hset := hset
  failed hset := hset
  supportClosed hset := hset
  stopStarted old hold := by
    refine ⟨min old (min started now), ?_, min_le_left _ _⟩
    simp [requestDrain, hold]

theorem AdmissionState.Sound.requestDrain (h : state.Sound clock) (hnow : now ≤ clock) :
    (state.requestDrain started stopAt now).Sound clock := by
  have hclosing := state.readiness_requestDrain started stopAt now
  have hdecided : (state.requestDrain started stopAt now).progress.isPending = false :=
    ReadinessProgress.isPending_stop stopAt state.progress
  have hnot : ∀ readiness : Readiness, readiness < .draining →
      (state.requestDrain started stopAt now).readiness ≠ readiness := by
    intro readiness hlt heq
    exact absurd (heq ▸ hclosing) (not_le.mpr hlt)
  refine ⟨?_, ?_, fun _ => rfl, fun _ => hclosing, ?_, fun hforced => ⟨(h.forced hforced).1, rfl⟩⟩
  · rw [hdecided]
    exact iff_of_false Bool.false_ne_true (hnot .starting (by decide))
  · intro hready
    exact absurd hready (hnot .ready (by decide))
  · intro instant hinstant
    simp only [AdmissionState.requestDrain, Option.some.injEq] at hinstant
    subst hinstant
    cases state.stopStarted with
    | none => exact (min_le_right _ _).trans hnow
    | some old => exact (min_le_right _ _).trans ((min_le_right _ _).trans hnow)

end Sections

section Moves

/-- How a process becomes ready: with readiness requested, all components started, its driver
started if it has one, and before any deadline. -/
structure AdmissionState.Entered (now : ℕ) (state state' : AdmissionState) : Prop where
  requested : state'.readyRequested = true
  started : state'.supervised = true → state'.driverStarted = true
  acknowledged : state'.pendingStartups = 0
  inTime : ∀ deadline, state.progress = .pending (some deadline) → now < deadline

/-- What one section under the mutex does, with a reading of the clock. -/
structure AdmissionState.Moves (clock now : ℕ) (state state' : AdmissionState) : Prop where
  forward : state.Forward state'
  sound : state.Sound clock → state'.Sound clock
  entered : state.readiness ≠ .ready → state'.readiness = .ready → state.Entered now state'

variable {clock now started stopAt first second third : ℕ} {state updated state' : AdmissionState}

theorem AdmissionState.Moves.refl (clock now : ℕ) (state : AdmissionState) :
    state.Moves clock now state :=
  ⟨.refl state, fun h => h, fun hnot hready => absurd hready hnot⟩

/-- A section that only writes flags and counters. -/
theorem AdmissionState.Moves.of_flags (hforward : state.Forward state')
    (hsound : state.Sound clock → state'.Sound clock)
    (hreadiness : state'.readiness = state.readiness) : state.Moves clock now state' :=
  ⟨hforward, hsound, fun hnot hready => absurd (hreadiness.symm.trans hready) hnot⟩

/-- A section that writes flags and then looks whether the process is ready. -/
theorem AdmissionState.Moves.publishReady (hforward : state.Forward updated)
    (hsound : state.Sound clock → updated.Sound clock)
    (hreadiness : updated.readiness = state.readiness)
    (hprogress : updated.progress = state.progress) :
    state.Moves clock now (updated.publishReady now) where
  forward := hforward.trans (updated.forward_publishReady now)
  sound h := (hsound h).publishReady now
  entered hnot hready := by
    rcases updated.publishReady_cases now with hsame | ⟨_, hmay, _, hpublished⟩
    · rw [hsame, hreadiness] at hready
      exact absurd hready hnot
    · rw [hpublished]
      exact ⟨hmay.requested, hmay.started, hmay.acknowledged,
        fun deadline hdeadline => hmay.inTime deadline (hprogress.trans hdeadline)⟩

theorem AdmissionState.moves_markReady (clock now : ℕ) (state : AdmissionState) :
    state.Moves clock now (state.markReady now).2 := by
  rw [markReady]
  split_ifs
  · exact .refl clock now state
  · refine .publishReady { AdmissionState.Forward.refl state with readyRequested := fun _ => rfl }
      (fun h => ?_) rfl rfl
    exact h.of_same rfl rfl rfl rfl rfl

theorem AdmissionState.moves_registerComponent (clock now : ℕ) (state : AdmissionState) :
    state.Moves clock now state.registerComponent :=
  .of_flags { AdmissionState.Forward.refl state with }
    (fun h => h.of_same rfl rfl rfl rfl rfl) rfl

theorem AdmissionState.moves_acknowledgeComponentStart
    (h : state.acknowledgeComponentStart now = some state') : state.Moves clock now state' := by
  rw [acknowledgeComponentStart] at h
  split at h
  · cases h
  · cases h
    exact .publishReady { AdmissionState.Forward.refl state with }
      (fun h => h.of_same rfl rfl rfl rfl rfl) rfl rfl

theorem AdmissionState.moves_startDriver (clock now : ℕ) (state : AdmissionState) :
    state.Moves clock now (state.startDriver now) :=
  .publishReady { AdmissionState.Forward.refl state with driverStarted := fun _ => rfl }
    (fun h => h.of_same rfl rfl rfl rfl rfl) rfl rfl

theorem AdmissionState.moves_stopDriver (clock now : ℕ) (state : AdmissionState) :
    state.Moves clock now (state.stopDriver now) := by
  refine ⟨{ AdmissionState.Forward.refl state with
    readiness := ?_, progress := ReadinessProgress.stop_of_decided }, fun h => ?_, nofun⟩
  · cases hreadiness : state.readiness <;>
      simp [stopDriver]
  · refine { h with pending := ?_, ready := nofun, draining := nofun, stopping := fun _ => ?_ }
    · have hdecided := ReadinessProgress.isPending_stop now state.progress
      simp [stopDriver, hdecided]
    · simp [stopDriver]

theorem AdmissionState.moves_requestDrain (started stopAt now : ℕ) (state : AdmissionState)
    (hnow : now ≤ clock) : state.Moves clock first (state.requestDrain started stopAt now) := by
  refine ⟨state.forward_requestDrain started stopAt now, fun h => h.requestDrain hnow, ?_⟩
  intro _ hready
  have hclosing := state.readiness_requestDrain started stopAt now
  rw [hready] at hclosing
  simp at hclosing

theorem AdmissionState.moves_setReadinessDeadline
    (clock now deadline : ℕ) (state : AdmissionState) :
    state.Moves clock now (state.setReadinessDeadline deadline) := by
  rw [setReadinessDeadline]
  split_ifs with hpend
  · refine .of_flags { AdmissionState.Forward.refl state with progress := fun hdecided => ?_ }
      (fun h => { h with pending := ?_, ready := fun hready => ?_ }) rfl
    · rw [hpend] at hdecided
      cases hdecided
    · rw [← h.pending, hpend]
      rfl
    · rw [h.ready hready] at hpend
      cases hpend
  · exact .refl clock now state

section

variable (first second third : ℕ) (state : AdmissionState) (hthird : third ≤ clock)
include hthird

theorem AdmissionState.moves_expireReadiness :
    state.Moves clock now (state.expireReadiness first second third).2 := by
  rw [expireReadiness]
  split
  · rename_i deadline hprogress
    split_ifs
    · have hpend : state.progress.isPending = true := by
        rw [hprogress]
        rfl
      have hdrain := { state with progress := .deadlineExceeded }.forward_requestDrain
        second second third
      have hclosing := { state with progress := .deadlineExceeded }.readiness_requestDrain
        second second third
      refine ⟨{ hdrain with progress := fun hdecided => ?_ }, fun h => ?_, fun _ hready => ?_⟩
      · rw [hpend] at hdecided
        cases hdecided
      · have hdrained := @AdmissionState.Sound.requestDrain clock third second second state h hthird
        exact { hdrained with
          pending := iff_of_false Bool.false_ne_true
            (fun heq => absurd (heq ▸ hclosing) (by decide))
          ready := fun heq => absurd (heq ▸ hclosing) (by decide) }
      · rw [hready] at hclosing
        exact absurd hclosing (by decide)
    · exact .refl clock now state
  · exact .refl clock now state

theorem AdmissionState.moves_forceCancel :
    state.Moves clock now (state.forceCancel first second third) := by
  have hmoves : state.Moves clock now (state.requestDrain first second third) :=
    state.moves_requestDrain first second third hthird
  exact ⟨{ hmoves.forward with forced := fun _ => rfl, supportClosed := fun _ => rfl },
    fun h => { hmoves.sound h with forced := fun _ => ⟨rfl, rfl⟩ },
    fun hnot hready => { hmoves.entered hnot hready with }⟩

end

section

variable (clock now : ℕ) (state : AdmissionState)

theorem AdmissionState.moves_closeSupport : state.Moves clock now state.closeSupport :=
  .of_flags { AdmissionState.Forward.refl state with supportClosed := fun _ => rfl }
    (fun h => { h with forced := fun hforced => ⟨rfl, (h.forced hforced).2⟩ }) rfl

theorem AdmissionState.moves_failTask : state.Moves clock now state.failTask :=
  .of_flags { AdmissionState.Forward.refl state with failed := fun _ => rfl }
    (fun h => h.of_same rfl rfl rfl rfl rfl) rfl

theorem AdmissionState.moves_admitFinite : state.Moves clock now state.admitFinite :=
  .of_flags { AdmissionState.Forward.refl state with }
    (fun h => h.of_same rfl rfl rfl rfl rfl) rfl

end

theorem AdmissionState.moves_finishFinite (h : state.finishFinite = some state') :
    state.Moves clock now state' := by
  rw [finishFinite] at h
  split at h
  · cases h
  · cases h
    exact .of_flags { AdmissionState.Forward.refl state with }
      (fun h => h.of_same rfl rfl rfl rfl rfl) rfl

/-- An approval leaves the counters alone. -/
theorem AdmissionState.counts_markReady (now : ℕ) (state : AdmissionState) :
    (state.markReady now).2.pendingStartups = state.pendingStartups ∧
      (state.markReady now).2.finiteActive = state.finiteActive := by
  rw [markReady]
  split_ifs <;> simp

/-- What an acknowledgement does to the counters. -/
theorem AdmissionState.counts_acknowledgeComponentStart
    (h : state.acknowledgeComponentStart now = some state') :
    state'.pendingStartups + 1 = state.pendingStartups ∧
      state'.finiteActive = state.finiteActive := by
  rw [acknowledgeComponentStart] at h
  split at h
  · cases h
  · rename_i pending hpend
    cases h
    simp [hpend]

/-- An expired deadline starts the stop. -/
theorem AdmissionState.counts_expireReadiness
    (h : (state.expireReadiness first second third).1 = true) :
    (state.expireReadiness first second third).2.stopStarted.isSome = true ∧
      (state.expireReadiness first second third).2.pendingStartups = state.pendingStartups ∧
      (state.expireReadiness first second third).2.finiteActive = state.finiteActive := by
  rw [expireReadiness] at h ⊢
  split at h
  · split_ifs at h ⊢
    exact ⟨rfl, rfl, rfl⟩
  · cases h

/-- What the end of a finite task does to the counters. -/
theorem AdmissionState.counts_finishFinite (h : state.finishFinite = some state') :
    state'.readiness = state.readiness ∧ state'.pendingStartups = state.pendingStartups ∧
      state'.finiteActive + 1 = state.finiteActive := by
  rw [finishFinite] at h
  split at h
  · cases h
  · rename_i active hact
    cases h
    exact ⟨rfl, rfl, hact.symm⟩

end Moves

section Grants

variable {state : AdmissionState} {ancestor : Option Bool} {queue : QueueState}

/-- When a finite task is admitted. -/
theorem AdmissionState.check_eq_ok : state.check ancestor queue = .ok () ↔
      state.forced = false ∧ state.failed = false ∧ queue = .open ∧
        (∀ flag, ancestor = some flag → flag = true) ∧ state.driverStarted = true ∧
        (ancestor = none → state.readiness = .ready) := by
  simp only [check, bind_eq_ok, exists_unit, rejectIf_eq_ok, Bool.or_eq_false_iff,
    Bool.not_eq_false', decide_eq_false_iff_not]
  cases queue <;> cases ancestor <;> cases hreadiness : state.readiness <;>
    simp [Readiness.isClosing, and_assoc]

/-- When a periodic invocation is admitted. -/
theorem AdmissionState.admitPeriodic_eq_admitted
    {role : PeriodicRole} {graceful now : ℕ} {forcedAt : Option ℕ} :
    state.admitPeriodic role graceful now = .admitted forcedAt ↔
      state.forced = false ∧ state.driverStarted = true ∧
        (role = .support → state.supportClosed = false) ∧
        (role = .ordinary → state.readiness.isClosing = false ∧ state.failed = false) ∧
        forcedAt = if state.readiness.isClosing then
          some (gracefulEnd (state.stopStarted.getD now) graceful) else none := by
  cases role <;> cases hforced : state.forced <;> cases hstarted : state.driverStarted <;>
    cases hclosed : state.supportClosed <;> cases hclosing : state.readiness.isClosing <;>
    cases hfailed : state.failed <;>
    simp [admitPeriodic, hforced, hstarted, hclosed, hclosing, hfailed, eq_comm]

end Grants

end Batter.Lifecycle
