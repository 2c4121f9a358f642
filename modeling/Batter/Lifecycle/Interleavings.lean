import Batter.Lifecycle.Transitions

/-!
# Interleavings of lifecycle calls

A world is the shared state together with what its callers hold: the start tokens
that have not been used, the finite tasks that have not finished, and for each call
the cancellation tokens it has still to cancel.  Calls come in any order; each one
reads the clock up to three times, and the readings never go back.

`Coherent` holds in every world that is reached, and `Later` relates every world to
the ones after it.
-/

namespace Batter.Lifecycle

open RustStd List Option

variable {shared : Shared} {token : Token}

/-- The shared state and what its callers hold. -/
structure World where
  shared : Shared
  clock : ℕ
  issued : ℕ
  startTokens : List ℕ
  active : List ℕ
  due : List (List Token)
  deriving DecidableEq

/-- A call of one of the owners. -/
inductive Request
  | markReady
  | registerComponent
  | acknowledge (token : ℕ)
  | startDriver
  | stopDriver
  | requestSince (started : ℕ)
  | setReadinessDeadline (deadline : ℕ)
  | expireReadiness
  | forceCancel
  | closeSupport
  | failTask
  | admitFinite (ancestor : Option ℕ) (queue : QueueState)
  | finishFinite (admission : ℕ)
  | admitPeriodic (role : PeriodicRole) (graceful : ℕ)
  | cancelNext (call : ℕ)
  deriving DecidableEq

/-- A call with the time that passes before each of its readings of the clock. -/
structure Call where
  first : ℕ
  second : ℕ
  third : ℕ
  request : Request
  deriving DecidableEq

/-- What a caller learns. -/
inductive Answer
  | done
  | marked (approved : Bool)
  | finite (admission : Except ProcessAdmissionError ℕ)
  | periodic (decision : PeriodicAdmission)

namespace World

variable (supervision : Supervision)

/-- The world of a new process. -/
def new : World where
  shared := .new supervision
  clock := 0
  issued := 0
  startTokens := []
  active := []
  due := []

variable (world : World)

/-- The state under the mutex. -/
def state : AdmissionState :=
  world.shared.admission

/-- A section that publishes readiness. -/
def publish (world : World) (state : AdmissionState) : World :=
  { world with shared := world.shared.publish state }

/-- A section that leaves the snapshot alone. -/
def write (world : World) (state : AdmissionState) : World :=
  { world with shared := world.shared.write state }

/-- A call that has still to cancel some tokens. -/
def andCancel (tokens : List Token) : World :=
  { world with due := world.due ++ [tokens] }

/-- The flag of an ancestor, which its end clears. -/
def flag (admission : ℕ) : Bool :=
  admission ∈ world.active

/-- The world after a time. -/
def elapse (time : ℕ) : World :=
  { world with clock := world.clock + time }

/-- One call at three readings of the clock; `none` if the caller does not hold what it needs. -/
def serve (first second third : ℕ) : Request → Option (Answer × World)
  | .markReady =>
    let (approved, state) := world.state.markReady first
    some (.marked approved, if approved then world.publish state else world)
  | .registerComponent =>
    some (.done, { world.write world.state.registerComponent with
      startTokens := world.issued :: world.startTokens, issued := world.issued + 1 })
  | .acknowledge token =>
    if token ∈ world.startTokens then do
      let state ← world.state.acknowledgeComponentStart first
      return (.done, { world.publish state with startTokens := world.startTokens.erase token })
    else none
  | .startDriver => some (.done, world.publish (world.state.startDriver first))
  | .stopDriver => some (.done, world.publish (world.state.stopDriver first))
  | .requestSince started =>
    some (.done, (world.publish (world.state.requestDrain started first second)).andCancel
      [.drain])
  | .setReadinessDeadline deadline =>
    some (.done, world.write (world.state.setReadinessDeadline deadline))
  | .expireReadiness =>
    let (expired, state) := world.state.expireReadiness first second third
    some (.done, if expired then (world.publish state).andCancel [.drain] else world)
  | .forceCancel =>
    some (.done, (world.publish (world.state.forceCancel first second third)).andCancel
      [.drain, .supportStop, .cancel])
  | .closeSupport => some (.done, (world.write world.state.closeSupport).andCancel [.supportStop])
  | .failTask => some (.done, world.write world.state.failTask)
  | .admitFinite ancestor queue =>
    match world.state.check (ancestor.map world.flag) queue with
    | .ok () => some (.finite (.ok world.issued), { world.write world.state.admitFinite with
        active := world.issued :: world.active, issued := world.issued + 1 })
    | .error error => some (.finite (.error error), world)
  | .finishFinite admission =>
    if admission ∈ world.active then do
      let state ← world.state.finishFinite
      return (.done, { world.write state with active := world.active.erase admission })
    else none
  | .admitPeriodic role graceful =>
    some (.periodic (world.state.admitPeriodic role graceful first), world)
  | .cancelNext call =>
    match world.due[call]? with
    | some (token :: tokens) => some (.done, { world with
        shared := world.shared.cancelToken token, due := world.due.set call tokens })
    | _ => none

/-- One call, with its readings of the clock. -/
def perform (call : Call) : Option (Answer × World) :=
  (world.elapse (call.first + call.second + call.third)).serve (world.clock + call.first)
    (world.clock + call.first + call.second)
    (world.clock + call.first + call.second + call.third) call.request

/-- The world after a call; a call that is not possible is not made. -/
def after (call : Call) : World :=
  ((world.perform call).map Prod.snd).getD world

/-- The world after calls in any order. -/
def run (calls : List Call) : World :=
  calls.foldl after (new supervision)

theorem run_append (earlier later : List Call) :
    run supervision (earlier ++ later) = later.foldl after (run supervision earlier) :=
  foldl_append ..

end World

/-- The state that allows a token to be cancelled. -/
def AdmissionState.announces (state : AdmissionState) : Token → Bool
  | .drain => state.stopStarted.isSome
  | .supportStop => state.supportClosed
  | .cancel => state.forced

/-- What a call has still to cancel, with what it has cancelled before. -/
inductive Unfinished (shared : Shared) : List Token → Prop
  | drain : Unfinished shared [.drain]
  | force : Unfinished shared [.drain, .supportStop, .cancel]
  | forceSupport (hdrain : shared.drain = true) : Unfinished shared [.supportStop, .cancel]
  | forceCancel (hdrain : shared.drain = true) (hsupport : shared.supportStop = true) :
      Unfinished shared [.cancel]
  | support : Unfinished shared [.supportStop]
  | nothing : Unfinished shared []

/-- What holds in every world that is reached. -/
structure Coherent (world : World) : Prop where
  published : world.shared.readiness = world.state.readiness
  sound : world.state.Sound world.clock
  started : world.state.pendingStartups = world.startTokens.length
  finite : world.state.finiteActive = world.active.length
  distinct : world.active.Nodup
  fresh : ∀ admission ∈ world.active, admission < world.issued
  announced : ∀ token, world.shared.isCancelled token = true → world.state.announces token = true
  due : ∀ call ∈ world.due, Unfinished world.shared call ∧
    ∀ token ∈ call, world.state.announces token = true
  forced : world.shared.cancel = true → world.shared.drain = true ∧ world.shared.supportStop = true

/-- How a world relates to a later one. -/
structure Later (world world' : World) : Prop where
  clock : world.clock ≤ world'.clock
  forward : world.state.Forward world'.state
  cancelled : ∀ token, world.shared.isCancelled token = true →
    world'.shared.isCancelled token = true

section Steps

variable {world world' world'' : World} {now : ℕ} {state : AdmissionState} {tokens : List Token}

theorem AdmissionState.Forward.announces {state' : AdmissionState} (h : state.Forward state')
    (hannounced : state.announces token = true) : state'.announces token = true := by
  cases token with
  | drain =>
    obtain ⟨started, hstarted⟩ := isSome_iff_exists.mp hannounced
    obtain ⟨started', hstarted', _⟩ := h.stopStarted started hstarted
    exact isSome_iff_exists.mpr ⟨started', hstarted'⟩
  | supportStop => exact h.supportClosed hannounced
  | cancel => exact h.forced hannounced

/-- What a call announces before it cancels anything. -/
structure Announcement (state : AdmissionState) (tokens : List Token) : Prop where
  shape : tokens = [.drain] ∨ tokens = [.drain, .supportStop, .cancel] ∨ tokens = [.supportStop]
  announced : ∀ token ∈ tokens, state.announces token = true

/-- What a section under the mutex leaves. -/
structure Section (now : ℕ) (world world' : World) : Prop where
  clock : world'.clock = world.clock
  moves : world.state.Moves world.clock now world'.state
  published : world'.shared.readiness = world'.state.readiness
  tokens : ∀ token, world'.shared.isCancelled token = world.shared.isCancelled token
  started : world'.state.pendingStartups = world'.startTokens.length
  finite : world'.state.finiteActive = world'.active.length
  distinct : world'.active.Nodup
  fresh : ∀ admission ∈ world'.active, admission < world'.issued
  due : ∀ call ∈ world'.due, call ∈ world.due ∨ Announcement world'.state call

theorem Section.refl (h : Coherent world) (now : ℕ) : Section now world world :=
  ⟨rfl, .refl _ _ _, h.published, fun _ => rfl, h.started, h.finite, h.distinct, h.fresh,
    fun _ hcall => .inl hcall⟩

theorem Section.publish (h : Coherent world) (hmoves : world.state.Moves world.clock now state)
    (hstarted : state.pendingStartups = world.state.pendingStartups)
    (hfinite : state.finiteActive = world.state.finiteActive) :
    Section now world (world.publish state) where
  clock := rfl
  moves := hmoves
  published := Readiness.fromU8_asU8 state.readiness
  tokens token := by cases token <;> rfl
  started := hstarted.trans h.started
  finite := hfinite.trans h.finite
  distinct := h.distinct
  fresh := h.fresh
  due _ hcall := .inl hcall

theorem Section.write (h : Coherent world) (hmoves : world.state.Moves world.clock now state)
    (hreadiness : state.readiness = world.state.readiness)
    (hstarted : state.pendingStartups = world.state.pendingStartups)
    (hfinite : state.finiteActive = world.state.finiteActive) :
    Section now world (world.write state) where
  clock := rfl
  moves := hmoves
  published := h.published.trans hreadiness.symm
  tokens token := by cases token <;> rfl
  started := hstarted.trans h.started
  finite := hfinite.trans h.finite
  distinct := h.distinct
  fresh := h.fresh
  due _ hcall := .inl hcall

theorem Section.andCancel (h : Section now world world')
    (htokens : Announcement world'.state tokens) :
    Section now world (world'.andCancel tokens) where
  clock := h.clock
  moves := h.moves
  published := h.published
  tokens := h.tokens
  started := h.started
  finite := h.finite
  distinct := h.distinct
  fresh := h.fresh
  due call hcall := by
    rcases mem_append.mp hcall with hold | hnew
    · exact h.due call hold
    · exact .inr (mem_singleton.mp hnew ▸ htokens)

/-- A call cancels the next of its tokens. -/
structure Cancels (world world' : World) : Prop where
  cancels : ∃ call token tokens, world.due[call]? = some (token :: tokens) ∧
    world' = { world with
      shared := world.shared.cancelToken token, due := world.due.set call tokens }

/-- Every call is a section under the mutex or cancels a token. -/
theorem Coherent.serve {first second third : ℕ} {req : Request} {answer : Answer}
    (h : Coherent world) (hsecond : second ≤ world.clock) (hthird : third ≤ world.clock)
    (hserve : world.serve first second third req = some (answer, world')) :
    Section first world world' ∨ Cancels world world' := by
  cases req with
  | markReady =>
    have hmoves := world.state.moves_markReady world.clock first
    obtain ⟨hstarted, hfinite⟩ := world.state.counts_markReady first
    obtain ⟨_, hres⟩ := Prod.mk.inj (Option.some.inj hserve)
    change (if (world.state.markReady first).1 then world.publish (world.state.markReady first).2
      else world) = world' at hres
    split_ifs at hres
    · exact .inl (hres ▸ .publish h hmoves hstarted hfinite)
    · exact .inl (hres ▸ .refl h first)
  | registerComponent =>
    cases hserve
    left
    have hmoves := world.state.moves_registerComponent world.clock first
    exact ⟨rfl, hmoves, h.published, fun token => by cases token <;> rfl,
      congrArg (· + 1) h.started, h.finite, h.distinct,
      fun admission hmem => (h.fresh admission hmem).trans (Nat.lt_succ_self _),
      fun _ hcall => .inl hcall⟩
  | acknowledge token =>
    simp only [World.serve] at hserve
    split_ifs at hserve with hheld
    obtain ⟨state, hst, hres⟩ := bind_eq_some_iff.mp hserve
    cases hres
    left
    have hmoves : world.state.Moves world.clock first state :=
      AdmissionState.moves_acknowledgeComponentStart hst
    obtain ⟨hstarted, hfinite⟩ := AdmissionState.counts_acknowledgeComponentStart hst
    refine ⟨rfl, hmoves, Readiness.fromU8_asU8 _, fun token => by cases token <;> rfl, ?_,
      hfinite.trans h.finite, h.distinct, h.fresh, fun _ hcall => .inl hcall⟩
    have hlen := length_erase_of_mem hheld
    have hpositive := length_pos_of_mem hheld
    have hbefore := h.started
    change state.pendingStartups = (world.startTokens.erase token).length
    omega
  | startDriver =>
    cases hserve
    exact .inl (.publish h (world.state.moves_startDriver world.clock first)
      (AdmissionState.pendingStartups_publishReady _ _)
      (AdmissionState.finiteActive_publishReady _ _))
  | stopDriver =>
    cases hserve
    exact .inl (.publish h (world.state.moves_stopDriver world.clock first) rfl rfl)
  | requestSince started =>
    cases hserve
    have hmoves : world.state.Moves world.clock first
        (world.state.requestDrain started first second) :=
      world.state.moves_requestDrain started first second hsecond
    have hsec := Section.publish h hmoves rfl rfl
    exact .inl (hsec.andCancel ⟨.inl rfl, forall_mem_singleton.mpr rfl⟩)
  | setReadinessDeadline deadline =>
    cases hserve
    left
    refine .write h (world.state.moves_setReadinessDeadline world.clock first deadline) ?_ ?_ ?_
    all_goals
      rw [AdmissionState.setReadinessDeadline]
      split_ifs <;> rfl
  | expireReadiness =>
    have hmoves : world.state.Moves world.clock first
        (world.state.expireReadiness first second third).2 :=
      world.state.moves_expireReadiness first second third hthird
    obtain ⟨_, hres⟩ := Prod.mk.inj (Option.some.inj hserve)
    change (if (world.state.expireReadiness first second third).1 then
      (world.publish (world.state.expireReadiness first second third).2).andCancel [.drain]
      else world) = world' at hres
    split_ifs at hres with hexp
    · obtain ⟨hstopping, hstarted, hfinite⟩ :=
        AdmissionState.counts_expireReadiness hexp
      have hsec := (Section.publish h hmoves hstarted hfinite).andCancel
        ⟨.inl rfl, forall_mem_singleton.mpr hstopping⟩
      exact .inl (hres ▸ hsec)
    · exact .inl (hres ▸ .refl h first)
  | forceCancel =>
    cases hserve
    have hmoves : world.state.Moves world.clock first
        (world.state.forceCancel first second third) :=
      world.state.moves_forceCancel first second third hthird
    have hsec := Section.publish h hmoves rfl rfl
    refine .inl (hsec.andCancel ⟨.inr (.inl rfl), ?_⟩)
    intro token _
    cases token <;> rfl
  | closeSupport =>
    cases hserve
    have hsec := Section.write h
      (world.state.moves_closeSupport world.clock first) rfl rfl rfl
    exact .inl (hsec.andCancel ⟨.inr (.inr rfl), forall_mem_singleton.mpr rfl⟩)
  | failTask =>
    cases hserve
    exact .inl (.write h (world.state.moves_failTask world.clock first) rfl rfl rfl)
  | admitFinite ancestor queue =>
    simp only [World.serve] at hserve
    split at hserve
    · cases hserve
      left
      have hmoves := world.state.moves_admitFinite world.clock first
      refine ⟨rfl, hmoves, h.published, fun token => by cases token <;> rfl, h.started,
        congrArg (· + 1) h.finite, nodup_cons.mpr ⟨?_, h.distinct⟩, ?_,
        fun _ hcall => .inl hcall⟩
      · intro hmem
        exact absurd (h.fresh _ hmem) (lt_irrefl _)
      · intro admission hmem
        rcases mem_cons.mp hmem with rfl | hmem
        · exact Nat.lt_succ_self _
        · exact (h.fresh admission hmem).trans (Nat.lt_succ_self _)
    · cases hserve
      exact .inl (.refl h first)
  | finishFinite admission =>
    simp only [World.serve] at hserve
    split_ifs at hserve with hheld
    obtain ⟨state, hst, hres⟩ := bind_eq_some_iff.mp hserve
    cases hres
    left
    have hmoves : world.state.Moves world.clock first state := AdmissionState.moves_finishFinite hst
    obtain ⟨hreadiness, hstarted, hfinite⟩ := AdmissionState.counts_finishFinite hst
    refine ⟨rfl, hmoves, h.published.trans hreadiness.symm,
      fun token => by cases token <;> rfl, hstarted.trans h.started, ?_,
      h.distinct.erase _, fun other hmem => h.fresh other (mem_of_mem_erase hmem),
      fun _ hcall => .inl hcall⟩
    have hlen := length_erase_of_mem hheld
    have hpositive := length_pos_of_mem hheld
    have hbefore := h.finite
    change state.finiteActive = (world.active.erase admission).length
    omega
  | admitPeriodic role graceful =>
    cases hserve
    exact .inl (.refl h first)
  | cancelNext call =>
    simp only [World.serve] at hserve
    split at hserve
    · rename_i token tokens hdue
      cases hserve
      exact .inr ⟨call, token, tokens, hdue, rfl⟩
    · cases hserve

/-- Tokens stay cancelled. -/
theorem isCancelled_cancelToken_of {other : Token} (h : shared.isCancelled other = true) :
    (shared.cancelToken token).isCancelled other = true := by
  rw [Shared.isCancelled_cancelToken, h, Bool.or_true]

theorem Unfinished.mono {shared' : Shared} (h : Unfinished shared tokens)
    (hcanc : ∀ token, shared.isCancelled token = true → shared'.isCancelled token = true) :
    Unfinished shared' tokens := by
  cases h with
  | drain => exact .drain
  | force => exact .force
  | forceSupport hdrain => exact .forceSupport (hcanc .drain hdrain)
  | forceCancel hdrain hsupport =>
    exact .forceCancel (hcanc .drain hdrain) (hcanc .supportStop hsupport)
  | support => exact .support
  | nothing => exact .nothing

/-- A section keeps the world coherent. -/
theorem Coherent.section (h : Coherent world) (hsec : Section now world world') :
    Coherent world' where
  published := hsec.published
  sound := hsec.clock ▸ hsec.moves.sound h.sound
  started := hsec.started
  finite := hsec.finite
  distinct := hsec.distinct
  fresh := hsec.fresh
  announced token hcanc :=
    hsec.moves.forward.announces (h.announced token (hsec.tokens token ▸ hcanc))
  due call hcall := by
    rcases hsec.due call hcall with hold | hnew
    · obtain ⟨hunfinished, hannounced⟩ := h.due call hold
      exact ⟨hunfinished.mono fun token hcanc => (hsec.tokens token).trans hcanc,
        fun token htoken => hsec.moves.forward.announces (hannounced token htoken)⟩
    · refine ⟨?_, hnew.announced⟩
      rcases hnew.shape with rfl | rfl | rfl
      · exact .drain
      · exact .force
      · exact .support
  forced hcancel := by
    obtain ⟨hdrain, hsupport⟩ := h.forced ((hsec.tokens .cancel).symm.trans hcancel)
    exact ⟨(hsec.tokens .drain).trans hdrain, (hsec.tokens .supportStop).trans hsupport⟩

/-- The next token of a call may be cancelled, and the rest is still to do. -/
theorem Unfinished.next (h : Unfinished shared (token :: tokens)) :
    Unfinished (shared.cancelToken token) tokens ∧
      (token = .cancel → shared.drain = true ∧ shared.supportStop = true) := by
  cases h with
  | drain => exact ⟨.nothing, nofun⟩
  | force => exact ⟨.forceSupport rfl, nofun⟩
  | forceSupport hdrain => exact ⟨.forceCancel hdrain rfl, nofun⟩
  | forceCancel hdrain hsupport => exact ⟨.nothing, fun _ => ⟨hdrain, hsupport⟩⟩
  | support => exact ⟨.nothing, nofun⟩

/-- The cancellation of a token keeps the world coherent. -/
theorem Coherent.cancels (h : Coherent world) (hcancels : Cancels world world') :
    Coherent world' := by
  obtain ⟨call, token, tokens, hdue, rfl⟩ := hcancels
  obtain ⟨hunfinished, hannounced⟩ := h.due _ (mem_of_getElem? hdue)
  obtain ⟨hnext, hforced⟩ := hunfinished.next
  have hst : (world.shared.cancelToken token).admission = world.state := by
    cases token <;> rfl
  have hpublished : (world.shared.cancelToken token).readiness = world.shared.readiness := by
    cases token <;> rfl
  have hannounces : ∀ other, (world.shared.cancelToken token).isCancelled other = true →
      world.state.announces other = true := by
    intro other hother
    rw [Shared.isCancelled_cancelToken, Bool.or_eq_true, decide_eq_true_eq] at hother
    rcases hother with rfl | hother
    · exact hannounced token mem_cons_self
    · exact h.announced other hother
  constructor
  · exact (hpublished.trans h.published).trans (congrArg AdmissionState.readiness hst.symm)
  · change (world.shared.cancelToken token).admission.Sound world.clock
    rw [hst]
    exact h.sound
  · exact (congrArg AdmissionState.pendingStartups hst).trans h.started
  · exact (congrArg AdmissionState.finiteActive hst).trans h.finite
  · exact h.distinct
  · exact h.fresh
  · intro other hother
    exact (congrArg (·.announces other) hst).trans (hannounces other hother)
  · intro other hother
    refine ⟨?_, fun cand hcand =>
      (congrArg (·.announces cand) hst).trans ?_⟩
    · rcases mem_or_eq_of_mem_set hother with hold | rfl
      · exact (h.due other hold).1.mono fun _ => isCancelled_cancelToken_of
      · exact hnext
    · rcases mem_or_eq_of_mem_set hother with hold | rfl
      · exact (h.due other hold).2 cand hcand
      · exact hannounced cand (mem_cons_of_mem _ hcand)
  · intro hcancel
    have hboth : world.shared.drain = true ∧ world.shared.supportStop = true := by
      have hother : (world.shared.cancelToken token).isCancelled .cancel = true := hcancel
      rw [Shared.isCancelled_cancelToken, Bool.or_eq_true, decide_eq_true_eq] at hother
      exact hother.elim hforced h.forced
    exact ⟨@isCancelled_cancelToken_of _ token .drain hboth.1,
      @isCancelled_cancelToken_of _ token .supportStop hboth.2⟩

end Steps

section Runs

variable {world world' world'' : World} {call : Call} {answer : Answer}

theorem coherent_new (supervision : Supervision) : Coherent (.new supervision) where
  published := rfl
  sound := AdmissionState.sound_new supervision
  started := rfl
  finite := rfl
  distinct := nodup_nil
  fresh _ hmem := absurd hmem not_mem_nil
  announced token hcanc := by cases token <;> cases hcanc
  due _ hcall := absurd hcall not_mem_nil
  forced hcancel := by cases hcancel

theorem Coherent.elapse (h : Coherent world) (time : ℕ) : Coherent (world.elapse time) :=
  { h with sound := h.sound.mono (Nat.le_add_right _ _) }

/-- A call that is served is a section, read at its first instant, or cancels a token. -/
theorem Coherent.perform (h : Coherent world)
    (hperform : world.perform call = some (answer, world')) :
    Section (world.clock + call.first)
        (world.elapse (call.first + call.second + call.third)) world' ∨
      Cancels (world.elapse (call.first + call.second + call.third)) world' := by
  refine (h.elapse _).serve ?_ ?_ hperform
  · simp only [World.elapse]
    omega
  · simp only [World.elapse]
    omega

theorem Coherent.after (h : Coherent world) (call : Call) : Coherent (world.after call) := by
  rw [World.after]
  cases hperform : world.perform call with
  | none => exact h
  | some result =>
    rcases h.perform hperform with hsec | hcancels
    · exact (h.elapse _).section hsec
    · exact (h.elapse _).cancels hcancels

theorem Later.refl (world : World) : Later world world :=
  ⟨le_rfl, .refl _, fun _ h => h⟩

theorem Later.trans (h : Later world world') (h' : Later world' world'') : Later world world'' :=
  ⟨h.clock.trans h'.clock, h.forward.trans h'.forward,
    fun token hcanc => h'.cancelled token (h.cancelled token hcanc)⟩

theorem Coherent.later_after (h : Coherent world) (call : Call) :
    Later world (world.after call) := by
  rw [World.after]
  cases hperform : world.perform call with
  | none => exact .refl world
  | some result =>
    rcases h.perform hperform with hsec | ⟨_, token, _, _, heq⟩
    · exact ⟨(Nat.le_add_right _ _).trans hsec.clock.ge, hsec.moves.forward,
        fun token hcanc => (hsec.tokens token).trans hcanc⟩
    · have hst : result.2.state = world.state := by
        rw [heq]
        cases token <;> rfl
      have hclock : world.clock ≤ result.2.clock := by
        rw [heq]
        exact Nat.le_add_right _ _
      refine ⟨hclock, hst ▸ .refl _, fun other hcanc => ?_⟩
      change result.2.shared.isCancelled other = true
      rw [heq]
      exact isCancelled_cancelToken_of hcanc

/-- Every world that is reached is coherent. -/
theorem coherent_run (supervision : Supervision) (calls : List Call) :
    Coherent (.run supervision calls) := by
  induction calls using List.reverseRecOn with
  | nil => exact coherent_new supervision
  | append_singleton calls call ih =>
    rw [World.run_append]
    exact ih.after call

/-- A world moves forward along every run. -/
theorem Coherent.later_foldl (h : Coherent world) (calls : List Call) :
    Later world (calls.foldl .after world) := by
  induction calls generalizing world with
  | nil => exact .refl world
  | cons call calls ih => exact (h.later_after call).trans (ih (h.after call))

end Runs

section Machine

/-- What a caller needs for its call. -/
def World.Holds (world : World) : Request → Prop
  | .acknowledge token => token ∈ world.startTokens
  | .finishFinite admission => admission ∈ world.active
  | .cancelNext call => ∃ token tokens, world.due[call]? = some (token :: tokens)
  | _ => True

/-- What a served call shows about the world in which it was made. -/
structure Justified (world : World) (call : Call) (answer : Answer) (world' : World) : Prop where
  entered : world.state.readiness ≠ .ready → world'.state.readiness = .ready →
    world.state.Entered (world.clock + call.first) world'.state
  finite : ∀ ancestor queue admission, call.request = .admitFinite ancestor queue →
    answer = .finite (.ok admission) →
    world.state.forced = false ∧ world.state.failed = false ∧ queue = .open ∧
      (∀ parent, ancestor = some parent → parent ∈ world.active) ∧
      world.state.driverStarted = true ∧ (ancestor = none → world.state.readiness = .ready)
  periodic : ∀ role graceful forcedAt, call.request = .admitPeriodic role graceful →
    answer = .periodic (.admitted forcedAt) →
    world.state.forced = false ∧ world.state.driverStarted = true ∧
      (role = .support → world.state.supportClosed = false) ∧
      (role = .ordinary → world.state.readiness < .draining ∧ world.state.failed = false) ∧
      ∀ instant, forcedAt = some instant ↔ .draining ≤ world.state.readiness ∧
        instant = AdmissionState.gracefulEnd
          (world.state.stopStarted.getD (world.clock + call.first)) graceful

variable {world world' : World} {call : Call} {answer : Answer}

theorem Coherent.justified (h : Coherent world)
    (hperform : world.perform call = some (answer, world')) :
    Justified world call answer world' := by
  refine ⟨fun hnot hready => ?_, ?_, ?_⟩
  · rcases h.perform hperform with hsec | ⟨_, token, _, _, rfl⟩
    · exact hsec.moves.entered hnot hready
    · have hsame : (world.shared.cancelToken token).admission.readiness =
          world.state.readiness := by
        cases token <;> rfl
      exact absurd (hsame.symm.trans hready) hnot
  · rintro ancestor queue admission hreq rfl
    rw [World.perform, hreq] at hperform
    simp only [World.serve] at hperform
    split at hperform
    · rename_i hcheck
      obtain ⟨hforced, hfailed, hqueue, hflag, hstarted, hready⟩ :=
        AdmissionState.check_eq_ok.mp hcheck
      refine ⟨hforced, hfailed, hqueue, fun parent hparent => ?_, hstarted,
        fun hnone => hready (by rw [hnone]; rfl)⟩
      have hact := hflag _ (congrArg (Option.map _) hparent)
      exact of_decide_eq_true hact
    · simp at hperform
  · rintro role graceful forcedAt hreq rfl
    rw [World.perform, hreq] at hperform
    obtain ⟨hanswer, _⟩ := Prod.mk.inj (Option.some.inj hperform)
    obtain ⟨hforced, hstarted, hsupport, hordinary, rfl⟩ :=
      AdmissionState.admitPeriodic_eq_admitted.mp (Answer.periodic.inj hanswer)
    refine ⟨hforced, hstarted, hsupport, fun hrole => ?_, fun instant => ?_⟩
    · obtain ⟨hclosing, hfailed⟩ := hordinary hrole
      refine ⟨not_le.mp fun hle => ?_, hfailed⟩
      exact Bool.false_ne_true (hclosing.symm.trans (Readiness.isClosing_iff.mpr hle))
    · change (if world.state.readiness.isClosing then _ else _) = some instant ↔ _
      rw [← Readiness.isClosing_iff]
      split_ifs with hclosing
      · rw [Option.some.injEq]
        exact ⟨fun heq => ⟨hclosing, heq.symm⟩, fun heq => heq.2.symm⟩
      · exact iff_of_false nofun fun heq => hclosing heq.1

/-- A caller that holds what it needs is served: no token is unmatched, no counter underflows. -/
theorem Coherent.served (h : Coherent world) (hholds : world.Holds call.request) :
    world.perform call ≠ none := by
  rw [World.perform]
  cases hreq : call.request with
  | acknowledge token =>
    rw [hreq] at hholds
    obtain ⟨pending, hpend⟩ := Nat.exists_eq_add_of_lt (length_pos_of_mem hholds)
    have hcounter : world.state.pendingStartups = 0 + pending + 1 := h.started.trans hpend
    have hmem : token ∈ (world.elapse (call.first + call.second + call.third)).startTokens := hholds
    rw [World.serve, if_pos hmem]
    change (world.state.acknowledgeComponentStart (world.clock + call.first) >>= _) ≠ none
    rw [AdmissionState.acknowledgeComponentStart, hcounter]
    exact some_ne_none _
  | finishFinite admission =>
    rw [hreq] at hholds
    obtain ⟨active, hact⟩ := Nat.exists_eq_add_of_lt (length_pos_of_mem hholds)
    have hcounter : world.state.finiteActive = 0 + active + 1 := h.finite.trans hact
    have hmem : admission ∈ (world.elapse (call.first + call.second + call.third)).active := hholds
    rw [World.serve, if_pos hmem]
    change (world.state.finishFinite >>= _) ≠ none
    rw [AdmissionState.finishFinite, hcounter]
    exact some_ne_none _
  | cancelNext index =>
    rw [hreq] at hholds
    obtain ⟨token, tokens, hdue⟩ := hholds
    have hnext : (world.elapse (call.first + call.second + call.third)).due[index]? =
        some (token :: tokens) := hdue
    rw [World.serve, hnext]
    exact some_ne_none _
  | admitFinite ancestor queue =>
    rw [World.serve]
    split <;> exact some_ne_none _
  | _ => exact some_ne_none _

/-- Readiness and admission obey one forward state machine, whatever the order of the calls. -/
theorem readiness_and_admission_obey_one_machine (supervision : Supervision) (earlier : List Call) :
    Coherent (World.run supervision earlier) ∧
      (∀ later, Later (World.run supervision earlier) (World.run supervision (earlier ++ later))) ∧
      (∀ call, (World.run supervision earlier).Holds call.request →
        (World.run supervision earlier).perform call ≠ none) ∧
      ∀ call answer world',
        (World.run supervision earlier).perform call = some (answer, world') →
          Justified (World.run supervision earlier) call answer world' := by
  have hcoherent := coherent_run supervision earlier
  refine ⟨hcoherent, fun later => ?_, fun _ => hcoherent.served, fun _ _ _ => hcoherent.justified⟩
  rw [World.run_append]
  exact hcoherent.later_foldl later

end Machine

end Batter.Lifecycle
