import Batter.Library.AnchoredWindow
import Batter.Runlimit.Memory.Ideal

/-!
# Runlimit memory store: the fixed-window store as anchored windows

The fixed-window store keeps the used quota of a key's window until the window
has expired, and may then overwrite it, prune it or leave it where it is.  The
ideal counter keeps one window per key forever.
`memory_store_refines_anchored_windows` says that the store cannot be told from
such counters except by storage denials, and what follows for the checks it
lets through: those of one key fall into windows that do not overlap, and no
window is charged more than the limit.
-/

namespace Batter.Runlimit

open RustStd Runs AnchoredWindow

namespace MemoryStore

theorem isMillis_clippedMillis {millis : Nat} (h : millis ≤ maxWindowMillis) :
    Delay.IsMillis ⟨clippedMillis millis⟩ millis := by
  rw [clippedMillis_eq (h.trans maxWindowMillis_le_u64Max)]
  rfl

section Window

variable [Sha256]

/-- The anchored window of a key. -/
def anchoredWindow : IdealCounter FixedWindowPolicy (Window Nat) where
  permits check nowMillis window allowance :=
    Fits nowMillis check.cost check.policy.limit.get window ∧
    allowance.capacity = check.policy.limit ∧
    allowance.available = check.policy.limit.get -
      (charge nowMillis check.policy.window.millis check.cost window).used ∧
    allowance.replenishesAfter.IsMillis
      ((charge nowMillis check.policy.window.millis check.cost window).expiresAt - nowMillis)
  refuses check nowMillis window denial :=
    ∃ current, active nowMillis window = some current ∧
      check.policy.limit.get < current.used + check.cost ∧
      denial.capacity = check.policy.limit ∧
      denial.retryAfter.IsMillis (current.expiresAt - nowMillis)
  charge check nowMillis window :=
    charge nowMillis check.policy.window.millis check.cost window
  mayFail _ _ _ := False

/-- The active entry of a key is its active window. -/
def Shows (since : Nat) (entries : Nat → Option (Entry × Nat)) (window : Option (Window Nat)) :
    Prop :=
  ∀ t, since ≤ t →
    entries t = (active t window).map fun current => (⟨current.used⟩, current.expiresAt)

variable {check : Check FixedWindowPolicy} {now : Nat}
variable {entries : Nat → Option (Entry × Nat)} {window : Option (Window Nat)}

/-- A denial is the window's. -/
theorem Shows.refuses {denial : QuotaDenial} (h : Shows now entries window)
    (hcur : Current now (entries now))
    (hjudge : windowMeter.judge check now (entries now) = some (.deny denial)) :
    anchoredWindow.refuses check now window denial := by
  have hshown := h now le_rfl
  cases hact : active now window with
  | none =>
    rw [hshown, hact] at hjudge
    simp [windowMeter, windowJudge] at hjudge
  | some current =>
    rw [hact, Option.map_some] at hshown
    have hbounds := hcur _ hshown
    have hcost := check.cost_pos
    rw [hshown] at hjudge
    simp only [windowMeter, windowJudge, Option.some.injEq] at hjudge
    split_ifs at hjudge with hover
    cases hjudge
    refine ⟨current, hact, by omega, rfl, isMillis_clippedMillis ?_⟩
    dsimp only at hbounds ⊢
    omega

/-- An allowance is the window's, and the stored entry is the window after it. -/
theorem Shows.permits {grant : Grant Entry} (h : Shows now entries window)
    (hcur : Current now (entries now))
    (hjudge : windowMeter.judge check now (entries now) = some (.allow grant)) :
    anchoredWindow.permits check now window grant.allowance ∧
      Shows now
        (fun t => if grant.expiresAtMillis > t then some (grant.value, grant.expiresAtMillis)
          else none)
        (some (anchoredWindow.charge check now window)) := by
  have hshown := h now le_rfl
  cases hact : active now window with
  | none =>
    rw [hshown, hact] at hjudge
    cases hjudge
    have hcharge : charge now check.policy.window.millis check.cost window =
        ⟨check.cost, now + check.policy.window.millis⟩ := charge_of_inactive hact
    refine ⟨⟨?_, rfl, ?_, ?_⟩, ?_⟩
    · intro current hsome
      rw [hact] at hsome
      cases hsome
    · rw [hcharge]
    · rw [hcharge, Nat.add_sub_cancel_left]
      exact isMillis_clippedMillis check.policy.window.le_maxWindow
    · intro t _
      simp only [anchoredWindow, hcharge, active_some, gt_iff_lt]
      split_ifs <;> rfl
  | some current =>
    rw [hact, Option.map_some] at hshown
    have hbounds := hcur _ hshown
    have hcharge : charge now check.policy.window.millis check.cost window =
        ⟨current.used + check.cost, current.expiresAt⟩ := charge_of_active hact
    rw [hshown] at hjudge
    simp only [windowMeter, windowJudge, Option.some.injEq] at hjudge
    split_ifs at hjudge with hover
    cases hjudge
    have hcost := check.cost_pos
    dsimp only at hbounds
    refine ⟨⟨?_, rfl, ?_, ?_⟩, ?_⟩
    · intro other hsome
      rw [hact] at hsome
      cases hsome
      omega
    · rw [hcharge]
      exact Nat.sub_sub _ _ _
    · rw [hcharge]
      exact isMillis_clippedMillis (by omega)
    · intro t _
      simp only [anchoredWindow, hcharge, active_some, gt_iff_lt]
      split_ifs <;> rfl

/-- Active entries represent anchored windows. -/
def representsAnchoredWindow (policies : FixedWindowPolicy → Prop) :
    Represents windowMeter anchoredWindow policies where
  agrees _ := Shows
  initially _ _ _ := rfl
  later := by
    intro key since since' entries entries' window hle heq h t ht
    rw [heq t ht]
    exact h t (hle.trans ht)
  fails := fun _ _ h => absurd h (Option.some_ne_none _)
  denies := fun _ h hcur hjudge => h.refuses hcur hjudge
  allows := fun _ h hcur hjudge => h.permits hcur hjudge

/-- A check that was let through, as an admission to a window. -/
def admissionOf (check : Check FixedWindowPolicy) (nowMillis : Nat) : Admission Nat where
  time := nowMillis
  cost := check.cost
  limit := check.policy.limit.get
  length := check.policy.window.millis
  cost_le := check.cost_le
  length_pos := Nat.lt_add_of_pos_right check.policy.window.pos

/-- The admissions of a key in a run. -/
def admissions {CheckError BatchError : Type} (key : CounterKey)
    (events : List (Event FixedWindowPolicy CheckError BatchError)) : List (Admission Nat) :=
  events.flatMap fun event => (event.charged.filter fun check => check.counterKey = key).map
    fun check => admissionOf check event.nowMillis

end Window

section Log

variable [Sha256] {config : MemoryStoreConfig} {CheckError BatchError : Type}

/-- The ideal window of a key is the one that its admissions lead to. -/
structure Logged (events : List (Event FixedWindowPolicy CheckError BatchError))
    (state : IdealState (Window Nat)) (key : CounterKey) : Prop where
  counter_eq : (state key).counter = after (admissions key events)
  admissible : Throughout Follows (admissions key events)
  time_le : ∀ admission ∈ admissions key events, admission.time ≤ (state key).clock

variable {events : List (Event FixedWindowPolicy CheckError BatchError)}
variable {event : Event FixedWindowPolicy CheckError BatchError}
variable {state state' : IdealState (Window Nat)} {key : CounterKey}

theorem Logged.of_not_charged (h : Logged events state key)
    (hkey : key ∉ event.charged.map Check.counterKey)
    (hcounter : (state' key).counter = (state key).counter)
    (hclock : (state key).clock ≤ (state' key).clock) : Logged (events ++ [event]) state' key := by
  have hnone : event.charged.filter (fun check => check.counterKey = key) = [] := by
    rw [List.filter_eq_nil_iff]
    intro check hcheck
    simpa using fun heq => hkey (List.mem_map.mpr ⟨check, hcheck, heq⟩)
  have hsame : admissions key (events ++ [event]) = admissions key events := by
    simp [admissions, hnone]
  constructor
  · rw [hsame, hcounter, h.counter_eq]
  · rw [hsame]
    exact h.admissible
  · rw [hsame]
    exact fun admission hin => (h.time_le admission hin).trans hclock

theorem Logged.of_charged {check : Check FixedWindowPolicy}
    (h : Logged events state check.counterKey) (hkeys : (event.charged.map Check.counterKey).Nodup)
    (hin : check ∈ event.charged)
    (hfits : Fits event.nowMillis check.cost check.policy.limit.get
      (state check.counterKey).counter)
    (hclock : (state check.counterKey).clock ≤ event.nowMillis)
    (hcharged : state' check.counterKey = ⟨event.nowMillis,
      some (anchoredWindow.charge check event.nowMillis (state check.counterKey).counter)⟩) :
    Logged (events ++ [event]) state' check.counterKey := by
  have hmore : admissions check.counterKey (events ++ [event]) =
      admissions check.counterKey events ++ [admissionOf check event.nowMillis] := by
    simp [admissions, filter_counterKey_eq_singleton hkeys hin]
  constructor
  · rw [hmore, after_append_singleton, hcharged, ← h.counter_eq]
    rfl
  · rw [hmore, throughout_append_singleton]
    refine ⟨h.admissible, ?_, fun other hother => (h.time_le other hother).trans hclock⟩
    rw [← h.counter_eq]
    exact hfits
  · rw [hmore, hcharged]
    intro admission hadmission
    rcases List.mem_append.mp hadmission with hold | hnew
    · exact (h.time_le admission hold).trans hclock
    · rw [List.mem_singleton.mp hnew]
      exact le_rfl

/-- A step of the ideal store extends the log of every key. -/
theorem Logged.step (h : ∀ key, Logged events state key)
    (hstep : IdealStep anchoredWindow config state event state') (key : CounterKey) :
    Logged (events ++ [event]) state' key := by
  rcases hstep.key_cases key with
    ⟨hout, hcounter, hclock⟩ | ⟨check, hin, rfl, hkeys, hclock, ⟨allowance, hpermits⟩, hcharged⟩
  · exact (h key).of_not_charged hout hcounter hclock
  · exact (h check.counterKey).of_charged hkeys hin hpermits.1 hclock hcharged

/-- A run of the ideal store from its initial state logs every key. -/
theorem logged_of_run (hrun : Run (IdealStep anchoredWindow config) .initial events state)
    (key : CounterKey) : Logged events state key := by
  have hinit : ∀ key, Logged ([] : List (Event FixedWindowPolicy CheckError BatchError))
      .initial key := fun _ => ⟨rfl, throughout_nil, by simp [admissions]⟩
  exact hrun.invariant_labels (fun events state => ∀ key, Logged events state key)
    (fun _ _ _ _ h hstep => .step h hstep) hinit key

end Log

end MemoryStore

/-- Every run of the fixed-window store is a run of ideal anchored windows, one
for each counter key.  The admissions of a key fall into windows: each takes no
more than the limit, and none starts before the one before it has ended. -/
theorem memory_store_refines_anchored_windows [Sha256] (config : MemoryStoreConfig)
    (calls : List (Call FixedWindowPolicy)) :
    ∃ events store,
      execute (MemoryStore.limiter config).perform (MemoryStore.build config) calls =
        .ok (events, store) ∧
      (∃ windows, Run (IdealStep MemoryStore.anchoredWindow config) IdealState.initial
        events windows) ∧
      ∀ key, ∃ logs : List (WindowLog Nat),
        logs.flatMap WindowLog.admissions = MemoryStore.admissions key events ∧
        logs.IsChain fun earlier later =>
          earlier.first.time + earlier.first.length ≤ later.first.time := by
  obtain ⟨events, store, hexecute, windows, hrun⟩ := (MemoryStore.limiter config).refines
    (MemoryStore.representsAnchoredWindow (UsedIn calls))
  refine ⟨events, store, hexecute, ⟨windows, hrun⟩, fun key => ?_⟩
  obtain ⟨logs, hflat, hchain, -⟩ :=
    exists_windowLogs (MemoryStore.logged_of_run hrun key).admissible
  exact ⟨logs, hflat, hchain⟩

end Batter.Runlimit
