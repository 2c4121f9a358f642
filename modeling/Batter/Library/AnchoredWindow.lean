import Batter.Library.Runs

/-!
# Anchored windows

A counter of anchored windows starts a window of some length at the first charge
after the previous one has ended, and adds up the costs that are charged within
it.  A window is active while `now < expiresAt`.  Nothing is said about what
charges are made under: every admission carries its own limit and length.

`exists_windowLogs` is the meaning of such a counter.  When every admission fits
into the window that is active at its time, and time does not run backwards, the
admissions fall into windows, one after the other: each window spans the length
it was started with, no admission takes it over its limit, and the next window
does not start before it has ended.
-/

namespace Batter.AnchoredWindow

open Runs List

variable {T : Type} [LinearOrder T]

/-- What was used of a window, and its end. -/
structure Window (T : Type) where
  used : Nat
  expiresAt : T

/-- The window that is active at a time. -/
def active (now : T) : Option (Window T) → Option (Window T) :=
  Option.filter fun window => now < window.expiresAt

theorem active_eq_some {now : T} {window : Option (Window T)} {current : Window T} :
    active now window = some current ↔ window = some current ∧ now < current.expiresAt := by
  simp [active, Option.filter_eq_some_iff]

theorem active_some (now : T) (window : Window T) :
    active now (some window) = if now < window.expiresAt then some window else none := by
  simp [active, Option.filter_some]

variable [Add T]

/-- The window after a charge: the active one, or a new one of this length. -/
def charge (now length : T) (cost : Nat) (window : Option (Window T)) : Window T :=
  match active now window with
  | none => ⟨cost, now + length⟩
  | some current => ⟨current.used + cost, current.expiresAt⟩

theorem charge_of_active
    {now length : T} {cost : Nat} {window : Option (Window T)} {current : Window T}
    (h : active now window = some current) :
    charge now length cost window = ⟨current.used + cost, current.expiresAt⟩ := by
  simp only [charge, h]

theorem charge_of_inactive {now length : T} {cost : Nat} {window : Option (Window T)}
    (h : active now window = none) : charge now length cost window = ⟨cost, now + length⟩ := by
  simp only [charge, h]

/-- The charge fits into what the active window has left. -/
def Fits (now : T) (cost limit : Nat) (window : Option (Window T)) : Prop :=
  ∀ current, active now window = some current → current.used + cost ≤ limit

/-- A charge with the limit and the window length it was made under. -/
structure Admission (T : Type) [LinearOrder T] [Add T] where
  time : T
  cost : Nat
  limit : Nat
  length : T
  cost_le : cost ≤ limit
  length_pos : time < time + length

/-- The counter after some admissions. -/
def after (admissions : List (Admission T)) : Option (Window T) :=
  admissions.foldl
    (fun window admission => some (charge admission.time admission.length admission.cost window))
    none

theorem after_append_singleton (admissions : List (Admission T)) (admission : Admission T) :
    after (admissions ++ [admission]) =
      some (charge admission.time admission.length admission.cost (after admissions)) := by
  simp [after]

/-- The admission fits after the earlier ones and is not before any of them. -/
def Follows (earlier : List (Admission T)) (admission : Admission T) : Prop :=
  Fits admission.time admission.cost admission.limit (after earlier) ∧
    ∀ other ∈ earlier, other.time ≤ admission.time

/-- The admissions of one window, in order. -/
structure WindowLog (T : Type) [LinearOrder T] [Add T] where
  first : Admission T
  rest : List (Admission T)
  within : ∀ admission ∈ first :: rest,
    first.time ≤ admission.time ∧ admission.time < first.time + first.length
  total_le : ∀ earlier admission, earlier ++ [admission] <+: first :: rest →
    (earlier.map Admission.cost).sum + admission.cost ≤ admission.limit

namespace WindowLog

variable (log : WindowLog T)

/-- All admissions of a window. -/
def admissions : List (Admission T) :=
  log.first :: log.rest

/-- The end of a window. -/
def expiresAt : T :=
  log.first.time + log.first.length

/-- The counter at the end of the log. -/
def window : Window T :=
  ⟨(log.admissions.map Admission.cost).sum, log.expiresAt⟩

variable (admission : Admission T)

/-- A window that was just started. -/
def start : WindowLog T where
  first := admission
  rest := []
  within := by
    intro other hother
    obtain rfl := List.mem_singleton.mp hother
    exact ⟨le_rfl, other.length_pos⟩
  total_le := by
    intro earlier other hother
    obtain rfl : earlier = [] :=
      List.length_eq_zero_iff.mp (by simpa using hother.length_le)
    obtain rfl : other = admission := by simpa using hother
    simpa using other.cost_le

/-- One more admission in an active window. -/
def extend (htime : log.first.time ≤ admission.time) (hact : admission.time < log.expiresAt)
    (hfits : log.window.used + admission.cost ≤ admission.limit) : WindowLog T where
  first := log.first
  rest := log.rest ++ [admission]
  within := by
    intro other hother
    rw [← List.cons_append, List.mem_append, List.mem_singleton] at hother
    rcases hother with hother | rfl
    · exact log.within other hother
    · exact ⟨htime, hact⟩
  total_le := by
    intro earlier other hother
    rw [← List.cons_append] at hother
    rcases List.prefix_concat_iff.mp hother with heq | hother
    · obtain ⟨rfl, heq⟩ := List.append_inj' heq rfl
      obtain rfl : other = admission := by simpa using heq
      exact hfits
    · exact log.total_le earlier other hother

theorem window_start :
    (start admission).window = ⟨admission.cost, admission.time + admission.length⟩ := by
  simp [window, start, admissions, expiresAt]

theorem window_extend {admission : Admission T}
    (htime : log.first.time ≤ admission.time) (hact : admission.time < log.expiresAt)
    (hfits : log.window.used + admission.cost ≤ admission.limit) :
    (log.extend admission htime hact hfits).window =
      ⟨log.window.used + admission.cost, log.expiresAt⟩ := by
  simp [window, extend, admissions, expiresAt, Nat.add_assoc]

end WindowLog

/-- Admissions fall into windows that do not overlap. -/
theorem exists_windowLogs {admissions : List (Admission T)} (h : Throughout Follows admissions) :
    ∃ logs : List (WindowLog T), logs.flatMap WindowLog.admissions = admissions ∧
      logs.IsChain (fun earlier later => earlier.expiresAt ≤ later.first.time) ∧
      after admissions = logs.getLast?.map WindowLog.window := by
  induction admissions using List.reverseRecOn with
  | nil => exact ⟨[], rfl, isChain_nil, rfl⟩
  | append_singleton earlier admission ih =>
    obtain ⟨hearlier, hfits, htimes⟩ := throughout_append_singleton.mp h
    obtain ⟨logs, rfl, hchain, hafter⟩ := ih hearlier
    rw [after_append_singleton, hafter]
    rw [hafter] at hfits
    rcases logs.eq_nil_or_concat with rfl | ⟨older, last, rfl⟩
    · exact ⟨[WindowLog.start admission], rfl, isChain_singleton _, rfl⟩
    · rw [concat_eq_append] at *
      rw [getLast?_append_of_ne_nil _ (by simp), getLast?_singleton,
        Option.map_some] at *
      have hchainLast := isChain_append.mp hchain
      by_cases hact : admission.time < last.expiresAt
      · have hcur : active admission.time (some last.window) = some last.window :=
          active_eq_some.mpr ⟨rfl, hact⟩
        have htime : last.first.time ≤ admission.time :=
          htimes last.first (by simp [WindowLog.admissions])
        refine ⟨older ++ [last.extend admission htime hact (hfits _ hcur)], ?_, ?_, ?_⟩
        · simp [WindowLog.admissions, WindowLog.extend]
        · exact isChain_append.mpr ⟨hchainLast.1, isChain_singleton _, by
            simpa [WindowLog.extend] using hchainLast.2.2⟩
        · simp only [charge_of_active hcur, getLast?_append_of_ne_nil _
            (cons_ne_nil _ _), getLast?_singleton, Option.map_some,
            WindowLog.window_extend]
          rfl
      · have hended : active admission.time (some last.window) = none := by
          rw [active_some]
          exact if_neg hact
        refine ⟨older ++ [last] ++ [WindowLog.start admission], ?_, ?_, ?_⟩
        · simp [WindowLog.admissions, WindowLog.start]
        · refine isChain_append.mpr ⟨hchain, isChain_singleton _, ?_⟩
          simpa [WindowLog.start] using not_lt.mp hact
        · simp [charge_of_inactive hended, WindowLog.window_start]

end Batter.AnchoredWindow
