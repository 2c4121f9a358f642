import Mathlib

/-!
# Machine integers, durations and panics

A small model of what the verified programs use of the Rust standard library.

Unsigned machine integers are natural numbers; the operations below carry the
width that the program's own types give them.  A checked operation returns
nothing when its result leaves the width, a saturating one stops at the
largest value.  `div_ceil` is Mathlib's `⌈/⌉`.

A `Duration` is a number of nanoseconds below the largest one that `u64`
seconds and a sub-second part can express.

A call to `expect` can panic.  The functions that contain one return
`Except Panic`, so that the absence of panics is a statement about them and
not an assumption.
-/

namespace Batter.RustStd

variable {α ε β : Type} {f : α → Except ε β} {x : Except ε α} {l : List α}

/-- Largest value of `u64`. -/
def u64Max : Nat := 2 ^ 64 - 1

/-- Largest value of `u128`. -/
def u128Max : Nat := 2 ^ 128 - 1

/-- Largest value of `usize` on a 64-bit target. -/
def usizeMax : Nat := 2 ^ 64 - 1

/-- Largest value of `i64`. -/
def i64Max : Nat := 2 ^ 63 - 1

section Arithmetic

variable {bound a b c : Nat}

/-- `checked_add` at the width whose largest value is `bound`. -/
def checkedAdd (bound a b : Nat) : Option Nat :=
  if a + b ≤ bound then some (a + b) else none

/-- `checked_mul` at the width whose largest value is `bound`. -/
def checkedMul (bound a b : Nat) : Option Nat :=
  if a * b ≤ bound then some (a * b) else none

/-- `saturating_add` at the width whose largest value is `bound`. -/
def saturatingAdd (bound a b : Nat) : Nat :=
  min (a + b) bound

/-- `saturating_mul` at the width whose largest value is `bound`. -/
def saturatingMul (bound a b : Nat) : Nat :=
  min (a * b) bound

/-- `try_from` into the unsigned width whose largest value is `bound`. -/
def tryFrom (bound a : Nat) : Option Nat :=
  if a ≤ bound then some a else none

theorem checkedAdd_eq_some : checkedAdd bound a b = some c ↔ a + b ≤ bound ∧ c = a + b := by
  unfold checkedAdd
  split_ifs with h
  · simp [h, eq_comm]
  · simp [h]

theorem checkedMul_eq_some : checkedMul bound a b = some c ↔ a * b ≤ bound ∧ c = a * b := by
  unfold checkedMul
  split_ifs with h
  · simp [h, eq_comm]
  · simp [h]

theorem tryFrom_eq_some : tryFrom bound a = some c ↔ a ≤ bound ∧ c = a := by
  unfold tryFrom
  split_ifs with h
  · simp [h, eq_comm]
  · simp [h]

end Arithmetic

/-- A call that unwound: the message of the panic. -/
structure Panic where
  message : String
deriving DecidableEq

/-- `Option::expect`. -/
def expectSome {α : Type} (message : String) : Option α → Except Panic α
  | some a => .ok a
  | none => .error ⟨message⟩

/-- `Result::expect`. -/
def expectOk {ε α : Type} (message : String) : Except ε α → Except Panic α
  | .ok a => .ok a
  | .error _ => .error ⟨message⟩

/-- Indexing into a vector, which panics out of range. -/
def indexVec {α : Type} (v : List α) (i : Nat) : Except Panic α :=
  expectSome "index out of bounds" v[i]?

@[simp] theorem expectSome_some (msg : String) (a : α) :
    expectSome msg (some a) = .ok a :=
  rfl

@[simp] theorem expectOk_ok (msg : String) (a : α) :
    expectOk msg (.ok a : Except ε α) = .ok a :=
  rfl

/-- A sequence of fallible steps succeeds when each of them does. -/
theorem bind_eq_ok {b : β} : (x >>= f) = .ok b ↔ ∃ a, x = .ok a ∧ f a = .ok b := by
  cases x with
  | error e => simp [bind, Except.bind]
  | ok a => simp [bind, Except.bind]

/-- A list of fallible steps succeeds with one result for each. -/
theorem mapM_eq_ok {out : List β} :
    l.mapM f = .ok out ↔ List.Forall₂ (fun a b => f a = .ok b) l out := by
  induction l generalizing out with
  | nil =>
    cases out <;> simp [pure, Except.pure]
  | cons a rest ih =>
    rw [List.mapM_cons, bind_eq_ok]
    cases out with
    | nil => simp [bind_eq_ok, pure, Except.pure]
    | cons b out => simp [bind_eq_ok, pure, Except.pure, ih]

/-- The steps of a list succeed with known results. -/
theorem mapM_map_eq {γ : Type} {f : β → Except ε γ} {g : α → β} {h : α → γ}
    (hok : ∀ a ∈ l, f (g a) = .ok (h a)) : (l.map g).mapM f = .ok (l.map h) :=
  mapM_eq_ok.mpr (List.forall₂_map_left_iff.mpr
    (List.forall₂_map_right_iff.mpr (List.forall₂_same.mpr hok)))

theorem mapM_congr {g : α → Except ε β} (h : ∀ a ∈ l, f a = g a) : l.mapM f = l.mapM g := by
  induction l with
  | nil => rfl
  | cons a rest ih =>
    rw [List.forall_mem_cons] at h
    rw [List.mapM_cons, List.mapM_cons, h.1, ih h.2]

theorem toOption_eq_some {a : α} : x.toOption = some a ↔ x = .ok a := by
  cases x <;> simp [Except.toOption]

theorem toOption_eq_none : x.toOption = none ↔ ∃ e, x = .error e := by
  cases x <;> simp [Except.toOption]

theorem indexVec_eq_ok {v : List α} {i : Nat} {a : α} (h : v[i]? = some a) :
    indexVec v i = .ok a := by
  simp [indexVec, h]

/-- Nanoseconds of the largest `Duration`. -/
def Duration.maxNanos : Nat := u64Max * 10 ^ 9 + 999999999

/-- A span of time, in nanoseconds. -/
structure Duration where
  nanos : Nat
  nanos_le : nanos ≤ Duration.maxNanos
deriving DecidableEq

namespace Duration

def zero : Duration := ⟨0, Nat.zero_le _⟩

/-- `Duration::from_millis`, whose argument is a `u64`. -/
def fromMillis (millis : Nat) (h : millis ≤ u64Max) : Duration :=
  ⟨millis * 10 ^ 6, by unfold maxNanos u64Max at *; omega⟩

variable (d : Duration)

def asMillis : Nat :=
  d.nanos / 10 ^ 6

def isZero : Bool :=
  d.nanos == 0

def subsecNanos : Nat :=
  d.nanos % 10 ^ 9

def saturatingSub (a b : Duration) : Duration :=
  ⟨a.nanos - b.nanos, le_trans (Nat.sub_le _ _) a.nanos_le⟩

/-- Milliseconds of the largest `Duration`. -/
def maxMillis : Nat := maxNanos / 10 ^ 6

theorem asMillis_le : d.asMillis ≤ maxMillis :=
  Nat.div_le_div_right d.nanos_le

end Duration

end Batter.RustStd
