import Batter.Library.Runs

/-!
# Transactions that lock before they read

Any number of transactions run against one database.  A transaction reads what
is committed, takes exclusive locks as it goes and keeps them to its end, holds
its own writes back, and either ends, which commits them and releases its locks,
or rolls back.  A step may also take a lock only if nobody holds it, and go on
without it otherwise; such a step never waits.

A `Discipline` is what makes this serial.  It names what a transaction knows of
the committed database while it holds some locks (`Knows`), and what it relies
on from all others (`Rely`).  A transaction that ends may only change what its
own locks cover.  Then what a transaction knows stays true until it ends, so it
acts as if it ran alone at that moment (`Discipline.serial`).  Locks that are
waited for in increasing order never close a circle of waiting transactions
(`Discipline.waitsFor_acyclic`), and some transaction can always go on
(`Discipline.exists_not_waiting`).
-/

namespace Batter.Locking

open Runs List Function

variable {t u : Nat}

/-- The steps of the transactions of a database: `R` are the locks, `D` the
committed databases, `X` the states of one transaction and `E` what it reports
at its end. -/
structure Protocol (R D X E : Type) where
  /-- The states in which a transaction begins. -/
  Start : X → Prop
  /-- A step that needs some locks and waits for them. -/
  Advance : D → X → List R → X → Prop
  /-- A step that takes a lock which nobody holds. -/
  Skip : D → X → R → X → Prop
  /-- The end of a transaction, with the database that it commits. -/
  Finish : D → X → E → D → Prop

/-- A database with its lock table and its transactions. -/
structure Sys (R D X : Type) where
  db : D
  locks : R → Option Nat
  txs : Nat → Option X
  next : Nat

/-- A database that nobody uses. -/
def Sys.initial {R D X : Type} (db : D) : Sys R D X :=
  ⟨db, fun _ => none, fun _ => none, 0⟩

variable {R D X E : Type}

/-- The locks that a transaction holds. -/
def Sys.held (sys : Sys R D X) (t : Nat) : Set R :=
  {r | sys.locks r = some t}

/-- The lock table after a transaction has ended. -/
def release (locks : R → Option Nat) (t : Nat) : R → Option Nat :=
  fun r => if locks r = some t then none else locks r

/-- The end of a transaction with some committed database. -/
def Sys.close (sys : Sys R D X) (t : Nat) (db : D) : Sys R D X :=
  ⟨db, release sys.locks t, Function.update sys.txs t none, sys.next⟩

/-- What holds of a reachable system. -/
structure Consistent (Good : D → Prop) (Knows : D → Set R → X → Prop) (sys : Sys R D X) : Prop where
  good : Good sys.db
  knows : ∀ t x, sys.txs t = some x → Knows sys.db (sys.held t) x
  holder : ∀ r t, sys.locks r = some t → sys.txs t ≠ none
  fresh : ∀ t, sys.next ≤ t → sys.txs t = none

variable {Good : D → Prop} {Knows : D → Set R → X → Prop}

theorem held_disjoint (sys : Sys R D X) (h : t ≠ u) : Disjoint (sys.held t) (sys.held u) := by
  rw [Set.disjoint_left]
  intro r ht hu
  exact h (Option.some.inj (ht.symm.trans hu))

theorem held_empty {sys : Sys R D X} (h : Consistent Good Knows sys) (ht : sys.txs t = none) :
    sys.held t = ∅ := by
  rw [Set.eq_empty_iff_forall_notMem]
  exact fun r hr => h.holder r t hr ht

theorem Consistent.initial {db : D} (hgood : Good db) :
    Consistent Good Knows (.initial (R := R) db) :=
  ⟨hgood, by simp [Sys.initial], by simp [Sys.initial], by simp [Sys.initial]⟩

theorem held_close (sys : Sys R D X) (t : Nat) (db : D) (u : Nat) :
    (sys.close t db).held u = if u = t then ∅ else sys.held u := by
  ext r
  by_cases hut : u = t
  · subst hut
    simp [Sys.held, Sys.close, release]
  · by_cases hr : sys.locks r = some t
    · simp [Sys.held, Sys.close, release, hr, hut, Ne.symm hut]
    · simp [Sys.held, Sys.close, release, hr, hut]

/-- The end of a transaction keeps what the others know. -/
theorem Consistent.closed {sys : Sys R D X} {db : D} (h : Consistent Good Knows sys)
    (hgood : Good db) (hothers : ∀ u x, u ≠ t → sys.txs u = some x → Knows db (sys.held u) x) :
    Consistent Good Knows (sys.close t db) := by
  refine ⟨hgood, ?_, ?_, ?_⟩
  · intro u x hx
    by_cases hut : u = t
    · simp [Sys.close, hut] at hx
    · rw [held_close, if_neg hut]
      exact hothers u x hut (by simpa [Sys.close, update_of_ne hut] using hx)
  · intro r u hr
    have hmem := (held_close sys t db u).subset hr
    by_cases hut : u = t
    · simp [hut] at hmem
    · rw [if_neg hut] at hmem
      simpa [Sys.close, update_of_ne hut] using h.holder r u hmem
  · intro u hu
    by_cases hut : u = t
    · simp [Sys.close, hut]
    · simpa [Sys.close, update_of_ne hut] using h.fresh u hu

section Waiting

/-- A transaction has a step that needs a lock of another one. -/
def WaitsFor (P : Protocol R D X E) (sys : Sys R D X) (t u : Nat) : Prop :=
  ∃ x granted x' r, sys.txs t = some x ∧ P.Advance sys.db x granted x' ∧ r ∈ granted ∧
    sys.locks r = some u ∧ u ≠ t

/-- The locks that are still awaited, in the order in which they will be taken,
are above those that are held. -/
structure InOrder [Preorder R] (held : Set R) (awaited : List R) : Prop where
  increasing : awaited.Pairwise (· < ·)
  above : ∀ r ∈ held, ∀ r' ∈ awaited, r < r'

namespace InOrder

variable [Preorder R] {held : Set R} {r : R} {awaited : List R}

/-- The next lock was granted. -/
theorem granted (h : InOrder held (r :: awaited)) : InOrder (held ∪ {r' | r' ∈ [r]}) awaited := by
  obtain ⟨hhead, htail⟩ := pairwise_cons.mp h.increasing
  refine ⟨htail, ?_⟩
  rintro a (ha | ha) b hb
  · exact h.above a ha b (mem_cons_of_mem r hb)
  · rw [Set.mem_ofPred_eq, mem_singleton] at ha
    exact ha ▸ hhead b hb

/-- The next lock turned out not to be needed. -/
theorem dropped (h : InOrder held (r :: awaited)) : InOrder held awaited :=
  ⟨(pairwise_cons.mp h.increasing).2,
    fun a ha b hb => h.above a ha b (mem_cons_of_mem r hb)⟩

/-- Only some of the awaited locks are needed. -/
theorem narrowed {needed : List R} (h : InOrder held awaited)
    (hincr : needed.Pairwise (· < ·)) (hsubset : ∀ r ∈ needed, r ∈ awaited) : InOrder held needed :=
  ⟨hincr, fun a ha b hb => h.above a ha b (hsubset b hb)⟩

theorem nil : InOrder held [] :=
  ⟨.nil, by simp⟩

end InOrder

/-- A list was worked through up to its remaining part. -/
def Visited {α : Type} (all remaining : List α) (P : α → Prop) : Prop :=
  ∃ visited, all = visited ++ remaining ∧ ∀ a ∈ visited, P a

namespace Visited

variable {α : Type} {P Q : α → Prop} {all remaining : List α} {a : α}

theorem start (all : List α) (P : α → Prop) : Visited all all P :=
  ⟨[], rfl, by simp⟩

theorem imp (h : Visited all remaining P) (himp : ∀ b ∈ all, P b → Q b) :
    Visited all remaining Q := by
  obtain ⟨visited, rfl, hvisited⟩ := h
  exact ⟨visited, rfl, fun b hb => himp b (mem_append_left _ hb) (hvisited b hb)⟩

/-- The next element was visited. -/
theorem next (h : Visited all (a :: remaining) P) (ha : P a) : Visited all remaining P := by
  obtain ⟨visited, rfl, hvisited⟩ := h
  refine ⟨visited ++ [a], by simp, fun b hb => ?_⟩
  rcases mem_append.mp hb with hb | hb
  · exact hvisited b hb
  · exact mem_singleton.mp hb ▸ ha

/-- All elements were visited. -/
theorem forall_mem (h : Visited all [] P) : ∀ b ∈ all, P b := by
  obtain ⟨visited, rfl, hvisited⟩ := h
  simpa using hvisited

end Visited

/-- What keeps the transactions of a protocol apart. -/
structure Discipline (P : Protocol R D X E) [Preorder R] (Good : D → Prop)
    (Knows : D → Set R → X → Prop) (Rely : Set R → D → D → Prop) : Prop where
  start : ∀ db x, P.Start x → Knows db ∅ x
  advance : ∀ db held x granted x', Knows db held x → P.Advance db x granted x' →
    Knows db (held ∪ {r | r ∈ granted}) x'
  skip : ∀ db held x r x', Knows db held x → P.Skip db x r x' →
    Knows db (held ∪ {r' | r' ∈ [r]}) x'
  stable : ∀ db db' held x, Knows db held x → Rely held db db' → Knows db' held x
  good : ∀ db held x event db', Good db → Knows db held x → P.Finish db x event db' → Good db'
  keeps : ∀ db held x event db', Knows db held x → P.Finish db x event db' →
    ∀ other, Disjoint held other → Rely other db db'
  ordered : ∀ db held x other y granted x' r, Knows db held x → Knows db other y →
    Disjoint held other → P.Advance db x granted x' → r ∈ granted → r ∈ other →
    ∀ r' ∈ held, r' < r

variable {P : Protocol R D X E} [Preorder R] {Rely : Set R → D → D → Prop}

namespace Discipline

variable (discipline : Discipline P Good Knows Rely)
include discipline

/-- Along a path of waiting transactions the awaited locks increase. -/
theorem exists_lock_of_transGen {sys : Sys R D X} (h : Consistent Good Knows sys)
    (hpath : Relation.TransGen (WaitsFor P sys) t u) :
    ∃ r ∈ sys.held u, ∀ r' ∈ sys.held t, r' < r := by
  have hedge : ∀ {t u : Nat}, WaitsFor P sys t u →
      ∃ r ∈ sys.held u, ∀ r' ∈ sys.held t, r' < r := by
    rintro t u ⟨x, granted, x', r, hx, hadvance, hr, hlock, hne⟩
    obtain ⟨y, hy⟩ := Option.ne_none_iff_exists'.mp (h.holder r u hlock)
    exact ⟨r, hlock, discipline.ordered _ _ _ _ _ _ _ r (h.knows t x hx) (h.knows u y hy)
      (held_disjoint sys hne.symm) hadvance hr hlock⟩
  induction hpath with
  | single hwaits => exact hedge hwaits
  | tail _ hwaits ih =>
    obtain ⟨r, hr, hlt⟩ := ih
    obtain ⟨r', hr', hlt'⟩ := hedge hwaits
    exact ⟨r', hr', fun r'' hr'' => (hlt r'' hr'').trans (hlt' r hr)⟩

/-- No transactions wait for each other in a circle. -/
theorem waitsFor_acyclic {sys : Sys R D X} (h : Consistent Good Knows sys) (t : Nat) :
    ¬ Relation.TransGen (WaitsFor P sys) t t := by
  intro hcycle
  obtain ⟨r, hr, hlt⟩ := discipline.exists_lock_of_transGen h hcycle
  exact lt_irrefl r (hlt r hr)

/-- While there are transactions, one of them waits for nobody. -/
theorem exists_not_waiting {sys : Sys R D X} (h : Consistent Good Knows sys)
    (ht : sys.txs t ≠ none) :
    ∃ u, sys.txs u ≠ none ∧ ∀ v, ¬ WaitsFor P sys u v := by
  have hfinite : {u | sys.txs u ≠ none}.Finite := by
    refine (Set.finite_lt_nat sys.next).subset fun u hu => ?_
    by_contra hle
    exact hu (h.fresh u (not_lt.mp hle))
  have hstrict : IsStrictOrder Nat fun u v => Relation.TransGen (WaitsFor P sys) v u :=
    { irrefl := discipline.waitsFor_acyclic h
      trans := fun _ _ _ hab hbc => hbc.trans hab }
  obtain ⟨u, hu, hmin⟩ := (hfinite.wellFoundedOn
    (r := fun u v => Relation.TransGen (WaitsFor P sys) v u)).has_min
      Set.univ ⟨⟨t, ht⟩, trivial⟩
  refine ⟨u.1, u.2, fun v hwaits => ?_⟩
  obtain ⟨x, granted, x', r, hx, hadvance, hr, hlock, hne⟩ := hwaits
  exact hmin ⟨v, h.holder r v hlock⟩ trivial
    (.single ⟨x, granted, x', r, hx, hadvance, hr, hlock, hne⟩)

end Discipline

end Waiting

section Running

variable [DecidableEq R]

/-- The lock table after some locks were granted. -/
def grant (locks : R → Option Nat) (t : Nat) (granted : List R) : R → Option Nat :=
  fun r => if r ∈ granted then some t else locks r

/-- The locks after some more were granted. -/
theorem held_grant {sys sys' : Sys R D X} {granted : List R}
    (hlocks : sys'.locks = grant sys.locks t granted)
    (hfree : ∀ r ∈ granted, sys.locks r = none ∨ sys.locks r = some t) (u : Nat) :
    sys'.held u = if u = t then sys.held t ∪ {r | r ∈ granted} else sys.held u := by
  ext r
  by_cases hr : r ∈ granted
  · have hu : u ≠ t → sys.locks r ≠ some u := by
      intro hne heq
      rcases hfree r hr with h | h
      · simp [h] at heq
      · exact hne (Option.some.inj (heq.symm.trans h))
    by_cases hut : u = t
    · simp [Sys.held, hlocks, grant, hr, hut]
    · simpa [Sys.held, hlocks, grant, hr, hut, Ne.symm hut] using hu hut
  · by_cases hut : u = t <;> simp [Sys.held, hlocks, grant, hr, hut]

/-- A step that takes locks and keeps the database. -/
theorem Consistent.granted {sys sys' : Sys R D X} {x x' : X} {granted : List R}
    (h : Consistent Good Knows sys) (hx : sys.txs t = some x)
    (hfree : ∀ r ∈ granted, sys.locks r = none ∨ sys.locks r = some t)
    (hsys : sys' = { sys with
      locks := grant sys.locks t granted, txs := Function.update sys.txs t (some x') })
    (hknows : Knows sys.db (sys.held t ∪ {r | r ∈ granted}) x') : Consistent Good Knows sys' := by
  have hlocks : sys'.locks = grant sys.locks t granted := by rw [hsys]
  have hheld := held_grant hlocks hfree
  subst hsys
  refine ⟨h.good, ?_, ?_, ?_⟩
  · intro u y hy
    rw [hheld]
    by_cases hut : u = t
    · subst hut
      obtain rfl : x' = y := by simpa using hy
      simpa using hknows
    · rw [if_neg hut]
      exact h.knows u y (by simpa [update_of_ne hut] using hy)
  · intro r u hr
    have hmem := (hheld u).subset hr
    by_cases hut : u = t
    · simp [hut]
    · rw [if_neg hut] at hmem
      simpa [update_of_ne hut] using h.holder r u hmem
  · intro u hu
    have hut : u ≠ t := by
      rintro rfl
      simp [h.fresh u hu] at hx
    simpa [update_of_ne hut] using h.fresh u hu

/-- One step of one transaction, with what it reports if it ends. -/
inductive Step (P : Protocol R D X E) : Sys R D X → Option E → Sys R D X → Prop
  | start {sys : Sys R D X} {x : X} (hstart : P.Start x) :
      Step P sys none
        { sys with txs := Function.update sys.txs sys.next (some x), next := sys.next + 1 }
  | advance {sys : Sys R D X} {t : Nat} {x x' : X} {granted : List R}
      (hx : sys.txs t = some x) (hadvance : P.Advance sys.db x granted x')
      (hfree : ∀ r ∈ granted, sys.locks r = none ∨ sys.locks r = some t) :
      Step P sys none
        { sys with
          locks := grant sys.locks t granted, txs := Function.update sys.txs t (some x') }
  | skip {sys : Sys R D X} {t : Nat} {x x' : X} {r : R}
      (hx : sys.txs t = some x) (hskip : P.Skip sys.db x r x') (hfree : sys.locks r = none) :
      Step P sys none
        { sys with locks := grant sys.locks t [r], txs := Function.update sys.txs t (some x') }
  | finish {sys : Sys R D X} {t : Nat} {x : X} {event : E} {db : D}
      (hx : sys.txs t = some x) (hfin : P.Finish sys.db x event db) :
      Step P sys (some event) (sys.close t db)
  | rollBack {sys : Sys R D X} {t : Nat} {x : X} (hx : sys.txs t = some x) :
      Step P sys none (sys.close t sys.db)

section Alone

variable {P : Protocol R D X E} (sys : Sys R D X) (t) {x y : X}
  (hsteps : Relation.ReflTransGen (fun x y => ∃ granted, P.Advance sys.db x granted y) x y)
  (hx : sys.txs t = some x) (hlocks : ∀ r, sys.locks r = none ∨ sys.locks r = some t)
include hsteps hx hlocks

/-- A transaction that holds all the locks there are is never blocked. -/
theorem run_alone_steps :
    ∃ events sys', Run (Step P) sys events sys' ∧ events.reduceOption = [] ∧ sys'.db = sys.db ∧
      sys'.txs t = some y ∧ (∀ u, u ≠ t → sys'.txs u = sys.txs u) ∧
      ∀ r, sys'.locks r = none ∨ sys'.locks r = some t := by
  generalize hdb : sys.db = db at hsteps
  induction hsteps using Relation.ReflTransGen.head_induction_on generalizing sys with
  | refl => exact ⟨[], sys, .nil sys, rfl, hdb, hx, fun _ _ => rfl, hlocks⟩
  | @head x x' hstep _ ih =>
    obtain ⟨granted, hadvance⟩ := hstep
    subst hdb
    have hlocks' : ∀ r, grant sys.locks t granted r = none ∨
        grant sys.locks t granted r = some t := by
      intro r
      by_cases hr : r ∈ granted
      · exact Or.inr (if_pos hr)
      · simpa only [grant, if_neg hr] using hlocks r
    have hstep := Step.advance hx hadvance fun r _ => hlocks r
    obtain ⟨events, sys', hrun, hevents, hdb, hy, hothers, hend⟩ :=
      @ih ⟨sys.db, grant sys.locks t granted, Function.update sys.txs t (some x'), sys.next⟩
        (update_self ..) hlocks' rfl
    exact ⟨none :: events, sys', .cons hstep hrun, hevents, hdb, hy,
      fun u hu => (hothers u hu).trans (update_of_ne hu _ _), hend⟩

/-- A transaction that holds all the locks there are gets to its end and leaves none. -/
theorem run_alone {event : E} {db : D} (hfin : P.Finish sys.db y event db) :
    ∃ events sys', Run (Step P) sys events sys' ∧ events.reduceOption = [event] ∧ sys'.db = db ∧
      (∀ u, u ≠ t → sys'.txs u = sys.txs u) ∧ ∀ r, sys'.locks r = none := by
  obtain ⟨events, sys', hrun, hevents, hdb, hy, hothers, hlocks'⟩ :=
    run_alone_steps t sys hsteps hx hlocks
  refine ⟨events ++ [some event], _, hrun.append (.cons (.finish hy (hdb ▸ hfin)) (.nil _)), ?_,
    rfl, fun u hu => (update_of_ne hu _ _).trans (hothers u hu), fun r => ?_⟩
  · rw [reduceOption_append, hevents]
    rfl
  · rcases hlocks' r with h | h <;> simp [Sys.close, release, h]

end Alone

variable {P : Protocol R D X E} [Preorder R] {Rely : Set R → D → D → Prop}

namespace Discipline

variable (discipline : Discipline P Good Knows Rely)
include discipline

/-- One step of any transaction. -/
theorem step {sys sys' : Sys R D X} {event : Option E} (h : Consistent Good Knows sys)
    (hstep : Step P sys event sys') : Consistent Good Knows sys' := by
  cases hstep with
  | @start x hstart =>
    refine ⟨h.good, ?_, ?_, ?_⟩
    · intro t y hy
      by_cases ht : t = sys.next
      · subst ht
        obtain rfl : x = y := by simpa using hy
        have hempty : sys.held sys.next = ∅ := held_empty h (h.fresh _ le_rfl)
        exact hempty ▸ discipline.start sys.db x hstart
      · exact h.knows t y (by simpa [update_of_ne ht] using hy)
    · intro r t hr
      by_cases ht : t = sys.next
      · simp [ht]
      · simpa [update_of_ne ht] using h.holder r t hr
    · intro t ht
      have hne : t ≠ sys.next := by
        simp only at ht
        omega
      simpa [update_of_ne hne] using h.fresh t (by simp only at ht; omega)
  | advance hx hadvance hfree =>
    exact h.granted hx hfree rfl
      (discipline.advance _ _ _ _ _ (h.knows _ _ hx) hadvance)
  | skip hx hskip hfree =>
    refine h.granted hx (fun r hr => Or.inl ?_) rfl
      (discipline.skip _ _ _ _ _ (h.knows _ _ hx) hskip)
    rw [mem_singleton.mp hr, hfree]
  | finish hx hfin =>
    have hknows := h.knows _ _ hx
    refine h.closed (discipline.good _ _ _ _ _ h.good hknows hfin) ?_
    intro u y hu hy
    exact discipline.stable _ _ _ _ (h.knows u y hy)
      (discipline.keeps _ _ _ _ _ hknows hfin _ (held_disjoint sys hu.symm))
  | rollBack hx =>
    exact h.closed h.good fun u y _ hy => h.knows u y hy

/-- Every interleaving keeps what every transaction knows. -/
theorem consistent {db : D} {sys : Sys R D X} {events : List (Option E)} (hgood : Good db)
    (hrun : Run (Step P) (.initial db) events sys) : Consistent Good Knows sys :=
  hrun.invariant (fun _ _ _ h hstep => discipline.step h hstep) (.initial hgood)

/-- Every interleaving acts as the transactions that ended, one at a time. -/
theorem serial {A : Type} {Ideal : A → E → A → Prop} (abs : D → A)
    (hideal : ∀ db held x event db', Good db → Knows db held x → P.Finish db x event db' →
      Ideal (abs db) event (abs db'))
    {sys sys' : Sys R D X} {events : List (Option E)} (h : Consistent Good Knows sys)
    (hrun : Run (Step P) sys events sys') :
    Run Ideal (abs sys.db) events.reduceOption (abs sys'.db) := by
  induction hrun with
  | nil sys => exact .nil _
  | cons hstep hrun ih =>
    have hrest := ih (discipline.step h hstep)
    cases hstep with
    | finish hx hfin =>
      exact .cons (hideal _ _ _ _ _ h.good (h.knows _ _ hx) hfin) hrest
    | _ => exact hrest

end Discipline

end Running

end Batter.Locking
