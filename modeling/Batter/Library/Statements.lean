import Batter.Library.Fallible

/-!
# Statements of a transaction

A function that runs statements in an open transaction returns a value or an
error, and in both cases leaves the transaction in the state its statements
reached.  These are the computations of `EStateM`.  `bind_eq_ok` takes a
successful sequence apart, `bind_of_ok` and `bind_of_error` run one forward.

`Moves` says what a successful computation does to the state.  A relation that
is reflexive and transitive passes through sequences and loops.
-/

namespace Batter.Statements

open List

variable {σ ε α β : Type} {a : α} {b : β} {s t r : σ} {x : EStateM ε σ α}

section

variable {ε' : Type}
variable {f : σ → Except ε α}

theorem bind_eq_ok {f : α → EStateM ε σ β} :
    (x >>= f) s = .ok b t ↔ ∃ a r, x s = .ok a r ∧ f a r = .ok b t := by
  change EStateM.bind x f s = _ ↔ _
  unfold EStateM.bind
  cases x s <;> simp

theorem bind_of_ok (h : x s = .ok a r) (f : α → EStateM ε σ β) : (x >>= f) s = f a r := by
  change EStateM.bind x f s = _
  unfold EStateM.bind
  rw [h]

theorem bind_of_error {e : ε} (h : x s = .error e r) (f : α → EStateM ε σ β) :
    (x >>= f) s = .error e r := by
  change EStateM.bind x f s = _
  unfold EStateM.bind
  rw [h]

theorem pure_eq_ok {b : α} : (pure a : EStateM ε σ α) s = .ok b t ↔ a = b ∧ s = t := by
  change EStateM.pure a s = _ ↔ _
  simp [EStateM.pure]

/-- A read of the state that can fail. -/
def reads (f : σ → Except ε α) : EStateM ε σ α := fun s =>
  match f s with
  | .ok a => .ok a s
  | .error e => .error e s

/-- A statement that returns the next state. -/
def writes (f : σ → Except ε σ) : EStateM ε σ Unit := fun s =>
  match f s with
  | .ok t => .ok () t
  | .error e => .error e s

theorem reads_eq_ok : reads f s = .ok a t ↔ f s = .ok a ∧ s = t := by
  unfold reads
  cases f s <;> simp

theorem reads_of_ok (h : f s = .ok a) : reads f s = .ok a s :=
  reads_eq_ok.mpr ⟨h, rfl⟩

theorem writes_eq_ok {f : σ → Except ε σ} {u : Unit} : writes f s = .ok u t ↔ f s = .ok t := by
  unfold writes
  cases f s <;> simp

end

section Moves

variable {R : σ → σ → Prop}

/-- A successful computation moves the state along a relation. -/
def Moves (R : σ → σ → Prop) (x : EStateM ε σ α) : Prop :=
  ∀ s a t, x s = .ok a t → R s t

theorem Moves.bind {f : α → EStateM ε σ β} (htrans : ∀ {s t u}, R s t → R t u → R s u)
    (hx : Moves R x) (hf : ∀ a, Moves R (f a)) : Moves R (x >>= f) := by
  intro s b u h
  obtain ⟨a, t, hfirst, hsecond⟩ := bind_eq_ok.mp h
  exact htrans (hx s a t hfirst) (hf a t b u hsecond)

theorem Moves.pure (hrefl : ∀ s, R s s) (a : α) : Moves R (pure a : EStateM ε σ α) := by
  intro s b t h
  exact (pure_eq_ok.mp h).2 ▸ hrefl s

theorem Moves.reads (hrefl : ∀ s, R s s) (f : σ → Except ε α) : Moves R (reads f) := by
  intro s a t h
  exact (reads_eq_ok.mp h).2 ▸ hrefl s

variable {f : β → α → EStateM ε σ β} {l : List α}

theorem Moves.foldlM (hrefl : ∀ s, R s s) (htrans : ∀ {s t u}, R s t → R t u → R s u)
    (hf : ∀ b, ∀ a ∈ l, Moves R (f b a)) (b : β) : Moves R (l.foldlM f b) := by
  induction l generalizing b with
  | nil =>
    exact .pure hrefl b
  | cons a rest ih =>
    rw [foldlM_cons]
    exact .bind htrans (hf b a (mem_cons_self ..))
      fun b' => ih (fun b a ha => hf b a (mem_cons_of_mem _ ha)) b'

theorem Moves.forM {f : α → EStateM ε σ Unit} (hrefl : ∀ s, R s s)
    (htrans : ∀ {s t u}, R s t → R t u → R s u) (hf : ∀ a ∈ l, Moves R (f a)) :
    Moves R (l.forM f) := by
  induction l with
  | nil =>
    exact .pure hrefl ()
  | cons a rest ih =>
    change Moves R (f a >>= fun _ => rest.forM f)
    exact .bind htrans (hf a (mem_cons_self ..))
      fun _ => ih fun a ha => hf a (mem_cons_of_mem _ ha)

/-- What one round of a loop establishes and the other rounds keep holds of
every element at the end. -/
theorem foldlM_establishes {P : α → σ → Prop}
    (hkeeps : ∀ b, ∀ a ∈ l, ∀ a', Moves (fun s t => P a' s → P a' t) (f b a))
    (hround : ∀ b, ∀ a ∈ l, ∀ s b' t, f b a s = .ok b' t → P a t) {b' : β}
    (h : l.foldlM f b s = .ok b' t) : ∀ a ∈ l, P a t := by
  induction l generalizing b s with
  | nil =>
    intro a ha
    exact absurd ha not_mem_nil
  | cons first rest ih =>
    rw [foldlM_cons] at h
    obtain ⟨next, r, hfirst, hrest⟩ := bind_eq_ok.mp h
    intro a ha
    rcases mem_cons.mp ha with rfl | ha
    · have hend : Moves (fun s t => P a s → P a t) (rest.foldlM f next) :=
        .foldlM (R := fun s t => P a s → P a t) (fun _ h => h)
          (fun h h' hp => h' (h hp))
          (fun b a' ha' => hkeeps b a' (mem_cons_of_mem _ ha') a) next
      exact hend r b' t hrest (hround b a (mem_cons_self ..) s next r hfirst)
    · exact ih (fun b a ha => hkeeps b a (mem_cons_of_mem _ ha))
        (fun b a ha => hround b a (mem_cons_of_mem _ ha)) hrest a ha

end Moves

end Batter.Statements
