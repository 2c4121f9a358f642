import Batter.Library.RustStd

/-!
# Fallible code with early returns

Code that checks its inputs one by one and returns at the first one that is
wrong is a chain of binds in `Except`.  `rejectIf` is a check, `require` a value
that must be there.  Loops over a list are folds; `foldlM_total` and
`foldlM_of_ok` are the rules for an invariant that speaks about the elements
still to come.  `Avoids` says which errors a computation never returns.
-/

namespace Batter

open RustStd List

variable {cond : Bool} {ε ε' α β κ : Type} {u : Unit} {a : α} {f : α → Except ε β} {b : β}
variable {error : ε} {x : Except ε α} {l : List α} {value : Option α}

/-- `if condition { return Err(error) }`. -/
def rejectIf {ε : Type} (condition : Bool) (error : ε) : Except ε Unit :=
  if condition then .error error else .ok ()

/-- `let Some(value) = value else { return Err(error) }`. -/
def require {ε α : Type} (error : ε) : Option α → Except ε α
  | some value => .ok value
  | none => .error error

/-- `if let Some(value) = value { return Err(error(value)) }`. -/
def rejectSome {ε α : Type} (error : α → ε) : Option α → Except ε Unit
  | some value => .error (error value)
  | none => .ok ()

section

variable {out : List β}
variable {P : List α → β → Prop}

@[simp]
theorem rejectIf_eq_ok : rejectIf cond error = .ok u ↔ cond = false := by
  cases cond <;> simp [rejectIf]

@[simp]
theorem require_eq_ok : require error value = .ok a ↔ value = some a := by
  cases value <;> simp [require]

@[simp]
theorem rejectSome_eq_ok {error : α → ε} : rejectSome error value = .ok u ↔ value = none := by
  cases value <;> simp [rejectSome]

@[simp]
theorem mapError_eq_ok {f : ε → ε'} : x.mapError f = .ok a ↔ x = .ok a := by
  cases x <;> simp [Except.mapError]

@[simp]
theorem pure_eq_ok {b : α} : (pure a : Except ε α) = .ok b ↔ a = b := by
  simp [pure, Except.pure]

@[simp]
theorem throw_eq_ok : (throw error : Except ε α) = .ok a ↔ False := by
  simp [throw, throwThe, MonadExceptOf.throw]

@[simp]
theorem error_eq_ok : (Except.error error : Except ε α) = .ok a ↔ False := by
  simp

theorem exists_unit {p : Unit → Prop} : (∃ u, p u) ↔ p () :=
  ⟨fun ⟨_, h⟩ => h, fun h => ⟨(), h⟩⟩

theorem exists_of_forall₂ {R : α → β → Prop} (h : List.Forall₂ R l out) (ha : a ∈ l) :
    ∃ b ∈ out, R a b := by
  induction h with
  | nil =>
    exact absurd ha not_mem_nil
  | @cons a' b rest out' hfirst _ ih =>
    rcases mem_cons.mp ha with rfl | ha
    · exact ⟨b, mem_cons_self .., hfirst⟩
    · obtain ⟨b', hb', hstep⟩ := ih ha
      exact ⟨b', mem_cons_of_mem _ hb', hstep⟩

theorem exists_of_mapM_ok (h : l.mapM f = .ok out) (ha : a ∈ l) : ∃ b ∈ out, f a = .ok b :=
  exists_of_forall₂ (mapM_eq_ok.mp h) ha

theorem mem_of_mapM_ok (h : l.mapM f = .ok out) (hb : b ∈ out) : ∃ a ∈ l, f a = .ok b :=
  exists_of_forall₂ (.flip (mapM_eq_ok.mp h)) hb

/-- The results of a list of steps keep a key that every step keeps. -/
theorem map_of_mapM_ok (h : l.mapM f = .ok out) {key : α → κ} {key' : β → κ}
    (hkey : ∀ a b, f a = .ok b → key' b = key a) : out.map key' = l.map key := by
  rw [mapM_eq_ok] at h
  induction h with
  | nil =>
    rfl
  | cons hfirst _ ih =>
    rw [map_cons, map_cons, hkey _ _ hfirst, ih]

/-- A loop whose body admits an element or fails, and goes on in one way. -/
theorem foldlM_admits {f : β → α → Except ε β} {P : α → Prop} (next : β → α → β)
    (hf : ∀ b a b', f b a = .ok b' ↔ P a ∧ next b a = b') {b' : β} :
    l.foldlM f b = .ok b' ↔ (∀ a ∈ l, P a) ∧ l.foldl next b = b' := by
  induction l generalizing b with
  | nil =>
    simp
  | cons a rest ih =>
    simp only [foldlM_cons, bind_eq_ok, hf, ih, forall_mem_cons, foldl_cons, and_assoc,
      exists_and_left, exists_eq_left']

/-- A loop that admits an element only if its key is new. -/
theorem foldlM_distinct {f : β → α → Except ε β} {P : α → Prop} (next : β → α → β)
    (seen : β → List κ) (key : α → κ) (hseen : ∀ b a, seen (next b a) = seen b ++ [key a])
    (hf : ∀ b a b', f b a = .ok b' ↔ P a ∧ key a ∉ seen b ∧ next b a = b') {b' : β} :
    l.foldlM f b = .ok b' ↔ (∀ a ∈ l, P a) ∧ (∀ a ∈ l, key a ∉ seen b) ∧ (l.map key).Nodup ∧
      l.foldl next b = b' := by
  induction l generalizing b with
  | nil =>
    simp
  | cons a rest ih =>
    simp only [foldlM_cons, bind_eq_ok, hf, ih, forall_mem_cons, foldl_cons, map_cons,
      nodup_cons, and_assoc, exists_and_left, exists_eq_left', hseen]
    grind

/-- A loop over new keys that keeps nothing but them. -/
theorem foldlM_distinct_keys {f : List κ → α → Except ε (List κ)} {P : α → Prop} (key : α → κ)
    (hf : ∀ seen a seen', f seen a = .ok seen' ↔ P a ∧ key a ∉ seen ∧ seen ++ [key a] = seen')
    {keys : List κ} : l.foldlM f [] = .ok keys ↔
      (∀ a ∈ l, P a) ∧ (l.map key).Nodup ∧ l.map key = keys := by
  rw [foldlM_distinct (fun seen a => seen ++ [key a]) id key (fun _ _ => rfl) hf,
    foldl_append_eq_append, ← flatMap_def, ← map_eq_flatMap]
  simp

/-- A loop that collects elements with distinct keys. -/
theorem foldlM_collect (key : α → κ) {f : List α → α → Except ε (List α)}
    (hf : ∀ done a, key a ∉ done.map key → f done a = .ok (done ++ [a])) {done : List α}
    (hnodup : ((done ++ l).map key).Nodup) : l.foldlM f done = .ok (done ++ l) := by
  induction l generalizing done with
  | nil =>
    rw [append_nil]
    rfl
  | cons a rest ih =>
    have hnew : key a ∉ done.map key := by
      rw [map_append, nodup_append] at hnodup
      intro hmem
      exact hnodup.2.2 _ hmem _ (mem_map_of_mem (mem_cons_self ..)) rfl
    rw [append_cons] at hnodup ⊢
    exact bind_eq_ok.mpr ⟨_, hf done a hnew, ih hnodup⟩

/-- A loop whose body cannot fail under its invariant ends with the invariant. -/
theorem foldlM_total {f : β → α → Except ε β}
    (hstep : ∀ a rest b, P (a :: rest) b → ∃ b', f b a = .ok b' ∧ P rest b') (h : P l b) :
    ∃ b', l.foldlM f b = .ok b' ∧ P [] b' := by
  induction l generalizing b with
  | nil =>
    exact ⟨b, rfl, h⟩
  | cons a rest ih =>
    obtain ⟨next, hnext, hrest⟩ := hstep a rest b h
    obtain ⟨last, hlast, hend⟩ := ih hrest
    refine ⟨last, ?_, hend⟩
    rw [foldlM_cons, bind_eq_ok]
    exact ⟨next, hnext, hlast⟩

/-- A loop that ends without an error ends with its invariant. -/
theorem foldlM_of_ok {f : β → α → Except ε β}
    (hstep : ∀ a rest b b', P (a :: rest) b → f b a = .ok b' → P rest b') {b' : β} (h : P l b)
    (hrun : l.foldlM f b = .ok b') : P [] b' := by
  induction l generalizing b with
  | nil =>
    rw [foldlM_nil, pure_eq_ok] at hrun
    exact hrun ▸ h
  | cons a rest ih =>
    rw [foldlM_cons, bind_eq_ok] at hrun
    obtain ⟨next, hnext, hrest⟩ := hrun
    exact ih (hstep a rest b next h hnext) hrest

end

section Avoids

variable {bad : ε → Prop}

/-- No error of the computation is a bad one. -/
def Avoids (bad : ε → Prop) (x : Except ε α) : Prop :=
  ∀ error, x = .error error → ¬ bad error

theorem avoids_ok (a : α) : Avoids bad (.ok a) :=
  nofun

theorem avoids_pure (a : α) : Avoids bad (pure a) :=
  nofun

theorem avoids_error : Avoids bad (.error error : Except ε α) ↔ ¬ bad error :=
  ⟨fun h => h error rfl, fun h _ heq => Except.error.inj heq ▸ h⟩

theorem avoids_bind : Avoids bad (x >>= f) ↔ Avoids bad x ∧ ∀ a, x = .ok a → Avoids bad (f a) := by
  cases x with
  | ok a =>
    simp [bind, Except.bind, avoids_ok]
  | error error =>
    simp [bind, Except.bind, avoids_error]

theorem avoids_rejectIf : Avoids bad (rejectIf cond error) ↔ (cond = true → ¬ bad error) := by
  cases cond <;> simp [rejectIf, avoids_ok, avoids_error]

theorem avoids_require : Avoids bad (require error value) ↔ (value = none → ¬ bad error) := by
  cases value <;> simp [require, avoids_ok, avoids_error]

theorem avoids_map {f : α → β} : Avoids bad (x.map f) ↔ Avoids bad x := by
  cases x <;> simp [Except.map, avoids_ok, avoids_error]

theorem avoids_mapError {x : Except ε' α} {f : ε' → ε} (h : ∀ error, ¬ bad (f error)) :
    Avoids bad (x.mapError f) := by
  cases x <;> simp [Except.mapError, avoids_ok, avoids_error, h]

/-- A loop avoids an error that its body avoids under its invariant. -/
theorem avoids_foldlM {f : β → α → Except ε β} {P : β → Prop}
    (havoids : ∀ a b, P b → Avoids bad (f b a)) (hstep : ∀ a b b', P b → f b a = .ok b' → P b')
    (h : P b) : Avoids bad (l.foldlM f b) := by
  induction l generalizing b with
  | nil =>
    exact avoids_pure b
  | cons a rest ih =>
    rw [foldlM_cons, avoids_bind]
    exact ⟨havoids a b h, fun next hnext => ih (hstep a b next h hnext)⟩

end Avoids

end Batter
