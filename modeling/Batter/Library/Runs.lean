import Mathlib

/-!
# Runs of transition systems

A machine is a relation between a state, a label and the next state; a label
records what was asked and what was answered.  `Run` is its reflexive and
transitive closure with the labels listed in order.

A program is a function from a state and a request to an answer and a state
that can fail.  `execute` runs it over a list of requests.  The rule used
throughout is `execute_simulation`: when every request succeeds and its label is
a step of another machine from a related state, then every list of requests
succeeds and its labels are a run of that machine.

`Throughout` says that every element of a history is justified by the ones
before it.
-/

namespace Batter.Runs

open List

variable {σ τ L α : Type} {s t u : σ} {labels : List L}

section Relation

variable {Step : σ → L → σ → Prop}

/-- The labels of a run, in order. -/
inductive Run (Step : σ → L → σ → Prop) : σ → List L → σ → Prop
  | nil (s : σ) : Run Step s [] s
  | cons {s t u : σ} {label : L} {labels : List L}
      (hstep : Step s label t) (hrun : Run Step t labels u) :
      Run Step s (label :: labels) u

variable {labels' : List L}

theorem Run.append (h : Run Step s labels t) (h' : Run Step t labels' u) :
    Run Step s (labels ++ labels') u := by
  induction h with
  | nil _ => exact h'
  | cons hstep _ ih => exact .cons hstep (ih h')

/-- A run of two parts passes through a state between them. -/
theorem Run.split (h : Run Step s (labels ++ labels') u) :
    ∃ t, Run Step s labels t ∧ Run Step t labels' u := by
  induction labels generalizing s with
  | nil => exact ⟨s, .nil s, h⟩
  | cons label labels ih =>
    cases h with
    | cons hstep hrun =>
      obtain ⟨t, hleft, hright⟩ := ih hrun
      exact ⟨t, .cons hstep hleft, hright⟩

/-- What every step preserves, every run preserves. -/
theorem Run.invariant {Inv : σ → Prop} (hpreserved : ∀ s label t, Inv s → Step s label t → Inv t)
    (hrun : Run Step s labels t) (hinit : Inv s) : Inv t := by
  induction hrun with
  | nil _ => exact hinit
  | cons hstep _ ih => exact ih (hpreserved _ _ _ hinit hstep)

/-- What every step preserves about the labels so far and the state, every run
preserves. -/
theorem Run.invariant_labels (Inv : List L → σ → Prop)
    (hpreserved : ∀ earlier s label t, Inv earlier s → Step s label t → Inv (earlier ++ [label]) t)
    {earlier : List L} (hrun : Run Step s labels t) (hinit : Inv earlier s) :
    Inv (earlier ++ labels) t := by
  induction hrun generalizing earlier with
  | nil _ => simpa using hinit
  | cons hstep _ ih => simpa using ih (hpreserved _ _ _ _ hinit hstep)

end Relation

section Execution

variable {ε : Type} {step : σ → α → Except ε (L × σ)}

/-- Runs a program over a list of requests and collects the labels. -/
def execute (step : σ → α → Except ε (L × σ)) : σ → List α → Except ε (List L × σ)
  | s, [] => .ok ([], s)
  | s, request :: requests => do
    let first ← step s request
    let rest ← execute step first.2 requests
    pure (first.1 :: rest.1, rest.2)

variable {requests : List α}

theorem execute_cons {req : α} {label : L} (hstep : step s req = .ok (label, t))
    (hrest : execute step t requests = .ok (labels, u)) :
    execute step s (req :: requests) = .ok (label :: labels, u) := by
  simp [execute, hstep, hrest, bind, Except.bind, pure, Except.pure]

/-- Requests that succeed and are steps of another machine make runs of it. -/
theorem execute_simulation {Step : τ → L → τ → Prop} {R : σ → τ → Prop} {Ok : α → Prop}
    (hmatch : ∀ s s' req, R s s' → Ok req →
      ∃ label t, step s req = .ok (label, t) ∧ ∃ t', Step s' label t' ∧ R t t')
    {s' : τ} (hok : ∀ req ∈ requests, Ok req) (hinit : R s s') :
    ∃ labels t, execute step s requests = .ok (labels, t) ∧
      ∃ t', Run Step s' labels t' ∧ R t t' := by
  induction requests generalizing s s' with
  | nil => exact ⟨[], s, rfl, s', .nil s', hinit⟩
  | cons req requests ih =>
    obtain ⟨hfirst, hrest⟩ := forall_mem_cons.mp hok
    obtain ⟨label, t, hstep, t', hstep', hrel⟩ := hmatch s s' req hinit hfirst
    obtain ⟨labels, u, hexec, u', hrun, hrel'⟩ := ih hrest hrel
    exact ⟨label :: labels, u, execute_cons hstep hexec, u', .cons hstep' hrun, hrel'⟩

/-- Requests that succeed and preserve an invariant lead to states that satisfy it. -/
theorem execute_invariant (Inv : σ → Prop)
    (hpreserved : ∀ s req, Inv s → ∃ label t, step s req = .ok (label, t) ∧ Inv t)
    (requests : List α) (hinit : Inv s) :
    ∃ labels t, execute step s requests = .ok (labels, t) ∧ Inv t := by
  induction requests generalizing s with
  | nil => exact ⟨[], s, rfl, hinit⟩
  | cons req requests ih =>
    obtain ⟨label, t, hstep, hinv⟩ := hpreserved s req hinit
    obtain ⟨labels, u, hexec, hinv'⟩ := ih hinv
    exact ⟨label :: labels, u, execute_cons hstep hexec, hinv'⟩

end Execution

section History

variable {Follows : List α → α → Prop}

/-- Every element of a history follows the ones before it. -/
def Throughout (Follows : List α → α → Prop) (history : List α) : Prop :=
  ∀ earlier a, earlier ++ [a] <+: history → Follows earlier a

theorem throughout_nil : Throughout Follows [] := by
  intro earlier a h
  simp at h

variable {history : List α}

theorem throughout_append_singleton {a : α} :
    Throughout Follows (history ++ [a]) ↔ Throughout Follows history ∧ Follows history a := by
  constructor
  · intro h
    exact ⟨fun earlier b hb => h earlier b (hb.trans (prefix_append _ _)),
      h history a (prefix_refl _)⟩
  · rintro ⟨hall, hlast⟩ earlier b hb
    rcases prefix_concat_iff.mp hb with heq | hb
    · obtain ⟨rfl, heq⟩ := append_inj' heq rfl
      obtain rfl : b = a := by simpa using heq
      exact hlast
    · exact hall earlier b hb

/-- A history read through a function. -/
theorem Throughout.map {β : Type} {Follows' : List β → β → Prop} {f : α → β}
    (h : Throughout Follows history)
    (himp : ∀ earlier a, earlier ++ [a] <+: history → Follows earlier a →
      Follows' (earlier.map f) (f a)) :
    Throughout Follows' (history.map f) := by
  intro earlier b hb
  obtain ⟨l, hl, heq⟩ := prefix_map_iff.mp hb
  obtain ⟨before, last, rfl, rfl, hlast⟩ := map_eq_append_iff.mp heq.symm
  obtain ⟨a, rfl, rfl⟩ := map_eq_singleton_iff.mp hlast
  exact himp before a hl (h before a hl)

end History

end Batter.Runs
