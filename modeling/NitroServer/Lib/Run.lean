/-
Runs of a labelled transition system.

A system is a step relation `step : σ → α → σ → Prop`. `Reaches step ok s` is the set
of states reached from `s` by runs all of whose steps meet a side condition `ok`, a
predicate on the state before the step and the action. `Reaches step anyStep` is plain
reachability.

A partial step function `f : σ → α → Option σ` gives such a relation (`stepOf f`);
`exec f` performs a list of actions, so that a concrete run can be evaluated.

* `Reaches.invariant` — a property that holds initially and is kept by every step
  that meets `ok` holds in every state so reached.
* `Reaches.map` — a simulation: when every admitted step of one system is a run of
  another on the images, runs are mapped to runs.
* `exec_reaches` — an evaluated run is a run.
* `exec_guarded` — so is one whose steps are checked against `ok` on the way.
-/

import Mathlib

namespace NitroServer.Lib

variable {σ α τ β : Type*}

/-- The states reached from `s` by runs every step of which meets `ok`. -/
inductive Reaches (step : σ → α → σ → Prop) (ok : σ → α → Prop) (s : σ) : σ → Prop where
  | refl : Reaches step ok s s
  | snoc {t u : σ} {a : α} : Reaches step ok s t → ok t a → step t a u → Reaches step ok s u

/-- No condition on the steps. -/
abbrev anyStep : σ → α → Prop := fun _ _ => True

namespace Reaches

variable {step : σ → α → σ → Prop} {ok : σ → α → Prop} {s t u : σ} {a : α}

/-- The invariant rule: initially true and kept by every admitted step. -/
theorem invariant {I : σ → Prop} (init : I s)
    (keeps : ∀ t a u, I t → ok t a → step t a u → I u)
    (run : Reaches step ok s t) : I t := by
  induction run with
  | refl => exact init
  | snoc _ hok hstep ih => exact keeps _ _ _ ih hok hstep

/-- Runs compose. -/
theorem trans (first : Reaches step ok s t) (second : Reaches step ok t u) :
    Reaches step ok s u := by
  induction second with
  | refl => exact first
  | snoc _ hok hstep ih => exact .snoc ih hok hstep

/-- One admitted step is a run. -/
theorem single (hok : ok s a) (hstep : step s a t) : Reaches step ok s t :=
  .snoc .refl hok hstep

/-- One admitted step, then a run. -/
theorem head (hok : ok s a) (hstep : step s a t) (run : Reaches step ok t u) :
    Reaches step ok s u :=
  (single hok hstep).trans run

/-- Simulation: `f` maps runs to runs when it maps every admitted step to a run. The
invariant `I` may be used on the way. -/
theorem map {step' : τ → β → τ → Prop} {ok' : τ → β → Prop} {f : σ → τ} {I : σ → Prop}
    (init : I s) (keeps : ∀ t a u, I t → ok t a → step t a u → I u)
    (sim : ∀ t a u, I t → ok t a → step t a u → Reaches step' ok' (f t) (f u))
    (run : Reaches step ok s t) : Reaches step' ok' (f s) (f t) := by
  induction run with
  | refl => exact .refl
  | snoc run hok hstep ih => exact ih.trans (sim _ _ _ (run.invariant init keeps) hok hstep)

end Reaches

/-! ### Step functions -/

/-- The relation of a partial step function. -/
abbrev stepOf (f : σ → α → Option σ) : σ → α → σ → Prop := fun s a t => f s a = some t

/-- Perform the actions in order; `none` when one of them is not enabled. -/
def exec (f : σ → α → Option σ) : List α → σ → Option σ
  | [], s => some s
  | a :: as, s => (f s a).bind (exec f as)

theorem exec_append (f : σ → α → Option σ) (as bs : List α) (s : σ) :
    exec f (as ++ bs) s = (exec f as s).bind (exec f bs) := by
  induction as generalizing s with
  | nil => rfl
  | cons a as ih => simp only [List.cons_append, exec, ih, Option.bind_assoc]

/-- An evaluated run is a run. -/
theorem exec_reaches {f : σ → α → Option σ} {as : List α} {s t : σ}
    (h : exec f as s = some t) : Reaches (stepOf f) anyStep s t := by
  induction as generalizing s with
  | nil =>
      cases h
      exact .refl
  | cons a as ih =>
      obtain ⟨u, hu, hrest⟩ := Option.bind_eq_some_iff.mp h
      exact Reaches.head trivial hu (ih hrest)

/-- What an evaluated run ends in. -/
theorem exec_any {f : σ → α → Option σ} {as : List α} {s : σ} {p : σ → Prop} [DecidablePred p]
    (h : (exec f as s).any (fun t => decide (p t)) = true) : ∃ t, exec f as s = some t ∧ p t := by
  cases hx : exec f as s with
  | none => simp [hx] at h
  | some t => exact ⟨t, rfl, by simpa [hx] using h⟩

/-- The step function, enabled only where `ok` holds. -/
def guarded (ok : σ → α → Prop) [∀ s a, Decidable (ok s a)] (f : σ → α → Option σ) :
    σ → α → Option σ :=
  fun s a => if ok s a then f s a else none

/-- An evaluated run whose steps all meet `ok`. -/
theorem exec_guarded {ok : σ → α → Prop} [∀ s a, Decidable (ok s a)] {f : σ → α → Option σ}
    {as : List α} {s t : σ} (h : exec (guarded ok f) as s = some t) :
    Reaches (stepOf f) ok s t := by
  induction as generalizing s with
  | nil =>
      cases h
      exact .refl
  | cons a as ih =>
      obtain ⟨u, hu, hrest⟩ := Option.bind_eq_some_iff.mp h
      simp only [guarded, Option.ite_none_right_eq_some] at hu
      exact Reaches.head hu.1 hu.2 (ih hrest)

end NitroServer.Lib
