import Mathlib.Logic.Relation
import Mathlib.Tactic.Common

/-!
# Runs of a partial transition function

A system is a partial step function `step : σ → ι → Option σ` on states and
labels; `none` is a step that is not taken or does not come back.  `Reach step ok
init` is the set of states reached by runs all of whose steps satisfy `ok`, a
condition on the state *before* the step and its label.  With `ok` trivially true
it is plain reachability.

The one induction over runs is `Reach.invariant`; `Reach.of_run` produces a
reachable state from a concrete list of labels.
-/

universe u v

/-- **Invariant rule.**  What every step preserves, a chain of steps preserves. -/
theorem Relation.ReflTransGen.invariant {α : Type u} {r : α → α → Prop} {a b : α} {I : α → Prop}
    (h : Relation.ReflTransGen r a b) (hstep : ∀ {a b}, I a → r a b → I b) (ha : I a) : I b := by
  induction h with
  | refl => exact ha
  | tail _ hr ih => exact hstep ih hr

namespace Robu.Lib

variable {σ : Type u} {ι : Type v} {s : σ} {as : List ι} {P : σ → Prop}

/-- The states reached from `init` by steps that meet `ok`. -/
inductive Reach (step : σ → ι → Option σ) (ok : σ → ι → Prop) (init : σ → Prop) : σ → Prop
  | init {s : σ} : init s → Reach step ok init s
  /-- A permitted step from a reached state reaches its result. -/
  | step {s s' : σ} {a : ι} : Reach step ok init s → ok s a → step s a = some s' →
    Reach step ok init s'

variable {step : σ → ι → Option σ} {ok : σ → ι → Prop} {init : σ → Prop}

/-- **Invariant rule.**  What holds initially and survives every permitted step
holds in every reached state. -/
theorem Reach.invariant {I : σ → Prop} (hinit : ∀ s, init s → I s)
    (hstep : ∀ s a s', I s → ok s a → step s a = some s' → I s')
    (h : Reach step ok init s) : I s := by
  induction h with
  | init hs => exact hinit _ hs
  | step _ hok hs ih => exact hstep _ _ _ ih hok hs

def run (step : σ → ι → Option σ) (ok : σ → ι → Prop) [∀ s a, Decidable (ok s a)] :
    σ → List ι → Option σ
  | s, [] => some s
  | s, a :: as => if ok s a then (step s a).bind fun s' => run step ok s' as else none

/-- Executing labels from a reached state reaches the result. -/
theorem Reach.of_run [∀ s a, Decidable (ok s a)] {s' : σ} (hs : Reach step ok init s)
    (h : run step ok s as = some s') : Reach step ok init s' := by
  induction as generalizing s with
  | nil => obtain rfl : s = s' := Option.some.inj h; exact hs
  | cons a as ih =>
    unfold run at h
    split at h
    · obtain ⟨t, ht, hr⟩ := Option.bind_eq_some_iff.mp h
      exact ih (hs.step ‹_› ht) hr
    · cases h

/-- What is observed at the end of an execution holds in a reached state. -/
theorem observed [∀ s a, Decidable (ok s a)] (as : List ι) (hs : init s)
    (h : ∃ s' ∈ run step ok s as, P s') : ∃ s', Reach step ok init s' ∧ P s' := by
  obtain ⟨s', hs', hP⟩ := h
  exact ⟨s', .of_run (.init hs) hs', hP⟩

/-- An execution ends in a state with a property that is observed and one that all reached states
have. -/
theorem exists_run [∀ s a, Decidable (ok s a)] {Q : σ → Prop} (hs : init s)
    (h : ∃ s' ∈ run step ok s as, P s') (hQ : ∀ {s'}, Reach step ok init s' → P s' → Q s') :
    ∃ s', run step ok s as = some s' ∧ P s' ∧ Q s' := by
  obtain ⟨s', hs', hP⟩ := h
  exact ⟨s', hs', hP, hQ (.of_run (.init hs) hs') hP⟩

/-- The same for two observations. -/
theorem exists_run₂ [∀ s a, Decidable (ok s a)] {P' Q : σ → Prop} (hs : init s)
    (h : ∃ s' ∈ run step ok s as, P s' ∧ P' s') (hQ : ∀ {s'}, Reach step ok init s' → Q s') :
    ∃ s', run step ok s as = some s' ∧ P s' ∧ P' s' ∧ Q s' := by
  obtain ⟨s', hs', hP, hP'⟩ := h
  exact ⟨s', hs', hP, hP', hQ (.of_run (.init hs) hs')⟩

end Robu.Lib
