import Mathlib.Order.Defs.Unbundled
import Mathlib.Tactic.Common

/-!
# Stateful computations that can fail

`Fallible σ ε α` is a computation on a state `σ` that ends in a value or in an error.
A failure *keeps* the state reached so far: as in C, nothing is undone unless the
program undoes it.  `try … catch` therefore goes on from the state of the failure.

Four kinds of rules are kept here.  `bind_of_ok` and its relatives follow one run.
`Ends m s Q E` is a triple: from `s`, `m` ends well with `Q` or fails with
`E`.  `Keeps R m` says that every run of `m`, failed or not, moves the state
along the relation `R`; for a reflexive and transitive `R` it is closed under all the
constructs of a program.  `Parallel P m m'` compares two runs, from related states.
-/

universe u

namespace Robu.Lib

/-- A computation on a state that ends in a value or in an error, with the state it
reached in either case. -/
def Fallible (σ ε α : Type u) := σ → Except ε α × σ

namespace Fallible

variable {σ ε α β : Type u} {c : Prop} [Decidable c]

instance : Monad (Fallible σ ε) where
  pure a := fun s => (.ok a, s)
  bind m k := fun s =>
    match m s with
    | (.ok a, s') => k a s'
    | (.error e, s') => (.error e, s')

instance : MonadExceptOf ε (Fallible σ ε) where
  throw e := fun s => (.error e, s)
  tryCatch m h := fun s =>
    match m s with
    | (.ok a, s') => (.ok a, s')
    | (.error e, s') => h e s'

instance : MonadStateOf σ (Fallible σ ε) where
  get := fun s => (.ok s, s)
  set s := fun _ => (.ok PUnit.unit, s)
  modifyGet f := fun s => (.ok (f s).1, (f s).2)

def failIf (c : Prop) [Decidable c] (e : ε) : Fallible σ ε PUnit :=
  if c then throw e else pure PUnit.unit

def onlyIf (c : Bool) (m : Fallible σ ε PUnit) : Fallible σ ε PUnit :=
  if c then m else pure PUnit.unit

/-- Run `m`; a failure has no value, and goes on. -/
def attempt (m : Fallible σ ε α) : Fallible σ ε (Option α) := fun s =>
  match m s with
  | (.ok a, s') => (.ok (some a), s')
  | (.error _, s') => (.ok none, s')

def orFail (e : ε) (m : Fallible σ ε α) : Fallible σ ε α :=
  tryCatch m fun _ => throw e

/-! ## Running -/

@[simp] theorem get_apply (s : σ) : (get : Fallible σ ε σ) s = (.ok s, s) := rfl

@[simp] theorem modify_apply (f : σ → σ) (s : σ) :
    (modify f : Fallible σ ε PUnit) s = (.ok PUnit.unit, f s) := rfl

theorem failIf_of (hc : c) (e : ε) (s : σ) :
    (failIf c e : Fallible σ ε PUnit) s = (.error e, s) := by
  rw [failIf, if_pos hc]
  rfl

theorem failIf_of_not (hc : ¬c) (e : ε) (s : σ) :
    (failIf c e : Fallible σ ε PUnit) s = (.ok PUnit.unit, s) := by
  rw [failIf, if_neg hc]
  rfl

/-- An attempt does not fail. -/
theorem attempt_ok (m : Fallible σ ε α) (s : σ) :
    ∃ a s', (attempt m : Fallible σ ε (Option α)) s = (.ok a, s') := by
  rw [attempt]
  split <;> exact ⟨_, _, rfl⟩

theorem bind_apply (m : Fallible σ ε α) (k : α → Fallible σ ε β) (s : σ) :
    (m >>= k) s = match m s with
      | (.ok a, s') => k a s'
      | (.error e, s') => (.error e, s') := rfl

theorem bind_bind {γ : Type u} (m : Fallible σ ε α) (k : α → Fallible σ ε β)
    (l : β → Fallible σ ε γ) (s : σ) : ((m >>= k) >>= l) s = (m >>= fun a => k a >>= l) s := by
  rw [bind_apply, bind_apply, bind_apply]
  cases m s with
  | mk x s' => cases x <;> rfl

theorem tryCatch_apply (m : Fallible σ ε α) (h : ε → Fallible σ ε α) (s : σ) :
    (tryCatch m h) s = match m s with
      | (.ok a, s') => (.ok a, s')
      | (.error e, s') => h e s' := rfl

section
variable {m : Fallible σ ε α} {k : α → Fallible σ ε β} {h : ε → Fallible σ ε α}
variable {s s' : σ} {a : α} {b : β} {e : ε}

/-- A sequence goes on from where its first part ended well. -/
theorem bind_of_ok (hm : m s = (.ok a, s')) : (m >>= k) s = k a s' := by
  rw [bind_apply, hm]

theorem attempt_bind_ok {m : Fallible σ ε α} {k : Option α → Fallible σ ε β}
    (hk : ∀ a s, ∃ b s', k a s = (.ok b, s')) (s : σ) :
    ∃ b s', (attempt m >>= k) s = (.ok b, s') := by
  obtain ⟨a, s₁, h⟩ := attempt_ok m s
  rw [bind_of_ok h]
  exact hk a s₁

/-- A sequence stops where its first part failed. -/
theorem bind_of_error (hm : m s = (.error e, s')) : (m >>= k) s = (.error e, s') := by
  rw [bind_apply, hm]

theorem tryCatch_of_ok (hm : m s = (.ok a, s')) : (tryCatch m h) s = (.ok a, s') := by
  rw [tryCatch_apply, hm]

theorem tryCatch_of_error (hm : m s = (.error e, s')) : (tryCatch m h) s = h e s' := by
  rw [tryCatch_apply, hm]

end

/-! ## Pre- and postconditions -/

/-- From the state `s`, `m` ends well with `Q`, or fails with `E`. -/
structure Ends (m : Fallible σ ε α) (s : σ) (Q : α → σ → Prop) (E : ε → σ → Prop) : Prop where
  ok : ∀ a s', m s = (.ok a, s') → Q a s'
  error : ∀ e s', m s = (.error e, s') → E e s'

namespace Ends

variable {m : Fallible σ ε α} {k : α → Fallible σ ε β} {s s' : σ}
variable {P P' : α → σ → Prop} {Q : β → σ → Prop} {E F : ε → σ → Prop}

theorem of_ok {a : α} (h : m s = (.ok a, s')) (hQ : P a s') : Ends m s P E := by
  constructor
  · intro b s₁ hm
    rw [h] at hm
    cases hm
    exact hQ
  · intro e s₁ hm
    rw [h] at hm
    cases hm

theorem of_error {e : ε} (h : m s = (.error e, s')) (hE : E e s') : Ends m s P E := by
  constructor
  · intro b s₁ hm
    rw [h] at hm
    cases hm
  · intro e' s₁ hm
    rw [h] at hm
    cases hm
    exact hE

/-- Only the run from the state counts. -/
theorem congr {m' : Fallible σ ε α} (heq : m s = m' s') (h : Ends m' s' P E) : Ends m s P E :=
  ⟨fun a s₁ hm => h.ok a s₁ (heq ▸ hm), fun e s₁ hm => h.error e s₁ (heq ▸ hm)⟩

theorem mono (h : Ends m s P E) (hP : ∀ a s', P a s' → P' a s') (hE : ∀ e s', E e s' → F e s') :
    Ends m s P' F :=
  ⟨fun a s' hm => hP a s' (h.ok a s' hm), fun e s' hm => hE e s' (h.error e s' hm)⟩

/-- Nothing is said about how `m` ends. -/
theorem any : Ends m s (fun _ _ => True) (fun _ _ => True) :=
  ⟨fun _ _ _ => trivial, fun _ _ _ => trivial⟩

/-- What holds however `m` ends. -/
theorem snd {I : σ → Prop} (h : Ends m s (fun _ => I) (fun _ => I)) : I (m s).2 := by
  match hm : m s with
  | (.ok a, s') => exact h.ok a s' hm
  | (.error e, s') => exact h.error e s' hm

theorem of_snd {I : σ → Prop} (h : I (m s).2) : Ends m s (fun _ => I) (fun _ => I) :=
  ⟨fun _ _ hm => by rwa [hm] at h, fun _ _ hm => by rwa [hm] at h⟩

theorem pure {a : α} (h : P a s) : Ends (Pure.pure a) s P E := of_ok rfl h

theorem throw {e : ε} (h : E e s) : Ends (MonadExcept.throw e : Fallible σ ε α) s P E :=
  of_error rfl h

theorem modify {f : σ → σ} {P : PUnit → σ → Prop} (h : P PUnit.unit (f s)) :
    Ends (MonadState.modifyGet fun s => (PUnit.unit, f s) : Fallible σ ε PUnit) s P E :=
  of_ok rfl h

theorem bind (hm : Ends m s P E) (hk : ∀ a s', P a s' → Ends (k a) s' Q E) :
    Ends (m >>= k) s Q E := by
  match h : m s with
  | (.ok a, s') => exact congr (bind_of_ok h) (hk a s' (hm.ok a s' h))
  | (.error e, s') => exact of_error (bind_of_error h) (hm.error e s' h)

/-- Nothing of the result of `m` is used. -/
theorem seq (hm : Ends m s (fun _ _ => True) E) (hk : ∀ a s', Ends (k a) s' Q E) :
    Ends (m >>= k) s Q E :=
  bind hm fun a s' _ => hk a s'

theorem ok_bind (hm : m s = (.ok a, s')) (hk : Ends (k a) s' Q E) : Ends (m >>= k) s Q E :=
  congr (bind_of_ok hm) hk

theorem get_bind {k : σ → Fallible σ ε β} (h : Ends (k s) s Q E) :
    Ends (MonadState.get >>= k) s Q E :=
  ok_bind (get_apply s) h

theorem modify_bind {f : σ → σ} {k : PUnit → Fallible σ ε β} (h : Ends (k PUnit.unit) (f s) Q E) :
    Ends ((MonadState.modifyGet fun s => (PUnit.unit, f s)) >>= k) s Q E :=
  ok_bind rfl h

theorem tryCatch {h : ε → Fallible σ ε α} (hm : Ends m s P F)
    (hh : ∀ e s', F e s' → Ends (h e) s' P E) : Ends (MonadExcept.tryCatch m h) s P E := by
  match hs : m s with
  | (.ok a, s') => exact of_ok (tryCatch_of_ok hs) (hm.ok a s' hs)
  | (.error e, s') => exact congr (tryCatch_of_error hs) (hh e s' (hm.error e s' hs))

theorem orFail {e : ε} (hm : Ends m s P fun _ => E e) : Ends (Fallible.orFail e m) s P E :=
  tryCatch hm fun _ _ h => throw h

theorem failIf {e : ε} {P : PUnit → σ → Prop} (ht : c → E e s)
    (hf : ¬c → P PUnit.unit s) : Ends (Fallible.failIf c e : Fallible σ ε PUnit) s P E := by
  by_cases hc : c
  · exact of_error (failIf_of hc e s) (ht hc)
  · exact of_ok (failIf_of_not hc e s) (hf hc)

theorem check {e : ε} {k : PUnit → Fallible σ ε β} (ht : c → E e s)
    (hf : ¬c → Ends (k PUnit.unit) s Q E) : Ends (Fallible.failIf c e >>= k) s Q E := by
  by_cases hc : c
  · exact of_error (bind_of_error (failIf_of hc e s)) (ht hc)
  · exact ok_bind (failIf_of_not hc e s) (hf hc)

theorem onlyIf {c : Bool} {m : Fallible σ ε PUnit} {P : PUnit → σ → Prop}
    (ht : c = true → Ends m s P E) (hf : c = false → P PUnit.unit s) :
    Ends (Fallible.onlyIf c m) s P E := by
  cases c with
  | true => exact ht rfl
  | false => exact pure (hf rfl)

theorem attempt {P : Option α → σ → Prop}
    (hm : Ends m s (fun a => P (some a)) fun _ => P none) : Ends (Fallible.attempt m) s P E := by
  match h : m s with
  | (.ok a, s') =>
    exact of_ok (show Fallible.attempt m s = (.ok (some a), s') by rw [Fallible.attempt, h])
      (hm.ok a s' h)
  | (.error e, s') =>
    exact of_ok (show Fallible.attempt m s = (.ok none, s') by rw [Fallible.attempt, h])
      (hm.error e s' h)

theorem ite {m' : Fallible σ ε α} (ht : c → Ends m s P E)
    (hf : ¬c → Ends m' s P E) : Ends (if c then m else m') s P E := by
  split
  · exact ht ‹_›
  · exact hf ‹_›

end Ends

/-! ## Relations kept by every run -/

/-- Every run of `m`, failed or not, moves the state along `R`. -/
def Keeps (R : σ → σ → Prop) (m : Fallible σ ε α) : Prop :=
  ∀ s, R s (m s).2

namespace Keeps

variable {R : σ → σ → Prop} {m m' : Fallible σ ε α} {k : α → Fallible σ ε β}

/-- What a run that ended well moved along. -/
theorem of_ok {s s' : σ} {a : α} (hm : Keeps R m) (h : m s = (.ok a, s')) : R s s' := by
  have hs := hm s
  rwa [h] at hs

/-- A kept relation is a postcondition. -/
theorem ends {s : σ} (hm : Keeps R m) : Ends m s (fun _ => R s) (fun _ => R s) :=
  .of_snd (hm s)

theorem modify {f : σ → σ} (h : ∀ s, R s (f s)) :
    Keeps R (MonadState.modifyGet fun s => (PUnit.unit, f s) : Fallible σ ε PUnit) := h

theorem ite (hm : Keeps R m) (hm' : Keeps R m') : Keeps R (if c then m else m') := by
  split
  · exact hm
  · exact hm'

/-- Trying is no more than running. -/
theorem attempt (hm : Keeps R m) : Keeps R (Fallible.attempt m) :=
  fun _ => Ends.snd (.attempt hm.ends)

section
variable [Std.Refl R]

theorem pure (a : α) : Keeps R (Pure.pure a : Fallible σ ε α) := fun s => refl_of R s

theorem throw (e : ε) : Keeps R (MonadExcept.throw e : Fallible σ ε α) := fun s => refl_of R s

theorem get : Keeps R (MonadState.get : Fallible σ ε σ) := fun s => refl_of R s

theorem failIf (c : Prop) [Decidable c] (e : ε) :
    Keeps R (Fallible.failIf c e : Fallible σ ε PUnit) :=
  ite (throw e) (pure _)

theorem onlyIf {c : Bool} {m : Fallible σ ε PUnit} (hm : Keeps R m) :
    Keeps R (Fallible.onlyIf c m) :=
  ite hm (pure _)

end

section
variable [IsTrans σ R]

theorem ends_of {s s' : σ} (hm : Keeps R m) (h : R s s') :
    Ends m s' (fun _ => R s) (fun _ => R s) :=
  hm.ends.mono (fun _ _ => trans_of R h) fun _ _ => trans_of R h

/-- A sequence keeps what both parts keep. -/
theorem bind (hm : Keeps R m) (hk : ∀ a, Keeps R (k a)) : Keeps R (m >>= k) :=
  fun _ => Ends.snd (.bind hm.ends fun a _ h => (hk a).ends_of h)

theorem check [Std.Refl R] {e : ε} {k : PUnit → Fallible σ ε β}
    (hk : ∀ u, Keeps R (k u)) : Keeps R (Fallible.failIf c e >>= k) :=
  bind (failIf c e) hk

/-- A handler goes on from the state of the failure. -/
theorem tryCatch {h : ε → Fallible σ ε α} (hm : Keeps R m) (hh : ∀ e, Keeps R (h e)) :
    Keeps R (MonadExcept.tryCatch m h) :=
  fun _ => Ends.snd (.tryCatch hm.ends fun e _ h => (hh e).ends_of h)

theorem orFail [Std.Refl R] {e : ε} (hm : Keeps R m) : Keeps R (Fallible.orFail e m) :=
  tryCatch hm fun _ => throw e

end

end Keeps

/-! ## Two runs -/

/-- From states that `P` relates, `m` and `m'` end alike, in states that `P` relates. -/
def Parallel (P : σ → σ → Prop) (m m' : Fallible σ ε α) : Prop :=
  ∀ s s', P s s' → (m s).1 = (m' s').1 ∧ P (m s).2 (m' s').2

namespace Parallel

variable {P : σ → σ → Prop} {m m' n n' : Fallible σ ε α} {k k' : α → Fallible σ ε β}

theorem pure (a : α) : Parallel P (Pure.pure a : Fallible σ ε α) (Pure.pure a) :=
  fun _ _ h => ⟨rfl, h⟩

theorem throw (e : ε) : Parallel P (MonadExcept.throw e : Fallible σ ε α) (MonadExcept.throw e) :=
  fun _ _ h => ⟨rfl, h⟩

theorem run_eq {s s' : σ} (hm : Parallel P m m') (h : P s s') :
    ∃ x s₁ s₂, m s = (x, s₁) ∧ m' s' = (x, s₂) ∧ P s₁ s₂ :=
  ⟨(m s).1, (m s).2, (m' s').2, rfl, Prod.ext (hm s s' h).1.symm rfl, (hm s s' h).2⟩

theorem bind (hm : Parallel P m m') (hk : ∀ a, Parallel P (k a) (k' a)) :
    Parallel P (m >>= k) (m' >>= k') := by
  intro s s' h
  obtain ⟨x, s₁, s₂, h₁, h₂, hP⟩ := hm.run_eq h
  rw [bind_apply, bind_apply, h₁, h₂]
  cases x with
  | error e => exact ⟨rfl, hP⟩
  | ok a => exact hk a s₁ s₂ hP

/-- A program may read of the state what is the same in both. -/
theorem get_bind {k k' : σ → Fallible σ ε β} (h : ∀ s s', P s s' → Parallel P (k s) (k' s')) :
    Parallel P (MonadState.get >>= k) (MonadState.get >>= k') :=
  fun s s' hs => h s s' hs s s' hs

theorem attempt (hm : Parallel P m m') : Parallel P (Fallible.attempt m) (Fallible.attempt m') := by
  intro s s' h
  obtain ⟨x, s₁, s₂, h₁, h₂, hP⟩ := hm.run_eq h
  rw [Fallible.attempt, Fallible.attempt, h₁, h₂]
  cases x with
  | error e => exact ⟨rfl, hP⟩
  | ok a => exact ⟨rfl, hP⟩

theorem ite (hm : Parallel P m m') (hn : Parallel P n n') :
    Parallel P (if c then m else n) (if c then m' else n') := by
  split
  · exact hm
  · exact hn

theorem failIf (c : Prop) [Decidable c] (e : ε) :
    Parallel P (Fallible.failIf c e : Fallible σ ε PUnit) (Fallible.failIf c e) :=
  ite (throw e) (pure _)

theorem check {e : ε} {k k' : PUnit → Fallible σ ε β} (hk : ∀ u, Parallel P (k u) (k' u)) :
    Parallel P (Fallible.failIf c e >>= k) (Fallible.failIf c e >>= k') :=
  bind (failIf c e) hk

end Parallel

end Fallible

end Robu.Lib
