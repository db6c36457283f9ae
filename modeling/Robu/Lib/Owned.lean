import Mathlib.Data.Finset.Basic

/-!
# Ownership

Things that are handed out have one owner at most, and what has an owner is not free.  Both stay
so when owners give things back, and when free things get owners.
-/

universe u v

namespace Robu.Lib

/-- **Ownership.**  Each thing is free, or has one owner, or is out of sight. -/
structure Owned {O : Type u} {F : Type v} (own : O → F → Prop) (free : Finset F) : Prop where
  unique : ∀ {o o' f}, own o f → own o' f → o = o'
  notFree : ∀ {o f}, own o f → f ∉ free

variable {O : Type u} {F : Type v} {own own' new : O → F → Prop} {free free' : Finset F}

/-- **Release.**  What is given back had the owner that gave it back. -/
theorem Owned.release (h : Owned own free) (hsub : ∀ {o f}, own' o f → own o f)
    (hfree : ∀ {f}, f ∈ free' → f ∈ free ∨ ∃ o, own o f ∧ ¬ own' o f) : Owned own' free' where
  unique ho ho' := h.unique (hsub ho) (hsub ho')
  notFree {o f} ho hf := by
    rcases hfree hf with hf | ⟨o', ho', hnot⟩
    · exact h.notFree (hsub ho) hf
    · obtain rfl := h.unique (hsub ho) ho'
      exact hnot ho

/-- **Acquire.**  Free things get owners, one each. -/
theorem Owned.acquire (h : Owned own free) (hown : ∀ {o f}, own' o f → own o f ∨ new o f)
    (hnew : ∀ {o f}, new o f → f ∈ free ∧ f ∉ free')
    (honce : ∀ {o o' f}, new o f → new o' f → o = o')
    (hfree : free' ⊆ free) : Owned own' free' where
  unique {o o' f} ho ho' := by
    rcases hown ho with ho | ho <;> rcases hown ho' with ho' | ho'
    · exact h.unique ho ho'
    · exact absurd (hnew ho').1 (h.notFree ho)
    · exact absurd (hnew ho).1 (h.notFree ho')
    · exact honce ho ho'
  notFree ho hf := by
    rcases hown ho with ho | ho
    · exact h.notFree ho (hfree hf)
    · exact (hnew ho).2 hf

end Robu.Lib
