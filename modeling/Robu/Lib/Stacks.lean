import Mathlib.Data.BitVec
import Mathlib.Algebra.BigOperators.Group.Finset.Basic
import Mathlib.Algebra.Group.Fin.Basic
import Mathlib.Data.Fintype.BigOperators
import Robu.Lib.Links

/-!
# Families of intrusive stacks

Elements of several sorts are kept on one stack for each sort, and every element on a
stack carries the link to the element below it.  Such are the free lists of an allocator
that keeps its links in the free memory itself.

`Stacks sort next head l` says that the stacks are the lists `l`.  The rules are stated for
any new links that agree with the old ones where it matters, because the links are read off
a memory that other stores change too: `Stacks.congr` is the frame rule, and `Stacks.push`
and `Stacks.pop` are the two operations.

`rotate` is the search for a stack that is not empty, one turn after the other, starting
where the last search ended.
-/

universe u v

namespace Robu.Lib

open Function (apply_update update update_of_ne update_self)

variable {ι : Type u} {α : Type v}

/-- The stacks with the given links and heads are the lists `l`, sorted by `sort`. -/
structure Stacks (sort : α → ι) (next : α → Option α) (head : ι → Option α) (l : ι → List α) :
    Prop where
  chain : ∀ i, Chain next (head i) (l i)
  sort : ∀ {i a}, a ∈ l i → sort a = i

namespace Stacks

variable {sort : α → ι} {next next' : α → Option α} {head head' : ι → Option α}
  {l : ι → List α} {i j : ι} {a : α}

variable (h : Stacks sort next head l)

include h

/-- No element is on two stacks. -/
theorem disjoint (hi : a ∈ l i) (hj : a ∈ l j) : i = j :=
  (h.sort hi).symm.trans (h.sort hj)

theorem head_eq_none : head i = none ↔ l i = [] := by
  rw [(h.chain i).head_eq, List.head?_eq_none_iff]

/-- **Frame rule.**  The stacks depend on their heads and the links of their elements. -/
theorem congr (hhead : ∀ i, head' i = head i)
    (hnext : ∀ i, ∀ a ∈ l i, next' a = next a) : Stacks sort next' head' l where
  chain i := by
    rw [hhead]
    exact (h.chain i).congr (hnext i)
  sort := h.sort

variable [DecidableEq ι]

/-- **Push.**  An element on no stack goes on top of the stack of its sort. -/
theorem push (hself : next' a = head (sort a)) (hrest : ∀ i, ∀ x ∈ l i, next' x = next x)
    (hhead : ∀ i, head' i = update head (sort a) (some a) i) :
    Stacks sort next' head' (update l (sort a) (a :: l (sort a))) where
  chain i := by
    rw [hhead]
    rcases eq_or_ne i (sort a) with rfl | hi
    · rw [update_self, update_self]
      refine ⟨rfl, ?_⟩
      rw [hself]
      exact (h.chain _).congr (hrest _)
    · rw [update_of_ne hi, update_of_ne hi]
      exact (h.chain i).congr (hrest i)
  sort {i x} hx := by
    rcases mem_update_cons.mp hx with ⟨rfl, rfl⟩ | hx
    · rfl
    · exact h.sort hx

/-- **Pop.**  The top of a stack is removed; its own link may be overwritten. -/
theorem pop {rest : List α} (hl : l i = a :: rest)
    (hrest : ∀ j, ∀ x ∈ l j, x ≠ a → next' x = next x)
    (hhead : ∀ j, head' j = update head i (next a) j) :
    Stacks sort next' head' (update l i rest) := by
  have htop := h.chain i
  have hout : a ∉ rest := by
    have hnd := htop.nodup
    rw [hl, List.nodup_cons] at hnd
    exact hnd.1
  rw [hl] at htop
  refine ⟨fun j => ?_, fun {j x} hx => ?_⟩
  · rw [hhead]
    rcases eq_or_ne j i with rfl | hj
    · rw [update_self, update_self]
      exact htop.2.congr fun x hx =>
        hrest j x (by rw [hl]; exact .tail a hx) (ne_of_mem_of_not_mem hx hout)
    rw [update_of_ne hj, update_of_ne hj]
    refine (h.chain j).congr fun x hx => hrest j x hx ?_
    rintro rfl
    exact hj (h.disjoint hx (by rw [hl]; exact .head _))
  · rw [mem_update] at hx
    rcases hx with ⟨rfl, hx⟩ | ⟨-, hx⟩
    · exact h.sort (i := j) (by rw [hl]; exact .tail a hx)
    · exact h.sort hx

theorem mem_pop {rest : List α} (hl : l i = a :: rest) {x : α} :
    x ∈ update l i rest j ↔ x ∈ l j ∧ x ≠ a := by
  have hnd := (h.chain i).nodup
  rw [hl, List.nodup_cons] at hnd
  rcases eq_or_ne j i with rfl | hj
  · rw [update_self, hl, List.mem_cons]
    exact ⟨fun hx => ⟨.inr hx, ne_of_mem_of_not_mem hx hnd.1⟩, fun ⟨hx, hne⟩ => hx.resolve_left hne⟩
  · rw [update_of_ne hj]
    refine ⟨fun hx => ⟨hx, ?_⟩, And.left⟩
    rintro rfl
    exact hj (h.disjoint hx (by rw [hl]; exact .head _))

end Stacks

/-- A pointer of C, where 0 is null. -/
def ptr [Zero α] [DecidableEq α] (a : α) : Option α := if a = 0 then none else some a

section Ptr

variable [Zero α] [DecidableEq α] {a b : α}

@[simp] theorem ptr_eq_none : ptr a = none ↔ a = 0 := by
  unfold ptr
  split <;> simp_all

@[simp] theorem ptr_eq_some : ptr a = some b ↔ a ≠ 0 ∧ a = b := by
  unfold ptr
  split <;> simp_all

end Ptr

/-! ## Counting -/

section Count

variable [Fintype ι] [DecidableEq ι] {l : ι → List α} {i : ι} {a : α}

def held (l : ι → List α) : Nat := ∑ i, (l i).length

theorem held_update (m : List α) : held (update l i m) + (l i).length = held l + m.length := by
  have hlen : (fun j => (update l i m j).length) = update (fun j => (l j).length) i m.length := by
    funext j
    exact apply_update (fun _ => List.length) l i m j
  have hold : held l = (l i).length + ∑ j ∈ Finset.univ \ {i}, (l j).length := by
    rw [Finset.sdiff_singleton_eq_erase]
    exact (Finset.add_sum_erase _ _ (Finset.mem_univ i)).symm
  have hnew : held (update l i m) = m.length + ∑ j ∈ Finset.univ \ {i}, (l j).length := by
    unfold held
    rw [hlen, Finset.sum_update_of_mem (Finset.mem_univ i)]
  omega

omit [DecidableEq ι] in
/-- Disjoint lists without repetition that miss an element hold fewer elements than there are. -/
theorem held_lt_card [DecidableEq α] [Fintype α] (hnd : ∀ i, (l i).Nodup)
    (hdisj : ∀ {i j a}, a ∈ l i → a ∈ l j → i = j) (hout : ∀ i, a ∉ l i) :
    held l < Fintype.card α := by
  have hcard : held l = (Finset.univ.biUnion fun i => (l i).toFinset).card := by
    rw [Finset.card_biUnion]
    · exact Finset.sum_congr rfl fun i _ => (List.toFinset_card_of_nodup (hnd i)).symm
    · intro i _ j _ hij
      rw [Function.onFun, Finset.disjoint_left]
      intro x hi hj
      exact hij (hdisj (List.mem_toFinset.mp hi) (List.mem_toFinset.mp hj))
  rw [hcard]
  refine Finset.card_lt_univ_of_notMem (x := a) ?_
  simpa using hout

end Count

/-! ## Turns -/

section Rotate

variable {n : Nat} [NeZero n] {p : Fin n → Bool} {turns : Nat} {c d e : Fin n}

/-- Ask for `p` at `turns` places from `c` on, and return the first place that has it and
the place to ask next. -/
def rotate (p : Fin n → Bool) : Nat → Fin n → Option (Fin n) × Fin n
  | 0, c => (none, c)
  | turns + 1, c => if p c then (some c, c + 1) else rotate p turns (c + 1)

theorem rotate_eq_some (h : rotate p turns c = (some d, e)) : p d = true := by
  induction turns generalizing c with
  | zero => cases h
  | succ turns ih =>
    unfold rotate at h
    split at h
    · rename_i hp
      cases h
      exact hp
    · exact ih h

theorem rotate_eq_none (h : (rotate p turns c).1 = none) :
    ∀ k < turns, p (c + Fin.ofNat n k) = false := by
  induction turns generalizing c with
  | zero => intro k hk; cases hk
  | succ turns ih =>
    unfold rotate at h
    split at h
    · cases h
    rename_i hp
    intro k hk
    cases k with
    | zero => simpa using hp
    | succ k =>
      have hnext := ih h k (by omega)
      have hplace : c + 1 + Fin.ofNat n k = c + Fin.ofNat n (k + 1) := by
        ext
        simp [Fin.val_add, add_assoc, add_comm 1]
      rwa [hplace] at hnext

/-- **A whole rotation.**  The search finds a place whenever there is one. -/
theorem rotate_all_eq_none (h : (rotate p n c).1 = none) (d : Fin n) : p d = false := by
  have hplace := rotate_eq_none h (d - c).val (d - c).isLt
  rwa [Fin.ofNat_eq_cast, Fin.cast_val_eq_self, add_sub_cancel] at hplace

end Rotate

end Robu.Lib
