import Mathlib.Algebra.Group.Fin.Basic
import Mathlib.Tactic.Common

/-!
# Ring buffers

A ring buffer keeps a queue in a fixed number of cells: elements are put in at `head` and
taken out at `tail`, and both indices go round.  One cell stays free, so that equal indices
mean the empty queue.

`ring` reads the queue off the cells.  Putting in and taking out act on it as they do on a
list.
-/

universe u

namespace Robu.Lib

variable {α : Type u} {n : Nat} {cells : Fin (n + 1) → α} {head tail : Fin (n + 1)} {x : α}

def ring (cells : Fin (n + 1) → α) (head tail : Fin (n + 1)) : List α :=
  (List.range (head - tail).val).map fun i => cells (tail + Fin.ofNat (n + 1) i)

/-- Counting on from any index but the last does not go round. -/
theorem val_add_one_of_ne {a : Fin (n + 1)} (h : a + 1 ≠ 0) : (a + 1).val = a.val + 1 := by
  refine Fin.val_add_one_of_lt (Fin.lt_last_iff_ne_last.mpr ?_)
  rintro rfl
  exact h (Fin.last_add_one n)

theorem add_ofNat_val_sub (head tail : Fin (n + 1)) :
    tail + Fin.ofNat (n + 1) (head - tail).val = head := by
  rw [Fin.ofNat_val_eq_self, add_sub_cancel]

theorem ring_eq_nil (h : head = tail) : ring cells head tail = [] := by
  subst h
  simp [ring]

/-- A queue that takes no more holds as many elements as it has cells, save one. -/
theorem length_ring_of_full (h : head + 1 = tail) : (ring cells head tail).length = n := by
  subst h
  have hlast : head - (head + 1) = Fin.last n := by
    rw [← add_left_inj 1, Fin.last_add_one, sub_add_eq_sub_sub, sub_self, zero_sub, neg_add_cancel]
  rw [ring, hlast, List.length_map, List.length_range, Fin.val_last]

/-- Putting in. -/
theorem ring_push (h : head + 1 ≠ tail) :
    ring (Function.update cells head x) (head + 1) tail = ring cells head tail ++ [x] := by
  have hlen : (head + 1 - tail).val = (head - tail).val + 1 := by
    rw [add_sub_right_comm]
    refine val_add_one_of_ne fun hzero => h ?_
    rw [← add_sub_right_comm] at hzero
    exact sub_eq_zero.mp hzero
  unfold ring
  rw [hlen, List.range_succ, List.map_append, List.map_singleton, add_ofNat_val_sub,
    Function.update_self]
  congr 1
  refine List.map_congr_left fun i hi => Function.update_of_ne (fun heq => ?_) ..
  -- a cell of the queue is not the free one
  have hi : i < (head - tail).val := List.mem_range.mp hi
  have hval : Fin.ofNat (n + 1) i = head - tail := eq_sub_of_add_eq' heq
  have hmod : i % (n + 1) = (head - tail).val := congrArg Fin.val hval
  have hle := Nat.mod_le i (n + 1)
  omega

/-- Taking out. -/
theorem ring_pop (h : head ≠ tail) :
    ring cells head tail = cells tail :: ring cells head (tail + 1) := by
  have hlen : (head - tail).val = (head - (tail + 1)).val + 1 := by
    have hsub : head - tail = head - (tail + 1) + 1 := by
      rw [sub_add_eq_sub_sub, sub_add_cancel]
    rw [hsub]
    refine val_add_one_of_ne fun hzero => h ?_
    rw [← hsub] at hzero
    exact sub_eq_zero.mp hzero
  unfold ring
  rw [hlen, List.range_succ_eq_map, List.map_cons, List.map_map]
  congr 1
  · simp
  · refine List.map_congr_left fun i _ => congrArg cells ?_
    have hsucc : Fin.ofNat (n + 1) i.succ = Fin.ofNat (n + 1) i + 1 := by
      ext
      simp [Fin.val_add]
    rw [hsucc, add_assoc, add_comm 1]

/-- What is in the queue after some elements were taken out was in it before. -/
theorem mem_ring_of_drop {k : Nat} (hk : k ≤ (head - tail).val)
    (h : x ∈ ring cells head (tail + Fin.ofNat (n + 1) k)) : x ∈ ring cells head tail := by
  induction k with
  | zero => simpa using h
  | succ k ih =>
    have hsucc : tail + Fin.ofNat (n + 1) (k + 1) = tail + Fin.ofNat (n + 1) k + 1 := by
      rw [add_assoc]
      congr 1
      ext
      simp [Fin.val_add]
    have hne : head ≠ tail + Fin.ofNat (n + 1) k := by
      intro heq
      have hval : (head - tail).val = k % (n + 1) := by rw [heq, add_sub_cancel_left]; rfl
      have hle := Nat.mod_le k (n + 1)
      omega
    refine ih (by omega) ?_
    rw [ring_pop hne]
    exact .tail _ (hsucc ▸ h)

end Robu.Lib
