import Mathlib.Data.BitVec
import Mathlib.Data.List.Basic
import Mathlib.Data.Nat.ModEq
import Mathlib.Tactic.Common

/-!
# Ring buffers that count

A ring buffer keeps a queue in `n` cells: the `count` cells from `head` on hold the elements,
and indices go round.  All cells may be in use, because the number of elements is kept.

`window` reads the queue off the cells and `fill` stores a list behind it.  Advancing the head
drops elements (`drop_window`), and storing behind the queue appends them as long as there is
room (`window_fill`).

`Ring` is such a buffer with 32-bit indices, as C code keeps it.  `Flow` relates a family of
rings to what was taken from each and what was put into it, and is kept by both operations.
-/

universe u

namespace Robu.Lib

open Function (update update_of_ne update_self)

variable {α : Type u} {n : Nat} [NeZero n] {cells : Fin n → α} {head count k : Nat} {x : α}

/-- The elements in `count` cells from `head` on. -/
def window (cells : Fin n → α) (head count : Nat) : List α :=
  (List.range count).map fun i => cells (Fin.ofNat n (head + i))

/-- Store the elements of a list from cell `tail` on. -/
def fill (cells : Fin n → α) (tail : Nat) : List α → Fin n → α
  | [] => cells
  | x :: xs => fill (update cells (Fin.ofNat n tail) x) (tail + 1) xs

@[simp] theorem length_window : (window cells head count).length = count := by simp [window]

/-- Indices go round. -/
theorem ofNat_mod (i : Nat) : Fin.ofNat n (head % n + i) = Fin.ofNat n (head + i) := by
  ext
  simp

@[simp] theorem window_mod : window cells (head % n) count = window cells head count :=
  List.map_congr_left fun i _ => by rw [ofNat_mod]

theorem fill_mod (xs : List α) : fill cells (head % n) xs = fill cells head xs := by
  induction xs generalizing cells head with
  | nil => rfl
  | cons x xs ih =>
    have hnext : fill (update cells (Fin.ofNat n head) x) (head % n + 1) xs =
        fill (update cells (Fin.ofNat n head) x) (head + 1) xs := by
      rw [← ih, Nat.mod_add_mod, ih]
    rw [fill, fill, ← Nat.add_zero (head % n), ofNat_mod]
    exact hnext

/-- The first elements. -/
theorem take_window (h : k ≤ count) : (window cells head count).take k = window cells head k := by
  rw [window, ← List.map_take, List.take_range, Nat.min_eq_left h, window]

/-- The elements behind the first. -/
theorem drop_window : (window cells head count).drop k = window cells (head + k) (count - k) := by
  refine List.ext_getElem (by simp) fun i hi hi' => ?_
  simp [window, Nat.add_assoc]

/-- One element behind the queue. -/
theorem window_update (h : count < n) :
    window (update cells (Fin.ofNat n (head + count)) x) head (count + 1) =
      window cells head count ++ [x] := by
  have hout : ∀ i < count, Fin.ofNat n (head + i) ≠ Fin.ofNat n (head + count) := by
    intro i hi heq
    have hmod : (head + i) % n = (head + count) % n := congrArg Fin.val heq
    have hdvd := (Nat.modEq_iff_dvd' (by omega)).mp hmod
    have hle := Nat.le_of_dvd (by omega) hdvd
    omega
  unfold window
  rw [List.range_succ, List.map_append, List.map_singleton, update_self]
  congr 1
  exact List.map_congr_left fun i hi => update_of_ne (hout i (List.mem_range.mp hi)) ..

/-- **Append.**  A list that fits is appended. -/
theorem window_fill {xs : List α} (h : count + xs.length ≤ n) :
    window (fill cells (head + count) xs) head (count + xs.length) = window cells head count ++
      xs := by
  induction xs generalizing cells count with
  | nil => simp [fill]
  | cons x xs ih =>
    rw [List.length_cons] at h
    rw [fill, List.length_cons, show count + (xs.length + 1) = count + 1 + xs.length by omega,
      Nat.add_assoc head count 1, ih (by omega), window_update (by omega), List.append_assoc,
      List.singleton_append]

/-! ## Indices of 32 bits -/

structure Ring (n : Nat) (α : Type u) where
  cells : Fin n → α
  head : BitVec 32
  count : BitVec 32

namespace Ring

def queue (r : Ring n α) : List α := window r.cells r.head.toNat r.count.toNat

structure Sound (r : Ring n α) : Prop where
  head : r.head.toNat < n
  count : r.count.toNat ≤ n

def pop (r : Ring n α) (k : BitVec 32) : Ring n α :=
  { r with head := (r.head + k) % BitVec.ofNat 32 n, count := r.count - k }

def push (r : Ring n α) (xs : List α) (k : BitVec 32) : Ring n α :=
  { r with
    cells := fill r.cells ((r.head + r.count) % BitVec.ofNat 32 n).toNat xs, count := r.count + k }

variable {r : Ring n α} {k : BitVec 32} {xs : List α}

omit [NeZero n] in
theorem toNat_advance {a b : BitVec 32} (hn : n < 2 ^ 31) (ha : a.toNat < n) (hb : b.toNat ≤ n) :
    ((a + b) % BitVec.ofNat 32 n).toNat = (a.toNat + b.toNat) % n := by
  rw [BitVec.toNat_umod, BitVec.toNat_add, BitVec.toNat_ofNat, Nat.mod_eq_of_lt (a := n) (by omega),
    Nat.mod_eq_of_lt (a := a.toNat + b.toNat) (by omega)]

/-- **Pop.**  The first elements, and the queue without them. -/
theorem pop_spec (hr : r.Sound) (hn : n < 2 ^ 31) (hk : k.toNat ≤ r.count.toNat) :
    window r.cells r.head.toNat k.toNat ++ (r.pop k).queue = r.queue ∧ (r.pop k).Sound := by
  have hcount := hr.count
  have hhead := toNat_advance hn hr.head (hk.trans hcount)
  have hleft : (r.count - k).toNat = r.count.toNat - k.toNat := BitVec.toNat_sub_of_le hk
  refine ⟨?_, ?_, ?_⟩
  · rw [queue, queue, pop, hhead, hleft, window_mod, ← drop_window, ← take_window hk,
      List.take_append_drop]
  · exact hhead ▸ Nat.mod_lt _ (Nat.pos_of_neZero n)
  · exact hleft ▸ (Nat.sub_le ..).trans hcount

/-- **Push.**  The elements are behind the queue. -/
theorem push_spec (hr : r.Sound) (hn : n < 2 ^ 31) (hk : xs.length = k.toNat)
    (hroom : r.count.toNat + k.toNat ≤ n) : (r.push xs k).queue = r.queue ++ xs ∧
      (r.push xs k).Sound := by
  have hnew : (r.count + k).toNat = r.count.toNat + k.toNat := BitVec.toNat_add_of_lt (by omega)
  refine ⟨?_, hr.head, hnew ▸ hroom⟩
  rw [queue, push, hnew, toNat_advance hn hr.head hr.count, fill_mod, ← hk]
  exact window_fill (hk ▸ hroom)

/-- What was taken, and then what is in the ring, is what was put in. -/
structure Flows (r : Ring n α) (taken put : List α) : Prop where
  sound : r.Sound
  stream : taken ++ r.queue = put

theorem Flows.empty (hh : r.head = 0) (hc : r.count = 0) : Flows r [] [] := by
  refine ⟨⟨?_, ?_⟩, ?_⟩
  · rw [hh]
    exact Nat.pos_of_neZero n
  · rw [hc]
    exact Nat.zero_le n
  · rw [queue, hc]
    rfl

variable {ι : Type} {rings rings' : ι → Ring n α} {taken taken' put put' : ι → List α}

def Flow (rings : ι → Ring n α) (taken put : ι → List α) : Prop :=
    ∀ i, Flows (rings i) (taken i) (put i)

theorem Flow.congr (h : Flow rings taken put) (hr : rings' = rings) (ht : taken' = taken)
    (hp : put' = put) : Flow rings' taken' put' := by
  rwa [hr, ht, hp]

theorem Flow.store [DecidableEq ι] {i : ι} {t p : List α} (h : Flow rings taken put)
    (hf : Flows r t p) (hr : rings' = update rings i r)
    (ht : taken' = update taken i t)
    (hp : put' = update put i p) : Flow rings' taken' put' := by
  subst hr ht hp
  intro j
  rcases eq_or_ne j i with rfl | hj
  · rwa [update_self, update_self, update_self]
  · rw [update_of_ne hj, update_of_ne hj, update_of_ne hj]
    exact h j

end Ring

end Robu.Lib
