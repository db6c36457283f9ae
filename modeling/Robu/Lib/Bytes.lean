import Mathlib.Data.BitVec
import Mathlib.Tactic.Common

/-!
# Byte buffers

A buffer of `n` bytes is the bit vector its bytes spell, least significant byte
first: byte `i` is bits `8 i` to `8 i + 7`.  A little-endian field is then a *slice*
of the buffer, and storing a field overwrites a slice.

The laws are those of an array: a slice of what was just stored is the stored value,
a store leaves every slice apart from it alone, and slices of slices are slices.
All of them are read off one lemma, `getLsbD_put`.
-/

namespace Robu.Lib

abbrev Bytes (n : Nat) := BitVec (8 * n)

namespace Bytes

variable {n k l : Nat}

/-- The `k` bytes at offset `off`; bytes past the end read as zero. -/
def slice (x : Bytes n) (off k : Nat) : Bytes k :=
  x.extractLsb' (8 * off) (8 * k)

/-- The buffer with the `k` bytes at offset `off` overwritten by `v`. -/
def put (x : Bytes n) (off : Nat) (v : Bytes k) : Bytes n :=
  x ^^^ ((x.slice off k ^^^ v).setWidth (8 * n) <<< (8 * off))

@[simp] theorem getLsbD_slice (x : Bytes n) (off k i : Nat) :
    (x.slice off k).getLsbD i = (decide (i < 8 * k) && x.getLsbD (8 * off + i)) := by
  simp [slice]

theorem getLsbD_put (x : Bytes n) (off : Nat) (v : Bytes k) {i : Nat} (hi : i < 8 * n) :
    (x.put off v).getLsbD i =
      if 8 * off ≤ i ∧ i < 8 * off + 8 * k then v.getLsbD (i - 8 * off) else x.getLsbD i := by
  have hw : i - 8 * off < 8 * n := by omega
  simp only [put, BitVec.getLsbD_xor, BitVec.getLsbD_shiftLeft, BitVec.getLsbD_setWidth,
    getLsbD_slice, hi, hw, decide_true, Bool.true_and]
  by_cases hlo : i < 8 * off
  · simp [hlo, show ¬8 * off ≤ i by omega]
  have hadd : 8 * off + (i - 8 * off) = i := by omega
  by_cases hhi : i < 8 * off + 8 * k
  · have hk : i - 8 * off < 8 * k := by omega
    simp only [hlo, hhi, hk, hadd, show 8 * off ≤ i by omega]
    cases x.getLsbD i <;> cases v.getLsbD (i - 8 * off) <;> rfl
  · have hk : ¬i - 8 * off < 8 * k := by omega
    have hv : v.getLsbD (i - 8 * off) = false := BitVec.getLsbD_of_ge _ _ (by omega)
    simp [hhi, hk, hv]

/-- Slices agree when their bits do. -/
theorem slice_congr {x : Bytes n} {y : Bytes l} {i j : Nat}
    (h : ∀ b < 8 * k, x.getLsbD (8 * i + b) = y.getLsbD (8 * j + b)) :
    x.slice i k = y.slice j k := by
  refine BitVec.eq_of_getLsbD_eq fun b hb => ?_
  rw [getLsbD_slice, getLsbD_slice, h b hb]

/-- What was stored is read back. -/
@[simp] theorem slice_put (x : Bytes n) {off : Nat} (v : Bytes k) (h : off + k ≤ n) :
    (x.put off v).slice off k = v := by
  refine BitVec.eq_of_getLsbD_eq fun b hb => ?_
  rw [getLsbD_slice, getLsbD_put _ _ _ (by omega)]
  have hin : 8 * off ≤ 8 * off + b ∧ 8 * off + b < 8 * off + 8 * k := by omega
  simp [hb]

/-- A store leaves a slice apart from it alone. -/
theorem slice_put_of_disjoint (x : Bytes n) {off i : Nat} (v : Bytes k)
    (h : i + l ≤ off ∨ off + k ≤ i) : (x.put off v).slice i l = x.slice i l := by
  refine slice_congr fun b hb => ?_
  by_cases hn : 8 * i + b < 8 * n
  · rw [getLsbD_put _ _ _ hn, if_neg (by omega)]
  · rw [BitVec.getLsbD_of_ge _ _ (by omega), BitVec.getLsbD_of_ge _ _ (by omega)]

/-- The last of two stores at one place counts. -/
theorem put_put (x : Bytes n) (off : Nat) (v w : Bytes k) :
    (x.put off v).put off w = x.put off w := by
  refine BitVec.eq_of_getLsbD_eq fun b hb => ?_
  rw [getLsbD_put _ _ _ hb, getLsbD_put _ _ _ hb, getLsbD_put _ _ _ hb]
  split <;> rfl

/-! ## Chunks -/

/-- The buffer whose consecutive `k`-byte chunks are `xs`, with zeros after them. -/
def join : List (Bytes k) → Bytes n
  | [] => 0
  | x :: xs => put (join xs <<< (8 * k)) 0 x

def chunks (x : Bytes n) (k count : Nat) : List (Bytes k) :=
  (List.range count).map fun i => x.slice (k * i) k

theorem getLsbD_join (xs : List (Bytes k)) {b : Nat} (hb : b < 8 * n) (hk : 0 < k) :
    (join xs : Bytes n).getLsbD b = (xs.getD (b / (8 * k)) 0).getLsbD (b % (8 * k)) := by
  -- the recursion drops one chunk, so the bit moves down by one chunk
  induction xs generalizing b with
  | nil => simp [join]
  | cons x xs ih =>
    rw [join, getLsbD_put _ _ _ hb]
    by_cases hlt : b < 8 * k
    · rw [if_pos (by omega), Nat.div_eq_of_lt hlt, Nat.mod_eq_of_lt hlt]
      simp
    have hge : 8 * k ≤ b := by omega
    have hdiv : b / (8 * k) = (b - 8 * k) / (8 * k) + 1 := Nat.div_eq_sub_div (by omega) hge
    rw [if_neg (by omega), BitVec.getLsbD_shiftLeft, ih (by omega), hdiv,
      List.getD_cons_succ, ← Nat.mod_eq_sub_mod hge]
    simp [hb, hlt]

end Bytes

end Robu.Lib
