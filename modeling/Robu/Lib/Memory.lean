import Mathlib.Data.BitVec
import Mathlib.Tactic.Common

/-!
# Byte memory

A memory of 64-bit addresses, one byte at each.  Words of eight bytes are loaded and stored
at any address, aligned or not, least significant byte first.

The bytes from `a` on are told apart by their distance `b - a`, so that nothing has to be
said about addresses that wrap around.
-/

namespace Robu.Lib

/-- Clearing the low bits rounds down. -/
theorem toNat_and_not_ones {w : Nat} (x : BitVec w) (k : Nat) :
    (x &&& ~~~ BitVec.ofNat w (2 ^ k - 1)).toNat = x.toNat / 2 ^ k * 2 ^ k := by
  apply Nat.eq_of_testBit_eq
  intro i
  rw [Nat.testBit_mul_two_pow, Nat.testBit_div_two_pow, BitVec.testBit_toNat, BitVec.testBit_toNat,
    BitVec.getLsbD_and, BitVec.getLsbD_not, BitVec.getLsbD_ofNat, Nat.testBit_two_pow_sub_one]
  rcases Nat.lt_or_ge i w with hi | hi
  · rcases Nat.lt_or_ge i k with hk | hk
    · simp [hi, hk]
    · simp [hi, hk]
  · rcases Nat.lt_or_ge i k with hk | hk
    · simp [BitVec.getLsbD_of_ge x i hi, hk]
    · simp [BitVec.getLsbD_of_ge x i hi, hk]

section Copy
universe u
variable {α : Type u} {m src f g : Nat → α} {pos len len' : Nat}

/-- The array with the first `len` entries of another at `pos`. -/
def copy (m : Nat → α) (pos len : Nat) (src : Nat → α) : Nat → α := fun a =>
  if pos ≤ a ∧ a < pos + len then src (a - pos) else m a

theorem copy_add {i : Nat} (h : i < len) : copy m pos len f (pos + i) = f i := by
  rw [copy, if_pos ⟨Nat.le_add_right .., Nat.add_lt_add_left h pos⟩, Nat.add_sub_cancel_left]

theorem copy_zero : copy m pos 0 src = m := funext fun _ => if_neg (by omega)

/-- Copies in a row are one. -/
theorem copy_copy (hf : ∀ i < len, src i = f i) (hg : ∀ i, g i = f (len + i)) :
    copy (copy m pos len src) (pos + len) len' g = copy m pos (len + len') f := by
  funext a
  unfold copy
  by_cases hlow : pos ≤ a ∧ a < pos + len
  · rw [if_neg (by omega), if_pos hlow, if_pos (by omega), hf _ (by omega)]
  · rw [if_neg hlow]
    refine ite_congr (propext (by omega)) (fun _ => ?_) fun _ => rfl
    rw [hg]
    exact congrArg f (by omega)

end Copy

abbrev Memory := BitVec 64 → BitVec 8

namespace Memory

variable {m m' : Memory} {a b v : BitVec 64} {n : Nat}

def load64 (m : Memory) (a : BitVec 64) : BitVec 64 :=
  m (a + 7#64) ++ m (a + 6#64) ++ m (a + 5#64) ++ m (a + 4#64) ++ m (a + 3#64) ++ m (a + 2#64) ++
    m (a + 1#64) ++ m (a + 0#64)

def store64 (m : Memory) (a v : BitVec 64) : Memory := fun b =>
  if (b - a).toNat < 8 then v.extractLsb' (8 * (b - a).toNat) 8 else m b

/-- Store `n` words of zeros from `a` on. -/
@[irreducible]
def zeroWords (m : Memory) (a : BitVec 64) (n : Nat) : Memory :=
  (List.range n).foldl (fun m i => m.store64 (a + BitVec.ofNat 64 (8 * i)) 0) m

theorem store64_of_far (h : 8 ≤ (b - a).toNat) : m.store64 a v b = m b := if_neg (by omega)

/-- Bit `j` of a word is bit `j % 8` of byte `j / 8`. -/
theorem getLsbD_load64 {j : Nat} (hj : j < 64) :
    (m.load64 a).getLsbD j = (m (a + BitVec.ofNat 64 (j / 8))).getLsbD (j % 8) := by
  have hbyte : ∀ i k, j = 8 * i + k → k < 8 →
      (m (a + BitVec.ofNat 64 (j / 8))).getLsbD (j % 8) =
        (m (a + BitVec.ofNat 64 i)).getLsbD k := by
    rintro i k rfl hk
    rw [show (8 * i + k) / 8 = i by omega, show (8 * i + k) % 8 = k by omega]
  simp only [load64, BitVec.getLsbD_append]
  repeat' split
  all_goals exact (hbyte _ _ (by omega) (by omega)).symm

/-- The distance of byte `i` of the word at `a`. -/
theorem toNat_byte_sub {i : Nat} (hi : i < 8) : (a + BitVec.ofNat 64 i - a).toNat = i := by
  rw [show a + BitVec.ofNat 64 i - a = BitVec.ofNat 64 i by bv_omega, BitVec.toNat_ofNat]
  omega

/-- A word is determined by its eight bytes. -/
theorem load64_congr (h : ∀ b, (b - a).toNat < 8 → m' b = m b) : m'.load64 a = m.load64 a := by
  refine BitVec.eq_of_getLsbD_eq fun j hj => ?_
  have hlt : j / 8 < 8 := by omega
  rw [getLsbD_load64 hj, getLsbD_load64 hj, h _ (by rwa [toNat_byte_sub hlt])]

/-- What was stored is loaded. -/
@[simp] theorem load64_store64 : (m.store64 a v).load64 a = v := by
  refine BitVec.eq_of_getLsbD_eq fun j hj => ?_
  have hlt : j / 8 < 8 := by omega
  rw [getLsbD_load64 hj, store64, toNat_byte_sub hlt, if_pos hlt, BitVec.getLsbD_extractLsb',
    Nat.div_add_mod]
  simp [Nat.mod_lt]

/-- Byte `i` of a loaded word. -/
theorem extractLsb'_load64 {i : Nat} (hi : i < 8) :
    (m.load64 a).extractLsb' (8 * i) 8 = m (a + BitVec.ofNat 64 i) := by
  refine BitVec.eq_of_getLsbD_eq fun j hj => ?_
  rw [BitVec.getLsbD_extractLsb', getLsbD_load64 (by omega), show (8 * i + j) / 8 = i by omega,
    show (8 * i + j) % 8 = j by omega]
  simp [hj]

/-- The loop clears the bytes from `a` on. -/
theorem zeroWords_apply (hn : 8 * n ≤ 2 ^ 63) :
    m.zeroWords a n b = if (b - a).toNat < 8 * n then 0 else m b := by
  unfold zeroWords
  induction n with
  | zero => simp
  | succ n ih =>
    rw [List.range_succ, List.foldl_append]
    show store64 _ _ _ b = _
    rw [store64, ih (by omega)]
    have hdist : (b - (a + BitVec.ofNat 64 (8 * n))).toNat < 8 ↔
        8 * n ≤ (b - a).toNat ∧ (b - a).toNat < 8 * (n + 1) := by
      have hlt := (b - a).isLt
      rw [show b - (a + BitVec.ofNat 64 (8 * n)) = b - a - BitVec.ofNat 64 (8 * n) by bv_omega]
      rw [BitVec.toNat_sub, BitVec.toNat_ofNat]
      omega
    split
    · rename_i h
      rw [if_pos (by omega)]
      simp
    · rename_i h
      rcases Nat.lt_or_ge (b - a).toNat (8 * n) with hlt | hge
      · rw [if_pos hlt, if_pos (by omega)]
      · rw [if_neg (by omega), if_neg (by omega)]

/-! ## Words as bytes -/

def wordBytes (ws : List (BitVec 64)) : List (BitVec 8) :=
  ws.flatMap fun w => (List.range 8).map fun i => w.extractLsb' (8 * i) 8

/-- Word `j` of the array that holds the bytes `bs`, and zeros behind them. -/
def packWord (bs : List (BitVec 8)) (j : Nat) : BitVec 64 :=
  load64 (fun a => bs.getD a.toNat 0) (BitVec.ofNat 64 (8 * j))

theorem wordBytes_packWord {bs : List (BitVec 8)} (hn : 8 * n ≤ 2 ^ 63) :
    wordBytes ((List.range n).map (packWord bs)) = (List.range (8 * n)).map fun i =>
      bs.getD i 0 := by
  induction n with
  | zero => rfl
  | succ n ih =>
    have hlast : wordBytes [packWord bs n] = (List.range 8).map fun i => bs.getD (8 * n + i) 0 := by
      rw [wordBytes, List.flatMap_singleton]
      refine List.map_congr_left fun i hi => ?_
      have hi : i < 8 := List.mem_range.mp hi
      have haddr : (BitVec.ofNat 64 (8 * n) + BitVec.ofNat 64 i).toNat = 8 * n + i := by
        rw [BitVec.toNat_add, BitVec.toNat_ofNat, BitVec.toNat_ofNat]
        omega
      rw [packWord, extractLsb'_load64 hi, haddr]
    rw [List.range_succ, List.map_append, wordBytes, List.flatMap_append, List.map_singleton]
    show wordBytes _ ++ wordBytes _ = _
    rw [ih (by omega), hlast, Nat.mul_succ, List.range_add, List.map_append, List.map_map]
    rfl

/-- **Round trip.**  Bytes that fit are read back from the array. -/
theorem take_wordBytes_packWord {bs : List (BitVec 8)} (hn : 8 * n ≤ 2 ^ 63)
    (hlen : bs.length ≤ 8 * n) : (wordBytes ((List.range n).map (packWord bs))).take bs.length =
      bs := by
  rw [wordBytes_packWord hn]
  refine List.ext_getElem (by simp [Nat.min_eq_left hlen]) fun i hi hi' => ?_
  simp [hi']

end Memory

end Robu.Lib
