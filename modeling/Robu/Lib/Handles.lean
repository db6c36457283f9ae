import Mathlib.Data.BitVec
import Mathlib.Tactic.Common

/-!
# References with generations

The entries of a table are used again and again.  Each has a generation, which grows when the
entry is given back, and a reference is an entry with a generation of it: it is live while the
entry is in use at that generation.

`Issued` is what remains true of a reference that was live once, as long as generations only
grow (`Ages`): either it is live, or its generation is past.  So a reference that is live after
some steps was live before each of them (`Issued.live_of_ages`), and no entry that is taken into
use makes an old reference live.

As a number, a reference has the generation above the `k` bits of the entry (`toNat_tag`).
-/

universe u v

namespace Robu.Lib

structure Slots (ι : Type u) (γ : Type v) where
  use : ι → Prop
  gen : ι → γ

namespace Slots

variable {ι : Type u} {γ : Type v} [PartialOrder γ] {T T' : Slots ι γ} {i : ι} {g : γ}

def Live (T : Slots ι γ) (i : ι) (g : γ) : Prop := T.use i ∧ T.gen i = g

def Issued (T : Slots ι γ) (i : ι) (g : γ) : Prop := g ≤ T.gen i ∧ (g = T.gen i → T.use i)

/-- Generations grow, and an entry in use is given back only with a new generation. -/
structure Ages (T T' : Slots ι γ) : Prop where
  le : ∀ i, T.gen i ≤ T'.gen i
  use : ∀ i, T.gen i = T'.gen i → T.use i → T'.use i

theorem Live.issued (h : T.Live i g) : T.Issued i g := ⟨h.2 ▸ le_refl _, fun _ => h.1⟩

theorem Issued.ages (h : T.Issued i g) (hages : T.Ages T') : T'.Issued i g := by
  refine ⟨le_trans h.1 (hages.le i), fun hg => ?_⟩
  have hsame : T.gen i = T'.gen i := le_antisymm (hages.le i) (hg ▸ h.1)
  exact hages.use i hsame (h.2 (hg.trans hsame.symm))

/-- **A reference does not come back to life.** -/
theorem Issued.live_of_ages (h : T.Issued i g) (hages : T.Ages T') (hlive : T'.Live i g) :
    T.Live i g := by
  have hsame : g = T.gen i := le_antisymm h.1 (hlive.2 ▸ hages.le i)
  exact ⟨h.2 hsame, hsame.symm⟩

/-- An entry that is not in use has no reference of its present generation. -/
theorem Issued.ne_gen (h : T.Issued i g) (hfree : ¬ T.use i) : g ≠ T.gen i :=
  fun hg => hfree (h.2 hg)

end Slots

section Tag

variable {v w k i : Nat} (g : BitVec v) (hw : v + k ≤ w) (hi : i < 2 ^ k)
include hw hi

theorem toNat_tag : (g.setWidth w <<< k ||| BitVec.ofNat w i).toNat = g.toNat * 2 ^ k + i := by
  have hk : 2 ^ k ≤ 2 ^ w := Nat.pow_le_pow_right (by decide) (by omega)
  have hg : g.toNat * 2 ^ k < 2 ^ w :=
    calc g.toNat * 2 ^ k < 2 ^ v * 2 ^ k := Nat.mul_lt_mul_of_pos_right g.isLt (Nat.two_pow_pos k)
      _ = 2 ^ (v + k) := (Nat.pow_add ..).symm
      _ ≤ 2 ^ w := Nat.pow_le_pow_right (by decide) hw
  rw [BitVec.toNat_or, BitVec.toNat_shiftLeft, BitVec.toNat_setWidth_of_le (by omega),
    BitVec.toNat_ofNat, Nat.mod_eq_of_lt (Nat.lt_of_lt_of_le hi hk), Nat.shiftLeft_eq,
    Nat.mod_eq_of_lt hg, ← Nat.shiftLeft_eq, ← Nat.shiftLeft_add_eq_or_of_lt hi, Nat.shiftLeft_eq]

theorem tag_low : ((g.setWidth w <<< k ||| BitVec.ofNat w i) &&&
    BitVec.ofNat w (2 ^ k - 1)).toNat = i := by
  have hk : 2 ^ k ≤ 2 ^ w := Nat.pow_le_pow_right (by decide) (by omega)
  rw [BitVec.toNat_and, toNat_tag g hw hi, BitVec.toNat_ofNat, Nat.mod_eq_of_lt (by omega),
    Nat.and_two_pow_sub_one_eq_mod, Nat.mul_add_mod', Nat.mod_eq_of_lt hi]

theorem tag_high : ((g.setWidth w <<< k ||| BitVec.ofNat w i) >>> k).setWidth v = g := by
  refine BitVec.eq_of_toNat_eq ?_
  rw [BitVec.toNat_setWidth, BitVec.toNat_ushiftRight, toNat_tag g hw hi,
    Nat.shiftRight_eq_div_pow, Nat.mul_comm, Nat.mul_add_div (Nat.two_pow_pos k),
    Nat.div_eq_of_lt hi]
  exact Nat.mod_eq_of_lt g.isLt

end Tag

end Robu.Lib
