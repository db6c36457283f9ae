import Mathlib.Data.BitVec
import Mathlib.Data.List.Perm.Basic

/-!
# Ledgers

A ledger of things that come in and go out balances if what came in is what went out and what
is left.  `perm_carry` closes one period of it.

A word collects the bits that are signalled to it, and whoever takes it gets all of them.  A
ledger records both.  `Conserved` says that the word holds what the ledger says it should, and
that nobody has taken anything else.
-/

namespace Robu.Lib

/-- The balance is carried over a period: what came in during it, with what was left before, is
what went out during it and what is left after. -/
theorem perm_carry {α : Type*} {into out new gone left left' : List α} (h : into.Perm (out ++ left))
    (hperiod : (new ++ left).Perm (gone ++ left')) : (into ++ new).Perm (out ++ gone ++ left') :=
  calc
    (into ++ new).Perm (out ++ left ++ new) := h.append_right new
    _ = out ++ (left ++ new) := List.append_assoc ..
    (out ++ (left ++ new)).Perm (out ++ (new ++ left)) := List.perm_append_comm.append_left out
    (out ++ (new ++ left)).Perm (out ++ (gone ++ left')) := hperiod.append_left out
    _ = out ++ gone ++ left' := (List.append_assoc ..).symm

variable {n : Nat}

inductive Entry (n : Nat)
  | signal (bits : BitVec n)
  | take (bits : BitVec n)
deriving DecidableEq

def pending (log : List (Entry n)) : BitVec n :=
  log.foldl (fun bits entry => match entry with
    | .signal more => bits ||| more
    | .take _ => 0) 0

@[simp] theorem pending_signal (log : List (Entry n)) (bits : BitVec n) :
    pending (log ++ [.signal bits]) = pending log ||| bits := by
  simp [pending]

@[simp] theorem pending_take (log : List (Entry n)) (bits : BitVec n) :
    pending (log ++ [.take bits]) = 0 := by
  simp [pending]

/-- **Conservation.**  The word holds what has been signalled since it was last taken, and
each time it was taken it held what had been signalled since the time before. -/
structure Conserved (log : List (Entry n)) (word : BitVec n) : Prop where
  pending : pending log = word
  taken : ∀ {before after : List (Entry n)} {bits : BitVec n},
    log = before ++ .take bits :: after → bits = Lib.pending before

namespace Conserved

variable {log : List (Entry n)} {word : BitVec n}

theorem nil : Conserved ([] : List (Entry n)) 0 := ⟨rfl, fun h => by simp at h⟩

theorem signal (h : Conserved log word) (bits : BitVec n) :
    Conserved (log ++ [.signal bits]) (word ||| bits) := by
  refine ⟨by rw [pending_signal, h.pending], fun {before after taken} heq => ?_⟩
  rcases List.eq_nil_or_concat after with rfl | ⟨rest, last, rfl⟩
  · have hlast := (List.append_inj' heq rfl).2
    simp at hlast
  · rw [List.concat_eq_append, ← List.cons_append, ← List.append_assoc] at heq
    exact h.taken (List.append_inj' heq rfl).1

theorem take (h : Conserved log word) : Conserved (log ++ [.take word]) 0 := by
  refine ⟨pending_take .., fun {before after taken} heq => ?_⟩
  rcases List.eq_nil_or_concat after with rfl | ⟨rest, last, rfl⟩
  · obtain ⟨hlog, hlast⟩ := List.append_inj' heq rfl
    obtain rfl : word = taken := by simpa using hlast
    rw [← hlog, h.pending]
  · rw [List.concat_eq_append, ← List.cons_append, ← List.append_assoc] at heq
    exact h.taken (List.append_inj' heq rfl).1

end Conserved

end Robu.Lib
