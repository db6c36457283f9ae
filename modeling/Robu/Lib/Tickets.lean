import Mathlib.Data.List.Nodup
import Mathlib.Logic.Function.Basic

/-!
# Tickets

Each slot of a table serves one ticket after another.  The outcome of a ticket may be known
some time before its slot is free for the next one: the slot is *settled* in between.

A record beside the table numbers the tickets of each slot and lists the outcomes.  `Listed`
says which tickets have one; none has two as long as no settled slot is settled again.
-/

universe u

namespace Robu.Lib

structure Tickets (ι : Type u) where
  /-- The tickets each slot is done with. -/
  closed : ι → Nat
  /-- The tickets whose outcome is known, the latest first. -/
  outcomes : List (ι × Nat)

namespace Tickets

variable {ι : Type u} {T : Tickets ι} {i : ι} {settled settled' : ι → Prop}

def new : Tickets ι := ⟨fun _ => 0, []⟩

/-- The outcome of the ticket in slot `i` is known. -/
def settle (T : Tickets ι) (i : ι) : Tickets ι :=
    { T with outcomes := (i, T.closed i) :: T.outcomes }

/-- Slot `i` is free for the next ticket. -/
def close [DecidableEq ι] (T : Tickets ι) (i : ι) : Tickets ι :=
  { T with closed := Function.update T.closed i (T.closed i + 1) }

/-- **Listed.**  The tickets with an outcome are those the slots are done with, and those in
settled slots. -/
def Listed (T : Tickets ι) (settled : ι → Prop) : Prop :=
  ∀ i n, (i, n) ∈ T.outcomes ↔ n < T.closed i ∨ n = T.closed i ∧ settled i

theorem listed_new (h : ∀ i, ¬ settled i) : (new : Tickets ι).Listed settled := by
  intro i n
  simp [new, h i]

theorem Listed.congr (h : T.Listed settled) (hs : ∀ j, settled' j ↔ settled j) :
    T.Listed settled' := by
  intro i n
  rw [h, hs]

/-- An outcome becomes known. -/
theorem Listed.settle (h : T.Listed settled) (hi : settled' i)
    (hs : ∀ j, j ≠ i → (settled' j ↔ settled j)) : (T.settle i).Listed settled' := by
  intro j n
  change (j, n) ∈ (i, T.closed i) :: T.outcomes ↔ n < T.closed j ∨ n = T.closed j ∧ settled' j
  rw [List.mem_cons, Prod.mk.injEq, h]
  rcases eq_or_ne j i with rfl | hne
  · tauto
  · rw [hs j hne]
    tauto

/-- An outcome is one too many if there is one already. -/
theorem Listed.nodup_settle (h : T.Listed settled) :
    (T.settle i).outcomes.Nodup ↔ T.outcomes.Nodup ∧ ¬ settled i := by
  rw [Tickets.settle, List.nodup_cons, h]
  simp [and_comm]

variable [DecidableEq ι]

/-- A slot is closed. -/
theorem Listed.close (h : T.Listed settled) (hi : settled i) (hi' : ¬ settled' i)
    (hs : ∀ j, j ≠ i → (settled' j ↔ settled j)) : (T.close i).Listed settled' := by
  intro j n
  change _ ↔ n < Function.update T.closed i (T.closed i + 1) j ∨
    n = Function.update T.closed i (T.closed i + 1) j ∧ settled' j
  refine (h j n).trans ?_
  rcases eq_or_ne j i with rfl | hne
  · rw [Function.update_self]
    simp only [hi, hi', and_true, and_false, or_false]
    omega
  · rw [Function.update_of_ne hne, hs j hne]

/-- A slot is closed with an outcome. -/
theorem Listed.settle_close (h : T.Listed settled) (hi : ¬ settled' i)
    (hs : ∀ j, j ≠ i → (settled' j ↔ settled j)) : ((T.settle i).close i).Listed settled' := by
  have hsettle : (T.settle i).Listed fun j => j = i ∨ settled j :=
    h.settle (.inl rfl) fun j hne => by simp [hne]
  exact hsettle.close (.inl rfl) hi fun j hne => by simp [hne, hs j hne]

end Tickets

end Robu.Lib
