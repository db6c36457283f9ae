import Robu.Ext2.Bulk
import Robu.Kernel.Exit

/-!
# The name of a program

A program that is not part of the kernel's image is asked of the file server.  Its name goes there
in three registers, and is cut off after 24 characters on both ways: `inject_request` hands it to
a server that waits, and `execreq_try_deliver_queued` to one that asks later.
-/

namespace Robu.Kernel

open Ext2 (Byte cString)

/-- The loop of `inject_request` that measures a name, at character `n`. -/
def nameLength : Nat → List Byte → Nat
  | n, b :: bs => if b ≠ 0 ∧ n < 24 then nameLength (n + 1) bs else n
  | n, [] => n

/-- What `inject_request` copies of a name. -/
def injectedName (name : List Byte) : List Byte :=
  name.take (if nameLength 0 name < 24 then nameLength 0 name else 24)

/-- The loop of `submit_execreq` and `execreq_try_deliver_queued` that copies a name to a buffer,
at character `j`. -/
def copyName (size : Nat) : Nat → List Byte → List Byte
  | j, b :: bs => if b ≠ 0 ∧ j + 1 < size then b :: copyName size (j + 1) bs else []
  | _, [] => []

/-- The name in the request `submit_execreq` makes. -/
def requestName (name : List Byte) : List Byte := copyName 64 0 name

/-- What `sys_ipc` hands to a server that asks: of a buffer of 25 characters the first 24. -/
def queuedName (name : List Byte) : List Byte := (copyName 25 0 name).take 24

/-- The name `handle_read_bulk` looks up, for the registers it gets. -/
def lookedUp (f : Uctx) : List Byte :=
  let characters (w : Word) : List Byte := (List.range 8).map fun i => (w >>> (8 * i)).setWidth 8
  cString ((characters f.r12 ++ characters f.r13 ++ characters f.r14).take 24)

variable {name : List Byte}

theorem injectedName_eq (h : 0 ∉ name) : injectedName name = name.take 24 := by
  have hlen : ∀ n, n ≤ 24 → nameLength n name = min (n + name.length) 24 := by
    induction name with
    | nil => exact fun n hn => (Nat.min_eq_left hn).symm
    | cons b bs ih =>
      intro n hn
      have hb : b ≠ 0 := fun hb => h (hb ▸ .head _)
      rw [nameLength, List.length_cons]
      split
      · rw [ih (fun hmem => h (.tail _ hmem)) _ (by omega)]
        omega
      · rename_i hno
        have := mt (And.intro hb) hno
        omega
  rw [injectedName, hlen 0 (by decide)]
  split
  · rw [show min (0 + name.length) 24 = name.length by
      omega, List.take_length, List.take_of_length_le (by omega)]
  · rfl

theorem copyName_eq (h : 0 ∉ name) (size j : Nat) :
    copyName size j name = name.take (size - 1 - j) := by
  induction name generalizing j with
  | nil => simp [copyName]
  | cons b bs ih =>
    have hb : b ≠ 0 := fun hb => h (hb ▸ .head _)
    rw [copyName]
    split
    · rw [ih fun hmem => h (.tail _ hmem), show size - 1 - j = size - 1 - (j + 1) + 1 by omega,
        List.take_succ_cons]
    · rename_i hno
      have := mt (And.intro hb) hno
      rw [show size - 1 - j = 0 by omega, List.take_zero]

theorem getLsbD_pack {l : List Byte} (hl : l.length ≤ 8) (n : Nat) :
    (l.foldr (fun b (acc : Word) => acc <<< 8 ||| b.setWidth 64) 0).getLsbD n =
      (l.getD (n / 8) 0).getLsbD (n % 8) := by
  induction l generalizing n with
  | nil => simp
  | cons b l ih =>
    rw [List.length_cons] at hl
    rw [List.foldr_cons, BitVec.getLsbD_or, BitVec.getLsbD_shiftLeft, BitVec.getLsbD_setWidth,
      ih (by omega)]
    by_cases hn : n < 8
    · rw [Nat.div_eq_of_lt hn, Nat.mod_eq_of_lt hn]
      simp [hn, show n < 64 by omega]
    · rw [show n / 8 = (n - 8) / 8 + 1 by omega, show (n - 8) % 8 = n % 8 by omega,
        List.getD_cons_succ, BitVec.getLsbD_of_ge b n (by omega)]
      by_cases h64 : n < 64
      · simp [hn, h64]
      · simp [h64, List.getElem?_eq_none (show l.length ≤ (n - 8) / 8 by omega)]

/-- The server sees 24 bytes of a name. -/
theorem lookedUp_bulkReadRegs (f : Uctx) (i : Fin 8) (generation : BitVec 16) (h : 0 ∉ name) :
    lookedUp (bulkReadRegs f i generation name) = name.take 24 := by
  generalize hcut : name.take 24 = cut
  have hlen : cut.length ≤ 24 := by simp [← hcut]
  have hzero : 0 ∉ cut := fun hmem => h (List.mem_of_mem_take (hcut ▸ hmem))
  have hchars : ∀ off, (List.range 8).map (fun j => (packWord cut off >>> (8 * j)).setWidth 8) =
      (List.range' off 8).map (cut.getD · 0) := by
    intro off
    rw [List.range'_eq_map_range, List.map_map]
    refine List.map_congr_left fun j hj => BitVec.eq_of_getLsbD_eq fun b hb => ?_
    rw [BitVec.getLsbD_setWidth, BitVec.getLsbD_ushiftRight, packWord, getLsbD_pack (by simp),
      show (8 * j + b) / 8 = j by omega, show (8 * j + b) % 8 = b by omega]
    simp [hb, List.mem_range.mp hj]
  have hbytes : lookedUp (bulkReadRegs f i generation name) =
      cString (cut ++ List.replicate (24 - cut.length) 0) := by
    rw [lookedUp, bulkReadRegs, hcut]
    dsimp only
    rw [hchars, hchars, hchars, ← List.map_append, ← List.map_append,
      show List.range' 0 8 ++ List.range' 8 8 ++ List.range' 16 8 = List.range 24 from rfl]
    refine congrArg cString (List.ext_getElem (by simp; omega) fun j hj _ => ?_)
    by_cases hcutj : j < cut.length
    · simp [hcutj]
    · simp [hcutj, List.getElem_append]
  rw [hbytes, cString, List.takeWhile_append_of_pos, List.takeWhile_replicate_eq_filter]
  · simp
  · simpa using fun b hb => (ne_of_mem_of_not_mem hb hzero)

/-- Both ways the server gets the registers of the model. -/
theorem bulkReadRegs_names (f : Uctx) (i : Fin 8) (generation : BitVec 16) (h : 0 ∉ name) :
    bulkReadRegs f i generation (injectedName name) = bulkReadRegs f i generation name ∧
      bulkReadRegs f i generation (queuedName name) = bulkReadRegs f i generation name := by
  have htake : bulkReadRegs f i generation (name.take 24) = bulkReadRegs f i generation name := by
    rw [bulkReadRegs, List.take_take]
    rfl
  rw [injectedName_eq h, queuedName, copyName_eq h, List.take_take]
  exact ⟨htake, htake⟩

/-- **The name asked for.**  Both ways the name looked up is the first 24 characters of the one in
the request, so it is that name just if there are no more. -/
theorem lookedUp_eq_iff (f : Uctx) (i : Fin 8) (generation : BitVec 16) (hlen : name.length ≤ 63)
    (hname : 0 ∉ name) :
    lookedUp (bulkReadRegs f i generation (injectedName (requestName name))) =
        lookedUp (bulkReadRegs f i generation (queuedName (requestName name))) ∧
      (lookedUp (bulkReadRegs f i generation (injectedName (requestName name))) = name ↔
        name.length ≤ 24) := by
  rw [requestName, copyName_eq hname, List.take_of_length_le hlen]
  obtain ⟨hinject, hqueue⟩ := bulkReadRegs_names f i generation hname
  rw [hinject, hqueue, lookedUp_bulkReadRegs f i generation hname, List.take_eq_self_iff]
  exact ⟨rfl, Iff.rfl⟩

def longName : List Byte := List.replicate 25 0x61

theorem lookedUp_eq_iff_longName :
    lookedUp (bulkReadRegs {} 0 0 (injectedName (requestName longName))) =
      lookedUp (bulkReadRegs {} 0 0 (queuedName (requestName longName))) :=
  (lookedUp_eq_iff {} 0 0 (by decide) (by decide)).1

theorem lookedUp_longName :
    lookedUp (bulkReadRegs {} 0 0 (injectedName (requestName longName))) ≠ longName := by
  decide

end Robu.Kernel
