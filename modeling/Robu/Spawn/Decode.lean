import Mathlib.Data.BitVec
import Mathlib.Data.List.DropRight
import Robu.Lib.Fallible

/-!
# Decoding a spawn request

`spawn_create` and `spawn_exec` take the program name, the strings and the descriptors from
a request that the caller wrote.  Its offsets, lengths and counts are any words at all.

Every access of the parser is watched: one past the end of its arrays, or past the declared
length of the request, ends the run with `Fault.outside`.  The only words read before that
length is known are the first two of the header.
-/

namespace Robu.Spawn

open Lib Function
open Lib.Fallible (Ends failIf)

abbrev Mem := Nat → BitVec 8

abbrev Str := List (BitVec 8)

inductive Fault
  /-- `IPC_ERR_NO_CAP` -/
  | noCap
  | outside
deriving DecidableEq

inductive Table
  | argv
  | envp
deriving DecidableEq

/-- What the parser writes: `name`, `spawn_strbuf` with `strbuf_used`, `spawn_argv` and
`spawn_envp` with pointers into it, and `fds`. -/
structure Buffers where
  name : Mem
  strbuf : Mem
  used : Nat
  ptrs : Table → Nat → Option Nat
  fds : Mem

abbrev Parser := Fallible Buffers Fault

def bytesAt (m : Mem) (off len : Nat) : Str :=
  (List.range len).map fun i => m (off + i)

def wordAt (m : Mem) (off : Nat) : BitVec 32 :=
  m (off + 3) ++ m (off + 2) ++ m (off + 1) ++ m off

def place (m : Mem) (pos : Nat) (xs : Str) (i : Nat) : BitVec 8 :=
  if pos ≤ i then xs[i - pos]?.getD (m i) else m i

/-! ## Watched accesses -/

/-- Read `len` bytes at `off`, which are to lie below `limit`. -/
def reading {α : Type} (limit off len : Nat) (a : α) : Parser α := do
  failIf (limit < off + len) .outside
  pure a

/-- Write `len` entries at `pos` of an array of `cap` entries. -/
def writing (cap pos len : Nat) (f : Buffers → Buffers) : Parser PUnit := do
  failIf (cap < pos + len) .outside
  modify f

abbrev readBytes (scratch : Mem) (limit off len : Nat) : Parser Str :=
  reading limit off len (bytesAt scratch off len)

abbrev readWord (scratch : Mem) (limit off : Nat) : Parser (BitVec 32) :=
  reading limit off 4 (wordAt scratch off)

abbrev writeName (pos : Nat) (xs : Str) : Parser PUnit :=
  writing 64 pos xs.length fun b => { b with name := place b.name pos xs }

abbrev writeStr (pos : Nat) (xs : Str) : Parser PUnit :=
  writing 4096 pos xs.length fun b => { b with strbuf := place b.strbuf pos xs }

abbrev writePtr (t : Table) (i : Nat) (p : Option Nat) : Parser PUnit :=
  writing 65 i 1 fun b => { b with ptrs := update b.ptrs t (update (b.ptrs t) i p) }

/-- `fds` has three entries of 24 bytes. -/
abbrev writeFds (xs : Str) : Parser PUnit :=
  writing (3 * 24) 0 xs.length fun b => { b with fds := place b.fds 0 xs }

/-! ## The parser -/

def InRange (off len total : BitVec 32) : Prop := ¬ (total < off ∨ total - off < len)
deriving Decidable

/-- The first loop of `copy_name`, `n` bytes before the end of `name`. -/
def findBase : Nat → Nat → Nat → Parser Nat
  | 0, _, _ => throw .outside
  | n + 1, p, base => do
    let b ← get
    if b.name p = 0 then pure base
    else findBase n (p + 1) (if b.name p = 47 then p + 1 else base)

/-- Its second loop, which moves the string at `base` to the front. -/
def shiftName (base : Nat) : Nat → Nat → Parser PUnit
  | 0, _ => throw .outside
  | n + 1, i => do
    let b ← get
    if b.name (base + i) = 0 then writeName i [0]
    else
      writeName i [b.name (base + i)]
      shiftName base n (i + 1)

def copyName (scratch : Mem) (total off len : BitVec 32) : Parser PUnit := do
  failIf (¬ InRange off len total) .noCap
  failIf (len = 0 ∨ 64 < len + 1) .noCap
  let bytes ← readBytes scratch total.toNat off.toNat len.toNat
  writeName 0 bytes
  writeName len.toNat [0]
  let base ← findBase 64 0 0
  if base ≠ 0 then shiftName base (64 - base) 0 else pure PUnit.unit

/-- The loop of `copy_str_array`: `n` entries of the table from the `i`-th on. -/
def copyStrs (scratch : Mem) (total : BitVec 32) (t : Table) (table : Nat) :
    Nat → Nat → Parser PUnit
  | 0, i => writePtr t i none
  | n + 1, i => do
    let off ← readWord scratch total.toNat (table + 8 * i)
    let len ← readWord scratch total.toNat (table + 8 * i + 4)
    failIf (¬ InRange off len total) .noCap
    let b ← get
    failIf (4096 < b.used + len.toNat + 1) .noCap
    let bytes ← readBytes scratch total.toNat off.toNat len.toNat
    writeStr b.used bytes
    writeStr (b.used + len.toNat) [0]
    writePtr t i (some b.used)
    modify fun b' => { b' with used := (b.used + len.toNat + 1) % 2 ^ 32 }
    copyStrs scratch total t table n (i + 1)

def copyStrArray (scratch : Mem) (total : BitVec 32) (t : Table) (table count : BitVec 32) :
    Parser PUnit :=
  if count = 0 then writePtr t 0 none
  else do
    failIf (¬ InRange table (count * 8) total) .noCap
    copyStrs scratch total t table.toNat count.toNat 0

/-- The part `spawn_create` and `spawn_exec` share, once the request is in `spawn_scratch`. -/
def decode (scratch : Mem) (reqLen : Nat) : Parser PUnit := do
  failIf (reqLen = 0 ∨ 4096 < reqLen) .noCap
  failIf (reqLen < 40) .noCap
  let magic ← readWord scratch 8 0
  failIf (magic ≠ 0x314e5053) .noCap
  let total ← readWord scratch 8 4
  failIf (total.toNat < 40 ∨ reqLen < total.toNat) .noCap
  let argc ← readWord scratch total.toNat 16
  failIf (64 < argc) .noCap
  let envc ← readWord scratch total.toNat 24
  failIf (64 < envc) .noCap
  let nfds ← readWord scratch total.toNat 32
  failIf (3 < nfds) .noCap
  let fdsOff ← readWord scratch total.toNat 36
  failIf (¬ InRange fdsOff (nfds * 24) total) .noCap
  let nameOff ← readWord scratch total.toNat 8
  let nameLen ← readWord scratch total.toNat 12
  copyName scratch total nameOff nameLen
  modify fun b => { b with used := 0 }
  let argvOff ← readWord scratch total.toNat 20
  copyStrArray scratch total .argv argvOff argc
  let envpOff ← readWord scratch total.toNat 28
  copyStrArray scratch total .envp envpOff envc
  if nfds ≠ 0 then do
    let fds ← readBytes scratch total.toNat fdsOff.toNat (nfds.toNat * 24)
    writeFds fds
  else pure PUnit.unit

/-! ## What the request says -/

def cString (xs : Str) : Str := xs.takeWhile (· ≠ 0)

def baseName (xs : Str) : Str := xs.rtakeWhile (· ≠ 47)

def strAt (scratch : Mem) (table i : Nat) : Str :=
  bytesAt scratch (wordAt scratch (table + 8 * i)).toNat (wordAt scratch (table + 8 * i + 4)).toNat

def strsAt (scratch : Mem) (table count : Nat) : List Str :=
  (List.range count).map (strAt scratch table)

def packed (strs : List Str) : Str := strs.flatMap (· ++ [0])

/-- The pointers to the strings of a table, which are stored after those of `before`. -/
structure PointsTo (ptrs : Nat → Option Nat) (before : List Str)
    (scratch : Mem) (table count : Nat) : Prop where
  ptr : ∀ i < count, ptrs i = some (packed (before ++ strsAt scratch table i)).length
  null : ptrs count = none

def args (scratch : Mem) : List Str :=
  strsAt scratch (wordAt scratch 20).toNat (wordAt scratch 16).toNat

def envs (scratch : Mem) : List Str :=
  strsAt scratch (wordAt scratch 28).toNat (wordAt scratch 24).toNat

structure Exact (scratch : Mem) (reqLen : Nat) (b : Buffers) : Prop where
  total : (wordAt scratch 4).toNat ≤ reqLen ∧ reqLen ≤ 4096
  name : cString (bytesAt b.name 0 64) =
    baseName (cString (bytesAt scratch (wordAt scratch 8).toNat (wordAt scratch 12).toNat))
  strbuf : bytesAt b.strbuf 0 b.used = packed (args scratch ++ envs scratch)
  argv : PointsTo (b.ptrs .argv) [] scratch (wordAt scratch 20).toNat (wordAt scratch 16).toNat
  envp : PointsTo (b.ptrs .envp) (args scratch) scratch (wordAt scratch 28).toNat
    (wordAt scratch 24).toNat
  fds : bytesAt b.fds 0 ((wordAt scratch 32).toNat * 24) =
    bytesAt scratch (wordAt scratch 36).toNat ((wordAt scratch 32).toNat * 24)

/-! ## Bytes -/

variable {m m' : Mem} {off len pos : Nat} {xs : Str}

@[simp] theorem length_bytesAt : (bytesAt m off len).length = len := by
  rw [bytesAt, List.length_map, List.length_range]

theorem bytesAt_congr (h : ∀ i < len, m (off + i) = m' (off + i)) :
    bytesAt m off len = bytesAt m' off len :=
  List.map_congr_left fun i hi => h i (List.mem_range.mp hi)

theorem bytesAt_succ : bytesAt m off (len + 1) = bytesAt m off len ++ [m (off + len)] := by
  rw [bytesAt, List.range_succ, List.map_append, List.map_singleton, bytesAt]

theorem bytesAt_place_of_le (h : off + len ≤ pos) :
    bytesAt (place m pos xs) off len = bytesAt m off len :=
  bytesAt_congr fun i hi => if_neg (by omega)

theorem bytesAt_place (m : Mem) (pos : Nat) (xs : Str) :
    bytesAt (place m pos xs) pos xs.length = xs := by
  refine List.ext_getElem length_bytesAt fun i _ hi => ?_
  simp [bytesAt, place, hi]

theorem bytesAt_append (a : Nat) :
    bytesAt m off (a + len) = bytesAt m off a ++ bytesAt m (off + a) len := by
  induction len with
  | zero => simp [bytesAt]
  | succ len ih =>
    rw [← Nat.add_assoc, bytesAt_succ, ih, bytesAt_succ, List.append_assoc, Nat.add_assoc off]

/-- What follows the bytes that are there. -/
theorem bytesAt_place_append (m : Mem) (pos : Nat) (xs : Str) :
    bytesAt (place m pos xs) 0 (pos + xs.length) = bytesAt m 0 pos ++ xs := by
  rw [bytesAt_append, bytesAt_place_of_le (by omega), Nat.zero_add, bytesAt_place]

theorem bytesAt_place_snoc (m : Mem) (pos : Nat) (v : BitVec 8) :
    bytesAt (place m pos [v]) 0 (pos + 1) = bytesAt m 0 pos ++ [v] :=
  bytesAt_place_append m pos [v]

theorem cString_snoc (xs : Str) : cString (xs ++ [0]) = cString xs := by
  induction xs with
  | nil => rfl
  | cons x xs ih =>
    unfold cString at ih ⊢
    rw [List.cons_append, List.takeWhile_cons, List.takeWhile_cons, ih]

/-- The string in an array ends at the first zero byte. -/
theorem cString_bytesAt {z : Nat} (cap : Nat) (hz : z < cap) (hzero : m z = 0)
    (hne : ∀ j < z, m j ≠ 0) : cString (bytesAt m 0 cap) = bytesAt m 0 z := by
  obtain ⟨n, rfl⟩ := Nat.exists_eq_add_of_lt hz
  rw [cString, Nat.add_assoc, bytesAt_append, List.takeWhile_append_of_pos]
  · rw [Nat.add_comm n, bytesAt_append]
    simp [bytesAt, hzero]
  · intro x hx
    obtain ⟨j, hj, rfl⟩ := List.mem_map.mp hx
    simpa using hne j (List.mem_range.mp hj)

/-! ## Accesses in bounds -/

def Refused (e : Fault) (_ : Buffers) : Prop := e = .noCap

variable {β : Type} {b : Buffers} {scratch : Mem} {limit : Nat} {Q : β → Buffers → Prop}

theorem ends_reject {c : Prop} [Decidable c] {k : PUnit → Parser β}
    (h : ¬c → Ends (k PUnit.unit) b Q Refused) : Ends (failIf c .noCap >>= k) b Q Refused := by
  refine Ends.bind (Ends.failIf (P := fun _ b' => ¬c ∧ b' = b) (fun _ => rfl) fun hc =>
    ⟨hc, rfl⟩) ?_
  rintro _ _ ⟨hc, rfl⟩
  exact h hc

theorem ends_seq {α : Type} {m : Parser α} {k : α → Parser β} {a : α} {b' : Buffers}
    (hm : m b = (.ok a, b')) (h : Ends (k a) b' Q Refused) : Ends (m >>= k) b Q Refused := by
  refine Ends.bind (Ends.of_ok hm (P := fun a' b₁ => a' = a ∧ b₁ = b') ⟨rfl, rfl⟩) ?_
  rintro _ _ ⟨rfl, rfl⟩
  exact h

theorem reading_apply {α : Type} (h : off + len ≤ limit) (a : α) (b : Buffers) :
    reading limit off len a b = (.ok a, b) :=
  Fallible.bind_of_ok (Fallible.failIf_of_not (Nat.not_lt.mpr h) _ b)

theorem writing_apply {cap : Nat} (h : pos + len ≤ cap) (f : Buffers → Buffers) (b : Buffers) :
    writing cap pos len f b = (.ok PUnit.unit, f b) :=
  Fallible.bind_of_ok (Fallible.failIf_of_not (Nat.not_lt.mpr h) _ b)

/-- A range that passes lies in the request, whatever its words. -/
theorem InRange.le {off len total : BitVec 32} (h : InRange off len total) :
    off.toNat + len.toNat ≤ total.toNat := by
  obtain ⟨hoff, hlen⟩ := not_or.mp h
  rw [BitVec.not_lt, BitVec.le_def] at hoff hlen
  rw [BitVec.toNat_sub_of_le (BitVec.le_def.mpr hoff)] at hlen
  omega

/-! ## The name -/

theorem place_singleton (m : Mem) (i : Nat) (v : BitVec 8) : place m i [v] = update m i v := by
  funext j
  rcases lt_trichotomy j i with h | rfl | h
  · rw [place, if_neg (by omega), update_of_ne (by omega)]
  · simp [place]
  · rw [place, if_pos (by omega), update_of_ne (by omega), List.getElem?_eq_none (by simp; omega),
      Option.getD_none]

/-- **Run.**  The first loop stops at the string's end, with the position after its last slash. -/
theorem findBase_spec {n p base z : Nat} (hn : p + n = 64) (hz : z < 64) (hzero : b.name z = 0)
    (hne : ∀ j < z, b.name j ≠ 0) (hp : p ≤ z) (hbase : base ≤ p)
    (hdrop : (bytesAt b.name 0 p).drop base = baseName (bytesAt b.name 0 p)) :
    ∃ base' ≤ z, findBase n p base b = (.ok base', b) ∧
      (bytesAt b.name 0 z).drop base' = baseName (bytesAt b.name 0 z) := by
  induction n generalizing p base with
  | zero => omega
  | succ n ih =>
    have hrun : findBase (n + 1) p base b = (if b.name p = 0 then pure base
        else findBase n (p + 1) (if b.name p = 47 then p + 1 else base) : Parser Nat) b := rfl
    rw [hrun]
    by_cases hend : b.name p = 0
    · obtain rfl : p = z := by
        by_contra hlt
        exact hne p (by omega) hend
      rw [if_pos hend]
      exact ⟨base, hbase, rfl, hdrop⟩
    · have hlt : p ≠ z := by
        rintro rfl
        exact hend hzero
      rw [if_neg hend]
      refine ih (by omega) (by omega) (by split <;> omega) ?_
      rw [bytesAt_succ, Nat.zero_add, baseName, List.rtakeWhile_concat]
      split
      · rename_i hslash
        rw [if_neg (by simpa using hslash), List.drop_eq_nil_of_le (by simp)]
      · rename_i hslash
        rw [if_pos (by simpa using hslash), List.drop_append_of_le_length (by simpa using hbase),
          hdrop, baseName]

/-- **Run.**  The second loop moves the string that starts at `base`, reading each byte of it
before it is overwritten. -/
theorem shiftName_spec {m : Mem} {base n i z : Nat} (hn : base + i + n = 64) (hz : z < 64)
    (hzero : m z = 0) (hne : ∀ j < z, m j ≠ 0) (hi : base + i ≤ z)
    (hrest : ∀ j, i ≤ j → b.name j = m j) (hfront : ∀ j < i, b.name j = m (base + j)) :
    ∃ name', shiftName base n i b = (.ok PUnit.unit, { b with name := name' }) ∧
      name' (z - base) = 0 ∧ ∀ j < z - base, name' j = m (base + j) := by
  induction n generalizing b i with
  | zero => omega
  | succ n ih =>
    have hrun : shiftName base (n + 1) i b = (if b.name (base + i) = 0 then writeName i [0] else do
          writeName i [b.name (base + i)]
          shiftName base n (i + 1) : Parser PUnit) b := rfl
    have hread : b.name (base + i) = m (base + i) := hrest _ (by omega)
    rw [hrun, hread]
    by_cases hend : m (base + i) = 0
    · obtain rfl : z = base + i := by
        by_contra hlt
        exact hne _ (by omega) hend
      rw [if_pos hend, writeName, writing_apply (by simp; omega), place_singleton]
      refine ⟨_, rfl, ?_, fun j hj => ?_⟩
      · rw [Nat.add_sub_cancel_left, update_self]
      · rw [update_of_ne (by omega)]
        exact hfront j (by omega)
    · have hlt : base + i ≠ z := by
        rintro rfl
        exact hend hzero
      rw [if_neg hend, Fallible.bind_of_ok (writing_apply (by simp; omega) _ b), place_singleton]
      refine ih (b := { b with name := update b.name i (m (base + i)) }) (by omega) (by omega) ?_ ?_
      · intro j hj
        exact (update_of_ne (by omega) ..).trans (hrest j (by omega))
      · intro j hj
        rcases Nat.lt_succ_iff_lt_or_eq.mp hj with hlt' | rfl
        · exact (update_of_ne (by omega) ..).trans (hfront j hlt')
        · exact update_self ..

theorem ends_copyName {total off len : BitVec 32} (htotal : total.toNat ≤ 4096) :
    Ends (copyName scratch total off len) b (fun _ b' => ∃ name', b' = { b with name := name' } ∧
      cString (bytesAt name' 0 64) = baseName (cString (bytesAt scratch off.toNat len.toNat)))
        Refused := by
  refine ends_reject fun hrange => ends_reject fun hlen => ?_
  have hle := (not_not.mp hrange).le
  obtain ⟨hpos, hcap⟩ := not_or.mp hlen
  have hcap : len.toNat + 1 ≤ 64 := by bv_omega
  refine ends_seq (reading_apply hle _ b) ?_
  refine ends_seq (writing_apply (by simp; omega) _ b) ?_
  refine ends_seq (writing_apply (by simpa using hcap) _ _) ?_
  dsimp only
  generalize hm : place (place b.name 0 (bytesAt scratch off.toNat len.toNat)) len.toNat [0] = m
  have hcopied : bytesAt m 0 (len.toNat + 1) = bytesAt scratch off.toNat len.toNat ++ [0] := by
    have hput := bytesAt_place b.name 0 (bytesAt scratch off.toNat len.toNat)
    rw [length_bytesAt] at hput
    rw [← hm, bytesAt_place_snoc, hput]
  have hnul : m len.toNat = 0 := by rw [← hm, place_singleton, update_self]
  -- the string ends where the range does, or at a zero byte in it
  have hex : ∃ z, m z = 0 := ⟨_, hnul⟩
  obtain ⟨z, hzero, hne⟩ : ∃ z, m z = 0 ∧ ∀ j < z, m j ≠ 0 :=
    ⟨Nat.find hex, Nat.find_spec hex, fun _ => Nat.find_min hex⟩
  have hz : z ≤ len.toNat := by
    by_contra hlt
    exact hne _ (by omega) hnul
  have hstr : cString (bytesAt scratch off.toNat len.toNat) = bytesAt m 0 z := by
    rw [← cString_bytesAt (len.toNat + 1) (by omega) hzero hne, hcopied, cString_snoc]
  obtain ⟨base, hbase, hrun, hdrop⟩ := findBase_spec (b := { b with name := m }) (n := 64)
    rfl (by omega) hzero hne (Nat.zero_le z) (Nat.le_refl 0) rfl
  refine ends_seq hrun (Ends.ite (fun _ => ?_) fun hfront => Ends.pure ⟨m, rfl, ?_⟩)
  · obtain ⟨name', hshift, hend, hmoved⟩ := shiftName_spec (b := { b with name := m }) (m := m)
      (n := 64 - base) (i := 0) (by omega) (by omega) hzero hne hbase (fun _ _ => rfl)
        (fun _ h => by omega)
    refine Ends.of_ok hshift ⟨name', rfl, ?_⟩
    have hnz : ∀ j < z - base, name' j ≠ 0 := fun j hj => by
      rw [hmoved j hj]
      exact hne _ (by omega)
    rw [cString_bytesAt 64 (by omega) hend hnz, hstr, ← hdrop]
    refine List.ext_getElem (by simp) fun j hj _ => ?_
    simpa [bytesAt] using hmoved j (by simpa using hj)
  · rw [cString_bytesAt 64 (by omega) hzero hne, hstr, ← hdrop, not_not.mp hfront, List.drop_zero]

/-! ## The strings -/

theorem packed_strsAt_succ (before : List Str) (table i : Nat) :
    packed (before ++ strsAt scratch table (i + 1)) =
      packed (before ++ strsAt scratch table i) ++ strAt scratch table i ++ [0] := by
  simp [packed, strsAt, List.range_succ]

/-- The first `i` strings of a table are in the buffer, after those of `before`; the parser
has changed nothing but the buffer and the pointers to them. -/
structure Copied (scratch : Mem) (t : Table) (before : List Str) (table i : Nat)
    (b₀ b : Buffers) : Prop where
  strbuf : bytesAt b.strbuf 0 b.used = packed (before ++ strsAt scratch table i)
  ptr : ∀ j < i, b.ptrs t j = some (packed (before ++ strsAt scratch table j)).length
  other : ∀ t' ≠ t, b.ptrs t' = b₀.ptrs t'
  name : b.name = b₀.name

variable {t : Table} {before : List Str} {table i : Nat} {b₀ : Buffers}

/-- **Step.**  One more string. -/
theorem Copied.step (h : Copied scratch t before table i b₀ b) {len : Nat}
    (hlen : (wordAt scratch (table + 8 * i + 4)).toNat = len) (hfits : b.used + len + 1 ≤ 4096) :
    Copied scratch t before table (i + 1) b₀ { b with
      strbuf := place (place b.strbuf b.used (strAt scratch table i)) (b.used + len) [0]
      ptrs := update b.ptrs t (update (b.ptrs t) i (some b.used))
      used := (b.used + len + 1) % 2 ^ 32 } where
  strbuf := by
    have hput := bytesAt_place_append b.strbuf b.used (strAt scratch table i)
    rw [strAt, length_bytesAt, hlen, ← hlen, ← strAt, hlen] at hput
    rw [Nat.mod_eq_of_lt (by omega), bytesAt_place_snoc, hput, packed_strsAt_succ, h.strbuf]
  ptr j hj := by
    show update b.ptrs t _ t j = _
    rw [update_self]
    rcases Nat.lt_succ_iff_lt_or_eq.mp hj with hlt | rfl
    · rw [update_of_ne (by omega), h.ptr j hlt]
    · rw [update_self, ← h.strbuf, length_bytesAt]
  other t' ht' := (update_of_ne ht' ..).trans (h.other t' ht')
  name := h.name

/-- The null pointer behind a table that has been copied. -/
theorem Copied.close (h : Copied scratch t before table i b₀ b) :
    Copied scratch t before table i b₀
      { b with ptrs := update b.ptrs t (update (b.ptrs t) i none) } where
  strbuf := h.strbuf
  ptr j hj := by
    show update b.ptrs t _ t j = _
    rw [update_self, update_of_ne (by omega), h.ptr j hj]
  other t' ht' := (update_of_ne ht' ..).trans (h.other t' ht')
  name := h.name

def Done (scratch : Mem) (t : Table) (before : List Str) (table count : Nat) (b₀ b : Buffers) :
    Prop :=
  Copied scratch t before table count b₀ b ∧ b.ptrs t count = none

theorem ends_writeNull (hi : i ≤ 64) (h : Copied scratch t before table i b₀ b) :
    Ends (writePtr t i none) b (fun _ => Done scratch t before table i b₀) Refused := by
  refine Ends.of_ok (writing_apply (by omega) ..) ⟨h.close, ?_⟩
  show update b.ptrs t _ t i = none
  rw [update_self, update_self]

/-- **Run.**  The loop copies the rest of the table. -/
theorem ends_copyStrs (total : BitVec 32) {n : Nat} (hn : i + n ≤ 64)
    (htable : table + 8 * (i + n) ≤ total.toNat) (h : Copied scratch t before table i b₀ b) :
    Ends (copyStrs scratch total t table n i) b (fun _ => Done scratch t before table (i + n) b₀)
      Refused := by
  induction n generalizing b i with
  | zero => exact ends_writeNull hn h
  | succ n ih =>
    refine ends_seq (reading_apply (by omega) _ b) (ends_seq (reading_apply (by omega) _ b) ?_)
    refine ends_reject fun hrange => Ends.get_bind (ends_reject fun hfits => ?_)
    refine ends_seq (reading_apply (not_not.mp hrange).le _ b) ?_
    refine ends_seq (writing_apply (by simp; omega) _ b) ?_
    refine ends_seq (writing_apply (by simp; omega) _ _) ?_
    refine ends_seq (writing_apply (by omega) ..) (ends_seq (Fallible.modify_apply ..) ?_)
    rw [show i + (n + 1) = i + 1 + n by omega]
    exact ih (by omega) (by omega) (h.step rfl (by omega))

theorem ends_copyStrArray (before : List Str) {total off count : BitVec 32}
    (hcount : count.toNat ≤ 64) (h : bytesAt b.strbuf 0 b.used = packed before) :
    Ends (copyStrArray scratch total t off count) b
      (fun _ => Done scratch t before off.toNat count.toNat b) Refused := by
  have hstart : Copied scratch t before off.toNat 0 b b :=
    ⟨by simpa [strsAt] using h, fun _ hj => absurd hj (Nat.not_lt_zero _), fun _ _ => rfl, rfl⟩
  refine Ends.ite (fun hzero => ?_) fun _ => ends_reject fun hrange => ?_
  · rw [hzero]
    exact ends_writeNull (Nat.zero_le _) hstart
  · have hle := (not_not.mp hrange).le
    have hmul : (count * 8).toNat = count.toNat * 8 := by bv_omega
    have hrun := ends_copyStrs total (n := count.toNat) (by omega) (by omega) hstart
    rwa [Nat.zero_add] at hrun

/-- **Decoding.**  Whatever the bytes of the request, no access is out of bounds; and if it is
accepted, the buffers hold what it says. -/
theorem decode_exact (scratch : Mem) (reqLen : Nat) (b : Buffers) :
    Ends (decode scratch reqLen) b (fun _ => Exact scratch reqLen) Refused := by
  refine ends_reject fun hreq => ends_reject fun _ => ?_
  refine ends_seq (reading_apply (by omega) _ b) (ends_reject fun _ => ?_)
  refine ends_seq (reading_apply (by omega) _ b) (ends_reject fun htotal => ?_)
  generalize ht : wordAt scratch 4 = total at htotal
  refine ends_seq (reading_apply (by omega) _ b) (ends_reject fun hargc => ?_)
  refine ends_seq (reading_apply (by omega) _ b) (ends_reject fun henvc => ?_)
  refine ends_seq (reading_apply (by omega) _ b) (ends_reject fun hnfds => ?_)
  refine ends_seq (reading_apply (by omega) _ b) (ends_reject fun hfds => ?_)
  refine ends_seq (reading_apply (by omega) _ b) (ends_seq (reading_apply (by omega) _ b) ?_)
  refine Ends.bind (ends_copyName (by omega)) ?_
  rintro _ _ ⟨name', rfl, hname⟩
  refine ends_seq rfl (ends_seq (reading_apply (by omega) _ _) ?_)
  refine Ends.bind (ends_copyStrArray [] (by bv_omega) rfl) fun _ b₁ hargv => ?_
  refine ends_seq (reading_apply (by omega) _ _) ?_
  refine Ends.bind (ends_copyStrArray (args scratch) (by bv_omega) hargv.1.strbuf)
    fun _ b₂ henvp => ?_
  have hmul : (wordAt scratch 32 * 24).toNat = (wordAt scratch 32).toNat * 24 := by bv_omega
  have hle := (not_not.mp hfds).le
  have hexact : ∀ fds : Mem, bytesAt fds 0 ((wordAt scratch 32).toNat * 24) =
      bytesAt scratch (wordAt scratch 36).toNat ((wordAt scratch 32).toNat * 24) →
      Exact scratch reqLen { b₂ with fds := fds } := by
    intro fds hcopied
    refine ⟨by rw [ht]; omega, ?_, henvp.1.strbuf, ?_, ⟨henvp.1.ptr, henvp.2⟩, hcopied⟩
    · rw [henvp.1.name, hargv.1.name]
      exact hname
    · rw [henvp.1.other .argv (by decide)]
      exact ⟨hargv.1.ptr, hargv.2⟩
  refine Ends.ite (fun _ => ?_) fun hnone => Ends.pure ?_
  · refine ends_seq (reading_apply (by omega) _ _) ?_
    refine Ends.of_ok (writing_apply (by simp; bv_omega) ..) (hexact _ ?_)
    have hput := bytesAt_place b₂.fds 0
      (bytesAt scratch (wordAt scratch 36).toNat ((wordAt scratch 32).toNat * 24))
    rwa [length_bytesAt] at hput
  · refine hexact b₂.fds ?_
    rw [not_not.mp hnone]
    rfl

def zeroInName (i : Nat) : BitVec 8 :=
  [0x53, 0x50, 0x4e, 0x31, 45, 0, 0, 0, 40, 0, 0, 0, 5, 0, 0, 0, 0, 0, 0, 0, 0, 0, 0, 0, 0, 0, 0, 0,
    0, 0, 0, 0, 0, 0, 0, 0, 0, 0, 0, 0, 97, 0, 98, 47, 99][i]?.getD 0

/-- A range that holds a zero byte counts up to there only: the program is `a`, not the `c` after
the last slash of the range. -/
theorem decode_zeroInName :
    ∃ b, (decode zeroInName 45 ⟨0, 0, 0, fun _ _ => none, 0⟩) = (.ok PUnit.unit, b) ∧
      cString (bytesAt b.name 0 64) = [97] ∧
      baseName (bytesAt zeroInName (wordAt zeroInName 8).toNat (wordAt zeroInName 12).toNat) =
        [99] :=
  ⟨_, rfl, by decide, by decide⟩

end Robu.Spawn
