import Robu.Ext2.BulkRead
import Robu.Ext2.Image

/-!
# Raw device reads

The ext2 server and the server of the data disk answer reads of the raw disk in the buffer of the
request.  The bytes of the reply go over the device number and the offset, which are read again for
each sector or block.  So a reply is right exactly if every piece that is read with what is then in
the message gives the bytes of the disk.
-/

namespace Robu

open Lib Fallible
open Ext2 (Byte Block Fault getBytes putBytes byteGet byteSet u64Get errNotSupported vfsReadMax
  partitionStart length_getBytes copyLoop)

variable {σ : Type} {n size : Nat}

namespace Diskfs

/-- The data disk, and the answer of the block driver to its `n`-th request. -/
structure Disk where
  blocks : Nat → Block
  faults : Nat → Fault
  time : Nat

/-- What the server reads from the kernel information page: the thread of the device file server
and the data disk. -/
structure Kinfo where
  devfsTid : Nat
  inUse : Bool
  sectors : Nat
  sectorSize : Nat

/-- The capacity in bytes, of a disk that is in use and has sectors of 512 bytes. -/
def Kinfo.capacity (info : Kinfo) : Nat :=
  if info.inUse ∧ info.sectorSize = 512 then info.sectors * info.sectorSize % 2 ^ 64 else 0

/-- `diskfs_read_block`, whose number has 32 bits. -/
def readBlock (n : Nat) : Fallible Disk Int Block := fun d =>
  let d' := { d with time := d.time + 1 }
  match d.faults d.time with
  | .none => (.ok (d.blocks (n % 2 ^ 32)), d')
  | _ => (.error (-1), d')

def handleDeviceRead (info : Kinfo) (src : Nat) (msg : Bytes 48) :
    Fallible Disk Int (List Byte) := do
  failIf (src ≠ info.devfsTid ∨ u64Get msg 8 ≠ 3) errNotSupported
  if u64Get msg 16 ≥ info.capacity then pure []
  else do
    let len := min (min (u64Get msg 24) vfsReadMax) (info.capacity - u64Get msg 16)
    let (copied, msg) ← copyLoop 4096 (fun _ => readBlock) len len 0 msg
    pure (getBytes msg 8 copied)

end Diskfs

/-! ## Pieces of a reply -/

/-- **Raw reads.**  A request, the number of bytes it is to be answered with, the sector or block
that the server reads for a device and a number, and the bytes of the disk that is asked for. -/
structure RawRead (size : Nat) where
  msg : Bytes 48
  len : Nat
  fetch : Nat → Nat → Bytes size
  byte : Nat → Byte

namespace RawRead

variable (q : RawRead size) (c : Nat)

def right : List Byte := (List.range c).map fun i => q.byte (u64Get q.msg 16 + i)

/-- The message with the first `c` bytes of the right reply in it. -/
def answered : Bytes 48 := putBytes q.msg 8 (q.right c)

def position : Nat := (u64Get (q.answered c) 16 + c) % 2 ^ 64

def chunk : Nat := min (size - q.position c % size) (q.len - c)

def piece : List Byte :=
  getBytes (q.fetch (u64Get (q.answered c) 8) (q.position c / size)) (q.position c % size)
    (q.chunk c)

def PieceRight : Prop :=
  q.piece c = (List.range (q.chunk c)).map fun i => q.byte (u64Get q.msg 16 + (c + i))

def Next (c c' : Nat) : Prop := c < q.len ∧ c' = c + q.chunk c

/-- **Right reads.**  All pieces of the reply are right. -/
def Right : Prop := ∀ c, Relation.ReflTransGen q.Next 0 c → c < q.len → q.PieceRight c

end RawRead

def Ext2.Server.deviceSector (s : Ext2.Server) (device x : Nat) : Bytes 512 :=
  if device = 1 then if x < partitionStart then s.boot x else s.dev.disk (x - partitionStart)
  else s.dev.disk x

def Ext2.Server.rawRead (s : Ext2.Server) (msg : Bytes 48) : RawRead 512 where
  msg := msg
  len :=
    let start := if u64Get msg 8 = 2 then partitionStart * 512 else 0
    min (min (u64Get msg 24) vfsReadMax) (s.capacity * 512 - start - u64Get msg 16)
  fetch := s.deviceSector
  byte i := byteGet (s.deviceSector (u64Get msg 8) (i / 512)) (i % 512)

def Diskfs.Disk.rawRead (d : Diskfs.Disk) (info : Diskfs.Kinfo) (msg : Bytes 48) :
    RawRead 4096 where
  msg := msg
  len := min (min (u64Get msg 24) vfsReadMax) (info.capacity - u64Get msg 16)
  fetch _ x := d.blocks (x % 2 ^ 32)
  byte i := byteGet (d.blocks (i / 4096)) (i % 4096)

/-! ## Bytes of a message -/

theorem putBytes_concat (buf : Bytes n) (off : Nat) (xs : List Byte) (x : Byte) :
    putBytes buf off (xs ++ [x]) = byteSet (putBytes buf off xs) (off + xs.length) x := by
  simp [putBytes, List.zipIdx_append]

theorem putBytes_append (buf : Bytes n) (off : Nat) (xs ys : List Byte) :
    putBytes buf off (xs ++ ys) = putBytes (putBytes buf off xs) (off + xs.length) ys := by
  induction ys using List.reverseRecOn with
  | nil => rw [List.append_nil]; rfl
  | append_singleton ys y ih =>
    rw [← List.append_assoc, putBytes_concat, putBytes_concat, ih, List.length_append,
      Nat.add_assoc]

/-- Bytes stored are read back. -/
theorem getBytes_putBytes (buf : Bytes n) (off : Nat) (xs : List Byte) {len : Nat}
    (hlen : xs.length = len) (h : off + len ≤ n) : getBytes (putBytes buf off xs) off len = xs := by
  subst hlen
  induction xs using List.reverseRecOn with
  | nil => rfl
  | append_singleton xs x ih =>
    rw [List.length_append, List.length_singleton] at h ⊢
    rw [putBytes_concat, getBytes, List.range_succ, List.map_append, List.map_singleton]
    congr 1
    · refine Eq.trans (List.map_congr_left fun i hi => ?_) (ih (by omega))
      rw [List.mem_range] at hi
      exact Bytes.slice_put_of_disjoint _ _ (.inl (by omega))
    · exact congrArg (fun b => [b]) (Bytes.slice_put _ _ (by omega))

/-- Bytes stored later leave those before them alone. -/
theorem getBytes_putBytes_of_le (buf : Bytes n) {off a b : Nat} (xs : List Byte) (h : a + b ≤ off) :
    getBytes (putBytes buf off xs) a b = getBytes buf a b := by
  induction xs using List.reverseRecOn with
  | nil => rfl
  | append_singleton xs x ih =>
    rw [← ih, putBytes_concat]
    refine List.map_congr_left fun i hi => ?_
    rw [List.mem_range] at hi
    exact Bytes.slice_put_of_disjoint _ _ (.inl (by omega))

theorem getBytes_take (buf : Bytes n) (off : Nat) {a b : Nat} (h : a ≤ b) :
    (getBytes buf off b).take a = getBytes buf off a := by
  rw [getBytes, ← List.map_take, List.take_range, min_eq_left h, getBytes]

/-! ## The loop -/

theorem copyLoop_self (r : Bytes 48 → Nat → Fallible σ Int (Bytes size)) (len fuel : Nat)
    (msg : Bytes 48) (s : σ) : copyLoop size r len fuel len msg s = (.ok (len, msg), s) := by
  cases fuel with
  | zero => rfl
  | succ fuel =>
    rw [copyLoop, if_neg (lt_irrefl _)]
    rfl

section Loop

variable {r : Bytes 48 → Nat → Fallible σ Int (Bytes size)} {fetch : Nat → Nat → Bytes size}
  {P : σ → Prop} (hsize : 0 < size)
  (hread : ∀ msg x s, P s → ∃ s', P s' ∧ r msg x s = (.ok (fetch (u64Get msg 8) x), s'))

include hread

/-- One round of the loop, if nothing fails. -/
theorem copyLoop_succ {len c : Nat} {s : σ} (fuel : Nat) (msg : Bytes 48) (hs : P s)
    (hc : c < len) : let byte := (u64Get msg 16 + c) % 2 ^ 64
    let chunk := min (size - byte % size) (len - c)
    ∃ s', P s' ∧ copyLoop size r len (fuel + 1) c msg s =
      copyLoop size r len fuel (c + chunk) (putBytes msg (8 + c)
        (getBytes (fetch (u64Get msg 8) (byte / size)) (byte % size) chunk)) s' := by
  intro byte chunk
  obtain ⟨s', hs', hr⟩ := hread msg (byte / size) s hs
  have hattempt : attempt (r msg (byte / size)) s =
      (.ok (some (fetch (u64Get msg 8) (byte / size))), s') := by
    rw [attempt, hr]
  refine ⟨s', hs', ?_⟩
  rw [copyLoop, if_pos hc]
  exact bind_of_ok hattempt

include hsize

/-- The loop answers with all bytes, and keeps those that are there. -/
theorem copyLoop_ends {len fuel c : Nat} {s : σ} (msg : Bytes 48) (hs : P s) (hc : c ≤ len)
    (hfuel : len - c ≤ fuel) : ∃ msg' s', copyLoop size r len fuel c msg s = (.ok (len, msg'), s') ∧
      getBytes msg' 8 c = getBytes msg 8 c := by
  induction fuel generalizing c msg s with
  | zero =>
    obtain rfl : c = len := by omega
    exact ⟨msg, s, copyLoop_self .., rfl⟩
  | succ fuel ih =>
    rcases Nat.lt_or_eq_of_le hc with hlt | rfl
    · obtain ⟨s₁, hs₁, hloop⟩ := copyLoop_succ hread fuel msg hs hlt
      have hmod := Nat.mod_lt ((u64Get msg 16 + c) % 2 ^ 64) hsize
      obtain ⟨msg', s', hrest, hkeep⟩ := ih (putBytes msg (8 + c) _) hs₁
        (c := c + min (size - (u64Get msg 16 + c) % 2 ^ 64 % size) (len - c)) (by omega) (by omega)
      refine ⟨msg', s', hloop.trans hrest, ?_⟩
      rw [← getBytes_take msg' 8 (Nat.le_add_right _ _), hkeep,
        getBytes_take _ _ (Nat.le_add_right _ _)]
      exact getBytes_putBytes_of_le _ _ (le_refl _)
    · exact ⟨msg, s, copyLoop_self .., rfl⟩

end Loop

namespace RawRead

variable (q : RawRead size) {r : Bytes 48 → Nat → Fallible σ Int (Bytes size)} {P : σ → Prop}

theorem length_right (c : Nat) : (q.right c).length = c := by
  rw [right, List.length_map, List.length_range]

theorem right_add (c d : Nat) : q.right (c + d) =
    q.right c ++ (List.range d).map fun i => q.byte (u64Get q.msg 16 + (c + i)) := by
  rw [right, List.range_add, List.map_append, List.map_map]
  rfl

theorem answered_zero : q.answered 0 = q.msg := rfl

/-- The pieces from byte `c` on are the one there and those after it. -/
theorem pieces_iff {c : Nat} (hc : c < q.len) :
    (∀ d, Relation.ReflTransGen q.Next c d → d < q.len → q.PieceRight d) ↔ q.PieceRight c ∧
      ∀ d, Relation.ReflTransGen q.Next (c + q.chunk c) d → d < q.len → q.PieceRight d := by
  constructor
  · intro h
    exact ⟨h c .refl hc, fun d hd => h d (.head ⟨hc, rfl⟩ hd)⟩
  · rintro ⟨hfirst, hrest⟩ d hd hlt
    rcases hd.cases_head with rfl | ⟨c', ⟨-, rfl⟩, hd⟩
    · exact hfirst
    · exact hrest d hd hlt

theorem pieces_of_le {c d : Nat} (hc : q.len ≤ c) (hd : Relation.ReflTransGen q.Next c d)
    (hlt : d < q.len) : q.PieceRight d := by
  rcases hd.cases_head with rfl | ⟨c', ⟨hnext, -⟩, -⟩ <;> omega

theorem getBytes_answered {c : Nat} (hc : 8 + c ≤ 48) : getBytes (q.answered c) 8 c = q.right c :=
  getBytes_putBytes _ _ _ (q.length_right c) hc

/-- **Loop.**  With the first bytes right, the reply is right exactly if the remaining pieces are.
-/
theorem copyLoop_iff (hsize : 0 < size)
    (hread : ∀ msg x s, P s → ∃ s', P s' ∧ r msg x s = (.ok (q.fetch (u64Get msg 8) x), s'))
    (hlen : 8 + q.len ≤ 48) {fuel c : Nat} {s : σ} (hs : P s) (hc : c ≤ q.len)
    (hfuel : q.len - c ≤ fuel) :
    ∃ msg' s', copyLoop size r q.len fuel c (q.answered c) s = (.ok (q.len, msg'), s') ∧
      (getBytes msg' 8 q.len = q.right q.len ↔
        ∀ d, Relation.ReflTransGen q.Next c d → d < q.len → q.PieceRight d) := by
  induction fuel generalizing c s with
  | zero =>
    obtain rfl : c = q.len := by omega
    exact ⟨_, s, copyLoop_self .., iff_of_true (q.getBytes_answered hlen) fun _ =>
      q.pieces_of_le hc⟩
  | succ fuel ih =>
    rcases Nat.lt_or_eq_of_le hc with hlt | rfl
    · obtain ⟨s₁, hs₁, hloop⟩ := copyLoop_succ hread fuel (q.answered c) hs hlt
      change _ = copyLoop size r q.len fuel (c + q.chunk c)
        (putBytes (q.answered c) (8 + c) (q.piece c)) s₁
        at hloop
      have hmod := Nat.mod_lt (q.position c) hsize
      have hstep : c + q.chunk c ≤ q.len ∧ q.len - (c + q.chunk c) ≤ fuel := by
        unfold chunk
        omega
      have hnext : putBytes (q.answered c) (8 + c) (q.piece c) =
          putBytes q.msg 8 (q.right c ++ q.piece c) := by
        rw [putBytes_append, length_right, answered]
      rw [hnext] at hloop
      rw [pieces_iff q hlt]
      by_cases hright : q.PieceRight c
      · -- the message goes on with right bytes
        rw [hright, ← right_add] at hloop
        obtain ⟨msg', s', hrest, hiff⟩ := ih hs₁ hstep.1 hstep.2
        exact ⟨msg', s', hloop.trans hrest, hiff.trans (and_iff_right hright).symm⟩
      · -- what is wrong stays
        obtain ⟨msg', s', hrest, hkeep⟩ := copyLoop_ends hsize hread
          (putBytes q.msg 8 (q.right c ++ q.piece c)) hs₁ hstep.1 hstep.2
        refine ⟨msg', s', hloop.trans hrest, iff_of_false (fun hsame => hright ?_) fun h =>
          hright h.1⟩
        have hlength : (q.right c ++ q.piece c).length = c + q.chunk c := by
          rw [List.length_append, length_right, piece, length_getBytes]
        rw [getBytes_putBytes _ _ _ hlength (by omega), ← getBytes_take msg' 8 hstep.1,
          hsame, right, ← List.map_take, List.take_range, min_eq_left hstep.1] at hkeep
        exact (List.append_cancel_left ((q.right_add c _).symm.trans hkeep)).symm
    · exact ⟨_, s, copyLoop_self .., iff_of_true (q.getBytes_answered hlen) fun _ =>
        q.pieces_of_le hc⟩

/-- The whole reply. -/
theorem reply_iff (hsize : 0 < size)
    (hread : ∀ msg x s, P s → ∃ s', P s' ∧ r msg x s = (.ok (q.fetch (u64Get msg 8) x), s'))
    (hlen : q.len ≤ vfsReadMax) {s : σ} (hs : P s) :
    ∃ msg' s', copyLoop size r q.len q.len 0 q.msg s = (.ok (q.len, msg'), s') ∧
      (getBytes msg' 8 q.len = q.right q.len ↔ q.Right) :=
  q.copyLoop_iff hsize hread (Nat.add_le_add_left hlen 8) hs (Nat.zero_le _) (le_refl _)

/-- Nothing is wanted past the end of a disk. -/
theorem right_iff_of_len (hlen : q.len = 0) : [] = q.right q.len ↔ q.Right := by
  refine iff_of_true (by rw [hlen]; rfl) fun c _ hc => ?_
  omega

end RawRead

/-! ## Both servers -/

def Ext2.Server.Reading (s s' : Ext2.Server) : Prop :=
  (∀ n, s'.dev.faults n = .none) ∧ s'.deviceSector = s.deviceSector

def Diskfs.Disk.Reading (d d' : Diskfs.Disk) : Prop :=
  (∀ n, d'.faults n = .none) ∧ d'.blocks = d.blocks

theorem Ext2.Server.sectorRead_reading (s : Ext2.Server) (msg : Bytes 48) (x : Nat)
    (s₁ : Ext2.Server) (h : s.Reading s₁) : ∃ s₂, s.Reading s₂ ∧
      Ext2.sectorRead msg x s₁ = (.ok (s.deviceSector (u64Get msg 8) x), s₂) := by
  refine ⟨{ s₁ with dev := s₁.dev.tick }, h, ?_⟩
  rw [← h.2]
  unfold Ext2.sectorRead Ext2.Server.deviceSector
  by_cases hd : u64Get msg 8 = 1
  · rw [if_pos hd, if_pos hd, Ext2.rawReadSector]
    split <;> simp only [Ext2.readSector, h.1]
  · rw [if_neg hd, if_neg hd, Ext2.readSector, h.1]

theorem Diskfs.Disk.readBlock_reading (d : Diskfs.Disk) (x : Nat) (d₁ : Diskfs.Disk)
    (h : d.Reading d₁) : ∃ d₂, d.Reading d₂ ∧
      Diskfs.readBlock x d₁ = (.ok (d.blocks (x % 2 ^ 32)), d₂) := by
  refine ⟨{ d₁ with time := d₁.time + 1 }, h, ?_⟩
  rw [Diskfs.readBlock, h.1, h.2]

end Robu
