import Robu.Lib.Bytes
import Robu.Lib.Crash

/-!
# The state of the ext2 server and its block device

The server keeps everything in static variables; here they are the fields of one
record, `Server`.  Its functions are `M` computations: they return `0` (a value) or a
negative code (an error), and a failing function leaves behind what it did so far.

The volume is an array of 512-byte sectors.  `faults` is an arbitrary pattern of
device errors, consulted once for each sector read, sector write and flush: a read
or flush that meets a fault reports an error; so does a write, and the sector then
holds its old content (`lost`) or its new one (`kept`).  Sector writes are atomic and
reach the disk in the order they were issued; `log` records those that did.
-/

namespace Robu.Ext2

open Lib

/-! ## Bytes -/

abbrev Byte := BitVec 8

abbrev Sector := Bytes 512

abbrev Block := Bytes 4096

abbrev Inode := Bytes 128

abbrev GroupDesc := Bytes 32

variable {n : Nat}

def byteGet (buf : Bytes n) (off : Nat) : Byte :=
  buf.slice off 1

def byteSet (buf : Bytes n) (off : Nat) (v : Byte) : Bytes n :=
  buf.put (k := 1) off v

def getBytes (buf : Bytes n) (off len : Nat) : List Byte :=
  (List.range len).map fun i => byteGet buf (off + i)

def putBytes (buf : Bytes n) (off : Nat) (data : List Byte) : Bytes n :=
  data.zipIdx.foldl (fun b ci => byteSet b (off + ci.2) ci.1) buf

def u16Get (buf : Bytes n) (off : Nat) : Nat :=
  (buf.slice off 2).toNat

def u16Set (buf : Bytes n) (off v : Nat) : Bytes n :=
  buf.put (k := 2) off (BitVec.ofNat 16 v)

def u32Get (buf : Bytes n) (off : Nat) : Nat :=
  (buf.slice off 4).toNat

def u32Set (buf : Bytes n) (off v : Nat) : Bytes n :=
  buf.put (k := 4) off (BitVec.ofNat 32 v)

/-! ### Fields of a buffer

A field holds what was stored in it last; storing elsewhere does not touch it. -/

theorem u32Get_u32Set (buf : Bytes n) {off v : Nat} (h : off + 4 ≤ n) :
    u32Get (u32Set buf off v) off = v % 2 ^ 32 := by
  rw [u32Get, u32Set, Bytes.slice_put _ _ h, BitVec.toNat_ofNat]

theorem u32Get_put (buf : Bytes n) {off i k : Nat} (v : Bytes k)
    (h : i + 4 ≤ off ∨ off + k ≤ i) : u32Get (buf.put off v) i = u32Get buf i := by
  rw [u32Get, u32Get, Bytes.slice_put_of_disjoint _ _ h]

theorem u32Get_u32Set_of_disjoint (buf : Bytes n) {off i v : Nat}
    (h : i + 4 ≤ off ∨ off + 4 ≤ i) : u32Get (u32Set buf off v) i = u32Get buf i :=
  u32Get_put _ _ h

/-! ## The server's variables -/

/-- How the device answers one sector read, sector write or flush. -/
inductive Fault
  | none
  /-- An error before the data: the sector, or the buffer, keeps its old content. -/
  | lost
  /-- An error after the data: the sector, or the buffer, has its new content. -/
  | kept
  deriving DecidableEq

structure Device where
  /-- The content of each sector of the volume. -/
  disk : Nat → Sector
  /-- The device's answer to its `n`-th request. -/
  faults : Nat → Fault
  time : Nat
  /-- The sector writes that reached the disk, in order. -/
  log : List (Nat × Sector)

/-- What `ext2_mount` reads from the superblock, with the two compile-time choices of
the server (`EXT2FS_AS_ROOT`): the length of the mount prefix that is cut off every
path. -/
structure Geometry where
  blockSize : Nat
  sectorsPerBlock : Nat
  blocksCount : Nat
  inodesCount : Nat
  blocksPerGroup : Nat
  inodesPerGroup : Nat
  firstDataBlock : Nat
  inodeSize : Nat
  numGroups : Nat
  gdtStartByte : Nat
  direntFileType : Bool
  asRoot : Bool

structure JournalRecord where
  sector : Nat
  data : Sector
  deriving DecidableEq

structure Journal where
  blocks : List Nat
  ready : Bool
  active : Bool
  faulted : Bool
  records : List JournalRecord
  sequence : Nat
  sbSnapshot : Bytes 1024

structure Handle where
  inUse : Bool
  ino : Nat
  /-- The array of the file's blocks, as they were mapped when it was opened and as this
  handle added to them; past `numBlocks` it holds what earlier users of the handle left. -/
  blocks : Nat → Nat
  numBlocks : Nat
  fileSize : Nat
  offset : Nat
  wcacheValid : Bool
  wcacheDirty : Bool
  wcacheBlkIdx : Nat
  wcache : Block

inductive Pool
  | blocks
  | inodes
  deriving DecidableEq

/-- Where the next search for a free block or inode starts: `g_alloc_cursor_group` and
`g_alloc_cursor_bit`, or `g_alloc_inode_cursor_group` and `g_alloc_inode_cursor_bit`. -/
structure Cursor where
  group : Nat
  bit : Nat

/-- What the server reads from the kernel information page: clock frequency, ticks since
boot, and the thread of the device file server. -/
structure Kinfo where
  clockHz : Nat
  ticks : Nat
  devfsTid : Nat

abbrev maxHandles : Nat := 8

abbrev maxBlocks : Nat := 4096

abbrev maxGroups : Nat := 32

abbrev rootInode : Nat := 2

abbrev journalSectors : Nat := 2048

abbrev maxRecords : Nat := 64

structure Server where
  dev : Device
  geo : Geometry
  sb : Bytes 1024
  journal : Journal
  cursors : Pool → Cursor
  handles : Fin maxHandles → Handle
  /-- `bulk_search_dir_ino`, once the directories were looked up. -/
  bulkSearchDirs : Option (List Nat)
  /-- The sectors of the disk before the volume, which the server only reads. -/
  boot : Nat → Sector
  /-- `blkdev_capacity_sectors`: the sectors of the whole disk. -/
  capacity : Nat
  kinfo : Kinfo

/-- A function of the server: a value, or a negative code, with the state it left. -/
abbrev M := Fallible Server Int

def modifyJournal (f : Journal → Journal) : M Unit :=
  modify fun s => { s with journal := f s.journal }

def Server.updateCursor (s : Server) (p : Pool) (f : Cursor → Cursor) : Server :=
  { s with cursors := Function.update s.cursors p (f (s.cursors p)) }

def modifyCursor (p : Pool) (f : Cursor → Cursor) : M Unit :=
  modify fun s => s.updateCursor p f

def modifySb (f : Bytes 1024 → Bytes 1024) : M Unit :=
  modify fun s => { s with sb := f s.sb }

def Server.updateHandle (s : Server) (h : Fin maxHandles) (f : Handle → Handle) : Server :=
  { s with handles := Function.update s.handles h (f (s.handles h)) }

def modifyHandle (h : Fin maxHandles) (f : Handle → Handle) : M Unit :=
  modify fun s => s.updateHandle h f

instance : Logged Server Nat Sector where
  cells s := s.dev.disk
  log s := s.dev.log

/-! ## The block device -/

def Device.tick (d : Device) : Device :=
  { d with time := d.time + 1 }

def Device.store (d : Device) (sector : Nat) (data : Sector) : Device :=
  { d with disk := Function.update d.disk sector data, log := d.log ++ [(sector, data)] }

def readSector (sector : Nat) : M Sector := fun s =>
  let s' := { s with dev := s.dev.tick }
  match s.dev.faults s.dev.time with
  | .none => (.ok (s.dev.disk sector), s')
  | _ => (.error (-1), s')

def writeSector (sector : Nat) (data : Sector) : M Unit := fun s =>
  match s.dev.faults s.dev.time with
  | .none => (.ok (), { s with dev := (s.dev.store sector data).tick })
  | .lost => (.error (-1), { s with dev := s.dev.tick })
  | .kept => (.error (-1), { s with dev := (s.dev.store sector data).tick })

def blkdevRead (sector : Nat) : Nat → M (List Sector)
  | 0 => pure []
  | count + 1 => do
    let x ← readSector sector
    let xs ← blkdevRead (sector + 1) count
    pure (x :: xs)

/-- The sectors `blkdev_read` has put into its buffer when it returns. -/
def Device.delivers (d : Device) (sector : Nat) : Nat → List Sector
  | 0 => []
  | count + 1 =>
    match d.faults d.time with
    | .none => d.disk sector :: d.tick.delivers (sector + 1) count
    | .lost => []
    | .kept => [d.disk sector]

def blkdevWrite (sector : Nat) : List Sector → M Unit
  | [] => pure ()
  | x :: xs => do
    writeSector sector x
    blkdevWrite (sector + 1) xs

def blkdevFlush : M Unit := fun s =>
  let s' := { s with dev := s.dev.tick }
  match s.dev.faults s.dev.time with
  | .none => (.ok (), s')
  | _ => (.error (-1), s')

end Robu.Ext2
