import Robu.Ext2.Vfs

/-!
# Loading programs

`handle_read_bulk` of `vfs.c` reads a whole file into a segment of shared memory, for the
kernel to run it.  The file is looked up by its name in five directories, which are
resolved by the first such request and kept.  Symbolic links are followed by their last
component, in the same directories.

`handle_device_read` of `ext2fs.c` reads bytes of the disk itself.
-/

namespace Robu.Ext2

open Lib Fallible

/-! ## Looking up a program -/

def bulkSearchPaths : List (List Byte) :=
  [[0x62, 0x69, 0x6E], [0x73, 0x62, 0x69, 0x6E], [0x75, 0x73, 0x72, 0x2F, 0x62, 0x69, 0x6E],
    [0x75, 0x73, 0x72, 0x2F, 0x73, 0x62, 0x69, 0x6E],
    [0x43, 0x6F, 0x72, 0x65, 0x2F, 0x53, 0x65, 0x72, 0x76, 0x65, 0x72, 0x73]]

def bulkSearchDir (path : List Byte) : M Nat := do
  let dir ← attempt do
    let (parentIno, leaf) ← resolvePath path true
    findInDir parentIno leaf
  match dir with
  | some found => pure (if found.isDir then found.ino else 0)
  | none => pure 0

def bulkResolveSearchDirs : List (List Byte) → M (List Nat)
  | [] => pure []
  | path :: paths => do
    let ino ← bulkSearchDir path
    let rest ← bulkResolveSearchDirs paths
    pure (ino :: rest)

def bulkDirs : M (List Nat) := do
  match (← get).bulkSearchDirs with
  | some dirs => pure dirs
  | none => do
    let dirs ← bulkResolveSearchDirs bulkSearchPaths
    modify fun s => { s with bulkSearchDirs := some dirs }
    pure dirs

def baseName (path : List Byte) : List Byte :=
  (path.reverse.takeWhile (· ≠ slash)).reverse

/-- Look a name up in the search directories: a link's target or a file. -/
def bulkLookup (name : List Byte) : List Nat → M (List Byte ⊕ Found)
  | [] => throw (-1)
  | dir :: dirs => do
    let found ← attempt do
      failIf (dir = 0) (-1)
      let found ← findInDir dir name
      failIf found.isDir (-1)
      pure found
    match found with
    | none => bulkLookup name dirs
    | some found => do
      let inode ← inodeRead found.ino
      if inodeMode inode = modeLink then do
        failIf (u32Get inode 4 > 60) (-1)
        pure (.inl (baseName (linkTarget inode)))
      else pure (.inr found)

/-- `bulk_resolve_name`, with `hops` lookups. -/
def bulkResolveName (dirs : List Nat) : Nat → List Byte → M Found
  | 0, _ => throw (-1)
  | hops + 1, name => do
    match ← bulkLookup name dirs with
    | .inl target => bulkResolveName dirs hops target
    | .inr found => pure found

/-! ## Reading it -/

abbrev bulkReadSectors : Nat := 120

/-- How many of the blocks after `block` follow it on the disk, up to `limit` of them and
as far as `remaining` whole blocks are wanted. -/
def runLength : Nat → Nat → Nat → List Nat → Nat
  | 0, _, _, _ => 0
  | _, _, _, [] => 0
  | limit + 1, block, remaining, b :: bs =>
    if b = block + 1 ∧ remaining > 0 then 1 + runLength limit b (remaining - 1) bs else 0

/-- Read the file's bytes, several consecutive blocks at a time. -/
def bulkRead : Nat → List Nat → Nat → M (List Byte)
  | 0, _, _ => pure []
  | _, [], remaining => do
    failIf (remaining ≠ 0) (-1)
    pure []
  | fuel + 1, b :: bs, remaining => do
    let geo := (← get).geo
    if remaining = 0 then pure []
    else if b = 0 then do
      let chunk := min remaining geo.blockSize
      let rest ← bulkRead fuel bs (remaining - chunk)
      pure (List.replicate chunk 0 ++ rest)
    else if remaining < geo.blockSize then do
      let buf ← blockRead b
      let rest ← bulkRead fuel bs 0
      pure (getBytes buf 0 remaining ++ rest)
    else do
      let more := runLength (bulkReadSectors / geo.sectorsPerBlock - 1) b
        (remaining / geo.blockSize - 1) bs
      let xs ← blkdevRead (b * geo.sectorsPerBlock) ((1 + more) * geo.sectorsPerBlock)
      let rest ← bulkRead fuel (bs.drop more) (remaining - (1 + more) * geo.blockSize)
      pure (xs.flatMap (getBytes · 0 512) ++ rest)

/-- What the kernel answers when the server asks for shared memory. -/
structure BulkShm where
  get : Int
  attach : Int

def bulkFind (name : List Byte) : M Found := do
  let dirs ← bulkDirs
  orFail (-1) (bulkResolveName dirs 8 (cString (name.take 24)))

def bulkLoad (shm : BulkShm) (found : Found) : M Reply := do
  failIf (found.size = 0) (-1)
  failIf (shm.get ≠ 0) shm.get
  failIf (shm.attach ≠ 0) shm.attach
  let geo := (← get).geo
  let inode ← orFail (-9) (inodeRead found.ino)
  let blocks ← orFail (-9) (walkInodeBlocks inode (needBlocks geo found.size))
  let bytes ← orFail (-9) (bulkRead (blocks.length + 1) blocks found.size)
  pure (.data bytes)

/-- `handle_read_bulk`: the bytes handed over, or the status reported instead. -/
def handleReadBulk (name : List Byte) (shm : BulkShm) : M Reply := do
  let found ← bulkFind name
  bulkLoad shm found

/-! ## Reading the disk -/

abbrev partitionStart : Nat := 2048

/-- `blkdev_raw_read` of one sector of the whole disk. -/
def rawReadSector (sector : Nat) : M Sector := fun s =>
  if sector < partitionStart then
    let s' := { s with dev := s.dev.tick }
    match s.dev.faults s.dev.time with
    | .none => (.ok (s.boot sector), s')
    | _ => (.error (-1), s')
  else readSector (sector - partitionStart) s

def u64Get (msg : Bytes 48) (off : Nat) : Nat :=
  (msg.slice off 8).toNat

def sectorRead (msg : Bytes 48) (x : Nat) : M Sector :=
  if u64Get msg 8 = 1 then rawReadSector x else readSector x

/-- The loop of `handle_device_read`, for sectors or blocks of `size` bytes.  The reply is written
over the request: device and offset are read again from the message for each piece, after the bytes
before went there. -/
def copyLoop {σ : Type} (size : Nat) (read : Bytes 48 → Nat → Fallible σ Int (Bytes size))
    (len : Nat) : Nat → Nat → Bytes 48 → Fallible σ Int (Nat × Bytes 48)
  | 0, copied, msg => pure (copied, msg)
  | fuel + 1, copied, msg =>
    if copied < len then do
      let byte := (u64Get msg 16 + copied) % 2 ^ 64
      match ← attempt (read msg (byte / size)) with
      | none => do
        failIf (copied = 0) errNotSupported
        pure (copied, msg)
      | some buf =>
        let chunk := min (size - byte % size) (len - copied)
        copyLoop size read len fuel (copied + chunk)
          (putBytes msg (8 + copied) (getBytes buf (byte % size) chunk))
    else pure (copied, msg)

def handleDeviceRead (src : Nat) (msg : Bytes 48) : M Reply := do
  let s ← get
  let device := u64Get msg 8
  let offset := u64Get msg 16
  let start := if device = 2 then partitionStart * 512 else 0
  let capacity := s.capacity * 512
  failIf (!s.geo.asRoot ∨ src ≠ s.kinfo.devfsTid ∨ (device ≠ 1 ∧ device ≠ 2)) errNotSupported
  if start ≥ capacity ∨ offset ≥ capacity - start then pure (.data [])
  else do
    let len := min (min (u64Get msg 24) vfsReadMax) (capacity - start - offset)
    let (copied, msg) ← copyLoop 512 sectorRead len len 0 msg
    pure (.data (getBytes msg 8 copied))

end Robu.Ext2
