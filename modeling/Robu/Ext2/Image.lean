import Robu.Ext2.Server

/-!
# A small volume

A volume of 512 blocks of 4096 bytes in one group, with 32 inodes: superblock (block 0),
group descriptor (1), bitmaps (2, 3), inode table (4), root directory (5) and a journal
file of 256 blocks (7 to 262, with their indirect block 6).  What else is on it is given by
more inodes, more root entries and more blocks.
-/

namespace Robu.Ext2

open Lib Fallible

/-- A buffer with 16-bit fields stored one after the other, given by offset and value. -/
def fields16 {n : Nat} (buf : Bytes n) (fs : List (Nat × Nat)) : Bytes n :=
  fs.foldl (fun b f => u16Set b f.1 f.2) buf

def fields32 {n : Nat} (buf : Bytes n) (fs : List (Nat × Nat)) : Bytes n :=
  fs.foldl (fun b f => u32Set b f.1 f.2) buf

def assemble (blocks : Nat → Block) (sector : Nat) : Sector :=
  (blocks (sector / 8)).slice (512 * (sector % 8)) 512

/-- A directory block, from records of length, inode and name; the records have type 1,
those of directories 2. -/
def dirBlock (entries : List (Nat × Nat × Nat × List Byte)) : Block :=
  (entries.foldl (fun (acc : Block × Nat) e =>
    (putDirent (u16Set acc.1 (acc.2 + 4) e.1) acc.2 e.2.1 e.2.2.1 e.2.2.2, acc.2 + e.1)) (0, 0)).1

def fileInode (mode links size sectors : Nat) (map : List Nat) : Inode :=
  fields32 (u32Set (u32Set (newInode mode links) 4 size) 28 sectors)
    (map.zipIdx.map fun bi => (mapOff + 4 * bi.2, bi.1))

def inodeTable (inodes : List (Nat × Inode)) : Block :=
  inodes.foldl (fun b i => b.put (128 * (i.1 - 1)) i.2) 0

/-- What is on the volume besides its own structures: inodes from 12 on, entries of the
root directory, and blocks from 263 on. -/
structure Contents where
  inodes : List (Nat × Inode)
  entries : List (Nat × Nat × Nat × List Byte)
  blocks : List (Nat × Block)

def smallBlocks (c : Contents) (freeBlocks freeInodes : Nat) : Nat → Block
  | 0 =>
    let sb : Bytes 1024 := fields32 0 [(0, 32), (4, 512), (12, freeBlocks), (16, freeInodes),
      (20, 0), (24, 2), (32, 32768), (40, 32), (76, 1), (96, 2)]
    Bytes.put 0 1024 (fields16 sb [(56, 0xEF53), (88, 128)])
  | 1 =>
    fields16 (fields32 0 [(0, 2), (4, 3), (8, 4)]) [(12, freeBlocks), (14, freeInodes), (16, 1)]
  | 2 => BitVec.ofNat _ (2 ^ 263 - 1 + (c.blocks.map fun b => 2 ^ b.1).sum)
  | 3 => BitVec.ofNat _ (2 ^ 11 - 1 + (c.inodes.map fun i => 2 ^ (i.1 - 1)).sum)
  | 4 =>
    inodeTable <| (2, fileInode 0x41ED 2 4096 8 [5]) ::
      (11, fileInode 0x8180 1 1048576 2056 (List.range' 7 12 ++ [6])) :: c.inodes
  | 5 =>
    dirBlock <| (12, 2, 2, dot) :: (12, 2, 2, dotdot) :: (24, 11, 1, journalFileName) :: c.entries
  | 6 => fields32 0 ((List.range 244).map fun i => (4 * i, 19 + i))
  | b => (c.blocks.lookup b).getD 0

def smallDisk (c : Contents) : Nat → Sector :=
  assemble (smallBlocks c (249 - c.blocks.length) (21 - c.inodes.length))

def unmounted (disk : Nat → Sector) : Server where
  dev := ⟨disk, fun _ => .none, 0, []⟩
  geo := ⟨0, 0, 0, 0, 0, 0, 0, 0, 0, 0, false, true⟩
  sb := 0
  journal := ⟨[], false, false, false, [], 0, 0⟩
  cursors := fun _ => ⟨0, 0⟩
  handles := fun _ => ⟨false, 0, fun _ => 0, 0, 0, 0, false, false, 0, 0⟩
  bulkSearchDirs := none
  boot := fun _ => 0
  capacity := 6144
  kinfo := ⟨100, 0, 0⟩

def mounted (c : Contents) : Server :=
  (ext2Mount (unmounted (smallDisk c))).2

def now (r : Request) : Call := ⟨⟨100, 0, 0⟩, fun _ => .none, r⟩

def failing (n : Nat) (r : Request) : Call :=
  ⟨⟨100, 0, 0⟩, fun t => if t = n then .lost else .none, r⟩

end Robu.Ext2
