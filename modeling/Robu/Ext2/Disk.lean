import Robu.Ext2.Journal

/-!
# Blocks, inodes and bitmaps

The functions of `disk.c`: superblock and group descriptors, blocks, inodes, allocation
by bitmap, and the block map of a file with its direct, indirect and doubly indirect
blocks.  Everything but the data of files goes through the journal's metadata reads and
writes.
-/

namespace Robu.Ext2

open Lib Fallible

/-! ## Superblock and group descriptors -/

def sbWrite : M Unit := do
  journalMetadataWrite 2 ((← get).sb.chunks 512 2)

def gdByte (geo : Geometry) (group : Nat) : Nat :=
  geo.gdtStartByte + group * 32

def gdSector (group : Nat) : M Sector := do
  let xs ← journalMetadataRead (gdByte (← get).geo group / 512) 1
  pure (Bytes.join xs)

def gdRead (group : Nat) : M GroupDesc := do
  let geo := (← get).geo
  let buf ← gdSector group
  pure (buf.slice (gdByte geo group % 512) 32)

def gdWrite (group : Nat) (gd : GroupDesc) : M Unit := do
  let geo := (← get).geo
  let buf ← gdSector group
  journalMetadataWrite (gdByte geo group / 512) [buf.put (gdByte geo group % 512) gd]

/-! ## Blocks -/

def blockRead (block : Nat) : M Block := do
  let spb := (← get).geo.sectorsPerBlock
  let xs ← blkdevRead (block * spb) spb
  pure (Bytes.join xs)

def blockWrite (block : Nat) (buf : Block) : M Unit := do
  let spb := (← get).geo.sectorsPerBlock
  blkdevWrite (block * spb) (buf.chunks 512 spb)

def metadataBlockRead (block : Nat) : M Block := do
  let spb := (← get).geo.sectorsPerBlock
  let xs ← journalMetadataRead (block * spb) spb
  pure (Bytes.join xs)

def metadataBlockWrite (block : Nat) (buf : Block) : M Unit := do
  let spb := (← get).geo.sectorsPerBlock
  journalMetadataWrite (block * spb) (buf.chunks 512 spb)

/-! ## Inodes -/

def inodeIndex (ino : Nat) : Nat :=
  (ino + (2 ^ 32 - 1)) % 2 ^ 32

def inodeGroup (geo : Geometry) (ino : Nat) : Nat :=
  inodeIndex ino / geo.inodesPerGroup

/-- The byte of the volume where an inode starts, in the inode table at `table`. -/
def inodeByte (geo : Geometry) (table ino : Nat) : Nat :=
  table * geo.blockSize + inodeIndex ino % geo.inodesPerGroup * geo.inodeSize

def inodeSectors (byte : Nat) : Nat :=
  (byte % 512 + 128 + 511) / 512

def inodeLocate (ino : Nat) : M Nat := do
  let geo := (← get).geo
  let gd ← gdRead (inodeGroup geo ino)
  pure (inodeByte geo (u32Get gd 8) ino)

def inodeBuffer (byte : Nat) : M (Bytes 1536) := do
  let xs ← journalMetadataRead (byte / 512) (inodeSectors byte)
  pure (Bytes.join xs)

/-- `inode_io`, reading. -/
def inodeRead (ino : Nat) : M Inode := do
  let byte ← inodeLocate ino
  let buf ← inodeBuffer byte
  pure (buf.slice (byte % 512) 128)

/-- `inode_io`, writing. -/
def inodeWrite (ino : Nat) (io : Inode) : M Unit := do
  let byte ← inodeLocate ino
  let buf ← inodeBuffer byte
  journalMetadataWrite (byte / 512) ((buf.put (byte % 512) io).chunks 512 (inodeSectors byte))

/-! ## Allocation -/

/-- Bit `bit` of a bitmap: bit `bit % 8` of byte `bit / 8`. -/
def bitmapGet (bitmap : Block) (bit : Nat) : Bool :=
  bitmap.getLsbD bit

def bitmapSet (bitmap : Block) (bit : Nat) : Block :=
  bitmap ||| BitVec.twoPow _ bit

def bitmapClear (bitmap : Block) (bit : Nat) : Block :=
  bitmap &&& ~~~BitVec.twoPow _ bit

def Pool.gdBitmap : Pool → Nat
  | .blocks => 0
  | .inodes => 4

def Pool.gdFree : Pool → Nat
  | .blocks => 12
  | .inodes => 14

def Pool.sbFree : Pool → Nat
  | .blocks => 12
  | .inodes => 16

def groupStart (geo : Geometry) (group : Nat) : Nat :=
  geo.firstDataBlock + group * geo.blocksPerGroup

/-- How many bits of a group's bitmap stand for something.  The block count of the last
group is a 64-bit difference, truncated to 32 bits. -/
def Pool.bits (geo : Geometry) (group : Nat) : Pool → Nat
  | .blocks =>
    (min (groupStart geo group + geo.blocksPerGroup) geo.blocksCount +
      2 ^ 64 - groupStart geo group) % 2 ^ 32
  | .inodes => geo.inodesPerGroup

def Pool.number (geo : Geometry) (group bit : Nat) : Pool → Nat
  | .blocks => (groupStart geo group + bit) % 2 ^ 32
  | .inodes => (group * geo.inodesPerGroup + bit + 1) % 2 ^ 32

/-- The first clear bit of a bitmap from `bit` on, below `bits`. -/
def firstClear (bitmap : Block) (bit bits : Nat) : Option Nat :=
  (List.range' bit (bits - bit)).find? fun b => !bitmapGet bitmap b

def nextGroup (p : Pool) : M Unit := do
  let geo := (← get).geo
  modifyCursor p fun c => ⟨(c.group + 1) % geo.numGroups, 0⟩

def takeBit (p : Pool) (group : Nat) (gd : GroupDesc) (bitmap : Block) (bit : Nat) : M Nat := do
  metadataBlockWrite (u32Get gd p.gdBitmap) (bitmapSet bitmap bit)
  gdWrite group (u16Set gd p.gdFree (u16Get gd p.gdFree - 1))
  modifySb fun sb => u32Set sb p.sbFree (u32Get sb p.sbFree + (2 ^ 32 - 1))
  sbWrite
  modifyCursor p fun c => { c with bit := bit + 1 }
  pure (p.number (← get).geo group bit)

/-- Search for a free block or inode, in `attempts` groups. -/
def allocFrom (p : Pool) : Nat → M Nat
  | 0 => throw (-1)
  | attempts + 1 => do
    let s ← get
    let group := (s.cursors p).group
    let gd ← gdRead group
    if u16Get gd p.gdFree = 0 then
      nextGroup p
      allocFrom p attempts
    else
      let bitmap ← metadataBlockRead (u32Get gd p.gdBitmap)
      match firstClear bitmap (s.cursors p).bit (p.bits s.geo group) with
      | some bit => takeBit p group gd bitmap bit
      | none => do
        nextGroup p
        allocFrom p attempts

def allocBlock : M Nat := do
  allocFrom .blocks ((← get).geo.numGroups + 1)

def allocInode : M Nat := do
  allocFrom .inodes ((← get).geo.numGroups + 1)

/-- Give a bit of a group's bitmap back, and count one more free.  With `checked`, the bit
must be set. -/
def releaseBit (p : Pool) (checked : Bool) (group bit : Nat) : M Unit := do
  let gd ← gdRead group
  let bitmap ← metadataBlockRead (u32Get gd p.gdBitmap)
  failIf (checked ∧ !bitmapGet bitmap bit) (-1)
  metadataBlockWrite (u32Get gd p.gdBitmap) (bitmapClear bitmap bit)
  gdWrite group (u16Set gd p.gdFree (u16Get gd p.gdFree + 1))
  modifySb fun sb => u32Set sb p.sbFree (u32Get sb p.sbFree + 1)
  sbWrite

def freeBlock (block : Nat) : M Unit := do
  let geo := (← get).geo
  failIf (block < geo.firstDataBlock) (-1)
  let rel := block - geo.firstDataBlock
  releaseBit .blocks false (rel / geo.blocksPerGroup) (rel % geo.blocksPerGroup)

def freeInode (ino : Nat) : M Unit := do
  let geo := (← get).geo
  failIf (ino = 0 ∨ ino > geo.inodesCount) (-1)
  failIf (inodeGroup geo ino ≥ geo.numGroups) (-1)
  releaseBit .inodes true (inodeGroup geo ino) (inodeIndex ino % geo.inodesPerGroup)

/-! ## The block map of a file -/

/-- The offset of the block map in an inode; entry 12 is the indirect block, entry 13 the
doubly indirect one. -/
abbrev mapOff : Nat := 40

def mapEntry (inode : Inode) (i : Nat) : Nat :=
  u32Get inode (mapOff + 4 * i)

def indirectEntry (buf : Block) (i : Nat) : Nat :=
  u32Get buf (4 * i)

/-- Block numbers from entry `i` on, at most `count` of them and at most `need`, up to the
first zero; and whether a zero was met. -/
def takeEntries (entry : Nat → Nat) : Nat → Nat → Nat → List Nat × Bool
  | 0, _, _ => ([], false)
  | count + 1, need, i =>
    if need = 0 then ([], false)
    else if entry i = 0 then ([], true)
    else
      let rest := takeEntries entry count (need - 1) (i + 1)
      (entry i :: rest.1, rest.2)

/-- The blocks reached through entries `di` on of the doubly indirect block. -/
def walkDouble (dind : Block) (entries : Nat) : Nat → Nat → Nat → M (List Nat)
  | 0, _, _ => pure []
  | count + 1, need, di =>
    if need = 0 ∨ indirectEntry dind di = 0 then pure []
    else do
      let sind ← metadataBlockRead (indirectEntry dind di)
      let taken := takeEntries (indirectEntry sind) entries need 0
      if taken.2 then pure taken.1
      else do
        let rest ← walkDouble dind entries count (need - taken.1.length) (di + 1)
        pure (taken.1 ++ rest)

def walkSingle (inode : Inode) (entries need : Nat) : M (List Nat × Bool) :=
  if need = 0 ∨ mapEntry inode 12 = 0 then pure ([], false)
  else do
    let ind ← metadataBlockRead (mapEntry inode 12)
    pure (takeEntries (indirectEntry ind) entries need 0)

/-- `walk_inode_blocks`: the first `need` blocks of a file, up to the first hole. -/
def walkInodeBlocks (inode : Inode) (need : Nat) : M (List Nat) := do
  let entries := (← get).geo.blockSize / 4
  let direct := takeEntries (mapEntry inode) 12 need 0
  if direct.2 then pure direct.1
  else do
    let need := need - direct.1.length
    let single ← walkSingle inode entries need
    if single.2 then pure (direct.1 ++ single.1)
    else
      let need := need - single.1.length
      if need = 0 ∨ mapEntry inode 13 = 0 then pure (direct.1 ++ single.1)
      else do
        let dind ← metadataBlockRead (mapEntry inode 13)
        let double ← walkDouble dind entries entries need 0
        pure (direct.1 ++ single.1 ++ double)

/-- The block number `block`, or a new zeroed block if it is zero; with its content. -/
def indirectBlock (block : Nat) : M (Nat × Block) :=
  if block = 0 then do
    let block ← allocBlock
    metadataBlockWrite block 0
    pure (block, 0)
  else do
    let buf ← metadataBlockRead block
    pure (block, buf)

/-- Append through the doubly indirect block: its entry `di`, entry `si` of the block that
names. -/
def appendDouble (inode : Inode) (di si newBlock : Nat) : M Inode := do
  let (dindirect, dind) ← indirectBlock (mapEntry inode 13)
  let inode := u32Set inode (mapOff + 4 * 13) dindirect
  let (sind, buf) ← indirectBlock (indirectEntry dind di)
  onlyIf (indirectEntry dind di = 0) (metadataBlockWrite dindirect (u32Set dind (4 * di) sind))
  metadataBlockWrite sind (u32Set buf (4 * si) newBlock)
  pure inode

/-- `append_block_to_inode`: the inode with `newBlock` as its block `logical`. -/
def appendBlockToInode (inode : Inode) (logical newBlock : Nat) : M Inode := do
  let entries := (← get).geo.blockSize / 4
  if logical < 12 then
    pure (u32Set inode (mapOff + 4 * logical) newBlock)
  else if logical - 12 < entries then do
    let (indirect, buf) ← indirectBlock (mapEntry inode 12)
    metadataBlockWrite indirect (u32Set buf (4 * (logical - 12)) newBlock)
    pure (u32Set inode (mapOff + 4 * 12) indirect)
  else do
    let idx := logical - 12 - entries
    failIf (idx / entries ≥ entries) (-1)
    appendDouble inode (idx / entries) (idx % entries) newBlock

/-- The offset of the attribute block in an inode, `EXT2_I_FILE_ACL`. -/
abbrev fileAcl : Nat := 104

/-- `compute_i_blocks_sectors`: the sectors of all blocks of a file of `blocks` blocks. -/
def computeIBlocksSectors (geo : Geometry) (inode : Inode) (blocks : Nat) : Nat :=
  let entries := geo.blockSize / 4
  let indirect := if mapEntry inode 12 ≠ 0 then 1 else 0
  let double := if mapEntry inode 13 ≠ 0 then
    1 + ((if blocks > 12 + entries then blocks - 12 - entries else 0) + entries - 1) / entries
    else 0
  let acl := if u32Get inode fileAcl ≠ 0 then 1 else 0
  (blocks + indirect + double + acl) * geo.sectorsPerBlock % 2 ^ 32

/-- How many blocks a file of `size` bytes has: a 32-bit sum, divided. -/
def needBlocks (geo : Geometry) (size : Nat) : Nat :=
  (size + geo.blockSize - 1) % 2 ^ 32 / geo.blockSize

def freeBlocks : List Nat → M Unit
  | [] => pure ()
  | b :: bs => do
    freeBlock b
    freeBlocks bs

def freeInodeBlocks (inode : Inode) : M Unit := do
  let geo := (← get).geo
  let blocks ← walkInodeBlocks inode (needBlocks geo (u32Get inode 4))
  freeBlocks blocks
  let indirect := mapEntry inode 12
  freeBlocks (if indirect ≠ 0 then [indirect] else [])
  let dindirect := mapEntry inode 13
  if dindirect ≠ 0 then
    let dind ← metadataBlockRead dindirect
    freeBlocks (((List.range (geo.blockSize / 4)).map (indirectEntry dind)).filter (· ≠ 0))
    freeBlock dindirect

end Robu.Ext2
