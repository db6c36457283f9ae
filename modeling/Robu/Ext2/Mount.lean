import Robu.Ext2.Path

/-!
# Mounting

`ext2_mount` reads the geometry of the volume from its superblock; `journal_mount` looks
for the journal file in the root directory, maps its blocks and replays it.  A volume
without a usable journal file is mounted too, but nothing can be changed on it.
-/

namespace Robu.Ext2

open Lib Fallible

def journalNeedBlocks (geo : Geometry) : Nat :=
  (journalSectors + geo.sectorsPerBlock - 1) / geo.sectorsPerBlock

def readSb : M Unit := do
  let xs ← blkdevRead 2 2
  modify fun s => { s with sb := Bytes.join xs }

def journalOpen (ino : Nat) : M Unit := do
  let geo := (← get).geo
  let inode ← inodeRead ino
  failIf (inodeMode inode ≠ modeRegular) (-1)
  let blocks ← walkInodeBlocks inode (journalNeedBlocks geo)
  failIf (blocks.length ≠ journalNeedBlocks geo ∨ 0 ∈ blocks) (-1)
  modifyJournal fun j => { j with blocks := blocks, ready := true }
  tryCatch (do journalReplay; readSb) fun _ => do
    modifyJournal fun j => { j with ready := false }
    throw (-1)

def journalMount : M Unit := do
  match ← attempt (findInDir rootInode journalFileName) with
  | none => pure ()
  | some found =>
    if found.isDir ∨ found.size < journalSectors * 512 then pure ()
    else journalOpen found.ino

def geometryOf (asRoot : Bool) (sb : Bytes 1024) : Geometry where
  blockSize := 1024 * 2 ^ u32Get sb 24
  sectorsPerBlock := 1024 * 2 ^ u32Get sb 24 / 512
  blocksCount := u32Get sb 4
  inodesCount := u32Get sb 0
  blocksPerGroup := u32Get sb 32
  inodesPerGroup := u32Get sb 40
  firstDataBlock := u32Get sb 20
  inodeSize := if u32Get sb 76 ≥ 1 then u16Get sb 88 else 128
  numGroups := (u32Get sb 4 + u32Get sb 32 - 1) % 2 ^ 32 / u32Get sb 32
  gdtStartByte := (u32Get sb 20 + 1) % 2 ^ 32 * (1024 * 2 ^ u32Get sb 24)
  direntFileType := u32Get sb 96 &&& 2 != 0
  asRoot := asRoot

/-- What `ext2_mount` accepts of a superblock: its magic, no journal of another kind, no
feature the server does not know, and a geometry its buffers can hold. -/
def sbAccepted (asRoot : Bool) (sb : Bytes 1024) : Bool :=
  let geo := geometryOf asRoot sb
  u16Get sb 56 == 0xEF53 && u32Get sb 92 &&& 4 == 0 && u32Get sb 96 &&& (2 ^ 32 - 1 - 2) == 0 &&
    u32Get sb 100 &&& (2 ^ 32 - 1 - 3) == 0 &&
    u32Get sb 24 ≤ 2 &&
    128 ≤ geo.inodeSize && geo.inodeSize ≤ 256 &&
    geo.blocksCount != 0 && geo.inodesCount != 0 &&
    geo.blocksPerGroup != 0 && geo.inodesPerGroup != 0 &&
    geo.numGroups != 0 && geo.numGroups ≤ maxGroups

def ext2Mount : M Unit := do
  readSb
  let s ← get
  failIf (!sbAccepted s.geo.asRoot s.sb) (-1)
  modify fun s => { s with geo := geometryOf s.geo.asRoot s.sb }
  journalMount

end Robu.Ext2
