import Robu.Ext2.Path

/-!
# Requests on files and names

The functions of `vfs.c` that serve requests on open files (`open`, `read`, `write`,
`close`, `fstat`, `utimens`, `quiesce`) and on names (`stat`, `symlink`, `readdir`,
`mkdir`, `unlink`, `rmdir`, `rename`).

Each handle keeps one block of its file in a write cache.  The cache is written back
when another block is written through the handle, when the handle is closed, when its
file is about to lose a name, and by `quiesce`; the size of the file goes into its inode
then, not before.

A handler replies an error by throwing its status.
-/

namespace Robu.Ext2

open Lib Fallible

/-! ## Statuses and replies -/

abbrev errNotFound : Int := -1

abbrev errBadHandle : Int := -2

abbrev errNotSupported : Int := -3

abbrev errNoSpace : Int := -4

abbrev errIsDir : Int := -5

abbrev errExists : Int := -6

abbrev errNotDir : Int := -7

abbrev errNotEmpty : Int := -8

abbrev errInvalid : Int := -9

inductive Reply
  | done
  | error (status : Int)
  | opened (handle : Nat)
  /-- Bytes read; the status is their number. -/
  | data (bytes : List Byte)
  | written (count : Nat)
  /-- The reply to `stat` and `fstat`. -/
  | stat (size : Nat) (isDir : Bool) (ino atime mtime : Nat)
  /-- The reply to `readdir`. -/
  | entry (isDir : Bool) (name : List Byte)
  /-- The reply to an attribute request: the length of the value or list, and the bytes
  put into the shared memory. -/
  | value (len : Nat) (bytes : List Byte)
  /-- The reply to `caps`. -/
  | caps (abi features : Nat)
  deriving DecidableEq

abbrev vfsNameMax : Nat := 20

abbrev vfsReadMax : Nat := 40

abbrev vfsWriteMax : Nat := 24

/-! ## Common parts -/

def ext2Now (k : Kinfo) : Nat :=
  min (k.ticks / (if k.clockHz = 0 then 1 else k.clockHz)) 0xffffffff

def touch (inode : Inode) (now : Nat) : Inode :=
  u32Set (u32Set inode 12 now) 16 now

def journalReservedPath (parentIno : Nat) (leaf : List Byte) : Bool :=
  parentIno == rootInode && journalIsReservedName leaf

/-- `resolve_path`, with its failures as statuses. -/
def resolveName (rel : List Byte) (followFinal : Bool) : M (Nat × List Byte) :=
  tryCatch (resolvePath rel followFinal) fun e => throw (if e = -2 then errNotDir else errNotFound)

def wirePath (geo : Geometry) (size : Nat) (chars : List Byte) : List Byte :=
  cString ((chars.take size).drop geo.prefixLen)

/-- `copy_wire_path`: a path that ends inside its array. -/
def copyWirePath (size : Nat) (chars : List Byte) : M (List Byte) := do
  failIf ((chars.take size).length = size ∧ 0 ∉ chars.take size) errInvalid
  pure (cString (chars.take size))

/-- Run `m` as one transaction: what fails before the commit is undone. -/
def journaled {α : Type} (m : M α) : M α := do
  orFail errNoSpace journalBegin
  let a ← tryCatch m fun e => do
    journalAbort
    throw e
  orFail errNoSpace journalCommit
  pure a

def openHandle (status : Int) (h : Nat) : M (Fin maxHandles) := do
  let s ← get
  if hlt : h < maxHandles then
    failIf (!(s.handles ⟨h, hlt⟩).inUse) status
    pure ⟨h, hlt⟩
  else throw status

/-! ## Open -/

abbrev oCreat : Nat := 0x40

abbrev oTrunc : Nat := 0x200

abbrev oAppend : Nat := 0x400

def hasFlag (flags flag : Nat) : Bool :=
  flags &&& flag != 0

def newInode (mode links : Nat) : Inode :=
  u16Set (u16Set 0 0 mode) 26 links

def createFile (parentIno : Nat) (leaf : List Byte) : M Nat :=
  journaled <| orFail errNoSpace do
    let ino ← allocInode
    let now := ext2Now (← get).kinfo
    inodeWrite ino (touch (u32Set (newInode 0x81A4 1) 8 now) now)
    insertDirentInDir parentIno ino leaf 1
    pure ino

def truncated (geo : Geometry) (inode : Inode) (now : Nat) : Inode :=
  let inode := inode.put (k := 60) mapOff 0
  let inode := u32Set inode 4 0
  let inode := u32Set inode 28 (computeIBlocksSectors geo inode 0)
  touch inode now

def truncateFile (ino : Nat) : M Unit :=
  journaled do
    let inode ← orFail errNotFound (inodeRead ino)
    orFail errNoSpace do
      freeInodeBlocks inode
      let s ← get
      inodeWrite ino (truncated s.geo inode (ext2Now s.kinfo))

def overwrite (blocks : Nat → Nat) (bs : List Nat) : Nat → Nat :=
  fun i => if i < bs.length then bs.getD i 0 else blocks i

def fillHandle (h : Fin maxHandles) (ino size flags : Nat) : M Unit := do
  let geo := (← get).geo
  modifyHandle h fun hd =>
    { hd with
      inUse := true, ino := ino, fileSize := size, numBlocks := 0
      wcacheValid := false, wcacheDirty := false }
  let blocks ← attempt do
    failIf (size = 0) (-1)
    let inode ← inodeRead ino
    walkInodeBlocks inode (needBlocks geo size)
  modifyHandle h fun hd =>
    { hd with
      blocks := overwrite hd.blocks (blocks.getD [])
      numBlocks := (blocks.getD []).length
      offset := if hasFlag flags oAppend then size else 0 }

def freeHandle (s : Server) : Option (Fin maxHandles) :=
  (List.finRange maxHandles).find? fun h => !(s.handles h).inUse

/-- Find the file to open, and create or truncate it: its inode and its size. -/
def openTarget (parentIno : Nat) (leaf : List Byte) (flags : Nat) : M (Nat × Nat) := do
  match ← attempt (findInDir parentIno leaf) with
  | none => do
    failIf (!hasFlag flags oCreat) errNotFound
    let ino ← createFile parentIno leaf
    pure (ino, 0)
  | some found =>
    if hasFlag flags oTrunc then do
      truncateFile found.ino
      pure (found.ino, 0)
    else pure (found.ino, found.size)

/-- `handle_open`, up to where it looks for a handle. -/
def openFile (name : List Byte) (flags : Nat) : M (Nat × Nat) := do
  let geo := (← get).geo
  let (parentIno, leaf) ← resolveName (wirePath geo vfsPathMax name) true
  failIf (journalReservedPath parentIno leaf) errNotFound
  openTarget parentIno leaf flags

def handleOpen (name : List Byte) (flags : Nat) : M Reply := do
  let (ino, size) ← openFile name flags
  match freeHandle (← get) with
  | none => throw errNoSpace
  | some h => do
    fillHandle h ino size flags
    pure (.opened h)

/-! ## Read -/

/-- Read bytes `got` to `n` from a handle's offset on, block by block. -/
def readBytes (hd : Handle) (n : Nat) : Nat → Nat → M (List Byte)
  | 0, _ => pure []
  | fuel + 1, got => do
    let bs := (← get).geo.blockSize
    let blkIdx := (hd.offset + got) / bs % 2 ^ 32
    let blkOff := (hd.offset + got) % bs
    if got < n ∧ blkIdx < hd.numBlocks then do
      match ← attempt (blockRead (hd.blocks blkIdx)) with
      | none => pure []
      | some buf => do
        let chunk := min (bs - blkOff) (n - got)
        let rest ← readBytes hd n fuel (got + chunk)
        pure (getBytes buf blkOff chunk ++ rest)
    else pure []

def handleRead (h len : Nat) : M Reply := do
  let h ← openHandle errBadHandle h
  let hd := (← get).handles h
  let n := min (min len vfsReadMax) (hd.fileSize - hd.offset)
  let bytes ← readBytes hd n n 0
  modifyHandle h fun hd => { hd with offset := hd.offset + bytes.length }
  pure (.data bytes)

/-! ## Writing back -/

def flushedInode (s : Server) (hd : Handle) (inode : Inode) : Inode :=
  let inode := u32Set inode 4 hd.fileSize
  let inode := u32Set inode 28 (computeIBlocksSectors s.geo inode hd.numBlocks)
  touch inode (ext2Now s.kinfo)

/-- `flush_write_state`.  Outside a transaction it makes one of its own; the failure to
read the inode does not end it. -/
def flushWriteState (h : Fin maxHandles) : M Unit := do
  let s ← get
  let hd := s.handles h
  let own := !s.journal.active
  let giveUp : M Unit := do
    onlyIf own journalAbort
    throw (-1)
  if !hd.wcacheValid || !hd.wcacheDirty then pure ()
  else do
    onlyIf own journalBegin
    tryCatch (do blockWrite (hd.blocks hd.wcacheBlkIdx) hd.wcache; blkdevFlush) fun _ => giveUp
    let inode ← inodeRead hd.ino
    tryCatch (inodeWrite hd.ino (flushedInode s hd inode)) fun _ => giveUp
    onlyIf own journalCommit
    modifyHandle h fun hd => { hd with wcacheDirty := false }

def flushWhere (want : Handle → Bool) : List (Fin maxHandles) → M Unit
  | [] => pure ()
  | h :: hs => do
    let hd := (← get).handles h
    onlyIf (hd.inUse && want hd) (flushWriteState h)
    flushWhere want hs

def flushHandlesForInode (ino : Nat) : M Unit :=
  flushWhere (fun hd => hd.ino == ino) (List.finRange maxHandles)

/-! ## Write -/

def extendFile (h : Fin maxHandles) : M Unit := do
  let hd := (← get).handles h
  failIf (hd.numBlocks ≥ maxBlocks) (-1)
  let newBlock ← journaled do
    let newBlock ← allocBlock
    let inode ← inodeRead hd.ino
    let inode ← appendBlockToInode inode hd.numBlocks newBlock
    inodeWrite hd.ino inode
    pure newBlock
  modifyHandle h fun hd =>
    { hd with
      blocks := Function.update hd.blocks hd.numBlocks newBlock
      numBlocks := hd.numBlocks + 1 }

def Server.overwritten (s : Server) (block : Nat) (buf : Block) : Block :=
  let spb := s.geo.sectorsPerBlock
  (s.dev.delivers (block * spb) spb).zipIdx.foldl (fun buf (x, i) => buf.put (512 * i) x) buf

/-- Get block `blkIdx` of the file into the write cache.  A read that fails leaves the part it
has read in the cache, which is as valid as before. -/
def loadCache (h : Fin maxHandles) (blkIdx : Nat) : M Unit := do
  let hd := (← get).handles h
  if !hd.wcacheValid || hd.wcacheBlkIdx != blkIdx then do
    flushWriteState h
    let s ← get
    let block := (s.handles h).blocks blkIdx
    modifyHandle h fun hd => { hd with wcache := s.overwritten block hd.wcache }
    let buf ← blockRead block
    modifyHandle h fun hd =>
      { hd with wcache := buf, wcacheValid := true, wcacheBlkIdx := blkIdx }
  else pure ()

def fillCache (hd : Handle) (blkOff got : Nat) (bytes : List Byte) : Handle :=
  let stop := hd.offset + got + bytes.length
  { hd with
    wcache := putBytes hd.wcache blkOff bytes
    wcacheDirty := true
    fileSize := if stop > hd.fileSize then stop % 2 ^ 32 else hd.fileSize }

/-- Accept the bytes from `got` on that go to one block: how many they are. -/
def writeChunk (h : Fin maxHandles) (bytes : List Byte) (got : Nat) : M Nat := do
  let s ← get
  let hd := s.handles h
  let blkIdx := (hd.offset + got) / s.geo.blockSize % 2 ^ 32
  let blkOff := (hd.offset + got) % s.geo.blockSize
  onlyIf (blkIdx ≥ hd.numBlocks) (extendFile h)
  loadCache h blkIdx
  let chunk := (bytes.drop got).take (s.geo.blockSize - blkOff)
  modifyHandle h fun hd => fillCache hd blkOff got chunk
  pure chunk.length

/-- Accept bytes from `got` on, up to the first failure: how many were accepted. -/
def writeLoop (h : Fin maxHandles) (bytes : List Byte) : Nat → Nat → M Nat
  | 0, got => pure got
  | fuel + 1, got =>
    if got < bytes.length then do
      match ← attempt (writeChunk h bytes got) with
      | none => pure got
      | some chunk => writeLoop h bytes fuel (got + chunk)
    else pure got

def handleWrite (h : Nat) (bytes : List Byte) : M Reply := do
  let h ← openHandle errBadHandle h
  let bytes := bytes.take vfsWriteMax
  let got ← writeLoop h bytes bytes.length 0
  modifyHandle h fun hd => { hd with offset := hd.offset + got }
  pure (.written got)

/-! ## Close -/

def reclaimInodeIfUnused (ino : Nat) : M Unit := do
  let s ← get
  if (List.finRange maxHandles).any fun h => (s.handles h).inUse && (s.handles h).ino == ino then
    pure ()
  else do
    let inode ← inodeRead ino
    if u16Get inode 26 ≠ 0 then pure ()
    else do
      onlyIf (!(inodeMode inode = modeLink ∧ u32Get inode 4 ≤ 60)) (freeInodeBlocks inode)
      inodeWrite ino 0
      freeInode ino

def handleClose (h : Nat) : M Reply := do
  let h ← openHandle errBadHandle h
  orFail errNoSpace (flushWriteState h)
  let ino := ((← get).handles h).ino
  modifyHandle h fun hd => { hd with inUse := false, wcacheValid := false }
  orFail errNoSpace journalBegin
  orFail errNoSpace (journalFinish (reclaimInodeIfUnused ino))
  pure .done

/-! ## Other requests on open files -/

def handleFstat (h : Nat) : M Reply := do
  let h ← openHandle errBadHandle h
  let hd := (← get).handles h
  let inode ← orFail errNotFound (inodeRead hd.ino)
  pure (.stat hd.fileSize (inodeMode inode == modeDir) hd.ino (u32Get inode 8) (u32Get inode 16))

/-- The times of an inode as `utimens` sets them: access and modification time unless
they are omitted, and change time. -/
def withTimes (inode : Inode) (flags : Nat) (atime mtime ctime : Int) : Inode :=
  let inode := if hasFlag flags 1 then inode else u32Set inode 8 atime.toNat
  let inode := if hasFlag flags 2 then inode else u32Set inode 16 mtime.toNat
  u32Set inode 12 ctime.toNat

def timeFits (t : Int) : Bool :=
  0 ≤ t && t ≤ 0xffffffff

def handleUtimens (h flags : Nat) (atime mtime ctime : Int) : M Reply := do
  let h ← openHandle errInvalid h
  failIf (flags > 3 ∨ !(timeFits atime && timeFits mtime && timeFits ctime)) errInvalid
  let ino := ((← get).handles h).ino
  let inode ← orFail errNotFound (inodeRead ino)
  orFail errNoSpace journalBegin
  orFail errNoSpace (journalFinish (inodeWrite ino (withTimes inode flags atime mtime ctime)))
  pure .done

def handleQuiesce : M Reply := do
  orFail errNoSpace (flushWhere (fun _ => true) (List.finRange maxHandles))
  orFail errNoSpace blkdevFlush
  pure .done

/-! ## Looking at names -/

def handleStat (name : List Byte) : M Reply := do
  let geo := (← get).geo
  let rel := wirePath geo vfsPathMax name
  if rel = [] then do
    let inode ← orFail errNotFound (inodeRead rootInode)
    pure (.stat 0 true rootInode (u32Get inode 8) (u32Get inode 16))
  else do
    let (parentIno, leaf) ← resolveName rel true
    failIf (journalReservedPath parentIno leaf) errNotFound
    let found ← orFail errNotFound (findInDir parentIno leaf)
    let inode ← orFail errNotFound (inodeRead found.ino)
    pure (.stat found.size found.isDir found.ino (u32Get inode 8) (u32Get inode 16))

def Dirent.listed (d : Dirent) (dirIno : Nat) : Bool :=
  d.ino ≠ 0 && d.name != dot && d.name != dotdot &&
    !(dirIno == rootInode && journalIsReservedName d.name)

/-- The listed record number `want` of the blocks; a block that cannot be read ends the
directory. -/
def readdirBlocks (dirIno : Nat) : List Nat → Nat → M Dirent
  | [], _ => throw errNotFound
  | b :: bs, want => do
    let geo := (← get).geo
    let buf ← orFail errNotFound (blockRead b)
    let ds := (blockDirents false geo.blockSize buf).1.filter (·.listed dirIno)
    match ds.drop want with
    | d :: _ => pure d
    | [] => readdirBlocks dirIno bs (want - ds.length)

def handleReaddir (dirIno want : Nat) : M Reply := do
  let inode ← orFail errNotFound (inodeRead (dirIno % 2 ^ 32))
  let blocks ← orFail errNotFound (directoryBlocks inode)
  let d ← readdirBlocks dirIno blocks want
  let inode ← orFail errNotFound (inodeRead d.ino)
  pure (.entry (inodeMode inode == modeDir) (d.name.take (vfsNameMax - 1)))

/-! ## Making names -/

def linkInode (target : List Byte) : Inode :=
  putBytes (u32Set (newInode 0xA1FF 1) 4 target.length) mapOff target

def handleSymlink (name target : List Byte) : M Reply := do
  let geo := (← get).geo
  let (parentIno, leaf) ← resolveName (wirePath geo vfsNameMax name) false
  failIf (journalReservedPath parentIno leaf) errNotSupported
  match ← attempt (findInDir parentIno leaf) with
  | some _ => throw errExists
  | none => do
    let target := cString (target.take (vfsNameMax - 1))
    failIf (target.length > 60) errNoSpace
    journaled <| orFail errNoSpace do
      let ino ← allocInode
      inodeWrite ino (linkInode target)
      insertDirentInDir parentIno ino leaf 7
    pure .done

/-- The first block of a new directory: `.` and `..`. -/
def newDirBlock (geo : Geometry) (ino parentIno : Nat) : Block :=
  let fileType := if geo.direntFileType then 2 else 0
  let buf := putDirent (u16Set 0 4 12) 0 ino fileType dot
  putDirent (u16Set buf 16 (geo.blockSize - 12)) 12 parentIno fileType dotdot

def newDirInode (geo : Geometry) (block : Nat) : Inode :=
  let inode := u32Set (newInode 0x41ED 2) 4 geo.blockSize
  u32Set (u32Set inode 28 geo.sectorsPerBlock) mapOff block

/-- Count one more subdirectory and one more directory of the group, as far as they can
be read and written. -/
def countNewDir (parentIno ino : Nat) : M Unit := do
  let geo := (← get).geo
  let _ ← attempt do
    let parent ← inodeRead parentIno
    inodeWrite parentIno (u16Set parent 26 (u16Get parent 26 + 1))
  let _ ← attempt do
    let gd ← gdRead (inodeGroup geo ino)
    gdWrite (inodeGroup geo ino) (u16Set gd 16 (u16Get gd 16 + 1))

def releasing {α : Type} (block : Nat) (m : M α) : M α :=
  tryCatch m fun _ => do
    let _ ← attempt (freeBlock block)
    throw (-1)

def mkdirInternal (parentIno : Nat) (name : List Byte) : M Unit := do
  match ← attempt (findInDir parentIno name) with
  | some _ => throw (-3)
  | none => do
    let geo := (← get).geo
    let ino ← allocInode
    let block ← allocBlock
    releasing block (metadataBlockWrite block (newDirBlock geo ino parentIno))
    releasing block (inodeWrite ino (newDirInode geo block))
    insertDirentInDir parentIno ino name 2
    countNewDir parentIno ino

def handleMkdir (name : List Byte) : M Reply := do
  let geo := (← get).geo
  let (parentIno, leaf) ← resolveName (wirePath geo vfsPathMax name) false
  failIf (journalReservedPath parentIno leaf) errNotSupported
  journaled <| tryCatch (mkdirInternal parentIno leaf) fun e =>
    throw (if e = -3 then errExists else errNoSpace)
  pure .done

/-! ## Removing names -/

def mutationLeafValid (leaf : List Byte) : Bool :=
  leaf != [] && leaf != dot && leaf != dotdot

def shiftCount (count : Nat) (delta : Int) : M Nat := do
  failIf ((delta < 0 ∧ count = 0) ∨ (delta > 0 ∧ count = 0xffff)) (-1)
  pure (count + delta).toNat

def updateParentLinks (ino : Nat) (delta : Int) : M Unit := do
  let inode ← inodeRead ino
  let links ← shiftCount (u16Get inode 26) delta
  let now := ext2Now (← get).kinfo
  inodeWrite ino (touch (u16Set inode 26 links) now)

def updateGroupUsedDirs (ino : Nat) (delta : Int) : M Unit := do
  let geo := (← get).geo
  failIf (inodeGroup geo ino ≥ geo.numGroups) (-1)
  let gd ← gdRead (inodeGroup geo ino)
  let used ← shiftCount (u16Get gd 16) delta
  gdWrite (inodeGroup geo ino) (u16Set gd 16 used)

/-- `detach_existing_entry`, once the handles of the inode are written back. -/
def detachEntry (parentIno : Nat) (leaf : List Byte) (ino : Nat) (isDir : Bool) : M Unit := do
  let inode ← inodeRead ino
  failIf (isDir ≠ decide (inodeMode inode = modeDir)) (-1)
  let links := u16Get inode 26
  failIf ((!isDir ∧ links = 0) ∨ (isDir ∧ links < 2)) (-1)
  let removed ← removeDirentFromDir parentIno leaf
  failIf (removed ≠ ino) (-1)
  let now := ext2Now (← get).kinfo
  inodeWrite ino (touch (u16Set inode 26 (if isDir then 0 else links - 1)) now)
  onlyIf isDir do
    updateParentLinks parentIno (-1)
    updateGroupUsedDirs ino (-1)
  reclaimInodeIfUnused ino

def detachExistingEntry (parentIno : Nat) (leaf : List Byte) (ino : Nat) (isDir : Bool) :
    M Unit := do
  flushHandlesForInode ino
  detachEntry parentIno leaf ino isDir

/-- The name a request wants to change: its directory, the name, and what it names. -/
def mutationTarget (rel : List Byte) : M (Nat × List Byte × Found) := do
  let (parentIno, leaf) ← resolveName rel false
  failIf (!mutationLeafValid leaf) errInvalid
  failIf (journalReservedPath parentIno leaf) errNotSupported
  let found ← orFail errNotFound (findInDir parentIno leaf)
  pure (parentIno, leaf, found)

def unlinkTarget (name : List Byte) : M (Nat × List Byte × Found) := do
  let geo := (← get).geo
  let path ← copyWirePath vfsPathMax name
  let (parentIno, leaf, found) ← mutationTarget (path.drop geo.prefixLen)
  failIf found.isDir errIsDir
  pure (parentIno, leaf, found)

def handleUnlink (name : List Byte) : M Reply := do
  let (parentIno, leaf, found) ← unlinkTarget name
  orFail errNoSpace journalBegin
  orFail errNoSpace (journalFinish (detachExistingEntry parentIno leaf found.ino false))
  pure .done

def rmdirTarget (name : List Byte) : M (Nat × List Byte × Found) := do
  let geo := (← get).geo
  let path ← copyWirePath vfsPathMax name
  let (parentIno, leaf, found) ← mutationTarget (path.drop geo.prefixLen)
  failIf (!found.isDir) errNotDir
  let empty ← orFail errNoSpace (dirIsEmpty found.ino)
  failIf (!empty) errNotEmpty
  pure (parentIno, leaf, found)

def handleRmdir (name : List Byte) : M Reply := do
  let (parentIno, leaf, found) ← rmdirTarget name
  orFail errNoSpace journalBegin
  orFail errNoSpace (journalFinish (detachExistingEntry parentIno leaf found.ino true))
  pure .done

/-! ## Rename -/

def ancestorWalk (ancestorIno : Nat) : Nat → Nat → M Bool
  | 0, _ => throw (-1)
  | hops + 1, current =>
    if current = ancestorIno then pure true
    else do
      let parent ← dirParentIno current
      if parent = current then pure false
      else ancestorWalk ancestorIno hops parent

def directoryIsAncestor (ancestorIno descendantIno : Nat) : M Bool := do
  ancestorWalk ancestorIno ((← get).geo.inodesCount + 1) descendantIno

/-- One side of a rename: a name and the directory it is in. -/
structure NameIn where
  parent : Nat
  leaf : List Byte
  deriving DecidableEq

def renameSide (rel : List Byte) : M NameIn := do
  let (parentIno, leaf) ← resolveName rel false
  failIf (!mutationLeafValid leaf ∨ leaf.length ≥ vfsNameMax) errInvalid
  failIf (journalReservedPath parentIno leaf) errNotSupported
  pure ⟨parentIno, leaf⟩

def direntFileType (inode : Inode) : Nat :=
  if inodeMode inode = modeDir then 2
  else if inodeMode inode = modeLink then 7
  else 1

/-- Move a name: the new record first, then the parent of a directory, then the old
record and the counts. -/
def moveEntry (src dst : NameIn) (found : Found) (inode : Inode) : M Unit := do
  let crosses := found.isDir && src.parent != dst.parent
  insertDirentInDir dst.parent found.ino dst.leaf (direntFileType inode)
  onlyIf crosses (setDirParentIno found.ino dst.parent)
  let removed ← removeDirentFromDir src.parent src.leaf
  failIf (removed ≠ found.ino) (-1)
  onlyIf crosses do
    updateParentLinks src.parent (-1)
    updateParentLinks dst.parent 1
  let inode ← inodeRead found.ino
  inodeWrite found.ino (u32Set inode 12 (ext2Now (← get).kinfo))

def checkReplace (found target : Found) : M Unit := do
  failIf (found.isDir ∧ !target.isDir) errNotDir
  failIf (!found.isDir ∧ target.isDir) errIsDir
  onlyIf target.isDir do
    let empty ← orFail errNoSpace (dirIsEmpty target.ino)
    failIf (!empty) errNotEmpty

/-- What a rename does in its transaction; `false` if both names are the same file and
nothing is to be done. -/
def renameEntry (src dst : NameIn) (found : Found) (inode : Inode) : M Bool := do
  match ← attempt (findInDir dst.parent dst.leaf) with
  | some target =>
    if target.ino = found.ino then pure false
    else do
      checkReplace found target
      orFail errNoSpace (detachExistingEntry dst.parent dst.leaf target.ino target.isDir)
      orFail errNoSpace (moveEntry src dst found inode)
      pure true
  | none => do
    orFail errNoSpace (moveEntry src dst found inode)
    pure true

def checkAncestry (found : Found) (dstParent : Nat) : M Unit :=
  onlyIf found.isDir do
    let below ← orFail errNoSpace (directoryIsAncestor found.ino dstParent)
    failIf below errInvalid

/-- The lookups of `handle_rename`: both names, and what the old one names. -/
def renameSides (oldName newName : List Byte) : M (NameIn × NameIn × Found × Inode) := do
  let geo := (← get).geo
  let oldPath ← copyWirePath vfsNameMax oldName
  let newPath ← copyWirePath vfsNameMax newName
  let src ← renameSide (oldPath.drop geo.prefixLen)
  let found ← orFail errNotFound (findInDir src.parent src.leaf)
  let inode ← orFail errNotFound (inodeRead found.ino)
  let dst ← renameSide (newPath.drop geo.prefixLen)
  pure (src, dst, found, inode)

def handleRename (oldName newName : List Byte) : M Reply := do
  let (src, dst, found, inode) ← renameSides oldName newName
  if src = dst then pure .done
  else do
    checkAncestry found dst.parent
    orFail errNoSpace journalBegin
    let moved ← tryCatch (renameEntry src dst found inode) fun e => do
      journalAbort
      throw e
    if moved then do
      orFail errNoSpace journalCommit
      pure .done
    else do
      journalAbort
      pure .done

end Robu.Ext2
