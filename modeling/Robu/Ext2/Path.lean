import Robu.Ext2.Disk

/-!
# Directories and paths

The functions of `path.c`.  A directory is a file whose blocks are chains of records:
inode number, record length, name length, file type, name.  Some functions leave a block
at a record whose length is too short; others check every record and give up at a bad
one.  `dirents` has both.

A path is resolved from the root, one name after the other; a symbolic link on the way
is replaced by its target, and the new path is resolved from the root again, eight times
at most.
-/

namespace Robu.Ext2

open Lib Fallible

/-! ## Modes -/

abbrev modeDir : Nat := 0x4000

abbrev modeLink : Nat := 0xA000

abbrev modeRegular : Nat := 0x8000

/-- The file type of an inode: its mode, masked with `0xF000`. -/
def inodeMode (inode : Inode) : Nat :=
  u16Get inode 0 &&& 0xF000

def directoryBlocks (inode : Inode) : M (List Nat) := do
  walkInodeBlocks inode (needBlocks (← get).geo (u32Get inode 4))

/-! ## Records of a directory block -/

def align4 (x : Nat) : Nat :=
  (x + 3) / 4 * 4

structure Dirent where
  off : Nat
  ino : Nat
  recLen : Nat
  name : List Byte
  deriving DecidableEq

def direntAt (buf : Block) (off : Nat) : Dirent where
  off := off
  ino := u32Get buf off
  recLen := u16Get buf (off + 4)
  name := getBytes buf (off + 8) (byteGet buf (off + 6)).toNat

/-- The records of a block from `off` on, up to a bad one; and whether there was a bad
one.  Records shorter than eight bytes are bad; with `strict`, so are those that leave
the block. -/
def dirents (strict : Bool) (bs : Nat) (buf : Block) : Nat → Nat → List Dirent × Bool
  | 0, _ => ([], false)
  | fuel + 1, off =>
    if off + 8 ≤ bs then
      let d := direntAt buf off
      if d.recLen < 8 ∨ (strict ∧ d.recLen > bs - off) then ([], true)
      else
        let rest := dirents strict bs buf fuel (off + d.recLen)
        (d :: rest.1, rest.2)
    else ([], false)

/-- All records of a block: none is shorter than eight bytes, so there are at most 512. -/
def blockDirents (strict : Bool) (bs : Nat) (buf : Block) : List Dirent × Bool :=
  dirents strict bs buf 513 0

def Dirent.matches (d : Dirent) (name : List Byte) : Bool :=
  d.ino ≠ 0 && d.name == name

def dot : List Byte := [0x2E]

def dotdot : List Byte := [0x2E, 0x2E]

/-! ## Looking up a name -/

/-- What `find_in_dir` reports. -/
structure Found where
  ino : Nat
  size : Nat
  isDir : Bool

def findInBlocks (name : List Byte) : List Nat → M Found
  | [] => throw (-1)
  | b :: bs => do
    let geo := (← get).geo
    let buf ← metadataBlockRead b
    match (blockDirents false geo.blockSize buf).1.find? (·.matches name) with
    | some d => do
      let inode ← inodeRead d.ino
      pure ⟨d.ino, u32Get inode 4, inodeMode inode == modeDir⟩
    | none => findInBlocks name bs

def findInDir (dirIno : Nat) (name : List Byte) : M Found := do
  let inode ← inodeRead dirIno
  let blocks ← directoryBlocks inode
  findInBlocks name blocks

/-! ## Paths -/

abbrev vfsPathMax : Nat := 32

abbrev slash : Byte := 0x2F

def cString (chars : List Byte) : List Byte :=
  chars.takeWhile (· ≠ 0)

/-- `copy_path`: a path of at most 31 characters. -/
def copyPath (path : List Byte) : M (List Byte) := do
  failIf (path.length > vfsPathMax - 1) (-1)
  pure path

/-- The directories that make a link's target relative to the root: `bin/`, `sbin/`,
`usr/`, `etc/`, `var/` and `boot/`. -/
def rootRelativeDirs : List (List Byte) :=
  [[0x62, 0x69, 0x6E, 0x2F], [0x73, 0x62, 0x69, 0x6E, 0x2F], [0x75, 0x73, 0x72, 0x2F],
    [0x65, 0x74, 0x63, 0x2F], [0x76, 0x61, 0x72, 0x2F], [0x62, 0x6F, 0x6F, 0x74, 0x2F]]

def isRootRelativeTarget (target : List Byte) : Bool :=
  target.head? == some slash || rootRelativeDirs.any fun r => r.isPrefixOf target

/-- `EXT2FS_MOUNT_PREFIX`, where the server is not the root's: `/mnt/ext2/`. -/
def mountPrefix : List Byte :=
  [0x2F, 0x6D, 0x6E, 0x74, 0x2F, 0x65, 0x78, 0x74, 0x32, 0x2F]

def Geometry.prefixLen (geo : Geometry) : Nat :=
  if geo.asRoot then 0 else 10

def targetStart (geo : Geometry) (target : List Byte) : Nat :=
  if target.head? = some slash then
    if geo.prefixLen ≠ 0 ∧ mountPrefix.isPrefixOf target then geo.prefixLen else 1
  else 0

def linkTarget (inode : Inode) : List Byte :=
  cString (getBytes inode mapOff (u32Get inode 4))

/-- `replace_symlink`: the path with the segment between `before` and `rest` replaced by
the target of the link. -/
def replaceSymlink (before rest : List Byte) (ino : Nat) : M (List Byte) := do
  let geo := (← get).geo
  let inode ← inodeRead ino
  failIf (u32Get inode 4 = 0 ∨ u32Get inode 4 > 60) (-1)
  let target := linkTarget inode
  let base := if isRootRelativeTarget target then [] else before
  copyPath (base ++ target.drop (targetStart geo target) ++ rest)

inductive Resolved
  /-- At a directory, and a name to look up there. -/
  | at (parent : Nat) (leaf : List Byte)
  /-- At a symbolic link, which makes this path of it. -/
  | replaced (work : List Byte)

/-- Walk along a path: `before` is behind, `todo` is ahead, `cur` is the directory
reached. -/
def resolveSegments (followFinal : Bool) : Nat → List Byte → List Byte → Nat → M Resolved
  | 0, _, _, _ => pure (.at rootInode [])
  | fuel + 1, before, todo, cur =>
    let start := before ++ todo.takeWhile (· = slash)
    let todo := todo.dropWhile (· = slash)
    let segment := todo.takeWhile (· ≠ slash)
    let rest := todo.dropWhile (· ≠ slash)
    if todo = [] then pure (.at rootInode [])
    else do
      match ← attempt (findInDir cur segment) with
      | none => do
        failIf (rest ≠ []) (-1)
        pure (.at cur segment)
      | some next => do
        let inode ← inodeRead next.ino
        if inodeMode inode = modeLink ∧ (rest ≠ [] ∨ followFinal) then do
          let work ← replaceSymlink start rest next.ino
          pure (.replaced work)
        else if rest = [] then pure (.at cur segment)
        else do
          failIf (!next.isDir) (-2)
          resolveSegments followFinal fuel (start ++ segment) rest next.ino

/-- Resolve a path, replacing links `hops - 1` times at most. -/
def resolveHops (followFinal : Bool) : Nat → List Byte → M (Nat × List Byte)
  | 0, _ => throw (-1)
  | hops + 1, work => do
    match ← resolveSegments followFinal (work.length + 1) [] work rootInode with
    | .at parent leaf => pure (parent, leaf)
    | .replaced work => resolveHops followFinal hops work

/-- `resolve_path`: the parent directory and the last name of a path. -/
def resolvePath (rel : List Byte) (followFinal : Bool) : M (Nat × List Byte) := do
  let work ← copyPath rel
  resolveHops followFinal 8 work

/-! ## Adding and removing names -/

def putDirent (buf : Block) (off ino fileType : Nat) (name : List Byte) : Block :=
  let buf := u32Set buf off ino
  let buf := byteSet buf (off + 6) (BitVec.ofNat 8 name.length)
  let buf := byteSet buf (off + 7) (BitVec.ofNat 8 fileType)
  putBytes buf (off + 8) name

def Dirent.ideal (d : Dirent) : Nat :=
  if d.ino ≠ 0 then align4 (8 + d.name.length) else 0

def Dirent.avail (d : Dirent) : Nat :=
  (d.recLen + 2 ^ 32 - d.ideal) % 2 ^ 32

/-- Put a new record into the room record `d` has left, or into `d` if it is unused. -/
def splitDirent (buf : Block) (d : Dirent) (ino fileType : Nat) (name : List Byte) : Block :=
  if d.ino ≠ 0 then
    let buf := u16Set buf (d.off + 4) d.ideal
    let buf := u16Set buf (d.off + d.ideal + 4) d.avail
    putDirent buf (d.off + d.ideal) ino fileType name
  else
    putDirent buf d.off ino fileType name

def insertInBlocks (ino fileType : Nat) (name : List Byte) : List Nat → M Bool
  | [] => pure false
  | b :: bs => do
    let geo := (← get).geo
    let buf ← metadataBlockRead b
    match (blockDirents false geo.blockSize buf).1.find?
        fun d => d.avail ≥ align4 (8 + name.length) with
    | some d => do
      metadataBlockWrite b (splitDirent buf d ino fileType name)
      pure true
    | none => insertInBlocks ino fileType name bs

def insertNewBlock (parentIno : Nat) (inode : Inode) (blocks : List Nat) (ino fileType : Nat)
    (name : List Byte) : M Unit := do
  let geo := (← get).geo
  failIf (blocks.length ≥ maxBlocks) (-1)
  let newBlock ← allocBlock
  metadataBlockWrite newBlock (putDirent (u16Set 0 4 geo.blockSize) 0 ino fileType name)
  let inode' ← tryCatch (appendBlockToInode inode blocks.length newBlock) fun _ => do
    let _ ← attempt (freeBlock newBlock)
    throw (-1)
  let inode' := u32Set inode' 4 (u32Get inode 4 + geo.blockSize)
  let inode' := u32Set inode' 28 (computeIBlocksSectors geo inode' (blocks.length + 1))
  inodeWrite parentIno inode'

def insertDirentInDir (parentIno ino : Nat) (name : List Byte) (fileType : Nat) : M Unit := do
  let geo := (← get).geo
  let fileType := if geo.direntFileType then fileType else 0
  let inode ← inodeRead parentIno
  let blocks ← directoryBlocks inode
  let inserted ← insertInBlocks ino fileType name blocks
  if inserted then pure ()
  else insertNewBlock parentIno inode blocks ino fileType name

/-- The block without the first record with the given name: its bytes go to the record
before it; the first record of a block is only marked unused.  With it, the inode the
record named. -/
def removeRecord (buf : Block) (name : List Byte) :
    Option Dirent → List Dirent → Option (Block × Nat)
  | _, [] => none
  | prev, d :: ds =>
    if d.matches name then
      match prev with
      | some p => some (u16Set buf (p.off + 4) (p.recLen + d.recLen), d.ino)
      | none => some (u32Set buf d.off 0, d.ino)
    else removeRecord buf name (some d) ds

def removeFromBlocks (name : List Byte) : List Nat → M Nat
  | [] => throw (-1)
  | b :: bs => do
    let geo := (← get).geo
    let buf ← metadataBlockRead b
    let ds := blockDirents true geo.blockSize buf
    match removeRecord buf name none ds.1 with
    | some (buf, ino) => do
      metadataBlockWrite b buf
      pure ino
    | none => do
      failIf ds.2 (-1)
      removeFromBlocks name bs

def removeDirentFromDir (parentIno : Nat) (name : List Byte) : M Nat := do
  let inode ← inodeRead parentIno
  let blocks ← directoryBlocks inode
  removeFromBlocks name blocks

/-! ## Directories as a whole -/

def directoryRead (ino : Nat) : M Inode := do
  let inode ← inodeRead ino
  failIf (inodeMode inode ≠ modeDir) (-1)
  pure inode

/-- Do the blocks hold no name but `.` and `..`? -/
def blocksEmpty : List Nat → M Bool
  | [] => pure true
  | b :: bs => do
    let geo := (← get).geo
    let buf ← metadataBlockRead b
    let ds := blockDirents true geo.blockSize buf
    if ds.1.any fun d => d.ino ≠ 0 && d.name != dot && d.name != dotdot then pure false
    else do
      failIf ds.2 (-1)
      blocksEmpty bs

def dirIsEmpty (ino : Nat) : M Bool := do
  let inode ← directoryRead ino
  let blocks ← directoryBlocks inode
  blocksEmpty blocks

def dirParentIno (ino : Nat) : M Nat := do
  let found ← findInDir ino dotdot
  pure found.ino

/-- Let the first `..` of the blocks name another directory. -/
def setParentInBlocks (parentIno : Nat) : List Nat → M Unit
  | [] => throw (-1)
  | b :: bs => do
    let geo := (← get).geo
    let buf ← metadataBlockRead b
    let ds := blockDirents true geo.blockSize buf
    match ds.1.find? (·.matches dotdot) with
    | some d => metadataBlockWrite b (u32Set buf d.off parentIno)
    | none => do
      failIf ds.2 (-1)
      setParentInBlocks parentIno bs

def setDirParentIno (ino parentIno : Nat) : M Unit := do
  let inode ← directoryRead ino
  let blocks ← directoryBlocks inode
  setParentInBlocks parentIno blocks

end Robu.Ext2
