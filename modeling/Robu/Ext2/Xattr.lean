import Robu.Ext2.Vfs

/-!
# Extended attributes

The functions of `xattr.c`.  All attributes of a file are kept in one block, named by its
inode: a header, the entries one after the other from the start, their values from the
end.  Only names that start with `user.` are supported; the prefix is not stored.

Names and values are exchanged through a segment of shared memory.  What the kernel says
about the segment, and the bytes in it, are part of the request.
-/

namespace Robu.Ext2

open Lib Fallible

abbrev xattrMagic : Nat := 0xEA020000

abbrev xattrHeaderSize : Nat := 32

abbrev xattrEntrySize : Nat := 16

abbrev xattrIndexUser : Nat := 1

abbrev xattrMaxEntries : Nat := 8

abbrev xattrNameMax : Nat := 255

abbrev xattrValueMax : Nat := 1024

structure XattrEntry where
  name : List Byte
  value : List Byte
  deriving DecidableEq

def XattrEntry.room (e : XattrEntry) : Nat :=
  align4 (xattrEntrySize + e.name.length)

/-! ## Reading the block -/

/-- The entry at `offset` and where the next one starts, or that there is none. -/
def xattrEntryAt (bs : Nat) (buf : Block) (offset : Nat) : Except Int (Option (XattrEntry × Nat)) :=
  let nameLen := (byteGet buf offset).toNat
  let nameIndex := (byteGet buf (offset + 1)).toNat
  let next := offset + align4 (xattrEntrySize + nameLen)
  let valueLen := u32Get buf (offset + 8)
  let valueOff := u16Get buf (offset + 2)
  if offset + 4 > bs then .error (-1)
  else if nameLen = 0 ∧ nameIndex = 0 then .ok none
  else if nameLen = 0 ∨ next > bs ∨ nameIndex ≠ xattrIndexUser ∨ u32Get buf (offset + 4) ≠ 0 then
    .error (-2)
  else if valueLen > xattrValueMax ∨
      (valueLen ≠ 0 ∧ (valueOff < xattrHeaderSize ∨ valueOff + valueLen > bs)) then .error (-2)
  else
    .ok (some (⟨getBytes buf (offset + xattrEntrySize) nameLen,
      getBytes buf valueOff valueLen⟩, next))

/-- The entries from `offset` on, of which there may be `room`. -/
def xattrEntries (bs : Nat) (buf : Block) : Nat → Nat → Except Int (List XattrEntry)
  | room, offset =>
    match xattrEntryAt bs buf offset with
    | .error e => .error e
    | .ok none => .ok []
    | .ok (some (entry, next)) =>
      match room with
      | 0 => .error (-2)
      | room + 1 => (xattrEntries bs buf room next).map (entry :: ·)

structure XattrBlock where
  entries : List XattrEntry
  block : Nat
  refcount : Nat

def xattrReadEntries (inode : Inode) : M XattrBlock := do
  let geo := (← get).geo
  let block := u32Get inode fileAcl
  if block = 0 then pure ⟨[], 0, 0⟩
  else do
    let buf ← metadataBlockRead block
    failIf (u32Get buf 0 ≠ xattrMagic ∨ u32Get buf 8 ≠ 1) (-1)
    failIf (u32Get buf 4 = 0) (-1)
    match xattrEntries geo.blockSize buf xattrMaxEntries xattrHeaderSize with
    | .error e => throw e
    | .ok entries => pure ⟨entries, block, u32Get buf 4⟩

/-! ## Writing the block -/

def xattrEntriesEnd (entries : List XattrEntry) : Nat :=
  xattrHeaderSize + 4 + (entries.map XattrEntry.room).sum

/-- Where each value goes, from `cursor` down to the end of the entries; values are
aligned, and an empty one has offset 0. -/
def xattrValueOffsets (entriesEnd : Nat) : Nat → List XattrEntry → Option (List Nat)
  | _, [] => some []
  | cursor, e :: es =>
    let len := align4 e.value.length
    if e.value = [] then (xattrValueOffsets entriesEnd cursor es).map (0 :: ·)
    else if cursor < len ∨ cursor - len < entriesEnd then none
    else (xattrValueOffsets entriesEnd (cursor - len) es).map ((cursor - len) :: ·)

def putXattr (buf : Block) (offset valueOff : Nat) (e : XattrEntry) : Block :=
  let buf := byteSet buf offset (BitVec.ofNat 8 e.name.length)
  let buf := byteSet buf (offset + 1) (BitVec.ofNat 8 xattrIndexUser)
  let buf := u16Set buf (offset + 2) valueOff
  let buf := u32Set buf (offset + 4) 0
  let buf := u32Set buf (offset + 8) e.value.length
  let buf := putBytes buf (offset + xattrEntrySize) e.name
  putBytes buf valueOff e.value

def putXattrs (buf : Block) (offset : Nat) : List (XattrEntry × Nat) → Block
  | [] => buf
  | (e, valueOff) :: es => putXattrs (putXattr buf offset valueOff e) (offset + e.room) es

def xattrBuildBlock (bs : Nat) (entries : List XattrEntry) : Option Block :=
  let entriesEnd := xattrEntriesEnd entries
  if entries.any (fun e => e.name = [] ∨ e.value.length > xattrValueMax) ∨ entriesEnd > bs then none
  else
    (xattrValueOffsets entriesEnd bs entries).map fun offsets =>
      let buf := u32Set (u32Set (u32Set 0 0 xattrMagic) 4 1) 8 1
      putXattrs buf xattrHeaderSize (entries.zip offsets)

abbrev featureExtAttr : Nat := 0x8

def xattrNewBlock (ino : Nat) (inode : Inode) (buf : Block) : M Unit := do
  let geo := (← get).geo
  let newBlock ← allocBlock
  releasing newBlock (metadataBlockWrite newBlock buf)
  let inode := u32Set inode fileAcl newBlock
  let inode := u32Set inode 28 (u32Get inode 28 + geo.sectorsPerBlock)
  releasing newBlock (inodeWrite ino inode)
  modifySb fun sb => u32Set sb 92 (u32Get sb 92 ||| featureExtAttr)
  sbWrite

def xattrDropBlock (ino : Nat) (inode : Inode) (block : Nat) : M Unit := do
  let geo := (← get).geo
  let sectors := u32Get inode 28
  failIf (sectors < geo.sectorsPerBlock) (-1)
  inodeWrite ino (u32Set (u32Set inode fileAcl 0) 28 (sectors - geo.sectorsPerBlock))
  freeBlock block

def xattrWriteEntries (ino : Nat) (inode : Inode) (x : XattrBlock) : M Unit := do
  let geo := (← get).geo
  if x.entries = [] then
    if x.block = 0 then pure () else xattrDropBlock ino inode x.block
  else do
    failIf (x.block ≠ 0 ∧ x.refcount ≠ 1) (-2)
    match xattrBuildBlock geo.blockSize x.entries with
    | none => throw (-3)
    | some buf =>
      if x.block ≠ 0 then metadataBlockWrite x.block buf
      else xattrNewBlock ino inode buf

/-! ## Requests -/

structure XattrRequest where
  /-- The command in the lower half, flags in the upper half. -/
  command : Nat
  handle : Nat
  shmid : Int
  nameLen : Nat
  valueLen : Nat
  /-- The size of the segment, if the kernel knows it. -/
  shmSize : Option Nat
  /-- The bytes of the segment, if it can be attached. -/
  shm : Option (List Byte)

abbrev xattrGet : Nat := 1

abbrev xattrSet : Nat := 2

abbrev xattrList : Nat := 3

abbrev xattrRemove : Nat := 4

abbrev xattrCreate : Nat := 1

abbrev xattrReplace : Nat := 2

namespace XattrRequest

variable (r : XattrRequest)

def cmd : Nat := r.command % 2 ^ 32

def flags : Nat := r.command / 2 ^ 32

def nameBytes (data : List Byte) : List Byte := data.take r.nameLen

def valueBytes (data : List Byte) : List Byte := (data.drop r.nameLen).take r.valueLen

def malformed : Bool :=
  r.shmid < 0 || r.nameLen > xattrNameMax || r.valueLen > xattrValueMax ||
    !(r.cmd == xattrGet || r.cmd == xattrSet || r.cmd == xattrList || r.cmd == xattrRemove) ||
    (r.cmd == xattrList && r.nameLen != 0) || (r.cmd != xattrList && r.nameLen == 0) ||
    (r.cmd == xattrRemove && r.valueLen != 0)

def badFlags : Bool :=
  (r.cmd != xattrSet && r.flags != 0) || r.flags > 3 ||
    (hasFlag r.flags xattrCreate && hasFlag r.flags xattrReplace)

end XattrRequest

def xattrUserPrefix : List Byte := [0x75, 0x73, 0x65, 0x72, 0x2E]

def xattrUserName (name : List Byte) : Option (List Byte) :=
  if name.length ≤ 5 ∨ name.take 5 ≠ xattrUserPrefix then none else some (name.drop 5)

def withXattr (entries : List XattrEntry) (name value : List Byte) : List XattrEntry :=
  if entries.any (·.name = name) then
    entries.set (entries.findIdx (·.name = name)) ⟨name, value⟩
  else entries ++ [⟨name, value⟩]

def xattrCommit (ino : Nat) (inode : Inode) (x : XattrBlock) : M Unit := do
  orFail errNoSpace journalBegin
  orFail errNoSpace (journalFinish (xattrWriteEntries ino inode x))

def xattrGetValue (r : XattrRequest) (size : Nat) (x : XattrBlock) (name : List Byte) : M Reply :=
  match x.entries.find? (·.name = name) with
  | none => throw errNotFound
  | some e => do
    failIf (r.valueLen ≠ 0 ∧ r.valueLen < e.value.length) errNoSpace
    failIf (r.valueLen ≠ 0 ∧ size < r.nameLen + e.value.length) errInvalid
    pure (.value e.value.length (if r.valueLen ≠ 0 then e.value else []))

def xattrListNames (r : XattrRequest) (size : Nat) (x : XattrBlock) : M Reply := do
  let names := x.entries.flatMap fun e => xattrUserPrefix ++ e.name ++ [0]
  failIf (r.valueLen ≠ 0 ∧ r.valueLen < names.length) errNoSpace
  failIf (r.valueLen ≠ 0 ∧ size < names.length) errInvalid
  pure (.value names.length (if r.valueLen ≠ 0 then names else []))

def xattrSetValue (r : XattrRequest) (ino : Nat) (inode : Inode) (x : XattrBlock)
    (name value : List Byte) : M Reply := do
  let known := x.entries.any (·.name = name)
  failIf (known ∧ hasFlag r.flags xattrCreate) errExists
  failIf (!known ∧ hasFlag r.flags xattrReplace) errNotFound
  failIf (!known ∧ x.entries.length ≥ xattrMaxEntries) errNoSpace
  xattrCommit ino inode { x with entries := withXattr x.entries name value }
  pure (.value 0 [])

def xattrRemoveName (ino : Nat) (inode : Inode) (x : XattrBlock) (name : List Byte) : M Reply := do
  failIf (!x.entries.any (·.name = name)) errNotFound
  xattrCommit ino inode { x with entries := x.entries.eraseP (·.name = name) }
  pure (.value 0 [])

def xattrShm (r : XattrRequest) : M (Nat × List Byte) :=
  match r.shmSize, r.shm with
  | some size, data => do
    failIf (size < if r.cmd = xattrList then r.valueLen else r.nameLen + r.valueLen) errInvalid
    match data with
    | some data => pure (size, data)
    | none => throw errNotFound
  | none, _ => throw errNotFound

def xattrTarget (r : XattrRequest) (data : List Byte) : M (List Byte) :=
  if r.cmd = xattrList then pure []
  else
    match xattrUserName (r.nameBytes data) with
    | none => throw errNotSupported
    | some name => pure name

def xattrLoad (ino : Nat) : M (Inode × XattrBlock) :=
  tryCatch (do
    let inode ← inodeRead ino
    let x ← xattrReadEntries inode
    pure (inode, x)) fun e => throw (if e = -2 then errNotSupported else errInvalid)

def handleXattr (r : XattrRequest) : M Reply := do
  let h ← openHandle errInvalid r.handle
  failIf r.malformed errInvalid
  failIf r.badFlags errInvalid
  let (size, data) ← xattrShm r
  let name ← xattrTarget r data
  let ino := ((← get).handles h).ino
  let (inode, x) ← xattrLoad ino
  if r.cmd = xattrGet then xattrGetValue r size x name
  else if r.cmd = xattrList then xattrListNames r size x
  else if r.cmd = xattrSet then xattrSetValue r ino inode x name (r.valueBytes data)
  else xattrRemoveName ino inode x name

end Robu.Ext2
