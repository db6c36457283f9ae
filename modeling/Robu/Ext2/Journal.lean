import Robu.Ext2.State

/-!
# The metadata journal

The journal is a file of 2048 sectors: a header, two sectors of descriptors and one
payload sector for each of at most 64 records.  A transaction collects the metadata
sectors written since `journalBegin`; `journalCommit` writes descriptors and payloads,
a *prepared* header, a *committed* header, then the sectors themselves, and clears the
header.  `journalReplay`, run at mount, decides by the header what to do with what it
finds.
-/

namespace Robu.Ext2

open Lib Fallible

/-! ## Formats -/

def journalMagic : Bytes 8 := 0x3130304C4E4A4252

abbrev journalVersion : Nat := 1

abbrev statePrepared : Nat := 1

abbrev stateCommitted : Nat := 2

abbrev headerSector : Nat := 0

abbrev descriptorSector : Nat := 1

abbrev payloadSector : Nat := 3

abbrev headerChecksumOff : Nat := 24

abbrev descriptorChecksumOff : Nat := 28

variable {n : Nat}

def journalChecksum (data : Bytes n) (len : Nat) : Nat :=
  (List.range len).foldl (fun value i => (value ^^^ (byteGet data i).toNat) * 16777619 % 2 ^ 32)
    2166136261

def journalMakeHeader (sequence state count : Nat) : Sector :=
  let header := Bytes.put (0 : Sector) 0 journalMagic
  let header := u32Set header 8 journalVersion
  let header := u32Set header 12 state
  let header := u32Set header 16 count
  u32Set header 20 sequence

def journalHeaderValid (header : Sector) : Bool :=
  header.slice 0 8 == journalMagic && u32Get header 8 == journalVersion

/-- One record's descriptor, the `i`-th of sixteen bytes: its sector and the checksum of
its data. -/
def putDescriptor (descriptors : Bytes 1024) (i : Nat) (r : JournalRecord) : Bytes 1024 :=
  let descriptors := descriptors.put (k := 8) (16 * i) (BitVec.ofNat 64 r.sector)
  u32Set descriptors (16 * i + 8) (journalChecksum r.data 512)

def makeDescriptors (records : List JournalRecord) : Bytes 1024 :=
  records.zipIdx.foldl (fun d ri => putDescriptor d ri.2 ri.1) 0

/-- The header written for `records`' count, with both checksums filled in. -/
def sealHeader (sequence state count : Nat) (descriptors : Bytes 1024) : Sector :=
  let header := journalMakeHeader sequence state count
  let header := u32Set header descriptorChecksumOff (journalChecksum descriptors 1024)
  let header := u32Set header headerChecksumOff 0
  u32Set header headerChecksumOff (journalChecksum header 512)

/-! ## The journal file -/

def journalStorageSector (s : Server) (sector : Nat) : Bool :=
  s.journal.blocks.contains (sector / s.geo.sectorsPerBlock % 2 ^ 32)

/-- `journal_map_sector`: where the journal file's `sector`-th sector is on the volume. -/
def journalMapSector (s : Server) (sector : Nat) : Option Nat :=
  match s.journal.blocks.getD (sector / s.geo.sectorsPerBlock) 0 with
  | 0 => none
  | block => some (block * s.geo.sectorsPerBlock + sector % s.geo.sectorsPerBlock)

def journalDiskRead (sector : Nat) : M Sector := do
  match journalMapSector (← get) sector with
  | none => throw (-1)
  | some mapped => readSector mapped

def journalDiskWrite (sector : Nat) (data : Sector) : M Unit := do
  match journalMapSector (← get) sector with
  | none => throw (-1)
  | some mapped => writeSector mapped data

def journalClear : M Unit := do
  journalDiskWrite headerSector 0
  blkdevFlush

def readDescriptors : M (Bytes 1024) := do
  let a ← journalDiskRead descriptorSector
  let b ← journalDiskRead (descriptorSector + 1)
  pure (Bytes.join [a, b])

def journalWriteDescriptors : M Unit := do
  let descriptors := makeDescriptors (← get).journal.records
  journalDiskWrite descriptorSector (descriptors.slice 0 512)
  journalDiskWrite (descriptorSector + 1) (descriptors.slice 512 512)

/-- Write the payloads of `records`, the first of them at payload `i`. -/
def writePayloads (i : Nat) : List JournalRecord → M Unit
  | [] => pure ()
  | r :: rs => do
    journalDiskWrite (payloadSector + i) r.data
    writePayloads (i + 1) rs

def journalWritePayloads : M Unit := do
  writePayloads 0 (← get).journal.records

/-- `journal_write_header`: the descriptors are read back from the disk to be summed. -/
def journalWriteHeader (state : Nat) : M Unit := do
  let j := (← get).journal
  let descriptors ← readDescriptors
  journalDiskWrite headerSector (sealHeader j.sequence state j.records.length descriptors)

/-! ## Replay -/

def descriptorTarget (descriptors : Bytes 1024) (i : Nat) : Nat :=
  (descriptors.slice (16 * i) 8).toNat

/-- Write records `i` to `i + count` home, checking each one. -/
def replayRecords (descriptors : Bytes 1024) (i : Nat) : Nat → M Unit
  | 0 => pure ()
  | count + 1 => do
    let s ← get
    let sector := descriptorTarget descriptors i
    failIf (sector ≥ s.geo.blocksCount * s.geo.sectorsPerBlock ∨ journalStorageSector s sector) (-1)
    let payload ← journalDiskRead (payloadSector + i)
    failIf (u32Get descriptors (16 * i + 8) ≠ journalChecksum payload 512) (-1)
    writeSector sector payload
    replayRecords descriptors (i + 1) count

def replayHeader (header : Sector) : M Unit := do
  failIf (!journalHeaderValid header) (-1)
  failIf (u32Get header headerChecksumOff ≠ journalChecksum (u32Set header headerChecksumOff 0)
    512) (-1)
  let state := u32Get header 12
  let count := u32Get header 16
  failIf ((state ≠ statePrepared ∧ state ≠ stateCommitted) ∨ count > maxRecords) (-1)
  let descriptors ← readDescriptors
  failIf (u32Get header descriptorChecksumOff ≠ journalChecksum descriptors 1024) (-1)
  if state = statePrepared then
    journalClear
  else
    replayRecords descriptors 0 count
    blkdevFlush
    journalClear

def journalReplay : M Unit := do
  let header ← journalDiskRead headerSector
  if header = 0 then pure () else replayHeader header

/-! ## Transactions -/

def journalBegin : M Unit := do
  let s ← get
  failIf (!s.journal.ready || s.journal.active || s.journal.faulted) (-1)
  modifyJournal fun j => { j with sbSnapshot := s.sb, records := [], active := true }

def Server.abort (s : Server) : Server :=
  if s.journal.active then
    { s with
      sb := s.journal.sbSnapshot
      journal := { s.journal with records := [], active := false } }
  else s

def journalAbort : M Unit :=
  modify Server.abort

def journalFault : M Unit :=
  modifyJournal fun j => { j with active := false, faulted := true }

def writeHome : List JournalRecord → M Unit
  | [] => pure ()
  | r :: rs => do
    writeSector r.sector r.data
    writeHome rs

def journalPrepare : M Unit := do
  journalWriteDescriptors
  journalWritePayloads
  journalWriteHeader statePrepared
  blkdevFlush

/-- The second half of a commit: the committed header, the sectors themselves, and the
header cleared. -/
def journalApply (records : List JournalRecord) : M Unit := do
  journalWriteHeader stateCommitted
  blkdevFlush
  writeHome records
  blkdevFlush
  journalClear

/-- `journal_commit`.  An error in the first half aborts the transaction; one in the
second half gives the journal up. -/
def journalCommit : M Unit := do
  let j := (← get).journal
  failIf (!j.active) (-1)
  if j.records = [] then
    modifyJournal fun j => { j with active := false }
  else
    modifyJournal fun j => { j with sequence := j.sequence + 1 }
    tryCatch journalPrepare fun _ => do journalAbort; throw (-1)
    tryCatch (journalApply j.records) fun _ => do journalFault; throw (-1)
    modifyJournal fun j => { j with records := [], active := false }

/-- `journal_finish`, of what the transaction did. -/
def journalFinish (m : M Unit) : M Unit := do
  tryCatch m fun _ => do journalAbort; throw (-1)
  journalCommit

/-! ## Metadata sectors -/

def overlay (records : List JournalRecord) (sector : Nat) (data : Sector) : Sector :=
  match records.find? (·.sector = sector) with
  | some r => r.data
  | none => data

def journalMetadataRead (sector count : Nat) : M (List Sector) := do
  let xs ← blkdevRead sector count
  let j := (← get).journal
  if j.active then
    pure (xs.mapIdx fun i x => overlay j.records (sector + i) x)
  else
    pure xs

/-- Record that the transaction writes `data` to a sector; the last data counts. -/
def putRecord (records : List JournalRecord) (sector : Nat) (data : Sector) : List JournalRecord :=
  if records.any (·.sector = sector) then
    records.map fun r => if r.sector = sector then ⟨sector, data⟩ else r
  else
    records ++ [⟨sector, data⟩]

def recordSector (sector : Nat) (data : Sector) : M Unit := do
  let s ← get
  failIf (journalStorageSector s sector) (-1)
  failIf (!s.journal.records.any (·.sector = sector) ∧ s.journal.records.length = maxRecords) (-1)
  modifyJournal fun j => { j with records := putRecord j.records sector data }

def recordSectors (sector : Nat) : List Sector → M Unit
  | [] => pure ()
  | x :: xs => do
    recordSector sector x
    recordSectors (sector + 1) xs

def journalMetadataWrite (sector : Nat) (data : List Sector) : M Unit := do
  if (← get).journal.active then
    recordSectors sector data
  else
    blkdevWrite sector data

def journalFileName : List Byte :=
  [0x2E, 0x72, 0x6F, 0x62, 0x75, 0x2D, 0x6A, 0x6F, 0x75, 0x72, 0x6E, 0x61, 0x6C]

def journalIsReservedName (name : List Byte) : Bool :=
  name == journalFileName

end Robu.Ext2
