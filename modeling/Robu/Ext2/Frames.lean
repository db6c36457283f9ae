import Robu.Ext2.Atomic
import Robu.Ext2.Server

/-!
# What the server's functions leave alone

A frame is a relation between the state before and after a piece of the program.  Those
that allow a device request to pass are kept by everything that only reads; those that
also allow a running transaction to grow are kept by everything that changes metadata.
Each function is gone through once, for all such relations.
-/

namespace Robu.Ext2

open Lib Fallible

variable {α : Type} {m : M α}
variable (rs : List JournalRecord) (p : Pool) (group x : Nat) (vs : List Sector)
  (dirIno parentIno : Nat)
variable (name : List Byte) (dirs bs : List Nat) (rel : List Byte) (followFinal : Bool) (ino : Nat)
  (delta : Int)
variable (inode : Inode) (block : Nat) (buf : Block)

class TickFrame (R : Server → Server → Prop) : Prop extends Std.Refl R, IsTrans Server R where
  tick (s : Server) : R s { s with dev := s.dev.tick }

/-- A frame that also lets metadata change: sectors are recorded while a transaction runs,
and written otherwise; the superblock in memory and the cursors change. -/
class EditFrame (R : Server → Server → Prop) : Prop extends TickFrame R where
  sb (s : Server) (sb : Bytes 1024) : R s { s with sb := sb }
  cursorBit (s : Server) (p : Pool) (bit : Nat) : R s (s.updateCursor p ({ · with bit := bit }))
  cursorGroup (s : Server) (p : Pool) :
    R s (s.updateCursor p fun c => ⟨(c.group + 1) % s.geo.numGroups, 0⟩)
  record (s : Server) (x : Nat) (v : Sector) : s.journal.active = true →
    journalStorageSector s x = false →
    R s { s with journal := { s.journal with records := putRecord s.journal.records x v } }
  store (s : Server) (x : Nat) (v : Sector) : s.journal.active = false →
    R s { s with dev := s.dev.store x v }

/-- **Reading.**  A relation between states that tell a reader of metadata the same. -/
class ReadFrame (P : Server → Server → Prop) : Prop where
  geo {s s' : Server} : P s s' → s.geo = s'.geo
  journal {s s' : Server} : P s s' → s.journal = s'.journal
  read (x : Nat) : Parallel P (readSector x) (readSector x)

abbrev Reads {α : Type} (P : Server → Server → Prop) (m : M α) : Prop := Parallel P m m

/-! ## Reading metadata -/

section ReadingMetadata
variable {P : Server → Server → Prop} [ReadFrame P]

/-- Of its variables, a reader looks at the geometry and the journal. -/
theorem reads_get {k : Server → M α}
    (hk : ∀ s s' : Server, s.geo = s'.geo → s.journal = s'.journal → k s = k s')
    (h : ∀ s, Reads P (k s)) : Reads P (get >>= k) :=
  .get_bind fun s s' hs => hk s s' (ReadFrame.geo hs) (ReadFrame.journal hs) ▸ h s

theorem reads_blkdevRead (x count : Nat) : Reads P (blkdevRead x count) := by
  induction count generalizing x with
  | zero => exact .pure _
  | succ count ih => exact .bind (ReadFrame.read x) fun _ => .bind (ih _) fun _ => .pure _

theorem reads_journalMetadataRead (x count : Nat) : Reads P (journalMetadataRead x count) :=
  .bind (reads_blkdevRead x count) fun _ => reads_get (fun _ _ _ hj => by simp only [hj]) fun _ =>
    .ite (.pure _) (.pure _)

theorem reads_gdSector : Reads P (gdSector group) :=
  reads_get (fun _ _ hg _ => by simp only [hg]) fun _ =>
    .bind (reads_journalMetadataRead _ _) fun _ => .pure _

theorem reads_gdRead : Reads P (gdRead group) :=
  reads_get (fun _ _ hg _ => by simp only [hg]) fun _ =>
    .bind (reads_gdSector group) fun _ => .pure _

theorem reads_blockRead : Reads P (blockRead block) :=
  reads_get (fun _ _ hg _ => by simp only [hg]) fun _ =>
    .bind (reads_blkdevRead _ _) fun _ => .pure _

theorem reads_metadataBlockRead : Reads P (metadataBlockRead block) :=
  reads_get (fun _ _ hg _ => by simp only [hg]) fun _ =>
    .bind (reads_journalMetadataRead _ _) fun _ => .pure _

theorem reads_inodeLocate : Reads P (inodeLocate ino) :=
  reads_get (fun _ _ hg _ => by simp only [hg]) fun _ => .bind (reads_gdRead _) fun _ => .pure _

theorem reads_inodeBuffer (byte : Nat) : Reads P (inodeBuffer byte) :=
  .bind (reads_journalMetadataRead _ _) fun _ => .pure _

theorem reads_inodeRead : Reads P (inodeRead ino) :=
  .bind (reads_inodeLocate ino) fun _ => .bind (reads_inodeBuffer _) fun _ => .pure _

theorem reads_walkDouble (dind : Block) (entries count need di : Nat) :
    Reads P (walkDouble dind entries count need di) := by
  induction count generalizing need di with
  | zero => exact .pure _
  | succ count ih =>
    exact .ite (.pure _) <| .bind (reads_metadataBlockRead _) fun _ =>
      .ite (.pure _) <| .bind (ih _ _) fun _ => .pure _

theorem reads_walkSingle (entries need : Nat) : Reads P (walkSingle inode entries need) :=
  .ite (.pure _) <| .bind (reads_metadataBlockRead _) fun _ => .pure _

theorem reads_walkInodeBlocks (need : Nat) : Reads P (walkInodeBlocks inode need) :=
  reads_get (fun _ _ hg _ => by simp only [hg]) fun _ =>
    .ite (.pure _) <| .bind (reads_walkSingle _ _ _) fun _ =>
    .ite (.pure _) <| .ite (.pure _) <| .bind (reads_metadataBlockRead _) fun _ =>
      .bind (reads_walkDouble _ _ _ _ _) fun _ => .pure _

theorem reads_directoryBlocks : Reads P (directoryBlocks inode) :=
  reads_get (fun _ _ hg _ => by simp only [hg]) fun _ => reads_walkInodeBlocks _ _

theorem reads_findInBlocks : Reads P (findInBlocks name bs) := by
  induction bs with
  | nil => exact .throw _
  | cons b bs ih =>
    refine reads_get (fun _ _ hg _ => by simp only [hg]) fun _ =>
      .bind (reads_metadataBlockRead b) fun buf => ?_
    split
    · exact .bind (reads_inodeRead _) fun _ => .pure _
    · exact ih

theorem reads_findInDir : Reads P (findInDir dirIno name) :=
  .bind (reads_inodeRead _) fun _ => .bind (reads_directoryBlocks _) fun _ => reads_findInBlocks _ _

omit [ReadFrame P] in
theorem reads_copyPath (path : List Byte) : Reads P (copyPath path) :=
  .check fun _ => .pure _

theorem reads_replaceSymlink (before rest : List Byte) (ino : Nat) :
    Reads P (replaceSymlink before rest ino) :=
  reads_get (fun _ _ hg _ => by simp only [hg]) fun _ => .bind (reads_inodeRead _) fun _ =>
    .check fun _ =>
    reads_copyPath _

theorem reads_resolveSegments (fuel : Nat) (before todo : List Byte)
    (cur : Nat) : Reads P (resolveSegments followFinal fuel before todo cur) := by
  induction fuel generalizing before todo cur with
  | zero => exact .pure _
  | succ fuel ih =>
    refine .ite (.pure _) <| .bind (.attempt (reads_findInDir _ _)) fun next => ?_
    cases next with
    | none => exact .check fun _ => .pure _
    | some next =>
      exact .bind (reads_inodeRead _) fun _ =>
        .ite (.bind (reads_replaceSymlink _ _ _) fun _ => .pure _) <|
          .ite (.pure _) <| .check fun _ => ih _ _ _

theorem reads_resolveHops (hops : Nat) (work : List Byte) :
    Reads P (resolveHops followFinal hops work) := by
  induction hops generalizing work with
  | zero => exact .throw _
  | succ hops ih =>
    refine .bind (reads_resolveSegments _ _ _ _ _) fun r => ?_
    cases r with
    | «at» parent leaf => exact .pure _
    | replaced work => exact ih work

theorem reads_resolvePath : Reads P (resolvePath rel followFinal) :=
  .bind (reads_copyPath _) fun _ => reads_resolveHops _ _ _

theorem reads_bulkSearchDir (path : List Byte) : Reads P (bulkSearchDir path) := by
  refine .bind (.attempt (.bind (reads_resolvePath _ _) fun _ => reads_findInDir _ _)) fun d => ?_
  split <;> exact .pure _

theorem reads_bulkResolveSearchDirs (paths : List (List Byte)) :
    Reads P (bulkResolveSearchDirs paths) := by
  induction paths with
  | nil => exact .pure _
  | cons path paths ih => exact .bind (reads_bulkSearchDir _) fun _ => .bind ih fun _ => .pure _

theorem reads_bulkLookup : Reads P (bulkLookup name dirs) := by
  induction dirs with
  | nil => exact .throw _
  | cons dir dirs ih =>
    refine .bind (.attempt (.check fun _ => .bind (reads_findInDir _ _) fun _ =>
      .check fun _ => .pure _)) fun found => ?_
    cases found with
    | none => exact ih
    | some found =>
      exact .bind (reads_inodeRead _) fun _ => .ite (.check fun _ => .pure _) (.pure _)

theorem reads_bulkResolveName (hops : Nat) (name : List Byte) :
    Reads P (bulkResolveName dirs hops name) := by
  induction hops generalizing name with
  | zero => exact .throw _
  | succ hops ih =>
    refine .bind (reads_bulkLookup _ _) fun r => ?_
    cases r with
    | inl target => exact ih target
    | inr found => exact .pure _

end ReadingMetadata

/-! ## Reading -/

section Reading
variable {R : Server → Server → Prop} [TickFrame R]

theorem keeps_readSector : Keeps R (readSector x) := by
  intro s
  rw [readSector]
  split <;> exact TickFrame.tick s

theorem keeps_blkdevFlush : Keeps R blkdevFlush := by
  intro s
  rw [blkdevFlush]
  split <;> exact TickFrame.tick s

def Since (R : Server → Server → Prop) (s₀ s s' : Server) : Prop := s = s' ∧ R s₀ s

instance (s₀ : Server) : ReadFrame (Since R s₀) where
  geo h := congrArg Server.geo h.1
  journal h := congrArg Server.journal h.1
  read x := by
    rintro s _ ⟨rfl, h⟩
    exact ⟨rfl, rfl, trans_of R h (keeps_readSector x s)⟩

theorem keeps_of_reads (h : ∀ s₀, Reads (Since R s₀) m) : Keeps R m :=
  fun s => (h s s s ⟨rfl, refl_of R s⟩).2.2

theorem keeps_blkdevRead (x count : Nat) : Keeps R (blkdevRead x count) :=
  keeps_of_reads fun _ => reads_blkdevRead x count

theorem keeps_journalMetadataRead (x count : Nat) : Keeps R (journalMetadataRead x count) :=
  keeps_of_reads fun _ => reads_journalMetadataRead x count

theorem keeps_gdSector : Keeps R (gdSector group) :=
  keeps_of_reads fun _ => reads_gdSector group

theorem keeps_gdRead : Keeps R (gdRead group) :=
  keeps_of_reads fun _ => reads_gdRead group

theorem keeps_blockRead : Keeps R (blockRead block) :=
  keeps_of_reads fun _ => reads_blockRead block

theorem keeps_metadataBlockRead : Keeps R (metadataBlockRead block) :=
  keeps_of_reads fun _ => reads_metadataBlockRead block

theorem keeps_inodeLocate : Keeps R (inodeLocate ino) :=
  keeps_of_reads fun _ => reads_inodeLocate ino

theorem keeps_inodeBuffer (byte : Nat) : Keeps R (inodeBuffer byte) :=
  keeps_of_reads fun _ => reads_inodeBuffer byte

theorem keeps_inodeRead : Keeps R (inodeRead ino) :=
  keeps_of_reads fun _ => reads_inodeRead ino

theorem keeps_walkInodeBlocks (need : Nat) : Keeps R (walkInodeBlocks inode need) :=
  keeps_of_reads fun _ => reads_walkInodeBlocks inode need

theorem keeps_directoryBlocks : Keeps R (directoryBlocks inode) :=
  keeps_of_reads fun _ => reads_directoryBlocks inode

theorem keeps_findInDir : Keeps R (findInDir dirIno name) :=
  keeps_of_reads fun _ => reads_findInDir dirIno name

theorem keeps_resolvePath : Keeps R (resolvePath rel followFinal) :=
  keeps_of_reads fun _ => reads_resolvePath rel followFinal

theorem keeps_bulkResolveSearchDirs (paths : List (List Byte)) :
    Keeps R (bulkResolveSearchDirs paths) :=
  keeps_of_reads fun _ => reads_bulkResolveSearchDirs paths

theorem keeps_bulkResolveName (hops : Nat) (name : List Byte) :
    Keeps R (bulkResolveName dirs hops name) :=
  keeps_of_reads fun _ => reads_bulkResolveName dirs hops name

theorem keeps_resolveName : Keeps R (resolveName rel followFinal) :=
  .tryCatch (keeps_resolvePath _ _) fun _ => .throw _

theorem keeps_directoryRead : Keeps R (directoryRead ino) :=
  .bind (keeps_inodeRead _) fun _ => .check fun _ => .pure _

theorem keeps_blocksEmpty : Keeps R (blocksEmpty bs) := by
  induction bs with
  | nil => exact .pure _
  | cons b bs ih =>
    exact .bind .get fun _ => .bind (keeps_metadataBlockRead b) fun _ =>
      .ite (.pure _) <| .check fun _ => ih

theorem keeps_dirIsEmpty : Keeps R (dirIsEmpty ino) :=
  .bind (keeps_directoryRead _) fun _ => .bind (keeps_directoryBlocks _) fun _ =>
    keeps_blocksEmpty _

theorem keeps_dirParentIno : Keeps R (dirParentIno ino) :=
  .bind (keeps_findInDir _ _) fun _ => .pure _

theorem keeps_ancestorWalk (ancestorIno hops current : Nat) :
    Keeps R (ancestorWalk ancestorIno hops current) := by
  induction hops generalizing current with
  | zero => exact .throw _
  | succ hops ih =>
    exact .ite (.pure _) <| .bind (keeps_dirParentIno _) fun _ => .ite (.pure _) (ih _)

theorem keeps_openHandle (status : Int) (h : Nat) : Keeps R (openHandle status h) := by
  refine .bind .get fun s => ?_
  split
  · exact .check fun _ => .pure _
  · exact .throw _

theorem keeps_copyWirePath (size : Nat) (chars : List Byte) : Keeps R (copyWirePath size chars) :=
  .check fun _ => .pure _

theorem keeps_readBytes (hd : Handle) (n fuel got : Nat) : Keeps R (readBytes hd n fuel got) := by
  induction fuel generalizing got with
  | zero => exact .pure _
  | succ fuel ih =>
    refine .bind .get fun _ => .ite ?_ (.pure _)
    refine .bind (.attempt (keeps_blockRead _)) fun buf => ?_
    cases buf with
    | none => exact .pure _
    | some buf => exact .bind (ih _) fun _ => .pure _

theorem keeps_readdirBlocks (want : Nat) : Keeps R (readdirBlocks dirIno bs want) := by
  induction bs generalizing want with
  | nil => exact .throw _
  | cons b bs ih =>
    refine .bind .get fun _ => .bind (.orFail (keeps_blockRead b)) fun buf => ?_
    dsimp only
    split
    · exact .pure _
    · exact ih _

theorem keeps_mutationTarget : Keeps R (mutationTarget rel) :=
  .bind (keeps_resolveName _ _) fun _ => .check fun _ => .check fun _ =>
    .bind (.orFail (keeps_findInDir _ _)) fun _ => .pure _

theorem keeps_renameSide : Keeps R (renameSide rel) :=
  .bind (keeps_resolveName _ _) fun _ => .check fun _ => .check fun _ => .pure _

theorem keeps_unlinkTarget : Keeps R (unlinkTarget name) :=
  .bind .get fun _ => .bind (keeps_copyWirePath _ _) fun _ =>
    .bind (keeps_mutationTarget _) fun _ =>
    .check fun _ => .pure _

theorem keeps_rmdirTarget : Keeps R (rmdirTarget name) :=
  .bind .get fun _ => .bind (keeps_copyWirePath _ _) fun _ =>
    .bind (keeps_mutationTarget _) fun _ =>
    .check fun _ => .bind (.orFail (keeps_dirIsEmpty _)) fun _ => .check fun _ => .pure _

theorem keeps_renameSides (oldName newName : List Byte) : Keeps R (renameSides oldName newName) :=
  .bind .get fun _ => .bind (keeps_copyWirePath _ _) fun _ =>
    .bind (keeps_copyWirePath _ _) fun _ =>
    .bind (keeps_renameSide _) fun _ => .bind (.orFail (keeps_findInDir _ _)) fun _ =>
      .bind (.orFail (keeps_inodeRead _)) fun _ => .bind (keeps_renameSide _) fun _ => .pure _

theorem keeps_checkReplace (found target : Found) : Keeps R (checkReplace found target) :=
  .check fun _ => .check fun _ =>
    .onlyIf (.bind (.orFail (keeps_dirIsEmpty _)) fun _ => .failIf _ _)

theorem keeps_checkAncestry (found : Found) (dstParent : Nat) :
    Keeps R (checkAncestry found dstParent) :=
  .onlyIf <| .bind (.orFail (.bind .get fun _ => keeps_ancestorWalk _ _ _)) fun _ => .failIf _ _

theorem keeps_xattrReadEntries : Keeps R (xattrReadEntries inode) := by
  refine .bind .get fun _ => .ite (.pure _) <| .bind (keeps_metadataBlockRead _) fun _ =>
    .check fun _ => .check fun _ => ?_
  split
  · exact .throw _
  · exact .pure _

theorem keeps_xattrLoad : Keeps R (xattrLoad ino) :=
  .tryCatch (.bind (keeps_inodeRead _) fun _ => .bind (keeps_xattrReadEntries _) fun _ => .pure _)
    fun _ => .throw _

theorem keeps_xattrShm (r : XattrRequest) : Keeps R (xattrShm r) := by
  unfold xattrShm
  split
  · refine .check fun _ => ?_
    split
    · exact .pure _
    · exact .throw _
  · exact .throw _

theorem keeps_xattrTarget (r : XattrRequest) (data : List Byte) : Keeps R (xattrTarget r data) := by
  refine .ite (.pure _) ?_
  split
  · exact .throw _
  · exact .pure _

theorem keeps_bulkRead (fuel : Nat) (bs : List Nat) (remaining : Nat) :
    Keeps R (bulkRead fuel bs remaining) := by
  induction fuel generalizing bs remaining with
  | zero => exact .pure _
  | succ fuel ih =>
    cases bs with
    | nil => exact .check fun _ => .pure _
    | cons b bs =>
      exact .bind .get fun _ => .ite (.pure _) <| .ite (.bind (ih _ _) fun _ => .pure _) <|
        .ite (.bind (keeps_blockRead _) fun _ => .bind (ih _ _) fun _ => .pure _) <|
          .bind (keeps_blkdevRead _ _) fun _ => .bind (ih _ _) fun _ => .pure _

theorem keeps_rawReadSector : Keeps R (rawReadSector x) := by
  intro s
  rw [rawReadSector]
  split
  · split <;> exact TickFrame.tick s
  · exact keeps_readSector _ s

theorem keeps_copyLoop (len fuel copied : Nat) (msg : Bytes 48) :
    Keeps R (copyLoop 512 sectorRead len fuel copied msg) := by
  induction fuel generalizing copied msg with
  | zero => exact .pure _
  | succ fuel ih =>
    refine .ite (.bind (.attempt (.ite (keeps_rawReadSector _) (keeps_readSector _))) fun buf => ?_)
      (.pure _)
    cases buf with
    | none => exact .check fun _ => .pure _
    | some buf => exact ih _ _

theorem keeps_handleDeviceRead (src : Nat) (msg : Bytes 48) : Keeps R (handleDeviceRead src msg) :=
  .bind .get fun _ => .check fun _ =>
    .ite (.pure _) <| .bind (keeps_copyLoop _ _ _ _) fun _ => .pure _

theorem keeps_bulkLoad (shm : BulkShm) (found : Found) : Keeps R (bulkLoad shm found) :=
  .check fun _ => .check fun _ => .check fun _ => .bind .get fun _ =>
    .bind (.orFail (keeps_inodeRead _)) fun _ =>
      .bind (.orFail (keeps_walkInodeBlocks _ _)) fun _ =>
      .bind (.orFail (keeps_bulkRead _ _ _)) fun _ => .pure _

theorem keeps_handleReadBulk (hdirs : ∀ s dirs, R s { s with bulkSearchDirs := some dirs })
    (name : List Byte) (shm : BulkShm) : Keeps R (handleReadBulk name shm) := by
  refine .bind (.bind (.bind .get fun s => ?_) fun _ => .orFail (keeps_bulkResolveName _ _ _))
    fun _ => keeps_bulkLoad _ _
  split
  · exact .pure _
  · exact .bind (keeps_bulkResolveSearchDirs _) fun dirs =>
      .bind (.modify fun s => hdirs s dirs) fun _ => .pure _

end Reading

/-! ## Changing metadata -/

section Editing
variable {R : Server → Server → Prop} [EditFrame R]

theorem keeps_modifySb (f : Bytes 1024 → Bytes 1024) : Keeps R (modifySb f) :=
  fun s => EditFrame.sb s _

/-- Recording sectors keeps the transaction running, so it goes on to the next. -/
theorem recordSectors_frame {s : Server}
    (h : s.journal.active = true) : R s (recordSectors x vs s).2 := by
  induction vs generalizing x s with
  | nil => exact refl_of R s
  | cons v vs ih =>
    rw [show recordSectors x (v :: vs) = recordSector x v >>= fun _ =>
      recordSectors (x + 1) vs from rfl]
    by_cases hx : Refuses s x
    · rw [bind_of_error (recordSector_of_refuses hx v)]
      exact refl_of R s
    rw [bind_of_ok (recordSector_of_not_refuses hx v)]
    have hst : journalStorageSector s x = false :=
      Bool.eq_false_iff.mpr (mt Area.journalStorageSector_iff.mp (not_or.mp hx).1)
    exact trans_of R (EditFrame.record s x v h hst) (ih _ h)

theorem blkdevWrite_frame {s : Server}
    (h : s.journal.active = false) : R s (blkdevWrite x vs s).2 := by
  induction vs generalizing x s with
  | nil => exact refl_of R s
  | cons v vs ih =>
    rw [show blkdevWrite x (v :: vs) = writeSector x v >>= fun _ => blkdevWrite (x + 1) vs from rfl]
    have hs : R s { s with dev := (s.dev.store x v).tick } :=
      trans_of R (EditFrame.store s x v h) (TickFrame.tick _)
    cases hf : s.dev.faults s.dev.time with
    | none =>
      rw [bind_of_ok (show writeSector x v s = (.ok (), _) by rw [writeSector, hf])]
      exact trans_of R hs (ih _ h)
    | lost =>
      rw [bind_of_error (show writeSector x v s = (.error (-1), _) by rw [writeSector, hf])]
      exact TickFrame.tick s
    | kept =>
      rw [bind_of_error (show writeSector x v s = (.error (-1), _) by rw [writeSector, hf])]
      exact hs

theorem keeps_journalMetadataWrite : Keeps R (journalMetadataWrite x vs) := by
  intro s
  rw [show journalMetadataWrite x vs s =
    (if s.journal.active then recordSectors x vs else blkdevWrite x vs) s from rfl]
  split
  · rename_i h
    exact recordSectors_frame x vs h
  · rename_i h
    exact blkdevWrite_frame x vs (Bool.eq_false_iff.mpr h)

theorem keeps_sbWrite : Keeps R sbWrite :=
  .bind .get fun _ => keeps_journalMetadataWrite _ _

theorem keeps_gdWrite (gd : GroupDesc) : Keeps R (gdWrite group gd) :=
  .bind .get fun _ => .bind (keeps_gdSector group) fun _ => keeps_journalMetadataWrite _ _

theorem keeps_metadataBlockWrite : Keeps R (metadataBlockWrite block buf) :=
  .bind .get fun _ => keeps_journalMetadataWrite _ _

theorem keeps_inodeWrite (io : Inode) : Keeps R (inodeWrite ino io) :=
  .bind (keeps_inodeLocate ino) fun _ => .bind (keeps_inodeBuffer _) fun _ =>
    keeps_journalMetadataWrite _ _

theorem keeps_nextGroup : Keeps R (nextGroup p) :=
  fun s => EditFrame.cursorGroup s p

theorem keeps_takeBit (gd : GroupDesc) (bitmap : Block) (bit : Nat) :
    Keeps R (takeBit p group gd bitmap bit) :=
  .bind (keeps_metadataBlockWrite _ _) fun _ => .bind (keeps_gdWrite _ _) fun _ =>
    .bind (keeps_modifySb _) fun _ => .bind keeps_sbWrite fun _ =>
      .bind (fun s => EditFrame.cursorBit s p (bit + 1)) fun _ => .bind .get fun _ => .pure _

theorem keeps_allocFrom (attempts : Nat) : Keeps R (allocFrom p attempts) := by
  induction attempts with
  | zero => exact .throw _
  | succ attempts ih =>
    refine .bind .get fun s => .bind (keeps_gdRead _) fun gd =>
      .ite (.bind (keeps_nextGroup p) fun _ => ih) ?_
    refine .bind (keeps_metadataBlockRead _) fun bitmap => ?_
    split
    · exact keeps_takeBit _ _ _ _ _
    · exact .bind (keeps_nextGroup p) fun _ => ih

theorem keeps_allocBlock : Keeps R allocBlock := .bind .get fun _ => keeps_allocFrom _ _

theorem keeps_allocInode : Keeps R allocInode := .bind .get fun _ => keeps_allocFrom _ _

theorem keeps_releaseBit (checked : Bool) (group bit : Nat) :
    Keeps R (releaseBit p checked group bit) :=
  .bind (keeps_gdRead _) fun _ => .bind (keeps_metadataBlockRead _) fun _ =>
    .check fun _ => .bind (keeps_metadataBlockWrite _ _) fun _ =>
      .bind (keeps_gdWrite _ _) fun _ => .bind (keeps_modifySb _) fun _ => keeps_sbWrite

theorem keeps_freeBlock : Keeps R (freeBlock block) :=
  .bind .get fun _ => .check fun _ => keeps_releaseBit _ _ _ _

theorem keeps_freeInode : Keeps R (freeInode ino) :=
  .bind .get fun _ => .check fun _ => .check fun _ => keeps_releaseBit _ _ _ _

theorem keeps_indirectBlock : Keeps R (indirectBlock block) :=
  .ite (.bind keeps_allocBlock fun _ => .bind (keeps_metadataBlockWrite _ _) fun _ => .pure _) <|
    .bind (keeps_metadataBlockRead _) fun _ => .pure _

theorem keeps_appendDouble (di si newBlock : Nat) : Keeps R (appendDouble inode di si newBlock) :=
  .bind (keeps_indirectBlock _) fun _ => .bind (keeps_indirectBlock _) fun _ =>
    .bind (.onlyIf (keeps_metadataBlockWrite _ _)) fun _ =>
      .bind (keeps_metadataBlockWrite _ _) fun _ => .pure _

theorem keeps_appendBlockToInode (logical newBlock : Nat) :
    Keeps R (appendBlockToInode inode logical newBlock) :=
  .bind .get fun _ => .ite (.pure _) <| .ite
    (.bind (keeps_indirectBlock _) fun _ => .bind (keeps_metadataBlockWrite _ _) fun _ =>
      .pure _) <|
    .check fun _ => keeps_appendDouble _ _ _ _

theorem keeps_freeBlocks : Keeps R (freeBlocks bs) := by
  induction bs with
  | nil => exact .pure _
  | cons b bs ih => exact .bind (keeps_freeBlock b) fun _ => ih

theorem keeps_freeInodeBlocks : Keeps R (freeInodeBlocks inode) :=
  .bind .get fun _ => .bind (keeps_walkInodeBlocks _ _) fun _ => .bind (keeps_freeBlocks _) fun _ =>
    .bind (keeps_freeBlocks _) fun _ => .ite
      (.bind (keeps_metadataBlockRead _) fun _ => .bind (keeps_freeBlocks _) fun _ =>
        keeps_freeBlock _) (.pure _)

theorem keeps_insertInBlocks (ino fileType : Nat) (name : List Byte) (bs : List Nat) :
    Keeps R (insertInBlocks ino fileType name bs) := by
  induction bs with
  | nil => exact .pure _
  | cons b bs ih =>
    refine .bind .get fun _ => .bind (keeps_metadataBlockRead b) fun buf => ?_
    split
    · exact .bind (keeps_metadataBlockWrite _ _) fun _ => .pure _
    · exact ih

theorem keeps_releasing (hm : Keeps R m) : Keeps R (releasing block m) :=
  .tryCatch hm fun _ => .bind (.attempt (keeps_freeBlock block)) fun _ => .throw _

theorem keeps_insertNewBlock (blocks : List Nat) (ino fileType : Nat) (name : List Byte) :
    Keeps R (insertNewBlock parentIno inode blocks ino fileType name) :=
  .bind .get fun _ => .check fun _ => .bind keeps_allocBlock fun b =>
    .bind (keeps_metadataBlockWrite _ _) fun _ =>
      .bind (keeps_releasing b (keeps_appendBlockToInode _ _ _)) fun _ => keeps_inodeWrite _ _

theorem keeps_insertDirentInDir (parentIno ino : Nat) (name : List Byte) (fileType : Nat) :
    Keeps R (insertDirentInDir parentIno ino name fileType) :=
  .bind .get fun _ => .bind (keeps_inodeRead _) fun _ => .bind (keeps_directoryBlocks _) fun _ =>
    .bind (keeps_insertInBlocks _ _ _ _) fun _ => .ite (.pure _) (keeps_insertNewBlock _ _ _ _ _ _)

theorem keeps_removeFromBlocks : Keeps R (removeFromBlocks name bs) := by
  induction bs with
  | nil => exact .throw _
  | cons b bs ih =>
    refine .bind .get fun _ => .bind (keeps_metadataBlockRead b) fun buf => ?_
    dsimp only
    split
    · exact .bind (keeps_metadataBlockWrite _ _) fun _ => .pure _
    · exact .check fun _ => ih

theorem keeps_removeDirentFromDir : Keeps R (removeDirentFromDir parentIno name) :=
  .bind (keeps_inodeRead _) fun _ => .bind (keeps_directoryBlocks _) fun _ =>
    keeps_removeFromBlocks _ _

theorem keeps_setParentInBlocks : Keeps R (setParentInBlocks parentIno bs) := by
  induction bs with
  | nil => exact .throw _
  | cons b bs ih =>
    refine .bind .get fun _ => .bind (keeps_metadataBlockRead b) fun buf => ?_
    dsimp only
    split
    · exact keeps_metadataBlockWrite _ _
    · exact .check fun _ => ih

theorem keeps_setDirParentIno (ino parentIno : Nat) : Keeps R (setDirParentIno ino parentIno) :=
  .bind (keeps_directoryRead _) fun _ => .bind (keeps_directoryBlocks _) fun _ =>
    keeps_setParentInBlocks _ _

theorem keeps_shiftCount (count : Nat) (delta : Int) : Keeps R (shiftCount count delta) :=
  .check fun _ => .pure _

theorem keeps_updateParentLinks : Keeps R (updateParentLinks ino delta) :=
  .bind (keeps_inodeRead _) fun _ => .bind (keeps_shiftCount _ _) fun _ => .bind .get fun _ =>
    keeps_inodeWrite _ _

theorem keeps_updateGroupUsedDirs : Keeps R (updateGroupUsedDirs ino delta) :=
  .bind .get fun _ => .check fun _ => .bind (keeps_gdRead _) fun _ =>
    .bind (keeps_shiftCount _ _) fun _ => keeps_gdWrite _ _

theorem keeps_countNewDir (parentIno ino : Nat) : Keeps R (countNewDir parentIno ino) :=
  .bind .get fun _ =>
    .bind (.attempt (.bind (keeps_inodeRead _) fun _ => keeps_inodeWrite _ _)) fun _ =>
      .bind (.attempt (.bind (keeps_gdRead _) fun _ => keeps_gdWrite _ _)) fun _ => .pure _

theorem keeps_mkdirInternal : Keeps R (mkdirInternal parentIno name) := by
  refine .bind (.attempt (keeps_findInDir _ _)) fun found => ?_
  cases found with
  | some _ => exact .throw _
  | none =>
    exact .bind .get fun _ => .bind keeps_allocInode fun _ => .bind keeps_allocBlock fun b =>
      .bind (keeps_releasing b (keeps_metadataBlockWrite _ _)) fun _ =>
        .bind (keeps_releasing b (keeps_inodeWrite _ _)) fun _ =>
          .bind (keeps_insertDirentInDir _ _ _ _) fun _ => keeps_countNewDir _ _

theorem keeps_reclaimInodeIfUnused : Keeps R (reclaimInodeIfUnused ino) :=
  .bind .get fun _ => .ite (.pure _) <| .bind (keeps_inodeRead _) fun _ => .ite (.pure _) <|
    .bind (.onlyIf (keeps_freeInodeBlocks _)) fun _ => .bind (keeps_inodeWrite _ _) fun _ =>
      keeps_freeInode _

theorem keeps_detachEntry (isDir : Bool) : Keeps R (detachEntry parentIno name ino isDir) :=
  .bind (keeps_inodeRead _) fun _ => .check fun _ => .check fun _ =>
    .bind (keeps_removeDirentFromDir _ _) fun _ =>
    .check fun _ => .bind .get fun _ => .bind (keeps_inodeWrite _ _) fun _ =>
      .bind (.onlyIf (.bind (keeps_updateParentLinks _ _) fun _ => keeps_updateGroupUsedDirs _ _))
        fun _ =>
        keeps_reclaimInodeIfUnused _

theorem keeps_moveEntry (src dst : NameIn) (found : Found) (inode : Inode) :
    Keeps R (moveEntry src dst found inode) :=
  .bind (keeps_insertDirentInDir _ _ _ _) fun _ =>
    .bind (.onlyIf (keeps_setDirParentIno _ _)) fun _ =>
      .bind (keeps_removeDirentFromDir _ _) fun _ => .check fun _ =>
        .bind (.onlyIf (.bind (keeps_updateParentLinks _ _) fun _ => keeps_updateParentLinks _ _))
          fun _ => .bind (keeps_inodeRead _) fun _ => .bind .get fun _ => keeps_inodeWrite _ _

theorem keeps_xattrNewBlock : Keeps R (xattrNewBlock ino inode buf) :=
  .bind .get fun _ => .bind keeps_allocBlock fun b =>
    .bind (keeps_releasing b (keeps_metadataBlockWrite _ _)) fun _ =>
      .bind (keeps_releasing b (keeps_inodeWrite _ _)) fun _ => .bind (keeps_modifySb _) fun _ =>
        keeps_sbWrite

theorem keeps_xattrDropBlock : Keeps R (xattrDropBlock ino inode block) :=
  .bind .get fun _ => .check fun _ => .bind (keeps_inodeWrite _ _) fun _ => keeps_freeBlock _

theorem keeps_xattrWriteEntries (x : XattrBlock) : Keeps R (xattrWriteEntries ino inode x) := by
  refine .bind .get fun _ => .ite (.ite (.pure _) (keeps_xattrDropBlock _ _ _)) <|
    .check fun _ => ?_
  split
  · exact .throw _
  · exact .ite (keeps_metadataBlockWrite _ _) (keeps_xattrNewBlock _ _ _)

end Editing

/-! ## Transactions -/

class WriteFrame (R : Server → Server → Prop) : Prop extends TickFrame R where
  write (s : Server) (x : Nat) (v : Sector) : R s { s with dev := s.dev.store x v }

section Writing
variable {R : Server → Server → Prop} [WriteFrame R]

theorem keeps_writeSector (v : Sector) : Keeps R (writeSector x v) := by
  intro s
  have hs : R s { s with dev := (s.dev.store x v).tick } :=
    trans_of R (WriteFrame.write s x v) (TickFrame.tick _)
  rw [writeSector]
  split
  · exact hs
  · exact TickFrame.tick s
  · exact hs

theorem keeps_blkdevWrite : Keeps R (blkdevWrite x vs) := by
  induction vs generalizing x with
  | nil => exact .pure _
  | cons v vs ih => exact .bind (keeps_writeSector x v) fun _ => ih _

theorem keeps_writeBack : Keeps R (do blockWrite block buf; blkdevFlush) :=
  .bind (.bind .get fun _ => keeps_blkdevWrite _ _) fun _ => keeps_blkdevFlush

end Writing

/-- A frame that lets the sectors of the journal be written. -/
class JournalFrame (R : Server → Server → Prop) : Prop extends TickFrame R where
  journalDiskWrite (k : Nat) (v : Sector) : Keeps R (journalDiskWrite k v)

section Preparing
variable {R : Server → Server → Prop} [JournalFrame R]

theorem keeps_journalDiskRead (k : Nat) : Keeps R (journalDiskRead k) := by
  refine .bind .get fun s => ?_
  split
  · exact .throw _
  · exact keeps_readSector _

theorem keeps_journalDiskWrite (k : Nat) (v : Sector) : Keeps R (journalDiskWrite k v) :=
  JournalFrame.journalDiskWrite k v

theorem keeps_journalClear : Keeps R journalClear :=
  .bind (keeps_journalDiskWrite _ _) fun _ => keeps_blkdevFlush

theorem keeps_writePayloads (i : Nat) (rs : List JournalRecord) : Keeps R (writePayloads i rs) := by
  induction rs generalizing i with
  | nil => exact .pure _
  | cons r rs ih => exact .bind (keeps_journalDiskWrite _ _) fun _ => ih _

theorem keeps_journalWriteHeader (state : Nat) : Keeps R (journalWriteHeader state) :=
  .bind .get fun _ => .bind
    (.bind (keeps_journalDiskRead _) fun _ => .bind (keeps_journalDiskRead _) fun _ => .pure _)
    fun _ => keeps_journalDiskWrite _ _

/-- **Prepare.**  Until it is committed, a transaction writes the journal only. -/
theorem keeps_journalPrepare : Keeps R journalPrepare :=
  .bind (.bind .get fun _ => .bind (keeps_journalDiskWrite _ _) fun _ => keeps_journalDiskWrite _ _)
    fun _ => .bind (.bind .get fun _ => keeps_writePayloads _ _) fun _ =>
      .bind (keeps_journalWriteHeader _) fun _ => keeps_blkdevFlush

end Preparing

class CommitFrame (R : Server → Server → Prop) : Prop extends EditFrame R, WriteFrame R where
  journal (s : Server) (j : Journal) : R s { s with journal := j }

section Committing
variable {R : Server → Server → Prop} [CommitFrame R]

instance : JournalFrame R where
  journalDiskWrite k v := by
    refine .bind .get fun s => ?_
    split
    · exact .throw _
    · exact keeps_writeSector _ _

theorem keeps_writeHome : Keeps R (writeHome rs) := by
  induction rs with
  | nil => exact .pure _
  | cons r rs ih => exact .bind (keeps_writeSector _ _) fun _ => ih

theorem keeps_journalApply : Keeps R (journalApply rs) :=
  .bind (keeps_journalWriteHeader _) fun _ => .bind keeps_blkdevFlush fun _ =>
    .bind (keeps_writeHome _) fun _ => .bind keeps_blkdevFlush fun _ => keeps_journalClear

theorem keeps_modifyJournal (f : Journal → Journal) : Keeps R (modifyJournal f) :=
  fun s => CommitFrame.journal s _

theorem keeps_journalAbort : Keeps R journalAbort := by
  intro s
  change R s s.abort
  unfold Server.abort
  split
  · exact trans_of R (EditFrame.sb s s.journal.sbSnapshot) (CommitFrame.journal _ _)
  · exact refl_of R s

theorem keeps_journalCommit : Keeps R journalCommit :=
  .bind .get fun _ => .check fun _ => .ite (keeps_modifyJournal _) <|
    .bind (keeps_modifyJournal _) fun _ =>
      .bind (.tryCatch keeps_journalPrepare fun _ => .bind keeps_journalAbort fun _ => .throw _)
        fun _ => .bind (.tryCatch (keeps_journalApply _) fun _ =>
          .bind (keeps_modifyJournal _) fun _ => .throw _) fun _ => keeps_modifyJournal _

theorem keeps_journalBegin : Keeps R journalBegin :=
  .bind .get fun _ => .check fun _ => keeps_modifyJournal _

/-- Besides its transaction, a cache that is written back is marked as clean. -/
theorem keeps_flushWriteState_of {h : Fin maxHandles}
    (hclean : ∀ s, R s (s.updateHandle h fun hd => { hd with wcacheDirty := false })) :
    Keeps R (flushWriteState h) := by
  have hg (own : Bool) : Keeps R (do onlyIf own journalAbort; throw (-1) : M Unit) :=
    .bind (.onlyIf keeps_journalAbort) fun _ => .throw _
  exact .bind .get fun _ => .ite (.pure _) <| .bind (.onlyIf keeps_journalBegin) fun _ =>
    .bind (.tryCatch (keeps_writeBack _ _) fun _ => hg _) fun _ =>
      .bind (keeps_inodeRead _) fun _ =>
        .bind (.tryCatch (keeps_inodeWrite _ _) fun _ => hg _) fun _ =>
        .bind (.onlyIf keeps_journalCommit) fun _ => hclean

end Committing

/-! ## Handles -/

class HandleFrame (R : Server → Server → Prop) : Prop extends CommitFrame R where
  handles (s : Server) (hs : Fin maxHandles → Handle) : R s { s with handles := hs }

section Handles
variable {R : Server → Server → Prop} [HandleFrame R]

omit [HandleFrame R] in
theorem keeps_flushWhere [TickFrame R] (hflush : ∀ h, Keeps R (flushWriteState h))
    (want : Handle → Bool) (hs : List (Fin maxHandles)) : Keeps R (flushWhere want hs) := by
  induction hs with
  | nil => exact .pure _
  | cons h hs ih => exact .bind .get fun _ => .bind (.onlyIf (hflush h)) fun _ => ih

theorem keeps_detachExistingEntry (isDir : Bool) :
    Keeps R (detachExistingEntry parentIno name ino isDir) :=
  .bind (keeps_flushWhere (fun _ => keeps_flushWriteState_of fun _ => HandleFrame.handles _ _) _ _)
    fun _ =>
    keeps_detachEntry _ _ _ _

theorem keeps_renameEntry (src dst : NameIn) (found : Found) :
    Keeps R (renameEntry src dst found inode) := by
  refine .bind (.attempt (keeps_findInDir _ _)) fun target => ?_
  cases target with
  | none => exact .bind (.orFail (keeps_moveEntry _ _ _ _)) fun _ => .pure _
  | some target =>
    exact .ite (.pure _) <| .bind (keeps_checkReplace _ _) fun _ =>
      .bind (.orFail (keeps_detachExistingEntry _ _ _ _))
      fun _ => .bind (.orFail (keeps_moveEntry _ _ _ _)) fun _ => .pure _

end Handles

/-! ## Requests -/

/-- **Plain requests.**  They read, and then change a handle, or make one transaction that only
edits metadata. -/
inductive Plain : {α : Type} → M α → Prop
  | reads {α : Type} {m : M α} : (∀ {R : Server → Server → Prop} [TickFrame R], Keeps R m) → Plain m
  | bind {α β : Type} {m : M α} {k : α → M β} :
    (∀ {R : Server → Server → Prop} [TickFrame R], Keeps R m) →
      (∀ a, Plain (k a)) → Plain (m >>= k)
  | handle {β : Type} {h : Fin maxHandles} {f : Handle → Handle} {b : β} :
    Plain (do modifyHandle h f; pure b)
  | journaled {α β : Type} {m : M α} {f : α → β} :
    (∀ {R : Server → Server → Prop} [EditFrame R], Keeps R m) →
      Plain (journaled m >>= fun a => pure (f a))
  | commit {β : Type} {e : Int} {m : M Unit} {b : β} :
    (∀ {R : Server → Server → Prop} [EditFrame R], Keeps R m) →
      Plain ((do orFail e journalBegin; orFail e (journalFinish m)) >>= fun _ => pure b)
  | finish {β : Type} {e : Int} {m : M Unit} {b : β} :
    (∀ {R : Server → Server → Prop} [EditFrame R], Keeps R m) →
      Plain (do orFail e journalBegin; orFail e (journalFinish m); pure b)

namespace Plain

variable {α : Type} {m m' : M α} {c : Prop} [Decidable c]

theorem check {e : Int} {k : Unit → M α} (hk : ∀ u, Plain (k u)) : Plain (failIf c e >>= k) :=
  .bind (.failIf c e) hk

theorem ite (hm : Plain m) (hm' : Plain m') : Plain (if c then m else m') := by
  split
  · exact hm
  · exact hm'

end Plain

theorem plain_openFile (name : List Byte) (flags : Nat) : Plain (openFile name flags) := by
  refine .bind .get fun s => .bind (keeps_resolveName _ _) fun p => .check fun _ =>
    .bind (.attempt (keeps_findInDir _ _)) fun found => ?_
  cases found with
  | none =>
    refine .check fun _ => .journaled (.orFail ?_)
    exact .bind keeps_allocInode fun _ => .bind .get fun _ => .bind (keeps_inodeWrite _ _) fun _ =>
      .bind (keeps_insertDirentInDir _ _ _ _) fun _ => .pure _
  | some found =>
    refine .ite (.journaled ?_) (.reads (.pure _))
    exact .bind (.orFail (keeps_inodeRead _)) fun _ => .orFail <|
      .bind (keeps_freeInodeBlocks _) fun _ => .bind .get fun _ => keeps_inodeWrite _ _

theorem plain_handleRead (h len : Nat) : Plain (handleRead h len) :=
  .bind (keeps_openHandle _ _) fun _ => .bind .get fun _ => .bind (keeps_readBytes _ _ _ _) fun _ =>
    .handle

theorem plain_handleFstat (h : Nat) : Plain (handleFstat h) :=
  .reads <| .bind (keeps_openHandle _ _) fun _ => .bind .get fun _ =>
    .bind (.orFail (keeps_inodeRead _)) fun _ => .pure _

theorem plain_handleUtimens (h flags : Nat) (atime mtime ctime : Int) :
    Plain (handleUtimens h flags atime mtime ctime) :=
  .bind (keeps_openHandle _ _) fun _ => .check fun _ => .bind .get fun _ =>
    .bind (.orFail (keeps_inodeRead _)) fun _ => .finish (keeps_inodeWrite _ _)

theorem plain_handleStat (name : List Byte) : Plain (handleStat name) :=
  .reads <| .bind .get fun _ => .ite (.bind (.orFail (keeps_inodeRead _)) fun _ => .pure _) <|
    .bind (keeps_resolveName _ _) fun _ => .check fun _ =>
      .bind (.orFail (keeps_findInDir _ _)) fun _ =>
        .bind (.orFail (keeps_inodeRead _)) fun _ => .pure _

theorem plain_handleReaddir (dirIno want : Nat) : Plain (handleReaddir dirIno want) :=
  .reads <| .bind (.orFail (keeps_inodeRead _)) fun _ =>
    .bind (.orFail (keeps_directoryBlocks _)) fun _ =>
    .bind (keeps_readdirBlocks _ _ _) fun _ => .bind (.orFail (keeps_inodeRead _)) fun _ => .pure _

theorem plain_handleSymlink (name target : List Byte) : Plain (handleSymlink name target) := by
  refine .bind .get fun _ => .bind (keeps_resolveName _ _) fun _ => .check fun _ =>
    .bind (.attempt (keeps_findInDir _ _)) fun found => ?_
  cases found with
  | some _ => exact .reads (.throw _)
  | none =>
    refine .check fun _ => .journaled (.orFail ?_)
    exact .bind keeps_allocInode fun _ => .bind (keeps_inodeWrite _ _) fun _ =>
      keeps_insertDirentInDir _ _ _ _

theorem plain_handleMkdir (name : List Byte) : Plain (handleMkdir name) :=
  .bind .get fun _ => .bind (keeps_resolveName _ _) fun _ => .check fun _ =>
    .journaled (.tryCatch (keeps_mkdirInternal _ _) fun _ => .throw _)

theorem plain_handleXattr (r : XattrRequest) : Plain (handleXattr r) := by
  refine .bind (keeps_openHandle _ _) fun _ => .check fun _ => .check fun _ =>
    .bind (keeps_xattrShm _) fun _ =>
    .bind (keeps_xattrTarget _ _) fun _ => .bind .get fun _ => .bind (keeps_xattrLoad _) fun x =>
      .ite ?_ (.ite ?_ (.ite ?_ ?_))
  · unfold xattrGetValue
    split
    · exact .reads (.throw _)
    · exact .check fun _ => .check fun _ => .reads (.pure _)
  · exact .check fun _ => .check fun _ => .reads (.pure _)
  · exact .check fun _ => .check fun _ => .check fun _ => .commit (keeps_xattrWriteEntries _ _ _)
  · exact .check fun _ => .commit (keeps_xattrWriteEntries _ _ _)

/-- A frame that lets handles change, caches be written back and transactions run, whatever
they do to metadata and handles. -/
class RequestFrame (R : Server → Server → Prop) : Prop extends TickFrame R where
  handle (h : Fin maxHandles) (f : Handle → Handle) : Keeps R (modifyHandle h f)
  flush (h : Fin maxHandles) : Keeps R (flushWriteState h)
  begins {β : Type} {e : Int} {k : Unit → M β}
    (hk : ∀ {R' : Server → Server → Prop} [HandleFrame R'] u, Keeps R' (k u)) :
    Keeps R (orFail e journalBegin >>= k)

section Requests
variable {R : Server → Server → Prop} [RequestFrame R]

theorem keeps_transaction (hm : ∀ {R' : Server → Server → Prop} [HandleFrame R'], Keeps R' m) :
    Keeps R (journaled m) :=
  RequestFrame.begins fun _ =>
    .bind (.tryCatch hm fun _ => .bind keeps_journalAbort fun _ => .throw _) fun _ =>
    .bind (.orFail keeps_journalCommit) fun _ => .pure _

theorem keeps_finish {e : Int} {m : M Unit} {a : α}
    (hm : ∀ {R' : Server → Server → Prop} [HandleFrame R'], Keeps R' m) :
    Keeps R (do orFail e journalBegin; orFail e (journalFinish m); pure a) :=
  RequestFrame.begins fun _ =>
    .bind (.orFail (.bind (.tryCatch hm fun _ => .bind keeps_journalAbort fun _ => .throw _)
      fun _ => keeps_journalCommit)) fun _ => .pure _

theorem Plain.keeps (h : Plain m) : Keeps R m := by
  induction h with
  | reads h => exact h
  | bind h _ ih => exact .bind h ih
  | handle => exact .bind (RequestFrame.handle _ _) fun _ => .pure _
  | journaled h => exact .bind (keeps_transaction h) fun _ => .pure _
  | commit h =>
    exact .bind (RequestFrame.begins fun _ => .orFail <| .bind (.tryCatch h fun _ =>
      .bind keeps_journalAbort fun _ => .throw _) fun _ => keeps_journalCommit) fun _ => .pure _
  | finish h => exact keeps_finish h

theorem keeps_handleOpen (flags : Nat) : Keeps R (handleOpen name flags) := by
  refine .bind (plain_openFile _ _).keeps fun r => .bind .get fun s => ?_
  split
  · exact .throw _
  refine .bind (.bind .get fun _ => .bind (RequestFrame.handle _ _) fun _ => .bind (.attempt ?_)
    fun _ => RequestFrame.handle _ _) fun _ => .pure _
  exact .check fun _ => .bind (keeps_inodeRead _) fun _ => keeps_walkInodeBlocks _ _

theorem keeps_writeLoop (h : Fin maxHandles) (bytes : List Byte) (fuel got : Nat) :
    Keeps R (writeLoop h bytes fuel got) := by
  have hextend : Keeps R (extendFile h) := .bind .get fun _ => .check fun _ =>
    .bind (keeps_transaction (.bind keeps_allocBlock fun _ => .bind (keeps_inodeRead _) fun _ =>
      .bind (keeps_appendBlockToInode _ _ _) fun _ => .bind (keeps_inodeWrite _ _) fun _ =>
        .pure _))
    fun _ => RequestFrame.handle _ _
  have hload (b : Nat) : Keeps R (loadCache h b) := .bind .get fun _ => .ite
    (.bind (RequestFrame.flush h) fun _ => .bind .get fun _ =>
      .bind (RequestFrame.handle _ _) fun _ =>
      .bind (keeps_blockRead _) fun _ => RequestFrame.handle _ _) (.pure _)
  induction fuel generalizing got with
  | zero => exact .pure _
  | succ fuel ih =>
    refine .ite (.bind (.attempt ?_) fun chunk => ?_) (.pure _)
    · exact .bind .get fun _ => .bind (.onlyIf hextend) fun _ => .bind (hload _) fun _ =>
        .bind (RequestFrame.handle _ _) fun _ => .pure _
    · cases chunk with
      | none => exact .pure _
      | some chunk => exact ih _

/-- **Requests.**  A frame that lets handles change, caches be written back and transactions run
is kept by every request but the load of a program. -/
theorem keeps_dispatch (r : Request)
    (hbulk : ∀ name shm, r = .readBulk name shm → Keeps R (handleReadBulk name shm)) :
    Keeps R (dispatch r) := by
  cases r with
  | «open» name flags => exact keeps_handleOpen name flags
  | read h len => exact (plain_handleRead h len).keeps
  | write h bytes =>
    exact .bind (keeps_openHandle _ _) fun _ => .bind (keeps_writeLoop _ _ _ _) fun _ =>
      .bind (RequestFrame.handle _ _) fun _ => .pure _
  | close h =>
    exact .bind (keeps_openHandle _ _) fun _ => .bind (.orFail (RequestFrame.flush _)) fun _ =>
      .bind .get fun _ => .bind (RequestFrame.handle _ _) fun _ =>
        keeps_finish (keeps_reclaimInodeIfUnused _)
  | stat name => exact (plain_handleStat name).keeps
  | fstat h => exact (plain_handleFstat h).keeps
  | mkdir name => exact (plain_handleMkdir name).keeps
  | symlink name target => exact (plain_handleSymlink name target).keeps
  | readdir dirIno index => exact (plain_handleReaddir dirIno index).keeps
  | rename oldName newName =>
    exact .bind (keeps_renameSides _ _) fun _ =>
      .ite (.pure _) <| .bind (keeps_checkAncestry _ _) fun _ =>
      RequestFrame.begins fun _ =>
        .bind (.tryCatch (keeps_renameEntry _ _ _ _) fun _ => .bind keeps_journalAbort fun _ =>
        .throw _)
        fun _ => .ite (.bind (.orFail keeps_journalCommit) fun _ => .pure _)
          (.bind keeps_journalAbort fun _ => .pure _)
  | unlink name =>
    exact .bind (keeps_unlinkTarget _) fun _ => keeps_finish (keeps_detachExistingEntry _ _ _ _)
  | quiesce =>
    exact .bind (.orFail (keeps_flushWhere RequestFrame.flush _ _)) fun _ =>
      .bind (.orFail keeps_blkdevFlush) fun _ => .pure _
  | rmdir name =>
    exact .bind (keeps_rmdirTarget _) fun _ => keeps_finish (keeps_detachExistingEntry _ _ _ _)
  | readBulk name shm => exact hbulk name shm rfl
  | caps => exact .pure _
  | xattr r => exact (plain_handleXattr r).keeps
  | utimens h flags atime mtime ctime => exact (plain_handleUtimens h flags atime mtime ctime).keeps
  | deviceRead src msg => exact keeps_handleDeviceRead src msg
  | other => exact .throw _

end Requests

theorem serve_snd (r : Request) (s : Server) : (serve r s).2 = (dispatch r s).2 := by
  unfold serve
  split <;> simp_all

end Robu.Ext2
