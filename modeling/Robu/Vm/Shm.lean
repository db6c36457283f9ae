import Mathlib.Data.List.AList
import Mathlib.Data.Fintype.Basic
import Robu.Vm.PageTable

/-!
# Shared memory

`shm.c`: the segments, the attach records, and the operations on them, together with what
`sched.c`, `spawn.c` and `elf.c` do to address spaces when a thread exits, forks or executes a
program.

An address space is its page map here: the tables are the frames that destroying it gives back,
and an address is translated by the 36 bits of its page number.  The frame allocator is the set of
free frames.  Which frames it hands out is part of the label of a step, and so is whether there
was memory for the tables of new mappings: `get_next_level` does not notice when there was none,
goes on with the frame 0, and what is mapped where is then open (`Op.tableless`).
-/

namespace Robu

open Function (update)

abbrev Page := BitVec 36

def pageOf (va : Word) : Page := va.extractLsb' 12 36

def Page.addr (π : Page) : Word := 0#16 ++ π ++ 0#12

structure PageFrame where
  frame : Frame
  prot : Prot
deriving DecidableEq

abbrev PageMaps := AList fun _ : Page => PageFrame

/-- An address space: the frames of its tables, with that of its root, and its pages. -/
structure Aspace where
  tables : List Frame
  pages : PageMaps

structure ShmSegment where
  inUse : Bool := false
  key : BitVec 32 := 0
  generation : BitVec 16 := 0
  size : Word := 0
  npages : Word := 0
  frames : List Frame := []
  nattch : BitVec 32 := 0
  markedRmid : Bool := false
  cpid : Tid := 0
  lpid : Tid := 0
  atime : Word := 0
  dtime : Word := 0
  ctime : Word := 0
  modeBits : BitVec 32 := 0
deriving DecidableEq

structure ShmAttach where
  inUse : Bool := false
  shmid : BitVec 32 := 0
  addressSpace : Frame := 0
  va : Word := 0
  npages : Word := 0
deriving DecidableEq

/-- The tables of `shm.c`, the free frames, the address spaces by their root, and the address
spaces of the threads that are not dead; that of a thread of the kernel is 0. -/
structure Shm where
  segments : Fin 32 → ShmSegment := fun _ => {}
  attaches : Fin 64 → ShmAttach := fun _ => {}
  free : Finset Frame
  spaces : Frame → Option Aspace := fun _ => none
  threads : Slot → Option Frame := fun _ => none

/-! ## Constants -/

def pageSize : Word := 0x1000

def shmUserVaBase : Word := 0x140000000

def shmMaxSegmentPages : Word := 4096

def shmIpcCreat : BitVec 32 := 0o1000

def shmIpcExcl : BitVec 32 := 0o2000

def shmFlagRdonly : BitVec 32 := 0o10000

def shmIpcRmid : BitVec 32 := 0

def shmIpcStat : BitVec 32 := 2

def ShmAttach.rangeEnd (a : ShmAttach) : Word := a.va + a.npages * pageSize

/-! ## Identifiers -/

def makeShmid (slot : Fin 32) (generation : BitVec 16) : BitVec 32 :=
  BitVec.ofNat 32 slot ||| (generation.setWidth 32 <<< 8)

def shmidSlot (shmid : BitVec 32) : Nat := (shmid &&& 0xFF).toNat

def shmidGen (shmid : BitVec 32) : BitVec 16 := (shmid >>> 8).setWidth 16

namespace Shm

def findSegment (s : Shm) (shmid : BitVec 32) : Option (Fin 32) :=
  if h : shmidSlot shmid < 32 then
    let slot : Fin 32 := ⟨shmidSlot shmid, h⟩
    if ¬ (s.segments slot).inUse ∨ (s.segments slot).generation ≠ shmidGen shmid then
      none else some slot
  else none

def freeSegmentFrames (s : Shm) (i : Fin 32) : Shm :=
  { s with
    free := s.free ∪ ((s.segments i).frames.filter (· ≠ 0)).toFinset
    segments := update s.segments i
      { s.segments i with
        frames := []
        inUse := false
        generation := (s.segments i).generation + 1 } }

/-- The allocator hands out the frames of an offer, if they are free, `n` and different. -/
def Offered (free : Finset Frame) (n : Nat) (offer : List Frame) : Prop :=
  offer.length = n ∧ offer.Nodup ∧ ∀ f ∈ offer, f ∈ free ∧ f ≠ 0

instance (free : Finset Frame) (n : Nat) (offer : List Frame) : Decidable (Offered free n offer) :=
  haveI : Decidable (∀ f ∈ offer, f ∈ free ∧ f ≠ 0) := List.decidableBAll _ _
  inferInstanceAs (Decidable (offer.length = n ∧ offer.Nodup ∧ ∀ f ∈ offer, f ∈ free ∧ f ≠ 0))

/-! ## Creating -/

def firstIndex {n : Nat} (p : Fin n → Bool) : Option (Fin n) := (List.finRange n).find? p

/-- `shm_get`.  `heap` is the answer of `kmalloc`. -/
def shmGet (s : Shm) (caller : Tid) (key : BitVec 32) (size : Word) (shmflg : BitVec 32)
    (now : Word) (heap : Bool) (offer : List Frame) : (IpcErr × BitVec 32) × Shm :=
  let found := if key = 0 then none else
    firstIndex fun i => (s.segments i).inUse && !(s.segments i).markedRmid &&
      (s.segments i).key == key
  match found with
  | some i =>
    if shmflg &&& shmIpcCreat ≠ 0 ∧ shmflg &&& shmIpcExcl ≠ 0 then ((.exists_, -1), s)
    else if size ≠ 0 ∧ (s.segments i).size < size then ((.invalid, -1), s)
    else ((.none, makeShmid i (s.segments i).generation), s)
  | none =>
    if key ≠ 0 ∧ shmflg &&& shmIpcCreat = 0 then ((.notFound, -1), s)
    else if size = 0 then ((.invalid, -1), s)
    else
      let npages := (size + pageSize - 1) / pageSize
      if shmMaxSegmentPages < npages then ((.invalid, -1), s)
      else
        match firstIndex fun i => !(s.segments i).inUse with
        | none => ((.noSpace, -1), s)
        | some slot =>
          if ¬ heap then ((.noMem, -1), s)
          -- without enough frames, those that were allocated are freed again
          else if ¬ Offered s.free npages.toNat offer then ((.noMem, -1), s)
          else
            ((.none, makeShmid slot (s.segments slot).generation),
              { s with
                free := s.free \ offer.toFinset
                segments := update s.segments slot
                  { inUse := true, key, size, npages, frames := offer, nattch := 0
                    markedRmid := false, cpid := caller, lpid := caller, atime := 0, dtime := 0
                    ctime := now, modeBits := shmflg &&& 0x1FF
                    generation := (s.segments slot).generation } })

/-! ## Attaching -/

/-- `arch_vm_map_page`, which always returns 0, for pages in a row. -/
def mapFrom (va : Word) (prot : Prot) (frames : List Frame) (pages : PageMaps) : PageMaps :=
  frames.zipIdx.foldl (fun pages x =>
    pages.insert (pageOf (va + BitVec.ofNat 64 x.2 * pageSize)) ⟨x.1, prot⟩) pages

/-- `arch_vm_unmap_page`, for pages in a row. -/
def unmapFrom (va : Word) (n : Nat) (pages : PageMaps) : PageMaps :=
  (List.range n).foldl (fun pages j =>
    pages.erase (pageOf (va + BitVec.ofNat 64 j * pageSize))) pages

/-- Where `shm_at` puts a segment: behind all that the address space has attached. -/
def attachVa (s : Shm) (addressSpace : Frame) : Word :=
  (List.finRange 64).foldl (fun va i =>
    if (s.attaches i).inUse ∧ (s.attaches i).addressSpace = addressSpace ∧
      va < (s.attaches i).rangeEnd then
      (s.attaches i).rangeEnd
    else va) shmUserVaBase

def shmAt (s : Shm) (caller : Tid) (addressSpace : Frame) (shmid : BitVec 32) (shmflg : BitVec 32)
    (now : Word) (tables : List Frame) : (IpcErr × Word) × Shm :=
  match s.findSegment shmid with
  | none => ((.notFound, 0), s)
  | some i =>
    let va := s.attachVa addressSpace
    match firstIndex fun a => !(s.attaches a).inUse with
    | none => ((.noSpace, 0), s)
    | some slot =>
      let prot : Prot := 1 ||| 8 ||| (if shmflg &&& shmFlagRdonly = 0 then 2 else 0)
      ((.none, va),
        { s with
          free := s.free \ tables.toFinset
          spaces := update s.spaces addressSpace ((s.spaces addressSpace).map fun A =>
            ⟨A.tables ++ tables, mapFrom va prot (s.segments i).frames A.pages⟩)
          attaches := update s.attaches slot
            { inUse := true, shmid, addressSpace, va, npages := (s.segments i).npages }
          segments := update s.segments i
            { s.segments i with
              nattch := (s.segments i).nattch + 1
              lpid := caller
              atime := now } })

/-! ## Detaching -/

/-- What `shm_dt` and `shm_detach_all_for_process` do to a record.  The time is that of the last
detach, if it is kept. -/
def detach (s : Shm) (a : Fin 64) (now : Option Word) : Shm :=
  let r := s.attaches a
  let s₁ : Shm := { s with
    spaces := update s.spaces r.addressSpace
      ((s.spaces r.addressSpace).map fun A =>
        { A with pages := unmapFrom r.va r.npages.toNat A.pages })
    attaches := update s.attaches a { r with inUse := false } }
  match s.findSegment r.shmid with
  | none => s₁
  | some i =>
    let seg := { s.segments i with
      nattch := (s.segments i).nattch - 1
      dtime := now.getD (s.segments i).dtime }
    let s₂ := { s₁ with segments := update s.segments i seg }
    if seg.nattch = 0 ∧ seg.markedRmid then s₂.freeSegmentFrames i else s₂

def shmDt (s : Shm) (addressSpace : Frame) (shmaddr : Word) (now : Word) : IpcErr × Shm :=
  match firstIndex fun a => (s.attaches a).inUse && (s.attaches a).addressSpace == addressSpace &&
      (s.attaches a).va == shmaddr with
  | none => (.notFound, s)
  | some a => (.none, s.detach a (some now))

def shmDetachAllForProcess (s : Shm) (addressSpace : Frame) : Shm :=
  (List.finRange 64).foldl (fun s a =>
    if (s.attaches a).inUse ∧ (s.attaches a).addressSpace = addressSpace then
      s.detach a none else s) s

/-! ## Control -/

def shmCtl (s : Shm) (shmid cmd : BitVec 32) : (IpcErr × List Word) × Shm :=
  match s.findSegment shmid with
  | none => ((.notFound, []), s)
  | some i =>
    let seg := s.segments i
    if cmd = shmIpcStat then
      ((.none, [seg.size, seg.nattch.setWidth 64,
        seg.cpid.setWidth 64 ||| (seg.lpid.setWidth 64 <<< 32),
          (seg.modeBits.setWidth 64) ||| ((if seg.markedRmid then 1 else 0) <<< 16), seg.atime,
          seg.dtime]), s)
    else if cmd = shmIpcRmid then
      let s₁ := { s with segments := update s.segments i { seg with markedRmid := true } }
      ((.none, []), if seg.nattch = 0 then s₁.freeSegmentFrames i else s₁)
    else ((.invalid, []), s)

/-! ## Address spaces -/

def given (p : Platform) (π : Page) (f : Frame) : Bool :=
  π.extractLsb' 27 9 = 0 ∧ Phys.managed p f ∧ ¬ hwMmioWindow.contains π.addr

def destroySpace (p : Platform) (s : Shm) (root : Frame) (A : Aspace) : Shm :=
  { s with
    spaces := update s.spaces root none
    free := s.free ∪ A.tables.toFinset ∪
      ((A.pages.entries.filter fun x => given p x.1 x.2.frame).map fun x => x.2.frame).toFinset }

/-- An address space that is made: the frames of its tables and its pages. -/
structure NewSpace where
  root : Frame
  tables : List Frame
  image : List (Page × PageFrame)

def NewSpace.frames (n : NewSpace) : List Frame :=
    n.root :: n.tables ++ n.image.map fun x => x.2.frame

def NewSpace.aspace (n : NewSpace) : Aspace :=
  ⟨n.root :: n.tables, n.image.foldl (fun pages x => pages.insert x.1 x.2) ∅⟩

def addSpace (s : Shm) (n : NewSpace) : Shm :=
  { s with
    free := s.free \ n.frames.toFinset
    spaces := update s.spaces n.root (some n.aspace) }

def copied (p : Platform) (π : Page) (f : Frame) : Bool :=
  π.extractLsb' 27 9 = 0 ∧ Phys.cloned p f π.addr

def copiedPages (p : Platform) (A : Aspace) : List (Sigma fun _ : Page => PageFrame) :=
  A.pages.entries.filter fun x => copied p x.1 x.2.frame

/-- The pages of a clone.  Its entries are readable, and else allow what those of the source allow.
-/
def cloneImage (p : Platform) (A : Aspace) (frames : List Frame) : List (Page × PageFrame) :=
  ((copiedPages p A).zip frames).map fun x => (x.1.1, ⟨x.2, 1 ||| (x.1.2.prot &&& 0xE)⟩)

/-! ## Steps -/

inductive Op
  /-- `shm_get` -/
  | get (t : Slot) (key : BitVec 32) (size : Word) (shmflg : BitVec 32) (now : Word) (heap : Bool)
      (offer : List Frame)
  /-- `shm_at`, with the tables that are made for the mappings -/
  | attach (t : Slot) (shmid : BitVec 32) (shmaddr : Word) (shmflg : BitVec 32) (now : Word)
    (tables : List Frame)
  /-- `shm_dt` -/
  | detach (t : Slot) (shmaddr now : Word)
  /-- `shm_ctl` -/
  | ctl (t : Slot) (shmid cmd : BitVec 32)
  /-- `terminate_tcb` -/
  | exit (t : Slot)
  /-- `spawn_fork_create`, with the tables of the clone and the frames of its pages -/
  | fork (t child : Slot) (root : Frame) (tables frames : List Frame)
  /-- `elf_exec_current`, when it succeeds -/
  | exec (t : Slot) (n : NewSpace)
  /-- a process that is started in an address space of its own -/
  | spawn (child : Slot) (n : NewSpace)
  /-- a thread that is made in the address space of another -/
  | thread (t child : Slot)
  /-- frames that others allocate, or that a failed fork or exec does not give back -/
  | take (frames : List Frame)
  /-- no memory for a table of a new mapping: the walk goes through the frame 0 -/
  | tableless (spaces : Frame → Option Aspace)

def CanMake (s : Shm) (frames : List Frame) : Prop := Offered s.free frames.length frames
deriving Decidable

def hasSibling (s : Shm) (t : Slot) (root : Frame) : Bool := ∃ w, w ≠ t ∧ s.threads w = some root

/-- `terminate_tcb`, for a thread in an address space. -/
def terminate (p : Platform) (s : Shm) (t : Slot) (root : Frame) : Option Shm :=
  let s₁ := { s with threads := update s.threads t none }
  if root = 0 ∨ s.hasSibling t root then some s₁
  else
    let s₂ := s₁.shmDetachAllForProcess root
    (s₂.spaces root).map fun A => destroySpace p s₂ root A

/-- `elf_exec_current`, for a thread in an address space. -/
def execCurrent (p : Platform) (s : Shm) (t : Slot) (root : Frame) (n : NewSpace) : Option Shm :=
  let s₁ := s.addSpace n
  (s₁.spaces root).map fun A =>
    destroySpace p { s₁ with threads := update s.threads t (some n.root) } root A

def step (p : Platform) (s : Shm) : Op → Option Shm
  | .get t key size shmflg now heap offer =>
    (s.threads t).map fun _ => (s.shmGet t.tid key size shmflg now heap offer).2
  | .attach t shmid shmaddr shmflg now tables => do
    let root ← s.threads t
    if root = 0 ∨ shmaddr ≠ 0 then some s
    else if s.CanMake tables then some (s.shmAt t.tid root shmid shmflg now tables).2
    else none
  | .detach t shmaddr now => do
    let root ← s.threads t
    if root = 0 then some s else some (s.shmDt root shmaddr now).2
  | .ctl t shmid cmd => (s.threads t).map fun _ => (s.shmCtl shmid cmd).2
  | .exit t => do
    let root ← s.threads t
    terminate p s t root
  | .fork t child root tables frames => do
    let parent ← s.threads t
    let A ← s.spaces parent
    let n : NewSpace := ⟨root, tables, cloneImage p A frames⟩
    if parent ≠ 0 ∧ s.threads child = none ∧ frames.length = (copiedPages p A).length ∧
      s.CanMake n.frames then
      some { s.addSpace n with threads := update s.threads child (some root) }
    else none
  | .exec t n => do
    let root ← s.threads t
    if root ≠ 0 ∧ s.CanMake n.frames then execCurrent p s t root n else none
  | .spawn child n =>
    if s.threads child = none ∧ s.CanMake n.frames then
      some { s.addSpace n with threads := update s.threads child (some n.root) }
    else none
  | .thread t child => do
    let root ← s.threads t
    if s.threads child = none then
      some { s with threads := update s.threads child (some root) } else none
  | .take frames => some { s with free := s.free \ frames.toFinset }
  | .tableless spaces => some { s with spaces }

end Shm

end Robu
