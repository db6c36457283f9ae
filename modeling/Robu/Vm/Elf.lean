import Robu.Lib.Memory
import Robu.Vm.UserCopy

/-!
# Loading a program

`elf.c` parses an ELF image and maps its segments page by page.  The image is a string of bytes
whose fields are addresses and sizes of 64 bits, and sums of them wrap around.

Reading outside of the image and copying outside of a frame have no result here.  The checks of
the parser are enough to rule both out (`loads_inside`): a sum that wraps leaves the mapper nothing
to copy.
-/

namespace Robu

structure Blob where
  bytes : List (BitVec 8)
  inMemory : bytes.length < 2 ^ 64

/-- `elf64_ehdr_t` -/
structure Ehdr where
  ident : List (BitVec 8)
  type : BitVec 16
  machine : BitVec 16
  entry : Word
  phoff : Word
  phentsize : BitVec 16
  phnum : BitVec 16

/-- `elf64_phdr_t` -/
structure Phdr where
  type : BitVec 32
  flags : BitVec 32
  offset : Word
  vaddr : Word
  filesz : Word
  memsz : Word

/-- `elf_segment_t` -/
structure Segment where
  vaddr : Word
  fileOff : Word
  filesz : Word
  memsz : Word
  prot : Prot

structure ElfImage where
  entry : Word
  segs : List Segment

def Segment.lo (seg : Segment) : Word := pageStart seg.vaddr

def Segment.hi (seg : Segment) : Word := pageStart (seg.vaddr + seg.memsz + 0xFFF)

def protFromPflags (flags : BitVec 32) : Prot :=
  8 ||| (if flags.getLsbD 2 then 1 else 0) ||| (if flags.getLsbD 1 then 2 else 0) |||
    (if flags.getLsbD 0 then 4 else 0)

def fieldAt (bytes : List (BitVec 8)) (off w : Nat) : BitVec w :=
  BitVec.ofNat w (((bytes.drop off).take (w / 8)).foldr (fun b n => b.toNat + 256 * n) 0)

/-- `memcpy(f + off, bytes, n)`; `none` is a copy that does not stay inside the frame. -/
def Phys.memcpy (m : Phys) (f : Frame) (off : Word) (bytes : List (BitVec 8)) : Option Phys :=
  if off.toNat + bytes.length ≤ 4096 then some (m.storeBytes f off.toNat bytes) else none

namespace Blob

variable (b : Blob)

/-! ## Parsing -/

def len : Word := BitVec.ofNat 64 b.bytes.length

/-- Read `n` bytes; `none` is a read that does not stay inside the image. -/
def read (off : Word) (n : Nat) : Option (List (BitVec 8)) :=
  if off.toNat + n ≤ b.bytes.length then some ((b.bytes.drop off.toNat).take n) else none

def readEhdr : Option Ehdr :=
  (b.read 0 64).map fun h =>
    { ident := h.take 16, type := fieldAt h 16 16, machine := fieldAt h 18 16
      entry := fieldAt h 24 64, phoff := fieldAt h 32 64, phentsize := fieldAt h 54 16
      phnum := fieldAt h 56 16 }

def readPhdr (off : Word) : Option Phdr :=
  (b.read off 56).map fun h =>
    { type := fieldAt h 0 32, flags := fieldAt h 4 32, offset := fieldAt h 8 64
      vaddr := fieldAt h 16 64, filesz := fieldAt h 32 64, memsz := fieldAt h 40 64 }

/-- The loop over the program headers.  In the result, `none` is a refusal. -/
def parseLoop (phoff : Word) : List Nat → List Segment → Option (Option (List Segment))
  | [], segs => some (some segs)
  | i :: is, segs => do
    let ph ← b.readPhdr (phoff + 56 * BitVec.ofNat 64 i)
    if ph.type ≠ 1 then parseLoop phoff is segs
    else
      let fileEnd := ph.offset + ph.filesz
      if ph.memsz < ph.filesz ∨ b.len < ph.offset ∨ b.len < fileEnd ∨ fileEnd < ph.offset then
        pure none
      else if 4 ≤ segs.length then pure none
      else
        parseLoop phoff is (segs ++
          [⟨ph.vaddr, ph.offset, ph.filesz, ph.memsz, protFromPflags ph.flags⟩])

def elfParseInto : Option (Option ElfImage) :=
  if b.len < 64 then some none
  else do
    let eh ← b.readEhdr
    if eh.ident.take 7 ≠ [0x7F, 0x45, 0x4C, 0x46, 2, 1, 1] ∨ eh.machine ≠ 62 ∨ eh.type ≠ 2 ∨
        eh.phentsize ≠ 56 then
      pure none
    else
      let tableEnd := eh.phoff + eh.phnum.setWidth 64 * eh.phentsize.setWidth 64
      if b.len < eh.phoff ∨ b.len < tableEnd ∨ tableEnd < eh.phoff then pure none
      else
        match ← b.parseLoop eh.phoff (List.range eh.phnum.toNat) [] with
        | none => pure none
        | some segs => pure (if segs = [] then none else some ⟨eh.entry, segs⟩)

/-! ## Mapping -/

/-- Copy what the page at `va` has of a segment. -/
def copyPage (seg : Segment) (va : Word) (f : Frame) (m : Phys) : Option Phys :=
  let dataHi := seg.vaddr + seg.filesz
  let lo := if seg.vaddr < va then va else seg.vaddr
  let pageEnd := va + 0x1000
  let hi := if pageEnd < dataHi then pageEnd else dataHi
  if lo < hi then do
    let bytes ← b.read (seg.fileOff + (lo - seg.vaddr)) (hi - lo).toNat
    m.memcpy f (lo - va) bytes
  else some m

/-- The loop over the pages of a segment.  `false` is out of memory. -/
def pageLoop (root : Frame) (seg : Segment) : Nat → Word → Phys → Option (Bool × Phys)
  | 0, _, _ => none
  | fuel + 1, va, m =>
    if va < seg.hi then
      let (f, m₁) := m.pmmAlloc none
      if f = 0 then some (false, m₁)
      else do
        let m₂ ← b.copyPage seg va f ((m₁.zero f).mapPage root va f.addr seg.prot)
        pageLoop root seg fuel (va + 0x1000) m₂
    else some (true, m)

/-- The loop over the segments, with `highest_end`. -/
def mapSegments (root : Frame) : List Segment → Word → Phys → Option (Option Word × Phys)
  | [], highestEnd, m => some (some highestEnd, m)
  | seg :: segs, highestEnd, m => do
    let (ok, m₁) ← b.pageLoop root seg (seg.hi.toNat / 4096 + 1) seg.lo m
    if ok then mapSegments root segs (if highestEnd < seg.hi then seg.hi else highestEnd) m₁
    else pure (none, m₁)

def mapStack (root : Frame) (base : Word) : List Nat → Phys → Bool × Phys
  | [], m => (true, m)
  | i :: is, m =>
    let (f, m₁) := m.pmmAlloc none
    if f = 0 then (false, m₁)
    else mapStack root base is
      ((m₁.zero f).mapPage root (base + BitVec.ofNat 64 i * 0x1000) f.addr 0xB)

/-- `map_segments_and_stack`: the top of the stack, or 0. -/
def mapSegmentsAndStack (root : Frame) (img : ElfImage) (m : Phys) : Option (Word × Phys) := do
  match ← b.mapSegments root img.segs 0 m with
  | (none, m₁) => pure (0, m₁)
  | (some highestEnd, m₁) =>
    let base := highestEnd + 0x1000
    let (ok, m₂) := mapStack root base (List.range 8) m₁
    pure (if ok then base + 8 * 0x1000 else 0, m₂)

/-! ## Accesses stay inside -/

def Inside (seg : Segment) : Prop := seg.fileOff.toNat + seg.filesz.toNat ≤ b.bytes.length

variable {b} {seg : Segment}

theorem toNat_len : b.len.toNat = b.bytes.length := Nat.mod_eq_of_lt b.inMemory

theorem read_eq (off : Word) (n : Nat) (h : off.toNat + n ≤ b.bytes.length) :
    ∃ bytes, b.read off n = some bytes ∧ bytes.length = n := by
  refine ⟨_, if_pos h, ?_⟩
  rw [List.length_take, List.length_drop]
  omega

/-- The segments that the loop accepts are inside the image. -/
theorem parseLoop_spec (phoff : Word) (is : List Nat) {segs : List Segment}
    (htable : ∀ i ∈ is, phoff.toNat + 56 * i + 56 ≤ b.bytes.length)
    (hsegs : ∀ seg ∈ segs, b.Inside seg) :
    ∃ r, b.parseLoop phoff is segs = some r ∧ ∀ segs' ∈ r, ∀ seg ∈ segs', b.Inside seg := by
  induction is generalizing segs with
  | nil =>
    refine ⟨some segs, rfl, ?_⟩
    rintro _ ⟨⟩
    exact hsegs
  | cons i is ih =>
    have hin := b.inMemory
    have hlen := b.toNat_len
    have hi := htable i (.head _)
    have hrest : ∀ j ∈ is, _ := fun j hj => htable j (.tail _ hj)
    obtain ⟨bytes, hread, -⟩ := b.read_eq (phoff + 56 * BitVec.ofNat 64 i) 56 (by bv_omega)
    obtain ⟨ph, hph⟩ : ∃ ph, b.readPhdr (phoff + 56 * BitVec.ofNat 64 i) = some ph :=
      ⟨_, congrArg (Option.map _) hread⟩
    rw [parseLoop, hph, Option.bind_eq_bind, Option.bind_some]
    extract_lets fileEnd
    split
    · exact ih hrest hsegs
    split
    · exact ⟨none, rfl, fun _ h => by cases h⟩
    rename_i hbounds
    split
    · exact ⟨none, rfl, fun _ h => by cases h⟩
    refine ih hrest fun seg hseg => ?_
    rcases List.mem_append.mp hseg with hseg | hseg
    · exact hsegs seg hseg
    cases List.mem_singleton.mp hseg
    have hend : fileEnd = ph.offset + ph.filesz := rfl
    rw [not_or, not_or, not_or] at hbounds
    show ph.offset.toNat + ph.filesz.toNat ≤ _
    bv_omega

/-- Parsing ends, and the segments it accepts are inside the file. -/
theorem elfParseInto_spec (b : Blob) :
    ∃ r, b.elfParseInto = some r ∧ ∀ img ∈ r, ∀ seg ∈ img.segs, b.Inside seg := by
  have hin := b.inMemory
  have hlen := b.toNat_len
  have hnone : ∀ img ∈ (none : Option ElfImage), ∀ seg ∈ img.segs, b.Inside seg :=
    fun _ h => by cases h
  unfold elfParseInto
  split
  · exact ⟨none, rfl, hnone⟩
  obtain ⟨bytes, hread, -⟩ := b.read_eq 0 64 (by bv_omega)
  obtain ⟨eh, heh⟩ : ∃ eh, b.readEhdr = some eh := ⟨_, congrArg (Option.map _) hread⟩
  rw [heh, Option.bind_eq_bind, Option.bind_some]
  extract_lets tableEnd
  split
  · exact ⟨none, rfl, hnone⟩
  rename_i hheader
  split
  · exact ⟨none, rfl, hnone⟩
  rename_i hbounds
  have hend : tableEnd = eh.phoff + eh.phnum.setWidth 64 * eh.phentsize.setWidth 64 := rfl
  rw [not_or, not_or, not_or, not_not, not_not, not_not, not_not] at hheader
  rw [hheader.2.2.2] at hend
  change tableEnd = eh.phoff + eh.phnum.setWidth 64 * 56 at hend
  obtain ⟨r, hr, hsegs⟩ := b.parseLoop_spec eh.phoff (List.range eh.phnum.toNat)
    (fun i hi => by rw [List.mem_range] at hi; bv_omega) (List.forall_mem_nil _)
  rw [hr, Option.bind_eq_bind, Option.bind_some]
  cases r with
  | none => exact ⟨none, rfl, hnone⟩
  | some segs =>
    refine ⟨_, rfl, fun img himg => ?_⟩
    split at himg
    · cases himg
    · cases himg
      exact hsegs segs rfl

/-- **A copy.**  It stays inside the image and inside the frame: if the end of the data or of the
page wraps around, there is nothing to copy. -/
theorem copyPage_isSome (h : b.Inside seg) (va : Word) (f : Frame) (m : Phys) :
    ∃ m', b.copyPage seg va f m = some m' := by
  unfold copyPage
  extract_lets dataHi lo pageEnd hi
  have hin := b.inMemory
  have hfile : seg.fileOff.toNat + seg.filesz.toNat ≤ b.bytes.length := h
  have hdata : dataHi = seg.vaddr + seg.filesz := rfl
  have hpage : pageEnd = va + 0x1000 := rfl
  have hlo : va ≤ lo ∧ seg.vaddr ≤ lo := by
    show va ≤ ite _ _ _ ∧ seg.vaddr ≤ ite _ _ _
    split <;> bv_omega
  have hhi : hi ≤ pageEnd ∧ hi ≤ dataHi := by
    show ite _ _ _ ≤ pageEnd ∧ ite _ _ _ ≤ dataHi
    split <;> bv_omega
  clear_value lo hi dataHi pageEnd
  split
  · obtain ⟨bytes, hbytes, hlength⟩ :=
      b.read_eq (seg.fileOff + (lo - seg.vaddr)) (hi - lo).toNat (by bv_omega)
    rw [hbytes, Option.bind_eq_bind, Option.bind_some]
    exact ⟨_, if_pos (by rw [hlength]; bv_omega)⟩
  · exact ⟨m, rfl⟩

/-- The loop over the pages ends: the end of the last page is a multiple of the page size, so
counting up to it does not wrap around. -/
theorem pageLoop_isSome (root : Frame) (h : b.Inside seg) (fuel : Nat) (va : Word)
    (hva : va.toNat % 4096 = 0) (hpos : 0 < fuel) (hfuel : seg.hi.toNat < va.toNat + 4096 * fuel)
    (m : Phys) : ∃ r, b.pageLoop root seg fuel va m = some r := by
  have hhi : seg.hi.toNat = _ := Lib.toNat_and_not_ones (seg.vaddr + seg.memsz + 0xFFF) 12
  induction fuel generalizing va m with
  | zero => cases hpos
  | succ fuel ih =>
    unfold pageLoop
    split
    · dsimp only
      split
      · exact ⟨_, rfl⟩
      obtain ⟨m₂, hm₂⟩ := copyPage_isSome h va (m.pmmAlloc none).1
        (((m.pmmAlloc none).2.zero (m.pmmAlloc none).1).mapPage root va (m.pmmAlloc none).1.addr
          seg.prot)
      rw [hm₂, Option.bind_eq_bind, Option.bind_some]
      exact ih _ (by bv_omega) (by bv_omega) (by bv_omega) m₂
    · exact ⟨_, rfl⟩

theorem mapSegments_isSome (root : Frame) {segs : List Segment} (h : ∀ seg ∈ segs, b.Inside seg)
    (highestEnd : Word) (m : Phys) : ∃ r, b.mapSegments root segs highestEnd m = some r := by
  induction segs generalizing highestEnd m with
  | nil => exact ⟨_, rfl⟩
  | cons seg segs ih =>
    have hlo : seg.lo.toNat = _ := Lib.toNat_and_not_ones seg.vaddr 12
    obtain ⟨⟨ok, m₁⟩, hpages⟩ := pageLoop_isSome root (h seg (.head _))
      (seg.hi.toNat / 4096 + 1) seg.lo (by omega) (by omega) (by omega) m
    rw [mapSegments, hpages, Option.bind_eq_bind, Option.bind_some]
    dsimp only
    split
    · exact ih (fun seg hseg => h seg (.tail _ hseg)) _ _
    · exact ⟨_, rfl⟩

/-- **Loading.**  For every image, parsing it reads inside of it; and mapping it, if it was
accepted, reads inside of it and copies inside of the frames, and ends. -/
theorem loads_inside (b : Blob) : ∃ r, b.elfParseInto = some r ∧
    ∀ img ∈ r, ∀ root m, ∃ r', b.mapSegmentsAndStack root img m = some r' := by
  obtain ⟨r, hr, hsegs⟩ := b.elfParseInto_spec
  refine ⟨r, hr, fun img himg root m => ?_⟩
  obtain ⟨⟨highestEnd, m₁⟩, hmap⟩ := mapSegments_isSome root (hsegs img himg) 0 m
  rw [mapSegmentsAndStack, hmap, Option.bind_eq_bind, Option.bind_some]
  cases highestEnd with
  | none => exact ⟨_, rfl⟩
  | some highestEnd => exact ⟨_, rfl⟩

end Blob

end Robu
