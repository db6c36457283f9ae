import Robu.Vm.Phys

/-!
# Page tables

The functions of `arch/x86_64/src/vm_arch.c`.  Page tables live in `Phys`: a table is a
frame, and an entry of it is a word.  An address space is the frame of its top table.

The locks and the TLB instructions are left out: kernel sections are serialised, and a
stale translation is not part of what is verified here.
-/

namespace Robu

/-! ## Entries -/

/-- `X86_PTE_P` -/
def present (e : Word) : Bool := e.getLsbD 0

/-- `X86_PTE_RW` -/
def writable (e : Word) : Bool := e.getLsbD 1

/-- `X86_PTE_US` -/
def userBit (e : Word) : Bool := e.getLsbD 2

/-- `X86_PTE_PS` -/
def large (e : Word) : Bool := e.getLsbD 7

/-- `X86_PTE_NX` as a bit of the frame number: `PAGE_MASK_4K` does not remove it. -/
def nxBit : Frame := 1#52 <<< 51

/-- `e & PAGE_MASK_4K & ~X86_PTE_NX`, as a frame number. -/
def leafTarget (e : Word) : Frame := target e &&& ~~~nxBit

def align2M (f : Frame) : Frame := f &&& ~~~0x1FF

/-- An entry for a table: `f | X86_PTE_P | X86_PTE_RW | X86_PTE_US` -/
def tableEntry (f : Frame) : Word := f ++ 7#12

abbrev Prot := BitVec 32

def protBits (prot : Prot) : BitVec 12 :=
  1 ||| (if prot.getLsbD 1 then 2 else 0) ||| (if prot.getLsbD 3 then 4 else 0)

/-- The frame part of a leaf entry: pages that are not executable have the NX bit. -/
def nxFrame (f : Frame) (exec : Bool) : Frame := if exec then f else f ||| nxBit

def pageEntry (paddr : Word) (prot : Prot) : Word :=
  nxFrame (target paddr) (prot.getLsbD 2) ++ protBits prot

/-! ## Addresses -/

def pml4Index (va : Word) : Index := va.extractLsb' 39 9

def pdptIndex (va : Word) : Index := va.extractLsb' 30 9

def pdIndex (va : Word) : Index := va.extractLsb' 21 9

def ptIndex (va : Word) : Index := va.extractLsb' 12 9

/-- `(i << 30) | (j << 21) | (k << 12)` -/
def vaddrOf (i j k : Index) : Word := 0#25 ++ i ++ j ++ k ++ 0#12

def indices : List Index := (List.range 512).map (BitVec.ofNat 9)

structure Region where
  base : Word := 0
  size : Word := 0

def Region.contains (r : Region) (a : Word) : Bool := r.base ≤ a ∧ a < r.base + r.size

/-- What the machine and the kernel image fix: the tables of the kernel's own map and the
memory that the frame allocator does not manage. -/
structure Platform where
  bootPml4 : Frame
  bootPdpt : Frame
  untyped : Region := {}
  dma : Region := {}
  framebuffer : Region := {}

def hwMmioWindow : Region := ⟨0x1A0000000, 0x1000000⟩

namespace Phys

variable (p : Platform) (m : Phys)

/-! ## Mapping -/

/-- `arch_vm_create_address_space`; the frame 0 is a failure. -/
def createAddressSpace : Frame × Phys :=
  let (pml4, m₁) := m.pmmAlloc none
  let (pdpt, m₂) := m₁.pmmAlloc none
  if pml4 = 0 ∨ pdpt = 0 then (0, m₂)
  else
    let share (m : Phys) (i : Index) : Phys :=
      if m.mem p.bootPdpt i ≠ 0 then m.write pdpt i (m.mem p.bootPdpt i) else m
    let m₃ := (m₂.zero pml4).zero pdpt
    let m₄ := m₃.write pdpt 0 (m₃.mem p.bootPdpt 0)
    -- the gigabytes of LAPIC_PADDR, and of KINFO_VA and FRAMEBUFFER_VA
    let m₅ := share (share (share m₄ 3) 2) 2
    (pml4, m₅.write pml4 0 (tableEntry pdpt))

def getNextLevel (table : Frame) (index : Index) : Frame × Phys :=
  if present (m.mem table index) then (target (m.mem table index), m)
  else
    let (new, m₁) := m.pmmAlloc none
    let m₂ := (m₁.zero new).write table index (tableEntry new)
    (target (m₂.mem table index), m₂)

/-- The part the functions that map a small page share: find or make the tables for the
address and store the entry. -/
def mapEntry (aspace : Frame) (va : Word) (entry : Word) : Phys :=
  let (pdpt, m₁) := m.getNextLevel aspace (pml4Index va)
  let (pd, m₂) := m₁.getNextLevel pdpt (pdptIndex va)
  let (pt, m₃) := m₂.getNextLevel pd (pdIndex va)
  m₃.write pt (ptIndex va) entry

def mapPage (aspace : Frame) (va paddr : Word) (prot : Prot) : Phys :=
  m.mapEntry aspace va (pageEntry paddr prot)

/-! ## Walking -/

/-- `walk_to_pte`: the table and index of the last entry for the address. -/
def walkToPte (aspace : Frame) (va : Word) : Option (Frame × Index) :=
  let pml4e := m.mem aspace (pml4Index va)
  if ¬ present pml4e then none
  else
    let pdpte := m.mem (target pml4e) (pdptIndex va)
    if ¬ present pdpte then none
    else
      let pde := m.mem (target pdpte) (pdIndex va)
      if ¬ present pde then none
      else if large pde then some (target pdpte, pdIndex va)
      else some (target pde, ptIndex va)

/-- The frame of an entry: `PAGE_MASK_2M` for large pages. -/
def entryFrame (e : Word) : Frame := if large e then align2M (target e) else target e

/-- `arch_vm_unmap_page`: the frame that was mapped, or 0. -/
def unmapPage (aspace : Frame) (va : Word) : Frame × Phys :=
  match m.walkToPte aspace va with
  | none => (0, m)
  | some (t, i) => if ¬ present (m.mem t i) then (0, m) else (entryFrame (m.mem t i), m.write t i 0)

/-- `arch_vm_translate`: the frame mapped, or 0. -/
def translate (aspace : Frame) (va : Word) : Frame :=
  match m.walkToPte aspace va with
  | none => 0
  | some (t, i) => if ¬ present (m.mem t i) then 0 else entryFrame (m.mem t i) &&& ~~~nxBit

/-! ## Destroying -/

/-- The frame is memory of the allocator, as `arch_vm_destroy_address_space` tells. -/
def managed (f : Frame) : Bool :=
  ¬ p.untyped.contains f.addr ∧ ¬ p.dma.contains f.addr ∧ ¬ p.framebuffer.contains f.addr

def destroyPt (i j : Index) (pt : Frame) : List Index → Phys → Phys
  | [], m => m
  | k :: ks, m =>
    let e := m.mem pt k
    if present e ∧ managed p (leafTarget e) ∧ ¬ hwMmioWindow.contains (vaddrOf i j k) then
      destroyPt i j pt ks (m.pmmFree (leafTarget e))
    else destroyPt i j pt ks m

def destroyPd (i : Index) (pd : Frame) : List Index → Phys → Phys
  | [], m => m
  | j :: js, m =>
    let e := m.mem pd j
    if ¬ present e then destroyPd i pd js m
    else if large e then
      let leaf := align2M (target e) &&& ~~~nxBit
      if managed p leaf then destroyPd i pd js (m.pmmFree leaf) else destroyPd i pd js m
    else destroyPd i pd js ((destroyPt p i j (target e) indices m).pmmFree (target e))

/-- The loop over a page-directory-pointer table, which leaves out what it shares with the
kernel. -/
def destroyPdpt (pdpt : Frame) : List Index → Phys → Phys
  | [], m => m
  | i :: is, m =>
    let e := m.mem pdpt i
    if ¬ present e ∨ target e = target (m.mem p.bootPdpt i) then destroyPdpt pdpt is m
    else destroyPdpt pdpt is ((destroyPd p i (target e) indices m).pmmFree (target e))

def destroyAddressSpace (aspace : Frame) : Phys :=
  let m₁ := if present (m.mem aspace 0) then
      let pdpt := target (m.mem aspace 0)
      (destroyPdpt p pdpt indices m).pmmFree pdpt
    else m
  m₁.pmmFree aspace

/-! ## Cloning -/

def cloned (f : Frame) (va : Word) : Bool :=
  ¬ p.framebuffer.contains f.addr ∧ ¬ p.dma.contains f.addr ∧ ¬ hwMmioWindow.contains va

def cloneProt (e : Word) : Prot :=
  1 ||| (if writable e then 2 else 0) ||| (if userBit e then 8 else 0) |||
    (if e.getLsbD 63 then 0 else 4)

/-- The loop over a page table of the source.  `false` is out of memory. -/
def clonePt (dst : Frame) (i j : Index) (pt : Frame) : List Index → Phys → Bool × Phys
  | [], m => (true, m)
  | k :: ks, m =>
    let e := m.mem pt k
    if present e ∧ cloned p (leafTarget e) (vaddrOf i j k) then
      let (f, m₁) := m.pmmAlloc none
      if f = 0 then (false, m₁)
      else
        let m₂ := m₁.copyFrame f (leafTarget e)
        clonePt dst i j pt ks (m₂.mapPage dst (vaddrOf i j k) f.addr (cloneProt (m₂.mem pt k)))
    else clonePt dst i j pt ks m

def clonePd (dst : Frame) (i : Index) (pd : Frame) : List Index → Phys → Bool × Phys
  | [], m => (true, m)
  | j :: js, m =>
    let e := m.mem pd j
    if ¬ present e ∨ large e then clonePd dst i pd js m
    else
      match clonePt p dst i j (target e) indices m with
      | (false, m₁) => (false, m₁)
      | (true, m₁) => clonePd dst i pd js m₁

def clonePdpt (dst : Frame) (pdpt : Frame) : List Index → Phys → Bool × Phys
  | [], m => (true, m)
  | i :: is, m =>
    let e := m.mem pdpt i
    if ¬ present e ∨ target e = target (m.mem p.bootPdpt i) then clonePdpt dst pdpt is m
    else
      match clonePd p dst i (target e) indices m with
      | (false, m₁) => (false, m₁)
      | (true, m₁) => clonePdpt dst pdpt is m₁

/-- `arch_vm_clone_address_space`; the frame 0 is a failure. -/
def cloneAddressSpace (src : Frame) : Frame × Phys :=
  let (dst, m₁) := m.createAddressSpace p
  if dst = 0 then (0, m₁)
  else if ¬ present (m₁.mem src 0) then (dst, m₁)
  else
    match clonePdpt p dst (target (m₁.mem src 0)) indices m₁ with
    | (true, m₂) => (dst, m₂)
    | (false, m₂) => (0, m₂)

end Phys

end Robu
