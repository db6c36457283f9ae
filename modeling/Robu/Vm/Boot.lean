import Robu.Vm.PageTable
import Robu.Vm.Pmm

/-!
# Memory at boot

`kmain` takes the memory region that `arch_detect_memory` found, cuts three regions for other uses
off its end, and gives the frames of the rest to `pmm.c`, save those of the boot modules.  The tags
of the boot information are taken as decoded.

`pmm_init` counts in steps of a page from the start of the region, or of the memory behind the
kernel image, up to the end of the rest, and looks at no more than sixteen modules.  A region that
starts or ends inside a page and a seventeenth module go wrong (`setsUp_iff`).
-/

namespace Robu

structure MemmapEntry where
  addr : Word
  len : Word
  type : BitVec 32

/-- What the boot loader tells.  It starts the kernel by one of two protocols. -/
structure BootInfo where
  multiboot : Bool
  memmaps : List (List MemmapEntry)
  modules : List Region
  inMemory : ∀ m ∈ modules, m.base.toNat + m.size.toNat < 2 ^ 64

namespace BootInfo

def regionUsableLen (addr len : Word) : Word :=
  if 0x40000000 ≤ addr then 0
  else
    let maxLen := 0x40000000 - addr
    if len < maxLen then len else maxLen

/-- The loop over the entries of a memory map: the best region so far and its usable length. -/
def bestRegion (entries : List MemmapEntry) : Region :=
  (entries.foldl (fun (best : Region × Word) e =>
    let usable := regionUsableLen e.addr e.len
    if e.type = 1 ∧ best.2 < usable then (⟨e.addr, e.len⟩, usable) else best) ({}, 0)).1

def archDetectMemory (memmaps : List (List MemmapEntry)) : Region :=
  ((memmaps.map bestRegion).find? fun r => r.size ≠ 0).getD ⟨0x1000000, 0x1000000⟩

variable (b : BootInfo)

def archBootModule : Option Region := b.modules.head?

def archBootModuleCount : Nat := if b.multiboot then b.modules.length else 0

def reserves : List Region :=
  if 0 < b.archBootModuleCount then b.modules.take (min b.archBootModuleCount 16)
  else [b.archBootModule.getD {}]

/-- How `kmain` divides the memory. -/
structure Layout where
  pmmLen : Word
  dma : Region
  untyped : Region
  acpiHeap : Region

def carved : Word := 0x2000000 + 0x800000 + 0x200000

/-- The division; `none` is the halt for lack of memory. -/
def layout (region : Region) (forceFatal : Bool) : Option Layout :=
  let effective := if region.base < 0x40000000 then
      let maxLen := 0x40000000 - region.base
      if maxLen < region.size then maxLen else region.size
    else 0
  let effective := if forceFatal then 0 else effective
  if effective < carved then none
  else
    let pmmLen := effective - 0x2000000 - 0x800000 - 0x200000
    let dma := region.base + pmmLen
    let untyped := dma + 0x800000
    some ⟨pmmLen, ⟨dma, 0x800000⟩, ⟨untyped, 0x2000000⟩, ⟨untyped + 0x2000000, 0x200000⟩⟩

/-- The part of `kmain` that sets up memory. -/
def kmain (image : ImageEnd) (forceFatal : Bool) (s : Pmm) : Option (Layout × Pmm) := do
  let region := archDetectMemory b.memmaps
  let cut ← layout region forceFatal
  let t ← s.pmmInit image region.base cut.pmmLen (fun i => (b.reserves.getD i {}).base)
    (fun i => (b.reserves.getD i {}).size) b.reserves.length
  pure (cut, t)

/-! ## What the allocator gets -/

/-- The frame at `f` has no byte of the region. -/
def Apart (f : Nat) (r : Region) : Prop :=
  r.size = 0 ∨ f + 4096 ≤ r.base.toNat ∨ r.base.toNat + r.size.toNat ≤ f
deriving Decidable

/-- **Usable.**  A whole frame of the region that nothing else uses. -/
structure Usable (image : ImageEnd) (cut : Layout) (f : Nat) : Prop where
  aligned : f % 4096 = 0
  inside : (archDetectMemory b.memmaps).base.toNat ≤ f ∧
    f + 4096 ≤ (archDetectMemory b.memmaps).base.toNat + (archDetectMemory b.memmaps).size.toNat
  below : f + 4096 ≤ 0x40000000
  image : image.addr.toNat ≤ f
  modules : ∀ m ∈ b.modules, Apart f m
  others : Apart f cut.dma ∧ Apart f cut.untyped ∧ Apart f cut.acpiHeap

/-- Unless `kmain` halts, it sets memory up, and all frames of the free lists are usable. -/
def SetsUp (image : ImageEnd) (forceFatal : Bool) (s : Pmm) : Prop :=
  ∀ cut ∈ layout (archDetectMemory b.memmaps) forceFatal,
    ∃ t S l, b.kmain image forceFatal s = some (cut, t) ∧ t.Lists S l ∧
      ∀ c, ∀ f ∈ l c, b.Usable image cut f.toNat

/-- A page-sized step of `pmm_init` that touches no reserved region. -/
def Step (image : ImageEnd) (cut : Layout) (f : Nat) : Prop :=
  (∃ j, f = (Pmm.floorOf image (archDetectMemory b.memmaps).base).toNat + 4096 * j) ∧
    f < cut.dma.base.toNat ∧ ∀ m ∈ b.reserves, Apart f m

variable {b} {image : ImageEnd} {cut : Layout} {forceFatal : Bool} {region : Region} {s : Pmm}
  {f : Nat}

/-- The areas behind the frames are in the region. -/
theorem layout_spec (h : cut ∈ layout region forceFatal) :
    region.base.toNat + cut.pmmLen.toNat + 0x2A00000 ≤ 0x40000000 ∧
      cut.pmmLen.toNat + 0x2A00000 ≤ region.size.toNat ∧
      cut = ⟨cut.pmmLen, ⟨region.base + cut.pmmLen, 0x800000⟩,
        ⟨region.base + cut.pmmLen + 0x800000, 0x2000000⟩,
          ⟨region.base + cut.pmmLen + 0x800000 + 0x2000000, 0x200000⟩⟩ := by
  unfold layout carved at h
  extract_lets maxLen effective₀ effective pmmLen dma untyped at h
  split at h
  · cases h
  rename_i hlarge
  cases h
  have hle : effective.toNat ≤ effective₀.toNat := by
    show (if forceFatal then 0 else effective₀).toNat ≤ _
    split
    · exact Nat.zero_le _
    · exact Nat.le_refl _
  have hin : effective₀.toNat ≤ region.size.toNat ∧
      (effective₀ = 0 ∨ region.base.toNat + effective₀.toNat ≤ 0x40000000) := by
    show (ite _ _ _ : Word).toNat ≤ _ ∧ ((ite _ _ _ : Word) = 0 ∨ _ + (ite _ _ _ : Word).toNat ≤ _)
    have hmax : maxLen = 0x40000000 - region.base := rfl
    split
    · split
      · bv_omega
      · bv_omega
    · simp
  have hlen : pmmLen = effective - 0x2000000 - 0x800000 - 0x200000 := rfl
  clear_value pmmLen effective effective₀
  refine ⟨?_, ?_, rfl⟩
  · bv_omega
  · bv_omega

/-- `pmm_init` does not clip the end again. -/
theorem toNat_ceilingOf (h : cut ∈ layout region forceFatal) :
    Pmm.ceilingOf region.base cut.pmmLen = cut.dma.base ∧
      cut.dma.base.toNat = region.base.toNat + cut.pmmLen.toNat := by
  obtain ⟨hle, -, hcut⟩ := layout_spec h
  have hdma : cut.dma.base = region.base + cut.pmmLen := congrArg (fun c => c.dma.base) hcut
  have hsum : cut.dma.base.toNat = region.base.toNat + cut.pmmLen.toNat := by bv_omega
  refine ⟨?_, hsum⟩
  show (if (0x40000000 : Word) < region.base + cut.pmmLen then _ else _) = _
  rw [← hdma, if_neg (by bv_omega)]

theorem le_floorOf (image : ImageEnd) (base : Word) :
    base.toNat ≤ (Pmm.floorOf image base).toNat ∧
      image.addr.toNat ≤ (Pmm.floorOf image base).toNat := by
  have hround := Pmm.ImageEnd.toNat_floor image
  unfold Pmm.floorOf
  extract_lets floor
  change floor.toNat = _ at hround
  split
  · bv_omega
  · bv_omega

/-- The modules that `kmain` leaves out are those behind the sixteenth, or behind the first. -/
theorem forall_modules : (∀ m ∈ b.modules, Apart f m) ↔ (∀ m ∈ b.reserves, Apart f m) ∧
      ∀ m ∈ b.modules.drop (if b.multiboot then 16 else 1), Apart f m := by
  have hsplit : ∀ n, (∀ m ∈ b.modules, Apart f m) ↔
      (∀ m ∈ b.modules.take n, Apart f m) ∧ ∀ m ∈ b.modules.drop n, Apart f m := by
    intro n
    rw [← List.forall_mem_append, List.take_append_drop]
  rw [hsplit (if b.multiboot then 16 else 1)]
  refine and_congr_left fun _ => ?_
  unfold reserves archBootModuleCount archBootModule
  cases hm : b.multiboot with
  | true =>
    rcases Nat.eq_zero_or_pos b.modules.length with h0 | hpos
    · simp [List.length_eq_zero_iff.mp h0, Apart]
    · simp only [if_true, if_pos hpos, ← List.take_take]
      rw [List.take_of_length_le (List.length_take_le' 16 b.modules)]
  | false =>
    cases b.modules with
    | nil => simp [Apart]
    | cons m rest => simp

theorem length_reserves_le : b.reserves.length ≤ 16 := by
  unfold reserves
  split
  · rw [List.length_take]
    omega
  · exact Nat.le_of_ble_eq_true rfl

theorem reserves_inMemory : ∀ m ∈ b.reserves, m.base.toNat + m.size.toNat < 2 ^ 64 := by
  unfold reserves
  split
  · exact fun m hm => b.inMemory m (List.mem_of_mem_take hm)
  intro m hm
  cases List.mem_singleton.mp hm
  cases hhead : b.archBootModule with
  | none => exact Nat.two_pow_pos 64
  | some m => exact b.inMemory m (List.mem_of_mem_head? hhead)

/-- The test of `pmm_init` for one region. -/
theorem not_touches_iff {x : Word} {m : Region} (hx : x.toNat < 0x40000000)
    (hm : m.base.toNat + m.size.toNat < 2 ^ 64) :
    ¬ (m.size != 0 && (m.base < x + 4096 && x < m.base + m.size)) = true ↔ Apart x.toNat m := by
  simp only [Bool.and_eq_true, bne_iff_ne, decide_eq_true_eq, Apart]
  constructor
  · intro h
    by_cases h0 : m.size = 0
    · exact .inl h0
    · refine .inr ?_
      by_contra hnot
      exact h ⟨h0, by bv_omega, by bv_omega⟩
  · rintro h ⟨h0, hlow, hhigh⟩
    have h := h.resolve_left h0
    bv_omega

theorem isReserved_iff {x : Word} (hx : x.toNat < 0x40000000) :
    Pmm.isReserved x (fun i => (b.reserves.getD i {}).base) (fun i => (b.reserves.getD i {}).size)
      (if 16 < (b.reserves.length : Int) then 16 else b.reserves.length) = false ↔
      ∀ m ∈ b.reserves, Apart x.toNat m := by
  have hlen := b.length_reserves_le
  have hiff : ∀ m ∈ b.reserves, _ := fun m hm => not_touches_iff hx (b.reserves_inMemory m hm)
  rw [if_neg (by omega), Pmm.isReserved, List.any_eq_false, Int.toNat_natCast]
  constructor
  · intro h m hm
    obtain ⟨i, hi, rfl⟩ := List.getElem_of_mem hm
    have hne := h i (List.mem_range.mpr hi)
    rw [List.getD_eq_getElem?_getD, List.getElem?_eq_getElem hi, Option.getD_some] at hne
    exact (hiff _ hm).mp hne
  · intro h i hi
    have hi := List.mem_range.mp hi
    rw [List.getD_eq_getElem?_getD, List.getElem?_eq_getElem hi, Option.getD_some]
    exact (hiff _ (List.getElem_mem hi)).mpr (h _ (List.getElem_mem hi))

/-- The free lists after `kmain` are the steps that touch nothing reserved. -/
theorem kmain_spec (image : ImageEnd) (s : Pmm)
    (h : cut ∈ layout (archDetectMemory b.memmaps) forceFatal) : ∃ t S l,
      b.kmain image forceFatal s = some (cut, t) ∧ t.Lists S l ∧
      ∀ f : Nat, b.Step image cut f ↔ ∃ c, ∃ x ∈ l c, x.toNat = f := by
  obtain ⟨t, S, l, ht, hlists, hmem⟩ :=
    s.lists_pmmInit image (archDetectMemory b.memmaps).base cut.pmmLen
    (fun i => (b.reserves.getD i {}).base) (fun i => (b.reserves.getD i {}).size) b.reserves.length
  obtain ⟨hceil, hdma⟩ := toNat_ceilingOf h
  obtain ⟨hle, -, -⟩ := layout_spec h
  refine ⟨t, S, l, ?_, hlists, fun f => ⟨?_, ?_⟩⟩
  · unfold kmain
    extract_lets region
    rw [Option.mem_def.mp h, Option.bind_eq_bind, Option.bind_some, ht]
    rfl
  · rintro ⟨⟨j, hj⟩, hlt, hapart⟩
    have hf : (BitVec.ofNat 64 f).toNat = f := by
      rw [BitVec.toNat_ofNat]
      omega
    obtain ⟨c, hc⟩ := (hmem (BitVec.ofNat 64 f)).mpr ⟨j, hf.trans hj, by rw [hceil]; bv_omega,
      (isReserved_iff (by omega)).mpr (by rwa [hf])⟩
    exact ⟨c, _, hc, hf⟩
  · rintro ⟨c, x, hx, rfl⟩
    obtain ⟨j, hj, hlt, hres⟩ := (hmem x).mp ⟨c, hx⟩
    rw [hceil] at hlt
    have hlt' : x.toNat < cut.dma.base.toNat := by bv_omega
    exact ⟨⟨j, hj⟩, hlt', (isReserved_iff (by omega)).mp hres⟩

theorem SetsUp.usable (h : b.SetsUp image forceFatal s)
    (hcut : cut ∈ layout (archDetectMemory b.memmaps) forceFatal) (hf : b.Step image cut f) :
    b.Usable image cut f := by
  obtain ⟨t, S, l, ht, hlists, husable⟩ := h cut hcut
  obtain ⟨t', S', l', ht', hlists', hmem⟩ := kmain_spec image s hcut
  cases ht.symm.trans ht'
  cases hlists.unique hlists'
  obtain ⟨c, x, hx, rfl⟩ := (hmem f).mp hf
  exact husable c x hx

/-- **Managed memory.**  The frames given to the allocator are usable iff the steps of `pmm_init`
that touch none of the modules it looks at start at a page boundary, end before the DMA region,
and touch none of the other modules. -/
theorem setsUp_iff (b : BootInfo) (image : ImageEnd) (forceFatal : Bool) (s : Pmm) :
    b.SetsUp image forceFatal s ↔ ∀ cut ∈ layout (archDetectMemory b.memmaps) forceFatal, ∀ f,
      b.Step image cut f →
      (Pmm.floorOf image (archDetectMemory b.memmaps).base).toNat % 4096 = 0 ∧
        f + 4096 ≤ cut.dma.base.toNat ∧
        ∀ m ∈ b.modules.drop (if b.multiboot then 16 else 1), Apart f m := by
  constructor
  · intro h cut hcut f hf
    have husable := h.usable hcut hf
    obtain ⟨⟨j, hj⟩, hlt, -⟩ := hf
    obtain ⟨-, -, hregions⟩ := layout_spec hcut
    have hsize : cut.dma.size = 0x800000 := congrArg (fun c => c.dma.size) hregions
    refine ⟨?_, ?_, (forall_modules.mp husable.modules).2⟩
    · have := husable.aligned
      omega
    · rcases husable.others.1 with h0 | hbefore | hbehind
      · rw [hsize] at h0
        cases h0
      · exact hbefore
      · omega
  · intro h cut hcut
    obtain ⟨t, S, l, ht, hlists, hmem⟩ := kmain_spec image s hcut
    refine ⟨t, S, l, ht, hlists, fun c x hx => ?_⟩
    have hstep := (hmem x.toNat).mpr ⟨c, x, hx, rfl⟩
    obtain ⟨haligned, hend, hmodules⟩ := h cut hcut _ hstep
    obtain ⟨⟨j, hj⟩, -, hreserves⟩ := hstep
    obtain ⟨hlimit, hsize, hregions⟩ := layout_spec hcut
    obtain ⟨hbase, himage⟩ := le_floorOf image (archDetectMemory b.memmaps).base
    have hdma := (toNat_ceilingOf hcut).2
    have huntyped : cut.untyped.base = cut.dma.base + 0x800000 := by rw [hregions]
    have hheap : cut.acpiHeap.base = cut.dma.base + 0x800000 + 0x2000000 := by rw [hregions]
    exact
      { aligned := by omega
        inside := by omega
        below := by omega
        image := by omega
        modules := forall_modules.mpr ⟨hreserves, hmodules⟩
        others := ⟨.inr (.inl hend), .inr (.inl (by bv_omega)), .inr (.inl (by bv_omega))⟩ }

/-- Multiboot2 with 64 MiB of memory at 16 MiB and a module in each of its first seventeen pages. -/
def seventeenModules : BootInfo where
  multiboot := true
  memmaps := [[⟨0x1000000, 0x4000000, 1⟩]]
  modules := (List.range 17).map fun i => ⟨BitVec.ofNat 64 (0x1000000 + 4096 * i), 4096⟩
  inMemory := by decide

/-- The page of the seventeenth module is given to the allocator. -/
theorem not_setsUp_seventeenModules :
    ¬ seventeenModules.SetsUp ⟨0x200000, by decide, by decide⟩ false ⟨fun _ => 0, fun _ =>
      0, 0, {}⟩ := by
  intro h
  have husable := h.usable (f := 0x1010000) rfl ⟨⟨16, by decide⟩, by decide, by decide⟩
  exact absurd (husable.modules ⟨0x1010000, 4096⟩ (List.mem_map.mpr ⟨16, by decide, rfl⟩))
    (by decide)

end BootInfo

end Robu
