import Robu.Vm.Leaks
import Robu.Vm.Pmm
import Robu.Vm.Shm

/-!
# The views of memory

`pmm.c` is modelled on the bytes of memory (`Pmm`), on the words of its frames, where page tables
live too (`Phys`), and for shared memory as the set of the free frames (`Shm`).  Each view is the
one before with something left out: `Pmm.phys` reads memory by words and drops the counters, and
`Phys.Free.frames` drops the order of the lists.  Both commute with the operations.

Page tables are words of frames (`Phys.Space`), and for shared memory they are a map from pages to
frames (`PageMaps`).  `Phys.Shows` relates the two, and to map or to unmap a page keeps it.
-/

namespace Robu

open Function (apply_update update)

def wordAt (f : Frame) (i : Index) : Word := f ++ i ++ 0#3

theorem toNat_wordAt (f : Frame) (i : Index) :
    (wordAt f i).toNat = 4096 * f.toNat + 8 * i.toNat := by
  have hi : i.toNat < 2 ^ 9 := i.isLt
  unfold wordAt
  rw [BitVec.toNat_append, BitVec.toNat_append, ← Nat.shiftLeft_add_eq_or_of_lt hi,
    ← Nat.shiftLeft_add_eq_or_of_lt (by decide), Nat.shiftLeft_eq, Nat.shiftLeft_eq]
  simp
  omega

theorem Frame.addr_eq_wordAt (f : Frame) : f.addr = wordAt f 0 := by
  unfold wordAt
  rw [BitVec.append_assoc]
  rfl

theorem Frame.toNat_addr (f : Frame) : f.addr.toNat = 4096 * f.toNat := by
  rw [addr_eq_wordAt, toNat_wordAt]
  rfl

namespace Pmm

variable {mem : Lib.Memory} {s : Pmm} {S : Word → Prop} {l : Fin 8 → List Word} {f : Word}
  {g h : Frame} {i j : Index}

/-- Words of frames do not overlap. -/
theorem load64_store64_wordAt {v : Word} : (mem.store64 (wordAt g i) v).load64 (wordAt h j) =
    if h = g ∧ j = i then v else mem.load64 (wordAt h j) := by
  split
  · rename_i heq
    rw [heq.1, heq.2, Lib.Memory.load64_store64]
  · rename_i hne
    refine Lib.Memory.load64_congr fun b hb => Lib.Memory.store64_of_far ?_
    have hg := toNat_wordAt g i
    have hh := toNat_wordAt h j
    have hoff : 4096 * h.toNat + 8 * j.toNat ≠ 4096 * g.toNat + 8 * i.toNat := by
      intro heq
      have hi := i.isLt
      have hj := j.isLt
      exact hne ⟨BitVec.eq_of_toNat_eq (by omega), BitVec.eq_of_toNat_eq (by omega)⟩
    bv_omega

theorem load64_zeroWords_addr : (mem.zeroWords g.addr 512).load64 (wordAt h j) =
    if h = g then 0 else mem.load64 (wordAt h j) := by
  have hg := g.toNat_addr
  have hh := toNat_wordAt h j
  have hj := j.isLt
  split
  · rename_i heq
    subst heq
    refine (Lib.Memory.load64_congr fun b hb => ?_).trans (b :=
      Lib.Memory.load64 (fun _ => 0) (wordAt h j)) (by
      simp [Lib.Memory.load64])
    rw [Lib.Memory.zeroWords_apply (by decide), if_pos (by bv_omega)]
  · rename_i hne
    refine Lib.Memory.load64_congr fun b hb => ?_
    have hoff : h.toNat ≠ g.toNat := fun heq => hne (BitVec.eq_of_toNat_eq heq)
    rw [Lib.Memory.zeroWords_apply (by decide), if_neg (by bv_omega)]

/-- The allocator as the page tables see it. -/
def phys (s : Pmm) : Phys where
  mem g i := s.mem.load64 (wordAt g i)
  freeHead c := target (s.freeHead c)
  nextColor := s.nextColor

theorem target_zero : target 0 = 0 := by decide

theorem colorOf_addr (g : Frame) : colorOf g.addr = Phys.colorOf g := by
  have hg := g.toNat_addr
  refine Fin.ext ?_
  show (g.addr >>> 12 &&& 7).toNat = g.toNat % 8
  rw [BitVec.toNat_and, BitVec.toNat_ushiftRight, Nat.shiftRight_eq_div_pow, hg]
  show 4096 * g.toNat / 2 ^ 12 &&& 2 ^ 3 - 1 = _
  rw [Nat.and_two_pow_sub_one_eq_mod]
  omega

/-- The frames of the pool are aligned, as those that `pmm_init` frees from an aligned base. -/
def Aligned (S : Word → Prop) : Prop := ∀ f, S f → (target f).addr = f

namespace Lists

variable (hs : s.Lists S l) (hS : Aligned S)
include hs hS

theorem addr_head (c : Fin 8) : (target (s.freeHead c)).addr = s.freeHead c := by
  by_cases hc : s.freeHead c = 0
  · rw [hc]
    rfl
  · obtain ⟨rest, hl⟩ := hs.cons_of_head hc
    exact hS _ (hs.mem (c := c) (by rw [hl]; exact .head _))

theorem head_eq_zero (c : Fin 8) : s.phys.freeHead c = 0 ↔ s.freeHead c = 0 := by
  refine ⟨fun hz => ?_, fun hz => ?_⟩
  · rw [← hs.addr_head hS c, show target (s.freeHead c) = 0 from hz]
    rfl
  · show target (s.freeHead c) = 0
    rw [hz, target_zero]

/-- **Free.**  The word that is stored is the address of the old head. -/
theorem phys_pmmFree (hf : S f) : (s.pmmFree f).phys = s.phys.pmmFree (target f) := by
  have hcolor : Phys.colorOf (target f) = colorOf f := by
    rw [← colorOf_addr, hS f hf]
  have hmem : (s.pmmFree f).phys.mem =
    (s.phys.write (target f) 0 (target (s.freeHead (colorOf f))).addr).mem := by
    funext g i
    show (s.mem.store64 f _).load64 (wordAt g i) = if g = target f ∧
      i = 0 then _ else s.mem.load64 (wordAt g i)
    rw [← load64_store64_wordAt, ← Frame.addr_eq_wordAt, hS f hf, hs.addr_head hS]
  have hhead : (s.pmmFree f).phys.freeHead = update s.phys.freeHead (colorOf f) (target f) :=
    funext (apply_update (fun _ => target) s.freeHead (colorOf f) f)
  unfold Phys.pmmFree
  rw [hcolor]
  exact congrArg₂ (Phys.mk · · s.nextColor) hmem hhead

/-- **Pop.**  Both take the head of the list. -/
theorem phys_pop (c : Fin 8) : s.phys.pop c = (target (s.pop c).1, (s.pop c).2.phys) := by
  unfold Phys.pop Pmm.pop
  dsimp only
  by_cases hc : s.freeHead c = 0
  · rw [if_pos ((hs.head_eq_zero hS c).mpr hc), if_pos hc, target_zero]
  rw [if_neg (mt (hs.head_eq_zero hS c).mp hc), if_neg hc]
  have haddr : (s.phys.freeHead c).addr = s.freeHead c := hs.addr_head hS c
  have hmem : (s.phys.zero (s.phys.freeHead c)).mem = (s.take c (s.freeHead c)).phys.mem := by
    funext g i
    show (if g = s.phys.freeHead c then 0 else s.mem.load64 (wordAt g i)) =
      (s.mem.zeroWords _ 512).load64 (wordAt g i)
    rw [← load64_zeroWords_addr, haddr]
  have hnext : s.phys.mem (s.phys.freeHead c) 0 = s.mem.load64 (s.freeHead c) := by
    show s.mem.load64 (wordAt _ 0) = _
    rw [← Frame.addr_eq_wordAt, haddr]
  have hhead : update s.phys.freeHead c (target (s.mem.load64 (s.freeHead c))) =
      (s.take c (s.freeHead c)).phys.freeHead :=
    (funext (apply_update (fun _ => target) s.freeHead c _)).symm
  rw [hnext]
  exact congrArg (Prod.mk _) (congrArg₂ (Phys.mk · · s.nextColor) hmem hhead)

/-- **Alloc.**  Both take the same frame. -/
theorem phys_pmmAlloc (color : Option (Fin 8)) :
    s.phys.pmmAlloc color = (target (s.pmmAlloc color).1, (s.pmmAlloc color).2.phys) := by
  cases color with
  | some c => exact hs.phys_pop hS c
  | none =>
    have hturn : (fun c => s.phys.freeHead c != 0) = fun c => s.freeHead c != 0 := by
      funext c
      rw [Bool.eq_iff_iff, bne_iff_ne, bne_iff_ne]
      exact not_congr (hs.head_eq_zero hS c)
    unfold Phys.pmmAlloc Pmm.pmmAlloc
    dsimp only
    rw [hturn, show s.phys.nextColor = s.nextColor from rfl]
    rcases Lib.rotate (fun c => s.freeHead c != 0) 8 s.nextColor with ⟨_ | c, n⟩
    · exact congrArg (Prod.mk · _) target_zero.symm
    · exact phys_pop (s := { s with nextColor := n }) (hs.congr rfl rfl rfl fun _ _ _ _ _ =>
        rfl) hS c

end Lists

end Pmm

namespace Phys

variable {p : Platform} {m : Phys} {l l' : Fin 8 → List Frame} {f : Frame} {n : Nat}

/-- The free frames as shared memory sees them. -/
def Free.frames (l : Fin 8 → List Frame) : Finset Frame :=
    Finset.univ.biUnion fun c => (l c).toFinset

theorem Free.mem_frames : f ∈ frames l ↔ ∃ c, f ∈ l c := by simp [frames]

/-- Allocations in a row, as `shm_get` makes them for a segment. -/
def allocs (m : Phys) : Nat → List Frame × Phys
  | 0 => ([], m)
  | n + 1 =>
    let (f, m₁) := m.pmmAlloc none
    let (fs, m₂) := m₁.allocs n
    (f :: fs, m₂)

/-- **Alloc.**  Frames allocated in a row are an offer, if there are enough, and leave the set. -/
theorem Free.allocs (h : m.Free l) (hn : n ≤ total l) : ∃ l', (m.allocs n).2.Free l' ∧
    Shm.Offered (frames l) n (m.allocs n).1 ∧ frames l' = frames l \ (m.allocs n).1.toFinset := by
  induction n generalizing m l with
  | zero =>
    exact ⟨l, h, ⟨rfl, .nil, fun _ hf => absurd hf List.not_mem_nil⟩, (Finset.sdiff_empty ..).symm⟩
  | succ n ih =>
    rcases h.pmmAlloc none with ⟨-, -, -, hl⟩ | ⟨l₁, ha⟩
    · have := hl rfl
      omega
    have hleft : frames l₁ = frames l \ {(m.pmmAlloc none).1} := by
      ext f
      rw [Finset.mem_sdiff, Finset.mem_singleton, mem_frames, mem_frames]
      simp only [ha.mem_iff, exists_and_right]
    obtain ⟨l', hfree, ⟨hlen, hnodup, hmem⟩, hframes⟩ := ih ha.free (by have := ha.total; omega)
    rw [hleft] at hmem hframes
    have hout := fun hf =>
      (Finset.mem_sdiff.mp (hmem (m.pmmAlloc none).1 hf).1).2 (Finset.mem_singleton_self _)
    refine ⟨l', hfree, ⟨congrArg (· + 1) hlen, List.nodup_cons.mpr ⟨hout, hnodup⟩, ?_⟩, ?_⟩
    · rintro f (_ | ⟨_, hf⟩)
      · exact ⟨mem_frames.mpr ⟨_, ha.mem_list⟩, h.ne_zero ha.mem_list⟩
      · exact ⟨(Finset.mem_sdiff.mp (hmem f hf).1).1, (hmem f hf).2⟩
    · rw [hframes, sdiff_sdiff, Finset.sup_eq_union, ← Finset.insert_eq]
      exact congrArg _ (List.toFinset_cons ..).symm

/-- **Destroy.**  The frames of the tables and of the pages go back to the set. -/
theorem Space.frames_destroy {root pdpt : Frame} {own : Lib.Radix.Tree Index Frame}
    (h : Space p m l root pdpt True own) : ∃ l', (m.destroyAddressSpace p root).Free l' ∧
      Free.frames l' = Free.frames l ∪ (root :: own.frames).toFinset := by
  obtain ⟨l', hfree, -, hmem⟩ := h.destroy
  refine ⟨l', hfree, ?_⟩
  ext f
  rw [Finset.mem_union, Free.mem_frames, Free.mem_frames, List.mem_toFinset, hmem, or_comm]

/-! ## Page maps -/

theorem pageOf_inj {va va' : Word} : pageOf va = pageOf va' ↔ pml4Index va = pml4Index va' ∧
    pdptIndex va = pdptIndex va' ∧ pdIndex va = pdIndex va' ∧ ptIndex va = ptIndex va' := by
  simp only [← BitVec.toNat_inj, pageOf, pml4Index, pdptIndex, pdIndex, ptIndex,
    BitVec.extractLsb'_toNat, Nat.shiftRight_eq_div_pow]
  omega

variable {root pdpt T : Frame} {own : Lib.Radix.Tree Index Frame} {va e : Word}
  {pages pages' : PageMaps}

/-- The walk of the kernel follows the tree. -/
theorem Space.walkToPte_eq (h : Space p m l root pdpt False own) (hva : pml4Index va = 0)
    (hshared : ¬ Shared (m.mem p.bootPdpt) (pdptIndex va)) :
    m.walkToPte root va = (own.find [pdptIndex va, pdIndex va]).map (·, ptIndex va) := by
  unfold walkToPte
  dsimp only
  rw [hva, h.top, present_tableEntry, target_tableEntry, if_neg (by simp)]
  have hpd := h.entry h.find_nil (by simp) (fun hc => hshared hc.2)
  cases hfind : own.find ([] ++ [pdptIndex va]) with
  | none =>
    rw [hfind] at hpd
    rw [if_pos (by rw [hpd]; simp), show own.find [_, _] = none from h.find_none hfind _]
    rfl
  | some pd =>
    rw [hfind] at hpd
    rw [hpd, present_tableEntry, target_tableEntry, if_neg (by simp)]
    have hpt := h.entry (i := pdIndex va) hfind (by simp) (by simp)
    rw [List.nil_append, List.singleton_append] at hpt
    cases hfind' : own.find [pdptIndex va, pdIndex va] with
    | none =>
      rw [hfind'] at hpt
      exact if_pos (by rw [hpt]; simp)
    | some pt =>
      rw [hfind'] at hpt
      rw [hpt, present_tableEntry, large_tableEntry, target_tableEntry]
      rfl

/-- **Page maps.**  The entries of the page tables that are present are those of the map. -/
def Shows (m : Phys) (own : Lib.Radix.Tree Index Frame) (pages : PageMaps) : Prop :=
  ∀ va, pml4Index va = 0 → m.leaf own (pdptIndex va) (pdIndex va) (ptIndex va) =
    (pages.lookup (pageOf va)).map fun x => pageEntry x.frame.addr x.prot

namespace Shows

variable (hs : Shows m own pages)
include hs

theorem store (h : Space p m l root pdpt False own) (hva : pml4Index va = 0)
    (hT : own.find [pdptIndex va, pdIndex va] = some T)
    (hself : ((pages'.lookup (pageOf va)).map fun x => pageEntry x.frame.addr x.prot) =
      (some e).filter present)
    (hrest : ∀ π, π ≠ pageOf va → pages'.lookup π = pages.lookup π) :
    Shows (m.write T (ptIndex va) e) own pages' := by
  intro va' hva'
  by_cases heq : pageOf va' = pageOf va
  · obtain ⟨-, hpd, hpt, hi⟩ := pageOf_inj.mp heq
    rw [heq, hself, hpd, hpt, hi, leaf, hT, Option.map_some, write_self]
  · rw [hrest _ heq, ← hs va' hva']
    refine congrArg _ (Option.map_congr fun T' hT' => write_of_ne _ _ _ _ _ _ fun hc => heq ?_)
    obtain ⟨rfl, hi⟩ := hc
    have hpath := h.find_inj hT' hT
    simp only [List.cons.injEq, and_true] at hpath
    exact pageOf_inj.mpr ⟨hva'.trans hva.symm, hpath.1, hpath.2, hi⟩

variable (h : Space p m l root pdpt False own) (hva : pml4Index va = 0)
  (hshared : ¬ Shared (m.mem p.bootPdpt) (pdptIndex va))
include h hva hshared

/-- **Map.**  `arch_vm_map_page` inserts the page, or uses up the memory. -/
theorem mapPage (f : Frame) (prot : Prot) : ∃ l', (m.mapPage root va f.addr prot).Free l' ∧
    (Free.total l' = 0 ∨ ∃ own', Space p (m.mapPage root va f.addr prot) l' root pdpt False own' ∧
      Shows (m.mapPage root va f.addr prot) own' (pages.insert (pageOf va) ⟨f, prot⟩)) := by
  obtain ⟨m', l', own', hg, ⟨pt, hpt, heq⟩ | ⟨hl, hfree, -⟩⟩ :=
    h.mapEntry_cases (pageEntry f.addr prot) hva hshared
  · rw [Phys.mapPage, heq]
    refine ⟨l', hg.free_write hpt, .inr ⟨own', hg.toSpace.writeLeaf hpt, ?_⟩⟩
    have hgrown : Shows m' own' pages := by rwa [Shows, hg.leaf]
    refine hgrown.store hg.toSpace hva hpt ?_ fun π hπ => AList.lookup_insert_ne hπ
    rw [AList.lookup_insert, Option.filter_some, if_pos (present_pageEntry ..)]
    rfl
  · exact ⟨l', hfree, .inl hl⟩

/-- **Unmap.**  `arch_vm_unmap_page` erases the page. -/
theorem unmapPage : Space p (m.unmapPage root va).2 l root pdpt False own ∧
    Shows (m.unmapPage root va).2 own (pages.erase (pageOf va)) := by
  have hshow := hs va hva
  have hkept (hnone : m.leaf own (pdptIndex va) (pdIndex va) (ptIndex va) = none) :
      Shows m own (pages.erase (pageOf va)) := by
    rw [hshow, Option.map_eq_none_iff, AList.lookup_eq_none] at hnone
    rwa [show pages.erase (pageOf va) = pages from AList.ext (List.kerase_of_notMem_keys hnone)]
  unfold Phys.unmapPage
  rw [h.walkToPte_eq hva hshared]
  unfold leaf at hkept
  cases hT : own.find [pdptIndex va, pdIndex va] with
  | none => exact ⟨h, hkept (by rw [hT]; rfl)⟩
  | some T =>
    rw [Option.map_some]
    dsimp only
    split
    · rename_i habs
      exact ⟨h, hkept (by rw [hT, Option.map_some, Option.filter_some, if_neg habs])⟩
    · exact ⟨h.writeLeaf hT, hs.store h hva hT (by rw [AList.lookup_erase]; rfl) fun π hπ =>
        AList.lookup_erase_ne hπ⟩

end Shows

end Phys

end Robu
