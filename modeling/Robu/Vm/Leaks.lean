import Robu.Vm.Pages
import Robu.Vm.Space

/-!
# What address spaces leak

`lifetime` creates an address space, maps pages in it and destroys it.  The frames of its tables
and the pages are free again if all pages are in the part of the address space that
`arch_vm_destroy_address_space` walks, none is mapped over another, and there is memory for the
tables.  Creating and cloning give nothing back when they fail, so they leak all that was free.
-/

namespace Robu.Phys

open Lib.Radix

variable {p : Platform} {m m' : Phys} {l l' : Fin 8 → List Frame} {root pdpt : Frame}
  {own : Tree Index Frame}
variable {is js ks : List Index} {pd pt src : Frame}

def FreeFrames (m : Phys) (n : Nat) : Prop := ∃ l, m.Free l ∧ Free.total l = n

theorem Free.freeFrames_iff (h : m.Free l) {n : Nat} : m.FreeFrames n ↔ Free.total l = n := by
  refine ⟨fun ⟨l', h', htotal⟩ => ?_, fun htotal => ⟨l, h, htotal⟩⟩
  rw [h.unique h']
  exact htotal

/-- The free frames are none of the kernel's, and are memory. -/
structure Pool (p : Platform) (m : Phys) (l : Fin 8 → List Frame) : Prop where
  free : m.Free l
  boot : ∀ c, p.bootPdpt ∉ l c
  kernel : ∀ i c, target (m.mem p.bootPdpt i) ∉ l c
  low : ∀ c, ∀ f ∈ l c, f.getLsbD 51 = false

/-! ## Creating -/

def shareEntry (p : Platform) (pdpt : Frame) (m : Phys) (i : Index) : Phys :=
  if m.mem p.bootPdpt i ≠ 0 then m.write pdpt i (m.mem p.bootPdpt i) else m

@[simp] theorem freeHead_shareEntry {i : Index} :
    (m.shareEntry p pdpt i).freeHead = m.freeHead := by
  unfold shareEntry
  split <;> rfl

theorem shareEntry_of_ne {i : Index} {f : Frame} (h : f ≠ pdpt) :
    (m.shareEntry p pdpt i).mem f = m.mem f := by
  unfold shareEntry
  split
  · exact write_of_frame_ne _ _ _ h
  · rfl

/-- A page-directory-pointer table with the kernel's entries at the indices `is`, and no others. -/
def SharesOnly (p : Platform) (m : Phys) (pdpt : Frame) (is : List Index) : Prop :=
  ∀ j, m.mem pdpt j = if j ∈ is then m.mem p.bootPdpt j else 0

theorem SharesOnly.shareEntry (h : SharesOnly p m pdpt is) (hne : p.bootPdpt ≠ pdpt) (i : Index) :
    SharesOnly p (m.shareEntry p pdpt i) pdpt (i :: is) := by
  intro j
  rw [shareEntry_of_ne hne]
  unfold Phys.shareEntry
  rcases eq_or_ne j i with rfl | hj
  · rw [if_pos List.mem_cons_self]
    split
    · exact write_self ..
    rename_i hz
    rw [h j, not_not.mp hz]
    exact ite_self _
  · have hmem : j ∈ i :: is ↔ j ∈ is := by simp [hj]
    rw [if_congr hmem rfl rfl, ← h j]
    split
    · exact write_of_ne _ _ _ _ _ _ fun hc => hj hc.2
    · rfl

def newSpace (p : Platform) (m : Phys) (pml4 pdpt : Frame) : Phys :=
  let m₁ := (m.zero pml4).zero pdpt
  let m₂ := m₁.write pdpt 0 (m₁.mem p.bootPdpt 0)
  (((m₂.shareEntry p pdpt 3).shareEntry p pdpt 2).shareEntry p pdpt 2).write pml4 0
    (tableEntry pdpt)

theorem createAddressSpace_eq : m.createAddressSpace p =
    if (m.pmmAlloc none).1 = 0 ∨ ((m.pmmAlloc none).2.pmmAlloc none).1 = 0 then
      (0, ((m.pmmAlloc none).2.pmmAlloc none).2)
    else ((m.pmmAlloc none).1,
      ((m.pmmAlloc none).2.pmmAlloc none).2.newSpace p (m.pmmAlloc none).1
        ((m.pmmAlloc none).2.pmmAlloc none).1) := by
  unfold createAddressSpace
  generalize m.pmmAlloc none = a
  obtain ⟨pml4, m₁⟩ := a
  dsimp only
  generalize m₁.pmmAlloc none = b
  rfl

theorem freeHead_newSpace : (m.newSpace p root pdpt).freeHead = m.freeHead := by
  simp [newSpace, write, zero]

theorem newSpace_of_ne {f : Frame} (hroot : f ≠ root) (hpdpt : f ≠ pdpt) :
    (m.newSpace p root pdpt).mem f = m.mem f := by
  unfold newSpace
  dsimp only
  rw [write_of_frame_ne _ _ _ hroot, shareEntry_of_ne hpdpt, shareEntry_of_ne hpdpt,
    shareEntry_of_ne hpdpt, write_of_frame_ne _ _ _ hpdpt, zero_of_ne _ hpdpt, zero_of_ne _ hroot]

theorem newSpace_root : (m.newSpace p root pdpt).mem root 0 = tableEntry pdpt := write_self ..

theorem sharesOnly_newSpace (hne : root ≠ pdpt) (hroot : p.bootPdpt ≠ root)
    (hpdpt : p.bootPdpt ≠ pdpt) : SharesOnly p (m.newSpace p root pdpt) pdpt [2, 2, 3, 0] := by
  have hfirst : SharesOnly p
    (((m.zero root).zero pdpt).write pdpt 0 (((m.zero root).zero pdpt).mem p.bootPdpt 0))
      pdpt [0] := by
    intro j
    rw [write_of_frame_ne _ _ _ hpdpt]
    rcases eq_or_ne j 0 with rfl | hj
    · rw [write_self, if_pos (List.mem_singleton_self _)]
    · rw [write_of_ne _ _ _ _ _ _ (fun hc => hj hc.2), zero_self, if_neg (by simpa using hj)]
  intro j
  have hrow := ((hfirst.shareEntry hpdpt 3).shareEntry hpdpt 2).shareEntry hpdpt 2 j
  unfold newSpace
  dsimp only
  rw [write_of_frame_ne _ _ _ hne.symm, write_of_frame_ne _ _ _ hroot]
  exact hrow

def newTree (pdpt : Frame) : Tree Index Frame := Tree.insert ∅ [] pdpt

/-- **Create.**  What the successful creation of an address space leaves. -/
structure Created (p : Platform) (m : Phys) (l : Fin 8 → List Frame) (root pdpt : Frame) (m' : Phys)
    (l' : Fin 8 → List Frame) : Prop extends Space p m' l' root pdpt True (newTree pdpt) where
  mem : ∀ f ∈ [root, pdpt], ∃ c, f ∈ l c
  sub : ∀ c, ∀ f ∈ l' c, f ∈ l c
  rows : ∀ f, (∀ c, f ∉ l c) → m'.mem f = m.mem f
  total : Free.total l' + 2 = Free.total l

/-- The two tables of a new space come from the free lists. -/
theorem created_newSpace (h : Pool p m l) {m₁ m₂ : Phys} {l₁ l₂ : Fin 8 → List Frame}
    (ha : Free.Alloc m l root m₁ l₁) (hb : Free.Alloc m₁ l₁ pdpt m₂ l₂) :
    Created p m l root pdpt (m₂.newSpace p root pdpt) l₂ := by
  have hmem : pdpt ∈ l (colorOf pdpt) ∧ pdpt ≠ root := ha.mem_iff.mp hb.mem_list
  have hne : root ≠ pdpt := hmem.2.symm
  have hsub : ∀ c, ∀ f ∈ l₂ c, f ∈ l c ∧ f ≠ root ∧ f ≠ pdpt := by
    intro c f hf
    obtain ⟨hf₁, hfp⟩ := hb.mem_iff.mp hf
    obtain ⟨hf, hfr⟩ := ha.mem_iff.mp hf₁
    exact ⟨hf, hfr, hfp⟩
  have hrows₂ : ∀ f, f ≠ root → f ≠ pdpt → m₂.mem f = m.mem f := by
    intro f hfr hfp
    rw [hb.mem, zero_of_ne _ hfp, ha.mem, zero_of_ne _ hfr]
  have hout : ∀ {f}, (∀ c, f ∉ l c) → f ≠ root ∧ f ≠ pdpt := by
    intro f hf
    exact ⟨fun heq => hf _ (heq ▸ ha.mem_list), fun heq => hf _ (heq ▸ hmem.1)⟩
  obtain ⟨hbr, hbp⟩ := hout h.boot
  have hshare := sharesOnly_newSpace (m := m₂) hne hbr hbp
  generalize hm' : m₂.newSpace p root pdpt = m' at hshare ⊢
  have hrows : ∀ f, f ≠ root → f ≠ pdpt → m'.mem f = m.mem f := by
    intro f hfr hfp
    rw [← hm', newSpace_of_ne hfr hfp, hrows₂ f hfr hfp]
  have hboot : m'.mem p.bootPdpt = m.mem p.bootPdpt := hrows _ hbr hbp
  have hfree : m'.Free l₂ := by
    refine hb.free.congr (by rw [← hm', freeHead_newSpace]) fun c f hf => ?_
    obtain ⟨-, hfr, hfp⟩ := hsub c f hf
    rw [← hm', newSpace_of_ne hfr hfp]
  have hfind : ∀ path T, (newTree pdpt).find path = some T → path = [] ∧ T = pdpt := by
    intro path T hT
    unfold newTree at hT
    by_cases hpath : path = []
    · rw [hpath, Tree.find_insert] at hT
      exact ⟨hpath, (Option.some.inj hT).symm⟩
    · rw [Tree.find_insert_of_ne hpath] at hT
      cases hT
  refine ⟨⟨hfree, by rw [← hm']; exact newSpace_root, Tree.find_insert .., ?_, fun f hf => ?_, ⟨?_,
    ?_⟩, ?_, fun path i hi => ?_, fun path T i hT => ?_⟩, fun f hf => ?_, fun c f hf =>
      (hsub c f hf).1,
    fun f hf => hrows f (hout hf).1 (hout hf).2, ?_⟩
  · exact List.nodup_cons.mpr ⟨fun hmem => hne (List.mem_singleton.mp hmem), List.nodup_singleton _⟩
  · rcases List.mem_cons.mp hf with rfl | hf
    · exact ⟨h.free.ne_zero ha.mem_list, fun c hc => (hsub c _ hc).2.1 rfl⟩
    · obtain rfl := List.mem_singleton.mp hf
      exact ⟨h.free.ne_zero hmem.1, fun c hc => (hsub c _ hc).2.2 rfl⟩
  · rintro (_ | ⟨_, hb⟩)
    · exact hbr rfl
    · exact hbp (List.mem_singleton.mp hb)
  · exact fun c hc => h.boot c (hsub c _ hc).1
  · rw [hboot]
    exact fun i c hc => h.kernel i c (hsub c _ hc).1
  · obtain ⟨T, hT⟩ := Option.isSome_iff_exists.mp hi
    exact absurd (hfind _ _ hT).1 (by simp)
  · obtain ⟨rfl, rfl⟩ := hfind path T hT
    have hnone : (newTree T).find ([] ++ [i]) = none := Tree.find_insert_of_ne (by simp)
    rw [hnone, hshare i]
    by_cases hi : Shared (m'.mem p.bootPdpt) i
    · refine (if_pos hi).mpr ⟨if_pos ?_, rfl⟩
      rcases hi.1 with rfl | rfl | rfl <;> simp
    · refine (if_neg hi).mpr ⟨?_, by simp⟩
      split
      · rename_i hmem
        simp only [List.mem_cons, List.not_mem_nil, or_false, or_self_left] at hmem
        exact Bool.eq_false_of_not_eq_true fun hp => hi ⟨or_rotate.mpr hmem, hp⟩
      · exact present_zero
  · simp only [List.mem_cons, List.not_mem_nil, or_false] at hf
    rcases hf with rfl | rfl
    · exact ⟨_, ha.mem_list⟩
    · exact ⟨_, hmem.1⟩
  · have := ha.total
    have := hb.total
    omega

theorem Created.root_ne_zero (h : Pool p m l) (hc : Created p m l root pdpt m' l') : root ≠ 0 := by
  obtain ⟨c, hroot⟩ := hc.mem root (.head _)
  exact h.free.ne_zero hroot

/-- Creating an address space takes two frames.  It fails if there are fewer, and then none is
left. -/
theorem createAddressSpace_cases (h : Pool p m l) :
    (Free.total l < 2 ∧ (m.createAddressSpace p).1 = 0 ∧ (m.createAddressSpace p).2.FreeFrames 0) ∨
      ∃ pdpt l', Created p m l (m.createAddressSpace p).1 pdpt (m.createAddressSpace p).2 l' := by
  rw [createAddressSpace_eq]
  rcases h.free.pmmAlloc none with ⟨hz, -, hfree, hl⟩ | ⟨l₁, ha⟩
  · rw [if_pos (.inl hz)]
    have hl := hl rfl
    refine .inl ⟨by omega, rfl, ?_⟩
    rcases hfree.pmmAlloc none with ⟨-, -, hfree, -⟩ | ⟨l₂, hb⟩
    · exact ⟨l, hfree, hl⟩
    · have := hb.total
      omega
  · rcases ha.free.pmmAlloc none with ⟨hz, -, hfree, hl⟩ | ⟨l₂, hb⟩
    · rw [if_pos (.inr hz)]
      have hl := hl rfl
      have := ha.total
      exact .inl ⟨by omega, rfl, l₁, hfree, hl⟩
    · have hcreated := created_newSpace h ha hb
      rw [if_neg (not_or.mpr ⟨Created.root_ne_zero h hcreated, ha.free.ne_zero hb.mem_list⟩)]
      exact .inr ⟨_, l₂, hcreated⟩

/-! ## Mapping and destroying -/

structure PageMap where
  va : Word
  frame : Frame
  prot : Prot

def mapAll (root : Frame) (maps : List PageMap) (m : Phys) : Phys :=
  maps.foldl (fun m x => m.mapPage root x.va x.frame.addr x.prot) m

/-- The life of an address space: it is created, pages are mapped in it, and it is destroyed. -/
def lifetime (p : Platform) (maps : List PageMap) (m : Phys) : Phys :=
  let (root, m₁) := m.createAddressSpace p
  (mapAll root maps m₁).destroyAddressSpace p root

def tablesFor : List PageMap → Finset (List Index)
  | [] => ∅
  | x :: maps => Space.withTables x.va (tablesFor maps)

structure InUse (p : Platform) (l : Fin 8 → List Frame) (f : Frame) : Prop where
  ne_zero : f ≠ 0
  clear : ∀ c, f ∉ l c
  boot : f ≠ p.bootPdpt
  low : f.getLsbD 51 = false
  managed : managed p f = true

theorem InUse.mono {f : Frame} (h : InUse p l f) (hsub : ∀ c, ∀ f ∈ l' c, f ∈ l c) : InUse p l' f :=
  ⟨h.ne_zero, fun c hc => h.clear c (hsub c f hc), h.boot, h.low, h.managed⟩

/-- The page is in the part of the address space that is its own and that
`arch_vm_destroy_address_space` walks. -/
structure Walked (boot : Index → Word) (va : Word) : Prop where
  low : pml4Index va = 0
  own : ¬ Shared boot (pdptIndex va)
  window : ¬ hwMmioWindow.contains (vaddrOf (pdptIndex va) (pdIndex va) (ptIndex va))

theorem getLsbD_nxBit (i : Nat) : nxBit.getLsbD i = decide (i = 51) := by
  rw [nxBit, BitVec.getLsbD_shiftLeft, BitVec.getLsbD_one]
  by_cases h : i = 51
  · simp [h]
  · simp only [h, decide_false]
    simp
    omega

theorem and_not_nxBit {f : Frame} (h : f.getLsbD 51 = false) : f &&& ~~~nxBit = f := by
  refine BitVec.eq_of_getLsbD_eq fun i hi => ?_
  rw [BitVec.getLsbD_and, BitVec.getLsbD_not, getLsbD_nxBit]
  rcases eq_or_ne i 51 with rfl | hne
  · rw [h, Bool.false_and]
  · simp [hne, hi]

theorem present_pageEntry (paddr : Word) (prot : Prot) : present (pageEntry paddr prot) = true := by
  unfold present pageEntry protBits
  rw [BitVec.getLsbD_append, if_pos (by decide), BitVec.getLsbD_or, BitVec.getLsbD_or]
  simp

theorem leafOf_pageEntry {f : Frame} (hf : InUse p l f) {boot : Index → Word} {va : Word}
    (hva : Walked boot va) (prot : Prot) :
    leafOf p (pdptIndex va) (pdIndex va) (ptIndex va) (pageEntry f.addr prot) = some f := by
  unfold leafOf
  rw [leafTarget_pageEntry, and_not_nxBit hf.low,
    if_pos ⟨present_pageEntry .., hf.managed, hva.window⟩]

/-- There is memory for tables at all the paths `S`. -/
def Room (S : Finset (List Index)) (l : Fin 8 → List Frame) (own : Tree Index Frame) : Prop :=
  (S ∪ own.paths).card ≤ Free.total l + own.frames.length

variable {S : Finset (List Index)} {path : List Index}

theorem Room.pos (h : Room S l own) (hpath : path ∈ S) (hnone : own.find path = none) :
    0 < Free.total l := by
  have hnot : path ∉ own.paths := by
    rw [Tree.mem_paths, hnone]
    exact Bool.false_ne_true
  have hle : (insert path own.paths).card ≤ (S ∪ own.paths).card :=
    Finset.card_le_card (Finset.insert_subset (Finset.mem_union_left _ hpath)
      Finset.subset_union_right)
  rw [Finset.card_insert_of_notMem hnot, Tree.card_paths] at hle
  unfold Room at h
  omega

theorem Room.grown (h : Room S l own) {full : Prop} {own' : Tree Index Frame}
    {new : List (List Index)} (hg : Grown p m l root pdpt full own new m' l' own')
    (hnew : ∀ path ∈ new, path ∈ S) : Room S l' own' := by
  refine (Finset.card_le_card fun path hpath => ?_).trans (h.trans (Nat.le_of_eq hg.count.symm))
  rcases Finset.mem_union.mp hpath with hS | hpath
  · exact Finset.mem_union_left _ hS
  · obtain ⟨T, hT⟩ := Option.isSome_iff_exists.mp (Tree.mem_paths.mp hpath)
    rcases hg.added path T hT with hold | ⟨hmem, -⟩
    · exact Finset.mem_union_right _ (Tree.mem_paths.mpr (Option.isSome_of_eq_some hold))
    · exact Finset.mem_union_left _ (hnew path hmem)

theorem Room.addPage (h : Room S l own) (hnone : own.find path = none) (f : Frame) :
    Room S l (own.insert path f) := by
  have hsub : S ∪ (own.insert path f).paths ⊆ insert path (S ∪ own.paths) := by
    intro a ha
    rw [Finset.mem_union, Tree.mem_paths] at ha
    by_cases heq : a = path
    · rw [heq]
      exact Finset.mem_insert_self ..
    · rw [Tree.find_insert_of_ne heq, ← Tree.mem_paths, ← Finset.mem_union] at ha
      exact Finset.mem_insert_of_mem ha
  have hle := (Finset.card_le_card hsub).trans (Finset.card_insert_le ..)
  unfold Room at h ⊢
  rw [Tree.frames_insert hnone, List.length_cons]
  omega

/-- **Run.**  Pages are added to an address space that are walked, not mapped yet and for whose
tables there is memory. -/
theorem space_mapAll {maps : List PageMap} (h : Space p m l root pdpt True own)
    (huse : ∀ x ∈ maps, InUse p l x.frame) (hout : ∀ x ∈ maps, x.frame ∉ root :: own.frames)
    (honce : (maps.map PageMap.frame).Nodup) (hwalked : ∀ x ∈ maps, Walked (m.mem p.bootPdpt) x.va)
    (hpages : (maps.map fun x => Space.pathTo x.va).Nodup)
    (hnew : ∀ x ∈ maps, own.find (Space.pathTo x.va) = none)
    (hS : ∀ x ∈ maps, ∀ path ∈ [[pdptIndex x.va], [pdptIndex x.va, pdIndex x.va]], path ∈ S)
    (hroom : Room S l own) :
    ∃ l' own', Space p (mapAll root maps m) l' root pdpt True own' ∧
      Free.total l' + own'.frames.length = Free.total l + own.frames.length + maps.length := by
  induction maps generalizing m l own with
  | nil => exact ⟨l, own, h, rfl⟩
  | cons x maps ih =>
    rw [List.map_cons, List.nodup_cons] at honce hpages
    have hx := huse x (.head _)
    have hwx := hwalked x (.head _)
    obtain ⟨m₁, l₁, own₁, hg, ⟨pt, hpt, hmap⟩ | ⟨hl, -, path, hpath, hnone⟩⟩ :=
      h.mapEntry_cases (pageEntry x.frame.addr x.prot) hwx.low hwx.own
    · have hnone : ∀ y ∈ x :: maps, own₁.find (Space.pathTo y.va) = none := by
        intro y hy
        exact hg.find_eq_none (hnew y hy) (by simp [Space.pathTo])
      have hclear : ∀ y ∈ x :: maps, y.frame ∉ root :: own₁.frames := by
        intro y hy hmem
        have hyout := hout y hy
        rw [List.mem_cons, not_or] at hyout
        rcases List.mem_cons.mp hmem with heq | hmem
        · exact hyout.1 heq
        · exact hg.notMem_frames hyout.2 (huse y hy).clear hmem
      have hspace : Space p (m₁.write pt (ptIndex x.va) (pageEntry x.frame.addr x.prot)) l₁ root
        pdpt True
          (own₁.insert (Space.pathTo x.va) x.frame) :=
        hg.toSpace.addPage hpt (hnone x (.head _)) (leafOf_pageEntry hx hwx x.prot) hx.ne_zero
          (hx.mono hg.sub).clear (hclear x (.head _)) hx.boot
      have hboot : (m₁.write pt (ptIndex x.va) (pageEntry x.frame.addr x.prot)).mem p.bootPdpt =
        m.mem p.bootPdpt := by
        have hne : p.bootPdpt ≠ pt := fun heq => hg.boot.1 (heq ▸ mem_root_frames hpt)
        rw [write_of_frame_ne _ _ _ hne]
        exact hg.rows _ (fun hmem => h.boot.1 (.tail _ hmem)) h.boot.2
      have hout₁ : ∀ y ∈ maps,
        y.frame ∉ root :: (own₁.insert (Space.pathTo x.va) x.frame).frames := by
        intro y hy hmem
        rw [Tree.frames_insert (hnone x (.head _))] at hmem
        simp only [List.mem_cons] at hmem
        rcases or_left_comm.mp hmem with heq | hmem
        · exact honce.1 (List.mem_map.mpr ⟨y, hy, heq⟩)
        · exact hclear y (.tail _ hy) (List.mem_cons.mpr hmem)
      have hnew₁ : ∀ y ∈ maps, (own₁.insert (Space.pathTo x.va) x.frame).find (Space.pathTo y.va) =
        none := by
        intro y hy
        rw [Tree.find_insert_of_ne fun heq => hpages.1 (List.mem_map.mpr ⟨y, hy, heq⟩)]
        exact hnone y (.tail _ hy)
      have hroom₁ := (hroom.grown hg (hS x (.head _))).addPage (hnone x (.head _)) x.frame
      obtain ⟨l', own', h', hcount⟩ :=
        ih hspace (fun y hy => (huse y (.tail _ hy)).mono hg.sub) hout₁ honce.2
        (fun y hy => hboot.symm ▸ hwalked y (.tail _ hy)) hpages.2 hnew₁ (fun y hy =>
          hS y (.tail _ hy)) hroom₁
      refine ⟨l', own', ?_, ?_⟩
      · rw [mapAll, List.foldl_cons, mapPage, hmap]
        exact h'
      · have hgrown := hg.count
        rw [Tree.frames_insert (hnone x (.head _)), List.length_cons] at hcount
        rw [List.length_cons]
        omega
    · have hpos := (hroom.grown hg (hS x (.head _))).pos (hS x (.head _) path hpath) hnone
      omega

/-- The pages are walked, no two are mapped at one place, and there is memory for their tables. -/
structure Fits (p : Platform) (m : Phys) (l : Fin 8 → List Frame) (maps : List PageMap) : Prop where
  walked : ∀ x ∈ maps, Walked (m.mem p.bootPdpt) x.va
  pages : (maps.map fun x => Space.pathTo x.va).Nodup
  memory : 2 + (tablesFor maps).card ≤ Free.total l

theorem mem_tablesFor {maps : List PageMap} {x : PageMap} (hx : x ∈ maps) {path : List Index}
    (hpath : path ∈ [[pdptIndex x.va], [pdptIndex x.va, pdIndex x.va]]) :
    path ∈ tablesFor maps := by
  induction maps with
  | nil => cases hx
  | cons y maps ih =>
    rw [tablesFor, Space.withTables, Finset.mem_insert, Finset.mem_insert]
    rcases List.mem_cons.mp hx with rfl | hx
    · simp only [List.mem_cons, List.not_mem_nil, or_false] at hpath
      exact hpath.elim (fun heq => .inr (.inl heq)) .inl
    · exact .inr (.inr (ih hx))

/-- A space that fits gives back all that it took, with its pages. -/
theorem freeFrames_lifetime (h : Pool p m l) {maps : List PageMap}
    (huse : ∀ x ∈ maps, InUse p l x.frame) (honce : (maps.map PageMap.frame).Nodup)
    (hfits : Fits p m l maps) :
    (m.lifetime p maps).FreeFrames (Free.total l + maps.length) := by
  have hmemory := hfits.memory
  unfold lifetime
  rcases createAddressSpace_cases h with ⟨hlt, -⟩ | ⟨pdpt, l₁, hc⟩
  · omega
  generalize m.createAddressSpace p = r at *
  obtain ⟨root, m₁⟩ := r
  dsimp only at hc ⊢
  have htotal := hc.total
  have hboot := hc.rows _ h.boot
  have hout : ∀ x ∈ maps, x.frame ∉ root :: (newTree pdpt).frames := by
    intro x hx hmem
    obtain ⟨c, hf⟩ := hc.mem x.frame hmem
    exact (huse x hx).clear c hf
  have hroom : Room (tablesFor maps) l₁ (newTree pdpt) := by
    refine (Finset.card_union_le ..).trans ?_
    rw [Tree.card_paths]
    omega
  obtain ⟨l₂, own, hspace, hcount⟩ :=
    space_mapAll hc.toSpace (fun x hx => (huse x hx).mono hc.sub) hout honce
    (fun x hx => hboot.symm ▸ hfits.walked x hx) hfits.pages (fun _ _ =>
      Tree.find_insert_of_ne (by simp [Space.pathTo]))
    (fun x hx _ hpath => mem_tablesFor hx hpath) hroom
  obtain ⟨l₃, hfree, hlast, -⟩ := hspace.destroy
  refine ⟨l₃, hfree, ?_⟩
  have hone : (newTree pdpt).frames.length = 1 := rfl
  omega

/-! ## Cloning -/

theorem indices_vaddrOf (i j k : Index) :
    pml4Index (vaddrOf i j k) = 0 ∧ pdptIndex (vaddrOf i j k) = i ∧ pdIndex (vaddrOf i j k) = j ∧
      ptIndex (vaddrOf i j k) = k := by
  unfold pml4Index pdptIndex pdIndex ptIndex vaddrOf
  refine ⟨?_, ?_, ?_, ?_⟩ <;>
  · refine BitVec.eq_of_getLsbD_eq fun n hn => ?_
    rw [BitVec.getLsbD_extractLsb']
    simp only [BitVec.getLsbD_append, hn, decide_true, Bool.true_and]
    grind

/-- The new address space, while pages are copied to it: all of it comes from the frames that were
free before, `l₀`, and the rest of memory is as it was, `m₀`. -/
structure Copied (p : Platform) (m₀ : Phys) (l₀ : Fin 8 → List Frame) (dst pdpt : Frame) (m : Phys)
    (l : Fin 8 → List Frame) (own : Tree Index Frame) :
      Prop extends Space p m l dst pdpt False own where
  rows : ∀ f, (∀ c, f ∉ l₀ c) → m.mem f = m₀.mem f
  sub : ∀ c, ∀ f ∈ l c, f ∈ l₀ c
  frames_mem : ∀ f ∈ dst :: own.frames, ∃ c, f ∈ l₀ c

variable {m₀ : Phys} {l₀ : Fin 8 → List Frame} {dst : Frame} {i j k : Index}

def copyPage (m : Phys) (dst f src : Frame) (va : Word) (prot : Prot) : Phys :=
  (m.copyFrame f src).mapPage dst va f.addr prot

/-- One page of a clone, unless memory runs out. -/
theorem Copied.copyPage (hpool : Pool p m₀ l₀) (h : Copied p m₀ l₀ dst pdpt m l own) {f : Frame}
    {m₁ : Phys} {l₁ : Fin 8 → List Frame} (ha : Free.Alloc m l f m₁ l₁)
    (hshared : ¬ Shared (m₀.mem p.bootPdpt) i) (src : Frame) (prot : Prot) :
    (m₁.copyPage dst f src (vaddrOf i j k) prot).FreeFrames 0 ∨
      ∃ l' own', Copied p m₀ l₀ dst pdpt (m₁.copyPage dst f src (vaddrOf i j k) prot) l' own' := by
  have hrows : ∀ g, (∀ c, g ∉ l c) → (m₁.copyFrame f src).mem g = m.mem g := by
    intro g hg
    have hgf : g ≠ f := by
      rintro rfl
      exact hg _ ha.mem_list
    rw [copyFrame_of_ne _ hgf, ha.mem, zero_of_ne _ hgf]
  have hfree : (m₁.copyFrame f src).Free l₁ :=
    ha.free.congr rfl fun c g hg => by rw [copyFrame_of_ne _ (ha.mem_iff.mp hg).2]
  have hsub : ∀ c, ∀ g ∈ l₁ c, g ∈ l₀ c := fun c g hg => h.sub c g (ha.mem_iff.mp hg).1
  obtain ⟨hpml4, hi, -, -⟩ := indices_vaddrOf i j k
  have hboot : (m₁.copyFrame f src).mem p.bootPdpt = m₀.mem p.bootPdpt :=
    (hrows _ h.boot.2).trans (h.rows _ hpool.boot)
  have hspace := h.toSpace.keep hfree (fun c g hg => (ha.mem_iff.mp hg).1) hrows
  obtain ⟨m₂, l₂, own₂, hg, ⟨pt, hpt, hmap⟩ | ⟨hl, hfree, -⟩⟩ :=
    hspace.mapEntry_cases (pageEntry f.addr prot) hpml4 (by rw [hboot, hi]; exact hshared)
  · have hmem : ∀ g ∈ dst :: own₂.frames, ∃ c, g ∈ l₀ c := by
      intro g hmem
      by_contra hnot
      rcases List.mem_cons.mp hmem with rfl | hmem
      · exact hnot (h.frames_mem _ (.head _))
      · refine hg.notMem_frames (fun hold => hnot (h.frames_mem g (.tail _ hold)))
          (fun c hc => ?_) hmem
        exact hnot ⟨c, hsub c g hc⟩
    refine .inr ⟨l₂, own₂, ?_⟩
    rw [Phys.copyPage, mapPage, hmap]
    refine ⟨hg.toSpace.writeLeaf hpt, fun g hg₀ => ?_, fun c g hc => hsub c g (hg.sub c g hc), hmem⟩
    have hne : g ≠ pt := by
      rintro rfl
      obtain ⟨c, hc⟩ := hmem g (mem_root_frames hpt)
      exact hg₀ c hc
    rw [write_of_frame_ne _ _ _ hne, hg.rows g (fun hown => ?_) fun c hc => hg₀ c (hsub c g hc),
      hrows g fun c hc => hg₀ c (h.sub c g hc), h.rows g hg₀]
    obtain ⟨c, hc⟩ := h.frames_mem g (.tail _ hown)
    exact hg₀ c hc
  · exact .inl ⟨l₂, hfree, hl⟩

def andThen (r : Bool × Phys) (f : Phys → Bool × Phys) : Bool × Phys :=
  match r with
  | (false, m) => (false, m)
  | (true, m) => f m

section Loops

-- the loops are not to be run over the indices
attribute [local irreducible] indices

theorem clonePt_cons : clonePt p dst i j pt (k :: ks) m =
    if present (m.mem pt k) ∧ cloned p (leafTarget (m.mem pt k)) (vaddrOf i j k) then
      if (m.pmmAlloc none).1 = 0 then (false, (m.pmmAlloc none).2)
      else clonePt p dst i j pt ks
        ((m.pmmAlloc none).2.copyPage dst (m.pmmAlloc none).1 (leafTarget (m.mem pt k))
          (vaddrOf i j k) (cloneProt
            (((m.pmmAlloc none).2.copyFrame (m.pmmAlloc none).1
            (leafTarget (m.mem pt k))).mem pt k)))
    else clonePt p dst i j pt ks m := rfl

theorem clonePd_cons : clonePd p dst i pd (j :: js) m =
    if ¬ present (m.mem pd j) ∨ large (m.mem pd j) then clonePd p dst i pd js m
    else andThen (clonePt p dst i j (target (m.mem pd j)) indices m) (clonePd p dst i pd js) := rfl

theorem clonePdpt_cons : clonePdpt p dst src (i :: is) m =
    if ¬ present (m.mem src i) ∨ target (m.mem src i) = target (m.mem p.bootPdpt i) then
      clonePdpt p dst src is m
    else andThen (clonePd p dst i (target (m.mem src i)) indices m) (clonePdpt p dst src is) := rfl

theorem cloneAddressSpace_eq : m.cloneAddressSpace p src =
    if (m.createAddressSpace p).1 = 0 then (0, (m.createAddressSpace p).2)
    else if ¬ present ((m.createAddressSpace p).2.mem src 0) then m.createAddressSpace p
    else
      let r := clonePdpt p (m.createAddressSpace p).1
        (target ((m.createAddressSpace p).2.mem src 0)) indices
        (m.createAddressSpace p).2
      (if r.1 then (m.createAddressSpace p).1 else 0, r.2) := by
  unfold cloneAddressSpace
  generalize m.createAddressSpace p = a
  obtain ⟨dst, m₁⟩ := a
  dsimp only
  generalize clonePdpt p dst (target (m₁.mem src 0)) indices m₁ = r
  obtain ⟨_ | _, m₂⟩ := r <;> rfl

/-- The state of a loop of `arch_vm_clone_address_space`: no frame is free, or the space is intact
and `q` holds. -/
def Going (p : Platform) (m₀ : Phys) (l₀ : Fin 8 → List Frame) (dst pdpt : Frame) (q : Prop)
    (m : Phys) : Prop :=
  m.FreeFrames 0 ∨ q ∧ ∃ l own, Copied p m₀ l₀ dst pdpt m l own

def Ends (p : Platform) (m₀ : Phys) (l₀ : Fin 8 → List Frame) (dst pdpt : Frame) (q : Prop)
    (r : Bool × Phys) : Prop :=
  Going p m₀ l₀ dst pdpt q r.2 ∧ (r.1 = false → r.2.FreeFrames 0)

variable {q q' : Prop}

theorem Ends.andThen {r : Bool × Phys} {f : Phys → Bool × Phys} (h : Ends p m₀ l₀ dst pdpt q r)
    (hq : q → q') (hf : ∀ m, Going p m₀ l₀ dst pdpt q' m → Ends p m₀ l₀ dst pdpt q' (f m)) :
    Ends p m₀ l₀ dst pdpt q' (andThen r f) := by
  obtain ⟨_ | _, m₁⟩ := r
  · exact ⟨.inl (h.2 rfl), h.2⟩
  · exact hf m₁ (h.1.imp_right fun hc => ⟨hq hc.1, hc.2⟩)

theorem ends_clonePt (hpool : Pool p m₀ l₀)
    (h : Going p m₀ l₀ dst pdpt (¬ Shared (m₀.mem p.bootPdpt) i) m) :
    Ends p m₀ l₀ dst pdpt (¬ Shared (m₀.mem p.bootPdpt) i) (clonePt p dst i j pt ks m) := by
  induction ks generalizing m with
  | nil => exact ⟨h, fun hc => by cases hc⟩
  | cons k ks ih =>
    rw [clonePt_cons]
    split
    · rcases h with ⟨l, hfree, hl⟩ | ⟨hown, l, own, hc⟩
      · rcases hfree.pmmAlloc none with ⟨hz, -, hfree, -⟩ | ⟨l', ha⟩
        · rw [if_pos hz]
          exact ⟨.inl ⟨l, hfree, hl⟩, fun _ => ⟨l, hfree, hl⟩⟩
        · have := ha.total
          omega
      · rcases hc.free.pmmAlloc none with ⟨hz, -, hfree, hl⟩ | ⟨l', ha⟩
        · rw [if_pos hz]
          exact ⟨.inl ⟨l, hfree, hl rfl⟩, fun _ => ⟨l, hfree, hl rfl⟩⟩
        · rw [if_neg (hc.free.ne_zero ha.mem_list)]
          exact ih ((hc.copyPage hpool ha hown _ _).imp_right fun hcopied => ⟨hown, hcopied⟩)
    · exact ih h

theorem ends_clonePd (hpool : Pool p m₀ l₀)
    (h : Going p m₀ l₀ dst pdpt (¬ Shared (m₀.mem p.bootPdpt) i) m) :
    Ends p m₀ l₀ dst pdpt (¬ Shared (m₀.mem p.bootPdpt) i) (clonePd p dst i pd js m) := by
  induction js generalizing m with
  | nil => exact ⟨h, fun hc => by cases hc⟩
  | cons j js ih =>
    rw [clonePd_cons]
    split
    · exact ih h
    · exact (ends_clonePt hpool h).andThen id fun m hm => ih hm

theorem ends_clonePdpt (hpool : Pool p m₀ l₀) (hsrc : ∀ c, src ∉ l₀ c)
    (hshared : ∀ i, Shared (m₀.mem p.bootPdpt) i →
      target (m₀.mem src i) = target (m₀.mem p.bootPdpt i)) (h : Going p m₀ l₀ dst pdpt True m) :
    Ends p m₀ l₀ dst pdpt True (clonePdpt p dst src is m) := by
  induction is generalizing m with
  | nil => exact ⟨h, fun hc => by cases hc⟩
  | cons i is ih =>
    rw [clonePdpt_cons]
    split
    · exact ih h
    rename_i hown
    refine (ends_clonePd hpool ?_).andThen (fun _ => trivial) fun m hm => ih hm
    refine h.imp_right fun ⟨_, l, own, hc⟩ => ⟨fun hs => ?_, l, own, hc⟩
    rw [hc.rows _ hsrc, hc.rows _ hpool.boot, not_or] at hown
    exact hown.2 (hshared i hs)

/-- A cloned address space has the kernel's entries for the gigabytes of the kernel. -/
structure Clonable (p : Platform) (m : Phys) (l : Fin 8 → List Frame) (src : Frame) : Prop where
  root : ∀ c, src ∉ l c
  pdpt : ∀ c, target (m.mem src 0) ∉ l c
  shared : ∀ i, Shared (m.mem p.bootPdpt) i →
    target (m.mem (target (m.mem src 0)) i) = target (m.mem p.bootPdpt i)

/-- **Clone.**  When cloning fails, no frame is free. -/
theorem freeFrames_cloneAddressSpace (h : Pool p m l) (hsrc : Clonable p m l src)
    (hfail : (m.cloneAddressSpace p src).1 = 0) : (m.cloneAddressSpace p src).2.FreeFrames 0 := by
  rw [cloneAddressSpace_eq] at hfail ⊢
  rcases createAddressSpace_cases h with ⟨-, hz, hfree⟩ | ⟨pdpt, l₁, hc⟩
  · rw [if_pos hz]
    exact hfree
  generalize m.createAddressSpace p = r at *
  obtain ⟨dst, m₁⟩ := r
  have hdst := Created.root_ne_zero h hc
  dsimp only at *
  rw [if_neg hdst] at hfail ⊢
  split
  · rename_i hp
    rw [if_pos hp] at hfail
    exact absurd hfail hdst
  · rename_i hp
    rw [if_neg hp] at hfail
    rw [hc.rows src hsrc.root] at hfail ⊢
    refine (ends_clonePdpt h hsrc.pdpt hsrc.shared
      (.inr ⟨trivial, l₁, _, hc.toSpace.partly, hc.rows, hc.sub, hc.mem⟩)).2
        (Bool.eq_false_of_not_eq_true fun hok => ?_)
    rw [if_pos hok] at hfail
    exact hdst hfail

end Loops

/-! ## Leaks -/

/-- **No leaks.**  Mapping and destroying leaks nothing if the pages fit.  Creating and cloning leak
all that is free when they fail, so that creating leaks nothing exactly if there was not one free
frame, and cloning exactly if there was none. -/
theorem leaksNothing_of_fits (h : Pool p m l) :
    (∀ maps : List PageMap, (∀ x ∈ maps, InUse p l x.frame) → (maps.map PageMap.frame).Nodup →
      Fits p m l maps → (m.lifetime p maps).FreeFrames (Free.total l + maps.length)) ∧
    ((m.createAddressSpace p).1 = 0 →
      ((m.createAddressSpace p).2.FreeFrames (Free.total l) ↔ Free.total l ≠ 1)) ∧
    ∀ src, Clonable p m l src → (m.cloneAddressSpace p src).1 = 0 →
      ((m.cloneAddressSpace p src).2.FreeFrames (Free.total l) ↔ Free.total l = 0) := by
  refine ⟨fun maps huse honce hfits => freeFrames_lifetime h huse honce hfits, fun hfail => ?_,
    fun src hsrc hfail => ?_⟩
  · rcases createAddressSpace_cases h with ⟨hlt, -, l', hfree, hl⟩ | ⟨pdpt, l', hc⟩
    · rw [hfree.freeFrames_iff]
      omega
    · exact absurd hfail (Created.root_ne_zero h hc)
  · obtain ⟨l', hfree, hl⟩ := freeFrames_cloneAddressSpace h hsrc hfail
    rw [hfree.freeFrames_iff]
    omega

instance (m : Phys) (l : Fin 8 → List Frame) : Decidable (m.Free l) :=
  decidable_of_iff (∀ c, Lib.Chain m.link (Lib.ptr (m.freeHead c)) (l c) ∧ (l c).all fun f =>
    colorOf f = c)
    ⟨fun h => ⟨fun c => (h c).1, fun {c f} hf => by simpa using List.all_eq_true.mp (h c).2 f hf⟩,
      fun h c => ⟨h.chain c, List.all_eq_true.mpr fun f hf => by simpa using h.color hf⟩⟩

def kernelFree : Fin 8 → List Frame := fun c => [BitVec.ofNat 52 (c.val + 16)]

theorem pool_kernelMemory : Pool kernelPlatform kernelMemory kernelFree where
  free := by decide +kernel
  boot := by decide +kernel
  kernel := by decide +kernel
  low c f hf := by
    obtain rfl := List.mem_singleton.mp hf
    revert c
    decide +kernel

def pageAt (va : Word) : PageMap := ⟨va, 40, 0xB⟩

/-- A page in the second gigabyte is given back, with its tables. -/
theorem leaksNothing_of_fits_pageAt :
    kernelMemory.FreeFrames 8 ∧
      (kernelMemory.lifetime kernelPlatform [pageAt 0x40000000]).FreeFrames 9 := by
  refine ⟨⟨kernelFree, pool_kernelMemory.free, by decide⟩, ?_⟩
  refine (leaksNothing_of_fits pool_kernelMemory).1 [pageAt 0x40000000] (fun x hx => ?_) (by simp)
    ⟨fun x hx => ?_, by simp, by decide⟩
  · obtain rfl := List.mem_singleton.mp hx
    exact ⟨by decide, by decide, by decide, by decide, by decide +kernel⟩
  · obtain rfl := List.mem_singleton.mp hx
    exact ⟨by decide, by unfold Shared; decide +kernel, by decide +kernel⟩

def oneFrame : Phys := (⟨fun _ _ => 0, fun _ => 0, 0⟩ : Phys).pmmFree 16

/-- An address space with two pages, and the memory with it: four frames are free. -/
def withPages : Frame × Phys :=
  let (root, m) := kernelMemory.createAddressSpace kernelPlatform
  (root, mapAll root [pageAt 0x40000000, { pageAt 0x40001000 with frame := 41 }] m)

/-- A page at the address 2³⁹ is not given back, and neither are its three tables.  Creating an
address space with one free frame fails and keeps it; cloning one with four free frames fails and
keeps them. -/
theorem not_leaksNothing_pageAt :
    ¬ (kernelMemory.lifetime kernelPlatform [pageAt 0x8000000000]).FreeFrames 9 ∧
      (oneFrame.FreeFrames 1 ∧ (oneFrame.createAddressSpace kernelPlatform).1 = 0 ∧
        ¬ (oneFrame.createAddressSpace kernelPlatform).2.FreeFrames 1) ∧
      withPages.2.FreeFrames 4 ∧ (withPages.2.cloneAddressSpace kernelPlatform withPages.1).1 = 0 ∧
        ¬ (withPages.2.cloneAddressSpace kernelPlatform withPages.1).2.FreeFrames 4 := by
  have hhigh : (kernelMemory.lifetime kernelPlatform [pageAt 0x8000000000]).Free
      (fun c => if 2 ≤ c ∧ c ≤ 4 then [] else kernelFree c) := by decide +kernel
  have hone : oneFrame.Free (fun c => if c = 0 then [16] else []) := by decide +kernel
  have hcreate : (oneFrame.createAddressSpace kernelPlatform).2.Free (fun _ => []) := by
    decide +kernel
  have hpage : withPages.2.Free (fun c => if c ≤ 3 then [] else kernelFree c) := by decide +kernel
  have hclone : (withPages.2.cloneAddressSpace kernelPlatform withPages.1).2.Free (fun _ => []) :=
    by decide +kernel
  rw [hhigh.freeFrames_iff, hone.freeFrames_iff, hcreate.freeFrames_iff, hpage.freeFrames_iff,
    hclone.freeFrames_iff]
  exact ⟨by decide, ⟨by decide, by decide +kernel, by decide⟩, by decide,
    by decide +kernel, by decide⟩

end Robu.Phys
