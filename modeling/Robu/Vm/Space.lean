import Robu.Lib.Radix
import Robu.Vm.PageTable

/-!
# The tables of an address space

The frames of an address space form a tree: the page-directory-pointer table, the tables below it,
and the pages that `arch_vm_destroy_address_space` gives back.  `Space` says that the tree is
intact: no frame is in it twice, none is free, and what is in its tables is what the tree says.

Mapping a page keeps this, if the page is none of the kernel's and not mapped yet, and there is
memory for the tables; else the memory of the allocator is used up.
-/

namespace Robu

open Lib.Radix

variable {e : Word} {path : List Index} {T U f root pdpt : Frame} {i j k : Index}

theorem present_tableEntry (f : Frame) : present (tableEntry f) = true := by
  rw [present, tableEntry, BitVec.getLsbD_append, if_pos (by decide)]
  decide

theorem large_tableEntry (f : Frame) : large (tableEntry f) = false := by
  rw [large, tableEntry, BitVec.getLsbD_append, if_pos (by decide)]
  decide

theorem target_tableEntry (f : Frame) : target (tableEntry f) = f := target_append ..

theorem present_zero : present 0 = false := by decide

theorem nodup_indices : indices.Nodup := by
  refine (List.nodup_range).map_on fun a ha b hb hab => ?_
  rw [List.mem_range] at ha hb
  have := congrArg BitVec.toNat hab
  simp only [BitVec.toNat_ofNat] at this
  omega

theorem mem_indices (i : Index) : i ∈ indices :=
  List.mem_map.mpr ⟨i.toNat, List.mem_range.mpr i.isLt, by simp⟩

namespace Phys

variable {p : Platform} {m m' m₁ m₂ : Phys} {l l' l₁ l₂ : Fin 8 → List Frame} {boot : Index → Word}
  {full : Prop}
  {own own₁ own₂ : Tree Index Frame}

def Shared (boot : Index → Word) (i : Index) : Prop :=
    (i = 0 ∨ i = 2 ∨ i = 3) ∧ present (boot i) = true
deriving Decidable

/-- The frame that `arch_vm_destroy_address_space` frees for an entry of a page table. -/
def leafOf (p : Platform) (i j k : Index) (e : Word) : Option Frame :=
  if present e ∧ managed p (leafTarget e) ∧ ¬ hwMmioWindow.contains (vaddrOf i j k) then
    some (leafTarget e) else none

def Entry (e : Word) : Option Frame → Prop
  | none => present e = false
  | some f => e = tableEntry f

/-- What is in a table where the tree has a frame or none, by the indices that lead there.  The
pages count only if the space is `full`. -/
def Content (p : Platform) (boot : Index → Word) (full : Prop) :
    List Index → Word → Option Frame → Prop
  | [i], e, o =>
    if Shared boot i then e = boot i ∧ o = none else Entry e o ∧ o ≠ some (target (boot i))
  | [_, _], e, o => Entry e o
  | [i, j, k], e, o => full → o = leafOf p i j k e
  | _, _, o => o = none

/-- **Spaces.**  The tree `own` of an address space. -/
structure Space (p : Platform) (m : Phys) (l : Fin 8 → List Frame) (root pdpt : Frame) (full : Prop)
    (own : Tree Index Frame) : Prop where
  free : m.Free l
  top : m.mem root 0 = tableEntry pdpt
  find_nil : own.find [] = some pdpt
  nodup : (root :: own.frames).Nodup
  clear : ∀ f ∈ root :: own.frames, f ≠ 0 ∧ ∀ c, f ∉ l c
  boot : p.bootPdpt ∉ root :: own.frames ∧ ∀ c, p.bootPdpt ∉ l c
  kernel : ∀ i c, target (m.mem p.bootPdpt i) ∉ l c
  closed : ∀ path i, (own.find (path ++ [i])).isSome → (own.find path).isSome
  content : ∀ path T i, own.find path = some T →
    Content p (m.mem p.bootPdpt) full (path ++ [i]) (m.mem T i) (own.find (path ++ [i]))

theorem leafOf_zero :
    leafOf p i j k 0 = none := if_neg fun h => Bool.false_ne_true (present_zero.symm.trans h.1)

theorem content_zero (h : 2 ≤ path.length) : Content p boot full path 0 none := by
  rcases path with _ | ⟨i, _ | ⟨j, _ | ⟨k, _ | ⟨a, path⟩⟩⟩⟩
  · simp at h
  · simp at h
  · exact present_zero
  · exact fun _ => leafOf_zero.symm
  · rfl

theorem content_tableEntry (h : path.length < 2) (hi : ¬ (path = [] ∧ Shared boot i))
    (hf : f ≠ target (boot i)) : Content p boot full (path ++ [i]) (tableEntry f) (some f) := by
  rcases path with _ | ⟨a, _ | ⟨b, path⟩⟩
  · exact (if_neg fun hs => hi ⟨rfl, hs⟩).mpr ⟨rfl, fun heq => hf (Option.some.inj heq)⟩
  · rfl
  · exact absurd h (by simp)

theorem mem_root_frames (hT : own.find path = some T) : T ∈ root :: own.frames :=
  .tail _ (Tree.mem_frames.mpr ⟨path, hT⟩)

namespace Space

variable (h : Space p m l root pdpt full own)

include h

theorem find_inj {path' : List Index} (hT : own.find path = some T)
    (hT' : own.find path' = some T) : path = path' :=
  Tree.find_inj (List.nodup_cons.mp h.nodup).2 hT hT'

theorem find_none (hnone : own.find path = none) (i : Index) : own.find (path ++ [i]) = none := by
  cases hU : own.find (path ++ [i]) with
  | none => rfl
  | some U =>
    have hsome := h.closed path i (Option.isSome_of_eq_some hU)
    rw [hnone] at hsome
    cases hsome

theorem length_le (hT : (own.find path).isSome) : path.length ≤ 3 := by
  induction path using List.reverseRecOn with
  | nil => exact Nat.zero_le _
  | append_singleton path i ih =>
    obtain ⟨U, hU⟩ := Option.isSome_iff_exists.mp (h.closed path i hT)
    have hcontent := h.content path U i hU
    rcases path with _ | ⟨a, _ | ⟨b, _ | ⟨c, path⟩⟩⟩
    · simp
    · simp
    · simp
    · have hnone : own.find (a :: b :: c :: path ++ [i]) = none := by
        cases path <;> exact hcontent
      rw [hnone] at hT
      cases hT

theorem entry (hT : own.find path = some T) (hlen : path.length < 2)
    (hi : ¬ (path = [] ∧ Shared (m.mem p.bootPdpt) i)) :
    Entry (m.mem T i) (own.find (path ++ [i])) := by
  have hcontent := h.content path T i hT
  rcases path with _ | ⟨a, _ | ⟨b, path⟩⟩
  · exact ((if_neg fun hs => hi ⟨rfl, hs⟩).mp hcontent).1
  · exact hcontent
  · exact absurd hlen (by simp)

/-! ## Changes -/

/-- Memory changes only in frames that are free. -/
theorem keep (hfree : m'.Free l') (hsub : ∀ c, ∀ f ∈ l' c, f ∈ l c)
    (hrows : ∀ f, (∀ c, f ∉ l c) → m'.mem f = m.mem f) : Space p m' l' root pdpt full own := by
  have hboot := hrows _ h.boot.2
  have hrow : ∀ f ∈ root :: own.frames, m'.mem f = m.mem f := fun f hf => hrows f (h.clear f hf).2
  refine ⟨hfree, by rw [hrow _ (.head _)]; exact h.top, h.find_nil, h.nodup, fun f hf => ?_,
    ⟨h.boot.1, fun c hc => h.boot.2 c (hsub c _ hc)⟩, fun i c hc =>
      ?_, h.closed, fun path T i hT => ?_⟩
  · exact ⟨(h.clear f hf).1, fun c hc => (h.clear f hf).2 c (hsub c f hc)⟩
  · rw [hboot] at hc
    exact h.kernel i c (hsub c _ hc)
  · rw [hboot, hrow _ (mem_root_frames hT)]
    exact h.content path T i hT

/-- **A new frame.**  A word is stored in a table where the tree had nothing. -/
theorem store (hT : own.find path = some T) (hnone : own.find (path ++ [i]) = none)
    (hword : ∀ j, j ≠ i → m'.mem T j = m.mem T j)
    (hrows : ∀ f, f ≠ T → (∀ c, f ∉ l c) → m'.mem f = m.mem f)
    (hfree : m'.Free l') (hsub : ∀ c, ∀ f ∈ l' c, f ∈ l c) (hne : U ≠ 0) (hclear : ∀ c, U ∉ l' c)
    (hout : U ∉ root :: own.frames) (hkernel : U ≠ p.bootPdpt)
    (hself : Content p (m.mem p.bootPdpt) full (path ++ [i]) (m'.mem T i) (some U))
    (hnew : ∀ j, Content p (m.mem p.bootPdpt) full (path ++ [i] ++ [j]) (m'.mem U j) none) :
    Space p m' l' root pdpt full (own.insert (path ++ [i]) U) := by
  have hboot : m'.mem p.bootPdpt = m.mem p.bootPdpt :=
    hrows _ (fun heq => h.boot.1 (heq ▸ mem_root_frames hT)) h.boot.2
  obtain ⟨hroot, hframes⟩ := List.nodup_cons.mp h.nodup
  have hrootRow : m'.mem root = m.mem root := by
    refine hrows root ?_ (h.clear root (.head _)).2
    rintro rfl
    exact hroot (Tree.mem_frames.mpr ⟨path, hT⟩)
  rw [List.mem_cons, not_or] at hout
  have hmem : ∀ {f}, f ∈ root :: (own.insert (path ++ [i]) U).frames ↔ f = U ∨
    f ∈ root :: own.frames := by
    intro f
    rw [Tree.frames_insert hnone]
    simp only [List.mem_cons]
    exact or_left_comm
  refine ⟨hfree, by rw [hrootRow]; exact h.top, ?_, ?_, fun f hf => ?_,
    ⟨fun hb => (hmem.mp hb).elim (Ne.symm hkernel) h.boot.1, fun c hc => h.boot.2 c (hsub c _ hc)⟩,
      fun a c hc => ?_,
    fun path' j hj => ?_, fun path' V j hV => ?_⟩
  · rw [Tree.find_insert_of_ne (by simp)]
    exact h.find_nil
  · rw [Tree.frames_insert hnone, List.nodup_cons, List.mem_cons, not_or, List.nodup_cons]
    exact ⟨⟨Ne.symm hout.1, hroot⟩, hout.2, hframes⟩
  · rcases hmem.mp hf with rfl | hf
    · exact ⟨hne, hclear⟩
    · exact ⟨(h.clear f hf).1, fun c hc => (h.clear f hf).2 c (hsub c f hc)⟩
  · rw [hboot] at hc
    exact h.kernel a c (hsub c _ hc)
  · by_cases hnew : path' = path ++ [i]
    · rw [hnew, Tree.find_insert]
      rfl
    rw [Tree.find_insert_of_ne hnew]
    by_cases heq : path' ++ [j] = path ++ [i]
    · rw [(List.append_inj' heq rfl).1, hT]
      rfl
    · rw [Tree.find_insert_of_ne heq] at hj
      exact h.closed path' j hj
  · rw [hboot]
    by_cases heq : path' = path ++ [i]
    · subst heq
      rw [Tree.find_insert] at hV
      obtain rfl := Option.some.inj hV
      rw [Tree.find_insert_of_ne (by simp), h.find_none hnone]
      exact hnew j
    rw [Tree.find_insert_of_ne heq] at hV
    by_cases hij : path' ++ [j] = path ++ [i]
    · obtain ⟨rfl, hji⟩ := List.append_inj' hij rfl
      obtain rfl := List.singleton_inj.mp hji
      obtain rfl := Option.some.inj (hV.symm.trans hT)
      rw [Tree.find_insert]
      exact hself
    · have hsame : m'.mem V j = m.mem V j := by
        rcases eq_or_ne V T with rfl | hVT
        · refine hword j ?_
          rintro rfl
          exact hij (by rw [h.find_inj hV hT])
        · exact congrFun (hrows V hVT (h.clear V (mem_root_frames hV)).2) j
      rw [Tree.find_insert_of_ne hij, hsame]
      exact h.content path' V j hV

/-! ## Destroying -/

theorem nodup_below {d : Nat} (hT : own.find path = some T) :
    (below own.find indices d path indices).Nodup ∧ T ∉ below own.find indices d path indices := by
  have hnodup : (branch own.find indices d path).Nodup := nodup_branch nodup_indices fun _ _ _ =>
    h.find_inj
  rw [branch_of_some hT] at hnodup
  obtain ⟨hbelow, -, hdisj⟩ := List.nodup_append'.mp hnodup
  exact ⟨hbelow, fun hmem => hdisj hmem (List.mem_singleton_self T)⟩

end Space

theorem mem_pmmFree_of_ne (m : Phys) (f g : Frame) (h : g ≠ f) : (m.pmmFree f).mem g = m.mem g :=
  m.write_of_frame_ne 0 _ h

namespace Space

variable (h : Space p m l root pdpt True own)

include h

theorem destroyPt_eq (hT : own.find [i, j] = some T) (hrow : m'.mem T = m.mem T) :
    destroyPt p i j T indices m' = (below own.find indices 1 [i, j] indices).foldl pmmFree m' := by
  obtain ⟨hnodup, hnot⟩ := h.nodup_below (d := 1) hT
  refine walk_eq_foldl mem_pmmFree_of_ne (fun k m => if present (m.mem T k) ∧
    managed p (leafTarget (m.mem T k)) ∧
      ¬ hwMmioWindow.contains (vaddrOf i j k) then m.pmmFree (leafTarget (m.mem T k)) else m) [T]
        (fun _ => rfl)
    (fun k ks m => ?_) (fun k m₁ hm => ?_) hnodup (by simpa using hnot)
  · rw [destroyPt]
    split <;> rfl
  · have hleaf : own.find ([i, j] ++ [k]) = leafOf p i j k (m₁.mem T k) := by
      rw [hm T (by simp), hrow]
      exact h.content [i, j] T k hT trivial
    unfold leafOf at hleaf
    split
    · rename_i hk
      rw [if_pos hk] at hleaf
      rw [branch_of_some hleaf]
      rfl
    · rename_i hk
      rw [if_neg hk] at hleaf
      rw [branch_of_none hleaf]
      rfl

theorem destroyPd_eq (hT : own.find [i] = some T)
    (hrows : ∀ f ∈ T :: below own.find indices 2 [i] indices, m'.mem f = m.mem f) :
    destroyPd p i T indices m' = (below own.find indices 2 [i] indices).foldl pmmFree m' := by
  obtain ⟨hnodup, hnot⟩ := h.nodup_below (d := 2) hT
  refine walk_eq_foldl mem_pmmFree_of_ne (fun j m => if ¬ present (m.mem T j) then m
      else if large (m.mem T j) then
        if managed p (align2M (target (m.mem T j)) &&& ~~~nxBit) then
          m.pmmFree (align2M (target (m.mem T j)) &&& ~~~nxBit)
        else m
      else (destroyPt p i j (target (m.mem T j)) indices m).pmmFree (target (m.mem T j))) [T]
        (fun _ => rfl)
    (fun j js m => ?_) (fun j m₁ hm => ?_) hnodup (by simpa using hnot)
  · rw [destroyPd]
    dsimp only
    split
    · rfl
    split
    · split <;> rfl
    · rfl
  · have hentry := h.entry (i := j) hT (by simp) (by simp)
    rw [← hrows T (.head _), ← hm T (by simp)] at hentry
    cases hU : own.find ([i] ++ [j]) with
    | none =>
      rw [hU] at hentry
      rw [branch_of_none hU, if_pos (by rw [hentry]; exact Bool.false_ne_true)]
      rfl
    | some U =>
      have heq : m₁.mem T j = tableEntry U := by rwa [hU] at hentry
      have hbranch : U ∈ branch own.find indices 1 ([i] ++ [j]) := by
        rw [branch_of_some hU]
        exact List.mem_append_right _ (.head _)
      have hrow : m₁.mem U = m.mem U := (hm U (List.mem_append_right _ hbranch)).trans
        (hrows U (.tail _ (List.mem_flatMap.mpr ⟨j, mem_indices j, hbranch⟩)))
      rw [heq, present_tableEntry, large_tableEntry, target_tableEntry, if_neg (by simp),
        if_neg (by simp), h.destroyPt_eq hU hrow, branch_of_some hU, List.foldl_append,
          List.foldl_cons, List.foldl_nil]
      rfl

/-- The walk frees the frames below the table, leaves first. -/
theorem destroyPdpt_eq (hrows : ∀ f ∈ [pdpt, p.bootPdpt] ++ below own.find indices 3 [] indices,
    m'.mem f = m.mem f) : destroyPdpt p pdpt indices m' =
      (below own.find indices 3 [] indices).foldl pmmFree m' := by
  obtain ⟨hnodup, hnot⟩ := h.nodup_below (d := 3) h.find_nil
  have hboot : p.bootPdpt ∉ below own.find indices 3 [] indices := by
    intro hmem
    have hbranch : p.bootPdpt ∈ branch own.find indices 3 [] := by
      rw [branch_of_some h.find_nil]
      exact List.mem_append_left _ hmem
    obtain ⟨path, -, hpath⟩ := exists_of_mem_branch hbranch
    exact h.boot.1 (mem_root_frames hpath)
  refine walk_eq_foldl mem_pmmFree_of_ne (fun i m =>
      if ¬ present (m.mem pdpt i) ∨ target (m.mem pdpt i) = target (m.mem p.bootPdpt i) then m
      else (destroyPd p i (target (m.mem pdpt i)) indices m).pmmFree (target (m.mem pdpt i)))
        [pdpt, p.bootPdpt]
    (fun _ => rfl) (fun i is m => ?_) (fun i m₁ hm => ?_) hnodup (by simpa using ⟨hnot, hboot⟩)
  · rw [destroyPdpt]
    split <;> rfl
  · have hcontent := h.content [] pdpt i h.find_nil
    rw [hm _ (by simp), hm p.bootPdpt (by simp), hrows pdpt (by simp), hrows p.bootPdpt (by simp)]
    by_cases hshared : Shared (m.mem p.bootPdpt) i
    · obtain ⟨heq, hnone⟩ := (if_pos hshared).mp hcontent
      rw [branch_of_none hnone, if_pos (.inr (by rw [heq]))]
      rfl
    obtain ⟨hentry, hother⟩ := (if_neg hshared).mp hcontent
    cases hU : own.find ([] ++ [i]) with
    | none =>
      rw [hU] at hentry
      rw [branch_of_none hU, if_pos (.inl (by rw [hentry]; exact Bool.false_ne_true))]
      rfl
    | some U =>
      have heq : m.mem pdpt i = tableEntry U := by rwa [hU] at hentry
      have hne : U ≠ target (m.mem p.bootPdpt i) := by
        rintro rfl
        exact hother hU
      have hbranch : ∀ f ∈ U :: below own.find indices 2 ([] ++ [i]) indices,
        m₁.mem f = m.mem f := by
        intro f hf
        have hmem : f ∈ branch own.find indices 2 ([] ++ [i]) := by
          rw [branch_of_some hU]
          exact (List.perm_append_singleton ..).mem_iff.mpr hf
        exact (hm f (List.mem_append_right _ hmem)).trans
          (hrows f (List.mem_append_right _ (List.mem_flatMap.mpr ⟨i, mem_indices i, hmem⟩)))
      rw [heq, present_tableEntry, target_tableEntry, if_neg (by simpa using hne),
        h.destroyPd_eq hU hbranch, branch_of_some hU, List.foldl_append, List.foldl_cons,
          List.foldl_nil]
      rfl

end Space

theorem Free.foldl_pmmFree (h : m.Free l) {fs : List Frame} (hnodup : fs.Nodup)
    (hfs : ∀ f ∈ fs, f ≠ 0 ∧ ∀ c, f ∉ l c) :
    ∃ l', (fs.foldl Phys.pmmFree m).Free l' ∧ Free.total l' = Free.total l + fs.length ∧
      ∀ f, (∃ c, f ∈ l' c) ↔ f ∈ fs ∨ ∃ c, f ∈ l c := by
  induction fs generalizing m l with
  | nil => exact ⟨l, h, rfl, by simp⟩
  | cons f fs ih =>
    obtain ⟨hf, hnodup⟩ := List.nodup_cons.mp hnodup
    obtain ⟨hne, hout⟩ := hfs f (.head _)
    have hrest : ∀ g ∈ fs, g ≠ 0 ∧
      ∀ c, g ∉ Function.update l (colorOf f) (f :: l (colorOf f)) c := by
      intro g hg
      obtain ⟨hg0, hgout⟩ := hfs g (.tail _ hg)
      refine ⟨hg0, fun c hmem => ?_⟩
      rcases Lib.mem_update_cons.mp hmem with ⟨-, rfl⟩ | hmem
      · exact hf hg
      · exact hgout c hmem
    obtain ⟨l', hfree, htotal, hmem⟩ := ih (h.pmmFree hne hout) hnodup hrest
    have hcons : Free.total
      (Function.update (Function.update l (colorOf f) (f :: l (colorOf f))) (colorOf f)
        (l (colorOf f))) + 1 = _ := Free.total_cons (Function.update_self ..)
    rw [Function.update_idem, Function.update_eq_self] at hcons
    refine ⟨l', hfree, htotal.trans ?_, fun g => (hmem g).trans ?_⟩
    · rw [List.length_cons]
      omega
    · simp only [Lib.mem_update_cons, exists_or, exists_eq_left, List.mem_cons, or_left_comm,
        or_assoc]

/-- **Destroy.**  `arch_vm_destroy_address_space` frees the frames of the tree, and the top table.
-/
theorem Space.destroy (h : Space p m l root pdpt True own) :
    ∃ l', (m.destroyAddressSpace p root).Free l' ∧
      Free.total l' = Free.total l + own.frames.length + 1 ∧
      ∀ f, (∃ c, f ∈ l' c) ↔ f ∈ root :: own.frames ∨ ∃ c, f ∈ l c := by
  have hperm := perm_branch mem_indices nodup_indices (List.nodup_cons.mp h.nodup).2 h.closed
    fun _ => h.length_le
  have hall : (branch own.find indices 3 [] ++ [root]).Perm (root :: own.frames) :=
    (List.perm_append_singleton ..).trans (hperm.cons root)
  have hdestroy : m.destroyAddressSpace p root =
    (branch own.find indices 3 [] ++ [root]).foldl pmmFree m := by
    unfold destroyAddressSpace
    rw [h.top, present_tableEntry, if_pos rfl, branch_of_some h.find_nil]
    dsimp only
    rw [target_tableEntry, h.destroyPdpt_eq fun _ _ => rfl, List.foldl_append, List.foldl_append]
    rfl
  obtain ⟨l', hfree, htotal, hmem⟩ :=
    h.free.foldl_pmmFree (hall.nodup_iff.mpr h.nodup) fun f hf => h.clear f (hall.mem_iff.mp hf)
  refine ⟨l', by rw [hdestroy]; exact hfree, htotal.trans ?_, fun f => ?_⟩
  · rw [hall.length_eq]
    rfl
  · exact (hmem f).trans (or_congr_left hall.mem_iff)

/-! ## Mapping -/

/-- Without free frames, nothing a table walk writes is on a free list. -/
theorem Free.of_empty (h : m.Free l) (hl : Free.total l = 0) (hhead : m'.freeHead = m.freeHead) :
    m'.Free l := by
  refine h.congr hhead fun c f hf => ?_
  obtain ⟨g, rest, hc⟩ := List.exists_cons_of_ne_nil (List.ne_nil_of_mem hf)
  have := Free.total_cons hc
  omega

theorem getNextLevel_of_present (h : present (m.mem T i) = true) :
    m.getNextLevel T i = (target (m.mem T i), m) := if_pos h

theorem getNextLevel_of_absent (h : present (m.mem T i) = false) :
    m.getNextLevel T i = ((m.pmmAlloc none).1,
      (((m.pmmAlloc none).2.zero (m.pmmAlloc none).1).write T i
        (tableEntry (m.pmmAlloc none).1))) := by
  unfold getNextLevel
  rw [if_neg (by rw [h]; exact Bool.false_ne_true)]
  dsimp only
  rw [write_self, target_tableEntry]

theorem Free.getNextLevel (h : m.Free l) (hl : Free.total l = 0) (T : Frame) (i : Index) :
    (m.getNextLevel T i).2.Free l := by
  cases hp : present (m.mem T i) with
  | true => rwa [getNextLevel_of_present hp]
  | false =>
    rw [getNextLevel_of_absent hp]
    rcases h.pmmAlloc none with ⟨-, -, hfree, -⟩ | ⟨l', ha⟩
    · exact hfree.of_empty hl rfl
    · have := ha.total
      omega

/-- The entry of a page table, if it is present. -/
def leaf (m : Phys) (own : Tree Index Frame) (i j k : Index) : Option Word :=
  ((own.find [i, j]).map fun T => m.mem T k).filter present

/-- **Growth.**  Tables are added at the paths `new`, with frames from the allocator, and the rest
of memory is kept. -/
structure Grown (p : Platform) (m : Phys) (l : Fin 8 → List Frame) (root pdpt : Frame) (full : Prop)
    (own : Tree Index Frame) (new : List (List Index)) (m' : Phys) (l' : Fin 8 → List Frame)
    (own' : Tree Index Frame) : Prop extends Space p m' l' root pdpt full own' where
  keep : ∀ path T, own.find path = some T → own'.find path = some T
  added : ∀ path T, own'.find path = some T → own.find path = some T ∨ path ∈ new ∧ ∃ c, T ∈ l c
  rows : ∀ f, f ∉ own.frames → (∀ c, f ∉ l c) → m'.mem f = m.mem f
  leaf : m'.leaf own' = m.leaf own
  sub : ∀ c, ∀ f ∈ l' c, f ∈ l c
  count : Free.total l' + own'.frames.length = Free.total l + own.frames.length

namespace Grown

theorem refl (h : Space p m l root pdpt full own) (new : List (List Index)) :
    Grown p m l root pdpt full own new m l own :=
  ⟨h, fun _ _ hT => hT, fun _ _ hT => .inl hT, fun _ _ _ => rfl, rfl, fun _ _ hf => hf, rfl⟩

variable {new new' : List (List Index)} (h : Grown p m l root pdpt full own new m₁ l₁ own₁)

include h

theorem notMem_frames (hf : f ∉ own.frames) (hfree : ∀ c, f ∉ l c) : f ∉ own₁.frames := by
  intro hmem
  obtain ⟨path, hpath⟩ := Tree.mem_frames.mp hmem
  rcases h.added path f hpath with hT | ⟨-, c, hc⟩
  · exact hf (Tree.mem_frames.mpr ⟨path, hT⟩)
  · exact hfree c hc

theorem find_eq_none (hnone : own.find path = none) (hpath : path ∉ new) :
    own₁.find path = none := by
  rw [Option.eq_none_iff_forall_ne_some]
  intro T hT
  rcases h.added path T hT with hold | ⟨hmem, -⟩
  · rw [hnone] at hold
    cases hold
  · exact hpath hmem

theorem trans (h₂ : Grown p m₁ l₁ root pdpt full own₁ new' m₂ l₂ own₂) :
    Grown p m l root pdpt full own (new ++ new') m₂ l₂ own₂ := by
  refine ⟨h₂.toSpace, fun path T hT => h₂.keep path T (h.keep path T hT), fun path T hT =>
    ?_, fun f hf hfree => ?_, h₂.leaf.trans h.leaf, fun c f hf => h.sub c f (h₂.sub c f hf),
      h₂.count.trans h.count⟩
  · rcases h₂.added path T hT with hT | ⟨hmem, c, hc⟩
    · exact (h.added path T hT).imp_right fun ⟨hmem, hc⟩ => ⟨List.mem_append_left _ hmem, hc⟩
    · exact .inr ⟨List.mem_append_right _ hmem, c, h.sub c T hc⟩
  · rw [h₂.rows f (h.notMem_frames hf hfree) fun c hc => hfree c (h.sub c f hc), h.rows f hf hfree]

end Grown

namespace Space

variable (h : Space p m l root pdpt full own)

include h

/-- **One level.**  The walk finds the table, or makes it if there is memory. -/
theorem getNextLevel (hT : own.find path = some T) (hlen : path.length < 2)
    (hi : ¬ (path = [] ∧ Shared (m.mem p.bootPdpt) i)) :
    (∃ l' own', Grown p m l root pdpt full own [path ++ [i]] (m.getNextLevel T i).2 l' own' ∧
      own'.find (path ++ [i]) = some (m.getNextLevel T i).1) ∨
      Free.total l = 0 ∧ own.find (path ++ [i]) = none := by
  have hentry := h.entry hT hlen hi
  cases hU : own.find (path ++ [i]) with
  | some U =>
    have heq : m.mem T i = tableEntry U := by rwa [hU] at hentry
    rw [getNextLevel_of_present (by rw [heq]; exact present_tableEntry U), heq, target_tableEntry]
    exact .inl ⟨l, own, .refl h _, hU⟩
  | none =>
    rw [hU] at hentry
    rw [getNextLevel_of_absent hentry]
    rcases h.free.pmmAlloc none with ⟨-, -, -, hl⟩ | ⟨l', ha⟩
    · exact .inr ⟨hl rfl, rfl⟩
    generalize m.pmmAlloc none = r at *
    obtain ⟨new, m₁⟩ := r
    dsimp only at *
    have hTown : T ∈ root :: own.frames := mem_root_frames hT
    have hne : new ≠ T := by
      rintro rfl
      exact (h.clear _ hTown).2 _ ha.mem_list
    have hrow : ∀ f, f ≠ T → f ≠ new → ((m₁.zero new).write T i (tableEntry new)).mem f =
      m.mem f := by
      intro f hfT hfn
      rw [write_of_frame_ne _ _ _ hfT, zero_of_ne _ hfn, ha.mem, zero_of_ne _ hfn]
    have hrows : ∀ f, f ≠ T → (∀ c, f ∉ l c) → ((m₁.zero new).write T i (tableEntry new)).mem f =
      m.mem f := by
      intro f hfT hf
      refine hrow f hfT ?_
      rintro rfl
      exact hf _ ha.mem_list
    have hspace := h.store (U := new) hT hU (fun j hj => ?_) hrows ?_ (fun c f hf =>
      (ha.mem_iff.mp hf).1)
      (h.free.ne_zero ha.mem_list) (fun c hc => (ha.mem_iff.mp hc).2 rfl)
        (fun hmem => (h.clear _ hmem).2 _ ha.mem_list)
      (fun heq => h.boot.2 _ (heq ▸ ha.mem_list)) ?_ fun j => ?_
    · refine .inl ⟨l', _,
        ⟨hspace, fun path' V hV => ?_, fun path' V hV => ?_, fun f hf => hrows f ?_,
          ?_, fun c f hf => (ha.mem_iff.mp hf).1, ?_⟩, Tree.find_insert ..⟩
      · rwa [Tree.find_insert_of_ne]
        rintro rfl
        rw [hU] at hV
        cases hV
      · by_cases heq : path' = path ++ [i]
        · subst heq
          rw [Tree.find_insert] at hV
          obtain rfl := Option.some.inj hV
          exact .inr ⟨List.mem_singleton_self _, _, ha.mem_list⟩
        · rw [Tree.find_insert_of_ne heq] at hV
          exact .inl hV
      · rintro rfl
        exact hf (Tree.mem_frames.mpr ⟨path, hT⟩)
      · funext a b k
        unfold leaf
        by_cases heq : [a, b] = path ++ [i]
        · rw [heq, Tree.find_insert, hU, Option.map_some, write_of_frame_ne _ _ _ hne, zero_self]
          rfl
        · rw [Tree.find_insert_of_ne heq]
          refine congrArg _ (Option.map_congr fun V hV => congrFun
            (hrows V ?_ (h.clear V (mem_root_frames hV)).2) k)
          rintro rfl
          rw [← h.find_inj hV hT] at hlen
          exact absurd hlen (by simp)
      · rw [Tree.frames_insert hU, List.length_cons, ← ha.total]
        omega
    · rw [write_of_ne _ _ _ _ _ _ (fun hc => hj hc.2), zero_of_ne _ hne.symm, ha.mem,
        zero_of_ne _ hne.symm]
    · refine ha.free.congr rfl fun c f hf => ?_
      obtain ⟨hfl, hfn⟩ := ha.mem_iff.mp hf
      have hfT : f ≠ T := by
        rintro rfl
        exact (h.clear _ hTown).2 c hfl
      rw [hrow f hfT hfn, ha.mem, zero_of_ne _ hfn]
    · rw [write_self]
      exact content_tableEntry hlen hi fun heq => h.kernel i _ (heq ▸ ha.mem_list)
    · rw [write_of_frame_ne _ _ _ hne, zero_self]
      exact content_zero (by simp)

theorem free_write (hT : own.find path = some T) : (m.write T i e).Free l := by
  refine h.free.congr rfl fun c f hf => ?_
  have hne : f ≠ T := by
    rintro rfl
    exact (h.clear f (mem_root_frames hT)).2 c hf
  rw [write_of_frame_ne _ _ _ hne]

/-- **A new page.** -/
theorem addPage (hT : own.find [i, j] = some T) (hnone : own.find [i, j, k] = none)
    (hleaf : leafOf p i j k e = some U) (hne : U ≠ 0) (hclear : ∀ c, U ∉ l c)
    (hout : U ∉ root :: own.frames) (hkernel : U ≠ p.bootPdpt) :
    Space p (m.write T k e) l root pdpt full (own.insert [i, j, k] U) := by
  refine h.store hT hnone (fun a ha => write_of_ne _ _ _ _ _ _ fun hc => ha hc.2)
    (fun f hf _ => write_of_frame_ne _ _ _ hf) (h.free_write hT)
      (fun _ _ hf => hf) hne hclear hout hkernel ?_ fun _ => rfl
  rw [write_self]
  exact fun _ => hleaf.symm

def pathTo (va : Word) : List Index := [pdptIndex va, pdIndex va, ptIndex va]

/-- The tables on the way to the entry for an address, beside `tabs`. -/
def withTables (va : Word) (tabs : Finset (List Index)) : Finset (List Index) :=
  insert [pdptIndex va, pdIndex va] (insert [pdptIndex va] tabs)

/-- **Map.**  The tables for an address are found or made, or there is not enough memory for them,
and then no memory is left. -/
theorem mapEntry_cases {va : Word} (e : Word) (hva : pml4Index va = 0)
    (hshared : ¬ Shared (m.mem p.bootPdpt) (pdptIndex va)) :
    ∃ m' l' own', Grown p m l root pdpt full own [[pdptIndex va], [pdptIndex va, pdIndex va]] m'
      l' own' ∧
      ((∃ pt, own'.find [pdptIndex va, pdIndex va] = some pt ∧
        m.mapEntry root va e = m'.write pt (ptIndex va) e) ∨ Free.total l' = 0 ∧
          (m.mapEntry root va e).Free l' ∧
          ∃ path ∈ [[pdptIndex va], [pdptIndex va, pdIndex va]], own'.find path = none) := by
  have htop : m.getNextLevel root (pml4Index va) = (pdpt, m) := by
    rw [hva, getNextLevel_of_present (by rw [h.top]; exact present_tableEntry _), h.top,
      target_tableEntry]
  have hmap : m.mapEntry root va e =
      let r₁ := m.getNextLevel pdpt (pdptIndex va)
      let r₂ := r₁.2.getNextLevel r₁.1 (pdIndex va)
      r₂.2.write r₂.1 (ptIndex va) e := by
    unfold Phys.mapEntry
    rw [htop]
  rcases h.getNextLevel h.find_nil (by simp) (fun hc => hshared hc.2) with ⟨l₁, own₁, h₁, hpd⟩ |
    ⟨hl, hnone⟩
  · generalize m.getNextLevel pdpt (pdptIndex va) = r₁ at *
    obtain ⟨pd, m₁⟩ := r₁
    rcases h₁.toSpace.getNextLevel (i := pdIndex va) hpd (by simp) (by simp) with
      ⟨l₂, own₂, h₂, hpt⟩ | ⟨hl, hnone⟩
    · exact ⟨_, l₂, own₂, h₁.trans h₂, .inl ⟨_, hpt, hmap⟩⟩
    · refine ⟨m₁, l₁, own₁, h₁.trans (.refl h₁.toSpace _),
        .inr ⟨hl, ?_, _, .tail _ (.head _), hnone⟩⟩
      rw [hmap]
      exact (h₁.free.getNextLevel hl ..).of_empty hl rfl
  · refine ⟨m, l, own, .refl h _, .inr ⟨hl, ?_, _, .head _, hnone⟩⟩
    rw [hmap]
    exact ((h.free.getNextLevel hl ..).getNextLevel hl ..).of_empty hl rfl

end Space

theorem Space.partly (h : Space p m l root pdpt True own) : Space p m l root pdpt False own := by
  refine ⟨h.free, h.top, h.find_nil, h.nodup, h.clear, h.boot, h.kernel, h.closed,
    fun path T i hT => ?_⟩
  have hcontent := h.content path T i hT
  rcases path with _ | ⟨a, _ | ⟨b, _ | ⟨c, path⟩⟩⟩
  · exact hcontent
  · exact hcontent
  · exact False.elim
  · cases path <;> exact hcontent

/-- An entry of a page table is stored, if pages do not count. -/
theorem Space.writeLeaf (h : Space p m l root pdpt False own) (hT : own.find [i, j] = some T) :
    Space p (m.write T k e) l root pdpt False own := by
  have hrow : ∀ f, f ≠ T → (m.write T k e).mem f = m.mem f := fun f hf => write_of_frame_ne _ _ _ hf
  have hroot : root ≠ T := by
    rintro rfl
    exact (List.nodup_cons.mp h.nodup).1 (Tree.mem_frames.mpr ⟨_, hT⟩)
  have hboot := hrow p.bootPdpt fun heq => h.boot.1 (heq ▸ mem_root_frames hT)
  refine ⟨h.free_write hT, by
    rw [hrow root hroot]; exact h.top, h.find_nil, h.nodup, h.clear,
      h.boot, by rw [hboot]; exact h.kernel, h.closed, fun path V a hV => ?_⟩
  rw [hboot]
  by_cases heq : V = T
  · subst heq
    obtain rfl := h.find_inj hV hT
    exact False.elim
  · rw [hrow V heq]
    exact h.content path V a hV

end Phys

end Robu
