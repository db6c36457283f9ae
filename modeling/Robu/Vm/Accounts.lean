import Robu.Lib.Run
import Robu.Vm.Attached
import Robu.Vm.Pages

/-!
# The accounts of shared memory

Every operation of `shm.c`, and every exit, fork and exec, keeps the accounts and gives the frames
of the segments it ends back.  An exec does so only if nothing is attached to the address space
that it destroys.
-/

namespace Robu

open Function (update update_of_ne update_self)
open Lib (update_cases)

variable {b : Fin 64} {j : Fin 32} {seg : ShmSegment} {t : Slot}

namespace Shm

variable {va : Word} {pages : PageMaps} {π : Page} {prot : Prot}
variable {s s' : Shm} {p : Platform} {a : Fin 64} {i : Fin 32} {r : Frame} {shmid : BitVec 32}

/-! ## Address spaces -/

theorem Shows.withSpaces {spaces : Frame → Option Aspace} {free : Finset Frame} (h : s.Shows a i)
    (heq : spaces (s.attaches a).addressSpace = s.spaces (s.attaches a).addressSpace) :
    ({ s with spaces, free } : Shm).Shows a i := by
  obtain ⟨hnames, halive, hlen, hframe⟩ := h
  refine ⟨hnames, ?_, hlen, fun j hj => ?_⟩
  · dsimp only
    rw [heq]
    exact halive
  · rw [← hframe j hj]
    unfold look
    dsimp only
    rw [heq]

/-- **Destroy.**  An address space without threads and records is given back. -/
theorem Inv.destroySpace (h : s.Inv) {A : Aspace} (hA : s.spaces r = some A)
    (hnone : ∀ a, (s.attaches a).inUse = true → (s.attaches a).addressSpace ≠ r)
    (hthread : ∀ t, s.threads t ≠ some r) :
    (destroySpace p s r A).Inv ∧ Releases s (destroySpace p s r A) := by
  have hspaces : ∀ {r' A'}, (Shm.destroySpace p s r A).spaces r' = some A' → r' ≠ r ∧
    s.spaces r' = some A' :=
    fun hA' => (update_cases hA').resolve_left fun heq => Option.some_ne_none _ heq.2.symm
  have hpage : ∀ {r' π f}, (Shm.destroySpace p s r A).look r' π = some f → r' ≠ r ∧
    s.look r' π = some f := by
    intro r' π f hlook
    obtain ⟨A', hA', hf⟩ := Option.bind_eq_some_iff.mp hlook
    exact ⟨(hspaces hA').1, Option.bind_eq_some_iff.mpr ⟨A', (hspaces hA').2, hf⟩⟩
  refine ⟨⟨⟨fun a ha => ?_, h.owned.release ?_ fun {f} hf =>
    ?_, h.size, h.inside, h.once, fun t r' ht hr' => ?_⟩, h.right⟩, fun i hi =>
      .inl ⟨hi, rfl, rfl⟩, fun _ _ => rfl, Finset.subset_union_left.trans Finset.subset_union_left⟩
  · obtain ⟨i, hs⟩ := h.shown a ha
    exact ⟨i, hs.withSpaces (update_of_ne (hnone a ha) ..)⟩
  · intro o f ho
    cases o with
    | nobody | segment => exact ho
    | tables r' =>
      obtain ⟨A', hA', hf⟩ := ho
      exact ⟨A', (hspaces hA').2, hf⟩
    | page r' π => exact ho.imp_left fun hlook => (hpage hlook).2
  -- what becomes free was the address space's
  · rcases Finset.mem_union.mp hf with hf | hf
    · refine (Finset.mem_union.mp hf).imp_right fun hf => ?_
      exact ⟨.tables r, ⟨A, hA, .inr (List.mem_toFinset.mp hf)⟩, fun ⟨A', hA', _⟩ =>
        (hspaces hA').1 rfl⟩
    · rw [List.mem_toFinset, List.mem_map] at hf
      obtain ⟨x, hx, rfl⟩ := hf
      have hlook : A.pages.lookup x.1 = some x.2 :=
        AList.mem_lookup_iff.mpr (List.mem_filter.mp hx).1
      refine .inr ⟨.page r x.1, ⟨?_, fun a hat => hnone a hat.1 hat.2.1⟩, fun ho =>
        (hpage ho.1).1 rfl⟩
      rw [look, hA, Option.bind_some, hlook]
      rfl
  · have hne : r' ≠ r := by
      rintro rfl
      exact hthread t ht
    rw [show (Shm.destroySpace p s r A).spaces r' = s.spaces r' from update_of_ne hne ..]
    exact h.thread t r' ht hr'

theorem mem_image_of_lookup {image : List (Page × PageFrame)} {x : PageFrame}
    (h : x ∈ (image.foldl (fun pages y => pages.insert y.1 y.2) pages).lookup π) :
    (π, x) ∈ image ∨ x ∈ pages.lookup π := by
  induction image generalizing pages with
  | nil => exact .inr h
  | cons y image ih =>
    rcases ih h with hmem | hx
    · exact .inl (.tail _ hmem)
    rcases eq_or_ne π y.1 with rfl | hne
    · rw [AList.lookup_insert] at hx
      cases hx
      exact .inl (.head _)
    · rw [AList.lookup_insert_ne hne] at hx
      exact .inr hx

theorem NewSpace.mem_image {n : NewSpace} {x : PageFrame} (h : x ∈ n.aspace.pages.lookup π) :
    (π, x) ∈ n.image :=
  (mem_image_of_lookup h).resolve_right fun hx => by cases hx

theorem Offered.taken {free : Finset Frame} {n : Nat} {offer : List Frame}
    (h : Offered free n offer) {f : Frame} (hf : f ∈ offer) : f ∈ free ∧
      f ∉ free \ offer.toFinset :=
  ⟨(h.2.2 f hf).1, fun hc => (Finset.mem_sdiff.mp hc).2 (List.mem_toFinset.mpr hf)⟩

/-- A space made of free frames keeps the invariant. -/
theorem Inv.addSpace (h : s.Inv) {n : NewSpace} (hmake : s.CanMake n.frames) :
    (s.addSpace n).Inv := by
  have hnodup : (n.aspace.tables ++ n.image.map fun x => x.2.frame).Nodup := hmake.2.1
  obtain ⟨-, himage, hdisj⟩ := List.nodup_append'.mp hnodup
  have hnone : s.spaces n.root = none := by
    rw [Option.eq_none_iff_forall_ne_some]
    intro A hA
    exact h.owned.notFree (o := .tables n.root) ⟨A, hA, .inl rfl⟩ (hmake.taken (.head _)).1
  have hold : ∀ {r}, (s.spaces r).isSome → (s.addSpace n).spaces r = s.spaces r := by
    intro r hr
    refine update_of_ne ?_ ..
    rintro rfl
    rw [hnone] at hr
    cases hr
  have hmem : ∀ {π x}, (π, x) ∈ n.image → x.frame ∈ n.image.map fun x => x.2.frame := fun hx =>
    List.mem_map.mpr ⟨_, hx, rfl⟩
  -- the new address space has the frames it is made of
  have hcases : ∀ {o f}, (s.addSpace n).Owns o f → s.Owns o f ∨
    ((o = .tables n.root ∧ f ∈ n.aspace.tables) ∨
      ∃ π x, o = .page n.root π ∧ (π, x) ∈ n.image ∧ x.frame = f) := by
    intro o f ho
    cases o with
    | nobody | segment => exact .inl ho
    | tables r =>
      obtain ⟨A, hA, hf⟩ := ho
      rcases update_cases hA with ⟨rfl, ⟨⟩⟩ | ⟨-, hA⟩
      · refine .inr (.inl ⟨rfl, ?_⟩)
        rcases hf with rfl | hf
        · exact .head _
        · exact hf
      · exact .inl ⟨A, hA, hf⟩
    | page r π =>
      obtain ⟨A, hA, hx⟩ := Option.bind_eq_some_iff.mp ho.1
      rcases update_cases hA with ⟨rfl, ⟨⟩⟩ | ⟨-, hA⟩
      · obtain ⟨x, hlook, rfl⟩ := Option.map_eq_some_iff.mp hx
        exact .inr (.inr ⟨π, x, rfl, NewSpace.mem_image hlook, rfl⟩)
      · exact .inl ⟨Option.bind_eq_some_iff.mpr ⟨A, hA, hx⟩, ho.2⟩
  refine ⟨⟨fun a ha => ?_, h.owned.acquire hcases ?_ ?_ Finset.sdiff_subset, h.size, h.inside,
    h.once, fun t r ht hr => ?_⟩, h.right⟩
  · obtain ⟨i, hs⟩ := h.shown a ha
    exact ⟨i, hs.withSpaces (hold hs.2.1)⟩
  · rintro o f (⟨-, hf⟩ | ⟨π, x, -, hx, rfl⟩)
    · exact hmake.taken (List.mem_append_left _ hf)
    · exact hmake.taken (List.mem_append_right _ (hmem hx))
  · rintro o o' f (⟨rfl, hf⟩ | ⟨π, x, rfl, hx, rfl⟩) (⟨rfl, hf'⟩ | ⟨π', x', rfl, hx', hxf⟩)
    · rfl
    · exact absurd (hxf ▸ hmem hx') (hdisj hf)
    · exact absurd (hmem hx) (hdisj hf')
    · obtain ⟨rfl, -⟩ := Prod.mk.inj (List.inj_on_of_nodup_map himage hx' hx hxf)
      rfl
  · rw [hold (h.thread t r ht hr)]
    exact h.thread t r ht hr

/-! ## Attaching -/

theorem of_firstIndex {n : Nat} {q : Fin n → Bool} {a : Fin n} (h : firstIndex q = some a) :
    q a = true :=
  List.find?_some h

def vaLoop (s : Shm) (r : Frame) (as : List (Fin 64)) (va : Word) : Word :=
  as.foldl (fun va i =>
    if (s.attaches i).inUse ∧ (s.attaches i).addressSpace = r ∧ va < (s.attaches i).rangeEnd then
      (s.attaches i).rangeEnd
    else va) va

theorem vaLoop_spec (h : s.Base) (as : List (Fin 64)) (va : Word) (hva : va.toNat % 4096 = 0) :
    va.toNat ≤ (s.vaLoop r as va).toNat ∧ (s.vaLoop r as va).toNat % 4096 = 0 ∧
      ∀ a ∈ as, (s.attaches a).inUse = true → (s.attaches a).addressSpace = r →
        (s.attaches a).rangeEnd.toNat ≤ (s.vaLoop r as va).toNat := by
  induction as generalizing va with
  | nil => exact ⟨Nat.le_refl _, hva, fun _ ha => by cases ha⟩
  | cons a as ih =>
    unfold vaLoop
    rw [List.foldl_cons]
    split
    · rename_i hlt
      have hend := (h.inside a hlt.1).toNat_rangeEnd
      have haligned := (h.inside a hlt.1).aligned
      obtain ⟨hle, hmod, hall⟩ := ih (s.attaches a).rangeEnd (by omega)
      have := BitVec.lt_def.mp hlt.2.2
      refine ⟨Nat.le_trans (by omega) hle, hmod, fun b hb hin hr => ?_⟩
      rcases List.mem_cons.mp hb with rfl | hb
      · exact hle
      · exact hall b hb hin hr
    · rename_i hnot
      obtain ⟨hle, hmod, hall⟩ := ih va hva
      refine ⟨hle, hmod, fun b hb hin hr => ?_⟩
      rcases List.mem_cons.mp hb with rfl | hb
      · have hlt : ¬ va < (s.attaches b).rangeEnd := fun hlt => hnot ⟨hin, hr, hlt⟩
        rw [BitVec.lt_def] at hlt
        exact Nat.le_trans (by omega) hle
      · exact hall b hb hin hr

/-- The range that is found is behind all ranges of the address space. -/
theorem attachVa_spec (h : s.Base) : (s.attachVa r).toNat % 4096 = 0 ∧
    ∀ a, (s.attaches a).inUse = true → (s.attaches a).addressSpace = r →
      (s.attaches a).rangeEnd.toNat ≤ (s.attachVa r).toNat := by
  obtain ⟨-, hmod, hall⟩ := vaLoop_spec (r := r) h (List.finRange 64) shmUserVaBase (by decide)
  exact ⟨hmod, fun a => hall a (List.mem_finRange a)⟩

theorem givesBack_of_segments (h : s'.segments = s.segments) : GivesBack s s' := fun i hi => by
  rw [h]
  exact .inl ⟨hi, rfl, rfl⟩

def addRecord (s : Shm) (slot : Fin 64) (rec : ShmAttach) (frames : List Frame) (prot : Prot)
    (tables : List Frame) : Shm :=
  s.relink slot rec (fun A => ⟨A.tables ++ tables, mapFrom rec.va prot frames A.pages⟩)
    (s.free \ tables.toFinset)

theorem shmAt_cases (s : Shm) (r : Frame) (caller : Tid) (shmid shmflg : BitVec 32) (now : Word)
    (tables : List Frame) : (s.shmAt caller r shmid shmflg now tables).2 = s ∨
      ∃ i slot prot, s.findSegment shmid = some i ∧ (s.attaches slot).inUse = false ∧
        (s.shmAt caller r shmid shmflg now tables).2 =
          (s.addRecord slot ⟨true, shmid, r, s.attachVa r, (s.segments i).npages⟩
            (s.segments i).frames prot tables).put i
            { s.segments i with nattch := (s.segments i).nattch + 1, lpid := caller, atime := now }
              (s.free \ tables.toFinset) := by
  unfold Shm.shmAt
  split
  · exact .inl rfl
  rename_i i hi
  dsimp only
  split
  · exact .inl rfl
  rename_i slot hslot
  exact .inr ⟨i, slot, 1 ||| 8 ||| (if shmflg &&& shmFlagRdonly = 0 then 2 else 0),
    hi, by simpa using of_firstIndex hslot, rfl⟩

section Attach
variable {slot : Fin 64} {rec : ShmAttach} {tables : List Frame}
variable (halive : (s.spaces rec.addressSpace).isSome) (hin : rec.inUse = true)
  (hfind : s.findSegment rec.shmid = some i)
variable (hlen : rec.npages.toNat = (s.segments i).frames.length) (hinside : rec.Inside)

include halive hin hfind hlen hinside

/-- The new record has the frames of the segment. -/
theorem shows_addRecord :
    (s.addRecord slot rec (s.segments i).frames prot tables).Shows slot i := by
  refine ⟨⟨?_, ?_⟩, ?_, ?_, fun j hj => ?_⟩
  all_goals rw [addRecord, Relinks.attaches_self]
  · exact hin
  · exact hfind
  · rw [Relinks.isSome_spaces]
    exact halive
  · exact hlen
  · obtain ⟨A, hA⟩ := Option.isSome_iff_exists.mp halive
    unfold look relink
    dsimp only
    rw [update_self, hA, Option.map_some, Option.bind_some,
      lookup_mapFrom (fun j hj k hk => hinside.rangePage_inj (hlen ▸ hj) (hlen ▸ hk)) hj,
        Option.map_map]
    exact congrFun Option.map_id _

/-- **Attach.**  The range of the new record is behind all others of the address space. -/
theorem Inv.addRecord (h : s.Inv) (hslot : (s.attaches slot).inUse = false)
    (hbehind : ∀ a, (s.attaches a).inUse = true → (s.attaches a).addressSpace = rec.addressSpace →
      (s.attaches a).rangeEnd.toNat ≤ rec.va.toNat) (hmake : s.CanMake tables) (caller : Tid)
    (now : Word) :
    let s' := (s.addRecord slot rec (s.segments i).frames prot tables).put i
      { s.segments i with nattch := (s.segments i).nattch + 1, lpid := caller, atime := now }
        (s.free \ tables.toFinset)
    s'.Inv ∧ GivesBack s s' := by
  have hi := (findSegment_eq_some.mp hfind).2.1
  have hunused : ∀ {p : Prop}, (s.attaches slot).inUse = true → p := fun hc =>
    absurd (hslot.symm.trans hc) Bool.false_ne_true
  generalize hs₁ : s.addRecord slot rec (s.segments i).frames prot tables = s₁
  have hshows : s₁.Shows slot i := hs₁ ▸ shows_addRecord halive hin hfind hlen hinside
  have hbase : s₁.Base := by
    rw [← hs₁] at hshows ⊢
    refine Relinks.base ⟨fun A π hπ => ?_, .inl hin, fun A f => List.mem_append.mp, fun r π hat =>
      hunused hat.1, fun b hb π hat => ?_, fun _ => hinside, fun f =>
        hmake.taken, Finset.sdiff_subset⟩ h.toBase fun _ => ⟨i, hshows⟩
    · exact lookup_mapFrom_of_not fun j hj heq => hπ ⟨j, hlen ▸ hj, heq⟩
    · exact (h.inside b hat.1).not_covers hinside (.inl (hbehind b hat.1 hat.2.1)) hat.2.2
  have husers : ∀ j, s₁.users j = s.users j + if j = i then 1 else 0 := by
    intro j
    have husers : s₁.users j + (if s.Names slot j then 1 else 0) =
      s.users j + if s₁.Names slot j then 1 else 0 := by
      rw [← hs₁]
      exact users_relink
    rw [if_neg fun hc => hunused hc.1, Nat.add_zero] at husers
    rw [husers]
    refine congrArg _ (if_congr ⟨fun hc => hc.unique hshows.1, ?_⟩ rfl rfl)
    rintro rfl
    exact hshows.1
  have hcount : ((s.segments i).nattch + 1).toNat = s₁.users i := by
    have hle : s.users i ≤ 64 := (Finset.card_le_univ _).trans (by simp)
    rw [husers, if_pos rfl, ← (h.right i hi).1] at *
    rw [BitVec.toNat_add, show (1 : BitVec 32).toNat = 1 from rfl]
    omega
  have hright : ∀ j, j ≠ i → s₁.Right j := by
    intro j hne
    have hsame := husers j
    rw [if_neg hne] at hsame
    unfold Right
    rw [hsame, ← hs₁]
    exact h.right j
  have hne : (s.segments i).nattch + 1 ≠ 0 := by
    intro hzero
    rw [hzero, husers, if_pos rfl] at hcount
    exact Nat.succ_ne_zero _ hcount.symm
  subst hs₁
  obtain ⟨hinv, hrel⟩ := hbase.settle (q := False)
    { s.segments i with nattch := (s.segments i).nattch + 1, lpid := caller, atime := now } hright
      hi ⟨hi, rfl, rfl⟩ rfl
    hcount (iff_of_false id fun hc => hne hc.1)
  rw [if_neg id] at hinv hrel
  exact ⟨hinv, hrel.gives⟩

end Attach

theorem Inv.shmAt (h : s.Inv) (halive : (s.spaces r).isSome) {tables : List Frame}
    (hmake : s.CanMake tables) (hfits : ∀ i, s.findSegment shmid = some i →
      (s.attachVa r).toNat + (s.segments i).npages.toNat * 4096 ≤ 2 ^ 48) (caller : Tid)
    (shmflg : BitVec 32) (now : Word) :
    (s.shmAt caller r shmid shmflg now tables).2.Inv ∧
      GivesBack s (s.shmAt caller r shmid shmflg now tables).2 := by
  obtain ⟨haligned, hbehind⟩ := attachVa_spec (r := r) h.toBase
  rcases shmAt_cases s r caller shmid shmflg now tables with heq |
    ⟨i, slot, prot, hfind, hslot, heq⟩
  · rw [heq]
    exact ⟨h, Releases.refl.gives⟩
  · rw [heq]
    have hlen := h.size i (findSegment_eq_some.mp hfind).2.1
    exact Inv.addRecord halive rfl hfind hlen.symm ⟨haligned, hfits i hfind⟩ h hslot hbehind hmake
      caller now

/-! ## The other operations -/

theorem Inv.shmDt (h : s.Inv) (shmaddr now : Word) :
    (s.shmDt r shmaddr now).2.Inv ∧ GivesBack s (s.shmDt r shmaddr now).2 := by
  unfold Shm.shmDt
  split
  · exact ⟨h, Releases.refl.gives⟩
  rename_i a ha
  have hfound := of_firstIndex ha
  simp only [Bool.and_eq_true] at hfound
  obtain ⟨hinv, hrel⟩ := h.detach hfound.1.1 (some now)
  exact ⟨hinv, hrel.gives⟩

/-- **Remove.** -/
theorem Inv.remove (h : s.Inv) (hi : (s.segments i).inUse = true) :
    let s₁ := s.put i { s.segments i with markedRmid := true } s.free
    (if (s.segments i).nattch = 0 then s₁.freeSegmentFrames i else s₁).Inv ∧
      Releases s (if (s.segments i).nattch = 0 then s₁.freeSegmentFrames i else s₁) :=
  h.toBase.settle { s.segments i with markedRmid := true } (fun j _ => h.right j) hi ⟨hi, rfl, rfl⟩
    rfl (h.right i hi).1 (and_iff_left rfl).symm

theorem Inv.shmCtl (h : s.Inv) (shmid cmd : BitVec 32) :
    (s.shmCtl shmid cmd).2.Inv ∧ GivesBack s (s.shmCtl shmid cmd).2 := by
  unfold Shm.shmCtl
  split
  · exact ⟨h, Releases.refl.gives⟩
  rename_i i hi
  dsimp only
  split
  · exact ⟨h, Releases.refl.gives⟩
  split
  · exact (h.remove (findSegment_eq_some.mp hi).2.1).imp_right Releases.gives
  · exact ⟨h, Releases.refl.gives⟩

/-- **Create.**  A new segment has frames that were free. -/
theorem Inv.addSegment (h : s.Inv) {slot : Fin 32} (hslot : (s.segments slot).inUse = false)
    (hoffer : Offered s.free seg.npages.toNat seg.frames) (hzero : seg.nattch = 0)
    (hmarked : seg.markedRmid = false) :
    (s.put slot seg (s.free \ seg.frames.toFinset)).Inv := by
  have hnone : ∀ a, ¬ s.Names a slot := fun a ha => ne_of_inUse ha.segment_inUse hslot rfl
  refine .put h.toBase (fun j _ => h.right j) (fun a ha => absurd ha (hnone a)) (fun _ => hoffer.1)
    (h.owned.acquire (fun ho => (owns_put ho).imp_left And.left) ?_ ?_ Finset.sdiff_subset)
      fun _ => ?_
  · rintro o f ⟨k, -, -, hk⟩
    exact hoffer.taken (List.mem_of_getElem? hk)
  · rintro o o' f ⟨k, rfl, -, hk⟩ ⟨k', rfl, -, hk'⟩
    obtain ⟨hlt, hk⟩ := List.getElem?_eq_some_iff.mp hk
    obtain ⟨hlt', hk'⟩ := List.getElem?_eq_some_iff.mp hk'
    rw [(hoffer.2.1.getElem_inj_iff).mp (hk.trans hk'.symm)]
  · rw [hzero, hmarked, users_eq_zero.mpr hnone]
    exact ⟨rfl, fun hc => Bool.false_ne_true hc.1⟩

theorem shmGet_cases (s : Shm) (caller : Tid) (key : BitVec 32) (size : Word) (shmflg : BitVec 32)
    (now : Word) (heap : Bool) (offer : List Frame) :
    (s.shmGet caller key size shmflg now heap offer).2 = s ∨
      ∃ slot seg, (s.segments slot).inUse = false ∧ Offered s.free seg.npages.toNat seg.frames ∧
        seg.nattch = 0 ∧
        seg.markedRmid = false ∧ (s.shmGet caller key size shmflg now heap offer).2 =
          s.put slot seg (s.free \ seg.frames.toFinset) := by
  unfold shmGet
  dsimp only
  split
  · split
    · exact .inl rfl
    · split <;> exact .inl rfl
  · split
    · exact .inl rfl
    split
    · exact .inl rfl
    split
    · exact .inl rfl
    split
    · exact .inl rfl
    rename_i slot hslot
    split
    · exact .inl rfl
    split
    · exact .inl rfl
    · rename_i hoffer
      exact .inr ⟨slot, _, by simpa using of_firstIndex hslot, not_not.mp hoffer, rfl, rfl, rfl⟩

theorem Inv.shmGet (h : s.Inv) (caller : Tid) (key : BitVec 32) (size : Word) (shmflg : BitVec 32)
    (now : Word) (heap : Bool) (offer : List Frame) :
    (s.shmGet caller key size shmflg now heap offer).2.Inv ∧
      GivesBack s (s.shmGet caller key size shmflg now heap offer).2 := by
  rcases shmGet_cases s caller key size shmflg now heap offer with heq |
    ⟨slot, seg, hslot, hoffer, hzero, hmarked, heq⟩
  · rw [heq]
    exact ⟨h, Releases.refl.gives⟩
  rw [heq]
  refine ⟨h.addSegment hslot hoffer hzero hmarked, fun j hj => .inl ?_⟩
  rw [put_of_ne (ne_of_inUse hj hslot)]
  exact ⟨hj, rfl, rfl⟩

/-! ## Steps -/

theorem Inv.withThreads (h : s.Inv) {threads : Slot → Option Frame}
    (ht : ∀ t r, threads t = some r → r ≠ 0 → (s.spaces r).isSome) :
    ({ s with threads } : Shm).Inv :=
  ⟨⟨h.shown, h.owned, h.size, h.inside, h.once, ht⟩, h.right⟩

theorem Inv.withFree (h : s.Inv) {free : Finset Frame} (hsub : free ⊆ s.free) :
    ({ s with free } : Shm).Inv :=
  ⟨⟨h.shown, h.owned.release id fun hf => .inl (hsub hf), h.size, h.inside, h.once, h.thread⟩,
    h.right⟩

theorem Inv.setThread (h : s.Inv) (t : Slot) (hr : r ≠ 0 → (s.spaces r).isSome) :
    ({ s with threads := update s.threads t (some r) } : Shm).Inv := by
  refine h.withThreads fun w r' hw hr' => ?_
  rcases update_cases hw with ⟨-, ⟨⟩⟩ | ⟨-, hw⟩
  · exact hr hr'
  · exact h.thread w r' hw hr'

theorem Inv.endThread (h : s.Inv) (t : Slot) :
    ({ s with threads := update s.threads t none } : Shm).Inv := by
  refine h.withThreads fun w r hw hr => ?_
  obtain ⟨-, ⟨⟩⟩ | ⟨-, hw⟩ := update_cases hw
  exact h.thread w r hw hr

/-- A thread without siblings leaves no thread in its address space. -/
theorem update_threads_ne (h : s.hasSibling t r = false) {o : Option Frame} (ho : o ≠ some r)
    (w : Slot) : update s.threads t o w ≠ some r := by
  rw [hasSibling, decide_eq_false_iff_not] at h
  intro heq
  rcases update_cases heq with ⟨-, heq⟩ | ⟨hne, heq⟩
  · exact ho heq
  · exact h ⟨w, hne, heq⟩

/-- **Exit.** -/
theorem Inv.terminate (h : s.Inv) (hs' : terminate p s t r = some s') :
    s'.Inv ∧ GivesBack s s' := by
  unfold Shm.terminate at hs'
  dsimp only at hs'
  split at hs'
  · obtain rfl := Option.some.inj hs'
    exact ⟨h.endThread t, givesBack_of_segments rfl⟩
  · rename_i hlast
    rw [not_or, Bool.not_eq_true] at hlast
    rw [shmDetachAllForProcess_eq] at hs'
    obtain ⟨hinv, hrel, hthreads, hnone⟩ := (h.endThread t).detachLoop (r := r) (List.finRange 64)
    obtain ⟨A, hA, rfl⟩ := Option.map_eq_some_iff.mp hs'
    generalize Shm.detachLoop r (List.finRange 64) _ = s₁ at *
    obtain ⟨hinv', hrel'⟩ := hinv.destroySpace (p := p) hA
      (fun a ha hr => (hnone a ha hr).1 (List.mem_finRange a))
      (fun w => by rw [hthreads]; exact update_threads_ne hlast.2 (by simp) w)
    exact ⟨hinv', fun i hi => (hrel.trans hrel').gives i hi⟩

/-- **Exec.**  The old address space is destroyed, which has no records and no other thread. -/
theorem Inv.execCurrent (h : s.Inv) {n : NewSpace} (hmake : s.CanMake n.frames)
    (ht : s.threads t = some r) (hr : r ≠ 0)
    (hnone : ∀ a, (s.attaches a).inUse = true → (s.attaches a).addressSpace ≠ r)
    (halone : s.hasSibling t r = false) (hs' : execCurrent p s t r n = some s') : s'.Inv ∧
      GivesBack s s' := by
  unfold Shm.execCurrent at hs'
  obtain ⟨A, hA, rfl⟩ := Option.map_eq_some_iff.mp hs'
  have hroot : n.root ≠ r := by
    rintro rfl
    obtain ⟨B, hB⟩ := Option.isSome_iff_exists.mp (h.thread t _ ht hr)
    exact h.owned.notFree (o := .tables n.root) ⟨B, hB, .inl rfl⟩ (hmake.taken (.head _)).1
  have hnew : (s.addSpace n).spaces n.root = some n.aspace := update_self ..
  have hinv := (h.addSpace hmake).setThread t (r := n.root) fun _ => by rw [hnew]; rfl
  obtain ⟨hinv', hrel⟩ := hinv.destroySpace (p := p) hA hnone
    (update_threads_ne halone fun heq => hroot (Option.some.inj heq))
  refine ⟨hinv', fun i hi => ?_⟩
  exact hrel.gives i hi

/-- **Condition.**  Segments are attached below 2⁴⁸, programs that are executed come from an address
space with nothing attached and no other thread, and there is memory for tables. -/
def Steady (s : Shm) : Op → Prop
  | .attach t shmid _ _ _ _ => ∀ r ∈ s.threads t, ∀ i ∈ s.findSegment shmid,
      (s.attachVa r).toNat + (s.segments i).npages.toNat * 4096 ≤ 2 ^ 48
  | .exec t _ => ∀ r ∈ s.threads t,
      (∀ a, (s.attaches a).inUse = true → (s.attaches a).addressSpace ≠ r) ∧
        s.hasSibling t r = false
  | .tableless _ => False
  | _ => True

instance (s : Shm) : ∀ op, Decidable (s.Steady op)
  | .attach t shmid _ _ _ _ =>
    haveI : ∀ r, Decidable (∀ i ∈ s.findSegment shmid,
      (s.attachVa r).toNat + (s.segments i).npages.toNat * 4096 ≤ 2 ^ 48) := fun _ =>
        Option.decidableForallMem _
    Option.decidableForallMem (s.threads t)
  | .exec t _ => Option.decidableForallMem (s.threads t)
  | .tableless _ => .isFalse id
  | .get .. | .detach .. | .ctl .. | .exit .. | .fork .. | .spawn .. | .thread .. | .take .. =>
    .isTrue trivial

/-- **Step.** -/
theorem Inv.step (h : s.Inv) {op : Op} (hok : s.Steady op) (hs' : step p s op = some s') :
    s'.Inv ∧ GivesBack s s' := by
  cases op with
  | get t key size shmflg now heap offer =>
    obtain ⟨-, -, rfl⟩ := Option.map_eq_some_iff.mp hs'
    exact h.shmGet ..
  | attach t shmid shmaddr shmflg now tables =>
    obtain ⟨r, hr, hs'⟩ := Option.bind_eq_some_iff.mp hs'
    split at hs'
    · obtain rfl := Option.some.inj hs'
      exact ⟨h, Releases.refl.gives⟩
    · rename_i hne
      split at hs'
      · rename_i hmake
        obtain rfl := Option.some.inj hs'
        exact h.shmAt (h.thread t r hr fun hz => hne (.inl hz)) hmake (fun i hi => hok r hr i hi) ..
      · cases hs'
  | detach t shmaddr now =>
    obtain ⟨r, hr, hs'⟩ := Option.bind_eq_some_iff.mp hs'
    split at hs'
    · obtain rfl := Option.some.inj hs'
      exact ⟨h, Releases.refl.gives⟩
    · obtain rfl := Option.some.inj hs'
      exact h.shmDt ..
  | ctl t shmid cmd =>
    obtain ⟨-, -, rfl⟩ := Option.map_eq_some_iff.mp hs'
    exact h.shmCtl ..
  | exit t =>
    obtain ⟨r, hr, hs'⟩ := Option.bind_eq_some_iff.mp hs'
    exact h.terminate hs'
  | fork t child root tables frames =>
    obtain ⟨r, hr, hs'⟩ := Option.bind_eq_some_iff.mp hs'
    obtain ⟨A, hA, hs'⟩ := Option.bind_eq_some_iff.mp hs'
    dsimp only at hs'
    split at hs'
    · rename_i hmake
      obtain rfl := Option.some.inj hs'
      refine ⟨(h.addSpace hmake.2.2.2).setThread child fun _ => ?_, givesBack_of_segments rfl⟩
      simp [Shm.addSpace]
    · cases hs'
  | exec t n =>
    obtain ⟨r, hr, hs'⟩ := Option.bind_eq_some_iff.mp hs'
    split at hs'
    · rename_i hmake
      obtain ⟨hnone, halone⟩ := hok r hr
      exact h.execCurrent hmake.2 hr hmake.1 hnone halone hs'
    · cases hs'
  | spawn child n =>
    simp only [Shm.step] at hs'
    split at hs'
    · rename_i hmake
      obtain rfl := Option.some.inj hs'
      refine ⟨(h.addSpace hmake.2).setThread child fun _ => ?_, givesBack_of_segments rfl⟩
      simp [Shm.addSpace]
    · cases hs'
  | thread t child =>
    obtain ⟨r, hr, hs'⟩ := Option.bind_eq_some_iff.mp hs'
    split at hs'
    · obtain rfl := Option.some.inj hs'
      exact ⟨h.setThread child (h.thread t r hr), givesBack_of_segments rfl⟩
    · cases hs'
  | take frames =>
    obtain rfl := Option.some.inj hs'
    exact ⟨h.withFree Finset.sdiff_subset, givesBack_of_segments rfl⟩
  | tableless spaces => exact absurd hok id

structure IsBoot (s : Shm) : Prop where
  segments : ∀ i, s.segments i = {}
  attaches : ∀ a, s.attaches a = {}
  spaces : ∀ r, s.spaces r = none
  threads : ∀ t, s.threads t = none ∨ s.threads t = some 0
  zero : 0 ∉ s.free

theorem IsBoot.inv (h : s.IsBoot) : s.Inv := by
  have hseg : ∀ i, (s.segments i).inUse ≠ true := fun i hi => by rw [h.segments i] at hi; cases hi
  have hatt : ∀ a, (s.attaches a).inUse ≠ true := fun a ha => by rw [h.attaches a] at ha; cases ha
  have howns : ∀ {o f}, s.Owns o f → o = .nobody ∧ f = 0 := by
    intro o f ho
    cases o with
    | nobody => exact ⟨rfl, ho⟩
    | segment i j => exact absurd ho.1 (hseg i)
    | tables r =>
      obtain ⟨A, hA, -⟩ := ho
      rw [h.spaces r] at hA
      cases hA
    | page r π =>
      rw [Owns, look, h.spaces r] at ho
      cases ho.1
  refine ⟨⟨fun a ha => absurd ha (hatt a),
    ⟨fun ho ho' => (howns ho).1.trans (howns ho').1.symm, fun ho => ?_⟩, fun i hi =>
      absurd hi (hseg i), fun a ha => absurd ha (hatt a), fun ha =>
      absurd ha.1 (hatt _), fun t r ht hr => ?_⟩,
    fun i hi => absurd hi (hseg i)⟩
  · rw [(howns ho).2]
    exact h.zero
  · rcases h.threads t with hn | hz
    · rw [hn] at ht
      cases ht
    · exact absurd (Option.some.inj (ht.symm.trans hz)) hr

/-- **Accounts.**  In every run whose steps meet the condition, the accounts are right in every
state, and every step gives back the frames of the segments it ends. -/
theorem accounts_of_steady (h : Lib.Reach (step p) Steady IsBoot s) :
    s.Accounts ∧ ∀ op s', s.Steady op → step p s op = some s' → GivesBack s s' := by
  have hinv : s.Inv := h.invariant (fun _ hs => hs.inv) fun _ _ _ hs hok hstep =>
    (hs.step hok hstep).1
  exact ⟨hinv.accounts, fun op s' hok hstep => (hinv.step hok hstep).2⟩

def twentyFrames : Shm := { free := (Finset.range 20).image fun n => BitVec.ofNat 52 (n + 1) }

theorem isBoot_twentyFrames : twentyFrames.IsBoot :=
  ⟨fun _ => rfl, fun _ => rfl, fun _ => rfl, fun _ => .inl rfl, by decide +kernel⟩

def onePage (root table frame : Frame) : NewSpace := ⟨root, [table], [(0x40000, ⟨frame, 0xB⟩)]⟩

def attachRun : List Op :=
    [.spawn 1 (onePage 1 2 3), .get 1 0 4096 0 0 true [4], .attach 1 0 0 0 0 [5, 6]]

/-- Thread 1 removes the segment, forks, detaches the segment and executes a program. -/
theorem accounts_of_steady_attachRun :
    ∃ s, Lib.run (step kernelPlatform) Steady twentyFrames
      (attachRun ++ [.ctl 1 0 0, .fork 1 2 10 [11, 12] [13, 14],
        .detach 1 0x140000000 0, .exec 1 (onePage 7 8 9)]) = some s ∧
      4 ∈ s.free ∧ (s.segments 0).inUse = false ∧ s.Accounts :=
  Lib.exists_run₂ isBoot_twentyFrames (by decide +kernel) fun hs => (accounts_of_steady hs).1

/-- Thread 1 executes a program with the segment attached: its frame is free, but it is in use. -/
theorem not_accounts_attachRun :
    ¬ ∀ s, Lib.Reach (step kernelPlatform) (fun _ _ => True) IsBoot s → s.Accounts := by
  intro h
  obtain ⟨s, hs, hin, hframe, hfree⟩ : ∃ s,
    Lib.Reach (step kernelPlatform) (fun _ _ => True) IsBoot s ∧
      (s.segments 0).inUse = true ∧ 4 ∈ (s.segments 0).frames ∧ 4 ∈ s.free :=
    Lib.observed (attachRun ++ [.exec 1 (onePage 7 8 9)]) isBoot_twentyFrames (by decide +kernel)
  exact ((h s hs).kept 0 hin).2 4 hframe hfree

end Shm

end Robu
