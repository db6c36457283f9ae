import Robu.Lib.Links
import Robu.Lib.Owned
import Robu.Vm.Shm

/-!
# Attached segments

The attach count of a segment is the number of records that name it, a record belongs to an
address space that has the segment's frames in its range, and a segment's frames are given back
when it is removed and nothing is attached: `Accounts`.

This needs more than the records: each frame has one owner, a segment, the tables of an address
space, or a page of an address space outside the ranges of its records.  An `exec` destroys the
old address space with its records in place, and with it the frames of the segments that are
attached there, so programs must detach before.
-/

namespace Robu

open Function (update update_idem update_of_ne update_self)

variable {now : Option Word} {b : Fin 64} {seg : ShmSegment}

/-! ## Ranges -/

def rangePage (va : Word) (j : Nat) : Page := pageOf (va + BitVec.ofNat 64 j * pageSize)

theorem toNat_pageOf (va : Word) : (pageOf va).toNat = va.toNat / 4096 % 2 ^ 36 := by
  rw [pageOf, BitVec.extractLsb'_toNat, Nat.shiftRight_eq_div_pow]

/-- In a range that does not leave the address space, the pages follow each other. -/
theorem toNat_rangePage {va : Word} {n j : Nat} (hva : va.toNat % 4096 = 0)
    (hn : va.toNat + n * 4096 ≤ 2 ^ 48) (hj : j < n) : (rangePage va j).toNat =
      va.toNat / 4096 + j := by
  have hmul : (BitVec.ofNat 64 j * pageSize).toNat = j * 4096 := by
    rw [BitVec.toNat_mul, BitVec.toNat_ofNat, show pageSize.toNat = 4096 from rfl,
      Nat.mod_eq_of_lt (a := j) (by omega)]
    omega
  rw [rangePage, toNat_pageOf, BitVec.toNat_add, hmul]
  omega

namespace ShmAttach

def Covers (r : ShmAttach) (π : Page) : Prop := ∃ j < r.npages.toNat, π = rangePage r.va j

/-- The range is one of pages and does not leave the address space. -/
structure Inside (r : ShmAttach) : Prop where
  aligned : r.va.toNat % 4096 = 0
  le : r.va.toNat + r.npages.toNat * 4096 ≤ 2 ^ 48

variable {r r' : ShmAttach}

theorem Inside.toNat_rangeEnd (h : r.Inside) :
    r.rangeEnd.toNat = r.va.toNat + r.npages.toNat * 4096 := by
  have := h.le
  rw [rangeEnd, BitVec.toNat_add, BitVec.toNat_mul, show pageSize.toNat = 4096 from rfl]
  omega

theorem Inside.rangePage_inj (h : r.Inside) {j k : Nat} (hj : j < r.npages.toNat)
    (hk : k < r.npages.toNat) (heq : rangePage r.va j = rangePage r.va k) : j = k := by
  have := congrArg BitVec.toNat heq
  rw [toNat_rangePage h.aligned h.le hj, toNat_rangePage h.aligned h.le hk] at this
  omega

theorem Inside.not_covers (h : r.Inside) (h' : r'.Inside)
    (hapart : r.rangeEnd.toNat ≤ r'.va.toNat ∨ r'.rangeEnd.toNat ≤ r.va.toNat) {π : Page}
    (hπ : r.Covers π) :
    ¬ r'.Covers π := by
  rintro ⟨k, hk, heq⟩
  obtain ⟨j, hj, rfl⟩ := hπ
  have := congrArg BitVec.toNat heq
  rw [toNat_rangePage h.aligned h.le hj, toNat_rangePage h'.aligned h'.le hk] at this
  rw [h.toNat_rangeEnd, h'.toNat_rangeEnd] at hapart
  have := h.aligned
  have := h'.aligned
  omega

end ShmAttach

namespace Shm

variable {va : Word} {n j : Nat} {pages : PageMaps} {π : Page} {prot : Prot} {frames : List Frame}

theorem unmapFrom_succ :
    unmapFrom va (n + 1) pages = (unmapFrom va n pages).erase (rangePage va n) := by
  rw [unmapFrom, List.range_succ, List.foldl_append]
  rfl

theorem lookup_unmapFrom_of_not (h : ∀ j < n, π ≠ rangePage va j) :
    (unmapFrom va n pages).lookup π = pages.lookup π := by
  induction n with
  | zero => rfl
  | succ n ih =>
    rw [unmapFrom_succ, AList.lookup_erase_ne (h n (Nat.lt_succ_self n))]
    exact ih fun j hj => h j (Nat.lt_succ_of_lt hj)

theorem lookup_unmapFrom (hj : j < n) : (unmapFrom va n pages).lookup (rangePage va j) = none := by
  induction n with
  | zero => cases hj
  | succ n ih =>
    rw [unmapFrom_succ]
    by_cases heq : rangePage va j = rangePage va n
    · rw [heq]
      exact AList.lookup_erase ..
    rw [AList.lookup_erase_ne heq]
    refine ih ((Nat.lt_succ_iff_lt_or_eq.mp hj).resolve_right ?_)
    rintro rfl
    exact heq rfl

theorem mapFrom_append {f : Frame} : mapFrom va prot (frames ++ [f]) pages =
    (mapFrom va prot frames pages).insert (rangePage va frames.length) ⟨f, prot⟩ := by
  rw [mapFrom, List.zipIdx_append, List.foldl_append]
  simp [mapFrom, rangePage]

theorem lookup_mapFrom_of_not (h : ∀ j < frames.length, π ≠ rangePage va j) :
    (mapFrom va prot frames pages).lookup π = pages.lookup π := by
  induction frames using List.reverseRecOn with
  | nil => rfl
  | append_singleton frames f ih =>
    rw [List.length_append] at h
    rw [mapFrom_append, AList.lookup_insert_ne (h _ (Nat.lt_succ_self _))]
    exact ih fun j hj => h j (Nat.lt_succ_of_lt hj)

theorem lookup_mapFrom
    (hinj : ∀ j < frames.length, ∀ k < frames.length, rangePage va j = rangePage va k → j = k)
    (hj : j < frames.length) :
    (mapFrom va prot frames pages).lookup (rangePage va j) = (frames[j]?).map fun f =>
      ⟨f, prot⟩ := by
  induction frames using List.reverseRecOn with
  | nil => cases hj
  | append_singleton frames f ih =>
    rw [List.length_append] at hinj hj
    rw [mapFrom_append]
    rcases Nat.lt_succ_iff_lt_or_eq.mp hj with hlt | rfl
    · have hne : rangePage va j ≠ rangePage va frames.length := fun heq =>
        absurd (hinj j hj _ (Nat.lt_succ_self _) heq) (by omega)
      rw [AList.lookup_insert_ne hne, List.getElem?_append_left hlt]
      exact ih (fun j hj k hk => hinj j (Nat.lt_succ_of_lt hj) k (Nat.lt_succ_of_lt hk)) hlt
    · rw [AList.lookup_insert, List.getElem?_append_right (Nat.le_refl _)]
      simp

/-! ## Owners -/

inductive Owner
  | nobody
  | segment (i : Fin 32) (j : Nat)
  | tables (root : Frame)
  | page (root : Frame) (π : Page)

def look (s : Shm) (root : Frame) (π : Page) : Option Frame :=
  (s.spaces root).bind fun A => (A.pages.lookup π).map PageFrame.frame

def At (s : Shm) (a : Fin 64) (root : Frame) (π : Page) : Prop :=
  (s.attaches a).inUse = true ∧ (s.attaches a).addressSpace = root ∧ (s.attaches a).Covers π

/-- Segments have their frames, and address spaces have their tables and the pages they map outside
the ranges of their records. -/
def Owns (s : Shm) : Owner → Frame → Prop
  | .nobody, f => f = 0
  | .segment i j, f => (s.segments i).inUse = true ∧ (s.segments i).frames[j]? = some f
  | .tables root, f => ∃ A, s.spaces root = some A ∧ (f = root ∨ f ∈ A.tables)
  | .page root π, f => s.look root π = some f ∧ ∀ a, ¬ s.At a root π

def Names (s : Shm) (a : Fin 64) (i : Fin 32) : Prop :=
  (s.attaches a).inUse = true ∧ s.findSegment (s.attaches a).shmid = some i
deriving Decidable

def MapsAt (A : Aspace) (r : ShmAttach) (frames : List Frame) : Prop :=
  r.npages.toNat = frames.length ∧
    ∀ j < frames.length, (A.pages.lookup (rangePage r.va j)).map PageFrame.frame = frames[j]?

/-- **Accounts.**  The attach counts are right, the records are those of live address spaces that
have the frames, and no segment in use is removed and without attachments, or has a free frame. -/
structure Accounts (s : Shm) : Prop where
  count : ∀ i, (s.segments i).inUse = true →
    (s.segments i).nattch.toNat = (Finset.univ.filter fun a => s.Names a i).card
  mapped : ∀ a, (s.attaches a).inUse = true → ∃ i A, s.Names a i ∧
    s.spaces (s.attaches a).addressSpace = some A ∧ MapsAt A (s.attaches a) (s.segments i).frames
  kept : ∀ i, (s.segments i).inUse = true →
    ¬ ((s.segments i).markedRmid = true ∧ (s.segments i).nattch = 0) ∧ ∀ f ∈ (s.segments i).frames,
      f ∉ s.free

/-- **Giving back.**  In a step, a segment in use stays in use with its frames, or it is removed,
without attachments and all its frames are free. -/
def GivesBack (s s' : Shm) : Prop :=
  ∀ i, (s.segments i).inUse = true →
    ((s'.segments i).inUse = true ∧ (s'.segments i).generation = (s.segments i).generation ∧
      (s'.segments i).frames = (s.segments i).frames) ∨
    ((s'.segments i).inUse = false ∧ (s'.segments i).markedRmid = true ∧
      (s'.segments i).nattch = 0 ∧ ∀ f ∈ (s.segments i).frames, f ∈ s'.free)

def Shows (s : Shm) (a : Fin 64) (i : Fin 32) : Prop :=
  s.Names a i ∧ (s.spaces (s.attaches a).addressSpace).isSome ∧
    (s.attaches a).npages.toNat = (s.segments i).frames.length ∧ ∀ j < (s.segments i).frames.length,
      s.look (s.attaches a).addressSpace (rangePage (s.attaches a).va j) = (s.segments i).frames[j]?

/-- **Base.**  What holds also between a change of the records and that of the count. -/
structure Base (s : Shm) : Prop where
  shown : ∀ a, (s.attaches a).inUse = true → ∃ i, s.Shows a i
  owned : Lib.Owned s.Owns s.free
  size : ∀ i, (s.segments i).inUse = true →
    (s.segments i).frames.length = (s.segments i).npages.toNat
  inside : ∀ a, (s.attaches a).inUse = true → (s.attaches a).Inside
  once : ∀ {a b r π}, s.At a r π → s.At b r π → a = b
  thread : ∀ t r, s.threads t = some r → r ≠ 0 → (s.spaces r).isSome

def users (s : Shm) (i : Fin 32) : Nat := (Finset.univ.filter fun a => s.Names a i).card

/-- The count of the segment is right, and it is not one to be given back. -/
def Right (s : Shm) (i : Fin 32) : Prop := (s.segments i).inUse = true →
  (s.segments i).nattch.toNat = s.users i ∧
    ¬ ((s.segments i).markedRmid = true ∧ (s.segments i).nattch = 0)

theorem users_eq_zero {s : Shm} {i : Fin 32} : s.users i = 0 ↔ ∀ a, ¬ s.Names a i := by
  simp [users, Finset.filter_eq_empty_iff]

/-- **Invariant.** -/
structure Inv (s : Shm) : Prop extends Base s where
  right : ∀ i, s.Right i

variable {s s' : Shm} {a : Fin 64} {i : Fin 32} {r : Frame} {shmid : BitVec 32}
  {free : Finset Frame}

theorem exists_owns (hi : (s.segments i).inUse = true) {f : Frame}
    (hf : f ∈ (s.segments i).frames) : ∃ j, s.Owns (.segment i j) f := by
  obtain ⟨j, hj⟩ := List.mem_iff_getElem?.mp hf
  exact ⟨j, hi, hj⟩

theorem Base.ne_zero (h : s.Base) {o : Owner} {f : Frame} (ho : s.Owns o f) (hne : o ≠ .nobody) :
    f ≠ 0 := by
  rintro rfl
  exact hne (h.owned.unique ho rfl)

theorem Inv.accounts (h : s.Inv) : s.Accounts := by
  refine ⟨fun i hi => (h.right i hi).1, fun a ha => ?_, fun i hi =>
    ⟨(h.right i hi).2, fun f hf => ?_⟩⟩
  · obtain ⟨i, hnames, halive, hlen, hframe⟩ := h.shown a ha
    obtain ⟨A, hA⟩ := Option.isSome_iff_exists.mp halive
    refine ⟨i, A, hnames, hA, hlen, fun j hj => ?_⟩
    rw [← hframe j hj, look, hA]
    rfl
  · obtain ⟨j, hj⟩ := exists_owns hi hf
    exact h.owned.notFree hj

/-! ## Segments -/

theorem findSegment_eq_some : s.findSegment shmid = some i ↔
    shmidSlot shmid = i.val ∧ (s.segments i).inUse = true ∧
      (s.segments i).generation = shmidGen shmid := by
  unfold findSegment
  constructor
  · intro h
    split at h
    · dsimp only at h
      split at h
      · cases h
      rename_i hslot hfound
      cases h
      rw [not_or, not_not, not_not] at hfound
      exact ⟨rfl, hfound⟩
    · cases h
  · rintro ⟨hslot, hin, hgen⟩
    have hlt : shmidSlot shmid < 32 := by omega
    obtain rfl : (⟨shmidSlot shmid, hlt⟩ : Fin 32) = i := Fin.ext hslot
    rw [dif_pos hlt]
    dsimp only
    rw [if_neg (by rw [not_or, not_not, not_not]; exact ⟨hin, hgen⟩)]

theorem ne_of_inUse {j : Fin 32} (hi : (s.segments i).inUse = true)
    (hj : (s.segments j).inUse = false) : i ≠ j := by
  rintro rfl
  rw [hi] at hj
  cases hj

theorem Names.segment_inUse (h : s.Names a i) : (s.segments i).inUse = true :=
  (findSegment_eq_some.mp h.2).2.1

theorem Names.unique {j : Fin 32} (h : s.Names a i) (h' : s.Names a j) : i = j :=
  Option.some.inj (h.2.symm.trans h'.2)

/-- **Giving back.**  Frames are given back to the allocator, and no segment is taken into use. -/
structure Releases (s s' : Shm) : Prop where
  gives : GivesBack s s'
  unused : ∀ i, (s.segments i).inUse = false → s'.segments i = s.segments i
  free : s.free ⊆ s'.free

theorem Releases.refl :
    Releases s s := ⟨fun _ hi => .inl ⟨hi, rfl, rfl⟩, fun _ _ => rfl, Finset.Subset.refl _⟩

theorem Releases.trans {s'' : Shm} (h : Releases s s') (h' : Releases s' s'') : Releases s s'' := by
  refine ⟨fun i hi => ?_, fun i hi => ?_, h.free.trans h'.free⟩
  · rcases h.gives i hi with ⟨hin, hgen, hframes⟩ | ⟨hout, hmarked, hzero, hfree⟩
    · rw [← hgen, ← hframes]
      exact h'.gives i hin
    · rw [h'.unused i hout]
      exact .inr ⟨hout, hmarked, hzero, fun f hf => h'.free (hfree f hf)⟩
  · have hsame := h.unused i hi
    rw [h'.unused i (by rw [hsame]; exact hi), hsame]

def put (s : Shm) (i : Fin 32) (seg : ShmSegment) (free : Finset Frame) : Shm :=
  { s with segments := update s.segments i seg, free }

@[simp] theorem put_self : (s.put i seg free).segments i = seg := update_self ..

@[simp] theorem put_of_ne {j : Fin 32} (h : j ≠ i) :
    (s.put i seg free).segments j = s.segments j := update_of_ne h ..

theorem owns_put {o : Owner} {f : Frame} (ho : (s.put i seg free).Owns o f) :
    s.Owns o f ∧ (∀ k, o ≠ .segment i k) ∨ ∃ k, o = .segment i k ∧ seg.inUse = true ∧
      seg.frames[k]? = some f := by
  cases o with
  | nobody | tables | page => exact .inl ⟨ho, nofun⟩
  | segment j k =>
    obtain ⟨hj, hk⟩ := ho
    rcases eq_or_ne j i with rfl | hne
    · rw [put_self] at hj hk
      exact .inr ⟨k, rfl, hj, hk⟩
    · rw [put_of_ne hne] at hj hk
      exact .inl ⟨⟨hj, hk⟩, fun _ heq => hne (Owner.segment.inj heq).1⟩

/-- The records name the segments that they named: each names one, and only those of the segment
could name another. -/
theorem Base.names_put (h : s.Base)
    (hkeep : ∀ a, s.Names a i → seg.inUse = true ∧ seg.generation = (s.segments i).generation)
    {j : Fin 32} : (s.put i seg free).Names a j ↔ s.Names a j := by
  have hother : ∀ {j}, j ≠ i → ((s.put i seg free).Names a j ↔ s.Names a j) := by
    intro j hj
    refine and_congr_right fun _ => ?_
    rw [findSegment_eq_some, findSegment_eq_some, put_of_ne hj]
    rfl
  have hself : s.Names a i → (s.put i seg free).Names a i := by
    intro ha
    obtain ⟨hslot, -, hgen⟩ := findSegment_eq_some.mp ha.2
    obtain ⟨hin, hsame⟩ := hkeep a ha
    refine ⟨ha.1, findSegment_eq_some.mpr ⟨hslot, ?_⟩⟩
    rw [put_self]
    exact ⟨hin, hsame.trans hgen⟩
  rcases eq_or_ne j i with rfl | hj
  · refine ⟨fun ha => ?_, hself⟩
    obtain ⟨k, hnames, -⟩ := h.shown a ha.1
    rcases eq_or_ne k j with rfl | hk
    · exact hnames
    · exact absurd (((hother hk).mpr hnames).unique ha) hk
  · exact hother hj

/-- **Change of a segment.**  Those that are named keep their frames. -/
theorem Base.put (h : s.Base) (hkeep : ∀ a, s.Names a i →
      seg.inUse = true ∧ seg.generation = (s.segments i).generation ∧
        seg.frames = (s.segments i).frames)
    (hsize : seg.inUse = true → seg.frames.length = seg.npages.toNat)
    (howned : Lib.Owned (s.put i seg free).Owns free) :
    (s.put i seg free).Base := by
  refine ⟨fun a ha => ?_, howned, fun j hj => ?_, h.inside, h.once, h.thread⟩
  · obtain ⟨j, hnames, halive, hlen, hframe⟩ := h.shown a ha
    have hframes : ((s.put i seg free).segments j).frames = (s.segments j).frames := by
      rcases eq_or_ne j i with rfl | hj
      · rw [put_self]
        exact (hkeep a hnames).2.2
      · rw [put_of_ne hj]
    refine ⟨j, (h.names_put fun a ha => ⟨(hkeep a ha).1, (hkeep a ha).2.1⟩).mpr hnames, halive, ?_⟩
    rw [hframes]
    exact ⟨hlen, hframe⟩
  · rcases eq_or_ne j i with rfl | hne
    · rw [put_self] at hj ⊢
      exact hsize hj
    · rw [put_of_ne hne] at hj ⊢
      exact h.size j hj

theorem Inv.put (h : s.Base) (hright : ∀ j, j ≠ i → s.Right j) (hkeep : ∀ a, s.Names a i →
      seg.inUse = true ∧ seg.generation = (s.segments i).generation ∧
        seg.frames = (s.segments i).frames)
    (hsize : seg.inUse = true → seg.frames.length = seg.npages.toNat)
    (howned : Lib.Owned (s.put i seg free).Owns free)
    (hseg : seg.inUse = true → seg.nattch.toNat = s.users i ∧
      ¬ (seg.markedRmid = true ∧ seg.nattch = 0)) :
    (s.put i seg free).Inv := by
  refine ⟨h.put hkeep hsize howned, fun j hj => ?_⟩
  have husers : (s.put i seg free).users j = s.users j :=
    congrArg Finset.card (Finset.filter_congr fun a _ => h.names_put fun a ha =>
      ⟨(hkeep a ha).1, (hkeep a ha).2.1⟩)
  rw [husers]
  rcases eq_or_ne j i with rfl | hne
  · rw [put_self] at hj ⊢
    exact hseg hj
  · rw [put_of_ne hne] at hj ⊢
    exact hright j hne hj

/-- A segment that is changed keeps its frames, or is removed and gives them back. -/
theorem releases_put (hi : (s.segments i).inUse = true) (hfree : s.free ⊆ free)
    (h : (seg.inUse = true ∧ seg.generation = (s.segments i).generation ∧
      seg.frames = (s.segments i).frames) ∨
        (seg.inUse = false ∧ seg.markedRmid = true ∧ seg.nattch = 0 ∧ ∀ f ∈ (s.segments i).frames,
        f ∈ free)) :
    Releases s (s.put i seg free) := by
  refine ⟨fun j hj => ?_, fun j hj => put_of_ne (ne_of_inUse hi hj).symm, hfree⟩
  rcases eq_or_ne j i with rfl | hne
  · rw [put_self]
    exact h
  · rw [put_of_ne hne]
    exact .inl ⟨hj, rfl, rfl⟩

/-- The segment is changed, and its frames are given back if it is then removed and without
attachments. -/
theorem Base.settle (h : s.Base) (seg : ShmSegment) (hright : ∀ j, j ≠ i → s.Right j)
    (hi : (s.segments i).inUse = true)
    (hkept : seg.inUse = true ∧ seg.generation = (s.segments i).generation ∧
      seg.frames = (s.segments i).frames)
    (hnpages : seg.npages = (s.segments i).npages) (hcount : seg.nattch.toNat = s.users i)
    {q : Prop} [Decidable q] (hq : q ↔ seg.nattch = 0 ∧ seg.markedRmid = true) :
    (if q then (s.put i seg s.free).freeSegmentFrames i else s.put i seg s.free).Inv ∧
      Releases s (if q then (s.put i seg s.free).freeSegmentFrames i else s.put i seg s.free) := by
  split
  · rename_i hlast
    obtain ⟨hz, hm⟩ := hq.mp hlast
    have heq : (s.put i seg s.free).freeSegmentFrames i =
        s.put i { seg with frames := [], inUse := false, generation := seg.generation + 1 }
          (s.free ∪ (seg.frames.filter (· ≠ 0)).toFinset) := by
      unfold freeSegmentFrames
      rw [put_self]
      exact congrArg (Shm.mk · ..) (update_idem ..)
    rw [hz, eq_comm] at hcount
    have hnone := users_eq_zero.mp hcount
    have hframe : ∀ f, f ∈ (seg.frames.filter (· ≠ 0)).toFinset ↔ f ∈ (s.segments i).frames := by
      intro f
      rw [List.mem_toFinset, List.mem_filter, hkept.2.2, and_iff_left_iff_imp]
      intro hf
      obtain ⟨k, hk⟩ := exists_owns hi hf
      simpa using h.ne_zero hk nofun
    rw [heq]
    refine ⟨.put h hright (fun a ha => absurd ha (hnone a)) nofun (h.owned.release ?_ fun {f} hf =>
      ?_) nofun, releases_put hi Finset.subset_union_left
        (.inr ⟨rfl, hm, hz, fun f hf => Finset.mem_union_right _ ((hframe f).mpr hf)⟩)⟩
    · intro o f ho
      obtain ⟨ho, -⟩ | ⟨-, -, ⟨⟩, -⟩ := owns_put ho
      exact ho
    · refine (Finset.mem_union.mp hf).imp_right fun hf => ?_
      obtain ⟨k, hk⟩ := exists_owns hi ((hframe f).mp hf)
      refine ⟨_, hk, fun hc => ?_⟩
      obtain ⟨-, hne⟩ | ⟨-, -, ⟨⟩, -⟩ := owns_put hc
      exact hne k rfl
  · rename_i hlast
    refine ⟨.put h hright (fun _ _ => hkept) (fun _ => ?_) (h.owned.release ?_ .inl) fun _ =>
      ⟨hcount, fun hc => hlast (hq.mpr hc.symm)⟩,
        releases_put hi (Finset.Subset.refl _) (.inl hkept)⟩
    · rw [hkept.2.2, hnpages]
      exact h.size i hi
    · intro o f ho
      obtain ⟨ho, -⟩ | ⟨k, rfl, -, hk⟩ := owns_put ho
      · exact ho
      · exact ⟨hi, hkept.2.2 ▸ hk⟩

/-! ## Records -/

def relink (s : Shm) (a : Fin 64) (rec : ShmAttach) (F : Aspace → Aspace) (free : Finset Frame) :
    Shm :=
  { s with
    free
    spaces := update s.spaces rec.addressSpace ((s.spaces rec.addressSpace).map F)
    attaches := update s.attaches a rec }

/-- **Relinking.**  The pages outside the range stay as they are, those in the range are those of
the record, if it is in use, or not mapped, and the range is apart from those of the other records.
Free frames may become tables. -/
structure Relinks (s : Shm) (a : Fin 64) (rec : ShmAttach) (F : Aspace → Aspace)
    (free : Finset Frame)
    (tables : List Frame) : Prop where
  pages : ∀ A π, ¬ rec.Covers π → (F A).pages.lookup π = A.pages.lookup π
  unmapped : rec.inUse = true ∨ ∀ A π, rec.Covers π → (F A).pages.lookup π = none
  grown : ∀ A, ∀ f ∈ (F A).tables, f ∈ A.tables ∨ f ∈ tables
  old : ∀ r π, s.At a r π → r = rec.addressSpace ∧ rec.Covers π
  apart : ∀ b, b ≠ a → ∀ π, s.At b rec.addressSpace π → ¬ rec.Covers π
  inside : rec.inUse = true → rec.Inside
  taken : ∀ f ∈ tables, f ∈ s.free ∧ f ∉ free
  subset : free ⊆ s.free

namespace Relinks

variable {rec : ShmAttach} {F : Aspace → Aspace} {tables : List Frame}

theorem attaches_self : (s.relink a rec F free).attaches a = rec := update_self ..

theorem attaches_of_ne (h : b ≠ a) :
    (s.relink a rec F free).attaches b = s.attaches b := update_of_ne h ..

theorem at_self {π : Page} :
    (s.relink a rec F free).At a r π ↔ rec.inUse = true ∧ rec.addressSpace = r ∧ rec.Covers π := by
  rw [At, attaches_self]

theorem at_of_ne (h : b ≠ a) {π : Page} : (s.relink a rec F free).At b r π ↔ s.At b r π := by
  rw [At, attaches_of_ne h, At]

theorem isSome_spaces : ((s.relink a rec F free).spaces r).isSome = (s.spaces r).isSome := by
  unfold relink
  dsimp only
  rcases eq_or_ne r rec.addressSpace with rfl | hr
  · rw [update_self, Option.isSome_map]
  · rw [update_of_ne hr]

variable (h : Relinks s a rec F free tables)

include h

theorem look_eq {π : Page} (hπ : ¬ (r = rec.addressSpace ∧ rec.Covers π)) :
    (s.relink a rec F free).look r π = s.look r π := by
  unfold look relink
  dsimp only
  rcases eq_or_ne r rec.addressSpace with rfl | hr
  · rw [update_self, Option.bind_map]
    refine congrArg _ (funext fun A => ?_)
    rw [Function.comp_apply, h.pages A π fun hc => hπ ⟨rfl, hc⟩]
  · rw [update_of_ne hr]

/-- The address space has new tables, and no new page of its own. -/
theorem owns {o : Owner} {f : Frame} (ho : (s.relink a rec F free).Owns o f) :
    s.Owns o f ∨ (o = .tables rec.addressSpace ∧ f ∈ tables) := by
  cases o with
  | nobody | segment => exact .inl ho
  | tables r =>
    obtain ⟨A', hA', hf⟩ := ho
    rcases Lib.update_cases hA' with ⟨rfl, hmap⟩ | ⟨-, hA'⟩
    · obtain ⟨A, hA, rfl⟩ := Option.map_eq_some_iff.mp hmap
      rcases hf with rfl | hf
      · exact .inl ⟨A, hA, .inl rfl⟩
      · exact (h.grown A f hf).imp (fun hf => ⟨A, hA, .inr hf⟩) fun hf => ⟨rfl, hf⟩
    · exact .inl ⟨A', hA', hf⟩
  | page r π =>
    obtain ⟨hlook, hout⟩ := ho
    -- a page of the range is not mapped, or it is one of the record
    have hcov : ¬ (r = rec.addressSpace ∧ rec.Covers π) := by
      rintro ⟨rfl, hcov⟩
      rcases h.unmapped with hin | hnone
      · exact hout a (at_self.mpr ⟨hin, rfl, hcov⟩)
      · unfold look relink at hlook
        dsimp only at hlook
        rw [update_self, Option.bind_map, Option.bind_eq_some_iff] at hlook
        obtain ⟨A, -, hlook⟩ := hlook
        rw [Function.comp_apply, hnone A π hcov] at hlook
        cases hlook
    refine .inl ⟨h.look_eq hcov ▸ hlook, fun b hb => ?_⟩
    rcases eq_or_ne b a with rfl | hne
    · exact hcov (h.old r π hb)
    · exact hout b ((at_of_ne hne).mpr hb)

/-- Relinking a record keeps what holds between its changes. -/
theorem base (hs : s.Base) (hrec : rec.inUse = true → ∃ i, (s.relink a rec F free).Shows a i) :
    (s.relink a rec F free).Base := by
  have hapart : ∀ {b r π}, b ≠ a → s.At b r π → ¬ (s.relink a rec F free).At a r π := by
    intro b r π hb hat hself
    obtain ⟨-, rfl, hcov⟩ := at_self.mp hself
    exact h.apart b hb π hat hcov
  refine ⟨fun b hb => ?_, ?_, hs.size, fun b hb => ?_, fun {b c r π} hb hc =>
    ?_, fun t r ht hr => ?_⟩
  · rcases eq_or_ne b a with rfl | hne
    · rw [attaches_self] at hb
      exact hrec hb
    · rw [attaches_of_ne hne] at hb
      obtain ⟨i, hnames, halive, hlen, hframe⟩ := hs.shown b hb
      refine ⟨i, ⟨?_, ?_⟩, ?_, ?_, fun j hj => ?_⟩
      all_goals rw [attaches_of_ne hne]
      · exact hb
      · exact hnames.2
      · rw [isSome_spaces]
        exact halive
      · exact hlen
      · rw [h.look_eq]
        · exact hframe j hj
        rintro ⟨hr, hcov⟩
        exact h.apart b hne _ ⟨hb, hr, j, hlen ▸ hj, rfl⟩ hcov
  · exact hs.owned.acquire h.owns (fun hf => h.taken _ hf.2) (fun ho ho' => ho.1.trans ho'.1.symm)
      h.subset
  · rcases eq_or_ne b a with rfl | hne
    · rw [attaches_self] at hb ⊢
      exact h.inside hb
    · rw [attaches_of_ne hne] at hb ⊢
      exact hs.inside b hb
  · by_cases hba : b = a <;> by_cases hca : c = a
    · exact hba.trans hca.symm
    · subst hba
      exact absurd hb (hapart hca ((at_of_ne hca).mp hc))
    · subst hca
      exact absurd hc (hapart hba ((at_of_ne hba).mp hb))
    · exact hs.once ((at_of_ne hba).mp hb) ((at_of_ne hca).mp hc)
  · rw [isSome_spaces]
    exact hs.thread t r ht hr

end Relinks

/-- The other records name what they named. -/
theorem users_relink {rec : ShmAttach} {F : Aspace → Aspace} :
    (s.relink a rec F free).users i + (if s.Names a i then 1 else 0) =
      s.users i + if (s.relink a rec F free).Names a i then 1 else 0 := by
  unfold users
  rw [Finset.card_filter, Finset.card_filter, ← Finset.add_sum_erase _ _ (Finset.mem_univ a),
    ← Finset.add_sum_erase Finset.univ (fun b => if s.Names b i then 1 else 0) (Finset.mem_univ a)]
  have hrest : ∀ b ∈ Finset.univ.erase a, (if (s.relink a rec F free).Names b i then 1 else 0) =
    if s.Names b i then 1 else 0 := by
    intro b hb
    have hnames : (s.relink a rec F free).Names b i ↔ s.Names b i := by
      rw [Names, Relinks.attaches_of_ne (Finset.ne_of_mem_erase hb)]
      rfl
    simp only [hnames]
  rw [Finset.sum_congr rfl hrest]
  omega

/-! ## Detaching -/

theorem toNat_sub_one {x : BitVec 32} (h : x.toNat ≠ 0) : (x - 1).toNat = x.toNat - 1 := by
  have := x.isLt
  rw [BitVec.toNat_sub, show (1 : BitVec 32).toNat = 1 from rfl]
  omega

/-- The record is taken away and its range unmapped, before the segment is looked at again. -/
def drop (s : Shm) (a : Fin 64) : Shm :=
  s.relink a { s.attaches a with inUse := false }
    (fun A => { A with pages := unmapFrom (s.attaches a).va (s.attaches a).npages.toNat A.pages })
      s.free

theorem Base.drop (h : s.Base) (ha : (s.attaches a).inUse = true) : (s.drop a).Base := by
  refine Relinks.base (show Relinks s a _ _ s.free [] from
    ⟨fun A π hπ => ?_, .inr ?_, fun _ _ => .inl, fun r π hat =>
      ⟨hat.2.1.symm, hat.2.2⟩, fun b hb π hat hcov => hb (h.once hat ⟨ha, rfl, hcov⟩), nofun, nofun,
    Finset.Subset.refl _⟩) h nofun
  · exact lookup_unmapFrom_of_not fun j hj heq => hπ ⟨j, hj, heq⟩
  · rintro A π ⟨j, hj, rfl⟩
    exact lookup_unmapFrom hj

theorem users_drop : (s.drop a).users i + (if s.Names a i then 1 else 0) = s.users i := by
  have hnot : ¬ (s.drop a).Names a i := by
    intro hnames
    have hin := hnames.1
    rw [drop, Relinks.attaches_self] at hin
    cases hin
  have husers : _ = s.users i + if (s.drop a).Names a i then 1 else 0 := users_relink
  rwa [if_neg hnot] at husers

/-- **Detach.** -/
theorem Inv.detach (h : s.Inv) (ha : (s.attaches a).inUse = true) (now : Option Word) :
    (s.detach a now).Inv ∧ Releases s (s.detach a now) := by
  obtain ⟨i, hnames, -⟩ := h.shown a ha
  have hi := hnames.segment_inUse
  have hother : ∀ j, j ≠ i → (s.drop a).Right j := by
    intro j hne
    have husers := users_drop (s := s) (a := a) (i := j)
    rw [if_neg fun hc => hne (hc.unique hnames)] at husers
    unfold Right
    rw [show (s.drop a).users j = s.users j from husers]
    exact h.right j
  have hcount : ((s.segments i).nattch - 1).toNat = (s.drop a).users i := by
    have husers := users_drop (s := s) (a := a) (i := i)
    rw [if_pos hnames] at husers
    have hright := (h.right i hi).1
    rw [toNat_sub_one (by omega)]
    omega
  obtain ⟨hinv, hrel⟩ := (h.toBase.drop ha).settle
    { s.segments i with
      nattch := (s.segments i).nattch - 1
      dtime := now.getD (s.segments i).dtime }
    hother hi ⟨hi, rfl, rfl⟩ rfl hcount Iff.rfl
  unfold Shm.detach
  dsimp only
  rw [hnames.2]
  exact ⟨hinv, hrel.gives, hrel.unused, hrel.free⟩

theorem detach_frame (now : Option Word) : (s.detach a now).threads = s.threads ∧
    (s.detach a now).attaches = update s.attaches a { s.attaches a with inUse := false } := by
  unfold detach
  dsimp only
  split
  · exact ⟨rfl, rfl⟩
  · split <;> exact ⟨rfl, rfl⟩

def detachLoop (r : Frame) (as : List (Fin 64)) (s : Shm) : Shm :=
  as.foldl (fun s a =>
    if (s.attaches a).inUse ∧ (s.attaches a).addressSpace = r then s.detach a none else s) s

theorem shmDetachAllForProcess_eq :
    s.shmDetachAllForProcess r = s.detachLoop r (List.finRange 64) := rfl

/-- **Detach all.**  Afterwards no record is one of the address space. -/
theorem Inv.detachLoop (h : s.Inv) (as : List (Fin 64)) :
    (s.detachLoop r as).Inv ∧ Releases s (s.detachLoop r as) ∧
      (s.detachLoop r as).threads = s.threads ∧
      ∀ b, ((s.detachLoop r as).attaches b).inUse = true →
        ((s.detachLoop r as).attaches b).addressSpace = r →
        b ∉ as ∧ (s.attaches b).inUse = true ∧ (s.attaches b).addressSpace = r := by
  induction as generalizing s with
  | nil => exact ⟨h, .refl, rfl, fun b hb hr => ⟨List.not_mem_nil, hb, hr⟩⟩
  | cons a as ih =>
    unfold Shm.detachLoop
    rw [List.foldl_cons]
    split
    · rename_i ha
      obtain ⟨hinv, hrel⟩ := h.detach ha.1 none
      obtain ⟨h', hrel', hthreads, hrest⟩ := ih hinv
      refine ⟨h', hrel.trans hrel', hthreads.trans (detach_frame none).1, fun b hb hr => ?_⟩
      obtain ⟨hbas, hb, hr⟩ := hrest b hb hr
      rw [(detach_frame none).2] at hb hr
      rcases eq_or_ne b a with rfl | hne
      · rw [update_self] at hb
        cases hb
      · rw [update_of_ne hne] at hb hr
        exact ⟨by simp [hne, hbas], hb, hr⟩
    · rename_i ha
      obtain ⟨h', hrel', hthreads, hrest⟩ := ih h
      refine ⟨h', hrel', hthreads, fun b hb hr => ?_⟩
      obtain ⟨hbas, hb, hr⟩ := hrest b hb hr
      refine ⟨?_, hb, hr⟩
      rw [List.mem_cons, not_or]
      refine ⟨?_, hbas⟩
      rintro rfl
      exact ha ⟨hb, hr⟩

end Shm

end Robu
