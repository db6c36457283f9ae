import Robu.Ext2.JournalFormat
import Mathlib.Data.List.GetD
import Mathlib.Data.List.Nodup

/-!
# Recovery from a crash

`Recoverable A old new d` describes the disks a crash can leave while a transaction
that turns the metadata `old` into `new` is committed or replayed.  Every sector write
of `journalCommit` and of `journalReplay` keeps it, and a replay that is not cut takes
it to `old` or to `new`, with the header cleared.
-/

namespace Robu.Ext2

open Function (update update_of_ne update_self)

open Lib Fallible

/-! ## The journal's area of the volume -/

/-- Where the journal is: the blocks of its file, in sectors per block, and the size of
the volume. -/
structure Area where
  spb : Nat
  blocks : List Nat
  limit : Nat

def Server.area (s : Server) : Area :=
  ⟨s.geo.sectorsPerBlock, s.journal.blocks, s.geo.blocksCount * s.geo.sectorsPerBlock⟩

namespace Area

def Storage (A : Area) (x : Nat) : Prop :=
  x / A.spb % 2 ^ 32 ∈ A.blocks
deriving Decidable

/-- The volume's sector that holds the journal file's `k`-th sector. -/
def loc (A : Area) (k : Nat) : Nat :=
  A.blocks.getD (k / A.spb) 0 * A.spb + k % A.spb

/-- The journal file is mapped: it has all its blocks, none of them twice. -/
structure Mapped (A : Area) : Prop where
  spb : 0 < A.spb
  size : journalSectors ≤ A.blocks.length * A.spb
  nonzero : 0 ∉ A.blocks
  nodup : A.blocks.Nodup
  u32 : ∀ b ∈ A.blocks, b < 2 ^ 32
  limit : A.limit ≤ 2 ^ 64

variable {A : Area} (hA : A.Mapped) {k l : Nat}
include hA

theorem Mapped.index_lt (hk : k < journalSectors) : k / A.spb < A.blocks.length :=
  Nat.div_lt_of_lt_mul (by rw [Nat.mul_comm]; exact Nat.lt_of_lt_of_le hk hA.size)

theorem Mapped.getD_mem (hk : k < journalSectors) : A.blocks.getD (k / A.spb) 0 ∈ A.blocks := by
  rw [List.getD_eq_getElem _ _ (hA.index_lt hk)]
  exact List.getElem_mem _

theorem Mapped.loc_div (k : Nat) : A.loc k / A.spb = A.blocks.getD (k / A.spb) 0 := by
  rw [loc, Nat.mul_comm, Nat.mul_add_div hA.spb, Nat.div_eq_of_lt (Nat.mod_lt _ hA.spb),
    Nat.add_zero]

theorem Mapped.storage_loc (hk : k < journalSectors) : A.Storage (A.loc k) := by
  rw [Storage, hA.loc_div k, Nat.mod_eq_of_lt (hA.u32 _ (hA.getD_mem hk))]
  exact hA.getD_mem hk

theorem Mapped.loc_inj (hk : k < journalSectors) (hl : l < journalSectors)
    (h : A.loc k = A.loc l) : k = l := by
  have hdiv := congrArg (· / A.spb) h
  simp only [hA.loc_div k, hA.loc_div l] at hdiv
  have hmod : k % A.spb = l % A.spb := by
    rw [loc, loc, hdiv] at h
    omega
  rw [List.getD_eq_getElem _ _ (hA.index_lt hk), List.getD_eq_getElem _ _ (hA.index_lt hl)] at hdiv
  have hidx : k / A.spb = l / A.spb := (hA.nodup.getElem_inj_iff).mp hdiv
  rw [← Nat.div_add_mod k A.spb, ← Nat.div_add_mod l A.spb, hidx, hmod]

theorem Mapped.loc_ne (hk : k < journalSectors) (hl : l < journalSectors) (h : k ≠ l) :
    A.loc k ≠ A.loc l := fun he => h (hA.loc_inj hk hl he)

theorem Mapped.ne_loc (hk : k < journalSectors) {x : Nat} (hx : ¬A.Storage x) : x ≠ A.loc k :=
  fun h => hx (h ▸ hA.storage_loc hk)

omit hA in
theorem journalStorageSector_iff {s : Server} {x : Nat} :
    journalStorageSector s x = true ↔ s.area.Storage x := by
  rw [journalStorageSector, List.contains_iff_mem]
  rfl

theorem Mapped.journalMapSector {s : Server} (hs : s.area = A) (hk : k < journalSectors) :
    journalMapSector s k = some (A.loc k) := by
  have hmem := hA.getD_mem hk
  subst hs
  unfold Ext2.journalMapSector
  split
  · rename_i h
    exact absurd (h ▸ hmem) hA.nonzero
  · rfl

end Area

/-! ## Disks a crash can leave -/

def Agrees (A : Area) (d m : Nat → Sector) : Prop :=
  ∀ x, ¬A.Storage x → d x = m x

def Clear (A : Area) (d : Nat → Sector) : Prop :=
  d (A.loc headerSector) = 0

def descriptorsAt (A : Area) (d : Nat → Sector) : Bytes 1024 :=
  Bytes.join [d (A.loc descriptorSector), d (A.loc (descriptorSector + 1))]

def Sealed (A : Area) (state count : Nat) (d : Nat → Sector) : Prop :=
  ∃ sequence, d (A.loc headerSector) = sealHeader sequence state count (descriptorsAt A d)

/-- Descriptors and payloads on the disk are those of `records`. -/
structure Loaded (A : Area) (records : List JournalRecord) (d : Nat → Sector) : Prop where
  descriptors : descriptorsAt A d = makeDescriptors records
  payloads : ∀ i r, records[i]? = some r → d (A.loc (payloadSector + i)) = r.data

structure Fits (A : Area) (records : List JournalRecord) : Prop where
  count : records.length ≤ maxRecords
  nodup : (records.map JournalRecord.sector).Nodup
  volume : ∀ r ∈ records, r.sector < A.limit
  outside : ∀ r ∈ records, ¬A.Storage r.sector

def withRecords (records : List JournalRecord) (m : Nat → Sector) : Nat → Sector :=
  fun x => overlay records x (m x)

/-- A committed transaction: writing its records gives `new`. -/
structure Committed (A : Area) (records : List JournalRecord) (new d : Nat → Sector) : Prop where
  fits : Fits A records
  header : Sealed A stateCommitted records.length d
  loaded : Loaded A records d
  agrees : Agrees A (withRecords records d) new

/-- A disk from which replay reaches `old` or `new`. -/
inductive Recoverable (A : Area) (old new d : Nat → Sector) : Prop
  | clear : Clear A d → Agrees A d old ∨ Agrees A d new → Recoverable A old new d
  /-- A transaction was prepared: it will be dropped. -/
  | prepared {count : Nat} : count ≤ maxRecords → Sealed A statePrepared count d →
      Agrees A d old → Recoverable A old new d
  /-- A transaction was committed: it will be written again. -/
  | committed {records : List JournalRecord} : Committed A records new d → Recoverable A old new d

/-- A disk from which replay reaches `old`: no transaction, or a prepared one. -/
inductive Dropped (A : Area) (old d : Nat → Sector) : Prop
  | clear : Clear A d → Agrees A d old → Dropped A old d
  | prepared {count : Nat} : count ≤ maxRecords → Sealed A statePrepared count d →
      Agrees A d old → Dropped A old d

theorem Dropped.recoverable {A : Area} {old d : Nat → Sector} (h : Dropped A old d)
    (new : Nat → Sector) : Recoverable A old new d := by
  cases h with
  | clear hc ha => exact .clear hc (.inl ha)
  | prepared hcount hs ha => exact .prepared hcount hs ha

/-! ### Records over the metadata -/

section Records
variable {records : List JournalRecord} {r : JournalRecord} {x : Nat}

theorem overlay_of_notMem (h : ∀ r ∈ records, r.sector ≠ x) (v : Sector) :
    overlay records x v = v := by
  have hf : records.find? (·.sector = x) = none := by simpa using h
  rw [overlay, hf]

theorem overlay_congr (hr : r ∈ records) (hx : r.sector = x) (v w : Sector) :
    overlay records x v = overlay records x w := by
  cases hf : records.find? (·.sector = x) with
  | none => exact absurd hx (by simpa using List.find?_eq_none.mp hf r hr)
  | some r' => rw [overlay, overlay, hf]

theorem overlay_of_mem (hn : (records.map JournalRecord.sector).Nodup) (hr : r ∈ records)
    (v : Sector) : overlay records r.sector v = r.data := by
  cases hf : records.find? (·.sector = r.sector) with
  | none => exact absurd (List.find?_eq_none.mp hf r hr) (by simp)
  | some r' =>
    have hs : r'.sector = r.sector := by simpa using List.find?_some hf
    have he : r' = r := List.inj_on_of_nodup_map hn (List.mem_of_find?_eq_some hf) hr hs
    rw [overlay, hf, he]

theorem withRecords_update (d : Nat → Sector) (hr : r ∈ records) (v : Sector) :
    withRecords records (update d r.sector v) = withRecords records d := by
  funext x
  by_cases hx : r.sector = x
  · exact overlay_congr hr hx _ _
  · rw [withRecords, withRecords, update_of_ne (Ne.symm hx)]

theorem applyWrites_records (d : Nat → Sector) (hn : (records.map JournalRecord.sector).Nodup) :
    applyWrites d (records.map fun r => (r.sector, r.data)) = withRecords records d := by
  induction records generalizing d with
  | nil => rfl
  | cons r rs ih =>
    obtain ⟨hr, hn'⟩ := List.nodup_cons.mp hn
    have hne : ∀ r' ∈ rs, r'.sector ≠ r.sector := fun r' h' he => hr (he ▸ List.mem_map_of_mem h')
    rw [List.map_cons, applyWrites_cons, ih _ hn']
    funext x
    by_cases hx : r.sector = x
    · subst hx
      rw [withRecords, withRecords, overlay_of_notMem hne, update_self, overlay_of_mem hn (.head _)]
    · rw [withRecords, withRecords, update_of_ne (Ne.symm hx), overlay, overlay,
        List.find?_cons_of_neg (by simpa using hx)]

/-! ### Adding a record -/

theorem any_sector_iff :
    records.any (·.sector = x) = true ↔ x ∈ records.map JournalRecord.sector := by
  simp

/-- A new record's sector comes last; a known one stays where it is. -/
theorem sectors_putRecord (v : Sector) : (putRecord records x v).map JournalRecord.sector =
      if x ∈ records.map JournalRecord.sector then records.map JournalRecord.sector
      else records.map JournalRecord.sector ++ [x] := by
  unfold putRecord
  by_cases hx : x ∈ records.map JournalRecord.sector
  · rw [if_pos hx, if_pos (any_sector_iff.mpr hx), List.map_map]
    refine List.map_congr_left fun r _ => ?_
    by_cases h : r.sector = x <;> simp [h]
  · rw [if_neg hx, if_neg (mt any_sector_iff.mp hx), List.map_append, List.map_singleton]

theorem nodup_putRecord (hn : (records.map JournalRecord.sector).Nodup) (v : Sector) :
    ((putRecord records x v).map JournalRecord.sector).Nodup := by
  rw [sectors_putRecord]
  split
  · exact hn
  · rename_i hx
    exact List.nodup_append'.mpr ⟨hn, List.nodup_singleton x, by simpa using hx⟩

theorem mem_sectors_putRecord {y : Nat} {v : Sector} :
    y ∈ (putRecord records x v).map JournalRecord.sector ↔
      y = x ∨ y ∈ records.map JournalRecord.sector := by
  rw [sectors_putRecord]
  split
  · rename_i hx
    exact ⟨.inr, fun h => h.elim (fun h => h ▸ hx) id⟩
  · rw [List.mem_append, List.mem_singleton, or_comm]

/-- Recording a sector changes it alone. -/
theorem withRecords_putRecord (m : Nat → Sector) (v : Sector) :
    withRecords (putRecord records x v) m = update (withRecords records m) x v := by
  funext y
  unfold withRecords putRecord overlay
  by_cases hx : records.any (·.sector = x) = true
  · rw [if_pos hx, List.find?_map]
    by_cases hy : y = x
    · subst hy
      obtain ⟨r, hr, hry⟩ := List.any_eq_true.mp hx
      have hry' : r.sector = y := by simpa using hry
      have hf : (records.find? ((fun r : JournalRecord => decide (r.sector = y)) ∘
          fun r => if r.sector = y then ⟨y, v⟩ else r)).isSome := by
        rw [List.find?_isSome]
        exact ⟨r, hr, by simp [hry']⟩
      obtain ⟨r', hr'⟩ := Option.isSome_iff_exists.mp hf
      have hry'' : r'.sector = y := by
        have := List.find?_some hr'
        by_contra hne
        simp [hne] at this
      rw [hr', update_self]
      simp [hry'']
    · rw [update_of_ne hy]
      have hcomp : ((fun r : JournalRecord => decide (r.sector = y)) ∘
          fun r => if r.sector = x then ⟨x, v⟩ else r) = fun r => decide (r.sector = y) := by
        funext r
        by_cases hr : r.sector = x
        · simp [hr, Ne.symm hy]
        · simp [hr]
      rw [hcomp]
      cases hf : records.find? (fun r => decide (r.sector = y)) with
      | none => rfl
      | some r =>
        have hrs : r.sector = y := by simpa using List.find?_some hf
        have hne : r.sector ≠ x := hrs ▸ hy
        simp [hne]
  · rw [if_neg hx, List.find?_append]
    by_cases hy : y = x
    · subst hy
      have hf : records.find? (fun r => decide (r.sector = y)) = none := by
        simpa using hx
      rw [hf, update_self]
      simp
    · rw [update_of_ne hy]
      cases hf : records.find? (fun r => decide (r.sector = y)) with
      | none => simp [Ne.symm hy]
      | some r => simp

/-- A sector that a transaction does not take: one of the journal file, or one too many. -/
def Refuses (s : Server) (x : Nat) : Prop :=
  s.area.Storage x ∨ x ∉ s.journal.records.map JournalRecord.sector ∧
    s.journal.records.length = maxRecords

theorem recordSector_of_refuses {s : Server} (h : Refuses s x) (v : Sector) :
    recordSector x v s = (.error (-1), s) := by
  rw [recordSector, bind_of_ok (get_apply s)]
  by_cases hst : journalStorageSector s x = true
  · exact bind_of_error (failIf_of hst _ s)
  obtain ⟨hx, hlen⟩ := h.resolve_left (mt Area.journalStorageSector_iff.mpr hst)
  rw [bind_of_ok (failIf_of_not hst _ s)]
  refine bind_of_error (failIf_of ⟨?_, hlen⟩ _ s)
  rwa [Bool.not_eq_true', Bool.eq_false_iff, Ne, any_sector_iff]

theorem recordSector_of_not_refuses {s : Server} (h : ¬Refuses s x) (v : Sector) :
    recordSector x v s = (.ok (), { s with
      journal := { s.journal with records := putRecord s.journal.records x v } }) := by
  obtain ⟨hst, hroom⟩ := not_or.mp h
  rw [recordSector, bind_of_ok (get_apply s),
    bind_of_ok (failIf_of_not (mt Area.journalStorageSector_iff.mp hst) _ s),
    bind_of_ok (failIf_of_not ?_ _ s)]
  · rfl
  · rwa [Bool.not_eq_true', Bool.eq_false_iff, Ne, any_sector_iff]

end Records

/-! ### Writes and what they leave alone -/

section Updates
variable {A : Area} (hA : A.Mapped) {d d' m : Nat → Sector} {k x : Nat} {v : Sector}
variable {state count : Nat} {records : List JournalRecord}
include hA

theorem Agrees.update_loc (h : Agrees A d m) (hk : k < journalSectors) :
    Agrees A (update d (A.loc k) v) m := fun x hx => by
  rw [update_of_ne (hA.ne_loc hk hx)]
  exact h x hx

theorem Clear.update_loc (h : Clear A d) (hk : k < journalSectors) (h0 : k ≠ headerSector) :
    Clear A (update d (A.loc k) v) := by
  rw [Clear, update_of_ne (hA.loc_ne (by decide) hk h0.symm)]
  exact h

theorem descriptorsAt_update_loc (hk : k < journalSectors) (h1 : k ≠ descriptorSector)
    (h2 : k ≠ descriptorSector + 1) :
    descriptorsAt A (update d (A.loc k) v) = descriptorsAt A d := by
  rw [descriptorsAt, descriptorsAt, update_of_ne (hA.loc_ne (by decide) hk h1.symm),
    update_of_ne (hA.loc_ne (by decide) hk h2.symm)]

theorem Sealed.update_header (sequence state count : Nat) (d : Nat → Sector) :
    Sealed A state count (update d (A.loc headerSector)
      (sealHeader sequence state count (descriptorsAt A d))) := by
  refine ⟨sequence, ?_⟩
  rw [update_self, descriptorsAt_update_loc hA (by decide) (by decide) (by decide)]

omit hA in
theorem Loaded.congr (h : Loaded A records d) (hlen : records.length ≤ maxRecords)
    (hdesc : descriptorsAt A d' = descriptorsAt A d)
    (hpay : ∀ i, payloadSector + i < journalSectors →
      d' (A.loc (payloadSector + i)) = d (A.loc (payloadSector + i))) : Loaded A records d' := by
  refine ⟨hdesc.trans h.descriptors, fun i r hr => ?_⟩
  have hi : i < records.length := (List.getElem?_eq_some_iff.mp hr).1
  rw [hpay i (by simp only [payloadSector, journalSectors, maxRecords] at *; omega)]
  exact h.payloads i r hr

theorem Loaded.update_header (h : Loaded A records d) (hlen : records.length ≤ maxRecords) :
    Loaded A records (update d (A.loc headerSector) v) :=
  h.congr hlen (descriptorsAt_update_loc hA (by decide) (by decide) (by decide)) fun i hi =>
    update_of_ne (hA.loc_ne hi (by decide) (by simp [payloadSector])) ..

theorem update_outside (hx : ¬A.Storage x) (hk : k < journalSectors) :
    update d x v (A.loc k) = d (A.loc k) :=
  update_of_ne (hA.ne_loc hk hx).symm _ _

theorem descriptorsAt_update_outside (hx : ¬A.Storage x) :
    descriptorsAt A (update d x v) = descriptorsAt A d := by
  rw [descriptorsAt, update_outside hA hx (by decide), update_outside hA hx (by decide)]
  rfl

theorem Sealed.update_outside (h : Sealed A state count d) (hx : ¬A.Storage x) :
    Sealed A state count (update d x v) := by
  obtain ⟨sequence, hs⟩ := h
  refine ⟨sequence, ?_⟩
  rw [Ext2.update_outside hA hx (by decide), descriptorsAt_update_outside hA hx]
  exact hs

theorem Loaded.update_outside (h : Loaded A records d) (hlen : records.length ≤ maxRecords)
    (hx : ¬A.Storage x) : Loaded A records (update d x v) :=
  h.congr hlen (descriptorsAt_update_outside hA hx) fun _ hi => Ext2.update_outside hA hx hi

/-- Writing one of its records home keeps a transaction committed. -/
theorem Committed.update_record {new : Nat → Sector} (h : Committed A records new d)
    {r : JournalRecord} (hr : r ∈ records) :
    Committed A records new (update d r.sector v) where
  fits := h.fits
  header := h.header.update_outside hA (h.fits.outside r hr)
  loaded := h.loaded.update_outside hA h.fits.count (h.fits.outside r hr)
  agrees := by
    rw [withRecords_update d hr v]
    exact h.agrees

omit hA in
theorem Clear.update_header : Clear A (update d (A.loc headerSector) 0) := by
  rw [Clear, update_self]

end Updates

end Robu.Ext2
