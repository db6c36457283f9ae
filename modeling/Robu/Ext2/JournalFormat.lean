import Robu.Ext2.Journal

/-!
# What replay reads back

A header or descriptor that was written by `journalCommit` passes every check of
`journalReplay` and gives back what was put into it.  The checksums matter only in
that both sides compute the same function of the same bytes.
-/

namespace Robu.Ext2

open Lib

theorem journalChecksum_lt {n : Nat} (data : Bytes n) (len : Nat) :
    journalChecksum data len < 2 ^ 32 := by
  cases len with
  | zero =>
    rw [journalChecksum, List.range_zero, List.foldl_nil]
    decide
  | succ len =>
    rw [journalChecksum, List.range_succ, List.foldl_append, List.foldl_cons, List.foldl_nil]
    exact Nat.mod_lt _ (Nat.two_pow_pos 32)

/-! ## Headers -/

section Header
variable {sequence state count : Nat} {descriptors : Bytes 1024}

theorem magic_u32Set (header : Sector) {off v : Nat} (h : 8 ≤ off) :
    (u32Set header off v).slice 0 8 = header.slice 0 8 :=
  Bytes.slice_put_of_disjoint _ _ (.inl h)

theorem magic_sealHeader :
    (sealHeader sequence state count descriptors).slice 0 8 = journalMagic := by
  simp only [sealHeader, journalMakeHeader]
  repeat rw [magic_u32Set _ (by decide)]
  exact Bytes.slice_put _ _ (by decide)

theorem sealHeader_ne_zero : sealHeader sequence state count descriptors ≠ 0 := by
  intro h
  have hm : (sealHeader sequence state count descriptors).slice 0 8 = journalMagic :=
    magic_sealHeader
  rw [h] at hm
  have hbit : (Bytes.slice (0 : Sector) 0 8).getLsbD 1 = journalMagic.getLsbD 1 := by rw [hm]
  rw [Bytes.getLsbD_slice, show (0 : Sector) = 0#(8 * 512) from rfl, BitVec.getLsbD_zero] at hbit
  exact absurd hbit (by decide)

/-- The version, the state and the number of records of a header. -/
theorem fields_sealHeader : u32Get (sealHeader sequence state count descriptors) 8 = 1 ∧
    u32Get (sealHeader sequence state count descriptors) 12 = state % 2 ^ 32 ∧
    u32Get (sealHeader sequence state count descriptors) 16 = count % 2 ^ 32 := by
  simp only [sealHeader, journalMakeHeader]
  refine ⟨?_, ?_, ?_⟩
  all_goals
    repeat rw [u32Get_u32Set_of_disjoint _ (by decide)]
    rw [u32Get_u32Set _ (by decide)]
  rfl

theorem journalHeaderValid_sealHeader :
    journalHeaderValid (sealHeader sequence state count descriptors) = true := by
  rw [journalHeaderValid, magic_sealHeader, fields_sealHeader.1]
  rfl

theorem descriptorChecksum_sealHeader :
    u32Get (sealHeader sequence state count descriptors) descriptorChecksumOff =
      journalChecksum descriptors 1024 := by
  simp only [sealHeader, journalMakeHeader]
  rw [u32Get_u32Set_of_disjoint _ (by decide), u32Get_u32Set_of_disjoint _ (by decide),
    u32Get_u32Set _ (by decide), Nat.mod_eq_of_lt (journalChecksum_lt _ _)]

/-- The header's own checksum is that of the header with the field cleared. -/
theorem headerChecksum_sealHeader :
    u32Get (sealHeader sequence state count descriptors) headerChecksumOff =
      journalChecksum (u32Set (sealHeader sequence state count descriptors) headerChecksumOff 0)
        512 := by
  simp only [sealHeader, journalMakeHeader]
  rw [u32Get_u32Set _ (by decide), Nat.mod_eq_of_lt (journalChecksum_lt _ _)]
  simp only [u32Set, Bytes.put_put]

end Header

/-! ## Descriptors -/

theorem slice_putDescriptors (d : Bytes 1024) (records : List JournalRecord) {i off k : Nat}
    (h : off + k ≤ 16 * i) :
    ((records.zipIdx i).foldl (fun d ri => putDescriptor d ri.2 ri.1) d).slice off k =
      d.slice off k := by
  induction records generalizing d i with
  | nil => rfl
  | cons r rs ih =>
    rw [List.zipIdx_cons, List.foldl_cons, ih _ (by omega), putDescriptor, u32Set,
      Bytes.slice_put_of_disjoint _ _ (by omega), Bytes.slice_put_of_disjoint _ _ (by omega)]

/-- What is written as a descriptor is read back. -/
theorem descriptor_putDescriptors (d : Bytes 1024) {records : List JournalRecord} {i j : Nat}
    {r : JournalRecord} (hr : records[j]? = some r) (hs : r.sector < 2 ^ 64)
    (hi : i + records.length ≤ maxRecords) :
    let d' := (records.zipIdx i).foldl (fun d ri => putDescriptor d ri.2 ri.1) d
    descriptorTarget d' (i + j) = r.sector ∧
      u32Get d' (16 * (i + j) + 8) = journalChecksum r.data 512 := by
  -- the first record is written at `i` and kept by the others
  induction records generalizing d i j with
  | nil => simp at hr
  | cons r' rs ih =>
    simp only [List.length_cons] at hi
    rw [List.zipIdx_cons, List.foldl_cons]
    cases j with
    | zero =>
      obtain rfl : r' = r := by simpa using hr
      have hfit : 16 * i + 16 ≤ 1024 := by have := hi; simp only [maxRecords] at this; omega
      simp only [Nat.add_zero, descriptorTarget, u32Get]
      rw [slice_putDescriptors _ _ (by omega), slice_putDescriptors _ _ (by omega), putDescriptor]
      refine ⟨?_, ?_⟩
      · rw [u32Set, Bytes.slice_put_of_disjoint _ _ (by omega), Bytes.slice_put _ _ (by omega),
          BitVec.toNat_ofNat, Nat.mod_eq_of_lt hs]
      · rw [← u32Get, u32Get_u32Set _ (by omega), Nat.mod_eq_of_lt (journalChecksum_lt _ _)]
    | succ j =>
      have := ih (putDescriptor d i r') (i := i + 1) (j := j) (by simpa using hr) (by omega)
      rwa [show i + 1 + j = i + (j + 1) by omega] at this

/-- **Descriptors.**  The `i`-th descriptor names its record's sector and checksum. -/
theorem descriptor_makeDescriptors {records : List JournalRecord} {i : Nat} {r : JournalRecord}
    (hr : records[i]? = some r) (hs : r.sector < 2 ^ 64) (hlen : records.length ≤ maxRecords) :
    descriptorTarget (makeDescriptors records) i = r.sector ∧
      u32Get (makeDescriptors records) (16 * i + 8) = journalChecksum r.data 512 := by
  have := descriptor_putDescriptors 0 (i := 0) hr hs (by omega)
  simpa only [Nat.zero_add, makeDescriptors] using this

theorem join_descriptors (d : Bytes 1024) : Bytes.join [d.slice 0 512, d.slice 512 512] = d := by
  refine BitVec.eq_of_getLsbD_eq fun b hb => ?_
  rw [Bytes.getLsbD_join _ hb (by decide)]
  rcases Nat.lt_or_ge b (8 * 512) with h | h
  · rw [Nat.div_eq_of_lt h, Nat.mod_eq_of_lt h]
    simp only [List.getD_cons_zero, Bytes.getLsbD_slice, h, decide_true, Bool.true_and]
    congr 1
    omega
  · have hd : b / (8 * 512) = 1 := by omega
    have hm : b % (8 * 512) < 8 * 512 := Nat.mod_lt _ (by decide)
    rw [hd]
    simp only [List.getD_cons_succ, List.getD_cons_zero, Bytes.getLsbD_slice, hm, decide_true,
      Bool.true_and]
    congr 1
    omega

end Robu.Ext2
