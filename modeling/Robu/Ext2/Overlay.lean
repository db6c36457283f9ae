import Robu.Ext2.Pairing
import Robu.Ext2.Transactions
import Mathlib.Order.Interval.Finset.Nat

/-!
# Metadata inside a transaction

A running transaction keeps the sectors it wrote in a table of records, of which there
are at most 64, and shows them to its readers in place of the disk.  What it is for is
simpler: a content for every sector, and the set of the sectors that were written.
`Overlay` is that, and `Sees` relates it to the server.
-/

namespace Robu.Ext2

open Lib Fallible

/-! ## The operations of a transaction -/

/-- What a transaction does with sectors of metadata, and with the superblock in memory. -/
inductive MetaOp
  | read (sector count : Nat)
  | write (sector : Nat) (data : List Sector)
  | superblock (sb : Bytes 1024)

def perform : MetaOp → M (List Sector)
  | .read sector count => journalMetadataRead sector count
  | .write sector data => do
    journalMetadataWrite sector data
    pure []
  | .superblock sb => do
    modifySb fun _ => sb
    pure []

def performAll {σ : Type} (f : MetaOp → Fallible σ Int (List Sector)) :
    List MetaOp → σ → List (Except Int (List Sector)) × σ
  | [], s => ([], s)
  | op :: ops, s =>
    let rest := performAll f ops (f op s).2
    ((f op s).1 :: rest.1, rest.2)

/-! ## The overlay -/

/-- The sectors written since the transaction began, and what every sector holds. -/
structure Overlay where
  written : Finset Nat
  content : Nat → Sector

namespace Overlay

variable (A : Area)

def Full (o : Overlay) (x : Nat) : Prop := A.Storage x ∨ x ∉ o.written ∧ o.written.card = maxRecords
deriving Decidable

def write (x : Nat) : List Sector → Fallible Overlay Int (List Sector)
  | [], o => (.ok [], o)
  | v :: vs, o =>
    if o.Full A x then (.error (-1), o)
    else write (x + 1) vs ⟨insert x o.written, Function.update o.content x v⟩

def perform : MetaOp → Fallible Overlay Int (List Sector)
  | .read x count, o => (.ok ((List.range' x count).map o.content), o)
  | .write x vs, o => write A x vs o
  | .superblock _, o => (.ok [], o)

variable {A}

/-- A write that does not fail has written its sectors, and there are not too many. -/
theorem written_of_write {o : Overlay} {x : Nat} {vs : List Sector}
    (hcard : o.written.card ≤ maxRecords) {r : List Sector} (h : (write A x vs o).1 = .ok r) :
    (write A x vs o).2.written = o.written ∪ Finset.Ico x (x + vs.length) ∧
      (write A x vs o).2.written.card ≤ maxRecords := by
  induction vs generalizing o x with
  | nil => simpa [write] using hcard
  | cons v vs ih =>
    unfold write at h ⊢
    by_cases hx : o.Full A x
    · rw [if_pos hx] at h
      cases h
    rw [if_neg hx] at h ⊢
    have hcard' : (insert x o.written).card ≤ maxRecords := by
      by_cases hmem : x ∈ o.written
      · rwa [Finset.insert_eq_of_mem hmem]
      · have hne : o.written.card ≠ maxRecords := fun he => hx (.inr ⟨hmem, he⟩)
        rw [Finset.card_insert_of_notMem hmem]
        exact lt_of_le_of_ne hcard hne
    obtain ⟨hwritten, hle⟩ := ih hcard' h
    refine ⟨hwritten.trans ?_, hle⟩
    ext y
    have hrange : (y = x ∨ x + 1 ≤ y ∧ y < x + 1 + vs.length) ↔ x ≤ y ∧
      y < x + (v :: vs).length := by
      rw [List.length_cons]
      omega
    rw [Finset.mem_union, Finset.mem_union, Finset.mem_insert, Finset.mem_Ico, Finset.mem_Ico,
      ← hrange, or_assoc, or_left_comm]

end Overlay

/-! ## The transaction of the server -/

/-- The server `s'`, in the transaction that began in `s`, shows the overlay `o`. -/
structure Sees (s : Server) (o : Overlay) (s' : Server) : Prop where
  grew : Grew s.begun s'
  nodup : (s'.journal.records.map JournalRecord.sector).Nodup
  written : (s'.journal.records.map JournalRecord.sector).toFinset = o.written
  count : s'.journal.records.length ≤ maxRecords
  content : withRecords s'.journal.records s.dev.disk = o.content

section Sees
variable {s s' : Server} {o : Overlay}

theorem Sees.begun (s : Server) : Sees s ⟨∅, s.dev.disk⟩ s.begun :=
  ⟨refl_of Grew _, List.nodup_nil, rfl, Nat.zero_le _, rfl⟩

theorem Sees.active (h : Sees s o s') : s'.journal.active = true := by
  obtain ⟨t, sb, rs, cs, rfl⟩ := h.grew rfl
  rfl

theorem Sees.dev (h : Sees s o s') : ∃ t, s'.dev = { s.dev with time := t } := by
  obtain ⟨t, sb, rs, cs, rfl⟩ := h.grew rfl
  exact ⟨t, rfl⟩

theorem Sees.area (h : Sees s o s') : s'.area = s.area := by
  obtain ⟨t, sb, rs, cs, rfl⟩ := h.grew rfl
  rfl

theorem Sees.card (h : Sees s o s') : o.written.card = s'.journal.records.length := by
  rw [← h.written, List.toFinset_card_of_nodup h.nodup, List.length_map]

theorem Sees.refuses_iff (h : Sees s o s') (x : Nat) : Refuses s' x ↔ o.Full s.area x := by
  rw [Refuses, Overlay.Full, h.area, h.card, ← h.written, List.mem_toFinset]

/-- Without device errors, the sectors of the disk are read. -/
theorem blkdevRead_ok (x count : Nat) (hok : ∀ n < count, s.dev.faults (s.dev.time + n) = .none) :
    blkdevRead x count s = (.ok ((List.range' x count).map s.dev.disk),
      { s with dev := { s.dev with time := s.dev.time + count } }) := by
  induction count generalizing x s with
  | zero => rfl
  | succ count ih =>
    have hread : readSector x s = (.ok (s.dev.disk x), { s with dev := s.dev.tick }) := by
      rw [readSector, show s.dev.faults s.dev.time = .none from hok 0 (Nat.succ_pos _)]
    have hrest := ih (s := { s with dev := s.dev.tick }) (x + 1) fun n hn => by
      rw [← hok (n + 1) (Nat.succ_lt_succ hn), Nat.add_comm n, ← Nat.add_assoc]
      rfl
    rw [blkdevRead, bind_of_ok hread, bind_of_ok hrest]
    rw [show s.dev.time + (count + 1) = s.dev.time + 1 + count by omega]
    rfl

theorem mapIdx_overlay (records : List JournalRecord) (d : Nat → Sector) (x count : Nat) :
    (((List.range' x count).map d).mapIdx fun i v => overlay records (x + i) v) =
      (List.range' x count).map (withRecords records d) := by
  refine List.ext_getElem (by simp) fun i h₁ h₂ => ?_
  simp [withRecords]

/-- **Reading.** -/
theorem Sees.read (h : Sees s o s') (hok : ∀ n, s.dev.faults n = .none) (x count : Nat) :
    (journalMetadataRead x count s').1 = .ok ((List.range' x count).map o.content) ∧
      Sees s o (journalMetadataRead x count s').2 := by
  obtain ⟨t, hdev⟩ := h.dev
  have hread := blkdevRead_ok (s := s') x count fun n _ => by rw [hdev]; exact hok _
  have hgrew := trans_of Grew h.grew (keeps_journalMetadataRead x count s')
  revert hgrew
  rw [journalMetadataRead, bind_of_ok hread, bind_of_ok (get_apply _), if_pos h.active]
  intro hgrew
  refine ⟨congrArg Except.ok ?_, hgrew, h.nodup, h.written, h.count, h.content⟩
  rw [mapIdx_overlay, ← h.content, hdev]

/-- One sector is written, unless it is refused. -/
theorem Sees.put (h : Sees s o s') {x : Nat} (hx : ¬Refuses s' x) (v : Sector) :
    Sees s ⟨insert x o.written, Function.update o.content x v⟩ { s' with
      journal := { s'.journal with records := putRecord s'.journal.records x v } } := by
  obtain ⟨hout, hroom⟩ := not_or.mp hx
  have hst : journalStorageSector s' x = false :=
    Bool.eq_false_iff.mpr (mt Area.journalStorageSector_iff.mp hout)
  have hlen : (putRecord s'.journal.records x v).length ≤ maxRecords := by
    rw [← List.length_map JournalRecord.sector, sectors_putRecord]
    split
    · rw [List.length_map]
      exact h.count
    rename_i hmem
    rw [List.length_append, List.length_map]
    exact lt_of_le_of_ne h.count fun he => hroom ⟨hmem, he⟩
  refine ⟨trans_of Grew h.grew (EditFrame.record s' x v h.active hst), nodup_putRecord h.nodup v,
    ?_, hlen, ?_⟩
  · ext y
    rw [List.mem_toFinset, mem_sectors_putRecord, Finset.mem_insert, ← h.written, List.mem_toFinset]
  · rw [withRecords_putRecord, h.content]

/-- **Writing.**  Sectors are recorded up to the first that is refused. -/
theorem Sees.write (h : Sees s o s') (x : Nat) (vs : List Sector) : ∃ s₁ o₁, Sees s o₁ s₁ ∧
      (journalMetadataWrite x vs s' = (.ok (), s₁) ∧ Overlay.write s.area x vs o = (.ok [], o₁) ∨
        journalMetadataWrite x vs s' = (.error (-1), s₁) ∧
          Overlay.write s.area x vs o = (.error (-1), o₁)) := by
  rw [journalMetadataWrite, bind_of_ok (get_apply s'), if_pos h.active]
  induction vs generalizing x s' o with
  | nil => exact ⟨s', o, h, .inl ⟨rfl, rfl⟩⟩
  | cons v vs ih =>
    rw [recordSectors, Overlay.write]
    by_cases hx : Refuses s' x
    · rw [bind_of_error (recordSector_of_refuses hx v), if_pos ((h.refuses_iff x).mp hx)]
      exact ⟨s', o, h, .inr ⟨rfl, rfl⟩⟩
    · rw [bind_of_ok (recordSector_of_not_refuses hx v), if_neg (mt (h.refuses_iff x).mpr hx)]
      exact ih (h.put hx v) (x + 1)

/-- **Step.**  An operation answers as the overlay does. -/
theorem Sees.perform (h : Sees s o s') (hok : ∀ n, s.dev.faults n = .none) (op : MetaOp) :
    (perform op s').1 = (Overlay.perform s.area op o).1 ∧
      Sees s (Overlay.perform s.area op o).2 (Ext2.perform op s').2 := by
  cases op with
  | read x count => exact h.read hok x count
  | write x vs =>
    obtain ⟨s₁, o₁, h₁, ⟨hs, ho⟩ | ⟨hs, ho⟩⟩ := h.write x vs
    · rw [Ext2.perform, bind_of_ok hs, Overlay.perform, ho]
      exact ⟨rfl, h₁⟩
    · rw [Ext2.perform, bind_of_error hs, Overlay.perform, ho]
      exact ⟨rfl, h₁⟩
  | superblock sb =>
    have hgrew := trans_of Grew h.grew (EditFrame.sb s' sb)
    exact ⟨rfl, hgrew, h.nodup, h.written, h.count, h.content⟩

/-- **Run.** -/
theorem Sees.performAll (h : Sees s o s') (hok : ∀ n, s.dev.faults n = .none) (ops : List MetaOp) :
    (performAll Ext2.perform ops s').1 = (performAll (Overlay.perform s.area) ops o).1 ∧
      Sees s (performAll (Overlay.perform s.area) ops o).2
        (Ext2.performAll Ext2.perform ops s').2 := by
  induction ops generalizing s' o with
  | nil => exact ⟨rfl, h⟩
  | cons op ops ih =>
    obtain ⟨hop, h₁⟩ := h.perform hok op
    obtain ⟨hops, h₂⟩ := ih h₁
    refine ⟨?_, h₂⟩
    rw [Ext2.performAll, Ext2.performAll, hop, hops]

end Sees

/-! ## Commit -/

theorem ends_writeHome (rs : List JournalRecord) (s : Server) :
    Ends (writeHome rs) s (fun _ s' => s'.area = s.area ∧
      s'.dev.disk = applyWrites s.dev.disk (rs.map fun r => (r.sector, r.data)))
      (fun _ _ => True) := by
  induction rs generalizing s with
  | nil => exact .pure ⟨rfl, rfl⟩
  | cons r rs ih =>
    refine .bind (P := fun _ s₁ => s₁.area = s.area ∧
      s₁.dev.disk = Function.update s.dev.disk r.sector r.data) ?_ ?_
    · refine ⟨fun _ s₁ h₁ => ?_, fun _ _ _ => trivial⟩
      unfold writeSector at h₁
      split at h₁
      · cases h₁
        exact ⟨rfl, rfl⟩
      · cases h₁
      · cases h₁
    · rintro _ s₁ ⟨harea, hdisk⟩
      refine (ih s₁).mono ?_ fun _ _ _ => trivial
      rintro _ s₂ ⟨harea₂, hdisk₂⟩
      exact ⟨harea₂.trans harea, by rw [hdisk₂, hdisk, List.map_cons, applyWrites_cons]⟩

def Scratched (s s' : Server) : Prop :=
  s.area.Mapped → ∃ d t l, s' = { s with dev := { s.dev with disk := d, time := t, log := l } } ∧
    Agrees s.area d s.dev.disk

instance : TickFrame Scratched where
  refl s _ := ⟨s.dev.disk, s.dev.time, s.dev.log, rfl, fun _ _ => rfl⟩
  trans := by
    rintro s _ _ h₁ h₂ hA
    obtain ⟨d₁, t₁, l₁, rfl, ha₁⟩ := h₁ hA
    obtain ⟨d₂, t₂, l₂, rfl, ha₂⟩ := h₂ hA
    exact ⟨d₂, t₂, l₂, rfl, fun x hx => (ha₂ x hx).trans (ha₁ x hx)⟩
  tick s _ := ⟨s.dev.disk, s.dev.time + 1, s.dev.log, rfl, fun _ _ => rfl⟩

theorem storage_of_journalMapSector {s : Server} (hA : s.area.Mapped) {k x : Nat}
    (h : journalMapSector s k = some x) : s.area.Storage x := by
  unfold journalMapSector at h
  split at h
  · cases h
  rename_i b hb
  cases h
  have hmem : s.journal.blocks.getD (k / s.geo.sectorsPerBlock) 0 ∈ s.journal.blocks := by
    by_cases hlt : k / s.geo.sectorsPerBlock < s.journal.blocks.length
    · rw [List.getD_eq_getElem _ _ hlt]
      exact List.getElem_mem _
    · rw [List.getD_eq_default _ _ (Nat.le_of_not_lt hlt)] at hb
      exact absurd rfl hb
  have hspb : 0 < s.geo.sectorsPerBlock := hA.spb
  change (_ * s.geo.sectorsPerBlock + _) / s.geo.sectorsPerBlock % 2 ^ 32 ∈ s.journal.blocks
  rw [Nat.mul_comm, Nat.mul_add_div hspb, Nat.div_eq_of_lt (Nat.mod_lt _ hspb), Nat.add_zero,
    Nat.mod_eq_of_lt (hA.u32 _ hmem)]
  exact hmem

instance : JournalFrame Scratched where
  journalDiskWrite k v s hA := by
    unfold journalDiskWrite
    rw [bind_of_ok (get_apply s)]
    cases hm : journalMapSector s k with
    | none => exact ⟨_, _, _, rfl, fun _ _ => rfl⟩
    | some x =>
      have hx := storage_of_journalMapSector hA hm
      have hagree : Agrees s.area (Function.update s.dev.disk x v) s.dev.disk := by
        intro y hy
        exact Function.update_of_ne (fun he => hy (by rwa [he])) _ _
      change ∃ d t l, (writeSector x v s).2 = _ ∧ _
      unfold writeSector
      split
      · exact ⟨_, _, _, rfl, hagree⟩
      · exact ⟨_, _, _, rfl, fun _ _ => rfl⟩
      · exact ⟨_, _, _, rfl, hagree⟩

theorem ends_journalBegin_begun (s : Server) :
    Ends journalBegin s (fun _ s' => s' = s.begun) (fun _ s' => s' = s) :=
  .get_bind (.check (fun _ => rfl) fun _ => .modify rfl)

/-- What only scratched the journal file agrees with the disk before. -/
theorem agrees_of_scratched {α : Type} {m : M α} (hm : Keeps Scratched m) {s : Server}
    (hA : s.area.Mapped) : Ends m s
      (fun _ s' => s'.area = s.area ∧ Agrees s.area s'.dev.disk s.dev.disk) fun _ _ => True := by
  refine hm.ends.mono ?_ fun _ _ _ => trivial
  rintro _ s' h
  obtain ⟨d, t, l, rfl, hd⟩ := h hA
  exact ⟨rfl, hd⟩

/-- The second half of a commit writes the records, and the journal file. -/
theorem ends_journalApply {rs : List JournalRecord} {s : Server} (hA : s.area.Mapped)
    (hn : (rs.map JournalRecord.sector).Nodup) :
    Ends (journalApply rs) s
      (fun _ s' => Agrees s.area s'.dev.disk (withRecords rs s.dev.disk)) fun _ _ => True := by
  refine .bind (agrees_of_scratched (keeps_journalWriteHeader _) hA) ?_
  rintro _ s₁ ⟨h₁, hd₁⟩
  refine .bind (agrees_of_scratched keeps_blkdevFlush (h₁ ▸ hA)) ?_
  rintro _ s₂ ⟨h₂, hd₂⟩
  rw [h₁] at h₂ hd₂
  refine .bind (ends_writeHome rs s₂) ?_
  rintro _ s₃ ⟨h₃, hd₃⟩
  rw [h₂] at h₃
  refine .bind (agrees_of_scratched keeps_blkdevFlush (h₃ ▸ hA)) ?_
  rintro _ s₄ ⟨h₄, hd₄⟩
  rw [h₃] at h₄ hd₄
  refine (agrees_of_scratched keeps_journalClear (h₄ ▸ hA)).mono ?_ fun _ _ _ => trivial
  rintro _ s₅ ⟨-, hd₅⟩ x hx
  rw [h₄] at hd₅
  rw [hd₅ x hx, hd₄ x hx, hd₃, applyWrites_records _ hn, withRecords, withRecords, hd₂ x hx,
    hd₁ x hx]

/-- **Commit.**  A commit that ends well wrote the records to their sectors, and otherwise
only to the journal file. -/
theorem agrees_journalCommit {s : Server} (hA : s.area.Mapped)
    (hn : (s.journal.records.map JournalRecord.sector).Nodup) :
    Ends journalCommit s (fun _ s' =>
      Agrees s.area s'.dev.disk (withRecords s.journal.records s.dev.disk))
      fun _ _ => True := by
  refine .get_bind (.check (fun _ => trivial) fun _ => ?_)
  refine .ite (fun hnil => .modify fun x _ => ?_) fun _ => ?_
  · rw [hnil]
    rfl
  refine .bind (P := fun _ s₁ => s₁.area = s.area ∧ s₁.dev = s.dev) (.modify ⟨rfl, rfl⟩) ?_
  rintro _ s₁ ⟨harea₁, hdev₁⟩
  refine .bind (.tryCatch (agrees_of_scratched keeps_journalPrepare (harea₁ ▸ hA))
    fun _ _ _ => .seq .any fun _ _ => .throw trivial) ?_
  rintro _ s₂ ⟨harea₂, h₂⟩
  rw [harea₁] at harea₂ h₂
  refine .bind (.tryCatch (ends_journalApply (harea₂ ▸ hA) hn)
    fun _ _ _ => .seq .any fun _ _ => .throw trivial) ?_
  rintro _ s₃ h₃
  refine .modify fun x hx => ?_
  rw [harea₂] at h₃
  rw [show _ = s₃.dev.disk x from rfl, h₃ x hx, withRecords, withRecords, h₂ x hx, hdev₁]

/-- **A transaction is an overlay of the disk.**  After `journal_begin`, and without device
errors, every sequence of reads and writes of metadata answers as the overlay does: reads
see the last data written to each sector, and the disk elsewhere.  A write that brings the
sectors to more than 64 fails.  A commit that ends well makes the disk equal to the overlay,
and changes no other sector outside the journal file; an abort leaves the disk and the
superblock as they were. -/
theorem transaction_overlays {s s₀ : Server} (hbegin : journalBegin s = (.ok (), s₀))
    (hok : ∀ n, s.dev.faults n = .none) (ops : List MetaOp) :
    let r := performAll perform ops s₀
    let o := performAll (Overlay.perform s.area) ops ⟨∅, s.dev.disk⟩
    r.1 = o.1 ∧ (∀ x vs, maxRecords < (o.2.written ∪ Finset.Ico x (x + vs.length)).card →
        ∃ e, (journalMetadataWrite x vs r.2).1 = .error e) ∧
      (s.area.Mapped → ∀ s', journalCommit r.2 = (.ok (), s') → ∀ x, ¬s.area.Storage x →
        s'.dev.disk x = o.2.content x ∧ (x ∉ o.2.written → s'.dev.disk x = s.dev.disk x)) ∧
      ∀ s', journalAbort r.2 = (.ok (), s') → s'.dev.disk = s.dev.disk ∧ s'.sb = s.sb := by
  intro r o
  have hs₀ : s₀ = s.begun := (ends_journalBegin_begun s).ok _ _ hbegin
  obtain ⟨hanswers, hsees⟩ := (Sees.begun s).performAll hok ops
  rw [← hs₀] at hanswers hsees
  obtain ⟨t, hdev⟩ := hsees.dev
  refine ⟨hanswers, fun x vs hlarge => ?_, fun hA s' hcommit x hx => ?_, fun s' habort => ?_⟩
  · obtain ⟨s₁, o₁, -, ⟨hs, ho⟩ | ⟨hs, -⟩⟩ := hsees.write x vs
    · have hcard := hsees.card.trans_le hsees.count
      have := Overlay.written_of_write hcard (congrArg Prod.fst ho)
      exact absurd (this.1 ▸ this.2) (not_le.mpr hlarge)
    · exact ⟨-1, congrArg Prod.fst hs⟩
  · have hd := (agrees_journalCommit (hsees.area ▸ hA) hsees.nodup).ok _ _ hcommit
    have hcontent : s'.dev.disk x = o.2.content x := by
      rw [hd x (hsees.area ▸ hx), ← hsees.content, hdev]
    refine ⟨hcontent, fun hnot => hcontent.trans ?_⟩
    rw [← hsees.content]
    refine overlay_of_notMem (fun rec hrec he => hnot ?_) _
    rw [← hsees.written, List.mem_toFinset]
    exact he ▸ List.mem_map_of_mem hrec
  · cases habort
    obtain ⟨t, sb, rs, cs, hgrew⟩ := hsees.grew rfl
    rw [hgrew]
    exact ⟨rfl, rfl⟩

theorem transaction_overlays_blank :
    (performAll perform [.write 3000 [1, 2], .superblock 5, .write 3001 [7], .read 2999 4]
      (blankServer fun _ => .none).begun).1 = [.ok [], .ok [], .ok [], .ok [0, 1, 7, 0]] := by
  refine (transaction_overlays (journalBegin_ok rfl rfl rfl) (fun _ => rfl) _).1.trans ?_
  decide +kernel

end Robu.Ext2
