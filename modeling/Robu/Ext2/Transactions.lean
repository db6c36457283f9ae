import Robu.Ext2.Atomic
import Mathlib.Data.Finset.Card

/-!
# Sequences of transactions

A transaction collects metadata writes and commits them.  Here transactions follow one
another, each of them meeting whatever errors the device reports, until the machine
stops at some sector write; then the volume is mounted again.
-/

namespace Robu.Ext2

open Lib Fallible

def writesOf {α : Type} (m : M α) (s : Server) : List (Nat × Sector) :=
  (m s).2.dev.log.drop s.dev.log.length

/-- The server that mounts the volume after a crash left the disk `d`: the journal file is
where it was, and the device works. -/
def Server.recovering (s : Server) (d : Nat → Sector) : Server :=
  { s with dev := ⟨d, fun _ => .none, 0, []⟩ }

/-- Replays of the journal from the disk `d`, each of them cut at some write, end with the
disk `d'`. -/
inductive CutReplays (s : Server) (d : Nat → Sector) : (Nat → Sector) → Prop
  | refl : CutReplays s d d
  | cut {d' : Nat → Sector} (k : Nat) : CutReplays s d d' →
      CutReplays s d (applyWrites d' ((writesOf journalReplay (s.recovering d')).take k))

section Recover
variable {s : Server} {d d' old new : Nat → Sector}

/-- A run that passes through stores with a property leaves one wherever it is cut. -/
theorem cut_of_passes {C : (Nat → Sector) → Prop} {α : Type} {m : M α} (h : Passes C s (m s).2)
    (k : Nat) : C (applyWrites s.dev.disk ((writesOf m s).take k)) := by
  obtain ⟨ws, hl, -, ha⟩ := h
  have hl' : (m s).2.dev.log = s.dev.log ++ ws := hl
  rw [writesOf, hl', List.drop_left]
  exact ha k

theorem Recoverable.cutReplays (hA : s.area.Mapped) (h : Recoverable s.area old new d)
    (hc : CutReplays s d d') : Recoverable s.area old new d' := by
  induction hc with
  | refl => exact h
  | @cut d₁ k _ ih =>
    have harea : (s.recovering d₁).area = s.area := rfl
    exact cut_of_passes (runs_journalReplay hA harea (fun _ => rfl) ih).passes k

/-- **Recovery.**  A replay that is not cut succeeds on a recoverable disk. -/
theorem Recoverable.replay (hA : s.area.Mapped) (h : Recoverable s.area old new d) :
    ∃ s', journalReplay (s.recovering d) = (.ok (), s') ∧ Clear s.area s'.dev.disk ∧
      (Agrees s.area s'.dev.disk old ∨ Agrees s.area s'.dev.disk new) := by
  have harea : (s.recovering d).area = s.area := rfl
  have H := runs_journalReplay hA harea (fun _ => rfl) h
  match hr : journalReplay (s.recovering d) with
  | (.ok (), s') => exact ⟨s', rfl, H.ok () s' hr⟩
  | (.error e, s') => exact absurd (H.error e s' hr) id

end Recover

/-! ## Collecting records -/

abbrev Tx := List (Nat × Sector)

def Tx.sectors (t : Tx) : Finset Nat := (t.map Prod.fst).toFinset

/-- A transaction that the journal has room for, on sectors of the volume outside the
journal. -/
structure Tx.Valid (A : Area) (t : Tx) : Prop where
  count : t.sectors.card ≤ maxRecords
  volume : ∀ w ∈ t, w.1 < A.limit
  outside : ∀ w ∈ t, ¬A.Storage w.1

def transaction (t : Tx) : M Unit := do
  journalBegin
  journalFinish (t.forM fun w => journalMetadataWrite w.1 [w.2])

def transactions (ts : List Tx) : M Unit :=
  ts.forM fun t => tryCatch (transaction t) fun _ => pure ()

def recordAll (records : List JournalRecord) (t : Tx) : List JournalRecord :=
  t.foldl (fun rs w => putRecord rs w.1 w.2) records

section RecordAll
variable {records : List JournalRecord} {t : Tx}

theorem nodup_recordAll (hn : (records.map JournalRecord.sector).Nodup) :
    ((recordAll records t).map JournalRecord.sector).Nodup := by
  induction t generalizing records with
  | nil => exact hn
  | cons w t ih => exact ih (nodup_putRecord hn w.2)

theorem mem_sectors_recordAll {x : Nat} : x ∈ (recordAll records t).map JournalRecord.sector ↔
      x ∈ records.map JournalRecord.sector ∨ x ∈ t.sectors := by
  induction t generalizing records with
  | nil => simp [recordAll, Tx.sectors]
  | cons w t ih =>
    rw [show recordAll records (w :: t) = recordAll (putRecord records w.1 w.2) t from rfl, ih,
      mem_sectors_putRecord]
    simp only [Tx.sectors, List.map_cons, List.toFinset_cons, Finset.mem_insert]
    tauto

theorem withRecords_recordAll (m : Nat → Sector) :
    withRecords (recordAll records t) m = applyWrites (withRecords records m) t := by
  induction t generalizing records with
  | nil => rfl
  | cons w t ih =>
    rw [show recordAll records (w :: t) = recordAll (putRecord records w.1 w.2) t from rfl, ih,
      withRecords_putRecord, applyWrites_cons]

/-- A transaction's records are as many as the sectors it writes. -/
theorem length_recordAll : (recordAll [] t).length = t.sectors.card := by
  have hn : ((recordAll [] t).map JournalRecord.sector).Nodup := nodup_recordAll List.nodup_nil
  have hset : ((recordAll [] t).map JournalRecord.sector).toFinset = t.sectors := by
    ext x
    rw [List.mem_toFinset, mem_sectors_recordAll]
    simp
  rw [← hset, List.toFinset_card_of_nodup hn, List.length_map]

theorem Tx.Valid.fits {A : Area} (h : t.Valid A) : Fits A (recordAll [] t) := by
  have hw : ∀ r ∈ recordAll [] t, ∃ w ∈ t, w.1 = r.sector := by
    intro r hr
    have hx : r.sector ∈ t.sectors := by
      have := mem_sectors_recordAll.mp (List.mem_map_of_mem (f := JournalRecord.sector) hr)
      simpa using this
    simpa [Tx.sectors] using hx
  refine ⟨length_recordAll ▸ h.count, nodup_recordAll List.nodup_nil, fun r hr =>
    ?_, fun r hr => ?_⟩
  · obtain ⟨w, hwt, hwr⟩ := hw r hr
    exact hwr ▸ h.volume w hwt
  · obtain ⟨w, hwt, hwr⟩ := hw r hr
    exact hwr ▸ h.outside w hwt

end RecordAll

def Server.withJournalRecords (s : Server) (records : List JournalRecord) : Server :=
  { s with journal := { s.journal with records := records } }

theorem recordSector_ok {s : Server} {x : Nat} (v : Sector) (hout : ¬s.area.Storage x)
    (hroom : x ∈ s.journal.records.map JournalRecord.sector ∨
      s.journal.records.length < maxRecords) :
    recordSector x v s = (.ok (), s.withJournalRecords (putRecord s.journal.records x v)) := by
  refine recordSector_of_not_refuses ?_ v
  rintro (hx | ⟨hx, hlen⟩)
  · exact hout hx
  · exact hroom.elim hx fun h => absurd hlen (Nat.ne_of_lt h)

/-- The writes of a transaction are recorded, and nothing else happens. -/
theorem forM_journalMetadataWrite {s : Server} (hactive : s.journal.active = true)
    (hn : (s.journal.records.map JournalRecord.sector).Nodup) {t : Tx}
    (hout : ∀ w ∈ t, ¬s.area.Storage w.1)
    (hcount : ((s.journal.records.map JournalRecord.sector).toFinset ∪ t.sectors).card ≤
      maxRecords) :
    (t.forM fun w => journalMetadataWrite w.1 [w.2]) s =
      (.ok (), s.withJournalRecords (recordAll s.journal.records t)) := by
  induction t generalizing s with
  | nil => rfl
  | cons w t ih =>
    have hroom : w.1 ∈ s.journal.records.map JournalRecord.sector ∨
        s.journal.records.length < maxRecords := by
      by_cases hw : w.1 ∈ s.journal.records.map JournalRecord.sector
      · exact .inl hw
      refine .inr ?_
      have hlen : s.journal.records.length =
          ((s.journal.records.map JournalRecord.sector).toFinset).card := by
        rw [List.toFinset_card_of_nodup hn, List.length_map]
      refine hlen ▸ Nat.lt_of_lt_of_le (Finset.card_lt_card ?_) hcount
      refine Finset.ssubset_iff_subset_ne.mpr ⟨Finset.subset_union_left, fun he => hw ?_⟩
      have : w.1 ∈ (s.journal.records.map JournalRecord.sector).toFinset := by
        rw [he]
        simp [Tx.sectors]
      simpa using this
    have hstep : journalMetadataWrite w.1 [w.2] s =
        (.ok (), s.withJournalRecords (putRecord s.journal.records w.1 w.2)) := by
      rw [journalMetadataWrite, bind_of_ok (get_apply s), if_pos hactive, recordSectors,
        bind_of_ok (recordSector_ok w.2 (hout w (.head _)) hroom)]
      rfl
    refine (bind_of_ok hstep).trans ?_
    refine ih (s := s.withJournalRecords _) hactive (nodup_putRecord hn w.2)
      (fun v hv => hout v (.tail _ hv)) (Nat.le_trans (Finset.card_le_card ?_) hcount)
    intro x
    simp only [Finset.mem_union, List.mem_toFinset, Server.withJournalRecords,
      mem_sectors_putRecord, Tx.sectors, List.map_cons, List.toFinset_cons, Finset.mem_insert]
    tauto

/-! ## One transaction -/

/-- The journal can begin a transaction: it works, none is active, and the header is
cleared. -/
structure Rested (s : Server) : Prop where
  mapped : s.area.Mapped
  ready : s.journal.ready = true
  inactive : s.journal.active = false
  working : s.journal.faulted = false
  clear : Clear s.area s.dev.disk

def Server.begun (s : Server) : Server :=
  { s with journal := { s.journal with sbSnapshot := s.sb, records := [], active := true } }

theorem journalBegin_ok {s : Server} (hr : s.journal.ready = true)
    (ha : s.journal.active = false) (hf : s.journal.faulted = false) :
    journalBegin s = (.ok (), s.begun) := by
  rw [journalBegin, bind_of_ok (get_apply s), bind_of_ok (failIf_of_not (by simp [hr, ha, hf]) _ s)]
  rfl

/-- A commit that did not fault the journal leaves it ready for the next. -/
theorem Ended.rested {s s₁ s' : Server} (hend : Ended s₁ s') (h : Rested s)
    (harea : s₁.area = s.area) (hready : s₁.journal.ready = s.journal.ready)
    (hflt : s'.journal.faulted = s.journal.faulted) (hc : Clear s.area s'.dev.disk) :
    Rested s' where
  mapped := by rw [hend.area, harea]; exact h.mapped
  ready := by rw [hend.ready, hready]; exact h.ready
  inactive := hend.active
  working := by rw [hflt]; exact h.working
  clear := by rw [hend.area, harea]; exact hc

/-- A transaction the device spares: see `Spares`.  Nothing is asked of one that does not
get to write anything. -/
def Tx.Spared (s : Server) (t : Tx) : Prop :=
  t ≠ [] → Spares s t.sectors.card

/-- **One transaction.** -/
theorem runs_transaction {s : Server} (h : Rested s) {t : Tx} (ht : t.Valid s.area)
    (hsp : t.Spared s) : Runs (Recoverable s.area s.dev.disk (applyWrites s.dev.disk t))
      (transaction t) s
      (fun _ s' => Rested s' ∧ s'.area = s.area ∧
        Agrees s.area s'.dev.disk (applyWrites s.dev.disk t))
      (fun _ s' => s'.area = s.area ∧ ((Rested s' ∧ Agrees s.area s'.dev.disk s.dev.disk ∧
            Passes (Dropped s.area s.dev.disk) s s') ∨
          (s'.journal.faulted = true ∧ s'.journal.active = false ∧
            Recoverable s.area s.dev.disk (applyWrites s.dev.disk t) s'.dev.disk))) := by
  have hidle : Idle s.area s.dev.disk s.dev.disk := ⟨h.clear, fun _ _ => rfl⟩
  have hr : Recoverable s.area s.dev.disk (applyWrites s.dev.disk t) s.dev.disk :=
    .clear h.clear (.inl fun _ _ => rfl)
  let s₁ := s.begun.withJournalRecords (recordAll [] t)
  have hall : (t.forM fun w => journalMetadataWrite w.1 [w.2]) s.begun = (.ok (), s₁) :=
    forM_journalMetadataWrite (s := s.begun) rfl List.nodup_nil ht.outside
      (by simpa [Server.begun] using ht.count)
  have hnew : withRecords (recordAll [] t) s.dev.disk = applyWrites s.dev.disk t :=
    withRecords_recordAll s.dev.disk
  have hspare : recordAll [] t ≠ [] → Spares s₁ (recordAll [] t).length := by
    rw [length_recordAll]
    exact fun hne => hsp fun ht => hne (ht ▸ rfl)
  have hrec : s₁.journal.records = recordAll [] t := rfl
  have H := runs_journalCommit (s := s₁) h.mapped rfl rfl hrec ht.fits hidle
  rw [hnew] at H
  refine .bind (P := fun _ s' => s' = s.begun)
    (.of_ok (journalBegin_ok h.ready h.inactive h.working) (.still hr rfl rfl) rfl) ?_
  rintro _ _ rfl
  refine .bind (P := fun _ s' => s' = s₁) (.of_ok (tryCatch_of_ok hall) (.still hr rfl rfl) rfl) ?_
  rintro _ _ rfl
  refine H.mono (fun _ hc => hc) ?_ ?_
  · rintro _ s' ⟨hend, hflt, hd⟩
    exact ⟨hend.rested h rfl rfl hflt hd.clear, hend.area, hd.agrees⟩
  · rintro _ s' ⟨hend, ⟨hflt, hd, hpass⟩ | ⟨hflt, hd⟩⟩
    · have hd := hd hspare
      exact ⟨hend.area, .inl ⟨hend.rested h rfl rfl hflt hd.clear, hd.agrees, hpass⟩⟩
    · exact ⟨hend.area, .inr ⟨hflt, hend.active, hd⟩⟩

/-! ## A crash in one commit -/

/-- A volume of 4096 blocks of two sectors, all zero, whose journal is blocks 16 to 1039. -/
def blankServer (faults : Nat → Fault) : Server where
  dev := ⟨fun _ => 0, faults, 0, []⟩
  geo := ⟨1024, 2, 4096, 32, 8192, 32, 1, 128, 1, 2048, true, true⟩
  sb := 0
  journal := ⟨List.range' 16 1024, true, false, false, [], 0, 0⟩
  cursors := fun _ => ⟨0, 0⟩
  handles := fun _ => ⟨false, 0, fun _ => 0, 0, 0, 0, false, false, 0, 0⟩
  bulkSearchDirs := none
  boot := fun _ => 0
  capacity := 8192
  kinfo := ⟨0, 0, 0⟩

theorem blankServer_area (faults : Nat → Fault) :
    (blankServer faults).area = ⟨2, List.range' 16 1024, 4096 * 2⟩ := rfl

theorem blankServer_mapped (faults : Nat → Fault) : (blankServer faults).area.Mapped := by
  rw [blankServer_area]
  refine ⟨by decide, ?_, ?_, List.nodup_range' .., fun b hb => ?_, by decide⟩
  · rw [List.length_range']
    decide
  · simp
  · have := (List.mem_range'_1.mp hb).2
    omega

theorem blankServer_rested (faults : Nat → Fault) : Rested (blankServer faults) :=
  ⟨blankServer_mapped faults, rfl, rfl, rfl, rfl⟩

theorem blankServer_valid (faults : Nat → Fault) (v : Sector) :
    Tx.Valid (blankServer faults).area [(3000, v)] := by
  rw [blankServer_area]
  refine ⟨by simp [Tx.sectors, maxRecords], ?_, ?_⟩
  · rintro w hw
    rw [List.mem_singleton.mp hw]
    exact show 3000 < 4096 * 2 by decide
  · rintro w hw
    rw [List.mem_singleton.mp hw, Area.Storage, List.mem_range'_1]
    exact show ¬(16 ≤ 3000 / 2 % 2 ^ 32 ∧ 3000 / 2 % 2 ^ 32 < 16 + 1024) by decide

/-- **Crash atomicity.**  A commit is cut at any write, and so are any number of replays
after it; a replay that is not cut then leaves the metadata as it was before the
transaction, or as the transaction wrote it. -/
theorem commit_atomic (s : Server) (hA : s.area.Mapped) (hactive : s.journal.active = true)
    (hfits : Fits s.area s.journal.records)
    (hclear : Clear s.area s.dev.disk) (k : Nat) (d : Nat → Sector)
    (hcut : CutReplays s (applyWrites s.dev.disk ((writesOf journalCommit s).take k)) d) :
    ∃ s', journalReplay (s.recovering d) = (.ok (), s') ∧ Clear s.area s'.dev.disk ∧
      (Agrees s.area s'.dev.disk s.dev.disk ∨
        Agrees s.area s'.dev.disk (withRecords s.journal.records s.dev.disk)) := by
  have H := runs_journalCommit hA rfl hactive rfl hfits ⟨hclear, fun _ _ => rfl⟩
  exact ((cut_of_passes H.passes k).cutReplays hA hcut).replay hA

def blankActive : Server :=
  (blankServer fun _ => .none).begun.withJournalRecords [⟨3000, 1⟩]

/-- Its commit is cut after two writes, and the replay that follows after one. -/
theorem commit_atomic_blank : ∃ s', journalReplay (blankActive.recovering
        (applyWrites (applyWrites blankActive.dev.disk
          ((writesOf journalCommit blankActive).take 2))
            ((writesOf journalReplay
              (blankActive.recovering
              (applyWrites blankActive.dev.disk
              ((writesOf journalCommit blankActive).take 2)))).take 1))) = (.ok (), s') ∧
      Clear blankActive.area s'.dev.disk ∧
      (Agrees blankActive.area s'.dev.disk blankActive.dev.disk ∨
        Agrees blankActive.area s'.dev.disk
          (withRecords blankActive.journal.records blankActive.dev.disk)) :=
  commit_atomic blankActive (blankServer_mapped fun _ => .none) rfl
    (blankServer_valid (fun _ => .none) 1).fits rfl 2 _ (.cut 1 .refl)

/-! ## Sequences -/

def Server.after (s : Server) (t : Tx) : Server :=
  (transaction t s).2

/-- The metadata at a boundary of the transactions `ts` run from `s`: before the first of
them, after the first of them unless it was refused, or at a boundary of the others if
the journal still works. -/
inductive Boundary : Server → List Tx → (Nat → Sector) → Prop
  | start {s : Server} {ts : List Tx} : Boundary s ts s.dev.disk
  | done {s : Server} {t : Tx} {ts : List Tx} :
      (transaction t s).1 = .ok () ∨ (s.after t).journal.faulted = true →
      Boundary s (t :: ts) (applyWrites s.dev.disk t)
  | later {s : Server} {t : Tx} {ts : List Tx} {m : Nat → Sector} :
      (s.after t).journal.faulted = false → Boundary (s.after t) ts m →
      Boundary s (t :: ts) m

def Spared : Server → List Tx → Prop
  | _, [] => True
  | s, t :: ts => (s.journal.faulted = false → t.Spared s) ∧ Spared (s.after t) ts

def AtBoundary (A : Area) (s : Server) (ts : List Tx) (d : Nat → Sector) : Prop :=
  ∃ old new, Recoverable A old new d ∧ Boundary s ts old ∧ Boundary s ts new

section Sequence
variable {s : Server} {t : Tx} {ts : List Tx}

theorem transaction_of_faulted (h : s.journal.faulted = true) (t : Tx) :
    transaction t s = (.error (-1), s) := by
  have hb : journalBegin s = (.error (-1), s) := by
    rw [journalBegin, bind_of_ok (get_apply s)]
    exact bind_of_error (failIf_of (by simp [h]) _ s)
  exact bind_of_error hb

theorem transactions_of_faulted (h : s.journal.faulted = true) (ts : List Tx) :
    transactions ts s = (.ok (), s) := by
  induction ts with
  | nil => rfl
  | cons t ts ih =>
    have ht : (tryCatch (transaction t) fun _ => pure () : M Unit) s = (.ok (), s) :=
      tryCatch_of_error (transaction_of_faulted h t)
    exact (bind_of_ok ht).trans ih

theorem transactions_cons : transactions (t :: ts) s = transactions ts (s.after t) := by
  match h : transaction t s with
  | (.ok (), s') =>
    have ht : (tryCatch (transaction t) fun _ => pure () : M Unit) s = (.ok (), s') :=
      tryCatch_of_ok h
    rw [Server.after, h]
    exact bind_of_ok ht
  | (.error e, s') =>
    have ht : (tryCatch (transaction t) fun _ => pure () : M Unit) s = (.ok (), s') :=
      tryCatch_of_error h
    rw [Server.after, h]
    exact bind_of_ok ht

theorem passes_after (h : Rested s) (ht : t.Valid s.area) (hsp : t.Spared s) (ts : List Tx) :
    Passes (AtBoundary s.area s (t :: ts)) s (s.after t) ∧ (s.after t).area = s.area ∧
      (Rested (s.after t) ∨ (s.after t).journal.faulted = true) := by
  have H := runs_transaction h ht hsp
  have hp := H.passes
  match hr : transaction t s with
  | (.ok (), s') =>
    obtain ⟨hrest, harea, -⟩ := H.ok () s' hr
    have hafter : s.after t = s' := by rw [Server.after, hr]
    rw [hr] at hp
    rw [hafter]
    exact ⟨hp.mono fun d hd => ⟨_, _, hd, .start, .done (.inl (by rw [hr]))⟩, harea, .inl hrest⟩
  | (.error e, s') =>
    obtain ⟨harea, hcase⟩ := H.error e s' hr
    have hafter : s.after t = s' := by rw [Server.after, hr]
    rw [hr] at hp
    rw [hafter]
    refine ⟨?_, harea, hcase.imp (·.1) (·.1)⟩
    rcases hcase with ⟨-, -, hpass⟩ | ⟨hflt, -, -⟩
    · exact hpass.mono fun d hd => ⟨_, _, hd.recoverable _, .start, .start⟩
    · exact hp.mono fun d hd => ⟨_, _, hd, .start, .done (.inr (by rw [hafter]; exact hflt))⟩

/-- What a sequence of transactions passes through is at a boundary. -/
theorem passes_transactions (h : Rested s) (hv : ∀ t ∈ ts, t.Valid s.area) (hsp : Spared s ts) :
    Passes (AtBoundary s.area s ts) s (transactions ts s).2 := by
  induction ts generalizing s with
  | nil => exact .still ⟨_, _, .clear h.clear (.inl fun _ _ => rfl), .start, .start⟩ rfl rfl
  | cons t ts ih =>
    obtain ⟨hpass, harea, hrest | hflt⟩ := passes_after h (hv t (.head _)) (hsp.1 h.working) ts
    · rw [transactions_cons]
      have hv' : ∀ t' ∈ ts, t'.Valid (s.after t).area := fun t' ht' => harea ▸ hv t' (.tail _ ht')
      refine hpass.trans ((ih hrest hv' hsp.2).mono ?_)
      rintro d ⟨old, new, hrec, hold, hnew⟩
      exact ⟨old, new, harea ▸ hrec, .later hrest.working hold, .later hrest.working hnew⟩
    · rw [transactions_cons, transactions_of_faulted hflt]
      exact hpass

end Sequence

/-- **Failed commits.**  Transactions follow one another on a device that may report errors,
though not on a prepared header it has stored or on the flush after it, and the machine
stops at some write: replay then succeeds, and the metadata is that of a transaction
boundary. -/
theorem replay_of_spared (s : Server) (h : Rested s) (ts : List Tx)
    (hv : ∀ t ∈ ts, t.Valid s.area) (hsp : Spared s ts) (k : Nat) :
    ∃ s' m, journalReplay (s.recovering
        (applyWrites s.dev.disk ((writesOf (transactions ts) s).take k))) = (.ok (), s') ∧
      Clear s.area s'.dev.disk ∧ Boundary s ts m ∧ Agrees s.area s'.dev.disk m := by
  obtain ⟨old, new, hrec, hold, hnew⟩ := cut_of_passes (passes_transactions h hv hsp) k
  obtain ⟨s', hr, hc, ha | ha⟩ := hrec.replay h.mapped
  · exact ⟨s', old, hr, hc, hold, ha⟩
  · exact ⟨s', new, hr, hc, hnew, ha⟩

/-- A device that loses the first descriptor sector, or any other one write. -/
theorem replay_of_spared_blank : let s := blankServer fun n => if n = 0 then .lost else .none
    ∀ k, ∃ s' m, journalReplay (s.recovering
        (applyWrites s.dev.disk ((writesOf (transactions [[(3000, 1)]]) s).take k))) =
          (.ok (), s') ∧
      Clear s.area s'.dev.disk ∧ Boundary s [[(3000, 1)]] m ∧ Agrees s.area s'.dev.disk m := by
  intro s k
  have hv : ∀ t ∈ [[(3000, 1)]], Tx.Valid s.area t := fun t ht =>
    List.mem_singleton.mp ht ▸ blankServer_valid _ 1
  have hsp : Spared s [[(3000, 1)]] :=
    ⟨fun _ _ hsteady => absurd (hsteady 0 (by simp)) (by decide), trivial⟩
  exact replay_of_spared s (blankServer_rested _) [[(3000, 1)]] hv hsp k

/-- **Failed commits**, otherwise.  The flush after the prepared header of a first transaction
reports an error; a second transaction is cut after its first descriptor sector.  The
header still seals the descriptors of the first, and replay fails. -/
theorem replay_fails_after_flush_error :
    let s := blankServer fun n => if n = 6 then .lost else .none
    let ts : List Tx := [[(3000, 1)], [(3000, 2)]]
    Rested s ∧ (∀ t ∈ ts, t.Valid s.area) ∧ (journalReplay (s.recovering
        (applyWrites s.dev.disk ((writesOf (transactions ts) s).take 5)))).1 = .error (-1) := by
  refine ⟨blankServer_rested _, ?_, by decide +kernel⟩
  intro t ht
  rcases List.mem_pair.mp ht with rfl | rfl
  · exact blankServer_valid _ _
  · exact blankServer_valid _ _

end Robu.Ext2
