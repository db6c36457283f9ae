import Robu.Ext2.Recovery

/-!
# Commit and replay under crashes and device errors

The crash triples of the journal's functions.  `Went s₀ n d s` says where a run is: `n`
device requests after `s₀`, none of which met an error, with the disk `d` and nothing else
changed.
-/

namespace Robu.Ext2

open Function (update update_of_ne update_self)

open Lib Fallible

/-- The state `n` device requests after `s₀`, with the disk `d`. -/
def Moved (s₀ : Server) (n : Nat) (d : Nat → Sector) (s : Server) : Prop :=
  ∃ l, s = { s₀ with dev := { s₀.dev with disk := d, time := s₀.dev.time + n, log := l } }

structure Went (s₀ : Server) (n : Nat) (d : Nat → Sector) (s : Server) : Prop where
  moved : Moved s₀ n d s
  steady : ∀ u < n, s₀.dev.faults (s₀.dev.time + u) = .none

def Failed (s₀ : Server) (D : (Nat → Sector) → Prop) (_ : Int) (s : Server) : Prop :=
  ∃ n d, Moved s₀ n d s ∧ D d

theorem Went.refl (s : Server) : Went s 0 s.dev.disk s :=
  ⟨⟨s.dev.log, rfl⟩, fun _ hu => absurd hu (Nat.not_lt_zero _)⟩

section Device
variable {s₀ s s' : Server} {n x : Nat} {d d' : Nat → Sector} {v : Sector}
  {C D : (Nat → Sector) → Prop}

section Moved

variable (h : Moved s₀ n d s)
include h

theorem Moved.disk : s.dev.disk = d := by
  obtain ⟨l, rfl⟩ := h
  rfl

theorem Moved.area : s.area = s₀.area := by
  obtain ⟨l, rfl⟩ := h
  rfl

theorem Moved.journal : s.journal = s₀.journal := by
  obtain ⟨l, rfl⟩ := h
  rfl

theorem Moved.tick : Moved s₀ (n + 1) d { s with dev := s.dev.tick } := by
  obtain ⟨l, rfl⟩ := h
  exact ⟨l, rfl⟩

theorem Moved.store (x : Nat) (v : Sector) :
    Moved s₀ (n + 1) (update d x v) { s with dev := (s.dev.store x v).tick } := by
  obtain ⟨l, rfl⟩ := h
  exact ⟨l ++ [(x, v)], rfl⟩

theorem Moved.fault : s.dev.faults s.dev.time = s₀.dev.faults (s₀.dev.time + n) := by
  obtain ⟨l, rfl⟩ := h
  rfl

end Moved

variable (h : Went s₀ n d s)

include h

theorem Went.disk : s.dev.disk = d := h.moved.disk

theorem Went.succ (hm : Moved s₀ (n + 1) d' s')
    (hf : s₀.dev.faults (s₀.dev.time + n) = .none) : Went s₀ (n + 1) d' s' := by
  refine ⟨hm, fun u hu => ?_⟩
  rcases Nat.lt_succ_iff_lt_or_eq.mp hu with hu | rfl
  · exact h.steady u hu
  · exact hf

theorem Went.passes_tick (hc : C d) : Passes C s { s with dev := s.dev.tick } :=
  .still (show C s.dev.disk from h.disk ▸ hc) rfl rfl

theorem Went.passes_store (hc : C d) (hc' : C (update d x v)) :
    Passes C s { s with dev := (s.dev.store x v).tick } := by
  refine ⟨[(x, v)], rfl, rfl, ?_⟩
  rw [show Logged.cells s = d from h.disk]
  exact .cons hc (along_nil.mpr hc')

/-- A request that stores nothing. -/
theorem runs_request {α : Type} {m : M α} {a : α} (hc : C d)
    (hD : s₀.dev.faults (s₀.dev.time + n) ≠ .none → D d)
    (hm : m s = match s.dev.faults s.dev.time with
      | .none => (.ok a, { s with dev := s.dev.tick })
      | _ => (.error (-1), { s with dev := s.dev.tick })) :
    Runs C m s (fun b s' => b = a ∧ Went s₀ (n + 1) d s') (Failed s₀ D) := by
  rw [h.moved.fault] at hm
  cases hf : s₀.dev.faults (s₀.dev.time + n) with
  | none =>
    rw [hf] at hm
    exact .of_ok hm (h.passes_tick hc) ⟨rfl, h.succ h.moved.tick hf⟩
  | lost | kept =>
    rw [hf] at hm
    exact .of_error hm (h.passes_tick hc) ⟨n + 1, d, h.moved.tick, hD (by rw [hf]; nofun)⟩

theorem runs_readSector (hc : C d) (hD : s₀.dev.faults (s₀.dev.time + n) ≠ .none → D d) :
    Runs C (readSector x) s (fun v s' => v = d x ∧ Went s₀ (n + 1) d s') (Failed s₀ D) :=
  runs_request h hc hD (by rw [← h.disk]; rfl)

theorem runs_blkdevFlush (hc : C d) (hD : s₀.dev.faults (s₀.dev.time + n) ≠ .none → D d) :
    Runs C blkdevFlush s (fun _ s' => Went s₀ (n + 1) d s') (Failed s₀ D) :=
  (runs_request h hc hD rfl).post fun _ _ hq => hq.2

theorem runs_writeSector (hc : C d) (hc' : C (update d x v))
    (hlost : s₀.dev.faults (s₀.dev.time + n) = .lost → D d)
    (hkept : s₀.dev.faults (s₀.dev.time + n) = .kept → D (update d x v)) :
    Runs C (writeSector x v) s (fun _ s' => Went s₀ (n + 1) (update d x v) s') (Failed s₀ D) := by
  cases hf : s₀.dev.faults (s₀.dev.time + n) with
  | none =>
    have hm : writeSector x v s = (.ok (), { s with dev := (s.dev.store x v).tick }) := by
      rw [writeSector, h.moved.fault, hf]
    exact .of_ok hm (h.passes_store hc hc') (h.succ (h.moved.store x v) hf)
  | lost =>
    have hm : writeSector x v s = (.error (-1), { s with dev := s.dev.tick }) := by
      rw [writeSector, h.moved.fault, hf]
    exact .of_error hm (h.passes_tick hc) ⟨n + 1, d, h.moved.tick, hlost hf⟩
  | kept =>
    have hm : writeSector x v s = (.error (-1), { s with dev := (s.dev.store x v).tick }) := by
      rw [writeSector, h.moved.fault, hf]
    exact .of_error hm (h.passes_store hc hc') ⟨n + 1, _, h.moved.store x v, hkept hf⟩

end Device

/-! ## The journal's sectors -/

section Journal
variable {s₀ s : Server} {A : Area} (hA : A.Mapped) (hs : s₀.area = A)
variable {n k : Nat} {d : Nat → Sector} {v : Sector} {C D : (Nat → Sector) → Prop}
include hA hs

theorem runs_journalDiskRead (hk : k < journalSectors) (h : Went s₀ n d s) (hc : C d)
    (hD : s₀.dev.faults (s₀.dev.time + n) ≠ .none → D d) :
    Runs C (journalDiskRead k) s (fun v s' => v = d (A.loc k) ∧ Went s₀ (n + 1) d s')
      (Failed s₀ D) := by
  have hm : journalDiskRead k s = readSector (A.loc k) s := by
    simp only [journalDiskRead, bind_of_ok (get_apply s),
      hA.journalMapSector (h.moved.area.trans hs) hk]
  exact .of_eq hm (runs_readSector h hc hD)

theorem runs_journalDiskWrite (hk : k < journalSectors) (h : Went s₀ n d s) (hc : C d)
    (hc' : C (update d (A.loc k) v)) (hlost : s₀.dev.faults (s₀.dev.time + n) = .lost → D d)
    (hkept : s₀.dev.faults (s₀.dev.time + n) = .kept → D (update d (A.loc k) v)) :
    Runs C (journalDiskWrite k v) s
      (fun _ s' => Went s₀ (n + 1) (update d (A.loc k) v) s') (Failed s₀ D) := by
  have hm : journalDiskWrite k v s = writeSector (A.loc k) v s := by
    simp only [journalDiskWrite, bind_of_ok (get_apply s),
      hA.journalMapSector (h.moved.area.trans hs) hk]
  exact .of_eq hm (runs_writeSector h hc hc' hlost hkept)

theorem runs_readDescriptors (h : Went s₀ n d s) (hc : C d)
    (hD : s₀.dev.faults (s₀.dev.time + n) ≠ .none ∨
      s₀.dev.faults (s₀.dev.time + (n + 1)) ≠ .none → D d) :
    Runs C readDescriptors s (fun v s' => v = descriptorsAt A d ∧ Went s₀ (n + 2) d s')
      (Failed s₀ D) := by
  refine .bind (runs_journalDiskRead hA hs (by decide) h hc fun hf => hD (.inl hf)) ?_
  rintro a s₁ ⟨rfl, h₁⟩
  refine .bind (runs_journalDiskRead hA hs (by decide) h₁ hc fun hf => hD (.inr hf)) ?_
  rintro b s₂ ⟨rfl, h₂⟩
  exact .pure (show C s₂.dev.disk from h₂.disk ▸ hc) ⟨rfl, h₂⟩

theorem runs_journalClear (h : Went s₀ n d s) (hc : C d) (hc' : C (update d (A.loc headerSector) 0))
    (hlost : s₀.dev.faults (s₀.dev.time + n) = .lost → D d)
    (hD : s₀.dev.faults (s₀.dev.time + n) ≠ .none ∨ s₀.dev.faults (s₀.dev.time + (n + 1)) ≠ .none →
      D (update d (A.loc headerSector) 0)) :
    Runs C journalClear s (fun _ s' => Went s₀ (n + 2) (update d (A.loc headerSector) 0) s')
      (Failed s₀ D) := by
  refine .bind (runs_journalDiskWrite hA hs (by decide) h hc hc' hlost fun hf =>
    hD (.inl (by simp [hf]))) ?_
  rintro _ s₁ h₁
  exact runs_blkdevFlush h₁ hc' fun hf => hD (.inr hf)

end Journal

/-! ## Replay -/

section Replay
variable {s₀ s : Server} {A : Area} (hA : A.Mapped) (hs : s₀.area = A)
variable (hok : ∀ n, s₀.dev.faults n = .none)
variable {n : Nat} {d old new : Nat → Sector} {records : List JournalRecord}
include hA hs hok

/-- Wherever the replay is cut, it can be run again. -/
theorem runs_replayRecords {i count : Nat} (hi : i + count = records.length)
    (h : Went s₀ n d s) (hc : Committed A records new d) :
    Runs (Recoverable A old new) (replayRecords (makeDescriptors records) i count) s
      (fun _ s' => ∃ n',
        Went s₀ n' (applyWrites d ((records.drop i).map fun r => (r.sector, r.data))) s' ∧
        Committed A records new s'.dev.disk)
      (Failed s₀ fun _ => False) := by
  induction count generalizing i n d s with
  | zero =>
    rw [List.drop_of_length_le (by omega)]
    exact .pure (show Recoverable A old new s.dev.disk from h.disk ▸ .committed hc)
      ⟨n, h, h.disk ▸ hc⟩
  | succ count ih =>
    have hlt : i < records.length := by omega
    have hr : records[i]? = some records[i] := List.getElem?_eq_getElem hlt
    have hmem : records[i] ∈ records := List.getElem_mem hlt
    have hk : payloadSector + i < journalSectors := by
      have := hc.fits.count
      simp only [payloadSector, journalSectors, maxRecords] at *
      omega
    have hvol : records[i].sector < A.limit := hc.fits.volume _ hmem
    obtain ⟨htarget, hsum⟩ :=
      descriptor_makeDescriptors hr (Nat.lt_of_lt_of_le hvol hA.limit) hc.fits.count
    have hd := hc.update_record hA hmem (v := records[i].data)
    rw [List.drop_eq_getElem_cons hlt, List.map_cons, applyWrites_cons]
    -- the target is a sector of the volume outside the journal
    have hgo : ¬(descriptorTarget (makeDescriptors records) i ≥ s.geo.blocksCount *
      s.geo.sectorsPerBlock ∨
        journalStorageSector s (descriptorTarget (makeDescriptors records) i) = true) := by
      rw [htarget, Area.journalStorageSector_iff, h.moved.area, hs]
      have hlim : s.geo.blocksCount * s.geo.sectorsPerBlock = A.limit :=
        congrArg Area.limit (h.moved.area.trans hs)
      rw [hlim]
      rintro (hge | hst)
      · omega
      · exact hc.fits.outside _ hmem hst
    refine .get_bind (.failIf_bind hgo ?_)
    refine .bind (runs_journalDiskRead hA hs hk h (.committed hc) fun hf => absurd (hok _) hf) ?_
    rintro payload s₁ ⟨hpay, h₁⟩
    rw [hc.loaded.payloads i _ hr] at hpay
    subst hpay
    refine .failIf_bind (by rw [hsum]; simp) ?_
    rw [htarget]
    refine .bind (runs_writeSector h₁ (.committed hc) (.committed hd)
      (fun hf => by rw [hok] at hf; cases hf) (fun hf => by rw [hok] at hf; cases hf)) ?_
    rintro _ s₂ h₂
    exact ih (by omega) h₂ hd

/-- A sealed header is dropped if prepared; if committed, its records are written. -/
theorem runs_replayHeader {C : (Nat → Sector) → Prop} {Q : Unit → Server → Prop}
    {sequence state count : Nat} (hstate : state = statePrepared ∨ state = stateCommitted)
    (hcount : count ≤ maxRecords) (h : Went s₀ n d s) (hc : C d)
    (hk : ∀ s', Went s₀ (n + 2) d s' → Runs C (if state = statePrepared then journalClear else do
        replayRecords (descriptorsAt A d) 0 count
        blkdevFlush
        journalClear) s' Q (Failed s₀ fun _ => False)) :
    Runs C (replayHeader (sealHeader sequence state count (descriptorsAt A d))) s Q
      (Failed s₀ fun _ => False) := by
  have hst : u32Get (sealHeader sequence state count (descriptorsAt A d)) 12 = state := by
    rw [fields_sealHeader.2.1]
    rcases hstate with rfl | rfl <;> rfl
  have hcnt : u32Get (sealHeader sequence state count (descriptorsAt A d)) 16 = count := by
    rw [fields_sealHeader.2.2, Nat.mod_eq_of_lt (by simp only [maxRecords] at hcount; omega)]
  have hfields : ¬((state ≠ statePrepared ∧ state ≠ stateCommitted) ∨ count > maxRecords) := by
    simp only [maxRecords] at *
    omega
  refine .failIf_bind (by simp [journalHeaderValid_sealHeader]) ?_
  refine .failIf_bind (by simp [headerChecksum_sealHeader]) ?_
  refine .failIf_bind (by rwa [hst, hcnt]) ?_
  refine .bind (runs_readDescriptors hA hs h hc fun hf => by simp [hok] at hf) ?_
  rintro desc s₁ ⟨rfl, h₁⟩
  refine .failIf_bind (by simp [descriptorChecksum_sealHeader]) ?_
  rw [hst, hcnt]
  exact hk s₁ h₁

theorem runs_replayClear (h : Went s₀ n d s) (hr : Recoverable A old new d)
    (ha : Agrees A d old ∨ Agrees A d new) :
    Runs (Recoverable A old new) journalClear s
      (fun _ s' => Clear A s'.dev.disk ∧ (Agrees A s'.dev.disk old ∨ Agrees A s'.dev.disk new))
      (Failed s₀ fun _ => False) := by
  have ha' : Agrees A (update d (A.loc headerSector) 0) old ∨
      Agrees A (update d (A.loc headerSector) 0) new :=
    ha.imp (fun h => h.update_loc hA (by decide)) (fun h => h.update_loc hA (by decide))
  refine (runs_journalClear hA hs h hr (.clear (Clear.update_header) ha')
    (fun hf => by rw [hok] at hf; cases hf) (fun hf => by simp [hok] at hf)).post ?_
  rintro _ s' h'
  rw [h'.disk]
  exact ⟨Clear.update_header, ha'⟩

/-- **Replay.**  From a recoverable disk replay succeeds and ends with `old` or `new`;
wherever it is cut, the disk is recoverable again. -/
theorem runs_journalReplay (h : Recoverable A old new s₀.dev.disk) :
    Runs (Recoverable A old new) journalReplay s₀
      (fun _ s' => Clear A s'.dev.disk ∧ (Agrees A s'.dev.disk old ∨ Agrees A s'.dev.disk new))
      (fun _ _ => False) := by
  have hfalse : ∀ e s, Failed s₀ (fun _ => False) e s → False := fun _ _ ⟨_, _, _, h⟩ => h
  refine Runs.mono ?_ (fun _ h => h) (fun _ _ h => h) hfalse
  refine .bind (runs_journalDiskRead hA hs (by decide) (.refl s₀) h fun hf => absurd (hok _) hf) ?_
  rintro header s₁ ⟨rfl, h₁⟩
  generalize s₀.dev.disk = d at h h₁
  have hr : Recoverable A old new d := h
  cases h with
  | clear hc ha =>
    rw [show d (A.loc headerSector) = 0 from hc, if_pos rfl]
    exact .pure (show Recoverable A old new s₁.dev.disk from h₁.disk ▸ hr) (h₁.disk ▸ ⟨hc, ha⟩)
  | prepared hcount hseal ha =>
    obtain ⟨sequence, hheader⟩ := hseal
    rw [hheader, if_neg sealHeader_ne_zero]
    refine runs_replayHeader hA hs hok (.inl rfl) hcount h₁ hr fun s₂ h₂ => ?_
    rw [if_pos rfl]
    exact runs_replayClear hA hs hok h₂ hr (.inl ha)
  | committed hc =>
    obtain ⟨sequence, hheader⟩ := hc.header
    rw [hheader, if_neg sealHeader_ne_zero]
    refine runs_replayHeader hA hs hok (.inr rfl) hc.fits.count h₁ hr fun s₂ h₂ => ?_
    rw [if_neg (by decide), hc.loaded.descriptors]
    refine .bind (runs_replayRecords hA hs hok (by omega) h₂ hc) ?_
    rintro _ s₃ ⟨n₃, h₃, hc₃⟩
    rw [h₃.disk] at hc₃
    rw [List.drop_zero, applyWrites_records d hc.fits.nodup] at h₃ hc₃
    refine .bind (runs_blkdevFlush h₃ (.committed hc₃) fun hf => absurd (hok _) hf) ?_
    rintro _ s₄ h₄
    exact runs_replayClear hA hs hok h₄ (.committed hc₃) (.inr hc.agrees)

end Replay

/-! ## Commit -/

/-- No transaction is on the disk, and the metadata is `m`. -/
structure Idle (A : Area) (m d : Nat → Sector) : Prop where
  clear : Clear A d
  agrees : Agrees A d m

/-- The descriptors and the first `i` payloads on the disk are those of `records`. -/
structure LoadedTo (A : Area) (records : List JournalRecord) (i : Nat) (d : Nat → Sector) :
    Prop where
  descriptors : descriptorsAt A d = makeDescriptors records
  payloads : ∀ j < i, ∀ r, records[j]? = some r → d (A.loc (payloadSector + j)) = r.data

section Commit
variable {s₀ s : Server} {A : Area} (hA : A.Mapped) (hs : s₀.area = A)
variable {n i k : Nat} {d old : Nat → Sector} {v : Sector} {records : List JournalRecord}
include hA

theorem Idle.update_loc (h : Idle A old d) (hk : k < journalSectors) (h0 : k ≠ headerSector) :
    Idle A old (update d (A.loc k) v) :=
  ⟨h.clear.update_loc hA hk h0, h.agrees.update_loc hA hk⟩

theorem LoadedTo.update_payload {r : JournalRecord} (h : LoadedTo A records i d)
    (hr : records[i]? = some r) (hlen : records.length ≤ maxRecords) :
    LoadedTo A records (i + 1) (update d (A.loc (payloadSector + i)) r.data) := by
  have hi : i < records.length := (List.getElem?_eq_some_iff.mp hr).1
  simp only [maxRecords] at hlen
  have hk : payloadSector + i < journalSectors := by
    simp only [payloadSector, journalSectors]
    omega
  refine ⟨?_, fun j hj r' hr' => ?_⟩
  · rw [descriptorsAt_update_loc hA hk (by simp only [payloadSector, descriptorSector]; omega)
      (by simp only [payloadSector, descriptorSector]; omega)]
    exact h.descriptors
  · rcases Nat.lt_succ_iff_lt_or_eq.mp hj with hj | rfl
    · have hkj : payloadSector + j < journalSectors := by omega
      rw [update_of_ne (hA.loc_ne hkj hk (by omega))]
      exact h.payloads j hj r' hr'
    · rw [update_self]
      exact congrArg JournalRecord.data (Option.some.inj (hr ▸ hr'))

omit hA in
theorem LoadedTo.loaded (h : LoadedTo A records i d) (hi : records.length ≤ i) :
    Loaded A records d :=
  ⟨h.descriptors, fun j r hr =>
    h.payloads j (Nat.lt_of_lt_of_le (List.getElem?_eq_some_iff.mp hr).1 hi) r hr⟩

include hs

/-- Descriptors touch the journal only. -/
theorem runs_journalWriteDescriptors (hrec : s₀.journal.records = records)
    (h : Went s₀ n d s) (hd : Idle A old d) :
    Runs (Dropped A old) journalWriteDescriptors s
      (fun _ s' => ∃ d', Went s₀ (n + 2) d' s' ∧ Idle A old d' ∧ LoadedTo A records 0 d')
      (Failed s₀ (Idle A old)) := by
  have hr : ∀ {d}, Idle A old d → Dropped A old d := fun h => .clear h.clear h.agrees
  refine .get_bind ?_
  rw [h.moved.journal, hrec]
  have hd₁ := fun v => hd.update_loc hA (k := descriptorSector) (v := v) (by decide) (by decide)
  refine .bind (runs_journalDiskWrite hA hs (by decide) h (hr hd) (hr (hd₁ _))
    (fun _ => hd) (fun _ => hd₁ _)) ?_
  rintro _ s₁ h₁
  have hd₂ := fun v => (hd₁ ((makeDescriptors records).slice 0 512)).update_loc hA
    (k := descriptorSector + 1) (v := v) (by decide) (by decide)
  refine (runs_journalDiskWrite hA hs (by decide) h₁ (hr (hd₁ _)) (hr (hd₂ _))
    (fun _ => hd₁ _) (fun _ => hd₂ _)).post ?_
  rintro _ s₂ h₂
  refine ⟨_, h₂, hd₂ _, ?_, fun j hj => absurd hj (Nat.not_lt_zero _)⟩
  rw [descriptorsAt, update_self, update_of_ne (hA.loc_ne (by decide) (by decide) (by decide)),
    update_self, join_descriptors]

theorem runs_writePayloads (hlen : records.length ≤ maxRecords)
    (rs : List JournalRecord) (hi : records.drop i = rs) (h : Went s₀ n d s)
    (hd : Idle A old d) (hl : LoadedTo A records i d) :
    Runs (Dropped A old) (writePayloads i rs) s
      (fun _ s' => ∃ d', Went s₀ (n + rs.length) d' s' ∧ Idle A old d' ∧ Loaded A records d')
      (Failed s₀ (Idle A old)) := by
  have hr : ∀ {d}, Idle A old d → Dropped A old d := fun h => .clear h.clear h.agrees
  induction rs generalizing i n d s with
  | nil =>
    exact .pure (show Dropped A old s.dev.disk from h.disk ▸ hr hd)
      ⟨d, h, hd, hl.loaded (List.drop_eq_nil_iff.mp hi)⟩
  | cons r rs ih =>
    have hget : records[i]? = some r := by
      rw [← List.head?_drop, hi, List.head?_cons]
    have hlt : i < records.length := (List.getElem?_eq_some_iff.mp hget).1
    have hk : payloadSector + i < journalSectors := by
      simp only [maxRecords, payloadSector, journalSectors] at *
      omega
    have hd₁ := hd.update_loc hA (v := r.data) hk
      (by simp only [payloadSector, headerSector]; omega)
    refine .bind (runs_journalDiskWrite hA hs hk h (hr hd) (hr hd₁) (fun _ => hd) (fun _ => hd₁)) ?_
    rintro _ s₁ h₁
    refine (ih (by rw [← List.tail_drop, hi, List.tail_cons]) h₁ hd₁
      (hl.update_payload hA hget hlen)).post ?_
    rintro _ s₂ ⟨d₂, h₂, hrest⟩
    exact ⟨d₂, by rwa [List.length_cons, Nat.add_comm rs.length 1, ← Nat.add_assoc], hrest⟩

theorem runs_journalWriteHeader {C D : (Nat → Sector) → Prop} {state : Nat} {d' : Nat → Sector}
    (h : Went s₀ n d s) (hd' : update d (A.loc headerSector) (sealHeader s₀.journal.sequence state
      s₀.journal.records.length (descriptorsAt A d)) = d') (hc : C d) (hc' : C d') (hD : D d)
    (hkept : s₀.dev.faults (s₀.dev.time + (n + 2)) = .kept → (∀ u < n + 2,
      s₀.dev.faults (s₀.dev.time + u) = .none) → D d') :
    Runs C (journalWriteHeader state) s (fun _ s' => Went s₀ (n + 3) d' s') (Failed s₀ D) := by
  subst hd'
  refine .get_bind ?_
  rw [h.moved.journal]
  refine .bind (runs_readDescriptors hA hs h hc fun _ => hD) ?_
  rintro desc s₁ ⟨rfl, h₁⟩
  exact runs_journalDiskWrite hA hs (by decide) h₁ hc hc' (fun _ => hD)
    (fun hf => hkept hf h₁.steady)

/-- The request that writes the prepared header does not report an error after having
stored the header, and the flush after it reports none.  The commit makes them after two
descriptor writes, the payload writes and two reads. -/
def Spares (s : Server) (count : Nat) : Prop :=
  (∀ u < count + 4, s.dev.faults (s.dev.time + u) = .none) →
    s.dev.faults (s.dev.time + (count + 4)) ≠ .kept ∧
      (s.dev.faults (s.dev.time + (count + 4)) = .none →
        s.dev.faults (s.dev.time + (count + 5)) = .none)

/-- Wherever a prepare is cut, replay leaves the old metadata. -/
theorem runs_journalPrepare (hrec : s₀.journal.records = records)
    (hlen : records.length ≤ maxRecords) (hd : Idle A old s₀.dev.disk) :
    Runs (Dropped A old) journalPrepare s₀ (fun _ s' => ∃ d', Went s₀ (records.length + 6) d' s' ∧
        Sealed A statePrepared records.length d' ∧ Loaded A records d' ∧ Agrees A d' old)
      (Failed s₀ fun d => Dropped A old d ∧ (Spares s₀ records.length → Idle A old d)) := by
  have hdrop : ∀ {d}, Idle A old d → Dropped A old d := fun h => .clear h.clear h.agrees
  have hfail : ∀ (e : Int) s', Failed s₀ (Idle A old) e s' →
      Failed s₀ (fun d => Dropped A old d ∧ (Spares s₀ records.length → Idle A old d)) e s' := by
    rintro e s' ⟨n, d, hm, hidle⟩
    exact ⟨n, d, hm, hdrop hidle, fun _ => hidle⟩
  refine .bind ((runs_journalWriteDescriptors hA hs hrec (.refl s₀) hd).mono (fun _ h => h)
    (fun _ _ h => h) hfail) ?_
  rintro _ s₁ ⟨d₁, h₁, hd₁, hl₁⟩
  refine .bind (P := fun _ s' => ∃ d', Went s₀ (records.length + 2) d' s' ∧ Idle A old d' ∧
    Loaded A records d') ?_ ?_
  · refine .get_bind ?_
    rw [h₁.moved.journal, hrec]
    refine (runs_writePayloads hA hs hlen records rfl h₁ hd₁ hl₁).mono (fun _ h => h) ?_ hfail
    rintro _ s₂ ⟨d₂, h₂, hrest⟩
    exact ⟨d₂, by rwa [Nat.add_comm (0 + 2)] at h₂, hrest⟩
  · rintro _ s₂ ⟨d₂, h₂, hd₂, hl₂⟩
    have hseal := Sealed.update_header hA s₀.journal.sequence statePrepared records.length d₂
    have ha := hd₂.agrees.update_loc hA (k := headerSector)
      (v := sealHeader s₀.journal.sequence statePrepared records.length (descriptorsAt A d₂))
      (by decide)
    have hprepared := Dropped.prepared hlen hseal ha
    rw [← hrec] at hprepared
    refine .bind (runs_journalWriteHeader hA hs h₂ rfl (hdrop hd₂) hprepared ⟨hdrop hd₂, fun _ =>
      hd₂⟩ ?_) ?_
    · exact fun hf hsteady => ⟨hprepared, fun hspare => absurd hf (hspare hsteady).1⟩
    · rintro _ s₃ h₃
      rw [hrec] at h₃ hprepared
      have hflush := fun hspare : Spares s₀ records.length =>
        (hspare fun u hu => h₃.steady u (by omega)).2 (h₃.steady _ (by omega))
      refine (runs_blkdevFlush h₃ hprepared fun hf =>
        ⟨hprepared, fun hspare => absurd (hflush hspare) hf⟩).post ?_
      exact fun _ s₄ h₄ => ⟨_, h₄, hseal, hl₂.update_header hA hlen, ha⟩

omit hs in
theorem runs_writeHome {new : Nat → Sector} (rs : List JournalRecord)
    (hsub : ∀ r ∈ rs, r ∈ records) (h : Went s₀ n d s) (hc : Committed A records new d) :
    Runs (Recoverable A old new) (writeHome rs) s
      (fun _ s' => ∃ n', Went s₀ n' (applyWrites d (rs.map fun r => (r.sector, r.data))) s' ∧
        Committed A records new (applyWrites d (rs.map fun r => (r.sector, r.data))))
      (Failed s₀ (Recoverable A old new)) := by
  induction rs generalizing n d s with
  | nil =>
    exact .pure (show Recoverable A old new s.dev.disk from h.disk ▸ .committed hc) ⟨n, h, hc⟩
  | cons r rs ih =>
    have hc₁ := hc.update_record hA (v := r.data) (hsub r (.head _))
    refine .bind (runs_writeSector h (.committed hc) (.committed hc₁)
      (fun _ => .committed hc) (fun _ => .committed hc₁)) ?_
    rintro _ s₁ h₁
    exact ih (fun r' hr' => hsub r' (.tail _ hr')) h₁ hc₁

/-- Wherever the home writes are cut, replay reaches the old or the new metadata. -/
theorem runs_journalApply (hrec : s₀.journal.records = records) (hfits : Fits A records)
    (h : Went s₀ n d s) (hseal : Sealed A statePrepared records.length d)
    (hl : Loaded A records d) (ha : Agrees A d old) :
    Runs (Recoverable A old (withRecords records old)) (journalApply records) s
      (fun _ s' => ∃ n' d', Went s₀ n' d' s' ∧ Idle A (withRecords records old) d')
      (Failed s₀ (Recoverable A old (withRecords records old))) := by
  have hp : Recoverable A old (withRecords records old) d := .prepared hfits.count hseal ha
  -- the committed header
  have hc : Committed A records (withRecords records old) (update d
      (A.loc headerSector) (sealHeader s₀.journal.sequence stateCommitted records.length
      (descriptorsAt A d))) := by
    refine ⟨hfits, Sealed.update_header hA _ _ _ _, hl.update_header hA hfits.count, ?_⟩
    intro x hx
    rw [withRecords, withRecords, ha.update_loc hA (by decide) x hx]
  refine .bind (runs_journalWriteHeader hA hs h rfl hp ?_ hp ?_) ?_
  · rw [hrec]
    exact .committed hc
  · rw [hrec]
    exact fun _ _ => .committed hc
  rintro _ s₁ h₁
  rw [hrec] at h₁
  refine .bind (runs_blkdevFlush h₁ (.committed hc) fun _ => .committed hc) ?_
  rintro _ s₂ h₂
  -- the records' own sectors
  refine .bind (runs_writeHome hA records (fun _ hr => hr) h₂ hc) ?_
  rintro _ s₃ ⟨n₃, h₃, hc₃⟩
  have hnew := hc.agrees
  rw [applyWrites_records _ hfits.nodup] at h₃ hc₃
  refine .bind (runs_blkdevFlush h₃ (.committed hc₃) fun _ => .committed hc₃) ?_
  rintro _ s₄ h₄
  -- and the header cleared
  have hidle : Idle A (withRecords records old) _ :=
    ⟨Clear.update_header, hnew.update_loc hA (k := headerSector) (v := 0) (by decide)⟩
  have hr : Recoverable A old (withRecords records old) _ := .clear hidle.clear (.inr hidle.agrees)
  refine (runs_journalClear hA hs h₄ (.committed hc₃) hr (fun _ => .committed hc₃) fun _ =>
    hr).post ?_
  exact fun _ s₅ h₅ => ⟨_, _, h₅, hidle⟩

end Commit

/-- What every commit leaves behind: the journal is inactive, and where it was. -/
structure Ended (s s' : Server) : Prop where
  area : s'.area = s.area
  ready : s'.journal.ready = s.journal.ready
  faults : s'.dev.faults = s.dev.faults
  active : s'.journal.active = false

theorem ended_abort (s : Server) : Ended s s.abort ∧
    s.abort.journal.faulted = s.journal.faulted ∧ s.abort.dev = s.dev := by
  unfold Server.abort
  split
  · exact ⟨⟨rfl, rfl, rfl, rfl⟩, rfl, rfl⟩
  · rename_i h
    exact ⟨⟨rfl, rfl, rfl, Bool.eq_false_iff.mpr h⟩, rfl, rfl⟩

/-- **Commit.**  Wherever a commit is cut, the disk is recoverable.  A commit that ends well
has made the metadata new; one that fails leaves it old, or faults the journal. -/
theorem runs_journalCommit {s : Server} {A : Area} (hA : A.Mapped) (hs : s.area = A)
    {old : Nat → Sector} {records : List JournalRecord} (hactive : s.journal.active = true)
    (hrec : s.journal.records = records) (hfits : Fits A records) (hd : Idle A old s.dev.disk) :
    Runs (Recoverable A old (withRecords records old)) journalCommit s
      (fun _ s' => Ended s s' ∧ s'.journal.faulted = s.journal.faulted ∧
        Idle A (withRecords records old) s'.dev.disk)
      (fun _ s' => Ended s s' ∧ ((s'.journal.faulted = s.journal.faulted ∧
            ((records ≠ [] → Spares s records.length) → Idle A old s'.dev.disk) ∧
              Passes (Dropped A old) s s') ∨
          (s'.journal.faulted = true ∧
            Recoverable A old (withRecords records old) s'.dev.disk))) := by
  have hr : Recoverable A old (withRecords records old) s.dev.disk :=
    .clear hd.clear (.inl hd.agrees)
  refine .get_bind (.failIf_bind (by simp [hactive]) ?_)
  rw [hrec]
  by_cases hne : records = []
  · subst hne
    rw [if_pos rfl]
    exact .of_ok rfl (.still hr rfl rfl) ⟨⟨rfl, rfl, rfl, rfl⟩, rfl, hd⟩
  rw [if_neg hne]
  -- from here on the state differs from `s` by the sequence number as well
  let s₀ : Server := { s with journal := { s.journal with sequence := s.journal.sequence + 1 } }
  have hs₀ : s₀.area = A := hs
  have hrec₀ : s₀.journal.records = records := hrec
  have hd₀ : Idle A old s₀.dev.disk := hd
  refine .bind (P := fun _ s' => s' = s₀) (.of_ok rfl (.still hr rfl rfl) rfl) ?_
  rintro _ _ rfl
  have H := (runs_journalPrepare hA hs₀ hrec₀ hfits.count hd₀).with_passes
  refine .bind (.tryCatch (H.mono (fun _ h => h.recoverable _) (fun _ _ h => h) fun _ _ h =>
    h) ?_) ?_
  · rintro e s₁ ⟨⟨n, d, hm, hdrop, hidle⟩, hpass⟩
    obtain ⟨hend, hflt, hdev⟩ := ended_abort s₁
    refine .of_error (e := -1) rfl
      (.still ?_ (congrArg Device.log hdev) (congrArg Device.disk hdev)) ?_
    · exact show Recoverable A old _ s₁.dev.disk from
        hm.disk ▸ hdrop.recoverable _
    · have hready := hend.ready
      have hfaults := hend.faults
      have hpass' : Passes (Dropped A old) s s₁.abort := by
        refine hpass.trans (.still ?_ (congrArg Device.log hdev) (congrArg Device.disk hdev))
        exact show Dropped A old s₁.dev.disk from hm.disk ▸ hdrop
      rw [hm.journal] at hready hflt
      rw [hdev, hm.disk, hflt]
      obtain ⟨l, rfl⟩ := hm
      exact ⟨⟨hend.area, hready, hfaults, hend.active⟩,
        .inl ⟨rfl, fun hspare => hidle (hspare hne), hpass'⟩⟩
  · rintro _ s₁ ⟨⟨d₁, h₁, hseal, hl, ha⟩, -⟩
    refine .bind (.tryCatch (runs_journalApply hA hs₀ hrec₀ hfits h₁ hseal hl ha) ?_) ?_
    · rintro e s₂ ⟨n, d, ⟨l, rfl⟩, hrecov⟩
      exact .of_error (e := -1) rfl (.still hrecov rfl rfl)
        ⟨⟨rfl, rfl, rfl, rfl⟩, .inr ⟨rfl, hrecov⟩⟩
    · rintro _ s₂ ⟨n, d, ⟨⟨l, rfl⟩, -⟩, hidle⟩
      exact .of_ok rfl (.still (.clear hidle.clear (.inr hidle.agrees)) rfl rfl)
        ⟨⟨rfl, rfl, rfl, rfl⟩, rfl, hidle⟩

end Robu.Ext2
