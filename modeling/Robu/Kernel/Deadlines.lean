import Robu.Kernel.Clock
import Robu.Kernel.DeedsCall
import Robu.Kernel.Vacant

/-!
# Deadlines

One word, `next_deadline`, stands for all sleepers and all armed timers: `sched_tick` looks
at the two tables only when the clock has passed it.  It is never later than any deadline,
and after a tick of CPU 0 no deadline has passed.

The rescan of the timers moves periodic deadlines past the current tick in a loop.  The loop
ends as long as the clock and the periods stay far from the end of a word.
-/

namespace Robu.Kernel

open Function (update update_of_ne update_self)

variable {D : Doing} {c : Cpu} {k k' k₁ k₂ : Kernel} {l : Label} {t : Slot}
variable {fuel i : Nat} {deadline now : Word} {is : List Nat}
variable {d next period : Word}

structure NotedDeadlines (k : Kernel) : Prop where
  sleepers : ∀ t : Slot, (k.tcb t).state = .sleeping → k.nextDeadline ≤ (k.tcb t).wakeAtTick
  timers : ∀ i, (k.timerTable i).inUse = true → (k.timerTable i).armed = true →
    k.nextDeadline ≤ (k.timerTable i).deadlineTick

structure NothingDue (k : Kernel) : Prop where
  sleepers : ∀ t : Slot, (k.tcb t).state = .sleeping → k.nowTicks < (k.tcb t).wakeAtTick
  timers : ∀ i, (k.timerTable i).inUse = true → (k.timerTable i).armed = true →
    k.nowTicks < (k.timerTable i).deadlineTick

structure SoundTimers (k : Kernel) : Prop where
  counted : ∀ i, (k.timerTable i).inUse = true → i < k.timerCount
  periods : ∀ i, (k.timerTable i).inUse = true → (k.timerTable i).armed = true →
    (k.timerTable i).periodTicks < 2 ^ 62

/-! ## Sections without a tick -/

theorem SameTimes.notedDeadlines (h : k.SameTimes k') (hk : k.NotedDeadlines) :
    k'.NotedDeadlines where
  sleepers t ht := by
    obtain ⟨hs, hw⟩ := h.sleeps t ht
    rw [h.nextDeadline, hw]
    exact hk.sleepers t hs
  timers i := by
    rw [h.timerTable, h.nextDeadline]
    exact hk.timers i

theorem SameTimes.nothingDue (h : k.SameTimes k') (hk : k.NothingDue) : k'.NothingDue where
  sleepers t ht := by
    obtain ⟨hs, hw⟩ := h.sleeps t ht
    rw [h.nowTicks, hw]
    exact hk.sleepers t hs
  timers i := by
    rw [h.timerTable, h.nowTicks]
    exact hk.timers i

theorem SameTimes.soundTimers (h : k.SameTimes k') (hk : k.SoundTimers) : k'.SoundTimers where
  counted i := by
    rw [h.timerTable, h.timerCount]
    exact hk.counted i
  periods i := by
    rw [h.timerTable]
    exact hk.periods i

theorem update_timer {P : Nat → TimerObj → Prop} {table : Nat → TimerObj} {x : TimerObj}
    (h : ∀ j, P j (table j)) (hx : P i x) (j : Nat) : P j (update table i x j) := by
  exact (Function.forall_update_iff table P).mpr ⟨hx, fun j _ => h j⟩ j

/-- A timer that is not armed is as good as none. -/
theorem update_unarmed {Q : TimerObj → Prop} {table : Nat → TimerObj} {x : TimerObj}
    (h : ∀ j, (table j).inUse = true → (table j).armed = true → Q (table j)) (hx : x.armed ≠ true) :
    ∀ j, (update table i x j).inUse = true → (update table i x j).armed = true →
      Q (update table i x j) :=
  update_timer (P := fun _ x => x.inUse = true → x.armed = true → Q x) h fun _ harmed =>
    absurd harmed hx

theorem NotedDeadlines.deed (h : k.NotedDeadlines) (hno : ¬ D.ticks) (hd : Deed D k k') :
    k'.NotedDeadlines := by
  cases hd with
  | steady times | request _ times | register _ times => exact times.notedDeadlines h
  | time deed _ =>
    cases deed with
    | tick ht => exact absurd ht hno
    | disarm | create =>
      exact ⟨h.sleepers, update_unarmed (Q := (k.nextDeadline ≤ ·.deadlineTick)) h.timers nofun⟩
    | sleep me tick =>
      obtain ⟨d, heq, htick, hnext⟩ := schedNoteDeadline_eq
        (k.modTcb me fun x => { x with wakeAtTick := tick, state := .sleeping }) tick
      rw [heq]
      refine ⟨fun t ht => ?_, fun i hu ha => BitVec.le_trans hnext (h.timers i hu ha)⟩
      dsimp only at ht ⊢
      rw [modTcb_tcb] at ht ⊢
      by_cases hme : TcbRef.thread t = TcbRef.thread me
      · rw [if_pos hme]
        exact htick
      · rw [if_neg hme] at ht ⊢
        exact BitVec.le_trans hnext (h.sleepers t ht)
    | @arm i x _ _ inUse =>
      obtain ⟨d, heq, htick, hnext⟩ := schedNoteDeadline_eq
        { k with timerTable := update k.timerTable i x } x.deadlineTick
      rw [heq]
      exact ⟨fun t ht => BitVec.le_trans hnext (h.sleepers t ht),
        update_timer (P := fun _ x => x.inUse = true → x.armed = true → d ≤ x.deadlineTick)
          (fun j hu ha => BitVec.le_trans hnext (h.timers j hu ha)) fun _ _ => htick⟩

/-- Timers stay sound if those that are armed have small periods. -/
theorem SoundTimers.deed (h : k.SoundTimers) (hno : ¬ D.ticks)
    (harms : ∀ {delay period}, D.arms delay period → period < 2 ^ 62) (hd : Deed D k k') :
    k'.SoundTimers := by
  cases hd with
  | steady times | request _ times | register _ times => exact times.soundTimers h
  | time deed _ =>
    cases deed with
    | tick ht => exact absurd ht hno
    | disarm i =>
      exact ⟨update_timer (P := fun j x => x.inUse = true → j < k.timerCount) h.counted
        (h.counted i), update_unarmed (Q := (·.periodTicks < 2 ^ 62)) h.periods nofun⟩
    | create =>
      exact ⟨update_timer (P := fun j x => x.inUse = true → j < k.timerCount + 1)
        (fun j hj => Nat.lt_succ_of_lt (h.counted j hj)) fun _ => Nat.lt_succ_self _,
        update_unarmed (Q := (·.periodTicks < 2 ^ 62)) h.periods nofun⟩
    | sleep me tick =>
      obtain ⟨d, heq, -⟩ := schedNoteDeadline_eq
        (k.modTcb me fun x => { x with wakeAtTick := tick, state := .sleeping }) tick
      rw [heq]
      exact ⟨h.counted, h.periods⟩
    | @arm i x _ arms inUse =>
      obtain ⟨d, heq, -⟩ := schedNoteDeadline_eq
        { k with timerTable := update k.timerTable i x } x.deadlineTick
      rw [heq]
      exact ⟨update_timer (P := fun j x => x.inUse = true → j < k.timerCount) h.counted
          (inUse ▸ h.counted i),
        update_timer (P := fun _ x => x.inUse = true → x.armed = true → x.periodTicks < 2 ^ 62)
          h.periods fun _ _ => harms arms⟩

theorem NothingDue.deed (h : k.NothingDue) (hd : Deed (k₁.wayBack l) k k') : k'.NothingDue := by
  cases hd with
  | steady times | request _ times | register _ times => exact times.nothingDue h
  | time deed _ =>
    cases deed with
    | tick ht => exact ht.elim
    | sleep _ _ hs => exact hs.elim
    | arm _ ha => exact ha.elim
    | disarm | create =>
      exact ⟨h.sleepers, update_unarmed (Q := (k.nowTicks < ·.deadlineTick)) h.timers nofun⟩

/-! ## Sleepers -/

/-- The threads in `P` have been looked at: those that still sleep have time, and their
deadlines are noted. -/
structure Scanned (k : Kernel) (P : Slot → Prop) (k' : Kernel) : Prop where
  nowTicks : k'.nowTicks = k.nowTicks
  timerTable : k'.timerTable = k.timerTable
  timerCount : k'.timerCount = k.timerCount
  sleeps : ∀ t : Slot, (k.tcb t).SleepsAs (k'.tcb t)
  ahead : ∀ t, P t → (k'.tcb t).state = .sleeping →
    k.nowTicks < (k'.tcb t).wakeAtTick ∧ k'.nextDeadline ≤ (k'.tcb t).wakeAtTick

/-- One thread of the scan. -/
theorem Scanned.wakeSleeper {P : Slot → Prop} (h : k.Scanned P k₁) (c : Cpu) (t : Slot) :
    k.Scanned (fun u => P u ∨ u = t) (wakeSleeper c k₁ t) := by
  unfold Kernel.wakeSleeper
  split
  · -- it does not sleep
    rename_i hs
    refine { h with ahead := fun u hu ht => ?_ }
    rcases hu with hu | rfl
    · exact h.ahead u hu ht
    · exact absurd ht hs
  rename_i hs
  rw [not_not] at hs
  split
  · -- it is due
    have hwake := (calm_schedWake c t (k := k₁)).times
    refine ⟨hwake.nowTicks.trans h.nowTicks, hwake.timerTable.trans h.timerTable,
      hwake.timerCount.trans h.timerCount, fun u hu => ?_, fun u hu hsleep => ?_⟩
    · obtain ⟨h₁, hw₁⟩ := hwake.sleeps u hu
      obtain ⟨h₀, hw₀⟩ := h.sleeps u h₁
      exact ⟨h₀, hw₁.trans hw₀⟩
    · obtain ⟨h₁, hw₁⟩ := hwake.sleeps u hsleep
      rcases hu with hu | rfl
      · rw [hwake.nextDeadline, hw₁]
        exact h.ahead u hu h₁
      have hasleep : k₁.Asleep u := asleep_of_state hs (by decide)
      rw [(alike_schedWake_of_asleep hasleep).state u, setState, modTcb_tcb_self] at hsleep
      cases hsleep
  · -- it has time
    rename_i hdue
    obtain ⟨d, heq, htick, hnext⟩ := k₁.schedNoteDeadline_eq (k₁.tcb t).wakeAtTick
    rw [heq]
    refine ⟨h.nowTicks, h.timerTable, h.timerCount, h.sleeps, fun u hu hsleep => ?_⟩
    rcases hu with hu | rfl
    · obtain ⟨hahead, hnoted⟩ := h.ahead u hu hsleep
      exact ⟨hahead, BitVec.le_trans hnext hnoted⟩
    · rw [BitVec.not_le, h.nowTicks] at hdue
      exact ⟨hdue, htick⟩

theorem Scanned.foldl {P : Slot → Prop} (h : k.Scanned P k₁) (c : Cpu) (ts : List Slot) :
    k.Scanned (fun u => P u ∨ u ∈ ts) (ts.foldl (Kernel.wakeSleeper c) k₁) := by
  induction ts generalizing P k₁ with
  | nil => exact { h with ahead := fun u hu => h.ahead u (hu.resolve_right List.not_mem_nil) }
  | cons t ts ih =>
    have hrest := ih (h.wakeSleeper c t)
    refine { hrest with ahead := fun u hu => hrest.ahead u ?_ }
    rw [List.mem_cons] at hu
    rcases hu with hu | rfl | hu
    · exact .inl (.inl hu)
    · exact .inl (.inr rfl)
    · exact .inr hu

/-! ## Timers -/

theorem nextPeriod_lt (h : nextPeriod period now fuel deadline = some d) : now < d := by
  induction fuel generalizing deadline with
  | zero => cases h
  | succ fuel ih =>
    unfold nextPeriod at h
    split at h
    · rename_i hlt
      cases h
      exact hlt
    · exact ih h

/-- The loop ends: the deadline grows by at least one tick in each turn, and does not reach
the end of the word before it has passed the clock. -/
theorem nextPeriod_isSome (hp : period ≠ 0) (hsmall : period < 2 ^ 62)
    (hnow : now < 2 ^ 63) (hf : now.toNat + 1 - deadline.toNat < fuel) :
    (nextPeriod period now fuel deadline).isSome := by
  have hp : period.toNat ≠ 0 := fun h₀ => hp (BitVec.eq_of_toNat_eq h₀)
  have h62 : ((2 : Word) ^ 62).toNat = 2 ^ 62 := by decide +kernel
  have h63 : ((2 : Word) ^ 63).toNat = 2 ^ 63 := by decide +kernel
  rw [BitVec.lt_def, h62] at hsmall
  rw [BitVec.lt_def, h63] at hnow
  induction fuel generalizing deadline with
  | zero => omega
  | succ fuel ih =>
    unfold nextPeriod
    split
    · rfl
    rename_i hdue
    have hdue : deadline.toNat ≤ now.toNat := BitVec.le_def.mp (BitVec.not_lt.mp hdue)
    have hsum : (deadline + period).toNat = deadline.toNat + period.toNat := by
      rw [BitVec.toNat_add]
      omega
    exact ih (by omega)

/-- The timers in `P` have been looked at: those that are still armed have time, and `next`
is no later than their deadlines. -/
structure Rescanned (k : Kernel) (P : Nat → Prop) (k' : Kernel) (next : Word) : Prop where
  nowTicks : k'.nowTicks = k.nowTicks
  nextDeadline : k'.nextDeadline = k.nextDeadline
  timerCount : k'.timerCount = k.timerCount
  sleeps : ∀ t : Slot, (k.tcb t).SleepsAs (k'.tcb t)
  kept : ∀ i, (k'.timerTable i).inUse = (k.timerTable i).inUse ∧
    ((k'.timerTable i).armed = true → (k.timerTable i).armed = true ∧
      (k'.timerTable i).periodTicks = (k.timerTable i).periodTicks)
  ahead : ∀ i, P i → (k'.timerTable i).inUse = true → (k'.timerTable i).armed = true →
    k.nowTicks < (k'.timerTable i).deadlineTick ∧ next ≤ (k'.timerTable i).deadlineTick

theorem rescanned_start (k : Kernel) : k.Rescanned (fun _ => False) k (BitVec.allOnes 64) :=
  ⟨rfl, rfl, rfl, fun _ ht => ⟨ht, rfl⟩, fun _ => ⟨rfl, fun ha => ⟨ha, rfl⟩⟩, fun _ hf => hf.elim⟩

/-- One timer of the rescan. -/
theorem Rescanned.timerStep {P : Nat → Prop} (h : k.Rescanned P k₁ next)
    (hs : k₁.timerStep c k.nowTicks next i = some (k₂, d)) :
    k.Rescanned (fun j => P j ∨ j = i) k₂ d := by
  unfold Kernel.timerStep at hs
  dsimp only at hs
  split at hs
  · -- not armed
    rename_i hidle
    cases hs
    refine { h with ahead := fun j hj hu ha => ?_ }
    rcases hj with hj | rfl
    · exact h.ahead j hj hu ha
    · simp [hu, ha] at hidle
  split at hs
  · -- it has time
    rename_i hahead
    cases hs
    refine { h with ahead := fun j hj hu ha => ?_ }
    rcases hj with hj | rfl
    · obtain ⟨h₁, h₂⟩ := h.ahead j hj hu ha
      exact ⟨h₁, BitVec.le_trans (earlier_le ..).2 h₂⟩
    · exact ⟨hahead, (earlier_le ..).1⟩
  -- it is due: the notification is delivered, and the entry is written
  have hnotify := (calm_notifDeliver k₁ c (k₁.timerTable i).notifIdx.toNat
    (k₁.timerTable i).signalBits).times
  generalize k₁.notifDeliver c _ _ = k₃ at hs hnotify
  have hput : ∀ {x : TimerObj} {e : Word}, x.inUse = (k₁.timerTable i).inUse →
      (x.armed = true → (k₁.timerTable i).armed = true ∧
        x.periodTicks = (k₁.timerTable i).periodTicks ∧ k.nowTicks < x.deadlineTick ∧
          e ≤ x.deadlineTick) → e ≤ next →
      k.Rescanned (fun j => P j ∨ j = i)
        { k₃ with timerTable := update k₃.timerTable i x } e := by
    intro x e hu hx he
    refine ⟨hnotify.nowTicks.trans h.nowTicks, hnotify.nextDeadline.trans h.nextDeadline,
      hnotify.timerCount.trans h.timerCount, fun t ht => ?_, fun j => ?_, fun j hj huse ha => ?_⟩
    · obtain ⟨h₁, hw₁⟩ := hnotify.sleeps t ht
      obtain ⟨h₀, hw₀⟩ := h.sleeps t h₁
      exact ⟨h₀, hw₁.trans hw₀⟩
    · dsimp only
      rcases eq_or_ne j i with rfl | hne
      · rw [update_self]
        refine ⟨hu.trans (h.kept j).1, fun ha => ?_⟩
        obtain ⟨harmed, hperiod, -⟩ := hx ha
        obtain ⟨harmed₀, hperiod₀⟩ := (h.kept j).2 harmed
        exact ⟨harmed₀, hperiod.trans hperiod₀⟩
      · rw [update_of_ne hne, hnotify.timerTable]
        exact h.kept j
    · dsimp only at huse ha ⊢
      rcases eq_or_ne j i with rfl | hne
      · rw [update_self] at ha ⊢
        exact (hx ha).2.2
      · rw [update_of_ne hne, hnotify.timerTable] at huse ha ⊢
        obtain ⟨h₁, h₂⟩ := h.ahead j (hj.resolve_right hne) huse ha
        exact ⟨h₁, BitVec.le_trans he h₂⟩
  split at hs
  · cases hs
    exact hput rfl (fun ha => by cases ha) (BitVec.le_refl _)
  split at hs
  · cases hs
  rename_i e hperiod
  cases hs
  exact hput rfl (fun ha => ⟨ha, rfl, nextPeriod_lt hperiod, (earlier_le ..).1⟩) (earlier_le ..).2

theorem Rescanned.timerLoop {P : Nat → Prop} (h : k.Rescanned P k₁ next)
    (hs : timerLoop c k.nowTicks is k₁ next = some (k₂, d)) :
    k.Rescanned (fun j => P j ∨ j ∈ is) k₂ d := by
  induction is generalizing P k₁ next with
  | nil =>
    cases hs
    exact { h with ahead := fun j hj => h.ahead j (hj.resolve_right List.not_mem_nil) }
  | cons i is ih =>
    unfold Kernel.timerLoop at hs
    split at hs
    · cases hs
    rename_i hstep
    have hrest := ih (h.timerStep hstep) hs
    refine { hrest with ahead := fun j hj => hrest.ahead j ?_ }
    rw [List.mem_cons] at hj
    rcases hj with hj | rfl | hj
    · exact .inl (.inl hj)
    · exact .inl (.inr rfl)
    · exact .inr hj

theorem Rescanned.timerLoop_isSome {P : Nat → Prop}
    (hk : k.SoundTimers) (hnow : k.nowTicks < 2 ^ 63) (h : k.Rescanned P k₁ next) :
    (Kernel.timerLoop c k.nowTicks is k₁ next).isSome := by
  induction is generalizing P k₁ next with
  | nil => rfl
  | cons i is ih =>
    unfold Kernel.timerLoop
    cases hstep : k₁.timerStep c k.nowTicks next i with
    | some r => exact ih (h.timerStep hstep)
    | none =>
      -- only the loop over the periods can fail
      exfalso
      unfold Kernel.timerStep at hstep
      dsimp only at hstep
      split at hstep
      · cases hstep
      rename_i harmed
      rw [not_or, not_not, not_not] at harmed
      split at hstep
      · cases hstep
      split at hstep
      · cases hstep
      rename_i hperiod
      split at hstep
      · rename_i hnone
        obtain ⟨huse, hkept⟩ := h.kept i
        obtain ⟨harmed₀, hsame⟩ := hkept harmed.2
        have hsmall : (k₁.timerTable i).periodTicks < 2 ^ 62 :=
          hsame ▸ hk.periods i (huse ▸ harmed.1) harmed₀
        have hfuel : k.nowTicks.toNat + 1 - (k₁.timerTable i).deadlineTick.toNat < 2 ^ 64 := by
          bv_omega
        have hsome := nextPeriod_isSome hperiod hsmall hnow hfuel
        rw [hnone] at hsome
        cases hsome
      · cases hstep

/-! ## The tick -/

/-- Nothing is due after the scan of `sched_tick`, and every deadline is noted. -/
theorem tickDeadlines_spec (hv : (k.tcb (0 : Slot)).state ≠ .sleeping) (hnoted : k.NotedDeadlines)
    (hsound : k.SoundTimers) (h : k.tickDeadlines c = some k') :
    k'.NothingDue ∧ k'.NotedDeadlines ∧ k'.SoundTimers := by
  unfold tickDeadlines at h
  split at h
  · -- the earliest deadline has not passed
    rename_i hlt
    cases h
    refine ⟨⟨fun t ht => ?_, fun i hu ha => ?_⟩, hnoted, hsound⟩
    · have hle := hnoted.sleepers t ht
      bv_omega
    · have hle := hnoted.timers i hu ha
      bv_omega
  dsimp only at h
  have hstart : k.Scanned (fun t => t = 0) { k with nextDeadline := BitVec.allOnes 64 } := by
    refine ⟨rfl, rfl, rfl, fun _ ht => ⟨ht, rfl⟩, ?_⟩
    rintro t rfl ht
    exact absurd ht hv
  have hscan := hstart.foldl c tableSlots
  generalize tableSlots.foldl (wakeSleeper c) _ = k₂ at h hscan
  split at h
  · cases h
  rename_i k₃ next hrescan
  cases h
  have hloop := k₂.rescanned_start.timerLoop hrescan
  -- every sleeper and every timer has been looked at
  have hsleep : ∀ t : Slot, (k₃.tcb t).state = .sleeping →
      k₂.nowTicks < (k₃.tcb t).wakeAtTick ∧ k₂.nextDeadline ≤ (k₃.tcb t).wakeAtTick := by
    intro t ht
    obtain ⟨h₂, hw₂⟩ := hloop.sleeps t ht
    have hmem : t = 0 ∨ t ∈ tableSlots := by
      rw [mem_tableSlots]
      exact em _
    rw [hw₂, hscan.nowTicks]
    exact hscan.ahead t hmem h₂
  have hcounted : ∀ i, (k₃.timerTable i).inUse = true → i < k₂.timerCount := by
    intro i hu
    rw [(hloop.kept i).1, hscan.timerTable] at hu
    rw [hscan.timerCount]
    exact hsound.counted i hu
  have htimer : ∀ i, (k₃.timerTable i).inUse = true → (k₃.timerTable i).armed = true →
      k₂.nowTicks < (k₃.timerTable i).deadlineTick ∧ next ≤ (k₃.timerTable i).deadlineTick :=
    fun i hu ha => hloop.ahead i (.inr (List.mem_range.mpr (hcounted i hu))) hu ha
  obtain ⟨d, heq, hnext, hearlier⟩ := k₃.schedNoteDeadline_eq next
  rw [hloop.nextDeadline] at hearlier
  rw [← hloop.nowTicks] at hsleep htimer
  rw [← hloop.timerCount] at hcounted
  rw [heq]
  refine ⟨⟨fun t ht => (hsleep t ht).1, fun i hu ha => (htimer i hu ha).1⟩,
    ⟨fun t ht => BitVec.le_trans hearlier (hsleep t ht).2, fun i hu ha => ?_⟩, hcounted,
      fun i hu ha => ?_⟩
  · exact BitVec.le_trans hnext (htimer i hu ha).2
  · obtain ⟨huse, hkept⟩ := hloop.kept i
    obtain ⟨harmed, hperiod⟩ := hkept ha
    rw [huse, hscan.timerTable] at hu
    rw [hscan.timerTable] at harmed hperiod
    rw [hperiod]
    exact hsound.periods i hu harmed

theorem tickDeadlines_isSome (hsound : k.SoundTimers) (hnow : k.nowTicks < 2 ^ 63) :
    (k.tickDeadlines c).isSome := by
  unfold tickDeadlines
  split
  · rfl
  dsimp only
  have hstart : k.Scanned (fun _ => False) { k with nextDeadline := BitVec.allOnes 64 } :=
    ⟨rfl, rfl, rfl, fun _ ht => ⟨ht, rfl⟩, fun _ hf => hf.elim⟩
  have hscan := hstart.foldl c tableSlots
  generalize tableSlots.foldl (wakeSleeper c) _ = k₂ at hscan ⊢
  have hsound₂ : k₂.SoundTimers := by
    refine ⟨fun i => ?_, fun i => ?_⟩
    · rw [hscan.timerTable, hscan.timerCount]
      exact hsound.counted i
    · rw [hscan.timerTable]
      exact hsound.periods i
  have hloop : (k₂.capTimerRescan c k₂.nowTicks).isSome :=
    k₂.rescanned_start.timerLoop_isSome hsound₂ (hscan.nowTicks ▸ hnow)
  obtain ⟨r, hr⟩ := Option.isSome_iff_exists.mp hloop
  rw [hr]
  rfl

/-- `sched_tick` on CPU 0 returns, nothing is due afterwards, and every deadline is noted. -/
theorem schedTick_spec (hv : (k.tcb (0 : Slot)).state ≠ .sleeping) (hnoted : k.NotedDeadlines)
    (hsound : k.SoundTimers) (hnow : k.tickTime 0 < 2 ^ 63) :
    ∃ k', k.schedTick 0 = some k' ∧ k'.NothingDue ∧ k'.NotedDeadlines ∧ k'.SoundTimers := by
  have hsound₁ : ({ k with nowTicks := k.tickTime 0 } : Kernel).SoundTimers :=
    ⟨hsound.counted, hsound.periods⟩
  have hnoted₁ : ({ k with nowTicks := k.tickTime 0 } : Kernel).NotedDeadlines :=
    ⟨hnoted.sleepers, hnoted.timers⟩
  obtain ⟨k₁, hk₁⟩ := Option.isSome_iff_exists.mp (tickDeadlines_isSome (c := 0) hsound₁ hnow)
  obtain ⟨hdue, hnoted₂, hsound₂⟩ :=
    tickDeadlines_spec (k := { k with nowTicks := k.tickTime 0 }) hv hnoted₁ hsound₁ hk₁
  have hrest : k₁.Steady ((k₁.schedTickLocal 0 (if k.armedTicks 0 < 1 then 1 else
      k.armedTicks 0)).schedArmNextDeadline 0) :=
    (alike_schedTickLocal ..).steady.trans calm_schedArmNextDeadline.toSteady
  refine ⟨_, ?_, hrest.times.nothingDue hdue, hrest.times.notedDeadlines hnoted₂,
    hrest.times.soundTimers hsound₂⟩
  unfold schedTick
  dsimp only
  rw [if_pos rfl]
  have hk₁ : ({ k with nowTicks := k.nowTicks + if k.armedTicks 0 < 1 then 1 else k.armedTicks 0 } :
      Kernel).tickDeadlines 0 = some k₁ := hk₁
  rw [hk₁]

/-! ## Runs -/

/-- The clock stays below `2 ^ 63` in the section, and the delay and the period of a timer it
arms are below `2 ^ 62`.  (The delay of a sleeper has 32 bits.) -/
def Moderate (k : Kernel) : Label → Prop
  | .trap c e =>
    (c = 0 ∧ e.isTimer → k.tickTime 0 < 2 ^ 63) ∧
      ∀ cur ∈ k.caller c e, decode ((k.enter c e).tcb cur).uctx = .timerArm →
        ((k.enter c e).tcb cur).uctx.r10 < 2 ^ 62 ∧ ((k.enter c e).tcb cur).uctx.r13 < 2 ^ 62
  | _ => True

instance (k : Kernel) (l : Label) : Decidable (k.Moderate l) :=
  match l with
  | .trap .. => inferInstanceAs (Decidable ((_ → _) ∧ ∀ cur ∈ _, _))
  | .kern .. | .start _ => .isTrue trivial

theorem Moderate.arms (h : k.Moderate l) {delay : Word} (ha : (k.doing l).arms delay period) :
    period < 2 ^ 62 := by
  have hhandling := handling_effects k l
  generalize k.effects l = F, k.doing l = D at hhandling ha
  cases hhandling with
  | kern c op => cases op <;> exact ha.elim
  | start | quiet | tick | fault => exact ha.elim
  | @call c e cur hv hcur =>
    obtain ⟨hd, -, rfl⟩ := ha
    refine (h.2 cur ?_ hd).2
    rw [caller, if_pos hv]
    exact hcur

theorem not_ticks_of_not_timerInterrupt (hl : ¬ l.TimerInterrupt) : ¬ (k.doing l).ticks := by
  have hhandling := handling_effects k l
  generalize k.effects l = F, k.doing l = D at hhandling
  cases hhandling with
  | kern c op => cases op <;> exact id
  | start | quiet | call | fault => exact id
  | tick hv => exact fun hc => hl ⟨hc, hv⟩

/-- The handler of a timer interrupt of CPU 0 returns, and leaves nothing due. -/
theorem handled_timerInterrupt (hk : k.Vacant) (hnoted : k.NotedDeadlines) (hsound : k.SoundTimers)
    (hl : l.TimerInterrupt) (hm : k.Moderate l) :
    ∃ k₁, k.handled l = some k₁ ∧ k₁.NothingDue ∧ k₁.NotedDeadlines ∧ k₁.SoundTimers := by
  cases l with
  | kern | start => exact hl.elim
  | trap c e =>
    obtain ⟨rfl, htimer⟩ := hl
    have hentered := (calm_enter k 0 e).times
    have hv : ((k.enter 0 e).tcb (0 : Slot)).state ≠ .sleeping := by
      intro hs
      rcases (hk.entered (.trap 0 e)).state_ne hs with h | h <;> cases h
    rw [handled_tick htimer]
    exact schedTick_spec hv (hentered.notedDeadlines hnoted) (hentered.soundTimers hsound)
      (hm.1 ⟨rfl, htimer⟩)

/-- **Step.** -/
theorem deadlines_step (hk : k.Vacant) (hpoll : k.PollsOwn) (hnoted : k.NotedDeadlines)
    (hsound : k.SoundTimers) (hm : k.Moderate l) (hs : k.step l = some k') :
    k'.NotedDeadlines ∧ k'.SoundTimers ∧ (l.TimerInterrupt → k'.NothingDue) := by
  obtain ⟨k₁, hhandled, hentered, hdeeds, hquiet⟩ := deeds_step hpoll hs
  have hback : k₁.NotedDeadlines ∧ k₁.SoundTimers → k'.NotedDeadlines ∧ k'.SoundTimers := fun h =>
    ⟨hquiet.invariant (fun hk hd => NotedDeadlines.deed hk id hd) h.1,
      hquiet.invariant (fun hk hd => SoundTimers.deed hk id False.elim hd) h.2⟩
  by_cases hl : l.TimerInterrupt
  · obtain ⟨k₂, hk₂, hdue, hnoted₂, hsound₂⟩ := handled_timerInterrupt hk hnoted hsound hl hm
    obtain rfl : k₁ = k₂ := Option.some.inj (hhandled.symm.trans hk₂)
    obtain ⟨h₁, h₂⟩ := hback ⟨hnoted₂, hsound₂⟩
    exact ⟨h₁, h₂, fun _ => hquiet.invariant (fun hk hd => NothingDue.deed hk hd) hdue⟩
  · have hno : ¬ (k.doing l).ticks := not_ticks_of_not_timerInterrupt hl
    obtain ⟨h₁, h₂⟩ := hback
      ⟨hdeeds.invariant (fun hk hd => NotedDeadlines.deed hk hno hd)
        (hentered.times.notedDeadlines hnoted),
          hdeeds.invariant (fun hk hd => SoundTimers.deed hk hno hm.arms hd)
          (hentered.times.soundTimers hsound)⟩
    exact ⟨h₁, h₂, fun ht => absurd ht hl⟩

theorem deadlines_of_reachable (h : Reachable Moderate k) : k.NotedDeadlines ∧ k.SoundTimers := by
  induction h with
  | init hk =>
    obtain ⟨base, size, fpu, rfl⟩ := hk
    exact ⟨⟨fun _ ht => (by cases ht), fun _ hu => by cases hu⟩, fun _ hu =>
      (by cases hu), fun _ hu => by cases hu⟩
  | step hk hm hs ih =>
    obtain ⟨hnoted, hsound, -⟩ :=
      deadlines_step (vacant_of_reachable hk) (pollsOwn_of_reachable hk) ih.1 ih.2 hm hs
    exact ⟨hnoted, hsound⟩

/-- **No deadline is missed.**  While the clock and the arguments of timers stay moderate, the
earliest deadline noted is no later than any, every tick of CPU 0 returns, and nothing is due
after it, neither when the handler returns nor when the section is over. -/
theorem no_deadline_missed (h : Reachable Moderate k) :
    k.NotedDeadlines ∧ ∀ l, l.TimerInterrupt → k.Moderate l →
      (∃ k₁, k.handled l = some k₁ ∧ k₁.NothingDue) ∧ ∀ k', k.step l = some k' → k'.NothingDue := by
  obtain ⟨hnoted, hsound⟩ := deadlines_of_reachable h
  refine ⟨hnoted, fun l hl hm => ⟨?_, fun k' hs => ?_⟩⟩
  · obtain ⟨k₁, hk₁, hdue, -⟩ := handled_timerInterrupt (vacant_of_reachable h) hnoted hsound hl hm
    exact ⟨k₁, hk₁, hdue⟩
  · exact (deadlines_step (vacant_of_reachable h) (pollsOwn_of_reachable h) hnoted hsound hm
      hs).2.2 hl

def sleepFor (ticks : Word) : Label :=
  .trap 0 { frame := { vector := 0x30, rsi := ticks }, ctx := ⟨0, 0⟩ }

def sleeperRun : List Label := [.spawn 0x1000, .spawn 0x2000, .start 0, sleepFor 3]

theorem no_deadline_missed_sleeperRun :
    ∃ k, Lib.run step Moderate (boot 0 0 0) sleeperRun = some k ∧
      (k.tcb (1 : Slot)).state = .sleeping ∧ k.Moderate Clocked.timer ∧ k.NotedDeadlines ∧
      ∃ k', k.step Clocked.timer = some k' ∧ (k'.tcb (1 : Slot)).state ≠ .sleeping ∧
        k'.NothingDue := by
  obtain ⟨k, hk, k', hs, hstate, hm, hwoken⟩ : ∃ k ∈ Lib.run step Moderate (boot 0 0 0) sleeperRun,
      ∃ k' ∈ k.step Clocked.timer, (k.tcb (1 : Slot)).state = .sleeping ∧ k.Moderate Clocked.timer ∧
        (k'.tcb (1 : Slot)).state ≠ .sleeping := by
    decide +kernel
  obtain ⟨hnoted, htick⟩ := no_deadline_missed (.of_run (.init ⟨0, 0, 0, rfl⟩) hk)
  exact ⟨k, hk, hstate, hm, hnoted, k', hs, hwoken,
    (htick Clocked.timer Clocked.timerInterrupt_timer hm).2 k' hs⟩

end Robu.Kernel
