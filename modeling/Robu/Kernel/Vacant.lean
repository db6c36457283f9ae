import Robu.Kernel.Results

/-!
# Entry 0 of the thread table

The tid 0 names no thread: `alloc_tcb` begins at entry 1, and so do the loops over the
table.  Entry 0 stays dead, is never current, is on no send queue, and gets no signal.
-/

namespace Robu.Kernel

variable {F : Effects} {c : Cpu} {k k' : Kernel} {l : Label} {i : Slot}

structure Vacant (k : Kernel) : Prop where
  gone : (k.tcb (0 : Slot)).state = .dead ∨ (k.tcb (0 : Slot)).state = .zombie
  idle : ∀ c, k.current c ≠ some 0
  unlinked : ¬ k.core.sq.Linked 0
  unharmed : ¬ FatalPending (k.tcb (0 : Slot))

theorem schedGetTcb_ne_zero {tid : Tid} : k.schedGetTcb tid ≠ some 0 := by
  intro h
  rw [(schedGetTcb_eq_some h).1, schedGetTcb_tid, if_pos (.inl rfl)] at h
  cases h

theorem Vacant.state_ne (h : k.Vacant) {s : ThreadState} (hs : (k.tcb (0 : Slot)).state = s) :
    s = .dead ∨ s = .zombie := hs ▸ h.gone

theorem current_notifDeliver (k : Kernel) (c : Cpu) (idx : Nat) (bits : Word) :
    (k.notifDeliver c idx bits).current = k.current := by
  have hcore := congrArg Core.current (k.core_notifDeliver c idx bits)
  split at hcore
  · exact hcore
  · rw [Core.wake_eq] at hcore
    exact hcore

theorem Ends.current {t : Slot} (h : Ends F c k t k') : k'.current = k.current := by
  cases h with
  | kill | exitAlone => exact (ended_terminateTcb k c t (.inl rfl)).rest.current
  | exitZombie => exact (ended_terminateTcb k c t (.inr rfl)).rest.current
  | @exitTold p =>
    have hwake := alike_schedWake (k.modUctx p (childRegs t (k.tcb t).exitStatus)) c p
    exact (ended_terminateTcb _ c t (.inl rfl)).rest.current.trans hwake.current

/-- A thread that is gone does not become current. -/
theorem Act.current_ne (hg : (k.tcb i).state.Gone) {d : Cpu} (hd : k.current d ≠ some i)
    (hact : Act F c k k') : k'.current d ≠ some i := by
  -- the CPU goes to another thread
  have hswitch : ∀ {next : Option Slot}, next ≠ some i →
    Function.update k.current c next d ≠ some i := by
    intro next hnext
    rcases eq_or_ne d c with rfl | hdc
    · rwa [Function.update_self]
    · rwa [Function.update_of_ne hdc]
  have hsame : k'.current = k.current → k'.current d ≠ some i := fun heq => heq ▸ hd
  cases hact with
  | quiet alike => exact hsame alike.current
  | deadline | tick | arm | timers | slots | services | caps | newNotification | takeBits | edit
  | waitNotif
  | reap => exact hsame rfl
  | notify idx bits => exact hsame (k.current_notifDeliver c idx bits)
  | enqueue _ _ _ _ _ _ push =>
    obtain ⟨-, rfl⟩ := faultQueuePush_eq_some push
    exact hsame rfl
  | takeFault _ take =>
    obtain ⟨-, rfl⟩ := vmTakeQueuedFault_eq_some take
    exact hsame rfl
  | hand _ answers =>
    refine hswitch fun heq => ?_
    rw [Option.some.inj heq] at answers
    exact not_asleep_of_gone hg answers.asleep
  | park _ _ lives =>
    obtain ⟨_, hcore⟩ := core_ipcPark k (schedGetTcb_eq_some lives).1
    exact hsame (congrArg Core.current hcore)
  | unlink => exact hsame (congrArg Core.current (core_sendqUnlink ..))
  | ends ends => exact hsame ends.current
  | pick next ready =>
    refine hswitch fun heq => ?_
    rw [ready i heq] at hg
    rcases hg with hs | hs <;> cases hs

/-- **Act.** -/
theorem Vacant.act (h : k.Vacant) (hc : F.caller ≠ some 0) (ht : ¬ F.takes 0) (hf : ¬ F.faults 0)
    (hs : ¬ F.signals 0) (hact : Act F c k k') : k'.Vacant where
  gone := (hact.turn 0).stays_gone h.gone hc ht hf |>.resolve_right fun hm => hm.2.2 rfl
  idle d := hact.current_ne h.gone (h.idle d)
  unlinked hl := (hact.linked hl).elim hc h.unlinked
  unharmed hp := (Acts.fatalPending (.single hact) hp).elim h.unharmed hs

theorem Vacant.entered (h : k.Vacant) (l : Label) : (k.entered l).Vacant where
  gone := (state_entered k l 0).symm ▸ h.gone
  idle := by cases l <;> exact h.idle
  unlinked := fun hl => h.unlinked ((entered_linked l).mp hl)
  unharmed := by
    rw [FatalPending, entered_field k l 0 Tcb.sigPending fun _ _ => rfl]
    exact h.unharmed

theorem linked_of_callTakes {cur s : Slot} (h : k.callTakes cur = some s) : k.core.sq.Linked s := by
  unfold callTakes at h
  split at h
  · split at h
    · rename_i prev s' hscan
      cases h
      rw [sendqScan_eq] at hscan
      exact .of_scan hscan
    · cases h
  · cases h

theorem zero_notMem_infoTargets {cur : Slot} : (0 : Slot) ∉ k.infoTargets cur := by
  unfold infoTargets
  dsimp only
  split
  · split
    · exact fun h => schedGetTcb_ne_zero (Option.mem_toList.mp h)
    · split
      · exact List.not_mem_nil
      · split
        · exact fun h => mem_tableSlots.mp (List.mem_of_mem_filter h) rfl
        · exact List.not_mem_nil
    · exact List.not_mem_nil
  · exact List.not_mem_nil

theorem zero_notMem_destroyed {cur : Slot} : (0 : Slot) ∉ k.destroyed c cur := by
  unfold destroyed
  split
  · rename_i hd
    intro h
    have htarget := List.mem_of_mem_filter h
    simp only [callTargets, hd, Option.mem_toList] at htarget
    obtain ⟨cap, -, hcap⟩ := Option.bind_eq_some_iff.mp htarget
    exact schedGetTcb_ne_zero hcap
  · exact List.not_mem_nil

/-- Entry 0 makes no call and no fault and does not end, and no call takes or signals it. -/
theorem Vacant.effects (h : k.Vacant) (l : Label) :
    (k.effects l).caller ≠ some 0 ∧ ¬ (k.effects l).takes 0 ∧ ¬ (k.effects l).faults 0 ∧
      ¬ (k.effects l).signals 0 ∧ ¬ (k.effects l).kills 0 ∧ ¬ (k.effects l).exits 0 := by
  have hhandling := handling_effects k l
  generalize k.effects l = G, k.doing l = D at hhandling
  cases hhandling with
  | kern | start | quiet | tick => exact ⟨fun hc => (by cases hc), id, id, id, id, id⟩
  | @fault c e cur page hcur =>
    have hself : (0 : Slot) ≠ cur := fun heq => h.idle c (hcur.trans (congrArg some heq.symm))
    exact ⟨fun hc => (by cases hc), id, fun hf => hself hf.1, id, fun hx => hself hx.1, id⟩
  | @call c e cur hv hcur =>
    refine ⟨fun hc => h.idle c (hcur.trans hc), fun ht => ?_, id, fun hs =>
      zero_notMem_infoTargets hs.2, zero_notMem_destroyed, fun hx =>
        h.idle c (hcur.trans (congrArg some hx.2.symm))⟩
    exact (h.entered (.trap c e)).unlinked (linked_of_callTakes ht)

/-- **Step.** -/
theorem Vacant.step (h : k.Vacant) (hs : k.step l = some k') : k'.Vacant := by
  obtain ⟨hc, ht, hf, hsig, -⟩ := h.effects l
  exact step_invariant hs (h.entered l) (fun ha hact => ha.act hc ht hf hsig hact)
    fun _ ha hact => ha.act (fun hc => by cases hc) id id id hact

/-- **Handlers.** -/
theorem Vacant.handled (h : k.Vacant) (hs : k.step l = some k') {k₁ : Kernel}
    (hk₁ : k.handled l = some k₁) : k₁.Vacant := by
  obtain ⟨hc, ht, hf, hsig, -⟩ := h.effects l
  obtain ⟨k₂, hk₂, hacts, -⟩ := acts_step hs
  obtain rfl : k₁ = k₂ := Option.some.inj (hk₁.symm.trans hk₂)
  exact hacts.invariant (fun ha hact => Vacant.act ha hc ht hf hsig hact) (h.entered l)

theorem Vacant.of_isBoot (h : k.IsBoot) : k.Vacant := by
  obtain ⟨base, size, fpu, rfl⟩ := h
  refine ⟨.inl rfl, fun c hc => (by cases hc), fun hl => ?_, fun hp => ?_⟩
  · exact hl.induction (P := fun _ => False) (fun _ _ hh => by cases hh) fun _ _ hf _ => hf
  · obtain ⟨i, hi, -⟩ := hp
    rw [show ((boot base size fpu).tcb (0 : Slot)).sigPending = 0 from rfl] at hi
    simp at hi

theorem vacant_of_reachable {ok : Kernel → Label → Prop} (h : Reachable ok k) : k.Vacant := by
  refine h.invariant (I := Vacant) (fun _ => Vacant.of_isBoot) ?_
  intro k l k' hk _ hs
  exact hk.step hs

end Robu.Kernel
