import Robu.Kernel.Results

/-!
# Waiters of notifications

A notification names the thread that waits for it by tid, and the thread does not name the
notification.  `Watched` ties the two together: every waiter named is a thread in
WAIT_NOTIFICATION, and it is named once.
-/

namespace Robu.Kernel

variable {F : Effects} {st : Slot → ThreadState} {c : Cpu} {k k' : Kernel} {i t : Slot} {l : Label}

variable {idx : Nat} {me : Slot}

/-- The thread has been waiting for a notification since the section began. -/
structure Watching (st : Slot → ThreadState) (k : Kernel) (w : Slot) : Prop where
  state : (k.tcb w).state = .waitNotification
  before : st w = .waitNotification
  unlinked : ¬ k.core.sq.Linked w

/-- **Waiters.**  `st` gives the states of the threads when the section began. -/
structure Watched (st : Slot → ThreadState) (k : Kernel) : Prop where
  waiter : ∀ {idx : Nat}, (k.notifTable idx).waiter ≠ 0 →
    idx < k.notifCount ∧ ∃ w : Slot, (k.notifTable idx).waiter = w.tid ∧ Watching st k w
  once : ∀ {idx idx' : Nat}, (k.notifTable idx).waiter ≠ 0 →
    (k.notifTable idx').waiter = (k.notifTable idx).waiter → idx' = idx
  caps : ∀ {i : Nat} {cap : Kcap}, k.kcapTable[i]? = some cap → cap.kind = .notification →
    cap.addr.toNat < k.notifCount

theorem Watched.notifWaiter (h : Watched st k) (hw : k.notifWaiter idx = some i) :
    (k.notifTable idx).waiter = i.tid ∧ Watching st k i := by
  unfold Kernel.notifWaiter at hw
  split at hw
  · cases hw
  rename_i h₀
  obtain ⟨-, w, heq, hwatch⟩ := h.waiter h₀
  have htid := (schedGetTcb_eq_some hw).1
  obtain rfl : w = i := Slot.tid_inj (heq.symm.trans htid)
  exact ⟨heq, hwatch⟩

/-! ## Tables -/

theorem Tables.waiter (h : Tables F c k k') (hw : ¬ F.watches)
    (h₀ : (k'.notifTable idx).waiter ≠ 0) : (k.notifTable idx).waiter =
      (k'.notifTable idx).waiter := by
  have hkeep : k'.notifTable = k.notifTable →
      (k.notifTable idx).waiter = (k'.notifTable idx).waiter := fun heq => by rw [heq]
  cases h with
  | same same | tick _ same | arm _ same | caps _ same | enqueue _ _ _ _ same | takeFault _ same =>
    exact hkeep same.notifTable
  | newNotification same =>
    rw [same.notifTable] at h₀ ⊢
    by_cases hi : idx = k.notifCount
    · subst hi
      simp at h₀
    · simp [hi]
  | @notify idx' bits _ same =>
    have htable := same.notifTable
    rw [notifDeliver_eq] at htable
    dsimp only at htable
    rw [htable] at h₀ ⊢
    by_cases hi : idx = idx'
    · subst hi
      rw [Function.update_self] at h₀ ⊢
      split at h₀
      · rename_i hz
        rw [if_pos hz]
      · exact absurd rfl h₀
    · simp [hi]
  | @takeBits idx' _ same =>
    rw [same.notifTable]
    by_cases hi : idx = idx'
    · subst hi
      simp
    · simp [hi]
  | waitNotif watches => exact absurd watches hw
  | ended _ same =>
    rw [same.notifTable] at h₀ ⊢
    dsimp only [notifInvalidateWaiterDeath] at h₀ ⊢
    split at h₀
    · simp at h₀
    · rw [if_neg (by assumption)]

theorem Tables.notifCount (h : Tables F c k k') : k.notifCount ≤ k'.notifCount := by
  cases h with
  | same same | tick _ same | arm _ same | caps _ same | enqueue _ _ _ _ same | takeFault _ same
  | notify _ same | takeBits _ same | waitNotif _ _ same | ended _ same => exact same.notifCount.ge
  | newNotification same => exact same.notifCount ▸ Nat.le_succ _

theorem Tables.notifCaps (h : Tables F c k k') (hg : ¬ F.grants .notification)
    (hk : ∀ {i : Nat} {cap : Kcap}, k.kcapTable[i]? = some cap → cap.kind = .notification →
      cap.addr.toNat < k.notifCount)
    {i : Nat} {cap : Kcap} (hi : k'.kcapTable[i]? = some cap) (hkind : cap.kind = .notification) :
    cap.addr.toNat < k'.notifCount := by
  refine lt_of_lt_of_le ?_ h.notifCount
  cases h with
  | same same | tick _ same | arm _ same | enqueue _ _ _ _ same | takeFault _ same | notify _ same
  | takeBits _ same | waitNotif _ _ same | newNotification same =>
    rw [same.kcapTable] at hi
    exact hk hi hkind
  | caps kept same =>
    rw [same.kcapTable] at hi
    rcases kept.fresh hi hkind with hold | hnew | hgrant
    · exact hk hold hkind
    · exact hnew
    · exact absurd hgrant hg
  | ended _ same =>
    rw [same.kcapTable] at hi
    dsimp only [kcapInvalidateTcbDeath] at hi
    rw [List.getElem?_map, Option.map_eq_some_iff] at hi
    obtain ⟨old, hold, rfl⟩ := hi
    split at hkind
    · cases hkind
    rename_i hother
    rw [if_neg hother]
    exact hk hold hkind

/-! ## Waiters wait -/

theorem Ends.watching (h : Ends F c k t k') (hi : i ≠ t) (hlink : ¬ k.core.sq.Linked i)
    (hs : (k.tcb i).state = .waitNotification) : (k'.tcb i).state = .waitNotification := by
  rcases h.fate hi with hfate | ⟨-, -, hwaits, -⟩
  · cases hfate.outcome with
    | spared _ hst => exact hst.trans hs
    | flushed hq => exact absurd (linked_of_mem_senders hq) hlink
    | buried hw | orphaned hw | failed hw => simp [hs] at hw
  · have hw := hwaits.1
    simp [hs] at hw

section Watched

variable (h : Watched st k)

include h

/-- **Step.**  Acts of sections that do not signal waiters and add none. -/
theorem Watched.act (hact : Act F c k k') (hF : F.Sound st) (hw : ¬ F.watches)
    (hsig : ∀ t, F.signals t → st t ≠ .waitNotification) (hg : ¬ F.grants .notification) :
    Watched st k' := by
  have htables := hact.tables
  refine ⟨fun {idx} h₀ => ?_, fun {idx idx'} h₀ heq => ?_, htables.notifCaps hg h.caps⟩
  · have hold := htables.waiter hw h₀
    obtain ⟨hidx, w, hwaiter, hwatch⟩ := h.waiter (hold ▸ h₀)
    refine ⟨hidx.trans_le htables.notifCount, w, hold ▸ hwaiter, ?_, hwatch.before, fun hl => ?_⟩
    · have hpassive : F.Passive w := hF.passive (by simp [hwatch.before]) (by simp [hwatch.before])
        (by simp [hwatch.before])
      rcases hact.calm_or F.calmLe_calm with hcalm | ⟨t, ends⟩ | ⟨idx', bits, -, -, rfl⟩
      · have hheld := (hcalm.turn w).expects (fun _ h => h.elim id id)
          ⟨hpassive.caller, hpassive.takes, hpassive.faults, hpassive.created⟩
          (fun hs => hsig w hs hwatch.before) id hwatch.state (.inr rfl)
        exact hheld.state.trans hwatch.state
      · rcases eq_or_ne w t with rfl | hwt
        · -- a thread that ends is named no more
          rw [ends.sameTables.notifTable] at h₀
          dsimp only [notifInvalidateWaiterDeath] at h₀
          rw [if_pos ⟨hidx, hwaiter⟩] at h₀
          exact absurd rfl h₀
        · exact ends.watching hwt hwatch.unlinked hwatch.state
      · have hne : k.notifWaiter idx' ≠ some w := fun hdeliver => by
          obtain rfl : idx' = idx :=
            h.once (hold ▸ h₀) ((h.notifWaiter hdeliver).1.trans hwaiter.symm)
          rw [notifDeliver_eq] at h₀
          dsimp only at h₀
          rw [Function.update_self] at h₀
          split at h₀
          · rename_i hz
            exact absurd hz h₀
          · exact absurd rfl h₀
        rw [field_of_body (body_notifDeliver hne bits) Tcb.state fun _ => rfl]
        exact hwatch.state
    · rcases hact.linked hl with hc | hl
      · have hrun := hF.caller w hc
        simp [hwatch.before] at hrun
      · exact hwatch.unlinked hl
  · have hold := htables.waiter hw h₀
    have hold' := htables.waiter hw (heq ▸ h₀)
    exact h.once (hold ▸ h₀) (by rw [hold, hold', heq])

/-! ## Sections -/

theorem Watched.rebase : Watched (fun t => (k.tcb t).state) k :=
  { h with
    waiter := fun h₀ => by
      obtain ⟨hidx, w, hw, hwatch⟩ := h.waiter h₀
      exact ⟨hidx, w, hw, hwatch.state, hwatch.state, hwatch.unlinked⟩ }

theorem Watched.congr (hwaiter : ∀ idx, (k'.notifTable idx).waiter = (k.notifTable idx).waiter)
    (hcount : k'.notifCount = k.notifCount) (hcaps : k'.kcapTable = k.kcapTable)
    (hstate : ∀ t : Slot, (k'.tcb t).state = (k.tcb t).state)
    (hlink : ∀ t : Slot, k'.core.sq.Linked t → k.core.sq.Linked t) : Watched st k' where
  waiter h₀ := by
    rw [hwaiter] at h₀ ⊢
    rw [hcount]
    obtain ⟨hidx, w, hw, hwatch⟩ := h.waiter h₀
    exact ⟨hidx, w, hw, (hstate w).trans hwatch.state, hwatch.before, fun hl =>
      hwatch.unlinked (hlink w hl)⟩
  once h₀ heq := by
    rw [hwaiter] at h₀
    rw [hwaiter, hwaiter] at heq
    exact h.once h₀ heq
  caps hi hkind := by
    rw [hcaps] at hi
    rw [hcount]
    exact h.caps hi hkind

theorem Watched.modUctx (f : Uctx → Uctx) : Watched st (k.modUctx me f) :=
  h.congr (fun _ => rfl) rfl rfl (fun t => congrFun (k.view_modTcb_frame (π := Tcb.state) me rfl) t)
    fun t hl => by rwa [core_modUctx] at hl

theorem Watched.word (idx : Nat) (word : Word) : Watched st
    { k with
      notifTable := Function.update k.notifTable idx { k.notifTable idx with word := word } } := by
  refine h.congr (fun j => ?_) rfl rfl (fun _ => rfl) fun _ hl => hl
  by_cases hj : j = idx
  · subst hj
    simp
  · simp [hj]

/-- A thread that has a capability for a notification names an object that exists. -/
theorem Watched.validate {caller : Tid} {slot : BitVec 32} {cap : Kcap}
    (hv : k.validate caller slot .notification = some cap) : cap.addr.toNat < k.notifCount := by
  unfold Kernel.validate at hv
  split at hv
  · cases hv
  rename_i cap' hcap
  split at hv
  · cases hv
  rename_i hvalid
  cases hv
  exact h.caps hcap (not_not.mp (not_or.mp hvalid).2)

theorem Watched.waiter_ne (hrun : (k.tcb me).state = .running)
    (h₀ : (k.notifTable idx).waiter ≠ 0) : (k.notifTable idx).waiter ≠ me.tid := by
  intro heq
  obtain ⟨-, w, hw, hwatch⟩ := h.waiter h₀
  obtain rfl : w = me := Slot.tid_inj (hw.symm.trans heq)
  rw [hwatch.state] at hrun
  cases hrun

theorem Watched.register (hidx : idx < k.notifCount)
    (hrun : (k.tcb me).state = .running) (hlink : ¬ k.core.sq.Linked me) {k' : Kernel}
    (hk' : k' = ({ k with
      notifTable := Function.update k.notifTable idx
        { k.notifTable idx with waiter := me.tid } } : Kernel).setState me .waitNotification) :
    Watched (fun t => (k'.tcb t).state) k' := by
  have hwaiter : ∀ {j : Nat}, (k'.notifTable j).waiter ≠ 0 → j = idx ∧
    (k'.notifTable j).waiter = me.tid ∨
        j ≠ idx ∧ (k'.notifTable j).waiter = (k.notifTable j).waiter := by
    subst hk'
    intro j h₀
    by_cases hj : j = idx
    · subst hj
      exact .inl ⟨rfl, by simp [setState, modTcb]⟩
    · exact .inr ⟨hj, by simp [setState, modTcb, hj]⟩
  have hold : ∀ {j : Nat}, (k.notifTable j).waiter ≠ 0 → (k.notifTable j).waiter ≠ me.tid :=
    fun h₀ => h.waiter_ne hrun h₀
  have hsq : k'.core.sq = k.core.sq := by rw [hk', core_setState]; rfl
  refine ⟨fun {j} h₀ => ?_, fun {j j'} h₀ heq => ?_, fun hi hkind => ?_⟩
  · have hcount : k'.notifCount = k.notifCount := by rw [hk']; rfl
    rw [hcount]
    rcases hwaiter h₀ with ⟨rfl, hme⟩ | ⟨hj, hsame⟩
    · have hst : (k'.tcb me).state = .waitNotification := by rw [hk', setState, modTcb_tcb_self]
      exact ⟨hidx, me, hme, hst, hst, hsq ▸ hlink⟩
    obtain ⟨hlt, w, hw, hwatch⟩ := h.waiter (hsame ▸ h₀)
    have hne : w ≠ me := fun heq => hold (hsame ▸ h₀) (heq ▸ hw)
    have hst : (k'.tcb w).state = .waitNotification := by
      rw [hk', setState, modTcb_tcb_of_ne _ (by simpa using hne)]
      exact hwatch.state
    exact ⟨hlt, w, hsame.trans hw, hst, hst, hsq ▸ hwatch.unlinked⟩
  · rcases hwaiter h₀ with ⟨rfl, hme⟩ | ⟨hj, hsame⟩ <;>
      rcases hwaiter (heq ▸ h₀) with ⟨rfl, hme'⟩ | ⟨hj', hsame'⟩
    · rfl
    · exact absurd (hsame'.symm.trans (heq.trans hme)) (hold (by rw [← hsame', heq]; exact h₀))
    · exact absurd (hsame.symm.trans (heq.symm.trans hme')) (hold (by rw [← hsame]; exact h₀))
    · exact h.once (hsame ▸ h₀) (by rw [← hsame, ← hsame', heq])
  · subst hk'
    exact h.caps hi hkind

theorem Watched.callNotifyWait (hrun : (k.tcb me).state = .running)
    (hlink : ¬ k.core.sq.Linked me) :
    Watched (fun t => ((k.callNotifyWait me).tcb t).state) (k.callNotifyWait me) := by
  unfold Kernel.callNotifyWait capNotifWaitBegin
  cases hv : k.validate me.tid ((k.tcb me).uctx.r8.setWidth 32) .notification with
  | none => exact (h.modUctx _).rebase
  | some cap =>
    dsimp only
    by_cases hw : (k.notifTable cap.addr.toNat).word = 0
    · rw [if_neg (not_not.mpr hw)]
      exact h.register (h.validate hv) hrun hlink rfl
    rw [if_pos hw]
    dsimp only
    rw [if_pos hw]
    exact (Watched.modUctx (h.word _ 0) _).rebase

end Watched

/-- The section sends no signal to a thread that waits for a notification, and kernel code
grants no capability for a notification of its choice. -/
structure Spares (k : Kernel) (l : Label) : Prop where
  parked : ¬ k.hitsParked l
  signals : ∀ t, (k.effects l).signals t → (k.tcb t).state ≠ .waitNotification
  grants : ¬ (k.effects l).grants .notification

instance (k : Kernel) (l : Label) : Decidable (k.Spares l) :=
  decidable_of_iff (¬ k.hitsParked l ∧
    (∀ t, (k.effects l).signals t → (k.tcb (.thread t)).state ≠ .waitNotification) ∧
      ¬ (k.effects l).grants .notification)
    ⟨fun h => ⟨h.1, h.2.1, h.2.2⟩, fun h => ⟨h.parked, h.signals, h.grants⟩⟩

theorem Watched.entered (h : Watched (fun t => (k.tcb t).state) k) (l : Label) :
    Watched (fun t => (k.tcb t).state) (k.entered l) := by
  have htables := k.sameTables_entered l
  exact h.congr (fun _ => by rw [htables.notifTable]) htables.notifCount htables.kcapTable
    (state_entered k l) fun _ => (entered_linked l).mp

theorem Watched.handled {heard : Prop} (h : Watched (fun t => (k.tcb t).state) k)
    (ho : k.Orderly heard) (hok : k.Spares l) {k₁ : Kernel} (hk₁ : k.handled l = some k₁)
    (hacts : Acts (k.effects l) l.cpu (k.entered l) k₁) :
    Watched (fun t => (k₁.tcb t).state) k₁ := by
  have hsound := ho.sound hok.parked
  by_cases hw : (k.effects l).watches
  · -- the one call that names a waiter
    cases l with
    | kern | start => exact hw.elim
    | trap c e =>
      have hhandling := handling_effects k (.trap c e)
      generalize k.effects (.trap c e) = G, k.doing (.trap c e) = D at hhandling hw
      cases hhandling with
      | quiet | tick | fault => exact hw.elim
      | @call _ _ cur hv hcur =>
        have hw : decode ((k.enter c e).tcb cur).uctx = .notifyWait := hw
        rw [(trap_call hv hcur).1, sysIpc, hw] at hk₁
        cases hk₁
        have hrun : (k.tcb cur).state = .running := ho.single.running hcur
        refine (h.entered (.trap c e)).callNotifyWait ?_ ?_
        · exact (state_entered k (.trap c e) cur).trans hrun
        · exact fun hl => ho.unlinked (by simp [hrun]) ((entered_linked (.trap c e)).mp hl)
  · exact (hacts.invariant (fun h hact => h.act hact hsound hw hok.signals hok.grants)
      (h.entered l)).rebase

/-- **Step.** -/
theorem Watched.step {heard : Prop} (h : Watched (fun t => (k.tcb t).state) k)
    (ho : k.Orderly heard) (hok : k.Spares l) (hs : k.step l = some k') :
    Watched (fun t => (k'.tcb t).state) k' := by
  obtain ⟨k₁, hk₁, hhandler, hresume, -⟩ := acts_step hs
  refine (hresume.invariant (fun h hact => ?_) (h.handled ho hok hk₁ hhandler)).rebase
  exact h.act hact (sound_resume ..) id (fun _ => False.elim) id

theorem Watched.boot (untypedBase untypedSize : Word) (fpuDefault : FpuState) :
    Watched (fun t => ((boot untypedBase untypedSize fpuDefault).tcb t).state)
      (boot untypedBase untypedSize fpuDefault) where
  waiter h₀ := absurd rfl h₀
  once h₀ := absurd rfl h₀
  caps h := absurd (show ([] : List Kcap)[_]? = some _ from h) (by simp)

/-- **Run.** -/
theorem Watched.of_reachable {ok : Kernel → Label → Prop} (hok : ∀ k l, ok k l → k.Spares l)
    (h : Reachable ok k) : Watched (fun t => (k.tcb t).state) k := by
  refine (h.invariant (I := fun k => k.Orderly False ∧ Watched (fun t => (k.tcb t).state) k)
    ?_ ?_).2
  · rintro k ⟨base, size, fpu, rfl⟩
    exact ⟨Orderly.boot False base size fpu, Watched.boot base size fpu⟩
  · rintro k l k' ⟨ho, hw⟩ hkl hs
    exact ⟨ho.step (hok k l hkl).parked False.elim hs, hw.step ho (hok k l hkl) hs⟩

end Robu.Kernel
