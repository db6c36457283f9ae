import Robu.Kernel.ActsStep
import Robu.Kernel.SendQueue
import Robu.Lib.Linked

/-!
# Threads that wait while a section runs

Between sections the send queues hold parked threads only, and every current thread runs.
So a thread that waits for something else is not the caller of the next section, is on no
send queue, and stays on none until it runs again.  `Sound` collects what this says about
the effects of a section.
-/

namespace Robu

variable {cur : Slot} {e : Entry}

namespace Kernel

variable {F : Effects} {c : Cpu} {k k' : Kernel} {t : Slot}

/-! ## Links of send queues -/

theorem Edit.links {f : Tcb → Tcb} (h : Edit F c k t f) :
    ((f (k.tcb t)).sqNext = (k.tcb t).sqNext ∨ (f (k.tcb t)).sqNext = none) ∧
      ((f (k.tcb t)).sendQHead = (k.tcb t).sendQHead ∨ (f (k.tcb t)).sendQHead = none) := by
  cases h with
  | own _ own => exact ⟨.inl (congrArg Tcb.sqNext own :), .inl (congrArg Tcb.sendQHead own :)⟩
  | create _ _ _ _ born =>
    exact ⟨.inr (congrArg Tcb.sqNext born :), .inr (congrArg Tcb.sendQHead born :)⟩
  | _ => exact ⟨.inl rfl, .inl rfl⟩

theorem linked_of_cleared
    (hnext : ∀ i : Slot, (k'.tcb i).sqNext = (k.tcb i).sqNext ∨ (k'.tcb i).sqNext = none)
    (hhead : ∀ i : Slot, (k'.tcb i).sendQHead = (k.tcb i).sendQHead ∨ (k'.tcb i).sendQHead = none)
    (h : k'.core.sq.Linked t) : k.core.sq.Linked t :=
  h.of_cleared hhead hnext

theorem Ended.linked {u : Slot} {final : ThreadState} (h : k.Ended u final k')
    (hl : k'.core.sq.Linked t) : k.core.sq.Linked t := by
  refine linked_of_cleared (fun i => ?_) (fun i => ?_) hl
  · rcases eq_or_ne i u with rfl | hi
    · exact h.links
    · exact (h.other i hi).links
  · rcases eq_or_ne i u with rfl | hi
    · exact .inr (congrArg Tcb.sendQHead h.self :)
    · exact .inl (field_of_vital (h.other i hi).frame Tcb.sendQHead fun _ => rfl)

theorem Ends.linked {u : Slot} (h : Ends F c k u k') (hl : k'.core.sq.Linked t) :
    k.core.sq.Linked t := by
  cases h with
  | kill | exitAlone => exact (ended_terminateTcb k c u (.inl rfl)).linked hl
  | exitZombie => exact (ended_terminateTcb k c u (.inr rfl)).linked hl
  | @exitTold p =>
    have hwake := (ended_terminateTcb _ c u (.inl rfl)).linked hl
    have hsq : ((k.modUctx p (childRegs u (k.tcb u).exitStatus)).schedWake c p).core.sq =
      k.core.sq := by
      rw [core_schedWake, core_modUctx, Core.wake_eq]
    exact hsq ▸ hwake

/-- Only the caller gets onto a send queue. -/
theorem Act.linked (h : Act F c k k') (hl : k'.core.sq.Linked t) :
    F.caller = some t ∨ k.core.sq.Linked t := by
  cases h with
  | quiet alike =>
    exact .inr (linked_of_cleared (fun i => .inl (alike.field Tcb.sqNext i fun _ => rfl))
      (fun i => .inl (alike.field Tcb.sendQHead i fun _ => rfl)) hl)
  | deadline | tick | arm | timers | slots | services | caps | newNotification | takeBits =>
    exact .inr hl
  | notify idx bits =>
    have hsq : (k.notifDeliver c idx bits).core.sq = k.core.sq := by
      have hcore := k.core_notifDeliver c idx bits
      cases hn : k.notifWaiter idx with
      | none =>
        rw [hn] at hcore
        exact congrArg Core.sq hcore
      | some u =>
        rw [hn] at hcore
        rw [hcore]
        dsimp only
        rw [Core.wake_eq]
    exact .inr (hsq ▸ hl)
  | @waitNotif me =>
    rw [core_setState] at hl
    exact .inr hl
  | enqueue _ _ _ _ _ _ push =>
    obtain ⟨-, rfl⟩ := faultQueuePush_eq_some push
    exact .inr hl
  | takeFault _ take =>
    obtain ⟨-, rfl⟩ := vmTakeQueuedFault_eq_some take
    exact .inr hl
  | @edit u f edit =>
    refine .inr (linked_of_cleared (fun i => ?_) (fun i => ?_) hl)
    all_goals
      rw [modTcb_tcb]
      split
      · rename_i hi
        obtain rfl := TcbRef.thread.inj hi
        first | exact edit.links.1 | exact edit.links.2
      · exact .inl rfl
  | @hand u g =>
    have hl : ((k.modUctx u g).setState u .running).core.sq.Linked t := hl
    rw [core_setState, core_modUctx] at hl
    exact .inr hl
  | @park me dest _ hc lives =>
    obtain ⟨_, hcore⟩ := k.core_ipcPark (schedGetTcb_eq_some lives).1
    have hsq : (k.ipcPark me dest).core.sq = k.core.sq.push dest me := congrArg Core.sq hcore
    rw [hsq] at hl
    exact hl.of_push.imp_left fun heq => hc.trans (congrArg some heq.symm)
  | @unlink me s prev filter _ found =>
    have hsq : (k.sendqUnlink me prev s).core.sq = k.core.sq.unlink me prev s :=
      congrArg Core.sq (k.core_sendqUnlink me prev s)
    rw [hsq] at hl
    refine .inr (hl.of_unlink ?_)
    rcases (Lib.scan_found found).2.1 with ⟨rfl, hhead⟩ | ⟨b, rfl, hnext⟩
    · exact hhead
    · exact hnext
  | reap =>
    rw [core_modUctx, core_setState] at hl
    exact .inr hl
  | ends ends => exact .inr (ends.linked hl)
  | pick next =>
    cases next with
    | none => exact .inr hl
    | some u =>
      have hl : (k.setState u .running).core.sq.Linked t := hl
      rw [core_setState] at hl
      exact .inr hl

theorem linked_of_mem_senders {r : Slot} (h : t ∈ k.core.senders r) :
    k.core.sq.Linked t := .of_mem_walk h

/-! ## Effects of a section of a kernel with well-formed queues -/

end Kernel

/-- Besides ending threads, the section changes no thread but its caller, and the caller goes
on to run. -/
structure Effects.Still (F : Effects) : Prop where
  takes : ∀ t, ¬ F.takes t
  answers : ¬ F.answers
  signals : ∀ t, ¬ F.signals t
  awaits : ∀ tid, ¬ F.awaits tid
  faults : ∀ t, ¬ F.faults t
  creates : ¬ F.creates
  reaps : ¬ F.reaps
  watches : ¬ F.watches
  notified : ∀ t, ¬ F.notified t

/-- What is known of the effects of a section in terms of the states `st` at its start. -/
structure Effects.Sound (F : Effects) (st : Slot → ThreadState) : Prop where
  live : F.live
  before : (F.creates ∨ ∃ t, F.takes t) → F.before = st
  caller : ∀ t, F.caller = some t → st t = .running
  takes : ∀ t, F.takes t → st t = .waitSend
  faults : ∀ t, F.faults t → st t = .running
  signals : ∀ t, F.signals t → st t ≠ .waitSend
  notified : ∀ t, F.notified t → st t ≠ .waitSend ∧ ¬ F.watches
  kills : ∀ t, F.kills t → st t ≠ .waitSend ∧ st t ≠ .dead ∧ st t ≠ .zombie
  ends : ∀ t, F.kills t ∨ F.exits t → F.Still

namespace Kernel

variable {c : Cpu} {k k' : Kernel} {l : Label}

theorem still_quiet (k : Kernel) : k.quietEffects.Still where
  takes _ := id
  answers := id
  signals _ := id
  awaits _ := id
  faults _ := id
  creates := id
  reaps := id
  watches := id
  notified _ := id

theorem still_resume (k : Kernel) (c : Cpu) : (k.resumeEffects c).Still := { k.still_quiet with }

theorem mem_destroyed {t : Slot} (h : t ∈ k.destroyed c cur) :
    decode (k.tcb cur).uctx = .destroy ∧ t ∈ k.callTargets cur ∧ k.Lives t := by
  unfold destroyed at h
  split at h
  · rename_i hd
    have hmem := (List.mem_filter.mp h).1
    refine ⟨hd, hmem, ?_⟩
    simp only [callTargets, hd, Option.mem_toList] at hmem
    obtain ⟨cap, -, hget⟩ := Option.bind_eq_some_iff.mp hmem
    exact (schedGetTcb_eq_some hget).2
  · cases h

theorem still_callEffects (h : decode (k.tcb cur).uctx ∈ [.destroy, .exit]) :
    (k.callEffects c cur).Still := by
  have hd : ∀ {d : Call}, d ∉ [Call.destroy, .exit] → decode (k.tcb cur).uctx ≠ d :=
    fun hd heq => hd (heq ▸ h)
  have hreceives : ¬ k.receives cur := fun hr => hd (by decide) hr.1
  have htakes : k.callTakes cur = none := if_neg hreceives
  have hawaits : k.callAwaits cur = [] := if_neg hreceives
  have hends : decode (k.tcb cur).uctx ∈ [Call.destroy, .exit, .wait] :=
    (List.sublist_append_left [Call.destroy, .exit] [.wait]).subset h
  refine
    { takes := fun t ht => ?_
      answers := fun ha => ha hends
      signals := fun t ht => hd (by decide) ht.1
      awaits := fun tid ht => ?_
      faults := fun _ => id
      creates := fun ha => ha hends
      reaps := hd (by decide)
      watches := hd (by decide)
      notified := fun t ht => hd (by decide) ht.1 }
  · have ht : k.callTakes cur = some t := ht
    rw [htakes] at ht
    cases ht
  · have ht : tid ∈ k.callAwaits cur := ht
    rw [hawaits] at ht
    cases ht

theorem still_faultEffects {page : Prop} (h : ¬ (page ∧ k.Paged cur)) :
    (k.faultEffects cur page).Still :=
  { k.still_quiet with
    answers := h
    faults := fun _ ht => h ht.2 }

theorem sound_resume (k : Kernel) (c : Cpu) (st : Slot → ThreadState) :
    (k.resumeEffects c).Sound st where
  live := trivial
  before h := by rcases h with h | ⟨_, h⟩ <;> exact h.elim
  caller _ h := by cases h
  takes _ := False.elim
  faults _ := False.elim
  signals _ := False.elim
  notified _ := False.elim
  kills _ := False.elim
  ends _ _ := k.still_resume c

/-- The thread a receive takes from well-formed queues is parked. -/
theorem callTakes_parked {q : Slot → List Slot} (h : k.core.Parked q) {s : Slot}
    (hs : k.callTakes cur = some s) : (k.tcb s).state = .waitSend := by
  unfold callTakes at hs
  split at hs
  · split at hs
    · rename_i prev s' hscan
      cases hs
      rw [sendqScan_eq] at hscan
      obtain ⟨l₁, l₂, hl, -⟩ := h.search_found hscan
      exact (h.parked (r := cur) (by simp [hl])).1
    · cases hs
  · cases hs

theorem Orderly.unlinked {heard : Prop} {t : Slot} (h : k.Orderly heard)
    (ht : (k.tcb t).state ≠ .waitSend) : ¬ k.core.sq.Linked t := by
  obtain ⟨q, hq, -⟩ := h.parked
  intro hl
  obtain ⟨r, hr⟩ := hl.mem_of_holds hq.holds
  exact hq.notMem ht r hr

/-- The effects of a section are sound in the states it starts from. -/
theorem Orderly.sound {heard : Prop} (h : k.Orderly heard) (hhit : ¬ k.hitsParked l) :
    (k.effects l).Sound fun t => (k.tcb t).state := by
  obtain ⟨q, hq, -⟩ := h.parked
  cases l with
  | kern c op =>
    exact
      { sound_resume k c _ with
        before := fun _ => rfl
        caller := fun _ h => by cases h
        ends := fun _ h => by rcases h with h | h <;> exact h.elim }
  | start c => exact { sound_resume k c _ with ends := fun _ _ => { k.still_quiet with } }
  | trap c e =>
    have hst : ∀ t : Slot, ((k.enter c e).tcb t).state = (k.tcb t).state :=
      state_entered k (.trap c e)
    have htarget : ∀ t ∈ k.targets (.trap c e), (k.tcb t).state ≠ .waitSend := fun t ht hw =>
      hhit ⟨t, ht, hw⟩
    have hrun : ∀ t, k.current c = some t → (k.tcb t).state = .running := fun t ht =>
      h.single.running ht
    have hhandling := handling_effects k (.trap c e)
    generalize k.effects (.trap c e) = G, k.doing (.trap c e) = D at hhandling
    cases hhandling with
    | quiet => exact { sound_resume (k.enter c e) c _ with ends := fun _ _ => still_quiet _ }
    | tick timer =>
      refine
        { sound_resume (k.enter c e) c _ with
          notified := fun t ht => ⟨htarget t ?_, id⟩
          ends := fun _ h => by rcases h with h | h <;> exact h.elim }
      rw [targets, if_pos timer]
      exact ht
    | @call _ _ cur hv hcur =>
      have hcaller : k.targets (.trap c e) = (k.enter c e).callTargets cur := by
        rw [targets, if_neg (by rw [hv]; simp), caller, if_pos hv, hcur]
      have hq' : (k.enter c e).core.Parked q := by
        rw [core_enter]
        exact ⟨hq.holds, hq.parked⟩
      exact
        { live := (hst cur).trans (hrun cur hcur)
          before := fun _ => funext hst
          caller := fun t ht => hrun t (hcur.trans ht)
          takes := fun t ht => (hst t).symm.trans (callTakes_parked hq' ht)
          faults := fun _ => False.elim
          signals := fun t ht =>
            htarget t (by rw [hcaller, callTargets]; simp only [ht.1]; exact ht.2)
          notified := fun t ht => ⟨htarget t (by rw [hcaller]; exact ht.2), fun hw => by
            have hw : decode ((k.enter c e).tcb cur).uctx = .notifyWait := hw
            have hs : decode ((k.enter c e).tcb cur).uctx = .notifySignal := ht.1
            rw [hw] at hs
            cases hs⟩
          kills := fun t ht => by
            obtain ⟨-, hmem, hlives⟩ := mem_destroyed ht
            rw [Lives, hst] at hlives
            exact ⟨htarget t (hcaller ▸ hmem), hlives⟩
          ends := fun t ht => still_callEffects (by
            rcases ht with ht | ht
            · rw [(mem_destroyed ht).1]
              decide
            · rw [ht.1]
              decide) }
    | @fault _ _ cur page hcur =>
      refine
        { sound_resume (k.enter c e) c _ with
          faults := fun t ht => ?_
          kills := fun t ht => ?_
          ends := fun t ht => still_faultEffects (ht.elim And.right False.elim) }
      · exact hrun t (hcur.trans (congrArg some ht.1.symm))
      · simp [hrun t (hcur.trans (congrArg some ht.1.symm))]

theorem trap_call (hv : e.frame.vector.toNat = 0x30) (hcur : k.current c = some cur) :
    k.handled (.trap c e) = (k.enter c e).sysIpc c e.env cur ∧
      k.effects (.trap c e) = (k.enter c e).callEffects c cur := by
  have hcur : (k.enter c e).current c = some cur := hcur
  unfold handled effects
  dsimp only
  rw [if_neg (by omega), if_neg (by omega)]
  unfold trapHandler trapEffects
  dsimp only
  simp only [hv, hcur]
  exact ⟨rfl, rfl⟩

theorem handled_tick (hv : e.frame.vector.toNat = 32 ∧ e.irqHandled = false) :
    k.handled (.trap c e) = (k.enter c e).schedTick c := by
  unfold handled
  dsimp only
  rw [if_neg (by omega)]
  unfold trapHandler
  dsimp only
  rw [if_neg (by simp [hv.2]), if_pos hv.1]

/-- The entry into the kernel keeps the links of the send queues. -/
theorem entered_linked {t : Slot} (l : Label) :
    (k.entered l).core.sq.Linked t ↔ k.core.sq.Linked t := by
  cases l with
  | kern | start => rfl
  | trap c e => rw [entered, core_enter]

/-- **Invariant rule.**  What holds when a section starts and survives the acts of its handler
and of the way back to a thread holds when the section is over. -/
theorem step_invariant {I : Kernel → Prop} (h : k.step l = some k') (hk : I (k.entered l))
    (hhandler : ∀ {a b}, I a → Act (k.effects l) l.cpu a b → I b)
    (hresume : ∀ {k₁ a b}, k.handled l = some k₁ → I a →
      Act (k₁.resumeEffects l.cpu) l.cpu a b → I b) :
    I k' := by
  obtain ⟨k₁, hk₁, hacts₁, hacts₂, -⟩ := acts_step h
  exact hacts₂.invariant (hresume hk₁) (hacts₁.invariant hhandler hk)

end Kernel

end Robu
