import Robu.Core.Step
import Robu.Kernel.Trap

/-!
# The core of a kernel state

`Kernel.core` projects a kernel state to the core system.  Most assignments of the
kernel are invisible there (the frame lemmas `core_*`, which are simp lemmas); the
others are the operations of the core.  The sequences of operations that the kernel
strings together in one function are `Kernel.Steps`.
-/

namespace Robu

open Function (update update_eq_self update_idem update_of_ne update_self)

/-! ## The projection -/

structure CoreTcb where
  state : ThreadState
  partner : Tid
  recvAfter : Tid
  sqNext : Option Slot
  sendQHead : Option Slot
  sendQTail : Option Slot
  ctx : Ctx

def Tcb.core (x : Tcb) : CoreTcb where
  state := x.state
  partner := x.ipcPartner
  recvAfter := x.ipcRecvAfter
  sqNext := x.sqNext
  sendQHead := x.sendQHead
  sendQTail := x.sendQTail
  ctx := ⟨x.fpuState, x.fsBase⟩

def Core.put (s : Core) (t : Slot) (x : CoreTcb) : Core :=
  { s with
    state := update s.state t x.state
    partner := update s.partner t x.partner
    recvAfter := update s.recvAfter t x.recvAfter
    sq :=
      { next := update s.sq.next t x.sqNext
        head := update s.sq.head t x.sendQHead
        tail := update s.sq.tail t x.sendQTail }
    ctx := update s.ctx t x.ctx }

namespace Kernel

variable (k : Kernel) (c : Cpu) (t : Slot)

def core : Core where
  state := k.view Tcb.state
  partner := k.view Tcb.ipcPartner
  recvAfter := k.view Tcb.ipcRecvAfter
  sq := { next := k.view Tcb.sqNext, head := k.view Tcb.sendQHead, tail := k.view Tcb.sendQTail }
  ctx := k.savedCtx
  current := k.current
  hw := k.hw
  started := k.started

theorem core_cur : k.core.cur c = k.cur c := rfl

theorem core_congr {k k' : Kernel} (htcb : k'.tcb = k.tcb) (hcur : k'.current = k.current)
    (hhw : k'.hw = k.hw) (hst : k'.started = k.started) : k'.core = k.core := by
  have hctx : k'.savedCtx = k.savedCtx := by
    funext u
    rw [savedCtx, savedCtx, htcb]
  simp only [core, view_congr htcb, hctx, hcur, hhw, hst]

theorem core_modTcb_thread (f : Tcb → Tcb) :
    (k.modTcb t f).core = k.core.put t (f (k.tcb t)).core := by
  refine Core.ext (k.view_modTcb t f Tcb.state) (k.view_modTcb t f Tcb.ipcPartner)
    (k.view_modTcb t f Tcb.ipcRecvAfter) (Lib.Queues.ext (k.view_modTcb t f Tcb.sqNext)
      (k.view_modTcb t f Tcb.sendQHead) (k.view_modTcb t f Tcb.sendQTail))
    (funext fun u => ?_) rfl rfl rfl
  show (⟨_, _⟩ : Ctx) = update k.savedCtx _ _ u
  rw [modTcb_tcb]
  split
  · rename_i hu; subst hu; rw [update_self]; rfl
  · rename_i hu; rw [update_of_ne hu]; rfl

/-- **Frame rule.**  An assignment that changes nothing the core shows of a block. -/
theorem core_modTcb (u : TcbRef) {f : Tcb → Tcb} (h : (f (k.tcb u)).core = (k.tcb u).core) :
    (k.modTcb u f).core = k.core := by
  simp only [Tcb.core, CoreTcb.mk.injEq] at h
  obtain ⟨h₁, h₂, h₃, h₄, h₅, h₆, h₇⟩ := h
  refine Core.ext (k.view_modTcb_frame u h₁) (k.view_modTcb_frame u h₂) (k.view_modTcb_frame u h₃)
    (Lib.Queues.ext (k.view_modTcb_frame u h₄) (k.view_modTcb_frame u h₅)
      (k.view_modTcb_frame u h₆)) (funext fun v => ?_) rfl rfl rfl
  show (⟨_, _⟩ : Ctx) = ⟨_, _⟩
  rw [modTcb_tcb]
  split
  · rename_i hv; subst hv; exact h₇
  · rfl

@[simp] theorem core_modUctx (u : TcbRef) (f : Uctx → Uctx) : (k.modUctx u f).core = k.core :=
  k.core_modTcb u rfl

@[simp] theorem core_setRax (u : TcbRef) (e : IpcErr) : (k.setRax u e).core = k.core :=
  k.core_modUctx u _

@[simp] theorem core_requestResched : (k.requestResched c).core = k.core := rfl

@[simp] theorem core_schedNoteDeadline (tick : Word) :
    (k.schedNoteDeadline tick).core = k.core := by
  simp only [schedNoteDeadline, apply_ite core]
  exact ite_self _

@[simp] theorem core_schedArmNextDeadline : (k.schedArmNextDeadline c).core = k.core := rfl

@[simp] theorem core_refreshTimeslice (u : TcbRef) : (k.refreshTimeslice u).core = k.core :=
  k.core_modTcb u rfl

@[simp] theorem core_modSlot (i : Fin 8) (f : ExecreqSlot → ExecreqSlot) :
    (k.modSlot i f).core = k.core := rfl

@[simp] theorem core_freeSlot (i : Fin 8) : (k.freeSlot i).core = k.core := rfl

/-! ## States -/

@[simp] theorem core_setState (st : ThreadState) : (k.setState t st).core = k.core.setState t st :=
  (k.core_modTcb_thread t _).trans <| Core.ext rfl (update_eq_self ..)
    (update_eq_self ..) (Lib.Queues.ext (update_eq_self ..)
      (update_eq_self ..) (update_eq_self ..)) (update_eq_self ..) rfl rfl rfl

@[simp] theorem core_setState_idle (d : Cpu) (st : ThreadState) :
    (k.setState (.idle d) st).core = k.core := by
  have htcb : ∀ i : Slot, (k.setState (.idle d) st).tcb i = k.tcb i := fun i =>
    k.modTcb_tcb_of_ne (by simp) _
  refine Core.ext ?_ ?_ ?_ (Lib.Queues.ext ?_ ?_ ?_) (funext fun v => ?_) rfl rfl rfl
  case refine_7 =>
    show (⟨_, _⟩ : Ctx) = ⟨_, _⟩
    rw [setState, modTcb_tcb]
    split <;> rfl
  all_goals
    funext i
    simp only [core, view, htcb]

@[simp] theorem core_inboxPush : (k.inboxPush t).core = k.core :=
  (rfl : _ = (k.modTcb t fun x => { x with inboxNext := k.wakeInbox }).core).trans
    (k.core_modTcb t rfl)

@[simp] theorem core_schedWake : (k.schedWake c t).core = k.core.wake t := by
  by_cases h : k.Asleep t
  · have hw : k.core.wake t = k.core.setState t .ready := if_pos h
    obtain ⟨flags, ⟨-, hwake⟩ | ⟨-, hwake⟩⟩ := schedWake_of_asleep h c
    · rw [hwake, hw]
      exact core_setState ..
    · rw [hwake, hw]
      exact (core_inboxPush ..).trans (core_setState ..)
  · have hw : k.core.wake t = k.core := if_neg h
    rw [schedWake_of_not_asleep h, hw]

/-! ## Ready queues -/

@[simp] theorem core_setRqNext (o : Option Slot) : (k.setRqNext t o).core = k.core :=
  k.core_modTcb t rfl

@[simp] theorem core_setQueued (b : Bool) : (k.setQueued t b).core = k.core :=
  k.core_modTcb t rfl

@[simp] theorem core_rqPush : (k.rqPush t).core = k.core := by
  unfold rqPush
  split
  · rfl
  simp only
  split
  · exact (core_setRqNext _ _ _).trans (k.core_setQueued t true)
  · exact k.core_setQueued t true

@[simp] theorem core_rqUnlink (p : Prio) (prev : Option Slot) :
    (k.rqUnlink p prev t).core = k.core := by
  unfold rqUnlink
  cases prev with
  | none => exact core_setQueued _ t false
  | some b => exact (core_setQueued _ t false).trans (k.core_setRqNext b _)

@[simp] theorem core_drainFrom (fuel : Nat) (o : Option Slot) :
    (drainFrom fuel k o).core = k.core := by
  induction fuel generalizing k o with
  | zero => rfl
  | succ fuel ih =>
    cases o with
    | none => rfl
    | some t =>
      have hclear : (k.modTcb t fun x => { x with inboxNext := none }).core = k.core :=
        k.core_modTcb t rfl
      rw [drainFrom, ih]
      split
      · rw [core_rqPush, hclear]
      · exact hclear

@[simp] theorem core_drainInbox : k.drainInbox.core = k.core :=
  core_drainFrom { k with wakeInbox := none } _ _

@[simp] theorem core_schedReadyNow : (k.schedReadyNow t).core = k.core.setState t .ready := by
  rw [schedReadyNow, core_rqPush, core_setState]

/-- Popping finds a READY thread or none, and the core does not see it. -/
theorem core_rqPopLoop {k : Kernel} {fuel : Nat} {r : Option Slot × Kernel}
    (hr : rqPopLoop fuel k = some r) : r.2.core = k.core ∧ ∀ t ∈ r.1, k.core.state t = .ready := by
  induction fuel generalizing k with
  | zero => cases hr
  | succ fuel ih =>
    unfold rqPopLoop at hr
    split at hr
    · cases hr
      exact ⟨rfl, by simp⟩
    rename_i p _
    split at hr
    · cases hr
    rename_i t _
    have hcore := k.core_rqUnlink t p none
    simp only at hr
    split at hr
    · rename_i hready
      cases hr
      refine ⟨hcore, fun u hu => ?_⟩
      obtain rfl : t = u := Option.some.inj hu
      rw [← hcore]
      exact hready
    · obtain ⟨h₁, h₂⟩ := ih hr
      rw [hcore] at h₁ h₂
      exact ⟨h₁, h₂⟩

theorem core_requeueCurrent :
    (k.requeueCurrent c).core = { k.core with state := k.core.requeued c } := by
  cases hp : k.current c with
  | none =>
    have hp' : k.core.current c = none := hp
    simp only [requeueCurrent, hp, Core.requeued, hp', core_setState_idle]
  | some p =>
    have hp' : k.core.current c = some p := hp
    have hst : k.core.state p = (k.tcb p).state := rfl
    simp only [requeueCurrent, hp, Core.requeued, hp', apply_ite core, core_rqPush, ite_self, hst]
    split
    · exact k.core_setState p .ready
    · rfl

theorem core_dispatch (popped : Option Slot) : (k.dispatch c popped).core =
    { k.core with
      state := match popped with
        | none => k.core.state
        | some t => update k.core.state t .running
      current := update k.current c popped } := by
  cases popped with
  | none =>
    have h : ((k.setState (.idle c) .running).refreshTimeslice (.idle c)).core = k.core := by simp
    exact congrArg (fun s : Core => { s with current := update k.current c none }) h
  | some t =>
    have h : ((k.setState t .running).refreshTimeslice t).core = k.core.setState t .running := by
      simp
    exact congrArg (fun s : Core => { s with current := update k.current c (some t) }) h

/-- **Schedule.**  The CPU goes to a READY thread, or else to its idle thread. -/
theorem core_schedule {k k' : Kernel} {c : Cpu} (h : k.schedule c = some k') :
    ∃ next, (∀ t ∈ next, k.core.requeued c t = .ready) ∧ k'.core = k.core.dispatch c next := by
  unfold schedule at h
  split at h
  · cases h
  rename_i popped k₁ hpop
  cases h
  obtain ⟨hcore, hready⟩ := core_rqPopLoop hpop
  have hreq : k₁.core = { k.core with state := k.core.requeued c } := by
    rw [hcore, core_requeueCurrent, core_drainInbox]
  have hcur : k₁.current = k.current := congrArg Core.current hreq
  refine ⟨popped, fun t ht => ?_, ?_⟩
  · have := hready t ht
    rwa [core_requeueCurrent, core_drainInbox] at this
  · rw [core_dispatch, hreq, hcur]
    rfl

theorem core_saveFpu (u : TcbRef) (v : FpuState) :
    (k.modTcb u fun x => { x with fpuState := v }).core =
      { k.core with ctx := update k.core.ctx u ⟨v, (k.core.ctx u).fs⟩ } := by
  have hview : ∀ {β : Type} (π : Tcb → β), (∀ x, π { x with fpuState := v } = π x) →
      (k.modTcb u fun x => { x with fpuState := v }).view π = k.view π := fun π hπ =>
    k.view_modTcb_frame u (hπ _)
  refine Core.ext (hview Tcb.state fun _ => rfl) (hview Tcb.ipcPartner fun _ => rfl)
    (hview Tcb.ipcRecvAfter fun _ => rfl) (Lib.Queues.ext (hview Tcb.sqNext fun _ => rfl)
      (hview Tcb.sendQHead fun _ => rfl) (hview Tcb.sendQTail fun _ => rfl))
    (funext fun w => ?_) rfl rfl rfl
  show (⟨_, _⟩ : Ctx) = update k.savedCtx u _ w
  rw [modTcb_tcb]
  split
  · rename_i hw; subst hw; rw [update_self]; rfl
  · rename_i hw; rw [update_of_ne hw]; rfl

theorem core_schedSwitchTo (src : TcbRef) :
    (k.schedSwitchTo c src (k.cur c)).core = k.core.switch c src := by
  unfold schedSwitchTo Core.switch
  rw [core_cur]
  split
  · rfl
  have hsave := k.core_saveFpu src (k.hw c).fpu
  set k₁ := k.modTcb src fun x => { x with fpuState := (k.hw c).fpu } with hk₁
  have hctx : ∀ u, k₁.savedCtx u = update k.core.ctx src ⟨(k.hw c).fpu, (k.core.ctx src).fs⟩ u :=
    fun u =>
    congrArg (fun s : Core => s.ctx u) hsave
  have hfs : ∀ u, (k₁.tcb u).fsBase = (k₁.savedCtx u).fs := fun _ => rfl
  have hfpu : ∀ u, (k₁.tcb u).fpuState = (k₁.savedCtx u).fpu := fun _ => rfl
  simp only [hfs, hfpu, hctx]
  show ({ k₁.core with hw := update k₁.hw c _ } : Core) = _
  rw [hsave]
  rfl

/-! ## Send queues -/

theorem core_modSq (f : Tcb → Tcb) (h : ∀ x, { (f x).core with
      sqNext := x.sqNext, sendQHead := x.sendQHead, sendQTail := x.sendQTail } = x.core) :
    (k.modTcb t f).core = { k.core with
      sq :=
        { next := update k.core.sq.next t (f (k.tcb t)).sqNext
          head := update k.core.sq.head t (f (k.tcb t)).sendQHead
          tail := update k.core.sq.tail t (f (k.tcb t)).sendQTail } } := by
  have ht := h (k.tcb t)
  simp only [Tcb.core, CoreTcb.mk.injEq] at ht
  obtain ⟨h₁, h₂, h₃, -, -, -, h₄⟩ := ht
  rw [core_modTcb_thread, Core.put]
  simp only [Tcb.core, h₁, h₂, h₃, h₄]
  exact Core.ext (update_eq_self t k.core.state) (update_eq_self t k.core.partner)
    (update_eq_self t k.core.recvAfter) rfl (update_eq_self (t : TcbRef) k.core.ctx)
    rfl rfl rfl

@[simp] theorem core_setSqNext (o : Option Slot) :
    (k.setSqNext t o).core = { k.core with sq := k.core.sq.setNext t o } := by
  unfold setSqNext
  rw [core_modSq k t _ fun _ => by rfl]
  exact Core.ext rfl rfl rfl (Lib.Queues.ext rfl (update_eq_self t k.core.sq.head)
    (update_eq_self t k.core.sq.tail)) rfl rfl rfl rfl

@[simp] theorem core_clearSendQ :
    (k.clearSendQ t).core = { k.core with sq := k.core.sq.clear t } := by
  unfold clearSendQ
  rw [core_modSq k t _ fun _ => by rfl]
  exact Core.ext rfl rfl rfl (Lib.Queues.ext (update_eq_self t k.core.sq.next) rfl rfl) rfl
    rfl rfl rfl

theorem core_setSendQHead (o : Option Slot) : (k.modTcb t fun x => { x with sendQHead := o }).core =
      { k.core with sq := { k.core.sq with head := update k.core.sq.head t o } } := by
  rw [core_modSq k t _ fun _ => by rfl]
  exact Core.ext rfl rfl rfl (Lib.Queues.ext (update_eq_self t k.core.sq.next) rfl
    (update_eq_self t k.core.sq.tail)) rfl rfl rfl rfl

theorem core_setSendQTail (f : Option Slot → Option Slot) :
    (k.modTcb t fun x => { x with sendQTail := f x.sendQTail }).core =
      { k.core with
        sq := { k.core.sq with
          tail := update k.core.sq.tail t (f (k.core.sq.tail t)) } } := by
  rw [core_modSq k t _ fun _ => by rfl]
  exact Core.ext rfl rfl rfl (Lib.Queues.ext (update_eq_self t k.core.sq.next)
    (update_eq_self t k.core.sq.head) rfl) rfl rfl rfl rfl

theorem core_sendqAppend (rcv s : Slot) :
    (k.sendqAppend rcv s).core = { k.core with sq := k.core.sq.push rcv s } := by
  have h₁ := k.core_setSqNext s none
  set k₁ := k.setSqNext s none with hk₁
  have htail : (k₁.tcb rcv).sendQTail = k.core.sq.tail rcv :=
    congrArg (fun s : Core => s.sq.tail rcv) h₁
  simp only [sendqAppend, ← hk₁, htail, Lib.Queues.push]
  rw [core_setSendQTail _ rcv fun _ => some s]
  cases k.core.sq.tail rcv with
  | some b => simp only [core_setSqNext, h₁]; rfl
  | none => simp only [core_setSendQHead, h₁]; rfl

theorem sendqScan_eq (rcv : Slot) (filter : Tid) :
    k.sendqScan rcv filter = k.core.search rcv filter := rfl

theorem core_sendqUnlink (rcv : Slot) (prev : Option Slot) (s : Slot) :
    (k.sendqUnlink rcv prev s).core = { k.core with sq := k.core.sq.unlink rcv prev s } := by
  have hnext : (k.tcb s).sqNext = k.core.sq.next s := rfl
  have htail : ∀ q : Slot → Option Slot, update q rcv (if q rcv = some s then prev else q rcv) =
        if q rcv = some s then update q rcv prev else q := by
    intro q
    split
    · rfl
    · exact update_eq_self rcv q
  simp only [sendqUnlink, core_setSqNext, hnext]
  rw [core_setSendQTail _ rcv fun o => if o = some s then prev else o]
  cases prev with
  | some b => simp only [core_setSqNext, htail]; rfl
  | none => simp only [core_setSendQHead, htail]; rfl

@[simp] theorem core_deliverToFrame (rcv : Slot) (sender : Tid) (m : MsgRegs) :
    (k.deliverToFrame rcv sender m).core = k.core := k.core_modUctx rcv _

theorem core_completeParkedSender (env : Env) (cur s : Slot) :
    (k.completeParkedSender c env cur s).core = k.core.complete s := by
  have h₂ : ∀ e, ((k.deliverToFrame cur s.tid (k.tcb s).ipcBuffer).setRax s e).core =
      k.core := fun e => by simp
  unfold completeParkedSender Core.complete
  simp only
  generalize hk₂ : (k.deliverToFrame cur s.tid (k.tcb s).ipcBuffer).setRax s
    (transferErr (k.transferOk env s.tid (k.tcb s).ipcFlags (k.tcb s).ipcBuffer)) = k₂
  have hcore : k₂.core = k.core := hk₂ ▸ h₂ _
  have hra : (k₂.tcb s).ipcRecvAfter = k.core.recvAfter s :=
    congrArg (fun s' : Core => s'.recvAfter s) hcore
  rw [hra, apply_ite core, core_schedWake, core_setState, core_modTcb_thread, hcore]
  refine if_congr Iff.rfl ?_ rfl
  simp only [Core.put, Tcb.core, hra]
  refine Core.ext ?_ rfl rfl ?_ ?_ rfl rfl rfl
  · exact update_idem ..
  · rw [← hcore]
    exact Lib.Queues.ext (update_eq_self ..) (update_eq_self ..) (update_eq_self ..)
  · rw [← hcore]
    exact update_eq_self ..

/-! ## Creating and ending threads -/

theorem core_createThread {k : Kernel} {prio : Prio} {fill : Tcb → Tcb} {i : Slot} {k' : Kernel}
    (h : k.createThread prio fill = some (i, k'))
    (hfill : ∀ x, (fill x).ipcPartner = x.ipcPartner ∧ (fill x).ipcRecvAfter = x.ipcRecvAfter ∧
      (fill x).sqNext = x.sqNext ∧ (fill x).sendQHead = x.sendQHead ∧
      (fill x).sendQTail = x.sendQTail) :
    k.core.state i = .dead ∧ ∃ ctx, k'.core = k.core.create i ctx := by
  obtain ⟨hd, rfl⟩ := createThread_eq h
  obtain ⟨h₁, h₂, h₃, h₄, h₅⟩ := hfill (k.freshTcb i prio)
  have hdead : (k.tcb i).state = .dead := by simpa using List.find?_some hd
  refine ⟨hdead, (fill (k.freshTcb i prio)).core.ctx, ?_⟩
  rw [core_schedReadyNow, core_modTcb_thread, core_modTcb_thread, modTcb_tcb_self]
  simp only [Core.put, Core.setState, Tcb.core, Core.create, update_idem, h₁, h₂, h₃, h₄, h₅]
  rfl

/-- The loop over the send queue of a dead thread unlinks and wakes the threads it meets. -/
theorem core_flushFrom (fuel : Nat) (h : Option Slot) : (flushFrom c fuel k h).core =
    { k.core with
      state := fun u =>
        if u ∈ Lib.walk fuel k.core.sq.next h ∧ k.core.Asleep u then .ready else k.core.state u
      sq := { k.core.sq with
        next := fun u => if u ∈ Lib.walk fuel k.core.sq.next h then
          none else k.core.sq.next u } } := by
  induction fuel generalizing k h with
  | zero => simp [flushFrom, Lib.walk]
  | succ fuel ih =>
    cases h with
    | none => simp [flushFrom, Lib.walk]
    | some t =>
      set s₁ : Core := { k.core with sq := k.core.sq.setNext t none } with hs₁
      set k₁ := ((k.setSqNext t none).setRax t .notFound).schedWake c t with hk₁
      have hcore : k₁.core = s₁.wake t := by
        rw [hk₁, core_schedWake, core_setRax, core_setSqNext]
      have hnext : k₁.core.sq = s₁.sq := by rw [hcore, Core.wake_eq]
      have hwalk : Lib.walk (fuel + 1) k.core.sq.next (some t) =
          t :: Lib.walk fuel k₁.core.sq.next (k.core.sq.next t) := by
        rw [hnext]; rfl
      have hasleep : ∀ u, k₁.core.Asleep u ↔ k.core.Asleep u := fun u => by
        rw [hcore, Core.asleep_wake]; rfl
      have hst : ∀ u, k₁.core.state u =
          if u = t ∧ k.core.Asleep t then .ready else k.core.state u := fun u => by
        rw [hcore, Core.wake_eq]; rfl
      have hstep : flushFrom c (fuel + 1) k (some t) = flushFrom c fuel k₁ (k.core.sq.next t) := rfl
      rw [hstep, ih, hwalk]
      simp only [hasleep, hst, hnext]
      rw [hcore, Core.wake_eq]
      refine Core.ext (funext fun u => ?_) rfl rfl (Lib.Queues.ext (funext fun u => ?_) rfl rfl)
        rfl rfl rfl rfl
      · simp only [List.mem_cons]
        by_cases hu : u = t
        · subst hu
          by_cases ha : k.core.Asleep u <;> simp [ha]
        · simp [hu]
      · simp only [List.mem_cons]
        by_cases hu : u = t
        · subst hu
          simp [hs₁, Lib.Queues.setNext]
        · simp [hs₁, Lib.Queues.setNext, hu]

/-- Marking a thread as ended and flushing its send queue is a death. -/
theorem core_flush (final : ThreadState) :
    (flushFrom c 65 ((k.setState t final).clearSendQ t)
      ((k.setState t final).tcb t).sendQHead).core =
      k.core.die t final := by
  have hhead : ((k.setState t final).tcb t).sendQHead = k.core.sq.head t :=
    congrArg (fun s : Core => s.sq.head t) (k.core_setState t final)
  rw [core_flushFrom, hhead, core_clearSendQ, core_setState]
  rfl

end Kernel

end Robu
