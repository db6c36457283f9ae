import Robu.Kernel.Acts

/-!
# System calls as acts

The functions of the kernel that end threads, signal them or serve a system call, up to
`sys_ipc`.  The effects of a system call can be told from its registers and the state
in which it is made (`Kernel.callEffects`).
-/

namespace Robu.Kernel

open Function (update)

variable {F : Effects} {D : Doing} {c : Cpu} {env : Env} {k k' k₁ : Kernel} {me t : Slot}
variable {β : Type} {π : Tcb → β} {f : Tcb → Tcb} {slot timerSlot : BitVec 32} {bits : Word}
variable {signum : Int} {caller filter : Tid} {dest : Slot}

/-! ## Signals -/

theorem does_sigSend {target : Tid} (hs : isSignal signum → ∀ t ∈ k.schedGetTcb target, F.signals t)
    (h : k.sigSend c target signum = some k') : Does F D c k k' := by
  obtain ⟨hsig, -⟩ := core_sigSend h
  unfold sigSend at h
  split at h
  · cases h
  split at h
  · cases h
  rename_i t ht
  cases h
  refine (Does.edit (.signal (1#64 <<< (signum.toNat - 1)) (hs hsig t ht))
    (.of_woken rfl rfl rfl)).to_alike ?_ (by simp)
  have hwake := alike_schedWake (k.modTcb t fun x =>
    { x with sigPending := x.sigPending ||| 1#64 <<< (signum.toNat - 1) }) c t
  have hasleep : (k.modTcb t fun x =>
      { x with sigPending := x.sigPending ||| 1#64 <<< (signum.toNat - 1) }).Asleep t ↔
        k.Asleep t := by
    unfold Asleep
    rw [modTcb_tcb_self]
  simpa only [hasleep, modTcb_modTcb] using hwake

theorem does_schedSignalPgid {pgid : Tid}
    (hs : pgid ≠ 0 → isSignal signum → ∀ i ∈ tableSlots, (k.tcb i).pgid = pgid → F.signals i) :
    Does F D c k (k.schedSignalPgid c pgid signum) := by
  unfold schedSignalPgid
  split
  · exact .refl
  rename_i hp
  refine (List.foldlRecOn tableSlots (signalMember c pgid signum)
    (motive := fun k' : Kernel => Does F D c k k' ∧ k'.view Tcb.pgid = k.view Tcb.pgid)
    ⟨.refl, rfl⟩ ?_).1
  rintro k' ⟨hk', hview⟩ i hi
  unfold signalMember
  split
  · exact ⟨hk', hview⟩
  rename_i u hu
  obtain rfl : i = u := Slot.tid_inj (schedGetTcb_eq_some hu).1
  split
  · exact ⟨hk', hview⟩
  rename_i hmember
  cases hsend : k'.sigSend c i.tid signum with
  | none => exact ⟨hk', hview⟩
  | some k₁ =>
    obtain ⟨-, _, -, -, hpgid⟩ := core_sigSend hsend
    have hgroup : (k.tcb i).pgid = pgid := (congrFun hview i).symm.trans (not_not.mp hmember)
    refine ⟨hk'.trans (does_sigSend (fun hsig t ht => ?_) hsend), hpgid.trans hview⟩
    obtain rfl : i = t := Slot.tid_inj (schedGetTcb_eq_some ht).1
    exact hs hp hsig i hi hgroup

theorem does_consoleInterrupt (may : F.answers) {vt : Fin 6}
    (hs : k.consoleFgPgid vt ≠ 0 → isSignal signum → ∀ i ∈ tableSlots,
      (k.tcb i).pgid = k.consoleFgPgid vt → F.signals i) :
    Does F D c k (k.consoleInterrupt c vt signum) := by
  unfold consoleInterrupt
  dsimp only
  have hfirst : ∀ {k₁ : Kernel}, Does F D c k k₁ → k₁.view Tcb.pgid = k.view Tcb.pgid →
      k₁.consoleFgPgid = k.consoleFgPgid →
      Does F D c k (k₁.schedSignalPgid c (k₁.consoleFgPgid vt) signum) := by
    intro k₁ hk₁ hview hfg
    refine hk₁.trans (does_schedSignalPgid fun h₀ hsig i hi hm => ?_)
    rw [hfg] at h₀ hm
    exact hs h₀ hsig i hi ((congrFun hview i).symm.trans hm)
  -- forgetting the reader changes nothing else
  have hclear : k.Alike { k with consoleReadWaiter := update k.consoleReadWaiter vt 0 } :=
    { Alike.refl k with }
  split
  · exact hfirst .refl rfl rfl
  split
  · exact hfirst (.quiet hclear rfl) rfl rfl
  rename_i t _
  split
  · rename_i hwait
    set k₁ : Kernel := { k with consoleReadWaiter := update k.consoleReadWaiter vt 0 }
    have hanswer : Does F D c k₁ ((k₁.setRax t .canceled).schedWake c t) :=
      does_answer may (.interrupt hwait)
    refine hfirst ((Does.quiet hclear rfl).trans hanswer) ?_ ?_
    · have hrax : (k₁.setRax t .canceled).view Tcb.pgid = k₁.view Tcb.pgid :=
        k₁.view_modTcb_frame t (f := fun x =>
          { x with uctx := { x.uctx with rax := IpcErr.canceled.toWord } }) rfl
      exact (view_schedWake _ c t fun _ _ _ => rfl).trans hrax
    · obtain ⟨tcb, inbox, flags, heq⟩ := schedWake_eq (k₁.setRax t .canceled) c t
      show ((k₁.setRax t .canceled).schedWake c t).consoleFgPgid = k.consoleFgPgid
      rw [heq]
      rfl
  · exact hfirst (.quiet hclear rfl) rfl rfl

/-! ## Ends -/

theorem does_schedTerminateTo {final : ThreadState} (hend : D.ends me)
    (hfinal : final = .dead ∨ final = .zombie) (hk : k.Calm k₁)
    (h : Act F c k (k₁.terminateTcb c me final)) :
    Does F D c k (k₁.schedTerminateTo c me final) :=
  Does.to_alike ⟨.single h, hk.works.trans (works_terminateTcb k₁ c hend hfinal)⟩
    (alike_requestResched _ c) (auth_requestResched _ c)

theorem does_spawnExitCurrent (hend : D.ends me) (hx : F.exits me) (hcur : k.current c = some me)
    (hruns : F.live → (k.tcb me).state = .running) (status : BitVec 32) :
    Does F D c k (k.spawnExitCurrent c me status) := by
  unfold spawnExitCurrent
  dsimp only
  refine (Does.edit (.status status hcur hruns) (.of_state rfl rfl rfl)).trans ?_
  generalize hk₁ : (k.modTcb me fun x => { x with exitStatus := status }) = k₁
  have hme : k₁.tcb me = { k.tcb me with exitStatus := status } := by rw [← hk₁, modTcb_tcb_self]
  have hcur₁ : k₁.current c = some me := by rwa [← hk₁]
  have hexit : (k₁.tcb me).exitStatus = status := by rw [hme]
  have hruns₁ : F.live → (k₁.tcb me).state = .running := by rwa [hme]
  split
  · -- no parent
    rename_i hnone
    refine does_schedTerminateTo hend (.inl rfl) (.refl k₁) (.ends (.exitAlone hx hcur₁ hruns₁ ?_))
    by_cases h₀ : (k₁.tcb me).parentTid = 0
    · exact .inl h₀
    · rw [if_neg h₀] at hnone
      exact .inr hnone
  · rename_i p hp
    have h₀ : (k₁.tcb me).parentTid ≠ 0 := by
      intro h₀
      rw [if_pos h₀] at hp
      cases hp
    rw [if_neg h₀] at hp
    split
    · rename_i hwaits
      rw [← hexit]
      exact does_schedTerminateTo hend (.inl rfl) ((calm_modUctx _ _).trans (calm_schedWake _ _))
        (.ends (.exitTold hx hcur₁ hruns₁ hp hwaits))
    · rename_i hwaits
      exact does_schedTerminateTo hend (.inr rfl) (.refl k₁)
        (.ends (.exitZombie hx hcur₁ hruns₁ h₀ hp hwaits))

def destroyed (k : Kernel) (c : Cpu) (cur : Slot) : List Slot :=
  if decode (k.tcb cur).uctx = .destroy then
    (k.callTargets cur).filter fun t : Slot => k.current c ≠ some t ∧ (k.tcb t).state ≠ .running
  else []

theorem capDestroy_eq_some (hcall : decode (k.tcb me).uctx = .destroy)
    (h : k.capDestroy c me.tid ((k.tcb me).uctx.r8.setWidth 32) = some k') :
    ∃ t ∈ k.destroyed c me, k.terminateTcb c t .dead = k' := by
  unfold capDestroy at h
  split at h
  · cases h
  rename_i cap hcap
  unfold schedTerminate at h
  split at h
  · cases h
  rename_i t ht
  split at h
  · cases h
  rename_i hidle
  rw [not_or] at hidle
  have htarget : t ∈ k.callTargets me := by
    unfold callTargets
    simp only [hcall, hcap, Option.bind_some, ht, Option.toList_some, List.mem_singleton]
  refine ⟨t, ?_, Option.some.inj h⟩
  simp only [destroyed, hcall, if_true, List.mem_filter, htarget, true_and, decide_eq_true_eq]
  exact hidle

theorem does_capDestroy (hcall : decode (k.tcb me).uctx = .destroy)
    (hk : ∀ t ∈ k.destroyed c me, F.kills t ∧ D.ends t)
    (h : k.capDestroy c me.tid ((k.tcb me).uctx.r8.setWidth 32) = some k') :
    Does F D c k k' := by
  obtain ⟨t, ht, rfl⟩ := capDestroy_eq_some hcall h
  exact ⟨.single (.ends (.kill (hk t ht).1)), works_terminateTcb _ _ (hk t ht).2 (.inl rfl)⟩

/-! ## Rendezvous -/

theorem view_sendqUnlink (k : Kernel) (rcv : Slot) (prev : Option Slot) (s : Slot)
    (hπ : ∀ x next head tail,
      π { x with sqNext := next, sendQHead := head, sendQTail := tail } = π x) :
    (k.sendqUnlink rcv prev s).view π = k.view π := by
  have hnext : ∀ (k : Kernel) (u : Slot) (o : Option Slot), (k.setSqNext u o).view π = k.view π :=
    fun k u o => k.view_modTcb_frame u (hπ _ o (k.tcb u).sendQHead (k.tcb u).sendQTail)
  unfold sendqUnlink
  dsimp only
  refine (hnext _ _ _).trans ((view_modTcb_frame _ rcv (hπ _ _ _ _)).trans ?_)
  cases prev with
  | none => exact k.view_modTcb_frame rcv (hπ _ (k.tcb rcv).sqNext _ (k.tcb rcv).sendQTail)
  | some b => exact hnext _ _ _

theorem sendqScan_congr {rcv : Slot} (hnext : k'.view Tcb.sqNext = k.view Tcb.sqNext)
    (hhead : k'.view Tcb.sendQHead = k.view Tcb.sendQHead) :
    k'.sendqScan rcv filter = k.sendqScan rcv filter := by
  have hhead' : (k'.tcb rcv).sendQHead = (k.tcb rcv).sendQHead := congrFun hhead rcv
  unfold sendqScan
  rw [hhead']
  exact congrArg (fun next => Lib.scan next (passes filter) 65 none (k.tcb rcv).sendQHead) hnext

theorem sendqScan_modUctx (k : Kernel) (u : TcbRef) (g : Uctx → Uctx) (rcv : Slot) (filter : Tid) :
    (k.modUctx u g).sendqScan rcv filter = k.sendqScan rcv filter :=
  sendqScan_congr (k.view_modTcb_frame u rfl) (k.view_modTcb_frame u rfl)

theorem modUctx_view (k : Kernel) (u : TcbRef) (g : Uctx → Uctx)
    (hπ : ∀ x f, π { x with uctx := f } = π x) : (k.modUctx u g).view π = k.view π :=
  k.view_modTcb_frame u (hπ _ _)

def MayTake (k : Kernel) (F : Effects) (me : Slot) (filter : Tid) : Prop :=
  ∀ {prev s}, k.sendqScan me filter = some (some (prev, s)) → F.takes s ∧
    ((k.tcb s).ipcRecvAfter ≠ noRecvAfter → F.awaits (k.tcb s).ipcRecvAfter) ∧
    (F.before s = .waitSend → (k.tcb s).state = .waitSend)

theorem does_completeParkedSender (hc : F.caller = some me) {s : Slot} (ht : F.takes s)
    (ha : (k.tcb s).ipcRecvAfter ≠ noRecvAfter → F.awaits (k.tcb s).ipcRecvAfter)
    (hp : F.before s = .waitSend → (k.tcb s).state = .waitSend) :
    Does F D c k (k.completeParkedSender c env me s) := by
  unfold completeParkedSender
  dsimp only
  generalize transferErr _ = e
  have hdeliver : Does F D c k (k.deliverToFrame me s.tid (k.tcb s).ipcBuffer) := does_modUctx hc _
  have hst : ((k.deliverToFrame me s.tid (k.tcb s).ipcBuffer).tcb s).state = (k.tcb s).state :=
    congrFun (k.modUctx_view me _ fun _ _ => rfl) s
  have hafter : ((k.deliverToFrame me s.tid (k.tcb s).ipcBuffer).tcb s).ipcRecvAfter =
      (k.tcb s).ipcRecvAfter := congrFun (k.modUctx_view me _ fun _ _ => rfl) s
  rw [← hafter] at ha
  rw [← hst] at hp
  generalize k.deliverToFrame me s.tid (k.tcb s).ipcBuffer = k₁ at hdeliver ha hp ⊢
  refine hdeliver.trans ?_
  have hafter₁ : ((k₁.setRax s e).tcb s).ipcRecvAfter = (k₁.tcb s).ipcRecvAfter :=
    congrFun (k₁.modUctx_view s _ fun _ _ => rfl) s
  rw [hafter₁]
  split
  · rename_i hmore
    have hedit := Does.edit (D := D) (c := c) (.sentReceive e ht hp hmore (ha hmore))
      (.of_ne (s := .waitRecv) rfl (by decide))
    rwa [setState, setRax, modUctx, modTcb_modTcb, modTcb_modTcb]
  · rename_i hdone
    refine (Does.edit (.sent e ht hp (not_not.mp hdone)) (.of_woken rfl rfl rfl)).to_alike ?_
      (by simp)
    have hwake := alike_schedWake (k₁.setRax s e) c s
    have hasleep : (k₁.setRax s e).Asleep s ↔ k₁.Asleep s := k₁.asleep_modUctx s _ s
    simp only [hasleep] at hwake
    rwa [setRax, modUctx, modTcb_modTcb] at hwake

theorem does_ipcRecv (hr : ¬ D.replies) (hc : F.caller = some me) (may : F.answers)
    (hm : k.MayTake F me (k.tcb me).uctx.srcFilter)
    (ha : F.awaits (k.tcb me).uctx.srcFilter) (h : k.ipcRecv c env me = some k') :
    Does F D c k k' := by
  unfold ipcRecv sendqTake at h
  dsimp only at h
  cases hscan : k.sendqScan me (k.tcb me).uctx.srcFilter with
  | none => simp only [hscan] at h; cases h
  | some found =>
    cases found with
    | some ps =>
      -- a parked sender
      obtain ⟨prev, s⟩ := ps
      simp only [hscan] at h
      cases h
      obtain ⟨htakes, hawaits, hparked⟩ := hm hscan
      have hst : ((k.sendqUnlink me prev s).tcb s).state = (k.tcb s).state :=
        congrFun (k.view_sendqUnlink me prev s fun _ _ _ _ => rfl) s
      have hafter : ((k.sendqUnlink me prev s).tcb s).ipcRecvAfter = (k.tcb s).ipcRecvAfter :=
        congrFun (k.view_sendqUnlink me prev s fun _ _ _ _ => rfl) s
      refine (Does.act (.unlink hc hscan) (calm_sendqUnlink ..)).trans
        (does_completeParkedSender hc htakes ?_ ?_)
      · rwa [hafter]
      · rwa [hst]
    | none =>
      simp only [hscan] at h
      split at h
      · -- a queued page fault
        rename_i msg k₁ htake
        cases h
        exact (Does.act (.takeFault hc htake) (calm_vmTakeQueuedFault htake)).trans
          (does_modUctx hc _)
      split at h
      · -- a queued exec request
        rename_i i k₁ hreq
        cases h
        split at hreq
        · obtain ⟨hqueued, rfl⟩ := execreqTryDeliverQueued_spec hreq
          exact (does_passRequest hr hqueued).trans (does_modUctx hc _)
        · cases hreq
      split at h
      · cases h
        exact does_setRax hc _
      cases h
      rw [schedBlock, setState, modTcb_modTcb]
      exact Does.edit (.receive may hc hscan ha) (.of_ne (s := .waitRecv) rfl (by decide))

theorem Alike.schedDirectSwitch (h : k.Alike k') (c : Cpu) (dest : Slot) :
    (k.schedDirectSwitch c dest).Alike (k'.schedDirectSwitch c dest) :=
  { h.modTcb dest (f := fun x => { x with state := .running }) fun _ => rfl with
    current := by
      show update k'.current c (some dest) = update k.current c (some dest)
      rw [h.current] }

/-- Changing a state commutes with an assignment to other fields. -/
theorem setState_modTcb (k : Kernel) (d : Slot) (st : ThreadState) (u : TcbRef) (f : Tcb → Tcb)
    (hf : ∀ x, f { x with state := st } = { f x with state := st }) :
    (k.setState d st).modTcb u f = (k.modTcb u f).setState d st :=
  k.modTcb_comm fun _ => hf _

theorem sendqUnlink_setState (k : Kernel) (d rcv : Slot) (prev : Option Slot) (s : Slot)
    (st : ThreadState) : (k.setState d st).sendqUnlink rcv prev s =
      (k.sendqUnlink rcv prev s).setState d st := by
  have hnext : ((k.setState d st).tcb s).sqNext = (k.tcb s).sqNext :=
    congrFun (k.view_modTcb_frame d (π := Tcb.sqNext) (f := fun x => { x with state := st }) rfl) s
  unfold sendqUnlink
  dsimp only
  rw [hnext]
  cases prev with
  | none =>
    dsimp only [setSqNext]
    rw [setState_modTcb, setState_modTcb, setState_modTcb] <;> exact fun _ => rfl
  | some b =>
    dsimp only [setSqNext]
    rw [setState_modTcb, setState_modTcb, setState_modTcb] <;> exact fun _ => rfl

/-- The message is in the frame of the receiver and the status in the one of the sender. -/
theorem does_deliver (hc : F.caller = some me) (may : F.answers) (ha : k.accepts dest me.tid)
    (m : MsgRegs) (e : IpcErr) :
    Does F D c k (((k.deliverToFrame dest me.tid m).setRax me e).setState dest .ready) := by
  have hcomm := (k.deliverToFrame dest me.tid m).setState_modTcb dest .ready me
    (fun x => { x with uctx := { x.uctx with rax := e.toWord } }) fun _ => rfl
  rw [setRax, modUctx, ← hcomm, setState, deliverToFrame, modUctx, modTcb_modTcb]
  exact (Does.edit (.answer may (.message me.tid m ha))
    (.of_ne (s := .ready) rfl (by decide))).trans (does_setRax hc e)

theorem does_handOver (may : F.answers) (hne : dest ≠ me) (hd : k.accepts dest me.tid)
    (m : MsgRegs) {slice : Int} (hk : (((k.deliverToFrame dest me.tid m).modTcb me f)).Alike k')
    (hf : Does F D c k (k.modTcb me f)) (ha : k'.auth = k.auth) :
    Does F D c k ((k'.modTcb dest fun x => { x with timesliceLeft := slice }).schedDirectSwitch c
      dest) := by
  have ha' : (k.modTcb me f).accepts dest me.tid := by
    unfold accepts
    rwa [modTcb_tcb_of_ne _ (by simpa using hne)]
  have hcomm : (k.modTcb me f).modUctx dest (messageRegs me.tid m) =
      (k.deliverToFrame dest me.tid m).modTcb me f :=
    k.modTcb_comm fun h => absurd (TcbRef.thread.inj h).symm hne
  have hhand : Does F D c k (((k.modTcb me f).modUctx dest (messageRegs me.tid m)).schedDirectSwitch
      c dest) := hf.trans (does_hand may (.message me.tid m ha'))
  rw [hcomm] at hhand
  refine hhand.to_alike (Alike.schedDirectSwitch ?_ c dest) ha
  exact hk.trans (alike_modTcb _ dest fun _ _ => rfl)

/-- The branch of `sys_ipc` for a destination that accepts the message at once. -/
theorem does_ipcDeliver (hc : F.caller = some me) (may : F.answers) (hne : dest ≠ me)
    (ha : k.accepts dest me.tid)
    (hm : (k.tcb me).uctx.wantRecv = true → k.MayTake F me (k.tcb me).uctx.srcFilter ∧
      F.awaits (k.tcb me).uctx.srcFilter)
    (h : k.ipcDeliver c env me dest = some k') : Does F D c k k' := by
  unfold ipcDeliver at h
  dsimp only at h
  generalize payloadFromFrame (k.tcb me).uctx = m at h
  generalize transferErr _ = e at h
  have hscan : ((k.deliverToFrame dest me.tid m).setRax me e).sendqScan me
      (k.tcb me).uctx.srcFilter = k.sendqScan me (k.tcb me).uctx.srcFilter := by
    rw [setRax, sendqScan_modUctx, deliverToFrame, sendqScan_modUctx]
  have hrax : k.sendqScan me (k.tcb me).uctx.srcFilter =
      (k.setRax me e).sendqScan me (k.tcb me).uctx.srcFilter := (sendqScan_modUctx ..).symm
  split at h
  · rename_i hrecv
    obtain ⟨hmay, hawaits⟩ := hm hrecv
    unfold sendqTake at h
    rw [hscan] at h
    cases hfound : k.sendqScan me (k.tcb me).uctx.srcFilter with
    | none => simp only [hfound] at h; cases h
    | some found =>
      cases found with
      | some ps =>
        -- the receiver is woken, and the caller serves a parked sender
        obtain ⟨prev, s⟩ := ps
        simp only [hfound] at h
        cases h
        obtain ⟨htakes, hafter, hparked⟩ := hmay hfound
        set k₁ := (k.deliverToFrame dest me.tid m).setRax me e
        have hunlink : Does F D c k ((k₁.setState dest .ready).sendqUnlink me prev s) := by
          refine (does_deliver hc may ha m e).trans (.act (.unlink hc ((sendqScan_congr ?_ ?_).trans
            (hscan.trans hfound))) (calm_sendqUnlink ..))
          · exact k₁.view_modTcb_frame dest rfl
          · exact k₁.view_modTcb_frame dest rfl
        rw [sendqUnlink_setState] at hunlink
        have hview : ∀ {β : Type} {π : Tcb → β}, (∀ x u next head tail, π { x with
            uctx := u, sqNext := next, sendQHead := head, sendQTail := tail } = π x) →
            (k₁.sendqUnlink me prev s).view π = k.view π := fun {β π} hπ =>
          (k₁.view_sendqUnlink me prev s fun x _ _ _ => hπ x x.uctx _ _ _).trans
            ((modUctx_view _ _ _ fun x u => hπ x u _ _ _).trans (k.modUctx_view _ _ fun x u =>
              hπ x u _ _ _))
        have hstate : ∀ i : Slot, ((k₁.sendqUnlink me prev s).tcb i).state = (k.tcb i).state :=
          congrFun (hview fun _ _ _ _ _ => rfl)
        have hwake := alike_schedWake_of_asleep (c := c)
          (asleep_of_state ((hstate dest).trans ha.1) (by decide))
        refine (hunlink.to_alike hwake (by simp)).trans
          (does_completeParkedSender hc htakes ?_ fun hb => ?_)
        · have hrecv : (((k₁.sendqUnlink me prev s).schedWake c dest).tcb s).ipcRecvAfter =
              (k.tcb s).ipcRecvAfter :=
            congrFun ((view_schedWake _ c dest fun _ _ _ => rfl).trans
              (hview (π := Tcb.ipcRecvAfter) fun _ _ _ _ _ => rfl)) s
          rwa [hrecv]
        · -- a parked sender is not the receiver just woken
          have hsend := hparked hb
          have hsd : s ≠ dest := by
            rintro rfl
            rw [ha.1] at hsend
            cases hsend
          rw [hwake.state s, setState, modTcb_tcb_of_ne _ (by simpa using hsd), hstate]
          exact hsend
      | none =>
        -- the caller waits, and the receiver runs
        simp only [hfound] at h
        cases h
        rw [schedBlock, setState, setRax, modUctx, modTcb_modTcb, modTcb_modTcb]
        refine does_handOver may hne ha m (.refl _) ?_ (by simp)
        have hblock := (does_setRax (D := D) (c := c) (k := k) hc e).trans
          (.edit (.receive may hc (hrax.symm.trans hfound) hawaits)
            (.of_ne (s := .waitRecv) rfl (by decide)))
        rwa [setRax, modUctx, modTcb_modTcb] at hblock
  · split at h
    · -- the caller yields to the receiver
      cases h
      rw [schedReadyNow, setState, setRax, modUctx, modTcb_modTcb]
      refine does_handOver may hne ha m (alike_rqPush _ _) ?_ (by simp)
      have hyield := (does_setRax (D := D) (c := c) (k := k) hc e).trans
        (.edit (.yield may hc) (.of_ne (s := .ready) rfl (by decide)))
      rwa [setRax, modUctx, modTcb_modTcb] at hyield
    · cases h
      refine (does_deliver hc may ha m e).to_alike (alike_schedWake_of_asleep ?_) (by simp)
      rw [setRax, asleep_modUctx, deliverToFrame, asleep_modUctx, Asleep, ha.1]
      decide

theorem MayTake.wake (hm : k.MayTake F me filter) (hd : (k.tcb dest).state = .waitPagefault)
    (e : IpcErr) : ((k.schedWake c dest).setRax me e).MayTake F me filter := by
  have hview : ∀ {β : Type} {π : Tcb → β}, (∀ x u st o, π { x with
      uctx := u, state := st, inboxNext := o } = π x) →
      ((k.schedWake c dest).setRax me e).view π = k.view π := fun {β π} hπ =>
    (modUctx_view _ _ _ fun x u => hπ x u x.state x.inboxNext).trans
      (view_schedWake k c dest fun x st o => hπ x x.uctx st o)
  intro prev s hs
  rw [sendqScan_congr (hview fun _ _ _ _ => rfl) (hview fun _ _ _ _ => rfl)] at hs
  obtain ⟨htakes, hawaits, hparked⟩ := hm hs
  have hafter : (((k.schedWake c dest).setRax me e).tcb s).ipcRecvAfter = (k.tcb s).ipcRecvAfter :=
    congrFun (hview (π := Tcb.ipcRecvAfter) fun _ _ _ _ => rfl) s
  refine ⟨htakes, by rwa [hafter], fun hb => ?_⟩
  have hsend := hparked hb
  have hsd : s ≠ dest := by
    rintro rfl
    rw [hd] at hsend
    cases hsend
  have hasleep : k.Asleep dest := asleep_of_state hd (by decide)
  have hst : (((k.schedWake c dest).setRax me e).tcb s).state =
    ((k.schedWake c dest).tcb s).state :=
    congrFun (modUctx_view _ _ _ fun _ _ => rfl) s
  rw [hst, (alike_schedWake_of_asleep hasleep).state s, setState,
    modTcb_tcb_of_ne _ (by simpa using hsd)]
  exact hsend

theorem does_rendezvous (hr : ¬ D.replies) (hc : F.caller = some me) (may : F.answers)
    (hcall : decode (k.tcb me).uctx = .rendezvous)
    (hm : k.receives me → k.MayTake F me (k.tcb me).uctx.srcFilter ∧
      F.awaits (k.tcb me).uctx.srcFilter)
    (h : k.rendezvous c env me = some k') : Does F D c k k' := by
  unfold rendezvous at h
  dsimp only at h
  split at h
  · rename_i h₀
    obtain ⟨hmay, hawaits⟩ := hm ⟨hcall, .inl h₀⟩
    exact does_ipcRecv hr hc may hmay hawaits h
  split at h
  · cases h
    exact does_setRax hc _
  rename_i dest hdest
  split at h
  · cases h
    exact does_setRax hc _
  rename_i hne
  split at h
  · -- the pager resumes its client
    rename_i hresume
    have hwake : Does F D c k ((k.schedWake c dest).setRax me .none) :=
      (does_schedWake fun _ => .resolve hc hresume).trans (does_setRax hc _)
    split at h
    · rename_i hrecv
      obtain ⟨hmay, hawaits⟩ := hm ⟨hcall, .inr ⟨hrecv, dest, hdest, hne, .inl hresume⟩⟩
      have huctx : (((k.schedWake c dest).setRax me .none).tcb me).uctx.srcFilter =
          (k.tcb me).uctx.srcFilter := by
        rw [setRax, modUctx, modTcb_tcb_self]
        exact congrFun (view_schedWake k c dest (π := fun x => x.uctx.srcFilter)
          fun _ _ _ => rfl) me
      refine hwake.trans (does_ipcRecv hr hc may ?_ ?_ h)
      · rw [huctx]
        exact hmay.wake hresume.1 _
      · rwa [huctx]
    · cases h
      exact hwake
  split at h
  · rename_i haccepts
    exact does_ipcDeliver hc may hne haccepts
      (fun hrecv => hm ⟨hcall, .inr ⟨hrecv, dest, hdest, hne, .inr haccepts⟩⟩) h
  · rename_i haccepts
    cases h
    exact .act (.park may hc hdest hne haccepts) (calm_ipcPark ..)

/-! ## Requests to the kernel -/

theorem does_capNotifSignal (hn : F.notifies)
    (hw : ∀ w ∈ (k.validate caller slot .notification).bind fun cap => k.notifWaiter cap.addr.toNat,
      F.notified w) (h : k.capNotifSignal c caller slot bits = some k') : Does F D c k k' := by
  obtain ⟨cap, hcap, rfl⟩ := Option.map_eq_some_iff.mp h
  refine .act (.notify _ _ hn fun w hwaiter => hw w ?_) (calm_notifDeliver ..)
  rw [hcap]
  exact hwaiter

theorem does_capTimerArm {notifSlot : BitVec 32} {ticks period : Word} (ha : D.arms ticks period)
    (h : k.capTimerArm caller timerSlot notifSlot ticks bits period = some k') :
    Does F D c k k' := by
  unfold capTimerArm at h
  split at h
  · cases h
    refine ⟨.head (.timers _ _) (acts_schedNoteDeadline _),
      .single (.time (.arm _ ha rfl) (SameRequests.noteDeadline ?_ _)) (auth_schedNoteDeadline ..)⟩
    exact { (Calm.refl k).requests with }
  · cases h

theorem does_capTimerDisarm (h : k.capTimerDisarm caller timerSlot = some k') :
    Does F D c k k' := by
  obtain ⟨cap, -, rfl⟩ := Option.map_eq_some_iff.mp h
  exact ⟨.single (.timers _ _), .single (.time (.disarm _) { (Calm.refl k).requests with }) rfl⟩

theorem does_capRevokeFrame (h : k.capRevokeFrame caller slot = some k') : Does F D c k k' := by
  have hgrants : Grants ∅ k k' := .capRevokeFrame h
  unfold capRevokeFrame at h
  split at h
  · cases h
  rename_i cap hcap
  split at h
  · cases h
  cases h
  -- the entry revoked is one for a frame
  have hframe : ∀ {cap' : Kcap}, k.kcapTable[slot.toNat]? = some cap' → cap'.kind = .frame := by
    intro cap' hcap'
    unfold validate at hcap
    simp only [hcap'] at hcap
    split at hcap
    · cases hcap
    · rename_i hkind
      exact not_not.mp (not_or.mp hkind).2
  refine .act (.caps ⟨fun {i cap'} hi hkind => ?_, fun {i cap'} hi hkind => .inl ?_⟩)
    ⟨(Steady.refl k).rest rfl, hgrants⟩
  · have hne : slot.toNat ≠ i := by
      rintro rfl
      rw [hframe hi] at hkind
      cases hkind
    rwa [List.getElem?_modify_ne _ _ hne]
  · rcases eq_or_ne slot.toNat i with rfl | hne
    · rw [List.getElem?_modify_eq] at hi
      obtain ⟨_, -, rfl⟩ := Option.map_eq_some_iff.mp hi
      cases hkind
    · rwa [List.getElem?_modify_ne _ _ hne] at hi

/-! ## Processes -/

theorem does_newChild (hc : F.caller = some me) (hm : k.Makes F) {prio : Prio} {fill : Tcb → Tcb}
    (hlive : F.live → k.Lives me) (h : k.createThread prio fill = some (t, k'))
    (hf : k.Fills prio fill) (hadopt : ∃ pgid sid uctx, f (k'.tcb t) =
      { k'.tcb t with parentTid := me.tid, pgid := pgid, sid := sid, uctx := uctx })
    (g : Uctx → Uctx) : Does F D c k ((k'.modTcb t f).modUctx me g) :=
  (does_spawn hm h hf hlive hadopt).trans (does_modUctx hc g)

theorem schedFindZombieChild_spec {parent : Tid} {z : Slot} {live : Bool}
    (h : k.schedFindZombieChild parent filter = (some z, live)) :
    z ≠ 0 ∧ (k.tcb z).parentTid = parent ∧ (k.tcb z).state = .zombie := by
  unfold schedFindZombieChild at h
  obtain ⟨hfind, -⟩ := Prod.mk.inj h
  have hz := List.find?_some hfind
  have hmem := List.mem_of_find?_eq_some hfind
  simp only [List.mem_filter, decide_eq_true_eq, mem_tableSlots] at hmem hz
  exact ⟨hmem.1, hmem.2.1, hz⟩

theorem does_callSetFsbase (hc : F.caller = some me) : Does F D c k (k.callSetFsbase c me) := by
  unfold callSetFsbase
  dsimp only
  have hfs : Does F D c k (k.modTcb me fun x => { x with fsBase := (k.tcb me).uctx.r8 }) :=
    does_own hc rfl
  generalize (k.modTcb me fun x => { x with fsBase := (k.tcb me).uctx.r8 }) = k₁ at hfs ⊢
  have hload : k₁.Alike { k₁ with
      hw := update k₁.hw c { k₁.hw c with fs := (k.tcb me).uctx.r8 } } := { Alike.refl k₁ with }
  exact (hfs.to_alike hload rfl).trans (does_setRax hc _)

/-! ## The system call -/

/-- The tids a call starts to wait for: the one it receives from, and the one the sender it
takes goes on to receive from. -/
def callAwaits (k : Kernel) (cur : Slot) : List Tid :=
  if k.receives cur then
    (k.tcb cur).uctx.srcFilter ::
      ((k.callTakes cur).toList.map fun s : Slot => (k.tcb s).ipcRecvAfter).filter (· ≠ noRecvAfter)
  else []

def callEffects (k : Kernel) (c : Cpu) (cur : Slot) : Effects where
  caller := some cur
  live := (k.tcb cur).state = .running
  before t := (k.tcb t).state
  takes s := k.callTakes cur = some s
  answers := decode (k.tcb cur).uctx ∉ [.destroy, .exit, .wait]
  signals t := decode (k.tcb cur).uctx = .sysInfo ∧ t ∈ k.infoTargets cur
  kills t := t ∈ k.destroyed c cur
  exits t := decode (k.tcb cur).uctx = .exit ∧ t = cur
  awaits tid := tid ∈ k.callAwaits cur
  faults _ := False
  creates := decode (k.tcb cur).uctx ∉ [.destroy, .exit, .wait]
  reaps := decode (k.tcb cur).uctx = .wait
  grants _ := False
  notifies := decode (k.tcb cur).uctx ∈ [.notifySignal, .notifyWait, .notifyPoll]
  watches := decode (k.tcb cur).uctx = .notifyWait
  notified t := decode (k.tcb cur).uctx = .notifySignal ∧ t ∈ k.callTargets cur
  ticks := False
  arms := False

def makesThread (k : Kernel) (cur : Slot) : Prop :=
  let f := (k.tcb cur).uctx
  match decode f with
  | .retype => CapKind.decode (f.r9.setWidth 32).toNat = some .tcb
  | .spawn | .fork => True
  | .sysInfo => decodeInfo f.r8.toNat = .execreqReply
  | _ => False

/-- The effects of a system call, which creates threads only if it is a call to do so. -/
def exactEffects (k : Kernel) (c : Cpu) (cur : Slot) : Effects :=
  { k.callEffects c cur with creates := k.makesThread cur }

def callDoing (k : Kernel) (c : Cpu) (cur : Slot) : Doing :=
  let f := (k.tcb cur).uctx
  { accepts := decode f = .spawn ∨ decode f = .exec
    sleeps := decode f = .yield
    arms := fun delay period => decode f = .timerArm ∧ delay = f.r10 ∧ period = f.r13
    ticks := False
    replies := decode f = .sysInfo
    collects := False
    registers := False
    ends := fun t => (k.callEffects c cur).kills t ∨ (k.callEffects c cur).exits t }

theorem does_schedSleep (hs : D.sleeps) (hc : F.caller = some me) (may : F.answers) (ticks : Word) :
    Does F D c k (k.schedSleep c me ticks) := by
  unfold schedSleep
  split
  · exact .quiet (alike_requestResched _ c) rfl
  dsimp only
  rw [setState, modTcb_modTcb]
  have hsleep : k.SameRequests (k.modTcb me fun x =>
      { x with wakeAtTick := k.nowTicks + ticks, state := .sleeping }) := by
    refine ⟨rfl, rfl, fun t => ?_⟩
    rw [modTcb_tcb]
    split
    · rintro ⟨⟩
    · exact (Tcb.Still.refl _).waits
  exact ⟨(Acts.edit (.sleep _ may hc)).trans (acts_schedNoteDeadline _),
    .single (.time (.sleep me _ hs) (hsleep.noteDeadline _)) (auth_schedNoteDeadline ..)⟩

theorem mayTake_callEffects (hr : k.receives me) :
    k.MayTake (k.exactEffects c me) me (k.tcb me).uctx.srcFilter := by
  intro prev s hs
  have htakes : k.callTakes me = some s := by
    unfold callTakes
    rw [if_pos hr, hs]
  refine ⟨htakes, fun hmore => ?_, id⟩
  show _ ∈ k.callAwaits me
  unfold callAwaits
  rw [if_pos hr, htakes]
  refine .tail _ (List.mem_filter.mpr ⟨?_, by simpa using hmore⟩)
  simp

/-- **System calls.**  A call does what its effects allow. -/
theorem does_sysIpc (hcur : k.current c = some me) (h : k.sysIpc c env me = some k') :
    Does (k.exactEffects c me) (k.callDoing c me) c k k' := by
  have hlive : (k.exactEffects c me).live → k.Lives me := by
    intro hruns
    unfold Lives
    rw [show (k.tcb me).state = .running from hruns]
    decide
  have hc : (k.exactEffects c me).caller = some me := rfl
  have hm : k.makesThread me → k.Makes (k.exactEffects c me) := fun h => ⟨h, fun _ ht => ht⟩
  have may : decode (k.tcb me).uctx ∉ [Call.destroy, .exit, .wait] →
    (k.exactEffects c me).answers := id
  have hcalls := calls_sysIpc h
  generalize hd : decode (k.tcb me).uctx = call at hcalls
  rw [hd] at may
  have hother : call ≠ .sysInfo → ¬ (k.callDoing c me).replies := fun hne hr =>
    hne (hd.symm.trans hr)
  have hn : call ∈ [Call.notifySignal, .notifyWait, .notifyPoll] →
    (k.exactEffects c me).notifies := by
    intro hmem
    show decode (k.tcb me).uctx ∈ _
    rwa [hd]
  cases hcalls with
  | reply g => exact does_modUctx hc g
  | own hf =>
    refine does_own hc ?_
    obtain ⟨_, _, _, _, _, _, hf⟩ := hf (k.tcb me)
    rw [hf]
    rfl
  | retype g =>
    refine (does_capRetype (fun hk => hm ?_) ..).trans (does_modUctx hc g)
    simpa only [makesThread, hd] using hk
  | destroy hk =>
    exact (does_capDestroy (D := k.callDoing c me) hd (fun _ ht => ⟨ht, .inl ht⟩) hk).trans
      (does_setRax hc _)
  | waitConsole vt =>
    have hwaiter : k.Alike { k with consoleReadWaiter := update k.consoleReadWaiter vt me.tid } :=
      { Alike.refl k with }
    exact (Does.quiet hwaiter rfl).trans
      (.edit (.console (may (by decide)) hc) (.of_ne (s := .waitConsole) rfl (by decide)))
  | signal hk =>
    refine (does_capNotifSignal (hn (by decide)) (fun w hw => ⟨hd, ?_⟩) hk).trans (does_setRax hc _)
    simp only [callTargets, hd, Option.mem_toList]
    exact hw
  | takeBits i g hcall =>
    have hmem : call ∈ [Call.notifySignal, .notifyWait, .notifyPoll] := by
      rcases hcall with rfl | rfl <;> decide
    exact (Does.act (.takeBits _ (hn hmem)) ((Calm.refl k).rest (by rfl))).trans (does_modUctx hc g)
  | waitNotif i =>
    exact .act (.waitNotif _ hd hc)
      (Calm.trans ((Calm.refl k).rest (by rfl)) (calm_setState _ (by decide) (by decide)))
  | timerArm hk =>
    exact (does_capTimerArm (D := k.callDoing c me) ⟨hd, rfl, rfl⟩ hk).trans (does_setRax hc _)
  | timerDisarm hk => exact (does_capTimerDisarm hk).trans (does_setRax hc _)
  | revokeFrame hk => exact (does_capRevokeFrame hk).trans (does_setRax hc _)
  | exit status =>
    exact does_spawnExitCurrent (F := k.exactEffects c me) (D := k.callDoing c me) (.inr ⟨hd, rfl⟩)
      ⟨hd, rfl⟩ hcur id _
  | spawn g hspawn =>
    obtain ⟨image, hcreate⟩ := elfLoadAndSpawnReq_eq hspawn
    exact does_newChild hc (hm (by simp only [makesThread, hd])) hlive hcreate (fun _ => rfl)
      ⟨_, _, _, rfl⟩ g
  | submit hcall _ _ hsub =>
    have hmem : call ∉ [Call.destroy, .exit, .wait] ∧ call ≠ .sysInfo := by
      rcases hcall with rfl | rfl <;> decide
    exact does_execreqSubmit (hcall.imp hd.trans hd.trans) (hother hmem.2) hc (may hmem.1) rfl hsub
  | exec hexec =>
    obtain ⟨image, -, rfl⟩ := Option.map_eq_some_iff.mp hexec
    exact does_own hc rfl
  | fork g hfork =>
    unfold threadCreateForkedLocked at hfork
    exact does_newChild hc (hm (by simp only [makesThread, hd])) hlive hfork (fun _ => rfl)
      ⟨_, _, _, rfl⟩ g
  | reap hfind =>
    refine .act (.reap hd hc (fun hl => ?_) hfind)
      ((calm_setState _ (by decide) (by decide)).trans (calm_modUctx _ _))
    rintro rfl
    exact (hlive hl).2 (schedFindZombieChild_spec hfind).2.2
  | waitChild hfind =>
    rw [schedBlock, setState, modTcb_modTcb]
    exact Does.edit (.waitChild hd hc hfind) (.of_ne (s := .waitChild) rfl (by decide))
  | setFsbase => exact does_callSetFsbase hc
  | yield => exact (does_setRax hc _).to_alike (alike_requestResched _ c) rfl
  | sleep ticks => exact (does_setRax hc .none).trans (does_schedSleep hd hc (may (by decide)) _)
  | kill hi hsend =>
    refine (does_sigSend (F := k.exactEffects c me) (fun hsig t ht => ⟨hd, ?_⟩) hsend).trans
      (does_setRax hc _)
    simp only [infoTargets, hsig, if_true, hi, Option.mem_toList]
    exact ht
  | regroup t g =>
    exact (Does.edit (.regroup _ _) (.of_state (by rfl) (by rfl) (by rfl))).trans (does_setRax hc _)
  | foreground vt g =>
    have hgroup : k.Alike { k with consoleFgPgid := update k.consoleFgPgid vt g } :=
      { Alike.refl k with }
    exact (Does.quiet hgroup rfl).trans (does_setRax hc _)
  | interrupt hi hdriver hvt =>
    refine (does_consoleInterrupt (F := k.exactEffects c me) (may (by decide))
      fun h₀ hsig t ht hg => ⟨hd, ?_⟩).trans (does_setRax hc _)
    simp only [infoTargets, hsig, if_true, hi, hvt, if_pos (And.intro hdriver h₀),
      List.mem_filter, ht, hg, decide_true, and_self]
  | complete hlt hi _ =>
    refine (does_execreqComplete hd (hm ?_) (may (by decide)) ..).trans (does_setRax hc _)
    simpa only [makesThread, hd] using hi
  | rendezvous hr =>
    refine does_rendezvous (hother (by decide)) hc (may (by decide)) hd (fun hr =>
      ⟨mayTake_callEffects hr, ?_⟩) hr
    show _ ∈ k.callAwaits me
    unfold callAwaits
    rw [if_pos hr]
    exact .head _

theorem exactEffects_le (k : Kernel) (c : Cpu) (cur : Slot) :
    (k.exactEffects c cur).Le (k.callEffects c cur) :=
  { Effects.Le.refl (k.callEffects c cur) with
    before := fun _ => rfl
    creates := by
      intro hm
      change k.makesThread cur at hm
      change decode (k.tcb cur).uctx ∉ _
      unfold makesThread at hm
      dsimp only at hm
      split at hm <;> simp_all }

end Robu.Kernel
