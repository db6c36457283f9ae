import Robu.Kernel.Calls
import Robu.Kernel.Moves

/-!
# The kernel refines its core

Every kernel section is a sequence of steps of the core, in the scope that
`Kernel.scope` reads off the state before the section.  The system call comes first,
call by call; then traps, `sched_resume` and the sections of kernel threads.
-/

namespace Robu.Kernel

open Function (update update_eq_self update_idem)

variable {F : Scope} {c : Cpu} {env : Env} {k k' k₁ k₂ : Kernel} {me t : Slot}
variable {caller filter : Tid} {dest : Slot} {timerSlot : BitVec 32} {ticks : Word}

/-- The scope covers what the system call of `me` is about to do. -/
structure Permits (F : Scope) (c : Cpu) (env : Env) (k : Kernel) (me : Slot) : Prop where
  hits : ∀ t ∈ k.callTargets me, k.core.state t = .waitSend → F.hitsParked
  running : ∀ x ∈ k.callTakes me, k.core.state x = .running → F.takesRunning
  missed : ∀ x ∈ k.callTakes me, k.core.recvAfter x ≠ noRecvAfter →
    k.core.search x (k.core.recvAfter x) ≠ some none → F.missesSender
  hands : k.callHandsOver env me → F.handsOver
  creates : k.MayCreate F c

/-! ## Receiving -/

theorem core_blockRecv (k : Kernel) (me : Slot) (filter : Tid) :
    ((k.modTcb me fun x => { x with ipcPartner := filter }).schedBlock me .waitRecv).core =
      k.core.receive me filter := by
  rw [schedBlock, core_setState, core_modTcb_thread]
  exact Core.ext (update_idem ..) rfl (update_eq_self me k.core.recvAfter)
    (Lib.Queues.ext (update_eq_self me k.core.sq.next)
      (update_eq_self me k.core.sq.head) (update_eq_self me k.core.sq.tail))
    (update_eq_self (me : TcbRef) k.core.ctx) rfl rfl rfl

theorem core_vmTakeQueuedFault {r : FaultMsg × Kernel} (h : k.vmTakeQueuedFault t = some r) :
    r.2.core = k.core := by
  unfold vmTakeQueuedFault at h
  split at h
  · cases h
  dsimp only at h
  split at h
  · cases h
  split at h
  · cases h
  · cases h
    exact core_congr rfl rfl rfl rfl

theorem core_execreqTryDeliverQueued {r : Fin 8 × Kernel} (h : k.execreqTryDeliverQueued = some r) :
    r.2.core = k.core := by
  obtain ⟨i, -, rfl⟩ := Option.map_eq_some_iff.mp h
  exact core_modSlot ..

theorem sendqTake_eq_some {rcv : Slot} {r : Option Slot × Kernel}
    (h : k.sendqTake rcv filter = some r) : (k.core.search rcv filter = some none ∧ r = (none, k)) ∨
      ∃ prev x, k.core.search rcv filter = some (some (prev, x)) ∧
        r = (some x, k.sendqUnlink rcv prev x) := by
  unfold sendqTake at h
  split at h
  · cases h
  · rename_i hs
    exact .inl ⟨hs, (Option.some.inj h).symm⟩
  · rename_i prev x hs
    exact .inr ⟨prev, x, hs, (Option.some.inj h).symm⟩

/-- The scope covers a receive of `me` with the filter given. -/
structure PermitsTake (F : Scope) (k : Kernel) (me : Slot) (filter : Tid) : Prop where
  running : ∀ {prev x}, k.core.search me filter = some (some (prev, x)) →
    k.core.state x = .running → F.takesRunning
  missed : ∀ {prev x}, k.core.search me filter = some (some (prev, x)) →
    k.core.recvAfter x ≠ noRecvAfter → k.core.search x (k.core.recvAfter x) ≠ some none →
    F.missesSender

theorem Permits.take (h : k.Permits F c env me) (hr : k.receives me) :
    k.PermitsTake F me (k.tcb me).uctx.srcFilter := by
  have htakes : ∀ {prev x}, k.core.search me (k.tcb me).uctx.srcFilter = some (some (prev, x)) →
      x ∈ k.callTakes me := by
    intro prev x hs
    have hs : k.sendqScan me (k.tcb me).uctx.srcFilter = some (some (prev, x)) := hs
    rw [callTakes, if_pos hr, hs]
    rfl
  exact ⟨fun hs => h.running _ (htakes hs), fun hs => h.missed _ (htakes hs)⟩

theorem PermitsTake.wake (h : k.PermitsTake F me filter)
    (hk : k'.core = k.core.wake t) : k'.PermitsTake F me filter := by
  rw [Core.wake_eq] at hk
  have hsearch : ∀ r f, k'.core.search r f = k.core.search r f := fun r f => by rw [hk]; rfl
  have hra : k'.core.recvAfter = k.core.recvAfter := by rw [hk]
  refine ⟨fun {prev x} hs hx => ?_, fun {prev x} hs => ?_⟩
  · rw [hsearch] at hs
    refine h.running hs ?_
    rw [hk] at hx
    dsimp only at hx
    split at hx
    · cases hx
    · exact hx
  · rw [hsearch] at hs
    rw [hra, hsearch]
    exact h.missed hs

theorem steps_ipcRecv (hme : k.Runs c me) (ht : k.PermitsTake F me (k.tcb me).uctx.srcFilter)
    (h : k.ipcRecv c env me = some k') : k.Steps F c k' := by
  unfold ipcRecv at h
  dsimp only at h
  cases hs : k.sendqTake me (k.tcb me).uctx.srcFilter with
  | none => simp only [hs] at h; cases h
  | some r =>
    rcases sendqTake_eq_some hs with ⟨hnone, rfl⟩ | ⟨prev, x, hfound, rfl⟩
    · simp only [hs] at h
      split at h
      · rename_i msg k₁ hf
        cases h
        exact .of_eq ((core_modUctx ..).trans (core_vmTakeQueuedFault hf))
      · split at h
        · rename_i i k₁ hq
          cases h
          refine .of_eq ((core_modUctx ..).trans ?_)
          split at hq
          · exact core_execreqTryDeliverQueued hq
          · cases hq
        · split at h
          · cases h
            exact .of_eq (core_setRax ..)
          · cases h
            rw [Steps, core_blockRecv]
            exact (Core.Step.receive hme hnone).steps
    · simp only [hs] at h
      cases h
      rw [Steps, core_completeParkedSender, core_sendqUnlink]
      exact (Core.Step.take hme hfound (ht.running hfound) (ht.missed hfound)).steps

/-! ## Sending -/

theorem wake_unlink_comm (s : Core) (me dest x : Slot) (prev : Option Slot) :
    ({ s with sq := s.sq.unlink me prev x } : Core).wake dest =
      { s.wake dest with sq := (s.wake dest).sq.unlink me prev x } := by
  rw [Core.wake_eq, Core.wake_eq]
  rfl

/-- Every kind of delivery is a sequence of steps of the core. -/
theorem steps_ipcDeliver (hme : k.Runs c me) (hne : dest ≠ me) (hacc : k.accepts dest me.tid)
    (ht : (k.tcb me).uctx.wantRecv = true → k.PermitsTake F me (k.tcb me).uctx.srcFilter)
    (hands : (if (k.tcb me).uctx.wantRecv then
        k.core.search me (k.tcb me).uctx.srcFilter = some none
      else (k.tcb me).prio ≤ (k.tcb dest).prio) → F.handsOver)
    (h : k.ipcDeliver c env me dest = some k') : k.Steps F c k' := by
  have hwait : k.core.state dest = .waitRecv := hacc.1
  unfold ipcDeliver at h
  dsimp only at h
  generalize hk₁ : (k.deliverToFrame dest me.tid (payloadFromFrame (k.tcb me).uctx)).setRax me
    (transferErr (k.transferOk env me.tid (k.tcb me).uctx.flags
      (payloadFromFrame (k.tcb me).uctx))) = k₁ at h
  have hcore : k₁.core = k.core := by rw [← hk₁, core_setRax, core_deliverToFrame]
  have hprio : ∀ u : Slot, (k₁.tcb u).prio = (k.tcb u).prio := by
    intro u
    have hv : k₁.view Tcb.prio = k.view Tcb.prio := by
      rw [← hk₁]
      unfold setRax deliverToFrame modUctx
      exact (view_modTcb_frame _ _ rfl).trans (view_modTcb_frame _ _ rfl)
    exact congrFun hv u
  -- the destination gets the CPU and the rest of the time slice
  have hswitch : ∀ {k₂ : Kernel} {left : Int}, k.Steps F c k₂ → k₂.core.state dest = .waitRecv →
      F.handsOver → k.Steps F c
        ((k₂.modTcb dest fun x => { x with timesliceLeft := left }).schedDirectSwitch c dest) := by
    intro k₂ left hs hst hF
    have htime : (k₂.modTcb dest fun x => { x with timesliceLeft := left }).core = k₂.core :=
      k₂.core_modTcb dest rfl
    exact hs.trans (Steps.of_core htime (steps_schedDirectSwitch (by rw [htime]; exact hst) hF))
  split at h
  · rename_i hwant
    cases hs : k₁.sendqTake me (k.tcb me).uctx.srcFilter with
    | none => simp only [hs] at h; cases h
    | some r =>
      rcases sendqTake_eq_some hs with ⟨hnone, rfl⟩ | ⟨prev, x, hfound, rfl⟩
      · simp only [hs] at h
        cases h
        rw [hcore] at hnone
        refine hswitch ?_ ?_ (hands (by rw [if_pos hwant]; exact hnone))
        · rw [Steps, core_blockRecv, hcore]
          exact (Core.Step.receive hme hnone).steps
        · rw [core_blockRecv, hcore]
          exact (Core.setState_of_ne _ hne _).trans hwait
      · simp only [hs] at h
        cases h
        rw [hcore] at hfound
        rw [Steps, core_completeParkedSender, core_schedWake, core_sendqUnlink, hcore,
          wake_unlink_comm]
        have hcore' : (k.schedWake c dest).core = k.core.wake dest := core_schedWake ..
        have ht' := (ht hwant).wake hcore'
        have hfound : (k.core.wake dest).search me (k.tcb me).uctx.srcFilter =
          some (some (prev, x)) := by
          rw [Core.wake_eq]; exact hfound
        rw [← hcore'] at hfound ⊢
        refine (steps_schedWake_of .waitRecv hwait (by decide)).tail
          (Core.Step.take ?_ hfound (ht'.running hfound) (ht'.missed hfound))
        rw [hcore']
        exact hme.wake dest
  · rename_i hwant
    split at h
    · rename_i hle
      cases h
      rw [hprio, hprio] at hle
      refine hswitch ?_ ?_ (hands (by rw [if_neg hwant]; exact hle))
      · rw [Steps, core_schedReadyNow, hcore]
        exact (Core.Step.block hme (by decide) (by decide)).steps
      · rw [core_schedReadyNow, hcore]
        exact (Core.setState_of_ne _ hne _).trans hwait
    · cases h
      exact Steps.of_core hcore
        (steps_schedWake_of .waitRecv (by rw [hcore]; exact hwait) (by decide))

theorem core_ipcPark (k : Kernel) {me : Slot} (hdest : (k.tcb me).uctx.destTid = dest.tid) :
    ∃ recvAfter, (k.ipcPark me dest).core = k.core.park me dest recvAfter := by
  refine ⟨if (k.tcb me).uctx.wantRecv then (k.tcb me).uctx.srcFilter else noRecvAfter, ?_⟩
  unfold ipcPark
  dsimp only
  rw [schedBlock, core_setState, core_sendqAppend, core_modTcb_thread, hdest]
  have hsq : ∀ x : Tcb, x.sqNext = (k.tcb me).sqNext → x.sendQHead = (k.tcb me).sendQHead →
      x.sendQTail = (k.tcb me).sendQTail → (k.core.put me x.core).sq = k.core.sq := by
    intro x h₁ h₂ h₃
    refine Lib.Queues.ext ?_ ?_ ?_
    · show update k.core.sq.next me x.sqNext = _
      rw [h₁]; exact update_eq_self me k.core.sq.next
    · show update k.core.sq.head me x.sendQHead = _
      rw [h₂]; exact update_eq_self me k.core.sq.head
    · show update k.core.sq.tail me x.sendQTail = _
      rw [h₃]; exact update_eq_self me k.core.sq.tail
  rw [hsq]
  · exact Core.ext (update_idem ..) rfl rfl rfl
      (update_eq_self (me : TcbRef) k.core.ctx) rfl rfl rfl
  all_goals rfl

/-- A message is delivered, or its sender parks. -/
theorem steps_rendezvous (hme : k.Runs c me) (hp : k.Permits F c env me)
    (hcall : decode (k.tcb me).uctx = .rendezvous) (h : k.rendezvous c env me = some k') :
    k.Steps F c k' := by
  unfold rendezvous at h
  dsimp only at h
  split at h
  · rename_i h₀
    exact steps_ipcRecv hme (hp.take ⟨hcall, .inl h₀⟩) h
  split at h
  · cases h
    exact .of_eq (core_setRax ..)
  rename_i dest hdest
  split at h
  · cases h
    exact .of_eq (core_setRax ..)
  rename_i hne
  split at h
  · rename_i hfault
    -- the pager resumes its client, and may then receive
    have hwait : k.core.state dest = .waitPagefault := hfault.1
    have hcore : ((k.schedWake c dest).setRax me .none).core = k.core.wake dest := by
      rw [core_setRax, core_schedWake]
    have hs : k.Steps F c ((k.schedWake c dest).setRax me .none) :=
      (steps_schedWake_of .waitPagefault hwait (by decide)).to_core (core_setRax ..)
    split at h
    · rename_i hwant
      have hp' := hp.take ⟨hcall, .inr ⟨hwant, dest, hdest, hne, .inl hfault⟩⟩
      refine hs.trans (steps_ipcRecv ?_ ?_ h)
      · rw [Runs, hcore]
        exact hme.wake dest
      · have hfilter : (((k.schedWake c dest).setRax me .none).tcb me).uctx.srcFilter =
            (k.tcb me).uctx.srcFilter := by
          have hv : (k.schedWake c dest).view Tcb.uctx = k.view Tcb.uctx :=
            k.view_schedWake c dest fun _ _ _ => rfl
          unfold setRax modUctx
          rw [modTcb_tcb_self]
          show ((k.schedWake c dest).tcb me).uctx.srcFilter = _
          exact congrArg Uctx.srcFilter (congrFun hv me)
        rw [hfilter]
        exact hp'.wake hcore
    · cases h
      exact hs
  · split at h
    · rename_i hacc
      refine steps_ipcDeliver hme hne hacc (fun hwant => ?_) (fun hh => hp.hands ?_) h
      · exact hp.take ⟨hcall, .inr ⟨hwant, dest, hdest, hne, .inr hacc⟩⟩
      · unfold callHandsOver
        simp only [hcall]
        exact ⟨dest, hdest, hne, hacc, hh⟩
    · rename_i hacc
      cases h
      obtain ⟨ra, hcore⟩ := k.core_ipcPark (schedGetTcb_eq_some hdest).1
      rw [Steps, hcore]
      exact (Core.Step.park hme hacc).steps

/-! ## Requests to the kernel -/

theorem core_capTimerArm {notifSlot : BitVec 32} {bits period : Word}
    (h : k.capTimerArm caller timerSlot notifSlot ticks bits period = some k') :
    k'.core = k.core := by
  unfold capTimerArm at h
  split at h
  · cases h
    exact (core_schedNoteDeadline ..).trans (core_congr rfl rfl rfl rfl)
  · cases h

theorem core_capTimerDisarm (h : k.capTimerDisarm caller timerSlot = some k') :
    k'.core = k.core := by
  obtain ⟨cap, -, rfl⟩ := Option.map_eq_some_iff.mp h
  exact core_congr rfl rfl rfl rfl

theorem core_capRevokeFrame {slot : BitVec 32}
    (h : k.capRevokeFrame caller slot = some k') : k'.core = k.core := by
  unfold capRevokeFrame at h
  split at h
  · cases h
  split at h
  · cases h
  · cases h
    exact core_congr rfl rfl rfl rfl

theorem steps_schedSleep (hme : k.Runs c me) {e : IpcErr} :
    k.Steps F c ((k.setRax me e).schedSleep c me ticks) := by
  unfold schedSleep
  split
  · exact .of_eq ((core_requestResched ..).trans (core_setRax ..))
  dsimp only
  have hcore : ∀ v, ((k.setRax me e).modTcb me fun x => { x with wakeAtTick := v }).core = k.core :=
    fun v => (core_modTcb _ _ rfl).trans (core_setRax ..)
  refine Steps.to_core (Steps.of_core (hcore _) (steps_setState ?_ ?_ ?_))
    (core_schedNoteDeadline ..)
  · rw [Runs, hcore]
    exact hme
  · decide
  · decide

/-! ## The system call -/

/-- **System call.**  Every call but the one that sets the FS base is a sequence of steps. -/
theorem steps_sysIpc (hme : k.Runs c me) (hp : k.Permits F c env me)
    (hfs : decode (k.tcb me).uctx ≠ .setFsbase) (h : k.sysIpc c env me = some k') :
    k.Steps F c k' := by
  have hcalls := calls_sysIpc h
  generalize hcall : decode (k.tcb me).uctx = call at hcalls hfs
  -- a call that blocks its caller changes nothing else the core sees
  have hblock : ∀ {k₁ : Kernel} {s : ThreadState}, k₁.core = k.core → s ≠ .waitSend →
    s ≠ .waitRecv →
      k.Steps F c (k₁.schedBlock me s) := by
    intro k₁ s hcore hsend hrecv
    refine Steps.of_core hcore (steps_setState ?_ hsend hrecv)
    rw [Runs, hcore]
    exact hme
  have htargets : call = .sysInfo → ∀ t ∈ k.infoTargets me, k.core.state t = .waitSend →
    F.hitsParked := by
    intro hinfo t ht
    refine hp.hits t ?_
    unfold callTargets
    simp only [hcall, hinfo]
    exact ht
  cases hcalls with
  | reply g => exact .of_eq (core_modUctx ..)
  | own hf =>
    obtain ⟨_, _, _, _, _, _, hf⟩ := hf (k.tcb me)
    exact .of_eq (core_modTcb _ _ (by rw [hf]; rfl))
  | retype g => exact (steps_capRetype hp.creates ..).to_core (core_modUctx ..)
  | destroy hk =>
    unfold capDestroy at hk
    split at hk
    · cases hk
    rename_i cap hcap
    refine (steps_schedTerminate (fun t ht => hp.hits t ?_) hk).to_core (core_setRax ..)
    unfold callTargets
    simp only [hcall, hcap, Option.bind_some]
    exact Option.mem_toList.mpr ht
  | waitConsole vt => exact hblock (core_congr rfl rfl rfl rfl) (by decide) (by decide)
  | signal hk =>
    obtain ⟨cap, hcap, rfl⟩ := Option.map_eq_some_iff.mp hk
    refine (steps_notifDeliver _ fun w hw => hp.hits w ?_).to_core (core_setRax ..)
    unfold callTargets
    simp only [hcall, hcap, Option.bind_some]
    exact Option.mem_toList.mpr hw
  | takeBits i g => exact .of_eq ((core_modUctx ..).trans (core_congr rfl rfl rfl rfl))
  | waitNotif i => exact hblock (core_congr rfl rfl rfl rfl) (by decide) (by decide)
  | timerArm hk => exact .of_eq ((core_setRax ..).trans (core_capTimerArm hk))
  | timerDisarm hk => exact .of_eq ((core_setRax ..).trans (core_capTimerDisarm hk))
  | revokeFrame hk => exact .of_eq ((core_setRax ..).trans (core_capRevokeFrame hk))
  | exit status => exact steps_spawnExitCurrent hme _
  | spawn g hspawn =>
    refine (steps_elfLoadAndSpawnReq hp.creates hspawn).1.to_core ((core_modUctx ..).trans ?_)
    exact core_modTcb _ _ rfl
  | submit hreq hname hroot hsub =>
    refine steps_execreqSubmit hme (fun halloc t ht hw => hp.hands ?_) hsub
    unfold callHandsOver
    rcases hreq with rfl | rfl
    all_goals
      simp only [hcall]
      exact ⟨by rw [hname]; rfl, by simpa using hroot, halloc, t, ht, hw⟩
  | exec hexec => exact .of_eq (core_elfExecCurrent hexec)
  | fork g hfork =>
    refine (steps_createThread hp.creates hfork fun _ => ⟨rfl, rfl, rfl, rfl, rfl⟩).1.to_core
      ((core_modUctx ..).trans ?_)
    exact core_modTcb _ _ rfl
  | @reap z _ hfind =>
    have hzombie : k.core.state z = .zombie := by
      have hz := List.find?_some (congrArg Prod.fst hfind)
      show (k.tcb z).state = .zombie
      simpa using hz
    refine Steps.to_core ?_ (core_modUctx ..)
    rw [Steps, schedReapZombie, core_setState]
    exact (Core.Step.reap hzombie).steps
  | waitChild hfind => exact hblock (core_modTcb _ _ (by rfl)) (by decide) (by decide)
  | setFsbase => exact absurd rfl hfs
  | yield => exact .of_eq ((core_requestResched ..).trans (core_setRax ..))
  | sleep ticks => exact steps_schedSleep hme
  | kill hi hsend =>
    refine (steps_sigSend (fun hs t ht => htargets rfl t ?_) hsend).to_core (core_setRax ..)
    unfold infoTargets
    simp only [hs, if_true, hi]
    exact Option.mem_toList.mpr ht
  | regroup t g => exact .of_eq ((core_setRax ..).trans (core_modTcb _ _ rfl))
  | foreground vt g => exact .of_eq ((core_setRax ..).trans (core_congr rfl rfl rfl rfl))
  | interrupt hi hdriver hvt =>
    refine (steps_consoleInterrupt fun h₀ hs i hi' hm => htargets rfl i ?_).to_core (core_setRax ..)
    unfold infoTargets
    simp only [hs, if_true, hi, hvt]
    rw [if_pos ⟨hdriver, h₀⟩]
    exact List.mem_filter.mpr ⟨hi', decide_eq_true hm⟩
  | complete => exact (steps_execreqComplete hp.creates ..).to_core (core_setRax ..)
  | rendezvous hr => exact steps_rendezvous hme hp hcall hr

end Robu.Kernel
