import Robu.Kernel.Refine

/-!
# Kernel sections refine the core

Traps, the sections of kernel threads and the start of a CPU as sequences of steps of the
core.  A trap section starts in the state `begun`: the CPU holds the context that the
interrupted thread left in it, or the FS base that the thread asks for.
-/

namespace Robu

open Function (update update_eq_self update_self)

namespace Kernel

variable {F : Scope} {c : Cpu} {env : Env} {k k' k₁ k₂ : Kernel} {me t : Slot} {e : Entry}

/-! ## Page faults -/

theorem steps_abandonFault (hme : k.Runs c me) (h : k.abandonFault c me = some k') :
    k.Steps F c k' := by
  unfold abandonFault at h
  split at h
  · obtain rfl := Option.some.inj h
    exact steps_schedTerminateTo hme (.inl rfl)
  · cases h

theorem core_faultQueuePush {msg : FaultMsg} (h : k.faultQueuePush msg = some k') :
    k'.core = k.core := by
  unfold faultQueuePush at h
  split at h
  · cases h
  · cases h
    exact core_congr rfl rfl rfl rfl

/-- A page fault ends the thread, or blocks it and is queued or handed to the pager. -/
theorem steps_vmHandlePageFault (hme : k.Runs c me) {addr : Word} {error : BitVec 32}
    (hands : ∀ p ∈ k.schedGetTcb (k.tcb me).pagerTid, k.accepts p me.tid → F.handsOver)
    (h : k.vmHandlePageFault c me addr error = some k') : k.Steps F c k' := by
  unfold vmHandlePageFault at h
  split at h
  · exact steps_abandonFault hme h
  split at h
  · exact steps_abandonFault hme h
  rename_i pager hpager
  dsimp only at h
  have hcore : (k.schedBlock me .waitPagefault).core = k.core.setState me .waitPagefault :=
    core_setState ..
  have hblock : k.Steps F c (k.schedBlock me .waitPagefault) :=
    steps_setState hme (by decide) (by decide)
  generalize k.schedBlock me .waitPagefault = k₁ at hcore hblock h
  split at h
  · rename_i hacc
    cases h
    have hst : k₁.core.state pager = .waitRecv := hacc.1
    have hpt : k₁.core.partner = k.core.partner := by rw [hcore]; rfl
    have hne : pager ≠ me := by
      rintro rfl
      rw [hcore, Core.setState_self] at hst
      cases hst
    have hbefore : k.accepts pager me.tid := by
      refine ⟨?_, ?_⟩
      · show k.core.state pager = .waitRecv
        rw [← hst, hcore, Core.setState_of_ne _ hne]
      · have := hacc.2
        rwa [show (k₁.tcb pager).ipcPartner = (k.tcb pager).ipcPartner from
          congrFun hpt pager] at this
    have hframe : ∀ {k₂ : Kernel} {left : Int}, k₂.core = k₁.core →
        (k₂.modTcb pager fun x => { x with timesliceLeft := left }).core = k₁.core := fun h₂ =>
      (core_modTcb _ _ rfl).trans h₂
    refine hblock.trans (Steps.of_core (hframe (core_modUctx ..)) (steps_schedDirectSwitch ?_
      (hands pager hpager hbefore)))
    rw [hframe (core_modUctx ..)]
    exact hst
  · exact hblock.to_core (core_faultQueuePush h)

/-! ## Timer ticks -/

theorem core_schedTickLocal (k : Kernel) (c : Cpu) (n : Word) :
    (k.schedTickLocal c n).core = k.core := by
  unfold schedTickLocal
  split
  · rfl
  rename_i cur _
  have hcore : (k.modTcb cur fun x =>
      { x with timesliceLeft := x.timesliceLeft - (n.setWidth 32).toInt }).core = k.core :=
    k.core_modTcb cur rfl
  dsimp only
  split
  · exact (core_requestResched ..).trans hcore
  · exact hcore

structure Ticked (F : Scope) (c : Cpu) (k k' : Kernel) : Prop where
  steps : k.Steps F c k'
  woke : k.Woke k'
  timers : k'.timerTable = k.timerTable ∧ k'.timerCount = k.timerCount
  notifs : k'.notifTable = k.notifTable
  now : k'.nowTicks = k.nowTicks

/-- **Step.**  A sleeper whose time has come is woken. -/
theorem Ticked.wakeSleeper (h : k.Ticked F c k') (t : Slot) :
    k.Ticked F c (wakeSleeper c k' t) := by
  unfold Kernel.wakeSleeper
  split
  · exact h
  rename_i hs
  have hs : k'.core.state t = .sleeping := not_not.mp hs
  split
  · obtain ⟨tcb, inbox, flags, heq⟩ := k'.schedWake_eq c t
    have hsteps := h.steps.trans (steps_schedWake_of .sleeping hs (by decide))
    have hwoke := h.woke.trans (.of_wake (k'.core_schedWake c t))
    rw [heq] at hsteps hwoke ⊢
    exact ⟨hsteps, hwoke, h.timers, h.notifs, h.now⟩
  · obtain ⟨d, heq, -⟩ := k'.schedNoteDeadline_eq (k'.tcb t).wakeAtTick
    have hcore : { k' with nextDeadline := d }.core = k'.core := rfl
    rw [heq]
    exact ⟨h.steps.to_core hcore, h.woke.trans (.of_core hcore), h.timers, h.notifs, h.now⟩

/-- **Run.**  The scan of the sleepers. -/
theorem ticked_sleepers (k : Kernel) (F : Scope) (c : Cpu) : k.Ticked F c
    (tableSlots.foldl (wakeSleeper c) { k with nextDeadline := BitVec.allOnes 64 }) := by
  have hreset : ({ k with nextDeadline := BitVec.allOnes 64 } : Kernel).core = k.core :=
    core_congr rfl rfl rfl rfl
  refine List.foldlRecOn _ _ (motive := fun k' : Kernel => k.Ticked F c k') ?_ ?_
  · exact ⟨.of_eq hreset, .of_core hreset, ⟨rfl, rfl⟩, rfl, rfl⟩
  · intro k' hk' t _
    exact hk'.wakeSleeper t

/-- **Run.**  The scan of sleepers and timers. -/
theorem steps_tickDeadlines
    (hsafe : ¬ k.nowTicks < k.nextDeadline → k.TimersSafe F k.nowTicks (List.range k.timerCount))
    (h : k.tickDeadlines c = some k') : k.Steps F c k' := by
  unfold tickDeadlines at h
  split at h
  · cases h
    exact .of_eq rfl
  rename_i hdue
  dsimp only at h
  have hscan := k.ticked_sleepers F c
  generalize tableSlots.foldl (wakeSleeper c)
    ({ k with nextDeadline := BitVec.allOnes 64 } : Kernel) = k₂ at hscan h
  split at h
  · cases h
  rename_i k₃ nextTimer hrescan
  cases h
  refine Steps.to_core (hscan.steps.trans ?_) (core_schedNoteDeadline ..)
  unfold capTimerRescan at hrescan
  refine steps_timerLoop List.nodup_range ?_ hrescan
  rw [hscan.timers.2, hscan.now]
  refine (hsafe hdue).mono (fun i _ => congrFun hscan.timers.1 i) (fun j w hw => ?_) hscan.woke
  unfold notifWaiter at hw ⊢
  rwa [hscan.notifs, hscan.woke.lookup] at hw

theorem mem_tickTargets {i : Nat} {w : Slot} (hdue : ¬ k.tickTime 0 < k.nextDeadline)
    (hi : i ∈ List.range k.timerCount) (huse : (k.timerTable i).inUse = true)
    (harmed : (k.timerTable i).armed = true) (hd : ¬ k.tickTime 0 < (k.timerTable i).deadlineTick)
    (hw : w ∈ k.notifWaiter (k.timerTable i).notifIdx.toNat) : w ∈ k.tickTargets 0 := by
  unfold tickTargets
  rw [if_pos ⟨rfl, BitVec.not_lt.mp hdue⟩, List.mem_filterMap]
  refine ⟨i, hi, ?_⟩
  dsimp only
  rwa [if_pos ⟨huse, harmed, BitVec.not_lt.mp hd⟩]

theorem steps_schedTick (hit : ∀ t ∈ k.tickTargets c, k.core.state t = .waitSend → F.hitsParked)
    (h : k.schedTick c = some k') : k.Steps F c k' := by
  unfold schedTick at h
  dsimp only at h
  split at h
  · cases h
  rename_i k₁ hticked
  cases h
  refine Steps.to_core ?_ ((core_schedArmNextDeadline ..).trans (core_schedTickLocal ..))
  split at hticked
  · rename_i hc
    subst hc
    have hcore : ({ k with nowTicks := k.tickTime 0 } : Kernel).core = k.core :=
      core_congr rfl rfl rfl rfl
    exact Steps.of_core hcore (steps_tickDeadlines (fun hdue i hi huse harmed hd w hw =>
      hit w (mem_tickTargets hdue hi huse harmed hd hw)) hticked)
  · cases hticked
    exact .of_eq rfl

/-! ## Returning to a thread -/

/-- The thread current on the CPU, if it is not the idle thread, is running. -/
def CurRuns (k : Kernel) (c : Cpu) : Prop :=
  ∀ t, k.core.current c = some t → k.core.state t = .running

theorem core_reschedule (h : k.reschedule c (k.cur c) = some k') :
    ∃ next, (∀ t ∈ next, k.core.requeued c t = .ready) ∧ k'.core = k.core.resched c next := by
  unfold reschedule at h
  split at h
  · cases h
  rename_i k₁ hs
  cases h
  obtain ⟨next, hready, hcore⟩ := core_schedule hs
  refine ⟨next, hready, ?_⟩
  rw [core_schedSwitchTo, core_schedArmNextDeadline, hcore]
  rfl

theorem steps_reschedule (hF : F.schedules) (hs : k.core.started c = true)
    (h : k.reschedule c (k.cur c) = some k') :
    k.Steps F c k' ∧ k'.CurRuns c ∧ k'.core.started = k.core.started := by
  obtain ⟨next, hready, hcore⟩ := core_reschedule h
  obtain ⟨hcur, hrun, hstarted⟩ := k.core.resched_spec c next
  rw [← hcore] at hcur hrun hstarted
  refine ⟨?_, fun t ht => hrun t (hcur.symm.trans ht), hstarted⟩
  rw [Steps, hcore]
  exact (Core.Step.resched hF hs hready).steps

/-- The signal loop: each turn delivers to the current thread, and if that ends it picks
the next one. -/
theorem steps_deliverLoop {fuel : Nat} (hF : F.schedules) (hs : k.core.started c = true)
    (hr : k.CurRuns c) (h : deliverLoop c fuel k = some k') : k.Steps F c k' ∧ k'.CurRuns c := by
  induction fuel generalizing k with
  | zero => cases h
  | succ fuel ih =>
    unfold deliverLoop at h
    split at h
    · cases h
      exact ⟨.of_eq rfl, hr⟩
    rename_i next hnext
    split at h
    · dsimp only at h
      have hstill : k.Steps F.still c (k.sigTryDeliver c next) :=
        steps_sigTryDeliver ⟨hnext, hr next hnext⟩
      obtain ⟨hcur, hstarted⟩ := Core.Steps.still_frame hstill
      have hsteps : k.Steps F c (k.sigTryDeliver c next) := Core.Steps.of_still hstill
      generalize k.sigTryDeliver c next = k₁ at hcur hstarted hsteps h
      have hnext₁ : k₁.core.current c = some next := (congrFun hcur c).trans hnext
      split at h
      · rename_i hrun
        cases h
        refine ⟨hsteps, fun t ht => ?_⟩
        obtain rfl : next = t := Option.some.inj (hnext₁.symm.trans ht)
        exact hrun
      · split at h
        · cases h
        rename_i k₂ hre
        have hprev : k₁.cur c = .thread next := by
          unfold cur
          rw [show k₁.current c = some next from hnext₁]
        rw [← hprev] at hre
        obtain ⟨hs₂, hr₂, hst₂⟩ := steps_reschedule hF ((congrFun hstarted c).trans hs) hre
        obtain ⟨hs₃, hr₃⟩ := ih ((congrFun (hst₂.trans hstarted) c).trans hs) hr₂ h
        exact ⟨hsteps.trans (hs₂.trans hs₃), hr₃⟩
    · cases h
      exact ⟨.of_eq rfl, hr⟩

/-- **Resume.**  On return to user mode the current thread is running. -/
theorem steps_schedResume (hF : F.schedules) (hs : k.core.started c = true)
    (h : k.schedResume c = some k') : k.Steps F c k' ∧ k'.CurRuns c := by
  unfold schedResume at h
  dsimp only at h
  split at h
  · cases h
  rename_i k₁ hres
  split at hres
  · obtain ⟨hs₁, hr₁, hst₁⟩ := steps_reschedule hF hs hres
    obtain ⟨hs₂, hr₂⟩ := steps_deliverLoop hF ((congrFun hst₁ c).trans hs) hr₁ h
    exact ⟨hs₁.trans hs₂, hr₂⟩
  · rename_i hno
    rw [not_or, not_not] at hno
    cases hres
    refine steps_deliverLoop hF hs (fun t ht => ?_) h
    have hcur : k.cur c = .thread t := by
      unfold cur
      rw [show k.current c = some t from ht]
    have := hno.2
    rwa [hcur] at this

/-! ## Traps -/

def setsFs (e : Entry) : Prop :=
  e.frame.vector.toNat = 0x30 ∧ decode e.frame = .setFsbase
deriving Decidable

def begun (k : Kernel) (c : Cpu) (e : Entry) : Kernel :=
  match k.current c with
  | none => k.enter c e
  | some cur => if setsFs e then (k.enter c e).callSetFsbase c cur else k.enter c e

theorem begun_eq_enter (h : ¬ setsFs e) : k.begun c e = k.enter c e := by
  unfold begun
  split
  · rfl
  · rw [if_neg h]

theorem core_enter (k : Kernel) (c : Cpu) (e : Entry) :
    (k.enter c e).core = { k.core with hw := update k.hw c e.ctx } := by
  unfold enter
  dsimp only
  rw [core_modUctx]
  rfl

/-- The frame the trap stub pushed is the frame of the interrupted thread. -/
theorem enter_uctx (h : k.current c = some me) : ((k.enter c e).tcb me).uctx = e.frame := by
  have hcur : ({ k with hw := update k.hw c e.ctx } : Kernel).cur c = .thread me := by
    unfold cur
    rw [show ({ k with hw := update k.hw c e.ctx } : Kernel).current c = some me from h]
  unfold enter
  dsimp only
  rw [hcur, modUctx, modTcb_tcb_self]

theorem core_callSetFsbase (k : Kernel) (c : Cpu) (me : Slot) : (k.callSetFsbase c me).core =
      { k.core with
        ctx := update k.core.ctx me ⟨(k.core.ctx me).fpu, (k.tcb me).uctx.r8⟩
        hw := update k.hw c { k.hw c with fs := (k.tcb me).uctx.r8 } } := by
  unfold callSetFsbase
  dsimp only
  rw [core_setRax]
  have hcore := k.core_modTcb_thread me fun x => { x with fsBase := (k.tcb me).uctx.r8 }
  generalize (k.modTcb me fun x => { x with fsBase := (k.tcb me).uctx.r8 }) = k₁ at hcore ⊢
  have hhw : k₁.hw = k.hw := congrArg Core.hw hcore
  show ({ k₁.core with hw := _ } : Core) = _
  rw [hcore, hhw]
  exact Core.ext (update_eq_self me k.core.state) (update_eq_self me k.core.partner)
    (update_eq_self me k.core.recvAfter)
    (Lib.Queues.ext (update_eq_self me k.core.sq.next)
      (update_eq_self me k.core.sq.head) (update_eq_self me k.core.sq.tail))
    rfl rfl rfl rfl

/-- Nothing but contexts differs between the state before a trap section and its start. -/
theorem begun_frame (k : Kernel) (c : Cpu) (e : Entry) :
    (k.begun c e).core = { k.core with
        ctx := (k.begun c e).core.ctx
        hw := (k.begun c e).core.hw } := by
  unfold begun
  split
  · rw [core_enter]
  split
  · rw [core_callSetFsbase, core_enter]
  · rw [core_enter]

/-- **Traps.**  Every handler is a sequence of steps of the core. -/
theorem steps_trapHandler (hr : k.CurRuns c) (h : (k.enter c e).trapHandler c e = some k') :
    (k.begun c e).Steps (k.scope (.trap c e)) c k' := by
  have hcore := k.core_enter c e
  have hstate : (k.enter c e).core.state = k.core.state := by rw [hcore]
  have hcurrent : (k.enter c e).current = k.current := congrArg Core.current hcore
  have hsearch : ∀ r f, (k.enter c e).core.search r f = k.core.search r f := fun r f => by
    rw [hcore]; rfl
  have hra : (k.enter c e).core.recvAfter = k.core.recvAfter := by rw [hcore]
  have hnot : e.frame.vector.toNat ≠ 0x30 → ¬ setsFs e := fun hv hs => hv hs.1
  unfold trapHandler at h
  dsimp only at h
  split at h
  · rename_i hirq
    cases h
    rw [begun_eq_enter (hnot (by omega))]
    exact .of_eq rfl
  · rename_i hirq
    split at h
    · rename_i hv
      rw [begun_eq_enter (hnot (by omega))]
      refine steps_schedTick (fun t ht hst => ⟨t, ?_, by rw [hstate] at hst; exact hst⟩) h
      simp only [targets]
      rw [if_pos ⟨hv, by simpa [hv] using hirq⟩]
      exact ht
    · rename_i hv32
      split at h
      · rename_i hv
        cases h
        rw [begun_eq_enter (hnot (by omega))]
        exact .of_eq rfl
      · rename_i hv31
        rw [hcurrent] at h
        split at h
        · cases h
        rename_i me hme
        have hruns : (k.enter c e).Runs c me := ⟨by rw [hcore]; exact hme, by
          rw [hstate]; exact hr me hme⟩
        split at h
        · rename_i hv
          have huctx := enter_uctx (e := e) hme
          have hcaller : k.caller c e = some me := by
            unfold caller
            rw [if_pos hv, hme]
          by_cases hfs : decode e.frame = .setFsbase
          · -- setting the FS base is how the section starts
            have hb : k.begun c e = (k.enter c e).callSetFsbase c me := by
              unfold begun
              rw [hme]
              exact if_pos ⟨hv, hfs⟩
            unfold sysIpc at h
            rw [huctx] at h
            simp only [hfs] at h
            cases h
            rw [hb]
            exact .of_eq rfl
          · rw [begun_eq_enter fun hs => hfs hs.2]
            have htaken : k.takenSender (.trap c e) = (k.enter c e).callTakes me := by
              simp only [takenSender, hcaller, Option.bind_some]
            refine steps_sysIpc hruns ⟨fun t ht hst => ⟨t, ?_, ?_⟩, fun x hx hst => ⟨x, ?_, ?_⟩,
              fun x hx h₁ h₂ => ⟨x, ?_, ?_, ?_⟩, fun hh => .inl ⟨me, hcaller, hh⟩,
              fun i hi => ⟨?_, fun hc => ?_⟩⟩ (by rw [huctx]; exact hfs) h
            · simp only [targets]
              rw [if_neg (by omega), hcaller]
              exact ht
            · rw [hstate] at hst; exact hst
            · rw [htaken]; exact hx
            · rw [hstate] at hst; exact hst
            · rw [htaken]; exact hx
            · rw [hra] at h₁; exact h₁
            · rw [hra, hsearch] at h₂; exact h₂
            · rw [hstate] at hi; exact hi
            · rw [hcore] at hc
              rw [hstate, hr i hc] at hi
              cases hi
        · rename_i hv
          rw [begun_eq_enter (hnot hv)]
          split at h
          · rename_i hv14
            exact steps_vmHandlePageFault hruns (fun p hp ha => .inr ⟨hv14, me, hme, p, hp, ha⟩) h
          · exact steps_abandonFault hruns h

theorem steps_trapDispatch (hs : k.started c = true) (hr : k.CurRuns c)
    (h : k.trapDispatch c e = some k') : (k.begun c e).Steps (k.scope (.trap c e)) c k' ∧
      k'.CurRuns c := by
  unfold trapDispatch at h
  dsimp only at h
  split at h
  · cases h
  split at h
  · rename_i hv
    cases h
    have hnot : ¬ setsFs e := fun hs => by have := hs.1; omega
    refine ⟨by rw [begun_eq_enter hnot]; exact .of_eq rfl, fun t ht => ?_⟩
    rw [core_enter] at ht ⊢
    exact hr t ht
  · split at h
    · cases h
    rename_i k₁ hh
    have hs₁ := steps_trapHandler hr hh
    have hstart : (k.begun c e).core.started c = true := by
      rw [begun_frame]
      exact hs
    have hF : (k.scope (.trap c e)).schedules := trivial
    obtain ⟨hs₂, hr₂⟩ := steps_schedResume hF (Core.Steps.started hs₁ hstart) h
    exact ⟨hs₁.trans hs₂, hr₂⟩

/-! ## Kernel sections -/

/-- What a section of kernel code shows of itself: it creates a thread, wakes the file server, or
nothing. -/
def Core.KernMove (s s' : Core) : Prop :=
  s' = s ∨ (∃ i ctx, s.state i = .dead ∧ s' = s.create i ctx) ∨ ∃ t, s.state t = .waitRecv ∧
    s' = s.wake t

theorem core_runKernOp (k : Kernel) (c : Cpu) (op : KernOp) :
    Core.KernMove k.core (k.runKernOp c op).core := by
  cases op with
  | threadCreate | threadCreateUser | threadCreateUserArgv =>
    refine map_getD_of (P := fun k' => Core.KernMove k.core k'.core) (.inl rfl) fun r hr => ?_
    obtain ⟨hdead, ctx, hcore⟩ := core_createThread hr fun _ => ⟨rfl, rfl, rfl, rfl, rfl⟩
    exact .inr (.inl ⟨r.1, ctx, hdead, hcore⟩)
  | submitPoll params =>
    exact getD_of (P := fun k' => Core.KernMove k.core k'.core) (.inl rfl) fun k' hr =>
      (core_execreqSubmitPoll hr).imp_right .inr
  | finishPoll slot generation =>
    simp only [runKernOp, execreqFinishPollSpawn]
    split
    · exact .inl rfl
    · exact .inl (core_freeSlot ..)
  | kcapGrant owner kind addr size =>
    exact getD_of (P := fun k' => Core.KernMove k.core k'.core) (.inl rfl) fun k' hr =>
      .inl (core_gives (.inr (kcapGrant_eq hr)))
  | capRetype env caller untypedSlot kind asSlot entry stack frameSlot =>
    exact (k.core_capRetype env caller untypedSlot kind asSlot entry stack frameSlot).imp_right .inl
  | vmCapGrant =>
    simp only [runKernOp]
    split
    · exact .inl rfl
    · exact .inl (core_congr rfl rfl rfl rfl)
  | yield | grantConsoleWriter | grantConsoleDriver | grantPagerOwner | grantHwDriver
  | grantHwDriverSecondary | grantHwPortIoSecondary | grantPciCfgSecondary | setExt2fsTid =>
    exact .inl (core_congr rfl rfl rfl rfl)

theorem steps_runKernOp (hr : k.CurRuns c) (op : KernOp) :
    k.Steps (k.scope (.kern c op)) c (k.runKernOp c op) ∧ (k.runKernOp c op).CurRuns c := by
  rcases k.core_runKernOp c op with h | ⟨i, ctx, hdead, h⟩ | ⟨t, ht, h⟩
  · refine ⟨.of_eq h, ?_⟩
    rw [CurRuns, h]
    exact hr
  · have hne : k.core.current c ≠ some i := by
      intro hc
      rw [hr i hc] at hdead
      cases hdead
    rw [Steps, CurRuns, h]
    refine ⟨(Core.Step.create hdead hne hdead).steps, fun t ht => ?_⟩
    have hti : t ≠ i := fun heq => hne (heq ▸ ht)
    exact (Core.setState_of_ne _ hti _).trans (hr t ht)
  · rw [Steps, CurRuns, h]
    refine ⟨Core.Steps.wake fun hp => absurd (ht.symm.trans hp) (by decide), fun u hu => ?_⟩
    have hruns : k.core.Runs c u := by
      rw [Core.wake_eq] at hu
      exact ⟨hu, hr u hu⟩
    exact (hruns.wake t).2

theorem steps_schedStart (hF : F.schedules) (hs : k.started c = false)
    (h : k.schedStart c = some k') : k.Steps F c k' ∧ k'.CurRuns c := by
  unfold schedStart at h
  split at h
  · cases h
  rename_i k₁ hsched
  cases h
  obtain ⟨next, hready, hcore⟩ := core_schedule hsched
  have hbegin : (({ k₁ with
      hw := update k₁.hw c (k₁.savedCtx (k₁.cur c))
      started := update k₁.started c true } : Kernel).schedArmNextDeadline c).core =
      k.core.begin c next := by
    rw [core_schedArmNextDeadline, Core.begin, ← hcore]
    rfl
  rw [Steps, CurRuns, hbegin]
  refine ⟨(Core.Step.begin hF hs hready).steps, fun t ht => ?_⟩
  have hnext : (k.core.begin c next).current c = next := update_self ..
  obtain rfl : next = some t := hnext.symm.trans ht
  exact update_self t ThreadState.running (k.core.requeued c)

end Kernel

def Label.cpu : Label → Cpu
  | .kern c _ => c
  | .start c => c
  | .trap c _ => c

namespace Kernel

variable {k k' : Kernel} {l : Label}

def opened (k : Kernel) : Label → Kernel
  | .trap c e => k.begun c e
  | _ => k

theorem opened_frame (k : Kernel) (l : Label) :
    (k.opened l).core =
      { k.core with ctx := (k.opened l).core.ctx, hw := (k.opened l).core.hw } := by
  cases l with
  | trap c e => exact k.begun_frame c e
  | kern | start => rfl

/-- **Refinement.**  Every kernel section is a sequence of steps of the core on its CPU, in
the scope of the section, and it leaves a running thread current. -/
theorem refines (hr : ∀ c, k.CurRuns c) (h : k.step l = some k') :
    (k.opened l).Steps (k.scope l) l.cpu k' ∧ k'.CurRuns l.cpu := by
  cases l with
  | kern c op =>
    cases h
    exact steps_runKernOp (hr c) op
  | start c =>
    simp only [step] at h
    split at h
    · cases h
    rename_i hs
    have hF : (k.scope (.start c)).schedules := trivial
    have hs : k.started c = false := by simpa using hs
    exact steps_schedStart hF hs h
  | trap c e =>
    simp only [step] at h
    split at h
    · rename_i hs
      exact steps_trapDispatch hs (hr c) h
    · cases h

end Kernel

end Robu
