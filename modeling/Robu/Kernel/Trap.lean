import Robu.Kernel.Ipc
import Robu.Lib.Run

/-!
# Traps and the transition system

`trap_dispatch` and what it reaches: page faults, timer ticks, `sched_resume` with
signal delivery.  Together with the sections that kernel code runs on its own (boot,
kernel threads) it makes the kernel a partial transition function `step` on
`Kernel`: a `Label` is one kernel section, executed under the kernel lock, with
everything the outside contributes to it.  `none` is a section that never returns to
a thread: the kernel halted, rebooted, crashed or hangs.
-/

namespace Robu

namespace Kernel

/-! ## Page faults -/

/-- A fault that no pager takes ends a thread with an address space and halts the
kernel otherwise. -/
def abandonFault (k : Kernel) (c : Cpu) (cur : Slot) : Option Kernel :=
  if (k.tcb cur).addressSpace ≠ 0 then some (k.schedTerminateTo c cur .dead) else none

def vmHandlePageFault (k : Kernel) (c : Cpu) (cur : Slot) (faultAddr : Word)
    (errorCode : BitVec 32) : Option Kernel :=
  if (k.tcb cur).pagerTid = 0 then k.abandonFault c cur
  else
    match k.schedGetTcb (k.tcb cur).pagerTid with
    | none => k.abandonFault c cur
    | some pager =>
      let fault : FaultMsg := ⟨faultAddr, errorCode, cur.tid⟩
      let k₁ := k.schedBlock cur .waitPagefault
      if k₁.accepts pager cur.tid then
        let k₂ := k₁.modUctx pager fun f => faultRegs f fault
        let k₃ := k₂.modTcb pager fun x =>
          { x with timesliceLeft := (k₂.tcb cur).timesliceLeft }
        some (k₃.schedDirectSwitch c pager)
      else k₁.faultQueuePush fault

/-! ## The timer -/

def schedTickLocal (k : Kernel) (c : Cpu) (n : Word) : Kernel :=
  match k.current c with
  | none => k
  | some cur =>
    let k₁ := k.modTcb cur fun x =>
      { x with timesliceLeft := x.timesliceLeft - (n.setWidth 32).toInt }
    if (k₁.tcb cur).timesliceLeft ≤ 0 then k₁.requestResched c else k₁

/-- One turn of the loop of `sched_tick` over the sleepers. -/
def wakeSleeper (c : Cpu) (k : Kernel) (t : Slot) : Kernel :=
  if (k.tcb t).state ≠ .sleeping then k
  else if (k.tcb t).wakeAtTick ≤ k.nowTicks then k.schedWake c t
  else k.schedNoteDeadline (k.tcb t).wakeAtTick

/-- The scan of sleepers and timers in `sched_tick`. -/
def tickDeadlines (k : Kernel) (c : Cpu) : Option Kernel :=
  if k.nowTicks < k.nextDeadline then some k
  else
    let k₁ := { k with nextDeadline := BitVec.allOnes 64 }
    let k₂ := tableSlots.foldl (wakeSleeper c) k₁
    match k₂.capTimerRescan c k₂.nowTicks with
    | none => none
    | some (k₃, nextTimer) => some (k₃.schedNoteDeadline nextTimer)

def schedTick (k : Kernel) (c : Cpu) : Option Kernel :=
  let n : Word := if k.armedTicks c < 1 then 1 else k.armedTicks c
  let ticked := if c = 0 then ({ k with nowTicks := k.nowTicks + n } : Kernel).tickDeadlines c
    else some k
  match ticked with
  | none => none
  | some k₁ => some ((k₁.schedTickLocal c n).schedArmNextDeadline c)

/-! ## Returning to a thread -/

/-- `schedule` followed by `sched_arm_next_deadline` and the switch away from `prev`. -/
def reschedule (k : Kernel) (c : Cpu) (prev : TcbRef) : Option Kernel :=
  match k.schedule c with
  | none => none
  | some k₁ =>
    let k₂ := k₁.schedArmNextDeadline c
    some (k₂.schedSwitchTo c prev (k₂.cur c))

def signalDue (x : Tcb) : Prop :=
  x.addressSpace ≠ 0 ∧ ¬ x.inSigHandler ∧ x.sigPending &&& ~~~x.sigMask ≠ 0
deriving Decidable

/-- The signal loop of `sched_resume`.  It goes on only when the signal ended the thread,
so it runs at most once for each thread. -/
def deliverLoop (c : Cpu) : Nat → Kernel → Option Kernel
  | 0, _ => none
  | fuel + 1, k =>
    match k.current c with
    | none => some k
    | some next =>
      if signalDue (k.tcb next) then
        let k₁ := k.sigTryDeliver c next
        if (k₁.tcb next).state = .running then some k₁
        else
          match k₁.reschedule c next with
          | none => none
          | some k₂ => deliverLoop c fuel k₂
      else some k

def schedResume (k : Kernel) (c : Cpu) : Option Kernel :=
  let resumed := if k.needResched c ∨ (k.tcb (k.cur c)).state ≠ .running then
      k.reschedule c (k.cur c)
    else some k
  match resumed with
  | none => none
  | some k₁ => deliverLoop c 65 k₁

/-! ## Traps -/

structure Entry where
  /-- The register frame pushed by the trap stub. -/
  frame : Uctx
  /-- The FPU/SSE state and FS base the interrupted code left in the CPU. -/
  ctx : Ctx
  cr2 : Word := 0
  /-- A driver registered a handler for the interrupt. -/
  irqHandled : Bool := false
  env : Env := {}

/-- The handler selected by the vector, before `sched_resume`. -/
def trapHandler (k : Kernel) (c : Cpu) (e : Entry) : Option Kernel :=
  let vector := e.frame.vector.toNat
  if 32 ≤ vector ∧ vector < 48 ∧ e.irqHandled then some k
  else if vector = 32 then k.schedTick c
  else if vector = 0x31 then some (k.requestResched c)
  else
    match k.current c with
    -- the idle thread only halts the CPU: it makes no call, and a fault in it is fatal
    | none => none
    | some cur =>
      if vector = 0x30 then k.sysIpc c e.env cur
      else if vector = 14 then k.vmHandlePageFault c cur e.cr2 (e.frame.error.setWidth 32)
      else k.abandonFault c cur

/-- The state in which a trap is handled: the frame is copied to the control block of the
interrupted thread, and the CPU holds what that thread left in it. -/
def enter (k : Kernel) (c : Cpu) (e : Entry) : Kernel :=
  let k₁ := { k with hw := Function.update k.hw c e.ctx }
  k₁.modUctx (k₁.cur c) fun _ => e.frame

def trapDispatch (k : Kernel) (c : Cpu) (e : Entry) : Option Kernel :=
  let vector := e.frame.vector.toNat
  if vector = 0x32 then none
  else if vector = 0x33 then some (k.enter c e)
  else
    match (k.enter c e).trapHandler c e with
    | none => none
    | some k₁ => k₁.schedResume c

end Kernel

/-! ## The transition system -/

/-- The sections kernel code runs by itself: boot, and threads of the kernel. -/
inductive KernOp
  | threadCreate (entry stackTop : Word) (prio : Prio)
  | threadCreateUser (entry userStackTop : Word) (prio : Prio) (addressSpace : Word)
    (pagerTid : Tid)
  | threadCreateUserArgv (image : Kernel.Image) (prio : Prio) (pagerTid : Tid)
  | submitPoll (params : ExecreqParams)
  | finishPoll (slot : Fin 8) (generation : BitVec 16)
  | yield
  | kcapGrant (owner : Tid) (kind : CapKind) (addr size : Word)
  | capRetype (env : Env) (caller : Tid) (untypedSlot kind : BitVec 32)
    (asSlot entry stack frameSlot : Word)
  | vmCapGrant (owner : Tid) (base count : Word) (perms : BitVec 32)
  | grantConsoleWriter (tid : Tid)
  | grantConsoleDriver (tid : Tid)
  | grantPagerOwner (tid : Tid)
  | grantHwDriver (tid : Tid)
  | grantHwDriverSecondary (tid : Tid)
  | grantHwPortIoSecondary (tid : Tid)
  | grantPciCfgSecondary (tid : Tid)
  | setExt2fsTid (tid : Tid)

inductive Label
  /-- A section of kernel code outside a trap, on CPU `c`. -/
  | kern (c : Cpu) (op : KernOp)
  /-- `sched_start` or `sched_join_ap` on CPU `c`. -/
  | start (c : Cpu)
  /-- A trap on CPU `c`. -/
  | trap (c : Cpu) (e : Kernel.Entry)

namespace Kernel

def runKernOp (k : Kernel) (c : Cpu) : KernOp → Kernel
  | .threadCreate entry stackTop prio => ((k.threadCreate entry stackTop prio).map Prod.snd).getD k
  | .threadCreateUser entry userStackTop prio addressSpace pagerTid =>
    ((k.threadCreateUserLocked entry userStackTop prio addressSpace pagerTid).map Prod.snd).getD k
  | .threadCreateUserArgv image prio pagerTid =>
    ((k.threadCreateUserArgvLocked image prio pagerTid).map Prod.snd).getD k
  | .submitPoll params => (k.execreqSubmitPoll c params).getD k
  | .finishPoll slot generation => (k.execreqFinishPollSpawn slot generation).2
  | .yield => k.requestResched c
  | .kcapGrant owner kind addr size => (k.kcapGrant owner kind addr size).getD k
  | .capRetype env caller untypedSlot kind asSlot entry stack frameSlot =>
    (k.capRetype env caller untypedSlot kind asSlot entry stack frameSlot).2
  | .vmCapGrant owner base count perms =>
    if 64 ≤ k.frameCaps.length then k
    else { k with frameCaps := k.frameCaps ++ [⟨base, count, perms, owner⟩] }
  | .grantConsoleWriter tid => { k with consoleWriterTid := tid }
  | .grantConsoleDriver tid => { k with consoleDriverTid := tid }
  | .grantPagerOwner tid => { k with pagerOwnerTid := tid }
  | .grantHwDriver tid => { k with hwDriverTid := tid }
  | .grantHwDriverSecondary tid =>
    { k with hwDriverSecondaryTids := grantFirstFree k.hwDriverSecondaryTids tid }
  | .grantHwPortIoSecondary tid =>
    { k with hwPortIoSecondaryTids := grantFirstFree k.hwPortIoSecondaryTids tid }
  | .grantPciCfgSecondary tid => { k with pciCfgSecondaryTid := tid }
  | .setExt2fsTid tid => { k with ext2fsTid := tid }

/-- What holds of the state holds after an operation that may fail, if it holds when it does not. -/
theorem getD_of {P : Kernel → Prop} {k : Kernel} {o : Option Kernel} (hk : P k)
    (h : ∀ k', o = some k' → P k') : P (o.getD k) := by
  cases o with
  | none => exact hk
  | some k' => exact h k' rfl

theorem map_getD_of {P : Kernel → Prop} {k : Kernel} {o : Option (Slot × Kernel)} (hk : P k)
    (h : ∀ r, o = some r → P r.2) : P ((o.map Prod.snd).getD k) := by
  refine getD_of hk fun k' hk' => ?_
  obtain ⟨r, hr, rfl⟩ := Option.map_eq_some_iff.mp hk'
  exact h r hr

def step (k : Kernel) : Label → Option Kernel
  | .kern c op => some (k.runKernOp c op)
  | .start c => if k.started c then none else k.schedStart c
  | .trap c e => if k.started c then k.trapDispatch c e else none

end Kernel

/-- The states reached by runs all of whose sections satisfy `ok`. -/
abbrev Reachable (ok : Kernel → Label → Prop) : Kernel → Prop :=
  Lib.Reach Kernel.step ok Kernel.IsBoot

end Robu
