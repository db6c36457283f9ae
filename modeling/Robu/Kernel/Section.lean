import Robu.Core.Step
import Robu.Kernel.Trap

/-!
# What a kernel section is about to do

Four things can go wrong in a kernel section.  Each of them can be told from the state
before the section and its label:

* it signals, notifies or destroys a thread parked on a send queue (`targets`);
* its receive takes a sender that is running (`takenSender`);
* its receive takes a sender that wants to receive and has a matching sender on its
  own queue (`takenSender` again);
* it hands the CPU to a thread that waits for a message (`handsOver`).

`Kernel.scope` collects them as the scope of the section.
-/

namespace Robu.Kernel

/-! ## Hazards of a system call -/

section Call

variable (k : Kernel) (env : Env) (cur : Slot)

def receives : Prop :=
  let f := (k.tcb cur).uctx
  decode f = .rendezvous ∧
    (f.destTid = 0 ∨ f.wantRecv = true ∧ ∃ dest ∈ k.schedGetTcb f.destTid, dest ≠ cur ∧
      (k.resumesFault cur dest ∨ k.accepts dest cur.tid))
deriving Decidable

def callTakes : Option Slot :=
  if k.receives cur then
    match k.sendqScan cur (k.tcb cur).uctx.srcFilter with
    | some (some (_, s)) => some s
    | _ => none
  else none

def notifWaiter (idx : Nat) : Option Slot :=
  if (k.notifTable idx).waiter = 0 then none else k.schedGetTcb (k.notifTable idx).waiter

def isSignal (signum : Int) : Prop := 1 ≤ signum ∧ signum < 64
deriving Decidable

def infoTargets : List Slot :=
  let f := (k.tcb cur).uctx
  if isSignal (asInt f.r10) then
    match decodeInfo f.r8.toNat with
    | .kill => (k.schedGetTcb (f.r9.setWidth 32)).toList
    | .consoleSignalFg =>
      match asVt f.r9 with
      | none => []
      | some vt =>
        if cur.tid = k.consoleDriverTid ∧ k.consoleFgPgid vt ≠ 0 then
          tableSlots.filter fun t : Slot => (k.tcb t).pgid = k.consoleFgPgid vt
        else []
    | _ => []
  else []

def callTargets : List Slot :=
  let f := (k.tcb cur).uctx
  let slot : BitVec 32 := f.r8.setWidth 32
  match decode f with
  | .destroy =>
    ((k.validate cur.tid slot .tcb).bind fun cap => k.schedGetTcb (cap.addr.setWidth 32)).toList
  | .notifySignal =>
    ((k.validate cur.tid slot .notification).bind fun cap => k.notifWaiter cap.addr.toNat).toList
  | .sysInfo => k.infoTargets cur
  | _ => []

/-- The call hands the CPU to the receiver of a message, or to the file server. -/
def callHandsOver : Prop :=
  let f := (k.tcb cur).uctx
  match decode f with
  | .rendezvous =>
    ∃ dest ∈ k.schedGetTcb f.destTid, dest ≠ cur ∧ k.accepts dest cur.tid ∧
      if f.wantRecv then k.sendqScan cur f.srcFilter = some none
      else (k.tcb cur).prio ≤ (k.tcb dest).prio
  | .spawn | .exec =>
    (k.spawnRequest env cur).isSome ∧ env.inRootfs = false ∧ k.allocSlot.isSome ∧
      ∃ ext2fs ∈ k.ext2fsTcb, k.ext2fsWaits ext2fs
  | _ => False

instance : Decidable (k.callHandsOver env cur) := by
  unfold callHandsOver
  dsimp only
  split <;> infer_instance

end Call

/-! ## Hazards of a section -/

variable (k : Kernel)

def caller (c : Cpu) (e : Entry) : Option Slot :=
  if e.frame.vector.toNat = 0x30 then k.current c else none

def takenSender : Label → Option Slot
  | .trap c e => (k.caller c e).bind (k.enter c e).callTakes
  | _ => none

/-- The tick at the end of the time slice a timer interrupt on CPU `c` ends. -/
def tickTime (c : Cpu) : Word := k.nowTicks + if k.armedTicks c < 1 then 1 else k.armedTicks c

def tickTargets (c : Cpu) : List Slot :=
  if c = 0 ∧ k.nextDeadline ≤ k.tickTime c then
    (List.range k.timerCount).filterMap fun i =>
      let t := k.timerTable i
      if t.inUse ∧ t.armed ∧ t.deadlineTick ≤ k.tickTime c then k.notifWaiter t.notifIdx.toNat
      else none
  else []

def targets : Label → List Slot
  | .trap c e =>
    if e.frame.vector.toNat = 32 ∧ e.irqHandled = false then (k.enter c e).tickTargets c
    else
      match k.caller c e with
      | none => []
      | some cur => (k.enter c e).callTargets cur
  | _ => []

def handsOver : Label → Prop
  | .trap c e =>
    let k₁ := k.enter c e
    (∃ cur ∈ k.caller c e, k₁.callHandsOver e.env cur) ∨ e.frame.vector.toNat = 14 ∧
      ∃ cur ∈ k.current c,
        ∃ pager ∈ k₁.schedGetTcb (k₁.tcb cur).pagerTid, k₁.accepts pager cur.tid
  | _ => False

instance (l : Label) : Decidable (k.handsOver l) := by
  unfold handsOver
  split <;> infer_instance

def hitsParked (l : Label) : Prop := ∃ t ∈ k.targets l, (k.tcb t).state = .waitSend
deriving Decidable

def takesRunning (l : Label) : Prop := ∃ s ∈ k.takenSender l, (k.tcb s).state = .running
deriving Decidable

/-- The section completes the send of a thread that goes on to receive, and whose own send
queue holds a sender it would accept. -/
def missesSender (l : Label) : Prop :=
  ∃ s ∈ k.takenSender l, (k.tcb s).ipcRecvAfter ≠ noRecvAfter ∧
    k.sendqScan s (k.tcb s).ipcRecvAfter ≠ some none
deriving Decidable

def scope (l : Label) : Scope where
  hitsParked := k.hitsParked l
  takesRunning := k.takesRunning l
  missesSender := k.missesSender l
  handsOver := k.handsOver l
  schedules := True
  unused i := (k.tcb i).state = .dead

end Robu.Kernel
