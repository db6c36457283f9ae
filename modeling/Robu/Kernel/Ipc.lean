import Robu.Kernel.Exit
import Robu.Lib.Links

/-!
# The system call

`sys_ipc`: one entry point that decodes its registers into a request to the kernel or
a rendezvous between threads.

`decode` follows the order in which the source tests the flag bits, and `decodeInfo`
its chain of `SYS_INFO` categories.  Categories that only talk to a subsystem outside
the model are grouped by the check the source makes before it calls that subsystem;
the subsystem's answer is then stored from `Env.reply`.

A call whose outcome is `none` does not come back: it reboots, halts, or follows a
cyclic send queue for ever.
-/

namespace Robu

open Function (update)

/-! ## Decoding -/

inductive Call
  | retype | destroy | consoleWrite | consoleRead | notifySignal | notifyWait | notifyPoll
  | timerArm | timerDisarm | revokeFrame | exit | spawn | wait | pipeCreate | pipeRead | pipeWrite
  | pipeClose | fork | selfTid | exec | mount | bootfs | resolveFault | setFsbase | threadInfo
  | sysInfo | yield | rendezvous
deriving DecidableEq

def callFlags : List (Nat × Call) :=
  [(5, .retype), (6, .destroy), (7, .consoleWrite), (17, .consoleRead), (8, .notifySignal),
    (9, .notifyWait), (10, .notifyPoll), (11, .timerArm), (12, .timerDisarm), (13, .revokeFrame),
    (14, .exit), (15, .spawn), (16, .wait), (18, .pipeCreate), (19, .pipeRead), (20, .pipeWrite),
    (21, .pipeClose), (24, .fork), (26, .selfTid), (27, .exec), (28, .mount), (29, .bootfs),
    (31, .resolveFault), (25, .setFsbase), (22, .threadInfo), (23, .sysInfo)]

/-- The low half of `rdi`: the destination of a message. -/
def Uctx.destTid (f : Uctx) : Tid := f.rdi.setWidth 32

/-- The low half of `rsi`: the sender a receive accepts. -/
def Uctx.srcFilter (f : Uctx) : Tid := f.rsi.setWidth 32

def Uctx.flags (f : Uctx) : BitVec 32 := f.rdx.setWidth 32

def Uctx.wantRecv (f : Uctx) : Bool := f.flags.getLsbD 1

def Uctx.noblock (f : Uctx) : Bool := f.flags.getLsbD 4

/-- Which branch of `sys_ipc` a register frame takes. -/
def decode (f : Uctx) : Call :=
  if f.destTid = 0 ∧ ¬ f.wantRecv then
    match callFlags.find? fun p => f.flags.getLsbD p.1 with
    | some p => p.2
    | none => .yield
  else .rendezvous

/-- The categories of `SYS_INFO`, those of an outside subsystem grouped by their check. -/
inductive InfoCall
  | power | sigaction | kill | sigprocmask | sigreturn | sigpending | setpgid | getpgid | setsid
  | tcgetpgrp | tcsetpgrp | consoleSignalFg | execreqReply
  | service
  /-- Served for threads with an address space. -/
  | userService
  | driverService
  | writerService
  | pciService
  | portService
  | deviceService
  | unknown
deriving DecidableEq

def decodeInfo : Nat → InfoCall
  | 0 | 1 => .service
  | 2 | 3 | 4 => .power
  | 5 => .sigaction
  | 6 => .kill
  | 7 => .sigprocmask
  | 8 => .sigreturn
  | 9 => .sigpending
  | 10 => .service
  | 11 => .setpgid
  | 12 => .getpgid
  | 13 => .setsid
  | 14 => .tcgetpgrp
  | 15 => .tcsetpgrp
  | 16 => .service
  | 17 | 18 => .driverService
  | 19 => .consoleSignalFg
  | 20 | 21 | 22 => .driverService
  | 23 => .writerService
  | 24 | 25 => .service
  | 26 | 27 => .userService
  | 28 | 29 | 30 | 31 | 32 | 33 | 34 | 35 | 36 => .service
  | 37 => .pciService
  | 38 | 40 | 41 => .portService
  | 39 | 43 => .deviceService
  | 42 => .execreqReply
  | 44 => .userService
  | 45 => .service
  | _ => .unknown

namespace Kernel

/-! ## Grants -/

def hwDriverAllows (k : Kernel) (tid : Tid) : Bool :=
  tid = k.hwDriverTid ∨ ∃ i, k.hwDriverSecondaryTids i = tid

def hwPortIoSecondaryAllows (k : Kernel) (tid : Tid) : Bool :=
  ∃ i, k.hwPortIoSecondaryTids i = tid

/-- Store `tid` in the first free entry of a table of secondary grants. -/
def grantFirstFree (table : Fin 4 → Tid) (tid : Tid) : Fin 4 → Tid :=
  match (List.finRange 4).find? fun i => table i = 0 with
  | none => table
  | some i => update table i tid

/-! ## Send queues -/

def sendqAppend (k : Kernel) (rcv s : Slot) : Kernel :=
  let k₁ := k.setSqNext s none
  let k₂ := match (k₁.tcb rcv).sendQTail with
    | some b => k₁.setSqNext b (some s)
    | none => k₁.modTcb rcv fun x => { x with sendQHead := some s }
  k₂.modTcb rcv fun x => { x with sendQTail := some s }

def passes (filter : Tid) (s : Slot) : Bool := filter = ipcTidAny ∨ s.tid = filter

/-- The search loop of `sendq_take`.  It changes no link, so over a cyclic queue with no
matching sender it never ends. -/
def sendqScan (k : Kernel) (rcv : Slot) (filter : Tid) : Option (Option (Option Slot × Slot)) :=
  Lib.scan (fun s : Slot => (k.tcb s).sqNext) (passes filter) 65 none (k.tcb rcv).sendQHead

/-- The assignments of `sendq_take` once the sender is found behind `prev`. -/
def sendqUnlink (k : Kernel) (rcv : Slot) (prev : Option Slot) (s : Slot) : Kernel :=
  let k₁ := match prev with
    | some b => k.setSqNext b (k.tcb s).sqNext
    | none => k.modTcb rcv fun x => { x with sendQHead := (k.tcb s).sqNext }
  let k₂ := k₁.modTcb rcv fun x =>
    { x with sendQTail := if x.sendQTail = some s then prev else x.sendQTail }
  k₂.setSqNext s none

def sendqTake (k : Kernel) (rcv : Slot) (filter : Tid) : Option (Option Slot × Kernel) :=
  match k.sendqScan rcv filter with
  | none => none
  | some none => some (none, k)
  | some (some (prev, s)) => some (some s, k.sendqUnlink rcv prev s)

/-! ## Rendezvous -/

def vmCapCheck (k : Kernel) (owner : Tid) (paddr : Word) (perms : BitVec 32) : Bool :=
  k.frameCaps.any fun cap =>
    cap.owner = owner ∧ cap.permissions &&& perms = perms ∧
      cap.baseFrame ≤ paddr ∧ paddr < cap.baseFrame + cap.frameCount * 0x1000

/-- `vm_batch_map` returns 0: the count is in range and the first frame is covered by a
capability of the requester. -/
def vmBatchMapOk (k : Kernel) (requester : Tid) (m : MsgRegs) : Bool :=
  let count := (m.word2 >>> 32).toNat
  count ≠ 0 ∧ count ≤ 32 ∧ k.vmCapCheck requester m.word1 1

def transferOk (k : Kernel) (env : Env) (sender : Tid) (flags : BitVec 32) (m : MsgRegs) : Bool :=
  if flags.getLsbD 0 then k.vmBatchMapOk sender m
  else if flags.getLsbD 2 ∨ flags.getLsbD 3 then env.pagesMoved
  else true

def transferErr (ok : Bool) : IpcErr := if ok then .none else .noCap

def deliverToFrame (k : Kernel) (rcv : Slot) (sender : Tid) (m : MsgRegs) : Kernel :=
  k.modUctx rcv fun f =>
    { payloadToFrame f m with rsi := sender.setWidth 64, rax := IpcErr.none.toWord }

def completeParkedSender (k : Kernel) (c : Cpu) (env : Env) (cur s : Slot) : Kernel :=
  let ok := k.transferOk env s.tid (k.tcb s).ipcFlags (k.tcb s).ipcBuffer
  let k₁ := k.deliverToFrame cur s.tid (k.tcb s).ipcBuffer
  let k₂ := k₁.setRax s (transferErr ok)
  if (k₂.tcb s).ipcRecvAfter ≠ noRecvAfter then
    (k₂.modTcb s fun x =>
      { x with ipcPartner := x.ipcRecvAfter, ipcRecvAfter := noRecvAfter }).setState s .waitRecv
  else k₂.schedWake c s

/-- `fault_queue_push`; `none` when the queue is full. -/
def faultQueuePush (k : Kernel) (msg : FaultMsg) : Option Kernel :=
  if k.faultHead + 1 = k.faultTail then none
  else some { k with
    faultEntries := update k.faultEntries k.faultHead msg
    faultHead := k.faultHead + 1 }

def vmTakeQueuedFault (k : Kernel) (rcv : Slot) : Option (FaultMsg × Kernel) :=
  if k.faultHead = k.faultTail then none
  else
    let msg := k.faultEntries k.faultTail
    match k.schedGetTcb msg.faultingThread with
    | none => none
    | some faulter =>
      if (k.tcb faulter).pagerTid ≠ rcv.tid then none
      else some (msg, { k with faultTail := k.faultTail + 1 })

def faultRegs (f : Uctx) (msg : FaultMsg) : Uctx :=
  { f with
    r8 := msg.faultAddress, r9 := msg.errorCode.setWidth 64
    r10 := msg.faultingThread.setWidth 64, rsi := msg.faultingThread.setWidth 64
    rax := IpcErr.none.toWord }

/-- The receive at the end of `sys_ipc`: a parked sender, a queued page fault, a queued
exec request, or else the caller blocks. -/
def ipcRecv (k : Kernel) (c : Cpu) (env : Env) (cur : Slot) : Option Kernel :=
  let f := (k.tcb cur).uctx
  match k.sendqTake cur f.srcFilter with
  | none => none
  | some (some s, k₁) => some (k₁.completeParkedSender c env cur s)
  | some (none, _) =>
    match k.vmTakeQueuedFault cur with
    | some (msg, k₁) => some (k₁.modUctx cur fun f => faultRegs f msg)
    | none =>
      let request := if cur.tid = k.ext2fsTid then k.execreqTryDeliverQueued else none
      match request with
      | some (i, k₁) =>
        some (k₁.modUctx cur fun f =>
          bulkReadRegs f i (k.execSlots i).generation (k.execSlots i).params.name)
      | none =>
        if f.noblock then some (k.setRax cur .wouldblock)
        else
          some ((k.modTcb cur fun x => { x with ipcPartner := f.srcFilter }).schedBlock cur
            .waitRecv)

/-- A thread blocked in a receive accepts a message from `sender`. -/
def accepts (k : Kernel) (rcv : Slot) (sender : Tid) : Prop :=
  (k.tcb rcv).state = .waitRecv ∧
    ((k.tcb rcv).ipcPartner = ipcTidAny ∨ (k.tcb rcv).ipcPartner = sender)
deriving Decidable

/-- The branch of `sys_ipc` for a destination that accepts the message at once. -/
def ipcDeliver (k : Kernel) (c : Cpu) (env : Env) (cur dest : Slot) : Option Kernel :=
  let f := (k.tcb cur).uctx
  let m := payloadFromFrame f
  let ok := k.transferOk env cur.tid f.flags m
  let k₁ := (k.deliverToFrame dest cur.tid m).setRax cur (transferErr ok)
  let handOver (k : Kernel) : Kernel :=
    (k.modTcb dest fun x => { x with timesliceLeft := (k.tcb cur).timesliceLeft })
      |>.schedDirectSwitch c dest
  if f.wantRecv then
    match k₁.sendqTake cur f.srcFilter with
    | none => none
    | some (some waiting, k₂) => some ((k₂.schedWake c dest).completeParkedSender c env cur waiting)
    | some (none, _) =>
      some (handOver ((k₁.modTcb cur fun x => { x with ipcPartner := f.srcFilter }).schedBlock cur
        .waitRecv))
  else if (k₁.tcb cur).prio ≤ (k₁.tcb dest).prio then some (handOver (k₁.schedReadyNow cur))
  else some (k₁.schedWake c dest)

/-- The branch of `sys_ipc` that parks the caller on the destination's send queue. -/
def ipcPark (k : Kernel) (cur dest : Slot) : Kernel :=
  let f := (k.tcb cur).uctx
  let k₁ := k.modTcb cur fun x =>
    { x with
      ipcBuffer := payloadFromFrame f, ipcFlags := f.flags, ipcPartner := f.destTid
      ipcRecvAfter := if f.wantRecv then f.srcFilter else noRecvAfter }
  (k₁.sendqAppend dest cur).schedBlock cur .waitSend

def resumesFault (k : Kernel) (cur dest : Slot) : Prop :=
  (k.tcb dest).state = .waitPagefault ∧ (k.tcb dest).pagerTid = cur.tid
deriving Decidable

def rendezvous (k : Kernel) (c : Cpu) (env : Env) (cur : Slot) : Option Kernel :=
  let f := (k.tcb cur).uctx
  if f.destTid = 0 then k.ipcRecv c env cur
  else
    match k.schedGetTcb f.destTid with
    | none => some (k.setRax cur .notFound)
    | some dest =>
      if dest = cur then some (k.setRax cur .notFound)
      else if k.resumesFault cur dest then
        let k₁ := (k.schedWake c dest).setRax cur .none
        if f.wantRecv then k₁.ipcRecv c env cur else some k₁
      else if k.accepts dest cur.tid then k.ipcDeliver c env cur dest
      else some (k.ipcPark cur dest)

/-! ## Requests to the kernel -/

def storeReply (k : Kernel) (env : Env) (cur : Slot) : Kernel :=
  k.modUctx cur fun f => f.reply env.reply

/-- Serve the call outside the model if `allowed`, else refuse it. -/
def serveIf (k : Kernel) (env : Env) (cur : Slot) (allowed : Bool) : Kernel :=
  if allowed then k.storeReply env cur else k.setRax cur .noCap

def finish (k : Kernel) (cur : Slot) (result : Option Kernel) (err : IpcErr) : Kernel :=
  match result with
  | some k₁ => k₁.setRax cur .none
  | none => k.setRax cur err

/-- `ipc_console_interrupt` on a terminal in range. -/
def consoleInterrupt (k : Kernel) (c : Cpu) (vt : Fin 6) (signum : Int) : Kernel :=
  let waiter := k.consoleReadWaiter vt
  let clear (k : Kernel) : Kernel :=
    { k with consoleReadWaiter := update k.consoleReadWaiter vt 0 }
  let k₁ := if waiter = 0 then k
    else
      match k.schedGetTcb waiter with
      | none => clear k
      | some t =>
        if (k.tcb t).state = .waitConsole then
          (clear (k.setRax t .canceled)).schedWake c t
        else clear k
  k₁.schedSignalPgid c (k₁.consoleFgPgid vt) signum

def asInt (w : Word) : Int := (w.setWidth 32).toInt

def asVt (w : Word) : Option (Fin 6) :=
  if h : 0 ≤ asInt w ∧ asInt w < 6 then some ⟨(asInt w).toNat, by omega⟩ else none

def callConsoleRead (k : Kernel) (env : Env) (cur : Slot) : Kernel :=
  if cur.tid ≠ k.consoleWriterTid then k.setRax cur .noCap
  else
    match asVt (k.tcb cur).uctx.r8 with
    | none => k.setRax cur .notFound
    | some vt =>
      match env.consoleLine with
      | some line => k.modUctx cur fun f => f.reply { line with rax := IpcErr.none.toWord }
      | none =>
        if k.consoleReadWaiter vt ≠ 0 then k.setRax cur .wouldblock
        else
          ({ k with
              consoleReadWaiter := update k.consoleReadWaiter vt cur.tid }
            : Kernel).schedBlock cur .waitConsole

def callRetype (k : Kernel) (env : Env) (cur : Slot) : Kernel :=
  let f := (k.tcb cur).uctx
  let (out, k₁) := k.capRetype env cur.tid (f.r8.setWidth 32) (f.r9.setWidth 32)
    f.r10 f.r12 f.r13 f.r14
  match out with
  | some (slot, addr) =>
    k₁.modUctx cur fun f => { f with rax := IpcErr.none.toWord, r8 := slot, r9 := addr }
  | none => k₁.modUctx cur fun f => { f with rax := IpcErr.noCap.toWord, r8 := 0, r9 := 0 }

def callNotifyWait (k : Kernel) (cur : Slot) : Kernel :=
  match k.capNotifWaitBegin cur.tid ((k.tcb cur).uctx.r8.setWidth 32) with
  | (none, k₁) => k₁.setRax cur .noCap
  | (some bits, k₁) =>
    if bits ≠ 0 then
      k₁.modUctx cur fun f => { f with rax := IpcErr.none.toWord, r8 := bits }
    else k₁.schedBlock cur .waitNotification

def callNotifyPoll (k : Kernel) (cur : Slot) : Kernel :=
  match k.capNotifPoll cur.tid ((k.tcb cur).uctx.r8.setWidth 32) with
  | (none, k₁) => k₁.setRax cur .noCap
  | (some bits, k₁) =>
    if bits = 0 then k₁.setRax cur .wouldblock
    else k₁.modUctx cur fun f => { f with rax := IpcErr.none.toWord, r8 := bits }

/-- `submit_execreq`, shared by `spawn_create` and `spawn_exec`. -/
def submitExecreq (k : Kernel) (c : Cpu) (cur : Slot) (name : List (BitVec 8))
    (isSpawnCreate : Bool) : Option Kernel :=
  k.execreqSubmit c cur
    { requesterTid := cur.tid, isSpawnCreate := isSpawnCreate, name := name.take 63
      prio := (k.tcb cur).prio, pagerTid := (k.tcb cur).pagerTid }

/-- The checks `spawn_create` and `spawn_exec` share: the program name, if they pass. -/
def spawnRequest (k : Kernel) (env : Env) (cur : Slot) : Option (List (BitVec 8)) :=
  let f := (k.tcb cur).uctx
  if (k.tcb cur).addressSpace = 0 ∨ f.r9 = 0 ∨ 4096 < f.r9 then none else env.spawnName

def callSpawn (k : Kernel) (c : Cpu) (env : Env) (cur : Slot) : Kernel :=
  let status (k : Kernel) (e : IpcErr) (child : Word) : Kernel :=
    k.modUctx cur fun f => { f with rax := e.toWord, r8 := child }
  match k.spawnRequest env cur with
  | none => status k .noCap 0
  | some name =>
    if env.inRootfs then
      match k.elfLoadAndSpawnReq env (k.tcb cur).prio (k.tcb cur).pagerTid with
      | none => status k .noMem 0
      | some (child, k₁) =>
        status (k₁.modTcb child fun x => { x with parentTid := cur.tid }) .none
          ((child.tid).setWidth 64)
    else (k.submitExecreq c cur name true).getD (status k .notFound 0)

def callExec (k : Kernel) (c : Cpu) (env : Env) (cur : Slot) : Kernel :=
  match k.spawnRequest env cur with
  | none => k.setRax cur .noCap
  | some name =>
    if env.inRootfs then (k.elfExecCurrent env cur).getD (k.setRax cur .noMem)
    else (k.submitExecreq c cur name false).getD (k.setRax cur .notFound)

def callFork (k : Kernel) (env : Env) (cur : Slot) : Kernel :=
  let status (k : Kernel) (e : IpcErr) (child : Word) : Kernel :=
    k.modUctx cur fun f => { f with rax := e.toWord, r8 := child }
  if (k.tcb cur).addressSpace = 0 then status k .noCap 0
  else if env.cloneAs = 0 then status k .noMem 0
  else
    match k.threadCreateForkedLocked env.cloneAs (k.tcb cur).pagerTid (k.tcb cur).prio cur with
    | none => status k .noMem 0
    | some (child, k₁) =>
      let k₂ := k₁.modTcb child fun x =>
        { x with
          parentTid := cur.tid, pgid := (k₁.tcb cur).pgid, sid := (k₁.tcb cur).sid
          uctx := { x.uctx with rax := IpcErr.none.toWord, r8 := 0 } }
      status k₂ .none ((child.tid).setWidth 64)

def callWait (k : Kernel) (cur : Slot) : Kernel :=
  let f := (k.tcb cur).uctx
  let filter : Tid := f.r8.setWidth 32
  match k.schedFindZombieChild cur.tid filter with
  | (some z, _) =>
    (k.schedReapZombie z).modUctx cur fun f =>
      { f with
        rax := IpcErr.none.toWord, r8 := (z.tid).setWidth 64
        r9 := (k.tcb z).exitStatus.signExtend 64 }
  | (none, false) => k.setRax cur .notFound
  | (none, true) =>
    if f.noblock then k.setRax cur .wouldblock
    else (k.modTcb cur fun x => { x with waitFilter := filter }).schedBlock cur .waitChild

def callResolveFault (k : Kernel) (env : Env) (cur : Slot) : Kernel :=
  if cur.tid ≠ k.pagerOwnerTid ∨ k.pagerOwnerTid = 0 then k.setRax cur .noCap
  else
    match k.schedGetTcb ((k.tcb cur).uctx.r8.setWidth 32) with
    | none => k.setRax cur .notFound
    | some _ => if env.pmmAlloc = 0 then k.setRax cur .noMem else k.setRax cur .none

def callSetFsbase (k : Kernel) (c : Cpu) (cur : Slot) : Kernel :=
  let base := (k.tcb cur).uctx.r8
  let k₁ := k.modTcb cur fun x => { x with fsBase := base }
  ({ k₁ with hw := update k₁.hw c { k₁.hw c with fs := base } } : Kernel).setRax cur .none

/-- `IPC_FLAG_THREAD_INFO`, with `sched_thread_info`; the name words are not modelled. -/
def callThreadInfo (k : Kernel) (env : Env) (cur : Slot) : Kernel :=
  let tid : Tid := (k.tcb cur).uctx.r8.setWidth 32
  if h : tid.toNat < 64 then
    let x := k.tcb (.thread ⟨tid.toNat, h⟩)
    if tid = 0 ∨ x.state = .dead then k.setRax cur .notFound
    else
      k.modUctx cur fun f =>
        { f with
          rax := IpcErr.none.toWord, r8 := x.state.toWord, r9 := BitVec.ofNat 64 x.prio.val
          r10 := x.exitStatus.signExtend 64, r12 := x.parentTid.setWidth 64
          r13 := env.reply.r13, r14 := env.reply.r14 }
  else k.setRax cur .notFound

def infoSigaction (k : Kernel) (cur : Slot) : Kernel :=
  let f := (k.tcb cur).uctx
  let signum := asInt f.r9
  if signum < 1 ∨ 64 ≤ signum then k.setRax cur .notFound
  else
    let i := Fin.ofNat 64 signum.toNat
    k.modTcb cur fun x =>
      let sa := x.sigActions i
      { x with
        uctx := { f with
          r8 := sa.handler, r9 := sa.flags, r10 := sa.mask, rax := IpcErr.none.toWord }
        sigActions := if asInt f.r13 = 0 then x.sigActions
          else update x.sigActions i { handler := f.r10, flags := f.r12, mask := f.r14 } }

def infoSigprocmask (k : Kernel) (cur : Slot) : Kernel :=
  k.modTcb cur fun x =>
    let f := x.uctx
    { x with
      uctx := { f with r8 := x.sigMask, rax := IpcErr.none.toWord }
      sigMask := if asInt f.r12 = 0 then x.sigMask
        else if f.r9 = 0 then x.sigMask ||| f.r10
        else if f.r9 = 1 then x.sigMask &&& ~~~f.r10
        else f.r10 }

def infoSigreturn (k : Kernel) (cur : Slot) : Kernel :=
  k.modTcb cur fun x =>
    { x with uctx := x.savedUctxBeforeSig, sigMask := x.savedSigMask, inSigHandler := false }

def infoSetpgid (k : Kernel) (cur : Slot) : Kernel :=
  let f := (k.tcb cur).uctx
  let target : Tid := if f.r9.setWidth 32 = (0 : Tid) then cur.tid else f.r9.setWidth 32
  let newPgid : Tid := if f.r10.setWidth 32 = (0 : Tid) then target else f.r10.setWidth 32
  match k.schedGetTcb target with
  | none => k.setRax cur .notFound
  | some t => (k.modTcb t fun x => { x with pgid := newPgid }).setRax cur .none

def infoGetpgid (k : Kernel) (cur : Slot) : Kernel :=
  let f := (k.tcb cur).uctx
  let target : Tid := if f.r9.setWidth 32 = (0 : Tid) then cur.tid else f.r9.setWidth 32
  match k.schedGetTcb target with
  | none => k.setRax cur .notFound
  | some t =>
    let pgid := (k.tcb t).pgid
    k.modUctx cur fun f => { f with r8 := pgid.setWidth 64, rax := IpcErr.none.toWord }

def infoExecreqReply (k : Kernel) (c : Cpu) (env : Env) (cur : Slot) : Kernel :=
  let f := (k.tcb cur).uctx
  let slot : BitVec 32 := f.r9.setWidth 32
  if cur.tid ≠ k.ext2fsTid then k.setRax cur .noCap
  else if h : slot.toNat < 8 then
    (k.execreqComplete c env ⟨slot.toNat, h⟩ (f.r10.setWidth 16) (f.r12.setWidth 32) f.r14).setRax
      cur .none
  else k.setRax cur .none

def callSysInfo (k : Kernel) (c : Cpu) (env : Env) (cur : Slot) : Option Kernel :=
  let f := (k.tcb cur).uctx
  let tid := cur.tid
  match decodeInfo f.r8.toNat with
  | .power => none
  | .sigaction => some (k.infoSigaction cur)
  | .kill => some (k.finish cur (k.sigSend c (f.r9.setWidth 32) (asInt f.r10)) .notFound)
  | .sigprocmask => some (k.infoSigprocmask cur)
  | .sigreturn => some (k.infoSigreturn cur)
  | .sigpending =>
    some (k.modTcb cur fun x =>
      { x with uctx := { x.uctx with r8 := x.sigPending, rax := IpcErr.none.toWord } })
  | .setpgid => some (k.infoSetpgid cur)
  | .getpgid => some (k.infoGetpgid cur)
  | .setsid =>
    some (k.modTcb cur fun x =>
      { x with
        sid := tid, pgid := tid
        uctx := { x.uctx with r8 := tid.setWidth 64, rax := IpcErr.none.toWord } })
  | .tcgetpgrp =>
    match asVt f.r9 with
    | none => some (k.setRax cur .notFound)
    | some vt =>
      some (k.modUctx cur fun f =>
        { f with r8 := (k.consoleFgPgid vt).setWidth 64, rax := IpcErr.none.toWord })
  | .tcsetpgrp =>
    match asVt f.r9 with
    | none => some (k.setRax cur .notFound)
    | some vt =>
      some (({ k with
        consoleFgPgid := update k.consoleFgPgid vt (f.r10.setWidth 32) } : Kernel).setRax cur .none)
  | .consoleSignalFg =>
    if tid ≠ k.consoleDriverTid then some (k.setRax cur .noCap)
    else
      match asVt f.r9 with
      | none => some (k.setRax cur .none)
      | some vt => some ((k.consoleInterrupt c vt (asInt f.r10)).setRax cur .none)
  | .execreqReply => some (k.infoExecreqReply c env cur)
  | .service => some (k.storeReply env cur)
  | .userService => some (k.serveIf env cur ((k.tcb cur).addressSpace ≠ 0))
  | .driverService => some (k.serveIf env cur (tid = k.consoleDriverTid))
  | .writerService => some (k.serveIf env cur (tid = k.consoleWriterTid))
  | .pciService => some (k.serveIf env cur (k.hwDriverAllows tid ∨ tid = k.pciCfgSecondaryTid))
  | .portService => some (k.serveIf env cur (k.hwDriverAllows tid ∨ k.hwPortIoSecondaryAllows tid))
  | .deviceService => some (k.serveIf env cur (k.hwDriverAllows tid ∧ (k.tcb cur).addressSpace ≠ 0))
  | .unknown => some (k.setRax cur .notFound)

/-! ## The system call -/

def sysIpc (k : Kernel) (c : Cpu) (env : Env) (cur : Slot) : Option Kernel :=
  let f := (k.tcb cur).uctx
  let tid := cur.tid
  let slot : BitVec 32 := f.r8.setWidth 32
  match decode f with
  | .retype => some (k.callRetype env cur)
  | .destroy => some (k.finish cur (k.capDestroy c tid slot) .noCap)
  | .consoleWrite =>
    if tid ≠ k.consoleWriterTid ∧ tid ≠ k.consoleDriverTid then some (k.setRax cur .noCap)
    else some (k.setRax cur .none)
  | .consoleRead => some (k.callConsoleRead env cur)
  | .notifySignal => some (k.finish cur (k.capNotifSignal c tid slot f.r9) .noCap)
  | .notifyWait => some (k.callNotifyWait cur)
  | .notifyPoll => some (k.callNotifyPoll cur)
  | .timerArm =>
    some (k.finish cur (k.capTimerArm tid slot (f.r9.setWidth 32) f.r10 f.r12 f.r13) .noCap)
  | .timerDisarm => some (k.finish cur (k.capTimerDisarm tid slot) .noCap)
  | .revokeFrame => some (k.finish cur (k.capRevokeFrame tid slot) .noCap)
  | .exit =>
    if (k.tcb cur).addressSpace = 0 then some (k.setRax cur .noCap)
    else some (k.spawnExitCurrent c cur (f.r8.setWidth 32 &&& 0xFF))
  | .spawn => some (k.callSpawn c env cur)
  | .wait => some (k.callWait cur)
  | .pipeCreate | .pipeRead | .pipeWrite | .pipeClose | .bootfs => some (k.storeReply env cur)
  | .fork => some (k.callFork env cur)
  | .selfTid =>
    some (k.modUctx cur fun f => { f with rax := IpcErr.none.toWord, r8 := tid.setWidth 64 })
  | .exec => some (k.callExec c env cur)
  | .mount =>
    if (k.tcb cur).parentTid ≠ 0 then some (k.setRax cur .noCap)
    else some (k.storeReply env cur)
  | .resolveFault => some (k.callResolveFault env cur)
  | .setFsbase => some (k.callSetFsbase c cur)
  | .threadInfo => some (k.callThreadInfo env cur)
  | .sysInfo => k.callSysInfo c env cur
  | .yield =>
    let k₁ := k.setRax cur .none
    if f.srcFilter = 0 then some (k₁.requestResched c)
    else some (k₁.schedSleep c cur (f.srcFilter.setWidth 64))
  | .rendezvous => k.rendezvous c env cur

end Kernel

end Robu
