import Robu.Kernel.Moves

/-!
# Acts of a kernel section

How threads wait, wake and end depends on most of a control block and on several tables,
but not on how threads are queued for a CPU.  `Alike` relates states that differ only in
the ready queues, the saved FPU images and the tables of grants.

`Act` lists what a kernel section can do otherwise.  Each act is one assignment that
belongs together, with what the code knows when it makes it.  `Robu.Kernel.Acts` shows
that every section is a sequence of acts; an invariant is then proved once for each act.

What only some sections do is allowed by the `Effects` of the section.
-/

namespace Robu

open Function (update)

def Tcb.vital (x : Tcb) : Tcb :=
  { x with inReadyQ := false, rqNext := none, inboxNext := none, timesliceLeft := 0, fpuState := 0 }

/-- What a thread may change in its own control block by a system call, besides blocking. -/
structure Tcb.Own where
  uctx : Uctx
  fsBase : Word
  addressSpace : Word
  pgid : Tid
  sid : Tid
  sigMask : Word
  sigActions : Fin 64 → SigAction
  inSigHandler : Bool
  savedUctxBeforeSig : Uctx
  savedSigMask : Word

def Tcb.putOwn (x : Tcb) (o : Tcb.Own) : Tcb :=
  { x with
    uctx := o.uctx, fsBase := o.fsBase, addressSpace := o.addressSpace, pgid := o.pgid, sid := o.sid
    sigMask := o.sigMask, sigActions := o.sigActions, inSigHandler := o.inSigHandler
    savedUctxBeforeSig := o.savedUctxBeforeSig, savedSigMask := o.savedSigMask }

def Tcb.OwnWrite (x y : Tcb) : Prop :=
  y = x.putOwn ⟨y.uctx, y.fsBase, y.addressSpace, y.pgid, y.sid, y.sigMask, y.sigActions,
    y.inSigHandler, y.savedUctxBeforeSig, y.savedSigMask⟩

def Tcb.Born (x : Tcb) : Prop :=
  x.vital = { state := .ready, prio := x.prio, uctx := x.uctx, fsBase := x.fsBase
              addressSpace := x.addressSpace, pagerTid := x.pagerTid, pgid := x.pgid, sid := x.sid }

/-- What a section does to other threads, to time, and to the grants. -/
structure Effects where
  /-- The thread whose system call the section executes. -/
  caller : Option Slot
  live : Prop
  /-- The states of the threads when the section began. -/
  before : Slot → ThreadState
  /-- The senders it takes off the queue of the caller. -/
  takes : Slot → Prop
  /-- It answers the waits of other threads, or makes its caller wait. -/
  answers : Prop
  /-- The threads it sends a signal to. -/
  signals : Slot → Prop
  /-- The threads it ends without telling their parents. -/
  kills : Slot → Prop
  exits : Slot → Prop
  /-- The tids a receive in it starts to wait for. -/
  awaits : Tid → Prop
  /-- The threads whose page faults it passes on to their pagers. -/
  faults : Slot → Prop
  creates : Prop
  /-- It may collect a child that has ended. -/
  reaps : Prop
  /-- The kinds of capabilities it grants for objects of the grantor's choice. -/
  grants : CapKind → Prop
  notifies : Prop
  watches : Prop
  notified : Slot → Prop
  ticks : Prop
  /-- It programs the timer of its CPU. -/
  arms : Prop

/-- A section with the effects `F` does nothing that one with the effects `F'` cannot do, save
that it ends threads and delivers notifications. -/
structure Effects.CalmLe (F F' : Effects) : Prop where
  caller : ∀ me, F.caller = some me → F'.caller = some me
  live : F'.live → F.live
  before : (F.creates ∨ ∃ t, F.takes t) → F'.before = F.before
  takes : ∀ t, F.takes t → F'.takes t
  answers : F.answers → F'.answers
  signals : ∀ t, F.signals t → F'.signals t
  awaits : ∀ tid, F.awaits tid → F'.awaits tid
  faults : ∀ t, F.faults t → F'.faults t
  creates : F.creates → F'.creates
  reaps : F.reaps → F'.reaps
  grants : ∀ kind, F.grants kind → F'.grants kind
  notifies : F.notifies → F'.notifies
  watches : F.watches → F'.watches
  ticks : F.ticks → F'.ticks
  arms : F.arms → F'.arms

/-- A section with the effects `F` does nothing that one with the effects `F'` cannot do. -/
structure Effects.Le (F F' : Effects) : Prop extends F.CalmLe F' where
  kills : ∀ t, F.kills t → F'.kills t
  exits : ∀ t, F.exits t → F'.exits t
  notified : ∀ t, F.notified t → F'.notified t

theorem Effects.Le.refl (F : Effects) : F.Le F where
  caller _ := id
  live := id
  before _ := rfl
  takes _ := id
  answers := id
  signals _ := id
  kills _ := id
  exits _ := id
  awaits _ := id
  faults _ := id
  creates := id
  reaps := id
  grants _ := id
  notifies := id
  watches := id
  notified _ := id
  ticks := id
  arms := id

def Effects.calm (F : Effects) : Effects :=
  { F with kills := fun _ => False, exits := fun _ => False, notified := fun _ => False }

theorem Effects.calmLe_calm (F : Effects) : F.CalmLe F.calm := { Le.refl F with }

namespace Kernel

/-- The states agree on time and on the tables of objects. -/
structure SameTables (k k' : Kernel) : Prop where
  nowTicks : k'.nowTicks = k.nowTicks
  armedTicks : k'.armedTicks = k.armedTicks
  kcapTable : k'.kcapTable = k.kcapTable
  notifTable : k'.notifTable = k.notifTable
  notifCount : k'.notifCount = k.notifCount
  faultEntries : k'.faultEntries = k.faultEntries
  faultHead : k'.faultHead = k.faultHead
  faultTail : k'.faultTail = k.faultTail

/-- **Alike.**  The states differ at most in how threads are queued for a CPU, in what is
in its registers, and in the grants. -/
structure Alike (k k' : Kernel) : Prop extends k.SameTables k' where
  tcb : ∀ i : Slot, (k'.tcb i).vital = (k.tcb i).vital
  current : k'.current = k.current
  nextDeadline : k'.nextDeadline = k.nextDeadline
  timerTable : k'.timerTable = k.timerTable
  timerCount : k'.timerCount = k.timerCount
  execSlots : k'.execSlots = k.execSlots
  ext2fsTid : k'.ext2fsTid = k.ext2fsTid
  pagerOwnerTid : k'.pagerOwnerTid = k.pagerOwnerTid

def Lives (k : Kernel) (t : Slot) : Prop := (k.tcb t).state ≠ .dead ∧ (k.tcb t).state ≠ .zombie
deriving Decidable

def WaitsFor (k : Kernel) (p child : Slot) : Prop :=
  (k.tcb p).state = .waitChild ∧ ((k.tcb p).waitFilter = 0 ∨ (k.tcb p).waitFilter = child.tid)
deriving Decidable

/-! ## What ends a wait -/

def messageRegs (sender : Tid) (m : MsgRegs) (f : Uctx) : Uctx :=
  { payloadToFrame f m with rsi := sender.setWidth 64, rax := IpcErr.none.toWord }

def childRegs (child : Slot) (status : BitVec 32) (f : Uctx) : Uctx :=
  { f with
    rax := IpcErr.none.toWord, r8 := (child.tid).setWidth 64, r9 := status.signExtend 64 }

/-- **Answers.**  The registers that end the wait of a thread, by what it waits for. -/
inductive Answers (k : Kernel) (t : Slot) : (Uctx → Uctx) → Prop
  | message (sender : Tid) (m : MsgRegs) (accepts : k.accepts t sender) :
    Answers k t (messageRegs sender m)
  | fault (msg : FaultMsg) (accepts : k.accepts t msg.faultingThread) : Answers k t fun f =>
    faultRegs f msg
  /-- A request to load a program, for the file server. -/
  | request (i : Fin 8) (generation : BitVec 16) (name : List (BitVec 8))
    (waits : k.ext2fsWaits t) :
      Answers k t fun f => bulkReadRegs f i generation name
  | interrupt (waits : (k.tcb t).state = .waitConsole) :
      Answers k t fun f => { f with rax := IpcErr.canceled.toWord }
  | exec (i : Fin 8) (e : IpcErr) (awaits : k.awaitsSlot t i) :
      Answers k t fun f => { f with rax := e.toWord }
  /-- The status of a spawn request with the child. -/
  | spawn (i : Fin 8) (e : IpcErr) (child : Word) (awaits : k.awaitsSlot t i) :
      Answers k t fun f => { f with rax := e.toWord, r8 := child }

/-! ## Acts -/

/-- **Edits.**  The assignments to the control block of one thread. -/
inductive Edit (F : Effects) (c : Cpu) (k : Kernel) : Slot → (Tcb → Tcb) → Prop
  | own {me : Slot} {f : Tcb → Tcb} (caller : F.caller = some me)
      (own : (k.tcb me).OwnWrite (f (k.tcb me))) : Edit F c k me f
  | regroup (t : Slot) (g : Tid) : Edit F c k t fun x => { x with pgid := g }
  | sleep {me : Slot} (tick : Word) (may : F.answers) (caller : F.caller = some me) :
      Edit F c k me fun x => { x with wakeAtTick := tick, state := .sleeping }
  | console {me : Slot} (may : F.answers) (caller : F.caller = some me) :
      Edit F c k me fun x => { x with state := .waitConsole }
  /-- The caller waits for a message, having found none. -/
  | receive {me : Slot} {filter : Tid} (may : F.answers) (caller : F.caller = some me)
      (found : k.sendqScan me filter = some none) (awaits : F.awaits filter) :
      Edit F c k me fun x => { x with ipcPartner := filter, state := .waitRecv }
  /-- The caller waits for a child that is alive. -/
  | waitChild {me : Slot} {filter : Tid} (reaps : F.reaps) (caller : F.caller = some me)
      (found : k.schedFindZombieChild me.tid filter = (none, true)) :
      Edit F c k me fun x => { x with waitFilter := filter, state := .waitChild }
  /-- The caller waits for the reply to an exec request. -/
  | waitExec {me : Slot} (i : Fin 8) (may : F.answers) (caller : F.caller = some me) :
    Edit F c k me fun x =>
        { x with execreqSlot := BitVec.ofNat 32 i.val, state := .waitExecreq }
  /-- The current thread waits for its pager. -/
  | stall {me pager : Slot} (faults : F.faults me) (current : k.current c = some me)
      (lives : k.schedGetTcb (k.tcb me).pagerTid = some pager) :
      Edit F c k me fun x => { x with state := .waitPagefault }
  /-- The caller lets the receiver of its message run first. -/
  | yield {me : Slot} (may : F.answers) (caller : F.caller = some me) :
      Edit F c k me fun x => { x with state := .ready }
  /-- The wait of a thread is answered. -/
  | answer {t : Slot} {g : Uctx → Uctx} (may : F.answers) (answers : k.Answers t g) :
      Edit F c k t fun x => { x with uctx := g x.uctx, state := .ready }
  /-- The wait of a thread ends with a new program. -/
  | image {t : Slot} {i : Fin 8} (image : Image) (may : F.answers) (awaits : k.awaitsSlot t i) :
      Edit F c k t fun x =>
        { x with
          addressSpace := image.addressSpace, sigActions := fun _ => {}, inSigHandler := false
          uctx := image.uctx, state := .ready }
  /-- The send of a thread is complete. -/
  | sent {s : Slot} (e : IpcErr) (takes : F.takes s)
      (parked : F.before s = .waitSend → (k.tcb s).state = .waitSend)
      (done : (k.tcb s).ipcRecvAfter = noRecvAfter) :
      Edit F c k s fun x =>
        { x with
          uctx := { x.uctx with rax := e.toWord }, state := if k.Asleep s then .ready else x.state }
  /-- The send of a thread is complete, and it goes on to receive. -/
  | sentReceive {s : Slot} (e : IpcErr) (takes : F.takes s)
      (parked : F.before s = .waitSend → (k.tcb s).state = .waitSend)
      (more : (k.tcb s).ipcRecvAfter ≠ noRecvAfter) (awaits : F.awaits (k.tcb s).ipcRecvAfter) :
      Edit F c k s fun x =>
        { x with
          uctx := { x.uctx with rax := e.toWord }, ipcPartner := x.ipcRecvAfter
          ipcRecvAfter := noRecvAfter, state := .waitRecv }
  | alarm {t : Slot} (sleeps : (k.tcb t).state = .sleeping) : Edit F c k t fun x =>
    { x with state := .ready }
  /-- The pager lets a thread go on. -/
  | resolve {me t : Slot} (caller : F.caller = some me) (resumes : k.resumesFault me t) :
      Edit F c k t fun x => { x with state := .ready }
  | signal {t : Slot} (mark : Word) (signals : F.signals t) : Edit F c k t fun x =>
        { x with
          sigPending := x.sigPending ||| mark
          state := if k.Asleep t then .ready else x.state }
  | create {t : Slot} {x : Tcb} (creates : F.creates) (unused : F.before t = .dead)
      (dead : (k.tcb t).state = .dead) (ne : t ≠ 0) (born : x.Born) :
      Edit F c k t fun _ => x
  /-- A thread just created gets its parent. -/
  | adopt {t p : Slot} (pgid sid : Tid) (uctx : Uctx) (creates : F.creates)
      (unused : F.before t = .dead) (born : (k.tcb t).Born) (lives : F.live → k.Lives p ∧ p ≠ t) :
      Edit F c k t fun x => { x with parentTid := p.tid, pgid := pgid, sid := sid, uctx := uctx }
  /-- The current thread gets its exit status. -/
  | status {me : Slot} (status : BitVec 32) (current : k.current c = some me)
      (runs : F.live → (k.tcb me).state = .running) :
      Edit F c k me fun x => { x with exitStatus := status }
  /-- A pending signal of the current thread is taken. -/
  | ack {me : Slot} (mark : Word) (current : k.current c = some me)
    (runs : (k.tcb me).state = .running) :
      Edit F c k me fun x => { x with sigPending := x.sigPending &&& ~~~mark }
  /-- The current thread enters a signal handler. -/
  | handler {me : Slot} (mask : Word) (actions : Fin 64 → SigAction) (rsp rip rdi : Word)
      (current : k.current c = some me) (runs : (k.tcb me).state = .running)
      (free : (k.tcb me).inSigHandler = false) :
      Edit F c k me fun x =>
        { x with
          savedUctxBeforeSig := x.uctx, savedSigMask := x.sigMask, sigMask := mask
          inSigHandler := true, sigActions := actions
          uctx := { x.uctx with rsp := rsp, rip := rip, rdi := rdi } }
  /-- The current thread is put back to the ready threads. -/
  | preempt {me : Slot} (current : k.current c = some me) (runs : (k.tcb me).state = .running) :
      Edit F c k me fun x => { x with state := .ready }

/-- Entries for notifications stay, and new ones name an existing object. -/
structure CapsKept (F : Effects) (k : Kernel) (caps : List Kcap) : Prop where
  keep : ∀ {i : Nat} {cap : Kcap}, k.kcapTable[i]? = some cap → cap.kind = .notification →
    caps[i]? = some cap
  fresh : ∀ {i : Nat} {cap : Kcap}, caps[i]? = some cap → cap.kind = .notification →
    k.kcapTable[i]? = some cap ∨ cap.addr.toNat < k.notifCount ∨ F.grants .notification

/-- **Ends.**  The ways in which a thread ends. -/
inductive Ends (F : Effects) (c : Cpu) (k : Kernel) (t : Slot) : Kernel → Prop
  | kill (kills : F.kills t) : Ends F c k t (k.terminateTcb c t .dead)
  /-- The current thread exits and no parent lives. -/
  | exitAlone (exits : F.exits t) (current : k.current c = some t)
      (runs : F.live → (k.tcb t).state = .running)
      (alone : (k.tcb t).parentTid = 0 ∨ k.schedGetTcb (k.tcb t).parentTid = none) :
      Ends F c k t (k.terminateTcb c t .dead)
  /-- The current thread exits and its parent waits for it. -/
  | exitTold {p : Slot} (exits : F.exits t) (current : k.current c = some t)
      (runs : F.live → (k.tcb t).state = .running)
      (lives : k.schedGetTcb (k.tcb t).parentTid = some p) (waits : k.WaitsFor p t) :
      Ends F c k t (((k.modUctx p (childRegs t (k.tcb t).exitStatus)).schedWake c p).terminateTcb c
        t .dead)
  /-- The current thread exits and its parent has yet to ask. -/
  | exitZombie {p : Slot} (exits : F.exits t) (current : k.current c = some t)
      (runs : F.live → (k.tcb t).state = .running) (parent : (k.tcb t).parentTid ≠ 0)
      (lives : k.schedGetTcb (k.tcb t).parentTid = some p) (waits : ¬ k.WaitsFor p t) :
      Ends F c k t (k.terminateTcb c t .zombie)

/-- **Acts.**  What a kernel section on CPU `c` can do. -/
inductive Act (F : Effects) (c : Cpu) : Kernel → Kernel → Prop
  | quiet {k k' : Kernel} (alike : k.Alike k') : Act F c k k'
  | deadline {k : Kernel} (tick : Word) : Act F c k { k with nextDeadline := tick }
  | tick {k : Kernel} (n : Word) (ticks : F.ticks) : Act F c k { k with nowTicks := k.nowTicks + n }
  /-- The timer of the CPU is programmed. -/
  | arm {k : Kernel} (n : Word) (arms : F.arms) :
    Act F c k { k with armedTicks := update k.armedTicks c n }
  | timers {k : Kernel} (table : Nat → TimerObj) (count : Nat) :
      Act F c k { k with timerTable := table, timerCount := count }
  | slots {k : Kernel} (slots : Fin 8 → ExecreqSlot) : Act F c k { k with execSlots := slots }
  | services {k : Kernel} (ext2fs pager : Tid) :
      Act F c k { k with ext2fsTid := ext2fs, pagerOwnerTid := pager }
  | caps {k : Kernel} {caps : List Kcap} (kept : CapsKept F k caps) :
    Act F c k { k with kcapTable := caps }
  | newNotification {k : Kernel} : Act F c k { k with
        notifCount := k.notifCount + 1
        notifTable := update k.notifTable k.notifCount { inUse := true } }
  | notify {k : Kernel} (idx : Nat) (bits : Word) (notifies : F.notifies)
      (notified : ∀ w ∈ k.notifWaiter idx, F.notified w) : Act F c k (k.notifDeliver c idx bits)
  /-- The pending word of a notification is taken. -/
  | takeBits {k : Kernel} (idx : Nat) (notifies : F.notifies) : Act F c k { k with
        notifTable := update k.notifTable idx { k.notifTable idx with word := 0 } }
  | waitNotif {k : Kernel} {me : Slot} (idx : Nat) (watches : F.watches)
    (caller : F.caller = some me) :
      Act F c k (({ k with
        notifTable := update k.notifTable idx
          { k.notifTable idx with waiter := me.tid } } : Kernel).setState me .waitNotification)
  /-- The fault of the current thread is queued. -/
  | enqueue {k k' : Kernel} {me pager : Slot} {msg : FaultMsg} (faults : F.faults me)
      (current : k.current c = some me) (faulter : msg.faultingThread = me.tid)
      (lives : k.schedGetTcb (k.tcb me).pagerTid = some pager)
      (waits : (k.tcb me).state = .waitPagefault) (busy : ¬ k.accepts pager me.tid)
      (push : k.faultQueuePush msg = some k') : Act F c k k'
  | takeFault {k k' : Kernel} {me : Slot} {msg : FaultMsg} (caller : F.caller = some me)
      (take : k.vmTakeQueuedFault me = some (msg, k')) : Act F c k k'
  | edit {k : Kernel} {t : Slot} {f : Tcb → Tcb} (edit : Edit F c k t f) : Act F c k (k.modTcb t f)
  /-- The CPU goes to a thread whose wait is answered. -/
  | hand {k : Kernel} {t : Slot} {g : Uctx → Uctx} (may : F.answers) (answers : k.Answers t g) :
      Act F c k ((k.modUctx t g).schedDirectSwitch c t)
  /-- The caller parks on the queue of a thread. -/
  | park {k : Kernel} {me dest : Slot} (may : F.answers) (caller : F.caller = some me)
      (lives : k.schedGetTcb (k.tcb me).uctx.destTid = some dest) (ne : dest ≠ me)
      (accepts : ¬ k.accepts dest me.tid) : Act F c k (k.ipcPark me dest)
  /-- The caller takes a sender off its queue. -/
  | unlink {k : Kernel} {me s : Slot} {prev : Option Slot} {filter : Tid}
      (caller : F.caller = some me) (found : k.sendqScan me filter = some (some (prev, s))) :
      Act F c k (k.sendqUnlink me prev s)
  /-- The caller learns of a child that has ended. -/
  | reap {k : Kernel} {me z : Slot} {filter : Tid} {live : Bool} (reaps : F.reaps)
      (caller : F.caller = some me) (ne : F.live → z ≠ me)
      (found : k.schedFindZombieChild me.tid filter = (some z, live)) :
      Act F c k ((k.setState z .dead).modUctx me (childRegs z (k.tcb z).exitStatus))
  | ends {k k' : Kernel} {t : Slot} (ends : Ends F c k t k') : Act F c k k'
  /-- The scheduler picks a READY thread, or else the idle thread. -/
  | pick {k : Kernel} (next : Option Slot) (ready : ∀ t ∈ next, (k.tcb t).state = .ready) :
    Act F c k
        { (match next with
            | some t => k.setState t .running
            | none => k) with
          current := update k.current c next }

abbrev Acts (F : Effects) (c : Cpu) : Kernel → Kernel → Prop := Relation.ReflTransGen (Act F c)

/-! ## Sections with more effects -/

variable {F F' : Effects} {c : Cpu} {k k' : Kernel}

theorem Edit.mono {t : Slot} {f : Tcb → Tcb} (h : Edit F c k t f) (hle : F.CalmLe F') :
    Edit F' c k t f := by
  cases h with
  | own hc own => exact .own (hle.caller _ hc) own
  | regroup _ g => exact .regroup _ g
  | sleep tick may hc => exact .sleep tick (hle.answers may) (hle.caller _ hc)
  | console may hc => exact .console (hle.answers may) (hle.caller _ hc)
  | receive may hc found ha =>
    exact .receive (hle.answers may) (hle.caller _ hc) found (hle.awaits _ ha)
  | waitChild hr hc found => exact .waitChild (hle.reaps hr) (hle.caller _ hc) found
  | waitExec i may hc => exact .waitExec i (hle.answers may) (hle.caller _ hc)
  | stall hf current lives => exact .stall (hle.faults _ hf) current lives
  | yield may hc => exact .yield (hle.answers may) (hle.caller _ hc)
  | answer may answers => exact .answer (hle.answers may) answers
  | image image may awaits => exact .image image (hle.answers may) awaits
  | sent e ht parked done =>
    exact .sent e (hle.takes _ ht) (by rwa [hle.before (.inr ⟨_, ht⟩)]) done
  | sentReceive e ht parked more ha =>
    exact .sentReceive e (hle.takes _ ht) (by rwa [hle.before (.inr ⟨_, ht⟩)]) more
      (hle.awaits _ ha)
  | alarm sleeps => exact .alarm sleeps
  | resolve hc resumes => exact .resolve (hle.caller _ hc) resumes
  | signal mark hs => exact .signal mark (hle.signals _ hs)
  | create hm unused dead ne born =>
    exact .create (hle.creates hm) (by rwa [hle.before (.inl hm)]) dead ne born
  | adopt pgid sid uctx hm unused born lives =>
    exact .adopt pgid sid uctx (hle.creates hm) (by rwa [hle.before (.inl hm)]) born
      fun hl => lives (hle.live hl)
  | status status current runs => exact .status status current fun hl => runs (hle.live hl)
  | ack mark current runs => exact .ack mark current runs
  | handler mask actions rsp rip rdi current runs free =>
    exact .handler mask actions rsp rip rdi current runs free
  | preempt current runs => exact .preempt current runs

theorem Ends.mono {t : Slot} (h : Ends F c k t k') (hle : F.Le F') : Ends F' c k t k' := by
  cases h with
  | kill hk => exact .kill (hle.kills _ hk)
  | exitAlone hx current runs alone =>
    exact .exitAlone (hle.exits _ hx) current (fun hl => runs (hle.live hl)) alone
  | exitTold hx current runs lives waits =>
    exact .exitTold (hle.exits _ hx) current (fun hl => runs (hle.live hl)) lives waits
  | exitZombie hx current runs parent lives waits =>
    exact .exitZombie (hle.exits _ hx) current (fun hl => runs (hle.live hl)) parent lives waits

/-- An act ends a thread, delivers a notification, or needs the other effects only. -/
theorem Act.calm_or (h : Act F c k k') (hle : F.CalmLe F') :
    Act F' c k k' ∨ (∃ t, Ends F c k t k') ∨
      ∃ idx bits, F.notifies ∧ (∀ w ∈ k.notifWaiter idx, F.notified w) ∧
        k' = k.notifDeliver c idx bits := by
  cases h with
  | quiet alike => exact .inl (.quiet alike)
  | deadline tick => exact .inl (.deadline tick)
  | tick n ht => exact .inl (.tick n (hle.ticks ht))
  | arm n ha => exact .inl (.arm n (hle.arms ha))
  | timers table count => exact .inl (.timers table count)
  | slots slots => exact .inl (.slots slots)
  | services ext2fs pager => exact .inl (.services ext2fs pager)
  | caps kept =>
    exact .inl (.caps
      ⟨kept.keep, fun hi hkind => (kept.fresh hi hkind).imp_right (.imp_right (hle.grants _))⟩)
  | newNotification => exact .inl .newNotification
  | notify idx bits hn hw => exact .inr (.inr ⟨idx, bits, hn, hw, rfl⟩)
  | takeBits idx hn => exact .inl (.takeBits idx (hle.notifies hn))
  | waitNotif idx hw hc => exact .inl (.waitNotif idx (hle.watches hw) (hle.caller _ hc))
  | enqueue hf current faulter lives waits busy push =>
    exact .inl (.enqueue (hle.faults _ hf) current faulter lives waits busy push)
  | takeFault hc take => exact .inl (.takeFault (hle.caller _ hc) take)
  | edit edit => exact .inl (.edit (edit.mono hle))
  | hand may answers => exact .inl (.hand (hle.answers may) answers)
  | park may hc lives ne accepts =>
    exact .inl (.park (hle.answers may) (hle.caller _ hc) lives ne accepts)
  | unlink hc found => exact .inl (.unlink (hle.caller _ hc) found)
  | reap hr hc ne found =>
    exact .inl (.reap (hle.reaps hr) (hle.caller _ hc) (fun hl => ne (hle.live hl)) found)
  | ends ends => exact .inr (.inl ⟨_, ends⟩)
  | pick next ready => exact .inl (.pick next ready)

theorem Act.mono (h : Act F c k k') (hle : F.Le F') : Act F' c k k' := by
  rcases h.calm_or hle.toCalmLe with h | ⟨t, ends⟩ | ⟨idx, bits, hn, hw, rfl⟩
  · exact h
  · exact .ends (ends.mono hle)
  · exact .notify idx bits (hle.notifies hn) fun w h => hle.notified w (hw w h)

theorem Acts.mono (h : Acts F c k k') (hle : F.Le F') : Acts F' c k k' :=
  Relation.ReflTransGen.mono (fun _ _ (hact : Act F c _ _) => hact.mono hle) k k' h

end Kernel

end Robu

/-! ## Alike states -/

namespace Robu.Kernel

open Function (update)

variable {c : Cpu} {k k' k₁ k₂ : Kernel} {t : Slot} {β : Type} {u : TcbRef} {env : Env}
  {pagerTid : Tid}
variable {prio : Prio} {fill : Tcb → Tcb}

theorem SameTables.refl (k : Kernel) : k.SameTables k := ⟨rfl, rfl, rfl, rfl, rfl, rfl, rfl, rfl⟩

theorem SameTables.trans (h : k.SameTables k₁) (h' : k₁.SameTables k₂) : k.SameTables k₂ where
  nowTicks := h'.nowTicks.trans h.nowTicks
  armedTicks := h'.armedTicks.trans h.armedTicks
  kcapTable := h'.kcapTable.trans h.kcapTable
  notifTable := h'.notifTable.trans h.notifTable
  notifCount := h'.notifCount.trans h.notifCount
  faultEntries := h'.faultEntries.trans h.faultEntries
  faultHead := h'.faultHead.trans h.faultHead
  faultTail := h'.faultTail.trans h.faultTail

theorem Alike.refl (k : Kernel) : k.Alike k :=
  ⟨.refl k, fun _ => rfl, rfl, rfl, rfl, rfl, rfl, rfl, rfl⟩

theorem Alike.of_eq (h : k' = k) : k.Alike k' := h ▸ .refl k

theorem Alike.trans (h : k.Alike k₁) (h' : k₁.Alike k₂) : k.Alike k₂ where
  toSameTables := h.toSameTables.trans h'.toSameTables
  tcb i := (h'.tcb i).trans (h.tcb i)
  current := h'.current.trans h.current
  nextDeadline := h'.nextDeadline.trans h.nextDeadline
  timerTable := h'.timerTable.trans h.timerTable
  timerCount := h'.timerCount.trans h.timerCount
  execSlots := h'.execSlots.trans h.execSlots
  ext2fsTid := h'.ext2fsTid.trans h.ext2fsTid
  pagerOwnerTid := h'.pagerOwnerTid.trans h.pagerOwnerTid

theorem field_of_vital {x y : Tcb} (h : x.vital = y.vital) (π : Tcb → β)
    (hπ : ∀ x : Tcb, π x.vital = π x) : π x = π y := by
  rw [← hπ x, h, hπ]

theorem Alike.field (h : k.Alike k') (π : Tcb → β) (i : Slot)
    (hπ : ∀ x : Tcb, π x.vital = π x) : π (k'.tcb i) = π (k.tcb i) :=
  field_of_vital (h.tcb i) π hπ

theorem Alike.state (h : k.Alike k') (i : Slot) : (k'.tcb i).state = (k.tcb i).state :=
  h.field Tcb.state i fun _ => rfl

theorem alike_modTcb (k : Kernel) (u : TcbRef) {f : Tcb → Tcb}
    (hf : ∀ i : Slot, u = i → (f (k.tcb i)).vital = (k.tcb i).vital) : k.Alike (k.modTcb u f) := by
  refine { Alike.refl k with tcb := fun i => ?_ }
  rw [modTcb_tcb]
  split
  · rename_i hi; exact hf i hi.symm
  · rfl

/-- **Congruence.**  The same assignment to alike states. -/
theorem Alike.modTcb (h : k.Alike k') (u : TcbRef) {f : Tcb → Tcb}
    (hf : ∀ x : Tcb, (f x).vital = (f x.vital).vital) : (k.modTcb u f).Alike (k'.modTcb u f) := by
  refine { h with tcb := fun i => ?_ }
  rw [modTcb_tcb, modTcb_tcb]
  split
  · rw [hf, h.tcb i, ← hf]
  · exact h.tcb i

theorem modTcb_modTcb (k : Kernel) (u : TcbRef) (f g : Tcb → Tcb) :
    (k.modTcb u f).modTcb u g = k.modTcb u fun x => g (f x) := by
  simp only [Kernel.modTcb, Function.update_self, Function.update_idem]

theorem modTcb_congr (k : Kernel) {f g : Tcb → Tcb} (h : f (k.tcb u) = g (k.tcb u)) :
    k.modTcb u f = k.modTcb u g := by
  simp only [Kernel.modTcb, h]

/-- Assignments to two blocks, or to independent fields of one, commute. -/
theorem modTcb_comm (k : Kernel) {v : TcbRef} {f g : Tcb → Tcb}
    (h : u = v → g (f (k.tcb u)) = f (g (k.tcb u))) :
    (k.modTcb u f).modTcb v g = (k.modTcb v g).modTcb u f := by
  by_cases huv : u = v
  · subst huv
    rw [modTcb_modTcb, modTcb_modTcb]
    simp only [Kernel.modTcb, h rfl]
  · simp only [Kernel.modTcb, Function.update_of_ne huv, Function.update_of_ne (Ne.symm huv)]
    rw [Function.update_comm huv]

/-! ## The scheduler -/

theorem alike_requestResched (k : Kernel) (c : Cpu) :
    k.Alike (k.requestResched c) := { Alike.refl k with }

theorem alike_setQueued (k : Kernel) (t : Slot) (b : Bool) : k.Alike (k.setQueued t b) :=
  k.alike_modTcb t fun _ _ => rfl

theorem alike_setRqNext (k : Kernel) (t : Slot) (o : Option Slot) : k.Alike (k.setRqNext t o) :=
  k.alike_modTcb t fun _ _ => rfl

theorem Alike.queues (h : k.Alike k') (head tail : Prio → Option Slot) (bitmap : BitVec 32)
    (inbox : Option Slot) :
    k.Alike { k' with
      readyHead := head, readyTail := tail, readyBitmap := bitmap, wakeInbox := inbox } :=
  { h with }

theorem alike_rqPush (k : Kernel) (t : Slot) : k.Alike (k.rqPush t) := by
  unfold rqPush
  split
  · exact .refl k
  dsimp only
  have hq := k.alike_setQueued t true
  split
  · exact (hq.trans (alike_setRqNext _ _ _)).queues _ _ _ _
  · exact hq.queues _ _ _ _

theorem alike_rqUnlink (k : Kernel) (p : Prio) (prev : Option Slot) (t : Slot) :
    k.Alike (k.rqUnlink p prev t) := by
  unfold rqUnlink
  dsimp only
  cases prev with
  | none => exact ((Alike.refl k).queues _ _ _ _).trans (alike_setQueued _ _ _)
  | some b => exact ((k.alike_setRqNext b _).queues _ _ _ _).trans (alike_setQueued _ _ _)

theorem alike_drainFrom (fuel : Nat) (k : Kernel) (o : Option Slot) :
    k.Alike (drainFrom fuel k o) := by
  induction fuel generalizing k o with
  | zero => exact .refl k
  | succ fuel ih =>
    cases o with
    | none => exact .refl k
    | some t =>
      have hclear : k.Alike (k.modTcb t fun x => { x with inboxNext := none }) :=
        k.alike_modTcb t fun _ _ => rfl
      rw [drainFrom]
      split
      · exact (hclear.trans (alike_rqPush _ t)).trans (ih _ _)
      · exact hclear.trans (ih _ _)

theorem alike_drainInbox (k : Kernel) : k.Alike k.drainInbox :=
  ((Alike.refl k).queues _ _ _ _).trans (alike_drainFrom _ _ _)

theorem alike_rqPopLoop {fuel : Nat} {o : Option Slot} (h : rqPopLoop fuel k = some (o, k')) :
    k.Alike k' ∧ ∀ t ∈ o, (k'.tcb t).state = .ready := by
  induction fuel generalizing k with
  | zero => cases h
  | succ fuel ih =>
    unfold rqPopLoop at h
    split at h
    · cases h
      exact ⟨.refl _, by simp⟩
    rename_i p _
    split at h
    · cases h
    rename_i t _
    have hunlink := alike_rqUnlink k p none t
    dsimp only at h
    split at h
    · rename_i hready
      cases h
      refine ⟨hunlink, fun u hu => ?_⟩
      cases hu
      exact hready
    · exact ⟨hunlink.trans (ih h).1, (ih h).2⟩

theorem alike_schedSwitchTo (k : Kernel) (c : Cpu) (src dst : TcbRef) :
    k.Alike (k.schedSwitchTo c src dst) := by
  unfold schedSwitchTo
  split
  · exact .refl k
  · exact
      { k.alike_modTcb src (f := fun x => { x with fpuState := (k.hw c).fpu }) fun _ _ => rfl with }

theorem alike_schedTickLocal (k : Kernel) (c : Cpu) (n : Word) :
    k.Alike (k.schedTickLocal c n) := by
  unfold schedTickLocal
  split
  · exact .refl k
  rename_i cur _
  have hmod : k.Alike (k.modTcb cur fun x =>
      { x with timesliceLeft := x.timesliceLeft - (n.setWidth 32).toInt }) :=
    k.alike_modTcb cur fun _ _ => rfl
  dsimp only
  split
  · exact hmod.trans (alike_requestResched _ c)
  · exact hmod

/-- **Wake.**  A thread that is asleep becomes READY. -/
theorem alike_schedWake (k : Kernel) (c : Cpu) (t : Slot) :
    (k.modTcb t fun x => { x with state := if k.Asleep t then .ready else x.state }).Alike
      (k.schedWake c t) := by
  by_cases ha : k.Asleep t
  · simp only [ha, if_true]
    obtain ⟨flags, ⟨-, hwake⟩ | ⟨-, hwake⟩⟩ := schedWake_of_asleep ha c
    · rw [hwake]
      exact { Alike.refl (k.setState t .ready) with }
    · rw [hwake]
      exact { alike_modTcb (k.setState t .ready) t
        (f := fun x => { x with inboxNext := (k.setState t .ready).wakeInbox }) fun _ _ =>
          rfl with }
  · rw [schedWake_of_not_asleep ha]
    refine .of_eq ?_
    simp only [ha, if_false, Kernel.modTcb, Function.update_eq_self]

theorem alike_schedWake_of_asleep (ha : k.Asleep t) :
    (k.setState t .ready).Alike (k.schedWake c t) := by
  have hwake := k.alike_schedWake c t
  simp only [ha, if_true] at hwake
  exact hwake

theorem asleep_modUctx (k : Kernel) (u : TcbRef) (g : Uctx → Uctx) (t : Slot) :
    (k.modUctx u g).Asleep t ↔ k.Asleep t := by
  have hst : ((k.modUctx u g).tcb t).state = (k.tcb t).state :=
    congrFun (k.view_modTcb_frame u rfl) t
  rw [Asleep, Asleep, hst]

theorem alike_modTcb_schedWake {f : Tcb → Tcb} (ha : (k.modTcb t f).Asleep t) :
    (k.modTcb t fun x => { f x with state := .ready }).Alike ((k.modTcb t f).schedWake c t) := by
  have hwake := alike_schedWake_of_asleep (c := c) ha
  rwa [setState, modTcb_modTcb] at hwake

theorem alike_modUctx_schedWake (g : Uctx → Uctx) (ha : k.Asleep t) :
    (k.modTcb t fun x => { x with uctx := g x.uctx, state := .ready }).Alike
      ((k.modUctx t g).schedWake c t) :=
  alike_modTcb_schedWake ((k.asleep_modUctx t g t).mpr ha)

theorem Answers.asleep {g : Uctx → Uctx} (h : k.Answers t g) : k.Asleep t := by
  unfold Asleep
  cases h with
  | message _ _ h => rw [h.1]; decide
  | fault _ h => rw [h.1]; decide
  | request _ _ _ h => rw [h.1]; decide
  | interrupt h => rw [h]; decide
  | exec _ _ h => rw [h.1]; decide
  | spawn _ _ _ h => rw [h.1]; decide

/-! ## Lookup -/

theorem schedGetTcb_tid (k : Kernel) (t : Slot) : k.schedGetTcb t.tid =
    if t = 0 ∨ (k.tcb t).state = .dead ∨ (k.tcb t).state = .zombie then none else some t := by
  have hnat : (t.tid).toNat = t.val := by
    simp only [Slot.tid, BitVec.toNat_ofNat]
    omega
  have hlt : (t.tid).toNat < 64 := by omega
  have ht : (⟨(t.tid).toNat, hlt⟩ : Slot) = t := Fin.ext hnat
  unfold schedGetTcb
  rw [dif_pos hlt]
  dsimp only
  rw [ht]

theorem mem_tableSlots {t : Slot} : t ∈ tableSlots ↔ t ≠ 0 := by
  revert t
  decide

theorem firstDead_spec (h : k.firstDead = some t) : (k.tcb t).state = .dead ∧ t ≠ 0 := by
  unfold firstDead at h
  refine ⟨by simpa using List.find?_some h, mem_tableSlots.mp (List.mem_of_find?_eq_some h)⟩

theorem createThread_spec (h : k.createThread prio fill = some (t, k')) : k.firstDead = some t ∧
      (k.modTcb t fun _ => { fill (k.freshTcb t prio) with state := .ready }).Alike k' := by
  obtain ⟨hd, rfl⟩ := createThread_eq h
  refine ⟨hd, ?_⟩
  have hpush := alike_rqPush
    (((k.modTcb t fun _ => k.freshTcb t prio).modTcb t fill).setState t .ready) t
  rw [setState, modTcb_modTcb, modTcb_modTcb] at hpush
  rwa [schedReadyNow, setState, modTcb_modTcb, modTcb_modTcb]

theorem elfLoadAndSpawnReq_eq (h : k.elfLoadAndSpawnReq env prio pagerTid = some (t, k')) :
    ∃ image : Image, k.createThread prio (fun x =>
      { x with
        addressSpace := image.addressSpace, pagerTid := pagerTid, uctx := image.uctx }) =
          some (t, k') := by
  unfold elfLoadAndSpawnReq at h
  split at h
  · cases h
  · exact ⟨_, h⟩

theorem faultQueuePush_eq_some {msg : FaultMsg} (h : k.faultQueuePush msg = some k') :
    k.faultHead + 1 ≠ k.faultTail ∧ k' = { k with
      faultEntries := update k.faultEntries k.faultHead msg
      faultHead := k.faultHead + 1 } := by
  unfold faultQueuePush at h
  split at h
  · cases h
  · rename_i hfull
    exact ⟨hfull, (Option.some.inj h).symm⟩

theorem vmTakeQueuedFault_eq_some {rcv : Slot} {msg : FaultMsg}
    (h : k.vmTakeQueuedFault rcv = some (msg, k')) :
    k.faultHead ≠ k.faultTail ∧ k' = { k with faultTail := k.faultTail + 1 } := by
  unfold vmTakeQueuedFault at h
  split at h
  · cases h
  rename_i hne
  dsimp only at h
  split at h
  · cases h
  split at h
  · cases h
  · cases h
    exact ⟨hne, rfl⟩

end Robu.Kernel
