import Robu.Kernel.Tcb

/-!
# The kernel state

One flat record with the static variables of `sched.c`, `ipc.c`, `captable.c`,
`untyped.c`, `vm.c`, `execreq.c` and `fpu.c`, the per-CPU current thread, and the two pieces
of hardware context the kernel switches by hand: the FPU/SSE registers and the FS
base of each CPU.

`current_thread` of a CPU is either an entry of the thread table or the idle thread
of that very CPU, so it is an `Option Slot` whose `none` is the own idle thread.

The kernel runs its sections under one lock, so a function that changes the state
is a function on `Kernel`; the CPU it runs on is passed as an argument where the
source asks `this_cpu()`.
-/

namespace Robu

/-! ## Objects of the capability table -/

inductive CapKind
  | untyped | frame | addrspace | tcb | notification | timer | invalid
deriving DecidableEq

/-- The kind a number names; other numbers reach the `default` branch of `cap_retype`. -/
def CapKind.decode : Nat → Option CapKind
  | 0 => some .untyped
  | 1 => some .frame
  | 2 => some .addrspace
  | 3 => some .tcb
  | 4 => some .notification
  | 5 => some .timer
  | 6 => some .invalid
  | _ => none

structure Kcap where
  kind : CapKind
  owner : Tid
  addr : Word
  size : Word
  mappedVa : Word := 0
deriving DecidableEq

structure Notification where
  word : Word := 0
  waiter : Tid := 0
  inUse : Bool := false
deriving DecidableEq

structure TimerObj where
  inUse : Bool := false
  armed : Bool := false
  deadlineTick : Word := 0
  notifIdx : Int := 0
  signalBits : Word := 0
  periodTicks : Word := 0
deriving DecidableEq

/-! ## Page faults and frame capabilities -/

/-- `vm_fault_msg_t` -/
structure FaultMsg where
  faultAddress : Word := 0
  errorCode : BitVec 32 := 0
  faultingThread : Tid := 0
deriving DecidableEq

structure FrameCap where
  baseFrame : Word
  frameCount : Word
  permissions : BitVec 32
  owner : Tid
deriving DecidableEq

/-! ## Exec requests -/

inductive ExecreqState
  | empty | queued | delivered | pollDone
deriving DecidableEq

/-- `execreq_params_t`.  The argument vectors and descriptors are left out: only the
program loader reads them. -/
structure ExecreqParams where
  requesterTid : Tid := 0
  isSpawnCreate : Bool := false
  name : List (BitVec 8) := []
  prio : Prio := 0
  pagerTid : Tid := 0
deriving DecidableEq

structure ExecreqSlot where
  state : ExecreqState := .empty
  generation : BitVec 16 := 0
  params : ExecreqParams := {}
  pollChild : Option Slot := none
deriving DecidableEq

/-! ## The state -/

/-- The FPU/SSE registers and the FS base, in a CPU or saved in a control block. -/
structure Ctx where
  fpu : FpuState
  fs : Word
deriving DecidableEq

/-- The kernel's static variables and the hardware context of each CPU. -/
structure Kernel where
  tcb : TcbRef → Tcb
  readyHead : Prio → Option Slot
  readyTail : Prio → Option Slot
  readyBitmap : BitVec 32
  wakeInbox : Option Slot
  needResched : Cpu → Bool
  nowTicks : Word
  armedTicks : Cpu → Word
  nextDeadline : Word
  current : Cpu → Option Slot
  hw : Cpu → Ctx
  started : Cpu → Bool
  fpuDefault : FpuState
  consoleWriterTid : Tid
  consoleDriverTid : Tid
  consoleFgPgid : Fin 6 → Tid
  consoleReadWaiter : Fin 6 → Tid
  pagerOwnerTid : Tid
  hwDriverTid : Tid
  hwDriverSecondaryTids : Fin 4 → Tid
  hwPortIoSecondaryTids : Fin 4 → Tid
  pciCfgSecondaryTid : Tid
  kcapTable : List Kcap
  kcapCapacity : Nat
  notifTable : Nat → Notification
  notifCount : Nat
  timerTable : Nat → TimerObj
  timerCount : Nat
  untypedBase : Word
  untypedSize : Word
  untypedWatermark : Word
  frameCaps : List FrameCap
  faultEntries : Fin 16 → FaultMsg
  faultHead : Fin 16
  faultTail : Fin 16
  execSlots : Fin 8 → ExecreqSlot
  ext2fsTid : Tid

namespace Kernel

def cur (k : Kernel) (c : Cpu) : TcbRef :=
  match k.current c with
  | some i => .thread i
  | none => .idle c

def modTcb (k : Kernel) (t : TcbRef) (f : Tcb → Tcb) : Kernel :=
  { k with tcb := Function.update k.tcb t (f (k.tcb t)) }

def modUctx (k : Kernel) (t : TcbRef) (f : Uctx → Uctx) : Kernel :=
  k.modTcb t fun x => { x with uctx := f x.uctx }

/-- Store a status in the `rax` of a saved frame. -/
def setRax (k : Kernel) (t : TcbRef) (e : IpcErr) : Kernel :=
  k.modUctx t fun f => { f with rax := e.toWord }

def setState (k : Kernel) (t : TcbRef) (s : ThreadState) : Kernel :=
  k.modTcb t fun x => { x with state := s }

def requestResched (k : Kernel) (c : Cpu) : Kernel :=
  { k with needResched := Function.update k.needResched c true }

@[simp] theorem requestResched_tcb (k : Kernel) (c : Cpu) : (k.requestResched c).tcb = k.tcb := rfl

@[simp] theorem modTcb_tcb_self (k : Kernel) (t : TcbRef) (f : Tcb → Tcb) :
    (k.modTcb t f).tcb t = f (k.tcb t) := Function.update_self ..

theorem modTcb_tcb_of_ne (k : Kernel) {t u : TcbRef} (h : u ≠ t) (f : Tcb → Tcb) :
    (k.modTcb t f).tcb u = k.tcb u := Function.update_of_ne h ..

theorem modTcb_tcb (k : Kernel) (t u : TcbRef) (f : Tcb → Tcb) :
    (k.modTcb t f).tcb u = if u = t then f (k.tcb u) else k.tcb u := by
  by_cases h : u = t
  · subst h; rw [if_pos rfl, modTcb_tcb_self]
  · rw [if_neg h, modTcb_tcb_of_ne k h]

/-! ## Views of the thread table -/

def view {β : Type} (k : Kernel) (π : Tcb → β) (i : Slot) : β := π (k.tcb i)

theorem view_congr {β : Type} {k k' : Kernel} (h : k'.tcb = k.tcb) (π : Tcb → β) :
    k'.view π = k.view π := by
  unfold view; rw [h]

theorem view_modTcb {β : Type} (k : Kernel) (i : Slot) (f : Tcb → Tcb) (π : Tcb → β) :
    (k.modTcb i f).view π = Function.update (k.view π) i (π (f (k.tcb i))) := by
  funext j
  rcases eq_or_ne j i with rfl | hj
  · simp [view]
  · rw [Function.update_of_ne hj, view, view, k.modTcb_tcb_of_ne (by simpa using hj)]

theorem view_modTcb_frame {β : Type} (k : Kernel) (t : TcbRef) {f : Tcb → Tcb} {π : Tcb → β}
    (h : π (f (k.tcb t)) = π (k.tcb t)) : (k.modTcb t f).view π = k.view π := by
  funext j
  by_cases hj : TcbRef.thread j = t
  · subst hj; simp [view, h]
  · rw [view, view, k.modTcb_tcb_of_ne hj]

def savedCtx (k : Kernel) (t : TcbRef) : Ctx := ⟨(k.tcb t).fpuState, (k.tcb t).fsBase⟩

/-- The state at the end of `sched_init`, with the region `untyped_init` was given and
the FPU image captured at start-up: every entry of the table is dead and every CPU
has its idle thread. -/
def boot (untypedBase untypedSize : Word) (fpuDefault : FpuState) : Kernel where
  tcb
    | .thread _ => { state := .dead }
    | .idle _ => { state := .ready, uctx := archUctxInit 0 0 }
  readyHead _ := none
  readyTail _ := none
  readyBitmap := 0
  wakeInbox := none
  needResched _ := false
  nowTicks := 0
  armedTicks _ := 0
  nextDeadline := BitVec.allOnes 64
  current _ := none
  hw _ := ⟨0, 0⟩
  started _ := false
  fpuDefault := fpuDefault
  consoleWriterTid := 0
  consoleDriverTid := 0
  consoleFgPgid _ := 0
  consoleReadWaiter _ := 0
  pagerOwnerTid := 0
  hwDriverTid := 0
  hwDriverSecondaryTids _ := 0
  hwPortIoSecondaryTids _ := 0
  pciCfgSecondaryTid := 0
  kcapTable := []
  kcapCapacity := 0
  notifTable _ := {}
  notifCount := 0
  timerTable _ := {}
  timerCount := 0
  untypedBase := untypedBase
  untypedSize := untypedSize
  untypedWatermark := 0
  frameCaps := []
  faultEntries _ := {}
  faultHead := 0
  faultTail := 0
  execSlots _ := {}
  ext2fsTid := 0

/-- The initial states: `sched_init` has run. -/
def IsBoot (k : Kernel) : Prop :=
  ∃ untypedBase untypedSize fpuDefault, k = boot untypedBase untypedSize fpuDefault

end Kernel

end Robu
