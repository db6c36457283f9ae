import Mathlib.Data.BitVec
import Mathlib.Data.Fintype.Basic
import Mathlib.Tactic.Common

/-!
# Thread control blocks

The data model of `include/robu/tcb.h`, `arch/x86_64/include/context.h` and the
constants of `include/robu/sched.h` and `include/robu/ipc.h`.

A control block is addressed by a `TcbRef`: an entry of `thread_table` or the idle
thread of a CPU.  The field `tid` is not stored: `sched_init` writes the index of
each entry into it and `alloc_tcb` puts the same value back after clearing the
entry, so the tid of an entry is the function `Slot.tid` of its index.  The idle
threads keep the zero of their static storage.

Left out are the fields no modelled function reads: `name`, the kernel stack
bounds, and `last_cpu` together with the scheduler statistics it feeds.
-/

namespace Robu

abbrev Word := BitVec 64

/-- `tid_t`: thread ids travel through the kernel as 32-bit values. -/
abbrev Tid := BitVec 32

/-- A CPU number, below `MAX_CPUS`. -/
abbrev Cpu := Fin 16

/-- A priority, below `SCHED_PRIO_LEVELS`: every creator of a thread passes a
constant below 32 or the priority of an existing thread. -/
abbrev Prio := Fin 32

/-- An index into `thread_table`, below `SCHED_MAX_THREADS`. -/
abbrev Slot := Fin 64

-- Numerals of the index types find these by name, with no proof to unfold.
instance neZero_eight : NeZero 8 := ⟨by decide⟩
instance neZero_sixteen : NeZero 16 := ⟨by decide⟩
instance neZero_thirtyTwo : NeZero 32 := ⟨by decide⟩
instance neZero_sixtyFour : NeZero 64 := ⟨by decide⟩
instance Slot.lawfulBEq : LawfulBEq Slot := inferInstance

abbrev FpuState := BitVec 4096

/-! ## Constants -/

def schedTimesliceTicks : Nat := 5

def schedMaxArmTicks : Word := 500

def ipcTidAny : Tid := 0

/-- `(tid_t)~0u`, the value of `ipc_recv_after` that asks for no receive. -/
def noRecvAfter : Tid := BitVec.allOnes 32

/-- The status codes `IPC_ERR_*` as they are stored in `rax`. -/
inductive IpcErr
  | none | notFound | timeout | canceled | noCap | wouldblock | noMem | exists_ | noSpace
  | invalid | blocked | notSupported
deriving DecidableEq

def IpcErr.toWord : IpcErr → Word
  | .none => 0
  | .notFound => BitVec.ofInt 64 (-1)
  | .timeout => BitVec.ofInt 64 (-2)
  | .canceled => BitVec.ofInt 64 (-3)
  | .noCap => BitVec.ofInt 64 (-4)
  | .wouldblock => BitVec.ofInt 64 (-5)
  | .noMem => BitVec.ofInt 64 (-6)
  | .exists_ => BitVec.ofInt 64 (-7)
  | .noSpace => BitVec.ofInt 64 (-8)
  | .invalid => BitVec.ofInt 64 (-9)
  | .blocked => BitVec.ofInt 64 (-10)
  | .notSupported => BitVec.ofInt 64 (-11)

/-- `thread_state_t`, in the order of the enumeration. -/
inductive ThreadState
  | running | ready | waitRecv | waitSend | waitPagefault | sleeping | waitNotification
  | dead | zombie | waitChild | waitConsole | waitExecreq
deriving DecidableEq

/-- The number of a thread state, as `sched_thread_info` reports it. -/
def ThreadState.toWord : ThreadState → Word
  | .running => 0
  | .ready => 1
  | .waitRecv => 2
  | .waitSend => 3
  | .waitPagefault => 4
  | .sleeping => 5
  | .waitNotification => 6
  | .dead => 7
  | .zombie => 8
  | .waitChild => 9
  | .waitConsole => 10
  | .waitExecreq => 11

/-! ## Register frames -/

/-- `arch_uctx_t`, the saved user register frame. -/
structure Uctx where
  r15 : Word := 0
  r14 : Word := 0
  r13 : Word := 0
  r12 : Word := 0
  r11 : Word := 0
  r10 : Word := 0
  r9 : Word := 0
  r8 : Word := 0
  rbp : Word := 0
  rdi : Word := 0
  rsi : Word := 0
  rdx : Word := 0
  rcx : Word := 0
  rbx : Word := 0
  rax : Word := 0
  vector : Word := 0
  error : Word := 0
  rip : Word := 0
  cs : Word := 0
  rflags : Word := 0
  rsp : Word := 0
  ss : Word := 0
deriving DecidableEq

/-- `msg_regs_t`, the six words of a message. -/
structure MsgRegs where
  word0 : Word := 0
  word1 : Word := 0
  word2 : Word := 0
  word3 : Word := 0
  word4 : Word := 0
  word5 : Word := 0
deriving DecidableEq

def payloadFromFrame (f : Uctx) : MsgRegs :=
  { word0 := f.r8, word1 := f.r9, word2 := f.r10, word3 := f.r12, word4 := f.r13, word5 := f.r14 }

def payloadToFrame (f : Uctx) (m : MsgRegs) : Uctx :=
  { f with
    r8 := m.word0, r9 := m.word1, r10 := m.word2, r12 := m.word3, r13 := m.word4, r14 := m.word5 }

def archUctxInit (entry stackTop : Word) : Uctx :=
  { rip := entry, cs := 0x08, ss := 0x10, rsp := (stackTop &&& ~~~0xF) - 8, rflags := 0x202 }

def archUctxInitUser (entry userStackTop : Word) : Uctx :=
  { rip := entry, cs := 0x1B, ss := 0x23, rsp := userStackTop &&& ~~~0xF, rflags := 0x202 }

def archUctxInitUserArgv (entry userStackTop argc argv envp heapBase spawnInfo : Word) : Uctx :=
  { archUctxInitUser entry userStackTop with
    rdi := argc, rsi := argv, rdx := envp, rcx := heapBase, r8 := spawnInfo }

structure SigAction where
  handler : Word := 0
  flags : Word := 0
  mask : Word := 0
deriving DecidableEq

/-! ## Control blocks -/

/-- A control block: an entry of `thread_table`, or the idle thread of a CPU. -/
inductive TcbRef
  | thread (i : Slot)
  | idle (c : Cpu)
deriving DecidableEq

instance : Coe Slot TcbRef := ⟨TcbRef.thread⟩

/-- The `tid` field of an entry of the thread table. -/
def Slot.tid (i : Slot) : Tid := BitVec.ofNat 32 i.val

theorem Slot.tid_inj {i j : Slot} (h : i.tid = j.tid) : i = j := by
  have h' := congrArg BitVec.toNat h
  simp only [Slot.tid, BitVec.toNat_ofNat] at h'
  exact Fin.ext (by omega)

/-- `tcb_t`.  The default values are those of a cleared block.  The three link
fields and the send queue only ever hold entries of the thread table: the idle
threads are pushed on no queue. -/
structure Tcb where
  state : ThreadState := .running
  prio : Prio := 0
  inReadyQ : Bool := false
  timesliceLeft : Int := 0
  wakeAtTick : Word := 0
  exitStatus : BitVec 32 := 0
  uctx : Uctx := {}
  fpuState : FpuState := 0
  fsBase : Word := 0
  addressSpace : Word := 0
  ipcPartner : Tid := 0
  ipcRecvAfter : Tid := 0
  ipcFlags : BitVec 32 := 0
  ipcBuffer : MsgRegs := {}
  pagerTid : Tid := 0
  parentTid : Tid := 0
  waitFilter : Tid := 0
  execreqSlot : BitVec 32 := 0
  pgid : Tid := 0
  sid : Tid := 0
  sigPending : Word := 0
  sigMask : Word := 0
  sigActions : Fin 64 → SigAction := fun _ => {}
  inSigHandler : Bool := false
  savedUctxBeforeSig : Uctx := {}
  savedSigMask : Word := 0
  rqNext : Option Slot := none
  sqNext : Option Slot := none
  inboxNext : Option Slot := none
  sendQHead : Option Slot := none
  sendQTail : Option Slot := none

end Robu
