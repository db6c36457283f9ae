import Robu.Core.Exclusive
import Robu.Kernel.RefineTrap

/-!
# Single execution

Outside the kernel every CPU is in its idle thread or in a running thread, and no thread
is on two CPUs.  The core invariant `Core.Exclusive` says the same while a section runs;
between sections it is `SingleExec`.
-/

namespace Robu

namespace Kernel

variable {k k' : Kernel} {l : Label} {c : Cpu}

/-- Each thread is current on at most one CPU, and is running there. -/
structure SingleExec (k : Kernel) : Prop where
  once : ∀ {c d t}, k.current c = some t → k.current d = some t → c = d
  running : ∀ {c t}, k.current c = some t → (k.tcb (.thread t)).state = .running

theorem SingleExec.curRuns (h : k.SingleExec) (c : Cpu) : k.CurRuns c := fun _ ht => h.running ht

theorem SingleExec.exclusive (h : k.SingleExec) (l : Label) (c : Cpu) :
    (k.opened l).core.Exclusive c := by
  rw [opened_frame]
  exact ⟨fun _ ht => h.running ht, fun hd he => h.once hd he⟩

/-- **Step.**  A section that completes no send of a running thread keeps single
execution. -/
theorem SingleExec.step (h : k.SingleExec) (hok : ¬ k.takesRunning l) (hs : k.step l = some k') :
    k'.SingleExec := by
  obtain ⟨hsteps, hcur⟩ := refines h.curRuns hs
  have hx : k'.core.Exclusive l.cpu := (h.exclusive l l.cpu).steps hok hsteps
  refine ⟨fun hd he => hx.inj hd he, fun {c t} ht => ?_⟩
  rcases eq_or_ne c l.cpu with rfl | hc
  · exact hcur t ht
  · exact hx.running hc ht

theorem SingleExec.boot (untypedBase untypedSize : Word) (fpuDefault : FpuState) :
    (boot untypedBase untypedSize fpuDefault).SingleExec := by
  constructor
  · intro c d t h
    cases h
  · intro c t h
    cases h

/-- In every run in which no receive takes a running thread off its send queue, threads
execute singly. -/
theorem singleExec_of_not_takesRunning (h : Reachable (fun k l => ¬ k.takesRunning l) k) :
    k.SingleExec := by
  refine h.invariant (I := SingleExec) ?_ ?_
  · rintro k ⟨base, size, fpu, rfl⟩
    exact SingleExec.boot base size fpu
  · intro k l k' hk hok hs
    exact hk.step hok hs

end Kernel

/-! ## Runs -/

namespace Label

def spawn (addressSpace : Word) : Label := .kern 0 (.threadCreateUser 0 0 5 addressSpace 0)

def call (c : Cpu) (rdi rsi rdx : Word) : Label :=
  .trap c { frame := { vector := 0x30, rdi := rdi, rsi := rsi, rdx := rdx }, ctx := ⟨0, 0⟩ }

def send (c : Cpu) (dest : Word) : Label := call c dest 0 0

def sendRecv (c : Cpu) (dest : Word) : Label := call c dest 0 2

def recv (c : Cpu) : Label := call c 0 0 2

def yield (c : Cpu) : Label := call c 0 0 0

def kill (c : Cpu) (target signum : Word) : Label :=
  .trap c
    { frame := { vector := 0x30, rdx := 0x800000, r8 := 6, r9 := target, r10 := signum }
      ctx := ⟨0, 0⟩ }

end Label

namespace Kernel

/-- Three threads on two CPUs: thread 1 sends to thread 3 and receives, thread 3 receives
and answers. -/
def pingRun : List Label :=
  [.spawn 0x1000, .spawn 0x2000, .spawn 0x3000, .start 0, .start 1, .sendRecv 0 3, .recv 0,
    .send 0 1, .yield 1]

theorem singleExec_pingRun :
    ∃ k, Lib.run step (fun k l => ¬ k.takesRunning l) (boot 0 0 0) pingRun = some k ∧
      k.SingleExec := by
  have hsome : (Lib.run step (fun k l => ¬ k.takesRunning l) (boot 0 0 0) pingRun).isSome := by
    decide +kernel
  obtain ⟨k, hk⟩ := Option.isSome_iff_exists.mp hsome
  exact ⟨k, hk, singleExec_of_not_takesRunning (.of_run (.init ⟨0, 0, 0, rfl⟩) hk)⟩

/-- Thread 1 parks on the queue of thread 3 with a send-and-receive.  Thread 2 signals it,
so it becomes ready and runs on CPU 1 although it is still on the queue.  Thread 3 receives
its message, which makes it wait, and sends it one, which makes it current on CPU 0. -/
def signalledSenderRun : List Label :=
  [.spawn 0x1000, .spawn 0x2000, .spawn 0x3000, .start 0, .start 1, .sendRecv 0 3, .kill 1 1 17,
    .yield 1, .recv 0, .send 0 1]

/-- After `signalledSenderRun` thread 1 is current on two CPUs. -/
theorem not_singleExec_signalledSenderRun :
    ¬ ∀ k, Reachable (fun _ _ => True) k → k.SingleExec := by
  intro h
  obtain ⟨k, hk, h₀, h₁⟩ : ∃ k, Reachable (fun _ _ => True) k ∧ k.current 0 = some 1 ∧
    k.current 1 = some 1 :=
    Lib.observed signalledSenderRun ⟨0, 0, 0, rfl⟩ (by decide +kernel)
  exact absurd ((h k hk).once h₀ h₁) (by decide)

end Kernel

end Robu
