import Robu.Kernel.Ipc
import Robu.Lib.Lifo
import Robu.Lib.Run

/-!
# The core of the kernel

What the invariants of threads as a whole depend on is a small part of the state: the
state of each thread, who it waits for, the send queues, and where the FPU and FS
context of each thread is.  `Core` is that part, and `Core.Step` lists what a kernel
section can do to it.  A step is made on one CPU, on behalf of the thread that is
current there.

The kernel refines this system: every kernel section is a sequence of steps
(`Robu.Kernel.Refine`).  The invariants of the system are proved on the steps, once
for each of them.

Some steps are not harmless.  They are allowed only in a `Scope` that says so, and a
theorem about a system without them is a theorem about sections in whose scope they
do not occur.
-/

namespace Robu

open Function (update update_apply update_of_ne update_self)

/-- Threads, send queues and contexts. -/
@[ext]
structure Core where
  state : Slot → ThreadState
  /-- `ipc_partner` -/
  partner : Slot → Tid
  /-- `ipc_recv_after` -/
  recvAfter : Slot → Tid
  /-- The send queue of each thread, linked through `sq_next`. -/
  sq : Lib.Queues Slot Slot
  /-- The saved context of each control block. -/
  ctx : TcbRef → Ctx
  /-- The current thread of each CPU, or its idle thread. -/
  current : Cpu → Option Slot
  /-- The context in the registers of each CPU. -/
  hw : Cpu → Ctx
  /-- The CPU has entered its first thread. -/
  started : Cpu → Bool

structure Scope where
  /-- It wakes or kills a thread that is parked on a send queue. -/
  hitsParked : Prop
  /-- It completes the send of a thread that is running. -/
  takesRunning : Prop
  /-- It lets a completed sender wait although its own send queue holds a match. -/
  missesSender : Prop
  /-- It hands the CPU to another thread without a context switch. -/
  handsOver : Prop
  /-- It lets the scheduler pick the next thread. -/
  schedules : Prop
  /-- The entries of the thread table it may create threads in. -/
  unused : Slot → Prop

def Scope.still (F : Scope) : Scope := { F with handsOver := False, schedules := False }

namespace Core

variable (s : Core) (c : Cpu)

/-! ## Operations -/

def cur : TcbRef :=
  match s.current c with
  | some i => .thread i
  | none => .idle c

def Runs (me : Slot) : Prop := s.current c = some me ∧ s.state me = .running

def Asleep (t : Slot) : Prop :=
  s.state t ≠ .dead ∧ s.state t ≠ .running ∧ s.state t ≠ .zombie
deriving Decidable

/-- A thread blocked in a receive accepts a message from `sender`. -/
def Accepts (rcv : Slot) (sender : Tid) : Prop :=
  s.state rcv = .waitRecv ∧ (s.partner rcv = ipcTidAny ∨ s.partner rcv = sender)

def search (rcv : Slot) (filter : Tid) : Option (Option (Option Slot × Slot)) :=
  Lib.scan s.sq.next (Kernel.passes filter) 65 none (s.sq.head rcv)

def setState (t : Slot) (st : ThreadState) : Core :=
  { s with state := update s.state t st }

def wake (t : Slot) : Core := if s.Asleep t then s.setState t .ready else s

def receive (me : Slot) (filter : Tid) : Core :=
  { s.setState me .waitRecv with partner := update s.partner me filter }

def park (me dest : Slot) (recvAfter : Tid) : Core :=
  { s.setState me .waitSend with
    partner := update s.partner me dest.tid
    recvAfter := update s.recvAfter me recvAfter
    sq := s.sq.push dest me }

/-- Complete the send of `x`: it goes on to receive if it asked to, else it is woken. -/
def complete (x : Slot) : Core :=
  if s.recvAfter x ≠ noRecvAfter then
    { s.setState x .waitRecv with
      partner := update s.partner x (s.recvAfter x)
      recvAfter := update s.recvAfter x noRecvAfter }
  else s.wake x

/-- Take the sender `x` off the send queue of `me` and complete its send. -/
def take (me : Slot) (prev : Option Slot) (x : Slot) : Core :=
  ({ s with sq := s.sq.unlink me prev x } : Core).complete x

/-- The threads that a walk over the send queue of `t` meets. -/
def senders (t : Slot) : List Slot := Lib.walk 65 s.sq.next (s.sq.head t)

def die (t : Slot) (final : ThreadState) : Core :=
  { s with
    state := fun u =>
      if u ∈ s.senders t ∧ (s.setState t final).Asleep u then .ready
      else update s.state t final u
    sq :=
      { next := fun u => if u ∈ s.senders t then none else s.sq.next u
        head := update s.sq.head t none
        tail := update s.sq.tail t none } }

def create (t : Slot) (ctx : Ctx) : Core :=
  { s.setState t .ready with
    partner := update s.partner t 0
    recvAfter := update s.recvAfter t 0
    sq := (s.sq.clear t).setNext t none
    ctx := update s.ctx t ctx }

def handOver (dest : Slot) : Core :=
  { s.setState dest .running with current := update s.current c (some dest) }

def requeued : Slot → ThreadState :=
  match s.current c with
  | none => s.state
  | some p => if s.state p = .running then update s.state p .ready else s.state

def dispatch (next : Option Slot) : Core :=
  { s with
    state := match next with
      | none => s.requeued c
      | some t => update (s.requeued c) t .running
    current := update s.current c next }

/-- Save the context of `src` and load the one of the current thread. -/
def switch (src : TcbRef) : Core :=
  if s.cur c = src then s
  else
    let ctx := update s.ctx src ⟨(s.hw c).fpu, (s.ctx src).fs⟩
    let dst := ctx (s.cur c)
    let fs := if dst.fs ≠ (ctx src).fs then dst.fs else (s.hw c).fs
    { s with ctx := ctx, hw := update s.hw c ⟨dst.fpu, fs⟩ }

def resched (next : Option Slot) : Core := (s.dispatch c next).switch c (s.cur c)

def load : Core :=
  { s with
    hw := update s.hw c (s.ctx (s.cur c))
    started := update s.started c true }

def begin (next : Option Slot) : Core := (s.dispatch c next).load c

@[simp] theorem setState_self (t : Slot) (st : ThreadState) : (s.setState t st).state t = st :=
  update_self ..

theorem setState_of_ne {t u : Slot} (h : u ≠ t) (st : ThreadState) :
    (s.setState t st).state u = s.state u := update_of_ne h ..

/-- Waking changes the state of a thread that is asleep, and nothing else. -/
theorem wake_eq (t : Slot) : s.wake t =
    { s with state := fun u => if u = t ∧ s.Asleep t then .ready else s.state u } := by
  unfold wake
  split
  · rename_i h
    refine Core.ext (funext fun u => ?_) rfl rfl rfl rfl rfl rfl rfl
    rcases eq_or_ne u t with rfl | hu
    · simp [setState, h]
    · simp [setState, hu]
  · rename_i h
    refine Core.ext (funext fun u => ?_) rfl rfl rfl rfl rfl rfl rfl
    simp [h]

theorem asleep_wake (t u : Slot) : (s.wake t).Asleep u ↔ s.Asleep u := by
  have hst : (s.wake t).state u = if u = t ∧ s.Asleep t then .ready else s.state u := by
    rw [wake_eq]
  by_cases h : u = t ∧ s.Asleep t
  · rw [if_pos h] at hst
    obtain ⟨rfl, ha⟩ := h
    refine ⟨fun _ => ha, fun _ => ?_⟩
    simp [Asleep, hst]
  · rw [if_neg h] at hst
    rw [Asleep, Asleep, hst]

theorem switch_frame (src : TcbRef) :
    (s.switch c src).sq = s.sq ∧ (s.switch c src).state = s.state ∧
      (s.switch c src).partner = s.partner ∧ (s.switch c src).current = s.current ∧
      (s.switch c src).started = s.started := by
  unfold Core.switch
  split <;> exact ⟨rfl, rfl, rfl, rfl, rfl⟩

theorem resched_spec (next : Option Slot) : (s.resched c next).current c = next ∧
    (∀ t ∈ next, (s.resched c next).state t = .running) ∧
      (s.resched c next).started = s.started := by
  obtain ⟨-, hst, -, hcur, hstarted⟩ := (s.dispatch c next).switch_frame c (s.cur c)
  refine ⟨(congrFun hcur c).trans (update_self ..), fun t ht => ?_, hstarted⟩
  obtain rfl : next = some t := ht
  exact (congrFun hst t).trans (update_self ..)

theorem Runs.wake {s : Core} {c : Cpu} {me : Slot} (h : s.Runs c me) (t : Slot) :
    (s.wake t).Runs c me := by
  unfold Core.wake
  split
  · rename_i ha
    have hne : me ≠ t := fun heq => ha.2.1 (heq ▸ h.2)
    exact ⟨h.1, (s.setState_of_ne hne _).trans h.2⟩
  · exact h

end Core

/-! ## Steps -/

variable {F : Scope} {c : Cpu} {s s' : Core}

/-- One step of a kernel section on CPU `c`. -/
inductive Core.Step (F : Scope) (c : Cpu) : Core → Core → Prop
  | wake {s : Core} {t : Slot} (asleep : s.Asleep t) (hit : s.state t = .waitSend → F.hitsParked) :
      Step F c s (s.setState t .ready)
  /-- The current thread stops running, but not for a message. -/
  | block {s : Core} {me : Slot} {why : ThreadState} (runs : s.Runs c me)
      (send : why ≠ .waitSend) (recv : why ≠ .waitRecv) : Step F c s (s.setState me why)
  /-- The current thread waits for a message, having found none. -/
  | receive {s : Core} {me : Slot} {filter : Tid} (runs : s.Runs c me)
      (found : s.search me filter = some none) : Step F c s (s.receive me filter)
  /-- The current thread parks on the queue of a thread that does not accept its message. -/
  | park {s : Core} {me dest : Slot} {recvAfter : Tid} (runs : s.Runs c me)
      (accepts : ¬ s.Accepts dest me.tid) : Step F c s (s.park me dest recvAfter)
  /-- The current thread receives from a parked sender. -/
  | take {s : Core} {me x : Slot} {prev : Option Slot} {filter : Tid} (runs : s.Runs c me)
      (found : s.search me filter = some (some (prev, x)))
      (running : s.state x = .running → F.takesRunning)
      (missed : s.recvAfter x ≠ noRecvAfter → s.search x (s.recvAfter x) ≠ some none →
        F.missesSender) : Step F c s (s.take me prev x)
  /-- The CPU goes to a thread that waited for a message. -/
  | handOver {s : Core} {dest : Slot} (waits : s.state dest = .waitRecv) (hands : F.handsOver) :
      Step F c s (s.handOver c dest)
  | exit {s : Core} {me : Slot} {final : ThreadState} (runs : s.Runs c me)
      (ends : final = .dead ∨ final = .zombie) : Step F c s (s.die me final)
  | kill {s : Core} {t : Slot} (asleep : s.Asleep t)
      (hit : s.state t = .waitSend → F.hitsParked) : Step F c s (s.die t .dead)
  | reap {s : Core} {t : Slot} (zombie : s.state t = .zombie) : Step F c s (s.setState t .dead)
  | create {s : Core} {t : Slot} {ctx : Ctx} (dead : s.state t = .dead)
      (other : s.current c ≠ some t) (unused : F.unused t) : Step F c s (s.create t ctx)
  /-- The CPU goes to a READY thread, or else to its idle thread. -/
  | resched {s : Core} {next : Option Slot} (schedules : F.schedules) (started : s.started c = true)
      (ready : ∀ t ∈ next, s.requeued c t = .ready) : Step F c s (s.resched c next)
  | begin {s : Core} {next : Option Slot} (schedules : F.schedules) (started : s.started c = false)
      (ready : ∀ t ∈ next, s.requeued c t = .ready) : Step F c s (s.begin c next)

abbrev Core.Steps (F : Scope) (c : Cpu) : Core → Core → Prop :=
    Relation.ReflTransGen (Core.Step F c)

namespace Core

theorem Step.steps (h : Step F c s s') : Steps F c s s' := .single h

theorem Step.of_still (h : Step F.still c s s') : Step F c s s' := by
  cases h with
  | wake asleep hit => exact .wake asleep hit
  | block runs send recv => exact .block runs send recv
  | receive runs found => exact .receive runs found
  | park runs accepts => exact .park runs accepts
  | take runs found running missed => exact .take runs found running missed
  | handOver _ hands => exact hands.elim
  | exit runs ends => exact .exit runs ends
  | kill asleep hit => exact .kill asleep hit
  | reap zombie => exact .reap zombie
  | create dead other unused => exact .create dead other unused
  | resched schedules => exact schedules.elim
  | begin schedules => exact schedules.elim

theorem Steps.of_still (h : Steps F.still c s s') : Steps F c s s' :=
  Relation.ReflTransGen.mono (fun _ _ => Step.of_still) _ _ h

/-- **Frame rule.**  A section that keeps the CPU changes no current thread. -/
theorem Steps.still_frame (h : Steps F.still c s s') :
    s'.current = s.current ∧ s'.started = s.started := by
  refine h.invariant (I := fun s' => s'.current = s.current ∧ s'.started = s.started) ?_ ⟨rfl, rfl⟩
  rintro s₁ s₂ ⟨hc, hs⟩ hst
  rw [← hc, ← hs]
  cases hst with
  | take =>
    unfold Core.take Core.complete Core.wake
    split
    · exact ⟨rfl, rfl⟩
    · split <;> exact ⟨rfl, rfl⟩
  | handOver _ hands => exact hands.elim
  | resched schedules => exact schedules.elim
  | begin schedules => exact schedules.elim
  | wake | block | receive | park | exit | kill | reap | create => exact ⟨rfl, rfl⟩

theorem Steps.started {d : Cpu} (h : Steps F c s s') (hs : s.started d = true) :
    s'.started d = true := by
  refine h.invariant (I := fun s' => s'.started d = true) ?_ hs
  intro s₁ s₂ hs hst
  cases hst with
  | take =>
    unfold Core.take Core.complete Core.wake
    split
    · exact hs
    · split <;> exact hs
  | resched =>
    rw [(s₁.resched_spec c _).2.2]
    exact hs
  | begin =>
    show update s₁.started c true d = true
    rw [update_apply, hs, ite_self]
  | wake | block | receive | park | handOver | exit | kill | reap | create => exact hs

theorem Steps.wake {t : Slot} (hit : s.state t = .waitSend → F.hitsParked) :
    Steps F c s (s.wake t) := by
  unfold Core.wake
  split
  · rename_i ha
    exact (Step.wake ha hit).steps
  · exact .refl

end Core

end Robu
