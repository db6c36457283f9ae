import Robu.Kernel.State

/-!
# The scheduler

The functions of `sched.c` that do not end a thread: the ready queues, the wake
inbox, blocking and direct switches, thread creation, and the choice of the next
thread.

Loops that follow links carry fuel.  Those of `drain_inbox` and `rq_pop_highest`
clear each link they follow, so they stop over any links; `drainFrom` has more fuel
than there are links.  In `rq_pop_highest` a set bitmap bit over a null head makes
the code dereference the null pointer; that outcome is `none`.
-/

namespace Robu.Kernel

open Function (update)

/-! ## Ready queues -/

def setRqNext (k : Kernel) (t : Slot) (v : Option Slot) : Kernel :=
  k.modTcb t fun x => { x with rqNext := v }

def setQueued (k : Kernel) (t : Slot) (flag : Bool) : Kernel :=
  k.modTcb t fun x => { x with inReadyQ := flag, rqNext := none }

def rqPush (k : Kernel) (t : Slot) : Kernel :=
  if (k.tcb t).inReadyQ then k
  else
    let p := (k.tcb t).prio
    let k₁ := k.setQueued t true
    let k₂ := match k₁.readyTail p with
      | some b => k₁.setRqNext b (some t)
      | none => { k₁ with readyHead := update k₁.readyHead p (some t) }
    { k₂ with
      readyTail := update k₂.readyTail p (some t)
      readyBitmap := k₂.readyBitmap ||| 1#32 <<< p.val }

def rqUnlink (k : Kernel) (p : Prio) (prev : Option Slot) (t : Slot) : Kernel :=
  let k₁ := match prev with
    | some b => k.setRqNext b (k.tcb t).rqNext
    | none => { k with readyHead := update k.readyHead p (k.tcb t).rqNext }
  let k₂ := { k₁ with
    readyTail := if k₁.readyTail p = some t then update k₁.readyTail p prev
      else k₁.readyTail
    readyBitmap := if k₁.readyHead p = none then k₁.readyBitmap &&& ~~~(1#32 <<< p.val)
      else k₁.readyBitmap }
  k₂.setQueued t false

/-- `31 - __builtin_clz(bitmap)`, the highest set bit; `none` for an empty bitmap. -/
def highestBit (bitmap : BitVec 32) : Option Prio :=
  (List.finRange 32).reverse.find? fun p => bitmap.getLsbD p.val

def rqPopLoop : Nat → Kernel → Option (Option Slot × Kernel)
  | 0, _ => none
  | fuel + 1, k =>
    match highestBit k.readyBitmap with
    | none => some (none, k)
    | some p =>
      match k.readyHead p with
      | none => none
      | some t =>
        let k₁ := k.rqUnlink p none t
        if (k₁.tcb t).state = .ready then some (some t, k₁) else rqPopLoop fuel k₁

/-- `rq_pop_highest`.  Each turn clears a bitmap bit or a link, so 97 turns suffice. -/
def rqPopHighest (k : Kernel) : Option (Option Slot × Kernel) := rqPopLoop 97 k

/-! ## Waking and blocking -/

def inboxPush (k : Kernel) (t : Slot) : Kernel :=
  { k.modTcb t (fun x => { x with inboxNext := k.wakeInbox }) with wakeInbox := some t }

/-- `sched_wake`.  The loop over the other CPUs at the end of the function only sends
kick interrupts, which the model lets arrive at any time. -/
def schedWake (k : Kernel) (c : Cpu) (t : Slot) : Kernel :=
  let s := (k.tcb t).state
  if s = .dead ∨ s = .running ∨ s = .zombie then k
  else if s = .ready ∧ (k.tcb t).inReadyQ then k
  else
    let k₁ := k.setState t .ready
    let k₂ := if (k₁.tcb t).inReadyQ then k₁ else k₁.inboxPush t
    if (k₂.tcb (k₂.cur c)).prio < (k₂.tcb t).prio then k₂.requestResched c else k₂

def Asleep (k : Kernel) (t : Slot) : Prop :=
  (k.tcb t).state ≠ .dead ∧ (k.tcb t).state ≠ .running ∧ (k.tcb t).state ≠ .zombie
deriving Decidable

theorem asleep_of_state {k : Kernel} {t : Slot} {s : ThreadState} (h : (k.tcb t).state = s)
    (hs : s ≠ .dead ∧ s ≠ .running ∧ s ≠ .zombie) : k.Asleep t := by
  rwa [Asleep, h]

theorem schedWake_of_not_asleep {k : Kernel} {t : Slot} (h : ¬ k.Asleep t) (c : Cpu) :
    k.schedWake c t = k := by
  unfold Asleep at h
  simp only [schedWake]
  split
  · rfl
  · grind

/-- **Wake.**  A thread that is asleep becomes READY and is pushed on the inbox, unless it
is on a ready queue. -/
theorem schedWake_of_asleep {k : Kernel} {t : Slot} (h : k.Asleep t) (c : Cpu) : ∃ flags,
    (k.tcb t).inReadyQ = true ∧
      k.schedWake c t = { k.setState t .ready with needResched := flags } ∨
      (k.tcb t).inReadyQ = false ∧
        k.schedWake c t = { (k.setState t .ready).inboxPush t with needResched := flags } := by
  have hs : ¬ ((k.tcb t).state = .dead ∨ (k.tcb t).state = .running ∨
    (k.tcb t).state = .zombie) := by
    simpa [Asleep] using h
  have hq : ((k.setState t .ready).tcb t).inReadyQ = (k.tcb t).inReadyQ := by simp [setState]
  simp only [schedWake, hs, if_false, hq]
  split
  · -- a READY thread on a queue: nothing to do
    rename_i hready
    refine ⟨k.needResched, .inl ⟨hready.2, ?_⟩⟩
    simp only [setState, modTcb, ← hready.1, Function.update_eq_self]
  cases (k.tcb t).inReadyQ with
  | true =>
    simp only [if_true]
    split <;> exact ⟨_, .inl ⟨trivial, rfl⟩⟩
  | false =>
    simp only [Bool.false_eq_true, if_false]
    split <;> exact ⟨_, .inr ⟨trivial, rfl⟩⟩

def drainFrom : Nat → Kernel → Option Slot → Kernel
  | 0, k, _ => k
  | _ + 1, k, none => k
  | fuel + 1, k, some t =>
    let next := (k.tcb t).inboxNext
    let k₁ := k.modTcb t fun x => { x with inboxNext := none }
    let k₂ := if (k₁.tcb t).state = .ready then k₁.rqPush t else k₁
    drainFrom fuel k₂ next

/-- `drain_inbox`.  The loop clears the links it follows, so it visits at most one
block more than there are blocks. -/
def drainInbox (k : Kernel) : Kernel :=
  drainFrom 65 { k with wakeInbox := none } k.wakeInbox

def schedReadyNow (k : Kernel) (t : Slot) : Kernel :=
  (k.setState t .ready).rqPush t

def schedDirectSwitch (k : Kernel) (c : Cpu) (dest : Slot) : Kernel :=
  { k.setState dest .running with current := update k.current c (some dest) }

def schedBlock (k : Kernel) (cur : Slot) (why : ThreadState) : Kernel :=
  k.setState cur why

def schedGetTcb (k : Kernel) (tid : Tid) : Option Slot :=
  if h : tid.toNat < 64 then
    let i : Slot := ⟨tid.toNat, h⟩
    if i = 0 ∨ (k.tcb i).state = .dead ∨ (k.tcb i).state = .zombie then none else some i
  else none

/-- The indices `1 ≤ i < SCHED_MAX_THREADS`, in the order of the loops over the table. -/
def tableSlots : List Slot := (List.finRange 64).tail

def schedNoteDeadline (k : Kernel) (tick : Word) : Kernel :=
  if tick < k.nextDeadline then { k with nextDeadline := tick } else k

/-- The earlier of two ticks. -/
theorem earlier_le (x y : Word) : (if x < y then x else y) ≤ x ∧ (if x < y then x else y) ≤ y := by
  split
  · rename_i hlt
    exact ⟨BitVec.le_refl _, BitVec.le_of_lt hlt⟩
  · rename_i hle
    exact ⟨BitVec.not_lt.mp hle, BitVec.le_refl _⟩

/-- A deadline that is noted writes the next deadline, which comes no later than before. -/
theorem schedNoteDeadline_eq (k : Kernel) (tick : Word) :
    ∃ d, k.schedNoteDeadline tick = { k with nextDeadline := d } ∧ d ≤ tick ∧
      d ≤ k.nextDeadline := by
  refine ⟨_, ?_, earlier_le tick k.nextDeadline⟩
  unfold schedNoteDeadline
  split <;> rfl

def schedSleep (k : Kernel) (c : Cpu) (cur : Slot) (ticks : Word) : Kernel :=
  if ticks = 0 then k.requestResched c
  else
    let wakeAt := k.nowTicks + ticks
    let k₁ := k.modTcb cur fun x => { x with wakeAtTick := wakeAt }
    (k₁.setState cur .sleeping).schedNoteDeadline wakeAt

/-! ## Thread creation -/

/-- The entry `alloc_tcb` takes: the first dead one. -/
def firstDead (k : Kernel) : Option Slot :=
  tableSlots.find? fun i : Slot => (k.tcb i).state = .dead

/-- The control block `alloc_tcb` leaves in entry `i`. -/
def freshTcb (k : Kernel) (i : Slot) (prio : Prio) : Tcb :=
  { prio := prio, pgid := i.tid, sid := i.tid
    timesliceLeft := schedTimesliceTicks, fpuState := k.fpuDefault }

def allocTcb (k : Kernel) (prio : Prio) : Option (Slot × Kernel) :=
  match k.firstDead with
  | none => none
  | some i => some (i, k.modTcb i fun _ => k.freshTcb i prio)

def createThread (k : Kernel) (prio : Prio) (fill : Tcb → Tcb) : Option (Slot × Kernel) :=
  match k.allocTcb prio with
  | none => none
  | some (t, k₁) => some (t, (k₁.modTcb t fill).schedReadyNow t)

theorem createThread_eq {k k' : Kernel} {prio : Prio} {fill : Tcb → Tcb} {t : Slot}
    (h : k.createThread prio fill = some (t, k')) : k.firstDead = some t ∧
      k' = ((k.modTcb t fun _ => k.freshTcb t prio).modTcb t fill).schedReadyNow t := by
  unfold createThread allocTcb at h
  cases hd : k.firstDead with
  | none => simp [hd] at h
  | some i =>
    simp only [hd, Option.some.injEq, Prod.mk.injEq] at h
    obtain ⟨rfl, rfl⟩ := h
    exact ⟨rfl, rfl⟩

def threadCreate (k : Kernel) (entry stackTop : Word) (prio : Prio) : Option (Slot × Kernel) :=
  k.createThread prio fun x => { x with uctx := archUctxInit entry stackTop }

def threadCreateUserLocked (k : Kernel) (entry userStackTop : Word)
    (prio : Prio) (addressSpace : Word) (pagerTid : Tid) : Option (Slot × Kernel) :=
  k.createThread prio fun x =>
    { x with
      addressSpace := addressSpace, pagerTid := pagerTid
      uctx := archUctxInitUser entry userStackTop }

structure Image where
  entry : Word
  stackTop : Word
  addressSpace : Word
  argc : Word
  argv : Word
  envp : Word
  heapBase : Word
  spawnInfo : Word
deriving DecidableEq

/-- `arch_uctx_init_user_argv` for a loaded image. -/
def Image.uctx (i : Image) : Uctx :=
  archUctxInitUserArgv i.entry i.stackTop i.argc i.argv i.envp i.heapBase i.spawnInfo

def threadCreateUserArgvLocked (k : Kernel) (image : Image)
    (prio : Prio) (pagerTid : Tid) : Option (Slot × Kernel) :=
  k.createThread prio fun x =>
    { x with
      addressSpace := image.addressSpace, pagerTid := pagerTid, uctx := image.uctx }

def threadCreateForkedLocked (k : Kernel) (addressSpace : Word)
    (pagerTid : Tid) (prio : Prio) (parent : Slot) : Option (Slot × Kernel) :=
  k.createThread prio fun x =>
    { x with
      addressSpace := addressSpace, pagerTid := pagerTid
      uctx := (k.tcb parent).uctx, fsBase := (k.tcb parent).fsBase
      fpuState := (k.tcb parent).fpuState }

/-! ## Choosing the next thread -/

/-- The part of `schedule` that puts the current thread back: the idle thread is on no
queue, and a thread that blocked or died stays off it. -/
def requeueCurrent (k : Kernel) (c : Cpu) : Kernel :=
  match k.current c with
  | none => k.setState (.idle c) .ready
  | some prev =>
    let k₁ := if (k.tcb prev).state = .running then k.setState prev .ready else k
    if (k₁.tcb prev).state = .ready then k₁.rqPush prev else k₁

def refreshTimeslice (k : Kernel) (t : TcbRef) : Kernel :=
  k.modTcb t fun x =>
    { x with
      timesliceLeft := if x.timesliceLeft ≤ 0 then schedTimesliceTicks else x.timesliceLeft }

/-- The part of `schedule` that makes the thread popped, or else the idle thread, current. -/
def dispatch (k : Kernel) (c : Cpu) (popped : Option Slot) : Kernel :=
  let next : TcbRef := match popped with
    | some t => .thread t
    | none => .idle c
  let k₁ := (k.setState next .running).refreshTimeslice next
  { k₁ with
    current := update k₁.current c popped
    needResched := update k₁.needResched c false }

def schedule (k : Kernel) (c : Cpu) : Option Kernel :=
  match (k.drainInbox.requeueCurrent c).rqPopHighest with
  | none => none
  | some (popped, k₁) => some (k₁.dispatch c popped)

def schedArmNextDeadline (k : Kernel) (c : Cpu) : Kernel :=
  let left := (k.tcb (k.cur c)).timesliceLeft
  let n₀ : Word := match k.current c with
    | none => schedMaxArmTicks
    | some _ => if 0 < left then BitVec.ofInt 64 left else 1
  let n₁ := if c = 0 ∧ k.nextDeadline ≠ BitVec.allOnes 64 then
      let sleeperTicks := if k.nowTicks < k.nextDeadline then k.nextDeadline - k.nowTicks else 1
      if sleeperTicks < n₀ then sleeperTicks else n₀
    else n₀
  let n₂ := if schedMaxArmTicks < n₁ then schedMaxArmTicks else n₁
  let n₃ := if n₂ < 1 then 1 else n₂
  { k with armedTicks := update k.armedTicks c n₃ }

/-- `sched_switch_to`.  `arch_vm_activate` only loads a page-table root. -/
def schedSwitchTo (k : Kernel) (c : Cpu) (src dst : TcbRef) : Kernel :=
  if dst = src then k
  else
    -- fxsave into the thread left, then fxrstor from the thread entered
    let k₁ := k.modTcb src fun x => { x with fpuState := (k.hw c).fpu }
    let fs := if (k₁.tcb dst).fsBase ≠ (k₁.tcb src).fsBase then (k₁.tcb dst).fsBase
      else (k₁.hw c).fs
    { k₁ with hw := update k₁.hw c ⟨(k₁.tcb dst).fpuState, fs⟩ }

/-- `sched_start` and `sched_join_ap`: a CPU enters its first thread. -/
def schedStart (k : Kernel) (c : Cpu) : Option Kernel :=
  match k.schedule c with
  | none => none
  | some k₁ =>
    let k₂ := { k₁ with
      hw := update k₁.hw c (k₁.savedCtx (k₁.cur c))
      started := update k₁.started c true }
    some (k₂.schedArmNextDeadline c)

end Robu.Kernel
