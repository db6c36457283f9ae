import Robu.Kernel.Sched

/-!
# The capability table, notifications and timers

The functions of `captable.c` and `untyped.c`, except `cap_destroy`, which ends a
thread.

Parts of the kernel outside this model (page tables, frame allocator, program loader,
console device, pipes, sockets, shared memory) take part in a system call only through
what they return.  `Env` is the record of these answers for one kernel section; every
theorem is about all of them.
-/

namespace Robu

open Function (update)

/-- The registers a service outside the model may store into the caller's frame. -/
structure Reply where
  rax : Word := 0
  r8 : Word := 0
  r9 : Word := 0
  r10 : Word := 0
  r12 : Word := 0
  r13 : Word := 0
  r14 : Word := 0
deriving DecidableEq

def Uctx.reply (f : Uctx) (r : Reply) : Uctx :=
  { f with
    rax := r.rax, r8 := r.r8, r9 := r.r9, r10 := r.r10, r12 := r.r12, r13 := r.r13, r14 := r.r14 }

/-- The answers of the subsystems outside the model during one kernel section. -/
structure Env where
  /-- `arch_vm_translate` of `ROOT_OWN_FRAME_VA` in the caller's address space. -/
  translate : Word := 0
  /-- `arch_vm_map_page` returns 0. -/
  mapPageOk : Bool := true
  /-- `vm_address_space_create` -/
  createAs : Word := 0
  /-- `vm_address_space_clone` -/
  cloneAs : Word := 0
  /-- `pmm_alloc` -/
  pmmAlloc : Word := 0
  /-- `vm_xfer_pages` or `vm_share_pages` returns 0. -/
  pagesMoved : Bool := true
  /-- The program name of the copied spawn request, if it passes every check. -/
  spawnName : Option (List (BitVec 8)) := none
  /-- `rootfs_lookup` finds the program. -/
  inRootfs : Bool := false
  /-- The loader's result up to the creation of the thread. -/
  load : Option Kernel.Image := none
  /-- `shm_copy_out`: the number of bytes copied, if it succeeds. -/
  shmCopied : Option Word := none
  /-- `arch_console_read_line_bytes`: the length and the words of a line, if there is one. -/
  consoleLine : Option Reply := none
  /-- What any other service stores into the caller's registers. -/
  reply : Reply := {}

namespace Kernel

/-! ## Untyped memory and the capability table -/

/-- The size that `untyped_alloc` takes: whole pages, and one at least. -/
def untypedAligned (size : Word) : Word :=
  let rounded := (size + 0xFFF) &&& ~~~0xFFF
  if rounded = 0 then 0x1000 else rounded

/-- `untyped_alloc`; the address 0 is a failure. -/
def untypedAlloc (k : Kernel) (size : Word) : Word × Kernel :=
  if k.untypedSize < k.untypedWatermark + untypedAligned size then (0, k)
  else
    (k.untypedBase + k.untypedWatermark,
      { k with untypedWatermark := k.untypedWatermark + untypedAligned size })

def nextCapacity (k : Kernel) : Nat := if k.kcapCapacity = 0 then 128 else k.kcapCapacity * 2

/-- `new_cap * sizeof(kcap_t)` -/
def nextTableSize (k : Kernel) : Word := BitVec.ofNat 64 (k.nextCapacity * 32)

/-- `kcap_grant`; `none` when the table cannot grow. -/
def kcapGrant (k : Kernel) (owner : Tid) (kind : CapKind) (addr size : Word) : Option Kernel :=
  let entry : Kcap := { kind := kind, owner := owner, addr := addr, size := size }
  if k.kcapTable.length < k.kcapCapacity then some { k with kcapTable := k.kcapTable ++ [entry] }
  else
    let (table, k₁) := k.untypedAlloc k.nextTableSize
    if table = 0 then none
    else some { k₁ with kcapTable := k₁.kcapTable ++ [entry], kcapCapacity := k.nextCapacity }

def validate (k : Kernel) (caller : Tid) (slot : BitVec 32) (wantKind : CapKind) : Option Kcap :=
  match k.kcapTable[slot.toNat]? with
  | none => none
  | some cap => if cap.owner ≠ caller ∨ cap.kind ≠ wantKind then none else some cap

def kcapInvalidateTcbDeath (k : Kernel) (tid : Tid) : Kernel :=
  { k with kcapTable := k.kcapTable.map fun cap =>
      if cap.kind = .tcb ∧ cap.addr = tid.setWidth 64 then { cap with kind := .invalid } else cap }

def rootOwnFrameVa : Word := 0x71000000

def grantObject (k : Kernel) (caller : Tid) (kind : CapKind)
    (addr size mappedVa : Word) : Option (Word × Word) × Kernel :=
  match k.kcapGrant caller kind addr size with
  | none => (none, k)
  | some k₁ =>
    let slot := k₁.kcapTable.length - 1
    (some (BitVec.ofNat 64 slot, addr),
      { k₁ with
        kcapTable := k₁.kcapTable.modify slot fun cap => { cap with mappedVa := mappedVa } })

/-- `cap_retype`.  The first component is the slot and address returned, or `none` for
the error; what a failing call did before it failed stays done. -/
def capRetype (k : Kernel) (env : Env) (caller : Tid) (untypedSlot kind : BitVec 32)
    (asSlot entry stack frameSlot : Word) : Option (Word × Word) × Kernel :=
  match k.validate caller untypedSlot .untyped, k.schedGetTcb caller with
  | some _, some _ =>
    match CapKind.decode kind.toNat with
    | some .frame =>
      let (frame, k₁) := k.untypedAlloc 0x1000
      if frame = 0 then (none, k₁)
      else if env.translate = 0 then
        if env.mapPageOk then k₁.grantObject caller .frame frame 0x1000 rootOwnFrameVa
        else (none, k₁)
      else k₁.grantObject caller .frame frame 0x1000 0
    | some .addrspace =>
      let (obj, k₁) := k.untypedAlloc 0x1000
      if obj = 0 ∨ env.createAs = 0 then (none, k₁)
      else k₁.grantObject caller .addrspace env.createAs 0 0
    | some .tcb =>
      match k.validate caller (asSlot.setWidth 32) .addrspace,
          k.validate caller (frameSlot.setWidth 32) .frame with
      | some asCap, some _ =>
        let (obj, k₁) := k.untypedAlloc 0x1000
        if obj = 0 ∨ ¬ env.mapPageOk then (none, k₁)
        else
          match k₁.threadCreateUserLocked entry stack 5 asCap.addr 1 with
          | none => (none, k₁)
          | some (t, k₂) => k₂.grantObject caller .tcb ((t.tid).setWidth 64) 0 0
      | _, _ => (none, k)
    | some .notification =>
      if 16 ≤ k.notifCount then (none, k)
      else
        let (obj, k₁) := k.untypedAlloc 0x1000
        if obj = 0 then (none, k₁)
        else
          let idx := k₁.notifCount
          let k₂ := { k₁ with
            notifCount := idx + 1
            notifTable := update k₁.notifTable idx { inUse := true } }
          k₂.grantObject caller .notification (BitVec.ofNat 64 idx) 0 0
    | some .timer =>
      if 16 ≤ k.timerCount then (none, k)
      else
        let (obj, k₁) := k.untypedAlloc 0x1000
        if obj = 0 then (none, k₁)
        else
          let idx := k₁.timerCount
          let k₂ := { k₁ with
            timerCount := idx + 1
            timerTable := update k₁.timerTable idx { inUse := true, notifIdx := -1 } }
          k₂.grantObject caller .timer (BitVec.ofNat 64 idx) 0 0
    | _ => (none, k)
  | _, _ => (none, k)

/-- `cap_revoke_frame`; the unmapping happens outside the model. -/
def capRevokeFrame (k : Kernel) (caller : Tid) (frameSlot : BitVec 32) : Option Kernel :=
  match k.validate caller frameSlot .frame with
  | none => none
  | some cap =>
    if cap.mappedVa = 0 ∨ k.schedGetTcb caller = none then none
    else
      some { k with kcapTable := k.kcapTable.modify frameSlot.toNat fun cap =>
        { cap with kind := .invalid } }

/-! ## Notifications -/

def notifDeliver (k : Kernel) (c : Cpu) (idx : Nat) (bits : Word) : Kernel :=
  let word := (k.notifTable idx).word ||| bits
  let waiter := (k.notifTable idx).waiter
  let put (k : Kernel) (n : Notification) : Kernel :=
    { k with notifTable := update k.notifTable idx n }
  if waiter = 0 then put k { k.notifTable idx with word := word }
  else
    let k₁ := match k.schedGetTcb waiter with
      | none => k
      | some w =>
        (k.modUctx w fun f => { f with r8 := word, rax := IpcErr.none.toWord }).schedWake c w
    put k₁ { k.notifTable idx with word := 0, waiter := 0 }

/-- `cap_notif_signal`; `none` is the error. -/
def capNotifSignal (k : Kernel) (c : Cpu) (caller : Tid) (slot : BitVec 32) (bits : Word) :
    Option Kernel :=
  (k.validate caller slot .notification).map fun cap => k.notifDeliver c cap.addr.toNat bits

/-- `cap_notif_wait_begin`: `none` is the error, `some bits` a pending word taken, and
`some 0` the caller registered as the waiter. -/
def capNotifWaitBegin (k : Kernel) (caller : Tid) (slot : BitVec 32) : Option Word × Kernel :=
  match k.validate caller slot .notification with
  | none => (none, k)
  | some cap =>
    let n := k.notifTable cap.addr.toNat
    let put (n : Notification) : Kernel :=
      { k with notifTable := update k.notifTable cap.addr.toNat n }
    if n.word ≠ 0 then (some n.word, put { n with word := 0 })
    else (some 0, put { n with waiter := caller })

/-- `cap_notif_poll`: `none` is the missing capability, `some 0` the empty word. -/
def capNotifPoll (k : Kernel) (caller : Tid) (slot : BitVec 32) : Option Word × Kernel :=
  match k.validate caller slot .notification with
  | none => (none, k)
  | some cap =>
    let n := k.notifTable cap.addr.toNat
    (some n.word, if n.word = 0 then k
      else { k with
        notifTable := update k.notifTable cap.addr.toNat { n with word := 0 } })

def notifInvalidateWaiterDeath (k : Kernel) (tid : Tid) : Kernel :=
  { k with notifTable := fun i =>
      if i < k.notifCount ∧ (k.notifTable i).waiter = tid then
        { k.notifTable i with waiter := 0 }
      else k.notifTable i }

/-! ## Timers -/

def capTimerArm (k : Kernel) (caller : Tid) (timerSlot notifSlot : BitVec 32)
    (ticksFromNow bits periodTicks : Word) : Option Kernel :=
  match k.validate caller timerSlot .timer, k.validate caller notifSlot .notification with
  | some timerCap, some notifCap =>
    let deadline := k.nowTicks + (if ticksFromNow < 1 then 1 else ticksFromNow)
    let idx := timerCap.addr.toNat
    let k₁ := { k with
      timerTable := update k.timerTable idx
        { k.timerTable idx with
          armed := true, deadlineTick := deadline, notifIdx := (notifCap.addr.setWidth 32).toInt
          signalBits := bits, periodTicks := periodTicks } }
    some (k₁.schedNoteDeadline deadline)
  | _, _ => none

def capTimerDisarm (k : Kernel) (caller : Tid) (timerSlot : BitVec 32) : Option Kernel :=
  (k.validate caller timerSlot .timer).map fun cap =>
    let idx := cap.addr.toNat
    { k with
      timerTable := update k.timerTable idx { k.timerTable idx with armed := false } }

/-- The loop that moves a periodic deadline past the current tick.  A deadline takes
`2 ^ 64` values, so a loop still running after that many turns never ends. -/
def nextPeriod (period now : Word) : Nat → Word → Option Word
  | 0, _ => none
  | fuel + 1, deadline =>
    if now < deadline then some deadline else nextPeriod period now fuel (deadline + period)

/-- One turn of the loop of `cap_timer_rescan`: the earliest deadline so far is carried
along. -/
def timerStep (k : Kernel) (c : Cpu) (now next : Word) (i : Nat) : Option (Kernel × Word) :=
  let t := k.timerTable i
  let earliest (d : Word) : Word := if d < next then d else next
  if ¬ t.inUse ∨ ¬ t.armed then some (k, next)
  else if now < t.deadlineTick then some (k, earliest t.deadlineTick)
  else
    let k₁ := k.notifDeliver c t.notifIdx.toNat t.signalBits
    let put (t : TimerObj) : Kernel :=
      { k₁ with timerTable := update k₁.timerTable i t }
    if t.periodTicks = 0 then some (put { t with armed := false }, next)
    else
      match nextPeriod t.periodTicks now (2 ^ 64) t.deadlineTick with
      | none => none
      | some d => some (put { t with deadlineTick := d }, earliest d)

def timerLoop (c : Cpu) (now : Word) : List Nat → Kernel → Word → Option (Kernel × Word)
  | [], k, next => some (k, next)
  | i :: is, k, next =>
    match k.timerStep c now next i with
    | none => none
    | some (k₁, next₁) => timerLoop c now is k₁ next₁

def capTimerRescan (k : Kernel) (c : Cpu) (now : Word) : Option (Kernel × Word) :=
  timerLoop c now (List.range k.timerCount) k (BitVec.allOnes 64)

end Kernel

end Robu
