import Robu.Kernel.Captable

/-!
# Exec requests and the end of a thread

The protocol of `execreq.c` with the file server, and everything that ends a thread:
`terminate_tcb` and its callers in `sched.c`, `spawn_exit_current`, signals, and
`cap_destroy`.

The death of a thread also tells the pipe and socket tables and releases its address
space; these tables are outside this model.
-/

namespace Robu.Kernel

/-! ## Exec requests -/

/-- Eight bytes of a name from position `i`, little-endian and padded with zeros. -/
def packWord (name : List (BitVec 8)) (i : Nat) : Word :=
  ((name.drop i).take 8).foldr (fun b acc => acc <<< 8 ||| b.setWidth 64) 0

/-- The registers of a request handed to the file server: operation, slot, generation
and the first 24 bytes of the name. -/
def bulkReadRegs (f : Uctx) (slot : Fin 8) (generation : BitVec 16) (name : List (BitVec 8)) :
    Uctx :=
  { f with
    r8 := 17, r9 := BitVec.ofNat 64 slot.val, r10 := generation.setWidth 64
    r12 := packWord (name.take 24) 0, r13 := packWord (name.take 24) 8
    r14 := packWord (name.take 24) 16
    rsi := 0, rax := IpcErr.none.toWord }

def modSlot (k : Kernel) (i : Fin 8) (f : ExecreqSlot → ExecreqSlot) : Kernel :=
  { k with execSlots := Function.update k.execSlots i (f (k.execSlots i)) }

def allocSlot (k : Kernel) : Option (Fin 8) :=
  (List.finRange 8).find? fun i => (k.execSlots i).state = .empty

def freeSlot (k : Kernel) (i : Fin 8) : Kernel :=
  k.modSlot i fun s => { s with state := .empty, generation := s.generation + 1 }

def injectRequest (k : Kernel) (ext2fs : Slot) (i : Fin 8) : Kernel :=
  k.modUctx ext2fs fun f => bulkReadRegs f i (k.execSlots i).generation (k.execSlots i).params.name

def ext2fsTcb (k : Kernel) : Option Slot :=
  if k.ext2fsTid = 0 then none else k.schedGetTcb k.ext2fsTid

def ext2fsWaits (k : Kernel) (ext2fs : Slot) : Prop :=
  (k.tcb ext2fs).state = .waitRecv ∧ (k.tcb ext2fs).ipcPartner = ipcTidAny
deriving Decidable

/-- `execreq_submit`; `none` is the error. -/
def execreqSubmit (k : Kernel) (c : Cpu) (cur : Slot) (params : ExecreqParams) : Option Kernel :=
  match k.ext2fsTcb with
  | none => none
  | some ext2fs =>
    match k.allocSlot with
    | none => none
    | some i =>
      let k₁ := k.modSlot i fun s => { s with params := params, state := .queued }
      let k₂ := k₁.modTcb cur fun x => { x with execreqSlot := BitVec.ofNat 32 i.val }
      let k₃ := k₂.schedBlock cur .waitExecreq
      some <| if k₃.ext2fsWaits ext2fs then
          ((k₃.modSlot i fun s => { s with state := .delivered }).injectRequest ext2fs i)
            |>.schedDirectSwitch c ext2fs
        else k₃

/-- `execreq_submit_poll`; `none` is the error. -/
def execreqSubmitPoll (k : Kernel) (c : Cpu) (params : ExecreqParams) : Option Kernel :=
  match k.ext2fsTcb with
  | none => none
  | some ext2fs =>
    match k.allocSlot with
    | none => none
    | some i =>
      let k₁ := k.modSlot i fun s =>
        { s with
          params := { params with requesterTid := 0 }, pollChild := none, state := .queued }
      some <| if k₁.ext2fsWaits ext2fs then
          ((k₁.modSlot i fun s => { s with state := .delivered }).injectRequest ext2fs i)
            |>.schedWake c ext2fs
        else k₁

def execreqFinishPollSpawn (k : Kernel) (i : Fin 8) (generation : BitVec 16) :
    Option Slot × Kernel :=
  let s := k.execSlots i
  if s.generation ≠ generation ∨ s.state ≠ .pollDone then (none, k)
  else (s.pollChild, k.freeSlot i)

/-- `execreq_try_deliver_queued`: the slot delivered, if one was queued. -/
def execreqTryDeliverQueued (k : Kernel) : Option (Fin 8 × Kernel) :=
  ((List.finRange 8).find? fun i => (k.execSlots i).state = .queued).map fun i =>
    (i, k.modSlot i fun s => { s with state := .delivered })

def failRequester (k : Kernel) (c : Cpu) (requester : Slot) : Kernel :=
  (k.modUctx requester fun f => { f with rax := IpcErr.notFound.toWord, r8 := 0 }).schedWake c
    requester

/-- `elf_load_and_spawn_req`: the loader's part is the answer `env.load`. -/
def elfLoadAndSpawnReq (k : Kernel) (env : Env) (prio : Prio) (pagerTid : Tid) :
    Option (Slot × Kernel) :=
  match env.load with
  | none => none
  | some image => k.threadCreateUserArgvLocked image prio pagerTid

/-- `elf_exec_current`; `none` is the error. -/
def elfExecCurrent (k : Kernel) (env : Env) (t : Slot) : Option Kernel :=
  env.load.map fun image =>
    k.modTcb t fun x =>
      { x with
        addressSpace := image.addressSpace, sigActions := fun _ => {}, inSigHandler := false
        uctx := image.uctx }

def awaitsSlot (k : Kernel) (requester : Slot) (i : Fin 8) : Prop :=
  (k.tcb requester).state = .waitExecreq ∧ (k.tcb requester).execreqSlot = BitVec.ofNat 32 i.val
deriving Decidable

def imageCopied (env : Env) (size : Word) : Bool :=
  match env.shmCopied with
  | none => false
  | some copied => copied = size ∧ copied ≠ 0

def execreqComplete (k : Kernel) (c : Cpu) (env : Env) (i : Fin 8) (generation : BitVec 16)
    (status : BitVec 32) (size : Word) : Kernel :=
  let s := k.execSlots i
  let ok := status = 0 ∧ imageCopied env size
  if s.state ≠ .delivered ∨ s.generation ≠ generation then k
  else if s.params.requesterTid = 0 then
    let spawned := if ok then k.elfLoadAndSpawnReq env s.params.prio s.params.pagerTid else none
    match spawned with
    | none => k.modSlot i fun s => { s with pollChild := none, state := .pollDone }
    | some (child, k₁) =>
      k₁.modSlot i fun s => { s with pollChild := some child, state := .pollDone }
  else
    match k.schedGetTcb s.params.requesterTid with
    | none => k.freeSlot i
    | some requester =>
      if ¬ k.awaitsSlot requester i then k.freeSlot i
      else if ¬ ok then (k.failRequester c requester).freeSlot i
      else
        let k₁ : Kernel :=
          if s.params.isSpawnCreate then
            match k.elfLoadAndSpawnReq env s.params.prio s.params.pagerTid with
            | none => k.modUctx requester fun f => { f with rax := IpcErr.noMem.toWord, r8 := 0 }
            | some (child, k') =>
              (k'.modTcb child fun x => { x with parentTid := requester.tid }).modUctx requester
                fun f =>
                  { f with rax := IpcErr.none.toWord, r8 := (child.tid).setWidth 64 }
          else
            match k.elfExecCurrent env requester with
            | none => k.setRax requester .noMem
            | some k' => k'
        (k₁.schedWake c requester).freeSlot i

def execreqCancelRequester (k : Kernel) (tid : Tid) : Kernel :=
  (List.finRange 8).foldl (fun k i =>
    if (k.execSlots i).state ≠ .empty ∧ (k.execSlots i).params.requesterTid = tid then
      k.freeSlot i
    else k) k

/-- One turn of the loop of `execreq_fail_all`. -/
def failSlot (c : Cpu) (k : Kernel) (i : Fin 8) : Kernel :=
  if (k.execSlots i).state = .empty then k
  else
    match k.schedGetTcb (k.execSlots i).params.requesterTid with
    | none => k.freeSlot i
    | some requester =>
      (if k.awaitsSlot requester i then k.failRequester c requester else k).freeSlot i

def execreqFailAll (k : Kernel) (c : Cpu) : Kernel := (List.finRange 8).foldl (failSlot c) k

/-! ## Terminating a thread -/

def setSqNext (k : Kernel) (t : Slot) (v : Option Slot) : Kernel :=
  k.modTcb t fun x => { x with sqNext := v }

def clearSendQ (k : Kernel) (t : Slot) : Kernel :=
  k.modTcb t fun x => { x with sendQHead := none, sendQTail := none }

def detachChild (k : Kernel) (w : Slot) : Kernel :=
  let k₁ := k.modTcb w fun x => { x with parentTid := 0 }
  if (k₁.tcb w).state = .zombie then k₁.setState w .dead else k₁

/-- The loop of `terminate_tcb` over the send queue of the dead thread.  It clears each
link it follows. -/
def flushFrom (c : Cpu) : Nat → Kernel → Option Slot → Kernel
  | 0, k, _ => k
  | _ + 1, k, none => k
  | fuel + 1, k, some s =>
    let next := (k.tcb s).sqNext
    flushFrom c fuel (((k.setSqNext s none).setRax s .notFound).schedWake c s) next

/-- Wake a receiver that waits for the dead thread `t`. -/
def wakeOrphan (k : Kernel) (c : Cpu) (t w : Slot) : Kernel :=
  if (k.tcb w).state = .waitRecv ∧ (k.tcb w).ipcPartner = t.tid then
    (k.setRax w .notFound).schedWake c w
  else k

/-- One turn of the loop of `terminate_tcb` over the thread table: wake a receiver that
waits for `t`, note a thread sharing the address space, and detach a child. -/
def orphanStep (c : Cpu) (t : Slot) (st : Kernel × Bool) (w : Slot) : Kernel × Bool :=
  let k₁ := st.1.wakeOrphan c t w
  let sibling := w ≠ t ∧ (k₁.tcb w).state ≠ .dead ∧ (k₁.tcb w).state ≠ .zombie ∧
    (k₁.tcb w).addressSpace = (k₁.tcb t).addressSpace
  (if (k₁.tcb w).parentTid = t.tid then k₁.detachChild w else k₁, st.2 || sibling)

def releaseAddressSpace (k : Kernel) (t : Slot) (siblingFound : Bool) : Kernel :=
  if (k.tcb t).addressSpace ≠ 0 ∧ ¬ siblingFound then
    k.modTcb t fun x => { x with addressSpace := 0 }
  else k

/-- Tell the tables that name threads about the death of `t`. -/
def announceDeath (k : Kernel) (c : Cpu) (t : Slot) : Kernel :=
  let k₁ := ((k.kcapInvalidateTcbDeath t.tid).notifInvalidateWaiterDeath
    t.tid).execreqCancelRequester t.tid
  if t.tid = k₁.ext2fsTid then k₁.execreqFailAll c else k₁

def terminateTcb (k : Kernel) (c : Cpu) (t : Slot) (finalState : ThreadState) : Kernel :=
  let k₁ := k.setState t finalState
  let k₂ := flushFrom c 65 (k₁.clearSendQ t) (k₁.tcb t).sendQHead
  let (k₃, siblingFound) := tableSlots.foldl (orphanStep c t) (k₂, false)
  (k₃.releaseAddressSpace t siblingFound).announceDeath c t

def schedTerminateTo (k : Kernel) (c : Cpu) (cur : Slot) (finalState : ThreadState) : Kernel :=
  (k.terminateTcb c cur finalState).requestResched c

/-- `sched_terminate`; `none` is the error. -/
def schedTerminate (k : Kernel) (c : Cpu) (victimTid : Tid) : Option Kernel :=
  match k.schedGetTcb victimTid with
  | none => none
  | some t =>
    if k.current c = some t ∨ (k.tcb t).state = .running then none
    else some (k.terminateTcb c t .dead)

/-- `cap_destroy`; `none` is the error. -/
def capDestroy (k : Kernel) (c : Cpu) (caller : Tid) (slot : BitVec 32) : Option Kernel :=
  match k.validate caller slot .tcb with
  | none => none
  | some cap => k.schedTerminate c (cap.addr.setWidth 32)

def spawnExitCurrent (k : Kernel) (c : Cpu) (cur : Slot) (status : BitVec 32) : Kernel :=
  let k₁ := k.modTcb cur fun x => { x with exitStatus := status }
  let parent := if (k₁.tcb cur).parentTid = 0 then none
    else k₁.schedGetTcb (k₁.tcb cur).parentTid
  match parent with
  | none => k₁.schedTerminateTo c cur .dead
  | some p =>
    if (k₁.tcb p).state = .waitChild ∧
        ((k₁.tcb p).waitFilter = 0 ∨ (k₁.tcb p).waitFilter = cur.tid) then
      let k₂ := k₁.modUctx p fun f =>
        { f with
          rax := IpcErr.none.toWord, r8 := (cur.tid).setWidth 64
          r9 := status.signExtend 64 }
      (k₂.schedWake c p).schedTerminateTo c cur .dead
    else k₁.schedTerminateTo c cur .zombie

/-- `sched_find_zombie_child`: the first zombie child matching the filter, and whether a
live one matches. -/
def schedFindZombieChild (k : Kernel) (parent filter : Tid) : Option Slot × Bool :=
  let children := tableSlots.filter fun w : Slot =>
    (k.tcb w).parentTid = parent ∧ (filter = 0 ∨ w.tid = filter)
  (children.find? fun w : Slot => (k.tcb w).state = .zombie,
    children.any fun w : Slot => (k.tcb w).state ≠ .zombie ∧ (k.tcb w).state ≠ .dead)

def schedReapZombie (k : Kernel) (t : Slot) : Kernel :=
  k.setState t .dead

/-! ## Signals -/

/-- `sig_send`; `none` is the error. -/
def sigSend (k : Kernel) (c : Cpu) (target : Tid) (signum : Int) : Option Kernel :=
  if signum < 1 ∨ 64 ≤ signum then none
  else
    match k.schedGetTcb target with
    | none => none
    | some t =>
      some ((k.modTcb t fun x =>
        { x with sigPending := x.sigPending ||| 1#64 <<< (signum.toNat - 1) }).schedWake c t)

/-- One turn of the loop of `sched_signal_pgid`. -/
def signalMember (c : Cpu) (pgid : Tid) (signum : Int) (k : Kernel) (i : Slot) : Kernel :=
  match k.schedGetTcb i.tid with
  | none => k
  | some t => if (k.tcb t).pgid ≠ pgid then k else (k.sigSend c i.tid signum).getD k

/-- `sched_signal_pgid`, without its count of signals sent, which no caller uses. -/
def schedSignalPgid (k : Kernel) (c : Cpu) (pgid : Tid) (signum : Int) : Kernel :=
  if pgid = 0 then k else tableSlots.foldl (signalMember c pgid signum) k

def sigDefaultTerminates (signum : Nat) : Bool :=
  signum ∉ [17, 23, 28, 18, 19, 20, 21, 22]

/-- `sig_try_deliver` on the thread `t` that is about to be resumed.  The word it pushes
on the user stack is memory, which is not part of this state. -/
def sigTryDeliver (k : Kernel) (c : Cpu) (t : Slot) : Kernel :=
  if (k.tcb t).inSigHandler then k
  else
    let deliverable := (k.tcb t).sigPending &&& ~~~(k.tcb t).sigMask
    match (List.range 64).find? fun i => deliverable.getLsbD i with
    | none => k
    | some bit =>
      let signum := bit + 1
      let mark : Word := 1#64 <<< bit
      let k₁ := k.modTcb t fun x => { x with sigPending := x.sigPending &&& ~~~mark }
      let sa := (k₁.tcb t).sigActions (Fin.ofNat 64 signum)
      if sa.handler = 1 then k₁
      else if sa.handler = 0 then
        if sigDefaultTerminates signum then
          k₁.spawnExitCurrent c t (0x80000000 ||| BitVec.ofNat 32 signum)
        else k₁
      else
        k₁.modTcb t fun x =>
          let rsp := ((x.uctx.rsp - 256) &&& ~~~0xF) - 8
          { x with
            savedUctxBeforeSig := x.uctx
            savedSigMask := x.sigMask
            sigMask := x.sigMask ||| sa.mask ||| if sa.flags &&& 0x40000000 = 0 then mark else 0
            inSigHandler := true
            sigActions := if sa.flags &&& 0x80000000 = 0 then x.sigActions
              else Function.update x.sigActions (Fin.ofNat 64 signum) { sa with handler := 0 }
            uctx := { x.uctx with
              rsp := rsp, rip := sa.handler, rdi := BitVec.ofNat 64 signum } }

end Robu.Kernel
