import Robu.Kernel.AuthFrame
import Robu.Kernel.Children

/-!
# The two orders of a rendezvous

A message is delivered by one of two pieces of code.  If the receiver waits, the branch of
`sys_ipc` for a sender stores it in the receiver's frame.  If it does not, the sender parks, and
`complete_parked_sender` stores the message once the receiver arrives.

An `Exchange` is what the two threads see of a delivery, with the page operation it asks for.
Both pieces of code give the same exchange, except to a sender that wants a reply: the first
looks at the sender's own queue before the sender waits, the second does not; and the second
takes the filter `~0` for a send without a receive.
-/

namespace Robu

variable {filter : Tid} {w : Slot}

inductive PageOp
  /-- `vm_batch_map` -/
  | batchMap (space : Word) (requester : Tid) (m : MsgRegs)
  /-- `vm_xfer_pages` -/
  | xfer (src dst : Word) (m : MsgRegs)
  /-- `vm_share_pages` -/
  | share (src dst : Word) (m : MsgRegs)
deriving DecidableEq

/-- `IPC_FLAG_MAP`, `IPC_FLAG_XFER` and `IPC_FLAG_SHARE`, in the order they are tested. -/
def pageOp (flags : BitVec 32) (sender : Tid) (src dst : Word) (m : MsgRegs) : Option PageOp :=
  if flags.getLsbD 0 then some (.batchMap dst sender m)
  else if flags.getLsbD 2 then some (.xfer src dst m)
  else if flags.getLsbD 3 then some (.share src dst m)
  else none

inductive Next
  | ready
  | reply (filter : Tid)
  | other
deriving DecidableEq

def Tcb.next (x : Tcb) : Next :=
  match x.state with
  | .ready | .running => .ready
  | .waitRecv => .reply x.ipcPartner
  | _ => .other

/-- **Exchange.**  What a delivery gives to the receiver and leaves to the sender. -/
structure Exchange where
  words : MsgRegs
  sender : Word
  status : Word
  pages : Option PageOp
  senderStatus : Word
  next : Next
deriving DecidableEq

namespace Kernel

open Relation (ReflTransGen)

variable {F : Effects} {k k' : Kernel} {c : Cpu} {env : Env} {s r t : Slot}

def exchange (k : Kernel) (pages : Option PageOp) (s r : Slot) : Exchange where
  words := payloadFromFrame (k.tcb r).uctx
  sender := (k.tcb r).uctx.rsi
  status := (k.tcb r).uctx.rax
  pages := pages
  senderStatus := (k.tcb s).uctx.rax
  next := (k.tcb s).next

def directExchange (k : Kernel) (c : Cpu) (env : Env) (s r : Slot) : Option Exchange :=
  let f := (k.tcb s).uctx
  let pages := pageOp f.flags s.tid (k.tcb s).addressSpace (k.tcb r).addressSpace
    (payloadFromFrame f)
  (k.ipcDeliver c env s r).map fun k' => k'.exchange pages s r

def parkedExchange (k : Kernel) (c : Cpu) (env : Env) (s r : Slot) : Exchange :=
  let x := k.tcb s
  (k.completeParkedSender c env r s).exchange
    (pageOp x.ipcFlags s.tid x.addressSpace (k.tcb r).addressSpace x.ipcBuffer) s r

/-- What a thread sends, what it receives after it, and where its pages are. -/
structure Letter where
  words : MsgRegs
  flags : BitVec 32
  recvAfter : Tid
  space : Word

def Parked.letter (x : Tcb) : Letter := ⟨x.ipcBuffer, x.ipcFlags, x.ipcRecvAfter, x.addressSpace⟩

def callLetter (f : Uctx) (space : Word) : Letter :=
  ⟨payloadFromFrame f, f.flags, if f.wantRecv then f.srcFilter else noRecvAfter, space⟩

/-- In `k` the thread `s` makes a call on CPU `c` that sends a message to `r`.  `r` does not wait
for it, and after the section the state is `k'`. -/
structure Parks (k : Kernel) (c : Cpu) (e : Entry) (s r : Slot) (k' : Kernel) : Prop where
  vector : e.frame.vector.toNat = 0x30
  current : k.current c = some s
  call : decode e.frame = .rendezvous
  sends : e.frame.destTid ≠ 0
  dest : k.schedGetTcb e.frame.destTid = some r
  ne : r ≠ s
  resumes : ¬ k.resumesFault s r
  busy : ¬ k.accepts r s.tid
  step : k.step (.trap c e) = some k'

/-- A section that executes no call of `s`, or the acts up to a point in the middle of one. -/
def Passes (s : Slot) (k k' : Kernel) : Prop :=
  ∃ l, (k.effects l).caller ≠ some s ∧
    (k.step l = some k' ∨ Acts (k.effects l) l.cpu (k.entered l) k')

/-- In `k` the thread `s` makes the call that has parked it before `k'`.  The receiver has the
same address space in both states, and the frame capabilities are the same. -/
structure SameCall (k k' : Kernel) (s r : Slot) : Prop where
  running : (k.tcb s).state = .running
  call : ∃ k₀ c e k₁, Parks k₀ c e s r k₁ ∧ e.frame = (k.tcb s).uctx ∧
    (k₀.tcb s).addressSpace = (k.tcb s).addressSpace ∧ ReflTransGen (Passes s) k₁ k'
  parked : (k'.tcb s).state = .waitSend
  receiverSpace : (k'.tcb r).addressSpace = (k.tcb r).addressSpace
  frameCaps : k'.frameCaps = k.frameCaps

/-- The next state of a sender: `~0` stands for a send without a receive. -/
def nextAfter (after : Tid) : Next := if after ≠ noRecvAfter then .reply after else .ready

/-! ## The message while the sender is parked -/

theorem Edit.letter {f : Tcb → Tcb} (h : Edit F c k s f) (hc : F.caller ≠ some s)
    (hp : (f (k.tcb s)).state = .waitSend) :
    (k.tcb s).state = .waitSend ∧ Parked.letter (f (k.tcb s)) = Parked.letter (k.tcb s) := by
  cases h with
  | own caller => exact absurd caller hc
  | regroup | adopt | status | ack | handler => exact ⟨hp, rfl⟩
  | sent | signal =>
    dsimp only at hp
    split at hp
    · cases hp
    · exact ⟨hp, rfl⟩
  | create _ _ _ _ born =>
    cases (congrArg Tcb.state born).symm.trans hp
  | sleep | console | receive | waitChild | waitExec | stall | yield | answer | image
  | sentReceive | alarm
  | resolve | preempt => cases hp

/-- The death of another thread leaves a thread parked with its message, or wakes it. -/
theorem Fate.letter {x y : Tcb} {u : Slot} (h : Fate k u s x y) (hp : y.state = .waitSend) :
    x.state = .waitSend ∧ Parked.letter y = Parked.letter x := by
  have hletter : Parked.letter y = Parked.letter x := (congrArg Parked.letter h.frame :)
  refine ⟨?_, hletter⟩
  cases h.outcome with
  | spared _ hs => exact hs ▸ hp
  | buried _ _ hs | orphaned _ _ _ hs | failed _ _ hs => rw [hs] at hp; cases hp
  | flushed _ _ hs =>
    rw [hs, ThreadState.woken] at hp
    split at hp
    · cases hp
    · exact hp

/-- The message of a sender that is parked at the end is that which it had. -/
def Parked.Kept (s : Slot) (k k' : Kernel) : Prop := (k'.tcb s).state = .waitSend →
  (k.tcb s).state = .waitSend ∧ letter (k'.tcb s) = letter (k.tcb s)

/-- A thread that is parked after an act of others was parked before it, with the same
message. -/
theorem Act.letter (h : Act F c k k') (hc : F.caller ≠ some s) : Parked.Kept s k k' := by
  intro hp
  have hletter : ∀ {x y : Tcb}, x.body = y.body → Parked.letter x = Parked.letter y :=
    fun h => field_of_body h _ fun _ => rfl
  have hstate : ∀ {x y : Tcb}, x.body = y.body → x.state = y.state := fun h =>
    field_of_body h _ fun _ => rfl
  cases h.turn s with
  | same body => exact ⟨hstate body ▸ hp, hletter body⟩
  | edit edit body =>
    obtain ⟨hparked, hkept⟩ := edit.letter hc (hstate body ▸ hp)
    exact ⟨hparked, (hletter body).trans hkept⟩
  | park _ caller | waitNotif _ caller | reaper caller => exact absurd caller hc
  | notified _ _ body =>
    have hwoken := hstate body ▸ hp
    dsimp only [ThreadState.woken] at hwoken
    split at hwoken
    · cases hwoken
    · exact ⟨hwoken, (hletter body).trans rfl⟩
  | hand _ _ body | picked _ body | reaped _ _ _ body => cases (hstate body).symm.trans hp
  | ended _ _ _ gone => rcases gone with hg | hg <;> cases hg.symm.trans hp
  | fate _ _ fate => exact fate.letter hp
  | told _ _ _ _ _ fate => cases (fate.letter hp).1

theorem Parked.Kept.trans {k₁ : Kernel} (h : Kept s k k₁) (h₁ : Kept s k₁ k') : Kept s k k' := by
  intro hp
  obtain ⟨hparked, hkept⟩ := h₁ hp
  exact ⟨(h hparked).1, hkept.trans (h hparked).2⟩

theorem Acts.letter (h : Acts F c k k') (hc : F.caller ≠ some s) : Parked.Kept s k k' :=
  h.invariant (I := Parked.Kept s k) (fun hk hact => hk.trans (hact.letter hc)) (⟨·, rfl⟩)

theorem Passes.letter (h : Passes s k k') : Parked.Kept s k k' := by
  intro hp
  obtain ⟨l, hc, h⟩ := h
  have hentered := k.entered_field l s Parked.letter fun _ _ => rfl
  rcases h with hstep | hacts
  · obtain ⟨k₁, -, hhandler, hback, -⟩ := acts_step hstep
    obtain ⟨hparked, hback⟩ := hback.letter nofun hp
    obtain ⟨hparked, hhandler⟩ := hhandler.letter hc hparked
    exact ⟨k.state_entered l s ▸ hparked, (hback.trans hhandler).trans hentered⟩
  · obtain ⟨hparked, hkept⟩ := hacts.letter hc hp
    exact ⟨k.state_entered l s ▸ hparked, hkept.trans hentered⟩

/-- **Waiting.**  As long as a sender is parked, it keeps its message. -/
theorem letter_of_passes (h : ReflTransGen (Passes s) k k') : Parked.Kept s k k' :=
  h.invariant (I := Parked.Kept s k) (fun hk hpass => hk.trans hpass.letter) (⟨·, rfl⟩)

/-- **Parking.**  The sender is parked with the message of its call. -/
theorem letter_ipcPark (k : Kernel) (s r : Slot) : Parked.letter ((k.ipcPark s r).tcb s) =
    callLetter (k.tcb s).uctx (k.tcb s).addressSpace := by
  unfold ipcPark
  dsimp only
  rw [schedBlock, setState, modTcb_tcb_self]
  refine Eq.trans (field_of_body (congrFun (body_sendqAppend _ r s) s) Parked.letter
    fun _ => rfl) ?_
  rw [modTcb_tcb_self]
  rfl

/-- The section of a sender that parks. -/
theorem Parks.handled {e : Entry} (h : k.Parks c e s r k') :
    k.handled (.trap c e) = some ((k.enter c e).ipcPark s r) := by
  have hframe := enter_uctx (e := e) h.current
  have hdest : (k.enter c e).schedGetTcb e.frame.destTid = some r :=
    (k.entered_schedGetTcb (.trap c e) _).trans h.dest
  have hresumes : ¬ (k.enter c e).resumesFault s r := by
    have hstate := k.state_entered (.trap c e) r
    have hpager := k.entered_field (.trap c e) r Tcb.pagerTid fun _ _ => rfl
    dsimp only [entered] at hstate hpager
    rw [resumesFault, hstate, hpager]
    exact h.resumes
  have hbusy : ¬ (k.enter c e).accepts r s.tid := by
    have hstate := k.state_entered (.trap c e) r
    have hpartner := k.entered_field (.trap c e) r Tcb.ipcPartner fun _ _ => rfl
    dsimp only [entered] at hstate hpartner
    rw [accepts, hstate, hpartner]
    exact h.busy
  rw [(trap_call h.vector h.current).1, sysIpc]
  dsimp only
  rw [hframe, h.call]
  dsimp only
  rw [rendezvous]
  dsimp only
  rw [hframe, if_neg h.sends, hdest]
  dsimp only
  rw [if_neg h.ne, if_neg hresumes, if_neg hbusy]

/-- After its section the sender is still parked with the message of its call. -/
theorem Parks.letter {e : Entry} (h : k.Parks c e s r k') (hp : (k'.tcb s).state = .waitSend) :
    Parked.letter (k'.tcb s) = callLetter e.frame (k.tcb s).addressSpace := by
  obtain ⟨k₁, hhandled, -, hback, -⟩ := acts_step h.step
  cases h.handled.symm.trans hhandled
  have hspace := k.entered_field (.trap c e) s Tcb.addressSpace fun _ _ => rfl
  rw [(hback.letter nofun hp).2, letter_ipcPark, enter_uctx h.current]
  exact congrArg (callLetter e.frame) hspace

/-- A sender that waits holds the message of the call that has parked it. -/
theorem SameCall.letter (h : SameCall k k' s r) :
    Parked.letter (k'.tcb s) = callLetter (k.tcb s).uctx (k.tcb s).addressSpace := by
  obtain ⟨k₀, c, e, k₁, hparks, hframe, hspace, hpasses⟩ := h.call
  obtain ⟨hparked, hkept⟩ := letter_of_passes hpasses h.parked
  rw [hkept, hparks.letter hparked, hframe, hspace]

/-! ## The parked sender -/

@[simp] theorem payloadFromFrame_deliver (f : Uctx) (m : MsgRegs) (a b : Word) :
    payloadFromFrame { payloadToFrame f m with rsi := a, rax := b } = m := rfl

theorem tcb_setRax_of_ne (hne : t ≠ s) (e : IpcErr) : (k.setRax s e).tcb t = k.tcb t := by
  rw [setRax, modUctx, k.modTcb_tcb_of_ne (by simpa using hne)]

theorem tcb_deliverToFrame_of_ne (hne : t ≠ r) (sender : Tid) (m : MsgRegs) :
    (k.deliverToFrame r sender m).tcb t = k.tcb t := by
  rw [deliverToFrame, modUctx, k.modTcb_tcb_of_ne (by simpa using hne)]

theorem uctx_deliverToFrame (k : Kernel) (r : Slot) (sender : Tid) (m : MsgRegs) :
    ((k.deliverToFrame r sender m).tcb r).uctx =
      { payloadToFrame (k.tcb r).uctx m with
        rsi := sender.setWidth 64
        rax := IpcErr.none.toWord } := by
  rw [deliverToFrame, modUctx, modTcb_tcb_self]

theorem uctx_schedWake (k : Kernel) (c : Cpu) (t u : Slot) :
    ((k.schedWake c t).tcb u).uctx = (k.tcb u).uctx :=
  congrFun (k.view_schedWake c t fun _ _ _ => rfl) u

theorem next_schedWake_of_ne (hne : t ≠ s) : ((k.schedWake c s).tcb t).next = (k.tcb t).next := by
  rw [(k.alike_schedWake c s).field Tcb.next t fun _ =>
    rfl, k.modTcb_tcb_of_ne (by simpa using hne)]

theorem next_schedWake_self (ha : k.Asleep s) : ((k.schedWake c s).tcb s).next = .ready := by
  rw [(alike_schedWake_of_asleep (c := c) ha).field Tcb.next s fun _ =>
    rfl, setState, modTcb_tcb_self]
  rfl

/-- The exchange of a message, with the status and the next state of the sender. -/
def delivered (s : Slot) (m : MsgRegs) (pages : Option PageOp) (ok : Bool) (next : Next) :
    Exchange where
  words := m
  sender := (s.tid).setWidth 64
  status := IpcErr.none.toWord
  pages := pages
  senderStatus := (transferErr ok).toWord
  next := next

/-- The message is stored in the frame of the receiver and the status in that of the sender. -/
def stored (k : Kernel) (s r : Slot) (m : MsgRegs) (ok : Bool) : Kernel :=
  (k.deliverToFrame r s.tid m).setRax s (transferErr ok)

variable {m : MsgRegs} {ok : Bool} {pages : Option PageOp}

theorem tcb_stored_sender (hne : s ≠ r) : (k.stored s r m ok).tcb s =
    { k.tcb s with uctx := { (k.tcb s).uctx with rax := (transferErr ok).toWord } } := by
  rw [stored, setRax, modUctx, modTcb_tcb_self, tcb_deliverToFrame_of_ne hne]

theorem uctx_stored_receiver (hne : s ≠ r) : ((k.stored s r m ok).tcb r).uctx =
    { payloadToFrame (k.tcb r).uctx m with
      rsi := (s.tid).setWidth 64
      rax := IpcErr.none.toWord } := by
  rw [stored, tcb_setRax_of_ne hne.symm, uctx_deliverToFrame]

/-- What follows may change the sender's state, but neither frame. -/
theorem exchange_of_stored {next : Next} (hne : s ≠ r)
    (hr : (k'.tcb r).uctx = ((k.stored s r m ok).tcb r).uctx)
    (hs : (k'.tcb s).uctx = ((k.stored s r m ok).tcb s).uctx) (hnext : (k'.tcb s).next = next) :
    k'.exchange pages s r = delivered s m pages ok next := by
  unfold exchange delivered
  rw [hr, hs, hnext, uctx_stored_receiver hne, tcb_stored_sender hne, payloadFromFrame_deliver]

/-- **The parked sender.** -/
theorem exchange_completeParkedSender (hne : s ≠ r) (hp : (k.tcb s).state = .waitSend) :
    (k.completeParkedSender c env r s).exchange pages s r = delivered s (k.tcb s).ipcBuffer pages
        (k.transferOk env s.tid (k.tcb s).ipcFlags (k.tcb s).ipcBuffer)
        (nextAfter (k.tcb s).ipcRecvAfter) := by
  unfold completeParkedSender
  dsimp only
  generalize k.transferOk env s.tid (k.tcb s).ipcFlags (k.tcb s).ipcBuffer = ok
  have hsender : (k.stored s r (k.tcb s).ipcBuffer ok).tcb s =
      { k.tcb s with uctx := { (k.tcb s).uctx with rax := (transferErr ok).toWord } } :=
        tcb_stored_sender hne
  have hafter : ((k.stored s r (k.tcb s).ipcBuffer ok).tcb s).ipcRecvAfter =
    (k.tcb s).ipcRecvAfter := by
    rw [hsender]
  rw [← hafter]
  change (if ((k.stored s r (k.tcb s).ipcBuffer ok).tcb s).ipcRecvAfter ≠ noRecvAfter then
    _ else _ : Kernel).exchange
    pages s r = _
  split
  · rename_i hrecv
    rw [setState, modTcb_modTcb]
    refine exchange_of_stored (k := k) hne ?_ ?_ ?_
    · rw [modTcb_tcb_of_ne _ (by simpa using hne.symm)]
      rfl
    · rw [modTcb_tcb_self]
      rfl
    · rw [modTcb_tcb_self, nextAfter, if_pos hrecv]
      rfl
  · rename_i hdone
    refine exchange_of_stored hne (uctx_schedWake ..) (uctx_schedWake ..) ?_
    have ha : (k.stored s r (k.tcb s).ipcBuffer ok).Asleep s := by
      unfold Asleep
      rw [hsender]
      simp [hp]
    rw [nextAfter, if_neg hdone]
    exact next_schedWake_self ha

/-! ## The receiver that waits -/

/-- The CPU goes to the receiver.  Neither frame changes, and the sender stays as it is. -/
theorem exchange_switch {k₁ : Kernel} {slice : Int} {next : Next} (hne : s ≠ r)
    (hr : (k₁.tcb r).uctx = ((k.stored s r m ok).tcb r).uctx)
    (hs : (k₁.tcb s).uctx = ((k.stored s r m ok).tcb s).uctx) (hnext : (k₁.tcb s).next = next) :
    ((k₁.modTcb r fun x => { x with timesliceLeft := slice }).schedDirectSwitch c r).exchange
      pages s r =
      delivered s m pages ok next := by
  have hswitch : ∀ t : Slot,
    ((k₁.modTcb r fun x => { x with timesliceLeft := slice }).schedDirectSwitch c r).tcb t =
      (k₁.modTcb r fun x => { x with timesliceLeft := slice, state := .running }).tcb t := by
    intro t
    change ((k₁.modTcb r _).setState r .running).tcb t = _
    rw [setState, modTcb_modTcb]
  have hsame : (k₁.modTcb r fun x => { x with timesliceLeft := slice, state := .running }).tcb s =
    k₁.tcb s :=
    k₁.modTcb_tcb_of_ne (by simpa using hne) _
  refine exchange_of_stored (k := k) hne ?_ ?_ ?_
  · rw [hswitch, modTcb_tcb_self]
    exact hr
  · rw [hswitch, hsame]
    exact hs
  · rw [hswitch, hsame]
    exact hnext

def callMessage (k : Kernel) (s : Slot) : MsgRegs := payloadFromFrame (k.tcb s).uctx

def callOk (k : Kernel) (env : Env) (s : Slot) : Bool :=
  k.transferOk env s.tid (k.tcb s).uctx.flags (k.callMessage s)

def callPages (k : Kernel) (s r : Slot) : Option PageOp :=
  pageOp (k.tcb s).uctx.flags s.tid (k.tcb s).addressSpace (k.tcb r).addressSpace (k.callMessage s)

/-- What the sender does once the message is stored, in the branch of `sys_ipc` for a receiver
that waits. -/
def goOn (k : Kernel) (c : Cpu) (env : Env) (s r : Slot) (wantRecv : Bool) (filter : Tid) :
    Option Kernel :=
  let handOver (k : Kernel) : Kernel :=
    (k.modTcb r fun x => { x with timesliceLeft := (k.tcb s).timesliceLeft }).schedDirectSwitch c r
  if wantRecv then
    match k.sendqTake s filter with
    | none => none
    | some (some waiting, k₂) => some ((k₂.schedWake c r).completeParkedSender c env s waiting)
    | some (none, _) =>
      some (handOver ((k.modTcb s fun x => { x with ipcPartner := filter }).schedBlock s .waitRecv))
  else if (k.tcb s).prio ≤ (k.tcb r).prio then some (handOver (k.schedReadyNow s))
  else some (k.schedWake c r)

theorem directExchange_eq (k : Kernel) (c : Cpu) (env : Env) (s r : Slot) :
    k.directExchange c env s r =
      ((k.stored s r (k.callMessage s) (k.callOk env s)).goOn c env s r (k.tcb s).uctx.wantRecv
        (k.tcb s).uctx.srcFilter).map fun k' => k'.exchange (k.callPages s r) s r := rfl

theorem exchange_goOn_send (hne : s ≠ r) (hrun : (k.tcb s).state = .running) (filter : Tid) :
    ((k.stored s r m ok).goOn c env s r false filter).map (fun k' => k'.exchange pages s r) =
      some (delivered s m pages ok .ready) := by
  unfold goOn
  dsimp only
  rw [if_neg Bool.false_ne_true]
  split
  · -- the sender is put on the ready queue
    have hready := alike_rqPush ((k.stored s r m ok).setState s .ready) s
    rw [Option.map_some]
    refine congrArg some (exchange_switch (k := k) hne ?_ ?_ ?_)
    · rw [schedReadyNow, hready.field Tcb.uctx r fun _ =>
        rfl, setState, modTcb_tcb_of_ne _ (by simpa using hne.symm)]
    · rw [schedReadyNow, hready.field Tcb.uctx s fun _ => rfl, setState, modTcb_tcb_self]
    · rw [schedReadyNow, hready.field Tcb.next s fun _ => rfl, setState, modTcb_tcb_self]
      rfl
  · rw [Option.map_some]
    refine congrArg some (exchange_of_stored (k := k) hne (uctx_schedWake ..)
      (uctx_schedWake ..) ?_)
    rw [next_schedWake_of_ne hne, tcb_stored_sender hne, Tcb.next, hrun]

/-- The search of the sender's own queue is that of the state before. -/
theorem sendqScan_stored (t : Slot) (filter : Tid) :
    (k.stored s r m ok).sendqScan t filter = k.sendqScan t filter := by
  rw [stored, setRax, sendqScan_modUctx, deliverToFrame, sendqScan_modUctx]

/-- A send with a receive waits for the reply if nobody waits to send to the sender. -/
theorem exchange_goOn_reply (hne : s ≠ r) (hscan : k.sendqScan s filter = some none) :
    ((k.stored s r m ok).goOn c env s r true filter).map (fun k' => k'.exchange pages s r) =
      some (delivered s m pages ok (.reply filter)) := by
  unfold goOn
  dsimp only
  rw [if_pos rfl, sendqTake, sendqScan_stored, hscan]
  dsimp only
  rw [Option.map_some, schedBlock, setState, modTcb_modTcb]
  refine congrArg some (exchange_switch (k := k) hne ?_ ?_ ?_)
  · rw [modTcb_tcb_of_ne _ (by simpa using hne.symm)]
  · rw [modTcb_tcb_self]
  · rw [modTcb_tcb_self]
    rfl

/-- A sender that finds another on its own queue gets that message, and stays ready. -/
theorem next_completeParkedSender (hne : s ≠ w) :
    ((k.completeParkedSender c env s w).tcb s).next = (k.tcb s).next := by
  have hstored : ∀ {m : MsgRegs} {ok : Bool}, ((k.stored w s m ok).tcb s).next =
    (k.tcb s).next := by
    intro m ok
    rw [stored, tcb_setRax_of_ne hne, deliverToFrame, modUctx, modTcb_tcb_self]
    rfl
  unfold completeParkedSender
  dsimp only
  split
  · rw [setState, modTcb_modTcb, modTcb_tcb_of_ne _ (by simpa using hne)]
    exact hstored
  · rw [next_schedWake_of_ne hne]
    exact hstored

/-- A sender that finds itself on its own queue.  It goes on as the message says with which it
was parked before. -/
theorem exchange_completeParkedSender_self (hne : s ≠ r) (hrun : (k.tcb s).state = .running) :
    (k.completeParkedSender c env s s).exchange pages s r =
      { k.exchange pages s r with
        senderStatus := (transferErr
          (k.transferOk env s.tid (k.tcb s).ipcFlags (k.tcb s).ipcBuffer)).toWord
        next := nextAfter (k.tcb s).ipcRecvAfter } := by
  unfold completeParkedSender
  dsimp only
  generalize k.transferOk env s.tid (k.tcb s).ipcFlags (k.tcb s).ipcBuffer = ok
  have hself : ∃ f : Uctx, f.rax = (transferErr ok).toWord ∧
      (k.deliverToFrame s s.tid (k.tcb s).ipcBuffer).setRax s (transferErr ok) =
        k.modTcb s fun x => { x with uctx := f } := by
    refine ⟨{ payloadToFrame (k.tcb s).uctx (k.tcb s).ipcBuffer with
      rsi := (s.tid).setWidth 64, rax := (transferErr ok).toWord }, rfl, ?_⟩
    rw [setRax, deliverToFrame, modUctx, modUctx, modTcb_modTcb]
    exact k.modTcb_congr rfl
  obtain ⟨f, hf, hstored⟩ := hself
  rw [hstored, modTcb_tcb_self]
  dsimp only
  split
  · rename_i hrecv
    rw [setState, modTcb_modTcb, modTcb_modTcb]
    unfold exchange
    rw [modTcb_tcb_self, k.modTcb_tcb_of_ne (by simpa using hne.symm), nextAfter, if_pos hrecv]
    simp only [hf, Tcb.next]
  · rename_i hdone
    have hawake : ¬ (k.modTcb s fun x => { x with uctx := f }).Asleep s := by
      intro ha
      unfold Asleep at ha
      rw [modTcb_tcb_self] at ha
      exact ha.2.1 hrun
    rw [schedWake_of_not_asleep hawake]
    unfold exchange
    rw [modTcb_tcb_self, k.modTcb_tcb_of_ne (by simpa using hne.symm), nextAfter, if_neg hdone]
    simp only [hf, Tcb.next, hrun]

/-! ## Both orders -/

/-- A sender that wants a reply has a filter other than `~0`, and finds nobody on its own queue.
(A queue that holds the sender itself would have to hold it with a message that ends alike.) -/
def OrderFree (k : Kernel) (env : Env) (s : Slot) : Prop :=
  (k.tcb s).uctx.wantRecv = true → (k.tcb s).uctx.srcFilter ≠ noRecvAfter ∧
    (k.sendqScan s (k.tcb s).uctx.srcFilter = some none ∨
      (∃ prev, k.sendqScan s (k.tcb s).uctx.srcFilter = some (some (prev, s))) ∧
        (k.tcb s).ipcRecvAfter = (k.tcb s).uctx.srcFilter ∧
        k.transferOk env s.tid (k.tcb s).ipcFlags (k.tcb s).ipcBuffer = k.callOk env s)

theorem transferOk_congr (h : k'.frameCaps = k.frameCaps) (sender : Tid) (flags : BitVec 32)
    (m : MsgRegs) : k'.transferOk env sender flags m = k.transferOk env sender flags m := by
  unfold transferOk vmBatchMapOk vmCapCheck
  rw [h]

/-- The delivery of a message that is parked, in terms of the call. -/
theorem SameCall.parkedExchange (h : SameCall k k' s r) (hne : s ≠ r) :
    k'.parkedExchange c env s r =
      delivered s (k.callMessage s) (k.callPages s r) (k.callOk env s) (nextAfter
        (if (k.tcb s).uctx.wantRecv then (k.tcb s).uctx.srcFilter else noRecvAfter)) := by
  have hbuffer : (k'.tcb s).ipcBuffer = k.callMessage s := congrArg Letter.words h.letter
  have hflags : (k'.tcb s).ipcFlags = (k.tcb s).uctx.flags := congrArg Letter.flags h.letter
  have hafter := congrArg Letter.recvAfter h.letter
  have hspace : (k'.tcb s).addressSpace = (k.tcb s).addressSpace := congrArg Letter.space h.letter
  dsimp only [Parked.letter, callLetter] at hafter
  rw [Kernel.parkedExchange, exchange_completeParkedSender hne h.parked,
    transferOk_congr h.frameCaps, hbuffer, hflags, hafter, hspace, h.receiverSpace]
  rfl

theorem delivered_inj {ok ok' : Bool} {next next' : Next} :
    delivered s m pages ok next = delivered s m pages ok' next' ↔ ok = ok' ∧ next = next' := by
  have hstatus : ∀ ok ok' : Bool, (transferErr ok).toWord = (transferErr ok').toWord →
    ok = ok' := by decide
  constructor
  · intro h
    exact ⟨hstatus ok ok' (congrArg Exchange.senderStatus h), congrArg Exchange.next h⟩
  · rintro ⟨rfl, rfl⟩
    rfl

theorem nextAfter_of_ne (h : filter ≠ noRecvAfter) : nextAfter filter = .reply filter := if_pos h

theorem nextAfter_noRecvAfter : nextAfter noRecvAfter = .ready := if_neg fun h => h rfl

theorem nextAfter_eq_iff {after : Tid} (h : filter ≠ noRecvAfter) :
    nextAfter after = nextAfter filter ↔ after = filter := by
  rw [nextAfter_of_ne h]
  by_cases ha : after = noRecvAfter
  · rw [ha, nextAfter_noRecvAfter]
    exact ⟨fun hn => (by cases hn), fun he => absurd he.symm h⟩
  · rw [nextAfter_of_ne ha, Next.reply.injEq]

theorem sendqScan_noRecvAfter {prev : Option Slot} :
    k.sendqScan s noRecvAfter ≠ some (some (prev, w)) := by
  intro hscan
  have hpass := (Lib.scan_found hscan).1
  unfold passes at hpass
  have htid : ∀ w : Slot, ¬ (noRecvAfter = ipcTidAny ∨ w.tid = noRecvAfter) := by decide
  exact htid w (of_decide_eq_true hpass)

/-- A send with a receive whose sender finds another on its own queue. -/
theorem exchange_goOn_found (hne : s ≠ r) (hrun : (k.tcb s).state = .running) {prev : Option Slot}
    (hscan : k.sendqScan s filter = some (some (prev, w))) :
    ∃ e : Exchange,
      ((k.stored s r m ok).goOn c env s r true filter).map (fun k' => k'.exchange pages s r) =
        some e ∧
      (w ≠ s → e.next = .ready) ∧
      (w = s → e = delivered s m pages
        (k.transferOk env s.tid (k.tcb s).ipcFlags (k.tcb s).ipcBuffer)
          (nextAfter (k.tcb s).ipcRecvAfter)) := by
  have hgo : (k.stored s r m ok).goOn c env s r true filter =
      some ((((k.stored s r m ok).sendqUnlink s prev w).schedWake c r).completeParkedSender c env s
        w) := by
    unfold goOn
    dsimp only
    rw [if_pos rfl, sendqTake, sendqScan_stored, hscan]
  rw [hgo, Option.map_some]
  generalize hk₁ : ((k.stored s r m ok).sendqUnlink s prev w).schedWake c r = k₁
  -- the sender as it was, but for its queue and its status
  have hsender : ∀ {β : Type} (π : Tcb → β), (∀ x next head tail,
        π { x with sqNext := next, sendQHead := head, sendQTail := tail } = π x) →
      (∀ x : Tcb, π x.vital = π x) → π (k₁.tcb s) = π ((k.stored s r m ok).tcb s) := by
    intro β π hlinks hvital
    rw [← hk₁, (alike_schedWake _ c r).field π s hvital, modTcb_tcb_of_ne _ (by simpa using hne)]
    exact congrFun (view_sendqUnlink _ s prev w hlinks) s
  have hstate : (k₁.tcb s).state = .running := by
    rw [hsender Tcb.state (fun _ _ _ _ => rfl) fun _ => rfl, tcb_stored_sender hne]
    exact hrun
  refine ⟨_, rfl, fun hother => ?_, ?_⟩
  · change ((k₁.completeParkedSender c env s w).tcb s).next = _
    rw [next_completeParkedSender hother.symm, Tcb.next, hstate]
  · rintro rfl
    have hexchange : k₁.exchange pages w r = delivered w m pages ok .ready := by
      refine exchange_of_stored (k := k) hne ?_ ?_ ?_
      · rw [← hk₁, uctx_schedWake]
        exact congrFun (view_sendqUnlink _ w prev w fun _ _ _ _ => rfl) r
      · exact hsender Tcb.uctx (fun _ _ _ _ => rfl) fun _ => rfl
      · rw [Tcb.next, hstate]
    have hcaps : k₁.frameCaps = k.frameCaps := by
      have hauth : k₁.auth = k.auth := by
        rw [← hk₁, auth_schedWake, auth_sendqUnlink, stored, auth_setRax, auth_deliverToFrame]
      exact congrArg Auth.frameCaps hauth
    rw [exchange_completeParkedSender_self hne hstate, hexchange, transferOk_congr hcaps,
      hsender Tcb.ipcFlags (fun _ _ _ _ => rfl) fun _ =>
        rfl, hsender Tcb.ipcBuffer (fun _ _ _ _ => rfl) fun _ => rfl,
      hsender Tcb.ipcRecvAfter (fun _ _ _ _ => rfl) fun _ => rfl, tcb_stored_sender hne]
    rfl

/-- **Both orders.**  A delivery to a receiver that waits and one to a receiver that arrives later
come out alike exactly if the message is order-free. -/
theorem directExchange_eq_parkedExchange_iff (h : SameCall k k' s r) (hne : s ≠ r) {c' : Cpu} :
    k.directExchange c env s r = some (k'.parkedExchange c' env s r) ↔ k.OrderFree env s := by
  rw [h.parkedExchange hne, directExchange_eq]
  unfold OrderFree
  cases hw : (k.tcb s).uctx.wantRecv with
  | false =>
    rw [exchange_goOn_send hne h.running, if_neg Bool.false_ne_true, nextAfter_noRecvAfter]
    simp
  | true =>
    rw [if_pos rfl]
    generalize (k.tcb s).uctx.srcFilter = filter
    rcases hscan : k.sendqScan s filter with _ | _ | ⟨prev, w⟩
    · -- the search does not end
      have hgo : (k.stored s r (k.callMessage s) (k.callOk env s)).goOn c env s r true filter =
        none := by
        unfold goOn
        dsimp only
        rw [if_pos rfl, sendqTake, sendqScan_stored, hscan]
      rw [hgo]
      simp
    · rw [exchange_goOn_reply hne hscan, Option.some_inj, delivered_inj]
      by_cases hf : filter = noRecvAfter
      · rw [hf, nextAfter_noRecvAfter]
        simp
      · rw [nextAfter_of_ne hf]
        simp [hf]
    · have hf : filter ≠ noRecvAfter := by
        rintro rfl
        exact sendqScan_noRecvAfter hscan
      obtain ⟨e, he, hother, hself⟩ :=
        exchange_goOn_found (m := k.callMessage s) (c := c) hne h.running hscan
      rw [he, Option.some_inj]
      rcases eq_or_ne w s with rfl | hw
      · rw [hself rfl, delivered_inj, nextAfter_eq_iff hf]
        simp [hf, and_comm]
      constructor
      · rintro rfl
        have hnext := hother hw
        rw [show (delivered _ _ _ _ (nextAfter filter)).next = nextAfter filter from rfl,
          nextAfter_of_ne hf] at hnext
        cases hnext
      · intro hcond
        rcases (hcond rfl).2 with hnone | ⟨⟨prev', hfound⟩, -⟩
        · cases hnone
        · cases hfound
          exact absurd rfl hw

theorem passes_of_run {ls : List Label}
    (h : Lib.run step (fun k l => (k.effects l).caller ≠ some s) k ls = some k') :
    ReflTransGen (Passes s) k k' := by
  induction ls generalizing k with
  | nil =>
    cases h
    exact .refl
  | cons l ls ih =>
    rw [Lib.run] at h
    split at h
    · rename_i hc
      obtain ⟨k₁, hstep, hrest⟩ := Option.bind_eq_some_iff.mp h
      exact .head ⟨l, hc, .inl hstep⟩ (ih hrest)
    · cases h

def callEntry : Entry := { frame := { vector := 0x30, rdi := 2, rdx := 2 }, ctx := ⟨0, 0⟩ }

/-- Thread 1 calls thread 2 after the sections of `first`.  Or it calls it after those of
`before`, those of `later` follow, and thread 2 receives. -/
def meets (first before later : List Label) : Option (Kernel × Kernel × Kernel) :=
  (Lib.run step (fun _ _ => True) (boot 0 0 0) first).bind fun k =>
  (Lib.run step (fun _ _ => True) (boot 0 0 0) before).bind fun k₀ =>
  (k₀.step (.trap 0 callEntry)).bind fun k₁ =>
  (Lib.run step (fun k l => (k.effects l).caller ≠ some (1 : Slot)) k₁ later).bind fun k₂ =>
    if (k₂.effects (.recv 0)).caller ≠ some (1 : Slot) then
      some (k.enter 0 callEntry, k₀, k₂.entered (.recv 0))
    else none

def Meets (k k₀ k' : Kernel) : Prop :=
  ((k.tcb (1 : Slot)).state = .running ∧ callEntry.frame = (k.tcb (1 : Slot)).uctx ∧
    (k₀.tcb (1 : Slot)).addressSpace = (k.tcb (1 : Slot)).addressSpace) ∧
  (k₀.current 0 = some 1 ∧ k₀.schedGetTcb callEntry.frame.destTid = some 2 ∧ ¬ k₀.resumesFault 1 2 ∧
    ¬ k₀.accepts 2 (Slot.tid 1)) ∧
  (k'.tcb (1 : Slot)).state = .waitSend ∧
    (k'.tcb (2 : Slot)).addressSpace = (k.tcb (2 : Slot)).addressSpace ∧ k'.frameCaps = k.frameCaps
deriving Decidable

theorem sameCall_of_meets {first before later : List Label} {k₀ : Kernel}
    (h : meets first before later = some (k, k₀, k')) (hm : Meets k k₀ k') : SameCall k k' 1 2 := by
  obtain ⟨⟨hrunning, hframe, hspace⟩, ⟨hcurrent, hdest, hresumes, hbusy⟩, hparked, hreceiver,
    hcaps⟩ := hm
  obtain ⟨k₃, -, h⟩ := Option.bind_eq_some_iff.mp h
  obtain ⟨k₄, -, h⟩ := Option.bind_eq_some_iff.mp h
  obtain ⟨k₁, hstep, h⟩ := Option.bind_eq_some_iff.mp h
  obtain ⟨k₂, hrun, h⟩ := Option.bind_eq_some_iff.mp h
  split at h
  · rename_i hrecv
    cases h
    refine ⟨hrunning, ⟨k₀, 0, callEntry, k₁, ?_, hframe, hspace, ?_⟩, hparked, hreceiver, hcaps⟩
    · exact ⟨rfl, hcurrent, rfl, by decide, hdest, by decide, hresumes, hbusy, hstep⟩
    · exact (passes_of_run hrun).tail ⟨.recv 0, hrecv, .inr .refl⟩
  · cases h

def waitsRun : List Label := [.spawn 0x1000, .spawn 0x2000, .start 0, .yield 0, .recv 0]

def startsRun : List Label := [.spawn 0x1000, .spawn 0x2000, .start 0]

/-- Both orders of a call to a server. -/
theorem directExchange_eq_parkedExchange_waitsRun :
    ∃ k k₀ k', meets waitsRun startsRun [] = some (k, k₀, k') ∧ k.accepts 2 (Slot.tid 1) ∧
      k'.sendqScan 2 0 = some (some (none, 1)) ∧
        k.directExchange 0 {} 1 2 = some (k'.parkedExchange 0 {} 1 2) := by
  obtain ⟨⟨k, k₀, k'⟩, hk, hmeets, haccepts, hqueue, hfilter, hscan⟩ :
    ∃ p ∈ meets waitsRun startsRun [],
      Meets p.1 p.2.1 p.2.2 ∧ p.1.accepts 2 (Slot.tid 1) ∧
        p.2.2.sendqScan 2 0 = some (some (none, 1)) ∧
        (p.1.tcb (1 : Slot)).uctx.srcFilter ≠ noRecvAfter ∧
        p.1.sendqScan 1 (p.1.tcb (1 : Slot)).uctx.srcFilter = some none := by
    decide +kernel
  refine ⟨k, k₀, k', hk, haccepts, hqueue, ?_⟩
  exact (directExchange_eq_parkedExchange_iff (sameCall_of_meets hk hmeets) (by decide)).mpr
    fun _ => ⟨hfilter, .inl hscan⟩

/-- Thread 2 waits for a message, thread 3 is parked on the queue of thread 1, which runs. -/
def queuedWaitsRun : List Label :=
  [.spawn 0x1000, .spawn 0x2000, .spawn 0x3000, .start 0, .yield 0, .recv 0, .send 0 1]

def startsThreeRun : List Label := [.spawn 0x1000, .spawn 0x2000, .spawn 0x3000, .start 0]

/-- Thread 3 is parked on the queue of thread 1.  If thread 2 waits, thread 1 gets the message of
thread 3 and stays ready; if thread 2 arrives later, thread 1 waits for a message. -/
theorem directExchange_ne_parkedExchange_queuedRun :
    ∃ k k₀ k', meets queuedWaitsRun startsThreeRun [.yield 0, .send 0 1] = some (k, k₀, k') ∧
      SameCall k k' 1 2 ∧
      k.accepts 2 (Slot.tid 1) ∧ k'.sendqScan 2 0 = some (some (none, 1)) ∧
      (k.directExchange 0 {} 1 2).map Exchange.next = some .ready ∧
      (k'.parkedExchange 0 {} 1 2).next = .reply ipcTidAny := by
  obtain ⟨⟨k, k₀, k'⟩, hk, hmeets, hfacts⟩ :
    ∃ p ∈ meets queuedWaitsRun startsThreeRun [.yield 0, .send 0 1],
      Meets p.1 p.2.1 p.2.2 ∧ p.1.accepts 2 (Slot.tid 1) ∧
        p.2.2.sendqScan 2 0 = some (some (none, 1)) ∧
        (p.1.directExchange 0 {} 1 2).map Exchange.next = some .ready ∧
        (p.2.2.parkedExchange 0 {} 1 2).next = .reply ipcTidAny := by
    decide +kernel
  exact ⟨k, k₀, k', hk, sameCall_of_meets hk hmeets, hfacts⟩

end Kernel

end Robu
