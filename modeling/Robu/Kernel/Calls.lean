import Robu.Kernel.Ipc

/-!
# What a system call does

`sys_ipc` and the functions it calls test flags and arguments, and store a status in the
registers of the caller whatever comes of it.  `Calls` is what is left: for each call the
few things it can do to the state.  The checks that nothing later depends on are gone, so
that a property of system calls has one case for each of them.  `Retypes` does the same for
`cap_retype`, and `Delivers` for `sig_try_deliver`.
-/

namespace Robu

open Function (update)

def Tcb.Private (x y : Tcb) : Prop :=
  ∃ uctx actions mask handler pgid sid, y = { x with
    uctx := uctx, sigActions := actions, sigMask := mask, inSigHandler := handler, pgid := pgid
    sid := sid }

namespace Kernel

variable {k k' : Kernel} {c : Cpu} {env : Env} {me : Slot}

/-! ## Capabilities -/

def Gives (k : Kernel) (cap : Kcap) (k' : Kernel) : Prop :=
  k' = k ∨ ∃ capacity n, k' = { k with
    kcapTable := k.kcapTable ++ [cap], kcapCapacity := capacity, untypedWatermark := n }

theorem untypedAlloc_eq (k : Kernel) (size : Word) :
    ∃ n, (k.untypedAlloc size).2 = { k with untypedWatermark := n } := by
  unfold untypedAlloc
  split
  · exact ⟨k.untypedWatermark, rfl⟩
  · exact ⟨_, rfl⟩

theorem kcapGrant_eq {owner : Tid} {kind : CapKind} {addr size : Word}
    (h : k.kcapGrant owner kind addr size = some k') : ∃ capacity n, k' = { k with
      kcapTable := k.kcapTable ++ [{ kind := kind, owner := owner, addr := addr, size := size }]
      kcapCapacity := capacity, untypedWatermark := n } := by
  unfold kcapGrant at h
  dsimp only at h
  split at h
  · cases h
    exact ⟨k.kcapCapacity, k.untypedWatermark, rfl⟩
  obtain ⟨n, halloc⟩ := k.untypedAlloc_eq k.nextTableSize
  generalize k.untypedAlloc _ = r at h halloc
  split at h
  · cases h
  cases h
  rw [halloc]
  exact ⟨_, n, rfl⟩

theorem modify_append_last {α : Type} (l : List α) (a : α) (f : α → α) :
    (l ++ [a]).modify ((l ++ [a]).length - 1) f = l ++ [f a] := by
  have hlen : (l ++ [a]).length - 1 = l.length := by simp
  rw [hlen]
  induction l with
  | nil => rfl
  | cons b l ih => simpa using ih (by simp)

theorem gives_grantObject (k : Kernel) (caller : Tid) (kind : CapKind) (addr size va : Word) :
    k.Gives { kind := kind, owner := caller, addr := addr, size := size, mappedVa := va }
      (k.grantObject caller kind addr size va).2 := by
  unfold grantObject
  split
  · exact .inl rfl
  rename_i hgrant
  obtain ⟨capacity, n, rfl⟩ := kcapGrant_eq hgrant
  refine .inr ⟨capacity, n, ?_⟩
  dsimp only
  rw [modify_append_last]

/-- The state after `cap_retype`, if the caller has untyped memory to make an object of. -/
inductive Retypes (k : Kernel) (caller : Tid) (kind : BitVec 32) : Kernel → Prop
  | fails (n : Word) : Retypes k caller kind { k with untypedWatermark := n }
  | plain {cap : Kcap} {k' : Kernel} (n : Word) : cap.owner = caller → cap.kind ≠ .notification →
      ({ k with untypedWatermark := n } : Kernel).Gives cap k' → Retypes k caller kind k'
  | thread {cap : Kcap} {t : Slot} {k₂ k' : Kernel} {entry stack as : Word} (n : Word) :
      CapKind.decode kind.toNat = some .tcb →
      ({ k with untypedWatermark := n } : Kernel).threadCreateUserLocked entry stack 5 as 1 =
        some (t, k₂) →
      cap.owner = caller → cap.kind ≠ .notification → k₂.Gives cap k' → Retypes k caller kind k'
  | notification {cap : Kcap} {k' : Kernel} (n : Word) : cap.owner = caller →
      cap.addr = BitVec.ofNat 64 k.notifCount →
      ({ k with
        untypedWatermark := n, notifCount := k.notifCount + 1
        notifTable := update k.notifTable k.notifCount { inUse := true } } : Kernel).Gives cap k' →
      Retypes k caller kind k'
  | timer {cap : Kcap} {k' : Kernel} (n : Word) : cap.owner = caller → cap.kind ≠ .notification →
    ({ k with
        untypedWatermark := n, timerCount := k.timerCount + 1
        timerTable := update k.timerTable k.timerCount { inUse := true, notifIdx := -1 } }
          : Kernel).Gives cap k' → Retypes k caller kind k'

/-- What `cap_retype` can leave behind. -/
theorem retypes_capRetype (k : Kernel) (env : Env) (caller : Tid) (untypedSlot kind : BitVec 32)
    (asSlot entry stack frameSlot : Word) :
    ∃ k', (k.capRetype env caller untypedSlot kind asSlot entry stack frameSlot).2 = k' ∧
      (k' = k ∨ (∃ cap, k.validate caller untypedSlot .untyped = some cap) ∧
        (∃ t, k.schedGetTcb caller = some t) ∧ Retypes k caller kind k') := by
  unfold capRetype
  obtain ⟨n, halloc⟩ := k.untypedAlloc_eq 0x1000
  generalize k.untypedAlloc 0x1000 = r at halloc
  obtain ⟨obj, k₁⟩ := r
  obtain rfl : k₁ = { k with untypedWatermark := n } := halloc
  dsimp only
  refine ⟨_, rfl, ?_⟩
  split
  case h_2 => exact .inl rfl
  rename_i hcap ht
  refine .inr ⟨⟨_, hcap⟩, ⟨_, ht⟩, ?_⟩
  split
  · -- a frame
    split
    · exact .fails n
    split
    · split
      · exact .plain n rfl CapKind.noConfusion (gives_grantObject ..)
      · exact .fails n
    · exact .plain n rfl CapKind.noConfusion (gives_grantObject ..)
  · -- an address space
    split
    · exact .fails n
    · exact .plain n rfl CapKind.noConfusion (gives_grantObject ..)
  · -- a thread
    rename_i hkind
    split
    · split
      · exact .fails n
      split
      · exact .fails n
      · rename_i hcreate
        exact .thread n hkind hcreate rfl CapKind.noConfusion (gives_grantObject ..)
    · exact .fails k.untypedWatermark
  · -- a notification
    split
    · exact .fails k.untypedWatermark
    split
    · exact .fails n
    · exact .notification n rfl rfl (gives_grantObject ..)
  · -- a timer
    split
    · exact .fails k.untypedWatermark
    split
    · exact .fails n
    · exact .timer n rfl CapKind.noConfusion (gives_grantObject ..)
  · exact .fails k.untypedWatermark

/-! ## System calls -/

/-- The state after a call of the thread `me`. -/
inductive Calls (k : Kernel) (c : Cpu) (env : Env) (me : Slot) : Call → Kernel → Prop
  /-- The call stores an answer, or an error. -/
  | reply {call : Call} (g : Uctx → Uctx) : Calls k c env me call (k.modUctx me g)
  | own {f : Tcb → Tcb} : (∀ x, Tcb.Private x (f x)) → Calls k c env me .sysInfo (k.modTcb me f)
  | retype (g : Uctx → Uctx) : Calls k c env me .retype
      ((k.capRetype env me.tid ((k.tcb me).uctx.r8.setWidth 32)
        ((k.tcb me).uctx.r9.setWidth 32) (k.tcb me).uctx.r10 (k.tcb me).uctx.r12
        (k.tcb me).uctx.r13 (k.tcb me).uctx.r14).2.modUctx me g)
  | destroy {k₁ : Kernel} : k.capDestroy c me.tid ((k.tcb me).uctx.r8.setWidth 32) = some k₁ →
      Calls k c env me .destroy (k₁.setRax me .none)
  | waitConsole (vt : Fin 6) : Calls k c env me .consoleRead (({ k with
      consoleReadWaiter := update k.consoleReadWaiter vt me.tid } : Kernel).schedBlock me
        .waitConsole)
  | signal {k₁ : Kernel} : k.capNotifSignal c me.tid ((k.tcb me).uctx.r8.setWidth 32)
      (k.tcb me).uctx.r9 = some k₁ → Calls k c env me .notifySignal (k₁.setRax me .none)
  /-- The word of a notification is returned. -/
  | takeBits {call : Call} (i : Nat) (g : Uctx → Uctx) : call = .notifyWait ∨ call = .notifyPoll →
      Calls k c env me call (({ k with
        notifTable := update k.notifTable i { k.notifTable i with word := 0 } } :
          Kernel).modUctx me g)
  | waitNotif (i : Nat) : Calls k c env me .notifyWait (({ k with
      notifTable := update k.notifTable i { k.notifTable i with waiter := me.tid } }
        : Kernel).schedBlock me .waitNotification)
  | timerArm {k₁ : Kernel} : k.capTimerArm me.tid ((k.tcb me).uctx.r8.setWidth 32)
      ((k.tcb me).uctx.r9.setWidth 32) (k.tcb me).uctx.r10 (k.tcb me).uctx.r12
      (k.tcb me).uctx.r13 = some k₁ → Calls k c env me .timerArm (k₁.setRax me .none)
  | timerDisarm {k₁ : Kernel} : k.capTimerDisarm me.tid ((k.tcb me).uctx.r8.setWidth 32) = some k₁ →
      Calls k c env me .timerDisarm (k₁.setRax me .none)
  | revokeFrame {k₁ : Kernel} : k.capRevokeFrame me.tid ((k.tcb me).uctx.r8.setWidth 32) = some k₁ →
      Calls k c env me .revokeFrame (k₁.setRax me .none)
  | exit (status : BitVec 32) : Calls k c env me .exit (k.spawnExitCurrent c me status)
  | spawn {child : Slot} {k₁ : Kernel} (g : Uctx → Uctx) :
      k.elfLoadAndSpawnReq env (k.tcb me).prio (k.tcb me).pagerTid = some (child, k₁) →
      Calls k c env me .spawn
        ((k₁.modTcb child fun x => { x with parentTid := me.tid }).modUctx me g)
  /-- The file server is asked for a program. -/
  | submit {call : Call} {name : List (BitVec 8)} {create : Bool} {k₁ : Kernel} :
      call = .spawn ∨ call = .exec → k.spawnRequest env me = some name → ¬ env.inRootfs = true →
      k.submitExecreq c me name create = some k₁ → Calls k c env me call k₁
  | exec {k₁ : Kernel} : k.elfExecCurrent env me = some k₁ → Calls k c env me .exec k₁
  | fork {child : Slot} {k₁ : Kernel} (g : Uctx → Uctx) :
      k.threadCreateForkedLocked env.cloneAs (k.tcb me).pagerTid (k.tcb me).prio me =
        some (child, k₁) →
      Calls k c env me .fork ((k₁.modTcb child fun x =>
        { x with
          parentTid := me.tid, pgid := (k₁.tcb me).pgid, sid := (k₁.tcb me).sid
          uctx := { x.uctx with rax := IpcErr.none.toWord, r8 := 0 } }).modUctx me g)
  | reap {z : Slot} {live : Bool} :
      k.schedFindZombieChild me.tid ((k.tcb me).uctx.r8.setWidth 32) = (some z, live) →
      Calls k c env me .wait ((k.schedReapZombie z).modUctx me fun f =>
        { f with
          rax := IpcErr.none.toWord, r8 := (z.tid).setWidth 64
          r9 := (k.tcb z).exitStatus.signExtend 64 })
  | waitChild : k.schedFindZombieChild me.tid ((k.tcb me).uctx.r8.setWidth 32) = (none, true) →
      Calls k c env me .wait ((k.modTcb me fun x =>
        { x with waitFilter := (k.tcb me).uctx.r8.setWidth 32 }).schedBlock me .waitChild)
  | setFsbase : Calls k c env me .setFsbase (k.callSetFsbase c me)
  | yield : Calls k c env me .yield ((k.setRax me .none).requestResched c)
  | sleep (ticks : Word) : Calls k c env me .yield ((k.setRax me .none).schedSleep c me ticks)
  | kill {k₁ : Kernel} : decodeInfo (k.tcb me).uctx.r8.toNat = .kill →
      k.sigSend c ((k.tcb me).uctx.r9.setWidth 32) (asInt (k.tcb me).uctx.r10) = some k₁ →
      Calls k c env me .sysInfo (k₁.setRax me .none)
  | regroup (t : Slot) (g : Tid) :
      Calls k c env me .sysInfo ((k.modTcb t fun x => { x with pgid := g }).setRax me .none)
  | foreground (vt : Fin 6) (g : Tid) : Calls k c env me .sysInfo
      (({ k with consoleFgPgid := update k.consoleFgPgid vt g } : Kernel).setRax me .none)
  | interrupt {vt : Fin 6} : decodeInfo (k.tcb me).uctx.r8.toNat = .consoleSignalFg →
      me.tid = k.consoleDriverTid → asVt (k.tcb me).uctx.r9 = some vt →
      Calls k c env me .sysInfo
        ((k.consoleInterrupt c vt (asInt (k.tcb me).uctx.r10)).setRax me .none)
  | complete (hlt : ((k.tcb me).uctx.r9.setWidth 32 : BitVec 32).toNat < 8) :
      decodeInfo (k.tcb me).uctx.r8.toNat = .execreqReply → me.tid = k.ext2fsTid →
      Calls k c env me .sysInfo ((k.execreqComplete c env ⟨_, hlt⟩
        ((k.tcb me).uctx.r10.setWidth 16) ((k.tcb me).uctx.r12.setWidth 32)
        (k.tcb me).uctx.r14).setRax me .none)
  | rendezvous {k₁ : Kernel} : k.rendezvous c env me = some k₁ → Calls k c env me .rendezvous k₁

theorem calls_finish {call : Call} {result : Option Kernel} {err : IpcErr}
    (h : ∀ k₁, result = some k₁ → Calls k c env me call (k₁.setRax me .none)) :
    Calls k c env me call (k.finish me result err) := by
  unfold finish
  cases result with
  | none => exact .reply _
  | some k₁ => exact h k₁ rfl

theorem calls_getD {call : Call} {result : Option Kernel} {g : Uctx → Uctx}
    (h : ∀ k₁, result = some k₁ → Calls k c env me call k₁) :
    Calls k c env me call (result.getD (k.modUctx me g)) := by
  cases result with
  | none => exact .reply g
  | some k₁ => exact h k₁ rfl

theorem calls_serveIf {call : Call} (allowed : Bool) :
    Calls k c env me call (k.serveIf env me allowed) := by
  unfold serveIf
  split
  · exact .reply _
  · exact .reply _

theorem calls_callConsoleRead : Calls k c env me .consoleRead (k.callConsoleRead env me) := by
  unfold callConsoleRead
  split
  · exact .reply _
  split
  · exact .reply _
  split
  · exact .reply _
  split
  · exact .reply _
  · exact .waitConsole _

theorem calls_callNotifyWait : Calls k c env me .notifyWait (k.callNotifyWait me) := by
  unfold callNotifyWait capNotifWaitBegin
  cases k.validate me.tid ((k.tcb me).uctx.r8.setWidth 32) .notification with
  | none => exact .reply _
  | some cap =>
    dsimp only
    by_cases hw : (k.notifTable cap.addr.toNat).word = 0
    · rw [if_neg (not_not.mpr hw)]
      exact .waitNotif _
    rw [if_pos hw]
    dsimp only
    rw [if_pos hw]
    exact .takeBits _ _ (.inl rfl)

theorem calls_callNotifyPoll : Calls k c env me .notifyPoll (k.callNotifyPoll me) := by
  unfold callNotifyPoll capNotifPoll
  cases k.validate me.tid ((k.tcb me).uctx.r8.setWidth 32) .notification with
  | none => exact .reply _
  | some cap =>
    dsimp only
    split
    · exact .reply _
    · exact .takeBits _ _ (.inr rfl)

theorem calls_callSpawn : Calls k c env me .spawn (k.callSpawn c env me) := by
  unfold callSpawn
  dsimp only
  split
  · exact .reply _
  rename_i hname
  split
  · split
    · exact .reply _
    · rename_i hspawn
      exact .spawn _ hspawn
  · rename_i hroot
    exact calls_getD fun k₁ hk₁ => .submit (.inl rfl) hname hroot hk₁

theorem calls_callExec : Calls k c env me .exec (k.callExec c env me) := by
  unfold callExec
  split
  · exact .reply _
  rename_i hname
  split
  · exact calls_getD fun k₁ hk₁ => .exec hk₁
  · rename_i hroot
    exact calls_getD fun k₁ hk₁ => .submit (.inr rfl) hname hroot hk₁

theorem calls_callFork : Calls k c env me .fork (k.callFork env me) := by
  unfold callFork
  dsimp only
  split
  · exact .reply _
  split
  · exact .reply _
  split
  · exact .reply _
  · rename_i hcreate
    exact .fork _ hcreate

theorem calls_callWait : Calls k c env me .wait (k.callWait me) := by
  unfold callWait
  dsimp only
  split
  · rename_i hfind
    exact .reap hfind
  · exact .reply _
  rename_i hfind
  split
  · exact .reply _
  · exact .waitChild hfind

theorem calls_callSysInfo (h : k.callSysInfo c env me = some k') :
    Calls k c env me .sysInfo k' := by
  unfold callSysInfo at h
  dsimp only at h
  cases hi : decodeInfo (k.tcb me).uctx.r8.toNat <;> simp only [hi] at h
  case power => cases h
  case tcgetpgrp => split at h <;> cases h <;> exact .reply _
  case tcsetpgrp =>
    split at h <;> cases h
    · exact .reply _
    · exact .foreground _ _
  case consoleSignalFg =>
    split at h
    · cases h
      exact .reply _
    rename_i hdriver
    split at h <;> cases h
    · exact .reply _
    · rename_i hvt
      exact .interrupt hi (not_not.mp hdriver) hvt
  all_goals cases h
  case sigaction =>
    unfold infoSigaction
    dsimp only
    split
    · exact .reply _
    · exact .own fun _ => ⟨_, _, _, _, _, _, rfl⟩
  case kill => exact calls_finish fun k₁ hk₁ => .kill hi hk₁
  case sigprocmask | sigreturn | sigpending | setsid => exact .own fun _ => ⟨_, _, _, _, _, _, rfl⟩
  case setpgid =>
    unfold infoSetpgid
    dsimp only
    split
    · exact .reply _
    · exact .regroup _ _
  case getpgid =>
    unfold infoGetpgid
    dsimp only
    split <;> exact .reply _
  case execreqReply =>
    unfold infoExecreqReply
    dsimp only
    split
    · exact .reply _
    rename_i hserver
    split
    · exact .complete _ hi (not_not.mp hserver)
    · exact .reply _
  case service | unknown => exact .reply _
  all_goals exact calls_serveIf _

/-- **System call.** -/
theorem calls_sysIpc (h : k.sysIpc c env me = some k') :
    Calls k c env me (decode (k.tcb me).uctx) k' := by
  unfold sysIpc at h
  dsimp only at h
  cases hd : decode (k.tcb me).uctx <;> simp only [hd] at h
  case sysInfo => exact calls_callSysInfo h
  case rendezvous => exact .rendezvous h
  case consoleWrite | mount => split at h <;> cases h <;> exact .reply _
  case exit =>
    split at h <;> cases h
    · exact .reply _
    · exact .exit _
  case yield =>
    split at h <;> cases h
    · exact .yield
    · exact .sleep _
  all_goals cases h
  case retype =>
    unfold callRetype
    dsimp only
    split <;> exact .retype _
  case destroy => exact calls_finish fun k₁ hk₁ => .destroy hk₁
  case consoleRead => exact calls_callConsoleRead
  case notifySignal => exact calls_finish fun k₁ hk₁ => .signal hk₁
  case notifyWait => exact calls_callNotifyWait
  case notifyPoll => exact calls_callNotifyPoll
  case timerArm => exact calls_finish fun k₁ hk₁ => .timerArm hk₁
  case timerDisarm => exact calls_finish fun k₁ hk₁ => .timerDisarm hk₁
  case revokeFrame => exact calls_finish fun k₁ hk₁ => .revokeFrame hk₁
  case spawn => exact calls_callSpawn
  case wait => exact calls_callWait
  case fork => exact calls_callFork
  case exec => exact calls_callExec
  case setFsbase => exact .setFsbase
  case resolveFault =>
    unfold callResolveFault
    split
    · exact .reply _
    split
    · exact .reply _
    · split <;> exact .reply _
  case threadInfo =>
    unfold callThreadInfo
    dsimp only
    split
    · split <;> exact .reply _
    · exact .reply _
  all_goals exact .reply _

/-! ## Signals -/

def ack (k : Kernel) (t : Slot) (mark : Word) : Kernel :=
  k.modTcb t fun x => { x with sigPending := x.sigPending &&& ~~~mark }

/-- The state after `sig_try_deliver`. -/
inductive Delivers (k : Kernel) (c : Cpu) (t : Slot) : Kernel → Prop
  | none : Delivers k c t k
  | ack (mark : Word) : Delivers k c t (k.ack t mark)
  | exit {bit : Fin 64} (mark : Word) (status : BitVec 32) :
    (k.tcb t).sigPending.getLsbD bit.val = true →
      sigDefaultTerminates (bit.val + 1) = true →
        Delivers k c t ((k.ack t mark).spawnExitCurrent c t status)
  | handler (mark mask : Word) (actions : Fin 64 → SigAction) (rsp rip rdi : Word) :
      (k.tcb t).inSigHandler = false → Delivers k c t ((k.ack t mark).modTcb t fun x =>
        { x with
          savedUctxBeforeSig := x.uctx, savedSigMask := x.sigMask, sigMask := mask
          inSigHandler := true, sigActions := actions
          uctx := { x.uctx with rsp := rsp, rip := rip, rdi := rdi } })

theorem Delivers.congr {k₁ : Kernel} {f g : Tcb → Tcb} (h : Delivers k c me (k₁.modTcb me g))
    (hfg : f (k₁.tcb me) = g (k₁.tcb me)) : Delivers k c me (k₁.modTcb me f) := by
  unfold modTcb at h ⊢
  rwa [hfg]

theorem delivers_sigTryDeliver (k : Kernel) (c : Cpu) (t : Slot) :
    k.Delivers c t (k.sigTryDeliver c t) := by
  unfold sigTryDeliver
  split
  · exact .none
  rename_i hfree
  dsimp only
  split
  · exact .none
  rename_i bit hbit
  have hset := List.find?_some hbit
  rw [BitVec.getLsbD_and, Bool.and_eq_true] at hset
  split
  · exact .ack _
  split
  · split
    · have hlt := List.mem_range.mp (List.mem_of_find?_eq_some hbit)
      exact @Delivers.exit k c t ⟨bit, hlt⟩ _ _ hset.1 ‹_›
    · exact .ack _
  · exact Delivers.congr (.handler _ _ _ _ _ _ (by simpa using hfree)) rfl

end Kernel

end Robu
