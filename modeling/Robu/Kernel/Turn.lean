import Robu.Kernel.ActsCall
import Robu.Kernel.Ended

/-!
# What an act does to one thread

The invariants of waiting threads look at one thread at a time, and not at the links of any queue.
`Turn` lists what an act can do to the rest of the control block of one thread, and `Act.turn` is
the one place where the assignments are computed.
-/

namespace Robu

open Function (update)

variable {x y : Tcb} {p u : Slot} {idx : Nat}

def Tcb.body (x : Tcb) : Tcb :=
    { x.vital with sqNext := none, sendQHead := none, sendQTail := none }

namespace Kernel

variable {F : Effects} {c : Cpu} {k k' k₁ k₂ : Kernel} {i me t : Slot}

theorem field_of_body {β : Type} (h : x.body = y.body) (π : Tcb → β)
    (hπ : ∀ x : Tcb, π x.body = π x) : π x = π y := by
  rw [← hπ x, h, hπ]

theorem body_of_vital (h : x.vital = y.vital) : x.body = y.body := by
  unfold Tcb.body
  rw [h]

/-- **Turns.**  What an act can do to the thread `i`. -/
inductive Turn (F : Effects) (c : Cpu) (k : Kernel) (i : Slot) (y : Tcb) : Prop
  | same (body : y.body = (k.tcb i).body)
  | edit {f : Tcb → Tcb} (edit : Edit F c k i f) (body : y.body = (f (k.tcb i)).body)
  /-- It gets an answer and the CPU. -/
  | hand {g : Uctx → Uctx} (may : F.answers) (answers : k.Answers i g)
      (body : y.body = { k.tcb i with uctx := g (k.tcb i).uctx, state := .running }.body)
  | park {dest : Slot} (may : F.answers) (caller : F.caller = some i)
      (lives : k.schedGetTcb (k.tcb i).uctx.destTid = some dest) (ne : dest ≠ i)
      (body : y.body = { k.tcb i with
        ipcBuffer := payloadFromFrame (k.tcb i).uctx, ipcFlags := (k.tcb i).uctx.flags
        ipcPartner := (k.tcb i).uctx.destTid, state := .waitSend
        ipcRecvAfter := if (k.tcb i).uctx.wantRecv then (k.tcb i).uctx.srcFilter
          else noRecvAfter }.body)
  /-- It is the waiter of a notification that is delivered. -/
  | notified {idx : Nat} {bits : Word} (notified : F.notified i)
    (waiter : k.notifWaiter idx = some i)
      (body : y.body = { k.tcb i with
        uctx := { (k.tcb i).uctx with
          r8 := (k.notifTable idx).word ||| bits, rax := IpcErr.none.toWord }
        state := (k.tcb i).state.woken }.body)
  | waitNotif (watches : F.watches) (caller : F.caller = some i)
      (body : y.body = { k.tcb i with state := .waitNotification }.body)
  /-- It is a zombie and its parent learns of it. -/
  | reaped {p : Slot} {filter : Tid} {live : Bool} (reaps : F.reaps) (caller : F.caller = some p)
      (found : k.schedFindZombieChild p.tid filter = (some i, live))
      (body : y.body = { k.tcb i with uctx := y.uctx, state := .dead }.body)
  /-- It learns of a child that has ended. -/
  | reaper {z : Slot} (caller : F.caller = some i) (body : y.body = { k.tcb i with
        uctx := childRegs z (k.tcb z).exitStatus (k.tcb i).uctx }.body)
  | ended {final : ThreadState}
    (ends : F.kills i ∨ F.exits i ∧ (F.live → (k.tcb i).state = .running))
      (hfinal : final = .dead ∨ final = .zombie)
      (state : (k.tcb i).parentTid ≠ i.tid → y.state = final)
      (gone : y.state = .dead ∨ y.state = .zombie)
      (body : y.body = ((k.tcb i).departed y
        (if i ≠ 0 ∧ (k.tcb i).parentTid = i.tid then 0 else (k.tcb i).parentTid)).body)
  | fate {u : Slot} (ends : F.kills u ∨ F.exits u) (ne : i ≠ u) (fate : Fate k u i (k.tcb i) y)
  /-- A child of it ends, for which it waits. -/
  | told {u : Slot} (exits : F.exits u) (current : k.current c = some u) (ne : i ≠ u)
      (parent : k.schedGetTcb (k.tcb u).parentTid = some i) (waits : k.WaitsFor i u)
      (fate : Fate k u i
        { k.tcb i with uctx := childRegs u (k.tcb u).exitStatus (k.tcb i).uctx, state := .ready } y)
  | picked (ready : (k.tcb i).state = .ready)
    (body : y.body = { k.tcb i with state := .running }.body)

theorem turn_modTcb {f : Tcb → Tcb} (h : i = t → Turn F c k i (f (k.tcb i))) :
    Turn F c k i ((k.modTcb t f).tcb i) := by
  rw [modTcb_tcb]
  split
  · rename_i hi
    exact h (TcbRef.thread.inj hi)
  · exact .same rfl

/-- The death of another thread, from a state with the same send queues. -/
theorem Fate.congr (h : Fate k₁ t u x y) (hs : k₁.core.senders t = k.core.senders t) :
    Fate k t u x y := by
  refine ⟨h.frame, ?_, h.child, h.receiver, h.links⟩
  cases h.outcome with
  | spared hu hs => exact .spared hu hs
  | buried hz hc hs => exact .buried hz hc hs
  | flushed hq hu hst => exact .flushed (hs ▸ hq) hu hst
  | orphaned hw hp hu hs => exact .orphaned hw hp hu hs
  | failed hw hu hs => exact .failed hw hu hs

theorem Fate.of_vital_left {x' : Tcb} (h : Fate k t u x y) (hx : x'.vital = x.vital) :
    Fate k t u x' y := by
  have huctx : x'.uctx = x.uctx := (congrArg Tcb.uctx hx :)
  have hstate : x'.state = x.state := (congrArg Tcb.state hx :)
  have hparent : x'.parentTid = x.parentTid := (congrArg Tcb.parentTid hx :)
  have hpartner := congrArg Tcb.ipcPartner hx
  have hnext := congrArg Tcb.sqNext hx
  refine ⟨?_, ?_, fun h₀ => hparent ▸ h.child h₀, h.receiver, hnext ▸ h.links⟩
  · rw [hparent, Tcb.vital_fated, hx, ← Tcb.vital_fated]
    exact h.frame
  · cases h.outcome with
    | spared hu hs => exact .spared (hu.trans huctx.symm) (hs.trans hstate.symm)
    | buried hz hc hs => exact .buried (hstate.trans hz) (hparent.trans hc) hs
    | flushed hq hu hs => exact .flushed hq (by rw [hu, huctx]) (by rw [hs, hstate])
    | orphaned hw hp hu hs =>
      exact .orphaned (hstate.trans hw) (hpartner.trans hp) (by rw [hu, huctx]) hs
    | failed hw hu hs =>
      exact .failed (hstate.trans hw) (by rw [hu, Tcb.failed, Tcb.failed, huctx]) hs

theorem Ended.turn {final : ThreadState} (h : k.Ended t final k')
    (hfinal : final = .dead ∨ final = .zombie)
    (hF : F.kills t ∨ F.exits t ∧ (F.live → (k.tcb t).state = .running)) :
    Turn F c k i (k'.tcb i) := by
  rcases eq_or_ne i t with rfl | hi
  · exact .ended hF hfinal h.state h.gone (body_of_vital h.self)
  · exact .fate (hF.imp_right And.left) hi (h.other i hi)

theorem body_setSqNext (k : Kernel) (t : Slot) (o : Option Slot) :
    (k.setSqNext t o).view Tcb.body = k.view Tcb.body := k.view_modTcb_frame t rfl

theorem body_sendqAppend (k : Kernel) (rcv s : Slot) :
    (k.sendqAppend rcv s).view Tcb.body = k.view Tcb.body := by
  unfold sendqAppend
  dsimp only
  refine (view_modTcb_frame _ rcv rfl).trans ?_
  split
  · exact (body_setSqNext ..).trans (body_setSqNext ..)
  · exact (view_modTcb_frame _ rcv rfl).trans (body_setSqNext ..)

theorem turn_ipcPark {dest : Slot} (may : F.answers) (hc : F.caller = some me)
    (hlives : k.schedGetTcb (k.tcb me).uctx.destTid = some dest) (hne : dest ≠ me) :
    Turn F c k i ((k.ipcPark me dest).tcb i) := by
  unfold ipcPark
  dsimp only
  set k₁ := k.modTcb me fun x =>
    { x with
      ipcBuffer := payloadFromFrame (k.tcb me).uctx, ipcFlags := (k.tcb me).uctx.flags
      ipcPartner := (k.tcb me).uctx.destTid
      ipcRecvAfter := if (k.tcb me).uctx.wantRecv then (k.tcb me).uctx.srcFilter else noRecvAfter }
    with hk₁
  have hbody : ((k₁.sendqAppend dest me).tcb i).body = (k₁.tcb i).body :=
    congrFun (k₁.body_sendqAppend dest me) i
  rw [schedBlock, setState, modTcb_tcb]
  split
  · rename_i hi
    obtain rfl := TcbRef.thread.inj hi
    refine .park may hc hlives hne ?_
    have hset : ∀ x : Tcb, { x with state := ThreadState.waitSend }.body =
      { x.body with state := .waitSend } := fun _ => rfl
    rw [hset, hbody, hk₁, modTcb_tcb_self]
    rfl
  · rename_i hi
    refine .same (hbody.trans ?_)
    rw [hk₁, modTcb_tcb_of_ne _ hi]

theorem body_schedWake (k : Kernel) (c : Cpu) (t i : Slot) : ((k.schedWake c t).tcb i).body =
    if i = t then { k.tcb i with state := (k.tcb i).state.woken }.body else (k.tcb i).body := by
  have hwake := body_of_vital ((k.alike_schedWake c t).tcb i)
  rw [hwake, modTcb_tcb]
  by_cases hi : i = t
  · subst hi
    simp only [if_true]
    rfl
  · simp only [hi, if_false, TcbRef.thread.injEq]

theorem body_notifDeliver (hi : k.notifWaiter idx ≠ some i) (bits : Word) :
    ((k.notifDeliver c idx bits).tcb i).body = (k.tcb i).body := by
  rw [notifDeliver_eq]
  dsimp only
  split
  · rfl
  rename_i w hw
  have hne : i ≠ w := fun heq => hi (heq ▸ hw)
  rw [body_schedWake, if_neg hne, modUctx, modTcb_tcb_of_ne _ (by simpa using hne)]

theorem body_notifDeliver_waiter (hw : k.notifWaiter idx = some i) (bits : Word) :
    ((k.notifDeliver c idx bits).tcb i).body = { k.tcb i with
      uctx := { (k.tcb i).uctx with
        r8 := (k.notifTable idx).word ||| bits, rax := IpcErr.none.toWord }
      state := (k.tcb i).state.woken }.body := by
  rw [notifDeliver_eq, hw]
  dsimp only
  rw [body_schedWake, if_pos rfl, modUctx, modTcb_tcb_self]

theorem turn_notifDeliver (hnotified : ∀ w ∈ k.notifWaiter idx, F.notified w) (bits : Word) :
    Turn F c k i ((k.notifDeliver c idx bits).tcb i) := by
  by_cases hw : k.notifWaiter idx = some i
  · exact .notified (hnotified i hw) hw (body_notifDeliver_waiter hw bits)
  · exact .same (body_notifDeliver hw bits)

theorem alike_told (hwaits : k.WaitsFor p me) : (k.modTcb p fun x =>
      { x with uctx := childRegs me (k.tcb me).exitStatus x.uctx, state := .ready }).Alike
      ((k.modUctx p (childRegs me (k.tcb me).exitStatus)).schedWake c p) := by
  refine alike_modUctx_schedWake _ ?_
  unfold Asleep
  rw [hwaits.1]
  decide

theorem fate_exitTold (hwaits : k.WaitsFor p me) (hi : i ≠ me) : Fate k me i (if i = p then
        { k.tcb i with uctx := childRegs me (k.tcb me).exitStatus (k.tcb i).uctx, state := .ready }
      else k.tcb i)
      ((((k.modUctx p (childRegs me (k.tcb me).exitStatus)).schedWake c p).terminateTcb c me
        .dead).tcb i) := by
  have halike := alike_told (c := c) hwaits
  have hsenders : ((k.modUctx p (childRegs me (k.tcb me).exitStatus)).schedWake c
    p).core.senders me =
      k.core.senders me := by
    rw [core_schedWake, core_modUctx, Core.wake_eq]
    rfl
  generalize (k.modUctx p (childRegs me (k.tcb me).exitStatus)).schedWake c p =
    k₁ at halike hsenders ⊢
  have hfate := ((ended_terminateTcb k₁ c me (.inl rfl)).other i hi).congr hsenders
  refine hfate.of_vital_left ?_
  rw [halike.tcb i, modTcb_tcb]
  by_cases hip : i = p
  · subst hip
    simp only [if_true]
  · simp only [hip, if_false, TcbRef.thread.injEq]

/-- The thread itself, which the code does not know not to be its own parent. -/
theorem self_exitTold (hwaits : k.WaitsFor p me) {k' : Kernel}
    (hk' : ((k.modUctx p (childRegs me (k.tcb me).exitStatus)).schedWake c p).terminateTcb c me
      .dead = k') :
    ((k.tcb me).parentTid ≠ me.tid → (k'.tcb me).state = .dead) ∧
      ((k'.tcb me).state = .dead ∨ (k'.tcb me).state = .zombie) ∧
      (k'.tcb me).body = ((k.tcb me).departed (k'.tcb me)
        (if me ≠ 0 ∧ (k.tcb me).parentTid = me.tid then 0 else (k.tcb me).parentTid)).body := by
  have halike := alike_told (c := c) hwaits
  generalize (k.modUctx p (childRegs me (k.tcb me).exitStatus)).schedWake c p = k₁ at halike hk'
  have hended := ended_terminateTcb k₁ c me (.inl rfl)
  rw [hk'] at hended
  have hparent : (k₁.tcb me).parentTid = (k.tcb me).parentTid := by
    rw [halike.field Tcb.parentTid me fun _ => rfl, modTcb_tcb]
    split <;> rfl
  refine ⟨fun hp => hended.state (hparent ▸ hp), hended.gone, ?_⟩
  have hself := hended.self
  rw [hparent] at hself
  refine body_of_vital (hself.trans ?_)
  rw [Tcb.vital_departed, halike.tcb me, ← Tcb.vital_departed, modTcb_tcb]
  split <;> rfl

theorem turn_exitTold (hx : F.exits me) (hcur : k.current c = some me)
    (hruns : F.live → (k.tcb me).state = .running)
    (hlives : k.schedGetTcb (k.tcb me).parentTid = some p) (hwaits : k.WaitsFor p me) :
    Turn F c k i ((((k.modUctx p (childRegs me (k.tcb me).exitStatus)).schedWake c
      p).terminateTcb c me .dead).tcb i) := by
  rcases eq_or_ne i me with rfl | hi
  · obtain ⟨hstate, hgone, hbody⟩ := self_exitTold (c := c) hwaits rfl
    exact .ended (.inr ⟨hx, hruns⟩) (.inl rfl) hstate hgone hbody
  have hfate := fate_exitTold (c := c) hwaits hi
  split at hfate
  · rename_i hip
    subst hip
    exact .told hx hcur hi hlives hwaits hfate
  · exact .fate (.inr hx) hi hfate

theorem Ends.turn (h : Ends F c k t k') (i : Slot) : Turn F c k i (k'.tcb i) := by
  cases h with
  | kill hk => exact (ended_terminateTcb k c t (.inl rfl)).turn (.inl rfl) (.inl hk)
  | exitAlone hx _ runs =>
    exact (ended_terminateTcb k c t (.inl rfl)).turn (.inl rfl) (.inr ⟨hx, runs⟩)
  | exitTold hx hcur runs lives waits => exact turn_exitTold hx hcur runs lives waits
  | exitZombie hx _ runs =>
    exact (ended_terminateTcb k c t (.inr rfl)).turn (.inr rfl) (.inr ⟨hx, runs⟩)

/-- What the end of a thread does to another, which may wait for it. -/
theorem Ends.fate (h : Ends F c k t k') (hi : i ≠ t) : Fate k t i (k.tcb i) (k'.tcb i) ∨
    k.schedGetTcb (k.tcb t).parentTid = some i ∧ (F.live → (k.tcb t).state = .running) ∧
      k.WaitsFor i t ∧ Fate k t i
        { k.tcb i with uctx := childRegs t (k.tcb t).exitStatus (k.tcb i).uctx, state := .ready }
        (k'.tcb i) := by
  cases h with
  | kill | exitAlone => exact .inl ((ended_terminateTcb k c t (.inl rfl)).other i hi)
  | exitZombie => exact .inl ((ended_terminateTcb k c t (.inr rfl)).other i hi)
  | exitTold _ _ runs lives waits =>
    have hfate := fate_exitTold (c := c) waits hi
    split at hfate
    · rename_i hip
      subst hip
      exact .inr ⟨lives, runs, waits, hfate⟩
    · exact .inl hfate

/-- **Turns.**  What an act does to one thread. -/
theorem Act.turn (h : Act F c k k') (i : Slot) : Turn F c k i (k'.tcb i) := by
  cases h with
  | quiet alike => exact .same (body_of_vital (alike.tcb i))
  | deadline | tick | arm | timers | slots | services | caps | newNotification | takeBits =>
    exact .same rfl
  | notify idx bits _ hw => exact turn_notifDeliver hw bits
  | @waitNotif me idx hn hc =>
    have hturn : Turn F c k i ((k.setState me .waitNotification).tcb i) := turn_modTcb fun hi => by
      subst hi
      exact .waitNotif hn hc rfl
    exact hturn
  | enqueue _ _ _ _ _ _ push =>
    obtain ⟨-, rfl⟩ := faultQueuePush_eq_some push
    exact .same rfl
  | takeFault _ take =>
    obtain ⟨-, rfl⟩ := vmTakeQueuedFault_eq_some take
    exact .same rfl
  | edit edit =>
    refine turn_modTcb fun hi => ?_
    subst hi
    exact .edit edit rfl
  | @hand t g may answers =>
    have hturn : Turn F c k i ((k.modTcb t fun x =>
        { x with uctx := g x.uctx, state := .running }).tcb i) := turn_modTcb fun hi => by
      subst hi
      exact .hand may answers rfl
    rw [← modTcb_modTcb k t (fun x => { x with uctx := g x.uctx }) fun x =>
      { x with state := .running }] at hturn
    exact hturn
  | park may hc lives ne _ => exact turn_ipcPark may hc lives ne
  | @unlink me s prev filter _ _ =>
    exact .same (congrFun (k.view_sendqUnlink me prev s (π := Tcb.body) fun _ _ _ _ => rfl) i)
  | @reap me z filter live hr hc _ found =>
    rw [modUctx, modTcb_tcb]
    split
    · rename_i hi
      obtain rfl := TcbRef.thread.inj hi
      rw [setState, modTcb_tcb]
      split
      · rename_i hz
        obtain rfl := TcbRef.thread.inj hz
        exact .reaped hr hc found rfl
      · exact .reaper hc rfl
    · refine turn_modTcb fun hi => ?_
      subst hi
      exact .reaped hr hc found rfl
  | ends ends => exact ends.turn i
  | pick next ready =>
    cases next with
    | none => exact .same rfl
    | some t =>
      have hturn : Turn F c k i ((k.setState t .running).tcb i) := turn_modTcb fun hi => by
        subst hi
        exact .picked (ready i rfl) rfl
      exact hturn

/-! ## Tables -/

theorem SameTables.invalidate (h : k.SameTables k₁) (t : Slot) : SameTables
    { k with
      kcapTable := (k.kcapInvalidateTcbDeath t.tid).kcapTable
      notifTable := (k.notifInvalidateWaiterDeath t.tid).notifTable }
    { k₁ with
      kcapTable := (k₁.kcapInvalidateTcbDeath t.tid).kcapTable
      notifTable := (k₁.notifInvalidateWaiterDeath t.tid).notifTable } :=
  { h with
    kcapTable := by
      dsimp only [kcapInvalidateTcbDeath]
      rw [h.kcapTable]
    notifTable := by
      dsimp only [notifInvalidateWaiterDeath]
      rw [h.notifTable, h.notifCount] }

theorem sameTables_schedWake (k : Kernel) (c : Cpu) (t : Slot) :
    k.SameTables (k.schedWake c t) := by
  obtain ⟨tcb, inbox, flags, heq⟩ := schedWake_eq k c t
  rw [heq]
  exact ⟨rfl, rfl, rfl, rfl, rfl, rfl, rfl, rfl⟩

inductive Tables (F : Effects) (c : Cpu) (k k' : Kernel) : Prop
  | same (same : k.SameTables k')
  | tick {n : Word} (ticks : F.ticks) (same : SameTables { k with nowTicks := k.nowTicks + n } k')
  | arm {n : Word} (arms : F.arms)
    (same : SameTables { k with armedTicks := update k.armedTicks c n } k')
  | caps {caps : List Kcap} (kept : CapsKept F k caps)
    (same : SameTables { k with kcapTable := caps } k')
  | newNotification (same : SameTables { k with
      notifCount := k.notifCount + 1
      notifTable := update k.notifTable k.notifCount { inUse := true } } k')
  | notify {idx : Nat} {bits : Word} (notifies : F.notifies)
      (same : SameTables { k with notifTable := (k.notifDeliver c idx bits).notifTable } k')
  | takeBits {idx : Nat} (notifies : F.notifies) (same : SameTables { k with
      notifTable := update k.notifTable idx { k.notifTable idx with word := 0 } } k')
  | waitNotif {idx : Nat} {me : Slot} (watches : F.watches) (caller : F.caller = some me)
      (same : SameTables { k with
        notifTable := update k.notifTable idx
          { k.notifTable idx with waiter := me.tid } } k')
  | enqueue {me : Slot} {msg : FaultMsg} (faults : F.faults me)
    (faulter : msg.faultingThread = me.tid)
      (lives : (k.schedGetTcb (k.tcb me).pagerTid).isSome) (room : k.faultHead + 1 ≠ k.faultTail)
      (same : SameTables { k with
        faultEntries := update k.faultEntries k.faultHead msg
        faultHead := k.faultHead + 1 } k')
  | takeFault (some : k.faultHead ≠ k.faultTail)
      (same : SameTables { k with faultTail := k.faultTail + 1 } k')
  | ended {t : Slot} (ends : F.kills t ∨ F.exits t) (same : SameTables { k with
      kcapTable := (k.kcapInvalidateTcbDeath t.tid).kcapTable
      notifTable := (k.notifInvalidateWaiterDeath t.tid).notifTable } k')

theorem sameTables_sendqUnlink (k : Kernel) (rcv : Slot) (prev : Option Slot) (s : Slot) :
    k.SameTables (k.sendqUnlink rcv prev s) := by
  cases prev <;> exact ⟨rfl, rfl, rfl, rfl, rfl, rfl, rfl, rfl⟩

theorem sameTables_ipcPark (k : Kernel) (me dest : Slot) : k.SameTables (k.ipcPark me dest) := by
  unfold ipcPark sendqAppend
  dsimp only
  split <;> exact ⟨rfl, rfl, rfl, rfl, rfl, rfl, rfl, rfl⟩

theorem sameTables_notifDeliver (k : Kernel) (c : Cpu) (idx : Nat) (bits : Word) :
    SameTables { k with notifTable := (k.notifDeliver c idx bits).notifTable }
      (k.notifDeliver c idx bits) := by
  rw [notifDeliver_eq]
  split
  · exact ⟨rfl, rfl, rfl, rfl, rfl, rfl, rfl, rfl⟩
  · exact { sameTables_schedWake (k.modUctx _ _) c _ with notifTable := rfl }

theorem Ends.sameTables (h : Ends F c k t k') : SameTables { k with
    kcapTable := (k.kcapInvalidateTcbDeath t.tid).kcapTable
    notifTable := (k.notifInvalidateWaiterDeath t.tid).notifTable } k' := by
  have hended : ∀ {k : Kernel} {final : ThreadState} {k' : Kernel}, k.Ended t final k' →
    SameTables { k with
      kcapTable := (k.kcapInvalidateTcbDeath t.tid).kcapTable
      notifTable := (k.notifInvalidateWaiterDeath t.tid).notifTable } k' :=
    fun h => { h.rest with }
  cases h with
  | kill | exitAlone => exact hended (ended_terminateTcb k c t (.inl rfl))
  | @exitTold p =>
    have hwake : k.SameTables ((k.modUctx p (childRegs t (k.tcb t).exitStatus)).schedWake c p) :=
      { sameTables_schedWake (k.modUctx p (childRegs t (k.tcb t).exitStatus)) c p with }
    generalize (k.modUctx p (childRegs t (k.tcb t).exitStatus)).schedWake c p = k₁ at hwake ⊢
    exact (hwake.invalidate t).trans (hended (ended_terminateTcb k₁ c t (.inl rfl)))
  | exitZombie => exact hended (ended_terminateTcb k c t (.inr rfl))

theorem Ends.allowed (h : Ends F c k t k') : F.kills t ∨ F.exits t := by
  cases h with
  | kill hk => exact .inl hk
  | exitAlone hx | exitTold hx | exitZombie hx => exact .inr hx

/-- What each act does to the tables. -/
theorem Act.tables (h : Act F c k k') : Tables F c k k' := by
  cases h with
  | quiet alike => exact .same alike.toSameTables
  | deadline | timers | slots | services | edit | hand | reap =>
    exact .same ⟨rfl, rfl, rfl, rfl, rfl, rfl, rfl, rfl⟩
  | tick n ht => exact .tick ht (.refl _)
  | arm n ha => exact .arm ha (.refl _)
  | caps kept => exact .caps kept (.refl _)
  | newNotification => exact .newNotification (.refl _)
  | notify idx bits hn => exact .notify hn (k.sameTables_notifDeliver c idx bits)
  | takeBits idx hn => exact .takeBits hn (.refl _)
  | waitNotif idx hn hc => exact .waitNotif hn hc ⟨rfl, rfl, rfl, rfl, rfl, rfl, rfl, rfl⟩
  | enqueue hf _ faulter lives _ _ push =>
    obtain ⟨hroom, rfl⟩ := faultQueuePush_eq_some push
    exact .enqueue hf faulter (by rw [lives]; rfl) hroom (.refl _)
  | takeFault _ take =>
    obtain ⟨hsome, rfl⟩ := vmTakeQueuedFault_eq_some take
    exact .takeFault hsome (.refl _)
  | park => exact .same (sameTables_ipcPark ..)
  | unlink => exact .same (sameTables_sendqUnlink ..)
  | ends ends => exact .ended ends.allowed ends.sameTables
  | pick next => cases next <;> exact .same ⟨rfl, rfl, rfl, rfl, rfl, rfl, rfl, rfl⟩

/-! ## Rules -/

/-- A signal that is pending was so before, or has been sent. -/
theorem Turn.pending (h : Turn F c k i y) {b : Nat} (hb : y.sigPending.getLsbD b = true) :
    (k.tcb i).sigPending.getLsbD b = true ∨ F.signals i := by
  have hkeep : y.sigPending = (k.tcb i).sigPending → (k.tcb i).sigPending.getLsbD b = true :=
    fun heq => heq ▸ hb
  cases h with
  | @edit f edit body =>
    have hy : y.sigPending = (f (k.tcb i)).sigPending := (congrArg Tcb.sigPending body :)
    cases edit with
    | own _ own => exact .inl (hkeep (hy.trans (congrArg Tcb.sigPending own :)))
    | signal _ hs => exact .inr hs
    | create _ _ _ _ born =>
      have hzero : y.sigPending = 0 := hy.trans (congrArg Tcb.sigPending born :)
      rw [hzero] at hb
      simp at hb
    | ack mark =>
      rw [hy, BitVec.getLsbD_and, Bool.and_eq_true] at hb
      exact .inl hb.1
    | regroup | sleep | console | receive | waitChild | waitExec | stall | yield | answer
    | image | sent
    | sentReceive | alarm | resolve | adopt | status | handler | preempt => exact .inl (hkeep hy)
  | same body | hand _ _ body | park _ _ _ _ body | notified _ _ body | waitNotif _ _ body
  | reaped _ _ _ body | reaper _ body | picked _ body =>
    exact .inl (hkeep (congrArg Tcb.sigPending body :))
  | ended _ _ _ _ body => exact .inl (hkeep (congrArg Tcb.sigPending body :))
  | fate _ _ fate => exact .inl (hkeep (congrArg Tcb.sigPending fate.frame :))
  | told _ _ _ _ _ fate => exact .inl (hkeep (congrArg Tcb.sigPending fate.frame :))

def FatalPending (x : Tcb) : Prop :=
  ∃ i : Fin 64, x.sigPending.getLsbD i.val = true ∧ sigDefaultTerminates (i.val + 1) = true
deriving Decidable

theorem Acts.fatalPending (h : Acts F c k k') (hp : FatalPending (k'.tcb i)) :
    FatalPending (k.tcb i) ∨ F.signals i := by
  refine h.invariant (I := fun k' => FatalPending (k'.tcb i) → FatalPending (k.tcb i) ∨ F.signals i)
    ?_ .inl hp
  rintro k₁ k₂ ih hact ⟨b, hb, hfatal⟩
  rcases (hact.turn i).pending hb with hb | hs
  · exact ih ⟨b, hb, hfatal⟩
  · exact .inr hs

/-! ## Threads that stay -/

theorem woken_lives {s : ThreadState} (h : s ≠ .dead ∧ s ≠ .zombie) :
    s.woken ≠ .dead ∧ s.woken ≠ .zombie := by
  unfold ThreadState.woken
  split
  · decide
  · exact h

theorem Fate.lives (h : Fate k u i x y) (hx : x.state ≠ .dead ∧ x.state ≠ .zombie) :
    y.state ≠ .dead ∧ y.state ≠ .zombie := by
  cases h.outcome with
  | spared _ hs => exact hs ▸ hx
  | buried hz => exact absurd hz hx.2
  | flushed _ _ hs => exact hs ▸ woken_lives hx
  | orphaned _ _ _ hs | failed _ _ hs => rw [hs]; decide

/-- A thread that has not ended and does not end in the section is still there. -/
theorem Turn.lives (h : Turn F c k i y) (hl : k.Lives i) (hk : ¬ F.kills i)
    (hx : ¬ F.exits i) : y.state ≠ .dead ∧ y.state ≠ .zombie := by
  have hkeep : y.state = (k.tcb i).state → y.state ≠ .dead ∧ y.state ≠ .zombie := fun heq =>
    heq ▸ hl
  cases h with
  | same body | reaper _ body => exact hkeep (congrArg Tcb.state body :)
  | @edit f edit body =>
    have hy : y.state = (f (k.tcb i)).state := (congrArg Tcb.state body :)
    cases edit with
    | own _ own => exact hkeep (hy.trans (congrArg Tcb.state own :))
    | regroup | adopt | status | ack | handler => exact hkeep hy
    | create _ _ dead => exact absurd dead hl.1
    | sent | signal =>
      rw [hy]
      dsimp only
      split
      · decide
      · exact hl
    | sleep | console | receive | waitChild | waitExec | stall | yield | answer | image
    | sentReceive
    | alarm | resolve | preempt => simp [hy]
  | hand _ _ body | park _ _ _ _ body | waitNotif _ _ body | picked _ body =>
    simp [field_of_body body Tcb.state fun _ => rfl]
  | notified _ _ body =>
    rw [field_of_body body Tcb.state fun _ => rfl]
    exact woken_lives hl
  | reaped _ _ found => exact absurd (schedFindZombieChild_spec found).2.2 hl.2
  | ended ends => exact absurd (ends.imp_right And.left) (not_or.mpr ⟨hk, hx⟩)
  | fate _ _ fate => exact fate.lives hl
  | told _ _ _ _ _ fate => exact fate.lives (by simp)

theorem Turn.pagerTid (h : Turn F c k i y) (hl : k.Lives i) : y.pagerTid = (k.tcb i).pagerTid := by
  cases h with
  | edit edit body =>
    have hy := congrArg Tcb.pagerTid body
    cases edit with
    | own _ own => exact hy.trans (congrArg Tcb.pagerTid own :)
    | create _ _ dead => exact absurd dead hl.1
    | _ => exact hy
  | same body | hand _ _ body | park _ _ _ _ body | notified _ _ body | waitNotif _ _ body
  | reaped _ _ _ body | reaper _ body | picked _ body => exact (congrArg Tcb.pagerTid body :)
  | ended _ _ _ _ body => exact (congrArg Tcb.pagerTid body :)
  | fate _ _ fate => exact (congrArg Tcb.pagerTid fate.frame :)
  | told _ _ _ _ _ fate => exact (congrArg Tcb.pagerTid fate.frame :)

end Kernel

end Robu
