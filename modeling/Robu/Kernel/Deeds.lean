import Robu.Kernel.Act
import Robu.Kernel.AuthFrame

/-!
# What a section does to time and to exec requests

The kernel keeps two small tables that most of its functions leave alone: deadlines (the
sleepers, the timer objects and the earliest deadline) and the slots of exec requests.
`SameTimes` and `SameRequests` say that a state differs in neither, except that threads may
stop to sleep or to wait.  `Deed` lists what a section can do to the two tables otherwise.

One lemma for each function of the kernel, up to `Kernel.step`, says which deeds it does.
-/

namespace Robu

open Function (update update_self)

/-- A thread that sleeps in `y` slept in `x`, until the same tick. -/
def Tcb.SleepsAs (x y : Tcb) : Prop :=
  y.state = .sleeping → x.state = .sleeping ∧ y.wakeAtTick = x.wakeAtTick

/-- A thread that waits for a request in `y` waited for it in `x`. -/
def Tcb.WaitsAs (x y : Tcb) : Prop :=
  y.state = .waitExecreq → x.state = .waitExecreq ∧ y.execreqSlot = x.execreqSlot

structure Tcb.Still (x y : Tcb) : Prop where
  sleeps : x.SleepsAs y
  waits : x.WaitsAs y

namespace Tcb

variable {x y z : Tcb}

theorem Still.trans (h : x.Still y) (h' : y.Still z) : x.Still z where
  sleeps hz := by
    obtain ⟨hy, hw⟩ := h'.sleeps hz
    obtain ⟨hx, hw'⟩ := h.sleeps hy
    exact ⟨hx, hw.trans hw'⟩
  waits hz := by
    obtain ⟨hy, hs⟩ := h'.waits hz
    obtain ⟨hx, hs'⟩ := h.waits hy
    exact ⟨hx, hs.trans hs'⟩

theorem Still.of_state (hs : y.state = x.state) (hw : y.wakeAtTick = x.wakeAtTick)
    (hr : y.execreqSlot = x.execreqSlot) : x.Still y :=
  ⟨fun h => ⟨hs ▸ h, hw⟩, fun h => ⟨hs ▸ h, hr⟩⟩

theorem Still.of_ne {s : ThreadState} (hy : y.state = s) (hs : s ≠ .sleeping ∧ s ≠ .waitExecreq) :
    x.Still y :=
  ⟨fun h => absurd (hy.symm.trans h) hs.1, fun h => absurd (hy.symm.trans h) hs.2⟩

theorem Still.of_woken {p : Prop} [Decidable p] (hs : y.state = if p then .ready else x.state)
    (hw : y.wakeAtTick = x.wakeAtTick) (hr : y.execreqSlot = x.execreqSlot) : x.Still y := by
  split at hs
  · exact .of_ne hs (by decide)
  · exact .of_state hs hw hr

theorem Still.refl (x : Tcb) : x.Still x := .of_state rfl rfl rfl

theorem still_of_vital (h : y.vital = x.vital) : x.Still y :=
  .of_state (congrArg Tcb.state h :) (congrArg Tcb.wakeAtTick h :) (congrArg Tcb.execreqSlot h :)

end Tcb

namespace Kernel

/-! ## Deeds -/

structure SameTimes (k k' : Kernel) : Prop where
  nowTicks : k'.nowTicks = k.nowTicks
  nextDeadline : k'.nextDeadline = k.nextDeadline
  timerTable : k'.timerTable = k.timerTable
  timerCount : k'.timerCount = k.timerCount
  sleeps : ∀ t : Slot, (k.tcb t).SleepsAs (k'.tcb t)

/-- The requests are the same, and nobody begins to wait for one. -/
structure SameRequests (k k' : Kernel) : Prop where
  execSlots : k'.execSlots = k.execSlots
  ext2fsTid : k'.ext2fsTid = k.ext2fsTid
  waits : ∀ t : Slot, (k.tcb t).WaitsAs (k'.tcb t)

structure Doing where
  accepts : Prop
  sleeps : Prop
  /-- It arms a timer with this delay and this period. -/
  arms : Word → Word → Prop
  ticks : Prop
  /-- It is a reply to a request, and hands out none. -/
  replies : Prop
  /-- It collects what became of a request of the kernel. -/
  collects : Prop
  registers : Prop
  ends : Slot → Prop

/-- **Deadlines.**  What a section can do to them. -/
inductive TimeDeed (D : Doing) : Kernel → Kernel → Prop
  | sleep {k : Kernel} (me : Slot) (tick : Word) (sleeps : D.sleeps) :
    TimeDeed D k ((k.modTcb me fun x =>
        { x with wakeAtTick := tick, state := .sleeping }).schedNoteDeadline tick)
  | arm {k : Kernel} (i : Nat) {t : TimerObj} {delay : Word} (arms : D.arms delay t.periodTicks)
      (inUse : t.inUse = (k.timerTable i).inUse) :
      TimeDeed D k (({ k with timerTable := update k.timerTable i t }
        : Kernel).schedNoteDeadline t.deadlineTick)
  | disarm {k : Kernel} (i : Nat) : TimeDeed D k { k with
        timerTable := update k.timerTable i { k.timerTable i with armed := false } }
  | create {k : Kernel} : TimeDeed D k { k with
        timerCount := k.timerCount + 1
        timerTable := update k.timerTable k.timerCount { inUse := true, notifIdx := -1 } }
  /-- The clock advances, with all that this brings. -/
  | tick {k k' : Kernel} (ticks : D.ticks) : TimeDeed D k k'

inductive RequestEvent
  | accepted
  /-- It is handed to the file server. -/
  | delivered
  /-- It is completed, and the kernel has yet to collect the result. -/
  | completed
  /-- It is completed, and its requester is told. -/
  | answered
  /-- It fails, since the file server is gone. -/
  | failed
  /-- It is given up, since its requester is gone. -/
  | cancelled
  | collected
deriving DecidableEq

inductive Release (D : Doing) (k : Kernel) (i : Fin 8) : RequestEvent → Prop
  | answered (replies : D.replies) (delivered : (k.execSlots i).state = .delivered)
      (thread : (k.execSlots i).params.requesterTid ≠ 0) : Release D k i .answered
  | failed {t : Slot} (ends : D.ends t) (server : k.ext2fsTid = t.tid)
      (occupied : (k.execSlots i).state ≠ .empty) : Release D k i .failed
  | cancelled {t : Slot} (ends : D.ends t) (requester : (k.execSlots i).params.requesterTid = t.tid)
      (occupied : (k.execSlots i).state ≠ .empty) : Release D k i .cancelled
  | collected (collects : D.collects) (done : (k.execSlots i).state = .pollDone) :
    Release D k i .collected

/-- **Requests.**  What a section can do to one of them. -/
inductive RequestDeed (D : Doing) : Fin 8 → RequestEvent → Kernel → Kernel → Prop
  /-- The request of a thread is accepted, and it waits for the reply. -/
  | accept {k : Kernel} {i : Fin 8} {me : Slot} {params : ExecreqParams} (accepts : D.accepts)
      (empty : (k.execSlots i).state = .empty) (requester : params.requesterTid = me.tid) :
      RequestDeed D i .accepted k
        ((k.modSlot i fun s => { s with params := params, state := .queued }).modTcb me
          fun x => { x with execreqSlot := BitVec.ofNat 32 i.val, state := .waitExecreq })
  /-- A request of the kernel is accepted. -/
  | acceptPoll {k : Kernel} {i : Fin 8} {params : ExecreqParams} (accepts : D.accepts)
      (empty : (k.execSlots i).state = .empty) :
      RequestDeed D i .accepted k (k.modSlot i fun s =>
        { s with params := { params with requesterTid := 0 }, pollChild := none, state := .queued })
  /-- A request is handed to the file server. -/
  | deliver {k : Kernel} {i : Fin 8} (other : ¬ D.replies)
    (queued : (k.execSlots i).state = .queued) :
      RequestDeed D i .delivered k (k.modSlot i fun s => { s with state := .delivered })
  /-- A request of the kernel is completed. -/
  | done {k : Kernel} {i : Fin 8} (child : Option Slot) (replies : D.replies)
      (delivered : (k.execSlots i).state = .delivered)
      (kernel : (k.execSlots i).params.requesterTid = 0) :
      RequestDeed D i .completed k (k.modSlot i fun s =>
        { s with pollChild := child, state := .pollDone })
  /-- A slot is given back, when its requester does not wait for it (any more). -/
  | free {k : Kernel} {i : Fin 8} {e : RequestEvent} (release : Release D k i e)
      (unawaited : ∀ t : Slot, t ≠ 0 → (k.execSlots i).params.requesterTid = t.tid →
        ¬ k.awaitsSlot t i) : RequestDeed D i e k (k.freeSlot i)

/-- **Deeds.** -/
inductive Deed (D : Doing) (k k' : Kernel) : Prop
  | steady (times : k.SameTimes k') (requests : k.SameRequests k')
  | time (deed : TimeDeed D k k') (requests : k.SameRequests k')
  | request {i : Fin 8} {e : RequestEvent} (deed : RequestDeed D i e k k') (times : k.SameTimes k')
  | register (registers : D.registers) (times : k.SameTimes k')
    (execSlots : k'.execSlots = k.execSlots)
      (tcb : k'.tcb = k.tcb)

abbrev Deeds (D : Doing) : Kernel → Kernel → Prop := Relation.ReflTransGen (Deed D)

structure Steady (k k' : Kernel) : Prop where
  times : k.SameTimes k'
  requests : k.SameRequests k'

variable {D : Doing} {c : Cpu} {env : Env} {k k' k₁ k₂ : Kernel} {me t : Slot}

theorem Steady.deeds (h : k.Steady k') : Deeds D k k' := .single (.steady h.times h.requests)

/-! ## Steady states -/

theorem steady_of_still (hnow : k'.nowTicks = k.nowTicks) (hnext : k'.nextDeadline = k.nextDeadline)
    (htable : k'.timerTable = k.timerTable) (hcount : k'.timerCount = k.timerCount)
    (hslots : k'.execSlots = k.execSlots) (hserver : k'.ext2fsTid = k.ext2fsTid)
    (hstill : ∀ t : Slot, (k.tcb t).Still (k'.tcb t)) : k.Steady k' :=
  ⟨⟨hnow, hnext, htable, hcount, fun t => (hstill t).sleeps⟩, hslots, hserver, fun t =>
    (hstill t).waits⟩

theorem Steady.still (h : k.Steady k') (t : Slot) : (k.tcb t).Still (k'.tcb t) :=
  ⟨h.times.sleeps t, h.requests.waits t⟩

theorem Steady.refl (k : Kernel) :
    k.Steady k := steady_of_still rfl rfl rfl rfl rfl rfl fun _ => .refl _

theorem Steady.trans (h : k.Steady k₁) (h' : k₁.Steady k₂) : k.Steady k₂ :=
  steady_of_still (h'.times.nowTicks.trans h.times.nowTicks)
    (h'.times.nextDeadline.trans h.times.nextDeadline)
      (h'.times.timerTable.trans h.times.timerTable)
    (h'.times.timerCount.trans h.times.timerCount)
    (h'.requests.execSlots.trans h.requests.execSlots)
      (h'.requests.ext2fsTid.trans h.requests.ext2fsTid)
    fun t => (h.still t).trans (h'.still t)

theorem Steady.rest (h : k.Steady k₁)
    (hrest : (k'.tcb, k'.nowTicks, k'.nextDeadline, k'.timerTable, k'.timerCount, k'.execSlots,
      k'.ext2fsTid) = (k₁.tcb, k₁.nowTicks, k₁.nextDeadline, k₁.timerTable, k₁.timerCount,
        k₁.execSlots, k₁.ext2fsTid)) :
    k.Steady k' := by
  simp only [Prod.mk.injEq] at hrest
  obtain ⟨htcb, hnow, hnext, htable, hcount, hslots, hserver⟩ := hrest
  exact h.trans (steady_of_still hnow hnext htable hcount hslots hserver fun t => by
    rw [htcb]; exact .refl _)

theorem Alike.steady (h : k.Alike k') : k.Steady k' :=
  steady_of_still h.nowTicks h.nextDeadline h.timerTable h.timerCount h.execSlots h.ext2fsTid
    fun t => Tcb.still_of_vital (h.tcb t)

/-! ## Calm states -/

/-- The tables stay as they are, and no tid gains authority. -/
structure Calm (k k' : Kernel) : Prop extends k.Steady k' where
  grants : Grants ∅ k k'

structure Works (D : Doing) (k k' : Kernel) : Prop where
  deeds : Deeds D k k'
  grants : Grants ∅ k k'

theorem Works.refl : Works D k k := ⟨.refl, .of_auth rfl⟩

theorem Works.trans (h : Works D k k₁) (h' : Works D k₁ k₂) : Works D k k₂ :=
  ⟨h.deeds.trans h'.deeds, h.grants.trans h'.grants⟩

theorem Works.single (h : Deed D k k') (ha : k'.auth = k.auth) :
    Works D k k' := ⟨.single h, .of_auth ha⟩

theorem Calm.works (h : k.Calm k') : Works D k k' := ⟨h.toSteady.deeds, h.grants⟩

theorem Calm.refl (k : Kernel) : k.Calm k := ⟨.refl k, .of_auth rfl⟩

theorem Calm.trans (h : k.Calm k₁) (h' : k₁.Calm k₂) : k.Calm k₂ :=
  ⟨h.toSteady.trans h'.toSteady, h.grants.trans h'.grants⟩

theorem Calm.rest (h : k.Calm k₁)
    (hrest : (k'.auth, k'.tcb, k'.nowTicks, k'.nextDeadline, k'.timerTable, k'.timerCount,
      k'.execSlots, k'.ext2fsTid) =
        (k₁.auth, k₁.tcb, k₁.nowTicks, k₁.nextDeadline, k₁.timerTable, k₁.timerCount,
      k₁.execSlots, k₁.ext2fsTid)) : k.Calm k' := by
  obtain ⟨ha, hrest⟩ := Prod.mk.inj hrest
  exact ⟨h.toSteady.rest hrest, h.grants.trans (.of_auth ha)⟩

theorem Alike.calm (h : k.Alike k') (ha : k'.auth = k.auth) : k.Calm k' := ⟨h.steady, .of_auth ha⟩

theorem calm_modTcb (u : TcbRef) {f : Tcb → Tcb}
    (hf : (k.tcb u).Still (f (k.tcb u))) : k.Calm (k.modTcb u f) := by
  refine ⟨steady_of_still rfl rfl rfl rfl rfl rfl fun t => ?_, .of_auth rfl⟩
  rw [modTcb_tcb]
  split
  · rename_i ht
    rwa [ht]
  · exact .refl _

theorem calm_modUctx (u : TcbRef) (g : Uctx → Uctx) :
    k.Calm (k.modUctx u g) := calm_modTcb u (.of_state rfl rfl rfl)

theorem calm_setRax (u : TcbRef) (e : IpcErr) : k.Calm (k.setRax u e) := calm_modUctx u _

theorem calm_setState (u : TcbRef) {s : ThreadState} (hs : s ≠ .sleeping) (hr : s ≠ .waitExecreq) :
    k.Calm (k.setState u s) := calm_modTcb u (.of_ne rfl ⟨hs, hr⟩)

theorem calm_schedWake (c : Cpu) (t : Slot) : k.Calm (k.schedWake c t) := by
  by_cases ha : k.Asleep t
  · exact (calm_setState t (by decide) (by decide)).trans
      ((alike_schedWake_of_asleep ha).calm (by simp))
  · rw [schedWake_of_not_asleep ha]
    exact .refl k

theorem calm_schedDirectSwitch (c : Cpu) (t : Slot) : k.Calm (k.schedDirectSwitch c t) := by
  have hstate : k.Calm (k.setState t .running) := calm_setState t (by decide) (by decide)
  exact hstate.rest rfl

theorem SameRequests.noteDeadline (h : k.SameRequests k') (tick : Word) :
    k.SameRequests (k'.schedNoteDeadline tick) := by
  obtain ⟨d, heq, -⟩ := k'.schedNoteDeadline_eq tick
  rw [heq]
  exact { h with }

/-! ## Threads and capabilities -/

theorem calm_createThread {prio : Prio} {fill : Tcb → Tcb}
    (h : k.createThread prio fill = some (t, k')) : k.Calm k' := by
  obtain ⟨-, ha⟩ := createThread_spec h
  exact (calm_modTcb t (.of_ne (s := .ready) rfl (by decide))).trans
    (ha.calm (auth_createThread h :))

theorem calm_elfLoadAndSpawnReq {prio : Prio} {pagerTid : Tid}
    (h : k.elfLoadAndSpawnReq env prio pagerTid = some (t, k')) : k.Calm k' := by
  obtain ⟨_, hcreate⟩ := elfLoadAndSpawnReq_eq h
  exact calm_createThread hcreate

theorem calm_elfExecCurrent (h : k.elfExecCurrent env t = some k') : k.Calm k' := by
  obtain ⟨image, -, rfl⟩ := Option.map_eq_some_iff.mp h
  exact calm_modTcb t (.of_state rfl rfl rfl)

theorem Steady.gives {cap : Kcap} (hs : k.Steady k₁) (h : k₁.Gives cap k') : k.Steady k' := by
  rcases h with rfl | ⟨_, _, rfl⟩
  · exact hs
  · exact hs.rest rfl

theorem calm_notifDeliver (k : Kernel) (c : Cpu) (idx : Nat) (bits : Word) :
    k.Calm (k.notifDeliver c idx bits) := by
  unfold notifDeliver
  dsimp only
  split
  · exact (Calm.refl k).rest rfl
  cases k.schedGetTcb (k.notifTable idx).waiter with
  | none => exact (Calm.refl k).rest rfl
  | some w => exact ((calm_modUctx w _).trans (calm_schedWake c w)).rest rfl

/-! ## The end of a thread -/

theorem not_awaitsSlot_of_schedGetTcb {tid : Tid} (h : k.schedGetTcb tid = none) (hne : t ≠ 0)
    (htid : tid = t.tid) (i : Fin 8) : ¬ k.awaitsSlot t i := by
  rintro ⟨hwait, -⟩
  rw [htid, schedGetTcb_tid, if_neg (by simp [hne, hwait])] at h
  cases h

theorem not_awaitsSlot_schedWake (i : Fin 8) : ¬ (k.schedWake c t).awaitsSlot t i := by
  rintro ⟨hwait, -⟩
  by_cases ha : k.Asleep t
  · rw [(alike_schedWake_of_asleep ha).state t, setState, modTcb_tcb_self] at hwait
    cases hwait
  · rw [schedWake_of_not_asleep ha] at hwait
    exact ha (by rw [Asleep, hwait]; decide)

theorem Release.calm {i : Fin 8} {e : RequestEvent} (h : Release D k i e) (hk : k.SameRequests k₁) :
    Release D k₁ i e := by
  have hslot := congrFun hk.execSlots i
  cases h with
  | answered replies delivered thread =>
    exact .answered replies (hslot ▸ delivered) (hslot ▸ thread)
  | failed ends server occupied => exact .failed ends (hk.ext2fsTid.trans server) (hslot ▸ occupied)
  | cancelled ends requester occupied =>
    exact .cancelled ends (hslot ▸ requester) (hslot ▸ occupied)
  | collected collects done => exact .collected collects (hslot ▸ done)

section Release

variable {i : Fin 8} {e : RequestEvent} {requester : Slot}

/-- A slot is given back once its requester is woken, or does not wait for it. -/
theorem works_freeSlot (hr : Release D k i e)
    (h : ∀ t : Slot, t ≠ 0 → (k.execSlots i).params.requesterTid = t.tid → ¬ k.awaitsSlot t i) :
    Works D k (k.freeSlot i) :=
  .single (.request (.free hr h) { (Calm.refl k).times with }) rfl

theorem works_answer (hr : Release D k i e)
    (hreq : k.schedGetTcb (k.execSlots i).params.requesterTid = some requester) (hk : k.Calm k₁) :
    Works D k ((k₁.schedWake c requester).freeSlot i) := by
  have hwoken : k.Calm (k₁.schedWake c requester) := hk.trans (calm_schedWake c requester)
  refine hwoken.works.trans (works_freeSlot (hr.calm hwoken.requests) fun t _ ht => ?_)
  obtain rfl : requester = t := by
    rw [congrFun hwoken.requests.execSlots i, (schedGetTcb_eq_some hreq).1] at ht
    exact Slot.tid_inj ht
  exact not_awaitsSlot_schedWake i

theorem works_freeSlot_of_not_awaitsSlot (hr : Release D k i e)
    (hreq : k.schedGetTcb (k.execSlots i).params.requesterTid = some requester)
    (hno : ¬ k.awaitsSlot requester i) : Works D k (k.freeSlot i) := by
  refine works_freeSlot hr fun t _ ht => ?_
  obtain rfl : requester = t := Slot.tid_inj ((schedGetTcb_eq_some hreq).1.symm.trans ht)
  exact hno

theorem works_freeSlot_of_gone (hr : Release D k i e)
    (hreq : k.schedGetTcb (k.execSlots i).params.requesterTid = none) : Works D k (k.freeSlot i) :=
  works_freeSlot hr fun _ hne ht => not_awaitsSlot_of_schedGetTcb hreq hne ht i

end Release

theorem works_failSlot (hend : D.ends t) (hserver : k.ext2fsTid = t.tid) (i : Fin 8) :
    Works D k (failSlot c k i) ∧ (failSlot c k i).ext2fsTid = k.ext2fsTid := by
  unfold failSlot
  split
  · exact ⟨.refl, rfl⟩
  rename_i hocc
  have hr : Release D k i .failed := .failed hend hserver hocc
  split
  · rename_i hnone
    exact ⟨works_freeSlot_of_gone hr hnone, rfl⟩
  rename_i requester hreq
  split
  · have hwoken : k.Calm (k.failRequester c requester) :=
      (calm_modUctx _ _).trans (calm_schedWake _ _)
    exact ⟨works_answer hr hreq (calm_modUctx _ _), hwoken.requests.ext2fsTid⟩
  · rename_i hno
    exact ⟨works_freeSlot_of_not_awaitsSlot hr hreq hno, rfl⟩

theorem works_execreqFailAll (hend : D.ends t) (hserver : k.ext2fsTid = t.tid) :
    Works D k (k.execreqFailAll c) := by
  unfold execreqFailAll
  refine (List.foldlRecOn _ _ (motive := fun k' : Kernel =>
    Works D k k' ∧ k'.ext2fsTid = k.ext2fsTid) ⟨.refl, rfl⟩ ?_).1
  rintro k' ⟨hk', htid⟩ i _
  obtain ⟨hfail, htid'⟩ := works_failSlot (c := c) hend (htid.trans hserver) i
  exact ⟨hk'.trans hfail, htid'.trans htid⟩

theorem works_execreqCancelRequester (hend : D.ends t) (h : (k.tcb t).state ≠ .waitExecreq) :
    Works D k (k.execreqCancelRequester t.tid) := by
  unfold execreqCancelRequester
  -- giving back slots changes no thread
  have hloop := List.foldlRecOn (List.finRange 8) (fun k i =>
      if (k.execSlots i).state ≠ .empty ∧ (k.execSlots i).params.requesterTid = t.tid then
        k.freeSlot i
      else k)
    (motive := fun k' : Kernel => Works D k k' ∧ k'.tcb = k.tcb) ⟨.refl, rfl⟩ ?_
  · exact hloop.1
  rintro k' ⟨hk', htcb⟩ i _
  split
  · rename_i hcancel
    refine ⟨hk'.trans (works_freeSlot (.cancelled hend hcancel.2 hcancel.1) fun u _ hu => ?_), htcb⟩
    obtain rfl : t = u := Slot.tid_inj (hcancel.2.symm.trans hu)
    rintro ⟨hwait, -⟩
    rw [htcb] at hwait
    exact h hwait
  · exact ⟨hk', htcb⟩

theorem calm_flushFrom (fuel : Nat) (o : Option Slot) : k.Calm (flushFrom c fuel k o) := by
  induction fuel generalizing k o with
  | zero => exact .refl k
  | succ fuel ih =>
    cases o with
    | none => exact .refl k
    | some s =>
      have hlink : k.Calm (k.setSqNext s none) := calm_modTcb s (.of_state rfl rfl rfl)
      exact ((hlink.trans (calm_setRax _ _)).trans (calm_schedWake _ _)).trans (ih _)

theorem calm_orphanStep (t : Slot) (st : Kernel × Bool) (w : Slot) :
    st.1.Calm (orphanStep c t st w).1 := by
  have hwake : st.1.Calm (st.1.wakeOrphan c t w) := by
    unfold wakeOrphan
    split
    · exact (calm_setRax _ _).trans (calm_schedWake _ _)
    · exact .refl _
  unfold orphanStep
  dsimp only
  split
  · refine hwake.trans ?_
    unfold detachChild
    have hdetach : (st.1.wakeOrphan c t w).Calm ((st.1.wakeOrphan c t w).modTcb w fun x =>
        { x with parentTid := 0 }) := calm_modTcb w (.of_state rfl rfl rfl)
    dsimp only
    split
    · exact hdetach.trans (calm_setState _ (by decide) (by decide))
    · exact hdetach
  · exact hwake

theorem calm_releaseAddressSpace (t : Slot) (siblingFound : Bool) :
    k.Calm (k.releaseAddressSpace t siblingFound) := by
  unfold releaseAddressSpace
  split
  · exact calm_modTcb t (.of_state rfl rfl rfl)
  · exact .refl k

/-- What the end of a thread does to deadlines and requests. -/
theorem works_terminateTcb (k : Kernel) (c : Cpu) {t : Slot} (hend : D.ends t) {final : ThreadState}
    (hfinal : final = .dead ∨ final = .zombie) : Works D k (k.terminateTcb c t final) := by
  have hne : final ≠ .sleeping ∧ final ≠ .waitExecreq := by
    rcases hfinal with rfl | rfl <;> decide
  unfold terminateTcb
  dsimp only
  -- the thread ends, its senders are told, and the table is searched
  have hquit : k.Calm ((k.setState t final).clearSendQ t) :=
    (calm_setState t hne.1 hne.2).trans (calm_modTcb t (.of_state rfl rfl rfl))
  have hover : (((k.setState t final).clearSendQ t).tcb t).state ≠ .waitExecreq := by
    rw [clearSendQ, setState, modTcb_modTcb, modTcb_tcb_self]
    exact hne.2
  generalize (k.setState t final).clearSendQ t = k₀ at hquit hover ⊢
  generalize ((k.setState t final).tcb t).sendQHead = head
  have hloops : k₀.Calm (tableSlots.foldl (orphanStep c t) (flushFrom c 65 k₀ head, false)).1 := by
    refine List.foldlRecOn tableSlots (orphanStep c t)
      (motive := fun st : Kernel × Bool => k₀.Calm st.1)
      (calm_flushFrom _ _) ?_
    intro st hst w _
    exact hst.trans (calm_orphanStep t st w)
  generalize tableSlots.foldl (orphanStep c t) _ = st at hloops ⊢
  have hrelease := hloops.trans (calm_releaseAddressSpace t st.2)
  generalize st.1.releaseAddressSpace t st.2 = k₁ at hrelease ⊢
  have hover₁ : (k₁.tcb t).state ≠ .waitExecreq := fun hw => hover ((hrelease.still t).waits hw).1
  refine (hquit.trans hrelease).works.trans ?_
  -- the tables that name threads learn of it
  unfold announceDeath
  dsimp only
  have htold : k₁.Calm ((k₁.kcapInvalidateTcbDeath t.tid).notifInvalidateWaiterDeath t.tid) :=
    ⟨(Steady.refl k₁).rest rfl, (Grants.kcapInvalidateTcbDeath k₁ t.tid).trans (.of_auth rfl)⟩
  have hover₂ : (((k₁.kcapInvalidateTcbDeath t.tid).notifInvalidateWaiterDeath t.tid).tcb
      t).state ≠ .waitExecreq := hover₁
  have hcancel := works_execreqCancelRequester hend hover₂
  split
  · rename_i hserver
    exact (htold.works.trans hcancel).trans (works_execreqFailAll hend hserver.symm)
  · exact htold.works.trans hcancel

/-! ## Exec requests -/

theorem allocSlot_spec {i : Fin 8} (h : k.allocSlot = some i) : (k.execSlots i).state = .empty := by
  unfold allocSlot at h
  simpa using List.find?_some h

theorem modSlot_execSlots_self (k : Kernel) (i : Fin 8) (f : ExecreqSlot → ExecreqSlot) :
    (k.modSlot i f).execSlots i = f (k.execSlots i) := update_self ..

/-- `execreq_finish_poll_spawn`: the slot is one of the kernel's own requests. -/
theorem works_execreqFinishPollSpawn (hc : D.collects)
    (hpoll : ∀ i, (k.execSlots i).state = .pollDone →
      (k.execSlots i).params.requesterTid = 0) (i : Fin 8) (generation : BitVec 16) :
    Works D k (k.execreqFinishPollSpawn i generation).2 := by
  unfold execreqFinishPollSpawn
  dsimp only
  split
  · exact .refl
  rename_i hdone
  rw [not_or, not_not, not_not] at hdone
  refine works_freeSlot (.collected hc hdone.2) fun t hne ht => ?_
  rw [hpoll i hdone.2] at ht
  exact absurd (Slot.tid_inj (show Slot.tid 0 = t.tid from ht)) hne.symm

theorem execreqTryDeliverQueued_spec {i : Fin 8} (h : k.execreqTryDeliverQueued = some (i, k')) :
    (k.execSlots i).state = .queued ∧ k' = k.modSlot i fun s => { s with state := .delivered } := by
  obtain ⟨j, hj, heq⟩ := Option.map_eq_some_iff.mp h
  obtain ⟨rfl, rfl⟩ := Prod.mk.inj heq
  exact ⟨by simpa using List.find?_some hj, rfl⟩

/-! ## Rendezvous -/

theorem calm_setSqNext (t : Slot) (o : Option Slot) : k.Calm (k.setSqNext t o) :=
  calm_modTcb t (.of_state rfl rfl rfl)

theorem calm_sendqUnlink (rcv : Slot) (prev : Option Slot) (s : Slot) :
    k.Calm (k.sendqUnlink rcv prev s) := by
  unfold sendqUnlink
  dsimp only
  refine Calm.trans (Calm.trans ?_ (calm_modTcb _ (.of_state rfl rfl rfl))) (calm_setSqNext _ _)
  split
  · exact calm_setSqNext _ _
  · exact calm_modTcb _ (.of_state rfl rfl rfl)

theorem calm_sendqAppend (rcv s : Slot) : k.Calm (k.sendqAppend rcv s) := by
  unfold sendqAppend
  dsimp only
  have hnext : k.Calm (k.setSqNext s none) := calm_setSqNext _ _
  refine Calm.trans (hnext.trans ?_) (calm_modTcb _ (.of_state rfl rfl rfl))
  split
  · exact calm_setSqNext _ _
  · exact calm_modTcb _ (.of_state rfl rfl rfl)

theorem calm_ipcPark (me dest : Slot) : k.Calm (k.ipcPark me dest) := by
  unfold ipcPark
  dsimp only
  exact ((calm_modTcb _ (.of_state rfl rfl rfl)).trans (calm_sendqAppend _ _)).trans
    (calm_setState _ (by decide) (by decide))

theorem calm_vmTakeQueuedFault {msg : FaultMsg} (h : k.vmTakeQueuedFault me = some (msg, k')) :
    k.Calm k' := by
  obtain ⟨-, rfl⟩ := vmTakeQueuedFault_eq_some h
  exact (Calm.refl k).rest rfl

/-! ## Sections -/

def Doing.quiet : Doing :=
    ⟨False, False, fun _ _ => False, False, False, False, False, fun _ => False⟩

theorem calm_enter (k : Kernel) (c : Cpu) (e : Entry) : k.Calm (k.enter c e) := by
  have hload : k.Calm { k with hw := update k.hw c e.ctx } := (Calm.refl k).rest rfl
  unfold enter
  exact hload.trans (calm_modUctx _ _)

theorem calm_schedArmNextDeadline : k.Calm (k.schedArmNextDeadline c) := (Calm.refl k).rest rfl

/-- The kernel waits for the reply to a slot only if it made the request. -/
def PollsOwn (k : Kernel) : Prop :=
  ∀ i, (k.execSlots i).state = .pollDone → (k.execSlots i).params.requesterTid = 0

end Kernel

end Robu
