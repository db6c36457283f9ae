import Robu.Kernel.Exit
import Robu.Lib.Links
import Robu.Lib.Run

/-!
# The ready queues

The ready queues are 32 tail queues threaded through the `rq_next` fields, a flag in
each control block, and a bitmap of the non-empty levels.  `ReadyView` is that part of
the state; `ReadyView.WF v l` says that it represents the lists `l`.

Everything the scheduler does either leaves the view alone (the frame lemmas `ready_*`)
or is a push or an unlink of the library's queues.  The one exception is thread
creation: `alloc_tcb` clears a dead control block, flag and link included, without
taking it off the queue it may still be on.
-/

namespace Robu

open Function (update update_of_ne update_self)

/-! ## The view -/

/-- The part of the state the ready queues are made of. -/
@[ext]
structure ReadyView where
  queues : Lib.Queues Prio Slot
  /-- `in_ready_q` -/
  flag : Slot → Bool
  prio : Slot → Prio
  /-- `ready_bitmap` -/
  bitmap : BitVec 32

def Kernel.ready (k : Kernel) : ReadyView where
  queues := { next := k.view Tcb.rqNext, head := k.readyHead, tail := k.readyTail }
  flag := k.view Tcb.inReadyQ
  prio := k.view Tcb.prio
  bitmap := k.readyBitmap

namespace ReadyView

variable {v : ReadyView} {l : Prio → List Slot} {p q : Prio} {t : Slot}

/-- The view represents the lists `l`: each list holds exactly the flagged threads of
its priority, and the bitmap marks the non-empty lists. -/
structure WF (v : ReadyView) (l : Prio → List Slot) : Prop where
  holds : v.queues.Holds l
  mem_iff : ∀ p t, t ∈ l p ↔ v.flag t = true ∧ v.prio t = p
  bit_iff : ∀ p, v.bitmap.getLsbD p.val = true ↔ l p ≠ []

def push (v : ReadyView) (t : Slot) : ReadyView :=
  if v.flag t then v
  else
    { queues := v.queues.push (v.prio t) t
      flag := update v.flag t true
      prio := v.prio
      bitmap := v.bitmap ||| 1#32 <<< (v.prio t).val }

def unlink (v : ReadyView) (p : Prio) (prev : Option Slot) (t : Slot) : ReadyView where
  queues := v.queues.unlink p prev t
  flag := update v.flag t false
  prio := v.prio
  bitmap := if (v.queues.unlink p prev t).head p = none then v.bitmap &&& ~~~(1#32 <<< p.val)
    else v.bitmap

def reset (v : ReadyView) (t : Slot) (prio : Prio) : ReadyView where
  queues := v.queues.setNext t none
  flag := update v.flag t false
  prio := update v.prio t prio
  bitmap := v.bitmap

theorem getLsbD_set (b : BitVec 32) (p q : Prio) :
    (b ||| 1#32 <<< p.val).getLsbD q.val = (b.getLsbD q.val || decide (q = p)) := by
  have hq := q.isLt
  simp only [BitVec.getLsbD_or, BitVec.getLsbD_shiftLeft, BitVec.getLsbD_one, hq, Fin.ext_iff]
  congr 1
  by_cases h : q.val < p.val
  · simp [h]; omega
  · simp [h]; omega

theorem getLsbD_clear (b : BitVec 32) (p q : Prio) :
    (b &&& ~~~(1#32 <<< p.val)).getLsbD q.val = (b.getLsbD q.val && decide (q ≠ p)) := by
  have hq := q.isLt
  simp only [BitVec.getLsbD_and, BitVec.getLsbD_not, BitVec.getLsbD_shiftLeft, BitVec.getLsbD_one,
    hq, ne_eq, Fin.ext_iff]
  congr 1
  by_cases h : q.val < p.val
  · simp [h]; omega
  · simp [h]; omega

theorem WF.notMem (h : v.WF l) (ht : v.flag t = false) (p : Prio) : t ∉ l p := by
  intro hmem
  rw [h.mem_iff, ht] at hmem
  exact absurd hmem.1 Bool.false_ne_true

/-- **Push.**  The thread is appended to the list of its priority, unless it is queued. -/
theorem WF.push (h : v.WF l) (t : Slot) : (v.push t).WF (if v.flag t then l
      else update l (v.prio t) (l (v.prio t) ++ [t])) := by
  cases ht : v.flag t with
  | true => simpa [ReadyView.push, ht] using h
  | false =>
    simp only [ReadyView.push, ht, Bool.false_eq_true, if_false]
    refine ⟨h.holds.push (h.notMem ht), fun p u => ?_, fun p => ?_⟩
    · rw [Lib.mem_update_append, h.mem_iff]
      rcases eq_or_ne u t with rfl | hu
      · simp [ht, eq_comm]
      · simp [hu]
    · rw [getLsbD_set]
      rcases eq_or_ne p (v.prio t) with rfl | hp
      · simp
      · simpa [hp] using h.bit_iff p

/-- After a push the thread is flagged, and no other flag has changed. -/
theorem flag_push (v : ReadyView) (t u : Slot) :
    (v.push t).flag u = true ↔ v.flag u = true ∨ u = t := by
  cases ht : v.flag t with
  | true =>
    simp only [ReadyView.push, ht, if_true]
    exact ⟨.inl, fun h => h.elim id fun h => h ▸ ht⟩
  | false =>
    simp only [ReadyView.push, ht, Bool.false_eq_true, if_false]
    rcases eq_or_ne u t with rfl | hu
    · simp
    · simp [hu]

/-- **Unlink.**  Taking the head of a list leaves its rest. -/
theorem WF.unlink_head (h : v.WF l) {rest : List Slot} (hl : l p = t :: rest) :
    (v.unlink p none t).WF (update l p rest) := by
  have hholds : (v.queues.unlink p none t).Holds (update l p rest) := by
    simpa using h.holds.unlink (show l p = [] ++ t :: rest from hl)
  have htp : v.prio t = p := ((h.mem_iff p t).mp (by simp [hl])).2
  have hnd : t ∉ rest := by
    have := h.holds.nodup p
    rw [hl, List.nodup_cons] at this
    exact this.1
  refine ⟨hholds, fun q u => ?_, fun q => ?_⟩
  · simp only [ReadyView.unlink]
    rcases eq_or_ne u t with rfl | hu
    · rcases eq_or_ne q p with rfl | hq
      · simpa using hnd
      · simp [hq, h.mem_iff, htp, hq.symm]
    · rw [update_of_ne hu, ← h.mem_iff]
      rcases eq_or_ne q p with rfl | hq
      · simp [hl, hu]
      · rw [update_of_ne hq]
  · have hhead : (v.queues.unlink p none t).head p = none ↔ rest = [] := by
      simpa using hholds.head_eq_none (i := p)
    simp only [ReadyView.unlink]
    rcases eq_or_ne q p with rfl | hq
    · split
      · rename_i hc; rw [getLsbD_clear]; simp [hhead.mp hc]
      · rename_i hc
        have hb : v.bitmap.getLsbD q.val = true := (h.bit_iff q).mpr (by simp [hl])
        simpa [hb] using fun hr => hc (hhead.mpr hr)
    · rw [update_of_ne hq, ← h.bit_iff q]
      split
      · rw [getLsbD_clear]; simp [hq]
      · rfl

/-- **Reset.**  Clearing a control block that is on no queue disturbs no list. -/
theorem WF.reset (h : v.WF l) (ht : v.flag t = false) (prio : Prio) : (v.reset t prio).WF l where
  holds := h.holds.setNext (h.notMem ht) none
  mem_iff p u := by
    simp only [ReadyView.reset]
    rcases eq_or_ne u t with rfl | hu
    · simpa using h.notMem ht p
    · rw [update_of_ne hu, update_of_ne hu, h.mem_iff]
  bit_iff := h.bit_iff

end ReadyView

/-! ## Frames -/

namespace Kernel

variable (k : Kernel) (c : Cpu) (t : Slot)

/-- An assignment that keeps link, flag and priority keeps the ready queues. -/
@[simp] theorem ready_modTcb (u : TcbRef) {f : Tcb → Tcb}
    (h : ∀ x, (f x).rqNext = x.rqNext ∧ (f x).inReadyQ = x.inReadyQ ∧ (f x).prio = x.prio) :
    (k.modTcb u f).ready = k.ready := by
  have h₁ : (k.modTcb u f).view Tcb.rqNext = k.view Tcb.rqNext := k.view_modTcb_frame u (h _).1
  have h₂ : (k.modTcb u f).view Tcb.inReadyQ = k.view Tcb.inReadyQ :=
    k.view_modTcb_frame u (h _).2.1
  have h₃ : (k.modTcb u f).view Tcb.prio = k.view Tcb.prio := k.view_modTcb_frame u (h _).2.2
  simp only [ready, h₁, h₂, h₃]
  rfl

@[simp] theorem ready_modUctx (u : TcbRef) (f : Uctx → Uctx) : (k.modUctx u f).ready = k.ready :=
  k.ready_modTcb u fun _ => ⟨rfl, rfl, rfl⟩

@[simp] theorem ready_setRax (u : TcbRef) (e : IpcErr) : (k.setRax u e).ready = k.ready :=
  k.ready_modUctx u _

@[simp] theorem ready_setState (u : TcbRef) (s : ThreadState) :
    (k.setState u s).ready = k.ready := k.ready_modTcb u fun _ => ⟨rfl, rfl, rfl⟩

@[simp] theorem ready_requestResched : (k.requestResched c).ready = k.ready := rfl

@[simp] theorem ready_refreshTimeslice (u : TcbRef) : (k.refreshTimeslice u).ready = k.ready :=
  k.ready_modTcb u fun _ => ⟨rfl, rfl, rfl⟩

@[simp] theorem ready_inboxPush : (k.inboxPush t).ready = k.ready :=
  (rfl : _ = (k.modTcb t fun x => { x with inboxNext := k.wakeInbox }).ready).trans
    (k.ready_modTcb t fun _ => ⟨rfl, rfl, rfl⟩)

@[simp] theorem ready_schedWake : (k.schedWake c t).ready = k.ready := by
  simp [schedWake, apply_ite ready]

@[simp] theorem ready_freeSlot (i : Fin 8) : (k.freeSlot i).ready = k.ready := rfl

@[simp] theorem ready_failRequester : (k.failRequester c t).ready = k.ready := by
  simp [failRequester]

@[simp] theorem ready_execreqCancelRequester (tid : Tid) :
    (k.execreqCancelRequester tid).ready = k.ready := by
  refine List.foldlRecOn _ _ (motive := fun k' : Kernel => k'.ready = k.ready) rfl ?_
  intro k' hk' i _
  split
  · rw [ready_freeSlot, hk']
  · exact hk'

@[simp] theorem ready_execreqFailAll : (k.execreqFailAll c).ready = k.ready := by
  refine List.foldlRecOn _ _ (motive := fun k' : Kernel => k'.ready = k.ready) rfl ?_
  intro k' hk' i _
  unfold failSlot
  split
  · exact hk'
  split
  · rw [ready_freeSlot, hk']
  rw [ready_freeSlot]
  split
  · rw [ready_failRequester, hk']
  · exact hk'

@[simp] theorem ready_setSqNext (o : Option Slot) : (k.setSqNext t o).ready = k.ready :=
  k.ready_modTcb t fun _ => ⟨rfl, rfl, rfl⟩

@[simp] theorem ready_clearSendQ : (k.clearSendQ t).ready = k.ready :=
  k.ready_modTcb t fun _ => ⟨rfl, rfl, rfl⟩

@[simp] theorem ready_detachChild : (k.detachChild t).ready = k.ready := by
  simp [detachChild, apply_ite ready]

@[simp] theorem ready_flushFrom (fuel : Nat) (s : Option Slot) :
    (flushFrom c fuel k s).ready = k.ready := by
  induction fuel generalizing k s with
  | zero => rfl
  | succ fuel ih =>
    cases s with
    | none => rfl
    | some s => rw [flushFrom, ih, ready_schedWake, ready_setRax, ready_setSqNext]

@[simp] theorem ready_wakeOrphan (w : Slot) : (k.wakeOrphan c t w).ready = k.ready := by
  simp [wakeOrphan, apply_ite ready]

@[simp] theorem ready_orphanStep (st : Kernel × Bool) (w : Slot) :
    (orphanStep c t st w).1.ready = st.1.ready := by
  simp only [orphanStep, apply_ite ready, ready_detachChild, ready_wakeOrphan, ite_self]

@[simp] theorem ready_releaseAddressSpace (sibling : Bool) :
    (k.releaseAddressSpace t sibling).ready = k.ready := by
  simp [releaseAddressSpace, apply_ite ready]

@[simp] theorem ready_announceDeath : (k.announceDeath c t).ready = k.ready := by
  simp only [announceDeath, apply_ite ready, ready_execreqFailAll, ready_execreqCancelRequester,
    ite_self]
  rfl

/-- Ending a thread leaves the ready queues as they are, the thread's own place included. -/
@[simp] theorem ready_terminateTcb (finalState : ThreadState) :
    (k.terminateTcb c t finalState).ready = k.ready := by
  simp only [terminateTcb, ready_announceDeath, ready_releaseAddressSpace]
  refine List.foldlRecOn _ _ (motive := fun st : Kernel × Bool => st.1.ready = k.ready) ?_ ?_
  · simp
  · intro st hst w _
    rw [ready_orphanStep, hst]

theorem ready_schedTerminate {k k' : Kernel} {c : Cpu} {victimTid : Tid}
    (h : k.schedTerminate c victimTid = some k') : k'.ready = k.ready := by
  unfold schedTerminate at h
  split at h
  · cases h
  split at h
  · cases h
  · obtain rfl := Option.some.inj h
    exact ready_terminateTcb k c _ .dead

/-! ## Pushing and popping -/

theorem view_setRqNext (v : Option Slot) :
    (k.setRqNext t v).view Tcb.rqNext = update (k.view Tcb.rqNext) t v :=
  k.view_modTcb t _ _

theorem view_setQueued_rqNext (b : Bool) :
    (k.setQueued t b).view Tcb.rqNext = update (k.view Tcb.rqNext) t none :=
  k.view_modTcb t _ _

theorem view_setQueued_inReadyQ (b : Bool) :
    (k.setQueued t b).view Tcb.inReadyQ = update (k.view Tcb.inReadyQ) t b :=
  k.view_modTcb t _ _

theorem view_setQueued_prio (b : Bool) : (k.setQueued t b).view Tcb.prio = k.view Tcb.prio :=
  k.view_modTcb_frame t rfl

theorem view_setRqNext_frame (v : Option Slot) :
    (k.setRqNext t v).view Tcb.inReadyQ = k.view Tcb.inReadyQ ∧
      (k.setRqNext t v).view Tcb.prio = k.view Tcb.prio :=
  ⟨k.view_modTcb_frame t rfl, k.view_modTcb_frame t rfl⟩

/-- A push appends to the list of the priority. -/
theorem ready_rqPush : (k.rqPush t).ready = k.ready.push t := by
  cases hflag : (k.tcb t).inReadyQ with
  | true => simp [rqPush, ReadyView.push, ready, view, hflag]
  | false =>
    have hv : k.ready.flag t = false := hflag
    have htail : k.ready.queues.tail (k.ready.prio t) =
      (k.setQueued t true).readyTail (k.tcb t).prio := rfl
    simp only [rqPush, hflag, ReadyView.push, hv, Bool.false_eq_true, if_false,
      Lib.Queues.push, htail]
    -- an empty queue gets a head, a non-empty one a link from its tail
    cases (k.setQueued t true).readyTail (k.tcb t).prio with
    | none =>
      exact ReadyView.ext (Lib.Queues.ext (k.view_setQueued_rqNext t true) rfl rfl)
        (k.view_setQueued_inReadyQ t true) (k.view_setQueued_prio t true) rfl
    | some b =>
      obtain ⟨hfl, hprio⟩ := (k.setQueued t true).view_setRqNext_frame b (some t)
      refine ReadyView.ext (Lib.Queues.ext ?_ rfl rfl) ?_ ?_ rfl
      · exact ((k.setQueued t true).view_setRqNext b (some t)).trans
          (congrArg (update · b (some t)) (k.view_setQueued_rqNext t true))
      · exact hfl.trans (k.view_setQueued_inReadyQ t true)
      · exact hprio.trans (k.view_setQueued_prio t true)

theorem ready_rqUnlink (p : Prio) (prev : Option Slot) :
    (k.rqUnlink p prev t).ready = k.ready.unlink p prev t := by
  cases prev with
  | none =>
    exact ReadyView.ext (Lib.Queues.ext (k.view_setQueued_rqNext t false) rfl rfl)
      (k.view_setQueued_inReadyQ t false) (k.view_setQueued_prio t false) rfl
  | some b =>
    set k₁ := k.setRqNext b (k.tcb t).rqNext with hk₁
    obtain ⟨hfl, hprio⟩ := k.view_setRqNext_frame b (k.tcb t).rqNext
    refine ReadyView.ext (Lib.Queues.ext ?_ rfl rfl) ?_ ?_ rfl
    · exact (k₁.view_setQueued_rqNext t false).trans
        (congrArg (update · t none) (k.view_setRqNext b (k.tcb t).rqNext))
    · exact (k₁.view_setQueued_inReadyQ t false).trans (congrArg (update · t false) hfl)
    · exact (k₁.view_setQueued_prio t false).trans hprio

/-! ## The invariant -/

def ReadyWF (k : Kernel) : Prop := ∃ l, k.ready.WF l

variable {k}

theorem ReadyWF.of_eq {k' : Kernel} (h : k.ReadyWF) (heq : k'.ready = k.ready) : k'.ReadyWF := by
  rw [ReadyWF, heq]; exact h

theorem ReadyWF.rqPush (h : k.ReadyWF) (t : Slot) : (k.rqPush t).ReadyWF := by
  obtain ⟨l, hl⟩ := h
  rw [ReadyWF, ready_rqPush]
  exact ⟨_, hl.push t⟩

theorem ReadyWF.schedReadyNow (h : k.ReadyWF) (t : Slot) : (k.schedReadyNow t).ReadyWF :=
  (h.of_eq (k.ready_setState t .ready)).rqPush t

theorem ReadyWF.drainFrom (h : k.ReadyWF) (fuel : Nat) (o : Option Slot) :
    (drainFrom fuel k o).ReadyWF := by
  induction fuel generalizing k o with
  | zero => exact h
  | succ fuel ih =>
    cases o with
    | none => exact h
    | some t =>
      have h₁ : (k.modTcb t fun x => { x with inboxNext := none }).ReadyWF := h.of_eq (by simp)
      simp only [Kernel.drainFrom]
      split
      · exact ih (h₁.rqPush t) _
      · exact ih h₁ _

theorem ReadyWF.drainInbox (h : k.ReadyWF) : k.drainInbox.ReadyWF :=
  ReadyWF.drainFrom (k := { k with wakeInbox := none }) h _ _

theorem getLsbD_of_highestBit {b : BitVec 32} {p : Prio} (h : highestBit b = some p) :
    b.getLsbD p.val = true := by
  simpa using List.find?_some h

/-- Popping keeps the queues well formed: it unlinks heads of non-empty levels. -/
theorem ReadyWF.rqPopLoop (h : k.ReadyWF) {fuel : Nat} {r : Option Slot × Kernel}
    (hr : rqPopLoop fuel k = some r) : r.2.ReadyWF := by
  induction fuel generalizing k with
  | zero => cases hr
  | succ fuel ih =>
    obtain ⟨l, hl⟩ := h
    unfold Kernel.rqPopLoop at hr
    cases hp : highestBit k.readyBitmap with
    | none => simp only [hp] at hr; cases hr; exact ⟨l, hl⟩
    | some p =>
      simp only [hp] at hr
      have hne : l p ≠ [] := (hl.bit_iff p).mp (getLsbD_of_highestBit hp)
      obtain ⟨t, rest, hlp⟩ := List.exists_cons_of_ne_nil hne
      have hhead : k.readyHead p = some t := by
        have := (hl.holds.chain p).head_eq
        rwa [hlp] at this
      have hunlink : (k.rqUnlink p none t).ReadyWF := by
        rw [ReadyWF, ready_rqUnlink]
        exact ⟨_, hl.unlink_head hlp⟩
      simp only [hhead] at hr
      split at hr
      · cases hr; exact hunlink
      · exact ih hunlink hr

theorem ReadyWF.requeueCurrent (h : k.ReadyWF) (c : Cpu) : (k.requeueCurrent c).ReadyWF := by
  unfold Kernel.requeueCurrent
  split
  · exact h.of_eq (k.ready_setState _ _)
  rename_i prev _
  have h₁ : (if (k.tcb prev).state = .running then k.setState prev .ready else k).ReadyWF :=
    h.of_eq (by simp [apply_ite ready])
  generalize (if (k.tcb prev).state = .running then k.setState prev .ready else k) = k₁ at h₁ ⊢
  simp only
  split
  · exact h₁.rqPush prev
  · exact h₁

theorem ReadyWF.dispatch (h : k.ReadyWF) (c : Cpu) (popped : Option Slot) :
    (k.dispatch c popped).ReadyWF :=
  h.of_eq ((ready_refreshTimeslice _ _).trans (ready_setState _ _ _))

theorem ReadyWF.schedule (h : k.ReadyWF) {c : Cpu} {k' : Kernel} (hs : k.schedule c = some k') :
    k'.ReadyWF := by
  unfold Kernel.schedule at hs
  split at hs
  · cases hs
  rename_i popped k₁ hpop
  cases hs
  exact ((h.drainInbox.requeueCurrent c).rqPopLoop hpop).dispatch c popped

theorem ready_freshTcb (i : Slot) (prio : Prio) :
    (k.modTcb i fun _ => k.freshTcb i prio).ready = k.ready.reset i prio := by
  have hview := fun {β : Type} (π : Tcb → β) => k.view_modTcb i (fun _ => k.freshTcb i prio) π
  exact ReadyView.ext (Lib.Queues.ext (hview Tcb.rqNext) rfl rfl) (hview Tcb.inReadyQ)
    (hview Tcb.prio) rfl

/-- A creation that takes an entry off every queue keeps the queues well formed. -/
theorem ReadyWF.createThread (h : k.ReadyWF) {prio : Prio} {fill : Tcb → Tcb} {r : Slot × Kernel}
    (hr : k.createThread prio fill = some r)
    (hfill : ∀ x, (fill x).rqNext = x.rqNext ∧ (fill x).inReadyQ = x.inReadyQ ∧
      (fill x).prio = x.prio)
    (hdead : ∀ i, k.firstDead = some i → (k.tcb i).inReadyQ = false) : r.2.ReadyWF := by
  obtain ⟨i, k'⟩ := r
  obtain ⟨hi, rfl⟩ := createThread_eq hr
  obtain ⟨l, hl⟩ := h
  have h₁ : (k.modTcb i fun _ => k.freshTcb i prio).ReadyWF :=
    ⟨l, k.ready_freshTcb i prio ▸ hl.reset (hdead i hi) prio⟩
  exact (h₁.of_eq (ready_modTcb _ i hfill)).schedReadyNow i

theorem ReadyWF.boot (untypedBase untypedSize : Word) (fpuDefault : FpuState) :
    (boot untypedBase untypedSize fpuDefault).ReadyWF :=
  ⟨fun _ => [], ⟨⟨fun _ => rfl, fun _ => rfl, fun h => absurd h List.not_mem_nil⟩,
    fun _ _ => by simp [ready, view, Kernel.boot], fun _ => by simp [ready, Kernel.boot]⟩⟩

/-! ## What the queues are for -/

/-- The lists `l` are the ready queues: each runs from its head to its tail and visits no
thread twice, holds only queued threads of its priority, and is marked in the bitmap
when it is not empty; and every queued thread is on exactly one of them. -/
structure ReadyLists (k : Kernel) (l : Prio → List Slot) : Prop where
  chain : ∀ p, Lib.Chain (fun t : Slot => (k.tcb t).rqNext) (k.readyHead p) (l p)
  nodup : ∀ p, (l p).Nodup
  queued : ∀ p, ∀ t ∈ l p, (k.tcb t).prio = p ∧ (k.tcb t).inReadyQ = true
  listed : ∀ t : Slot, (k.tcb t).inReadyQ = true → ∃! p, t ∈ l p
  tail : ∀ p, k.readyTail p = (l p).getLast?
  bitmap : ∀ p : Prio, k.readyBitmap.getLsbD p.val = true ↔ l p ≠ []

def ReadyQueuesOk (k : Kernel) : Prop := ∃ l, k.ReadyLists l

theorem ReadyWF.readyQueuesOk (h : k.ReadyWF) : k.ReadyQueuesOk := by
  obtain ⟨l, hl⟩ := h
  refine ⟨l, hl.holds.chain, hl.holds.nodup, fun p t ht => ?_, fun t ht =>
    ?_, hl.holds.tail, hl.bit_iff⟩
  · obtain ⟨hflag, hprio⟩ := (hl.mem_iff p t).mp ht
    exact ⟨hprio, hflag⟩
  · exact ⟨(k.tcb t).prio, (hl.mem_iff _ t).mpr ⟨ht, rfl⟩,
      fun p hp => ((hl.mem_iff p t).mp hp).2.symm⟩

theorem ReadyLists.wf {l : Prio → List Slot} (h : k.ReadyLists l) : k.ready.WF l := by
  refine ⟨⟨h.chain, h.tail, fun {p q t} hp hq => ?_⟩, fun p t => ⟨fun ht => ?_, ?_⟩, h.bitmap⟩
  · rw [← (h.queued p t hp).1, ← (h.queued q t hq).1]
  · exact (h.queued p t ht).symm
  · rintro ⟨hflag, hprio⟩
    obtain ⟨q, hq, -⟩ := h.listed t hflag
    have heq : p = q := hprio.symm.trans (h.queued q t hq).1
    rwa [heq]

theorem ReadyQueuesOk.prio_of_head (h : k.ReadyQueuesOk) {p : Prio} {t : Slot}
    (hhead : k.readyHead p = some t) : (k.tcb t).prio = p := by
  obtain ⟨l, hl⟩ := h
  have heq := (hl.chain p).head_eq
  rw [hhead] at heq
  exact (hl.queued p t (List.mem_of_head? heq.symm)).1

end Kernel

/-! ## Runs of scheduler operations -/

inductive Creator
  | kernel (entry stackTop : Word) (prio : Prio)
  | user (entry userStackTop : Word) (prio : Prio) (addressSpace : Word) (pagerTid : Tid)
  | userArgv (image : Kernel.Image) (prio : Prio) (pagerTid : Tid)
  | forked (addressSpace : Word) (pagerTid : Tid) (prio : Prio) (parent : Slot)

/-- The operations on threads that the rest of the kernel strings together. -/
inductive SchedOp
  | wake (c : Cpu) (t : Slot)
  | drain
  | push (t : Slot)
  | readyNow (t : Slot)
  | pop
  | schedule (c : Cpu)
  | block (t : Slot) (why : ThreadState)
  | terminate (c : Cpu) (victimTid : Tid)
  | terminateTo (c : Cpu) (cur : Slot) (finalState : ThreadState)
  | reap (t : Slot)
  | create (how : Creator)

namespace Kernel

def create (k : Kernel) : Creator → Option (Slot × Kernel)
  | .kernel entry stackTop prio => k.threadCreate entry stackTop prio
  | .user entry userStackTop prio addressSpace pagerTid =>
    k.threadCreateUserLocked entry userStackTop prio addressSpace pagerTid
  | .userArgv image prio pagerTid => k.threadCreateUserArgvLocked image prio pagerTid
  | .forked addressSpace pagerTid prio parent =>
    k.threadCreateForkedLocked addressSpace pagerTid prio parent

def schedStep (k : Kernel) : SchedOp → Option Kernel
  | .wake c t => some (k.schedWake c t)
  | .drain => some k.drainInbox
  | .push t => some (k.rqPush t)
  | .readyNow t => some (k.schedReadyNow t)
  | .pop => k.rqPopHighest.map Prod.snd
  | .schedule c => k.schedule c
  | .block t why => some (k.schedBlock t why)
  | .terminate c victimTid => some ((k.schedTerminate c victimTid).getD k)
  | .terminateTo c cur finalState => some (k.schedTerminateTo c cur finalState)
  | .reap t => some (k.schedReapZombie t)
  | .create how => some (((k.create how).map Prod.snd).getD k)

def CreatesUnqueued (k : Kernel) : SchedOp → Prop
  | .create _ => ∀ i, k.firstDead = some i → (k.tcb i).inReadyQ = false
  | _ => True

instance (k : Kernel) (op : SchedOp) : Decidable (k.CreatesUnqueued op) := by
  unfold CreatesUnqueued
  cases op <;> infer_instance

variable {k : Kernel}

theorem ReadyWF.create (h : k.ReadyWF)
    (hdead : ∀ i, k.firstDead = some i → (k.tcb i).inReadyQ = false) {how : Creator}
    {r : Slot × Kernel} (hr : k.create how = some r) : r.2.ReadyWF := by
  cases how <;> exact h.createThread hr (fun _ => ⟨rfl, rfl, rfl⟩) hdead

/-- **Step.**  Every operation keeps the queues well formed, a creation on the condition
that it does not clear a queued entry. -/
theorem ReadyWF.schedStep (h : k.ReadyWF) {op : SchedOp} (hok : k.CreatesUnqueued op)
    {k' : Kernel} (hs : k.schedStep op = some k') : k'.ReadyWF := by
  cases op with
  | wake c t => cases hs; exact h.of_eq (k.ready_schedWake c t)
  | drain => cases hs; exact h.drainInbox
  | push t => cases hs; exact h.rqPush t
  | readyNow t => cases hs; exact h.schedReadyNow t
  | pop =>
    obtain ⟨r, hr, rfl⟩ := Option.map_eq_some_iff.mp hs
    exact h.rqPopLoop hr
  | schedule c => exact h.schedule hs
  | block t why => cases hs; exact h.of_eq (k.ready_setState t why)
  | terminate c victimTid =>
    obtain rfl := Option.some.inj hs
    cases hr : k.schedTerminate c victimTid with
    | none => exact h
    | some k' => exact h.of_eq (ready_schedTerminate hr)
  | terminateTo c cur finalState =>
    obtain rfl := Option.some.inj hs
    refine h.of_eq ?_
    rw [schedTerminateTo, ready_requestResched, ready_terminateTcb]
  | reap t => cases hs; exact h.of_eq (k.ready_setState t .dead)
  | create how =>
    cases hs
    cases hr : k.create how with
    | none => exact h
    | some r => exact h.create hok hr

/-- **Run.**  The invariant holds in every run whose creations clear unqueued entries. -/
theorem ReadyWF.of_reach (h : Lib.Reach Kernel.schedStep CreatesUnqueued IsBoot k) : k.ReadyWF := by
  refine h.invariant (I := ReadyWF) ?_ ?_
  · rintro k ⟨base, size, fpu, rfl⟩
    exact ReadyWF.boot base size fpu
  · intro k op k' hk hok hs
    exact hk.schedStep hok hs

/-- In every run in which no creation clears an entry that is still queued, the ready
queues are well formed throughout. -/
theorem readyQueuesOk_of_createsUnqueued {k : Kernel}
    (h : Lib.Reach schedStep CreatesUnqueued IsBoot k) : k.ReadyQueuesOk :=
  (ReadyWF.of_reach h).readyQueuesOk

def recycleRun : List SchedOp :=
  [.create (.user 0 0 5 0x1000 0), .create (.user 0 0 7 0x2000 0), .schedule 0,
    .terminateTo 0 2 .dead, .schedule 0, .create (.user 0 0 9 0x3000 0), .wake 0 1, .drain]

theorem readyQueuesOk_recycleRun :
    ∃ k, Lib.run schedStep CreatesUnqueued (boot 0 0 0) recycleRun = some k ∧ k.ReadyQueuesOk := by
  have hsome : (Lib.run schedStep CreatesUnqueued (boot 0 0 0) recycleRun).isSome := by
    decide +kernel
  obtain ⟨k, hk⟩ := Option.isSome_iff_exists.mp hsome
  exact ⟨k, hk, readyQueuesOk_of_createsUnqueued (.of_run (.init ⟨0, 0, 0, rfl⟩) hk)⟩

/-- A READY thread is ended while it sits on the queue of priority 5, and its entry is
cleared and reused for a thread of priority 7. -/
def reuseRun : List SchedOp :=
  [.create (.user 0 0 5 0x1000 0), .terminate 0 1, .create (.user 0 0 7 0x2000 0)]

/-- After `reuseRun` the queue of priority 5 starts with a thread of priority 7. -/
theorem not_readyQueuesOk_reuseRun :
    ¬ ∀ k, Lib.Reach schedStep (fun _ _ => True) IsBoot k → k.ReadyQueuesOk := by
  intro h
  obtain ⟨k, hk, hhead, hprio⟩ : ∃ k, Lib.Reach schedStep (fun _ _ => True) IsBoot k ∧
    k.readyHead 5 = some 1 ∧
      (k.tcb (.thread 1)).prio = 7 := Lib.observed reuseRun ⟨0, 0, 0, rfl⟩ (by decide +kernel)
  have := (h k hk).prio_of_head hhead
  rw [hprio] at this
  exact absurd this (by decide)

end Kernel

end Robu
