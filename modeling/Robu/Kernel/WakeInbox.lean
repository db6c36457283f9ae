import Robu.Kernel.ReadyQueue
import Robu.Lib.Lifo
import Mathlib.Data.Fintype.Card

/-!
# The wake inbox

`sched_wake` pushes a thread on an intrusive stack, `drain_inbox` empties the stack into
the ready queues.  A control block has no field saying that it is on the stack, so a
second wake of a thread that is already there overwrites its link, and the threads that
were only reachable through the old link are never queued although they are READY.

The main result says exactly when a sequence of wakes loses no thread.
-/

namespace Robu.Kernel

variable {k : Kernel} {c : Cpu} {t : Slot} {ws : List Slot}

/-! ## Waking -/

def Wakeable (k : Kernel) (t : Slot) : Prop := k.Asleep t ∧ (k.tcb t).inReadyQ = false
deriving Decidable

def effective (k : Kernel) (ws : List Slot) : List Slot := ws.filter fun t => k.Wakeable t

def wakeAll (k : Kernel) (c : Cpu) (ws : List Slot) : Kernel :=
  ws.foldl (fun k t => k.schedWake c t) k

theorem state_schedWake (k : Kernel) (c : Cpu) (t u : Slot) : ((k.schedWake c t).tcb u).state =
      if u = t ∧ k.Asleep t then .ready else (k.tcb u).state := by
  by_cases h : k.Asleep t
  · obtain ⟨flags, ⟨-, hwake⟩ | ⟨-, hwake⟩⟩ := schedWake_of_asleep h c
    · rw [hwake]
      by_cases hu : u = t <;> simp [h, hu, setState, modTcb_tcb]
    · rw [hwake]
      by_cases hu : u = t <;> simp [h, hu, setState, inboxPush, modTcb_tcb]
  · simp [schedWake_of_not_asleep h, h]

theorem view_inboxPush (k : Kernel) (t : Slot) : (k.inboxPush t).view Tcb.inboxNext =
    Function.update (k.view Tcb.inboxNext) t k.wakeInbox :=
  k.view_modTcb t (fun x => { x with inboxNext := k.wakeInbox }) Tcb.inboxNext

/-- A wake of a thread that is not queued puts it on top of the inbox, with the old top
behind it. -/
theorem inbox_schedWake (k : Kernel) (c : Cpu) (t : Slot) :
    (k.schedWake c t).wakeInbox = (if k.Wakeable t then some t else k.wakeInbox) ∧
      (k.schedWake c t).view Tcb.inboxNext =
        if k.Wakeable t then Function.update (k.view Tcb.inboxNext) t k.wakeInbox
        else k.view Tcb.inboxNext := by
  by_cases h : k.Asleep t
  · have hstate : (k.setState t .ready).view Tcb.inboxNext = k.view Tcb.inboxNext :=
      k.view_modTcb_frame t rfl
    obtain ⟨flags, ⟨hq, hwake⟩ | ⟨hq, hwake⟩⟩ := schedWake_of_asleep h c
    · have hw : ¬ k.Wakeable t := fun hw => by simp [hw.2] at hq
      simp only [hw, if_false]
      rw [hwake]
      exact ⟨rfl, hstate⟩
    · have hw : k.Wakeable t := ⟨h, hq⟩
      simp only [hw, if_true]
      rw [hwake, ← hstate]
      exact ⟨rfl, view_inboxPush ..⟩
  · have hw : ¬ k.Wakeable t := fun hw => h hw.1
    simp [schedWake_of_not_asleep h, hw]

theorem asleep_schedWake (k : Kernel) (c : Cpu) (t u : Slot) :
    (k.schedWake c t).Asleep u ↔ k.Asleep u := by
  unfold Asleep
  rw [state_schedWake]
  split
  · rename_i h
    obtain ⟨rfl, ha⟩ := h
    simp [ha.1, ha.2.1, ha.2.2]
  · exact Iff.rfl

/-! ## A sequence of wakes -/

/-- What a sequence of wakes leaves behind: the links of its effective part, last wake
first, and READY threads. -/
structure Woken (k : Kernel) (ws : List Slot) (k' : Kernel) : Prop where
  inbox : k'.wakeInbox = (k.effective ws).reverse.head?
  link : ∀ x ∈ (k.effective ws).reverse, k'.view Tcb.inboxNext x =
    Lib.succIn (k.effective ws).reverse x
  ready : k'.ready = k.ready
  asleep : ∀ u, k'.Asleep u ↔ k.Asleep u
  state : ∀ u : Slot, (k'.tcb u).state = if u ∈ ws ∧ k.Asleep u then .ready else (k.tcb u).state

/-- **Step.**  One more wake. -/
theorem Woken.schedWake {k' : Kernel} (h : k.Woken ws k') (c : Cpu) (t : Slot) :
    k.Woken (ws ++ [t]) (k'.schedWake c t) := by
  have hw : k'.Wakeable t ↔ k.Wakeable t := by
    have hflag : (k'.tcb t).inReadyQ = (k.tcb t).inReadyQ :=
      congrArg (fun v : ReadyView => v.flag t) h.ready
    rw [Wakeable, Wakeable, h.asleep, hflag]
  have heff : k.effective (ws ++ [t]) = k.effective ws ++ if k.Wakeable t then [t] else [] := by
    simp [effective, List.filter_append, List.filter_cons]
  obtain ⟨hinbox, hlink⟩ := inbox_schedWake k' c t
  refine ⟨?_, ?_, by rw [ready_schedWake, h.ready], fun u => ?_, fun u => ?_⟩
  · rw [hinbox, heff]
    by_cases ht : k.Wakeable t
    · simp [ht, hw.mpr ht]
    · simp [ht, mt hw.mp ht, h.inbox]
  · intro x hx
    rw [hlink]
    rw [heff] at hx ⊢
    by_cases ht : k.Wakeable t
    · simp only [ht, hw.mpr ht, if_true, List.reverse_append, List.reverse_singleton,
        List.singleton_append, List.mem_cons, Lib.succIn] at hx ⊢
      by_cases hxt : x = t
      · subst hxt; simp [h.inbox]
      · rw [Function.update_of_ne hxt, if_neg hxt]
        exact h.link x (by simpa [hxt] using hx)
    · simp only [ht, mt hw.mp ht, if_false, List.append_nil] at hx ⊢
      exact h.link x hx
  · rw [asleep_schedWake, h.asleep]
  · simp only [state_schedWake, h.state, h.asleep]
    by_cases hu : u = t
    · subst hu
      by_cases ha : k.Asleep u <;> simp [ha]
    · simp [hu]

/-- **Run.**  From an empty inbox. -/
theorem woken_wakeAll (hin : k.wakeInbox = none) (c : Cpu) (ws : List Slot) :
    k.Woken ws (k.wakeAll c ws) := by
  induction ws using List.reverseRecOn with
  | nil => exact ⟨by simpa [wakeAll, effective] using hin, by simp [effective], rfl,
      fun _ => Iff.rfl, fun _ => by simp [wakeAll]⟩
  | append_singleton ws t ih =>
    have hstep : k.wakeAll c (ws ++ [t]) = (k.wakeAll c ws).schedWake c t := by
      simp [wakeAll]
    rw [hstep]
    exact ih.schedWake c t

/-! ## Draining -/

/-- Queueing a thread only writes links and flags of the ready queues. -/
theorem view_rqPush {β : Type} (k : Kernel) (t : Slot) {π : Tcb → β}
    (hπ : ∀ x b v, π { x with inReadyQ := b, rqNext := v } = π x) :
    (k.rqPush t).view π = k.view π := by
  have hlink : ∀ (k : Kernel) (b : Slot) (v : Option Slot), (k.setRqNext b v).view π = k.view π :=
    fun k b v => k.view_modTcb_frame b (hπ _ _ v)
  have hflag : ∀ b, (k.setQueued t b).view π = k.view π := fun b =>
    k.view_modTcb_frame t (hπ _ b none)
  unfold rqPush
  split
  · rfl
  simp only
  split
  · exact (hlink _ _ _).trans (hflag true)
  · exact hflag true

/-- **Drain.**  When every thread the loop meets is READY, exactly these are queued in
addition to those queued before. -/
theorem drainFrom_spec (fuel : Nat) (k : Kernel) (h : Option Slot)
    (hready : ∀ x ∈ Lib.walk fuel (k.view Tcb.inboxNext) h, (k.tcb x).state = .ready) :
    (∀ u : Slot, ((drainFrom fuel k h).tcb u).inReadyQ = true ↔
        (k.tcb u).inReadyQ = true ∨ u ∈ Lib.walk fuel (k.view Tcb.inboxNext) h) ∧
      (drainFrom fuel k h).view Tcb.state = k.view Tcb.state := by
  induction fuel generalizing k h with
  | zero => simp [drainFrom, Lib.walk]
  | succ fuel ih =>
    cases h with
    | none => simp [drainFrom, Lib.walk]
    | some t =>
      set k₁ := k.modTcb t fun x => { x with inboxNext := none } with hk₁
      have hlink : (k₁.rqPush t).view Tcb.inboxNext =
        Function.update (k.view Tcb.inboxNext) t none :=
        (k₁.view_rqPush t fun _ _ _ => rfl).trans (k.view_modTcb t _ _)
      have hstate : (k₁.rqPush t).view Tcb.state = k.view Tcb.state :=
        (k₁.view_rqPush t fun _ _ _ => rfl).trans (k.view_modTcb_frame t rfl)
      have ht : (k₁.tcb t).state = .ready := by
        have := hready t (by simp [Lib.walk])
        simpa [hk₁] using this
      have hstep : drainFrom (fuel + 1) k (some t) =
        drainFrom fuel (k₁.rqPush t) (k.tcb t).inboxNext := by
        simp only [drainFrom, ← hk₁, ht, if_true]
      have hflag : ∀ u : Slot, ((k₁.rqPush t).tcb u).inReadyQ = true ↔ (k.tcb u).inReadyQ = true ∨
        u = t := by
        intro u
        have hpush := congrArg (fun v : ReadyView => v.flag u) (k₁.ready_rqPush t)
        have hkeep : k₁.ready = k.ready := k.ready_modTcb t fun _ => ⟨rfl, rfl, rfl⟩
        rw [hkeep] at hpush
        exact (Eq.congr_left hpush).trans (k.ready.flag_push t u)
      obtain ⟨ih₁, ih₂⟩ := ih (k₁.rqPush t) (k.tcb t).inboxNext (by
        intro x hx
        rw [hlink] at hx
        have := hready x (by simp only [Lib.walk, List.mem_cons]; exact .inr hx)
        exact (congrFun hstate x).trans this)
      rw [hstep]
      refine ⟨fun u => ?_, ih₂.trans hstate⟩
      rw [ih₁, hlink, hflag]
      simp only [Lib.walk, List.mem_cons, or_assoc]
      rfl

/-! ## No lost wake-up -/

def QueuedOnce (k : Kernel) (t : Slot) : Prop :=
  ∃ l, k.ReadyLists l ∧ (l (k.tcb t).prio).count t = 1

theorem QueuedOnce.inReadyQ (h : k.QueuedOnce t) : (k.tcb t).inReadyQ = true := by
  obtain ⟨l, hl, hcount⟩ := h
  have hmem : t ∈ l (k.tcb t).prio := List.count_pos_iff.mp (by omega)
  exact (hl.queued _ t hmem).2

/-- On well-formed queues, being queued once is having the flag set. -/
theorem queuedOnce_iff (h : k.ReadyWF) : k.QueuedOnce t ↔ (k.tcb t).inReadyQ = true := by
  refine ⟨QueuedOnce.inReadyQ, fun hflag => ?_⟩
  obtain ⟨l, hl⟩ := h.readyQueuesOk
  refine ⟨l, hl, List.count_eq_one_of_mem (hl.nodup _) ?_⟩
  exact (hl.wf.mem_iff _ t).mpr ⟨hflag, rfl⟩

/-- **Wakes then drain.**  Afterwards the threads that were queued and those that surface
in the effective wakes are queued; the states are those after the wakes. -/
theorem drain_wakeAll (hin : k.wakeInbox = none) (c : Cpu) (ws : List Slot) (u : Slot) :
    (((k.wakeAll c ws).drainInbox.tcb u).inReadyQ = true ↔
        (k.tcb u).inReadyQ = true ∨ Lib.Surfaces (k.effective ws).reverse u) ∧
      ((k.wakeAll c ws).drainInbox.tcb u).state = ((k.wakeAll c ws).tcb u).state := by
  have h := woken_wakeAll hin c ws
  set k₁ : Kernel := { k.wakeAll c ws with wakeInbox := none } with hk₁
  have hwalk : ∀ x, x ∈ Lib.walk 65 (k₁.view Tcb.inboxNext) (k.wakeAll c ws).wakeInbox ↔
      Lib.Surfaces (k.effective ws).reverse x := by
    intro x
    rw [h.inbox]
    refine Lib.mem_walk_iff h.link fun q _ hq => ?_
    have hlen := List.Nodup.length_le_card hq
    rw [Fintype.card_fin] at hlen
    omega
  have hready : ∀ x ∈ Lib.walk 65 (k₁.view Tcb.inboxNext) (k.wakeAll c ws).wakeInbox,
      (k₁.tcb x).state = .ready := by
    intro x hx
    obtain ⟨p, s, heq, -⟩ := (hwalk x).mp hx
    have hmem : x ∈ k.effective ws := by rw [← List.mem_reverse, heq]; simp
    obtain ⟨hws, hwake⟩ := List.mem_filter.mp hmem
    exact (h.state x).trans (if_pos ⟨hws, (of_decide_eq_true hwake).1⟩)
  obtain ⟨hflag, hstate⟩ := drainFrom_spec 65 k₁ (k.wakeAll c ws).wakeInbox hready
  refine ⟨(hflag u).trans (or_congr ?_ (hwalk u)), congrFun hstate u⟩
  exact Eq.congr_left (congrArg (fun v : ReadyView => v.flag u) h.ready)

/-- **No lost wake-up.**  From well-formed queues and an empty inbox, a sequence of wakes
followed by a drain leaves every woken READY thread on its ready queue exactly once, if
and only if from some wake of each thread on, no thread is put on the inbox twice. -/
theorem wakes_queued_iff (hk : k.ReadyQueuesOk) (hin : k.wakeInbox = none) (c : Cpu)
    (ws : List Slot) : (∀ t ∈ ws, ((k.wakeAll c ws).drainInbox.tcb t).state = .ready →
        (k.wakeAll c ws).drainInbox.QueuedOnce t) ↔
      ∀ t ∈ k.effective ws, ∃ l₁ l₂, k.effective ws = l₁ ++ t :: l₂ ∧ (t :: l₂).Nodup := by
  have hwoken := woken_wakeAll hin c ws
  have hwf : (k.wakeAll c ws).drainInbox.ReadyWF := by
    obtain ⟨l, hl⟩ := hk
    exact ReadyWF.drainInbox (ReadyWF.of_eq ⟨l, hl.wf⟩ hwoken.ready)
  have hsurf : ∀ t, Lib.Surfaces (k.effective ws).reverse t ↔
      ∃ l₁ l₂, k.effective ws = l₁ ++ t :: l₂ ∧ (t :: l₂).Nodup := fun t =>
    Lib.surfaces_reverse
  constructor
  · intro h t ht
    obtain ⟨hws, hwake⟩ := List.mem_filter.mp ht
    have hw : k.Wakeable t := of_decide_eq_true hwake
    obtain ⟨hflag, hstate⟩ := drain_wakeAll hin c ws t
    have hready : ((k.wakeAll c ws).drainInbox.tcb t).state = .ready := by
      rw [hstate, hwoken.state, if_pos ⟨hws, hw.1⟩]
    have hq := hflag.mp ((queuedOnce_iff hwf).mp (h t hws hready))
    refine (hsurf t).mp (hq.resolve_left ?_)
    rw [hw.2]
    exact Bool.false_ne_true
  · intro h t ht hready
    obtain ⟨hflag, hstate⟩ := drain_wakeAll hin c ws t
    rw [queuedOnce_iff hwf, hflag]
    -- a READY thread was asleep before its wake, so it is queued or the wake is effective
    have hasleep : k.Asleep t := by
      rw [← hwoken.asleep, Asleep, ← hstate, hready]
      decide
    cases hq : (k.tcb t).inReadyQ with
    | true => exact .inl rfl
    | false =>
      refine .inr ((hsurf t).mpr (h t (List.mem_filter.mpr ⟨ht, ?_⟩)))
      exact decide_eq_true ⟨hasleep, hq⟩

def sleepRun : List SchedOp :=
  [.create (.user 0 0 5 0x1000 0), .create (.user 0 0 5 0x2000 0), .pop, .pop,
    .block 1 .sleeping, .block 2 .sleeping]

/-- Waking a thread twice around another one loses neither. -/
theorem wakes_queued_sleepRun :
    ∃ k, Lib.run schedStep CreatesUnqueued (boot 0 0 0) sleepRun = some k ∧
      ∀ t ∈ [1, 2, 1], ((k.wakeAll 0 [1, 2, 1]).drainInbox.tcb (.thread t)).state = .ready →
        (k.wakeAll 0 [1, 2, 1]).drainInbox.QueuedOnce t := by
  obtain ⟨k, hk, hin, heff⟩ : ∃ k ∈ Lib.run schedStep CreatesUnqueued (boot 0 0 0) sleepRun,
      k.wakeInbox = none ∧ k.effective [1, 2, 1] = [1, 2, 1] := by
    decide +kernel
  have hok := (ReadyWF.of_reach (.of_run (.init ⟨0, 0, 0, rfl⟩) hk)).readyQueuesOk
  refine ⟨k, hk, (wakes_queued_iff hok hin 0 [1, 2, 1]).mpr ?_⟩
  rw [heff]
  intro t ht
  simp only [List.mem_cons, List.not_mem_nil, or_false] at ht
  rcases ht with rfl | rfl | rfl
  · exact ⟨[1, 2], [], rfl, by decide⟩
  · exact ⟨[1], [1], rfl, by decide⟩
  · exact ⟨[1, 2], [], rfl, by decide⟩

/-- Waking thread 1, then thread 2 twice, leaves thread 1 READY and on no queue. -/
theorem lost_wake_sleepRun : ¬ ∀ k, Lib.Reach schedStep CreatesUnqueued IsBoot k → ∀ c ws, ∀ t ∈ ws,
      ((k.wakeAll c ws).drainInbox.tcb (.thread t)).state = .ready →
        (k.wakeAll c ws).drainInbox.QueuedOnce t := by
  intro h
  obtain ⟨k, hk, hstate, hflag⟩ : ∃ k, Lib.Reach schedStep CreatesUnqueued IsBoot k ∧
      ((k.wakeAll 0 [1, 2, 2]).drainInbox.tcb (.thread 1)).state = .ready ∧
        ((k.wakeAll 0 [1, 2, 2]).drainInbox.tcb (.thread 1)).inReadyQ = false :=
    Lib.observed sleepRun ⟨0, 0, 0, rfl⟩ (by decide +kernel)
  have hq := h k hk 0 [1, 2, 2] 1 (by simp) hstate
  exact absurd (hq.inReadyQ.symm.trans hflag) (by decide)

end Robu.Kernel
