import Robu.Kernel.ActsStep
import Robu.Kernel.SingleExec
import Robu.Lib.Ring

/-!
# The queue of page faults

A page fault whose pager does not wait for it goes to a ring that all pagers share.
`vm_take_queued_fault` looks only at the oldest entry, so a pager gets its faults as long
as the entries before them are its own, and of threads that have not ended.
-/

namespace Robu.Kernel

variable {k : Kernel} {l : Label} {u : Slot} {p : Tid}

def faultQueue (k : Kernel) : List FaultMsg := Lib.ring k.faultEntries k.faultHead k.faultTail

/-- The fault is one of a thread that has not ended and whose pager is `r`. -/
def faultFor (k : Kernel) (r : Slot) (msg : FaultMsg) : Prop :=
  ∃ u ∈ k.schedGetTcb msg.faultingThread, (k.tcb u).pagerTid = r.tid
deriving Decidable

def FaultsServed (k : Kernel) : Prop :=
  ∀ r msg, k.faultQueue.find? (k.faultFor r ·) = some msg →
    (k.vmTakeQueuedFault r).map Prod.fst = some msg

/-- All faults that wait are of threads that have not ended and have the same pager. -/
def OnePager (k : Kernel) : Prop :=
  ∃ p, ∀ msg ∈ k.faultQueue, ∃ u ∈ k.schedGetTcb msg.faultingThread, (k.tcb u).pagerTid = p

/-- With one pager every fault is served. -/
theorem OnePager.faultsServed (h : k.OnePager) : k.FaultsServed := by
  obtain ⟨p, hp⟩ := h
  intro r msg hfind
  have hne : k.faultHead ≠ k.faultTail := by
    intro heq
    rw [faultQueue, Lib.ring_eq_nil heq] at hfind
    cases hfind
  have hqueue : k.faultQueue = k.faultEntries k.faultTail :: Lib.ring _ _ _ := Lib.ring_pop hne
  -- the entry found belongs to `r`, and so does the oldest one
  have hfor : k.faultFor r msg := by simpa using List.find?_some hfind
  obtain ⟨u, hu, hur⟩ := hfor
  obtain ⟨u', hu', hup⟩ := hp msg (List.mem_of_find?_eq_some hfind)
  obtain rfl : u = u' := Option.mem_unique hu hu'
  obtain ⟨v, hv, hvp⟩ := hp (k.faultEntries k.faultTail) (hqueue ▸ (.head _))
  have hvr : (k.tcb v).pagerTid = r.tid := hvp.trans (hup.symm.trans hur)
  have hmine : k.faultFor r (k.faultEntries k.faultTail) := ⟨v, hv, hvr⟩
  rw [hqueue, List.find?_cons_of_pos (by simpa using hmine)] at hfind
  rw [← Option.some.inj hfind]
  have hv : k.schedGetTcb (k.faultEntries k.faultTail).faultingThread = some v := hv
  unfold vmTakeQueuedFault
  rw [if_neg hne]
  simp only [hv, hvr, ne_eq, not_true, if_false, Option.map_some]

/-! ## Sections -/

/-- The thread may end in the section: it is destroyed, exits, has a fault nobody handles,
is signalled or has a signal pending that ends it. -/
def mayEnd (k : Kernel) (l : Label) (t : Slot) : Prop :=
  (k.sectionEffects l).kills t ∨ (k.sectionEffects l).exits t

instance (k : Kernel) (l : Label) (t : Slot) : Decidable (k.mayEnd l t) :=
  inferInstanceAs (Decidable ((k.effects l).kills t ∨ (k.effects l).exits t ∨
    (l.Resumes ∧ (FatalPending (k.tcb t) ∨ (k.effects l).signals t))))

/-- No thread with a queued fault may end, and a thread that faults has not ended, does not
end at once, and has the pager of the queued faults. -/
def QueuesInOrder (k : Kernel) (l : Label) : Prop :=
  (∀ msg ∈ k.faultQueue, ∀ u ∈ k.schedGetTcb msg.faultingThread, ¬ k.mayEnd l u) ∧
    ∀ me ∈ k.current l.cpu, (k.effects l).faults me → (k.schedGetTcb me.tid).isSome ∧
      ¬ k.mayEnd l me ∧
        ∀ msg ∈ k.faultQueue, ∀ u ∈ k.schedGetTcb msg.faultingThread,
          (k.tcb u).pagerTid = (k.tcb me).pagerTid
deriving Decidable

/-- A thread that does not end in the section and has the pager `p`. -/
structure Stands (F : Effects) (p : Tid) (k : Kernel) (u : Slot) : Prop where
  found : k.schedGetTcb u.tid = some u
  pager : (k.tcb u).pagerTid = p
  kept : ¬ (F.kills u ∨ F.exits u)

theorem Act.stands (h : Act F c k k') (hu : k.Stands F p u) : k'.Stands F p u := by
  have hlive : k.Lives u := (schedGetTcb_eq_some hu.found).2
  have hturn := h.turn u
  refine ⟨?_, (hturn.pagerTid hlive).trans hu.pager, hu.kept⟩
  have hne : u ≠ 0 := by
    rintro rfl
    have hfound := hu.found
    rw [schedGetTcb_tid, if_pos (.inl rfl)] at hfound
    cases hfound
  have hlive' := hturn.lives hlive (fun hk => hu.kept (.inl hk)) fun hx => hu.kept (.inr hx)
  rw [schedGetTcb_tid, if_neg (by simp [hne, hlive'])]

/-- The faults that wait, and the one that may come, are of threads that stay and have the
same pager. -/
structure Standing (F : Effects) (p : Tid) (k : Kernel) : Prop where
  queued : ∀ msg ∈ k.faultQueue, ∃ u, msg.faultingThread = u.tid ∧ k.Stands F p u
  coming : ∀ me, F.faults me → k.Stands F p me

theorem SameTables.faultQueue (h : k.SameTables k') : k'.faultQueue = k.faultQueue := by
  rw [Kernel.faultQueue, Kernel.faultQueue, h.faultEntries, h.faultHead, h.faultTail]

/-- An act keeps the queue, adds a fault that may come, or removes the oldest. -/
theorem Act.faultQueue (h : Act F c k k') : ∀ msg ∈ k'.faultQueue, msg ∈ k.faultQueue ∨
      ∃ me, F.faults me ∧ msg.faultingThread = me.tid := by
  have hkeep : k'.faultQueue = k.faultQueue → ∀ msg ∈ k'.faultQueue, msg ∈ k.faultQueue ∨
      ∃ me, F.faults me ∧ msg.faultingThread = me.tid := fun heq msg hmsg => .inl (heq ▸ hmsg)
  cases h.tables with
  | same same | tick _ same | arm _ same | caps _ same | newNotification same | notify _ same
  | takeBits _ same | waitNotif _ _ same | ended _ same => exact hkeep (same.faultQueue.trans rfl)
  | @enqueue me msg hf faulter _ room same =>
    intro m hm
    rw [same.faultQueue, Kernel.faultQueue, Lib.ring_push room, List.mem_append,
      List.mem_singleton] at hm
    rcases hm with hm | rfl
    · exact .inl hm
    · exact .inr ⟨me, hf, faulter⟩
  | takeFault some same =>
    intro m hm
    rw [same.faultQueue] at hm
    left
    rw [Kernel.faultQueue, Lib.ring_pop some]
    exact .tail _ hm

theorem Act.standing (h : Act F c k k') (hk : k.Standing F p) : k'.Standing F p := by
  refine ⟨fun msg hmsg => ?_, fun me hme => h.stands (hk.coming me hme)⟩
  rcases h.faultQueue msg hmsg with hold | ⟨me, hme, heq⟩
  · obtain ⟨u, heq, hu⟩ := hk.queued msg hold
    exact ⟨u, heq, h.stands hu⟩
  · exact ⟨me, heq, h.stands (hk.coming me hme)⟩

theorem current_of_faults (h : (k.effects l).faults me) : k.current l.cpu = some me := by
  have hhandling := handling_effects k l
  generalize k.effects l = G, k.doing l = D at h hhandling
  cases hhandling with
  | kern | start | quiet | tick | call => exact h.elim
  | fault _ hcur => exact hcur.trans (congrArg some h.1.symm)

/-- **Step.** -/
theorem OnePager.step (h : k.OnePager) (hl : k.QueuesInOrder l) (hs : k.step l = some k') :
    k'.OnePager := by
  obtain ⟨p, hp⟩ := h
  -- the pager of the queued faults is that of a thread that faults now
  obtain ⟨q, hq⟩ : ∃ q, (k.entered l).Standing (k.sectionEffects l) q := by
    have hstands : ∀ {q : Tid} {u : Slot}, k.schedGetTcb u.tid = some u →
        (k.tcb u).pagerTid = q → ¬ k.mayEnd l u → (k.entered l).Stands (k.sectionEffects l) q u :=
      fun hfound hpager hkept => ⟨(entered_schedGetTcb ..).trans hfound,
        (entered_field k l _ Tcb.pagerTid fun _ _ => rfl).trans hpager, hkept⟩
    have hqueued : ∀ {q : Tid} (hq : ∀ msg ∈ k.faultQueue, ∃ u ∈ k.schedGetTcb msg.faultingThread,
        (k.tcb u).pagerTid = q), ∀ msg ∈ (k.entered l).faultQueue, ∃ u,
          msg.faultingThread = u.tid ∧ (k.entered l).Stands (k.sectionEffects l) q u := by
      intro q hq msg hmsg
      rw [(k.sameTables_entered l).faultQueue] at hmsg
      obtain ⟨u, hu, hpager⟩ := hq msg hmsg
      have heq := (schedGetTcb_eq_some hu).1
      exact ⟨u, heq, hstands (heq ▸ hu) hpager (hl.1 msg hmsg u hu)⟩
    by_cases hfault : ∃ me, (k.effects l).faults me
    · obtain ⟨me, hme⟩ := hfault
      have hcur := current_of_faults hme
      obtain ⟨hfound, hkept, hsame⟩ := hl.2 me hcur hme
      refine ⟨(k.tcb me).pagerTid, hqueued fun msg hmsg => ?_, fun me' hme' => ?_⟩
      · obtain ⟨u, hu, -⟩ := hp msg hmsg
        exact ⟨u, hu, hsame msg hmsg u hu⟩
      · obtain rfl : me' = me := Option.some.inj ((current_of_faults hme').symm.trans hcur)
        obtain ⟨u, hu⟩ := Option.isSome_iff_exists.mp hfound
        obtain rfl : me' = u := Slot.tid_inj (schedGetTcb_eq_some hu).1
        exact hstands hu rfl hkept
    · exact ⟨p, hqueued hp, fun me hme => absurd ⟨me, hme⟩ hfault⟩
  have hstanding : k'.Standing (k.sectionEffects l) q :=
    (acts_section hs).invariant (fun hk hact => hact.standing hk) hq
  refine ⟨q, fun msg hmsg => ?_⟩
  obtain ⟨u, heq, hu⟩ := hstanding.queued msg hmsg
  exact ⟨u, heq ▸ hu.found, hu.pager⟩

theorem OnePager.of_isBoot (h : k.IsBoot) : k.OnePager := by
  obtain ⟨base, size, fpu, rfl⟩ := h
  exact ⟨0, fun msg hmsg => by cases hmsg⟩

/-- In every run in which no thread with a queued fault may end, and faults are queued only
behind faults for the same pager, every pager gets the first fault that waits for it. -/
theorem faultsServed_of_queuesInOrder (h : Reachable QueuesInOrder k) : k.FaultsServed := by
  refine (h.invariant (I := OnePager) (fun _ => OnePager.of_isBoot) ?_).faultsServed
  intro k l k' hk hok hs
  exact hk.step hok hs

def spawnPaged (addressSpace : Word) (pager : Tid) : Label :=
  .kern 0 (.threadCreateUser 0 0 5 addressSpace pager)

def pageFault (c : Cpu) (cr2 : Word) : Label :=
    .trap c { frame := { vector := 14 }, ctx := ⟨0, 0⟩, cr2 := cr2 }

def twoClientsRun : List Label :=
  [.spawn 0x1000, spawnPaged 0x2000 1, spawnPaged 0x3000 1, .start 0, .yield 0, pageFault 0 0x5000,
    pageFault 0 0x6000]

theorem faultsServed_twoClientsRun :
    ∃ k, Lib.run step QueuesInOrder (boot 0 0 0) twoClientsRun = some k ∧
      k.faultQueue.map FaultMsg.faultingThread = [2, 3] ∧ k.FaultsServed :=
  Lib.exists_run ⟨0, 0, 0, rfl⟩ (by decide +kernel) fun hk _ => faultsServed_of_queuesInOrder hk

def twoPagersRun : List Label :=
  [.spawn 0x1000, .spawn 0x2000, spawnPaged 0x3000 1, spawnPaged 0x4000 2, .start 0, .yield 0,
    .yield 0, pageFault 0 0x5000, pageFault 0 0x6000]

/-- After `twoPagersRun` the fault of thread 4 waits for the pager 2, which gets nothing. -/
theorem not_faultsServed_twoPagersRun : ¬ ∀ k, Reachable (fun _ _ => True) k → k.FaultsServed := by
  intro h
  obtain ⟨k, hk, msg, hmsg, htake⟩ : ∃ k, Reachable (fun _ _ => True) k ∧
      ∃ msg ∈ k.faultQueue.find? (k.faultFor 2 ·), ((k.vmTakeQueuedFault 2).map Prod.fst).isNone :=
    Lib.observed twoPagersRun ⟨0, 0, 0, rfl⟩ (by decide +kernel)
  rw [h k hk 2 msg hmsg] at htake
  cases htake

end Robu.Kernel
