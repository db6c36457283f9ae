import Robu.Core.Parking
import Robu.Kernel.SingleExec

/-!
# Send queues and rendezvous

The send queues of the kernel are well formed as long as no parked thread is signalled,
notified or destroyed: `sig_send`, `notif_deliver` and `terminate_tcb` change the state of
a parked thread without taking it off the queue.

With well-formed queues a rendezvous is missed in one place only.  When a receive
completes the send of a thread that asked for a send-and-receive, the sender starts to
wait without a look at its own send queue.
-/

namespace Robu.Kernel

variable {k k' : Kernel} {l : Label} {q : Slot → List Slot}

/-! ## Well-formed queues -/

/-- The lists `q` are the send queues: each runs from its head to its tail, visits no
thread twice and holds threads parked for its owner, and no thread is on two of them. -/
structure SendLists (k : Kernel) (q : Slot → List Slot) : Prop where
  chain : ∀ r : Slot, Lib.Chain (fun t : Slot => (k.tcb t).sqNext) (k.tcb r).sendQHead (q r)
  nodup : ∀ r, (q r).Nodup
  parked : ∀ r, ∀ t ∈ q r, (k.tcb t).state = .waitSend ∧ (k.tcb t).ipcPartner = r.tid
  once : ∀ r r' t, t ∈ q r → t ∈ q r' → r = r'
  tail : ∀ r : Slot, (k.tcb r).sendQTail = (q r).getLast?
  empty : ∀ r : Slot, (k.tcb r).sendQTail = none ↔ q r = []

def SendQueuesOk (k : Kernel) : Prop := ∃ q, k.SendLists q

theorem sendLists_of_parked (h : k.core.Parked q) : k.SendLists q where
  chain := h.holds.chain
  nodup := h.holds.nodup
  parked _ _ ht := h.parked ht
  once _ _ _ ht ht' := h.holds.disjoint ht ht'
  tail := h.holds.tail
  empty _ := h.holds.tail_eq_none

theorem SendQueuesOk.state_of_head (h : k.SendQueuesOk) {r t : Slot}
    (hhead : (k.tcb r).sendQHead = some t) : (k.tcb t).state = .waitSend := by
  obtain ⟨q, hq⟩ := h
  have heq := (hq.chain r).head_eq
  rw [hhead] at heq
  exact (hq.parked r t (List.mem_of_head? heq.symm)).1

/-- The thread a receive takes from well-formed queues is parked. -/
theorem not_takesRunning_of_parked (h : k.core.Parked q) (l : Label) : ¬ k.takesRunning l := by
  rintro ⟨x, hx, hrun⟩
  cases l with
  | kern | start => cases hx
  | trap c e =>
    simp only [takenSender] at hx
    obtain ⟨cur, -, htakes⟩ := Option.bind_eq_some_iff.mp hx
    unfold callTakes at htakes
    split at htakes
    · split at htakes
      · rename_i prev s hscan
        obtain rfl := Option.some.inj htakes
        -- the search of the entered state is one of the state before
        have hsearch : k.core.search cur ((k.enter c e).tcb cur).uctx.srcFilter =
          some (some (prev, s)) := by
          rw [sendqScan_eq, core_enter] at hscan
          exact hscan
        obtain ⟨l₁, l₂, hl, -⟩ := h.search_found hsearch
        have hst : k.core.state s = .waitSend := (h.parked (r := cur) (by simp [hl])).1
        exact absurd (hst.symm.trans hrun) (by decide)
      · cases htakes
    · cases htakes

/-- Between sections: single execution, well-formed queues, and every waiting thread has
heard its senders if none was missed. -/
structure Orderly (heard : Prop) (k : Kernel) : Prop where
  single : k.SingleExec
  parked : ∃ q, k.core.Parked q ∧ (heard → k.core.Heard q)

/-- **Step.**  A section that hits no parked thread. -/
theorem Orderly.step {heard : Prop} (h : k.Orderly heard) (hhit : ¬ k.hitsParked l)
    (hmiss : heard → ¬ k.missesSender l) (hs : k.step l = some k') : k'.Orderly heard := by
  obtain ⟨q, hq, hheard⟩ := h.parked
  refine ⟨h.single.step (not_takesRunning_of_parked hq l) hs, ?_⟩
  have hstart : (k.opened l).core.Parked q := by
    rw [opened_frame]
    exact ⟨hq.holds, hq.parked⟩
  obtain ⟨q', hq', hkeep⟩ := hstart.steps hhit (refines h.single.curRuns hs).1
  refine ⟨q', hq', fun hh => hkeep (hmiss hh) ?_⟩
  rw [opened_frame]
  exact hheard hh

theorem Orderly.boot (heard : Prop) (untypedBase untypedSize : Word) (fpuDefault : FpuState) :
    (boot untypedBase untypedSize fpuDefault).Orderly heard := by
  refine ⟨SingleExec.boot .., fun _ =>
    [], ⟨⟨fun _ => rfl, fun _ => rfl, ?_⟩, ?_⟩, fun _ r _ t ht => ?_⟩
  · intro i j t ht
    cases ht
  · intro r t ht
    cases ht
  · cases ht

/-- **Run.** -/
theorem Orderly.of_reachable {heard : Prop} {ok : Kernel → Label → Prop}
    (hok : ∀ k l, ok k l → ¬ k.hitsParked l ∧ (heard → ¬ k.missesSender l))
    (h : Reachable ok k) : k.Orderly heard := by
  refine h.invariant (I := Orderly heard) ?_ ?_
  · rintro k ⟨base, size, fpu, rfl⟩
    exact Orderly.boot heard base size fpu
  · intro k l k' hk hkl hs
    exact hk.step (hok k l hkl).1 (hok k l hkl).2 hs

/-- In every run in which no parked thread is signalled, notified or destroyed, the send
queues are well formed throughout. -/
theorem sendQueuesOk_of_not_hitsParked (h : Reachable (fun k l => ¬ k.hitsParked l) k) :
    k.SendQueuesOk := by
  have hk : k.Orderly False := Orderly.of_reachable (fun _ _ hok => ⟨hok, False.elim⟩) h
  obtain ⟨q, hq, -⟩ := hk.parked
  exact ⟨q, sendLists_of_parked hq⟩

/-- Thread 1 sends to thread 2 and receives, and thread 3 sends to thread 2. -/
def parkRun : List Label :=
  [.spawn 0x1000, .spawn 0x2000, .spawn 0x3000, .start 0, .sendRecv 0 2, .yield 0, .send 0 2,
    .kill 0 2 17]

theorem sendQueuesOk_parkRun :
    ∃ k, Lib.run step (fun k l => ¬ k.hitsParked l) (boot 0 0 0) parkRun = some k ∧
      (k.tcb (.thread 2)).sendQTail = some 3 ∧ k.SendQueuesOk :=
  Lib.exists_run ⟨0, 0, 0, rfl⟩ (by decide +kernel) fun hk _ => sendQueuesOk_of_not_hitsParked hk

def signalParkedRun : List Label :=
  [.spawn 0x1000, .spawn 0x2000, .start 0, .send 0 2, .kill 0 1 17]

/-- After `signalParkedRun` thread 1 is READY and on the send queue of thread 2. -/
theorem not_sendQueuesOk_signalParkedRun :
    ¬ ∀ k, Reachable (fun _ _ => True) k → k.SendQueuesOk := by
  intro h
  obtain ⟨k, hk, hhead, hstate⟩ : ∃ k, Reachable (fun _ _ => True) k ∧
    (k.tcb (.thread 2)).sendQHead = some 1 ∧
      (k.tcb (.thread 1)).state = .ready :=
        Lib.observed signalParkedRun ⟨0, 0, 0, rfl⟩ (by decide +kernel)
  have hwait := (h k hk).state_of_head hhead
  exact absurd (hwait.symm.trans hstate) (by decide)

/-! ## Rendezvous -/

/-- The thread `t` is parked on the send queue of `r`: it waits to send, and the links
lead to it from the head of the queue. -/
def ParkedOn (k : Kernel) (r t : Slot) : Prop :=
  (k.tcb t).state = .waitSend ∧ ∃ h, (k.tcb r).sendQHead = some h ∧
    Relation.ReflTransGen (fun a b : Slot => (k.tcb a).sqNext = some b) h t

/-- A thread blocked in a receive has no parked sender that its filter lets pass. -/
def NoMissedRendezvous (k : Kernel) : Prop :=
  ∀ r t : Slot, (k.tcb r).state = .waitRecv → k.ParkedOn r t →
    (k.tcb r).ipcPartner ≠ ipcTidAny ∧ (k.tcb r).ipcPartner ≠ t.tid

/-- What the links of a well-formed queue lead to is on the queue. -/
theorem ParkedOn.mem (h : k.core.Parked q) {r t : Slot} (ht : k.ParkedOn r t) : t ∈ q r := by
  obtain ⟨-, b, hhead, hlinks⟩ := ht
  induction hlinks with
  | refl =>
    have heq := (h.holds.chain r).head_eq
    have hhead : k.core.sq.head r = some b := hhead
    rw [hhead] at heq
    exact List.mem_of_head? heq.symm
  | tail _ hnext ih => exact (h.holds.chain r).mem_of_next ih hnext

theorem noMissedRendezvous_of_heard (hp : k.core.Parked q) (hh : k.core.Heard q) :
    k.NoMissedRendezvous := by
  intro r t hr ht
  have hpass := hh r hr t (ht.mem hp)
  simp only [passes, decide_eq_false_iff_not, not_or] at hpass
  exact ⟨hpass.1, fun heq => hpass.2 heq.symm⟩

/-- In every run in which no parked thread is signalled, notified or destroyed, and no
receive completes a send-and-receive of a thread that has a matching sender itself, no
rendezvous is missed. -/
theorem noMissedRendezvous_of_not_missesSender
    (h : Reachable (fun k l => ¬ k.hitsParked l ∧ ¬ k.missesSender l) k) :
    k.NoMissedRendezvous := by
  have hk : k.Orderly True := Orderly.of_reachable (fun _ _ hok => ⟨hok.1, fun _ => hok.2⟩) h
  obtain ⟨q, hq, hheard⟩ := hk.parked
  exact noMissedRendezvous_of_heard hq (hheard trivial)

/-- Thread 1 sends to thread 2 and receives, and thread 2 receives while nobody sends to
thread 1. -/
def meetRun : List Label :=
  [.spawn 0x1000, .spawn 0x2000, .spawn 0x3000, .start 0, .sendRecv 0 2, .recv 0]

theorem noMissedRendezvous_meetRun :
    ∃ k, Lib.run step (fun k l => ¬ k.hitsParked l ∧ ¬ k.missesSender l) (boot 0 0 0) meetRun =
        some k ∧ (k.tcb (.thread 1)).state = .waitRecv ∧ k.NoMissedRendezvous :=
  Lib.exists_run ⟨0, 0, 0, rfl⟩ (by decide +kernel) fun hk _ =>
    noMissedRendezvous_of_not_missesSender hk

/-- Thread 1 parks on the queue of thread 2 with a send-and-receive, and thread 3 parks on
the queue of thread 1.  Then thread 2 receives the message of thread 1. -/
def missRun : List Label :=
  [.spawn 0x1000, .spawn 0x2000, .spawn 0x3000, .start 0, .sendRecv 0 2, .yield 0, .send 0 1,
    .recv 0]

/-- After `missRun` thread 1 waits for a message from anyone, and thread 3 is parked on its
send queue. -/
theorem missed_rendezvous_missRun :
    ¬ ∀ k, Reachable (fun _ _ => True) k → k.NoMissedRendezvous := by
  intro h
  obtain ⟨k, hk, hwait, hany, hhead, hsend⟩ : ∃ k, Reachable (fun _ _ => True) k ∧
      (k.tcb (.thread 1)).state = .waitRecv ∧ (k.tcb (.thread 1)).ipcPartner = ipcTidAny ∧
        (k.tcb (.thread 1)).sendQHead = some 3 ∧ (k.tcb (.thread 3)).state = .waitSend :=
    Lib.observed missRun ⟨0, 0, 0, rfl⟩ (by decide +kernel)
  exact (h k hk 1 3 hwait ⟨hsend, 3, hhead, .refl⟩).1 hany

end Robu.Kernel
