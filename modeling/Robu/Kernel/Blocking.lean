import Robu.Kernel.Watched

/-!
# Blocking calls return a result

A thread that blocks in a receive, a wait for a notification or for a child, or in an exec
request comes back with the result of that call.  The exception is a signal, which wakes the
thread and leaves its registers as they were.
-/

namespace Robu

theorem Tcb.Result.status {x : Tcb} {f : Uctx} {b : Bool} (h : x.Result f b) :
    (∃ e : IpcErr, f.rax = e.toWord) ∨ x.state = .waitExecreq := by
  cases h with
  | message | fault | request | bits | child => exact .inl ⟨.none, rfl⟩
  | gone => exact .inl ⟨.notFound, rfl⟩
  | exec _ e | spawn _ e => exact .inl ⟨e, rfl⟩
  | image waits => exact .inr waits

namespace Kernel

variable {st : Slot → ThreadState} {k k' : Kernel} {t : Slot} {l : Label} {x : Tcb}

/-- The section sends no signal to a thread that waits for a result, and kernel code grants
no capability for a notification of its choice. -/
def Uninterrupted (k : Kernel) (l : Label) : Prop :=
  ¬ k.hitsParked l ∧ (∀ t, (k.effects l).signals t → ¬ (k.tcb t).state.Awaits) ∧
    ¬ (k.effects l).grants .notification
deriving Decidable

theorem Uninterrupted.spares (h : k.Uninterrupted l) : k.Spares l where
  parked := h.1
  signals t ht heq := h.2.1 t ht (heq ▸ (by decide))
  grants := h.2.2

/-- The entry into the kernel saves the registers of the current thread only. -/
theorem entered_tcb (ho : k.SingleExec) (ht : (k.tcb t).state ≠ .running) :
    (k.entered l).tcb t = k.tcb t := by
  cases l with
  | kern | start => rfl
  | trap c e =>
    rw [entered, enter, modUctx, modTcb_tcb, if_neg fun heq => ?_]
    have hcur : k.current c = some t := by
      unfold cur at heq
      split at heq
      · rename_i u hu
        rw [TcbRef.thread.inj heq]
        exact hu
      · cases heq
    exact ht (ho.running hcur)

/-- What a section keeps of a thread on its way out of a wait. -/
structure OnItsWay (st : Slot → ThreadState) (t : Slot) (x : Tcb) (k : Kernel) : Prop where
  stage : x.Stage (k.tcb t)
  unlinked : ¬ k.core.sq.Linked t
  awaits : (k.tcb t).state.Awaits → (st t).Awaits

theorem OnItsWay.act {F : Effects} {c : Cpu} (h : OnItsWay st t x k) (hact : Act F c k k')
    (hF : F.Passive t) (hsig : (st t).Awaits → ¬ F.signals t)
    (hnotified : F.notified t → ∀ idx, k.notifWaiter idx = some t →
      (k.tcb t).state = .waitNotification) (hx : x.state.Awaits) : OnItsWay st t x k' := by
  have hstage := (hact.turn t).stage hF h.unlinked hnotified (fun ha => hsig (h.awaits ha))
    hx h.stage
  refine ⟨hstage.1, fun hl => ?_, fun ha => h.awaits (hstage.2 ha)⟩
  rcases hact.linked hl with hc | hl
  · exact hF.caller hc
  · exact h.unlinked hl

/-- **Step.** -/
theorem stage_step {heard : Prop} (ho : k.Orderly heard) (hw : Watched (fun t => (k.tcb t).state) k)
    (hok : k.Uninterrupted l) (hs : k.step l = some k') (hx : x.state.Awaits)
    (hstage : x.Stage (k.tcb t))
    (hrun : (k.tcb t).state ≠ .running) (hlives : k.Lives t) : x.Stage (k'.tcb t) := by
  have hsend : (k.tcb t).state ≠ .waitSend := by
    intro hsend
    cases hstage with
    | waits held =>
      rw [← held.state, hsend] at hx
      exact absurd hx (by decide)
    | resumed _ runnable =>
      rw [hsend] at runnable
      exact absurd runnable (by decide)
    | ended gone =>
      rw [hsend] at gone
      exact absurd gone (by decide)
  have hsound := ho.sound hok.1
  have hpassive := hsound.passive hrun hsend hlives.1
  have hstart : OnItsWay (fun t => (k.tcb t).state) t x (k.entered l) := by
    refine ⟨?_, fun hl => ho.unlinked hsend ((entered_linked l).mp hl), ?_⟩ <;>
      rw [entered_tcb ho.single hrun]
    · exact hstage
    · exact id
  obtain ⟨k₁, -, hhandler, hresume, -⟩ := acts_step hs
  -- deliveries find the waiters of the notifications
  have hfirst : OnItsWay (fun t => (k.tcb t).state) t x k₁ := by
    refine (hhandler.invariant (I := fun a => (¬ (k.effects l).watches →
      Watched (fun t => (k.tcb t).state) a) ∧ OnItsWay (fun t => (k.tcb t).state) t x a) ?_
      ⟨fun _ => hw.entered l, hstart⟩).2
    rintro a b ⟨hwatched, hway⟩ hact
    refine ⟨fun hnw => (hwatched hnw).act hact hsound hnw hok.spares.signals hok.2.2, ?_⟩
    refine hway.act hact hpassive (fun ha hsig => hok.2.1 t hsig ha) (fun hn idx hidx => ?_) hx
    exact ((hwatched (hsound.notified t hn).2).notifWaiter hidx).2.state
  have hpassive₁ := (sound_resume k₁ l.cpu fun t => (k.tcb t).state).passive hrun hsend hlives.1
  exact (hresume.invariant (fun hway hact =>
    hway.act hact hpassive₁ (fun _ => id) (fun hn => hn.elim) hx) hfirst).stage

abbrev RunWithout (ok : Kernel → Label → Prop) (t : Slot) (k : Kernel) : Kernel → Prop :=
  Lib.Reach step (fun a l => ok a l ∧ (a.tcb t).state ≠ .running ∧ a.Lives t) (· = k)

/-- Take a run in which no signal is sent to a thread that waits for a result.  From a state
of it in which a thread waits, follow the run until the thread runs or ends.  It then has the
result of its call. -/
theorem stage_of_uninterrupted (hk : Reachable Uninterrupted k) (ht : (k.tcb t).state.Awaits)
    (hrun : RunWithout Uninterrupted t k k') : (k.tcb t).Stage (k'.tcb t) := by
  refine (hrun.invariant (I := fun a => Reachable Uninterrupted a ∧ (k.tcb t).Stage (a.tcb t))
    ?_ ?_).2
  · rintro a rfl
    exact ⟨hk, .waits ⟨rfl, rfl, rfl⟩⟩
  · rintro a l b ⟨ha, hstage⟩ ⟨hok, hrun, hlives⟩ hs
    have ho : a.Orderly False := Orderly.of_reachable (fun _ _ hok => ⟨hok.1, False.elim⟩) ha
    have hw := Watched.of_reachable (fun _ _ hok => hok.spares) ha
    exact ⟨ha.step hok hs, stage_step ho hw hok hs ht hstage hrun hlives⟩

/-- A receive from anyone, with a value in the status register that is no status. -/
def markedRecv (c : Cpu) : Label :=
  .trap c { frame := { vector := 0x30, rdx := 2, rax := 0x77 }, ctx := ⟨0, 0⟩ }

def recvRun : List Label := [.spawn 0x1000, .spawn 0x2000, .start 0, markedRecv 0]

/-- Thread 2 sends the message. -/
theorem stage_recvRun : ∃ k k', Lib.run step Uninterrupted (boot 0 0 0) recvRun = some k ∧
      k.step (.send 0 1) = some k' ∧ (k'.tcb (.thread 1)).state = .running ∧
      (k.tcb (.thread 1)).Stage (k'.tcb (.thread 1)) := by
  obtain ⟨k, hk, k', hk', hwaits, hok, hresumed⟩ :
    ∃ k ∈ Lib.run step Uninterrupted (boot 0 0 0) recvRun,
      ∃ k' ∈ k.step (.send 0 1), (k.tcb (.thread 1)).state = .waitRecv ∧
        k.Uninterrupted (.send 0 1) ∧
        (k'.tcb (.thread 1)).state = .running := by
    decide +kernel
  have hlives : k.Lives 1 := by simp [Lives, hwaits]
  refine ⟨k, k', hk, hk', hresumed, stage_of_uninterrupted (.of_run (.init ⟨0, 0, 0, rfl⟩) hk) ?_
    (.step (.init rfl) ⟨hok, by simp [hwaits], hlives⟩ hk')⟩
  rw [hwaits]
  decide

/-- Thread 2 sends a signal that is ignored by default, and yields.  Thread 1 then runs with
the registers of its request. -/
theorem not_stage_recvRun :
    ¬ ∀ k k' t, Reachable (fun _ _ => True) k → (k.tcb (.thread t)).state.Awaits →
      RunWithout (fun _ _ => True) t k k' → (k.tcb t).Stage (k'.tcb t) := by
  intro h
  obtain ⟨k, hk, k₁, hk₁, k', hk', hwaits, hready, hresumed, hrax, hsig⟩ : ∃ k,
    Reachable (fun _ _ => True) k ∧
      ∃ k₁ ∈ k.step (.kill 0 1 17), ∃ k' ∈ k₁.step (.yield 0), (k.tcb (.thread 1)).state =
        .waitRecv ∧
        (k₁.tcb (.thread 1)).state = .ready ∧ (k'.tcb (.thread 1)).state = .running ∧
        (k'.tcb (.thread 1)).uctx.rax = 0x77 ∧ (k'.tcb (.thread 1)).inSigHandler = false :=
    Lib.observed recvRun ⟨0, 0, 0, rfl⟩ (by decide +kernel)
  have hstage := h k k' 1 hk (by rw [hwaits]; decide)
    (.step (.step (.init rfl) ⟨trivial, by simp [hwaits], by simp [Lives, hwaits]⟩ hk₁)
      ⟨trivial, by simp [hready], by simp [Lives, hready]⟩ hk')
  cases hstage with
  | waits held =>
    have hstate := held.state
    simp [hwaits, hresumed] at hstate
  | resumed result _ returns =>
    rcases returns with ⟨rfl, -⟩ | ⟨-, hin, -⟩
    · rcases result.status with ⟨e, he⟩ | hexec
      · rw [hrax] at he
        cases e <;> exact absurd he (by decide)
      · simp [hwaits] at hexec
    · rw [hsig] at hin
      cases hin
  | ended gone =>
    rw [hresumed] at gone
    exact absurd gone (by decide)

end Kernel

end Robu
