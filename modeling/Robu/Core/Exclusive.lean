import Robu.Core.Step

/-!
# One CPU a thread

While a kernel section runs on CPU `c`, every other CPU is outside the kernel in a
running thread, and no thread is current on two CPUs.  Nothing is said about the
state of the thread current on `c`: it may block or die before the section picks the
next one.

The invariant survives every step but one: completing the send of a thread that is
running on another CPU makes it wait while it runs.
-/

namespace Robu.Core

open Function (update update_apply update_of_ne)

variable {F : Scope} {c : Cpu} {s s' : Core} {t : Slot}

/-- No thread is current twice, and outside CPU `c` the current threads are running. -/
structure Exclusive (c : Cpu) (s : Core) : Prop where
  running : ∀ {d t}, d ≠ c → s.current d = some t → s.state t = .running
  inj : ∀ {d e t}, s.current d = some t → s.current e = some t → d = e

theorem requeued_of_ne (h : s.current c ≠ some t) : s.requeued c t = s.state t := by
  cases hp : s.current c with
  | none => simp only [requeued, hp]
  | some p =>
    have hne : t ≠ p := fun heq => h (heq ▸ hp)
    simp only [requeued, hp]
    split
    · exact update_of_ne hne ..
    · rfl

/-- A thread that is READY once the current one may be preempted is not running, or it is
the current one. -/
theorem not_running_of_requeued (h : s.requeued c t = .ready) :
    s.state t ≠ .running ∨ s.current c = some t := by
  by_cases hc : s.current c = some t
  · exact .inr hc
  · refine .inl ?_
    rw [← requeued_of_ne hc, h]
    decide

section Exclusive

variable (h : s.Exclusive c)
include h

theorem Exclusive.not_current (ht : s.state t ≠ .running) {d : Cpu}
    (hd : d ≠ c) : s.current d ≠ some t :=
  fun hc => ht (h.running hd hc)

/-- **Frame rule.**  A change of states that stops no running thread but the current one. -/
theorem Exclusive.of_state (hcur : s'.current = s.current)
    (hst : ∀ t, s.state t = .running → s.current c ≠ some t → s'.state t = .running) :
    s'.Exclusive c := by
  refine ⟨fun {d t} hd ht => ?_, fun {d e t} hd he => ?_⟩
  · rw [hcur] at ht
    exact hst t (h.running hd ht) fun hc => hd (h.inj ht hc)
  · rw [hcur] at hd he
    exact h.inj hd he

/-- Assigning the state of a thread that is not running, or of the current one. -/
theorem Exclusive.setState (st : ThreadState)
    (ht : s.state t ≠ .running ∨ s.current c = some t) : (s.setState t st).Exclusive c := by
  refine h.of_state rfl fun u hu hcur => ?_
  have hne : u ≠ t := by
    rintro rfl
    exact ht.elim (fun hn => hn hu) hcur
  exact (update_of_ne hne ..).trans hu

/-- **Switch rule.**  The CPU goes to `next`, which no other CPU runs. -/
theorem Exclusive.switch (next : Option Slot) (hcur : s'.current = update s.current c next)
    (hst : ∀ t, s.state t = .running → s.current c ≠ some t → s'.state t = .running)
    (hnext : ∀ t ∈ next, s.state t ≠ .running ∨ s.current c = some t) : s'.Exclusive c := by
  have hother : ∀ {d t}, d ≠ c → s.current d = some t → t ∉ next := by
    intro d t hd ht hmem
    rcases hnext t hmem with hn | hc
    · exact hn (h.running hd ht)
    · exact hd (h.inj ht hc)
  refine ⟨fun {d t} hd ht => ?_, fun {d e t} hd he => ?_⟩
  · rw [hcur, update_of_ne hd] at ht
    exact hst t (h.running hd ht) fun hc => hd (h.inj ht hc)
  · rw [hcur] at hd he
    rcases Lib.update_cases hd with ⟨hdc, hd⟩ | ⟨hdc, hd⟩ <;>
      rcases Lib.update_cases he with ⟨hec, he⟩ | ⟨hec, he⟩
    · exact hdc.trans hec.symm
    · exact absurd hd (hother hec he)
    · exact absurd he (hother hdc hd)
    · exact h.inj hd he

theorem Exclusive.dispatch {next : Option Slot}
    (hn : ∀ t ∈ next, s.requeued c t = .ready) : (s.dispatch c next).Exclusive c := by
  refine h.switch next rfl (fun t ht hc => ?_) fun t ht => not_running_of_requeued (hn t ht)
  have hreq : s.requeued c t = .running := (requeued_of_ne hc).trans ht
  cases next with
  | none => exact hreq
  | some u =>
    show update (s.requeued c) u .running t = .running
    rw [update_apply, hreq, ite_self]

/-- Saving and loading contexts changes neither states nor current threads. -/
theorem Exclusive.of_switch (src : TcbRef) : (s.switch c src).Exclusive c := by
  unfold Core.switch
  split
  · exact h
  · exact ⟨h.running, h.inj⟩

theorem Exclusive.die {final : ThreadState}
    (ht : s.state t ≠ .running ∨ s.current c = some t) : (s.die t final).Exclusive c := by
  have h₁ := h.setState final ht
  refine h₁.of_state rfl fun u hu _ => ?_
  show (if _ then _ else _) = _
  rw [if_neg fun ha => ha.2.2.1 hu]
  exact hu

theorem Exclusive.complete {x : Slot} (hx : s.state x ≠ .running) : (s.complete x).Exclusive c := by
  have hset : ∀ st, (s.setState x st).Exclusive c := fun st => h.setState st (.inl hx)
  unfold Core.complete Core.wake
  split
  · exact ⟨(hset .waitRecv).running, (hset .waitRecv).inj⟩
  split
  · exact hset .ready
  · exact h

end Exclusive

/-- **Step.**  A section that completes no send of a running thread keeps threads on one
CPU. -/
theorem Exclusive.step (hF : ¬ F.takesRunning) (h : s.Exclusive c) (hst : Step F c s s') :
    s'.Exclusive c := by
  cases hst with
  | wake asleep _ => exact h.setState _ (.inl asleep.2.1)
  | block runs _ _ => exact h.setState _ (.inr runs.1)
  | receive runs _ =>
    have h₁ := h.setState .waitRecv (.inr runs.1)
    exact ⟨h₁.running, h₁.inj⟩
  | park runs _ =>
    have h₁ := h.setState .waitSend (.inr runs.1)
    exact ⟨h₁.running, h₁.inj⟩
  | @take me x prev _ _ _ running _ =>
    have h₁ : ({ s with sq := s.sq.unlink me prev x } : Core).Exclusive c := ⟨h.running, h.inj⟩
    exact h₁.complete fun hx => hF (running hx)
  | @handOver dest waits _ =>
    refine h.switch (some dest) rfl (fun t ht _ => ?_) fun t ht => .inl ?_
    · show update s.state dest .running t = .running
      rw [update_apply, ht, ite_self]
    · rw [← Option.mem_some.mp ht, waits]
      decide
  | exit runs _ => exact h.die (.inr runs.1)
  | kill asleep _ => exact h.die (.inl asleep.2.1)
  | reap zombie => exact h.setState _ (.inl (by rw [zombie]; decide))
  | create dead _ _ =>
    have h₁ := h.setState .ready (.inl (by rw [dead]; decide))
    exact ⟨h₁.running, h₁.inj⟩
  | resched _ _ ready => exact (h.dispatch ready).of_switch _
  | begin _ _ ready =>
    have h₁ := h.dispatch ready
    exact ⟨h₁.running, h₁.inj⟩

/-- **Section.** -/
theorem Exclusive.steps (hF : ¬ F.takesRunning) (h : s.Exclusive c) (hst : Steps F c s s') :
    s'.Exclusive c :=
  hst.invariant (fun h hst => h.step hF hst) h

end Robu.Core
