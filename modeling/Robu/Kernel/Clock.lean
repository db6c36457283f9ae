import Robu.Kernel.ActsStep
import Robu.Kernel.SingleExec

/-!
# Kernel time

The timer of CPU 0 is a one-shot timer: it counts hardware ticks down from the value it was
last programmed with, and programming it discards the part already elapsed.  `Clocked` puts
this timer, and a count of all hardware ticks, beside the kernel.

`sched_tick` adds the armed interval to `now_ticks`, but `sched_resume` arms the timer on
every reschedule.  So `now_ticks` is the number of elapsed ticks as long as the timer is
programmed between two interrupts only before it has ticked, and interrupts are not late.
-/

namespace Robu

namespace Kernel

variable {F : Effects} {c d : Cpu} {k k' : Kernel}

/-! ## What changes the clock and the timer -/

def Entry.isTimer (e : Entry) : Prop := e.frame.vector.toNat = 32 ∧ e.irqHandled = false
deriving Decidable

theorem Act.nowTicks (h : Act F c k k') (ht : ¬ F.ticks) : k'.nowTicks = k.nowTicks := by
  cases h.tables with
  | tick hF => exact absurd hF ht
  | same same | arm _ same | caps _ same | newNotification same | notify _ same | takeBits _ same
  | waitNotif _ _ same | enqueue _ _ _ _ same | takeFault _ same | ended _ same =>
    exact same.nowTicks

theorem Acts.nowTicks (h : Acts F c k k') (ht : ¬ F.ticks) : k'.nowTicks = k.nowTicks :=
  h.invariant (I := fun k₁ => k₁.nowTicks = k.nowTicks)
    (fun ih hact => (hact.nowTicks ht).trans ih) rfl

theorem Act.armedTicks (h : Act F c k k') (ha : d = c → ¬ F.arms) :
    k'.armedTicks d = k.armedTicks d := by
  cases h.tables with
  | arm hF same =>
    have hd : d ≠ c := fun hd => ha hd hF
    rw [same.armedTicks]
    exact Function.update_of_ne hd ..
  | same same | tick _ same | caps _ same | newNotification same | notify _ same | takeBits _ same
  | waitNotif _ _ same | enqueue _ _ _ _ same | takeFault _ same | ended _ same =>
    rw [same.armedTicks]

theorem Acts.armedTicks (h : Acts F c k k') (ha : d = c → ¬ F.arms) :
    k'.armedTicks d = k.armedTicks d :=
  h.invariant (I := fun k₁ => k₁.armedTicks d = k.armedTicks d)
    (fun ih hact => (hact.armedTicks ha).trans ih) rfl

theorem schedTick_nowTicks (h : k.schedTick 0 = some k') : k'.nowTicks = k.tickTime 0 := by
  unfold schedTick at h
  dsimp only at h
  split at h
  · cases h
  rename_i k₁ hticked
  cases h
  rw [if_pos rfl] at hticked
  have hscan : Acts { k.quietEffects with notifies := True, notified := fun _ => True } 0
      { k with nowTicks := k.tickTime 0 } k₁ :=
    (does_tickDeadlines (D := { Doing.quiet with ticks := True }) trivial trivial
      (fun _ _ _ _ _ _ _ _ => trivial) hticked).acts
  have hlocal := (alike_schedTickLocal k₁ 0
    (if k.armedTicks 0 < 1 then 1 else k.armedTicks 0)).nowTicks
  exact hlocal.trans (hscan.nowTicks id)

end Kernel

def Label.TimerInterrupt : Label → Prop
  | .trap c e => c = 0 ∧ e.isTimer
  | _ => False

instance : DecidablePred Label.TimerInterrupt
  | .trap .. => inferInstanceAs (Decidable (_ ∧ _))
  | .kern .. | .start _ => .isFalse id

namespace Kernel

variable {k k' : Kernel} {l : Label}

def programs (k : Kernel) : Label → Prop
  | .kern _ _ => False
  | .start c => c = 0
  | .trap c e =>
    c = 0 ∧ e.frame.vector.toNat ≠ 0x33 ∧
      (e.isTimer ∨ ∃ k₁ ∈ k.handled (.trap c e), k₁.resumeArms c)

instance (k : Kernel) : DecidablePred k.programs
  | .kern .. => .isFalse id
  | .start _ => inferInstanceAs (Decidable (_ = _))
  | .trap .. => inferInstanceAs (Decidable (_ ∧ _))

theorem programs_of_timerInterrupt (h : l.TimerInterrupt) : k.programs l := by
  cases l with
  | trap c e =>
    refine ⟨h.1, ?_, .inl h.2⟩
    rw [h.2.1]
    decide
  | kern | start => exact h.elim

/-- Handlers of interrupts of the timer advance the clock, and arm the timer. -/
theorem effects_trap {c : Cpu} {e : Entry} :
    ((k.effects (.trap c e)).ticks → c = 0 ∧ e.isTimer) ∧
      ((k.effects (.trap c e)).arms → e.isTimer) := by
  have hhandling := handling_effects k (.trap c e)
  generalize k.effects (.trap c e) = G, k.doing (.trap c e) = D at hhandling
  cases hhandling with
  | quiet | call | fault => exact ⟨False.elim, False.elim⟩
  | tick timer => exact ⟨fun hc => ⟨hc, timer⟩, fun _ => timer⟩

theorem step_nowTicks (hl : ¬ l.TimerInterrupt) (h : k.step l = some k') :
    k'.nowTicks = k.nowTicks := by
  obtain ⟨k₁, -, hhandler, hresume, -⟩ := acts_step h
  have hticks : ¬ (k.effects l).ticks := by
    cases l with
    | kern | start => exact id
    | trap c e => exact fun ht => hl (effects_trap.1 ht)
  have hentered := (k.sameTables_entered l).nowTicks
  exact (hresume.nowTicks id).trans ((hhandler.nowTicks hticks).trans hentered)

/-- The interrupt of the timer advances it by the armed interval. -/
theorem timerInterrupt_nowTicks (hl : l.TimerInterrupt) (h : k.step l = some k') :
    k'.nowTicks = k.tickTime 0 := by
  obtain ⟨k₁, hhandled, -, hresume, -⟩ := acts_step h
  refine (hresume.nowTicks id).trans ?_
  cases l with
  | kern | start => exact hl.elim
  | trap c e =>
    obtain ⟨rfl, hv, hirq⟩ := hl
    have htick : (k.enter 0 e).trapHandler 0 e = (k.enter 0 e).schedTick 0 := by
      generalize k.enter 0 e = k₀
      simp only [trapHandler, hv, hirq, Bool.false_eq_true, and_false, if_false, if_true]
    have h33 : e.frame.vector.toNat ≠ 0x33 := by omega
    rw [handled, if_neg h33, htick] at hhandled
    have hentered := k.sameTables_entered (.trap 0 e)
    rw [schedTick_nowTicks hhandled, tickTime, tickTime]
    exact hentered.nowTicks ▸ hentered.armedTicks ▸ rfl

/-- Sections that do not program the timer do not change the armed interval. -/
theorem step_armedTicks (hp : ¬ k.programs l) (h : k.step l = some k') :
    k'.armedTicks 0 = k.armedTicks 0 := by
  obtain ⟨k₁, hhandled, hhandler, hresume, hback⟩ := acts_step h
  have harms : 0 = l.cpu → ¬ (k.effects l).arms := by
    cases l with
    | kern => exact fun _ => id
    | start c => exact fun hc _ => hp hc.symm
    | trap c e =>
      intro hc ha
      have htimer := effects_trap.2 ha
      refine hp ⟨hc.symm, ?_, .inl htimer⟩
      rw [htimer.1]
      decide
  have hk₁ : k₁.armedTicks 0 = k.armedTicks 0 :=
    (hhandler.armedTicks harms).trans (congrFun (k.sameTables_entered l).armedTicks 0)
  rcases hback with hresumes | rfl
  · refine (hresume.armedTicks ?_).trans hk₁
    cases l with
    | trap c e => exact fun hc ha => hp ⟨hc.symm, hresumes, .inr ⟨k₁, hhandled, ha⟩⟩
    | kern | start => exact hresumes.elim
  · exact hk₁

end Kernel

/-! ## The timer -/

inductive Event
  /-- A tick of the timer of CPU 0. -/
  | tick
  | sect (l : Label)

structure Clocked where
  kernel : Kernel
  elapsed : Nat
  /-- The value the timer was last programmed with. -/
  loaded : Nat
  since : Nat

namespace Clocked

/-- One event.  The timer interrupts when it has counted down to zero, and a section that
programs it starts the count again. -/
def step (w : Clocked) : Event → Option Clocked
  | .tick =>
    if w.kernel.started 0 then some { w with elapsed := w.elapsed + 1, since := w.since + 1 }
    else none
  | .sect l =>
    if l.TimerInterrupt ∧ ¬ (0 < w.loaded ∧ w.loaded ≤ w.since) then none
    else
      (w.kernel.step l).map fun k' =>
        if w.kernel.programs l then ⟨k', w.elapsed, (k'.armedTicks 0).toNat, 0⟩
        else { w with kernel := k' }

def IsBoot (w : Clocked) : Prop := w.kernel.IsBoot ∧ w.elapsed = 0 ∧ w.loaded = 0 ∧ w.since = 0

/-- The timer is programmed when it has counted down to zero, by its interrupt, or before
it has ticked. -/
def Prompt (w : Clocked) : Event → Prop
  | .tick => True
  | .sect l => w.kernel.programs l → w.since = if l.TimerInterrupt then w.loaded else 0

instance (w : Clocked) : DecidablePred w.Prompt := fun a => by
  cases a <;> dsimp only [Prompt] <;> infer_instance

/-- The clock is behind by the ticks since the timer was programmed. -/
structure OnTime (w : Clocked) : Prop where
  armed : w.loaded = (w.kernel.armedTicks 0).toNat
  now : w.kernel.nowTicks + BitVec.ofNat 64 w.since = BitVec.ofNat 64 w.elapsed

variable {w w' : Clocked} {a : Event} {l : Label}

theorem OnTime.of_isBoot (h : w.IsBoot) : w.OnTime := by
  obtain ⟨k, elapsed, loaded, since⟩ := w
  obtain ⟨⟨base, size, fpu, hk⟩, rfl, rfl, rfl⟩ := h
  obtain rfl : k = Kernel.boot base size fpu := hk
  exact ⟨rfl, rfl⟩

/-- The armed interval of a timer that runs is what `sched_tick` adds. -/
theorem OnTime.tickTime (h : w.OnTime) (hl : 0 < w.loaded) :
    w.kernel.tickTime 0 = w.kernel.nowTicks + BitVec.ofNat 64 w.loaded := by
  have harmed : ¬ w.kernel.armedTicks 0 < 1 := by
    rw [h.armed] at hl
    rw [BitVec.not_lt, BitVec.le_def]
    exact hl
  rw [Kernel.tickTime, if_neg harmed, h.armed, BitVec.ofNat_toNat, BitVec.setWidth_eq]

/-- **Interrupt.**  After an interrupt of the timer that is not late, the clock is right. -/
theorem OnTime.timerInterrupt (h : w.OnTime) (hl : l.TimerInterrupt) (hp : w.Prompt (.sect l))
    (hs : w.step (.sect l) = some w') :
    w'.kernel.nowTicks = BitVec.ofNat 64 w'.elapsed ∧ w'.since = 0 := by
  simp only [step] at hs
  split at hs
  · cases hs
  rename_i hguard
  have hloaded : 0 < w.loaded := (not_not.mp fun hn => hguard ⟨hl, hn⟩).1
  have hprog : w.kernel.programs l := Kernel.programs_of_timerInterrupt hl
  have hsince : w.since = w.loaded := by
    rw [hp hprog, if_pos hl]
  obtain ⟨k', hk', rfl⟩ := Option.map_eq_some_iff.mp hs
  rw [if_pos hprog]
  refine ⟨?_, rfl⟩
  rw [Kernel.timerInterrupt_nowTicks hl hk', h.tickTime hloaded, ← hsince, h.now]

/-- **Step.** -/
theorem OnTime.step (h : w.OnTime) (hp : w.Prompt a) (hs : w.step a = some w') : w'.OnTime := by
  cases a with
  | tick =>
    simp only [Clocked.step] at hs
    split at hs
    · cases hs
      refine ⟨h.armed, ?_⟩
      rw [BitVec.ofNat_add, BitVec.ofNat_add, ← BitVec.add_assoc, h.now]
    · cases hs
  | sect l =>
    have hnow : l.TimerInterrupt → w'.kernel.nowTicks + BitVec.ofNat 64 w'.since =
        BitVec.ofNat 64 w'.elapsed := by
      intro hl
      obtain ⟨hnow, hsince⟩ := h.timerInterrupt hl hp hs
      rw [hnow, hsince]
      exact BitVec.add_zero _
    simp only [Clocked.step] at hs
    split at hs
    · cases hs
    obtain ⟨k', hk', rfl⟩ := Option.map_eq_some_iff.mp hs
    by_cases hprog : w.kernel.programs l
    · rw [if_pos hprog] at hnow ⊢
      refine ⟨rfl, ?_⟩
      by_cases hl : l.TimerInterrupt
      · exact hnow hl
      -- programmed before it has ticked: nothing is discarded
      have hsince : w.since = 0 := by
        rw [hp hprog, if_neg hl]
      rw [← hsince]
      dsimp only
      rw [Kernel.step_nowTicks hl hk']
      exact h.now
    · have hl : ¬ l.TimerInterrupt := fun hl => hprog (Kernel.programs_of_timerInterrupt hl)
      rw [if_neg hprog]
      refine ⟨?_, ?_⟩
      · dsimp only
        rw [Kernel.step_armedTicks hprog hk']
        exact h.armed
      · dsimp only
        rw [Kernel.step_nowTicks hl hk']
        exact h.now

/-- In every run in which the timer is programmed only by its own interrupt, when that is not
late, or before it has ticked, the clock shows the elapsed ticks after each interrupt. -/
theorem nowTicks_of_prompt (h : Lib.Reach step Prompt IsBoot w) (hl : l.TimerInterrupt)
    (hp : w.Prompt (.sect l)) (hs : w.step (.sect l) = some w') :
    w'.kernel.nowTicks = BitVec.ofNat 64 w'.elapsed := by
  have hw : w.OnTime := by
    refine h.invariant (I := OnTime) (fun _ => OnTime.of_isBoot) ?_
    intro w a w' hw hok hs
    exact hw.step hok hs
  exact (hw.timerInterrupt hl hp hs).1

def boot : Clocked := ⟨Kernel.boot 0 0 0, 0, 0, 0⟩

theorem isBoot_boot : boot.IsBoot := ⟨⟨0, 0, 0, rfl⟩, rfl, rfl, rfl⟩

def timer : Label := .trap 0 { frame := { vector := 32 }, ctx := ⟨0, 0⟩ }

theorem timerInterrupt_timer : timer.TimerInterrupt := ⟨rfl, rfl, rfl⟩

def sliceRun : List Event :=
  [.sect (.spawn 0x1000), .sect (.spawn 0x2000), .sect (.start 0)] ++ List.replicate 5 .tick

theorem nowTicks_sliceRun :
    ∃ w w', Lib.run step Prompt boot sliceRun = some w ∧ w.Prompt (.sect timer) ∧
      w.step (.sect timer) = some w' ∧ w'.elapsed = 5 ∧
      w'.kernel.nowTicks = BitVec.ofNat 64 w'.elapsed := by
  obtain ⟨w, hw, w', hs, hp, helapsed⟩ : ∃ w ∈ Lib.run step Prompt boot sliceRun,
      ∃ w' ∈ w.step (.sect timer), w.Prompt (.sect timer) ∧ w'.elapsed = 5 := by
    decide +kernel
  exact ⟨w, w', hw, hp, hs, helapsed,
    nowTicks_of_prompt (.of_run (.init isBoot_boot) hw) timerInterrupt_timer hp hs⟩

def yieldRun : List Event :=
  [.sect (.spawn 0x1000), .sect (.spawn 0x2000), .sect (.start 0), .tick, .tick, .tick,
    .sect (.yield 0)] ++ List.replicate 5 .tick

/-- In the interrupt after `yieldRun` the clock shows five ticks, and eight have elapsed. -/
theorem not_nowTicks_yieldRun :
    ¬ ∀ w l w', Lib.Reach step (fun _ _ => True) IsBoot w → l.TimerInterrupt →
      w.step (.sect l) = some w' → w'.kernel.nowTicks = BitVec.ofNat 64 w'.elapsed := by
  intro h
  obtain ⟨w, hw, w', hs, hnow, helapsed⟩ : ∃ w, Lib.Reach step (fun _ _ => True) IsBoot w ∧
      ∃ w' ∈ w.step (.sect timer), w'.kernel.nowTicks = 5 ∧ w'.elapsed = 8 :=
    Lib.observed yieldRun isBoot_boot (by decide +kernel)
  have heq := h w timer w' hw timerInterrupt_timer hs
  rw [hnow, helapsed] at heq
  exact absurd heq (by decide)

end Clocked

end Robu
