import Robu.Core.Context
import Robu.Kernel.SingleExec

/-!
# Context isolation

A history variable `own` records for every thread the FPU state and FS base it had when it
last left user mode, or its initial ones.  Isolation says that the registers of a CPU hold
the own context of its current thread whenever the CPU is outside the kernel.

`sched_resume` switches contexts by comparing the current thread with the one it was
entered for.  After a direct switch the two are the same, so the thread that gets the CPU
runs with the registers of the thread that gave it up.
-/

namespace Robu

open Function (update update_idem update_of_ne update_self)

namespace Kernel

/-! ## The history -/

/-- The context a thread leaves user mode with: the registers, with the FS base it asks for
if it makes that call. -/
def Entry.left (e : Entry) : Ctx := if setsFs e then { e.ctx with fs := e.frame.r8 } else e.ctx

def ownAtEntry (k : Kernel) (own : TcbRef → Ctx) : Label → TcbRef → Ctx
  | .trap c e => update own (k.cur c) e.left
  | _ => own

/-- The own contexts after a section that led from `k` to `k'`: a thread created in it has
its initial context. -/
def ownAfter (k : Kernel) (own : TcbRef → Ctx) (l : Label) (k' : Kernel) : TcbRef → Ctx
  | .thread i =>
    if (k.tcb (.thread i)).state = .dead then k'.savedCtx (.thread i)
    else k.ownAtEntry own l (.thread i)
  | .idle d => k.ownAtEntry own l (.idle d)

def KeepsFs (k : Kernel) : Label → Prop
  | .trap c e => e.ctx.fs = (k.hw c).fs
  | _ => True

instance (k : Kernel) : DecidablePred k.KeepsFs
  | .trap .. => inferInstanceAs (Decidable (_ = _))
  | .kern .. | .start _ => .isTrue trivial

end Kernel

structure World where
  kernel : Kernel
  own : TcbRef → Ctx

namespace World

def step (w : World) (l : Label) : Option World :=
  (w.kernel.step l).map fun k' => ⟨k', w.kernel.ownAfter w.own l k'⟩

def IsBoot (w : World) : Prop := w.kernel.IsBoot ∧ w.own = w.kernel.savedCtx

def Isolated (w : World) : Prop :=
  ∀ c, w.kernel.started c = true → w.kernel.hw c = w.own (w.kernel.cur c)

/-- The section neither hands the CPU over nor completes the send of a running thread, and
the interrupted thread did not reload FS itself. -/
def Switches (w : World) (l : Label) : Prop :=
  ¬ w.kernel.handsOver l ∧ ¬ w.kernel.takesRunning l ∧ w.kernel.KeepsFs l
deriving Decidable

end World

namespace Kernel

variable {k k' : Kernel} {l : Label} {c : Cpu} {own : TcbRef → Ctx}

/-! ## The invariant -/

structure Kept (k : Kernel) (own : TcbRef → Ctx) : Prop where
  loaded : ∀ {d}, k.core.started d = true →
    k.core.hw d = own (k.core.cur d) ∧ (k.core.ctx (k.core.cur d)).fs = (k.core.hw d).fs
  saved : ∀ {t}, ¬ k.core.OnCpu t → k.core.ctx t = own t

theorem SingleExec.not_onCpu (h : k.SingleExec) {i : Slot} (hi : (k.tcb i).state = .dead) :
    ¬ k.core.OnCpu (.thread i) := by
  rintro ⟨d, -, hd⟩
  have hrun := h.running (Core.cur_eq_thread.mp hd)
  rw [hi] at hrun
  cases hrun

theorem current_of_setsFs {e : Entry} (hs : setsFs e) (h : k.trapDispatch c e = some k') :
    ∃ me, k.current c = some me := by
  cases hc : k.current c with
  | some me => exact ⟨me, rfl⟩
  | none =>
    have hv : e.frame.vector.toNat = 0x30 := hs.1
    have hcur : (k.enter c e).current c = none := by
      have := congrArg (fun s : Core => s.current c) (k.core_enter c e)
      exact this.trans hc
    simp [trapDispatch, trapHandler, hv, hcur] at h

theorem begun_ctx {e : Entry} (hfs : setsFs e → ∃ me, k.current c = some me) :
    (k.begun c e).core.hw = update k.core.hw c e.left ∧
      (∀ t, t ≠ k.core.cur c → (k.begun c e).core.ctx t = k.core.ctx t) ∧
      ((k.begun c e).core.ctx (k.core.cur c)).fs =
        if setsFs e then e.frame.r8 else (k.core.ctx (k.core.cur c)).fs := by
  by_cases hs : setsFs e
  · obtain ⟨me, hme⟩ := hfs hs
    have hb : k.begun c e = (k.enter c e).callSetFsbase c me := by
      unfold begun
      rw [hme]
      exact if_pos hs
    have hcur : k.core.cur c = .thread me := Core.cur_eq_thread.mpr hme
    have hctx : (k.enter c e).core.ctx = k.core.ctx := by rw [core_enter]
    have hhw : (k.enter c e).hw = update k.hw c e.ctx := congrArg Core.hw (k.core_enter c e)
    rw [hb, core_callSetFsbase, hcur]
    simp only [hhw, hctx, enter_uctx hme, if_pos hs]
    refine ⟨?_, fun t ht => update_of_ne ht .., by rw [update_self]⟩
    rw [update_self, update_idem, Entry.left, if_pos hs]
    rfl
  · rw [begun_eq_enter hs, core_enter, if_neg hs, Entry.left, if_neg hs]
    exact ⟨rfl, fun _ _ => rfl, rfl⟩

/-- A section starts with every context where it belongs. -/
theorem Kept.opened (h : k.Kept own) (hx : k.SingleExec) (hs : k.step l = some k')
    (hfs : k.KeepsFs l) : (k.opened l).core.Tidy (k.scope l) (k.ownAtEntry own l) := by
  cases l with
  | kern | start => exact ⟨h.loaded, h.saved, fun {i} hi => (h.saved (hx.not_onCpu hi)).symm⟩
  | trap c e =>
    simp only [step] at hs
    split at hs
    case isFalse => cases hs
    rename_i hst
    obtain ⟨hhw, hother, hcurfs⟩ := begun_ctx (k := k) (c := c) fun hf => current_of_setsFs hf hs
    have hstarted : (k.begun c e).core.started = k.core.started := by rw [begun_frame]
    have hcur : ∀ d, (k.begun c e).core.cur d = k.core.cur d := fun d =>
      Core.cur_congr (by rw [begun_frame])
    have hcpu : ∀ {t}, t ≠ k.core.cur c → k.ownAtEntry own (.trap c e) t = own t := by
      intro t ht
      exact update_of_ne ht ..
    show (k.begun c e).core.Tidy _ _
    refine ⟨fun {d} hd => ?_, fun {t} ht => ?_, fun {i} hi => ?_⟩
    · rw [hcur, hhw]
      rcases eq_or_ne d c with rfl | hdc
      · refine ⟨?_, ?_⟩
        · rw [update_self]
          show _ = update own (k.cur d) e.left (k.cur d)
          rw [update_self]
        · rw [hcurfs, update_self, Entry.left]
          split
          · rfl
          · exact (h.loaded hst).2.trans hfs.symm
      · have hne : k.core.cur d ≠ k.core.cur c := fun heq =>
          hdc ((hx.exclusive (.start c) c).cur_inj heq)
        rw [update_of_ne hdc, hcpu hne, hother _ hne]
        exact h.loaded (hstarted ▸ hd)
    · have hne : t ≠ k.core.cur c := fun heq =>
        ht ⟨c, by rw [hstarted]; exact hst, by rw [hcur, heq]⟩
      rw [hother t hne, hcpu hne]
      refine h.saved fun hon => ht (hon.imp fun d hd => ?_)
      rw [hstarted, hcur]
      exact hd
    · have hout := hx.not_onCpu hi
      have hne : TcbRef.thread i ≠ k.core.cur c := fun heq => hout ⟨c, hst, heq.symm⟩
      rw [hother _ hne, hcpu hne]
      exact (h.saved hout).symm

end Kernel

namespace World

variable {w w' : World} {l : Label}

structure Tidy (w : World) : Prop where
  single : w.kernel.SingleExec
  kept : w.kernel.Kept w.own

/-- **Step.** -/
theorem Tidy.step (h : w.Tidy) (hok : w.Switches l) (hs : w.step l = some w') : w'.Tidy := by
  obtain ⟨k', hk', rfl⟩ := Option.map_eq_some_iff.mp hs
  obtain ⟨hhands, htakes, hfs⟩ := hok
  refine ⟨h.single.step htakes hk', ?_⟩
  obtain ⟨own', htidy, hkeep⟩ := (h.kept.opened h.single hk' hfs).steps hhands htakes
    (h.single.exclusive l l.cpu) (Kernel.refines h.single.curRuns hk').1
  -- the own contexts after the steps are those of the history
  have hown : own' = w.kernel.ownAfter w.own l k' := by
    funext t
    cases t with
    | idle d => exact hkeep _ fun i hi => by cases hi
    | thread i =>
      simp only [Kernel.ownAfter]
      split
      · rename_i hdead
        exact htidy.initial hdead
      rename_i hdead
      refine hkeep _ fun j hj => ?_
      cases hj
      exact hdead
  exact hown ▸ ⟨htidy.loaded, htidy.saved⟩

theorem Tidy.of_isBoot (h : w.IsBoot) : w.Tidy := by
  obtain ⟨k, own⟩ := w
  obtain ⟨⟨base, size, fpu, hk⟩, hown⟩ := h
  obtain rfl : k = Kernel.boot base size fpu := hk
  obtain rfl : own = (Kernel.boot base size fpu).savedCtx := hown
  refine ⟨Kernel.SingleExec.boot base size fpu, ⟨fun {d} hd => ?_, fun _ => rfl⟩⟩
  cases hd

/-- In every run in which no section hands the CPU over or completes the send of a running
thread, and no thread reloads FS itself, contexts are isolated throughout. -/
theorem isolated_of_switches (h : Lib.Reach step Switches IsBoot w) : w.Isolated := by
  have htidy : w.Tidy := by
    refine h.invariant (I := Tidy) (fun _ => Tidy.of_isBoot) ?_
    intro w l w' hw hok hs
    exact hw.step hok hs
  exact fun c hc => (htidy.kept.loaded hc).1

def boot : World := ⟨Kernel.boot 0 0 0, (Kernel.boot 0 0 0).savedCtx⟩

theorem isBoot_boot : boot.IsBoot := ⟨⟨0, 0, 0, rfl⟩, rfl⟩

def turnsRun : List Label :=
  [.spawn 0x1000, .spawn 0x2000, .start 0, .trap 0 { frame := { vector := 0x30 }, ctx := ⟨7, 0⟩ },
    .trap 0 { frame := { vector := 0x30 }, ctx := ⟨9, 0⟩ }]

theorem isolated_turnsRun :
    ∃ w, Lib.run step Switches boot turnsRun = some w ∧ w.kernel.hw 0 = ⟨7, 0⟩ ∧ w.Isolated :=
  Lib.exists_run isBoot_boot (by decide +kernel) fun hw _ => isolated_of_switches hw

def directSwitchRun : List Label :=
  [.spawn 0x1000, .spawn 0x2000, .start 0, .yield 0, .recv 0,
    .trap 0 { frame := { vector := 0x30, rdi := 2 }, ctx := ⟨7, 0⟩ }]

/-- After `directSwitchRun` thread 2 runs with the FPU state of thread 1. -/
theorem not_isolated_directSwitchRun :
    ¬ ∀ w, Lib.Reach step (fun _ _ => True) IsBoot w → w.Isolated := by
  intro h
  obtain ⟨w, hw, hst, hcur, hhw, hown⟩ : ∃ w, Lib.Reach step (fun _ _ => True) IsBoot w ∧
      w.kernel.started 0 = true ∧ w.kernel.current 0 = some 2 ∧ w.kernel.hw 0 = ⟨7, 0⟩ ∧
        w.own (.thread 2) = ⟨0, 0⟩ := Lib.observed directSwitchRun isBoot_boot (by decide +kernel)
  have hiso := h w hw 0 hst
  have hthread : w.kernel.cur 0 = .thread 2 := by
    unfold Kernel.cur
    rw [hcur]
  rw [hthread, hhw, hown] at hiso
  exact absurd hiso (by decide +kernel)

end World

end Robu
