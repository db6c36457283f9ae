import Robu.Core.Parking

/-!
# Contexts

The FPU and FS context of a thread is in the registers of the CPU that runs it, or
else in its control block.  `Tidy own` says so for the contexts `own`: what each
thread had when it last left user mode, or its initial one.

A kernel section changes no thread's own context except by creating a thread.  It
loses track of contexts only when it hands the CPU to another thread without a
context switch: then the registers still hold the context of the thread before.
-/

namespace Robu.Core

open Function (update update_of_ne update_self)

variable {F : Scope} {c d : Cpu} {s s' : Core} {own : TcbRef → Ctx} {t : TcbRef} {i : Slot}
variable {next : Option Slot}

theorem cur_eq_thread : s.cur d = .thread i ↔ s.current d = some i := by
  unfold cur
  cases s.current d <;> simp

theorem cur_eq_idle {e : Cpu} : s.cur d = .idle e ↔ s.current d = none ∧ d = e := by
  unfold cur
  cases s.current d <;> simp

theorem cur_congr (h : s'.current d = s.current d) : s'.cur d = s.cur d := by
  unfold cur; rw [h]

def OnCpu (s : Core) (t : TcbRef) : Prop := ∃ d, s.started d = true ∧ s.cur d = t

/-- Every thread's context is where it belongs.  The third clause is about the threads a
section creates, whose own context is the initial one. -/
structure Tidy (F : Scope) (own : TcbRef → Ctx) (s : Core) : Prop where
  loaded : ∀ {d}, s.started d = true → s.hw d = own (s.cur d) ∧ (s.ctx (s.cur d)).fs = (s.hw d).fs
  saved : ∀ {t}, ¬ s.OnCpu t → s.ctx t = own t
  initial : ∀ {i}, F.unused i → own (.thread i) = s.ctx (.thread i)

/-- **Frame rule.** -/
theorem Tidy.frame (h : s.Tidy F own) (hctx : s'.ctx = s.ctx) (hhw : s'.hw = s.hw)
    (hcur : s'.current = s.current) (hst : s'.started = s.started) : s'.Tidy F own := by
  have hc : ∀ d, s'.cur d = s.cur d := fun d => cur_congr (congrFun hcur d)
  refine ⟨fun {d} hd => ?_, fun {t} ht => ?_, fun {i} hi => ?_⟩
  · rw [hctx, hhw, hc]
    exact h.loaded (hst ▸ hd)
  · rw [hctx]
    refine h.saved fun ⟨d, hd, hdt⟩ => ht ⟨d, hst ▸ hd, (hc d).trans hdt⟩
  · rw [hctx]
    exact h.initial hi

theorem Exclusive.cur_inj (h : s.Exclusive c) {e : Cpu} (heq : s.cur d = s.cur e) : d = e := by
  cases he : s.current e with
  | none =>
    have : s.cur e = .idle e := cur_eq_idle.mpr ⟨he, rfl⟩
    exact (cur_eq_idle.mp (heq.trans this)).2
  | some t =>
    have : s.cur e = .thread t := cur_eq_thread.mpr he
    exact h.inj (cur_eq_thread.mp (heq.trans this)) he

theorem Exclusive.next_not_current (h : s.Exclusive c)
    (hn : ∀ t ∈ next, s.requeued c t = .ready) (hd : d ≠ c) :
    s.cur d ≠ (s.dispatch c next).cur c := by
  have hnew : (s.dispatch c next).current c = next := update_self ..
  intro heq
  cases next with
  | none =>
    rw [cur_eq_idle.mpr ⟨hnew, rfl⟩, cur_eq_idle] at heq
    exact hd heq.2
  | some t =>
    rw [cur_eq_thread.mpr hnew, cur_eq_thread] at heq
    rcases not_running_of_requeued (hn t rfl) with hr | hc
    · exact h.not_current hr hd heq
    · exact hd (h.inj heq hc)

theorem dispatch_cur_of_ne (next : Option Slot) (hd : d ≠ c) :
    (s.dispatch c next).cur d = s.cur d :=
  cur_congr (update_of_ne hd ..)

/-! ## Creating and switching -/

theorem Tidy.create (hx : s.Exclusive c) (h : s.Tidy F own) {ctx : Ctx} (hdead : s.state i = .dead)
    (hother : s.current c ≠ some i) : (s.create i ctx).Tidy F (update own (.thread i) ctx) := by
  have hcur : ∀ d, (s.create i ctx).cur d = s.cur d := fun d => cur_congr rfl
  have hne : ∀ d, s.cur d ≠ .thread i := by
    intro d hd
    rw [cur_eq_thread] at hd
    rcases eq_or_ne d c with rfl | hdc
    · exact hother hd
    · exact hx.not_current (by rw [hdead]; decide) hdc hd
  refine ⟨fun {d} hd => ?_, fun {t} ht => ?_, fun {j} hj => ?_⟩
  · show s.hw d = update own (.thread i) ctx ((s.create i ctx).cur d) ∧
      (update s.ctx (.thread i) ctx ((s.create i ctx).cur d)).fs = (s.hw d).fs
    rw [hcur, update_of_ne (hne d), update_of_ne (hne d)]
    exact h.loaded hd
  · exact Lib.update_congr fun _ => h.saved fun ⟨d, hd, hdt⟩ => ht ⟨d, hd, (hcur d).trans hdt⟩
  · exact Lib.update_congr fun _ => h.initial hj

/-- **Switch.**  The context of the thread left is saved, the one of the thread entered is
loaded. -/
theorem Tidy.resched (hx : s.Exclusive c) (h : s.Tidy F own) (hc : s.started c = true)
    (hn : ∀ t ∈ next, s.requeued c t = .ready) :
    (s.resched c next).Tidy F own := by
  by_cases heq : (s.dispatch c next).cur c = s.cur c
  · -- the same thread goes on
    have hsame : s.resched c next = s.dispatch c next := by
      rw [Core.resched, Core.switch, if_pos heq]
    have hcur : ∀ d, (s.dispatch c next).cur d = s.cur d := by
      intro d
      rcases eq_or_ne d c with rfl | hd
      · exact heq
      · exact dispatch_cur_of_ne next hd
    rw [hsame]
    refine ⟨fun {d} hd => ?_, fun {t} ht => ?_, fun {i} hi => h.initial hi⟩
    · rw [hcur]
      exact h.loaded hd
    · exact h.saved fun ⟨d, hd, hdt⟩ => ht ⟨d, hd, (hcur d).trans hdt⟩
  · set dst := (s.dispatch c next).cur c with hdst
    obtain ⟨hhw, hfs⟩ := h.loaded hc
    -- the context saved is the own context of the thread left
    have hsave : (⟨(s.hw c).fpu, (s.ctx (s.cur c)).fs⟩ : Ctx) = own (s.cur c) := by
      rw [hfs]; exact hhw
    have hout : ¬ s.OnCpu dst := by
      rintro ⟨d, -, hdt⟩
      rcases eq_or_ne d c with rfl | hd
      · exact heq hdt.symm
      · exact hx.next_not_current hn hd hdt
    have hctx : (s.resched c next).ctx = update s.ctx (s.cur c) (own (s.cur c)) := by
      rw [Core.resched, Core.switch, if_neg heq, ← hsave]; rfl
    have hload : (s.resched c next).hw = update s.hw c (own dst) := by
      rw [Core.resched, Core.switch, if_neg heq, ← h.saved hout]
      show update s.hw c _ = _
      rw [← hdst, update_of_ne heq, update_self]
      show update s.hw c ⟨(s.ctx dst).fpu,
        if (s.ctx dst).fs ≠ (s.ctx (s.cur c)).fs then (s.ctx dst).fs else (s.hw c).fs⟩ = _
      congr 1
      rw [hfs]
      split
      · rfl
      · rename_i hsame
        rw [← not_not.mp hsame]
    obtain ⟨-, -, -, hcurs, hst⟩ := switch_frame (s.dispatch c next) c (s.cur c)
    have hcur : ∀ d, (s.resched c next).cur d = (s.dispatch c next).cur d := fun d =>
      cur_congr (congrFun hcurs d)
    refine ⟨fun {d} hd => ?_, fun {t} ht => ?_, fun {i} hi => ?_⟩
    · rw [hcur, hctx, hload]
      rcases eq_or_ne d c with rfl | hdc
      · rw [update_self, ← hdst, update_of_ne heq, h.saved hout]
        exact ⟨rfl, rfl⟩
      · rw [dispatch_cur_of_ne next hdc, update_of_ne hdc,
          update_of_ne fun hc => hdc (hx.cur_inj hc)]
        exact h.loaded (congrFun hst d ▸ hd)
    · rw [hctx]
      rcases eq_or_ne t (s.cur c) with rfl | htc
      · exact update_self ..
      rw [update_of_ne htc]
      refine h.saved fun ⟨d, hd, hdt⟩ => ht ⟨d, (congrFun hst d).trans hd, ?_⟩
      have hdc : d ≠ c := fun hdc => htc (hdc ▸ hdt.symm)
      rw [hcur, dispatch_cur_of_ne next hdc, hdt]
    · rw [hctx]
      rcases eq_or_ne (TcbRef.thread i) (s.cur c) with hic | hic
      · rw [hic, update_self]
      · rw [update_of_ne hic]
        exact h.initial hi

/-- Contexts stay where they belong when a CPU enters its first thread. -/
theorem Tidy.begin (hx : s.Exclusive c) (h : s.Tidy F own) (hc : s.started c = false)
    (hn : ∀ t ∈ next, s.requeued c t = .ready) :
    (s.begin c next).Tidy F own := by
  have hcur : ∀ d, (s.begin c next).cur d = (s.dispatch c next).cur d := fun d => cur_congr rfl
  have hst : ∀ {d}, d ≠ c → (s.begin c next).started d = s.started d := fun hd => update_of_ne hd ..
  have hsaved : s.ctx ((s.dispatch c next).cur c) = own ((s.dispatch c next).cur c) := by
    refine h.saved fun ⟨d, hd, hdt⟩ => ?_
    rcases eq_or_ne d c with rfl | hdc
    · rw [hc] at hd
      cases hd
    · exact hx.next_not_current hn hdc hdt
  have hload : (s.begin c next).hw = update s.hw c (s.ctx ((s.dispatch c next).cur c)) := rfl
  refine ⟨fun {d} hd => ?_, fun {t} ht => ?_, fun {i} hi => h.initial hi⟩
  · show (s.begin c next).hw d = _ ∧
      (s.ctx ((s.begin c next).cur d)).fs = ((s.begin c next).hw d).fs
    rw [hcur, hload]
    rcases eq_or_ne d c with rfl | hdc
    · rw [update_self]
      exact ⟨hsaved, rfl⟩
    · rw [update_of_ne hdc, dispatch_cur_of_ne next hdc]
      exact h.loaded (hst hdc ▸ hd)
  · refine h.saved fun ⟨d, hd, hdt⟩ => ?_
    have hdc : d ≠ c := by
      rintro rfl
      rw [hc] at hd
      cases hd
    exact ht ⟨d, (hst hdc).trans hd, by rw [hcur, dispatch_cur_of_ne next hdc, hdt]⟩

/-! ## Sections -/

/-- What a section has to show: contexts stay tidy, and only new threads get another own
context. -/
def Preserves (F : Scope) (own : TcbRef → Ctx) (s' : Core) : Prop :=
  ∃ own', s'.Tidy F own' ∧ ∀ t, (∀ i, t = .thread i → ¬ F.unused i) → own' t = own t

/-- **Step.** -/
theorem Tidy.step (hF : ¬ F.handsOver) (hx : s.Exclusive c) (h : s.Tidy F own)
    (hst : Step F c s s') : Preserves F own s' := by
  cases hst with
  | take =>
    refine ⟨own, ?_, fun _ _ => rfl⟩
    unfold Core.take Core.complete Core.wake
    split
    · exact h.frame rfl rfl rfl rfl
    · split <;> exact h.frame rfl rfl rfl rfl
  | handOver _ hands => exact absurd hands hF
  | @create i ctx dead other unused =>
    refine ⟨_, h.create hx dead other, fun t ht => update_of_ne (fun heq => ?_) ..⟩
    exact ht i heq unused
  | resched _ started ready => exact ⟨own, h.resched hx started ready, fun _ _ => rfl⟩
  | begin _ started ready => exact ⟨own, h.begin hx started ready, fun _ _ => rfl⟩
  | wake | block | receive | park | exit | kill | reap =>
    exact ⟨own, h.frame rfl rfl rfl rfl, fun _ _ => rfl⟩

/-- **Section.** -/
theorem Tidy.steps (hF : ¬ F.handsOver) (hr : ¬ F.takesRunning) (hx : s.Exclusive c)
    (h : s.Tidy F own) (hst : Steps F c s s') : Preserves F own s' := by
  induction hst with
  | refl => exact ⟨own, h, fun _ _ => rfl⟩
  | tail hsts hst ih =>
    obtain ⟨own₁, h₁, heq₁⟩ := ih
    obtain ⟨own₂, h₂, heq₂⟩ := h₁.step hF (hx.steps hr hsts) hst
    exact ⟨own₂, h₂, fun t ht => (heq₂ t ht).trans (heq₁ t ht)⟩

end Robu.Core
