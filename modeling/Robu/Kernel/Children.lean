import Robu.Kernel.Family
import Robu.Lib.Ledger

/-!
# Reports of children

`Census` puts beside the kernel, for each thread, a record of its children that have ended
and of the reports its waits have returned.  Both are read off the states and registers before
and after the two parts of a section.  A child has ended when it lived before and does not live
after.  A wait has returned when the thread that waited no longer does.

A thread that exits is reported.  A thread that is destroyed through a capability, or killed
for a fault, is not: its parent is neither told nor left a zombie, and a parent in WAIT_CHILD
stays there.  Where only threads without a parent are killed, the children that have ended are
those reported and the zombies.
-/

namespace Robu

abbrev Report := Word × Word

namespace Kernel

def report (k : Kernel) (t : Slot) : Report :=
  ((t.tid).setWidth 64, (k.tcb t).exitStatus.signExtend 64)

def zombieSlots (k : Kernel) (p : Slot) : List Slot :=
  tableSlots.filter fun t : Slot => (k.tcb t).state = .zombie ∧ (k.tcb t).parentTid = p.tid

def endedSlots (a b : Kernel) (p : Slot) : List Slot :=
  tableSlots.filter fun t : Slot => a.Lives t ∧ (a.tcb t).parentTid = p.tid ∧ ¬ b.Lives t

def reapedSlots (a b : Kernel) (p : Slot) : List Slot :=
  (endedSlots a b p).filter fun t : Slot => (b.tcb t).state = .dead

/-- The frame with which a thread goes on, which is saved if it has just entered a handler. -/
def resumeFrame (x y : Tcb) : Uctx :=
  if x.inSigHandler = false ∧ y.inSigHandler = true then y.savedUctxBeforeSig else y.uctx

/-- What a thread that waits for a child, or has just asked for one, is told between two
states. -/
def toldBetween (asker : Option Slot) (a b : Kernel) (p : Slot) : List Report :=
  let f := resumeFrame (a.tcb p) (b.tcb p)
  if ((a.tcb p).state = .waitChild ∨ asker = some p) ∧ (b.tcb p).state ≠ .waitChild ∧
      f.rax = IpcErr.none.toWord then
    [(f.r8, f.r9)]
  else []

def asker (k : Kernel) : Label → Option Slot
  | .trap c e => (k.caller c e).filter fun cur : Slot => decode ((k.enter c e).tcb cur).uctx = .wait
  | _ => none

end Kernel

/-- **Census.**  The kernel with the records of its threads. -/
structure Census where
  kernel : Kernel
  ended : Slot → List Report
  told : Slot → List Report

namespace Census

open Kernel

/-- The records after a part of a section.  Those of threads that do not live are dropped. -/
def record (w : Census) (asker : Option Slot) (b : Kernel) : Census where
  kernel := b
  ended p := if b.Lives p then w.ended p ++ (endedSlots w.kernel b p).map b.report else []
  told p := if b.Lives p then w.told p ++ toldBetween asker w.kernel b p else []

/-- The step of the kernel, with the records made after the handler and after the way back to
a thread. -/
def step (w : Census) (l : Label) : Option Census :=
  (w.kernel.handled l).bind fun k₁ => (w.kernel.step l).map fun k' =>
    (({ w with kernel := w.kernel.entered l } : Census).record (w.kernel.asker l) k₁).record none k'

def IsBoot (w : Census) : Prop := w.kernel.IsBoot ∧ w.ended = (fun _ => []) ∧ w.told = fun _ => []

/-- Each child of a thread that lives, once it has ended, is reported once or is a zombie. -/
def Complete (w : Census) : Prop :=
  ∀ p : Slot, p ≠ 0 → w.kernel.Lives p →
    (w.ended p).Perm (w.told p ++ (w.kernel.zombieSlots p).map w.kernel.report)

def Expectant (w : Census) : Prop :=
  ∀ p : Slot, (w.kernel.tcb p).state = .waitChild → ∃ t : Slot, t ≠ 0 ∧
    (w.kernel.tcb t).state ≠ .dead ∧ (w.kernel.tcb t).parentTid = p.tid ∧
      ((w.kernel.tcb p).waitFilter = 0 ∨ (w.kernel.tcb p).waitFilter = t.tid)

end Census

namespace Kernel

variable {still : Prop} {c : Cpu} {a b k : Kernel} {p t : Slot} {l : Label}

theorem mem_zombieSlots : t ∈ k.zombieSlots p ↔
    t ≠ 0 ∧ (k.tcb t).state = .zombie ∧ (k.tcb t).parentTid = p.tid := by
  simp [zombieSlots, mem_tableSlots]

theorem mem_endedSlots : t ∈ endedSlots a b p ↔
    t ≠ 0 ∧ a.Lives t ∧ (a.tcb t).parentTid = p.tid ∧ ¬ b.Lives t := by
  simp [endedSlots, mem_tableSlots]

theorem nodup_tableSlots : tableSlots.Nodup := by decide

/-! ## The law of one part of a section -/

theorem resumeFrame_of_eq {x y : Tcb} (h : y.inSigHandler = x.inSigHandler) :
    resumeFrame x y = y.uctx := by
  refine if_neg ?_
  rintro ⟨hno, hyes⟩
  rw [h, hno] at hyes
  cases hyes

theorem Told.resumeFrame (h : Told a b p t) :
    resumeFrame (a.tcb p) (b.tcb p) = childRegs t (b.tcb t).exitStatus (a.tcb p).uctx := by
  rcases h.returns with ⟨hu, hi⟩ | ⟨hi, hin, hsaved⟩
  · exact (resumeFrame_of_eq hi).trans hu
  · exact (if_pos ⟨hi, hin⟩).trans hsaved

theorem Told.unique {s : Slot} (h : Told a b p t) (h' : Told a b p s) : s = t := by
  have hr8 : (t.tid).setWidth 64 = (s.tid).setWidth 64 :=
    congrArg Uctx.r8 (h.resumeFrame.symm.trans h'.resumeFrame)
  refine (Slot.tid_inj ?_).symm
  have htid := congrArg (BitVec.setWidth 32) hr8
  simpa using htid

theorem Told.toldBetween (h : Told a b p t) (asker : Option Slot) :
    toldBetween asker a b p = [b.report t] := by
  have hr := h.runnable
  unfold Kernel.toldBetween
  rw [h.resumeFrame]
  refine if_pos ⟨.inl h.waits.1, fun hw => ?_, rfl⟩
  rw [hw] at hr
  exact absurd hr (by decide)

/-- The children that end without becoming zombies are those the parent is told of. -/
theorem Kin.mem_reapedSlots (h : Kin still a b) (hp : p ≠ 0) (hb : b.Lives p) :
    t ∈ reapedSlots a b p ↔ Told a b p t := by
  rw [reapedSlots, List.mem_filter, decide_eq_true_eq, mem_endedSlots]
  constructor
  · rintro ⟨⟨h₀, hl, hparent, -⟩, hd⟩
    rcases h.child ⟨h₀, hp, hl.1, hparent⟩ hl hb with hc | told
    · exact absurd hd hc.state
    · exact told
  · intro told
    exact ⟨⟨told.child.thread, told.lives, told.child.parentTid, fun hl => hl.1 told.dead⟩,
      told.dead⟩

/-- The zombies are those there were and the children that have become zombies. -/
theorem Kin.mem_zombieSlots_iff (h : Kin still a b) (hp : p ≠ 0) (hb : b.Lives p) :
    t ∈ b.zombieSlots p ↔ t ∈ a.zombieSlots p ∨ t ∈ endedSlots a b p ∧
      (b.tcb t).state = .zombie := by
  rw [mem_zombieSlots, mem_zombieSlots, mem_endedSlots]
  constructor
  · rintro ⟨h₀, hz, hparent⟩
    have hc : a.Child t p := (h.old ⟨h₀, hp, by simp [hz], hparent⟩).resolve_right fun hnew =>
      hnew.2.2 hz
    rcases a.lives_or_gone t with hl | hd | haz
    · exact .inr ⟨⟨h₀, hl, hc.parentTid, fun hl => hl.2 hz⟩, hz⟩
    · exact absurd hd hc.state
    · exact .inl ⟨h₀, haz, hc.parentTid⟩
  · rintro (⟨h₀, haz, hparent⟩ | ⟨⟨h₀, hl, hparent, -⟩, hz⟩)
    · rcases h.zombie haz with ⟨hz, -, hsame⟩ | ⟨-, horphan⟩
      · exact ⟨h₀, hz, hsame.trans hparent⟩
      · exact absurd hb (horphan ⟨h₀, hp, by simp [haz], hparent⟩)
    · rcases h.child ⟨h₀, hp, hl.1, hparent⟩ hl hb with hc | told
      · exact ⟨h₀, hz, hc.parentTid⟩
      · rw [told.dead] at hz
        cases hz

theorem nodup_zombieSlots (k : Kernel) (p : Slot) :
    (k.zombieSlots p).Nodup := nodup_tableSlots.filter _

theorem nodup_endedSlots (a b : Kernel) (p : Slot) :
    (endedSlots a b p).Nodup := nodup_tableSlots.filter _

theorem nodup_reapedSlots (a b : Kernel) (p : Slot) :
    (reapedSlots a b p).Nodup := (nodup_endedSlots a b p).filter _

/-- Children that have ended, and zombies there were, are dead or zombies. -/
theorem Kin.perm_slots (h : Kin still a b) (hp : p ≠ 0) (hb : b.Lives p) :
    (endedSlots a b p ++ a.zombieSlots p).Perm (reapedSlots a b p ++ b.zombieSlots p) := by
  have hleft : (endedSlots a b p ++ a.zombieSlots p).Nodup := by
    refine List.nodup_append.mpr
      ⟨nodup_endedSlots a b p, nodup_zombieSlots a p, fun t ht s hs heq => ?_⟩
    subst heq
    exact (mem_endedSlots.mp ht).2.1.2 (mem_zombieSlots.mp hs).2.1
  have hright : (reapedSlots a b p ++ b.zombieSlots p).Nodup := by
    refine List.nodup_append.mpr
      ⟨nodup_reapedSlots a b p, nodup_zombieSlots b p, fun t ht s hs heq => ?_⟩
    subst heq
    have hd := of_decide_eq_true (List.mem_filter.mp ht).2
    rw [(mem_zombieSlots.mp hs).2.1] at hd
    cases hd
  refine (List.perm_ext_iff_of_nodup hleft hright).mpr fun t => ?_
  rw [List.mem_append, List.mem_append, reapedSlots, List.mem_filter, h.mem_zombieSlots_iff hp hb,
    decide_eq_true_eq]
  constructor
  · rintro (he | hz)
    · rcases (b.lives_or_gone t).resolve_left (mem_endedSlots.mp he).2.2.2 with hd | hz
      · exact .inl ⟨he, hd⟩
      · exact .inr (.inr ⟨he, hz⟩)
    · exact .inr (.inl hz)
  · rintro (⟨he, -⟩ | hz | ⟨he, -⟩)
    · exact .inl he
    · exact .inr hz
    · exact .inl he

/-- The parent is told once of each child that was reaped. -/
theorem Kin.perm_told (h : Kin still a b) (hp : p ≠ 0) (hb : b.Lives p) :
    ((reapedSlots a b p).map b.report).Perm (toldBetween none a b p) := by
  by_cases ht : ∃ t, Told a b p t
  · obtain ⟨t, told⟩ := ht
    rw [told.toldBetween none]
    have hone : (reapedSlots a b p).Perm [t] := by
      refine (List.perm_ext_iff_of_nodup (nodup_reapedSlots a b p) (by simp)).mpr fun s => ?_
      rw [h.mem_reapedSlots hp hb, List.mem_singleton]
      exact ⟨told.unique, fun heq => heq ▸ told⟩
    exact hone.map b.report
  · rw [List.eq_nil_iff_forall_not_mem.mpr fun t hmt => ht ⟨t, (h.mem_reapedSlots hp hb).mp hmt⟩]
    have hno : toldBetween none a b p = [] := by
      refine if_neg ?_
      rintro ⟨hw | hw, hout, -⟩
      · rcases h.waits hw with ⟨held, -⟩ | told | hg
        · exact hout (held.state.trans hw)
        · exact ht told
        · exact hb.not_gone hg
      · cases hw
    rw [hno, List.map_nil]

/-- **Balance.**  The children that end, with the zombies there were, are those reported, with the
zombies there are. -/
theorem Kin.balance (h : Kin still a b) (hp : p ≠ 0) (hb : b.Lives p) :
    ((endedSlots a b p).map b.report ++ (a.zombieSlots p).map a.report).Perm
      (toldBetween none a b p ++ (b.zombieSlots p).map b.report) := by
  have hold : (a.zombieSlots p).map a.report = (a.zombieSlots p).map b.report := by
    refine List.map_congr_left fun t ht => ?_
    obtain ⟨h₀, hz, hparent⟩ := mem_zombieSlots.mp ht
    rcases h.zombie hz with ⟨-, hstatus, -⟩ | ⟨-, horphan⟩
    · rw [Kernel.report, Kernel.report, hstatus]
    · exact absurd hb (horphan ⟨h₀, hp, by simp [hz], hparent⟩)
  rw [hold, ← List.map_append]
  refine ((h.perm_slots hp hb).map b.report).trans ?_
  rw [List.map_append]
  exact (h.perm_told hp hb).append_right _

/-! ## The call for the end of a child -/

structure Accounted (asker : Option Slot) (a b : Kernel) : Prop where
  family : b.Family
  balance : ∀ {p : Slot}, p ≠ 0 → b.Lives p →
    ((endedSlots a b p).map b.report ++ (a.zombieSlots p).map a.report).Perm
      (toldBetween asker a b p ++ (b.zombieSlots p).map b.report)
  /-- A thread that is new has no children. -/
  fresh : ∀ {p : Slot}, p ≠ 0 → ¬ a.Lives p → a.zombieSlots p = []

theorem Family.fresh (h : a.Family) (hp : p ≠ 0) (hl : ¬ a.Lives p) : a.zombieSlots p = [] := by
  refine List.eq_nil_iff_forall_not_mem.mpr fun t ht => hl ?_
  obtain ⟨h₀, hz, hparent⟩ := mem_zombieSlots.mp ht
  exact h.parent ⟨h₀, hp, by simp [hz], hparent⟩

theorem Kin.accounted (h : Kin still a b) : Accounted none a b :=
  ⟨h.toFamily, h.balance, h.before.fresh⟩

theorem endedSlots_eq_nil (h : ∀ t, a.Lives t → b.Lives t) : endedSlots a b p = [] :=
  List.eq_nil_iff_forall_not_mem.mpr fun t ht =>
    (mem_endedSlots.mp ht).2.2.2 (h t (mem_endedSlots.mp ht).2.1)

theorem Child.congr (h : b.Child t p) (hd : (b.tcb t).state ≠ .dead → (a.tcb t).state ≠ .dead)
    (hparent : (b.tcb t).parentTid = (a.tcb t).parentTid) : a.Child t p :=
  ⟨h.thread, h.parent, hd h.state, hparent ▸ h.parentTid⟩

theorem Family.congr (h : a.Family) (hstate : ∀ t : Slot, (b.tcb t).state = (a.tcb t).state)
    (hparent : ∀ t : Slot, (b.tcb t).parentTid = (a.tcb t).parentTid)
    (hfilter : ∀ t : Slot, (b.tcb t).waitFilter = (a.tcb t).waitFilter) : b.Family where
  parent hc := by
    rw [Lives, hstate]
    exact h.parent (hc.congr (hstate _ ▸ id) (hparent _))
  matched {p} hw := by
    obtain ⟨t, hc, ht, hwaits⟩ := h.matched (hstate p ▸ hw)
    refine ⟨t, hc.congr (hstate t ▸ id) (hparent t).symm, ?_, hw, ?_⟩
    · rw [Lives, hstate]
      exact ht
    · rw [hfilter]
      exact hwaits.2
  zero := (hstate 0).trans h.zero

theorem schedFindZombieChild_live {parent filter : Tid}
    (h : k.schedFindZombieChild parent filter = (none, true)) :
    ∃ w : Slot, w ≠ 0 ∧ (k.tcb w).parentTid = parent ∧ k.Lives w ∧
      (filter = 0 ∨ filter = w.tid) := by
  unfold schedFindZombieChild at h
  obtain ⟨-, hany⟩ := Prod.mk.inj h
  obtain ⟨w, hw, hl⟩ := List.any_eq_true.mp hany
  simp only [List.mem_filter, decide_eq_true_eq, mem_tableSlots] at hw hl
  exact ⟨w, hw.1, hw.2.1, ⟨hl.2, hl.1⟩, hw.2.2.imp_right Eq.symm⟩

theorem accounted_of_silent {me : Slot} (h : a.Family) (hfamily : b.Family)
    (hzombie : ∀ t : Slot, (b.tcb t).state = .zombie ↔ (a.tcb t).state = .zombie)
    (hparent : ∀ t : Slot, (b.tcb t).parentTid = (a.tcb t).parentTid)
    (hstatus : ∀ t : Slot, (b.tcb t).exitStatus = (a.tcb t).exitStatus)
    (hlives : ∀ t, a.Lives t → b.Lives t)
    (hwaits : ∀ t : Slot, (a.tcb t).state = .waitChild → (b.tcb t).state = .waitChild)
    (hme : (b.tcb me).state ≠ .waitChild →
      (resumeFrame (a.tcb me) (b.tcb me)).rax ≠ IpcErr.none.toWord) :
    Accounted (some me) a b := by
  refine ⟨hfamily, fun {p} hp hb => ?_, h.fresh⟩
  have hslots : b.zombieSlots p = a.zombieSlots p := by
    unfold zombieSlots
    refine List.filter_congr fun t _ => ?_
    rw [hparent t, decide_eq_decide, hzombie t]
  have htold : toldBetween (some me) a b p = [] := by
    refine if_neg ?_
    rintro ⟨hw | hw, hout, hrax⟩
    · exact hout (hwaits p hw)
    · cases hw
      exact hme hout hrax
  have hreports : b.report = a.report := by
    funext t
    rw [Kernel.report, Kernel.report, hstatus]
  rw [endedSlots_eq_nil hlives, htold, hslots, hreports]
  exact .refl _

structure Reaped (a : Kernel) (me z : Slot) (b : Kernel) : Prop where
  thread : z ≠ 0
  runs : (a.tcb me).state = .running
  zombie : (a.tcb z).state = .zombie
  parent : (a.tcb z).parentTid = me.tid
  self : b.tcb me = { a.tcb me with uctx := childRegs z (a.tcb z).exitStatus (a.tcb me).uctx }
  dead : b.tcb z = { a.tcb z with state := .dead }
  other : ∀ t : Slot, t ≠ me → t ≠ z → b.tcb t = a.tcb t

section Reaped

variable {me z : Slot} (h : Reaped a me z b)

include h

theorem Reaped.field {β : Type} (π : Tcb → β) (ht : t ≠ z)
    (hπ : ∀ x f, π { x with uctx := f } = π x) : π (b.tcb t) = π (a.tcb t) := by
  by_cases hme : t = me
  · rw [hme, h.self, hπ]
  · rw [h.other t hme ht]

theorem Reaped.state (ht : t ≠ z) :
    (b.tcb t).state = (a.tcb t).state := h.field Tcb.state ht fun _ _ => rfl

theorem Reaped.ne (hd : (b.tcb t).state ≠ .dead) : t ≠ z := fun heq => hd (by rw [heq, h.dead])

theorem Reaped.parentTid (t : Slot) : (b.tcb t).parentTid = (a.tcb t).parentTid := by
  by_cases ht : t = z
  · rw [ht, h.dead]
  · exact h.field Tcb.parentTid ht fun _ _ => rfl

theorem Reaped.report (t : Slot) : b.report t = a.report t := by
  have hstatus : (b.tcb t).exitStatus = (a.tcb t).exitStatus := by
    by_cases ht : t = z
    · rw [ht, h.dead]
    · exact h.field Tcb.exitStatus ht fun _ _ => rfl
  rw [Kernel.report, Kernel.report, hstatus]

theorem Reaped.lives (ht : a.Lives t) : b.Lives t := by
  have hne : t ≠ z := fun heq => ht.2 (heq ▸ h.zombie)
  rwa [Lives, h.state hne]

theorem Reaped.family (ha : a.Family) : b.Family where
  parent hc := h.lives (ha.parent (hc.congr (fun hd => h.state (h.ne hd) ▸ hd) (h.parentTid _)))
  matched {p} hw := by
    have hp : p ≠ z := h.ne (by simp [hw])
    obtain ⟨t, hc, ht, hwaits⟩ := ha.matched (h.state hp ▸ hw)
    refine ⟨t, hc.congr (fun _ => (h.lives ht).1) (h.parentTid t).symm, h.lives ht, hw, ?_⟩
    rw [h.field Tcb.waitFilter hp fun _ _ => rfl]
    exact hwaits.2
  zero := (h.state h.thread.symm).trans ha.zero

theorem Reaped.mem_zombieSlots : t ∈ b.zombieSlots p ↔ t ∈ a.zombieSlots p ∧ t ≠ z := by
  rw [Kernel.mem_zombieSlots, Kernel.mem_zombieSlots, h.parentTid]
  constructor
  · rintro ⟨h₀, hz, hparent⟩
    have ht : t ≠ z := h.ne (by simp [hz])
    exact ⟨⟨h₀, h.state ht ▸ hz, hparent⟩, ht⟩
  · rintro ⟨⟨h₀, hz, hparent⟩, ht⟩
    exact ⟨h₀, (h.state ht).trans hz, hparent⟩

theorem Reaped.perm_zombieSlots : (a.zombieSlots me).Perm (z :: b.zombieSlots me) := by
  have hnot : z ∉ b.zombieSlots me := fun hz => (h.mem_zombieSlots.mp hz).2 rfl
  refine (List.perm_ext_iff_of_nodup (nodup_zombieSlots a me)
    (List.nodup_cons.mpr ⟨hnot, nodup_zombieSlots b me⟩)).mpr fun t => ?_
  rw [List.mem_cons, h.mem_zombieSlots]
  by_cases ht : t = z
  · subst ht
    simp [Kernel.mem_zombieSlots, h.thread, h.zombie, h.parent]
  · simp [ht]

theorem Reaped.zombieSlots_of_ne (hp : p ≠ me) : b.zombieSlots p = a.zombieSlots p := by
  refine List.filter_congr fun t _ => ?_
  rw [h.parentTid, decide_eq_decide]
  by_cases ht : t = z
  · subst ht
    refine iff_of_false (by simp [h.dead]) fun hz => hp ?_
    exact Slot.tid_inj (hz.2.symm.trans h.parent)
  · rw [h.state ht]

theorem Reaped.toldBetween : toldBetween (some me) a b me = [a.report z] := by
  have hframe : resumeFrame (a.tcb me) (b.tcb me) =
    childRegs z (a.tcb z).exitStatus (a.tcb me).uctx := by
    rw [h.self]
    exact resumeFrame_of_eq rfl
  unfold Kernel.toldBetween
  rw [hframe]
  exact if_pos ⟨.inr rfl, by simp [h.self, h.runs], rfl⟩

theorem Reaped.toldBetween_of_ne (hp : p ≠ me) : Kernel.toldBetween (some me) a b p = [] := by
  refine if_neg ?_
  rintro ⟨hw | hw, hout, -⟩
  · refine hout ((h.state ?_).trans hw)
    rintro rfl
    simp [h.zombie] at hw
  · exact hp (Option.some.inj hw).symm

theorem Reaped.accounted (ha : a.Family) : Accounted (some me) a b := by
  refine ⟨h.family ha, fun {p} hp hb => ?_, ha.fresh⟩
  rw [endedSlots_eq_nil fun _ => h.lives, List.map_nil, List.nil_append, funext h.report]
  by_cases hme : p = me
  · subst hme
    rw [h.toldBetween]
    exact h.perm_zombieSlots.map a.report
  · rw [h.toldBetween_of_ne hme, h.zombieSlots_of_ne hme]
    exact .refl _

end Reaped

theorem accounted_setRax {me : Slot} {e : IpcErr} (h : a.Family) (he : e ≠ .none) :
    Accounted (some me) a (a.setRax me e) := by
  have hfield : ∀ {β : Type} (π : Tcb → β) (t : Slot), (∀ x f, π { x with uctx := f } = π x) →
      π ((a.setRax me e).tcb t) = π (a.tcb t) := fun π t hπ => congrFun (a.modUctx_view me _ hπ) t
  have hstate : ∀ t : Slot, ((a.setRax me e).tcb t).state = (a.tcb t).state := fun t =>
    hfield Tcb.state t fun _ _ => rfl
  have hparent : ∀ t : Slot, ((a.setRax me e).tcb t).parentTid = (a.tcb t).parentTid := fun t =>
    hfield Tcb.parentTid t fun _ _ => rfl
  refine accounted_of_silent h (h.congr hstate hparent fun t =>
    hfield Tcb.waitFilter t fun _ _ => rfl)
    (fun t => by rw [hstate]) hparent (fun t => hfield Tcb.exitStatus t fun _ _ => rfl)
    (fun t ht => by rwa [Lives, hstate]) (fun t hw => (hstate t).trans hw) fun _ => ?_
  rw [resumeFrame_of_eq (hfield Tcb.inSigHandler me fun _ _ => rfl), setRax, modUctx,
    modTcb_tcb_self]
  cases e <;> first | exact absurd rfl he | simp [IpcErr.toWord]

/-- A parent without a zombie blocks, and nothing is reported. -/
theorem accounted_block {me : Slot} {filter : Tid} (h : a.Family)
    (hrun : (a.tcb me).state = .running)
    (hfind : a.schedFindZombieChild me.tid filter = (none, true))
    (hb : b = (a.modTcb me fun x => { x with waitFilter := filter }).schedBlock me .waitChild) :
    Accounted (some me) a b := by
  have hself : b.tcb me = { a.tcb me with waitFilter := filter, state := .waitChild } := by
    rw [hb, schedBlock, setState, modTcb_tcb_self, modTcb_tcb_self]
  have hother : ∀ t : Slot, t ≠ me → b.tcb t = a.tcb t := fun t ht => by
    have ht : (t : TcbRef) ≠ me := by simpa using ht
    rw [hb, schedBlock, setState, modTcb_tcb_of_ne _ ht, modTcb_tcb_of_ne _ ht]
  have hme : me ≠ 0 := by
    rintro rfl
    simp [h.zero] at hrun
  have hparent : ∀ t : Slot, (b.tcb t).parentTid = (a.tcb t).parentTid := fun t => by
    by_cases ht : t = me
    · rw [ht, hself]
    · rw [hother t ht]
  have hstatus : ∀ t : Slot, (b.tcb t).exitStatus = (a.tcb t).exitStatus := fun t => by
    by_cases ht : t = me
    · rw [ht, hself]
    · rw [hother t ht]
  have hlives : ∀ t, b.Lives t ↔ a.Lives t := fun t => by
    by_cases ht : t = me
    · subst ht
      simp [Lives, hself, hrun]
    · rw [Lives, Lives, hother t ht]
  have hchild : ∀ {t p}, a.Child t p ↔ b.Child t p := by
    have hdead : ∀ t : Slot, (b.tcb t).state ≠ .dead ↔ (a.tcb t).state ≠ .dead := fun t => by
      by_cases ht : t = me
      · subst ht
        simp [hself, hrun]
      · rw [hother t ht]
    intro t p
    exact ⟨fun hc => hc.congr (hdead _).mpr (hparent _).symm, fun hc =>
      hc.congr (hdead _).mp (hparent _)⟩
  refine accounted_of_silent h
    ⟨fun hc => (hlives _).mpr (h.parent (hchild.mpr hc)), fun {p} hw => ?_, ?_⟩
      (fun t => ?_) hparent hstatus
    (fun t => (hlives t).mpr) (fun t hw => ?_) fun hout => absurd (by rw [hself]) hout
  · by_cases hp : p = me
    · subst hp
      obtain ⟨w, hw₀, hwp, hwl, hfilter⟩ := schedFindZombieChild_live hfind
      exact ⟨w, hchild.mp ⟨hw₀, hme, hwl.1, hwp⟩, (hlives w).mpr hwl,
        hw, by rw [hself]; exact hfilter⟩
    · rw [hother p hp] at hw
      obtain ⟨t, hc, ht, hwaits⟩ := h.matched hw
      refine ⟨t, hchild.mp hc, (hlives t).mpr ht, ?_⟩
      rw [WaitsFor, hother p hp]
      exact hwaits
  · rw [hother 0 hme.symm]
    exact h.zero
  · by_cases ht : t = me
    · subst ht
      simp [hself, hrun]
    · rw [hother t ht]
  · by_cases ht : t = me
    · rw [ht, hself]
    · rwa [hother t ht]

theorem accounted_callWait {me : Slot} (h : a.Family) (hrun : (a.tcb me).state = .running) :
    Accounted (some me) a (a.callWait me) := by
  unfold callWait
  dsimp only
  split
  · rename_i z live hfind
    obtain ⟨hz₀, hparent, hz⟩ := schedFindZombieChild_spec hfind
    have hne : me ≠ z := by
      rintro rfl
      simp [hrun] at hz
    refine Reaped.accounted (z := z) ⟨hz₀, hrun, hz, hparent, ?_, ?_, fun t ht htz => ?_⟩ h
    · rw [modUctx, modTcb_tcb_self, schedReapZombie, setState,
        modTcb_tcb_of_ne _ (by simpa using hne)]
      rfl
    · rw [modUctx, modTcb_tcb_of_ne _ (by simpa using hne.symm), schedReapZombie, setState,
        modTcb_tcb_self]
    · rw [modUctx, modTcb_tcb_of_ne _ (by simpa using ht), schedReapZombie, setState,
        modTcb_tcb_of_ne _ (by simpa using htz)]
  · exact accounted_setRax h (by decide)
  · rename_i hfind
    split
    · exact accounted_setRax h (by decide)
    · exact accounted_block h hrun hfind rfl

theorem sq_callWait (k : Kernel) (me : Slot) : (k.callWait me).core.sq = k.core.sq := by
  unfold callWait
  dsimp only
  split
  · rw [core_modUctx, schedReapZombie, core_setState]
    rfl
  · rw [core_setRax]
  split
  · rw [core_setRax]
  · rw [schedBlock, core_setState, k.core_modTcb me rfl]
    rfl

theorem waits_callWait {me : Slot} (h : ((k.callWait me).tcb p).state = .waitChild) :
    (k.tcb p).state = .waitChild ∨ p = me := by
  by_cases hp : p = me
  · exact .inr hp
  have hne : (p : TcbRef) ≠ me := by simpa using hp
  refine .inl ?_
  unfold callWait at h
  dsimp only at h
  split at h
  · rename_i z live hfind
    rw [modUctx, modTcb_tcb_of_ne _ hne, schedReapZombie, setState, modTcb_tcb] at h
    split at h
    · cases h
    · exact h
  · rwa [setRax, modUctx, modTcb_tcb_of_ne _ hne] at h
  · split at h
    · rwa [setRax, modUctx, modTcb_tcb_of_ne _ hne] at h
    · rwa [schedBlock, setState, modTcb_tcb_of_ne _ hne, modTcb_tcb_of_ne _ hne] at h

/-! ## Sections -/

/-- The section wakes no thread that waits for a child, and kills only threads that have no
parent. -/
structure Tells (k : Kernel) (l : Label) : Prop where
  parked : ¬ k.hitsParked l
  wakes : ∀ t, (k.effects l).signals t ∨ (k.effects l).notified t → (k.tcb t).state ≠ .waitChild
  kills : ∀ t, (k.effects l).kills t → k.schedGetTcb (k.tcb t).parentTid = none

instance (k : Kernel) (l : Label) : Decidable (k.Tells l) :=
  decidable_of_iff (¬ k.hitsParked l ∧
      (∀ t, (k.effects l).signals t ∨ (k.effects l).notified t →
        (k.tcb (.thread t)).state ≠ .waitChild) ∧
      ∀ t, (k.effects l).kills t → k.schedGetTcb (k.tcb (.thread t)).parentTid = none)
    ⟨fun h => ⟨h.1, h.2.1, h.2.2⟩, fun h => ⟨h.parked, h.wakes, h.kills⟩⟩

theorem Family.entered (h : k.Family) (l : Label) : (k.entered l).Family :=
  h.congr (state_entered k l) (fun t => entered_field k l t Tcb.parentTid fun _ _ => rfl)
    fun t => entered_field k l t Tcb.waitFilter fun _ _ => rfl

/-- The handler, unless it serves the call for the end of a child. -/
theorem Tells.mild {heard : Prop} (hok : k.Tells l) (ho : k.Orderly heard) (h : k.Family)
    (hr : ¬ (k.effects l).reaps) : Mild (k.effects l) (k.entered l) := by
  refine ⟨?_, hr, fun p hp => ?_, fun t p hk hc => ?_⟩
  · rw [funext (state_entered k l)]
    exact ho.sound hok.parked
  · rw [state_entered] at hp
    exact ⟨fun hs => hok.wakes p (.inl hs) hp, fun hn => hok.wakes p (.inr hn) hp⟩
  · have hlives := (lives_entered k l p).mp ((h.entered l).parent hc)
    have hnone := hok.kills t hk
    rw [← entered_field k l t Tcb.parentTid fun _ _ => rfl, hc.parentTid,
      schedGetTcb_of_lives hc.parent hlives] at hnone
    cases hnone

theorem mild_resume (k : Kernel) (c : Cpu) : Mild (k.resumeEffects c) k :=
  ⟨sound_resume k c _, id, fun _ _ => ⟨id, id⟩, fun _ _ => False.elim⟩

theorem asker_cases (k : Kernel) (l : Label) : k.asker l = none ∧ ¬ (k.effects l).reaps ∨
    ∃ c e cur, l = .trap c e ∧ k.current c = some cur ∧ e.frame.vector.toNat = 0x30 ∧
      decode ((k.enter c e).tcb (.thread cur)).uctx = .wait ∧ k.asker l = some cur := by
  cases l with
  | kern | start => exact .inl ⟨rfl, id⟩
  | trap c e =>
    by_cases h : ∃ cur, k.current c = some cur ∧ e.frame.vector.toNat = 0x30 ∧
        decode ((k.enter c e).tcb (.thread cur)).uctx = .wait
    · obtain ⟨cur, hcur, hv, hd⟩ := h
      exact .inr ⟨c, e, cur, rfl, hcur, hv, hd, by simp [asker, caller, hv, hcur, hd]⟩
    refine .inl ⟨Option.eq_none_iff_forall_ne_some.mpr fun cur hcur => h ⟨cur, ?_⟩, fun hr => ?_⟩
    · obtain ⟨hcaller, hd⟩ := Option.filter_eq_some_iff.mp hcur
      unfold caller at hcaller
      split at hcaller
      · exact ⟨hcaller, by assumption, of_decide_eq_true hd⟩
      · cases hcaller
    · have hhandling := handling_effects k (.trap c e)
      generalize k.effects (.trap c e) = G, k.doing (.trap c e) = D at hhandling hr
      cases hhandling with
      | quiet | tick | fault => exact hr
      | call hv hcur => exact h ⟨_, hcur, hv, hr⟩

theorem Family.handled {heard : Prop} (h : k.Family) (ho : k.Orderly heard) (hok : k.Tells l)
    {k₁ : Kernel} (hk₁ : k.handled l = some k₁)
    (hacts : Acts (k.effects l) l.cpu (k.entered l) k₁) :
    Accounted (k.asker l) (k.entered l) k₁ ∧
      ∀ p : Slot, (k₁.tcb p).state = .waitChild → ¬ k₁.core.sq.Linked p := by
  have hunlinked : ∀ {p : Slot}, (k.tcb p).state ≠ .waitSend → ¬ (k.entered l).core.sq.Linked p :=
    fun hp hl => ho.unlinked hp ((entered_linked l).mp hl)
  rcases k.asker_cases l with ⟨hnone, hr⟩ | ⟨c, e, cur, rfl, hcur, hv, hd, hasker⟩
  · have hstart : Kin (k.effects l).Still (k.entered l) (k.entered l) :=
      .refl (h.entered l) fun {p} hp => hunlinked (by simp [← state_entered k l p, hp])
    have hkin := hstart.acts hacts (hok.mild ho h hr)
    rw [hnone]
    exact ⟨hkin.accounted, fun p hp => hkin.unlinked (hkin.waited hp)⟩
  · have hrun : (k.tcb cur).state = .running := ho.single.running hcur
    rw [(trap_call hv hcur).1, sysIpc, hd] at hk₁
    cases hk₁
    have hrun' : ((k.enter c e).tcb cur).state = .running :=
      (state_entered k (.trap c e) cur).trans hrun
    have haccounted := accounted_callWait (h.entered (.trap c e)) hrun'
    rw [hasker]
    refine ⟨haccounted, fun p hp hl => ?_⟩
    rw [sq_callWait] at hl
    refine hunlinked (p := p) (fun hsend => ?_) hl
    rcases waits_callWait hp with hw | rfl
    · simp [show (k.tcb p).state = .waitChild from
        (state_entered k (.trap c e) p).symm.trans hw] at hsend
    · simp [hrun] at hsend

theorem Family.boot (untypedBase untypedSize : Word) (fpuDefault : FpuState) :
    (boot untypedBase untypedSize fpuDefault).Family where
  parent hc := absurd rfl hc.state
  matched h := by cases h
  zero := rfl

end Kernel

namespace Census

open Kernel

variable {w w' : Census} {k b : Kernel} {asker : Option Slot} {l : Label}

structure Kept (w : Census) : Prop where
  family : w.kernel.Family
  complete : w.Complete
  dropped : ∀ p, ¬ w.kernel.Lives p → w.ended p = [] ∧ w.told p = []

theorem Kept.record (h : w.Kept) (hb : Kernel.Accounted asker w.kernel b) :
    (w.record asker b).Kept where
  family := hb.family
  dropped p hp := ⟨if_neg hp, if_neg hp⟩
  complete p hp hl := by
    have hold : (w.ended p).Perm (w.told p ++ (w.kernel.zombieSlots p).map w.kernel.report) := by
      by_cases hlive : w.kernel.Lives p
      · exact h.complete p hp hlive
      · obtain ⟨hended, htold⟩ := h.dropped p hlive
        rw [hended, htold, hb.fresh hp hlive]
        exact .nil
    have hl : b.Lives p := hl
    simp only [Census.record, if_pos hl]
    exact Lib.perm_carry hold (hb.balance hp hl)

theorem Kept.entered (h : w.Kept) (l : Label) :
    ({ w with kernel := w.kernel.entered l } : Census).Kept := by
  have hslots : ∀ p, (w.kernel.entered l).zombieSlots p = w.kernel.zombieSlots p := fun p => by
    refine List.filter_congr fun t _ => ?_
    rw [state_entered, entered_field w.kernel l t Tcb.parentTid fun _ _ => rfl]
  have hreport : (w.kernel.entered l).report = w.kernel.report := by
    funext t
    rw [Kernel.report, Kernel.report, entered_field w.kernel l t Tcb.exitStatus fun _ _ => rfl]
  refine ⟨h.family.entered l, fun p hp hl => ?_, fun p hp =>
    h.dropped p ((lives_entered _ l p).not.mp hp)⟩
  dsimp only
  rw [hslots, hreport]
  exact h.complete p hp ((lives_entered _ l p).mp hl)

/-- **Step.** -/
theorem Kept.step {heard : Prop} (h : w.Kept) (ho : w.kernel.Orderly heard) (hok : w.kernel.Tells l)
    (hs : w.step l = some w') : w'.Kept ∧ w.kernel.step l = some w'.kernel := by
  unfold Census.step at hs
  obtain ⟨k₁, hk₁, hs⟩ := Option.bind_eq_some_iff.mp hs
  obtain ⟨k', hk', rfl⟩ := Option.map_eq_some_iff.mp hs
  obtain ⟨k₂, hk₂, hhandler, hresume, -⟩ := acts_step hk'
  obtain rfl : k₁ = k₂ := Option.some.inj (hk₁.symm.trans hk₂)
  obtain ⟨haccounted, hunlinked⟩ := h.family.handled ho hok hk₁ hhandler
  refine ⟨((h.entered l).record haccounted).record ?_, hk'⟩
  have hstart : Kernel.Kin (k₁.resumeEffects l.cpu).Still k₁ k₁ := .refl haccounted.family fun hp =>
    hunlinked _ hp
  exact (hstart.acts hresume (mild_resume k₁ l.cpu)).accounted

/-- In every run in which no section wakes a thread that waits for a child, or kills a thread that
has a parent, each child that has ended is reported once or is a zombie, and each thread that
waits for a child has one that matches its filter. -/
theorem complete_of_tells (h : Lib.Reach Census.step (fun w l => w.kernel.Tells l) IsBoot w) :
    w.Complete ∧ w.Expectant := by
  have hinv : w.Kept ∧ w.kernel.Orderly False := by
    refine h.invariant (I := fun w => w.Kept ∧ w.kernel.Orderly False) ?_ ?_
    · rintro ⟨k, ended, told⟩ ⟨⟨base, size, fpu, rfl⟩, rfl, rfl⟩
      refine ⟨⟨.boot base size fpu, fun p _ hl => absurd rfl hl.1, fun _ _ => ⟨rfl, rfl⟩⟩, ?_⟩
      exact Orderly.boot False base size fpu
    · rintro w l w' ⟨hkept, ho⟩ hok hs
      obtain ⟨hkept', hk'⟩ := hkept.step ho hok hs
      exact ⟨hkept', ho.step hok.parked False.elim hk'⟩
  refine ⟨hinv.1.complete, fun p hp => ?_⟩
  obtain ⟨t, hc, -, hwaits⟩ := hinv.1.family.matched hp
  exact ⟨t, hc.thread, hc.state, hc.parentTid, hwaits.2⟩

def fork (c : Cpu) : Label :=
  .trap c
    { frame := { vector := 0x30, rdx := 0x1000000 }, ctx := ⟨0, 0⟩, env := { cloneAs := 0x5000 } }

def wait (c : Cpu) : Label := .call c 0 0 0x10000

def exit (c : Cpu) (status : Word) : Label :=
  .trap c { frame := { vector := 0x30, rdx := 0x4000, r8 := status }, ctx := ⟨0, 0⟩ }

def fault (c : Cpu) : Label := .trap c { frame := { vector := 13 }, ctx := ⟨0, 0⟩ }

def forkRun : List Label := [.spawn 0x1000, .start 0, fork 0, wait 0]

def start : Census := ⟨boot 0 0 0, fun _ => [], fun _ => []⟩

/-- Thread 2 exits, and its parent is told. -/
theorem complete_forkRun :
    ∃ w, Lib.run Census.step (fun w l => w.kernel.Tells l) start (forkRun ++ [exit 0 7]) = some w ∧
      w.ended 1 = [(2, 7)] ∧ w.told 1 = [(2, 7)] ∧ w.Complete ∧ w.Expectant :=
  Lib.exists_run₂ ⟨⟨0, 0, 0, rfl⟩, rfl, rfl⟩ (by decide +kernel) fun hw => complete_of_tells hw

/-- Thread 2 faults.  It has ended, thread 1 is not told of it, and goes on to wait. -/
theorem not_complete_forkRun :
    ¬ ∀ w, Lib.Reach Census.step (fun _ _ => True) IsBoot w → w.Complete ∧ w.Expectant := by
  intro h
  obtain ⟨w, hw, hended, htold, hzombies, hwaits⟩ : ∃ w,
    Lib.Reach Census.step (fun _ _ => True) IsBoot w ∧
      w.ended 1 = [(2, 0)] ∧ w.told 1 = [] ∧ w.kernel.zombieSlots 1 = [] ∧
        (w.kernel.tcb (.thread 1)).state = .waitChild :=
    Lib.observed (s := start) (forkRun ++ [fault 0]) ⟨⟨0, 0, 0, rfl⟩, rfl, rfl⟩ (by decide +kernel)
  have hperm := (h w hw).1 1 (by decide) (by simp [Lives, hwaits])
  rw [hended, htold, hzombies] at hperm
  simp at hperm

end Census

end Robu
