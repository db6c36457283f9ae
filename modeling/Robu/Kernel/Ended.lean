import Robu.Kernel.Act

/-!
# What the end of a thread does to the others

`terminate_tcb` goes over the send queue of the thread, over the thread table and over the
exec requests.  Each of these loops treats every thread it meets in the same way, so its
effect is one function applied to some of the control blocks (`Kernel.mapTcbs`).  `Ended`
says what comes out for each thread.
-/

namespace Robu

variable {x z : Tcb}

def ThreadState.woken (s : ThreadState) : ThreadState :=
  if s ≠ .dead ∧ s ≠ .running ∧ s ≠ .zombie then .ready else s

namespace Tcb

def notFound (f : Uctx) : Uctx := { f with rax := IpcErr.notFound.toWord }

def flushed (x : Tcb) : Tcb :=
  { x with sqNext := none, uctx := notFound x.uctx, state := x.state.woken }

def orphaned (tid : Tid) (x : Tcb) : Tcb :=
  if x.state = .waitRecv ∧
    x.ipcPartner = tid then { x with uctx := notFound x.uctx, state := .ready }
  else x

/-- A child of `tid` loses its parent; a zombie is gone for good. -/
def detached (tid : Tid) (x : Tcb) : Tcb :=
  if x.parentTid = tid then
    { x with parentTid := 0, state := if x.state = .zombie then .dead else x.state }
  else x

def failed (x : Tcb) : Tcb :=
  { x with uctx := { x.uctx with rax := IpcErr.notFound.toWord, r8 := 0 }, state := .ready }

/-- The thread `x` with what the end of another thread may change in it, taken from `y`. -/
def fated (x y : Tcb) (parent : Tid) : Tcb :=
  { x with uctx := y.uctx, state := y.state, sqNext := y.sqNext, parentTid := parent }

/-- The thread `x` with what its own end may change in it, taken from `y`. -/
def departed (x y : Tcb) (parent : Tid) : Tcb :=
  { x with
    uctx := y.uctx, state := y.state, sqNext := y.sqNext, sendQHead := none, sendQTail := none
    addressSpace := y.addressSpace, parentTid := parent }

theorem vital_fated (x y : Tcb) (p : Tid) :
    (x.fated y p).vital = (x.vital.fated y.vital p).vital := rfl

theorem vital_departed (x y : Tcb) (p : Tid) :
    (x.departed y p).vital = (x.vital.departed y.vital p).vital := rfl

def inSpace (as : Word) (x : Tcb) : Tcb := { x with addressSpace := as }

theorem vital_inSpace (as : Word) (x : Tcb) :
    (x.inSpace as).vital = (x.vital.inSpace as).vital := rfl

end Tcb

namespace Kernel

variable {c : Cpu} {k k' k₁ k₂ : Kernel} {t u : Slot} {final : ThreadState}

/-! ## The same change to several threads -/

def mapTcbs (k : Kernel) (g : Slot → Tcb → Tcb) : Kernel :=
  { k with
    tcb
      | .thread i => g i (k.tcb i)
      | .idle d => k.tcb (.idle d) }

theorem mapTcbs_mapTcbs (k : Kernel) (g h : Slot → Tcb → Tcb) :
    (k.mapTcbs g).mapTcbs h = k.mapTcbs fun i x => h i (g i x) := by
  unfold mapTcbs
  congr 1

theorem modTcb_eq_mapTcbs (k : Kernel) (t : Slot) (f : Tcb → Tcb) :
    k.modTcb t f = k.mapTcbs fun i x => if i = t then f x else x := by
  unfold mapTcbs modTcb
  congr 1
  funext v
  cases v with
  | idle d => exact Function.update_of_ne (by simp) ..
  | thread i =>
    rcases eq_or_ne i t with rfl | hi
    · simp
    · simp [hi]

def Respects (g : Tcb → Tcb) : Prop := ∀ x, (g x).vital = (g x.vital).vital

theorem Alike.mapTcbs (h : k.Alike k') {g : Slot → Tcb → Tcb} (hg : ∀ i, Respects (g i)) :
    (k.mapTcbs g).Alike (k'.mapTcbs g) :=
  { h with
    tcb := fun i => by
      show (g i (k'.tcb i)).vital = (g i (k.tcb i)).vital
      rw [hg i, h.tcb i, ← hg i] }

theorem alike_mapTcbs {g g' : Slot → Tcb → Tcb}
    (h : ∀ i, (g' i (k.tcb i)).vital = (g i (k.tcb i)).vital) :
    (k.mapTcbs g).Alike (k.mapTcbs g') :=
  { Alike.refl _ with tcb := h }

theorem alike_of_mapTcbs {g : Slot → Tcb → Tcb} (h : ∀ i, (g i (k.tcb i)).vital = (k.tcb i).vital) :
    (k.mapTcbs g).Alike k :=
  { Alike.refl k with tcb := fun i => (h i).symm }

theorem Respects.ite {p : Prop} [Decidable p] {g : Tcb → Tcb} (hg : Respects g) :
    Respects fun x => if p then g x else x := by
  intro x
  dsimp only
  split
  · exact hg x
  · rfl

theorem respects_flushed : Respects Tcb.flushed := fun _ => rfl

theorem respects_orphaned (tid : Tid) : Respects (Tcb.orphaned tid) := by
  intro x
  unfold Tcb.orphaned
  show _ = (if x.state = .waitRecv ∧ x.ipcPartner = tid then _ else _ : Tcb).vital
  split <;> rfl

theorem respects_detached (tid : Tid) : Respects (Tcb.detached tid) := by
  intro x
  unfold Tcb.detached
  show _ = (if x.parentTid = tid then _ else _ : Tcb).vital
  split <;> rfl

/-- A change to one thread and then to those of a list.  A thread met twice is changed once. -/
theorem alike_cons {g : Tcb → Tcb} (hg : Respects g) (hgg : ∀ x, g (g x) = g x) {w : Slot}
    {l : List Slot} (hone : (k.modTcb w g).Alike k₁)
    (hrest : (k₁.mapTcbs fun i x => if i ∈ l then g x else x).Alike k₂) :
    (k.mapTcbs fun i x => if i ∈ w :: l then g x else x).Alike k₂ := by
  refine Alike.trans ?_ ((hone.mapTcbs fun _ => hg.ite).trans hrest)
  rw [modTcb_eq_mapTcbs, mapTcbs_mapTcbs]
  refine alike_mapTcbs fun i => ?_
  simp only [List.mem_cons]
  by_cases hi : i = w
  · simp only [hi, true_or, if_true]
    split <;> simp only [hgg]
  · simp only [hi, false_or, if_false]

/-! ## The send queue -/

theorem flushed_flushed (x : Tcb) : x.flushed.flushed = x.flushed := by
  have hwoken : x.state.woken.woken = x.state.woken := by cases x.state <;> rfl
  simp only [Tcb.flushed, hwoken, Tcb.notFound]

theorem alike_flush (k : Kernel) (c : Cpu) (t : Slot) :
    (k.modTcb t Tcb.flushed).Alike (((k.setSqNext t none).setRax t .notFound).schedWake c t) := by
  have hwake := alike_schedWake ((k.setSqNext t none).setRax t .notFound) c t
  have hst : (((k.setSqNext t none).setRax t .notFound).tcb t).state = (k.tcb t).state := by
    rw [setRax, modUctx, modTcb_tcb_self, setSqNext, modTcb_tcb_self]
  simp only [Asleep, hst] at hwake
  rw [setRax, modUctx, setSqNext, modTcb_modTcb, modTcb_modTcb] at hwake
  refine Alike.trans (.of_eq (k.modTcb_congr ?_)) hwake
  dsimp only [Tcb.flushed, ThreadState.woken]
  rfl

theorem alike_flushFrom (fuel : Nat) (h : Option Slot) :
    (k.mapTcbs fun i x => if i ∈ Lib.walk fuel (fun s : Slot => (k.tcb s).sqNext) h then
      x.flushed else x).Alike
      (flushFrom c fuel k h) := by
  induction fuel generalizing k h with
  | zero => exact alike_of_mapTcbs fun _ => rfl
  | succ fuel ih =>
    cases h with
    | none => exact alike_of_mapTcbs fun _ => rfl
    | some t =>
      have hflush := k.alike_flush c t
      rw [flushFrom]
      generalize ((k.setSqNext t none).setRax t .notFound).schedWake c t = k₁ at hflush ⊢
      have hnext : (fun s : Slot => (k₁.tcb s).sqNext) =
          Function.update (fun s : Slot => (k.tcb s).sqNext) t none := by
        funext s
        rw [hflush.field Tcb.sqNext s fun _ => rfl, modTcb_tcb]
        rcases eq_or_ne s t with rfl | hs
        · simp [Tcb.flushed]
        · simp [hs]
      have hrest := ih (k := k₁) (k.tcb t).sqNext
      rw [hnext] at hrest
      exact alike_cons respects_flushed flushed_flushed hflush hrest

/-! ## The thread table -/

theorem alike_foldl {σ : Type} (π : σ → Kernel) {step : σ → Slot → σ} {g : Tcb → Tcb}
    (hg : Respects g) (hgg : ∀ x, g (g x) = g x)
    (hstep : ∀ st (w : Slot), ((π st).modTcb w g).Alike (π (step st w))) (l : List Slot) (st : σ) :
    ((π st).mapTcbs fun i x => if i ∈ l then g x else x).Alike (π (l.foldl step st)) := by
  induction l generalizing st with
  | nil => exact alike_of_mapTcbs fun _ => rfl
  | cons w l ih =>
    rw [List.foldl_cons]
    exact alike_cons hg hgg (hstep st w) (ih (step st w))

/-- A thread of the table after the death of `tid`. -/
def bereaved (tid : Tid) (x : Tcb) : Tcb := (x.orphaned tid).detached tid

theorem respects_bereaved (tid : Tid) : Respects (bereaved tid) := by
  intro x
  unfold bereaved
  rw [respects_detached tid, respects_orphaned tid, ← respects_detached tid]

theorem bereaved_bereaved (tid : Tid) (x : Tcb) :
    bereaved tid (bereaved tid x) = bereaved tid x := by
  unfold bereaved Tcb.detached Tcb.orphaned
  by_cases hr : x.state = .waitRecv ∧ x.ipcPartner = tid
  · by_cases hp : x.parentTid = tid
    · by_cases h₀ : tid = 0 <;> simp [hr, hp, h₀, Ne.symm]
    · simp [hr, hp]
  · by_cases hp : x.parentTid = tid
    · by_cases hz : x.state = .zombie <;> by_cases h₀ : (0 : Tid) = tid <;> simp [hr, hp, hz, h₀]
    · simp [hr, hp]

theorem alike_wakeOrphan (k : Kernel) (c : Cpu) (t w : Slot) :
    (k.modTcb w (Tcb.orphaned t.tid)).Alike (k.wakeOrphan c t w) := by
  unfold wakeOrphan
  split
  · rename_i hw
    have hasleep : k.Asleep w := asleep_of_state hw.1 (by decide)
    refine Alike.trans (.of_eq (k.modTcb_congr ?_)) (alike_modUctx_schedWake _ hasleep)
    rw [Tcb.orphaned, if_pos hw]
    rfl
  · rename_i hw
    refine .of_eq ?_
    rw [Kernel.modTcb, Tcb.orphaned, if_neg hw, Function.update_eq_self]

theorem alike_detachChild (k : Kernel) (tid : Tid) (w : Slot) :
    (k.modTcb w (Tcb.detached tid)).Alike
      (if (k.tcb w).parentTid = tid then k.detachChild w else k) := by
  split
  · rename_i hp
    unfold detachChild
    dsimp only
    have hst : ((k.modTcb w fun x => { x with parentTid := 0 }).tcb w).state = (k.tcb w).state := by
      rw [modTcb_tcb_self]
    rw [hst]
    split
    · rename_i hz
      rw [setState, modTcb_modTcb]
      refine .of_eq (k.modTcb_congr ?_)
      rw [Tcb.detached, if_pos hp, if_pos hz]
    · rename_i hz
      refine .of_eq (k.modTcb_congr ?_)
      rw [Tcb.detached, if_pos hp, if_neg hz]
  · rename_i hp
    refine .of_eq ?_
    rw [Kernel.modTcb, Tcb.detached, if_neg hp, Function.update_eq_self]

theorem alike_orphans (c : Cpu) (t : Slot) (st : Kernel × Bool) :
    (st.1.mapTcbs fun i x => if i ∈ tableSlots then bereaved t.tid x else x).Alike
      (tableSlots.foldl (orphanStep c t) st).1 := by
  refine alike_foldl Prod.fst (respects_bereaved _) (bereaved_bereaved _)
    (fun st w => ?_) tableSlots st
  unfold orphanStep
  dsimp only
  have hmod := (st.1.alike_wakeOrphan c t w).modTcb w (respects_detached t.tid)
  rw [modTcb_modTcb] at hmod
  exact hmod.trans (alike_detachChild _ _ w)

/-! ## Exec requests -/

theorem Alike.withTcbs (h : k.Alike k') (tcb : TcbRef → Tcb) (execSlots : Fin 8 → ExecreqSlot) :
    ({ k with tcb := tcb, execSlots := execSlots } : Kernel).Alike
      { k' with tcb := tcb, execSlots := execSlots } :=
  { h with tcb := fun _ => rfl, execSlots := rfl }

/-- Requests are dropped, and some of the threads that wait for one are woken. -/
structure Failed (k k' : Kernel) : Prop where
  tcb : ∀ i : Slot, (k'.tcb i).vital = (k.tcb i).vital ∨
    (k.tcb i).state = .waitExecreq ∧ (k'.tcb i).vital = (k.tcb i).failed.vital
  rest : ({ k with tcb := k'.tcb, execSlots := k'.execSlots } : Kernel).Alike k'

theorem Failed.refl (k : Kernel) : k.Failed k := ⟨fun _ => .inl rfl, .refl k⟩

theorem Failed.trans (h : k.Failed k₁) (h' : k₁.Failed k₂) : k.Failed k₂ where
  tcb i := by
    rcases h.tcb i with h₁ | ⟨hw, h₁⟩
    · rcases h'.tcb i with h₂ | ⟨hw', h₂⟩
      · exact .inl (h₂.trans h₁)
      · refine .inr ⟨(congrArg Tcb.state h₁ :).symm.trans hw', h₂.trans ?_⟩
        have hfail : ∀ x : Tcb, x.failed.vital = x.vital.failed.vital := fun _ => rfl
        rw [hfail, h₁, ← hfail]
    · rcases h'.tcb i with h₂ | ⟨hw', -⟩
      · exact .inr ⟨hw, h₂.trans h₁⟩
      · cases (congrArg Tcb.state h₁ :).symm.trans hw'
  rest := (h.rest.withTcbs _ _).trans h'.rest

theorem failed_freeSlot (k : Kernel) (i : Fin 8) : k.Failed (k.freeSlot i) :=
  ⟨fun _ => .inl rfl, .refl _⟩

theorem failed_failRequester {i : Fin 8} (h : k.awaitsSlot t i) :
    k.Failed (k.failRequester c t) := by
  have hasleep : k.Asleep t := asleep_of_state h.1 (by decide)
  have ha : (k.modTcb t Tcb.failed).Alike (k.failRequester c t) :=
    alike_modUctx_schedWake (fun f => { f with rax := IpcErr.notFound.toWord, r8 := 0 }) hasleep
  refine ⟨fun i => ?_, { ha with tcb := fun _ => rfl, execSlots := rfl }⟩
  rw [ha.tcb i, modTcb_tcb]
  split
  · rename_i hi
    obtain rfl := TcbRef.thread.inj hi
    exact .inr ⟨h.1, rfl⟩
  · exact .inl rfl

theorem failed_execreqFailAll (k : Kernel) (c : Cpu) : k.Failed (k.execreqFailAll c) := by
  unfold execreqFailAll
  refine List.foldlRecOn _ _ (motive := fun k' : Kernel => k.Failed k')
    (.refl k) fun k' hk' i _ => ?_
  refine hk'.trans ?_
  unfold failSlot
  split
  · exact .refl k'
  split
  · exact failed_freeSlot k' i
  split
  · rename_i hawaits
    exact (failed_failRequester hawaits).trans (failed_freeSlot _ i)
  · exact failed_freeSlot k' i

theorem failed_execreqCancelRequester (k : Kernel) (tid : Tid) :
    k.Failed (k.execreqCancelRequester tid) := by
  unfold execreqCancelRequester
  refine List.foldlRecOn _ _ (motive := fun k' : Kernel => k.Failed k')
    (.refl k) fun k' hk' i _ => ?_
  refine hk'.trans ?_
  split
  · exact failed_freeSlot k' i
  · exact .refl k'

/-! ## The end of a thread -/

/-- **Outcomes.**  What the end of `t` does to the wait of another thread `u`. -/
inductive Outcome (k : Kernel) (t u : Slot) (x y : Tcb) : Prop
  | spared (uctx : y.uctx = x.uctx) (state : y.state = x.state)
  /-- A zombie whose parent is gone is gone for good. -/
  | buried (zombie : x.state = .zombie) (child : x.parentTid = t.tid) (state : y.state = .dead)
  /-- A sender on the queue of `t` is told. -/
  | flushed (queued : u ∈ k.core.senders t) (uctx : y.uctx = Tcb.notFound x.uctx)
      (state : y.state = x.state.woken)
  /-- A receiver that waits for `t` is told. -/
  | orphaned (waits : x.state = .waitRecv) (partner : x.ipcPartner = t.tid)
      (uctx : y.uctx = Tcb.notFound x.uctx) (state : y.state = .ready)
  /-- A thread whose request was with `t` is told. -/
  | failed (waits : x.state = .waitExecreq) (uctx : y.uctx = x.failed.uctx)
    (state : y.state = .ready)

/-- What the end of `t` does to another thread `u`. -/
structure Fate (k : Kernel) (t u : Slot) (x y : Tcb) : Prop where
  frame : y.vital = (x.fated y (if u ≠ 0 ∧ x.parentTid = t.tid then 0 else x.parentTid)).vital
  outcome : Outcome k t u x y
  /-- No zombie stays with a parent that is gone. -/
  child : u ≠ 0 → x.parentTid = t.tid → y.state ≠ .zombie
  /-- No receiver goes on to wait for `t`. -/
  receiver : u ≠ 0 → y.state = .waitRecv → y.ipcPartner ≠ t.tid
  /-- Links of send queues are kept or cleared. -/
  links : y.sqNext = x.sqNext ∨ y.sqNext = none

/-- **The end of a thread.** -/
structure Ended (k : Kernel) (t : Slot) (final : ThreadState) (k' : Kernel) : Prop where
  self : (k'.tcb t).vital = ((k.tcb t).departed (k'.tcb t)
    (if t ≠ 0 ∧ (k.tcb t).parentTid = t.tid then 0 else (k.tcb t).parentTid)).vital
  state : (k.tcb t).parentTid ≠ t.tid → (k'.tcb t).state = final
  gone : (k'.tcb t).state = .dead ∨ (k'.tcb t).state = .zombie
  links : (k'.tcb t).sqNext = (k.tcb t).sqNext ∨ (k'.tcb t).sqNext = none
  other : ∀ u, u ≠ t → Fate k t u (k.tcb u) (k'.tcb u)
  rest : ({ k with
    tcb := k'.tcb, execSlots := k'.execSlots
    kcapTable := (k.kcapInvalidateTcbDeath t.tid).kcapTable
    notifTable := (k.notifInvalidateWaiterDeath t.tid).notifTable } : Kernel).Alike k'

def bereavedTcb (k : Kernel) (t i : Slot) (x : Tcb) : Tcb :=
  let y := if i ∈ k.core.senders t then x.flushed else x
  if i ∈ tableSlots then bereaved t.tid y else y

def endedTcb (final : ThreadState) (x : Tcb) : Tcb :=
  { x with state := final, sendQHead := none, sendQTail := none }

/-- The loops of `terminate_tcb` over the send queue and over the table. -/
theorem alike_loops (k : Kernel) (c : Cpu) (t : Slot) (final : ThreadState) :
    (k.mapTcbs fun i x => k.bereavedTcb t i (if i = t then endedTcb final x else x)).Alike
      (tableSlots.foldl (orphanStep c t)
        (flushFrom c 65 ((k.setState t final).clearSendQ t) ((k.setState t final).tcb t).sendQHead,
          false)).1 := by
  have hhead : ((k.setState t final).tcb t).sendQHead = (k.tcb t).sendQHead := by
    rw [setState, modTcb_tcb_self]
  have hnext : ((k.setState t final).clearSendQ t).view Tcb.sqNext = k.view Tcb.sqNext :=
    (view_modTcb_frame _ t rfl).trans (k.view_modTcb_frame t rfl)
  have hbase : (k.setState t final).clearSendQ t =
      k.mapTcbs fun i x => if i = t then endedTcb final x else x := by
    rw [clearSendQ, setState, modTcb_modTcb, modTcb_eq_mapTcbs]
    rfl
  rw [hhead]
  generalize (k.setState t final).clearSendQ t = k₀ at hnext hbase ⊢
  change (fun s : Slot => (k₀.tcb s).sqNext) = fun s : Slot => (k.tcb s).sqNext at hnext
  have hflush := alike_flushFrom (c := c) (k := k₀) 65 (k.tcb t).sendQHead
  have horphans := alike_orphans c t (flushFrom c 65 k₀ (k.tcb t).sendQHead, false)
  have hmap := hflush.mapTcbs (g := fun i x => if i ∈ tableSlots then bereaved t.tid x else x)
    fun _ => (respects_bereaved _).ite
  rw [hnext, mapTcbs_mapTcbs] at hmap
  refine Alike.trans (.of_eq ?_) (hmap.trans horphans)
  rw [hbase, mapTcbs_mapTcbs]
  rfl

theorem woken_ne_waitRecv (s : ThreadState) : s.woken ≠ .waitRecv := by cases s <;> decide

theorem woken_eq_zombie_iff (s : ThreadState) :
    s.woken = .zombie ↔ s = .zombie := by cases s <;> decide

/-- The thread after the loop over the send queue, and after its wait for `t`. -/
structure Halfway (k : Kernel) (t u : Slot) (x z : Tcb) : Prop where
  frame : z = x.fated z x.parentTid
  outcome : Outcome k t u x z
  zombie : z.state = .zombie ↔ x.state = .zombie
  receiver : u ≠ 0 → z.state = .waitRecv → z.ipcPartner ≠ t.tid
  links : z.sqNext = x.sqNext ∨ z.sqNext = none

theorem halfway_flushed (hq : u ∈ k.core.senders t) : Halfway k t u x x.flushed where
  frame := rfl
  outcome := .flushed hq rfl rfl
  zombie := woken_eq_zombie_iff x.state
  receiver _ h := absurd h (woken_ne_waitRecv x.state)
  links := .inr rfl

theorem halfway_orphaned (x : Tcb) : Halfway k t u x (x.orphaned t.tid) := by
  unfold Tcb.orphaned
  split
  · rename_i hr
    exact ⟨rfl, .orphaned hr.1 hr.2 rfl rfl, by simp [hr.1], fun _ h => (by cases h), .inl rfl⟩
  · rename_i hr
    exact ⟨rfl, .spared rfl rfl, .rfl, fun _ hw hp => hr ⟨hw, hp⟩, .inl rfl⟩

/-- When its wait for `t` is over, the fate of a thread is settled. -/
theorem Halfway.detached (h : Halfway k t u x z) (h₀ : u ≠ 0) :
    Fate k t u x (z.detached t.tid) := by
  have hparent : z.parentTid = x.parentTid := by
    rw [h.frame]
    rfl
  unfold Tcb.detached
  split
  · rename_i hp
    rw [hparent] at hp
    by_cases hz : z.state = .zombie
    · simp only [hz, if_true]
      refine ⟨?_, .buried (h.zombie.mp hz) hp rfl, fun _ _ => by
        simp, fun _ h => (by cases h), h.links⟩
      rw [h.frame, if_pos ⟨h₀, hp⟩]
      rfl
    · simp only [hz, if_false]
      refine ⟨?_, ?_, fun _ _ => hz, h.receiver, h.links⟩
      · rw [h.frame, if_pos ⟨h₀, hp⟩]
        rfl
      · cases h.outcome with
        | spared hu hs => exact .spared hu hs
        | buried hzx _ _ => exact absurd (h.zombie.mpr hzx) hz
        | flushed hq hu hs => exact .flushed hq hu hs
        | orphaned hw hpart hu hs => exact .orphaned hw hpart hu hs
        | failed hw hu hs => exact .failed hw hu hs
  · rename_i hp
    rw [hparent] at hp
    refine ⟨?_, h.outcome, fun _ h => absurd h hp, h.receiver, h.links⟩
    rw [h.frame, if_neg fun h' => hp h'.2]
    rfl

theorem Halfway.fate (h : Halfway k t u x z) (h₀ : u = 0) : Fate k t u x z := by
  refine ⟨?_, h.outcome, fun h' => absurd h₀ h', h.receiver, h.links⟩
  rw [h.frame, if_neg fun h' => h'.1 h₀]
  rfl

theorem fate_bereavedTcb (x : Tcb) : Fate k t u x (k.bereavedTcb t u x) := by
  unfold bereavedTcb bereaved
  simp only [mem_tableSlots]
  by_cases hq : u ∈ k.core.senders t
  · have hrecv : x.flushed.orphaned t.tid = x.flushed := by
      rw [Tcb.orphaned, if_neg fun h => woken_ne_waitRecv x.state h.1]
    simp only [hq, if_true, hrecv]
    split
    · rename_i h₀
      exact (halfway_flushed hq).detached h₀
    · rename_i h₀
      exact (halfway_flushed hq).fate (not_not.mp h₀)
  · simp only [hq, if_false]
    split
    · rename_i h₀
      exact (halfway_orphaned x).detached h₀
    rename_i h₀
    have h₀ : u = 0 := not_not.mp h₀
    exact Halfway.fate ⟨rfl, .spared rfl rfl, .rfl, fun h => absurd h₀ h, .inl rfl⟩ h₀

theorem Fate.of_vital {y : Tcb} (h : Fate k t u x z) (hy : y.vital = z.vital) : Fate k t u x y := by
  have huctx := congrArg Tcb.uctx hy
  have hstate : y.state = z.state := (congrArg Tcb.state hy :)
  have hpartner : y.ipcPartner = z.ipcPartner := (congrArg Tcb.ipcPartner hy :)
  have hnext := congrArg Tcb.sqNext hy
  refine ⟨?_, ?_, ?_, ?_, hnext ▸ h.links⟩
  · rw [Tcb.vital_fated, hy, ← Tcb.vital_fated]
    exact h.frame
  · cases h.outcome with
    | spared hu hs => exact .spared (huctx.trans hu) (hstate.trans hs)
    | buried hz hc hs => exact .buried hz hc (hstate.trans hs)
    | flushed hq hu hs => exact .flushed hq (huctx.trans hu) (hstate.trans hs)
    | orphaned hw hp hu hs => exact .orphaned hw hp (huctx.trans hu) (hstate.trans hs)
    | failed hw hu hs => exact .failed hw (huctx.trans hu) (hstate.trans hs)
  · rw [hstate]
    exact h.child
  · rw [hstate, hpartner]
    exact h.receiver

theorem Fate.fail (h : Fate k t u x z) (hw : z.state = .waitExecreq) : Fate k t u x z.failed := by
  refine ⟨?_, ?_, fun _ _ => by simp [Tcb.failed], fun _ h => (by cases h), h.links⟩
  · have hz : z.failed.vital = { z.vital with uctx := z.failed.uctx, state := .ready } := rfl
    rw [hz, h.frame]
    rfl
  · cases h.outcome with
    | spared hu hs => exact .failed (hs.symm.trans hw) (by rw [Tcb.failed, Tcb.failed, hu]) rfl
    | buried _ _ hs => rw [hs] at hw; cases hw
    | flushed _ _ hs =>
      rw [hs] at hw
      exact absurd hw (by cases x.state <;> decide)
    | orphaned _ _ _ hs => rw [hs] at hw; cases hw
    | failed _ _ hs => rw [hs] at hw; cases hw

theorem Fate.of_failed {k₁ k₂ : Kernel} (h : Fate k t u x (k₁.tcb u)) (hf : k₁.Failed k₂) :
    Fate k t u x (k₂.tcb u) := by
  rcases hf.tcb u with hy | ⟨hw, hy⟩
  · exact h.of_vital hy
  · exact (h.fail hw).of_vital hy

/-- The last assignments: the address space in `k₁`, and the exec requests. -/
theorem ended_of_loops (k₁ k₂ : Kernel) (as : Word) (hfinal : final = .dead ∨ final = .zombie)
    (hself : Fate k t t (endedTcb final (k.tcb t)) (k₂.tcb t))
    (hother : ∀ u : Slot, u ≠ t → Fate k t u (k.tcb u) (k₁.tcb u))
    (has : (k₁.tcb t).vital = ((k₂.tcb t).inSpace as).vital) (hrest : ({ k with
      tcb := k₁.tcb, execSlots := k₁.execSlots
      kcapTable := (k.kcapInvalidateTcbDeath t.tid).kcapTable
      notifTable := (k.notifInvalidateWaiterDeath t.tid).notifTable } : Kernel).Alike k₁)
    (hfail : k₁.Failed k') : k.Ended t final k' := by
  -- the final state stays, or a zombie that was its own parent is gone
  have hstate : (k₂.tcb t).state = final ∨ (k.tcb t).parentTid = t.tid ∧
    (k₂.tcb t).state = .dead := by
    cases hself.outcome with
    | spared _ hs => exact .inl hs
    | buried _ hc hs => exact .inr ⟨hc, hs⟩
    | flushed _ _ hs =>
      refine .inl (hs.trans ?_)
      rcases hfinal with rfl | rfl <;> rfl
    | orphaned hw => rcases hfinal with rfl | rfl <;> cases hw
    | failed hw => rcases hfinal with rfl | rfl <;> cases hw
  have hst₁ : (k₁.tcb t).state = (k₂.tcb t).state := (congrArg Tcb.state has :)
  have hv : (k'.tcb t).vital = ((k₂.tcb t).inSpace as).vital := by
    rcases hfail.tcb t with h | ⟨hw, -⟩
    · exact h.trans has
    rw [hst₁] at hw
    rcases hstate with hs | ⟨-, hs⟩ <;> rw [hs] at hw
    · rcases hfinal with rfl | rfl <;> cases hw
    · cases hw
  have hnext : (k'.tcb t).sqNext = (k₂.tcb t).sqNext := (congrArg Tcb.sqNext hv :)
  have hst : (k'.tcb t).state = (k₂.tcb t).state := (congrArg Tcb.state hv :)
  refine ⟨?_, fun hp => ?_, ?_, hnext ▸ hself.links, fun u hu => (hother u hu).of_failed hfail, ?_⟩
  · have hframe := hself.frame
    rw [hv, Tcb.vital_departed, hv, ← Tcb.vital_departed, Tcb.vital_inSpace, hframe]
    rfl
  · rcases hstate with hs | ⟨hself, -⟩
    · exact hst.trans hs
    · exact absurd hself hp
  · rw [hst]
    rcases hstate with hs | ⟨-, hs⟩
    · exact hs ▸ hfinal
    · exact .inl hs
  · exact (hrest.withTcbs _ _).trans hfail.rest

/-- **The end of a thread**, as `terminate_tcb` brings it about. -/
theorem ended_terminateTcb (k : Kernel) (c : Cpu) (t : Slot)
    (hfinal : final = .dead ∨ final = .zombie) : k.Ended t final (k.terminateTcb c t final) := by
  unfold terminateTcb
  dsimp only
  have hloops := k.alike_loops c t final
  generalize tableSlots.foldl (orphanStep c t) _ = r at hloops ⊢
  obtain ⟨k₂, sibling⟩ := r
  dsimp only at hloops ⊢
  obtain ⟨as, has⟩ : ∃ as, k₂.releaseAddressSpace t sibling = k₂.modTcb t (Tcb.inSpace as) := by
    unfold releaseAddressSpace
    split
    · exact ⟨0, rfl⟩
    · refine ⟨(k₂.tcb t).addressSpace, ?_⟩
      simp only [Kernel.modTcb, Tcb.inSpace, Function.update_eq_self]
  rw [has]
  set k₁ := ((k₂.modTcb t (Tcb.inSpace as)).kcapInvalidateTcbDeath
    t.tid).notifInvalidateWaiterDeath t.tid
  have hfate : ∀ i : Slot, Fate k t i (if i = t then endedTcb final (k.tcb i) else k.tcb i)
    (k₂.tcb i) :=
    fun i => (fate_bereavedTcb _).of_vital (hloops.tcb i)
  refine ended_of_loops k₁ k₂ as hfinal (by simpa using hfate t) (fun u hu => ?_) ?_ ?_ ?_
  · have htcb : k₁.tcb u = k₂.tcb u := k₂.modTcb_tcb_of_ne (by simpa using hu) _
    have h := hfate u
    rw [if_neg hu] at h
    rwa [htcb]
  · have htcb : k₁.tcb t = (k₂.tcb t).inSpace as := k₂.modTcb_tcb_self t _
    rw [htcb]
  · have hnotif : k₁.notifTable = (k.notifInvalidateWaiterDeath t.tid).notifTable := by
      have htable : k₂.notifTable = k.notifTable := hloops.notifTable
      have hcount : k₂.notifCount = k.notifCount := hloops.notifCount
      show (k₂.notifInvalidateWaiterDeath t.tid).notifTable = _
      unfold notifInvalidateWaiterDeath
      rw [htable, hcount]
    have hcaps : k₁.kcapTable = (k.kcapInvalidateTcbDeath t.tid).kcapTable := by
      have htable : k₂.kcapTable = k.kcapTable := hloops.kcapTable
      show (k₂.kcapInvalidateTcbDeath t.tid).kcapTable = _
      unfold kcapInvalidateTcbDeath
      rw [htable]
    exact { hloops with
      tcb := fun _ => rfl, execSlots := rfl, kcapTable := hcaps, notifTable := hnotif }
  · unfold announceDeath
    dsimp only
    split
    · exact (failed_execreqCancelRequester _ _).trans (failed_execreqFailAll _ c)
    · exact failed_execreqCancelRequester _ _

end Kernel

end Robu
