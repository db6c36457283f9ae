import Robu.Kernel.RefineTrap
import Robu.Kernel.Turn

/-!
# Kernel sections as acts and deeds

A section has two parts: the handler of the trap, and the way back to a thread, on which
signals are delivered.  Each part is a sequence of acts, with the effects that can be told
from the state it starts in, and a sequence of deeds, which can be told from the registers
and the vector of the trap (`Kernel.doing`).
-/

namespace Robu

/-- The section goes back to a thread through `sched_resume`. -/
def Label.Resumes : Label → Prop
  | .trap _ e => e.frame.vector.toNat ≠ 0x33
  | _ => False

instance : DecidablePred Label.Resumes
  | .trap .. => inferInstanceAs (Decidable (_ ≠ _))
  | .kern .. | .start _ => .isFalse id

def KernOp.grantee : KernOp → Option Tid
  | .kcapGrant owner .. | .vmCapGrant owner .. => some owner
  | .grantConsoleWriter tid | .grantConsoleDriver tid | .grantPagerOwner tid | .grantHwDriver tid
  | .grantHwDriverSecondary tid | .grantHwPortIoSecondary tid | .grantPciCfgSecondary tid =>
    some tid
  | _ => none

namespace Kernel

variable {F : Effects} {D : Doing} {c : Cpu} {env : Env} {e : Entry} {k k' k₁ k₂ : Kernel}
  {me t : Slot}

/-! ## Page faults -/

/-- A thread found is still found if a thread goes to a live state. -/
theorem schedGetTcb_setState {tid : Tid} {p u : Slot} {st : ThreadState}
    (h : k.schedGetTcb tid = some p) (hst : st ≠ .dead ∧ st ≠ .zombie) :
    (k.setState u st).schedGetTcb tid = some p := by
  obtain ⟨rfl, -⟩ := schedGetTcb_eq_some h
  rw [schedGetTcb_tid] at h ⊢
  rw [setState, modTcb_tcb]
  split
  · split at h
    · cases h
    · rename_i hp
      rw [not_or] at hp
      simp [hp.1, hst]
  · exact h

theorem does_abandonFault (hend : D.ends me) (hk : (k.tcb me).addressSpace ≠ 0 → F.kills me)
    (h : k.abandonFault c me = some k') : Does F D c k k' := by
  unfold abandonFault at h
  split at h
  · rename_i has
    obtain rfl := Option.some.inj h
    exact does_schedTerminateTo hend (.inl rfl) (.refl k) (.ends (.kill (hk has)))
  · cases h

def Paged (k : Kernel) (t : Slot) : Prop :=
  (k.tcb t).pagerTid ≠ 0 ∧ (k.schedGetTcb (k.tcb t).pagerTid).isSome
deriving Decidable

theorem does_vmHandlePageFault (hcur : k.current c = some me) {addr : Word} {error : BitVec 32}
    (hk : ¬ k.Paged me → D.ends me ∧ F.kills me) (hf : k.Paged me → F.faults me ∧ F.answers)
    (h : k.vmHandlePageFault c me addr error = some k') : Does F D c k k' := by
  unfold vmHandlePageFault at h
  split at h
  · rename_i h₀
    obtain ⟨hend, hkill⟩ := hk fun hp => hp.1 h₀
    exact does_abandonFault hend (fun _ => hkill) h
  rename_i h₀
  split at h
  · rename_i hnone
    obtain ⟨hend, hkill⟩ := hk fun hp => by rw [Paged, hnone] at hp; cases hp.2
    exact does_abandonFault hend (fun _ => hkill) h
  rename_i pager hpager
  obtain ⟨hfaults, may⟩ := hf ⟨h₀, by rw [hpager]; rfl⟩
  have hstall : Does F D c k (k.schedBlock me .waitPagefault) :=
    .edit (.stall hfaults hcur hpager) (.of_ne (s := .waitPagefault) rfl (by decide))
  refine hstall.trans ?_
  generalize hk₁ : k.schedBlock me .waitPagefault = k₁ at h
  have hme : k₁.tcb me = { k.tcb me with state := .waitPagefault } := by
    rw [← hk₁, schedBlock, setState, modTcb_tcb_self]
  have hpager₁ : k₁.schedGetTcb (k₁.tcb me).pagerTid = some pager := by
    rw [hme, ← hk₁]
    exact schedGetTcb_setState hpager (by decide)
  dsimp only at h
  split at h
  · rename_i haccepts
    cases h
    exact (does_hand may (.fault ⟨addr, error, me.tid⟩ haccepts)).to_alike
      ((alike_modTcb _ pager fun _ _ => by rfl).schedDirectSwitch c pager) (by rfl)
  · rename_i hbusy
    obtain ⟨-, rfl⟩ := faultQueuePush_eq_some h
    exact .act (.enqueue hfaults (by rwa [← hk₁]) rfl hpager₁ (by rw [hme]) hbusy h)
      ((Calm.refl k₁).rest (by rfl))

/-! ## The timer -/

theorem does_schedNoteDeadline (ht : D.ticks) (tick : Word) :
    Does F D c k (k.schedNoteDeadline tick) :=
  ⟨acts_schedNoteDeadline tick,
    .single (.time (.tick ht) ((Calm.refl k).requests.noteDeadline _)) (auth_schedNoteDeadline ..)⟩

theorem does_deadline (ht : D.ticks) (d : Word) : Does F D c k { k with nextDeadline := d } :=
  ⟨.single (.deadline d), .single (.time (.tick ht) { (Calm.refl k).requests with }) rfl⟩

theorem does_nowTicks (hd : D.ticks) (ht : F.ticks) (n : Word) :
    Does F D c k { k with nowTicks := k.nowTicks + n } :=
  ⟨.single (.tick n ht), .single (.time (.tick hd) { (Calm.refl k).requests with }) rfl⟩

theorem does_wakeSleeper (hd : D.ticks) (t : Slot) : Does F D c k (wakeSleeper c k t) := by
  unfold wakeSleeper
  split
  · exact .refl
  rename_i hsleeps
  split
  · exact does_schedWake fun _ => .alarm (not_not.mp hsleeps)
  · exact does_schedNoteDeadline hd _

theorem does_tickDeadlines (hd : D.ticks) (hn : F.notifies) (hhit : ¬ k.nowTicks < k.nextDeadline →
      k.TimersHit F.notified k.nowTicks (List.range k.timerCount))
    (h : k.tickDeadlines c = some k') : Does F D c k k' := by
  unfold tickDeadlines at h
  split at h
  · cases h; exact .refl
  rename_i hdue
  dsimp only at h
  have hsleepers : Does F D c k
    (tableSlots.foldl (wakeSleeper c) { k with nextDeadline := BitVec.allOnes 64 }) :=
    (does_deadline hd _).trans (does_foldl (fun _ t => does_wakeSleeper hd t) _)
  have hscan := k.ticked_sleepers (k.scope (.start c)) c
  generalize tableSlots.foldl (wakeSleeper c)
    ({ k with nextDeadline := BitVec.allOnes 64 } : Kernel) = k₂ at hsleepers hscan h
  split at h
  · cases h
  rename_i k₃ next hrescan
  cases h
  refine (hsleepers.trans ?_).trans (does_schedNoteDeadline hd _)
  unfold capTimerRescan at hrescan
  refine does_timerLoop hn hd List.nodup_range ?_ hrescan
  rw [hscan.timers.2, hscan.now]
  refine (hhit hdue).mono (fun i _ => congrFun hscan.timers.1 i) fun j w hw => ?_
  unfold notifWaiter at hw ⊢
  rwa [hscan.notifs, hscan.woke.lookup] at hw

theorem does_schedArmNextDeadline (ha : F.arms) : Does F D c k (k.schedArmNextDeadline c) :=
  .act (.arm _ ha) calm_schedArmNextDeadline

theorem does_schedTick (hd : c = 0 → D.ticks) (hn : F.notifies)
    (hw : ∀ w ∈ k.tickTargets c, F.notified w) (ht : c = 0 → F.ticks) (ha : F.arms)
    (h : k.schedTick c = some k') : Does F D c k k' := by
  unfold schedTick at h
  dsimp only at h
  split at h
  · cases h
  rename_i k₁ hticked
  cases h
  have hticks : Does F D c k k₁ := by
    split at hticked
    · rename_i hc
      subst hc
      exact (does_nowTicks (hd rfl) (ht rfl) _).trans (does_tickDeadlines (hd rfl) hn
        (fun hdue i hi huse harmed hd w hwait =>
          hw w (mem_tickTargets hdue hi huse harmed hd hwait)) hticked)
    · cases hticked; exact .refl
  exact (hticks.to_alike (alike_schedTickLocal ..) (by simp)).trans (does_schedArmNextDeadline ha)

/-! ## Returning to a thread -/

theorem does_requeueCurrent : Does F D c k (k.requeueCurrent c) := by
  unfold requeueCurrent
  split
  · exact .quiet (k.alike_modTcb _ fun i hi => by cases hi) rfl
  rename_i prev hprev
  dsimp only
  split
  · rename_i hruns
    have hpreempt : Does F D c k (k.setState prev .ready) :=
      .edit (.preempt hprev hruns) (.of_ne (s := .ready) rfl (by decide))
    split
    · exact hpreempt.to_alike (alike_rqPush _ _) (by simp)
    · exact hpreempt
  · split
    · exact .quiet (alike_rqPush _ _) (by simp)
    · exact .refl

theorem does_schedule (h : k.schedule c = some k') : Does F D c k k' := by
  unfold schedule at h
  split at h
  · cases h
  rename_i popped k₁ hpop
  cases h
  obtain ⟨hpopped, hready⟩ := alike_rqPopLoop hpop
  have hrequeue : Does F D c k (k.drainInbox.requeueCurrent c) :=
    (Does.quiet (alike_drainInbox k) (by simp)).trans does_requeueCurrent
  refine (hrequeue.to_alike hpopped (auth_rqPopLoop hpop)).trans
    ⟨Acts.to_alike (.single (.pick popped hready)) ?_, ?_⟩
  · unfold dispatch
    dsimp only
    cases popped with
    | none =>
      have hidle : k₁.Alike ((k₁.setState (.idle c) .running).refreshTimeslice (.idle c)) :=
        (k₁.alike_modTcb _ fun i hi => by cases hi).trans (alike_modTcb _ _ fun i hi => by cases hi)
      exact { hidle with current := by rw [hidle.current] }
    | some u =>
      have hslice : (k₁.setState u .running).Alike ((k₁.setState u .running).refreshTimeslice u) :=
        alike_modTcb _ _ fun i _ => rfl
      exact { hslice with current := by rw [hslice.current]; rfl }
  · have hrun : ∀ next, k₁.Calm ((k₁.setState next .running).refreshTimeslice next) := fun next =>
      (calm_setState _ (by decide) (by decide)).trans (calm_modTcb _ (.of_state rfl rfl rfl))
    refine Calm.works ?_
    unfold dispatch
    exact (hrun _).rest rfl

theorem does_reschedule (ha : F.arms) {prev : TcbRef} (h : k.reschedule c prev = some k') :
    Does F D c k k' := by
  unfold reschedule at h
  split at h
  · cases h
  rename_i hs
  cases h
  exact ((does_schedule hs).trans (does_schedArmNextDeadline ha)).to_alike (alike_schedSwitchTo ..)
    (by simp)

theorem does_schedStart (ha : F.arms) (h : k.schedStart c = some k') : Does F D c k k' := by
  unfold schedStart at h
  split at h
  · cases h
  rename_i k₁ hs
  cases h
  have hload : k₁.Alike { k₁ with
      hw := Function.update k₁.hw c (k₁.savedCtx (k₁.cur c))
      started := Function.update k₁.started c true } := { Alike.refl k₁ with }
  exact ((does_schedule hs).to_alike hload rfl).trans (does_schedArmNextDeadline ha)

theorem does_sigTryDeliver (hcur : k.current c = some me) (hruns : (k.tcb me).state = .running)
    (hx : FatalPending (k.tcb me) → D.ends me ∧ F.exits me) :
    Does F D c k (k.sigTryDeliver c me) := by
  have hack : ∀ mark, Does F D c k (k.ack me mark) := fun _ =>
    .edit (.ack _ hcur hruns) (.of_state rfl rfl rfl)
  have hcur₁ : ∀ mark, (k.ack me mark).current c = some me := fun _ => hcur
  have hself : ∀ mark, (k.ack me mark).tcb me = _ := fun _ => k.modTcb_tcb_self me _
  have hdelivers := k.delivers_sigTryDeliver c me
  generalize k.sigTryDeliver c me = k' at hdelivers ⊢
  cases hdelivers with
  | none => exact .refl
  | ack mark => exact hack mark
  | exit mark status pending fatal =>
    obtain ⟨hend, hexits⟩ := hx ⟨_, pending, fatal⟩
    exact (hack mark).trans
      (does_spawnExitCurrent hend hexits (hcur₁ mark) (fun _ => by rw [hself]; exact hruns) _)
  | handler mark _ _ _ _ _ free =>
    exact (hack mark).trans (.edit (.handler _ _ _ _ _ (hcur₁ mark) (by rw [hself]; exact hruns)
      (by rw [hself]; exact free)) (.of_state rfl rfl rfl))

def diesOfSignal (k : Kernel) (c : Cpu) : Prop :=
  ∃ next ∈ k.current c, signalDue (k.tcb next) ∧
    ((k.sigTryDeliver c next).tcb next).state ≠ .running
deriving Decidable

theorem curRuns_reschedule {prev : TcbRef} (h : k.reschedule c prev = some k') : k'.CurRuns c := by
  unfold reschedule at h
  split at h
  · cases h
  rename_i k₁ hsched
  cases h
  obtain ⟨next, -, hcore⟩ := core_schedule hsched
  have hswitch := (k₁.schedArmNextDeadline c).alike_schedSwitchTo c prev
    ((k₁.schedArmNextDeadline c).cur c)
  have hrun : ∀ t, k₁.core.current c = some t → k₁.core.state t = .running := by
    rw [hcore]
    intro t ht
    have hnext : (k.core.dispatch c next).current c = next := Function.update_self ..
    obtain rfl : next = some t := hnext.symm.trans ht
    exact Function.update_self t ThreadState.running (k.core.requeued c)
  intro t ht
  exact (hswitch.state t).trans (hrun t ((congrFun hswitch.current c).symm.trans ht))

theorem does_deliverLoop {fuel : Nat} (hr : k.CurRuns c) (hs : ∀ t, ¬ F.signals t)
    (hx : ∀ t : Slot, FatalPending (k.tcb t) → D.ends t ∧ F.exits t)
    (ha : k.diesOfSignal c → F.arms) (h : deliverLoop c fuel k = some k') : Does F D c k k' := by
  induction fuel generalizing k with
  | zero => cases h
  | succ fuel ih =>
    unfold deliverLoop at h
    split at h
    · cases h; exact .refl
    rename_i next hnext
    split at h
    · rename_i hdue
      have hdeliver : Does F D c k (k.sigTryDeliver c next) :=
        does_sigTryDeliver hnext (hr next hnext) (hx next)
      dsimp only at h
      split at h
      · cases h; exact hdeliver
      rename_i hdead
      have harms : F.arms := ha ⟨next, hnext, hdue, hdead⟩
      split at h
      · cases h
      rename_i k₂ hres
      have hk₂ : Does F D c k k₂ := hdeliver.trans (does_reschedule harms hres)
      exact hk₂.trans (ih (curRuns_reschedule hres)
        (fun t ht => hx t ((hk₂.acts.fatalPending ht).resolve_right (hs t))) (fun _ => harms) h)
    · cases h; exact .refl

/-! ## Effects -/

def quietEffects (k : Kernel) : Effects where
  caller := none
  live := True
  before t := (k.tcb t).state
  takes _ := False
  answers := False
  signals _ := False
  kills _ := False
  exits _ := False
  awaits _ := False
  faults _ := False
  creates := False
  reaps := False
  grants _ := False
  notifies := False
  watches := False
  notified _ := False
  ticks := False
  arms := False

/-- `sched_resume` programs the timer. -/
def resumeArms (k : Kernel) (c : Cpu) : Prop :=
  k.needResched c = true ∨ (k.tcb (k.cur c)).state ≠ .running ∨ k.diesOfSignal c
deriving Decidable

def resumeEffects (k : Kernel) (c : Cpu) : Effects :=
  { k.quietEffects with
    exits := fun t => FatalPending (k.tcb t)
    arms := k.resumeArms c }

def tickEffects (k : Kernel) (c : Cpu) : Effects :=
  { k.quietEffects with
    notifies := True
    notified := fun t => t ∈ k.tickTargets c
    ticks := c = 0
    arms := True }

def faultEffects (k : Kernel) (cur : Slot) (page : Prop) : Effects :=
  { k.quietEffects with
    answers := page ∧ k.Paged cur
    faults := fun t => t = cur ∧ page ∧ k.Paged cur
    kills := fun t => t = cur ∧ ¬ (page ∧ k.Paged cur) }

def trapEffects (k : Kernel) (c : Cpu) (e : Entry) : Effects :=
  let vector := e.frame.vector.toNat
  if 32 ≤ vector ∧ vector < 48 ∧ e.irqHandled then k.quietEffects
  else if vector = 32 then k.tickEffects c
  else if vector = 0x31 then k.quietEffects
  else
    match k.current c with
    | none => k.quietEffects
    | some cur => if vector = 0x30 then k.callEffects c cur else k.faultEffects cur (vector = 14)

def kernEffects (k : Kernel) (op : KernOp) : Effects :=
  { k.quietEffects with
    answers := True
    creates := True
    grants := fun kind => ∃ owner addr size, op = .kcapGrant owner kind addr size }

theorem curRuns_of_cur (h : (k.tcb (k.cur c)).state = .running) : k.CurRuns c := by
  intro t ht
  have hcur : k.cur c = .thread t := by
    unfold cur
    rw [show k.current c = some t from ht]
  rwa [hcur] at h

def wayBack (k : Kernel) (l : Label) : Doing :=
  { Doing.quiet with ends := fun t => l.Resumes ∧ FatalPending (k.tcb t) }

theorem does_schedResume {l : Label} (hl : l.Resumes) (h : k.schedResume c = some k') :
    Does (k.resumeEffects c) (k.wayBack l) c k k' := by
  unfold schedResume at h
  dsimp only at h
  have hs : ∀ t, ¬ (k.resumeEffects c).signals t := fun _ => id
  have hx : ∀ t : Slot, FatalPending (k.tcb t) → (k.wayBack l).ends t ∧
    (k.resumeEffects c).exits t :=
    fun _ ht => ⟨⟨hl, ht⟩, ht⟩
  split at h
  · cases h
  rename_i k₁ hres
  split at hres
  · rename_i hneed
    have harms : (k.resumeEffects c).arms := hneed.imp_right .inl
    have hk₁ : Does (k.resumeEffects c) (k.wayBack l) c k k₁ := does_reschedule harms hres
    exact hk₁.trans (does_deliverLoop (curRuns_reschedule hres) hs
      (fun t ht => hx t ((hk₁.acts.fatalPending ht).resolve_right (hs t))) (fun _ => harms) h)
  · rename_i hno
    rw [not_or, not_not] at hno
    cases hres
    exact does_deliverLoop (curRuns_of_cur hno.2) hs hx (fun hd => .inr (.inr hd)) h

def trapDoing (k : Kernel) (c : Cpu) (e : Entry) : Doing :=
  let vector := e.frame.vector.toNat
  if 32 ≤ vector ∧ vector < 48 ∧ e.irqHandled then .quiet
  else if vector = 32 then { Doing.quiet with ticks := c = 0 }
  else if vector = 0x31 then .quiet
  else
    match k.current c with
    | none => .quiet
    | some cur =>
      if vector = 0x30 then k.callDoing c cur
      else { Doing.quiet with ends := (k.faultEffects cur (vector = 14)).kills }

theorem does_trapHandler (h : k.trapHandler c e = some k') :
    Does (k.trapEffects c e) (k.trapDoing c e) c k k' := by
  unfold trapHandler at h
  unfold trapEffects trapDoing
  dsimp only at h ⊢
  split at h
  · cases h
    exact .refl
  rename_i hirq
  rw [if_neg hirq, if_neg hirq]
  split at h
  · rename_i hv
    rw [if_pos hv, if_pos hv]
    exact does_schedTick (F := k.tickEffects c) id trivial (fun _ => id) id trivial h
  rename_i hv
  rw [if_neg hv, if_neg hv]
  split at h
  · rename_i hkick
    cases h
    rw [if_pos hkick]
    exact .quiet (alike_requestResched k c) rfl
  rename_i hkick
  rw [if_neg hkick, if_neg hkick]
  cases hcur : k.current c with
  | none => simp only [hcur] at h; cases h
  | some cur =>
    simp only [hcur] at h ⊢
    split at h
    · rename_i hcall
      rw [if_pos hcall, if_pos hcall]
      exact (does_sysIpc hcur h).mono (k.exactEffects_le c cur)
    rename_i hcall
    rw [if_neg hcall, if_neg hcall]
    split at h
    · rename_i hpage
      have hkill : ¬ k.Paged cur → (k.faultEffects cur (e.frame.vector.toNat = 14)).kills cur :=
        fun hp => ⟨rfl, fun hp' => hp hp'.2⟩
      exact does_vmHandlePageFault hcur (fun hp => ⟨hkill hp, hkill hp⟩)
        (fun hp => ⟨⟨rfl, hpage, hp⟩, hpage, hp⟩) h
    · rename_i hpage
      have hkill : (k.faultEffects cur (e.frame.vector.toNat = 14)).kills cur :=
        ⟨rfl, fun hp' => hpage hp'.1⟩
      exact does_abandonFault hkill (fun _ => hkill) h

/-! ## Sections -/

def entered (k : Kernel) : Label → Kernel
  | .trap c e => k.enter c e
  | _ => k

theorem sameTables_entered (k : Kernel) (l : Label) : k.SameTables (k.entered l) := by
  cases l <;> exact ⟨rfl, rfl, rfl, rfl, rfl, rfl, rfl, rfl⟩

theorem entered_field {β : Type} (k : Kernel) (l : Label) (i : Slot) (π : Tcb → β)
    (hπ : ∀ (x : Tcb) f, π { x with uctx := f } = π x) : π ((k.entered l).tcb i) = π (k.tcb i) := by
  cases l with
  | kern | start => rfl
  | trap c e =>
    rw [entered, enter]
    exact congrFun (modUctx_view _ _ _ hπ) i

theorem state_entered (k : Kernel) (l : Label) (t : Slot) :
    ((k.entered l).tcb t).state = (k.tcb t).state :=
  entered_field k l t Tcb.state fun _ _ => rfl

theorem lives_entered (k : Kernel) (l : Label) (t : Slot) : (k.entered l).Lives t ↔ k.Lives t := by
  rw [Lives, Lives, state_entered]

theorem entered_schedGetTcb (k : Kernel) (l : Label) (tid : Tid) :
    (k.entered l).schedGetTcb tid = k.schedGetTcb tid := by
  unfold schedGetTcb
  simp only [state_entered]

def effects (k : Kernel) : Label → Effects
  | .kern _ op => k.kernEffects op
  | .start _ => { k.quietEffects with arms := True }
  | .trap c e =>
    -- a TLB shootdown touches no thread
    if e.frame.vector.toNat = 0x33 then
      (k.enter c e).quietEffects else (k.enter c e).trapEffects c e

def doing (k : Kernel) : Label → Doing
  | .kern _ (.submitPoll _) => { Doing.quiet with accepts := True }
  | .kern _ (.finishPoll _ _) => { Doing.quiet with collects := True }
  | .kern _ (.setExt2fsTid _) => { Doing.quiet with registers := True }
  | .kern _ _ | .start _ => .quiet
  | .trap c e => if e.frame.vector.toNat = 0x33 then .quiet else (k.enter c e).trapDoing c e

/-- **Handlers.**  What a trap does is what one of four kinds of handlers does. -/
inductive Handling (k : Kernel) : Label → Effects → Doing → Prop
  | kern (c : Cpu) (op : KernOp) : Handling k (.kern c op) (k.kernEffects op) (k.doing (.kern c op))
  | start (c : Cpu) : Handling k (.start c) { k.quietEffects with arms := True } .quiet
  | quiet {c : Cpu} {e : Entry} : Handling k (.trap c e) (k.enter c e).quietEffects .quiet
  | tick {c : Cpu} {e : Entry} (timer : e.frame.vector.toNat = 32 ∧ e.irqHandled = false) :
      Handling k (.trap c e) ((k.enter c e).tickEffects c) { Doing.quiet with ticks := c = 0 }
  | call {c : Cpu} {e : Entry} {cur : Slot} (vector : e.frame.vector.toNat = 0x30)
      (current : k.current c = some cur) :
      Handling k (.trap c e) ((k.enter c e).callEffects c cur) ((k.enter c e).callDoing c cur)
  | fault {c : Cpu} {e : Entry} {cur : Slot} (page : Prop) (current : k.current c = some cur) :
      Handling k (.trap c e) ((k.enter c e).faultEffects cur page)
        { Doing.quiet with ends := ((k.enter c e).faultEffects cur page).kills }

theorem handling_effects (k : Kernel) (l : Label) : Handling k l (k.effects l) (k.doing l) := by
  cases l with
  | kern c op => exact .kern c op
  | start c => exact .start c
  | trap c e =>
    unfold effects trapEffects doing trapDoing
    dsimp only
    split
    · exact .quiet
    split
    · exact .quiet
    rename_i hirq
    split
    · rename_i hv
      refine .tick ⟨hv, ?_⟩
      by_contra hne
      exact hirq ⟨by omega, by omega, by simpa using hne⟩
    split
    · exact .quiet
    cases hcur : (k.enter c e).current c with
    | none => exact .quiet
    | some cur =>
      dsimp only
      split
      · rename_i hcall
        exact .call hcall hcur
      · exact .fault _ hcur

/-! ## Deciding effects -/

section Decide

variable {π : Effects → Prop}

def decidableIte {p : Prop} [Decidable p] {A B : Effects} (a : Decidable (π A))
    (b : Decidable (π B)) : Decidable (π (if p then A else B)) :=
  if h : p then decidable_of_iff (π A) (by rw [if_pos h])
  else decidable_of_iff (π B) (by rw [if_neg h])

def decidableMatch {A : Effects} {B : Slot → Effects} (a : Decidable (π A))
    (b : ∀ t, Decidable (π (B t))) : (o : Option Slot) →
      Decidable (π (match o with | none => A | some t => B t))
  | none => a
  | some t => b t

/-- What can be decided for each kind of handler can be decided for every section. -/
def decidableEffects (call : ∀ (k : Kernel) c cur, Decidable (π (k.callEffects c cur)))
    (fault : ∀ (k : Kernel) cur page, Decidable page → Decidable (π (k.faultEffects cur page)))
    (k : Kernel) (l : Label)
    (tick : ∀ (k : Kernel) c, Decidable (π (k.tickEffects c)) := by exact fun _ _ => .isFalse id)
    (kern : ∀ (k : Kernel) op, Decidable (π (k.kernEffects op)) := by exact fun _ _ => .isFalse id)
    (quiet : ∀ k : Kernel, Decidable (π k.quietEffects) := by exact fun _ => .isFalse id)
    (start : ∀ k : Kernel, Decidable (π { k.quietEffects with arms := True }) := by
      exact fun _ => .isFalse id) : Decidable (π (k.effects l)) :=
  match l with
  | .kern _ op => kern k op
  | .start _ => start k
  | .trap c _ =>
    decidableIte (quiet _) <| decidableIte (quiet _) <| decidableIte (tick _ c) <|
      decidableIte (quiet _) <|
      decidableMatch (quiet _)
        (fun cur => decidableIte (call _ c cur) (fault _ cur _ inferInstance)) _

end Decide

instance (k : Kernel) (l : Label) (t : Slot) : Decidable ((k.effects l).kills t) :=
  decidableEffects (π := fun F => F.kills t)
    (fun k c cur => inferInstanceAs (Decidable (t ∈ k.destroyed c cur)))
    (fun k cur _ _ => inferInstanceAs (Decidable (t = cur ∧ ¬ (_ ∧ k.Paged cur)))) k l

instance (k : Kernel) (l : Label) (t : Slot) : Decidable ((k.effects l).exits t) :=
  decidableEffects (π := fun F => F.exits t)
    (fun k _ cur => inferInstanceAs (Decidable (decode (k.tcb cur).uctx = .exit ∧ t = cur)))
    (fun _ _ _ _ => .isFalse id) k l

instance (k : Kernel) (l : Label) (t : Slot) : Decidable ((k.effects l).signals t) :=
  decidableEffects (π := fun F => F.signals t)
    (fun k _ cur => inferInstanceAs
      (Decidable (decode (k.tcb cur).uctx = .sysInfo ∧ t ∈ k.infoTargets cur)))
    (fun _ _ _ _ => .isFalse id) k l

instance (k : Kernel) (l : Label) (t : Slot) : Decidable ((k.effects l).faults t) :=
  decidableEffects (π := fun F => F.faults t) (fun _ _ _ => .isFalse id)
    (fun k cur _ _ => inferInstanceAs (Decidable (t = cur ∧ _ ∧ k.Paged cur))) k l

instance (k : Kernel) (l : Label) (t : Slot) : Decidable ((k.effects l).notified t) :=
  decidableEffects (π := fun F => F.notified t)
    (fun k _ cur => inferInstanceAs
      (Decidable (decode (k.tcb cur).uctx = .notifySignal ∧ t ∈ k.callTargets cur)))
    (fun _ _ _ _ => .isFalse id) k l fun k c => inferInstanceAs (Decidable (t ∈ k.tickTargets c))

/-- The kernel operation grants a capability of this kind for an object of its choice. -/
def grantsKind (op : KernOp) (kind : CapKind) : Bool :=
  match op with
  | .kcapGrant _ kind' _ _ => kind' = kind
  | _ => false

instance (k : Kernel) (l : Label) (kind : CapKind) : Decidable ((k.effects l).grants kind) :=
  decidableEffects (π := fun F => F.grants kind) (fun _ _ _ => .isFalse id)
    (fun _ _ _ _ => .isFalse id) k l (fun _ _ => .isFalse id)
    fun _ op => decidable_of_iff (grantsKind op kind) (by
      constructor
      · intro h
        unfold grantsKind at h
        split at h
        · rename_i owner kind' addr size
          exact ⟨owner, addr, size, by rw [of_decide_eq_true h]⟩
        · cases h
      · rintro ⟨owner, addr, size, rfl⟩
        simp [grantsKind])

def handled (k : Kernel) : Label → Option Kernel
  | .kern c op => some (k.runKernOp c op)
  | .start c => k.schedStart c
  | .trap c e =>
    if e.frame.vector.toNat = 0x33 then some (k.enter c e) else (k.enter c e).trapHandler c e

structure KernDoes (c : Cpu) (k : Kernel) (op : KernOp) (k' : Kernel) : Prop where
  acts : Acts (k.kernEffects op) c k k'
  deeds : k.PollsOwn → Deeds (k.doing (.kern c op)) k k'
  grants : op.grantee = none → Grants ∅ k k'

theorem Does.kern {op : KernOp} (h : Does (k.kernEffects op) (k.doing (.kern c op)) c k k') :
    KernDoes c k op k' := ⟨h.acts, fun _ => h.works.deeds, fun _ => h.works.grants⟩

theorem KernDoes.of_grantee {op : KernOp} {tid : Tid} (hg : op.grantee = some tid)
    (acts : Acts (k.kernEffects op) c k k') (deeds : Deeds (k.doing (.kern c op)) k k') :
    KernDoes c k op k' := by
  refine ⟨acts, fun _ => deeds, fun hno => ?_⟩
  rw [hg] at hno
  cases hno

/-- Kernel code outside traps acts within its effects. -/
theorem kernDoes_runKernOp (op : KernOp) : KernDoes c k op (k.runKernOp c op) := by
  have hm : k.Makes (k.kernEffects op) := ⟨trivial, fun _ ht => ht⟩
  cases op with
  | threadCreate | threadCreateUser | threadCreateUserArgv =>
    exact map_getD_of (P := KernDoes c k _) Does.refl.kern fun r h =>
      (does_createThread hm h fun _ => rfl).kern
  | submitPoll params =>
    exact getD_of (P := KernDoes c k _) Does.refl.kern fun k₁ h =>
      (does_execreqSubmitPoll trivial id trivial h).kern
  | finishPoll slot generation =>
    refine ⟨?_, fun hpoll => (works_execreqFinishPollSpawn trivial hpoll slot generation).deeds,
      fun _ => .of_auth ?_⟩
    all_goals
      simp only [runKernOp, execreqFinishPollSpawn]
      split
    · exact .refl
    · exact acts_freeSlot slot
    · rfl
    · rfl
  | yield => exact (Does.quiet (alike_requestResched k c) rfl).kern
  | kcapGrant owner kind addr size =>
    refine getD_of (P := KernDoes c k _) Does.refl.kern fun k₁ hgrant => ?_
    have hgives := kcapGrant_eq hgrant
    refine .of_grantee rfl (acts_gives (fun hkind => .inr ?_) (.inr hgives))
      ((Steady.refl k).gives (.inr hgives)).deeds
    subst hkind
    exact ⟨owner, addr, size, rfl⟩
  | capRetype env caller untypedSlot kind asSlot entry stack frameSlot =>
    exact (does_capRetype (fun _ => hm) ..).kern
  | vmCapGrant owner base count perms =>
    dsimp only [runKernOp]
    split
    · exact Does.refl.kern
    · exact .of_grantee rfl (.quiet { Alike.refl k with }) ((Steady.refl k).rest (by rfl)).deeds
  | grantConsoleWriter | grantConsoleDriver | grantHwDriver | grantHwDriverSecondary
  | grantHwPortIoSecondary | grantPciCfgSecondary =>
    exact .of_grantee rfl (.quiet { Alike.refl k with }) ((Steady.refl k).rest (by rfl)).deeds
  | grantPagerOwner tid =>
    exact .of_grantee rfl (.single (.services k.ext2fsTid tid))
      ((Steady.refl k).rest (by rfl)).deeds
  | setExt2fsTid tid =>
    exact ⟨.single (.services tid k.pagerOwnerTid),
      fun _ => .single (.register trivial { (Calm.refl k).times with } rfl rfl), fun _ =>
        .of_auth rfl⟩

/-- **Traps.**  A trap is its handler followed by the way back to a thread, for which nothing
of note is left to do.  No tid gains authority by it. -/
theorem does_trapDispatch {e : Entry} (h : k.trapDispatch c e = some k') :
    ∃ k₁, k.handled (.trap c e) = some k₁ ∧
      Does (k.effects (.trap c e)) (k.doing (.trap c e)) c (k.enter c e) k₁ ∧
      Does (k₁.resumeEffects c) (k₁.wayBack (.trap c e)) c k₁ k' ∧
        (Label.Resumes (.trap c e) ∨ k' = k₁) := by
  unfold trapDispatch at h
  dsimp only [effects, doing, handled] at h ⊢
  split at h
  · cases h
  split at h
  · rename_i hv
    cases h
    exact ⟨_, if_pos hv, .refl, .refl, .inr rfl⟩
  rename_i hv
  rw [if_neg hv, if_neg hv, if_neg hv]
  split at h
  · cases h
  rename_i k₁ hhandler
  exact ⟨k₁, hhandler, does_trapHandler hhandler, does_schedResume hv h, .inl hv⟩

/-- **Sections.**  A section is its handler followed by the way back to a thread. -/
theorem acts_step {l : Label} (h : k.step l = some k') :
    ∃ k₁, k.handled l = some k₁ ∧ Acts (k.effects l) l.cpu (k.entered l) k₁ ∧
      Acts (k₁.resumeEffects l.cpu) l.cpu k₁ k' ∧ (l.Resumes ∨ k' = k₁) := by
  cases l with
  | kern c op =>
    cases h
    exact ⟨_, rfl, (kernDoes_runKernOp op).acts, .refl, .inr rfl⟩
  | start c =>
    simp only [step] at h
    split at h
    · cases h
    · exact ⟨k', h, (does_schedStart (D := .quiet) trivial h).acts, .refl, .inr rfl⟩
  | trap c e =>
    simp only [step] at h
    split at h
    · obtain ⟨k₁, hhandled, hhandler, hback, hresumes⟩ := does_trapDispatch h
      exact ⟨k₁, hhandled, hhandler.acts, hback.acts, hresumes⟩
    · cases h

/-- The effects of a section as a whole.  Besides what the handler does, threads may exit
by signals on the way back. -/
def sectionEffects (k : Kernel) (l : Label) : Effects :=
  { k.effects l with
    exits := fun t => (k.effects l).exits t ∨
      (l.Resumes ∧ (FatalPending (k.tcb t) ∨ (k.effects l).signals t))
    arms := True }

theorem effects_le (k : Kernel) (l : Label) : (k.effects l).Le (k.sectionEffects l) :=
  { Effects.Le.refl (k.effects l) with
    exits := fun _ => .inl
    arms := fun _ => trivial }

theorem resumeEffects_le {l : Label} (hacts : Acts (k.effects l) l.cpu (k.entered l) k')
    (hl : l.Resumes) : (k'.resumeEffects l.cpu).Le (k.sectionEffects l) where
  caller _ hc := by cases hc
  live _ := trivial
  before hF := by rcases hF with hF | ⟨_, hF⟩ <;> exact hF.elim
  takes _ := False.elim
  answers := False.elim
  signals _ := False.elim
  kills _ := False.elim
  exits t ht := by
    refine .inr ⟨hl, (hacts.fatalPending ht).imp_left fun hp => ?_⟩
    rwa [FatalPending, entered_field k l t Tcb.sigPending fun _ _ => rfl] at hp
  awaits _ := False.elim
  faults _ := False.elim
  creates := False.elim
  reaps := False.elim
  grants _ := False.elim
  notifies := False.elim
  watches := False.elim
  notified _ := False.elim
  ticks := False.elim
  arms _ := trivial

/-- **Sections.**  A section is a sequence of acts. -/
theorem acts_section {l : Label} (h : k.step l = some k') :
    Acts (k.sectionEffects l) l.cpu (k.entered l) k' := by
  obtain ⟨k₁, -, hhandler, hresume, hback⟩ := acts_step h
  have hfirst := hhandler.mono (k.effects_le l)
  rcases hback with hresumes | rfl
  · exact hfirst.trans (hresume.mono (resumeEffects_le hhandler hresumes))
  · exact hfirst

end Kernel

end Robu
