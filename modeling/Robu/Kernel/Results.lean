import Robu.Kernel.Waiting

/-!
# Results of blocking calls

A thread that waits for a message, a notification, the end of a child or the reply to a
request is resumed with a frame in which the event that ended the wait has written the
result.  `Stage` says how far a thread has come on its way out of a wait.
-/

namespace Robu

/-- The thread waits for a message, a notification, a child or the reply to a request. -/
def ThreadState.Awaits (s : ThreadState) : Prop :=
  s ∈ [.waitRecv, .waitNotification, .waitChild, .waitExecreq]
deriving Decidable

def ThreadState.Gone (s : ThreadState) : Prop := s = .dead ∨ s = .zombie
deriving Decidable

def ThreadState.Runnable (s : ThreadState) : Prop := s = .ready ∨ s = .running
deriving Decidable

namespace Tcb

variable {x y : Tcb} {f : Uctx} {b : Bool}

/-- **Results.**  The frames with which a wait ends, by what the thread waits for.  The flag
says whether the frame is one of a signal handler. -/
inductive Result (x : Tcb) : Uctx → Bool → Prop
  | message (waits : x.state = .waitRecv) (sender : Tid) (m : MsgRegs) :
      Result x (Kernel.messageRegs sender m x.uctx) x.inSigHandler
  | fault (waits : x.state = .waitRecv) (msg : FaultMsg) :
      Result x (Kernel.faultRegs x.uctx msg) x.inSigHandler
  /-- A request to load a program, for the file server. -/
  | request (waits : x.state = .waitRecv) (i : Fin 8) (generation : BitVec 16)
    (name : List (BitVec 8)) :
      Result x (Kernel.bulkReadRegs x.uctx i generation name) x.inSigHandler
  /-- The thread it waits for is gone. -/
  | gone (waits : x.state = .waitRecv) : Result x (notFound x.uctx) x.inSigHandler
  | bits (waits : x.state = .waitNotification) (word : Word) :
      Result x { x.uctx with r8 := word, rax := IpcErr.none.toWord } x.inSigHandler
  | child (waits : x.state = .waitChild) (child : Slot) (status : BitVec 32) :
      Result x (Kernel.childRegs child status x.uctx) x.inSigHandler
  | exec (waits : x.state = .waitExecreq) (e : IpcErr) :
      Result x { x.uctx with rax := e.toWord } x.inSigHandler
  /-- The status of a spawn request with the child. -/
  | spawn (waits : x.state = .waitExecreq) (e : IpcErr) (child : Word) :
      Result x { x.uctx with rax := e.toWord, r8 := child } x.inSigHandler
  | image (waits : x.state = .waitExecreq) (image : Kernel.Image) : Result x image.uctx false

structure Held (x y : Tcb) : Prop where
  state : y.state = x.state
  uctx : y.uctx = x.uctx
  inSigHandler : y.inSigHandler = x.inSigHandler

theorem Held.trans {x y z : Tcb} (h : x.Held y) (h' : y.Held z) : x.Held z :=
  ⟨h'.state.trans h.state, h'.uctx.trans h.uctx, h'.inSigHandler.trans h.inSigHandler⟩

/-- The thread goes on with this frame, after a signal handler if it has just entered one. -/
def Returns (f : Uctx) (inHandler : Bool) (y : Tcb) : Prop :=
  y.uctx = f ∧ y.inSigHandler = inHandler ∨
    inHandler = false ∧ y.inSigHandler = true ∧ y.savedUctxBeforeSig = f

structure SameFrame (x y : Tcb) : Prop where
  uctx : y.uctx = x.uctx
  inSigHandler : y.inSigHandler = x.inSigHandler
  saved : y.savedUctxBeforeSig = x.savedUctxBeforeSig

theorem SameFrame.of_body (h : y.body = x.body) : x.SameFrame y :=
  ⟨(congrArg Tcb.uctx h :), (congrArg Tcb.inSigHandler h :), (congrArg Tcb.savedUctxBeforeSig h :)⟩

theorem SameFrame.returns (h : x.SameFrame y) (hx : x.Returns f b) : y.Returns f b := by
  unfold Returns
  rw [h.uctx, h.inSigHandler, h.saved]
  exact hx

theorem Held.refl (x : Tcb) : x.Held x := ⟨rfl, rfl, rfl⟩

theorem Result.awaits (h : x.Result f b) : x.state.Awaits := by
  have hs : ∀ {s : ThreadState}, x.state = s → s.Awaits → x.state.Awaits := fun heq hs => heq ▸ hs
  cases h with
  | message waits | fault waits | request waits | gone waits | bits waits | child waits | exec waits
  | spawn waits | image waits => exact hs waits (by decide)

/-- **Stages.**  What has become of the call in which the thread `x` waited. -/
inductive Stage (x y : Tcb) : Prop
  | waits (held : x.Held y)
  | resumed {f : Uctx} {inHandler : Bool} (result : x.Result f inHandler)
    (runnable : y.state.Runnable)
      (returns : y.Returns f inHandler)
  | ended (gone : y.state.Gone)

end Tcb

/-! ## Threads the section is not about -/

/-- The section is not the call or the fault of the thread, does not complete its send, and
does not create it. -/
structure Effects.Passive (F : Effects) (i : Slot) : Prop where
  caller : F.caller ≠ some i
  takes : ¬ F.takes i
  faults : ¬ F.faults i
  created : F.creates → F.before i ≠ .dead

theorem Effects.Sound.passive {F : Effects} {st : Slot → ThreadState} {i : Slot} (h : F.Sound st)
    (hrun : st i ≠ .running) (hsend : st i ≠ .waitSend) (hdead : st i ≠ .dead) : F.Passive i where
  caller hc := hrun (h.caller i hc)
  takes ht := hsend (h.takes i ht)
  faults hf := hrun (h.faults i hf)
  created hm := by rwa [h.before (.inl hm)]

namespace Kernel

variable {F : Effects} {c : Cpu} {k : Kernel} {i t : Slot} {x y : Tcb} {f : Uctx} {b : Bool}

/-! ## Threads that have ended -/

theorem not_asleep_of_gone (hg : (k.tcb i).state.Gone) : ¬ k.Asleep i := by
  intro ha
  rcases hg with hs | hs
  · exact ha.1 hs
  · exact ha.2.2 hs

theorem schedGetTcb_ne_of_gone (hg : (k.tcb i).state.Gone) {tid : Tid} :
    k.schedGetTcb tid ≠ some i := by
  intro h
  have hl := (schedGetTcb_eq_some h).2
  exact hg.elim hl.1 hl.2

theorem notifWaiter_ne_of_gone (hg : (k.tcb i).state.Gone) {idx : Nat} :
    k.notifWaiter idx ≠ some i := by
  unfold notifWaiter
  split
  · exact fun h => by cases h
  · exact schedGetTcb_ne_of_gone hg

/-! ## What becomes of such a thread -/

/-- **Passive turns.**  What an act does to a thread that it is not about, and that was `x` when
its call began. -/
inductive PassiveTurn (F : Effects) (k : Kernel) (i : Slot) (x y : Tcb) : Prop
  | kept (state : y.state = (k.tcb i).state) (frame : (k.tcb i).SameFrame y)
  /-- It is preempted or goes on, after a sleep or a page fault. -/
  | goesOn {s : ThreadState} (was : (k.tcb i).state = s) (other : ¬ s.Awaits ∧ ¬ s.Gone)
      (runnable : y.state.Runnable) (frame : (k.tcb i).SameFrame y)
  | signalled (signals : F.signals i)
    (state : y.state = if k.Asleep i then .ready else (k.tcb i).state)
      (frame : (k.tcb i).SameFrame y)
  | handler (runs : (k.tcb i).state = .running) (free : (k.tcb i).inSigHandler = false)
      (state : y.state = .running) (inSigHandler : y.inSigHandler = true)
      (saved : y.savedUctxBeforeSig = (k.tcb i).uctx)
  | interrupted (waits : (k.tcb i).state = .waitConsole)
  /-- It gets the result it waits for. -/
  | resumed {f : Uctx} {b : Bool} (result : x.Result f b)
      (why : (k.tcb i).state = .waitRecv ∨ (k.tcb i).state = .waitExecreq ∨ F.notified i ∨
        ∃ t, F.exits t)
      (runnable : y.state.Runnable) (uctx : y.uctx = f) (inSigHandler : y.inSigHandler = b)
  /-- The thread ends whose queue it is on. -/
  | flushed {t : Slot} (ends : F.kills t ∨ F.exits t) (queued : i ∈ k.core.senders t)
      (gone : (k.tcb i).state.Gone → y.state.Gone)
  | ended (why : (k.tcb i).state = .zombie ∨ ∃ t, F.kills t ∨ F.exits t) (gone : y.state.Gone)
  /-- Its entry is used for a new thread. -/
  | created (creates : F.creates) (unused : F.before i = .dead)
      (gone : (k.tcb i).state.Gone → y.state.Gone ∨ i ≠ 0)

theorem Answers.passive {g : Uctx → Uctx} (h : k.Answers i g) (hheld : x.Held (k.tcb i))
    (hs : y.state.Runnable) (hu : y.uctx = g (k.tcb i).uctx)
    (hi : y.inSigHandler = (k.tcb i).inSigHandler) : PassiveTurn F k i x y := by
  have hst : ∀ {s : ThreadState}, (k.tcb i).state = s → x.state = s := fun h =>
    hheld.state.symm.trans h
  rw [hheld.uctx] at hu
  rw [hheld.inSigHandler] at hi
  cases h with
  | message sender m accepts =>
    exact .resumed (.message (hst accepts.1) sender m) (.inl accepts.1) hs hu hi
  | fault msg accepts => exact .resumed (.fault (hst accepts.1) msg) (.inl accepts.1) hs hu hi
  | request j generation name waits =>
    exact .resumed (.request (hst waits.1) j generation name) (.inl waits.1) hs hu hi
  | interrupt waits => exact .interrupted waits
  | exec _ e awaits => exact .resumed (.exec (hst awaits.1) e) (.inr (.inl awaits.1)) hs hu hi
  | spawn _ e child awaits =>
    exact .resumed (.spawn (hst awaits.1) e child) (.inr (.inl awaits.1)) hs hu hi

/-- What a turn does to a thread that neither calls nor faults nor is taken off a queue. -/
theorem Turn.passive (h : Turn F c k i y) (hheld : x.Held (k.tcb i)) (hc : F.caller ≠ some i)
    (ht : ¬ F.takes i) (hf : ¬ F.faults i)
    (hnotified : F.notified i → ∀ idx, k.notifWaiter idx = some i →
      (k.tcb i).state = .waitNotification) :
    PassiveTurn F k i x y := by
  have hst : ∀ {s : ThreadState}, (k.tcb i).state = s → x.state = s := fun h =>
    hheld.state.symm.trans h
  have hin : y.inSigHandler = (k.tcb i).inSigHandler → y.inSigHandler = x.inSigHandler := fun hi =>
    hi.trans hheld.inSigHandler
  cases h with
  | same body => exact .kept (congrArg Tcb.state body :) (.of_body body)
  | @edit g edit body =>
    have hs : y.state = (g (k.tcb i)).state := (congrArg Tcb.state body :)
    have hframe : (g (k.tcb i)).SameFrame y := .of_body body
    cases edit with
    | own hme | sleep _ _ hme | console _ hme | receive _ hme | waitChild _ hme | waitExec _ _ hme
    | yield _ hme => exact absurd hme hc
    | stall hfaults => exact absurd hfaults hf
    | answer _ answers => exact answers.passive hheld (.inl hs) hframe.uctx hframe.inSigHandler
    | image image _ awaits =>
      exact .resumed (.image (hst awaits.1) image) (.inr (.inl awaits.1))
        (.inl hs) hframe.uctx hframe.inSigHandler
    | sent _ takes | sentReceive _ takes => exact absurd takes ht
    | alarm sleeps => exact .goesOn sleeps (by decide) (.inl hs) { hframe with }
    | resolve _ resumes => exact .goesOn resumes.1 (by decide) (.inl hs) { hframe with }
    | signal _ hsignal => exact .signalled hsignal hs { hframe with }
    | create hm unused _ ne => exact .created hm unused fun _ => .inr ne
    | adopt _ _ _ hm unused => exact .created hm unused fun hg => .inl (hs ▸ hg)
    | preempt _ runs => exact .goesOn runs (by decide) (.inl hs) { hframe with }
    | regroup | status | ack => exact .kept hs { hframe with }
    | handler _ _ _ _ _ _ runs free =>
      exact .handler runs free (hs.trans runs) hframe.inSigHandler hframe.saved
  | hand _ answers body =>
    exact answers.passive hheld (.inr (congrArg Tcb.state body :)) (congrArg Tcb.uctx body :)
      (congrArg Tcb.inSigHandler body :)
  | park _ hme | waitNotif _ hme | reaper hme => exact absurd hme hc
  | notified hn hw body =>
    have hwaits := hnotified hn _ hw
    have hs : y.state = (k.tcb i).state.woken := (congrArg Tcb.state body :)
    have hu := congrArg Tcb.uctx body
    rw [hwaits] at hs
    rw [hheld.uctx] at hu
    exact .resumed (.bits (hst hwaits) _) (.inr (.inr (.inl hn)))
      (.inl hs) hu (hin (congrArg Tcb.inSigHandler body :))
  | reaped _ _ found body =>
    exact .ended (.inl (schedFindZombieChild_spec found).2.2) (.inl (congrArg Tcb.state body :))
  | ended ends _ _ gone => exact .ended (.inr ⟨i, ends.imp_right And.left⟩) gone
  | @fate u ends _ fate =>
    have hi : y.inSigHandler = (k.tcb i).inSigHandler := (congrArg Tcb.inSigHandler fate.frame :)
    have hends : ∃ t, F.kills t ∨ F.exits t := ⟨u, ends⟩
    cases fate.outcome with
    | spared hu hs => exact .kept hs ⟨hu, hi, (congrArg Tcb.savedUctxBeforeSig fate.frame :)⟩
    | buried hz _ hs => exact .ended (.inl hz) (.inl hs)
    | flushed hq _ hs =>
      refine .flushed ends hq fun hg => ?_
      rw [hs]
      rcases hg with hg | hg <;> rw [hg] <;> decide
    | orphaned hw _ hu hs =>
      exact .resumed (.gone (hst hw)) (.inl hw) (.inl hs) (hheld.uctx ▸ hu) (hin hi)
    | failed hw hu hs =>
      refine .resumed (.spawn (hst hw) .notFound 0) (.inr (.inl hw)) (.inl hs) ?_ (hin hi)
      rw [hu, Tcb.failed, hheld.uctx]
  | @told u exits _ _ parent waits fate =>
    have hi : y.inSigHandler = (k.tcb i).inSigHandler := (congrArg Tcb.inSigHandler fate.frame :)
    cases fate.outcome with
    | spared hu hs =>
      rw [hheld.uctx] at hu
      exact .resumed (.child (hst waits.1) _ _) (.inr (.inr (.inr ⟨u, exits⟩)))
        (.inl hs) hu (hin hi)
    | flushed hq =>
      exact .flushed (.inr exits) hq fun hg => absurd parent (schedGetTcb_ne_of_gone hg)
    | buried hz | orphaned hz | failed hz => cases hz
  | picked ready body =>
    exact .goesOn ready (by decide) (.inr (congrArg Tcb.state body :))
      { Tcb.SameFrame.of_body body with }

/-- A thread that has ended stays so, unless its entry is used again. -/
theorem Turn.stays_gone (hg : (k.tcb i).state.Gone) (hc : F.caller ≠ some i) (ht : ¬ F.takes i)
    (hf : ¬ F.faults i) (hy : Turn F c k i y) : y.state.Gone ∨ F.creates ∧ F.before i = .dead ∧
      i ≠ 0 := by
  have hwait : ∀ {s : ThreadState}, ¬ s.Gone → (k.tcb i).state ≠ s := fun hs heq => hs (heq ▸ hg)
  cases hy.passive (.refl _) hc ht hf fun _ _ hw => absurd hw (notifWaiter_ne_of_gone hg) with
  | kept state => exact .inl (state ▸ hg)
  | goesOn was other => exact absurd (was ▸ hg) other.2
  | signalled _ state =>
    rw [if_neg (not_asleep_of_gone hg)] at state
    exact .inl (state ▸ hg)
  | handler runs => exact absurd runs (hwait (by decide))
  | interrupted waits => exact absurd waits (hwait (by decide))
  | resumed result =>
    have ha := result.awaits
    rcases hg with hg | hg <;> simp [hg, ThreadState.Awaits] at ha
  | flushed _ _ gone => exact .inl (gone hg)
  | ended _ gone => exact .inl gone
  | created creates unused gone => exact (gone hg).imp_right fun ne => ⟨creates, unused, ne⟩

theorem Turn.gone (h : Turn F c k i y) (hF : F.Passive i) (hg : (k.tcb i).state.Gone) :
    y.state.Gone :=
  (h.stays_gone hg hF.caller hF.takes hF.faults).resolve_right fun hm => hF.created hm.1 hm.2.1

/-- A thread that waits for a child or a notification, and gets neither nor a signal, stays as it
is. -/
theorem Turn.expects (h : Turn F c k i y) (hends : ∀ t, ¬ (F.kills t ∨ F.exits t))
    (hF : F.Passive i) (hsig : ¬ F.signals i) (hnotified : ¬ F.notified i) {s : ThreadState}
    (hs : (k.tcb i).state = s)
    (hquiet : s = .waitChild ∨ s = .waitNotification) : (k.tcb i).Held y := by
  have hwait : ∀ {s' : ThreadState}, s' ≠ .waitChild ∧ s' ≠ .waitNotification →
    (k.tcb i).state ≠ s' := by
    rintro s' ⟨hchild, hnotif⟩ heq
    rcases hquiet with rfl | rfl
    · exact hchild (heq.symm.trans hs)
    · exact hnotif (heq.symm.trans hs)
  cases h.passive (.refl _) hF.caller hF.takes hF.faults fun hn => absurd hn hnotified with
  | kept state frame => exact ⟨state, frame.uctx, frame.inSigHandler⟩
  | goesOn was other =>
    refine absurd ?_ other.1
    rcases hquiet with rfl | rfl <;> simp [← was, hs, ThreadState.Awaits]
  | signalled hsignal => exact absurd hsignal hsig
  | handler runs => exact absurd runs (hwait (by decide))
  | interrupted waits => exact absurd waits (hwait (by decide))
  | resumed _ why =>
    rcases why with hw | hw | hn | ⟨t, ht⟩
    · exact absurd hw (hwait (by decide))
    · exact absurd hw (hwait (by decide))
    · exact absurd hn hnotified
    · exact absurd (.inr ht) (hends t)
  | flushed ends => exact absurd ends (hends _)
  | ended why =>
    rcases why with hz | ⟨t, ht⟩
    · exact absurd hz (hwait (by decide))
    · exact absurd ht (hends t)
  | created creates unused => exact absurd unused (hF.created creates)

variable (h : Turn F c k i y) (hF : F.Passive i) (hlink : ¬ k.core.sq.Linked i)
  (hnotified : F.notified i → ∀ idx, k.notifWaiter idx = some i →
    (k.tcb i).state = .waitNotification)
include h hF hlink hnotified

/-- A thread that returns with a frame keeps it, or ends. -/
theorem Turn.returns (hr : (k.tcb i).state.Runnable) (hf : (k.tcb i).Returns f b) :
    y.state.Gone ∨ y.state.Runnable ∧ y.Returns f b := by
  have hwait : ∀ {s : ThreadState}, ¬ s.Runnable → (k.tcb i).state ≠ s := fun hs heq =>
    hs (heq ▸ hr)
  cases h.passive (.refl _) hF.caller hF.takes hF.faults hnotified with
  | kept state frame => exact .inr ⟨state ▸ hr, frame.returns hf⟩
  | goesOn _ _ runnable frame => exact .inr ⟨runnable, frame.returns hf⟩
  | signalled _ state frame =>
    refine .inr ⟨?_, frame.returns hf⟩
    rw [state]
    split
    · exact .inl rfl
    · exact hr
  | handler _ free state inSigHandler saved =>
    -- the frame is saved, and the thread comes back to it
    rcases hf with ⟨hf, hb⟩ | ⟨-, hin, -⟩
    · exact .inr ⟨.inr state, .inr ⟨hb.symm.trans free, inSigHandler, saved.trans hf⟩⟩
    · rw [free] at hin
      cases hin
  | interrupted waits => exact absurd waits (hwait (by decide))
  | resumed result =>
    have ha := result.awaits
    rcases hr with hr | hr <;> simp [hr, ThreadState.Awaits] at ha
  | flushed _ hq => exact absurd (linked_of_mem_senders hq) hlink
  | ended _ gone => exact .inl gone
  | created creates unused => exact absurd unused (hF.created creates)

/-- A thread that waits for a result goes on to wait, gets one, or ends. -/
theorem Turn.held (hsig : ¬ F.signals i) (hx : x.state.Awaits) (hheld : x.Held (k.tcb i)) :
    x.Stage y := by
  have hi : (k.tcb i).state.Awaits := hheld.state ▸ hx
  have hwait : ∀ {s : ThreadState}, ¬ s.Awaits → (k.tcb i).state ≠ s := fun hs heq => hs (heq ▸ hi)
  cases h.passive hheld hF.caller hF.takes hF.faults hnotified with
  | kept state frame => exact .waits (hheld.trans ⟨state, frame.uctx, frame.inSigHandler⟩)
  | goesOn was other => exact absurd (was ▸ hi) other.1
  | signalled hsignal => exact absurd hsignal hsig
  | handler runs => exact absurd runs (hwait (by decide))
  | interrupted waits => exact absurd waits (hwait (by decide))
  | resumed result _ runnable uctx inSigHandler =>
    exact .resumed result runnable (.inl ⟨uctx, inSigHandler⟩)
  | flushed _ hq => exact absurd (linked_of_mem_senders hq) hlink
  | ended _ gone => exact .ended gone
  | created creates unused => exact absurd unused (hF.created creates)

theorem Turn.stage (hsig : (k.tcb i).state.Awaits → ¬ F.signals i) (hx : x.state.Awaits)
    (hstage : x.Stage (k.tcb i)) :
    x.Stage y ∧ (y.state.Awaits → (k.tcb i).state.Awaits) := by
  have hnot : ∀ {s : ThreadState}, s.Gone ∨ s.Runnable → ¬ s.Awaits := by
    rintro s ((rfl | rfl) | (rfl | rfl)) <;> decide
  cases hstage with
  | waits held =>
    have ha : (k.tcb i).state.Awaits := held.state ▸ hx
    exact ⟨h.held hF hlink hnotified (hsig ha) hx held, fun _ => ha⟩
  | resumed result runnable returns =>
    rcases h.returns hF hlink hnotified runnable returns with hg | ⟨hr, hf⟩
    · exact ⟨.ended hg, fun ha => absurd ha (hnot (.inl hg))⟩
    · exact ⟨.resumed result hr hf, fun ha => absurd ha (hnot (.inr hr))⟩
  | ended gone =>
    have hg := h.gone hF gone
    exact ⟨.ended hg, fun ha => absurd ha (hnot (.inl hg))⟩

end Kernel

end Robu
