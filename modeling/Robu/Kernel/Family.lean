import Robu.Kernel.Results

/-!
# Parents and children

A thread that exits tells its parent at once if the parent waits for it, and is a zombie
until the parent asks otherwise.  `Kin` says what one part of a section, the handler or the
way back to a thread, does to parents and children.  A part in which threads end does nothing
else to other threads, so `Kin` is proved separately for acts that end a thread and for acts
that do not.
-/

namespace Robu

variable {x : Tcb}

/-- The section does not complete the send of the thread and is not its fault.  If it is its
call, the call does not make it wait. -/
structure Effects.Aside (F : Effects) (i : Slot) : Prop where
  caller : F.caller = some i → F.Still
  takes : ¬ F.takes i
  faults : ¬ F.faults i

theorem Effects.Still.aside {F : Effects} (h : F.Still) (i : Slot) : F.Aside i where
  caller _ := h
  takes := h.takes i
  faults := h.faults i

namespace Kernel

variable {F : Effects} {c : Cpu} {a b k k' : Kernel} {i p t u : Slot} {y : Tcb}

/-! ## Threads that do not end -/

/-- What an act that ends no thread does to the place of a thread in its family. -/
inductive Place (F : Effects) (k : Kernel) (i : Slot) (y : Tcb) : Prop
  | same (parent : y.parentTid = (k.tcb i).parentTid) (filter : y.waitFilter = (k.tcb i).waitFilter)
      (waits : y.state = .waitChild → (k.tcb i).state = .waitChild)
  | created (creates : F.creates) (unused : F.before i = .dead) (dead : (k.tcb i).state = .dead)
      (ne : i ≠ 0) (state : y.state = .ready) (parent : y.parentTid = 0)
  | adopted {p : Slot} (creates : F.creates) (unused : F.before i = .dead)
      (orphan : (k.tcb i).parentTid = 0) (state : y.state = .ready) (parent : y.parentTid = p.tid)
      (lives : F.live → k.Lives p)

/-- Each turn leaves a thread a place in its family. -/
theorem Turn.place (h : Turn F c k i y) (hends : ∀ t, ¬ (F.kills t ∨ F.exits t)) (hr : ¬ F.reaps) :
    Place F k i y := by
  have hstate : ∀ {s : ThreadState}, y.parentTid = (k.tcb i).parentTid →
      y.waitFilter = (k.tcb i).waitFilter → y.state = s → s ≠ .waitChild → Place F k i y :=
    fun hp hf hs hne => .same hp hf fun hw => absurd (hs.symm.trans hw) hne
  have hkeep : y.parentTid = (k.tcb i).parentTid → y.waitFilter = (k.tcb i).waitFilter →
      y.state = (k.tcb i).state → Place F k i y := fun hp hf hs => .same hp hf fun hw =>
        hs.symm.trans hw
  cases h with
  | same body | reaper _ body =>
    exact hkeep (congrArg Tcb.parentTid body :) (congrArg Tcb.waitFilter body :)
      (congrArg Tcb.state body :)
  | @edit f edit body =>
    have hp := congrArg Tcb.parentTid body
    have hf := congrArg Tcb.waitFilter body
    have hs : y.state = (f (k.tcb i)).state := (congrArg Tcb.state body :)
    cases edit with
    | own _ own =>
      exact hkeep (hp.trans (congrArg Tcb.parentTid own :))
        (hf.trans (congrArg Tcb.waitFilter own :)) (hs.trans (congrArg Tcb.state own :))
    | regroup | status | ack | handler => exact hkeep hp hf hs
    | waitChild hreaps => exact absurd hreaps hr
    | create hm unused dead ne born =>
      exact .created hm unused dead ne (hs.trans (congrArg Tcb.state born :))
        (hp.trans (congrArg Tcb.parentTid born :))
    | adopt _ _ _ hm unused born lives =>
      exact .adopted hm unused (congrArg Tcb.parentTid born :)
        (hs.trans (congrArg Tcb.state born :)) hp fun hl => (lives hl).1
    | sent | signal =>
      dsimp only at hs
      split at hs
      · exact hstate hp hf hs (by decide)
      · exact hkeep hp hf hs
    | sleep | console | receive | waitExec | stall | yield | answer | image | sentReceive | alarm
    | resolve
    | preempt => exact hstate hp hf hs (by simp)
  | hand _ _ body | park _ _ _ _ body | waitNotif _ _ body | picked _ body =>
    exact hstate (congrArg Tcb.parentTid body :) (congrArg Tcb.waitFilter body :)
      (field_of_body body Tcb.state fun _ => rfl) (by simp)
  | notified _ _ body =>
    refine .same (congrArg Tcb.parentTid body :) (congrArg Tcb.waitFilter body :) fun hw => ?_
    have hs : y.state = (k.tcb i).state.woken := (congrArg Tcb.state body :)
    rw [hs] at hw
    revert hw
    cases (k.tcb i).state <;> decide
  | reaped hreaps => exact absurd hreaps hr
  | ended ends => exact absurd (ends.imp_right And.left) (hends i)
  | fate ends => exact absurd ends (hends _)
  | told exits => exact absurd (.inr exits) (hends _)

/-- A thread that has ended stays as it is, unless its slot is used again. -/
theorem Turn.rests (h : Turn F c k i y) (hends : ∀ t, ¬ (F.kills t ∨ F.exits t)) (hr : ¬ F.reaps)
    (hlive : F.live) (hF : F.Aside i) (hg : (k.tcb i).state.Gone) :
    y.state = (k.tcb i).state ∧ y.exitStatus = (k.tcb i).exitStatus ∨
      F.creates ∧ F.before i = .dead ∧ i ≠ 0 ∧ y.parentTid = 0 := by
  have hwait : ∀ {s : ThreadState}, ¬ s.Gone → (k.tcb i).state ≠ s := fun hs heq => hs (heq ▸ hg)
  have hasleep := not_asleep_of_gone hg
  cases h with
  | same body | reaper _ body =>
    exact .inl ⟨(congrArg Tcb.state body :), (congrArg Tcb.exitStatus body :)⟩
  | edit edit body =>
    have hs := congrArg Tcb.state body
    have hx := congrArg Tcb.exitStatus body
    cases edit with
    | own _ own =>
      exact .inl ⟨hs.trans (congrArg Tcb.state own :), hx.trans (congrArg Tcb.exitStatus own :)⟩
    | sleep _ may hc | console may hc | receive may hc | waitExec _ may hc | yield may hc =>
      exact absurd may (hF.caller hc).answers
    | waitChild hreaps => exact absurd hreaps hr
    | stall hf => exact absurd hf hF.faults
    | answer _ answers => exact absurd answers.asleep hasleep
    | image _ _ awaits => exact absurd awaits.1 (hwait (by decide))
    | sent _ ht | sentReceive _ ht => exact absurd ht hF.takes
    | alarm sleeps => exact absurd sleeps (hwait (by decide))
    | resolve _ resumes => exact absurd resumes.1 (hwait (by decide))
    | signal => exact .inl ⟨hs.trans (if_neg hasleep), hx⟩
    | create hm unused _ ne born =>
      exact .inr ⟨hm, unused, ne,
        (congrArg Tcb.parentTid body).trans (congrArg Tcb.parentTid born :)⟩
    | adopt _ _ _ _ _ born =>
      have hready : (k.tcb i).state = .ready := (congrArg Tcb.state born :)
      exact absurd hready (hwait (by decide))
    | status _ _ runs => exact absurd (runs hlive) (hwait (by decide))
    | preempt _ runs => exact absurd runs (hwait (by decide))
    | regroup | ack | handler => exact .inl ⟨hs, hx⟩
  | hand _ answers => exact absurd answers.asleep hasleep
  | park may hc => exact absurd may (hF.caller hc).answers
  | waitNotif hw hc => exact absurd hw (hF.caller hc).watches
  | notified _ _ body =>
    refine .inl ⟨(field_of_body body Tcb.state fun _ => rfl).trans ?_,
      (congrArg Tcb.exitStatus body :)⟩
    rcases hg with hg | hg <;> simp [hg, ThreadState.woken]
  | reaped hreaps => exact absurd hreaps hr
  | ended ends => exact absurd (ends.imp_right And.left) (hends i)
  | fate ends => exact absurd ends (hends _)
  | told exits => exact absurd (.inr exits) (hends _)
  | picked ready => exact absurd ready (hwait (by decide))

/-! ## The end of a thread -/

theorem Fate.parentTid (h : Fate k u i x y) :
    y.parentTid = if i ≠ 0 ∧ x.parentTid = u.tid then 0 else x.parentTid :=
  (congrArg Tcb.parentTid h.frame :)

theorem Fate.rests (h : Fate k u i x y) (hg : x.state.Gone) :
    y.state = x.state ∨ x.state = .zombie ∧ x.parentTid = u.tid ∧ y.state = .dead := by
  cases h.outcome with
  | spared _ hs => exact .inl hs
  | buried hz hp hs => exact .inr ⟨hz, hp, hs⟩
  | flushed _ _ hs =>
    refine .inl (hs.trans ?_)
    rcases hg with hg | hg <;> simp [hg, ThreadState.woken]
  | orphaned hw | failed hw =>
    rw [hw] at hg
    exact absurd hg (by decide)

theorem Fate.expected (h : Fate k u i x y) (hs : y.state = .waitChild) : x.state = .waitChild := by
  cases h.outcome with
  | spared _ heq => exact heq ▸ hs
  | flushed _ _ heq =>
    rw [heq] at hs
    revert hs
    cases x.state <;> decide
  | buried _ _ heq | orphaned _ _ _ heq | failed _ _ heq =>
    rw [heq] at hs
    cases hs

theorem Fate.told (h : Fate k u i x y) (hlink : ¬ k.core.sq.Linked i) (hs : x.state = .ready) :
    y.state = .ready ∧ y.uctx = x.uctx := by
  cases h.outcome with
  | spared hu heq => exact ⟨heq.trans hs, hu⟩
  | flushed hq => exact absurd (linked_of_mem_senders hq) hlink
  | buried hw | orphaned hw | failed hw =>
    rw [hs] at hw
    cases hw

structure Remains (u i : Slot) (x y : Tcb) : Prop where
  parentTid : y.parentTid = if i ≠ 0 ∧ x.parentTid = u.tid then 0 else x.parentTid
  exitStatus : y.exitStatus = x.exitStatus
  waitFilter : y.waitFilter = x.waitFilter
  lives : x.state ≠ .dead ∧ x.state ≠ .zombie → y.state ≠ .dead ∧ y.state ≠ .zombie
  rests : x.state.Gone → y.state = x.state ∨ x.state = .zombie ∧ x.parentTid = u.tid ∧
    y.state = .dead
  expected : y.state = .waitChild → x.state = .waitChild
  buried : i ≠ 0 → x.parentTid = u.tid → y.state ≠ .zombie

theorem Remains.dead (h : Remains u i x y) (hx : x.state = .dead) : y.state = .dead := by
  rcases h.rests (.inl hx) with heq | ⟨-, -, hdead⟩
  · exact heq.trans hx
  · exact hdead

theorem Fate.remains (h : Fate k u i x y) : Remains u i x y where
  parentTid := h.parentTid
  exitStatus := (congrArg Tcb.exitStatus h.frame :)
  waitFilter := (congrArg Tcb.waitFilter h.frame :)
  lives := h.lives
  rests := h.rests
  expected := h.expected
  buried := h.child

theorem Ends.remains (h : Ends F c k u k') (hi : i ≠ u) : Remains u i (k.tcb i) (k'.tcb i) := by
  rcases h.fate hi with hfate | ⟨-, -, hwaits, hfate⟩
  · exact hfate.remains
  -- a parent that is told did not wait for its own end
  have hr := hfate.remains
  exact
    { hr with
      lives := fun _ => hr.lives (by simp)
      rests := fun hg => absurd (hwaits.1 ▸ hg) (by decide)
      expected := fun _ => hwaits.1 }

theorem Ends.gone (h : Ends F c k t k') : (k'.tcb t).state.Gone := by
  cases h with
  | kill | exitAlone => exact (ended_terminateTcb k c t (.inl rfl)).gone
  | exitZombie => exact (ended_terminateTcb k c t (.inr rfl)).gone
  | exitTold _ _ _ _ waits => exact (self_exitTold waits rfl).2.1

theorem Ends.runs (h : Ends F c k t k') (hlive : F.live) (hk : ¬ F.kills t) :
    (k.tcb t).state = .running := by
  cases h with
  | kill kills => exact absurd kills hk
  | exitAlone _ _ runs | exitTold _ _ runs | exitZombie _ _ runs => exact runs hlive

theorem fields_departed {q : Tid} (h : y.body = (x.departed y q).body) :
    y.exitStatus = x.exitStatus ∧ y.parentTid = q :=
  ⟨(congrArg Tcb.exitStatus h :), (congrArg Tcb.parentTid h :)⟩

/-- A thread that ends keeps its exit status, and its parent unless that is the thread itself. -/
theorem Ends.self (h : Ends F c k t k') : (k'.tcb t).exitStatus = (k.tcb t).exitStatus ∧
    (k'.tcb t).parentTid = if t ≠ 0 ∧ (k.tcb t).parentTid = t.tid then
      0 else (k.tcb t).parentTid := by
  cases h with
  | kill | exitAlone =>
    exact fields_departed (body_of_vital (ended_terminateTcb k c t (.inl rfl)).self)
  | exitZombie => exact fields_departed (body_of_vital (ended_terminateTcb k c t (.inr rfl)).self)
  | exitTold _ _ _ _ waits => exact fields_departed (self_exitTold (c := c) waits rfl).2.2

/-! ## Families -/

/-- The thread has not ended, or its parent has yet to ask about it. -/
structure Child (k : Kernel) (t p : Slot) : Prop where
  thread : t ≠ 0
  parent : p ≠ 0
  state : (k.tcb t).state ≠ .dead
  parentTid : (k.tcb t).parentTid = p.tid

theorem Child.parentTid_ne_zero (h : k.Child t p) : (k.tcb t).parentTid ≠ 0 := by
  rw [h.parentTid]
  exact fun h₀ => h.parent (Slot.tid_inj (h₀.trans (by decide)))

theorem schedGetTcb_of_lives (hp : p ≠ 0) (h : k.Lives p) : k.schedGetTcb p.tid = some p := by
  rw [schedGetTcb_tid, if_neg]
  rintro (h₀ | hd | hz)
  · exact hp h₀
  · exact h.1 hd
  · exact h.2 hz

theorem Ends.report (h : Ends F c k t k') (hk : ¬ F.kills t) (hc : k.Child t p) (hp : k.Lives p)
    (hne : p ≠ t) :
    k.WaitsFor p t ∧ (k'.tcb t).state = .dead ∧ Fate k t p
        { k.tcb p with uctx := childRegs t (k.tcb t).exitStatus (k.tcb p).uctx, state := .ready }
          (k'.tcb p) ∨
      ¬ k.WaitsFor p t ∧ (k'.tcb t).state = .zombie ∧ (k'.tcb t).parentTid = p.tid := by
  have hself : (k.tcb t).parentTid ≠ t.tid := fun heq =>
    hne (Slot.tid_inj (hc.parentTid.symm.trans heq))
  have hget : k.schedGetTcb (k.tcb t).parentTid = some p :=
    hc.parentTid ▸ schedGetTcb_of_lives hc.parent hp
  have hparent := h.self.2
  rw [if_neg fun h => hself h.2, hc.parentTid] at hparent
  cases h with
  | kill kills => exact absurd kills hk
  | exitAlone _ _ _ alone =>
    rcases alone with h₀ | hnone
    · exact absurd h₀ hc.parentTid_ne_zero
    · rw [hget] at hnone
      cases hnone
  | exitTold _ _ _ lives waits =>
    obtain rfl := Option.some.inj (hget.symm.trans lives)
    have hfate := fate_exitTold (c := c) waits hne
    rw [if_pos rfl] at hfate
    exact .inl ⟨waits, (self_exitTold waits rfl).1 hself, hfate⟩
  | exitZombie _ _ _ _ lives waits =>
    obtain rfl := Option.some.inj (hget.symm.trans lives)
    exact .inr ⟨waits, (ended_terminateTcb k c t (.inr rfl)).state hself, hparent⟩

/-- **Families.**  Children have parents that live, and a thread waits for a child only as long
as one lives that it may wait for. -/
structure Family (k : Kernel) : Prop where
  parent : ∀ {t p}, k.Child t p → k.Lives p
  matched : ∀ {p : Slot}, (k.tcb p).state = .waitChild → ∃ t, k.Child t p ∧ k.Lives t ∧
    k.WaitsFor p t
  zero : (k.tcb (.thread 0)).state = .dead

/-- The parent waited for the child, which has ended, and has its status. -/
structure Told (a b : Kernel) (p t : Slot) : Prop where
  child : a.Child t p
  lives : a.Lives t
  waits : a.WaitsFor p t
  dead : (b.tcb t).state = .dead
  runnable : (b.tcb p).state.Runnable
  returns : (b.tcb p).Returns (childRegs t (b.tcb t).exitStatus (a.tcb p).uctx)
    (a.tcb p).inSigHandler

/-- **Kin.**  What has become of the families of `a` when a part of a section that started in
`a` has come to `b`.  `still` says that the part may end threads and creates none. -/
structure Kin (still : Prop) (a b : Kernel) : Prop extends b.Family where
  before : a.Family
  lived : ¬ still → ∀ {t}, a.Lives t → b.Lives t
  unborn : still → ∀ {t : Slot}, (a.tcb t).state = .dead → (b.tcb t).state = .dead
  /-- Zombies wait for their parents, and go with them. -/
  zombie : ∀ {t : Slot}, (a.tcb t).state = .zombie →
    (b.tcb t).state = .zombie ∧ (b.tcb t).exitStatus = (a.tcb t).exitStatus ∧
        (b.tcb t).parentTid = (a.tcb t).parentTid ∨
      (b.tcb t).state = .dead ∧ ∀ {p}, a.Child t p → ¬ b.Lives p
  /-- Children of threads that live stay, or have been reported. -/
  child : ∀ {t p}, a.Child t p → a.Lives t → b.Lives p → b.Child t p ∨ Told a b p t
  /-- Parents that wait go on to wait, or have been told. -/
  waits : ∀ {p : Slot}, (a.tcb p).state = .waitChild →
    (a.tcb p).Held (b.tcb p) ∧ (b.tcb p).waitFilter = (a.tcb p).waitFilter ∨ (∃ t, Told a b p t) ∨
      (b.tcb p).state.Gone
  waited : ∀ {p : Slot}, (b.tcb p).state = .waitChild → (a.tcb p).state = .waitChild
  old : ∀ {t p}, b.Child t p → a.Child t p ∨ (a.tcb t).state = .dead ∧ b.Lives t
  unlinked : ∀ {p : Slot}, (a.tcb p).state = .waitChild → ¬ b.core.sq.Linked p

/-- A part of a section that collects no child, and wakes no thread that waits for one.  It kills
only threads without a parent. -/
structure Mild (F : Effects) (a : Kernel) : Prop where
  sound : F.Sound fun t => (a.tcb t).state
  reaps : ¬ F.reaps
  spares : ∀ p : Slot, (a.tcb p).state = .waitChild → ¬ F.signals p ∧ ¬ F.notified p
  kills : ∀ t p, F.kills t → ¬ a.Child t p

theorem lives_or_gone (k : Kernel) (t : Slot) : k.Lives t ∨ (k.tcb t).state.Gone := by
  unfold Lives ThreadState.Gone
  tauto

theorem Lives.not_gone (h : k.Lives t) : ¬ (k.tcb t).state.Gone := by
  rintro (hg | hg)
  · exact h.1 hg
  · exact h.2 hg

theorem Kin.refl {still : Prop} (h : a.Family) (hlink : ∀ {p : Slot}, (a.tcb p).state = .waitChild →
    ¬ a.core.sq.Linked p) : Kin still a a :=
  { h with
    before := h
    lived := fun _ _ => id
    unborn := fun _ _ => id
    zombie := fun hz => .inl ⟨hz, rfl, rfl⟩
    child := fun hc _ _ => .inl hc
    waits := fun _ => .inl ⟨⟨rfl, rfl, rfl⟩, rfl⟩
    waited := id
    old := .inl
    unlinked := hlink }

variable {still : Prop}

theorem Mild.passive (hF : Mild F a) (hp : (a.tcb p).state = .waitChild) : F.Passive p :=
  hF.sound.passive (by simp [hp]) (by simp [hp]) (by simp [hp])

theorem Kin.aside (h : Kin still a b) (hF : Mild F a) (hstill : still → F.Still)
    (hg : (b.tcb t).state.Gone) : F.Aside t := by
  by_cases hs : still
  · exact (hstill hs).aside t
  have hgone : (a.tcb t).state.Gone := (a.lives_or_gone t).resolve_left fun hl =>
    (h.lived hs hl).not_gone hg
  have hne : ∀ {s : ThreadState}, ¬ s.Gone → (a.tcb t).state ≠ s := fun hs heq => hs (heq ▸ hgone)
  exact
    { caller := fun hc => absurd (hF.sound.caller t hc) (hne (by decide))
      takes := fun ht => hne (by decide) (hF.sound.takes t ht)
      faults := fun hf => hne (by decide) (hF.sound.faults t hf) }

theorem Told.act (h : Told a b p t) (hact : Act F c b k') (hF : Mild F a)
    (hlink : ¬ b.core.sq.Linked p) (hdead : (k'.tcb t).state = .dead)
    (hstatus : (k'.tcb t).exitStatus = (b.tcb t).exitStatus) :
    Told a k' p t ∨ (k'.tcb p).state.Gone := by
  rcases (hact.turn p).returns (hF.passive h.waits.1) hlink
    (fun hn => absurd hn (hF.spares p h.waits.1).2) h.runnable h.returns with hg | ⟨hr, hf⟩
  · exact .inr hg
  · exact .inl ⟨h.child, h.lives, h.waits, hdead, hr, hstatus ▸ hf⟩

theorem Kin.unlinked_act (h : Kin still a b) (hact : Act F c b k') (hF : Mild F a)
    (hp : (a.tcb p).state = .waitChild) : ¬ k'.core.sq.Linked p := by
  intro hl
  rcases hact.linked hl with hc | hl
  · exact (hF.passive hp).caller hc
  · exact h.unlinked hp hl

/-! ## Acts that end no thread -/

section Calm

variable (h : Kin still a b) (hact : Act F c b k') (hF : Mild F a)
  (hends : ∀ t, ¬ (F.kills t ∨ F.exits t))
  (hstill : still → F.Still)

include hact hends in
theorem lives_calm (hl : b.Lives t) : k'.Lives t :=
  (hact.turn t).lives hl (fun hk => hends t (.inl hk)) fun hx => hends t (.inr hx)

include hact hF hends in
theorem expected_of_calm (hw : (k'.tcb p).state = .waitChild) : (b.tcb p).state = .waitChild := by
  cases (hact.turn p).place hends hF.reaps with
  | same _ _ waits => exact waits hw
  | created _ _ _ _ hs | adopted _ _ _ hs =>
    rw [hs] at hw
    cases hw

include hact hF hends in
theorem child_calm (hc : b.Child t p) (ht : b.Lives t) : k'.Child t p := by
  refine ⟨hc.thread, hc.parent, (lives_calm hact hends ht).1, ?_⟩
  cases (hact.turn t).place hends hF.reaps with
  | same hp => exact hp.trans hc.parentTid
  | created _ _ dead => exact absurd dead ht.1
  | adopted _ _ orphan => exact absurd orphan hc.parentTid_ne_zero

include h hact hF hends hstill

theorem Kin.rests (ht : (a.tcb t).state ≠ .dead ∨ t = 0) (hg : (b.tcb t).state.Gone) :
    (k'.tcb t).state = (b.tcb t).state ∧ (k'.tcb t).exitStatus = (b.tcb t).exitStatus := by
  rcases (hact.turn t).rests hends hF.reaps hF.sound.live (h.aside hF hstill hg) hg with hsame |
    ⟨hm, hd, h₀, -⟩
  · exact hsame
  · rw [hF.sound.before (.inl hm)] at hd
    exact absurd ht (not_or.mpr ⟨not_not.mpr hd, h₀⟩)

theorem Kin.lives_of_calm (ht : (a.tcb t).state ≠ .dead) (hl : k'.Lives t) : b.Lives t := by
  refine (b.lives_or_gone t).resolve_right fun hg => hl.not_gone ?_
  rw [(h.rests hact hF hends hstill (.inl ht) hg).1]
  exact hg

omit h hstill in
theorem Act.same_place (ht : (a.tcb t).state ≠ .dead) : (k'.tcb t).parentTid = (b.tcb t).parentTid ∧
    (k'.tcb t).waitFilter = (b.tcb t).waitFilter := by
  cases (hact.turn t).place hends hF.reaps with
  | same hp hf => exact ⟨hp, hf⟩
  | created hm hd | adopted hm hd =>
    rw [hF.sound.before (.inl hm)] at hd
    exact absurd hd ht

theorem Kin.child_of_calm (hc : k'.Child t p) :
    b.Child t p ∨ (a.tcb t).state = .dead ∧ k'.Lives t ∧ b.Lives p := by
  have hparent := hc.parentTid_ne_zero
  have hstate : (b.tcb t).state ≠ .dead := by
    intro hd
    rcases (hact.turn t).rests hends hF.reaps hF.sound.live (h.aside hF hstill (.inl hd))
      (.inl hd) with
      ⟨hsame, -⟩ | ⟨-, -, -, h₀⟩
    · exact hc.state (hsame.trans hd)
    · exact hparent h₀
  cases (hact.turn t).place hends hF.reaps with
  | same hp => exact .inl ⟨hc.thread, hc.parent, hstate, hp ▸ hc.parentTid⟩
  | created _ _ _ _ _ h₀ => exact absurd h₀ hparent
  | adopted hm hd _ hs hp lives =>
    rw [hF.sound.before (.inl hm)] at hd
    have hlives := lives hF.sound.live
    rw [← Slot.tid_inj (hc.parentTid.symm.trans hp)] at hlives
    exact .inr ⟨hd, by simp [Lives, hs], hlives⟩

/-- **Step.** -/
theorem Kin.calm : Kin still a k' where
  before := h.before
  lived hs _ hl := lives_calm hact hends (h.lived hs hl)
  unborn hs t hd := by
    have hb := h.unborn hs hd
    rcases (hact.turn t).rests hends hF.reaps hF.sound.live (h.aside hF hstill (.inl hb))
      (.inl hb) with
      ⟨hsame, -⟩ | ⟨hm, -⟩
    · exact hsame.trans hb
    · exact absurd hm (hstill hs).creates
  zero := by
    have hrests := h.rests hact hF hends hstill (t := 0) (.inr rfl) (.inl h.zero)
    exact hrests.1.trans h.zero
  parent hc := by
    rcases h.child_of_calm hact hF hends hstill hc with hc | ⟨-, -, hl⟩
    · exact lives_calm hact hends (h.parent hc)
    · exact lives_calm hact hends hl
  matched {p} hw := by
    have hb := expected_of_calm hact hF hends hw
    have hused : (a.tcb p).state ≠ .dead := by simp [h.waited hb]
    obtain ⟨t, hc, ht, -, hfilter⟩ := h.matched hb
    refine ⟨t, child_calm hact hF hends hc ht, lives_calm hact hends ht, hw, ?_⟩
    rw [(hact.same_place hF hends hused).2]
    exact hfilter
  zombie {t} hz := by
    have hused : (a.tcb t).state ≠ .dead := by simp [hz]
    rcases h.zombie hz with ⟨hbz, hstatus, hparent⟩ | ⟨hd, horphan⟩
    · obtain ⟨hs, hx⟩ := h.rests hact hF hends hstill (.inl hused) (.inr hbz)
      exact .inl ⟨hs.trans hbz, hx.trans hstatus, (hact.same_place hF hends hused).1.trans hparent⟩
    · refine .inr ⟨(h.rests hact hF hends hstill (.inl hused) (.inl hd)).1.trans hd,
        fun hc hl => ?_⟩
      exact horphan hc (h.lives_of_calm hact hF hends hstill (h.before.parent hc).1 hl)
  child {t p} hc ht hp := by
    have hb := h.lives_of_calm hact hF hends hstill (h.before.parent hc).1 hp
    rcases h.child hc ht hb with hcb | told
    · refine .inl ⟨hc.thread, hc.parent, ?_, (hact.same_place hF hends ht.1).1.trans hcb.parentTid⟩
      rcases b.lives_or_gone t with hl | hg
      · exact (lives_calm hact hends hl).1
      · rw [(h.rests hact hF hends hstill (.inl ht.1) hg).1]
        exact hcb.state
    · obtain ⟨hs, hx⟩ := h.rests hact hF hends hstill (.inl ht.1) (.inl told.dead)
      exact .inr ((told.act hact hF (h.unlinked told.waits.1) (hs.trans told.dead) hx).resolve_right
        hp.not_gone)
  waits {p} hw := by
    have hused : (a.tcb p).state ≠ .dead := by simp [hw]
    rcases h.waits hw with ⟨held, hfilter⟩ | ⟨t, told⟩ | hg
    · have hspares := hF.spares p hw
      have hheld := (hact.turn p).expects hends (hF.passive hw) hspares.1 hspares.2
        (held.state.trans hw) (.inl rfl)
      exact .inl ⟨held.trans hheld, (hact.same_place hF hends hused).2.trans hfilter⟩
    · obtain ⟨hs, hx⟩ := h.rests hact hF hends hstill (.inl told.lives.1) (.inl told.dead)
      exact .inr ((told.act hact hF (h.unlinked hw) (hs.trans told.dead) hx).imp_left
        fun h => ⟨t, h⟩)
    · exact .inr (.inr ((h.rests hact hF hends hstill (.inl hused) hg).1 ▸ hg))
  waited hw := h.waited (expected_of_calm hact hF hends hw)
  old {t p} hc := by
    rcases h.child_of_calm hact hF hends hstill hc with hcb | ⟨hd, hl, -⟩
    · exact (h.old hcb).imp_right fun hnew => ⟨hnew.1, lives_calm hact hends hnew.2⟩
    · exact .inr ⟨hd, hl⟩
  unlinked hw := h.unlinked_act hact hF hw

end Calm

/-! ## Acts that end a thread -/

section Ending

variable (h : Kin still a b) (hends : Ends F c b u k') (hF : Mild F a) (hs : still)

include hends

theorem Ends.lives_ne (hl : k'.Lives p) : p ≠ u := fun heq => hl.not_gone (heq ▸ hends.gone)

theorem Ends.lives_other (hl : b.Lives t) (hne : t ≠ u) : k'.Lives t := (hends.remains hne).lives hl

theorem Ends.lives_of (hl : k'.Lives p) : b.Lives p := by
  refine (b.lives_or_gone p).resolve_right fun hg => ?_
  rcases (hends.remains (hends.lives_ne hl)).rests hg with heq | ⟨-, -, hd⟩
  · exact hl.not_gone (heq ▸ hg)
  · exact hl.1 hd

theorem Ends.expected (hw : (k'.tcb p).state = .waitChild) :
    p ≠ u ∧ (b.tcb p).state = .waitChild := by
  have hne : p ≠ u := hends.lives_ne (by simp [Lives, hw])
  exact ⟨hne, (hends.remains hne).expected hw⟩

theorem Ends.child_other (hc : b.Child t p) (hp : p ≠ u) (ht : t ≠ u)
    (hd : (k'.tcb t).state ≠ .dead) : k'.Child t p := by
  refine ⟨hc.thread, hc.parent, hd, ?_⟩
  rw [(hends.remains ht).parentTid, if_neg fun h => hp ?_, hc.parentTid]
  exact Slot.tid_inj (hc.parentTid.symm.trans h.2)

theorem Ends.dead_of_kills (hlive : F.live) (hp : (b.tcb u).parentTid ≠ u.tid)
    (hd : (b.tcb u).state = .dead) : (k'.tcb u).state = .dead := by
  cases hends with
  | kill => exact (ended_terminateTcb b c u (.inl rfl)).state hp
  | exitAlone _ _ runs | exitTold _ _ runs | exitZombie _ _ runs =>
    rw [runs hlive] at hd
    cases hd

include hF

theorem Mild.child_of_ends (hc : k'.Child t p) : b.Child t p ∧ p ≠ u := by
  have h₀ := hc.parentTid_ne_zero
  rcases eq_or_ne t u with rfl | ht
  · have hparent := hends.self.2
    split at hparent
    · exact absurd hparent h₀
    rename_i hself
    have hself : (b.tcb t).parentTid ≠ t.tid := fun heq => hself ⟨hc.thread, heq⟩
    rw [hc.parentTid] at hparent
    refine ⟨⟨hc.thread, hc.parent, fun hd => ?_, hparent.symm⟩, fun heq =>
      hself (heq ▸ hparent.symm)⟩
    exact hc.state (hends.dead_of_kills hF.sound.live hself hd)
  · have hremains := hends.remains ht
    have hparent := hremains.parentTid
    split at hparent
    · exact absurd hparent h₀
    rename_i hother
    rw [hc.parentTid] at hparent
    refine ⟨⟨hc.thread, hc.parent, fun hd => ?_, hparent.symm⟩, fun heq =>
      hother ⟨hc.thread, heq ▸ hparent.symm⟩⟩
    exact hc.state (hremains.dead hd)

theorem Mild.ne_ended (hg : (b.tcb t).state.Gone) (ht : ¬ a.Lives t ∨ ∃ p, a.Child t p) :
    t ≠ u := by
  rintro rfl
  by_cases hk : F.kills t
  · rcases ht with ht | ⟨p, hp⟩
    · exact ht (hF.sound.kills t hk).2
    · exact hF.kills t p hk hp
  · rw [hends.runs hF.sound.live hk] at hg
    exact absurd hg (by decide)

include h hs

omit hends hF in
theorem Kin.old_child (hc : b.Child t p) : a.Child t p :=
  (h.old hc).resolve_right fun hnew => hnew.2.1 (h.unborn hs hnew.1)

/-- The parent is told if it waits, and otherwise keeps the child. -/
theorem Kin.report (hc : b.Child u p) (hp : k'.Lives p) :
    b.WaitsFor p u ∧ Told a k' p u ∨ ¬ b.WaitsFor p u ∧ k'.Child u p := by
  have ha := h.old_child hs hc
  have hne := hends.lives_ne hp
  rcases hends.report (fun hk => hF.kills u p hk ha) hc (hends.lives_of hp) hne with
    ⟨hwaits, hdead, hfate⟩ | ⟨hwaits, hz, hparent⟩
  · have hw := h.waited hwaits.1
    have hrun := hends.runs hF.sound.live fun hk => hF.kills u p hk ha
    have hlives : a.Lives u := by
      refine (a.lives_or_gone u).resolve_right ?_
      rintro (hd | hz)
      · simp [h.unborn hs hd] at hrun
      · rcases h.zombie hz with ⟨hz, -⟩ | ⟨hd, -⟩
        · simp [hz] at hrun
        · simp [hd] at hrun
    obtain ⟨hready, huctx⟩ := hfate.told (h.unlinked hw) rfl
    have hi : (k'.tcb p).inSigHandler = (b.tcb p).inSigHandler :=
      (congrArg Tcb.inSigHandler hfate.frame :)
    rcases h.waits hw with ⟨held, hfilter⟩ | ⟨t, told⟩ | hg
    · refine .inl ⟨hwaits, ha, hlives, ⟨hw, hfilter ▸ hwaits.2⟩, hdead, .inl hready, .inl ⟨?_, ?_⟩⟩
      · rw [huctx, hends.self.1, held.uctx]
      · rw [hi, held.inSigHandler]
    · have hr := told.runnable
      rw [hwaits.1] at hr
      exact absurd hr (by decide)
    · rw [hwaits.1] at hg
      exact absurd hg (by decide)
  · exact .inr ⟨hwaits, hc.thread, hc.parent, by simp [hz], hparent⟩

omit hs in
theorem Kin.told_ends {q : Slot} (told : Told a b p q) : Told a k' p q ∨ (k'.tcb p).state.Gone := by
  have hremains := hends.remains (hF.ne_ended hends (.inl told.dead) (.inr ⟨p, told.child⟩))
  exact told.act (.ends hends) hF (h.unlinked told.waits.1)
    (hremains.dead told.dead) hremains.exitStatus

theorem Kin.waits_ends (hp : k'.Lives p) (held : (a.tcb p).Held (b.tcb p))
    (hfilter : (b.tcb p).waitFilter = (a.tcb p).waitFilter) (hw : (a.tcb p).state = .waitChild) :
    (a.tcb p).Held (k'.tcb p) ∧ (k'.tcb p).waitFilter = (a.tcb p).waitFilter ∨
      ∃ t, Told a k' p t := by
  have hne := hends.lives_ne hp
  have hb := held.state.trans hw
  rcases hends.fate hne with hfate | ⟨hget, hruns, hwaits, -⟩
  · have hi := congrArg Tcb.inSigHandler hfate.frame
    cases hfate.outcome with
    | spared hu hst =>
      exact .inl ⟨held.trans ⟨hst, hu, hi⟩, (hends.remains hne).waitFilter.trans hfilter⟩
    | flushed hq => exact absurd (linked_of_mem_senders hq) (h.unlinked hw)
    | buried hq | orphaned hq | failed hq => simp [hb] at hq
  · have hrun := hruns hF.sound.live
    have hc : b.Child u p := by
      refine ⟨?_, ?_, by simp [hrun], (schedGetTcb_eq_some hget).1⟩
      · rintro rfl
        simp [h.zero] at hrun
      · rintro rfl
        simp [h.zero] at hb
    rcases h.report hends hF hs hc hp with ⟨-, told⟩ | ⟨hno, -⟩
    · exact .inr ⟨u, told⟩
    · exact absurd hwaits hno

/-- **Step.** -/
theorem Kin.ends : Kin still a k' where
  before := h.before
  lived hns := absurd hs hns
  unborn _ t hd := by
    have hne := hF.ne_ended hends (t := t) (.inl (h.unborn hs hd)) (.inl fun hl => hl.1 hd)
    exact (hends.remains hne).dead (h.unborn hs hd)
  zero := by
    have hne := hF.ne_ended hends (t := 0) (.inl h.zero) (.inl fun hl => hl.1 h.before.zero)
    exact (hends.remains hne).dead h.zero
  parent hc := by
    obtain ⟨hc, hne⟩ := hF.child_of_ends hends hc
    exact hends.lives_other (h.parent hc) hne
  matched {p} hw := by
    obtain ⟨hne, hb⟩ := hends.expected hw
    obtain ⟨t, hc, ht, hwaits⟩ := h.matched hb
    have hp : k'.Lives p := by simp [Lives, hw]
    rcases eq_or_ne t u with rfl | htu
    · -- the parent would have been told
      rcases h.report hends hF hs hc hp with ⟨-, told⟩ | ⟨hno, -⟩
      · have hr := told.runnable
        rw [hw] at hr
        exact absurd hr (by decide)
      · exact absurd hwaits hno
    · have hl := hends.lives_other ht htu
      exact ⟨t, hends.child_other hc hne htu hl.1, hl, hw,
        (hends.remains hne).waitFilter ▸ hwaits.2⟩
  zombie {t} hz := by
    have hnot : ¬ a.Lives t := fun hl => hl.2 hz
    rcases h.zombie hz with ⟨hbz, hstatus, hparent⟩ | ⟨hd, horphan⟩
    · have ht : t ≠ 0 := by
        rintro rfl
        simp [h.before.zero] at hz
      have hremains := hends.remains (hF.ne_ended hends (.inr hbz) (.inl hnot))
      rcases hremains.rests (.inr hbz) with heq | ⟨-, hu, hdead⟩
      · refine .inl ⟨heq.trans hbz, hremains.exitStatus.trans hstatus, ?_⟩
        rw [hremains.parentTid, if_neg, hparent]
        exact fun hu => hremains.buried ht hu.2 (heq.trans hbz)
      · refine .inr ⟨hdead, fun hc hl => hends.lives_ne hl ?_⟩
        exact Slot.tid_inj (hc.parentTid.symm.trans (hparent.symm.trans hu))
    · have hremains := hends.remains (hF.ne_ended hends (.inl hd) (.inl hnot))
      exact .inr ⟨hremains.dead hd, fun hc hl => horphan hc (hends.lives_of hl)⟩
  child {t p} hc ht hp := by
    rcases h.child hc ht (hends.lives_of hp) with hcb | told
    · rcases eq_or_ne t u with rfl | htu
      · exact (h.report hends hF hs hcb hp).symm.imp And.right And.right
      refine .inl (hends.child_other hcb (hends.lives_ne hp) htu ?_)
      rcases b.lives_or_gone t with hl | hg
      · exact (hends.lives_other hl htu).1
      · rcases (hends.remains htu).rests hg with heq | ⟨-, hu, -⟩
        · exact heq ▸ hcb.state
        · exact absurd (Slot.tid_inj (hcb.parentTid.symm.trans hu)) (hends.lives_ne hp)
    · exact .inr ((h.told_ends hends hF told).resolve_right hp.not_gone)
  waits {p} hw := by
    rcases k'.lives_or_gone p with hp | hg
    · rcases h.waits hw with ⟨held, hfilter⟩ | ⟨q, told⟩ | hg
      · exact (h.waits_ends hends hF hs hp held hfilter hw).imp_right .inl
      · exact .inr ((h.told_ends hends hF told).imp_left fun h => ⟨q, h⟩)
      · exact absurd hg (hends.lives_of hp).not_gone
    · exact .inr (.inr hg)
  waited hw := h.waited (hends.expected hw).2
  old hc := .inl (h.old_child hs (hF.child_of_ends hends hc).1)
  unlinked hw := h.unlinked_act (.ends hends) hF hw

end Ending

/-! ## Parts of sections -/

theorem Mild.calm (hF : Mild F a) : Mild F.calm a where
  sound :=
    { hF.sound with
      notified := fun _ => False.elim
      kills := fun _ => False.elim
      ends := fun _ hends => by rcases hends with h | h <;> exact h.elim }
  reaps := hF.reaps
  spares p hp := ⟨(hF.spares p hp).1, id⟩
  kills _ _ := False.elim

theorem still_calm (h : F.Still) : F.calm.Still := { h with notified := fun _ => id }

/-- **Step.** -/
theorem Kin.act (h : Kin F.Still a b) (hact : Act F c b k') (hF : Mild F a) : Kin F.Still a k' := by
  by_cases hs : F.Still
  · have hcalm : ∀ t, ¬ (F.calm.kills t ∨ F.calm.exits t) := fun _ hends => hends.elim id id
    rcases hact.calm_or F.calmLe_calm with hact | ⟨u, hends⟩ | ⟨idx, bits, hn, hw, rfl⟩
    · exact h.calm hact hF.calm hcalm still_calm
    · exact h.ends hends hF hs
    · have hact : Act F.calm c b (b.notifDeliver c idx bits) :=
        .notify idx bits hn fun w hmem => hs.notified w (hw w hmem)
      exact h.calm hact hF.calm hcalm still_calm
  · exact h.calm hact hF (fun t ht => hs (hF.sound.ends t ht)) fun hs' => absurd hs' hs

/-- **Run.** -/
theorem Kin.acts (h : Kin F.Still a b) (hacts : Acts F c b k') (hF : Mild F a) : Kin F.Still a k' :=
  hacts.invariant (fun h hact => h.act hact hF) h

end Kernel

end Robu
