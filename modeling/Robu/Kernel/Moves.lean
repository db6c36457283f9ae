import Robu.Kernel.Calls
import Robu.Kernel.CoreView
import Robu.Kernel.Section

/-!
# Kernel functions as steps of the core

One lemma for each kernel function that reaches into the thread table: run from a state
in which the thread `me` is current on CPU `c` and running, it is a sequence of steps of
the core.  What a function needs to know about the threads it wakes or kills is a
hypothesis in terms of the state it is called in.
-/

namespace Robu.Kernel

open Function (update update_of_ne update_self)

variable {F : Scope} {c : Cpu} {k k' k₁ k₂ : Kernel} {me t : Slot}
variable {prio : Prio} {env : Env} {idx : Nat} {params : ExecreqParams} {final : ThreadState}
  {pgid target : Tid}
variable {d next now : Word} {is : List Nat} {signum : Int}

def Steps (F : Scope) (c : Cpu) (k k' : Kernel) : Prop := Core.Steps F c k.core k'.core

theorem Steps.of_eq (h : k'.core = k.core) : k.Steps F c k' := by
  rw [Steps, h]

theorem Steps.trans (h : k.Steps F c k₁) (h' : k₁.Steps F c k₂) : k.Steps F c k₂ :=
  Relation.ReflTransGen.trans h h'

theorem Steps.of_core (hk : k₁.core = k.core) (h : k₁.Steps F c k₂) : k.Steps F c k₂ := by
  rwa [Steps, ← hk]

theorem Steps.to_core (h : k.Steps F c k₁) (hk : k₂.core = k₁.core) : k.Steps F c k₂ := by
  rwa [Steps, hk]

abbrev Runs (k : Kernel) (c : Cpu) (me : Slot) : Prop := k.core.Runs c me

def MayCreate (F : Scope) (c : Cpu) (k : Kernel) : Prop :=
  ∀ i, k.core.state i = .dead → F.unused i ∧ k.core.current c ≠ some i

/-! ## Looking up threads -/

theorem schedGetTcb_congr (h : k'.core = k.core) (tid : Tid) :
    k'.schedGetTcb tid = k.schedGetTcb tid := by
  have hst : ∀ i : Slot, (k'.tcb i).state = (k.tcb i).state := fun i =>
    congrArg (fun s : Core => s.state i) h
  unfold schedGetTcb
  simp only [hst]

theorem schedGetTcb_eq_some {tid : Tid} (h : k.schedGetTcb tid = some t) :
    tid = t.tid ∧ (k.tcb t).state ≠ .dead ∧ (k.tcb t).state ≠ .zombie := by
  unfold schedGetTcb at h
  split at h
  · rename_i hlt
    dsimp only at h
    split at h
    · cases h
    rename_i hn
    cases h
    rw [not_or, not_or] at hn
    refine ⟨?_, hn.2⟩
    apply BitVec.eq_of_toNat_eq
    simp only [Slot.tid, BitVec.toNat_ofNat]
    omega
  · cases h

theorem schedGetTcb_wake (h : k'.core = k.core.wake t) (tid : Tid) :
    k'.schedGetTcb tid = k.schedGetTcb tid := by
  have hst : ∀ i : Slot, ((k'.tcb i).state = .dead ∨ (k'.tcb i).state = .zombie) ↔
      ((k.tcb i).state = .dead ∨ (k.tcb i).state = .zombie) := by
    intro i
    have hi : (k'.tcb i).state = if i = t ∧ k.core.Asleep t then .ready else (k.tcb i).state := by
      have := congrArg (fun s : Core => s.state i) h
      rw [Core.wake_eq] at this
      exact this
    rw [hi]
    split
    · rename_i ha
      obtain ⟨rfl, h₁, -, h₃⟩ := ha
      have h₁ : (k.tcb i).state ≠ .dead := h₁
      have h₃ : (k.tcb i).state ≠ .zombie := h₃
      simp [h₁, h₃]
    · rfl
  unfold schedGetTcb
  simp only [hst]

/-! ## Waking, blocking, creating -/

/-- A wake writes the thread table, the inbox and the reschedule flags. -/
theorem schedWake_eq (k : Kernel) (c : Cpu) (t : Slot) : ∃ tcb inbox flags,
    k.schedWake c t = { k with tcb := tcb, wakeInbox := inbox, needResched := flags } := by
  by_cases h : k.Asleep t
  · obtain ⟨flags, ⟨-, hwake⟩ | ⟨-, hwake⟩⟩ := schedWake_of_asleep h c
    · exact ⟨_, _, _, hwake⟩
    · exact ⟨_, _, _, hwake⟩
  · rw [schedWake_of_not_asleep h]
    exact ⟨_, _, _, rfl⟩

theorem steps_schedWake (hit : k.core.state t = .waitSend → F.hitsParked) :
    k.Steps F c (k.schedWake c t) := by
  rw [Steps, core_schedWake]
  exact Core.Steps.wake hit

/-- Waking a thread known to wait for something else than a parked send. -/
theorem steps_schedWake_of (st : ThreadState) (h : k.core.state t = st) (hst : st ≠ .waitSend) :
    k.Steps F c (k.schedWake c t) :=
  steps_schedWake fun hp => absurd (h.symm.trans hp) hst

theorem steps_setState (hme : k.Runs c me) {why : ThreadState} (hs : why ≠ .waitSend)
    (hr : why ≠ .waitRecv) : k.Steps F c (k.setState me why) := by
  rw [Steps, core_setState]
  exact (Core.Step.block hme hs hr).steps

theorem steps_createThread (hc : k.MayCreate F c) {fill : Tcb → Tcb} {i : Slot}
    (h : k.createThread prio fill = some (i, k'))
    (hfill : ∀ x, (fill x).ipcPartner = x.ipcPartner ∧ (fill x).ipcRecvAfter = x.ipcRecvAfter ∧
      (fill x).sqNext = x.sqNext ∧ (fill x).sendQHead = x.sendQHead ∧
      (fill x).sendQTail = x.sendQTail) :
    k.Steps F c k' ∧ k.core.state i = .dead ∧ ∃ ctx, k'.core = k.core.create i ctx := by
  obtain ⟨hdead, ctx, hcore⟩ := core_createThread h hfill
  refine ⟨?_, hdead, ctx, hcore⟩
  rw [Steps, hcore]
  exact (Core.Step.create hdead (hc i hdead).2 (hc i hdead).1).steps

theorem steps_elfLoadAndSpawnReq (hc : k.MayCreate F c) {pagerTid : Tid}
    {i : Slot} (h : k.elfLoadAndSpawnReq env prio pagerTid = some (i, k')) :
    k.Steps F c k' ∧ k.core.state i = .dead ∧ ∃ ctx, k'.core = k.core.create i ctx := by
  unfold elfLoadAndSpawnReq at h
  split at h
  · cases h
  · exact steps_createThread hc h fun _ => ⟨rfl, rfl, rfl, rfl, rfl⟩

/-! ## Capabilities and notifications -/

theorem core_gives {cap : Kcap} (h : k.Gives cap k') : k'.core = k.core := by
  rcases h with rfl | ⟨_, _, rfl⟩
  · rfl
  · exact core_congr rfl rfl rfl rfl

theorem core_capRetype (k : Kernel) (env : Env) (caller : Tid)
    (untypedSlot kind : BitVec 32) (asSlot entry stack frameSlot : Word) :
    (k.capRetype env caller untypedSlot kind asSlot entry stack frameSlot).2.core = k.core ∨
      ∃ i ctx, k.core.state i = .dead ∧
        (k.capRetype env caller untypedSlot kind asSlot entry stack frameSlot).2.core =
          k.core.create i ctx := by
  obtain ⟨k', hk', h⟩ :=
    k.retypes_capRetype env caller untypedSlot kind asSlot entry stack frameSlot
  rw [hk']
  rcases h with rfl | ⟨-, -, h⟩
  · exact .inl rfl
  cases h with
  | fails n => exact .inl (core_congr rfl rfl rfl rfl)
  | thread n _ hcreate _ _ hgives =>
    obtain ⟨hdead, ctx, hcore⟩ := core_createThread hcreate fun _ => ⟨rfl, rfl, rfl, rfl, rfl⟩
    exact .inr ⟨_, ctx, hdead, (core_gives hgives).trans hcore⟩
  | plain n _ _ hgives | notification n _ _ hgives | timer n _ _ hgives =>
    exact .inl ((core_gives hgives).trans (core_congr rfl rfl rfl rfl))

theorem steps_capRetype (hc : k.MayCreate F c) (env : Env) (caller : Tid)
    (untypedSlot kind : BitVec 32) (asSlot entry stack frameSlot : Word) :
    k.Steps F c (k.capRetype env caller untypedSlot kind asSlot entry stack frameSlot).2 := by
  rcases k.core_capRetype env caller untypedSlot kind asSlot entry stack frameSlot with
    h | ⟨i, ctx, hdead, h⟩
  · exact .of_eq h
  · rw [Steps, h]
    exact (Core.Step.create hdead (hc i hdead).2 (hc i hdead).1).steps

/-- **Delivery.**  `notif_deliver` hands the word to the waiter, or keeps it in the object. -/
theorem notifDeliver_eq (k : Kernel) (c : Cpu) (idx : Nat) (bits : Word) :
    k.notifDeliver c idx bits = { (match k.notifWaiter idx with
        | none => k
        | some w => (k.modUctx w fun f =>
            { f with r8 := (k.notifTable idx).word ||| bits, rax := IpcErr.none.toWord }).schedWake
              c w) with
      notifTable := update k.notifTable idx (if (k.notifTable idx).waiter = 0 then
          { k.notifTable idx with word := (k.notifTable idx).word ||| bits }
        else { k.notifTable idx with word := 0, waiter := 0 }) } := by
  unfold notifDeliver notifWaiter
  dsimp only
  by_cases h₀ : (k.notifTable idx).waiter = 0
  · rw [if_pos h₀, if_pos h₀, if_pos h₀]
  rw [if_neg h₀, if_neg h₀, if_neg h₀]
  cases k.schedGetTcb (k.notifTable idx).waiter with
  | none => rfl
  | some w =>
    obtain ⟨tcb, inbox, flags, heq⟩ := schedWake_eq (k.modUctx w fun f =>
      { f with r8 := (k.notifTable idx).word ||| bits, rax := IpcErr.none.toWord }) c w
    dsimp only
    rw [heq]
    rfl

theorem core_notifDeliver (k : Kernel) (c : Cpu) (idx : Nat) (bits : Word) :
    (k.notifDeliver c idx bits).core = match k.notifWaiter idx with
      | none => k.core
      | some w => k.core.wake w := by
  rw [notifDeliver_eq]
  cases k.notifWaiter idx with
  | none => exact core_congr rfl rfl rfl rfl
  | some w =>
    refine (core_congr rfl rfl rfl rfl).trans ((core_schedWake _ c w).trans ?_)
    rw [core_modUctx]

theorem steps_notifDeliver (bits : Word)
    (hit : ∀ w ∈ k.notifWaiter idx, k.core.state w = .waitSend → F.hitsParked) :
    k.Steps F c (k.notifDeliver c idx bits) := by
  rw [Steps, core_notifDeliver]
  split
  · exact .refl
  · rename_i w hw
    exact Core.Steps.wake (hit w hw)

/-! ## Waking several threads -/

theorem view_schedWake {β : Type} (k : Kernel) (c : Cpu) (t : Slot) {π : Tcb → β}
    (hπ : ∀ x st o, π { x with state := st, inboxNext := o } = π x) :
    (k.schedWake c t).view π = k.view π := by
  have hstate : (k.setState t .ready).view π = k.view π := k.view_modTcb_frame t (hπ _ _ _)
  by_cases h : k.Asleep t
  · obtain ⟨flags, ⟨-, hwake⟩ | ⟨-, hwake⟩⟩ := schedWake_of_asleep h c
    · rw [hwake]
      exact hstate
    · rw [hwake]
      exact ((k.setState t .ready).view_modTcb_frame t
        (f := fun x => { x with inboxNext := (k.setState t .ready).wakeInbox })
          (hπ _ _ _)).trans hstate
  · rw [schedWake_of_not_asleep h]

/-- `k'` differs from `k` by wakes: no thread becomes parked, dies or is created. -/
structure Woke (k k' : Kernel) : Prop where
  parked : ∀ {w}, k'.core.state w = .waitSend → k.core.state w = .waitSend
  lookup : ∀ tid, k'.schedGetTcb tid = k.schedGetTcb tid

theorem Woke.of_core (h : k'.core = k.core) : k.Woke k' :=
  ⟨fun hw => by rwa [h] at hw, schedGetTcb_congr h⟩

theorem Woke.of_wake (h : k'.core = k.core.wake t) : k.Woke k' := by
  refine ⟨fun {w} hw => ?_, schedGetTcb_wake h⟩
  rw [h, Core.wake_eq] at hw
  dsimp only at hw
  split at hw
  · cases hw
  · exact hw

theorem Woke.trans (h : k.Woke k₁) (h' : k₁.Woke k₂) : k.Woke k₂ :=
  ⟨fun hw => h.parked (h'.parked hw), fun tid => (h'.lookup tid).trans (h.lookup tid)⟩

/-! ## Timers -/

/-- The timers listed notify no parked thread when they expire at `now`. -/
def TimersSafe (F : Scope) (now : Word) (is : List Nat) (k : Kernel) : Prop :=
  ∀ i ∈ is, (k.timerTable i).inUse = true → (k.timerTable i).armed = true →
    ¬ now < (k.timerTable i).deadlineTick →
    ∀ w ∈ k.notifWaiter (k.timerTable i).notifIdx.toNat, k.core.state w = .waitSend → F.hitsParked

theorem TimersSafe.mono (h : k.TimersSafe F now is)
    (htimer : ∀ i ∈ is, k'.timerTable i = k.timerTable i)
    (hnotif : ∀ j, ∀ w ∈ k'.notifWaiter j, w ∈ k.notifWaiter j) (hw : k.Woke k') :
    k'.TimersSafe F now is := by
  intro i hi huse harmed hdue w hwait hst
  rw [htimer i hi] at huse harmed hdue hwait
  exact h i hi huse harmed hdue w (hnotif _ w hwait) (hw.parked hst)

theorem woke_notifDeliver (k : Kernel) (c : Cpu) (idx : Nat) (bits : Word) :
    k.Woke (k.notifDeliver c idx bits) := by
  have hcore := k.core_notifDeliver c idx bits
  cases hn : k.notifWaiter idx with
  | none => rw [hn] at hcore; exact .of_core hcore
  | some u => rw [hn] at hcore; exact .of_wake hcore

theorem notifWaiter_notifDeliver {j : Nat} {bits : Word} {w : Slot}
    (h : w ∈ (k.notifDeliver c idx bits).notifWaiter j) : w ∈ k.notifWaiter j := by
  have htable : ((k.notifDeliver c idx bits).notifTable j).waiter = (k.notifTable j).waiter ∨
      ((k.notifDeliver c idx bits).notifTable j).waiter = 0 := by
    rw [notifDeliver_eq]
    dsimp only
    rcases eq_or_ne j idx with rfl | hj
    · rw [update_self]
      split
      · exact .inl rfl
      · exact .inr rfl
    · rw [update_of_ne hj]
      exact .inl rfl
  unfold notifWaiter at h ⊢
  rw [(k.woke_notifDeliver c idx bits).lookup] at h
  rcases htable with heq | heq
  · rwa [heq] at h
  · simp [heq] at h

theorem timerTable_notifDeliver (k : Kernel) (c : Cpu) (idx : Nat) (bits : Word) :
    (k.notifDeliver c idx bits).timerTable = k.timerTable := by
  rw [notifDeliver_eq]
  dsimp only
  split
  · rfl
  rename_i w _
  obtain ⟨tcb, inbox, flags, heq⟩ := schedWake_eq (k.modUctx w fun f =>
    { f with r8 := (k.notifTable idx).word ||| bits, rax := IpcErr.none.toWord }) c w
  rw [heq]
  rfl

def Expired (k : Kernel) (now : Word) (i : Nat) : Prop :=
  (k.timerTable i).inUse = true ∧ (k.timerTable i).armed = true ∧
    (k.timerTable i).deadlineTick ≤ now
deriving Decidable

/-- A timer that has expired notifies, and is written. -/
theorem timerStep_cases {i : Nat} (h : k.timerStep c now next i = some (k', d)) :
    ¬ k.Expired now i ∧ k' = k ∨ k.Expired now i ∧ ∃ T,
      k' = { k.notifDeliver c (k.timerTable i).notifIdx.toNat (k.timerTable i).signalBits with
        timerTable := update k.timerTable i T } := by
  unfold timerStep at h
  dsimp only at h
  rw [timerTable_notifDeliver] at h
  split at h
  · rename_i hidle
    cases h
    refine .inl ⟨fun hx => ?_, rfl⟩
    rcases hidle with hu | ha
    · exact hu hx.1
    · exact ha hx.2.1
  rename_i hactive
  split at h
  · rename_i hlater
    cases h
    exact .inl ⟨fun hx => absurd hlater (BitVec.not_lt.mpr hx.2.2), rfl⟩
  rename_i hdue
  rw [not_or, not_not, not_not] at hactive
  have hx : k.Expired now i := ⟨hactive.1, hactive.2, BitVec.not_lt.mp hdue⟩
  split at h
  · cases h
    exact .inr ⟨hx, _, rfl⟩
  split at h
  · cases h
  · cases h
    exact .inr ⟨hx, _, rfl⟩

/-- The other timers stay, and no thread starts to wait. -/
theorem timerStep_frame {i : Nat} (hi : i ∉ is)
    (h : k.timerStep c now next i = some (k', d)) : (∀ j ∈ is, k'.timerTable j = k.timerTable j) ∧
      ∀ j, ∀ w ∈ k'.notifWaiter j, w ∈ k.notifWaiter j := by
  rcases timerStep_cases h with ⟨-, rfl⟩ | ⟨-, T, rfl⟩
  · exact ⟨fun _ _ => rfl, fun _ _ hw => hw⟩
  · refine ⟨fun j hj => update_of_ne (fun heq : j = i => hi (heq ▸ hj)) .., fun j w hw => ?_⟩
    exact notifWaiter_notifDeliver (c := c) (k := k) hw

/-- **Step.**  One timer notifies its waiter and leaves the other timers alone. -/
theorem steps_timerStep {i : Nat} (hi : i ∉ is)
    (hsafe : k.TimersSafe F now (i :: is)) (h : k.timerStep c now next i = some (k', d)) :
    k.Steps F c k' ∧ k'.TimersSafe F now is := by
  have hrest : k.TimersSafe F now is := fun j hj => hsafe j (.tail i hj)
  obtain ⟨htimer, hnotif⟩ := timerStep_frame hi h
  rcases timerStep_cases h with ⟨-, rfl⟩ | ⟨⟨huse, harmed, hdue⟩, T, hk'⟩
  · exact ⟨.of_eq rfl, hrest⟩
  have hcore : k'.core =
      (k.notifDeliver c (k.timerTable i).notifIdx.toNat (k.timerTable i).signalBits).core := by
    rw [hk']
    exact core_congr rfl rfl rfl rfl
  have hsteps : k.Steps F c (k.notifDeliver c _ (k.timerTable i).signalBits) :=
    steps_notifDeliver _ (hsafe i (.head _) huse harmed (BitVec.not_lt.mpr hdue))
  exact ⟨hsteps.to_core hcore,
    hrest.mono htimer hnotif ((woke_notifDeliver ..).trans (.of_core hcore))⟩

/-- **Run.**  The loop over the timers. -/
theorem steps_timerLoop {r : Kernel × Word} (hnd : is.Nodup)
    (hsafe : k.TimersSafe F now is) (h : timerLoop c now is k next = some r) :
    k.Steps F c r.1 := by
  induction is generalizing k next with
  | nil =>
    cases h
    exact .of_eq rfl
  | cons i is ih =>
    unfold timerLoop at h
    split at h
    · cases h
    rename_i k₁ next₁ hstep
    obtain ⟨hi, hnd⟩ := List.nodup_cons.mp hnd
    obtain ⟨hs, hsafe⟩ := steps_timerStep hi hsafe hstep
    exact hs.trans (ih hnd hsafe h)

/-! ## Exec requests -/

theorem steps_schedDirectSwitch (ht : k.core.state t = .waitRecv) (hands : F.handsOver) :
    k.Steps F c (k.schedDirectSwitch c t) := by
  have hcore : (k.schedDirectSwitch c t).core = k.core.handOver c t := by
    have h := k.core_setState t .running
    exact congrArg (fun s : Core => { s with current := update k.current c (some t) }) h
  rw [Steps, hcore]
  exact (Core.Step.handOver ht hands).steps

theorem steps_execreqSubmit (hme : k.Runs c me)
    (hands : k.allocSlot.isSome → ∀ t ∈ k.ext2fsTcb, k.ext2fsWaits t → F.handsOver)
    (h : k.execreqSubmit c me params = some k') : k.Steps F c k' := by
  unfold execreqSubmit at h
  split at h
  · cases h
  rename_i ext2fs hext
  split at h
  · cases h
  rename_i i hi
  dsimp only at h
  generalize hk₂ : (k.modSlot i fun s => { s with params := params, state := .queued }).modTcb me
    (fun x => { x with execreqSlot := BitVec.ofNat 32 i.val }) = k₂ at h
  have hcore : k₂.core = k.core := by
    rw [← hk₂]
    exact (core_modTcb _ _ rfl).trans (core_modSlot ..)
  have hblock : k.Steps F c (k₂.schedBlock me .waitExecreq) :=
    Steps.of_core hcore (steps_setState (by rw [Runs, hcore]; exact hme) (by decide) (by decide))
  cases h
  split
  · rename_i hwaits
    -- the server waits now, so it waited before the caller blocked
    have hne : ext2fs ≠ me := by
      rintro rfl
      have hst : (k₂.schedBlock ext2fs .waitExecreq).core.state ext2fs = .waitRecv := hwaits.1
      rw [schedBlock, core_setState, Core.setState_self] at hst
      cases hst
    have hbefore : k.ext2fsWaits ext2fs := by
      have h₁ : (k₂.schedBlock me .waitExecreq).core.state ext2fs = .waitRecv := hwaits.1
      have h₂ : (k₂.schedBlock me .waitExecreq).core.partner ext2fs = ipcTidAny := hwaits.2
      rw [schedBlock, core_setState, hcore] at h₁ h₂
      exact ⟨(Core.setState_of_ne _ hne _).symm.trans h₁, h₂⟩
    refine hblock.trans (Steps.of_core ?_ (steps_schedDirectSwitch ?_ ?_))
    · rw [injectRequest, core_modUctx, core_modSlot]
    · rw [injectRequest, core_modUctx, core_modSlot]
      exact hwaits.1
    · exact hands (by rw [hi]; rfl) ext2fs hext hbefore
  · exact hblock

/-- A request of the kernel itself wakes the file server if it waits for one. -/
theorem core_execreqSubmitPoll (h : k.execreqSubmitPoll c params = some k') :
    k'.core = k.core ∨ ∃ t, k.core.state t = .waitRecv ∧ k'.core = k.core.wake t := by
  unfold execreqSubmitPoll at h
  split at h
  · cases h
  rename_i ext2fs _
  split at h
  · cases h
  cases h
  split
  · rename_i hwaits
    refine .inr ⟨ext2fs, hwaits.1, ?_⟩
    rw [core_schedWake, injectRequest, core_modUctx, core_modSlot, core_modSlot]
  · exact .inl (core_modSlot ..)

theorem steps_failRequester (h : k.core.state t = .waitExecreq) :
    k.Steps F c (k.failRequester c t) := by
  refine Steps.of_core (core_modUctx ..) (steps_schedWake_of .waitExecreq ?_ (by decide))
  rw [core_modUctx]
  exact h

theorem core_execreqCancelRequester (k : Kernel) (tid : Tid) :
    (k.execreqCancelRequester tid).core = k.core := by
  refine List.foldlRecOn _ _ (motive := fun k' : Kernel => k'.core = k.core) rfl ?_
  intro k' hk' i _
  split
  · rw [core_freeSlot, hk']
  · exact hk'

/-- **Step.**  A waiting requester is woken with an error. -/
theorem steps_failSlot (k : Kernel) (i : Fin 8) : k.Steps F c (failSlot c k i) := by
  unfold failSlot
  split
  · exact .of_eq rfl
  split
  · exact .of_eq (core_freeSlot ..)
  rename_i requester _
  split
  · rename_i hw
    exact (steps_failRequester hw.1).to_core (core_freeSlot ..)
  · exact .of_eq (core_freeSlot ..)

/-- **Run.** -/
theorem steps_execreqFailAll (k : Kernel) : k.Steps F c (k.execreqFailAll c) := by
  refine List.foldlRecOn _ _ (motive := fun k' : Kernel => k.Steps F c k') (.of_eq rfl) ?_
  intro k' hk' i _
  exact hk'.trans (steps_failSlot k' i)

theorem core_elfExecCurrent (h : k.elfExecCurrent env t = some k') : k'.core = k.core := by
  obtain ⟨image, -, rfl⟩ := Option.map_eq_some_iff.mp h
  exact k.core_modTcb t rfl

/-- The reply to a request creates a thread, replaces the image of the requester or fails,
and wakes the requester. -/
theorem steps_execreqComplete (hc : k.MayCreate F c) (env : Env) (i : Fin 8)
    (generation : BitVec 16) (status : BitVec 32) (size : Word) :
    k.Steps F c (k.execreqComplete c env i generation status size) := by
  unfold execreqComplete
  dsimp only
  split
  · exact .of_eq rfl
  split
  · -- a request of the kernel itself: nobody waits for the reply
    split
    · exact .of_eq (core_modSlot ..)
    rename_i child k₁ hspawn
    refine Steps.to_core ?_ (core_modSlot ..)
    split at hspawn
    · exact (steps_elfLoadAndSpawnReq hc hspawn).1
    · cases hspawn
  split
  · exact .of_eq (core_freeSlot ..)
  rename_i requester _
  split
  · exact .of_eq (core_freeSlot ..)
  rename_i hwaits
  have hwaits : k.core.state requester = .waitExecreq := (not_not.mp hwaits).1
  split
  · exact (steps_failRequester hwaits).to_core (core_freeSlot ..)
  refine Steps.to_core ?_ (core_freeSlot ..)
  have hwake : ∀ {k₁ : Kernel}, k₁.core = k.core → k.Steps F c (k₁.schedWake c requester) :=
    fun hk => Steps.of_core hk (steps_schedWake_of .waitExecreq (by rw [hk]; exact hwaits)
      (by decide))
  split
  · split
    · exact hwake (core_modUctx ..)
    rename_i child k₁ hspawn
    obtain ⟨hs, hdead, ctx, hcore⟩ := steps_elfLoadAndSpawnReq hc hspawn
    have hne : requester ≠ child := by
      rintro rfl
      rw [hwaits] at hdead
      cases hdead
    refine hs.trans (Steps.of_core ?_ (steps_schedWake_of .waitExecreq ?_ (by decide)))
    · rw [core_modUctx]
      exact core_modTcb _ _ rfl
    · rw [core_modUctx, core_modTcb _ _ rfl, hcore]
      exact (Core.setState_of_ne _ hne _).trans hwaits
  · split
    · exact hwake (core_setRax ..)
    · rename_i hexec
      exact hwake (core_elfExecCurrent hexec)

/-! ## The end of a thread -/

theorem steps_wakeOrphan (k : Kernel) (t w : Slot) : k.Steps F c (k.wakeOrphan c t w) := by
  unfold wakeOrphan
  split
  · rename_i h
    refine Steps.of_core (core_setRax ..) (steps_schedWake_of .waitRecv ?_ (by decide))
    rw [core_setRax]
    exact h.1
  · exact .of_eq rfl

theorem steps_detachChild (k : Kernel) (w : Slot) : k.Steps F c (k.detachChild w) := by
  have hcore : (k.modTcb w fun x => { x with parentTid := 0 }).core = k.core := k.core_modTcb w rfl
  unfold detachChild
  dsimp only
  generalize (k.modTcb w fun x => { x with parentTid := 0 }) = k₁ at hcore ⊢
  split
  · rename_i hz
    refine Steps.of_core hcore ?_
    rw [Steps, core_setState]
    exact (Core.Step.reap hz).steps
  · exact .of_eq hcore

theorem steps_orphanStep (st : Kernel × Bool) (w : Slot) :
    st.1.Steps F c (orphanStep c t st w).1 := by
  unfold orphanStep
  dsimp only
  split
  · exact (steps_wakeOrphan ..).trans (steps_detachChild ..)
  · exact steps_wakeOrphan ..

theorem steps_announceDeath (k : Kernel) (t : Slot) : k.Steps F c (k.announceDeath c t) := by
  have hcore : (((k.kcapInvalidateTcbDeath t.tid).notifInvalidateWaiterDeath
      t.tid).execreqCancelRequester t.tid).core = k.core :=
    (core_execreqCancelRequester ..).trans (core_congr rfl rfl rfl rfl)
  unfold announceDeath
  dsimp only
  split
  · exact Steps.of_core hcore (steps_execreqFailAll _)
  · exact .of_eq hcore

/-- **Death.**  `terminate_tcb` is the death of the thread followed by wakes and reaps. -/
theorem steps_terminateTcb (hdie : Core.Step F c k.core (k.core.die t final)) :
    k.Steps F c (k.terminateTcb c t final) := by
  unfold terminateTcb
  dsimp only
  have hflush : k.Steps F c (flushFrom c 65 ((k.setState t final).clearSendQ t)
      ((k.setState t final).tcb t).sendQHead) := by
    rw [Steps, core_flush]
    exact hdie.steps
  generalize flushFrom c 65 ((k.setState t final).clearSendQ t)
    ((k.setState t final).tcb t).sendQHead = k₂ at hflush ⊢
  have hloop : k.Steps F c (tableSlots.foldl (orphanStep c t) (k₂, false)).1 := by
    refine List.foldlRecOn _ _ (motive := fun st : Kernel × Bool => k.Steps F c st.1) hflush ?_
    intro st hst w _
    exact hst.trans (steps_orphanStep st w)
  generalize tableSlots.foldl (orphanStep c t) (k₂, false) = st at hloop ⊢
  have hrelease : (st.1.releaseAddressSpace t st.2).core = st.1.core := by
    unfold releaseAddressSpace
    split
    · exact core_modTcb _ _ rfl
    · rfl
  exact hloop.trans (Steps.of_core hrelease (steps_announceDeath _ t))

theorem steps_schedTerminateTo (hme : k.Runs c me)
    (hf : final = .dead ∨ final = .zombie) : k.Steps F c (k.schedTerminateTo c me final) :=
  (steps_terminateTcb (.exit hme hf)).to_core (core_requestResched ..)

theorem steps_schedTerminate {victimTid : Tid}
    (hit : ∀ t ∈ k.schedGetTcb victimTid, k.core.state t = .waitSend → F.hitsParked)
    (h : k.schedTerminate c victimTid = some k') : k.Steps F c k' := by
  unfold schedTerminate at h
  split at h
  · cases h
  rename_i t ht
  split at h
  · cases h
  rename_i hrun
  rw [not_or] at hrun
  obtain rfl := Option.some.inj h
  obtain ⟨-, hdead, hzombie⟩ := schedGetTcb_eq_some ht
  exact steps_terminateTcb (.kill ⟨hdead, hrun.2, hzombie⟩ (hit t ht))

theorem steps_spawnExitCurrent (hme : k.Runs c me) (status : BitVec 32) :
    k.Steps F c (k.spawnExitCurrent c me status) := by
  have hcore : (k.modTcb me fun x => { x with exitStatus := status }).core = k.core :=
    k.core_modTcb me rfl
  unfold spawnExitCurrent
  dsimp only
  generalize (k.modTcb me fun x => { x with exitStatus := status }) = k₁ at hcore ⊢
  have hme₁ : k₁.Runs c me := by rw [Runs, hcore]; exact hme
  refine Steps.of_core hcore ?_
  generalize (if (k₁.tcb me).parentTid = 0 then
    none else k₁.schedGetTcb (k₁.tcb me).parentTid) = parent
  cases parent with
  | none => exact steps_schedTerminateTo hme₁ (.inl rfl)
  | some p =>
    dsimp only
    split
    · rename_i hw
      have hwait : k₁.core.state p = .waitChild := hw.1
      refine Steps.trans (Steps.of_core (core_modUctx ..)
        (steps_schedWake_of .waitChild ?_ (by decide))) (steps_schedTerminateTo ?_ (.inl rfl))
      · rw [core_modUctx]
        exact hwait
      · rw [Runs, core_schedWake, core_modUctx]
        exact hme₁.wake p
    · exact steps_schedTerminateTo hme₁ (.inr rfl)

/-! ## Signals -/

/-- Marking a signal pending is invisible to the core, the wake is not. -/
theorem core_sigSend (h : k.sigSend c target signum = some k') :
    isSignal signum ∧ ∃ t ∈ k.schedGetTcb target, k'.core = k.core.wake t ∧
      k'.view Tcb.pgid = k.view Tcb.pgid := by
  unfold sigSend at h
  split at h
  · cases h
  rename_i hs
  rw [not_or] at hs
  split at h
  · cases h
  rename_i t ht
  cases h
  refine ⟨⟨by omega, by omega⟩, t, ht, ?_, ?_⟩
  · rw [core_schedWake, core_modTcb _ _ rfl]
  · refine (view_schedWake _ c t fun _ _ _ => rfl).trans ?_
    exact k.view_modTcb_frame t rfl

theorem steps_sigSend
    (hit : isSignal signum → ∀ t ∈ k.schedGetTcb target, k.core.state t = .waitSend → F.hitsParked)
    (h : k.sigSend c target signum = some k') : k.Steps F c k' := by
  obtain ⟨hs, t, ht, hcore, -⟩ := core_sigSend h
  rw [Steps, hcore]
  exact Core.Steps.wake (hit hs t ht)

structure Signalled (F : Scope) (c : Cpu) (k k' : Kernel) : Prop where
  steps : k.Steps F c k'
  woke : k.Woke k'
  pgid : k'.view Tcb.pgid = k.view Tcb.pgid

/-- **Step.**  One member of the group is signalled. -/
theorem Signalled.signalMember {i : Slot}
    (hit : isSignal signum → (k.tcb i).pgid = pgid → k.core.state i = .waitSend → F.hitsParked)
    (h : k.Signalled F c k') : k.Signalled F c (signalMember c pgid signum k' i) := by
  unfold Kernel.signalMember
  split
  · exact h
  rename_i t ht
  obtain rfl : i = t := Slot.tid_inj (schedGetTcb_eq_some ht).1
  split
  · exact h
  rename_i hp
  cases hs : k'.sigSend c i.tid signum with
  | none => exact h
  | some k₁ =>
    obtain ⟨hsig, t, ht', hcore, hpgid⟩ := core_sigSend hs
    obtain rfl : i = t := Option.some.inj (ht.symm.trans ht')
    have hmember : (k.tcb i).pgid = pgid := by
      rw [← not_not.mp hp]
      exact (congrFun h.pgid i).symm
    refine ⟨h.steps.trans ?_, h.woke.trans (.of_wake hcore), hpgid.trans h.pgid⟩
    show k'.Steps F c k₁
    rw [Steps, hcore]
    exact Core.Steps.wake fun hst => hit hsig hmember (h.woke.parked hst)

/-- **Run.**  A group is signalled. -/
theorem steps_schedSignalPgid (hit : pgid ≠ 0 → isSignal signum →
    ∀ i ∈ tableSlots, (k.tcb i).pgid = pgid →
      k.core.state i = .waitSend → F.hitsParked) :
    k.Steps F c (k.schedSignalPgid c pgid signum) := by
  unfold schedSignalPgid
  split
  · exact .of_eq rfl
  rename_i hp
  refine (List.foldlRecOn tableSlots (signalMember c pgid signum)
    (motive := fun k' : Kernel => k.Signalled F c k') ?_ ?_).steps
  · exact ⟨.of_eq rfl, .of_core rfl, rfl⟩
  · intro k' hk' i hi
    exact hk'.signalMember fun hs hm => hit hp hs i hi hm

/-- A console interrupt wakes the reader and signals the foreground group. -/
theorem steps_consoleInterrupt {vt : Fin 6}
    (hit : k.consoleFgPgid vt ≠ 0 → isSignal signum → ∀ i ∈ tableSlots,
      (k.tcb i).pgid = k.consoleFgPgid vt → k.core.state i = .waitSend → F.hitsParked) :
    k.Steps F c (k.consoleInterrupt c vt signum) := by
  unfold consoleInterrupt
  dsimp only
  -- the first part wakes at most the thread that reads the console
  have hfirst : ∀ {k₁ : Kernel}, k.Steps F c k₁ → k.Woke k₁ → k₁.view Tcb.pgid = k.view Tcb.pgid →
      k₁.consoleFgPgid = k.consoleFgPgid →
      k.Steps F c (k₁.schedSignalPgid c (k₁.consoleFgPgid vt) signum) := by
    intro k₁ hs hw hp hfg
    refine hs.trans (steps_schedSignalPgid fun h₀ hsig i hi hm hst => ?_)
    rw [hfg] at h₀ hm
    exact hit h₀ hsig i hi ((congrFun hp i).symm.trans hm) (hw.parked hst)
  have hclear : ∀ k₁ : Kernel, ({ k₁ with
      consoleReadWaiter := update k₁.consoleReadWaiter vt 0 } : Kernel).core = k₁.core :=
    fun _ => core_congr rfl rfl rfl rfl
  split
  · exact hfirst (.of_eq rfl) (.of_core rfl) rfl rfl
  split
  · exact hfirst (.of_eq (hclear k)) (.of_core (hclear k)) rfl rfl
  rename_i t _
  split
  · rename_i hw
    have hcore := (hclear (k.setRax t .canceled)).trans (k.core_setRax t .canceled)
    have hpgid : (k.setRax t .canceled).view Tcb.pgid = k.view Tcb.pgid := by
      unfold setRax modUctx
      exact k.view_modTcb_frame t rfl
    set k₁ : Kernel := { k.setRax t .canceled with
      consoleReadWaiter := update (k.setRax t .canceled).consoleReadWaiter vt 0 }
    refine hfirst (Steps.of_core hcore (steps_schedWake_of .waitConsole ?_ (by decide)))
      ((Woke.of_core hcore).trans (.of_wake (core_schedWake ..))) ?_ ?_
    · rw [hcore]
      exact hw
    · exact (view_schedWake _ c t fun _ _ _ => rfl).trans hpgid
    · obtain ⟨tcb, inbox, flags, heq⟩ := schedWake_eq k₁ c t
      rw [heq]
      rfl
  · exact hfirst (.of_eq (hclear k)) (.of_core (hclear k)) rfl rfl

theorem steps_sigTryDeliver (hme : k.Runs c me) : k.Steps F c (k.sigTryDeliver c me) := by
  have hack : ∀ mark, (k.ack me mark).core = k.core := fun _ => k.core_modTcb me rfl
  have hdelivers := k.delivers_sigTryDeliver c me
  generalize k.sigTryDeliver c me = k' at hdelivers ⊢
  cases hdelivers with
  | none => exact .of_eq rfl
  | ack mark => exact .of_eq (hack mark)
  | exit mark =>
    exact Steps.of_core (hack mark) (steps_spawnExitCurrent (by rw [Runs, hack]; exact hme) _)
  | handler mark => exact .of_eq ((core_modTcb _ _ rfl).trans (hack mark))

end Robu.Kernel
