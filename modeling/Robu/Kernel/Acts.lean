import Robu.Kernel.Calls
import Robu.Kernel.Deeds

/-!
# Every kernel section is a sequence of acts

One lemma `does_*` for each function of the kernel model, from the scheduler up to
`Kernel.step`: it is a sequence of acts, and a sequence of deeds.
-/

namespace Robu.Kernel

variable {F : Effects} {D : Doing} {c : Cpu} {k k' k₁ k₂ : Kernel} {me t : Slot}
variable {cap : Kcap} {env : Env} {d next : Word} {params : ExecreqParams} {pagerTid : Tid}
variable {prio : Prio} {fill : Tcb → Tcb} {now : Word} {is : List Nat}

/-- The acts and the deeds of a section, or of a part of one. -/
structure Does (F : Effects) (D : Doing) (c : Cpu) (k k' : Kernel) : Prop where
  acts : Acts F c k k'
  works : Works D k k'

/-! ## Rules -/

theorem Acts.quiet (h : k.Alike k') : Acts F c k k' := .single (.quiet h)

theorem Acts.edit {f : Tcb → Tcb} (h : Edit F c k t f) :
    Acts F c k (k.modTcb t f) := .single (.edit h)

theorem Acts.to_alike (h : Acts F c k k₁) (ha : k₁.Alike k') : Acts F c k k' := h.tail (.quiet ha)

theorem Does.refl : Does F D c k k := ⟨.refl, .refl⟩

theorem Does.trans (h : Does F D c k k₁) (h' : Does F D c k₁ k₂) : Does F D c k k₂ :=
  ⟨h.acts.trans h'.acts, h.works.trans h'.works⟩

theorem Does.mono {F' : Effects} (h : Does F D c k k') (hle : F.Le F') : Does F' D c k k' :=
  ⟨h.acts.mono hle, h.works⟩

theorem Does.act (h : Act F c k k') (hc : k.Calm k') : Does F D c k k' := ⟨.single h, hc.works⟩

theorem Does.quiet (h : k.Alike k') (ha : k'.auth = k.auth) : Does F D c k k' :=
  .act (.quiet h) (h.calm ha)

theorem Does.to_alike (h : Does F D c k k₁) (hk : k₁.Alike k') (ha : k'.auth = k₁.auth) :
    Does F D c k k' := h.trans (.quiet hk ha)

/-- An edit after which nobody sleeps or waits for a request who did not before. -/
theorem Does.edit {f : Tcb → Tcb} (h : Edit F c k t f) (hf : (k.tcb t).Still (f (k.tcb t))) :
    Does F D c k (k.modTcb t f) :=
  .act (.edit h) (calm_modTcb t hf)

theorem does_own (hc : F.caller = some me) {f : Tcb → Tcb}
    (hf : (k.tcb me).OwnWrite (f (k.tcb me))) : Does F D c k (k.modTcb me f) :=
  .edit (.own hc hf) (.of_state (congrArg Tcb.state hf :) (congrArg Tcb.wakeAtTick hf :)
    (congrArg Tcb.execreqSlot hf :))

theorem does_modUctx (hc : F.caller = some me) (g : Uctx → Uctx) : Does F D c k (k.modUctx me g) :=
  does_own hc rfl

theorem does_setRax (hc : F.caller = some me) (e : IpcErr) : Does F D c k (k.setRax me e) :=
  does_modUctx hc _

theorem acts_schedNoteDeadline (tick : Word) : Acts F c k (k.schedNoteDeadline tick) := by
  unfold schedNoteDeadline
  split
  · exact .single (.deadline tick)
  · exact .refl

theorem does_schedWake (h : k.Asleep t → Edit F c k t fun x => { x with state := .ready }) :
    Does F D c k (k.schedWake c t) := by
  by_cases ha : k.Asleep t
  · exact (Does.edit (h ha) (.of_ne (s := .ready) rfl (by decide))).to_alike
      (alike_schedWake_of_asleep ha) (by simp)
  · rw [schedWake_of_not_asleep ha]
    exact .refl

theorem does_answer (may : F.answers) {g : Uctx → Uctx} (h : k.Answers t g) :
    Does F D c k ((k.modUctx t g).schedWake c t) :=
  (Does.edit (.answer may h) (.of_ne (s := .ready) rfl (by decide))).to_alike
    (alike_modUctx_schedWake g h.asleep) (by simp)

theorem does_hand (may : F.answers) {g : Uctx → Uctx} (h : k.Answers t g) :
    Does F D c k ((k.modUctx t g).schedDirectSwitch c t) :=
  .act (.hand may h) ((calm_modUctx t g).trans (calm_schedDirectSwitch c t))

theorem does_foldl {α : Type} {f : Kernel → α → Kernel} (h : ∀ k a, Does F D c k (f k a))
    (l : List α) : Does F D c k (l.foldl f k) := by
  refine List.foldlRecOn l f (motive := fun k' : Kernel => Does F D c k k') .refl ?_
  intro k' hk' a _
  exact hk'.trans (h k' a)

/-! ## Threads, capabilities and notifications -/

def Fills (k : Kernel) (prio : Prio) (fill : Tcb → Tcb) : Prop :=
  ∀ i, Tcb.Born { fill (k.freshTcb i prio) with state := .ready }

def Makes (k : Kernel) (F : Effects) : Prop :=
  F.creates ∧ ∀ t : Slot, (k.tcb t).state = .dead → F.before t = .dead

theorem Makes.alike (hm : k.Makes F) (h : k.Alike k') : k'.Makes F :=
  ⟨hm.1, fun t ht => hm.2 t ((h.state t).symm.trans ht)⟩

theorem does_createThread (hm : k.Makes F)
    (h : k.createThread prio fill = some (t, k')) (hf : k.Fills prio fill) : Does F D c k k' := by
  obtain ⟨hd, ha⟩ := createThread_spec h
  obtain ⟨hdead, hne⟩ := firstDead_spec hd
  exact ⟨(Acts.edit (.create hm.1 (hm.2 t hdead) hdead hne (hf t))).to_alike ha,
    (calm_createThread h).works⟩

/-- The new thread is alive, has no parent yet, and is not the one looked at before. -/
theorem createThread_born (h : k.createThread prio fill = some (t, k')) (hf : k.Fills prio fill) :
    (k'.tcb t).Born ∧ (k.tcb t).state = .dead ∧ ∀ i : Slot, i ≠ t →
      (k'.tcb i).vital = (k.tcb i).vital := by
  obtain ⟨hd, ha⟩ := createThread_spec h
  refine ⟨?_, (firstDead_spec hd).1, fun i hi => ?_⟩
  · have hv := ha.tcb t
    rw [modTcb_tcb_self] at hv
    show (k'.tcb t).vital.Born
    rw [hv]
    exact hf t
  · rw [ha.tcb i, k.modTcb_tcb_of_ne (by simpa using hi)]

theorem capsKept_append
    (h : cap.kind = .notification → cap.addr.toNat < k.notifCount ∨ F.grants .notification) :
    CapsKept F k (k.kcapTable ++ [cap]) where
  keep := fun hi _ => by
    rw [List.getElem?_append_left (List.getElem?_eq_some_iff.mp hi).1]
    exact hi
  fresh := fun {i cap'} hi hkind => by
    by_cases hlt : i < k.kcapTable.length
    · rw [List.getElem?_append_left hlt] at hi
      exact .inl hi
    rw [List.getElem?_append_right (by omega)] at hi
    have hcap : cap' = cap := by
      cases hj : i - k.kcapTable.length with
      | zero => rw [hj] at hi; exact (Option.some.inj hi).symm
      | succ j => rw [hj] at hi; simp at hi
    subst hcap
    exact .inr (h hkind)

theorem Acts.caps {caps : List Kcap} (h : CapsKept F k caps)
    (ha : ({ k with kcapTable := caps } : Kernel).Alike k') : Acts F c k k' :=
  .tail (.single (.caps h)) (.quiet ha)

theorem acts_gives (hg : cap.kind = .notification → cap.addr.toNat < k.notifCount ∨
    F.grants .notification) (h : k.Gives cap k') : Acts F c k k' := by
  rcases h with rfl | ⟨capacity, n, rfl⟩
  · exact .refl
  · exact Acts.caps (capsKept_append hg) { Alike.refl _ with }

theorem does_capRetype {kind : BitVec 32} (hm : CapKind.decode kind.toNat = some .tcb → k.Makes F)
    (env : Env) (caller : Tid) (untypedSlot : BitVec 32) (asSlot entry stack frameSlot : Word) :
    Does F D c k (k.capRetype env caller untypedSlot kind asSlot entry stack frameSlot).2 := by
  suffices h : Acts F c k _ ∧ Deeds D k _ from ⟨h.1, h.2, .capRetype ..⟩
  have hdrawn (n : Word) : k.Alike { k with untypedWatermark := n } := { Alike.refl k with }
  obtain ⟨k', hk', h⟩ :=
    k.retypes_capRetype env caller untypedSlot kind asSlot entry stack frameSlot
  rw [hk']
  rcases h with rfl | ⟨-, -, h⟩
  · exact ⟨.refl, .refl⟩
  cases h with
  | fails n => exact ⟨.quiet (hdrawn n), (hdrawn n).steady.deeds⟩
  | plain n _ hk hgives =>
    exact ⟨(Acts.quiet (hdrawn n)).trans (acts_gives (fun h => absurd h hk) hgives),
      ((hdrawn n).steady.gives hgives).deeds⟩
  | thread n hkind hcreate _ hk hgives =>
    unfold threadCreateUserLocked at hcreate
    have hnew := does_createThread (c := c) (D := D) ((hm hkind).alike (hdrawn n)) hcreate
      fun _ => rfl
    exact ⟨((Acts.quiet (hdrawn n)).trans hnew.acts).trans
      (acts_gives (fun h => absurd h hk) hgives),
        (((hdrawn n).steady.trans (calm_createThread hcreate).toSteady).gives hgives).deeds⟩
  | notification n _ haddr hgives =>
    refine ⟨((Acts.quiet (hdrawn n)).tail .newNotification).trans
      (acts_gives (fun _ => .inl ?_) hgives),
        (Steady.gives ((Steady.refl k).rest (by rfl)) hgives).deeds⟩
    show _ < k.notifCount + 1
    rw [haddr, BitVec.toNat_ofNat]
    exact Nat.lt_succ_of_le (Nat.mod_le _ _)
  | timer n _ hk hgives =>
    refine ⟨((Acts.quiet (hdrawn n)).tail (.timers _ _)).trans
      (acts_gives (fun h => absurd h hk) hgives),
        ((hdrawn n).steady.deeds.tail (.time .create ?_)).trans
        ((Steady.refl _).gives hgives).deeds⟩
    exact { (hdrawn n).steady.requests with }

/-- The timers listed notify only these threads when they expire at `now`. -/
def TimersHit (P : Slot → Prop) (now : Word) (is : List Nat) (k : Kernel) : Prop :=
  ∀ i ∈ is, (k.timerTable i).inUse = true → (k.timerTable i).armed = true →
    ¬ now < (k.timerTable i).deadlineTick → ∀ w ∈ k.notifWaiter (k.timerTable i).notifIdx.toNat, P w

theorem TimersHit.mono {P : Slot → Prop} (h : k.TimersHit P now is)
    (htimer : ∀ i ∈ is, k'.timerTable i = k.timerTable i)
    (hnotif : ∀ j, ∀ w ∈ k'.notifWaiter j, w ∈ k.notifWaiter j) : k'.TimersHit P now is := by
  intro i hi huse harmed hdue w hw
  rw [htimer i hi] at huse harmed hdue hw
  exact h i hi huse harmed hdue w (hnotif _ w hw)

theorem does_timerStep (hF : F.notifies) (ht : D.ticks) {i : Nat} (hi : i ∉ is)
    (hhit : k.TimersHit F.notified now (i :: is)) (h : k.timerStep c now next i = some (k', d)) :
    Does F D c k k' ∧ k'.TimersHit F.notified now is := by
  have hrest : k.TimersHit F.notified now is := fun j hj => hhit j (.tail i hj)
  obtain ⟨htimer, hnotif⟩ := timerStep_frame hi h
  refine ⟨?_, hrest.mono htimer hnotif⟩
  rcases timerStep_cases h with ⟨-, rfl⟩ | ⟨⟨huse, harmed, hdue⟩, T, rfl⟩
  · exact .refl
  · have hhit := hhit i (.head _) huse harmed (BitVec.not_lt.mpr hdue)
    exact (Does.act (.notify _ _ hF hhit) (calm_notifDeliver ..)).trans
      ⟨.single (.timers _ _), .single (.time (.tick ht) { (Calm.refl _).requests with }) rfl⟩

theorem does_timerLoop (hF : F.notifies) (ht : D.ticks) (hnd : is.Nodup)
    (hhit : k.TimersHit F.notified now is) (h : timerLoop c now is k next = some (k', d)) :
    Does F D c k k' := by
  induction is generalizing k next with
  | nil => cases h; exact .refl
  | cons i is ih =>
    unfold timerLoop at h
    split at h
    · cases h
    rename_i hstep
    obtain ⟨hi, hnd⟩ := List.nodup_cons.mp hnd
    obtain ⟨hdoes, hhit⟩ := does_timerStep hF ht hi hhit hstep
    exact hdoes.trans (ih hnd hhit h)

/-! ## Exec requests -/

theorem acts_modSlot (i : Fin 8) (f : ExecreqSlot → ExecreqSlot) : Acts F c k (k.modSlot i f) :=
  .single (.slots _)

theorem acts_freeSlot (i : Fin 8) : Acts F c k (k.freeSlot i) := acts_modSlot i _

theorem does_passRequest (hr : ¬ D.replies) {i : Fin 8} (h : (k.execSlots i).state = .queued) :
    Does F D c k (k.modSlot i fun s => { s with state := .delivered }) :=
  ⟨acts_modSlot i _, .single (.request (.deliver hr h) { (Calm.refl k).times with }) rfl⟩

/-- The request is handed to the file server: it gets the CPU, or it is woken. -/
theorem does_injectRequest (hr : ¬ D.replies) (may : F.answers) {i : Fin 8}
    (h : (k.execSlots i).state = .queued) (hw : k.ext2fsWaits t)
    (hk₁ : k.modSlot i (fun s => { s with state := .delivered }) = k₁) :
    Does F D c k ((k₁.injectRequest t i).schedDirectSwitch c t) ∧
      Does F D c k ((k₁.injectRequest t i).schedWake c t) := by
  have hsent : Does F D c k k₁ := hk₁ ▸ does_passRequest hr h
  have ha : k₁.Answers t fun f => bulkReadRegs f i (k₁.execSlots i).generation
      (k₁.execSlots i).params.name := .request _ _ _ (hk₁ ▸ hw)
  exact ⟨hsent.trans (does_hand may ha), hsent.trans (does_answer may ha)⟩

theorem does_execreqSubmit (ha : D.accepts) (hr : ¬ D.replies) (hc : F.caller = some me)
    (may : F.answers) (hreq : params.requesterTid = me.tid)
    (h : k.execreqSubmit c me params = some k') : Does F D c k k' := by
  unfold execreqSubmit at h
  split at h
  · cases h
  split at h
  · cases h
  rename_i ext2fs _ i hi
  cases h
  rw [schedBlock, setState, modTcb_modTcb]
  generalize hk₁ : (k.modSlot i _).modTcb me _ = k₁
  have haccept : Does F D c k k₁ := by
    rw [← hk₁]
    refine ⟨(acts_modSlot i _).tail (.edit (.waitExec i may hc)),
      .single (.request (.accept ha (allocSlot_spec hi) hreq)
        ⟨rfl, rfl, rfl, rfl, fun t => ?_⟩) rfl⟩
    rw [modTcb_tcb]
    split
    · rintro ⟨⟩
    · exact (Tcb.Still.refl _).sleeps
  have hqueued : (k₁.execSlots i).state = .queued := by
    rw [← hk₁]
    change (Function.update k.execSlots i _ i).state = _
    rw [Function.update_self]
  split
  · rename_i hw
    exact haccept.trans (does_injectRequest hr may hqueued hw rfl).1
  · exact haccept

theorem does_execreqSubmitPoll (ha : D.accepts) (hr : ¬ D.replies) (may : F.answers)
    (h : k.execreqSubmitPoll c params = some k') : Does F D c k k' := by
  unfold execreqSubmitPoll at h
  split at h
  · cases h
  split at h
  · cases h
  rename_i ext2fs _ i hi
  cases h
  generalize hk₁ : k.modSlot i _ = k₁
  have haccept : Does F D c k k₁ := by
    rw [← hk₁]
    exact ⟨acts_modSlot i _,
      .single (.request (.acceptPoll ha (allocSlot_spec hi)) { (Calm.refl k).times with }) rfl⟩
  have hqueued : (k₁.execSlots i).state = .queued := by rw [← hk₁, modSlot_execSlots_self]
  split
  · rename_i hw
    exact haccept.trans (does_injectRequest hr may hqueued (hk₁ ▸ hw) rfl).2
  · exact haccept

theorem acts_failRequester (may : F.answers) {i : Fin 8} (h : k.awaitsSlot t i) :
    Acts F c k (k.failRequester c t) :=
      (does_answer (D := .quiet) may (.spawn i .notFound 0 h)).acts

theorem does_elfLoadAndSpawnReq (hm : k.Makes F)
    (h : k.elfLoadAndSpawnReq env prio pagerTid = some (t, k')) : Does F D c k k' := by
  obtain ⟨_, hcreate⟩ := elfLoadAndSpawnReq_eq h
  exact does_createThread hm hcreate fun _ => rfl

theorem does_spawn (hm : k.Makes F) {p : Slot}
    (h : k.createThread prio fill = some (t, k')) (hf : k.Fills prio fill)
    (hp : F.live → k.Lives p) {f : Tcb → Tcb} (hadopt : ∃ pgid sid uctx, f (k'.tcb t) =
      { k'.tcb t with parentTid := p.tid, pgid := pgid, sid := sid, uctx := uctx }) :
    Does F D c k (k'.modTcb t f) := by
  obtain ⟨hborn, hdead, hother⟩ := createThread_born h hf
  obtain ⟨pgid, sid, uctx, hf'⟩ := hadopt
  refine (does_createThread hm h hf).trans ?_
  rw [k'.modTcb_congr (g := fun x =>
    { x with parentTid := p.tid, pgid := pgid, sid := sid, uctx := uctx }) hf']
  refine .edit (.adopt pgid sid uctx hm.1 (hm.2 t hdead) hborn fun hlive => ?_)
    (.of_state rfl rfl rfl)
  have hne : p ≠ t := by
    rintro rfl
    exact (hp hlive).1 hdead
  refine ⟨?_, hne⟩
  have hs : (k'.tcb p).state = (k.tcb p).state := (congrArg Tcb.state (hother p hne) :)
  rw [Lives, hs]
  exact hp hlive

theorem awaitsSlot_of_vital {i : Fin 8} (h : (k'.tcb t).vital = (k.tcb t).vital)
    (ha : k.awaitsSlot t i) : k'.awaitsSlot t i :=
  ⟨(congrArg Tcb.state h).trans ha.1, (congrArg Tcb.execreqSlot h).trans ha.2⟩

/-- What a reply of the file server sets off. -/
theorem does_execreqComplete (hr : D.replies) (hm : k.Makes F) (may : F.answers) (env : Env)
    (i : Fin 8) (generation : BitVec 16) (status : BitVec 32) (size : Word) :
    Does F D c k (k.execreqComplete c env i generation status size) := by
  unfold execreqComplete
  dsimp only
  split
  · exact .refl
  rename_i hopen
  rw [not_or, not_not, not_not] at hopen
  split
  · -- a request of the kernel
    rename_i hkernel
    have hdone : ∀ {k₁ : Kernel} (child : Option Slot), Acts F c k k₁ → k.Calm k₁ →
        Does F D c k (k₁.modSlot i fun s => { s with pollChild := child, state := .pollDone }) := by
      intro k₁ child hacts hk₁
      have hslot := congrFun hk₁.requests.execSlots i
      exact ⟨hacts.trans (acts_modSlot i _), hk₁.works.trans <| .single (.request
        (.done child hr (hslot ▸ hopen.1) (hslot ▸ hkernel)) { (Calm.refl k₁).times with }) rfl⟩
    split
    · exact hdone none .refl (.refl k)
    rename_i hspawn
    split at hspawn
    · exact hdone _ (does_elfLoadAndSpawnReq (D := D) hm hspawn).acts
        (calm_elfLoadAndSpawnReq hspawn)
    · cases hspawn
  rename_i hthread
  have hanswer : Release D k i .answered := .answered hr hopen.1 hthread
  split
  · rename_i hnone
    exact ⟨acts_freeSlot i, works_freeSlot_of_gone hanswer hnone⟩
  rename_i requester hget
  split
  · rename_i hno
    exact ⟨acts_freeSlot i, works_freeSlot_of_not_awaitsSlot hanswer hget hno⟩
  rename_i hawaits
  rw [not_not] at hawaits
  split
  · exact ⟨(acts_failRequester may hawaits).trans (acts_freeSlot i),
      works_answer hanswer hget (calm_modUctx _ _)⟩
  have hfree : ∀ {k₁ : Kernel}, Acts F c k (k₁.schedWake c requester) → k.Calm k₁ →
      Does F D c k ((k₁.schedWake c requester).freeSlot i) := fun hacts hk₁ =>
    ⟨hacts.trans (acts_freeSlot i), works_answer hanswer hget hk₁⟩
  have hmsg {g : Uctx → Uctx} (ha : k.Answers requester g) :
      Acts F c k ((k.modUctx requester g).schedWake c requester) :=
        (does_answer (D := D) may ha).acts
  split
  · split
    · exact hfree (hmsg (.spawn i .noMem 0 hawaits)) (calm_modUctx _ _)
    -- the child is created, and the requester learns of it
    rename_i child k₁ hspawn
    obtain ⟨image, hcreate⟩ := elfLoadAndSpawnReq_eq hspawn
    have hlive : k.Lives requester := (schedGetTcb_eq_some hget).2
    have hnew := does_spawn (c := c) (D := D) hm hcreate (fun _ => rfl) (fun _ => hlive)
      (f := fun x => { x with parentTid := requester.tid }) ⟨_, _, _, rfl⟩
    obtain ⟨-, hdead, hother⟩ := createThread_born hcreate fun _ => rfl
    have hne : requester ≠ child := by
      rintro rfl
      exact hlive.1 hdead
    have hstill : (k₁.modTcb child fun x => { x with parentTid := requester.tid }).awaitsSlot
      requester i := by
      refine awaitsSlot_of_vital ?_ hawaits
      rw [modTcb_tcb_of_ne _ (by simpa using hne)]
      exact hother requester hne
    exact hfree (hnew.trans (does_answer may (.spawn i .none _ hstill))).acts
      (((calm_createThread hcreate).trans (calm_modTcb _ (.of_state rfl rfl rfl))).trans
        (calm_modUctx _ _))
  · split
    · exact hfree (hmsg (.exec i .noMem hawaits)) (calm_setRax _ _)
    rename_i hexec
    refine hfree ?_ (calm_elfExecCurrent hexec)
    obtain ⟨image, -, rfl⟩ := Option.map_eq_some_iff.mp hexec
    refine (Acts.edit (.image image may hawaits)).to_alike (alike_modTcb_schedWake (f := fun x =>
      { x with
        addressSpace := image.addressSpace, sigActions := fun _ => {}, inSigHandler := false
        uctx := image.uctx }) ?_)
    unfold Asleep
    simp only [modTcb_tcb_self, hawaits.1]
    decide

end Robu.Kernel
