import Robu.Kernel.Children
import Robu.Kernel.FaultQueue
import Robu.Kernel.Vacant

/-!
# Who may mount

`IPC_FLAG_MOUNT` is open to threads without a parent, and the threads that the kernel creates
at boot have none.  But a thread also loses its parent when the parent ends, and a thread made
by `cap_retype` never has one.

A record beside the kernel says which threads the kernel created: those of its own sections,
and the programs it asks the file server for.
-/

namespace Robu

namespace Kernel

variable {F : Effects} {c : Cpu} {env : Env} {k k' k₁ : Kernel} {l : Label} {i t me : Slot}
  {y : Tcb}

/-! ## Parents -/

/-- A thread keeps its parent until the parent ends or the entry is used again. -/
theorem Turn.parent (h : Turn F c k i y) :
    y.parentTid = (k.tcb i).parentTid ∨ F.creates ∧ F.before i = .dead ∨
      ∃ u, (F.kills u ∨ F.exits u) ∧ (k.tcb i).parentTid = u.tid := by
  -- the end of a thread that may be the parent
  have hend : ∀ {u : Slot} {x : Tcb}, (F.kills u ∨ F.exits u) → x.parentTid = (k.tcb i).parentTid →
      y.parentTid = (if i ≠ 0 ∧ x.parentTid = u.tid then 0 else x.parentTid) →
      y.parentTid = (k.tcb i).parentTid ∨ F.creates ∧ F.before i = .dead ∨
        ∃ u, (F.kills u ∨ F.exits u) ∧ (k.tcb i).parentTid = u.tid := by
    intro u x hu hx hy
    by_cases hp : i ≠ 0 ∧ x.parentTid = u.tid
    · exact .inr (.inr ⟨u, hu, hx ▸ hp.2⟩)
    · rw [if_neg hp] at hy
      exact .inl (hy.trans hx)
  cases h with
  | same body | hand _ _ body | park _ _ _ _ body | notified _ _ body | waitNotif _ _ body
  | reaped _ _ _ body | reaper _ body | picked _ body => exact .inl (congrArg Tcb.parentTid body :)
  | edit edit body =>
    have hp := congrArg Tcb.parentTid body
    cases edit with
    | own _ own => exact .inl (hp.trans (congrArg Tcb.parentTid own :))
    | create hm unused | adopt _ _ _ hm unused => exact .inr (.inl ⟨hm, unused⟩)
    | regroup | sleep | console | receive | waitChild | waitExec | stall | yield | answer
    | image | sent
    | sentReceive | alarm | resolve | signal | status | ack | handler | preempt => exact .inl hp
  | ended ends _ _ _ body =>
    exact hend (ends.imp_right And.left) rfl (congrArg Tcb.parentTid body :)
  | fate ends _ fate => exact hend ends rfl fate.parentTid
  | told exits _ _ _ _ fate => exact hend (.inr exits) rfl fate.parentTid

/-- **Run.**  A thread whose parent does not end keeps it. -/
theorem Acts.parent (h : Acts F c k k') (hi : F.creates → F.before i ≠ .dead)
    (hp : ∀ u, F.kills u ∨ F.exits u → (k.tcb i).parentTid ≠ u.tid) :
    (k'.tcb i).parentTid = (k.tcb i).parentTid := by
  refine h.invariant (I := fun k' => (k'.tcb i).parentTid = (k.tcb i).parentTid) ?_ rfl
  intro k₁ k₂ ih hact
  rcases (hact.turn i).parent with heq | ⟨hm, hd⟩ | ⟨u, hu, heq⟩
  · exact heq.trans ih
  · exact absurd hd (hi hm)
  · exact absurd (ih.symm.trans heq) (hp u hu)

/-- **Run.**  A thread that has ended stays so, unless its entry is used again. -/
theorem Acts.gone (h : Acts F c k k') (hi : F.creates → F.before i ≠ .dead) (hc : F.caller ≠ some i)
    (ht : ¬ F.takes i) (hf : ¬ F.faults i) (hg : (k.tcb i).state.Gone) : (k'.tcb i).state.Gone := by
  refine h.invariant (I := fun k' => (k'.tcb i).state.Gone) (fun hg hact => ?_) hg
  exact (hact.turn i).gone ⟨hc, ht, hf, hi⟩ hg

/-! ## Births -/

inductive Origin
  | kernel
  | thread (parent : Slot)
  | retype
deriving DecidableEq

def repliedSlot (k : Kernel) (cur : Slot) : Option (Fin 8) :=
  let f := (k.tcb cur).uctx
  let slot : BitVec 32 := f.r9.setWidth 32
  if cur.tid ≠ k.ext2fsTid then none
  else if h : slot.toNat < 8 then
    let s := k.execSlots ⟨slot.toNat, h⟩
    if s.state ≠ .delivered ∨ s.generation ≠ f.r10.setWidth 16 then none else some ⟨slot.toNat, h⟩
  else none

/-- The one for whom a reply to the request in slot `i` creates a thread. -/
def slotOrigin (k : Kernel) (i : Fin 8) : Option Origin :=
  let tid := (k.execSlots i).params.requesterTid
  if tid = 0 then some .kernel else (k.schedGetTcb tid).map .thread

def callOrigin (k : Kernel) (cur : Slot) : Option Origin :=
  let f := (k.tcb cur).uctx
  match decode f with
  | .retype => if CapKind.decode (f.r9.setWidth 32).toNat = some .tcb then some .retype else none
  | .spawn | .fork => some (.thread cur)
  | .sysInfo =>
    if decodeInfo f.r8.toNat = .execreqReply then (k.repliedSlot cur).bind k.slotOrigin else none
  | _ => none

def origin (k : Kernel) : Label → Option Origin
  | .kern _ _ => some .kernel
  | .start _ => none
  | .trap c e => (k.caller c e).bind (k.enter c e).callOrigin

def Origin.Marks : Origin → Tcb → Prop
  | .kernel, _ | .retype, _ => True
  | .thread p, x => x.parentTid = p.tid

/-- A thread that is there after `k` and was not there before is of the given origin. -/
def Births (k : Kernel) (o : Option Origin) (k' : Kernel) : Prop :=
  ∀ t : Slot, (k.tcb t).state = .dead → ¬ (k'.tcb t).state.Gone → ∃ a ∈ o, a.Marks (k'.tcb t)

variable {o : Option Origin}

theorem births_of_gone (h : ∀ t : Slot, (k.tcb t).state.Gone → (k'.tcb t).state.Gone) :
    k.Births o k' :=
  fun t ht hb => absurd (h t (.inl ht)) hb

theorem Births.trans_same (h : k.Births o k₁)
    (hg : ∀ t : Slot, (k₁.tcb t).state.Gone → (k'.tcb t).state.Gone)
    (hp : ∀ t : Slot, (k'.tcb t).parentTid = (k₁.tcb t).parentTid) : k.Births o k' := by
  intro t ht hb
  obtain ⟨a, ha, hmark⟩ := h t ht fun hgone => hb (hg t hgone)
  refine ⟨a, ha, ?_⟩
  cases a with
  | kernel | retype => trivial
  | thread p => exact (hp t).trans hmark

theorem Births.frame {f : Tcb → Tcb} (h : k.Births o k₁) (u : TcbRef)
    (hs : ∀ x, (f x).state = x.state) (hp : ∀ x, (f x).parentTid = x.parentTid) :
    k.Births o (k₁.modTcb u f) := by
  refine h.trans_same (fun t hg => ?_) (congrFun (k₁.view_modTcb_frame u (hp _)))
  have hstate : ((k₁.modTcb u f).tcb t).state = (k₁.tcb t).state :=
    congrFun (k₁.view_modTcb_frame u (hs _)) t
  rwa [hstate]

theorem Births.modUctx (h : k.Births o k₁) (u : TcbRef) (g : Uctx → Uctx) :
    k.Births o (k₁.modUctx u g) :=
  h.frame u (fun _ => rfl) fun _ => rfl

theorem gone_schedWake {u : Slot} (hg : (k.tcb t).state.Gone) :
    ((k.schedWake c u).tcb t).state.Gone := by
  rcases eq_or_ne t u with rfl | hne
  · rwa [schedWake_of_not_asleep (not_asleep_of_gone hg)]
  · rw [(k.alike_schedWake c u).state t, k.modTcb_tcb_of_ne (by simpa using hne)]
    exact hg

theorem Births.schedWake (h : k.Births o k₁) (u : Slot) : k.Births o (k₁.schedWake c u) :=
  h.trans_same (fun _ => gone_schedWake) (congrFun (k₁.view_schedWake c u fun _ _ _ => rfl))

theorem births_refl : k.Births o k := births_of_gone fun _ => id

theorem births_createThread {prio : Prio} {fill : Tcb → Tcb} {p child : Slot} {g : Tcb → Tcb}
    (hcreate : k.createThread prio fill = some (child, k₁)) (hf : k.Fills prio fill)
    (hg : ∀ x, (g x).parentTid = p.tid) : k.Births (some (.thread p)) (k₁.modTcb child g) := by
  intro t ht hborn
  obtain ⟨-, -, hother⟩ := createThread_born hcreate hf
  refine ⟨_, rfl, ?_⟩
  rcases eq_or_ne t child with rfl | hne
  · rw [modTcb_tcb_self]
    exact hg _
  · rw [k₁.modTcb_tcb_of_ne (by simpa using hne)] at hborn
    exact absurd (.inl ((congrArg Tcb.state (hother t hne) :).trans ht)) hborn

theorem births_callSpawn (hme : ¬ (k.tcb me).state.Gone) :
    k.Births (some (.thread me)) (k.callSpawn c env me) := by
  unfold callSpawn
  dsimp only
  split
  · exact births_refl.modUctx _ _
  split
  · split
    · exact births_refl.modUctx _ _
    · rename_i hspawn
      obtain ⟨image, hcreate⟩ := elfLoadAndSpawnReq_eq hspawn
      exact (births_createThread hcreate (fun _ => rfl) fun _ => rfl).modUctx _ _
  · cases hsub : k.submitExecreq c me _ true with
    | none =>
      rw [Option.getD_none]
      exact births_refl.modUctx _ _
    | some k₁ =>
      -- the request only blocks the caller
      have hacts : Acts { k.quietEffects with caller := some me, answers := True } c k k₁ :=
        (does_execreqSubmit (D := { Doing.quiet with accepts := True }) trivial id rfl trivial rfl
          hsub).acts
      refine births_of_gone fun t ht => hacts.gone False.elim (fun hc => ?_) id id ht
      cases hc
      exact hme ht

theorem births_callFork : k.Births (some (.thread me)) (k.callFork env me) := by
  unfold callFork
  dsimp only
  split
  · exact births_refl.modUctx _ _
  split
  · exact births_refl.modUctx _ _
  split
  · exact births_refl.modUctx _ _
  rename_i hcreate
  unfold threadCreateForkedLocked at hcreate
  exact (births_createThread hcreate (fun _ => rfl) fun _ => rfl).modUctx _ _

theorem births_execreqComplete (env : Env) (i : Fin 8) (generation : BitVec 16) (status : BitVec 32)
    (size : Word) (ho : (k.execSlots i).state = .delivered →
      (k.execSlots i).generation = generation → o = k.slotOrigin i) :
    k.Births o (k.execreqComplete c env i generation status size) := by
  unfold execreqComplete
  dsimp only
  split
  · exact births_refl
  rename_i hslot
  rw [not_or, not_not, not_not] at hslot
  have ho := ho hslot.1 hslot.2
  split
  · rename_i hkernel
    rw [slotOrigin, if_pos hkernel] at ho
    exact fun _ _ _ => ⟨_, ho, trivial⟩
  rename_i hthread
  rw [slotOrigin, if_neg hthread] at ho
  split
  · exact births_refl
  rename_i requester hget
  rw [hget, Option.map_some] at ho
  subst ho
  split
  · exact births_refl
  split
  · exact (births_refl.modUctx _ _).schedWake _
  refine Births.schedWake ?_ requester
  split
  · split
    · exact births_refl.modUctx _ _
    · rename_i hspawn
      obtain ⟨image, hcreate⟩ := elfLoadAndSpawnReq_eq hspawn
      exact (births_createThread hcreate (fun _ => rfl) fun _ => rfl).modUctx _ _
  · split
    · exact births_refl.modUctx _ _
    rename_i hexec
    obtain ⟨image, -, rfl⟩ := Option.map_eq_some_iff.mp hexec
    exact births_refl.frame _ (fun _ => rfl) fun _ => rfl

theorem births_infoExecreqReply :
    k.Births ((k.repliedSlot me).bind k.slotOrigin) (k.infoExecreqReply c env me) := by
  unfold infoExecreqReply
  dsimp only
  split
  · exact births_refl.modUctx _ _
  rename_i hserver
  split
  · rename_i hrange
    refine (births_execreqComplete env _ _ _ _ fun hd hg => ?_).modUctx _ _
    unfold repliedSlot
    dsimp only
    rw [if_neg hserver, dif_pos hrange, if_neg (not_or.mpr ⟨not_not.mpr hd, not_not.mpr hg⟩),
      Option.bind_some]
  · exact births_refl.modUctx _ _

def Spared (F : Effects) (k : Kernel) : Prop :=
  ∀ t : Slot, (k.tcb t).state.Gone → F.caller ≠ some t ∧ ¬ F.takes t ∧ ¬ F.faults t

theorem births_acts (h : Acts F c k k') (hs : Spared F k) (hc : ¬ F.creates) : k.Births o k' := by
  refine births_of_gone fun t ht => ?_
  obtain ⟨hcaller, htakes, hfaults⟩ := hs t ht
  exact h.gone (fun hm => absurd hm hc) hcaller htakes hfaults ht

/-- **System calls.** -/
theorem births_sysIpc (hcur : k.current c = some me) (hs : Spared (k.callEffects c me) k)
    (h : k.sysIpc c env me = some k') : k.Births (k.callOrigin me) k' := by
  have hme : ¬ (k.tcb me).state.Gone := fun hg => (hs me hg).1 rfl
  by_cases hm : k.makesThread me
  · unfold makesThread at hm
    dsimp only at hm
    unfold sysIpc at h
    dsimp only at h
    cases hd : decode (k.tcb me).uctx with
    | retype =>
      simp only [hd] at hm
      simp only [callOrigin, hd, if_pos hm]
      exact fun _ _ _ => ⟨_, rfl, trivial⟩
    | spawn =>
      simp only [hd] at h
      cases h
      simp only [callOrigin, hd]
      exact births_callSpawn hme
    | fork =>
      simp only [hd] at h
      cases h
      simp only [callOrigin, hd]
      exact births_callFork
    | sysInfo =>
      simp only [hd] at h hm
      simp only [callSysInfo, hm] at h
      cases h
      simp only [callOrigin, hd, if_pos hm]
      exact births_infoExecreqReply
    | _ => simp only [hd] at hm
  · exact births_acts (does_sysIpc hcur h).acts hs hm

/-- **Handlers.** -/
theorem births_handled (hs : k.step l = some k') (hk₁ : k.handled l = some k₁)
    (hspared : Spared (k.effects l) (k.entered l)) : (k.entered l).Births (k.origin l) k₁ := by
  obtain ⟨k₂, hk₂, hacts, -⟩ := acts_step hs
  obtain rfl : k₁ = k₂ := Option.some.inj (hk₁.symm.trans hk₂)
  cases l with
  | kern c op => exact fun _ _ _ => ⟨_, rfl, trivial⟩
  | start c => exact births_acts hacts hspared id
  | trap c e =>
    by_cases hcall : e.frame.vector.toNat = 0x30 ∧ ∃ cur, k.current c = some cur
    · obtain ⟨hv, cur, hcur⟩ := hcall
      rw [(trap_call hv hcur).1] at hk₁
      rw [(trap_call hv hcur).2] at hspared
      have horigin : k.origin (.trap c e) = (k.enter c e).callOrigin cur := by
        rw [origin, caller, if_pos hv, hcur, Option.bind_some]
      rw [horigin]
      exact births_sysIpc hcur hspared hk₁
    · refine births_acts hacts hspared ?_
      have hhandling := handling_effects k (.trap c e)
      generalize k.effects (.trap c e) = G, k.doing (.trap c e) = D at hhandling
      cases hhandling with
      | quiet | tick | fault => exact id
      | call hv hcur => exact absurd ⟨hv, _, hcur⟩ hcall

/-! ## Keeping the parents -/

def interrupted (k : Kernel) : Label → Option Slot
  | .trap c _ => k.current c
  | _ => none

/-- A thread ends only after its children, and not in the section that creates one.  No thread
is made of untyped memory.  Nobody that has ended runs, or is on a send queue that is read. -/
structure KeepsParents (k : Kernel) (l : Label) : Prop where
  last : ∀ u t : Slot, k.mayEnd l u → (k.tcb t).parentTid = u.tid → (k.tcb t).state.Gone
  lasting : ∀ u : Slot, k.mayEnd l u → k.origin l ≠ some (.thread u)
  typed : k.origin l ≠ some .retype
  runs : ∀ t ∈ k.interrupted l, ¬ (k.tcb t).state.Gone
  sends : ∀ t ∈ k.takenSender l, ¬ (k.tcb t).state.Gone

instance (k : Kernel) (l : Label) : Decidable (k.KeepsParents l) :=
  decidable_of_iff ((∀ u : Slot, k.mayEnd l u →
        (∀ t : Slot, (k.tcb t).parentTid = u.tid → (k.tcb t).state.Gone) ∧
          k.origin l ≠ some (.thread u)) ∧
      k.origin l ≠ some .retype ∧ (∀ t ∈ k.interrupted l, ¬ (k.tcb t).state.Gone) ∧
      ∀ t ∈ k.takenSender l, ¬ (k.tcb t).state.Gone)
    ⟨fun ⟨hends, htyped, hruns, hsends⟩ =>
      ⟨fun u t hu => (hends u hu).1 t, fun u hu => (hends u hu).2, htyped, hruns, hsends⟩,
      fun h => ⟨fun u hu => ⟨fun t => h.last u t hu, h.lasting u hu⟩, h.typed, h.runs, h.sends⟩⟩

theorem KeepsParents.spared (h : k.KeepsParents l) : Spared (k.effects l) (k.entered l) := by
  intro t ht
  rw [state_entered] at ht
  have hhandling := handling_effects k l
  generalize k.effects l = G, k.doing l = D at hhandling
  cases hhandling with
  | kern | start | quiet | tick => exact ⟨fun hc => (by cases hc), id, id⟩
  | fault page hcur =>
    exact ⟨fun hc => (by cases hc), id, fun hf =>
      h.runs t (hcur.trans (congrArg some hf.1.symm)) ht⟩
  | call hv hcur =>
    refine ⟨fun hc => h.runs t (hcur.trans hc) ht, fun htake => h.sends t ?_ ht, id⟩
    rw [takenSender, caller, if_pos hv, hcur]
    exact htake

theorem before_effects (k : Kernel) (l : Label) (t : Slot) :
    (k.effects l).before t = (k.tcb t).state := by
  have hhandling := handling_effects k l
  generalize k.effects l = G, k.doing l = D at hhandling
  cases hhandling with
  | kern | start => rfl
  | quiet | tick | fault | call => exact state_entered k (.trap ..) t

/-- **Handlers.**  A thread that lives keeps its parent. -/
theorem KeepsParents.parentTid_handled (h : k.KeepsParents l) (ht : ¬ (k.tcb t).state.Gone)
    (hacts : Acts (k.effects l) l.cpu (k.entered l) k₁) :
    (k₁.tcb t).parentTid = (k.tcb t).parentTid := by
  have hentered : ((k.entered l).tcb t).parentTid = (k.tcb t).parentTid :=
    entered_field k l t Tcb.parentTid fun _ _ => rfl
  refine (hacts.parent (fun _ hd => ?_) fun u hu hp => ?_).trans hentered
  · rw [before_effects] at hd
    exact ht (.inl hd)
  · have hends : k.mayEnd l u := hu.imp ((k.effects_le l).kills u) ((k.effects_le l).exits u)
    exact ht (h.last u t hends (hentered.symm.trans hp))

/-- The parent of a thread, once the handler is done, stays: it was there before, or it has
just created the thread. -/
structure HasParent (k k₁ : Kernel) (l : Label) (t : Slot) : Prop where
  parent : (k₁.tcb t).parentTid ≠ 0
  lasts : ∀ u, k.mayEnd l u → (k₁.tcb t).parentTid ≠ u.tid

theorem HasParent.resume (h : HasParent k k₁ l t)
    (hacts : Acts (k.effects l) l.cpu (k.entered l) k₁) (hl : l.Resumes)
    (hresume : Acts (k₁.resumeEffects l.cpu) l.cpu k₁ k') : (k'.tcb t).parentTid ≠ 0 := by
  have hle := resumeEffects_le hacts hl
  have hsame : (k'.tcb t).parentTid = (k₁.tcb t).parentTid :=
    hresume.parent False.elim fun u hu => h.lasts u (hu.imp (hle.kills u) (hle.exits u))
  rw [hsame]
  exact h.parent

theorem current_of_caller {e : Entry} {cur : Slot} (h : k.caller c e = some cur) :
    k.current c = some cur := by
  unfold caller at h
  split at h
  · exact h
  · cases h

theorem origin_ne_zero {p : Slot} (hv : k.Vacant) (h : k.origin l = some (.thread p)) :
    p.tid ≠ 0 := by
  suffices hp : p ≠ 0 from fun h₀ => hp (Slot.tid_inj (h₀.trans rfl))
  rintro rfl
  cases l with
  | kern | start => cases h
  | trap c e =>
    obtain ⟨cur, hcaller, horigin⟩ := Option.bind_eq_some_iff.mp h
    have hcur := current_of_caller hcaller
    unfold callOrigin at horigin
    dsimp only at horigin
    split at horigin
    · split at horigin <;> cases horigin
    · cases horigin
      exact hv.idle c hcur
    · cases horigin
      exact hv.idle c hcur
    · split at horigin
      · obtain ⟨i, -, hslot⟩ := Option.bind_eq_some_iff.mp horigin
        unfold slotOrigin at hslot
        dsimp only at hslot
        split at hslot
        · cases hslot
        obtain ⟨u, hu, hthread⟩ := Option.map_eq_some_iff.mp hslot
        cases hthread
        exact schedGetTcb_ne_zero hu
      · cases horigin
    · cases horigin

/-- **Handlers.**  What a handler leaves of a thread that the kernel did not create. -/
theorem KeepsParents.kept (h : k.KeepsParents l) (hv : k.Vacant) (hs : k.step l = some k')
    (hk₁ : k.handled l = some k₁) (hacts : Acts (k.effects l) l.cpu (k.entered l) k₁)
    (hold : (k.tcb t).state.Gone ∨ (k.tcb t).parentTid ≠ 0)
    (hnew : (k.tcb t).state = .dead → ¬ (k₁.tcb t).state.Gone → k.origin l ≠ some .kernel) :
    (k₁.tcb t).state.Gone ∨ HasParent k k₁ l t := by
  by_cases hgone : (k.tcb t).state.Gone
  · refine or_iff_not_imp_left.mpr fun hborn => ?_
    by_cases hdead : (k.tcb t).state = .dead
    · -- a new thread
      obtain ⟨a, ha, hmark⟩ :=
        births_handled hs hk₁ h.spared t ((state_entered k l t).trans hdead) hborn
      cases a with
      | kernel => exact absurd ha (hnew hdead hborn)
      | retype => exact absurd ha h.typed
      | thread p =>
        refine ⟨hmark ▸ origin_ne_zero hv ha, fun u hu hp => h.lasting u hu ?_⟩
        rwa [← Slot.tid_inj (hmark.symm.trans hp)]
    · -- a zombie stays one
      obtain ⟨hc, htakes, hfaults⟩ := h.spared t ((state_entered k l t).symm ▸ hgone)
      refine absurd (hacts.gone (fun _ hd => hdead ?_) hc htakes hfaults
        ((state_entered k l t).symm ▸ hgone)) hborn
      rwa [before_effects] at hd
  · have hsame := h.parentTid_handled hgone hacts
    refine .inr ⟨hsame ▸ hold.resolve_left hgone, fun u hu hp => ?_⟩
    exact hgone (h.last u t hu (hsame.symm.trans hp))

/-! ## The record -/

def mounts (k : Kernel) : Label → Option Slot
  | .trap c e => (k.caller c e).filter fun cur =>
      decode ((k.enter c e).tcb cur).uctx = .mount ∧ ((k.enter c e).tcb cur).parentTid = 0
  | _ => none

theorem mounts_eq_some {cur : Slot} (h : k.mounts l = some cur) :
    k.interrupted l = some cur ∧ (k.tcb cur).parentTid = 0 := by
  cases l with
  | kern | start => cases h
  | trap c e =>
    obtain ⟨hcaller, hmount⟩ := Option.filter_eq_some_iff.mp h
    have hparent := (of_decide_eq_true hmount).2
    have hentered : ((k.entered (.trap c e)).tcb cur).parentTid = (k.tcb cur).parentTid :=
      entered_field k _ cur Tcb.parentTid fun _ _ => rfl
    exact ⟨current_of_caller hcaller, hentered.symm.trans hparent⟩

end Kernel

/-- **Roster.**  The kernel with the threads it created for itself. -/
structure Roster where
  kernel : Kernel
  founder : Slot → Bool

namespace Roster

open Kernel

variable {w w' : Roster} {l : Label} {t cur : Slot}

/-- The record after a handler: whose a thread is is settled when it is created. -/
def record (w : Roster) (l : Label) (k₁ : Kernel) (t : Slot) : Bool :=
  if (w.kernel.tcb t).state = .dead ∧ ¬ (k₁.tcb t).state.Gone then w.kernel.origin l = some .kernel
  else w.founder t

def step (w : Roster) (l : Label) : Option Roster :=
  (w.kernel.handled l).bind fun k₁ => (w.kernel.step l).map fun k' => ⟨k', w.record l k₁⟩

def IsBoot (w : Roster) : Prop := w.kernel.IsBoot ∧ w.founder = fun _ => false

/-- A thread that the kernel did not create has a parent as long as it lives. -/
def Fixed (w : Roster) : Prop :=
  ∀ t : Slot, w.founder t = false → (w.kernel.tcb t).state.Gone ∨ (w.kernel.tcb t).parentTid ≠ 0

theorem step_eq_some (h : w.step l = some w') : ∃ k₁, w.kernel.handled l = some k₁ ∧
    w.kernel.step l = some w'.kernel ∧ w'.founder = w.record l k₁ := by
  obtain ⟨k₁, hk₁, hrest⟩ := Option.bind_eq_some_iff.mp h
  obtain ⟨k', hk', rfl⟩ := Option.map_eq_some_iff.mp hrest
  exact ⟨k₁, hk₁, hk', rfl⟩

/-- **Step.** -/
theorem Fixed.step (h : w.Fixed) (hv : w.kernel.Vacant) (hok : w.kernel.KeepsParents l)
    (hs : w.step l = some w') : w'.Fixed := by
  obtain ⟨k₁, hk₁, hk', hrec⟩ := step_eq_some hs
  obtain ⟨k₂, hk₂, hacts, hresume, hback⟩ := acts_step hk'
  obtain rfl : k₁ = k₂ := Option.some.inj (hk₁.symm.trans hk₂)
  intro t ht
  rw [hrec, record] at ht
  have hkept : (k₁.tcb t).state.Gone ∨ HasParent w.kernel k₁ l t := by
    split at ht
    · rename_i hnew
      exact hok.kept hv hk' hk₁ hacts (.inl (.inl hnew.1)) fun _ _ => by simpa using ht
    · rename_i hnot
      exact hok.kept hv hk' hk₁ hacts (h t ht) fun hd hb => absurd ⟨hd, hb⟩ hnot
  rcases hback with hresumes | hsame
  · rcases hkept with hgone | hkept
    · exact .inl (hresume.gone False.elim (fun hc => by cases hc) id id hgone)
    · exact .inr (hkept.resume hacts hresumes hresume)
  · rw [hsame]
    exact hkept.imp_right HasParent.parent

/-- **Mounts.**  Where the threads keep their parents, no thread but those the kernel created
has the right to mount, and no other's request is taken. -/
theorem founder_of_mounts
    (h : Lib.Reach Roster.step (fun w l => w.kernel.KeepsParents l) IsBoot w) : w.Fixed ∧
      ∀ l cur, w.kernel.KeepsParents l → w.kernel.mounts l = some cur → w.founder cur = true := by
  have hinv : w.Fixed ∧ w.kernel.Vacant := by
    refine h.invariant (I := fun w => w.Fixed ∧ w.kernel.Vacant) ?_ ?_
    · rintro ⟨k, founder⟩ ⟨hboot, rfl⟩
      refine ⟨fun t _ => .inl ?_, .of_isBoot hboot⟩
      obtain ⟨base, size, fpu, rfl⟩ := hboot
      exact .inl rfl
    · rintro w l w' ⟨hfixed, hv⟩ hok hs
      obtain ⟨k₁, -, hk', -⟩ := step_eq_some hs
      exact ⟨hfixed.step hv hok hs, hv.step hk'⟩
  refine ⟨hinv.1, fun l cur hok hm => ?_⟩
  obtain ⟨hruns, hparent⟩ := mounts_eq_some hm
  by_contra hne
  rcases hinv.1 cur (Bool.eq_false_iff.mpr hne) with hgone | hchild
  · exact hok.runs cur hruns hgone
  · exact hchild hparent

def mount (c : Cpu) : Label := .call c 0 0 0x10000000

def forkRun : List Label := [.spawn 0x1000, .start 0, Census.fork 0]

def start : Roster := ⟨boot 0 0 0, fun _ => false⟩

/-- Thread 1 mounts. -/
theorem founder_of_mounts_forkRun :
    ∃ w, Lib.run Roster.step (fun w l => w.kernel.KeepsParents l) start forkRun = some w ∧
      w.kernel.mounts (mount 0) = some 1 ∧ w.founder 1 = true ∧ w.founder 2 = false ∧ w.Fixed := by
  obtain ⟨w, hw, hmounts, hok, hchild⟩ :
    ∃ w ∈ Lib.run Roster.step (fun w l => w.kernel.KeepsParents l) start forkRun,
      w.kernel.mounts (mount 0) = some 1 ∧ w.kernel.KeepsParents (mount 0) ∧
        w.founder 2 = false := by
    decide +kernel
  obtain ⟨hfixed, hfounder⟩ := founder_of_mounts (.of_run (.init ⟨⟨0, 0, 0, rfl⟩, rfl⟩) hw)
  exact ⟨w, hw, hmounts, hfounder (mount 0) 1 hok hmounts, hchild, hfixed⟩

/-- Thread 1 ends with a fault, and thread 2 mounts. -/
theorem not_founder_forkRun : ¬ ∀ w, Lib.Reach Roster.step (fun _ _ => True) IsBoot w →
      w.Fixed ∧ ∀ l cur, w.kernel.mounts l = some cur → w.founder cur = true := by
  intro h
  obtain ⟨w, hw, hmounts, hchild⟩ : ∃ w, Lib.Reach Roster.step (fun _ _ => True) IsBoot w ∧
      w.kernel.mounts (mount 0) = some 2 ∧ w.founder 2 = false :=
    Lib.observed (s := start) (forkRun ++ [Census.fault 0]) ⟨⟨0, 0, 0, rfl⟩, rfl⟩
      (by decide +kernel)
  have hfounder := (h w hw).2 (mount 0) 2 hmounts
  rw [hchild] at hfounder
  cases hfounder

end Roster

end Robu
