import Robu.Kernel.Calls
import Robu.Kernel.Trap

/-!
# The tables of authority

What a thread may do beyond plain IPC hangs on its tid: entries of the capability table,
frame capabilities, and the single grants of the console, the pager and the drivers.
`Auth` collects these tables.  Scheduling and message passing leave all of them alone; new
entries of the capability table go to a tid that holds authority already (`Grants`).
-/

namespace Robu

variable {o : Option Slot} {prio : Prio} {caller : Tid} {slot : BitVec 32} {cap : Kcap}
  {addr : Word}

/-- The tables that name tids with authority. -/
@[ext]
structure Auth where
  kcaps : List Kcap
  frameCaps : List FrameCap
  consoleWriter : Tid
  consoleDriver : Tid
  pagerOwner : Tid
  hwDriver : Tid
  pciCfgSecondary : Tid
  hwDriverSecondaries : Fin 4 → Tid
  portIoSecondaries : Fin 4 → Tid

namespace Auth

def Granted (a : Auth) (tid : Tid) : Prop :=
  tid ∈ [a.consoleWriter, a.consoleDriver, a.pagerOwner, a.hwDriver, a.pciCfgSecondary] ∨
    (∃ i, a.hwDriverSecondaries i = tid) ∨ ∃ i, a.portIoSecondaries i = tid
deriving Decidable

def OwnsKcap (a : Auth) (tid : Tid) : Prop := ∃ cap ∈ a.kcaps, cap.owner = tid ∧ cap.kind ≠ .invalid
deriving Decidable

def OwnsFrame (a : Auth) (tid : Tid) : Prop := ∃ cap ∈ a.frameCaps, cap.owner = tid
deriving Decidable

/-- The tid holds authority.  No thread has the tid 0, which stands for nobody in the
tables of grants. -/
def Holds (a : Auth) (tid : Tid) : Prop :=
  tid ≠ 0 ∧ (a.OwnsKcap tid ∨ a.OwnsFrame tid ∨ a.Granted tid)
deriving Decidable

end Auth

namespace Kernel

def auth (k : Kernel) : Auth where
  kcaps := k.kcapTable
  frameCaps := k.frameCaps
  consoleWriter := k.consoleWriterTid
  consoleDriver := k.consoleDriverTid
  pagerOwner := k.pagerOwnerTid
  hwDriver := k.hwDriverTid
  pciCfgSecondary := k.pciCfgSecondaryTid
  hwDriverSecondaries := k.hwDriverSecondaryTids
  portIoSecondaries := k.hwPortIoSecondaryTids

section

variable (k : Kernel) (c : Cpu) (t : Slot)

/-! ## Frames -/

@[simp] theorem auth_modTcb (u : TcbRef) (f : Tcb → Tcb) : (k.modTcb u f).auth = k.auth := rfl

@[simp] theorem auth_modUctx (u : TcbRef) (f : Uctx → Uctx) : (k.modUctx u f).auth = k.auth := rfl

@[simp] theorem auth_setRax (u : TcbRef) (e : IpcErr) : (k.setRax u e).auth = k.auth := rfl

@[simp] theorem auth_setState (u : TcbRef) (s : ThreadState) : (k.setState u s).auth = k.auth := rfl

@[simp] theorem auth_requestResched : (k.requestResched c).auth = k.auth := rfl

@[simp] theorem auth_schedNoteDeadline (tick : Word) :
    (k.schedNoteDeadline tick).auth = k.auth := by
  unfold schedNoteDeadline
  split <;> rfl

@[simp] theorem auth_schedWake : (k.schedWake c t).auth = k.auth := by
  have hpush : ∀ k₁ : Kernel, (k₁.inboxPush t).auth = k₁.auth := fun _ => rfl
  simp only [schedWake, apply_ite auth, auth_requestResched, hpush, auth_setState, ite_self]

@[simp] theorem auth_rqPush : (k.rqPush t).auth = k.auth := by
  unfold rqPush
  split
  · rfl
  · simp only
    split <;> rfl

@[simp] theorem auth_rqUnlink (p : Prio) (prev : Option Slot) :
    (k.rqUnlink p prev t).auth = k.auth := by
  cases prev <;> rfl

@[simp] theorem auth_drainFrom (fuel : Nat) (o : Option Slot) :
    (drainFrom fuel k o).auth = k.auth := by
  induction fuel generalizing k o with
  | zero => rfl
  | succ fuel ih =>
    cases o with
    | none => rfl
    | some t =>
      rw [drainFrom, ih]
      simp only [apply_ite auth, auth_rqPush, auth_modTcb, ite_self]

@[simp] theorem auth_drainInbox : k.drainInbox.auth = k.auth := auth_drainFrom ..

@[simp] theorem auth_schedReadyNow : (k.schedReadyNow t).auth = k.auth := auth_rqPush ..

@[simp] theorem auth_schedTickLocal (n : Word) : (k.schedTickLocal c n).auth = k.auth := by
  unfold schedTickLocal
  split
  · rfl
  · simp only [apply_ite auth, auth_requestResched, auth_modTcb, ite_self]

@[simp] theorem auth_schedSwitchTo (src dst : TcbRef) :
    (k.schedSwitchTo c src dst).auth = k.auth := by
  unfold schedSwitchTo
  split <;> rfl

@[simp] theorem auth_sendqUnlink (prev : Option Slot) (s : Slot) :
    (k.sendqUnlink t prev s).auth = k.auth := by
  cases prev <;> rfl

@[simp] theorem auth_deliverToFrame (sender : Tid) (m : MsgRegs) :
    (k.deliverToFrame t sender m).auth = k.auth := rfl

variable {k c t} {k' : Kernel}

theorem auth_rqPopLoop {fuel : Nat} (h : rqPopLoop fuel k = some (o, k')) : k'.auth = k.auth := by
  induction fuel generalizing k with
  | zero => cases h
  | succ fuel ih =>
    unfold rqPopLoop at h
    split at h
    · cases h; rfl
    split at h
    · cases h
    simp only at h
    split at h
    · cases h; exact auth_rqUnlink ..
    · exact (ih h).trans (auth_rqUnlink ..)

theorem auth_createThread {fill : Tcb → Tcb}
    (h : k.createThread prio fill = some (t, k')) : k'.auth = k.auth := by
  rw [(createThread_eq h).2]
  exact auth_schedReadyNow ..

end

/-! ## Gaining authority -/

/-- Only tids in `S` hold authority they did not hold before. -/
structure Grants (S : Set Tid) (k k' : Kernel) : Prop where
  holds : ∀ tid, k'.auth.Holds tid → k.auth.Holds tid ∨ tid ∈ S

namespace Grants

variable {S : Set Tid} {k k₁ k' : Kernel} {t : Slot}

theorem of_auth (h : k'.auth = k.auth) : Grants S k k' := ⟨fun _ ht => .inl (h ▸ ht)⟩

theorem trans (h : Grants S k k₁) (h' : Grants S k₁ k') : Grants S k k' :=
  ⟨fun tid ht => (h'.holds tid ht).elim (h.holds tid) .inr⟩

/-- No tid gains authority. -/
theorem of_none (h : Grants ∅ k k') :
    Grants S k k' := ⟨fun tid ht => .inl ((h.holds tid ht).resolve_right id)⟩

theorem absorb (hS : ∀ tid ∈ S, k.auth.Holds tid) (h : Grants S k k') : Grants ∅ k k' :=
  ⟨fun tid ht => .inl ((h.holds tid ht).elim id (hS tid))⟩

/-- A change of the capability table that adds entries of `S` only. -/
theorem of_kcaps (h : ∀ cap ∈ k'.kcapTable, cap.kind ≠ .invalid → k.auth.OwnsKcap cap.owner ∨
    cap.owner ∈ S) (hrest : k'.auth = { k.auth with kcaps := k'.kcapTable }) : Grants S k k' := by
  refine ⟨?_⟩
  rintro tid ⟨hne, hcap | hother⟩
  · obtain ⟨cap, hmem, rfl, hkind⟩ := hcap
    exact (h cap hmem hkind).imp (fun hk => ⟨hne, .inl hk⟩) id
  · rw [hrest] at hother
    exact .inl ⟨hne, .inr hother⟩

theorem kcapInvalidateTcbDeath (k : Kernel) (tid : Tid) :
    Grants S k (k.kcapInvalidateTcbDeath tid) := by
  refine of_kcaps (fun cap hcap hkind => .inl ?_) rfl
  obtain ⟨cap₀, hmem, rfl⟩ := List.mem_map.mp hcap
  split at hkind
  · exact absurd rfl hkind
  rename_i hif
  rw [if_neg hif]
  exact ⟨cap₀, hmem, rfl, hkind⟩

theorem capRevokeFrame (h : k.capRevokeFrame caller slot = some k') : Grants S k k' := by
  unfold Kernel.capRevokeFrame at h
  split at h
  · cases h
  split at h
  · cases h
  cases h
  refine of_kcaps (fun cap hcap hkind => .inl ?_) rfl
  obtain ⟨i, hi, rfl⟩ := List.getElem_of_mem hcap
  simp only [List.getElem_modify] at hkind ⊢
  split at hkind
  · exact absurd rfl hkind
  rename_i hif
  rw [if_neg hif]
  exact ⟨_, List.getElem_mem _, rfl, hkind⟩

theorem gives (h : k₁.Gives cap k') (hauth : k₁.auth = k.auth) : Grants {cap.owner} k k' := by
  refine (of_auth hauth).trans ?_
  rcases h with rfl | ⟨_, _, rfl⟩
  · exact of_auth rfl
  refine of_kcaps (fun cap' hcap hkind => ?_) rfl
  rw [List.mem_append, List.mem_singleton] at hcap
  rcases hcap with hold | rfl
  · exact .inl ⟨cap', hold, rfl, hkind⟩
  · exact .inr rfl

theorem kcapGrant {owner : Tid} {kind : CapKind} {size : Word}
    (h : k.kcapGrant owner kind addr size = some k') : Grants {owner} k k' :=
  gives (.inr (kcapGrant_eq h)) rfl

/-- The caller of a retype that gets past its checks owns an untyped capability. -/
theorem holds_of_validate {kind : CapKind}
    (hk : kind ≠ .invalid) (h0 : caller ≠ 0) (h : k.validate caller slot kind = some cap) :
    k.auth.Holds caller := by
  unfold validate at h
  split at h
  · cases h
  rename_i cap₀ hget
  split at h
  · cases h
  rename_i hcheck
  simp only [not_or, not_not] at hcheck
  exact ⟨h0, .inl ⟨cap₀, List.mem_of_getElem? hget, hcheck.1, hcheck.2 ▸ hk⟩⟩

/-- **Retype.**  The new object goes to the caller. -/
theorem retypes {kind : BitVec 32} (h : Retypes k caller kind k') : Grants {caller} k k' := by
  cases h with
  | fails n => exact of_auth rfl
  | thread n _ hcreate hown _ hgives =>
    exact hown ▸ gives hgives ((auth_createThread hcreate).trans rfl)
  | plain n hown _ hgives | notification n hown _ hgives | timer n hown _ hgives =>
    exact hown ▸ gives hgives rfl

theorem capRetype (k : Kernel) (env : Env) (caller : Tid)
    (untypedSlot kind : BitVec 32) (asSlot entry stack frameSlot : Word) :
    Grants ∅ k (k.capRetype env caller untypedSlot kind asSlot entry stack frameSlot).2 := by
  obtain ⟨k', hk', h⟩ :=
    k.retypes_capRetype env caller untypedSlot kind asSlot entry stack frameSlot
  rw [hk']
  rcases h with rfl | ⟨⟨cap, hv⟩, ⟨t, ht⟩, h⟩
  · exact of_auth rfl
  have h0 : caller ≠ 0 := by
    -- tid 0 is no thread
    rintro rfl
    cases ht
  refine (retypes h).absorb ?_
  rintro tid rfl
  exact holds_of_validate (by decide) h0 hv

end Grants

end Kernel

end Robu
