import Robu.Kernel.Calls

/-!
# Retype

`cap_retype` takes a page of untyped memory and then goes on: it maps a page, makes an address
space or a thread, and grants the capability, for which the table may have to grow.  It undoes
nothing.  So a call that fails leaves everything as it was just if it fails before it has its page.
-/

namespace Robu.Kernel

variable {k : Kernel} {env : Env} {caller : Tid} {untypedSlot kind : BitVec 32}
  {asSlot entry stack frameSlot : Word}

/-- The pages `cap_retype` maps: address space, address and frame. -/
def retypeMaps (k : Kernel) (env : Env) (caller : Tid) (untypedSlot kind : BitVec 32)
    (asSlot entry frameSlot : Word) : List (Word × Word × Word) :=
  match k.validate caller untypedSlot .untyped, k.schedGetTcb caller with
  | some _, some t =>
    let page := (k.untypedAlloc 0x1000).1
    if page = 0 ∨ ¬ env.mapPageOk then []
    else match CapKind.decode kind.toNat with
      | some .frame =>
        if env.translate = 0 then [((k.tcb t).addressSpace, rootOwnFrameVa, page)] else []
      | some .tcb =>
        match k.validate caller (asSlot.setWidth 32) .addrspace,
            k.validate caller (frameSlot.setWidth 32) .frame with
        | some asCap, some frameCap => [(asCap.addr, entry, frameCap.addr)]
        | _, _ => []
      | _ => []
  | _, _ => []

def objects (k : Kernel) :
    List Kcap × ((Nat → Notification) × Nat) × ((Nat → TimerObj) × Nat) × (TcbRef → Tcb) × Word :=
  (k.kcapTable, (k.notifTable, k.notifCount), (k.timerTable, k.timerCount), k.tcb,
    k.untypedWatermark)

/-- **Atomicity.**  A retype that fails changes nothing, and one that succeeds adds one capability
of the caller. -/
def RetypeAtomic (k : Kernel) (env : Env) (caller : Tid) (untypedSlot kind : BitVec 32)
    (asSlot entry stack frameSlot : Word) : Prop :=
  match k.capRetype env caller untypedSlot kind asSlot entry stack frameSlot with
  | (none, k') =>
    k'.objects = k.objects ∧ k.retypeMaps env caller untypedSlot kind asSlot entry frameSlot = []
  | (some _, k') => ∃ cap, cap.owner = caller ∧ k'.kcapTable = k.kcapTable ++ [cap]

def Admits (k : Kernel) (caller : Tid) (untypedSlot kind : BitVec 32) (asSlot frameSlot : Word) :
    Prop :=
  (k.validate caller untypedSlot .untyped).isSome ∧ (k.schedGetTcb caller).isSome ∧
    (match CapKind.decode kind.toNat with
      | some .frame | some .addrspace => True
      | some .tcb => (k.validate caller (asSlot.setWidth 32) .addrspace).isSome ∧
          (k.validate caller (frameSlot.setWidth 32) .frame).isSome
      | some .notification => k.notifCount < 16
      | some .timer => k.timerCount < 16
      | _ => False) ∧
    k.untypedWatermark + 0x1000 ≤ k.untypedSize

abbrev drawPage (k : Kernel) : Kernel := { k with untypedWatermark := k.untypedWatermark + 0x1000 }

def HasUntyped (k : Kernel) (size : Word) : Prop :=
  k.untypedWatermark + untypedAligned size ≤ k.untypedSize ∧ k.untypedBase + k.untypedWatermark ≠ 0

/-- There is room for a capability: in the table, or in untyped memory for a larger one. -/
def HasCapRoom (k : Kernel) : Prop :=
  k.kcapTable.length < k.kcapCapacity ∨ k.HasUntyped k.nextTableSize

/-- **Completion.**  What a retype needs after its checks: the page, then the mapping, the address
space or the control block for its object, and room for the capability behind the page. -/
def Completes (k : Kernel) (env : Env) (kind : BitVec 32) : Prop :=
  k.untypedBase + k.untypedWatermark ≠ 0 ∧
    (match CapKind.decode kind.toNat with
      | some .frame => env.translate ≠ 0 ∨ env.mapPageOk = true
      | some .addrspace => env.createAs ≠ 0
      | some .tcb => env.mapPageOk = true ∧ ∃ t : Slot, t ≠ 0 ∧ (k.tcb t).state = .dead
      | _ => True) ∧
    k.drawPage.HasCapRoom

theorem untypedAlloc_page (k : Kernel) : k.untypedAlloc 0x1000 =
    if k.untypedSize < k.untypedWatermark + 0x1000 then (0, k)
    else (k.untypedBase + k.untypedWatermark, k.drawPage) := rfl

/-! ## After the checks -/

theorem kcapGrant_isSome (k : Kernel) (caller : Tid) (ckind : CapKind) (addr size : Word) :
    (k.kcapGrant caller ckind addr size).isSome ↔ k.HasCapRoom := by
  have halloc : ∀ size, (k.untypedAlloc size).1 = 0 ↔ ¬ k.HasUntyped size := by
    intro size
    unfold untypedAlloc HasUntyped
    split
    · rename_i hfull
      exact iff_of_true rfl fun h => absurd hfull (BitVec.not_lt.mpr h.1)
    · rename_i hroom
      rw [and_iff_right (BitVec.not_lt.mp hroom), not_not]
  unfold kcapGrant HasCapRoom
  dsimp only
  split
  · rename_i hlt
    exact iff_of_true rfl (.inl hlt)
  · rename_i hfull
    split
    · rename_i hzero
      exact iff_of_false Bool.false_ne_true fun h => (halloc _).mp hzero (h.resolve_left hfull)
    · rename_i hroom
      exact iff_of_true rfl (.inr (not_not.mp fun h => hroom ((halloc _).mpr h)))

/-- What a retype that got its page ends with, if it is to succeed under the condition `room`. -/
def Drawn (k : Kernel) (caller : Tid) (room : Prop) : Option (Word × Word) × Kernel → Prop
  | (none, k') => k'.untypedWatermark = k.untypedWatermark + 0x1000 ∧ ¬ room
  | (some _, k') => (∃ cap, cap.owner = caller ∧ k'.kcapTable = k.kcapTable ++ [cap]) ∧ room

theorem drawn_grantObject {k₁ : Kernel} {ckind : CapKind} {addr size va : Word}
    (hmark : k₁.untypedWatermark = k.untypedWatermark + 0x1000)
    (htable : k₁.kcapTable = k.kcapTable) :
    k.Drawn caller k₁.HasCapRoom (k₁.grantObject caller ckind addr size va) := by
  rw [← k₁.kcapGrant_isSome caller ckind addr size]
  unfold grantObject
  split
  · rename_i hgrant
    rw [hgrant]
    exact ⟨hmark, Bool.false_ne_true⟩
  · rename_i hgrant
    rw [hgrant]
    obtain ⟨capacity, n, rfl⟩ := kcapGrant_eq hgrant
    refine ⟨⟨{ kind := ckind, owner := caller, addr := addr, size := size, mappedVa := va }, rfl,
      ?_⟩, rfl⟩
    rw [← htable]
    exact modify_append_last ..

theorem createThread_isSome {prio : Prio} {fill : Tcb → Tcb} :
    (k.createThread prio fill).isSome ↔ ∃ t : Slot, t ≠ 0 ∧ (k.tcb t).state = .dead := by
  have hslots : ∀ t : Slot, t ∈ tableSlots ↔ t ≠ 0 := by decide
  have hdead : k.firstDead.isSome ↔ ∃ t : Slot, t ≠ 0 ∧ (k.tcb t).state = .dead := by
    simp [firstDead, List.find?_isSome, hslots]
  rw [← hdead, createThread, allocTcb]
  cases k.firstDead <;> rfl

/-- Creating a thread takes no untyped memory and grants nothing. -/
theorem createThread_untyped {prio : Prio} {fill : Tcb → Tcb} {t : Slot} {k' : Kernel}
    (h : k.createThread prio fill = some (t, k')) : k'.untypedWatermark = k.untypedWatermark ∧
      k'.kcapTable = k.kcapTable ∧ (k'.HasCapRoom ↔ k.HasCapRoom) := by
  rw [(createThread_eq h).2, schedReadyNow, rqPush]
  split
  · exact ⟨rfl, rfl, Iff.rfl⟩
  · dsimp only
    split <;> exact ⟨rfl, rfl, Iff.rfl⟩

theorem Drawn.congr {P Q : Prop} {r : Option (Word × Word) × Kernel} (h : P ↔ Q)
    (hdrawn : k.Drawn caller P r) : k.Drawn caller Q r := by
  rwa [propext h] at hdrawn

/-- A retype that passes its checks takes a page, and then succeeds exactly if it completes. -/
theorem drawn_capRetype (env : Env) (entry stack : Word)
    (h : k.Admits caller untypedSlot kind asSlot frameSlot) :
    k.Drawn caller (k.Completes env kind)
      (k.capRetype env caller untypedSlot kind asSlot entry stack frameSlot) := by
  obtain ⟨hcap, hthread, hkind, hroom⟩ := h
  obtain ⟨cap, hcap⟩ := Option.isSome_iff_exists.mp hcap
  obtain ⟨t, hthread⟩ := Option.isSome_iff_exists.mp hthread
  rw [capRetype, Completes, hcap, hthread, untypedAlloc_page, if_neg (BitVec.not_lt.mpr hroom)]
  generalize k.untypedBase + k.untypedWatermark = page
  generalize CapKind.decode kind.toNat = d at hkind ⊢
  match d with
  | some .frame =>
    dsimp only
    split
    · exact ⟨rfl, fun hc => hc.1 ‹_›⟩
    split
    · split
      · exact Drawn.congr (P := k.drawPage.HasCapRoom) (by simp_all) (drawn_grantObject rfl rfl)
      · exact ⟨rfl, fun hc => hc.2.1.elim (· ‹_›) ‹_›⟩
    · exact Drawn.congr (P := k.drawPage.HasCapRoom) (by simp_all) (drawn_grantObject rfl rfl)
  | some .addrspace =>
    dsimp only
    split
    · rename_i hfail
      exact ⟨rfl, fun hc => hfail.elim hc.1 hc.2.1⟩
    · exact Drawn.congr (P := k.drawPage.HasCapRoom) (by simp_all) (drawn_grantObject rfl rfl)
  | some .notification | some .timer =>
    dsimp only at hkind ⊢
    rw [if_neg (by omega)]
    split
    · exact ⟨rfl, fun hc => hc.1 ‹_›⟩
    · exact Drawn.congr (P := k.drawPage.HasCapRoom) (by simp_all) (drawn_grantObject rfl rfl)
  | some .tcb =>
    obtain ⟨asCap, has⟩ := Option.isSome_iff_exists.mp hkind.1
    obtain ⟨frameCap, hframe⟩ := Option.isSome_iff_exists.mp hkind.2
    rw [has, hframe]
    dsimp only
    split
    · rename_i hfail
      exact ⟨rfl, fun hc => hfail.elim hc.1 (· hc.2.1.1)⟩
    rename_i hpage
    split
    · rename_i hcreate
      have hnone : ¬ (k.drawPage.threadCreateUserLocked entry stack 5 asCap.addr 1).isSome := by
        rw [hcreate]
        exact Bool.false_ne_true
      exact ⟨rfl, fun hc => hnone (createThread_isSome.mpr hc.2.1.2)⟩
    · rename_i hcreate
      obtain ⟨hmark, htable, hsame⟩ := createThread_untyped hcreate
      have hdead := (createThread_isSome (k := k.drawPage)).mp (Option.isSome_of_eq_some hcreate)
      rw [not_or, not_not] at hpage
      exact Drawn.congr
        (hsame.trans ⟨fun hr => ⟨hpage.1, ⟨hpage.2, hdead⟩, hr⟩, fun hc => hc.2.2⟩)
        (drawn_grantObject hmark htable)
  | none | some .untyped | some .invalid => exact hkind.elim

theorem capRetype_of_not_admits (env : Env) (entry stack : Word)
    (h : ¬ k.Admits caller untypedSlot kind asSlot frameSlot) :
    k.capRetype env caller untypedSlot kind asSlot entry stack frameSlot = (none, k) ∧
      k.retypeMaps env caller untypedSlot kind asSlot entry frameSlot = [] := by
  rw [capRetype, retypeMaps]
  cases hcap : k.validate caller untypedSlot .untyped with
  | none => exact ⟨rfl, rfl⟩
  | some cap =>
  cases hthread : k.schedGetTcb caller with
  | none => exact ⟨rfl, rfl⟩
  | some t =>
  rw [untypedAlloc_page]
  rw [Admits, hcap, hthread] at h
  simp only [Option.isSome_some, true_and] at h
  generalize CapKind.decode kind.toNat = d at h ⊢
  rw [← BitVec.not_lt] at h
  rcases d with _ | (_ | _ | _ | _ | _ | _ | _) <;> dsimp only at h ⊢ <;> grind

/-- **Retype is atomic** exactly if it fails in its checks, or finds all that it needs after them.
-/
theorem capRetype_atomic_iff :
    k.RetypeAtomic env caller untypedSlot kind asSlot entry stack frameSlot ↔
      ¬ k.Admits caller untypedSlot kind asSlot frameSlot ∨ k.Completes env kind := by
  by_cases h : k.Admits caller untypedSlot kind asSlot frameSlot
  · have hdrawn := drawn_capRetype env entry stack h
    rw [RetypeAtomic]
    generalize k.capRetype .. = r at hdrawn ⊢
    match r with
    | (none, k') =>
      refine iff_of_false (fun hsame => ?_) fun hc => hc.elim (· h) hdrawn.2
      have hmark : k'.untypedWatermark = k.untypedWatermark := congrArg (·.2.2.2.2) hsame.1
      rw [hdrawn.1] at hmark
      bv_omega
    | (some x, k') => exact iff_of_true hdrawn.1 (.inr hdrawn.2)
  · obtain ⟨hr, hmaps⟩ := capRetype_of_not_admits env entry stack h
    rw [RetypeAtomic, hr]
    exact iff_of_true ⟨rfl, hmaps⟩ (.inl h)

def retyper : Kernel :=
  { (boot 0x200000 0x10000 0).setState (1 : Slot) .running with
    kcapTable := [{ kind := .untyped, owner := 1, addr := 0x200000, size := 0x10000 }],
      kcapCapacity := 128 }

theorem not_retypeAtomic_retyper : ¬ retyper.RetypeAtomic {} 1 0 2 0 0 0 0 := by
  intro h
  have hmark : (0x1000 : Word) = 0 := congrArg (·.2.2.2.2) h.1
  cases hmark

end Robu.Kernel
