import Robu.Kernel.FaultQueue

/-!
# Fault storms

The ring of page faults holds 15 entries, and `vm_handle_page_fault` halts the kernel when
there is no room for one more.  The table has room for 63 threads.  There is room for every
fault as long as the entries are of different threads that have not ended, and no more than
15 threads have a pager.
-/

namespace Robu.Kernel

variable {F : Effects} {c : Cpu} {k k' k₁ : Kernel} {l : Label} {u me : Slot}

/-- The section is a page fault, for a pager that lives and does not wait for it, which
the ring has no room for. -/
def overflowsFaultQueue (k : Kernel) : Label → Prop
  | .trap c e =>
    let k₁ := k.enter c e
    e.frame.vector.toNat = 14 ∧ ∃ me ∈ k.current c, k₁.Paged me ∧
      (∀ pager ∈ k₁.schedGetTcb (k₁.tcb me).pagerTid,
        ¬ (k₁.schedBlock me .waitPagefault).accepts pager me.tid) ∧
      k.faultHead + 1 = k.faultTail
  | _ => False

/-- A section that passes on a fault is a page fault of a thread with a pager. -/
theorem page_of_faults {e : Entry} (h : (k.effects (.trap c e)).faults me) :
    e.frame.vector.toNat = 14 ∧ (k.enter c e).Paged me := by
  have hcur : (k.enter c e).current c = some me := current_of_faults h
  simp only [effects, trapEffects, hcur] at h
  -- every other vector has quiet effects in this respect
  iterate 5 (split at h; exact h.elim)
  exact ⟨h.2.1, h.2.2⟩

theorem faults_of_page {e : Entry} (hcur : k.current c = some me) (hv : e.frame.vector.toNat = 14)
    (hp : (k.enter c e).Paged me) : (k.effects (.trap c e)).faults me := by
  have hcur₁ : (k.enter c e).current c = some me := hcur
  simp only [effects, trapEffects, hcur₁, hv]
  exact ⟨rfl, trivial, hp⟩

/-! ## What a section does to the ring -/

theorem Act.faultQueue_suffix (h : Act F c k k') (hF : ∀ t, ¬ F.faults t) :
    k'.faultQueue <:+ k.faultQueue := by
  cases h.tables with
  | same same | tick _ same | arm _ same | caps _ same | newNotification same | notify _ same
  | takeBits _ same | waitNotif _ _ same | ended _ same =>
    exact (same.faultQueue.trans rfl : k'.faultQueue = k.faultQueue) ▸ List.suffix_rfl
  | enqueue hf => exact absurd hf (hF _)
  | takeFault some same =>
    have hpop : k.faultQueue = k.faultEntries k.faultTail :: k'.faultQueue := by
      rw [same.faultQueue]
      exact Lib.ring_pop some
    exact hpop ▸ List.suffix_cons _ _

theorem Acts.faultQueue_suffix (h : Acts F c k k') (hF : ∀ t, ¬ F.faults t) :
    k'.faultQueue <:+ k.faultQueue :=
  h.invariant (I := fun k' => k'.faultQueue <:+ k.faultQueue)
    (fun hk hact => (hact.faultQueue_suffix hF).trans hk) List.suffix_rfl

theorem faultQueue_vmHandlePageFault {addr : Word} {error : BitVec 32} (hp : k.Paged me)
    (h : k.vmHandlePageFault c me addr error = some k') :
    k'.faultQueue <:+ k.faultQueue ∨
      ∃ msg, msg.faultingThread = me.tid ∧ k'.faultQueue = k.faultQueue ++ [msg] := by
  obtain ⟨h₀, hlives⟩ := hp
  obtain ⟨pager, hpager⟩ := Option.isSome_iff_exists.mp hlives
  rw [vmHandlePageFault, if_neg h₀, hpager] at h
  dsimp only at h
  split at h
  · rename_i haccepts
    cases h
    left
    let F : Effects := { k.quietEffects with answers := True }
    have hhand : Acts F c (k.schedBlock me .waitPagefault)
      (((k.schedBlock me .waitPagefault).modUctx pager
        fun f => faultRegs f ⟨addr, error, me.tid⟩).schedDirectSwitch c pager) :=
      .single (.hand trivial (.fault ⟨addr, error, me.tid⟩ haccepts))
    have hquiet : ∀ t, ¬ F.faults t := fun _ => id
    change _ <:+ (k.schedBlock me .waitPagefault).faultQueue
    exact Acts.faultQueue_suffix (hhand.to_alike
      ((alike_modTcb _ pager fun _ _ => rfl).schedDirectSwitch c pager)) hquiet
  · right
    unfold faultQueuePush at h
    split at h
    · cases h
    rename_i hroom
    cases h
    exact ⟨_, rfl, Lib.ring_push hroom⟩

/-- A section loses entries of the ring, and adds at most one, of the thread that faults. -/
theorem faultQueue_step (h : k.step l = some k') :
    k'.faultQueue <:+ k.faultQueue ∨ ∃ me msg, (k.effects l).faults me ∧
      msg.faultingThread = me.tid ∧ k'.faultQueue <:+ k.faultQueue ++ [msg] := by
  obtain ⟨k₁, hhandled, hhandler, hresume, -⟩ := acts_step h
  have hback : k'.faultQueue <:+ k₁.faultQueue := Acts.faultQueue_suffix hresume fun _ => id
  have hentered := (k.sameTables_entered l).faultQueue
  by_cases hfault : ∃ me, (k.effects l).faults me
  · obtain ⟨me, hme⟩ := hfault
    cases l with
    | kern | start => exact hme.elim
    | trap c e =>
      obtain ⟨hv, hpaged⟩ := page_of_faults hme
      have hcur : (k.enter c e).current c = some me := current_of_faults hme
      have hpage : (k.enter c e).vmHandlePageFault c me e.cr2 (e.frame.error.setWidth 32) =
        some k₁ := by
        simpa [handled, trapHandler, hv, hcur] using hhandled
      rcases faultQueue_vmHandlePageFault hpaged hpage with hsuffix | ⟨msg, hmsg, hpush⟩
      · exact .inl (hback.trans (hentered ▸ hsuffix))
      · refine .inr ⟨me, msg, hme, hmsg, hback.trans ?_⟩
        rw [hpush]
        exact hentered ▸ List.suffix_rfl
  · rw [not_exists] at hfault
    exact .inl (hback.trans (hentered ▸ Acts.faultQueue_suffix hhandler hfault))

/-! ## Runs -/

def paged (k : Kernel) : List Slot :=
  tableSlots.filter fun t : Slot => k.Lives t ∧ (k.tcb t).pagerTid ≠ 0

/-- No thread with a queued fault may end.  A thread that faults has not ended, does not end
at once, and has no fault in the queue already.  At most 15 threads have a pager. -/
def RoomForFaults (k : Kernel) (l : Label) : Prop :=
  (∀ msg ∈ k.faultQueue, ∀ u ∈ k.schedGetTcb msg.faultingThread, ¬ k.mayEnd l u) ∧
    (∀ me ∈ k.current l.cpu, (k.effects l).faults me → (k.schedGetTcb me.tid).isSome ∧
      ¬ k.mayEnd l me ∧
        ∀ msg ∈ k.faultQueue, msg.faultingThread ≠ me.tid) ∧
    k.paged.length ≤ 15
deriving Decidable

/-- The queued faults are of different threads, which have not ended and have pagers. -/
structure FaultsOnce (k : Kernel) : Prop where
  nodup : (k.faultQueue.map FaultMsg.faultingThread).Nodup
  paged : ∀ msg ∈ k.faultQueue, ∃ u ∈ k.paged, msg.faultingThread = u.tid

theorem mem_paged : u ∈ k.paged ↔ k.schedGetTcb u.tid = some u ∧ (k.tcb u).pagerTid ≠ 0 := by
  rw [paged, List.mem_filter, mem_tableSlots, decide_eq_true_iff, ← and_assoc, schedGetTcb_tid]
  refine and_congr_left' ?_
  unfold Lives
  split <;> grind

/-- There are at most as many faults of different threads as threads with pagers. -/
theorem length_le_paged {queue : List FaultMsg} (hnodup : (queue.map FaultMsg.faultingThread).Nodup)
    (hpaged : ∀ msg ∈ queue, ∃ u ∈ k.paged, msg.faultingThread = u.tid) :
    queue.length ≤ k.paged.length := by
  have hsub : queue.map FaultMsg.faultingThread ⊆ k.paged.map Slot.tid := by
    intro tid htid
    obtain ⟨msg, hmsg, rfl⟩ := List.mem_map.mp htid
    obtain ⟨u, hu, heq⟩ := hpaged msg hmsg
    exact List.mem_map.mpr ⟨u, hu, heq.symm⟩
  simpa using (hnodup.subperm hsub).length_le

/-- A thread with a pager that does not end in a section is there afterwards. -/
theorem mem_paged_step (hu : u ∈ k.paged) (hl : ¬ k.mayEnd l u) (hs : k.step l = some k') :
    u ∈ k'.paged := by
  obtain ⟨hfound, hpager⟩ := mem_paged.mp hu
  have hstands : (k.entered l).Stands (k.sectionEffects l) (k.tcb u).pagerTid u :=
    ⟨(entered_schedGetTcb ..).trans hfound, entered_field k l _ Tcb.pagerTid fun _ _ => rfl, hl⟩
  have hstands' : k'.Stands (k.sectionEffects l) (k.tcb u).pagerTid u :=
    (acts_section hs).invariant (fun hk hact => hact.stands hk) hstands
  exact mem_paged.mpr ⟨hstands'.found, hstands'.pager ▸ hpager⟩

/-- The thread that faults has a pager, and its fault is a new one. -/
theorem FaultsOnce.push (h : k.FaultsOnce) (hl : k.RoomForFaults l) (hme : (k.effects l).faults me)
    {msg : FaultMsg} (hmsg : msg.faultingThread = me.tid) :
    me ∈ k.paged ∧ ((k.faultQueue ++ [msg]).map FaultMsg.faultingThread).Nodup := by
  obtain ⟨hfound, -, hnew⟩ := hl.2.1 me (current_of_faults hme) hme
  constructor
  · obtain ⟨u, hu⟩ := Option.isSome_iff_exists.mp hfound
    obtain rfl : me = u := Slot.tid_inj (schedGetTcb_eq_some hu).1
    refine mem_paged.mpr ⟨hu, ?_⟩
    cases l with
    | kern | start => exact hme.elim
    | trap c e =>
      rw [← entered_field k (.trap c e) _ Tcb.pagerTid fun _ _ => rfl]
      exact (page_of_faults hme).2.1
  · rw [List.map_append, List.nodup_append]
    refine ⟨h.nodup, List.nodup_singleton _, ?_⟩
    rintro tid htid _ hlast rfl
    obtain ⟨old, hold, rfl⟩ := List.mem_map.mp htid
    exact hnew old hold ((List.mem_singleton.mp hlast).trans hmsg)

/-- **Step.** -/
theorem FaultsOnce.step (h : k.FaultsOnce) (hl : k.RoomForFaults l) (hs : k.step l = some k') :
    k'.FaultsOnce := by
  have hstay : ∀ msg ∈ k.faultQueue, ∃ u ∈ k'.paged, msg.faultingThread = u.tid := by
    intro msg hmsg
    obtain ⟨u, hu, heq⟩ := h.paged msg hmsg
    exact ⟨u, mem_paged_step hu (hl.1 msg hmsg u (heq ▸ (mem_paged.mp hu).1)) hs, heq⟩
  rcases faultQueue_step hs with hsuffix | ⟨me, msg, hme, hmsg, hsuffix⟩
  · exact ⟨h.nodup.sublist (hsuffix.sublist.map _), fun m hm => hstay m (hsuffix.subset hm)⟩
  obtain ⟨hpaged, hnodup⟩ := h.push hl hme hmsg
  refine ⟨hnodup.sublist (hsuffix.sublist.map _), fun m hm => ?_⟩
  rcases List.mem_append.mp (hsuffix.subset hm) with hold | hnew
  · exact hstay m hold
  · rw [List.mem_singleton.mp hnew]
    have hkept := (hl.2.1 me (current_of_faults hme) hme).2.1
    exact ⟨me, mem_paged_step hpaged hkept hs, hmsg⟩

theorem FaultsOnce.not_overflows (h : k.FaultsOnce) (hl : k.RoomForFaults l) :
    ¬ k.overflowsFaultQueue l := by
  cases l with
  | kern | start => exact id
  | trap c e =>
    rintro ⟨hv, me, hcur, hpaged, -, hfull⟩
    have hme := faults_of_page hcur hv hpaged
    let msg : FaultMsg := ⟨e.cr2, 0, me.tid⟩
    have hmsg : msg.faultingThread = me.tid := rfl
    obtain ⟨hmem, hnodup⟩ := h.push hl hme hmsg
    have hlength : k.faultQueue.length = 15 := Lib.length_ring_of_full hfull
    have hle := length_le_paged hnodup fun m hm => by
      rcases List.mem_append.mp hm with hold | hnew
      · exact h.paged m hold
      · exact ⟨me, hmem, List.mem_singleton.mp hnew ▸ hmsg⟩
    have hroom := hle.trans hl.2.2
    rw [List.length_append, hlength, List.length_singleton] at hroom
    omega

theorem FaultsOnce.of_isBoot (h : k.IsBoot) : k.FaultsOnce := by
  obtain ⟨base, size, fpu, rfl⟩ := h
  exact ⟨List.nodup_nil, fun msg hmsg => by cases hmsg⟩

/-- In every run in which at most 15 threads have a pager, no thread with a queued fault may
end, and none faults again before its pager has taken the fault, every fault finds room. -/
theorem not_overflowsFaultQueue_of_roomForFaults (h : Reachable RoomForFaults k)
    (hl : k.RoomForFaults l) : ¬ k.overflowsFaultQueue l := by
  refine (h.invariant (I := FaultsOnce) (fun _ => FaultsOnce.of_isBoot) ?_).not_overflows hl
  intro k l k' hk hok hs
  exact hk.step hok hs

def threeClientsRun : List Label :=
  [.spawn 0x1000, spawnPaged 0x2000 1, spawnPaged 0x3000 1, spawnPaged 0x4000 1, .start 0, .yield 0,
    pageFault 0 0x5000, pageFault 0 0x6000]

theorem not_overflowsFaultQueue_threeClientsRun :
    ∃ k, Lib.run step RoomForFaults (boot 0 0 0) threeClientsRun = some k ∧
      k.faultQueue.length = 2 ∧ ¬ k.overflowsFaultQueue (pageFault 0 0x7000) := by
  obtain ⟨k, hk, hlength, hroom⟩ : ∃ k ∈ Lib.run step RoomForFaults (boot 0 0 0) threeClientsRun,
      k.faultQueue.length = 2 ∧ k.RoomForFaults (pageFault 0 0x7000) := by
    decide +kernel
  exact ⟨k, hk, hlength,
    not_overflowsFaultQueue_of_roomForFaults (.of_run (.init ⟨0, 0, 0, rfl⟩) hk) hroom⟩

def faultStormRun : List Label :=
  .spawn 0x1000 :: List.replicate 16 (spawnPaged 0x2000 1) ++ [.start 0, .yield 0] ++
    List.replicate 15 (pageFault 0 0x5000)

instance (k : Kernel) (l : Label) : Decidable (k.overflowsFaultQueue l) :=
  match l with
  | .trap .. => inferInstanceAs (Decidable (_ ∧ ∃ me ∈ _, _))
  | .kern .. | .start _ => .isFalse id

/-- After `faultStormRun` the fault of a sixteenth thread halts the kernel. -/
theorem overflowsFaultQueue_faultStormRun :
    ¬ ∀ k l, Reachable (fun _ _ => True) k → ¬ k.overflowsFaultQueue l := by
  intro h
  obtain ⟨k, hk, hfull⟩ : ∃ k, Reachable (fun _ _ => True) k ∧
    k.overflowsFaultQueue (pageFault 0 0x5000) :=
    Lib.observed faultStormRun ⟨0, 0, 0, rfl⟩ (by decide +kernel)
  exact h k _ hk hfull

end Robu.Kernel
