import Robu.Kernel.DeedsCall
import Robu.Kernel.SingleExec

/-!
# Authority

Apart from the grants kernel code makes by itself, no section gives authority to a tid
that has none: `cap_retype`, the only source of new entries, asks for an untyped capability
of its caller.  So what a tid may do is settled before the thread that uses it is created.

The end of a thread takes nothing away from its tid but capabilities *on* the thread.  The
next thread in the same entry of the table has the same tid, and with it all that its
predecessor held.
-/

namespace Robu

/-! ## Sections -/

def Label.grantee : Label → Option Tid
  | .kern _ op => op.grantee
  | _ => none

namespace Kernel

variable {k k' : Kernel} {c : Cpu} {l : Label}

/-- Storing a tid in a table of secondary grants gives authority to that tid. -/
theorem grantFirstFree_eq {table : Fin 4 → Tid} {tid other : Tid} {i : Fin 4}
    (h : grantFirstFree table tid i = other) : table i = other ∨ other = tid := by
  unfold grantFirstFree at h
  cases hj : (List.finRange 4).find? fun i => table i = 0 with
  | none =>
    rw [hj] at h
    exact .inl h
  | some j =>
    simp only [hj] at h
    rcases eq_or_ne i j with rfl | hij
    · rw [Function.update_self] at h
      exact .inr h.symm
    · rw [Function.update_of_ne hij] at h
      exact .inl h

/-- A grant changes no table of capabilities. -/
theorem Grants.of_granted {S : Set Tid} (hk : k'.auth.kcaps = k.auth.kcaps)
    (hf : k'.auth.frameCaps = k.auth.frameCaps)
    (hg : ∀ tid, k'.auth.Granted tid → k.auth.Granted tid ∨ tid ∈ S) : Grants S k k' := by
  refine ⟨?_⟩
  rintro tid ⟨hne, ⟨cap, hmem, hcap⟩ | ⟨cap, hmem, hcap⟩ | hgrant⟩
  · exact .inl ⟨hne, .inl ⟨cap, hk ▸ hmem, hcap⟩⟩
  · exact .inl ⟨hne, .inr (.inl ⟨cap, hf ▸ hmem, hcap⟩)⟩
  · exact (hg tid hgrant).imp_left fun hold => ⟨hne, .inr (.inr hold)⟩

/-- Kernel code gives authority to the tid that it names. -/
theorem Grants.runKernOp (k : Kernel) (c : Cpu) (op : KernOp) :
    Grants {tid | op.grantee = some tid} k (k.runKernOp c op) := by
  have hnone : op.grantee = none → Grants {tid | op.grantee = some tid} k (k.runKernOp c op) :=
    fun h =>
    ((kernDoes_runKernOp op).grants h).of_none
  cases op with
  | threadCreate | threadCreateUser | threadCreateUserArgv | submitPoll | finishPoll | yield
  | capRetype
  | setExt2fsTid => exact hnone rfl
  | kcapGrant owner kind addr size =>
    refine getD_of (P := Grants _ k) (of_auth rfl) fun k' h => ?_
    refine ⟨fun tid ht => ((Grants.kcapGrant h).holds tid ht).imp_right ?_⟩
    rintro rfl
    rfl
  | vmCapGrant owner base count perms =>
    simp only [Kernel.runKernOp]
    split
    · exact of_auth rfl
    refine ⟨?_⟩
    rintro tid ⟨hne, hcap | ⟨cap, hmem, rfl⟩ | hgrant⟩
    · exact .inl ⟨hne, .inl hcap⟩
    · rcases List.mem_append.mp hmem with hold | hnew
      · exact .inl ⟨hne, .inr (.inl ⟨cap, hold, rfl⟩)⟩
      · rw [List.mem_singleton.mp hnew]
        exact .inr rfl
    · exact .inl ⟨hne, .inr (.inr hgrant)⟩
  | grantHwDriverSecondary new =>
    refine .of_granted rfl rfl ?_
    rintro tid (hone | ⟨i, hi⟩ | hport)
    · exact .inl (.inl hone)
    · exact (grantFirstFree_eq hi).imp (fun hold => .inr (.inl ⟨i, hold⟩)) fun heq =>
        congrArg some heq.symm
    · exact .inl (.inr (.inr hport))
  | grantHwPortIoSecondary new =>
    refine .of_granted rfl rfl ?_
    rintro tid (hone | hsec | ⟨i, hi⟩)
    · exact .inl (.inl hone)
    · exact .inl (.inr (.inl hsec))
    · exact (grantFirstFree_eq hi).imp (fun hold => .inr (.inr ⟨i, hold⟩)) fun heq =>
        congrArg some heq.symm
  | grantConsoleWriter new | grantConsoleDriver new | grantPagerOwner new | grantHwDriver new
  | grantPciCfgSecondary new =>
    refine .of_granted rfl rfl ?_
    rintro tid (hone | htable)
    · by_cases heq : tid = new
      · exact .inr (heq ▸ rfl)
      · refine .inl (.inl ?_)
        simp only [auth, Kernel.runKernOp, List.mem_cons, heq, false_or] at hone ⊢
        tauto
    · exact .inl (.inr htable)

/-- **Step.**  A section gives authority only where kernel code grants it. -/
theorem Grants.step (h : k.step l = some k') : Grants {tid | l.grantee = some tid} k k' := by
  cases l with
  | kern c op =>
    cases h
    exact Grants.runKernOp ..
  | start c =>
    simp only [Kernel.step] at h
    split at h
    · cases h
    · exact (does_schedStart (F := k.effects (.start c))
        (D := .quiet) trivial h).works.grants.of_none
  | trap c e =>
    simp only [Kernel.step] at h
    split at h
    · obtain ⟨k₁, -, hhandler, hback, -⟩ := does_trapDispatch h
      exact (((calm_enter k c e).grants.trans hhandler.works.grants).trans
        hback.works.grants).of_none
    · cases h

/-! ## Reused tids -/

def StartsClean (k k' : Kernel) : Prop :=
  ∀ i : Slot, (k.tcb i).state = .dead → (k'.tcb i).state ≠ .dead → ¬ k'.auth.Holds i.tid

def GrantsToLiving (k : Kernel) (l : Label) : Prop :=
  ∀ i : Slot, l.grantee = some i.tid → (k.tcb i).state ≠ .dead
deriving Decidable

def SparesHolders (k : Kernel) (l : Label) : Prop :=
  ∀ i : Slot, k.auth.Holds i.tid → (k.tcb i).state ≠ .dead →
    ∀ k' ∈ k.step l, (k'.tcb i).state ≠ .dead
deriving Decidable

def Clean (k : Kernel) : Prop :=
  ∀ i : Slot, (k.tcb i).state = .dead → ¬ k.auth.Holds i.tid

theorem not_dead_runKernOp {op : KernOp} {i : Slot} (h : (k.tcb i).state ≠ .dead) :
    ((k.runKernOp c op).tcb i).state ≠ .dead := by
  show (k.runKernOp c op).core.state i ≠ .dead
  rcases k.core_runKernOp c op with hc | ⟨j, ctx, hdead, hc⟩ | ⟨t, ht, hc⟩
  · rw [hc]
    exact h
  · have hij : i ≠ j := fun heq => h (heq ▸ hdead)
    rw [hc]
    show Function.update k.core.state j .ready i ≠ .dead
    rw [Function.update_of_ne hij]
    exact h
  · rw [hc, Core.wake_eq]
    show (if _ then ThreadState.ready else k.core.state i) ≠ .dead
    split
    · decide
    · exact h

theorem Clean.step (hk : k.Clean) (hg : k.GrantsToLiving l) (hd : k.SparesHolders l)
    (hs : k.step l = some k') : k'.Clean := by
  intro i hi hholds
  by_cases hdead : (k.tcb i).state = .dead
  · rcases (Grants.step hs).holds _ hholds with hold | hnew
    · exact hk i hdead hold
    · exact hg i hnew hdead
  · rcases (Grants.step hs).holds _ hholds with hold | hnew
    · exact hd i hold hdead k' hs hi
    cases l with
    | kern c op =>
      cases hs
      exact not_dead_runKernOp hdead hi
    | start | trap => cases hnew

/-- In every run in which kernel code grants authority to living threads only, and no
thread dies holding authority, every thread starts without it. -/
theorem startsClean_of_sparesHolders
    (h : Reachable (fun k l => k.GrantsToLiving l ∧ k.SparesHolders l) k) (hg : k.GrantsToLiving l)
    (hs : k.step l = some k') : k.StartsClean k' := by
  have hclean : k.Clean := by
    refine h.invariant (I := Clean) ?_ ?_
    · rintro k ⟨base, size, fpu, rfl⟩ i - ⟨hne, hcap | hframe | hgrant⟩
      · obtain ⟨cap, hmem, -⟩ := hcap
        cases hmem
      · obtain ⟨cap, hmem, -⟩ := hframe
        cases hmem
      · simp only [Auth.Granted, auth, boot, List.mem_cons, List.not_mem_nil] at hgrant
        exact hne (by tauto)
    · intro k l k' hk hok hs
      exact hk.step hok.1 hok.2 hs
  intro i hdead _ hholds
  rcases (Grants.step hs).holds _ hholds with hold | hnew
  · exact hclean i hdead hold
  · exact hg i hnew hdead

def cleanExitRun : List Label :=
  [.spawn 0x1000, .spawn 0x2000, .kern 0 (.kcapGrant 1 .untyped 0x400000 0x100000),
    .kern 0 (.grantConsoleWriter 1), .start 0, .yield 0, .call 0 0 0 0x4000]

/-- After `cleanExitRun` the entry of thread 2 is reused, without authority. -/
theorem startsClean_cleanExitRun :
    ∃ k k', Lib.run step (fun k l => k.GrantsToLiving l ∧ k.SparesHolders l)
        (boot 0x400000 0x100000 0) cleanExitRun = some k ∧ k.step (.spawn 0x3000) = some k' ∧
      (k.tcb (.thread 2)).state = .dead ∧ (k'.tcb (.thread 2)).state = .ready ∧
      k.StartsClean k' := by
  obtain ⟨k, hk, k', hk', hdead, hready⟩ :
    ∃ k ∈ Lib.run step (fun k l => k.GrantsToLiving l ∧ k.SparesHolders l)
      (boot 0x400000 0x100000 0) cleanExitRun, ∃ k' ∈ k.step (.spawn 0x3000),
        (k.tcb (.thread 2)).state = .dead ∧ (k'.tcb (.thread 2)).state = .ready := by
    decide +kernel
  refine ⟨k, k', hk, hk', hdead, hready, ?_⟩
  refine startsClean_of_sparesHolders (.of_run (.init ⟨0x400000, 0x100000, 0, rfl⟩) hk) ?_ hk'
  intro i hgrant
  cases hgrant

def ownerExitRun : List Label :=
  [.spawn 0x1000, .kern 0 (.grantConsoleWriter 1), .start 0, .call 0 0 0 0x4000]

/-- The next thread after `ownerExitRun` gets the tid 1 and with it the console. -/
theorem not_startsClean_ownerExitRun :
    ¬ ∀ k l k', Reachable (fun _ _ => True) k → k.step l = some k' → k.StartsClean k' := by
  intro h
  obtain ⟨k, hk, k', hk', hdead, hready, hwriter⟩ : ∃ k, Reachable (fun _ _ => True) k ∧
      ∃ k' ∈ k.step (.spawn 0x3000), (k.tcb (.thread 1)).state = .dead ∧
        (k'.tcb (.thread 1)).state = .ready ∧
        k'.consoleWriterTid = 1 := Lib.observed ownerExitRun ⟨0, 0, 0, rfl⟩ (by decide +kernel)
  have hholds : k'.auth.Holds (Slot.tid 1) :=
    ⟨by decide, .inr (.inr (.inl (List.mem_cons.mpr (.inl hwriter.symm))))⟩
  exact h k _ k' hk hk' 1 hdead (by rw [hready]; decide) hholds

end Kernel

end Robu
