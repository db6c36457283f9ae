import Robu.Kernel.Ended
import Robu.Lib.Run

/-!
# Signal handlers

`sig_try_deliver` keeps the registers and the mask of a thread that enters a handler in its control
block, and `SYS_INFO_CAT_SIGRETURN` puts them back.  It does so in a handler or not: a thread that
was in none gets what an earlier handler left there, or zeros.
-/

namespace Robu

def Uctx.UserMode (f : Uctx) : Prop := f.cs = 0x1B ∧ f.ss = 0x23
deriving Decidable

inductive SigOp
  | signal (c : Cpu) (signum : Int)
  | deliver (c : Cpu)
  /-- It runs, and calls what else it likes. -/
  | run (f : Uctx) (mask : Word) (actions : Fin 64 → SigAction)
  | exec (env : Env)
  | sigreturn

/-- The kernel, with the registers and the mask that the thread had when it entered the handler
in which it is. -/
structure SigRun where
  kernel : Kernel
  entered : Option (Uctx × Word)

namespace SigRun

variable {t : Slot} {s s' : SigRun}

def frame (t : Slot) (s : SigRun) : Uctx × Word := ((s.kernel.tcb t).uctx, (s.kernel.tcb t).sigMask)

def step (t : Slot) (s : SigRun) : SigOp → Option SigRun
  | .signal c signum => (s.kernel.sigSend c t.tid signum).map fun k => { s with kernel := k }
  | .deliver c =>
    let k := s.kernel.sigTryDeliver c t
    if (k.tcb t).state ≠ .running then none
    else if (k.tcb t).inSigHandler = (s.kernel.tcb t).inSigHandler then some { s with kernel := k }
    else some ⟨k, some (s.frame t)⟩
  | .run f mask actions => some { s with
      kernel := s.kernel.modTcb t fun x =>
        { x with state := .running, uctx := f, sigMask := mask, sigActions := actions } }
  | .exec env => (s.kernel.elfExecCurrent env t).map fun k => ⟨k, none⟩
  | .sigreturn => some ⟨s.kernel.infoSigreturn t, none⟩

/-- **Undo.**  A `sigreturn` now puts back what was there at the entry of the handler, and outside
a handler it changes nothing. -/
def Undoes (t : Slot) (s : SigRun) : Prop :=
  ∀ s', s.step t .sigreturn = some s' → s'.frame t = s.entered.getD (s.frame t)

/-- In a handler, or with the thread's own registers and mask in the control block. -/
def Saved (t : Slot) (s : SigRun) : Prop :=
  s.entered = none → ((s.kernel.tcb t).savedUctxBeforeSig, (s.kernel.tcb t).savedSigMask) =
    s.frame t

/-- The thread runs in user mode, and only calls `sigreturn` when its context is saved. -/
def Allowed (t : Slot) (s : SigRun) : SigOp → Prop
  | .run f _ _ => f.UserMode
  | .sigreturn => s.Saved t
  | _ => True

def Init (t : Slot) (s : SigRun) : Prop :=
  (s.kernel.tcb t).uctx.UserMode ∧ (s.kernel.tcb t).inSigHandler = false ∧ s.entered = none

structure Sound (t : Slot) (s : SigRun) : Prop where
  user : (s.kernel.tcb t).uctx.UserMode
  inside : (s.kernel.tcb t).inSigHandler = s.entered.isSome
  saved : ∀ e ∈ s.entered, e.1.UserMode ∧
    ((s.kernel.tcb t).savedUctxBeforeSig, (s.kernel.tcb t).savedSigMask) = e

/-- What signals and `exec` leave in a control block. -/
def record (k : Kernel) (t : Slot) : Uctx × Bool × Uctx × Word :=
  ((k.tcb t).uctx, (k.tcb t).inSigHandler, (k.tcb t).savedUctxBeforeSig, (k.tcb t).savedSigMask)

theorem Sound.of_record (h : s.Sound t) {k : Kernel} (hk : record k t = record s.kernel t) :
    Sound t { s with kernel := k } := by
  simp only [record, Prod.mk.injEq] at hk
  obtain ⟨huctx, hin, hsaved, hmask⟩ := hk
  constructor
  · exact huctx ▸ h.user
  · exact hin.trans h.inside
  · intro e he
    rw [hsaved, hmask]
    exact h.saved e he

theorem record_sigSend {k k' : Kernel} {c : Cpu} {signum : Int}
    (h : k.sigSend c t.tid signum = some k') : record k' t = record k t := by
  unfold Kernel.sigSend at h
  rw [Kernel.schedGetTcb_tid] at h
  split at h
  · cases h
  split at h
  · cases h
  · rename_i hget
    split at hget
    · cases hget
    cases hget
    cases h
    generalize hk : k.modTcb t _ = k₁
    have hwake := k₁.alike_schedWake c t
    rw [record, hwake.field Tcb.uctx t fun _ => rfl, hwake.field Tcb.inSigHandler t fun _ => rfl,
      hwake.field Tcb.savedUctxBeforeSig t fun _ =>
        rfl, hwake.field Tcb.savedSigMask t fun _ => rfl]
    simp only [Kernel.modTcb_tcb_self, record, ← hk]

theorem gone_schedTerminateTo (k : Kernel) (c : Cpu) (t : Slot) {final : ThreadState}
    (hfinal : final = .dead ∨ final = .zombie) :
    ((k.schedTerminateTo c t final).tcb t).state ≠ .running := by
  rw [Kernel.schedTerminateTo, Kernel.requestResched_tcb]
  rcases (k.ended_terminateTcb c t hfinal).gone with hgone | hgone
  · rw [hgone]; nofun
  · rw [hgone]; nofun

theorem gone_spawnExitCurrent (k : Kernel) (c : Cpu) (t : Slot) (status : BitVec 32) :
    ((k.spawnExitCurrent c t status).tcb t).state ≠ .running := by
  unfold Kernel.spawnExitCurrent
  dsimp only
  split
  · exact gone_schedTerminateTo _ c t (.inl rfl)
  · split
    · exact gone_schedTerminateTo _ c t (.inl rfl)
    · exact gone_schedTerminateTo _ c t (.inr rfl)

theorem Sound.deliver (h : s.Sound t) {c : Cpu} (hs : s.step t (.deliver c) = some s') :
    s'.Sound t := by
  have hdelivers := s.kernel.delivers_sigTryDeliver c t
  simp only [step] at hs
  generalize s.kernel.sigTryDeliver c t = k at hs hdelivers
  split at hs
  · cases hs
  rename_i hrun
  cases hdelivers with
  | none => rw [if_pos rfl] at hs; cases hs; exact h
  | ack mark =>
    rw [Kernel.ack, Kernel.modTcb_tcb_self, if_pos rfl] at hs
    cases hs
    exact h.of_record (by simp only [record, Kernel.modTcb_tcb_self])
  | exit mark status => exact absurd (gone_spawnExitCurrent _ c t status) hrun
  | handler mark mask actions rsp rip rdi hfree =>
    rw [Kernel.modTcb_tcb_self, hfree, if_neg nofun] at hs
    cases hs
    constructor
    · rw [Kernel.modTcb_tcb_self, Kernel.ack, Kernel.modTcb_tcb_self]
      exact h.user
    · rw [Kernel.modTcb_tcb_self, Option.isSome_some]
    · rintro e ⟨⟩
      rw [Kernel.modTcb_tcb_self, Kernel.ack, Kernel.modTcb_tcb_self]
      exact ⟨h.user, rfl⟩

/-- **Steps** keep the record of the handler. -/
theorem Sound.step {op : SigOp} (h : s.Sound t) (ha : s.Allowed t op) (hs : s.step t op = some s') :
    s'.Sound t := by
  cases op with
  | signal c signum =>
    obtain ⟨k, hk, rfl⟩ := Option.map_eq_some_iff.mp hs
    exact h.of_record (record_sigSend hk)
  | deliver c => exact h.deliver hs
  | run f mask actions =>
    cases hs
    constructor
    · rw [Kernel.modTcb_tcb_self]; exact ha
    · rw [Kernel.modTcb_tcb_self]; exact h.inside
    · rw [Kernel.modTcb_tcb_self]; exact h.saved
  | exec env =>
    obtain ⟨k, hk, rfl⟩ := Option.map_eq_some_iff.mp hs
    obtain ⟨image, -, rfl⟩ := Option.map_eq_some_iff.mp hk
    constructor
    · rw [Kernel.modTcb_tcb_self]; exact ⟨rfl, rfl⟩
    · rw [Kernel.modTcb_tcb_self]; rfl
    · exact nofun
  | sigreturn =>
    cases hs
    constructor
    · rw [Kernel.infoSigreturn, Kernel.modTcb_tcb_self]
      cases he : s.entered with
      | none => exact (congrArg (Uctx.UserMode ·.1) (ha he)).mpr h.user
      | some e => exact (congrArg (Uctx.UserMode ·.1) (h.saved e he).2).mpr (h.saved e he).1
    · rw [Kernel.infoSigreturn, Kernel.modTcb_tcb_self]; rfl
    · exact nofun

/-- **Return.**  `sigreturn` undoes the entry into a handler if and only if something is saved. -/
theorem sigreturn_undoes_iff (h : Lib.Reach (step t) (Allowed t) (Init t) s) :
    (s.kernel.tcb t).uctx.UserMode ∧ (s.Undoes t ↔ s.Saved t) := by
  have hsound : s.Sound t :=
    h.invariant (fun s hs => ⟨hs.1, by rw [hs.2.1, hs.2.2]; rfl, by simp [hs.2.2]⟩)
    fun _ _ _ hs ha hstep => hs.step ha hstep
  refine ⟨hsound.user, fun hundo he => ?_, fun hsaved s' hs => ?_⟩
  · have hframe := hundo _ rfl
    rw [frame, Kernel.infoSigreturn, Kernel.modTcb_tcb_self, he] at hframe
    exact hframe
  · cases hs
    rw [frame, Kernel.infoSigreturn, Kernel.modTcb_tcb_self]
    cases he : s.entered with
    | none => exact hsaved he
    | some e => exact (hsound.saved e he).2

def freshThread : SigRun :=
  ⟨(Kernel.boot 0 0 0).modTcb (1 : Slot) fun x =>
    { x with state := .running, uctx := archUctxInitUserArgv 0x400000 0x800000 0 0 0 0 0 }, none⟩

theorem init_freshThread : freshThread.Init 1 := ⟨⟨rfl, rfl⟩, rfl, rfl⟩

theorem sigreturn_undoes_iff_freshThread : (freshThread.kernel.tcb (1 : Slot)).uctx.UserMode ∧
    (freshThread.Undoes 1 ↔ freshThread.Saved 1) :=
  sigreturn_undoes_iff (.init init_freshThread)

/-- A `sigreturn` outside a handler takes the thread's registers from it, and its user mode. -/
theorem not_undoes_freshThread : ¬ freshThread.Undoes 1 ∧
    ¬ ((freshThread.kernel.infoSigreturn 1).tcb (1 : Slot)).uctx.UserMode := by
  refine ⟨fun h => ?_, ?_⟩
  · have hframe : ({} : Uctx).cs = 0x1B := congrArg (·.1.cs) (h _ rfl)
    exact absurd hframe (by decide)
  · exact fun h => absurd (show ({} : Uctx).cs = 0x1B from h.1) (by decide)

end SigRun
end Robu
