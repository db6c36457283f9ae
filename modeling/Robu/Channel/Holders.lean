import Robu.Channel.Pipe

/-!
# Who holds a pipe

The masks of a pipe name threads by their entry in the thread table, entries are used again,
and a handle is a number that any thread can make up.  That the masks name live threads, that
a free slot stays free until a pipe is created in it, and that a handle that works is the one
its pipe was created with, are facts about all operations together.

They hold along every run in which handles that are closed or passed to a child name pipes
that are in use (`lifetime_of_inUse`).  Without this they do not: a descriptor passed to a child
makes a pipe out of a free slot (`not_lifetime_spawned`), because `pipe_add_holder` asks for the
generation of the slot and not whether there is a pipe.

Most operations only take holders away, or pass the pipe on to a new thread, and this is the
relation `Pipe.Passes` that the proofs are about.
-/

namespace Robu

open Function (update update_apply update_of_ne update_self)

variable {mask : Word} {w : Bool}

namespace Pipe

variable {p p' p'' : Pipe} {t u : Slot} {child : Option Slot}

def Holds (p : Pipe) (t : Slot) : Prop :=
    p.readersMask.getLsbD t = true ∨ p.writersMask.getLsbD t = true
deriving Decidable

theorem getLsbD_holderBit (t : Slot) (j : Nat) : (holderBit t).getLsbD j = decide (j = t) := by
  show (BitVec.twoPow 64 t).getLsbD j = _
  rw [BitVec.getLsbD_twoPow]
  simp [eq_comm, t.isLt]

theorem getLsbD_or_holderBit :
    (mask ||| holderBit t).getLsbD u = true ↔ mask.getLsbD u = true ∨ u = t := by
  rw [BitVec.getLsbD_or, getLsbD_holderBit, Bool.or_eq_true, decide_eq_true_iff, Fin.ext_iff]

theorem getLsbD_and_not_holderBit :
    (mask &&& ~~~holderBit t).getLsbD u = true ↔ mask.getLsbD u = true ∧ u ≠ t := by
  rw [BitVec.getLsbD_and, BitVec.getLsbD_not, getLsbD_holderBit, Bool.and_eq_true, Ne, Fin.ext_iff]
  simp [u.isLt]

theorem and_holderBit_ne_zero : mask &&& holderBit t ≠ 0 ↔ mask.getLsbD t = true := by
  constructor
  · intro h
    by_contra hbit
    refine h (BitVec.eq_of_getLsbD_eq fun j hj => ?_)
    rw [BitVec.getLsbD_and, getLsbD_holderBit]
    by_cases hjt : j = t
    · rw [hjt, Bool.eq_false_iff.mpr hbit, Bool.false_and]
      exact BitVec.getLsbD_zero.symm
    · simp [hjt]
  · intro hbit h
    have hzero : (mask &&& holderBit t).getLsbD t = false := by rw [h]; exact BitVec.getLsbD_zero
    rw [BitVec.getLsbD_and, hbit, getLsbD_holderBit] at hzero
    simp at hzero

/-! ## Holders -/

theorem isFree_iff : p.isFree = true ↔ p.readersMask = 0 ∧ p.writersMask = 0 := by simp [isFree]

theorem isFree_iff_holds : p.isFree = true ↔ ∀ t, ¬ p.Holds t := by
  have hmask : ∀ {mask : Word}, (∀ t : Slot, ¬ mask.getLsbD t = true) → mask = 0 := fun h =>
    BitVec.eq_of_getLsbD_eq fun j hj => by
      rw [Bool.eq_false_iff.mpr (h ⟨j, hj⟩)]
      exact BitVec.getLsbD_zero.symm
  rw [isFree_iff]
  constructor
  · rintro ⟨hr, hw⟩ t (ht | ht)
    · rw [hr] at ht
      exact absurd ht (by simp)
    · rw [hw] at ht
      exact absurd ht (by simp)
  · exact fun h => ⟨hmask fun t ht => h t (.inl ht), hmask fun t ht => h t (.inr ht)⟩

theorem holds_hold : (p.hold t w).Holds u → p.Holds u ∨ u = t := by
  cases w
  · rintro (h | h)
    · exact (getLsbD_or_holderBit.mp h).imp_left .inl
    · exact .inl (.inr h)
  · rintro (h | h)
    · exact .inl (.inl h)
    · exact (getLsbD_or_holderBit.mp h).imp_left .inr

theorem holds_release : (p.release t w).Holds u → p.Holds u := by
  cases w
  · exact Or.imp_left fun h => (getLsbD_and_not_holderBit.mp h).1
  · exact Or.imp_right fun h => (getLsbD_and_not_holderBit.mp h).1

theorem not_holds_release : ¬ ((p.release t false).release t true).Holds t := by
  rintro (h | h)
  · exact (getLsbD_and_not_holderBit.mp h).2 rfl
  · exact (getLsbD_and_not_holderBit.mp h).2 rfl

@[simp] theorem holds_retire : p.retire.Holds t ↔ p.Holds t := by
  unfold retire
  split <;> rfl

/-- Holders are taken away, or the pipe is passed on to a new thread. -/
structure Passes (child : Option Slot) (p p' : Pipe) : Prop where
  holds : ∀ {t}, p'.Holds t → p.Holds t ∨ some t = child
  free : p.isFree = true → p'.isFree = true
  generation : p'.isFree = false → p'.generation = p.generation

theorem Passes.refl (p : Pipe) : Passes child p p := ⟨.inl, id, fun _ => rfl⟩

theorem Passes.trans (h : Passes child p p') (h' : Passes child p' p'') : Passes child p p'' where
  holds ht := (h'.holds ht).elim h.holds .inr
  free hp := h'.free (h.free hp)
  generation hp := by
    have hp' : p'.isFree = false :=
      Bool.eq_false_iff.mpr fun hc => by rw [h'.free hc] at hp; cases hp
    rw [h'.generation hp, h.generation hp']

theorem Passes.of_eq (hr : p'.readersMask = p.readersMask) (hw : p'.writersMask = p.writersMask)
    (hg : p'.generation = p.generation) : Passes child p p' where
  holds ht := by
    rw [Holds, hr, hw] at ht
    exact .inl ht
  free hp := by rwa [isFree, hr, hw]
  generation _ := hg

theorem passes_release (w : Bool) : Passes child p (p.release t w) where
  holds ht := .inl (holds_release ht)
  free hp := isFree_iff_holds.mpr fun u hu => isFree_iff_holds.mp hp u (holds_release hu)
  generation _ := by cases w <;> rfl

theorem passes_retire : Passes child p p.retire where
  holds ht := .inl (holds_retire.mp ht)
  free hp := isFree_iff_holds.mpr fun u hu => isFree_iff_holds.mp hp u (holds_retire.mp hu)
  generation hp := by
    unfold retire at hp ⊢
    split
    · rename_i hfree
      rw [if_pos hfree] at hp
      exact absurd (show p.isFree = false from hp) (by simp [hfree])
    · rfl

theorem passes_hold (hp : p.isFree = false) : Passes (some t) p (p.hold t w) where
  holds ht := (holds_hold ht).imp_right fun h => by rw [h]
  free hc := by rw [hc] at hp; cases hp
  generation _ := by cases w <;> rfl

theorem isFree_hold (hp : p.isFree = false) : (p.hold t w).isFree = false := by
  rw [Bool.eq_false_iff, Ne, isFree_iff_holds] at hp ⊢
  intro h
  refine hp fun u hu => h u ?_
  cases w
  · exact hu.imp_left fun hu => getLsbD_or_holderBit.mpr (.inl hu)
  · exact hu.imp_right fun hu => getLsbD_or_holderBit.mpr (.inl hu)

end Pipe

namespace PipePool

variable {pool : PipePool} {child : Option Slot} {t : Slot} {handle : Word} {i j : Fin 16}

def NamesPipe (pool : PipePool) (handle : Word) : Prop :=
  ∀ i, pool.named handle = some i → (pool i).isFree = false
deriving Decidable

theorem makeHandle_of_decode {gen : BitVec 32} (h : decode handle = some (i, gen)) :
    makeHandle i gen = handle := by
  unfold decode at h
  dsimp only at h
  split at h
  · rename_i hlt
    obtain ⟨rfl, rfl⟩ := Prod.mk.inj (Option.some.inj h)
    have hlow : (handle &&& 0xFFFFFFFF).toNat = handle.toNat % 2 ^ 32 := by
      rw [BitVec.toNat_and]
      exact Nat.and_two_pow_sub_one_eq_mod _ 32
    have hhandle := handle.isLt
    refine BitVec.eq_of_toNat_eq ?_
    rw [makeHandle, Lib.toNat_tag _ (by decide) (hlt.trans (by decide)), BitVec.toNat_setWidth,
      BitVec.toNat_ushiftRight, Nat.shiftRight_eq_div_pow]
    show _ + (handle &&& 0xFFFFFFFF).toNat = _
    rw [hlow]
    omega
  · cases h

theorem makeHandle_of_named (h : pool.named handle = some i) :
    makeHandle i (pool i).generation = handle :=
  makeHandle_of_decode (decode_of_named h)

theorem passes_update {p : Pipe} (h : Pipe.Passes child (pool j) p) (i : Fin 16) :
    Pipe.Passes child (pool i) (update pool j p i) := by
  rcases eq_or_ne i j with rfl | hij
  · rwa [update_self]
  · rw [update_of_ne hij]
    exact .refl _

theorem passes_pipeRead (handle max : Word) (i : Fin 16) :
    Pipe.Passes child (pool i) ((pool.pipeRead handle max).2 i) := by
  have htake : ∀ p : Pipe, Pipe.Passes child p (p.take max).2 := fun _ => .of_eq rfl rfl rfl
  rcases pool.pipeRead_cases handle max with ⟨rc, h⟩ | ⟨j, -, h⟩
  · rw [h]
    exact .refl _
  · rw [h]
    exact passes_update (htake _) i

theorem passes_pipeWrite (handle : Word) (bytes : List (BitVec 8)) (len : Word) (i : Fin 16) :
    Pipe.Passes child (pool i) ((pool.pipeWrite handle bytes len).2 i) := by
  have hput : ∀ p : Pipe, Pipe.Passes child p (p.put bytes len).2 := fun p => by
    have hbytes : ∀ n, Pipe.Passes child p (p.putBytes bytes n) := fun _ => .of_eq rfl rfl rfl
    unfold Pipe.put
    split
    · exact .refl _
    · exact hbytes _
  rcases pool.pipeWrite_cases handle bytes len with ⟨rc, h⟩ | ⟨j, -, h⟩
  · rw [h]
    exact .refl _
  · rw [h]
    exact passes_update (hput _) i

theorem passes_pipeClose (t : Slot) (handle : Word) (w : Bool) (i : Fin 16) :
    Pipe.Passes child (pool i) ((pool.pipeClose t handle w).2 i) := by
  unfold pipeClose
  split
  · exact .refl _
  · exact passes_update ((Pipe.passes_release w).trans Pipe.passes_retire) i

theorem passes_pipeInvalidateTcbDeath (t : Slot) (i : Fin 16) :
    Pipe.Passes child (pool i) (pool.pipeInvalidateTcbDeath t i) := by
  unfold pipeInvalidateTcbDeath
  split
  · exact ((Pipe.passes_release _).trans (Pipe.passes_release _)).trans Pipe.passes_retire
  · exact .refl _

theorem not_holds_pipeInvalidateTcbDeath : ¬ (pool.pipeInvalidateTcbDeath t i).Holds t := by
  unfold pipeInvalidateTcbDeath
  split
  · rw [Pipe.holds_retire]
    exact Pipe.not_holds_release
  rename_i h
  rw [Pipe.and_holderBit_ne_zero, BitVec.getLsbD_or, Bool.or_eq_true] at h
  exact h

theorem passes_pipeInheritFork (parent child : Slot) (i : Fin 16) :
    Pipe.Passes (some child) (pool i) (pool.pipeInheritFork parent child i) := by
  have hmask : ∀ {mask : Word} {u : Slot},
      (if mask &&& holderBit parent ≠ 0 then mask ||| holderBit child else mask).getLsbD u = true →
        mask.getLsbD u = true ∨ u = child := by
    intro mask u hu
    split at hu
    · exact Pipe.getLsbD_or_holderBit.mp hu
    · exact .inl hu
  refine ⟨?_, fun hfree => ?_, fun _ => rfl⟩
  · rintro u (hu | hu)
    · exact (hmask hu).imp .inl fun h => by rw [h]
    · exact (hmask hu).imp .inr fun h => by rw [h]
  · obtain ⟨hr, hw⟩ := Pipe.isFree_iff.mp hfree
    rw [Pipe.isFree_iff]
    simp [pipeInheritFork, hr, hw]

/-- A descriptor of a pipe that is in use is passed on, and all pipes that were in use still are. -/
theorem passes_pipeAddHolder (h : pool.NamesPipe handle) (w : Bool) (i : Fin 16) :
    Pipe.Passes (some t) (pool i) (pool.pipeAddHolder t handle w i) := by
  unfold pipeAddHolder
  cases hj : pool.named handle with
  | none => exact .refl _
  | some j => exact passes_update (Pipe.passes_hold (h j hj)) i

theorem generation_pipeAddHolder (pool : PipePool) (t : Slot) (handle : Word) (w : Bool)
    (i : Fin 16) : (pool.pipeAddHolder t handle w i).generation = (pool i).generation := by
  unfold pipeAddHolder
  cases pool.named handle with
  | none => rfl
  | some j =>
    rcases eq_or_ne i j with rfl | hij
    · dsimp only
      rw [update_self]
      cases w <;> rfl
    · dsimp only
      rw [update_of_ne hij]

theorem isFree_pipeAddHolder (h : (pool i).isFree = false) :
    (pool.pipeAddHolder t handle w i).isFree = false := by
  unfold pipeAddHolder
  cases pool.named handle with
  | none => exact h
  | some j =>
    rcases eq_or_ne i j with rfl | hij
    · dsimp only
      rw [update_self]
      exact Pipe.isFree_hold h
    · dsimp only
      rwa [update_of_ne hij]

theorem NamesPipe.pipeAddHolder {h' : Word} (h : pool.NamesPipe handle) :
    (pool.pipeAddHolder t h' w).NamesPipe handle := by
  intro i hi
  have hsame : pool.named handle = some i := by
    unfold named at hi ⊢
    split at hi
    · rename_i j gen hdec
      rw [generation_pipeAddHolder] at hi
      exact hi
    · cases hi
  exact isFree_pipeAddHolder (h i hsame)

def NamePipes (pool : PipePool) (fds : List SpawnFd) : Prop :=
  ∀ fd ∈ fds, fd.kind = 100 ∨ fd.kind = 101 → pool.NamesPipe fd.handle

instance {fds : List SpawnFd} : Decidable (pool.NamePipes fds) := List.decidableBAll _ _

theorem passes_addHolders {fds : List SpawnFd} (h : pool.NamePipes fds) (i : Fin 16) :
    Pipe.Passes (some t) (pool i) (pool.addHolders t fds i) := by
  induction fds generalizing pool with
  | nil => exact .refl _
  | cons fd fds ih =>
    have hfd := h fd (.head _)
    have hrest : pool.NamePipes fds := fun g hg => h g (.tail fd hg)
    rw [addHolders, List.foldl_cons]
    show Pipe.Passes (some t) (pool i) (addHolders _ t fds i)
    split
    · rename_i hk
      exact (passes_pipeAddHolder (hfd (.inl hk)) false i).trans
        (ih fun g hg hkind => (hrest g hg hkind).pipeAddHolder)
    · split
      · rename_i hk
        exact (passes_pipeAddHolder (hfd (.inr hk)) true i).trans
          (ih fun g hg hkind => (hrest g hg hkind).pipeAddHolder)
      · exact ih hrest

end PipePool

namespace Pipes

variable {s s' : Pipes} {op : Op}

def OnlyLive (s : Pipes) : Prop := ∀ i t, (s.pool i).Holds t → s.live t = true

def Creates (s : Pipes) (op : Op) (i : Fin 16) : Prop :=
  ∃ t f, op = .call t .create f ∧ (s.pool.sysIpc t f .create).1.rax = IpcErr.none.toWord ∧
    (PipePool.decode (s.pool.sysIpc t f .create).1.r8).map Prod.fst = some i

structure Keeps (s : Pipes) (op : Op) (s' : Pipes) : Prop where
  /-- A free slot stays free, unless a pipe is created in it. -/
  staysFree : ∀ i, (s.pool i).isFree = true → (s'.pool i).isFree = true ∨ s.Creates op i
  /-- A handle that is accepted was returned by the creation of the pipe in its slot. -/
  accepted : ∀ t c f, op = .call t c f → c ≠ .create →
    (s.pool.sysIpc t f c).1.rax = IpcErr.none.toWord →
      ∃ i, s.pool.named f.r8 = some i ∧ (s.pool i).isFree = false ∧ s.created i = some f.r8

def Lifetime (ok : Pipes → Op → Prop) (s : Pipes) : Prop :=
  s.OnlyLive ∧ ∀ op s', ok s op → step s op = some s' → s.Keeps op s'

/-- The handles that are closed, and those that are passed to a child, name pipes that are in use,
if they name a slot at all. -/
def InUse (s : Pipes) : Op → Prop
  | .call _ .close f => s.pool.NamesPipe f.r8
  | .spawn _ _ fds => s.pool.NamePipes fds
  | _ => True

instance : Decidable (s.InUse op) :=
  match op with
  | .call _ .close f => inferInstanceAs (Decidable (s.pool.NamesPipe f.r8))
  | .spawn _ _ fds => inferInstanceAs (Decidable (s.pool.NamePipes fds))
  | .call _ .create _ | .call _ .read _ | .call _ .write _ | .fork _ _ | .exit _ => .isTrue trivial

/-- The invariant: a pipe that is in use was created with the handle of its slot. -/
structure Held (s : Pipes) : Prop where
  onlyLive : s.OnlyLive
  created : ∀ i, (s.pool i).isFree = false →
    s.created i = some (PipePool.makeHandle i (s.pool i).generation)

theorem Held.passes {child : Option Slot} (h : s.Held)
    (hpool : ∀ i, Pipe.Passes child (s.pool i) (s'.pool i)) (hcreated : s'.created = s.created)
    (hlive : ∀ i t, (s'.pool i).Holds t → s.live t = true ∨ some t = child → s'.live t = true) :
    s'.Held where
  onlyLive i t ht := hlive i t ht (((hpool i).holds ht).imp_left (h.onlyLive i t))
  created i hi := by
    have hused : (s.pool i).isFree = false :=
      Bool.eq_false_iff.mpr fun hc => by rw [(hpool i).free hc] at hi; cases hi
    rw [hcreated, (hpool i).generation hi]
    exact h.created i hused

theorem toWord_eq_none {rc : IpcErr} : rc.toWord = IpcErr.none.toWord ↔ rc = .none := by
  cases rc <;> decide

theorem holds_reset {p : Pipe} {t u : Slot} : (p.reset t).Holds u ↔ u = t := by
  show (holderBit t).getLsbD u = true ∨ (holderBit t).getLsbD u = true ↔ u = t
  rw [or_self_iff, Pipe.getLsbD_holderBit, decide_eq_true_iff, Fin.ext_iff]

/-- A creation fails and changes nothing, or it returns the handle of a free slot. -/
theorem create_cases (s : Pipes) (t : Slot) (f : Uctx) :
    s.call t .create f = s ∨ ∃ i, (s.pool i).isFree = true ∧ s.Creates (.call t .create f) i ∧
      (s.call t .create f).pool = update s.pool i ((s.pool i).reset t) ∧
      (s.call t .create f).live = s.live ∧
      (s.call t .create f).created =
        update s.created i (some (PipePool.makeHandle i (s.pool i).generation)) := by
  rcases s.pool.pipeCreate_cases t with hcreate | ⟨i, hfree, hcreate⟩
  · left
    simp only [call, PipePool.sysIpc, hcreate]
    rw [if_neg (by decide)]
  · right
    refine ⟨i, hfree, ⟨t, f, rfl, ?_, ?_⟩, ?_, ?_, ?_⟩ <;> simp [call, PipePool.sysIpc, hcreate]

theorem Held.create (h : s.Held) (t : Slot) (ht : s.live t = true) (f : Uctx) :
    (s.call t .create f).Held := by
  rcases s.create_cases t f with heq | ⟨i, -, -, hpool, hlive, hcreated⟩
  · rwa [heq]
  refine ⟨fun j u hu => ?_, fun j hj => ?_⟩
  · rw [hpool] at hu
    rw [hlive]
    rcases eq_or_ne j i with rfl | hji
    · rw [update_self, holds_reset] at hu
      rwa [hu]
    · rw [update_of_ne hji] at hu
      exact h.onlyLive j u hu
  · rw [hpool] at hj ⊢
    rw [hcreated]
    rcases eq_or_ne j i with rfl | hji
    · rw [update_self, update_self]
      rfl
    · rw [update_of_ne hji] at hj ⊢
      rw [update_of_ne hji]
      exact h.created j hj

/-- A step creates a pipe, or passes pipes on to a child at most. -/
theorem passes_of_step (hok : s.InUse op) (hstep : step s op = some s') :
    (∃ t f, op = .call t .create f ∧ s.live t = true ∧ s' = s.call t .create f) ∨
      ∃ child : Option Slot, (∀ i, Pipe.Passes child (s.pool i) (s'.pool i)) ∧
        s'.created = s.created ∧
        ∀ i t, (s'.pool i).Holds t → s.live t = true ∨ some t = child → s'.live t = true := by
  have hsame : ∀ {t : Slot}, s.live t = true ∨ some t = none → s.live t = true := fun h =>
    h.resolve_right fun hc => by cases hc
  have hnew : ∀ {t child : Slot}, s.live t = true ∨ some t = some child →
      update s.live child true t = true := by
    rintro t child (h | h)
    · rw [update_apply, h, ite_self]
    · cases h
      exact update_self ..
  cases op with
  | call t c f =>
    obtain ⟨ht, ⟨⟩⟩ := Option.ite_none_right_eq_some.mp hstep
    cases c with
    | create => exact .inl ⟨t, f, rfl, ht, rfl⟩
    | read => exact .inr ⟨none, PipePool.passes_pipeRead _ _, rfl, fun _ _ _ => hsame⟩
    | write => exact .inr ⟨none, PipePool.passes_pipeWrite _ _ _, rfl, fun _ _ _ => hsame⟩
    | close => exact .inr ⟨none, PipePool.passes_pipeClose _ _ _, rfl, fun _ _ _ => hsame⟩
  | spawn t child fds =>
    obtain ⟨-, ⟨⟩⟩ := Option.ite_none_right_eq_some.mp hstep
    exact .inr ⟨some child, PipePool.passes_addHolders hok, rfl, fun _ _ _ => hnew⟩
  | fork t child =>
    obtain ⟨-, ⟨⟩⟩ := Option.ite_none_right_eq_some.mp hstep
    exact .inr ⟨some child, PipePool.passes_pipeInheritFork _ _, rfl, fun _ _ _ => hnew⟩
  | exit t =>
    obtain ⟨-, ⟨⟩⟩ := Option.ite_none_right_eq_some.mp hstep
    refine .inr ⟨none, PipePool.passes_pipeInvalidateTcbDeath _, rfl, fun i u hu hlive => ?_⟩
    have hne : u ≠ t := by
      rintro rfl
      exact PipePool.not_holds_pipeInvalidateTcbDeath hu
    show update s.live t false u = true
    rw [update_of_ne hne]
    exact hsame hlive

theorem Held.step (h : s.Held) (hok : s.InUse op) (hstep : Pipes.step s op = some s') :
    s'.Held := by
  rcases passes_of_step hok hstep with ⟨t, f, -, ht, rfl⟩ | ⟨child, hpool, hcreated, hlive⟩
  · exact h.create t ht f
  · exact h.passes hpool hcreated hlive

/-- A call succeeds only on the handle of a pipe in use. -/
theorem named_of_accepted {t : Slot} {c : PipePool.Call} {f : Uctx} (hc : c ≠ .create)
    (hok : s.InUse (.call t c f)) (hrax : (s.pool.sysIpc t f c).1.rax = IpcErr.none.toWord) :
    ∃ i, s.pool.named f.r8 = some i ∧ (s.pool i).isFree = false := by
  cases c with
  | create => exact absurd rfl hc
  | read =>
    have hrc : (s.pool.pipeRead f.r8 f.r9).1.1 = .none := toWord_eq_none.mp hrax
    unfold PipePool.pipeRead at hrc
    split at hrc
    · cases hrc
    rename_i i hi
    split at hrc
    · cases hrc
    · rename_i hused
      exact ⟨i, hi, Bool.eq_false_iff.mpr hused⟩
  | write =>
    have hrc : (s.pool.pipeWrite f.r8 (PipePool.dataBytes f) (if 32 < f.r9 then 32 else f.r9)).1.1 =
      .none :=
      toWord_eq_none.mp hrax
    unfold PipePool.pipeWrite at hrc
    split at hrc
    · cases hrc
    rename_i i hi
    split at hrc
    · cases hrc
    · rename_i hused
      exact ⟨i, hi, Bool.eq_false_iff.mpr hused⟩
  | close =>
    have hrc : (s.pool.pipeClose t f.r8 (f.r9.setWidth 32 != (0 : BitVec 32))).1 = .none :=
      toWord_eq_none.mp hrax
    unfold PipePool.pipeClose at hrc
    split at hrc
    · cases hrc
    · rename_i i hi
      exact ⟨i, hi, hok i hi⟩

theorem Held.keeps (h : s.Held) (hok : s.InUse op) (hstep : Pipes.step s op = some s') :
    s.Keeps op s' where
  staysFree i hi := by
    rcases passes_of_step hok hstep with ⟨t, f, rfl, ht, rfl⟩ | ⟨child, hpool, -, -⟩
    · rcases s.create_cases t f with heq | ⟨j, -, hcreates, hpool, -, -⟩
      · rw [heq]
        exact .inl hi
      rcases eq_or_ne i j with rfl | hij
      · exact .inr hcreates
      · rw [hpool, update_of_ne hij]
        exact .inl hi
    · exact .inl ((hpool i).free hi)
  accepted t c f heq hc hrax := by
    subst heq
    obtain ⟨i, hi, hused⟩ := named_of_accepted hc hok hrax
    refine ⟨i, hi, hused, ?_⟩
    rw [h.created i hused, PipePool.makeHandle_of_named hi]

theorem IsBoot.held (h : s.IsBoot) : s.Held where
  onlyLive i t ht := by
    rw [h.pool] at ht
    exact absurd ht (by simp [Pipe.Holds])
  created i hi := by
    rw [h.pool] at hi
    cases hi

/-- **Lifetimes.**  In every run whose closes and descriptors name pipes that are in use. -/
theorem lifetime_of_inUse (h : Lib.Reach step InUse IsBoot s) : s.Lifetime InUse := by
  have hheld : s.Held := h.invariant (fun _ hs => hs.held) fun _ _ _ hs hok hstep =>
    hs.step hok hstep
  exact ⟨hheld.onlyLive, fun _ _ hok hstep => hheld.keeps hok hstep⟩

/-- A pipe is created, inherited by two children, and closed by its creator, who dies. -/
theorem lifetime_of_inUse_oneThread :
    ∃ s, Lib.run step InUse oneThread [.call 1 .create {}, .spawn 1 2 [⟨101, 0⟩], .fork 1 3,
        .call 1 .close { r8 := 0, r9 := 0 }, .exit 1] = some s ∧
      (s.pool 0).readersMask = holderBit 3 ∧ (s.pool 0).writersMask = holderBit 2 ||| holderBit 3 ∧
      s.Lifetime InUse :=
  Lib.exists_run₂ isBoot_oneThread (by decide +kernel) fun hs => lifetime_of_inUse hs

/-- Thread 1 passes the handle 0 to a child before any pipe was created, and the free slot 0
becomes a pipe. -/
theorem not_lifetime_spawned :
    ¬ ∀ s, Lib.Reach step (fun _ _ => True) IsBoot s → s.Lifetime fun _ _ => True := by
  intro h
  have hstep : ∃ s', step oneThread (.spawn 1 2 [⟨100, 0⟩]) = some s' ∧
    (s'.pool 0).isFree = false :=
    ⟨_, rfl, by decide +kernel⟩
  obtain ⟨s', hs', hused⟩ := hstep
  rcases ((h oneThread (.init isBoot_oneThread)).2 _ s' trivial hs').staysFree 0 rfl with hfree |
    hcreates
  · rw [hused] at hfree
    cases hfree
  · obtain ⟨t, f, heq, -⟩ := hcreates
    cases heq

end Pipes

end Robu
