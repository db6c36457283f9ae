import Mathlib.Data.Finset.Option
import Robu.Channel.Blank

/-!
# What other threads see of a channel

Pipes and sockets are named by small numbers that any thread can make up, and `pipe_read`,
`pipe_write`, `sock_read` and `sock_write` do not ask who is calling.  So the bytes in a channel
are not kept from the threads that do not hold it (`not_confidential_unheld`).

`Twin` runs the same operations twice, save for the bytes that some of the writes pass, and keeps
account of the channels to which different bytes were written.  As long as threads read and write
only channels that they hold, pass on only pipes that they hold, write no negative lengths to
sockets and use no generation up, a thread that holds none of those channels gets the same results
in both runs, and its calls leave the bytes in the channels of others alone
(`confidential_of_fair`).
-/

namespace Robu

open Function (update update_of_ne update_self)
open PipePool (dataBytes named_congr pipeWrite_blank pipeWrite_of_ne sysIpc_blank)
open SockTable (clip modify_of_ne modify_self pair pathBytes sockWrite_blank sockWrite_of_ne sysInfo
  sysInfo_blank views_modify_of_eq writeBytes)

inductive Chan
  | pipe (i : Fin 16)
  | sock (i : Fin 32)
deriving DecidableEq

structure Channels where
  pipes : Pipes
  sockets : Sockets

namespace Channels

inductive Op
  | pipe (t : Slot) (c : PipePool.Call) (f : Uctx)
  | sock (t : Slot) (c : SockTable.Call) (f : Uctx)
  | spawn (t child : Slot) (fds : List SpawnFd)
  | fork (t child : Slot)
  | exit (t : Slot)
deriving DecidableEq

namespace Op

def caller : Op → Slot
  | .pipe t _ _ | .sock t _ _ | .spawn t _ _ | .fork t _ | .exit t => t

def onPipes : Op → Option Pipes.Op
  | .pipe t c f => some (.call t c f)
  | .sock _ _ _ => none
  | .spawn t child fds => some (.spawn t child fds)
  | .fork t child => some (.fork t child)
  | .exit t => some (.exit t)

def onSockets : Op → Option Sockets.Op
  | .sock t c f => some (.call t c f)
  | .exit t => some (.exit t)
  | _ => none

def erase : Op → Op
  | .pipe t .write f => .pipe t .write { f with r10 := 0, r12 := 0, r13 := 0, r14 := 0 }
  | .sock t .write f => .sock t .write { f with r12 := 0, r13 := 0, r14 := 0 }
  | op => op

theorem eq_or_write_of_erase {x y : Op} (h : x.erase = y.erase) :
    x = y ∨ (∃ t f g, x = .pipe t .write f ∧ y = .pipe t .write g ∧ f.r8 = g.r8 ∧ f.r9 = g.r9) ∨
      ∃ t f g, x = .sock t .write f ∧ y = .sock t .write g ∧ f.r9 = g.r9 ∧ f.r10 = g.r10 := by
  unfold erase at h
  split at h
  · rename_i t f
    split at h
    · rename_i u g
      injection h with htu _ hfg
      injection hfg with _ _ _ _ _ _ h₉ h₈
      subst htu
      exact .inr (.inl ⟨t, f, g, rfl, rfl, h₈, h₉⟩)
    · cases h
    · rename_i hno _
      exact absurd h.symm (hno _ _)
  · rename_i t f
    split at h
    · cases h
    · rename_i u g
      injection h with htu _ hfg
      injection hfg with _ _ _ _ _ h₁₀ h₉
      subst htu
      exact .inr (.inr ⟨t, f, g, rfl, rfl, h₉, h₁₀⟩)
    · rename_i _ hno
      exact absurd h.symm (hno _ _)
  · rename_i hpipe hsock
    split at h
    · exact absurd h (hpipe _ _)
    · exact absurd h (hsock _ _)
    · exact .inl h

end Op

variable (s : Channels)

def step (op : Op) : Option Channels :=
  if s.pipes.live op.caller then
    (op.onPipes.elim (some s.pipes) (Pipes.step s.pipes)).bind fun pipes =>
      (op.onSockets.elim (some s.sockets) (Sockets.step s.sockets)).map fun sockets =>
        ⟨pipes, sockets⟩
  else none

def result : Op → Option Uctx
  | .pipe t c f => some (s.pipes.pool.sysIpc t f c).1
  | .sock t c f => some (s.sockets.tab.sysInfo t f c).1
  | _ => none

def bytes : Chan → List (BitVec 8)
  | .pipe i => (s.pipes.pool i).buffered
  | .sock i => (s.sockets.tab i).buffered

def InUse : Chan → Prop
  | .pipe i => (s.pipes.pool i).isFree = false
  | .sock i => (s.sockets.tab i).inUse = true

def Holds (t : Slot) : Chan → Prop
  | .pipe i => (s.pipes.pool i).Holds t
  | .sock i => (s.sockets.tab i).inUse = true ∧ (s.sockets.tab i).ownerTid = t

instance (t : Slot) (c : Chan) : Decidable (s.Holds t c) :=
  match c with
  | .pipe i => inferInstanceAs (Decidable ((s.pipes.pool i).Holds t))
  | .sock _ => inferInstanceAs (Decidable (_ ∧ _))

def Party (t : Slot) : Chan → Prop
  | .pipe i => s.Holds t (.pipe i)
  | .sock i => s.Holds t (.sock i) ∨ ∃ p, s.sockets.tab.livePeer i = some p ∧ s.Holds t (.sock p)

def target : Op → Option Chan
  | .pipe _ .write f => (s.pipes.pool.named f.r8).map .pipe
  | .sock _ .write f => (s.sockets.tab.writesTo (f.r9.setWidth 32)).map .sock
  | _ => none

def newSocket (r : (IpcErr × BitVec 32) × SockTable) : Option Chan :=
  if r.1.1 = .none then (r.2.findSocket r.1.2).map .sock else none

def created : Op → Option Chan
  | .pipe t .create _ =>
    let r := s.pipes.pool.pipeCreate t
    if r.1.1 = .none then (PipePool.decode r.1.2).map fun x => .pipe x.1 else none
  | .sock t .create _ => newSocket (s.sockets.tab.sockCreate t)
  | .sock t .accept f => newSocket (s.sockets.tab.sockAccept t (f.r9.setWidth 32))
  | _ => none

def Polite : Op → Prop
  | .pipe t .read f | .pipe t .write f =>
    ∀ i, s.pipes.pool.named f.r8 = some i → s.Holds t (.pipe i)
  | .sock t .read f | .sock t .write f =>
    ∀ i, s.sockets.tab.findSocket (f.r9.setWidth 32) = some i → s.Holds t (.sock i)
  | .spawn t _ fds => ∀ fd ∈ fds, fd.kind = 100 ∨ fd.kind = 101 →
      ∀ i, s.pipes.pool.named fd.handle = some i → s.Holds t (.pipe i)
  | _ => True

def Fair (op : Op) : Prop :=
    s.Polite op ∧ ∀ o ∈ op.onSockets, s.sockets.NonNeg o ∧ s.sockets.NoWrap o

structure IsBoot : Prop where
  pipes : s.pipes.IsBoot
  sockets : s.sockets.IsBoot

variable {s} {s' a a' b b' : Channels} {x y op : Op} {t : Slot} {c : Chan} {f : Uctx}
  {K : Finset Chan}

theorem step_eq_some (h : s.step op = some s') :
    s.pipes.live op.caller = true ∧ op.onPipes.elim (some s.pipes) (Pipes.step s.pipes) =
      some s'.pipes ∧
      op.onSockets.elim (some s.sockets) (Sockets.step s.sockets) = some s'.sockets := by
  obtain ⟨hlive, h⟩ := Option.ite_none_right_eq_some.mp h
  obtain ⟨pipes, hpipes, hrest⟩ := Option.bind_eq_some_iff.mp h
  obtain ⟨sockets, hsockets, rfl⟩ := Option.map_eq_some_iff.mp hrest
  exact ⟨hlive, hpipes, hsockets⟩

/-! ## What a step does to the tables -/

def Op.pool (pool : PipePool) : Op → PipePool
  | .pipe t c f => (pool.sysIpc t f c).2
  | .sock _ _ _ => pool
  | .spawn _ child fds => pool.addHolders child fds
  | .fork t child => pool.pipeInheritFork t child
  | .exit t => pool.pipeInvalidateTcbDeath t

def Op.live (live : Slot → Bool) : Op → Slot → Bool
  | .pipe _ _ _ | .sock _ _ _ => live
  | .spawn _ child _ | .fork _ child => update live child true
  | .exit t => update live t false

def Op.tab (tab : SockTable) : Op → SockTable
  | .sock t c f => (tab.sysInfo t f c).2
  | .exit t => tab.sockCleanupForProcess t
  | _ => tab

structure Does (s : Channels) (op : Op) (s' : Channels) : Prop where
  pool : s'.pipes.pool = op.pool s.pipes.pool
  live : s'.pipes.live = op.live s.pipes.live
  tab : s'.sockets.tab = op.tab s.sockets.tab

theorem pool_call (p : Pipes) (t : Slot) (c : PipePool.Call) (f : Uctx) :
    (p.call t c f).pool = (p.pool.sysIpc t f c).2 ∧ (p.call t c f).live = p.live := by
  cases c with
  | create =>
    unfold Pipes.call
    dsimp only
    split
    · split <;> exact ⟨rfl, rfl⟩
    · exact ⟨rfl, rfl⟩
  | read | write | close => exact ⟨rfl, rfl⟩

theorem does_of_step (h : s.step op = some s') : s.Does op s' := by
  obtain ⟨pipes, sockets⟩ := s'
  obtain ⟨-, hpipes, hsockets⟩ := step_eq_some h
  cases op with
  | pipe t c f =>
    obtain ⟨-, ⟨⟩⟩ := Option.ite_none_right_eq_some.mp hpipes
    cases hsockets
    exact ⟨(pool_call ..).1, (pool_call ..).2, rfl⟩
  | sock t c f =>
    cases hpipes
    cases hsockets
    exact ⟨rfl, rfl, rfl⟩
  | spawn | fork | exit =>
    obtain ⟨-, ⟨⟩⟩ := Option.ite_none_right_eq_some.mp hpipes
    cases hsockets
    exact ⟨rfl, rfl, rfl⟩

/-! ## Each run by itself -/

structure Sound (s : Channels) : Prop where
  pipes : s.pipes.Queues
  sockets : s.sockets.Streams
  refs : s.sockets.Refs

theorem Sound.step (h : s.Sound) (hfair : s.Fair op) (hstep : s.step op = some s') : s'.Sound := by
  obtain ⟨-, hpipes, hsockets⟩ := step_eq_some hstep
  have hqueues : s'.pipes.Queues := by
    cases ho : op.onPipes with
    | none =>
      rw [ho] at hpipes
      rw [← Option.some.inj hpipes]
      exact h.pipes
    | some o =>
      rw [ho] at hpipes
      exact h.pipes.step hpipes
  cases ho : op.onSockets with
  | none =>
    rw [ho] at hsockets
    have hsame : s.sockets = s'.sockets := Option.some.inj hsockets
    exact ⟨hqueues, hsame ▸ h.sockets, hsame ▸ h.refs⟩
  | some o =>
    rw [ho] at hsockets
    obtain ⟨hnonneg, hwrap⟩ := hfair.2 o ho
    exact ⟨hqueues, h.sockets.step hnonneg hsockets,
      h.refs.move (Sockets.move_of_step hsockets) (hwrap _ hsockets)⟩

theorem IsBoot.sound (h : s.IsBoot) : s.Sound := ⟨h.pipes.queues, h.sockets.streams, h.sockets.refs⟩

/-- How a thread can come to hold a pipe: it creates it, or it is the child of a thread that holds
it. -/
def Receives (s : Channels) (op : Op) (t : Slot) (i : Fin 16) : Prop :=
  s.created op = some (.pipe i) ∧ op.caller = t ∨
    (∃ u, op = .fork u t ∧ s.Holds u (.pipe i)) ∨ ∃ u fds, op = .spawn u t fds ∧ s.Holds u (.pipe i)

theorem holds_addHolders {pool : PipePool} {child : Slot} {fds : List SpawnFd} {i : Fin 16}
    (h : (pool.addHolders child fds i).Holds t) :
    (pool i).Holds t ∨ t = child ∧ ∃ fd ∈ fds, (fd.kind = 100 ∨ fd.kind = 101) ∧
      pool.named fd.handle = some i := by
  induction fds generalizing pool with
  | nil => exact .inl h
  | cons fd fds ih =>
    have hone : ∀ w, fd.kind = 100 ∨ fd.kind = 101 →
        ((pool.pipeAddHolder child fd.handle w).addHolders child fds i).Holds t →
          (pool i).Holds t ∨ t = child ∧ ∃ g ∈ fd :: fds, (g.kind = 100 ∨ g.kind = 101) ∧
            pool.named g.handle = some i := by
      intro w hkind hw
      rcases ih hw with hold | ⟨ht, g, hg, hgkind, hnamed⟩
      · unfold PipePool.pipeAddHolder at hold
        cases hj : pool.named fd.handle with
        | none =>
          rw [hj] at hold
          exact .inl hold
        | some j =>
          rw [hj] at hold
          dsimp only at hold
          rcases eq_or_ne i j with rfl | hij
          · rw [update_self] at hold
            exact (Pipe.holds_hold hold).imp_right fun ht => ⟨ht, fd, .head _, hkind, hj⟩
          · rw [update_of_ne hij] at hold
            exact .inl hold
      · refine .inr ⟨ht, g, .tail fd hg, hgkind, ?_⟩
        unfold PipePool.named at hnamed ⊢
        simpa only [PipePool.generation_pipeAddHolder] using hnamed
    rw [PipePool.addHolders, List.foldl_cons] at h
    split at h
    · rename_i hkind
      exact hone false (.inl hkind) h
    split at h
    · rename_i hkind
      exact hone true (.inr hkind) h
    rcases ih h with hold | ⟨ht, g, hg, hrest⟩
    · exact .inl hold
    · exact .inr ⟨ht, g, .tail fd hg, hrest⟩

theorem holds_pipeInheritFork {pool : PipePool} {parent child : Slot} {i : Fin 16}
    (h : (pool.pipeInheritFork parent child i).Holds t) :
    (pool i).Holds t ∨ t = child ∧ (pool i).Holds parent := by
  have hmask : ∀ {mask : Word},
      (if mask &&& holderBit parent ≠ 0 then mask ||| holderBit child else mask).getLsbD t = true →
        mask.getLsbD t = true ∨ t = child ∧ mask.getLsbD parent = true := by
    intro mask ht
    split at ht
    · rename_i hparent
      exact (Pipe.getLsbD_or_holderBit.mp ht).imp_right fun hc =>
        ⟨hc, Pipe.and_holderBit_ne_zero.mp hparent⟩
    · exact .inl ht
  rcases h with h | h
  · exact (hmask h).imp .inl fun hc => ⟨hc.1, .inl hc.2⟩
  · exact (hmask h).imp .inr fun hc => ⟨hc.1, .inr hc.2⟩

/-- A thread comes to hold a pipe only by receiving it. -/
theorem holds_of_step (hpolite : s.Polite op) (hstep : s.step op = some s') {i : Fin 16}
    (h : s'.Holds t (.pipe i)) : s.Holds t (.pipe i) ∨ s.Receives op t i := by
  rw [Holds, (does_of_step hstep).pool] at h
  have hpasses : Pipe.Passes none (s.pipes.pool i) (op.pool s.pipes.pool i) → s.Holds t (.pipe i) :=
    fun hpass => (hpass.holds h).resolve_right nofun
  cases op with
  | sock u c f => exact .inl h
  | pipe u c f =>
    cases c with
    | create =>
      rcases s.pipes.pool.pipeCreate_cases u with hcreate | ⟨j, -, hcreate⟩ <;>
        rw [Op.pool, PipePool.sysIpc, hcreate] at h
      · exact .inl h
      dsimp only at h
      rcases eq_or_ne i j with rfl | hij
      · rw [update_self, Pipes.holds_reset] at h
        refine .inr (.inl ⟨?_, h.symm⟩)
        simp [created, hcreate]
      · rw [update_of_ne hij] at h
        exact .inl h
    | read => exact .inl (hpasses (PipePool.passes_pipeRead ..))
    | write => exact .inl (hpasses (PipePool.passes_pipeWrite ..))
    | close => exact .inl (hpasses (PipePool.passes_pipeClose ..))
  | spawn u child fds =>
    rcases holds_addHolders h with hold | ⟨rfl, fd, hfd, hkind, hnamed⟩
    · exact .inl hold
    · exact .inr (.inr (.inr ⟨u, fds, rfl, hpolite fd hfd hkind i hnamed⟩))
  | fork u child =>
    rcases holds_pipeInheritFork h with hold | ⟨rfl, hparent⟩
    · exact .inl hold
    · exact .inr (.inr (.inl ⟨u, rfl, hparent⟩))
  | exit u => exact .inl (hpasses (PipePool.passes_pipeInvalidateTcbDeath ..))

/-! ## What a step does to the bytes -/

def Op.Moves : Op → Prop
  | .pipe _ .read _ | .pipe _ .write _ | .sock _ .read _ | .sock _ .write _ => True
  | _ => False

/-- The bytes of the channels are left, and a new channel has none. -/
inductive Keeps (s : Channels) (op : Op) (s' : Channels) : Prop
  | same (none : s.created op = none) (bytes : s'.bytes = s.bytes)
  | new {c : Chan} (new : s.created op = some c) (free : ¬ s.InUse c)
    (bytes : s'.bytes = update s.bytes c [])

theorem bytes_of_views {s' : Channels} (hpool : s'.pipes.pool.views = s.pipes.pool.views)
    (htab : s'.sockets.tab.views = s.sockets.tab.views) : s'.bytes = s.bytes := by
  funext c
  cases c with
  | pipe i => exact congrArg Lib.Ring.queue (congrFun hpool i)
  | sock i => exact congrArg Lib.Ring.queue (congrFun htab i)

theorem bytes_update_pipe {i : Fin 16} {p : Pipe} (hpool : s'.pipes.pool = update s.pipes.pool i p)
    (hp : p.buffered = []) (htab : s'.sockets.tab = s.sockets.tab) :
    s'.bytes = update s.bytes (.pipe i) [] := by
  funext c
  rcases eq_or_ne c (.pipe i) with rfl | hc
  · rw [bytes, hpool, update_self, update_self, hp]
  rw [update_of_ne hc]
  cases c with
  | pipe j => rw [bytes, hpool, update_of_ne fun hji => hc (congrArg Chan.pipe hji), bytes]
  | sock j => rw [bytes, htab, bytes]

theorem bytes_update_sock {i : Fin 32} {p : Socket} (hpool : s'.pipes.pool = s.pipes.pool)
    (hp : p.buffered = []) (htab : s'.sockets.tab.views = update s.sockets.tab.views i p.view) :
    s'.bytes = update s.bytes (.sock i) [] := by
  funext c
  rcases eq_or_ne c (.sock i) with rfl | hc
  · rw [update_self, ← hp]
    exact congrArg Lib.Ring.queue ((congrFun htab i).trans (update_self ..))
  rw [update_of_ne hc]
  cases c with
  | pipe j => rw [bytes, hpool, bytes]
  | sock j =>
    exact congrArg Lib.Ring.queue
      ((congrFun htab j).trans (update_of_ne (fun hji => hc (congrArg Chan.sock hji)) ..))

/-- A call that returns the number of a new socket. -/
theorem Keeps.of_sock {tab : SockTable} {i : Fin 32} {p : Socket}
    {r : (IpcErr × BitVec 32) × SockTable} (hcreated : s.created op = newSocket r)
    (hr : r = ((.none, makeSockid i p.generation), tab)) (hi : tab i = p)
    (huse : p.inUse = true) (hp : p.buffered = []) (hfree : (s.sockets.tab i).inUse = false)
    (hviews : tab.views = update s.sockets.tab.views i p.view)
    (hpool : s'.pipes.pool = s.pipes.pool) (htab : s'.sockets.tab = tab) : s.Keeps op s' := by
  refine .new (c := .sock i) ?_ (fun hused => absurd (hfree.symm.trans hused) (by decide))
    (bytes_update_sock hpool hp (by rw [htab, hviews]))
  subst hi
  rw [hcreated, hr, newSocket, if_pos rfl]
  exact congrArg (Option.map Chan.sock) (SockTable.findSocket_makeSockid huse)

theorem Keeps.accept (h : s.Does (.sock t .accept f) s') : s.Keeps (.sock t .accept f) s' := by
  obtain ⟨hpool, -, htab⟩ := h
  rcases s.sockets.tab.sockAccept_cases t (f.r9.setWidth 32) with
    ⟨rc, hrc, haccept⟩ | ⟨i, -, -, ⟨rc, hrc, haccept⟩ |
      ⟨client, tab, server, hnext, hfree, haccept⟩⟩ <;>
    rw [Op.tab, sysInfo, haccept] at htab
  · exact .same (by simp [created, haccept, newSocket, hrc])
      (bytes_of_views (by rw [hpool]; rfl) (by rw [htab]))
  · exact .same (by simp [created, haccept, newSocket, hrc])
      (bytes_of_views (by rw [hpool]; rfl) (by rw [htab]; exact SockTable.views_nextClient ..))
  have hpopped : (s.sockets.tab.nextClient i (s.sockets.tab.waiting i)).2.views =
    s.sockets.tab.views :=
    SockTable.views_nextClient ..
  obtain ⟨k, -, hpop, -⟩ := s.sockets.tab.nextClient_spec i (s.sockets.tab.waiting i)
  rw [hnext] at hpop hpopped
  have hserver := SockTable.freeSlot_eq_some hfree
  have hne : server ≠ client := by
    rintro rfl
    exact absurd (hserver.symm.trans (SockTable.nextClient_inUse hnext)) (by decide)
  refine .of_sock (p := (tab server).serve t ⟨client, (tab client).generation⟩) rfl haccept ?_ rfl
    rfl ?_ ?_ hpool htab
  · rw [pair, modify_of_ne hne, modify_self]
  · rw [show tab = _ from hpop] at hserver
    rcases eq_or_ne server i with rfl | hi
    · rwa [modify_self] at hserver
    · rwa [modify_of_ne hi] at hserver
  · rw [← hpopped]
    exact SockTable.views_pair t

/-- A step that does not read or write leaves the bytes, and a new channel has none. -/
theorem keeps_of_step (hop : ¬ op.Moves) (hstep : s.step op = some s') : s.Keeps op s' := by
  have hdoes := does_of_step hstep
  obtain ⟨hpool, -, htab⟩ := hdoes
  have hsame : s.created op = none → (op.pool s.pipes.pool).views = s.pipes.pool.views →
      (op.tab s.sockets.tab).views = s.sockets.tab.views → s.Keeps op s' :=
    fun hnone hp ht => .same hnone (bytes_of_views (by rw [hpool, hp]) (by rw [htab, ht]))
  cases op with
  | spawn t child fds => exact hsame rfl (PipePool.views_addHolders ..) rfl
  | fork t child => exact hsame rfl rfl rfl
  | exit t =>
    exact hsame rfl (PipePool.views_pipeInvalidateTcbDeath _)
      (SockTable.views_sockCleanupForProcess _)
  | pipe t c f =>
    cases c with
    | create =>
      rcases s.pipes.pool.pipeCreate_cases t with hcreate | ⟨i, hfree, hcreate⟩ <;>
        rw [Op.pool, PipePool.sysIpc, hcreate] at hpool
      · exact .same (by simp [created, hcreate])
          (bytes_of_views (by rw [hpool]) (by rw [htab]; rfl))
      · exact .new (c := .pipe i) (by simp [created, hcreate])
          (fun huse => absurd (hfree.symm.trans huse) (by decide))
            (bytes_update_pipe hpool rfl htab)
    | read | write => exact absurd trivial hop
    | close => exact hsame rfl (PipePool.views_pipeClose ..) rfl
  | sock t c f =>
    cases c with
    | create =>
      rcases s.sockets.tab.sockCreate_cases t with hcreate | ⟨i, hi, hcreate⟩ <;>
        rw [Op.tab, sysInfo, hcreate] at htab
      · exact .same (by simp [created, hcreate, newSocket])
          (bytes_of_views (by rw [hpool]; rfl) (by rw [htab]))
      · exact .of_sock (p := (s.sockets.tab i).fresh t) rfl hcreate (modify_self fun p =>
          p.fresh t) rfl rfl
          (SockTable.freeSlot_eq_some hi) (SockTable.views_modify ..) hpool htab
    | bind =>
      refine hsame rfl rfl ?_
      rcases s.sockets.tab.sockBind_cases t (f.r9.setWidth 32) (pathBytes f) with
        ⟨rc, hbind⟩ | ⟨i, -, -, hbind⟩ <;> rw [Op.tab, sysInfo, hbind]
      exact views_modify_of_eq (g := fun p => p.bindPath (pathBytes f)) (fun _ => rfl) i
    | listen =>
      refine hsame rfl rfl ?_
      rcases s.sockets.tab.sockListen_cases t (f.r9.setWidth 32) with
        ⟨rc, hlisten⟩ | ⟨i, -, -, hlisten⟩ <;> rw [Op.tab, sysInfo, hlisten]
      exact views_modify_of_eq (g := Socket.startListening) (fun _ => rfl) i
    | connect =>
      refine hsame rfl rfl ?_
      rcases s.sockets.tab.sockConnect_cases t (f.r9.setWidth 32) (pathBytes f) with
        ⟨rc, hconnect, -⟩ | ⟨i, l, -, -, -, -, hconnect⟩ <;> rw [Op.tab, sysInfo, hconnect]
      exact SockTable.views_enqueue l i
    | accept => exact .accept (does_of_step hstep)
    | read | write => exact absurd trivial hop
    | close =>
      refine hsame rfl rfl ?_
      rcases s.sockets.tab.sockClose_cases t (f.r9.setWidth 32) with
        hclose | ⟨i, -, hclose⟩ <;> rw [Op.tab, sysInfo, hclose]
      exact SockTable.views_release i

/-! ## Two runs -/

namespace Op

variable (h : x.erase = y.erase)
include h

theorem live_of_erase (live : Slot → Bool) : x.live live = y.live live := by
  rcases eq_or_write_of_erase h with rfl | ⟨t, f, g, rfl, rfl, -⟩ | ⟨t, f, g, rfl, rfl, -⟩ <;> rfl

theorem blank_pool (pool : PipePool) : (y.pool pool.blank).blank = (x.pool pool).blank := by
  rcases eq_or_write_of_erase h with rfl | ⟨t, f, g, rfl, rfl, h₈, h₉⟩ | ⟨t, f, g, rfl, rfl, -⟩
  · cases x with
    | pipe t c f => exact (sysIpc_blank t f c).1
    | sock | fork => rfl
    | spawn => rw [Op.pool, PipePool.addHolders_blank]; rfl
    | exit => rw [Op.pool, PipePool.pipeInvalidateTcbDeath_blank]; rfl
  · show (pool.blank.pipeWrite g.r8 (dataBytes g) (if 32 < g.r9 then 32 else g.r9)).2.blank = _
    rw [← h₈, ← h₉]
    exact (pipeWrite_blank ..).2
  · rfl

theorem blank_tab (tab : SockTable) : (y.tab tab.blank).blank = (x.tab tab).blank := by
  rcases eq_or_write_of_erase h with rfl | ⟨t, f, g, rfl, rfl, -⟩ | ⟨t, f, g, rfl, rfl, h₉, h₁₀⟩
  · cases x with
    | sock t c f => exact (sysInfo_blank t f c).1
    | pipe | spawn | fork => rfl
    | exit => rw [Op.tab, SockTable.sockCleanupForProcess_blank]; rfl
  · rfl
  · show (tab.blank.sockWrite (g.r9.setWidth 32) (writeBytes g) (clip g.r10 24)).2.blank = _
    rw [← h₉, ← h₁₀]
    exact (sockWrite_blank ..).2

end Op

/-- The same channels, except for the bytes in some of them. -/
structure Like (K : Finset Chan) (a b : Channels) : Prop where
  live : a.pipes.live = b.pipes.live
  pool : a.pipes.pool.blank = b.pipes.pool.blank
  tab : a.sockets.tab.blank = b.sockets.tab.blank
  bytes : ∀ c ∉ K, a.bytes c = b.bytes c

theorem Like.refl (a : Channels) : Like K a a := ⟨rfl, rfl, rfl, fun _ _ => rfl⟩

/-- The parts that do not depend on bytes. -/
theorem Like.step {L : Finset Chan} (h : Like K a b) (herase : x.erase = y.erase) (ha : a.Does x a')
    (hb : b.Does y b') (hbytes : ∀ c ∉ L, a'.bytes c = b'.bytes c) : Like L a' b' where
  live := by rw [ha.live, hb.live, h.live, Op.live_of_erase herase]
  pool := by rw [ha.pool, hb.pool, ← Op.blank_pool herase, h.pool, Op.blank_pool rfl]
  tab := by rw [ha.tab, hb.tab, ← Op.blank_tab herase, h.tab, Op.blank_tab rfl]
  bytes := hbytes

theorem newSocket_blank (r : (IpcErr × BitVec 32) × SockTable) :
    newSocket (r.1, r.2.blank) = newSocket r := rfl

theorem Like.created (h : Like K a b) (op : Op) : a.created op = b.created op := by
  have hpipe : ∀ t, (a.pipes.pool.pipeCreate t).1 = (b.pipes.pool.pipeCreate t).1 := fun t => by
    have hcreate := congrArg Prod.fst (a.pipes.pool.pipeCreate_blank t)
    rw [h.pool, PipePool.pipeCreate_blank] at hcreate
    exact hcreate.symm
  have hcreate : ∀ t, newSocket (a.sockets.tab.sockCreate t) =
    newSocket (b.sockets.tab.sockCreate t) := fun t => by
    rw [← newSocket_blank, ← SockTable.sockCreate_blank, h.tab, SockTable.sockCreate_blank,
      newSocket_blank]
  have haccept : ∀ t id, newSocket (a.sockets.tab.sockAccept t id) =
    newSocket (b.sockets.tab.sockAccept t id) :=
    fun t id => by
      rw [← newSocket_blank, ← SockTable.sockAccept_blank, h.tab, SockTable.sockAccept_blank,
        newSocket_blank]
  unfold Channels.created
  split
  · dsimp only
    rw [hpipe]
  · exact hcreate _
  · exact haccept _ _
  · rfl

/-- The bytes after a step that does not read or write. -/
theorem Like.still (h : Like K a b) (hop : ¬ op.Moves) (ha : a.step op = some a')
    (hb : b.step op = some b') (hc : c ∉ K.filter fun c => a.created op ≠ some c) :
    a'.bytes c = b'.bytes c := by
  rw [Finset.mem_filter, not_and, not_not] at hc
  rcases keeps_of_step hop ha with ⟨hnone, ha⟩ | @⟨d, hnew, -, ha⟩ <;>
    rcases keeps_of_step hop hb with ⟨hnone', hb⟩ | @⟨e, hnew', -, hb⟩ <;> rw [ha, hb]
  · exact h.bytes c fun hK => by cases hnone.symm.trans (hc hK)
  · cases hnone.symm.trans ((h.created op).trans hnew')
  · cases hnone'.symm.trans ((h.created op).symm.trans hnew)
  · obtain rfl : d = e := Option.some.inj (hnew.symm.trans ((h.created op).trans hnew'))
    rcases eq_or_ne c d with rfl | hne
    · rw [update_self, update_self]
    · rw [update_of_ne hne, update_of_ne hne]
      exact h.bytes c fun hK => hne (Option.some.inj ((hc hK).symm.trans hnew))

theorem toNat_clip_le {len : Word} (h : 0 ≤ (len.setWidth 32 : BitVec 32).toInt) :
    0 ≤ (clip len 24).toInt ∧ (clip len 24).toNat ≤ 24 := by
  have hclip : 0 ≤ (clip len 24).toInt := Sockets.clip_nonneg (by decide) h
  have hle : (clip len 24).toInt ≤ 24 := Sockets.toInt_clip_le len
  refine ⟨hclip, ?_⟩
  rw [BitVec.toInt_eq_toNat_cond] at hclip hle
  split at hle
  · omega
  · have := (clip len 24).isLt
    omega

section Like

variable (h : Like K a b) (hsa : a.Sound) (hsb : b.Sound)
include h hsa hsb

/-- **What a thread sees.**  The results of a call are the same, if the thread reads from none of
the channels with different bytes. -/
theorem Like.result (hpolite : a.Polite op)
    (hapart : ∀ c ∈ K, ¬ a.Holds op.caller c) : a.result op = b.result op := by
  cases op with
  | pipe t pcall f =>
    refine congrArg some ?_
    by_cases hread : pcall = .read
    · subst hread
      show PipePool.readResult f (a.pipes.pool.pipeRead f.r8 f.r9).1.1
        (a.pipes.pool.pipeRead f.r8 f.r9).1.2 =
        PipePool.readResult f (b.pipes.pool.pipeRead f.r8 f.r9).1.1
          (b.pipes.pool.pipeRead f.r8 f.r9).1.2
      cases hi : a.pipes.pool.named f.r8 with
      | none =>
        have hi' := hi
        rw [named_congr h.pool] at hi'
        rw [PipePool.pipeRead, PipePool.pipeRead, hi, hi']
      | some i =>
        have hc : .pipe i ∉ K := fun hK => hapart _ hK (hpolite i hi)
        rw [(PipePool.pipeRead_congr h.pool (h.bytes _ hc) (hsa.pipes i).sound (hsb.pipes i).sound
          hi _).1]
    · rw [← (sysIpc_blank t f pcall).2 hread, h.pool, (sysIpc_blank t f pcall).2 hread]
  | sock t scall f =>
    refine congrArg some ?_
    by_cases hread : scall = .read
    · subst hread
      have hsame : (a.sockets.tab.sockRead (f.r9.setWidth 32) (clip f.r10 40)).1 =
          (b.sockets.tab.sockRead (f.r9.setWidth 32) (clip f.r10 40)).1 := by
        cases hi : a.sockets.tab.findSocket (f.r9.setWidth 32) with
        | none =>
          have hi' := hi
          rw [SockTable.findSocket_congr h.tab] at hi'
          rw [SockTable.sockRead, SockTable.sockRead, hi, hi']
        | some i =>
          have hc : .sock i ∉ K := fun hK => hapart _ hK (hpolite i hi)
          exact (SockTable.sockRead_congr h.tab (h.bytes _ hc)
            (hsa.sockets i).sound (hsb.sockets i).sound hi _).1
      exact congrArg (fun r : IpcErr × List (BitVec 8) =>
        if r.1 ≠ .none then { f with rax := r.1.toWord } else SockTable.readResult f r.2) hsame
    · rw [← (sysInfo_blank t f scall).2 hread, h.tab, (sysInfo_blank t f scall).2 hread]
  | spawn | fork | exit => rfl

variable {g : Uctx} (hc : c ∉ K)
include hc

theorem Like.pipeRead (ha : a.Does (.pipe t .read f) a') (hb : b.Does (.pipe t .read f) b') :
    a'.bytes c = b'.bytes c := by
  have hbytes := h.bytes c hc
  cases c with
  | pipe i =>
    rw [Channels.bytes, Channels.bytes, ha.pool, hb.pool]
    exact PipePool.buffered_pipeRead h.pool hbytes (hsa.pipes i).sound (hsb.pipes i).sound _ _
  | sock i =>
    rw [Channels.bytes, Channels.bytes, ha.tab, hb.tab]
    exact hbytes

/-- The same write, or different bytes written to another channel. -/
theorem Like.pipeWrite (ha : a.Does (.pipe t .write f) a') (hb : b.Does (.pipe t .write g) b')
    (h₈ : f.r8 = g.r8) (hsame : f = g ∨ a.target (.pipe t .write f) ≠ some c) :
    a'.bytes c = b'.bytes c := by
  have hbytes := h.bytes c hc
  cases c with
  | pipe i =>
    rw [Channels.bytes, Channels.bytes, ha.pool, hb.pool]
    rcases hsame with rfl | hne
    · exact PipePool.buffered_pipeWrite h.pool hbytes (hsa.pipes i).sound (hsb.pipes i).sound _
        (PipePool.length_dataBytes _) _
    · have hno : a.pipes.pool.named f.r8 ≠ some i := fun hi =>
        hne (congrArg (Option.map Chan.pipe) hi)
      have hno' : b.pipes.pool.named g.r8 ≠ some i := by rwa [← named_congr h.pool, ← h₈]
      rw [Op.pool, Op.pool, PipePool.sysIpc, PipePool.sysIpc]
      dsimp only
      rw [pipeWrite_of_ne hno, pipeWrite_of_ne hno']
      exact hbytes
  | sock i =>
    rw [Channels.bytes, Channels.bytes, ha.tab, hb.tab]
    exact hbytes

theorem Like.sockRead (ha : a.Does (.sock t .read f) a') (hb : b.Does (.sock t .read f) b') :
    a'.bytes c = b'.bytes c := by
  have hbytes := h.bytes c hc
  cases c with
  | pipe i =>
    rw [Channels.bytes, Channels.bytes, ha.pool, hb.pool]
    exact hbytes
  | sock i =>
    rw [Channels.bytes, Channels.bytes, ha.tab, hb.tab]
    exact SockTable.buffered_sockRead h.tab hbytes (hsa.sockets i).sound (hsb.sockets i).sound _ _

theorem Like.sockWrite (ha : a.Does (.sock t .write f) a') (hb : b.Does (.sock t .write g) b')
    (hnonneg : 0 ≤ (f.r10.setWidth 32 : BitVec 32).toInt) (h₉ : f.r9 = g.r9)
    (hsame : f = g ∨ a.target (.sock t .write f) ≠ some c) : a'.bytes c = b'.bytes c := by
  have hbytes := h.bytes c hc
  cases c with
  | pipe i =>
    rw [Channels.bytes, Channels.bytes, ha.pool, hb.pool]
    exact hbytes
  | sock i =>
    rw [Channels.bytes, Channels.bytes, ha.tab, hb.tab]
    rcases hsame with rfl | hne
    · obtain ⟨hclip, hle⟩ := toNat_clip_le hnonneg
      exact SockTable.buffered_sockWrite h.tab hbytes (hsa.sockets i).sound (hsb.sockets i).sound _
        hclip hle
    · have hno : a.sockets.tab.writesTo (f.r9.setWidth 32) ≠ some i :=
        fun hi => hne (congrArg (Option.map Chan.sock) hi)
      have hno' : b.sockets.tab.writesTo (g.r9.setWidth 32) ≠ some i := by
        rwa [← SockTable.writesTo_congr h.tab, ← h₉]
      rw [Op.tab, Op.tab, sysInfo, sysInfo]
      dsimp only
      rw [sockWrite_of_ne hno, sockWrite_of_ne hno']
      exact hbytes

end Like

/-- **What a thread changes.**  The bytes in the channels of others are left alone. -/
theorem bytes_of_step (hs : s.Sound) (hpolite : s.Polite op) (hstep : s.step op = some s')
    (huse : s.InUse c) (hparty : ¬ s.Party op.caller c) : s'.bytes c = s.bytes c := by
  obtain ⟨hpool, -, htab⟩ := does_of_step hstep
  by_cases hop : op.Moves
  · unfold Op.Moves at hop
    split at hop
    · cases c with
      | sock i => rw [bytes, htab]; rfl
      | pipe i =>
        rw [bytes, hpool]
        exact congrArg Pipe.buffered (PipePool.pipeRead_of_ne (fun hi => hparty (hpolite i hi)) _)
    · cases c with
      | sock i => rw [bytes, htab]; rfl
      | pipe i =>
        rw [bytes, hpool]
        exact congrArg Pipe.buffered (pipeWrite_of_ne (fun hi => hparty (hpolite i hi)) _ _)
    · cases c with
      | pipe i => rw [bytes, hpool]; rfl
      | sock i =>
        rw [bytes, htab]
        exact congrArg Socket.buffered
          (SockTable.sockRead_of_ne (fun hi => hparty (.inl (hpolite i hi))) _)
    · cases c with
      | pipe i => rw [bytes, hpool]; rfl
      | sock i =>
        rw [bytes, htab]
        refine congrArg Socket.buffered (sockWrite_of_ne (fun hto => ?_) _ _)
        obtain ⟨j, hj, hstate, hto⟩ := SockTable.writesTo_eq_some.mp hto
        -- the socket that is written through is the peer of the one that gets the bytes
        have hmine := hpolite j hj
        obtain ⟨hidx, hiuse, hgen⟩ := SockTable.livePeer_eq_some.mp hto
        obtain ⟨-, hback, hbackgen⟩ := hs.refs.paired.symm j i hmine.1 hstate hidx hiuse hgen
        exact hparty (.inr ⟨j,
          SockTable.livePeer_eq_some.mpr ⟨hback, hmine.1, hbackgen.symm⟩, hmine⟩)
    · exact hop.elim
  · rcases keeps_of_step hop hstep with ⟨-, hbytes⟩ | @⟨d, -, hfree, hbytes⟩ <;> rw [hbytes]
    rw [update_of_ne]
    rintro rfl
    exact hfree huse

end Channels

/-! ## Twin runs -/

/-- Two runs of the same operations, and the channels to which they have written different bytes. -/
structure Twin where
  left : Channels
  right : Channels
  secret : Finset Chan

namespace Twin

open Channels

variable {s s' : Twin} {t : Slot}

/-- A write of different bytes adds its channel, and a channel that is created is empty in both
runs. -/
def secrets (s : Twin) (x y : Op) : Finset Chan :=
  (if x = y then s.secret else s.secret ∪ (s.left.target x).toFinset).filter fun c =>
    s.left.created x ≠ some c

def step (s : Twin) (l : Op × Op) : Option Twin :=
  if l.1.erase = l.2.erase then
    (s.left.step l.1).bind fun left => (s.right.step l.2).map fun right =>
      ⟨left, right, s.secrets l.1 l.2⟩
  else none

structure IsBoot (s : Twin) : Prop where
  left : s.left.IsBoot
  right : s.right = s.left
  secret : s.secret = ∅

def Apart (t : Slot) (s : Twin) : Prop := ∀ c ∈ s.secret, ¬ s.left.Holds t c

/-- Both runs meet the condition, and the thread stays away from the channels with different bytes.
-/
def Permits (ok : Channels → Op → Prop) (t : Slot) (s : Twin) (l : Op × Op) : Prop :=
  s.Apart t ∧ ok s.left l.1 ∧ ok s.right l.2

/-- Whatever the thread does, it gets the same results in both runs, and it leaves the bytes alone
in the channels that it has no part in. -/
def Confidential (ok : Channels → Op → Prop) (t : Slot) (s : Twin) : Prop :=
  ∀ op, op.caller = t → ok s.left op → s.left.result op = s.right.result op ∧
    ∀ s', s.left.step op = some s' → ∀ c, s.left.InUse c → ¬ s.left.Party t c →
      s'.bytes c = s.left.bytes c

structure Inv (s : Twin) : Prop where
  left : s.left.Sound
  right : s.right.Sound
  like : Like s.secret s.left s.right

theorem IsBoot.inv (h : s.IsBoot) : s.Inv :=
  ⟨h.left.sound, h.right ▸ h.left.sound, by rw [h.right]; exact .refl _⟩

/-- A write creates nothing, so the channels with different bytes stay. -/
theorem subset_secrets {x y : Op} (h : s.left.created x = none) : s.secret ⊆ s.secrets x y := by
  intro c hc
  rw [secrets, Finset.mem_filter, h]
  refine ⟨?_, nofun⟩
  split
  · exact hc
  · exact Finset.mem_union_left _ hc

theorem target_mem_secrets {x y : Op} {c : Chan} (hne : x ≠ y) (h : s.left.created x = none)
    (hc : s.left.target x = some c) : c ∈ s.secrets x y := by
  rw [secrets, Finset.mem_filter, if_neg hne, h]
  refine ⟨Finset.mem_union_right _ ?_, nofun⟩
  rw [hc]
  exact Finset.mem_singleton_self c

/-- **Unwinding.**  One step of both runs. -/
theorem Inv.like_step {x y : Op} {a b : Channels} (h : s.Inv) (herase : x.erase = y.erase)
    (hfair : s.left.Fair x) (ha : s.left.step x = some a) (hb : s.right.step y = some b) :
    Like (s.secrets x y) a b := by
  have hda := does_of_step ha
  have hdb := does_of_step hb
  refine h.like.step herase hda hdb fun c hc => ?_
  have hout : s.left.created x = none → c ∉ s.secret := fun hnone hK => hc (subset_secrets hnone hK)
  have htarget : s.left.created x = none → x = y ∨ s.left.target x ≠ some c := fun hnone =>
    or_iff_not_imp_left.mpr fun hne ht => hc (target_mem_secrets hne hnone ht)
  -- the two kinds of writes, whether of the same bytes or not
  have hpipe : ∀ {u f g}, x = .pipe u .write f → y = .pipe u .write g → f.r8 = g.r8 →
    a.bytes c = b.bytes c := by
    rintro u f g rfl rfl h₈
    refine h.like.pipeWrite h.left h.right (hout rfl) hda hdb h₈
      ((htarget rfl).imp_left fun heq => ?_)
    injection heq
  have hsock : ∀ {u f g}, x = .sock u .write f → y = .sock u .write g → f.r9 = g.r9 →
    a.bytes c = b.bytes c := by
    rintro u f g rfl rfl h₉
    refine h.like.sockWrite h.left h.right (hout rfl) hda hdb (hfair.2 _ rfl).1 h₉
      ((htarget rfl).imp_left fun heq => ?_)
    injection heq
  rcases Op.eq_or_write_of_erase herase with rfl | ⟨u, f, g, hx, hy, h₈, -⟩ |
    ⟨u, f, g, hx, hy, h₉, -⟩
  · by_cases hop : x.Moves
    · unfold Op.Moves at hop
      split at hop
      · exact h.like.pipeRead h.left h.right (hout rfl) hda hdb
      · exact hpipe rfl rfl rfl
      · exact h.like.sockRead h.left h.right (hout rfl) hda hdb
      · exact hsock rfl rfl rfl
      · exact hop.elim
    · refine h.like.still hop ha hb ?_
      rwa [secrets, if_pos rfl] at hc
  · exact hpipe hx hy h₈
  · exact hsock hx hy h₉

theorem Inv.step {l : Op × Op} (h : s.Inv) (hok : s.Permits Fair t l) (hstep : s.step l = some s') :
    s'.Inv := by
  unfold Twin.step at hstep
  split at hstep
  · rename_i herase
    obtain ⟨a, ha, hrest⟩ := Option.bind_eq_some_iff.mp hstep
    obtain ⟨b, hb, rfl⟩ := Option.map_eq_some_iff.mp hrest
    exact ⟨h.left.step hok.2.1 ha, h.right.step hok.2.2 hb, h.like_step herase hok.2.1 ha hb⟩
  · cases hstep

/-- **Confidentiality.**  In all pairs of runs whose steps meet the condition, a thread that never
held the channels to which different bytes were written gets the same results and leaves the
channels of others alone; and pipes are come by only through creation, or as the child of a thread
that holds it. -/
theorem confidential_of_fair (h : Lib.Reach step (Permits Fair t) IsBoot s) (hapart : s.Apart t) :
    s.Confidential Fair t ∧ ∀ op a, Fair s.left op → s.left.step op = some a → ∀ u i,
      a.Holds u (.pipe i) → s.left.Holds u (.pipe i) ∨ s.left.Receives op u i := by
  have hinv : s.Inv := h.invariant (fun _ hs => hs.inv) fun _ _ _ hs hok hstep => hs.step hok hstep
  refine ⟨?_, fun op a hfair hstep u i hi => holds_of_step hfair.1 hstep hi⟩
  rintro op rfl hfair
  exact ⟨hinv.like.result hinv.left hinv.right hfair.1 hapart,
    fun a hstep c huse hparty => bytes_of_step hinv.left hfair.1 hstep huse hparty⟩

/-! ## Two threads -/

instance {s : Channels} {op : Op} : Decidable (s.Polite op) :=
  match op with
  | .pipe _ .read _ | .pipe _ .write _ | .sock _ .read _ | .sock _ .write _ =>
    inferInstanceAs (Decidable (∀ _, _))
  | .spawn t _ fds => inferInstanceAs (Decidable (∀ fd ∈ fds, fd.kind = 100 ∨ fd.kind = 101 →
      ∀ i, s.pipes.pool.named fd.handle = some i → s.Holds t (.pipe i)))
  | .pipe _ .create _ | .pipe _ .close _ | .sock _ .create _ | .sock _ .bind _ | .sock _ .listen _
  | .sock _ .connect _ | .sock _ .accept _ | .sock _ .close _ | .fork _ _ | .exit _ =>
    .isTrue trivial

instance {s : Channels} {op : Op} : Decidable (s.Fair op) :=
  haveI : ∀ o, Decidable (s.sockets.NonNeg o ∧ s.sockets.NoWrap o) := fun _ =>
    inferInstanceAs (Decidable (_ ∧ _))
  haveI : Decidable (∀ o ∈ op.onSockets, s.sockets.NonNeg o ∧ s.sockets.NoWrap o) :=
    Option.decidableForallMem ..
  inferInstanceAs (Decidable (_ ∧ _))

instance : Decidable (s.Apart t) := inferInstanceAs (Decidable (∀ c ∈ s.secret, ¬ s.left.Holds t c))

instance {ok : Channels → Op → Prop} [∀ s op, Decidable (ok s op)] {l : Op × Op} :
    Decidable (s.Permits ok t l) :=
  inferInstanceAs (Decidable (_ ∧ _))

def twoThreads : Channels :=
  ⟨⟨fun _ => {}, fun t => t == 1 || t == 2, fun _ => [], fun _ => [], fun _ => none⟩, Sockets.empty⟩

def start : Twin := ⟨twoThreads, twoThreads, ∅⟩

theorem isBoot_start : start.IsBoot :=
  ⟨⟨⟨fun _ => rfl, fun _ => rfl, fun _ => rfl, fun _ => rfl⟩, Sockets.isBoot_empty⟩, rfl, rfl⟩

/-- Thread 1 creates a pipe and writes a byte to it, which is not the same in both runs. -/
def writeRun : List (Op × Op) :=
  [(.pipe 1 .create {}, .pipe 1 .create {}),
    (.pipe 1 .write { r8 := 0, r9 := 1, r10 := 0x41 },
      .pipe 1 .write { r8 := 0, r9 := 1, r10 := 0x42 })]

/-- Thread 2 has a pipe of its own. -/
theorem confidential_of_fair_writeRun :
    ∃ s, Lib.run step (Permits Fair 2) start
      (writeRun ++ [(.pipe 2 .create {}, .pipe 2 .create {})]) = some s ∧
      s.secret = {.pipe 0} ∧ s.Confidential Fair 2 := by
  obtain ⟨s, hs, hsecret, hapart⟩ : ∃ s ∈ Lib.run step (Permits Fair 2) start
      (writeRun ++ [(.pipe 2 .create {}, .pipe 2 .create {})]), s.secret = {.pipe 0} ∧
        s.Apart 2 := by
    decide +kernel
  exact ⟨s, hs, hsecret, (confidential_of_fair (.of_run (.init isBoot_start) hs) hapart).1⟩

/-- Thread 2 reads the pipe of thread 1 by its number. -/
theorem not_confidential_unheld :
    ¬ ∀ t s, Lib.Reach step (Permits (fun _ _ => True) t) IsBoot s → s.Apart t →
      s.Confidential (fun _ _ => True) t := by
  intro h
  obtain ⟨s, hs, hapart, hdiffer⟩ : ∃ s, Lib.Reach step (Permits (fun _ _ => True) 2) IsBoot s ∧
    s.Apart 2 ∧
      ¬ s.left.result (.pipe 2 .read { r8 := 0, r9 := 1 }) =
        s.right.result (.pipe 2 .read { r8 := 0, r9 := 1 }) :=
    Lib.observed writeRun isBoot_start (by decide +kernel)
  exact hdiffer (h 2 s hs hapart (.pipe 2 .read { r8 := 0, r9 := 1 }) rfl trivial).1

end Twin

end Robu
