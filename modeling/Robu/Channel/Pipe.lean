import Robu.Kernel.Tcb
import Robu.Lib.Handles
import Robu.Lib.Memory
import Robu.Lib.Run
import Robu.Lib.Window

/-!
# Pipes

`pipe.c` and the branches of `sys_ipc` in front of it.  A pipe is a ring of 1024 bytes with
one bit for each thread that may read it and one for each that may write it; it is free when
no bit is left, and a handle is its slot with the generation of the slot.  The bytes of a call
travel in four registers.

`Pipes` adds the threads that are alive and what a user could have noted down: the bytes
that reads have returned and that writes have reported as accepted since the pipe was created,
and the handle that was returned then.  `Pipes.step` is one call, or the start or end of a
thread.

The result here is that a pipe is a queue of bytes (`lossless_of_reach`); who holds a pipe is
the subject of `Robu.Channel.Holders`.
-/

namespace Robu

open Function (update update_eq_self update_of_ne update_self)

variable {buf bytes : List (BitVec 8)}

/-- `pipe_obj_t` -/
structure Pipe where
  generation : BitVec 32 := 0
  readersMask : Word := 0
  writersMask : Word := 0
  head : BitVec 32 := 0
  count : BitVec 32 := 0
  ring : Fin 1024 → BitVec 8 := fun _ => 0

abbrev PipePool := Fin 16 → Pipe

def holderBit (t : Slot) : Word := (1 : Word) <<< t.val

/-- `robu_spawn_fd_t`, the fields the kernel reads. -/
structure SpawnFd where
  kind : BitVec 32
  handle : Word
deriving DecidableEq

namespace Pipe

variable (p : Pipe)

def isFree : Bool := p.readersMask == 0 && p.writersMask == 0

def buffered : List (BitVec 8) := Lib.window p.ring p.head.toNat p.count.toNat

/-- The number of bytes of one transfer, out of `limit` asked for and `avail` possible. -/
def chunk (limit avail : Word) : Word :=
  let n := if limit < avail then limit else avail
  if 32 < n then 32 else n

/-- The transfer of `pipe_read`: the bytes and the pipe without them. -/
def take (max : Word) : List (BitVec 8) × Pipe :=
  let n := chunk max (p.count.setWidth 64)
  (Lib.window p.ring p.head.toNat n.toNat,
    { p with head := (p.head + n.setWidth 32) % 1024, count := p.count - n.setWidth 32 })

def avail : BitVec 32 := 1024 - p.count

def putBytes (bytes : List (BitVec 8)) (n : Word) : Pipe :=
  let tail := (p.head + p.count) % 1024
  { p with
    ring := Lib.fill p.ring tail.toNat (bytes.take n.toNat)
    count := p.count + n.setWidth 32 }

/-- The transfer of `pipe_write`: the number of bytes and the pipe with them. -/
def put (bytes : List (BitVec 8)) (len : Word) : Word × Pipe :=
  if p.avail = 0 then (0, p)
  else (chunk len (p.avail.setWidth 64), p.putBytes bytes (chunk len (p.avail.setWidth 64)))

def reset (creator : Slot) : Pipe :=
  { p with
    head := 0
    count := 0
    readersMask := holderBit creator
    writersMask := holderBit creator }

def release (t : Slot) (isWriteEnd : Bool) : Pipe :=
  if isWriteEnd then { p with writersMask := p.writersMask &&& ~~~holderBit t }
  else { p with readersMask := p.readersMask &&& ~~~holderBit t }

def hold (t : Slot) (isWriteEnd : Bool) : Pipe :=
  if isWriteEnd then { p with writersMask := p.writersMask ||| holderBit t }
  else { p with readersMask := p.readersMask ||| holderBit t }

def retire : Pipe := if p.isFree then { p with generation := p.generation + 1 } else p

end Pipe

namespace PipePool

variable (pool : PipePool) (cur : Slot) (f : Uctx)

/-! ## The functions of `pipe.c` -/

def decode (handle : Word) : Option (Fin 16 × BitVec 32) :=
  let idx := handle &&& 0xFFFFFFFF
  if h : idx.toNat < 16 then some (⟨idx.toNat, h⟩, (handle >>> 32).setWidth 32) else none

def makeHandle (i : Fin 16) (generation : BitVec 32) : Word :=
  generation.setWidth 64 <<< 32 ||| BitVec.ofNat 64 i

def named (handle : Word) : Option (Fin 16) :=
  match decode handle with
  | some (i, gen) => if (pool i).generation = gen then some i else none
  | none => none

def pipeCreate (creator : Slot) : (IpcErr × Word) × PipePool :=
  match (List.finRange 16).find? fun i => (pool i).isFree with
  | some i => ((.none, makeHandle i (pool i).generation), update pool i ((pool i).reset creator))
  | none => ((.noMem, 0), pool)

def pipeRead (handle max : Word) : (IpcErr × List (BitVec 8)) × PipePool :=
  match pool.named handle with
  | none => ((.notFound, []), pool)
  | some i =>
    if (pool i).isFree then ((.notFound, []), pool)
    else if (pool i).count = 0 then
      (((if (pool i).writersMask = 0 then .notFound else .none), []), pool)
    else ((.none, ((pool i).take max).1), update pool i ((pool i).take max).2)

def pipeWrite (handle : Word) (bytes : List (BitVec 8)) (len : Word) : (IpcErr × Word) × PipePool :=
  match pool.named handle with
  | none => ((.notFound, 0), pool)
  | some i =>
    if (pool i).isFree then ((.notFound, 0), pool)
    else if (pool i).readersMask = 0 then ((.notFound, 0), pool)
    else ((.none, ((pool i).put bytes len).1), update pool i ((pool i).put bytes len).2)

def pipeClose (caller : Slot) (handle : Word) (isWriteEnd : Bool) : IpcErr × PipePool :=
  match pool.named handle with
  | none => (.notFound, pool)
  | some i => (.none, update pool i ((pool i).release caller isWriteEnd).retire)

def pipeAddHolder (t : Slot) (handle : Word) (isWriteEnd : Bool) : PipePool :=
  match pool.named handle with
  | none => pool
  | some i => update pool i ((pool i).hold t isWriteEnd)

def pipeInheritFork (parent child : Slot) : PipePool := fun i =>
  let inherit (mask : Word) :=
    if mask &&& holderBit parent ≠ 0 then mask ||| holderBit child else mask
  { pool i with
    readersMask := inherit (pool i).readersMask
    writersMask := inherit (pool i).writersMask }

def pipeInvalidateTcbDeath (t : Slot) : PipePool := fun i =>
  if ((pool i).readersMask ||| (pool i).writersMask) &&& holderBit t ≠ 0 then
    (((pool i).release t false).release t true).retire
  else pool i

/-- The loop of `elf_load_and_spawn_req` over the descriptors of the child. -/
def addHolders (child : Slot) (fds : List SpawnFd) : PipePool :=
  fds.foldl (fun pool fd =>
    if fd.kind = 100 then pool.pipeAddHolder child fd.handle false
    else if fd.kind = 101 then pool.pipeAddHolder child fd.handle true
    else pool) pool

/-! ## The system calls -/

inductive Call
  | create | read | write | close
deriving DecidableEq

def dataBytes : List (BitVec 8) := Lib.Memory.wordBytes [f.r10, f.r12, f.r13, f.r14]

def readResult (rc : IpcErr) (buf : List (BitVec 8)) : Uctx :=
  let words := Lib.Memory.packWord buf
  { f with
    rax := rc.toWord, r8 := BitVec.ofNat 64 buf.length
    r10 := words 0, r12 := words 1, r13 := words 2, r14 := words 3 }

/-- The branches of `sys_ipc` for pipes. -/
def sysIpc : Call → Uctx × PipePool
  | .create =>
    let ((rc, handle), pool) := pool.pipeCreate cur
    ({ f with rax := rc.toWord, r8 := handle }, pool)
  | .read =>
    let ((rc, buf), pool) := pool.pipeRead f.r8 f.r9
    (readResult f rc buf, pool)
  | .write =>
    let len := if 32 < f.r9 then 32 else f.r9
    let ((rc, outLen), pool) := pool.pipeWrite f.r8 (dataBytes f) len
    ({ f with rax := rc.toWord, r8 := outLen }, pool)
  | .close =>
    let (rc, pool) := pool.pipeClose cur f.r8 (f.r9.setWidth 32 != (0 : BitVec 32))
    ({ f with rax := rc.toWord }, pool)

end PipePool

/-! ## Runs -/

/-- The pipes, the threads that are alive, and for each slot what has passed through it since
its pipe was created and the handle it was created with. -/
structure Pipes where
  pool : PipePool
  live : Slot → Bool
  delivered : Fin 16 → List (BitVec 8)
  accepted : Fin 16 → List (BitVec 8)
  created : Fin 16 → Option Word

namespace Pipes

inductive Op
  /-- A system call with the registers `f`. -/
  | call (t : Slot) (c : PipePool.Call) (f : Uctx)
  | spawn (t child : Slot) (fds : List SpawnFd)
  | fork (t child : Slot)
  | exit (t : Slot)

def log (logs : Fin 16 → List (BitVec 8)) (handle : Word) (bytes : List (BitVec 8)) :
    Fin 16 → List (BitVec 8) :=
  match PipePool.decode handle with
  | some (i, _) => update logs i (logs i ++ bytes)
  | none => logs

/-- The effect of a call, with its notes: what a read returned is read off the registers of the
result, what a write transferred off those of the call and the length in the result. -/
def call (s : Pipes) (t : Slot) (c : PipePool.Call) (f : Uctx) : Pipes :=
  let (f', pool) := s.pool.sysIpc t f c
  let s' := { s with pool }
  match c with
  | .create =>
    if f'.rax = IpcErr.none.toWord then
      match PipePool.decode f'.r8 with
      | some (i, _) =>
        { s' with
          delivered := update s.delivered i []
          accepted := update s.accepted i []
          created := update s.created i (some f'.r8) }
      | none => s'
    else s'
  | .read =>
    { s' with delivered := log s.delivered f.r8 ((PipePool.dataBytes f').take f'.r8.toNat) }
  | .write => { s' with accepted := log s.accepted f.r8 ((PipePool.dataBytes f).take f'.r8.toNat) }
  | .close => s'

/-- One step.  Only live threads make calls, and the entry of a new thread was not alive. -/
def step (s : Pipes) : Op → Option Pipes
  | .call t c f => if s.live t then some (s.call t c f) else none
  | .spawn t child fds =>
    if s.live t ∧ ¬ s.live child then
      some { s with pool := s.pool.addHolders child fds, live := update s.live child true }
    else none
  | .fork t child =>
    if s.live t ∧ ¬ s.live child then
      some { s with pool := s.pool.pipeInheritFork t child, live := update s.live child true }
    else none
  | .exit t =>
    if s.live t then
      some { s with pool := s.pool.pipeInvalidateTcbDeath t, live := update s.live t false }
    else none

structure IsBoot (s : Pipes) : Prop where
  pool : ∀ i, s.pool i = {}
  delivered : ∀ i, s.delivered i = []
  accepted : ∀ i, s.accepted i = []
  created : ∀ i, s.created i = none

end Pipes

/-! ## A pipe is a queue -/

namespace Pipe

variable {p : Pipe}

def view (p : Pipe) : Lib.Ring 1024 (BitVec 8) := ⟨p.ring, p.head, p.count⟩

theorem chunk_le (limit avail : Word) :
    (chunk limit avail).toNat ≤ 32 ∧ (chunk limit avail).toNat ≤ avail.toNat := by
  unfold chunk
  extract_lets n
  have hn : n.toNat ≤ avail.toNat := by
    show (if limit < avail then limit else avail).toNat ≤ avail.toNat
    split <;> bv_omega
  split <;> constructor <;> bv_omega

/-- **Read.**  The first bytes of the queue, at most 32. -/
theorem take_spec (hp : p.view.Sound) (max : Word) :
    (p.take max).1 ++ (p.take max).2.buffered = p.buffered ∧ (p.take max).1.length ≤ 32 ∧
      (p.take max).2.view.Sound := by
  have hn := chunk_le max (p.count.setWidth 64)
  unfold take
  generalize chunk max (p.count.setWidth 64) = n at hn
  have hnarrow : (n.setWidth 32).toNat = n.toNat := by bv_omega
  have hle : (n.setWidth 32).toNat ≤ p.count.toNat := by bv_omega
  obtain ⟨hbuf, hsound⟩ := Lib.Ring.pop_spec hp (by decide) hle
  rw [hnarrow] at hbuf
  exact ⟨hbuf, Lib.length_window.trans_le hn.1, hsound⟩

theorem putBytes_spec (hp : p.view.Sound) (hbytes : bytes.length = 32) {n : Word}
    (hn : n.toNat ≤ 32) (hroom : p.count.toNat + n.toNat ≤ 1024) :
    (p.putBytes bytes n).buffered = p.buffered ++ bytes.take n.toNat ∧
      (p.putBytes bytes n).view.Sound := by
  have hnarrow : (n.setWidth 32).toNat = n.toNat := by bv_omega
  refine Lib.Ring.push_spec (k := n.setWidth 32) hp (by decide) ?_ (by rwa [hnarrow])
  rw [List.length_take, hbytes, hnarrow]
  omega

/-- **Write.**  As many of the bytes as there is room for, at most 32, go behind the queue. -/
theorem put_spec (hp : p.view.Sound) (hbytes : bytes.length = 32) (len : Word) :
    (p.put bytes len).2.buffered = p.buffered ++ bytes.take (p.put bytes len).1.toNat ∧
      (p.put bytes len).1.toNat ≤ 32 ∧ (p.put bytes len).2.view.Sound := by
  have hcount : p.count.toNat ≤ 1024 := hp.count
  have havail : p.avail.toNat = 1024 - p.count.toNat := by
    unfold avail
    bv_omega
  unfold put
  split
  · exact ⟨by simp, by simp, hp⟩
  have hn := chunk_le len (p.avail.setWidth 64)
  generalize chunk len (p.avail.setWidth 64) = n at hn
  obtain ⟨hbuf, hsound⟩ := putBytes_spec hp hbytes hn.1 (by bv_omega)
  exact ⟨hbuf, hn.1, hsound⟩

theorem view_retire : p.retire.view = p.view := by
  unfold retire
  split <;> rfl

theorem view_release (t : Slot) (isWriteEnd : Bool) : (p.release t isWriteEnd).view = p.view := by
  cases isWriteEnd <;> rfl

theorem view_hold (t : Slot) (isWriteEnd : Bool) : (p.hold t isWriteEnd).view = p.view := by
  cases isWriteEnd <;> rfl

end Pipe

namespace PipePool

variable {pool : PipePool} {handle : Word} {i : Fin 16}

theorem decode_of_named (h : pool.named handle = some i) :
    decode handle = some (i, (pool i).generation) := by
  unfold named at h
  split at h
  · rename_i j gen hdec
    split at h
    · rename_i hgen
      cases h
      rw [hdec, hgen]
    · cases h
  · cases h

/-- **Round trip.**  A handle names its slot and its generation. -/
@[simp] theorem decode_makeHandle (i : Fin 16) (generation : BitVec 32) :
    decode (makeHandle i generation) = some (i, generation) := by
  have hi : i.val < 2 ^ 32 := i.isLt.trans (by decide)
  have hlow : (makeHandle i generation &&& 0xFFFFFFFF).toNat = i :=
    Lib.tag_low generation (by decide) hi
  have hhigh : ((makeHandle i generation) >>> 32).setWidth 32 = generation :=
    Lib.tag_high generation (by decide) hi
  unfold decode
  simp only [hlow, i.isLt, hhigh, dif_pos, Fin.eta]

theorem pipeCreate_cases (pool : PipePool) (t : Slot) : pool.pipeCreate t = ((.noMem, 0), pool) ∨
      ∃ i, (pool i).isFree = true ∧ pool.pipeCreate t =
        ((.none, makeHandle i (pool i).generation), update pool i ((pool i).reset t)) := by
  unfold pipeCreate
  split
  · rename_i i hi
    have hfree := List.find?_some hi
    exact .inr ⟨i, hfree, rfl⟩
  · exact .inl rfl

/-- A read fails or returns nothing, or it takes from the pipe its handle names. -/
theorem pipeRead_cases (pool : PipePool) (handle max : Word) :
    (∃ rc, pool.pipeRead handle max = ((rc, []), pool)) ∨
      ∃ i, pool.named handle = some i ∧ pool.pipeRead handle max =
        ((.none, ((pool i).take max).1), update pool i ((pool i).take max).2) := by
  unfold pipeRead
  split
  · exact .inl ⟨_, rfl⟩
  rename_i i hi
  split
  · exact .inl ⟨_, rfl⟩
  split
  · exact .inl ⟨_, rfl⟩
  · exact .inr ⟨i, hi, rfl⟩

/-- A write fails, or it puts bytes into the pipe its handle names. -/
theorem pipeWrite_cases (pool : PipePool) (handle : Word) (bytes : List (BitVec 8)) (len : Word) :
    (∃ rc, pool.pipeWrite handle bytes len = ((rc, 0), pool)) ∨
      ∃ i, pool.named handle = some i ∧ pool.pipeWrite handle bytes len =
        ((.none, ((pool i).put bytes len).1), update pool i ((pool i).put bytes len).2) := by
  unfold pipeWrite
  split
  · exact .inl ⟨_, rfl⟩
  rename_i i hi
  split
  · exact .inl ⟨_, rfl⟩
  split
  · exact .inl ⟨_, rfl⟩
  · exact .inr ⟨i, hi, rfl⟩

/-- **End of stream.**  On the handle of a pipe, a read fails exactly when nothing is buffered and
no writer is left. -/
theorem pipeRead_notFound_iff (h : pool.named handle = some i) (hused : (pool i).isFree = false)
    (max : Word) : (pool.pipeRead handle max).1.1 = .notFound ↔ (pool i).count = 0 ∧
      (pool i).writersMask = 0 := by
  unfold pipeRead
  rw [h]
  dsimp only
  rw [if_neg (by simp [hused])]
  by_cases hcount : (pool i).count = 0
  · rw [if_pos hcount]
    by_cases hmask : (pool i).writersMask = 0
    · simp [hmask, hcount]
    · rw [if_neg hmask]
      exact ⟨fun hc => (by cases hc), fun hc => absurd hc.2 hmask⟩
  · rw [if_neg hcount]
    exact ⟨fun hc => (by cases hc), fun hc => absurd hc.1 hcount⟩

@[simp] theorem length_dataBytes (f : Uctx) : (dataBytes f).length = 32 := rfl

def views (pool : PipePool) (i : Fin 16) : Lib.Ring 1024 (BitVec 8) := (pool i).view

theorem views_update (p : Pipe) : views (update pool i p) = update pool.views i p.view :=
  funext (Function.apply_update (fun _ => Pipe.view) pool i p)

theorem views_update_of_eq {p : Pipe} (h : p.view = (pool i).view) :
    views (update pool i p) = pool.views := by
  rw [views_update, h]
  exact update_eq_self ..

theorem views_pipeClose (t : Slot) (handle : Word) (isWriteEnd : Bool) :
    (pool.pipeClose t handle isWriteEnd).2.views = pool.views := by
  unfold pipeClose
  split
  · rfl
  · exact views_update_of_eq (Pipe.view_retire.trans (Pipe.view_release ..))

theorem views_pipeAddHolder (t : Slot) (handle : Word) (isWriteEnd : Bool) :
    (pool.pipeAddHolder t handle isWriteEnd).views = pool.views := by
  unfold pipeAddHolder
  cases pool.named handle with
  | none => rfl
  | some j => exact views_update_of_eq (Pipe.view_hold ..)

theorem views_addHolders (child : Slot) (fds : List SpawnFd) :
    (pool.addHolders child fds).views = pool.views := by
  induction fds generalizing pool with
  | nil => rfl
  | cons fd fds ih =>
    refine Eq.trans ih ?_
    dsimp only
    split
    · exact views_pipeAddHolder ..
    split
    · exact views_pipeAddHolder ..
    · rfl

theorem views_pipeInvalidateTcbDeath (t : Slot) :
    (pool.pipeInvalidateTcbDeath t).views = pool.views := by
  funext i
  unfold views pipeInvalidateTcbDeath
  split
  · exact Pipe.view_retire.trans ((Pipe.view_release ..).trans (Pipe.view_release ..))
  · rfl

end PipePool

namespace Pipes

open PipePool (dataBytes readResult sysIpc views_update)

variable {s s' : Pipes}

structure Lossless (s : Pipes) : Prop where
  /-- What was read, and then what is buffered, is what was accepted. -/
  stream : ∀ i, s.delivered i ++ (s.pool i).buffered = s.accepted i
  room : ∀ i, (s.pool i).buffered.length ≤ 1024
  /-- No call transfers more than 32 bytes. -/
  read_le : ∀ t f, (s.pool.sysIpc t f .read).1.r8.toNat ≤ 32
  write_le : ∀ t f, (s.pool.sysIpc t f .write).1.r8.toNat ≤ 32
  /-- The end of the stream is reported only when the ring is empty and no writer is left. -/
  ends : ∀ t f i, s.pool.named f.r8 = some i → (s.pool i).isFree = false →
    (s.pool.sysIpc t f .read).1.rax = IpcErr.notFound.toWord →
    (s.pool i).buffered = [] ∧ (s.pool i).writersMask = 0

def Queues (s : Pipes) : Prop := Lib.Ring.Flow s.pool.views s.delivered s.accepted

theorem Queues.stream (h : s.Queues) (i : Fin 16) :
    s.delivered i ++ (s.pool i).buffered = s.accepted i :=
  (h i).stream

theorem log_nil (logs : Fin 16 → List (BitVec 8)) (handle : Word) : log logs handle [] = logs := by
  unfold log
  split
  · rw [List.append_nil, update_eq_self]
  · rfl

theorem log_of_named {handle : Word} {i : Fin 16} (h : s.pool.named handle = some i)
    (logs : Fin 16 → List (BitVec 8)) (bytes : List (BitVec 8)) :
    log logs handle bytes = update logs i (logs i ++ bytes) := by
  unfold log
  rw [PipePool.decode_of_named h]

theorem toNat_readResult_r8 (hlen : buf.length ≤ 32) (f : Uctx) (rc : IpcErr) :
    (readResult f rc buf).r8.toNat = buf.length := by
  show (BitVec.ofNat 64 buf.length).toNat = buf.length
  rw [BitVec.toNat_ofNat]
  omega

theorem take_dataBytes_readResult (hlen : buf.length ≤ 32) (f : Uctx) (rc : IpcErr) :
    (dataBytes (readResult f rc buf)).take
      (readResult f rc buf).r8.toNat = buf := by
  rw [toNat_readResult_r8 hlen]
  exact Lib.Memory.take_wordBytes_packWord (n := 4) (by decide) hlen

theorem Queues.create (h : s.Queues) (t : Slot) (f : Uctx) : (s.call t .create f).Queues := by
  rcases s.pool.pipeCreate_cases t with hcreate | ⟨i, -, hcreate⟩
  · have hcall : s.call t .create f = s := by
      simp only [call, sysIpc, hcreate]
      rw [if_neg (by decide)]
    rwa [hcall]
  · refine h.store (i := i) (r := ((s.pool i).reset t).view) (.empty rfl rfl) ?_ ?_ ?_ <;>
      simp [call, sysIpc, hcreate, views_update]

theorem Queues.read (h : s.Queues) (t : Slot) (f : Uctx) : (s.call t .read f).Queues := by
  rcases s.pool.pipeRead_cases f.r8 f.r9 with ⟨rc, hread⟩ | ⟨i, hi, hread⟩
  · refine h.congr ?_ ?_ rfl
    · simp only [call, sysIpc, hread]
    · simp only [call, sysIpc, hread]
      rw [take_dataBytes_readResult (by simp), log_nil]
  · obtain ⟨htake, hlen, hsound⟩ := Pipe.take_spec (h i).sound f.r9
    refine h.store (i := i) (t := s.delivered i ++ ((s.pool i).take f.r9).1) (p := s.accepted i)
      ⟨hsound, ?_⟩
      ?_ ?_ (update_eq_self ..).symm
    · show _ ++ Pipe.buffered _ = _
      rw [List.append_assoc, htake]
      exact h.stream i
    · simp only [call, sysIpc, hread, views_update]
    · simp only [call, sysIpc, hread, log_of_named hi]
      rw [take_dataBytes_readResult hlen]

theorem Queues.write (h : s.Queues) (t : Slot) (f : Uctx) : (s.call t .write f).Queues := by
  obtain ⟨len, hpool, hlog⟩ : ∃ len,
      (s.call t .write f).pool = (s.pool.pipeWrite f.r8 (dataBytes f) len).2 ∧
      (s.call t .write f).accepted = log s.accepted f.r8 ((dataBytes f).take
        (s.pool.pipeWrite f.r8 (dataBytes f) len).1.2.toNat) := ⟨_, rfl, rfl⟩
  rcases s.pool.pipeWrite_cases f.r8 (dataBytes f) len with ⟨rc, hwrite⟩ |
    ⟨i, hi, hwrite⟩ <;>
    rw [hwrite] at hpool hlog
  · exact h.congr (by rw [hpool]) rfl (hlog.trans (log_nil ..))
  · obtain ⟨hput, -, hsound⟩ := Pipe.put_spec (h i).sound (PipePool.length_dataBytes f) len
    generalize (s.pool i).put (dataBytes f) len = q at *
    have hstream : s.delivered i ++ q.2.buffered = s.accepted i ++
      (dataBytes f).take q.1.toNat := by
      rw [hput, ← List.append_assoc, h.stream]
    exact h.store (i := i) (r := q.2.view) ⟨hsound, hstream⟩ (by rw [hpool, views_update])
      (update_eq_self ..).symm (hlog.trans (log_of_named hi ..))

theorem Queues.step (h : s.Queues) {op : Op} (hstep : Pipes.step s op = some s') : s'.Queues := by
  cases op with
  | call t c f =>
    obtain ⟨-, ⟨⟩⟩ := Option.ite_none_right_eq_some.mp hstep
    cases c with
    | create => exact h.create t f
    | read => exact h.read t f
    | write => exact h.write t f
    | close => exact h.congr (PipePool.views_pipeClose ..) rfl rfl
  | spawn t child fds =>
    obtain ⟨-, ⟨⟩⟩ := Option.ite_none_right_eq_some.mp hstep
    exact h.congr (PipePool.views_addHolders ..) rfl rfl
  | fork t child =>
    obtain ⟨-, ⟨⟩⟩ := Option.ite_none_right_eq_some.mp hstep
    exact h.congr rfl rfl rfl
  | exit t =>
    obtain ⟨-, ⟨⟩⟩ := Option.ite_none_right_eq_some.mp hstep
    exact h.congr (PipePool.views_pipeInvalidateTcbDeath _) rfl rfl

theorem IsBoot.queues (h : s.IsBoot) : s.Queues := by
  intro i
  rw [PipePool.views, h.pool, h.delivered, h.accepted]
  exact .empty rfl rfl

/-- Rings in order lose nothing. -/
theorem Queues.lossless (h : s.Queues) : s.Lossless where
  stream := h.stream
  room i := by
    rw [Pipe.buffered, Lib.length_window]
    exact (h i).sound.count
  read_le t f := by
    rcases s.pool.pipeRead_cases f.r8 f.r9 with ⟨rc, hread⟩ | ⟨i, hi, hread⟩
    · simp only [sysIpc, hread]
      rw [toNat_readResult_r8 (by simp)]
      exact Nat.zero_le 32
    · obtain ⟨-, hlen, -⟩ := Pipe.take_spec (h i).sound f.r9
      simp only [sysIpc, hread]
      rwa [toNat_readResult_r8 hlen]
  write_le t f := by
    show (s.pool.pipeWrite f.r8 (dataBytes f)
      (if 32 < f.r9 then 32 else f.r9)).1.2.toNat ≤ 32
    generalize (if 32 < f.r9 then 32 else f.r9) = len
    rcases s.pool.pipeWrite_cases f.r8 (dataBytes f) len with ⟨rc, hwrite⟩ |
      ⟨i, hi, hwrite⟩
    · rw [hwrite]
      exact Nat.zero_le 32
    · rw [hwrite]
      dsimp only
      exact (Pipe.put_spec (h i).sound (PipePool.length_dataBytes f) _).2.1
  ends t f i hi hused hrax := by
    have hrc : (s.pool.pipeRead f.r8 f.r9).1.1 = .notFound := by
      have htoWord : (s.pool.pipeRead f.r8 f.r9).1.1.toWord = IpcErr.notFound.toWord := hrax
      revert htoWord
      generalize (s.pool.pipeRead f.r8 f.r9).1.1 = rc
      cases rc <;> decide
    obtain ⟨hcount, hmask⟩ := (PipePool.pipeRead_notFound_iff hi hused f.r9).mp hrc
    refine ⟨?_, hmask⟩
    rw [Pipe.buffered, hcount]
    rfl

/-- **Pipes are lossless.**  In every run of calls by any threads with any registers, and of spawns,
forks and deaths. -/
theorem lossless_of_reach (h : Lib.Reach step (fun _ _ => True) IsBoot s) : s.Lossless :=
  (h.invariant (I := Queues) (fun _ hs => hs.queues) fun _ _ _ hs _ hstep => hs.step hstep).lossless

def oneThread : Pipes where
  pool _ := {}
  live t := t = 1
  delivered _ := []
  accepted _ := []
  created _ := none

theorem isBoot_oneThread :
    oneThread.IsBoot := ⟨fun _ => rfl, fun _ => rfl, fun _ => rfl, fun _ => rfl⟩

/-- Three bytes are written and two of them read, with a length that is far too large for the
registers. -/
theorem lossless_of_reach_oneThread :
    ∃ s, Lib.run step (fun _ _ => True) oneThread [.call 1 .create {},
        .call 1 .write { r8 := 0, r9 := 3, r10 := 0x030201 }, .call 1 .read { r8 := 0, r9 := 2 },
        .call 1 .write { r8 := 0, r9 := 0xFFFFFFFFFFFFFFFF }] = some s ∧
      s.delivered 0 = [1, 2] ∧ (s.accepted 0).length = 35 ∧ s.Lossless :=
  Lib.exists_run₂ isBoot_oneThread (by decide +kernel) fun hs => lossless_of_reach hs

end Pipes

end Robu
