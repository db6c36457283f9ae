import Robu.Channel.Holders
import Robu.Channel.Pairing

/-!
# Channels without their bytes

No function looks at the bytes in a ring, except to move them.  So each of them commutes with
blanking the rings: which call succeeds, how much it transfers and what the table looks like
afterwards are the same whatever the bytes are.  What the bytes are matters only to the reads
of their own ring.
-/

namespace Robu

open Function (update update_of_ne update_self)

variable {bytes : List (BitVec 8)} {handle : Word} {sockid : BitVec 32}

/-! ## Pipes -/

namespace Pipe

variable {p q : Pipe}

def blank (p : Pipe) : Pipe := { p with ring := fun _ => 0 }

theorem blank_release (t : Slot) (w : Bool) : (p.release t w).blank = p.blank.release t w := by
  cases w <;> rfl

theorem blank_hold (t : Slot) (w : Bool) : (p.hold t w).blank = p.blank.hold t w := by
  cases w <;> rfl

theorem blank_retire : p.retire.blank = p.blank.retire := by
  show _ = if p.isFree then _ else _
  unfold retire
  split <;> rfl

theorem blank_putBytes (bytes bytes' : List (BitVec 8)) (n : Word) :
    (p.putBytes bytes n).blank = (p.blank.putBytes bytes' n).blank := rfl

theorem blank_put (p : Pipe) (bytes bytes' : List (BitVec 8)) (len : Word) :
    (p.blank.put bytes' len).1 = (p.put bytes len).1 ∧
      (p.blank.put bytes' len).2.blank = (p.put bytes len).2.blank := by
  have havail : p.blank.avail = p.avail := rfl
  unfold put
  rw [havail]
  split
  · exact ⟨rfl, rfl⟩
  · exact ⟨rfl, (blank_putBytes bytes bytes' _).symm⟩

theorem chunk_le_count (max : Word) : (chunk max (p.count.setWidth 64)).toNat ≤ p.count.toNat := by
  have hle := (chunk_le max (p.count.setWidth 64)).2
  rw [BitVec.toNat_setWidth] at hle
  omega

theorem take_congr (h : p.blank = q.blank) (hbuf : p.buffered = q.buffered) (hp : p.view.Sound)
    (hq : q.view.Sound) (max : Word) : (p.take max).1 = (q.take max).1 ∧
      (p.take max).2.buffered = (q.take max).2.buffered := by
  have hcount : p.count = q.count := (congrArg Pipe.count h :)
  have hfirst : ∀ r : Pipe,
    (r.take max).1 = r.buffered.take (chunk max (r.count.setWidth 64)).toNat :=
    fun r => (Lib.take_window (chunk_le_count max)).symm
  have hsame : (p.take max).1 = (q.take max).1 := by rw [hfirst, hfirst, hbuf, hcount]
  refine ⟨hsame, ?_⟩
  have hpq := (take_spec hp max).1
  rw [hbuf, ← (take_spec hq max).1, hsame] at hpq
  exact List.append_cancel_left hpq

theorem put_congr (h : p.blank = q.blank) (hbuf : p.buffered = q.buffered) (hp : p.view.Sound)
    (hq : q.view.Sound) (hbytes : bytes.length = 32) (len : Word) :
    (p.put bytes len).2.buffered = (q.put bytes len).2.buffered := by
  have hlen : (p.put bytes len).1 = (q.put bytes len).1 := by
    rw [← (p.blank_put bytes bytes len).1, h, (q.blank_put bytes bytes len).1]
  rw [(put_spec hp hbytes len).1, (put_spec hq hbytes len).1, hlen, hbuf]

end Pipe

namespace PipePool

variable {pool pool' : PipePool}

def blank (pool : PipePool) : PipePool := fun i => (pool i).blank

theorem blank_update (pool : PipePool) (i : Fin 16) (p : Pipe) :
    blank (update pool i p) = update pool.blank i p.blank := by
  funext j
  exact Function.apply_update (fun _ => Pipe.blank) pool i p j

theorem named_blank (handle : Word) : pool.blank.named handle = pool.named handle := rfl

theorem named_congr (h : pool.blank = pool'.blank) (handle : Word) :
    pool.named handle = pool'.named handle := by
  rw [← named_blank, h, named_blank]

theorem pipeCreate_blank (pool : PipePool) (t : Slot) :
    pool.blank.pipeCreate t = ((pool.pipeCreate t).1, (pool.pipeCreate t).2.blank) := by
  have hfind : (List.finRange 16).find? (fun i => (pool.blank i).isFree) =
      (List.finRange 16).find? fun i => (pool i).isFree := rfl
  unfold pipeCreate
  rw [hfind]
  split
  · rw [blank_update]
    rfl
  · rfl

theorem pipeClose_blank (t : Slot) (handle : Word) (w : Bool) :
    pool.blank.pipeClose t handle w =
      ((pool.pipeClose t handle w).1, (pool.pipeClose t handle w).2.blank) := by
  unfold pipeClose
  rw [named_blank]
  split
  · rfl
  · rw [blank_update, Pipe.blank_retire, Pipe.blank_release]
    rfl

theorem pipeRead_blank (handle max : Word) :
    (pool.blank.pipeRead handle max).2 = (pool.pipeRead handle max).2.blank := by
  unfold pipeRead
  rw [named_blank]
  split
  · rfl
  rename_i i hi
  have hfree : (pool.blank i).isFree = (pool i).isFree := rfl
  have hcount : (pool.blank i).count = (pool i).count := rfl
  rw [hfree, hcount]
  split
  · rfl
  split
  · rfl
  · rw [blank_update]
    rfl

theorem pipeWrite_blank (handle : Word) (bytes bytes' : List (BitVec 8)) (len : Word) :
    (pool.blank.pipeWrite handle bytes' len).1 = (pool.pipeWrite handle bytes len).1 ∧
      (pool.blank.pipeWrite handle bytes' len).2.blank =
        (pool.pipeWrite handle bytes len).2.blank := by
  unfold pipeWrite
  rw [named_blank]
  split
  · exact ⟨rfl, rfl⟩
  rename_i i hi
  have hfree : (pool.blank i).isFree = (pool i).isFree := rfl
  have hreaders : (pool.blank i).readersMask = (pool i).readersMask := rfl
  obtain ⟨hlen, hput⟩ := (pool i).blank_put bytes bytes' len
  rw [hfree, hreaders]
  split
  · exact ⟨rfl, rfl⟩
  split
  · exact ⟨rfl, rfl⟩
  refine ⟨congrArg (Prod.mk _) hlen, ?_⟩
  rw [blank_update, blank_update]
  exact congrArg (update pool.blank i) hput

theorem pipeAddHolder_blank (t : Slot) (handle : Word) (w : Bool) :
    pool.blank.pipeAddHolder t handle w = (pool.pipeAddHolder t handle w).blank := by
  unfold pipeAddHolder
  rw [named_blank]
  cases pool.named handle with
  | none => rfl
  | some i =>
    dsimp only
    rw [blank_update, Pipe.blank_hold]
    rfl

theorem addHolders_blank (child : Slot) (fds : List SpawnFd) :
    pool.blank.addHolders child fds = (pool.addHolders child fds).blank := by
  induction fds generalizing pool with
  | nil => rfl
  | cons fd fds ih =>
    rw [addHolders, addHolders, List.foldl_cons, List.foldl_cons]
    split
    · rw [pipeAddHolder_blank]
      exact ih
    split
    · rw [pipeAddHolder_blank]
      exact ih
    · exact ih

theorem pipeInvalidateTcbDeath_blank (t : Slot) :
    pool.blank.pipeInvalidateTcbDeath t = (pool.pipeInvalidateTcbDeath t).blank := by
  funext i
  show (if ((pool i).readersMask ||| (pool i).writersMask) &&& holderBit t ≠ 0 then _ else _) =
    Pipe.blank _
  unfold pipeInvalidateTcbDeath
  split
  · rw [Pipe.blank_retire, Pipe.blank_release, Pipe.blank_release]
    rfl
  · rfl

/-- The pipes after a call, and what it returns if it is not a read. -/
theorem sysIpc_blank (t : Slot) (f : Uctx) (c : Call) :
    (pool.blank.sysIpc t f c).2.blank = (pool.sysIpc t f c).2.blank ∧
      (c ≠ .read → (pool.blank.sysIpc t f c).1 = (pool.sysIpc t f c).1) := by
  cases c with
  | create =>
    rw [sysIpc, pipeCreate_blank]
    exact ⟨rfl, fun _ => rfl⟩
  | read =>
    refine ⟨?_, fun hread => absurd rfl hread⟩
    show (pool.blank.pipeRead f.r8 f.r9).2.blank = _
    rw [pipeRead_blank]
    rfl
  | write =>
    obtain ⟨hlen, hpool⟩ :=
      @pipeWrite_blank pool f.r8 (dataBytes f) (dataBytes f) (if 32 < f.r9 then 32 else f.r9)
    exact ⟨hpool, fun _ =>
      congrArg (fun r : IpcErr × Word => { f with rax := r.1.toWord, r8 := r.2 }) hlen⟩
  | close =>
    rw [sysIpc, pipeClose_blank]
    exact ⟨rfl, fun _ => rfl⟩

theorem pipeRead_of_ne {i : Fin 16} (h : pool.named handle ≠ some i) (max : Word) :
    (pool.pipeRead handle max).2 i = pool i := by
  rcases pool.pipeRead_cases handle max with ⟨rc, hread⟩ | ⟨j, hj, hread⟩ <;> rw [hread]
  exact update_of_ne (fun hij : i = j => h (hij ▸ hj)) ..

theorem pipeWrite_of_ne {i : Fin 16} (h : pool.named handle ≠ some i) (bytes : List (BitVec 8))
    (len : Word) : (pool.pipeWrite handle bytes len).2 i = pool i := by
  rcases pool.pipeWrite_cases handle bytes len with ⟨rc, hwrite⟩ | ⟨j, hj, hwrite⟩ <;> rw [hwrite]
  exact update_of_ne (fun hij : i = j => h (hij ▸ hj)) ..

section Congr

variable {i : Fin 16} (h : pool.blank = pool'.blank) (hbuf : (pool i).buffered = (pool' i).buffered)
  (hp : (pool i).view.Sound) (hq : (pool' i).view.Sound)

include h hbuf hp hq

theorem pipeRead_congr (hnamed : pool.named handle = some i) (max : Word) :
    (pool.pipeRead handle max).1 = (pool'.pipeRead handle max).1 ∧
      ((pool.pipeRead handle max).2 i).buffered = ((pool'.pipeRead handle max).2 i).buffered := by
  have hi : (pool i).blank = (pool' i).blank := congrFun h i
  have hcount : (pool i).count = (pool' i).count := (congrArg Pipe.count hi :)
  have hfree : (pool i).isFree = (pool' i).isFree := (congrArg Pipe.isFree hi :)
  have hw : (pool i).writersMask = (pool' i).writersMask := (congrArg Pipe.writersMask hi :)
  obtain ⟨htake, hrest⟩ := Pipe.take_congr hi hbuf hp hq max
  unfold pipeRead
  rw [← named_congr h, hnamed]
  dsimp only
  rw [hfree, hcount, hw, htake]
  split
  · exact ⟨rfl, hbuf⟩
  split
  · exact ⟨rfl, hbuf⟩
  dsimp only
  rw [update_self, update_self]
  exact ⟨rfl, hrest⟩

theorem buffered_pipeRead (handle max : Word) :
    ((pool.pipeRead handle max).2 i).buffered = ((pool'.pipeRead handle max).2 i).buffered := by
  by_cases hnamed : pool.named handle = some i
  · exact (pipeRead_congr h hbuf hp hq hnamed max).2
  · rw [pipeRead_of_ne hnamed, pipeRead_of_ne (named_congr h handle ▸ hnamed), hbuf]

theorem buffered_pipeWrite (handle : Word) (hbytes : bytes.length = 32) (len : Word) :
    ((pool.pipeWrite handle bytes len).2 i).buffered =
      ((pool'.pipeWrite handle bytes len).2 i).buffered := by
  have hi : (pool i).blank = (pool' i).blank := congrFun h i
  have hfree : (pool i).isFree = (pool' i).isFree := (congrArg Pipe.isFree hi :)
  have hr : (pool i).readersMask = (pool' i).readersMask := (congrArg Pipe.readersMask hi :)
  by_cases hnamed : pool.named handle = some i
  · unfold pipeWrite
    rw [← named_congr h, hnamed]
    dsimp only
    rw [hfree, hr]
    split
    · exact hbuf
    split
    · exact hbuf
    dsimp only
    rw [update_self, update_self]
    exact Pipe.put_congr hi hbuf hp hq hbytes len
  · rw [pipeWrite_of_ne hnamed, pipeWrite_of_ne (named_congr h handle ▸ hnamed), hbuf]

end Congr

end PipePool

/-! ## Sockets -/

namespace Socket

variable {p q : Socket}

def blank (p : Socket) : Socket := { p with ring := fun _ => 0 }

theorem readLoop_blank (p : Socket) (turns : Nat) :
    (p.readLoop turns).2.blank = (p.blank.readLoop turns).2 ∧
      (p.blank.readLoop turns).1.length = (p.readLoop turns).1.length := by
  induction turns generalizing p with
  | zero => exact ⟨rfl, rfl⟩
  | succ turns ih =>
    have hcount : p.blank.ringCount = p.ringCount := rfl
    unfold readLoop
    rw [hcount]
    split
    · exact ⟨rfl, rfl⟩
    · exact (ih p.advance).imp_right (congrArg (· + 1))

theorem blank_putBytes (p : Socket) (bytes bytes' : List (BitVec 8)) (n : BitVec 32) :
    (p.blank.putBytes bytes' n).blank = (p.putBytes bytes n).blank := rfl

theorem blank_room (p : Socket) (len : BitVec 32) : p.blank.room len = p.room len := rfl

theorem readLoop_congr (h : p.blank = q.blank) (hbuf : p.buffered = q.buffered) (hp : p.view.Sound)
    (hq : q.view.Sound) (turns : Nat) : (p.readLoop turns).1 = (q.readLoop turns).1 ∧
      (p.readLoop turns).2.buffered = (q.readLoop turns).2.buffered := by
  have hpq := (readLoop_spec hp turns).1
  rw [hbuf, ← (readLoop_spec hq turns).1] at hpq
  refine List.append_inj hpq ?_
  rw [← (p.readLoop_blank _).2, h, (q.readLoop_blank _).2]

/-- The bytes of a write that is not negative go behind the queue. -/
theorem putBytes_congr (h : p.blank = q.blank) (hbuf : p.buffered = q.buffered) (hp : p.view.Sound)
    (hq : q.view.Sound) {len : BitVec 32} (hlen : 0 ≤ len.toInt)
    (hbytes : len.toNat ≤ bytes.length) :
    (p.putBytes bytes (p.room len)).buffered = (q.putBytes bytes (q.room len)).buffered := by
  have hroom : p.room len = q.room len := by
    unfold room space
    rw [show p.ringCount = q.ringCount from (congrArg Socket.ringCount h :)]
  obtain ⟨hint, hle, hfits⟩ := room_spec hp hlen
  obtain ⟨hint', hle', hfits'⟩ := room_spec hq hlen
  rw [(putBytes_spec hp hint (by omega) hfits).1, (putBytes_spec hq hint' (by omega) hfits').1,
    hbuf, hroom]

end Socket

namespace SockTable

variable {tab tab' : SockTable}

def blank (tab : SockTable) : SockTable := fun i => (tab i).blank

theorem blank_modify (i : Fin 32) (g : Socket → Socket) :
    (tab.modify i g).blank = update tab.blank i (g (tab i)).blank := by
  funext j
  exact Function.apply_update (fun _ => Socket.blank) tab i (g (tab i)) j

theorem modify_blank (g g' : Socket → Socket) (h : ∀ p : Socket, (g' p.blank).blank = (g p).blank)
    (i : Fin 32) : (tab.blank.modify i g').blank = (tab.modify i g).blank := by
  rw [blank_modify, blank_modify, ← h (tab i)]
  rfl

theorem modify_blank_of_eq {g : Socket → Socket} (h : ∀ p : Socket, (g p).blank = g p.blank)
    (i : Fin 32) : tab.blank.modify i g = (tab.modify i g).blank := by
  rw [blank_modify, h (tab i)]
  rfl

theorem findSocket_blank (sockid : BitVec 32) :
    tab.blank.findSocket sockid = tab.findSocket sockid := rfl

theorem findOwned_blank (t : Slot) (sockid : BitVec 32) :
    tab.blank.findOwned t sockid = tab.findOwned t sockid :=
  rfl

theorem freeSlot_blank : tab.blank.freeSlot = tab.freeSlot := rfl

theorem findListener_blank (path : List (BitVec 8)) :
    tab.blank.findListener path = tab.findListener path := rfl

theorem state_blank (i : Fin 32) : (tab.blank i).state = (tab i).state := rfl

theorem livePeer_blank (i : Fin 32) : tab.blank.livePeer i = tab.livePeer i := rfl

theorem sockCreate_blank (t : Slot) :
    tab.blank.sockCreate t = ((tab.sockCreate t).1, (tab.sockCreate t).2.blank) := by
  unfold sockCreate
  rw [freeSlot_blank]
  split
  · rfl
  · rw [modify_blank_of_eq (g := fun p => p.fresh t) fun _ => rfl]
    rfl

theorem sockBind_blank (t : Slot) (sockid : BitVec 32) (path : List (BitVec 8)) :
    tab.blank.sockBind t sockid path =
      ((tab.sockBind t sockid path).1, (tab.sockBind t sockid path).2.blank) := by
  unfold sockBind
  rw [findOwned_blank]
  split
  · rfl
  rename_i i hi
  have hany : ((List.finRange 32).any fun j =>
      (tab.blank j).inUse && (tab.blank j).hasPath && pathEq (tab.blank j).path path) =
        (List.finRange 32).any fun j =>
          (tab j).inUse && (tab j).hasPath && pathEq (tab j).path path := rfl
  rw [state_blank, hany]
  split
  · rfl
  split
  · rfl
  · rw [modify_blank_of_eq (g := fun p => p.bindPath path) fun _ => rfl]

theorem sockListen_blank (t : Slot) (sockid : BitVec 32) :
    tab.blank.sockListen t sockid =
      ((tab.sockListen t sockid).1, (tab.sockListen t sockid).2.blank) := by
  unfold sockListen
  rw [findOwned_blank]
  split
  · rfl
  rename_i i hi
  have hpath : (tab.blank i).hasPath = (tab i).hasPath := rfl
  rw [state_blank, hpath]
  split
  · rfl
  · rw [modify_blank_of_eq (g := Socket.startListening) fun _ => rfl]

theorem enqueue_blank (l c : Fin 32) : tab.blank.enqueue l c = (tab.enqueue l c).blank := by
  unfold enqueue
  rw [← modify_blank_of_eq (g := Socket.startConnecting) fun _ => rfl,
    ← modify_blank_of_eq (g := fun p => p.queue ⟨c, (tab c).generation⟩) fun _ => rfl]
  rfl

theorem sockConnect_blank (t : Slot) (sockid : BitVec 32) (path : List (BitVec 8)) :
    tab.blank.sockConnect t sockid path =
      ((tab.sockConnect t sockid path).1, (tab.sockConnect t sockid path).2.blank) := by
  unfold sockConnect
  rw [findOwned_blank, findListener_blank]
  split
  · rfl
  rename_i i hi
  rw [state_blank]
  split
  · rfl
  · rfl
  · rfl
  split
  · rfl
  rename_i j hj
  have htail : (tab.blank j).backlogTail = (tab j).backlogTail := rfl
  have hhead : (tab.blank j).backlogHead = (tab j).backlogHead := rfl
  rw [htail, hhead]
  split
  · rfl
  · rw [enqueue_blank]

theorem nextClient_blank (l : Fin 32) (turns : Nat) :
    tab.blank.nextClient l turns =
      ((tab.nextClient l turns).1, (tab.nextClient l turns).2.blank) := by
  induction turns generalizing tab with
  | zero => rfl
  | succ turns ih =>
    unfold nextClient
    dsimp only
    rw [modify_blank_of_eq (g := Socket.popEntry) fun _ => rfl]
    have hentry : (tab.blank l).backlog (tab.blank l).backlogHead =
      (tab l).backlog (tab l).backlogHead := rfl
    rw [hentry]
    generalize (tab l).backlog (tab l).backlogHead = e
    generalize tab.modify l Socket.popEntry = popped
    have huse : (popped.blank e.slot).inUse = (popped e.slot).inUse := rfl
    have hgen : (popped.blank e.slot).generation = (popped e.slot).generation := rfl
    have hstate : (popped.blank e.slot).state = (popped e.slot).state := rfl
    rw [huse, hgen, hstate]
    split
    · rfl
    · exact ih

theorem pair_blank (t : Slot) (server client : Fin 32) :
    tab.blank.pair t server client = (tab.pair t server client).blank := by
  unfold pair
  rw [← modify_blank_of_eq (g := fun p => p.pairWith ⟨server, (tab server).generation⟩)
    fun _ => rfl, ← modify_blank_of_eq (g := fun p => p.serve t ⟨client, (tab client).generation⟩)
      fun _ => rfl]
  rfl

theorem sockAccept_blank (t : Slot) (sockid : BitVec 32) :
    tab.blank.sockAccept t sockid =
      ((tab.sockAccept t sockid).1, (tab.sockAccept t sockid).2.blank) := by
  unfold sockAccept
  rw [findOwned_blank]
  split
  · rfl
  rename_i i hi
  have hwaiting : tab.blank.waiting i = tab.waiting i := rfl
  rw [state_blank, hwaiting, nextClient_blank]
  split
  · rfl
  cases tab.nextClient i (tab.waiting i) with
  | mk found popped =>
    cases found with
    | none => rfl
    | some client =>
      dsimp only
      rw [freeSlot_blank]
      split
      · rfl
      · rw [pair_blank]
        rfl

theorem release_blank (i : Fin 32) : tab.blank.release i = (tab.release i).blank := by
  have hpeer : tab.blank.closePeer i = tab.closePeer i := rfl
  unfold release
  rw [hpeer]
  split
  · rw [modify_blank_of_eq (g := Socket.markClosed) fun _ => rfl,
      modify_blank_of_eq (g := Socket.giveBack) fun _ => rfl]
  · exact modify_blank_of_eq (g := Socket.giveBack) (fun _ => rfl) i

theorem sockClose_blank (t : Slot) (sockid : BitVec 32) :
    tab.blank.sockClose t sockid =
      ((tab.sockClose t sockid).1, (tab.sockClose t sockid).2.blank) := by
  unfold sockClose
  rw [findOwned_blank]
  split
  · rfl
  · rw [release_blank]

theorem sockCleanupForProcess_blank (t : Slot) :
    tab.blank.sockCleanupForProcess t = (tab.sockCleanupForProcess t).blank := by
  unfold sockCleanupForProcess
  generalize List.finRange 32 = slots
  induction slots generalizing tab with
  | nil => rfl
  | cons i slots ih =>
    have huse : (tab.blank i).inUse = (tab i).inUse := rfl
    have howner : (tab.blank i).ownerTid = (tab i).ownerTid := rfl
    rw [List.foldl_cons, List.foldl_cons, huse, howner]
    split
    · exact ih
    · rw [release_blank]
      exact ih

theorem sockRead_blank (sockid max : BitVec 32) :
    (tab.blank.sockRead sockid max).2 = (tab.sockRead sockid max).2.blank := by
  unfold sockRead
  rw [findSocket_blank]
  split
  · rfl
  rename_i i hi
  have hcount : (tab.blank i).ringCount = (tab i).ringCount := rfl
  rw [state_blank, hcount]
  split
  · rfl
  split
  · rfl
  · exact modify_blank_of_eq (g := fun p => (p.readLoop max.toInt.toNat).2)
      (fun p => (p.readLoop_blank _).1) i

theorem sockWrite_blank (sockid : BitVec 32) (bytes bytes' : List (BitVec 8)) (len : BitVec 32) :
    (tab.blank.sockWrite sockid bytes' len).1 = (tab.sockWrite sockid bytes len).1 ∧
      (tab.blank.sockWrite sockid bytes' len).2.blank =
        (tab.sockWrite sockid bytes len).2.blank := by
  unfold sockWrite
  rw [findSocket_blank]
  split
  · exact ⟨rfl, rfl⟩
  rename_i i hi
  rw [state_blank, livePeer_blank]
  split
  · exact ⟨rfl, rfl⟩
  split
  · exact ⟨rfl, rfl⟩
  rename_i q hq
  have hroom : (tab.blank q).room len = (tab q).room len := (tab q).blank_room len
  have hput : ∀ p : Socket, (p.blank.putBytes bytes' (p.blank.room len)).blank =
      (p.putBytes bytes (p.room len)).blank := fun p => by
    rw [Socket.blank_room, Socket.blank_putBytes p bytes bytes']
  refine ⟨congrArg (Prod.mk _) hroom, ?_⟩
  exact modify_blank (fun p => p.putBytes bytes (p.room len))
    (fun p => p.putBytes bytes' (p.room len)) hput q

/-- The sockets after a call, and what it returns if it is not a read. -/
theorem sysInfo_blank (t : Slot) (f : Uctx) (c : Call) :
    (tab.blank.sysInfo t f c).2.blank = (tab.sysInfo t f c).2.blank ∧
      (c ≠ .read → (tab.blank.sysInfo t f c).1 = (tab.sysInfo t f c).1) := by
  cases c with
  | create => rw [sysInfo, sockCreate_blank]; exact ⟨rfl, fun _ => rfl⟩
  | bind => rw [sysInfo, sockBind_blank]; exact ⟨rfl, fun _ => rfl⟩
  | listen => rw [sysInfo, sockListen_blank]; exact ⟨rfl, fun _ => rfl⟩
  | connect => rw [sysInfo, sockConnect_blank]; exact ⟨rfl, fun _ => rfl⟩
  | accept => rw [sysInfo, sockAccept_blank]; exact ⟨rfl, fun _ => rfl⟩
  | read =>
    refine ⟨?_, fun hread => absurd rfl hread⟩
    show (tab.blank.sockRead (f.r9.setWidth 32) (clip f.r10 40)).2.blank = _
    rw [sockRead_blank]
    rfl
  | write =>
    obtain ⟨hlen, htab⟩ :=
      @sockWrite_blank tab (f.r9.setWidth 32) (writeBytes f) (writeBytes f) (clip f.r10 24)
    exact ⟨htab, fun _ => congrArg (fun r : IpcErr × BitVec 32 => numberResult f r.1 r.2) hlen⟩
  | close => rw [sysInfo, sockClose_blank]; exact ⟨rfl, fun _ => rfl⟩

theorem sockRead_of_ne {i : Fin 32} (h : tab.findSocket sockid ≠ some i) (max : BitVec 32) :
    (tab.sockRead sockid max).2 i = tab i := by
  rcases tab.sockRead_cases sockid max with ⟨rc, hread⟩ | ⟨j, hj, -, hread⟩ <;> rw [hread]
  exact modify_of_ne (fun hij : i = j => h (hij ▸ hj)) fun p => (p.readLoop max.toInt.toNat).2

def writesTo (tab : SockTable) (sockid : BitVec 32) : Option (Fin 32) :=
  match tab.findSocket sockid with
  | some i => if (tab i).state = .connected then tab.livePeer i else none
  | none => none

theorem writesTo_eq_some {p : Fin 32} : tab.writesTo sockid = some p ↔
    ∃ i, tab.findSocket sockid = some i ∧ (tab i).state = .connected ∧ tab.livePeer i = some p := by
  unfold writesTo
  cases tab.findSocket sockid with
  | none => simp
  | some i => simp

theorem sockWrite_of_ne {p : Fin 32} (h : tab.writesTo sockid ≠ some p)
    (bytes : List (BitVec 8)) (len : BitVec 32) : (tab.sockWrite sockid bytes len).2 p = tab p := by
  rcases tab.sockWrite_cases sockid bytes len with ⟨rc, -, hwrite⟩ |
    ⟨i, q, hi, hstate, hq, hwrite⟩ <;> rw [hwrite]
  refine modify_of_ne (fun hpq : p = q => h ?_) fun s => s.putBytes bytes (s.room len)
  exact writesTo_eq_some.mpr ⟨i, hi, hstate, hpq ▸ hq⟩

section Congr

variable {i : Fin 32} (h : tab.blank = tab'.blank) (hbuf : (tab i).buffered = (tab' i).buffered)
  (hp : (tab i).view.Sound) (hq : (tab' i).view.Sound)

include h

theorem findSocket_congr (sockid : BitVec 32) : tab.findSocket sockid = tab'.findSocket sockid := by
  rw [← findSocket_blank, h, findSocket_blank]

theorem writesTo_congr (sockid : BitVec 32) : tab.writesTo sockid = tab'.writesTo sockid := by
  have hpeer : ∀ j, tab.livePeer j = tab'.livePeer j :=
    fun j => by rw [← livePeer_blank, h, livePeer_blank]
  unfold writesTo
  rw [findSocket_congr h]
  cases tab'.findSocket sockid with
  | none => rfl
  | some j =>
    dsimp only
    rw [hpeer, show (tab j).state = (tab' j).state from (congrArg Socket.state (congrFun h j) :)]

include hbuf hp hq

theorem sockRead_congr (hfound : tab.findSocket sockid = some i) (max : BitVec 32) :
    (tab.sockRead sockid max).1 = (tab'.sockRead sockid max).1 ∧
      ((tab.sockRead sockid max).2 i).buffered = ((tab'.sockRead sockid max).2 i).buffered := by
  have hi : (tab i).blank = (tab' i).blank := congrFun h i
  have hstate : (tab i).state = (tab' i).state := (congrArg Socket.state hi :)
  have hcount : (tab i).ringCount = (tab' i).ringCount := (congrArg Socket.ringCount hi :)
  have hclosed : (tab i).peerClosed = (tab' i).peerClosed := (congrArg Socket.peerClosed hi :)
  obtain ⟨hloop, hrest⟩ := Socket.readLoop_congr hi hbuf hp hq max.toInt.toNat
  unfold sockRead
  rw [← findSocket_congr h, hfound]
  dsimp only
  rw [hstate, hcount, hclosed, hloop]
  split
  · exact ⟨rfl, hbuf⟩
  split
  · exact ⟨rfl, hbuf⟩
  dsimp only
  rw [modify_self fun p => (p.readLoop max.toInt.toNat).2, modify_self fun p =>
    (p.readLoop max.toInt.toNat).2]
  exact ⟨rfl, hrest⟩

theorem buffered_sockRead (sockid max : BitVec 32) :
    ((tab.sockRead sockid max).2 i).buffered = ((tab'.sockRead sockid max).2 i).buffered := by
  by_cases hfound : tab.findSocket sockid = some i
  · exact (sockRead_congr h hbuf hp hq hfound max).2
  · rw [sockRead_of_ne hfound, sockRead_of_ne (findSocket_congr h sockid ▸ hfound), hbuf]

theorem buffered_sockWrite (sockid : BitVec 32) {len : BitVec 32} (hlen : 0 ≤ len.toInt)
    (hbytes : len.toNat ≤ bytes.length) :
    ((tab.sockWrite sockid bytes len).2 i).buffered =
      ((tab'.sockWrite sockid bytes len).2 i).buffered := by
  have hput : ∀ {tab : SockTable}, tab.writesTo sockid = some i →
      (tab.sockWrite sockid bytes len).2 i = (tab i).putBytes bytes ((tab i).room len) := by
    intro tab hto
    obtain ⟨j, hj, hstate, hpeer⟩ := writesTo_eq_some.mp hto
    unfold sockWrite
    rw [hj]
    dsimp only
    rw [if_neg (not_not.mpr hstate), hpeer]
    exact modify_self fun s => s.putBytes bytes (s.room len)
  by_cases hto : tab.writesTo sockid = some i
  · rw [hput hto, hput (writesTo_congr h sockid ▸ hto)]
    exact Socket.putBytes_congr (congrFun h i) hbuf hp hq hlen hbytes
  · rw [sockWrite_of_ne hto, sockWrite_of_ne (writesTo_congr h sockid ▸ hto), hbuf]

end Congr

end SockTable

end Robu
