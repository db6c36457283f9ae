import Robu.Channel.Socket

/-!
# Socket streams

What is read from a socket, and then what is in its ring, is what its peer has written to it.

Lengths come from 64-bit registers and are narrowed to a signed `int`, and `sock_write` adds the
length it transfers to the unsigned count of the ring.  As long as no write has a negative length
the streams are right (`streams_of_nonneg`), and one such write is enough to break them
(`not_streams_negative`).
-/

namespace Robu

open Function (update update_eq_self update_of_ne update_self)
open SockTable (clip writeBytes)

variable {t : Slot} {p : Socket} {f : Uctx}
variable {g : Socket → Socket} {client server : Fin 32} {limit : BitVec 32}

namespace Socket

variable {s : Socket}

def advance (s : Socket) : Socket :=
  { s with ringHead := (s.ringHead + 1) % 4096, ringCount := s.ringCount - 1 }

/-- **Read.**  The first bytes of the queue, as many as asked for or as there are. -/
theorem readLoop_spec (hs : s.view.Sound) (turns : Nat) :
    (s.readLoop turns).1 ++ (s.readLoop turns).2.buffered = s.buffered ∧
      (s.readLoop turns).1.length ≤ turns ∧ (s.readLoop turns).2.view.Sound := by
  induction turns generalizing s with
  | zero => exact ⟨rfl, Nat.le_refl 0, hs⟩
  | succ turns ih =>
    unfold readLoop
    split
    · exact ⟨rfl, Nat.zero_le _, hs⟩
    rename_i hne
    obtain ⟨hbuf, hpop⟩ :=
      Lib.Ring.pop_spec (k := 1) hs (by decide) (show 1 ≤ s.ringCount.toNat by bv_omega)
    obtain ⟨hrest, hlen, hsound⟩ := ih (s := s.advance) hpop
    exact ⟨(congrArg (List.cons _) hrest).trans hbuf, Nat.succ_le_succ hlen, hsound⟩

theorem room_spec (hs : s.view.Sound) {len : BitVec 32} (hlen : 0 ≤ len.toInt) :
    (s.room len).toInt = (s.room len).toNat ∧ (s.room len).toNat ≤ len.toNat ∧
      s.ringCount.toNat + (s.room len).toNat ≤ 4096 := by
  have hcount : s.ringCount.toNat ≤ 4096 := hs.count
  have hspace : s.space.toNat = 4096 - s.ringCount.toNat := by
    unfold space
    bv_omega
  have hspaceInt : s.space.toInt = s.space.toNat := BitVec.toInt_eq_toNat_of_lt (by omega)
  have hlenInt : len.toInt = len.toNat := by
    rw [BitVec.toInt_eq_toNat_cond] at hlen ⊢
    split at hlen
    · rw [if_pos ‹_›]
    · have := len.isLt
      omega
  unfold room
  split
  · refine ⟨hlenInt, Nat.le_refl _, ?_⟩
    omega
  · refine ⟨hspaceInt, ?_, ?_⟩ <;> omega

/-- **Write.**  The bytes that are transferred go behind the queue. -/
theorem putBytes_spec (hs : s.view.Sound) {bytes : List (BitVec 8)} {n : BitVec 32}
    (hn : n.toInt = n.toNat) (hbytes : n.toNat ≤ bytes.length)
    (hroom : s.ringCount.toNat + n.toNat ≤ 4096) :
    (s.putBytes bytes n).buffered = s.buffered ++ bytes.take n.toNat ∧
      (s.putBytes bytes n).view.Sound := by
  unfold putBytes
  rw [hn, Int.toNat_natCast]
  exact Lib.Ring.push_spec hs (by decide) (List.length_take_of_le hbytes) hroom

end Socket

namespace SockTable

variable {tab : SockTable} {i : Fin 32}

theorem views_modify (i : Fin 32) (g : Socket → Socket) :
    (tab.modify i g).views = update tab.views i (g (tab i)).view :=
  funext (Function.apply_update (fun _ => Socket.view) tab i (g (tab i)))

theorem views_modify_of_eq (h : ∀ s : Socket, (g s).view = s.view) (i : Fin 32) :
    (tab.modify i g).views = tab.views := by
  rw [views_modify, h]
  exact update_eq_self ..

theorem views_release (i : Fin 32) : (tab.release i).views = tab.views := by
  unfold release
  cases tab.closePeer i with
  | some p =>
    exact (views_modify_of_eq (g := Socket.giveBack) (fun _ => rfl) i).trans
      (views_modify_of_eq (g := Socket.markClosed) (fun _ => rfl) p)
  | none => exact views_modify_of_eq (g := Socket.giveBack) (fun _ => rfl) i

theorem views_sockCleanupForProcess (t : Slot) :
    (tab.sockCleanupForProcess t).views = tab.views := by
  unfold sockCleanupForProcess
  generalize List.finRange 32 = slots
  induction slots generalizing tab with
  | nil => rfl
  | cons i slots ih =>
    rw [List.foldl_cons, ih]
    split
    · rfl
    · exact views_release i

theorem views_enqueue (l c : Fin 32) : (tab.enqueue l c).views = tab.views :=
  (views_modify_of_eq (g := Socket.startConnecting) (fun _ => rfl) c).trans
    (views_modify_of_eq (g := fun s => s.queue ⟨c, (tab c).generation⟩) (fun _ => rfl) l)

theorem views_nextClient (l : Fin 32) (turns : Nat) :
    (tab.nextClient l turns).2.views = tab.views := by
  induction turns generalizing tab with
  | zero => rfl
  | succ turns ih =>
    have hpop : (tab.modify l Socket.popEntry).views = tab.views :=
      views_modify_of_eq (g := Socket.popEntry) (fun _ => rfl) l
    unfold nextClient
    dsimp only
    split
    · exact hpop
    · exact ih.trans hpop

/-- Pairing empties the ring of the new socket and leaves the others. -/
theorem views_pair (t : Slot) : (tab.pair t server client).views =
    update tab.views server ((tab server).serve t ⟨client, (tab client).generation⟩).view :=
  (views_modify_of_eq (g := fun s => s.pairWith ⟨server, (tab server).generation⟩)
    (fun _ => rfl) client).trans
    (views_modify ..)

end SockTable

namespace Sockets

variable {s s' : Sockets} {op : Op} {i : Fin 32}

/-- The length of a write is not negative as an `int`. -/
def NonNeg (_ : Sockets) : Op → Prop
  | .call _ .write f => 0 ≤ (f.r10.setWidth 32 : BitVec 32).toInt
  | _ => True

instance : Decidable (s.NonNeg op) :=
  match op with
  | .call _ .write f => inferInstanceAs (Decidable (0 ≤ (f.r10.setWidth 32 : BitVec 32).toInt))
  | .call _ .create _ | .call _ .bind _ | .call _ .listen _ | .call _ .connect _ | .call _ .accept _
  | .call _ .read _ | .call _ .close _ | .exit _ => .isTrue trivial

theorem Streams.stream (h : s.Streams) (i : Fin 32) :
    s.delivered i ++ (s.tab i).buffered = s.accepted i :=
  (h i).stream

theorem Streams.create (h : s.Streams) (hstep : step s (.call t .create f) = some s') :
    s'.Streams := by
  rcases create_cases hstep with rfl | ⟨i, -, rfl⟩
  · exact h
  · exact h.store (r := ((s.tab i).fresh t).view) (.empty rfl rfl)
      (SockTable.views_modify i fun p => p.fresh t) rfl rfl

theorem Streams.accept (h : s.Streams) (hstep : step s (.call t .accept f) = some s') :
    s'.Streams := by
  rcases accept_cases hstep with rfl | ⟨i, -, -, rfl | ⟨client, tab, server, hnext, -, -, rfl⟩⟩
  · exact h
  · exact h.congr (SockTable.views_nextClient ..) rfl rfl
  have hpopped : (s.tab.nextClient i (s.tab.waiting i)).2.views = s.tab.views :=
    SockTable.views_nextClient ..
  rw [hnext] at hpopped
  refine h.store (r := ((tab server).serve t ⟨client, (tab client).generation⟩).view)
    (.empty rfl rfl) ?_ rfl rfl
  rw [← hpopped]
  exact SockTable.views_pair t

theorem take_readBytes {buf : List (BitVec 8)} (hlen : buf.length ≤ 40) (f : Uctx) :
    (SockTable.readBytes (SockTable.readResult f buf)).take (SockTable.readResult f buf).r8.toNat =
      buf := by
  have hn : (SockTable.readResult f buf).r8.toNat = buf.length := by
    show (BitVec.ofNat 64 buf.length).toNat = buf.length
    rw [BitVec.toNat_ofNat]
    omega
  rw [hn]
  exact Lib.Memory.take_wordBytes_packWord (n := 5) (by decide) hlen

theorem toInt_clip_le (len : Word) : (clip len limit).toInt ≤ limit.toInt := by
  unfold clip
  split <;> omega

theorem clip_nonneg {len : Word} (hlimit : 0 ≤ limit.toInt)
    (h : 0 ≤ (len.setWidth 32 : BitVec 32).toInt) : 0 ≤ (clip len limit).toInt := by
  unfold clip
  split
  · exact hlimit
  · exact h

theorem Streams.read (h : s.Streams) (hstep : step s (.call t .read f) = some s') : s'.Streams := by
  rcases read_cases hstep with rfl | ⟨i, buf, -, -, hbuf, hs'⟩
  · exact h
  obtain ⟨hread, hlen, hsound⟩ := Socket.readLoop_spec (h i).sound (clip f.r10 40).toInt.toNat
  rw [← hbuf] at hread hlen
  have hclip : (clip f.r10 40).toInt ≤ 40 := toInt_clip_le f.r10
  have hfits : buf.length ≤ 40 := by omega
  rw [take_readBytes hfits] at hs'
  have hstream : s.delivered i ++ buf ++
      ((s.tab i).readLoop (clip f.r10 40).toInt.toNat).2.buffered = s.accepted i := by
    rw [List.append_assoc, hread]
    exact h.stream i
  rw [hs']
  exact h.store ⟨hsound, hstream⟩
    (SockTable.views_modify i fun p => (p.readLoop (clip f.r10 40).toInt.toNat).2)
    rfl (update_eq_self ..).symm

theorem Streams.write (h : s.Streams) (hok : s.NonNeg (.call t .write f))
    (hstep : step s (.call t .write f) = some s') : s'.Streams := by
  rcases write_cases hstep with rfl | ⟨i, p, n, -, -, -, hn, hs'⟩
  · exact h
  have hclip : 0 ≤ (clip f.r10 24).toInt := clip_nonneg (by decide) hok
  have hle : (clip f.r10 24).toInt ≤ 24 := toInt_clip_le f.r10
  obtain ⟨hint, hlen, hroom⟩ := Socket.room_spec (h p).sound hclip
  have hlen' : ((clip f.r10 24)).toNat ≤ 24 := by
    rw [BitVec.toInt_eq_toNat_cond] at hclip hle
    split at hle
    · omega
    · have := (clip f.r10 24).isLt
      omega
  rw [← hn] at hint hlen hroom
  have hwords : n.toNat ≤ (writeBytes f).length := by
    show n.toNat ≤ 24
    omega
  obtain ⟨hput, hsound⟩ := Socket.putBytes_spec (h p).sound hint hwords hroom
  have hext : (n.signExtend 64).toInt.toNat = n.toNat := by
    rw [BitVec.toInt_signExtend_of_le (by decide), hint, Int.toNat_natCast]
  rw [hext] at hs'
  have hq : Lib.Ring.Flows ((s.tab p).putBytes (writeBytes f) ((s.tab p).room (clip f.r10 24))).view
      (s.delivered p) (s.accepted p ++ (writeBytes f).take n.toNat) := by
    rw [← hn]
    refine ⟨hsound, ?_⟩
    show _ ++ Socket.buffered _ = _
    rw [hput, ← List.append_assoc, h.stream p]
  rw [hs']
  exact h.store hq (SockTable.views_modify p fun q =>
    q.putBytes (writeBytes f) (q.room (clip f.r10 24)))
    (update_eq_self ..).symm rfl

/-- **Steps** keep the streams where lengths are not negative. -/
theorem Streams.step (h : s.Streams) (hok : s.NonNeg op) (hstep : Sockets.step s op = some s') :
    s'.Streams := by
  cases op with
  | call t c f =>
    cases c with
    | create => exact h.create hstep
    | bind =>
      rcases bind_cases hstep with rfl | ⟨i, -, -, rfl⟩
      · exact h
      · exact h.congr (SockTable.views_modify_of_eq (g := fun p =>
          p.bindPath (SockTable.pathBytes f)) (fun _ => rfl) i) rfl rfl
    | listen =>
      rcases listen_cases hstep with rfl | ⟨i, -, -, rfl⟩
      · exact h
      · exact h.congr (SockTable.views_modify_of_eq (g := Socket.startListening)
          (fun _ => rfl) i) rfl rfl
    | connect =>
      rcases connect_cases hstep with rfl | ⟨i, j, -, -, -, -, rfl⟩
      · exact h
      · exact h.congr (SockTable.views_enqueue j i) rfl rfl
    | accept => exact h.accept hstep
    | read => exact h.read hstep
    | write => exact h.write hok hstep
    | close =>
      rcases close_cases hstep with rfl | ⟨i, -, rfl⟩
      · exact h
      · exact h.congr (SockTable.views_release i) rfl rfl
  | exit t =>
    cases hstep
    exact h.congr (SockTable.views_sockCleanupForProcess t) rfl rfl

theorem IsBoot.streams (h : s.IsBoot) : s.Streams := by
  intro i
  rw [SockTable.views, h.tab, h.delivered, h.accepted]
  exact .empty rfl rfl

/-- **Streams.**  In every run in which no write has a negative length. -/
theorem streams_of_nonneg (h : Lib.Reach step NonNeg IsBoot s) : s.Streams :=
  h.invariant (fun _ hs => hs.streams) fun _ _ _ hs hok hstep => hs.step hok hstep

def empty : Sockets where
  tab _ := {}
  delivered _ := []
  accepted _ := []
  asked _ := none
  pairs := []

theorem isBoot_empty : empty.IsBoot := ⟨fun _ => rfl, fun _ => rfl, fun _ => rfl, fun _ => rfl, rfl⟩

/-- Thread 1 listens at the path `a`, and thread 2 is connected to it: the sockets 1 and 2 are
paired. -/
def connectRun : List Op :=
  [.call 1 .create {}, .call 1 .bind { r9 := 0, r10 := 0x61 }, .call 1 .listen { r9 := 0 },
    .call 2 .create {}, .call 2 .connect { r9 := 1, r10 := 0x61 }, .call 1 .accept { r9 := 0 }]

/-- Thread 2 writes three bytes, and thread 1 reads two of them. -/
theorem streams_of_nonneg_connectRun :
    ∃ s, Lib.run step NonNeg empty
      (connectRun ++ [.call 2 .write { r9 := 1, r10 := 3, r12 := 0x030201 },
        .call 1 .read { r9 := 2, r10 := 2 }]) = some s ∧
      s.delivered 2 = [1, 2] ∧ s.accepted 2 = [1, 2, 3] ∧ s.Streams :=
  Lib.exists_run₂ isBoot_empty (by decide +kernel) fun hs => streams_of_nonneg hs

/-- Thread 2 writes with the length -1, and the count of the ring of its peer becomes 2 ^ 32 - 1. -/
theorem not_streams_negative : ¬ ∀ s, Lib.Reach step (fun _ _ => True) IsBoot s → s.Streams := by
  intro h
  obtain ⟨s, hs, hcount⟩ : ∃ s, Lib.Reach step (fun _ _ => True) IsBoot s ∧
    (s.tab 2).ringCount = 0xFFFFFFFF :=
    Lib.observed (connectRun ++ [.call 2 .write { r9 := 1, r10 := 0xFFFFFFFFFFFFFFFF }])
      isBoot_empty
      (by decide +kernel)
  have hsound : (s.tab 2).ringCount.toNat ≤ 4096 := (h s hs 2).sound.count
  rw [hcount] at hsound
  exact absurd hsound (by decide)

end Sockets

end Robu
