import Robu.Channel.Stream
import Robu.Lib.Handles
import Robu.Lib.Ring

/-!
# Pairs of sockets

A socket records its peer as a slot with a generation, and so does the backlog of a listener
record its clients.  The slots are used again, so what such a record names can be gone, or be
another socket with the same slot.  As long as no generation wraps, a record that still fits is
right: connected sockets record each other, and the entries of a backlog are clients that have
asked this listener.

`Move` says what a step can do to the table.  The invariant `Refs`, what accepting does and what
closing does are read off it.
-/

namespace Robu

open SockTable (clip enqueue freeSlot_eq_some inUse_of_findOwned modify_of_ne modify_self pair)

namespace Socket

variable {a b : Socket}

def queued (s : Socket) : List SockRef := Lib.ring s.backlog s.backlogTail s.backlogHead

/-- A socket that is bound to something stays so, and one with a peer keeps it. -/
structure Stays (a b : Socket) : Prop where
  bound : a.state ≠ .unbound → b.state ≠ .unbound
  connected : a.state = .connected → b.state = .connected ∧ b.peerIdx = a.peerIdx ∧
    b.peerGen = a.peerGen

/-- A change of an entry that gives nothing back and makes no reference. -/
structure Quiet (a b : Socket) : Prop where
  gen : b.generation = a.generation
  use : a.inUse = true → b.inUse = true ∧ b.peerClosed = a.peerClosed ∧ Stays a b
  connected : b.inUse = true → b.state = .connected → a.inUse = true ∧ a.state = .connected
  queued : b.inUse = true → b.state = .listening →
    ∀ e ∈ b.queued, a.inUse = true ∧ a.state = .listening ∧ e ∈ a.queued

theorem Stays.of_state (h : b.state = a.state) (hidx : b.peerIdx = a.peerIdx)
    (hgen : b.peerGen = a.peerGen) : Stays a b :=
  ⟨fun hne => h ▸ hne, fun hc => ⟨h.trans hc, hidx, hgen⟩⟩

/-- What keeps the references of a socket, and has no new clients. -/
theorem Quiet.of_eq (huse : b.inUse = a.inUse) (hgen : b.generation = a.generation)
    (hclosed : b.peerClosed = a.peerClosed) (hstate : b.state = a.state)
    (hidx : b.peerIdx = a.peerIdx)
    (hpeer : b.peerGen = a.peerGen) (hqueued : ∀ e ∈ b.queued, e ∈ a.queued) : Quiet a b where
  gen := hgen
  use h := ⟨huse.trans h, hclosed, .of_state hstate hidx hpeer⟩
  connected h hc := ⟨huse ▸ h, hstate ▸ hc⟩
  queued h hl e he := ⟨huse ▸ h, hstate ▸ hl, hqueued e he⟩

theorem Quiet.refl (a : Socket) : Quiet a a := .of_eq rfl rfl rfl rfl rfl rfl fun _ => id

theorem quiet_bindPath (path : List (BitVec 8)) : Quiet a (a.bindPath path) :=
  .of_eq rfl rfl rfl rfl rfl rfl fun _ => id

theorem quiet_putBytes (bytes : List (BitVec 8)) (n : BitVec 32) : Quiet a (a.putBytes bytes n) :=
  .of_eq rfl rfl rfl rfl rfl rfl fun _ => id

theorem readLoop_eq (a : Socket) (turns : Nat) :
    ∃ head count, (a.readLoop turns).2 = { a with ringHead := head, ringCount := count } := by
  induction turns generalizing a with
  | zero => exact ⟨_, _, rfl⟩
  | succ turns ih =>
    unfold readLoop
    split
    · exact ⟨_, _, rfl⟩
    · obtain ⟨head, count, hloop⟩ := ih a.advance
      exact ⟨head, count, hloop⟩

theorem quiet_readLoop (turns : Nat) : Quiet a (a.readLoop turns).2 := by
  obtain ⟨head, count, hloop⟩ := a.readLoop_eq turns
  rw [hloop]
  exact .of_eq rfl rfl rfl rfl rfl rfl fun _ => id

theorem quiet_fresh (h : a.inUse = false) (t : Slot) : Quiet a (a.fresh t) where
  gen := rfl
  use huse := by rw [h] at huse; cases huse
  connected _ hc := by cases hc
  queued _ hl := by cases hl

theorem quiet_startListening (h : a.state = .unbound) : Quiet a a.startListening where
  gen := rfl
  use huse := ⟨huse, rfl, fun hne => absurd h hne, fun hc => by rw [h] at hc; cases hc⟩
  connected _ hc := by cases hc
  queued _ _ e he := by
    have hnil : a.startListening.queued = [] := Lib.ring_eq_nil rfl
    rw [hnil] at he
    cases he

theorem quiet_startConnecting (h : a.state = .unbound) : Quiet a a.startConnecting where
  gen := rfl
  use huse := ⟨huse, rfl, fun hne => absurd h hne, fun hc => by rw [h] at hc; cases hc⟩
  connected _ hc := by cases hc
  queued _ hl := by cases hl

theorem quiet_popEntries {k : Nat} (hk : k ≤ (a.backlogTail - a.backlogHead).val) :
    Quiet a (a.popEntries k) :=
  .of_eq rfl rfl rfl rfl rfl rfl fun _ he => Lib.mem_ring_of_drop hk he

end Socket

namespace SockTable

variable {tab tab' : SockTable} {i j p : Fin 32} {C : Finset (Fin 32)}

def slots (tab : SockTable) : Lib.Slots (Fin 32) Nat where
  use i := (tab i).inUse = true
  gen i := (tab i).generation.toNat

theorem quiet_modify {g : Socket → Socket} (h : (tab i).Quiet (g (tab i))) (j : Fin 32) :
    (tab j).Quiet (tab.modify i g j) := by
  rcases eq_or_ne j i with rfl | hji
  · rwa [modify_self]
  · rw [modify_of_ne hji]
    exact .refl _

/-! ## Closing -/

/-- The sockets in `C` are closed, and exactly their peers are told. -/
structure Closed (C : Finset (Fin 32)) (tab tab' : SockTable) : Prop where
  closed : ∀ i ∈ C, (tab i).inUse = true ∧ (tab' i).inUse = false ∧
    (tab' i).generation = (tab i).generation + 1
  told : ∀ i ∉ C, tab' i = tab i ∧ (∀ c ∈ C, tab.closePeer c ≠ some i) ∨
    tab' i = (tab i).markClosed ∧ ∃ c ∈ C, tab.closePeer c = some i

theorem closePeer_eq_some :
    tab.closePeer i = some p ↔ (tab i).state = .connected ∧ (tab i).peerIdx = some p ∧
      (tab p).inUse = true ∧ (tab p).generation = (tab i).peerGen := by
  unfold closePeer
  split
  · rename_i hstate
    rw [livePeer_eq_some]
    exact ⟨fun h => ⟨hstate, h⟩, fun h => h.2⟩
  · rename_i hstate
    exact ⟨fun h => (by cases h), fun h => absurd h.1 hstate⟩

theorem Closed.refl (tab : SockTable) : Closed ∅ tab tab :=
  ⟨fun i hi => by simp at hi, fun i _ => .inl ⟨rfl, fun c hc => by simp at hc⟩⟩

theorem Closed.of_notMem (h : Closed C tab tab') (hi : i ∉ C) :
    tab' i = { tab i with peerClosed := (tab' i).peerClosed } := by
  rcases h.told i hi with ⟨heq, -⟩ | ⟨heq, -⟩ <;> rw [heq]
  rfl

/-- The peer to tell is the same after other sockets were closed, if it is still there. -/
theorem Closed.closePeer (h : Closed C tab tab') (hi : i ∉ C) :
    tab'.closePeer i = some p ↔ p ∉ C ∧ tab.closePeer i = some p := by
  rw [closePeer_eq_some, closePeer_eq_some, h.of_notMem hi]
  by_cases hp : p ∈ C
  · refine ⟨fun hc => ?_, fun hc => absurd hp hc.1⟩
    have hgone := (h.closed p hp).2.1
    rw [hc.2.2.1] at hgone
    cases hgone
  · rw [h.of_notMem hp]
    exact ⟨fun hc => ⟨hp, hc⟩, fun hc => hc.2⟩

theorem release_of_ne (hji : j ≠ i) :
    tab.release i j = if tab.closePeer i = some j then (tab j).markClosed else tab j := by
  unfold release
  cases hp : tab.closePeer i with
  | none => exact modify_of_ne hji ..
  | some p =>
    dsimp only
    rw [modify_of_ne hji]
    rcases eq_or_ne j p with rfl | hjp
    · rw [modify_self, if_pos rfl]
    · rw [modify_of_ne hjp, if_neg (fun hc => hjp (Option.some.inj hc).symm)]

theorem release_self (tab : SockTable) (i : Fin 32) :
    (tab.release i i).inUse = false ∧ (tab.release i i).generation = (tab i).generation + 1 := by
  unfold release
  cases tab.closePeer i with
  | none =>
    dsimp only
    rw [modify_self]
    exact ⟨rfl, rfl⟩
  | some p =>
    dsimp only
    rw [modify_self]
    refine ⟨rfl, ?_⟩
    rcases eq_or_ne i p with rfl | hip
    · rw [modify_self]
      rfl
    · rw [modify_of_ne hip]
      rfl

/-- One more socket is closed, and its peer is told. -/
theorem Closed.release (h : Closed C tab tab') (hi : i ∉ C) (huse : (tab' i).inUse = true) :
    Closed (insert i C) tab (tab'.release i) where
  closed j hj := by
    rcases eq_or_ne j i with rfl | hji
    · have hsame := h.of_notMem hi
      obtain ⟨hfree, hgen⟩ := release_self tab' j
      rw [hsame] at huse
      refine ⟨huse, hfree, ?_⟩
      rw [hgen, hsame]
    · have hjC := (Finset.mem_insert.mp hj).resolve_left hji
      obtain ⟨hused, hfree, hgen⟩ := h.closed j hjC
      have hnot : tab'.closePeer i ≠ some j := fun hc => ((h.closePeer hi).mp hc).1 hjC
      rw [release_of_ne hji, if_neg hnot]
      exact ⟨hused, hfree, hgen⟩
  told j hj := by
    rw [Finset.mem_insert, not_or] at hj
    obtain ⟨hji, hjC⟩ := hj
    have hmark : ∀ s : Socket, s.markClosed.markClosed = s.markClosed := fun _ => rfl
    rw [release_of_ne hji]
    by_cases hpeer : tab.closePeer i = some j
    · -- the peer of the socket that is closed now
      have hpeer' := (h.closePeer hi).mpr ⟨hjC, hpeer⟩
      refine .inr ⟨?_, i, Finset.mem_insert_self .., hpeer⟩
      rw [if_pos hpeer']
      rcases h.told j hjC with ⟨heq, -⟩ | ⟨heq, -⟩ <;> rw [heq]
      exact hmark _
    · have hpeer' : tab'.closePeer i ≠ some j := fun hc => hpeer ((h.closePeer hi).mp hc).2
      rw [if_neg hpeer']
      rcases h.told j hjC with ⟨heq, hno⟩ | ⟨heq, c, hc, hcj⟩
      · refine .inl ⟨heq, fun c hc => ?_⟩
        rcases Finset.mem_insert.mp hc with rfl | hc
        · exact hpeer
        · exact hno c hc
      · exact .inr ⟨heq, c, Finset.mem_insert_of_mem hc, hcj⟩

/-- **Cleanup.**  The death of a thread closes some sockets. -/
theorem closed_sockCleanupForProcess (tab : SockTable) (t : Slot) :
    ∃ C, Closed C tab (tab.sockCleanupForProcess t) := by
  -- a socket that was closed is not in use, so it is not closed twice
  have hloop : ∀ (l : List (Fin 32)) (C : Finset (Fin 32)) (tab' : SockTable), Closed C tab tab' →
      ∃ C, Closed C tab (l.foldl (fun tab i =>
        if (tab i).inUse = false ∨ (tab i).ownerTid ≠ t then tab else tab.release i) tab') := by
    intro l
    induction l with
    | nil => exact fun C tab' h => ⟨C, h⟩
    | cons i l ih =>
      intro C tab' h
      rw [List.foldl_cons]
      split
      · exact ih C tab' h
      rename_i hmine
      rw [not_or, Bool.not_eq_false] at hmine
      have hi : i ∉ C := by
        intro hi
        have hgone := (h.closed i hi).2.1
        rw [hmine.1] at hgone
        cases hgone
      exact ih _ _ (h.release hi hmine.1)
  exact hloop _ ∅ tab (.refl tab)

end SockTable

namespace Sockets

variable {s s' : Sockets} {i l c server : Fin 32} {e r : SockRef} {C : Finset (Fin 32)}

/-! ## What a step can do -/

/-- The socket `i` asks the listener `l`. -/
structure Connects (s s' : Sockets) (i l : Fin 32) : Prop where
  client : (s.tab i).inUse = true ∧ (s.tab i).state = .unbound
  listener : (s.tab l).inUse = true ∧ (s.tab l).state = .listening
  room : (s.tab l).backlogTail + 1 ≠ (s.tab l).backlogHead
  entry : s'.tab l = (s.tab l).queue (s.ref i)
  connecting : s'.tab i = (s.tab i).startConnecting
  others : ∀ j ≠ l, (s.tab j).Quiet (s'.tab j)
  asked : s'.asked = Function.update s.asked i (some (s.ref l))
  pairs : s'.pairs = s.pairs

/-- The first client `c` in the backlog of `l` that is still there is paired with a socket that was
not in use. -/
structure Accepts (s s' : Sockets) (l c server : Fin 32) : Prop where
  listener : (s.tab l).inUse = true ∧ (s.tab l).state = .listening
  client : (s.tab c).inUse = true ∧ (s.tab c).state = .connecting
  entry : s.ref c ∈ (s.tab l).queued
  free : (s.tab server).inUse = false
  serves : ∃ t, s'.tab server = (s.tab server).serve t (s.ref c)
  paired : s'.tab c = (s.tab c).pairWith (s.ref server)
  others : ∀ j, j ≠ server → j ≠ c → (s.tab j).Quiet (s'.tab j)
  asked : ∀ j, (s.tab j).inUse = true → s'.asked j = s.asked j
  pairs : s'.pairs = ⟨s.ref l, s.ref c, s.ref server⟩ :: s.pairs

inductive Move (s s' : Sockets) : Prop
  | quiet (tab : ∀ i, (s.tab i).Quiet (s'.tab i))
      (asked : ∀ i, (s.tab i).inUse = true → s'.asked i = s.asked i) (pairs : s'.pairs = s.pairs)
  | connect (i l : Fin 32) (h : s.Connects s' i l)
  | accept (l c server : Fin 32) (h : s.Accepts s' l c server)
  | close (C : Finset (Fin 32)) (tab : SockTable.Closed C s.tab s'.tab) (asked : s'.asked = s.asked)
      (pairs : s'.pairs = s.pairs)

theorem Move.refl (s : Sockets) : Move s s := .quiet (fun _ => .refl _) (fun _ _ => rfl) rfl

theorem Move.modify {g : Socket → Socket} (h : (s.tab i).Quiet (g (s.tab i)))
    (htab : s'.tab = s.tab.modify i g)
    (hasked : ∀ i, (s.tab i).inUse = true → s'.asked i = s.asked i)
    (hpairs : s'.pairs = s.pairs) : Move s s' :=
  .quiet (fun j => by rw [htab]; exact SockTable.quiet_modify h j) hasked hpairs

theorem asked_renew (h : (s.tab server).inUse = false) (hi : (s.tab i).inUse = true) :
    (s.renew server).asked i = s.asked i := by
  refine Function.update_of_ne ?_ ..
  rintro rfl
  rw [hi] at h
  cases h

theorem connects_enqueue (hi : (s.tab i).inUse = true ∧ (s.tab i).state = .unbound)
    (hl : (s.tab l).inUse = true ∧ (s.tab l).state = .listening)
    (hroom : (s.tab l).backlogTail + 1 ≠ (s.tab l).backlogHead) :
    s.Connects { s with
        tab := s.tab.enqueue l i
        asked := Function.update s.asked i (some (s.ref l)) } i l := by
  have hne : l ≠ i := by
    rintro rfl
    rw [hi.2] at hl
    cases hl.2
  have hclient : s.tab.enqueue l i i = (s.tab i).startConnecting := by
    rw [enqueue, modify_self, modify_of_ne hne.symm]
  refine ⟨hi, hl, hroom, ?_, hclient, fun j hj => ?_, rfl, rfl⟩
  · show s.tab.enqueue l i l = _
    rw [enqueue, modify_of_ne hne, modify_self]
    rfl
  · show (s.tab j).Quiet (s.tab.enqueue l i j)
    rcases eq_or_ne j i with rfl | hji
    · rw [hclient]
      exact Socket.quiet_startConnecting hi.2
    · rw [enqueue, modify_of_ne hji, modify_of_ne hj]
      exact .refl _

theorem move_accept {t : Slot} {f : Uctx} (h : step s (.call t .accept f) = some s') :
    Move s s' := by
  rcases accept_cases h with rfl | ⟨l, hl, hlistening, hs⟩
  · exact .refl _
  obtain ⟨k, hk, htab, hfind⟩ := s.tab.nextClient_spec l (s.tab.waiting l)
  have hused := inUse_of_findOwned hl
  rcases hs with rfl | ⟨c, tab, server, hnext, hfree, hne, rfl⟩
  · exact .modify (Socket.quiet_popEntries hk) htab (fun _ _ => rfl) rfl
  rw [hnext] at htab hfind
  have htab : tab = s.tab.modify l (·.popEntries k) := htab
  obtain ⟨j, hj, hslot, hwaits⟩ := hfind c rfl
  obtain ⟨huse, hgen, hstate⟩ := hwaits
  rw [hslot] at huse hgen hstate
  have hentry : s.ref c ∈ (s.tab l).queued := by
    refine List.mem_map.mpr ⟨j, List.mem_range.mpr ?_, ?_⟩
    · exact Nat.lt_of_lt_of_le (by omega) hk
    · rw [ref, hgen, ← hslot]
  -- the listener is in use and is not a client, so only its backlog is touched
  have hlc : c ≠ l := by
    rintro rfl
    rw [hlistening] at hstate
    cases hstate
  have hls : server ≠ l := by
    rintro rfl
    have hno := freeSlot_eq_some hfree
    rw [htab, modify_self] at hno
    exact absurd (hno.symm.trans hused) (by decide)
  have hserver : tab server = s.tab server := by rw [htab, modify_of_ne hls]
  have hclient : tab c = s.tab c := by rw [htab, modify_of_ne hlc]
  have hnot : (s.tab server).inUse = false := hserver ▸ freeSlot_eq_some hfree
  refine .accept l c server ⟨⟨hused, hlistening⟩, ⟨huse, hstate⟩, hentry, hnot, ⟨t, ?_⟩, ?_,
    fun i his hic => ?_, fun i hi => asked_renew hnot hi, ?_⟩
  · show tab.pair t server c server = _
    rw [pair, modify_of_ne hne, modify_self, hserver, hclient]
    rfl
  · show tab.pair t server c c = _
    rw [pair, modify_self, modify_of_ne hne.symm, hserver, hclient]
    rfl
  · show (s.tab i).Quiet (tab.pair t server c i)
    rw [pair, modify_of_ne hic, modify_of_ne his, htab]
    exact SockTable.quiet_modify (Socket.quiet_popEntries hk) i
  · rw [hserver, hclient]
    rfl

/-- **Steps.**  Every operation is one of the moves. -/
theorem move_of_step {op : Op} (h : step s op = some s') : Move s s' := by
  cases op with
  | exit t =>
    cases h
    obtain ⟨C, hC⟩ := s.tab.closed_sockCleanupForProcess t
    exact .close C hC rfl rfl
  | call t c f =>
    cases c with
    | create =>
      rcases create_cases h with rfl | ⟨i, hi, rfl⟩
      · exact .refl _
      · have hfree := freeSlot_eq_some hi
        exact .modify (g := fun p => p.fresh t) (Socket.quiet_fresh hfree t) rfl
          (fun _ hj => asked_renew hfree hj) rfl
    | bind =>
      rcases bind_cases h with rfl | ⟨i, -, -, rfl⟩
      · exact .refl _
      · exact .modify (g := fun p => p.bindPath (SockTable.pathBytes f))
          (Socket.quiet_bindPath _) rfl
          (fun _ _ => rfl) rfl
    | listen =>
      rcases listen_cases h with rfl | ⟨i, -, hstate, rfl⟩
      · exact .refl _
      · exact .modify (Socket.quiet_startListening hstate) rfl (fun _ _ => rfl) rfl
    | connect =>
      rcases connect_cases h with rfl | ⟨i, l, hi, hstate, hl, hroom, rfl⟩
      · exact .refl _
      · exact .connect i l (connects_enqueue ⟨inUse_of_findOwned hi, hstate⟩
          (SockTable.findListener_eq_some hl) hroom)
    | accept => exact move_accept h
    | read =>
      rcases read_cases h with rfl | ⟨i, buf, -, -, -, rfl⟩
      · exact .refl _
      · exact .modify (g := fun p => (p.readLoop (clip f.r10 40).toInt.toNat).2)
          (Socket.quiet_readLoop _) rfl (fun _ _ => rfl) rfl
    | write =>
      rcases write_cases h with rfl | ⟨i, p, n, -, -, -, -, rfl⟩
      · exact .refl _
      · exact .modify
          (g := fun q => q.putBytes (SockTable.writeBytes f) (q.room (clip f.r10 24)))
          (Socket.quiet_putBytes _ _) rfl (fun _ _ => rfl) rfl
    | close =>
      rcases close_cases h with rfl | ⟨i, hi, rfl⟩
      · exact .refl _
      · have hused := inUse_of_findOwned hi
        exact .close _ ((SockTable.Closed.refl s.tab).release (Finset.notMem_empty i) hused) rfl rfl

/-! ## The references -/

/-- A socket has a peer, which records it in turn if it is still there. -/
def Peered (s : Sockets) (i : Fin 32) : Prop :=
  ∃ p, (s.tab i).peerIdx = some p ∧ s.tab.slots.Issued p (s.tab i).peerGen.toNat ∧
    ((s.tab p).inUse = true → (s.tab p).generation = (s.tab i).peerGen →
      (s.tab p).state = .connected ∧ (s.tab p).peerIdx = some i ∧
        (s.tab p).peerGen = (s.tab i).generation) ∧
    ∃ r ∈ s.pairs, r.client = s.ref i ∧ r.server = ⟨p, (s.tab i).peerGen⟩ ∨
      r.server = s.ref i ∧ r.client = ⟨p, (s.tab i).peerGen⟩

/-- A client in the backlog of a listener has asked it, if it is still there. -/
def Asks (s : Sockets) (l : Fin 32) (e : SockRef) : Prop :=
  s.tab.slots.Issued e.slot e.gen.toNat ∧
    ((s.tab e.slot).inUse = true → (s.tab e.slot).generation = e.gen →
      (s.tab e.slot).state ≠ .unbound ∧ s.asked e.slot = some (s.ref l))

def Ended (s : Sockets) (r : SockRef) : Prop :=
  s.tab.slots.Issued r.slot r.gen.toNat ∧
    ((s.tab r.slot).inUse = true → (s.tab r.slot).generation = r.gen →
      (s.tab r.slot).state = .connected)

def ends (s : Sockets) : List SockRef := s.pairs.flatMap fun r => [r.client, r.server]

structure Refs (s : Sockets) : Prop where
  peer : ∀ i, (s.tab i).inUse = true → (s.tab i).state = .connected → s.Peered i
  queued : ∀ l, (s.tab l).inUse = true → (s.tab l).state = .listening →
    ∀ e ∈ (s.tab l).queued, s.Asks l e
  ends : ∀ r ∈ s.ends, s.Ended r
  nodup : s.ends.Nodup

/-- What all steps have in common: a socket that stays in use keeps its references. -/
structure Evolves (s s' : Sockets) : Prop where
  ages : s.tab.slots.Ages s'.tab.slots
  stays : ∀ i, (s.tab i).inUse = true → (s'.tab i).generation = (s.tab i).generation →
    (s.tab i).Stays (s'.tab i) ∧ ((s.tab i).state ≠ .unbound → s'.asked i = s.asked i)
  pairs : ∀ r ∈ s.pairs, r ∈ s'.pairs

/-- A reference that fits after a step did so before, and nothing has happened to its socket. -/
theorem Evolves.back (h : Evolves s s') (hissued : s.tab.slots.Issued r.slot r.gen.toNat)
    (huse : (s'.tab r.slot).inUse = true) (hgen : (s'.tab r.slot).generation = r.gen) :
    (s.tab r.slot).inUse = true ∧ (s.tab r.slot).generation = r.gen ∧
      (s.tab r.slot).Stays (s'.tab r.slot) ∧
      ((s.tab r.slot).state ≠ .unbound → s'.asked r.slot = s.asked r.slot) := by
  have hlive := hissued.live_of_ages h.ages ⟨huse, congrArg BitVec.toNat hgen⟩
  have hgen' : (s.tab r.slot).generation = r.gen := BitVec.eq_of_toNat_eq hlive.2
  exact ⟨hlive.1, hgen', h.stays _ hlive.1 (hgen.trans hgen'.symm)⟩

theorem Peered.evolve (h : s.Peered i) (hev : Evolves s s') (huse : (s.tab i).inUse = true)
    (hstate : (s.tab i).state = .connected) (hgen : (s'.tab i).generation = (s.tab i).generation) :
    s'.Peered i := by
  obtain ⟨p, hidx, hissued, hback, r, hr, hends⟩ := h
  obtain ⟨-, hidx', hpeer'⟩ := (hev.stays i huse hgen).1.connected hstate
  have href : s'.ref i = s.ref i := by rw [ref, ref, hgen]
  refine ⟨p, hidx'.trans hidx, ?_, fun hp hpgen => ?_, r, hev.pairs r hr, ?_⟩
  · rw [hpeer']
    exact hissued.ages hev.ages
  · rw [hpeer'] at hpgen
    obtain ⟨hp', hpgen', hstays, -⟩ := hev.back (r := ⟨p, (s.tab i).peerGen⟩) hissued hp hpgen
    obtain ⟨hconn, hpi, hpg⟩ := hback hp' hpgen'
    obtain ⟨hconn', hpi', hpg'⟩ := hstays.connected hconn
    exact ⟨hconn', hpi'.trans hpi, by rw [hpg', hpg, hgen]⟩
  · rwa [href, hpeer']

theorem Asks.evolve (h : s.Asks l e) (hev : Evolves s s')
    (hgen : (s'.tab l).generation = (s.tab l).generation) : s'.Asks l e := by
  refine ⟨h.1.ages hev.ages, fun huse hegen => ?_⟩
  obtain ⟨huse', hegen', hstays, hasked⟩ := hev.back h.1 huse hegen
  obtain ⟨hbound, hask⟩ := h.2 huse' hegen'
  have href : s'.ref l = s.ref l := by rw [ref, ref, hgen]
  exact ⟨hstays.bound hbound, by rw [hasked hbound, hask, href]⟩

theorem Ended.evolve (h : s.Ended r) (hev : Evolves s s') : s'.Ended r := by
  refine ⟨h.1.ages hev.ages, fun huse hgen => ?_⟩
  obtain ⟨huse', hgen', hstays, -⟩ := hev.back h.1 huse hgen
  exact (hstays.connected (h.2 huse' hgen')).1

/-! ## A step keeps the references -/

theorem Evolves.of_use (hgen : ∀ j, (s'.tab j).generation = (s.tab j).generation)
    (huse : ∀ j, (s.tab j).inUse = true → (s'.tab j).inUse = true ∧ (s.tab j).Stays (s'.tab j))
    (hasked : ∀ j, (s.tab j).inUse = true → (s.tab j).state ≠ .unbound → s'.asked j = s.asked j)
    (hpairs : ∀ r ∈ s.pairs, r ∈ s'.pairs) : Evolves s s' where
  ages := ⟨fun j => le_of_eq (congrArg BitVec.toNat (hgen j).symm), fun j _ hj => (huse j hj).1⟩
  stays j hj _ := ⟨(huse j hj).2, hasked j hj⟩
  pairs := hpairs

theorem Connects.gen (h : s.Connects s' i l) (j : Fin 32) :
    (s'.tab j).generation = (s.tab j).generation := by
  rcases eq_or_ne j l with rfl | hj
  · rw [h.entry]
    rfl
  · exact (h.others j hj).gen

theorem Connects.use (h : s.Connects s' i l) (j : Fin 32) (hj : (s.tab j).inUse = true) :
    (s'.tab j).inUse = true ∧ (s'.tab j).peerClosed = (s.tab j).peerClosed ∧
      (s.tab j).Stays (s'.tab j) := by
  rcases eq_or_ne j l with rfl | hne
  · rw [h.entry]
    exact ⟨hj, rfl, .of_state rfl rfl rfl⟩
  · exact (h.others j hne).use hj

theorem Connects.evolves (h : s.Connects s' i l) : Evolves s s' := by
  refine .of_use h.gen (fun j hj => ⟨(h.use j hj).1, (h.use j hj).2.2⟩)
    (fun j _ hstate => ?_) fun r hr => h.pairs ▸ hr
  rw [h.asked]
  refine Function.update_of_ne ?_ ..
  rintro rfl
  exact hstate h.client.2

theorem Accepts.server_ne (h : s.Accepts s' l c server) : server ≠ c := by
  rintro rfl
  exact absurd (h.free.symm.trans h.client.1) (by decide)

theorem Accepts.gen (h : s.Accepts s' l c server) (j : Fin 32) :
    (s'.tab j).generation = (s.tab j).generation := by
  rcases eq_or_ne j server with rfl | hserver
  · obtain ⟨t, ht⟩ := h.serves
    rw [ht]
    rfl
  · rcases eq_or_ne j c with rfl | hc
    · rw [h.paired]
      rfl
    · exact (h.others j hserver hc).gen

theorem Accepts.use (h : s.Accepts s' l c server) (j : Fin 32) (hj : (s.tab j).inUse = true) :
    (s'.tab j).inUse = true ∧ (s'.tab j).peerClosed = (s.tab j).peerClosed ∧
      (s.tab j).Stays (s'.tab j) := by
  have hserver : j ≠ server := by
    rintro rfl
    exact absurd (h.free.symm.trans hj) (by decide)
  rcases eq_or_ne j c with rfl | hc
  · rw [h.paired]
    refine ⟨hj, rfl, fun _ hno => (by cases hno), fun hstate => ?_⟩
    rw [h.client.2] at hstate
    cases hstate
  · exact (h.others j hserver hc).use hj

theorem Accepts.evolves (h : s.Accepts s' l c server) : Evolves s s' :=
  .of_use h.gen (fun j hj => ⟨(h.use j hj).1, (h.use j hj).2.2⟩) (fun j hj _ => h.asked j hj)
    fun r hr => by rw [h.pairs]; exact .tail _ hr

/-- Closing makes the generation of a slot grow, if it does not wrap. -/
theorem evolves_of_closed (h : SockTable.Closed C s.tab s'.tab)
    (hle : ∀ i, (s.tab i).generation ≤ (s'.tab i).generation) (hasked : s'.asked = s.asked)
    (hpairs : s'.pairs = s.pairs) : Evolves s s' := by
  have hnew : ∀ i ∈ C, (s'.tab i).generation ≠ (s.tab i).generation := by
    intro i hi heq
    rw [(h.closed i hi).2.2] at heq
    bv_omega
  refine ⟨⟨fun i => BitVec.le_def.mp (hle i), fun i hgen huse => ?_⟩, fun i huse hgen =>
    ?_, fun r hr => hpairs ▸ hr⟩
  · have hi : i ∉ C := fun hi => hnew i hi (BitVec.eq_of_toNat_eq hgen).symm
    show (s'.tab i).inUse = true
    rw [h.of_notMem hi]
    exact huse
  · have hi : i ∉ C := fun hi => hnew i hi hgen
    rw [h.of_notMem hi, hasked]
    exact ⟨.of_state rfl rfl rfl, fun _ => rfl⟩

/-- References stay right when a client asks. -/
theorem Refs.connect (h : s.Refs) (hc : s.Connects s' i l) : s'.Refs := by
  have hev := hc.evolves
  have hends : s'.ends = s.ends := by rw [Sockets.ends, hc.pairs, Sockets.ends]
  refine ⟨fun j huse hstate => ?_, fun j huse hstate e he => ?_, fun r hr => ?_, hends ▸ h.nodup⟩
  · have hj : j ≠ l := by
      rintro rfl
      rw [hc.entry] at hstate
      exact absurd (hc.listener.2.symm.trans hstate) (by decide)
    obtain ⟨huse', hstate'⟩ := (hc.others j hj).connected huse hstate
    exact (h.peer j huse' hstate').evolve hev huse' hstate' (hc.gen j)
  · rcases eq_or_ne j l with rfl | hj
    · have hqueue : (s'.tab j).queued = (s.tab j).queued ++ [s.ref i] := by
        rw [hc.entry]
        exact Lib.ring_push hc.room
      rw [hqueue, List.mem_append, List.mem_singleton] at he
      rcases he with he | rfl
      · exact (h.queued j hc.listener.1 hc.listener.2 e he).evolve hev (hc.gen j)
      -- the client that has just come
      have huse' := (hc.use i hc.client.1).1
      refine ⟨Lib.Slots.Live.issued ⟨huse', congrArg BitVec.toNat (hc.gen i)⟩, fun _ _ => ⟨?_, ?_⟩⟩
      · show (s'.tab i).state ≠ .unbound
        rw [hc.connecting]
        exact fun hno => by cases hno
      · show s'.asked i = some (s'.ref j)
        rw [hc.asked, Function.update_self, ref, ref, hc.gen j]
    · obtain ⟨huse', hstate', he'⟩ := (hc.others j hj).queued huse hstate e he
      exact (h.queued j huse' hstate' e he').evolve hev (hc.gen j)
  · exact (h.ends r (hends ▸ hr)).evolve hev

/-- References stay right when a pair is made. -/
theorem Refs.accept (h : s.Refs) (ha : s.Accepts s' l c server) : s'.Refs := by
  have hev := ha.evolves
  obtain ⟨t, hserver⟩ := ha.serves
  have hlive : ∀ j, (s'.tab j).inUse = true →
    s'.tab.slots.Issued (s.ref j).slot (s.ref j).gen.toNat :=
    fun j hj => Lib.Slots.Live.issued ⟨hj, congrArg BitVec.toNat (ha.gen j)⟩
  have href : ∀ j, s'.ref j = s.ref j := fun j => by rw [ref, ref, ha.gen j]
  have huseS : (s'.tab server).inUse = true := by rw [hserver]; rfl
  have huseC : (s'.tab c).inUse = true := (ha.use c ha.client.1).1
  have hstateS : (s'.tab server).state = .connected := by rw [hserver]; rfl
  have hstateC : (s'.tab c).state = .connected := by rw [ha.paired]; rfl
  have hpair : (⟨s.ref l, s.ref c, s.ref server⟩ : SockPair) ∈ s'.pairs := by
    rw [ha.pairs]
    exact .head _
  have hends : s'.ends = s.ref c :: s.ref server :: s.ends := by
    rw [Sockets.ends, ha.pairs]
    rfl
  refine ⟨fun j huse hstate => ?_, fun j huse hstate e he => ?_, fun r hr => ?_, ?_⟩
  · rcases eq_or_ne j server with rfl | hjs
    · refine ⟨c, by rw [hserver]; rfl, ?_, fun _ _ => ⟨hstateC, ?_,
        ?_⟩, _, hpair, .inr ⟨(href j).symm, ?_⟩⟩
      · rw [hserver]
        exact hlive c huseC
      · rw [ha.paired]
        rfl
      · rw [ha.paired, ha.gen j]
        rfl
      · rw [hserver]
        rfl
    · rcases eq_or_ne j c with rfl | hjc
      · refine ⟨server, by rw [ha.paired]; rfl, ?_, fun _ _ => ⟨hstateS, ?_,
          ?_⟩, _, hpair, .inl ⟨(href j).symm, ?_⟩⟩
        · rw [ha.paired]
          exact hlive server huseS
        · rw [hserver]
          rfl
        · rw [hserver, ha.gen j]
          rfl
        · rw [ha.paired]
          rfl
      · obtain ⟨huse', hstate'⟩ := (ha.others j hjs hjc).connected huse hstate
        exact (h.peer j huse' hstate').evolve hev huse' hstate' (ha.gen j)
  · have hjs : j ≠ server := by
      rintro rfl
      exact absurd (hstateS.symm.trans hstate) (by decide)
    have hjc : j ≠ c := by
      rintro rfl
      exact absurd (hstateC.symm.trans hstate) (by decide)
    obtain ⟨huse', hstate', he'⟩ := (ha.others j hjs hjc).queued huse hstate e he
    exact (h.queued j huse' hstate' e he').evolve hev (ha.gen j)
  · rw [hends, List.mem_cons, List.mem_cons] at hr
    rcases hr with rfl | rfl | hr
    · exact ⟨hlive c huseC, fun _ _ => hstateC⟩
    · exact ⟨hlive server huseS, fun _ _ => hstateS⟩
    · exact (h.ends r hr).evolve hev
  · rw [hends, List.nodup_cons, List.nodup_cons, List.mem_cons, not_or]
    refine ⟨⟨fun heq => ha.server_ne (congrArg SockRef.slot heq).symm, fun hold => ?_⟩, fun hold =>
      ?_, h.nodup⟩
    · -- a client that was paired before is connected
      have hconn := (h.ends _ hold).2 ha.client.1 rfl
      exact absurd (ha.client.2.symm.trans hconn) (by decide)
    · have hfree : ¬ s.tab.slots.use server := by
        show ¬ (s.tab server).inUse = true
        rw [ha.free]
        decide
      exact (h.ends _ hold).1.ne_gen hfree rfl

theorem Refs.close (h : s.Refs) (hC : SockTable.Closed C s.tab s'.tab) (hev : Evolves s s')
    (hpairs : s'.pairs = s.pairs) : s'.Refs := by
  have hends : s'.ends = s.ends := by rw [Sockets.ends, hpairs, Sockets.ends]
  have hopen : ∀ j, (s'.tab j).inUse = true → j ∉ C := by
    intro j huse hj
    exact absurd ((hC.closed j hj).2.1.symm.trans huse) (by decide)
  refine ⟨fun j huse hstate => ?_, fun j huse hstate e he => ?_, fun r hr => ?_, hends ▸ h.nodup⟩
  · have hj := hC.of_notMem (hopen j huse)
    rw [hj] at huse hstate
    exact (h.peer j huse hstate).evolve hev huse hstate (by rw [hj])
  · have hj := hC.of_notMem (hopen j huse)
    rw [hj] at huse hstate he
    exact (h.queued j huse hstate e he).evolve hev (by rw [hj])
  · exact (h.ends r (hends ▸ hr)).evolve hev

theorem Refs.quiet (h : s.Refs) (hq : ∀ i, (s.tab i).Quiet (s'.tab i))
    (hasked : ∀ i, (s.tab i).inUse = true → s'.asked i = s.asked i) (hpairs : s'.pairs = s.pairs) :
    s'.Refs := by
  have hev : Evolves s s' :=
    .of_use (fun j => (hq j).gen) (fun j hj => ⟨((hq j).use hj).1, ((hq j).use hj).2.2⟩)
    (fun j hj _ => hasked j hj) fun r hr => hpairs ▸ hr
  have hends : s'.ends = s.ends := by rw [Sockets.ends, hpairs, Sockets.ends]
  refine ⟨fun j huse hstate => ?_, fun j huse hstate e he => ?_, fun r hr => ?_, hends ▸ h.nodup⟩
  · obtain ⟨huse', hstate'⟩ := (hq j).connected huse hstate
    exact (h.peer j huse' hstate').evolve hev huse' hstate' (hq j).gen
  · obtain ⟨huse', hstate', he'⟩ := (hq j).queued huse hstate e he
    exact (h.queued j huse' hstate' e he').evolve hev (hq j).gen
  · exact (h.ends r (hends ▸ hr)).evolve hev

theorem Refs.move (h : s.Refs) (hm : Move s s')
    (hle : ∀ i, (s.tab i).generation ≤ (s'.tab i).generation) : s'.Refs := by
  cases hm with
  | quiet htab hasked hpairs => exact h.quiet htab hasked hpairs
  | connect i l hc => exact h.connect hc
  | accept l c server ha => exact h.accept ha
  | close C hC hasked hpairs => exact h.close hC (evolves_of_closed hC hle hasked hpairs) hpairs

/-! ## The pairs -/

def NoWrap (s : Sockets) (op : Op) : Prop :=
  ∀ s' ∈ step s op, ∀ i, (s.tab i).generation ≤ (s'.tab i).generation

instance : ∀ s op, Decidable (NoWrap s op) := fun _ _ => Option.decidableForallMem ..

/-- Connected sockets record each other while both are there, and were paired by an `accept`; no
socket was paired twice. -/
structure Paired (s : Sockets) : Prop where
  symm : ∀ i p, (s.tab i).inUse = true → (s.tab i).state = .connected → (s.tab i).peerIdx = some p →
    (s.tab p).inUse = true → (s.tab p).generation = (s.tab i).peerGen →
      (s.tab p).state = .connected ∧ (s.tab p).peerIdx = some i ∧
        (s.tab p).peerGen = (s.tab i).generation
  noted : ∀ i, (s.tab i).inUse = true → (s.tab i).state = .connected →
    ∃ p, (s.tab i).peerIdx = some p ∧ ∃ r ∈ s.pairs,
      r.client = s.ref i ∧ r.server = ⟨p, (s.tab i).peerGen⟩ ∨ r.server = s.ref i ∧
        r.client = ⟨p, (s.tab i).peerGen⟩
  once : s.ends.Nodup

def Closes (s s' : Sockets) (i : Fin 32) : Prop :=
  (s.tab i).inUse = true ∧
    ¬ ((s'.tab i).inUse = true ∧ (s'.tab i).generation = (s.tab i).generation)

def Tells (s s' : Sockets) : Prop :=
  ∀ p, (s.tab p).inUse = true → ¬ s.Closes s' p →
    ((s'.tab p).peerClosed = true ↔ (s.tab p).peerClosed = true ∨
      ∃ i, s.Closes s' i ∧ (s.tab i).state = .connected ∧ s.tab.livePeer i = some p)

theorem Refs.paired (h : s.Refs) : s.Paired where
  symm i p huse hstate hidx := by
    obtain ⟨q, hq, -, hback, -⟩ := h.peer i huse hstate
    obtain rfl := Option.some.inj (hq.symm.trans hidx)
    exact hback
  noted i huse hstate := by
    obtain ⟨p, hp, -, -, hr⟩ := h.peer i huse hstate
    exact ⟨p, hp, hr⟩
  once := h.nodup

theorem tells_of_use (hgen : ∀ j, (s'.tab j).generation = (s.tab j).generation)
    (huse : ∀ j, (s.tab j).inUse = true → (s'.tab j).inUse = true ∧
      (s'.tab j).peerClosed = (s.tab j).peerClosed) :
    s.Tells s' := by
  intro p hp _
  rw [(huse p hp).2]
  refine ⟨.inl, fun h => h.resolve_right ?_⟩
  rintro ⟨i, ⟨hi, hgone⟩, -⟩
  exact hgone ⟨(huse i hi).1, hgen i⟩

theorem tells_of_closed (h : SockTable.Closed C s.tab s'.tab) : s.Tells s' := by
  have hcloses : ∀ i, s.Closes s' i ↔ i ∈ C := by
    refine fun i => ⟨fun hi => ?_, fun hi => ⟨(h.closed i hi).1, fun hlive => ?_⟩⟩
    · by_contra hno
      refine hi.2 ?_
      rw [h.of_notMem hno]
      exact ⟨hi.1, rfl⟩
    · exact absurd ((h.closed i hi).2.1.symm.trans hlive.1) (by decide)
  have hpeer : ∀ i p, (s.tab i).state = .connected ∧ s.tab.livePeer i = some p ↔
    s.tab.closePeer i = some p := by
    intro i p
    rw [SockTable.closePeer_eq_some, SockTable.livePeer_eq_some]
  intro p hp hopen
  simp only [hcloses] at hopen
  simp only [hcloses, hpeer]
  rcases h.told p hopen with ⟨heq, hno⟩ | ⟨heq, c, hc, hpc⟩
  · rw [heq]
    refine ⟨.inl, fun h => h.resolve_right ?_⟩
    rintro ⟨i, hi, hip⟩
    exact hno i hi hip
  · rw [heq]
    exact ⟨fun _ => .inr ⟨c, hc, hpc⟩, fun _ => rfl⟩

theorem Move.tells (h : Move s s') : s.Tells s' := by
  cases h with
  | quiet htab hasked hpairs =>
    exact tells_of_use (fun j => (htab j).gen) fun j hj =>
      ⟨((htab j).use hj).1, ((htab j).use hj).2.1⟩
  | connect i l hc => exact tells_of_use hc.gen fun j hj => ⟨(hc.use j hj).1, (hc.use j hj).2.1⟩
  | accept l c server ha =>
    exact tells_of_use ha.gen fun j hj => ⟨(ha.use j hj).1, (ha.use j hj).2.1⟩
  | close C hC hasked hpairs => exact tells_of_closed hC

theorem Refs.accepts (h : s.Refs) (hm : Move s s') :
    s'.pairs = s.pairs ∨ ∃ l c server, s.Accepts s' l c server ∧ s.asked c = some (s.ref l) := by
  cases hm with
  | quiet htab hasked hpairs => exact .inl hpairs
  | connect i l hc => exact .inl hc.pairs
  | accept l c server ha =>
    have hasks := h.queued l ha.listener.1 ha.listener.2 _ ha.entry
    exact .inr ⟨l, c, server, ha, (hasks.2 ha.client.1 rfl).2⟩
  | close C hC hasked hpairs => exact .inl hpairs

theorem IsBoot.refs (h : s.IsBoot) : s.Refs := by
  have hfree : ∀ i, ¬ (s.tab i).inUse = true := fun i => by rw [h.tab]; decide
  have hends : s.ends = [] := by rw [Sockets.ends, h.pairs]; rfl
  refine ⟨fun i hi => absurd hi (hfree i), fun l hl => absurd hl (hfree l), fun r hr => ?_, ?_⟩
  · rw [hends] at hr
    cases hr
  · rw [hends]
    exact List.nodup_nil

/-- **Pairing.**  In every run in which no generation wraps: sockets are paired with each other and
once, every step that makes a pair pairs a client that has asked the listener with a socket that was
not in use, and every step tells exactly the peers of the sockets that it closes. -/
theorem paired_of_reach (h : Lib.Reach step NoWrap IsBoot s) :
    s.Paired ∧ ∀ op s', step s op = some s' → s.Tells s' ∧
      (s'.pairs = s.pairs ∨ ∃ l c server, s.Accepts s' l c server ∧
        s.asked c = some (s.ref l)) := by
  have hrefs : s.Refs :=
    h.invariant (fun _ hs => hs.refs) fun _ _ _ hs hok hstep =>
      hs.move (move_of_step hstep) (hok _ hstep)
  exact ⟨hrefs.paired, fun op s' hstep =>
    ⟨(move_of_step hstep).tells, hrefs.accepts (move_of_step hstep)⟩⟩

/-- Thread 1 has accepted a connection of thread 2, which then closes its socket. -/
theorem paired_of_reach_connectRun :
    ∃ s, Lib.run step NoWrap empty (connectRun ++ [.call 2 .close { r9 := 1 }]) = some s ∧
      s.pairs = [⟨⟨0, 0⟩, ⟨1, 0⟩, ⟨2, 0⟩⟩] ∧ (s.tab 2).peerClosed = true ∧ s.Paired :=
  Lib.exists_run₂ isBoot_empty (by decide +kernel) fun hs => (paired_of_reach hs).1

end Sockets

end Robu
