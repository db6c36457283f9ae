import Robu.Kernel.Tcb
import Robu.Lib.Handles
import Robu.Lib.Memory
import Robu.Lib.Run
import Robu.Lib.Window

/-!
# Sockets

`socket.c` and the branches of `sys_ipc` in front of it.  A socket is an entry of a table of 32
with a ring of 4096 bytes that its peer writes to; the number a user holds is the slot with the
generation of the slot, and so are the references to peers and the entries of a listener's
backlog.

`Sockets` adds what a user could have noted down: the bytes that have been read from each socket
and that writes of its peer have reported as accepted, the listener a socket has asked, and the
pairs that were made.  `Sockets.step` is one call or the death of a thread.

This module is the model, with one lemma for each function that says all it can do.  The streams
are the subject of `Robu.Channel.Stream` and the references of `Robu.Channel.Pairing`.
-/

namespace Robu

open Function (update update_eq_self update_idem update_of_ne update_self)

inductive SockState
  | unbound | listening | connecting | connected
deriving DecidableEq

structure SockRef where
  slot : Fin 32
  gen : BitVec 16
deriving DecidableEq

/-- `socket_t`.  An entry of the backlog is one of `backlog_slot` with the one of `backlog_gen`, and
`peerIdx` is `none` for -1. -/
structure Socket where
  inUse : Bool := false
  generation : BitVec 16 := 0
  state : SockState := .unbound
  ownerTid : Slot := 0
  path : List (BitVec 8) := List.replicate 32 0
  hasPath : Bool := false
  backlog : Fin 8 → SockRef := fun _ => ⟨0, 0⟩
  backlogHead : Fin 8 := 0
  backlogTail : Fin 8 := 0
  peerIdx : Option (Fin 32) := some 0
  peerGen : BitVec 16 := 0
  peerClosed : Bool := false
  ring : Fin 4096 → BitVec 8 := fun _ => 0
  ringHead : BitVec 32 := 0
  ringCount : BitVec 32 := 0

abbrev SockTable := Fin 32 → Socket

namespace Socket

variable (s : Socket)

def buffered : List (BitVec 8) := Lib.window s.ring s.ringHead.toNat s.ringCount.toNat

def view : Lib.Ring 4096 (BitVec 8) := ⟨s.ring, s.ringHead, s.ringCount⟩

/-- The loop of `sock_read`, with the number of turns that `max` allows. -/
def readLoop (s : Socket) : Nat → List (BitVec 8) × Socket
  | 0 => ([], s)
  | turns + 1 =>
    if s.ringCount = 0 then ([], s)
    else
      let (bytes, s') := readLoop
        { s with ringHead := (s.ringHead + 1) % 4096, ringCount := s.ringCount - 1 } turns
      (s.ring (Fin.ofNat 4096 s.ringHead.toNat) :: bytes, s')

def space : BitVec 32 := 4096 - s.ringCount

/-- The number of bytes `sock_write` transfers to this ring; all three are `int`. -/
def room (len : BitVec 32) : BitVec 32 := if len.toInt < s.space.toInt then len else s.space

/-- The loop of `sock_write` and the new count. -/
def putBytes (bytes : List (BitVec 8)) (n : BitVec 32) : Socket :=
  let tail := (s.ringHead + s.ringCount) % 4096
  { s with
    ring := Lib.fill s.ring tail.toNat (bytes.take n.toInt.toNat), ringCount := s.ringCount + n }

def fresh (caller : Slot) : Socket :=
  { s with
    inUse := true, state := .unbound, ownerTid := caller, hasPath := false
    backlogHead := 0, backlogTail := 0, peerIdx := none, peerClosed := false, ringHead :=
      0, ringCount := 0 }

def startListening : Socket := { s with state := .listening, backlogHead := 0, backlogTail := 0 }

/-- `sock_connect` at the listener: an entry at the end of the backlog. -/
def queue (client : SockRef) : Socket :=
  { s with backlog := update s.backlog s.backlogTail client, backlogTail := s.backlogTail + 1 }

def startConnecting : Socket := { s with state := .connecting, peerIdx := none }

def popEntry : Socket := { s with backlogHead := s.backlogHead + 1 }

def popEntries (k : Nat) : Socket := { s with backlogHead := s.backlogHead + Fin.ofNat 8 k }

def serve (caller : Slot) (client : SockRef) : Socket :=
  { s with
    inUse := true, state := .connected, ownerTid := caller, hasPath := false, peerClosed := false
    ringHead := 0, ringCount := 0, peerIdx := some client.slot, peerGen := client.gen }

def pairWith (server : SockRef) : Socket :=
  { s with peerIdx := some server.slot, peerGen := server.gen, state := .connected }

def markClosed : Socket := { s with peerClosed := true }

def giveBack : Socket := { s with inUse := false, generation := s.generation + 1 }

end Socket

def pathEq : List (BitVec 8) → List (BitVec 8) → Bool
  | a :: as, b :: bs => if a ≠ b then false else if a = 0 then true else pathEq as bs
  | _, _ => true

/-- The loop of `sock_bind` that copies a path up to its end. -/
def copyPath : List (BitVec 8) → List (BitVec 8) → List (BitVec 8)
  | _ :: old, b :: new => b :: if b = 0 then old else copyPath old new
  | old, _ => old

def Socket.bindPath (s : Socket) (path : List (BitVec 8)) : Socket :=
  { s with path := (copyPath s.path path).set 31 0, hasPath := true }

def makeSockid (slot : Fin 32) (generation : BitVec 16) : BitVec 32 :=
  BitVec.ofNat 32 slot ||| generation.setWidth 32 <<< 8

namespace SockTable

variable (tab : SockTable) (cur : Slot) (f : Uctx)

def modify (i : Fin 32) (g : Socket → Socket) : SockTable := update tab i (g (tab i))

/-! ## The functions of `socket.c` -/

def findSocket (sockid : BitVec 32) : Option (Fin 32) :=
  let slot := (sockid &&& 0xFF).toNat
  if h : slot < 32 then
    if (tab ⟨slot, h⟩).inUse ∧ (tab ⟨slot, h⟩).generation = (sockid >>> 8).setWidth 16 then
      some ⟨slot, h⟩
    else none
  else none

/-- `find_socket` for the calls that only the owner may make. -/
def findOwned (caller : Slot) (sockid : BitVec 32) : Option (Fin 32) :=
  match tab.findSocket sockid with
  | some i => if (tab i).ownerTid = caller then some i else none
  | none => none

def freeSlot : Option (Fin 32) := (List.finRange 32).find? fun i => !(tab i).inUse

def sockCreate (caller : Slot) : (IpcErr × BitVec 32) × SockTable :=
  match tab.freeSlot with
  | none => ((.noSpace, -1), tab)
  | some slot => ((.none, makeSockid slot (tab slot).generation), tab.modify slot (·.fresh caller))

def sockBind (caller : Slot) (sockid : BitVec 32) (path : List (BitVec 8)) : IpcErr × SockTable :=
  match tab.findOwned caller sockid with
  | none => (.notFound, tab)
  | some i =>
    if (tab i).state ≠ .unbound then (.invalid, tab)
    else if (List.finRange 32).any fun j =>
      (tab j).inUse && (tab j).hasPath && pathEq (tab j).path path then
      (.exists_, tab)
    else
      (.none, tab.modify i (·.bindPath path))

def sockListen (caller : Slot) (sockid : BitVec 32) : IpcErr × SockTable :=
  match tab.findOwned caller sockid with
  | none => (.notFound, tab)
  | some i =>
    if (tab i).hasPath = false ∨ (tab i).state ≠ .unbound then (.invalid, tab)
    else (.none, tab.modify i Socket.startListening)

def findListener (path : List (BitVec 8)) : Option (Fin 32) :=
  (List.finRange 32).find? fun j =>
    (tab j).inUse && (tab j).state == .listening && (tab j).hasPath && pathEq (tab j).path path

/-- The stores of `sock_connect`: the client goes to the end of the listener's backlog. -/
def enqueue (listener client : Fin 32) : SockTable :=
  (tab.modify listener (·.queue ⟨client, (tab client).generation⟩)).modify client
    Socket.startConnecting

def sockConnect (caller : Slot) (sockid : BitVec 32) (path : List (BitVec 8)) :
    IpcErr × SockTable :=
  match tab.findOwned caller sockid with
  | none => (.notFound, tab)
  | some i =>
    match (tab i).state with
    | .connected => (.none, tab)
    | .connecting => (if (tab i).peerIdx = none then .wouldblock else .none, tab)
    | .listening => (.invalid, tab)
    | .unbound =>
      match tab.findListener path with
      | none => (.notFound, tab)
      | some j =>
        if (tab j).backlogTail + 1 = (tab j).backlogHead then (.noSpace, tab)
        else (.wouldblock, tab.enqueue j i)

def waiting (listener : Fin 32) : Nat :=
    ((tab listener).backlogTail - (tab listener).backlogHead).val

/-- The loop of `sock_accept`: entries are taken from the backlog up to the first whose client is
still there.  The number of turns is the number of entries, which the loop counts down to 0. -/
def nextClient (tab : SockTable) (listener : Fin 32) : Nat → Option (Fin 32) × SockTable
  | 0 => (none, tab)
  | turns + 1 =>
    let l := tab listener
    let entry := l.backlog l.backlogHead
    let tab := tab.modify listener Socket.popEntry
    if (tab entry.slot).inUse ∧ (tab entry.slot).generation = entry.gen ∧
        (tab entry.slot).state = .connecting then
      (some entry.slot, tab)
    else nextClient tab listener turns

/-- The stores of `sock_accept`: the client is paired with a new socket. -/
def pair (caller : Slot) (server client : Fin 32) : SockTable :=
  (tab.modify server (·.serve caller ⟨client, (tab client).generation⟩)).modify client
    (·.pairWith ⟨server, (tab server).generation⟩)

def sockAccept (caller : Slot) (sockid : BitVec 32) : (IpcErr × BitVec 32) × SockTable :=
  match tab.findOwned caller sockid with
  | none => ((.notFound, -1), tab)
  | some i =>
    if (tab i).state ≠ .listening then ((.invalid, -1), tab)
    else
      match tab.nextClient i (tab.waiting i) with
      | (none, tab) => ((.wouldblock, -1), tab)
      | (some client, tab) =>
        match tab.freeSlot with
        | none => ((.noSpace, -1), tab)
        | some server =>
          ((.none, makeSockid server (tab server).generation), tab.pair caller server client)

def sockRead (sockid max : BitVec 32) : (IpcErr × List (BitVec 8)) × SockTable :=
  match tab.findSocket sockid with
  | none => ((.notFound, []), tab)
  | some i =>
    if (tab i).state ≠ .connected then ((.invalid, []), tab)
    else if (tab i).ringCount = 0 then
      ((if (tab i).peerClosed then .none else .wouldblock, []), tab)
    else
      ((.none, ((tab i).readLoop max.toInt.toNat).1), tab.modify i fun s =>
        (s.readLoop max.toInt.toNat).2)

def livePeer (i : Fin 32) : Option (Fin 32) :=
  match (tab i).peerIdx with
  | some p => if (tab p).inUse ∧ (tab p).generation = (tab i).peerGen then some p else none
  | none => none

def sockWrite (sockid : BitVec 32) (bytes : List (BitVec 8)) (len : BitVec 32) :
    (IpcErr × BitVec 32) × SockTable :=
  match tab.findSocket sockid with
  | none => ((.notFound, 0), tab)
  | some i =>
    if (tab i).state ≠ .connected then ((.invalid, 0), tab)
    else
      match tab.livePeer i with
      | none => ((.notFound, 0), tab)
      | some p => ((.none, (tab p).room len), tab.modify p fun s => s.putBytes bytes (s.room len))

/-- The peer that `sock_close` has to tell. -/
def closePeer (i : Fin 32) : Option (Fin 32) :=
    if (tab i).state = .connected then tab.livePeer i else none

/-- The end of `sock_close`: the peer is told, and the entry is given back. -/
def release (i : Fin 32) : SockTable :=
  match tab.closePeer i with
  | some p => (tab.modify p Socket.markClosed).modify i Socket.giveBack
  | none => tab.modify i Socket.giveBack

def sockClose (caller : Slot) (sockid : BitVec 32) : IpcErr × SockTable :=
  match tab.findOwned caller sockid with
  | none => (.notFound, tab)
  | some i => (.none, tab.release i)

def sockCleanupForProcess (t : Slot) : SockTable :=
  (List.finRange 32).foldl (fun tab i =>
    if (tab i).inUse = false ∨ (tab i).ownerTid ≠ t then tab else tab.release i) tab

/-! ## The system calls -/

inductive Call
  | create | bind | listen | connect | accept | read | write | close
deriving DecidableEq

def pathBytes : List (BitVec 8) := (Lib.Memory.wordBytes [f.r10, f.r12, f.r13, f.r14]).set 31 0

/-- A length in a register, narrowed to `int` and clipped. -/
def clip (len : Word) (limit : BitVec 32) : BitVec 32 :=
  if limit.toInt < (len.setWidth 32 : BitVec 32).toInt then limit else len.setWidth 32

def writeBytes : List (BitVec 8) := Lib.Memory.wordBytes [f.r12, f.r13, f.r14]

def readBytes : List (BitVec 8) := Lib.Memory.wordBytes [f.r9, f.r10, f.r12, f.r13, f.r14]

def readResult (buf : List (BitVec 8)) : Uctx :=
  let words := Lib.Memory.packWord buf
  { f with
    r8 := BitVec.ofNat 64 buf.length
    r9 := words 0, r10 := words 1, r12 := words 2, r13 := words 3, r14 := words 4
    rax := IpcErr.none.toWord }

def numberResult (rc : IpcErr) (n : BitVec 32) : Uctx :=
  if rc ≠ .none then { f with rax := rc.toWord }
  else { f with r8 := n.signExtend 64, rax := IpcErr.none.toWord }

/-- The branches of `sys_ipc` for sockets. -/
def sysInfo : Call → Uctx × SockTable
  | .create =>
    let ((rc, id), tab) := tab.sockCreate cur
    (numberResult f rc id, tab)
  | .bind =>
    let (rc, tab) := tab.sockBind cur (f.r9.setWidth 32) (pathBytes f)
    ({ f with rax := rc.toWord }, tab)
  | .listen =>
    let (rc, tab) := tab.sockListen cur (f.r9.setWidth 32)
    ({ f with rax := rc.toWord }, tab)
  | .connect =>
    let (rc, tab) := tab.sockConnect cur (f.r9.setWidth 32) (pathBytes f)
    ({ f with rax := rc.toWord }, tab)
  | .accept =>
    let ((rc, id), tab) := tab.sockAccept cur (f.r9.setWidth 32)
    (numberResult f rc id, tab)
  | .read =>
    let ((rc, buf), tab) := tab.sockRead (f.r9.setWidth 32) (clip f.r10 40)
    (if rc ≠ .none then { f with rax := rc.toWord } else readResult f buf, tab)
  | .write =>
    let ((rc, n), tab) := tab.sockWrite (f.r9.setWidth 32) (writeBytes f) (clip f.r10 24)
    (numberResult f rc n, tab)
  | .close =>
    let (rc, tab) := tab.sockClose cur (f.r9.setWidth 32)
    ({ f with rax := rc.toWord }, tab)

def views (tab : SockTable) (i : Fin 32) : Lib.Ring 4096 (BitVec 8) := (tab i).view

end SockTable

/-! ## What the functions do -/

namespace SockTable

variable {tab : SockTable} {i : Fin 32} {sockid : BitVec 32} {t : Slot}

@[simp] theorem modify_self (g : Socket → Socket) : tab.modify i g i = g (tab i) := update_self ..

theorem modify_of_ne {j : Fin 32} (h : j ≠ i) (g : Socket → Socket) : tab.modify i g j = tab j :=
  update_of_ne h ..

/-- A socket that was found is in use. -/
theorem inUse_of_findSocket (h : tab.findSocket sockid = some i) : (tab i).inUse = true := by
  unfold findSocket at h
  dsimp only at h
  split at h
  · split at h
    · rename_i hfound
      cases h
      exact hfound.1
    · cases h
  · cases h

/-- **Round trip.**  The number of a socket in use finds it. -/
theorem findSocket_makeSockid (h : (tab i).inUse = true) :
    tab.findSocket (makeSockid i (tab i).generation) = some i := by
  have hi : i.val < 2 ^ 8 := i.isLt.trans (by decide)
  have hlow : (makeSockid i (tab i).generation &&& 0xFF).toNat = i := by
    rw [makeSockid, BitVec.or_comm]
    exact Lib.tag_low _ (by decide) hi
  have hhigh : (makeSockid i (tab i).generation >>> 8).setWidth 16 = (tab i).generation := by
    rw [makeSockid, BitVec.or_comm]
    exact Lib.tag_high _ (by decide) hi
  unfold findSocket
  simp only [hlow, i.isLt, hhigh, h, dif_pos, Fin.eta, and_self, if_true]

theorem inUse_of_findOwned (h : tab.findOwned t sockid = some i) : (tab i).inUse = true := by
  unfold findOwned at h
  split at h
  · rename_i hfound
    split at h
    · cases h
      exact inUse_of_findSocket hfound
    · cases h
  · cases h

theorem freeSlot_eq_some (h : tab.freeSlot = some i) : (tab i).inUse = false := by
  have hfree := List.find?_some h
  simpa using hfree

theorem findListener_eq_some {path : List (BitVec 8)} (h : tab.findListener path = some i) :
    (tab i).inUse = true ∧ (tab i).state = .listening := by
  have hfound := List.find?_some h
  simp only [Bool.and_eq_true, beq_iff_eq] at hfound
  exact ⟨hfound.1.1.1, hfound.1.1.2⟩

theorem livePeer_eq_some {p : Fin 32} : tab.livePeer i = some p ↔
      (tab i).peerIdx = some p ∧ (tab p).inUse = true ∧ (tab p).generation = (tab i).peerGen := by
  unfold livePeer
  split
  · rename_i q hq
    rw [hq]
    split
    · rename_i hlive
      exact ⟨fun h => by obtain rfl := Option.some.inj h; exact ⟨rfl, hlive⟩, fun h => h.1⟩
    rename_i hdead
    refine ⟨fun h => (by cases h), fun h => absurd ?_ hdead⟩
    obtain rfl := Option.some.inj h.1
    exact h.2
  · rename_i hq
    rw [hq]
    simp

theorem sockCreate_cases (tab : SockTable) (t : Slot) :
    tab.sockCreate t = ((.noSpace, -1), tab) ∨ ∃ i, tab.freeSlot = some i ∧ tab.sockCreate t =
        ((.none, makeSockid i (tab i).generation), tab.modify i (·.fresh t)) := by
  unfold sockCreate
  split
  · exact .inl rfl
  · exact .inr ⟨_, ‹_›, rfl⟩

theorem sockBind_cases (tab : SockTable) (t : Slot) (sockid : BitVec 32) (path : List (BitVec 8)) :
    (∃ rc, tab.sockBind t sockid path = (rc, tab)) ∨
      ∃ i, tab.findOwned t sockid = some i ∧ (tab i).state = .unbound ∧
        tab.sockBind t sockid path = (.none, tab.modify i (·.bindPath path)) := by
  unfold sockBind
  split
  · exact .inl ⟨_, rfl⟩
  rename_i i hi
  split
  · exact .inl ⟨_, rfl⟩
  rename_i hstate
  split
  · exact .inl ⟨_, rfl⟩
  · exact .inr ⟨i, hi, not_not.mp hstate, rfl⟩

theorem sockListen_cases (tab : SockTable) (t : Slot) (sockid : BitVec 32) :
    (∃ rc, tab.sockListen t sockid = (rc, tab)) ∨
      ∃ i, tab.findOwned t sockid = some i ∧ (tab i).state = .unbound ∧
        tab.sockListen t sockid = (.none, tab.modify i Socket.startListening) := by
  unfold sockListen
  split
  · exact .inl ⟨_, rfl⟩
  rename_i i hi
  split
  · exact .inl ⟨_, rfl⟩
  rename_i hstate
  rw [not_or, not_not] at hstate
  exact .inr ⟨i, hi, hstate.2, rfl⟩

/-- A call fails, or the client is queued at the listener. -/
theorem sockConnect_cases (tab : SockTable) (t : Slot) (sockid : BitVec 32)
    (path : List (BitVec 8)) :
    (∃ rc, tab.sockConnect t sockid path = (rc, tab) ∧ ∀ i j, tab.findOwned t sockid = some i →
      tab.findListener path = some j →
        ¬ ((tab i).state = .unbound ∧ (tab j).backlogTail + 1 ≠ (tab j).backlogHead)) ∨
    ∃ i j, tab.findOwned t sockid = some i ∧ (tab i).state = .unbound ∧
      tab.findListener path = some j ∧
      (tab j).backlogTail + 1 ≠ (tab j).backlogHead ∧
      tab.sockConnect t sockid path = (.wouldblock, tab.enqueue j i) := by
  unfold sockConnect
  split
  · rename_i hi
    exact .inl ⟨_, rfl, fun i j hi' => by rw [hi] at hi'; cases hi'⟩
  rename_i i hi
  have hother : ∀ {st}, (tab i).state = st → st ≠ .unbound → ∀ i' j, some i = some i' →
      tab.findListener path = some j →
        ¬ ((tab i').state = .unbound ∧ (tab j).backlogTail + 1 ≠ (tab j).backlogHead) := by
    rintro st hst hne i' j hi' - ⟨hun, -⟩
    obtain rfl := Option.some.inj hi'
    exact hne (hst.symm.trans hun)
  rw [hi]
  cases hst : (tab i).state with
  | connected => exact .inl ⟨_, rfl, hother hst (by decide)⟩
  | connecting => exact .inl ⟨_, rfl, hother hst (by decide)⟩
  | listening => exact .inl ⟨_, rfl, hother hst (by decide)⟩
  | unbound =>
    dsimp only
    split
    · rename_i hj
      exact .inl ⟨_, rfl, fun i j _ hj' => by rw [hj] at hj'; cases hj'⟩
    rename_i j hj
    split
    · rename_i hfull
      refine .inl ⟨_, rfl, fun i j' _ hj' => ?_⟩
      rw [hj] at hj'
      obtain rfl := Option.some.inj hj'
      exact fun hc => hc.2 hfull
    · rename_i hroom
      exact .inr ⟨i, j, rfl, hst, hj, hroom, rfl⟩

theorem modify_modify (i : Fin 32) (g h : Socket → Socket) :
    (tab.modify i g).modify i h = tab.modify i fun s => h (g s) := by
  unfold modify
  rw [update_idem, update_self]

theorem modify_id (i : Fin 32) {g : Socket → Socket} (h : g (tab i) = tab i) :
    tab.modify i g = tab := by
  unfold modify
  rw [h, update_eq_self]

/-- A client in the backlog at `entry` that is still there. -/
structure Waits (tab : SockTable) (entry : SockRef) : Prop where
  inUse : (tab entry.slot).inUse = true
  gen : (tab entry.slot).generation = entry.gen
  state : (tab entry.slot).state = .connecting

/-- The loop of `sock_accept` takes entries, and the last one is that of the client it found. -/
theorem nextClient_spec (tab : SockTable) (l : Fin 32) (turns : Nat) :
    ∃ k ≤ turns, (tab.nextClient l turns).2 = tab.modify l (·.popEntries k) ∧
      ∀ c, (tab.nextClient l turns).1 = some c → ∃ j, k = j + 1 ∧
        ((tab l).backlog ((tab l).backlogHead + Fin.ofNat 8 j)).slot = c ∧
        tab.Waits ((tab l).backlog ((tab l).backlogHead + Fin.ofNat 8 j)) := by
  induction turns generalizing tab with
  | zero =>
    refine ⟨0, Nat.le_refl 0, (modify_id l ?_).symm, fun c hc => by cases hc⟩
    simp [Socket.popEntries]
  | succ turns ih =>
    -- popping an entry leaves the fields that the test reads
    have hsame : ∀ c, (tab.modify l Socket.popEntry c).inUse = (tab c).inUse ∧
        (tab.modify l Socket.popEntry c).generation = (tab c).generation ∧
        (tab.modify l Socket.popEntry c).state = (tab c).state := by
      intro c
      rcases eq_or_ne c l with rfl | hc
      · rw [modify_self]
        exact ⟨rfl, rfl, rfl⟩
      · rw [modify_of_ne hc]
        exact ⟨rfl, rfl, rfl⟩
    unfold nextClient
    dsimp only
    split
    · rename_i hfound
      refine ⟨1, by omega, ?_, fun c hc => ?_⟩
      · rfl
      · cases hc
        have hzero : (tab l).backlogHead + Fin.ofNat 8 0 = (tab l).backlogHead := by simp
        rw [(hsame _).1, (hsame _).2.1, (hsame _).2.2] at hfound
        refine ⟨0, rfl, by rw [hzero], ?_⟩
        rw [hzero]
        exact ⟨hfound.1, hfound.2.1, hfound.2.2⟩
    · obtain ⟨k, hk, htab, hfind⟩ := ih (tab.modify l Socket.popEntry)
      have hplace : ∀ m, (tab l).backlogHead + 1 + Fin.ofNat 8 m =
          (tab l).backlogHead + Fin.ofNat 8 (m + 1) := fun m => by grind
      refine ⟨k + 1, by omega, ?_, fun c hc => ?_⟩
      · rw [htab, modify_modify]
        unfold modify
        congr 1
        show { tab l with backlogHead := (tab l).backlogHead + 1 + Fin.ofNat 8 k } = _
        rw [hplace]
        rfl
      · obtain ⟨j, hj, hslot, huse, hgen, hstate⟩ := hfind c hc
        rw [(hsame _).1] at huse
        rw [(hsame _).2.1] at hgen
        rw [(hsame _).2.2] at hstate
        rw [modify_self] at hslot huse hgen hstate
        refine ⟨j + 1, by omega, ?_⟩
        rw [← hplace]
        exact ⟨hslot, huse, hgen, hstate⟩

theorem nextClient_inUse {l c : Fin 32} {turns : Nat} {tab' : SockTable}
    (h : tab.nextClient l turns = (some c, tab')) : (tab' c).inUse = true := by
  obtain ⟨k, -, htab, hfind⟩ := tab.nextClient_spec l turns
  rw [h] at htab hfind
  obtain ⟨j, -, hslot, hwaits⟩ := hfind c rfl
  have huse : (tab c).inUse = true := hslot ▸ hwaits.inUse
  rw [show tab' = _ from htab]
  rcases eq_or_ne c l with rfl | hne
  · rw [modify_self]
    exact huse
  · rwa [modify_of_ne hne]

/-- Accepting changes nothing, or takes entries from a backlog and pairs the client that was found,
if there is one and an entry for the new socket. -/
theorem sockAccept_cases (tab : SockTable) (t : Slot) (sockid : BitVec 32) :
    (∃ rc, rc ≠ .none ∧ tab.sockAccept t sockid = ((rc, -1), tab)) ∨
      ∃ i, tab.findOwned t sockid = some i ∧ (tab i).state = .listening ∧ ((∃ rc, rc ≠ .none ∧
            tab.sockAccept t sockid = ((rc, -1), (tab.nextClient i (tab.waiting i)).2)) ∨
          ∃ client tab' server, tab.nextClient i (tab.waiting i) = (some client, tab') ∧
            tab'.freeSlot = some server ∧
            tab.sockAccept t sockid = ((.none, makeSockid server (tab' server).generation),
              tab'.pair t server client)) := by
  unfold sockAccept
  split
  · exact .inl ⟨_, by decide, rfl⟩
  rename_i i hi
  split
  · exact .inl ⟨_, by decide, rfl⟩
  rename_i hstate
  refine .inr ⟨i, hi, not_not.mp hstate, ?_⟩
  cases hnext : tab.nextClient i (tab.waiting i) with
  | mk found tab' =>
    cases found with
    | none => exact .inl ⟨_, by decide, rfl⟩
    | some client =>
      dsimp only
      split
      · exact .inl ⟨_, by decide, rfl⟩
      · exact .inr ⟨client, tab', _, rfl, ‹_›, rfl⟩

theorem sockRead_cases (tab : SockTable) (sockid max : BitVec 32) :
    (∃ rc, tab.sockRead sockid max = ((rc, []), tab)) ∨
      ∃ i, tab.findSocket sockid = some i ∧ (tab i).state = .connected ∧ tab.sockRead sockid max =
          ((.none, ((tab i).readLoop max.toInt.toNat).1),
            tab.modify i fun s => (s.readLoop max.toInt.toNat).2) := by
  unfold sockRead
  split
  · exact .inl ⟨_, rfl⟩
  rename_i i hi
  split
  · exact .inl ⟨_, rfl⟩
  rename_i hstate
  split
  · exact .inl ⟨_, rfl⟩
  · exact .inr ⟨i, hi, not_not.mp hstate, rfl⟩

theorem sockWrite_cases (tab : SockTable) (sockid : BitVec 32) (bytes : List (BitVec 8))
    (len : BitVec 32) : (∃ rc, rc ≠ .none ∧ tab.sockWrite sockid bytes len = ((rc, 0), tab)) ∨
      ∃ i p, tab.findSocket sockid = some i ∧ (tab i).state = .connected ∧ tab.livePeer i = some p ∧
        tab.sockWrite sockid bytes len =
          ((.none, (tab p).room len), tab.modify p fun s => s.putBytes bytes (s.room len)) := by
  unfold sockWrite
  split
  · exact .inl ⟨_, by decide, rfl⟩
  rename_i i hi
  split
  · exact .inl ⟨_, by decide, rfl⟩
  rename_i hstate
  split
  · exact .inl ⟨_, by decide, rfl⟩
  · exact .inr ⟨i, _, hi, not_not.mp hstate, ‹_›, rfl⟩

theorem sockClose_cases (tab : SockTable) (t : Slot) (sockid : BitVec 32) :
    tab.sockClose t sockid = (.notFound, tab) ∨
      ∃ i, tab.findOwned t sockid = some i ∧ tab.sockClose t sockid = (.none, tab.release i) := by
  unfold sockClose
  split
  · exact .inl rfl
  · exact .inr ⟨_, ‹_›, rfl⟩

end SockTable

/-! ## Runs -/

structure SockPair where
  listener : SockRef
  client : SockRef
  server : SockRef
deriving DecidableEq

/-- The sockets, and what has been noted down: for each slot the bytes that were read from its
socket and written to it, and the listener that its socket has asked; and the connections that were
accepted. -/
structure Sockets where
  tab : SockTable
  delivered : Fin 32 → List (BitVec 8)
  accepted : Fin 32 → List (BitVec 8)
  asked : Fin 32 → Option SockRef
  pairs : List SockPair

namespace Sockets

open SockTable (clip modify_of_ne modify_self numberResult pathBytes readBytes readResult sysInfo
  writeBytes)

inductive Op
  /-- A system call with the registers `f`. -/
  | call (t : Slot) (c : SockTable.Call) (f : Uctx)
  | exit (t : Slot)

def ref (s : Sockets) (i : Fin 32) : SockRef := ⟨i, (s.tab i).generation⟩

def renew (s : Sockets) (i : Fin 32) : Sockets :=
  { s with
    delivered := update s.delivered i []
    accepted := update s.accepted i []
    asked := update s.asked i none }

def ask (s : Sockets) (t : Slot) (f : Uctx) : Sockets :=
  match s.tab.findOwned t (f.r9.setWidth 32), s.tab.findListener (pathBytes f) with
  | some i, some j =>
    if (s.tab i).state = .unbound ∧ (s.tab j).backlogTail + 1 ≠ (s.tab j).backlogHead then
      { s with asked := update s.asked i (some (s.ref j)) }
    else s
  | _, _ => s

def notePair (s : Sockets) (t : Slot) (f : Uctx) (s' : SockTable) (id : BitVec 32) : Sockets :=
  match s.tab.findOwned t (f.r9.setWidth 32), s'.findSocket id with
  | some l, some server =>
    match (s' server).peerIdx with
    | some client =>
      { s.renew server with
        pairs := ⟨s.ref l, ⟨client, (s' server).peerGen⟩,
          ⟨server, (s' server).generation⟩⟩ :: s.pairs }
    | none => s
  | _, _ => s

def noteRead (s : Sockets) (f f' : Uctx) : Sockets :=
  match s.tab.findSocket (f.r9.setWidth 32) with
  | some i =>
    { s with
      delivered := update s.delivered i
        (s.delivered i ++ (readBytes f').take f'.r8.toNat) }
  | none => s

def noteWrite (s : Sockets) (f f' : Uctx) : Sockets :=
  match (s.tab.findSocket (f.r9.setWidth 32)).bind s.tab.livePeer with
  | some p =>
    { s with
      accepted := update s.accepted p
        (s.accepted p ++ (writeBytes f).take f'.r8.toInt.toNat) }
  | none => s

def note (s : Sockets) (t : Slot) (c : SockTable.Call) (f f' : Uctx) (tab : SockTable) : Sockets :=
  match c with
  | .create =>
    if f'.rax = IpcErr.none.toWord then
      match tab.findSocket (f'.r8.setWidth 32) with
      | some i => s.renew i
      | none => s
    else s
  | .connect => s.ask t f
  | .accept => if f'.rax = IpcErr.none.toWord then s.notePair t f tab (f'.r8.setWidth 32) else s
  | .read => if f'.rax = IpcErr.none.toWord then s.noteRead f f' else s
  | .write => if f'.rax = IpcErr.none.toWord then s.noteWrite f f' else s
  | .bind | .listen | .close => s

def step (s : Sockets) : Op → Option Sockets
  | .call t c f =>
    let (f', tab) := s.tab.sysInfo t f c
    some { s.note t c f f' tab with tab }
  | .exit t => some { s with tab := s.tab.sockCleanupForProcess t }

structure IsBoot (s : Sockets) : Prop where
  tab : ∀ i, s.tab i = {}
  delivered : ∀ i, s.delivered i = []
  accepted : ∀ i, s.accepted i = []
  asked : ∀ i, s.asked i = none
  pairs : s.pairs = []

/-! ## What a step does -/

variable {s s' : Sockets} {t : Slot} {f : Uctx}

theorem step_call {c : SockTable.Call} (h : step s (.call t c f) = some s') :
    s' = { s.note t c f (s.tab.sysInfo t f c).1 (s.tab.sysInfo t f c).2 with
      tab := (s.tab.sysInfo t f c).2 } :=
  (Option.some.inj h).symm

theorem setWidth_signExtend (n : BitVec 32) : (n.signExtend 64).setWidth 32 = n := by
  refine BitVec.eq_of_getLsbD_eq fun j hj => ?_
  rw [BitVec.getLsbD_setWidth, BitVec.getLsbD_signExtend]
  simp [hj, show j < 64 by omega]

theorem toWord_ne_none {rc : IpcErr} (h : rc ≠ .none) : rc.toWord ≠ IpcErr.none.toWord := by
  cases rc <;> first | exact absurd rfl h | decide

theorem numberResult_of_ne {rc : IpcErr} (h : rc ≠ .none) (n : BitVec 32) :
    (numberResult f rc n).rax ≠ IpcErr.none.toWord := by
  rw [numberResult, if_pos h]
  exact toWord_ne_none h

theorem numberResult_none (n : BitVec 32) :
    (numberResult f .none n).rax = IpcErr.none.toWord := rfl

/-- The number that a call returns for a new socket names it. -/
theorem findSocket_result {tab : SockTable} {i : Fin 32} {g : BitVec 16}
    (huse : (tab i).inUse = true) (hgen : (tab i).generation = g) :
    tab.findSocket ((numberResult f .none (makeSockid i g)).r8.setWidth 32) = some i := by
  show tab.findSocket (((makeSockid i g).signExtend 64).setWidth 32) = some i
  rw [setWidth_signExtend, ← hgen]
  exact SockTable.findSocket_makeSockid huse

theorem create_cases (h : step s (.call t .create f) = some s') :
    s' = s ∨ ∃ i, s.tab.freeSlot = some i ∧
      s' = { s.renew i with tab := s.tab.modify i (·.fresh t) } := by
  have hs := step_call h
  rcases s.tab.sockCreate_cases t with hcreate | ⟨i, hi, hcreate⟩
  · rw [sysInfo, hcreate, note, if_neg (numberResult_of_ne (by decide) _)] at hs
    exact .inl hs
  · rw [sysInfo, hcreate] at hs
    dsimp only at hs
    rw [note, if_pos (numberResult_none _), findSocket_result] at hs
    · exact .inr ⟨i, hi, hs⟩
    · rw [modify_self]; rfl
    · rw [modify_self]; rfl

theorem bind_cases (h : step s (.call t .bind f) = some s') :
    s' = s ∨ ∃ i, s.tab.findOwned t (f.r9.setWidth 32) = some i ∧ (s.tab i).state = .unbound ∧
      s' = { s with tab := s.tab.modify i (·.bindPath (pathBytes f)) } := by
  have hs := step_call h
  rcases s.tab.sockBind_cases t (f.r9.setWidth 32) (pathBytes f) with
    ⟨rc, hbind⟩ | ⟨i, hi, hstate, hbind⟩ <;> rw [sysInfo, hbind] at hs
  · exact .inl hs
  · exact .inr ⟨i, hi, hstate, hs⟩

theorem listen_cases (h : step s (.call t .listen f) = some s') :
    s' = s ∨ ∃ i, s.tab.findOwned t (f.r9.setWidth 32) = some i ∧ (s.tab i).state = .unbound ∧
      s' = { s with tab := s.tab.modify i Socket.startListening } := by
  have hs := step_call h
  rcases s.tab.sockListen_cases t (f.r9.setWidth 32) with ⟨rc, hlisten⟩ |
    ⟨i, hi, hstate, hlisten⟩ <;>
    rw [sysInfo, hlisten] at hs
  · exact .inl hs
  · exact .inr ⟨i, hi, hstate, hs⟩

theorem connect_cases (h : step s (.call t .connect f) = some s') :
    s' = s ∨ ∃ i j, s.tab.findOwned t (f.r9.setWidth 32) = some i ∧ (s.tab i).state = .unbound ∧
      s.tab.findListener (pathBytes f) = some j ∧
      (s.tab j).backlogTail + 1 ≠ (s.tab j).backlogHead ∧
      s' = { s with tab := s.tab.enqueue j i, asked := update s.asked i (some (s.ref j)) } := by
  have hs := step_call h
  rcases s.tab.sockConnect_cases t (f.r9.setWidth 32) (pathBytes f) with
    ⟨rc, hconnect, hno⟩ | ⟨i, j, hi, hstate, hj, hroom, hconnect⟩ <;>
    rw [sysInfo, hconnect] at hs
  · have hask : s.ask t f = s := by
      unfold ask
      split
      · rename_i i j hi hj
        exact if_neg (hno i j hi hj)
      · rfl
    rw [note, hask] at hs
    exact .inl hs
  · rw [note, ask, hi, hj] at hs
    dsimp only at hs
    rw [if_pos ⟨hstate, hroom⟩] at hs
    exact .inr ⟨i, j, hi, hstate, hj, hroom, hs⟩

/-- An accepted connection is noted with the references of its three sockets. -/
theorem accept_cases (h : step s (.call t .accept f) = some s') :
    s' = s ∨ ∃ i, s.tab.findOwned t (f.r9.setWidth 32) = some i ∧ (s.tab i).state = .listening ∧
      (s' = { s with tab := (s.tab.nextClient i (s.tab.waiting i)).2 } ∨
        ∃ client tab server, s.tab.nextClient i (s.tab.waiting i) = (some client, tab) ∧
          tab.freeSlot = some server ∧
          server ≠ client ∧ s' =
            { s.renew server with
              tab := tab.pair t server client
              pairs := ⟨s.ref i, ⟨client, (tab client).generation⟩,
                ⟨server, (tab server).generation⟩⟩ ::
                s.pairs }) := by
  have hs := step_call h
  rcases s.tab.sockAccept_cases t (f.r9.setWidth 32) with
    ⟨rc, hrc, haccept⟩ | ⟨i, hi, hstate, ⟨rc, hrc, haccept⟩ |
      ⟨client, tab, server, hnext, hfree, haccept⟩⟩ <;>
    rw [sysInfo, haccept] at hs
  · rw [note, if_neg (numberResult_of_ne hrc _)] at hs
    exact .inl hs
  · rw [note, if_neg (numberResult_of_ne hrc _)] at hs
    exact .inr ⟨i, hi, hstate, .inl hs⟩
  · have hne : server ≠ client := by
      rintro rfl
      have hused := SockTable.nextClient_inUse hnext
      rw [SockTable.freeSlot_eq_some hfree] at hused
      cases hused
    have hserver : tab.pair t server client server =
        (tab server).serve t ⟨client, (tab client).generation⟩ := by
      rw [SockTable.pair, modify_of_ne hne, modify_self]
    have hfind := @findSocket_result f (tab.pair t server client) server (tab server).generation
      (by rw [hserver]; rfl) (by rw [hserver]; rfl)
    rw [note, if_pos (numberResult_none _), notePair, hi] at hs
    dsimp only at hs
    rw [hfind] at hs
    dsimp only at hs
    rw [hserver] at hs
    exact .inr ⟨i, hi, hstate, .inr ⟨client, tab, server, hnext, hfree, hne, hs⟩⟩

theorem read_cases (h : step s (.call t .read f) = some s') :
    s' = s ∨ ∃ i buf, s.tab.findSocket (f.r9.setWidth 32) = some i ∧ (s.tab i).state = .connected ∧
      buf = ((s.tab i).readLoop (clip f.r10 40).toInt.toNat).1 ∧
      s' = { s with
        tab := s.tab.modify i fun p => (p.readLoop (clip f.r10 40).toInt.toNat).2
        delivered := update s.delivered i (s.delivered i ++
          (readBytes (readResult f buf)).take
            (readResult f buf).r8.toNat) } := by
  have hs := step_call h
  have hrax : ∀ buf, (readResult f buf).rax = IpcErr.none.toWord := fun _ => rfl
  rcases s.tab.sockRead_cases (f.r9.setWidth 32) (clip f.r10 40) with
    ⟨rc, hread⟩ | ⟨i, hi, hstate, hread⟩ <;> rw [sysInfo, hread] at hs
  · left
    dsimp only at hs
    by_cases hrc : rc = .none
    · have hnote : s.noteRead f (readResult f []) = s := by
        unfold noteRead
        split
        · show { s with delivered := update s.delivered _ (s.delivered _ ++ List.take 0 _) } = s
          rw [List.take_zero, List.append_nil, update_eq_self]
        · rfl
      rwa [if_neg (not_not.mpr hrc), note, if_pos (hrax _), hnote] at hs
    · rwa [if_pos hrc, note, if_neg (toWord_ne_none hrc)] at hs
  · dsimp only at hs
    rw [if_neg (not_not.mpr rfl), note, if_pos (hrax _), noteRead, hi] at hs
    exact .inr ⟨i, _, hi, hstate, rfl, hs⟩

theorem write_cases (h : step s (.call t .write f) = some s') :
    s' = s ∨ ∃ i p n, s.tab.findSocket (f.r9.setWidth 32) = some i ∧ (s.tab i).state = .connected ∧
      s.tab.livePeer i = some p ∧ n = (s.tab p).room (clip f.r10 24) ∧
      s' = { s with
        tab := s.tab.modify p fun q =>
          q.putBytes (writeBytes f) (q.room (clip f.r10 24))
        accepted := update s.accepted p
          (s.accepted p ++ (writeBytes f).take (n.signExtend 64).toInt.toNat) } := by
  have hs := step_call h
  rcases s.tab.sockWrite_cases (f.r9.setWidth 32) (writeBytes f)
    (clip f.r10 24) with
    ⟨rc, hrc, hwrite⟩ | ⟨i, p, hi, hstate, hp, hwrite⟩ <;> rw [sysInfo, hwrite] at hs
  · rw [note, if_neg (numberResult_of_ne hrc _)] at hs
    exact .inl hs
  · have hbind : (s.tab.findSocket (f.r9.setWidth 32)).bind s.tab.livePeer = some p := by
      rw [hi]
      exact hp
    rw [note, if_pos (numberResult_none _), noteWrite, hbind] at hs
    exact .inr ⟨i, p, _, hi, hstate, hp, rfl, hs⟩

theorem close_cases (h : step s (.call t .close f) = some s') :
    s' = s ∨ ∃ i, s.tab.findOwned t (f.r9.setWidth 32) = some i ∧
      s' = { s with tab := s.tab.release i } := by
  have hs := step_call h
  rcases s.tab.sockClose_cases t (f.r9.setWidth 32) with hclose | ⟨i, hi, hclose⟩ <;>
    rw [sysInfo, hclose] at hs
  · exact .inl hs
  · exact .inr ⟨i, hi, hs⟩

/-- The rings are in order, and what was read from a socket and then what is in its ring is what was
written. -/
def Streams (s : Sockets) : Prop := Lib.Ring.Flow s.tab.views s.delivered s.accepted

end Sockets

end Robu
