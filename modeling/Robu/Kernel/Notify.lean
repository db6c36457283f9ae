import Robu.Kernel.Watched
import Robu.Lib.Ledger

/-!
# Conservation of notification bits

`Ledger` puts beside the kernel a record of the bits signalled to each notification and of
the bits returned by waits and polls, and for each thread the notification it last started to
wait for.  The record is made by looking at the registers and states of threads: a wait has
returned when the thread is no longer in WAIT_NOTIFICATION.

A signal to a thread in WAIT_NOTIFICATION makes it leave without the bits, and the object goes
on to name it as its waiter, so that the next delivery is lost.  Without such signals bits are
conserved.
-/

namespace Robu

open Function (update update_of_ne update_self)

variable {idx : Nat} {me : Slot} {now : Word} {k₁ : Kernel} {heard : Prop}

/-- One call of `notif_deliver`: the state before it, the object, and the bits. -/
structure Delivery where
  kernel : Kernel
  idx : Nat
  bits : Word

def Delivery.after (d : Delivery) (c : Cpu) : Kernel := d.kernel.notifDeliver c d.idx d.bits

def Delivery.released (c : Cpu) (waits : Slot → Nat) (d : Delivery) (t : Slot) :
    Option (Lib.Entry 64) :=
  if (d.kernel.tcb t).state = .waitNotification ∧ waits t = d.idx ∧
      ((d.after c).tcb t).state ≠ .waitNotification then
    some (.take ((d.after c).tcb t).uctx.r8)
  else none

/-- The record of a delivery: the bits, and what the waits that it ends return. -/
def Delivery.notices (c : Cpu) (waits : Slot → Nat) (d : Delivery) : List (Lib.Entry 64) :=
  .signal d.bits :: Kernel.tableSlots.filterMap (d.released c waits)

def Delivery.Proper (c : Cpu) (waits : Slot → Nat) (d : Delivery) : Prop :=
  ∀ t : Slot, ((d.after c).tcb t).uctx ≠ (d.kernel.tcb t).uctx ∨
      ((d.after c).tcb t).state ≠ (d.kernel.tcb t).state →
    (d.kernel.tcb t).state = .waitNotification ∧ waits t = d.idx

namespace Kernel

def timerDeliveries (c : Cpu) (now : Word) : List Nat → Kernel → List Delivery
  | [], _ => []
  | i :: is, k =>
    (if k.Expired now i then
      [⟨k, (k.timerTable i).notifIdx.toNat, (k.timerTable i).signalBits⟩] else []) ++
    match k.timerStep c now 0 i with
    | none => []
    | some (k₁, _) => timerDeliveries c now is k₁

/-- The state in which `sched_tick` looks at the timers. -/
def sleepersWoken (k : Kernel) (c : Cpu) : Kernel :=
  tableSlots.foldl (wakeSleeper c) { k with nextDeadline := BitVec.allOnes 64 }

def deadlineDeliveries (k : Kernel) (c : Cpu) : List Delivery :=
  if k.nowTicks < k.nextDeadline then []
  else
    timerDeliveries c (k.sleepersWoken c).nowTicks (List.range (k.sleepersWoken c).timerCount)
      (k.sleepersWoken c)

def tickDeliveries (k : Kernel) (c : Cpu) : List Delivery :=
  if c = 0 then ({ k with nowTicks := k.tickTime c } : Kernel).deadlineDeliveries c else []

def deliveries (k : Kernel) : Label → List Delivery
  | .trap c e =>
    let k₁ := k.enter c e
    if e.frame.vector.toNat = 32 ∧ e.irqHandled = false then k₁.tickDeliveries c
    else
      match k.caller c e with
      | none => []
      | some cur =>
        let f := (k₁.tcb cur).uctx
        if decode f = .notifySignal then
          match k₁.validate cur.tid (f.r8.setWidth 32) .notification with
          | none => []
          | some cap => [⟨k₁, cap.addr.toNat, f.r9⟩]
        else []
  | _ => []

def asked (k : Kernel) : Label → Option (Slot × Nat)
  | .trap c e =>
    match k.caller c e with
    | none => none
    | some cur =>
      let f := ((k.enter c e).tcb cur).uctx
      if decode f = .notifyWait ∨ decode f = .notifyPoll then
        ((k.enter c e).validate cur.tid (f.r8.setWidth 32) .notification).map fun cap =>
          (cur, cap.addr.toNat)
      else none
  | _ => none

def returned (k₁ : Kernel) (cur : Slot) : List (Lib.Entry 64) :=
  if (k₁.tcb cur).state ≠ .waitNotification ∧ (k₁.tcb cur).uctx.rax = IpcErr.none.toWord then
    [.take (k₁.tcb cur).uctx.r8]
  else []

end Kernel

/-- **Ledger.**  The kernel with a record for each notification. -/
structure Ledger where
  kernel : Kernel
  /-- The notification a thread last started to wait for. -/
  waits : Slot → Nat
  log : Nat → List (Lib.Entry 64)

namespace Ledger

def book (c : Cpu) (waits : Slot → Nat) (count : Nat) (log : Nat → List (Lib.Entry 64))
    (ds : List Delivery) (idx : Nat) : List (Lib.Entry 64) :=
  if idx < count then log idx ++ (ds.filter (·.idx = idx)).flatMap (Delivery.notices c waits)
  else log idx

def log' (w : Ledger) (l : Label) (idx : Nat) : List (Lib.Entry 64) :=
  book l.cpu w.waits w.kernel.notifCount w.log (w.kernel.deliveries l) idx ++
    match w.kernel.asked l, w.kernel.handled l with
    | some (cur, i), some k₁ => if i = idx then k₁.returned cur else []
    | _, _ => []

def waits' (w : Ledger) (l : Label) : Slot → Nat :=
  match w.kernel.asked l, w.kernel.handled l with
  | some (cur, i), some k₁ =>
    if (k₁.tcb cur).state = .waitNotification then update w.waits cur i else w.waits
  | _, _ => w.waits

def step (w : Ledger) (l : Label) : Option Ledger :=
  (w.kernel.step l).map fun k' => ⟨k', w.waits' l, w.log' l⟩

def IsBoot (w : Ledger) : Prop := w.kernel.IsBoot ∧ w.log = fun _ => []

def Conserved (w : Ledger) : Prop :=
  ∀ idx < w.kernel.notifCount, Lib.Conserved (w.log idx) (w.kernel.notifTable idx).word

end Ledger

namespace Kernel

variable {F : Effects} {st : Slot → ThreadState} {c : Cpu} {k k' : Kernel} {l : Label}
  {waits : Slot → Nat} {log : Nat → List (Lib.Entry 64)}

/-! ## Words of notifications -/

theorem Tables.word (h : Tables F c k k') (hn : ¬ F.notifies) (hw : ¬ F.watches)
    (hidx : idx < k.notifCount) : (k'.notifTable idx).word = (k.notifTable idx).word := by
  cases h with
  | same same | tick _ same | arm _ same | caps _ same | enqueue _ _ _ _ same | takeFault _ same =>
    rw [same.notifTable]
  | newNotification same =>
    rw [same.notifTable]
    dsimp only
    rw [update_of_ne hidx.ne]
  | notify hF | takeBits hF => exact absurd hF hn
  | waitNotif hF => exact absurd hF hw
  | ended _ same =>
    rw [same.notifTable]
    dsimp only [notifInvalidateWaiterDeath]
    split <;> rfl

theorem Tables.word_new (h : Tables F c k k') (hold : k.notifCount ≤ idx)
    (hnew : idx < k'.notifCount) : (k'.notifTable idx).word = 0 := by
  cases h with
  | newNotification same =>
    have hcount : k'.notifCount = k.notifCount + 1 := same.notifCount
    obtain rfl : idx = k.notifCount := by omega
    rw [same.notifTable]
    dsimp only
    rw [update_self]
  | same same | tick _ same | arm _ same | caps _ same | enqueue _ _ _ _ same | takeFault _ same
  | notify _ same | takeBits _ same | waitNotif _ _ same | ended _ same =>
    have hcount : k'.notifCount = k.notifCount := same.notifCount
    omega

theorem filterMap_of_unique {α β : Type} {f : α → Option β} {l : List α} {a : α} (hl : l.Nodup)
    (ha : a ∈ l) (h : ∀ b ∈ l, b ≠ a → f b = none) : l.filterMap f = (f a).toList := by
  induction l with
  | nil => cases ha
  | cons b l ih =>
    obtain ⟨hb, hl⟩ := List.nodup_cons.mp hl
    rcases List.mem_cons.mp ha with rfl | ha
    · have hrest : l.filterMap f = [] := List.filterMap_eq_nil_iff.mpr fun x hx =>
        h x (.tail _ hx) fun heq => hb (heq ▸ hx)
      rw [List.filterMap_cons, hrest]
      cases f a <;> rfl
    · have hne : b ≠ a := fun heq => hb (heq ▸ ha)
      rw [List.filterMap_cons, h b (.head _) hne]
      exact ih hl ha fun x hx => h x (.tail _ hx)

theorem Watched.notifWaiter_eq (h : Watched st k) {w : Slot} (h₀ : (k.notifTable idx).waiter ≠ 0)
    (hw : (k.notifTable idx).waiter = w.tid) : k.notifWaiter idx = some w := by
  obtain ⟨-, w', hw', hwatch⟩ := h.waiter h₀
  obtain rfl : w' = w := Slot.tid_inj (hw'.symm.trans hw)
  have hne : w' ≠ 0 := by
    rintro rfl
    rw [hw] at h₀
    exact h₀ (by decide)
  rw [Kernel.notifWaiter, if_neg h₀, hw, schedGetTcb_tid, if_neg (by simp [hne, hwatch.state])]

theorem Watched.notifDeliver (h : Watched st k) (c : Cpu) (idx : Nat) (bits : Word) :
    Watched st (k.notifDeliver c idx bits) := by
  have hsound : ({ k.quietEffects with
      notifies := True, notified := fun w => k.notifWaiter idx = some w } : Effects).Sound st :=
    { sound_resume k c st with
      notified := fun w hw => ⟨by simp [(h.notifWaiter hw).2.before], id⟩
      ends := fun _ hends => by rcases hends with h | h <;> exact h.elim }
  exact h.act (.notify (c := c) idx bits trivial fun _ hw => hw) hsound id (fun _ => False.elim) id

theorem released_of_not_waiter {d : Delivery} {t : Slot} (h : d.kernel.notifWaiter d.idx ≠ some t) :
    d.released c waits t = none := by
  refine if_neg ?_
  rintro ⟨hs, -, hleft⟩
  exact hleft ((congrArg Tcb.state (body_notifDeliver h d.bits)).trans hs)

@[simp] theorem book_nil (count : Nat) : Ledger.book c waits count log [] = log := by
  funext idx
  simp [Ledger.book]

theorem book_append (count : Nat) (ds ds' : List Delivery) :
    Ledger.book c waits count log (ds ++ ds') =
      Ledger.book c waits count (Ledger.book c waits count log ds) ds' := by
  funext idx
  unfold Ledger.book
  split <;> simp

theorem book_singleton (count : Nat) (d : Delivery) (idx : Nat) :
    Ledger.book c waits count log [d] idx =
      if idx < count ∧ idx = d.idx then log idx ++ d.notices c waits else log idx := by
  unfold Ledger.book
  by_cases hi : d.idx = idx
  · simp [hi]
  · simp [hi, Ne.symm hi]

theorem sameTables_wakeSleeper (k : Kernel) (c : Cpu) (t : Slot) :
    k.SameTables (wakeSleeper c k t) := by
  unfold wakeSleeper
  split
  · exact .refl k
  split
  · exact k.sameTables_schedWake c t
  · obtain ⟨d, heq, -⟩ := k.schedNoteDeadline_eq (k.tcb t).wakeAtTick
    rw [heq]
    exact ⟨rfl, rfl, rfl, rfl, rfl, rfl, rfl, rfl⟩

theorem sameTables_sleepersWoken (k : Kernel) (c : Cpu) : k.SameTables (k.sleepersWoken c) := by
  refine List.foldlRecOn _ _ (motive := fun k' : Kernel => k.SameTables k') ?_ fun k' hk' t _ =>
    hk'.trans (sameTables_wakeSleeper k' c t)
  exact ⟨rfl, rfl, rfl, rfl, rfl, rfl, rfl, rfl⟩

theorem state_callNotifyPoll (k : Kernel) (me : Slot) :
    ((k.callNotifyPoll me).tcb me).state = (k.tcb me).state := by
  unfold Kernel.callNotifyPoll capNotifPoll
  cases k.validate me.tid ((k.tcb me).uctx.r8.setWidth 32) .notification with
  | none =>
    dsimp only
    rw [setRax, Kernel.modUctx, modTcb_tcb_self]
  | some cap =>
    dsimp only
    split
    · rw [setRax, Kernel.modUctx, modTcb_tcb_self]
    · rw [Kernel.modUctx, modTcb_tcb_self]

/-- The deadline carried along decides nothing. -/
theorem timerStep_next (now next : Word) (i : Nat) :
    (k.timerStep c now next i).map Prod.fst = (k.timerStep c now 0 i).map Prod.fst := by
  unfold timerStep
  dsimp only
  split
  · rfl
  split
  · rfl
  split
  · rfl
  split <;> rfl

/-! ## The record agrees with the kernel -/

/-- **Books.**  The record agrees with the words, and the waiters are those on record. -/
structure Booked (waits : Slot → Nat) (log : Nat → List (Lib.Entry 64)) (st : Slot → ThreadState)
    (k : Kernel) : Prop where
  watched : Watched st k
  waits : ∀ {idx : Nat} {w : Slot}, (k.notifTable idx).waiter ≠ 0 →
    (k.notifTable idx).waiter = w.tid → waits w = idx
  fresh : ∀ {idx : Nat}, k.notifCount ≤ idx → log idx = []
  conserved : ∀ {idx : Nat}, idx < k.notifCount → Lib.Conserved (log idx) (k.notifTable idx).word

section Booked

variable (h : Booked waits log st k)

include h

theorem Booked.act (hact : Act F c k k') (hF : F.Sound st)
    (hn : ¬ F.notifies) (hw : ¬ F.watches) (hsig : ∀ t, F.signals t → st t ≠ .waitNotification)
    (hg : ¬ F.grants .notification) : Booked waits log st k' := by
  have htables := hact.tables
  refine ⟨h.watched.act hact hF hw hsig hg, fun {idx w} h₀ heq => ?_, fun hidx =>
    ?_, fun {idx} hidx => ?_⟩
  · have hold := htables.waiter hw h₀
    exact h.waits (hold ▸ h₀) (hold.trans heq)
  · exact h.fresh (htables.notifCount.trans hidx)
  · rcases lt_or_ge idx k.notifCount with hlt | hge
    · rw [htables.word hn hw hlt]
      exact h.conserved hlt
    · rw [htables.word_new hge hidx, h.fresh hge]
      exact .nil

theorem Booked.notices (c : Cpu) (idx : Nat) (bits : Word) :
    Delivery.notices c waits ⟨k, idx, bits⟩ = .signal bits ::
      if (k.notifTable idx).waiter = 0 then [] else [.take ((k.notifTable idx).word ||| bits)] := by
  unfold Delivery.notices
  congr 1
  split
  · rename_i h₀
    exact List.filterMap_eq_nil_iff.mpr fun t _ =>
      released_of_not_waiter (by simp [notifWaiter, h₀])
  rename_i h₀
  obtain ⟨-, w, hw, hwatch⟩ := h.watched.waiter h₀
  have hwaiter := h.watched.notifWaiter_eq h₀ hw
  have hmem : w ∈ tableSlots := mem_tableSlots.mpr (by
    rintro rfl
    rw [hw] at h₀
    exact h₀ (by decide))
  have hbody := body_notifDeliver_waiter (c := c) hwaiter bits
  have hstate : ((k.notifDeliver c idx bits).tcb w).state = (k.tcb w).state.woken :=
    (congrArg Tcb.state hbody :)
  rw [hwatch.state] at hstate
  have hr8 : ((k.notifDeliver c idx bits).tcb w).uctx.r8 = (k.notifTable idx).word ||| bits :=
    field_of_body hbody (fun x => x.uctx.r8) fun _ => rfl
  have hgets : Delivery.released c waits ⟨k, idx, bits⟩ w =
      some (.take ((k.notifTable idx).word ||| bits)) := by
    rw [← hr8]
    exact if_pos ⟨hwatch.state, h.waits h₀ hw, fun hs => absurd (hstate.symm.trans hs) (by decide)⟩
  rw [filterMap_of_unique (by decide) hmem, hgets]
  · rfl
  · intro t _ hne
    refine released_of_not_waiter ?_
    simpa [hwaiter] using hne.symm

/-- **Delivery.**  The record agrees with the object after `notif_deliver`. -/
theorem Booked.notifDeliver (c : Cpu) (idx : Nat) (bits : Word) :
    Booked waits (Ledger.book c waits k.notifCount log [⟨k, idx, bits⟩]) st
      (k.notifDeliver c idx bits) := by
  have hsame := k.sameTables_notifDeliver c idx bits
  have hcount : (k.notifDeliver c idx bits).notifCount = k.notifCount := hsame.notifCount
  have htables : Tables { k.quietEffects with notifies := True } c k (k.notifDeliver c idx bits) :=
    .notify trivial hsame
  refine ⟨h.watched.notifDeliver c idx bits, fun {j w} h₀ heq => ?_, fun {j} hj =>
    ?_, fun {j} hj => ?_⟩
  · have hold := htables.waiter id h₀
    exact h.waits (hold ▸ h₀) (hold.trans heq)
  · rw [hcount] at hj
    rw [book_singleton, if_neg fun hlt => absurd hlt.1 (not_lt.mpr hj)]
    exact h.fresh hj
  · rw [hcount] at hj
    have hold := h.conserved hj
    rw [notifDeliver_eq, book_singleton]
    dsimp only
    by_cases hi : j = idx
    · subst hi
      rw [update_self, if_pos ⟨hj, rfl⟩, h.notices]
      split
      · exact hold.signal bits
      · have htaken := (hold.signal bits).take
        rwa [List.append_assoc] at htaken
    · rw [update_of_ne hi, if_neg fun hlt => hi hlt.2]
      exact hold

theorem Booked.proper (c : Cpu) (idx : Nat) (bits : Word) :
    Delivery.Proper c waits ⟨k, idx, bits⟩ := by
  intro t hchange
  by_cases hw : k.notifWaiter idx = some t
  · obtain ⟨hwaiter, hwatch⟩ := h.watched.notifWaiter hw
    refine ⟨hwatch.state, h.waits (fun h₀ => ?_) hwaiter⟩
    rw [Kernel.notifWaiter, if_pos h₀] at hw
    cases hw
  · have hbody := body_notifDeliver (c := c) hw bits
    rcases hchange with hu | hs
    · exact absurd (congrArg Tcb.uctx hbody :) hu
    · exact absurd (congrArg Tcb.state hbody :) hs

/-! ## Timers -/

theorem Booked.quiet (hacts : ∀ F : Effects, F.ticks → F.arms → Acts F c k k') :
    Booked waits log st k' := by
  have hsound : ({ k.quietEffects with ticks := True, arms := True } : Effects).Sound st :=
    { sound_resume k c st with ends := fun _ hends => by rcases hends with h | h <;> exact h.elim }
  exact (hacts _ trivial trivial).invariant (fun h hact =>
    h.act hact hsound id id (fun _ => False.elim) id) h

theorem Booked.timerStep {next d : Word} {i : Nat} (hs : k.timerStep c now next i = some (k', d)) :
    Booked waits (Ledger.book c waits k.notifCount log
      (if k.Expired now i then [⟨k, (k.timerTable i).notifIdx.toNat, (k.timerTable i).signalBits⟩]
        else [])) st k' ∧ k'.notifCount = k.notifCount := by
  rcases timerStep_cases hs with ⟨hx, rfl⟩ | ⟨hx, T, rfl⟩
  · rw [if_neg hx, book_nil]
    exact ⟨h, rfl⟩
  · rw [if_pos hx]
    refine ⟨(h.notifDeliver c ..).quiet (c := c) fun F _ _ => .single (.timers _ _), ?_⟩
    exact (k.sameTables_notifDeliver c _ _).notifCount

/-- **Timers.**  The loop of `cap_timer_rescan`. -/
theorem Booked.timerLoop {next d : Word} {is : List Nat}
    (hl : timerLoop c now is k next = some (k', d)) :
    Booked waits (Ledger.book c waits k.notifCount log (timerDeliveries c now is k)) st k' := by
  induction is generalizing k log next with
  | nil =>
    cases hl
    rw [timerDeliveries, book_nil]
    exact h
  | cons i is ih =>
    unfold Kernel.timerLoop at hl
    split at hl
    · cases hl
    rename_i k₁ next₁ hstep
    obtain ⟨hbooked, hcount⟩ := h.timerStep hstep
    have hnext := timerStep_next (k := k) (c := c) now next i
    rw [hstep] at hnext
    obtain ⟨⟨k₂, d'⟩, hstep₀, rfl⟩ := Option.map_eq_some_iff.mp hnext.symm
    have hrest := ih hbooked hl
    rw [hcount, ← book_append] at hrest
    rw [timerDeliveries, hstep₀]
    exact hrest

theorem Booked.timerDeliveries {is : List Nat} {d : Delivery}
    (hd : d ∈ timerDeliveries c now is k) : d.Proper c waits := by
  induction is generalizing k log with
  | nil => cases hd
  | cons i is ih =>
    rw [Kernel.timerDeliveries, List.mem_append] at hd
    rcases hd with hd | hd
    · split at hd
      · obtain rfl := List.mem_singleton.mp hd
        exact h.proper c _ _
      · cases hd
    · split at hd
      · cases hd
      · rename_i hstep
        exact ih (h.timerStep hstep).1 hd

theorem Booked.sleepersWoken (c : Cpu) : Booked waits log st (k.sleepersWoken c) :=
  h.quiet (c := c) fun _ _ _ =>
    .head (.deadline (BitVec.allOnes 64)) 
      (does_foldl (D := { Doing.quiet with ticks := True })
        (fun _ t => does_wakeSleeper trivial t) _).acts

theorem Booked.tickDeadlines (hs : k.tickDeadlines c = some k') :
    Booked waits (Ledger.book c waits k.notifCount log (k.deadlineDeliveries c)) st k' := by
  unfold deadlineDeliveries
  unfold Kernel.tickDeadlines at hs
  split at hs
  · rename_i hearly
    cases hs
    rw [if_pos hearly, book_nil]
    exact h
  rename_i hdue
  rw [if_neg hdue]
  dsimp only at hs
  split at hs
  · cases hs
  rename_i k₃ next hrescan
  cases hs
  have hloop := (h.sleepersWoken c).timerLoop hrescan
  rw [(k.sameTables_sleepersWoken c).notifCount] at hloop
  exact hloop.quiet (c := c) fun _ _ _ => acts_schedNoteDeadline _

theorem Booked.schedTick (hs : k.schedTick c = some k') :
    Booked waits (Ledger.book c waits k.notifCount log (k.tickDeliveries c)) st k' := by
  unfold Kernel.schedTick at hs
  dsimp only at hs
  split at hs
  · cases hs
  rename_i k₁ hticked
  cases hs
  have hbooked : Booked waits (Ledger.book c waits k.notifCount log (k.tickDeliveries c)) st
    k₁ := by
    unfold tickDeliveries
    by_cases hc : c = 0
    · rw [if_pos hc] at hticked ⊢
      have hnow : Booked waits log st { k with nowTicks := k.tickTime c } :=
        h.quiet (c := c) fun _ ht _ => .single (.tick _ ht)
      exact hnow.tickDeadlines hticked
    · rw [if_neg hc] at hticked ⊢
      cases hticked
      rwa [book_nil]
  exact hbooked.quiet (c := c) fun _ _ ha =>
    .head (.quiet (alike_schedTickLocal ..)) (does_schedArmNextDeadline (D := .quiet) ha).acts

theorem Booked.tickDeliveries {d : Delivery} (hd : d ∈ k.tickDeliveries c) : d.Proper c waits := by
  unfold Kernel.tickDeliveries deadlineDeliveries at hd
  split at hd
  · split at hd
    · cases hd
    · have hnow : Booked waits log st { k with nowTicks := k.tickTime c } :=
        h.quiet (c := c) fun _ ht _ => .single (.tick _ ht)
      exact (hnow.sleepersWoken c).timerDeliveries hd
  · cases hd

/-! ## Calls -/

theorem Booked.modUctx (f : Uctx → Uctx) : Booked waits log st (k.modUctx me f) :=
  { h with watched := h.watched.modUctx f }

theorem Booked.take (hidx : idx < k.notifCount) :
    Booked waits (fun j => log j ++ if idx = j then [.take (k.notifTable idx).word] else []) st
      { k with notifTable := update k.notifTable idx { k.notifTable idx with word := 0 } } := by
  have hwaiter : ∀ j, (update k.notifTable idx { k.notifTable idx with word := 0 } j).waiter =
      (k.notifTable j).waiter := fun j => by
    by_cases hj : j = idx
    · subst hj
      rw [update_self]
    · rw [update_of_ne hj]
  refine ⟨h.watched.word idx 0, fun {j w} h₀ heq => ?_, fun {j} hj => ?_, fun {j} hj => ?_⟩
  · rw [hwaiter] at h₀ heq
    exact h.waits h₀ heq
  · have hne : idx ≠ j := fun heq => absurd hidx (not_lt.mpr (heq ▸ hj))
    simp [hne, h.fresh hj]
  · by_cases hj' : idx = j
    · subst hj'
      simpa using (h.conserved hidx).take
    · simpa [hj', update_of_ne (Ne.symm hj')] using h.conserved hj

theorem Booked.rebase : Booked waits log (fun t => (k.tcb t).state) k :=
  { h with watched := h.watched.rebase }

theorem Booked.takeReturn (hidx : idx < k.notifCount) (hrun : (k.tcb me).state = .running)
    (hk₁ : k₁ = ({ k with
      notifTable := update k.notifTable idx { k.notifTable idx with word := 0 } } : Kernel).modUctx
        me fun f => { f with rax := IpcErr.none.toWord, r8 := (k.notifTable idx).word }) :
    Booked waits (fun j => log j ++ if idx = j then k₁.returned me else []) st k₁ := by
  have htcb : k₁.tcb me = { k.tcb me with
      uctx :=
        { (k.tcb me).uctx with rax := IpcErr.none.toWord, r8 := (k.notifTable idx).word } } := by
    rw [hk₁, Kernel.modUctx, modTcb_tcb_self]
  have hreturned : k₁.returned me = [.take (k.notifTable idx).word] := by
    unfold returned
    rw [htcb]
    exact if_pos ⟨by simp [hrun], rfl⟩
  rw [hreturned, hk₁]
  exact (h.take hidx).modUctx _

theorem Booked.callNotifyPoll {cap : Kcap} (hrun : (k.tcb me).state = .running)
    (hv : k.validate me.tid ((k.tcb me).uctx.r8.setWidth 32) .notification = some cap) :
    Booked waits (fun j =>
      log j ++ if cap.addr.toNat = j then (k.callNotifyPoll me).returned me else []) st
      (k.callNotifyPoll me) := by
  unfold Kernel.callNotifyPoll capNotifPoll
  rw [hv]
  dsimp only
  by_cases hw : (k.notifTable cap.addr.toNat).word = 0
  · rw [if_pos hw, if_pos hw]
    have hreturned : (k.setRax me .wouldblock).returned me = [] := by
      refine if_neg fun hr => ?_
      have hrax := hr.2
      rw [setRax, Kernel.modUctx, modTcb_tcb_self] at hrax
      exact absurd hrax (by simp [IpcErr.toWord])
    simp only [hreturned, ite_self, List.append_nil]
    exact h.modUctx _
  · rw [if_neg hw, if_neg hw]
    exact h.takeReturn (h.watched.validate hv) hrun rfl

theorem Booked.register (hidx : idx < k.notifCount)
    (hrun : (k.tcb me).state = .running) (hlink : ¬ k.core.sq.Linked me) (hk₁ : k₁ = ({ k with
      notifTable := update k.notifTable idx
        { k.notifTable idx with waiter := me.tid } } : Kernel).setState me .waitNotification) :
    Booked (update waits me idx) log (fun t => (k₁.tcb t).state) k₁ := by
  have hcount : k₁.notifCount = k.notifCount := by rw [hk₁]; rfl
  have htable : k₁.notifTable = update k.notifTable idx
      { k.notifTable idx with waiter := me.tid } := by rw [hk₁]; rfl
  refine ⟨h.watched.register hidx hrun hlink hk₁, fun {j w} h₀ heq => ?_, fun hj =>
    ?_, fun {j} hj => ?_⟩
  · rw [htable] at h₀ heq
    by_cases hj : j = idx
    · subst hj
      rw [update_self] at heq
      rw [← Slot.tid_inj heq, update_self]
    · rw [update_of_ne hj] at h₀ heq
      have hne : w ≠ me := fun hme => h.watched.waiter_ne hrun h₀ (hme ▸ heq)
      rw [update_of_ne hne]
      exact h.waits h₀ heq
  · exact h.fresh (hcount ▸ hj)
  · rw [hcount] at hj
    have hword : (k₁.notifTable j).word = (k.notifTable j).word := by
      rw [htable]
      by_cases hj : j = idx
      · subst hj
        rw [update_self]
      · rw [update_of_ne hj]
    rw [hword]
    exact h.conserved hj

theorem Booked.callNotifyWait {cap : Kcap}
    (hrun : (k.tcb me).state = .running) (hlink : ¬ k.core.sq.Linked me)
    (hv : k.validate me.tid ((k.tcb me).uctx.r8.setWidth 32) .notification = some cap)
    (hk₁ : k.callNotifyWait me = k₁) :
    Booked (if (k₁.tcb me).state = .waitNotification then update waits me cap.addr.toNat else waits)
      (fun j => log j ++ if cap.addr.toNat = j then k₁.returned me else [])
        (fun t => (k₁.tcb t).state)
      k₁ := by
  unfold Kernel.callNotifyWait capNotifWaitBegin at hk₁
  rw [hv] at hk₁
  dsimp only at hk₁
  by_cases hw : (k.notifTable cap.addr.toNat).word = 0
  · rw [if_neg (not_not.mpr hw)] at hk₁
    dsimp only at hk₁
    rw [if_neg (not_not.mpr rfl)] at hk₁
    have hstate : (k₁.tcb me).state = .waitNotification := by
      rw [← hk₁, schedBlock, setState, modTcb_tcb_self]
    have hreturned : k₁.returned me = [] := if_neg fun hr => hr.1 hstate
    simp only [hreturned, ite_self, List.append_nil, if_pos hstate]
    exact h.register (h.watched.validate hv) hrun hlink hk₁.symm
  · rw [if_pos hw] at hk₁
    dsimp only at hk₁
    rw [if_pos hw] at hk₁
    have hstate : (k₁.tcb me).state ≠ .waitNotification := by
      rw [← hk₁, Kernel.modUctx, modTcb_tcb_self]
      simp [hrun]
    rw [if_neg hstate]
    exact (h.takeReturn (h.watched.validate hv) hrun hk₁.symm).rebase

theorem Booked.callNotifySignal (slot : BitVec 32) (bits : Word) :
    Booked waits (Ledger.book c waits k.notifCount log
      (match k.validate me.tid slot .notification with
        | none => []
        | some cap => [⟨k, cap.addr.toNat, bits⟩])) st
      (k.finish me (k.capNotifSignal c me.tid slot bits) .noCap) := by
  unfold capNotifSignal finish setRax
  cases k.validate me.tid slot .notification with
  | none =>
    dsimp only [Option.map_none]
    rw [book_nil]
    exact h.modUctx _
  | some cap =>
    dsimp only [Option.map_some]
    exact (h.notifDeliver c cap.addr.toNat bits).modUctx _

end Booked

/-! ## Sections -/

theorem Booked.entered (h : Booked waits log (fun t => (k.tcb t).state) k) (l : Label) :
    Booked waits log (fun t => (k.tcb t).state) (k.entered l) := by
  have htables := k.sameTables_entered l
  refine ⟨h.watched.entered l, fun h₀ heq => ?_, fun hidx => ?_, fun hidx => ?_⟩
  · rw [htables.notifTable] at h₀ heq
    exact h.waits h₀ heq
  · exact h.fresh (htables.notifCount ▸ hidx)
  · rw [htables.notifTable]
    exact h.conserved (htables.notifCount ▸ hidx)

variable {w : Ledger}

/-- A section that takes no part in waits and polls, with the deliveries it makes. -/
theorem log'_of_asked_none (h : w.kernel.asked l = none) :
    w.log' l = Ledger.book l.cpu w.waits w.kernel.notifCount w.log (w.kernel.deliveries l) ∧
      w.waits' l = w.waits := by
  refine ⟨funext fun idx => ?_, ?_⟩
  · simp [Ledger.log', h]
  · simp [Ledger.waits', h]

theorem log'_of_asked {cur : Slot} (h : w.kernel.asked l = some (cur, idx))
    (hk₁ : w.kernel.handled l = some k₁) (hnone : w.kernel.deliveries l = []) :
    w.log' l = (fun j => w.log j ++ if idx = j then k₁.returned cur else []) ∧
      w.waits' l = if (k₁.tcb cur).state = .waitNotification then update w.waits cur idx
        else w.waits := by
  refine ⟨funext fun j => ?_, ?_⟩
  · simp [Ledger.log', h, hk₁, hnone]
  · simp [Ledger.waits', h, hk₁]

variable (h : Booked w.waits w.log (fun t => (w.kernel.tcb t).state) w.kernel)
include h

theorem Booked.other (ho : w.kernel.Orderly heard) (hok : w.kernel.Spares l)
    (hacts : Acts (w.kernel.effects l) l.cpu (w.kernel.entered l) k₁)
    (hnone : w.kernel.deliveries l = []) (hasked : w.kernel.asked l = none)
    (hn : ¬ (w.kernel.effects l).notifies) (hw : ¬ (w.kernel.effects l).watches) :
    Booked (w.waits' l) (w.log' l) (fun t => (k₁.tcb t).state) k₁ := by
  have hlog : w.log' l = w.log := by
    funext idx
    simp [Ledger.log', hnone, hasked]
  have hwaits : w.waits' l = w.waits := by simp [Ledger.waits', hasked]
  rw [hlog, hwaits]
  exact (hacts.invariant (fun h hact =>
    h.act hact (ho.sound hok.parked) hn hw hok.signals hok.grants) (h.entered l)).rebase

/-- The record stays right across a system call. -/
theorem Booked.call {e : Entry} {cur : Slot} (ho : w.kernel.Orderly heard)
    (hok : w.kernel.Spares (.trap c e)) (hv : e.frame.vector.toNat = 0x30)
    (hcur : w.kernel.current c = some cur) (hk₁ : w.kernel.handled (.trap c e) = some k₁)
    (hacts : Acts (w.kernel.effects (.trap c e)) c (w.kernel.enter c e) k₁) :
    Booked (w.waits' (.trap c e)) (w.log' (.trap c e)) (fun t => (k₁.tcb t).state) k₁ := by
  have hcaller : w.kernel.caller c e = some cur := (if_pos hv).trans hcur
  have htimer : ¬ (e.frame.vector.toNat = 32 ∧ e.irqHandled = false) := by omega
  have hstart := h.entered (.trap c e)
  have hrun : ((w.kernel.enter c e).tcb cur).state = .running :=
    (state_entered w.kernel (.trap c e) cur).trans (ho.single.running hcur)
  have hlink : ¬ (w.kernel.enter c e).core.sq.Linked cur := fun hl =>
    ho.unlinked (by simp [ho.single.running hcur]) ((entered_linked (.trap c e)).mp hl)
  have hdeliveries : decode ((w.kernel.enter c e).tcb cur).uctx ≠ .notifySignal →
      w.kernel.deliveries (.trap c e) = [] := fun hne => by
    simp only [deliveries, if_neg htimer, hcaller, if_neg hne]
  have hsys := (trap_call hv hcur).1 ▸ hk₁
  by_cases hsignal : decode ((w.kernel.enter c e).tcb cur).uctx = .notifySignal
  · have hasked : w.kernel.asked (.trap c e) = none := by simp [asked, hcaller, hsignal]
    obtain ⟨hlog, hwaits⟩ := log'_of_asked_none hasked
    rw [hlog, hwaits]
    simp only [deliveries, if_neg htimer, hcaller, if_pos hsignal]
    rw [sysIpc, hsignal] at hsys
    cases hsys
    exact (hstart.callNotifySignal ..).rebase
  have hnone := hdeliveries hsignal
  by_cases hask : decode ((w.kernel.enter c e).tcb cur).uctx = .notifyWait ∨
      decode ((w.kernel.enter c e).tcb cur).uctx = .notifyPoll
  swap
  · -- every other call
    refine h.other ho hok hacts hnone (by simp [asked, hcaller, hask]) ?_ ?_
    · rw [(trap_call hv hcur).2]
      intro hmem
      simp only [callEffects, List.mem_cons, List.not_mem_nil, or_false] at hmem
      exact hmem.elim hsignal hask
    · rw [(trap_call hv hcur).2]
      exact fun hw => hask (.inl hw)
  cases hcap : (w.kernel.enter c e).validate cur.tid
      (((w.kernel.enter c e).tcb cur).uctx.r8.setWidth 32) .notification with
  | none =>
    have hasked : w.kernel.asked (.trap c e) = none := by
      simp only [asked, hcaller, if_pos hask, hcap, Option.map_none]
    obtain ⟨hlog, hwaits⟩ := log'_of_asked_none hasked
    rw [hlog, hwaits, hnone, book_nil]
    have hk₁ : k₁ = (w.kernel.enter c e).setRax cur .noCap := by
      rcases hask with hask | hask <;> rw [sysIpc, hask] at hsys <;> cases hsys
      · simp only [Kernel.callNotifyWait, capNotifWaitBegin, hcap]
      · simp only [Kernel.callNotifyPoll, capNotifPoll, hcap]
    rw [hk₁]
    exact (hstart.modUctx _).rebase
  | some cap =>
    have hasked : w.kernel.asked (.trap c e) = some (cur, cap.addr.toNat) := by
      simp only [asked, hcaller, if_pos hask, hcap, Option.map_some]
    obtain ⟨hlog, hwaits⟩ := log'_of_asked hasked hk₁ hnone
    rw [hlog, hwaits]
    rcases hask with hask | hask <;> rw [sysIpc, hask] at hsys <;> have hsys := Option.some.inj hsys
    · exact hstart.callNotifyWait hrun hlink hcap hsys
    have hpoll := hstart.callNotifyPoll hrun hcap
    have hstate : (k₁.tcb cur).state ≠ .waitNotification := by
      rw [← hsys, state_callNotifyPoll]
      simp [hrun]
    rw [if_neg hstate, ← hsys]
    exact hpoll.rebase

/-- **Handlers.**  The record agrees with the kernel after the handler of a section. -/
theorem Booked.handled (ho : w.kernel.Orderly heard) (hok : w.kernel.Spares l)
    (hk₁ : w.kernel.handled l = some k₁)
    (hacts : Acts (w.kernel.effects l) l.cpu (w.kernel.entered l) k₁) :
    Booked (w.waits' l) (w.log' l) (fun t => (k₁.tcb t).state) k₁ := by
  cases l with
  | kern | start => exact h.other ho hok hacts rfl rfl id id
  | trap c e =>
    by_cases htimer : e.frame.vector.toNat = 32 ∧ e.irqHandled = false
    · have hcaller : w.kernel.caller c e = none := if_neg (by omega)
      have hasked : w.kernel.asked (.trap c e) = none := by simp [asked, hcaller]
      obtain ⟨hlog, hwaits⟩ := log'_of_asked_none hasked
      rw [hlog, hwaits, deliveries]
      dsimp only
      rw [if_pos htimer]
      rw [handled_tick htimer] at hk₁
      exact ((h.entered (.trap c e)).schedTick hk₁).rebase
    by_cases hcall : e.frame.vector.toNat = 0x30 ∧ ∃ cur, w.kernel.current c = some cur
    · obtain ⟨hv, cur, hcur⟩ := hcall
      exact h.call ho hok hv hcur hk₁ hacts
    have hcaller : w.kernel.caller c e = none := by
      unfold caller
      split
      · rename_i hv
        exact Option.eq_none_iff_forall_ne_some.mpr fun cur hcur => hcall ⟨hv, cur, hcur⟩
      · rfl
    have hhandling := handling_effects w.kernel (.trap c e)
    refine h.other ho hok hacts (by simp [deliveries, htimer, hcaller])
      (by simp [asked, hcaller]) ?_ ?_
    all_goals
      generalize w.kernel.effects (.trap c e) = G, w.kernel.doing (.trap c e) = D at hhandling
      cases hhandling with
      | quiet | fault => exact id
      | tick timer => exact absurd timer htimer
      | call hv hcur => exact absurd ⟨hv, _, hcur⟩ hcall

/-- The deliveries of a section go to the threads that wait for the object. -/
theorem Booked.deliveries {d : Delivery} (hd : d ∈ w.kernel.deliveries l) :
    d.Proper l.cpu w.waits := by
  cases l with
  | kern | start => cases hd
  | trap c e =>
    have hstart := h.entered (.trap c e)
    unfold Kernel.deliveries at hd
    dsimp only at hd
    split at hd
    · exact hstart.tickDeliveries hd
    split at hd
    · cases hd
    split at hd
    · split at hd
      · cases hd
      · obtain rfl := List.mem_singleton.mp hd
        exact hstart.proper c _ _
    · cases hd

end Kernel

namespace Ledger

variable {w : Ledger}

/-- Between sections the send queues are well formed and the record agrees with the kernel. -/
structure Accurate (w : Ledger) : Prop where
  orderly : w.kernel.Orderly False
  booked : Kernel.Booked w.waits w.log (fun t => (w.kernel.tcb t).state) w.kernel

/-- **Step.** -/
theorem Accurate.step {w' : Ledger} {l : Label} (h : w.Accurate) (hok : w.kernel.Spares l)
    (hs : w.step l = some w') : w'.Accurate := by
  obtain ⟨k', hk', rfl⟩ := Option.map_eq_some_iff.mp hs
  refine ⟨h.orderly.step hok.parked False.elim hk', ?_⟩
  obtain ⟨k₁, hk₁, hhandler, hresume, -⟩ := Kernel.acts_step hk'
  refine (hresume.invariant (fun h hact => ?_) (h.booked.handled h.orderly hok hk₁ hhandler)).rebase
  exact h.act hact (Kernel.sound_resume ..) id id (fun _ => False.elim) id

theorem Accurate.boot (h : w.IsBoot) : w.Accurate := by
  obtain ⟨kernel, waits, log⟩ := w
  obtain ⟨⟨base, size, fpu, rfl⟩, rfl⟩ := h
  exact ⟨Kernel.Orderly.boot False base size fpu, Kernel.Watched.boot base size fpu,
    fun h₀ => absurd rfl h₀, fun _ => rfl, fun h => absurd h (Nat.not_lt_zero _)⟩

/-- In every run in which no signal is sent to a thread in WAIT_NOTIFICATION and no parked
thread is hit, the bits of every notification are conserved, and deliveries change only
threads that wait for the object. -/
theorem conserved_of_spares (h : Lib.Reach step (fun w l => w.kernel.Spares l) IsBoot w) :
    w.Conserved ∧ ∀ l, ∀ d ∈ w.kernel.deliveries l, d.Proper l.cpu w.waits := by
  have hw : w.Accurate := h.invariant (fun _ => Accurate.boot) fun _ _ _ h hok hs => h.step hok hs
  exact ⟨fun _ hidx => hw.booked.conserved hidx, fun _ _ hd => hw.booked.deliveries hd⟩

def call (flags slot bits : Word) : Label :=
  .trap 0
    { frame := { vector := 0x30, rdx := flags, r8 := slot, r9 := bits, r10 := 1, r12 := 6 }
      ctx := ⟨0, 0⟩ }

def objectsRun : List Label :=
  [.spawn 0x1000, .spawn 0x2000, .kern 0 (.kcapGrant 1 .untyped 0x100000 0x100000),
    .kern 0 (.capRetype {} 1 0 4 0 0 0 0), .kern 0 (.capRetype {} 1 0 5 0 0 0 0), .start 0]

def start : Ledger := ⟨.boot 0x100000 0x100000 0, fun _ => 0, fun _ => []⟩

def timerRun : List Label :=
  objectsRun ++ [call 0x100 1 5, call 0x200 1 0, call 0x800 2 1, call 0x200 1 0,
    .trap 0 { frame := { vector := 32 }, ctx := ⟨0, 0⟩ }]

theorem conserved_timerRun :
    ∃ w, Lib.run step (fun w l => w.kernel.Spares l) start timerRun = some w ∧
      w.log 0 = [.signal 5, .take 5, .signal 6, .take 6] ∧ w.Conserved :=
  Lib.exists_run ⟨⟨0x100000, 0x100000, 0, rfl⟩, rfl⟩ (by decide +kernel) fun hw _ =>
    (conserved_of_spares hw).1

/-- Thread 1 waits for its notification and thread 2 sends it a signal that is ignored by
default.  Thread 1 runs again and signals the notification. -/
def staleWaiterRun : List Label :=
  objectsRun ++ [call 0x200 1 0, .kill 0 1 17, .yield 0, call 0x100 1 5]

/-- After `staleWaiterRun` the bits are neither pending nor returned by a wait or poll. -/
theorem not_conserved_staleWaiterRun :
    ¬ ∀ w, Lib.Reach step (fun _ _ => True) IsBoot w → w.Conserved := by
  intro h
  obtain ⟨w, hw, hcount, hlog, hword⟩ : ∃ w, Lib.Reach step (fun _ _ => True) IsBoot w ∧
    w.kernel.notifCount = 1 ∧
      w.log 0 = [.signal 5] ∧ (w.kernel.notifTable 0).word = 0 :=
    Lib.observed (s := start) staleWaiterRun ⟨⟨0x100000, 0x100000, 0, rfl⟩, rfl⟩ (by decide +kernel)
  have hconserved := h w hw 0 (by omega)
  rw [hlog, hword] at hconserved
  exact absurd hconserved.pending (by decide)

end Ledger

end Robu
