import Robu.Kernel.ReadyQueue

/-!
# The order of the ready queues

Seen from outside the ready queues are one stable priority queue: threads wait in the
order of their pushes, and a pop hands out the first one of the highest priority among
those that are READY.  A thread that stops being READY stays where it is until a pop
comes across it.

`Kernel.Ordered k q` connects the two views: `q` is the list of the queued threads in
the order of their pushes, and the queue of a priority holds the threads of `q` that
have it, in that order.
-/

namespace Robu

namespace Kernel

variable {k k' : Kernel} {q : List Slot} {p : Prio} {t : Slot}

/-! ## The highest level -/

theorem le_of_highestBit {b : BitVec 32} (h : highestBit b = some p) {r : Prio}
    (hr : b.getLsbD r.val = true) : r ≤ p := by
  obtain ⟨-, as, bs, heq, has⟩ := List.find?_eq_some_iff_append.mp h
  have hsorted : (as ++ p :: bs).Pairwise (· > ·) :=
    heq ▸ List.pairwise_reverse.mpr (List.pairwise_lt_finRange 32)
  have hmem : r ∈ as ++ p :: bs := heq ▸ List.mem_reverse.mpr (List.mem_finRange r)
  rcases List.mem_append.mp hmem with hr' | hr'
  · exact absurd hr (by simpa using has r hr')
  · rcases List.mem_cons.mp hr' with rfl | hr'
    · exact le_rfl
    · exact le_of_lt ((List.pairwise_cons.mp (List.pairwise_append.mp hsorted).2.1).1 r hr')

theorem not_getLsbD_of_highestBit {b : BitVec 32} (h : highestBit b = none) (r : Prio) :
    ¬ b.getLsbD r.val = true :=
  List.find?_eq_none.mp h r (List.mem_reverse.mpr (List.mem_finRange r))

/-! ## The push order -/

def level (k : Kernel) (q : List Slot) (p : Prio) : List Slot :=
  q.filter fun t : Slot => (k.tcb t).prio = p

theorem mem_level : t ∈ k.level q p ↔ t ∈ q ∧ (k.tcb t).prio = p := by
  simp [level]

/-- The queued threads, in the order of their pushes, are `q`. -/
structure Ordered (k : Kernel) (q : List Slot) : Prop where
  nodup : q.Nodup
  wf : k.ready.WF (k.level q)

theorem Ordered.mem_iff (h : k.Ordered q) (t : Slot) : t ∈ q ↔ (k.tcb t).inReadyQ = true := by
  have := h.wf.mem_iff (k.tcb t).prio t
  rw [mem_level, and_iff_left rfl] at this
  exact this.trans (and_iff_left rfl)

/-- Whatever leaves links, levels and flags alone, and the priorities of the queued
threads, keeps the order. -/
structure Elsewhere (k k' : Kernel) : Prop where
  queues : k'.ready.queues = k.ready.queues
  flag : k'.ready.flag = k.ready.flag
  bitmap : k'.ready.bitmap = k.ready.bitmap
  prio : ∀ t : Slot, (k.tcb t).inReadyQ = true → (k'.tcb t).prio = (k.tcb t).prio

theorem Ordered.elsewhere (h : k.Ordered q) (he : Elsewhere k k') : k'.Ordered q := by
  have hlevels : k'.level q = k.level q := by
    funext p
    refine List.filter_congr fun t ht => ?_
    rw [he.prio t ((h.mem_iff t).mp ht)]
  refine ⟨h.nodup, ?_⟩
  rw [hlevels]
  refine ⟨he.queues ▸ h.wf.holds, fun p t => ?_, fun p => he.bitmap ▸ h.wf.bit_iff p⟩
  rw [h.wf.mem_iff, he.flag]
  constructor
  · rintro ⟨hflag, rfl⟩
    exact ⟨hflag, he.prio t hflag⟩
  · rintro ⟨hflag, rfl⟩
    exact ⟨hflag, (he.prio t hflag).symm⟩

/-- **Push.**  A thread that is not queued goes to the end of the order. -/
theorem Ordered.rqPush (h : k.Ordered q) (t : Slot) :
    (k.rqPush t).Ordered (if t ∈ q then q else q ++ [t]) := by
  have hwf := h.wf.push t
  rw [← ready_rqPush] at hwf
  have hprio : ∀ u : Slot, ((k.rqPush t).tcb u).prio = (k.tcb u).prio :=
    congrFun (congrArg ReadyView.prio (k.ready_rqPush t) |>.trans (by
      unfold ReadyView.push; split <;> rfl))
  have hlevel : (k.rqPush t).level = k.level := by
    funext q p
    simp only [level, hprio]
  by_cases ht : t ∈ q
  · have hflag : k.ready.flag t = true := (h.mem_iff t).mp ht
    rw [if_pos ht]
    refine ⟨h.nodup, ?_⟩
    rw [hlevel]
    simpa only [hflag, if_true] using hwf
  · have hflag : k.ready.flag t = false := Bool.eq_false_iff.mpr (mt (h.mem_iff t).mpr ht)
    rw [if_neg ht]
    refine ⟨List.concat_eq_append ▸ h.nodup.concat ht, ?_⟩
    simp only [hflag, Bool.false_eq_true, if_false] at hwf
    convert hwf using 1
    funext p
    rw [hlevel]
    rcases eq_or_ne p (k.ready.prio t) with rfl | hp
    · have hself : decide ((k.tcb t).prio = k.ready.prio t) = true := decide_eq_true rfl
      simp only [Function.update_self, level, List.filter_append, List.filter_singleton, hself,
        cond_true]
    · have hself : decide ((k.tcb t).prio = p) = false := decide_eq_false hp.symm
      simp only [Function.update_of_ne hp, level, List.filter_append, List.filter_singleton,
        hself, cond_false, List.append_nil]

/-- **Unlink.**  The head of a level leaves the order, and nothing else does. -/
theorem Ordered.rqUnlink (h : k.Ordered q) {rest : List Slot} (hl : k.level q p = t :: rest) :
    (k.rqUnlink p none t).Ordered (q.filter (· ≠ t)) := by
  have hwf := h.wf.unlink_head hl
  rw [← ready_rqUnlink] at hwf
  have hprio : ∀ u : Slot, ((k.rqUnlink p none t).tcb u).prio = (k.tcb u).prio :=
    congrFun (congrArg ReadyView.prio (k.ready_rqUnlink t p none))
  refine ⟨h.nodup.filter _, ?_⟩
  convert hwf using 1
  funext r
  have hswap : (k.rqUnlink p none t).level (q.filter (· ≠ t)) r = (k.level q r).filter (· ≠ t) := by
    simp only [level, List.filter_filter, hprio, Bool.and_comm]
  have htp : (k.tcb t).prio = p := (mem_level.mp (hl ▸ List.mem_cons_self)).2
  rw [hswap]
  rcases eq_or_ne r p with rfl | hr
  · have hnd : (t :: rest).Nodup := hl ▸ h.nodup.filter _
    rw [hl, Function.update_self, List.filter_cons_of_neg (by simp)]
    refine List.filter_eq_self.mpr fun u hu => ?_
    simpa using ne_of_mem_of_not_mem hu (List.nodup_cons.mp hnd).1
  · rw [Function.update_of_ne hr]
    refine List.filter_eq_self.mpr fun u hu => ?_
    refine decide_eq_true ?_
    rintro rfl
    exact hr ((mem_level.mp hu).2.symm.trans htp)

/-! ## Popping -/

/-- A queued thread that a pop may hand out: READY, and of the highest priority among
the queued threads that are READY. -/
def Foremost (k : Kernel) (q : List Slot) (t : Slot) : Prop :=
  (k.tcb t).state = .ready ∧ ∀ u ∈ q, (k.tcb u).state = .ready → (k.tcb u).prio ≤ (k.tcb t).prio
deriving Decidable

/-- What a pop does: `r` is handed out, and `k'` is the state afterwards. -/
structure Pops (k : Kernel) (q : List Slot) (r : Option Slot) (k' : Kernel) : Prop where
  /-- The thread is the first one pushed of the highest priority. -/
  first : r = q.find? (k.Foremost q ·)
  /-- There is none only if no queued thread is READY. -/
  none_iff : r = none ↔ ∀ t ∈ q, (k.tcb t).state ≠ .ready
  popped : ∀ t ∈ r, (k'.tcb t).inReadyQ = false
  /-- Every other thread that has left the queue is no longer READY. -/
  discards : ∀ t ∈ q, (k'.tcb t).inReadyQ = false → r = some t ∨ (k.tcb t).state ≠ .ready
  /-- The threads that stay keep their order. -/
  order : k'.Ordered (q.filter fun t : Slot => (k'.tcb t).inReadyQ)
  same : ∀ t : Slot, (k'.tcb t).state = (k.tcb t).state ∧ (k'.tcb t).prio = (k.tcb t).prio

theorem same_rqUnlink (k : Kernel) (p : Prio) (t u : Slot) :
    ((k.rqUnlink p none t).tcb u).state = (k.tcb u).state ∧
      ((k.rqUnlink p none t).tcb u).prio = (k.tcb u).prio :=
  ⟨congrFun (show (k.setQueued t false).view Tcb.state = k.view Tcb.state from
      k.view_modTcb_frame t rfl) u,
    congrFun (congrArg ReadyView.prio (k.ready_rqUnlink t p none)) u⟩

/-- The head of the highest level, if it is READY, is the first of the foremost. -/
theorem Ordered.first_of_head (h : k.Ordered q) (hp : highestBit k.readyBitmap = some p)
    {rest : List Slot} (hl : k.level q p = t :: rest)
    (hready : (k.tcb t).state = .ready) : some t = q.find? (k.Foremost q ·) := by
  obtain ⟨l₁, l₂, rfl, hl₁, htp, -⟩ := List.filter_eq_cons_iff.mp hl
  simp only [decide_eq_true_eq] at hl₁ htp
  have hle : ∀ u ∈ l₁ ++ t :: l₂, (k.tcb u).prio ≤ p := by
    intro u hu
    refine le_of_highestBit hp ((h.wf.bit_iff _).mpr ?_)
    exact List.ne_nil_of_mem (mem_level.mpr ⟨hu, rfl⟩)
  refine (List.find?_eq_some_iff_append.mpr ⟨?_, l₁, l₂, rfl, fun u hu => ?_⟩).symm
  · exact decide_eq_true ⟨hready, fun u hu _ => htp ▸ hle u hu⟩
  · have hlt : (k.tcb u).prio < p :=
      lt_of_le_of_ne (hle u (List.mem_append_left _ hu)) (hl₁ u hu)
    have hnot : ¬ k.Foremost (l₁ ++ t :: l₂) u := fun hu' =>
      absurd (hu'.2 t (by simp) hready) (htp ▸ not_le.mpr hlt)
    simpa using hnot

/-- Taking a thread that is not READY off the order changes nothing for a pop. -/
theorem Pops.of_discard (hready : (k.tcb t).state ≠ .ready) {k₁ : Kernel}
    (hsame : ∀ u : Slot, (k₁.tcb u).state = (k.tcb u).state ∧ (k₁.tcb u).prio = (k.tcb u).prio)
    {r : Option Slot} (hgone : (k'.tcb t).inReadyQ = false)
    (h : k₁.Pops (q.filter (· ≠ t)) r k') : k.Pops q r k' := by
  have hmem : ∀ u : Slot, (k.tcb u).state = .ready → (u ∈ q.filter (· ≠ t) ↔ u ∈ q) := by
    intro u hu
    have : u ≠ t := by rintro rfl; exact hready hu
    simp [this]
  have hforemost : ∀ u : Slot, decide (decide (u ≠ t) = true ∧
      decide (k₁.Foremost (q.filter (· ≠ t)) u) = true) = decide (k.Foremost q u) := by
    intro u
    rw [decide_eq_decide, decide_eq_true_iff, decide_eq_true_iff]
    simp only [Foremost, (hsame _).1, (hsame _).2]
    constructor
    · rintro ⟨-, hu, hmax⟩
      exact ⟨hu, fun w hw hwr => hmax w ((hmem w hwr).mpr hw) hwr⟩
    · rintro ⟨hu, hmax⟩
      refine ⟨?_, hu, fun w hw hwr => hmax w ((hmem w hwr).mp hw) hwr⟩
      rintro rfl
      exact hready hu
  refine ⟨?_, ?_, h.popped, fun u hu hgone' => ?_, ?_, fun u => ?_⟩
  · rw [h.first, List.find?_filter]
    exact congrArg (q.find? ·) (funext hforemost)
  · rw [h.none_iff]
    constructor
    · intro hnone u hu hur
      exact hnone u ((hmem u hur).mpr hu) ((hsame u).1.trans hur)
    · intro hnone u hu
      rw [(hsame u).1]
      exact hnone u (List.mem_filter.mp hu).1
  · rcases eq_or_ne u t with rfl | hut
    · exact .inr hready
    · rw [← (hsame u).1]
      exact h.discards u (List.mem_filter.mpr ⟨hu, by simpa using hut⟩) hgone'
  · convert h.order using 1
    rw [List.filter_filter]
    refine List.filter_congr fun u _ => ?_
    rcases eq_or_ne u t with rfl | hut
    · simp [hgone]
    · simp [hut]
  · exact ⟨(h.same u).1.trans (hsame u).1, (h.same u).2.trans (hsame u).2⟩

/-- A thread off the order stays off it in a pop. -/
theorem Pops.inReadyQ_eq_false {r : Option Slot} (h : k.Pops q r k') (ht : t ∉ q) :
    (k'.tcb t).inReadyQ = false := by
  refine Bool.eq_false_iff.mpr fun hflag => ht ?_
  exact (List.mem_filter.mp ((h.order.mem_iff t).mpr hflag)).1

/-- **The loop.**  Each turn takes a thread off the order, so that as many turns as there
are queued threads, and one more, come to an end. -/
theorem Ordered.rqPopLoop (h : k.Ordered q) {fuel : Nat} (hfuel : q.length < fuel) :
    ∃ r k', rqPopLoop fuel k = some (r, k') ∧ k.Pops q r k' := by
  induction fuel generalizing k q with
  | zero => exact absurd hfuel (Nat.not_lt_zero _)
  | succ fuel ih =>
    unfold Kernel.rqPopLoop
    cases hp : highestBit k.readyBitmap with
    | none =>
      obtain rfl : q = [] := by
        refine List.eq_nil_iff_forall_not_mem.mpr fun t ht => ?_
        refine not_getLsbD_of_highestBit hp (k.tcb t).prio ((h.wf.bit_iff _).mpr ?_)
        exact List.ne_nil_of_mem (mem_level.mpr ⟨ht, rfl⟩)
      exact ⟨none, k, rfl, rfl, by simp, by simp, by simp, h, fun _ => ⟨rfl, rfl⟩⟩
    | some p =>
      have hne := (h.wf.bit_iff p).mp (getLsbD_of_highestBit hp)
      obtain ⟨t, rest, hl⟩ := List.exists_cons_of_ne_nil hne
      have hhead : k.readyHead p = some t := by
        have := (h.wf.holds.chain p).head_eq
        rwa [hl] at this
      have ht : t ∈ q := (mem_level.mp (hl ▸ List.mem_cons_self)).1
      have h₁ := h.rqUnlink hl
      have hoff : t ∉ q.filter (· ≠ t) := by simp
      have hflag := Bool.eq_false_iff.mpr (mt (h₁.mem_iff t).mpr hoff)
      simp only [hhead, (k.same_rqUnlink p t t).1]
      split
      · rename_i hready
        refine ⟨some t, _, rfl, h.first_of_head hp hl hready, ?_, ?_, ?_, ?_, k.same_rqUnlink p t⟩
        · simpa using ⟨t, ht, hready⟩
        · rintro u ⟨⟩
          exact hflag
        · intro u hu hgone
          refine .inl (congrArg some (Eq.symm ?_))
          by_contra hut
          have := (h₁.mem_iff u).mp (List.mem_filter.mpr ⟨hu, by simpa using hut⟩)
          rw [hgone] at this
          cases this
        · have hstay : (q.filter fun u : Slot => ((k.rqUnlink p none t).tcb u).inReadyQ) =
              q.filter (· ≠ t) := by
            refine List.filter_congr fun u hu => ?_
            rw [Bool.eq_iff_iff, ← h₁.mem_iff u, List.mem_filter]
            exact and_iff_right hu
          rw [hstay]
          exact h₁
      · rename_i hready
        have hlen : (q.filter (· ≠ t)).length < fuel := by
          refine lt_of_lt_of_le ?_ (Nat.le_of_lt_succ hfuel)
          exact List.length_filter_lt_length_iff_exists.mpr ⟨t, ht, by simp⟩
        obtain ⟨r, k', hr, hpops⟩ := ih h₁ hlen
        exact ⟨r, k', hr, hpops.of_discard hready (k.same_rqUnlink p t)
          (hpops.inReadyQ_eq_false hoff)⟩

/-! ## Runs -/

/-- The operations on the ready queues, and everything that leaves them alone. -/
inductive QueueOp
  | push (t : Slot)
  | pop
  | other (k' : Kernel)

def queueStep (s : Kernel × List Slot) : QueueOp → Option (Kernel × List Slot)
  | .push t => some (s.1.rqPush t, if t ∈ s.2 then s.2 else s.2 ++ [t])
  | .pop => s.1.rqPopHighest.map fun r => (r.2, s.2.filter fun t : Slot => (r.2.tcb t).inReadyQ)
  | .other k' => some (k', s.2)

/-- READY threads are pushed; other changes, of states in particular, leave the links
alone. -/
def QueueAllowed (s : Kernel × List Slot) : QueueOp → Prop
  | .push t => (s.1.tcb t).state = .ready
  | .pop => True
  | .other k' => Elsewhere s.1 k'

def QueuesEmpty (s : Kernel × List Slot) : Prop :=
  (∀ p, s.1.readyHead p = none ∧ s.1.readyTail p = none) ∧ s.1.readyBitmap = 0 ∧
    (∀ t : Slot, (s.1.tcb t).inReadyQ = false) ∧ s.2 = []

theorem Ordered.rqPopHighest (h : k.Ordered q) :
    ∃ r k', k.rqPopHighest = some (r, k') ∧ k.Pops q r k' := by
  have hlen : q.length ≤ 64 := by simpa using h.nodup.length_le_card
  exact h.rqPopLoop (lt_of_le_of_lt hlen (by decide))

theorem Ordered.of_reach {s : Kernel × List Slot}
    (h : Lib.Reach queueStep QueueAllowed QueuesEmpty s) : s.1.Ordered s.2 := by
  refine h.invariant (I := fun s => s.1.Ordered s.2) ?_ ?_
  · rintro ⟨k, q⟩ ⟨hlevels, hbits, hflags, rfl⟩
    refine ⟨List.nodup_nil, ⟨⟨fun p => (hlevels p).1, fun p => (hlevels p).2, ?_⟩, ?_, ?_⟩⟩
    · intro _ _ _ hmem
      cases hmem
    · intro p t
      have hflag : k.ready.flag t = false := hflags t
      simp [level, hflag]
    · intro p
      simp [level, ready, show k.readyBitmap = 0 from hbits]
  · rintro ⟨k, q⟩ op s' hk hok hs
    cases op with
    | push t => cases hs; exact hk.rqPush t
    | pop =>
      obtain ⟨r, k', hr, hpops⟩ := hk.rqPopHighest
      simp only [queueStep, hr, Option.map_some, Option.some.injEq] at hs
      subst hs
      exact hpops.order
    | other k' => cases hs; exact hk.elsewhere hok

/-- After every sequence of pushes of READY threads, changes of states and pops, a pop
comes to an end and hands out the earliest pushed thread of the highest priority among
the queued threads that are READY, none if there is no such thread; it discards only
threads that are no longer READY and leaves the others in their order. -/
theorem rqPopHighest_stable {s : Kernel × List Slot}
    (h : Lib.Reach queueStep QueueAllowed QueuesEmpty s) : ∃ r k', s.1.rqPopHighest = some (r, k') ∧
      s.1.Pops s.2 r k' :=
  (Ordered.of_reach h).rqPopHighest

def threeReady : Kernel :=
  let k := boot 0 0 0
  let k := k.modTcb (.thread 3) fun x => { x with state := .ready, prio := 1 }
  let k := k.modTcb (.thread 5) fun x => { x with state := .ready, prio := 2 }
  k.modTcb (.thread 4) fun x => { x with state := .ready, prio := 2 }

theorem rqPopHighest_stable_threeReady :
    ∃ r k', (((threeReady.rqPush 3).rqPush 5).rqPush 4).rqPopHighest = some (r, k') ∧
      r = some 5 := by
  have h₀ : QueuesEmpty (threeReady, []) := ⟨fun _ => ⟨rfl, rfl⟩, rfl, by decide, rfl⟩
  have h₁ : Lib.Reach queueStep QueueAllowed QueuesEmpty (threeReady, []) := .init h₀
  have hready : ∀ k ∈ [threeReady, threeReady.rqPush 3, (threeReady.rqPush 3).rqPush 5],
      ∀ t ∈ [3, 4, 5], (k.tcb (.thread t)).state = .ready := by decide +kernel
  have h₂ := h₁.step (a := QueueOp.push 3) (hready _ (by simp) 3 (by simp)) rfl
  have h₃ := h₂.step (a := QueueOp.push 5) (hready _ (by simp) 5 (by simp)) rfl
  have h₄ := h₃.step (a := QueueOp.push 4) (hready _ (by simp) 4 (by simp)) rfl
  obtain ⟨r, k', hr, hpops⟩ := rqPopHighest_stable h₄
  exact ⟨r, k', hr, hpops.first.trans (by decide +kernel)⟩

end Kernel

end Robu
