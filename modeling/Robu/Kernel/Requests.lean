import Robu.Kernel.Children
import Robu.Kernel.DeedsCall
import Robu.Kernel.FaultQueue
import Robu.Kernel.Vacant
import Robu.Lib.Tickets

/-!
# Exec requests

A thread that spawns or executes a program leaves a request in one of eight slots and waits
in `WAIT_EXECREQ`; the kernel itself leaves requests too, and polls.  The file server takes
the requests and replies with a slot and its generation.  Either side may die meanwhile.

A `Desk` records beside the kernel how many requests each slot has served and which have an
outcome.  A request of the kernel that is completed keeps its slot until the kernel collects
the result.  If the file server ends before that, the request fails as well.
-/

namespace Robu.Kernel

open Function (update update_of_ne update_self)

variable {D : Doing} {k k' : Kernel} {l : Label} {i : Fin 8} {e : RequestEvent}

/-! ## The life of a slot -/

def RequestEvent.Moves (s s' : ExecreqSlot) : RequestEvent → Prop
  | .accepted => s.state = .empty ∧ s'.state = .queued ∧ s'.generation = s.generation
  | .delivered => s.state = .queued ∧ s'.state = .delivered ∧ s'.generation = s.generation
  | .completed => s.state = .delivered ∧ s'.state = .pollDone ∧ s'.generation = s.generation
  | .answered => s.state = .delivered ∧ s'.state = .empty ∧ s'.generation = s.generation + 1
  | .failed | .cancelled => s.state ≠ .empty ∧ s'.state = .empty ∧ s'.generation = s.generation + 1
  | .collected => s.state = .pollDone ∧ s'.state = .empty ∧ s'.generation = s.generation + 1

/-- What is recorded of an event in slot `i`. -/
def RequestEvent.note (i : Fin 8) (T : Lib.Tickets (Fin 8)) : RequestEvent → Lib.Tickets (Fin 8)
  | .accepted | .delivered => T
  | .completed => T.settle i
  | .answered | .failed | .cancelled => (T.settle i).close i
  | .collected => T.close i

theorem RequestDeed.execSlots_of_ne (h : RequestDeed D i e k k') {j : Fin 8} (hne : j ≠ i) :
    k'.execSlots j = k.execSlots j := by
  cases h <;> exact update_of_ne hne ..

theorem Release.moves (h : Release D k i e) :
    e.Moves (k.execSlots i) ((k.freeSlot i).execSlots i) := by
  have hslot : (k.freeSlot i).execSlots i =
      { k.execSlots i with state := .empty, generation := (k.execSlots i).generation + 1 } :=
    modSlot_execSlots_self ..
  rw [hslot]
  cases h with
  | answered _ delivered => exact ⟨delivered, rfl, rfl⟩
  | failed _ _ occupied | cancelled _ _ occupied => exact ⟨occupied, rfl, rfl⟩
  | collected _ done => exact ⟨done, rfl, rfl⟩

theorem RequestDeed.moves (h : RequestDeed D i e k k') :
    e.Moves (k.execSlots i) (k'.execSlots i) := by
  -- what is put into the slot
  have hput : ∀ {s : ExecreqSlot}, k'.execSlots i = s → e.Moves (k.execSlots i) s →
      e.Moves (k.execSlots i) (k'.execSlots i) := fun heq hs => heq ▸ hs
  cases h with
  | @accept _ _ me params _ empty =>
    exact hput (modSlot_execSlots_self k i fun s => { s with params := params, state := .queued })
      ⟨empty, rfl, rfl⟩
  | acceptPoll _ empty => exact hput (modSlot_execSlots_self k i _) ⟨empty, rfl, rfl⟩
  | deliver _ queued => exact hput (modSlot_execSlots_self k i _) ⟨queued, rfl, rfl⟩
  | done _ _ delivered => exact hput (modSlot_execSlots_self k i _) ⟨delivered, rfl, rfl⟩
  | free release => exact release.moves

/-! ## Threads that wait -/

/-- Every thread in `WAIT_EXECREQ` has a request of its own in the slot it waits for. -/
def Awaited (k : Kernel) : Prop :=
  ∀ t : Slot, t ≠ 0 → (k.tcb t).state = .waitExecreq →
    ∃ i : Fin 8, (k.tcb t).execreqSlot = BitVec.ofNat 32 i.val ∧
      ((k.execSlots i).state = .queued ∨ (k.execSlots i).state = .delivered) ∧
      (k.execSlots i).params.requesterTid = t.tid

theorem SameRequests.awaited (h : k.SameRequests k') (hk : k.Awaited) : k'.Awaited := by
  intro t hne ht
  obtain ⟨hwait, hslot⟩ := h.waits t ht
  obtain ⟨i, hi, hopen, hreq⟩ := hk t hne hwait
  rw [hslot, h.execSlots]
  exact ⟨i, hi, hopen, hreq⟩

/-- **Deed.** -/
theorem Awaited.deed (h : k.Awaited) (hd : Deed D k k') : k'.Awaited := by
  cases hd with
  | steady _ requests | time _ requests => exact requests.awaited h
  | register _ _ execSlots tcb =>
    intro t
    rw [tcb, execSlots]
    exact h t
  | @request i e deed _ =>
    intro t hne ht
    -- the slots of the others stay as they are
    have hother : (k.tcb t).state = .waitExecreq → (k'.tcb t).execreqSlot = (k.tcb t).execreqSlot →
        (∃ j : Fin 8, (k'.tcb t).execreqSlot = BitVec.ofNat 32 j.val ∧
          ((k'.execSlots j).state = .queued ∨ (k'.execSlots j).state = .delivered) ∧
          (k'.execSlots j).params.requesterTid = t.tid) ∨
        (k.tcb t).execreqSlot = BitVec.ofNat 32 i.val ∧
          ((k.execSlots i).state = .queued ∨ (k.execSlots i).state = .delivered) ∧
          (k.execSlots i).params.requesterTid = t.tid := by
      intro ht htcb
      obtain ⟨j, hj, hopen⟩ := h t hne ht
      rcases eq_or_ne j i with rfl | hji
      · exact .inr ⟨hj, hopen⟩
      · exact .inl ⟨j, htcb.trans hj, by rwa [deed.execSlots_of_ne hji]⟩
    have hmoves := deed.moves
    cases deed with
    | @accept _ _ me params _ empty requester =>
      rcases eq_or_ne t me with rfl | hme
      · refine ⟨i, ?_, .inl hmoves.2.1, ?_⟩
        · rw [modTcb_tcb_self]
        · change (update k.execSlots i _ i).params.requesterTid = _
          rw [update_self]
          exact requester
      · have hme : (t : TcbRef) ≠ me := by simpa using hme
        rw [modTcb_tcb_of_ne _ hme] at ht
        refine (hother ht (by rw [modTcb_tcb_of_ne _ hme]; rfl)).resolve_right ?_
        rintro ⟨-, hopen, -⟩
        rw [empty] at hopen
        rcases hopen with ho | ho <;> cases ho
    | acceptPoll _ empty =>
      refine (hother ht rfl).resolve_right ?_
      rintro ⟨-, hopen, -⟩
      rw [empty] at hopen
      rcases hopen with ho | ho <;> cases ho
    | deliver _ queued =>
      rcases hother ht rfl with hopen | ⟨hj, -, hreq⟩
      · exact hopen
      · refine ⟨i, hj, .inr hmoves.2.1, ?_⟩
        rw [modSlot_execSlots_self]
        exact hreq
    | done _ _ _ kernel =>
      refine (hother ht rfl).resolve_right ?_
      rintro ⟨-, -, hreq⟩
      rw [kernel] at hreq
      exact hne (Slot.tid_inj (show Slot.tid 0 = t.tid from hreq)).symm
    | free _ unawaited =>
      refine (hother ht rfl).resolve_right ?_
      rintro ⟨hj, -, hreq⟩
      exact unawaited t hne hreq ⟨ht, hj⟩

/-! ## Desks -/

structure Desk where
  kernel : Kernel
  tickets : Lib.Tickets (Fin 8)

namespace Desk

variable {w w' w₁ : Desk} {ok : Kernel → Label → Prop}

inductive Deed (D : Doing) (w : Desk) : Desk → Prop
  | request {i : Fin 8} {e : RequestEvent} {k' : Kernel} (deed : RequestDeed D i e w.kernel k')
      (times : w.kernel.SameTimes k') : Deed D w ⟨k', e.note i w.tickets⟩
  | other {k' : Kernel} (deed : Kernel.Deed D w.kernel k')
    (execSlots : k'.execSlots = w.kernel.execSlots) :
      Deed D w ⟨k', w.tickets⟩

abbrev Deeds (D : Doing) : Desk → Desk → Prop := Relation.ReflTransGen (Deed D)

theorem Deed.kernel (h : Deed D w w') : Kernel.Deed D w.kernel w'.kernel := by
  cases h with
  | request deed times => exact .request deed times
  | other deed => exact deed

theorem exists_deed (T : Lib.Tickets (Fin 8)) (h : Kernel.Deed D k k') :
    ∃ T', Deed D ⟨k, T⟩ ⟨k', T'⟩ := by
  cases h with
  | steady times requests => exact ⟨T, .other (.steady times requests) requests.execSlots⟩
  | time deed requests => exact ⟨T, .other (.time deed requests) requests.execSlots⟩
  | request deed times => exact ⟨_, .request deed times⟩
  | register registers times execSlots tcb =>
    exact ⟨T, .other (.register registers times execSlots tcb) execSlots⟩

theorem exists_deeds (T : Lib.Tickets (Fin 8)) (h : Kernel.Deeds D k k') :
    ∃ T', Deeds D ⟨k, T⟩ ⟨k', T'⟩ := by
  induction h with
  | refl => exact ⟨T, .refl⟩
  | tail _ hdeed ih =>
    obtain ⟨T₁, h₁⟩ := ih
    obtain ⟨T₂, h₂⟩ := exists_deed T₁ hdeed
    exact ⟨T₂, h₁.tail h₂⟩

/-- A section, recorded: `w₁` is the desk after the handler. -/
structure Section (w : Desk) (l : Label) (w₁ w' : Desk) : Prop where
  step : w.kernel.step l = some w'.kernel
  handled : w.kernel.handled l = some w₁.kernel
  handler : Deeds (w.kernel.doing l) ⟨w.kernel.entered l, w.tickets⟩ w₁
  wayBack : Deeds (w₁.kernel.wayBack l) w₁ w'

/-- The desks of recorded runs whose sections meet `ok`. -/
inductive Recorded (ok : Kernel → Label → Prop) : Desk → Prop
  | boot {k : Kernel} (h : k.IsBoot) : Recorded ok ⟨k, .new⟩
  | step {w w₁ w' : Desk} {l : Label} (hw : Recorded ok w) (hok : ok w.kernel l)
      (hs : w.Section l w₁ w') : Recorded ok w'

theorem Recorded.reachable (h : Recorded ok w) : Reachable ok w.kernel := by
  induction h with
  | boot hk => exact .init hk
  | step _ hok hs ih => exact ih.step hok hs.step

theorem exists_section (h : w.kernel.PollsOwn) (hs : w.kernel.step l = some k') :
    ∃ w₁ T, w.Section l w₁ ⟨k', T⟩ := by
  obtain ⟨k₁, hhandled, -, hhandler, hback⟩ := deeds_step h hs
  obtain ⟨T₁, h₁⟩ := exists_deeds w.tickets hhandler
  obtain ⟨T₂, h₂⟩ := exists_deeds T₁ hback
  exact ⟨⟨k₁, T₁⟩, T₂, hs, hhandled, h₁, h₂⟩

/-- **Recording.**  Runs can be recorded, and recording changes nothing. -/
theorem exists_recorded_iff : (∃ T, Recorded ok ⟨k, T⟩) ↔ Reachable ok k := by
  refine ⟨fun ⟨_, h⟩ => h.reachable, fun h => ?_⟩
  induction h with
  | init hk => exact ⟨_, .boot hk⟩
  | step _ hok hs ih =>
    obtain ⟨T, hT⟩ := ih
    obtain ⟨w₁, T', hsection⟩ :=
      exists_section (w := ⟨_, T⟩) (pollsOwn_of_reachable hT.reachable) hs
    exact ⟨T', hT.step hok hsection⟩

/-- What deeds and entries into the kernel preserve holds on recorded desks. -/
theorem Recorded.invariant {I : Desk → Prop} (hboot : ∀ {k : Kernel}, k.IsBoot → I ⟨k, .new⟩)
    (henter : ∀ {k : Kernel} {T l}, I ⟨k, T⟩ → I ⟨k.entered l, T⟩)
    (hdeed : ∀ {D w w'}, I w → Deed D w w' → I w') (h : Recorded ok w) : I w := by
  induction h with
  | boot hk => exact hboot hk
  | step _ _ hs ih => exact hs.wayBack.invariant hdeed (hs.handler.invariant hdeed (henter ih))

theorem entered_execSlots (k : Kernel) (l : Label) : (k.entered l).execSlots = k.execSlots := by
  cases l <;> rfl

/-! ## Numbers and generations -/

/-- The generation of a slot is the number of its request, up to 16 bits. -/
def Numbered (w : Desk) : Prop :=
  ∀ i, (w.kernel.execSlots i).generation = BitVec.ofNat 16 (w.tickets.closed i)

/-- A deed keeps the numbers of the requests. -/
theorem Numbered.deed (h : w.Numbered) (hd : Deed D w w') : w'.Numbered := by
  cases hd with
  | other _ execSlots =>
    intro i
    rw [execSlots]
    exact h i
  | @request i e k' deed _ =>
    intro j
    have hmoves := deed.moves
    rcases eq_or_ne j i with rfl | hne
    · -- a generation for each request the slot is done with
      have hsame : (k'.execSlots j).generation = (w.kernel.execSlots j).generation →
          (k'.execSlots j).generation = BitVec.ofNat 16 (w.tickets.closed j) := fun hg =>
            hg.trans (h j)
      have hnext : (k'.execSlots j).generation = (w.kernel.execSlots j).generation + 1 →
          (k'.execSlots j).generation =
            BitVec.ofNat 16 (update w.tickets.closed j (w.tickets.closed j + 1) j) := by
        intro hg
        rw [hg, h j, update_self, BitVec.ofNat_add]
        rfl
      cases e with
      | accepted | delivered | completed => exact hsame hmoves.2.2
      | answered | failed | cancelled | collected => exact hnext hmoves.2.2
    · have hclosed : (e.note i w.tickets).closed j = w.tickets.closed j := by
        cases e <;> first | rfl | exact update_of_ne hne ..
      change (k'.execSlots j).generation = BitVec.ofNat 16 ((e.note i w.tickets).closed j)
      rw [deed.execSlots_of_ne hne, hclosed]
      exact h j

theorem Recorded.numbered (h : Recorded ok w) : w.Numbered := by
  refine h.invariant (I := Numbered) ?_ ?_ Numbered.deed
  · rintro k ⟨base, size, fpu, rfl⟩ i
    rfl
  · intro k T l hk i
    exact (congrArg (fun s => (s i).generation) (entered_execSlots k l)).trans (hk i)

/-! ## Outcomes -/

def settled (k : Kernel) (i : Fin 8) : Prop := (k.execSlots i).state = .pollDone

theorem settled_congr {i : Fin 8} (h : k'.execSlots i = k.execSlots i) :
    settled k' i ↔ settled k i := by
  rw [settled, settled, h]

theorem not_settled {s : ExecreqState} (h : (k.execSlots i).state = s) (hs : s ≠ .pollDone) :
    ¬ settled k i :=
  fun hset => hs (h.symm.trans hset)

/-- **Deed.**  The requests with an outcome are those that are done with, and completed ones. -/
theorem listed_deed (h : w.tickets.Listed (settled w.kernel)) (hd : Deed D w w') :
    w'.tickets.Listed (settled w'.kernel) := by
  cases hd with
  | other _ execSlots => exact h.congr fun j => settled_congr (congrFun execSlots j)
  | @request i e k' deed _ =>
    have hother : ∀ j, j ≠ i → (settled k' j ↔ settled w.kernel j) :=
      fun j hne => settled_congr (deed.execSlots_of_ne hne)
    have hmoves := deed.moves
    cases e with
    | accepted | delivered =>
      refine h.congr fun j => ?_
      rcases eq_or_ne j i with rfl | hne
      · exact iff_of_false (not_settled hmoves.2.1 (by decide)) (not_settled hmoves.1 (by decide))
      · exact hother j hne
    | completed => exact h.settle hmoves.2.1 hother
    | answered | failed | cancelled =>
      exact h.settle_close (not_settled hmoves.2.1 (by decide)) hother
    | collected => exact h.close hmoves.1 (not_settled hmoves.2.1 (by decide)) hother

theorem listed_entered {T : Lib.Tickets (Fin 8)} (l : Label) (h : T.Listed (settled k)) :
    T.Listed (settled (k.entered l)) :=
  h.congr fun i => settled_congr (congrFun (entered_execSlots k l) i)

theorem listed_boot (h : k.IsBoot) :
    (Lib.Tickets.new : Lib.Tickets (Fin 8)).Listed (settled k) := by
  obtain ⟨base, size, fpu, rfl⟩ := h
  exact Lib.Tickets.listed_new fun i hi => by cases hi

theorem Recorded.listed (h : Recorded ok w) : w.tickets.Listed (settled w.kernel) :=
  h.invariant (I := fun w => w.tickets.Listed (settled w.kernel)) listed_boot (listed_entered _)
    listed_deed

structure Once (w : Desk) : Prop where
  listed : w.tickets.Listed (settled w.kernel)
  nodup : w.tickets.outcomes.Nodup
  polls : w.kernel.PollsOwn

/-- **Deed.**  A request gets no second outcome, unless the file server ends while the kernel
has yet to collect the first. -/
theorem Once.deed (h : w.Once) (h0 : ¬ D.ends 0)
    (hspared : ∀ {i t}, settled w.kernel i → D.ends t → w.kernel.ext2fsTid ≠ t.tid)
    (hd : Deed D w w') : w'.Once := by
  refine ⟨listed_deed h.listed hd, ?_, h.polls.deed hd.kernel⟩
  cases hd with
  | other => exact h.nodup
  | @request i e k' deed _ =>
    have hmoves := deed.moves
    have hsettle : ¬ settled w.kernel i → (w.tickets.settle i).outcomes.Nodup :=
      fun hset => h.listed.nodup_settle.mpr ⟨h.nodup, hset⟩
    cases e with
    | accepted | delivered | collected => exact h.nodup
    | completed | answered => exact hsettle (not_settled hmoves.1 (by decide))
    | failed =>
      refine hsettle fun hset => ?_
      cases deed with
      | free release =>
        cases release with
        | failed ends server => exact hspared hset ends server
    | cancelled =>
      refine hsettle fun hset => ?_
      cases deed with
      | free release =>
        cases release with
        | cancelled ends requester =>
          rw [h.polls i hset] at requester
          obtain rfl := Slot.tid_inj (show Slot.tid 0 = Slot.tid _ from requester)
          exact h0 ends

end Desk

/-! ## The end of the file server -/

/-- No request of the kernel is with the file server, or completed and not collected. -/
def Unclaimed (k : Kernel) : Prop :=
  ∀ i, (k.execSlots i).params.requesterTid = 0 → (k.execSlots i).state = .empty ∨
    (k.execSlots i).state = .queued
deriving Decidable

/-- The file server does not end while a request of the kernel is with it, or is completed and
not collected. -/
def SparesServer (k : Kernel) (l : Label) : Prop :=
  ∀ t : Slot, k.ext2fsTid = t.tid → k.mayEnd l t → k.Unclaimed
deriving Decidable

theorem ext2fsTid_deed (hd : Deed D k k') : D.registers ∨ k'.ext2fsTid = k.ext2fsTid := by
  cases hd with
  | steady _ requests | time _ requests => exact .inr requests.ext2fsTid
  | register registers => exact .inl registers
  | request deed => cases deed <;> exact .inr rfl

/-- The slot holds no request that is completed and not collected, and none of the kernel that
the file server may reply to. -/
def Idle (D : Doing) (s : ExecreqSlot) : Prop :=
  s.state ≠ .pollDone ∧
    (D.replies → s.params.requesterTid = 0 → s.state = .empty ∨ s.state = .queued)

theorem Idle.deed (h : ∀ i, Idle D (k.execSlots i)) (hd : Deed D k k') (i : Fin 8) :
    Idle D (k'.execSlots i) := by
  have hsame : k'.execSlots i = k.execSlots i → Idle D (k'.execSlots i) := fun heq => heq ▸ h i
  cases hd with
  | steady _ requests | time _ requests => exact hsame (congrFun requests.execSlots i)
  | register _ _ execSlots => exact hsame (congrFun execSlots i)
  | @request j e deed _ =>
    rcases eq_or_ne i j with rfl | hne
    · have hmoves := deed.moves
      have hnew : ∀ {s : ExecreqState}, (k'.execSlots i).state = s → s ≠ .pollDone →
        (k'.execSlots i).state ≠ .pollDone :=
        fun hs hne => hs ▸ hne
      cases deed with
      | accept | acceptPoll => exact ⟨hnew hmoves.2.1 (by decide), fun _ _ => .inr hmoves.2.1⟩
      | deliver other => exact ⟨hnew hmoves.2.1 (by decide), fun hr => absurd hr other⟩
      | done _ replies delivered kernel =>
        have hidle := (h i).2 replies kernel
        rw [delivered] at hidle
        rcases hidle with hs | hs <;> cases hs
      | free release =>
        cases release <;> exact ⟨hnew hmoves.2.1 (by decide), fun _ _ => .inl hmoves.2.1⟩
    · exact hsame (deed.execSlots_of_ne hne)

theorem PollsOwn.idle (h : k.PollsOwn) (hk : k.Unclaimed) (i : Fin 8) : Idle D (k.execSlots i) := by
  refine ⟨fun hdone => ?_, fun _ => hk i⟩
  have hidle := hk i (h i hdone)
  rw [hdone] at hidle
  rcases hidle with hs | hs <;> cases hs

theorem mayEnd_of_doing {t : Slot} (h : (k.doing l).ends t) : k.mayEnd l t :=
  (ends_doing h).imp id .inl

theorem mayEnd_of_wayBack {t : Slot} {k₁ : Kernel} (hs : k.step l = some k')
    (hk₁ : k.handled l = some k₁) (h : (k₁.wayBack l).ends t) : k.mayEnd l t := by
  obtain ⟨k₂, hk₂, hacts, -⟩ := acts_step hs
  obtain rfl : k₁ = k₂ := Option.some.inj (hk₁.symm.trans hk₂)
  refine .inr (.inr ⟨h.1, (hacts.fatalPending h.2).imp_left fun hp => ?_⟩)
  rwa [FatalPending, entered_field k l t Tcb.sigPending fun _ _ => rfl] at hp

theorem not_ends_of_registers (h : (k.doing l).registers) :
    ¬ l.Resumes ∧ ∀ t, ¬ (k.doing l).ends t := by
  have hhandling := handling_effects k l
  generalize k.effects l = F, k.doing l = D at hhandling h ⊢
  cases hhandling with
  | kern c op => cases op <;> first | exact h.elim | exact ⟨id, fun _ => id⟩
  | start | quiet | tick | call | fault => exact h.elim

namespace Desk

variable {w w' w₁ : Desk} {ok : Kernel → Label → Prop}

/-- **Deeds.**  No request gets a second outcome while `J` holds, in whose states the file
server does not end while the kernel has something to collect. -/
theorem Once.deeds {J : Kernel → Prop} (h0 : ¬ D.ends 0)
    (hJ : ∀ {k k'}, J k → Kernel.Deed D k k' → J k')
    (hspared : ∀ {k i t}, J k → settled k i → D.ends t → k.ext2fsTid ≠ t.tid) (hd : Deeds D w w')
    (h : w.Once) (hw : J w.kernel) : w'.Once ∧ J w'.kernel := by
  refine hd.invariant (I := fun w => w.Once ∧ J w.kernel) ?_ ⟨h, hw⟩
  rintro w₁ w₂ ⟨h, hw⟩ hdeed
  exact ⟨h.deed h0 (hspared hw) hdeed, hJ hw hdeed.kernel⟩

theorem Once.entered {T : Lib.Tickets (Fin 8)} (l : Label) (h : Once ⟨k, T⟩) :
    Once ⟨k.entered l, T⟩ := by
  refine ⟨listed_entered l h.listed, h.nodup, fun i => ?_⟩
  change ((k.entered l).execSlots i).state = _ → ((k.entered l).execSlots i).params.requesterTid = _
  rw [entered_execSlots]
  exact h.polls i

/-- **Section.** -/
theorem Once.section (h : w.Once) (hv : w.kernel.Vacant) (hok : w.kernel.SparesServer l)
    (hs : w.Section l w₁ w') : w'.Once := by
  obtain ⟨-, -, -, -, hkills, hexits⟩ := hv.effects l
  have h0 : ¬ (w.kernel.doing l).ends 0 := fun h => (ends_doing h).elim hkills hexits
  have h0' : ¬ (w₁.kernel.wayBack l).ends 0 := fun h => (hv.handled hs.step hs.handled).unharmed h.2
  have hstart : Once ⟨w.kernel.entered l, w.tickets⟩ := h.entered l
  by_cases hends : ∃ t, w.kernel.ext2fsTid = t.tid ∧ w.kernel.mayEnd l t
  · -- the server may end: nothing is completed in the section and not collected
    obtain ⟨t, htid, hend⟩ := hends
    have hidle : (w.kernel.entered l).Unclaimed := by
      intro i
      rw [entered_execSlots]
      exact hok t htid hend i
    obtain ⟨h₁, hidle₁⟩ :=
      Once.deeds (J := fun k => ∀ i, Idle (w.kernel.doing l) (k.execSlots i)) h0 Idle.deed
      (fun hk hset => absurd hset (hk _).1) hs.handler hstart (hstart.polls.idle hidle)
    exact (Once.deeds (J := fun k => ∀ i, Idle (w₁.kernel.wayBack l) (k.execSlots i)) h0' Idle.deed
      (fun hk hset => absurd hset (hk _).1) hs.wayBack h₁ fun i => ⟨(hidle₁ i).1, False.elim⟩).1
  · -- the server does not end
    have hspared : ∀ {t}, w.kernel.mayEnd l t → w.kernel.ext2fsTid ≠ t.tid :=
      fun hend htid => hends ⟨_, htid, hend⟩
    have hserver : (w.kernel.entered l).ext2fsTid = w.kernel.ext2fsTid := by cases l <;> rfl
    obtain ⟨h₁, hj₁⟩ := Once.deeds
      (J := fun k => (w.kernel.doing l).registers ∨ k.ext2fsTid = w.kernel.ext2fsTid) h0
      (fun hk hd => (ext2fsTid_deed hd).elim .inl fun heq => hk.imp_right heq.trans)
      (fun hk _ hend => by
        rcases hk with hreg | heq
        · exact absurd hend ((not_ends_of_registers hreg).2 _)
        · rw [heq]
          exact hspared (mayEnd_of_doing hend))
      hs.handler hstart (.inr hserver)
    refine (Once.deeds (J := fun k => (w.kernel.doing l).registers ∨
      k.ext2fsTid = w.kernel.ext2fsTid) h0' (fun hk hd =>
        (ext2fsTid_deed hd).elim False.elim fun heq => hk.imp_right heq.trans)
      (fun hk _ hend => ?_) hs.wayBack h₁ hj₁).1
    rcases hk with hreg | heq
    · exact absurd hend.1 (not_ends_of_registers hreg).1
    · rw [heq]
      exact hspared (mayEnd_of_wayBack hs.step hs.handled hend)

theorem Recorded.once (h : Recorded SparesServer w) : w.Once := by
  induction h with
  | boot hk =>
    exact ⟨listed_boot hk, .nil,
      pollsOwn_of_reachable (show Reachable SparesServer _ from .init hk)⟩
  | step hw hok hs ih => exact ih.section (vacant_of_reachable hw.reachable) hok hs

/-! ## Replies -/

/-- Numbers that differ by less than `2 ^ 16` have different generations. -/
theorem ofNat_ne_of_lt {n m : Nat} (hlt : n < m) (hm : m < n + 2 ^ 16) :
    BitVec.ofNat 16 m ≠ BitVec.ofNat 16 n := by
  intro heq
  have hmod := congrArg BitVec.toNat heq
  rw [BitVec.toNat_ofNat, BitVec.toNat_ofNat] at hmod
  omega

/-- **Outdated replies.**  A reply to a request that its slot is done with changes nothing. -/
theorem Numbered.execreqComplete (h : w.Numbered) {i : Fin 8} {n : Nat}
    (hlt : n < w.tickets.closed i) (hwrap : w.tickets.closed i < n + 2 ^ 16) (c : Cpu) (env : Env)
    (status : BitVec 32) (size : Word) :
    w.kernel.execreqComplete c env i (BitVec.ofNat 16 n) status size = w.kernel := by
  unfold Kernel.execreqComplete
  dsimp only
  refine if_pos (.inr ?_)
  rw [h i]
  exact ofNat_ne_of_lt hlt hwrap

/-- The caller of an outdated reply gets its status, and that is all. -/
theorem Numbered.infoExecreqReply (h : w.Numbered) {i : Fin 8} {n : Nat}
    (hlt : n < w.tickets.closed i) (hwrap : w.tickets.closed i < n + 2 ^ 16) (c : Cpu) (env : Env)
    {cur : Slot} (hslot : (w.kernel.tcb cur).uctx.r9.setWidth 32 = BitVec.ofNat 32 i.val)
    (hgen : (w.kernel.tcb cur).uctx.r10.setWidth 16 = BitVec.ofNat 16 n) :
    ∃ e, w.kernel.infoExecreqReply c env cur = w.kernel.setRax cur e := by
  have hval : (BitVec.ofNat 32 i.val).toNat = i.val := by
    rw [BitVec.toNat_ofNat]
    omega
  have hlt8 : (BitVec.ofNat 32 i.val).toNat < 8 := by omega
  have hi : (⟨(BitVec.ofNat 32 i.val).toNat, hlt8⟩ : Fin 8) = i := Fin.ext hval
  unfold Kernel.infoExecreqReply
  dsimp only
  split
  · exact ⟨.noCap, rfl⟩
  · refine ⟨.none, ?_⟩
    simp only [hslot, hgen, hlt8, dif_pos, hi, h.execreqComplete hlt hwrap]

/-! ## The protocol -/

/-- **The protocol.** -/
structure Sound (w : Desk) : Prop where
  /-- A thread that waits has a request in its slot. -/
  awaited : ∀ t : Slot, (w.kernel.tcb t).state = .waitExecreq →
    ∃ i : Fin 8, (w.kernel.tcb t).execreqSlot = BitVec.ofNat 32 i.val ∧
      (w.kernel.execSlots i).state ≠ .empty ∧ (w.kernel.execSlots i).params.requesterTid = t.tid
  /-- No request is completed or failed twice. -/
  once : w.tickets.outcomes.Nodup
  numbered : w.Numbered
  /-- An outdated reply changes no thread, address space or slot. -/
  outdated : ∀ {i : Fin 8} {n : Nat}, n < w.tickets.closed i → w.tickets.closed i < n + 2 ^ 16 →
    (∀ c env status size, w.kernel.execreqComplete c env i (BitVec.ofNat 16 n) status size =
      w.kernel) ∧
    ∀ c env (cur : Slot), (w.kernel.tcb cur).uctx.r9.setWidth 32 = BitVec.ofNat 32 i.val →
      (w.kernel.tcb cur).uctx.r10.setWidth 16 = BitVec.ofNat 16 n →
      ∃ e, w.kernel.infoExecreqReply c env cur = w.kernel.setRax cur e

theorem awaited_of_reachable (h : Reachable ok k) : k.Awaited := by
  obtain ⟨T, hT⟩ := exists_recorded_iff.mpr h
  refine hT.invariant (I := fun w => w.kernel.Awaited) ?_ ?_ fun hk hd => hk.deed hd.kernel
  · rintro k ⟨base, size, fpu, rfl⟩ t _ ht
    cases ht
  · intro k T l hk
    have hsteady : k.SameRequests (k.entered l) := by
      cases l with
      | kern | start => exact (Steady.refl k).requests
      | trap c e => exact (calm_enter k c e).requests
    exact hsteady.awaited hk

/-- In every run whose sections spare the file server, recorded as it is, the protocol is kept. -/
theorem sound_of_sparesServer (h : Reachable SparesServer k) :
    (∃ T, Recorded SparesServer ⟨k, T⟩) ∧ ∀ T, Recorded SparesServer ⟨k, T⟩ → Sound ⟨k, T⟩ := by
  refine ⟨exists_recorded_iff.mpr h, fun T hT => ⟨fun t ht => ?_, hT.once.nodup, hT.numbered, ?_⟩⟩
  · have hne : t ≠ 0 := by
      rintro rfl
      rcases (vacant_of_reachable h).state_ne ht with hs | hs <;> cases hs
    obtain ⟨i, hi, hopen, hreq⟩ := awaited_of_reachable h t hne ht
    refine ⟨i, hi, fun hempty => ?_, hreq⟩
    change (k.execSlots i).state = .empty at hempty
    rw [hempty] at hopen
    rcases hopen with ho | ho <;> cases ho
  · intro i n hlt hwrap
    exact ⟨hT.numbered.execreqComplete hlt hwrap, fun c env _ =>
      hT.numbered.infoExecreqReply hlt hwrap c env⟩

def spawnProgram (c : Cpu) : Label :=
  .trap c
    { frame := { vector := 0x30, rdx := 0x8000, r9 := 64 }, ctx := ⟨0, 0⟩
      env := { spawnName := some [0x73, 0x68] } }

def serverRun : List Label :=
  [.spawn 0x1000, .spawn 0x2000, .kern 0 (.setExt2fsTid 1), .start 0, .recv 0]

/-- Thread 2 waits for the reply to its request in slot 0. -/
theorem sound_serverRun :
    ∃ k, Lib.run step SparesServer (boot 0 0 0) (serverRun ++ [spawnProgram 0]) = some k ∧
      (k.tcb (2 : Slot)).state = .waitExecreq ∧ (k.execSlots 0).state = .delivered ∧
      ∃ T, Recorded SparesServer ⟨k, T⟩ ∧ Sound ⟨k, T⟩ := by
  obtain ⟨k, hk, hwaits, hslot⟩ :
    ∃ k ∈ Lib.run step SparesServer (boot 0 0 0) (serverRun ++ [spawnProgram 0]),
      (k.tcb (2 : Slot)).state = .waitExecreq ∧ (k.execSlots 0).state = .delivered := by
    decide +kernel
  obtain ⟨⟨T, hT⟩, hsound⟩ := sound_of_sparesServer (.of_run (.init ⟨0, 0, 0, rfl⟩) hk)
  exact ⟨k, hk, hwaits, hslot, T, hT, hsound T hT⟩

/-! ## A request with two outcomes -/

/-- A completed request of the kernel that is not collected stays, or gets another outcome. -/
theorem doubled_deed (hc : ¬ D.collects) {i : Fin 8} (hl : w.tickets.Listed (settled w.kernel))
    (h : settled w.kernel i ∨ ¬ w.tickets.outcomes.Nodup) (hd : Deed D w w') :
    settled w'.kernel i ∨ ¬ w'.tickets.outcomes.Nodup := by
  cases hd with
  | other _ execSlots => exact h.imp_left (settled_congr (congrFun execSlots i)).mpr
  | @request j e k' deed _ =>
    rcases h with hset | hdup
    · rcases eq_or_ne i j with rfl | hne
      · have hmoves := deed.moves
        cases e with
        | accepted | delivered | completed | answered =>
          exact absurd hset (not_settled hmoves.1 (by decide))
        | failed | cancelled => exact .inr fun hn => (hl.nodup_settle.mp hn).2 hset
        | collected =>
          cases deed with
          | free release =>
            cases release with
            | collected collects => exact absurd collects hc
      · exact .inl ((settled_congr (deed.execSlots_of_ne hne)).mpr hset)
    · refine .inr fun hn => hdup ?_
      cases e with
      | accepted | delivered | collected => exact hn
      | completed | answered | failed | cancelled => exact (hl.nodup_settle.mp hn).1

theorem doubled_deeds (hc : ¬ D.collects) {i : Fin 8} (hd : Deeds D w w')
    (hl : w.tickets.Listed (settled w.kernel))
    (h : settled w.kernel i ∨ ¬ w.tickets.outcomes.Nodup) :
    w'.tickets.Listed (settled w'.kernel) ∧
      (settled w'.kernel i ∨ ¬ w'.tickets.outcomes.Nodup) := by
  refine hd.invariant (I := fun w => w.tickets.Listed (settled w.kernel) ∧
    (settled w.kernel i ∨ ¬ w.tickets.outcomes.Nodup)) ?_ ⟨hl, h⟩
  rintro w₁ w₂ ⟨hl, h⟩ hdeed
  exact ⟨listed_deed hl hdeed, doubled_deed hc hl h hdeed⟩

/-- **A second outcome.**  A trap that gives back the slot of a completed request of the kernel
lets it fail. -/
theorem not_nodup_of_freed {c : Cpu} {e : Entry} {i : Fin 8} (hw : Recorded ok w)
    (hs : w.Section (.trap c e) w₁ w') (hset : settled w.kernel i)
    (hfreed : ¬ settled w'.kernel i) :
    ¬ w'.tickets.outcomes.Nodup := by
  have hc : ¬ (w.kernel.doing (.trap c e)).collects := by
    have hdoing := handling_effects w.kernel (.trap c e)
    generalize w.kernel.effects (.trap c e) = F, w.kernel.doing (.trap c e) = G at hdoing
    cases hdoing <;> exact id
  obtain ⟨hl₁, h₁⟩ := doubled_deeds hc hs.handler hw.listed (.inl hset)
  exact (doubled_deeds id hs.wayBack hl₁ h₁).2.resolve_left hfreed

/-- The file server replies to the first request in slot 0, with a program of 16 bytes. -/
def execreqReply (c : Cpu) : Label :=
  .trap c
    { frame := { vector := 0x30, rdx := 0x800000, r8 := 42, r14 := 16 }
      ctx := ⟨0, 0⟩
      env := { load := some ⟨0x400000, 0x8000, 0x5000, 0, 0, 0, 0, 0⟩, shmCopied := some 16 } }

def pollRun : List Label :=
  serverRun ++ [.kern 0 (.submitPoll { isSpawnCreate := true, name := [0x73, 0x68] }), .yield 0,
    execreqReply 0]

/-- After `pollRun` the program runs as thread 3.  The file server exits before the kernel has
collected it, and the request fails. -/
theorem not_sound_pollRun : ¬ ∀ k T, Recorded (fun _ _ => True) ⟨k, T⟩ → Sound ⟨k, T⟩ := by
  intro h
  obtain ⟨k, hreach, k', hs, hdone, hempty⟩ : ∃ k, Reachable (fun _ _ => True) k ∧
    ∃ k' ∈ k.step (Census.exit 0 0),
      (k.execSlots 0).state = .pollDone ∧ (k'.execSlots 0).state = .empty :=
    Lib.observed pollRun ⟨0, 0, 0, rfl⟩ (by decide +kernel)
  obtain ⟨T, hT⟩ := exists_recorded_iff.mpr hreach
  obtain ⟨w₁, T', hsection⟩ := exists_section (w := ⟨k, T⟩) (pollsOwn_of_reachable hreach) hs
  refine not_nodup_of_freed hT hsection hdone (fun hset => ?_)
    (h k' T' (hT.step trivial hsection)).once
  rw [settled, hempty] at hset
  cases hset

end Desk

end Robu.Kernel
