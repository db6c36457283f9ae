import Robu.Core.Exclusive
import Mathlib.Data.Fintype.Card

/-!
# Parked senders

The send queues hold parked threads, and a thread is parked on the queue of the
thread it sends to.  This survives every step that does not wake or kill a parked
thread behind the back of the queue.

On top of it, a thread that waits for a message has looked at its queue: no sender
parked there passes its filter.  A thread starts to wait in two places.  A receive
searches the queue first.  The completion of a send-and-receive does not search the
sender's queue, and it is the only step that can miss a sender.
-/

namespace Robu.Core

open Function (update update_of_ne update_self)
open Lib (mem_update mem_update_append update_cases)

variable {F : Scope} {c : Cpu} {s s' : Core} {l : Slot → List Slot} {t : Slot}
variable {r : Slot} {next prev : Option Slot}
variable {filter : Tid} {me x : Slot}

/-- The send queues are the lists `l`, of threads parked for the owner of the queue. -/
structure Parked (s : Core) (l : Slot → List Slot) : Prop where
  holds : s.sq.Holds l
  parked : ∀ {r t}, t ∈ l r → s.state t = .waitSend ∧ s.partner t = r.tid

def Heard (s : Core) (l : Slot → List Slot) : Prop :=
  ∀ r, s.state r = .waitRecv → ∀ t ∈ l r, Kernel.passes (s.partner r) t = false

/-! ## Frames -/

theorem Parked.notMem (h : s.Parked l) (ht : s.state t ≠ .waitSend) (r : Slot) : t ∉ l r :=
  fun hmem => ht (h.parked hmem).1

theorem Parked.length_lt (h : s.Parked l) (r : Slot) : (l r).length < 65 := by
  have hlen := List.Nodup.length_le_card (h.holds.nodup r)
  rw [Fintype.card_fin] at hlen
  omega

theorem Parked.search_none (h : s.Parked l) (hs : s.search r filter = some none) :
    ∀ t ∈ l r, Kernel.passes filter t = false := by
  rcases Lib.scan_of_chain (p := Kernel.passes filter) (h.holds.chain r) (h.length_lt r) [] with
    ⟨hno, -⟩ | ⟨l₁, x, l₂, -, -, hscan⟩
  · exact hno
  · cases hs.symm.trans hscan

theorem Parked.search_found (h : s.Parked l) (hs : s.search r filter = some (some (prev, x))) :
    ∃ l₁ l₂, l r = l₁ ++ x :: l₂ ∧ prev = l₁.getLast? := by
  rcases Lib.scan_of_chain (p := Kernel.passes filter) (h.holds.chain r) (h.length_lt r) [] with
    ⟨-, hscan⟩ | ⟨l₁, y, l₂, hl, -, hscan⟩
  · cases hs.symm.trans hscan
  · cases hs.symm.trans hscan
    exact ⟨l₁, l₂, hl, rfl⟩

theorem Parked.senders_eq (h : s.Parked l) (r : Slot) : s.senders r = l r :=
  Lib.walk_of_chain (h.holds.chain r) (h.length_lt r).le

/-- **Frame rule.**  Parked threads stay parked. -/
theorem Parked.frame (h : s.Parked l) (hsq : s'.sq = s.sq)
    (hp : ∀ t, s.state t = .waitSend → s'.state t = .waitSend ∧ s'.partner t = s.partner t) :
    s'.Parked l where
  holds := hsq ▸ h.holds
  parked hmem := by
    obtain ⟨hst, hpt⟩ := h.parked hmem
    exact ⟨(hp _ hst).1, (hp _ hst).2.trans hpt⟩

/-- **Frame rule.**  No thread starts to wait, and no queue grows. -/
theorem Heard.frame {l' : Slot → List Slot} (h : s.Heard l)
    (hr : ∀ r, s'.state r = .waitRecv → s.state r = .waitRecv ∧ s'.partner r = s.partner r)
    (hl : ∀ r, ∀ t ∈ l' r, t ∈ l r) : s'.Heard l' := by
  intro r hw t ht
  obtain ⟨hst, hpt⟩ := hr r hw
  rw [hpt]
  exact h r hst t (hl r t ht)

/-- What a step has to show: the queues stay well formed, and if no sender is missed, every
waiting thread has heard its senders. -/
def Keeps (F : Scope) (s : Core) (l : Slot → List Slot) (s' : Core) : Prop :=
  ∃ l', s'.Parked l' ∧ (¬ F.missesSender → s.Heard l → s'.Heard l')

/-- A step that leaves the queues, and who is parked or waits for whom, alone. -/
theorem Keeps.of_frame (h : s.Parked l) (hsq : s'.sq = s.sq)
    (hp : ∀ t, s.state t = .waitSend → s'.state t = .waitSend ∧ s'.partner t = s.partner t)
    (hr : ∀ r, s'.state r = .waitRecv → s.state r = .waitRecv ∧ s'.partner r = s.partner r) :
    Keeps F s l s' :=
  ⟨l, h.frame hsq hp, fun _ hh => hh.frame hr fun _ _ ht => ht⟩

/-- Assigning a state that is none of the two waits, to a thread that is not parked. -/
theorem Keeps.setState (h : s.Parked l) (ht : s.state t ≠ .waitSend) {st : ThreadState}
    (hst : st ≠ .waitRecv) : Keeps F s l (s.setState t st) := by
  refine .of_frame h rfl (fun u hu => ⟨?_, rfl⟩) fun r hr => ⟨?_, rfl⟩
  · have hne : u ≠ t := fun heq => ht (heq ▸ hu)
    exact (update_of_ne hne ..).trans hu
  · exact ((update_cases hr).resolve_left fun heq => hst heq.2).2

/-! ## Steps on the queues -/

theorem Runs.not_parked (h : s.Runs c me) : s.state me ≠ .waitSend := by
  rw [h.2]; decide

theorem Keeps.receive (h : s.Parked l) (hme : s.state me ≠ .waitSend)
    (hf : s.search me filter = some none) : Keeps F s l (s.receive me filter) := by
  refine ⟨l, h.frame rfl fun u hu => ?_, fun _ hh r hr t ht => ?_⟩
  · have hne : u ≠ me := fun heq => hme (heq ▸ hu)
    exact ⟨(update_of_ne hne ..).trans hu, update_of_ne hne ..⟩
  · show Kernel.passes (update s.partner me filter r) t = false
    rcases eq_or_ne r me with rfl | hne
    · rw [update_self]
      exact h.search_none hf t ht
    · rw [update_of_ne hne]
      exact hh r ((update_of_ne hne ..).symm.trans hr) t ht

theorem Keeps.park (h : s.Parked l) {dest : Slot} {recvAfter : Tid}
    (hme : s.state me ≠ .waitSend) (hacc : ¬ s.Accepts dest me.tid) :
    Keeps F s l (s.park me dest recvAfter) := by
  refine ⟨_, ⟨h.holds.push (h.notMem hme), fun {r t} ht => ?_⟩, fun _ hh r hr t ht => ?_⟩
  · rcases mem_update_append.mp ht with hmem | ⟨rfl, rfl⟩
    · have hne : t ≠ me := fun heq => h.notMem hme r (heq ▸ hmem)
      obtain ⟨hst, hpt⟩ := h.parked hmem
      exact ⟨(update_of_ne hne ..).trans hst, (update_of_ne hne ..).trans hpt⟩
    · exact ⟨update_self .., update_self ..⟩
  · obtain ⟨-, ⟨⟩⟩ | ⟨hne, hst⟩ := update_cases hr
    show Kernel.passes (update s.partner me dest.tid r) t = false
    rw [update_of_ne hne]
    rcases mem_update_append.mp ht with hmem | ⟨rfl, rfl⟩
    · exact hh r hst t hmem
    · -- the receiver waits, but not for this sender
      simp only [Accepts, hst, true_and, not_or] at hacc
      simpa [Kernel.passes, hacc.1] using fun heq => hacc.2 heq.symm

/-- A sender that is off its queue goes on. -/
theorem Keeps.complete (h : s.Parked l) (hx : ∀ r, x ∉ l r) (hwait : s.state x = .waitSend)
    (hmiss : s.recvAfter x ≠ noRecvAfter → ¬ F.missesSender →
      ∀ t ∈ l x, Kernel.passes (s.recvAfter x) t = false) : Keeps F s l (s.complete x) := by
  have hother : ∀ {r t}, t ∈ l r → t ≠ x := fun {r t} ht heq => hx r (heq ▸ ht)
  unfold Core.complete
  split
  · rename_i hra
    refine ⟨l, ⟨h.holds, fun {r t} ht => ?_⟩, fun hF hh r hr t ht => ?_⟩
    · obtain ⟨hst, hpt⟩ := h.parked ht
      exact ⟨(update_of_ne (hother ht) ..).trans hst, (update_of_ne (hother ht) ..).trans hpt⟩
    · show Kernel.passes (update s.partner x (s.recvAfter x) r) t = false
      rcases eq_or_ne r x with rfl | hne
      · rw [update_self]
        exact hmiss hra hF t ht
      · rw [update_of_ne hne]
        exact hh r ((update_of_ne hne ..).symm.trans hr) t ht
  · have hasleep : s.Asleep x := by simp [Asleep, hwait]
    unfold Core.wake
    rw [if_pos hasleep]
    refine ⟨l, ⟨h.holds, fun {r t} ht => ?_⟩, fun _ hh =>
      hh.frame (fun r hr => ⟨?_, rfl⟩) fun _ _ ht => ht⟩
    · obtain ⟨hst, hpt⟩ := h.parked ht
      exact ⟨(update_of_ne (hother ht) ..).trans hst, hpt⟩
    · obtain ⟨-, ⟨⟩⟩ | ⟨-, hst⟩ := update_cases hr
      exact hst

/-- Receiving from a parked sender.  The sender leaves the queue before it is woken, or
goes on to wait. -/
theorem Keeps.take (h : s.Parked l)
    (hme : s.state me ≠ .waitSend) (hf : s.search me filter = some (some (prev, x)))
    (hmiss : s.recvAfter x ≠ noRecvAfter → s.search x (s.recvAfter x) ≠ some none →
      F.missesSender) : Keeps F s l (s.take me prev x) := by
  obtain ⟨l₁, l₂, hl, rfl⟩ := h.search_found hf
  have hmem : x ∈ l me := by simp [hl]
  have hne : x ≠ me := fun heq => hme (heq ▸ (h.parked hmem).1)
  have hnd : x ∉ l₁ ++ l₂ := by
    have := h.holds.nodup me
    rw [hl, List.nodup_middle, List.nodup_cons] at this
    exact this.1
  have hsub : ∀ r, ∀ t ∈ update l me (l₁ ++ l₂) r, t ∈ l r ∧ t ≠ x := by
    intro r t ht
    rw [mem_update] at ht
    rcases ht with ⟨rfl, ht⟩ | ⟨hr, ht⟩
    · refine ⟨?_, fun heq => hnd (heq ▸ ht)⟩
      rw [hl]
      exact (List.sublist_append_right [x] l₂ |>.append_left l₁).subset ht
    · exact ⟨ht, fun heq => hr (h.holds.disjoint (heq ▸ ht) hmem)⟩
  have h₁ : ({ s with sq := s.sq.unlink me l₁.getLast? x } : Core).Parked
    (update l me (l₁ ++ l₂)) :=
    ⟨h.holds.unlink hl, fun {r t} ht => h.parked (hsub r t ht).1⟩
  obtain ⟨l', hp, hh⟩ :=
    Keeps.complete (F := F) h₁ (fun r hx => (hsub r x hx).2 rfl) (h.parked hmem).1 (by
      intro hra hF t ht
      rw [update_of_ne hne] at ht
      by_contra hpass
      refine hF (hmiss hra fun hnone => hpass ?_)
      exact h.search_none hnone t ht)
  refine ⟨l', hp, fun hF hs => hh hF ?_⟩
  exact hs.frame (fun r hr => ⟨hr, rfl⟩) fun r t ht => (hsub r t ht).1

/-- Ending a thread that is not parked empties its queue and wakes the senders. -/
theorem Keeps.die (h : s.Parked l) (ht : s.state t ≠ .waitSend) {final : ThreadState}
    (hfinal : final = .dead ∨ final = .zombie) : Keeps F s l (s.die t final) := by
  have hstate : ∀ u, (s.die t final).state u = if u ∈ l t then .ready
      else update s.state t final u := by
    intro u
    show (if u ∈ s.senders t ∧ _ then _ else _) = _
    rw [h.senders_eq]
    refine if_congr ⟨And.left, fun hu => ⟨hu, ?_⟩⟩ rfl rfl
    have hne : u ≠ t := fun heq => h.notMem ht t (heq ▸ hu)
    have hst : (s.setState t final).state u = .waitSend :=
      (update_of_ne hne ..).trans (h.parked hu).1
    simp [Asleep, hst]
  have hsub : ∀ r, ∀ u ∈ update l t [] r, u ∈ l r ∧ u ∉ l t := by
    intro r u hu
    rcases mem_update.mp hu with ⟨-, ⟨⟩⟩ | ⟨hr, hu⟩
    exact ⟨hu, fun hu' => hr (h.holds.disjoint hu hu')⟩
  refine ⟨update l t [], ⟨?_, fun {r u} hu => ?_⟩, fun _ hh => hh.frame (fun r hr => ?_)
    fun r u hu => (hsub r u hu).1⟩
  · refine (h.holds.clear (i := t)).congr rfl rfl fun r u hu => ?_
    show (if u ∈ s.senders t then none else _) = _
    rw [h.senders_eq, if_neg (hsub r u hu).2]
    rfl
  · obtain ⟨hmem, hout⟩ := hsub r u hu
    have hne : u ≠ t := fun heq => h.notMem ht r (heq ▸ hmem)
    rw [hstate, if_neg hout, update_of_ne hne]
    exact h.parked hmem
  · rw [hstate] at hr
    split at hr
    · cases hr
    rcases update_cases hr with ⟨-, heq⟩ | ⟨-, hr⟩
    · rcases hfinal with rfl | rfl <;> cases heq
    · exact ⟨hr, rfl⟩

theorem Keeps.create (h : s.Parked l) (ht : s.state t ≠ .waitSend) {ctx : Ctx} :
    Keeps F s l (s.create t ctx) := by
  have hsub : ∀ r, ∀ u ∈ update l t [] r, u ∈ l r := by
    intro r u hu
    rcases mem_update.mp hu with ⟨-, ⟨⟩⟩ | ⟨-, hu⟩
    exact hu
  refine ⟨update l t [], ⟨?_, fun {r u} hu => ?_⟩, fun _ hh => hh.frame (fun r hr => ?_) hsub⟩
  · exact (h.holds.clear (i := t)).setNext (fun r hr => h.notMem ht r (hsub r t hr)) none
  · have hne : u ≠ t := fun heq => h.notMem ht r (heq ▸ hsub r u hu)
    obtain ⟨hst, hpt⟩ := h.parked (hsub r u hu)
    exact ⟨(update_of_ne hne ..).trans hst, (update_of_ne hne ..).trans hpt⟩
  · obtain ⟨-, ⟨⟩⟩ | ⟨hne, hst⟩ := update_cases hr
    exact ⟨hst, update_of_ne hne ..⟩

/-! ## Dispatching -/

/-- Picking the next thread moves threads between RUNNING and READY only. -/
theorem dispatch_state_iff (hn : ∀ t ∈ next, s.requeued c t = .ready)
    {w : ThreadState} (hrun : w ≠ .running) (hready : w ≠ .ready) :
    (s.dispatch c next).state t = w ↔ s.state t = w := by
  have hreq : s.requeued c t = w ↔ s.state t = w := by
    cases hp : s.current c with
    | none => simp only [requeued, hp]
    | some p =>
      simp only [requeued, hp]
      split
      · rename_i hpr
        rcases eq_or_ne t p with rfl | hne
        · rw [update_self, hpr]
          exact ⟨fun h => absurd h.symm hready, fun h => absurd h.symm hrun⟩
        · rw [update_of_ne hne]
      · rfl
  rw [← hreq]
  cases next with
  | none => exact Iff.rfl
  | some u =>
    show update (s.requeued c) u .running t = w ↔ _
    rcases eq_or_ne t u with rfl | hne
    · rw [update_self, hn t rfl]
      exact ⟨fun h => absurd h.symm hrun, fun h => absurd h.symm hready⟩
    · rw [update_of_ne hne]

theorem Keeps.dispatch (h : s.Parked l) (hn : ∀ t ∈ next, s.requeued c t = .ready)
    (hsq : s'.sq = s.sq) (hst : s'.state = (s.dispatch c next).state)
    (hpt : s'.partner = s.partner) :
    Keeps F s l s' := by
  refine .of_frame h hsq (fun t ht => ⟨?_, congrFun hpt t⟩) fun r hr => ⟨?_, congrFun hpt r⟩
  · rw [hst, dispatch_state_iff hn (by decide) (by decide), ht]
  · rw [hst] at hr
    exact (dispatch_state_iff hn (by decide) (by decide)).mp hr

/-! ## Sections -/

/-- **Step.** -/
theorem Keeps.step (hF : ¬ F.hitsParked) (h : s.Parked l) (hst : Step F c s s') :
    Keeps F s l s' := by
  cases hst with
  | wake _ hit => exact .setState h (fun hp => hF (hit hp)) (by decide)
  | block runs _ recv => exact .setState h runs.not_parked recv
  | receive runs found => exact .receive h runs.not_parked found
  | park runs accepts => exact .park h runs.not_parked accepts
  | take runs found _ missed => exact .take h runs.not_parked found missed
  | handOver waits _ =>
    obtain ⟨l', hp, hh⟩ : Keeps F s l (s.setState _ .running) :=
      .setState h (by rw [waits]; decide) (by decide)
    exact ⟨l', ⟨hp.holds, hp.parked⟩, hh⟩
  | exit runs ends => exact .die h runs.not_parked ends
  | kill _ hit => exact .die h (fun hp => hF (hit hp)) (.inl rfl)
  | reap zombie => exact .setState h (by rw [zombie]; decide) (by decide)
  | create dead _ _ => exact .create h (by rw [dead]; decide)
  | resched _ _ ready =>
    obtain ⟨hsq, hst, hpt, -, -⟩ := switch_frame (s.dispatch c _) c (s.cur c)
    exact .dispatch h ready hsq hst hpt
  | begin _ _ ready => exact .dispatch h ready rfl rfl rfl

/-- **Section.**  A section that hits no parked thread keeps the queues well formed, and one
that also misses no sender leaves no waiting thread with an unheard sender. -/
theorem Parked.steps (hF : ¬ F.hitsParked) (h : s.Parked l) (hst : Steps F c s s') :
    Keeps F s l s' := by
  induction hst with
  | refl => exact ⟨l, h, fun _ hh => hh⟩
  | tail _ hst ih =>
    obtain ⟨l₁, hp₁, hh₁⟩ := ih
    obtain ⟨l₂, hp₂, hh₂⟩ := Keeps.step hF hp₁ hst
    exact ⟨l₂, hp₂, fun hm hs => hh₂ hm (hh₁ hm hs)⟩

end Robu.Core
