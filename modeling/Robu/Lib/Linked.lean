import Robu.Lib.Lifo
import Mathlib.Logic.Relation

/-!
# What the links of queues lead to

`Queues.Holds` says that the pointers of a family of queues represent lists.  Less is needed
to know that an element is *not* in a queue: that no path of links leads to it from a head.
This survives the operations whatever the links are, also when they represent no lists.
-/

universe u v

namespace Robu.Lib

open Function (update update_of_ne update_self)

variable {ι : Type u} {α : Type v} {prev prev₀ : Option α} {fuel : Nat} {p : α → Bool}

/-- The search loop finds an element that qualifies, behind the one it remembers, on the way from
where it starts. -/
theorem scan_found {next : α → Option α} {h : Option α} {a : α}
    (hs : scan next p fuel prev₀ h = some (some (prev, a))) :
    p a = true ∧ (prev = prev₀ ∧ h = some a ∨ ∃ b, prev = some b ∧ next b = some a) ∧
      ∃ b, h = some b ∧ Relation.ReflTransGen (fun x y => next x = some y) b a := by
  induction fuel generalizing prev₀ h with
  | zero => cases hs
  | succ fuel ih =>
    cases h with
    | none => cases hs
    | some b =>
      unfold scan at hs
      split at hs
      · cases hs
        exact ⟨‹_›, .inl ⟨rfl, rfl⟩, _, rfl, .refl⟩
      obtain ⟨ha, hprev, d, hd, hpath⟩ := ih hs
      refine ⟨ha, .inr ?_, b, rfl, .head hd hpath⟩
      rcases hprev with ⟨rfl, hb⟩ | hrest
      · exact ⟨b, rfl, hb⟩
      · exact hrest

namespace Queues

variable {Q Q' : Queues ι α} {i : ι} {a x : α}

def Link (Q : Queues ι α) (a b : α) : Prop := Q.next a = some b

def Linked (Q : Queues ι α) (x : α) : Prop :=
  ∃ i h, Q.head i = some h ∧ Relation.ReflTransGen Q.Link h x

theorem Linked.of_head (h : Q.head i = some x) : Q.Linked x := ⟨i, x, h, .refl⟩

theorem Linked.link (h : Q.Linked a) (hl : Q.next a = some x) : Q.Linked x := by
  obtain ⟨i, b, hb, hpath⟩ := h
  exact ⟨i, b, hb, hpath.tail hl⟩

/-- **Path rule.**  A set that holds the heads and is closed under links holds what is
linked. -/
theorem Linked.induction {P : α → Prop} (hhead : ∀ i a, Q.head i = some a → P a)
    (hnext : ∀ a b, P a → Q.next a = some b → P b) (h : Q.Linked x) : P x := by
  obtain ⟨i, a, ha, hpath⟩ := h
  induction hpath with
  | refl => exact hhead i a ha
  | tail _ hl ih => exact hnext _ _ ih hl

/-- If the pointers represent lists, what is linked is in a list. -/
theorem Linked.mem_of_holds {l : ι → List α} (hl : Q.Holds l) (h : Q.Linked x) : ∃ i, x ∈ l i := by
  refine h.induction (P := fun x => ∃ i, x ∈ l i) (fun i a ha => ⟨i, ?_⟩) fun a b ⟨i, hi⟩ hb =>
    ⟨i, (hl.chain i).mem_of_next hi hb⟩
  have hhead := (hl.chain i).head_eq
  rw [ha] at hhead
  exact List.mem_of_mem_head? hhead.symm

/-- Clearing pointers links nothing. -/
theorem Linked.of_cleared (hhead : ∀ i, Q'.head i = Q.head i ∨ Q'.head i = none)
    (hnext : ∀ a, Q'.next a = Q.next a ∨ Q'.next a = none) (h : Q'.Linked x) : Q.Linked x := by
  refine h.induction (fun i a ha => ?_) fun a b hlinked hl => ?_
  · rcases hhead i with heq | heq
    · exact .of_head (heq.symm.trans ha)
    · rw [heq] at ha
      cases ha
  · rcases hnext a with heq | heq
    · exact hlinked.link (heq.symm.trans hl)
    · rw [heq] at hl
      cases hl

variable [DecidableEq ι] [DecidableEq α]

/-- The links after pushing `a` lead to it, or are old links of other elements. -/
theorem next_push {b c : α} (h : (Q.push i a).next b = some c) :
    c = a ∨ b ≠ a ∧ Q.next b = some c := by
  have hold : update Q.next a none b = some c → b ≠ a ∧ Q.next b = some c := fun hc =>
    (update_cases hc).resolve_left fun h => Option.some_ne_none c h.2.symm
  unfold push at h
  split at h
  · rcases update_cases h with ⟨-, ⟨⟩⟩ | ⟨-, h⟩
    · exact .inl rfl
    · exact .inr (hold h)
  · exact .inr (hold h)

/-- Pushing an element links nothing else. -/
theorem Linked.of_push (h : (Q.push i a).Linked x) : x = a ∨ Q.Linked x := by
  refine h.induction (P := fun x => x = a ∨ Q.Linked x) (fun j b hb => ?_) fun b c hlinked hl => ?_
  · unfold push at hb
    split at hb
    · exact .inr (.of_head hb)
    rcases update_cases hb with ⟨-, ⟨⟩⟩ | ⟨-, hb⟩
    · exact .inl rfl
    · exact .inr (.of_head hb)
  · rcases next_push hl with rfl | ⟨hba, hold⟩
    · exact .inl rfl
    · exact .inr ((hlinked.resolve_left hba).link hold)

/-- Unlinking an element found behind `prev` links nothing. -/
theorem Linked.of_unlink (hprev : prev.elim (Q.head i = some a) fun b => Q.next b = some a)
    (h : (Q.unlink i prev a).Linked x) : Q.Linked x := by
  refine h.induction (fun j b hb => ?_) fun b c hlinked hl => ?_
  · cases prev with
    | some d => exact .of_head hb
    | none =>
      rcases update_cases hb with ⟨-, hb⟩ | ⟨-, hb⟩
      · exact (Linked.of_head hprev).link hb
      · exact .of_head hb
  · rcases update_cases hl with ⟨-, ⟨⟩⟩ | ⟨-, hl⟩
    cases prev with
    | none => exact hlinked.link hl
    | some d =>
      rcases update_cases hl with ⟨rfl, hc⟩ | ⟨-, hc⟩
      · exact (hlinked.link hprev).link hc
      · exact hlinked.link hc

omit [DecidableEq ι] in
/-- What the walk over a queue meets is linked. -/
theorem Linked.of_mem_walk (h : x ∈ walk fuel Q.next (Q.head i)) : Q.Linked x := by
  suffices hwalk : ∀ (fuel : Nat) (next : α → Option α) (o : Option α),
      (∀ b c, next b = some c → Q.next b = some c) → (∀ b, o = some b → Q.Linked b) →
      x ∈ walk fuel next o → Q.Linked x from
    hwalk fuel Q.next (Q.head i) (fun _ _ hl => hl) (fun _ hb => .of_head hb) h
  intro fuel
  induction fuel with
  | zero =>
    intro next o _ _ hx
    cases hx
  | succ fuel ih =>
    intro next o hnext ho hx
    cases o with
    | none => cases hx
    | some b =>
      have hb := ho b rfl
      rcases List.mem_cons.mp hx with rfl | hx
      · exact hb
      refine ih _ _ (fun d e hl => ?_) (fun d hd => hb.link (hnext b d hd)) hx
      rcases update_cases hl with ⟨-, ⟨⟩⟩ | ⟨-, hl⟩
      exact hnext d e hl

omit [DecidableEq α] [DecidableEq ι] in
/-- What the search of a queue finds is linked. -/
theorem Linked.of_scan (h : scan Q.next p fuel prev₀ (Q.head i) = some (some (prev, x))) :
    Q.Linked x := by
  obtain ⟨-, -, b, hb, hpath⟩ := scan_found h
  exact ⟨i, b, hb, hpath⟩

end Queues

end Robu.Lib
