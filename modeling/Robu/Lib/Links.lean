import Mathlib.Data.List.Nodup
import Mathlib.Logic.Function.Basic
import Mathlib.Tactic.Common

/-!
# Intrusive queues

A *family of tail queues* threaded through one `next` field: every element
carries a single link, and each queue of the family is a head and a tail
pointer.  This is the shape of most kernel queues, where the elements are the
control blocks themselves and an element sits in at most one queue of the family.

Nothing here mentions a program.  The pointer level is `Queues`, the meaning is
`Queues.Holds Q l` ("queue `i` of `Q` is the list `l i`"), and the three
operations `push`, `unlink` and `clear` are the assignments a C implementation
performs, in its order.  Each has one rule, `Holds.push`, `Holds.unlink` and
`Holds.clear`, and `Holds.setNext` is the frame rule for the links of elements
that sit in no queue.

`scan` is the search loop that remembers the previous element.  It carries fuel,
because over broken links the loop it models need not stop.
-/

universe u v

namespace Robu.Lib

variable {ι : Type u} {α : Type v}

/-! ## Assigning one value of a function -/

section Update

open Function (update update_apply)

variable [DecidableEq ι] {i j : ι} {l : ι → List α} {a x : α}

theorem update_cases {f : ι → α} {v w : α} (h : update f i v j = w) :
    j = i ∧ v = w ∨ j ≠ i ∧ f j = w := by
  rwa [update_apply, ite_eq_iff] at h

theorem update_congr {f g : ι → α} {v : α} (h : j ≠ i → f j = g j) :
    update f i v j = update g i v j := by
  rw [update_apply, update_apply]
  split
  · rfl
  · exact h ‹_›

theorem mem_update {m : List α} : x ∈ update l i m j ↔ j = i ∧ x ∈ m ∨ j ≠ i ∧ x ∈ l j := by
  rw [update_apply]
  split <;> simp [*]

theorem mem_update_cons : x ∈ update l i (a :: l i) j ↔ j = i ∧ x = a ∨ x ∈ l j := by
  rw [mem_update]
  rcases eq_or_ne j i with rfl | hj <;> simp [*]

theorem mem_update_append : x ∈ update l i (l i ++ [a]) j ↔ x ∈ l j ∨ j = i ∧ x = a := by
  rw [mem_update]
  rcases eq_or_ne j i with rfl | hj <;> simp [*]

end Update

/-! ## Chains -/

/-- `Chain next h l`: following `next` from `h` visits exactly `l`, in order, and
then reaches the null pointer. -/
def Chain (next : α → Option α) : Option α → List α → Prop
  | h, [] => h = none
  | h, a :: l => h = some a ∧ Chain next (next a) l

namespace Chain

variable {next next' : α → Option α} {h : Option α} {l l' l₁ l₂ : List α} {a b : α}

instance instDecidable [DecidableEq α] : ∀ (h : Option α) (l : List α), Decidable (Chain next h l)
  | h, [] => inferInstanceAs (Decidable (h = none))
  | h, a :: l =>
    haveI : Decidable (Chain next (next a) l) := instDecidable (next a) l
    inferInstanceAs (Decidable (h = some a ∧ Chain next (next a) l))

@[simp] theorem nil_iff : Chain next h [] ↔ h = none := Iff.rfl

@[simp] theorem cons_iff : Chain next h (a :: l) ↔ h = some a ∧ Chain next (next a) l := Iff.rfl

/-- The list a pointer reaches is determined by the pointer. -/
theorem unique (hl : Chain next h l) (hl' : Chain next h l') : l = l' := by
  induction l generalizing h l' with
  | nil =>
    cases l' with
    | nil => rfl
    | cons b l' => rw [nil_iff] at hl; rw [cons_iff, hl] at hl'; cases hl'.1
  | cons a l ih =>
    cases l' with
    | nil => rw [nil_iff] at hl'; rw [cons_iff, hl'] at hl; cases hl.1
    | cons b l' =>
      obtain ⟨ha, hl⟩ := hl
      obtain ⟨hb, hl'⟩ := hl'
      obtain rfl : a = b := Option.some.inj (ha.symm.trans hb)
      rw [ih hl hl']

/-- A chain only depends on the links of its own elements. -/
theorem congr (hl : Chain next h l) (heq : ∀ x ∈ l, next' x = next x) : Chain next' h l := by
  induction l generalizing h with
  | nil => exact hl
  | cons a l ih =>
    refine ⟨hl.1, ?_⟩
    rw [heq a (.head _)]
    exact ih hl.2 fun x hx => heq x (.tail a hx)

/-- Every suffix of a chain is a chain from the link of the element before it. -/
theorem suffix (hl : Chain next h (l₁ ++ a :: l₂)) : Chain next (next a) l₂ := by
  induction l₁ generalizing h with
  | nil => exact hl.2
  | cons b l₁ ih => exact ih hl.2

/-- The link of an element of a chain leads to an element of the chain. -/
theorem mem_of_next (hl : Chain next h l) (ha : a ∈ l) (hb : next a = some b) : b ∈ l := by
  obtain ⟨l₁, l₂, rfl⟩ := List.append_of_mem ha
  have hsuf := suffix hl
  cases l₂ with
  | nil => rw [nil_iff, hb] at hsuf; cases hsuf
  | cons d l₂ =>
    obtain rfl : b = d := Option.some.inj (hb.symm.trans hsuf.1)
    simp

/-- A finite chain visits no element twice: the rest of the walk after an element
is determined by that element, so a repetition would make the walk infinite. -/
theorem nodup (hl : Chain next h l) : l.Nodup := by
  induction l generalizing h with
  | nil => exact List.nodup_nil
  | cons a l ih =>
    refine List.nodup_cons.mpr ⟨fun hmem => ?_, ih hl.2⟩
    obtain ⟨l₁, l₂, rfl⟩ := List.append_of_mem hmem
    have heq := congrArg List.length (hl.2.unique (suffix hl.2))
    simp only [List.length_append, List.length_cons] at heq
    omega

/-- The head of a chain is the head of its list. -/
theorem head_eq (hl : Chain next h l) : h = l.head? := by
  cases l with
  | nil => exact hl
  | cons a l => exact hl.1

/-- The part of a chain behind `b` is replaced by what the new link of `b` leads to. -/
theorem splice (hl : Chain next h (l₁ ++ b :: l₂)) (heq : ∀ x ∈ l₁, next' x = next x)
    (hl' : Chain next' (next' b) l) : Chain next' h (l₁ ++ b :: l) := by
  induction l₁ generalizing h with
  | nil => exact ⟨hl.1, hl'⟩
  | cons c l₁ ih =>
    refine ⟨hl.1, ?_⟩
    rw [heq c (.head _)]
    exact ih hl.2 fun x hx => heq x (.tail c hx)

variable [DecidableEq α]

/-- Writing the link of an element outside the chain does not disturb it. -/
theorem update (hl : Chain next h l) (ha : a ∉ l) (v : Option α) :
    Chain (Function.update next a v) h l :=
  hl.congr fun x hx => Function.update_of_ne (fun hc : x = a => ha (hc ▸ hx)) _ _

/-- Appending a fresh element to a non-empty chain: its own link is cleared, then
the last element is linked to it. -/
theorem snoc (hl : Chain next h (l ++ [b])) (ha : a ∉ l ++ [b]) :
    Chain (Function.update (Function.update next a none) b (some a)) h (l ++ [b] ++ [a]) := by
  have hnd := List.disjoint_of_nodup_append hl.nodup
  have hab : a ≠ b := fun hc => ha (by simp [hc])
  rw [List.append_assoc]
  refine hl.splice (fun x hx => ?_) ?_
  · rw [Function.update_of_ne fun hc => hnd hx (by simp [hc]),
      Function.update_of_ne fun hc => ha (by simp [← hc, hx])]
  · rw [Function.update_self]
    exact ⟨rfl, by rw [Function.update_of_ne hab, Function.update_self]; rfl⟩

/-- Removing an element that has a predecessor: the predecessor is linked past it. -/
theorem remove (hl : Chain next h (l₁ ++ b :: a :: l₂)) :
    Chain (Function.update (Function.update next b (next a)) a none) h (l₁ ++ b :: l₂) := by
  have hnd := List.disjoint_of_nodup_append hl.nodup
  obtain ⟨hb, ha⟩ := List.nodup_cons.mp hl.nodup.of_append_right
  refine hl.splice (fun x hx => ?_) ?_
  · rw [Function.update_of_ne fun hc => hnd hx (by simp [hc]),
      Function.update_of_ne fun hc => hnd hx (by simp [hc])]
  · rw [Function.update_of_ne fun hc => hb (by simp [hc]), Function.update_self]
    exact (hl.suffix.2.update (fun hc => hb (.tail a hc)) _).update (List.nodup_cons.mp ha).1 _

end Chain

open Function (update update_of_ne update_self)

/-! ## Families of tail queues -/

/-- The pointers of a family of tail queues: one link an element, one head and
one tail a queue. -/
@[ext]
structure Queues (ι : Type u) (α : Type v) where
  next : α → Option α
  head : ι → Option α
  tail : ι → Option α

namespace Queues

/-- The pointers represent the lists `l`: each queue is a chain ending at its tail
pointer, and no element sits in two queues. -/
structure Holds (Q : Queues ι α) (l : ι → List α) : Prop where
  chain : ∀ i, Chain Q.next (Q.head i) (l i)
  tail : ∀ i, Q.tail i = (l i).getLast?
  disjoint : ∀ {i j a}, a ∈ l i → a ∈ l j → i = j

variable {Q : Queues ι α} {l : ι → List α} {i : ι} {a : α} {l₁ l₂ : List α}

/-- No queue holds an element twice. -/
theorem Holds.nodup (h : Q.Holds l) (i : ι) : (l i).Nodup := (h.chain i).nodup

/-- A queue is empty exactly when its tail pointer is null. -/
theorem Holds.tail_eq_none (h : Q.Holds l) : Q.tail i = none ↔ l i = [] := by
  rw [h.tail i, List.getLast?_eq_none_iff]

/-- A queue is empty exactly when its head pointer is null. -/
theorem Holds.head_eq_none (h : Q.Holds l) : Q.head i = none ↔ l i = [] := by
  rw [(h.chain i).head_eq, List.head?_eq_none_iff]

/-- The represented lists only depend on the links of their own elements. -/
theorem Holds.congr {Q' : Queues ι α} (h : Q.Holds l) (hhead : Q'.head = Q.head)
    (htail : Q'.tail = Q.tail) (hnext : ∀ i, ∀ a ∈ l i, Q'.next a = Q.next a) : Q'.Holds l where
  chain i := by rw [hhead]; exact (h.chain i).congr (hnext i)
  tail i := by rw [htail]; exact h.tail i
  disjoint := h.disjoint

variable [DecidableEq ι] [DecidableEq α]

/-- Append `a` to queue `i`: clear its link, hang it behind the tail (or make it
the head of an empty queue), and move the tail. -/
def push (Q : Queues ι α) (i : ι) (a : α) : Queues ι α :=
  let next := update Q.next a none
  match Q.tail i with
  | some b =>
    { next := update next b (some a)
      head := Q.head
      tail := update Q.tail i (some a) }
  | none =>
    { next := next
      head := update Q.head i (some a)
      tail := update Q.tail i (some a) }

/-- Unlink `a` from queue `i`, given the element `prev` before it. -/
def unlink (Q : Queues ι α) (i : ι) (prev : Option α) (a : α) : Queues ι α :=
  { next := update (match prev with
        | some b => update Q.next b (Q.next a)
        | none => Q.next) a none
    head := match prev with
      | some _ => Q.head
      | none => update Q.head i (Q.next a)
    tail := if Q.tail i = some a then update Q.tail i prev else Q.tail }

/-- Forget queue `i`, leaving the links of its elements as they are. -/
def clear (Q : Queues ι α) (i : ι) : Queues ι α :=
  { Q with head := update Q.head i none, tail := update Q.tail i none }

def setNext (Q : Queues ι α) (a : α) (v : Option α) : Queues ι α :=
  { Q with next := update Q.next a v }

omit [DecidableEq ι] in
/-- **Frame rule.**  The link of an element in no queue may be written freely. -/
theorem Holds.setNext (h : Q.Holds l) (ha : ∀ j, a ∉ l j) (v : Option α) :
    (Q.setNext a v).Holds l where
  chain j := (h.chain j).update (ha j) v
  tail := h.tail
  disjoint := h.disjoint

/-- **Append rule.**  Pushing an element that sits in no queue appends it. -/
theorem Holds.push (h : Q.Holds l) (ha : ∀ j, a ∉ l j) :
    (Q.push i a).Holds (update l i (l i ++ [a])) := by
  have hother : ∀ {j b}, j ≠ i → b ∈ l i → b ∉ l j := fun hj hb hb' => hj (h.disjoint hb' hb)
  refine ⟨fun j => ?_, fun j => ?_, fun {j k b} hj hk => ?_⟩
  · rcases List.eq_nil_or_concat (l i) with hnil | ⟨m, b, hm⟩
    · have htail : Q.tail i = none := h.tail_eq_none.mpr hnil
      simp only [Queues.push, htail]
      rcases eq_or_ne j i with rfl | hj
      · simp [hnil]
      · rw [update_of_ne hj, update_of_ne hj]
        exact (h.chain j).update (ha j) _
    · have htail : Q.tail i = some b := by rw [h.tail i, hm]; simp
      simp only [Queues.push, htail]
      rcases eq_or_ne j i with rfl | hj
      · rw [update_self, hm, List.concat_eq_append]
        refine Chain.snoc ?_ ?_
        · rw [← List.concat_eq_append, ← hm]; exact h.chain j
        · rw [← List.concat_eq_append, ← hm]; exact ha j
      · rw [update_of_ne hj]
        exact ((h.chain j).update (ha j) _).update (hother hj (by simp [hm])) _
  · have htail : (Q.push i a).tail = update Q.tail i (some a) := by
      unfold Queues.push; split <;> rfl
    rw [htail]
    rcases eq_or_ne j i with rfl | hj
    · simp
    · rw [update_of_ne hj, update_of_ne hj, h.tail j]
  · rw [mem_update_append] at hj hk
    rcases hj with hj | ⟨rfl, rfl⟩ <;> rcases hk with hk | ⟨rfl, hb⟩
    · exact h.disjoint hj hk
    · exact absurd (hb ▸ hj) (ha j)
    · exact absurd hk (ha k)
    · rfl

omit [DecidableEq α] in
/-- Shrinking the lists of a family keeps them disjoint. -/
private theorem disjoint_update_sublist (h : Q.Holds l) {m : List α} (hm : ∀ b ∈ m, b ∈ l i)
    {j k : ι} {b : α} (hj : b ∈ update l i m j) (hk : b ∈ update l i m k) :
    j = k := by
  have hsub : ∀ {n}, b ∈ update l i m n → b ∈ l n := by
    intro n hn
    rcases mem_update.mp hn with ⟨rfl, hb⟩ | ⟨-, hb⟩
    · exact hm b hb
    · exact hb
  exact h.disjoint (hsub hj) (hsub hk)

/-- **Removal rule.**  Unlinking an element behind its true predecessor removes it. -/
theorem Holds.unlink (h : Q.Holds l) (hl : l i = l₁ ++ a :: l₂) :
    (Q.unlink i l₁.getLast? a).Holds (update l i (l₁ ++ l₂)) := by
  have hmem : a ∈ l i := by simp [hl]
  have hnd : (l₁ ++ a :: l₂).Nodup := hl ▸ h.nodup i
  have hother : ∀ {j b}, j ≠ i → b ∈ l i → b ∉ l j := fun hj hb hb' => hj (h.disjoint hb' hb)
  have hch : Chain Q.next (Q.head i) (l₁ ++ a :: l₂) := hl ▸ h.chain i
  refine ⟨fun j => ?_, fun j => ?_, fun {j k b} hj hk => ?_⟩
  · rcases List.eq_nil_or_concat l₁ with rfl | ⟨m, b, rfl⟩
    · simp only [Queues.unlink, List.getLast?_nil]
      rcases eq_or_ne j i with rfl | hj
      · simp only [update_self, List.nil_append]
        rw [List.nil_append, List.nodup_cons] at hnd
        exact hch.2.update hnd.1 _
      · rw [update_of_ne hj, update_of_ne hj]
        exact (h.chain j).update (hother hj hmem) _
    · simp only [Queues.unlink, List.concat_eq_append, List.getLast?_append,
        List.getLast?_singleton, Option.some_or]
      rcases eq_or_ne j i with rfl | hj
      · rw [update_self, List.append_assoc, List.singleton_append]
        refine Chain.remove ?_
        simpa using hch
      · rw [update_of_ne hj]
        exact ((h.chain j).update (hother hj (by simp [hl])) _).update (hother hj hmem) _
  · have htail : (Q.unlink i l₁.getLast? a).tail =
        if Q.tail i = some a then update Q.tail i l₁.getLast? else Q.tail := rfl
    rw [htail, h.tail i, hl]
    rcases List.eq_nil_or_concat l₂ with rfl | ⟨m, b, rfl⟩
    · simp only [List.getLast?_append, List.getLast?_singleton, Option.some_or, if_true,
        List.append_nil]
      rcases eq_or_ne j i with rfl | hj
      · simp
      · rw [update_of_ne hj, update_of_ne hj, h.tail j]
    · have hba : b ≠ a := by
        rintro rfl
        rw [List.nodup_append] at hnd
        exact (List.nodup_cons.mp hnd.2.1).1 (by simp)
      have hlast : (l₁ ++ a :: m.concat b).getLast? = some b := by
        simp [List.getLast?_append, List.getLast?_cons]
      rw [hlast, if_neg (fun hc => hba (Option.some.inj hc))]
      rcases eq_or_ne j i with rfl | hj
      · rw [update_self, h.tail j, hl, hlast]
        simp
      · rw [update_of_ne hj, h.tail j]
  · refine disjoint_update_sublist h (fun b hb => ?_) hj hk
    rw [hl]
    rcases List.mem_append.mp hb with hb | hb
    · exact List.mem_append_left _ hb
    · exact List.mem_append_right _ (.tail a hb)

omit [DecidableEq α] in
/-- **Reset rule.**  Clearing the two pointers of a queue empties it. -/
theorem Holds.clear (h : Q.Holds l) : (Q.clear i).Holds (update l i []) := by
  refine ⟨fun j => ?_, fun j => ?_, fun {j k b} hj hk => ?_⟩
  · rcases eq_or_ne j i with rfl | hj
    · simp [Queues.clear]
    · simp only [Queues.clear, update_of_ne hj]; exact h.chain j
  · rcases eq_or_ne j i with rfl | hj
    · simp [Queues.clear]
    · simp only [Queues.clear, update_of_ne hj]; exact h.tail j
  · exact disjoint_update_sublist h (fun b hb => absurd hb List.not_mem_nil) hj hk

end Queues

/-! ## Searching a queue -/

/-- The search loop `for (prev = 0, s = h; s; prev = s, s = next s)` up to the
first element satisfying `p`.  `none` is a loop still running after `fuel`
iterations, `some none` a failed search, and `some (some (prev, a))` the element
found with its predecessor. -/
def scan (next : α → Option α) (p : α → Bool) :
    Nat → Option α → Option α → Option (Option (Option α × α))
  | 0, _, _ => none
  | _ + 1, _, none => some none
  | fuel + 1, prev, some a =>
    if p a then some (some (prev, a)) else scan next p fuel (some a) (next a)

variable {next : α → Option α} {p : α → Bool} {fuel : Nat} {h : Option α} {l : List α} {a : α}

/-- Over a chain shorter than the fuel the search stops.  It fails when no element qualifies,
and splits the list at the first one that does. -/
theorem scan_of_chain (hl : Chain next h l) (hf : l.length < fuel) (pre : List α) :
    (∀ x ∈ l, p x = false) ∧ scan next p fuel pre.getLast? h = some none ∨
    ∃ l₁ a l₂, l = l₁ ++ a :: l₂ ∧ p a ∧
      scan next p fuel pre.getLast? h = some (some ((pre ++ l₁).getLast?, a)) := by
  induction l generalizing h pre fuel with
  | nil =>
    obtain rfl : h = none := hl
    obtain ⟨n, rfl⟩ := Nat.exists_eq_succ_of_ne_zero (Nat.ne_of_gt hf)
    exact .inl ⟨nofun, rfl⟩
  | cons b l ih =>
    obtain ⟨rfl, hl⟩ := hl
    obtain ⟨n, rfl⟩ := Nat.exists_eq_succ_of_ne_zero (Nat.ne_zero_of_lt hf)
    cases hp : p b with
    | true => exact .inr ⟨[], b, l, rfl, hp, by simp [scan, hp]⟩
    | false =>
      have hscan : scan next p (n + 1) pre.getLast? (some b) =
        scan next p n (pre ++ [b]).getLast? (next b) := by
        simp [scan, hp]
      rw [hscan]
      rcases ih hl (Nat.lt_of_succ_lt_succ hf) (pre ++ [b]) with ⟨hno, hs⟩ |
        ⟨l₁, a, l₂, rfl, ha, hs⟩
      · exact .inl ⟨List.forall_mem_cons.mpr ⟨hp, hno⟩, hs⟩
      · exact .inr ⟨b :: l₁, a, l₂, rfl, ha, by rw [hs, List.append_assoc]; rfl⟩

end Robu.Lib
